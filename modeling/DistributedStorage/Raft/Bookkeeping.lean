import DistributedStorage.Raft.Conflicts
import DistributedStorage.Raft.Messages
import DistributedStorage.Raft.StateMachineSafety

/-! What a leader knows of its peers: `next_index` stays inside its log, and `match_index` counts entries
that the peer has held since the leader was elected. -/

set_option linter.unusedSectionVars false

namespace DistributedStorage.Raft

open Library.LeaderLogs Library.Runs

variable {ι σ ρ : Type} [DecidableEq ι] [Fintype ι]

lemma handleAppendEntriesReply_nextIndex {n : Node ι σ ρ} (peer : ι) (args : AppendEntriesArgs ι)
    (reply : AppendEntriesReply) :
    (n.handleAppendEntriesReply peer args reply).nextIndex = n.nextIndex ∨
    (Raises n peer args reply ∧ (n.handleAppendEntriesReply peer args reply).nextIndex =
      Function.update n.nextIndex peer (args.prevLogIndex + args.entries.length + 1)) ∨
    (reply.term ≤ n.currentTerm ∧ reply.success = false ∧
      (n.handleAppendEntriesReply peer args reply).nextIndex =
        Function.update n.nextIndex peer (n.backtrack reply.conflictIndex reply.conflictTerm)) := by
  simp only [Node.handleAppendEntriesReply]
  split_ifs with hterm hlead hsuccess
  · exact Or.inl rfl
  · exact Or.inl rfl
  · simp only [Node.advanceCommitIndex, Node.raiseMatch]
    split_ifs with hraise
    · exact Or.inr (Or.inl ⟨⟨not_lt.mp hterm, not_not.mp hlead, hsuccess, hraise⟩, rfl⟩)
    · exact Or.inl rfl
  · exact Or.inr (Or.inr ⟨not_lt.mp hterm, Bool.eq_false_iff.mpr hsuccess, rfl⟩)

namespace Cluster

/-- A reply to a request of an earlier term does not raise `matchIndex`, and its hint does not point
behind the leader's log. -/
def Current (s : Cluster ι σ ρ) : Message ι → Prop
  | .appendEntriesReply src boot args reply =>
    (s.nodes args.leaderId).boot = boot → reply.term ≤ (s.nodes args.leaderId).currentTerm →
    (s.nodes args.leaderId).state = .leader → args.term ≠ (s.nodes args.leaderId).currentTerm →
    (reply.success = true →
      args.prevLogIndex + args.entries.length ≤ (s.nodes args.leaderId).matchIndex src) ∧
    (reply.success = false → reply.conflictIndex ≤ (s.nodes args.leaderId).lastLogIndex + 1)
  | _ => True

instance (s : Cluster ι σ ρ) (m : Message ι) : Decidable (Current s m) :=
  match m with
  | .requestVote .. | .requestVoteReply .. | .appendEntries .. => inferInstanceAs (Decidable True)
  | .appendEntriesReply .. =>
    inferInstanceAs (Decidable (_ → _ → _ → _ → (_ → _) ∧ (_ → _)))

lemma Current.timely {s : Cluster ι σ ρ} {m : Message ι} (h : Current s m) : Timely s m := by
  cases m with
  | appendEntriesReply src boot args reply =>
    rintro hb ⟨hterm, hl, hr, hlt⟩
    by_contra hne
    have hle := (h hb hterm hl (Ne.symm hne)).1 hr
    omega
  | _ => trivial

variable {cfg : Config ι σ ρ} {s t : Cluster ι σ ρ} {a b : State ι Entry}

/-- `next_index` points into the leader's log or just behind it. -/
structure Bounded (s : Cluster ι σ ρ) : Prop where
  hints : ∀ src boot args reply, .appendEntriesReply src boot args reply ∈ s.sent →
    reply.success = false → reply.conflictIndex ≤ args.prevLogIndex ∧
      (0 < reply.conflictTerm → 0 < reply.conflictIndex)
  next : ∀ i, (s.nodes i).state = .leader → ∀ p, 0 < (s.nodes i).nextIndex p ∧
    (s.nodes i).nextIndex p ≤ (s.nodes i).log.length + 1

lemma init_bounded (cfg : Config ι σ ρ) : Bounded (init cfg) where
  hints _ _ _ _ h := (List.not_mem_nil h).elim
  next _ h := by cases h

lemma Tracks.leader_log (ha : Tracks s a) (hb : Tracks t b) (hg : Grows a b) {i : ι}
    (hs : (s.nodes i).state = .leader) (ht : (t.nodes i).state = .leader)
    (hterm : (t.nodes i).currentTerm = (s.nodes i).currentTerm) :
    (s.nodes i).log <+: (t.nodes i).log := by
  rw [← (ha.refines.leader i hs).1, ← (hb.refines.leader i ht).1, hterm]
  exact hg.leaderLog _

lemma becomeLeader_next {n : Node ι σ ρ} (hlast : n.lastLogIndex = n.log.length) (p : ι) :
    0 < n.becomeLeader.nextIndex p ∧ n.becomeLeader.nextIndex p ≤ n.becomeLeader.log.length + 1 := by
  simp only [Node.becomeLeader, Node.persistLog, hlast, List.length_append, List.length_singleton]
  split_ifs <;> omega

lemma electionEnds_won_next {n m : Node ι σ ρ} {term : ℕ}
    (h : n.electionEnds term = some (m, true)) (hal : Aligned n.log) (p : ι) :
    0 < m.nextIndex p ∧ m.nextIndex p ≤ m.log.length + 1 := by
  obtain ⟨el, -, -, -, -, rfl⟩ := electionEnds_won h
  apply becomeLeader_next
  exact hal.lastLogIndex

lemma appendEntry_next {n m : Node ι σ ρ} {cmd : Command} {w : ℕ}
    (h : n.appendEntry cfg cmd = .ok (m, w)) (hal : Aligned n.log) (p : ι)
    (hn : 0 < n.nextIndex p ∧ n.nextIndex p ≤ n.log.length + 1) :
    0 < m.nextIndex p ∧ m.nextIndex p ≤ m.log.length + 1 := by
  have hlast := hal.lastLogIndex
  simp only [Node.appendEntry] at h
  split_ifs at h with hl
  cases h
  simp only [Node.persistLog, List.length_append, List.length_singleton]
  by_cases hp : p = n.nodeId
  · rw [hp, Function.update_self]
    omega
  · rw [Function.update_of_ne hp]
    omega

lemma Tracks.sent_length (ha : Tracks s a) {dst : ι} {boot : ℕ} {args : AppendEntriesArgs ι}
    (hm : .appendEntries dst boot args ∈ s.sent) {i : ι} (hl : (s.nodes i).state = .leader)
    (hterm : args.term = (s.nodes i).currentTerm) :
    args.prevLogIndex + args.entries.length ≤ (s.nodes i).log.length := by
  obtain ⟨view, hv, hsl⟩ := ha.refines.messages _ hm
  rw [hsl.length_eq, ← (ha.refines.leader i hl).1, ← hterm]
  exact hv.length_le

lemma Bounded.reply (h : Bounded s) (ha : Tracks s a) {src : ι} {boot : ℕ}
    {args : AppendEntriesArgs ι} {reply : AppendEntriesReply}
    (hm : .appendEntriesReply src boot args reply ∈ s.sent)
    (hc : Current s (.appendEntriesReply src boot args reply))
    (hb : (s.nodes args.leaderId).boot = boot)
    (hl : (s.nodes args.leaderId).state = .leader) (p : ι) :
    0 < ((s.nodes args.leaderId).handleAppendEntriesReply src args reply).nextIndex p ∧
      ((s.nodes args.leaderId).handleAppendEntriesReply src args reply).nextIndex p ≤
        (s.nodes args.leaderId).log.length + 1 := by
  have hold := h.next _ hl
  have hreq := (ha.refines.messages _ hm).1
  -- what is written at `src` is in range, and nothing else changes
  have hwrite {k : ℕ} (hk : 0 < k ∧ k ≤ (s.nodes args.leaderId).log.length + 1) :
      0 < Function.update (s.nodes args.leaderId).nextIndex src k p ∧
        Function.update (s.nodes args.leaderId).nextIndex src k p ≤
          (s.nodes args.leaderId).log.length + 1 := by
    by_cases hp : p = src
    · rw [hp, Function.update_self]
      exact hk
    · rw [Function.update_of_ne hp]
      exact hold p
  rcases handleAppendEntriesReply_nextIndex (n := s.nodes args.leaderId) src args reply with
    he | ⟨hraise, he⟩ | ⟨hterm, hfail, he⟩
  · rw [he]
    exact hold p
  · rw [he]
    have hlen := ha.sent_length hreq hl (hc.timely hb hraise).symm
    exact hwrite ⟨by omega, by omega⟩
  · rw [he]
    apply hwrite
    obtain ⟨hci, hpos⟩ := h.hints src boot args reply hm hfail
    obtain ⟨hlow, hhigh⟩ := backtrack_bounds (s.nodes args.leaderId) hpos
    have hhint : reply.conflictIndex ≤ (s.nodes args.leaderId).log.length + 1 := by
      by_cases hcur : args.term = (s.nodes args.leaderId).currentTerm
      · have hlen := ha.sent_length hreq hl hcur
        omega
      · rw [← (ha.aligned _).lastLogIndex]
        exact (hc hb hterm hl hcur).2 hfail
    exact ⟨hlow, by omega⟩

lemma Bounded.change (h : Bounded s) (hg : Grows a b) (ha : Tracks s a) (hb : Tracks t b)
    (hc : Change cfg (Current s) s t) : Bounded t := by
  refine ⟨fun src boot args reply hm hr => ?_, fun i hl p => ?_⟩
  · rcases hc.sent hm with hm | ho
    · exact h.hints src boot args reply hm hr
    · cases ho with
      | appendEntriesReply dst boot args reply hreq hout =>
        have hsome : ((s.nodes src).handleAppendEntries args).2 = some reply := by rw [hout]
        exact (handleAppendEntries_rejects hsome hr).hint_le
  · cases hc.leading hl with
    | stays hold hterm hnext hmatch =>
      have hlen := (ha.leader_log hb hg hold hl hterm).length_le
      have hbounds := h.next i hold p
      rw [hnext]
      exact ⟨hbounds.1, by omega⟩
    | wins term n hn hself =>
      rw [hself]
      exact electionEnds_won_next hn (ha.aligned i) p
    | appends cmd n w hn hself =>
      have hold : (s.nodes i).state = .leader := (appendEntry_eq hn).1
      rw [hself]
      exact appendEntry_next hn (ha.aligned i) p (h.next i hold p)
    | replies src boot args reply hm hcur hid hboot hself =>
      subst hid
      have hold := (handleAppendEntriesReply_match src args reply (hself ▸ hl)).1
      rw [hself, (handleAppendEntriesReply_settles src args reply).log]
      exact h.reply ha hm hcur hboot hold p

/-- At a recorded moment after `i` was elected in `term`, the log of `p` started with `l`. -/
def Agreed (past : List (Cluster ι σ ρ)) (i p : ι) (term : ℕ) (l : List Entry) : Prop :=
  ∃ u ∈ past, .elected i term ∈ u.trace ∧ l <+: (u.nodes p).log

variable {past : List (Cluster ι σ ρ)}

lemma Agreed.later {u : Cluster ι σ ρ} {i p : ι} {term : ℕ} {l : List Entry}
    (h : Agreed past i p term l) : Agreed (past ++ [u]) i p term l :=
  let ⟨v, hv, hh⟩ := h
  ⟨v, List.mem_append_left _ hv, hh⟩

/-- What acknowledgements and `match_index` stand for. -/
structure Backs (s : Cluster ι σ ρ) (past : List (Cluster ι σ ρ)) (a : State ι Entry) : Prop where
  now : s ∈ past
  replies : ∀ src boot args reply, .appendEntriesReply src boot args reply ∈ s.sent →
    reply.success = true → Agreed past args.leaderId src args.term
      (a.prefixOf args.term (args.prevLogIndex + args.entries.length))
  matched : ∀ i, (s.nodes i).state = .leader → ∀ p, p ≠ i →
    (s.nodes i).matchIndex p ≤ (s.nodes i).log.length ∧
      Agreed past i p (s.nodes i).currentTerm ((s.nodes i).log.take ((s.nodes i).matchIndex p))

lemma Tracks.stored_prefix (hb : Tracks t b) {dst : ι} {boot : ℕ} {args : AppendEntriesArgs ι}
    {reply : AppendEntriesReply} (hm : .appendEntriesReply dst boot args reply ∈ t.sent)
    (hr : reply.success = true) (hterm : (t.nodes dst).currentTerm = args.term) :
    b.prefixOf args.term (args.prevLogIndex + args.entries.length) <+: (t.nodes dst).log := by
  have hack := (hb.refines.messages _ hm).2 hr
  rw [← hb.refines.log dst]
  refine hb.inv.keeps dst _ _ hack fun u htu hu _ => ?_
  rw [hb.refines.cur dst, hterm] at hu
  omega

lemma Backs.change (h : Backs s past a) (hg : Grows a b) (ha : Tracks s a) (hb : Tracks t b)
    (hsign : Signed s) (hc : Change cfg (Current s) s t) : Backs t (past ++ [t]) b := by
  have hnow : t ∈ past ++ [t] := List.mem_append_right _ (List.mem_singleton.mpr rfl)
  -- an agreement on a leader's log is not undone when that log grows
  have hcarry {i p : ι} (hl : (s.nodes i).state = .leader) (hp : p ≠ i)
      (hl' : (t.nodes i).state = .leader)
      (hterm : (t.nodes i).currentTerm = (s.nodes i).currentTerm) :
      (s.nodes i).matchIndex p ≤ (t.nodes i).log.length ∧
        Agreed (past ++ [t]) i p (t.nodes i).currentTerm
          ((t.nodes i).log.take ((s.nodes i).matchIndex p)) := by
    obtain ⟨hle, hagree⟩ := h.matched i hl p hp
    have hgrow := ha.leader_log hb hg hl hl' hterm
    rw [hterm, take_eq_of_isPrefix hgrow hle]
    exact ⟨hle.trans hgrow.length_le, hagree.later⟩
  have hzero {i : ι} (hl : (t.nodes i).state = .leader) (p : ι) :
      Agreed (past ++ [t]) i p (t.nodes i).currentTerm ((t.nodes i).log.take 0) :=
    ⟨t, hnow, hb.election.leader i hl, List.nil_prefix⟩
  refine ⟨hnow, fun src boot args reply hm hr => ?_, fun i hl p hp => ?_⟩
  · rcases hc.sent hm with hm' | ho
    · obtain ⟨hreq, hack⟩ := ha.refines.messages _ hm'
      rw [hg.prefixOf_eq ((hack hr).trans (ha.inv.acked_le _ _))]
      exact (h.replies src boot args reply hm' hr).later
    · cases ho with
      | appendEntriesReply dst boot args reply hreq hout =>
        have happ := handleAppendEntries_appended (s.nodes src) args
        rw [hout] at happ
        have hterm : (t.nodes src).currentTerm = args.term := by
          generalize t.nodes src = m at happ ⊢
          cases happ with
          | stale _ _ hfail => rw [hfail] at hr; cases hr
          | rejected _ _ _ _ _ _ hfail => rw [hfail reply rfl] at hr; cases hr
          | stored _ _ _ hterm _ _ _ _ => exact hterm
        exact ⟨t, hnow, hc.trace.subset (hsign _ _ _ hreq), hb.stored_prefix hm hr hterm⟩
  · cases hc.leading hl with
    | stays hold hterm hnext hmatch =>
      rw [hmatch]
      exact hcarry hold hp hl hterm
    | wins term n hn hself =>
      have hm0 : (t.nodes i).matchIndex p = 0 := by
        obtain ⟨el, -, -, rfl, -, rfl⟩ := electionEnds_won hn
        rw [hself]
        exact if_neg fun hpi => hp (hpi.trans (ha.election.nodeId i))
      rw [hm0]
      exact ⟨Nat.zero_le _, hzero hl p⟩
    | appends cmd n w hn hself =>
      obtain ⟨hold, hid, hterm, -⟩ := appendEntry_eq hn
      have hmatch : (t.nodes i).matchIndex p = (s.nodes i).matchIndex p := by
        simp only [Node.appendEntry] at hn
        split_ifs at hn
        cases hn
        rw [hself]
        exact Function.update_of_ne (fun hpi => hp (hpi.trans (ha.election.nodeId i))) ..
      rw [hmatch]
      exact hcarry hold hp hl (by rw [hself, hterm])
    | replies src boot args reply hm hcur hid hboot hself =>
      subst hid
      have hsettle := handleAppendEntriesReply_settles (n := s.nodes args.leaderId) src args reply
      have hterm : (t.nodes args.leaderId).currentTerm = (s.nodes args.leaderId).currentTerm := by
        rcases hsettle.role with hf | ⟨hterm, -⟩
        · rw [hself, hf] at hl
          cases hl
        · rw [hself, hterm]
      obtain ⟨hold, hmatch | ⟨hraise, hmatch⟩⟩ :=
        handleAppendEntriesReply_match src args reply (hself ▸ hl)
      · rw [← hself] at hmatch
        rw [hmatch]
        exact hcarry hold hp hl hterm
      · rw [← hself] at hmatch
        by_cases hps : p = src
        · -- the reply answers a request of this very leadership
          have htime := hcur.timely hboot hraise
          have hreq := (ha.refines.messages _ hm).1
          have hlen := ha.sent_length hreq hold htime.symm
          have hagree := h.replies src boot args reply hm hraise.2.2.1
          rw [← htime, State.prefixOf, (ha.refines.leader _ hold).1] at hagree
          rw [hmatch, hps, Function.update_self, hterm, hself, hsettle.log]
          exact ⟨hlen, hagree.later⟩
        · rw [hmatch, Function.update_of_ne hps]
          exact hcarry hold hp hl hterm

/-- The recording of every state a run of the cluster goes through. -/
abbrev remembering (cfg : Config ι σ ρ) : Cluster ι σ ρ × List (Cluster ι σ ρ) → Event ι →
    Option (Cluster ι σ ρ × List (Cluster ι σ ρ)) :=
  recording (step cfg) fun _ _ t => [t]

structure Informed (x : Cluster ι σ ρ × List (Cluster ι σ ρ)) (a : State ι Entry) : Prop where
  tracks : Tracks x.1 a
  signed : Signed x.1
  bounded : Bounded x.1
  backs : Backs x.1 x.2 a

lemma init_informed (cfg : Config ι σ ρ) : Informed (init cfg, [init cfg]) (State.init ι Entry) where
  tracks := init_tracks cfg
  signed _ _ _ h := (List.not_mem_nil h).elim
  bounded := init_bounded cfg
  backs := ⟨List.mem_singleton.mpr rfl, fun _ _ _ _ h => (List.not_mem_nil h).elim,
    fun _ h => by cases h⟩

lemma Informed.step {x y : Cluster ι σ ρ × List (Cluster ι σ ρ)} {e : Event ι} (h : Informed x a)
    (hq : AtDelivery Current x.1 e) (he : remembering cfg x e = some y) :
    ∃ b, Relation.ReflTransGen (Step Entry.term) a b ∧ Informed y b := by
  obtain ⟨hs, hy⟩ := recording_eq_some.mp he
  obtain ⟨b, hab, hb⟩ := h.tracks.step hs
  have hg := run_grows hab
  have hc := step_change hs hq
  refine ⟨b, hab, hb, h.signed.change h.tracks.election hc, h.bounded.change hg h.tracks hb hc, ?_⟩
  rw [hy]
  exact h.backs.change hg h.tracks hb h.signed hc

/-- In runs where no leader takes a reply to a request of an earlier term for news of its peer,
`next_index` never leaves the leader's log, so that every request can be built, and `match_index` is a
prefix on which the peer agreed with the leader's log at some moment of this leadership. -/
theorem bookkeeping_sound {cfg : Config ι σ ρ} {s : Cluster ι σ ρ} {past : List (Cluster ι σ ρ)}
    (h : Run (remembering cfg) (fun x e => AtDelivery Current x.1 e) (init cfg, [init cfg]) (s, past))
    {i p : ι} (hl : (s.nodes i).state = .leader) (hp : p ≠ i) :
    1 ≤ (s.nodes i).nextIndex p ∧ (s.nodes i).nextIndex p ≤ (s.nodes i).lastLogIndex + 1 ∧
    ((s.nodes i).isolated = false → ((s.nodes i).appendEntriesArgs p).isSome = true) ∧
    ∃ u ∈ past, .elected i (s.nodes i).currentTerm ∈ u.trace ∧
      (s.nodes i).matchIndex p ≤ (s.nodes i).log.length ∧
      (s.nodes i).matchIndex p ≤ (u.nodes p).log.length ∧
      (u.nodes p).log.take ((s.nodes i).matchIndex p) =
        (s.nodes i).log.take ((s.nodes i).matchIndex p) := by
  obtain ⟨a, -, ha⟩ := Run.simulates (fun _ _ _ _ hx hq he => hx.step hq he) h (init_informed cfg)
  obtain ⟨hpos, hle⟩ := ha.bounded.next i hl p
  obtain ⟨hlen, u, hu, hel, hpre⟩ := ha.backs.matched i hl p hp
  have htake : ((s.nodes i).log.take ((s.nodes i).matchIndex p)).length = (s.nodes i).matchIndex p := by
    rw [List.length_take, min_eq_left hlen]
  refine ⟨hpos, ?_, fun hiso => ?_, u, hu, hel, hlen, ?_, ?_⟩
  · rw [(ha.tracks.aligned i).lastLogIndex]
    exact hle
  · apply appendEntriesArgs_isSome hl hiso _ hle
    rwa [ha.tracks.election.nodeId i]
  · rw [← htake]
    exact hpre.length_le
  · rw [List.prefix_iff_eq_take, htake] at hpre
    exact hpre.symm

theorem bookkeeping_sound_both_commit :
    ∃ s past, Run (remembering (stateless 3)) (fun x e => AtDelivery Current x.1 e)
        (init (stateless 3), [init (stateless 3)]) (s, past) ∧
      (s.nodes 0).state = .leader ∧ (s.nodes 0).matchIndex 1 = 2 ∧
      ((s.nodes 0).appendEntriesArgs 1).isSome = true ∧
      ∃ u ∈ past, .elected 0 (s.nodes 0).currentTerm ∈ u.trace ∧
        (u.nodes 1).log.take 2 = (s.nodes 0).log.take 2 := by
  obtain ⟨⟨s, past⟩, hs, hl, hm, hiso⟩ := Run.exists_of_execute
    (guarded (remembering (stateless 3)) fun x e => AtDelivery Current x.1 e)
    (init (stateless 3), [init (stateless 3)]) bothCommit
    (fun x => (x.1.nodes 0).state = .leader ∧ (x.1.nodes 0).matchIndex 1 = 2 ∧
      (x.1.nodes 0).isolated = false) (by decide +kernel)
  obtain ⟨-, -, hargs, u, hu, hel, -, -, htake⟩ := bookkeeping_sound hs.of_guarded hl (p := 1) (by decide)
  rw [hm] at htake
  exact ⟨s, past, hs.of_guarded, hl, hm, hargs hiso, u, hu, hel, htake⟩

/-- Node 0 leads terms 1 and 3. A success reply of term 1 reaches it in term 3, when its log has become
shorter than the batch the reply acknowledges. -/
def overrun : List (Event (Fin 5)) :=
  campaign 0 1 0 [1, 2] ++ [.appendEntry 0 someCommand, .appendEntry 0 someCommand,
      .sendAppendEntries 0 1, .deliver 4] ++
    campaign 2 2 6 [3, 4] ++ [.sendAppendEntries 2 0, .deliver 10, .sendAppendEntries 2 1, .deliver 12] ++
    campaign 0 3 14 [1, 2] ++ [.deliver 5]

theorem bookkeeping_sound_overrun : ¬ ∀ s, Reachable (stateless 5) Free s →
    ∀ i p, (s.nodes i).state = .leader → p ≠ i →
      (s.nodes i).nextIndex p ≤ (s.nodes i).lastLogIndex + 1 ∧
      ((s.nodes i).isolated = false → ((s.nodes i).appendEntriesArgs p).isSome = true) := by
  intro hall
  obtain ⟨s, hs, hl, hnext, hlast⟩ := Run.exists_of_execute (step (stateless 5))
    (init (stateless 5)) overrun (fun s => (s.nodes 0).state = .leader ∧
      (s.nodes 0).nextIndex 1 = 4 ∧ (s.nodes 0).lastLogIndex = 2) (by decide +kernel)
  have hle := (hall s hs 0 1 hl (by decide)).1
  omega

end Cluster

end DistributedStorage.Raft

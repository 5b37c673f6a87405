import DistributedStorage.Raft.Commitment

/-! State machine safety, in runs where no leader counts a reply to a request of an earlier term. -/

set_option linter.unusedSectionVars false

namespace DistributedStorage.Raft

open Library.LeaderLogs Library.Runs

variable {ι σ ρ : Type} [DecidableEq ι] [Fintype ι]

namespace Cluster

/-- A success reply that raises `matchIndex` answers a request of the leader's present term. -/
def Timely (s : Cluster ι σ ρ) : Message ι → Prop
  | .appendEntriesReply src boot args reply => (s.nodes args.leaderId).boot = boot →
    Raises (s.nodes args.leaderId) src args reply →
    (s.nodes args.leaderId).currentTerm = args.term
  | _ => True

structure Commits (s : Cluster ι σ ρ) (a : State ι Entry) : Prop where
  matched : ∀ i, (s.nodes i).state = .leader → ∀ j,
    (s.nodes i).matchIndex j ≤ a.acked j (s.nodes i).currentTerm
  kept : ∀ i, ∃ p, p.length = (s.nodes i).commitIndex ∧ Kept Entry.term a i p
  sent : ∀ dst boot args, .appendEntries dst boot args ∈ s.sent → ∃ p,
    p.length = args.leaderCommit ∧ p.length ≤ args.prevLogIndex + args.entries.length ∧
      p <+: a.leaderLog args.term ∧ Chosen Entry.term a args.term p

variable {cfg : Config ι σ ρ} {s t : Cluster ι σ ρ} {a b : State ι Entry}

lemma init_commits (cfg : Config ι σ ρ) : Commits (init cfg) (State.init ι Entry) where
  matched _ h := by cases h
  kept i := ⟨[], rfl, .nil i⟩
  sent _ _ _ h := by simp [init] at h

lemma Commits.move (h : Commits s a) (hg : Grows a b) {i : ι} {n : Node ι σ ρ}
    (hn : t.nodes = Function.update s.nodes i n)
    (hsent : ∀ dst boot args, .appendEntries dst boot args ∈ t.sent →
      .appendEntries dst boot args ∈ s.sent)
    (hmatch : n.state = .leader → ∀ j, n.matchIndex j ≤ b.acked j n.currentTerm)
    (hkept : ∃ p, p.length = n.commitIndex ∧ Kept Entry.term b i p) : Commits t b := by
  refine ⟨fun k hl j => ?_, fun k => ?_, fun dst boot args hm => ?_⟩
  · by_cases hk : k = i
    · subst hk
      rw [hn, Function.update_self] at hl ⊢
      exact hmatch hl j
    · rw [hn, Function.update_of_ne hk] at hl ⊢
      exact (h.matched k hl j).trans (hg.acked _ _)
  · by_cases hk : k = i
    · subst hk
      rw [hn, Function.update_self]
      exact hkept
    · rw [hn, Function.update_of_ne hk]
      obtain ⟨p, hp, hkeep⟩ := h.kept k
      exact ⟨p, hp, hkeep.grow hg⟩
  · obtain ⟨p, hp, hle, hpre, hc⟩ := h.sent dst boot args (hsent _ _ _ hm)
    exact ⟨p, hp, hle, hpre.trans (hg.leaderLog _), hc.grow hg⟩

lemma Commits.still_matched (h : Commits s a) (hg : Grows a b) {i : ι} {n : Node ι σ ρ}
    (hm : n.state = .leader → (s.nodes i).state = .leader ∧
      n.currentTerm = (s.nodes i).currentTerm ∧ n.matchIndex = (s.nodes i).matchIndex)
    (hl : n.state = .leader) (j : ι) : n.matchIndex j ≤ b.acked j n.currentTerm := by
  obtain ⟨hold, hterm, hmi⟩ := hm hl
  rw [hmi, hterm]
  exact (h.matched i hold j).trans (hg.acked _ _)

lemma Commits.still_kept (h : Commits s a) (hg : Grows a b) {i : ι} {k : ℕ}
    (hk : k = (s.nodes i).commitIndex ∨ k = 0) :
    ∃ p, p.length = k ∧ Kept Entry.term b i p := by
  rcases hk with rfl | rfl
  · obtain ⟨p, hp, hkeep⟩ := h.kept i
    exact ⟨p, hp, hkeep.grow hg⟩
  · exact ⟨[], rfl, .nil i⟩

lemma Commits.stay (h : Commits s a) (hg : Grows a b) {i : ι} {n : Node ι σ ρ}
    (hn : t.nodes = Function.update s.nodes i n)
    (hsent : ∀ dst boot args, .appendEntries dst boot args ∈ t.sent →
      .appendEntries dst boot args ∈ s.sent) (hs : Steady (s.nodes i) n) : Commits t b :=
  h.move hg hn hsent (h.still_matched hg hs.matchIndex) (h.still_kept hg hs.commitIndex)

/-- What a node has committed is the start of its log, and chosen by its term. -/
lemma Tracks.committed (ha : Tracks s a) {i : ι} {p : List Entry} (hk : Kept Entry.term a i p) :
    p <+: (s.nodes i).log ∧ Chosen Entry.term a (s.nodes i).currentTerm p := by
  refine ⟨ha.refines.log i ▸ ha.inv.kept_prefix hk, ?_⟩
  obtain ⟨u, hack, -, hc⟩ := hk
  rcases List.eq_nil_or_concat' p with rfl | ⟨q, e, rfl⟩
  · exact Or.inl rfl
  · have hpos : 0 < a.acked i u := by
      rw [List.length_append, List.length_singleton] at hack
      omega
    exact hc.mono (ha.refines.cur i ▸ ha.inv.acked_cur i u hpos)

/-- A leader that finds an index on a majority has committed it in its term. -/
lemma Tracks.majority (hb : Tracks t b) {i : ι} (hl : (t.nodes i).state = .leader)
    (hmatch : ∀ j, (t.nodes i).matchIndex j ≤ b.acked j (t.nodes i).currentTerm) {k : ℕ}
    (hpos : 0 < k) (hc : (t.nodes i).Committable k) :
    Committed Entry.term b (t.nodes i).currentTerm k := by
  obtain ⟨hmaj, -, hterm⟩ := hc
  obtain ⟨hlead, -⟩ := hb.refines.leader i hl
  obtain ⟨e, he, het⟩ := Option.map_eq_some_iff.mp hterm
  refine ⟨⟨Finset.univ.filter fun j => k ≤ (t.nodes i).matchIndex j, ?_, fun j hj => ?_⟩,
    e, hlead ▸ he, het, hpos⟩
  · rw [majority_eq] at hmaj
    exact hmaj
  · exact (Finset.mem_filter.mp hj).2.trans (hmatch j)

lemma Tracks.commit (hb : Tracks t b) {i : ι} (hl : (t.nodes i).state = .leader)
    (hmatch : ∀ j, (t.nodes i).matchIndex j ≤ b.acked j (t.nodes i).currentTerm) {k : ℕ}
    (hpos : 0 < k) (hc : (t.nodes i).Committable k) :
    ∃ p, p.length = k ∧ Kept Entry.term b i p := by
  have hcom := hb.majority hl hmatch hpos hc
  obtain ⟨-, hlen, -⟩ := hc
  obtain ⟨hlead, hack⟩ := hb.refines.leader i hl
  have hplen : (b.prefixOf (t.nodes i).currentTerm k).length = k := by
    rw [State.prefixOf, hlead, List.length_take, min_eq_left hlen]
  exact ⟨_, hplen, _, hplen.trans_le (hlen.trans hack), List.take_prefix _ _,
    Or.inr ⟨_, le_rfl, k, hcom, List.prefix_rfl⟩⟩

lemma Commits.reply (h : Commits s a) (hg : Grows a b) (ha : Tracks s a)
    {src : ι} {boot : ℕ} {args : AppendEntriesArgs ι} {reply : AppendEntriesReply}
    (hb : Tracks (s.setNode args.leaderId
      ((s.nodes args.leaderId).handleAppendEntriesReply src args reply)) b)
    (hm : .appendEntriesReply src boot args reply ∈ s.sent)
    (ht : Timely s (.appendEntriesReply src boot args reply))
    (hboot : (s.nodes args.leaderId).boot = boot) :
    Commits (s.setNode args.leaderId
      ((s.nodes args.leaderId).handleAppendEntriesReply src args reply)) b := by
  set i := args.leaderId
  have hself : (s.setNode i ((s.nodes i).handleAppendEntriesReply src args reply)).nodes i =
      (s.nodes i).handleAppendEntriesReply src args reply := by
    rw [setNode_nodes, Function.update_self]
  have hterm (hl : ((s.nodes i).handleAppendEntriesReply src args reply).state = .leader) :
      ((s.nodes i).handleAppendEntriesReply src args reply).currentTerm =
        (s.nodes i).currentTerm := by
    rcases handleAppendEntriesReply_cases (n := s.nodes i) src args reply with
      ⟨-, he⟩ | ⟨_, _, _, he⟩
    · rw [he] at hl
      cases hl
    · rw [he]
  have hmatch : ((s.nodes i).handleAppendEntriesReply src args reply).state = .leader → ∀ j,
      ((s.nodes i).handleAppendEntriesReply src args reply).matchIndex j ≤
        b.acked j ((s.nodes i).handleAppendEntriesReply src args reply).currentTerm := by
    intro hl j
    rw [hterm hl]
    obtain ⟨hold, hmi | ⟨hr, hmi⟩⟩ := handleAppendEntriesReply_match src args reply hl
    · rw [hmi]
      exact (h.matched i hold j).trans (hg.acked _ _)
    · rw [hmi]
      by_cases hj : j = src
      · subst hj
        rw [Function.update_self, ht hboot hr]
        exact ((ha.refines.messages _ hm).2 hr.2.2.1).trans (hg.acked _ _)
      · rw [Function.update_of_ne hj]
        exact (h.matched i hold j).trans (hg.acked _ _)
  refine h.move hg rfl (fun _ _ _ hh => hh) hmatch ?_
  rcases handleAppendEntriesReply_commit (n := s.nodes i) src args reply with hc | ⟨hl, hpos, hc⟩
  · exact h.still_kept hg (Or.inl hc)
  · rw [← hself] at hl hpos hc ⊢
    exact hb.commit hl (by rw [hself] at hl ⊢; exact hmatch hl) hpos hc

/-- A follower takes over a commit index no further than the batch it has just acknowledged. -/
lemma Commits.append (h : Commits s a) (hg : Grows a b) {dst : ι} {boot : ℕ}
    {args : AppendEntriesArgs ι} (hm : .appendEntries dst boot args ∈ s.sent)
    (hb : Tracks ((s.setNode dst ((s.nodes dst).handleAppendEntries args).1).sendReply dst boot args
      ((s.nodes dst).handleAppendEntries args).2) b) :
    Commits ((s.setNode dst ((s.nodes dst).handleAppendEntries args).1).sendReply dst boot args
      ((s.nodes dst).handleAppendEntries args).2) b := by
  have happ := handleAppendEntries_appended (s.nodes dst) args
  have hmi := handleAppendEntries_match (n := s.nodes dst) args
  generalize (s.nodes dst).handleAppendEntries args = out at happ hb hmi ⊢
  obtain ⟨n, reply⟩ := out
  dsimp only at happ hb hmi ⊢
  have hnodes : ((s.setNode dst n).sendReply dst boot args reply).nodes =
      Function.update s.nodes dst n := by
    cases reply <;> rfl
  have hsent : ∀ d bt as, .appendEntries d bt as ∈
      ((s.setNode dst n).sendReply dst boot args reply).sent →
        .appendEntries d bt as ∈ s.sent := by
    intro d bt as hh
    cases reply with
    | none => exact hh
    | some r =>
      rcases List.mem_append.mp hh with hh | hh
      · exact hh
      · cases List.mem_singleton.mp hh
  have hsame (hc : n.commitIndex = (s.nodes dst).commitIndex) :
      Commits ((s.setNode dst n).sendReply dst boot args reply) b :=
    h.stay hg hnodes hsent ⟨hmi, Or.inl hc⟩
  cases happ with
  | stale r _ _ => exact hsame rfl
  | rejected n r _ _ _ hci _ => exact hsame hci
  | stored n r hle hterm hprev hlog hci hr =>
    rcases hci with hci | ⟨-, hci⟩
    · exact hsame hci
    obtain ⟨p, hp, hple, hpre, hcho⟩ := h.sent dst boot args hm
    have hreply : .appendEntriesReply dst boot args r ∈
        ((s.setNode dst n).sendReply dst boot args (some r)).sent :=
      List.mem_append_right _ (List.mem_singleton.mpr rfl)
    have hack := (hb.refines.messages _ hreply).2 hr
    have hkept : Kept Entry.term b dst p :=
      ⟨args.term, hple.trans hack, hpre.trans (hg.leaderLog _), hcho.grow hg⟩
    have hlen : p.length ≤ n.lastLogIndex := by
      have hlog := (hb.committed hkept).1
      have hal := hb.aligned dst
      rw [hnodes, Function.update_self] at hlog hal
      rw [hal.lastLogIndex]
      exact hlog.length_le
    refine h.move hg hnodes hsent (h.still_matched hg hmi) ⟨p, ?_, hkept⟩
    rw [hci, ← hp, min_eq_left hlen]

lemma Commits.send (h : Commits s a) (ha : Tracks s a) {i peer : ι} {args : AppendEntriesArgs ι}
    (hm : (s.nodes i).appendEntriesArgs peer = some args) (bt : ℕ) :
    Commits (s.send (.appendEntries peer bt args)) a := by
  refine ⟨h.matched, h.kept, fun d b as hh => ?_⟩
  rcases List.mem_append.mp hh with hh | hh
  · exact h.sent d b as hh
  · cases List.mem_singleton.mp hh
    obtain ⟨hl, -, hterm, -, -, hcommit, -⟩ := appendEntriesArgs_eq hm
    obtain ⟨p, hp, hk⟩ := h.kept i
    obtain ⟨hpre, hcho⟩ := ha.committed hk
    refine ⟨p, hp.trans hcommit.symm, ?_, ?_, hterm ▸ hcho⟩
    · rw [(slice_of_appendEntriesArgs hm).length_eq]
      exact hpre.length_le
    · rw [hterm, (ha.refines.leader i hl).1]
      exact hpre

lemma Commits.win (h : Commits s a) (hg : Grows a b) (ha : Tracks s a) {i : ι} {term : ℕ}
    {n : Node ι σ ρ} (hn : (s.nodes i).electionEnds term = some (n, true))
    (hb : Tracks ((s.setNode i n).observe (.elected i term)) b) :
    Commits ((s.setNode i n).observe (.elected i term)) b := by
  have hself : ((s.setNode i n).observe (.elected i term)).nodes i = n := by
    rw [observe_nodes, setNode_nodes, Function.update_self]
  obtain ⟨el, -, -, rfl, -, rfl⟩ := electionEnds_won hn
  have hlead := hb.refines.leader i (by rw [hself]; rfl)
  rw [hself] at hlead
  have hlen : ((s.nodes i).lastLogIndex + 1) = ((s.nodes i).setElection (s.nodes i).currentTerm
      { el with running := false }).becomeLeader.log.length := by
    rw [(ha.aligned i).lastLogIndex]
    simp [Node.becomeLeader, Node.persistLog, Node.setElection]
  have hid := ha.election.nodeId i
  refine h.move hg rfl (fun _ _ _ hh => hh) (fun _ j => ?_) ?_
  · change (if j = (s.nodes i).nodeId then (s.nodes i).lastLogIndex + 1 else 0) ≤ _
    split_ifs with hj
    · rw [hj, hid, hlen]
      exact hlead.2
    · exact Nat.zero_le _
  · exact h.still_kept hg (Or.inl rfl)

lemma Commits.lead (h : Commits s a) (hg : Grows a b) (ha : Tracks s a) {i : ι} {cmd : Command}
    {n : Node ι σ ρ} {w : ℕ} (hn : (s.nodes i).appendEntry cfg cmd = .ok (n, w))
    (hb : Tracks (s.setNode i n) b) : Commits (s.setNode i n) b := by
  have hself : (s.setNode i n).nodes i = n := by rw [setNode_nodes, Function.update_self]
  have hid := ha.election.nodeId i
  have hal := (ha.aligned i).lastLogIndex
  simp only [Node.appendEntry] at hn
  split_ifs at hn with hl
  rw [not_not] at hl
  cases hn
  have hlead := hb.refines.leader i (by rw [hself]; exact hl)
  rw [hself] at hlead
  refine h.move hg rfl (fun _ _ _ hh => hh) (fun _ j => ?_) ?_
  · change Function.update (s.nodes i).matchIndex (s.nodes i).nodeId
      ((s.nodes i).lastLogIndex + 1) j ≤ b.acked j (s.nodes i).currentTerm
    rw [hid]
    by_cases hj : j = i
    · subst hj
      rw [Function.update_self]
      refine le_trans (le_of_eq ?_) hlead.2
      simp [Node.persistLog, hal]
    · rw [Function.update_of_ne hj]
      exact (h.matched i hl j).trans (hg.acked _ _)
  · exact h.still_kept hg (Or.inl rfl)

lemma Commits.change (h : Commits s a) (hg : Grows a b) (ha : Tracks s a) (hb : Tracks t b)
    (hc : Change cfg (Timely s) s t) : Commits t b := by
  cases hc with
  | quiet i n obs hl => exact h.stay hg rfl (fun _ _ _ hh => hh) hl.core.steady
  | startElection i n hn => exact h.stay hg rfl (fun _ _ _ hh => hh) (startElection_steady hn)
  | sendRequestVote i term peer args hm =>
    refine h.stay (i := i) hg (Function.update_eq_self ..).symm (fun d bt as hh => ?_) (.refl _)
    rcases List.mem_append.mp hh with hh | hh
    · exact hh
    · cases List.mem_singleton.mp hh
  | loses i term n hn => exact h.stay hg rfl (fun _ _ _ hh => hh) (electionEnds_lost_steady hn)
  | wins i term n hn => exact h.win hg ha hn hb
  | sendAppendEntries i peer args hm =>
    exact (h.send ha hm _).stay (i := i) hg (Function.update_eq_self ..).symm
      (fun _ _ _ hh => hh) (.refl _)
  | requestVote dst boot args hm =>
    refine h.stay hg rfl (fun d bt as hh => ?_) (handleRequestVote_steady args)
    rcases List.mem_append.mp hh with hh | hh
    · exact hh
    · cases List.mem_singleton.mp hh
  | requestVoteReply src boot args reply n hm hn =>
    exact h.stay hg rfl (fun _ _ _ hh => hh) (handleRequestVoteReply_steady hn)
  | appendEntries dst boot args hm => exact h.append hg hm hb
  | appendEntriesReply src boot args reply hm ht hboot => exact h.reply hg ha hb hm ht hboot
  | voteCrash dst boot args hm => exact h.stay hg rfl (fun _ _ _ hh => hh) (restart_steady cfg _)
  | appendCrash dst boot args hm hle =>
    exact h.stay hg rfl (fun _ _ _ hh => hh) (restart_steady cfg _)
  | appendEntry i cmd n w hn => exact h.lead hg ha hn hb
  | crash i => exact h.stay hg rfl (fun _ _ _ hh => hh) (restart_steady cfg _)

end Cluster

end DistributedStorage.Raft

import DistributedStorage.Raft.NewestLeader
import DistributedStorage.Raft.Steps

/-! A leader leaves nothing uncommitted that it could commit: only a reply can complete a majority, and
the section that handles a reply scans. -/

set_option linter.unusedSectionVars false

namespace DistributedStorage.Raft

open Library.LeaderLogs Library.Runs

variable {ι σ ρ : Type} [DecidableEq ι] [Fintype ι]

variable {n m : Node ι σ ρ}

lemma scanCommit_complete {k l : ℕ} (hc : n.Committable k) (hk : k ≤ l) : k ≤ n.scanCommit l := by
  induction l with
  | zero => omega
  | succ l ih =>
    simp only [Node.scanCommit]
    split_ifs with hle hcl
    · omega
    · exact hk
    · refine ih (Nat.le_of_lt_succ (lt_of_le_of_ne hk ?_))
      rintro rfl
      exact hcl hc

/-- What holds of a leader between its lock sections: it has matched its own log, and it has committed
all it can. -/
structure Swept (n : Node ι σ ρ) : Prop where
  own : n.matchIndex n.nodeId = n.log.length
  committed : ∀ k, n.Committable k → k ≤ n.commitIndex

lemma Swept.keeps (h : Swept n) (hid : m.nodeId = n.nodeId) (hterm : m.currentTerm = n.currentTerm)
    (hlog : m.log = n.log) (hmatch : m.matchIndex = n.matchIndex) (hle : n.commitIndex ≤ m.commitIndex) :
    Swept m := by
  refine ⟨by rw [hmatch, hid, hlog, h.own], fun k hk => (h.committed k ?_).trans hle⟩
  simpa only [Node.Committable, Node.majority, Node.peers, Node.countMatching, hid, hmatch, hlog, hterm]
    using hk

/-- A majority of two or more that has matched a place holds somebody else. -/
lemma Committable.other {k : ℕ} (hn : 2 ≤ Fintype.card ι) (h : n.Committable k) :
    ∃ p, p ≠ n.nodeId ∧ k ≤ n.matchIndex p := by
  have hcount : 1 < (Finset.univ.filter fun j => k ≤ n.matchIndex j).card := by
    have hmaj := h.1
    rw [Node.majority, Node.peers, Finset.card_erase_of_mem (Finset.mem_univ _), Finset.card_univ,
      Node.countMatching] at hmaj
    omega
  obtain ⟨p, hp, hne⟩ := Finset.exists_mem_ne hcount n.nodeId
  exact ⟨p, hne, (Finset.mem_filter.mp hp).2⟩

lemma becomeLeader_swept (hn : 2 ≤ Fintype.card ι) (hal : Aligned n.log) : Swept n.becomeLeader := by
  constructor
  · simp [Node.becomeLeader, Node.persistLog, hal.lastLogIndex]
  · intro k hk
    obtain ⟨p, hne, hp⟩ := Committable.other hn hk
    have h0 : n.becomeLeader.matchIndex p = 0 := if_neg hne
    omega

lemma appendEntry_swept {cfg : Config ι σ ρ} {cmd : Command} {w : ℕ} (hn : 2 ≤ Fintype.card ι)
    (h : n.appendEntry cfg cmd = .ok (m, w)) (hal : Aligned n.log)
    (hmatch : ∀ p, n.matchIndex p ≤ n.log.length) (hs : Swept n) : Swept m := by
  have hlast := hal.lastLogIndex
  simp only [Node.appendEntry] at h
  split_ifs at h
  cases h
  constructor
  · simp [Node.persistLog, hlast]
  · intro k hk
    rcases Nat.eq_zero_or_pos k with rfl | hpos
    · exact Nat.zero_le _
    -- a peer has matched `k`, so `k` is before the new entry
    obtain ⟨p, hother, hp⟩ := Committable.other hn hk
    have hne : p ≠ n.nodeId := hother
    obtain ⟨hmaj, -, hterm⟩ := hk
    change k ≤ Function.update n.matchIndex n.nodeId (n.lastLogIndex + 1) p at hp
    rw [Function.update_of_ne hne] at hp
    have hkn : k ≤ n.log.length := hp.trans (hmatch p)
    refine hs.committed k ⟨?_, hkn, ?_⟩
    · refine hmaj.trans_eq (congrArg Finset.card (Finset.filter_congr fun j _ => ?_))
      change k ≤ Function.update n.matchIndex n.nodeId (n.lastLogIndex + 1) j ↔ k ≤ n.matchIndex j
      by_cases hj : j = n.nodeId
      · have hown := hs.own
        rw [hj, Function.update_self]
        omega
      · rw [Function.update_of_ne hj]
    · change ((n.log ++ [cmd.entry n.currentTerm (n.lastLogIndex + 1)])[k - 1]?.map Entry.term) =
        some n.currentTerm at hterm
      rwa [List.getElem?_append_left (by omega)] at hterm

lemma raiseMatch_fields (peer : ι) (k : ℕ) : (n.raiseMatch peer k).nodeId = n.nodeId ∧
    (n.raiseMatch peer k).log = n.log ∧ ∀ j, n.matchIndex j ≤ (n.raiseMatch peer k).matchIndex j := by
  simp only [Node.raiseMatch]
  split_ifs with hlt
  · refine ⟨rfl, rfl, fun j => ?_⟩
    change n.matchIndex j ≤ Function.update n.matchIndex peer k j
    by_cases hj : j = peer
    · rw [hj, Function.update_self]
      exact hlt.le
    · rw [Function.update_of_ne hj]
  · exact ⟨rfl, rfl, fun _ => le_rfl⟩

/-- A scan from the end of the log leaves nothing behind. -/
lemma advanceCommitIndex_swept (hal : Aligned n.log) (hown : n.matchIndex n.nodeId = n.log.length) :
    Swept n.advanceCommitIndex := by
  refine ⟨hown, fun k hk => ?_⟩
  have hc : n.Committable k := hk
  refine scanCommit_complete hc ?_
  rw [hal.lastLogIndex]
  exact hc.2.1

lemma handleAppendEntriesReply_swept {peer : ι} {args : AppendEntriesArgs ι} {reply : AppendEntriesReply}
    (hal : Aligned n.log) (hs : Swept n) (hl : (n.handleAppendEntriesReply peer args reply).state = .leader)
    (hown : (n.handleAppendEntriesReply peer args reply).matchIndex n.nodeId ≤ n.log.length) :
    Swept (n.handleAppendEntriesReply peer args reply) := by
  simp only [Node.handleAppendEntriesReply] at hl hown ⊢
  split_ifs at hl hown ⊢
  · cases hl
  · exact hs
  · obtain ⟨hid, hlog, hle⟩ := raiseMatch_fields (n := n) peer (args.prevLogIndex + args.entries.length)
    refine advanceCommitIndex_swept (by rwa [hlog]) ?_
    rw [hid, hlog]
    exact le_antisymm hown (hs.own ▸ hle n.nodeId)
  · exact hs.keeps rfl rfl rfl rfl le_rfl

namespace Cluster

variable {cfg : Config ι σ ρ} {s t : Cluster ι σ ρ} {a b : State ι Entry}

lemma Safe.match_le (h : Safe cfg s a) {i : ι} (hl : (s.nodes i).state = .leader) (p : ι) :
    (s.nodes i).matchIndex p ≤ (s.nodes i).log.length := by
  have hle := (h.commits.matched i hl p).trans (h.serving.tracks.inv.acked_le p (s.nodes i).currentTerm)
  rwa [(h.serving.tracks.refines.leader i hl).1] at hle

/-- What reaches a leader of the term it leads does not touch its log. -/
lemma Tracks.leader_append (h : Tracks s a) {dst : ι} {boot : ℕ} {args : AppendEntriesArgs ι}
    (hm : .appendEntries dst boot args ∈ s.sent) (hl : (s.nodes dst).state = .leader)
    (hterm : ((s.nodes dst).handleAppendEntries args).1.currentTerm = (s.nodes dst).currentTerm) :
    ((s.nodes dst).handleAppendEntries args).1.log = (s.nodes dst).log := by
  obtain ⟨view, hview, hslice⟩ := h.refines.messages _ hm
  have happ := handleAppendEntries_appended (s.nodes dst) args
  generalize (s.nodes dst).handleAppendEntries args = out at happ hterm ⊢
  obtain ⟨n, reply⟩ := out
  dsimp only at happ hterm ⊢
  cases happ with
  | stale r _ _ => rfl
  | rejected n r _ _ hlog _ _ => exact hlog
  | stored n r hle hargs hprev hlog hci hr =>
    rw [← hargs, hterm, (h.refines.leader dst hl).1] at hview
    classical
    have hmatch : Matching (s.nodes dst).log view := fun p x y _ hy _ =>
      take_eq_of_isPrefix hview (List.getElem?_eq_some_iff.mp hy).1
    rw [hlog, hslice.inserts hmatch (hprev.imp_right And.right), accepted, if_pos hview]

lemma swept_step {e : Event ι} (hn : 2 ≤ Fintype.card ι) (hs : Safe cfg s a) (ht : Safe cfg t b)
    (hg : Grows a b) (h : ∀ i, (s.nodes i).state = .leader → Swept (s.nodes i))
    (he : step cfg s e = some t) {i : ι} (hl : (t.nodes i).state = .leader) : Swept (t.nodes i) := by
  have hle := (step_change_free he).commit_le hs ht hg hl
  have hself := ht.match_le hl i
  have hal := hs.serving.tracks.aligned i
  have hid : (t.nodes i).nodeId = (s.nodes i).nodeId :=
    (ht.serving.tracks.election.nodeId i).trans (hs.serving.tracks.election.nodeId i).symm
  have hids := hs.serving.tracks.election.nodeId i
  obtain ⟨j, n, hat, hnodes⟩ := step_at he
  by_cases hij : i = j
  swap
  · rw [hnodes, Function.update_of_ne hij] at hl ⊢
    exact h i hl
  subst hij
  rw [hnodes, Function.update_self] at hl hle hself hid ⊢
  -- a section that keeps the log and the bookkeeping of a leader
  have hkeeps (hsettle : Settles (s.nodes i) n) (hsteady : Steady (s.nodes i) n) : Swept n := by
    obtain ⟨hold, hterm, hmatch⟩ := hsteady.matchIndex hl
    exact (h i hold).keeps hid hterm hsettle.log hmatch hle
  cases hat with
  | quiet _ _ _ hcore => exact hkeeps hcore.settles hcore.steady
  | startElection _ _ hstart =>
    obtain ⟨hold, hterm, hmatch⟩ := (startElection_steady hstart).matchIndex hl
    refine (h i hold).keeps hid hterm ?_ hmatch hle
    simp only [Node.startElection, if_pos hold] at hstart
    split_ifs at hstart
    cases hstart
    rfl
  | loses _ term _ hends => exact hkeeps (electionEnds_lost_settles hends) (electionEnds_lost_steady hends)
  | wins _ term _ hends =>
    obtain ⟨el, -, -, -, -, rfl⟩ := electionEnds_won hends
    exact becomeLeader_swept hn hal
  | requestVote k _ boot args hm => exact hkeeps (handleRequestVote_settles args) (handleRequestVote_steady args)
  | requestVoteReply k src boot args reply _ hm hreply =>
    exact hkeeps (handleRequestVoteReply_settles hreply) (handleRequestVoteReply_steady hreply)
  | appendEntries k _ boot args hm =>
    obtain ⟨hold, hterm, hmatch⟩ := handleAppendEntries_match args hl
    exact (h i hold).keeps hid hterm
      (hs.serving.tracks.leader_append (List.mem_of_getElem? hm) hold hterm) hmatch hle
  | appendEntriesReply k src boot args reply hm =>
    have hold := (handleAppendEntriesReply_match src args reply hl).1
    have hlog := (handleAppendEntriesReply_settles (n := s.nodes args.leaderId) src args reply).log
    refine handleAppendEntriesReply_swept hal (h _ hold) hl ?_
    rw [hids, ← hlog]
    exact hself
  | voteCrash k _ boot args hm => cases hl
  | appendCrash k _ boot args hm hterm => cases hl
  | appendEntry _ cmd _ w happ =>
    have hold : (s.nodes i).state = .leader := (appendEntry_eq happ).1
    exact appendEntry_swept hn happ hal (hs.match_le hold) (h i hold)
  | crash => cases hl

lemma init_swept (cfg : Config ι σ ρ) (i : ι) (h : ((init cfg).nodes i).state = .leader) :
    Swept ((init cfg).nodes i) := by cases h

/-- As long as a node leads its term, it takes back nothing. -/
lemma leader_commit_le (hs : Safe cfg s a) (h : Run (step cfg) (AtDelivery Timely) s t) {i : ι}
    (hl : (s.nodes i).state = .leader) (hl' : (t.nodes i).state = .leader)
    (hterm : (t.nodes i).currentTerm = (s.nodes i).currentTerm) :
    (s.nodes i).commitIndex ≤ (t.nodes i).commitIndex := by
  induction h with
  | refl => exact le_rfl
  | @tail u v hr he ih =>
    obtain ⟨e, hc, he⟩ := he
    obtain ⟨b, hgb, hb⟩ := hs.run hr
    obtain ⟨c, hbc, hc'⟩ := hb.step hc he
    have hchange := step_change_free he
    have helected : u.Elected (v.nodes i).currentTerm := by
      rw [hterm, ← hb.serving.tracks.refines.elected]
      refine leaderLog_ne_nil hgb ?_
      rw [hs.serving.tracks.refines.elected]
      exact ⟨i, hs.serving.tracks.election.leader i hl⟩
    obtain ⟨hlu, htu⟩ := hchange.led hb.serving.tracks.election hl' helected
    exact (ih hlu (htu ▸ hterm)).trans (hchange.commit_le hb hc' (run_grows hbc) hl')

/-- In a cluster of two or more, where leaders count only replies to requests of their present term, a
leader has committed every entry of its term that a majority has matched, never more than its log, and
takes nothing back. -/
theorem no_committable_left (hn : 2 ≤ Fintype.card ι) (h : Reachable cfg (AtDelivery Timely) s) {i : ι}
    (hl : (s.nodes i).state = .leader) :
    (∀ k, k ≤ (s.nodes i).lastLogIndex →
      ((s.nodes i).log[k - 1]?.map Entry.term) = some (s.nodes i).currentTerm →
      Fintype.card ι / 2 + 1 ≤ (Finset.univ.filter fun j => k ≤ (s.nodes i).matchIndex j).card →
      k ≤ (s.nodes i).commitIndex) ∧
    (s.nodes i).commitIndex ≤ (s.nodes i).lastLogIndex ∧
    ∀ t, Run (step cfg) (AtDelivery Timely) s t → (t.nodes i).state = .leader →
      (t.nodes i).currentTerm = (s.nodes i).currentTerm →
      (s.nodes i).commitIndex ≤ (t.nodes i).commitIndex := by
  have hswept : ∃ a, Safe cfg s a ∧ ∀ i, (s.nodes i).state = .leader → Swept (s.nodes i) := by
    obtain ⟨a, -, ha⟩ := Run.simulates
      (R := fun s a => Safe cfg s a ∧ ∀ i, (s.nodes i).state = .leader → Swept (s.nodes i))
      (fun s e t a hx hc he => by
        obtain ⟨b, hab, hb⟩ := hx.1.step hc he
        exact ⟨b, hab, hb, fun i => swept_step hn hx.1 hb (run_grows hab) hx.2 he⟩)
      h ⟨init_safe cfg, init_swept cfg⟩
    exact ⟨a, ha⟩
  obtain ⟨a, hs, hsw⟩ := hswept
  have hlast := (hs.serving.tracks.aligned i).lastLogIndex
  refine ⟨fun k hk hterm hcount => (hsw i hl).committed k ⟨?_, hlast ▸ hk, hterm⟩, ?_,
    fun t hr hl' hterm => leader_commit_le hs hr hl hl' hterm⟩
  · rw [Node.majority, Node.peers, Finset.card_erase_of_mem (Finset.mem_univ _), Finset.card_univ,
      Nat.sub_add_cancel (by omega)]
    exact hcount
  · obtain ⟨p, hp, hlog, -⟩ := hs.committed i
    rw [hlast, ← hp]
    exact hlog.length_le

theorem no_committable_left_both_commit : ∃ s, Reachable (stateless 3) (AtDelivery Timely) s ∧
    (s.nodes 0).state = .leader ∧ (s.nodes 0).matchIndex 1 = 2 ∧ 2 ≤ (s.nodes 0).commitIndex := by
  obtain ⟨s, hs, hl, hm, hlast, hterm, hcount⟩ := Run.exists_of_execute
    (guarded (step (stateless 3)) (AtDelivery Timely)) (init (stateless 3)) bothCommit
    (fun s => (s.nodes 0).state = .leader ∧ (s.nodes 0).matchIndex 1 = 2 ∧
      2 ≤ (s.nodes 0).lastLogIndex ∧
      ((s.nodes 0).log[1]?.map Entry.term) = some (s.nodes 0).currentTerm ∧
      Fintype.card (Fin 3) / 2 + 1 ≤ (Finset.univ.filter fun j => 2 ≤ (s.nodes 0).matchIndex j).card)
    (by decide +kernel)
  exact ⟨s, hs.of_guarded, hl, hm,
    (no_committable_left (by decide) hs.of_guarded hl).1 2 hlast hterm hcount⟩

/-- The only node of its cluster leads and takes a command: a majority of one has both entries. -/
theorem no_committable_left_alone : ¬ ∀ s : Cluster (Fin 1) Unit Unit, Reachable (stateless 1) Free s →
    ∀ i k, (s.nodes i).state = .leader → k ≤ (s.nodes i).lastLogIndex →
      ((s.nodes i).log[k - 1]?.map Entry.term) = some (s.nodes i).currentTerm →
      Fintype.card (Fin 1) / 2 + 1 ≤ (Finset.univ.filter fun j => k ≤ (s.nodes i).matchIndex j).card →
      k ≤ (s.nodes i).commitIndex := by
  intro hall
  obtain ⟨s, hs, hl, hlast, hterm, hcount, hcommit⟩ := Run.exists_of_execute (step (stateless 1))
    (init (stateless 1)) (campaign 0 1 0 [] ++ [.appendEntry 0 someCommand])
    (fun s => (s.nodes 0).state = .leader ∧ 2 ≤ (s.nodes 0).lastLogIndex ∧
      ((s.nodes 0).log[1]?.map Entry.term) = some (s.nodes 0).currentTerm ∧
      Fintype.card (Fin 1) / 2 + 1 ≤ (Finset.univ.filter fun j => 2 ≤ (s.nodes 0).matchIndex j).card ∧
      (s.nodes 0).commitIndex = 0) (by decide +kernel)
  have hle := hall s hs 0 2 hl hlast hterm hcount
  omega

end Cluster

end DistributedStorage.Raft

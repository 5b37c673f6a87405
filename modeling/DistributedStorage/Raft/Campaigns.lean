import DistributedStorage.Library.NewestLogs
import DistributedStorage.Raft.Connected
import DistributedStorage.Raft.ElectionTimer
import Mathlib

/-! The connected majority elects a leader: the member with the newest log campaigns until its term is
ahead of the others', and then all of them vote for it. -/

set_option linter.unusedSectionVars false

namespace DistributedStorage.Raft

open Library.LeaderLogs Library.Runs

variable {ι σ ρ : Type} [DecidableEq ι] [Fintype ι]

/-- A member behind the candidate's term votes for it if the candidate's log is no older. -/
lemma poll_grants {x : Node ι σ ρ × Node ι σ ρ} {term : ℕ} {peer : ι} {el : Election ι}
    (hel : x.1.elections term = some el) (hask : peer ∈ el.asking) (hflag : x.1.isolated = false)
    (hterm : x.1.currentTerm = term) (hlt : x.2.currentTerm < term)
    (hup : x.2.candidateLogUpToDate el.lastLogIndex el.lastLogTerm = true) :
    ∃ m, poll term peer x = some (x.1.setElection term
        { el with asking := el.asking.erase peer, votes := el.votes + 1 }, m) ∧
      m.currentTerm = term ∧ m.log = x.2.log := by
  have hargs : x.1.requestVoteArgs term peer =
      some ⟨term, x.1.nodeId, el.lastLogIndex, el.lastLogTerm⟩ := by
    simp only [Node.requestVoteArgs, hel]
    rw [if_pos ⟨hask, hflag⟩]
  have hdown : x.2.stepDownForVote term = x.2.becomeFollower term := if_pos hlt
  obtain ⟨m, hvote, hmt, hml⟩ : ∃ m, x.2.handleRequestVote
      ⟨term, x.1.nodeId, el.lastLogIndex, el.lastLogTerm⟩ = (m, ⟨term, true⟩) ∧
        m.currentTerm = term ∧ m.log = x.2.log := by
    simp only [Node.handleRequestVote, hdown]
    rw [if_pos ⟨le_rfl, Or.inl rfl, hup⟩]
    exact ⟨_, rfl, rfl, rfl⟩
  refine ⟨m, ?_, hmt, hml⟩
  have hlate : ¬ x.1.currentTerm < term := by omega
  simp only [poll, hargs, Option.bind_some, hvote, Node.handleRequestVoteReply, hel, hask, if_true,
    hlate, if_false, Option.map_some]

namespace Cluster

/-- `i` leads, and no member of `Q` is ahead of its term. -/
structure Heads (Q : Finset ι) (i : ι) (s : Cluster ι σ ρ) : Prop where
  leads : (s.nodes i).state = .leader
  ahead : ∀ j ∈ Q, (s.nodes j).currentTerm ≤ (s.nodes i).currentTerm

/-- `i` asks for votes in its term, ahead of all members that it has yet to ask. -/
structure Asking (Q : Finset ι) (i : ι) (s : Cluster ι σ ρ) (el : Election ι) : Prop where
  candidate : (s.nodes i).state = .candidate
  election : (s.nodes i).elections (s.nodes i).currentTerm = some el
  running : el.running = true
  index : el.lastLogIndex = (s.nodes i).log.length
  term : el.lastLogTerm = lastTerm Entry.term (s.nodes i).log
  needed : el.votesNeeded = Fintype.card ι / 2 + 1
  counted : el.votes + el.asking.card = Fintype.card ι
  notSelf : i ∉ el.asking
  waiting : ∀ j ∈ Q, j ∈ el.asking → (s.nodes j).currentTerm < (s.nodes i).currentTerm
  ahead : ∀ j ∈ Q, (s.nodes j).currentTerm ≤ (s.nodes i).currentTerm
  newest : ∀ j ∈ Q, UpToDate Entry.term (s.nodes i).log (s.nodes j).log

variable {cfg : Config ι σ ρ} {Q : Finset ι} {s t : Cluster ι σ ρ} {i j : ι}

lemma watched {C : Cluster ι σ ρ → Event ι → Prop} (h : Reachable cfg C s) (i : ι) :
    (s.nodes i).Watched := by
  refine Run.invariant (I := fun s => (s.nodes i).Watched) ?_ h (Or.inl (Or.inl rfl))
  intro u e v hu _ he
  obtain ⟨j, n, hturn, hnodes⟩ := step_turn he
  rw [hnodes]
  by_cases hij : i = j
  · subst hij
    rw [Function.update_self]
    exact hturn.watched hu
  · rwa [Function.update_of_ne hij]

/-- One more vote. -/
lemma Asking.poll {el : Election ι} (h : Asking Q i s el) (hc : Connected cfg Q s) (hi : i ∈ Q)
    (hj : j ∈ Q) (hask : j ∈ el.asking) :
    ∃ t, Run (step cfg) (Inside Q) s t ∧
      Asking Q i t { el with asking := el.asking.erase j, votes := el.votes + 1 } := by
  have hne : j ≠ i := fun he => h.notSelf (he ▸ hask)
  obtain ⟨a, -, ha⟩ := refinement hc.reachable
  have hup : (s.nodes j).candidateLogUpToDate el.lastLogIndex el.lastLogTerm = true := by
    rw [h.index, h.term, candidateLogUpToDate_iff (ha.aligned j)]
    exact h.newest j hj
  obtain ⟨m, hpoll, hmt, hml⟩ := poll_grants (x := (s.nodes i, s.nodes j)) h.election hask
    (hc.flags i hi) rfl (h.waiting j hj hask) hup
  obtain ⟨t, hrun, -, hnodes⟩ := poll_run cfg hc.election hi hj hne (hc.flags j hj) hpoll
  have hself : t.nodes i = (s.nodes i).setElection (s.nodes i).currentTerm
      { el with asking := el.asking.erase j, votes := el.votes + 1 } := by
    rw [hnodes, Function.update_self]
  have hvoter : t.nodes j = m := by
    rw [hnodes, Function.update_of_ne hne, Function.update_self]
  have hother (k : ι) (hki : k ≠ i) (hkj : k ≠ j) : t.nodes k = s.nodes k := by
    rw [hnodes, Function.update_of_ne hki, Function.update_of_ne hkj]
  have hterm : (t.nodes i).currentTerm = (s.nodes i).currentTerm := by rw [hself]; rfl
  have hlog : (t.nodes i).log = (s.nodes i).log := by rw [hself]; rfl
  have hlogs (k : ι) : (t.nodes k).log = (s.nodes k).log := by
    by_cases hki : k = i
    · rw [hki, hlog]
    by_cases hkj : k = j
    · rw [hkj, hvoter, hml]
    · rw [hother k hki hkj]
  refine ⟨t, hrun, ?_, ?_, h.running, ?_, ?_, h.needed, ?_, ?_, ?_, ?_, ?_⟩
  · rw [hself]
    exact h.candidate
  · rw [hterm, hself]
    exact Function.update_self ..
  · rw [hlog]
    exact h.index
  · rw [hlog]
    exact h.term
  · have hcard := Finset.card_erase_add_one hask
    have hcount := h.counted
    dsimp only
    omega
  · exact fun hmem => h.notSelf (Finset.mem_of_mem_erase hmem)
  · intro k hk hmem
    have hki : k ≠ i := fun he => h.notSelf (he ▸ Finset.mem_of_mem_erase hmem)
    rw [hterm, hother k hki (Finset.ne_of_mem_erase hmem)]
    exact h.waiting k hk (Finset.mem_of_mem_erase hmem)
  · intro k hk
    rw [hterm]
    by_cases hki : k = i
    · rw [hki, hterm]
    by_cases hkj : k = j
    · rw [hkj, hvoter, hmt]
    · rw [hother k hki hkj]
      exact h.ahead k hk
  · intro k hk
    rw [hlogs, hlogs]
    exact h.newest k hk

lemma Asking.all_votes {el : Election ι} (h : Asking Q i s el) (hmaj : Majority Q)
    (hall : ∀ j ∈ Q, j ∉ el.asking) : el.votesNeeded ≤ el.votes := by
  have hdisjoint : Disjoint el.asking Q :=
    Finset.disjoint_left.mpr fun j hj hq => hall j hq hj
  have hcard := Finset.card_le_card (Finset.subset_univ (el.asking ∪ Q))
  rw [Finset.card_union_of_disjoint hdisjoint, Finset.card_univ] at hcard
  have hcount := h.counted
  rw [h.needed]
  unfold Majority at hmaj
  omega

/-- The candidate asks every member it has not heard from, and wins. -/
lemma Asking.elects {el : Election ι} (h : Asking Q i s el) (hc : Connected cfg Q s) (hi : i ∈ Q)
    (hmaj : Majority Q) :
    CanReach (step cfg) (Inside Q) (fun t => Connected cfg Q t ∧ Heads Q i t) s := by
  have hasked : CanReach (step cfg) (Inside Q) (fun t => (Connected cfg Q t ∧ ∃ el, Asking Q i t el) ∧
      ∀ j ∈ Q, ∀ el, (t.nodes i).elections (t.nodes i).currentTerm = some el → j ∉ el.asking) s := by
    refine CanReach.each Q (fun j hj u hu => ?_) ⟨hc, el, h⟩
    obtain ⟨hcu, el, hel⟩ := hu
    by_cases hask : j ∈ el.asking
    · obtain ⟨t, hrun, ht⟩ := hel.poll hcu hi hj hask
      refine ⟨t, hrun, ⟨hcu.run hrun, _, ht⟩, fun el' hel' => ?_, fun k hk el' hel' => ?_⟩
      · rw [ht.election] at hel'
        cases hel'
        exact Finset.notMem_erase j el.asking
      · rw [ht.election] at hel'
        cases hel'
        exact fun hmem => hk el hel.election (Finset.mem_of_mem_erase hmem)
    · refine .now ⟨⟨hcu, el, hel⟩, fun el' hel' => ?_, fun _ hk => hk⟩
      rw [hel.election] at hel'
      cases hel'
      exact hask
  refine hasked.next fun t ht => ?_
  obtain ⟨⟨hct, el, hel⟩, hdone⟩ := ht
  have hvotes := hel.all_votes hmaj fun j hj => hdone j hj el hel.election
  obtain ⟨n, hends, hlead, hterm⟩ : ∃ n, (t.nodes i).electionEnds (t.nodes i).currentTerm = some (n, true) ∧
      n.state = .leader ∧ n.currentTerm = (t.nodes i).currentTerm := by
    refine ⟨((t.nodes i).setElection (t.nodes i).currentTerm { el with running := false }).becomeLeader,
      ?_, rfl, rfl⟩
    simp only [Node.electionEnds, hel.election, hel.running, if_true]
    rw [if_neg (by simp [Node.setElection, hel.candidate]), if_pos hvotes]
  have hrun : Run (step cfg) (Inside Q) t
      ((t.setNode i n).observe (.elected i (t.nodes i).currentTerm)) := by
    refine Run.single (e := .electionEnds i (t.nodes i).currentTerm) ⟨hi, trivial⟩ ?_
    simp only [step, hends, Option.map_some, if_true]
  refine ⟨_, hrun, hct.run hrun, ?_, fun j hj => ?_⟩
  · rw [observe_nodes, setNode_nodes, Function.update_self]
    exact hlead
  · rw [observe_nodes, setNode_nodes, Function.update_self, hterm]
    by_cases hij : j = i
    · rw [hij, Function.update_self, hterm]
    · rw [Function.update_of_ne hij]
      exact hel.ahead j hj

/-- What only `i` has done since `s`, without a member getting ahead of its log. -/
structure Alone (i : ι) (s t : Cluster ι σ ρ) : Prop where
  others : ∀ j, j ≠ i → t.nodes j = s.nodes j
  term : (s.nodes i).currentTerm ≤ (t.nodes i).currentTerm
  log : (t.nodes i).log = (s.nodes i).log ∨ ∃ e, (t.nodes i).log = (s.nodes i).log ++ [e] ∧
    e.term = (s.nodes i).currentTerm

lemma Alone.newest (h : Alone i s t) (hc : Connected cfg Q s)
    (hnew : ∀ j ∈ Q, UpToDate Entry.term (s.nodes i).log (s.nodes j).log) :
    ∀ j ∈ Q, UpToDate Entry.term (t.nodes i).log (t.nodes j).log := by
  obtain ⟨a, -, ha⟩ := refinement hc.reachable
  have hlast : lastTerm Entry.term (s.nodes i).log ≤ (s.nodes i).currentTerm := by
    refine lastTerm_le fun e he => ?_
    rw [← ha.refines.log i] at he
    rw [← ha.refines.cur i]
    exact ha.inv.log_terms i e he
  intro j hj
  by_cases hij : j = i
  · rw [hij]
    exact Or.inr ⟨rfl, le_rfl⟩
  · rw [h.others j hij]
    rcases h.log with hlog | ⟨e, hlog, he⟩
    · rw [hlog]
      exact hnew j hj
    · rw [hlog]
      exact (hnew j hj).concat (he ▸ hlast)

/-- The thread of the present campaign comes to its end. -/
lemma campaign_ends (cfg : Config ι σ ρ) (hi : i ∈ Q) (h : (s.nodes i).Campaigning) :
    ∃ t, Run (step cfg) (Inside Q) s t ∧ Alone i s t ∧ (t.nodes i).Settled ∧
      (t.nodes i).currentTerm = (s.nodes i).currentTerm := by
  obtain ⟨n, won, hends, hset⟩ := h.ends
  have hrun : ∃ t, Run (step cfg) (Inside Q) s t ∧ t.nodes = Function.update s.nodes i n := by
    refine ⟨_, Run.single (e := .electionEnds i (s.nodes i).currentTerm) ⟨hi, trivial⟩
      (Option.map_eq_some_iff.mpr ⟨_, hends, rfl⟩), ?_⟩
    cases won <;> rfl
  obtain ⟨t, hrun, hnodes⟩ := hrun
  have hself : t.nodes i = n := by rw [hnodes, Function.update_self]
  have hterm : n.currentTerm = (s.nodes i).currentTerm ∧ (n.log = (s.nodes i).log ∨
      ∃ e, n.log = (s.nodes i).log ++ [e] ∧ e.term = (s.nodes i).currentTerm) := by
    cases won with
    | false =>
      obtain ⟨el, -, rfl | rfl⟩ := electionEnds_lost hends
      · exact ⟨rfl, Or.inl rfl⟩
      · exact ⟨rfl, Or.inl rfl⟩
    | true =>
      obtain ⟨el, -, -, -, -, rfl⟩ := electionEnds_won hends
      exact ⟨rfl, Or.inr ⟨_, rfl, rfl⟩⟩
  refine ⟨t, hrun, ⟨fun j hj => ?_, ?_, ?_⟩, ?_, ?_⟩
  · rw [hnodes, Function.update_of_ne hj]
  · rw [hself, hterm.1]
  · rw [hself]
    exact hterm.2
  · rw [hself]
    exact hset
  · rw [hself]
    exact hterm.1

/-- The thread of a timer that fired makes the node a candidate of the next term. -/
lemma election_starts (cfg : Config ι σ ρ) (hi : i ∈ Q) (hl : (s.nodes i).state ≠ .leader)
    (hf : 0 < (s.nodes i).firedTimers) :
    ∃ t, Run (step cfg) (Inside Q) s t ∧ Alone i s t ∧ (t.nodes i).Campaigning ∧
      (t.nodes i).currentTerm = (s.nodes i).currentTerm + 1 ∧ (t.nodes i).log = (s.nodes i).log ∧
      (t.nodes i).elections (t.nodes i).currentTerm = some ⟨(s.nodes i).lastLogIndex,
        (s.nodes i).lastLogTerm, (s.nodes i).majority, 1, (s.nodes i).peers, true⟩ := by
  obtain ⟨n, hn⟩ : ∃ n, (s.nodes i).startElection = some n := by
    simp only [Node.startElection, if_neg hf.ne', if_neg hl]
    exact ⟨_, rfl⟩
  have hcamp := startElection_campaigns hn hl
  rcases startElection_cases hn with ⟨hlead, -⟩ | ⟨-, hterm, hlog, hel⟩
  · exact absurd hlead hl
  have hself : (s.setNode i n).nodes i = n := by rw [setNode_nodes, Function.update_self]
  refine ⟨s.setNode i n, Run.single (e := .startElection i) ⟨hi, trivial⟩ (by simp [step, hn]),
    ⟨fun j hj => ?_, ?_, ?_⟩, ?_, ?_, ?_, ?_⟩
  · rw [setNode_nodes, Function.update_of_ne hj]
  · rw [hself, hterm]
    exact Nat.le_succ _
  · rw [hself]
    exact Or.inl hlog
  · rw [hself]
    exact hcamp
  · rw [hself]
    exact hterm
  · rw [hself]
    exact hlog
  · rw [hself, hterm, hel, Function.update_self]

/-- A leader that asks a member of a later term steps down to that term. -/
lemma steps_down (hc : Connected cfg Q s) (hi : i ∈ Q) (hj : j ∈ Q) (hl : (s.nodes i).state = .leader)
    (hlt : (s.nodes i).currentTerm < (s.nodes j).currentTerm) :
    ∃ t, Run (step cfg) (Inside Q) s t ∧ Alone i s t ∧ (t.nodes i).Settled ∧
      (t.nodes i).currentTerm = (s.nodes j).currentTerm := by
  have hne : j ≠ i := fun he => (he ▸ hlt).false
  have hid := hc.election.nodeId i
  have hal : (s.nodes i).nextIndex j ≤ (s.nodes i).log.length + 1 := (hc.bounded.next i hl j).2
  obtain ⟨args, hargs⟩ := Option.isSome_iff_exists.mp
    (appendEntriesArgs_isSome hl (hc.flags i hi) (by rwa [hid]) hal)
  have hterm := (appendEntriesArgs_eq hargs).2.2.1
  have hround : exchange j (s.nodes i, s.nodes j) =
      some (((s.nodes i).becomeFollower (s.nodes j).currentTerm, s.nodes j), false) := by
    simp only [exchange, hargs, Option.bind_some, Node.handleAppendEntries, hterm, hlt, if_true,
      Option.map_some, Node.handleAppendEntriesReply]
  obtain ⟨t, hrun, -, hnodes⟩ := exchange_run cfg hc.election hi hj hne (hc.flags j hj) hround
  have hself : t.nodes i = (s.nodes i).becomeFollower (s.nodes j).currentTerm := by
    rw [hnodes, Function.update_self]
  refine ⟨t, hrun, ⟨fun k hk => ?_, ?_, ?_⟩, ?_, ?_⟩
  · rw [hnodes, Function.update_of_ne hk, Function.update_eq_self]
  · rw [hself]
    exact hlt.le
  · rw [hself]
    exact Or.inl rfl
  · rw [hself]
    exact Or.inl rfl
  · rw [hself]
    rfl

lemma Alone.trans {u : Cluster ι σ ρ} (h : Alone i s t) (k : Alone i t u)
    (hlog : (t.nodes i).log = (s.nodes i).log) (hterm : (s.nodes i).currentTerm = (t.nodes i).currentTerm) :
    Alone i s u := by
  refine ⟨fun j hj => (k.others j hj).trans (h.others j hj), h.term.trans k.term, ?_⟩
  rw [← hlog, hterm]
  exact k.log

/-- What every stage of the way to a leader keeps. -/
structure Runs (cfg : Config ι σ ρ) (Q : Finset ι) (i : ι) (s : Cluster ι σ ρ) : Prop where
  connected : Connected cfg Q s
  newest : ∀ j ∈ Q, UpToDate Entry.term (s.nodes i).log (s.nodes j).log

lemma Runs.move (h : Runs cfg Q i s) (hr : Run (step cfg) (Inside Q) s t) (ha : Alone i s t) :
    Runs cfg Q i t :=
  ⟨h.connected.run hr, ha.newest h.connected h.newest⟩

/-- The newest term among the other members. -/
def othersTerm (Q : Finset ι) (i : ι) (s : Cluster ι σ ρ) : ℕ :=
  (Q.erase i).sup fun j => (s.nodes j).currentTerm

lemma Alone.othersTerm (h : Alone i s t) : othersTerm Q i t = othersTerm Q i s := by
  refine Finset.sup_congr rfl fun j hj => ?_
  rw [h.others j (Finset.ne_of_mem_erase hj)]

lemma le_othersTerm (hj : j ∈ Q) (hne : j ≠ i) : (s.nodes j).currentTerm ≤ othersTerm Q i s :=
  Finset.le_sup (f := fun j => (s.nodes j).currentTerm) (Finset.mem_erase.mpr ⟨hne, hj⟩)

/-- A campaign that is new and ahead of everybody asks for votes. -/
lemma Runs.asking (h : Runs cfg Q i s) (old : Cluster ι σ ρ)
    (hcamp : (s.nodes i).Campaigning) (hlog : (s.nodes i).log = (old.nodes i).log)
    (hnodeId : (old.nodes i).nodeId = i) (hal : Aligned (old.nodes i).log)
    (hel : (s.nodes i).elections (s.nodes i).currentTerm = some ⟨(old.nodes i).lastLogIndex,
      (old.nodes i).lastLogTerm, (old.nodes i).majority, 1, (old.nodes i).peers, true⟩)
    (hahead : ∀ j ∈ Q, j ≠ i → (s.nodes j).currentTerm < (s.nodes i).currentTerm) :
    ∃ el, Asking Q i s el := by
  refine ⟨_, hcamp.1, hel, rfl, ?_, ?_, majority_eq, ?_, ?_, fun j hj hask => ?_, fun j hj => ?_,
    h.newest⟩
  · rw [hlog]
    exact hal.lastLogIndex
  · rw [hlog]
    rfl
  · have hpos : 0 < Fintype.card ι := Fintype.card_pos_iff.mpr ⟨i⟩
    dsimp only [Node.peers]
    rw [Finset.card_erase_of_mem (Finset.mem_univ _), Finset.card_univ]
    omega
  · dsimp only [Node.peers]
    rw [hnodeId]
    exact Finset.notMem_erase i _
  · refine hahead j hj fun he => ?_
    subst he
    dsimp only [Node.peers] at hask
    rw [hnodeId] at hask
    exact Finset.notMem_erase j _ hask
  · by_cases hij : j = i
    · rw [hij]
    · exact (hahead j hj hij).le

/-- After the thread under way, if there is one, the timer is armed or the node leads. -/
lemma Runs.settles (h : Runs cfg Q i s) (hi : i ∈ Q) :
    CanReach (step cfg) (Inside Q) (fun t => Runs cfg Q i t ∧ (t.nodes i).Settled) s := by
  by_cases hset : (s.nodes i).Settled
  · exact .now ⟨h, hset⟩
  have hcamp : CanReach (step cfg) (Inside Q) (fun t => Runs cfg Q i t ∧ (t.nodes i).Campaigning) s := by
    rcases watched h.connected.reachable i with hs | hf | hcamp
    · exact absurd hs hset
    · obtain ⟨t, hrun, halone, hcamp, -⟩ := election_starts cfg hi (fun hl => hset (Or.inr hl)) hf
      exact ⟨t, hrun, h.move hrun halone, hcamp⟩
    · exact .now ⟨h, hcamp⟩
  refine hcamp.next fun t ht => ?_
  obtain ⟨u, hrun, halone, hset, -⟩ := campaign_ends cfg hi ht.2
  exact ⟨u, hrun, ht.1.move hrun halone, hset⟩

/-- An armed timer makes the node a candidate of the next term, which wins if it is ahead of everybody. -/
lemma Runs.campaigns (h : Runs cfg Q i s) (hi : i ∈ Q) (hmaj : Majority Q)
    (harmed : (s.nodes i).timerArmed = true) (hl : (s.nodes i).state ≠ .leader) :
    CanReach (step cfg) (Inside Q) (fun t => (Connected cfg Q t ∧ Heads Q i t) ∨
      ((Runs cfg Q i t ∧ (t.nodes i).Settled) ∧
        othersTerm Q i t - (t.nodes i).currentTerm < othersTerm Q i s - (s.nodes i).currentTerm)) s := by
  set m := { s.nodes i with timerArmed := false, firedTimers := (s.nodes i).firedTimers + 1 } with hm
  have hfires : (s.nodes i).timerFires = some m := if_pos harmed
  have hself : (s.setNode i m).nodes i = m := by rw [setNode_nodes, Function.update_self]
  have hfire : Run (step cfg) (Inside Q) s (s.setNode i m) :=
    Run.single (e := .timerFires i) ⟨hi, trivial⟩ (by simp [step, hfires])
  have hfired : Alone i s (s.setNode i m) := by
    refine ⟨fun j hj => Function.update_of_ne hj .., ?_, ?_⟩
    · rw [hself]
    · rw [hself]
      exact Or.inl rfl
  obtain ⟨t, hstart, hstarted, hcamp, hterm, hlog, hel⟩ := election_starts cfg
    (s := s.setNode i m) hi (by rw [hself]; exact hl) (by rw [hself]; exact Nat.succ_pos _)
  rw [hself] at hterm hlog hel
  have hrun := hfire.trans hstart
  have halone : Alone i s t := hfired.trans hstarted (by rw [hself]) (by rw [hself])
  have ht := h.move hrun halone
  by_cases hahead : ∀ j ∈ Q, j ≠ i → (t.nodes j).currentTerm < (t.nodes i).currentTerm
  · obtain ⟨a, -, ha⟩ := refinement h.connected.reachable
    obtain ⟨el, hask⟩ := ht.asking s hcamp hlog (ha.election.nodeId i) (ha.aligned i) hel hahead
    exact (CanReach.after hrun (hask.elects ht.connected hi hmaj)).mono fun w hw => Or.inl hw
  · push Not at hahead
    obtain ⟨j, hj, hne, hle⟩ := hahead
    obtain ⟨u, hends, hended, hset, hsame⟩ := campaign_ends cfg hi hcamp
    refine ⟨u, hrun.trans hends, Or.inr ⟨⟨ht.move hends hended, hset⟩, ?_⟩⟩
    have hothers : (t.nodes j).currentTerm ≤ othersTerm Q i t := le_othersTerm hj hne
    have hterm' : (t.nodes i).currentTerm = (s.nodes i).currentTerm + 1 := hterm
    rw [hended.othersTerm, halone.othersTerm, hsame]
    rw [halone.othersTerm] at hothers
    omega

/-- The member with the newest log campaigns until it leads and nobody is ahead of it. -/
lemma Runs.elects (h : Runs cfg Q i s) (hi : i ∈ Q) (hmaj : Majority Q) :
    CanReach (step cfg) (Inside Q) (fun t => Connected cfg Q t ∧ Heads Q i t) s := by
  refine (h.settles hi).next fun t ht => ?_
  refine CanReach.ranked (I := fun t => Runs cfg Q i t ∧ (t.nodes i).Settled)
    (fun t => othersTerm Q i t - (t.nodes i).currentTerm) (fun u hu => ?_) ht
  obtain ⟨hu, hset⟩ := hu
  by_cases hl : (u.nodes i).state = .leader
  · by_cases hahead : ∀ j ∈ Q, (u.nodes j).currentTerm ≤ (u.nodes i).currentTerm
    · exact .now (Or.inl ⟨hu.connected, hl, hahead⟩)
    · push Not at hahead
      obtain ⟨j, hj, hlt⟩ := hahead
      obtain ⟨v, hrun, halone, hset', hterm⟩ := steps_down hu.connected hi hj hl hlt
      refine ⟨v, hrun, Or.inr ⟨⟨hu.move hrun halone, hset'⟩, ?_⟩⟩
      have hle : (u.nodes j).currentTerm ≤ othersTerm Q i u :=
        le_othersTerm hj fun he => (he ▸ hlt).false
      rw [halone.othersTerm, hterm]
      omega
  · exact hu.campaigns hi hmaj (hset.resolve_right hl) hl

/-- A connected majority can always get a leader none of its members is ahead of. -/
lemma Connected.elects (h : Connected cfg Q s) (hmaj : Majority Q) :
    ∃ i ∈ Q, CanReach (step cfg) (Inside Q) (fun t => Connected cfg Q t ∧ Heads Q i t) s := by
  obtain ⟨i, hi, hnew⟩ := exists_upToDate Entry.term Q (fun j => (s.nodes j).log) hmaj.exists_mem
  exact ⟨i, hi, Runs.elects ⟨h, hnew⟩ hi hmaj⟩

end Cluster

end DistributedStorage.Raft

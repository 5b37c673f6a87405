import DistributedStorage.Raft.Applier
import DistributedStorage.Raft.Snapshots

/-! The election timer. It is spent, cancelled or left alone only where the thread of an election takes
over or the node becomes leader, so a node that does not lead always has an election ahead of it. -/

set_option linter.unusedSectionVars false

namespace DistributedStorage.Raft

open Library.Runs

variable {ι σ ρ : Type} [DecidableEq ι]

namespace Node

/-- The thread of the present term's election has not come to its last lock section. -/
def Campaigning (n : Node ι σ ρ) : Prop :=
  n.state = .candidate ∧ ∃ el, n.elections n.currentTerm = some el ∧ el.running = true

def Settled (n : Node ι σ ρ) : Prop :=
  n.timerArmed = true ∨ n.state = .leader

/-- An election is ahead of the node, unless it leads. -/
def Watched (n : Node ι σ ρ) : Prop :=
  n.Settled ∨ 0 < n.firedTimers ∨ n.Campaigning

end Node

/-- What a lock section does to the election timer. -/
inductive Turn (n m : Node ι σ ρ) : Prop
  | settles : m.Settled → Turn n m
  | fires : n.timerArmed = true → 0 < m.firedTimers → Turn n m
  | starts : 0 < n.firedTimers → m.Campaigning → Turn n m
  | keeps : m.state = n.state → m.currentTerm = n.currentTerm → m.timerArmed = n.timerArmed →
      m.firedTimers = n.firedTimers → (n.Campaigning → m.Campaigning) → Turn n m

variable {n m k : Node ι σ ρ}

lemma Turn.refl (n : Node ι σ ρ) : Turn n n :=
  .keeps rfl rfl rfl rfl id

lemma Turn.same (hstate : m.state = n.state) (hterm : m.currentTerm = n.currentTerm)
    (harmed : m.timerArmed = n.timerArmed) (hfired : m.firedTimers = n.firedTimers)
    (hel : m.elections = n.elections) : Turn n m := by
  refine .keeps hstate hterm harmed hfired fun ⟨hc, el, hk, hrun⟩ => ⟨hstate.trans hc, el, ?_, hrun⟩
  rw [hel, hterm]
  exact hk

lemma Turn.arms (h : m.timerArmed = true) : Turn n m := .settles (Or.inl h)

lemma Turn.leads (h : m.state = .leader) : Turn n m := .settles (Or.inr h)

lemma Turn.watched (h : Turn n m) (hn : n.Watched) : m.Watched := by
  cases h with
  | settles hs => exact Or.inl hs
  | fires _ hfired => exact Or.inr (Or.inl hfired)
  | starts _ hc => exact Or.inr (Or.inr hc)
  | keeps hstate hterm harmed hfired hc =>
    rcases hn with hs | hf | hn
    · exact Or.inl (hs.imp harmed.trans hstate.trans)
    · exact Or.inr (Or.inl (hfired ▸ hf))
    · exact Or.inr (Or.inr (hc hn))

/-- An election that no other one is about to replace goes on until the timer is armed or the node leads. -/
lemma Turn.campaigning (h : Turn n m) (hs : ¬ n.Settled) (hf : n.firedTimers = 0) (hc : n.Campaigning) :
    m.Settled ∨ (m.firedTimers = 0 ∧ m.currentTerm = n.currentTerm ∧ m.Campaigning) := by
  cases h with
  | settles hm => exact Or.inl hm
  | fires harmed _ => exact absurd (Or.inl harmed) hs
  | starts hpos _ => omega
  | keeps _ hterm _ hfired hk => exact Or.inr ⟨hfired.trans hf, hterm, hk hc⟩

lemma becomeFollower_armed (n : Node ι σ ρ) (term : ℕ) : (n.becomeFollower term).timerArmed = true := rfl

lemma stepDownForVote_turn (term : ℕ) : Turn n (n.stepDownForVote term) := by
  simp only [Node.stepDownForVote]
  split_ifs
  · exact .arms (becomeFollower_armed n term)
  · exact .refl n

lemma handleRequestVote_turn (args : RequestVoteArgs ι) : Turn n (n.handleRequestVote args).1 := by
  simp only [Node.handleRequestVote]
  split_ifs
  · exact .arms rfl
  · exact stepDownForVote_turn args.term

lemma storeEntries_armed {p : ℕ} {es : List Entry} (h : n.timerArmed = true) :
    (n.storeEntries p es).timerArmed = true := by
  simp only [Node.storeEntries]
  split_ifs <;> exact h

lemma updateCommit_armed {c : ℕ} (h : n.timerArmed = true) : (n.updateCommit c).timerArmed = true := by
  simp only [Node.updateCommit]
  split_ifs <;> exact h

lemma handleAppendEntries_turn (args : AppendEntriesArgs ι) : Turn n (n.handleAppendEntries args).1 := by
  simp only [Node.handleAppendEntries]
  split_ifs
  · exact .refl n
  · split
    · exact .arms rfl
    · exact .arms rfl
    · apply Turn.arms
      apply updateCommit_armed
      exact storeEntries_armed rfl

lemma timerFires_turn (h : n.timerFires = some m) : Turn n m := by
  simp only [Node.timerFires] at h
  split_ifs at h with harmed
  cases h
  exact .fires harmed (Nat.succ_pos _)

lemma appendEntry_turn {cfg : Config ι σ ρ} {cmd : Command} {out : Node ι σ ρ × ℕ}
    (h : n.appendEntry cfg cmd = .ok out) : Turn n out.1 := by
  simp only [Node.appendEntry] at h
  split_ifs at h with hl
  cases h
  exact .leads (not_not.mp hl)

lemma callReturns_turn {w : ℕ} {out : Node ι σ ρ × Call ι ρ × Except (Error ι) (Option ρ)}
    (h : n.callReturns w = some out) : Turn n out.1 := by
  simp only [Node.callReturns] at h
  split at h
  · split_ifs at h
    cases h
    exact .same rfl rfl rfl rfl rfl
  · cases h

lemma callTimesOut_turn {w : ℕ} {out : Node ι σ ρ × Call ι ρ} (h : n.callTimesOut w = some out) :
    Turn n out.1 := by
  simp only [Node.callTimesOut] at h
  split at h
  · cases h
    exact .same rfl rfl rfl rfl rfl
  · cases h

lemma applierTakes_turn (h : n.applierTakes = some m) : Turn n m := by
  obtain ⟨-, -, rfl⟩ := applierTakes_eq h
  exact .same rfl rfl rfl rfl rfl

lemma applierApplies_turn {cfg : Config ι σ ρ} {out : Node ι σ ρ × ℕ × Entry × Option (Except (Error ι) ρ)}
    (h : n.applierApplies cfg = some out) : Turn n out.1 := by
  obtain ⟨rest, -, -, -, he⟩ := applierApplies_eq h
  rw [he]
  exact .same rfl rfl rfl rfl rfl

lemma applierResolves_turn {cfg : Config ι σ ρ} (h : n.applierResolves cfg = some m) : Turn n m := by
  obtain ⟨idx, e, rest, result, calls, waiters, -, -, rfl⟩ := applierResolves_eq h
  exact .same rfl rfl rfl rfl rfl

variable [Fintype ι]

lemma startElection_campaigns (h : n.startElection = some m) (hl : n.state ≠ .leader) : m.Campaigning := by
  simp only [Node.startElection] at h
  split_ifs at h
  cases h
  exact ⟨rfl, _, Function.update_self .., rfl⟩

lemma startElection_turn (h : n.startElection = some m) : Turn n m := by
  by_cases hl : n.state = .leader
  · simp only [Node.startElection, if_pos hl] at h
    split_ifs at h
    cases h
    exact .leads hl
  · have hfired : 0 < n.firedTimers := by
      simp only [Node.startElection] at h
      split_ifs at h with h0
      exact Nat.pos_of_ne_zero h0
    exact .starts hfired (startElection_campaigns h hl)

/-- Other elections than the present one may end, and the present one may count votes. -/
lemma setElection_turn {term : ℕ} {old el : Election ι} (hold : n.elections term = some old)
    (hel : n.state = .candidate → n.currentTerm = term → el.running = old.running) :
    Turn n (n.setElection term el) := by
  refine .keeps rfl rfl rfl rfl fun ⟨hc, cur, hcur, hrun⟩ => ⟨hc, ?_⟩
  by_cases ht : n.currentTerm = term
  · subst ht
    rw [hold] at hcur
    cases hcur
    exact ⟨el, Function.update_self .., (hel hc rfl).trans hrun⟩
  · exact ⟨cur, (Function.update_of_ne ht ..).trans hcur, hrun⟩

lemma handleRequestVoteReply_turn {peer : ι} {term : ℕ} {reply : RequestVoteReply}
    (h : n.handleRequestVoteReply peer term reply = some m) : Turn n m := by
  simp only [Node.handleRequestVoteReply] at h
  split at h
  · cases h
  · rename_i el hel
    split_ifs at h
    · cases h
      exact .arms rfl
    · cases h
      exact setElection_turn hel fun _ _ => rfl
    · cases h
      exact setElection_turn hel fun _ _ => rfl

lemma Node.Campaigning.ends (h : n.Campaigning) :
    ∃ m won, n.electionEnds n.currentTerm = some (m, won) ∧ m.Settled := by
  obtain ⟨hc, el, hel, hrun⟩ := h
  simp only [Node.electionEnds, hel, hrun, if_true]
  rw [if_neg (by simp [Node.setElection, hc])]
  split_ifs
  · exact ⟨_, true, rfl, Or.inr rfl⟩
  · exact ⟨_, false, rfl, Or.inl rfl⟩

lemma electionEnds_turn {term : ℕ} {out : Node ι σ ρ × Bool} (h : n.electionEnds term = some out) :
    Turn n out.1 := by
  simp only [Node.electionEnds] at h
  split at h
  · cases h
  · rename_i el hel
    split_ifs at h with hrun hlate hwon
    · cases h
      refine setElection_turn hel fun hc ht => ?_
      rcases hlate with hs | hs
      · exact absurd hc hs
      · exact absurd ht hs
    · cases h
      exact .leads rfl
    · cases h
      exact .arms rfl

lemma handleAppendEntriesReply_turn (peer : ι) (args : AppendEntriesArgs ι) (reply : AppendEntriesReply) :
    Turn n (n.handleAppendEntriesReply peer args reply) := by
  simp only [Node.handleAppendEntriesReply]
  split_ifs with hterm hl
  · exact .arms rfl
  · exact .refl n
  · apply Turn.leads
    simp only [Node.advanceCommitIndex, Node.raiseMatch]
    split_ifs <;> exact not_not.mp hl
  · exact .leads (not_not.mp hl)

namespace Cluster

variable {cfg : Config ι σ ρ} {s t : Cluster ι σ ρ} {e : Event ι}

lemma deliver_turn {msg : Message ι} (h : s.deliver msg = some t) :
    ∃ i n, Turn (s.nodes i) n ∧ t.nodes = Function.update s.nodes i n := by
  cases msg with
  | requestVote dst boot args =>
    simp only [deliver] at h
    split_ifs at h
    cases h
    exact ⟨dst, _, handleRequestVote_turn args, rfl⟩
  | requestVoteReply src boot args reply =>
    simp only [deliver] at h
    split_ifs at h
    obtain ⟨n, hn, rfl⟩ := Option.map_eq_some_iff.mp h
    exact ⟨args.candidateId, n, handleRequestVoteReply_turn hn, rfl⟩
  | appendEntries dst boot args =>
    simp only [deliver] at h
    split_ifs at h
    cases h
    exact ⟨dst, _, handleAppendEntries_turn args, sendReply_nodes ..⟩
  | appendEntriesReply src boot args reply =>
    simp only [deliver] at h
    split_ifs at h
    cases h
    exact ⟨args.leaderId, _, handleAppendEntriesReply_turn src args reply, rfl⟩

lemma step_turn (h : step cfg s e = some t) :
    ∃ i n, Turn (s.nodes i) n ∧ t.nodes = Function.update s.nodes i n := by
  cases e with
  | timerFires i =>
    obtain ⟨n, hn, rfl⟩ := Option.map_eq_some_iff.mp h
    exact ⟨i, n, timerFires_turn hn, rfl⟩
  | startElection i =>
    obtain ⟨n, hn, rfl⟩ := Option.map_eq_some_iff.mp h
    exact ⟨i, n, startElection_turn hn, rfl⟩
  | sendRequestVote i term peer =>
    obtain ⟨args, -, rfl⟩ := Option.map_eq_some_iff.mp h
    exact ⟨i, s.nodes i, .refl _, (Function.update_eq_self ..).symm⟩
  | electionEnds i term =>
    obtain ⟨⟨n, won⟩, hn, rfl⟩ := Option.map_eq_some_iff.mp h
    cases won
    · exact ⟨i, n, electionEnds_turn hn, rfl⟩
    · exact ⟨i, n, electionEnds_turn hn, rfl⟩
  | sendAppendEntries i peer =>
    obtain ⟨args, -, rfl⟩ := Option.map_eq_some_iff.mp h
    exact ⟨i, s.nodes i, .refl _, (Function.update_eq_self ..).symm⟩
  | deliver k =>
    obtain ⟨msg, -, hd⟩ := Option.bind_eq_some_iff.mp h
    exact deliver_turn hd
  | deliverAndCrash k =>
    obtain ⟨msg, -, hd⟩ := Option.bind_eq_some_iff.mp h
    cases msg with
    | requestVote dst boot args =>
      cases hd
      exact ⟨dst, _, .arms rfl, rfl⟩
    | appendEntries dst boot args =>
      simp only [deliverAndCrash] at hd
      split_ifs at hd
      cases hd
      exact ⟨dst, _, .arms rfl, rfl⟩
    | requestVoteReply src boot args reply => cases hd
    | appendEntriesReply src boot args reply => cases hd
  | appendEntry i cmd =>
    simp only [step] at h
    split at h
    · rename_i out hout
      cases h
      exact ⟨i, out.1, appendEntry_turn hout, rfl⟩
    · cases h
  | callReturns i w =>
    obtain ⟨out, hn, rfl⟩ := Option.map_eq_some_iff.mp h
    exact ⟨i, out.1, callReturns_turn hn, rfl⟩
  | callTimesOut i w =>
    obtain ⟨out, hn, rfl⟩ := Option.map_eq_some_iff.mp h
    exact ⟨i, out.1, callTimesOut_turn hn, rfl⟩
  | applierTakes i =>
    obtain ⟨n, hn, rfl⟩ := Option.map_eq_some_iff.mp h
    exact ⟨i, n, applierTakes_turn hn, rfl⟩
  | applierApplies i =>
    obtain ⟨out, hn, rfl⟩ := Option.map_eq_some_iff.mp h
    exact ⟨i, out.1, applierApplies_turn hn, rfl⟩
  | applierResolves i =>
    obtain ⟨n, hn, rfl⟩ := Option.map_eq_some_iff.mp h
    exact ⟨i, n, applierResolves_turn hn, rfl⟩
  | setIsolated i isolated =>
    cases h
    exact ⟨i, (s.nodes i).setIsolated isolated, .same rfl rfl rfl rfl rfl, rfl⟩
  | crash i =>
    cases h
    exact ⟨i, _, .arms rfl, rfl⟩

end Cluster

namespace Installing

variable {cfg : Config ι σ ρ} {applyFn : σ → Bytes → σ × Bool} {x y : Installing ι σ ρ}
  {e : InstallEvent ι}

lemma step_turn (h : step cfg applyFn x e = some y) (i : ι) : Turn (x.nodes i) (y.nodes i) := by
  have hone : ∃ j n, Turn (x.nodes j) n ∧ y.nodes = Function.update x.nodes j n := by
    rcases step_cases h with ⟨f, -, hf⟩ | ⟨j, n, hsec, hy⟩
    · exact Cluster.step_turn hf
    · refine ⟨j, n, ?_, congrArg Cluster.nodes hy⟩
      cases hsec with
      | begins _ args => exact .arms rfl
      | applies k call _ _ => exact .same rfl rfl rfl rfl rfl
      | ends k call _ _ => exact .same rfl rfl rfl rfl rfl
  obtain ⟨j, n, hturn, hnodes⟩ := hone
  rw [hnodes]
  by_cases hij : i = j
  · subst hij
    rw [Function.update_self]
    exact hturn
  · rw [Function.update_of_ne hij]
    exact .refl _

/-- The recording of every state a run goes through after its first. -/
abbrev remembering (cfg : Config ι σ ρ) (applyFn : σ → Bytes → σ × Bool) :
    Installing ι σ ρ × List (Installing ι σ ρ) → InstallEvent ι →
    Option (Installing ι σ ρ × List (Installing ι σ ρ)) :=
  recording (step cfg applyFn) fun _ _ y => [y]

lemma Reachable.watched (h : Reachable cfg applyFn Free x) (i : ι) : (x.nodes i).Watched := by
  refine Run.invariant (I := fun x => (x.nodes i).Watched) ?_ h (Or.inl (Or.inl rfl))
  intro x e y hx _ hs
  exact (step_turn hs i).watched hx

/-- From a campaign on that no other election is about to replace, until the timer is armed or the node
leads, its thread is under way. -/
lemma campaign_lasts {i : ι} {past : List (Installing ι σ ρ)} (hf : (x.nodes i).firedTimers = 0)
    (hc : (x.nodes i).Campaigning) (hs : ¬ (x.nodes i).Settled)
    (h : Run (remembering cfg applyFn) Free (x, []) (y, past)) :
    (∃ u ∈ past, (u.nodes i).Settled) ∨ (¬ (y.nodes i).Settled ∧ (y.nodes i).firedTimers = 0 ∧
      (y.nodes i).currentTerm = (x.nodes i).currentTerm ∧ (y.nodes i).Campaigning) := by
  refine Run.invariant (I := fun z : Installing ι σ ρ × List (Installing ι σ ρ) =>
    (∃ u ∈ z.2, (u.nodes i).Settled) ∨ (¬ (z.1.nodes i).Settled ∧ (z.1.nodes i).firedTimers = 0 ∧
      (z.1.nodes i).currentTerm = (x.nodes i).currentTerm ∧ (z.1.nodes i).Campaigning)) ?_ h
    (Or.inr ⟨hs, hf, rfl, hc⟩)
  rintro ⟨u, past⟩ e ⟨v, past'⟩ hu _ he
  obtain ⟨hstep, hpast⟩ := recording_eq_some.mp he
  change past' = past ++ [v] at hpast
  subst hpast
  rcases hu with ⟨w, hw, hset⟩ | ⟨hns, hfired, hterm, hcamp⟩
  · exact Or.inl ⟨w, List.mem_append_left _ hw, hset⟩
  · by_cases hv : (v.nodes i).Settled
    · exact Or.inl ⟨v, List.mem_append_right _ (List.mem_singleton.mpr rfl), hv⟩
    · obtain hset | ⟨hfired', hterm', hcamp'⟩ := (step_turn hstep i).campaigning hns hfired hcamp
      · exact absurd hset hv
      · exact Or.inr ⟨hv, hfired', hterm'.trans hterm, hcamp'⟩

/-- A node that is not leader has its timer armed, or the thread of a timer that fired is about to become a
candidate, or the thread of its campaign is under way: whenever that comes to its end, it arms the timer
or makes the node leader, unless the timer was armed or the node led before. -/
theorem election_pending (h : Reachable cfg applyFn Free x) {i : ι} (hl : (x.nodes i).state ≠ .leader) :
    (x.nodes i).timerArmed = true ∨
    (0 < (x.nodes i).firedTimers ∧ ∃ n, (x.nodes i).startElection = some n ∧ n.Campaigning) ∨
    ((x.nodes i).firedTimers = 0 ∧ (x.nodes i).Campaigning ∧
      ∀ y past, Run (remembering cfg applyFn) Free (x, []) (y, past) →
        (∃ u ∈ past, (u.nodes i).timerArmed = true ∨ (u.nodes i).state = .leader) ∨
        ∃ n won, (y.nodes i).electionEnds (x.nodes i).currentTerm = some (n, won) ∧
          (n.timerArmed = true ∨ n.state = .leader)) := by
  by_cases harmed : (x.nodes i).timerArmed = true
  · exact Or.inl harmed
  have hns : ¬ (x.nodes i).Settled := fun hs => hs.elim harmed hl
  by_cases hfired : 0 < (x.nodes i).firedTimers
  · refine Or.inr (Or.inl ⟨hfired, ?_⟩)
    obtain ⟨n, hn⟩ : ∃ n, (x.nodes i).startElection = some n := by
      simp only [Node.startElection, if_neg hfired.ne', if_neg hl]
      exact ⟨_, rfl⟩
    exact ⟨n, hn, startElection_campaigns hn hl⟩
  · have h0 : (x.nodes i).firedTimers = 0 := Nat.eq_zero_of_not_pos hfired
    have hc : (x.nodes i).Campaigning := by
      rcases h.watched i with hs | hf | hc
      · exact absurd hs hns
      · exact absurd hf hfired
      · exact hc
    refine Or.inr (Or.inr ⟨h0, hc, fun y past hr => ?_⟩)
    rcases campaign_lasts h0 hc hns hr with hset | ⟨-, -, hterm, hcamp⟩
    · exact Or.inl hset
    · rw [← hterm]
      exact Or.inr hcamp.ends

/-- Node 0 of three starts an election and asks nobody. -/
theorem election_pending_campaign : ∃ x : Installing (Fin 3) Unit Unit,
    Reachable (Cluster.stateless 3) ignores Free x ∧ (x.nodes 0).timerArmed = false ∧
    (x.nodes 0).state = .candidate ∧ (x.nodes 0).Campaigning := by
  obtain ⟨x, hx, hs, harmed, hfired⟩ := Run.exists_of_execute (step (Cluster.stateless 3) ignores)
    (init (Cluster.stateless 3)) (raftEvents [.timerFires 0, .startElection 0])
    (fun x => (x.nodes 0).state = .candidate ∧ (x.nodes 0).timerArmed = false ∧
      (x.nodes 0).firedTimers = 0) (by decide +kernel)
  refine ⟨x, hx, harmed, hs, ?_⟩
  have hl : (x.nodes 0).state ≠ .leader := by simp [hs]
  rcases election_pending hx hl with ha | ⟨hf, -⟩ | ⟨-, hc, -⟩
  · simp [harmed] at ha
  · omega
  · exact hc

end Installing

end DistributedStorage.Raft

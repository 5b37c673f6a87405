import DistributedStorage.Raft.AppendEntry

/-! The consensus engine apart from its callers: frames of calls that survive its steps, and where the
entries come from that it stores, sends and applies. -/

set_option linter.unusedSectionVars false

namespace DistributedStorage.Raft

open Library.LeaderLogs Library.Runs

variable {ι σ ρ : Type}

/-- Every step but those of the callers of `appendEntry`. -/
def engine : Event ι → Bool
  | .appendEntry _ _ => false
  | .callReturns _ _ => false
  | .callTimesOut _ _ => false
  | _ => true

/-- The observation of a call that ends. -/
def Ends : Observation ι ρ → Prop
  | .returned .. => True
  | .raised .. => True
  | _ => False

variable [DecidableEq ι] {cfg : Config ι σ ρ} {n m : Node ι σ ρ}

lemma Serves.nextCall_le (h : Serves cfg n m) : m.nextCall ≤ n.nextCall := by
  cases h with
  | keeps hs => exact hs.nextCall.le
  | fails hs => exact hs.nextCall.le
  | restarts hs => exact hs.nextCall.trans_le (Nat.zero_le _)

variable [Fintype ι]

namespace Cluster

variable {s t : Cluster ι σ ρ} {a : State ι Entry}

lemma ServiceChange.trace (h : ServiceChange cfg s t) : s.trace <+: t.trace := by
  cases h with
  | serves i n obs _ _ ht => exact ht ▸ List.prefix_append _ _
  | appends i cmd n w _ ht => exact ht ▸ List.prefix_rfl
  | quiet i n obs _ ht => exact ht ▸ List.prefix_append _ _

lemma ServiceChange.boot_le (h : ServiceChange cfg s t) (ha : ApplierInv cfg s) (i : ι) :
    (s.nodes i).boot ≤ (t.nodes i).boot := by
  obtain ⟨j, hj⟩ := h.applier ha.boots
  by_cases hij : i = j
  · exact hij ▸ hj.boot_le
  · rw [hj.others i hij]

/-- No frame is added, and no call ends. -/
structure Uncalled (s t : Cluster ι σ ρ) : Prop where
  nextCall_le : ∀ i, (t.nodes i).nextCall ≤ (s.nodes i).nextCall
  silent : ∃ obs, t.trace = s.trace ++ obs ∧ ∀ o ∈ obs, ¬ Ends o

lemma Uncalled.move {i : ι} {n : Node ι σ ρ} {obs : List (Observation ι ρ)}
    (hn : t.nodes = Function.update s.nodes i n) (ht : t.trace = s.trace ++ obs)
    (hle : n.nextCall ≤ (s.nodes i).nextCall) (ho : ∀ o ∈ obs, ¬ Ends o) : Uncalled s t := by
  refine ⟨fun j => ?_, obs, ht, ho⟩
  by_cases hj : j = i
  · subst hj
    rw [hn, Function.update_self]
    exact hle
  · rw [hn, Function.update_of_ne hj]

lemma Uncalled.of_serves {i : ι} {n : Node ι σ ρ} (hn : t.nodes = Function.update s.nodes i n)
    (ht : t.trace = s.trace) (h : Serves cfg (s.nodes i) n) : Uncalled s t :=
  .move hn (ht.trans (List.append_nil _).symm) h.nextCall_le fun _ ho => (List.not_mem_nil ho).elim

lemma deliver_uncalled (cfg : Config ι σ ρ) {msg : Message ι} (h : s.deliver msg = some t) : Uncalled s t := by
  cases msg with
  | requestVote dst boot args =>
    simp only [deliver] at h
    split_ifs at h
    cases h
    exact .of_serves rfl rfl (handleRequestVote_serves args : Serves cfg _ _)
  | requestVoteReply src boot args reply =>
    simp only [deliver] at h
    split_ifs at h
    obtain ⟨n, hn, rfl⟩ := Option.map_eq_some_iff.mp h
    exact .of_serves rfl rfl (handleRequestVoteReply_serves hn : Serves cfg _ _)
  | appendEntries dst boot args =>
    simp only [deliver] at h
    split_ifs at h
    cases h
    have hs : Serves cfg (s.nodes dst) _ := handleAppendEntries_serves args
    cases hr : ((s.nodes dst).handleAppendEntries args).2 with
    | none => exact .of_serves rfl rfl hs
    | some reply => exact .of_serves rfl rfl hs
  | appendEntriesReply src boot args reply =>
    simp only [deliver] at h
    split_ifs at h
    cases h
    exact .of_serves rfl rfl (handleAppendEntriesReply_serves src args reply : Serves cfg _ _)

lemma Uncalled.crashes (i : ι) (n : Node ι σ ρ) :
    Uncalled s (s.setNode i (n.restart cfg)) :=
  .move rfl (List.append_nil _).symm (Nat.zero_le _) fun _ ho => (List.not_mem_nil ho).elim

lemma engine_uncalled {e : Event ι} (he : engine e = true) (h : step cfg s e = some t) :
    Uncalled s t := by
  have hnil {P : Observation ι ρ → Prop} : ∀ o ∈ ([] : List (Observation ι ρ)), P o :=
    fun _ ho => (List.not_mem_nil ho).elim
  cases e with
  | timerFires i =>
    obtain ⟨n, hn, rfl⟩ := Option.map_eq_some_iff.mp h
    simp only [Node.timerFires] at hn
    split_ifs at hn
    cases hn
    exact .move rfl (List.append_nil _).symm le_rfl hnil
  | startElection i =>
    obtain ⟨n, hn, rfl⟩ := Option.map_eq_some_iff.mp h
    exact .of_serves rfl rfl (startElection_serves hn : Serves cfg _ _)
  | sendRequestVote i term peer =>
    obtain ⟨args, -, rfl⟩ := Option.map_eq_some_iff.mp h
    exact ⟨fun _ => le_rfl, [], (List.append_nil _).symm, hnil⟩
  | electionEnds i term =>
    obtain ⟨⟨n, won⟩, hn, rfl⟩ := Option.map_eq_some_iff.mp h
    have hle := (electionEnds_serves hn : Serves cfg _ _).nextCall_le
    cases won with
    | false => exact .move rfl (List.append_nil _).symm hle hnil
    | true => exact .move rfl rfl hle fun o ho => by cases List.mem_singleton.mp ho; exact id
  | sendAppendEntries i peer =>
    obtain ⟨args, -, rfl⟩ := Option.map_eq_some_iff.mp h
    exact ⟨fun _ => le_rfl, [], (List.append_nil _).symm, hnil⟩
  | deliver k =>
    obtain ⟨msg, -, hd⟩ := Option.bind_eq_some_iff.mp h
    exact deliver_uncalled cfg hd
  | deliverAndCrash k =>
    obtain ⟨msg, -, hd⟩ := Option.bind_eq_some_iff.mp h
    cases msg with
    | requestVote dst boot args =>
      cases hd
      exact .crashes dst _
    | appendEntries dst boot args =>
      simp only [deliverAndCrash] at hd
      split_ifs at hd
      cases hd
      exact .crashes dst _
    | requestVoteReply src boot args reply => cases hd
    | appendEntriesReply src boot args reply => cases hd
  | appendEntry i cmd => cases he
  | callReturns i w => cases he
  | callTimesOut i w => cases he
  | applierTakes i =>
    obtain ⟨n, hn, rfl⟩ := Option.map_eq_some_iff.mp h
    obtain ⟨-, -, rfl⟩ := applierTakes_eq hn
    exact .move rfl (List.append_nil _).symm le_rfl hnil
  | applierApplies i =>
    obtain ⟨⟨n, idx, entry, result⟩, hn, rfl⟩ := Option.map_eq_some_iff.mp h
    obtain ⟨rest, -, -, -, rfl⟩ := applierApplies_eq hn
    exact .move rfl rfl le_rfl fun o ho => by cases List.mem_singleton.mp ho; exact id
  | applierResolves i =>
    obtain ⟨n, hn, rfl⟩ := Option.map_eq_some_iff.mp h
    obtain ⟨idx, e, rest, result, calls, waiters, -, -, rfl⟩ := applierResolves_eq hn
    exact .move rfl (List.append_nil _).symm le_rfl hnil
  | setIsolated i isolated =>
    cases h
    exact .move rfl (List.append_nil _).symm le_rfl hnil
  | crash i =>
    cases h
    exact .crashes i _

/-- The frame of a call stays, with its entry, as long as its process runs and nobody ends the call. -/
lemma engine_frame {e : Event ι} (hs : Serving cfg s a) (he : engine e = true)
    (h : step cfg s e = some t) {i : ι} {w : ℕ} {c : Call ι ρ} (hc : (s.nodes i).calls w = some c)
    (hb : (t.nodes i).boot = (s.nodes i).boot) :
    ∃ d, (t.nodes i).calls w = some d ∧ d.entry = c.entry ∧ d.index = c.index := by
  obtain ⟨hle, obs, htrace, hsilent⟩ := engine_uncalled he h
  have hw := ((hs.waiters.waits i).call w c hc).1
  -- a step of another node
  have hother {j : ι} {n : Node ι σ ρ} (hn : t.nodes = Function.update s.nodes j n) (hij : i ≠ j) :
      ∃ d, (t.nodes i).calls w = some d ∧ d.entry = c.entry ∧ d.index = c.index := by
    rw [hn, Function.update_of_ne hij]
    exact ⟨c, hc, rfl, rfl⟩
  cases (step_change_free h).service with
  | serves j n obs' hn hsv ht hel =>
    by_cases hij : i = j
    · subst hij
      rw [hn, Function.update_self] at hb ⊢
      cases hsv with
      | keeps hsame => exact ⟨c, by rw [hsame.calls, hc], rfl, rfl⟩
      | fails hsame =>
        rw [hsame.calls]
        by_cases hp : (s.nodes i).Pending w c
        · refine ⟨{ c with
            result := c.result.or (some (.error (.notLeader none none)))
            event := true }, ?_, rfl, rfl⟩
          simp only [Node.failAllWaiters, hc, Option.map_some, if_pos hp]
        · exact ⟨c, by simp only [Node.failAllWaiters, hc, Option.map_some, if_neg hp], rfl, rfl⟩
      | restarts hsame hboot => omega
    · exact hother hn hij
  | appends j cmd n v hn ht =>
    subst ht
    have hj := hle j
    obtain ⟨-, -, -, -, -, hnc, -⟩ := appendEntry_frame hn
    rw [setNode_nodes, Function.update_self, hnc] at hj
    omega
  | quiet j n obs' hl ht =>
    subst ht
    by_cases hij : i = j
    · subst hij
      have hobs : obs' = obs := List.append_cancel_left htrace
      subst hobs
      change ∃ d, (Function.update s.nodes i n i).calls w = some d ∧ _
      rw [Function.update_self]
      cases hl with
      | timerFires _ hn =>
        simp only [Node.timerFires] at hn
        split_ifs at hn
        cases hn
        exact ⟨c, hc, rfl, rfl⟩
      | callReturns v _ d u hn => exact (hsilent _ (List.mem_singleton.mpr rfl) trivial).elim
      | callRaises v _ d exc hn => exact (hsilent _ (List.mem_singleton.mpr rfl) trivial).elim
      | callTimesOut v _ d hn => exact (hsilent _ (List.mem_singleton.mpr rfl) trivial).elim
      | applierTakes _ hn =>
        obtain ⟨-, -, rfl⟩ := applierTakes_eq hn
        exact ⟨c, hc, rfl, rfl⟩
      | applierApplies _ idx entry result hn =>
        obtain ⟨rest, -, -, -, rfl⟩ := applierApplies_eq hn
        exact ⟨c, hc, rfl, rfl⟩
      | applierResolves _ hn =>
        simp only [Node.applierResolves] at hn
        split at hn
        · rename_i idx entry rest result _ _
          split at hn
          · cases hn
            exact ⟨c, hc, rfl, rfl⟩
          · rename_i v _
            cases hn
            by_cases hvw : w = v
            · subst hvw
              refine ⟨{ c with
                result := if Node.Same c entry then result else some (.error (.notLeader
                  (s.nodes i).leaderId (cfg.peer (s.nodes i).nodeId (s.nodes i).leaderId)))
                event := true }, ?_, rfl, rfl⟩
              simp only [Function.update_self, hc, Option.map_some]
            · exact ⟨c, by simpa only [Function.update_of_ne hvw] using hc, rfl, rfl⟩
        · cases hn
      | setIsolated isolated => exact ⟨c, hc, rfl, rfl⟩
    · exact hother rfl hij

end Cluster

end DistributedStorage.Raft

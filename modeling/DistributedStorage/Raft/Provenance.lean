import DistributedStorage.Raft.Engine

/-! Where entries come from: nothing is stored, sent or applied but what leaders and callers appended. -/

set_option linter.unusedSectionVars false

namespace DistributedStorage.Raft

open Library.LeaderLogs Library.Runs

variable {ι σ ρ : Type} [DecidableEq ι]

lemma mem_insertEntries {log es : List Entry} {p : ℕ} {e : Entry}
    (h : e ∈ Node.insertEntries log p es) : e ∈ log ∨ e ∈ es := by
  induction es generalizing log p with
  | nil => exact .inl h
  | cons x es ih =>
    simp only [Node.insertEntries] at h
    split at h
    · split_ifs at h
      · rcases ih h with hm | hm
        · rcases List.mem_append.mp hm with hm | hm
          · exact .inl (List.mem_of_mem_take hm)
          · exact .inr (List.mem_singleton.mp hm ▸ List.mem_cons_self)
        · exact .inr (List.mem_cons_of_mem _ hm)
      · exact (ih h).imp_right (List.mem_cons_of_mem _)
    · rcases ih h with hm | hm
      · rcases List.mem_append.mp hm with hm | hm
        · exact .inl hm
        · exact .inr (List.mem_singleton.mp hm ▸ List.mem_cons_self)
      · exact .inr (List.mem_cons_of_mem _ hm)

variable [Fintype ι] {cfg : Config ι σ ρ} {K L : Entry → Prop}

namespace Cluster

/-- All entries in the cluster satisfy `K`. -/
structure Holding (K : Entry → Prop) (s : Cluster ι σ ρ) : Prop where
  log : ∀ i, ∀ e ∈ (s.nodes i).log, K e
  sent : ∀ dst boot args, .appendEntries dst boot args ∈ s.sent → ∀ e ∈ args.entries, K e
  taken : ∀ i, ∀ x ∈ (s.nodes i).toApply, K x.2 ∧ x.2.index = x.1
  applied : ∀ i boot, ∀ x ∈ records s.trace i boot, K x.2.1 ∧ x.2.1.index = x.1

variable {s t : Cluster ι σ ρ} {a : State ι Entry}

lemma Holding.mono (h : Holding K s) (hk : ∀ e, K e → L e) : Holding L s where
  log i e he := hk e (h.log i e he)
  sent dst boot args hm e he := hk e (h.sent dst boot args hm e he)
  taken i x hx := (h.taken i x hx).imp_left (hk _)
  applied i boot x hx := (h.applied i boot x hx).imp_left (hk _)

lemma init_holding (cfg : Config ι σ ρ) : Holding K (init cfg) where
  log _ _ he := (List.not_mem_nil he).elim
  sent _ _ _ h := (List.not_mem_nil h).elim
  taken _ _ hx := (List.not_mem_nil hx).elim
  applied _ _ _ hx := (List.not_mem_nil hx).elim

/-- The entries in logs and messages after a step. -/
structure Stored (K : Entry → Prop) (t : Cluster ι σ ρ) : Prop where
  log : ∀ i, ∀ e ∈ (t.nodes i).log, K e
  sent : ∀ dst boot args, .appendEntries dst boot args ∈ t.sent → ∀ e ∈ args.entries, K e

lemma Holding.stays (h : Holding K s) {i : ι} {n : Node ι σ ρ}
    (hn : t.nodes = Function.update s.nodes i n) (hlog : ∀ e ∈ n.log, K e)
    (hsent : ∀ dst boot args, .appendEntries dst boot args ∈ t.sent →
      .appendEntries dst boot args ∈ s.sent) : Stored K t where
  log j e he := by
    by_cases hj : j = i
    · subst hj
      rw [hn, Function.update_self] at he
      exact hlog e he
    · rw [hn, Function.update_of_ne hj] at he
      exact h.log j e he
  sent dst boot args hm := h.sent dst boot args (hsent dst boot args hm)

lemma Holding.settles (h : Holding K s) {i : ι} {n : Node ι σ ρ}
    (hn : t.nodes = Function.update s.nodes i n) (hlog : n.log = (s.nodes i).log)
    (hsent : ∀ dst boot args, .appendEntries dst boot args ∈ t.sent →
      .appendEntries dst boot args ∈ s.sent) : Stored K t :=
  h.stays hn (fun e he => h.log i e (hlog ▸ he)) hsent

lemma Holding.stored {P : Message ι → Prop} (h : Holding K s) (hs : ElectionInv s)
    (hc : Change cfg P s t) (hnoop : ∀ term idx, K (noopEntry term idx))
    (hnew : ∀ i e, (t.nodes i).log = (s.nodes i).log ++ [e] →
      (t.nodes i).nextCall = (s.nodes i).nextCall + 1 → K e) : Stored K t := by
  cases hc with
  | quiet i n obs hl => exact h.settles rfl hl.core.log fun _ _ _ hh => hh
  | startElection i n hn =>
    refine h.settles rfl ?_ fun _ _ _ hh => hh
    rcases startElection_cases hn with ⟨-, hset⟩ | ⟨-, -, hlog, -⟩
    · exact hset.log
    · exact hlog
  | sendRequestVote i term peer args ha =>
    refine h.settles (i := i) (Function.update_eq_self ..).symm rfl fun d b as hh => ?_
    rcases List.mem_append.mp hh with hh | hh
    · exact hh
    · cases List.mem_singleton.mp hh
  | loses i term n hn => exact h.settles rfl (electionEnds_lost_settles hn).log fun _ _ _ hh => hh
  | wins i term n hn =>
    obtain ⟨el, -, -, -, -, rfl⟩ := electionEnds_won hn
    refine h.stays rfl (fun e he => ?_) fun _ _ _ hh => hh
    rcases List.mem_append.mp he with he | he
    · exact h.log i e he
    · rw [List.mem_singleton.mp he]
      exact hnoop _ _
  | sendAppendEntries i peer args ha =>
    refine ⟨h.log, fun d b as hh => ?_⟩
    rcases List.mem_append.mp hh with hh | hh
    · exact h.sent d b as hh
    · cases List.mem_singleton.mp hh
      obtain ⟨-, -, -, -, hes, -⟩ := appendEntriesArgs_eq ha
      intro e he
      rw [hes] at he
      exact h.log i e (List.mem_of_mem_drop he)
  | requestVote dst boot args hm =>
    refine h.settles rfl (handleRequestVote_settles args).log fun d b as hh => ?_
    rcases List.mem_append.mp hh with hh | hh
    · exact hh
    · cases List.mem_singleton.mp hh
  | requestVoteReply src boot args reply n hm hn =>
    exact h.settles rfl (handleRequestVoteReply_settles hn).log fun _ _ _ hh => hh
  | appendEntries dst boot args hm =>
    have happ := handleAppendEntries_appended (s.nodes dst) args
    generalize (s.nodes dst).handleAppendEntries args = out at happ hnew ⊢
    obtain ⟨n, reply⟩ := out
    dsimp only at happ hnew ⊢
    have hnodes : ((s.setNode dst n).sendReply dst boot args reply).nodes =
        Function.update s.nodes dst n := by
      cases reply <;> rfl
    have hsent : ∀ d bt as, .appendEntries d bt as ∈
        ((s.setNode dst n).sendReply dst boot args reply).sent →
          .appendEntries d bt as ∈ s.sent := by
      intro d bt as hh
      cases reply with
      | none => exact hh
      | some r =>
        rcases List.mem_append.mp hh with hh | hh
        · exact hh
        · cases List.mem_singleton.mp hh
    cases happ with
    | stale r _ _ => exact h.settles hnodes rfl hsent
    | rejected n r _ _ hlog _ _ => exact h.settles hnodes hlog hsent
    | stored n r _ _ _ hlog _ _ =>
      refine h.stays hnodes (fun e he => ?_) hsent
      rw [hlog] at he
      rcases mem_insertEntries he with he | he
      · exact h.log dst e he
      · exact h.sent dst boot args hm e he
  | appendEntriesReply src boot args reply hm _ hb =>
    exact h.settles rfl (handleAppendEntriesReply_settles src args reply).log fun _ _ _ hh => hh
  | voteCrash dst boot args hm =>
    exact h.settles rfl ((stepDownForVote_settles _).restart cfg
      (Node.stepDownForVote_durable (hs.durable dst) args.term)).log fun _ _ _ hh => hh
  | appendCrash dst boot args hm hle =>
    exact h.settles rfl ((stepDownForAppend_settles hle).restart cfg
      (Node.stepDownForAppend_durable (hs.durable dst) args.term)).log fun _ _ _ hh => hh
  | appendEntry i cmd n w hn =>
    refine h.stays rfl (fun e he => ?_) fun _ _ _ hh => hh
    obtain ⟨-, -, hlog, -, -, hnc, -⟩ := appendEntry_frame hn
    have hself : (s.setNode i n).nodes i = n := by rw [setNode_nodes, Function.update_self]
    rw [hlog] at he
    rcases List.mem_append.mp he with he | he
    · exact h.log i e he
    · rw [List.mem_singleton.mp he]
      exact hnew i _ (by rw [hself, hlog]) (by rw [hself, hnc])
  | crash i =>
    exact h.settles rfl ((Settles.refl _).restart cfg (hs.durable i)).log fun _ _ _ hh => hh

/-- Nothing enters the applier but entries of the log. -/
lemma Holding.applies (h : Holding K s) (hal : ∀ i, Aligned (s.nodes i).log) {i : ι}
    {m : Node ι σ ρ} {recs' : List (Applied ι ρ)} {boot : ℕ}
    (hm : ApplierMoves cfg (s.nodes i) m (records s.trace i boot) recs') :
    (∀ x ∈ m.toApply, K x.2 ∧ x.2.index = x.1) ∧ ∀ x ∈ recs', K x.2.1 ∧ x.2.1.index = x.1 := by
  cases hm with
  | same hs =>
    rw [hs.toApply]
    exact ⟨h.taken i, h.applied i boot⟩
  | restarts hs =>
    rw [hs.toApply]
    exact ⟨fun x hx => (List.not_mem_nil hx).elim, fun x hx => (List.not_mem_nil hx).elim⟩
  | takes hn =>
    obtain ⟨-, -, rfl⟩ := applierTakes_eq hn
    refine ⟨fun x hx => ?_, h.applied i boot⟩
    obtain ⟨hlt, -, he⟩ := mem_taken hx
    have hidx := hal i _ _ he
    exact ⟨h.log i _ (List.mem_of_getElem? he), by omega⟩
  | applies idx e r hn =>
    obtain ⟨rest, hta, -, -, rfl⟩ := applierApplies_eq hn
    refine ⟨h.taken i, fun x hx => ?_⟩
    rcases List.mem_append.mp hx with hx | hx
    · exact h.applied i boot x hx
    · rw [List.mem_singleton.mp hx]
      exact h.taken i (idx, e) (hta ▸ List.mem_cons_self)
  | resolves hn =>
    obtain ⟨idx, e, rest, r, calls, waiters, hta, -, rfl⟩ := applierResolves_eq hn
    exact ⟨fun x hx => h.taken i x (hta ▸ List.mem_cons_of_mem _ hx), h.applied i boot⟩

lemma Holding.change {P : Message ι → Prop} (h : Holding K s) (hs : Serving cfg s a)
    (hc : Change cfg P s t) (hnoop : ∀ term idx, K (noopEntry term idx))
    (hnew : ∀ i e, (t.nodes i).log = (s.nodes i).log ++ [e] →
      (t.nodes i).nextCall = (s.nodes i).nextCall + 1 → K e) : Holding K t := by
  obtain ⟨hlog, hsent⟩ := h.stored hs.tracks.election hc hnoop hnew
  obtain ⟨i, hi⟩ := hc.service.applier hs.applier.boots
  obtain ⟨htaken, happlied⟩ := h.applies hs.tracks.aligned hi.moves
  refine ⟨hlog, hsent, fun j => ?_, fun j boot => ?_⟩
  · by_cases hj : j = i
    · exact hj ▸ htaken
    · rw [hi.others j hj]
      exact h.taken j
  · by_cases hj : j ≠ i ∨ boot ≠ (t.nodes i).boot
    · rw [hi.records j boot hj]
      exact h.applied j boot
    · simp only [not_or, not_not] at hj
      obtain ⟨rfl, rfl⟩ := hj
      exact happlied

/-- Without callers only leaders' noops are new. -/
lemma Holding.engine {e : Event ι} (h : Holding K s) (hs : Serving cfg s a)
    (he : Raft.engine e = true) (hstep : step cfg s e = some t)
    (hnoop : ∀ term idx, K (noopEntry term idx)) : Holding K t := by
  refine h.change hs (step_change_free hstep) hnoop fun i e _ hnc => ?_
  have hle := (engine_uncalled he hstep).nextCall_le i
  omega

section

variable {i : ι} {w : ℕ} {m : Node ι σ ρ} {c : Call ι ρ}

lemma ended_nodes {value : Except (Error ι) (Option ρ)} (hr : step cfg s (.callReturns i w) = some t)
    (hm : (s.nodes i).callReturns w = some (m, c, value)) : t.nodes = Function.update s.nodes i m := by
  obtain ⟨out, hout, rfl⟩ := Option.map_eq_some_iff.mp hr
  rw [hm] at hout
  cases hout
  rfl

lemma expired_nodes (hr : step cfg s (.callTimesOut i w) = some t)
    (hm : (s.nodes i).callTimesOut w = some (m, c)) : t.nodes = Function.update s.nodes i m := by
  obtain ⟨out, hout, rfl⟩ := Option.map_eq_some_iff.mp hr
  rw [hm] at hout
  cases hout
  rfl

/-- A call that ends appends nothing. -/
lemma Holding.ended {e : Event ι} (h : Holding K s) (hs : Serving cfg s a) (hr : step cfg s e = some t)
    (hnodes : t.nodes = Function.update s.nodes i m) (hm : m.nextCall = (s.nodes i).nextCall)
    (hnoop : ∀ term idx, K (noopEntry term idx)) : Holding K t := by
  refine h.change hs (step_change_free hr) hnoop fun j x _ hnc => ?_
  have hsame : (t.nodes j).nextCall = (s.nodes j).nextCall := by
    rw [hnodes, Function.update_apply]
    split_ifs with hj
    · rw [hj, hm]
    · rfl
  omega

end

end Cluster

end DistributedStorage.Raft

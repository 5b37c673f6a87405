import DistributedStorage.Raft.Waiters

/-! What `appendEntry` promises its caller: a value only for the entry it appended, and an exception
once the node has left the leader's role. -/

set_option linter.unusedSectionVars false

namespace DistributedStorage.Raft

open Library.LeaderLogs Library.Runs

variable {ι σ ρ : Type} [DecidableEq ι] [Fintype ι]

namespace Cluster

variable {cfg : Config ι σ ρ} {s t : Cluster ι σ ρ} {a : State ι Entry}

structure Serving (cfg : Config ι σ ρ) (s : Cluster ι σ ρ) (a : State ι Entry) : Prop where
  tracks : Tracks s a
  waiters : WaiterInv s a
  applier : ApplierInv cfg s

lemma Serving.step {e : Event ι} (h : Serving cfg s a) (he : Cluster.step cfg s e = some t) :
    ∃ b, Relation.ReflTransGen (Step Entry.term) a b ∧ Serving cfg t b := by
  obtain ⟨b, hab, hb⟩ := h.tracks.step he
  have hc := (step_change_free he).service
  exact ⟨b, hab, hb, h.waiters.service h.tracks h.applier (run_grows hab) hb.refines hc,
    h.applier.service hc⟩

lemma serving {C : Cluster ι σ ρ → Event ι → Prop} (h : Reachable cfg C s) :
    ∃ a, Serving cfg s a := by
  have hinit : Serving cfg (init cfg) (State.init ι Entry) :=
    ⟨init_tracks cfg, init_waiterInv cfg, init_applierInv cfg⟩
  obtain ⟨a, -, ha⟩ := Run.simulates (fun _ _ _ _ hsa _ he => hsa.step he) h hinit
  exact ⟨a, ha⟩

/-- An index is applied once in a process. -/
lemma ApplierInv.unique (h : ApplierInv cfg s) {i : ι} {boot : ℕ} {x y : Applied ι ρ}
    (hx : x ∈ records s.trace i boot) (hy : y ∈ records s.trace i boot) (hxy : x.1 = y.1) :
    x = y := by
  have hnd : ((records s.trace i boot).map Prod.fst).Nodup :=
    (h.sorted i boot).imp fun hlt => Nat.ne_of_lt hlt
  exact List.inj_on_of_nodup_map hnd hx hy hxy

lemma Serving.returned (h : Serving cfg s a) {i : ι} {boot w : ℕ} {c : Call ι ρ}
    {value : Option ρ} (hm : .returned i boot w c value ∈ s.trace) :
    ∃ pre post, records s.trace i boot = pre ++ (c.index, c.entry, value.map .ok) :: post ∧
      value.map .ok = (cfg.applyEntry (cfg.replay (entries pre)) c.entry).2 ∧
      ∀ x ∈ records s.trace i boot, x.1 = c.index → x = (c.index, c.entry, value.map .ok) := by
  have hrec := h.waiters.returned i boot w c value hm
  obtain ⟨pre, post, hsplit⟩ := List.append_of_mem hrec
  exact ⟨pre, post, hsplit, h.applier.replayed i boot pre _ post hsplit,
    fun x hx hidx => h.applier.unique hx hrec hidx⟩

/-- The call `w` of process `boot` of node `i` can only raise. -/
structure Doomed (i : ι) (boot w : ℕ) (s : Cluster ι σ ρ) : Prop where
  silent : ∀ c value, .returned i boot w c value ∉ s.trace
  boot_le : boot ≤ (s.nodes i).boot
  raises : (s.nodes i).boot = boot →
    (∃ c exc, (s.nodes i).calls w = some c ∧ c.event = true ∧ c.result = some (.error exc)) ∨
    ((s.nodes i).calls w = none ∧ w < (s.nodes i).nextCall ∧ ∃ c exc, .raised i boot w c exc ∈ s.trace)

lemma local_returned {i j : ι} {n m : Node ι σ ρ} {obs : List (Observation ι ρ)} {boot w : ℕ}
    {c : Call ι ρ} {value : Option ρ} (hl : Local cfg i n m obs)
    (hm : .returned j boot w c value ∈ obs) :
    j = i ∧ boot = n.boot ∧ n.callReturns w = some (m, c, .ok value) := by
  cases hl with
  | callReturns v m d u hn =>
    cases List.mem_singleton.mp hm
    exact ⟨rfl, rfl, hn⟩
  | _ => simp at hm

lemma Doomed.move {i : ι} {boot w : ℕ} (h : Doomed i boot w s) {j : ι} {n : Node ι σ ρ}
    {obs : List (Observation ι ρ)} (hn : t.nodes = Function.update s.nodes j n)
    (ht : t.trace = s.trace ++ obs) (hb : (s.nodes j).boot ≤ n.boot)
    (hret : ∀ c value, .returned i boot w c value ∉ obs)
    (hcalls : j = i → n.boot = (s.nodes i).boot → (s.nodes i).nextCall ≤ n.nextCall ∧
      ((s.nodes i).calls w = none → w < (s.nodes i).nextCall → n.calls w = none) ∧
      ∀ c exc, boot = (s.nodes i).boot → (s.nodes i).calls w = some c → c.event = true →
        c.result = some (.error exc) → n.calls w = some c ∨
        (n.calls w = none ∧ w < n.nextCall ∧ ∃ d exc', .raised i boot w d exc' ∈ obs)) :
    Doomed i boot w t := by
  refine ⟨fun c value hm => ?_, ?_, fun heq => ?_⟩
  · rw [ht] at hm
    rcases List.mem_append.mp hm with hm | hm
    · exact h.silent c value hm
    · exact hret c value hm
  · by_cases hj : i = j
    · subst hj
      rw [hn, Function.update_self]
      exact h.boot_le.trans hb
    · rw [hn, Function.update_of_ne hj]
      exact h.boot_le
  · by_cases hj : i = j
    · subst hj
      rw [hn, Function.update_self] at heq ⊢
      have hle := h.boot_le
      have hboot : (s.nodes i).boot = boot := by omega
      obtain ⟨hnc, hnone, hsome⟩ := hcalls rfl (heq.trans hboot.symm)
      rcases h.raises hboot with ⟨c, exc, hc, he, hr⟩ | ⟨hc, hlt, d, exc, hm⟩
      · rcases hsome c exc hboot.symm hc he hr with hc' | ⟨hc', hlt, d, exc', hm⟩
        · exact Or.inl ⟨c, exc, hc', he, hr⟩
        · exact Or.inr ⟨hc', hlt, d, exc', ht ▸ List.mem_append_right _ hm⟩
      · exact Or.inr ⟨hnone hc hlt, hlt.trans_le hnc, d, exc, ht ▸ List.mem_append_left _ hm⟩
    · rw [hn, Function.update_of_ne hj] at heq ⊢
      rcases h.raises heq with hc | ⟨hc, hlt, d, exc, hm⟩
      · exact Or.inl hc
      · exact Or.inr ⟨hc, hlt, d, exc, ht ▸ List.mem_append_left _ hm⟩

lemma Doomed.no_return {i j : ι} {boot w : ℕ} (h : Doomed i boot w s) {n : Node ι σ ρ}
    {obs : List (Observation ι ρ)} (hl : Local cfg j (s.nodes j) n obs) (c : Call ι ρ)
    (value : Option ρ) : .returned i boot w c value ∉ obs := by
  intro hm
  obtain ⟨rfl, hboot, hn⟩ := local_returned hl hm
  simp only [Node.callReturns] at hn
  rcases h.raises hboot.symm with ⟨d, exc, hd, he, hr⟩ | ⟨hd, -⟩
  · simp [hd, he, hr] at hn
  · simp [hd] at hn

lemma Doomed.service {i : ι} {boot w : ℕ} (h : Doomed i boot w s) (hs : Serving cfg s a)
    (hc : ServiceChange cfg s t) : Doomed i boot w t := by
  cases hc with
  | serves j n obs hn hsv ht hel =>
    have hret : ∀ c value, .returned i boot w c value ∉ obs := by
      intro c value hm
      obtain ⟨_, _, hx⟩ := hel _ hm
      cases hx
    cases hsv with
    | keeps hsame hb _ =>
      refine h.move hn ht hb.ge hret ?_
      rintro rfl -
      rw [hsame.nextCall, hsame.calls]
      exact ⟨le_rfl, fun hc _ => hc, fun c exc _ hc _ _ => Or.inl hc⟩
    | fails hsame hb _ =>
      refine h.move hn ht hb.ge hret ?_
      rintro rfl -
      rw [hsame.nextCall, hsame.calls]
      refine ⟨le_rfl, fun hc _ => by simp [Node.failAllWaiters, hc], fun c exc _ hc he _ => ?_⟩
      have hp : ¬ (s.nodes j).Pending w c := by
        intro hp
        obtain ⟨-, d, hd, -, hde, -⟩ := (hs.waiters.waits j).waiting _ _ hp
        rw [hc] at hd
        cases hd
        rw [he] at hde
        cases hde
      exact Or.inl (by simp [Node.failAllWaiters, hc, hp])
    | restarts hsame hb _ =>
      refine h.move hn ht (by omega) hret ?_
      rintro rfl heq
      omega
  | appends j cmd n v hn ht =>
    subst ht
    have hb := (appendEntry_applier hn).2
    obtain ⟨-, -, -, hcalls, -, hnc, -⟩ := appendEntry_frame hn
    refine h.move rfl (List.append_nil _).symm hb.ge (fun _ _ => List.not_mem_nil) ?_
    rintro rfl -
    rw [hcalls, hnc]
    refine ⟨Nat.le_succ _, fun hc hlt => ?_, fun c exc _ hc _ _ => Or.inl ?_⟩
    · rwa [Function.update_of_ne hlt.ne]
    · have hlt := ((hs.waiters.waits j).call w c hc).1
      rwa [Function.update_of_ne hlt.ne]
  | quiet j n obs hl ht =>
    subst ht
    have hret := h.no_return hl
    have hb := hl.core.boot
    refine h.move rfl rfl hb.ge hret ?_
    rintro rfl -
    have hw := hs.waiters.waits j
    have gone {v : ℕ} (hc : (s.nodes j).calls w = none) (_ : w < (s.nodes j).nextCall) :
        Function.update (s.nodes j).calls v none w = none := by
      by_cases hwv : w = v
      · rw [hwv, Function.update_self]
      · rwa [Function.update_of_ne hwv]
    cases hl with
    | timerFires _ hn =>
      simp only [Node.timerFires] at hn
      split_ifs at hn
      cases hn
      exact ⟨le_rfl, fun hc _ => hc, fun c exc _ hc _ _ => Or.inl hc⟩
    | callReturns v _ d u hn =>
      obtain ⟨-, hdv, hcalls, hnc, -⟩ := hw.callReturns hn
      rw [hcalls, hnc]
      refine ⟨le_rfl, gone, fun c exc hboot hc he hr => Or.inl ?_⟩
      have hwv : w ≠ v := by
        rintro rfl
        exact hret d u (hboot ▸ List.mem_singleton.mpr rfl)
      rwa [Function.update_of_ne hwv]
    | callRaises v _ d exc hn =>
      obtain ⟨-, hdv, hcalls, hnc, -⟩ := hw.callReturns hn
      rw [hcalls, hnc]
      refine ⟨le_rfl, gone, fun c _ hboot hc _ _ => ?_⟩
      by_cases hwv : w = v
      · subst hwv
        exact Or.inr ⟨Function.update_self .., (hw.call w c hc).1, d, exc,
          hboot ▸ List.mem_singleton.mpr rfl⟩
      · rw [Function.update_of_ne hwv]
        exact Or.inl hc
    | callTimesOut v _ d hn =>
      obtain ⟨-, hdv, hcalls, hnc⟩ := hw.callTimesOut hn
      rw [hcalls, hnc]
      refine ⟨le_rfl, gone, fun c _ hboot hc _ _ => ?_⟩
      by_cases hwv : w = v
      · subst hwv
        refine Or.inr ⟨Function.update_self .., (hw.call w c hc).1, d, .timeout d.index, ?_⟩
        rw [hboot]
        exact List.mem_singleton.mpr rfl
      · rw [Function.update_of_ne hwv]
        exact Or.inl hc
    | applierTakes _ hn =>
      obtain ⟨-, -, rfl⟩ := applierTakes_eq hn
      exact ⟨le_rfl, fun hc _ => hc, fun c exc _ hc _ _ => Or.inl hc⟩
    | applierApplies _ idx entry result hn =>
      obtain ⟨rest, -, -, -, rfl⟩ := applierApplies_eq hn
      exact ⟨le_rfl, fun hc _ => hc, fun c exc _ hc _ _ => Or.inl hc⟩
    | applierResolves _ hn =>
      obtain ⟨hnc, hnone⟩ := applierResolves_calls hn
      exact ⟨hnc, fun hc hlt => hnone w hlt hc,
        fun c exc _ hc he _ => Or.inl (hw.resolves_calls hn hc he)⟩
    | setIsolated isolated => exact ⟨le_rfl, fun hc _ => hc, fun c exc _ hc _ _ => Or.inl hc⟩

/-- A node that stops leading fails the callers it has not resolved. -/
lemma Serving.leaves (h : Serving cfg s a) (hc : ServiceChange cfg s t) {i : ι} {w : ℕ}
    {c : Call ι ρ} (hl : (s.nodes i).state = .leader) (hnl : (t.nodes i).state ≠ .leader)
    (hw : (s.nodes i).calls w = some c) (he : c.event = false) :
    Doomed i (s.nodes i).boot w t := by
  have hold : ∀ d value, .returned i (s.nodes i).boot w d value ∉ s.trace := by
    intro d value hm
    have hnone := (h.waiters.finished i _ w d value hm).2 rfl
    rw [hw] at hnone
    cases hnone.2
  cases hc with
  | serves j n obs hn hsv ht hel =>
    have hij : i = j := by
      by_contra hij
      rw [hn, Function.update_of_ne hij] at hnl
      exact hnl hl
    subst hij
    have hself : t.nodes i = n := by rw [hn, Function.update_self]
    have hsilent : ∀ d value, .returned i (s.nodes i).boot w d value ∉ t.trace := by
      intro d value hm
      rw [ht] at hm
      rcases List.mem_append.mp hm with hm | hm
      · exact hold d value hm
      · obtain ⟨_, _, hx⟩ := hel _ hm
        cases hx
    cases hsv with
    | keeps hsame hb hrole => exact (hnl (hself ▸ (hrole hl).1)).elim
    | fails hsame hb _ =>
      refine ⟨hsilent, by rw [hself, hb], fun _ => Or.inl ?_⟩
      have hp := (h.waiters.waits i).pending w c hw he
      obtain ⟨-, d, hd, -, -, hres, -⟩ := (h.waiters.waits i).waiting _ _ hp
      rw [hw] at hd
      cases hd
      rw [hself, hsame.calls]
      refine ⟨{ c with result := some (.error (.notLeader none none)), event := true },
        .notLeader none none, ?_, rfl, rfl⟩
      simp [Node.failAllWaiters, hw, Node.Pending, hp, hres]
    | restarts hsame hb _ =>
      exact ⟨hsilent, by rw [hself, hb]; omega, fun heq => by rw [hself] at heq; omega⟩
  | appends j cmd n v hn ht =>
    subst ht
    obtain ⟨hlead, -, -, hst, -⟩ := appendEntry_eq hn
    by_cases hij : i = j
    · subst hij
      rw [setNode_nodes, Function.update_self, hst] at hnl
      exact (hnl hl).elim
    · rw [setNode_nodes, Function.update_of_ne hij] at hnl
      exact (hnl hl).elim
  | quiet j n obs hloc ht =>
    subst ht
    by_cases hij : i = j
    · subst hij
      rw [setNode_nodes, Function.update_self, hloc.core.state] at hnl
      exact (hnl hl).elim
    · rw [setNode_nodes, Function.update_of_ne hij] at hnl
      exact (hnl hl).elim

/-- A call returns only what applying its own entry gave. A call that is not resolved when its node
stops leading never returns; its frame holds an exception, or has raised it. -/
theorem append_entry_acknowledges {cfg : Config ι σ ρ} {s : Cluster ι σ ρ}
    (h : Reachable cfg Free s) :
    (∀ i boot w c value, .returned i boot w c value ∈ s.trace → ∃ pre post,
      records s.trace i boot = pre ++ (c.index, c.entry, value.map .ok) :: post ∧
      value.map .ok = (cfg.applyEntry (cfg.replay (entries pre)) c.entry).2 ∧
      ∀ x ∈ records s.trace i boot, x.1 = c.index → x = (c.index, c.entry, value.map .ok)) ∧
    ∀ e t i w c, step cfg s e = some t → (s.nodes i).state = .leader →
      (t.nodes i).state ≠ .leader → (s.nodes i).calls w = some c → c.event = false →
      ∀ u, Run (step cfg) Free t u →
        (∀ d value, .returned i (s.nodes i).boot w d value ∉ u.trace) ∧
        ((u.nodes i).boot = (s.nodes i).boot →
          (∃ d exc, (u.nodes i).calls w = some d ∧ d.event = true ∧
            d.result = some (.error exc)) ∨
          ∃ d exc, .raised i (s.nodes i).boot w d exc ∈ u.trace) := by
  obtain ⟨a, ha⟩ := serving h
  refine ⟨fun i boot w c value hm => ha.returned hm, fun e t i w c he hl hnl hw hev u hr => ?_⟩
  obtain ⟨b, -, hb⟩ := ha.step he
  have hd := ha.leaves (step_change_free he).service hl hnl hw hev
  have hinv : (∃ b, Serving cfg u b) ∧ Doomed i (s.nodes i).boot w u := by
    refine Run.invariant (I := fun v => (∃ b, Serving cfg v b) ∧ Doomed i (s.nodes i).boot w v)
      (fun v e v' hv _ he => ?_) hr ⟨⟨b, hb⟩, hd⟩
    obtain ⟨⟨b, hb⟩, hd⟩ := hv
    obtain ⟨b', -, hb'⟩ := hb.step he
    exact ⟨⟨b', hb'⟩, hd.service hb (step_change_free he).service⟩
  refine ⟨hinv.2.silent, fun hboot => ?_⟩
  rcases hinv.2.raises hboot with hc | ⟨-, -, hm⟩
  · exact Or.inl hc
  · exact Or.inr hm

/-- Node 0 answers its first call; its second call is open when a request of term 2 is about to
arrive. -/
def answered : List (Event (Fin 3)) :=
  campaign 0 1 0 [1] ++ [.appendEntry 0 someCommand] ++ replicate 0 1 2 ++
    [.applierTakes 0, .applierApplies 0, .applierResolves 0, .applierApplies 0,
      .applierResolves 0, .callReturns 0 0, .appendEntry 0 someCommand, .timerFires 1,
      .startElection 1, .sendRequestVote 1 2 0]

def firstCall : Call (Fin 3) Unit :=
  ⟨2, someCommand.entry 1 2, 1, "c", 1, true, some (.ok ())⟩

def secondCall : Call (Fin 3) Unit :=
  ⟨3, someCommand.entry 1 3, 1, "c", 1, false, none⟩

theorem append_entry_acknowledges_answered : ∃ s t, Reachable (stateless 3) Free s ∧
    step (stateless 3) s (.deliver 4) = some t ∧
    (∃ pre post, records s.trace 0 0 = pre ++ (2, firstCall.entry, some (.ok ())) :: post) ∧
    ∀ u, Run (step (stateless 3)) Free t u → ∀ d value, .returned 0 0 1 d value ∉ u.trace := by
  obtain ⟨s, hs, hret, hl, hb, hc, ht⟩ := Run.exists_of_execute (step (stateless 3))
    (init (stateless 3)) answered (fun s => .returned 0 0 0 firstCall (some ()) ∈ s.trace ∧
      (s.nodes 0).state = .leader ∧ (s.nodes 0).boot = 0 ∧
      (s.nodes 0).calls 1 = some secondCall ∧
      (step (stateless 3) s (.deliver 4)).any (fun t => (t.nodes 0).state ≠ .leader) = true)
    (by decide +kernel)
  rw [Option.any_eq_true] at ht
  obtain ⟨t, ht, hnl⟩ := ht
  obtain ⟨hreturned, hleaves⟩ := append_entry_acknowledges hs
  refine ⟨s, t, hs, ht, ?_, fun u hu => ?_⟩
  · obtain ⟨pre, post, hsplit, -⟩ := hreturned 0 0 0 firstCall (some ()) hret
    exact ⟨pre, post, hsplit⟩
  · have hd := (hleaves _ t 0 1 secondCall ht hl (by simpa using hnl) hc rfl u hu).1
    rwa [hb] at hd

end Cluster

end DistributedStorage.Raft

import DistributedStorage.Raft.Applier
import DistributedStorage.Raft.LogMatching

/-! Callers of `appendEntry` and their waiters. A waiter stays in the map only while its node leads the
term of its entry, and an entry is known by its term and index. -/

set_option linter.unusedSectionVars false

namespace DistributedStorage.Raft

open Library.LeaderLogs Library.Runs

variable {ι σ ρ : Type} [DecidableEq ι]

/-- The callers of a node that has applied `recs`; `logs` are the leader logs by term. -/
structure Waits (logs : ℕ → List Entry) (n : Node ι σ ρ) (recs : List (Applied ι ρ)) : Prop where
  call : ∀ w c, n.calls w = some c → w < n.nextCall ∧ Node.Same c c.entry ∧ 0 < c.index ∧
    (logs c.term)[c.index - 1]? = some c.entry
  waiting : ∀ idx w, n.commitWaiters idx = some w → n.state = .leader ∧ ∃ c, n.calls w = some c ∧
    c.index = idx ∧ c.event = false ∧ c.result = none ∧ c.term = n.currentTerm
  pending : ∀ w c, n.calls w = some c → c.event = false → n.commitWaiters c.index = some w
  resolved : ∀ w c, n.calls w = some c → c.event = true → (∃ e, c.result = some (.error e)) ∨
    ∃ value : Option ρ, c.result = value.map .ok ∧ (c.index, c.entry, c.result) ∈ recs
  taken : ∀ x ∈ n.toApply, 0 < x.1 ∧ (logs x.2.term)[x.1 - 1]? = some x.2

variable {cfg : Config ι σ ρ} {n m : Node ι σ ρ} {recs more : List (Applied ι ρ)}
  {logs : ℕ → List Entry}

lemma Waits.mono {logs' : ℕ → List Entry} (h : Waits logs n recs)
    (hl : ∀ u, logs u <+: logs' u) (hr : ∀ x ∈ recs, x ∈ more) : Waits logs' n more where
  call w c hc := by
    obtain ⟨hw, hs, hpos, he⟩ := h.call w c hc
    exact ⟨hw, hs, hpos, getElem?_of_isPrefix (hl _) he⟩
  waiting := h.waiting
  pending := h.pending
  resolved w c hc he := (h.resolved w c hc he).imp_right fun ⟨v, hv, hm⟩ => ⟨v, hv, hr _ hm⟩
  taken x hx := ⟨(h.taken x hx).1, getElem?_of_isPrefix (hl _) (h.taken x hx).2⟩

lemma Waits.keeps (h : Waits logs n recs) (hs : SameService n m)
    (hr : n.state = .leader → m.state = .leader ∧ m.currentTerm = n.currentTerm) :
    Waits logs m recs where
  call w c hc := by
    rw [hs.calls] at hc
    rw [hs.nextCall]
    exact h.call w c hc
  waiting idx w hw := by
    rw [hs.commitWaiters] at hw
    obtain ⟨hl, c, hc, hi, he, hres, ht⟩ := h.waiting idx w hw
    obtain ⟨hml, hmt⟩ := hr hl
    rw [hs.calls, hmt]
    exact ⟨hml, c, hc, hi, he, hres, ht⟩
  pending w c hc he := by
    rw [hs.calls] at hc
    rw [hs.commitWaiters]
    exact h.pending w c hc he
  resolved w c hc := h.resolved w c (hs.calls ▸ hc)
  taken x hx := h.taken x (hs.toApply ▸ hx)

/-- A caller that was waiting is handed the exception, any other keeps what it has. -/
lemma failAllWaiters_calls {exc : Error ι} {w : ℕ} {c : Call ι ρ} (h : Waits logs n recs)
    (hc : (n.failAllWaiters exc).calls w = some c) : c.event = true ∧ ∃ old, n.calls w = some old ∧
      ((old.event = true ∧ c = old) ∨ (old.event = false ∧
        c = { old with result := some (.error exc), event := true })) := by
  simp only [Node.failAllWaiters] at hc
  obtain ⟨old, hold, rfl⟩ := Option.map_eq_some_iff.mp hc
  by_cases hp : n.Pending w old
  · obtain ⟨-, c, hcw, -, he, hr, -⟩ := h.waiting _ _ hp
    rw [hold] at hcw
    cases hcw
    rw [if_pos hp]
    exact ⟨rfl, old, hold, Or.inr ⟨he, by rw [hr]; rfl⟩⟩
  · rw [if_neg hp]
    have he : old.event = true := by
      by_contra he
      exact hp (h.pending w old hold (by simpa using he))
    exact ⟨he, old, hold, Or.inl ⟨he, rfl⟩⟩

lemma Waits.fails {exc : Error ι} (h : Waits logs n recs)
    (hs : SameService (n.failAllWaiters exc) m) : Waits logs m recs where
  call w c hc := by
    rw [hs.calls] at hc
    rw [hs.nextCall]
    obtain ⟨-, old, hold, ⟨-, rfl⟩ | ⟨-, rfl⟩⟩ := failAllWaiters_calls h hc
    · exact h.call w c hold
    · exact h.call w old hold
  waiting idx w hw := by
    rw [hs.commitWaiters] at hw
    cases hw
  pending w c hc he := by
    rw [hs.calls] at hc
    rw [(failAllWaiters_calls h hc).1] at he
    cases he
  resolved w c hc _ := by
    rw [hs.calls] at hc
    obtain ⟨-, old, hold, ⟨he, rfl⟩ | ⟨-, rfl⟩⟩ := failAllWaiters_calls h hc
    · exact h.resolved w c hold he
    · exact Or.inl ⟨exc, rfl⟩
  taken x hx := h.taken x (hs.toApply ▸ hx)

lemma Waits.restart (hs : SameService (n.restart cfg) m) : Waits logs m [] where
  call w c hc := by
    rw [hs.calls] at hc
    cases hc
  waiting idx w hw := by
    rw [hs.commitWaiters] at hw
    cases hw
  pending w c hc := by
    rw [hs.calls] at hc
    cases hc
  resolved w c hc := by
    rw [hs.calls] at hc
    cases hc
  taken x hx := by
    rw [hs.toApply] at hx
    cases hx

/-- A frame disappears, and its waiter unless its event was set. -/
lemma Waits.forget (h : Waits logs n recs) {w : ℕ} {c : Call ι ρ} (hc : n.calls w = some c)
    {waiters : ℕ → Option ℕ}
    (hw : ∀ idx, waiters idx = if n.commitWaiters idx = some w then none else n.commitWaiters idx) :
    Waits logs { n with
      calls := Function.update n.calls w none
      commitWaiters := waiters } recs := by
  have hother : ∀ v d, Function.update n.calls w none v = some d → v ≠ w ∧ n.calls v = some d := by
    intro v d hd
    by_cases hv : v = w
    · subst hv
      rw [Function.update_self] at hd
      cases hd
    · rw [Function.update_of_ne hv] at hd
      exact ⟨hv, hd⟩
  refine ⟨fun v d hd => h.call v d (hother v d hd).2, fun idx v hv => ?_, fun v d hd he => ?_,
    fun v d hd => h.resolved v d (hother v d hd).2, h.taken⟩
  · dsimp only at hv ⊢
    rw [hw] at hv
    split_ifs at hv with hne
    have hvw : v ≠ w := fun hvw => hne (hvw ▸ hv)
    rw [Function.update_of_ne hvw]
    exact h.waiting idx v hv
  · obtain ⟨hvw, hdv⟩ := hother v d hd
    have hp := h.pending v d hdv he
    dsimp only
    rw [hw, if_neg, hp]
    rw [hp]
    exact fun hh => hvw (Option.some.inj hh)

lemma Waits.callReturns (h : Waits logs n recs) {w : ℕ} {c : Call ι ρ}
    {r : Except (Error ι) (Option ρ)} (hn : n.callReturns w = some (m, c, r)) :
    Waits logs m recs ∧ n.calls w = some c ∧ m.calls = Function.update n.calls w none ∧
      m.nextCall = n.nextCall ∧ ∀ value, r = .ok value →
        (c.index, c.entry, value.map .ok) ∈ recs := by
  simp only [Node.callReturns] at hn
  split at hn
  · rename_i _ hc
    split_ifs at hn with he
    cases hn
    refine ⟨h.forget hc fun idx => ?_, hc, rfl, rfl, fun value hv => ?_⟩
    · split_ifs with hw
      · -- a frame whose event is set has no waiter left
        obtain ⟨-, d, hd, -, hde, -⟩ := h.waiting idx w hw
        rw [hc] at hd
        cases hd
        rw [he] at hde
        cases hde
      · rfl
    · rcases h.resolved w c hc he with ⟨e, hr⟩ | ⟨v, hr, hm⟩
      · rw [hr] at hv
        cases hv
      · rw [hr] at hm hv
        cases v with
        | none =>
          cases hv
          exact hm
        | some x =>
          cases hv
          exact hm
  · cases hn

lemma Waits.callTimesOut (h : Waits logs n recs) {w : ℕ} {c : Call ι ρ}
    (hn : n.callTimesOut w = some (m, c)) : Waits logs m recs ∧ n.calls w = some c ∧
      m.calls = Function.update n.calls w none ∧ m.nextCall = n.nextCall := by
  simp only [Node.callTimesOut] at hn
  split at hn
  · rename_i _ hc
    cases hn
    refine ⟨h.forget hc fun idx => ?_, hc, rfl, rfl⟩
    have hidx : n.commitWaiters idx = some w → idx = c.index := by
      intro hw
      obtain ⟨-, d, hd, hi, -⟩ := h.waiting idx w hw
      rw [hc] at hd
      cases hd
      exact hi.symm
    by_cases hp : n.Pending w c
    · rw [if_pos hp]
      by_cases hi : idx = c.index
      · subst hi
        have hw : n.commitWaiters c.index = some w := hp
        rw [Function.update_self, if_pos hw]
      · rw [Function.update_of_ne hi, if_neg fun hw => hi (hidx hw)]
    · rw [if_neg hp, if_neg]
      intro hw
      have hi := hidx hw
      subst hi
      exact hp hw
  · cases hn

lemma Waits.takes (h : Waits logs n recs)
    (hlog : ∀ (p : ℕ) (e : Entry), n.log[p]? = some e → (logs e.term)[p]? = some e)
    (hn : n.applierTakes = some m) : Waits logs m recs := by
  obtain ⟨-, -, rfl⟩ := applierTakes_eq hn
  refine ⟨h.call, h.waiting, h.pending, h.resolved, fun x hx => ?_⟩
  obtain ⟨hlt, -, he⟩ := mem_taken hx
  exact ⟨by omega, hlog _ _ he⟩

lemma Waits.applies (h : Waits logs n recs) {idx : ℕ} {e : Entry}
    {r : Option (Except (Error ι) ρ)} (hn : n.applierApplies cfg = some (m, idx, e, r)) :
    Waits logs m (recs ++ [(idx, e, r)]) := by
  obtain ⟨rest, -, -, -, rfl⟩ := applierApplies_eq hn
  have hh := h.mono (fun _ => List.prefix_rfl) fun x hx =>
    List.mem_append_left [(idx, e, r)] hx
  exact ⟨hh.call, hh.waiting, hh.pending, hh.resolved, hh.taken⟩

/-- The applier hands over a result. Term and index tell it whether the entry is the caller's. -/
lemma Waits.resolves (h : Waits logs n recs) (ha : Applies cfg n recs)
    (hn : n.applierResolves cfg = some m) : Waits logs m recs := by
  simp only [Node.applierResolves] at hn
  split at hn
  swap
  · cases hn
  rename_i idx entry rest result hta hres
  have htaken : ∀ x ∈ rest, 0 < x.1 ∧ (logs x.2.term)[x.1 - 1]? = some x.2 := fun x hx =>
    h.taken x (hta ▸ List.mem_cons_of_mem _ hx)
  split at hn
  · cases hn
    exact ⟨h.call, h.waiting, h.pending, h.resolved, htaken⟩
  rename_i w hw
  cases hn
  obtain ⟨hl, c, hc, hci, hce, -, -⟩ := h.waiting idx w hw
  subst hci
  obtain ⟨_, _, _, hcur, hrec⟩ := ha.current result hres
  rw [hta] at hcur
  cases hcur
  have hself (f : Call ι ρ → Call ι ρ) :
      Function.update n.calls w ((n.calls w).map f) w = some (f c) := by
    rw [Function.update_self, hc]
    rfl
  refine ⟨fun v d hd => ?_, fun k v hv => ?_, fun v d hd he => ?_, fun v d hd he => ?_, htaken⟩
  · dsimp only at hd ⊢
    by_cases hvw : v = w
    · subst hvw
      rw [hself] at hd
      cases hd
      exact h.call v c hc
    · rw [Function.update_of_ne hvw] at hd
      exact h.call v d hd
  · dsimp only at hv ⊢
    by_cases hk : k = c.index
    · subst hk
      rw [Function.update_self] at hv
      cases hv
    · rw [Function.update_of_ne hk] at hv
      have hvw : v ≠ w := by
        rintro rfl
        obtain ⟨-, d, hd, hdi, -⟩ := h.waiting k v hv
        rw [hc] at hd
        cases hd
        exact hk hdi.symm
      rw [Function.update_of_ne hvw]
      exact h.waiting k v hv
  · dsimp only at hd ⊢
    by_cases hvw : v = w
    · subst hvw
      rw [hself] at hd
      cases hd
      cases he
    · rw [Function.update_of_ne hvw] at hd
      have hp := h.pending v d hd he
      have hk : d.index ≠ c.index := by
        intro hk
        rw [hk, hw] at hp
        exact hvw (Option.some.inj hp).symm
      rw [Function.update_of_ne hk]
      exact hp
  · dsimp only at hd ⊢
    by_cases hvw : v = w
    · subst hvw
      rw [hself] at hd
      cases hd
      by_cases hs : Node.Same c entry
      · dsimp only
        rw [if_pos hs]
        obtain ⟨-, -, -, hentry⟩ := h.call v c hc
        have htake := (h.taken (c.index, entry) (hta ▸ List.mem_cons_self)).2
        -- both entries sit at one index of one leader log
        have hsame : entry = c.entry := by
          rw [← hs.1, hentry] at htake
          exact (Option.some.inj htake).symm
        rw [← hsame]
        cases result with
        | none => exact Or.inr ⟨none, rfl, hrec⟩
        | some r =>
          cases r with
          | ok x => exact Or.inr ⟨some x, rfl, hrec⟩
          | error e => exact Or.inl ⟨e, rfl⟩
      · dsimp only
        rw [if_neg hs]
        exact Or.inl ⟨_, rfl⟩
    · rw [Function.update_of_ne hvw] at hd
      exact h.resolved v d hd he

/-- The applier does not touch a frame whose event is set. -/
lemma Waits.resolves_calls (h : Waits logs n recs) (hn : n.applierResolves cfg = some m) {w : ℕ}
    {c : Call ι ρ} (hc : n.calls w = some c) (he : c.event = true) : m.calls w = some c := by
  simp only [Node.applierResolves] at hn
  split at hn
  · split at hn
    · cases hn
      exact hc
    · rename_i v hv
      cases hn
      have hwv : w ≠ v := by
        rintro rfl
        obtain ⟨-, d, hd, -, hde, -⟩ := h.waiting _ w hv
        rw [hc] at hd
        cases hd
        rw [he] at hde
        cases hde
      dsimp only
      rwa [Function.update_of_ne hwv]
  · cases hn

lemma appendEntry_frame {cmd : Command} {w : ℕ} (h : n.appendEntry cfg cmd = .ok (m, w)) :
    n.state = .leader ∧ w = n.nextCall ∧
      m.log = n.log ++ [cmd.entry n.currentTerm (n.lastLogIndex + 1)] ∧
      m.calls = Function.update n.calls n.nextCall (some ⟨n.lastLogIndex + 1,
        cmd.entry n.currentTerm (n.lastLogIndex + 1), n.currentTerm, cmd.clientId, cmd.seqNum,
        false, none⟩) ∧
      m.commitWaiters = Function.update n.commitWaiters (n.lastLogIndex + 1) (some n.nextCall) ∧
      m.nextCall = n.nextCall + 1 ∧ m.toApply = n.toApply := by
  simp only [Node.appendEntry] at h
  split_ifs at h with hl
  rw [not_not] at hl
  cases h
  exact ⟨hl, rfl, rfl, rfl, rfl, rfl, rfl⟩

lemma applierResolves_calls (hn : n.applierResolves cfg = some m) :
    n.nextCall ≤ m.nextCall ∧ ∀ w < n.nextCall, n.calls w = none → m.calls w = none := by
  simp only [Node.applierResolves] at hn
  split at hn
  · split at hn
    · cases hn
      exact ⟨le_rfl, fun _ _ hc => hc⟩
    · rename_i v _
      cases hn
      refine ⟨le_rfl, fun w _ hc => ?_⟩
      by_cases hwv : w = v
      · subst hwv
        simp [hc]
      · dsimp only
        rwa [Function.update_of_ne hwv]
  · cases hn

/-- The leader appends an entry at an index no waiter has. -/
lemma Waits.appends (h : Waits logs n recs) {cmd : Command} {w : ℕ}
    (hn : n.appendEntry cfg cmd = .ok (m, w)) (ha : Aligned n.log)
    (hl : n.state = .leader → logs n.currentTerm = n.log) {logs' : ℕ → List Entry}
    (hgrow : ∀ u, logs u <+: logs' u) (hnew : logs' n.currentTerm = m.log) :
    Waits logs' m recs := by
  have hh := h.mono hgrow fun x (hx : x ∈ recs) => hx
  obtain ⟨-, -, hterm, hstate, -⟩ := appendEntry_eq hn
  obtain ⟨hlead, -, hlog, hcalls, hwaiters, hnc, hta⟩ := appendEntry_frame hn
  have hidx : n.lastLogIndex + 1 = n.log.length + 1 := by rw [ha.lastLogIndex]
  have hfree : n.commitWaiters (n.lastLogIndex + 1) = none := by
    cases hw : n.commitWaiters (n.lastLogIndex + 1) with
    | none => rfl
    | some v =>
      obtain ⟨-, c, hc, hci, -, -, hct⟩ := h.waiting _ v hw
      obtain ⟨-, -, -, he⟩ := h.call v c hc
      rw [hct, hl hlead, hci, hidx] at he
      have := (List.getElem?_eq_some_iff.mp he).1
      omega
  have hnext : n.calls n.nextCall = none := by
    cases hc : n.calls n.nextCall with
    | none => rfl
    | some c => exact absurd (h.call _ c hc).1 (lt_irrefl _)
  refine ⟨fun v d hd => ?_, fun k v hv => ?_, fun v d hd he => ?_, fun v d hd he => ?_,
    fun x hx => hh.taken x (hta ▸ hx)⟩
  · rw [hcalls] at hd
    rw [hnc]
    by_cases hv : v = n.nextCall
    · subst hv
      rw [Function.update_self] at hd
      cases hd
      refine ⟨Nat.lt_succ_self _, ⟨rfl, rfl, rfl⟩, Nat.succ_pos _, ?_⟩
      dsimp only
      rw [hnew, hlog, hidx]
      simp
    · rw [Function.update_of_ne hv] at hd
      obtain ⟨hlt, hc⟩ := hh.call v d hd
      exact ⟨hlt.trans (Nat.lt_succ_self _), hc⟩
  · rw [hwaiters] at hv
    rw [hcalls, hstate, hterm]
    by_cases hk : k = n.lastLogIndex + 1
    · subst hk
      rw [Function.update_self] at hv
      cases hv
      exact ⟨hlead, _, Function.update_self .., rfl, rfl, rfl, rfl⟩
    · rw [Function.update_of_ne hk] at hv
      obtain ⟨hl, c, hc, hrest⟩ := hh.waiting k v hv
      have hvn : v ≠ n.nextCall := by
        rintro rfl
        rw [hnext] at hc
        cases hc
      refine ⟨hl, c, ?_, hrest⟩
      rw [Function.update_of_ne hvn]
      exact hc
  · rw [hcalls] at hd
    rw [hwaiters]
    by_cases hv : v = n.nextCall
    · subst hv
      rw [Function.update_self] at hd
      cases hd
      exact Function.update_self ..
    · rw [Function.update_of_ne hv] at hd
      have hp := hh.pending v d hd he
      have hk : d.index ≠ n.lastLogIndex + 1 := by
        intro hk
        rw [hk, hfree] at hp
        cases hp
      rw [Function.update_of_ne hk]
      exact hp
  · rw [hcalls] at hd
    by_cases hv : v = n.nextCall
    · subst hv
      rw [Function.update_self] at hd
      cases hd
      cases he
    · rw [Function.update_of_ne hv] at hd
      exact hh.resolved v d hd he

namespace Cluster

structure WaiterInv (s : Cluster ι σ ρ) (a : State ι Entry) : Prop where
  waits : ∀ i, Waits a.leaderLog (s.nodes i) (records s.trace i (s.nodes i).boot)
  returned : ∀ i boot w c value, .returned i boot w c value ∈ s.trace →
    (c.index, c.entry, value.map .ok) ∈ records s.trace i boot
  finished : ∀ i boot w c value, .returned i boot w c value ∈ s.trace → boot ≤ (s.nodes i).boot ∧
    (boot = (s.nodes i).boot → w < (s.nodes i).nextCall ∧ (s.nodes i).calls w = none)

variable {s t : Cluster ι σ ρ} {a b : State ι Entry}

lemma init_waiterInv (cfg : Config ι σ ρ) : WaiterInv (init cfg) (State.init ι Entry) where
  waits i := Waits.restart (n := Node.start cfg i 0 none none) ⟨rfl, rfl, rfl, rfl, rfl, rfl, rfl⟩
  returned _ _ _ _ _ h := by simp [init] at h
  finished _ _ _ _ _ h := by simp [init] at h

lemma WaiterInv.move (h : WaiterInv s a) {i : ι} {n : Node ι σ ρ} {obs : List (Observation ι ρ)}
    (hg : Grows a b) (hn : t.nodes = Function.update s.nodes i n) (ht : t.trace = s.trace ++ obs)
    (hw : Waits b.leaderLog n (records t.trace i n.boot))
    (hret : ∀ j boot w c value, .returned j boot w c value ∈ obs →
      j = i ∧ boot = n.boot ∧ w < n.nextCall ∧ n.calls w = none ∧
        (c.index, c.entry, value.map .ok) ∈ records s.trace i n.boot)
    (hb : (s.nodes i).boot ≤ n.boot)
    (hcalls : n.boot = (s.nodes i).boot → (s.nodes i).nextCall ≤ n.nextCall ∧
      ∀ w < (s.nodes i).nextCall, (s.nodes i).calls w = none → n.calls w = none) :
    WaiterInv t b := by
  have hself : t.nodes i = n := by rw [hn, Function.update_self]
  have hother : ∀ j, j ≠ i → t.nodes j = s.nodes j := fun j hj => by
    rw [hn, Function.update_of_ne hj]
  have hsub : ∀ j boot, ∀ x ∈ records s.trace j boot, x ∈ records t.trace j boot := by
    intro j boot x hx
    rw [ht, records_append]
    exact List.mem_append_left _ hx
  refine ⟨fun j => ?_, fun j boot w c value hm => ?_, fun j boot w c value hm => ?_⟩
  · by_cases hj : j = i
    · subst hj
      rw [hself]
      exact hw
    · rw [hother j hj]
      exact (h.waits j).mono hg.leaderLog (hsub j _)
  · rw [ht] at hm
    rcases List.mem_append.mp hm with hm | hm
    · exact hsub _ _ _ (h.returned j boot w c value hm)
    · obtain ⟨rfl, rfl, -, -, hrec⟩ := hret j boot w c value hm
      exact hsub _ _ _ hrec
  · rw [ht] at hm
    rcases List.mem_append.mp hm with hm | hm
    · obtain ⟨hle, hfin⟩ := h.finished j boot w c value hm
      by_cases hj : j = i
      · subst hj
        rw [hself]
        refine ⟨hle.trans hb, fun heq => ?_⟩
        have hsame : n.boot = (s.nodes j).boot := by omega
        obtain ⟨hlt, hnone⟩ := hfin (heq.trans hsame)
        obtain ⟨hnc, hkeep⟩ := hcalls hsame
        exact ⟨hlt.trans_le hnc, hkeep w hlt hnone⟩
      · rw [hother j hj]
        exact ⟨hle, hfin⟩
    · obtain ⟨rfl, rfl, hlt, hnone, -⟩ := hret j boot w c value hm
      rw [hself]
      exact ⟨le_rfl, fun _ => ⟨hlt, hnone⟩⟩

variable [Fintype ι]

lemma Tracks.in_leaderLog (h : Tracks s a) (i : ι) (p : ℕ) (e : Entry)
    (he : (s.nodes i).log[p]? = some e) : (a.leaderLog e.term)[p]? = some e := by
  have hr := h.rooted i p e he
  refine getElem?_of_isPrefix hr ?_
  rw [List.getElem?_take_of_lt (Nat.lt_succ_self p), he]

lemma WaiterInv.service {cfg : Config ι σ ρ} (h : WaiterInv s a) (ha : Tracks s a)
    (hap : ApplierInv cfg s) (hg : Grows a b) (hb : Refines t b) (hc : ServiceChange cfg s t) :
    WaiterInv t b := by
  have hw := fun i => (h.waits i).mono hg.leaderLog fun x hx => hx
  have hrec {i : ι} {obs : List (Observation ι ρ)} {boot : ℕ}
      (ho : ∀ j b idx e r, .applied j b idx e r ∉ obs) :
      records (s.trace ++ obs) i boot = records s.trace i boot := by
    rw [records_append, records_eq_nil ho, List.append_nil]
  cases hc with
  | serves i n obs hn hs ht hel =>
    have hnone : ∀ j b idx e r, .applied j b idx e r ∉ obs := by
      intro j b idx e r hm
      obtain ⟨_, _, hx⟩ := hel _ hm
      cases hx
    have hret : ∀ j boot w c value, .returned j boot w c value ∉ obs := by
      intro j boot w c value hm
      obtain ⟨_, _, hx⟩ := hel _ hm
      cases hx
    cases hs with
    | keeps hsame hboot hrole =>
      refine h.move hg hn ht ?_ (fun j boot w c v hm => (hret j boot w c v hm).elim) hboot.ge ?_
      · rw [ht, hrec hnone, hboot]
        exact (hw i).keeps hsame hrole
      · rw [hsame.nextCall, hsame.calls]
        exact fun _ => ⟨le_rfl, fun _ _ hc => hc⟩
    | fails hsame hboot hrole =>
      refine h.move hg hn ht ?_ (fun j boot w c v hm => (hret j boot w c v hm).elim) hboot.ge ?_
      · rw [ht, hrec hnone, hboot]
        exact (hw i).fails hsame
      · rw [hsame.nextCall, hsame.calls]
        refine fun _ => ⟨le_rfl, fun w _ hc => ?_⟩
        simp only [Node.failAllWaiters, hc, Option.map_none]
    | restarts hsame hboot hrole =>
      refine h.move hg hn ht ?_ (fun j boot w c v hm => (hret j boot w c v hm).elim) (by omega) ?_
      · rw [ht, hrec hnone, hap.boots i _ (by omega)]
        exact Waits.restart hsame
      · exact fun heq => by omega
  | appends i cmd n w hn ht =>
    subst ht
    have hboot := (appendEntry_applier hn).2
    obtain ⟨hlead, -, hlog, hcalls, -, hnc, -⟩ := appendEntry_frame hn
    obtain ⟨-, -, hterm, hstate, -⟩ := appendEntry_eq hn
    have hself : (s.setNode i n).nodes i = n := by rw [setNode_nodes, Function.update_self]
    refine h.move hg rfl (List.append_nil _).symm ?_ (by simp) hboot.ge ?_
    · rw [setNode_trace, hboot]
      refine (h.waits i).appends hn (ha.aligned i) (fun hl => (ha.refines.leader i hl).1)
        hg.leaderLog ?_
      have hl := (hb.leader i (by rw [hself, hstate]; exact hlead)).1
      rwa [hself, hterm] at hl
    · rw [hnc, hcalls]
      refine fun _ => ⟨Nat.le_succ _, fun w hlt hc => ?_⟩
      rwa [Function.update_of_ne hlt.ne]
  | quiet i n obs hl ht =>
    subst ht
    have hboot : n.boot = (s.nodes i).boot := hl.core.boot
    have hgone {w : ℕ} (hcalls : n.calls = Function.update (s.nodes i).calls w none) (v : ℕ)
        (hv : (s.nodes i).calls v = none) : n.calls v = none := by
      rw [hcalls]
      by_cases hvw : v = w
      · rw [hvw, Function.update_self]
      · rwa [Function.update_of_ne hvw]
    cases hl with
    | timerFires _ hn =>
      simp only [Node.timerFires] at hn
      split_ifs at hn
      cases hn
      refine h.move hg rfl rfl ?_ (by simp) le_rfl fun _ => ⟨le_rfl, fun _ _ hc => hc⟩
      rw [hrec (by simp)]
      exact (hw i).keeps ⟨rfl, rfl, rfl, rfl, rfl, rfl, rfl⟩ fun hl => ⟨hl, rfl⟩
    | callReturns w _ c value hn =>
      obtain ⟨hwn, hcw, hcalls, hnc, hval⟩ := (hw i).callReturns hn
      refine h.move hg rfl rfl ?_ ?_ hboot.ge fun _ => ⟨hnc.ge, fun v _ => hgone hcalls v⟩
      · rw [hrec (by simp), hboot]
        exact hwn
      · intro j boot v d u hm
        cases List.mem_singleton.mp hm
        rw [hboot, hnc, hcalls, Function.update_self]
        exact ⟨rfl, rfl, ((hw i).call w c hcw).1, rfl, hval value rfl⟩
    | callRaises w _ c exc hn =>
      obtain ⟨hwn, -, hcalls, hnc, -⟩ := (hw i).callReturns hn
      refine h.move hg rfl rfl ?_ (by simp) hboot.ge fun _ => ⟨hnc.ge, fun v _ => hgone hcalls v⟩
      rw [hrec (by simp), hboot]
      exact hwn
    | callTimesOut w _ c hn =>
      obtain ⟨hwn, -, hcalls, hnc⟩ := (hw i).callTimesOut hn
      refine h.move hg rfl rfl ?_ (by simp) hboot.ge fun _ => ⟨hnc.ge, fun v _ => hgone hcalls v⟩
      rw [hrec (by simp), hboot]
      exact hwn
    | applierTakes _ hn =>
      have hwn := (hw i).takes (fun p e he =>
        getElem?_of_isPrefix (hg.leaderLog _) (ha.in_leaderLog i p e he)) hn
      obtain ⟨-, -, rfl⟩ := applierTakes_eq hn
      refine h.move hg rfl rfl ?_ (by simp) le_rfl fun _ => ⟨le_rfl, fun _ _ hc => hc⟩
      rw [hrec (by simp)]
      exact hwn
    | applierApplies _ idx entry result hn =>
      have hwn := (hw i).applies hn
      obtain ⟨rest, -, -, -, rfl⟩ := applierApplies_eq hn
      refine h.move hg rfl rfl ?_ (by simp) le_rfl fun _ => ⟨le_rfl, fun _ _ hc => hc⟩
      dsimp only
      rw [records_append, records_applied, if_pos ⟨rfl, rfl⟩]
      exact hwn
    | applierResolves _ hn =>
      have hwn := (hw i).resolves (hap.applies i) hn
      refine h.move hg rfl rfl ?_ (by simp) hboot.ge fun _ => ?_
      · rw [hrec (by simp), hboot]
        exact hwn
      · exact applierResolves_calls hn
    | setIsolated isolated =>
      refine h.move hg rfl rfl ?_ (by simp) le_rfl fun _ => ⟨le_rfl, fun _ _ hc => hc⟩
      rw [hrec (by simp)]
      exact (hw i).keeps ⟨rfl, rfl, rfl, rfl, rfl, rfl, rfl⟩ fun hl => ⟨hl, rfl⟩

end Cluster

end DistributedStorage.Raft

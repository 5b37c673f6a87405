import DistributedStorage.Raft.Services

/-! The applier: each process applies entries at increasing indices, and its state machine is the
replay of what it has applied. -/

set_option linter.unusedSectionVars false

namespace DistributedStorage.Raft

variable {ι σ ρ : Type} [DecidableEq ι]

/-- What the applier knows of an entry it has processed: index, entry, result. -/
abbrev Applied (ι ρ : Type) := ℕ × Entry × Option (Except (Error ι) ρ)

/-- Applying an entry: a noop leaves the state machine alone and has no result. -/
def Config.applyEntry (cfg : Config ι σ ρ) (st : σ) (entry : Entry) :
    σ × Option (Except (Error ι) ρ) :=
  if entry.opType = .noop then (st, none)
  else ((cfg.apply st entry).1, some ((cfg.apply st entry).2.mapError Error.applyFailed))

def Config.replay (cfg : Config ι σ ρ) (es : List Entry) : σ :=
  es.foldl (fun st e => (cfg.applyEntry st e).1) cfg.init

@[simp] lemma Config.replay_nil (cfg : Config ι σ ρ) : cfg.replay [] = cfg.init := rfl

@[simp] lemma Config.replay_concat (cfg : Config ι σ ρ) (es : List Entry) (e : Entry) :
    cfg.replay (es ++ [e]) = (cfg.applyEntry (cfg.replay es) e).1 := by
  simp [Config.replay]

def entries (recs : List (Applied ι ρ)) : List Entry := recs.map fun x => x.2.1

/-- Each record's result is that of its entry after the entries before it. -/
def Replayed (cfg : Config ι σ ρ) (recs : List (Applied ι ρ)) : Prop :=
  ∀ pre x post, recs = pre ++ x :: post →
    x.2.2 = (cfg.applyEntry (cfg.replay (entries pre)) x.2.1).2

lemma Replayed.concat {cfg : Config ι σ ρ} {recs : List (Applied ι ρ)} (h : Replayed cfg recs)
    (idx : ℕ) (e : Entry) :
    Replayed cfg (recs ++ [(idx, e, (cfg.applyEntry (cfg.replay (entries recs)) e).2)]) := by
  intro pre x post hx
  rcases List.eq_nil_or_concat' post with rfl | ⟨r, y, rfl⟩
  · obtain ⟨hr, hy⟩ := List.append_inj' hx rfl
    subst hr
    rw [← (List.cons.inj hy).1]
  · rw [← List.cons_append, ← List.append_assoc] at hx
    exact h pre x r (List.append_inj' hx rfl).1

/-- What process `boot` of node `i` has applied. -/
def records (trace : List (Observation ι ρ)) (i : ι) (boot : ℕ) : List (Applied ι ρ) :=
  trace.filterMap fun
    | .applied j b idx entry result => if j = i ∧ b = boot then some (idx, entry, result) else none
    | _ => none

@[simp] lemma records_append (l m : List (Observation ι ρ)) (i : ι) (boot : ℕ) :
    records (l ++ m) i boot = records l i boot ++ records m i boot :=
  List.filterMap_append ..

lemma mem_records {trace : List (Observation ι ρ)} {i : ι} {boot idx : ℕ} {e : Entry}
    {r : Option (Except (Error ι) ρ)} :
    (idx, e, r) ∈ records trace i boot ↔ .applied i boot idx e r ∈ trace := by
  simp only [records, List.mem_filterMap]
  constructor
  · rintro ⟨o, ho, hr⟩
    split at hr
    · split_ifs at hr with hib
      cases hr
      rw [← hib.1, ← hib.2]
      exact ho
    · cases hr
  · intro h
    exact ⟨_, h, by simp⟩

@[simp] lemma records_applied (i j : ι) (b boot idx : ℕ) (e : Entry)
    (r : Option (Except (Error ι) ρ)) :
    records [.applied j b idx e r] i boot = if j = i ∧ b = boot then [(idx, e, r)] else [] := by
  simp only [records, List.filterMap_cons, List.filterMap_nil]
  split_ifs <;> rfl

lemma records_eq_nil {obs : List (Observation ι ρ)}
    (h : ∀ j b idx e r, .applied j b idx e r ∉ obs) (i : ι) (boot : ℕ) :
    records obs i boot = [] := by
  rw [records, List.filterMap_eq_nil_iff]
  intro o ho
  split
  · exact (h _ _ _ _ _ ho).elim
  · rfl

/-- The entries the applier has taken but not yet applied. -/
def Node.unapplied (n : Node ι σ ρ) : List (ℕ × Entry) :=
  if n.applyResult = none then n.toApply else n.toApply.tail

variable {cfg : Config ι σ ρ} {n m : Node ι σ ρ}

lemma applierApplies_eq {idx : ℕ} {e : Entry} {r : Option (Except (Error ι) ρ)}
    (h : n.applierApplies cfg = some (m, idx, e, r)) :
    ∃ rest, n.toApply = (idx, e) :: rest ∧ n.applyResult = none ∧
      r = (cfg.applyEntry n.sm e).2 ∧
      m = { n with sm := (cfg.applyEntry n.sm e).1, applyResult := some r } := by
  simp only [Node.applierApplies] at h
  split at h
  · rename_i i x rest hta hres
    split_ifs at h with hop
    · cases h
      exact ⟨rest, hta, hres, by simp [Config.applyEntry, hop], by simp [Config.applyEntry, hop]⟩
    · cases h
      exact ⟨rest, hta, hres, by simp [Config.applyEntry, hop], by simp [Config.applyEntry, hop]⟩
  · cases h

lemma applierTakes_eq (h : n.applierTakes = some m) : n.toApply = [] ∧
    n.lastApplied < n.commitIndex ∧
    m = { n with
      lastApplied := n.commitIndex
      toApply := (List.range' (n.lastApplied + 1) (n.commitIndex - n.lastApplied)).filterMap
        fun idx => (n.log[idx - 1]?).map fun e => (idx, e) } := by
  simp only [Node.applierTakes] at h
  split_ifs at h with hg
  cases h
  exact ⟨hg.1, hg.2, rfl⟩

lemma mem_taken {log : List Entry} {a k : ℕ} {x : ℕ × Entry}
    (h : x ∈ (List.range' (a + 1) k).filterMap fun idx => (log[idx - 1]?).map fun e => (idx, e)) :
    a < x.1 ∧ x.1 ≤ a + k ∧ log[x.1 - 1]? = some x.2 := by
  obtain ⟨idx, hidx, hx⟩ := List.mem_filterMap.mp h
  obtain ⟨e, he, rfl⟩ := Option.map_eq_some_iff.mp hx
  rw [List.mem_range'_1] at hidx
  exact ⟨by omega, by omega, he⟩

lemma applierResolves_eq (h : n.applierResolves cfg = some m) :
    ∃ idx e rest result calls waiters, n.toApply = (idx, e) :: rest ∧ n.applyResult = some result ∧
      m = { n with
        toApply := rest
        applyResult := none
        calls := calls
        commitWaiters := waiters } := by
  simp only [Node.applierResolves] at h
  split at h
  · rename_i idx e rest result hta hres
    split at h
    · cases h
      exact ⟨idx, e, rest, result, _, _, hta, hres, rfl⟩
    · cases h
      exact ⟨idx, e, rest, result, _, _, hta, hres, rfl⟩
  · cases h

lemma taken_sorted (log : List Entry) (a k : ℕ) :
    (((List.range' (a + 1) k).filterMap fun idx =>
      (log[idx - 1]?).map fun e => (idx, e)).map Prod.fst).Pairwise (· < ·) := by
  rw [List.pairwise_map]
  refine List.Pairwise.filterMap _ ?_ List.pairwise_lt_range'
  intro x y hxy u hu v hv
  obtain ⟨e, -, rfl⟩ := Option.map_eq_some_iff.mp hu
  obtain ⟨f, -, rfl⟩ := Option.map_eq_some_iff.mp hv
  exact hxy

/-- `recs` is what the process has applied: its state machine replays it, and what is left to apply
comes after it. -/
structure Applies (cfg : Config ι σ ρ) (n : Node ι σ ρ) (recs : List (Applied ι ρ)) : Prop where
  sm : n.sm = cfg.replay (entries recs)
  order : (recs.map Prod.fst ++ n.unapplied.map Prod.fst).Pairwise (· < ·)
  bound : ∀ k ∈ recs.map Prod.fst ++ n.unapplied.map Prod.fst, k ≤ n.lastApplied
  current : ∀ r, n.applyResult = some r →
    ∃ idx e rest, n.toApply = (idx, e) :: rest ∧ (idx, e, r) ∈ recs

/-- The two nodes agree on applier and state machine. -/
structure SameApplier (n m : Node ι σ ρ) : Prop where
  lastApplied : m.lastApplied = n.lastApplied
  toApply : m.toApply = n.toApply
  applyResult : m.applyResult = n.applyResult
  sm : m.sm = n.sm

lemma SameService.applier (h : SameService n m) : SameApplier n m :=
  ⟨h.lastApplied, h.toApply, h.applyResult, h.sm⟩

variable {recs : List (Applied ι ρ)}

lemma SameApplier.unapplied (h : SameApplier n m) : m.unapplied = n.unapplied := by
  simp only [Node.unapplied, h.applyResult, h.toApply]

lemma Applies.same (h : Applies cfg n recs) (hs : SameApplier n m) : Applies cfg m recs where
  sm := hs.sm.trans h.sm
  order := by
    rw [hs.unapplied]
    exact h.order
  bound := by
    rw [hs.unapplied, hs.lastApplied]
    exact h.bound
  current r hr := by
    rw [hs.toApply]
    exact h.current r (hs.applyResult ▸ hr)

lemma Applies.restart (hs : SameService (n.restart cfg) m) : Applies cfg m [] where
  sm := hs.sm
  order := by
    rw [hs.applier.unapplied]
    exact List.Pairwise.nil
  bound k hk := by
    rw [hs.applier.unapplied] at hk
    exact (List.not_mem_nil hk).elim
  current r hr := by
    rw [hs.applyResult] at hr
    cases hr

lemma Applies.idle (h : Applies cfg n recs) (hn : n.toApply = []) : n.applyResult = none := by
  cases hr : n.applyResult with
  | none => rfl
  | some r =>
    obtain ⟨idx, e, rest, hta, -⟩ := h.current r hr
    rw [hn] at hta
    cases hta

lemma applierTakes_unapplied (hidle : n.toApply = [] → n.applyResult = none)
    (hm : n.applierTakes = some m) : n.unapplied = [] ∧ m.applyResult = none ∧
      m.unapplied = (List.range' (n.lastApplied + 1) (n.commitIndex - n.lastApplied)).filterMap
        fun idx => (n.log[idx - 1]?).map fun e => (idx, e) := by
  obtain ⟨hnil, -, rfl⟩ := applierTakes_eq hm
  have hres := hidle hnil
  exact ⟨by rw [Node.unapplied, if_pos hres, hnil], hres, by rw [Node.unapplied, if_pos hres]⟩

lemma applierApplies_unapplied {idx : ℕ} {e : Entry} {r : Option (Except (Error ι) ρ)}
    (hm : n.applierApplies cfg = some (m, idx, e, r)) :
    n.unapplied = (idx, e) :: m.unapplied ∧ m.lastApplied = n.lastApplied := by
  obtain ⟨rest, hta, hres, -, rfl⟩ := applierApplies_eq hm
  simp [Node.unapplied, hres, hta]

lemma applierResolves_unapplied (hm : n.applierResolves cfg = some m) :
    m.unapplied = n.unapplied ∧ m.lastApplied = n.lastApplied := by
  obtain ⟨idx, e, rest, r, calls, waiters, hta, hres, rfl⟩ := applierResolves_eq hm
  simp [Node.unapplied, hta, hres]

lemma Applies.takes (h : Applies cfg n recs) (hm : n.applierTakes = some m) :
    Applies cfg m recs := by
  obtain ⟨-, hres, hun⟩ := applierTakes_unapplied h.idle hm
  obtain ⟨-, hlt, rfl⟩ := applierTakes_eq hm
  have hbound : ∀ k ∈ recs.map Prod.fst, k ≤ n.lastApplied :=
    fun k hk => h.bound k (List.mem_append_left _ hk)
  refine ⟨h.sm, ?_, ?_, fun r hr => ?_⟩
  · rw [hun, List.pairwise_append]
    refine ⟨(List.pairwise_append.mp h.order).1, taken_sorted _ _ _, fun k hk l hl => ?_⟩
    obtain ⟨x, hx, rfl⟩ := List.mem_map.mp hl
    exact (hbound k hk).trans_lt (mem_taken hx).1
  · intro k hk
    rw [hun] at hk
    dsimp only
    rcases List.mem_append.mp hk with hk | hk
    · exact (hbound k hk).trans hlt.le
    · obtain ⟨x, hx, rfl⟩ := List.mem_map.mp hk
      have := (mem_taken hx).2.1
      omega
  · rw [hres] at hr
    cases hr

lemma Applies.applies (h : Applies cfg n recs) {idx : ℕ} {e : Entry}
    {r : Option (Except (Error ι) ρ)} (hm : n.applierApplies cfg = some (m, idx, e, r)) :
    Applies cfg m (recs ++ [(idx, e, r)]) ∧
      r = (cfg.applyEntry (cfg.replay (entries recs)) e).2 := by
  obtain ⟨hun, hla⟩ := applierApplies_unapplied hm
  -- the entry moves from the front of what is left to the end of what is done
  have hsame : (recs ++ [(idx, e, r)]).map Prod.fst ++ m.unapplied.map Prod.fst =
      recs.map Prod.fst ++ n.unapplied.map Prod.fst := by
    simp [hun]
  obtain ⟨rest, hta, -, hr, rfl⟩ := applierApplies_eq hm
  refine ⟨⟨?_, ?_, ?_, ?_⟩, h.sm ▸ hr⟩
  · simp [entries, h.sm]
  · rw [hsame]
    exact h.order
  · rw [hsame]
    exact h.bound
  · intro r' hr'
    cases hr'
    exact ⟨idx, e, rest, hta, List.mem_append_right _ (List.mem_singleton.mpr rfl)⟩

lemma Applies.resolves (h : Applies cfg n recs) (hm : n.applierResolves cfg = some m) :
    Applies cfg m recs := by
  have hun := (applierResolves_unapplied hm).1
  obtain ⟨idx, e, rest, r, calls, waiters, hta, hres, rfl⟩ := applierResolves_eq hm
  refine ⟨h.sm, ?_, ?_, nofun⟩
  · rw [hun]
    exact h.order
  · rw [hun]
    exact h.bound

lemma callReturns_applier {w : ℕ} {c : Call ι ρ} {r : Except (Error ι) (Option ρ)}
    (h : n.callReturns w = some (m, c, r)) : SameApplier n m := by
  simp only [Node.callReturns] at h
  split at h
  · split_ifs at h
    cases h
    exact ⟨rfl, rfl, rfl, rfl⟩
  · cases h

lemma callTimesOut_applier {w : ℕ} {c : Call ι ρ} (h : n.callTimesOut w = some (m, c)) :
    SameApplier n m := by
  simp only [Node.callTimesOut] at h
  split at h
  · cases h
    exact ⟨rfl, rfl, rfl, rfl⟩
  · cases h

lemma timerFires_applier (h : n.timerFires = some m) : SameApplier n m := by
  simp only [Node.timerFires] at h
  split_ifs at h
  cases h
  exact ⟨rfl, rfl, rfl, rfl⟩

lemma appendEntry_applier {cmd : Command} {w : ℕ} (h : n.appendEntry cfg cmd = .ok (m, w)) :
    SameApplier n m ∧ m.boot = n.boot := by
  simp only [Node.appendEntry] at h
  split_ifs at h
  cases h
  exact ⟨⟨rfl, rfl, rfl, rfl⟩, rfl⟩

/-- What a step does to the applier of a node and to what its process has applied. -/
inductive ApplierMoves (cfg : Config ι σ ρ) (n m : Node ι σ ρ) (recs : List (Applied ι ρ)) :
    List (Applied ι ρ) → Prop
  | same : SameApplier n m → ApplierMoves cfg n m recs recs
  | restarts : SameService (n.restart cfg) m → ApplierMoves cfg n m recs []
  | takes : n.applierTakes = some m → ApplierMoves cfg n m recs recs
  | applies (idx : ℕ) (e : Entry) (r : Option (Except (Error ι) ρ)) :
      n.applierApplies cfg = some (m, idx, e, r) →
      ApplierMoves cfg n m recs (recs ++ [(idx, e, r)])
  | resolves : n.applierResolves cfg = some m → ApplierMoves cfg n m recs recs

lemma Applies.moves {recs' : List (Applied ι ρ)} (h : Applies cfg n recs)
    (hm : ApplierMoves cfg n m recs recs') : Applies cfg m recs' := by
  cases hm with
  | same hs => exact h.same hs
  | restarts hs => exact .restart hs
  | takes hn => exact h.takes hn
  | applies idx e r hn => exact (h.applies hn).1
  | resolves hn => exact h.resolves hn

lemma ApplierMoves.replayed {recs' : List (Applied ι ρ)} (hm : ApplierMoves cfg n m recs recs')
    (h : Applies cfg n recs) (hr : Replayed cfg recs) : Replayed cfg recs' := by
  cases hm with
  | restarts hs =>
    intro pre x post hx
    simp at hx
  | applies idx e r hn =>
    rw [(h.applies hn).2]
    exact hr.concat idx e
  | _ => exact hr

lemma ApplierMoves.idle {recs' : List (Applied ι ρ)} (hm : ApplierMoves cfg n m recs recs')
    (h : n.toApply = [] → n.applyResult = none) (hnil : m.toApply = []) : m.applyResult = none := by
  cases hm with
  | same hs =>
    rw [hs.applyResult]
    exact h (hs.toApply ▸ hnil)
  | restarts hs => exact hs.applyResult
  | takes hn => exact (applierTakes_unapplied h hn).2.1
  | applies idx e r hn =>
    obtain ⟨rest, hta, -, -, rfl⟩ := applierApplies_eq hn
    cases hta.symm.trans hnil
  | resolves hn =>
    obtain ⟨idx, e, rest, r, calls, waiters, -, -, rfl⟩ := applierResolves_eq hn
    rfl

namespace Cluster

variable {s t : Cluster ι σ ρ}

/-- The applier of one node moves; nobody else applies anything. -/
structure AppliesAt (cfg : Config ι σ ρ) (s t : Cluster ι σ ρ) (i : ι) : Prop where
  others : ∀ j, j ≠ i → t.nodes j = s.nodes j
  records : ∀ j boot, j ≠ i ∨ boot ≠ (t.nodes i).boot →
    records t.trace j boot = records s.trace j boot
  boot_le : (s.nodes i).boot ≤ (t.nodes i).boot
  moves : ApplierMoves cfg (s.nodes i) (t.nodes i) (Raft.records s.trace i (s.nodes i).boot)
    (Raft.records t.trace i (t.nodes i).boot)

lemma AppliesAt.silent {i : ι} {n : Node ι σ ρ} (hn : t.nodes = Function.update s.nodes i n)
    (hr : ∀ j boot, Raft.records t.trace j boot = Raft.records s.trace j boot)
    (hb : (s.nodes i).boot ≤ n.boot)
    (hm : ApplierMoves cfg (s.nodes i) n (Raft.records s.trace i (s.nodes i).boot)
      (Raft.records s.trace i n.boot)) : AppliesAt cfg s t i := by
  have hself : t.nodes i = n := by rw [hn, Function.update_self]
  refine ⟨fun j hj => ?_, fun j boot _ => hr j boot, ?_, ?_⟩
  · rw [hn, Function.update_of_ne hj]
  · rw [hself]
    exact hb
  · rw [hself, hr]
    exact hm

variable [Fintype ι]

lemma ServiceChange.applier (hc : ServiceChange cfg s t)
    (hboots : ∀ i boot, (s.nodes i).boot < boot → records s.trace i boot = []) :
    ∃ i, AppliesAt cfg s t i := by
  have hquiet {obs : List (Observation ι ρ)} (ho : ∀ j b idx e r, .applied j b idx e r ∉ obs)
      (j : ι) (boot : ℕ) : records (s.trace ++ obs) j boot = records s.trace j boot := by
    rw [records_append, records_eq_nil ho, List.append_nil]
  cases hc with
  | serves i n obs hn hs ht hel =>
    have hrec : ∀ j boot, records t.trace j boot = records s.trace j boot := by
      rw [ht]
      refine hquiet fun j b idx e r hm => ?_
      obtain ⟨_, _, hx⟩ := hel _ hm
      cases hx
    cases hs with
    | keeps hsame hb _ => exact ⟨i, .silent hn hrec hb.ge (hb ▸ .same hsame.applier)⟩
    | fails hsame hb _ =>
      refine ⟨i, .silent hn hrec hb.ge (hb ▸ .same ?_)⟩
      exact ⟨hsame.lastApplied, hsame.toApply, hsame.applyResult, hsame.sm⟩
    | restarts hsame hb _ =>
      refine ⟨i, .silent hn hrec (by omega) ?_⟩
      rw [hboots i n.boot (by omega)]
      exact .restarts hsame
  | appends i cmd n w hn ht =>
    subst ht
    obtain ⟨hs, hb⟩ := appendEntry_applier hn
    exact ⟨i, .silent rfl (fun _ _ => rfl) hb.ge (hb ▸ .same hs)⟩
  | quiet i n obs hl ht =>
    subst ht
    have hb : n.boot = (s.nodes i).boot := hl.core.boot
    refine ⟨i, ?_⟩
    cases hl with
    | timerFires _ hn =>
      exact .silent rfl (hquiet (by simp)) hb.ge (hb ▸ .same (timerFires_applier hn))
    | callReturns w _ c value hn =>
      exact .silent rfl (hquiet (by simp)) hb.ge (hb ▸ .same (callReturns_applier hn))
    | callRaises w _ c exc hn =>
      exact .silent rfl (hquiet (by simp)) hb.ge (hb ▸ .same (callReturns_applier hn))
    | callTimesOut w _ c hn =>
      exact .silent rfl (hquiet (by simp)) hb.ge (hb ▸ .same (callTimesOut_applier hn))
    | applierTakes _ hn => exact .silent rfl (hquiet (by simp)) hb.ge (hb ▸ .takes hn)
    | applierApplies _ idx e r hn =>
      have hrec (j : ι) (boot : ℕ) :
          records (s.trace ++ [.applied i (s.nodes i).boot idx e r]) j boot =
            if i = j ∧ (s.nodes i).boot = boot then records s.trace j boot ++ [(idx, e, r)]
            else records s.trace j boot := by
        rw [records_append, records_applied]
        split_ifs
        · rfl
        · rw [List.append_nil]
      have hself : (s.setNode i n).nodes i = n := by rw [setNode_nodes, Function.update_self]
      refine ⟨fun j hj => ?_, fun j boot hne => ?_, ?_, ?_⟩
      · exact Function.update_of_ne hj ..
      · refine (hrec j boot).trans (if_neg ?_)
        rintro ⟨rfl, rfl⟩
        exact hne.elim (fun hh => hh rfl) fun hh => hh (by rw [hself, hb])
      · rw [hself]
        exact hb.ge
      · dsimp only
        rw [hself, hrec, if_pos ⟨rfl, hb.symm⟩, hb]
        exact .applies idx e r hn
    | applierResolves _ hn => exact .silent rfl (hquiet (by simp)) hb.ge (hb ▸ .resolves hn)
    | setIsolated isolated =>
      exact .silent rfl (hquiet (by simp)) hb.ge (.same ⟨rfl, rfl, rfl, rfl⟩)

lemma AppliesAt.boots {i : ι} (hi : AppliesAt cfg s t i)
    (h : ∀ j boot, (s.nodes j).boot < boot → Raft.records s.trace j boot = []) (j : ι) (boot : ℕ)
    (hlt : (t.nodes j).boot < boot) : Raft.records t.trace j boot = [] := by
  by_cases hj : j = i
  · subst hj
    rw [hi.records j boot (Or.inr hlt.ne')]
    exact h j boot (hi.boot_le.trans_lt hlt)
  · rw [hi.records j boot (Or.inl hj)]
    exact h j boot (hi.others j hj ▸ hlt)

structure ApplierInv (cfg : Config ι σ ρ) (s : Cluster ι σ ρ) : Prop where
  boots : ∀ i boot, (s.nodes i).boot < boot → records s.trace i boot = []
  applies : ∀ i, Applies cfg (s.nodes i) (records s.trace i (s.nodes i).boot)
  replayed : ∀ i boot, Replayed cfg (records s.trace i boot)
  sorted : ∀ i boot, ((records s.trace i boot).map Prod.fst).Pairwise (· < ·)

lemma init_applierInv (cfg : Config ι σ ρ) : ApplierInv cfg (init cfg) where
  boots _ _ _ := rfl
  applies i := Applies.restart (n := Node.start cfg i 0 none none) ⟨rfl, rfl, rfl, rfl, rfl, rfl, rfl⟩
  replayed _ _ pre x post h := by simp [records, init] at h
  sorted _ _ := List.Pairwise.nil

lemma ApplierInv.service (h : ApplierInv cfg s) (hc : ServiceChange cfg s t) : ApplierInv cfg t := by
  obtain ⟨i, hi⟩ := hc.applier h.boots
  have happ := (h.applies i).moves hi.moves
  have hrep := hi.moves.replayed (h.applies i) (h.replayed i _)
  refine ⟨hi.boots h.boots, fun j => ?_, fun j boot => ?_, fun j boot => ?_⟩
  · by_cases hj : j = i
    · subst hj
      exact happ
    · rw [hi.records j _ (Or.inl hj), hi.others j hj]
      exact h.applies j
  · by_cases hj : j ≠ i ∨ boot ≠ (t.nodes i).boot
    · exact hi.records j boot hj ▸ h.replayed j boot
    · simp only [not_or, not_not] at hj
      obtain ⟨rfl, rfl⟩ := hj
      exact hrep
  · by_cases hj : j ≠ i ∨ boot ≠ (t.nodes i).boot
    · exact hi.records j boot hj ▸ h.sorted j boot
    · simp only [not_or, not_not] at hj
      obtain ⟨rfl, rfl⟩ := hj
      exact (List.pairwise_append.mp happ.order).1

lemma applierInv {C : Cluster ι σ ρ → Event ι → Prop} (h : Reachable cfg C s) : ApplierInv cfg s :=
  Library.Runs.Run.invariant
    (fun _ _ _ hi _ hs => hi.service (step_change_free hs).service) h (init_applierInv cfg)

end Cluster

end DistributedStorage.Raft

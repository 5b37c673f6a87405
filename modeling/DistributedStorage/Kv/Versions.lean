import DistributedStorage.Kv.Servicer
import DistributedStorage.Kv.Sessions

/-! The history of a key: its versions count the writes, and a compare-and-swap by version replaces the
write that it names. -/

namespace DistributedStorage.Kv

open Library Raft

/-- What an executed entry does to a key. -/
inductive Effect
  | wrote (value : Bytes) (version : ℤ)
  | deleted
  deriving DecidableEq

def Effect.version : Effect → Option ℤ
  | .wrote _ v => some v
  | .deleted => none

/-- The effect on `key` of an entry that was executed with result `r`. -/
def effectOn (key : String) (e : Entry) (r : Result) : Option Effect :=
  if e.filename = key then
    match e.opType with
    | .put => some (.wrote e.data (intField r "version"))
    | .delete => if boolField r "existed" then some .deleted else none
    | .cas =>
      if boolField r "swapped" then some (.wrote (bytesField r "current") (intField r "version"))
      else none
    | _ => none
  else none

namespace Tables

variable {loads : Bytes → Except String CasSpec} {t : Tables} {e : Entry} {key : String}

/-- The version that the next write of a key gets. -/
def nextVersion (t : Tables) (key : String) : ℕ :=
  match t.store.get key with
  | some cur => cur.version + 1
  | none => (t.tombstones.get key).getD 0 + 1

lemma write_version (t : Tables) (key : String) (value : Bytes) :
    (t.write key value).2 = t.nextVersion key := by
  rw [write, nextVersion]
  cases t.store.get key <;> rfl

lemma write_store (t : Tables) (key key' : String) (value : Bytes) :
    (t.write key value).1.store.get key' =
      if key = key' then some ⟨value, t.nextVersion key⟩ else t.store.get key' := by
  rw [write, nextVersion]
  cases t.store.get key <;> exact OrderedDict.get_set (t.store) key key' _

lemma write_tombstones (t : Tables) (key key' : String) (value : Bytes) :
    (t.write key value).1.tombstones.get key' =
      if key = key' ∧ t.store.get key = none then none else t.tombstones.get key' := by
  rw [write]
  cases hs : t.store.get key with
  | some cur => simp
  | none => simp [OrderedDict.get_erase]

/-- What becomes of one key in a step. -/
inductive KeyStep (key : String) (t t' : Tables) : Option Effect → Prop
  | kept : t'.store.get key = t.store.get key → t'.tombstones.get key = t.tombstones.get key →
      KeyStep key t t' none
  | wrote (value : Bytes) : t'.store.get key = some ⟨value, t.nextVersion key⟩ →
      (t.store.get key = none → t'.tombstones.get key = none) →
      (t.store.get key ≠ none → t'.tombstones.get key = t.tombstones.get key) →
      KeyStep key t t' (some (.wrote value (t.nextVersion key)))
  | deleted (cur : Cell) : t.store.get key = some cur → t'.store.get key = none →
      t'.tombstones.get key = some cur.version → KeyStep key t t' (some .deleted)

lemma KeyStep.write_self (t : Tables) (key : String) (value : Bytes) :
    KeyStep key t (t.write key value).1 (some (.wrote value (t.nextVersion key))) := by
  apply KeyStep.wrote
  · rw [write_store, if_pos rfl]
  · intro hs
    rw [write_tombstones, if_pos ⟨rfl, hs⟩]
  · intro hs
    rw [write_tombstones, if_neg fun h => hs h.2]

lemma KeyStep.write_of_ne (t : Tables) {key key' : String} (value : Bytes) (h : key ≠ key') :
    KeyStep key' t (t.write key value).1 none := by
  apply KeyStep.kept
  · rw [write_store, if_neg h]
  · rw [write_tombstones, if_neg fun hk => h hk.1]

/-- What an executed entry reports of a key is what becomes of it. -/
lemma applyOp_keyStep {r : Result} (key : String) (h : (t.applyOp loads e).2 = .ok r) :
    KeyStep key t (t.applyOp loads e).1 (effectOn key e r) := by
  by_cases hkey : e.filename = key
  · subst hkey
    rw [effectOn, if_pos rfl]
    cases hop : e.opType with
    | put =>
      simp only [applyOp, hop] at h ⊢
      cases h
      have hstep := KeyStep.write_self t e.filename e.data
      rw [← write_version t e.filename e.data] at hstep
      exact hstep
    | delete =>
      simp only [applyOp, hop] at h ⊢
      cases hs : t.store.get e.filename with
      | some cur =>
        simp only [hs] at h ⊢
        cases h
        exact .deleted cur hs (OrderedDict.get_erase_self ..) (OrderedDict.get_set_self ..)
      | none =>
        simp only [hs] at h ⊢
        cases h
        exact .kept rfl rfl
    | cas =>
      simp only [applyOp, hop] at h ⊢
      cases hl : loads e.data with
      | error exc =>
        simp only [hl] at h
        cases h
      | ok spec =>
        simp only [hl] at h ⊢
        by_cases hc : casCondition spec (t.store.get e.filename) = true
        · rw [if_pos hc] at h ⊢
          cases h
          have hstep := KeyStep.write_self t e.filename spec.newValue
          rw [← write_version t e.filename spec.newValue] at hstep
          exact hstep
        · rw [if_neg hc] at h ⊢
          cases h
          exact .kept rfl rfl
    | noop | create | write | snapshot | other name =>
      simp only [applyOp, hop] at h ⊢
      exact .kept rfl rfl
  · rw [effectOn, if_neg hkey]
    cases hop : e.opType with
    | put =>
      simp only [applyOp, hop]
      exact KeyStep.write_of_ne t e.data hkey
    | delete =>
      simp only [applyOp, hop]
      cases hs : t.store.get e.filename with
      | some cur =>
        apply KeyStep.kept
        · rw [OrderedDict.get_erase, if_neg hkey]
        · rw [OrderedDict.get_set, if_neg hkey]
      | none => exact .kept rfl rfl
    | cas =>
      simp only [applyOp, hop]
      split
      · exact .kept rfl rfl
      · split_ifs with hc
        · exact KeyStep.write_of_ne t _ hkey
        · exact .kept rfl rfl
    | noop | create | write | snapshot | other name =>
      simp only [applyOp, hop]
      exact .kept rfl rfl

end Tables

variable (loads : Bytes → Except String CasSpec)

instance (m : KVStateMachine) (e : Entry) : Decidable (Unanswered m e) :=
  inferInstanceAs (Decidable (_ → _))

/-- The effect on `key` of applying an entry: none when the session table answers it, or it raises. -/
def effectAt (key : String) (m : KVStateMachine) (e : Entry) : Option Effect :=
  if Unanswered m e then
    match (m.apply loads e).2 with
    | .ok r => effectOn key e r
    | .error _ => none
  else none

def effects (key : String) (m : KVStateMachine) : List Entry → List Effect
  | [] => []
  | e :: es => (effectAt loads key m e).toList ++ effects key (m.apply loads e).1 es

/-- The versions that the writes of a key are assigned, in turn. -/
def versions (key : String) (m : KVStateMachine) (es : List Entry) : List ℤ :=
  (effects loads key m es).filterMap Effect.version

variable {loads} {key : String} {m : KVStateMachine} {es : List Entry} {e : Entry}

lemma effects_concat : effects loads key m (es ++ [e]) =
    effects loads key m es ++ (effectAt loads key (m.run loads es) e).toList := by
  induction es generalizing m with
  | nil => simp [effects, KVStateMachine.run]
  | cons f es ih =>
    rw [List.cons_append, effects, ih, effects, List.append_assoc]
    rfl

lemma versions_concat : versions loads key m (es ++ [e]) =
    versions loads key m es ++ ((effectAt loads key (m.run loads es) e).bind Effect.version).toList := by
  rw [versions, effects_concat, List.filterMap_append, ← versions]
  cases effectAt loads key (m.run loads es) e with
  | none => rfl
  | some f => cases f <;> rfl

lemma remember_tables (m : KVStateMachine) (c : String) (seq : ℤ) (r : Result) :
    (m.remember c seq r).toTables = m.toTables := rfl

/-- An entry that the session table has no answer for does what its operation does. -/
lemma apply_unanswered (loads : Bytes → Except String CasSpec) (hop : e.opType ≠ .snapshot) (hu : Unanswered m e) :
    (m.apply loads e).1.toTables = (m.toTables.applyOp loads e).1 ∧
      (m.apply loads e).2 = (m.toTables.applyOp loads e).2 := by
  have hout := m.outcome loads hop
  generalize m.apply loads e = out at hout
  obtain ⟨m', result⟩ := out
  dsimp only at hout ⊢
  cases hout with
  | answered r ht hr =>
    rw [hu ht] at hr
    cases hr
  | raised exc _ hr =>
    exact ⟨(Tables.applyOp_error (Prod.ext rfl hr)).symm, hr.symm⟩
  | applied r _ hr =>
    refine ⟨?_, hr.symm⟩
    split_ifs
    · rfl
    · rfl

lemma apply_answered (hop : e.opType ≠ .snapshot) (hu : ¬Unanswered m e) : (m.apply loads e).1 = m := by
  have hout := m.outcome loads hop
  generalize m.apply loads e = out at hout
  obtain ⟨m', result⟩ := out
  dsimp only at hout ⊢
  cases hout with
  | answered r ht hr => rfl
  | raised exc hnew hr => exact (hu hnew).elim
  | applied r hnew hr => exact (hu hnew).elim

lemma effectAt_eq_some {f : Effect} (hop : e.opType ≠ .snapshot) : effectAt loads key m e = some f ↔
    ∃ r, Unanswered m e ∧ (m.toTables.applyOp loads e).2 = .ok r ∧ effectOn key e r = some f := by
  rw [effectAt]
  by_cases hu : Unanswered m e
  · rw [if_pos hu, (apply_unanswered loads hop hu).2]
    cases (m.toTables.applyOp loads e).2 with
    | error exc => simp
    | ok r => simp [hu]
  · simp [hu]

/-- Applying an entry moves a key by the entry's effect on it. -/
lemma apply_keyStep (key : String) (hop : e.opType ≠ .snapshot) :
    Tables.KeyStep key m.toTables (m.apply loads e).1.toTables (effectAt loads key m e) := by
  by_cases hu : Unanswered m e
  · obtain ⟨htables, hresult⟩ := apply_unanswered loads hop hu
    rw [effectAt, if_pos hu, hresult, htables]
    cases hr : (m.toTables.applyOp loads e).2 with
    | error exc =>
      have hsame : (m.toTables.applyOp loads e).1 = m.toTables := Tables.applyOp_error (Prod.ext rfl hr)
      rw [hsame]
      exact .kept rfl rfl
    | ok r => exact Tables.applyOp_keyStep key hr
  · rw [effectAt, if_neg hu, apply_answered hop hu]
    exact .kept rfl rfl

/-- The versions of a key are 1, 2, 3 and so on, and the last one is kept in one place. -/
structure Counted (key : String) (vs : List ℤ) (t : Tables) : Prop where
  consecutive : vs = (List.range vs.length).map fun i : ℕ => (i + 1 : ℤ)
  next : t.nextVersion key = vs.length + 1
  single : t.store.get key = none ∨ t.tombstones.get key = none

lemma Counted.step {vs : List ℤ} {t t' : Tables} {f : Option Effect} (h : Counted key vs t)
    (hs : Tables.KeyStep key t t' f) : Counted key (vs ++ (f.bind Effect.version).toList) t' := by
  cases hs with
  | kept hstore htombs =>
    have hnext : t'.nextVersion key = t.nextVersion key := by
      rw [Tables.nextVersion, Tables.nextVersion, hstore, htombs]
    rw [Option.bind_none, Option.toList_none, List.append_nil]
    exact ⟨h.consecutive, hnext.trans h.next, by rw [hstore, htombs]; exact h.single⟩
  | wrote value hstore habsent hpresent =>
    rw [Option.bind_some, Effect.version, Option.toList_some]
    refine ⟨?_, ?_, .inr ?_⟩
    · rw [List.length_append, List.length_singleton, List.range_succ, List.map_append, ← h.consecutive,
        h.next]
      simp
    · rw [Tables.nextVersion, hstore, List.length_append, List.length_singleton, ← h.next]
    · rcases h.single with hs | ht
      · exact habsent hs
      · by_cases hs : t.store.get key = none
        · exact habsent hs
        · rw [hpresent hs, ht]
  | deleted cur hcur hstore htombs =>
    rw [Option.bind_some, Effect.version, Option.toList_none, List.append_nil]
    refine ⟨h.consecutive, ?_, .inl hstore⟩
    rw [← h.next, Tables.nextVersion, Tables.nextVersion, hstore, htombs, hcur]
    rfl

lemma run_counted (loads : Bytes → Except String CasSpec) (M : ℕ) (key : String)
    (hop : ∀ e ∈ es, e.opType ≠ .snapshot) : Counted key (versions loads key (.init M) es)
      ((KVStateMachine.init M).run loads es).toTables := by
  induction es using List.reverseRecOn with
  | nil => exact ⟨rfl, rfl, .inl rfl⟩
  | append_singleton es e ih =>
    rw [versions_concat, KVStateMachine.run_concat]
    exact (ih fun f hf => hop f (List.mem_append_left _ hf)).step (apply_keyStep key (hop e (by simp)))

lemma Counted.version {vs : List ℤ} {t : Tables} {c : Cell} (h : Counted key vs t)
    (hc : t.store.get key = some c) : c.version = vs.length := by
  have hnext := h.next
  rw [Tables.nextVersion, hc] at hnext
  exact Nat.add_right_cancel hnext

/-- Over a key's life its writes are numbered from 1 on without a gap, and it is never in the store and
among the tombstones at once. -/
theorem versions_never_repeat (loads : Bytes → Except String CasSpec) (M : ℕ) (es : List Entry)
    (hop : ∀ e ∈ es, e.opType ≠ .snapshot) (key : String) :
    versions loads key (.init M) es =
      (List.range (versions loads key (.init M) es).length).map (fun i : ℕ => (i + 1 : ℤ)) ∧
    ∀ pre, pre <+: es → (((KVStateMachine.init M).run loads pre).store.get key = none ∨
      ((KVStateMachine.init M).run loads pre).tombstones.get key = none) ∧
      ∀ c, ((KVStateMachine.init M).run loads pre).store.get key = some c →
        c.version = (versions loads key (.init M) pre).length := by
  refine ⟨(run_counted loads M key hop).consecutive, fun pre hpre => ?_⟩
  have hcount := run_counted loads M key fun e he => hop e (hpre.subset he)
  exact ⟨hcount.single, fun c hc => hcount.version hc⟩

def created : Entry := ⟨1, 2, .put, "k", [1], "", 0⟩

def deleted : Entry := ⟨1, 3, .delete, "k", [], "", 0⟩

theorem versions_never_repeat_recreated :
    versions noCas "k" (.init 1) [created, created, deleted, created] = [1, 2, 3] := by
  have hall := (versions_never_repeat noCas 1 [created, created, deleted, created] (by decide) "k").1
  have hlen : (versions noCas "k" (.init 1) [created, created, deleted, created]).length = 3 := by
    decide +kernel
  rw [hlen] at hall
  exact hall

/-- An entry that asks to replace version `v` of `key`. -/
structure VersionCas (loads : Bytes → Except String CasSpec) (key : String) (v : ℚ) (e : Entry) : Prop where
  opType : e.opType = .cas
  filename : e.filename = key
  data : ∃ spec, loads e.data = .ok spec ∧ spec.expectAbsent = false ∧ spec.expectedVersion = v

variable {M : ℕ} {pre : List Entry} {r : Result} {v : ℚ}

lemma ExecutedAt.effectAt (key : String) (hop : e.opType ≠ .snapshot) (h : ExecutedAt loads M pre e r) :
    effectAt loads key ((KVStateMachine.init M).run loads pre) e = effectOn key e r := by
  rw [Kv.effectAt, if_pos h.unanswered, (apply_unanswered loads hop h.unanswered).2, h.result]

lemma ExecutedAt.keyStep (key : String) (hop : e.opType ≠ .snapshot) (h : ExecutedAt loads M pre e r) :
    Tables.KeyStep key ((KVStateMachine.init M).run loads pre).toTables
      ((KVStateMachine.init M).run loads (pre ++ [e])).toTables (effectOn key e r) := by
  rw [← h.effectAt key hop, KVStateMachine.run_concat]
  exact apply_keyStep key hop

/-- The cell of a key that is present is the one of the last effect on it. -/
lemma last_write {c : Cell} (hop : ∀ e ∈ es, e.opType ≠ .snapshot)
    (h : ((KVStateMachine.init M).run loads es).store.get key = some c) :
    ∃ first f r, first ++ [f] <+: es ∧ ExecutedAt loads M first f r ∧
      effectOn key f r = some (.wrote c.value c.version) ∧
      ∀ mid g r', first ++ [f] <+: mid → mid ++ [g] <+: es → ExecutedAt loads M mid g r' →
        effectOn key g r' = none := by
  induction es using List.reverseRecOn with
  | nil => cases h
  | append_singleton es e ih =>
    have hop' : ∀ f ∈ es, f.opType ≠ .snapshot := fun f hf => hop f (List.mem_append_left _ hf)
    have he : e.opType ≠ .snapshot := hop e (by simp)
    have hstep : Tables.KeyStep key ((KVStateMachine.init M).run loads es).toTables
        (((KVStateMachine.init M).run loads es).apply loads e).1.toTables
        (effectAt loads key ((KVStateMachine.init M).run loads es) e) := apply_keyStep key he
    rw [KVStateMachine.run_concat] at h
    cases hf : effectAt loads key ((KVStateMachine.init M).run loads es) e with
    | none =>
      rw [hf] at hstep
      cases hstep with
      | kept hstore htombs =>
        rw [hstore] at h
        obtain ⟨first, f, r, hfirst, hex, hwrote, hquiet⟩ := ih hop' h
        refine ⟨first, f, r, hfirst.trans (List.prefix_append _ _), hex, hwrote, ?_⟩
        intro mid g r' hmid hg hexg
        rcases List.prefix_concat_iff.mp hg with heq | hg
        · obtain ⟨rfl, hge⟩ := List.append_inj' heq rfl
          obtain rfl : g = e := List.singleton_injective hge
          rw [← hexg.effectAt key he, hf]
        · exact hquiet mid g r' hmid hg hexg
    | some eff =>
      obtain ⟨r, hu, hr, heff⟩ := (effectAt_eq_some he).mp hf
      rw [hf] at hstep
      cases hstep with
      | wrote value hstore habsent hpresent =>
        rw [hstore] at h
        cases h
        refine ⟨es, e, r, List.prefix_rfl, ⟨hu, hr⟩, heff, fun mid g r' hmid hg => ?_⟩
        have hlong := hmid.length_le
        have hshort := hg.length_le
        rw [List.length_append] at hshort
        simp only [List.length_singleton] at hshort
        omega
      | deleted cur hcur hstore htombs =>
        rw [hstore] at h
        cases h

lemma VersionCas.applyOp {t : Tables} (hv : 0 < v) (h : VersionCas loads key v e)
    (hr : (t.applyOp loads e).2 = .ok r) :
    (boolField r "swapped" = true ∧ (∃ c, t.store.get key = some c ∧ (c.version : ℚ) = v) ∧
      ∃ value, effectOn key e r = some (.wrote value (t.nextVersion key))) ∨
    (boolField r "swapped" = false ∧ (t.applyOp loads e).1 = t ∧
      bytesField r "current" = ((t.store.get key).map Cell.value).getD [] ∧
      intField r "version" = ((t.store.get key).map Cell.version).getD 0) := by
  obtain ⟨spec, hload, habsent, hspec⟩ := h.data
  have hkey := h.filename
  subst hkey
  simp only [Tables.applyOp, h.opType, hload] at hr ⊢
  have hcond : Tables.casCondition spec (t.store.get e.filename) = true ↔
      ∃ c, t.store.get e.filename = some c ∧ (c.version : ℚ) = v := by
    rw [Tables.casCondition, habsent, hspec, if_neg Bool.false_ne_true, if_pos hv, Option.any_eq_true]
    simp
  by_cases hc : Tables.casCondition spec (t.store.get e.filename) = true
  · rw [if_pos hc] at hr ⊢
    cases hr
    refine .inl ⟨rfl, hcond.mp hc, spec.newValue, ?_⟩
    rw [← Tables.write_version t e.filename spec.newValue, effectOn, if_pos rfl, h.opType]
    rfl
  · rw [if_neg hc] at hr ⊢
    cases hr
    exact .inr ⟨rfl, rfl, rfl, rfl⟩

/-- Versions only grow: a swap at version `v` leaves no room for another. -/
lemma VersionCas.unique {pre' : List Entry} {e' : Entry} {r' : Result}
    (hop : ∀ e ∈ es, e.opType ≠ .snapshot) (hv : 0 < v) (hpre : pre ++ [e] <+: es)
    (hpre' : pre' ++ [e'] <+: es) (h : VersionCas loads key v e) (h' : VersionCas loads key v e')
    (hex : ExecutedAt loads M pre e r) (hex' : ExecutedAt loads M pre' e' r')
    (hs : boolField r "swapped" = true) (hs' : boolField r' "swapped" = true) :
    ¬pre.length < pre'.length := by
  intro hlt
  have hsub : pre ++ [e] <+: pre' := by
    refine List.prefix_of_prefix_length_le hpre ((List.prefix_append _ _).trans hpre') ?_
    rw [List.length_append, List.length_singleton]
    exact hlt
  have hcount : ∀ {p : List Entry}, p <+: es → Counted key (versions loads key (.init M) p)
      ((KVStateMachine.init M).run loads p).toTables :=
    fun hp => run_counted loads M key fun e he => hop e (hp.subset he)
  have hversion : ∀ {p : List Entry} {f : Entry} {q : Result}, p ++ [f] <+: es →
      VersionCas loads key v f → ExecutedAt loads M p f q → boolField q "swapped" = true →
      ((versions loads key (.init M) p).length : ℚ) = v ∧
        (versions loads key (.init M) (p ++ [f])).length = (versions loads key (.init M) p).length + 1 := by
    intro p f q hp hcas hexec hswap
    rcases hcas.applyOp hv hexec.result with ⟨-, ⟨c, hc, hcv⟩, value, heff⟩ | ⟨hno, -⟩
    · have hlen := (hcount ((List.prefix_append _ _).trans hp)).version hc
      refine ⟨by rw [← hlen]; exact hcv, ?_⟩
      rw [versions_concat, hexec.effectAt key (hop f (hp.subset (by simp))), heff, List.length_append]
      rfl
    · rw [hswap] at hno
      cases hno
  obtain ⟨hat, hafter⟩ := hversion hpre h hex hs
  obtain ⟨hat', -⟩ := hversion hpre' h' hex' hs'
  have hmono : ∀ p q : List Entry, (versions loads key (.init M) p).length ≤
      (versions loads key (.init M) (p ++ q)).length := by
    intro p q
    induction q using List.reverseRecOn with
    | nil => rw [List.append_nil]
    | append_singleton q x ih =>
      rw [← List.append_assoc, versions_concat, List.length_append]
      exact ih.trans (Nat.le_add_right _ _)
  obtain ⟨rest, rfl⟩ := hsub
  have hle := hmono (pre ++ [e]) rest
  have heq : (versions loads key (.init M) pre).length =
      (versions loads key (.init M) (pre ++ [e] ++ rest)).length := by exact_mod_cast hat.trans hat'.symm
  omega

/-- No update is lost between a version and the CAS that replaces it. -/
theorem version_cas_loses_no_update (loads : Bytes → Except String CasSpec) (M : ℕ) (es : List Entry)
    (hop : ∀ e ∈ es, e.opType ≠ .snapshot) (key : String) (v : ℚ) (hv : 0 < v) :
    (∀ pre e r pre' e' r', pre ++ [e] <+: es → pre' ++ [e'] <+: es → VersionCas loads key v e →
      VersionCas loads key v e' → ExecutedAt loads M pre e r → ExecutedAt loads M pre' e' r' →
      boolField r "swapped" = true → boolField r' "swapped" = true → pre = pre' ∧ e = e') ∧
    ∀ pre e r, pre ++ [e] <+: es → VersionCas loads key v e → ExecutedAt loads M pre e r →
      (boolField r "swapped" = true → ∃ first f r' value, ∃ n : ℕ, (n : ℚ) = v ∧
        first ++ [f] <+: pre ∧ ExecutedAt loads M first f r' ∧
        effectOn key f r' = some (.wrote value n) ∧
        (∀ mid g r'', first ++ [f] <+: mid → mid ++ [g] <+: pre → ExecutedAt loads M mid g r'' →
          effectOn key g r'' = none) ∧
        ((KVStateMachine.init M).run loads pre).get key = (some value, n, true)) ∧
      (boolField r "swapped" = false →
        ((KVStateMachine.init M).run loads (pre ++ [e])).toTables =
          ((KVStateMachine.init M).run loads pre).toTables ∧
        bytesField r "current" = (((KVStateMachine.init M).run loads pre).get key).1.getD [] ∧
        intField r "version" = (((KVStateMachine.init M).run loads pre).get key).2.1) := by
  refine ⟨?_, ?_⟩
  · intro pre e r pre' e' r' hpre hpre' h h' hex hex' hs hs'
    have hle := VersionCas.unique hop hv hpre' hpre h' h hex' hex hs' hs
    have hge := VersionCas.unique hop hv hpre hpre' h h' hex hex' hs hs'
    have hlen : pre.length = pre'.length := by omega
    have hboth : pre ++ [e] = pre' ++ [e'] := by
      apply (List.prefix_of_prefix_length_le hpre hpre' _).eq_of_length
      · simp [hlen]
      · simp [hlen]
    obtain ⟨hp, he⟩ := List.append_inj' hboth rfl
    exact ⟨hp, List.singleton_injective he⟩
  · intro pre e r hpre h hex
    have hop' : ∀ f ∈ pre, f.opType ≠ .snapshot := fun f hf => hop f (hpre.subset (by simp [hf]))
    have he : e.opType ≠ .snapshot := hop e (hpre.subset (by simp))
    rcases h.applyOp hv hex.result with ⟨hs, ⟨c, hc, hcv⟩, -⟩ | ⟨hs, hsame, hcur, hver⟩
    · refine ⟨fun _ => ?_, fun hno => (Bool.eq_false_iff.mp hno hs).elim⟩
      obtain ⟨first, f, r', hfirst, hexf, hwrote, hquiet⟩ := last_write hop' hc
      refine ⟨first, f, r', c.value, c.version, hcv, hfirst, hexf, hwrote, hquiet, ?_⟩
      rw [KVStateMachine.get, hc]
    · refine ⟨fun hyes => (Bool.eq_false_iff.mp hs hyes).elim, fun _ => ⟨?_, ?_, ?_⟩⟩
      · rw [KVStateMachine.run_concat, (apply_unanswered loads he hex.unanswered).1, hsame]
      · rw [hcur, KVStateMachine.get]
        cases ((KVStateMachine.init M).run loads pre).store.get key with
        | none => rfl
        | some c => rfl
      · rw [hver, KVStateMachine.get]
        cases ((KVStateMachine.init M).run loads pre).store.get key with
        | none => rfl
        | some c => rfl

/-- A client replaces version 1; another one comes too late. -/
def replacing (clientId : String) (value : Bytes) : Entry := ⟨1, 3, .cas, "k", value, clientId, 1⟩

def atVersionOne (data : Bytes) : Except String CasSpec := .ok ⟨false, 1, [], data⟩

theorem version_cas_loses_no_update_replaced :
    ∃ f r value, ∃ n : ℕ, (n : ℚ) = 1 ∧ ExecutedAt atVersionOne 2 [] f r ∧
      effectOn "k" f r = some (.wrote value n) ∧
      ((KVStateMachine.init 2).run atVersionOne [created]).get "k" = (some value, n, true) := by
  have hcas : VersionCas atVersionOne "k" 1 (replacing "a" [2]) := ⟨rfl, rfl, _, rfl, rfl, rfl⟩
  have hex : ExecutedAt atVersionOne 2 [created] (replacing "a" [2])
      (.ofPairs [("success", .bool true), ("swapped", .bool true), ("current", .bytes [2]),
        ("version", .int 2)]) := ⟨fun _ => rfl, by decide +kernel⟩
  obtain ⟨-, hall⟩ := version_cas_loses_no_update atVersionOne 2
    [created, replacing "a" [2], replacing "b" [3]] (by decide) "k" 1 (by norm_num)
  obtain ⟨first, f, r', value, n, hn, hfirst, hexf, hwrote, -, hget⟩ :=
    (hall [created] (replacing "a" [2]) _ (by simp) hcas hex).1 rfl
  obtain rfl : first = [] := by
    have hlen := hfirst.length_le
    simpa using hlen
  exact ⟨f, r', value, n, hn, hexf, hwrote, hget⟩

end DistributedStorage.Kv

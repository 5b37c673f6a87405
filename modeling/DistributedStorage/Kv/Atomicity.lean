import DistributedStorage.Kv.Objects

/-! An exception in `apply`: when it leaves the three tables as they were. -/

set_option linter.unusedSectionVars false

namespace DistributedStorage.Kv

open Library Raft

variable {F : Type} [Floats F] [DecidableEq F]

lemma Obj.succ_eq_none {o : Obj F} : o.succ = Option.none ↔ o.isNumber = false := by
  cases o <;> simp [Obj.succ, Obj.isNumber]

namespace ObjTables

variable {loads : String → Option (Obj F)} {m : ObjTables F} {entry : Entry}

/-- The last version that `key` had, if it has been deleted, is a number. -/
def Recreatable (m : ObjTables F) (key : String) : Prop :=
  m.store.get key = none → ∀ version ∈ m.tombstones.get (.str key), version.isNumber = true

lemma erase_eq_self {κ α : Type} [DecidableEq κ] {d : OrderedDict κ α} {k : κ} :
    d.erase k = d ↔ d.get k = none := by
  constructor
  · intro h
    rw [← h, OrderedDict.get_erase_self]
  · intro h
    apply OrderedDict.ext_items
    exact OrderedDict.remove_of_notMem (OrderedDict.get_eq_none.mp h)

/-- A write that raises has taken the number of the deleted key away, unless there was none. -/
lemma write_raises (m : ObjTables F) (key : String) (value : Bytes) :
    ((m.write key value).2 = none → (m.write key value).1 = m) ↔ m.Recreatable key := by
  rw [Recreatable, write]
  cases hcur : m.store.get key with
  | some cur =>
    cases hsucc : cur.version.succ with
    | some version => simp [hsucc]
    | none => simp [hsucc]
  | none =>
    cases htomb : m.tombstones.get (.str key) with
    | none => simp [Obj.succ]
    | some version =>
      rw [Option.getD_some]
      cases hsucc : version.succ with
      | some next =>
        have hnumber : version.isNumber = true := by
          by_contra hno
          rw [Bool.not_eq_true, ← Obj.succ_eq_none, hsucc] at hno
          cases hno
        simp [hnumber]
      | none =>
        have hnumber : version.isNumber = false := Obj.succ_eq_none.mp hsucc
        have hmoved : { m with tombstones := m.tombstones.erase (.str key) } ≠ m := by
          intro hsame
          have hget := erase_eq_self.mp (congrArg ObjTables.tombstones hsame)
          rw [htomb] at hget
          cases hget
        simp [hnumber, hmoved]

/-- The operation assigns its key a value. -/
def Writes (loads : String → Option (Obj F)) (m : ObjTables F) (entry : Entry) : Prop :=
  entry.opType = .put ∨ entry.opType = .cas ∧
    ∃ spec, decodeSpec loads entry.data = some spec ∧ casCondition spec (m.store.get entry.filename) = some true

lemma applyOp_writes (h : m.Writes loads entry) : ∃ value,
    (m.applyOp loads entry).1 = (m.write entry.filename value).1 ∧
      ((m.applyOp loads entry).2 = none ↔ (m.write entry.filename value).2 = none) := by
  obtain hput | ⟨hcas, spec, hspec, hcond⟩ := h
  · refine ⟨entry.data, ?_, ?_⟩
    · simp only [applyOp, hput]
    · simp only [applyOp, hput, Option.map_eq_none_iff]
  · refine ⟨spec.newValue, ?_, ?_⟩
    · simp only [applyOp, hcas, hspec, hcond]
    · simp only [applyOp, hcas, hspec, hcond, Option.map_eq_none_iff]

/-- Whatever else raises does so before it changes a table. -/
lemma applyOp_others (h : ¬ m.Writes loads entry) (hraised : (m.applyOp loads entry).2 = none) :
    (m.applyOp loads entry).1 = m := by
  rw [Writes, not_or] at h
  cases hop : entry.opType with
  | put => exact (h.1 hop).elim
  | delete =>
    simp only [applyOp, hop] at hraised
    cases hcur : m.store.get entry.filename with
    | some cur =>
      rw [hcur] at hraised
      cases hraised
    | none =>
      rw [hcur] at hraised
      cases hraised
  | cas =>
    simp only [applyOp, hop]
    cases hspec : decodeSpec loads entry.data with
    | none => rfl
    | some spec =>
      dsimp only
      cases hcond : casCondition spec (m.store.get entry.filename) with
      | none => rfl
      | some met =>
        cases met with
        | true => exact (h.2 ⟨hop, spec, hspec, hcond⟩).elim
        | false => rfl
  | _ => simp only [applyOp, hop]

lemma applyOp_raises (loads : String → Option (Obj F)) (m : ObjTables F) (entry : Entry) :
    ((m.applyOp loads entry).2 = none → (m.applyOp loads entry).1 = m) ↔
      (m.Writes loads entry → m.Recreatable entry.filename) := by
  by_cases hw : m.Writes loads entry
  · obtain ⟨value, htables, hraised⟩ := applyOp_writes hw
    rw [htables, hraised, m.write_raises entry.filename value]
    exact (imp_iff_right hw).symm
  · exact ⟨fun _ hwrites => (hw hwrites).elim, fun _ => applyOp_others hw⟩

end ObjTables

namespace ObjMachine

variable {loads : String → Option (Obj F)} {m : ObjMachine F}

/-- The tables after the call are the tables before it. -/
def SameTables (m m' : ObjMachine F) : Prop :=
  m'.store = m.store ∧ m'.tombstones = m.tombstones ∧ m'.sessions = m.sessions

/-- If a part of the blob cannot be read, the parts assigned before it are what the machine has already. -/
def Keeps (m : ObjMachine F) (blob : OrderedDict String (Obj F)) : Prop :=
  ∀ store ∈ restoreStore blob, (restoreTombstones blob = none → store = m.store) ∧
    ∀ tombstones ∈ restoreTombstones blob, restoreSessions blob = none →
      store = m.store ∧ tombstones = m.tombstones

lemma restore_raises (loads : String → Option (Obj F)) (m : ObjMachine F) (data : Bytes) :
    ((m.restore loads data).2 = false → m.SameTables (m.restore loads data).1) ↔
      ∀ blob ∈ loadBlob loads data, m.Keeps blob := by
  cases hblob : loadBlob loads data with
  | none => simp [restore, hblob, SameTables]
  | some blob =>
    simp only [Option.mem_def, Option.some.injEq, forall_eq', Keeps]
    cases hstore : restoreStore blob with
    | none => simp [restore, hblob, hstore, SameTables]
    | some store =>
      cases htombs : restoreTombstones blob with
      | none => simp [restore, hblob, hstore, htombs, SameTables]
      | some tombstones =>
        cases hsessions : restoreSessions blob with
        | none => simp [restore, hblob, hstore, htombs, hsessions, SameTables]
        | some sessions => simp [restore, hblob, hstore, htombs, hsessions]

/-- No answer to the entry is in the session table, and looking for one does not raise. -/
def Unanswered (m : ObjMachine F) (entry : ApplyEntry) : Prop :=
  Tracked entry.clientId entry.seqNum → m.sessionResult entry.clientId entry.seqNum = some none

/-- When an exception in `apply` leaves the tables alone. -/
def Atomic (loads : String → Option (Obj F)) (m : ObjMachine F) (entry : ApplyEntry) : Prop :=
  if entry.opType = .snapshot then ∀ data ∈ entry.snapshotData, ∀ blob ∈ loadBlob loads data, m.Keeps blob
  else m.Unanswered entry → m.Writes loads entry.toEntry → m.Recreatable entry.filename

lemma apply_snapshot {entry : ApplyEntry} (hop : entry.opType = .snapshot) :
    ((m.apply loads entry).2 = none → m.SameTables (m.apply loads entry).1) ↔
      ∀ data ∈ entry.snapshotData, ∀ blob ∈ loadBlob loads data, m.Keeps blob := by
  rw [apply, if_pos hop]
  cases entry.snapshotData with
  | none => simp [SameTables]
  | some data =>
    have hrestore := m.restore_raises loads data
    cases hout : (m.restore loads data).2 with
    | true => simpa [hout] using hrestore
    | false => simpa [hout] using hrestore

lemma apply_answered {entry : ApplyEntry} (hop : entry.opType ≠ .snapshot) (hu : ¬ m.Unanswered entry) :
    (m.apply loads entry).1 = m := by
  rw [Unanswered, Classical.not_imp] at hu
  rw [apply, if_neg hop, if_pos hu.1]
  cases hsession : m.sessionResult entry.clientId entry.seqNum with
  | none => rfl
  | some cached =>
    cases cached with
    | none => exact (hu.2 hsession).elim
    | some result => rfl

lemma apply_unanswered (loads : String → Option (Obj F)) {entry : ApplyEntry} (hop : entry.opType ≠ .snapshot)
    (hu : m.Unanswered entry) :
    ((m.apply loads entry).2 = none ↔ (m.toObjTables.applyOp loads entry.toEntry).2 = none) ∧
      ((m.apply loads entry).2 = none → (m.apply loads entry).1 =
        { m with toObjTables := (m.toObjTables.applyOp loads entry.toEntry).1 }) := by
  have hsession : (if Tracked entry.clientId entry.seqNum then m.sessionResult entry.clientId entry.seqNum
      else some none) = some none := by
    split_ifs with ht
    · exact hu ht
    · rfl
  rw [apply, if_neg hop, hsession]
  dsimp only
  generalize m.toObjTables.applyOp loads entry.toEntry = out
  obtain ⟨tables, result⟩ := out
  cases result with
  | none => exact ⟨Iff.rfl, fun _ => rfl⟩
  | some result => exact ⟨by simp, fun h => by cases h⟩

/-- An exception leaves the store, the tombstones and the sessions as they were exactly when no part of a
snapshot was assigned that differs from what a table held, and no write took a number away that 1 cannot be
added to. -/
theorem apply_atomic_iff (loads : String → Option (Obj F)) (m : ObjMachine F) (entry : ApplyEntry) :
    ((m.apply loads entry).2 = none → m.SameTables (m.apply loads entry).1) ↔ m.Atomic loads entry := by
  rw [Atomic]
  split_ifs with hop
  · exact apply_snapshot hop
  by_cases hu : m.Unanswered entry
  swap
  · rw [apply_answered hop hu]
    exact ⟨fun _ h => (hu h).elim, fun _ _ => ⟨rfl, rfl, rfl⟩⟩
  obtain ⟨hraised, hout⟩ := apply_unanswered loads hop hu
  rw [imp_iff_right hu, ← ObjTables.applyOp_raises, ← hraised]
  refine forall_congr' fun h => ?_
  rw [hout h, SameTables]
  constructor
  · rintro ⟨hstore, htombs, -⟩
    exact ObjTables.ext hstore htombs
  · intro hsame
    rw [hsame]
    exact ⟨rfl, rfl, rfl⟩

/-- Documents that have no floats need none. -/
instance : Floats Empty := ⟨Empty.elim, Empty.elim, Empty.elim, Empty.elim, Empty.elim⟩

def plainLoads (text : String) : Option (Obj Empty) := (Json.loads text).map Obj.ofJson

/-- A store with one key at version 1. -/
def cityMachine : ObjMachine Empty where
  store := .ofPairs [("city", ⟨[75], .int 1⟩)]
  tombstones := .empty
  sessions := .empty
  maxSessions := 10

/-- The sessions are no list. -/
def brokenBlob : Json := .obj [("store", .obj []), ("sessions", .int 1)]

def brokenSnapshot : ApplyEntry := ⟨⟨0, 0, .snapshot, "", [], "", 0⟩, some (encodeUtf8 brokenBlob.dumps)⟩

/-- The call raises, and the store is empty afterwards. -/
theorem broken_snapshot_clears_store : (cityMachine.apply plainLoads brokenSnapshot).2 = none ∧
    ¬ cityMachine.SameTables (cityMachine.apply plainLoads brokenSnapshot).1 := by
  have hblob : loadBlob plainLoads (encodeUtf8 brokenBlob.dumps) =
      some (.ofPairs [("store", .dict []), ("sessions", .int 1)]) := by
    have hdecode := decodeUtf8_encodeUtf8 brokenBlob.dumps
    have hne : encodeUtf8 brokenBlob.dumps ≠ [] := by
      intro hnil
      have hload := Json.loads_dumps brokenBlob
      rw [hnil] at hdecode
      rw [← Option.some.inj hdecode] at hload
      cases hload
    rw [loadBlob, if_neg hne, loadObj, hdecode, Option.bind_some, plainLoads, Json.loads_dumps]
    rfl
  have hrestore : cityMachine.restore plainLoads (encodeUtf8 brokenBlob.dumps) =
      ({ cityMachine with store := .empty, tombstones := .empty }, false) := by
    rw [restore, hblob]
    rfl
  have happly : cityMachine.apply plainLoads brokenSnapshot =
      ({ cityMachine with store := .empty, tombstones := .empty }, none) := by
    rw [apply, if_pos (show brokenSnapshot.opType = .snapshot from rfl)]
    dsimp only [brokenSnapshot]
    rw [hrestore]
    rfl
  rw [happly]
  refine ⟨rfl, fun hsame => ?_⟩
  have hkeys := congrArg OrderedDict.keys hsame.1
  cases hkeys

end ObjMachine

end DistributedStorage.Kv

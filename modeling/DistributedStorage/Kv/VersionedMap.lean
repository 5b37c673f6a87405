import DistributedStorage.Kv.Commands
import DistributedStorage.Kv.Versions
import DistributedStorage.Library.Linearizability

/-! What the cluster is for: one map from keys to versioned values that takes one operation at a time. The
tables of a state machine are such a map. -/

namespace DistributedStorage.Kv

open Library Library.Linearizability Raft

/-- The version of a key's last write, 0 before the first, and its value unless it was deleted. -/
structure Slot where
  version : ℕ
  value : Option Bytes

abbrev VersionedMap := String → Slot

inductive MapOp
  | write (op : Operation)
  | get (key : String)

inductive MapAnswer
  | written (result : Result)
  | read (value : Option Bytes × ℕ × Bool)

namespace Slot

/-- The version that others see. -/
def current (slot : Slot) : ℕ := if slot.value.isSome then slot.version else 0

def read (slot : Slot) : Option Bytes × ℕ × Bool := (slot.value, slot.current, slot.value.isSome)

/-- The condition of a compare-and-swap. -/
def meets (slot : Slot) (spec : CasSpec) : Bool :=
  if spec.expectAbsent then slot.value.isNone
  else if 0 < spec.expectedVersion then
    slot.value.isSome && decide ((slot.version : ℚ) = spec.expectedVersion)
  else slot.value = some spec.expected

lemma meets_value (slot : Slot) (expected newValue : Bytes) :
    slot.meets ⟨false, ((0 : ℤ) : ℚ), expected, newValue⟩ = decide (slot.value = some expected) := by
  simp [Slot.meets]

lemma meets_version (slot : Slot) {expectedVersion : ℤ} (h : 0 < expectedVersion) (newValue : Bytes) :
    slot.meets ⟨false, (expectedVersion : ℚ), [], newValue⟩ =
      decide (slot.value ≠ none ∧ (slot.version : ℤ) = expectedVersion) := by
  have hq : (0 : ℚ) < expectedVersion := Int.cast_pos.mpr h
  have hcast : (slot.version : ℚ) = expectedVersion ↔ (slot.version : ℤ) = expectedVersion := by
    rw [← Int.cast_natCast]
    exact Int.cast_inj
  rw [Slot.meets, if_neg Bool.false_ne_true, if_pos hq, Bool.decide_and, decide_eq_decide.mpr hcast]
  cases slot.value <;> rfl

lemma meets_absent (slot : Slot) (value : Bytes) :
    slot.meets ⟨true, ((0 : ℤ) : ℚ), [], value⟩ = decide (slot.value = none) := by
  rw [Slot.meets, if_pos rfl]
  cases slot.value <;> rfl

end Slot

namespace VersionedMap

def write (m : VersionedMap) (key : String) (value : Bytes) : VersionedMap :=
  Function.update m key ⟨(m key).version + 1, some value⟩

def perform (m : VersionedMap) : Operation → VersionedMap × Result
  | .put key value =>
    (m.write key value, .ofPairs [("success", .bool true), ("version", .int ((m key).version + 1 : ℕ))])
  | .delete key =>
    (Function.update m key ⟨(m key).version, none⟩,
      .ofPairs [("success", .bool true), ("existed", .bool (m key).value.isSome)])
  | .cas key spec =>
    if (m key).meets spec then
      (m.write key spec.newValue, .ofPairs [("success", .bool true), ("swapped", .bool true),
        ("current", .bytes spec.newValue), ("version", .int ((m key).version + 1 : ℕ))])
    else
      (m, .ofPairs [("success", .bool true), ("swapped", .bool false),
        ("current", .bytes ((m key).value.getD [])), ("version", .int (m key).current)])
  | .nothing => (m, .ofPairs [("success", .bool true)])

/-- The map as an object that is called once at a time. -/
def object : Object VersionedMap MapOp MapAnswer where
  init _ := ⟨0, none⟩
  step m
    | .write op => ((m.perform op).1, .written (m.perform op).2)
    | .get key => (m, .read (m key).read)

end VersionedMap

namespace Tables

/-- What the tables hold of a key. -/
def slot (t : Tables) (key : String) : Slot :=
  ⟨((t.store.get key).map Cell.version).getD ((t.tombstones.get key).getD 0), (t.store.get key).map Cell.value⟩

def toMap (t : Tables) : VersionedMap := t.slot

variable {t : Tables} {key : String}

lemma slot_some {cur : Cell} (h : t.store.get key = some cur) : t.slot key = ⟨cur.version, some cur.value⟩ := by
  simp [slot, h]

lemma slot_none (h : t.store.get key = none) : t.slot key = ⟨(t.tombstones.get key).getD 0, none⟩ := by
  simp [slot, h]

lemma nextVersion_slot (t : Tables) (key : String) : t.nextVersion key = (t.slot key).version + 1 := by
  cases hs : t.store.get key with
  | some cur => rw [nextVersion, hs, slot_some hs]
  | none => rw [nextVersion, hs, slot_none hs]

lemma write_toMap (t : Tables) (key : String) (value : Bytes) :
    (t.write key value).1.toMap = t.toMap.write key value := by
  funext key'
  by_cases hkey : key = key'
  · subst hkey
    have hstore : (t.write key value).1.store.get key = some ⟨value, t.nextVersion key⟩ := by
      rw [write_store, if_pos rfl]
    rw [VersionedMap.write, Function.update_self, toMap, slot_some hstore, nextVersion_slot]
    rfl
  · rw [VersionedMap.write, Function.update_of_ne (Ne.symm hkey), toMap, toMap, slot, slot, write_store,
      if_neg hkey, write_tombstones, if_neg fun h => hkey h.1]

lemma erase_toMap {cur : Cell} (h : t.store.get key = some cur) :
    ({ t with store := t.store.erase key, tombstones := t.tombstones.set key cur.version } : Tables).toMap =
      Function.update t.toMap key ⟨(t.toMap key).version, none⟩ := by
  funext key'
  by_cases hkey : key = key'
  · subst hkey
    rw [Function.update_self, toMap, toMap, slot_some h, slot_none (OrderedDict.get_erase_self ..)]
    simp
  · rw [Function.update_of_ne (Ne.symm hkey)]
    simp [toMap, slot, OrderedDict.get_erase, OrderedDict.get_set, hkey]

lemma casCondition_slot (t : Tables) (key : String) (spec : CasSpec) :
    casCondition spec (t.store.get key) = (t.toMap key).meets spec := by
  cases hs : t.store.get key with
  | some cur => simp [casCondition, Slot.meets, toMap, slot_some hs]
  | none => simp [casCondition, Slot.meets, toMap, slot_none hs]

/-- An operation on the tables is the operation on the map. -/
lemma run_toMap (t : Tables) (op : Operation) :
    t.toMap.perform op = ((op.run t).1.toMap, (op.run t).2) := by
  cases op with
  | put key value =>
    rw [Operation.run, VersionedMap.perform, write_toMap, write_version, nextVersion_slot]
    rfl
  | delete key =>
    rw [Operation.run, VersionedMap.perform]
    cases hs : t.store.get key with
    | some cur =>
      have hsome : (t.toMap key).value.isSome = true := by rw [toMap, slot_some hs]; rfl
      dsimp only
      rw [erase_toMap hs, hsome]
    | none =>
      have hslot : (t.toMap key) = ⟨(t.toMap key).version, none⟩ := by rw [toMap, slot_none hs]
      dsimp only
      rw [← hslot, Function.update_eq_self, hslot]
      rfl
  | cas key spec =>
    rw [Operation.run, VersionedMap.perform]
    dsimp only
    rw [casCondition_slot]
    by_cases hmeets : (t.toMap key).meets spec = true
    · rw [if_pos hmeets, if_pos hmeets, write_toMap, write_version, nextVersion_slot]
      rfl
    · rw [if_neg hmeets, if_neg hmeets]
      cases hs : t.store.get key with
      | some cur => simp [toMap, slot_some hs, Slot.current]
      | none => simp [toMap, slot_none hs, Slot.current]
  | nothing => rfl

lemma get_toMap (m : KVStateMachine) (key : String) : m.get key = (m.toTables.toMap key).read := by
  cases hs : m.store.get key with
  | some cur => simp [KVStateMachine.get, hs, toMap, slot_some hs, Slot.read, Slot.current]
  | none => simp [KVStateMachine.get, hs, toMap, slot_none hs, Slot.read, Slot.current]

end Tables

end DistributedStorage.Kv

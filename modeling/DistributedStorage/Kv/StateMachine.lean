import DistributedStorage.Library.OrderedDict
import DistributedStorage.Raft.Node
import Mathlib.Algebra.Order.Ring.Rat

/-! The key-value state machine: the store, the last versions of deleted keys, and the session table
that recognises retried writes. -/

namespace DistributedStorage.Kv

open Library Raft

structure Cell where
  value : Bytes
  version : ℕ
  deriving DecidableEq

/-- The values in a result dictionary. -/
inductive Value
  | bool (b : Bool)
  | int (n : ℤ)
  | bytes (b : Bytes)
  deriving DecidableEq

abbrev Result := OrderedDict String Value

structure Session where
  seq : ℤ
  result : Result
  deriving DecidableEq

/-- What a `cas` entry asks for, once its data is decoded. A JSON number is a rational. -/
structure CasSpec where
  expectAbsent : Bool
  expectedVersion : ℚ
  expected : Bytes
  newValue : Bytes

structure Tables where
  store : OrderedDict String Cell
  tombstones : OrderedDict String ℕ
  deriving DecidableEq

structure KVStateMachine extends Tables where
  sessions : OrderedDict String Session
  maxSessions : ℕ
  deriving DecidableEq

namespace Tables

def write (m : Tables) (key : String) (value : Bytes) : Tables × ℕ :=
  match m.store.get key with
  | some cur => ({ m with store := m.store.set key ⟨value, cur.version + 1⟩ }, cur.version + 1)
  | none =>
    let version := (m.tombstones.get key).getD 0 + 1
    ({ m with
      tombstones := m.tombstones.erase key
      store := m.store.set key ⟨value, version⟩ }, version)

def casCondition (spec : CasSpec) (cur : Option Cell) : Bool :=
  if spec.expectAbsent then cur.isNone
  else if 0 < spec.expectedVersion then
    cur.any fun c => (c.version : ℚ) = spec.expectedVersion
  else cur.any fun c => c.value = spec.expected

/-- `loads` is what decoding the data of a `cas` entry gives, or the message of the exception. -/
def applyOp (loads : Bytes → Except String CasSpec) (m : Tables) (entry : Entry) :
    Tables × Except String Result :=
  match entry.opType with
  | .put =>
    let out := m.write entry.filename entry.data
    (out.1, .ok (.ofPairs [("success", .bool true), ("version", .int out.2)]))
  | .delete =>
    match m.store.get entry.filename with
    | some cur =>
      ({ m with
        store := m.store.erase entry.filename
        tombstones := m.tombstones.set entry.filename cur.version },
        .ok (.ofPairs [("success", .bool true), ("existed", .bool true)]))
    | none => (m, .ok (.ofPairs [("success", .bool true), ("existed", .bool false)]))
  | .cas =>
    match loads entry.data with
    | .error exc => (m, .error exc)
    | .ok spec =>
      let cur := m.store.get entry.filename
      if casCondition spec cur then
        let out := m.write entry.filename spec.newValue
        (out.1, .ok (.ofPairs [("success", .bool true), ("swapped", .bool true),
          ("current", .bytes spec.newValue), ("version", .int out.2)]))
      else
        (m, .ok (.ofPairs [("success", .bool true), ("swapped", .bool false),
          ("current", .bytes ((cur.map Cell.value).getD [])),
          ("version", .int ((cur.map Cell.version).getD 0))]))
  | _ => (m, .ok (.ofPairs [("success", .bool true)]))

lemma applyOp_error {loads : Bytes → Except String CasSpec} {m m' : Tables} {e : Entry}
    {exc : String} (h : m.applyOp loads e = (m', .error exc)) : m' = m := by
  simp only [applyOp] at h
  split at h
  · cases h
  · split at h <;> cases h
  · split at h
    · cases h
      rfl
    · split at h <;> cases h
  · cases h

end Tables

/-- The answer to a request older than its client's latest. -/
def staleResult : Result := .ofPairs [("success", .bool true), ("stale", .bool true)]

namespace KVStateMachine

def init (maxSessions : ℕ) : KVStateMachine where
  store := .empty
  tombstones := .empty
  sessions := .empty
  maxSessions := maxSessions

def sessionResult (m : KVStateMachine) (clientId : String) (seqNum : ℤ) : Option Result :=
  match m.sessions.get clientId with
  | none => none
  | some session =>
    if session.seq < seqNum then none
    else if seqNum = session.seq then some session.result
    else some staleResult

def remember (m : KVStateMachine) (clientId : String) (seqNum : ℤ) (result : Result) :
    KVStateMachine :=
  { m with
    sessions := ((m.sessions.set clientId ⟨seqNum, result⟩).moveToEnd clientId).popFirst
      m.maxSessions }

end KVStateMachine

/-- The request carries an identity that the session table keeps track of. -/
def Tracked (clientId : String) (seqNum : ℤ) : Prop := clientId ≠ "" ∧ 0 < seqNum

instance (clientId : String) (seqNum : ℤ) : Decidable (Tracked clientId seqNum) :=
  inferInstanceAs (Decidable (_ ∧ _))

namespace KVStateMachine

/-- An entry of the log has no `snapshot_data`: applying one of type `_snapshot` raises a `KeyError`. -/
def apply (loads : Bytes → Except String CasSpec) (m : KVStateMachine) (entry : Entry) :
    KVStateMachine × Except String Result :=
  if entry.opType = .snapshot then (m, .error "'snapshot_data'")
  else
    let cached :=
      if Tracked entry.clientId entry.seqNum then m.sessionResult entry.clientId entry.seqNum
      else none
    match cached with
    | some result => (m, .ok result)
    | none =>
      match m.toTables.applyOp loads entry with
      | (tables, .error exc) => ({ m with toTables := tables }, .error exc)
      | (tables, .ok result) =>
        let m := { m with toTables := tables }
        (if Tracked entry.clientId entry.seqNum then m.remember entry.clientId entry.seqNum result
          else m, .ok result)

def lookupSession (m : KVStateMachine) (clientId : String) (seqNum : ℤ) : Option Result :=
  if clientId = "" ∨ seqNum ≤ 0 then none else m.sessionResult clientId seqNum

def get (m : KVStateMachine) (key : String) : Option Bytes × ℕ × Bool :=
  match m.store.get key with
  | none => (none, 0, false)
  | some e => (some e.value, e.version, true)

end KVStateMachine

end DistributedStorage.Kv

import DistributedStorage.Kv.Snapshot

/-! The state machine on the objects that Python gives it: a restored table holds whatever JSON the snapshot
had in its place. -/

namespace DistributedStorage.Kv

open Library Raft

/-- What the program does with floats. -/
class Floats (F : Type) where
  /-- The integer that a float is equal to. -/
  toInt : F → Option ℤ
  lt : F → ℤ → Bool
  gt : F → ℤ → Bool
  eq : F → F → Bool
  succ : F → F

/-- What `json.loads` returns; the members of a `dict` are as the text has them. -/
inductive Obj (F : Type)
  | none
  | bool (b : Bool)
  | int (n : ℤ)
  | float (x : F)
  | str (s : String)
  | list (items : List (Obj F))
  | dict (members : List (String × Obj F))

/-- The keys of a dictionary, where `1`, `1.0` and `True` are one key. -/
inductive Key (F : Type)
  | none
  | int (n : ℤ)
  | float (x : F)
  | str (s : String)
  deriving DecidableEq

namespace Obj

variable {F : Type} [Floats F]

/-- `bool(o)` -/
def truthy : Obj F → Bool
  | .none => false
  | .bool b => b
  | .int n => n ≠ 0
  | .float x => Floats.toInt x ≠ some 0
  | .str s => s ≠ ""
  | .list items => !items.isEmpty
  | .dict members => !members.isEmpty

/-- The operators on numbers raise a `TypeError` for any other object. -/
def isNumber : Obj F → Bool
  | .bool _ | .int _ | .float _ => true
  | _ => false

/-- `o + 1` -/
def succ : Obj F → Option (Obj F)
  | .bool b => some (.int (b.toInt + 1))
  | .int n => some (.int (n + 1))
  | .float x => some (.float (Floats.succ x))
  | _ => Option.none

/-- `o < n` -/
def lt : Obj F → ℤ → Option Bool
  | .bool b, n => some (b.toInt < n)
  | .int k, n => some (k < n)
  | .float x, n => some (Floats.lt x n)
  | _, _ => Option.none

/-- `o > n` -/
def gt : Obj F → ℤ → Option Bool
  | .bool b, n => some (n < b.toInt)
  | .int k, n => some (n < k)
  | .float x, n => some (Floats.gt x n)
  | _, _ => Option.none

/-- `o == n` -/
def equals : Obj F → ℤ → Bool
  | .bool b, n => b.toInt = n
  | .int k, n => k = n
  | .float x, n => Floats.toInt x = some n
  | _, _ => false

/-- `o == p` where `p` is a number -/
def same (o : Obj F) : Obj F → Bool
  | .bool b => o.equals b.toInt
  | .int n => o.equals n
  | .float x =>
    match o with
    | .float y => Floats.eq y x
    | .bool b => Floats.toInt x = some b.toInt
    | .int n => Floats.toInt x = some n
    | _ => false
  | _ => false

/-- `hash(o)`, which raises a `TypeError` for a list and a dictionary. -/
def key : Obj F → Option (Key F)
  | .none => some .none
  | .bool b => some (.int b.toInt)
  | .int n => some (.int n)
  | .float x =>
    match Floats.toInt x with
    | some n => some (.int n)
    | Option.none => some (.float x)
  | .str s => some (.str s)
  | .list _ | .dict _ => Option.none

/-- `o.items()`, which only a dictionary has. -/
def items : Obj F → Option (OrderedDict String (Obj F))
  | .dict members => some (.ofPairs members)
  | _ => Option.none

/-- `iter(o)` -/
def iter : Obj F → Option (List (Obj F))
  | .str s => some (s.toList.map fun c => .str (String.singleton c))
  | .list items => some items
  | .dict members => some ((OrderedDict.ofPairs members).keys.map .str)
  | _ => Option.none

/-- `base64.b64decode(o)` -/
def b64decode : Obj F → Option Bytes
  | .str s => Base64.decode s.toList
  | _ => Option.none

end Obj

mutual

/-- A document without floats, as an object. -/
def Obj.ofJson {F : Type} : Json → Obj F
  | .null => .none
  | .bool b => .bool b
  | .int n => .int n
  | .str s => .str s
  | .arr items => .list (Obj.ofItems items)
  | .obj members => .dict (Obj.ofMembers members)

def Obj.ofItems {F : Type} : List Json → List (Obj F)
  | [] => []
  | j :: js => Obj.ofJson j :: Obj.ofItems js

def Obj.ofMembers {F : Type} : List (String × Json) → List (String × Obj F)
  | [] => []
  | (k, j) :: ms => (k, Obj.ofJson j) :: Obj.ofMembers ms

end

/-- The values in a result. -/
inductive Datum (F : Type)
  | obj (o : Obj F)
  | bytes (b : Bytes)

structure ObjCell (F : Type) where
  value : Bytes
  version : Obj F

structure ObjSession (F : Type) where
  seq : Obj F
  result : OrderedDict String (Datum F)

@[ext]
structure ObjTables (F : Type) where
  store : OrderedDict String (ObjCell F)
  tombstones : OrderedDict (Key F) (Obj F)

structure ObjMachine (F : Type) extends ObjTables F where
  sessions : OrderedDict (Key F) (ObjSession F)
  maxSessions : ℕ

/-- The data of a `cas` entry, decoded. -/
structure ObjSpec (F : Type) where
  expectAbsent : Bool
  expectedVersion : Obj F
  expected : Bytes
  newValue : Bytes

/-- What `apply` is called with: an entry of the log, or a snapshot that was received. -/
structure ApplyEntry extends Entry where
  snapshotData : Option Bytes

section

variable {F : Type} [Floats F] [DecidableEq F]

/-- `data.decode("utf-8")` and `json.loads` -/
def loadObj (loads : String → Option (Obj F)) (data : Bytes) : Option (Obj F) := (decodeUtf8 data).bind loads

/-- `base64.b64decode(spec.get(name, "") or "")` -/
def specField (spec : OrderedDict String (Obj F)) (name : String) : Option Bytes :=
  let o := (spec.get name).getD (.str "")
  if o.truthy then o.b64decode else some []

def decodeSpec (loads : String → Option (Obj F)) (data : Bytes) : Option (ObjSpec F) := do
  let spec ← (← loadObj loads data).items
  let expected ← specField spec "expected"
  let newValue ← specField spec "new"
  some ⟨((spec.get "expect_absent").getD (.bool false)).truthy, (spec.get "expected_version").getD (.int 0),
    expected, newValue⟩

namespace ObjTables

/-- The number of a deleted key is taken away before 1 is added to it. -/
def write (m : ObjTables F) (key : String) (value : Bytes) : ObjTables F × Option (Obj F) :=
  match m.store.get key with
  | some cur =>
    match cur.version.succ with
    | some version => ({ m with store := m.store.set key ⟨value, version⟩ }, some version)
    | none => (m, none)
  | none =>
    let tombstones := m.tombstones.erase (.str key)
    match ((m.tombstones.get (.str key)).getD (.int 0)).succ with
    | some version => ({ m with tombstones := tombstones, store := m.store.set key ⟨value, version⟩ }, some version)
    | none => ({ m with tombstones := tombstones }, none)

def casCondition (spec : ObjSpec F) (cur : Option (ObjCell F)) : Option Bool :=
  if spec.expectAbsent then some cur.isNone
  else (spec.expectedVersion.gt 0).map fun positive =>
    if positive then cur.any fun c => c.version.same spec.expectedVersion
    else cur.any fun c => c.value = spec.expected

def applyOp (loads : String → Option (Obj F)) (m : ObjTables F) (entry : Entry) :
    ObjTables F × Option (OrderedDict String (Datum F)) :=
  match entry.opType with
  | .put =>
    let out := m.write entry.filename entry.data
    (out.1, out.2.map fun version => .ofPairs [("success", .obj (.bool true)), ("version", .obj version)])
  | .delete =>
    match m.store.get entry.filename with
    | some cur =>
      ({ m with
        store := m.store.erase entry.filename
        tombstones := m.tombstones.set (.str entry.filename) cur.version },
        some (.ofPairs [("success", .obj (.bool true)), ("existed", .obj (.bool true))]))
    | none => (m, some (.ofPairs [("success", .obj (.bool true)), ("existed", .obj (.bool false))]))
  | .cas =>
    match decodeSpec loads entry.data with
    | none => (m, none)
    | some spec =>
      let cur := m.store.get entry.filename
      match casCondition spec cur with
      | none => (m, none)
      | some true =>
        let out := m.write entry.filename spec.newValue
        (out.1, out.2.map fun version => .ofPairs [("success", .obj (.bool true)), ("swapped", .obj (.bool true)),
          ("current", .bytes spec.newValue), ("version", .obj version)])
      | some false =>
        (m, some (.ofPairs [("success", .obj (.bool true)), ("swapped", .obj (.bool false)),
          ("current", .bytes ((cur.map ObjCell.value).getD [])),
          ("version", .obj ((cur.map ObjCell.version).getD (.int 0)))]))
  | _ => (m, some (.ofPairs [("success", .obj (.bool true))]))

end ObjTables

/-- `{"value": base64.b64decode(v["value"]), "version": v["version"]}` -/
def restoreCell (v : Obj F) : Option (ObjCell F) := do
  let .dict members := v | none
  let cell := OrderedDict.ofPairs members
  let value ← (← cell.get "value").b64decode
  let version ← cell.get "version"
  some ⟨value, version⟩

/-- An item of `_decode_result`. -/
def restoreDatum : Obj F → Option (Datum F)
  | .dict members =>
    match (OrderedDict.ofPairs members).get "b64" with
    | some o => o.b64decode.map .bytes
    | none => some (.obj (.dict members))
  | o => some (.obj o)

def restoreStore (blob : OrderedDict String (Obj F)) : Option (OrderedDict String (ObjCell F)) :=
  (((blob.get "store").getD (.dict [])).items).bind fun d => d.traverse restoreCell

/-- An item that `dict` reads as a key and its value. -/
def restorePair (o : Obj F) : Option (Key F × Obj F) := do
  let [k, v] ← o.iter | none
  some (← k.key, v)

/-- `dict(o)` takes a dictionary, or pairs to make one of. -/
def restoreTombstones (blob : OrderedDict String (Obj F)) : Option (OrderedDict (Key F) (Obj F)) :=
  match (blob.get "tombstones").getD (.dict []) with
  | .dict members => some (.ofPairs (members.map fun x => (.str x.1, x.2)))
  | o => (o.iter.bind fun items => items.mapM restorePair).map .ofPairs

def restoreSession (o : Obj F) : Option (Key F × ObjSession F) := do
  let [cid, seq, res] ← o.iter | none
  let result ← (← res.items).traverse restoreDatum
  some (← cid.key, ⟨seq, result⟩)

def restoreSessions (blob : OrderedDict String (Obj F)) : Option (OrderedDict (Key F) (ObjSession F)) :=
  ((((blob.get "sessions").getD (.list [])).iter).bind fun items => items.mapM restoreSession).map .ofPairs

/-- `json.loads(data) if data else {}`, which has to be a dictionary. -/
def loadBlob (loads : String → Option (Obj F)) (data : Bytes) : Option (OrderedDict String (Obj F)) :=
  (if data = [] then some (.dict []) else loadObj loads data).bind Obj.items

namespace ObjMachine

/-- The tables are assigned one after another, so where the call raises, the later ones keep their values. -/
def restore (loads : String → Option (Obj F)) (m : ObjMachine F) (data : Bytes) : ObjMachine F × Bool :=
  match loadBlob loads data with
  | none => (m, false)
  | some blob =>
    match restoreStore blob with
    | none => (m, false)
    | some store =>
      let m := { m with store := store }
      match restoreTombstones blob with
      | none => (m, false)
      | some tombstones =>
        let m := { m with tombstones := tombstones }
        match restoreSessions blob with
        | none => (m, false)
        | some sessions => ({ m with sessions := sessions }, true)

/-- The outer `none` is the `TypeError` of a comparison. -/
def sessionResult (m : ObjMachine F) (clientId : String) (seqNum : ℤ) :
    Option (Option (OrderedDict String (Datum F))) :=
  match m.sessions.get (.str clientId) with
  | none => some none
  | some session => (session.seq.lt seqNum).map fun later =>
    if later then none
    else if session.seq.equals seqNum then some session.result
    else some (.ofPairs [("success", .obj (.bool true)), ("stale", .obj (.bool true))])

def remember (m : ObjMachine F) (clientId : String) (seqNum : ℤ) (result : OrderedDict String (Datum F)) :
    ObjMachine F :=
  { m with
    sessions := ((m.sessions.set (.str clientId) ⟨.int seqNum, result⟩).moveToEnd (.str clientId)).popFirst
      m.maxSessions }

/-- The machine after the call, and what it returns; `none` is any exception. -/
def apply (loads : String → Option (Obj F)) (m : ObjMachine F) (entry : ApplyEntry) :
    ObjMachine F × Option (OrderedDict String (Datum F)) :=
  if entry.opType = .snapshot then
    match entry.snapshotData with
    | none => (m, none)
    | some data =>
      let out := m.restore loads data
      (out.1, if out.2 then some (.ofPairs [("success", .obj (.bool true))]) else none)
  else
    match if Tracked entry.clientId entry.seqNum then m.sessionResult entry.clientId entry.seqNum else some none with
    | none => (m, none)
    | some (some cached) => (m, some cached)
    | some none =>
      match m.toObjTables.applyOp loads entry.toEntry with
      | (tables, none) => ({ m with toObjTables := tables }, none)
      | (tables, some result) =>
        let m := { m with toObjTables := tables }
        (if Tracked entry.clientId entry.seqNum then m.remember entry.clientId entry.seqNum result else m, some result)

end ObjMachine

end

end DistributedStorage.Kv

import DistributedStorage.Kv.ExactlyOnce
import DistributedStorage.Library.Base64
import DistributedStorage.Library.Json

/-! Snapshots of the key-value state machine: a JSON document in UTF-8, with byte strings in Base64. -/

namespace DistributedStorage.Kv

open Library Raft

/-- `text.encode("utf-8")` -/
def encodeUtf8 (s : String) : Bytes := s.toByteArray.data.toList

/-- `data.decode("utf-8")` -/
def decodeUtf8 (data : Bytes) : Option String := String.fromUTF8? ⟨data.toArray⟩

lemma decodeUtf8_encodeUtf8 (s : String) : decodeUtf8 (encodeUtf8 s) = some s := by
  simp [decodeUtf8, encodeUtf8, String.fromUTF8?, s.isValidUTF8, String.fromUTF8]

def b64encode (value : Bytes) : Json := .str (String.ofList (Base64.encode value))

def b64decode : Json → Option Bytes
  | .str s => Base64.decode s.toList
  | _ => none

@[simp] lemma b64decode_b64encode (value : Bytes) : b64decode (b64encode value) = some value := by
  rw [b64encode, b64decode, String.toList_ofList, Base64.decode_encode]

/-- A JSON object read as a dictionary. -/
def asDict : Json → Option (OrderedDict String Json)
  | .obj members => some (.ofPairs members)
  | _ => none

def asInt : Json → Option ℤ
  | .int n => some n
  | _ => none

def asVersion (j : Json) : Option ℕ :=
  match asInt j with
  | some (.ofNat n) => some n
  | _ => none

def encodeVersion (version : ℕ) : Json := .int version

lemma asVersion_encodeVersion (version : ℕ) : asVersion (encodeVersion version) = some version := rfl

def ofDict (d : OrderedDict String Json) : Json := .obj d.items

@[simp] lemma asDict_ofDict (d : OrderedDict String Json) : asDict (ofDict d) = some d := by
  rw [ofDict, asDict, OrderedDict.ofPairs_items]

def encodeValue : Value → Json
  | .bytes b => .obj [("b64", b64encode b)]
  | .bool b => .bool b
  | .int n => .int n

/-- Values of other types, which no snapshot holds, are refused. -/
def decodeValue : Json → Option Value
  | .obj members => ((OrderedDict.ofPairs members).get "b64").bind fun j => (b64decode j).map .bytes
  | .bool b => some (.bool b)
  | .int n => some (.int n)
  | _ => none

def encodeResult (result : Result) : Json := ofDict (result.mapValues encodeValue)

def decodeResult (blob : Json) : Option Result := (asDict blob).bind fun d => d.traverse decodeValue

def encodeCell (c : Cell) : Json := .obj [("value", b64encode c.value), ("version", .int c.version)]

def decodeCell (v : Json) : Option Cell := do
  let d ← asDict v
  let value ← b64decode (← d.get "value")
  let version ← asVersion (← d.get "version")
  some ⟨value, version⟩

def encodeSession (x : String × Session) : Json :=
  .arr [.str x.1, .int x.2.seq, encodeResult x.2.result]

def decodeSession : Json → Option (String × Session)
  | .arr [.str cid, .int seq, res] => (decodeResult res).map fun result => (cid, ⟨seq, result⟩)
  | _ => none

lemma decodeValue_encodeValue (v : Value) : decodeValue (encodeValue v) = some v := by
  cases v with
  | bytes b =>
    have hb64 : (OrderedDict.ofPairs [("b64", b64encode b)]).get "b64" = some (b64encode b) :=
      OrderedDict.get_ofPairs (List.nodup_singleton "b64") (List.mem_singleton_self _)
    rw [encodeValue, decodeValue, hb64, Option.bind_some, b64decode_b64encode, Option.map_some]
  | bool b => rfl
  | int n => rfl

lemma decodeResult_encodeResult (r : Result) : decodeResult (encodeResult r) = some r := by
  rw [decodeResult, encodeResult, asDict_ofDict, Option.bind_some,
    OrderedDict.traverse_mapValues decodeValue_encodeValue]

lemma decodeCell_eq (j : Json) : decodeCell j = (asDict j).bind fun d =>
    (d.get "value").bind fun x => (b64decode x).bind fun value =>
      (d.get "version").bind fun y => (asVersion y).bind fun version => some ⟨value, version⟩ := rfl

lemma decodeCell_encodeCell (c : Cell) : decodeCell (encodeCell c) = some c := by
  have hcell : (["value", "version"] : List String).Nodup := by decide
  have hvalue (x y : Json) : (OrderedDict.ofPairs [("value", x), ("version", y)]).get "value" = some x :=
    OrderedDict.get_ofPairs hcell (by simp)
  have hversion (x y : Json) : (OrderedDict.ofPairs [("value", x), ("version", y)]).get "version" = some y :=
    OrderedDict.get_ofPairs hcell (by simp)
  have hcode : asVersion (.int c.version) = some c.version := asVersion_encodeVersion c.version
  rw [decodeCell_eq, encodeCell, asDict, Option.bind_some, hvalue, Option.bind_some, b64decode_b64encode,
    Option.bind_some, hversion, Option.bind_some, hcode, Option.bind_some]

lemma decodeSession_encodeSession (x : String × Session) :
    decodeSession (encodeSession x) = some x := by
  rw [encodeSession, decodeSession, decodeResult_encodeResult, Option.map_some]

namespace KVStateMachine

def blob (m : KVStateMachine) : Json :=
  .obj [("store", ofDict (m.store.mapValues encodeCell)),
    ("tombstones", ofDict (m.tombstones.mapValues encodeVersion)),
    -- a list, so the eviction order survives the round trip
    ("sessions", .arr (m.sessions.items.map encodeSession))]

def snapshot (m : KVStateMachine) : Bytes := encodeUtf8 m.blob.dumps

def restoreStore (blob : OrderedDict String Json) : Option (OrderedDict String Cell) :=
  (asDict ((blob.get "store").getD (.obj []))).bind fun d => d.traverse decodeCell

def restoreTombstones (blob : OrderedDict String Json) : Option (OrderedDict String ℕ) :=
  (asDict ((blob.get "tombstones").getD (.obj []))).bind fun d => d.traverse asVersion

def restoreSessions (blob : OrderedDict String Json) : Option (OrderedDict String Session) :=
  match (blob.get "sessions").getD (.arr []) with
  | .arr items => (items.mapM decodeSession).map OrderedDict.ofPairs
  | _ => none

/-- The machine after the call, and whether the call returns. The tables are assigned one after
another, so where it raises, the later ones keep their values. -/
def restore (m : KVStateMachine) (data : Bytes) : KVStateMachine × Bool :=
  match if data = [] then some (.obj []) else (decodeUtf8 data).bind Json.loads with
  | none => (m, false)
  | some blob =>
    match asDict blob with
    | none => (m, false)
    | some blob =>
      match restoreStore blob with
      | none => (m, false)
      | some store =>
        let m := { m with store := store }
        match restoreTombstones blob with
        | none => (m, false)
        | some tombstones =>
          let m := { m with tombstones := tombstones }
          match restoreSessions blob with
          | none => (m, false)
          | some sessions => ({ m with sessions := sessions }, true)

lemma snapshot_ne_nil (m : KVStateMachine) : m.snapshot ≠ [] := by
  intro h
  have hdec := decodeUtf8_encodeUtf8 m.blob.dumps
  rw [show encodeUtf8 m.blob.dumps = [] from h] at hdec
  have hload := Json.loads_dumps m.blob
  have hempty : m.blob.dumps = "" := (Option.some.inj hdec).symm
  rw [hempty] at hload
  cases hload

lemma get_blob (x y z : Json) (name : String) (j : Json)
    (h : (name, j) ∈ [("store", x), ("tombstones", y), ("sessions", z)]) :
    (OrderedDict.ofPairs [("store", x), ("tombstones", y), ("sessions", z)]).get name = some j :=
  OrderedDict.get_ofPairs (by decide : (["store", "tombstones", "sessions"] : List String).Nodup) h

/-- Restoring a snapshot brings back everything but the bound on the sessions. -/
lemma restore_snapshot (m m' : KVStateMachine) :
    m'.restore m.snapshot = ({ m with maxSessions := m'.maxSessions }, true) := by
  have hstore : (m.store.mapValues encodeCell).traverse decodeCell = some m.store :=
    OrderedDict.traverse_mapValues decodeCell_encodeCell m.store
  have htombs : (m.tombstones.mapValues encodeVersion).traverse asVersion = some m.tombstones :=
    OrderedDict.traverse_mapValues asVersion_encodeVersion m.tombstones
  have hsess : (m.sessions.items.map encodeSession).mapM decodeSession = some m.sessions.items :=
    OrderedDict.mapM_map_some decodeSession_encodeSession m.sessions.items
  rw [restore, if_neg m.snapshot_ne_nil, snapshot, decodeUtf8_encodeUtf8, Option.bind_some,
    Json.loads_dumps]
  have hgetStore (x y z : Json) := get_blob x y z "store" x (by simp)
  have hgetTombs (x y z : Json) := get_blob x y z "tombstones" y (by simp)
  have hgetSess (x y z : Json) := get_blob x y z "sessions" z (by simp)
  simp only [blob, asDict, restoreStore, restoreTombstones, restoreSessions, hgetStore,
    hgetTombs, hgetSess, Option.getD_some, ofDict, OrderedDict.ofPairs_items,
    Option.bind_some, hstore, htombs, hsess, Option.map_some]

variable (loads : Bytes → Except String CasSpec)

/-- What `apply` returns for each entry in turn. -/
def results (m : KVStateMachine) : List Entry → List (Except String Result)
  | [] => []
  | e :: es => (m.apply loads e).2 :: (m.apply loads e).1.results es

lemma results_append (m : KVStateMachine) (es fs : List Entry) :
    m.results loads (es ++ fs) = m.results loads es ++ (m.run loads es).results loads fs := by
  induction es generalizing m with
  | nil => rfl
  | cons e es ih => rw [List.cons_append, results, ih, results, List.cons_append, run, run,
      List.foldl_cons]

lemma apply_maxSessions (m : KVStateMachine) (e : Entry) :
    (m.apply loads e).1.maxSessions = m.maxSessions := by
  by_cases hop : e.opType = .snapshot
  · rw [apply, if_pos hop]
  · have hout := m.outcome loads hop
    generalize m.apply loads e = out at hout
    obtain ⟨m', result⟩ := out
    dsimp only at hout ⊢
    cases hout with
    | answered r => rfl
    | raised exc => rfl
    | applied r => split_ifs <;> rfl

lemma run_maxSessions (m : KVStateMachine) (es : List Entry) :
    (m.run loads es).maxSessions = m.maxSessions := by
  induction es using List.reverseRecOn with
  | nil => rfl
  | append_singleton es e ih => rw [run_concat, apply_maxSessions, ih]

/-- A fresh machine that restores a snapshot goes on as the machine that took it. -/
theorem snapshot_transparent (M : ℕ) (es fs : List Entry) :
    ∃ m, (init M).restore ((init M).run loads es).snapshot = (m, true) ∧
      (init M).results loads es ++ m.results loads fs = (init M).results loads (es ++ fs) ∧
      m.run loads fs = (init M).run loads (es ++ fs) := by
  have hmax : ((init M).run loads es).maxSessions = (init M).maxSessions :=
    run_maxSessions loads (init M) es
  refine ⟨(init M).run loads es, ?_, ?_, ?_⟩
  · rw [restore_snapshot, ← hmax]
  · rw [results_append]
  · rw [run, run, run, List.foldl_append]

end KVStateMachine

end DistributedStorage.Kv

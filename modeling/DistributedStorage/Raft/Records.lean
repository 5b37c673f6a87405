import DistributedStorage.Library.Hex
import DistributedStorage.Library.Json
import DistributedStorage.Library.OrderedDict
import DistributedStorage.Raft.Node

/-! How a log entry looks in memory, in the files and on the wire. In memory its data is hex text, so
that the log is a JSON document; a message carries the bytes. -/

namespace DistributedStorage.Raft

open Library

def OpType.name : OpType → String
  | .noop => "noop"
  | .put => "put"
  | .delete => "delete"
  | .cas => "cas"
  | .create => "create"
  | .write => "write"
  | .snapshot => "_snapshot"
  | .other name => name

/-- The dictionary of an entry in `self.log`. -/
structure Record where
  term : ℕ
  index : ℕ
  opType : String
  filename : String
  data : String
  clientId : String
  seqNum : ℤ
  deriving DecidableEq

/-- `raft_pb2.LogEntry` -/
structure LogEntry where
  term : ℕ
  index : ℕ
  opType : String
  filename : String
  data : Bytes
  clientId : String
  seqNum : ℤ
  deriving DecidableEq

/-- `data.hex()` -/
def hex (data : Bytes) : String := String.ofList (Hex.encode data)

/-- `bytes.fromhex(text)` -/
def fromHex (text : String) : Option Bytes := Hex.decode text.toList

lemma fromHex_hex (data : Bytes) : fromHex (hex data) = some data := by
  rw [fromHex, hex, String.toList_ofList, Hex.decode_encode]

lemma hex_eq_empty {data : Bytes} : hex data = "" ↔ data = [] := by
  rw [hex, ← Hex.encode_eq_nil, ← String.toList_inj, String.toList_ofList]
  rfl

/-- The dictionary that `append_entry` builds. -/
def Command.record (c : Command) (term index : ℕ) : Record :=
  ⟨term, index, c.opType.name, c.filename, hex c.data, c.clientId, c.seqNum⟩

/-- The dictionary that a new leader appends. -/
def noopRecord (term index : ℕ) : Record := ⟨term, index, "noop", "", "", "", 0⟩

/-- The dictionary behind an entry of the model's log. -/
def Entry.record (e : Entry) : Record :=
  ⟨e.term, e.index, e.opType.name, e.filename, hex e.data, e.clientId, e.seqNum⟩

lemma entry_record (c : Command) (term index : ℕ) :
    (c.entry term index).record = c.record term index := rfl

lemma noopEntry_record (term index : ℕ) : (noopEntry term index).record = noopRecord term index := rfl

namespace Record

/-- `bytes.fromhex(e["data"]) if e.get("data") else b""` -/
def bytes (r : Record) : Option Bytes := if r.data = "" then some [] else fromHex r.data

/-- The message `_send_append_entries_to` builds for an entry. -/
def toMessage (r : Record) : Option LogEntry :=
  r.bytes.map fun raw => ⟨r.term, r.index, r.opType, r.filename, raw, r.clientId, r.seqNum⟩

/-- The dictionary the receiver of an entry builds. -/
def ofMessage (m : LogEntry) : Record :=
  ⟨m.term, m.index, m.opType, m.filename, hex m.data, m.clientId, m.seqNum⟩

def json (r : Record) : Json :=
  .obj [("term", .int r.term), ("index", .int r.index), ("op_type", .str r.opType),
    ("filename", .str r.filename), ("data", .str r.data), ("client_id", .str r.clientId),
    ("seq_num", .int r.seqNum)]

end Record

def asNat : Json → Option ℕ
  | .int (.ofNat n) => some n
  | _ => none

def asText : Json → Option String
  | .str s => some s
  | _ => none

def asNumber : Json → Option ℤ
  | .int n => some n
  | _ => none

def members : Json → Option (OrderedDict String Json)
  | .obj ms => some (.ofPairs ms)
  | _ => none

namespace Record

/-- A loaded dictionary with the types that the node wrote. -/
def ofJson (j : Json) : Option Record := do
  let d ← members j
  let term ← (d.get "term").bind asNat
  let index ← (d.get "index").bind asNat
  let opType ← (d.get "op_type").bind asText
  let filename ← (d.get "filename").bind asText
  let data ← (d.get "data").bind asText
  let clientId ← (d.get "client_id").bind asText
  let seqNum ← (d.get "seq_num").bind asNumber
  some ⟨term, index, opType, filename, data, clientId, seqNum⟩

lemma ofJson_json (r : Record) : ofJson r.json = some r := rfl

end Record

lemma record_bytes (e : Entry) : e.record.bytes = some e.data := by
  rw [Record.bytes]
  split_ifs with h
  · rw [hex_eq_empty.mp h]
  · exact fromHex_hex e.data

/-- An entry that is sent and received is the same dictionary again. -/
lemma ofMessage_toMessage (e : Entry) : e.record.toMessage.map Record.ofMessage = some e.record := by
  rw [Record.toMessage, record_bytes]
  rfl

/-- The text `_persist_log` writes. -/
def logText (log : List Record) : String := (Json.arr (log.map Record.json)).dumps

def loadLog (text : String) : Option (List Record) :=
  match Json.loads text with
  | some (.arr items) => items.mapM Record.ofJson
  | _ => none

lemma loadLog_logText (log : List Record) : loadLog (logText log) = some log := by
  rw [loadLog, logText, Json.loads_dumps]
  exact OrderedDict.mapM_map_some Record.ofJson_json log

/-- The text `_persist_hard_state` writes. Nodes have integer ids. -/
def hardStateText (currentTerm : ℕ) (votedFor : Option ℤ) : String :=
  (Json.obj [("current_term", .int currentTerm),
    ("voted_for", (votedFor.map Json.int).getD .null)]).dumps

/-- `hs.get("current_term", 0)` and `hs.get("voted_for")` -/
def loadHardState (text : String) : Option (ℕ × Option ℤ) := do
  let j ← Json.loads text
  let d ← members j
  let term ← ((d.get "current_term").map asNat).getD (some 0)
  match (d.get "voted_for").getD .null with
  | .null => some (term, none)
  | .int n => some (term, some n)
  | _ => none

lemma loadHardState_hardStateText (currentTerm : ℕ) (votedFor : Option ℤ) :
    loadHardState (hardStateText currentTerm votedFor) = some (currentTerm, votedFor) := by
  rw [loadHardState, hardStateText, Json.loads_dumps]
  cases votedFor <;> rfl

structure Persistent where
  currentTerm : ℕ
  votedFor : Option ℤ
  log : List Record
  deriving DecidableEq

/-- `_load_persistent_state` on the two files; a file that is missing leaves the initial values. -/
def loadPersistentState (hardState logFile : Option String) : Option Persistent := do
  let hs ← (hardState.map loadHardState).getD (some (0, none))
  let log ← (logFile.map loadLog).getD (some [])
  some ⟨hs.1, hs.2, log⟩

end DistributedStorage.Raft

import DistributedStorage.Kv.Acknowledged
import DistributedStorage.Raft.Records

/-! The way of a write command: from the client's request into a log entry, over the wire and the disk
of any number of nodes, to the operation a state machine evaluates. -/

set_option linter.unusedSectionVars false

namespace DistributedStorage.Kv

open Library Raft Runs

/-- What `_apply_op` is asked to do. -/
inductive Operation
  | put (key : String) (value : Bytes)
  | delete (key : String)
  | cas (key : String) (spec : CasSpec)
  | nothing

/-- `spec.get(name, "") or ""`, decoded from Base64. -/
def b64Field (spec : OrderedDict String Json) (name : String) : Option Bytes :=
  match (spec.get name).getD (.str "") with
  | .str s => Base64.decode s.toList
  | _ => none

/-- The decoded data of a `cas` entry, with the types that the service writes. -/
def decodeCas (data : Bytes) : Option CasSpec := do
  let text ← decodeUtf8 data
  let j ← Json.loads text
  let spec ← asDict j
  let expectAbsent ← match (spec.get "expect_absent").getD (.bool false) with
    | .bool b => some b
    | _ => none
  let expectedVersion ← asInt ((spec.get "expected_version").getD (.int 0))
  let expected ← b64Field spec "expected"
  let newValue ← b64Field spec "new"
  some ⟨expectAbsent, expectedVersion, expected, newValue⟩

lemma get_casSpec (x y z w : Json) (name : String) (j : Json)
    (h : (name, j) ∈ [("expected", x), ("new", y), ("expect_absent", z), ("expected_version", w)]) :
    (OrderedDict.ofPairs [("expected", x), ("new", y), ("expect_absent", z), ("expected_version", w)]).get name =
      some j :=
  OrderedDict.get_ofPairs
    (by decide : (["expected", "new", "expect_absent", "expected_version"] : List String).Nodup) h

lemma b64Field_of_get {spec : OrderedDict String Json} {name : String} {value : Bytes}
    (h : spec.get name = some (b64encode value)) : b64Field spec name = some value := by
  rw [b64Field, h, Option.getD_some, b64encode]
  dsimp only
  rw [String.toList_ofList, Base64.decode_encode]

lemma decodeCas_of_spec {data : Bytes} {text : String} {j : Json} {spec : OrderedDict String Json}
    {expectAbsent : Bool} {expectedVersion : ℤ} {expected newValue : Bytes}
    (htext : decodeUtf8 data = some text) (hload : Json.loads text = some j) (hspec : asDict j = some spec)
    (habsent : spec.get "expect_absent" = some (.bool expectAbsent))
    (hversion : spec.get "expected_version" = some (.int expectedVersion))
    (hexpected : b64Field spec "expected" = some expected) (hnew : b64Field spec "new" = some newValue) :
    decodeCas data = some ⟨expectAbsent, expectedVersion, expected, newValue⟩ := by
  simp only [decodeCas, htext, hload, hspec, habsent, hversion, hexpected, hnew, Option.bind_eq_bind,
    Option.bind_some, Option.getD_some, asInt]

lemma decodeCas_casCommand (expected newValue : Bytes) (expectAbsent : Bool) (expectedVersion : ℤ) :
    decodeCas (Request.casCommand expected newValue expectAbsent expectedVersion) =
      some ⟨expectAbsent, expectedVersion, expected, newValue⟩ := by
  have hget := get_casSpec (b64encode expected) (b64encode newValue) (.bool expectAbsent) (.int expectedVersion)
  apply decodeCas_of_spec (decodeUtf8_encodeUtf8 _) (Json.loads_dumps _) rfl
  · exact hget "expect_absent" (.bool expectAbsent) (by simp)
  · exact hget "expected_version" (.int expectedVersion) (by simp)
  · exact b64Field_of_get (hget "expected" (b64encode expected) (by simp))
  · exact b64Field_of_get (hget "new" (b64encode newValue) (by simp))

/-- The operation behind a dictionary of the log: the applier turns hex into bytes, and the state
machine reads the rest. -/
def evaluate (r : Record) : Option Operation :=
  r.bytes.bind fun data =>
    if r.opType = "put" then some (.put r.filename data)
    else if r.opType = "delete" then some (.delete r.filename)
    else if r.opType = "cas" then (decodeCas data).map (.cas r.filename)
    else some .nothing

/-- What the client asked for. -/
def Request.operation : Request → Operation
  | .put key value _ _ => .put key value
  | .delete key _ _ => .delete key
  | .cas key expected newValue expectAbsent expectedVersion _ _ =>
    .cas key ⟨expectAbsent, expectedVersion, expected, newValue⟩
  | .get _ _ => .nothing

lemma evaluate_command (req : Request) (term index : ℕ) :
    evaluate (req.command.record term index) = some req.operation := by
  rw [evaluate, ← entry_record, record_bytes, Option.bind_some]
  cases req with
  | put key value clientId seqNum =>
    simp [Request.command, Command.entry, Entry.record, OpType.name, Request.operation]
  | delete key clientId seqNum =>
    simp [Request.command, Command.entry, Entry.record, OpType.name, Request.operation]
  | cas key expected newValue expectAbsent expectedVersion clientId seqNum =>
    simp [Request.command, Command.entry, Entry.record, OpType.name, Request.operation,
      decodeCas_casCommand]
  | get key linearizable =>
    simp [Request.command, Command.entry, Entry.record, OpType.name, Request.operation]

/-- One stage on the way of an entry. A leader forwards what it has in memory, a node writes its log and
reads it again. -/
inductive Hop
  | forwarded
  | reloaded (before after : List Record)

def Hop.carry (r : Record) : Hop → Option Record
  | .forwarded => r.toMessage.map Record.ofMessage
  | .reloaded before after => (loadLog (logText (before ++ r :: after))).bind fun log => log[before.length]?

lemma carry_record (e : Entry) (hop : Hop) : hop.carry e.record = some e.record := by
  cases hop with
  | forwarded => exact ofMessage_toMessage e
  | reloaded before after =>
    rw [Hop.carry, loadLog_logText]
    simp

lemma carry_all (e : Entry) (hops : List Hop) : hops.foldlM Hop.carry e.record = some e.record := by
  induction hops with
  | nil => rfl
  | cons hop hops ih =>
    rw [List.foldlM_cons, carry_record]
    exact ih

/-- `_apply_op` on what the data of the entry decodes to. -/
def Operation.run (t : Tables) : Operation → Tables × Result
  | .put key value =>
    let out := t.write key value
    (out.1, .ofPairs [("success", .bool true), ("version", .int out.2)])
  | .delete key =>
    match t.store.get key with
    | some cur =>
      ({ t with store := t.store.erase key, tombstones := t.tombstones.set key cur.version },
        .ofPairs [("success", .bool true), ("existed", .bool true)])
    | none => (t, .ofPairs [("success", .bool true), ("existed", .bool false)])
  | .cas key spec =>
    let cur := t.store.get key
    if Tables.casCondition spec cur then
      let out := t.write key spec.newValue
      (out.1, .ofPairs [("success", .bool true), ("swapped", .bool true),
        ("current", .bytes spec.newValue), ("version", .int out.2)])
    else
      (t, .ofPairs [("success", .bool true), ("swapped", .bool false),
        ("current", .bytes ((cur.map Cell.value).getD [])),
        ("version", .int ((cur.map Cell.version).getD 0))])
  | .nothing => (t, .ofPairs [("success", .bool true)])

/-- The decoder as the state machine's parameter. -/
def loadCas (data : Bytes) : Except String CasSpec :=
  match decodeCas data with
  | some spec => .ok spec
  | none => .error "not a cas command"

lemma applyOp_operation (t : Tables) (req : Request) (term index : ℕ) :
    t.applyOp loadCas (req.command.entry term index) =
      ((req.operation.run t).1, .ok (req.operation.run t).2) := by
  cases req with
  | put key value clientId seqNum => rfl
  | delete key clientId seqNum =>
    simp only [Tables.applyOp, Request.command, Command.entry, Request.operation, Operation.run]
    cases t.store.get key with
    | none => rfl
    | some cur => rfl
  | cas key expected newValue expectAbsent expectedVersion clientId seqNum =>
    simp only [Tables.applyOp, Request.command, Command.entry, Request.operation, Operation.run,
      loadCas, decodeCas_casCommand]
    by_cases hc : Tables.casCondition ⟨expectAbsent, expectedVersion, expected, newValue⟩
        (t.store.get key) = true
    · simp only [hc, if_true]
    · simp only [hc, Bool.false_eq_true, if_false]
  | get key linearizable => rfl

variable {ι : Type} [DecidableEq ι] [Fintype ι]

namespace System

/-- Every log and every state machine holds the operation of the request: whatever way the dictionary
that the leader appended takes, it is evaluated as what the client asked for. -/
theorem command_bytes_survive (cfg : Config ι KVStateMachine Result)
    (C : Cluster ι KVStateMachine Result → Raft.Event ι → Prop) (s : System ι)
    (h : Reachable cfg C s) (i : ι) (e : Entry)
    (he : e ∈ (s.raft.nodes i).log ∨ ∃ boot, e ∈ s.applied i boot) :
    (∃ term index, e = noopEntry term index) ∨
    ∃ k j boot req, .received k j boot req ∈ s.history ∧ .appended k e ∈ s.history ∧
      e = req.command.entry e.term e.index ∧
      (∀ hops : List Hop,
        (hops.foldlM Hop.carry (req.command.record e.term e.index)).bind evaluate =
          some req.operation) ∧
      ∀ t : Tables, t.applyOp loadCas e = ((req.operation.run t).1, .ok (req.operation.run t).2) := by
  have hs := sound h
  have hasked : s.Asked e := by
    obtain hlog | ⟨boot, happ⟩ := he
    · exact hs.asked.log i e hlog
    · obtain ⟨idx, r, hr⟩ := mem_applied.mp happ
      exact (hs.asked.applied i boot _ hr).1
  refine hasked.imp_right ?_
  rintro ⟨k, happ⟩
  obtain ⟨j, boot, req, hrec, hentry⟩ := hs.accounts.appended k e happ
  refine ⟨k, j, boot, req, hrec, happ, hentry, fun hops => ?_, fun t => ?_⟩
  · rw [← entry_record, carry_all, Option.bind_some, entry_record, evaluate_command]
  · rw [hentry]
    exact applyOp_operation t req e.term e.index

/-- The put of the run is in the follower's log. -/
theorem command_bytes_survive_follower : ∃ s : System (Fin 3), Reachable three Free s ∧
    secondEntry ∈ (s.raft.nodes 1).log ∧ ∃ k j boot req, .received k j boot req ∈ s.history ∧
      .appended k secondEntry ∈ s.history ∧
      ∀ hops : List Hop, (hops.foldlM Hop.carry (req.command.record 1 2)).bind evaluate =
        some req.operation := by
  obtain ⟨s, hs, hmem⟩ := Run.exists_of_execute (step three) (init three) secondFirst
    (fun s => secondEntry ∈ (s.raft.nodes 1).log) (by decide +kernel)
  have hr := reachable_of_run hs
  obtain ⟨term, index, hnoop⟩ | ⟨k, j, boot, req, hrec, happ, -, hhops, -⟩ :=
    command_bytes_survive three Free s hr 1 secondEntry (.inl hmem)
  · cases hnoop
  · exact ⟨s, hr, hmem, k, j, boot, req, hrec, happ, hhops⟩

end System

end DistributedStorage.Kv

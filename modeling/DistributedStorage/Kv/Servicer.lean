import DistributedStorage.Kv.Snapshot
import DistributedStorage.Raft.Engine

/-! The client-facing service of the key-value cluster: one handler for each request, in front of the
consensus node and the state machine of the process that received it. -/

namespace DistributedStorage.Kv

open Library Raft

inductive Request
  | put (key : String) (value : Bytes) (clientId : String) (seqNum : ℤ)
  | delete (key : String) (clientId : String) (seqNum : ℤ)
  | cas (key : String) (expected newValue : Bytes) (expectAbsent : Bool) (expectedVersion : ℤ)
      (clientId : String) (seqNum : ℤ)
  | get (key : String) (linearizable : Bool)
  deriving DecidableEq

namespace Request

/-- The condition and the new value travel together through one log entry. -/
def casCommand (expected newValue : Bytes) (expectAbsent : Bool) (expectedVersion : ℤ) : Bytes :=
  encodeUtf8 (Json.obj [("expected", b64encode expected), ("new", b64encode newValue),
    ("expect_absent", .bool expectAbsent), ("expected_version", .int expectedVersion)]).dumps

/-- What the request asks the log to hold; for a read this is its barrier. -/
def command : Request → Command
  | put key value clientId seqNum => ⟨.put, key, value, clientId, seqNum⟩
  | delete key clientId seqNum => ⟨.delete, key, [], clientId, seqNum⟩
  | cas key expected newValue expectAbsent expectedVersion clientId seqNum =>
    ⟨.cas, key, casCommand expected newValue expectAbsent expectedVersion, clientId, seqNum⟩
  | get _ _ => ⟨.noop, "", [], "", 0⟩

def clientId (req : Request) : String := req.command.clientId

def seqNum (req : Request) : ℤ := req.command.seqNum

def isGet : Request → Bool
  | get _ _ => true
  | _ => false

end Request

/-- What a handler ends with. An aborted call reaches the client as a transport error, and so does an
exception that the handler lets through. -/
inductive Reply (ι : Type)
  | aborted
  | failure (exc : Error ι)
  | written (result : Result)
  | read (value : Option Bytes × ℕ × Bool)
  deriving DecidableEq

section Responses

variable {ι : Type}

/-- `result.get(key, 0)` -/
def intField (result : Result) (key : String) : ℤ :=
  match result.get key with
  | some (.int n) => n
  | _ => 0

/-- `result.get(key, False)` -/
def boolField (result : Result) (key : String) : Bool :=
  match result.get key with
  | some (.bool b) => b
  | _ => false

/-- `result.get(key, b"") or b""` -/
def bytesField (result : Result) (key : String) : Bytes :=
  match result.get key with
  | some (.bytes b) => b
  | _ => []

structure PutResponse (ι : Type) where
  success : Bool
  version : ℤ
  error : Option (Error ι)
  deriving DecidableEq

structure DeleteResponse (ι : Type) where
  success : Bool
  existed : Bool
  error : Option (Error ι)

structure CasResponse (ι : Type) where
  success : Bool
  swapped : Bool
  current : Bytes
  version : ℤ
  error : Option (Error ι)

structure GetResponse (ι : Type) where
  success : Bool
  found : Bool
  value : Bytes
  version : ℤ
  error : Option (Error ι)

def Reply.put : Reply ι → Option (PutResponse ι)
  | .failure exc => some ⟨false, 0, some exc⟩
  | .written result => some ⟨true, intField result "version", none⟩
  | _ => none

def Reply.delete : Reply ι → Option (DeleteResponse ι)
  | .failure exc => some ⟨false, false, some exc⟩
  | .written result => some ⟨true, boolField result "existed", none⟩
  | _ => none

def Reply.cas : Reply ι → Option (CasResponse ι)
  | .failure exc => some ⟨false, false, [], 0, some exc⟩
  | .written result => some ⟨true, boolField result "swapped", bytesField result "current",
      intField result "version", none⟩
  | _ => none

def Reply.get : Reply ι → Option (GetResponse ι)
  | .failure exc => some ⟨false, false, [], 0, some exc⟩
  | .read (value, version, found) => some ⟨true, found, value.getD [], version, none⟩
  | _ => none

end Responses

/-- Where a handler is: what it does next. -/
inductive Stage
  | checkingIsolation
  | lookingUp
  | checkingLeader
  | redirecting
  | appending
  | waiting (w : ℕ)
  | reading
  deriving DecidableEq

structure Handler (ι : Type) where
  node : ι
  boot : ℕ
  request : Request
  stage : Stage
  deriving DecidableEq

inductive Progress (ι : Type)
  | goes (stage : Stage)
  | replies (reply : Reply ι)

/-- What clients and the log see of the handlers, in order. -/
inductive Exchange (ι : Type)
  | received (h : ℕ) (i : ι) (boot : ℕ) (request : Request)
  | appended (h : ℕ) (entry : Entry)
  | replied (h : ℕ) (reply : Reply ι)
  deriving DecidableEq

structure System (ι : Type) where
  raft : Cluster ι KVStateMachine Result
  handlers : ℕ → Option (Handler ι)
  nextHandler : ℕ
  history : List (Exchange ι)

inductive Event (ι : Type)
  | raft (e : Raft.Event ι)
  | receive (i : ι) (request : Request)
  | proceed (h : ℕ)
  | append (h : ℕ)
  | returns (h : ℕ)
  | timesOut (h : ℕ)

variable {ι : Type} [DecidableEq ι]

/-- One step of a handler that only looks at its node. -/
def Handler.proceed (cfg : Config ι KVStateMachine Result) (n : Node ι KVStateMachine Result)
    (request : Request) : Stage → Option (Progress ι)
  | .checkingIsolation => some <|
    if n.isolated then .replies .aborted
    else .goes (if request.isGet then .checkingLeader else .lookingUp)
  | .lookingUp => some <|
    match n.sm.lookupSession request.clientId request.seqNum with
    | some cached => .replies (.written cached)
    | none => .goes .checkingLeader
  | .checkingLeader => some <|
    if n.state ≠ .leader then .goes .redirecting
    else match request with
      | .get _ false => .goes .reading
      | _ => .goes .appending
  | .redirecting => some <|
    .replies (.failure (.notLeader n.leaderId (cfg.peer n.nodeId n.leaderId)))
  | .reading =>
    match request with
    | .get key _ => some (.replies (.read (n.sm.get key)))
    | _ => none
  | _ => none

/-- What `append_entry` gives a handler that waited for it. A noop has no result. -/
def Handler.finish (request : Request) : Except (Error ι) (Option Result) → Progress ι
  | .error exc => .replies (.failure exc)
  | .ok value =>
    if request.isGet then .goes .reading
    else match value with
      | some result => .replies (.written result)
      | none => .replies .aborted

namespace System

def init (cfg : Config ι KVStateMachine Result) : System ι where
  raft := Cluster.init cfg
  handlers _ := none
  nextHandler := 0
  history := []

/-- The handler, unless its process has crashed. -/
def live (s : System ι) (h : ℕ) : Option (Handler ι) :=
  (s.handlers h).filter fun hd => (s.raft.nodes hd.node).boot = hd.boot

def advance (s : System ι) (h : ℕ) (hd : Handler ι) : Progress ι → System ι
  | .goes stage =>
    { s with handlers := Function.update s.handlers h (some { hd with stage := stage }) }
  | .replies reply => { s with
      handlers := Function.update s.handlers h none
      history := s.history ++ [.replied h reply] }

def receive (s : System ι) (i : ι) (request : Request) : System ι :=
  { s with
    handlers := Function.update s.handlers s.nextHandler
      (some ⟨i, (s.raft.nodes i).boot, request, .checkingIsolation⟩)
    nextHandler := s.nextHandler + 1
    history := s.history ++ [.received s.nextHandler i (s.raft.nodes i).boot request] }

/-- The call of `append_entry`, up to its wait. -/
def append (cfg : Config ι KVStateMachine Result) (s : System ι) (h : ℕ) (hd : Handler ι) :
    System ι :=
  let n := s.raft.nodes hd.node
  match n.appendEntry cfg hd.request.command with
  | .ok (m, w) => { s with
      raft := s.raft.setNode hd.node m
      handlers := Function.update s.handlers h (some { hd with stage := .waiting w })
      history := s.history ++
        [.appended h (hd.request.command.entry n.currentTerm (n.lastLogIndex + 1))] }
  | .error exc => s.advance h hd (.replies (.failure exc))

variable [Fintype ι]

def step (cfg : Config ι KVStateMachine Result) (s : System ι) : Event ι → Option (System ι)
  | .raft e =>
    if engine e then (Cluster.step cfg s.raft e).map fun r => { s with raft := r } else none
  | .receive i request => some (s.receive i request)
  | .proceed h => (s.live h).bind fun hd =>
    (Handler.proceed cfg (s.raft.nodes hd.node) hd.request hd.stage).map (s.advance h hd)
  | .append h => (s.live h).bind fun hd =>
    if hd.stage = .appending then some (s.append cfg h hd) else none
  | .returns h => (s.live h).bind fun hd =>
    match hd.stage with
    | .waiting w => ((s.raft.nodes hd.node).callReturns w).bind fun out =>
      (Cluster.step cfg s.raft (.callReturns hd.node w)).map fun r =>
        { s with raft := r }.advance h hd (Handler.finish hd.request out.2.2)
    | _ => none
  | .timesOut h => (s.live h).bind fun hd =>
    match hd.stage with
    | .waiting w => ((s.raft.nodes hd.node).callTimesOut w).bind fun out =>
      (Cluster.step cfg s.raft (.callTimesOut hd.node w)).map fun r =>
        { s with raft := r }.advance h hd (.replies (.failure (.timeout out.2.index)))
    | _ => none

/-- A guard on the steps of the consensus engine, as a guard on the steps of the system. -/
def AtRaft (C : Cluster ι KVStateMachine Result → Raft.Event ι → Prop) (s : System ι) :
    Event ι → Prop
  | .raft e => C s.raft e
  | _ => True

instance {C : Cluster ι KVStateMachine Result → Raft.Event ι → Prop} [∀ s e, Decidable (C s e)]
    (s : System ι) (e : Event ι) : Decidable (AtRaft C s e) :=
  match e with
  | .raft e => inferInstanceAs (Decidable (C s.raft e))
  | .receive .. | .proceed _ | .append _ | .returns _ | .timesOut _ =>
    inferInstanceAs (Decidable True)

def Reachable (cfg : Config ι KVStateMachine Result)
    (C : Cluster ι KVStateMachine Result → Raft.Event ι → Prop) (s : System ι) : Prop :=
  Runs.Run (step cfg) (AtRaft C) (init cfg) s

end System

/-- The cluster's nodes run the key-value machine with at most `maxSessions` sessions. -/
def kv (loads : Bytes → Except String CasSpec) (maxSessions : ℕ) (address : ι → String) :
    Config ι KVStateMachine Result where
  address := address
  init := .init maxSessions
  apply := KVStateMachine.apply loads

end DistributedStorage.Kv

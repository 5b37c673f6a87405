import DistributedStorage.Gateway.Attempts
import DistributedStorage.Kv.VersionedMap

/-! The client stub of the key-value cluster, and the clients, the network and the cluster together. A stub
makes one call at a time; a call makes an attempt after the other, and the request of an attempt that has
failed may still arrive. -/

set_option linter.unusedSectionVars false

namespace DistributedStorage.Clients

open Gateway (StatusCode splitColon)
open Gateway.Write (replyTo)
open Library Library.Linearizability Raft Kv

/-- The public calls of a stub. -/
inductive ApiCall
  | put (key : String) (value : Bytes)
  | get (key : String) (linearizable : Bool)
  | getVersioned (key : String) (linearizable : Bool)
  | delete (key : String)
  | cas (key : String) (expected newValue : Bytes)
  | casVersion (key : String) (expectedVersion : ℤ) (newValue : Bytes)
  | putIfAbsent (key : String) (value : Bytes)
  deriving DecidableEq

/-- What they return. -/
inductive Value
  | version (n : ℤ)
  | value (value : Option Bytes)
  | versioned (value : Bytes) (version : ℤ) (found : Bool)
  | existed (b : Bool)
  | swapped (b : Bool)
  | swappedAt (b : Bool) (version : ℤ)
  deriving DecidableEq

namespace ApiCall

def isGet : ApiCall → Bool
  | get .. | getVersioned .. => true
  | _ => false

/-- A default read promises nothing. -/
def promises : ApiCall → Bool
  | get _ linearizable | getVersioned _ linearizable => linearizable
  | _ => true

/-- The request of a call, under the client's identity. -/
def request (clientId : String) (seqNum : ℕ) : ApiCall → Request
  | put key value => .put key value clientId seqNum
  | get key linearizable => .get key linearizable
  | getVersioned key linearizable => .get key linearizable
  | delete key => .delete key clientId seqNum
  | cas key expected newValue => .cas key expected newValue false 0 clientId seqNum
  | casVersion key expectedVersion newValue => .cas key [] newValue false expectedVersion clientId seqNum
  | putIfAbsent key value => .cas key [] value true 0 clientId seqNum

/-- What a call makes of the response to its request. -/
def value {ι : Type} (call : ApiCall) (reply : Reply ι) : Option Value :=
  match call with
  | put .. => reply.put.map fun resp => .version resp.version
  | get .. => reply.get.map fun resp => .value (if resp.found then some resp.value else none)
  | getVersioned .. => reply.get.map fun resp => .versioned resp.value resp.version resp.found
  | delete _ => reply.delete.map fun resp => .existed resp.existed
  | cas .. => reply.cas.map fun resp => .swapped resp.swapped
  | casVersion .. => reply.cas.map fun resp => .swappedAt resp.swapped resp.version
  | putIfAbsent .. => reply.cas.map fun resp => .swapped resp.swapped

end ApiCall

/-- `channel` is the address that the stub's channel goes to. -/
structure RaftKVClient where
  nodes : List (String × ℕ)
  nonempty : nodes ≠ []
  maxRetries : ℕ
  clientId : String
  seqNum : ℕ
  idx : ℕ
  channel : String

namespace RaftKVClient

variable (c : RaftKVClient)

def connect (idx : ℕ) : RaftKVClient :=
  let i := idx % c.nodes.length
  let node := c.nodes.getD i ("", 0)
  { c with
    idx := i
    channel := node.1 ++ ":" ++ toString node.2 }

/-- `RaftKVClient(nodes, max_retries)`, with the uuid that it draws. -/
def new (nodes : List (String × ℕ)) (nonempty : nodes ≠ []) (maxRetries : ℕ) (uuid : String) : RaftKVClient :=
  connect ⟨nodes, nonempty, maxRetries, uuid, 0, 0, ""⟩ 0

def connectToAddress (address : String) : RaftKVClient := { c with channel := address }

def nextNode : RaftKVClient := c.connect ((c.idx + 1) % c.nodes.length)

/-- The request of a public call, unless the call is refused. -/
def prepare : ApiCall → Except String (RaftKVClient × Request)
  | .casVersion key expectedVersion newValue =>
    if expectedVersion ≤ 0 then .error "expected_version must be >= 1 (use put_if_absent for new keys)"
    else .ok ({ c with seqNum := c.seqNum + 1 },
      (ApiCall.casVersion key expectedVersion newValue).request c.clientId (c.seqNum + 1))
  | call =>
    if call.isGet then .ok (c, call.request c.clientId c.seqNum)
    else .ok ({ c with seqNum := c.seqNum + 1 }, call.request c.clientId (c.seqNum + 1))

/-- Where a `NOT_LEADER` answer sends the stub. -/
def redirect (message : String) : RaftKVClient :=
  let parts := splitColon 2 message.toList
  if 2 < parts.length ∧ parts.getD 2 [] ≠ [] then c.connectToAddress (String.ofList (parts.getD 2 []))
  else c.nextNode

/-- Transport errors that are worth another attempt. -/
def retryable (code : StatusCode) : Bool :=
  code.name ∈ ["UNAVAILABLE", "DEADLINE_EXCEEDED", "RESOURCE_EXHAUSTED", "ABORTED"]

end RaftKVClient

/-- A call inside `_execute`, with the handler of its attempt once the request has arrived. -/
structure Execution where
  name : ℕ
  call : ApiCall
  request : Request
  attempt : ℕ
  lastError : String
  handler : Option ℕ

def Execution.again (e : Execution) (lastError : String) : Execution :=
  { e with
    attempt := e.attempt + 1
    lastError := lastError
    handler := none }

/-- What happens at the clients, in order. The calls are numbered as they are made; one that has no request
is refused at once. -/
inductive Occurrence (κ : Type)
  | invoked (k : ℕ) (c : κ) (call : ApiCall) (request : Option Request)
  | arrived (k h : ℕ)
  | returned (k h : ℕ) (call : ApiCall) (value : Value)
  | raised (k : ℕ) (message : String)
  deriving DecidableEq

/-- A request of an attempt that has failed, on its way to an address. -/
structure Letter where
  name : ℕ
  address : String
  request : Request

structure World (ι κ : Type) where
  system : System ι
  clients : κ → RaftKVClient
  executions : κ → Option Execution
  inTransit : List Letter
  nextCall : ℕ
  history : List (Occurrence κ)

inductive WorldEvent (ι κ : Type)
  | system (e : Kv.Event ι)
  | invokes (c : κ) (call : ApiCall)
  | arrives (c : κ)
  | arrivesLate (k : ℕ)
  | responds (c : κ)
  | fails (c : κ) (code : StatusCode) (details error : String)

/-- `server` is the process that listens at an address, `idText` is how the id of a node is printed, and
`exceptionName` is the class of an exception that has no text. -/
structure Network (ι : Type) where
  server : String → Option ι
  idText : ι → String
  exceptionName : String

variable {ι κ : Type}

/-- The `error_message` of a response. -/
def Network.errorMessage (net : Network ι) (isGet : Bool) : Error ι → String
  | .notLeader leaderId leaderAddress =>
    "NOT_LEADER:" ++ leaderId.elim "None" net.idText ++ ":" ++ leaderAddress.getD ""
  | .timeout index => "Entry " ++ toString index ++ " not committed within 10.0s"
  | .applyFailed message => if message = "" ∧ ¬ isGet then net.exceptionName else message

namespace World

variable [DecidableEq ι] [DecidableEq κ]

def init (cfg : Config ι KVStateMachine Result) (clients : κ → RaftKVClient) : World ι κ where
  system := System.init cfg
  clients := clients
  executions _ := none
  inTransit := []
  nextCall := 0
  history := []

def invoke (w : World ι κ) (c : κ) (call : ApiCall) : World ι κ :=
  match (w.clients c).prepare call with
  | .error _ => { w with
      nextCall := w.nextCall + 1
      history := w.history ++ [.invoked w.nextCall c call none] }
  | .ok (client, request) => { w with
      clients := Function.update w.clients c client
      executions := Function.update w.executions c (some ⟨w.nextCall, call, request, 0, "None", none⟩)
      nextCall := w.nextCall + 1
      history := w.history ++ [.invoked w.nextCall c call (some request)] }

/-- The request of call `k` arrives at `i`. -/
def arrive (w : World ι κ) (k : ℕ) (i : ι) (request : Request) : World ι κ :=
  { w with
    system := w.system.receive i request
    history := w.history ++ [.arrived k w.system.nextHandler] }

def raise (w : World ι κ) (c : κ) (k : ℕ) (message : String) : World ι κ :=
  { w with
    executions := Function.update w.executions c none
    history := w.history ++ [.raised k message] }

def finish (w : World ι κ) (c : κ) (k h : ℕ) (call : ApiCall) (value : Value) : World ι κ :=
  { w with
    executions := Function.update w.executions c none
    history := w.history ++ [.returned k h call value] }

/-- The next attempt, unless it was the last. -/
def retry (w : World ι κ) (c : κ) (client : RaftKVClient) (e : Execution) (lastError : String) : World ι κ :=
  let w' := { w with clients := Function.update w.clients c client }
  if e.attempt < client.maxRetries then
    { w' with
      executions := Function.update w.executions c (some (e.again lastError)) }
  else
    w'.raise c e.name ("RPC failed after " ++ toString client.maxRetries ++ " retries: " ++ lastError)

/-- The attempt is answered. An aborted call is a transport error. -/
def respond (net : Network ι) (w : World ι κ) (c : κ) (e : Execution) (h : ℕ) : Reply ι → Option (World ι κ)
  | .aborted => none
  | .failure exc =>
    let message := net.errorMessage e.request.isGet exc
    if "NOT_LEADER:".toList <+: message.toList then
      some (w.retry c ((w.clients c).redirect message) e e.lastError)
    else some (w.raise c e.name message)
  | .written result => (e.call.value (ι := ι) (.written result)).map (w.finish c e.name h e.call)
  | .read value => (e.call.value (ι := ι) (.read value)).map (w.finish c e.name h e.call)

/-- The attempt fails in transport, before its request arrives or after. -/
def fail (w : World ι κ) (c : κ) (e : Execution) (code : StatusCode) (details error : String) : World ι κ :=
  let w' : World ι κ := { w with
    inTransit := if e.handler = none then w.inTransit ++ [⟨e.name, (w.clients c).channel, e.request⟩]
      else w.inTransit }
  if RaftKVClient.retryable code then w'.retry c (w.clients c).nextNode e error
  else w'.raise c e.name ("gRPC error: " ++ details)

variable [Fintype ι]

/-- All requests come from the clients. -/
def step (net : Network ι) (cfg : Config ι KVStateMachine Result) (w : World ι κ) :
    WorldEvent ι κ → Option (World ι κ)
  | .system (.receive ..) => none
  | .system e => (System.step cfg w.system e).map fun s => { w with system := s }
  | .invokes c call =>
    match w.executions c with
    | none => some (w.invoke c call)
    | some _ => none
  | .arrives c =>
    match w.executions c with
    | some ⟨k, call, request, attempt, lastError, none⟩ =>
      (net.server (w.clients c).channel).map fun i =>
        { w.arrive k i request with
          executions := Function.update w.executions c
            (some ⟨k, call, request, attempt, lastError, some w.system.nextHandler⟩) }
    | _ => none
  | .arrivesLate k => (w.inTransit[k]?).bind fun l => (net.server l.address).map fun i =>
      { w.arrive l.name i l.request with inTransit := w.inTransit.eraseIdx k }
  | .responds c => (w.executions c).bind fun e => e.handler.bind fun h => (replyTo w.system h).bind
      (respond net w c e h)
  | .fails c code details error => (w.executions c).map fun e => w.fail c e code details error

/-- A guard on the steps of the consensus engine, as a guard on the steps of the world. -/
def AtRaft (C : Cluster ι KVStateMachine Result → Raft.Event ι → Prop) (w : World ι κ) :
    WorldEvent ι κ → Prop
  | .system e => System.AtRaft C w.system e
  | _ => True

instance decidableAtRaft {C : Cluster ι KVStateMachine Result → Raft.Event ι → Prop} [∀ s e, Decidable (C s e)]
    (w : World ι κ) (e : WorldEvent ι κ) : Decidable (AtRaft C w e) :=
  match e with
  | .system e => inferInstanceAs (Decidable (System.AtRaft C w.system e))
  | .invokes .. | .arrives _ | .arrivesLate _ | .responds _ | .fails .. => inferInstanceAs (Decidable True)

def operation : Occurrence κ → Option (Happening ℕ ApiCall Value)
  | .invoked k _ call _ => if call.promises then some (.invoked k call) else none
  | .arrived .. => none
  | .returned k _ call value => if call.promises then some (.answered k value) else none
  | .raised .. => none

/-- The calls that promise something, as the programs that make them see them. A call that raises an
exception is never answered. -/
def operations (w : World ι κ) : List (Happening ℕ ApiCall Value) :=
  w.history.filterMap operation

end World

end DistributedStorage.Clients

import DistributedStorage.Raft.Provenance
import DistributedStorage.Raft.StateMachineSafety
import DistributedStorage.Replication.Executions
import DistributedStorage.Replication.RaftServer

/-! The file servers in front of the consensus nodes: each handler asks the node of its own process, and each
entry that the node applies changes the files of its server. -/

set_option linter.unusedSectionVars false

namespace DistributedStorage.Replication

open Library Library.Runs Files

/-- What `_apply_entry` returns. -/
inductive ApplyResult
  | success
  | written (newVersion : ℕ)
  deriving DecidableEq

/-- `result.get("new_version", 0) if isinstance(result, dict) else 0` -/
def ApplyResult.newVersion : Option ApplyResult → ℕ
  | some (.written newVersion) => newVersion
  | _ => 0

/-- The versions in memory, which are rebuilt from the log after a restart. -/
def applyVersions (fileVersions : String → Option ℕ) (entry : Raft.Entry) :
    (String → Option ℕ) × Except String ApplyResult :=
  let version := (fileVersions entry.filename).getD 1
  match entry.opType with
  | .create => (Function.update fileVersions entry.filename (some version), .ok .success)
  | .write =>
    (Function.update fileVersions entry.filename (some (version + 1)), .ok (.written (version + 1)))
  | _ => (fileVersions, .ok .success)

/-- What an entry of the log asks the state machine for; a noop asks for nothing. -/
def Entry.ofLog (entry : Raft.Entry) : Option Entry :=
  match entry.opType with
  | .create => some ⟨.create, entry.filename, entry.data, ⟨entry.clientId, entry.seqNum⟩, none⟩
  | .write => some ⟨.write, entry.filename, entry.data, ⟨entry.clientId, entry.seqNum⟩, none⟩
  | _ => none

/-- The identity an entry was appended for. -/
def caller (entry : Raft.Entry) : Caller := ⟨entry.clientId, entry.seqNum⟩

/-- The entry creates the file `f`. -/
def Creates (f : String) (entry : Raft.Entry) : Prop := entry.opType = .create ∧ entry.filename = f

instance (f : String) (entry : Raft.Entry) : Decidable (Creates f entry) := inferInstanceAs (Decidable (_ ∧ _))

namespace RaftCall

/-- The first step of each handler. -/
def IsRequest : RaftCall → Bool
  | .create .. | .open .. | .close .. | .testVersionNumber _ => true
  | _ => false

/-- What a request is to do under its identity. -/
def operation : RaftCall → Option (Operation × Caller)
  | .create f who => some (.create f, who)
  | .close handle _ who => some (.close handle, who)
  | _ => none

/-- The call of `append_entry` a handler is about to make. -/
def command : RaftCall → Option Raft.Command
  | .createAppend f who => some ⟨.create, f, [], who.clientId, who.seqNum⟩
  | .closeAppend f data who => some ⟨.write, f, data, who.clientId, who.seqNum⟩
  | _ => none

/-- The RPC and the identity a handler works for. -/
def identity : RaftCall → Option (Rpc × Caller)
  | .create _ who | .createDedup _ who | .createRole _ who | .createExists _ who | .createAppend _ who
  | .createWait _ who | .createStore who => some (.create, who)
  | .close _ _ who | .closeDedup _ _ who | .closePop _ _ who | .closeRole _ _ who | .closeAppend _ _ who
  | .closeWait _ who | .closeStore _ who => some (.close, who)
  | _ => none

/-- The file that a Create is still to create. -/
def creates : RaftCall → Option (String × Caller)
  | .create f who | .createDedup f who | .createRole f who | .createExists f who | .createAppend f who
  | .createWait f who => some (f, who)
  | _ => none

/-- The look of a Create into the cache. -/
def checks : RaftCall → Option Caller
  | .createDedup _ who => some who
  | _ => none

/-- The handler waits in `append_entry`. -/
def Waits : RaftCall → Bool
  | .createWait .. | .closeWait .. => true
  | _ => false

end RaftCall

/-- Success, as the response of whichever RPC. -/
def Reply.Succeeds : Reply → Prop
  | .created | .closed _ => True
  | _ => False

structure RaftHandler (ι : Type) where
  node : ι
  boot : ℕ
  request : RaftCall
  stage : RaftCall
  frame : Option ℕ
  deriving DecidableEq

/-- `asked` is what was first asked for under an identity, `answers` what was answered to which request, and
`appended` the entries of the handlers, each after the log it was appended to. -/
structure RaftFiles (ι : Type) where
  raft : Raft.Cluster ι (String → Option ℕ) ApplyResult
  servers : ι → RaftDSFSServicer
  handlers : ℕ → Option (RaftHandler ι)
  nextHandler : ℕ
  asked : Caller → Option Operation
  answers : List (RaftCall × Reply)
  appended : List (List Raft.Entry × Raft.Entry)

namespace RaftFiles

inductive Act (ι : Type)
  | raft (e : Raft.Event ι)
  | receive (i : ι) (request : RaftCall)
  | proceed (h : ℕ)
  | append (h : ℕ)
  | returns (h : ℕ)
  | timesOut (h : ℕ)

variable {ι : Type} [DecidableEq ι] (name address : ι → String)

def config : Raft.Config ι (String → Option ℕ) ApplyResult := ⟨address, fun _ => none, applyVersions⟩

/-- Every server has just started on its files. -/
def init (disk : ι → String → Option FileData) : RaftFiles ι where
  raft := Raft.Cluster.init (config address)
  servers i := (⟨disk i, fun _ => none, fun _ => none, 1, fun _ => none⟩ : RaftDSFSServicer)
  handlers _ := none
  nextHandler := 0
  asked _ := none
  answers := []
  appended := []

def leaderName (leaderId : Option ι) : String := (leaderId.map name).getD "None"

/-- What a node tells a handler that asks. -/
def look (n : Raft.Node ι (String → Option ℕ) ApplyResult) : RaftAnswer where
  isolated := n.isolated
  isLeader := n.state = .leader
  leaderId := leaderName name n.leaderId
  leaderAddress := ((config address).peer n.nodeId n.leaderId).getD ""
  result := .notLeader

/-- How `append_entry` ends. -/
def ended : Except (Raft.Error ι) (Option ApplyResult) → RaftAnswer
  | .ok value => ⟨false, true, "", "", .applied (ApplyResult.newVersion value)⟩
  | .error (.notLeader leaderId leaderAddress) =>
    ⟨false, false, leaderName name leaderId, leaderAddress.getD "", .notLeader⟩
  | .error (.timeout index) =>
    ⟨false, true, "", "", .error ("Entry " ++ toString index ++ " not committed within 10.0s")⟩
  | .error (.applyFailed message) => ⟨false, true, "", "", .error message⟩

/-- The handler, unless its process has crashed. -/
def live (x : RaftFiles ι) (h : ℕ) : Option (RaftHandler ι) :=
  (x.handlers h).filter fun hd => (x.raft.nodes hd.node).boot = hd.boot

/-- A step of a handler at its server, with what it has heard from its node. -/
def runs (x : RaftFiles ι) (h : ℕ) (hd : RaftHandler ι) (a : RaftAnswer) (frame : Option ℕ) : RaftFiles ι :=
  let out := (x.servers hd.node).run a hd.stage
  let servers := Function.update x.servers hd.node out.1
  match out.2 with
  | .goesOn c =>
    { x with
      servers := servers
      handlers := Function.update x.handlers h (some { hd with stage := c, frame := frame }) }
  | .returns r =>
    { x with
      servers := servers
      handlers := Function.update x.handlers h none
      answers := x.answers ++ [(hd.request, r)] }

def ask (x : RaftFiles ι) : Option (Operation × Caller) → Caller → Option Operation
  | some p => Function.update x.asked p.2 (some p.1)
  | none => x.asked

def receive (x : RaftFiles ι) (i : ι) (request : RaftCall) : RaftFiles ι :=
  { x with
    handlers := Function.update x.handlers x.nextHandler
      (some ⟨i, (x.raft.nodes i).boot, request, request, none⟩)
    nextHandler := x.nextHandler + 1
    asked := x.ask request.operation }

/-- A request under the identity of an earlier one is a retry of it. -/
def Repeats (x : RaftFiles ι) (request : RaftCall) : Prop :=
  ∀ p ∈ request.operation, p.2.Keyed → ∀ op ∈ x.asked p.2, op = p.1

instance (x : RaftFiles ι) (request : RaftCall) : Decidable (x.Repeats request) :=
  inferInstanceAs (Decidable (∀ p ∈ request.operation, p.2.Keyed → ∀ op ∈ x.asked p.2, op = p.1))

/-- The node at which a message makes a process crash. -/
def crashSite (s : Raft.Cluster ι (String → Option ℕ) ApplyResult) : Raft.Event ι → Option ι
  | .crash i => some i
  | .deliverAndCrash k =>
    match s.sent[k]? with
    | some (.requestVote dst _ _) => some dst
    | some (.appendEntries dst _ _) => some dst
    | _ => none
  | _ => none

def recover (x : RaftFiles ι) : Option ι → ι → RaftDSFSServicer
  | some i => Function.update x.servers i (x.servers i).restart
  | none => x.servers

def apply (x : RaftFiles ι) (i : ι) : Option Entry → ι → RaftDSFSServicer
  | some entry => Function.update x.servers i ((x.servers i).applyEntry entry)
  | none => x.servers

/-- What a step of the nodes does to the servers: an entry is applied, or a server starts again. -/
def follow (x : RaftFiles ι) : Raft.Event ι → ι → RaftDSFSServicer
  | .applierApplies i =>
    x.apply i (((x.raft.nodes i).applierApplies (config address)).bind fun out => Entry.ofLog out.2.2.1)
  | e => x.recover (crashSite x.raft e)

/-- `append_entry` up to its wait. -/
def append (x : RaftFiles ι) (h : ℕ) (hd : RaftHandler ι) (cmd : Raft.Command) : RaftFiles ι :=
  let n := x.raft.nodes hd.node
  match n.appendEntry (config address) cmd with
  | .ok (m, w) =>
    { x with
      raft := x.raft.setNode hd.node m
      appended := x.appended ++ [(n.log, cmd.entry n.currentTerm (n.lastLogIndex + 1))] }.runs h hd
      (look name address n) (some w)
  | .error exc => x.runs h hd (ended name (.error exc)) none

variable [Fintype ι]

def step (x : RaftFiles ι) : Act ι → Option (RaftFiles ι)
  | .raft e =>
    if Raft.engine e then
      (Raft.Cluster.step (config address) x.raft e).map fun r =>
        { x with raft := r, servers := x.follow address e }
    else none
  | .receive i request =>
    if request.IsRequest = true ∧ x.Repeats request then some (x.receive i request) else none
  | .proceed h => (x.live h).bind fun hd =>
    if hd.stage.command = none ∧ hd.stage.Waits = false then
      some (x.runs h hd (look name address (x.raft.nodes hd.node)) none)
    else none
  | .append h => (x.live h).bind fun hd => hd.stage.command.map (x.append name address h hd)
  | .returns h => (x.live h).bind fun hd => hd.frame.bind fun w =>
    ((x.raft.nodes hd.node).callReturns w).bind fun out =>
      (Raft.Cluster.step (config address) x.raft (.callReturns hd.node w)).map fun r =>
        { x with raft := r }.runs h hd (ended name out.2.2) none
  | .timesOut h => (x.live h).bind fun hd => hd.frame.bind fun w =>
    ((x.raft.nodes hd.node).callTimesOut w).bind fun out =>
      (Raft.Cluster.step (config address) x.raft (.callTimesOut hd.node w)).map fun r =>
        { x with raft := r }.runs h hd (ended name (.error (.timeout out.2.index))) none

end RaftFiles

end DistributedStorage.Replication

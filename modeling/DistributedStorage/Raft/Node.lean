import Mathlib.Data.Fintype.Card
import Mathlib.Logic.Function.Basic

/-! The state of one consensus node: its log entries, the messages it exchanges, the threads and
waiters it keeps, and the two files it survives a crash with. -/

namespace DistributedStorage.Raft

abbrev Bytes := List UInt8

inductive OpType
  | noop
  | put
  | delete
  | cas
  | create
  | write
  | snapshot
  | other (name : String)
  deriving DecidableEq, Repr

structure Entry where
  term : ℕ
  index : ℕ
  opType : OpType
  filename : String
  data : Bytes
  clientId : String
  seqNum : ℤ
  deriving DecidableEq, Repr

/-- The entry a new leader appends to commit the entries of earlier terms. -/
def noopEntry (term index : ℕ) : Entry :=
  ⟨term, index, .noop, "", [], "", 0⟩

/-- What a caller of `appendEntry` asks for. -/
structure Command where
  opType : OpType
  filename : String
  data : Bytes
  clientId : String
  seqNum : ℤ
  deriving DecidableEq, Repr

def Command.entry (c : Command) (term index : ℕ) : Entry :=
  ⟨term, index, c.opType, c.filename, c.data, c.clientId, c.seqNum⟩

inductive Role
  | follower
  | candidate
  | leader
  deriving DecidableEq, Repr

structure RequestVoteArgs (ι : Type) where
  term : ℕ
  candidateId : ι
  lastLogIndex : ℕ
  lastLogTerm : ℕ
  deriving DecidableEq

structure RequestVoteReply where
  term : ℕ
  voteGranted : Bool
  deriving DecidableEq

structure AppendEntriesArgs (ι : Type) where
  term : ℕ
  leaderId : ι
  prevLogIndex : ℕ
  prevLogTerm : ℕ
  entries : List Entry
  leaderCommit : ℕ
  deriving DecidableEq

structure AppendEntriesReply where
  term : ℕ
  success : Bool
  conflictIndex : ℕ
  conflictTerm : ℕ
  deriving DecidableEq

/-- The exceptions a waiting caller can be handed. -/
inductive Error (ι : Type)
  | notLeader (leaderId : Option ι) (leaderAddress : Option String)
  | timeout (index : ℕ)
  | applyFailed (message : String)
  deriving DecidableEq

/-- The locals of one `_start_election` thread and of the vote requests it started. -/
structure Election (ι : Type) where
  lastLogIndex : ℕ
  lastLogTerm : ℕ
  votesNeeded : ℕ
  votes : ℕ
  asking : Finset ι
  running : Bool

/-- The frame of one `append_entry` call, with the waiter it shares with the applier. -/
structure Call (ι ρ : Type) where
  index : ℕ
  entry : Entry
  term : ℕ
  clientId : String
  seqNum : ℤ
  event : Bool
  result : Option (Except (Error ι) ρ)
  deriving DecidableEq

/-- `hardState` and `logFile` are the two files in the persist directory. Missing keys of
`nextIndex` and `matchIndex` read as the defaults 1 and 0 of their lookups. `calls` holds the frames
of the `append_entry` calls by number, and `commitWaiters` maps a log index to such a number. -/
structure Node (ι σ ρ : Type) where
  nodeId : ι
  boot : ℕ
  hardState : Option (ℕ × Option ι)
  logFile : Option (List Entry)
  currentTerm : ℕ
  votedFor : Option ι
  log : List Entry
  commitIndex : ℕ
  lastApplied : ℕ
  state : Role
  leaderId : Option ι
  nextIndex : ι → ℕ
  matchIndex : ι → ℕ
  timerArmed : Bool
  firedTimers : ℕ
  elections : ℕ → Option (Election ι)
  nextCall : ℕ
  calls : ℕ → Option (Call ι ρ)
  commitWaiters : ℕ → Option ℕ
  toApply : List (ℕ × Entry)
  applyResult : Option (Option (Except (Error ι) ρ))
  sm : σ
  isolated : Bool

/-- What a cluster is configured with: the nodes' addresses and the state machine behind
`apply_fn`, whose exceptions carry a message. -/
structure Config (ι σ ρ : Type) where
  address : ι → String
  init : σ
  apply : σ → Entry → σ × Except String ρ

variable {ι σ ρ : Type} [DecidableEq ι]

/-- `peers.get(id)`: a node does not list itself among its peers. -/
def Config.peer (cfg : Config ι σ ρ) (self : ι) (id : Option ι) : Option String :=
  id.bind fun j => if j = self then none else some (cfg.address j)

namespace Node

/-- A process that has just started from what the two files hold. -/
def start (cfg : Config ι σ ρ) (i : ι) (boot : ℕ) (hardState : Option (ℕ × Option ι))
    (logFile : Option (List Entry)) : Node ι σ ρ where
  nodeId := i
  boot := boot
  hardState := hardState
  logFile := logFile
  currentTerm := (hardState.map Prod.fst).getD 0
  votedFor := hardState.bind Prod.snd
  log := logFile.getD []
  commitIndex := 0
  lastApplied := 0
  state := .follower
  leaderId := none
  nextIndex _ := 1
  matchIndex _ := 0
  timerArmed := true
  firedTimers := 0
  elections _ := none
  nextCall := 0
  calls _ := none
  commitWaiters _ := none
  toApply := []
  applyResult := none
  sm := cfg.init
  isolated := false

def restart (cfg : Config ι σ ρ) (n : Node ι σ ρ) : Node ι σ ρ :=
  start cfg n.nodeId (n.boot + 1) n.hardState n.logFile

def lastLogIndex (n : Node ι σ ρ) : ℕ :=
  (n.log.getLast?.map Entry.index).getD 0

def lastLogTerm (n : Node ι σ ρ) : ℕ :=
  (n.log.getLast?.map Entry.term).getD 0

def persistHardState (n : Node ι σ ρ) : Node ι σ ρ :=
  { n with hardState := some (n.currentTerm, n.votedFor) }

def persistLog (n : Node ι σ ρ) : Node ι σ ρ :=
  { n with logFile := some n.log }

def resetElectionTimer (n : Node ι σ ρ) : Node ι σ ρ :=
  { n with timerArmed := true }

/-- The waiter numbered `w` is still in the map of pending waiters. -/
def Pending (n : Node ι σ ρ) (w : ℕ) (c : Call ι ρ) : Prop :=
  n.commitWaiters c.index = some w

instance (n : Node ι σ ρ) (w : ℕ) (c : Call ι ρ) : Decidable (n.Pending w c) :=
  inferInstanceAs (Decidable (_ = _))

/-- `waiter["result"]` is only set where it is still `None`; the event is set in any case. -/
def failAllWaiters (n : Node ι σ ρ) (exc : Error ι) : Node ι σ ρ :=
  { n with
    calls := fun w => (n.calls w).map fun c =>
      if n.Pending w c then
        { c with result := c.result.or (some (.error exc)), event := true }
      else c
    commitWaiters := fun _ => none }

def becomeFollower (n : Node ι σ ρ) (term : ℕ) : Node ι σ ρ :=
  ({ n with state := .follower, currentTerm := term, votedFor := none }
    |>.persistHardState.resetElectionTimer).failAllWaiters (.notLeader none none)

def candidateLogUpToDate (n : Node ι σ ρ) (candLastIdx candLastTerm : ℕ) : Bool :=
  if candLastTerm ≠ n.lastLogTerm then n.lastLogTerm < candLastTerm
  else n.lastLogIndex ≤ candLastIdx

end Node

end DistributedStorage.Raft

import DistributedStorage.Library.Runs
import DistributedStorage.Raft.Handlers
import Mathlib.Data.Fintype.Fin

/-! The cluster: every node, every message sent so far, and what can be observed of a run. A message
stays in `sent`, so it may arrive late, out of order, more than once or never. Each event is one lock
section of one thread. -/

namespace DistributedStorage.Raft

open Library.Runs

set_option linter.unusedSectionVars false

/-- A request or a reply. A reply comes with the request it answers, since only the thread that sent
the request sees it; `boot` tells which process of the sender that thread belongs to. -/
inductive Message (ι : Type)
  | requestVote (dst : ι) (boot : ℕ) (args : RequestVoteArgs ι)
  | requestVoteReply (src : ι) (boot : ℕ) (args : RequestVoteArgs ι) (reply : RequestVoteReply)
  | appendEntries (dst : ι) (boot : ℕ) (args : AppendEntriesArgs ι)
  | appendEntriesReply (src : ι) (boot : ℕ) (args : AppendEntriesArgs ι) (reply : AppendEntriesReply)
  deriving DecidableEq

inductive Observation (ι ρ : Type)
  | elected (i : ι) (term : ℕ)
  | applied (i : ι) (boot index : ℕ) (entry : Entry) (result : Option (Except (Error ι) ρ))
  | returned (i : ι) (boot w : ℕ) (call : Call ι ρ) (value : Option ρ)
  | raised (i : ι) (boot w : ℕ) (call : Call ι ρ) (exc : Error ι)
  deriving DecidableEq

structure Cluster (ι σ ρ : Type) where
  nodes : ι → Node ι σ ρ
  sent : List (Message ι)
  trace : List (Observation ι ρ)

/-- Messages are named by their position in `sent`. -/
inductive Event (ι : Type)
  | timerFires (i : ι)
  | startElection (i : ι)
  | sendRequestVote (i : ι) (term : ℕ) (peer : ι)
  | electionEnds (i : ι) (term : ℕ)
  | sendAppendEntries (i : ι) (peer : ι)
  | deliver (k : ℕ)
  | deliverAndCrash (k : ℕ)
  | appendEntry (i : ι) (cmd : Command)
  | callReturns (i : ι) (w : ℕ)
  | callTimesOut (i : ι) (w : ℕ)
  | applierTakes (i : ι)
  | applierApplies (i : ι)
  | applierResolves (i : ι)
  | setIsolated (i : ι) (isolated : Bool)
  | crash (i : ι)

-- one proof for every literal of `Fin 3`, and of `Fin 5`
instance neZero_three : @NeZero ℕ Zero.ofOfNat0 3 := ⟨Nat.succ_ne_zero 2⟩

instance neZero_five : @NeZero ℕ Zero.ofOfNat0 5 := ⟨Nat.succ_ne_zero 4⟩

variable {ι σ ρ : Type} [DecidableEq ι]

namespace Cluster

def init (cfg : Config ι σ ρ) : Cluster ι σ ρ where
  nodes i := Node.start cfg i 0 none none
  sent := []
  trace := []

def setNode (s : Cluster ι σ ρ) (i : ι) (n : Node ι σ ρ) : Cluster ι σ ρ :=
  { s with nodes := Function.update s.nodes i n }

def send (s : Cluster ι σ ρ) (m : Message ι) : Cluster ι σ ρ :=
  { s with sent := s.sent ++ [m] }

def observe (s : Cluster ι σ ρ) (o : Observation ι ρ) : Cluster ι σ ρ :=
  { s with trace := s.trace ++ [o] }

def sendReply (s : Cluster ι σ ρ) (src : ι) (boot : ℕ) (args : AppendEntriesArgs ι) :
    Option AppendEntriesReply → Cluster ι σ ρ
  | some reply => s.send (.appendEntriesReply src boot args reply)
  | none => s

section

variable (s : Cluster ι σ ρ) (i j : ι) (n : Node ι σ ρ) (m : Message ι) (o : Observation ι ρ)

@[simp] lemma setNode_nodes : (s.setNode i n).nodes = Function.update s.nodes i n := rfl
@[simp] lemma setNode_sent : (s.setNode i n).sent = s.sent := rfl
@[simp] lemma setNode_trace : (s.setNode i n).trace = s.trace := rfl
@[simp] lemma send_nodes : (s.send m).nodes = s.nodes := rfl
@[simp] lemma send_sent : (s.send m).sent = s.sent ++ [m] := rfl
@[simp] lemma send_trace : (s.send m).trace = s.trace := rfl
@[simp] lemma observe_nodes : (s.observe o).nodes = s.nodes := rfl
@[simp] lemma observe_sent : (s.observe o).sent = s.sent := rfl
@[simp] lemma observe_trace : (s.observe o).trace = s.trace ++ [o] := rfl

end

variable [Fintype ι]

/-- A message arrives. An isolated node rejects requests, but its own threads still see replies. -/
def deliver (s : Cluster ι σ ρ) : Message ι → Option (Cluster ι σ ρ)
  | .requestVote dst boot args =>
    if (s.nodes dst).isolated then none
    else
      let out := (s.nodes dst).handleRequestVote args
      some ((s.setNode dst out.1).send (.requestVoteReply dst boot args out.2))
  | .requestVoteReply src boot args reply =>
    if (s.nodes args.candidateId).boot = boot then
      ((s.nodes args.candidateId).handleRequestVoteReply src args.term reply).map
        (s.setNode args.candidateId)
    else none
  | .appendEntries dst boot args =>
    if (s.nodes dst).isolated then none
    else
      let out := (s.nodes dst).handleAppendEntries args
      some ((s.setNode dst out.1).sendReply dst boot args out.2)
  | .appendEntriesReply src boot args reply =>
    if (s.nodes args.leaderId).boot = boot then
      some (s.setNode args.leaderId
        ((s.nodes args.leaderId).handleAppendEntriesReply src args reply))
    else none

/-- The receiver of a request crashes inside its handler, after the first write of the hard state
and before the log or the vote is written. -/
def deliverAndCrash (cfg : Config ι σ ρ) (s : Cluster ι σ ρ) : Message ι → Option (Cluster ι σ ρ)
  | .requestVote dst _ args =>
    some (s.setNode dst (((s.nodes dst).stepDownForVote args.term).restart cfg))
  | .appendEntries dst _ args =>
    if args.term < (s.nodes dst).currentTerm then none
    else some (s.setNode dst (((s.nodes dst).stepDownForAppend args.term).restart cfg))
  | _ => none

def step (cfg : Config ι σ ρ) (s : Cluster ι σ ρ) : Event ι → Option (Cluster ι σ ρ)
  | .timerFires i => (s.nodes i).timerFires.map (s.setNode i)
  | .startElection i => (s.nodes i).startElection.map (s.setNode i)
  | .sendRequestVote i term peer =>
    ((s.nodes i).requestVoteArgs term peer).map fun args =>
      s.send (.requestVote peer (s.nodes i).boot args)
  | .electionEnds i term =>
    ((s.nodes i).electionEnds term).map fun out =>
      if out.2 then (s.setNode i out.1).observe (.elected i term) else s.setNode i out.1
  | .sendAppendEntries i peer =>
    ((s.nodes i).appendEntriesArgs peer).map fun args =>
      s.send (.appendEntries peer (s.nodes i).boot args)
  | .deliver k => s.sent[k]?.bind s.deliver
  | .deliverAndCrash k => s.sent[k]?.bind (s.deliverAndCrash cfg)
  | .appendEntry i cmd =>
    match (s.nodes i).appendEntry cfg cmd with
    | .ok out => some (s.setNode i out.1)
    | .error _ => none
  | .callReturns i w =>
    ((s.nodes i).callReturns w).map fun out =>
      (s.setNode i out.1).observe (match out.2.2 with
        | .ok value => .returned i (s.nodes i).boot w out.2.1 value
        | .error exc => .raised i (s.nodes i).boot w out.2.1 exc)
  | .callTimesOut i w =>
    ((s.nodes i).callTimesOut w).map fun out =>
      (s.setNode i out.1).observe
        (.raised i (s.nodes i).boot w out.2 (.timeout out.2.index))
  | .applierTakes i => (s.nodes i).applierTakes.map (s.setNode i)
  | .applierApplies i =>
    ((s.nodes i).applierApplies cfg).map fun out =>
      (s.setNode i out.1).observe (.applied i (s.nodes i).boot out.2.1 out.2.2.1 out.2.2.2)
  | .applierResolves i => ((s.nodes i).applierResolves cfg).map (s.setNode i)
  | .setIsolated i isolated => some (s.setNode i ((s.nodes i).setIsolated isolated))
  | .crash i => some (s.setNode i ((s.nodes i).restart cfg))

/-- The cluster states reachable when every step satisfies the guard. -/
def Reachable (cfg : Config ι σ ρ) (C : Cluster ι σ ρ → Event ι → Prop) (s : Cluster ι σ ρ) : Prop :=
  Run (step cfg) C (init cfg) s

/-- `n` nodes in front of a state machine that does nothing. -/
def stateless (n : ℕ) : Config (Fin n) Unit Unit := ⟨fun _ => "", (), fun _ _ => ((), .ok ())⟩

/-- An election of `i` in which `voters` are asked and answer, the first request being message `k`. -/
def campaign (i : ι) (term k : ℕ) (voters : List ι) : List (Event ι) :=
  [.timerFires i, .startElection i] ++
    (voters.zipIdx.flatMap fun (j, n) =>
      [.sendRequestVote i term j, .deliver (k + 2 * n), .deliver (k + 2 * n + 1)]) ++
    [.electionEnds i term]

/-- One round of replication from `i` to `j`, the request being message `k`. -/
def replicate (i j : ι) (k : ℕ) : List (Event ι) :=
  [.sendAppendEntries i j, .deliver k, .deliver (k + 1)]

end Cluster

end DistributedStorage.Raft

import DistributedStorage.Raft.Node

/-! The node's lock sections: vote and append handlers, elections, replication replies, commit and
the applier. A handler that raises has no reply. -/

namespace DistributedStorage.Raft.Node

variable {ι σ ρ : Type} [DecidableEq ι]

/-- The part of `handle_request_vote` before the vote is decided. -/
def stepDownForVote (n : Node ι σ ρ) (term : ℕ) : Node ι σ ρ :=
  if n.currentTerm < term then n.becomeFollower term else n

def handleRequestVote (n : Node ι σ ρ) (args : RequestVoteArgs ι) :
    Node ι σ ρ × RequestVoteReply :=
  let n := n.stepDownForVote args.term
  if n.currentTerm ≤ args.term ∧
      (n.votedFor = none ∨ n.votedFor = some args.candidateId) ∧
      n.candidateLogUpToDate args.lastLogIndex args.lastLogTerm = true then
    let n := { n with votedFor := some args.candidateId } |>.persistHardState.resetElectionTimer
    (n, ⟨n.currentTerm, true⟩)
  else (n, ⟨n.currentTerm, false⟩)

/-- The scan `while ci > 1 and log[ci - 2].term == conflict_term`. -/
def firstIndexOfTerm (log : List Entry) (conflictTerm : ℕ) : ℕ → ℕ
  | ci + 2 =>
    if (log[ci]?.map Entry.term) = some conflictTerm then
      firstIndexOfTerm log conflictTerm (ci + 1)
    else ci + 2
  | ci => ci

/-- The loop over the entries of a request: keep what agrees by term, truncate at a conflict. -/
def insertEntries (log : List Entry) (insertAt : ℕ) : List Entry → List Entry
  | [] => log
  | entry :: entries =>
    match log[insertAt]? with
    | some old =>
      if old.term ≠ entry.term then
        insertEntries (log.take insertAt ++ [entry]) (insertAt + 1) entries
      else insertEntries log (insertAt + 1) entries
    | none => insertEntries (log ++ [entry]) (insertAt + 1) entries

/-- The part of `handle_append_entries` before the log is looked at. -/
def stepDownForAppend (n : Node ι σ ρ) (term : ℕ) : Node ι σ ρ :=
  if n.currentTerm < term then n.becomeFollower term
  else if n.state = .candidate then n.becomeFollower term
  else n

/-- The check of the entry before the batch: the reply that rejects, or nothing. The outer `none`
is the `IndexError` of `log[prev_idx - 1]`. -/
def checkPrevious (n : Node ι σ ρ) (prevIdx prevTerm : ℕ) : Option (Option AppendEntriesReply) :=
  if prevIdx = 0 then some none
  else if n.lastLogIndex < prevIdx then
    some (some ⟨n.currentTerm, false, n.lastLogIndex + 1, 0⟩)
  else match n.log[prevIdx - 1]? with
    | none => none
    | some existing =>
      if existing.term ≠ prevTerm then
        some (some ⟨n.currentTerm, false, firstIndexOfTerm n.log existing.term prevIdx,
          existing.term⟩)
      else some none

def updateCommit (n : Node ι σ ρ) (ldrCommit : ℕ) : Node ι σ ρ :=
  if n.commitIndex < ldrCommit then { n with commitIndex := min ldrCommit n.lastLogIndex } else n

def storeEntries (n : Node ι σ ρ) (prevIdx : ℕ) (entries : List Entry) : Node ι σ ρ :=
  if entries = [] then n
  else { n with log := insertEntries n.log prevIdx entries }.persistLog

def handleAppendEntries (n : Node ι σ ρ) (args : AppendEntriesArgs ι) :
    Node ι σ ρ × Option AppendEntriesReply :=
  if args.term < n.currentTerm then (n, some ⟨n.currentTerm, false, 0, 0⟩)
  else
    let n := { n.stepDownForAppend args.term with leaderId := some args.leaderId }
      |>.resetElectionTimer
    match n.checkPrevious args.prevLogIndex args.prevLogTerm with
    | none => (n, none)
    | some (some reply) => (n, some reply)
    | some none =>
      let n := (n.storeEntries args.prevLogIndex args.entries).updateCommit args.leaderCommit
      (n, some ⟨n.currentTerm, true, 0, 0⟩)

/-- The timer runs out: its thread is started, the timer itself is spent. -/
def timerFires (n : Node ι σ ρ) : Option (Node ι σ ρ) :=
  if n.timerArmed then
    some { n with timerArmed := false, firedTimers := n.firedTimers + 1 }
  else none

def setElection (n : Node ι σ ρ) (term : ℕ) (el : Election ι) : Node ι σ ρ :=
  { n with elections := Function.update n.elections term (some el) }

section Elections

variable [Fintype ι]

def peers (n : Node ι σ ρ) : Finset ι :=
  Finset.univ.erase n.nodeId

def majority (n : Node ι σ ρ) : ℕ :=
  (n.peers.card + 1) / 2 + 1

/-- The first lock section of `_start_election`, run by the thread of a timer that fired. -/
def startElection (n : Node ι σ ρ) : Option (Node ι σ ρ) :=
  if n.firedTimers = 0 then none
  else
    let n := { n with firedTimers := n.firedTimers - 1 }
    if n.state = .leader then some n
    else
      let term := n.currentTerm + 1
      let n := { n with
        state := .candidate
        currentTerm := term
        votedFor := some n.nodeId
        leaderId := none }.persistHardState
      some (n.setElection term
        ⟨n.lastLogIndex, n.lastLogTerm, n.majority, 1, n.peers, true⟩)

/-- The request of one `request_vote_from` thread, which drops it while the node is isolated. -/
def requestVoteArgs (n : Node ι σ ρ) (term : ℕ) (peer : ι) : Option (RequestVoteArgs ι) :=
  match n.elections term with
  | none => none
  | some el =>
    if peer ∈ el.asking ∧ n.isolated = false then
      some ⟨term, n.nodeId, el.lastLogIndex, el.lastLogTerm⟩
    else none

/-- The rest of a `request_vote_from` thread once its reply is in. -/
def handleRequestVoteReply (n : Node ι σ ρ) (peer : ι) (term : ℕ) (reply : RequestVoteReply) :
    Option (Node ι σ ρ) :=
  match n.elections term with
  | none => none
  | some el =>
    if peer ∈ el.asking then
      let el := { el with asking := el.asking.erase peer }
      if n.currentTerm < reply.term then
        some ((n.setElection term el).becomeFollower reply.term)
      else
        let el := if reply.voteGranted then { el with votes := el.votes + 1 } else el
        some (n.setElection term el)
    else none

def becomeLeader (n : Node ι σ ρ) : Node ι σ ρ :=
  let lastIdx := n.lastLogIndex
  { n with
    state := .leader
    leaderId := some n.nodeId
    log := n.log ++ [noopEntry n.currentTerm (lastIdx + 1)]
    nextIndex := fun j => if j = n.nodeId then lastIdx + 2 else lastIdx + 1
    matchIndex := fun j => if j = n.nodeId then lastIdx + 1 else 0
    timerArmed := false }.persistLog

/-- The last lock section of the `_start_election` thread of `term`; says whether it won. -/
def electionEnds (n : Node ι σ ρ) (term : ℕ) : Option (Node ι σ ρ × Bool) :=
  match n.elections term with
  | none => none
  | some el =>
    if el.running then
      let n := n.setElection term { el with running := false }
      if n.state ≠ .candidate ∨ n.currentTerm ≠ term then some (n, false)
      else if el.votesNeeded ≤ el.votes then some (n.becomeLeader, true)
      else some (n.resetElectionTimer, false)
    else none

/-- The first lock section of `_send_append_entries_to`. -/
def appendEntriesArgs (n : Node ι σ ρ) (peer : ι) : Option (AppendEntriesArgs ι) :=
  if n.state ≠ .leader ∨ n.isolated = true ∨ peer ∉ n.peers then none
  else
    let prevIdx := n.nextIndex peer - 1
    let args (prevTerm : ℕ) : AppendEntriesArgs ι :=
      ⟨n.currentTerm, n.nodeId, prevIdx, prevTerm, n.log.drop prevIdx, n.commitIndex⟩
    if prevIdx = 0 then some (args 0)
    else n.log[prevIdx - 1]?.map fun e => args e.term

def countMatching (n : Node ι σ ρ) (idx : ℕ) : ℕ :=
  (Finset.univ.filter fun j => idx ≤ n.matchIndex j).card

/-- The test the scan of `_advance_commit_index` makes at one index. -/
def Committable (n : Node ι σ ρ) (idx : ℕ) : Prop :=
  n.majority ≤ n.countMatching idx ∧ idx ≤ n.log.length ∧
    (n.log[idx - 1]?.map Entry.term) = some n.currentTerm

instance (n : Node ι σ ρ) (idx : ℕ) : Decidable (n.Committable idx) :=
  inferInstanceAs (Decidable (_ ∧ _ ∧ _))

/-- The downward scan: the new commit index. -/
def scanCommit (n : Node ι σ ρ) : ℕ → ℕ
  | 0 => n.commitIndex
  | idx + 1 =>
    if idx + 1 ≤ n.commitIndex then n.commitIndex
    else if n.Committable (idx + 1) then idx + 1
    else n.scanCommit idx

def advanceCommitIndex (n : Node ι σ ρ) : Node ι σ ρ :=
  { n with commitIndex := n.scanCommit n.lastLogIndex }

/-- The scan for the leader's last entry of the conflicting term: its index, or 0. -/
def lastIndexOfTerm (log : List Entry) (conflictTerm : ℕ) : ℕ → ℕ
  | 0 => 0
  | i + 1 =>
    if (log[i]?.map Entry.term) = some conflictTerm then i + 1
    else lastIndexOfTerm log conflictTerm i

def backtrack (n : Node ι σ ρ) (conflictIndex conflictTerm : ℕ) : ℕ :=
  if 0 < conflictTerm then
    let found := lastIndexOfTerm n.log conflictTerm n.log.length
    if found ≠ 0 then found + 1 else conflictIndex
  else max 1 conflictIndex

def setNextIndex (n : Node ι σ ρ) (peer : ι) (idx : ℕ) : Node ι σ ρ :=
  { n with nextIndex := Function.update n.nextIndex peer idx }

/-- `match_index` and `next_index` after a successful reply; they never go back. -/
def raiseMatch (n : Node ι σ ρ) (peer : ι) (newMatch : ℕ) : Node ι σ ρ :=
  if n.matchIndex peer < newMatch then
    { n with matchIndex := Function.update n.matchIndex peer newMatch }.setNextIndex peer
      (newMatch + 1)
  else n

/-- The last lock section of `_send_append_entries_to`. -/
def handleAppendEntriesReply (n : Node ι σ ρ) (peer : ι) (args : AppendEntriesArgs ι)
    (reply : AppendEntriesReply) : Node ι σ ρ :=
  if n.currentTerm < reply.term then n.becomeFollower reply.term
  else if n.state ≠ .leader then n
  else if reply.success then
    (n.raiseMatch peer (args.prevLogIndex + args.entries.length)).advanceCommitIndex
  else n.setNextIndex peer (n.backtrack reply.conflictIndex reply.conflictTerm)

end Elections

/-- The lock section of `append_entry`: the new frame's number, or the exception. -/
def appendEntry (cfg : Config ι σ ρ) (n : Node ι σ ρ) (cmd : Command) :
    Except (Error ι) (Node ι σ ρ × ℕ) :=
  if n.state ≠ .leader then .error (.notLeader n.leaderId (cfg.peer n.nodeId n.leaderId))
  else
    let idx := n.lastLogIndex + 1
    let entry := cmd.entry n.currentTerm idx
    let n := { n with log := n.log ++ [entry] }.persistLog
    .ok ({ n with
      matchIndex := Function.update n.matchIndex n.nodeId idx
      nextIndex := Function.update n.nextIndex n.nodeId (idx + 1)
      calls := Function.update n.calls n.nextCall
        (some ⟨idx, entry, n.currentTerm, cmd.clientId, cmd.seqNum, false, none⟩)
      commitWaiters := Function.update n.commitWaiters idx (some n.nextCall)
      nextCall := n.nextCall + 1 }, n.nextCall)

/-- The caller wakes up with its event set: what it returns or raises. The frame is gone. -/
def callReturns (n : Node ι σ ρ) (w : ℕ) :
    Option (Node ι σ ρ × Call ι ρ × Except (Error ι) (Option ρ)) :=
  match n.calls w with
  | some c =>
    if c.event then
      some ({ n with calls := Function.update n.calls w none }, c,
        match c.result with
        | none => .ok none
        | some (.ok r) => .ok (some r)
        | some (.error e) => .error e)
    else none
  | none => none

/-- The caller whose wait ran out takes the lock and raises `TimeoutError`. Its event may have been
set in between. It takes its own waiter away only. -/
def callTimesOut (n : Node ι σ ρ) (w : ℕ) : Option (Node ι σ ρ × Call ι ρ) :=
  match n.calls w with
  | some c => some ({ n with
      calls := Function.update n.calls w none
      commitWaiters :=
        if n.Pending w c then Function.update n.commitWaiters c.index none
        else n.commitWaiters }, c)
  | none => none

/-- The applier's first lock section: the copies of the entries in `(last_applied, commit_index]`. -/
def applierTakes (n : Node ι σ ρ) : Option (Node ι σ ρ) :=
  if n.toApply = [] ∧ n.lastApplied < n.commitIndex then
    some { n with
      lastApplied := n.commitIndex
      toApply := (List.range' (n.lastApplied + 1) (n.commitIndex - n.lastApplied)).filterMap
        fun idx => (n.log[idx - 1]?).map fun e => (idx, e) }
  else none

/-- The applier runs `apply_fn` on the next entry, outside the lock; a noop is not applied. -/
def applierApplies (cfg : Config ι σ ρ) (n : Node ι σ ρ) :
    Option (Node ι σ ρ × ℕ × Entry × Option (Except (Error ι) ρ)) :=
  match n.toApply, n.applyResult with
  | (idx, entry) :: _, none =>
    if entry.opType = .noop then some ({ n with applyResult := some none }, idx, entry, none)
    else
      let out := cfg.apply n.sm entry
      let result := some (out.2.mapError Error.applyFailed)
      some ({ n with sm := out.1, applyResult := some result }, idx, entry, result)
  | _, _ => none

/-- The entry that was applied is the one the waiter's caller appended. -/
def Same (c : Call ι ρ) (entry : Entry) : Prop :=
  c.term = entry.term ∧ c.clientId = entry.clientId ∧ c.seqNum = entry.seqNum

instance (c : Call ι ρ) (entry : Entry) : Decidable (Same c entry) :=
  inferInstanceAs (Decidable (_ ∧ _ ∧ _))

/-- The applier's second lock section: it hands the result to the waiter at the index, if any. -/
def applierResolves (cfg : Config ι σ ρ) (n : Node ι σ ρ) : Option (Node ι σ ρ) :=
  match n.toApply, n.applyResult with
  | (idx, entry) :: rest, some result =>
    let n := { n with toApply := rest, applyResult := none }
    match n.commitWaiters idx with
    | none => some n
    | some w => some { n with
        calls := Function.update n.calls w ((n.calls w).map fun c =>
          { c with
            result := if Same c entry then result
              else some (.error (.notLeader n.leaderId (cfg.peer n.nodeId n.leaderId)))
            event := true })
        commitWaiters := Function.update n.commitWaiters idx none }
  | _, _ => none

def setIsolated (n : Node ι σ ρ) (isolated : Bool) : Node ι σ ρ :=
  { n with isolated := isolated }

end DistributedStorage.Raft.Node

import DistributedStorage.Library.Progress
import DistributedStorage.Raft.Backtracking
import DistributedStorage.Raft.Positions

/-! What a group of connected nodes does among itself while everybody else is out of reach: a vote asked
for and counted, and one round of replication, as runs of the cluster. -/

set_option linter.unusedSectionVars false

namespace DistributedStorage.Raft

open Library.LeaderLogs Library.Runs

variable {ι σ ρ : Type} [DecidableEq ι]

/-- Who sends a message and who gets it. -/
def Message.ends : Message ι → ι × ι
  | .requestVote dst _ args => (args.candidateId, dst)
  | .requestVoteReply src _ args _ => (src, args.candidateId)
  | .appendEntries dst _ args => (args.leaderId, dst)
  | .appendEntriesReply src _ args _ => (src, args.leaderId)

/-- One vote asked for in the election of `term`, with no other event in between. -/
def poll (term : ℕ) (peer : ι) (x : Node ι σ ρ × Node ι σ ρ) : Option (Node ι σ ρ × Node ι σ ρ) :=
  (x.1.requestVoteArgs term peer).bind fun args =>
    let out := x.2.handleRequestVote args
    (x.1.handleRequestVoteReply peer term out.2).map fun n => (n, out.1)

section Flags

variable {n m : Node ι σ ρ}

lemma handleRequestVote_isolated (args : RequestVoteArgs ι) :
    (n.handleRequestVote args).1.isolated = n.isolated := by
  have hstep : (n.stepDownForVote args.term).isolated = n.isolated := by
    simp only [Node.stepDownForVote]
    split_ifs <;> rfl
  simp only [Node.handleRequestVote]
  split_ifs <;> exact hstep

lemma handleAppendEntries_isolated (args : AppendEntriesArgs ι) :
    (n.handleAppendEntries args).1.isolated = n.isolated := by
  have hstep : (n.stepDownForAppend args.term).isolated = n.isolated := by
    simp only [Node.stepDownForAppend]
    split_ifs <;> rfl
  simp only [Node.handleAppendEntries]
  split_ifs
  · rfl
  split
  · exact hstep
  · exact hstep
  · simp only [Node.updateCommit, Node.storeEntries]
    split_ifs <;> exact hstep

lemma applierResolves_isolated {cfg : Config ι σ ρ} (h : n.applierResolves cfg = some m) :
    m.isolated = n.isolated := by
  obtain ⟨_, _, _, _, _, _, -, -, rfl⟩ := applierResolves_eq h
  rfl

variable [Fintype ι]

lemma startElection_isolated (h : n.startElection = some m) : m.isolated = n.isolated := by
  simp only [Node.startElection] at h
  split_ifs at h <;> cases h <;> rfl

lemma handleRequestVoteReply_isolated {peer : ι} {term : ℕ} {reply : RequestVoteReply}
    (h : n.handleRequestVoteReply peer term reply = some m) : m.isolated = n.isolated := by
  simp only [Node.handleRequestVoteReply] at h
  split at h
  · cases h
  · split_ifs at h <;> cases h <;> rfl

lemma electionEnds_isolated {term : ℕ} {won : Bool} (h : n.electionEnds term = some (m, won)) :
    m.isolated = n.isolated := by
  simp only [Node.electionEnds] at h
  split at h
  · cases h
  · split_ifs at h <;> cases h <;> rfl

lemma handleAppendEntriesReply_isolated (peer : ι) (args : AppendEntriesArgs ι)
    (reply : AppendEntriesReply) :
    (n.handleAppendEntriesReply peer args reply).isolated = n.isolated := by
  simp only [Node.handleAppendEntriesReply, Node.raiseMatch]
  split_ifs <;> rfl

end Flags

namespace Cluster

/-- Steps of members of `Q` and messages between them. Nobody crashes, nobody is cut off or connected,
and no caller gives up. -/
def Within (Q : Finset ι) (s : Cluster ι σ ρ) : Event ι → Prop
  | .timerFires i | .startElection i | .electionEnds i _ | .appendEntry i _ | .callReturns i _ => i ∈ Q
  | .applierTakes i | .applierApplies i | .applierResolves i => i ∈ Q
  | .sendRequestVote i _ peer | .sendAppendEntries i peer => i ∈ Q ∧ peer ∈ Q
  | .deliver k => ∀ m, s.sent[k]? = some m → m.ends.1 ∈ Q ∧ m.ends.2 ∈ Q
  | .callTimesOut .. | .deliverAndCrash .. | .setIsolated .. | .crash .. => False

variable [Fintype ι]

/-- The guard of runs inside `Q` in which every reply comes in time. -/
def Inside (Q : Finset ι) (s : Cluster ι σ ρ) (e : Event ι) : Prop :=
  Within Q s e ∧ AtDelivery Current s e

/-- `Q` is connected in a state that was reached with every reply in time. -/
structure Connected (cfg : Config ι σ ρ) (Q : Finset ι) (s : Cluster ι σ ρ) : Prop where
  reachable : Reachable cfg (AtDelivery Current) s
  flags : ∀ j ∈ Q, (s.nodes j).isolated = false

variable {cfg : Config ι σ ρ} {Q : Finset ι} {s t : Cluster ι σ ρ} {i j : ι}

lemma deliver_isolated {msg : Message ι} (h : s.deliver msg = some t) :
    ∃ i n, n.isolated = (s.nodes i).isolated ∧ t.nodes = Function.update s.nodes i n := by
  cases msg with
  | requestVote dst boot args =>
    simp only [deliver] at h
    split_ifs at h
    cases h
    exact ⟨dst, _, handleRequestVote_isolated args, rfl⟩
  | requestVoteReply src boot args reply =>
    simp only [deliver] at h
    split_ifs at h
    obtain ⟨n, hn, rfl⟩ := Option.map_eq_some_iff.mp h
    exact ⟨args.candidateId, n, handleRequestVoteReply_isolated hn, rfl⟩
  | appendEntries dst boot args =>
    simp only [deliver] at h
    split_ifs at h
    cases h
    exact ⟨dst, _, handleAppendEntries_isolated args, sendReply_nodes ..⟩
  | appendEntriesReply src boot args reply =>
    simp only [deliver] at h
    split_ifs at h
    cases h
    exact ⟨args.leaderId, _, handleAppendEntriesReply_isolated src args reply, rfl⟩

lemma step_isolated {e : Event ι} (hw : Within Q s e) (h : step cfg s e = some t) :
    ∃ i n, n.isolated = (s.nodes i).isolated ∧ t.nodes = Function.update s.nodes i n := by
  cases e with
  | timerFires i =>
    obtain ⟨n, hn, rfl⟩ := Option.map_eq_some_iff.mp h
    simp only [Node.timerFires] at hn
    split_ifs at hn
    cases hn
    refine ⟨i, _, ?_, rfl⟩
    rfl
  | startElection i =>
    obtain ⟨n, hn, rfl⟩ := Option.map_eq_some_iff.mp h
    exact ⟨i, n, startElection_isolated hn, rfl⟩
  | sendRequestVote i term peer =>
    obtain ⟨args, -, rfl⟩ := Option.map_eq_some_iff.mp h
    exact ⟨i, s.nodes i, rfl, (Function.update_eq_self ..).symm⟩
  | electionEnds i term =>
    obtain ⟨⟨n, won⟩, hn, rfl⟩ := Option.map_eq_some_iff.mp h
    refine ⟨i, n, electionEnds_isolated hn, ?_⟩
    cases won <;> rfl
  | sendAppendEntries i peer =>
    obtain ⟨args, -, rfl⟩ := Option.map_eq_some_iff.mp h
    exact ⟨i, s.nodes i, rfl, (Function.update_eq_self ..).symm⟩
  | deliver k =>
    obtain ⟨msg, -, hd⟩ := Option.bind_eq_some_iff.mp h
    exact deliver_isolated hd
  | appendEntry i cmd =>
    simp only [step] at h
    split at h
    · rename_i out hout
      cases h
      simp only [Node.appendEntry] at hout
      split_ifs at hout
      cases hout
      refine ⟨i, _, ?_, rfl⟩
      rfl
    · cases h
  | callReturns i w =>
    obtain ⟨⟨n, c, r⟩, hn, rfl⟩ := Option.map_eq_some_iff.mp h
    simp only [Node.callReturns] at hn
    split at hn
    · split_ifs at hn
      cases hn
      refine ⟨i, _, ?_, rfl⟩
      rfl
    · cases hn
  | applierTakes i =>
    obtain ⟨n, hn, rfl⟩ := Option.map_eq_some_iff.mp h
    obtain ⟨-, -, rfl⟩ := applierTakes_eq hn
    refine ⟨i, _, ?_, rfl⟩
    rfl
  | applierApplies i =>
    obtain ⟨⟨n, out⟩, hn, rfl⟩ := Option.map_eq_some_iff.mp h
    obtain ⟨_, -, -, -, rfl⟩ := applierApplies_eq hn
    refine ⟨i, _, ?_, rfl⟩
    rfl
  | applierResolves i =>
    obtain ⟨n, hn, rfl⟩ := Option.map_eq_some_iff.mp h
    exact ⟨i, n, applierResolves_isolated hn, rfl⟩
  | deliverAndCrash k => cases hw
  | callTimesOut i w => cases hw
  | setIsolated i isolated => cases hw
  | crash i => cases hw

lemma Connected.run (h : Connected cfg Q s) (hr : Run (step cfg) (Inside Q) s t) : Connected cfg Q t := by
  refine ⟨h.reachable.trans (hr.mono fun _ _ hc => hc.2), ?_⟩
  refine Run.invariant (I := fun s => ∀ j ∈ Q, (s.nodes j).isolated = false) ?_ hr h.flags
  intro u e v hu hc he j hj
  obtain ⟨i, n, hflag, hnodes⟩ := step_isolated hc.1 he
  rw [hnodes]
  by_cases hij : j = i
  · subst hij
    rw [Function.update_self, hflag]
    exact hu j hj
  · rw [Function.update_of_ne hij]
    exact hu j hj

lemma AtDelivery.timely {e : Event ι} (h : AtDelivery Current s e) : AtDelivery Timely s e := by
  cases e with
  | deliver k => exact fun m hm => (h m hm).timely
  | _ => trivial

lemma Connected.timely (h : Connected cfg Q s) : Reachable cfg (AtDelivery Timely) s :=
  h.reachable.mono fun _ _ hq => hq.timely

lemma Connected.bounded (h : Connected cfg Q s) : Bounded s := by
  obtain ⟨a, -, ha⟩ := Run.simulates (fun _ _ _ _ hx hq he => hx.step hq he) h.reachable
    (init_standing cfg)
  exact ha.bounded

lemma Connected.election (h : Connected cfg Q s) : ElectionInv s := electionInv h.reachable

/-- What `deliver` does at the end of the messages sent so far. -/
lemma deliver_last {m : Message ι} (hends : m.ends.1 ∈ Q ∧ m.ends.2 ∈ Q) (hcur : Current (s.send m) m)
    (hd : (s.send m).deliver m = some t) : Run (step cfg) (Inside Q) (s.send m) t := by
  have hat : (s.send m).sent[s.sent.length]? = some m := by simp
  refine Run.single (e := .deliver s.sent.length) ⟨fun m' hm' => ?_, fun m' hm' => ?_⟩ ?_
  · rw [hat] at hm'
    cases hm'
    exact hends
  · rw [hat] at hm'
    cases hm'
    exact hcur
  · simp only [step, hat, Option.bind_some]
    exact hd

/-- A round of replication between two members is a run. -/
lemma exchange_run (cfg : Config ι σ ρ) (hs : ElectionInv s) (hi : i ∈ Q) (hj : j ∈ Q) (hne : j ≠ i)
    (hflag : (s.nodes j).isolated = false) {y : Node ι σ ρ × Node ι σ ρ} {success : Bool}
    (h : exchange j (s.nodes i, s.nodes j) = some (y, success)) :
    ∃ t, Run (step cfg) (Inside Q) s t ∧ t.trace = s.trace ∧
      t.nodes = Function.update (Function.update s.nodes j y.2) i y.1 := by
  obtain ⟨args, hargs, hout⟩ := Option.bind_eq_some_iff.mp h
  obtain ⟨reply, hreply, hy⟩ := Option.map_eq_some_iff.mp hout
  cases hy
  obtain ⟨-, -, hterm, hid, -⟩ := appendEntriesArgs_eq hargs
  have hlid : args.leaderId = i := hid.trans (hs.nodeId i)
  set request : Message ι := .appendEntries j (s.nodes i).boot args
  set answer : Message ι := .appendEntriesReply j (s.nodes i).boot args reply
  set u := (s.send request).setNode j ((s.nodes j).handleAppendEntries args).1
  have hui : u.nodes i = s.nodes i := Function.update_of_ne hne.symm ..
  have hasks : Run (step cfg) (Inside Q) s (s.send request) := by
    refine Run.single (e := .sendAppendEntries i j) ⟨⟨hi, hj⟩, trivial⟩ ?_
    simp only [step, hargs, Option.map_some]
    rfl
  have hstores : Run (step cfg) (Inside Q) (s.send request) (u.send answer) := by
    refine deliver_last ⟨?_, hj⟩ ?_ ?_
    · change args.leaderId ∈ Q
      rwa [hlid]
    · trivial
    · simp only [request, deliver, send_nodes, hflag, Bool.false_eq_true, if_false, hreply]
      rfl
  refine ⟨(u.send answer).setNode i ((s.nodes i).handleAppendEntriesReply j args reply),
    hasks.trans (hstores.trans (deliver_last ⟨hj, ?_⟩ ?_ ?_)), rfl, rfl⟩
  · change args.leaderId ∈ Q
    rwa [hlid]
  · intro _ _ _ hother
    refine absurd ?_ hother
    rw [hterm, hlid, send_nodes, hui]
  · simp only [answer, deliver, send_nodes, hlid, hui, if_true]

/-- A vote asked for and counted between two members is a run. -/
lemma poll_run (cfg : Config ι σ ρ) (hs : ElectionInv s) (hi : i ∈ Q) (hj : j ∈ Q) (hne : j ≠ i)
    (hflag : (s.nodes j).isolated = false) {term : ℕ} {y : Node ι σ ρ × Node ι σ ρ}
    (h : poll term j (s.nodes i, s.nodes j) = some y) :
    ∃ t, Run (step cfg) (Inside Q) s t ∧ t.trace = s.trace ∧
      t.nodes = Function.update (Function.update s.nodes j y.2) i y.1 := by
  obtain ⟨args, hargs, hout⟩ := Option.bind_eq_some_iff.mp h
  obtain ⟨n, hn, rfl⟩ := Option.map_eq_some_iff.mp hout
  obtain ⟨el, -, -, rfl⟩ := requestVoteArgs_eq hargs
  rw [hs.nodeId i] at hargs hn
  set args : RequestVoteArgs ι := ⟨term, i, el.lastLogIndex, el.lastLogTerm⟩
  set reply := ((s.nodes j).handleRequestVote args).2
  set request : Message ι := .requestVote j (s.nodes i).boot args
  set answer : Message ι := .requestVoteReply j (s.nodes i).boot args reply
  set u := (s.send request).setNode j ((s.nodes j).handleRequestVote args).1
  have hui : u.nodes i = s.nodes i := Function.update_of_ne hne.symm ..
  have hasks : Run (step cfg) (Inside Q) s (s.send request) := by
    refine Run.single (e := .sendRequestVote i term j) ⟨⟨hi, hj⟩, trivial⟩ ?_
    simp only [step, hargs, Option.map_some]
    rfl
  have hvotes : Run (step cfg) (Inside Q) (s.send request) (u.send answer) := by
    refine deliver_last ⟨hi, hj⟩ ?_ ?_
    · trivial
    · simp only [request, deliver, send_nodes, hflag, Bool.false_eq_true, if_false]
      rfl
  refine ⟨(u.send answer).setNode i n, hasks.trans (hvotes.trans (deliver_last ⟨hj, hi⟩ ?_ ?_)),
    rfl, ?_⟩
  · trivial
  · simp only [answer, deliver, send_nodes, args, hui, if_true]
    rw [hn]
    rfl
  · rw [hs.nodeId i]
    rfl

end Cluster

end DistributedStorage.Raft

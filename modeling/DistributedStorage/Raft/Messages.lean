import DistributedStorage.Raft.Commitment
import DistributedStorage.Raft.Engine
import DistributedStorage.Raft.Steps

/-! What one event adds to the messages, and what a node that leads after it did in it: the third
inversion of `Cluster.step`. -/

set_option linter.unusedSectionVars false

namespace DistributedStorage.Raft

open Library.LeaderLogs Library.Runs

variable {ι σ ρ : Type} [DecidableEq ι]

variable {n m : Node ι σ ρ}

lemma handleRequestVote_nextIndex (args : RequestVoteArgs ι) :
    (n.handleRequestVote args).1.nextIndex = n.nextIndex := by
  obtain ⟨v, hs, armed, he⟩ := handleRequestVote_eq (n := n) args
  rw [he]
  rcases stepDownForVote_eq (n := n) args.term with hd | ⟨-, hd⟩ <;> rw [hd]
  rfl

lemma handleAppendEntries_nextIndex (args : AppendEntriesArgs ι) :
    (n.handleAppendEntries args).1.nextIndex = n.nextIndex := by
  have hstep : (n.stepDownForAppend args.term).nextIndex = n.nextIndex := by
    simp only [Node.stepDownForAppend]
    split_ifs <;> rfl
  simp only [Node.handleAppendEntries]
  split_ifs
  · rfl
  split
  · exact hstep
  · exact hstep
  · obtain ⟨l, lf, ci, hst⟩ := stored_eq (n := Node.resetElectionTimer
      { n.stepDownForAppend args.term with leaderId := some args.leaderId })
      args.prevLogIndex args.leaderCommit args.entries
    rw [hst]
    exact hstep

variable [Fintype ι]

lemma startElection_nextIndex (h : n.startElection = some m) : m.nextIndex = n.nextIndex := by
  simp only [Node.startElection] at h
  split_ifs at h <;> cases h <;> rfl

lemma handleRequestVoteReply_nextIndex {peer : ι} {t : ℕ} {reply : RequestVoteReply}
    (h : n.handleRequestVoteReply peer t reply = some m) : m.nextIndex = n.nextIndex := by
  simp only [Node.handleRequestVoteReply] at h
  split at h
  · cases h
  · split_ifs at h <;> cases h <;> rfl

lemma electionEnds_lost_nextIndex {t : ℕ} (h : n.electionEnds t = some (m, false)) :
    m.nextIndex = n.nextIndex := by
  obtain ⟨el, -, rfl | rfl⟩ := electionEnds_lost h <;> rfl

namespace Cluster

variable {cfg : Config ι σ ρ} {P : Message ι → Prop} {s t : Cluster ι σ ρ}

/-- Where a new message comes from. -/
inductive Origin (s t : Cluster ι σ ρ) : Message ι → Prop
  | requestVote (i : ι) (term : ℕ) (peer : ι) (args : RequestVoteArgs ι) :
      (s.nodes i).requestVoteArgs term peer = some args → t.nodes = s.nodes →
      Origin s t (.requestVote peer (s.nodes i).boot args)
  | requestVoteReply (dst : ι) (boot : ℕ) (args : RequestVoteArgs ι) :
      .requestVote dst boot args ∈ s.sent →
      t.nodes dst = ((s.nodes dst).handleRequestVote args).1 →
      Origin s t (.requestVoteReply dst boot args ((s.nodes dst).handleRequestVote args).2)
  | appendEntries (i : ι) (peer : ι) (args : AppendEntriesArgs ι) :
      (s.nodes i).appendEntriesArgs peer = some args → t.nodes = s.nodes →
      Origin s t (.appendEntries peer (s.nodes i).boot args)
  | appendEntriesReply (dst : ι) (boot : ℕ) (args : AppendEntriesArgs ι)
      (reply : AppendEntriesReply) : .appendEntries dst boot args ∈ s.sent →
      (s.nodes dst).handleAppendEntries args = (t.nodes dst, some reply) →
      Origin s t (.appendEntriesReply dst boot args reply)

lemma Change.sent (h : Change cfg P s t) {msg : Message ι} (hm : msg ∈ t.sent) :
    msg ∈ s.sent ∨ Origin s t msg := by
  have hsend {k : Message ι} (hk : msg ∈ s.sent ++ [k]) (ho : Origin s t k) :
      msg ∈ s.sent ∨ Origin s t msg := by
    rcases List.mem_append.mp hk with hk | hk
    · exact Or.inl hk
    · exact Or.inr (List.mem_singleton.mp hk ▸ ho)
  cases h with
  | sendRequestVote i term peer args ha => exact hsend hm (.requestVote i term peer args ha rfl)
  | sendAppendEntries i peer args ha => exact hsend hm (.appendEntries i peer args ha rfl)
  | requestVote dst boot args hreq =>
    exact hsend hm (.requestVoteReply dst boot args hreq (Function.update_self ..))
  | appendEntries dst boot args hreq =>
    have hself : ((s.setNode dst ((s.nodes dst).handleAppendEntries args).1).sendReply dst boot args
        ((s.nodes dst).handleAppendEntries args).2).nodes dst =
          ((s.nodes dst).handleAppendEntries args).1 := by
      rw [sendReply_nodes, setNode_nodes, Function.update_self]
    cases hr : ((s.nodes dst).handleAppendEntries args).2 with
    | none =>
      rw [hr] at hm
      exact Or.inl hm
    | some reply =>
      rw [hr] at hm hself hsend
      exact hsend hm (.appendEntriesReply dst boot args reply hreq (Prod.ext hself.symm hr))
  | quiet i n obs hl => exact Or.inl hm
  | startElection i n hn => exact Or.inl hm
  | loses i term n hn => exact Or.inl hm
  | wins i term n hn => exact Or.inl hm
  | requestVoteReply src boot args reply n hreq hn => exact Or.inl hm
  | appendEntriesReply src boot args reply hreq hp hb => exact Or.inl hm
  | voteCrash dst boot args hreq => exact Or.inl hm
  | appendCrash dst boot args hreq hle => exact Or.inl hm
  | appendEntry i cmd n w hn => exact Or.inl hm
  | crash i => exact Or.inl hm

lemma Change.trace (h : Change cfg P s t) : s.trace <+: t.trace := h.service.trace

/-- A request carries the name of the node that won its term. -/
def Signed (s : Cluster ι σ ρ) : Prop :=
  ∀ dst boot args, .appendEntries dst boot args ∈ s.sent → .elected args.leaderId args.term ∈ s.trace

lemma Signed.change (h : Signed s) (hs : ElectionInv s) (hc : Change cfg P s t) : Signed t := by
  intro dst boot args hm
  apply hc.trace.subset
  rcases hc.sent hm with hm | ho
  · exact h dst boot args hm
  · cases ho with
    | appendEntries i peer args ha =>
      obtain ⟨hl, -, hterm, hid, -⟩ := appendEntriesArgs_eq ha
      rw [hterm, hid, hs.nodeId i]
      exact hs.leader i hl

/-- What a node that leads after an event did in it. -/
inductive Leading (cfg : Config ι σ ρ) (P : Message ι → Prop) (s t : Cluster ι σ ρ) (i : ι) : Prop
  | stays : (s.nodes i).state = .leader →
      (t.nodes i).currentTerm = (s.nodes i).currentTerm →
      (t.nodes i).nextIndex = (s.nodes i).nextIndex →
      (t.nodes i).matchIndex = (s.nodes i).matchIndex → Leading cfg P s t i
  | wins (term : ℕ) (n : Node ι σ ρ) : (s.nodes i).electionEnds term = some (n, true) →
      t.nodes i = n → Leading cfg P s t i
  | appends (cmd : Command) (n : Node ι σ ρ) (w : ℕ) :
      (s.nodes i).appendEntry cfg cmd = .ok (n, w) → t.nodes i = n → Leading cfg P s t i
  | replies (src : ι) (boot : ℕ) (args : AppendEntriesArgs ι) (reply : AppendEntriesReply) :
      .appendEntriesReply src boot args reply ∈ s.sent → P (.appendEntriesReply src boot args reply) →
      args.leaderId = i → (s.nodes i).boot = boot →
      t.nodes i = (s.nodes i).handleAppendEntriesReply src args reply → Leading cfg P s t i

lemma Leading.moved {i j : ι} {n : Node ι σ ρ} (hn : t.nodes = Function.update s.nodes j n)
    (hl : (t.nodes i).state = .leader)
    (hself : i = j → t.nodes i = n → Leading cfg P s t i) : Leading cfg P s t i := by
  by_cases hij : i = j
  · apply hself hij
    rw [hn, hij, Function.update_self]
  · have hsame : t.nodes i = s.nodes i := by rw [hn, Function.update_of_ne hij]
    rw [hsame] at hl
    apply Leading.stays hl <;> rw [hsame]

lemma Leading.of_steady {i j : ι} {n : Node ι σ ρ} (hn : t.nodes = Function.update s.nodes j n)
    (hl : (t.nodes i).state = .leader)
    (hmatch : n.state = .leader → (s.nodes j).state = .leader ∧
      n.currentTerm = (s.nodes j).currentTerm ∧ n.matchIndex = (s.nodes j).matchIndex)
    (hnext : n.state = .leader → n.nextIndex = (s.nodes j).nextIndex) : Leading cfg P s t i := by
  refine .moved hn hl fun hij hself => ?_
  subst hij
  rw [hself] at hl
  obtain ⟨hold, hterm, hmi⟩ := hmatch hl
  exact .stays hold (by rw [hself, hterm]) (by rw [hself, hnext hl]) (by rw [hself, hmi])

lemma Change.leading (h : Change cfg P s t) {i : ι} (hl : (t.nodes i).state = .leader) :
    Leading cfg P s t i := by
  have hstill (j : ι) : s.nodes = Function.update s.nodes j (s.nodes j) :=
    (Function.update_eq_self j s.nodes).symm
  cases h with
  | quiet j n obs hq => exact .of_steady rfl hl hq.core.steady.matchIndex fun _ => hq.core.nextIndex
  | startElection j n hn =>
    exact .of_steady rfl hl (startElection_steady hn).matchIndex fun _ => startElection_nextIndex hn
  | sendRequestVote j term peer args ha =>
    exact .of_steady (hstill j) hl (Steady.refl _).matchIndex fun _ => rfl
  | loses j term n hn =>
    exact .of_steady rfl hl (electionEnds_lost_steady hn).matchIndex
      fun _ => electionEnds_lost_nextIndex hn
  | wins j term n hn => exact .moved rfl hl fun hij hself => .wins term n (hij ▸ hn) hself
  | sendAppendEntries j peer args ha =>
    exact .of_steady (hstill j) hl (Steady.refl _).matchIndex fun _ => rfl
  | requestVote dst boot args hm =>
    exact .of_steady rfl hl (handleRequestVote_steady args).matchIndex
      fun _ => handleRequestVote_nextIndex args
  | requestVoteReply src boot args reply n hm hn =>
    exact .of_steady rfl hl (handleRequestVoteReply_steady hn).matchIndex
      fun _ => handleRequestVoteReply_nextIndex hn
  | appendEntries dst boot args hm =>
    exact .of_steady (sendReply_nodes _ _ _ _ _) hl (handleAppendEntries_match args)
      fun _ => handleAppendEntries_nextIndex args
  | appendEntriesReply src boot args reply hm hp hb =>
    exact .moved rfl hl fun hij hself =>
      .replies src boot args reply hm hp hij.symm (hij ▸ hb) (hij ▸ hself)
  | voteCrash dst boot args hm => exact .of_steady rfl hl (restart_steady cfg _).matchIndex nofun
  | appendCrash dst boot args hm hle =>
    exact .of_steady rfl hl (restart_steady cfg _).matchIndex nofun
  | appendEntry j cmd n w hn => exact .moved rfl hl fun hij hself => .appends cmd n w (hij ▸ hn) hself
  | crash j => exact .of_steady rfl hl (restart_steady cfg _).matchIndex nofun

end Cluster

end DistributedStorage.Raft

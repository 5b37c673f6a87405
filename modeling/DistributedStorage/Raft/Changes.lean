import DistributedStorage.Raft.Durability

/-! What one event can do to the consensus state: the inversion of `Cluster.step`. -/

set_option linter.unusedSectionVars false

namespace DistributedStorage.Raft

variable {ι σ ρ : Type} [DecidableEq ι]

/-- The two nodes differ at most in timers, callers, applier and isolation. -/
structure SameCore (n m : Node ι σ ρ) : Prop where
  nodeId : m.nodeId = n.nodeId
  boot : m.boot = n.boot
  hardState : m.hardState = n.hardState
  logFile : m.logFile = n.logFile
  currentTerm : m.currentTerm = n.currentTerm
  votedFor : m.votedFor = n.votedFor
  log : m.log = n.log
  commitIndex : m.commitIndex = n.commitIndex
  state : m.state = n.state
  leaderId : m.leaderId = n.leaderId
  nextIndex : m.nextIndex = n.nextIndex
  matchIndex : m.matchIndex = n.matchIndex
  elections : m.elections = n.elections

variable {n m : Node ι σ ρ}

lemma timerFires_core (h : n.timerFires = some m) : SameCore n m := by
  unfold Node.timerFires at h
  split_ifs at h
  cases h
  constructor <;> rfl

lemma callReturns_core {w : ℕ} {c : Call ι ρ} {r : Except (Error ι) (Option ρ)}
    (h : n.callReturns w = some (m, c, r)) : SameCore n m := by
  unfold Node.callReturns at h
  split at h
  · split_ifs at h
    cases h
    constructor <;> rfl
  · cases h

lemma callTimesOut_core {w : ℕ} {c : Call ι ρ} (h : n.callTimesOut w = some (m, c)) :
    SameCore n m := by
  unfold Node.callTimesOut at h
  split at h
  · cases h
    constructor <;> rfl
  · cases h

lemma applierTakes_core (h : n.applierTakes = some m) : SameCore n m := by
  unfold Node.applierTakes at h
  split_ifs at h
  cases h
  constructor <;> rfl

lemma applierApplies_core {cfg : Config ι σ ρ} {out : ℕ × Entry × Option (Except (Error ι) ρ)}
    (h : n.applierApplies cfg = some (m, out)) : SameCore n m := by
  unfold Node.applierApplies at h
  split at h
  · split_ifs at h
    · cases h
      constructor <;> rfl
    · cases h
      constructor <;> rfl
  · cases h

lemma applierResolves_core {cfg : Config ι σ ρ} (h : n.applierResolves cfg = some m) :
    SameCore n m := by
  unfold Node.applierResolves at h
  split at h
  · dsimp only at h
    split at h
    · cases h
      constructor <;> rfl
    · cases h
      constructor <;> rfl
  · cases h

lemma SameCore.durable (h : SameCore n m) (hd : n.Durable) : m.Durable := by
  refine ⟨?_, ?_, ?_⟩
  · rw [h.hardState, h.currentTerm, hd.term]
  · rw [h.hardState, h.votedFor, hd.vote]
  · rw [h.logFile, h.log, hd.log]

variable [Fintype ι]

/-- A vote request carries the log position its election started with. -/
lemma requestVoteArgs_eq {term : ℕ} {peer : ι} {args : RequestVoteArgs ι}
    (h : n.requestVoteArgs term peer = some args) : ∃ el, n.elections term = some el ∧
      peer ∈ el.asking ∧ args = ⟨term, n.nodeId, el.lastLogIndex, el.lastLogTerm⟩ := by
  unfold Node.requestVoteArgs at h
  split at h
  · cases h
  · rename_i el hel
    split_ifs at h with hask
    cases h
    exact ⟨el, hel, hask.1, rfl⟩

/-- A replication request carries the whole log after the previous entry. -/
lemma appendEntriesArgs_eq {peer : ι} {args : AppendEntriesArgs ι}
    (h : n.appendEntriesArgs peer = some args) : n.state = .leader ∧ peer ≠ n.nodeId ∧
      args.term = n.currentTerm ∧ args.leaderId = n.nodeId ∧
      args.entries = n.log.drop args.prevLogIndex ∧ args.leaderCommit = n.commitIndex ∧
      (args.prevLogIndex = 0 ∨ (n.log[args.prevLogIndex - 1]?.map Entry.term) =
        some args.prevLogTerm) := by
  simp only [Node.appendEntriesArgs] at h
  split_ifs at h with hg hp
  · simp only [not_or, not_not, Node.peers, Finset.mem_erase, Finset.mem_univ, and_true] at hg
    cases h
    exact ⟨hg.1, hg.2.2, rfl, rfl, rfl, rfl, Or.inl hp⟩
  · simp only [not_or, not_not, Node.peers, Finset.mem_erase, Finset.mem_univ, and_true] at hg
    obtain ⟨e, he, rfl⟩ := Option.map_eq_some_iff.mp h
    exact ⟨hg.1, hg.2.2, rfl, rfl, rfl, rfl, Or.inr (by simp [he])⟩

namespace Cluster

/-- The steps of node `i` that leave the consensus state alone, with what is observed of them. -/
inductive Local (cfg : Config ι σ ρ) (i : ι) (n : Node ι σ ρ) :
    Node ι σ ρ → List (Observation ι ρ) → Prop
  | timerFires (m : Node ι σ ρ) : n.timerFires = some m → Local cfg i n m []
  | callReturns (w : ℕ) (m : Node ι σ ρ) (c : Call ι ρ) (value : Option ρ) :
      n.callReturns w = some (m, c, .ok value) →
      Local cfg i n m [.returned i n.boot w c value]
  | callRaises (w : ℕ) (m : Node ι σ ρ) (c : Call ι ρ) (exc : Error ι) :
      n.callReturns w = some (m, c, .error exc) → Local cfg i n m [.raised i n.boot w c exc]
  | callTimesOut (w : ℕ) (m : Node ι σ ρ) (c : Call ι ρ) : n.callTimesOut w = some (m, c) →
      Local cfg i n m [.raised i n.boot w c (.timeout c.index)]
  | applierTakes (m : Node ι σ ρ) : n.applierTakes = some m → Local cfg i n m []
  | applierApplies (m : Node ι σ ρ) (idx : ℕ) (entry : Entry)
      (result : Option (Except (Error ι) ρ)) :
      n.applierApplies cfg = some (m, idx, entry, result) →
      Local cfg i n m [.applied i n.boot idx entry result]
  | applierResolves (m : Node ι σ ρ) : n.applierResolves cfg = some m → Local cfg i n m []
  | setIsolated (isolated : Bool) : Local cfg i n (n.setIsolated isolated) []

lemma Local.core {cfg : Config ι σ ρ} {i : ι} {obs : List (Observation ι ρ)}
    (h : Local cfg i n m obs) : SameCore n m := by
  cases h with
  | timerFires m h => exact timerFires_core h
  | callReturns w m c value h => exact callReturns_core h
  | callRaises w m c exc h => exact callReturns_core h
  | callTimesOut w m c h => exact callTimesOut_core h
  | applierTakes m h => exact applierTakes_core h
  | applierApplies m idx entry result h => exact applierApplies_core h
  | applierResolves m h => exact applierResolves_core h
  | setIsolated isolated => constructor <;> rfl

lemma Local.not_elected {cfg : Config ι σ ρ} {i : ι} {obs : List (Observation ι ρ)}
    (h : Local cfg i n m obs) (j : ι) (term : ℕ) : .elected j term ∉ obs := by
  cases h <;> simp

/-- Steps by their effect on the consensus state; a reply to a replication request is one `P` holds
of. -/
inductive Change (cfg : Config ι σ ρ) (P : Message ι → Prop) (s : Cluster ι σ ρ) :
    Cluster ι σ ρ → Prop
  | quiet (i : ι) (n : Node ι σ ρ) (obs : List (Observation ι ρ)) :
      Local cfg i (s.nodes i) n obs →
      Change cfg P s { s.setNode i n with trace := s.trace ++ obs }
  | startElection (i : ι) (n : Node ι σ ρ) : (s.nodes i).startElection = some n →
      Change cfg P s (s.setNode i n)
  | sendRequestVote (i : ι) (term : ℕ) (peer : ι) (args : RequestVoteArgs ι) :
      (s.nodes i).requestVoteArgs term peer = some args →
      Change cfg P s (s.send (.requestVote peer (s.nodes i).boot args))
  | loses (i : ι) (term : ℕ) (n : Node ι σ ρ) : (s.nodes i).electionEnds term = some (n, false) →
      Change cfg P s (s.setNode i n)
  | wins (i : ι) (term : ℕ) (n : Node ι σ ρ) : (s.nodes i).electionEnds term = some (n, true) →
      Change cfg P s ((s.setNode i n).observe (.elected i term))
  | sendAppendEntries (i : ι) (peer : ι) (args : AppendEntriesArgs ι) :
      (s.nodes i).appendEntriesArgs peer = some args →
      Change cfg P s (s.send (.appendEntries peer (s.nodes i).boot args))
  | requestVote (dst : ι) (boot : ℕ) (args : RequestVoteArgs ι) :
      .requestVote dst boot args ∈ s.sent →
      Change cfg P s ((s.setNode dst ((s.nodes dst).handleRequestVote args).1).send
        (.requestVoteReply dst boot args ((s.nodes dst).handleRequestVote args).2))
  | requestVoteReply (src : ι) (boot : ℕ) (args : RequestVoteArgs ι) (reply : RequestVoteReply)
      (n : Node ι σ ρ) : .requestVoteReply src boot args reply ∈ s.sent →
      (s.nodes args.candidateId).handleRequestVoteReply src args.term reply = some n →
      Change cfg P s (s.setNode args.candidateId n)
  | appendEntries (dst : ι) (boot : ℕ) (args : AppendEntriesArgs ι) :
      .appendEntries dst boot args ∈ s.sent →
      Change cfg P s ((s.setNode dst ((s.nodes dst).handleAppendEntries args).1).sendReply dst boot
        args ((s.nodes dst).handleAppendEntries args).2)
  | appendEntriesReply (src : ι) (boot : ℕ) (args : AppendEntriesArgs ι)
      (reply : AppendEntriesReply) : .appendEntriesReply src boot args reply ∈ s.sent →
      P (.appendEntriesReply src boot args reply) →
      (s.nodes args.leaderId).boot = boot →
      Change cfg P s (s.setNode args.leaderId
        ((s.nodes args.leaderId).handleAppendEntriesReply src args reply))
  | voteCrash (dst : ι) (boot : ℕ) (args : RequestVoteArgs ι) :
      .requestVote dst boot args ∈ s.sent →
      Change cfg P s (s.setNode dst (((s.nodes dst).stepDownForVote args.term).restart cfg))
  | appendCrash (dst : ι) (boot : ℕ) (args : AppendEntriesArgs ι) :
      .appendEntries dst boot args ∈ s.sent → (s.nodes dst).currentTerm ≤ args.term →
      Change cfg P s (s.setNode dst (((s.nodes dst).stepDownForAppend args.term).restart cfg))
  | appendEntry (i : ι) (cmd : Command) (n : Node ι σ ρ) (w : ℕ) :
      (s.nodes i).appendEntry cfg cmd = .ok (n, w) → Change cfg P s (s.setNode i n)
  | crash (i : ι) : Change cfg P s (s.setNode i ((s.nodes i).restart cfg))

variable {cfg : Config ι σ ρ} {P : Message ι → Prop} {s t : Cluster ι σ ρ}

lemma quiet_change {i : ι} {n : Node ι σ ρ} (h : Local cfg i (s.nodes i) n []) :
    Change cfg P s (s.setNode i n) := by
  have hh : Change cfg P s { s.setNode i n with trace := s.trace ++ [] } := .quiet i n [] h
  rwa [List.append_nil] at hh

lemma deliver_change {msg : Message ι} (hm : msg ∈ s.sent) (hp : P msg)
    (h : s.deliver msg = some t) : Change cfg P s t := by
  cases msg with
  | requestVote dst boot args =>
    simp only [deliver] at h
    split_ifs at h
    cases h
    exact .requestVote dst boot args hm
  | requestVoteReply src boot args reply =>
    simp only [deliver] at h
    split_ifs at h
    simp only [Option.map_eq_some_iff] at h
    obtain ⟨n, hn, rfl⟩ := h
    exact .requestVoteReply src boot args reply n hm hn
  | appendEntries dst boot args =>
    simp only [deliver] at h
    split_ifs at h
    cases h
    exact .appendEntries dst boot args hm
  | appendEntriesReply src boot args reply =>
    simp only [deliver] at h
    split_ifs at h with hb
    cases h
    exact .appendEntriesReply src boot args reply hm hp hb

lemma deliverAndCrash_change {msg : Message ι} (hm : msg ∈ s.sent)
    (h : s.deliverAndCrash cfg msg = some t) : Change cfg P s t := by
  cases msg with
  | requestVote dst boot args =>
    cases h
    exact .voteCrash dst boot args hm
  | appendEntries dst boot args =>
    simp only [deliverAndCrash] at h
    split_ifs at h with hb
    cases h
    exact .appendCrash dst boot args hm (by omega)
  | requestVoteReply src boot args reply => cases h
  | appendEntriesReply src boot args reply => cases h

/-- A guard on what is delivered, as a guard on events. -/
def AtDelivery (P : Cluster ι σ ρ → Message ι → Prop) (s : Cluster ι σ ρ) : Event ι → Prop
  | .deliver k => ∀ m, s.sent[k]? = some m → P s m
  | _ => True

instance {P : Cluster ι σ ρ → Message ι → Prop} [∀ s m, Decidable (P s m)] (s : Cluster ι σ ρ)
    (e : Event ι) : Decidable (AtDelivery P s e) :=
  match e with
  | .deliver k => inferInstanceAs (Decidable (∀ m ∈ s.sent[k]?, P s m))
  | .timerFires .. | .startElection .. | .sendRequestVote .. | .electionEnds ..
  | .sendAppendEntries .. | .deliverAndCrash .. | .appendEntry .. | .callReturns ..
  | .callTimesOut .. | .applierTakes .. | .applierApplies .. | .applierResolves ..
  | .setIsolated .. | .crash .. => inferInstanceAs (Decidable True)

lemma step_change {Q : Cluster ι σ ρ → Message ι → Prop} {e : Event ι}
    (h : step cfg s e = some t) (hq : AtDelivery Q s e) : Change cfg (Q s) s t := by
  cases e with
  | timerFires i =>
    obtain ⟨n, hn, rfl⟩ := Option.map_eq_some_iff.mp h
    exact quiet_change (.timerFires n hn)
  | startElection i =>
    obtain ⟨n, hn, rfl⟩ := Option.map_eq_some_iff.mp h
    exact .startElection i n hn
  | sendRequestVote i term peer =>
    obtain ⟨args, ha, rfl⟩ := Option.map_eq_some_iff.mp h
    exact .sendRequestVote i term peer args ha
  | electionEnds i term =>
    obtain ⟨⟨n, won⟩, hn, rfl⟩ := Option.map_eq_some_iff.mp h
    cases won
    · exact .loses i term n hn
    · exact .wins i term n hn
  | sendAppendEntries i peer =>
    obtain ⟨args, ha, rfl⟩ := Option.map_eq_some_iff.mp h
    exact .sendAppendEntries i peer args ha
  | deliver k =>
    obtain ⟨msg, hm, hd⟩ := Option.bind_eq_some_iff.mp h
    exact deliver_change (List.mem_of_getElem? hm) (hq msg hm) hd
  | deliverAndCrash k =>
    obtain ⟨msg, hm, hd⟩ := Option.bind_eq_some_iff.mp h
    exact deliverAndCrash_change (List.mem_of_getElem? hm) hd
  | appendEntry i cmd =>
    simp only [step] at h
    split at h
    · rename_i out hout
      cases h
      exact .appendEntry i cmd out.1 out.2 hout
    · cases h
  | callReturns i w =>
    obtain ⟨⟨n, c, r⟩, hn, rfl⟩ := Option.map_eq_some_iff.mp h
    cases r with
    | ok value => exact .quiet i n _ (.callReturns w n c value hn)
    | error exc => exact .quiet i n _ (.callRaises w n c exc hn)
  | callTimesOut i w =>
    obtain ⟨⟨n, c⟩, hn, rfl⟩ := Option.map_eq_some_iff.mp h
    exact .quiet i n _ (.callTimesOut w n c hn)
  | applierTakes i =>
    obtain ⟨n, hn, rfl⟩ := Option.map_eq_some_iff.mp h
    exact quiet_change (.applierTakes n hn)
  | applierApplies i =>
    obtain ⟨⟨n, idx, entry, result⟩, hn, rfl⟩ := Option.map_eq_some_iff.mp h
    exact .quiet i n _ (.applierApplies n idx entry result hn)
  | applierResolves i =>
    obtain ⟨n, hn, rfl⟩ := Option.map_eq_some_iff.mp h
    exact quiet_change (.applierResolves n hn)
  | setIsolated i isolated =>
    cases h
    exact quiet_change (.setIsolated isolated)
  | crash i =>
    cases h
    exact .crash i

lemma step_change_free {e : Event ι} (h : step cfg s e = some t) :
    Change cfg (fun _ => True) s t :=
  step_change (Q := fun _ _ => True) h (by cases e <;> simp [AtDelivery])

end Cluster

end DistributedStorage.Raft

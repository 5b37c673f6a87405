import DistributedStorage.Raft.Messages
import DistributedStorage.Raft.Redelivery

/-! The votes of a run. A candidate that hears from a leader of its own term forgets its vote; what can
keep it from voting again in that term is an entry of that leader in its log. -/

set_option linter.unusedSectionVars false

namespace DistributedStorage.Raft

open Library.LeaderLogs Library.Runs

variable {ι σ ρ : Type} [DecidableEq ι]

/-- A vote that a node gives, to itself at the start of an election or in answer to a request. -/
structure Vote (ι : Type) where
  voter : ι
  candidate : ι
  term : ℕ
  deriving DecidableEq

/-- `c` has the node's vote in its present term, or the vote was given up for a leader of that term. -/
def Voted (n : Node ι σ ρ) (c : ι) : Prop :=
  n.votedFor = some c ∨ (n.votedFor = none ∧ ∃ e ∈ n.log, e.term = n.currentTerm)

/-- The node goes to a higher term, or stays in its term and stands by its vote. -/
def StandsBy (n m : Node ι σ ρ) : Prop :=
  n.currentTerm < m.currentTerm ∨ (m.currentTerm = n.currentTerm ∧ ∀ c, Voted n c → Voted m c)

variable {n m k : Node ι σ ρ}

lemma StandsBy.refl (n : Node ι σ ρ) : StandsBy n n := Or.inr ⟨rfl, fun _ h => h⟩

lemma StandsBy.of_same (hterm : m.currentTerm = n.currentTerm) (hvote : m.votedFor = n.votedFor)
    (hlog : n.log <+: m.log) : StandsBy n m := by
  refine Or.inr ⟨hterm, fun c h => ?_⟩
  rw [Voted, hvote, hterm]
  exact h.imp_right fun ⟨hnone, e, he, het⟩ => ⟨hnone, e, hlog.subset he, het⟩

lemma StandsBy.of_higher (h : n.currentTerm < m.currentTerm) : StandsBy n m := Or.inl h

lemma StandsBy.restart (h : StandsBy n m) (cfg : Config ι σ ρ) (hd : m.Durable) :
    StandsBy n (m.restart cfg) := by
  unfold StandsBy Voted
  rw [hd.restart_currentTerm, hd.restart_votedFor, hd.restart_log]
  exact h

lemma stepDownForVote_standsBy (term : ℕ) : StandsBy n (n.stepDownForVote term) := by
  rcases stepDownForVote_eq (n := n) term with he | ⟨hlt, he⟩ <;> rw [he]
  · exact .refl n
  · exact .of_higher hlt

lemma checkPrevious_congr (h : m.log = n.log) {p t : ℕ} (hn : n.checkPrevious p t = some none) :
    m.checkPrevious p t = some none := by
  have hlast : m.lastLogIndex = n.lastLogIndex := by simp only [Node.lastLogIndex, h]
  simp only [Node.checkPrevious, hlast, h] at hn ⊢
  split_ifs at hn ⊢ with h0 hmiss
  · rfl
  · cases hn
  · cases he : n.log[p - 1]? with
    | none =>
      rw [he] at hn
      cases hn
    | some e =>
      rw [he] at hn
      dsimp only at hn ⊢
      split_ifs at hn ⊢
      · cases hn
      · rfl

lemma handleAppendEntries_passes {args : AppendEntriesArgs ι} (h : n.currentTerm ≤ args.term)
    (hc : n.checkPrevious args.prevLogIndex args.prevLogTerm = some none) :
    ∃ reply, (n.handleAppendEntries args).2 = some reply ∧ reply.success = true := by
  obtain ⟨-, hlog, -⟩ := stepDownForAppend_eq args.term h
  have hc' := checkPrevious_congr (m := Node.resetElectionTimer
    { n.stepDownForAppend args.term with leaderId := some args.leaderId }) hlog hc
  simp only [Node.handleAppendEntries, if_neg h.not_gt, hc']
  exact ⟨_, rfl, rfl⟩

lemma handleAppendEntries_votedFor {args : AppendEntriesArgs ι} (h : n.currentTerm ≤ args.term) :
    (n.handleAppendEntries args).1.votedFor = (n.stepDownForAppend args.term).votedFor := by
  simp only [Node.handleAppendEntries, if_neg h.not_gt]
  split
  · rfl
  · rfl
  · obtain ⟨l, lf, ci, he⟩ := stored_eq (n := Node.resetElectionTimer
      { n.stepDownForAppend args.term with leaderId := some args.leaderId })
      args.prevLogIndex args.leaderCommit args.entries
    rw [he]
    rfl

/-- What an append request leaves of the log has an entry of the request's term where the log had one,
and in any case once the request is accepted. -/
lemma handleAppendEntries_dated {a : State ι Entry} {args : AppendEntriesArgs ι} {view : List Entry}
    (hn : Rooted Entry.term a n.log) (hv : Rooted Entry.term a view) (hs : Slice view args)
    (hview : ∃ e ∈ view, e.term = args.term) (hor : (∃ e ∈ n.log, e.term = args.term) ∨
      ∃ reply, (n.handleAppendEntries args).2 = some reply ∧ reply.success = true) :
    ∃ e ∈ (n.handleAppendEntries args).1.log, e.term = args.term := by
  classical
  by_cases hsuc : ∃ reply, (n.handleAppendEntries args).2 = some reply ∧ reply.success = true
  · obtain ⟨reply, hreply, hr⟩ := hsuc
    rw [handleAppendEntries_accepted hn hv hs hreply hr]
    obtain ⟨e, he, het⟩ := hview
    exact ⟨e, (prefix_accepted _ _).subset he, het⟩
  · rw [handleAppendEntries_failure fun reply hreply => by
      by_contra hr
      exact hsuc ⟨reply, hreply, by simpa using hr⟩]
    exact hor.resolve_right hsuc

lemma handleAppendEntries_standsBy {a : State ι Entry} {args : AppendEntriesArgs ι} {view : List Entry}
    (hn : Rooted Entry.term a n.log) (hv : Rooted Entry.term a view) (hs : Slice view args)
    (hview : ∃ e ∈ view, e.term = args.term) (hkeep : n.state = .candidate →
      n.currentTerm = args.term → n.checkPrevious args.prevLogIndex args.prevLogTerm = some none) :
    StandsBy n (n.handleAppendEntries args).1 := by
  rcases Nat.lt_trichotomy args.term n.currentTerm with hlt | heq | hlt
  · have hsame : (n.handleAppendEntries args).1 = n := by
      rw [Node.handleAppendEntries, if_pos hlt]
    rw [hsame]
    exact .refl n
  · have hterm := handleAppendEntries_term heq.ge
    have hvote := handleAppendEntries_votedFor heq.ge
    refine Or.inr ⟨hterm.trans heq, fun c hc => ?_⟩
    simp only [Node.stepDownForAppend, if_neg heq.le.not_gt] at hvote
    unfold Voted
    rw [hvote, hterm]
    split_ifs with hcand
    · -- the vote is gone, but the batch is stored
      exact Or.inr ⟨rfl, handleAppendEntries_dated hn hv hs hview
        (Or.inr (handleAppendEntries_passes heq.ge (hkeep hcand heq.symm)))⟩
    · rcases hc with hc | ⟨hnone, hentry⟩
      · exact Or.inl hc
      · rw [← heq] at hentry
        exact Or.inr ⟨hnone, handleAppendEntries_dated hn hv hs hview (Or.inl hentry)⟩
  · apply StandsBy.of_higher
    rw [handleAppendEntries_term hlt.le]
    exact hlt

/-- The voter's log is ahead of a candidate whose last entry is from before the term. -/
lemma granted_once {args : RequestVoteArgs ι} {c : ι}
    (hsorted : (n.log.map Entry.term).Pairwise (· ≤ ·)) (hlast : args.lastLogTerm < args.term)
    (hg : (n.handleRequestVote args).2.voteGranted = true) (hterm : n.currentTerm = args.term)
    (hc : Voted n c) : c = args.candidateId := by
  have hstep : n.stepDownForVote args.term = n := by
    rw [Node.stepDownForVote, if_neg hterm.ge.not_gt]
  have hup := (handleRequestVote_granted hg).2.2
  simp only [Node.handleRequestVote, hstep] at hg hup
  split_ifs at hg with hcond
  obtain ⟨-, hvote, -⟩ := hcond
  rcases hc with hc | ⟨hnone, e, he, het⟩
  · rw [hc] at hvote
    rcases hvote with hvote | hvote
    · cases hvote
    · exact Option.some.inj hvote
  · have hle : e.term ≤ n.lastLogTerm := le_lastTerm hsorted e he
    simp only [Node.candidateLogUpToDate] at hup
    split_ifs at hup with hne
    · simp only [decide_eq_true_eq] at hup
      omega
    · omega

variable [Fintype ι]

lemma handleRequestVoteReply_standsBy {peer : ι} {t : ℕ} {reply : RequestVoteReply}
    (h : n.handleRequestVoteReply peer t reply = some m) : StandsBy n m := by
  simp only [Node.handleRequestVoteReply] at h
  split at h
  · cases h
  · split_ifs at h with hask hlt hgranted
    · cases h
      exact .of_higher hlt
    · cases h
      exact .of_same rfl rfl List.prefix_rfl
    · cases h
      exact .of_same rfl rfl List.prefix_rfl

lemma startElection_standsBy (h : n.startElection = some m) : StandsBy n m := by
  simp only [Node.startElection] at h
  split_ifs at h with h0 hl
  · cases h
    exact .of_same rfl rfl List.prefix_rfl
  · cases h
    exact .of_higher (Nat.lt_succ_self _)

lemma electionEnds_standsBy {t : ℕ} {won : Bool} (h : n.electionEnds t = some (m, won)) :
    StandsBy n m := by
  cases won with
  | false =>
    obtain ⟨el, -, rfl | rfl⟩ := electionEnds_lost h
    · exact .of_same rfl rfl List.prefix_rfl
    · exact .of_same rfl rfl List.prefix_rfl
  | true =>
    obtain ⟨el, -, -, -, -, rfl⟩ := electionEnds_won h
    exact .of_same rfl rfl (List.prefix_append _ _)

lemma handleAppendEntriesReply_standsBy (peer : ι) (args : AppendEntriesArgs ι)
    (reply : AppendEntriesReply) : StandsBy n (n.handleAppendEntriesReply peer args reply) := by
  rcases handleAppendEntriesReply_cases (n := n) peer args reply with ⟨hlt, he⟩ | ⟨_, _, _, he⟩ <;>
    rw [he]
  · exact .of_higher hlt
  · exact .of_same rfl rfl List.prefix_rfl

lemma handleRequestVote_standsBy {args : RequestVoteArgs ι}
    (hsorted : (n.log.map Entry.term).Pairwise (· ≤ ·)) (hlast : args.lastLogTerm < args.term) :
    StandsBy n (n.handleRequestVote args).1 := by
  by_cases hg : (n.handleRequestVote args).2.voteGranted = true
  · obtain ⟨hvote, hterm, -⟩ := handleRequestVote_granted hg
    have hle : n.currentTerm ≤ args.term := hterm ▸ (handleRequestVote_settles args).term
    rcases hle.lt_or_eq with hlt | heq
    · exact .of_higher (hterm ▸ hlt)
    · refine Or.inr ⟨hterm.trans heq.symm, fun c hc => Or.inl ?_⟩
      rw [hvote, granted_once hsorted hlast hg heq hc]
  · have hsame : (n.handleRequestVote args).1 = n.stepDownForVote args.term := by
      simp only [Node.handleRequestVote] at hg ⊢
      split_ifs at hg ⊢
      · exact absurd rfl hg
      · rfl
    rw [hsame]
    exact stepDownForVote_standsBy args.term

namespace Cluster

variable {cfg : Config ι σ ρ} {s t : Cluster ι σ ρ} {a b : State ι Entry} {e : Event ι}

/-- Elections and vote requests report a last entry from before their term, and a batch comes from a log
with an entry of its term. -/
structure Dated (s : Cluster ι σ ρ) (a : State ι Entry) : Prop where
  elections : ∀ i term el, (s.nodes i).elections term = some el → el.lastLogTerm < term
  requests : ∀ dst boot args, .requestVote dst boot args ∈ s.sent → args.lastLogTerm < args.term
  batches : ∀ dst boot args, .appendEntries dst boot args ∈ s.sent →
    ∃ e ∈ sentLog a args, e.term = args.term

lemma init_dated (cfg : Config ι σ ρ) : Dated (init cfg) (State.init ι Entry) where
  elections _ _ _ h := by cases h
  requests _ _ _ h := (List.not_mem_nil h).elim
  batches _ _ _ h := (List.not_mem_nil h).elim

lemma StepAt.elections {i : ι} {n : Node ι σ ρ} (h : StepAt cfg s e i n) (ha : Tracks s a)
    (hold : ∀ term el, (s.nodes i).elections term = some el → el.lastLogTerm < term) {term : ℕ}
    {el : Election ι} (hel : n.elections term = some el) : el.lastLogTerm < term := by
  have hsettles {m : Node ι σ ρ} (hs : Settles (s.nodes i) m) (hm : m.elections term = some el) :
      el.lastLogTerm < term := by
    obtain ⟨old, hold', -, hterm⟩ := hs.elections term el hm
    rw [hterm]
    exact hold term old hold'
  cases h with
  | quiet e i n hcore => exact hsettles hcore.settles hel
  | startElection i n hn =>
    rcases startElection_cases hn with ⟨-, hs⟩ | ⟨-, -, -, hels⟩
    · exact hsettles hs hel
    · rw [hels] at hel
      by_cases ht : term = (s.nodes i).currentTerm + 1
      · rw [ht, Function.update_self] at hel
        cases hel
        have hlast : (s.nodes i).lastLogTerm ≤ (s.nodes i).currentTerm := by
          apply lastTerm_le
          rw [← ha.refines.log i, ← ha.refines.cur i]
          exact ha.inv.log_terms i
        dsimp only
        omega
      · rw [Function.update_of_ne ht] at hel
        exact hold term el hel
  | loses i t n hn => exact hsettles (electionEnds_lost_settles hn) hel
  | wins i t n hn =>
    obtain ⟨el₀, hel₀, -, -, -, rfl⟩ := electionEnds_won hn
    exact hsettles (setElection_settles { el₀ with running := false } hel₀ rfl rfl) hel
  | requestVote k dst boot args hm => exact hsettles (handleRequestVote_settles args) hel
  | requestVoteReply k src boot args reply n hm hn =>
    exact hsettles (handleRequestVoteReply_settles hn) hel
  | appendEntries k dst boot args hm =>
    rw [handleAppendEntries_elections] at hel
    exact hold term el hel
  | appendEntriesReply k src boot args reply hm =>
    exact hsettles (handleAppendEntriesReply_settles src args reply) hel
  | voteCrash k dst boot args hm => cases hel
  | appendCrash k dst boot args hm hle => cases hel
  | appendEntry i cmd n w hn =>
    obtain ⟨-, -, -, -, -, he⟩ := appendEntry_eq hn
    rw [he] at hel
    exact hold term el hel
  | crash i => cases hel

lemma Dated.step (h : Dated s a) (ha : Tracks s a) (hb : Tracks t b) (hg : Grows a b)
    (hopen : Opened Entry.term b) (he : Cluster.step cfg s e = some t) : Dated t b := by
  obtain ⟨i, n, hi, hn⟩ := step_at he
  have hc := step_change_free he
  refine ⟨fun j term el hel => ?_, fun dst boot args hm => ?_, fun dst boot args hm => ?_⟩
  · by_cases hj : j = i
    · rw [hj, hn, Function.update_self] at hel
      exact hi.elections ha (h.elections i) hel
    · rw [hn, Function.update_of_ne hj] at hel
      exact h.elections j term el hel
  · rcases hc.sent hm with hm | ho
    · exact h.requests dst boot args hm
    · cases ho with
      | requestVote j term peer args hargs =>
        obtain ⟨el, hel, -, rfl⟩ := requestVoteArgs_eq hargs
        exact h.elections j term el hel
  · rcases hc.sent hm with hm | ho
    · obtain ⟨view, hv, hs⟩ := ha.refines.messages _ hm
      have hsame : sentLog b args = sentLog a args := by
        apply hg.prefixOf_eq
        rw [hs.length_eq]
        exact hv.length_le
      rw [hsame]
      exact h.batches dst boot args hm
    · cases ho with
      | appendEntries j peer args hargs hsame =>
        obtain ⟨hl, -, hterm, -⟩ := appendEntriesArgs_eq hargs
        rw [← hsame] at hl hterm
        have hlog := (hb.refines.leader j hl).1
        have hs := slice_of_appendEntriesArgs hargs
        rw [← hsame] at hs
        rw [← hs.eq_sentLog (by rw [hterm, hlog]), ← hlog, hterm]
        exact hopen _ ((hb.refines.elected _).mpr ⟨j, hb.election.leader j hl⟩)

/-- A candidate that hears from a leader of its own term has the entry before the batch, and lives to store
the batch. -/
def KeepsVote (s : Cluster ι σ ρ) : Event ι → Prop
  | .deliver k => match s.sent[k]? with
    | some (.appendEntries dst _ args) => (s.nodes dst).state = .candidate →
      (s.nodes dst).currentTerm = args.term →
      (s.nodes dst).checkPrevious args.prevLogIndex args.prevLogTerm = some none
    | _ => True
  | .deliverAndCrash k => match s.sent[k]? with
    | some (.appendEntries dst _ args) => (s.nodes dst).state = .candidate →
      (s.nodes dst).currentTerm ≠ args.term
    | _ => True
  | _ => True

lemma StepAt.standsBy {i : ι} {n : Node ι σ ρ} (h : StepAt cfg s e i n) (ha : Tracks s a)
    (hd : Dated s a) (hk : KeepsVote s e) : StandsBy (s.nodes i) n := by
  have hdur := ha.election.durable
  cases h with
  | quiet e i n hcore =>
    exact .of_same hcore.currentTerm hcore.votedFor (hcore.log ▸ List.prefix_rfl)
  | startElection i n hn => exact startElection_standsBy hn
  | loses i term n hn => exact electionEnds_standsBy hn
  | wins i term n hn => exact electionEnds_standsBy hn
  | requestVote k dst boot args hm =>
    exact handleRequestVote_standsBy (ha.sorted _) (hd.requests _ _ _ (List.mem_of_getElem? hm))
  | requestVoteReply k src boot args reply n hm hn => exact handleRequestVoteReply_standsBy hn
  | appendEntries k dst boot args hm =>
    have hsent := List.mem_of_getElem? hm
    obtain ⟨view, hv, hs⟩ := ha.refines.messages _ hsent
    simp only [KeepsVote, hm] at hk
    have hview : ∃ e ∈ view, e.term = args.term := by
      rw [hs.eq_sentLog hv]
      exact hd.batches _ _ _ hsent
    exact handleAppendEntries_standsBy (ha.rooted _) ((ha.inv.rooted_leader _).of_isPrefix hv) hs
      hview hk
  | appendEntriesReply k src boot args reply hm => exact handleAppendEntriesReply_standsBy _ _ _
  | voteCrash k dst boot args hm =>
    exact (stepDownForVote_standsBy args.term).restart cfg
      (Node.stepDownForVote_durable (hdur _) args.term)
  | appendCrash k dst boot args hm hle =>
    simp only [KeepsVote, hm] at hk
    refine StandsBy.restart ?_ cfg (Node.stepDownForAppend_durable (hdur _) args.term)
    simp only [Node.stepDownForAppend]
    split_ifs with hlt hcand
    · exact .of_higher hlt
    · exact (hk hcand (by omega)).elim
    · exact .refl _
  | appendEntry i cmd n w hn =>
    simp only [Node.appendEntry] at hn
    split_ifs at hn
    cases hn
    exact .of_same rfl rfl (List.prefix_append _ _)
  | crash i => exact (StandsBy.refl _).restart cfg (hdur i)

/-- The votes given in an event that leads from `s` to `t`. -/
def votesCast (s : Cluster ι σ ρ) (e : Event ι) (t : Cluster ι σ ρ) : List (Vote ι) :=
  match e with
  | .startElection i =>
    if (s.nodes i).state = .leader then [] else [⟨i, i, (t.nodes i).currentTerm⟩]
  | .deliver k => match s.sent[k]? with
    | some (.requestVote dst _ args) =>
      let reply := ((s.nodes dst).handleRequestVote args).2
      if reply.voteGranted then [⟨dst, args.candidateId, reply.term⟩] else []
    | _ => []
  | _ => []

/-- A vote goes to the candidate the voter then has, and the voter had no other in that term. -/
structure Cast (s t : Cluster ι σ ρ) (v : Vote ι) : Prop where
  term : v.term = (t.nodes v.voter).currentTerm
  voted : Voted (t.nodes v.voter) v.candidate
  only : (s.nodes v.voter).currentTerm = v.term → ∀ c, Voted (s.nodes v.voter) c → c = v.candidate

lemma startElection_cast {i : ι} (hn : (s.nodes i).startElection = some (t.nodes i))
    (hid : (s.nodes i).nodeId = i) (hl : (s.nodes i).state ≠ .leader) :
    Cast s t ⟨i, i, (t.nodes i).currentTerm⟩ := by
  simp only [Node.startElection, if_neg hl] at hn
  split_ifs at hn
  have hself := (Option.some.inj hn).symm
  refine ⟨rfl, Or.inl ?_, fun hterm => ?_⟩
  · change (t.nodes i).votedFor = some i
    rw [hself]
    exact congrArg some hid
  · change (s.nodes i).currentTerm = (t.nodes i).currentTerm at hterm
    rw [hself] at hterm
    exact absurd hterm (Nat.lt_succ_self _).ne

lemma handleRequestVote_cast {dst : ι} {args : RequestVoteArgs ι}
    (ht : t.nodes dst = ((s.nodes dst).handleRequestVote args).1)
    (hsorted : ((s.nodes dst).log.map Entry.term).Pairwise (· ≤ ·))
    (hlast : args.lastLogTerm < args.term)
    (hg : ((s.nodes dst).handleRequestVote args).2.voteGranted = true) :
    Cast s t ⟨dst, args.candidateId, ((s.nodes dst).handleRequestVote args).2.term⟩ := by
  obtain ⟨hvote, hterm, -⟩ := handleRequestVote_granted hg
  have hreply : ((s.nodes dst).handleRequestVote args).2.term =
      ((s.nodes dst).handleRequestVote args).1.currentTerm := by
    simp only [Node.handleRequestVote]
    split_ifs <;> rfl
  refine ⟨by rw [hreply, ht], Or.inl (by rw [ht, hvote]), fun hsame c hc => ?_⟩
  exact granted_once hsorted hlast hg (hsame.trans (hreply.trans hterm)) hc

lemma votesCast_cast (ha : Tracks s a) (hd : Dated s a) (he : step cfg s e = some t) :
    votesCast s e t = [] ∨ ∃ v, votesCast s e t = [v] ∧ Cast s t v := by
  unfold votesCast
  cases e with
  | startElection i =>
    obtain ⟨n, hn, rfl⟩ := Option.map_eq_some_iff.mp he
    dsimp only
    split_ifs with hl
    · exact Or.inl rfl
    · refine Or.inr ⟨_, rfl, startElection_cast ?_ (ha.election.nodeId i) hl⟩
      rw [hn, setNode_nodes, Function.update_self]
  | deliver k =>
    obtain ⟨m, hm, hdel⟩ := Option.bind_eq_some_iff.mp he
    dsimp only
    rw [hm]
    cases m with
    | requestVote dst boot args =>
      simp only [deliver] at hdel
      split_ifs at hdel
      cases hdel
      dsimp only
      split_ifs with hg
      · refine Or.inr ⟨_, rfl, handleRequestVote_cast (Function.update_self ..) (ha.sorted dst) ?_ hg⟩
        exact hd.requests _ _ _ (List.mem_of_getElem? hm)
      · exact Or.inl rfl
    | requestVoteReply src boot args reply => exact Or.inl rfl
    | appendEntries dst boot args => exact Or.inl rfl
    | appendEntriesReply src boot args reply => exact Or.inl rfl
  | _ => exact Or.inl rfl

/-- The votes of a run so far, against the votes the nodes stand by. -/
structure Ballots (s : Cluster ι σ ρ) (votes : List (Vote ι)) : Prop where
  past : ∀ v ∈ votes, v.term ≤ (s.nodes v.voter).currentTerm
  voted : ∀ v ∈ votes, (s.nodes v.voter).currentTerm = v.term →
    Voted (s.nodes v.voter) v.candidate
  single : ∀ v ∈ votes, ∀ w ∈ votes, v.voter = w.voter → v.term = w.term → v.candidate = w.candidate

lemma Ballots.keep {votes : List (Vote ι)} (h : Ballots s votes)
    (hs : ∀ j, StandsBy (s.nodes j) (t.nodes j)) : Ballots t votes := by
  refine ⟨fun v hv => ?_, fun v hv hterm => ?_, h.single⟩
  · rcases hs v.voter with hlt | ⟨heq, -⟩
    · exact (h.past v hv).trans hlt.le
    · exact (h.past v hv).trans heq.ge
  · rcases hs v.voter with hlt | ⟨heq, hstand⟩
    · have hpast := h.past v hv
      omega
    · exact hstand _ (h.voted v hv (heq.symm.trans hterm))

lemma Ballots.cast {votes : List (Vote ι)} {v : Vote ι} (h : Ballots s votes)
    (hs : ∀ j, StandsBy (s.nodes j) (t.nodes j)) (hv : Cast s t v) : Ballots t (votes ++ [v]) := by
  have hkeep := h.keep hs
  -- an earlier vote of the voter in this term went to the same candidate
  have hsame {w : Vote ι} (hw : w ∈ votes) (hvoter : w.voter = v.voter) (hterm : w.term = v.term) :
      w.candidate = v.candidate := by
    have hpast := h.past w hw
    rw [hvoter, hterm] at hpast
    have hnow : (s.nodes v.voter).currentTerm = v.term := by
      rcases hs v.voter with hlt | ⟨heq, -⟩
      · rw [← hv.term] at hlt
        omega
      · rw [← heq, hv.term]
    have hvoted := h.voted w hw (by rw [hvoter, hterm, hnow])
    rw [hvoter] at hvoted
    exact hv.only hnow _ hvoted
  refine ⟨fun w hw => ?_, fun w hw hterm => ?_, fun w hw u hu hvoter hterm => ?_⟩
  · rcases List.mem_append.mp hw with hw | hw
    · exact hkeep.past w hw
    · rw [List.mem_singleton.mp hw, hv.term]
  · rcases List.mem_append.mp hw with hw | hw
    · exact hkeep.voted w hw hterm
    · rw [List.mem_singleton.mp hw]
      exact hv.voted
  · rcases List.mem_append.mp hw with hold | hnew <;> rcases List.mem_append.mp hu with hold' | hnew'
    · exact h.single w hold u hold' hvoter hterm
    · rw [List.mem_singleton.mp hnew'] at hvoter hterm ⊢
      exact hsame hold hvoter hterm
    · rw [List.mem_singleton.mp hnew] at hvoter hterm ⊢
      exact (hsame hold' hvoter.symm hterm.symm).symm
    · rw [List.mem_singleton.mp hnew, List.mem_singleton.mp hnew']

structure Voting (x : Cluster ι σ ρ × List (Vote ι)) (a : State ι Entry) : Prop where
  tracks : Tracks x.1 a
  opened : Opened Entry.term a
  dated : Dated x.1 a
  ballots : Ballots x.1 x.2

lemma init_voting (cfg : Config ι σ ρ) : Voting (init cfg, []) (State.init ι Entry) where
  tracks := init_tracks cfg
  opened := init_opened
  dated := init_dated cfg
  ballots := ⟨fun _ h => (List.not_mem_nil h).elim, fun _ h => (List.not_mem_nil h).elim,
    fun _ h => (List.not_mem_nil h).elim⟩

lemma Voting.step {x y : Cluster ι σ ρ × List (Vote ι)} (h : Voting x a) (hk : KeepsVote x.1 e)
    (he : recording (Cluster.step cfg) votesCast x e = some y) :
    ∃ b, Relation.ReflTransGen (Step Entry.term) a b ∧ Voting y b := by
  obtain ⟨hs, hy⟩ := recording_eq_some.mp he
  obtain ⟨b, hab, hb⟩ := h.tracks.step hs
  have hopen := run_opened h.opened hab
  have hdated := h.dated.step h.tracks hb (run_grows hab) hopen hs
  obtain ⟨i, n, hi, hn⟩ := step_at hs
  have hstand (j : ι) : StandsBy (x.1.nodes j) (y.1.nodes j) := by
    by_cases hj : j = i
    · rw [hj, hn, Function.update_self]
      exact hi.standsBy h.tracks h.dated hk
    · rw [hn, Function.update_of_ne hj]
      exact .refl _
  refine ⟨b, hab, hb, hopen, hdated, ?_⟩
  rcases votesCast_cast h.tracks h.dated hs with hnone | ⟨v, hv, hcast⟩
  · rw [hy, hnone, List.append_nil]
    exact h.ballots.keep hstand
  · rw [hy, hv]
    exact h.ballots.cast hstand hcast

/-- In runs where a candidate that hears from a leader of its own term takes the leader's batch, all the
votes a node gives in a term go to one candidate. -/
theorem one_vote_per_term {cfg : Config ι σ ρ} {s : Cluster ι σ ρ} {votes : List (Vote ι)}
    (h : Run (recording (step cfg) votesCast) (fun x e => KeepsVote x.1 e) (init cfg, []) (s, votes))
    {v w : Vote ι} (hv : v ∈ votes) (hw : w ∈ votes) (hvoter : v.voter = w.voter)
    (hterm : v.term = w.term) : v.candidate = w.candidate := by
  obtain ⟨a, -, ha⟩ := Run.simulates (fun _ _ _ _ hx hk he => hx.step hk he) h (init_voting cfg)
  exact ha.ballots.single v hv w hw hvoter hterm

instance (s : Cluster ι σ ρ) (e : Event ι) : Decidable (KeepsVote s e) := by
  unfold KeepsVote
  split
  · split <;> infer_instance
  · split <;> infer_instance
  · infer_instance

/-- Node 1 gives up its candidacy for the leader of its term, and refuses the request that leader made as a
candidate. -/
theorem one_vote_per_term_erased : ∃ s votes, Run (recording (step (stateless 3)) votesCast)
      (fun x e => KeepsVote x.1 e) (init (stateless 3), []) (s, votes) ∧
    (s.nodes 1).votedFor = none ∧ ⟨1, 1, 1⟩ ∈ votes ∧
    ∀ w ∈ votes, w.voter = 1 → w.term = 1 → w.candidate = 1 := by
  obtain ⟨⟨s, votes⟩, hs, hnone, hv⟩ := Run.exists_of_execute
    (guarded (recording (step (stateless 3)) votesCast) fun x e => KeepsVote x.1 e)
    (init (stateless 3), []) (erasedVote ++ [.sendRequestVote 0 1 1, .deliver 4])
    (fun x => (x.1.nodes 1).votedFor = none ∧ ⟨1, 1, 1⟩ ∈ x.2) (by decide +kernel)
  exact ⟨s, votes, hs.of_guarded, hnone, hv, fun w hw hvoter hterm =>
    one_vote_per_term hs.of_guarded hw hv hvoter hterm⟩

/-- Nodes 0, 1 and 2 are candidates of term 2. The first request of node 0, which wins it, does not fit the
empty log of node 1, which then votes for node 2. -/
def votesAgain : List (Event (Fin 5)) :=
  campaign 1 1 0 [] ++ campaign 2 1 0 [] ++ campaign 0 1 0 [3, 4] ++
    [.timerFires 1, .startElection 1, .timerFires 2, .startElection 2, .crash 0] ++
    campaign 0 2 4 [3, 4] ++ [.sendAppendEntries 0 1, .deliver 8, .sendRequestVote 2 2 1, .deliver 10]

theorem one_vote_per_term_votes_again : ¬ ∀ s votes, Run (recording (step (stateless 5)) votesCast) Free
      (init (stateless 5), []) (s, votes) →
    ∀ v ∈ votes, ∀ w ∈ votes, v.voter = w.voter → v.term = w.term → v.candidate = w.candidate := by
  intro hall
  obtain ⟨⟨s, votes⟩, hs, hv, hw⟩ := Run.exists_of_execute (recording (step (stateless 5)) votesCast)
    (init (stateless 5), []) votesAgain (fun x => ⟨1, 1, 2⟩ ∈ x.2 ∧ ⟨1, 2, 2⟩ ∈ x.2) (by decide +kernel)
  have hsame := hall s votes hs _ hv _ hw rfl rfl
  revert hsame
  decide

end Cluster

end DistributedStorage.Raft

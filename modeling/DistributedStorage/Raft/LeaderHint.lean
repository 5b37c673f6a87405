import DistributedStorage.Raft.Messages
import DistributedStorage.Raft.Snapshots

/-! The leader a node names. A node that learns of a later term keeps the name it knew in the earlier one,
and a snapshot brings a name with it. -/

set_option linter.unusedSectionVars false

namespace DistributedStorage.Raft

open Library.Runs

variable {ι σ ρ : Type} [DecidableEq ι]

namespace Node

/-- The name and the address of the leader; the caller knows its own address. -/
def getLeaderInfo (cfg : Config ι σ ρ) (n : Node ι σ ρ) : Option ι × Option String :=
  match n.leaderId with
  | none => (none, none)
  | some lid => if lid = n.nodeId then (some lid, none) else (some lid, cfg.peer n.nodeId (some lid))

/-- The reply of `GetLeader`, or nothing where `has_leader` is false. -/
def getLeader (cfg : Config ι σ ρ) (n : Node ι σ ρ) : Option (ι × String) :=
  match n.getLeaderInfo cfg with
  | (none, _) => none
  | (some lid, none) => some (lid, if lid = n.nodeId then cfg.address lid else "")
  | (some lid, some addr) => some (lid, addr)

structure Status (ι : Type) where
  nodeId : ι
  state : Role
  term : ℕ
  leaderId : Option ι
  commitIndex : ℕ
  lastApplied : ℕ
  lastLogIndex : ℕ
  lastLogTerm : ℕ
  isolated : Bool
  matchIndex : ι → ℕ

def status (n : Node ι σ ρ) : Status ι where
  nodeId := n.nodeId
  state := n.state
  term := n.currentTerm
  leaderId := n.leaderId
  commitIndex := n.commitIndex
  lastApplied := n.lastApplied
  lastLogIndex := n.lastLogIndex
  lastLogTerm := n.lastLogTerm
  isolated := n.isolated
  matchIndex := if n.state = .leader then n.matchIndex else fun _ => 0

lemma getLeaderInfo_fst (cfg : Config ι σ ρ) (n : Node ι σ ρ) :
    (n.getLeaderInfo cfg).1 = n.leaderId := by
  simp only [getLeaderInfo]
  cases n.leaderId with
  | none => rfl
  | some lid =>
    dsimp only
    split_ifs <;> rfl

lemma getLeader_leaderId {cfg : Config ι σ ρ} {n : Node ι σ ρ} {lid : ι} {addr : String}
    (h : n.getLeader cfg = some (lid, addr)) : n.leaderId = some lid := by
  rw [← getLeaderInfo_fst cfg n]
  simp only [getLeader] at h
  split at h
  · cases h
  · rename_i k hk
    cases h
    rw [hk]
  · rename_i k a hk
    cases h
    rw [hk]

lemma appendEntry_redirect {cfg : Config ι σ ρ} {n : Node ι σ ρ} {cmd : Command} {lid : Option ι}
    {addr : Option String} (h : n.appendEntry cfg cmd = .error (.notLeader lid addr)) :
    n.state ≠ .leader ∧ lid = n.leaderId := by
  simp only [appendEntry] at h
  split_ifs at h with hl
  cases h
  exact ⟨hl, rfl⟩

end Node

/-- The node names nobody any more, or the same leader in the same term and role. -/
def SameHint (n m : Node ι σ ρ) : Prop :=
  m.leaderId = none ∨
    (m.leaderId = n.leaderId ∧ m.currentTerm = n.currentTerm ∧ m.state = n.state)

/-- The node takes over a later term, and keeps the name of the leader. -/
structure Adopts (n m : Node ι σ ρ) (term : ℕ) : Prop where
  later : n.currentTerm < term
  term : m.currentTerm = term
  leaderId : m.leaderId = n.leaderId

variable {n m : Node ι σ ρ}

lemma SameCore.sameHint (h : SameCore n m) : SameHint n m :=
  Or.inr ⟨h.leaderId, h.currentTerm, h.state⟩

lemma becomeFollower_adopts {t : ℕ} (h : n.currentTerm < t) : Adopts n (n.becomeFollower t) t :=
  ⟨h, rfl, rfl⟩

lemma stepDownForVote_hint (t : ℕ) :
    SameHint n (n.stepDownForVote t) ∨ Adopts n (n.stepDownForVote t) t := by
  rcases stepDownForVote_eq (n := n) t with he | ⟨hlt, he⟩
  · rw [he]
    exact Or.inl (Or.inr ⟨rfl, rfl, rfl⟩)
  · rw [he]
    exact Or.inr (becomeFollower_adopts hlt)

lemma handleRequestVote_hint (args : RequestVoteArgs ι) :
    SameHint n (n.handleRequestVote args).1 ∨ Adopts n (n.handleRequestVote args).1 args.term := by
  obtain ⟨v, hs, armed, he⟩ := handleRequestVote_eq (n := n) args
  rw [he]
  rcases stepDownForVote_hint (n := n) args.term with h | ⟨hlt, hterm, hlid⟩
  · exact Or.inl h
  · exact Or.inr ⟨hlt, hterm, hlid⟩

lemma handleAppendEntries_hint (args : AppendEntriesArgs ι) :
    (n.handleAppendEntries args).1 = n ∨ ((n.handleAppendEntries args).1.leaderId = some args.leaderId ∧
      (n.handleAppendEntries args).1.currentTerm = args.term) := by
  simp only [Node.handleAppendEntries]
  split_ifs with hlt
  · exact Or.inl rfl
  obtain ⟨hterm, -, -⟩ := stepDownForAppend_eq (n := n) args.term (not_lt.mp hlt)
  split
  · exact Or.inr ⟨rfl, hterm⟩
  · exact Or.inr ⟨rfl, hterm⟩
  · obtain ⟨l, lf, ci, he⟩ := stored_eq (n := Node.resetElectionTimer
      { n.stepDownForAppend args.term with leaderId := some args.leaderId })
      args.prevLogIndex args.leaderCommit args.entries
    rw [he]
    exact Or.inr ⟨rfl, hterm⟩

lemma appendEntry_sameHint {cfg : Config ι σ ρ} {cmd : Command} {w : ℕ}
    (h : n.appendEntry cfg cmd = .ok (m, w)) : SameHint n m := by
  simp only [Node.appendEntry] at h
  split_ifs at h
  cases h
  exact Or.inr ⟨rfl, rfl, rfl⟩

variable [Fintype ι]

lemma startElection_sameHint (h : n.startElection = some m) : SameHint n m := by
  simp only [Node.startElection] at h
  split_ifs at h
  · cases h
    exact Or.inr ⟨rfl, rfl, rfl⟩
  · cases h
    exact Or.inl rfl

lemma electionEnds_lost_sameHint {t : ℕ} (h : n.electionEnds t = some (m, false)) : SameHint n m := by
  obtain ⟨el, -, rfl | rfl⟩ := electionEnds_lost h
  · exact Or.inr ⟨rfl, rfl, rfl⟩
  · exact Or.inr ⟨rfl, rfl, rfl⟩

lemma handleRequestVoteReply_hint {peer : ι} {t : ℕ} {reply : RequestVoteReply}
    (h : n.handleRequestVoteReply peer t reply = some m) : SameHint n m ∨ Adopts n m reply.term := by
  simp only [Node.handleRequestVoteReply] at h
  split at h
  · cases h
  · split_ifs at h with _ hlt
    · cases h
      exact Or.inr ⟨hlt, rfl, rfl⟩
    · cases h
      exact Or.inl (Or.inr ⟨rfl, rfl, rfl⟩)
    · cases h
      exact Or.inl (Or.inr ⟨rfl, rfl, rfl⟩)

lemma handleAppendEntriesReply_hint (peer : ι) (args : AppendEntriesArgs ι)
    (reply : AppendEntriesReply) : SameHint n (n.handleAppendEntriesReply peer args reply) ∨
      Adopts n (n.handleAppendEntriesReply peer args reply) reply.term := by
  rcases handleAppendEntriesReply_cases (n := n) peer args reply with ⟨hlt, he⟩ | ⟨_, _, _, he⟩
  · rw [he]
    exact Or.inr (becomeFollower_adopts hlt)
  · rw [he]
    exact Or.inl (Or.inr ⟨rfl, rfl, rfl⟩)

namespace Cluster

/-- Whoever the node `i` names has won `term`. -/
def HasWon (s : Cluster ι σ ρ) (i : ι) (term : ℕ) : Prop :=
  ∀ j ∈ (s.nodes i).leaderId, .elected j term ∈ s.trace

/-- A node that learns of a later term names nobody, or the node that has won that term. -/
def KeepsHint (s : Cluster ι σ ρ) : Message ι → Prop
  | .requestVote dst _ args => (s.nodes dst).currentTerm < args.term → s.HasWon dst args.term
  | .requestVoteReply _ _ args reply =>
    (s.nodes args.candidateId).currentTerm < reply.term → s.HasWon args.candidateId reply.term
  | .appendEntries .. => True
  | .appendEntriesReply _ _ args reply =>
    (s.nodes args.leaderId).currentTerm < reply.term → s.HasWon args.leaderId reply.term

/-- A named leader has won the term of the node that names it, and a node that names itself leads. -/
def Truthful (s : Cluster ι σ ρ) (i : ι) (n : Node ι σ ρ) : Prop :=
  ∀ j, n.leaderId = some j → .elected j n.currentTerm ∈ s.trace ∧ (j = i → n.state = .leader)

structure Hinting (s : Cluster ι σ ρ) : Prop where
  election : ElectionInv s
  signed : Signed s
  addressed : ∀ dst boot args, .appendEntries dst boot args ∈ s.sent → dst ≠ args.leaderId
  hint : ∀ i, Truthful s i (s.nodes i)

variable {cfg : Config ι σ ρ} {s t : Cluster ι σ ρ} {e : Event ι}

lemma ElectionInv.elected_le (h : ElectionInv s) {i : ι} {term : ℕ} (he : .elected i term ∈ s.trace) :
    term ≤ (s.nodes i).currentTerm := by
  obtain ⟨Q, -, hi, hall⟩ := h.won i term he
  rcases (hall i hi).1 with hlt | ⟨heq, -, -⟩
  · exact hlt.le
  · exact heq.ge

lemma Truthful.mono {i : ι} (h : Truthful s i n) (ht : s.trace <+: t.trace) : Truthful t i n :=
  fun j hj => ⟨ht.subset (h j hj).1, (h j hj).2⟩

lemma Truthful.same {i : ι} (h : Truthful s i n) (hs : SameHint n m) : Truthful s i m := by
  rcases hs with hnone | ⟨hlid, hterm, hstate⟩
  · intro j hj
    rw [hnone] at hj
    cases hj
  · intro j hj
    rw [hterm, hstate]
    exact h j (hlid ▸ hj)

/-- A node that names itself has not won a term it has yet to learn of. -/
lemma Hinting.adopt {i : ι} {term : ℕ} (h : Hinting s) (ha : Adopts (s.nodes i) m term)
    (hk : (s.nodes i).currentTerm < term → s.HasWon i term) : Truthful s i m := by
  intro j hj
  have hwon := hk ha.later j (ha.leaderId ▸ hj)
  rw [ha.term]
  refine ⟨hwon, ?_⟩
  rintro rfl
  exact absurd ha.later (not_lt.mpr (h.election.elected_le hwon))

lemma StepAt.truthful {i : ι} (h : StepAt cfg s e i n) (hs : Hinting s) (ht : ElectionInv t)
    (htrace : s.trace <+: t.trace) (hself : t.nodes i = n) (hk : AtDelivery KeepsHint s e) :
    Truthful t i n := by
  have hold := hs.hint
  cases h with
  | quiet e i n hcore => exact ((hold i).same hcore.sameHint).mono htrace
  | startElection i n hn => exact ((hold i).same (startElection_sameHint hn)).mono htrace
  | loses i term n hn => exact ((hold i).same (electionEnds_lost_sameHint hn)).mono htrace
  | wins i term n hn =>
    obtain ⟨el, -, -, -, -, rfl⟩ := electionEnds_won hn
    intro j hj
    have hji : j = i := (Option.some.inj hj).symm.trans (hs.election.nodeId i)
    rw [hji, ← hself]
    exact ⟨ht.leader i (by rw [hself]; rfl), fun _ => by rw [hself]; rfl⟩
  | requestVote k dst boot args hm =>
    apply Truthful.mono ?_ htrace
    rcases handleRequestVote_hint (n := s.nodes i) args with hsame | hadopt
    · exact (hold i).same hsame
    · exact hs.adopt hadopt (hk _ hm)
  | requestVoteReply k src boot args reply n hm hn =>
    apply Truthful.mono ?_ htrace
    rcases handleRequestVoteReply_hint hn with hsame | hadopt
    · exact (hold _).same hsame
    · exact hs.adopt hadopt (hk _ hm)
  | appendEntries k dst boot args hm =>
    have hsent := List.mem_of_getElem? hm
    apply Truthful.mono ?_ htrace
    rcases handleAppendEntries_hint (n := s.nodes i) args with hstale | ⟨hlid, hterm⟩
    · rw [hstale]
      exact hold i
    · intro j hj
      obtain rfl : args.leaderId = j := Option.some.inj (hlid.symm.trans hj)
      rw [hterm]
      exact ⟨hs.signed _ _ _ hsent, fun hji => (hs.addressed _ _ _ hsent hji.symm).elim⟩
  | appendEntriesReply k src boot args reply hm =>
    apply Truthful.mono ?_ htrace
    rcases handleAppendEntriesReply_hint (n := s.nodes args.leaderId) src args reply with hsame | hadopt
    · exact (hold _).same hsame
    · exact hs.adopt hadopt (hk _ hm)
  | voteCrash k dst boot args hm => exact nofun
  | appendCrash k dst boot args hm hle => exact nofun
  | appendEntry i cmd n w hn => exact ((hold i).same (appendEntry_sameHint hn)).mono htrace
  | crash i => exact nofun

lemma init_hinting (cfg : Config ι σ ρ) : Hinting (init cfg) where
  election := init_electionInv cfg
  signed _ _ _ h := (List.not_mem_nil h).elim
  addressed _ _ _ h := (List.not_mem_nil h).elim
  hint _ _ h := by cases h

lemma Hinting.step (h : Hinting s) (hk : AtDelivery KeepsHint s e) (he : step cfg s e = some t) :
    Hinting t := by
  have hc := step_change_free he
  have hel := h.election.change hc
  obtain ⟨i, n, hi, hn⟩ := step_at he
  have hself : t.nodes i = n := by rw [hn, Function.update_self]
  refine ⟨hel, h.signed.change h.election hc, fun dst boot args hm => ?_, fun j => ?_⟩
  · rcases hc.sent hm with hm | ho
    · exact h.addressed dst boot args hm
    · cases ho with
      | appendEntries i peer args hargs =>
        obtain ⟨-, hne, -, hid, -⟩ := appendEntriesArgs_eq hargs
        rwa [hid]
  · by_cases hj : j = i
    · rw [hj, hself]
      exact hi.truthful h hel hc.trace hself hk
    · rw [hn, Function.update_of_ne hj]
      exact (h.hint j).mono hc.trace

end Cluster

namespace Installing

open Cluster

variable {cfg : Config ι σ ρ} {applyFn : σ → Bytes → σ × Bool} {x y : Installing ι σ ρ}
  {e : InstallEvent ι}

/-- A snapshot names the node that has won the term the receiver then has, and the receiver itself only if
it leads. -/
def NamesLeader (x : Installing ι σ ρ) : InstallEvent ι → Prop
  | .raft e => AtDelivery KeepsHint x.toCluster e
  | .begins i args =>
    .elected args.leaderId (max (x.nodes i).currentTerm args.term) ∈ x.trace ∧
      (args.leaderId = i → (x.nodes i).state = .leader)
  | .resumes _ => True

lemma hinting_section {i : ι} {n : Node ι σ ρ} (h : SectionAt applyFn x e i n)
    (hs : Hinting x.toCluster) (hk : NamesLeader x e) : Hinting (x.setNode i n) := by
  refine ⟨h.electionInv hs.election, hs.signed, hs.addressed, fun j => ?_⟩
  by_cases hj : j = i
  · rw [hj, setNode_nodes, Function.update_self]
    cases h with
    | begins i args =>
      intro l hl
      obtain rfl : args.leaderId = l := Option.some.inj hl
      rw [snapshotBegins_term]
      refine ⟨hk.1, fun hself => ?_⟩
      -- a leader that has won the term already has it
      have hle := hs.election.elected_le hk.1
      rw [hself] at hle
      change ((x.nodes i).stepDownForVote args.term).state = .leader
      rw [Node.stepDownForVote, if_neg (not_lt.mpr (le_trans (le_max_right _ _) hle))]
      exact hk.2 hself
    | applies k call hcall hstage => exact (hs.hint call.dst).same (Or.inr ⟨rfl, rfl, rfl⟩)
    | ends k call hcall hstage => exact (hs.hint call.dst).same (Or.inr ⟨rfl, rfl, rfl⟩)
  · rw [setNode_nodes, Function.update_of_ne hj]
    exact hs.hint j

lemma hinting (h : Reachable cfg applyFn NamesLeader x) : Hinting x.toCluster := by
  refine Run.invariant (I := fun x => Hinting x.toCluster) (fun x e y hs hk he => ?_) h
    (init_hinting cfg)
  rcases step_cases he with ⟨f, rfl, hf⟩ | ⟨i, n, hi, hy⟩
  · exact hs.step hk hf
  · rw [hy]
    exact hinting_section hi hs hk

/-- In runs where a node that learns of a later term names nobody or the winner of that term, and snapshots
name the winner of the receiver's term, every node names the winner of its own term, in `GetLeader`, in
`GetStatus` and in redirects, and names itself only while it leads. -/
theorem leader_hint_truthful (h : Reachable cfg applyFn NamesLeader x) (i j : ι) :
    ((x.nodes i).leaderId = some j →
      .elected j (x.nodes i).currentTerm ∈ x.trace ∧ (j = i → (x.nodes i).state = .leader)) ∧
    (∀ addr, (x.nodes i).getLeader cfg = some (j, addr) →
      .elected j (x.nodes i).currentTerm ∈ x.trace) ∧
    ((x.nodes i).status.leaderId = some j → .elected j (x.nodes i).status.term ∈ x.trace ∧
      (j = (x.nodes i).status.nodeId → (x.nodes i).status.state = .leader)) ∧
    ∀ cmd addr, (x.nodes i).appendEntry cfg cmd = .error (.notLeader (some j) addr) →
      .elected j (x.nodes i).currentTerm ∈ x.trace ∧ j ≠ i := by
  have hs := hinting h
  have hid := hs.election.nodeId i
  refine ⟨hs.hint i j, fun addr hget => ?_, fun hst => ?_, fun cmd addr happ => ?_⟩
  · exact (hs.hint i j (Node.getLeader_leaderId hget)).1
  · obtain ⟨hel, hself⟩ := hs.hint i j hst
    exact ⟨hel, fun hj => hself (hj.trans hid)⟩
  · obtain ⟨hl, hlid⟩ := Node.appendEntry_redirect happ
    obtain ⟨hel, hself⟩ := hs.hint i j hlid.symm
    exact ⟨hel, fun hj => hl (hself hj)⟩

section Examples

variable [DecidableEq ρ]

instance (s : Cluster ι σ ρ) (i : ι) (term : ℕ) : Decidable (s.HasWon i term) :=
  inferInstanceAs (Decidable (∀ j ∈ (s.nodes i).leaderId, _))

instance (s : Cluster ι σ ρ) (m : Message ι) : Decidable (KeepsHint s m) :=
  match m with
  | .requestVote .. | .requestVoteReply .. | .appendEntriesReply .. =>
    inferInstanceAs (Decidable (_ → _))
  | .appendEntries .. => inferInstanceAs (Decidable True)

instance (x : Installing ι σ ρ) (e : InstallEvent ι) : Decidable (NamesLeader x e) :=
  match e with
  | .raft e => inferInstanceAs (Decidable (AtDelivery KeepsHint x.toCluster e))
  | .begins .. => inferInstanceAs (Decidable (_ ∧ (_ → _)))
  | .resumes _ => inferInstanceAs (Decidable True)

end Examples

/-- Node 0 leads; node 1 hears of it in a request, node 2 in a snapshot. -/
def namedLeader : List (InstallEvent (Fin 3)) :=
  raftEvents (campaign 0 1 0 [1] ++ replicate 0 1 2) ++ [.begins 2 ⟨1, 0, 0, 0, []⟩, .resumes 0]

theorem leader_hint_truthful_named : ∃ x, Reachable (stateless 3) ignores NamesLeader x ∧
    (x.nodes 1).leaderId = some 0 ∧ (x.nodes 2).leaderId = some 0 ∧
    .elected 0 (x.nodes 2).currentTerm ∈ x.trace := by
  obtain ⟨x, hx, h₁, h₂⟩ := Run.exists_of_execute
    (guarded (step (stateless 3) ignores) NamesLeader) (init (stateless 3)) namedLeader
    (fun x => (x.nodes 1).leaderId = some 0 ∧ (x.nodes 2).leaderId = some 0) (by decide +kernel)
  exact ⟨x, hx.of_guarded, h₁, h₂, ((leader_hint_truthful hx.of_guarded 2 0).1 h₂).1⟩

/-- The leader of term 1 gets a vote request of term 2. -/
def deposed : List (InstallEvent (Fin 3)) :=
  raftEvents (campaign 0 1 0 [1] ++
    [.timerFires 1, .startElection 1, .sendRequestVote 1 2 0, .deliver 2])

theorem leader_hint_truthful_deposed : ¬ ∀ x, Reachable (stateless 3) ignores Free x → ∀ i j,
    (x.nodes i).leaderId = some j →
      .elected j (x.nodes i).currentTerm ∈ x.trace ∧ (j = i → (x.nodes i).state = .leader) := by
  intro hall
  obtain ⟨x, hx, hlid, hstate⟩ := Run.exists_of_execute (step (stateless 3) ignores)
    (init (stateless 3)) deposed
    (fun x => (x.nodes 0).leaderId = some 0 ∧ (x.nodes 0).state = .follower) (by decide +kernel)
  have hleads := (hall x hx 0 0 hlid).2 rfl
  rw [hstate] at hleads
  cases hleads

end Installing

end DistributedStorage.Raft

import DistributedStorage.Raft.Settling

/-! The cluster refines replication by leader logs: every run of the nodes is a run of the abstract
machine in which a node's log and term are what the machine holds for it. -/

set_option linter.unusedSectionVars false

namespace DistributedStorage.Raft

open Library.LeaderLogs Library.Runs

variable {ι σ ρ : Type} [DecidableEq ι]

/-- A candidate of `term` claims the end of the log it has, for as long as it is one. -/
def Claims (n : Node ι σ ρ) (term index t : ℕ) : Prop :=
  term ≤ n.currentTerm ∧ (n.currentTerm = term → n.state = .candidate →
    index = n.log.length ∧ t = lastTerm Entry.term n.log)

/-- The request carries everything after some position of `view`, the log its leader had. -/
def Slice (view : List Entry) (args : AppendEntriesArgs ι) : Prop :=
  args.prevLogIndex ≤ view.length ∧ args.entries = view.drop args.prevLogIndex ∧
    (args.prevLogIndex = 0 ∨
      (view[args.prevLogIndex - 1]?.map Entry.term) = some args.prevLogTerm)

lemma Slice.length_eq {view : List Entry} {args : AppendEntriesArgs ι} (h : Slice view args) :
    args.prevLogIndex + args.entries.length = view.length := by
  obtain ⟨hle, he, -⟩ := h
  rw [he, List.length_drop]
  omega

/-- The loop over a batch whose previous entry matches leaves the common log, or the log of the sender. -/
lemma Slice.inserts {view log : List Entry} {args : AppendEntriesArgs ι} [Decidable (view <+: log)]
    (h : Slice view args) (hm : Matching log view) (hprev : args.prevLogIndex = 0 ∨
      (log[args.prevLogIndex - 1]?.map Entry.term) = some args.prevLogTerm) :
    Node.insertEntries log args.prevLogIndex args.entries = accepted log view := by
  obtain ⟨hle, hes, hpt⟩ := h
  have htake : args.prevLogIndex ≤ log.length ∧
      log.take args.prevLogIndex = view.take args.prevLogIndex := by
    rcases Nat.eq_zero_or_pos args.prevLogIndex with h0 | hpos
    · simp [h0]
    · obtain ⟨x, hx, hxt⟩ := Option.map_eq_some_iff.mp (hprev.resolve_left hpos.ne')
      obtain ⟨y, hy, hyt⟩ := Option.map_eq_some_iff.mp (hpt.resolve_left hpos.ne')
      have hlt := (List.getElem?_eq_some_iff.mp hx).1
      have hh := hm _ x y hx hy (hxt.trans hyt.symm)
      rw [Nat.sub_add_cancel hpos] at hh
      exact ⟨by omega, hh⟩
  exact insertEntries_eq hm htake.1 (by rw [htake.2, hes, List.take_append_drop])

lemma slice_of_appendEntriesArgs [Fintype ι] {n : Node ι σ ρ} {peer : ι} {args : AppendEntriesArgs ι}
    (h : n.appendEntriesArgs peer = some args) : Slice n.log args := by
  obtain ⟨-, -, -, -, hes, -, hprev⟩ := appendEntriesArgs_eq h
  refine ⟨?_, hes, hprev⟩
  rcases Nat.eq_zero_or_pos args.prevLogIndex with h0 | hpos
  · omega
  · obtain ⟨e, he, -⟩ := Option.map_eq_some_iff.mp (hprev.resolve_left hpos.ne')
    have := (List.getElem?_eq_some_iff.mp he).1
    omega

lemma Claims.settle {n m : Node ι σ ρ} {term index t : ℕ} (h : Claims n term index t)
    (hs : Settles n m) : Claims m term index t := by
  refine ⟨h.1.trans hs.term, fun hterm hc => ?_⟩
  rcases hs.role with hr | ⟨hcur, hr⟩
  · rw [hr] at hc
    cases hc
  · rw [hs.log]
    exact h.2 (hcur ▸ hterm) (hr ▸ hc)

namespace Cluster

/-- A voter backed the claim of a request with the log it had when it voted. -/
def Backed (a : State ι Entry) (src : ι) (args : RequestVoteArgs ι) : Prop :=
  ∃ v, a.ballot src args.term v ∧ ∀ l : List Entry, l.length = args.lastLogIndex →
    lastTerm Entry.term l = args.lastLogTerm → UpToDate Entry.term l v

/-- What the abstract state knows of a message in flight. -/
def Vouched (s : Cluster ι σ ρ) (a : State ι Entry) : Message ι → Prop
  | .requestVote _ _ args =>
    Claims (s.nodes args.candidateId) args.term args.lastLogIndex args.lastLogTerm
  | .requestVoteReply src boot args reply => .requestVote src boot args ∈ s.sent ∧
    (reply.voteGranted = true → a.leaderLog args.term ≠ [] ∨ Backed a src args)
  | .appendEntries _ _ args => ∃ view, view <+: a.leaderLog args.term ∧ Slice view args
  | .appendEntriesReply src boot args reply => .appendEntries src boot args ∈ s.sent ∧
    (reply.success = true →
      args.prevLogIndex + args.entries.length ≤ a.acked src args.term)

structure Refines (s : Cluster ι σ ρ) (a : State ι Entry) : Prop where
  cur : ∀ i, a.cur i = (s.nodes i).currentTerm
  log : ∀ i, a.log i = (s.nodes i).log
  elected : ∀ u, a.leaderLog u ≠ [] ↔ s.Elected u
  aligned : ∀ u, Aligned (a.leaderLog u)
  leader : ∀ i, (s.nodes i).state = .leader →
    a.leaderLog (s.nodes i).currentTerm = (s.nodes i).log ∧
      (s.nodes i).log.length ≤ a.acked i (s.nodes i).currentTerm
  candidate : ∀ i, (s.nodes i).state = .candidate →
    a.leaderLog (s.nodes i).currentTerm ≠ [] ∨
      a.ballot i (s.nodes i).currentTerm (s.nodes i).log
  election : ∀ i term el, (s.nodes i).elections term = some el →
    Claims (s.nodes i) term el.lastLogIndex el.lastLogTerm
  messages : ∀ m ∈ s.sent, Vouched s a m

variable {s t : Cluster ι σ ρ} {a b : State ι Entry}

lemma leaderLog_ne_nil {u : ℕ} (hg : Grows a b) (h : a.leaderLog u ≠ []) : b.leaderLog u ≠ [] :=
  fun hn => h (List.prefix_nil.mp (hn ▸ hg.leaderLog u))

lemma Backed.grow {src : ι} {args : RequestVoteArgs ι} (h : Backed a src args) (hg : Grows a b) :
    Backed b src args :=
  let ⟨v, hv, hup⟩ := h
  ⟨v, hg.ballot _ _ _ hv, hup⟩

lemma Vouched.grow {m : Message ι} (h : Vouched s a m) (hg : Grows a b)
    (hclaims : ∀ i u x y, Claims (s.nodes i) u x y → Claims (t.nodes i) u x y)
    (hsent : ∀ m, m ∈ s.sent → m ∈ t.sent) : Vouched t b m := by
  cases m with
  | requestVote dst boot args => exact hclaims _ _ _ _ h
  | requestVoteReply src boot args reply =>
    exact ⟨hsent _ h.1, fun hr => (h.2 hr).imp (leaderLog_ne_nil hg) fun hb => hb.grow hg⟩
  | appendEntries dst boot args =>
    obtain ⟨view, hv, hs⟩ := h
    exact ⟨view, hv.trans (hg.leaderLog _), hs⟩
  | appendEntriesReply src boot args reply =>
    exact ⟨hsent _ h.1, fun hr => (h.2 hr).trans (hg.acked _ _)⟩

lemma Refines.aligned_log [Fintype ι] (h : Refines s a) (hinv : Inv Entry.term a) (i : ι) :
    Aligned (s.nodes i).log := by
  rw [← h.log i]
  exact (h.aligned _).of_isPrefix (hinv.rooted_log i).whole

lemma init_refines (cfg : Config ι σ ρ) : Refines (init cfg) (State.init ι Entry) where
  cur _ := rfl
  log _ := rfl
  elected u := by simp [State.init, Elected, init]
  aligned _ p e h := by simp [State.init] at h
  leader _ h := by cases h
  candidate _ h := by cases h
  election _ _ _ h := by cases h
  messages _ h := by simp [init] at h

lemma Refines.history (h : Refines s a) (hg : Grows a b) (hcur : b.cur = a.cur)
    (hlog : b.log = a.log) (hlead : b.leaderLog = a.leaderLog) : Refines s b where
  cur i := by rw [hcur, h.cur i]
  log i := by rw [hlog, h.log i]
  elected u := by rw [hlead, h.elected u]
  aligned u := hlead ▸ h.aligned u
  leader i hi := ⟨hlead ▸ (h.leader i hi).1, (h.leader i hi).2.trans (hg.acked _ _)⟩
  candidate i hi := (h.candidate i hi).imp (leaderLog_ne_nil hg) (hg.ballot _ _ _)
  election := h.election
  messages m hm := (h.messages m hm).grow hg (fun _ _ _ _ hc => hc) fun _ hh => hh

lemma Refines.send (h : Refines s a) {m : Message ι} (hm : Vouched (s.send m) a m) :
    Refines (s.send m) a where
  cur := h.cur
  log := h.log
  elected := h.elected
  aligned := h.aligned
  leader := h.leader
  candidate := h.candidate
  election := h.election
  messages k hk := by
    rcases List.mem_append.mp hk with hk | hk
    · exact (h.messages k hk).grow (.refl a) (fun _ _ _ _ hc => hc)
        fun _ hh => List.mem_append_left _ hh
    · rw [List.mem_singleton.mp hk]
      exact hm

lemma Refines.observe (h : Refines s a) {obs : List (Observation ι ρ)}
    (hobs : ∀ j term, .elected j term ∉ obs) :
    Refines { s with trace := s.trace ++ obs } a where
  cur := h.cur
  log := h.log
  elected u := by
    rw [h.elected u]
    simp [Elected, hobs]
  aligned := h.aligned
  leader := h.leader
  candidate := h.candidate
  election := h.election
  messages m hm := (h.messages m hm).grow (.refl a) (fun _ _ _ _ hc => hc) fun _ hh => hh

lemma Refines.move (h : Refines s a) (hg : Grows a b) {i : ι} {n : Node ι σ ρ}
    (hnodes : t.nodes = Function.update s.nodes i n) (hsent : t.sent = s.sent)
    (hcur : b.cur = Function.update a.cur i n.currentTerm)
    (hlog : b.log = Function.update a.log i n.log)
    (helected : ∀ u, b.leaderLog u ≠ [] ↔ t.Elected u)
    (haligned : ∀ u, Aligned (b.leaderLog u))
    (hleader : n.state = .leader →
      b.leaderLog n.currentTerm = n.log ∧ n.log.length ≤ b.acked i n.currentTerm)
    (hothers : ∀ j, j ≠ i → (s.nodes j).state = .leader →
      b.leaderLog (s.nodes j).currentTerm = a.leaderLog (s.nodes j).currentTerm)
    (hcand : n.state = .candidate →
      b.leaderLog n.currentTerm ≠ [] ∨ b.ballot i n.currentTerm n.log)
    (helection : ∀ term el, n.elections term = some el →
      Claims n term el.lastLogIndex el.lastLogTerm)
    (hclaims : ∀ u x y, Claims (s.nodes i) u x y → Claims n u x y) : Refines t b := by
  have hself : t.nodes i = n := by rw [hnodes, Function.update_self]
  have hother : ∀ j, j ≠ i → t.nodes j = s.nodes j := fun j hj => by
    rw [hnodes, Function.update_of_ne hj]
  refine ⟨fun j => ?_, fun j => ?_, helected, haligned, fun j hj => ?_, fun j hj => ?_,
    fun j term el hel => ?_, fun m hm => ?_⟩
  · by_cases hji : j = i
    · subst hji
      rw [hcur, hself, Function.update_self]
    · rw [hcur, hother j hji, Function.update_of_ne hji, h.cur j]
  · by_cases hji : j = i
    · subst hji
      rw [hlog, hself, Function.update_self]
    · rw [hlog, hother j hji, Function.update_of_ne hji, h.log j]
  · by_cases hji : j = i
    · subst hji
      rw [hself] at hj ⊢
      exact hleader hj
    · rw [hother j hji] at hj ⊢
      obtain ⟨hl, ha⟩ := h.leader j hj
      exact ⟨(hothers j hji hj).trans hl, ha.trans (hg.acked _ _)⟩
  · by_cases hji : j = i
    · subst hji
      rw [hself] at hj ⊢
      exact hcand hj
    · rw [hother j hji] at hj ⊢
      exact (h.candidate j hj).imp (leaderLog_ne_nil hg) (hg.ballot _ _ _)
  · by_cases hji : j = i
    · subst hji
      rw [hself] at hel ⊢
      exact helection term el hel
    · rw [hother j hji] at hel ⊢
      exact h.election j term el hel
  · rw [hsent] at hm
    refine (h.messages m hm).grow hg (fun j u x y hc => ?_) fun _ hh => hsent ▸ hh
    by_cases hji : j = i
    · subst hji
      rw [hself]
      exact hclaims u x y hc
    · rw [hother j hji]
      exact hc

variable [Fintype ι]

/-- A node that settles raises its abstract term at most. -/
lemma Refines.settle (h : Refines s a) {i : ι} {n : Node ι σ ρ} (hs : Settles (s.nodes i) n) :
    Relation.ReflTransGen (Step Entry.term) a (a.raiseTo i n.currentTerm) ∧
      Refines (s.setNode i n) (a.raiseTo i n.currentTerm) := by
  have hle : a.cur i ≤ n.currentTerm := by
    rw [h.cur i]
    exact hs.term
  have hr : Relation.ReflTransGen (Step Entry.term) a (a.raiseTo i n.currentTerm) :=
    raiseTo_steps hle
  refine ⟨hr, h.move (run_grows hr) rfl rfl rfl ?_ h.elected h.aligned ?_ (fun _ _ _ => rfl) ?_ ?_ ?_⟩
  · rw [hs.log, ← h.log i, Function.update_eq_self]
    rfl
  · intro hl
    rcases hs.role with hrole | ⟨hterm, hrole⟩
    · rw [hrole] at hl
      cases hl
    · rw [hterm, hs.log]
      exact h.leader i (hrole ▸ hl)
  · intro hc
    rcases hs.role with hrole | ⟨hterm, hrole⟩
    · rw [hrole] at hc
      cases hc
    · rw [hterm, hs.log]
      exact h.candidate i (hrole ▸ hc)
  · intro term el hel
    obtain ⟨old, hold, hi, ht⟩ := hs.elections term el hel
    rw [hi, ht]
    exact (h.election i term old hold).settle hs
  · exact fun u x y hc => hc.settle hs

end Cluster

end DistributedStorage.Raft

import DistributedStorage.Raft.Conflicts
import DistributedStorage.Raft.LogMatching

/-! The rounds of replication between a leader and one follower: every rejection moves `next_index` down,
and the first success leaves the follower with the whole log of its leader. -/

set_option linter.unusedSectionVars false

namespace DistributedStorage.Raft

open Library.LeaderLogs Library.Runs

variable {ι σ ρ : Type} [DecidableEq ι]

/-- An entry of some term in `m` is found in every log that has an entry of that term at its place or
behind. -/
lemma rooted_below {a : State ι Entry} {l m : List Entry} (hl : Rooted Entry.term a l)
    (hm : Rooted Entry.term a m) {p q : ℕ} {x y : Entry} (hx : l[q]? = some x) (hy : m[p]? = some y)
    (ht : x.term = y.term) (hpq : p ≤ q) : l[p]? = some y := by
  have hlq := hl q x hx
  have hmp := hm p y hy
  rw [← ht] at hmp
  have hlen : (m.take (p + 1)).length ≤ (l.take (q + 1)).length := by
    have := (List.getElem?_eq_some_iff.mp hx).1
    simp only [List.length_take]
    omega
  have hpre : m.take (p + 1) <+: l :=
    (List.prefix_of_prefix_length_le hmp hlq hlen).trans (List.take_prefix _ _)
  apply getElem?_of_isPrefix hpre
  rw [List.getElem?_take_of_lt (Nat.lt_succ_self p), hy]

variable [Fintype ι]

lemma appendEntriesArgs_prev {n : Node ι σ ρ} {peer : ι} {args : AppendEntriesArgs ι}
    (h : n.appendEntriesArgs peer = some args) : args.prevLogIndex = n.nextIndex peer - 1 := by
  simp only [Node.appendEntriesArgs] at h
  split_ifs at h
  · cases h
    rfl
  · obtain ⟨e, -, rfl⟩ := Option.map_eq_some_iff.mp h
    rfl

/-- One round of `_send_append_entries_to` with no other event in between, and whether the follower
accepted. -/
def exchange (peer : ι) (x : Node ι σ ρ × Node ι σ ρ) : Option ((Node ι σ ρ × Node ι σ ρ) × Bool) :=
  (x.1.appendEntriesArgs peer).bind fun args =>
    let out := x.2.handleAppendEntries args
    out.2.map fun reply => ((x.1.handleAppendEntriesReply peer args reply, out.1), reply.success)

def RejectedRound (peer : ι) (x y : Node ι σ ρ × Node ι σ ρ) : Prop :=
  exchange peer x = some (y, false)

/-- At most `fuel` rounds, up to the first success. -/
def repair (peer : ι) : ℕ → Node ι σ ρ × Node ι σ ρ → Option (Node ι σ ρ × Node ι σ ρ)
  | 0, _ => none
  | fuel + 1, x =>
    match exchange peer x with
    | none => none
    | some (y, true) => some y
    | some (y, false) => repair peer fuel y

/-- `L` is the log of the leader `i` and `F` that of the follower, while rounds are rejected. -/
structure Probing (i peer : ι) (L F : List Entry) (x : Node ι σ ρ × Node ι σ ρ) : Prop where
  nodeId : x.1.nodeId = i
  leads : x.1.state = .leader
  connected : x.1.isolated = false
  leaderLog : x.1.log = L
  term : x.2.currentTerm ≤ x.1.currentTerm
  followerLog : x.2.log = F
  pos : 1 ≤ x.1.nextIndex peer
  le : x.1.nextIndex peer ≤ L.length + 1

section

variable {a : State ι Entry} {i peer : ι} {L F : List Entry} {x : Node ι σ ρ × Node ι σ ρ}

lemma Rejects.backtrack_lt {n m : Node ι σ ρ} {args : AppendEntriesArgs ι} {reply : AppendEntriesReply}
    (hr : Rejects m args reply) (hle : m.currentTerm ≤ args.term) (hn : Rooted Entry.term a n.log)
    (hm : Rooted Entry.term a m.log) (hprev : args.prevLogIndex = 0 ∨
      (n.log[args.prevLogIndex - 1]?.map Entry.term) = some args.prevLogTerm) :
    n.backtrack reply.conflictIndex reply.conflictTerm ≤ args.prevLogIndex := by
  cases hr with
  | stale hlt => omega
  | missing hterm hmiss =>
    simp only [Node.backtrack, lt_irrefl, if_false]
    omega
  | conflict e hterm hpos he hne =>
    have hfirst := firstIndexOfTerm_le m.log e.term args.prevLogIndex
    simp only [Node.backtrack]
    split_ifs with hct hfound
    · -- an entry of the conflicting term at the probed index or behind puts `e` there
      obtain ⟨hfpos, hflen, hf⟩ :=
        (lastIndexOfTerm_cases n.log e.term n.log.length).resolve_left hfound
      by_contra hlt
      obtain ⟨y, hy, hyt⟩ := Option.map_eq_some_iff.mp hf
      have hsame := rooted_below hn hm hy he hyt (by omega)
      have hprev := hprev.resolve_left hpos.ne'
      rw [hsame] at hprev
      exact hne (Option.some.inj hprev)
    · exact hfirst
    · omega

lemma Probing.exchange (h : Probing i peer L F x) (hne : peer ≠ i) (hL : Rooted Entry.term a L)
    (hF : Rooted Entry.term a F) (hal : Aligned F) :
    ∃ y success, Raft.exchange peer x = some (y, success) ∧
      (success = false → Probing i peer L F y ∧ y.1.nextIndex peer < x.1.nextIndex peer) ∧
      (success = true → y.1.log = L ∧ L <+: y.2.log) := by
  classical
  obtain ⟨args, hargs⟩ := Option.isSome_iff_exists.mp
    (appendEntriesArgs_isSome h.leads h.connected (h.nodeId ▸ hne) (h.leaderLog ▸ h.le))
  obtain ⟨-, -, hat, -, -, -, hprev⟩ := appendEntriesArgs_eq hargs
  have hidx := appendEntriesArgs_prev hargs
  have hsl := slice_of_appendEntriesArgs hargs
  have hpos := h.pos
  have hmt : x.2.currentTerm ≤ args.term := hat ▸ h.term
  obtain ⟨reply, hreply⟩ := handleAppendEntries_answers (h.followerLog ▸ hal) args
  refine ⟨(x.1.handleAppendEntriesReply peer args reply, (x.2.handleAppendEntries args).1),
    reply.success, by simp [Raft.exchange, hargs, hreply], fun hfail => ?_, fun hok => ?_⟩
  · have hrej := handleAppendEntries_rejects hreply hfail
    have hlost : ∀ r ∈ (x.2.handleAppendEntries args).2, r.success = false := fun r hr => by
      rwa [← Option.some.inj (hreply.symm.trans hr)]
    have hlow := (backtrack_bounds x.1 hrej.hint_le.2).1
    have hhigh := hrej.backtrack_lt hmt (h.leaderLog ▸ hL) (h.followerLog ▸ hF) hprev
    have hval : (x.1.setNextIndex peer (x.1.backtrack reply.conflictIndex reply.conflictTerm)).nextIndex
        peer = x.1.backtrack reply.conflictIndex reply.conflictTerm := Function.update_self ..
    rw [handleAppendEntriesReply_rejected h.leads ((hrej.term hmt).trans hat).le hfail]
    refine ⟨⟨h.nodeId, h.leads, h.connected, h.leaderLog, ?_, ?_, ?_, ?_⟩, ?_⟩
    · exact ((handleAppendEntries_term hmt).trans hat).le
    · exact (handleAppendEntries_failure hlost).trans h.followerLog
    · dsimp only
      omega
    · have hle := h.le
      dsimp only
      omega
    · dsimp only
      omega
  · obtain ⟨-, hmatch, hlog⟩ := handleAppendEntries_success hreply hok
    have hm : Matching x.2.log x.1.log :=
      rooted_matching (h.followerLog ▸ hF) (h.leaderLog ▸ hL)
    refine ⟨(handleAppendEntriesReply_settles peer args reply).log.trans h.leaderLog, ?_⟩
    dsimp only
    rw [hlog, hsl.inserts hm hmatch, ← h.leaderLog]
    exact prefix_accepted _ _

lemma Probing.rounds (h : Probing i peer L F x) (hne : peer ≠ i) (hL : Rooted Entry.term a L)
    (hF : Rooted Entry.term a F) (hal : Aligned F) {y : Node ι σ ρ × Node ι σ ρ}
    (hr : Relation.ReflTransGen (RejectedRound peer) x y) : Probing i peer L F y := by
  induction hr with
  | refl => exact h
  | tail _ hround ih =>
    obtain ⟨z, success, hz, hrejected, -⟩ := ih.exchange hne hL hF hal
    rw [RejectedRound, hz] at hround
    cases hround
    exact (hrejected rfl).1

/-- The fuel bounds `next_index`, which every rejected round lowers. -/
lemma Probing.repairs (h : Probing i peer L F x) (hne : peer ≠ i) (hL : Rooted Entry.term a L)
    (hF : Rooted Entry.term a F) (hal : Aligned F) {fuel : ℕ} (hfuel : x.1.nextIndex peer ≤ fuel) :
    ∃ y, repair peer fuel x = some y ∧ y.1.log = L ∧ L <+: y.2.log := by
  induction fuel generalizing x with
  | zero =>
    have hpos := h.pos
    omega
  | succ fuel ih =>
    obtain ⟨y, success, hy, hrejected, hdone⟩ := h.exchange hne hL hF hal
    cases success with
    | true => exact ⟨y, by simp [repair, hy], hdone rfl⟩
    | false =>
      obtain ⟨hprobe, hlt⟩ := hrejected rfl
      obtain ⟨z, hz, hlog⟩ := ih hprobe (by omega)
      exact ⟨z, by simpa [repair, hy] using hz, hlog⟩

end

namespace Cluster

/-- A leader of a reachable state and a node not ahead of it, from any place of the leader's log on:
every rejected round lowers `next_index` and keeps it positive, and at most as many rounds as the first
`next_index` says end in a success, with the leader's log at the start of the follower's. -/
theorem backtracking_repairs {cfg : Config ι σ ρ} {s : Cluster ι σ ρ} (h : Reachable cfg Free s)
    {i j : ι} (hl : (s.nodes i).state = .leader) (hj : j ≠ i)
    (hterm : (s.nodes j).currentTerm ≤ (s.nodes i).currentTerm) {k : ℕ} (hpos : 1 ≤ k)
    (hle : k ≤ (s.nodes i).lastLogIndex + 1) :
    let start := (((s.nodes i).setNextIndex j k).setIsolated false, s.nodes j)
    (∀ x, Relation.ReflTransGen (RejectedRound j) start x → ∃ y success,
      exchange j x = some (y, success) ∧
      (success = false → 1 ≤ y.1.nextIndex j ∧ y.1.nextIndex j < x.1.nextIndex j) ∧
      (success = true → y.1.log = (s.nodes i).log ∧ (s.nodes i).log <+: y.2.log)) ∧
    ∃ y, repair j k start = some y ∧ y.1.log = (s.nodes i).log ∧ (s.nodes i).log <+: y.2.log := by
  intro start
  obtain ⟨a, -, ha⟩ := refinement h
  have hnext : start.1.nextIndex j = k := Function.update_self ..
  rw [(ha.aligned i).lastLogIndex] at hle
  have hstart : Probing i j (s.nodes i).log (s.nodes j).log start :=
    ⟨ha.election.nodeId i, hl, rfl, rfl, hterm, rfl, by rwa [hnext], by rwa [hnext]⟩
  refine ⟨fun x hx => ?_, ?_⟩
  · have hprobe := hstart.rounds hj (ha.rooted i) (ha.rooted j) (ha.aligned j) hx
    obtain ⟨y, success, hy, hrejected, hdone⟩ :=
      hprobe.exchange hj (ha.rooted i) (ha.rooted j) (ha.aligned j)
    exact ⟨y, success, hy, fun hfail => ⟨(hrejected hfail).1.pos, (hrejected hfail).2⟩, hdone⟩
  · exact hstart.repairs hj (ha.rooted i) (ha.rooted j) (ha.aligned j) hnext.le

/-- Node 0 kept the entries of its term 1 to itself; node 1 leads term 2. -/
def diverged : List (Event (Fin 3)) :=
  campaign 0 1 0 [1] ++ [.appendEntry 0 someCommand] ++ campaign 1 2 2 [2]

theorem backtracking_repairs_diverged : ∃ s, Reachable (stateless 3) Free s ∧
    (s.nodes 0).log[1]? = some (someCommand.entry 1 2) ∧ (s.nodes 1).log.length = 1 ∧
    ∃ y, repair 0 2 (((s.nodes 1).setNextIndex 0 2).setIsolated false, s.nodes 0) = some y ∧
      (s.nodes 1).log <+: y.2.log := by
  obtain ⟨s, hs, hlog, hlen, hl, hlast, h₀, h₁⟩ := Run.exists_of_execute (step (stateless 3))
    (init (stateless 3)) diverged (fun s => (s.nodes 0).log[1]? = some (someCommand.entry 1 2) ∧
      (s.nodes 1).log.length = 1 ∧ (s.nodes 1).state = .leader ∧ (s.nodes 1).lastLogIndex = 1 ∧
      (s.nodes 0).currentTerm = 1 ∧ (s.nodes 1).currentTerm = 2) (by decide +kernel)
  obtain ⟨-, y, hy, -, hpre⟩ := backtracking_repairs hs hl (j := 0) (by decide) (by omega)
    (k := 2) (by omega) (by omega)
  exact ⟨s, hs, hlog, hlen, y, hy, hpre⟩

end Cluster

end DistributedStorage.Raft

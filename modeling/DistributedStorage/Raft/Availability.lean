import DistributedStorage.Raft.Campaigns
import DistributedStorage.Raft.CommitProgress

/-! A connected majority is never stuck: whatever happened before, it can elect a leader, and the leader can
commit, apply and answer a new command, without the other nodes. -/

set_option linter.unusedSectionVars false

namespace DistributedStorage.Raft

open Library.LeaderLogs Library.Runs

variable {ι σ ρ : Type} [DecidableEq ι]

lemma checkPrevious_term {n : Node ι σ ρ} {p t : ℕ} {reply : AppendEntriesReply}
    (h : n.checkPrevious p t = some (some reply)) : reply.term = n.currentTerm := by
  simp only [Node.checkPrevious] at h
  split_ifs at h
  · cases h
  · cases h
    rfl
  · split at h
    · cases h
    · split_ifs at h <;> cases h
      rfl

/-- A reply carries the term its sender has come to. -/
lemma handleAppendEntries_replyTerm {n : Node ι σ ρ} {args : AppendEntriesArgs ι}
    {reply : AppendEntriesReply} (h : (n.handleAppendEntries args).2 = some reply) :
    reply.term = (n.handleAppendEntries args).1.currentTerm := by
  simp only [Node.handleAppendEntries] at h ⊢
  split_ifs at h ⊢
  · cases h
    rfl
  · split at h
    · cases h
    · rename_i answer hcheck
      cases h
      exact checkPrevious_term hcheck
    · cases h
      rfl

/-- Call `w` waits for an entry that is committed and that the applier has yet to hand over. -/
structure Awaiting (n : Node ι σ ρ) (w : ℕ) (c : Call ι ρ) : Prop where
  call : n.calls w = some c
  waiter : n.commitWaiters c.index = some w
  ahead : n.lastApplied < c.index ∨ (c.index, c.entry) ∈ n.toApply
  held : n.log[c.index - 1]? = some c.entry
  committed : c.index ≤ n.commitIndex

lemma appendEntry_own {cfg : Config ι σ ρ} {n m : Node ι σ ρ} {cmd : Command} {w : ℕ}
    (h : n.appendEntry cfg cmd = .ok (m, w)) : m.matchIndex n.nodeId = n.lastLogIndex + 1 := by
  simp only [Node.appendEntry] at h
  split_ifs at h
  cases h
  exact Function.update_self ..

section Serving

variable {cfg : Config ι σ ρ} {n m : Node ι σ ρ} {w : ℕ} {c : Call ι ρ} {recs : List (Applied ι ρ)}
  {logs : ℕ → List Entry}

/-- How far the applier is from the entry `c` waits for. -/
def Node.backlog (n : Node ι σ ρ) (c : Call ι ρ) : ℕ :=
  n.toApply.length + if n.lastApplied < c.index then n.commitIndex + 1 else 0

lemma Awaiting.takes (h : Awaiting n w c) (hn : n.applierTakes = some m) :
    Awaiting m w c ∧ m.log = n.log ∧ m.backlog c < n.backlog c := by
  obtain ⟨hnil, hlt, rfl⟩ := applierTakes_eq hn
  have hbehind : n.lastApplied < c.index := by
    refine h.ahead.resolve_right fun hm => ?_
    rw [hnil] at hm
    exact List.not_mem_nil hm
  have hcommitted := h.committed
  refine ⟨⟨h.call, h.waiter, Or.inr ?_, h.held, h.committed⟩, rfl, ?_⟩
  · refine List.mem_filterMap.mpr ⟨c.index, List.mem_range'_1.mpr ⟨by omega, by omega⟩, ?_⟩
    rw [h.held]
    rfl
  · have hlen := List.length_filterMap_le (fun idx => (n.log[idx - 1]?).map fun e => (idx, e))
      (List.range' (n.lastApplied + 1) (n.commitIndex - n.lastApplied))
    rw [List.length_range'] at hlen
    simp only [Node.backlog, hnil, List.length_nil, hbehind, if_true, h.committed.not_gt, if_false]
    omega

/-- The applier hands over its head: the entry of `c`, or one before it. -/
lemma Awaiting.resolves (h : Awaiting n w c) (hw : Waits logs n recs) (ha : Applies cfg n recs)
    (hn : n.applierResolves cfg = some m) : m.log = n.log ∧
      ((Awaiting m w c ∧ m.backlog c < n.backlog c) ∨
        ∃ r, m.calls w = some { c with result := r, event := true } ∧ (c.index, c.entry, r) ∈ recs) := by
  obtain ⟨idx, e, rest, r, calls, waiters, hta, hres, hm⟩ := applierResolves_eq hn
  obtain ⟨idx', e', rest', hta', hrec⟩ := ha.current r hres
  rw [hta] at hta'
  cases hta'
  refine ⟨by rw [hm], ?_⟩
  have hun : n.unapplied = rest := by simp [Node.unapplied, hres, hta]
  have horder := ha.order
  rw [hun] at horder
  have hin : idx ∈ recs.map Prod.fst := List.mem_map_of_mem (f := Prod.fst) hrec
  by_cases hidx : idx = c.index
  · -- the head is the entry of `c`: whatever is behind it has a higher index
    have hhead : e = c.entry := by
      rcases h.ahead with hlt | hmem
      · have hle := ha.bound idx (List.mem_append_left _ hin)
        omega
      · rw [hta] at hmem
        rcases List.mem_cons.mp hmem with heq | hrest
        · exact (Prod.mk.inj heq).2.symm
        · have hlt := (List.pairwise_append.mp horder).2.2 idx hin c.index
            (List.mem_map_of_mem (f := Prod.fst) hrest)
          omega
    subst hidx hhead
    refine Or.inr ⟨r, ?_, hrec⟩
    simp only [Node.applierResolves, hta, hres, h.waiter] at hn
    cases hn
    dsimp only
    rw [Function.update_self, h.call, Option.map_some, if_pos (hw.call w c h.call).2.1]
  · refine Or.inl ⟨⟨?_, ?_, ?_, ?_, ?_⟩, ?_⟩
    · simp only [Node.applierResolves, hta, hres] at hn
      split at hn
      · cases hn
        exact h.call
      · rename_i v hv
        cases hn
        have hne : w ≠ v := by
          rintro rfl
          obtain ⟨-, d, hd, hdi, -⟩ := hw.waiting idx w hv
          rw [h.call] at hd
          cases hd
          exact hidx hdi.symm
        dsimp only
        rw [Function.update_of_ne hne]
        exact h.call
    · simp only [Node.applierResolves, hta, hres] at hn
      split at hn
      · cases hn
        exact h.waiter
      · cases hn
        dsimp only
        rw [Function.update_of_ne (Ne.symm hidx)]
        exact h.waiter
    · rw [hm]
      refine h.ahead.imp_right fun hmem => ?_
      rw [hta] at hmem
      refine (List.mem_cons.mp hmem).resolve_left fun heq => ?_
      exact hidx (Prod.mk.inj heq).1.symm
    · rw [hm]
      exact h.held
    · rw [hm]
      exact h.committed
    · rw [hm]
      simp only [Node.backlog, hta, List.length_cons]
      omega

end Serving

variable [Fintype ι]

/-- What a round of replication with a member that is not ahead leaves of the leader. -/
structure Replicated (peer : ι) (x y : Node ι σ ρ × Node ι σ ρ) : Prop where
  leader : ∃ next matched commit,
    y.1 = { x.1 with nextIndex := next, matchIndex := matched, commitIndex := commit }
  matched : ∀ j, x.1.matchIndex j ≤ y.1.matchIndex j
  term : y.2.currentTerm = x.1.currentTerm

lemma exchange_replicated {peer : ι} {x y : Node ι σ ρ × Node ι σ ρ} {success : Bool}
    (hterm : x.2.currentTerm ≤ x.1.currentTerm) (h : exchange peer x = some (y, success)) :
    Replicated peer x y ∧ (success = true → x.1.log.length ≤ y.1.matchIndex peer) := by
  obtain ⟨args, hargs, hout⟩ := Option.bind_eq_some_iff.mp h
  obtain ⟨reply, hreply, hy⟩ := Option.map_eq_some_iff.mp hout
  cases hy
  obtain ⟨hl, -, hat, -⟩ := appendEntriesArgs_eq hargs
  have hstored : (x.2.handleAppendEntries args).1.currentTerm = x.1.currentTerm :=
    (handleAppendEntries_term (hat ▸ hterm)).trans hat
  have hnews : ¬ x.1.currentTerm < reply.term := by
    rw [handleAppendEntries_replyTerm hreply, hstored]
    exact lt_irrefl _
  obtain ⟨-, -, hraise⟩ := raiseMatch_fields (n := x.1) peer (args.prevLogIndex + args.entries.length)
  refine ⟨⟨?_, fun j => ?_, hstored⟩, fun hok => ?_⟩
  · rcases handleAppendEntriesReply_cases (n := x.1) peer args reply with ⟨hlt, -⟩ | hsame
    · exact absurd hlt hnews
    · exact hsame
  · simp only [Node.handleAppendEntriesReply, if_neg hnews, hl, ne_eq, not_true_eq_false, if_false]
    split_ifs
    · exact hraise j
    · exact le_rfl
  · have hlen := (slice_of_appendEntriesArgs hargs).length_eq
    simp only [Node.handleAppendEntriesReply, if_neg hnews, hl, ne_eq, not_true_eq_false, if_false, hok,
      if_true]
    simp only [Node.advanceCommitIndex, Node.raiseMatch]
    split_ifs with hlt
    · change x.1.log.length ≤ Function.update x.1.matchIndex peer _ peer
      rw [Function.update_self]
      exact hlen.ge
    · change x.1.log.length ≤ x.1.matchIndex peer
      omega

namespace Cluster

/-- The head of `Q` waits, in call `w`, for the last entry of its log. -/
structure Replicating (Q : Finset ι) (i : ι) (L : List Entry) (w : ℕ) (c : Call ι ρ)
    (s : Cluster ι σ ρ) : Prop where
  heads : Heads Q i s
  log : (s.nodes i).log = L
  call : (s.nodes i).calls w = some c
  waiter : (s.nodes i).commitWaiters c.index = some w
  unapplied : (s.nodes i).lastApplied < L.length
  own : L.length ≤ (s.nodes i).matchIndex i
  last : (L[L.length - 1]?.map Entry.term) = some (s.nodes i).currentTerm

variable {cfg : Config ι σ ρ} {Q : Finset ι} {s t : Cluster ι σ ρ} {i j : ι} {L : List Entry} {w : ℕ}
  {c : Call ι ρ}

lemma Replicating.round (h : Replicating Q i L w c s) (hc : Connected cfg Q s) (hi : i ∈ Q) (hj : j ∈ Q)
    (hne : j ≠ i) :
    ∃ t, Run (step cfg) (Inside Q) s t ∧ Replicating Q i L w c t ∧
      (∀ k, (s.nodes i).matchIndex k ≤ (t.nodes i).matchIndex k) ∧
      (L.length ≤ (t.nodes i).matchIndex j ∨ (t.nodes i).nextIndex j < (s.nodes i).nextIndex j) := by
  obtain ⟨a, -, ha⟩ := refinement hc.reachable
  obtain ⟨hpos, hle⟩ := hc.bounded.next i h.heads.leads j
  have hprobe : Probing i j (s.nodes i).log (s.nodes j).log (s.nodes i, s.nodes j) :=
    ⟨hc.election.nodeId i, h.heads.leads, hc.flags i hi, rfl, h.heads.ahead j hj, rfl, hpos, hle⟩
  obtain ⟨y, success, hy, hrejected, -⟩ :=
    hprobe.exchange hne (ha.rooted i) (ha.rooted j) (ha.aligned j)
  obtain ⟨⟨⟨next, matched, commit, hlead⟩, hmatch, hterm⟩, hok⟩ :=
    exchange_replicated (h.heads.ahead j hj) hy
  obtain ⟨t, hrun, -, hnodes⟩ := exchange_run cfg hc.election hi hj hne (hc.flags j hj) hy
  have hself : t.nodes i = y.1 := by rw [hnodes, Function.update_self]
  have hpeer : t.nodes j = y.2 := by rw [hnodes, Function.update_of_ne hne, Function.update_self]
  have hsame : (t.nodes i).currentTerm = (s.nodes i).currentTerm := by rw [hself, hlead]
  refine ⟨t, hrun, ⟨⟨?_, fun k hk => ?_⟩, ?_, ?_, ?_, ?_, ?_, hsame ▸ h.last⟩, fun k => ?_, ?_⟩
  · rw [hself, hlead]
    exact h.heads.leads
  · rw [hsame]
    by_cases hki : k = i
    · rw [hki, hsame]
    by_cases hkj : k = j
    · rw [hkj, hpeer, hterm]
    · rw [hnodes, Function.update_of_ne hki, Function.update_of_ne hkj]
      exact h.heads.ahead k hk
  · rw [hself, hlead]
    exact h.log
  · rw [hself, hlead]
    exact h.call
  · rw [hself, hlead]
    exact h.waiter
  · rw [hself, hlead]
    exact h.unapplied
  · rw [hself]
    exact h.own.trans (hmatch i)
  · rw [hself]
    exact hmatch k
  · rw [hself]
    cases success with
    | true =>
      left
      rw [← h.log]
      exact hok rfl
    | false => exact Or.inr (hrejected rfl).2

/-- The rounds with one member come to a success. -/
lemma Replicating.reaches (h : Replicating Q i L w c s) (hc : Connected cfg Q s) (hi : i ∈ Q) (hj : j ∈ Q) :
    CanReach (step cfg) (Inside Q) (fun t => (Connected cfg Q t ∧ Replicating Q i L w c t) ∧
      L.length ≤ (t.nodes i).matchIndex j ∧
      ∀ k, L.length ≤ (s.nodes i).matchIndex k → L.length ≤ (t.nodes i).matchIndex k) s := by
  by_cases hne : j = i
  · subst hne
    exact .now ⟨⟨hc, h⟩, h.own, fun _ hk => hk⟩
  refine CanReach.ranked (I := fun t => (Connected cfg Q t ∧ Replicating Q i L w c t) ∧
    ∀ k, L.length ≤ (s.nodes i).matchIndex k → L.length ≤ (t.nodes i).matchIndex k)
    (fun t => (t.nodes i).nextIndex j) (fun u hu => ?_) ⟨⟨hc, h⟩, fun _ hk => hk⟩
  obtain ⟨⟨hcu, hru⟩, hkeep⟩ := hu
  obtain ⟨v, hrun, hrv, hmatch, hdone⟩ := hru.round hcu hi hj hne
  have hcv := hcu.run hrun
  refine ⟨v, hrun, ?_⟩
  rcases hdone with hdone | hlt
  · exact Or.inl ⟨⟨hcv, hrv⟩, hdone, fun k hk => (hkeep k hk).trans (hmatch k)⟩
  · exact Or.inr ⟨⟨⟨hcv, hrv⟩, fun k hk => (hkeep k hk).trans (hmatch k)⟩, hlt⟩

/-- The entry gets to every member, and is committed. -/
lemma Replicating.commits (h : Replicating Q i L w c s) (hn : 2 ≤ Fintype.card ι) (hc : Connected cfg Q s)
    (hi : i ∈ Q) (hmaj : Majority Q) :
    CanReach (step cfg) (Inside Q) (fun t => Connected cfg Q t ∧ Replicating Q i L w c t ∧
      L.length ≤ (t.nodes i).commitIndex) s := by
  have hall : CanReach (step cfg) (Inside Q) (fun t => (Connected cfg Q t ∧ Replicating Q i L w c t) ∧
      ∀ j ∈ Q, L.length ≤ (t.nodes i).matchIndex j) s :=
    CanReach.each Q (fun j hj u hu => hu.2.reaches hu.1 hi hj) ⟨hc, h⟩
  refine hall.mono fun t ht => ?_
  obtain ⟨⟨hct, hrt⟩, hmatch⟩ := ht
  refine ⟨hct, hrt, ?_⟩
  obtain ⟨a, ha⟩ := safe hct.timely
  refine (no_committable_left hn hct.timely hrt.heads.leads).1 _ ?_ ?_ ?_
  · rw [(ha.serving.tracks.aligned i).lastLogIndex, hrt.log]
  · rw [hrt.log]
    exact hrt.last
  · refine hmaj.trans (Finset.card_le_card fun j hj => ?_)
    exact Finset.mem_filter.mpr ⟨Finset.mem_univ j, hmatch j hj⟩

/-- The applier of `i` takes what is committed, or applies and hands over its head. -/
lemma Connected.serves (hc : Connected cfg Q s) (hi : i ∈ Q) (h : Awaiting (s.nodes i) w c) :
    ∃ t, Run (step cfg) (Inside Q) s t ∧ (t.nodes i).log = (s.nodes i).log ∧
      ((Awaiting (t.nodes i) w c ∧ (t.nodes i).backlog c < (s.nodes i).backlog c) ∨
        ∃ r, (t.nodes i).calls w = some { c with result := r, event := true } ∧
          (c.index, c.entry, r) ∈ records t.trace i (t.nodes i).boot) := by
  have hself {u : Cluster ι σ ρ} {n : Node ι σ ρ} : (u.setNode i n).nodes i = n := by
    rw [setNode_nodes, Function.update_self]
  by_cases hnil : (s.nodes i).toApply = []
  · have hlt : (s.nodes i).lastApplied < (s.nodes i).commitIndex := by
      refine (h.ahead.resolve_right fun hm => ?_).trans_le h.committed
      rw [hnil] at hm
      exact List.not_mem_nil hm
    obtain ⟨n, hn⟩ : ∃ n, (s.nodes i).applierTakes = some n := ⟨_, if_pos ⟨hnil, hlt⟩⟩
    obtain ⟨hawait, hlog, hless⟩ := h.takes hn
    refine ⟨s.setNode i n, Run.single (e := .applierTakes i) ⟨hi, trivial⟩ (by simp [step, hn]), ?_⟩
    rw [hself]
    exact ⟨hlog, Or.inl ⟨hawait, hless⟩⟩
  -- the head is applied, now or before
  have happlied : ∃ u, Run (step cfg) (Inside Q) s u ∧ (u.nodes i).log = (s.nodes i).log ∧
      Awaiting (u.nodes i) w c ∧ (u.nodes i).backlog c = (s.nodes i).backlog c ∧
      (u.nodes i).toApply ≠ [] ∧ ∃ r, (u.nodes i).applyResult = some r := by
    by_cases hres : ∃ r, (s.nodes i).applyResult = some r
    · exact ⟨s, Run.refl, rfl, h, rfl, hnil, hres⟩
    · have hnone : (s.nodes i).applyResult = none :=
        Option.eq_none_iff_forall_ne_some.mpr fun r hr => hres ⟨r, hr⟩
      obtain ⟨⟨idx, e⟩, rest, hta⟩ := List.exists_cons_of_ne_nil hnil
      obtain ⟨out, hout⟩ : ∃ out, (s.nodes i).applierApplies cfg = some out := by
        simp only [Node.applierApplies, hta, hnone]
        split_ifs
        · exact ⟨_, rfl⟩
        · exact ⟨_, rfl⟩
      obtain ⟨n, k, x, r⟩ := out
      obtain ⟨rest', -, -, -, hn⟩ := applierApplies_eq hout
      refine ⟨(s.setNode i n).observe (.applied i (s.nodes i).boot k x r),
        Run.single (e := .applierApplies i) ⟨hi, trivial⟩ (by simp [step, hout]), ?_⟩
      rw [observe_nodes, hself, hn]
      exact ⟨rfl, ⟨h.call, h.waiter, h.ahead, h.held, h.committed⟩, rfl, hnil, r, rfl⟩
  obtain ⟨u, hrun, hlog, hawait, hsame, hne, r, hres⟩ := happlied
  have hcu := hc.run hrun
  obtain ⟨a, ha⟩ := safe hcu.timely
  obtain ⟨⟨idx, e⟩, rest, hta⟩ := List.exists_cons_of_ne_nil hne
  obtain ⟨n, hn⟩ : ∃ n, (u.nodes i).applierResolves cfg = some n := by
    simp only [Node.applierResolves, hta, hres]
    split
    · exact ⟨_, rfl⟩
    · exact ⟨_, rfl⟩
  obtain ⟨hkeep, hcases⟩ :=
    hawait.resolves (ha.serving.waiters.waits i) (ha.serving.applier.applies i) hn
  have hboot : n.boot = (u.nodes i).boot := by
    obtain ⟨_, _, _, _, _, _, -, -, rfl⟩ := applierResolves_eq hn
    rfl
  refine ⟨u.setNode i n, hrun.trans (Run.single (e := .applierResolves i) ⟨hi, trivial⟩
    (by simp [step, hn])), ?_⟩
  rw [hself, hboot, ← hsame, setNode_trace]
  exact ⟨hkeep.trans hlog, hcases⟩

/-- The applier comes to the entry that call `w` waits for. -/
lemma Connected.answers (hc : Connected cfg Q s) (hi : i ∈ Q) (h : Awaiting (s.nodes i) w c) :
    CanReach (step cfg) (Inside Q) (fun t => Connected cfg Q t ∧ (t.nodes i).log = (s.nodes i).log ∧
      ∃ r, (t.nodes i).calls w = some { c with result := r, event := true } ∧
        (c.index, c.entry, r) ∈ records t.trace i (t.nodes i).boot) s := by
  refine CanReach.ranked (I := fun t => Connected cfg Q t ∧ (t.nodes i).log = (s.nodes i).log ∧
    Awaiting (t.nodes i) w c) (fun t => (t.nodes i).backlog c) (fun u hu => ?_) ⟨hc, rfl, h⟩
  obtain ⟨hcu, hlog, hawait⟩ := hu
  obtain ⟨v, hrun, hkeep, hdone | hdone⟩ := hcu.serves hi hawait
  · exact ⟨v, hrun, Or.inr ⟨⟨hcu.run hrun, hkeep.trans hlog, hdone.1⟩, hdone.2⟩⟩
  · exact ⟨v, hrun, Or.inl ⟨hcu.run hrun, hkeep.trans hlog, hdone⟩⟩

/-- What the caller of `w` observes once its result is `r`. -/
def answer (i : ι) (boot w : ℕ) (c : Call ι ρ) : Option (Except (Error ι) ρ) → Observation ι ρ
  | none => .returned i boot w c none
  | some (.ok r) => .returned i boot w c (some r)
  | some (.error e) => .raised i boot w c e

/-- The same, of what `append_entry` ends with. -/
def ending (i : ι) (boot w : ℕ) (c : Call ι ρ) : Except (Error ι) (Option ρ) → Observation ι ρ
  | .ok value => .returned i boot w c value
  | .error exc => .raised i boot w c exc

/-- The caller whose event is set wakes up with its result. -/
lemma returns_answer (cfg : Config ι σ ρ) {r : Option (Except (Error ι) ρ)} (hi : i ∈ Q)
    (hc : (s.nodes i).calls w = some { c with result := r, event := true }) :
    ∃ t, Run (step cfg) (Inside Q) s t ∧ (t.nodes i).log = (s.nodes i).log ∧ t.trace = s.trace ++
      [answer i (s.nodes i).boot w { c with result := r, event := true } r] := by
  have hrun {out : Node ι σ ρ × Call ι ρ × Except (Error ι) (Option ρ)}
      (hout : (s.nodes i).callReturns w = some out) : ∃ t, Run (step cfg) (Inside Q) s t ∧
        (t.nodes i).log = out.1.log ∧
        t.trace = s.trace ++ [ending i (s.nodes i).boot w out.2.1 out.2.2] := by
    refine ⟨_, Run.single (e := .callReturns i w) ⟨hi, trivial⟩
      (Option.map_eq_some_iff.mpr ⟨out, hout, rfl⟩), ?_, rfl⟩
    rw [observe_nodes, setNode_nodes, Function.update_self]
  cases r with
  | none => exact hrun (by simp only [Node.callReturns, hc, if_true]; rfl)
  | some result =>
    cases result with
    | ok value => exact hrun (by simp only [Node.callReturns, hc, if_true]; rfl)
    | error exc => exact hrun (by simp only [Node.callReturns, hc, if_true]; rfl)

/-- What was applied at a place had the effect it has after the log before that place. -/
lemma Safe.effect {a : State ι Entry} (h : Safe cfg s a) {boot k : ℕ} {e : Entry}
    {r : Option (Except (Error ι) ρ)} (hm : (k, e, r) ∈ records s.trace i boot) :
    r = (cfg.applyEntry (cfg.replay ((s.nodes i).log.take (k - 1))) e).2 := by
  obtain ⟨p, hkept, hp⟩ := h.prefixes.past i boot
  have hpre := (h.serving.tracks.committed hkept).1
  obtain ⟨pre, post, hsplit⟩ := List.append_of_mem hm
  have hentries : entries (records s.trace i boot) = p := by rw [entries_eq, hp, numbered_snd]
  have hlen : pre.length + 1 = k := by
    have hat : (applications (records s.trace i boot))[pre.length]? = some (k, e) := by
      rw [hsplit, applications]
      simp
    rw [hp, numbered, List.getElem?_map, List.getElem?_zipIdx] at hat
    obtain ⟨x, hx, hxk⟩ := Option.map_eq_some_iff.mp hat
    obtain ⟨y, -, rfl⟩ := Option.map_eq_some_iff.mp hx
    have hfst := congrArg Prod.fst hxk
    dsimp only [Prod.swap] at hfst
    omega
  have hbefore : entries pre = (s.nodes i).log.take (k - 1) := by
    have htake : entries pre = p.take pre.length := by
      rw [← hentries, hsplit]
      simp [entries]
    have hle : pre.length ≤ p.length := by
      rw [← hentries, hsplit]
      simp [entries]
    rw [htake, ← take_eq_of_isPrefix hpre hle, ← hlen, Nat.add_sub_cancel]
  rw [← hbefore]
  exact h.serving.applier.replayed i boot pre (k, e, r) post hsplit

/-- The head of a group appends a command. -/
lemma Heads.appends (h : Heads Q i s) (hc : Connected cfg Q s) (hi : i ∈ Q) (cmd : Command) {L : List Entry}
    (hL : L = (s.nodes i).log ++ [cmd.entry (s.nodes i).currentTerm ((s.nodes i).log.length + 1)]) :
    ∃ t w, ∃ c : Call ι ρ, Run (step cfg) (Inside Q) s t ∧ Replicating Q i L w c t ∧
      c.index = (s.nodes i).log.length + 1 ∧
      c.entry = cmd.entry (s.nodes i).currentTerm ((s.nodes i).log.length + 1) := by
  obtain ⟨a, ha⟩ := safe hc.timely
  have hlast := (ha.serving.tracks.aligned i).lastLogIndex
  obtain ⟨⟨n, w⟩, hout⟩ : ∃ out, (s.nodes i).appendEntry cfg cmd = .ok out := by
    simp only [Node.appendEntry, h.leads, ne_eq, not_true_eq_false, if_false]
    exact ⟨_, rfl⟩
  obtain ⟨-, hw, hlog, hcalls, hwaiters, -⟩ := appendEntry_frame hout
  obtain ⟨-, -, hterm, hstate, -⟩ := appendEntry_eq hout
  obtain ⟨happlier, -⟩ := appendEntry_applier hout
  have hown := appendEntry_own hout
  rw [hlast, ← hw] at hcalls hwaiters
  rw [hlast] at hlog
  rw [hc.election.nodeId i, hlast] at hown
  have hself : (s.setNode i n).nodes i = n := by rw [setNode_nodes, Function.update_self]
  have hlen : L.length = (s.nodes i).log.length + 1 := by simp [hL]
  refine ⟨s.setNode i n, w, ⟨(s.nodes i).log.length + 1,
      cmd.entry (s.nodes i).currentTerm ((s.nodes i).log.length + 1), (s.nodes i).currentTerm, cmd.clientId,
      cmd.seqNum, false, none⟩,
    Run.single (e := .appendEntry i cmd) ⟨hi, trivial⟩ (by simp [step, hout]),
    ⟨⟨?_, fun j hj => ?_⟩, ?_, ?_, ?_, ?_, ?_, ?_⟩, rfl, rfl⟩
  · rw [hself, hstate]
    exact h.leads
  · rw [hself, hterm, setNode_nodes]
    by_cases hij : j = i
    · rw [hij, Function.update_self, hterm]
    · rw [Function.update_of_ne hij]
      exact h.ahead j hj
  · rw [hself, hlog, hL]
  · rw [hself, hcalls, Function.update_self]
  · rw [hself, hwaiters, Function.update_self]
  · obtain ⟨p, hkept, hp⟩ := ha.prefixes.current i
    have hle := (ha.serving.tracks.committed hkept).1.length_le
    rw [hself, happlier.lastApplied, ← hp.1, hlen]
    exact Nat.lt_succ_of_le hle
  · rw [hself, hlen, hown]
  · rw [hself, hterm, hL]
    simp [Command.entry]

lemma Replicating.awaits (h : Replicating Q i L w c s) (hcommit : L.length ≤ (s.nodes i).commitIndex)
    (hindex : c.index = L.length) (hentry : L[L.length - 1]? = some c.entry) :
    Awaiting (s.nodes i) w c := by
  refine ⟨h.call, h.waiter, Or.inl ?_, ?_, ?_⟩
  · rw [hindex]
    exact h.unapplied
  · rw [h.log, hindex]
    exact hentry
  · rw [hindex]
    exact hcommit

/-- In a cluster of two or more, in runs where every reply comes in time, a connected majority is never
stuck, whatever happened before: without any other node it can get a leader, commit a new command, apply
it after the log before it, and answer its caller with the effect. -/
theorem majority_available (hn : 2 ≤ Fintype.card ι) (h : Reachable cfg (AtDelivery Current) s)
    (hmaj : Majority Q) (hflags : ∀ j ∈ Q, (s.nodes j).isolated = false) (cmd : Command) :
    ∃ i ∈ Q, ∃ t before term boot w, ∃ c : Call ι ρ, Run (step cfg) (Inside Q) s t ∧
      (t.nodes i).log = before ++ [cmd.entry term (before.length + 1)] ∧
      c.entry = cmd.entry term (before.length + 1) ∧
      t.trace.getLast? = some (answer i boot w c (cfg.applyEntry (cfg.replay before) c.entry).2) := by
  obtain ⟨i, hi, u, hu, hcu, hheads⟩ := Connected.elects ⟨h, hflags⟩ hmaj
  set before := (u.nodes i).log
  set term := (u.nodes i).currentTerm
  obtain ⟨v, w, c, hv, hrep, hindex, hentry⟩ := hheads.appends hcu hi cmd rfl
  obtain ⟨x, hx, hcx, hrx, hcommit⟩ := hrep.commits hn (hcu.run hv) hi hmaj
  have hawait : Awaiting (x.nodes i) w c := by
    refine hrx.awaits hcommit ?_ ?_
    · simp [hindex]
    · simp [hentry]
  obtain ⟨y, hy, hcy, hlog, r, hdone, hrec⟩ := hcx.answers hi hawait
  obtain ⟨t, ht, htlog, htrace⟩ := returns_answer cfg hi hdone
  obtain ⟨b, hb⟩ := safe hcy.timely
  have heffect : r = (cfg.applyEntry (cfg.replay before) c.entry).2 := by
    have heff := hb.effect hrec
    rw [hlog, hrx.log, hindex, Nat.add_sub_cancel, List.take_left] at heff
    exact heff
  refine ⟨i, hi, t, before, term, (y.nodes i).boot, w, { c with result := r, event := true },
    hu.trans (hv.trans (hx.trans (hy.trans ht))), ?_, hentry, ?_⟩
  · rw [htlog, hlog, hrx.log]
  · rw [htrace, List.getLast?_concat, heffect]

/-- Nodes 0 and 1 both think they lead, and node 1 is out of reach. -/
theorem majority_available_diverged : ∃ s, Reachable (stateless 3) (AtDelivery Current) s ∧
    (s.nodes 0).state = .leader ∧ (s.nodes 1).state = .leader ∧
    ∃ i ∈ ({0, 2} : Finset (Fin 3)), ∃ t before term boot w, ∃ c : Call (Fin 3) Unit,
      Run (step (stateless 3)) (Inside {0, 2}) s t ∧
      (t.nodes i).log = before ++ [someCommand.entry term (before.length + 1)] ∧
      c.entry = someCommand.entry term (before.length + 1) ∧
      t.trace.getLast? = some (answer i boot w c (some (.ok ()))) := by
  obtain ⟨s, hs, h₀, h₁, hflags⟩ := Run.exists_of_execute
    (guarded (step (stateless 3)) (AtDelivery Current)) (init (stateless 3)) diverged
    (fun s => (s.nodes 0).state = .leader ∧ (s.nodes 1).state = .leader ∧
      ∀ j ∈ ({0, 2} : Finset (Fin 3)), (s.nodes j).isolated = false) (by decide +kernel)
  obtain ⟨i, hi, t, before, term, boot, w, c, hrun, hlog, hentry, hanswer⟩ := majority_available (by decide)
    hs.of_guarded (Q := {0, 2}) (by unfold Majority; decide) hflags someCommand
  refine ⟨s, hs.of_guarded, h₀, h₁, i, hi, t, before, term, boot, w, c, hrun, hlog, hentry, ?_⟩
  rw [hanswer, hentry]
  rfl

end Cluster

end DistributedStorage.Raft

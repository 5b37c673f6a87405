import DistributedStorage.Raft.Conflicts
import DistributedStorage.Raft.LogMatching

/-! The requests of one leader at one follower, in any order and any number of times. -/

set_option linter.unusedSectionVars false

namespace DistributedStorage.Raft

open Library.LeaderLogs Library.Runs

variable {ι σ ρ : Type} [DecidableEq ι]

/-- Requests out of `reqs` arrive at `n`, in any order and any number of times; whatever else happens in
between leaves the log alone. The list holds those that were accepted. -/
inductive Redelivers (reqs : Set (AppendEntriesArgs ι)) (n : Node ι σ ρ) :
    List (AppendEntriesArgs ι) → Node ι σ ρ → Prop
  | start : Redelivers reqs n [] n
  | accepts (handled : List (AppendEntriesArgs ι)) (m : Node ι σ ρ) (args : AppendEntriesArgs ι)
      (reply : AppendEntriesReply) : Redelivers reqs n handled m → args ∈ reqs →
      (m.handleAppendEntries args).2 = some reply → reply.success = true →
      Redelivers reqs n (handled ++ [args]) (m.handleAppendEntries args).1
  | refuses (handled : List (AppendEntriesArgs ι)) (m : Node ι σ ρ) (args : AppendEntriesArgs ι) :
      Redelivers reqs n handled m → args ∈ reqs →
      (∀ reply ∈ (m.handleAppendEntries args).2, reply.success = false) →
      Redelivers reqs n handled (m.handleAppendEntries args).1
  | between (handled : List (AppendEntriesArgs ι)) (m k : Node ι σ ρ) : Redelivers reqs n handled m →
      k.log = m.log → Redelivers reqs n handled k

section

variable {a : State ι Entry} {n m : Node ι σ ρ} {args : AppendEntriesArgs ι}
  {handled : List (AppendEntriesArgs ι)} {reqs : Set (AppendEntriesArgs ι)}

/-- The log a leader had when it built a request, as a part of the log it has in `a`. -/
def sentLog (a : State ι Entry) (args : AppendEntriesArgs ι) : List Entry :=
  a.prefixOf args.term (args.prevLogIndex + args.entries.length)

lemma Slice.eq_sentLog {view : List Entry} (h : Slice view args)
    (hv : view <+: a.leaderLog args.term) : view = sentLog a args := by
  rw [sentLog, State.prefixOf, h.length_eq]
  exact List.prefix_iff_eq_take.mp hv

lemma handleAppendEntries_accepted {view : List Entry} [Decidable (view <+: n.log)]
    {reply : AppendEntriesReply} (hn : Rooted Entry.term a n.log) (hv : Rooted Entry.term a view)
    (hs : Slice view args)
    (h : (n.handleAppendEntries args).2 = some reply) (hr : reply.success = true) :
    (n.handleAppendEntries args).1.log = accepted n.log view := by
  obtain ⟨-, hprev, hlog⟩ := handleAppendEntries_success h hr
  rw [hlog]
  exact hs.inserts (rooted_matching hn hv) hprev

def batches (a : State ι Entry) (handled : List (AppendEntriesArgs ι)) : Set (List Entry) :=
  {v | ∃ args ∈ handled, v = sentLog a args}

lemma batches_concat (a : State ι Entry) (handled : List (AppendEntriesArgs ι))
    (args : AppendEntriesArgs ι) :
    batches a (handled ++ [args]) = insert (sentLog a args) (batches a handled) := by
  ext v
  simp only [batches, List.mem_append, List.mem_singleton, Set.mem_ofPred_eq, Set.mem_insert_iff]
  constructor
  · rintro ⟨r, hr | rfl, rfl⟩
    · exact Or.inr ⟨r, hr, rfl⟩
    · exact Or.inl rfl
  · rintro (rfl | ⟨r, hr, rfl⟩)
    · exact ⟨args, Or.inr rfl, rfl⟩
    · exact ⟨r, Or.inl hr, rfl⟩

/-- The requests of `reqs` were built in `term`, each from the leader's log of that moment. -/
def BuiltIn (a : State ι Entry) (term : ℕ) (reqs : Set (AppendEntriesArgs ι)) : Prop :=
  ∀ args ∈ reqs, args.term = term ∧ ∃ view, view <+: a.leaderLog args.term ∧ Slice view args

variable {term : ℕ}

lemma Redelivers.absorbs (h : Redelivers reqs n handled m) (hn : Rooted Entry.term a n.log)
    (hlead : ∀ t, Rooted Entry.term a (a.leaderLog t)) (hreqs : BuiltIn a term reqs) :
    Absorbs n.log (batches a handled) m.log ∧ Rooted Entry.term a m.log ∧
      ∀ args ∈ handled, args ∈ reqs := by
  classical
  induction h with
  | start =>
    refine ⟨?_, hn, fun _ h => (List.not_mem_nil h).elim⟩
    have hnone : batches a ([] : List (AppendEntriesArgs ι)) = ∅ := by simp [batches]
    rw [hnone]
    exact Absorbs.refl _
  | accepts handled m args reply _ hargs hreply hr ih =>
    obtain ⟨habs, hm, hin⟩ := ih
    obtain ⟨hterm, view, hv, hs⟩ := hreqs args hargs
    have hview : Rooted Entry.term a view := (hlead _).of_isPrefix hv
    have hbatches : ∀ w ∈ batches a handled, w <+: a.leaderLog args.term := by
      rintro w ⟨r, hr, rfl⟩
      rw [hterm, ← (hreqs r (hin r hr)).1]
      exact List.take_prefix _ _
    rw [handleAppendEntries_accepted hm hview hs hreply hr]
    refine ⟨?_, ?_, fun r hr => ?_⟩
    · rw [batches_concat, ← hs.eq_sentLog hv]
      exact habs.accept hbatches hv
    · rcases accepted_eq m.log view with he | he <;> rw [he]
      · exact hm
      · exact hview
    · rcases List.mem_append.mp hr with hr | hr
      · exact hin r hr
      · rw [List.mem_singleton.mp hr]
        exact hargs
  | refuses handled m args _ _ hfail ih =>
    rw [handleAppendEntries_failure hfail]
    exact ih
  | between handled m k _ hlog ih =>
    rw [hlog]
    exact ih

end

variable [Fintype ι]

namespace Cluster

/-- The requests built in `term` so far. -/
def requestsOf (s : Cluster ι σ ρ) (term : ℕ) : Set (AppendEntriesArgs ι) :=
  {args | args.term = term ∧ ∃ dst boot, .appendEntries dst boot args ∈ s.sent}

/-- Requests that one term's leader built, however often and in whatever order they reach a node of a
reachable state: what an accepted one delivered stays in its place, and the log depends only on which
were accepted. -/
theorem redelivery {cfg : Config ι σ ρ} {s t : Cluster ι σ ρ} (h : Reachable cfg Free s)
    (hr : Run (step cfg) Free s t) (j : ι) (term : ℕ) :
    (∀ handled m, Redelivers (t.requestsOf term) (s.nodes j) handled m → ∀ args ∈ handled, ∀ k e,
      args.entries[k]? = some e → m.log[args.prevLogIndex + k]? = some e) ∧
    ∀ handled m again k, Redelivers (t.requestsOf term) (s.nodes j) handled m →
      Redelivers (t.requestsOf term) (s.nodes j) again k → (∀ args, args ∈ handled ↔ args ∈ again) →
      m.log = k.log := by
  obtain ⟨a, -, ha⟩ := refinement h
  obtain ⟨b, hab, hb⟩ := ha.run hr
  have hroot : Rooted Entry.term b (s.nodes j).log := (ha.rooted j).grow (run_grows hab).leaderLog
  have hreqs : BuiltIn b term (t.requestsOf term) := by
    rintro args ⟨hterm, dst, boot, hm⟩
    exact ⟨hterm, hb.refines.messages _ hm⟩
  have habs {handled : List (AppendEntriesArgs ι)} {m : Node ι σ ρ}
      (hd : Redelivers (t.requestsOf term) (s.nodes j) handled m) :=
    hd.absorbs hroot hb.inv.rooted_leader hreqs
  refine ⟨fun handled m hd args hargs k e he => ?_, fun handled m again k hd hd' hsame => ?_⟩
  · obtain ⟨hm, -, hin⟩ := habs hd
    obtain ⟨-, view, hv, hs⟩ := hreqs args (hin args hargs)
    apply getElem?_of_isPrefix (hm.holds view ⟨args, hargs, hs.eq_sentLog hv⟩)
    rw [hs.2.1, List.getElem?_drop] at he
    exact he
  · have hbatches : batches b handled = batches b again := by
      ext v
      simp only [batches, hsame]
    have hm := (habs hd).1
    rw [hbatches] at hm
    exact hm.eq (habs hd').1

def shortRequest : AppendEntriesArgs (Fin 3) := ⟨1, 0, 0, 0, [noopEntry 1 1], 0⟩

def longRequest : AppendEntriesArgs (Fin 3) :=
  ⟨1, 0, 0, 0, [noopEntry 1 1, someCommand.entry 1 2], 0⟩

/-- The second request of a term arrives before the first. -/
theorem redelivery_reordered : ∃ s n, Reachable (stateless 3) Free s ∧
    Redelivers (s.requestsOf 1) (s.nodes 1) [longRequest, shortRequest] n ∧
    n.log[1]? = some (someCommand.entry 1 2) := by
  obtain ⟨s, hs, hshort, hlong, hfirst, hsecond⟩ := Run.exists_of_execute (step (stateless 3))
    (init (stateless 3)) (campaign 0 1 0 [1] ++ [.sendAppendEntries 0 1, .appendEntry 0 someCommand,
      .sendAppendEntries 0 1])
    (fun s => .appendEntries 1 0 shortRequest ∈ s.sent ∧ .appendEntries 1 0 longRequest ∈ s.sent ∧
      ((s.nodes 1).handleAppendEntries longRequest).2 = some ⟨1, true, 0, 0⟩ ∧
      (((s.nodes 1).handleAppendEntries longRequest).1.handleAppendEntries shortRequest).2 =
        some ⟨1, true, 0, 0⟩) (by decide +kernel)
  have hlast : Redelivers (s.requestsOf 1) (s.nodes 1) [longRequest] _ :=
    Redelivers.start.accepts _ _ _ _ ⟨rfl, 1, 0, hlong⟩ hfirst rfl
  have hboth := hlast.accepts _ _ _ _ ⟨rfl, 1, 0, hshort⟩ hsecond rfl
  exact ⟨s, _, hs, hboth, (redelivery hs Run.refl 1 1).1 _ _ hboth longRequest (by simp) 1 _ rfl⟩

end Cluster

end DistributedStorage.Raft

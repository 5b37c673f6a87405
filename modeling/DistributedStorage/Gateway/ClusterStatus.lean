import DistributedStorage.Raft.ElectionSafety
import DistributedStorage.Raft.LeaderHint
import Mathlib.Data.List.MinMax

/-! The status of the cluster as the gateway shows it: every node is asked on its own, at its own moment, and
some do not answer. -/

set_option linter.unusedSectionVars false

namespace DistributedStorage.Gateway

open Library.Runs Raft

/-- `state` is `none` for "unknown". -/
structure NodeStatus (ι : Type) where
  nodeId : ι
  address : String
  reachable : Bool
  state : Option Role
  term : ℕ
  leaderId : Option ι
  commitIndex : ℕ
  lastApplied : ℕ
  lastLogIndex : ℕ
  lastLogTerm : ℕ
  isolated : Bool
  matchIndex : ι → ℕ

structure ClusterOut (ι : Type) where
  leaderId : Option ι
  term : ℕ
  nodes : List (NodeStatus ι)

variable {ι σ ρ : Type} [DecidableEq ι]

/-- `_status_of` -/
def statusOf (address : ι → String) (i : ι) : Option (Node.Status ι) → NodeStatus ι
  | none => ⟨i, address i, false, none, 0, none, 0, 0, 0, 0, false, fun _ => 0⟩
  | some s => ⟨i, address i, true, some s.state, s.term, s.leaderId, s.commitIndex, s.lastApplied, s.lastLogIndex,
      s.lastLogTerm, s.isolated, s.matchIndex⟩

def NodeStatus.leads (s : NodeStatus ι) : Bool := s.reachable && !s.isolated && s.state = some .leader

def currentLeader (statuses : List (NodeStatus ι)) : Option (NodeStatus ι) :=
  (statuses.filter NodeStatus.leads).argmax NodeStatus.term

def summarize (statuses : List (NodeStatus ι)) : ClusterOut ι where
  leaderId := (currentLeader statuses).map NodeStatus.nodeId
  term := ((statuses.filter NodeStatus.reachable).map NodeStatus.term).foldr max 0
  nodes := statuses

section

variable {statuses : List (NodeStatus ι)} {l : NodeStatus ι}

lemma currentLeader_leads (h : currentLeader statuses = some l) : l ∈ statuses ∧ l.leads = true :=
  List.mem_filter.mp (List.argmax_mem h)

lemma currentLeader_le {s : NodeStatus ι} (h : currentLeader statuses = some l) (hs : s ∈ statuses)
    (hl : s.leads = true) : s.term ≤ l.term :=
  List.le_of_mem_argmax (List.mem_filter.mpr ⟨hs, hl⟩) h

lemma currentLeader_eq_none : currentLeader statuses = none ↔ ∀ s ∈ statuses, s.leads = false := by
  rw [currentLeader, List.argmax_eq_none, List.filter_eq_nil_iff]
  simp only [Bool.not_eq_true]

lemma NodeStatus.leads_reachable {s : NodeStatus ι} (h : s.leads = true) : s.reachable = true := by
  rw [NodeStatus.leads, Bool.and_eq_true, Bool.and_eq_true] at h
  exact h.1.1

lemma summarize_term {s : NodeStatus ι} (hs : s ∈ statuses) (hr : s.reachable = true) :
    s.term ≤ (summarize statuses).term :=
  List.le_max_of_le' 0 (List.mem_map_of_mem (List.mem_filter.mpr ⟨hs, hr⟩)) le_rfl

end

variable [Fintype ι] {cfg : Config ι σ ρ} {address : ι → String} {t : Cluster ι σ ρ}

/-- A node was asked at some moment of the run that has come to `t`, or did not answer. -/
inductive Reported (cfg : Config ι σ ρ) (address : ι → String) (t : Cluster ι σ ρ) : NodeStatus ι → Prop
  | unreachable (i : ι) : Reported cfg address t (statusOf address i none)
  | answered (i : ι) (u : Cluster ι σ ρ) : Cluster.Reachable cfg Free u → Run (Cluster.step cfg) Free u t →
      Reported cfg address t (statusOf address i (some (u.nodes i).status))

lemma run_trace {s t : Cluster ι σ ρ} (h : Run (Cluster.step cfg) Free s t) : s.trace <+: t.trace := by
  induction h with
  | refl => exact List.prefix_rfl
  | tail _ he ih =>
    obtain ⟨e, -, hstep⟩ := he
    exact ih.trans (Cluster.step_change_free hstep).service.trace

/-- Who says that it leads was elected in the term it says. -/
lemma Reported.elected {s : NodeStatus ι} (h : Reported cfg address t s) (hl : s.leads = true) :
    .elected s.nodeId s.term ∈ t.trace := by
  cases h with
  | unreachable i => cases hl
  | answered i u hu hr =>
    have hstate : (u.nodes i).state = .leader := by
      simp only [NodeStatus.leads, statusOf, Bool.and_eq_true, decide_eq_true_eq, Option.some.injEq] at hl
      exact hl.2
    exact (run_trace hr).subset ((Cluster.electionInv hu).leader i hstate)

/-- The leader that the gateway names was elected in the term it is shown with, and nobody else ever is; it is the
newest of those that say they lead. Whom the gateway names does not depend on the order of the answers. -/
theorem named_leader_elected (cfg : Config ι σ ρ) (address : ι → String) (t : Cluster ι σ ρ)
    (ht : Cluster.Reachable cfg Free t) (statuses : List (NodeStatus ι))
    (hs : ∀ s ∈ statuses, Reported cfg address t s) :
    (∀ l, currentLeader statuses = some l →
      .elected l.nodeId l.term ∈ t.trace ∧ l.term ≤ (summarize statuses).term ∧
      (∀ u, Run (Cluster.step cfg) Free t u → ∀ j, .elected j l.term ∈ u.trace → j = l.nodeId) ∧
      ∀ s ∈ statuses, s.leads = true → s.term ≤ l.term ∧ (s.term = l.term → s.nodeId = l.nodeId)) ∧
    ∀ answers, answers.Perm statuses → (summarize answers).leaderId = (summarize statuses).leaderId ∧
      (summarize answers).term = (summarize statuses).term := by
  have hsame {l m : NodeStatus ι} (hl : l ∈ statuses ∧ l.leads = true) (hm : m ∈ statuses ∧ m.leads = true)
      (hterm : l.term = m.term) : l.nodeId = m.nodeId :=
    (Cluster.electionInv ht).unique _ _ _ ((hs l hl.1).elected hl.2) (hterm ▸ (hs m hm.1).elected hm.2)
  refine ⟨fun l hl => ?_, fun answers hperm => ⟨?_, ?_⟩⟩
  · have hlead := currentLeader_leads hl
    have hel := (hs l hlead.1).elected hlead.2
    refine ⟨hel, ?_, fun u hu j hj => ?_, fun s hm hsl => ?_⟩
    · exact summarize_term hlead.1 (NodeStatus.leads_reachable hlead.2)
    · exact (Cluster.electionInv (ht.trans hu)).unique _ _ _ hj ((run_trace hu).subset hel)
    · exact ⟨currentLeader_le hl hm hsl, hsame ⟨hm, hsl⟩ hlead⟩
  · -- two lists with the same answers name leaders of one term
    simp only [summarize]
    cases ha : currentLeader answers with
    | none =>
      have hnone : currentLeader statuses = none :=
        currentLeader_eq_none.mpr fun s hm => currentLeader_eq_none.mp ha s (hperm.mem_iff.mpr hm)
      rw [hnone]
    | some l =>
      cases hb : currentLeader statuses with
      | none =>
        have hlead := currentLeader_leads ha
        have hfalse := currentLeader_eq_none.mp hb l (hperm.mem_iff.mp hlead.1)
        rw [hlead.2] at hfalse
        cases hfalse
      | some m =>
        obtain ⟨hl, hll⟩ := currentLeader_leads ha
        obtain ⟨hm, hml⟩ := currentLeader_leads hb
        have hle := currentLeader_le hb (hperm.mem_iff.mp hl) hll
        have hge := currentLeader_le ha (hperm.mem_iff.mpr hm) hml
        rw [Option.map_some, Option.map_some, hsame ⟨hperm.mem_iff.mp hl, hll⟩ ⟨hm, hml⟩ (le_antisymm hle hge)]
  · exact ((hperm.filter _).map _).foldr_eq 0

/-- Node 0 leads term 1 when it is asked. Node 1 has taken over when it is asked; node 2 does not answer. -/
def takesOver : List (Event (Fin 3)) := Cluster.campaign 1 2 2 [2]

def answersOf (u t : Cluster (Fin 3) Unit Unit) : List (NodeStatus (Fin 3)) :=
  [statusOf (fun _ => "") 0 (some (u.nodes 0).status), statusOf (fun _ => "") 1 (some (t.nodes 1).status),
    statusOf (fun _ => "") 2 none]

theorem named_leader_elected_newest : ∃ u t : Cluster (Fin 3) Unit Unit,
    Run (Cluster.step (Cluster.stateless 3)) Free u t ∧ (u.nodes 0).state = .leader ∧
    (summarize (answersOf u t)).leaderId = some 1 ∧ ∀ j, .elected j 2 ∈ t.trace → j = 1 := by
  obtain ⟨u, hu, hlead, hrest⟩ := Run.exists_of_execute (Cluster.step (Cluster.stateless 3))
    (Cluster.init (Cluster.stateless 3)) (Cluster.campaign 0 1 0 [1]) (fun u => (u.nodes 0).state = .leader ∧
      (execute (Cluster.step (Cluster.stateless 3)) u takesOver).any (fun t =>
        (currentLeader (answersOf u t)).any fun l => l.nodeId = 1 ∧ l.term = 2) = true) (by decide +kernel)
  obtain ⟨t, ht, hany⟩ := Run.exists_of_execute (Cluster.step (Cluster.stateless 3)) u takesOver
    (fun t => ((currentLeader (answersOf u t)).any fun l => l.nodeId = 1 ∧ l.term = 2) = true)
    (by simpa using hrest)
  rw [Option.any_eq_true] at hany
  obtain ⟨l, hl, hfields⟩ := hany
  obtain ⟨hid, hterm⟩ := of_decide_eq_true hfields
  have hreported : ∀ s ∈ answersOf u t, Reported (Cluster.stateless 3) (fun _ => "") t s := by
    intro s hs
    simp only [answersOf, List.mem_cons, List.not_mem_nil, or_false] at hs
    rcases hs with rfl | rfl | rfl
    · exact .answered 0 u hu ht
    · exact .answered 1 t (hu.trans ht) Run.refl
    · exact .unreachable 2
  have hnamed := (named_leader_elected (Cluster.stateless 3) (fun _ => "") t (hu.trans ht) (answersOf u t)
    hreported).1 l hl
  refine ⟨u, t, ht, hlead, ?_, fun j hj => ?_⟩
  · rw [summarize, hl, Option.map_some, hid]
  · rw [← hid]
    exact hnamed.2.2.1 t Run.refl j (hterm ▸ hj)

end DistributedStorage.Gateway

import DistributedStorage.Raft.Simulation

/-! Log matching, read off the abstract machine: every log is made of prefixes of leader logs. -/

set_option linter.unusedSectionVars false

namespace DistributedStorage.Raft

open Library.LeaderLogs Library.Runs

variable {ι σ ρ : Type} [DecidableEq ι] [Fintype ι]

namespace Cluster

variable {s : Cluster ι σ ρ} {a : State ι Entry}

lemma Tracks.rooted (h : Tracks s a) (i : ι) : Rooted Entry.term a (s.nodes i).log := by
  rw [← h.refines.log i]
  exact h.inv.rooted_log i

lemma Tracks.matching (h : Tracks s a) (i j : ι) : Matching (s.nodes i).log (s.nodes j).log :=
  rooted_matching (h.rooted i) (h.rooted j)

lemma Tracks.aligned (h : Tracks s a) (i : ι) : Aligned (s.nodes i).log :=
  h.refines.aligned_log h.inv i

lemma Tracks.sorted (h : Tracks s a) (i : ι) :
    ((s.nodes i).log.map Entry.term).Pairwise (· ≤ ·) := by
  rw [← h.refines.log i]
  exact h.inv.log_sorted i

/-- Two logs with the same term at a position are the same up to there; positions carry their index
and terms never decrease. -/
theorem log_matching {cfg : Config ι σ ρ} {s : Cluster ι σ ρ} (h : Reachable cfg Free s) :
    (∀ i j p x y, (s.nodes i).log[p]? = some x → (s.nodes j).log[p]? = some y →
      x.term = y.term → (s.nodes i).log.take (p + 1) = (s.nodes j).log.take (p + 1)) ∧
    ∀ i, (∀ p e, (s.nodes i).log[p]? = some e → e.index = p + 1) ∧
      ((s.nodes i).log.map Entry.term).Pairwise (· ≤ ·) := by
  obtain ⟨a, -, ha⟩ := refinement h
  exact ⟨ha.matching, fun i => ⟨ha.aligned i, ha.sorted i⟩⟩

def someCommand : Command := ⟨.put, "k", [1], "c", 1⟩

/-- Node 0 leads term 1 and keeps an entry to itself; the leader of term 2 overwrites it. -/
def overwritten : List (Event (Fin 3)) :=
  campaign 0 1 0 [1] ++ [.appendEntry 0 someCommand] ++ campaign 1 2 2 [2] ++
    [.appendEntry 1 someCommand] ++ replicate 1 0 4

theorem log_matching_overwritten : ∃ s, Reachable (stateless 3) Free s ∧
    (s.nodes 0).log[1]? = some (someCommand.entry 2 2) ∧
    (s.nodes 0).log.take 2 = (s.nodes 1).log.take 2 := by
  obtain ⟨s, hs, h0, h1⟩ := Run.exists_of_execute (step (stateless 3)) (init (stateless 3))
    overwritten (fun s => (s.nodes 0).log[1]? = some (someCommand.entry 2 2) ∧
      (s.nodes 1).log[1]? = some (someCommand.entry 2 2)) (by decide +kernel)
  exact ⟨s, hs, h0, (log_matching hs).1 0 1 1 _ _ h0 h1 rfl⟩

end Cluster

end DistributedStorage.Raft

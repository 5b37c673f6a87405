import DistributedStorage.Library.LeaderLogs
import Mathlib.Data.Finset.Max
import Mathlib.Data.Prod.Lex

/-! The comparison of logs that a vote rests on: it has a greatest log in every finite family, and an entry
of a later term makes a log only newer. -/

namespace DistributedStorage.Library.LeaderLogs

variable {α E : Type*} {term : E → ℕ}

lemma lastTerm_concat (l : List E) (e : E) : lastTerm term (l ++ [e]) = term e := by
  simp [lastTerm]

lemma UpToDate.concat {l v : List E} {e : E} (h : UpToDate term l v) (he : lastTerm term l ≤ term e) :
    UpToDate term (l ++ [e]) v := by
  simp only [UpToDate, lastTerm_concat, List.length_append, List.length_singleton] at h ⊢
  omega

lemma exists_upToDate (term : E → ℕ) (F : Finset α) (log : α → List E) (hF : F.Nonempty) :
    ∃ i ∈ F, ∀ j ∈ F, UpToDate term (log i) (log j) := by
  obtain ⟨i, hi, hmax⟩ := F.exists_max_image
    (fun j => toLex (lastTerm term (log j), (log j).length)) hF
  exact ⟨i, hi, fun j hj => Prod.Lex.le_iff.mp (hmax j hj)⟩

end DistributedStorage.Library.LeaderLogs

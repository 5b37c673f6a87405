import DistributedStorage.Library.OrderedDict
import Mathlib.Data.List.DropRight

/-! A dictionary of bounded size that drops what was used least recently, against the history of uses. -/

namespace DistributedStorage.Library.OrderedDict

variable {κ α : Type} {uses l : List (κ × α)} {x : κ × α} {k : κ} {bound : ℕ}

lemma rtake_append_of_le {m : List (κ × α)} (h : bound ≤ m.length) :
    (l ++ m).rtake bound = m.rtake bound := by
  rw [List.rtake, List.rtake, List.length_append, Nat.add_sub_assoc h, List.drop_append]
  simp

lemma rtake_length (bound : ℕ) (l : List (κ × α)) : (l.rtake bound).length = min bound l.length := by
  rw [List.rtake, List.length_drop]
  omega

variable [DecidableEq κ]

/-- `d[k] = a`, `d.move_to_end(k)`, and eviction down to `bound`. -/
def touch (bound : ℕ) (d : OrderedDict κ α) (x : κ × α) : OrderedDict κ α :=
  ((d.set x.1 x.2).moveToEnd x.1).popFirst bound

/-- The last use of each key, in the order of these uses. -/
def latest (uses : List (κ × α)) : List (κ × α) := uses.pwFilter fun x y => x.1 ≠ y.1

lemma latest_cons : latest (x :: uses) = if x.1 ∈ uses.map Prod.fst then latest uses else x :: latest uses := by
  have hkeep : (∀ y ∈ latest uses, x.1 ≠ y.1) ↔ x.1 ∉ uses.map Prod.fst := by
    rw [latest, List.forall_mem_pwFilter]
    · simp only [List.mem_map, not_exists, not_and, ne_eq]
      exact forall₂_congr fun y _ => ne_comm
    · intro a b c hac
      by_cases hab : a.1 = b.1
      · exact .inr (hab ▸ hac)
      · exact .inl hab
  split_ifs with hx
  · exact List.pwFilter_cons_of_neg (hkeep.not.mpr (not_not.mpr hx))
  · exact List.pwFilter_cons_of_pos (hkeep.mpr hx)

lemma latest_nodup (uses : List (κ × α)) : ((latest uses).map Prod.fst).Nodup := by
  rw [List.Nodup, List.pairwise_map]
  exact List.pairwise_pwFilter uses

lemma mem_keys_latest : k ∈ (latest uses).map Prod.fst ↔ k ∈ uses.map Prod.fst := by
  induction uses with
  | nil => rfl
  | cons x uses ih =>
    rw [latest_cons]
    split_ifs with hx
    · rw [ih, List.map_cons, List.mem_cons, iff_or_self]
      rintro rfl
      exact hx
    · rw [List.map_cons, List.map_cons, List.mem_cons, List.mem_cons, ih]

lemma latest_length (uses : List (κ × α)) : (latest uses).length = (uses.map Prod.fst).dedup.length := by
  have hperm : ((latest uses).map Prod.fst).Perm (uses.map Prod.fst).dedup := by
    rw [List.perm_ext_iff_of_nodup (latest_nodup uses) (List.nodup_dedup _)]
    intro k
    rw [mem_keys_latest, List.mem_dedup]
  rw [← hperm.length_eq, List.length_map]

lemma remove_append (k : κ) (l m : List (κ × α)) : remove k (l ++ m) = remove k l ++ remove k m :=
  List.filter_append l m

/-- One more use moves its key to the end. -/
lemma latest_concat (uses : List (κ × α)) (x : κ × α) :
    latest (uses ++ [x]) = remove x.1 (latest uses) ++ [x] := by
  induction uses with
  | nil => rfl
  | cons y uses ih =>
    have hmem : y.1 ∈ (uses ++ [x]).map Prod.fst ↔ y.1 ∈ uses.map Prod.fst ∨ y.1 = x.1 := by simp
    rw [List.cons_append, latest_cons, latest_cons, ih]
    by_cases hy : y.1 ∈ uses.map Prod.fst
    · rw [if_pos (hmem.mpr (.inl hy)), if_pos hy]
    · rw [if_neg hy]
      by_cases hx : y.1 = x.1
      · rw [if_pos (hmem.mpr (.inr hx)), remove, remove, List.filter_cons_of_neg (by simpa using hx)]
      · rw [if_neg (hmem.not.mpr (not_or.mpr ⟨hy, hx⟩)), remove, remove,
          List.filter_cons_of_pos (by simpa using hx), List.cons_append]

lemma remove_length (h : (l.map Prod.fst).Nodup) : l.length ≤ (remove k l).length + 1 := by
  induction l with
  | nil => exact Nat.zero_le _
  | cons y l ih =>
    rw [List.map_cons, List.nodup_cons] at h
    by_cases hy : y.1 = k
    · subst hy
      rw [remove, List.filter_cons_of_neg (by simp)]
      have hrest : remove y.1 l = l := remove_of_notMem h.1
      rw [remove] at hrest
      rw [hrest, List.length_cons]
    · have hle := ih h.2
      rw [remove] at hle ⊢
      rw [List.filter_cons_of_pos (by simpa using hy), List.length_cons, List.length_cons]
      omega

/-- What evicting early loses would be evicted anyway. -/
lemma rtake_touch (h : (l.map Prod.fst).Nodup) :
    (remove x.1 (l.rtake bound) ++ [x]).rtake bound = (remove x.1 l ++ [x]).rtake bound := by
  by_cases hle : l.length ≤ bound
  · have hall : l.rtake bound = l := by rw [List.rtake, Nat.sub_eq_zero_of_le hle, List.drop_zero]
    rw [hall]
  · have hsplit : l = l.take (l.length - bound) ++ l.rtake bound := (List.take_append_drop _ l).symm
    have hlen : (l.rtake bound).length = bound := by
      rw [rtake_length]
      omega
    have hsub : ((l.rtake bound).map Prod.fst).Nodup := h.sublist ((List.drop_sublist _ l).map _)
    have hlong : bound ≤ (remove x.1 (l.rtake bound) ++ [x]).length := by
      have hremove := remove_length (k := x.1) hsub
      rw [List.length_append, List.length_singleton]
      omega
    conv_rhs => rw [hsplit]
    rw [remove_append, List.append_assoc, rtake_append_of_le hlong]

/-- The dictionary holds the last uses of as many keys as there is room for, least recent first. -/
theorem foldl_touch_items (bound : ℕ) (uses : List (κ × α)) :
    (uses.foldl (touch bound) empty).items = (latest uses).rtake bound := by
  induction uses using List.reverseRecOn with
  | nil => rw [latest, List.pwFilter_nil, List.rtake_nil]; rfl
  | append_singleton uses x ih =>
    have htouch : (touch bound (uses.foldl (touch bound) empty) x).items =
        evict bound ((uses.foldl (touch bound) empty).set x.1 x.2 |>.moveToEnd x.1).items := rfl
    rw [List.foldl_concat, htouch, evict_eq, moveToEnd_set]
    dsimp only
    rw [ih, latest_concat]
    exact rtake_touch (latest_nodup uses)

end DistributedStorage.Library.OrderedDict

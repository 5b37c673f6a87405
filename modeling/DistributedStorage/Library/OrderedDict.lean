import Mathlib.Data.List.Nodup
import Mathlib.Data.List.Perm.Subperm
import Mathlib.Data.List.Dedup

/-! Dictionaries that keep their insertion order: assignment to a key that is present leaves it in its
place. -/

namespace DistributedStorage.Library

variable {κ α β : Type}

structure OrderedDict (κ α : Type) where
  items : List (κ × α)
  nodup : (items.map Prod.fst).Nodup
  deriving DecidableEq

namespace OrderedDict

def keys (d : OrderedDict κ α) : List κ := d.items.map Prod.fst

def size (d : OrderedDict κ α) : ℕ := d.items.length

@[simp] lemma keys_length (d : OrderedDict κ α) : d.keys.length = d.size := by simp [keys, size]

lemma ext_items {c d : OrderedDict κ α} (h : c.items = d.items) : c = d := by
  cases c
  cases d
  cases h
  rfl

def empty : OrderedDict κ α := ⟨[], List.nodup_nil⟩

section

variable [DecidableEq κ]

def lookup (k : κ) : List (κ × α) → Option α
  | [] => none
  | (k', a) :: l => if k' = k then some a else lookup k l

def assign (k : κ) (a : α) : List (κ × α) → List (κ × α)
  | [] => [(k, a)]
  | (k', b) :: l => if k' = k then (k, a) :: l else (k', b) :: assign k a l

def remove (k : κ) (l : List (κ × α)) : List (κ × α) := l.filter fun x => x.1 ≠ k

lemma assign_keys (k : κ) (a : α) (l : List (κ × α)) : (assign k a l).map Prod.fst =
    if k ∈ l.map Prod.fst then l.map Prod.fst else l.map Prod.fst ++ [k] := by
  induction l with
  | nil => rfl
  | cons x l ih =>
    obtain ⟨k', b⟩ := x
    by_cases hk : k' = k
    · simp [assign, hk]
    · simp only [assign, hk, if_false, List.map_cons, ih, List.mem_cons, Ne.symm hk, false_or]
      split_ifs <;> rfl

lemma assign_nodup {k : κ} {a : α} {l : List (κ × α)} (h : (l.map Prod.fst).Nodup) :
    ((assign k a l).map Prod.fst).Nodup := by
  rw [assign_keys]
  split_ifs with hk
  · exact h
  · exact h.append (List.nodup_singleton k) (by simpa using hk)

lemma remove_nodup {k : κ} {l : List (κ × α)} (h : (l.map Prod.fst).Nodup) :
    ((remove k l).map Prod.fst).Nodup :=
  h.sublist (List.filter_sublist.map Prod.fst)

lemma lookup_eq_none {k : κ} {l : List (κ × α)} :
    lookup k l = none ↔ k ∉ l.map Prod.fst := by
  induction l with
  | nil => simp [lookup]
  | cons x l ih =>
    obtain ⟨k', b⟩ := x
    by_cases hk : k' = k
    · simp [lookup, hk]
    · simp only [lookup, hk, if_false, ih, List.map_cons, List.mem_cons, Ne.symm hk, false_or]

lemma lookup_assign (k k' : κ) (a : α) (l : List (κ × α)) :
    lookup k' (assign k a l) = if k = k' then some a else lookup k' l := by
  induction l with
  | nil => rfl
  | cons x l ih =>
    obtain ⟨c, b⟩ := x
    by_cases hc : c = k
    · subst hc
      simp only [assign, if_true, lookup]
      split_ifs <;> rfl
    · simp only [assign, hc, if_false, lookup, ih]
      by_cases hk : k = k'
      · subst hk
        simp [hc]
      · simp [hk]

lemma lookup_remove (k k' : κ) (l : List (κ × α)) :
    lookup k' (remove k l) = if k = k' then none else lookup k' l := by
  induction l with
  | nil => simp [lookup, remove]
  | cons x l ih =>
    obtain ⟨c, b⟩ := x
    simp only [remove] at ih
    by_cases hc : c = k
    · subst hc
      simp only [remove, List.filter_cons, ne_eq, not_true_eq_false, decide_false,
        Bool.false_eq_true, if_false, ih, lookup]
      split_ifs <;> rfl
    · simp only [remove, List.filter_cons, ne_eq, hc, not_false_eq_true, decide_true, if_true,
        lookup, ih]
      by_cases hk : k = k'
      · subst hk
        simp [hc]
      · simp [hk]

lemma lookup_append (k : κ) (l m : List (κ × α)) :
    lookup k (l ++ m) = (lookup k l).or (lookup k m) := by
  induction l with
  | nil => rfl
  | cons x l ih =>
    obtain ⟨c, b⟩ := x
    by_cases hc : c = k
    · simp [lookup, hc]
    · simp [lookup, hc, ih]

lemma remove_of_notMem {k : κ} {l : List (κ × α)} (h : k ∉ l.map Prod.fst) : remove k l = l := by
  rw [remove, List.filter_eq_self]
  intro x hx
  rw [decide_eq_true_eq]
  rintro rfl
  exact h (List.mem_map_of_mem hx)

/-- `d.get(k)` -/
def get (d : OrderedDict κ α) (k : κ) : Option α := lookup k d.items

/-- `d[k] = a` -/
def set (d : OrderedDict κ α) (k : κ) (a : α) : OrderedDict κ α :=
  ⟨assign k a d.items, assign_nodup d.nodup⟩

/-- `d.pop(k, None)`, without the value. -/
def erase (d : OrderedDict κ α) (k : κ) : OrderedDict κ α :=
  ⟨remove k d.items, remove_nodup d.nodup⟩

lemma moved_nodup {d : OrderedDict κ α} {k : κ} {a : α} :
    ((remove k d.items ++ [(k, a)]).map Prod.fst).Nodup := by
  rw [List.map_append, List.map_cons, List.map_nil]
  refine (remove_nodup d.nodup).append (List.nodup_singleton k) ?_
  simp [remove]

/-- `d.move_to_end(k)` for a key that is present. -/
def moveToEnd (d : OrderedDict κ α) (k : κ) : OrderedDict κ α :=
  match d.get k with
  | some a => ⟨remove k d.items ++ [(k, a)], moved_nodup⟩
  | none => d

variable (d : OrderedDict κ α) (k k' : κ) (a : α)

@[simp] lemma get_empty : (empty : OrderedDict κ α).get k = none := rfl

lemma get_set : (d.set k a).get k' = if k = k' then some a else d.get k' :=
  lookup_assign k k' a d.items

@[simp] lemma get_set_self : (d.set k a).get k = some a := by rw [get_set, if_pos rfl]

lemma get_erase : (d.erase k).get k' = if k = k' then none else d.get k' :=
  lookup_remove k k' d.items

@[simp] lemma get_erase_self : (d.erase k).get k = none := by rw [get_erase, if_pos rfl]

variable {d k k' a}

lemma get_eq_none : d.get k = none ↔ k ∉ d.keys := lookup_eq_none

lemma get_eq_some : d.get k = some a ↔ (k, a) ∈ d.items := by
  obtain ⟨l, hl⟩ := d
  simp only [get]
  induction l with
  | nil => simp [lookup]
  | cons x l ih =>
    obtain ⟨c, b⟩ := x
    rw [List.map_cons, List.nodup_cons] at hl
    by_cases hc : c = k
    · subst hc
      have hnot : (c, a) ∉ l := fun hm => hl.1 (List.mem_map.mpr ⟨(c, a), hm, rfl⟩)
      simp [lookup, hnot, eq_comm]
    · simp [lookup, hc, ih hl.2, Ne.symm hc]

lemma remove_assign (l : List (κ × α)) : remove k (assign k a l) = remove k l := by
  induction l with
  | nil => simp [assign, remove]
  | cons x l ih =>
    obtain ⟨c, b⟩ := x
    by_cases hc : c = k
    · simp [assign, remove, hc]
    · rw [assign, if_neg hc]
      simpa [remove, hc] using ih

lemma moveToEnd_set : (d.set k a).moveToEnd k = ⟨remove k d.items ++ [(k, a)], moved_nodup⟩ := by
  have h : (d.set k a).get k = some a := get_set_self ..
  apply ext_items
  simp only [moveToEnd, h]
  simp only [set, remove_assign]

lemma get_moveToEnd_set : ((d.set k a).moveToEnd k).get k' =
    if k = k' then some a else d.get k' := by
  simp only [moveToEnd_set, get, lookup_append, lookup_remove]
  by_cases hk : k = k'
  · simp [hk, lookup]
  · simp [hk, lookup]

lemma mem_keys_moveToEnd_set : k' ∈ ((d.set k a).moveToEnd k).keys ↔ k' = k ∨ k' ∈ d.keys := by
  have h : ((d.set k a).moveToEnd k).get k' = if k = k' then some a else d.get k' :=
    get_moveToEnd_set
  have hnone : ((d.set k a).moveToEnd k).get k' = none ↔ k' ∉ ((d.set k a).moveToEnd k).keys :=
    get_eq_none
  rw [h] at hnone
  have hold : d.get k' = none ↔ k' ∉ d.keys := get_eq_none
  by_cases hk : k = k'
  · subst hk
    simpa using hnone
  · rw [if_neg hk, hold, not_iff_not] at hnone
    rw [← hnone]
    simp [Ne.symm hk]

end

/-- `while len(d) > bound: d.popitem(last=False)` -/
def evict (bound : ℕ) : List (κ × α) → List (κ × α)
  | [] => []
  | x :: l => if bound < (x :: l).length then evict bound l else x :: l

lemma evict_eq (bound : ℕ) (l : List (κ × α)) : evict bound l = l.drop (l.length - bound) := by
  induction l with
  | nil => simp [evict]
  | cons x l ih =>
    rw [evict]
    split_ifs with h
    · rw [ih, List.length_cons, Nat.succ_sub (by simpa using Nat.lt_succ_iff.mp h),
        List.drop_succ_cons]
    · rw [Nat.sub_eq_zero_of_le (by omega), List.drop_zero]

def popFirst (d : OrderedDict κ α) (bound : ℕ) : OrderedDict κ α :=
  ⟨evict bound d.items, by
    rw [evict_eq]
    exact d.nodup.sublist ((List.drop_sublist _ _).map Prod.fst)⟩

lemma mem_popFirst {d : OrderedDict κ α} {bound : ℕ} {x : κ × α} (h : x ∈ (d.popFirst bound).items) :
    x ∈ d.items := by
  have hx : x ∈ evict bound d.items := h
  rw [evict_eq] at hx
  exact List.mem_of_mem_drop hx

lemma popFirst_of_le {d : OrderedDict κ α} {bound : ℕ} (h : d.size ≤ bound) :
    d.popFirst bound = d := by
  apply ext_items
  have hle : d.items.length ≤ bound := h
  change evict bound d.items = d.items
  rw [evict_eq, Nat.sub_eq_zero_of_le hle, List.drop_zero]

/-- Eviction spares what was assigned last. -/
lemma get_popFirst_set [DecidableEq κ] {d : OrderedDict κ α} {k : κ} {a : α} {bound : ℕ}
    (h : 0 < bound) : (((d.set k a).moveToEnd k).popFirst bound).get k = some a := by
  rw [get_eq_some]
  change (k, a) ∈ evict bound _
  rw [evict_eq, moveToEnd_set]
  have hle : (remove k d.items ++ [(k, a)]).length - bound ≤ (remove k d.items).length := by
    rw [List.length_append, List.length_singleton]
    omega
  rw [List.drop_append_of_le_length hle]
  exact List.mem_append_right _ (List.mem_singleton.mpr rfl)

/-- A dictionary whose keys come from a finite set is no larger than the set. -/
lemma size_le_of_keys [DecidableEq κ] {d : OrderedDict κ α} {l : List κ} (h : ∀ k ∈ d.keys, k ∈ l) :
    d.size ≤ l.dedup.length := by
  rw [← keys_length]
  exact (List.Nodup.subperm d.nodup fun k hk => List.mem_dedup.mpr (h k hk)).length_le

def mapValues (f : α → β) (d : OrderedDict κ α) : OrderedDict κ β :=
  ⟨d.items.map fun x => (x.1, f x.2), by simpa [Function.comp_def] using d.nodup⟩

/-- `dict(pairs)` -/
def ofPairs [DecidableEq κ] (pairs : List (κ × α)) : OrderedDict κ α :=
  pairs.foldl (fun d x => d.set x.1 x.2) empty

lemma assign_of_notMem [DecidableEq κ] {k : κ} {a : α} {l : List (κ × α)}
    (h : k ∉ l.map Prod.fst) : assign k a l = l ++ [(k, a)] := by
  induction l with
  | nil => rfl
  | cons x l ih =>
    obtain ⟨c, b⟩ := x
    simp only [List.map_cons, List.mem_cons, not_or] at h
    simp [assign, Ne.symm h.1, ih h.2]

lemma set_items_of_notMem [DecidableEq κ] {d : OrderedDict κ α} {k : κ} {a : α} (h : k ∉ d.keys) :
    (d.set k a).items = d.items ++ [(k, a)] :=
  assign_of_notMem h

lemma set_size_of_notMem [DecidableEq κ] {d : OrderedDict κ α} {k : κ} {a : α} (h : k ∉ d.keys) :
    (d.set k a).size = d.size + 1 := by
  rw [size, set_items_of_notMem h, List.length_append, List.length_singleton]
  rfl

lemma foldl_set_items [DecidableEq κ] (d : OrderedDict κ α) (pairs : List (κ × α))
    (h : ((d.items ++ pairs).map Prod.fst).Nodup) :
    (pairs.foldl (fun d x => d.set x.1 x.2) d).items = d.items ++ pairs := by
  induction pairs generalizing d with
  | nil => simp
  | cons x l ih =>
    have hx : x.1 ∉ d.items.map Prod.fst := by
      intro hx
      rw [List.map_append, List.map_cons] at h
      exact (List.disjoint_of_nodup_append h) hx List.mem_cons_self
    have hset : (d.set x.1 x.2).items = d.items ++ [x] := assign_of_notMem hx
    rw [List.foldl_cons, ih]
    · rw [hset, List.append_assoc, List.singleton_append]
    · rw [hset, List.append_assoc, List.singleton_append]
      exact h

lemma ofPairs_items [DecidableEq κ] (d : OrderedDict κ α) : ofPairs d.items = d := by
  apply ext_items
  have h := foldl_set_items (empty : OrderedDict κ α) d.items (by simpa [empty] using d.nodup)
  simpa [empty, ofPairs] using h

lemma get_ofPairs [DecidableEq κ] {pairs : List (κ × α)} {k : κ} {a : α} (hnodup : (pairs.map Prod.fst).Nodup)
    (h : (k, a) ∈ pairs) : (ofPairs pairs).get k = some a := by
  rw [get_eq_some]
  have hitems := foldl_set_items (empty : OrderedDict κ α) pairs hnodup
  rw [ofPairs, hitems]
  exact h

/-- The values mapped one by one, where `f` may fail. -/
def traverse [DecidableEq κ] (f : α → Option β) (d : OrderedDict κ α) : Option (OrderedDict κ β) :=
  (d.items.mapM fun x => (f x.2).map fun b => (x.1, b)).map ofPairs

lemma mapM_map_some {f : β → Option α} {g : α → β} (h : ∀ a, f (g a) = some a) (l : List α) :
    (l.map g).mapM f = some l := by
  induction l with
  | nil => rfl
  | cons a l ih => simp [h a, ih]

lemma traverse_mapValues [DecidableEq κ] {f : β → Option α} {g : α → β} (h : ∀ a, f (g a) = some a)
    (d : OrderedDict κ α) : (d.mapValues g).traverse f = some d := by
  simp only [traverse, mapValues]
  rw [mapM_map_some fun x => by rw [h]; rfl, Option.map_some, ofPairs_items]

end OrderedDict

end DistributedStorage.Library

import DistributedStorage.Library.PartialMaps
import Mathlib.Data.List.Nodup

/-! Leases on resources: the record of their grants and ends, each with a note, and who holds what after it. -/

namespace DistributedStorage.Library.Leases

variable {K L A : Type*}

inductive Event (K L A : Type*)
  | granted (k : K) (l : L) (a : A)
  | ended (k : K) (l : L) (a : A)
  deriving DecidableEq

def Event.note : Event K L A → A
  | .granted _ _ a | .ended _ _ a => a

def Event.gives : Event K L A → Option (K × L)
  | .granted k l _ => some (k, l)
  | .ended .. => none

def Event.takes : Event K L A → Option (K × L)
  | .granted .. => none
  | .ended k l _ => some (k, l)

/-- A resource is leased only while it is free, a lease is given once, and what ends is held. -/
inductive Regular [DecidableEq K] : (K → Option L) → List (Event K L A) → Prop
  | nil : Regular (fun _ => none) []
  | grant {held : K → Option L} {es : List (Event K L A)} {k : K} {l : L} {a : A} (h : Regular held es)
    (hfree : held k = none) (hnew : ∀ k b, .granted k l b ∉ es) :
    Regular (Function.update held k (some l)) (es ++ [.granted k l a])
  | finish {held : K → Option L} {es : List (Event K L A)} {k : K} {l : L} {a : A} (h : Regular held es)
    (hheld : held k = some l) : Regular (Function.update held k none) (es ++ [.ended k l a])

variable [DecidableEq K] {held : K → Option L} {es pre post : List (Event K L A)} {k : K} {l m : L} {a b : A}

omit [DecidableEq K] in
lemma mem_concat {x y : Event K L A} (h : x ≠ y) : x ∈ es ++ [y] ↔ x ∈ es := by
  rw [List.mem_append, List.mem_singleton, or_iff_left h]

lemma Regular.granted_of_held (h : Regular held es) (hk : held k = some l) : ∃ b, .granted k l b ∈ es := by
  induction h with
  | nil => cases hk
  | @grant held es j m c _ hfree hnew ih =>
    obtain ⟨rfl, rfl⟩ | ⟨-, hk⟩ := of_update_some hk
    · exact ⟨c, List.mem_append_right _ (List.mem_singleton_self _)⟩
    · exact (ih hk).imp fun _ => List.mem_append_left _
  | @finish held es j m c _ hheld ih =>
    obtain ⟨-, hk⟩ := of_update_none hk
    exact (ih hk).imp fun _ => List.mem_append_left _

lemma Regular.granted_of_ended (h : Regular held es) (he : .ended k l a ∈ es) : ∃ b, .granted k l b ∈ es := by
  induction h with
  | nil => cases he
  | grant _ _ _ ih =>
    rw [mem_concat (by simp)] at he
    exact (ih he).imp fun _ => List.mem_append_left _
  | finish h hheld ih =>
    rcases List.mem_append.mp he with he | he
    · exact (ih he).imp fun _ => List.mem_append_left _
    · cases List.mem_singleton.mp he
      exact (h.granted_of_held hheld).imp fun _ => List.mem_append_left _

/-- What holds is what has been granted and has not ended. -/
lemma Regular.held_iff (h : Regular held es) :
    held k = some l ↔ (∃ a, .granted k l a ∈ es) ∧ ∀ a, .ended k l a ∉ es := by
  induction h with
  | nil => simp
  | @grant held es j m c h hfree hnew ih =>
    have hends : ∀ a, .ended k l a ∉ es ++ [.granted j m c] ↔ .ended k l a ∉ es := fun a =>
      not_congr (mem_concat (by simp))
    simp only [hends]
    by_cases hkj : k = j
    · subst hkj
      rw [Function.update_self, Option.some.injEq]
      constructor
      · rintro rfl
        exact ⟨⟨c, by simp⟩, fun a ha => (h.granted_of_ended ha).elim fun b hb => hnew k b hb⟩
      · rintro ⟨⟨a, ha⟩, hend⟩
        rcases List.mem_append.mp ha with ha | ha
        · have hheld := ih.mpr ⟨⟨a, ha⟩, hend⟩
          rw [hfree] at hheld
          cases hheld
        · cases List.mem_singleton.mp ha
          rfl
    · have hgrants : ∀ a, .granted k l a ∈ es ++ [.granted j m c] ↔ .granted k l a ∈ es := fun a =>
        mem_concat fun heq => hkj (by cases heq; rfl)
      rw [Function.update_of_ne hkj, ih]
      simp only [hgrants]
  | @finish held es j m c h hheld ih =>
    have hgrants : ∀ a, .granted k l a ∈ es ++ [.ended j m c] ↔ .granted k l a ∈ es := fun a =>
      mem_concat (by simp)
    simp only [hgrants]
    by_cases hkj : k = j
    · subst hkj
      rw [Function.update_self]
      refine ⟨fun hnone => (by cases hnone), fun h => ?_⟩
      obtain ⟨hgrant, hend⟩ := h
      have hl : held k = some l := ih.mpr ⟨hgrant, fun a ha => hend a (List.mem_append_left _ ha)⟩
      obtain rfl : m = l := Option.some.inj (hheld.symm.trans hl)
      exact absurd (List.mem_append_right _ (List.mem_singleton_self _)) (hend c)
    · have hends : ∀ a, .ended k l a ∉ es ++ [.ended j m c] ↔ .ended k l a ∉ es := fun a =>
        not_congr (mem_concat fun heq => hkj (by cases heq; rfl))
      rw [Function.update_of_ne hkj, ih]
      simp only [hends]

lemma Regular.gives_nodup (h : Regular held es) : (es.filterMap Event.gives).Nodup := by
  induction h with
  | nil => exact List.nodup_nil
  | @grant held es k l c _ _ hnew ih =>
    rw [List.filterMap_append]
    refine List.Nodup.append ih (List.nodup_singleton _) (List.disjoint_singleton.mpr fun hmem => ?_)
    obtain ⟨e, he, hgives⟩ := List.mem_filterMap.mp hmem
    cases e with
    | granted k l a =>
      cases hgives
      exact hnew k a he
    | ended => cases hgives
  | finish _ _ ih =>
    rw [List.filterMap_append, show List.filterMap Event.gives [.ended _ _ _] = [] from rfl, List.append_nil]
    exact ih

lemma Regular.takes_nodup (h : Regular held es) : (es.filterMap Event.takes).Nodup := by
  induction h with
  | nil => exact List.nodup_nil
  | grant _ _ _ ih =>
    rw [List.filterMap_append, show List.filterMap Event.takes [.granted _ _ _] = [] from rfl, List.append_nil]
    exact ih
  | @finish held es k l c h hheld ih =>
    rw [List.filterMap_append]
    refine List.Nodup.append ih (List.nodup_singleton _) (List.disjoint_singleton.mpr fun hmem => ?_)
    obtain ⟨e, he, htakes⟩ := List.mem_filterMap.mp hmem
    cases e with
    | granted => cases htakes
    | ended k l a =>
      cases htakes
      exact (h.held_iff.mp hheld).2 a he

lemma Regular.of_append (h : Regular held (pre ++ post)) : ∃ held, Regular held pre := by
  generalize hes : pre ++ post = es at h
  induction h generalizing post with
  | nil =>
    obtain ⟨rfl, -⟩ := List.append_eq_nil_iff.mp hes
    exact ⟨_, .nil⟩
  | @grant held es k l a h hfree hnew ih =>
    rcases List.eq_nil_or_concat post with rfl | ⟨post', e, rfl⟩
    · rw [List.append_nil] at hes
      exact ⟨_, hes ▸ h.grant hfree hnew⟩
    · rw [List.concat_eq_append, ← List.append_assoc] at hes
      exact ih (List.append_inj_left' hes rfl)
  | @finish held es k l a h hheld ih =>
    rcases List.eq_nil_or_concat post with rfl | ⟨post', e, rfl⟩
    · rw [List.append_nil] at hes
      exact ⟨_, hes ▸ h.finish hheld⟩
    · rw [List.concat_eq_append, ← List.append_assoc] at hes
      exact ih (List.append_inj_left' hes rfl)

/-- Before a resource is leased, all earlier leases of it have ended. -/
lemma Regular.ended_before (h : Regular held (pre ++ .granted k l a :: post)) (hm : .granted k m b ∈ pre) :
    ∃ c, .ended k m c ∈ pre := by
  have hes : pre ++ .granted k l a :: post = (pre ++ [.granted k l a]) ++ post := by simp
  obtain ⟨now, hnow⟩ := (hes ▸ h).of_append
  generalize hlast : pre ++ [.granted k l a] = es at hnow
  cases hnow with
  | nil => simp at hlast
  | finish _ _ =>
    have hl := List.append_inj_right' hlast rfl
    cases hl
  | grant hpre hfree _ =>
    cases List.append_inj_right' hlast rfl
    obtain rfl := List.append_inj_left' hlast rfl
    by_contra hnone
    have hheld := hpre.held_iff.mpr ⟨⟨b, hm⟩, not_exists.mp hnone⟩
    rw [hfree] at hheld
    cases hheld

end DistributedStorage.Library.Leases

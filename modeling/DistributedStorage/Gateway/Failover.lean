import DistributedStorage.Gateway.Deadlines
import Mathlib.Data.Nat.ModEq

/-! A call of the gateway leaves a node that failed alone until all the others have failed as well. -/

namespace DistributedStorage.Gateway

/-- The nodes that have failed since the marks were last cleared. -/
def failedSince (h : List Happening) : Finset ℕ :=
  h.foldl (fun s x => match x with
    | .failed i => insert i s
    | .cleared => ∅
    | _ => s) ∅

variable {h l : List Happening} {i : ℕ}

@[simp] lemma failedSince_contacted : failedSince (h ++ [.contacted i]) = failedSince h := by
  simp [failedSince]

@[simp] lemma failedSince_failed : failedSince (h ++ [.failed i]) = insert i (failedSince h) := by
  simp [failedSince]

@[simp] lemma failedSince_followed : failedSince (h ++ [.followed]) = failedSince h := by
  simp [failedSince]

@[simp] lemma failedSince_cleared : failedSince (h ++ [.cleared]) = ∅ := by simp [failedSince]

@[simp] lemma failedSince_paused : failedSince (h ++ [.paused]) = failedSince h := by
  simp [failedSince]

lemma failedSince_keeps (hi : i ∈ failedSince h) (hl : .cleared ∉ l) : i ∈ failedSince (h ++ l) := by
  induction l using List.reverseRecOn with
  | nil => rwa [List.append_nil]
  | append_singleton l x ih =>
    rw [List.mem_append, not_or, List.mem_singleton] at hl
    have hprev := ih hl.1
    rw [← List.append_assoc]
    cases x with
    | contacted j => rwa [failedSince_contacted]
    | failed j =>
      rw [failedSince_failed]
      exact Finset.mem_insert_of_mem hprev
    | followed => rwa [failedSince_followed]
    | cleared => exact (hl.2 rfl).elim
    | paused => rwa [failedSince_paused]

/-- Each attempt goes to a node without a mark, and marks are cleared when all of the `n` nodes have one. -/
structure Fair (n : ℕ) (h : List Happening) : Prop where
  contacted : ∀ a i b, h = a ++ .contacted i :: b → i ∉ failedSince a
  cleared : ∀ a b, h = a ++ .cleared :: b → ∀ i < n, i ∈ failedSince a

lemma Fair.nil (n : ℕ) : Fair n [] := by
  constructor
  · intro a i b hab
    simp at hab
  · intro a b hab
    simp at hab

variable {n : ℕ}

lemma split_concat {x y : Happening} {a b : List Happening} (hab : h ++ [x] = a ++ y :: b) :
    (a = h ∧ y = x) ∨ ∃ b', h = a ++ y :: b' := by
  rcases List.eq_nil_or_concat b with rfl | ⟨b', z, rfl⟩
  · obtain ⟨ha, hy⟩ := List.append_inj' hab rfl
    exact .inl ⟨ha.symm, (List.singleton_injective hy).symm⟩
  · refine .inr ⟨b', ?_⟩
    rw [List.concat_eq_append, ← List.cons_append, ← List.append_assoc] at hab
    exact (List.append_inj' hab rfl).1

lemma Fair.concat {x : Happening} (hf : Fair n h) (hc : ∀ i, x = .contacted i → i ∉ failedSince h)
    (hx : x = .cleared → ∀ i < n, i ∈ failedSince h) : Fair n (h ++ [x]) := by
  constructor
  · intro a i b hab
    rcases split_concat hab with ⟨rfl, hy⟩ | ⟨b', hb'⟩
    · exact hc i hy.symm
    · exact hf.contacted a i b' hb'
  · intro a b hab
    rcases split_concat hab with ⟨rfl, hy⟩ | ⟨b', hb'⟩
    · exact hx hy.symm
    · exact hf.cleared a b' hb'

namespace RaftCluster

variable {ρ : Type} {c : RaftCluster} {node : ℕ} {unreachable : Finset ℕ}

lemma exists_step (node : ℕ) {n i : ℕ} (hi : i < n) : ∃ k < n, (node + (k + 1)) % n = i := by
  have hn : 0 < n := Nat.zero_lt_of_lt hi
  have hr := Nat.mod_lt node hn
  refine ⟨(i + (n - 1 - node % n)) % n, Nat.mod_lt _ hn, ?_⟩
  have hmod : node + ((i + (n - 1 - node % n)) % n + 1) ≡ node % n + (i + (n - 1 - node % n) + 1) [MOD n] :=
    Nat.ModEq.add (Nat.mod_modEq node n).symm (Nat.ModEq.add_right 1 (Nat.mod_modEq _ n))
  have hsum : node % n + (i + (n - 1 - node % n) + 1) = i + n := by omega
  rw [hsum] at hmod
  rw [hmod, Nat.add_mod_right, Nat.mod_eq_of_lt hi]

lemma candidate_eq_none (h : c.candidate node unreachable = none) : ∀ i < c.nodeCount, i ∈ unreachable := by
  intro i hi
  obtain ⟨k, hk, rfl⟩ := exists_step node hi
  rw [candidate, List.find?_eq_none] at h
  have hnot := h _ (List.mem_map_of_mem (List.mem_range.mpr hk))
  simpa using hnot

lemma nextNode_unmarked (c : RaftCluster) (node : ℕ) (unreachable : Finset ℕ) :
    (c.nextNode node unreachable).1 ∉ (c.nextNode node unreachable).2.1 := by
  rw [nextNode]
  cases hc : c.candidate node unreachable with
  | none => exact Finset.notMem_empty _
  | some next =>
    have hnot := List.find?_some hc
    simpa using hnot

/-- The record of a call that goes on: the marks are the failures since the last clearing, and the node
that comes next has none. -/
structure Marks (c : RaftCluster) (s : Loop) (h : List Happening) : Prop where
  fair : Fair c.nodeCount h
  unreachable : s.unreachable = failedSince h
  node : s.node ∉ s.unreachable

variable {s s' : Loop} {deadline : ℚ} {t : Turn ρ} {write : Bool}

lemma Marks.contact (hm : c.Marks s h) : Fair c.nodeCount (h ++ [.contacted s.node]) := by
  apply hm.fair.concat
  · rintro i ⟨⟩
    rw [← hm.unreachable]
    exact hm.node
  · intro hx
    cases hx

/-- An attempt, and the mark of the node if it failed. -/
lemma Marks.attempt (hm : c.Marks s h) (hs : Marked s s' l) :
    Fair c.nodeCount (h ++ .contacted s.node :: l) ∧
      s'.unreachable = failedSince (h ++ .contacted s.node :: l) := by
  have hcontact := hm.contact
  obtain ⟨-, -, ⟨rfl, hu⟩ | ⟨rfl, hu⟩⟩ := hs
  · exact ⟨hcontact, by rw [hu, hm.unreachable, failedSince_contacted]⟩
  · have hsplit : h ++ [.contacted s.node, .failed s.node] =
        h ++ [.contacted s.node] ++ [.failed s.node] := by simp
    rw [hsplit]
    refine ⟨hcontact.concat (fun i hi => by cases hi) (fun hi => by cases hi), ?_⟩
    rw [hu, failedSince_failed, failedSince_contacted, hm.unreachable]

/-- Choosing the next node keeps the record fair. -/
lemma fair_nextNode (node : ℕ) {h : List Happening} (hf : Fair c.nodeCount h) (hu : unreachable = failedSince h) :
    Fair c.nodeCount (h ++ (c.nextNode node unreachable).2.2) ∧
      (c.nextNode node unreachable).2.1 = failedSince (h ++ (c.nextNode node unreachable).2.2) := by
  rw [nextNode]
  cases hc : c.candidate node unreachable with
  | none =>
    refine ⟨hf.concat (fun i hi => by cases hi) fun _ => ?_, failedSince_cleared.symm⟩
    rw [← hu]
    exact candidate_eq_none hc
  | some next =>
    dsimp only
    rw [List.append_nil]
    exact ⟨hf, hu⟩

/-- The record of a call after a turn. -/
def Keeps (c : RaftCluster) : Loop ⊕ CallOutcome ρ → List Happening → Prop
  | .inl s, h => c.Marks s h
  | .inr _, h => Fair c.nodeCount h

lemma Marks.turn (hm : c.Marks s h) :
    c.Keeps (c.turn write deadline s t).1 (h ++ (c.turn write deadline s t).2) := by
  have hturn := c.turn_turned write deadline s t
  generalize c.turn write deadline s t = out at hturn
  obtain ⟨p, l⟩ := out
  dsimp only at hturn ⊢
  cases hturn with
  | timedOut o =>
    rw [List.append_nil]
    exact hm.fair
  | settled o hnow => exact hm.contact
  | followed target problem hnow htarget hr =>
    have hsplit : h ++ [.contacted s.node, .followed] = h ++ [.contacted s.node] ++ [.followed] := by simp
    rw [hsplit]
    refine ⟨hm.contact.concat (fun i hi => by cases hi) (fun hi => by cases hi), ?_, htarget⟩
    rw [failedSince_followed, failedSince_contacted]
    exact hm.unreachable
  | wentOn s' l hnow hs =>
    obtain ⟨hfair, hmarks⟩ := hm.attempt hs
    obtain ⟨hnext, hleft⟩ := fair_nextNode s'.node hfair hmarks
    rcases c.goOn_cases deadline t s' with ⟨o, ho⟩ | ⟨-, ho⟩
    · rw [ho, ← List.cons_append, ← List.append_assoc]
      exact hnext
    · rw [ho, ← List.cons_append, ← List.append_assoc, ← List.append_assoc]
      refine ⟨hnext.concat (fun i hi => by cases hi) (fun hi => by cases hi), ?_,
        c.nextNode_unmarked s'.node s'.unreachable⟩
      rw [failedSince_paused]
      exact hleft

lemma call_keeps (c : RaftCluster) (write : Bool) (hint : Fin c.nodeCount) (start : ℚ) (env : ℕ → Turn ρ)
    (k : ℕ) : c.Keeps (c.call write hint start env k).1 (c.call write hint start env k).2 := by
  induction k with
  | zero => exact ⟨Fair.nil _, rfl, Finset.notMem_empty _⟩
  | succ k ih =>
    rw [call]
    cases hc : c.call write hint start env k with
    | mk p h =>
      rw [hc] at ih
      cases p with
      | inl s => exact ih.turn
      | inr o => exact ih

lemma call_fair (c : RaftCluster) (write : Bool) (hint : Fin c.nodeCount) (start : ℚ) (env : ℕ → Turn ρ)
    (k : ℕ) : Fair c.nodeCount (c.call write hint start env k).2 := by
  have hkeeps := c.call_keeps write hint start env k
  cases hp : (c.call write hint start env k).1 with
  | inl s =>
    rw [hp] at hkeeps
    exact hkeeps.fair
  | inr o =>
    rw [hp] at hkeeps
    exact hkeeps

/-- Between a failure of a node and the next attempt at it, the marks are cleared, at a time when every
node has failed since they were cleared before. -/
theorem failover_tries_all (c : RaftCluster) (write : Bool) (hint : Fin c.nodeCount) (start : ℚ)
    (env : ℕ → Turn ρ) (k i : ℕ) (a mid b : List Happening)
    (h : (c.call write hint start env k).2 = a ++ .failed i :: (mid ++ .contacted i :: b)) :
    ∃ m m', mid = m ++ .cleared :: m' ∧ ∀ j < c.nodeCount, j ∈ failedSince (a ++ .failed i :: m) := by
  have hfair := c.call_fair write hint start env k
  have hfailed : i ∈ failedSince (a ++ [.failed i]) := by
    rw [failedSince_failed]
    exact Finset.mem_insert_self i _
  by_cases hclear : .cleared ∈ mid
  · obtain ⟨m, m', rfl⟩ := List.append_of_mem hclear
    refine ⟨m, m', rfl, ?_⟩
    apply hfair.cleared (a ++ .failed i :: m) (m' ++ .contacted i :: b)
    rw [h]
    simp
  · have hmarked := failedSince_keeps hfailed hclear
    refine absurd hmarked (hfair.contacted _ i b ?_)
    rw [h]
    simp

/-- No node can be reached. -/
def lostTurn (k : ℕ) : Turn Unit where
  now := k
  answer := .rpcError .unavailable "connect failed"
  jitter := 1
  later := k

theorem failover_tries_all_lost : ∃ m m', [.paused, .contacted 1, .failed 1, .cleared, .paused] = m ++ .cleared :: m' ∧
    ∀ j < twoNodes.nodeCount, j ∈ failedSince ([.contacted 0] ++ .failed 0 :: m) :=
  failover_tries_all twoNodes true 0 0 lostTurn 3 0 [.contacted 0]
    [.paused, .contacted 1, .failed 1, .cleared, .paused] [.failed 0, .paused] (by decide +kernel)

end RaftCluster

end DistributedStorage.Gateway

import DistributedStorage.Gateway.Calls

/-! A call of the gateway ends: its pauses use up the time it has, and between two of them it follows a few
redirects only. -/

namespace DistributedStorage.Gateway

/-- The clock never goes back, and a pause is slept to its end. -/
def Turn.Timely {ρ : Type} (s : Loop) (t : Turn ρ) : Prop :=
  s.clock ≤ t.now ∧ t.now ≤ t.later ∧ 1 / 2 ≤ t.jitter ∧ t.jitter ≤ 1

/-- The number of attempts. -/
def contacts (h : List Happening) : ℕ := h.countP fun x => x matches .contacted _

def pauses (h : List Happening) : ℕ := h.count .paused

/-- At most three redirects are followed between two pauses, and `r` since the last one. -/
def Streak (r : ℕ) (h : List Happening) : Prop :=
  (∀ m, m <:+ h → Happening.paused ∉ m → m.count .followed ≤ r) ∧
    ∀ m, m <:+: h → Happening.paused ∉ m → m.count .followed ≤ 3

variable {r : ℕ} {h : List Happening} {x : Happening}

lemma Streak.step {r' : ℕ} (hs : Streak r h) (hle : r' ≤ 3)
    (hnew : ∀ m, m <:+ h → Happening.paused ∉ m → Happening.paused ≠ x → m.count .followed ≤ r →
      (m ++ [x]).count .followed ≤ r') : Streak r' (h ++ [x]) := by
  have hend : ∀ m, m <:+ h ++ [x] → Happening.paused ∉ m → m.count .followed ≤ r' := by
    intro m hm hno
    rcases List.suffix_concat_iff.mp hm with rfl | ⟨m', rfl, hm'⟩
    · exact Nat.zero_le _
    · rw [List.mem_append, not_or, List.mem_singleton] at hno
      exact hnew m' hm' hno.1 hno.2 (hs.1 m' hm' hno.1)
  refine ⟨hend, fun m hm hno => ?_⟩
  rcases List.infix_concat_iff.mp hm with hm | hm
  · exact (hend m hm hno).trans hle
  · exact hs.2 m hm hno

lemma Streak.other (hs : Streak r h) (hr : r ≤ 3) (hx : x ≠ .followed) : Streak r (h ++ [x]) := by
  apply hs.step hr
  intro m hm hno hne hle
  rw [List.count_append, List.count_singleton, if_neg (by simpa using hx.symm ∘ Eq.symm)]
  exact hle

lemma Streak.followed (hs : Streak r h) (hr : r < 3) : Streak (r + 1) (h ++ [.followed]) := by
  apply hs.step hr
  intro m hm hno hne hle
  rw [List.count_append, List.count_singleton_self]
  exact Nat.add_le_add_right hle 1

lemma Streak.paused (hs : Streak r h) : Streak 0 (h ++ [.paused]) := by
  apply hs.step (Nat.zero_le 3)
  intro m hm hno hne hle
  exact (hne rfl).elim

lemma Streak.append {l : List Happening} (hs : Streak r h) (hr : r ≤ 3) (hl : .followed ∉ l) (hp : .paused ∉ l) :
    Streak r (h ++ l) := by
  induction l using List.reverseRecOn with
  | nil => rwa [List.append_nil]
  | append_singleton l x ih =>
    rw [List.mem_append, not_or, List.mem_singleton] at hl hp
    rw [← List.append_assoc]
    exact (ih hl.1 hp.1).other hr (Ne.symm hl.2)

/-- While the call goes on: each pause took a fortieth of a second at least, and what was tried since the
last one are the redirects. -/
structure Pace (start deadline : ℚ) (s : Loop) (h : List Happening) : Prop where
  backoff : 1 / 20 ≤ s.backoff
  redirects : s.redirects ≤ 3
  attempts : contacts h ≤ 4 * pauses h + s.redirects
  clock : start + pauses h / 40 ≤ s.clock
  inTime : h = [] ∨ s.clock < deadline
  streak : Streak s.redirects h

/-- When it is over. -/
structure Spent (start deadline : ℚ) (h : List Happening) : Prop where
  attempts : contacts h = 0 ∨ (start < deadline ∧ (contacts h : ℚ) ≤ 4 * (40 * (deadline - start) + 1))
  streak : ∀ m, m <:+: h → Happening.paused ∉ m → m.count .followed ≤ 3

variable {ρ : Type} {c : RaftCluster} {start deadline : ℚ} {s : Loop} {t : Turn ρ}

lemma Pace.attempted (hp : Pace start deadline s h) (ht : t.Timely s) (hnow : t.now < deadline) :
    start < deadline ∧ (contacts h + 1 : ℚ) ≤ 4 * (40 * (deadline - start) + 1) := by
  have hclock := hp.clock
  have hattempts : (contacts h : ℚ) ≤ 4 * pauses h + s.redirects := by exact_mod_cast hp.attempts
  have hredirects : (s.redirects : ℚ) ≤ 3 := by exact_mod_cast hp.redirects
  have hpauses : (0 : ℚ) ≤ pauses h := Nat.cast_nonneg _
  have hreading := ht.1
  constructor
  · linarith
  · linarith

lemma Pace.spent (hp : Pace start deadline s h) : Spent start deadline h := by
  refine ⟨?_, hp.streak.2⟩
  rcases hp.inTime with rfl | hin
  · exact .inl rfl
  · have hclock := hp.clock
    have hattempts : (contacts h : ℚ) ≤ 4 * pauses h + s.redirects := by exact_mod_cast hp.attempts
    have hredirects : (s.redirects : ℚ) ≤ 3 := by exact_mod_cast hp.redirects
    have hpauses : (0 : ℚ) ≤ pauses h := Nat.cast_nonneg _
    refine .inr ⟨?_, ?_⟩
    · linarith
    · linarith

lemma contacts_append (h l : List Happening) : contacts (h ++ l) = contacts h + contacts l :=
  List.countP_append

lemma pauses_append (h l : List Happening) : pauses (h ++ l) = pauses h + pauses l := List.count_append

/-- Marks and clearings only. -/
def Quiet (l : List Happening) : Prop := ∀ x ∈ l, (∃ i, x = .failed i) ∨ x = .cleared

variable {l : List Happening} {n : ℕ}

lemma Quiet.contacts (hl : Quiet l) : contacts (.contacted n :: l) = 1 := by
  have hrest : Gateway.contacts l = 0 := by
    rw [Gateway.contacts, List.countP_eq_zero]
    intro x hx
    obtain ⟨i, rfl⟩ | rfl := hl x hx
    · exact Bool.false_ne_true
    · exact Bool.false_ne_true
  rw [Gateway.contacts, List.countP_cons_of_pos rfl, ← Gateway.contacts, hrest]

lemma Quiet.pauses (hl : Quiet l) : pauses (.contacted n :: l) = 0 := by
  rw [Gateway.pauses, List.count_eq_zero, List.mem_cons, not_or]
  refine ⟨by simp, fun hx => ?_⟩
  obtain ⟨i, hi⟩ | hi := hl _ hx
  · cases hi
  · cases hi

lemma Quiet.streak (hl : Quiet l) (hs : Streak r h) (hr : r ≤ 3) : Streak r (h ++ .contacted n :: l) := by
  have hno : ∀ x : Happening, (∀ i, x ≠ .contacted i) → (∀ i, x ≠ .failed i) → x ≠ .cleared →
      x ∉ Happening.contacted n :: l := by
    intro x hc hf hcl hx
    rcases List.mem_cons.mp hx with rfl | hx
    · exact hc n rfl
    · obtain ⟨i, rfl⟩ | rfl := hl x hx
      · exact hf i rfl
      · exact hcl rfl
  apply hs.append hr
  · exact hno .followed (by simp) (by simp) (by simp)
  · exact hno .paused (by simp) (by simp) (by simp)

lemma Quiet.nil : Quiet [] := fun _ h => (List.not_mem_nil h).elim

lemma RaftCluster.nextNode_quiet (c : RaftCluster) (node : ℕ) (unreachable : Finset ℕ) :
    Quiet (c.nextNode node unreachable).2.2 := by
  rcases c.nextNode_happenings node unreachable with h | h
  · rw [h]
    exact Quiet.nil
  · rw [h]
    intro x hx
    exact .inr (List.mem_singleton.mp hx)

lemma RaftCluster.Marked.quiet {s' : Loop} (hm : RaftCluster.Marked s s' l) : Quiet l := by
  obtain ⟨-, -, ⟨rfl, -⟩ | ⟨rfl, -⟩⟩ := hm
  · exact Quiet.nil
  · intro x hx
    exact .inl ⟨s.node, List.mem_singleton.mp hx⟩

lemma Quiet.append {m : List Happening} (hl : Quiet l) (hm : Quiet m) : Quiet (l ++ m) := by
  intro x hx
  rcases List.mem_append.mp hx with hx | hx
  · exact hl x hx
  · exact hm x hx

lemma Pace.last (hp : Pace start deadline s h) (ht : t.Timely s) (hnow : t.now < deadline) (hl : Quiet l) :
    Spent start deadline (h ++ .contacted n :: l) := by
  obtain ⟨hstart, hbound⟩ := hp.attempted ht hnow
  refine ⟨.inr ⟨hstart, ?_⟩, (hl.streak hp.streak hp.redirects).2⟩
  rw [contacts_append, hl.contacts]
  exact_mod_cast hbound

lemma Pace.follow (hp : Pace start deadline s h) (ht : t.Timely s) (hnow : t.now < deadline)
    (hr : s.redirects < 3) (target : ℕ) (problem : String) : Pace start deadline
      { s with
        node := target
        redirects := s.redirects + 1
        lastProblem := problem
        clock := t.now } (h ++ [.contacted n, .followed]) := by
  have happend : h ++ [.contacted n, .followed] = h ++ [.contacted n] ++ [.followed] := by simp
  have hpauses : pauses (h ++ [.contacted n, .followed]) = pauses h := pauses_append h _
  have hcontacts : contacts (h ++ [.contacted n, .followed]) = contacts h + 1 := contacts_append h _
  refine ⟨hp.backoff, hr, ?_, ?_, .inr hnow, ?_⟩
  · rw [hcontacts, hpauses]
    have := hp.attempts
    dsimp only
    omega
  · rw [hpauses]
    exact hp.clock.trans ht.1
  · rw [happend]
    exact (Quiet.nil.streak hp.streak hp.redirects).followed hr

lemma Pace.pause (hp : Pace start deadline s h) (ht : t.Timely s) (hl : Quiet l) (s' : Loop)
    (hbackoff : s'.backoff = min (s.backoff * 2) (1 / 2)) (hredirects : s'.redirects = 0)
    (hclock : s'.clock = t.later + s.backoff * t.jitter) (hin : s'.clock < deadline) :
    Pace start deadline s' (h ++ (.contacted n :: (l ++ [.paused]))) := by
  obtain ⟨hnow, hlater, hjitter, -⟩ := ht
  have happend : h ++ (.contacted n :: (l ++ [.paused])) = h ++ .contacted n :: l ++ [.paused] := by simp
  have hpauses : pauses (h ++ (.contacted n :: (l ++ [.paused]))) = pauses h + 1 := by
    rw [happend, pauses_append, pauses_append, hl.pauses]
    rfl
  have hcontacts : contacts (h ++ (.contacted n :: (l ++ [.paused]))) = contacts h + 1 := by
    rw [happend, contacts_append, contacts_append, hl.contacts]
    rfl
  -- half of the least backoff is a fortieth
  have hlong : 1 / 40 ≤ s.backoff * t.jitter := by
    calc (1 / 40 : ℚ) = 1 / 20 * (1 / 2) := by norm_num
      _ ≤ s.backoff * t.jitter := mul_le_mul hp.backoff hjitter (by norm_num) (by linarith [hp.backoff])
  refine ⟨?_, ?_, ?_, ?_, .inr hin, ?_⟩
  · rw [hbackoff]
    exact le_min (by linarith [hp.backoff]) (by norm_num)
  · rw [hredirects]
    exact Nat.zero_le 3
  · have hattempts := hp.attempts
    have hfew := hp.redirects
    omega
  · rw [hpauses, hclock, Nat.cast_add, Nat.cast_one]
    linarith [hp.clock]
  · rw [happend, hredirects]
    exact (hl.streak hp.streak hp.redirects).paused

/-- The state of a call after a turn. -/
def Going (start deadline : ℚ) : Loop ⊕ CallOutcome ρ → List Happening → Prop
  | .inl s, h => Pace start deadline s h
  | .inr _, h => Spent start deadline h

lemma Pace.turn (hp : Pace start deadline s h) (ht : t.Timely s) (write : Bool) :
    Going start deadline (c.turn write deadline s t).1 (h ++ (c.turn write deadline s t).2) := by
  have hturn := c.turn_turned write deadline s t
  generalize c.turn write deadline s t = out at hturn
  obtain ⟨p, l⟩ := out
  dsimp only at hturn ⊢
  cases hturn with
  | timedOut o =>
    rw [List.append_nil]
    exact hp.spent
  | settled o hnow => exact hp.last ht hnow Quiet.nil
  | followed target problem hnow htarget hr => exact hp.follow ht hnow hr target problem
  | wentOn s' l hnow hm =>
    have hquiet := hm.quiet.append (c.nextNode_quiet s'.node s'.unreachable)
    rcases c.goOn_cases deadline t s' with ⟨o, ho⟩ | ⟨hin, ho⟩
    · rw [ho]
      exact hp.last ht hnow hquiet
    · rw [ho, ← List.append_assoc]
      rw [hm.2.1] at hin ⊢
      exact hp.pause ht hquiet _ rfl rfl rfl hin

lemma call_going {write : Bool} {hint : Fin c.nodeCount} {env : ℕ → Turn ρ}
    (ht : ∀ k s, (c.call write hint start env k).1 = .inl s → (env k).Timely s) (k : ℕ) :
    Going start (start + c.requestDeadline) (c.call write hint start env k).1
      (c.call write hint start env k).2 := by
  induction k with
  | zero =>
    refine ⟨le_rfl, Nat.zero_le 3, le_rfl, ?_, .inl rfl, ?_⟩
    · simp [RaftCluster.begin, RaftCluster.call, pauses]
    · constructor
      · intro m hm hno
        rw [List.suffix_nil.mp hm]
        exact le_rfl
      · intro m hm hno
        rw [List.infix_nil.mp hm]
        exact Nat.zero_le 3
  | succ k ih =>
    have hk := ht k
    rw [RaftCluster.call]
    cases hc : c.call write hint start env k with
    | mk p h =>
      rw [hc] at ih hk
      cases p with
      | inl s => exact ih.turn (hk s rfl) write
      | inr o => exact ih

lemma turn_contacts {write : Bool} {s' : Loop} (h : (c.turn write deadline s t).1 = .inl s') :
    contacts (c.turn write deadline s t).2 = 1 := by
  have hturn := c.turn_turned write deadline s t
  generalize c.turn write deadline s t = out at hturn h
  obtain ⟨p, l⟩ := out
  dsimp only at hturn h ⊢
  cases hturn with
  | timedOut o => cases h
  | settled o hnow => cases h
  | followed target problem hnow htarget hr => rfl
  | wentOn s₁ l hnow hm =>
    have hquiet := hm.quiet.append (c.nextNode_quiet s₁.node s₁.unreachable)
    rcases c.goOn_cases deadline t s₁ with ⟨o, ho⟩ | ⟨hin, ho⟩
    · rw [ho] at h
      cases h
    · have happend : Happening.contacted s.node ::
          (l ++ ((c.nextNode s₁.node s₁.unreachable).2.2 ++ [.paused])) =
            .contacted s.node :: (l ++ (c.nextNode s₁.node s₁.unreachable).2.2) ++ [.paused] := by simp
      rw [ho, happend, contacts_append, hquiet.contacts]
      rfl

lemma call_contacts {write : Bool} {hint : Fin c.nodeCount} {env : ℕ → Turn ρ} {k : ℕ}
    (h : (c.call write hint start env k).1 = .inl s) : contacts (c.call write hint start env k).2 = k := by
  induction k generalizing s with
  | zero => rfl
  | succ k ih =>
    rw [RaftCluster.call] at h ⊢
    cases hc : c.call write hint start env k with
    | mk p l =>
      rw [hc] at ih h
      cases p with
      | inl s' =>
        dsimp only at h ⊢
        rw [contacts_append, ih rfl, turn_contacts h]
      | inr o => cases h

/-- A call ends after a bounded number of attempts, whatever the nodes answer. -/
theorem call_terminates (c : RaftCluster) (write : Bool) (hint : Fin c.nodeCount) (start : ℚ)
    (env : ℕ → Turn ρ)
    (ht : ∀ k s, (c.call write hint start env k).1 = .inl s → (env k).Timely s) :
    (∃ k o, (c.call write hint start env k).1 = .inr o) ∧
    ∀ k, (0 ≤ c.requestDeadline →
        (contacts (c.call write hint start env k).2 : ℚ) ≤ 4 * (40 * c.requestDeadline + 1)) ∧
      (c.requestDeadline ≤ 0 → contacts (c.call write hint start env k).2 = 0) ∧
      ∀ m, m <:+: (c.call write hint start env k).2 → .paused ∉ m → m.count .followed ≤ 3 := by
  have hspent : ∀ k, Spent start (start + c.requestDeadline) (c.call write hint start env k).2 := by
    intro k
    have hgoing := call_going ht k
    cases hp : (c.call write hint start env k).1 with
    | inl s =>
      rw [hp] at hgoing
      exact hgoing.spent
    | inr o =>
      rw [hp] at hgoing
      exact hgoing
  constructor
  · by_contra hnever
    push Not at hnever
    obtain ⟨k, hk⟩ := exists_nat_gt (max 0 (4 * (40 * c.requestDeadline + 1)))
    cases hp : (c.call write hint start env k).1 with
    | inr o => exact hnever k o hp
    | inl s =>
      have hcount := call_contacts hp
      rcases (hspent k).attempts with hzero | ⟨-, hle⟩
      · rw [← hcount, hzero] at hk
        exact absurd hk (not_lt.mpr (le_max_left _ _))
      · rw [hcount, add_sub_cancel_left] at hle
        exact absurd hk (not_lt.mpr (hle.trans (le_max_right _ _)))
  · intro k
    refine ⟨fun hD => ?_, fun hD => ?_, (hspent k).streak⟩
    · rcases (hspent k).attempts with hzero | ⟨-, hle⟩
      · rw [hzero, Nat.cast_zero]
        linarith
      · rwa [add_sub_cancel_left] at hle
    · rcases (hspent k).attempts with hzero | ⟨hlt, -⟩
      · exact hzero
      · linarith

/-- Two nodes, of which the second is the leader. -/
def twoNodes : RaftCluster where
  addresses := ["a:1", "b:2"]
  nonempty := by decide
  rpcTimeout := 3
  requestDeadline := 12
  deadlineText := "12"
  isDigit := Char.isDigit
  decimal := asciiDigit

/-- The first node names the leader, which answers. -/
def redirectedTurn (k : ℕ) : Turn Unit where
  now := k
  answer := .response (k ≠ 0) "NOT_LEADER:1:b:2" ()
  jitter := 1
  later := k

theorem call_terminates_redirected :
    contacts (twoNodes.call true 0 0 redirectedTurn 2).2 = 2 ∧
      (contacts (twoNodes.call true 0 0 redirectedTurn 2).2 : ℚ) ≤ 4 * (40 * 12 + 1) := by
  have hfirst : (twoNodes.call true 0 0 redirectedTurn 1).1 =
      .inl ⟨1, 1 / 20, ∅, 1, false, "a:1 is not the leader", 0⟩ := by decide +kernel
  have hsecond : (twoNodes.call true 0 0 redirectedTurn 2).1 = .inr (.returned () 1) := by decide +kernel
  have hended : ∀ k, (twoNodes.call true 0 0 redirectedTurn (k + 2)).1 = .inr (.returned () 1) := by
    intro k
    induction k with
    | zero => exact hsecond
    | succ k ih =>
      rw [RaftCluster.call]
      generalize twoNodes.call true 0 0 redirectedTurn (k + 2) = out at ih
      obtain ⟨p, h⟩ := out
      cases ih
      rfl
  refine ⟨by decide +kernel, ?_⟩
  refine ((call_terminates twoNodes true 0 0 redirectedTurn ?_).2 2).1 (by decide +kernel)
  intro k s hs
  match k with
  | 0 =>
    cases hs
    exact ⟨le_rfl, le_rfl, by norm_num [redirectedTurn], le_rfl⟩
  | 1 =>
    rw [hfirst] at hs
    cases hs
    exact ⟨by norm_num [redirectedTurn], le_rfl, by norm_num [redirectedTurn], le_rfl⟩
  | k + 2 =>
    rw [hended k] at hs
    cases hs

end DistributedStorage.Gateway

import Mathlib.Data.Fintype.Card
import Mathlib.Data.List.TakeDrop
import Mathlib.Logic.Relation
import Mathlib.Tactic.Common

/-! Replication by elected leaders, in the abstract: numbered terms, at most one leader log per term,
participants that vote, accept prefixes of leader logs and acknowledge them. -/

namespace DistributedStorage.Library.LeaderLogs

variable {ι E : Type*}

/-- More than half of all participants. -/
def Majority [Fintype ι] (Q : Finset ι) : Prop :=
  Fintype.card ι / 2 + 1 ≤ Q.card

lemma Majority.meet [Fintype ι] [DecidableEq ι] {P Q : Finset ι} (hp : Majority P)
    (hq : Majority Q) : ∃ i ∈ P, i ∈ Q := by
  have hlt : (Finset.univ : Finset ι).card < P.card + Q.card := by
    rw [Finset.card_univ]
    unfold Majority at hp hq
    omega
  obtain ⟨i, hi⟩ := Finset.inter_nonempty_of_card_lt_card_add_card (Finset.subset_univ P)
    (Finset.subset_univ Q) hlt
  exact ⟨i, Finset.mem_of_mem_inter_left hi, Finset.mem_of_mem_inter_right hi⟩

lemma Majority.exists_mem [Fintype ι] {P : Finset ι} (hp : Majority P) : ∃ i, i ∈ P := by
  have hpos : 0 < P.card := by unfold Majority at hp; omega
  exact Finset.card_pos.mp hpos

/-- `cur` and `log` are what a participant holds. The rest is history: the log of the leader of a
term (empty while there is none), the log it was elected with, how much of it a participant has
acknowledged, and the logs participants held when they voted. -/
structure State (ι E : Type*) where
  cur : ι → ℕ
  log : ι → List E
  leaderLog : ℕ → List E
  electionLog : ℕ → List E
  acked : ι → ℕ → ℕ
  ballot : ι → ℕ → List E → Prop

def State.init (ι E : Type*) : State ι E where
  cur _ := 0
  log _ := []
  leaderLog _ := []
  electionLog _ := []
  acked _ _ := 0
  ballot _ _ _ := False

variable (term : E → ℕ)

def lastTerm (l : List E) : ℕ :=
  (l.getLast?.map term).getD 0

/-- The comparison a voter makes: `l` is at least as up to date as `v`. -/
def UpToDate (l v : List E) : Prop :=
  lastTerm term v < lastTerm term l ∨ (lastTerm term v = lastTerm term l ∧ v.length ≤ l.length)

section Steps

variable [DecidableEq ι]

/-- Records that `i` acknowledges `k` entries of the leader log of term `t`. -/
def State.acknowledge (a : State ι E) (i : ι) (t k : ℕ) : State ι E :=
  { a with
    acked := Function.update a.acked i (Function.update (a.acked i) t (max (a.acked i t) k)) }

def State.setLog (a : State ι E) (i : ι) (l : List E) : State ι E :=
  { a with log := Function.update a.log i l }

section

variable (a : State ι E) (i j : ι) (t k : ℕ) (l : List E)

@[simp] lemma acknowledge_cur : (a.acknowledge i t k).cur = a.cur := rfl
@[simp] lemma acknowledge_log : (a.acknowledge i t k).log = a.log := rfl
@[simp] lemma acknowledge_leaderLog : (a.acknowledge i t k).leaderLog = a.leaderLog := rfl
@[simp] lemma acknowledge_electionLog : (a.acknowledge i t k).electionLog = a.electionLog := rfl
@[simp] lemma acknowledge_ballot : (a.acknowledge i t k).ballot = a.ballot := rfl
@[simp] lemma setLog_cur : (a.setLog i l).cur = a.cur := rfl
@[simp] lemma setLog_leaderLog : (a.setLog i l).leaderLog = a.leaderLog := rfl
@[simp] lemma setLog_electionLog : (a.setLog i l).electionLog = a.electionLog := rfl
@[simp] lemma setLog_acked : (a.setLog i l).acked = a.acked := rfl
@[simp] lemma setLog_ballot : (a.setLog i l).ballot = a.ballot := rfl
@[simp] lemma setLog_log_self : (a.setLog i l).log i = l := by simp [State.setLog]

@[simp] lemma acknowledge_acked_self :
    (a.acknowledge i t k).acked i t = max (a.acked i t) k := by
  simp [State.acknowledge]

variable {a i j t k l}

lemma setLog_log_of_ne (h : j ≠ i) : (a.setLog i l).log j = a.log j := by
  simp [State.setLog, h]

lemma acknowledge_acked_of_ne {u : ℕ} (h : ¬(j = i ∧ u = t)) :
    (a.acknowledge i t k).acked j u = a.acked j u := by
  by_cases hj : j = i
  · have hu : u ≠ t := fun hu => h ⟨hj, hu⟩
    subst hj
    simp [State.acknowledge, hu]
  · simp [State.acknowledge, hj]

end

/-- A leader's log grows by one entry, which it acknowledges itself. -/
def State.lead (a : State ι E) (i : ι) (e : E) : State ι E :=
  (({ a with leaderLog := Function.update a.leaderLog (a.cur i) (a.log i ++ [e]) }).setLog i
    (a.log i ++ [e])).acknowledge i (a.cur i) ((a.log i).length + 1)

/-- What is left in a log `l` that accepts the prefix `p` of a leader log. -/
def accepted (l p : List E) [Decidable (p <+: l)] : List E :=
  if p <+: l then l else p

open scoped Classical in
inductive Step [Fintype ι] : State ι E → State ι E → Prop
  | raise (a : State ι E) (i : ι) (t : ℕ) : a.cur i < t →
      Step a { a with cur := Function.update a.cur i t }
  | vote (a : State ι E) (i : ι) : a.leaderLog (a.cur i) = [] →
      Step a { a with
        ballot := fun j u l => a.ballot j u l ∨ (j = i ∧ u = a.cur i ∧ l = a.log i) }
  | elect (a : State ι E) (i : ι) (e : E) : a.leaderLog (a.cur i) = [] → term e = a.cur i →
      (∃ Q : Finset ι, Majority Q ∧
        ∀ j ∈ Q, ∃ v, a.ballot j (a.cur i) v ∧ UpToDate term (a.log i) v) →
      Step a { a.lead i e with
        electionLog := Function.update a.electionLog (a.cur i) (a.log i) }
  | extend (a : State ι E) (i : ι) (e : E) : a.leaderLog (a.cur i) = a.log i → a.log i ≠ [] →
      term e = a.cur i →
      Step a (a.lead i e)
  | accept (a : State ι E) (i : ι) (k : ℕ) : k ≤ (a.leaderLog (a.cur i)).length →
      Step a ((a.setLog i (accepted (a.log i) ((a.leaderLog (a.cur i)).take k))).acknowledge i
        (a.cur i) k)

end Steps

/-- Every prefix of `l` that ends in an entry of some term is a prefix of that term's leader log. -/
def Rooted (a : State ι E) (l : List E) : Prop :=
  ∀ p e, l[p]? = some e → l.take (p + 1) <+: a.leaderLog (term e)

/-- The first `k` entries of the leader log of term `t`. -/
def State.prefixOf (a : State ι E) (t k : ℕ) : List E := (a.leaderLog t).take k

/-- Every leader elected after term `t` and up to term `n` was elected with the first `k` entries of
the leader log of `t`. -/
def Carried (a : State ι E) (t k n : ℕ) : Prop :=
  ∀ u, t < u → u ≤ n → a.leaderLog u ≠ [] → a.prefixOf t k <+: a.electionLog u

/-- A majority has acknowledged `k` entries of the leader log of `t`, the last one from `t` itself. -/
def Committed [Fintype ι] (a : State ι E) (t k : ℕ) : Prop :=
  (∃ Q : Finset ι, Majority Q ∧ ∀ i ∈ Q, k ≤ a.acked i t) ∧
    ∃ e, (a.leaderLog t)[k - 1]? = some e ∧ term e = t ∧ 0 < k

structure Inv [Fintype ι] (a : State ι E) : Prop where
  rooted_log : ∀ i, Rooted term a (a.log i)
  rooted_leader : ∀ t, Rooted term a (a.leaderLog t)
  rooted_ballot : ∀ i u l, a.ballot i u l → Rooted term a l
  log_terms : ∀ i, ∀ e ∈ a.log i, term e ≤ a.cur i
  shape : ∀ t, a.leaderLog t ≠ [] →
    ∃ es, a.leaderLog t = a.electionLog t ++ es ∧ ∀ e ∈ es, term e = t
  election_terms : ∀ t, ∀ e ∈ a.electionLog t, term e < t
  sorted : ∀ t, ((a.leaderLog t).map term).Pairwise (· ≤ ·)
  ballot_cur : ∀ i u l, a.ballot i u l → u ≤ a.cur i
  acked_le : ∀ i t, a.acked i t ≤ (a.leaderLog t).length
  acked_cur : ∀ i t, 0 < a.acked i t → t ≤ a.cur i
  keeps : ∀ i t k, k ≤ a.acked i t → Carried a t k (a.cur i) → a.prefixOf t k <+: a.log i
  ballot_keeps : ∀ i t k u l, k ≤ a.acked i t → t < u → a.ballot i u l → Carried a t k (u - 1) →
    a.prefixOf t k <+: l
  elected : ∀ u, a.leaderLog u ≠ [] → ∃ Q : Finset ι, Majority Q ∧
    ∀ i ∈ Q, ∃ v, a.ballot i u v ∧ UpToDate term (a.electionLog u) v

end DistributedStorage.Library.LeaderLogs

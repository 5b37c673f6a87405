import Mathlib.Algebra.Order.Archimedean.Basic
import Mathlib.Data.Finset.Basic
import Mathlib.Tactic.Linarith
import Mathlib.Tactic.NormNum

/-! One call of the gateway to the store: it follows redirects, goes round the nodes that fail, and pauses
with a growing backoff until its deadline. What the network, the clock and the dice do is given turn by
turn. -/

namespace DistributedStorage.Gateway

/-- `isDigit` and `decimal` are the Unicode properties behind `str.isdigit` and `int`; `deadlineText` is
how an error message prints the deadline. -/
structure RaftCluster where
  addresses : List String
  nonempty : addresses ≠ []
  rpcTimeout : ℚ
  requestDeadline : ℚ
  deadlineText : String
  isDigit : Char → Bool
  decimal : Char → Option ℕ

inductive StatusCode
  | unavailable
  | deadlineExceeded
  | other (name : String)
  deriving DecidableEq

namespace StatusCode

def name : StatusCode → String
  | unavailable => "UNAVAILABLE"
  | deadlineExceeded => "DEADLINE_EXCEEDED"
  | other name => name

/-- Worth another node. -/
def retryable : StatusCode → Bool
  | unavailable | deadlineExceeded => true
  | other _ => false

end StatusCode

inductive Answer (ρ : Type)
  | rpcError (code : StatusCode) (details : String)
  | response (success : Bool) (errorMessage : String) (resp : ρ)

inductive CallOutcome (ρ : Type)
  | returned (resp : ρ) (leaderHint : ℕ)
  | storeError (message : String)
  | writeOutcomeUnknown (message : String)
  | clusterUnavailable (message : String)
  | valueError (message : String)
  deriving DecidableEq

/-- What one turn of the loop meets: the clock before the attempt, the answer, the random factor of the
pause, and the clock before the pause. -/
structure Turn (ρ : Type) where
  now : ℚ
  answer : Answer ρ
  jitter : ℚ
  later : ℚ

/-- `clock` is the time that the next reading of the clock cannot be before. -/
structure Loop where
  node : ℕ
  backoff : ℚ
  unreachable : Finset ℕ
  redirects : ℕ
  maybeApplied : Bool
  lastProblem : String
  clock : ℚ
  deriving DecidableEq

/-- What can be seen of a call. -/
inductive Happening
  | contacted (node : ℕ)
  | failed (node : ℕ)
  | followed
  | cleared
  | paused
  deriving DecidableEq

/-- `s.split(":", n)` -/
def splitColon : ℕ → List Char → List (List Char)
  | 0, s => [s]
  | n + 1, s =>
    if ':' ∈ s then s.takeWhile (· ≠ ':') :: splitColon n (s.dropWhile (· ≠ ':')).tail else [s]

/-- `int(s)` for a text of digits; `decimal` is the value of a decimal digit. -/
def int (decimal : Char → Option ℕ) (s : List Char) : Except String ℕ :=
  if 4300 < s.length then
    .error ("Exceeds the limit (4300 digits) for integer string conversion: value has " ++
      toString s.length ++ " digits; use sys.set_int_max_str_digits() to increase the limit")
  else match s.mapM decimal with
    | some digits => .ok (digits.foldl (fun n d => n * 10 + d) 0)
    | none => .error ("invalid literal for int() with base 10: '" ++ String.ofList s ++ "'")

/-- The value of a decimal digit in ASCII. -/
def asciiDigit (d : Char) : Option ℕ := if d.isDigit then some (d.toNat - 48) else none

namespace RaftCluster

variable {ρ : Type} (c : RaftCluster)

def nodeCount : ℕ := c.addresses.length

instance : NeZero c.nodeCount := ⟨(List.length_pos_iff.mpr c.nonempty).ne'⟩

def address (node : ℕ) : String := c.addresses.getD node ""

/-- `_by_address`: of two nodes with one address, the later. -/
def byAddress (address : String) : Option ℕ :=
  (List.range c.nodeCount).reverse.find? fun i => c.address i = address

def redirectTarget (errorMessage : String) : Except String (Option ℕ) :=
  let parts := splitColon 2 errorMessage.toList
  let leaderId := parts.getD 1 []
  let address := parts.getD 2 []
  match c.byAddress (String.ofList address) with
  | some node => .ok (some node)
  | none =>
    if leaderId ≠ [] ∧ leaderId.all c.isDigit then
      match int c.decimal leaderId with
      | .ok id => .ok (if id < c.nodeCount then some id else none)
      | .error exc => .error exc
    else .ok none

/-- The first node after `node` that has not failed. -/
def candidate (node : ℕ) (unreachable : Finset ℕ) : Option ℕ :=
  ((List.range c.nodeCount).map fun step => (node + (step + 1)) % c.nodeCount).find? fun i => i ∉ unreachable

def nextNode (node : ℕ) (unreachable : Finset ℕ) : ℕ × Finset ℕ × List Happening :=
  match c.candidate node unreachable with
  | some next => (next, unreachable, [])
  | none => ((node + 1) % c.nodeCount, ∅, [.cleared])

def giveUp (s : Loop) : CallOutcome ρ :=
  if s.maybeApplied then
    .writeOutcomeUnknown ("write not confirmed within " ++ c.deadlineText ++ "s (" ++ s.lastProblem ++ ")")
  else .clusterUnavailable ("no leader reachable within " ++ c.deadlineText ++ "s (" ++ s.lastProblem ++ ")")

/-- The end of a turn: the pause, unless it would last to the deadline. -/
def pause (deadline : ℚ) (t : Turn ρ) (s : Loop) : (Loop ⊕ CallOutcome ρ) × List Happening :=
  let p := s.backoff * t.jitter
  if deadline ≤ t.later + p then (.inr (c.giveUp s), [])
  else (.inl { s with backoff := min (s.backoff * 2) (1 / 2), clock := t.later + p }, [.paused])

/-- Going on to the next node. -/
def goOn (deadline : ℚ) (t : Turn ρ) (s : Loop) : (Loop ⊕ CallOutcome ρ) × List Happening :=
  let next := c.nextNode s.node s.unreachable
  let r := c.pause deadline t { s with node := next.1, unreachable := next.2.1, redirects := 0 }
  (r.1, next.2.2 ++ r.2)

def turn (write : Bool) (deadline : ℚ) (s : Loop) (t : Turn ρ) :
    (Loop ⊕ CallOutcome ρ) × List Happening :=
  if min c.rpcTimeout (deadline - t.now) ≤ 0 then (.inr (c.giveUp s), [])
  else match t.answer with
    | .rpcError code details =>
      if code.retryable then
        let r := c.goOn deadline t { s with
          maybeApplied := s.maybeApplied || write
          unreachable := insert s.node s.unreachable
          lastProblem := c.address s.node ++ " " ++ code.name }
        (r.1, .contacted s.node :: .failed s.node :: r.2)
      else (.inr (.storeError (c.address s.node ++ ": " ++ code.name ++ ": " ++ details)),
        [.contacted s.node])
    | .response success errorMessage resp =>
      if success then (.inr (.returned resp s.node), [.contacted s.node])
      else if ¬"NOT_LEADER:".toList <+: errorMessage.toList then
        (.inr (.storeError (c.address s.node ++ ": " ++ errorMessage)), [.contacted s.node])
      else
        let s := { s with lastProblem := c.address s.node ++ " is not the leader" }
        match c.redirectTarget errorMessage with
        | .error exc => (.inr (.valueError exc), [.contacted s.node])
        | .ok (some target) =>
          if target ≠ s.node ∧ target ∉ s.unreachable ∧ s.redirects < 3 then
            (.inl { s with node := target, redirects := s.redirects + 1, clock := t.now },
              [.contacted s.node, .followed])
          else
            let r := c.goOn deadline t s
            (r.1, .contacted s.node :: r.2)
        | .ok none =>
          let r := c.goOn deadline t s
          (r.1, .contacted s.node :: r.2)

def begin (hint : Fin c.nodeCount) (start : ℚ) : Loop where
  node := hint
  backoff := 1 / 20
  unreachable := ∅
  redirects := 0
  maybeApplied := false
  lastProblem := "no attempt finished"
  clock := start

/-- The call after `k` turns, and what has happened. -/
def call (write : Bool) (hint : Fin c.nodeCount) (start : ℚ) (env : ℕ → Turn ρ) :
    ℕ → (Loop ⊕ CallOutcome ρ) × List Happening
  | 0 => (.inl (c.begin hint start), [])
  | k + 1 =>
    match call write hint start env k with
    | (.inl s, h) =>
      let r := c.turn write (start + c.requestDeadline) s (env k)
      (r.1, h ++ r.2)
    | (.inr o, h) => (.inr o, h)

/-- What an attempt that goes on leaves of the state, with its record: the node is marked if it failed. -/
def Marked (s s' : Loop) (h : List Happening) : Prop :=
  s'.node = s.node ∧ s'.backoff = s.backoff ∧
    ((h = [] ∧ s'.unreachable = s.unreachable) ∨
      (h = [.failed s.node] ∧ s'.unreachable = insert s.node s.unreachable))

/-- What a turn can do. -/
inductive Turned (deadline : ℚ) (s : Loop) (t : Turn ρ) : Loop ⊕ CallOutcome ρ → List Happening → Prop
  | timedOut (o : CallOutcome ρ) : Turned deadline s t (.inr o) []
  | settled (o : CallOutcome ρ) : t.now < deadline → Turned deadline s t (.inr o) [.contacted s.node]
  | followed (target : ℕ) (problem : String) : t.now < deadline → target ∉ s.unreachable →
      s.redirects < 3 → Turned deadline s t
        (.inl { s with
          node := target
          redirects := s.redirects + 1
          lastProblem := problem
          clock := t.now }) [.contacted s.node, .followed]
  | wentOn (s' : Loop) (h : List Happening) : t.now < deadline → Marked s s' h →
      Turned deadline s t (c.goOn deadline t s').1 (.contacted s.node :: (h ++ (c.goOn deadline t s').2))

lemma turn_turned (write : Bool) (deadline : ℚ) (s : Loop) (t : Turn ρ) :
    c.Turned deadline s t (c.turn write deadline s t).1 (c.turn write deadline s t).2 := by
  rw [turn]
  by_cases htime : min c.rpcTimeout (deadline - t.now) ≤ 0
  · rw [if_pos htime]
    exact .timedOut _
  · rw [if_neg htime]
    have hnow : t.now < deadline := by
      have hpos := (lt_min_iff.mp (not_le.mp htime)).2
      linarith
    cases t.answer with
    | rpcError code details =>
      dsimp only
      by_cases hcode : code.retryable = true
      · rw [if_pos hcode]
        exact .wentOn _ [.failed s.node] hnow ⟨rfl, rfl, .inr ⟨rfl, rfl⟩⟩
      · rw [if_neg hcode]
        exact .settled _ hnow
    | response success errorMessage resp =>
      dsimp only
      split_ifs with hsuccess hprefix
      · exact .settled _ hnow
      · split
        · exact .settled _ hnow
        · split_ifs with htarget
          · exact .followed _ _ hnow htarget.2.1 htarget.2.2
          · exact .wentOn _ [] hnow ⟨rfl, rfl, .inl ⟨rfl, rfl⟩⟩
        · exact .wentOn _ [] hnow ⟨rfl, rfl, .inl ⟨rfl, rfl⟩⟩
      · exact .settled _ hnow

/-- Going on clears the marks or not, and then pauses or gives up. -/
lemma goOn_cases (deadline : ℚ) (t : Turn ρ) (s : Loop) :
    (∃ o, c.goOn deadline t s = (.inr o, (c.nextNode s.node s.unreachable).2.2)) ∨
    (t.later + s.backoff * t.jitter < deadline ∧ c.goOn deadline t s =
      (.inl { s with
        node := (c.nextNode s.node s.unreachable).1
        unreachable := (c.nextNode s.node s.unreachable).2.1
        redirects := 0
        backoff := min (s.backoff * 2) (1 / 2)
        clock := t.later + s.backoff * t.jitter }, (c.nextNode s.node s.unreachable).2.2 ++ [.paused])) := by
  simp only [goOn, pause]
  split_ifs with hlate
  · exact .inl ⟨_, by rw [List.append_nil]⟩
  · exact .inr ⟨not_le.mp hlate, rfl⟩

lemma nextNode_happenings (node : ℕ) (unreachable : Finset ℕ) :
    (c.nextNode node unreachable).2.2 = [] ∨ (c.nextNode node unreachable).2.2 = [.cleared] := by
  rw [nextNode]
  split
  · exact .inl rfl
  · exact .inr rfl

end RaftCluster

end DistributedStorage.Gateway

import DistributedStorage.Kv.Commands
import DistributedStorage.Library.Repr
import Mathlib.Data.Set.Function

/-! The gateway's write requests: the identity a request with an `Idempotency-Key` is stored under, the
store operation it maps to, and the outcome its client is told. -/

namespace DistributedStorage.Gateway

open Library Raft Kv

inductive WriteRequest
  | put (key : String) (value : Bytes) (expectedVersion : Option ℤ) (createOnly : Bool)
  | delete (key : String)
  deriving DecidableEq

namespace WriteRequest

variable (printable : Char → Bool)

def reprBool : Bool → List Char
  | true => "True".toList
  | false => "False".toList

def reprVersion : Option ℤ → List Char
  | none => "None".toList
  | some v => Json.integer v

def reprString (s : String) : List Char := Repr.text printable s.toList

/-- `repr((idempotency_key, request))` -/
def repr (idempotencyKey : String) : WriteRequest → List Char
  | put key value expectedVersion createOnly =>
    '(' :: (reprString printable idempotencyKey ++ (", ('put', ".toList ++
      (reprString printable key ++ (", ".toList ++ (Repr.bytes value ++ (", ".toList ++
        (reprVersion expectedVersion ++ (", ".toList ++ (reprBool createOnly ++ "))".toList)))))))))
  | delete key =>
    '(' :: (reprString printable idempotencyKey ++ (", ('delete', ".toList ++
      (reprString printable key ++ "))".toList)))

variable {printable}

lemma reprString_injective {s t : String} {r r' : List Char}
    (h : reprString printable s ++ r = reprString printable t ++ r') : s = t ∧ r = r' := by
  obtain ⟨hs, hr⟩ := Repr.text_injective h
  exact ⟨String.toList_inj.mp hs, hr⟩

lemma reprBool_injective {b c : Bool} {r r' : List Char} (h : reprBool b ++ r = reprBool c ++ r') :
    b = c := by
  cases b with
  | true =>
    cases c with
    | true => rfl
    | false => cases (List.cons.inj h).1
  | false =>
    cases c with
    | true => cases (List.cons.inj h).1
    | false => rfl

/-- A version starts with a letter, a minus or a digit, and a comma ends it. -/
lemma reprVersion_injective {v w : Option ℤ} {r r' : List Char}
    (h : reprVersion v ++ (", ".toList ++ r) = reprVersion w ++ (", ".toList ++ r')) :
    v = w ∧ r = r' := by
  have hnone : ∀ n : ℤ, ∀ s s' : List Char, "None".toList ++ s ≠ Json.integer n ++ s' := by
    intro n s s' heq
    obtain ⟨c, t, ht, hc⟩ := Json.integer_head n
    rw [ht] at heq
    obtain rfl : 'N' = c := (List.cons.inj heq).1
    revert hc
    decide
  cases v with
  | none =>
    cases w with
    | none => exact ⟨rfl, List.append_cancel_left (List.append_cancel_left h)⟩
    | some n => exact (hnone n _ _ h).elim
  | some n =>
    cases w with
    | none => exact (hnone n _ _ h.symm).elim
    | some k =>
      have hread := congrArg Json.scanInteger h
      have hcomma : ∀ s : List Char, Json.NoDigit (", ".toList ++ s) := fun s => rfl
      rw [reprVersion, reprVersion, Json.scanInteger_integer n (hcomma r),
        Json.scanInteger_integer k (hcomma r')] at hread
      obtain ⟨rfl, hr⟩ := Prod.mk.inj (Option.some.inj hread)
      exact ⟨rfl, List.append_cancel_left hr⟩

/-- The text tells the key and the request. -/
lemma repr_injective {k k' : String} {a b : WriteRequest}
    (h : a.repr printable k = b.repr printable k') : k = k' ∧ a = b := by
  have hkind : ∀ r r' : List Char, ", ('put', ".toList ++ r ≠ ", ('delete', ".toList ++ r' := by
    intro r r' heq
    have hfifth := congrArg (fun l : List Char => l[4]?) heq
    cases hfifth
  cases a with
  | put key value expectedVersion createOnly =>
    cases b with
    | put key' value' expectedVersion' createOnly' =>
      obtain ⟨rfl, hkey⟩ := reprString_injective (List.cons.inj h).2
      obtain ⟨rfl, hvalue⟩ := reprString_injective (List.append_cancel_left hkey)
      obtain ⟨rfl, hversion⟩ := Repr.bytes_injective (List.append_cancel_left hvalue)
      obtain ⟨rfl, hcreate⟩ := reprVersion_injective (List.append_cancel_left hversion)
      obtain rfl := reprBool_injective hcreate
      exact ⟨rfl, rfl⟩
    | delete key' => exact (hkind _ _ (reprString_injective (List.cons.inj h).2).2).elim
  | delete key =>
    cases b with
    | put key' value' expectedVersion' createOnly' =>
      exact (hkind _ _ (reprString_injective (List.cons.inj h).2).2.symm).elim
    | delete key' =>
      obtain ⟨rfl, hkey⟩ := reprString_injective (List.cons.inj h).2
      obtain ⟨rfl, -⟩ := reprString_injective (List.append_cancel_left hkey)
      exact ⟨rfl, rfl⟩

end WriteRequest

/-- What the service returns or raises. -/
inductive Outcome
  | written (version : ℤ) (created : Bool)
  | deleted
  | preconditionFailed (message : String) (currentVersion : ℤ)
  | notFound (message : String)
  | valueTooLarge (message : String)
  | invalidRequest (message : String)
  deriving DecidableEq

/-- `digest` is the first half of the hexadecimal SHA-256 of a text. -/
structure KVService where
  maxValueBytes : ℕ
  printable : Char → Bool
  digest : Bytes → String

namespace KVService

variable (svc : KVService)

def hashed (idempotencyKey : String) (req : WriteRequest) : Bytes :=
  encodeUtf8 (String.ofList (req.repr svc.printable idempotencyKey))

/-- The client id of a request with an `Idempotency-Key`; its sequence number is 1. -/
def identity (idempotencyKey : String) (req : WriteRequest) : String :=
  "idem-" ++ svc.digest (svc.hashed idempotencyKey req)

def keyRepr (key : String) : String := String.ofList (WriteRequest.reprString svc.printable key)

/-- The checks before the store is called, and the call. -/
def prepare (clientId : String) : WriteRequest → Except Outcome Request
  | .put key value expectedVersion createOnly =>
    if svc.maxValueBytes < value.length then
      .error (.valueTooLarge ("value is " ++ toString value.length ++ " bytes; the limit is " ++
        toString svc.maxValueBytes))
    else if expectedVersion ≠ none ∧ createOnly then
      .error (.invalidRequest "a write can require a version or require absence, not both")
    else if createOnly then .ok (.cas key [] value true 0 clientId 1)
    else match expectedVersion with
      | some v =>
        if v < 1 then
          .error (.preconditionFailed ("key " ++ svc.keyRepr key ++ " is not at version " ++
            toString v) 0)
        else .ok (.cas key [] value false v clientId 1)
      | none => .ok (.put key value clientId 1)
  | .delete key => .ok (.delete key clientId 1)

/-- What the response of the store becomes. -/
def complete (result : Result) : WriteRequest → Outcome
  | .put key _ expectedVersion createOnly =>
    let version := intField result "version"
    if createOnly then
      if boolField result "swapped" then .written version true
      else .preconditionFailed ("key " ++ svc.keyRepr key ++ " already exists") version
    else match expectedVersion with
      | some v =>
        if boolField result "swapped" then .written version false
        else .preconditionFailed
          (if version ≠ 0 then
            "key " ++ svc.keyRepr key ++ " is at version " ++ toString version ++ ", not " ++ toString v
          else "key " ++ svc.keyRepr key ++ " does not exist") version
      | none => .written version false
  | .delete key =>
    if boolField result "existed" then .deleted
    else .notFound ("key " ++ svc.keyRepr key ++ " does not exist")

lemma prepare_identity {clientId : String} {req : WriteRequest} {request : Request}
    (h : svc.prepare clientId req = .ok request) :
    request.clientId = clientId ∧ request.seqNum = 1 ∧ request.isGet = false := by
  cases req with
  | put key value expectedVersion createOnly =>
    simp only [prepare] at h
    split_ifs at h
    · cases h
      exact ⟨rfl, rfl, rfl⟩
    · split at h
      · split_ifs at h
        cases h
        exact ⟨rfl, rfl, rfl⟩
      · cases h
        exact ⟨rfl, rfl, rfl⟩
  | delete key =>
    cases h
    exact ⟨rfl, rfl, rfl⟩

/-- The effect of one send on the replicated machine: the service refuses it, a node answers it from the
session table, or it is applied. -/
inductive Sends (idempotencyKey : String) (req : WriteRequest) (m : KVStateMachine) :
    Outcome → KVStateMachine → Prop
  | refused (o : Outcome) : svc.prepare (svc.identity idempotencyKey req) req = .error o →
      Sends idempotencyKey req m o m
  | answered (request : Request) (r : Result) :
      svc.prepare (svc.identity idempotencyKey req) req = .ok request →
      m.lookupSession request.clientId request.seqNum = some r →
      Sends idempotencyKey req m (svc.complete r req) m
  | applied (request : Request) (term index : ℕ) (r : Result) (m' : KVStateMachine) :
      svc.prepare (svc.identity idempotencyKey req) req = .ok request →
      m.apply loadCas (request.command.entry term index) = (m', .ok r) →
      Sends idempotencyKey req m (svc.complete r req) m'

end KVService

end DistributedStorage.Gateway

import DistributedStorage.Gateway.Calls
import DistributedStorage.Kv.Acknowledged

/-! A write that the gateway sends to the key-value cluster. Each attempt is a request to one node, which a
handler of that node's process answers; the network may lose the request or the answer, and may deliver a
request after its attempt has failed. -/

set_option linter.unusedSectionVars false

namespace DistributedStorage.Gateway

open Library Raft Kv Runs

variable {ι : Type} [DecidableEq ι]

/-- `server` listens at each address, `idText` is how the id of a node is printed, and `exceptionName` is the
class of an exception that has no text. -/
structure Write (ι : Type) where
  cluster : RaftCluster
  server : ℕ → ι
  idText : ι → String
  exceptionName : String
  request : Request
  isWrite : request.isGet = false
  hint : Fin cluster.nodeCount
  start : ℚ

/-- An attempt that has not ended, with its handler once the request has arrived. -/
structure Attempt where
  now : ℚ
  handler : Option ℕ

/-- `inTransit` are the nodes that requests of attempts that have failed may still arrive at, and `handlers`
those of the requests that have arrived. -/
structure Frontend (ι : Type) where
  system : System ι
  call : Loop ⊕ CallOutcome (Reply ι)
  attempt : Option Attempt
  inTransit : List ι
  handlers : List ℕ

inductive FrontEvent (ι : Type)
  | system (e : Kv.Event ι)
  | begins (now : ℚ)
  | arrives
  | arrivesLate (k : ℕ)
  | answered (jitter later : ℚ)
  | fails (code : StatusCode) (details : String) (jitter later : ℚ)

namespace Write

variable (w : Write ι)

def deadline : ℚ := w.start + w.cluster.requestDeadline

/-- The `error_message` of a response. -/
def errorMessage : Error ι → String
  | .notLeader leaderId leaderAddress =>
    "NOT_LEADER:" ++ leaderId.elim "None" w.idText ++ ":" ++ leaderAddress.getD ""
  | .timeout index => "Entry " ++ toString index ++ " not committed within 10.0s"
  | .applyFailed message => if message = "" then w.exceptionName else message

/-- What a reply is to the gateway. An aborted call is a transport error. -/
def answer : Reply ι → Option (Answer (Reply ι))
  | .aborted => none
  | .failure exc => some (.response false (w.errorMessage exc) (.failure exc))
  | .written result => some (.response true "" (.written result))
  | .read value => some (.response true "" (.read value))

def replyTo (s : System ι) (h : ℕ) : Option (Reply ι) :=
  s.history.findSome? fun
    | .replied k reply => if k = h then some reply else none
    | _ => none

/-- The request arrives at `i`. -/
def arrive (s : Frontend ι) (i : ι) : Frontend ι :=
  { s with
    system := s.system.receive i w.request
    handlers := s.handlers ++ [s.system.nextHandler] }

/-- The attempt ends, and the loop takes its turn. -/
def settle (s : Frontend ι) (l : Loop) (t : Turn (Reply ι)) : Frontend ι :=
  { s with
    call := (w.cluster.turn true w.deadline l t).1
    attempt := none }

variable [Fintype ι] (cfg : Config ι KVStateMachine Result)

def init : Frontend ι where
  system := System.init cfg
  call := .inl (w.cluster.begin w.hint w.start)
  attempt := none
  inTransit := []
  handlers := []

/-- Other clients' requests are among the events of the system. -/
def step (s : Frontend ι) : FrontEvent ι → Option (Frontend ι)
  | .system e => (System.step cfg s.system e).map fun r => { s with system := r }
  | .begins now =>
    match s.call, s.attempt with
    | .inl l, none =>
      if min w.cluster.rpcTimeout (w.deadline - now) ≤ 0 then
        some { s with call := .inr (w.cluster.giveUp l) }
      else some { s with attempt := some ⟨now, none⟩ }
    | _, _ => none
  | .arrives =>
    match s.call, s.attempt with
    | .inl l, some ⟨now, none⟩ =>
      some { w.arrive s (w.server l.node) with attempt := some ⟨now, some s.system.nextHandler⟩ }
    | _, _ => none
  | .arrivesLate k => (s.inTransit[k]?).map fun i =>
      { w.arrive s i with inTransit := s.inTransit.eraseIdx k }
  | .answered jitter later =>
    match s.call, s.attempt with
    | .inl l, some ⟨now, some h⟩ => ((replyTo s.system h).bind w.answer).map fun answer =>
        w.settle s l ⟨now, answer, jitter, later⟩
    | _, _ => none
  | .fails code details jitter later =>
    match s.call, s.attempt with
    | .inl l, some ⟨now, handler⟩ =>
      some { w.settle s l ⟨now, .rpcError code details, jitter, later⟩ with
        inTransit := if handler = none then s.inTransit ++ [w.server l.node] else s.inTransit }
    | _, _ => none

/-- What an event can do. -/
inductive Moves (s : Frontend ι) : FrontEvent ι → Frontend ι → Prop
  | system (e : Kv.Event ι) (r : System ι) : System.step cfg s.system e = some r →
      Moves s (.system e) { s with system := r }
  | late (now : ℚ) (l : Loop) : s.call = .inl l → s.attempt = none →
      min w.cluster.rpcTimeout (w.deadline - now) ≤ 0 →
      Moves s (.begins now) { s with call := .inr (w.cluster.giveUp l) }
  | begins (now : ℚ) (l : Loop) : s.call = .inl l → s.attempt = none →
      ¬ min w.cluster.rpcTimeout (w.deadline - now) ≤ 0 →
      Moves s (.begins now) { s with attempt := some ⟨now, none⟩ }
  | arrives (now : ℚ) (l : Loop) : s.call = .inl l → s.attempt = some ⟨now, none⟩ → Moves s .arrives
      { w.arrive s (w.server l.node) with attempt := some ⟨now, some s.system.nextHandler⟩ }
  | arrivesLate (k : ℕ) (i : ι) : s.inTransit[k]? = some i → Moves s (.arrivesLate k)
      { w.arrive s i with inTransit := s.inTransit.eraseIdx k }
  | answered (jitter later now : ℚ) (l : Loop) (h : ℕ) (reply : Reply ι) (answer : Answer (Reply ι)) :
      s.call = .inl l → s.attempt = some ⟨now, some h⟩ → replyTo s.system h = some reply →
      w.answer reply = some answer →
      Moves s (.answered jitter later) (w.settle s l ⟨now, answer, jitter, later⟩)
  | fails (code : StatusCode) (details : String) (jitter later : ℚ) (l : Loop) (a : Attempt) :
      s.call = .inl l → s.attempt = some a → Moves s (.fails code details jitter later)
        { w.settle s l ⟨a.now, .rpcError code details, jitter, later⟩ with
          inTransit := if a.handler = none then s.inTransit ++ [w.server l.node] else s.inTransit }

variable {w cfg} {s t : Frontend ι}

lemma step_moves {e : FrontEvent ι} (h : w.step cfg s e = some t) : w.Moves cfg s e t := by
  cases e with
  | system e =>
    obtain ⟨r, hr, rfl⟩ := Option.map_eq_some_iff.mp h
    exact .system e r hr
  | begins now =>
    simp only [step] at h
    split at h
    · rename_i l hcall hattempt
      split_ifs at h with hlate
      · cases h
        exact .late now l hcall hattempt hlate
      · cases h
        exact .begins now l hcall hattempt hlate
    · cases h
  | arrives =>
    simp only [step] at h
    split at h
    · rename_i l now hcall hattempt
      cases h
      exact .arrives now l hcall hattempt
    · cases h
  | arrivesLate k =>
    obtain ⟨i, hi, rfl⟩ := Option.map_eq_some_iff.mp h
    exact .arrivesLate k i hi
  | answered jitter later =>
    simp only [step] at h
    split at h
    · rename_i l now k hcall hattempt
      obtain ⟨answer, hanswer, rfl⟩ := Option.map_eq_some_iff.mp h
      obtain ⟨reply, hreply, hanswer⟩ := Option.bind_eq_some_iff.mp hanswer
      exact .answered jitter later now l k reply answer hcall hattempt hreply hanswer
    · cases h
  | fails code details jitter later =>
    simp only [step] at h
    split at h
    · rename_i l now handler hcall hattempt
      cases h
      exact .fails code details jitter later l ⟨now, handler⟩ hcall hattempt
    · cases h

/-- The turns that have been taken decide a call. -/
lemma call_congr {c : RaftCluster} {hint : Fin c.nodeCount} {start : ℚ} {env env' : ℕ → Turn (Reply ι)} {k : ℕ}
    (h : ∀ i < k, env i = env' i) : c.call true hint start env k = c.call true hint start env' k := by
  induction k with
  | zero => rfl
  | succ k ih =>
    have hprev := ih fun i hi => h i (hi.trans k.lt_succ_self)
    simp only [RaftCluster.call, hprev, h k k.lt_succ_self]

lemma call_turn {c : RaftCluster} {hint : Fin c.nodeCount} {start : ℚ} {env : ℕ → Turn (Reply ι)} {k : ℕ}
    {l : Loop} (h : (c.call true hint start env k).1 = .inl l) (t : Turn (Reply ι)) :
    ∃ env', (c.call true hint start env' (k + 1)).1 = (c.turn true (start + c.requestDeadline) l t).1 := by
  refine ⟨Function.update env k t, ?_⟩
  have hsame : c.call true hint start (Function.update env k t) k = c.call true hint start env k := by
    apply call_congr
    intro i hi
    exact Function.update_of_ne hi.ne t env
  cases hr : c.call true hint start env k with
  | mk r happened =>
    rw [hr] at h hsame
    obtain rfl : r = .inl l := h
    simp only [RaftCluster.call, hsame, Function.update_self]

/-- The gateway's side of a run is a call, whatever the cluster does. -/
theorem run_call {C : Frontend ι → FrontEvent ι → Prop} (h : Run (w.step cfg) C (w.init cfg) s) :
    ∃ env k, s.call = (w.cluster.call true w.hint w.start env k).1 := by
  refine Run.invariant
    (I := fun s => ∃ env k, s.call = (w.cluster.call true w.hint w.start env k).1) ?_ h
    ⟨fun _ => ⟨0, .rpcError .unavailable "", 0, 0⟩, 0, rfl⟩
  rintro u e v ⟨env, k, hu⟩ - he
  have hturn : ∀ (l : Loop) (t : Turn (Reply ι)), u.call = .inl l → ∃ env' k',
      (w.cluster.turn true w.deadline l t).1 = (w.cluster.call true w.hint w.start env' k').1 := by
    intro l t hl
    obtain ⟨env', henv'⟩ := call_turn (hu.symm.trans hl) t
    exact ⟨env', k + 1, henv'.symm⟩
  cases step_moves he with
  | system e r _ => exact ⟨env, k, hu⟩
  | late now l hl _ hlate =>
    obtain ⟨env', k', h'⟩ := hturn l ⟨now, .rpcError .unavailable "", 0, 0⟩ hl
    rw [RaftCluster.turn, if_pos hlate] at h'
    exact ⟨env', k', h'⟩
  | begins now l _ _ _ => exact ⟨env, k, hu⟩
  | arrives now l _ _ => exact ⟨env, k, hu⟩
  | arrivesLate k' i _ => exact ⟨env, k, hu⟩
  | answered jitter later now l h reply answer hl _ _ _ => exact hturn l ⟨now, answer, jitter, later⟩ hl
  | fails code details jitter later l a hl _ => exact hturn l ⟨a.now, .rpcError code details, jitter, later⟩ hl

end Write

end DistributedStorage.Gateway

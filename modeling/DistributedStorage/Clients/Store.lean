import DistributedStorage.Clients.KvClient
import DistributedStorage.Kv.Linearizability

/-! What a stub is for: its calls as operations on one map of versioned values. -/

namespace DistributedStorage.Clients

open Library Library.Linearizability Raft Kv

namespace Store

/-- A call, made alone. -/
def call (m : VersionedMap) : ApiCall → VersionedMap × Value
  | .put key value => (m.write key value, .version ((m key).version + 1))
  | .get key _ => (m, .value (m key).value)
  | .getVersioned key _ => (m, .versioned ((m key).value.getD []) (m key).current (m key).value.isSome)
  | .delete key => (Function.update m key ⟨(m key).version, none⟩, .existed (m key).value.isSome)
  | .cas key expected newValue =>
    if (m key).value = some expected then (m.write key newValue, .swapped true) else (m, .swapped false)
  | .casVersion key expectedVersion newValue =>
    if (m key).value ≠ none ∧ (m key).version = expectedVersion then
      (m.write key newValue, .swappedAt true ((m key).version + 1))
    else (m, .swappedAt false (m key).current)
  | .putIfAbsent key value =>
    if (m key).value = none then (m.write key value, .swapped true) else (m, .swapped false)

def object : Object VersionedMap ApiCall Value where
  init := VersionedMap.object.init
  step := call

end Store

namespace ApiCall

/-- A stub refuses to ask for a version below 1. -/
def Admissible : ApiCall → Prop
  | casVersion _ expectedVersion _ => 0 < expectedVersion
  | _ => True

/-- What a call makes of an answer of the map. -/
def answer (call : ApiCall) : MapAnswer → Option Value
  | .written result => call.value (ι := Unit) (.written result)
  | .read value => call.value (ι := Unit) (.read value)

lemma value_answer {ι : Type} {call : ApiCall} {reply : Reply ι} {ans : MapAnswer}
    (h : reply.mapAnswer = some ans) : call.value reply = call.answer ans := by
  cases reply with
  | aborted => cases h
  | failure exc => cases h
  | written result =>
    simp only [Reply.mapAnswer] at h
    split_ifs at h
    cases h
    cases call <;> rfl
  | read value =>
    cases h
    cases call <;> rfl

lemma request_isGet (call : ApiCall) (clientId : String) (seqNum : ℕ) :
    (call.request clientId seqNum).isGet = call.isGet := by
  cases call <;> rfl

lemma request_identity {call : ApiCall} (h : call.isGet = false) (clientId : String) (seqNum : ℕ) :
    (call.request clientId seqNum).clientId = clientId ∧ (call.request clientId seqNum).seqNum = seqNum := by
  cases call with
  | get key linearizable => cases h
  | getVersioned key linearizable => cases h
  | _ => exact ⟨rfl, rfl⟩

lemma request_promises (call : ApiCall) (clientId : String) (seqNum : ℕ) :
    (call.request clientId seqNum).mapOp.isSome = call.promises := by
  cases call with
  | get key linearizable => cases linearizable <;> rfl
  | getVersioned key linearizable => cases linearizable <;> rfl
  | _ => rfl

/-- A call returns what the map answers to its request. -/
lemma serves {call : ApiCall} {clientId : String} {seqNum : ℕ} {op : MapOp} {m t : VersionedMap} {ans : MapAnswer}
    (hadm : call.Admissible) (hop : (call.request clientId seqNum).mapOp = some op)
    (hstep : VersionedMap.object.step m op = (t, ans)) :
    ∃ v, call.answer ans = some v ∧ Store.call m call = (t, v) := by
  cases call with
  | put key value =>
    cases hop
    cases hstep
    exact ⟨_, rfl, rfl⟩
  | get key linearizable =>
    obtain ⟨-, rfl⟩ := Request.mapOp_get hop
    cases hstep
    refine ⟨_, rfl, ?_⟩
    cases hv : (m key).value <;> simp [Store.call, hv]
  | getVersioned key linearizable =>
    obtain ⟨-, rfl⟩ := Request.mapOp_get hop
    cases hstep
    exact ⟨_, rfl, rfl⟩
  | delete key =>
    cases hop
    cases hstep
    exact ⟨_, rfl, rfl⟩
  | cas key expected newValue =>
    cases hop
    simp only [VersionedMap.object, VersionedMap.perform, Slot.meets_value, decide_eq_true_eq] at hstep
    simp only [Store.call]
    split_ifs at hstep ⊢ with h
    · cases hstep
      exact ⟨_, rfl, rfl⟩
    · cases hstep
      exact ⟨_, rfl, rfl⟩
  | casVersion key expectedVersion newValue =>
    cases hop
    simp only [VersionedMap.object, VersionedMap.perform, Slot.meets_version _ hadm,
      decide_eq_true_eq] at hstep
    simp only [Store.call]
    split_ifs at hstep ⊢ with h
    · cases hstep
      exact ⟨_, rfl, rfl⟩
    · cases hstep
      exact ⟨_, rfl, rfl⟩
  | putIfAbsent key value =>
    cases hop
    simp only [VersionedMap.object, VersionedMap.perform, Slot.meets_absent,
      decide_eq_true_eq] at hstep
    simp only [Store.call]
    split_ifs at hstep ⊢ with h
    · cases hstep
      exact ⟨_, rfl, rfl⟩
    · cases hstep
      exact ⟨_, rfl, rfl⟩

end ApiCall

namespace RaftKVClient

/-- A call that is not refused numbers its request anew if it writes. -/
lemma prepare_ok {c client : RaftKVClient} {call : ApiCall} {request : Request}
    (h : c.prepare call = .ok (client, request)) : client.clientId = c.clientId ∧
      client.seqNum = (if call.isGet then c.seqNum else c.seqNum + 1) ∧
      request = call.request c.clientId client.seqNum ∧ call.Admissible := by
  cases call with
  | casVersion key expectedVersion newValue =>
    simp only [prepare] at h
    split_ifs at h with hle
    cases h
    exact ⟨rfl, rfl, rfl, not_le.mp hle⟩
  | _ =>
    cases h
    exact ⟨rfl, rfl, rfl, trivial⟩

end RaftKVClient

end DistributedStorage.Clients

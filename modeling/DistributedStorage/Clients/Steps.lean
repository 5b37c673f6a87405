import DistributedStorage.Clients.KvClient

/-! What a step of the world of clients, network and cluster can do. -/

set_option linter.unusedSectionVars false

namespace DistributedStorage.Clients

open Gateway (StatusCode)
open Gateway.Write (replyTo)
open Library Raft Kv Runs

variable {ι κ : Type}

namespace RaftKVClient

lemma connect_identity (c : RaftKVClient) (idx : ℕ) :
    (c.connect idx).clientId = c.clientId ∧ (c.connect idx).seqNum = c.seqNum := ⟨rfl, rfl⟩

lemma redirect_identity (c : RaftKVClient) (message : String) :
    (c.redirect message).clientId = c.clientId ∧ (c.redirect message).seqNum = c.seqNum := by
  simp only [redirect]
  split_ifs <;> exact ⟨rfl, rfl⟩

end RaftKVClient

namespace World

variable [DecidableEq ι] [DecidableEq κ]

/-- The attempt of `e` is over without an answer: another follows, or the call ends with an exception. -/
structure MovesOn (w : World ι κ) (c : κ) (e : Execution) (client : RaftKVClient) (next : Option Execution)
    (transit : List Letter) (past : List (Occurrence κ)) : Prop where
  clientId : client.clientId = (w.clients c).clientId
  seqNum : client.seqNum = (w.clients c).seqNum
  next : ∀ e' ∈ next, e'.name = e.name ∧ e'.call = e.call ∧ e'.request = e.request ∧ e'.handler = none
  transit : ∀ l ∈ transit, l ∈ w.inTransit ∨ (l.name = e.name ∧ l.request = e.request)
  past : past = [] ∨ ∃ message, past = [.raised e.name message]

def moveOn (w : World ι κ) (c : κ) (client : RaftKVClient) (next : Option Execution) (transit : List Letter)
    (past : List (Occurrence κ)) : World ι κ :=
  { w with
    clients := Function.update w.clients c client
    executions := Function.update w.executions c next
    inTransit := transit
    history := w.history ++ past }

variable [Fintype ι] (net : Network ι) (cfg : Config ι KVStateMachine Result)

/-- What an event can do. -/
inductive Moves (w : World ι κ) : WorldEvent ι κ → World ι κ → Prop
  | system (e : Kv.Event ι) (s : System ι) : (∀ i request, e ≠ .receive i request) →
      System.step cfg w.system e = some s → Moves w (.system e) { w with system := s }
  | refused (c : κ) (call : ApiCall) : w.executions c = none →
      Moves w (.invokes c call) { w with
        nextCall := w.nextCall + 1
        history := w.history ++ [.invoked w.nextCall c call none] }
  | invoked (c : κ) (call : ApiCall) (client : RaftKVClient) (request : Request) : w.executions c = none →
      (w.clients c).prepare call = .ok (client, request) →
      Moves w (.invokes c call) { w with
        clients := Function.update w.clients c client
        executions := Function.update w.executions c (some ⟨w.nextCall, call, request, 0, "None", none⟩)
        nextCall := w.nextCall + 1
        history := w.history ++ [.invoked w.nextCall c call (some request)] }
  | arrives (c : κ) (e : Execution) (i : ι) : w.executions c = some e → e.handler = none →
      Moves w (.arrives c) { w.arrive e.name i e.request with
        executions := Function.update w.executions c (some { e with handler := some w.system.nextHandler }) }
  | late (k : ℕ) (l : Letter) (i : ι) : l ∈ w.inTransit →
      Moves w (.arrivesLate k) { w.arrive l.name i l.request with inTransit := w.inTransit.eraseIdx k }
  | answered (c : κ) (e : Execution) (h : ℕ) (reply : Reply ι) (v : Value) : w.executions c = some e →
      e.handler = some h → replyTo w.system h = some reply → e.call.value reply = some v →
      (∀ exc, reply ≠ .failure exc) → Moves w (.responds c) (w.finish c e.name h e.call v)
  | movesOn (ev : WorldEvent ι κ) (c : κ) (e : Execution) (client : RaftKVClient) (next : Option Execution)
      (transit : List Letter) (past : List (Occurrence κ)) : w.executions c = some e →
      MovesOn w c e client next transit past → Moves w ev (w.moveOn c client next transit past)

variable {net cfg} {w t : World ι κ}

lemma retry_movesOn (w : World ι κ) {c : κ} {client : RaftKVClient} {e : Execution} (lastError : String)
    (hid : client.clientId = (w.clients c).clientId ∧ client.seqNum = (w.clients c).seqNum) :
    ∃ next past, w.retry c client e lastError = w.moveOn c client next w.inTransit past ∧
      MovesOn w c e client next w.inTransit past := by
  simp only [retry]
  split_ifs
  · refine ⟨some (e.again lastError), [], ?_, hid.1, hid.2, ?_, fun l hl => Or.inl hl, Or.inl rfl⟩
    · rw [moveOn, List.append_nil]
    · intro e' he'
      cases he'
      exact ⟨rfl, rfl, rfl, rfl⟩
  · refine ⟨none, _, rfl, hid.1, hid.2, fun e' he' => ?_, fun l hl => Or.inl hl, Or.inr ⟨_, rfl⟩⟩
    cases he'

lemma raise_movesOn (w : World ι κ) (c : κ) (e : Execution) (message : String) :
    w.raise c e.name message = w.moveOn c (w.clients c) none w.inTransit [.raised e.name message] ∧
      MovesOn w c e (w.clients c) none w.inTransit [.raised e.name message] := by
  refine ⟨?_, rfl, rfl, fun e' he' => ?_, fun l hl => Or.inl hl, Or.inr ⟨_, rfl⟩⟩
  · rw [moveOn, Function.update_eq_self]
    rfl
  · cases he'

lemma MovesOn.transit_le {c : κ} {e : Execution} {client : RaftKVClient} {next : Option Execution}
    {transit : List Letter} {past : List (Occurrence κ)}
    (h : MovesOn { w with inTransit := transit } c e client next transit past)
    (ht : ∀ l ∈ transit, l ∈ w.inTransit ∨ (l.name = e.name ∧ l.request = e.request)) :
    MovesOn w c e client next transit past :=
  ⟨h.clientId, h.seqNum, h.next, ht, h.past⟩

lemma step_moves {ev : WorldEvent ι κ} (h : w.step net cfg ev = some t) : Moves cfg w ev t := by
  cases ev with
  | system e =>
    have hne : ∀ i request, e ≠ .receive i request := by
      rintro i request rfl
      cases h
    simp only [step] at h
    obtain ⟨s, hs, rfl⟩ := Option.map_eq_some_iff.mp h
    exact .system e s hne hs
  | invokes c call =>
    simp only [step] at h
    split at h
    · rename_i hidle
      cases h
      rw [invoke]
      split
      · exact .refused c call hidle
      · rename_i client request hprep
        exact .invoked c call client request hidle hprep
    · cases h
  | arrives c =>
    simp only [step] at h
    split at h
    · rename_i k call request attempt lastError hexec
      obtain ⟨i, -, rfl⟩ := Option.map_eq_some_iff.mp h
      exact .arrives c ⟨k, call, request, attempt, lastError, none⟩ i hexec rfl
    · cases h
  | arrivesLate k =>
    obtain ⟨l, hl, h⟩ := Option.bind_eq_some_iff.mp h
    obtain ⟨i, -, rfl⟩ := Option.map_eq_some_iff.mp h
    exact .late k l i (List.mem_of_getElem? hl)
  | responds c =>
    obtain ⟨e, hexec, h⟩ := Option.bind_eq_some_iff.mp h
    obtain ⟨k, hk, h⟩ := Option.bind_eq_some_iff.mp h
    obtain ⟨reply, hreply, h⟩ := Option.bind_eq_some_iff.mp h
    cases reply with
    | aborted => cases h
    | failure exc =>
      simp only [respond] at h
      split_ifs at h
      · cases h
        obtain ⟨next, past, heq, hon⟩ := w.retry_movesOn (e := e) e.lastError
          ((w.clients c).redirect_identity (net.errorMessage e.request.isGet exc))
        rw [heq]
        exact .movesOn _ c e _ next _ past hexec hon
      · cases h
        obtain ⟨heq, hon⟩ := w.raise_movesOn c e (net.errorMessage e.request.isGet exc)
        rw [heq]
        exact .movesOn _ c e _ none _ _ hexec hon
    | written result =>
      obtain ⟨v, hv, rfl⟩ := Option.map_eq_some_iff.mp h
      exact .answered c e k _ v hexec hk hreply hv fun exc hexc => by cases hexc
    | read value =>
      obtain ⟨v, hv, rfl⟩ := Option.map_eq_some_iff.mp h
      exact .answered c e k _ v hexec hk hreply hv fun exc hexc => by cases hexc
  | fails c code details error =>
    obtain ⟨e, hexec, rfl⟩ := Option.map_eq_some_iff.mp h
    have htransit : ∀ l ∈ (if e.handler = none then
        w.inTransit ++ [⟨e.name, (w.clients c).channel, e.request⟩] else w.inTransit),
        l ∈ w.inTransit ∨ (l.name = e.name ∧ l.request = e.request) := by
      intro l hl
      split_ifs at hl
      · rcases List.mem_append.mp hl with hl | hl
        · exact Or.inl hl
        · cases List.mem_singleton.mp hl
          exact Or.inr ⟨rfl, rfl⟩
      · exact Or.inl hl
    rw [fail]
    generalize (if e.handler = none then
      w.inTransit ++ [⟨e.name, (w.clients c).channel, e.request⟩] else w.inTransit) = transit at htransit ⊢
    split_ifs
    · obtain ⟨next, past, heq, hon⟩ := retry_movesOn (e := e) { w with inTransit := transit } error
        ((w.clients c).connect_identity _)
      rw [RaftKVClient.nextNode, heq]
      exact .movesOn _ c e _ next transit past hexec (hon.transit_le htransit)
    · obtain ⟨heq, hon⟩ := raise_movesOn { w with inTransit := transit } c e ("gRPC error: " ++ details)
      rw [heq]
      exact .movesOn _ c e _ none transit _ hexec (hon.transit_le htransit)

end World

end DistributedStorage.Clients

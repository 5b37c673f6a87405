import DistributedStorage.Clients.Steps
import DistributedStorage.Clients.Store
import DistributedStorage.Gateway.NotApplied

/-! The books that tie the calls of the clients to the requests that the cluster receives: whose call a
request is, that one identity is one call, and that a call is answered once, and never as stale. -/

set_option linter.unusedSectionVars false

namespace DistributedStorage.Clients

open Gateway.Write (replyTo replyTo_mem)
open Library Raft Kv Runs

variable {ι κ : Type} [DecidableEq ι] [DecidableEq κ]

namespace World

variable {w t : World ι κ} {clients : κ → RaftKVClient}

/-- The calls that have been made, with their requests. -/
structure Named (clients : κ → RaftKVClient) (w : World ι κ) : Prop where
  client : ∀ c, (w.clients c).clientId = (clients c).clientId
  numbered : ∀ k c call req, .invoked k c call req ∈ w.history → k < w.nextCall
  unique : ∀ k c call req c' call' req', .invoked k c call req ∈ w.history →
    .invoked k c' call' req' ∈ w.history → c = c' ∧ call = call' ∧ req = req'
  prepared : ∀ k c call req, .invoked k c call (some req) ∈ w.history → call.Admissible ∧
    ∃ seq ≤ (w.clients c).seqNum, req = call.request (clients c).clientId seq ∧ (call.isGet = false → 0 < seq)
  identity : ∀ k k' c call call' req req', .invoked k c call (some req) ∈ w.history →
    .invoked k' c call' (some req') ∈ w.history → call.isGet = false → call'.isGet = false →
    req.seqNum = req'.seqNum → k = k'
  running : ∀ c e, w.executions c = some e → .invoked e.name c e.call (some e.request) ∈ w.history ∧
    (e.call.isGet = false → e.request.seqNum = (w.clients c).seqNum)

/-- No call is made. -/
structure Quiet (w t : World ι κ) : Prop where
  client : ∀ c, (t.clients c).clientId = (w.clients c).clientId ∧ (t.clients c).seqNum = (w.clients c).seqNum
  nextCall : t.nextCall = w.nextCall
  invoked : ∀ k c call req, .invoked k c call req ∈ t.history ↔ .invoked k c call req ∈ w.history
  running : ∀ c e', t.executions c = some e' → ∃ e, w.executions c = some e ∧ e'.name = e.name ∧
    e'.call = e.call ∧ e'.request = e.request

lemma Named.quiet (h : Named clients w) (hq : Quiet w t) : Named clients t where
  client c := (hq.client c).1.trans (h.client c)
  numbered k c call req hm := by
    rw [hq.nextCall]
    exact h.numbered k c call req ((hq.invoked ..).mp hm)
  unique k c call req c' call' req' hm hm' :=
    h.unique k c call req c' call' req' ((hq.invoked ..).mp hm) ((hq.invoked ..).mp hm')
  prepared k c call req hm := by
    obtain ⟨hadm, seq, hle, hreq, hpos⟩ := h.prepared k c call req ((hq.invoked ..).mp hm)
    exact ⟨hadm, seq, hle.trans (hq.client c).2.ge, hreq, hpos⟩
  identity k k' c call call' req req' hm hm' :=
    h.identity k k' c call call' req req' ((hq.invoked ..).mp hm) ((hq.invoked ..).mp hm')
  running c e' he' := by
    obtain ⟨e, he, hname, hcall, hreq⟩ := hq.running c e' he'
    obtain ⟨hm, hseq⟩ := h.running c e he
    rw [hname, hcall, hreq]
    exact ⟨(hq.invoked ..).mpr hm, fun hget => (hseq hget).trans (congrArg _ (hq.client c).2.symm)⟩

lemma Named.enter (h : Named clients w) (c : κ) (call : ApiCall) (req : Option Request) :
    (∀ k d call' req', .invoked k d call' req' ∈ w.history ++ [.invoked w.nextCall c call req] →
      k < w.nextCall + 1) ∧
    ∀ k d call₁ req₁ d' call₂ req₂, .invoked k d call₁ req₁ ∈ w.history ++ [.invoked w.nextCall c call req] →
      .invoked k d' call₂ req₂ ∈ w.history ++ [.invoked w.nextCall c call req] →
      d = d' ∧ call₁ = call₂ ∧ req₁ = req₂ := by
  refine ⟨fun k d call' req' hm => ?_, fun k d call₁ req₁ d' call₂ req₂ hm hm' => ?_⟩
  · rcases List.mem_append.mp hm with hm | hm
    · exact Nat.lt_succ_of_lt (h.numbered k d call' req' hm)
    · cases List.mem_singleton.mp hm
      exact Nat.lt_succ_self _
  · rcases List.mem_append.mp hm with hm | hm
    · rcases List.mem_append.mp hm' with hm' | hm'
      · exact h.unique k d call₁ req₁ d' call₂ req₂ hm hm'
      · cases List.mem_singleton.mp hm'
        exact absurd (h.numbered _ _ _ _ hm) (lt_irrefl _)
    · cases List.mem_singleton.mp hm
      rcases List.mem_append.mp hm' with hm' | hm'
      · exact absurd (h.numbered _ _ _ _ hm') (lt_irrefl _)
      · cases List.mem_singleton.mp hm'
        exact ⟨rfl, rfl, rfl⟩

lemma Named.refuse (h : Named clients w) (c : κ) (call : ApiCall) : Named clients { w with
    nextCall := w.nextCall + 1
    history := w.history ++ [.invoked w.nextCall c call none] } := by
  have hold : ∀ {k d call' req}, .invoked k d call' (some req) ∈ w.history ++
      [Occurrence.invoked w.nextCall c call none] → .invoked k d call' (some req) ∈ w.history := by
    intro k d call' req hm
    rcases List.mem_append.mp hm with hm | hm
    · exact hm
    · cases List.mem_singleton.mp hm
  obtain ⟨hnumbered, hunique⟩ := h.enter c call none
  refine ⟨h.client, hnumbered, hunique, fun k d call' req hm => h.prepared k d call' req (hold hm),
    fun k k' d call₁ call₂ req₁ req₂ hm hm' => h.identity k k' d call₁ call₂ req₁ req₂ (hold hm) (hold hm'),
    fun d e he => ?_⟩
  · obtain ⟨hm, hseq⟩ := h.running d e he
    exact ⟨List.mem_append_left _ hm, hseq⟩

lemma Named.invoke (h : Named clients w) {c : κ} {call : ApiCall} {client : RaftKVClient} {request : Request}
    (hprep : (w.clients c).prepare call = .ok (client, request)) : Named clients { w with
      clients := Function.update w.clients c client
      executions := Function.update w.executions c (some ⟨w.nextCall, call, request, 0, "None", none⟩)
      nextCall := w.nextCall + 1
      history := w.history ++ [.invoked w.nextCall c call (some request)] } := by
  obtain ⟨hid, hseq, hreq, hadm⟩ := RaftKVClient.prepare_ok hprep
  have hle : (w.clients c).seqNum ≤ client.seqNum := by
    rw [hseq]
    split_ifs <;> omega
  have hgrow : ∀ d, (w.clients d).seqNum ≤ (Function.update w.clients c client d).seqNum := by
    intro d
    by_cases hd : d = c
    · subst hd
      rw [Function.update_self]
      exact hle
    · rw [Function.update_of_ne hd]
  have hnew : ∀ {k call' req'}, .invoked k c call' (some req') ∈ w.history → call.isGet = false →
      call'.isGet = false → request.seqNum ≠ req'.seqNum := by
    -- the numbers of a client's writes grow
    intro k call' req' hm hget hget' heq
    obtain ⟨-, seq, hseq', hreq', -⟩ := h.prepared k c call' req' hm
    rw [hreq, hreq', (ApiCall.request_identity hget ..).2, (ApiCall.request_identity hget' ..).2] at heq
    rw [hseq, if_neg (Bool.eq_false_iff.mp hget)] at heq
    omega
  obtain ⟨hnumbered, hunique⟩ := h.enter c call (some request)
  refine ⟨fun d => ?_, hnumbered, hunique, fun k d call' req hm => ?_,
    fun k k' d call₁ call₂ req₁ req₂ hm hm' hget hget' heq => ?_, fun d e he => ?_⟩
  · dsimp only
    by_cases hd : d = c
    · subst hd
      rw [Function.update_self, hid, h.client]
    · rw [Function.update_of_ne hd, h.client]
  · rcases List.mem_append.mp hm with hm | hm
    · obtain ⟨hadm', seq, hseq', hreq', hpos⟩ := h.prepared k d call' req hm
      exact ⟨hadm', seq, hseq'.trans (hgrow d), hreq', hpos⟩
    · cases List.mem_singleton.mp hm
      dsimp only
      refine ⟨hadm, client.seqNum, by rw [Function.update_self], by rw [← h.client, hreq], fun hget => ?_⟩
      rw [hseq, if_neg (Bool.eq_false_iff.mp hget)]
      exact Nat.succ_pos _
  · rcases List.mem_append.mp hm with hm | hm
    · rcases List.mem_append.mp hm' with hm' | hm'
      · exact h.identity k k' d call₁ call₂ req₁ req₂ hm hm' hget hget' heq
      · cases List.mem_singleton.mp hm'
        exact absurd heq.symm (hnew hm hget' hget)
    · cases List.mem_singleton.mp hm
      rcases List.mem_append.mp hm' with hm' | hm'
      · exact absurd heq (hnew hm' hget hget')
      · cases List.mem_singleton.mp hm'
        rfl
  · dsimp only at he ⊢
    by_cases hd : d = c
    · subst hd
      rw [Function.update_self] at he ⊢
      cases he
      refine ⟨List.mem_append_right _ (List.mem_singleton.mpr rfl), fun hget => ?_⟩
      rw [hreq, (ApiCall.request_identity hget ..).2]
    · rw [Function.update_of_ne hd] at he ⊢
      obtain ⟨hm, hseq'⟩ := h.running d e he
      exact ⟨List.mem_append_left _ hm, hseq'⟩

variable [Fintype ι] {net : Network ι} {cfg : Config ι KVStateMachine Result}

lemma quiet_same (hclients : t.clients = w.clients) (hnext : t.nextCall = w.nextCall)
    (hinvoked : ∀ k c call req, .invoked k c call req ∈ t.history ↔ .invoked k c call req ∈ w.history)
    (hrunning : ∀ c e', t.executions c = some e' → ∃ e, w.executions c = some e ∧ e'.name = e.name ∧
      e'.call = e.call ∧ e'.request = e.request) : Quiet w t :=
  ⟨fun c => by rw [hclients]; exact ⟨rfl, rfl⟩, hnext, hinvoked, hrunning⟩

lemma mem_concat_ne {X : Type} {l : List X} {x y : X} (h : x ≠ y) : x ∈ l ++ [y] ↔ x ∈ l := by
  rw [List.mem_append, List.mem_singleton, or_iff_left h]

lemma Named.moves {ev : WorldEvent ι κ} (h : Named clients w) (hm : Moves cfg w ev t) : Named clients t := by
  cases hm with
  | system e s _ _ =>
    exact h.quiet (quiet_same rfl rfl (fun _ _ _ _ => Iff.rfl) fun c e he => ⟨e, he, rfl, rfl, rfl⟩)
  | refused c call _ => exact h.refuse c call
  | invoked c call client request _ hprep => exact h.invoke hprep
  | arrives c e i he _ =>
    refine h.quiet (quiet_same rfl rfl (fun k d call req => mem_concat_ne fun hx => by cases hx)
      fun d e' he' => ?_)
    by_cases hd : d = c
    · subst hd
      dsimp only at he'
      rw [Function.update_self] at he'
      cases he'
      exact ⟨e, he, rfl, rfl, rfl⟩
    · dsimp only at he'
      rw [Function.update_of_ne hd] at he'
      exact ⟨e', he', rfl, rfl, rfl⟩
  | late k l i _ =>
    exact h.quiet (quiet_same rfl rfl (fun k d call req => mem_concat_ne fun hx => by cases hx)
      fun c e he => ⟨e, he, rfl, rfl, rfl⟩)
  | answered c e k reply v he _ _ _ _ =>
    refine h.quiet (quiet_same rfl rfl (fun k d call req => mem_concat_ne fun hx => by cases hx)
      fun d e' he' => ?_)
    simp only [finish] at he'
    by_cases hd : d = c
    · subst hd
      rw [Function.update_self] at he'
      cases he'
    · rw [Function.update_of_ne hd] at he'
      exact ⟨e', he', rfl, rfl, rfl⟩
  | movesOn _ c e client next transit past he hon =>
    refine h.quiet ⟨fun d => ?_, rfl, fun k d call req => ?_, fun d e' he' => ?_⟩
    · simp only [moveOn]
      by_cases hd : d = c
      · subst hd
        rw [Function.update_self]
        exact ⟨hon.clientId, hon.seqNum⟩
      · rw [Function.update_of_ne hd]
        exact ⟨rfl, rfl⟩
    · rcases hon.past with rfl | ⟨message, rfl⟩
      · rw [moveOn, List.append_nil]
      · exact mem_concat_ne fun hx => by cases hx
    · simp only [moveOn] at he'
      by_cases hd : d = c
      · subst hd
        rw [Function.update_self] at he'
        obtain ⟨hname, hcall, hreq, -⟩ := hon.next e' he'
        exact ⟨e, he, hname, hcall, hreq⟩
      · rw [Function.update_of_ne hd] at he'
        exact ⟨e', he', rfl, rfl, rfl⟩

/-- Whose call a request is that is on its way or has arrived. -/
structure Delivered (w : World ι κ) : Prop where
  posted : ∀ l ∈ w.inTransit, ∃ c call, .invoked l.name c call (some l.request) ∈ w.history
  asked : ∀ k h, .arrived k h ∈ w.history → ∃ c call req i b, .invoked k c call (some req) ∈ w.history ∧
    .received h i b req ∈ w.system.history
  arrived : ∀ h i b req, .received h i b req ∈ w.system.history → ∃ k, .arrived k h ∈ w.history
  once : ∀ k k' h, .arrived k h ∈ w.history → .arrived k' h ∈ w.history → k = k'
  handled : ∀ c e h, w.executions c = some e → e.handler = some h → .arrived e.name h ∈ w.history

lemma step_nextHandler {s u : System ι} {e : Kv.Event ι} (hne : ∀ i request, e ≠ .receive i request)
    (h : System.step cfg s e = some u) : u.nextHandler = s.nextHandler := by
  cases e with
  | receive i request => exact (hne i request rfl).elim
  | raft e =>
    simp only [System.step] at h
    split_ifs at h
    obtain ⟨r, -, rfl⟩ := Option.map_eq_some_iff.mp h
    rfl
  | proceed k =>
    obtain ⟨hd, -, h⟩ := Option.bind_eq_some_iff.mp h
    obtain ⟨p, -, rfl⟩ := Option.map_eq_some_iff.mp h
    exact System.advance_nextHandler ..
  | append k =>
    obtain ⟨hd, -, h⟩ := Option.bind_eq_some_iff.mp h
    split_ifs at h
    cases h
    simp only [System.append]
    split
    · rfl
    · exact System.advance_nextHandler ..
  | returns k =>
    obtain ⟨hd, -, h⟩ := Option.bind_eq_some_iff.mp h
    split at h
    · obtain ⟨out, -, h⟩ := Option.bind_eq_some_iff.mp h
      obtain ⟨r, -, rfl⟩ := Option.map_eq_some_iff.mp h
      exact System.advance_nextHandler ..
    · cases h
  | timesOut k =>
    obtain ⟨hd, -, h⟩ := Option.bind_eq_some_iff.mp h
    split at h
    · obtain ⟨out, -, h⟩ := Option.bind_eq_some_iff.mp h
      obtain ⟨r, -, rfl⟩ := Option.map_eq_some_iff.mp h
      exact System.advance_nextHandler ..
    · cases h

/-- The cluster receives what arrives from the clients, and nothing else. -/
lemma step_received {s u : System ι} {e : Kv.Event ι} (hs : System.Sound cfg s)
    (hne : ∀ i request, e ≠ .receive i request) (h : System.step cfg s e = some u) {k b : ℕ} {i : ι}
    {req : Request} (hm : .received k i b req ∈ u.history) : .received k i b req ∈ s.history := by
  refine ((System.step_change h).renumbers.2 k i b req hm).resolve_right fun hle => ?_
  have hlt := (hs.step h).accounts.numbered k i b req hm
  rw [step_nextHandler hne h] at hlt
  exact absurd hlt (not_lt.mpr hle)

lemma Delivered.arrive (h : Delivered w) (hs : System.Sound cfg w.system) {k : ℕ} {c : κ} {call : ApiCall}
    {request : Request} (hinv : .invoked k c call (some request) ∈ w.history) (i : ι) :
    Delivered (w.arrive k i request) := by
  have hfresh : ∀ k', .arrived k' w.system.nextHandler ∉ w.history := by
    intro k' hm
    obtain ⟨-, -, req, j, b, -, hrec⟩ := h.asked k' _ hm
    exact absurd (hs.accounts.numbered _ _ _ _ hrec) (lt_irrefl _)
  refine ⟨fun l hl => ?_, fun k' l hm => ?_, fun l j b req hm => ?_, fun k₁ k₂ l hm hm' => ?_,
    fun d e l he hh => ?_⟩
  · obtain ⟨d, call', hd⟩ := h.posted l hl
    exact ⟨d, call', List.mem_append_left _ hd⟩
  · rcases List.mem_append.mp hm with hm | hm
    · obtain ⟨d, call', req, j, b, hd, hrec⟩ := h.asked k' l hm
      exact ⟨d, call', req, j, b, List.mem_append_left _ hd, List.mem_append_left _ hrec⟩
    · cases List.mem_singleton.mp hm
      exact ⟨c, call, request, i, _, List.mem_append_left _ hinv,
        List.mem_append_right _ (List.mem_singleton.mpr rfl)⟩
  · rcases List.mem_append.mp hm with hm | hm
    · obtain ⟨k', hk'⟩ := h.arrived l j b req hm
      exact ⟨k', List.mem_append_left _ hk'⟩
    · cases List.mem_singleton.mp hm
      exact ⟨k, List.mem_append_right _ (List.mem_singleton.mpr rfl)⟩
  · rcases List.mem_append.mp hm with hm | hm
    · rcases List.mem_append.mp hm' with hm' | hm'
      · exact h.once k₁ k₂ l hm hm'
      · cases List.mem_singleton.mp hm'
        exact (hfresh _ hm).elim
    · cases List.mem_singleton.mp hm
      rcases List.mem_append.mp hm' with hm' | hm'
      · exact (hfresh _ hm').elim
      · cases List.mem_singleton.mp hm'
        rfl
  · exact List.mem_append_left _ (h.handled d e l he hh)

/-- Nothing arrives. -/
lemma Delivered.grow (h : Delivered w) (hist : w.history ⊆ t.history)
    (harrived : ∀ k l, .arrived k l ∈ t.history → .arrived k l ∈ w.history)
    (hsystem : w.system.history ⊆ t.system.history)
    (hreceived : ∀ l i b req, .received l i b req ∈ t.system.history → .received l i b req ∈ w.system.history)
    (htransit : ∀ l ∈ t.inTransit, l ∈ w.inTransit ∨ ∃ c call, .invoked l.name c call (some l.request) ∈ w.history)
    (hhandled : ∀ c e' l, t.executions c = some e' → e'.handler = some l →
      ∃ e, w.executions c = some e ∧ e.handler = some l ∧ e'.name = e.name) : Delivered t where
  posted l hl := by
    rcases htransit l hl with hl | ⟨c, call, hc⟩
    · obtain ⟨c, call, hc⟩ := h.posted l hl
      exact ⟨c, call, hist hc⟩
    · exact ⟨c, call, hist hc⟩
  asked k l hm := by
    obtain ⟨c, call, req, i, b, hc, hrec⟩ := h.asked k l (harrived k l hm)
    exact ⟨c, call, req, i, b, hist hc, hsystem hrec⟩
  arrived l i b req hm := by
    obtain ⟨k, hk⟩ := h.arrived l i b req (hreceived l i b req hm)
    exact ⟨k, hist hk⟩
  once k k' l hm hm' := h.once k k' l (harrived k l hm) (harrived k' l hm')
  handled c e' l he' hl := by
    obtain ⟨e, he, hh, hname⟩ := hhandled c e' l he' hl
    rw [hname]
    exact hist (h.handled c e l he hh)

lemma Delivered.moves {ev : WorldEvent ι κ} (h : Delivered w) (hn : Named clients w)
    (hs : System.Sound cfg w.system) (hm : Moves cfg w ev t) : Delivered t := by
  have hsame : ∀ {c : κ} {next : Option Execution}, (∀ e' ∈ next, e'.handler = none) → ∀ d e' l,
      Function.update w.executions c next d = some e' → e'.handler = some l →
      ∃ e, w.executions d = some e ∧ e.handler = some l ∧ e'.name = e.name := by
    intro c next hnone d e' l he' hl
    by_cases hd : d = c
    · subst hd
      rw [Function.update_self] at he'
      rw [hnone e' he'] at hl
      cases hl
    · rw [Function.update_of_ne hd] at he'
      exact ⟨e', he', hl, rfl⟩
  cases hm with
  | system e s hne hstep =>
    obtain ⟨new, hnew⟩ := (System.step_change hstep).history
    exact h.grow (List.Subset.refl _) (fun _ _ hx => hx)
      (fun x hx => by dsimp only; rw [hnew]; exact List.mem_append_left _ hx)
      (fun l i b req hx => step_received hs hne hstep hx) (fun l hl => Or.inl hl)
      fun c e' l he' hl => ⟨e', he', hl, rfl⟩
  | refused c call _ =>
    exact h.grow (List.subset_append_left ..) (fun k l => (mem_concat_ne fun hx => by cases hx).mp)
      (List.Subset.refl _) (fun _ _ _ _ hx => hx) (fun l hl => Or.inl hl) fun d e' l he' hl => ⟨e', he', hl, rfl⟩
  | invoked c call client request _ _ =>
    refine h.grow (List.subset_append_left ..) (fun k l => (mem_concat_ne fun hx => by cases hx).mp)
      (List.Subset.refl _) (fun _ _ _ _ hx => hx) (fun l hl => Or.inl hl) (hsame fun e' he' => ?_)
    cases he'
    rfl
  | arrives c e i he _ =>
    have harr := h.arrive hs (hn.running c e he).1 i
    refine ⟨harr.posted, harr.asked, harr.arrived, harr.once, fun d e' l he' hl => ?_⟩
    dsimp only at he'
    by_cases hd : d = c
    · subst hd
      rw [Function.update_self] at he'
      cases he'
      cases hl
      exact List.mem_append_right _ (List.mem_singleton.mpr rfl)
    · rw [Function.update_of_ne hd] at he'
      exact harr.handled d e' l he' hl
  | late k l i hl =>
    obtain ⟨c, call, hinv⟩ := h.posted l hl
    have harr := h.arrive hs hinv i
    exact ⟨fun l' hl' => harr.posted l' (List.mem_of_mem_eraseIdx hl'), harr.asked, harr.arrived, harr.once,
      harr.handled⟩
  | answered c e k reply v _ _ _ _ _ =>
    refine h.grow (List.subset_append_left ..) (fun k l => (mem_concat_ne fun hx => by cases hx).mp)
      (List.Subset.refl _) (fun _ _ _ _ hx => hx) (fun l hl => Or.inl hl) (hsame fun e' he' => ?_)
    cases he'
  | movesOn _ c e client next transit past he hon =>
    refine h.grow (List.subset_append_left ..) (fun k l hx => ?_) (List.Subset.refl _) (fun _ _ _ _ hx => hx)
      (fun l hl => ?_) (hsame fun e' he' => (hon.next e' he').2.2.2)
    · rcases hon.past with rfl | ⟨message, rfl⟩
      · rwa [moveOn, List.append_nil] at hx
      · exact (mem_concat_ne fun hx => by cases hx).mp hx
    · refine (hon.transit l hl).imp_right fun hlast => ⟨c, e.call, ?_⟩
      rw [hlast.1, hlast.2]
      exact (hn.running c e he).1

/-- The calls that have returned. -/
structure Settled (w : World ι κ) : Prop where
  returned : ∀ k h call v, .returned k h call v ∈ w.history → .arrived k h ∈ w.history ∧
    (∃ c req, .invoked k c call (some req) ∈ w.history) ∧ ∃ reply ans, .replied h reply ∈ w.system.history ∧
      reply.mapAnswer = some ans ∧ call.answer ans = some v
  once : ∀ k h h' call call' v v', .returned k h call v ∈ w.history → .returned k h' call' v' ∈ w.history → h = h'
  running : ∀ c e h call v, w.executions c = some e → .returned e.name h call v ∉ w.history

/-- Nothing is returned. -/
lemma Settled.grow (h : Settled w) (hn : Named clients w) (hist : w.history ⊆ t.history)
    (hreturned : ∀ k l call v, .returned k l call v ∈ t.history → .returned k l call v ∈ w.history)
    (hsystem : w.system.history ⊆ t.system.history)
    (hrunning : ∀ c e', t.executions c = some e' →
      (∃ e, w.executions c = some e ∧ e'.name = e.name) ∨ e'.name = w.nextCall) : Settled t where
  returned k l call v hm := by
    obtain ⟨harr, ⟨c, req, hc⟩, reply, ans, hreply, hans⟩ := h.returned k l call v (hreturned k l call v hm)
    exact ⟨hist harr, ⟨c, req, hist hc⟩, reply, ans, hsystem hreply, hans⟩
  once k l l' call call' v v' hm hm' :=
    h.once k l l' call call' v v' (hreturned k l call v hm) (hreturned k l' call' v' hm')
  running c e' l call v he' hm := by
    have hm' := hreturned _ l call v hm
    rcases hrunning c e' he' with ⟨e, he, hname⟩ | hname
    · rw [hname] at hm'
      exact h.running c e l call v he hm'
    · obtain ⟨-, ⟨d, req, hd⟩, -⟩ := h.returned _ l call v hm'
      exact absurd (hn.numbered _ d call _ hd) (by omega)

variable {M : ℕ} {address : ι → String}

/-- Who was received as handler `h` of a call is the call's request. -/
lemma Delivered.request_eq (h : Delivered w) (hn : Named clients w) (hs : System.Sound cfg w.system) {k l b : ℕ}
    {c : κ} {call : ApiCall} {req req' : Request} {i : ι} (harr : .arrived k l ∈ w.history)
    (hinv : .invoked k c call (some req) ∈ w.history) (hrec : .received l i b req' ∈ w.system.history) :
    req' = req := by
  obtain ⟨c', call', req₁, j, b', hinv', hrec'⟩ := h.asked k l harr
  obtain ⟨-, -, hreq⟩ := hn.unique k _ _ _ _ _ _ hinv hinv'
  cases hreq
  exact (hs.accounts.unique l _ _ _ _ _ _ hrec hrec').2.2

/-- What answers a call that is under way is its own answer: no later request of its client was made. -/
lemma Delivered.not_stale (h : Delivered w) (hn : Named clients w)
    (hinj : Function.Injective fun c => (clients c).clientId)
    (hs : System.Sound (kv loadCas M address) w.system) (hans : System.Answered loadCas M w.system) {c : κ}
    {e : Execution} {l : ℕ} (he : w.executions c = some e) (hl : e.handler = some l) :
    .replied l (.written staleResult) ∉ w.system.history := by
  intro hm
  obtain ⟨hinv, hseq⟩ := hn.running c e he
  have harr := h.handled c e l he hl
  obtain ⟨hadm, seq, -, hreq, -⟩ := hn.prepared _ c e.call e.request hinv
  obtain ⟨i, b, req, hrec, hget, hev⟩ := hans l _ hm
  obtain rfl := h.request_eq hn hs harr hinv hrec
  rw [hreq, ApiCall.request_isGet] at hget
  obtain ⟨hid, hnum⟩ := ApiCall.request_identity hget (clients c).clientId seq
  rw [← hreq] at hid hnum
  have hnever : ∀ {es f}, ¬ Executed loadCas M es f staleResult := by
    rintro es f ⟨pre, -, hex⟩
    exact applyOp_ne_stale hex.result rfl
  rcases hev with ⟨f, -, hex⟩ | hev
  · exact hnever hex
  cases hev with
  | executed f _ _ _ hex => exact hnever hex
  | stale f r ht _ hfid hlt hex =>
    obtain ⟨k, j, b', req', -, hrec', hentry⟩ := hs.appender hex.mem ⟨hfid ▸ ht.1, ht.2.trans hlt⟩
    have hfields : f.clientId = req'.clientId ∧ f.seqNum = req'.seqNum := by
      rw [hentry]
      exact ⟨rfl, rfl⟩
    obtain ⟨k', hk'⟩ := h.arrived k j b' req' hrec'
    obtain ⟨d, call', req'', j', b'', hinv', hrec''⟩ := h.asked k' k hk'
    obtain ⟨-, -, rfl⟩ := hs.accounts.unique k _ _ _ _ _ _ hrec' hrec''
    obtain ⟨-, seq', hle, hreq', -⟩ := hn.prepared k' d call' req' hinv'
    have hget' : call'.isGet = false := by
      cases hcall : call'.isGet with
      | false => rfl
      | true =>
        have hempty : req'.clientId = "" := by
          have hreqGet := ApiCall.request_isGet call' (clients d).clientId seq'
          rw [hcall, ← hreq'] at hreqGet
          cases req' with
          | get key linearizable => rfl
          | _ => cases hreqGet
        exact (ht.1 (by rw [← hfid, hfields.1, hempty])).elim
    obtain ⟨hid', hnum'⟩ := ApiCall.request_identity hget' (clients d).clientId seq'
    rw [← hreq'] at hid' hnum'
    obtain rfl : d = c := hinj (by dsimp only; rw [← hid', ← hid, ← hfields.1, hfid])
    rw [hfields.2, hnum', hseq hget] at hlt
    omega

lemma mapAnswer_some {call : ApiCall} {reply : Reply ι} {v : Value} (hv : call.value reply = some v)
    (hfail : ∀ exc, reply ≠ .failure exc) (hstale : reply ≠ .written staleResult) :
    ∃ ans, reply.mapAnswer = some ans := by
  cases reply with
  | aborted => cases call <;> cases hv
  | failure exc => exact (hfail exc rfl).elim
  | written result => exact ⟨_, if_neg fun heq => hstale (congrArg _ heq)⟩
  | read value => exact ⟨_, rfl⟩

lemma Settled.moves {ev : WorldEvent ι κ} (h : Settled w) (hn : Named clients w) (hd : Delivered w)
    (hinj : Function.Injective fun c => (clients c).clientId)
    (hs : System.Sound (kv loadCas M address) w.system) (hans : System.Answered loadCas M w.system)
    (hm : Moves (kv loadCas M address) w ev t) : Settled t := by
  have hsame : ∀ {c : κ} {e : Execution} {next : Option Execution}, w.executions c = some e →
      (∀ e' ∈ next, e'.name = e.name) → ∀ d e', Function.update w.executions c next d = some e' →
      (∃ e, w.executions d = some e ∧ e'.name = e.name) ∨ e'.name = w.nextCall := by
    intro c e next he hnext d e' he'
    by_cases hd : d = c
    · subst hd
      rw [Function.update_self] at he'
      exact Or.inl ⟨e, he, hnext e' he'⟩
    · rw [Function.update_of_ne hd] at he'
      exact Or.inl ⟨e', he', rfl⟩
  cases hm with
  | system e s hne hstep =>
    obtain ⟨new, hnew⟩ := (System.step_change hstep).history
    exact h.grow hn (List.Subset.refl _) (fun _ _ _ _ hx => hx)
      (fun x hx => by dsimp only; rw [hnew]; exact List.mem_append_left _ hx) fun c e' he' => Or.inl ⟨e', he', rfl⟩
  | refused c call _ =>
    exact h.grow hn (List.subset_append_left ..) (fun _ _ _ _ => (mem_concat_ne fun hx => by cases hx).mp)
      (List.Subset.refl _) fun c e' he' => Or.inl ⟨e', he', rfl⟩
  | invoked c call client request _ _ =>
    refine h.grow hn (List.subset_append_left ..) (fun _ _ _ _ => (mem_concat_ne fun hx => by cases hx).mp)
      (List.Subset.refl _) fun d e' he' => ?_
    dsimp only at he'
    by_cases hd : d = c
    · subst hd
      rw [Function.update_self] at he'
      cases he'
      exact Or.inr rfl
    · rw [Function.update_of_ne hd] at he'
      exact Or.inl ⟨e', he', rfl⟩
  | arrives c e i he _ =>
    refine h.grow hn (List.subset_append_left ..) (fun _ _ _ _ => (mem_concat_ne fun hx => by cases hx).mp)
      (List.subset_append_left ..) (hsame he fun e' he' => ?_)
    cases he'
    rfl
  | late k l i _ =>
    exact h.grow hn (List.subset_append_left ..) (fun _ _ _ _ => (mem_concat_ne fun hx => by cases hx).mp)
      (List.subset_append_left ..) fun c e' he' => Or.inl ⟨e', he', rfl⟩
  | movesOn _ c e client next transit past he hon =>
    refine h.grow hn (List.subset_append_left ..) (fun k l call v hx => ?_) (List.Subset.refl _)
      (hsame he fun e' he' => (hon.next e' he').1)
    rcases hon.past with rfl | ⟨message, rfl⟩
    · rwa [moveOn, List.append_nil] at hx
    · exact (mem_concat_ne fun hx => by cases hx).mp hx
  | answered c e l reply v he hl hreply hv hfail =>
    have hmem := replyTo_mem hreply
    have hinv := (hn.running c e he).1
    have hrunning : ∀ {k call v'}, .returned e.name k call v' ∉ w.history := h.running c e _ _ _ he
    have hnot : reply ≠ .written staleResult := by
      rintro rfl
      exact hd.not_stale hn hinj hs hans he hl hmem
    obtain ⟨ans, hmap⟩ := mapAnswer_some hv hfail hnot
    refine ⟨fun k m call v' hm => ?_, fun k m m' call call' v₁ v₂ hm hm' => ?_, fun d e' m call v' he' hm => ?_⟩
    · rcases List.mem_append.mp hm with hm | hm
      · obtain ⟨harr, ⟨d, req, hd'⟩, reply', ans', hreply', hans'⟩ := h.returned k m call v' hm
        exact ⟨List.mem_append_left _ harr, ⟨d, req, List.mem_append_left _ hd'⟩, reply', ans', hreply', hans'⟩
      · cases List.mem_singleton.mp hm
        exact ⟨List.mem_append_left _ (hd.handled c e l he hl), ⟨c, e.request, List.mem_append_left _ hinv⟩,
          reply, ans, hmem, hmap, by rw [← ApiCall.value_answer hmap, hv]⟩
    · rcases List.mem_append.mp hm with hm | hm
      · rcases List.mem_append.mp hm' with hm' | hm'
        · exact h.once k m m' call call' v₁ v₂ hm hm'
        · cases List.mem_singleton.mp hm'
          exact (hrunning hm).elim
      · cases List.mem_singleton.mp hm
        rcases List.mem_append.mp hm' with hm' | hm'
        · exact (hrunning hm').elim
        · cases List.mem_singleton.mp hm'
          rfl
    · simp only [finish] at he'
      by_cases hdc : d = c
      · subst hdc
        rw [Function.update_self] at he'
        cases he'
      · rw [Function.update_of_ne hdc] at he'
        rcases List.mem_append.mp hm with hm | hm
        · exact h.running d e' m call v' he' hm
        · have hname := (Occurrence.returned.inj (List.mem_singleton.mp hm)).1
          have hinv' := (hn.running d e' he').1
          rw [hname] at hinv'
          exact hdc (hn.unique _ _ _ _ _ _ _ hinv' hinv).1

structure Books (clients : κ → RaftKVClient) (w : World ι κ) : Prop where
  named : Named clients w
  delivered : Delivered w
  settled : Settled w

/-- A step of the world is a step of the cluster's system, or the arrival of a request there, or none. -/
lemma moves_system {C : Cluster ι KVStateMachine Result → Raft.Event ι → Prop} {ev : WorldEvent ι κ}
    (hm : Moves cfg w ev t) (hc : AtRaft C w ev) : Run (System.step cfg) (System.AtRaft C) w.system t.system := by
  cases hm with
  | system e s _ hs => exact Run.single hc hs
  | arrives c e i _ _ => exact Run.single (e := .receive i e.request) trivial rfl
  | late k l i _ => exact Run.single (e := .receive i l.request) trivial rfl
  | _ => exact Run.refl

lemma moves_adds {ev : WorldEvent ι κ} (hm : Moves cfg w ev t) :
    t.history = w.history ∨ ∃ x, t.history = w.history ++ [x] := by
  cases hm with
  | system e s _ _ => exact Or.inl rfl
  | movesOn _ c e client next transit past _ hon =>
    rcases hon.past with rfl | ⟨message, rfl⟩
    · exact Or.inl (List.append_nil _)
    · exact Or.inr ⟨_, rfl⟩
  | _ => exact Or.inr ⟨_, rfl⟩

lemma run_system {C : Cluster ι KVStateMachine Result → Raft.Event ι → Prop}
    (h : Run (step net cfg) (AtRaft C) w t) : Run (System.step cfg) (System.AtRaft C) w.system t.system := by
  induction h with
  | refl => exact Run.refl
  | tail _ he ih =>
    obtain ⟨e, hc, hs⟩ := he
    exact ih.trans (moves_system (step_moves hs) hc)

lemma init_books (cfg : Config ι KVStateMachine Result) (clients : κ → RaftKVClient) :
    Books clients (init cfg clients) where
  named := by
    refine ⟨fun _ => rfl, fun _ _ _ _ hm => ?_, fun _ _ _ _ _ _ _ hm => ?_, fun _ _ _ _ hm => ?_,
      fun _ _ _ _ _ _ _ hm => ?_, fun _ _ he => ?_⟩
    · cases hm
    · cases hm
    · cases hm
    · cases hm
    · cases he
  delivered := by
    refine ⟨fun _ hl => ?_, fun _ _ hm => ?_, fun _ _ _ _ hm => ?_, fun _ _ _ hm => ?_, fun _ _ _ he => ?_⟩
    · cases hl
    · cases hm
    · cases hm
    · cases hm
    · cases he
  settled := by
    refine ⟨fun _ _ _ _ hm => ?_, fun _ _ _ _ _ _ _ hm => ?_, fun _ _ _ _ _ he => ?_⟩
    · cases hm
    · cases hm
    · cases he

lemma books {C : Cluster ι KVStateMachine Result → Raft.Event ι → Prop}
    (h : Run (step net (kv loadCas M address)) (AtRaft C) (init (kv loadCas M address) clients) w)
    (hinj : Function.Injective fun c => (clients c).clientId) : Books clients w := by
  induction h with
  | refl => exact init_books _ _
  | tail hrun he ih =>
    obtain ⟨e, -, hs⟩ := he
    have hm := step_moves hs
    have hsystem := run_system hrun
    have hsound := System.sound hsystem
    exact ⟨ih.named.moves hm, ih.delivered.moves ih.named hsound hm,
      ih.settled.moves ih.named ih.delivered hinj hsound (System.answered hsystem) hm⟩

end World

end DistributedStorage.Clients

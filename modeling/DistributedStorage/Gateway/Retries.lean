import DistributedStorage.Gateway.Service

/-! Sending a write again with the same `Idempotency-Key`: the session of the first time answers it. -/

namespace DistributedStorage.Gateway

open Library Raft Kv

/-- Applying the entries removes no session. -/
def KeepsSessions (loads : Bytes → Except String CasSpec) (m : KVStateMachine) (es : List Entry) :
    Prop :=
  ∀ pre e, pre ++ [e] <+: es → ∀ c, ((m.run loads pre).sessions.get c).isSome →
    ((m.run loads (pre ++ [e])).sessions.get c).isSome

variable {loads : Bytes → Except String CasSpec} {m : KVStateMachine} {es : List Entry}

lemma KeepsSessions.front {e : Entry} (h : KeepsSessions loads m (es ++ [e])) :
    KeepsSessions loads m es := fun pre f hpre => h pre f (hpre.trans (List.prefix_append _ _))

/-- Other clients' requests leave a session alone, and so do repeats of a request that it answers. -/
lemma apply_session {e : Entry} {c : String} {s : Session} (hop : e.opType ≠ .snapshot)
    (hs : m.sessions.get c = some s) (hrepeat : e.clientId = c → e.seqNum ≤ s.seq)
    (hkept : ((m.apply loads e).1.sessions.get c).isSome) :
    (m.apply loads e).1.sessions.get c = some s := by
  have hout := m.outcome loads hop
  generalize m.apply loads e = out at hout hkept
  obtain ⟨m', result⟩ := out
  dsimp only at hout hkept ⊢
  cases hout with
  | answered r ht hr => exact hs
  | raised exc hu hr => exact hs
  | applied r hu hr =>
    by_cases ht : Tracked e.clientId e.seqNum
    · rw [if_pos ht] at hkept ⊢
      obtain ⟨s', hs'⟩ := Option.isSome_iff_exists.mp hkept
      obtain ⟨hc, -⟩ | hold := remember_get_some hs'
      · -- the session would have answered it
        have hle := hrepeat hc
        have hnone := hu ht
        simp only [KVStateMachine.sessionResult, hc, hs] at hnone
        split_ifs at hnone with hlt
        omega
      · rw [hs']
        exact hold.symm.trans hs
    · rw [if_neg ht]
      exact hs

lemma run_session {c : String} {s : Session} (hop : ∀ e ∈ es, e.opType ≠ .snapshot)
    (hs : m.sessions.get c = some s) (hrepeat : ∀ e ∈ es, e.clientId = c → e.seqNum ≤ s.seq)
    (hkept : KeepsSessions loads m es) : (m.run loads es).sessions.get c = some s := by
  induction es using List.reverseRecOn with
  | nil => exact hs
  | append_singleton es e ih =>
    have hold := ih (fun f hf => hop f (List.mem_append_left _ hf))
      (fun f hf => hrepeat f (List.mem_append_left _ hf)) hkept.front
    have hstay := hkept es e List.prefix_rfl c (by rw [hold]; rfl)
    rw [KVStateMachine.run_concat] at hstay ⊢
    exact apply_session (hop e (by simp)) hold (hrepeat e (by simp)) hstay

namespace KVService

variable {svc : KVService} {k : String} {req : WriteRequest}

lemma identity_tracked (svc : KVService) (k : String) (req : WriteRequest) :
    Tracked (svc.identity k req) 1 := by
  refine ⟨fun h => ?_, by decide⟩
  have hl := congrArg String.toList h
  rw [identity, String.toList_append] at hl
  cases hl

/-- After the first send, the session table has its result. -/
lemma Sends.recorded {m' : KVStateMachine} {o : Outcome} (hM : 0 < m.maxSessions)
    (h : svc.Sends k req m o m') {request : Request}
    (hp : svc.prepare (svc.identity k req) req = .ok request) :
    ∃ r s, o = svc.complete r req ∧ m'.sessions.get (svc.identity k req) = some s ∧ 1 ≤ s.seq ∧
      m'.sessionResult (svc.identity k req) 1 = some r := by
  obtain ⟨hc, hq, -⟩ := svc.prepare_identity hp
  have ht := identity_tracked svc k req
  have hanswered : ∀ {n : KVStateMachine} {r : Result},
      n.sessionResult (svc.identity k req) 1 = some r →
      ∃ s, n.sessions.get (svc.identity k req) = some s ∧ 1 ≤ s.seq := by
    intro n r hr
    obtain ⟨s, hs, ⟨hseq, -⟩ | ⟨hlt, -⟩⟩ := sessionResult_eq_some hr
    · exact ⟨s, hs, hseq.le⟩
    · exact ⟨s, hs, hlt.le⟩
  cases h with
  | refused o he =>
    rw [hp] at he
    cases he
  | answered request' r hp' hlook =>
    rw [hp] at hp'
    cases hp'
    rw [hc, hq, KVStateMachine.lookupSession, if_neg (not_or.mpr ⟨ht.1, by decide⟩)] at hlook
    obtain ⟨s, hs, hle⟩ := hanswered hlook
    exact ⟨r, s, rfl, hs, hle, hlook⟩
  | applied request' term index r _ hp' happ =>
    rw [hp] at hp'
    cases hp'
    have hop : (request.command.entry term index).opType ≠ .snapshot :=
      (entry_opType request term index).1
    have hce : (request.command.entry term index).clientId = svc.identity k req := hc
    have hqe : (request.command.entry term index).seqNum = 1 := hq
    have hout := m.outcome loadCas hop
    have hres : (m.apply loadCas (request.command.entry term index)).2 = .ok r :=
      congrArg Prod.snd happ
    have hm : (m.apply loadCas (request.command.entry term index)).1 = m' := congrArg Prod.fst happ
    rw [← hm]
    clear happ hm
    generalize m.apply loadCas _ = out at hout hres ⊢
    obtain ⟨n, result⟩ := out
    dsimp only at hout hres ⊢
    cases hout with
    | answered r' _ hr =>
      cases hres
      rw [hce, hqe] at hr
      obtain ⟨s, hs, hle⟩ := hanswered hr
      exact ⟨r, s, rfl, hs, hle, hr⟩
    | raised exc hu hr => cases hres
    | applied r' hu hr =>
      cases hres
      rw [hce, hqe, if_pos ht]
      have hget : ∀ n : KVStateMachine, 0 < n.maxSessions →
          (n.remember (svc.identity k req) 1 r).sessions.get (svc.identity k req) = some ⟨1, r⟩ :=
        fun n hn => OrderedDict.get_popFirst_set hn
      have hanswer : ∀ n : KVStateMachine, 0 < n.maxSessions →
          (n.remember (svc.identity k req) 1 r).sessionResult (svc.identity k req) 1 = some r := by
        intro n hn
        rw [KVStateMachine.sessionResult, hget n hn]
        rfl
      exact ⟨r, ⟨1, r⟩, rfl, hget _ hM, le_rfl, hanswer _ hM⟩

/-- A send of a request that a session answers gives its result, and changes nothing. -/
lemma Sends.repeated {request : Request} {r : Result}
    (hp : svc.prepare (svc.identity k req) req = .ok request)
    (hr : m.sessionResult (svc.identity k req) 1 = some r) :
    svc.Sends k req m (svc.complete r req) m ∧
      ∀ o m', svc.Sends k req m o m' → o = svc.complete r req ∧ m' = m := by
  obtain ⟨hc, hq, -⟩ := svc.prepare_identity hp
  have ht := identity_tracked svc k req
  have hlook : m.lookupSession request.clientId request.seqNum = some r := by
    rw [hc, hq, KVStateMachine.lookupSession, if_neg (not_or.mpr ⟨ht.1, by decide⟩)]
    exact hr
  refine ⟨.answered request r hp hlook, fun o m' h => ?_⟩
  cases h with
  | refused o he =>
    rw [hp] at he
    cases he
  | answered request' r' hp' hlook' =>
    rw [hp] at hp'
    cases hp'
    rw [hlook] at hlook'
    cases hlook'
    exact ⟨rfl, rfl⟩
  | applied request' term index r' _ hp' happ =>
    rw [hp] at hp'
    cases hp'
    have hce : (request.command.entry term index).clientId = svc.identity k req := hc
    have hqe : (request.command.entry term index).seqNum = 1 := hq
    rw [KVStateMachine.apply, if_neg (entry_opType request term index).1] at happ
    simp only [hce, hqe, if_pos ht, hr] at happ
    cases happ
    exact ⟨rfl, rfl⟩

/-- A request that is sent again with its key, after writes of others that evict no session, ends as it
did the first time and changes nothing. A request with another key or another field has another
identity, and what answers it was executed under that one. -/
theorem idempotency_key (svc : KVService) (hashed : Set Bytes) (hcoll : Set.InjOn svc.digest hashed)
    (k : String) (req : WriteRequest) (hreq : svc.hashed k req ∈ hashed) :
    (∀ m m' o mid, 0 < m.maxSessions → svc.Sends k req m o m' →
      (∀ e ∈ mid, e.opType ≠ .snapshot ∧ (e.clientId = svc.identity k req → e.seqNum = 1)) →
      KeepsSessions loadCas m' mid →
      svc.Sends k req (m'.run loadCas mid) o (m'.run loadCas mid) ∧
        ∀ o' m'', svc.Sends k req (m'.run loadCas mid) o' m'' →
          o' = o ∧ m'' = m'.run loadCas mid) ∧
    ∀ k' req', svc.hashed k' req' ∈ hashed → (k', req') ≠ (k, req) →
      svc.identity k' req' ≠ svc.identity k req ∧
      ∀ M es r, (∀ e ∈ es, e.opType ≠ .snapshot) →
        ((KVStateMachine.init M).run loadCas es).lookupSession (svc.identity k' req') 1 = some r →
        ∃ e ∈ es, ∃ r', e.clientId = svc.identity k' req' ∧ e.clientId ≠ svc.identity k req ∧
          Executed loadCas M es e r' ∧ (r = r' ∨ r = staleResult) := by
  refine ⟨fun m m' o mid hM hsend hmid hkeep => ?_, fun k' req' hreq' hne => ?_⟩
  · cases hp : svc.prepare (svc.identity k req) req with
    | error early =>
      -- refused before the store is called, every time
      have honly : ∀ {n n' : KVStateMachine} {o' : Outcome}, svc.Sends k req n o' n' →
          o' = early ∧ n' = n := by
        intro n n' o' h
        cases h with
        | refused o' he =>
          rw [hp] at he
          cases he
          exact ⟨rfl, rfl⟩
        | answered request r hp' => simp [hp] at hp'
        | applied request term index r n' hp' => simp [hp] at hp'
      obtain ⟨rfl, rfl⟩ := honly hsend
      exact ⟨.refused o hp, fun o' m'' h => honly h⟩
    | ok request =>
      obtain ⟨r, s, rfl, hs, hle, hr⟩ := hsend.recorded hM hp
      have hstay := run_session (fun e he => (hmid e he).1) hs
        (fun e he hc => ((hmid e he).2 hc).le.trans hle) hkeep
      refine Sends.repeated hp ?_
      rw [← hr]
      simp only [KVStateMachine.sessionResult, hs, hstay]
  · have hid : svc.identity k' req' ≠ svc.identity k req := by
      intro heq
      have hdigest : svc.digest (svc.hashed k' req') = svc.digest (svc.hashed k req) := by
        have hl := congrArg String.toList heq
        rw [identity, identity, String.toList_append, String.toList_append] at hl
        exact String.toList_inj.mp (List.append_cancel_left hl)
      have htext := congrArg decodeUtf8 (hcoll hreq' hreq hdigest)
      rw [KVService.hashed, KVService.hashed, decodeUtf8_encodeUtf8, decodeUtf8_encodeUtf8] at htext
      have hrepr := congrArg String.toList (Option.some.inj htext)
      rw [String.toList_ofList, String.toList_ofList] at hrepr
      obtain ⟨rfl, rfl⟩ := WriteRequest.repr_injective hrepr
      exact hne rfl
    refine ⟨hid, fun M es r hop hlook => ?_⟩
    cases lookupSession_answers hop hlook with
    | executed e ht hc hq hex => exact ⟨e, hex.mem, r, hc, hc ▸ hid, hex, .inl rfl⟩
    | stale e r' ht hr hc hlt hex => exact ⟨e, hex.mem, r', hc, hc ▸ hid, hex, .inr hr⟩

def paid : WriteRequest := .put "order" (encodeUtf8 "paid") none false

def refunded : WriteRequest := .put "order" (encodeUtf8 "refunded") none false

def paidText : Bytes := encodeUtf8 "('order-42', ('put', 'order', b'paid', None, False))"

def refundedText : Bytes := encodeUtf8 "('order-42', ('put', 'order', b'refunded', None, False))"

/-- A gateway with the digests of the two texts. -/
def shop : KVService where
  maxValueBytes := 1048576
  printable _ := false
  digest text :=
    if text = paidText then "ba799a978e0566ec1e0ef7572e6ae4bf"
    else "216b46bdbaece0c463d38ab58b807fc0"

def paidEntry : Entry := ⟨1, 2, .put, "order", encodeUtf8 "paid", shop.identity "order-42" paid, 1⟩

/-- A write of a client without a name comes in between. -/
def cancelled : Entry := ⟨1, 3, .put, "order", [], "", 0⟩

theorem idempotency_key_order :
    shop.Sends "order-42" paid (((KVStateMachine.init 1).apply loadCas paidEntry).1.run loadCas [cancelled])
      (.written 1 false)
      (((KVStateMachine.init 1).apply loadCas paidEntry).1.run loadCas [cancelled]) ∧
    shop.identity "order-42" refunded ≠ shop.identity "order-42" paid := by
  have htexts : shop.hashed "order-42" paid = paidText ∧
      shop.hashed "order-42" refunded = refundedText := by decide +kernel
  have hdigest : shop.digest refundedText ≠ shop.digest paidText := by decide +kernel
  have hinj : Set.InjOn shop.digest {paidText, refundedText} := by
    rintro a (rfl | rfl) b (rfl | rfl) hab
    · rfl
    · exact (hdigest hab.symm).elim
    · exact (hdigest hab).elim
    · rfl
  obtain ⟨hretry, hother⟩ := idempotency_key shop {paidText, refundedText} hinj "order-42" paid
    (by rw [htexts.1]; exact .inl rfl)
  refine ⟨?_, (hother "order-42" refunded (by rw [htexts.2]; exact .inr rfl) (by decide)).1⟩
  refine (hretry (KVStateMachine.init 1) _ (.written 1 false) [cancelled] (by decide)
    (.applied (.put "order" (encodeUtf8 "paid") (shop.identity "order-42" paid) 1) 1 2
      (.ofPairs [("success", .bool true), ("version", .int 1)]) _ rfl ?_) ?_ ?_).1
  · exact Prod.ext rfl (by decide +kernel)
  · intro e he
    rw [List.mem_singleton.mp he]
    decide +kernel
  · intro pre e hpre c hc
    have hsame : ∀ m : KVStateMachine, (m.apply loadCas cancelled).1.sessions = m.sessions :=
      fun m => rfl
    obtain rfl : pre = [] := by
      have hl := hpre.length_le
      simpa using hl
    obtain rfl : e = cancelled := by simpa using hpre
    exact hc

end KVService

end DistributedStorage.Gateway

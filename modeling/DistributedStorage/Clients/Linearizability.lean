import DistributedStorage.Clients.Books

/-! The cluster is one map to the programs that use it through stubs: what a stub returns and when fits one
order of all calls, although a stub tries again, turns to other nodes and may never learn what became of a
request. -/

set_option linter.unusedSectionVars false

namespace DistributedStorage.Clients

open Library Library.Linearizability Raft Kv Runs

variable {ι κ : Type} [DecidableEq ι] [DecidableEq κ]

namespace World

variable {w : World ι κ} {clients : κ → RaftKVClient}

lemma Named.name_write (h : Named clients w) (hids : ∀ c, (clients c).clientId ≠ "") {k l : ℕ} {c : κ}
    {call : ApiCall} {req : Request} (hm : .invoked k c call (some req) ∈ w.history) (hget : call.isGet = false) :
    Tracked req.clientId req.seqNum ∧ req.name l = .client req.clientId req.seqNum := by
  obtain ⟨-, seq, -, hreq, hpos⟩ := h.prepared k c call req hm
  obtain ⟨hid, hseq⟩ := ApiCall.request_identity hget (clients c).clientId seq
  rw [← hreq] at hid hseq
  have ht : Tracked req.clientId req.seqNum := by
    refine ⟨hid ▸ hids c, ?_⟩
    have := hpos hget
    omega
  exact ⟨ht, if_pos ht⟩

lemma Named.name_read (h : Named clients w) {k : ℕ} {c : κ} {call : ApiCall} {req : Request}
    (hm : .invoked k c call (some req) ∈ w.history) (hget : call.isGet = true) (l : ℕ) :
    ¬ Tracked req.clientId req.seqNum ∧ req.name l = .call l := by
  obtain ⟨-, seq, -, hreq, -⟩ := h.prepared k c call req hm
  have hnot : ¬ Tracked req.clientId req.seqNum := by
    rw [← ApiCall.request_isGet call (clients c).clientId seq, ← hreq] at hget
    cases req with
    | get key linearizable => exact fun ht => ht.1 rfl
    | _ => cases hget
  exact ⟨hnot, if_neg hnot⟩

/-- One identity is one call. -/
lemma Named.same_call (h : Named clients w) (hinj : Function.Injective fun c => (clients c).clientId) {k k' : ℕ}
    {c c' : κ} {call call' : ApiCall} {req req' : Request} (hm : .invoked k c call (some req) ∈ w.history)
    (hm' : .invoked k' c' call' (some req') ∈ w.history) (hget : call.isGet = false) (hget' : call'.isGet = false)
    (hid : req.clientId = req'.clientId) (hseq : req.seqNum = req'.seqNum) : k = k' := by
  obtain ⟨-, seq, -, hreq, -⟩ := h.prepared k c call req hm
  obtain ⟨-, seq', -, hreq', -⟩ := h.prepared k' c' call' req' hm'
  have hc := (ApiCall.request_identity hget (clients c).clientId seq).1
  have hc' := (ApiCall.request_identity hget' (clients c').clientId seq').1
  rw [← hreq] at hc
  rw [← hreq'] at hc'
  obtain rfl : c = c' := hinj (by dsimp only; rw [← hc, ← hc', hid])
  exact h.identity k k' c call call' req req' hm hm' hget hget' hseq

lemma Books.owner (h : Books clients w) {l b : ℕ} {i : ι} {req : Request} {cfg : Config ι KVStateMachine Result}
    [Fintype ι] (hs : System.Sound cfg w.system) (hrec : .received l i b req ∈ w.system.history) :
    ∃ k c call, .arrived k l ∈ w.history ∧ .invoked k c call (some req) ∈ w.history := by
  obtain ⟨k, harr⟩ := h.delivered.arrived l i b req hrec
  obtain ⟨c, call, req', j, b', hinv, hrec'⟩ := h.delivered.asked k l harr
  obtain ⟨-, -, rfl⟩ := hs.accounts.unique l _ _ _ _ _ _ hrec hrec'
  exact ⟨k, c, call, harr, hinv⟩

variable [Fintype ι] {cfg : Config ι KVStateMachine Result}

lemma Books.repeats (h : Books clients w) (hs : System.Sound cfg w.system)
    (hinj : Function.Injective fun c => (clients c).clientId) : w.system.Repeats := by
  intro l i b req l' j b' req' hm hm' ht hid hseq
  obtain ⟨k, c, call, -, hinv⟩ := h.owner hs hm
  obtain ⟨k', c', call', -, hinv'⟩ := h.owner hs hm'
  have hwrites : ∀ {k c call req₁}, .invoked k c call (some req₁) ∈ w.history →
      Tracked req₁.clientId req₁.seqNum → call.isGet = false := by
    intro k c call req₁ hinv ht
    cases hget : call.isGet with
    | false => rfl
    | true => exact ((h.named.name_read hinv hget 0).1 ht).elim
  obtain rfl := h.named.same_call hinj hinv hinv' (hwrites hinv ht) (hwrites hinv' (by rw [hid, hseq]; exact ht))
    hid.symm hseq.symm
  exact Option.some.inj (h.named.unique k _ _ _ _ _ _ hinv hinv').2.2

lemma Books.room [Fintype κ] (h : Books clients w) (hs : System.Sound cfg w.system) (i : ι) (b : ℕ) :
    (trackedClients (w.system.applied i b)).dedup.length ≤ Fintype.card κ := by
  have hsub : (trackedClients (w.system.applied i b)).dedup ⊆
      Finset.univ.toList.map fun c => (clients c).clientId := by
    intro id hid
    obtain ⟨e, he, rfl⟩ := List.mem_map.mp (List.mem_dedup.mp hid)
    obtain ⟨hin, ht⟩ := List.mem_filter.mp he
    obtain ⟨k, j, b', req, -, hrec, hentry⟩ := hs.appender hin (of_decide_eq_true ht)
    obtain ⟨k', c, call, -, hinv⟩ := h.owner hs hrec
    have hfields : e.clientId = req.clientId ∧ e.seqNum = req.seqNum := by
      rw [hentry]
      exact ⟨rfl, rfl⟩
    have hget : call.isGet = false := by
      cases hget : call.isGet with
      | false => rfl
      | true =>
        refine ((h.named.name_read hinv hget 0).1 ?_).elim
        rw [← hfields.1, ← hfields.2]
        exact of_decide_eq_true ht
    obtain ⟨-, seq, -, hreq, -⟩ := h.named.prepared k' c call req hinv
    refine List.mem_map.mpr ⟨c, Finset.mem_toList.mpr (Finset.mem_univ c), ?_⟩
    rw [hfields.1, hreq, (ApiCall.request_identity hget ..).1]
  have hle := ((List.nodup_dedup _).subperm hsub).length_le
  rwa [List.length_map, Finset.length_toList, Finset.card_univ] at hle

/-- What a call makes of the operation that its request comes to: for a write the one of its identity, for a
read the one whose answer it returned. -/
def Shows (w : World ι κ) (x : Served OpName MapOp MapAnswer) (y : Served ℕ ApiCall Value) : Prop :=
  ∃ c req, .invoked y.call c y.op (some req) ∈ w.history ∧ y.op.promises = true ∧ y.op.answer x.ans = some y.ans ∧
    ((y.op.isGet = false ∧ x.call = .client req.clientId req.seqNum) ∨
      (y.op.isGet = true ∧ ∃ h v, x.call = .call h ∧ .returned y.call h y.op v ∈ w.history))

/-- A run of the world, with the calls' identities apart. -/
structure Story (M : ℕ) (address : ι → String) (net : Network ι) (clients : κ → RaftKVClient) (w : World ι κ)
    (n : ℕ) (σ : ℕ → World ι κ) : Prop where
  path : Path (step net (kv loadCas M address)) (AtRaft (Cluster.AtDelivery Cluster.Timely))
    (init (kv loadCas M address) clients) w n σ
  distinct : Function.Injective fun c => (clients c).clientId
  named : ∀ c, (clients c).clientId ≠ ""

namespace Story

variable {M n : ℕ} {address : ι → String} {net : Network ι} {σ : ℕ → World ι κ}
  (hc : Story M address net clients w n σ)

include hc

lemma books {k : ℕ} (hk : k ≤ n) : Books clients (σ k) := World.books (hc.path.upto hk) hc.distinct

lemma booksEnd : Books clients w := hc.path.last ▸ hc.books le_rfl

lemma sound {k : ℕ} (hk : k ≤ n) : System.Sound (kv loadCas M address) (σ k).system :=
  System.sound (run_system (hc.path.upto hk))

lemma soundEnd : System.Sound (kv loadCas M address) w.system := hc.path.last ▸ hc.sound le_rfl

lemma system {k : ℕ} (hk : k ≤ n) : (σ k).system.history <+: w.system.history :=
  System.run_history (run_system (hc.path.onto hk))

lemma single {x : Served OpName MapOp MapAnswer} {y y' : Served ℕ ApiCall Value} (h : w.Shows x y)
    (h' : w.Shows x y') : y = y' := by
  have hb := hc.booksEnd
  obtain ⟨c, req, hinv, -, hans, hcall⟩ := h
  obtain ⟨c', req', hinv', -, hans', hcall'⟩ := h'
  have hsame : y.call = y'.call := by
    rcases hcall with ⟨hget, hx⟩ | ⟨-, l, v, hx, hret⟩
    · rcases hcall' with ⟨hget', hx'⟩ | ⟨-, l', v', hx', -⟩
      · obtain ⟨hid, hseq⟩ := OpName.client.inj (hx.symm.trans hx')
        exact hb.named.same_call hc.distinct hinv hinv' hget hget' hid hseq
      · rw [hx] at hx'
        cases hx'
    · rcases hcall' with ⟨-, hx'⟩ | ⟨-, l', v', hx', hret'⟩
      · rw [hx] at hx'
        cases hx'
      · obtain rfl := OpName.call.inj (hx.symm.trans hx')
        exact hb.delivered.once _ _ _ (hb.settled.returned _ _ _ _ hret).1 (hb.settled.returned _ _ _ _ hret').1
  obtain ⟨k, op, ans⟩ := y
  obtain ⟨k', op', ans'⟩ := y'
  dsimp only at hsame hinv hinv' hans hans'
  subst hsame
  obtain ⟨-, rfl, -⟩ := hb.named.unique _ _ _ _ _ _ _ hinv hinv'
  obtain rfl := Option.some.inj (hans.symm.trans hans')
  rfl

/-- Calls come to one operation each. -/
lemma apart {x x' : Served OpName MapOp MapAnswer} {y y' : Served ℕ ApiCall Value} (h : w.Shows x y)
    (h' : w.Shows x' y') (hne : x.call ≠ x'.call) : y.call ≠ y'.call := by
  intro heq
  have hb := hc.booksEnd
  obtain ⟨c, req, hinv, -, -, hcall⟩ := h
  obtain ⟨c', req', hinv', -, -, hcall'⟩ := h'
  rw [← heq] at hinv'
  obtain ⟨-, hop, hreq⟩ := hb.named.unique _ _ _ _ _ _ _ hinv hinv'
  cases hreq
  rcases hcall with ⟨hget, hx⟩ | ⟨hget, l, v, hx, hret⟩
  · rcases hcall' with ⟨-, hx'⟩ | ⟨hget', -⟩
    · exact hne (hx.trans hx'.symm)
    · rw [← hop, hget] at hget'
      cases hget'
  · rcases hcall' with ⟨hget', -⟩ | ⟨-, l', v', hx', hret'⟩
    · rw [← hop, hget] at hget'
      cases hget'
    · rw [← heq] at hret'
      obtain rfl := hb.settled.once _ _ _ _ _ _ _ hret hret'
      exact hne (hx.trans hx'.symm)

/-- The request of a call that arrived is an operation of the cluster's history, under this name. -/
lemma request_eq {k l : ℕ} {c : κ} {call : ApiCall} {req : Request} (harr : .arrived k l ∈ w.history)
    (hinv : .invoked k c call (some req) ∈ w.history) : w.system.request l = some req := by
  obtain ⟨c', call', req', i, b, hinv', hrec⟩ := hc.booksEnd.delivered.asked k l harr
  obtain ⟨-, -, hreq⟩ := hc.booksEnd.named.unique _ _ _ _ _ _ _ hinv hinv'
  cases hreq
  exact hc.soundEnd.accounts.request_eq hrec

/-- What comes first at the clients comes first at the cluster. -/
lemma precedes {x x' : Served OpName MapOp MapAnswer} {y y' : Served ℕ ApiCall Value} (h : w.Shows x y)
    (h' : w.Shows x' y') (hp : Precedes w.operations y'.call y.call) :
    Precedes w.system.operations x'.call x.call := by
  have hb := hc.booksEnd
  obtain ⟨p, ⟨q, hpq⟩, ⟨ans, hans⟩, hun⟩ := hp
  obtain ⟨p', q', hsplit, rfl, -⟩ := List.filterMap_eq_append_iff.mp hpq.symm
  have hgrow : ∀ u v : World ι κ, Allowed (step net (kv loadCas M address))
      (AtRaft (Cluster.AtDelivery Cluster.Timely)) u v →
      v.history = u.history ∨ ∃ x, v.history = u.history ++ [x] := by
    rintro u v ⟨e, -, hs⟩
    exact moves_adds (step_moves hs)
  obtain ⟨k, hk, hbeginning⟩ := hc.path.beginning (f := World.history) rfl hgrow ⟨q', hsplit.symm⟩
  have hbooks := hc.books hk
  have hsub : (σ k).history ⊆ w.history := (hbeginning ▸ ⟨q', hsplit.symm⟩ : (σ k).history <+: w.history).subset
  obtain ⟨c, req, hinv, hpromises, -, hcall⟩ := h
  obtain ⟨c', req', hinv', hpromises', -, hcall'⟩ := h'
  refine ⟨(σ k).system.history.filterMap w.system.operation, (hc.system hk).filterMap _, ?_, fun op hop => ?_⟩
  · obtain ⟨o, ho, hoans⟩ := List.mem_filterMap.mp hans
    cases o with
    | returned k' l call v =>
      simp only [operation] at hoans
      split_ifs at hoans
      cases hoans
      rw [← hbeginning] at ho
      obtain ⟨harr, -, reply, ans', hreply, hmap, -⟩ := hbooks.settled.returned _ _ _ _ ho
      refine ⟨ans', List.mem_filterMap.mpr ⟨_, hreply, ?_⟩⟩
      have hname : req'.name l = x'.call := by
        rcases hcall' with ⟨hget, hx⟩ | ⟨hget, l', v', hx, hret⟩
        · rw [hx, (hb.named.name_write hc.named hinv' hget).2]
        · obtain rfl := hb.settled.once _ _ _ _ _ _ _ hret (hsub ho)
          rw [hx, (hb.named.name_read hinv' hget l').2]
      obtain ⟨-, seq, -, hreq, -⟩ := hb.named.prepared _ _ _ _ hinv'
      have hsome : req'.mapOp.isSome = true := by rw [hreq, ApiCall.request_promises, hpromises']
      rw [System.operation, hc.request_eq (hsub harr) hinv', Option.bind_some, if_pos hsome, hmap, hname]
      rfl
    | invoked k' c₁ call req₁ =>
      simp only [operation] at hoans
      split_ifs at hoans
      cases hoans
    | arrived k' l => cases hoans
    | raised k' message => cases hoans
  · -- what the cluster had received of a call, its client had been asked for
    obtain ⟨o, ho, hoinv⟩ := List.mem_filterMap.mp hop
    cases o with
    | received l i b req₁ =>
      obtain ⟨op', -, heq⟩ := Option.map_eq_some_iff.mp hoinv
      have hname := (Happening.invoked.inj heq).1
      obtain ⟨k', c₁, call, harr, hinv₁⟩ := hbooks.owner (hc.sound hk) ho
      have hsame : k' = y.call := by
        rcases hcall with ⟨hget, hx⟩ | ⟨hget, l', v', hx, hret⟩
        · rw [← hname] at hx
          cases hget₁ : call.isGet with
          | true =>
            rw [(hb.named.name_read (hsub hinv₁) hget₁ l).2] at hx
            cases hx
          | false =>
            rw [(hb.named.name_write hc.named (hsub hinv₁) hget₁).2] at hx
            obtain ⟨hid, hseq⟩ := OpName.client.inj hx
            exact hb.named.same_call hc.distinct (hsub hinv₁) hinv hget₁ hget hid hseq
        · rw [← hname] at hx
          cases hget₁ : call.isGet with
          | true =>
            rw [(hb.named.name_read (hsub hinv₁) hget₁ l).2] at hx
            cases hx
            exact hb.delivered.once _ _ _ (hsub harr) (hb.settled.returned _ _ _ _ hret).1
          | false =>
            rw [(hb.named.name_write hc.named (hsub hinv₁) hget₁).2] at hx
            cases hx
      subst hsame
      obtain ⟨rfl, rfl, -⟩ := hb.named.unique _ _ _ _ _ _ _ hinv (hsub hinv₁)
      refine hun y.op (List.mem_filterMap.mpr ⟨_, hbeginning ▸ hinv₁, ?_⟩)
      rw [operation, if_pos hpromises]
    | appended l e => cases hoinv
    | replied l reply =>
      obtain ⟨req₁, -, hoinv⟩ := Option.bind_eq_some_iff.mp hoinv
      split_ifs at hoinv
      obtain ⟨ans', -, hoinv⟩ := Option.map_eq_some_iff.mp hoinv
      cases hoinv

/-- An operation that the cluster received is some call's. -/
lemma serves {l : List (Served OpName MapOp MapAnswer)}
    (hl : Linearization VersionedMap.object w.system.operations l) {x : Served OpName MapOp MapAnswer}
    (hx : x ∈ l) {m t : VersionedMap} (hstep : VersionedMap.object.step m x.op = (t, x.ans)) :
    (∃ y, w.Shows x y ∧ Store.object.step m y.op = (t, y.ans)) ∨ ((∀ y, ¬ w.Shows x y) ∧ t = m) := by
  have hb := hc.booksEnd
  obtain ⟨o, ho, hoinv⟩ := List.mem_filterMap.mp (hl.invoked x hx)
  cases o with
  | received h i b req =>
    obtain ⟨op, hmap, heq⟩ := Option.map_eq_some_iff.mp hoinv
    obtain ⟨hname, hop⟩ := Happening.invoked.inj heq
    obtain ⟨k, c, call, harr, hinv⟩ := hb.owner hc.soundEnd ho
    obtain ⟨hadm, seq, -, hreq, -⟩ := hb.named.prepared k c call req hinv
    have hmapOp : (call.request (clients c).clientId seq).mapOp = some x.op := by rw [← hreq, hmap, hop]
    have hpromises : call.promises = true := by
      rw [← ApiCall.request_promises call (clients c).clientId seq, hmapOp]
      rfl
    obtain ⟨v, hv, hcall⟩ := ApiCall.serves hadm hmapOp hstep
    cases hget : call.isGet with
    | false =>
      refine Or.inl ⟨⟨k, call, v⟩, ⟨c, req, hinv, hpromises, hv, Or.inl ⟨hget, ?_⟩⟩, hcall⟩
      rw [← hname, (hb.named.name_write hc.named hinv hget).2]
    | true =>
      rw [(hb.named.name_read hinv hget h).2] at hname
      by_cases hret : ∃ v', .returned k h call v' ∈ w.history
      · obtain ⟨v', hv'⟩ := hret
        exact Or.inl ⟨⟨k, call, v⟩, ⟨c, req, hinv, hpromises, hv, Or.inr ⟨hget, h, v', hname.symm, hv'⟩⟩, hcall⟩
      · -- an attempt whose answer was not returned
        refine Or.inr ⟨?_, ?_⟩
        · rintro ⟨k', call', v'⟩ ⟨c', req', hinv', -, -, ⟨-, hx'⟩ | ⟨-, h', v'', hx', hret'⟩⟩
          · rw [← hname] at hx'
            cases hx'
          · rw [← hname] at hx'
            obtain rfl := OpName.call.inj hx'
            obtain rfl := hb.delivered.once _ _ _ harr (hb.settled.returned _ _ _ _ hret').1
            obtain ⟨-, rfl, -⟩ := hb.named.unique _ _ _ _ _ _ _ hinv hinv'
            exact hret ⟨_, hret'⟩
        · cases call with
          | get key linearizable => exact (Prod.mk.inj hcall).1.symm
          | getVersioned key linearizable => exact (Prod.mk.inj hcall).1.symm
          | _ => cases hget
  | appended h e => cases hoinv
  | replied h reply =>
    obtain ⟨req, -, hoinv⟩ := Option.bind_eq_some_iff.mp hoinv
    split_ifs at hoinv
    obtain ⟨ans, -, hoinv⟩ := Option.map_eq_some_iff.mp hoinv
    cases hoinv

/-- What a call returned is among the operations of the cluster. -/
lemma returned {l : List (Served OpName MapOp MapAnswer)}
    (hl : Linearization VersionedMap.object w.system.operations l) {k : ℕ} {call : ApiCall} {v : Value}
    (hinv : .invoked k call ∈ w.operations) (hans : .answered k v ∈ w.operations) :
    ∃ x ∈ l, w.Shows x ⟨k, call, v⟩ := by
  have hb := hc.booksEnd
  obtain ⟨o, ho, hoans⟩ := List.mem_filterMap.mp hans
  cases o with
  | returned k' h call' v' =>
    simp only [operation] at hoans
    split_ifs at hoans with hpromises
    cases hoans
    obtain ⟨harr, ⟨c, req, hinv'⟩, reply, ans, hreply, hmap, hv⟩ := hb.settled.returned _ _ _ _ ho
    have hsame : call = call' := by
      obtain ⟨o, ho', hoinv⟩ := List.mem_filterMap.mp hinv
      cases o with
      | invoked k₁ c₁ call₁ req₁ =>
        simp only [operation] at hoinv
        split_ifs at hoinv
        cases hoinv
        exact (hb.named.unique _ _ _ _ _ _ _ ho' hinv').2.1
      | arrived k₁ h₁ => cases hoinv
      | returned k₁ h₁ call₁ v₁ =>
        simp only [operation] at hoinv
        split_ifs at hoinv
        cases hoinv
      | raised k₁ message => cases hoinv
    subst hsame
    obtain ⟨c', call', req', i, b, hinv₁, hrec⟩ := hb.delivered.asked _ _ harr
    obtain ⟨-, -, hreq⟩ := hb.named.unique _ _ _ _ _ _ _ hinv' hinv₁
    cases hreq
    obtain ⟨-, seq, -, hreq, -⟩ := hb.named.prepared _ _ _ _ hinv'
    obtain ⟨op, hop⟩ : ∃ op, req.mapOp = some op := by
      refine Option.isSome_iff_exists.mp ?_
      rw [hreq, ApiCall.request_promises, hpromises]
    have hinvoked : .invoked (req.name h) op ∈ w.system.operations := by
      refine List.mem_filterMap.mpr ⟨_, hrec, ?_⟩
      rw [System.operation, hop, Option.map_some]
    have hanswered : .answered (req.name h) ans ∈ w.system.operations := by
      refine List.mem_filterMap.mpr ⟨_, hreply, ?_⟩
      rw [System.operation, hc.request_eq harr hinv', Option.bind_some, hop, Option.isSome_some, if_pos rfl, hmap]
      rfl
    refine ⟨_, hl.answered _ _ _ hinvoked hanswered, c, req, hinv', hpromises, hv, ?_⟩
    rcases Bool.eq_false_or_eq_true call.isGet with hget | hget
    · exact Or.inr ⟨hget, h, v, (hb.named.name_read hinv' hget h).2, ho⟩
    · exact Or.inl ⟨hget, (hb.named.name_write hc.named hinv' hget).2⟩
  | invoked k' c call' req =>
    simp only [operation] at hoans
    split_ifs at hoans
    cases hoans
  | arrived k' h => cases hoans
  | raised k' message => cases hoans

end Story

/-- The programs that use the cluster through stubs share one map. In runs where every reply comes in its
sender's term, whatever gets lost or late and however often a stub tries again, there is an order of their
writes and linearizable reads, made one after the other on a map of versioned values, that returns what they
returned and never puts a call before one that had returned when it was made. -/
theorem clients_share_one_map [Fintype κ] (M : ℕ) (address : ι → String) (net : Network ι)
    (clients : κ → RaftKVClient) (hinj : Function.Injective fun c => (clients c).clientId)
    (hids : ∀ c, (clients c).clientId ≠ "") (hroom : Fintype.card κ ≤ M) (w : World ι κ)
    (h : Run (step net (kv loadCas M address)) (AtRaft (Cluster.AtDelivery Cluster.Timely))
      (init (kv loadCas M address) clients) w) : Linearizable Store.object w.operations := by
  obtain ⟨n, σ, hpath⟩ := Run.path h
  have hc : Story M address net clients w n σ := ⟨hpath, hinj, hids⟩
  have hb := hc.booksEnd
  obtain ⟨_, _, _, hchronicle⟩ := System.exists_chronicle (run_system h) (hb.repeats hc.soundEnd hinj)
    fun i b => (hb.room hc.soundEnd i b).trans hroom
  obtain ⟨l, hl⟩ := hchronicle.linearized
  have hview : View VersionedMap.object w.system.operations l Store.object w.operations w.Shows := by
    refine ⟨rfl, fun x y y' hy hy' => hc.single hy hy', fun x hx m t hstep => hc.serves hl hx hstep,
      fun x _ x' _ y y' hy hy' hfollows => ?_, fun x _ y hy => ?_,
      fun k op ans hinv hans => hc.returned hl hinv hans⟩
    · exact ⟨hc.apart hy hy' hfollows.1, fun hp => hfollows.2 (hc.precedes hy hy' hp)⟩
    · obtain ⟨c, req, hinv, hpromises, -⟩ := hy
      refine List.mem_filterMap.mpr ⟨_, hinv, ?_⟩
      rw [operation, if_pos hpromises]
  exact hview.linearized hl

def retriedNetwork : Network (Fin 3) where
  server address := if address = "a:1" then some 0 else if address = "b:2" then some 1 else none
  idText i := toString i.val
  exceptionName := "Exception"

def retriedAddress (i : Fin 3) : String := ["a:1", "b:2", "c:3"].getD i.val ""

/-- A put goes to a follower first, and its answer gets lost at the leader. -/
def retriedClients (c : Fin 2) : RaftKVClient :=
  if c = 0 then .new [("b", 2), ("a", 1)] (List.cons_ne_nil _ _) 5 "c"
  else .new [("a", 1)] (List.cons_ne_nil _ _) 5 "d"

def inSystem (events : List (Kv.Event (Fin 3))) : List (WorldEvent (Fin 3) (Fin 2)) := events.map .system

/-- Node 0 commits what it has appended with node 1 and applies it. -/
def committed (first : ℕ) : List (Kv.Event (Fin 3)) :=
  List.flatten [(Cluster.replicate 0 1 first).map .raft, [.raft (.applierTakes 0)], System.applies 0]

def putRetried : List (WorldEvent (Fin 3) (Fin 2)) :=
  List.flatten [inSystem ((Cluster.campaign 0 1 0 [1]).map .raft),
    [.invokes 0 (.put "k" [2]), .arrives 0],
    inSystem [.proceed 0, .proceed 0, .proceed 0, .proceed 0],
    [.responds 0, .arrives 0],
    inSystem (System.submits 1), inSystem (committed 2), inSystem (System.applies 0), inSystem [.returns 1],
    [.fails 0 .deadlineExceeded "Deadline Exceeded" "", .arrives 0],
    inSystem [.proceed 2, .proceed 2, .proceed 2, .proceed 2],
    [.responds 0, .arrives 0], inSystem [.proceed 3, .proceed 3], [.responds 0]]

def getAfterPut : List (WorldEvent (Fin 3) (Fin 2)) :=
  List.flatten [[.invokes 1 (.get "k" true), .arrives 1], inSystem (System.barrier 4), inSystem (committed 4),
    inSystem [.returns 4, .proceed 4], [.responds 1]]

def retriedHistory : List (Occurrence (Fin 2)) :=
  [.invoked 0 0 (.put "k" [2]) (some (.put "k" [2] "c" 1)), .arrived 0 0, .arrived 0 1, .arrived 0 2,
    .arrived 0 3, .returned 0 3 (.put "k" [2]) (.version 1), .invoked 1 1 (.get "k" true) (some (.get "k" true)),
    .arrived 1 4, .returned 1 4 (.get "k" true) (.value (some [2]))]

theorem clients_share_one_map_retried : ∃ w : World (Fin 3) (Fin 2), w.history = retriedHistory ∧
    Linearizable Store.object w.operations := by
  obtain ⟨w, hw, hh⟩ := Run.exists_of_execute
    (guarded (step retriedNetwork (kv loadCas 10 retriedAddress)) (AtRaft (Cluster.AtDelivery Cluster.Timely)))
    (init (kv loadCas 10 retriedAddress) retriedClients) (putRetried ++ getAfterPut)
    (fun w => w.history = retriedHistory) (by decide +kernel)
  exact ⟨w, hh, clients_share_one_map 10 retriedAddress retriedNetwork retriedClients (by decide) (by decide)
    (by decide) w hw.of_guarded⟩

end World

end DistributedStorage.Clients

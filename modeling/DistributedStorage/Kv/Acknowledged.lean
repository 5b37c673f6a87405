import DistributedStorage.Kv.Answers

/-! Acknowledged puts: a success is the version the write got, or the answer that the client has moved
on. -/

set_option linter.unusedSectionVars false

namespace DistributedStorage.Kv

open Library Raft Runs

variable {ι : Type} [DecidableEq ι] {loads : Bytes → Except String CasSpec} {M : ℕ}
  {address : ι → String}

lemma write_get (m : Tables) (key : String) (value : Bytes) :
    (m.write key value).1.store.get key = some ⟨value, (m.write key value).2⟩ := by
  simp only [Tables.write]
  split <;> simp

lemma intField_version (n : ℕ) :
    intField (.ofPairs [("success", .bool true), ("version", .int n)]) "version" = n := rfl

/-- The write of call `h`: by its identity if it has one, by its entry otherwise. -/
def System.WriteOf (s : System ι) (h : ℕ) (c : String) (seq : ℤ) (e : Entry) : Prop :=
  (Tracked c seq ∧ e.clientId = c ∧ e.seqNum = seq) ∨ .appended h e ∈ s.history

/-- The process applies the put and gives the key the version. -/
structure PutApplied (loads : Bytes → Except String CasSpec) (M : ℕ) (es : List Entry) (key : String)
    (value : Bytes) (pre : List Entry) (e : Entry) (version : ℤ) : Prop where
  isPrefix : pre ++ [e] <+: es
  unanswered : Unanswered ((KVStateMachine.init M).run loads pre) e
  opType : e.opType = .put
  filename : e.filename = key
  data : e.data = value
  assigned : ∃ v : ℕ, version = v ∧
    ((KVStateMachine.init M).run loads (pre ++ [e])).store.get key = some ⟨value, v⟩

lemma PutApplied.of_executed {es pre : List Entry} {e : Entry} {r : Result} {key : String}
    {value : Bytes} (hop : e.opType = .put) (hf : e.filename = key) (hd : e.data = value)
    (hpre : pre ++ [e] <+: es) (h : ExecutedAt loads M pre e r) :
    PutApplied loads M es key value pre e (intField r "version") := by
  refine ⟨hpre, h.unanswered, hop, hf, hd, ?_⟩
  have happ : ((KVStateMachine.init M).run loads pre).toTables.applyOp loads e =
      ((((KVStateMachine.init M).run loads pre).toTables.write key value).1,
        .ok (.ofPairs [("success", .bool true), ("version",
          .int (((KVStateMachine.init M).run loads pre).toTables.write key value).2)])) := by
    simp only [Tables.applyOp, hop, hf, hd]
  have hres := h.result
  rw [happ] at hres
  cases hres
  refine ⟨_, intField_version _, ?_⟩
  have hout := ((KVStateMachine.init M).run loads pre).outcome loads (e := e) (by rw [hop]; exact fun h => by cases h)
  rw [KVStateMachine.run_concat]
  generalize ((KVStateMachine.init M).run loads pre).apply loads e = out at hout ⊢
  obtain ⟨m', result⟩ := out
  dsimp only at hout ⊢
  cases hout with
  | answered r ht hs =>
    rw [h.unanswered ht] at hs
    cases hs
  | raised exc hu hr =>
    rw [happ] at hr
    cases hr
  | applied r hu hr =>
    have hstore : ∀ m : KVStateMachine, (if Tracked e.clientId e.seqNum then
        m.remember e.clientId e.seqNum r else m).store = m.store := by
      intro m
      split_ifs <;> rfl
    rw [hstore, happ]
    exact write_get _ _ _

variable [Fintype ι]

namespace System

variable {s : System ι}

/-- The indices of applied entries grow. -/
lemma Sound.applied_nodup {cfg : Config ι KVStateMachine Result} (h : Sound cfg s) (i : ι)
    (boot : ℕ) : (s.applied i boot).Nodup := by
  obtain ⟨a, ha⟩ := h.serving
  have hsorted := ha.applier.sorted i boot
  have hidx : (records s.raft.trace i boot).map Prod.fst =
      (s.applied i boot).map Entry.index := by
    rw [applied, entries, List.map_map]
    exact List.map_congr_left fun x hx => (h.asked.applied i boot x hx).2.symm
  rw [hidx] at hsorted
  exact List.Nodup.of_map _ (hsorted.imp ne_of_lt)

lemma prefix_length_unique {es pre pre' : List Entry} (h : pre <+: es) (h' : pre' <+: es)
    (hl : pre.length = pre'.length) : pre = pre' :=
  (List.prefix_of_prefix_length_le h h' hl.le).eq_of_length hl

lemma place_unique {es pre pre' : List Entry} {e : Entry} (hnodup : es.Nodup)
    (h : pre ++ [e] <+: es) (h' : pre' ++ [e] <+: es) : pre = pre' := by
  have hat : ∀ {p : List Entry}, p ++ [e] <+: es → es[p.length]? = some e := by
    rintro p ⟨post, rfl⟩
    simp
  apply prefix_length_unique ((List.prefix_append _ _).trans h) ((List.prefix_append _ _).trans h')
  obtain ⟨hlt, he⟩ := List.getElem?_eq_some_iff.mp (hat h)
  obtain ⟨hlt', he'⟩ := List.getElem?_eq_some_iff.mp (hat h')
  exact (hnodup.getElem_inj_iff).mp (he.trans he'.symm)

/-- An entry with a tracked identity was appended by a call of that identity. -/
lemma Sound.appender {cfg : Config ι KVStateMachine Result} (h : Sound cfg s) {i : ι} {boot : ℕ}
    {e : Entry} (he : e ∈ s.applied i boot) (ht : Tracked e.clientId e.seqNum) :
    ∃ k j b req, .appended k e ∈ s.history ∧ .received k j b req ∈ s.history ∧
      e = req.command.entry e.term e.index := by
  obtain ⟨idx, r, hr⟩ := mem_applied.mp he
  obtain ⟨term, n, rfl⟩ | ⟨k, happ⟩ := (h.asked.applied i boot _ hr).1
  · exact (ht.1 rfl).elim
  · obtain ⟨j, b, req, hrec, hentry⟩ := h.accounts.appended k e happ
    exact ⟨k, j, b, req, happ, hrec, hentry⟩

/-- No other call carries the identity, or all that do repeat this request and no session is ever
evicted. -/
def Distinct (s : System ι) (M h : ℕ) (req : Request) : Prop :=
  (∀ k j b req', .received k j b req' ∈ s.history → req'.clientId = req.clientId →
    req'.seqNum = req.seqNum → k = h) ∨
  ((∀ k j b req', .received k j b req' ∈ s.history → req'.clientId = req.clientId →
    req'.seqNum = req.seqNum → req' = req) ∧
    ∀ j b, (trackedClients (s.applied j b)).dedup.length ≤ M)

lemma WriteOf.identity (ha : Accounts s) {h : ℕ} {i : ι} {boot : ℕ} {req : Request} {e : Entry}
    (hrec : .received h i boot req ∈ s.history) (hw : s.WriteOf h req.clientId req.seqNum e) :
    e.clientId = req.clientId ∧ e.seqNum = req.seqNum := by
  obtain ⟨-, hc, hs⟩ | happ := hw
  · exact ⟨hc, hs⟩
  · obtain ⟨j, b, req', hrec', hentry⟩ := ha.appended h e happ
    obtain ⟨-, -, rfl⟩ := ha.unique h _ _ _ _ _ _ hrec hrec'
    rw [hentry]
    exact ⟨rfl, rfl⟩

/-- A write is executed at one place at most. -/
lemma Sound.write_once {cfg : Config ι KVStateMachine Result} (hs : Sound cfg s) {h : ℕ} {i : ι}
    {boot : ℕ} {req : Request} (hrec : .received h i boot req ∈ s.history)
    (hd : Tracked req.clientId req.seqNum → s.Distinct M h req) {j : ι} {b : ℕ} {pre pre' : List Entry}
    {e e' : Entry} {r r' : Result} (hw : s.WriteOf h req.clientId req.seqNum e)
    (hw' : s.WriteOf h req.clientId req.seqNum e') (hpre : pre ++ [e] <+: s.applied j b)
    (hpre' : pre' ++ [e'] <+: s.applied j b) (hex : ExecutedAt loads M pre e r)
    (hex' : ExecutedAt loads M pre' e' r') : pre = pre' := by
  have hown : (∀ f, f ∈ s.applied j b → s.WriteOf h req.clientId req.seqNum f →
      .appended h f ∈ s.history) → pre = pre' := by
    intro hall
    have he : e ∈ s.applied j b := hpre.subset (by simp)
    have he' : e' ∈ s.applied j b := hpre'.subset (by simp)
    obtain rfl := hs.accounts.once h e e' (hall e he hw) (hall e' he' hw')
    exact place_unique (hs.applied_nodup j b) hpre hpre'
  obtain ⟨hc, hq⟩ := hw.identity hs.accounts hrec
  obtain ⟨hc', hq'⟩ := hw'.identity hs.accounts hrec
  by_cases ht : Tracked req.clientId req.seqNum
  · obtain honly | ⟨-, hroom⟩ := hd ht
    · apply hown
      rintro f hf hwf
      obtain ⟨hfc, hfq⟩ := hwf.identity hs.accounts hrec
      obtain ⟨k, l, c, req', happ, hrec', hentry⟩ := hs.appender hf (by rw [hfc, hfq]; exact ht)
      obtain rfl := honly k l c req' hrec' ((congrArg Entry.clientId hentry).symm.trans hfc)
        ((congrArg Entry.seqNum hentry).symm.trans hfq)
      exact happ
    · have hplain : ∀ f ∈ s.applied j b, f.opType ≠ .snapshot := fun f hf => (hs.plain j b f hf).1
      apply prefix_length_unique ((List.prefix_append _ _).trans hpre)
        ((List.prefix_append _ _).trans hpre')
      apply le_antisymm
      · exact not_lt.mp (hex'.unique hplain (hroom j b) hpre' hpre hex (by rw [hc', hq']; exact ht)
          (hc.trans hc'.symm) (hq.trans hq'.symm))
      · exact not_lt.mp (hex.unique hplain (hroom j b) hpre hpre' hex' (by rw [hc, hq]; exact ht)
          (hc'.trans hc.symm) (hq'.trans hq.symm))
  · apply hown
    rintro f - (⟨htf, -⟩ | happ)
    · exact (ht htf).elim
    · exact happ

/-- What a successful answer to a put tells its client: the write was executed once and this is its
version, or a later request of the client was executed before and the answer is the stale one. -/
inductive PutTold (loads : Bytes → Except String CasSpec) (M : ℕ) (s : System ι) (h : ℕ) (i : ι)
    (boot : ℕ) (key : String) (value : Bytes) (c : String) (seq version : ℤ) : Prop
  | applied (pre : List Entry) (e : Entry) : s.WriteOf h c seq e →
      PutApplied loads M (s.applied i boot) key value pre e version →
      (∀ j b pre pre' e e' r r', s.WriteOf h c seq e → s.WriteOf h c seq e' →
        pre ++ [e] <+: s.applied j b → pre' ++ [e'] <+: s.applied j b →
        ExecutedAt loads M pre e r → ExecutedAt loads M pre' e' r' → pre = pre') →
      PutTold loads M s h i boot key value c seq version
  | stale (e : Entry) (r : Result) : .replied h (.written staleResult) ∈ s.history → version = 0 →
      Tracked c seq → e.clientId = c → seq < e.seqNum → Executed loads M (s.applied i boot) e r →
      PutTold loads M s h i boot key value c seq version

/-- A put that is answered with success was executed exactly once under its identity, on the process
that answers, and the answer has its version; or its client has moved on. -/
theorem put_acknowledged (loads : Bytes → Except String CasSpec) (M : ℕ) (address : ι → String)
    (C : Cluster ι KVStateMachine Result → Raft.Event ι → Prop) (s : System ι)
    (hs : Reachable (kv loads M address) C s) (h : ℕ) (i : ι) (boot : ℕ) (key : String) (value : Bytes)
    (c : String) (seq : ℤ) (reply : Reply ι) (resp : PutResponse ι)
    (hrec : .received h i boot (.put key value c seq) ∈ s.history)
    (hrep : .replied h reply ∈ s.history) (hput : reply.put = some resp) (hok : resp.success = true)
    (hd : Tracked c seq → s.Distinct M h (.put key value c seq)) :
    PutTold loads M s h i boot key value c seq resp.version := by
  have hsound := sound hs
  cases reply with
  | aborted => cases hput
  | failure exc =>
    cases hput
    cases hok
  | read value => cases hput
  | written r =>
    cases hput
    obtain ⟨i', boot', req, hrec', -, hans⟩ := answered hs h r hrep
    obtain ⟨rfl, rfl, rfl⟩ := hsound.accounts.unique h _ _ _ _ _ _ hrec hrec'
    have happlied : ∀ e pre, e.opType = .put → e.filename = key → e.data = value →
        s.WriteOf h c seq e → pre ++ [e] <+: s.applied i boot → ExecutedAt loads M pre e r →
        PutTold loads M s h i boot key value c seq (intField r "version") := by
      intro e pre hop hf hdata hw hpre hex
      refine .applied pre e hw (.of_executed hop hf hdata hpre hex) ?_
      intro j b p p' f f' q q' hwf hwf' hp hp' hx hx'
      exact hsound.write_once hrec hd hwf hwf' hp hp' hx hx'
    obtain ⟨e, happ, pre, hpre, hex⟩ | hans := hans
    · obtain ⟨j, b, req, hrec', hentry⟩ := hsound.accounts.appended h e happ
      obtain ⟨-, -, rfl⟩ := hsound.accounts.unique h _ _ _ _ _ _ hrec hrec'
      exact happlied e pre (by rw [hentry]; rfl) (by rw [hentry]; rfl) (by rw [hentry]; rfl)
        (.inr happ) hpre hex
    · cases hans with
      | executed e ht hc hq hex =>
        obtain ⟨k, j, b, req, happ, hcall, hentry⟩ :=
          hsound.appender hex.mem (by rw [hc, hq]; exact ht)
        have hcr : req.clientId = c :=
          (congrArg Entry.clientId hentry).symm.trans hc
        have hqr : req.seqNum = seq :=
          (congrArg Entry.seqNum hentry).symm.trans hq
        have hreq : req = .put key value c seq := by
          obtain honly | ⟨hsame, -⟩ := hd ht
          · obtain rfl := honly k j b req hcall hcr hqr
            exact (hsound.accounts.unique k _ _ _ _ _ _ hrec hcall).2.2.symm
          · exact hsame k j b req hcall hcr hqr
        subst hreq
        obtain ⟨pre, hpre, hexat⟩ := hex
        exact happlied e pre (by rw [hentry]; rfl) (by rw [hentry]; rfl) (by rw [hentry]; rfl)
          (.inl ⟨ht, hc, hq⟩) hpre hexat
      | stale e r' ht hr hc hq hex =>
        subst hr
        exact .stale e r' hrep rfl ht hc hq hex

/-- Three nodes whose machines see no `cas`. -/
def three : Config (Fin 3) KVStateMachine Result := kv noCas 10 fun _ => ""

/-- Node `i` applies one entry and hands over its result. -/
def applies (i : ι) : List (Event ι) := [.raft (.applierApplies i), .raft (.applierResolves i)]

/-- Call `h` gets to its wait. -/
def submits (h : ℕ) : List (Event ι) := [.proceed h, .proceed h, .proceed h, .append h]

/-- Node 0 is elected and answers a put of client `c` numbered 2. -/
def secondFirst : List (Event (Fin 3)) :=
  (Cluster.campaign 0 1 0 [1]).map .raft ++ [.receive 0 (.put "k" [2] "c" 2)] ++ submits 0 ++
    (Cluster.replicate 0 1 2).map .raft ++ [.raft (.applierTakes 0)] ++ applies 0 ++ applies 0 ++ [.returns 0]

/-- The put numbered 1 comes after it. -/
def lateFirst : List (Event (Fin 3)) :=
  secondFirst ++ [.receive 0 (.put "k" [1] "c" 1), .proceed 1, .proceed 1]

def secondEntry : Entry := ⟨1, 2, .put, "k", [2], "c", 2⟩

def secondReply : Result := .ofPairs [("success", .bool true), ("version", .int 1)]

lemma reachable_of_run {cfg : Config ι KVStateMachine Result} {s : System ι}
    (h : Run (step cfg) Free (init cfg) s) : Reachable cfg Free s :=
  h.mono fun _ e _ => by cases e <;> trivial

/-- The late put is told success and version 0, and no process has applied it. -/
theorem late_put_acknowledged_not_applied : ∃ s : System (Fin 3), Reachable three Free s ∧
    .received 1 0 0 (.put "k" [1] "c" 1) ∈ s.history ∧
    (∃ reply : Reply (Fin 3), .replied 1 reply ∈ s.history ∧ reply.put = some ⟨true, 0, none⟩) ∧
    s.Distinct 10 1 (.put "k" [1] "c" 1) ∧
    ∀ i boot e, e ∈ s.applied i boot → ¬ (e.clientId = "c" ∧ e.seqNum = 1) := by
  obtain ⟨s, hs, hh⟩ := Run.exists_of_execute (step three) (init three) lateFirst
    (fun s => s.history = [.received 0 0 0 (.put "k" [2] "c" 2), .appended 0 secondEntry,
      .replied 0 (.written secondReply), .received 1 0 0 (.put "k" [1] "c" 1),
      .replied 1 (.written staleResult)]) (by decide +kernel)
  have hr := reachable_of_run hs
  refine ⟨s, hr, by simp [hh], ⟨.written staleResult, by simp [hh], rfl⟩, .inl ?_, ?_⟩
  · intro k j b req hm _ hq
    rw [hh] at hm
    simp only [List.mem_cons, Exchange.received.injEq, reduceCtorEq, List.not_mem_nil, or_false,
      false_or] at hm
    obtain ⟨-, -, -, rfl⟩ | ⟨rfl, -⟩ := hm
    · cases hq
    · rfl
  · rintro i boot e he ⟨hc, hq⟩
    obtain ⟨k, j, b, req, happ, -⟩ := (sound hr).appender he (by rw [hc, hq]; decide)
    rw [hh] at happ
    simp only [List.mem_cons, Exchange.appended.injEq, reduceCtorEq, List.not_mem_nil, or_false,
      false_or] at happ
    rw [happ.2] at hq
    cases hq

theorem put_acknowledged_second_first : ∃ s : System (Fin 3), Reachable three Free s ∧
    PutTold noCas 10 s 0 0 0 "k" [2] "c" 2 1 := by
  obtain ⟨s, hs, hh⟩ := Run.exists_of_execute (step three) (init three) secondFirst
    (fun s => s.history = [.received 0 0 0 (.put "k" [2] "c" 2), .appended 0 secondEntry,
      .replied 0 (.written secondReply)]) (by decide +kernel)
  have hr := reachable_of_run hs
  refine ⟨s, hr, put_acknowledged noCas 10 (fun _ => "") Free s hr 0 0 0 "k" [2] "c" 2
    (.written secondReply) ⟨true, 1, none⟩ (by simp [hh]) (by simp [hh]) rfl rfl fun _ => .inl ?_⟩
  intro k j b req hm _ _
  rw [hh] at hm
  simp only [List.mem_cons, Exchange.received.injEq, reduceCtorEq, List.not_mem_nil, or_false] at hm
  exact hm.1

end System

end DistributedStorage.Kv

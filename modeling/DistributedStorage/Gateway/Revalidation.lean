import DistributedStorage.Gateway.ETags
import DistributedStorage.Kv.Copies

/-! What an ETag is worth to an HTTP client, whichever nodes serve its requests: a copy that is not modified is
the value that the store has just read, and a write under If-Match replaces the value that came with the
ETag. -/

set_option linter.unusedSectionVars false

namespace DistributedStorage.Gateway

open Library Library.LeaderLogs Library.Linearizability Raft Kv Runs

variable {ι : Type} [DecidableEq ι] [Fintype ι] {M : ℕ} {address : ι → String} {s : System ι}

/-- The store has answered a GET of the key with the response. -/
def Responds (s : System ι) (key : String) (resp : GetResponse ι) : Prop :=
  ∃ h i b linearizable reply, .received h i b (.get key linearizable) ∈ s.history ∧ .replied h reply ∈ s.history ∧
    Reply.get reply = some resp

/-- A response with a value comes from a place of the log. -/
lemma Responds.located {key : String} {resp : GetResponse ι} (h : Responds s key resp)
    (hs : System.Reachable (kv loadCas M address) (Cluster.AtDelivery Cluster.Timely) s)
    (hfound : resp.found = true) :
    ∃ i b pre, pre <+: s.applied i b ∧ (mapAfter M pre key).value = some resp.value ∧
      ((mapAfter M pre key).version : ℤ) = resp.version := by
  obtain ⟨k, i, b, lin, reply, hrec, hreply, hresp⟩ := h
  cases reply with
  | aborted => cases hresp
  | failure exc =>
    cases hresp
    cases hfound
  | written result => cases hresp
  | read value =>
    obtain ⟨i', b', key', lin', pre, hrec', hpre, rfl⟩ := System.served hs hreply
    obtain ⟨-, -, hsame⟩ := (System.sound hs).accounts.unique k _ _ _ _ _ _ hrec hrec'
    cases hsame
    cases hresp
    refine ⟨i', b', pre, hpre, ?_, ?_⟩
    · obtain ⟨v, hv⟩ := Option.isSome_iff_exists.mp hfound
      rw [hv]
      rfl
    · rw [Slot.current, if_pos hfound]

/-- Two responses with one version carry one value. -/
lemma Responds.same_value {key : String} {resp resp' : GetResponse ι} (h : Responds s key resp)
    (h' : Responds s key resp')
    (hs : System.Reachable (kv loadCas M address) (Cluster.AtDelivery Cluster.Timely) s)
    (hfound : resp.found = true) (hfound' : resp'.found = true)
    (hv : resp.version = resp'.version) : resp.value = resp'.value := by
  obtain ⟨i, b, pre, hpre, hval, hver⟩ := h.located hs hfound
  obtain ⟨j, c, pre', hpre', hval', hver'⟩ := h'.located hs hfound'
  obtain ⟨es, hop, hp, hp'⟩ := System.exists_log hs hpre hpre'
  refine mapAfter_value hop hp hp' hval hval' ?_
  rw [← Int.natCast_inj, hver, hver', hv]

lemma etag_injective {v w : ℕ} (h : etag v = etag w) : v = w := by
  have hlist := congrArg String.toList h
  rw [etag_toList, etag_toList] at hlist
  exact digits_injective (List.append_cancel_right (List.cons.inj hlist).2)

lemma readKey_ok {svc : KVService} {key tag : String} {ifNoneMatch : Option String} {resp : GetResponse ι}
    {entry : EntryOut} (h : svc.readKey key ifNoneMatch resp = .ok tag entry) :
    resp.found = true ∧ tag = etag resp.version ∧ entry = entryOut key resp.value resp.version ∧
      (ifNoneMatch.any fun header => matchesEtag header resp.version) = false := by
  rw [KVService.readKey] at h
  split_ifs at h with hfound hmatch
  cases h
  exact ⟨hfound, rfl, rfl, Bool.eq_false_iff.mpr hmatch⟩

lemma readKey_notModified {svc : KVService} {key tag : String} {ifNoneMatch : Option String}
    {resp : GetResponse ι} (h : svc.readKey key ifNoneMatch resp = .notModified tag) :
    resp.found = true ∧ tag = etag resp.version ∧
      (ifNoneMatch.any fun header => matchesEtag header resp.version) = true := by
  rw [KVService.readKey] at h
  split_ifs at h with hfound hmatch
  cases h
  exact ⟨hfound, rfl, hmatch⟩

/-- A client has a copy of the key: the entry of a 200 response to a GET, under its ETag. -/
def Copy (svc : KVService) (s : System ι) (key : String) (version : ℕ) (entry : EntryOut) : Prop :=
  ∃ resp ifNoneMatch, Responds s key resp ∧ svc.readKey key ifNoneMatch resp = .ok (etag version) entry

lemma Copy.located {svc : KVService} {key : String} {version : ℕ} {entry : EntryOut}
    (h : Copy svc s key version entry)
    (hs : System.Reachable (kv loadCas M address) (Cluster.AtDelivery Cluster.Timely) s) :
    ∃ resp, Responds s key resp ∧ resp.found = true ∧ resp.version = version ∧ entry.bytes = some resp.value := by
  obtain ⟨resp, ifNoneMatch, hresp, hread⟩ := h
  obtain ⟨hfound, htag, rfl, -⟩ := readKey_ok hread
  obtain ⟨i, b, pre, -, -, hver⟩ := hresp.located hs hfound
  rw [← hver] at htag
  exact ⟨resp, hresp, hfound, by rw [← hver, etag_injective htag], entryOut_bytes ..⟩

/-- Revalidation. A client lists its copies of a key in an If-None-Match header. A 304 tells it that one of
them is, byte for byte, the value that the store has just read, and names that one; a 200 carries the value
that the store has read, under an ETag that none of the copies has. -/
theorem revalidated_copy_is_current (M : ℕ) (address : ι → String) (svc : KVService) (s : System ι)
    (hs : System.Reachable (kv loadCas M address) (Cluster.AtDelivery Cluster.Timely) s) (key : String)
    (copies : List (ℕ × EntryOut)) (hcopies : ∀ c ∈ copies, Copy svc s key c.1 c.2) (hne : copies ≠ [])
    (header : String) (pieces : List (List Char)) (hheader : header.toList = [','].intercalate pieces)
    (hpieces : List.Forall₂ NamesCopy pieces (copies.map Prod.fst)) (resp : GetResponse ι)
    (hresp : Responds s key resp) :
    (∀ tag, svc.readKey key (some header) resp = .notModified tag →
      ∃ c ∈ copies, tag = etag c.1 ∧ c.2.bytes = some resp.value) ∧
    ∀ tag entry, svc.readKey key (some header) resp = .ok tag entry →
      entry.bytes = some resp.value ∧ ∀ c ∈ copies, etag c.1 ≠ tag := by
  have hpieces' : pieces ≠ [] := by
    rintro rfl
    cases copies with
    | nil => exact hne rfl
    | cons c copies => cases hpieces
  refine ⟨fun tag hread => ?_, fun tag entry hread => ?_⟩
  · obtain ⟨hfound, htag, hmatch⟩ := readKey_notModified hread
    obtain ⟨i, b, pre, -, -, hver⟩ := hresp.located hs hfound
    rw [Option.any_some, ← hver, matchesEtag_iff hheader hpieces' hpieces] at hmatch
    obtain ⟨c, hc, hcver⟩ := List.mem_map.mp hmatch
    obtain ⟨resp', hresp', hfound', hver', hbytes⟩ := (hcopies c hc).located hs
    refine ⟨c, hc, by rw [htag, ← hver, hcver], ?_⟩
    rw [hbytes, hresp'.same_value hresp hs hfound' hfound (by rw [hver', ← hver, hcver])]
  · obtain ⟨hfound, htag, hentry, hmatch⟩ := readKey_ok hread
    obtain ⟨i, b, pre, -, -, hver⟩ := hresp.located hs hfound
    refine ⟨by rw [hentry, entryOut_bytes], fun c hc heq => ?_⟩
    rw [htag, ← hver] at heq
    have hlisted : matchesEtag header resp.version = true := by
      rw [← hver, matchesEtag_iff hheader hpieces' hpieces, ← etag_injective heq]
      exact List.mem_map_of_mem hc
    rw [Option.any_some, hlisted] at hmatch
    cases hmatch

/-- A put is answered and the key is read twice without a barrier. -/
def readTwice : List (Kv.Event (Fin 3)) :=
  List.flatten [System.secondFirst, [.receive 0 (.get "k" false), .proceed 1, .proceed 1, .proceed 1],
    [.receive 0 (.get "k" false), .proceed 2, .proceed 2, .proceed 2]]

def twiceHistory : List (Exchange (Fin 3)) :=
  [.received 0 0 0 (.put "k" [2] "c" 2), .appended 0 System.secondEntry, .replied 0 (.written System.secondReply),
    .received 1 0 0 (.get "k" false), .replied 1 (.read (some [2], 1, true)),
    .received 2 0 0 (.get "k" false), .replied 2 (.read (some [2], 1, true))]

def firstCopy : EntryOut := ⟨"k", String.ofList [Char.ofNat 2], "utf-8", 1⟩

lemma copy_of_twice {s : System (Fin 3)} (h : twiceHistory <+: s.history) :
    Copy smallService s "k" 1 firstCopy ∧ Responds s "k" (⟨true, true, [2], 1, none⟩ : GetResponse (Fin 3)) := by
  have hsub := h.subset
  refine ⟨⟨⟨true, true, [2], 1, none⟩, none, ⟨1, 0, 0, false, .read (some [2], 1, true), ?_, ?_, rfl⟩, ?_⟩,
    2, 0, 0, false, .read (some [2], 1, true), ?_, ?_, rfl⟩
  · exact hsub (by simp [twiceHistory])
  · exact hsub (by simp [twiceHistory])
  · decide +kernel
  · exact hsub (by simp [twiceHistory])
  · exact hsub (by simp [twiceHistory])

theorem revalidated_copy_is_current_twice : ∃ s : System (Fin 3), s.history = twiceHistory ∧
    ∃ c ∈ [((1 : ℕ), firstCopy)], "\"1\"" = etag c.1 ∧ c.2.bytes = some [2] := by
  obtain ⟨s, hs, hh⟩ := Run.exists_of_execute
    (guarded (System.step (kv loadCas 10 fun _ => "")) (System.AtRaft (Cluster.AtDelivery Cluster.Timely)))
    (System.init (kv loadCas 10 fun _ => "")) readTwice (fun s => s.history = twiceHistory) (by decide +kernel)
  obtain ⟨hcopy, hresp⟩ := copy_of_twice (s := s) (by rw [hh])
  have hnames : NamesCopy " W/\"1\"".toList 1 := by
    refine ⟨[' '], [], true, fun c hc => ?_, fun c hc => ?_, ?_⟩
    · rw [List.mem_singleton.mp hc]
      rfl
    · cases hc
    · decide +kernel
  refine ⟨s, hh, (revalidated_copy_is_current 10 (fun _ => "") smallService s hs.of_guarded "k" [(1, firstCopy)]
    ?_ (List.cons_ne_nil _ _) " W/\"1\"" [" W/\"1\"".toList] (by decide) (.cons hnames .nil) _ hresp).1 "\"1\""
    (by decide +kernel)⟩
  rintro c hc
  cases List.mem_singleton.mp hc
  exact hcopy

lemma prepare_put {svc : KVService} {clientId key : String} {body : Bytes} {v : ℤ} {createOnly : Bool}
    {request : Request} (h : svc.prepare clientId (.put key body (some v) createOnly) = .ok request) :
    createOnly = false ∧ 0 < v ∧ request = .cas key [] body false v clientId 1 := by
  rw [KVService.prepare] at h
  by_cases hlong : svc.maxValueBytes < body.length
  · rw [if_pos hlong] at h
    cases h
  rw [if_neg hlong] at h
  cases createOnly with
  | true =>
    rw [if_pos ⟨Option.some_ne_none v, rfl⟩] at h
    cases h
  | false =>
    rw [if_neg fun hboth => Bool.false_ne_true hboth.2, if_neg Bool.false_ne_true] at h
    by_cases hone : v < 1
    · rw [if_pos hone] at h
      cases h
    · rw [if_neg hone] at h
      cases h
      exact ⟨rfl, by omega, rfl⟩

lemma encode_ok {request request' : Request} (h : KVService.encode request = .ok request') :
    request' = request := by
  cases request with
  | cas key expected newValue expectAbsent expectedVersion clientId seqNum =>
    rw [KVService.encode] at h
    by_cases hrange : -2 ^ 63 ≤ expectedVersion ∧ expectedVersion < 2 ^ 63
    · rw [if_pos hrange] at h
      exact (Except.ok.inj h).symm
    · rw [if_neg hrange] at h
      cases h
  | _ =>
    cases h
    rfl

lemma ask_etag {svc : KVService} {uuid key : String} {body : Bytes} {version : ℕ}
    {ifNoneMatch idempotencyKey : Option String} {req : WriteRequest} {request : Request}
    (h : svc.askKey uuid key body (some (etag version)) ifNoneMatch idempotencyKey = .ok (req, request)) :
    req = .put key body (some version) false ∧ 0 < (version : ℤ) ∧
      ∃ clientId, request = .cas key [] body false version clientId 1 := by
  rw [KVService.askKey] at h
  cases hparse : svc.parseIfMatch (some (etag version)) with
  | error r =>
    rw [hparse] at h
    cases h
  | ok v =>
    obtain rfl := parse_etag hparse
    rw [hparse] at h
    cases hcreate : KVService.parseCreateOnly ifNoneMatch with
    | error r =>
      rw [hcreate] at h
      cases h
    | ok createOnly =>
      rw [hcreate] at h
      dsimp only at h
      cases hprep : svc.prepare (svc.clientId uuid idempotencyKey (.put key body (some version) createOnly))
          (.put key body (some version) createOnly) with
      | error o =>
        rw [hprep] at h
        cases h
      | ok prepared =>
        obtain ⟨rfl, hpos, hprepared⟩ := prepare_put hprep
        rw [hprep] at h
        dsimp only at h
        cases hencode : KVService.encode prepared with
        | error exc =>
          rw [hencode] at h
          cases h
        | ok encoded =>
          rw [hencode] at h
          obtain ⟨rfl, rfl⟩ := Prod.mk.inj (Except.ok.inj h)
          exact ⟨rfl, hpos, _, (encode_ok hencode).trans hprepared⟩

lemma respond_written {svc : KVService} {key key' tag : String} {body : Bytes} {v n : ℤ} {r : Result}
    {status : ℕ} {location : Option String}
    (h : KVService.respond key (svc.complete r (.put key body (some v) false)) =
      .written status tag location key' n) :
    boolField r "swapped" = true ∧ status = 200 ∧ tag = etag (intField r "version") := by
  rw [KVService.complete, if_neg Bool.false_ne_true] at h
  by_cases hswap : boolField r "swapped" = true
  · rw [if_pos hswap, KVService.respond, if_neg Bool.false_ne_true] at h
    cases h
    exact ⟨hswap, rfl, rfl⟩
  · rw [if_neg hswap] at h
    cases h

/-- What the store told a write was told when an entry of the same request was executed, unless it was told
that it is stale. -/
lemma executed_of_written (hs : System.Reachable (kv loadCas M address) (Cluster.AtDelivery Cluster.Timely) s)
    (hrepeats : s.Repeats) {p c : ℕ} {j : ι} {request : Request} {r : Result}
    (hput : .received p j c request ∈ s.history) (hwritten : .replied p (.written r) ∈ s.history)
    (hstale : r ≠ staleResult) : ∃ i b pre e, pre ++ [e] <+: s.applied i b ∧ ExecutedAt loadCas M pre e r ∧
      e = request.command.entry e.term e.index := by
  have hsound := System.sound hs
  obtain ⟨i, b, req, hrec, -, hev⟩ := System.answered hs p r hwritten
  obtain ⟨-, -, rfl⟩ := hsound.accounts.unique p _ _ _ _ _ _ hput hrec
  rcases hev with ⟨e, happ, pre, hpre, hex⟩ | hev
  · obtain ⟨i', b', req', hrec', hentry⟩ := hsound.accounts.appended p e happ
    obtain ⟨-, -, rfl⟩ := hsound.accounts.unique p _ _ _ _ _ _ hput hrec'
    exact ⟨i, b, pre, e, hpre, hex, hentry⟩
  · cases hev with
    | stale e r' _ hr _ _ _ => exact (hstale hr).elim
    | executed e ht hid hseq hex =>
      obtain ⟨k, i', b', req', -, hrec', hentry⟩ := hsound.appender hex.mem (by rw [hid, hseq]; exact ht)
      obtain ⟨pre, hpre, hat⟩ := hex
      have hfields : e.clientId = req'.clientId ∧ e.seqNum = req'.seqNum := by
        rw [hentry]
        exact ⟨rfl, rfl⟩
      obtain rfl := hrepeats p _ _ _ k _ _ _ hput hrec' ht (hfields.1.symm.trans hid) (hfields.2.symm.trans hseq)
      exact ⟨i, b, pre, e, hpre, hat, hentry⟩

/-- Optimistic concurrency. A PUT under If-Match with the ETag of a copy, answered with 200, was executed at a
place of the log where the key held exactly the bytes of the copy, and it replaced them. -/
theorem if_match_replaces_copy (M : ℕ) (address : ι → String) (svc : KVService) (s : System ι)
    (hs : System.Reachable (kv loadCas M address) (Cluster.AtDelivery Cluster.Timely) s) (hrepeats : s.Repeats)
    (key : String) (version : ℕ) (entry : EntryOut) (hcopy : Copy svc s key version entry) (uuid : String)
    (body : Bytes) (ifNoneMatch idempotencyKey : Option String) (req : WriteRequest) (request : Request)
    (hask : svc.askKey uuid key body (some (etag version)) ifNoneMatch idempotencyKey = .ok (req, request))
    (p c : ℕ) (j : ι) (r : Result) (hput : .received p j c request ∈ s.history)
    (hwritten : .replied p (.written r) ∈ s.history) (status : ℕ) (tag key' : String) (location : Option String)
    (n : ℤ) (hresponse : KVService.respond key (svc.complete r req) = .written status tag location key' n) :
    status = 200 ∧ tag = etag (version + 1) ∧ ∃ i b pre e, pre ++ [e] <+: s.applied i b ∧
      (∃ bytes, entry.bytes = some bytes ∧ mapAfter M pre key = ⟨version, some bytes⟩) ∧
      mapAfter M (pre ++ [e]) = (mapAfter M pre).write key body := by
  obtain ⟨rfl, hpos, clientId, rfl⟩ := ask_etag hask
  obtain ⟨hswap, rfl, rfl⟩ := respond_written hresponse
  have hstale : r ≠ staleResult := by
    rintro rfl
    cases hswap
  obtain ⟨i, b, pre, e, hpre, hex, hentry⟩ := executed_of_written hs hrepeats hput hwritten hstale
  have hperform := hex.performs hentry
  simp only [Request.operation, VersionedMap.perform, Slot.meets_version _ hpos, decide_eq_true_eq] at hperform
  split_ifs at hperform with hmeets
  · obtain ⟨hmap, rfl⟩ := Prod.mk.inj hperform
    obtain ⟨bytes, hval⟩ := Option.ne_none_iff_exists'.mp hmeets.1
    have hversion : (mapAfter M pre key).version = version := Int.natCast_inj.mp hmeets.2
    -- the place where the copy was read and the place of the write fit one log
    obtain ⟨resp, hresp, hfound, hver, hbytes⟩ := hcopy.located hs
    obtain ⟨i', b', pre', hpre', hval', hver'⟩ := hresp.located hs hfound
    obtain ⟨es, hop, hp', hp⟩ := System.exists_log hs hpre' ((List.prefix_append pre [e]).trans hpre)
    have hsame : resp.value = bytes := by
      refine mapAfter_value hop hp' hp hval' hval ?_
      rw [hversion, ← Int.natCast_inj, hver', hver]
    refine ⟨rfl, ?_, i, b, pre, e, hpre, ⟨bytes, by rw [hbytes, hsame], ?_⟩, hmap.symm⟩
    · rw [← hversion]
      rfl
    · rw [← hversion, ← hval]
  · obtain ⟨-, rfl⟩ := Prod.mk.inj hperform
    cases hswap

def replacement : Request := .cas "k" [] [80] false 1 "gw-0f" 1

def replacementReply : Result := .ofPairs [("success", .bool true), ("swapped", .bool true),
  ("current", .bytes [80]), ("version", .int 2)]

/-- The PUT of a client that has read the key follows. -/
def readThenReplaced : List (Kv.Event (Fin 3)) :=
  List.flatten [readTwice, [.receive 0 replacement], System.submits 3, (Cluster.replicate 0 1 4).map .raft,
    [.raft (.applierTakes 0)], System.applies 0, [.returns 3]]

def replacedHistory : List (Exchange (Fin 3)) :=
  twiceHistory ++ [.received 3 0 0 replacement, .appended 3 (replacement.command.entry 1 3),
    .replied 3 (.written replacementReply)]

/-- `loadCas`, with what it gives for the data of `replacement` written out. -/
def loadReplacement (data : Bytes) : Except String CasSpec :=
  if data = Request.casCommand [] [80] false 1 then .ok ⟨false, 1, [], [80]⟩ else loadCas data

lemma loadReplacement_eq : loadReplacement = loadCas := by
  funext data
  by_cases hdata : data = Request.casCommand [] [80] false 1
  · rw [loadReplacement, if_pos hdata, loadCas, hdata, decodeCas_casCommand]
    rfl
  · rw [loadReplacement, if_neg hdata]

theorem if_match_replaces_copy_once : ∃ s : System (Fin 3), s.history = replacedHistory ∧
    ∃ i b pre e, pre ++ [e] <+: s.applied i b ∧
      (∃ bytes, firstCopy.bytes = some bytes ∧ mapAfter 10 pre "k" = ⟨1, some bytes⟩) ∧
      mapAfter 10 (pre ++ [e]) = (mapAfter 10 pre).write "k" [80] := by
  obtain ⟨s, hs, hh⟩ := Run.exists_of_execute
    (guarded (System.step (kv loadReplacement 10 fun _ => "")) (System.AtRaft (Cluster.AtDelivery Cluster.Timely)))
    (System.init (kv loadReplacement 10 fun _ => "")) readThenReplaced (fun s => s.history = replacedHistory)
    (by decide +kernel)
  rw [loadReplacement_eq] at hs
  obtain ⟨hcopy, -⟩ := copy_of_twice (s := s) (by rw [hh]; exact List.prefix_append _ _)
  have hrepeats : s.Repeats := by
    intro h i b req k j c req' hm hm' ht hid hseq
    rw [hh] at hm hm'
    simp only [replacedHistory, twiceHistory, List.cons_append, List.nil_append, List.mem_cons,
      Exchange.received.injEq, reduceCtorEq, List.not_mem_nil, or_false, false_or] at hm hm'
    rcases hm with ⟨-, -, -, rfl⟩ | ⟨-, -, -, rfl⟩ | ⟨-, -, -, rfl⟩ | ⟨-, -, -, rfl⟩
    · rcases hm' with ⟨-, -, -, rfl⟩ | ⟨-, -, -, rfl⟩ | ⟨-, -, -, rfl⟩ | ⟨-, -, -, rfl⟩
      · rfl
      · cases hseq
      · cases hseq
      · cases hseq
    · exact (ht.1 rfl).elim
    · exact (ht.1 rfl).elim
    · rcases hm' with ⟨-, -, -, rfl⟩ | ⟨-, -, -, rfl⟩ | ⟨-, -, -, rfl⟩ | ⟨-, -, -, rfl⟩
      · cases hseq
      · cases hseq
      · cases hseq
      · rfl
  refine ⟨s, hh, (if_match_replaces_copy 10 (fun _ => "") smallService s hs.of_guarded hrepeats "k" 1 firstCopy
    hcopy "0f" [80] none none (.put "k" [80] (some 1) false) replacement (by decide +kernel) 3 0 0
    replacementReply ?_ ?_
    200 "\"2\"" "k" none 2 (by decide +kernel)).2.2⟩
  · rw [hh]
    exact List.mem_append_right _ List.mem_cons_self
  · rw [hh]
    exact List.mem_append_right _ (by simp)

end DistributedStorage.Gateway

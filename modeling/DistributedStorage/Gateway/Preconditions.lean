import DistributedStorage.Gateway.Calls
import DistributedStorage.Gateway.Service
import DistributedStorage.Kv.Versions

/-! A conditional write over HTTP: the number of an If-Match header on its way through the parser, the
service, the message to the store and the state machine. -/

namespace DistributedStorage.Gateway

open Library Raft Kv

/-- `str.isspace` -/
def isSpace (c : Char) : Bool :=
  let n := c.toNat
  (9 ≤ n && n ≤ 13) || (28 ≤ n && n ≤ 32) || n = 0x85 || n = 0xA0 || n = 0x1680 ||
    (0x2000 ≤ n && n ≤ 0x200A) || n = 0x2028 || n = 0x2029 || n = 0x202F || n = 0x205F || n = 0x3000

/-- `str.strip()` -/
def strip (s : List Char) : List Char := ((s.dropWhile isSpace).reverse.dropWhile isSpace).reverse

def isNumber (s : List Char) : Bool := s ≠ [] && s.all Char.isDigit

/-- What `_STRONG_ETAG` captures in a text that it matches. -/
def strongEtag : List Char → Option (List Char)
  | '"' :: s => if s.getLast? = some '"' ∧ isNumber s.dropLast then some s.dropLast else none
  | s => if isNumber s then some s else none

/-- `urllib.parse.quote` -/
def quote (s : String) : String :=
  String.ofList ((encodeUtf8 s).flatMap fun b =>
    let c := Char.ofNat b.toNat
    if c.isAlphanum ∨ c ∈ ['_', '.', '-', '~', '/'] then [c]
    else ['%', (b.toNat / 16).digitChar.toUpper, (b.toNat % 16).digitChar.toUpper])

def etag (version : ℤ) : String := "\"" ++ toString version ++ "\""

inductive WriteResponse
  | written (status : ℕ) (etag : String) (location : Option String) (key : String) (version : ℤ)
  | refused (o : Outcome)
  | storeError (message : String)
  | unexpected (exc : String)
  deriving DecidableEq

namespace KVService

variable (svc : KVService)

def parseIfMatch : Option String → Except WriteResponse (Option ℤ)
  | none => .ok none
  | some header =>
    let tag := strip header.toList
    if tag = ['*'] then
      .error (.refused (.invalidRequest
        "If-Match: * is not supported; send the ETag from a read, e.g. \"3\""))
    else if "W/".toList <+: tag then
      .error (.refused (.invalidRequest "If-Match needs a strong ETag; a weak one (W/...) never matches"))
    else match strongEtag tag with
      | none => .error (.refused (.invalidRequest ("unrecognised ETag " ++ svc.keyRepr header ++
          "; expected a quoted version like \"3\"")))
      | some digits =>
        match int asciiDigit digits with
        | .ok n => .ok (some n)
        | .error exc => .error (.unexpected exc)

def parseCreateOnly : Option String → Except WriteResponse Bool
  | none => .ok false
  | some header =>
    if strip header.toList ≠ ['*'] then
      .error (.refused (.invalidRequest "on a write, only If-None-Match: * (create only) is supported"))
    else .ok true

/-- The client id of a write; `uuid` is a fresh one. -/
def clientId (uuid : String) (idempotencyKey : Option String) (req : WriteRequest) : String :=
  match idempotencyKey with
  | none => "gw-" ++ uuid
  | some k => svc.identity k req

/-- The message to the store has a field of 64 bits for the expected version. -/
def encode : Request → Except String Request
  | .cas key expected newValue expectAbsent expectedVersion clientId seqNum =>
    if -2 ^ 63 ≤ expectedVersion ∧ expectedVersion < 2 ^ 63 then
      .ok (.cas key expected newValue expectAbsent expectedVersion clientId seqNum)
    else .error ("Value out of range: " ++ toString expectedVersion)
  | request => .ok request

def respond (key : String) : Outcome → WriteResponse
  | .written version created =>
    if created then .written 201 (etag version) (some ("/v1/kv/" ++ quote key)) key version
    else .written 200 (etag version) none key version
  | o => .refused o

/-- A PUT, where the store executes the entry at `term` and `index`, or answers from a session. -/
def writeKey (uuid : String) (term index : ℕ) (key : String) (body : Bytes) (ifMatch ifNoneMatch : Option String)
    (idempotencyKey : Option String) (m : KVStateMachine) : WriteResponse × KVStateMachine :=
  match svc.parseIfMatch ifMatch with
  | .error r => (r, m)
  | .ok expectedVersion =>
    match parseCreateOnly ifNoneMatch with
    | .error r => (r, m)
    | .ok createOnly =>
      let req := WriteRequest.put key body expectedVersion createOnly
      match svc.prepare (svc.clientId uuid idempotencyKey req) req with
      | .error o => (.refused o, m)
      | .ok request =>
        match encode request with
        | .error exc => (.unexpected exc, m)
        | .ok request =>
          match m.lookupSession request.clientId request.seqNum with
          | some r => (respond key (svc.complete r req), m)
          | none =>
            match m.apply loadCas (request.command.entry term index) with
            | (m', .ok r) => (respond key (svc.complete r req), m')
            | (m', .error exc) => (.storeError exc, m')

end KVService

/-- A version number as an If-Match header can name it. -/
structure NamesVersion (header : String) (digits : List Char) : Prop where
  number : isNumber digits = true
  shape : header.toList = digits ∨ header.toList = '"' :: (digits ++ ['"'])

def number (digits : List Char) : ℕ := digits.foldl (fun n d => n * 10 + (d.toNat - 48)) 0

variable {digits : List Char} {header : String}

lemma digits_isDigit (h : isNumber digits = true) : digits ≠ [] ∧ ∀ d ∈ digits, d.isDigit = true := by
  simpa [isNumber] using h

lemma int_digits (h : ∀ d ∈ digits, d.isDigit = true) (hlen : digits.length ≤ 4300) :
    int asciiDigit digits = .ok (number digits) := by
  have hmap : digits.mapM asciiDigit = some (digits.map fun d => d.toNat - 48) := by
    clear hlen
    induction digits with
    | nil => rfl
    | cons d ds ih =>
      have hd : asciiDigit d = some (d.toNat - 48) := if_pos (h d List.mem_cons_self)
      rw [List.mapM_cons, hd, ih fun x hx => h x (List.mem_cons_of_mem d hx)]
      rfl
  rw [int, if_neg (not_lt.mpr hlen), hmap, number]
  dsimp only
  rw [List.foldl_map]

lemma digit_range {d : Char} (h : d.isDigit = true) : 48 ≤ d.toNat ∧ d.toNat ≤ 57 := by
  simp only [Char.isDigit, Bool.and_eq_true, decide_eq_true_eq, ge_iff_le, UInt32.le_iff_toNat_le] at h
  exact h

lemma isSpace_digit {d : Char} (h : d.isDigit = true) : isSpace d = false := by
  obtain ⟨hlow, hhigh⟩ := digit_range h
  simp only [isSpace, Bool.or_eq_false_iff, Bool.and_eq_false_iff, decide_eq_false_iff_not]
  omega

lemma digit_ne_char {c d : Char} (h : d.isDigit = true) (hc : c.isDigit = false) : d ≠ c := by
  rintro rfl
  rw [h] at hc
  cases hc

lemma strip_eq_self {s : List Char} (h : ∀ c ∈ s.head?, isSpace c = false)
    (hlast : ∀ c ∈ s.getLast?, isSpace c = false) : strip s = s := by
  have hfront : ∀ {l : List Char}, (∀ c ∈ l.head?, isSpace c = false) → l.dropWhile isSpace = l := by
    intro l hl
    cases l with
    | nil => rfl
    | cons c l =>
      rw [List.dropWhile_cons_of_neg]
      rw [hl c rfl]
      exact Bool.false_ne_true
  rw [strip, hfront h, hfront, List.reverse_reverse]
  rwa [List.head?_reverse]

lemma NamesVersion.strip (h : NamesVersion header digits) : strip header.toList = header.toList := by
  obtain ⟨hne, hall⟩ := digits_isDigit h.number
  apply strip_eq_self
  · intro c hc
    rcases h.shape with hs | hs
    · rw [hs] at hc
      exact isSpace_digit (hall c (List.mem_of_mem_head? hc))
    · rw [hs, List.head?_cons, Option.mem_some_iff] at hc
      rw [← hc]
      rfl
  · intro c hc
    rcases h.shape with hs | hs
    · rw [hs] at hc
      exact isSpace_digit (hall c (List.mem_of_mem_getLast? hc))
    · rw [hs, ← List.cons_append, List.getLast?_concat, Option.mem_some_iff] at hc
      rw [← hc]
      rfl

lemma NamesVersion.head (h : NamesVersion header digits) :
    ∃ c s, header.toList = c :: s ∧ c ≠ '*' ∧ c ≠ 'W' := by
  obtain ⟨hne, hall⟩ := digits_isDigit h.number
  rcases h.shape with hs | hs
  · cases digits with
    | nil => exact (hne rfl).elim
    | cons d ds =>
      have hd := hall d List.mem_cons_self
      exact ⟨d, ds, hs, digit_ne_char hd (by decide), digit_ne_char hd (by decide)⟩
  · exact ⟨_, _, hs, by decide, by decide⟩

lemma NamesVersion.strongEtag (h : NamesVersion header digits) : strongEtag header.toList = some digits := by
  obtain ⟨hne, hall⟩ := digits_isDigit h.number
  rcases h.shape with hs | hs
  · rw [hs]
    cases digits with
    | nil => exact (hne rfl).elim
    | cons d ds =>
      have hd : d ≠ '"' := digit_ne_char (hall d List.mem_cons_self) (by decide)
      rw [Gateway.strongEtag]
      · exact if_pos h.number
      · rintro s ⟨⟩
        exact hd rfl
  · rw [hs, Gateway.strongEtag, List.dropLast_concat, List.getLast?_concat]
    exact if_pos ⟨rfl, h.number⟩

lemma NamesVersion.parse (h : NamesVersion header digits) (svc : KVService) :
    svc.parseIfMatch (some header) = match int asciiDigit digits with
      | .ok n => .ok (some (n : ℤ))
      | .error exc => .error (.unexpected exc) := by
  obtain ⟨c, s, hs, hstar, hw⟩ := h.head
  have hnotStar : header.toList ≠ ['*'] := by
    rw [hs]
    rintro ⟨⟩
    exact hstar rfl
  have hnotWeak : ¬"W/".toList <+: header.toList := by
    rw [hs]
    intro hp
    exact hw (List.cons_prefix_cons.mp hp).1.symm
  rw [KVService.parseIfMatch]
  rw [h.strip, if_neg hnotStar, if_neg hnotWeak, h.strongEtag]

/-- A PUT that asks for a version that is not the current one. -/
structure Mismatch (svc : KVService) (uuid : String) (key : String) (body : Bytes) (digits : List Char)
    (idempotencyKey : Option String) (m : KVStateMachine) : Prop where
  fits : body.length ≤ svc.maxValueBytes
  differs : ∀ c, m.store.get key = some c → c.version ≠ number digits
  /-- The request has not been executed before. -/
  fresh : m.sessionResult (svc.clientId uuid idempotencyKey
    (.put key body (some (number digits : ℤ)) false)) 1 = none

variable {svc : KVService} {uuid key : String} {body : Bytes} {idempotencyKey : Option String}
  {m : KVStateMachine} {term index : ℕ}

lemma versionCas_entry (key clientId : String) (body : Bytes) (n : ℕ) (term index : ℕ) :
    VersionCas loadCas key (n : ℚ) ((Request.cas key [] body false n clientId 1).command.entry term index) := by
  refine ⟨rfl, rfl, ⟨false, (n : ℤ), [], body⟩, ?_, rfl, Int.cast_natCast n⟩
  simp only [Request.command, Command.entry, loadCas, decodeCas_casCommand]

lemma Mismatch.apply (h : Mismatch svc uuid key body digits idempotencyKey m) (term index : ℕ)
    (hpos : 1 ≤ number digits) {c : String}
    (hc : c = svc.clientId uuid idempotencyKey (.put key body (some (number digits : ℤ)) false)) :
    ∃ r m', m.apply loadCas ((Request.cas key [] body false (number digits) c 1).command.entry term index) =
        (m', .ok r) ∧ boolField r "swapped" = false ∧ m'.toTables = m.toTables := by
  subst hc
  set request := Request.cas key [] body false (number digits)
    (svc.clientId uuid idempotencyKey (.put key body (some (number digits : ℤ)) false)) 1
  have hop : (request.command.entry term index).opType ≠ .snapshot := (entry_opType request term index).1
  have hu : Unanswered m (request.command.entry term index) := fun _ => h.fresh
  obtain ⟨htables, hresult⟩ := apply_unanswered loadCas hop hu
  have happ := applyOp_operation m.toTables request term index
  have hr := congrArg Prod.snd happ
  have hv : (0 : ℚ) < number digits := by exact_mod_cast hpos
  rcases (versionCas_entry key _ body (number digits) term index).applyOp hv hr with
    ⟨-, ⟨cell, hcell, hversion⟩, -⟩ | ⟨hno, hsame, -, -⟩
  · exact (h.differs cell hcell (by exact_mod_cast hversion)).elim
  · refine ⟨_, _, Prod.ext rfl (hresult.trans hr), hno, htables.trans hsame⟩

lemma respond_put_mismatch (svc : KVService) (key : String) (body : Bytes) {r : Result} (n : ℕ)
    (h : boolField r "swapped" = false) :
    ∃ message v, KVService.respond key (svc.complete r (.put key body (some (n : ℤ)) false)) =
      .refused (.preconditionFailed message v) := by
  simp only [KVService.complete, h, Bool.false_eq_true, if_false]
  exact ⟨_, _, rfl⟩

/-- The request reaches the store unless its number is 0. -/
lemma prepare_version (key : String) (h : body.length ≤ svc.maxValueBytes) (c : String) (n : ℕ) :
    svc.prepare c (.put key body (some (n : ℤ)) false) =
      if n < 1 then .error (.preconditionFailed ("key " ++ svc.keyRepr key ++ " is not at version " ++
        toString (n : ℤ)) 0)
      else .ok (.cas key [] body false n c 1) := by
  simp only [KVService.prepare, if_neg (not_lt.mpr h), Bool.false_eq_true, and_false, if_false]
  by_cases hn : n < 1
  · rw [if_pos hn, if_pos (by exact_mod_cast hn)]
  · rw [if_neg hn, if_neg (by exact_mod_cast hn)]

lemma encode_cas (key : String) (body : Bytes) (c : String) (n : ℕ) :
    KVService.encode (.cas key [] body false n c 1) =
      if n < 2 ^ 63 then .ok (.cas key [] body false n c 1)
      else .error ("Value out of range: " ++ toString (n : ℤ)) := by
  have hlow : (-2 ^ 63 : ℤ) ≤ n := (by norm_num : (-2 ^ 63 : ℤ) ≤ 0).trans (Int.natCast_nonneg n)
  rw [KVService.encode]
  by_cases hn : n < 2 ^ 63
  · rw [if_pos hn, if_pos ⟨hlow, by exact_mod_cast hn⟩]
  · rw [if_neg hn, if_neg fun hboth => hn (by exact_mod_cast hboth.2)]

lemma writeKey_parse {ifMatch : Option String} {r : WriteResponse} (h : svc.parseIfMatch ifMatch = .error r) :
    svc.writeKey uuid term index key body ifMatch none idempotencyKey m = (r, m) := by
  simp only [KVService.writeKey, h]

lemma writeKey_prepare {ifMatch : Option String} {v : Option ℤ} {o : Outcome}
    (h : svc.parseIfMatch ifMatch = .ok v)
    (hp : svc.prepare (svc.clientId uuid idempotencyKey (.put key body v false)) (.put key body v false) =
      .error o) :
    svc.writeKey uuid term index key body ifMatch none idempotencyKey m = (.refused o, m) := by
  simp only [KVService.writeKey, h, KVService.parseCreateOnly, hp]

lemma writeKey_encode {ifMatch : Option String} {v : Option ℤ} {request : Request} {exc : String}
    (h : svc.parseIfMatch ifMatch = .ok v)
    (hp : svc.prepare (svc.clientId uuid idempotencyKey (.put key body v false)) (.put key body v false) =
      .ok request) (he : KVService.encode request = .error exc) :
    svc.writeKey uuid term index key body ifMatch none idempotencyKey m = (.unexpected exc, m) := by
  simp only [KVService.writeKey, h, KVService.parseCreateOnly, hp, he]

lemma writeKey_apply {ifMatch : Option String} {v : Option ℤ} {request : Request} {r : Result}
    {m' : KVStateMachine} (h : svc.parseIfMatch ifMatch = .ok v)
    (hp : svc.prepare (svc.clientId uuid idempotencyKey (.put key body v false)) (.put key body v false) =
      .ok request) (he : KVService.encode request = .ok request)
    (hl : m.lookupSession request.clientId request.seqNum = none)
    (ha : m.apply loadCas (request.command.entry term index) = (m', .ok r)) :
    svc.writeKey uuid term index key body ifMatch none idempotencyKey m =
      (KVService.respond key (svc.complete r (.put key body v false)), m') := by
  simp only [KVService.writeKey, h, KVService.parseCreateOnly, hp, he, hl, ha]

lemma parse_number (hheader : NamesVersion header digits) (hlen : digits.length ≤ 4300) :
    svc.parseIfMatch (some header) = .ok (some (number digits : ℤ)) := by
  rw [hheader.parse, int_digits (digits_isDigit hheader.number).2 hlen]

lemma parse_too_long (svc : KVService) (hheader : NamesVersion header digits) (hlen : ¬digits.length ≤ 4300) :
    ∃ exc, svc.parseIfMatch (some header) = .error (.unexpected exc) := by
  rw [hheader.parse, int, if_pos (not_le.mp hlen)]
  exact ⟨_, rfl⟩

/-- A number that fits is refused with 412, and nothing changes. -/
lemma Mismatch.refused (h : Mismatch svc uuid key body digits idempotencyKey m)
    (hheader : NamesVersion header digits) (hlen : digits.length ≤ 4300) (hbound : number digits < 2 ^ 63) :
    ∃ message v m', svc.writeKey uuid term index key body (some header) none idempotencyKey m =
      (.refused (.preconditionFailed message v), m') ∧ m'.toTables = m.toTables := by
  have hparse : svc.parseIfMatch (some header) = .ok (some (number digits : ℤ)) := parse_number hheader hlen
  by_cases hzero : number digits < 1
  · have hp := prepare_version key h.fits (svc.clientId uuid idempotencyKey
      (.put key body (some (number digits : ℤ)) false)) (number digits)
    rw [if_pos hzero] at hp
    exact ⟨_, _, m, writeKey_prepare hparse hp, rfl⟩
  · have hp := prepare_version key h.fits (svc.clientId uuid idempotencyKey
      (.put key body (some (number digits : ℤ)) false)) (number digits)
    rw [if_neg hzero] at hp
    have he := encode_cas key body (svc.clientId uuid idempotencyKey
      (.put key body (some (number digits : ℤ)) false)) (number digits)
    rw [if_pos hbound] at he
    obtain ⟨r, m', happ, hno, htables⟩ := h.apply term index (not_lt.mp hzero) rfl
    have hlook : m.lookupSession (svc.clientId uuid idempotencyKey
        (.put key body (some (number digits : ℤ)) false)) 1 = none := by
      rw [KVStateMachine.lookupSession]
      split_ifs
      · rfl
      · exact h.fresh
    obtain ⟨message, v, hresp⟩ := respond_put_mismatch svc key body (number digits) hno
    refine ⟨message, v, m', ?_, htables⟩
    rw [writeKey_apply hparse hp he hlook happ, hresp]

/-- A number that does not fit raises an exception that the gateway does not know. -/
lemma Mismatch.raised (h : Mismatch svc uuid key body digits idempotencyKey m) (term index : ℕ)
    (hheader : NamesVersion header digits) (hbig : ¬(digits.length ≤ 4300 ∧ number digits < 2 ^ 63)) :
    ∃ exc, svc.writeKey uuid term index key body (some header) none idempotencyKey m = (.unexpected exc, m) := by
  by_cases hlen : digits.length ≤ 4300
  · have hbound : ¬number digits < 2 ^ 63 := fun hlt => hbig ⟨hlen, hlt⟩
    have hp := prepare_version key h.fits (svc.clientId uuid idempotencyKey
      (.put key body (some (number digits : ℤ)) false)) (number digits)
    rw [if_neg (by omega)] at hp
    have he := encode_cas key body (svc.clientId uuid idempotencyKey
      (.put key body (some (number digits : ℤ)) false)) (number digits)
    rw [if_neg hbound] at he
    exact ⟨_, writeKey_encode (parse_number hheader hlen) hp he⟩
  · obtain ⟨exc, hparse⟩ := parse_too_long svc hheader hlen
    exact ⟨exc, writeKey_parse hparse⟩

/-- A PUT that asks for a version other than the current one fails with 412 and changes nothing exactly
when its number is one that `int` reads and the message to the store can hold. -/
theorem if_match_mismatch (svc : KVService) (uuid : String) (term index : ℕ) (key : String) (body : Bytes)
    (header : String) (digits : List Char) (idempotencyKey : Option String) (m : KVStateMachine)
    (hheader : NamesVersion header digits)
    (h : Mismatch svc uuid key body digits idempotencyKey m) :
    (∃ message v m', svc.writeKey uuid term index key body (some header) none idempotencyKey m =
      (.refused (.preconditionFailed message v), m') ∧ m'.toTables = m.toTables) ↔
    digits.length ≤ 4300 ∧ number digits < 2 ^ 63 := by
  constructor
  · rintro ⟨message, v, m', hrefused, -⟩
    by_contra hbig
    obtain ⟨exc, hraised⟩ := h.raised term index hheader hbig
    rw [hraised] at hrefused
    cases hrefused
  · rintro ⟨hlen, hbound⟩
    exact h.refused hheader hlen hbound

/-- A service with a limit of one mebibyte, in front of a store with one key at version 1. -/
def smallService : KVService := ⟨1048576, fun _ => true, fun _ => ""⟩

def cityStore : KVStateMachine := (KVStateMachine.init 10).run loadCas [⟨1, 1, .put, "city", [75], "", 0⟩]

theorem if_match_mismatch_two : ∃ message v m', smallService.writeKey "0f" 1 2 "city" [80] (some "\"2\"") none none
    cityStore = (.refused (.preconditionFailed message v), m') ∧ m'.toTables = cityStore.toTables := by
  refine (if_match_mismatch smallService "0f" 1 2 "city" [80] "\"2\"" ['2'] none cityStore
    ⟨by decide, .inr (by decide)⟩ ⟨by decide, ?_, by decide +kernel⟩).mpr ⟨by decide, by decide⟩
  intro c hc
  have hcell : cityStore.store.get "city" = some ⟨[75], 1⟩ := by decide +kernel
  rw [hcell] at hc
  cases hc
  decide

/-- The first number that the message cannot hold. -/
theorem if_match_out_of_range : cityStore.get "city" = (some [75], 1, true) ∧
    (smallService.writeKey "0f" 1 2 "city" [80] (some "9223372036854775808") none none cityStore).1 =
      .unexpected "Value out of range: 9223372036854775808" := by
  decide +kernel

end DistributedStorage.Gateway

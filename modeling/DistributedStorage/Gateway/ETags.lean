import DistributedStorage.Gateway.Preconditions
import DistributedStorage.Kv.Servicer

/-! Reading over HTTP: the response to a GET, the copies that an If-None-Match header names, and the ETag as
it comes back in an If-Match header. -/

namespace DistributedStorage.Gateway

open Library Raft Kv

structure EntryOut where
  key : String
  value : String
  encoding : String
  version : ℤ
  deriving DecidableEq

inductive ReadResponse
  | ok (etag : String) (entry : EntryOut)
  | notModified (etag : String)
  | notFound (message : String)
  deriving DecidableEq

/-- `s.strip('"')` -/
def stripQuotes (s : List Char) : List Char := ((s.dropWhile (· = '"')).reverse.dropWhile (· = '"')).reverse

/-- `s.removeprefix(p)` -/
def removePrefix (p s : List Char) : List Char := if p <+: s then s.drop p.length else s

def matchesTag (version : ℤ) (tag : List Char) : Bool :=
  let tag := strip tag
  tag = ['*'] || stripQuotes (removePrefix "W/".toList tag) = (toString version).toList

/-- `_matches` -/
def matchesEtag (ifNoneMatch : String) (version : ℤ) : Bool :=
  (ifNoneMatch.toList.splitOn ',').any (matchesTag version)

/-- Bytes that are no text are sent in base64. -/
def entryOut (key : String) (value : Bytes) (version : ℤ) : EntryOut :=
  match decodeUtf8 value with
  | some text => ⟨key, text, "utf-8", version⟩
  | none => ⟨key, String.ofList (Base64.encode value), "base64", version⟩

/-- The bytes that a client takes from an entry. -/
def EntryOut.bytes (e : EntryOut) : Option Bytes :=
  if e.encoding = "utf-8" then some (encodeUtf8 e.value) else Base64.decode e.value.toList

namespace KVService

variable (svc : KVService)

/-- A GET, with the response of the store. -/
def readKey {ι : Type} (key : String) (ifNoneMatch : Option String) (resp : GetResponse ι) : ReadResponse :=
  if resp.found then
    if ifNoneMatch.any fun header => matchesEtag header resp.version then .notModified (etag resp.version)
    else .ok (etag resp.version) (entryOut key resp.value resp.version)
  else .notFound ("key " ++ svc.keyRepr key ++ " does not exist")

/-- What a PUT asks the store for. -/
def askKey (uuid : String) (key : String) (body : Bytes) (ifMatch ifNoneMatch : Option String)
    (idempotencyKey : Option String) : Except WriteResponse (WriteRequest × Request) :=
  match svc.parseIfMatch ifMatch with
  | .error r => .error r
  | .ok expectedVersion =>
    match parseCreateOnly ifNoneMatch with
    | .error r => .error r
    | .ok createOnly =>
      let req := WriteRequest.put key body expectedVersion createOnly
      match svc.prepare (svc.clientId uuid idempotencyKey req) req with
      | .error o => .error (.refused o)
      | .ok request =>
        match encode request with
        | .error exc => .error (.unexpected exc)
        | .ok request => .ok (req, request)

/-- A PUT asks the store, and answers what the response becomes. -/
lemma writeKey_ask (uuid : String) (term index : ℕ) (key : String) (body : Bytes)
    (ifMatch ifNoneMatch idempotencyKey : Option String) (m : KVStateMachine) :
    svc.writeKey uuid term index key body ifMatch ifNoneMatch idempotencyKey m =
      match svc.askKey uuid key body ifMatch ifNoneMatch idempotencyKey with
      | .error r => (r, m)
      | .ok (req, request) =>
        match m.lookupSession request.clientId request.seqNum with
        | some r => (respond key (svc.complete r req), m)
        | none =>
          match m.apply loadCas (request.command.entry term index) with
          | (m', .ok r) => (respond key (svc.complete r req), m')
          | (m', .error exc) => (.storeError exc, m') := by
  rw [writeKey, askKey]
  cases svc.parseIfMatch ifMatch with
  | error r => rfl
  | ok expectedVersion =>
    cases parseCreateOnly ifNoneMatch with
    | error r => rfl
    | ok createOnly =>
      dsimp only
      cases svc.prepare (svc.clientId uuid idempotencyKey (.put key body expectedVersion createOnly))
          (.put key body expectedVersion createOnly) with
      | error o => rfl
      | ok request =>
        dsimp only
        cases encode request with
        | error exc => rfl
        | ok request => rfl

end KVService

lemma entryOut_bytes (key : String) (value : Bytes) (version : ℤ) :
    (entryOut key value version).bytes = some value := by
  rw [entryOut]
  cases htext : decodeUtf8 value with
  | some text =>
    rw [decodeUtf8, String.fromUTF8?] at htext
    split_ifs at htext with hvalid
    cases htext
    rfl
  | none =>
    change (if "base64" = "utf-8" then _ else Base64.decode (String.ofList (Base64.encode value)).toList) = _
    rw [if_neg (by decide), String.toList_ofList, Base64.decode_encode]

lemma etag_toList (version : ℕ) : (etag version).toList = '"' :: (Json.digits version ++ ['"']) := by
  have hdigits : (toString (version : ℤ)).toList = Json.digits version := Nat.toList_repr
  rw [etag, String.toList_append, String.toList_append, hdigits]
  rfl

lemma etag_namesVersion (version : ℕ) : NamesVersion (etag version) (Json.digits version) := by
  refine ⟨?_, Or.inr (etag_toList version)⟩
  rw [isNumber, Bool.and_eq_true, decide_eq_true_eq, List.all_eq_true]
  exact ⟨Nat.toDigits_ne_nil, Json.digits_isDigit version⟩

lemma number_digits (version : ℕ) : number (Json.digits version) = version := by
  have hvalue : Nat.ofDigitChars 10 (Json.digits version) 0 = version := Nat.ofDigitChars_ten_toDigits
  have hstep : (fun (n : ℕ) (d : Char) => n * 10 + (d.toNat - 48)) =
      fun n d => 10 * n + (d.toNat - '0'.toNat) := by
    funext n d
    rw [Nat.mul_comm]
    rfl
  rw [number, hstep]
  exact hvalue

lemma digits_injective {v w : ℕ} (h : Json.digits v = Json.digits w) : v = w := by
  rw [← number_digits v, h, number_digits]

/-- An ETag that is sent back asks for its version. -/
lemma parse_etag {svc : KVService} {version : ℕ} {v : Option ℤ}
    (h : svc.parseIfMatch (some (etag version)) = .ok v) : v = some (version : ℤ) := by
  rw [(etag_namesVersion version).parse svc] at h
  by_cases hlen : (Json.digits version).length ≤ 4300
  · rw [int_digits (Json.digits_isDigit version) hlen, number_digits] at h
    cases h
    rfl
  · rw [int, if_pos (not_le.mp hlen)] at h
    cases h

/-- A copy as an If-None-Match header names it: by its ETag, weakly or not, with blanks around. -/
def NamesCopy (piece : List Char) (version : ℕ) : Prop :=
  ∃ before behind : List Char, ∃ weak : Bool, (∀ c ∈ before, isSpace c = true) ∧ (∀ c ∈ behind, isSpace c = true) ∧
    piece = before ++ ((if weak then "W/".toList else []) ++ (etag version).toList ++ behind)

lemma strip_around {before core behind : List Char} (hbefore : ∀ c ∈ before, isSpace c = true)
    (hbehind : ∀ c ∈ behind, isSpace c = true) (hhead : ∀ c ∈ core.head?, isSpace c = false)
    (hlast : ∀ c ∈ core.getLast?, isSpace c = false) (hne : core ≠ []) :
    strip (before ++ (core ++ behind)) = core := by
  have hfront : ∀ {l r : List Char}, (∀ c ∈ l, isSpace c = true) → (∀ c ∈ r.head?, isSpace c = false) →
      (l ++ r).dropWhile isSpace = r := by
    intro l r hl hr
    rw [List.dropWhile_append_of_pos hl]
    cases r with
    | nil => rfl
    | cons c r => exact List.dropWhile_cons_of_neg (by rw [hr c rfl]; exact Bool.false_ne_true)
  have hcore : ∀ c ∈ (core ++ behind).head?, isSpace c = false := by
    rw [List.head?_append_of_ne_nil _ hne]
    exact hhead
  rw [strip, hfront hbefore hcore, List.reverse_append, hfront, List.reverse_reverse]
  · exact fun c hc => hbehind c (List.mem_reverse.mp hc)
  · rwa [List.head?_reverse]

lemma etag_ends (version : ℕ) : (etag version).toList.head? = some '"' ∧
    (etag version).toList.getLast? = some '"' := by
  rw [etag_toList]
  refine ⟨rfl, ?_⟩
  rw [← List.cons_append, List.getLast?_concat]

lemma stripQuotes_etag (version : ℕ) : stripQuotes (etag version).toList = Json.digits version := by
  have hfront : ∀ {l : List Char}, (∀ c ∈ l, c.isDigit = true) → l ≠ [] → ∀ r : List Char,
      ('"' :: (l ++ r)).dropWhile (· = '"') = l ++ r := by
    intro l hl hne r
    cases l with
    | nil => exact (hne rfl).elim
    | cons d l =>
      have hd : d ≠ '"' := digit_ne_char (hl d List.mem_cons_self) (by decide)
      rw [List.dropWhile_cons_of_pos (by decide), List.cons_append, List.dropWhile_cons_of_neg (by simpa using hd)]
  have hne : Json.digits version ≠ [] := Nat.toDigits_ne_nil
  have hdigits := Json.digits_isDigit version
  have hback := hfront (l := (Json.digits version).reverse) (fun c hc => hdigits c (List.mem_reverse.mp hc))
    (fun h => hne (List.reverse_eq_nil_iff.mp h)) []
  rw [List.append_nil] at hback
  rw [stripQuotes, etag_toList, hfront hdigits hne, List.reverse_append, List.reverse_singleton,
    List.singleton_append, hback, List.reverse_reverse]

/-- A copy is current if its version is. -/
lemma NamesCopy.matchesTag {piece : List Char} {version : ℕ} (h : NamesCopy piece version) (current : ℕ) :
    matchesTag current piece = decide (version = current) := by
  obtain ⟨before, behind, weak, hbefore, hbehind, rfl⟩ := h
  have hdigits : (toString (current : ℤ)).toList = Json.digits current := Nat.toList_repr
  obtain ⟨hfirst, hlast⟩ := etag_ends version
  have hcompare : stripQuotes (etag version).toList = Json.digits current ↔ version = current := by
    rw [stripQuotes_etag]
    exact ⟨digits_injective, fun heq => by rw [heq]⟩
  have hstar : (etag version).toList ≠ ['*'] := by
    intro heq
    rw [heq] at hfirst
    cases hfirst
  cases weak with
  | true =>
    have hstrip : strip (before ++ ("W/".toList ++ (etag version).toList ++ behind)) =
        "W/".toList ++ (etag version).toList := by
      apply strip_around hbefore hbehind
      · rintro c ⟨⟩
        rfl
      · rw [List.getLast?_append, hlast]
        rintro c ⟨⟩
        rfl
      · exact List.cons_ne_nil _ _
    have hremove : removePrefix "W/".toList ("W/".toList ++ (etag version).toList) = (etag version).toList := by
      rw [removePrefix, if_pos (List.prefix_append _ _), List.drop_left]
    have hweak : "W/".toList ++ (etag version).toList ≠ ['*'] :=
      fun heq => absurd (List.cons.inj heq).1 (by decide)
    rw [Gateway.matchesTag, if_pos rfl, hstrip, hremove, hdigits, decide_eq_decide.mpr hcompare,
      decide_eq_false hweak, Bool.false_or]
  | false =>
    have hstrip : strip (before ++ ([] ++ (etag version).toList ++ behind)) = (etag version).toList := by
      rw [List.nil_append]
      apply strip_around hbefore hbehind
      · rw [hfirst]
        rintro c ⟨⟩
        rfl
      · rw [hlast]
        rintro c ⟨⟩
        rfl
      · intro hnil
        rw [hnil] at hfirst
        cases hfirst
    have hremove : removePrefix "W/".toList (etag version).toList = (etag version).toList := by
      rw [removePrefix, if_neg]
      intro hp
      rw [etag_toList] at hp
      exact absurd (List.cons_prefix_cons.mp hp).1 (by decide)
    rw [Gateway.matchesTag, if_neg Bool.false_ne_true, hstrip, hremove, hdigits, decide_eq_decide.mpr hcompare,
      decide_eq_false hstar, Bool.false_or]

lemma NamesCopy.no_comma {piece : List Char} {version : ℕ} (h : NamesCopy piece version) : ',' ∉ piece := by
  obtain ⟨before, behind, weak, hbefore, hbehind, rfl⟩ := h
  have hspace : isSpace ',' = false := by decide
  have hquiet : ∀ {l : List Char}, (∀ c ∈ l, isSpace c = true) → ',' ∉ l := by
    intro l hl hm
    rw [hl _ hm] at hspace
    cases hspace
  have htag : ',' ∉ (etag version).toList := by
    rw [etag_toList]
    intro hm
    rcases List.mem_cons.mp hm with heq | hm
    · exact absurd heq (by decide)
    · rcases List.mem_append.mp hm with hm | hm
      · exact absurd (Json.digits_isDigit version _ hm) (by decide)
      · exact absurd (List.mem_singleton.mp hm) (by decide)
  have hweak : ',' ∉ (if weak then "W/".toList else []) := by cases weak <;> decide
  simp only [List.mem_append, not_or]
  exact ⟨hquiet hbefore, ⟨hweak, htag⟩, hquiet hbehind⟩

lemma any_matchesTag {pieces : List (List Char)} {versions : List ℕ}
    (h : List.Forall₂ NamesCopy pieces versions) (current : ℕ) :
    pieces.any (matchesTag current) = true ↔ current ∈ versions := by
  induction h with
  | nil => simp
  | @cons p v pieces versions hp _ ih =>
    rw [List.any_cons, Bool.or_eq_true, hp.matchesTag, decide_eq_true_eq, List.mem_cons]
    exact or_congr eq_comm ih

lemma pieces_no_comma {pieces : List (List Char)} {versions : List ℕ}
    (h : List.Forall₂ NamesCopy pieces versions) : ∀ p ∈ pieces, ',' ∉ p := by
  induction h with
  | nil => exact fun p hp => (List.not_mem_nil hp).elim
  | cons hp _ ih =>
    intro p hm
    rcases List.mem_cons.mp hm with rfl | hm
    · exact hp.no_comma
    · exact ih p hm

/-- A header names the copies it lists. -/
lemma matchesEtag_iff {header : String} {pieces : List (List Char)} {versions : List ℕ}
    (hheader : header.toList = [','].intercalate pieces) (hne : pieces ≠ [])
    (hpieces : List.Forall₂ NamesCopy pieces versions) (current : ℕ) :
    matchesEtag header current = true ↔ current ∈ versions := by
  rw [matchesEtag, hheader, List.splitOn_intercalate _ (pieces_no_comma hpieces) hne]
  exact any_matchesTag hpieces current

end DistributedStorage.Gateway

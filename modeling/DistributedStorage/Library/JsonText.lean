import Mathlib.Algebra.Order.Ring.Int
import Mathlib.Data.List.Basic
import Mathlib.Tactic.SplitIfs

/-! The lexical level of JSON: string literals written in ASCII with escapes, and integers. -/

namespace DistributedStorage.Library.Json

def hexValue (c : Char) : Option ℕ :=
  if c.isDigit then some (c.toNat - 48)
  else if 'a' ≤ c ∧ c ≤ 'f' then some (c.toNat - 87)
  else if 'A' ≤ c ∧ c ≤ 'F' then some (c.toNat - 55)
  else none

/-- The escape `\uXXXX` of a code unit. -/
def escapeUnit (n : ℕ) : List Char :=
  ['\\', 'u', (n / 4096).digitChar, (n / 256 % 16).digitChar, (n / 16 % 16).digitChar,
    (n % 16).digitChar]

/-- The UTF-16 code units of a character. -/
def units (c : Char) : List ℕ :=
  if c.toNat < 65536 then [c.toNat]
  else [55296 + (c.toNat - 65536) / 1024, 56320 + (c.toNat - 65536) % 1024]

/-- The escapes of two characters. -/
def shortEscapes : List (Char × Char) :=
  [('"', '"'), ('\\', '\\'), ('\n', 'n'), ('\r', 'r'), ('\t', 't'), ('\x0c', 'f'), ('\x08', 'b')]

def escape (c : Char) : List Char :=
  match shortEscapes.lookup c with
  | some e => ['\\', e]
  | none => if ' ' ≤ c ∧ c ≤ '~' then [c] else (units c).flatMap escapeUnit

def unescape (e : Char) : Option Char :=
  if e = '/' then some '/' else (shortEscapes.find? fun x => x.2 = e).map Prod.fst

/-- The code units of a string literal, after its opening quote, with the text behind it. A control
character must be escaped. -/
def scanUnits : List Char → Option (List ℕ × List Char)
  | [] => none
  | c :: s =>
    if c = '"' then some ([], s)
    else if c = '\\' then
      match s with
      | [] => none
      | e :: s =>
        if e = 'u' then
          match s with
          | x :: y :: z :: w :: s =>
            match hexValue x, hexValue y, hexValue z, hexValue w with
            | some x, some y, some z, some w =>
              (scanUnits s).map fun r => ((x * 4096 + y * 256 + z * 16 + w) :: r.1, r.2)
            | _, _, _, _ => none
          | _ => none
        else
          match unescape e with
          | some c => (scanUnits s).map fun r => (c.toNat :: r.1, r.2)
          | none => none
    else if c.toNat < 32 then none
    else (scanUnits s).map fun r => (c.toNat :: r.1, r.2)

/-- Code units back to characters. A surrogate without its partner is no character. -/
def joinUnits : List ℕ → Option (List Char)
  | [] => some []
  | u :: us =>
    if 55296 ≤ u ∧ u < 56320 then
      match us with
      | [] => none
      | v :: us =>
        if 56320 ≤ v ∧ v < 57344 then
          (joinUnits us).map (Char.ofNat (65536 + (u - 55296) * 1024 + (v - 56320)) :: ·)
        else none
    else if 56320 ≤ u ∧ u < 57344 then none
    else (joinUnits us).map (Char.ofNat u :: ·)

def quote (s : List Char) : List Char := '"' :: (s.flatMap escape ++ ['"'])

/-- Reads a string literal after its opening quote. -/
def scanString (s : List Char) : Option (String × List Char) :=
  match scanUnits s with
  | none => none
  | some (us, rest) => (joinUnits us).map fun t => (String.ofList t, rest)

lemma hexValue_digitChar : ∀ n < 16, hexValue n.digitChar = some n := by decide

lemma scanUnits_escapeUnit {n : ℕ} (h : n < 65536) (s : List Char) :
    scanUnits (escapeUnit n ++ s) = (scanUnits s).map fun r => (n :: r.1, r.2) := by
  have hn : n / 4096 * 4096 + n / 256 % 16 * 256 + n / 16 % 16 * 16 + n % 16 = n := by omega
  simp only [escapeUnit, List.cons_append, List.nil_append, scanUnits]
  simp only [hexValue_digitChar (n / 4096) (by omega), hexValue_digitChar (n / 256 % 16) (by omega),
    hexValue_digitChar (n / 16 % 16) (by omega), hexValue_digitChar (n % 16) (by omega), hn]
  rfl

lemma toNat_lt (c : Char) : c.toNat < 1114112 := by
  have := c.valid
  simp only [UInt32.isValidChar, Nat.isValidChar] at this
  simp only [Char.toNat]
  omega

lemma units_lt (c : Char) : ∀ u ∈ units c, u < 65536 := by
  have := toNat_lt c
  simp only [units]
  split_ifs with h <;> simp only [List.forall_mem_cons]
  · exact ⟨h, by simp⟩
  · exact ⟨by omega, by omega, by simp⟩

lemma scanUnits_escapeUnits (us : List ℕ) (h : ∀ u ∈ us, u < 65536) (s : List Char) :
    scanUnits (us.flatMap escapeUnit ++ s) = (scanUnits s).map fun r => (us ++ r.1, r.2) := by
  induction us with
  | nil => simp
  | cons u us ih =>
    rw [List.forall_mem_cons] at h
    rw [List.flatMap_cons, List.append_assoc, scanUnits_escapeUnit h.1, ih h.2, Option.map_map]
    rfl

lemma shortEscapes_spec : ∀ x ∈ shortEscapes,
    x.2 ≠ 'u' ∧ unescape x.2 = some x.1 ∧ units x.1 = [x.1.toNat] := by
  decide

lemma lookup_mem {c e : Char} {l : List (Char × Char)} (h : l.lookup c = some e) : (c, e) ∈ l := by
  induction l with
  | nil => cases h
  | cons x l ih =>
    obtain ⟨k, v⟩ := x
    rw [List.lookup_cons] at h
    split at h
    · rename_i hk
      cases h
      rw [eq_of_beq hk]
      exact List.mem_cons_self
    · exact List.mem_cons_of_mem _ (ih h)

lemma scanUnits_escape (c : Char) (s : List Char) :
    scanUnits (escape c ++ s) = (scanUnits s).map fun r => (units c ++ r.1, r.2) := by
  simp only [escape]
  cases he : shortEscapes.lookup c with
  | some e =>
    obtain ⟨hu, hback, hunits⟩ := shortEscapes_spec _ (lookup_mem he)
    dsimp only at hu hback hunits
    rw [List.cons_append, List.cons_append, List.nil_append, scanUnits.eq_def]
    simp [hu, hback, hunits]
  | none =>
    have hq : c ≠ '"' := by
      rintro rfl
      cases he
    have hb : c ≠ '\\' := by
      rintro rfl
      cases he
    dsimp only
    split_ifs with hr
    · have h1 : 32 ≤ c.toNat := hr.1
      have h2 : c.toNat ≤ 126 := hr.2
      have hunits : units c = [c.toNat] := if_pos (by omega)
      rw [List.cons_append, List.nil_append, scanUnits.eq_def, hunits]
      simp [hq, hb, Nat.not_lt.mpr h1]
    · exact scanUnits_escapeUnits _ (units_lt c) s

lemma joinUnits_units (c : Char) (us : List ℕ) :
    joinUnits (units c ++ us) = (joinUnits us).map (c :: ·) := by
  have hlt := toNat_lt c
  have hv := c.valid
  simp only [UInt32.isValidChar, Nat.isValidChar] at hv
  simp only [units]
  split_ifs with h
  · have h1 : ¬(55296 ≤ c.toNat ∧ c.toNat < 56320) := by
      simp only [Char.toNat]
      omega
    have h2 : ¬(56320 ≤ c.toNat ∧ c.toNat < 57344) := by
      simp only [Char.toNat]
      omega
    rw [List.cons_append, List.nil_append, joinUnits.eq_def]
    simp only [if_neg h1, if_neg h2, Char.ofNat_toNat]
  · have h1 : 55296 ≤ 55296 + (c.toNat - 65536) / 1024 ∧
        55296 + (c.toNat - 65536) / 1024 < 56320 := by omega
    have h2 : 56320 ≤ 56320 + (c.toNat - 65536) % 1024 ∧
        56320 + (c.toNat - 65536) % 1024 < 57344 := by omega
    have hc : 65536 + (55296 + (c.toNat - 65536) / 1024 - 55296) * 1024 +
        (56320 + (c.toNat - 65536) % 1024 - 56320) = c.toNat := by omega
    simp only [List.cons_append, List.nil_append, joinUnits, if_pos h1, if_pos h2, hc,
      Char.ofNat_toNat]

lemma scanUnits_quoted (s rest : List Char) :
    scanUnits (s.flatMap escape ++ '"' :: rest) = some (s.flatMap units, rest) := by
  induction s with
  | nil =>
    rw [List.flatMap_nil, List.nil_append, scanUnits.eq_def]
    rfl
  | cons c s ih =>
    rw [List.flatMap_cons, List.append_assoc, scanUnits_escape, ih]
    rfl

lemma joinUnits_flatMap (s : List Char) : joinUnits (s.flatMap units) = some s := by
  induction s with
  | nil => rfl
  | cons c s ih =>
    rw [List.flatMap_cons, joinUnits_units, ih]
    rfl

lemma scanString_quote (s : String) (rest : List Char) :
    scanString (s.toList.flatMap escape ++ '"' :: rest) = some (s, rest) := by
  simp only [scanString, scanUnits_quoted, joinUnits_flatMap, Option.map_some, String.ofList_toList]

section Integers

def digits (n : ℕ) : List Char := Nat.toDigits 10 n

/-- The text of an integer. -/
def integer (n : ℤ) : List Char :=
  if n < 0 then '-' :: digits n.natAbs else digits n.natAbs

/-- A zero takes no further digits. -/
def scanDigits : List Char → Option (ℕ × List Char)
  | [] => none
  | c :: s =>
    if c = '0' then some (0, s)
    else if c.isDigit then
      some (Nat.ofDigitChars 10 ((c :: s).takeWhile Char.isDigit) 0, (c :: s).dropWhile Char.isDigit)
    else none

def scanInteger : List Char → Option (ℤ × List Char)
  | [] => none
  | c :: s =>
    if c = '-' then (scanDigits s).map fun r => (-(r.1 : ℤ), r.2)
    else (scanDigits (c :: s)).map fun r => ((r.1 : ℤ), r.2)

/-- The text behind a number does not go on with a digit. -/
def NoDigit : List Char → Prop
  | [] => True
  | c :: _ => c.isDigit = false

lemma digits_ne (n : ℕ) (h : 0 < n) : (digits n).head? ≠ some '0' := by
  induction n using Nat.strongRecOn with
  | ind n ih =>
    by_cases hn : n < 10
    · have hd : ∀ d < 10, 0 < d → (digits d).head? ≠ some '0' := by decide
      exact hd n hn h
    · have hpos : 0 < n / 10 := by omega
      have heq : digits n = digits (n / 10) ++ [(n % 10).digitChar] := by
        rw [digits, Nat.toDigits_of_base_le (by decide) (by omega)]
        rfl
      have hne : digits (n / 10) ≠ [] := Nat.toDigits_ne_nil
      rw [heq, List.head?_append_of_ne_nil _ hne]
      exact ih (n / 10) (by omega) hpos

lemma digits_isDigit (n : ℕ) : ∀ c ∈ digits n, c.isDigit = true :=
  fun _ hc => Nat.isDigit_of_mem_toDigits (by decide) (by decide) hc

lemma takeWhile_noDigit {rest : List Char} (h : NoDigit rest) :
    rest.takeWhile Char.isDigit = [] ∧ rest.dropWhile Char.isDigit = rest := by
  cases rest with
  | nil => exact ⟨rfl, rfl⟩
  | cons c s =>
    have hc : c.isDigit = false := h
    simp [hc]

lemma scanDigits_digits (n : ℕ) {rest : List Char} (h : NoDigit rest) :
    scanDigits (digits n ++ rest) = some (n, rest) := by
  have htake : (digits n ++ rest).takeWhile Char.isDigit = digits n := by
    rw [List.takeWhile_append_of_pos (digits_isDigit n), (takeWhile_noDigit h).1, List.append_nil]
  have hdrop : (digits n ++ rest).dropWhile Char.isDigit = rest := by
    rw [List.dropWhile_append_of_pos (digits_isDigit n), (takeWhile_noDigit h).2]
  have hvalue : Nat.ofDigitChars 10 (digits n) 0 = n := Nat.ofDigitChars_ten_toDigits
  obtain hn | hn := Nat.eq_zero_or_pos n
  · subst hn
    rfl
  · have hhead := digits_ne n hn
    have hdigit := digits_isDigit n
    cases hd : digits n with
    | nil => exact absurd hd Nat.toDigits_ne_nil
    | cons c s =>
      rw [hd] at htake hdrop hvalue hhead hdigit
      have hc : c ≠ '0' := fun hc => hhead (congrArg some hc)
      rw [List.cons_append] at htake hdrop ⊢
      simp only [scanDigits, if_neg hc, hdigit c List.mem_cons_self, if_true, htake, hdrop, hvalue]

lemma integer_head (n : ℤ) : ∃ c s, integer n = c :: s ∧ (c = '-' ∨ c.isDigit = true) := by
  simp only [integer]
  split_ifs with hn
  · exact ⟨'-', digits n.natAbs, rfl, .inl rfl⟩
  · have hdigit := digits_isDigit n.natAbs
    cases hd : digits n.natAbs with
    | nil => exact absurd hd Nat.toDigits_ne_nil
    | cons c s => exact ⟨c, s, rfl, .inr (hdigit c (hd ▸ List.mem_cons_self))⟩

lemma minus_notMem_digits (n : ℕ) : '-' ∉ digits n := fun h => by
  have := digits_isDigit n '-' h
  cases this

lemma scanInteger_integer (n : ℤ) {rest : List Char} (h : NoDigit rest) :
    scanInteger (integer n ++ rest) = some (n, rest) := by
  have hscan := scanDigits_digits n.natAbs h
  simp only [integer]
  split_ifs with hn
  · have habs : -(n.natAbs : ℤ) = n := by omega
    simp only [List.cons_append, scanInteger, if_true, hscan, Option.map_some, habs]
  · have habs : (n.natAbs : ℤ) = n := by omega
    have hminus := minus_notMem_digits n.natAbs
    cases hd : digits n.natAbs with
    | nil => exact absurd hd Nat.toDigits_ne_nil
    | cons c s =>
      rw [hd] at hscan hminus
      have hc : c ≠ '-' := fun hc => hminus (hc ▸ List.mem_cons_self)
      rw [List.cons_append] at hscan ⊢
      simp only [scanInteger, if_neg hc, hscan, Option.map_some, habs]

end Integers

end DistributedStorage.Library.Json

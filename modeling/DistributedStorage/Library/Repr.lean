import DistributedStorage.Library.JsonText
import Mathlib.Algebra.Order.Ring.Nat
import Mathlib.Tactic.Positivity
import Mathlib.Tactic.Ring

/-! The quoted notation for strings and byte strings that a program prints them in: with escapes, and
with the quotation mark that needs fewer of them. Different texts look different, whatever follows. -/

namespace DistributedStorage.Library.Repr

open Json (hexValue hexValue_digitChar toNat_lt)

def hexDigits : ℕ → ℕ → List Char
  | 0, _ => []
  | w + 1, n => (n / 16 ^ w).digitChar :: hexDigits w (n % 16 ^ w)

/-- Reads `w` hexadecimal digits behind a number. -/
def scanHex : ℕ → ℕ → List Char → Option (ℕ × List Char)
  | 0, n, s => some (n, s)
  | _ + 1, _, [] => none
  | w + 1, n, c :: s =>
    match hexValue c with
    | some d => scanHex w (n * 16 + d) s
    | none => none

lemma scanHex_hexDigits {w n : ℕ} (h : n < 16 ^ w) (m : ℕ) (s : List Char) :
    scanHex w m (hexDigits w n ++ s) = some (m * 16 ^ w + n, s) := by
  induction w generalizing n m with
  | zero =>
    have hn : n = 0 := by simpa using h
    simp [scanHex, hexDigits, hn]
  | succ w ih =>
    have hpos : 0 < 16 ^ w := by positivity
    have hd : n / 16 ^ w < 16 := by
      rw [Nat.div_lt_iff_lt_mul hpos]
      rwa [pow_succ, Nat.mul_comm] at h
    have hsum : (m * 16 + n / 16 ^ w) * 16 ^ w + n % 16 ^ w = m * 16 ^ (w + 1) + n := by
      have hdiv := Nat.div_add_mod n (16 ^ w)
      calc (m * 16 + n / 16 ^ w) * 16 ^ w + n % 16 ^ w
          = m * (16 ^ w * 16) + (16 ^ w * (n / 16 ^ w) + n % 16 ^ w) := by ring
        _ = m * 16 ^ (w + 1) + n := by rw [hdiv, pow_succ]
    simp only [hexDigits, List.cons_append, scanHex, hexValue_digitChar _ hd]
    rw [ih (Nat.mod_lt _ hpos), hsum]

section

-- which characters beyond ASCII are printed as they are
variable (printable : Char → Bool)

/-- A character between quotation marks `q`. -/
def escape (q c : Char) : List Char :=
  if c = q ∨ c = '\\' then ['\\', c]
  else if c = '\t' then ['\\', 't']
  else if c = '\n' then ['\\', 'n']
  else if c = '\r' then ['\\', 'r']
  else if c.toNat < 32 ∨ c.toNat = 127 then '\\' :: 'x' :: hexDigits 2 c.toNat
  else if c.toNat < 127 ∨ printable c then [c]
  else if c.toNat < 256 then '\\' :: 'x' :: hexDigits 2 c.toNat
  else if c.toNat < 65536 then '\\' :: 'u' :: hexDigits 4 c.toNat
  else '\\' :: 'U' :: hexDigits 8 c.toNat

def mark (s : List Char) : Char := if '\'' ∈ s ∧ '"' ∉ s then '"' else '\''

def quoted (q : Char) (s : List Char) : List Char := s.flatMap (escape printable q) ++ [q]

def text (s : List Char) : List Char := mark s :: quoted printable (mark s) s

end

/-- A byte string looks like the text of its bytes, of which none beyond ASCII is printed. -/
def bytes (bs : List UInt8) : List Char :=
  'b' :: text (fun _ => false) (bs.map fun b => Char.ofNat b.toNat)

def scanCode (w : ℕ) (s : List Char) : Option (Char × List Char) :=
  (scanHex w 0 s).map fun r => (Char.ofNat r.1, r.2)

/-- The first character of a text, and what follows it. -/
def unescape : List Char → Option (Char × List Char)
  | [] => none
  | [c] => if c = '\\' then none else some (c, [])
  | c :: e :: s =>
    if c ≠ '\\' then some (c, e :: s)
    else if e = 't' then some ('\t', s)
    else if e = 'n' then some ('\n', s)
    else if e = 'r' then some ('\r', s)
    else if e = 'x' then scanCode 2 s
    else if e = 'u' then scanCode 4 s
    else if e = 'U' then scanCode 8 s
    else some (e, s)

variable {printable : Char → Bool} {q c : Char}

lemma scanCode_hexDigits {w : ℕ} (h : c.toNat < 16 ^ w) (s : List Char) :
    scanCode w (hexDigits w c.toNat ++ s) = some (c, s) := by
  rw [scanCode, scanHex_hexDigits h]
  simp

lemma unescape_plain (hc : c ≠ '\\') (s : List Char) : unescape (c :: s) = some (c, s) := by
  cases s with
  | nil => simp [unescape, hc]
  | cons e s => simp [unescape, hc]

lemma unescape_escape (hq : q = '\'' ∨ q = '"') (s : List Char) :
    unescape (escape printable q c ++ s) = some (c, s) := by
  have hlt := toNat_lt c
  simp only [escape]
  split_ifs with hself htab hline hret hcontrol hplain hbyte hshort
  · obtain rfl | rfl := hself
    · obtain rfl | rfl := hq
      · simp [unescape]
      · simp [unescape]
    · simp [unescape]
  · simp [unescape, htab]
  · simp [unescape, hline]
  · simp [unescape, hret]
  · exact scanCode_hexDigits (by omega) s
  · exact unescape_plain (fun hc => hself (.inr hc)) s
  · exact scanCode_hexDigits (by omega) s
  · exact scanCode_hexDigits (by omega) s
  · exact scanCode_hexDigits (by omega) s

variable (printable c) in
/-- No escaped character starts with the quotation mark. -/
lemma escape_head (hq : q = '\'' ∨ q = '"') : ∃ x t, escape printable q c = x :: t ∧ x ≠ q := by
  have hslash : '\\' ≠ q := by
    obtain rfl | rfl := hq
    · decide
    · decide
  simp only [escape]
  split_ifs with hself htab hline hret hcontrol hplain hbyte hshort
  · exact ⟨_, _, rfl, hslash⟩
  · exact ⟨_, _, rfl, hslash⟩
  · exact ⟨_, _, rfl, hslash⟩
  · exact ⟨_, _, rfl, hslash⟩
  · exact ⟨_, _, rfl, hslash⟩
  · exact ⟨_, _, rfl, fun hc => hself (.inl hc)⟩
  · exact ⟨_, _, rfl, hslash⟩
  · exact ⟨_, _, rfl, hslash⟩
  · exact ⟨_, _, rfl, hslash⟩

lemma quoted_cons (s : List Char) :
    quoted printable q (c :: s) = escape printable q c ++ quoted printable q s := by
  simp [quoted]

lemma quoted_injective (hq : q = '\'' ∨ q = '"') {s t r r' : List Char}
    (h : quoted printable q s ++ r = quoted printable q t ++ r') : s = t ∧ r = r' := by
  induction s generalizing t with
  | nil =>
    cases t with
    | nil => exact ⟨rfl, by simpa [quoted] using h⟩
    | cons d t =>
      obtain ⟨x, u, hx, hne⟩ := escape_head printable d hq
      rw [quoted_cons, hx] at h
      exact (hne (List.cons.inj h).1.symm).elim
  | cons c s ih =>
    cases t with
    | nil =>
      obtain ⟨x, u, hx, hne⟩ := escape_head printable c hq
      rw [quoted_cons, hx] at h
      exact (hne (List.cons.inj h).1).elim
    | cons d t =>
      rw [quoted_cons, quoted_cons, List.append_assoc, List.append_assoc] at h
      have hread := congrArg unescape h
      rw [unescape_escape hq, unescape_escape hq] at hread
      obtain ⟨rfl, hrest⟩ := Prod.mk.inj (Option.some.inj hread)
      obtain ⟨rfl, hr⟩ := ih hrest
      exact ⟨rfl, hr⟩

lemma mark_cases (s : List Char) : mark s = '\'' ∨ mark s = '"' := by
  simp only [mark]
  split_ifs
  · exact .inr rfl
  · exact .inl rfl

lemma text_injective {s t r r' : List Char} (h : text printable s ++ r = text printable t ++ r') :
    s = t ∧ r = r' := by
  obtain ⟨hm, h⟩ := List.cons.inj h
  rw [← hm] at h
  exact quoted_injective (mark_cases s) h

lemma toNat_ofNat_byte : ∀ n < 256, (Char.ofNat n).toNat = n := by decide +kernel

lemma bytes_injective {bs cs : List UInt8} {r r' : List Char} (h : bytes bs ++ r = bytes cs ++ r') :
    bs = cs ∧ r = r' := by
  obtain ⟨hmap, hr⟩ := text_injective (List.cons.inj h).2
  refine ⟨List.map_injective_iff.mpr (fun b c hbc => ?_) hmap, hr⟩
  have hnat := congrArg Char.toNat hbc
  rw [toNat_ofNat_byte _ b.toNat_lt, toNat_ofNat_byte _ c.toNat_lt] at hnat
  exact UInt8.toNat_inj.mp hnat

end DistributedStorage.Library.Repr

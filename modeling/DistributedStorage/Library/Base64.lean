import Mathlib

/-! Base64 with padding. Decoding skips the characters outside the alphabet and stops at a complete
padding, as decoders that do not validate do. -/

namespace DistributedStorage.Library.Base64

def alphabet : List Char :=
  "ABCDEFGHIJKLMNOPQRSTUVWXYZabcdefghijklmnopqrstuvwxyz0123456789+/".toList

def symbol (n : ℕ) : Char := alphabet.getD n '='

def index (c : Char) : Option ℕ := alphabet.idxOf? c

def encode : List UInt8 → List Char
  | [] => []
  | [a] => [symbol (a.toNat / 4), symbol (a.toNat % 4 * 16), '=', '=']
  | [a, b] => [symbol (a.toNat / 4), symbol (a.toNat % 4 * 16 + b.toNat / 16),
      symbol (b.toNat % 16 * 4), '=']
  | a :: b :: c :: rest => symbol (a.toNat / 4) :: symbol (a.toNat % 4 * 16 + b.toNat / 16) ::
      symbol (b.toNat % 16 * 4 + c.toNat / 64) :: symbol (c.toNat % 64) :: encode rest

/-- `quad` characters of a group of four are read, `left` holds their bits that are not in a byte yet,
and `pads` counts the padding since the last of them. -/
def decodeFrom (quad left pads : ℕ) : List Char → Option (List UInt8)
  | [] => if quad = 0 then some [] else none
  | c :: s =>
    if c = '=' then
      if 2 ≤ quad then
        if 4 ≤ quad + (pads + 1) then some [] else decodeFrom quad left (pads + 1) s
      else decodeFrom quad left pads s
    else
      match index c with
      | none => decodeFrom quad left pads s
      | some n =>
        match quad with
        | 0 => decodeFrom 1 n 0 s
        | 1 => (decodeFrom 2 (n % 16) 0 s).map (UInt8.ofNat (left * 4 + n / 16) :: ·)
        | 2 => (decodeFrom 3 (n % 4) 0 s).map (UInt8.ofNat (left * 16 + n / 4) :: ·)
        | _ => (decodeFrom 0 0 0 s).map (UInt8.ofNat (left * 64 + n) :: ·)

/-- A text that is not ASCII is refused. -/
def decode (s : List Char) : Option (List UInt8) :=
  if ∀ c ∈ s, c.toNat < 128 then decodeFrom 0 0 0 s else none

lemma symbol_spec : ∀ n < 64,
    index (symbol n) = some n ∧ symbol n ≠ '=' ∧ (symbol n).toNat < 128 := by decide +kernel

lemma index_symbol {n : ℕ} (h : n < 64) : index (symbol n) = some n := (symbol_spec n h).1

lemma symbol_ne {n : ℕ} (h : n < 64) : symbol n ≠ '=' := (symbol_spec n h).2.1

lemma symbol_ascii {n : ℕ} (h : n < 64) : (symbol n).toNat < 128 := (symbol_spec n h).2.2

variable {n : ℕ} {left pads : ℕ} {s : List Char}

lemma decodeFrom_zero (h : n < 64) :
    decodeFrom 0 left pads (symbol n :: s) = decodeFrom 1 n 0 s := by
  simp only [decodeFrom, index_symbol h, symbol_ne h, if_false]

lemma decodeFrom_one (h : n < 64) : decodeFrom 1 left pads (symbol n :: s) =
    (decodeFrom 2 (n % 16) 0 s).map (UInt8.ofNat (left * 4 + n / 16) :: ·) := by
  simp only [decodeFrom, index_symbol h, symbol_ne h, if_false]

lemma decodeFrom_two (h : n < 64) : decodeFrom 2 left pads (symbol n :: s) =
    (decodeFrom 3 (n % 4) 0 s).map (UInt8.ofNat (left * 16 + n / 4) :: ·) := by
  simp only [decodeFrom, index_symbol h, symbol_ne h, if_false]

lemma decodeFrom_three (h : n < 64) : decodeFrom 3 left pads (symbol n :: s) =
    (decodeFrom 0 0 0 s).map (UInt8.ofNat (left * 64 + n) :: ·) := by
  simp only [decodeFrom, index_symbol h, symbol_ne h, if_false]

/-- A byte put together from its halves. -/
lemma ofNat_of_eq {a : UInt8} {k : ℕ} (h : k = a.toNat) : UInt8.ofNat k = a := by
  rw [h, UInt8.ofNat_toNat]

lemma encode_ascii (bs : List UInt8) : ∀ c ∈ encode bs, c.toNat < 128 := by
  induction bs using encode.induct with
  | case1 => simp [encode]
  | case2 a =>
    have ha := a.toNat_lt
    simp only [encode, List.forall_mem_cons]
    exact ⟨symbol_ascii (by omega), symbol_ascii (by omega), by decide, by decide, by simp⟩
  | case3 a b =>
    have ha := a.toNat_lt
    have hb := b.toNat_lt
    simp only [encode, List.forall_mem_cons]
    exact ⟨symbol_ascii (by omega), symbol_ascii (by omega), symbol_ascii (by omega), by decide,
      by simp⟩
  | case4 a b c rest ih =>
    have ha := a.toNat_lt
    have hb := b.toNat_lt
    have hc := c.toNat_lt
    simp only [encode, List.forall_mem_cons]
    exact ⟨symbol_ascii (by omega), symbol_ascii (by omega), symbol_ascii (by omega),
      symbol_ascii (by omega), ih⟩

lemma decodeFrom_encode (bs : List UInt8) : decodeFrom 0 0 0 (encode bs) = some bs := by
  induction bs using encode.induct with
  | case1 => rfl
  | case2 a =>
    have ha := a.toNat_lt
    rw [encode, decodeFrom_zero (by omega), decodeFrom_one (by omega),
      ofNat_of_eq (a := a) (by omega)]
    rfl
  | case3 a b =>
    have ha := a.toNat_lt
    have hb := b.toNat_lt
    rw [encode, decodeFrom_zero (by omega), decodeFrom_one (by omega), decodeFrom_two (by omega),
      ofNat_of_eq (a := a) (by omega), ofNat_of_eq (a := b) (by omega)]
    rfl
  | case4 a b c rest ih =>
    have ha := a.toNat_lt
    have hb := b.toNat_lt
    have hc := c.toNat_lt
    rw [encode, decodeFrom_zero (by omega), decodeFrom_one (by omega), decodeFrom_two (by omega),
      decodeFrom_three (by omega), ih, ofNat_of_eq (a := a) (by omega),
      ofNat_of_eq (a := b) (by omega), ofNat_of_eq (a := c) (by omega)]
    rfl

lemma decode_encode (bs : List UInt8) : decode (encode bs) = some bs := by
  rw [decode, if_pos (encode_ascii bs), decodeFrom_encode]

end DistributedStorage.Library.Base64

import DistributedStorage.Library.JsonText

/-! Hexadecimal text of byte strings, two digits a byte. -/

namespace DistributedStorage.Library.Hex

open Json

def encode : List UInt8 → List Char
  | [] => []
  | b :: bs => (b.toNat / 16).digitChar :: (b.toNat % 16).digitChar :: encode bs

def isSpace (c : Char) : Bool :=
  c = ' ' ∨ c = '\t' ∨ c = '\n' ∨ c = '\r' ∨ c = '\x0b' ∨ c = '\x0c'

/-- Blanks may stand between bytes, not inside one. -/
def decode : List Char → Option (List UInt8)
  | [] => some []
  | [c] => if isSpace c then some [] else none
  | c :: d :: s =>
    if isSpace c then decode (d :: s)
    else
      match hexValue c, hexValue d with
      | some hi, some lo => (decode s).map (UInt8.ofNat (16 * hi + lo) :: ·)
      | _, _ => none

lemma isSpace_digitChar : ∀ n < 16, isSpace n.digitChar = false := by decide

lemma decode_encode (bs : List UInt8) : decode (encode bs) = some bs := by
  induction bs with
  | nil => rfl
  | cons b bs ih =>
    have hlt : b.toNat < 256 := b.toNat_lt
    have hhi : b.toNat / 16 < 16 := by omega
    have hlo : b.toNat % 16 < 16 := by omega
    have hb : 16 * (b.toNat / 16) + b.toNat % 16 = b.toNat := by omega
    simp only [encode, decode, isSpace_digitChar _ hhi, hexValue_digitChar _ hhi,
      hexValue_digitChar _ hlo, hb, ih, Option.map_some, UInt8.ofNat_toNat, Bool.false_eq_true,
      if_false]

@[simp] lemma encode_eq_nil {bs : List UInt8} : encode bs = [] ↔ bs = [] := by
  cases bs with
  | nil => simp [encode]
  | cons b bs => simp [encode]

end DistributedStorage.Library.Hex

/-
Byte lists as lower-case hexadecimal text, and the value of such a text. The text determines the bytes, and
the text of the reversed bytes has their little-endian value.
-/
import BuildEngine.Base.Bytes

namespace Base

def hexDigits : List Char := "0123456789abcdef".toList

/-- The digit of a number below 16. -/
def hexDigit (n : Nat) : Char := hexDigits.getD n '0'

def hexByte (b : UInt8) : List Char := [hexDigit (b.toNat / 16), hexDigit (b.toNat % 16)]

def toHex (bs : List UInt8) : List Char := bs.flatMap hexByte

/-- The value of a digit; characters that are no digit count as 16. -/
def digitValue (c : Char) : Nat := hexDigits.idxOf c

/-- The value of a hexadecimal text, most significant digit first. -/
def hexValue (cs : List Char) : Nat := cs.foldl (fun acc c => 16 * acc + digitValue c) 0

theorem digitValue_hexDigit : ∀ n < 16, digitValue (hexDigit n) = n := by decide

theorem hexDigit_mem : ∀ n < 16, hexDigit n ∈ hexDigits := by decide

theorem hexByte_inj {a b : UInt8} (h : hexByte a = hexByte b) : a = b := by
  have ha := a.toNat_lt
  have hb := b.toNat_lt
  simp only [hexByte, List.cons.injEq, and_true] at h
  have hhi := congrArg digitValue h.1
  have hlo := congrArg digitValue h.2
  rw [digitValue_hexDigit _ (by omega), digitValue_hexDigit _ (by omega)] at hhi hlo
  exact UInt8.toNat_inj.1 (by omega)

@[simp] theorem toHex_nil : toHex [] = [] := rfl

@[simp] theorem toHex_cons (b : UInt8) (bs : List UInt8) : toHex (b :: bs) = hexByte b ++ toHex bs := rfl

@[simp] theorem length_toHex (bs : List UInt8) : (toHex bs).length = 2 * bs.length := by
  induction bs with
  | nil => rfl
  | cons b bs ih =>
    rw [toHex_cons, List.length_append, ih, List.length_cons]
    simp only [hexByte, List.length_cons, List.length_nil]
    omega

theorem toHex_inj : ∀ {as bs : List UInt8}, toHex as = toHex bs → as = bs
  | [], [], _ => rfl
  | [], b :: bs, h => by cases h
  | a :: as, [], h => by cases h
  | a :: as, b :: bs, h => by
    rw [toHex_cons, toHex_cons] at h
    obtain ⟨hb, hbs⟩ := List.append_inj h rfl
    rw [hexByte_inj hb, toHex_inj hbs]

theorem toHex_digits {bs : List UInt8} {c : Char} (hc : c ∈ toHex bs) : c ∈ hexDigits := by
  obtain ⟨b, -, hb⟩ := List.mem_flatMap.1 hc
  have hlt := b.toNat_lt
  simp only [hexByte, List.mem_cons, List.not_mem_nil, or_false] at hb
  rcases hb with rfl | rfl
  · exact hexDigit_mem _ (by omega)
  · exact hexDigit_mem _ (by omega)

/-- The value of a text built up byte by byte. -/
theorem hexValue_append_hexByte (cs : List Char) (b : UInt8) :
    hexValue (cs ++ hexByte b) = 256 * hexValue cs + b.toNat := by
  have hlt := b.toNat_lt
  unfold hexValue hexByte
  rw [List.foldl_append]
  simp only [List.foldl_cons, List.foldl_nil]
  rw [digitValue_hexDigit _ (by omega), digitValue_hexDigit _ (by omega)]
  omega

theorem hexValue_toHex_reverse (bs : List UInt8) : hexValue (toHex bs.reverse) = leValue bs := by
  induction bs with
  | nil => rfl
  | cons b bs ih =>
    have happ : toHex (bs.reverse ++ [b]) = toHex bs.reverse ++ hexByte b := by
      unfold toHex
      rw [List.flatMap_append, List.flatMap_singleton]
    rw [List.reverse_cons, happ, hexValue_append_hexByte, ih, leValue]
    omega

end Base

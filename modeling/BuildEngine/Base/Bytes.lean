/-
Little-endian numbers in byte lists.
-/
import Mathlib.Tactic

namespace Base

/-- The little-endian value of a byte list. -/
def leValue : List UInt8 → Nat
  | [] => 0
  | b :: bs => b.toNat + 256 * leValue bs

/-- The little-endian number of `width` bytes at offset `off`. -/
def le (bs : List UInt8) (off width : Nat) : Nat := leValue ((bs.drop off).take width)

/-- The `width` little-endian bytes of a number. -/
def leBytes : Nat → Nat → List UInt8
  | 0, _ => []
  | width + 1, n => UInt8.ofNat n :: leBytes width (n / 256)

theorem leValue_lt : ∀ bs : List UInt8, leValue bs < 256 ^ bs.length
  | [] => by simp [leValue]
  | b :: bs => by
    have ih := leValue_lt bs
    have hb := b.toNat_lt
    have : 256 * (leValue bs + 1) ≤ 256 * 256 ^ bs.length := Nat.mul_le_mul_left _ ih
    simp only [leValue, List.length_cons, Nat.pow_succ]
    omega

theorem le_lt (bs : List UInt8) (off width : Nat) : le bs off width < 256 ^ width := by
  refine lt_of_lt_of_le (leValue_lt _) (Nat.pow_le_pow_right (by decide) ?_)
  simp

/-- Byte lists of one length are determined by their little-endian value. -/
theorem leValue_inj : ∀ {as bs : List UInt8}, as.length = bs.length → leValue as = leValue bs → as = bs
  | [], [], _, _ => rfl
  | a :: as, b :: bs, hl, h => by
    have ha := a.toNat_lt
    have hb := b.toNat_lt
    simp only [leValue] at h
    have h1 : a = b := UInt8.toNat_inj.1 (by omega)
    have h2 : leValue as = leValue bs := by omega
    rw [h1, leValue_inj (by simpa using hl) h2]

/-- A number read from a range of the bytes is read from the bytes. -/
theorem le_slice (bs : List UInt8) {pos size off width : Nat} (h : off + width ≤ size) :
    le ((bs.drop pos).take size) off width = le bs (pos + off) width := by
  unfold le
  rw [List.drop_take, List.drop_drop, List.take_take, min_eq_left (by omega)]

/-- The bytes of a range are determined by the number they form. -/
theorem take_drop_eq_iff (bs : List UInt8) (off : Nat) (known : List UInt8) (h : off + known.length ≤ bs.length) :
    (bs.drop off).take known.length = known ↔ le bs off known.length = leValue known := by
  constructor
  · intro heq
    rw [le, heq]
  · intro heq
    refine leValue_inj ?_ heq
    rw [List.length_take, List.length_drop]
    omega

end Base

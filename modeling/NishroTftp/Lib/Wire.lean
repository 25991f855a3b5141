import Mathlib.Algebra.Order.Ring.Int
/-
  Numbers on the wire: 16-bit fields in network order, and 16-bit counters that stand for the low
  half of a 32-bit one.

  `be16` and `rd16` write and read such a field, with the round trip and the reading in `Nat` that
  protocol arguments use; `withLow` puts a 16-bit number into the 64 Ki block of a 32-bit anchor.
-/
namespace Nishro

/-- A byte string. -/
abbrev Bytes := List UInt8

/-- A hardware address. -/
abbrev Mac := Vector UInt8 6

namespace Wire

/-- `n` in network order. -/
def be16 (n : UInt16) : Bytes := [(n >>> 8).toUInt8, n.toUInt8]

/-- The number two bytes in network order stand for. -/
def rd16 (hi lo : UInt8) : UInt16 := (hi.toUInt16 <<< 8) ||| lo.toUInt16

@[simp] theorem length_be16 (n : UInt16) : (be16 n).length = 2 := rfl

theorem toNat_rd16 (hi lo : UInt8) : (rd16 hi lo).toNat = hi.toNat * 256 + lo.toNat := by
  have hhi : hi.toNat < 256 := hi.toNat_lt
  have hlo : lo.toNat < 2 ^ 8 := lo.toNat_lt
  have hshift : hi.toNat <<< 8 % 65536 = 2 ^ 8 * hi.toNat := by
    rw [Nat.shiftLeft_eq, Nat.mod_eq_of_lt (by omega), Nat.mul_comm]
  have hor : (rd16 hi lo).toNat = hi.toNat <<< 8 % 65536 ||| lo.toNat := by simp [rd16]
  rw [hor, hshift, ← Nat.two_pow_add_eq_or_of_lt hlo]
  omega

/-- Reading back what was written. -/
@[simp] theorem rd16_be16 (n : UInt16) : rd16 (n >>> 8).toUInt8 n.toUInt8 = n := by
  apply UInt16.toNat_inj.mp
  have hn : n.toNat < 65536 := n.toNat_lt
  have h1 : (n >>> 8).toUInt8.toNat = n.toNat / 256 := by
    simp [Nat.shiftRight_eq_div_pow]
    omega
  have h2 : n.toUInt8.toNat = n.toNat % 256 := by simp
  rw [toNat_rd16, h1, h2]
  omega

/-! ## A 16-bit number read in the 64 Ki block of a 32-bit one -/

/-- The upper half of `x` with `lo` as the lower half. -/
def withLow (x : UInt32) (lo : UInt16) : UInt32 := (x &&& 0xFFFF0000) ||| lo.toUInt32

theorem and_high_half {x : Nat} (hx : x < 2 ^ 32) : x &&& 0xFFFF0000 = 2 ^ 16 * (x / 2 ^ 16) := by
  have hmask : ∀ i < 32, Nat.testBit 0xFFFF0000 i = decide (16 ≤ i) := by decide
  refine Nat.eq_of_testBit_eq fun i => ?_
  rw [Nat.testBit_and, Nat.testBit_two_pow_mul, Nat.testBit_div_two_pow]
  by_cases hi : i < 32
  · rw [hmask i hi]
    by_cases h16 : 16 ≤ i
    · simp [h16]
    · simp [h16]
  · have hbig : x < 2 ^ i := Nat.lt_of_lt_of_le hx (Nat.pow_le_pow_right (by omega) (by omega))
    rw [Nat.testBit_lt_two_pow hbig, show i - 16 + 16 = i by omega, Nat.testBit_lt_two_pow hbig]
    simp

theorem toNat_withLow (x : UInt32) (lo : UInt16) :
    (withLow x lo).toNat = x.toNat / 65536 * 65536 + lo.toNat := by
  have hx : x.toNat < 2 ^ 32 := x.toNat_lt
  have hlo : lo.toNat < 2 ^ 16 := lo.toNat_lt
  have h : (withLow x lo).toNat = (x.toNat &&& 0xFFFF0000) ||| lo.toNat := by simp [withLow]
  rw [h, and_high_half hx, ← Nat.two_pow_add_eq_or_of_lt hlo]
  omega

end Wire

end Nishro

import Mathlib.Algebra.Order.Ring.Int
/-
  Decimal numerals as double-precision numbers.

  A finite magnitude is `m * 2 ^ e` with `m` below `2 ^ 53` and `e` at least `-1074`; `ofDecimal`
  rounds a numeral to the nearest one, ties to even, and gives `none` where it overflows to
  infinity.  `truncate` is the conversion to an integer, towards zero.
-/
namespace Nishro.Binary64

/-- A finite magnitude. -/
structure Magnitude where
  m : Nat
  e : Int
deriving DecidableEq, Repr

/-- `n / d` to the nearest integer, ties to even. -/
def roundDiv (n d : Nat) : Nat :=
  if 2 * (n % d) < d ∨ (2 * (n % d) = d ∧ n / d % 2 = 0) then n / d else n / d + 1

/-- The exponent of the power of two at or below `n / d`. -/
def floorLog2 (n d : Nat) : Int :=
  let l := (n.log2 : Int) - d.log2
  if d * 2 ^ l.toNat ≤ n * 2 ^ (-l).toNat then l else l - 1

/-- The magnitude nearest to `n / d`. -/
def ofRatio (n d : Nat) : Option Magnitude :=
  if n = 0 then some ⟨0, 0⟩
  else
    let e := max (-1074) (floorLog2 n d - 52)
    let m := roundDiv (n * 2 ^ (-e).toNat) (d * 2 ^ e.toNat)
    if 2 ^ 1024 ≤ m * 2 ^ e.toNat then none else some ⟨m, e⟩

/-- The magnitude nearest to `digits * 10 ^ exp`. -/
def ofDecimal (digits : Nat) (exp : Int) : Option Magnitude :=
  ofRatio (digits * 10 ^ exp.toNat) (10 ^ (-exp).toNat)

/-- The integer part. -/
def Magnitude.truncate (x : Magnitude) : Nat := x.m * 2 ^ x.e.toNat / 2 ^ (-x.e).toNat

theorem roundDiv_one (n : Nat) : roundDiv n 1 = n := by
  simp [roundDiv, Nat.mod_one]

theorem floorLog2_one {n : Nat} (hn : n ≠ 0) : floorLog2 n 1 = n.log2 := by
  have hlog : Nat.log2 1 = 0 := by decide
  have hle : 2 ^ n.log2 ≤ n := Nat.log2_self_le hn
  simp [floorLog2, hlog, hle]

/-- The magnitude is the integer `n`. -/
def Magnitude.IsNat (x : Magnitude) (n : Nat) : Prop :=
  x.m * 2 ^ x.e.toNat = n * 2 ^ (-x.e).toNat

/-- Integers below 2 ^ 53 are their own nearest magnitude. -/
theorem ofDecimal_isNat {n : Nat} (h : n < 2 ^ 53) : ∃ x, ofDecimal n 0 = some x ∧ x.IsNat n := by
  by_cases hn : n = 0
  · subst hn
    exact ⟨⟨0, 0⟩, rfl, rfl⟩
  have hlog : n.log2 ≤ 52 := by
    have := (Nat.log2_lt hn).2 h
    omega
  have hle : n * 2 ^ (52 - n.log2) ≤ 2 ^ 53 * 2 ^ 52 :=
    Nat.mul_le_mul (by omega) (Nat.pow_le_pow_right (by decide) (by omega))
  have he : max (-1074) ((n.log2 : Int) - 52) = n.log2 - 52 := by omega
  have hneg : (-((n.log2 : Int) - 52)).toNat = 52 - n.log2 := by omega
  have hpos : ((n.log2 : Int) - 52).toNat = 0 := by omega
  refine ⟨⟨n * 2 ^ (52 - n.log2), n.log2 - 52⟩, ?_, ?_⟩
  · rw [ofDecimal, ofRatio]
    simp only [Int.toNat_zero, Int.neg_zero, Nat.pow_zero, Nat.mul_one, hn, if_false,
      floorLog2_one hn, he, hneg, hpos, roundDiv_one]
    exact if_neg (by omega)
  · rw [Magnitude.IsNat, hneg, hpos, Nat.pow_zero, Nat.mul_one]

theorem truncate_ofDecimal {n : Nat} (h : n < 2 ^ 53) :
    (ofDecimal n 0).map (·.truncate) = some n := by
  obtain ⟨x, hx, hnat⟩ := ofDecimal_isNat h
  rw [hx, Option.map_some, Magnitude.truncate, hnat, Nat.mul_div_cancel _ (Nat.two_pow_pos _)]

/-! ## Integers with more than 53 bits -/

/-- The spacing of the magnitudes at an integer. -/
def ulp (n : Nat) : Nat := 2 ^ (n.log2 - 52)

/-- A magnitude is that integer. -/
def Holds (n : Nat) : Prop := ulp n ∣ n

instance (n : Nat) : Decidable (Holds n) := inferInstanceAs (Decidable (ulp n ∣ n))

/-- The integer that the nearest magnitude is. -/
def nearest (n : Nat) : Nat := roundDiv n (ulp n) * ulp n

theorem ulp_pos (n : Nat) : 0 < ulp n := Nat.two_pow_pos _

theorem ulp_eq_one {n : Nat} (h : n < 2 ^ 53) : ulp n = 1 := by
  have hlog : n.log2 ≤ 52 := by
    by_cases hn : n = 0
    · subst hn
      decide
    · have := (Nat.log2_lt hn).2 h
      omega
  rw [ulp, Nat.sub_eq_zero_of_le hlog, Nat.pow_zero]

theorem holds_of_lt {n : Nat} (h : n < 2 ^ 53) : Holds n := by
  rw [Holds, ulp_eq_one h]
  exact Nat.one_dvd n

theorem nearest_eq_iff {n : Nat} : nearest n = n ↔ Holds n := by
  constructor
  · intro h
    exact ⟨roundDiv n (ulp n), h.symm.trans (Nat.mul_comm ..)⟩
  intro h
  have hmod : n % ulp n = 0 := Nat.mod_eq_zero_of_dvd h
  have hround : roundDiv n (ulp n) = n / ulp n := by
    rw [roundDiv, hmod]
    exact if_pos (.inl (ulp_pos n))
  rw [nearest, hround, Nat.div_mul_cancel h]

theorem roundDiv_le (n d : Nat) : roundDiv n d ≤ n / d + 1 := by
  unfold roundDiv
  split <;> omega

/-- What is read from the numeral of a 64-bit integer. -/
theorem truncate_ofDecimal_nearest {n : Nat} (h : n < 2 ^ 64) :
    (ofDecimal n 0).map (·.truncate) = some (nearest n) := by
  by_cases hsmall : n < 2 ^ 53
  · rw [truncate_ofDecimal hsmall, nearest_eq_iff.2 (holds_of_lt hsmall)]
  have hn : n ≠ 0 := by omega
  have hlog : 52 < n.log2 := by
    have := (Nat.le_log2 hn).2 (Nat.le_of_not_lt hsmall)
    omega
  have he : max (-1074) ((n.log2 : Int) - 52) = ((n.log2 - 52 : Nat) : Int) := by omega
  have hneg : (-((n.log2 - 52 : Nat) : Int)).toNat = 0 := by omega
  have hbig : nearest n < 2 ^ 1024 := by
    have hone : nearest n ≤ n + ulp n := by
      have hmul := Nat.mul_le_mul_right (ulp n) (roundDiv_le n (ulp n))
      rw [Nat.add_mul, Nat.one_mul] at hmul
      exact Nat.le_trans hmul (Nat.add_le_add_right (Nat.div_mul_le_self ..) _)
    have hulp : ulp n ≤ n :=
      Nat.le_trans (Nat.pow_le_pow_right (by decide) (Nat.sub_le ..)) (Nat.log2_self_le hn)
    have hlt : nearest n < 2 ^ 65 := by omega
    have hpow : ∀ k, 65 < k → 2 ^ 65 < 2 ^ k := fun k hk => Nat.pow_lt_pow_right (by decide) hk
    exact Nat.lt_trans hlt (hpow 1024 (by decide))
  have hratio : ofDecimal n 0 = some ⟨roundDiv n (ulp n), (n.log2 - 52 : Nat)⟩ := by
    rw [ofDecimal, ofRatio]
    simp only [Int.toNat_zero, Int.neg_zero, Nat.pow_zero, Nat.mul_one, hn, if_false,
      floorLog2_one hn, he, hneg, Int.toNat_natCast, Nat.one_mul]
    exact if_neg (Nat.not_le_of_lt hbig)
  rw [hratio, Option.map_some, Magnitude.truncate]
  simp only [hneg, Int.toNat_natCast, Nat.pow_zero, Nat.div_one]
  rfl

-- 2 ^ 53 + 1 lies between two magnitudes; the even one is taken
example : (ofDecimal 9007199254740993 0).map (·.truncate) = some 9007199254740992 := by
  decide +kernel

end Nishro.Binary64

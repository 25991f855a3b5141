import Mathlib.Data.Nat.Digits.Defs
import Mathlib.Data.Nat.Digits.Lemmas
import NishroTftp.Lib.Wire
/-
  Decimal numerals in ASCII: what `%u`, `%llu` and `str(int)` write.

  `decimal n` is the numeral without leading zeros; `ofDecimal` reads digits back the way every
  scanner of the two engines does (`n * 10 + d`, left to right).
-/
namespace Nishro.Decimal

/-- ASCII `0`..`9`. -/
def isDigit (c : UInt8) : Bool := 48 ≤ c && c ≤ 57

/-- The numeral of `n` in base ten. -/
def decimal (n : Nat) : Bytes :=
  if n = 0 then [48] else (Nat.digits 10 n).reverse.map fun d => UInt8.ofNat (48 + d)

/-- The value of a string of digits, most significant first. -/
def ofDecimal (s : Bytes) : Nat := s.foldl (fun n c => n * 10 + (c.toNat - 48)) 0

theorem isDigit_iff (c : UInt8) : isDigit c = true ↔ 48 ≤ c.toNat ∧ c.toNat ≤ 57 := by
  simp [isDigit, UInt8.le_iff_toNat_le]

theorem isDigit_digit {d : Nat} (hd : d < 10) : isDigit (UInt8.ofNat (48 + d)) = true := by
  rw [isDigit_iff, UInt8.toNat_ofNat_of_lt' (by show 48 + d < 256; omega)]
  omega

theorem decimal_digits (n : Nat) : ∀ c ∈ decimal n, isDigit c = true := by
  intro c hc
  unfold decimal at hc
  split at hc
  · obtain rfl := List.mem_singleton.mp hc
    decide
  · obtain ⟨d, hd, rfl⟩ := List.mem_map.mp hc
    exact isDigit_digit (Nat.digits_lt_base (by decide) (List.mem_reverse.mp hd))

theorem decimal_ne_nil (n : Nat) : decimal n ≠ [] := by
  unfold decimal
  split
  · exact List.cons_ne_nil _ _
  · next h =>
    have hne : Nat.digits 10 n ≠ [] := Nat.digits_ne_nil_iff_ne_zero.mpr h
    simpa using hne

/-- A numeral of more than one digit does not start with `0`. -/
theorem decimal_head (n : Nat) (h : n ≠ 0) : (decimal n).head (decimal_ne_nil n) ≠ 48 := by
  have hne : Nat.digits 10 n ≠ [] := Nat.digits_ne_nil_iff_ne_zero.mpr h
  have hlast : (Nat.digits 10 n).getLast hne ≠ 0 := Nat.getLast_digit_ne_zero 10 h
  have hlt : (Nat.digits 10 n).getLast hne < 10 :=
    Nat.digits_lt_base (by decide) (List.getLast_mem hne)
  have hhead : (decimal n).head (decimal_ne_nil n)
      = UInt8.ofNat (48 + (Nat.digits 10 n).getLast hne) := by
    simp [decimal, if_neg h, List.head_reverse]
  rw [hhead]
  intro heq
  have := congrArg UInt8.toNat heq
  rw [UInt8.toNat_ofNat_of_lt' (by show 48 + _ < 256; omega)] at this
  have h48 : (48 : UInt8).toNat = 48 := rfl
  omega

/-- The value of digits `ds` (least significant first) written most significant first. -/
theorem ofDecimal_digits (ds : List Nat) (h : ∀ d ∈ ds, d < 10) :
    ofDecimal (ds.reverse.map fun d => UInt8.ofNat (48 + d)) = Nat.ofDigits 10 ds := by
  induction ds with
  | nil => rfl
  | cons d ds ih =>
    have hd : d < 10 := h d List.mem_cons_self
    have hval : (UInt8.ofNat (48 + d)).toNat - 48 = d := by
      rw [UInt8.toNat_ofNat_of_lt' (by show 48 + d < 256; omega)]
      omega
    rw [List.reverse_cons, List.map_append, ofDecimal, List.foldl_append]
    have ih' := ih fun x hx => h x (List.mem_cons_of_mem d hx)
    rw [ofDecimal] at ih'
    rw [ih', List.map_cons, List.map_nil, List.foldl_cons, List.foldl_nil, hval,
      Nat.ofDigits_cons]
    omega

/-- **Reading back a numeral.** -/
@[simp] theorem ofDecimal_decimal (n : Nat) : ofDecimal (decimal n) = n := by
  unfold decimal
  split
  · next h => subst h; rfl
  · rw [ofDecimal_digits _ fun d hd => Nat.digits_lt_base (by decide) hd]
    exact Nat.ofDigits_digits 10 n

/-- The numeral of a number below `10 ^ k` has at most `k` digits (one for `0`). -/
theorem length_decimal_le {n k : Nat} (hk : 0 < k) (h : n < 10 ^ k) : (decimal n).length ≤ k := by
  unfold decimal
  split
  · exact hk
  · rw [List.length_map, List.length_reverse]
    exact (Nat.digits_length_le_iff (by decide) n).mpr h

/-! ## Where a scan stops -/

section
variable {α : Type} {p : α → Bool} {ds rest : List α}

/-- What follows is not one of them. -/
def Stops (p : α → Bool) (rest : List α) : Prop := ∀ c t, rest = c :: t → p c = false

theorem stops_nil (p : α → Bool) : Stops p [] := fun _ _ h => nomatch h

theorem stops_cons {c : α} (h : p c = false) (t : List α) : Stops p (c :: t) := by
  rintro _ _ ⟨⟩
  exact h

/-- A scan takes what belongs to it and leaves the rest. -/
theorem span_stops (hds : ∀ c ∈ ds, p c = true) (hrest : Stops p rest) :
    (ds ++ rest).takeWhile p = ds ∧ (ds ++ rest).dropWhile p = rest := by
  rw [List.takeWhile_append_of_pos hds, List.dropWhile_append_of_pos hds]
  cases rest with
  | nil => simp
  | cons c t => simp [hrest c t rfl]

theorem span_all (hds : ∀ c ∈ ds, p c = true) : ds.takeWhile p = ds ∧ ds.dropWhile p = [] := by
  have h := span_stops hds (stops_nil p)
  rwa [List.append_nil] at h

end

end Nishro.Decimal

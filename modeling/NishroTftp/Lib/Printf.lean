import NishroTftp.Lib.Decimal
/-
  A format with one unsigned argument, as C's `printf` family reads it: text, `%%`, and `%u` with
  the flag `0` and a width.  `formatU` gives `none` where the format asks for anything else: another
  conversion has no argument of its type, and an unfinished one has no meaning.
-/
namespace Nishro.Printf

open Nishro.Decimal

/-- At least so many characters, filled up on the left. -/
def padLeft (fill : UInt8) (width : Nat) (s : Bytes) : Bytes :=
  List.replicate (width - s.length) fill ++ s

/-- Where in a format the reader is. -/
inductive Place where
  | text
  /-- behind `%`; has the flag `0` been seen? -/
  | flags (zero : Bool)
  /-- inside the digits of the width -/
  | width (zero : Bool) (w : Nat)
deriving DecidableEq, Repr

/-- The argument, converted. -/
def convert (n : Nat) (zero : Bool) (w : Nat) : Bytes :=
  padLeft (if zero then 48 else 32) w (decimal n)

/-- What the format makes of `n`, from this place on. -/
def formatFrom (n : Nat) : Place → Bytes → Option Bytes
  | .text, [] => some []
  | _, [] => none
  | .text, c :: s =>
    if c = 37 then formatFrom n (.flags false) s else (formatFrom n .text s).map (c :: ·)
  | .flags zero, c :: s =>
    if c = 37 ∧ zero = false then (formatFrom n .text s).map (c :: ·)
    else if c = 48 then formatFrom n (.flags true) s
    else if isDigit c then formatFrom n (.width zero (c.toNat - 48)) s
    else if c = 117 then (formatFrom n .text s).map (convert n zero 0 ++ ·)
    else none
  | .width zero w, c :: s =>
    if isDigit c then formatFrom n (.width zero (w * 10 + (c.toNat - 48))) s
    else if c = 117 then (formatFrom n .text s).map (convert n zero w ++ ·)
    else none

/-- `snprintf(…, fmt, n)`, before it is cut. -/
def formatU (fmt : Bytes) (n : Nat) : Option Bytes := formatFrom n .text fmt

/-- Text without a percent sign is copied. -/
theorem formatFrom_text (n : Nat) {lit : Bytes} (h : 37 ∉ lit) (s : Bytes) :
    formatFrom n .text (lit ++ s) = (formatFrom n .text s).map (lit ++ ·) := by
  induction lit with
  | nil => simp
  | cons c lit ih =>
    simp only [List.mem_cons, not_or] at h
    rw [List.cons_append, formatFrom, if_neg (Ne.symm h.1), ih h.2, Option.map_map]
    rfl

/-- The digits of a width are read as the number they spell. -/
theorem formatFrom_width (n : Nat) (zero : Bool) {ds : Bytes} (h : ∀ c ∈ ds, isDigit c = true)
    (w : Nat) (s : Bytes) : formatFrom n (.width zero w) (ds ++ 117 :: s) =
      (formatFrom n .text s).map
        (convert n zero (ds.foldl (fun n c => n * 10 + (c.toNat - 48)) w) ++ ·) := by
  induction ds generalizing w with
  | nil =>
    have hu : isDigit 117 = false := by decide
    simp [formatFrom, hu]
  | cons c ds ih =>
    have hc := h c (List.mem_cons_self ..)
    rw [List.cons_append, formatFrom, if_pos hc, ih fun d hd => h d (List.mem_cons_of_mem _ hd)]
    rfl

/-- **Text and a zero-padded number.** -/
theorem formatU_padded {lit : Bytes} (h : 37 ∉ lit) {w : Nat} (hw : 0 < w) (n : Nat) :
    formatU (lit ++ 37 :: 48 :: (decimal w ++ [117])) n =
      some (lit ++ padLeft 48 w (decimal n)) := by
  obtain ⟨d, ds, hds⟩ := List.exists_cons_of_ne_nil (decimal_ne_nil w)
  have hdigits := decimal_digits w
  have hhead : d ≠ 48 := by
    have := decimal_head w (by omega)
    simpa only [hds, List.head_cons] using this
  rw [hds] at hdigits
  have hd := hdigits d (List.mem_cons_self ..)
  have hpct : d ≠ 37 := by rintro rfl; exact absurd hd (by decide)
  have hvalue : ds.foldl (fun n c => n * 10 + (c.toNat - 48)) (d.toNat - 48) = w := by
    have := ofDecimal_decimal w
    simpa [hds, ofDecimal] using this
  -- `%`, `0` and the first digit of the width are read one by one
  have hconv : formatFrom n .text (37 :: 48 :: (decimal w ++ [117])) =
      formatFrom n (.width true (d.toNat - 48)) (ds ++ [117]) := by
    rw [hds, List.cons_append]
    simp [formatFrom, hhead, hpct, hd]
  rw [formatU, formatFrom_text n h, hconv,
    formatFrom_width n true (fun c hc => hdigits c (List.mem_cons_of_mem _ hc)), hvalue]
  simp [formatFrom, convert]

/-- A conversion without its `u` has no meaning. -/
theorem formatFrom_unfinished (n : Nat) {s : Bytes} (h : ∀ c ∈ s, isDigit c = true) {q : Place}
    (hq : q ≠ .text) : formatFrom n q s = none := by
  induction s generalizing q with
  | nil => cases q <;> first | rfl | exact absurd rfl hq
  | cons c s ih =>
    have hc := h c (List.mem_cons_self ..)
    have hrest : ∀ q, q ≠ .text → formatFrom n q s = none :=
      fun q hq => ih (fun d hd => h d (List.mem_cons_of_mem _ hd)) hq
    have hpct : c ≠ 37 := by rintro rfl; exact absurd hc (by decide)
    cases q with
    | text => exact absurd rfl hq
    | flags zero =>
      rw [formatFrom, if_neg (fun h => hpct h.1), if_pos hc]
      split
      · exact hrest _ (by simp)
      · exact hrest _ (by simp)
    | width zero w =>
      rw [formatFrom, if_pos hc]
      exact hrest _ (by simp)

/-! ## Padding with zeros -/

theorem length_padLeft (fill : UInt8) (w : Nat) (s : Bytes) :
    (padLeft fill w s).length = max w s.length := by
  simp only [padLeft, List.length_append, List.length_replicate]
  omega

/-- A string of digits, as digits. -/
theorem exists_digits {s : Bytes} (h : ∀ c ∈ s, isDigit c = true) :
    ∃ ds : List Nat, (∀ d ∈ ds, d < 10) ∧ ds.length = s.length ∧
      s = ds.reverse.map fun d => UInt8.ofNat (48 + d) := by
  refine ⟨s.reverse.map (·.toNat - 48), ?_, by simp, ?_⟩
  · intro d hd
    obtain ⟨c, hc, rfl⟩ := List.mem_map.1 hd
    have := (isDigit_iff c).1 (h c (List.mem_reverse.1 hc))
    omega
  · rw [← List.map_reverse, List.reverse_reverse, List.map_map]
    have hback : ∀ c ∈ s, ((fun d => UInt8.ofNat (48 + d)) ∘ fun c => c.toNat - 48) c = c := by
      intro c hc
      have hrange := (isDigit_iff c).1 (h c hc)
      show UInt8.ofNat (48 + (c.toNat - 48)) = c
      rw [Nat.add_sub_cancel' hrange.1, UInt8.ofNat_toNat]
    rw [List.map_congr_left hback]
    exact (List.map_id s).symm

theorem ofDecimal_lt {s : Bytes} (h : ∀ c ∈ s, isDigit c = true) : ofDecimal s < 10 ^ s.length := by
  obtain ⟨ds, hds, hlen, rfl⟩ := exists_digits h
  rw [ofDecimal_digits ds hds, ← hlen]
  exact Nat.ofDigits_lt_base_pow_length (by decide) hds

/-- Digits of one length are told apart by their value. -/
theorem eq_of_ofDecimal {s t : Bytes} (hs : ∀ c ∈ s, isDigit c = true)
    (ht : ∀ c ∈ t, isDigit c = true) (hlen : s.length = t.length)
    (hval : ofDecimal s = ofDecimal t) : s = t := by
  obtain ⟨ds, hds, hslen, rfl⟩ := exists_digits hs
  obtain ⟨es, hes, htlen, rfl⟩ := exists_digits ht
  rw [ofDecimal_digits ds hds, ofDecimal_digits es hes] at hval
  rw [Nat.ofDigits_inj_of_len_eq (by decide) (by omega) hds hes hval]

theorem ofDecimal_padLeft (w : Nat) (s : Bytes) : ofDecimal (padLeft 48 w s) = ofDecimal s := by
  rw [padLeft]
  induction w - s.length with
  | zero => simp
  | succ k ih =>
    exact ih

theorem padLeft_digits {w : Nat} {s : Bytes} (h : ∀ c ∈ s, isDigit c = true) :
    ∀ c ∈ padLeft 48 w s, isDigit c = true := by
  intro c hc
  rcases List.mem_append.1 hc with hc | hc
  · rw [List.eq_of_mem_replicate hc]
    decide
  · exact h c hc

theorem padLeft_of_le {fill : UInt8} {w : Nat} {s : Bytes} (h : w ≤ s.length) :
    padLeft fill w s = s := by
  rw [padLeft, Nat.sub_eq_zero_of_le h]
  rfl

section

variable {s : Bytes} (h : ∀ c ∈ s, isDigit c = true) (hne : s ≠ [])
include h hne

/-- The numeral of the value of digits is no longer than they are. -/
theorem length_decimal_ofDecimal :
    (decimal (ofDecimal s)).length ≤ s.length :=
  length_decimal_le (List.length_pos_iff.2 hne) (ofDecimal_lt h)

/-- Digits are the numeral of their value, but for the zeros in front. -/
theorem padLeft_decimal_ofDecimal :
    padLeft 48 s.length (decimal (ofDecimal s)) = s := by
  have hlen := length_decimal_ofDecimal h hne
  refine eq_of_ofDecimal (padLeft_digits (decimal_digits _)) h ?_ ?_
  · rw [length_padLeft]
    omega
  · rw [ofDecimal_padLeft, ofDecimal_decimal]

/-- **Formatting a number and padding its text** give the same, but for zeros that the text has
    beyond the width. -/
theorem padLeft_decimal_eq_iff {w : Nat}
    (hw : 0 < w) (n : Nat) :
    padLeft 48 w (decimal n) = padLeft 48 w s ↔
      n = ofDecimal s ∧ (s.length ≤ w ∨ s.head? ≠ some 48) := by
  constructor
  · intro heq
    have hval : n = ofDecimal s := by
      have := congrArg ofDecimal heq
      rwa [ofDecimal_padLeft, ofDecimal_padLeft, ofDecimal_decimal] at this
    refine ⟨hval, or_iff_not_imp_left.2 fun hlong => ?_⟩
    -- longer than the width, so nothing was padded and the digits are the numeral
    have hlen := congrArg List.length heq
    rw [length_padLeft, length_padLeft] at hlen
    rw [padLeft_of_le (by omega), padLeft_of_le (by omega)] at heq
    intro hhead
    have hzero : n = 0 := by
      by_contra hn
      refine decimal_head n hn ?_
      rw [← heq, List.head?_eq_some_head (decimal_ne_nil n)] at hhead
      exact Option.some.inj hhead
    rw [hzero] at hlen
    have : (decimal 0).length = 1 := rfl
    omega
  · rintro ⟨rfl, hshort | hhead⟩
    · refine eq_of_ofDecimal (padLeft_digits (decimal_digits _)) (padLeft_digits h) ?_ ?_
      · have := length_decimal_ofDecimal h hne
        rw [length_padLeft, length_padLeft]
        omega
      · rw [ofDecimal_padLeft, ofDecimal_padLeft, ofDecimal_decimal]
    · have hself := padLeft_decimal_ofDecimal h hne
      have hfull : s.length ≤ (decimal (ofDecimal s)).length := by
        by_contra hlt
        obtain ⟨k, hk⟩ : ∃ k, s.length - (decimal (ofDecimal s)).length = k + 1 :=
          ⟨_, (Nat.succ_pred (by omega)).symm⟩
        rw [padLeft, hk, List.replicate_succ, List.cons_append] at hself
        exact hhead (by rw [← hself]; rfl)
      rw [padLeft_of_le hfull] at hself
      rw [hself]

end

end Nishro.Printf

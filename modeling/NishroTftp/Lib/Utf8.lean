import NishroTftp.Lib.Wire
/-
  UTF-8, written and read.

  `encode` writes a text (a list of code points) and refuses surrogates.  `decode` reads bytes the
  way a decoder with REPLACEMENT does: it never fails, a maximal ill-formed piece becomes one
  U+FFFD and the byte that broke it off is read again as the start of a character.  It is a machine
  that takes one byte at a time, so a text can be read piece by piece (`run_append`), and three
  facts about it are all that is needed: encoded text is read back (`decode_encode`), reading on
  never gives less (`length_decode_append`), and an ASCII byte is always read as itself, also where
  it breaks off a character (`decode_snoc`).
-/
namespace Nishro.Utf8

/-- A text, as its code points. -/
abbrev Text := List Nat

instance : LawfulBEq Text := inferInstance

/-- The code points of a literal. -/
def text (s : String) : Text := s.toList.map Char.toNat

/-- A code point that is not a surrogate. -/
def isScalar (c : Nat) : Bool := decide (c < 0xD800) || (decide (0xE000 ≤ c) && decide (c < 0x110000))

/-! ## Writing -/

/-- The bytes of one code point. -/
def encodeChar (c : Nat) : Bytes :=
  if c < 0x80 then [UInt8.ofNat c]
  else if c < 0x800 then [UInt8.ofNat (0xC0 + c / 64), UInt8.ofNat (0x80 + c % 64)]
  else if c < 0x10000 then
    [UInt8.ofNat (0xE0 + c / 4096), UInt8.ofNat (0x80 + c / 64 % 64), UInt8.ofNat (0x80 + c % 64)]
  else
    [UInt8.ofNat (0xF0 + c / 262144), UInt8.ofNat (0x80 + c / 4096 % 64),
      UInt8.ofNat (0x80 + c / 64 % 64), UInt8.ofNat (0x80 + c % 64)]

/-- The bytes of a text without surrogates. -/
def encode (s : Text) : Option Bytes := if s.all isScalar then some (s.flatMap encodeChar) else none

/-! ## Reading -/

/-- Inside a character: the bits so far, how many bytes are due after the next one, and the range
    the next one must lie in. -/
structure Partial where
  acc : Nat
  more : Nat
  lo : Nat
  hi : Nat
deriving DecidableEq, Repr

/-- What replaces an ill-formed piece. -/
def replacement : Nat := 0xFFFD

/-- A byte between characters. -/
def start (b : UInt8) : Text × Option Partial :=
  let n := b.toNat
  if n < 0x80 then ([n], none)
  else if 0xC2 ≤ n ∧ n ≤ 0xDF then ([], some ⟨n - 0xC0, 0, 0x80, 0xBF⟩)
  else if 0xE0 ≤ n ∧ n ≤ 0xEF then
    ([], some ⟨n - 0xE0, 1, if n = 0xE0 then 0xA0 else 0x80, if n = 0xED then 0x9F else 0xBF⟩)
  else if 0xF0 ≤ n ∧ n ≤ 0xF4 then
    ([], some ⟨n - 0xF0, 2, if n = 0xF0 then 0x90 else 0x80, if n = 0xF4 then 0x8F else 0xBF⟩)
  else ([replacement], none)

/-- The next byte of a character, which is in its range. -/
def Partial.take (p : Partial) (b : UInt8) : Text × Option Partial :=
  let acc := p.acc * 64 + (b.toNat - 0x80)
  match p.more with
  | 0 => ([acc], none)
  | k + 1 => ([], some ⟨acc, k, 0x80, 0xBF⟩)

/-- One byte. -/
def step : Option Partial → UInt8 → Text × Option Partial
  | none, b => start b
  | some p, b =>
    if p.lo ≤ b.toNat ∧ b.toNat ≤ p.hi then p.take b
    else (replacement :: (start b).1, (start b).2)

/-- Any number of bytes. -/
def run : Option Partial → Bytes → Text × Option Partial
  | q, [] => ([], q)
  | q, b :: bs => ((step q b).1 ++ (run (step q b).2 bs).1, (run (step q b).2 bs).2)

/-- A character broken off by the end of the input. -/
def flush : Option Partial → Text
  | none => []
  | some _ => [replacement]

/-- `bytes.decode("utf-8", errors="replace")`. -/
def decode (bs : Bytes) : Text := (run none bs).1 ++ flush (run none bs).2

theorem run_append (q : Option Partial) (xs ys : Bytes) :
    run q (xs ++ ys) =
      ((run q xs).1 ++ (run (run q xs).2 ys).1, (run (run q xs).2 ys).2) := by
  induction xs generalizing q with
  | nil => rfl
  | cons b xs ih => simp [run, ih]

/-! ## Reading back what was written -/

theorem toNat_ofNat {n : Nat} (h : n < 256) : (UInt8.ofNat n).toNat = n :=
  UInt8.toNat_ofNat_of_lt' h

/-- A lead byte. -/
theorem run_lead {b : UInt8} {p : Partial} (h : start b = ([], some p)) (bs : Bytes) :
    run none (b :: bs) = run (some p) bs := by
  rw [run, show step none b = ([], some p) from h]
  rfl

/-- A continuation byte in its range, with more to come. -/
theorem run_cont {acc k lo hi n : Nat} (hn : n < 64) (hlo : lo ≤ 0x80 + n) (hhi : 0x80 + n ≤ hi)
    (bs : Bytes) :
    run (some ⟨acc, k + 1, lo, hi⟩) (UInt8.ofNat (0x80 + n) :: bs) =
      run (some ⟨acc * 64 + n, k, 0x80, 0xBF⟩) bs := by
  have hb : (UInt8.ofNat (0x80 + n)).toNat = 0x80 + n := toNat_ofNat (by omega)
  have hacc : acc * 64 + (0x80 + n - 0x80) = acc * 64 + n := by omega
  simp only [run, step, hb, hlo, hhi, and_self, if_true, Partial.take, hacc, List.nil_append]

/-- The last continuation byte. -/
theorem run_cont_last {acc lo hi n : Nat} (hn : n < 64) (hlo : lo ≤ 0x80 + n)
    (hhi : 0x80 + n ≤ hi) :
    run (some ⟨acc, 0, lo, hi⟩) [UInt8.ofNat (0x80 + n)] = ([acc * 64 + n], none) := by
  have hb : (UInt8.ofNat (0x80 + n)).toNat = 0x80 + n := toNat_ofNat (by omega)
  have hacc : acc * 64 + (0x80 + n - 0x80) = acc * 64 + n := by omega
  simp only [run, step, hb, hlo, hhi, and_self, if_true, Partial.take, hacc, List.append_nil]

theorem start_two {n : Nat} (h1 : 2 ≤ n) (h2 : n < 32) :
    start (UInt8.ofNat (0xC0 + n)) = ([], some ⟨n, 0, 0x80, 0xBF⟩) := by
  simp only [start, toNat_ofNat (show 0xC0 + n < 256 by omega)]
  rw [if_neg (by omega), if_pos (by omega), Nat.add_sub_cancel_left]

theorem start_three {n : Nat} (h : n < 16) :
    start (UInt8.ofNat (0xE0 + n)) =
      ([], some ⟨n, 1, if n = 0 then 0xA0 else 0x80, if n = 13 then 0x9F else 0xBF⟩) := by
  simp only [start, toNat_ofNat (show 0xE0 + n < 256 by omega)]
  have h13 : 0xE0 + n = 0xED ↔ n = 13 := by omega
  rw [if_neg (by omega), if_neg (by omega), if_pos (by omega), Nat.add_sub_cancel_left]
  simp [h13]

theorem start_four {n : Nat} (h : n < 5) :
    start (UInt8.ofNat (0xF0 + n)) =
      ([], some ⟨n, 2, if n = 0 then 0x90 else 0x80, if n = 4 then 0x8F else 0xBF⟩) := by
  simp only [start, toNat_ofNat (show 0xF0 + n < 256 by omega)]
  have h4 : 0xF0 + n = 0xF4 ↔ n = 4 := by omega
  rw [if_neg (by omega), if_neg (by omega), if_neg (by omega), if_pos (by omega),
    Nat.add_sub_cancel_left]
  simp [h4]

theorem isScalar_iff {c : Nat} :
    isScalar c = true ↔ c < 0xD800 ∨ (0xE000 ≤ c ∧ c < 0x110000) := by
  simp [isScalar]

theorem run_encodeChar {c : Nat} (h : isScalar c = true) : run none (encodeChar c) = ([c], none) := by
  rw [isScalar_iff] at h
  unfold encodeChar
  by_cases h1 : c < 0x80
  · simp [run, step, start, toNat_ofNat (show c < 256 by omega), h1]
  rw [if_neg h1]
  by_cases h2 : c < 0x800
  · have hval : c / 64 * 64 + c % 64 = c := by omega
    rw [if_pos h2, run_lead (start_two (by omega) (by omega)),
      run_cont_last (by omega) (by omega) (by omega), hval]
  rw [if_neg h2]
  by_cases h3 : c < 0x10000
  · have hval : (c / 4096 * 64 + c / 64 % 64) * 64 + c % 64 = c := by omega
    have hlo : (if c / 4096 = 0 then 0xA0 else 0x80) ≤ 0x80 + c / 64 % 64 := by split <;> omega
    have hhi : 0x80 + c / 64 % 64 ≤ if c / 4096 = 13 then 0x9F else 0xBF := by split <;> omega
    rw [if_pos h3, run_lead (start_three (by omega)), run_cont (by omega) hlo hhi,
      run_cont_last (by omega) (by omega) (by omega), hval]
  · have hval : ((c / 262144 * 64 + c / 4096 % 64) * 64 + c / 64 % 64) * 64 + c % 64 = c := by omega
    have hlo : (if c / 262144 = 0 then 0x90 else 0x80) ≤ 0x80 + c / 4096 % 64 := by split <;> omega
    have hhi : 0x80 + c / 4096 % 64 ≤ if c / 262144 = 4 then 0x8F else 0xBF := by split <;> omega
    rw [if_neg h3, run_lead (start_four (by omega)), run_cont (by omega) hlo hhi,
      run_cont (by omega) (by omega) (by omega), run_cont_last (by omega) (by omega) (by omega),
      hval]

theorem encode_eq_some {s : Text} {bs : Bytes} :
    encode s = some bs ↔ (∀ c ∈ s, isScalar c = true) ∧ s.flatMap encodeChar = bs := by
  unfold encode
  by_cases h : s.all isScalar = true
  · rw [if_pos h, Option.some.injEq]
    exact (and_iff_right (List.all_eq_true.mp h)).symm
  · rw [List.all_eq_true] at h
    simp [h]

/-- **Reading back an encoded text.** -/
theorem run_encode {s : Text} {bs : Bytes} (h : encode s = some bs) : run none bs = (s, none) := by
  obtain ⟨hs, rfl⟩ := encode_eq_some.mp h
  clear h
  induction s with
  | nil => rfl
  | cons c s ih =>
    rw [List.flatMap_cons, run_append, run_encodeChar (hs c List.mem_cons_self)]
    rw [ih fun x hx => hs x (List.mem_cons_of_mem c hx)]
    rfl

/-- **Reading back an encoded text.** -/
theorem decode_encode {s : Text} {bs : Bytes} (h : encode s = some bs) : decode bs = s := by
  simp [decode, run_encode h, flush]

theorem encode_append {s t : Text} {xs ys : Bytes} (hs : encode s = some xs)
    (ht : encode t = some ys) : encode (s ++ t) = some (xs ++ ys) := by
  obtain ⟨h1, rfl⟩ := encode_eq_some.mp hs
  obtain ⟨h2, rfl⟩ := encode_eq_some.mp ht
  refine encode_eq_some.mpr ⟨fun c hc => ?_, List.flatMap_append⟩
  exact (List.mem_append.mp hc).elim (h1 c) (h2 c)

/-- ASCII code points are their own bytes. -/
theorem encode_ascii (bs : Bytes) (h : ∀ b ∈ bs, b.toNat < 0x80) :
    encode (bs.map (·.toNat)) = some bs := by
  refine encode_eq_some.mpr ⟨fun c hc => ?_, ?_⟩
  · obtain ⟨b, hb, rfl⟩ := List.mem_map.mp hc
    have := h b hb
    exact isScalar_iff.mpr (.inl (by omega))
  rw [List.flatMap_map]
  induction bs with
  | nil => rfl
  | cons b bs ih =>
    have hb : encodeChar b.toNat = [b] := by
      rw [encodeChar, if_pos (h b List.mem_cons_self), UInt8.ofNat_toNat]
    rw [List.flatMap_cons, hb, ih fun x hx => h x (List.mem_cons_of_mem b hx)]
    rfl

/-- The bytes of a code point: itself, or bytes above ASCII. -/
theorem mem_encodeChar {c : Nat} {b : UInt8} (hc : isScalar c = true) (hb : b ∈ encodeChar c) :
    b.toNat = c ∨ (0x80 ≤ c ∧ 0x80 ≤ b.toNat) := by
  rw [isScalar_iff] at hc
  unfold encodeChar at hb
  split at hb
  · obtain rfl := List.mem_singleton.mp hb
    exact .inl (toNat_ofNat (by omega))
  refine .inr ⟨by omega, ?_⟩
  have hlead : ∀ n, 0x80 ≤ n → n < 256 → 0x80 ≤ (UInt8.ofNat n).toNat := by
    intro n h1 h2
    rwa [toNat_ofNat h2]
  split at hb
  · simp only [List.mem_cons, List.not_mem_nil, or_false] at hb
    rcases hb with rfl | rfl <;> exact hlead _ (by omega) (by omega)
  · split at hb
    · simp only [List.mem_cons, List.not_mem_nil, or_false] at hb
      rcases hb with rfl | rfl | rfl <;> exact hlead _ (by omega) (by omega)
    · simp only [List.mem_cons, List.not_mem_nil, or_false] at hb
      rcases hb with rfl | rfl | rfl | rfl <;> exact hlead _ (by omega) (by omega)

theorem encodeChar_ne_nil (c : Nat) : encodeChar c ≠ [] := by
  unfold encodeChar
  split
  · simp
  · split
    · simp
    · split <;> simp

/-- A property that holds above ASCII holds of all the bytes of a text exactly when it holds of all
    its code points. -/
theorem forall_encode {P : Nat → Prop} (hP : ∀ n, 0x80 ≤ n → P n) {s : Text} {bs : Bytes}
    (h : encode s = some bs) : (∀ c ∈ s, P c) ↔ ∀ b ∈ bs, P b.toNat := by
  obtain ⟨hs, rfl⟩ := encode_eq_some.mp h
  constructor
  · intro hall b hb
    obtain ⟨c, hc, hb⟩ := List.mem_flatMap.mp hb
    rcases mem_encodeChar (hs c hc) hb with hbc | ⟨-, hb⟩
    · rw [hbc]
      exact hall c hc
    · exact hP _ hb
  · intro hall c hc
    obtain ⟨b, hb⟩ := List.exists_mem_of_ne_nil _ (encodeChar_ne_nil c)
    have hbs : b ∈ s.flatMap encodeChar := List.mem_flatMap.mpr ⟨c, hc, hb⟩
    rcases mem_encodeChar (hs c hc) hb with hbc | ⟨hc, -⟩
    · rw [← hbc]
      exact hall b hbs
    · exact hP c hc

/-! ## How much is read -/

/-- What `start` makes of a byte counts for one code point, given out or owed. -/
theorem length_start (b : UInt8) : (start b).1.length + (flush (start b).2).length = 1 := by
  unfold start
  simp only
  split
  · rfl
  · split
    · rfl
    · split
      · rfl
      · split <;> rfl

theorem length_take (p : Partial) (b : UInt8) :
    (p.take b).1.length + (flush (p.take b).2).length = 1 := by
  unfold Partial.take
  split <;> rfl

/-- The range a character waits in lies above ASCII. -/
def Waiting (q : Option Partial) : Prop := ∀ p, q = some p → 0x80 ≤ p.lo

theorem start_waiting (b : UInt8) : Waiting (start b).2 := by
  have hsome : ∀ r : Partial, 0x80 ≤ r.lo → Waiting (some r) := by
    intro r hr p hp
    rwa [← Option.some.inj hp]
  have hnone : Waiting none := by simp [Waiting]
  unfold start
  simp only
  split
  · exact hnone
  split
  · exact hsome _ (by simp)
  · split
    · exact hsome _ (by dsimp only; split <;> omega)
    · split
      · exact hsome _ (by dsimp only; split <;> omega)
      · exact hnone

theorem step_waiting {q : Option Partial} (b : UInt8) (hq : Waiting q) : Waiting (step q b).2 := by
  cases q with
  | none => exact start_waiting b
  | some p =>
    simp only [step]
    split
    · unfold Partial.take
      split
      · simp [Waiting]
      · intro r hr
        simp [← Option.some.inj hr]
    · exact start_waiting b

theorem run_waiting {q : Option Partial} (bs : Bytes) (hq : Waiting q) : Waiting (run q bs).2 := by
  induction bs generalizing q with
  | nil => exact hq
  | cons b bs ih => exact ih (step_waiting b hq)

/-- A byte never takes back a code point. -/
theorem length_step (q : Option Partial) (b : UInt8) :
    (flush q).length ≤ (step q b).1.length + (flush (step q b).2).length := by
  cases q with
  | none => exact Nat.zero_le _
  | some p =>
    have h2 := length_take p b
    have h3 : (flush (some p)).length = 1 := rfl
    simp only [step]
    split
    · omega
    · simp only [List.length_cons]
      omega

theorem length_run (q : Option Partial) (bs : Bytes) :
    (flush q).length ≤ (run q bs).1.length + (flush (run q bs).2).length := by
  induction bs generalizing q with
  | nil => simp [run]
  | cons b bs ih =>
    have h1 := length_step q b
    have h2 := ih (step q b).2
    simp only [run, List.length_append]
    omega

/-- Reading on never gives less. -/
theorem length_decode_append (xs ys : Bytes) : (decode xs).length ≤ (decode (xs ++ ys)).length := by
  have h := length_run (run none xs).2 ys
  simp only [decode, run_append, List.length_append]
  omega

/-- An ASCII byte is read as itself, also where it breaks off a character. -/
theorem decode_snoc (xs : Bytes) {b : UInt8} (hb : b.toNat < 0x80) :
    decode (xs ++ [b]) = decode xs ++ [b.toNat] := by
  have hstart : start b = ([b.toNat], none) := by simp [start, hb]
  have hw : Waiting (run none xs).2 := run_waiting xs (by simp [Waiting])
  have hstep : step (run none xs).2 b = (flush (run none xs).2 ++ [b.toNat], none) := by
    cases hq : (run none xs).2 with
    | none => simp [step, hstart, flush]
    | some p =>
      have hlo : 0x80 ≤ p.lo := hw p hq
      rw [step, if_neg (by omega), hstart]
      rfl
  simp [decode, run_append, run, hstep, flush]

end Nishro.Utf8

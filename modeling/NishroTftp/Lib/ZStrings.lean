import Mathlib.Data.List.Induction
import NishroTftp.Lib.Wire
/-
  Buffers of NUL-terminated strings.

  A buffer is cut at its NULs (`List.splitOn`).  All the strings but the last are TERMINATED; the
  last is the TAIL, what follows the last NUL.  A reader that insists on terminators sees the
  terminated strings, one that tolerates a missing NUL at the end also sees a nonempty tail.

  Keys and values alternate in such a buffer: `pairs` takes the strings two by two, `lastUnder` is
  the value that counts when a key is repeated.
-/
namespace Nishro.ZStrings

/-- The strings of a buffer that a NUL ends. -/
def terminated (buf : Bytes) : List Bytes := (buf.splitOn 0).dropLast

/-- What follows the last NUL. -/
def tail (buf : Bytes) : Bytes := (buf.splitOn 0).getLast (List.splitOn_ne_nil 0 buf)

/-- All the strings of a buffer, the last NUL being optional. -/
def strings (buf : Bytes) : List Bytes :=
  terminated buf ++ if tail buf = [] then [] else [tail buf]

theorem splitOn_eq (buf : Bytes) : buf.splitOn 0 = terminated buf ++ [tail buf] :=
  (List.dropLast_concat_getLast _).symm

theorem of_splitOn {buf t : Bytes} {ss : List Bytes} (h : buf.splitOn 0 = ss ++ [t]) :
    terminated buf = ss ∧ tail buf = t := by
  simp [terminated, tail, h]

theorem splitOn_zero (bs : Bytes) : (0 :: bs).splitOn 0 = [] :: bs.splitOn 0 := by
  rfl

theorem splitOn_cons {b : UInt8} (hb : b ≠ 0) (bs : Bytes) :
    (b :: bs).splitOn 0 = (bs.splitOn 0).modifyHead (b :: ·) := by
  rw [List.splitOn, List.splitOnP_cons_eq_if_modifyHead, if_neg (by simpa using hb)]
  rfl

@[simp] theorem terminated_nil : terminated [] = [] := rfl

@[simp] theorem tail_nil : tail [] = [] := rfl

theorem terminated_zero (bs : Bytes) : terminated (0 :: bs) = [] :: terminated bs := by
  rw [terminated, splitOn_zero, terminated, List.dropLast_cons_of_ne_nil (List.splitOn_ne_nil 0 bs)]

theorem tail_zero (bs : Bytes) : tail (0 :: bs) = tail bs := by
  exact List.getLast_cons (List.splitOn_ne_nil 0 bs)

theorem terminated_cons_nil {b : UInt8} (hb : b ≠ 0) {bs : Bytes} (h : terminated bs = []) :
    terminated (b :: bs) = [] ∧ tail (b :: bs) = b :: tail bs := by
  refine of_splitOn ?_
  rw [splitOn_cons hb, splitOn_eq, h]
  rfl

theorem terminated_cons_cons {b : UInt8} (hb : b ≠ 0) {bs s : Bytes} {ss : List Bytes}
    (h : terminated bs = s :: ss) :
    terminated (b :: bs) = (b :: s) :: ss ∧ tail (b :: bs) = tail bs := by
  refine of_splitOn ?_
  rw [splitOn_cons hb, splitOn_eq, h]
  rfl

/-! ## Packing -/

/-- The strings one after the other, each with its NUL. -/
def pack (ss : List Bytes) : Bytes := ss.flatMap (· ++ [0])

theorem splitOn_string {s : Bytes} (hs : 0 ∉ s) (bs : Bytes) :
    (s ++ 0 :: bs).splitOn 0 = s :: bs.splitOn 0 := by
  induction s with
  | nil => exact splitOn_zero bs
  | cons b s ih =>
    obtain ⟨hb, hs⟩ := List.ne_and_not_mem_of_not_mem_cons hs
    rw [List.cons_append, splitOn_cons hb.symm, ih hs]
    rfl

/-- Strings without a NUL in them are read back, and so is a last one whose NUL is missing. -/
theorem strings_pack_append {ss : List Bytes} {t : Bytes} (h : ∀ s ∈ ss, 0 ∉ s) (ht : 0 ∉ t) :
    strings (pack ss ++ t) = ss ++ if t = [] then [] else [t] := by
  have hsplit : (pack ss ++ t).splitOn 0 = ss ++ [t] := by
    induction ss with
    | nil =>
      exact List.splitOnP_eq_singleton fun b hb => by simpa using fun h0 : b = 0 => ht (h0 ▸ hb)
    | cons s ss ih =>
      have happ : pack (s :: ss) ++ t = s ++ 0 :: (pack ss ++ t) := by simp [pack]
      rw [happ, splitOn_string (h s (by simp)), ih fun s' hs' => h s' (by simp [hs'])]
      rfl
  obtain ⟨hterm, htail⟩ := of_splitOn hsplit
  rw [strings, hterm, htail]

/-- Strings without a NUL in them are read back from their packing. -/
theorem strings_pack {ss : List Bytes} (h : ∀ s ∈ ss, 0 ∉ s) : strings (pack ss) = ss := by
  simpa using strings_pack_append h List.not_mem_nil

/-! ## Keys and values -/

section Pairs

variable {α β γ δ : Type}

/-- Two by two; an odd one out is left over. -/
def pairs : List α → List (α × α)
  | a :: b :: rest => (a, b) :: pairs rest
  | _ => []

/-- The key whose value is missing, if the list has odd length. -/
def oddKey : List α → Option α
  | [] => none
  | [a] => some a
  | _ :: _ :: rest => oddKey rest

/-- The last result `f` gives along a list. -/
def lastSome (f : α → Option β) : List α → Option β
  | [] => none
  | a :: l => (lastSome f l).or (f a)

/-- The last value under a key that `p` accepts. -/
def lastUnder (p : α → Bool) (l : List (α × β)) : Option β :=
  lastSome (fun kv => if p kv.1 then some kv.2 else none) l

theorem pairs_flatten (l : List (α × α)) : pairs (l.flatMap fun kv => [kv.1, kv.2]) = l := by
  induction l with
  | nil => rfl
  | cons kv l ih => simp [pairs, ih]

theorem pairs_map (f : α → γ) (l : List α) : pairs (l.map f) = (pairs l).map (Prod.map f f) := by
  induction l using List.twoStepInduction with
  | nil | singleton _ => rfl
  | cons_cons a b rest ih => simp [pairs, ih]

/-- A last string is the value of the key that was left over, or is left over itself. -/
theorem pairs_append_singleton (l : List α) (x : α) :
    pairs (l ++ [x]) = pairs l ++ (oddKey l).toList.map (·, x) := by
  induction l using List.twoStepInduction with
  | nil | singleton _ => rfl
  | cons_cons a b rest ih => simp [pairs, oddKey, ih]

theorem lastSome_append (f : α → Option β) (l l' : List α) :
    lastSome f (l ++ l') = (lastSome f l').or (lastSome f l) := by
  induction l with
  | nil => simp [lastSome]
  | cons a l ih => rw [List.cons_append, lastSome, ih, lastSome, Option.or_assoc]

theorem exists_of_lastSome {f : α → Option β} {l : List α} {b : β} (h : lastSome f l = some b) :
    ∃ a ∈ l, f a = some b := by
  induction l with
  | nil => cases h
  | cons a l ih =>
    rw [lastSome, Option.or_eq_some_iff] at h
    rcases h with h | ⟨-, h⟩
    · obtain ⟨a', ha', hb⟩ := ih h
      exact ⟨a', List.mem_cons_of_mem a ha', hb⟩
    · exact ⟨a, List.mem_cons_self, h⟩

theorem lastSome_eq_none_iff {f : α → Option β} {l : List α} :
    lastSome f l = none ↔ ∀ a ∈ l, f a = none := by
  induction l with
  | nil => simp [lastSome]
  | cons a l ih => simp [lastSome, ih, and_comm]

/-- A loop that keeps the last result ends with it. -/
theorem foldl_or_eq (f : α → Option β) (l : List α) (o : Option β) :
    l.foldl (fun o a => (f a).or o) o = (lastSome f l).or o := by
  induction l generalizing o with
  | nil => rfl
  | cons a l ih => rw [List.foldl_cons, ih, lastSome, Option.or_assoc]

theorem lastUnder_cons (p : α → Bool) (kv : α × β) (l : List (α × β)) :
    lastUnder p (kv :: l) = (lastUnder p l).or (if p kv.1 then some kv.2 else none) := rfl

theorem lastUnder_map (p : γ → Bool) (f : α → γ) (g : β → δ) (l : List (α × β)) :
    lastUnder p (l.map (Prod.map f g)) = (lastUnder (fun a => p (f a)) l).map g := by
  unfold lastUnder
  induction l with
  | nil => rfl
  | cons kv l ih =>
    rw [List.map_cons, lastSome, ih, lastSome]
    cases lastSome (fun kv => if p (f kv.1) then some kv.2 else none) l with
    | some v => rfl
    | none => by_cases h : p (f kv.1) <;> simp [h]

theorem lastUnder_congr {p q : α → Bool} (h : ∀ a, p a = q a) (l : List (α × β)) :
    lastUnder p l = lastUnder q l := by
  rw [funext h]

/-- If the last value can be read, it is the last that can. -/
theorem lastSome_of_lastUnder {p : α → Bool} {read : β → Option γ} {l : List (α × β)} {v : β} {x : γ}
    (hlast : lastUnder p l = some v) (hread : read v = some x) :
    lastSome (fun kv => if p kv.1 then read kv.2 else none) l = some x := by
  induction l with
  | nil => cases hlast
  | cons kv l ih =>
    rw [lastUnder_cons] at hlast
    rw [lastSome]
    cases hl : lastUnder p l with
    | some v' =>
      rw [hl, Option.some_or, Option.some.injEq] at hlast
      rw [ih (hlast ▸ hl), Option.some_or]
    | none =>
      rw [hl, Option.none_or] at hlast
      by_cases hp : p kv.1 = true
      · rw [if_pos hp, Option.some.injEq] at hlast
        have hnone : lastSome (fun kv => if p kv.1 then read kv.2 else none) l = none := by
          rw [lastUnder, lastSome_eq_none_iff] at hl
          refine lastSome_eq_none_iff.mpr fun kv hkv => if_neg fun hkp => ?_
          have hkv := hl kv hkv
          rw [if_pos hkp] at hkv
          cases hkv
        rw [hnone, Option.none_or, if_pos hp, hlast, hread]
      · rw [if_neg hp] at hlast
        cases hlast

/-- Reading the last value gives the last that can be read, unless it cannot be read and an
    earlier one can. -/
theorem bind_lastUnder_iff (p : α → Bool) (read : β → Option γ) (l : List (α × β)) :
    (lastUnder p l).bind read = lastSome (fun kv => if p kv.1 then read kv.2 else none) l ↔
      ((lastUnder p l).bind read = none → ∀ kv ∈ l, p kv.1 = true → read kv.2 = none) := by
  cases hbind : (lastUnder p l).bind read with
  | none =>
    rw [eq_comm, lastSome_eq_none_iff]
    simp
  | some x =>
    obtain ⟨v, hlast, hread⟩ := Option.bind_eq_some_iff.mp hbind
    simp [lastSome_of_lastUnder hlast hread]

end Pairs

end Nishro.ZStrings

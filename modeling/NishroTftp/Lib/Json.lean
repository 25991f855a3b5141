import Mathlib.Algebra.Order.BigOperators.Group.List
import Mathlib.Data.List.TakeWhile
import NishroTftp.Lib.Utf8
import NishroTftp.Lib.Decimal
/-
  JSON as Python's `json` module reads it, and the flat one-line objects that programs print by
  hand.

  `loads` is the reader: whitespace, escapes with surrogate pairs, control characters refused in
  strings, integers kept apart from floats, the three extra constants.  An object is its members in
  the order of the text, and looking a key up finds the LAST of them, as assigning them in turn to a
  dict does.

  A `Record` is a flat object of integers, booleans and strings, and `Record.render` prints it
  without whitespace or escapes.  Two results say what such a line is worth.  `loads_render`: if no
  key or string needs an escape, the line is read back as the record.  `loads_record`: no line that
  is read as an object with the fields of a record is shorter than the record printed, and one of
  exactly that length has no escape in it.
-/
namespace Nishro

open Utf8 (Text text)

inductive Json
  | null
  | bool (b : Bool)
  | int (n : Int)
  | float (lexeme : Text)
  | str (s : Text)
  | arr (xs : List Json)
  | obj (members : List (Text × Json))

namespace Json

/-- `obj.get(key)`: the last member of that name. -/
def get (key : Text) : Json → Option Json
  | .obj ms => (ms.reverse.find? fun m => m.1 == key).map (·.2)
  | _ => none

/-! ## Scanning -/

def isWs (c : Nat) : Bool := c == 32 || c == 9 || c == 10 || c == 13

def skipWs (s : Text) : Text := s.dropWhile isWs

def isDigit (c : Nat) : Bool := decide (48 ≤ c) && decide (c ≤ 57)

/-- The text after one given character. -/
def expect (c : Nat) : Text → Option Text
  | [] => none
  | d :: t => if d = c then some t else none

/-- The text after a given word. -/
def keyword (w s : Text) : Option Text := if w.isPrefixOf s then some (s.drop w.length) else none

def hexVal (c : Nat) : Option Nat :=
  if 48 ≤ c ∧ c ≤ 57 then some (c - 48)
  else if 97 ≤ c ∧ c ≤ 102 then some (c - 87)
  else if 65 ≤ c ∧ c ≤ 70 then some (c - 55)
  else none

def hex4 : Text → Option (Nat × Text)
  | a :: b :: c :: d :: t => do
    let a ← hexVal a
    let b ← hexVal b
    let c ← hexVal c
    let d ← hexVal d
    pure (((a * 16 + b) * 16 + c) * 16 + d, t)
  | _ => none

/-- The low surrogate that may follow a high one. -/
def lowSurrogate (t : Text) : Option (Nat × Text) := do
  let t ← expect 92 t
  let t ← expect 117 t
  hex4 t

/-- After `\u`: four hex digits, and a second escape if they are the first half of a pair. -/
def unescapeHex (t : Text) : Option (Nat × Text) :=
  (hex4 t).bind fun r =>
    if 0xD800 ≤ r.1 ∧ r.1 ≤ 0xDBFF ∧ ((expect 92 r.2).bind (expect 117)).isSome then
      (lowSurrogate r.2).map fun l =>
        if 0xDC00 ≤ l.1 ∧ l.1 ≤ 0xDFFF then (0x10000 + (r.1 - 0xD800) * 1024 + (l.1 - 0xDC00), l.2)
        else r
    else some r

/-- What stands for itself, or for a control character, after a backslash. -/
def escapes : List (Nat × Nat) :=
  [(34, 34), (92, 92), (47, 47), (98, 8), (102, 12), (110, 10), (114, 13), (116, 9)]

/-- After a backslash. -/
def unescape : Text → Option (Nat × Text)
  | [] => none
  | e :: t =>
    match escapes.lookup e with
    | some c => some (c, t)
    | none => if e = 117 then unescapeHex t else none

/-- After the opening quote, for at most `k` characters. -/
def scanChars : Nat → Text → Option (Text × Text)
  | 0, _ => none
  | _ + 1, [] => none
  | k + 1, c :: t =>
    if c = 34 then some ([], t)
    else if c = 92 then
      (unescape t).bind fun r => (scanChars k r.2).map fun q => (r.1 :: q.1, q.2)
    else if c < 32 then none
    else (scanChars k t).map fun q => (c :: q.1, q.2)

def scanString (t : Text) : Option (Text × Text) := scanChars (t.length + 1) t

/-- The value of a string of digits. -/
def natVal (ds : Text) : Nat := ds.foldl (fun n c => n * 10 + (c - 48)) 0

/-- `0|[1-9][0-9]*` -/
def scanInt : Text → Option (Text × Text)
  | [] => none
  | c :: t =>
    if c = 48 then some ([c], t)
    else if isDigit c then some (c :: t.takeWhile isDigit, t.dropWhile isDigit)
    else none

/-- `(\.[0-9]+)?` -/
def scanFrac (t : Text) : Text × Text :=
  match expect 46 t with
  | some t' => if t'.takeWhile isDigit = [] then ([], t)
      else (46 :: t'.takeWhile isDigit, t'.dropWhile isDigit)
  | none => ([], t)

/-- The sign of an exponent. -/
def scanSign : Text → Text × Text
  | [] => ([], [])
  | c :: t => if c = 43 ∨ c = 45 then ([c], t) else ([], c :: t)

/-- `([eE][-+]?[0-9]+)?` -/
def scanExp : Text → Text × Text
  | [] => ([], [])
  | c :: t =>
    if (c = 101 ∨ c = 69) ∧ (scanSign t).2.takeWhile isDigit ≠ [] then
      (c :: (scanSign t).1 ++ (scanSign t).2.takeWhile isDigit, (scanSign t).2.dropWhile isDigit)
    else ([], c :: t)

/-- The part of a number after its sign. -/
def scanUnsigned (neg : Bool) (t : Text) : Option (Json × Text) :=
  (scanInt t).map fun d =>
    let f := scanFrac d.2
    let e := scanExp f.2
    if f.1 = [] ∧ e.1 = [] then (.int (if neg then -(natVal d.1 : Int) else natVal d.1), e.2)
    else (.float ((if neg then [45] else []) ++ d.1 ++ f.1 ++ e.1), e.2)

def scanNumber (s : Text) : Option (Json × Text) :=
  match expect 45 s with
  | some t => scanUnsigned true t
  | none => scanUnsigned false s

/-- The words that are values. -/
def keywords : List (Text × Json) :=
  [(text "null", .null), (text "true", .bool true), (text "false", .bool false),
    (text "NaN", .float (text "NaN")), (text "Infinity", .float (text "Infinity")),
    (text "-Infinity", .float (text "-Infinity"))]

/-- A value that is neither a string, an object nor an array. -/
def scanScalar (s : Text) : Option (Json × Text) :=
  match keywords.findSome? fun w => (keyword w.1 s).map fun t => (w.2, t) with
  | some r => some r
  | none => scanNumber s

/-! ## Reading -/

mutual

/-- `scan_once`, with nesting and length bounded by the first argument. -/
def value : Nat → Text → Option (Json × Text)
  | 0, _ => none
  | _ + 1, [] => none
  | k + 1, c :: t =>
    if c = 34 then (scanString t).map fun r => (.str r.1, r.2)
    else if c = 123 then
      match expect 125 (skipWs t) with
      | some t' => some (.obj [], t')
      | none => (members k (skipWs t)).map fun r => (.obj r.1, r.2)
    else if c = 91 then
      match expect 93 (skipWs t) with
      | some t' => some (.arr [], t')
      | none => (elements k (skipWs t)).map fun r => (.arr r.1, r.2)
    else scanScalar (c :: t)

/-- The members of an object, from the first key to the closing brace. -/
def members : Nat → Text → Option (List (Text × Json) × Text)
  | 0, _ => none
  | k + 1, s =>
    (expect 34 s).bind fun t => (scanString t).bind fun key =>
    (expect 58 (skipWs key.2)).bind fun t => (value k (skipWs t)).bind fun v =>
    match expect 125 (skipWs v.2) with
    | some t => some ([(key.1, v.1)], t)
    | none => (expect 44 (skipWs v.2)).bind fun t =>
      (members k (skipWs t)).map fun r => ((key.1, v.1) :: r.1, r.2)

/-- The elements of an array, to the closing bracket. -/
def elements : Nat → Text → Option (List Json × Text)
  | 0, _ => none
  | k + 1, s =>
    (value k s).bind fun v =>
    match expect 93 (skipWs v.2) with
    | some t => some ([v.1], t)
    | none => (expect 44 (skipWs v.2)).bind fun t =>
      (elements k (skipWs t)).map fun r => (v.1 :: r.1, r.2)

end

/-- `json.loads` (a leading byte order mark is refused). -/
def loads (s : Text) : Option Json :=
  if s.head? = some 0xFEFF then none
  else
    (value (s.length + 1) (skipWs s)).bind fun r => if skipWs r.2 = [] then some r.1 else none

/-! ## Flat records -/

/-- What a flat object holds. -/
inductive Scalar
  | int (n : Int)
  | bool (b : Bool)
  | str (s : Text)

def Scalar.toJson : Scalar → Json
  | .int n => .int n
  | .bool b => .bool b
  | .str s => .str s

/-- A flat object, in the order it is printed. -/
abbrev Record := List (Text × Scalar)

def Record.toJson (r : Record) : Json := .obj (r.map fun m => (m.1, m.2.toJson))

/-- The numeral of an integer. -/
def numeral (n : Int) : Text :=
  (if n < 0 then [45] else []) ++ (Decimal.decimal n.natAbs).map (·.toNat)

def Scalar.render : Scalar → Text
  | .int n => numeral n
  | .bool true => text "true"
  | .bool false => text "false"
  | .str s => 34 :: s ++ [34]

/-- `"key":value` -/
def renderMember (m : Text × Scalar) : Text := 34 :: m.1 ++ [34, 58] ++ m.2.render

/-- The members, separated by commas, and the closing brace. -/
def renderMembers : Record → Text
  | [] => [125]
  | [m] => renderMember m ++ [125]
  | m :: m' :: ms => renderMember m ++ 44 :: renderMembers (m' :: ms)

def Record.render (r : Record) : Text := 123 :: renderMembers r

/-- A character that needs no escape. -/
def isPlain (c : Nat) : Bool := decide (32 ≤ c) && c != 34 && c != 92

def PlainText (s : Text) : Prop := ∀ c ∈ s, isPlain c = true

/-- No string in it needs an escape. -/
def Scalar.Plain : Scalar → Prop
  | .str s => PlainText s
  | _ => True

/-- No key and no string needs an escape. -/
def Record.Plain (r : Record) : Prop := ∀ m ∈ r, PlainText m.1 ∧ m.2.Plain

instance (s : Text) : Decidable (PlainText s) :=
  inferInstanceAs (Decidable (∀ c ∈ s, isPlain c = true))

instance : (v : Scalar) → Decidable v.Plain
  | .str s => inferInstanceAs (Decidable (PlainText s))
  | .int _ => .isTrue trivial
  | .bool _ => .isTrue trivial

instance (r : Record) : Decidable r.Plain :=
  inferInstanceAs (Decidable (∀ m ∈ r, PlainText m.1 ∧ m.2.Plain))

/-! ## A plain record is read back -/

@[simp] theorem expect_cons (c : Nat) (t : Text) : expect c (c :: t) = some t := if_pos rfl

theorem expect_ne {c d : Nat} (h : d ≠ c) (t : Text) : expect c (d :: t) = none := if_neg h

theorem skipWs_cons {c : Nat} (h : isWs c = false) (t : Text) : skipWs (c :: t) = c :: t := by
  simp [skipWs, h]

theorem isPlain_iff {c : Nat} : isPlain c = true ↔ 32 ≤ c ∧ c ≠ 34 ∧ c ≠ 92 := by
  simp [isPlain, and_assoc]

variable {k : Nat} {s : Text}

theorem scanChars_plain (hs : PlainText s) (t : Text) (hk : s.length < k) :
    scanChars k (s ++ 34 :: t) = some (s, t) := by
  induction s generalizing k with
  | nil =>
    obtain ⟨k, rfl⟩ : ∃ j, k = j + 1 := ⟨k - 1, by omega⟩
    simp [scanChars]
  | cons c s ih =>
    rw [List.length_cons] at hk
    obtain ⟨k, rfl⟩ : ∃ j, k = j + 1 := ⟨k - 1, by omega⟩
    obtain ⟨h32, h34, h92⟩ := isPlain_iff.mp (hs c List.mem_cons_self)
    have ih' := ih (fun x hx => hs x (List.mem_cons_of_mem c hx)) (k := k) (by omega)
    rw [List.cons_append, scanChars, if_neg h34, if_neg h92, if_neg (by omega), ih']
    rfl

theorem scanString_plain (hs : PlainText s) (t : Text) : scanString (s ++ 34 :: t) = some (s, t) :=
  scanChars_plain hs t (by simp)

/-- What follows a value in a printed record. -/
def Delimited (t : Text) : Prop := ∃ c t', t = c :: t' ∧ (c = 44 ∨ c = 125)

theorem digit_codes (m : Nat) : ∀ c ∈ (Decimal.decimal m).map (·.toNat), isDigit c = true := by
  intro c hc
  obtain ⟨b, hb, rfl⟩ := List.mem_map.mp hc
  have := (Decimal.isDigit_iff b).mp (Decimal.decimal_digits m b hb)
  simp [isDigit, this]

theorem natVal_codes (bs : Bytes) : natVal (bs.map (·.toNat)) = Decimal.ofDecimal bs := by
  simp [natVal, Decimal.ofDecimal, List.foldl_map]

theorem scanInt_decimal (m : Nat) {t : Text} (ht : Delimited t) :
    scanInt ((Decimal.decimal m).map (·.toNat) ++ t) =
      some ((Decimal.decimal m).map (·.toNat), t) := by
  obtain ⟨c, t', rfl, hc⟩ := ht
  by_cases hm : m = 0
  · subst hm
    rfl
  have hhead := Decimal.decimal_head m hm
  have hdig := digit_codes m
  cases hd : Decimal.decimal m with
  | nil => exact absurd hd (Decimal.decimal_ne_nil m)
  | cons b bs =>
    simp only [hd, List.head_cons] at hhead
    simp only [hd, List.map_cons, List.mem_cons, forall_eq_or_imp] at hdig
    have h48 : b.toNat ≠ 48 := fun h => hhead (UInt8.toNat_inj.mp h)
    have hstop : isDigit c = false := by rcases hc with rfl | rfl <;> rfl
    obtain ⟨htake, hdrop⟩ := Decimal.span_stops hdig.2 (Decimal.stops_cons hstop t')
    rw [List.map_cons, List.cons_append, scanInt, if_neg h48, if_pos hdig.1, htake, hdrop]

theorem scanUnsigned_decimal (neg : Bool) (m : Nat) {t : Text} (ht : Delimited t) :
    scanUnsigned neg ((Decimal.decimal m).map (·.toNat) ++ t) =
      some (.int (if neg then -(m : Int) else m), t) := by
  rw [scanUnsigned, scanInt_decimal m ht]
  obtain ⟨c, t', rfl, hc⟩ := ht
  have hfrac : scanFrac (c :: t') = ([], c :: t') := by
    rcases hc with rfl | rfl <;> simp [scanFrac, expect]
  have hexp : scanExp (c :: t') = ([], c :: t') := by
    rcases hc with rfl | rfl <;> simp [scanExp]
  simp [hfrac, hexp, natVal_codes]

/-- A numeral starts with a digit, or with a sign and a digit. -/
theorem numeral_cons (n : Int) : ∃ d ds, isDigit d = true ∧
    (numeral n = d :: ds ∨ numeral n = 45 :: d :: ds) := by
  have hdig := digit_codes n.natAbs
  cases hd : (Decimal.decimal n.natAbs).map (·.toNat) with
  | nil => exact absurd (List.map_eq_nil_iff.mp hd) (Decimal.decimal_ne_nil _)
  | cons d ds =>
    rw [hd] at hdig
    refine ⟨d, ds, hdig d List.mem_cons_self, ?_⟩
    by_cases hn : n < 0
    · exact .inr (by simp [numeral, hn, hd])
    · exact .inl (by simp [numeral, hn, hd])

theorem isDigit_iff {c : Nat} : isDigit c = true ↔ 48 ≤ c ∧ c ≤ 57 := by simp [isDigit]

theorem numeral_injective {m n : Int} (h : numeral m = numeral n) : m = n := by
  have hminus : ∀ k : Nat, ∀ t : Text, (Decimal.decimal k).map (·.toNat) ≠ 45 :: t := by
    intro k t heq
    have hdigit := digit_codes k 45 (heq ▸ List.mem_cons_self)
    exact absurd hdigit (by decide)
  have habs : ∀ j k : Nat, (Decimal.decimal j).map (·.toNat) = (Decimal.decimal k).map (·.toNat) →
      j = k := by
    intro j k heq
    have := congrArg natVal heq
    rwa [natVal_codes, natVal_codes, Decimal.ofDecimal_decimal, Decimal.ofDecimal_decimal] at this
  unfold numeral at h
  by_cases hm : m < 0 <;> by_cases hn : n < 0
  · simp only [hm, hn, if_true, List.singleton_append, List.cons.injEq, true_and] at h
    have := habs _ _ h
    omega
  · simp only [hm, hn, if_true, if_false, List.singleton_append, List.nil_append] at h
    exact absurd h.symm (hminus _ _)
  · simp only [hm, hn, if_true, if_false, List.singleton_append, List.nil_append] at h
    exact absurd h (hminus _ _)
  · simp only [hm, hn, if_false, List.nil_append] at h
    have := habs _ _ h
    omega

theorem scanNumber_numeral (n : Int) {t : Text} (ht : Delimited t) :
    scanNumber (numeral n ++ t) = some (.int n, t) := by
  unfold scanNumber
  by_cases hn : n < 0
  · have habs : -(n.natAbs : Int) = n := by omega
    have hnum : numeral n ++ t = 45 :: ((Decimal.decimal n.natAbs).map (·.toNat) ++ t) := by
      simp [numeral, hn]
    rw [hnum, expect_cons]
    simp only
    rw [scanUnsigned_decimal true _ ht, if_pos rfl, habs]
  · have habs : (n.natAbs : Int) = n := by omega
    obtain ⟨d, ds, hd, h | h⟩ := numeral_cons n
    · have hne : expect 45 (numeral n ++ t) = none := by
        rw [h, List.cons_append, expect_ne (by rw [isDigit_iff] at hd; omega)]
      have hnum : numeral n = (Decimal.decimal n.natAbs).map (·.toNat) := by simp [numeral, hn]
      rw [hne]
      simp only
      rw [hnum, scanUnsigned_decimal false _ ht, habs]
      rfl
    · have hdig := digit_codes n.natAbs
      have hnum : numeral n = (Decimal.decimal n.natAbs).map (·.toNat) := by simp [numeral, hn]
      rw [← hnum, h] at hdig
      exact absurd (hdig 45 List.mem_cons_self) (by decide)

theorem keywords_eq : keywords =
    [([110, 117, 108, 108], .null), ([116, 114, 117, 101], .bool true),
      ([102, 97, 108, 115, 101], .bool false), ([78, 97, 78], .float [78, 97, 78]),
      ([73, 110, 102, 105, 110, 105, 116, 121], .float [73, 110, 102, 105, 110, 105, 116, 121]),
      ([45, 73, 110, 102, 105, 110, 105, 116, 121],
        .float [45, 73, 110, 102, 105, 110, 105, 116, 121])] := rfl

/-- No word starts like a numeral. -/
theorem keyword_numeral (n : Int) (t : Text) :
    (keywords.findSome? fun w => (keyword w.1 (numeral n ++ t)).map fun r => (w.2, r)) = none := by
  obtain ⟨d, ds, hd, h | h⟩ := numeral_cons n <;> rw [isDigit_iff] at hd
  · simp [keywords_eq, h, keyword]
    omega
  · simp [keywords_eq, h, keyword]
    omega

theorem value_render {v : Scalar} (hv : v.Plain) {t : Text} (ht : Delimited t) (k : Nat) :
    value (k + 1) (v.render ++ t) = some (v.toJson, t) := by
  cases v with
  | str s =>
    have h : Scalar.render (.str s) ++ t = 34 :: (s ++ 34 :: t) := by simp [Scalar.render]
    rw [h, value, scanString_plain hv]
    rfl
  | bool b =>
    cases b with
    | true => simp [Scalar.render, text, value, scanScalar, keywords_eq, keyword, Scalar.toJson]
    | false => simp [Scalar.render, text, value, scanScalar, keywords_eq, keyword, Scalar.toJson]
  | int n =>
    have hscalar : scanScalar (numeral n ++ t) = some (.int n, t) := by
      rw [scanScalar, keyword_numeral]
      exact scanNumber_numeral n ht
    rw [Scalar.render]
    obtain ⟨d, ds, hd, h | h⟩ := numeral_cons n <;> rw [isDigit_iff] at hd <;>
      rw [h] at hscalar ⊢ <;>
      rw [List.cons_append, value, if_neg (by omega), if_neg (by omega), if_neg (by omega)]
    · exact hscalar
    · exact hscalar

/-- A value of a record does not start with whitespace. -/
theorem skipWs_render (v : Scalar) (t : Text) : skipWs (v.render ++ t) = v.render ++ t := by
  cases v with
  | str s => exact skipWs_cons rfl _
  | bool b => cases b <;> exact skipWs_cons rfl _
  | int n =>
    have hws : ∀ d, isDigit d = true → isWs d = false := by
      intro d hd
      rw [isDigit_iff] at hd
      simp only [isWs, Bool.or_eq_false_iff, beq_eq_false_iff_ne]
      omega
    rw [Scalar.render]
    obtain ⟨d, ds, hd, h | h⟩ := numeral_cons n <;> rw [h]
    · exact skipWs_cons (hws d hd) _
    · exact skipWs_cons rfl _

/-- One printed member, whatever delimits it. -/
theorem members_step {m : Text × Scalar} (hm : PlainText m.1 ∧ m.2.Plain) {t : Text}
    (ht : Delimited t) (k : Nat) :
    Json.members (k + 2) (renderMember m ++ t) =
      match expect 125 t with
      | some t => some ([(m.1, m.2.toJson)], t)
      | none => (expect 44 t).bind fun t =>
        (Json.members (k + 1) (skipWs t)).map fun r => ((m.1, m.2.toJson) :: r.1, r.2) := by
  have hws : skipWs t = t := by
    obtain ⟨c, t', rfl, rfl | rfl⟩ := ht <;> exact skipWs_cons rfl _
  have htext : renderMember m ++ t = 34 :: (m.1 ++ 34 :: 58 :: (m.2.render ++ t)) := by
    simp [renderMember]
  rw [htext, Json.members, expect_cons, Option.bind_some, scanString_plain hm.1, Option.bind_some]
  simp only
  rw [skipWs_cons rfl, expect_cons, Option.bind_some, skipWs_render, value_render hm.2 ht,
    Option.bind_some]
  simp only [hws]

variable {r : Record}

theorem members_render (hr : r.Plain) (hne : r ≠ []) (t : Text) (hk : r.length < k) :
    Json.members k (renderMembers r ++ t) = some (r.map fun m => (m.1, m.2.toJson), t) := by
  induction r generalizing k with
  | nil => exact absurd rfl hne
  | cons m r ih =>
    rw [List.length_cons] at hk
    obtain ⟨k, rfl⟩ : ∃ j, k = j + 2 := ⟨k - 2, by omega⟩
    have hm := hr m List.mem_cons_self
    cases r with
    | nil =>
      rw [renderMembers, List.append_assoc, List.singleton_append,
        members_step hm ⟨125, t, rfl, .inr rfl⟩]
      rfl
    | cons m' r =>
      have ih' := ih (fun x hx => hr x (List.mem_cons_of_mem m hx)) (List.cons_ne_nil _ _)
        (k := k + 1) (by omega)
      have hws : skipWs (renderMembers (m' :: r) ++ t) = renderMembers (m' :: r) ++ t := by
        cases r <;> exact skipWs_cons rfl _
      rw [renderMembers, List.append_assoc, List.cons_append,
        members_step hm ⟨44, _, rfl, .inl rfl⟩, expect_cons]
      simp only [Option.bind_some]
      rw [hws, ih']
      rfl

theorem length_renderMembers (r : Record) : r.length < (renderMembers r).length := by
  induction r with
  | nil => exact Nat.one_pos
  | cons m r ih =>
    cases r with
    | nil => simp [renderMembers, renderMember]
    | cons m' r =>
      simp only [renderMembers, List.length_append, List.length_cons] at ih ⊢
      omega

theorem skipWs_blank {w : Text} (hw : ∀ c ∈ w, isWs c = true) : skipWs w = [] :=
  List.dropWhile_eq_nil_iff.mpr hw

/-- **A plain record is read back**, whatever blanks follow it. -/
theorem loads_render (hr : r.Plain) (hne : r ≠ []) {w : Text} (hw : ∀ c ∈ w, isWs c = true) :
    loads (r.render ++ w) = some r.toJson := by
  have hlen := length_renderMembers r
  have hhead : expect 125 (renderMembers r ++ w) = none := by
    match r with
    | [] => exact absurd rfl hne
    | [m] => exact expect_ne (by decide) _
    | m :: m' :: r => exact expect_ne (by decide) _
  have hws : skipWs (renderMembers r ++ w) = renderMembers r ++ w := by
    match r with
    | [] => exact absurd rfl hne
    | [m] => exact skipWs_cons rfl _
    | m :: m' :: r => exact skipWs_cons rfl _
  have hmem := members_render hr hne w (k := (renderMembers r ++ w).length + 1)
    (by rw [List.length_append]; omega)
  have hlen' : (r.render ++ w).length + 1 = (renderMembers r ++ w).length + 1 + 1 := rfl
  rw [loads, hlen', Record.render, List.cons_append,
    skipWs_cons rfl, value, hws, hhead]
  simp only
  rw [hmem]
  simp [skipWs_blank hw, Record.toJson]

/-! ## No text is shorter -/

/-- A value without parts. -/
def isLeaf : Json → Bool
  | .null | .bool _ | .int _ | .float _ => true
  | .str _ | .arr _ | .obj _ => false

/-- The least length of a text that is read as this value (a container counts for one). -/
def weight : Json → Nat
  | .str s => s.length + 2
  | .int n => (numeral n).length
  | .bool true => 4
  | .bool false => 5
  | _ => 1

/-- If it is a string, it needs no escape. -/
def PlainStr : Json → Prop
  | .str s => PlainText s
  | _ => True

/-- The least length of members and the closing brace. -/
def membersWeight (ms : List (Text × Json)) : Nat := (ms.map fun m => m.1.length + m.2.weight + 4).sum

/-- No key of these members, and no string among their values, needs an escape. -/
def PlainMembers (ms : List (Text × Json)) : Prop := ∀ m ∈ ms, PlainText m.1 ∧ PlainStr m.2

/-- `n` characters can be read as this value, and if they are no more than it takes, they hold no
    escape. -/
def Fits : Json → Nat → Prop
  | .obj ms, n => membersWeight ms + 1 ≤ n ∧ (membersWeight ms + 1 = n → PlainMembers ms)
  | v, n => v.weight ≤ n ∧ (v.weight = n → PlainStr v)

theorem expect_eq_some {c : Nat} {s t : Text} (h : expect c s = some t) : s = c :: t := by
  cases s with
  | nil => cases h
  | cons d s =>
    rw [expect] at h
    split at h
    · rename_i hd
      rw [hd, Option.some.inj h]
    · cases h

theorem expect_suffix {c : Nat} {s t : Text} (h : expect c s = some t) : t <:+ s :=
  ⟨[c], (expect_eq_some h).symm⟩

theorem skipWs_suffix (s : Text) : skipWs s <:+ s := List.dropWhile_suffix _

theorem hex4_suffix {t r : Text} {n : Nat} (h : hex4 t = some (n, r)) : r <:+ t := by
  unfold hex4 at h
  split at h
  · rename_i a b c d t
    simp only [Option.bind_eq_bind, Option.bind_eq_some_iff, Option.pure_def, Option.some.injEq,
      Prod.mk.injEq] at h
    obtain ⟨_, _, _, _, _, _, _, _, -, rfl⟩ := h
    exact ⟨[a, b, c, d], rfl⟩
  · cases h

/-- An escape is longer than the character it stands for. -/
theorem unescape_suffix {e c : Nat} {t r : Text} (h : unescape (e :: t) = some (c, r)) : r <:+ t := by
  rw [unescape] at h
  split at h
  · obtain ⟨-, rfl⟩ := Prod.mk.inj (Option.some.inj h)
    exact List.suffix_rfl
  split at h
  · obtain ⟨q, hq, h⟩ := Option.bind_eq_some_iff.mp h
    have hq' := hex4_suffix (n := q.1) (r := q.2) hq
    split at h
    · obtain ⟨l, hl, h⟩ := Option.map_eq_some_iff.mp h
      simp only [lowSurrogate, Option.bind_eq_bind, Option.bind_eq_some_iff] at hl
      obtain ⟨t1, h1, t2, h2, hl⟩ := hl
      have hl' := (hex4_suffix (n := l.1) (r := l.2) hl).trans
        ((expect_suffix h2).trans (expect_suffix h1))
      split at h
      · obtain ⟨-, rfl⟩ := Prod.mk.inj h
        exact hl'.trans hq'
      · subst h
        exact hq'
    · obtain rfl := Option.some.inj h
      exact hq'
  · cases h

theorem scanFrac_suffix (t : Text) : (scanFrac t).2 <:+ t := by
  unfold scanFrac
  split
  · rename_i t' ht
    split
    · exact List.suffix_rfl
    · exact (List.dropWhile_suffix _).trans (expect_suffix ht)
  · exact List.suffix_rfl

theorem scanExp_suffix (t : Text) : (scanExp t).2 <:+ t := by
  cases t with
  | nil => exact List.suffix_rfl
  | cons c t =>
    have hsign : (scanSign t).2 <:+ t := by
      cases t with
      | nil => exact List.suffix_rfl
      | cons d t =>
        rw [scanSign]
        split
        · exact List.suffix_cons d t
        · exact List.suffix_rfl
    rw [scanExp]
    split
    · exact (List.dropWhile_suffix _).trans (hsign.trans (List.suffix_cons c t))
    · exact List.suffix_rfl

variable {v : Json}

theorem Fits.weight_le {n : Nat} (h : Fits v n) : v.weight ≤ n ∧ (v.weight = n → PlainStr v) := by
  cases v with
  | obj ms => exact ⟨Nat.le_trans (Nat.le_add_left 1 _) h.1, fun _ => trivial⟩
  | _ => exact h

theorem fits_leaf {n : Nat} (hv : v.isLeaf = true) (h : v.weight ≤ n) : Fits v n := by
  cases v with
  | str s => cases hv
  | obj ms => cases hv
  | _ => exact ⟨h, fun _ => trivial⟩

theorem length_skipWs_le (s : Text) : (skipWs s).length ≤ s.length := (skipWs_suffix s).length_le

/-- A string ends with its quote; the text is longer than what it stands for by two at least, and by
    more if there is an escape in it. -/
theorem scanChars_spec {t s r : Text} (h : scanChars k t = some (s, r)) :
    r <:+ t ∧ s.length + 1 + r.length ≤ t.length ∧
      (s.length + 1 + r.length = t.length → PlainText s) := by
  induction k generalizing t s with
  | zero => cases h
  | succ k ih =>
    cases t with
    | nil => cases h
    | cons c t =>
      have hcons : t <:+ c :: t := List.suffix_cons c t
      rw [scanChars] at h
      split at h
      · obtain ⟨rfl, rfl⟩ := Prod.mk.inj (Option.some.inj h)
        exact ⟨hcons, by simp; omega, fun _ => by simp [PlainText]⟩
      rename_i h34
      split at h
      · obtain ⟨u, hu, h⟩ := Option.bind_eq_some_iff.mp h
        obtain ⟨q, hq, h⟩ := Option.map_eq_some_iff.mp h
        obtain ⟨rfl, rfl⟩ := Prod.mk.inj h
        obtain ⟨hsuf, hle, -⟩ := ih (s := q.1) hq
        cases t with
        | nil => cases hu
        | cons e t =>
          have hu := unescape_suffix (c := u.1) (r := u.2) hu
          have hlen := hu.length_le
          simp only [List.length_cons]
          exact ⟨hsuf.trans (hu.trans ((List.suffix_cons e t).trans hcons)), by omega,
            fun _ => by omega⟩
      · rename_i h92
        split at h
        · cases h
        rename_i h32
        obtain ⟨q, hq, h⟩ := Option.map_eq_some_iff.mp h
        obtain ⟨rfl, rfl⟩ := Prod.mk.inj h
        obtain ⟨hsuf, hle, hplain⟩ := ih (s := q.1) hq
        simp only [List.length_cons]
        refine ⟨hsuf.trans hcons, by omega, fun heq => ?_⟩
        intro x hx
        rcases List.mem_cons.mp hx with rfl | hx
        · exact isPlain_iff.mpr ⟨by omega, h34, h92⟩
        · exact hplain (by omega) x hx

theorem natVal_lt (ds : Text) (h : ∀ c ∈ ds, isDigit c = true) : natVal ds < 10 ^ ds.length := by
  have hfold : ∀ (ds : Text) (a n : Nat), (∀ c ∈ ds, isDigit c = true) → a < 10 ^ n →
      ds.foldl (fun n c => n * 10 + (c - 48)) a < 10 ^ (n + ds.length) := by
    intro ds
    induction ds with
    | nil => exact fun a n _ ha => ha
    | cons c ds ih =>
      intro a n h ha
      have hc := isDigit_iff.mp (h c List.mem_cons_self)
      have hnext : a * 10 + (c - 48) < 10 ^ (n + 1) := by
        rw [Nat.pow_succ]
        omega
      have := ih _ (n + 1) (fun x hx => h x (List.mem_cons_of_mem c hx)) hnext
      rw [List.length_cons]
      rwa [show n + (ds.length + 1) = n + 1 + ds.length by omega]
  simpa [natVal] using hfold ds 0 0 h (by simp)

theorem scanInt_spec {t ds r : Text} (h : scanInt t = some (ds, r)) :
    r <:+ t ∧ 0 < ds.length ∧ natVal ds < 10 ^ ds.length ∧ ds.length + r.length = t.length := by
  cases t with
  | nil => cases h
  | cons c t =>
    have hcons : t <:+ c :: t := List.suffix_cons c t
    rw [scanInt] at h
    split at h
    · rename_i hc
      obtain ⟨rfl, rfl⟩ := Prod.mk.inj (Option.some.inj h)
      subst hc
      exact ⟨hcons, by simp, by decide, by simp; omega⟩
    · split at h
      · rename_i hc
        obtain ⟨rfl, rfl⟩ := Prod.mk.inj (Option.some.inj h)
        refine ⟨(List.dropWhile_suffix _).trans hcons, by simp, natVal_lt _ ?_, ?_⟩
        · intro x hx
          rcases List.mem_cons.mp hx with rfl | hx
          · exact hc
          · exact List.all_eq_true.mp List.all_takeWhile x hx
        · have := congrArg List.length (List.takeWhile_append_dropWhile (p := isDigit) (l := t))
          rw [List.length_append] at this
          simp only [List.length_cons]
          omega
      · cases h

/-- A number is at least as long as its numeral. -/
theorem scanUnsigned_spec {neg : Bool} {t r : Text} (h : scanUnsigned neg t = some (v, r)) :
    r <:+ t ∧ v.isLeaf = true ∧ v.weight + r.length ≤ t.length + (if neg then 1 else 0) := by
  obtain ⟨d, hd, h⟩ := Option.map_eq_some_iff.mp h
  obtain ⟨hint, hpos, hlt, hlen⟩ := scanInt_spec (t := t) (r := d.2) hd
  have hfrac := scanFrac_suffix d.2
  have hexp := scanExp_suffix (scanFrac d.2).2
  have h1 := hfrac.length_le
  have h2 := hexp.length_le
  have hr := hexp.trans (hfrac.trans hint)
  simp only at h
  split at h
  · obtain ⟨rfl, rfl⟩ := Prod.mk.inj h
    have hdec := Decimal.length_decimal_le hpos hlt
    have hnum : (numeral (if neg then -(natVal d.1 : Int) else natVal d.1)).length ≤
        d.1.length + if neg then 1 else 0 := by
      cases neg with
      | false =>
        have hneg : ¬ (natVal d.1 : Int) < 0 := by omega
        simp [numeral, hneg, hdec]
      | true =>
        have hsign : (if -(natVal d.1 : Int) < 0 then [45] else ([] : Text)).length ≤ 1 := by
          split <;> simp
        simp only [numeral, if_true, List.length_append, List.length_map, Int.natAbs_neg,
          Int.natAbs_natCast]
        omega
    exact ⟨hr, rfl, by simp only [weight]; omega⟩
  · obtain ⟨rfl, rfl⟩ := Prod.mk.inj h
    exact ⟨hr, rfl, by simp only [weight]; omega⟩

theorem keyword_eq_some {w s t : Text} (h : keyword w s = some t) :
    t <:+ s ∧ w.length + t.length = s.length := by
  unfold keyword at h
  split at h
  · rename_i hw
    have hle := (List.isPrefixOf_iff_prefix.mp hw).length_le
    rw [← Option.some.inj h, List.length_drop]
    exact ⟨List.drop_suffix _ _, by omega⟩
  · cases h

theorem scanScalar_spec {s r : Text} (h : scanScalar s = some (v, r)) :
    r <:+ s ∧ v.isLeaf = true ∧ v.weight + r.length ≤ s.length := by
  unfold scanScalar at h
  split at h
  · rename_i q hq
    obtain rfl := Option.some.inj h
    obtain ⟨w, hw, hk⟩ := List.exists_of_findSome?_eq_some hq
    obtain ⟨t, ht, hwt⟩ := Option.map_eq_some_iff.mp hk
    obtain ⟨rfl, rfl⟩ := Prod.mk.inj hwt
    obtain ⟨hsuf, hlen⟩ := keyword_eq_some ht
    have hword : ∀ w ∈ keywords, w.2.isLeaf = true ∧ w.2.weight ≤ w.1.length := by
      rw [keywords_eq]
      simp [weight, isLeaf]
    obtain ⟨hleaf, hle⟩ := hword w hw
    exact ⟨hsuf, hleaf, by omega⟩
  · unfold scanNumber at h
    split at h
    · rename_i t ht
      have hlen := congrArg List.length (expect_eq_some ht)
      rw [List.length_cons] at hlen
      obtain ⟨hr, hleaf, hle⟩ := scanUnsigned_spec h
      simp only [if_true] at hle
      exact ⟨hr.trans (expect_suffix ht), hleaf, by omega⟩
    · simpa using scanUnsigned_spec h

/-- What reading guarantees of a value, its members or its elements, for a given bound on the depth.
    It leaves what follows in the text, and an object was closed right before that; the text was long
    enough, and one of exactly the least length has no escape. -/
structure Weighs (k : Nat) : Prop where
  value : ∀ {s v r}, value k s = some (v, r) → r <:+ s ∧
    (∃ n, n + r.length = s.length ∧ Fits v n) ∧ ∀ ms, v = .obj ms → 125 :: r <:+ s
  members : ∀ {s m r}, members k s = some (m, r) → 125 :: r <:+ s ∧
    membersWeight m + r.length ≤ s.length ∧
      (membersWeight m + r.length = s.length → PlainMembers m)
  elements : ∀ {s a r}, elements k s = some (a, r) → r <:+ s ∧ r.length + 1 ≤ s.length

theorem value_weight (ih : Weighs k) {r : Text} (h : value (k + 1) s = some (v, r)) :
    r <:+ s ∧ (∃ n, n + r.length = s.length ∧ Fits v n) ∧ ∀ ms, v = .obj ms → 125 :: r <:+ s := by
  cases s with
  | nil => cases h
  | cons c t =>
    have hcons : t <:+ c :: t := List.suffix_cons c t
    have hskip : skipWs t <:+ c :: t := (skipWs_suffix t).trans hcons
    have hws := length_skipWs_le t
    rw [Json.value] at h
    rw [List.length_cons]
    split at h
    · obtain ⟨q, hq, h⟩ := Option.map_eq_some_iff.mp h
      obtain ⟨rfl, rfl⟩ := Prod.mk.inj h
      obtain ⟨hsuf, hle, hplain⟩ := scanChars_spec (s := q.1) (r := q.2) hq
      refine ⟨hsuf.trans hcons, ⟨t.length + 1 - q.2.length, by omega, ?_⟩, by simp⟩
      exact ⟨by simp only [weight]; omega, fun heq => hplain (by simp only [weight] at heq; omega)⟩
    · split at h
      · have hobj : 125 :: r <:+ c :: t ∧ ∃ n, n + r.length = t.length + 1 ∧ Fits v n := by
          split at h
          · rename_i t' ht
            obtain ⟨rfl, rfl⟩ := Prod.mk.inj (Option.some.inj h)
            rw [expect_eq_some ht] at hskip hws
            rw [List.length_cons] at hws
            refine ⟨hskip, t.length + 1 - t'.length, by omega, ?_⟩
            exact ⟨by simp only [membersWeight, List.map_nil, List.sum_nil]; omega,
              fun _ => by simp [PlainMembers]⟩
          · obtain ⟨q, hq, h⟩ := Option.map_eq_some_iff.mp h
            obtain ⟨rfl, rfl⟩ := Prod.mk.inj h
            obtain ⟨hsuf, hle, hplain⟩ := ih.members (m := q.1) (r := q.2) hq
            exact ⟨hsuf.trans hskip, t.length + 1 - q.2.length, by omega, by omega,
              fun heq => hplain (by omega)⟩
        exact ⟨(List.suffix_cons 125 r).trans hobj.1, hobj.2, fun _ _ => hobj.1⟩
      · split at h
        · split at h
          · rename_i t' ht
            obtain ⟨rfl, rfl⟩ := Prod.mk.inj (Option.some.inj h)
            rw [expect_eq_some ht, List.length_cons] at hws
            exact ⟨(expect_suffix ht).trans hskip, ⟨t.length + 1 - t'.length, by omega,
              by simp only [weight]; omega, fun _ => trivial⟩, by simp⟩
          · obtain ⟨q, hq, h⟩ := Option.map_eq_some_iff.mp h
            obtain ⟨rfl, rfl⟩ := Prod.mk.inj h
            obtain ⟨hsuf, hle⟩ := ih.elements (a := q.1) (r := q.2) hq
            exact ⟨hsuf.trans hskip, ⟨t.length + 1 - q.2.length, by omega,
              by simp only [weight]; omega, fun _ => trivial⟩, by simp⟩
        · obtain ⟨hsuf, hleaf, hle⟩ := scanScalar_spec h
          rw [List.length_cons] at hle
          refine ⟨hsuf, ⟨t.length + 1 - r.length, by omega, fits_leaf hleaf (by omega)⟩, ?_⟩
          rintro ms rfl
          cases hleaf

variable {ms : List (Text × Json)}

theorem members_weight (ih : Weighs k) {r : Text} (h : members (k + 1) s = some (ms, r)) :
    125 :: r <:+ s ∧ membersWeight ms + r.length ≤ s.length ∧
      (membersWeight ms + r.length = s.length → PlainMembers ms) := by
  unfold Json.members at h
  obtain ⟨t1, h1, h⟩ := Option.bind_eq_some_iff.mp h
  obtain ⟨key, hkey, h⟩ := Option.bind_eq_some_iff.mp h
  obtain ⟨t2, h2, h⟩ := Option.bind_eq_some_iff.mp h
  obtain ⟨v, hv, h⟩ := Option.bind_eq_some_iff.mp h
  obtain ⟨hksuf, hkeyle, hkeyp⟩ := scanChars_spec (s := key.1) (r := key.2) hkey
  obtain ⟨hvsuf, ⟨n, hn, hfits⟩, -⟩ := ih.value (v := v.1) (r := v.2) hv
  obtain ⟨hvle, hvp⟩ := hfits.weight_le
  have hskip : skipWs v.2 <:+ s :=
    (skipWs_suffix _).trans (hvsuf.trans ((skipWs_suffix _).trans ((expect_suffix h2).trans
      ((skipWs_suffix _).trans (hksuf.trans (expect_suffix h1))))))
  have hlen1 := congrArg List.length (expect_eq_some h1)
  have hlen2 := congrArg List.length (expect_eq_some h2)
  rw [List.length_cons] at hlen1 hlen2
  have hws1 := length_skipWs_le key.2
  have hws2 := length_skipWs_le t2
  have hws3 := length_skipWs_le v.2
  split at h
  · rename_i t3 h3
    obtain ⟨rfl, rfl⟩ := Prod.mk.inj (Option.some.inj h)
    rw [expect_eq_some h3] at hskip hws3
    rw [List.length_cons] at hws3
    simp only [membersWeight, List.map_cons, List.map_nil, List.sum_cons, List.sum_nil]
    refine ⟨hskip, by omega, fun heq m hm => ?_⟩
    obtain rfl := List.mem_singleton.mp hm
    exact ⟨hkeyp (by omega), hvp (by omega)⟩
  · obtain ⟨t3, h3, h⟩ := Option.bind_eq_some_iff.mp h
    obtain ⟨q, hq, h⟩ := Option.map_eq_some_iff.mp h
    obtain ⟨rfl, rfl⟩ := Prod.mk.inj h
    rw [expect_eq_some h3, List.length_cons] at hws3
    have hws4 := length_skipWs_le t3
    obtain ⟨hqsuf, hqle, hqp⟩ := ih.members (m := q.1) (r := q.2) hq
    have hsum : membersWeight ((key.1, v.1) :: q.1) =
        key.1.length + v.1.weight + 4 + membersWeight q.1 := rfl
    rw [hsum]
    refine ⟨hqsuf.trans ((skipWs_suffix _).trans ((expect_suffix h3).trans hskip)), by omega,
      fun heq m hm => ?_⟩
    rcases List.mem_cons.mp hm with rfl | hm
    · exact ⟨hkeyp (by omega), hvp (by omega)⟩
    · exact hqp (by omega) m hm

theorem elements_weight (ih : Weighs k) {xs : List Json} {r : Text}
    (h : elements (k + 1) s = some (xs, r)) : r <:+ s ∧ r.length + 1 ≤ s.length := by
  unfold Json.elements at h
  obtain ⟨v, hv, h⟩ := Option.bind_eq_some_iff.mp h
  have hskip : skipWs v.2 <:+ s :=
    (skipWs_suffix _).trans (ih.value (v := v.1) (r := v.2) hv).1
  have hle := hskip.length_le
  split at h
  · rename_i t ht
    obtain ⟨-, rfl⟩ := Prod.mk.inj (Option.some.inj h)
    rw [expect_eq_some ht] at hle
    exact ⟨(expect_suffix ht).trans hskip, hle⟩
  · obtain ⟨t, ht, h⟩ := Option.bind_eq_some_iff.mp h
    obtain ⟨q, hq, h⟩ := Option.map_eq_some_iff.mp h
    obtain ⟨-, rfl⟩ := Prod.mk.inj h
    have hrest := (ih.elements (a := q.1) (r := q.2) hq).1.trans (skipWs_suffix t)
    have hrest' := hrest.length_le
    rw [expect_eq_some ht, List.length_cons] at hle
    exact ⟨hrest.trans ((expect_suffix ht).trans hskip), by omega⟩

theorem weighs (k : Nat) : Weighs k := by
  induction k with
  | zero => exact ⟨fun h => by simp [Json.value] at h, fun h => by simp [Json.members] at h,
      fun h => by simp [Json.elements] at h⟩
  | succ k ih => exact ⟨value_weight ih, members_weight ih, elements_weight ih⟩

/-- **No line is shorter.**  A text that is read as an object is at least as long as its members
    printed without whitespace or escapes, and one of exactly that length has none.  Blanks at its
    end do not count: an object ends with its brace. -/
theorem loads_weight {s w : Text} (hw : ∀ c ∈ w, isWs c = true)
    (h : loads (s ++ w) = some (.obj ms)) :
    membersWeight ms + 1 ≤ s.length ∧ (membersWeight ms + 1 = s.length → PlainMembers ms) := by
  unfold loads at h
  split at h
  · cases h
  obtain ⟨q, hq, h⟩ := Option.bind_eq_some_iff.mp h
  split at h
  · have hv : q.1 = .obj ms := Option.some.inj h
    obtain ⟨-, ⟨n, hn, hfits⟩, hlast⟩ := (weighs _).value (v := q.1) (r := q.2) hq
    rw [hv] at hfits
    obtain ⟨hle, hplain⟩ := hfits
    have hrest : w.length ≤ q.2.length := by
      by_contra hlt
      have hin : 125 :: q.2 <:+ w := List.suffix_of_suffix_length_le
        ((hlast ms hv).trans (skipWs_suffix _)) (List.suffix_append s w)
        (by rw [List.length_cons]; omega)
      exact absurd (hw 125 (hin.subset List.mem_cons_self)) (by decide)
    have hws := length_skipWs_le (s ++ w)
    rw [List.length_append] at hws
    exact ⟨by omega, fun heq => hplain (by omega)⟩
  · cases h

/-- The least length of a record is the length it is printed in. -/
theorem membersWeight_record (hne : r ≠ []) :
    membersWeight (r.map fun m => (m.1, m.2.toJson)) + 1 = r.render.length := by
  have hscalar : ∀ v : Scalar, v.toJson.weight = v.render.length := by
    rintro (n | b | s)
    · rfl
    · cases b <;> rfl
    · simp [Scalar.toJson, weight, Scalar.render]
  have hmembers : ∀ r : Record, r ≠ [] →
      membersWeight (r.map fun m => (m.1, m.2.toJson)) = (renderMembers r).length := by
    intro r
    induction r with
    | nil => exact fun h => absurd rfl h
    | cons m r ih =>
      intro _
      cases r with
      | nil =>
        simp [membersWeight, renderMembers, renderMember, hscalar]
        omega
      | cons m' r =>
        have ih' := ih (List.cons_ne_nil _ _)
        rw [renderMembers, List.length_append, List.length_cons, ← ih']
        simp [membersWeight, renderMember, hscalar]
        omega
  rw [hmembers r hne, Record.render, List.length_cons]

theorem mem_of_get {key : Text} (h : (Json.obj ms).get key = some v) : (key, v) ∈ ms := by
  obtain ⟨m, hm, rfl⟩ := Option.map_eq_some_iff.mp h
  have hkey : m.1 = key := by simpa using List.find?_some hm
  rw [← hkey]
  exact List.mem_reverse.mp (List.mem_of_find?_eq_some hm)

/-- A record with distinct keys gives each of its fields back. -/
theorem get_toJson (hnd : (r.map (·.1)).Nodup) {m : Text × Scalar} (hm : m ∈ r) :
    r.toJson.get m.1 = some m.2.toJson := by
  have hin : (m.1, m.2.toJson) ∈ r.map fun m => (m.1, m.2.toJson) := List.mem_map_of_mem hm
  obtain ⟨v, hv⟩ : ∃ v, r.toJson.get m.1 = some v := by
    refine Option.isSome_iff_exists.mp ?_
    rw [Record.toJson, get, Option.isSome_map, List.find?_isSome]
    exact ⟨_, List.mem_reverse.mpr hin, by simp⟩
  obtain ⟨m', hm', heq⟩ := List.mem_map.mp (mem_of_get hv)
  obtain ⟨hkey, rfl⟩ := Prod.mk.inj heq
  rw [hv, List.inj_on_of_nodup_map hnd hm' hm hkey]

/-- **What a line must be to carry a record.**  A text that is read as an object with the fields of
    `r` is at least as long as `r` printed, and if it is no longer then no key and no string of `r`
    needs an escape.  Blanks at its end do not count. -/
theorem loads_record {s w : Text} {j : Json} (hw : ∀ c ∈ w, isWs c = true)
    (h : loads (s ++ w) = some j) (hne : r ≠ []) (hnd : (r.map (·.1)).Nodup)
    (hget : ∀ m ∈ r, j.get m.1 = some m.2.toJson) :
    r.render.length ≤ s.length ∧ (r.render.length = s.length → r.Plain) := by
  obtain ⟨ms, rfl⟩ : ∃ ms, j = .obj ms := by
    obtain ⟨m, r', rfl⟩ := List.exists_cons_of_ne_nil hne
    have hm := hget m List.mem_cons_self
    cases j with
    | obj ms => exact ⟨ms, rfl⟩
    | _ => cases hm
  have hmem : ∀ m ∈ r, (m.1, m.2.toJson) ∈ ms := fun m hm => mem_of_get (hget m hm)
  have hnodup : (r.map fun m => (m.1, m.2.toJson)).Nodup := by
    refine List.Nodup.of_map (fun m => m.1) ?_
    rwa [List.map_map]
  have hsub : (r.map fun m => (m.1, m.2.toJson)) ⊆ ms := by
    intro x hx
    obtain ⟨m, hm, rfl⟩ := List.mem_map.mp hx
    exact hmem m hm
  have hle : membersWeight (r.map fun m => (m.1, m.2.toJson)) ≤ membersWeight ms := by
    obtain ⟨l, hperm, hl⟩ := List.subperm_of_subset hnodup hsub
    rw [membersWeight, ← (hperm.map _).sum_eq]
    exact (hl.map _).sum_le_sum (by simp)
  have hlen := membersWeight_record hne
  obtain ⟨hlong, hplain⟩ := loads_weight hw h
  refine ⟨by omega, fun heq m hm => ?_⟩
  obtain ⟨hkey, hval⟩ := hplain (by omega) _ (hmem m hm)
  refine ⟨hkey, ?_⟩
  cases hv : m.2 with
  | str x => rwa [hv] at hval
  | _ => trivial

end Json

end Nishro

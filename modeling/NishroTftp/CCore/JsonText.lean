import NishroTftp.CCore.Json
import NishroTftp.Lib.Dict
/-
  JSON texts and the trees `json.c` builds of them.

  `JsonText s v` says that the bytes `s` are a text of the tree `v`, with any white space between the
  tokens and any escapes in the strings; a string and a key are kept raw.  The lists in brackets and
  braces are texts of their own, so one relation has three kinds of items and one induction goes
  over all of them (`JsonText.reads`).  What is carried through it besides the result is how a text
  opens: the parser looks at the first byte behind a bracket to see whether the list is empty.
-/
namespace Nishro.CCore

open Nishro.Decimal

/-- White space between two tokens. -/
def Blank (w : Bytes) : Prop := ∀ c ∈ w, isWs c = true

/-- The bytes between the quotes of a string: a quote or a backslash stands behind a backslash. -/
inductive RawString : Bytes → Prop
  | nil : RawString []
  | plain {b : UInt8} {s : Bytes} (hb : b ≠ 34 ∧ b ≠ 92) (h : RawString s) : RawString (b :: s)
  | escape (b : UInt8) {s : Bytes} (h : RawString s) : RawString (92 :: b :: s)

/-- The bytes of a numeral. -/
def NumeralBytes (token : Bytes) : Prop :=
  (∃ c t, token = c :: t ∧ (c = 45 ∨ isDigit c = true)) ∧ ∀ b ∈ token, isNumChar b = true

/-- A number as `json.c` keeps it. -/
def numNode (token : Bytes) : JsonNode := .num token (strtod (token.take NUM_TOKEN))

/-- What a text can be of: a value, bare or with white space around it, or what stands between
    brackets or braces. -/
inductive Item
  | value (v : JsonNode)
  | padded (v : JsonNode)
  | elements (xs : List JsonNode)
  | members (ms : List (Bytes × JsonNode))

inductive JsonText : Bytes → Item → Prop
  | null : JsonText (ascii "null") (.value .null)
  | bool (b : Bool) : JsonText (ascii (if b then "true" else "false")) (.value (.bool b))
  | num {token : Bytes} (h : NumeralBytes token) : JsonText token (.value (numNode token))
  | str {src : Bytes} (h : RawString src) : JsonText (34 :: (src ++ [34])) (.value (.str src))
  | noElements {w : Bytes} (hw : Blank w) : JsonText (91 :: (w ++ [93])) (.value (.arr []))
  | arr {s : Bytes} {xs : List JsonNode} (h : JsonText s (.elements xs)) :
      JsonText (91 :: (s ++ [93])) (.value (.arr xs))
  | noMembers {w : Bytes} (hw : Blank w) : JsonText (123 :: (w ++ [125])) (.value (.obj []))
  | obj {s : Bytes} {ms : List (Bytes × JsonNode)} (h : JsonText s (.members ms)) :
      JsonText (123 :: (s ++ [125])) (.value (.obj ms))
  | pad {w s w' : Bytes} {v : JsonNode} (hw : Blank w) (hw' : Blank w') (h : JsonText s (.value v)) :
      JsonText (w ++ (s ++ w')) (.padded v)
  | element {s : Bytes} {v : JsonNode} (h : JsonText s (.padded v)) : JsonText s (.elements [v])
  | elements {s t : Bytes} {v : JsonNode} {xs : List JsonNode} (h : JsonText s (.padded v))
      (ht : JsonText t (.elements xs)) : JsonText (s ++ 44 :: t) (.elements (v :: xs))
  | member {w key w' s : Bytes} {v : JsonNode} (hw : Blank w) (hkey : RawString key) (hw' : Blank w')
      (h : JsonText s (.padded v)) :
      JsonText (w ++ 34 :: (key ++ 34 :: (w' ++ 58 :: s))) (.members [(key, v)])
  | members {w key w' s t : Bytes} {v : JsonNode} {ms : List (Bytes × JsonNode)} (hw : Blank w)
      (hkey : RawString key) (hw' : Blank w') (h : JsonText s (.padded v))
      (ht : JsonText t (.members ms)) :
      JsonText (w ++ 34 :: (key ++ 34 :: (w' ++ 58 :: (s ++ 44 :: t)))) (.members ((key, v) :: ms))

/-! ## Tokens -/

section Tokens

variable {c : UInt8} {s t w r : Bytes} {v : JsonNode}

theorem skipWs_of_not (h : isWs c = false) (t : Bytes) : skipWs (c :: t) = c :: t := by
  simp [skipWs, h]

theorem skipWs_blank (hw : Blank w) (s : Bytes) : skipWs (w ++ s) = skipWs s :=
  List.dropWhile_append_of_pos hw

theorem scanRaw_quote (r : Bytes) : scanRaw (34 :: r) = .ok ([], r) := by
  cases r <;> rfl

theorem scanRaw_escape (b : UInt8) (r : Bytes) :
    scanRaw (92 :: b :: r) = (scanRaw r).map fun p => (92 :: b :: p.1, p.2) := by
  rw [scanRaw, if_neg (by decide), if_pos rfl]

theorem scanRaw_plain {b : UInt8} (h : b ≠ 34 ∧ b ≠ 92) (r : Bytes) :
    scanRaw (b :: r) = (scanRaw r).map fun p => (b :: p.1, p.2) := by
  cases r with
  | nil => simp [scanRaw, h, Except.map]
  | cons d t => rw [scanRaw, if_neg h.1, if_neg h.2]

/-- A string is read up to its closing quote. -/
theorem RawString.scan (h : RawString s) (r : Bytes) : scanRaw (s ++ 34 :: r) = .ok (s, r) := by
  induction h with
  | nil => exact scanRaw_quote r
  | plain hb _ ih =>
    rw [List.cons_append, scanRaw_plain hb, ih]
    rfl
  | escape b _ ih =>
    rw [List.cons_append, List.cons_append, scanRaw_escape, ih]
    rfl

/-- What follows a value: nothing that could belong to a number. -/
def Ends (r : Bytes) : Prop := ∀ c t, r = c :: t → isNumChar c = false

theorem ends_cons (h : isNumChar c = false) (r : Bytes) : Ends (c :: r) := stops_cons h r

theorem ends_nil : Ends [] := stops_nil isNumChar

theorem ends_ws (hc : isWs c = true) (r : Bytes) : Ends (c :: r) := by
  refine ends_cons ?_ r
  simp only [isWs, Bool.or_eq_true, beq_iff_eq] at hc
  rcases hc with ((rfl | rfl) | rfl) | rfl <;> decide

theorem ends_blank (hw : Blank w) (hr : Ends r) : Ends (w ++ r) := by
  cases w with
  | nil => exact hr
  | cons c w => exact ends_ws (hw c List.mem_cons_self) (w ++ r)

/-- A sign is one of the bytes the loop goes over, so the whole token is one span. -/
theorem parseNumber_span (hc : isNumChar c = true) (t : Bytes) :
    parseNumber (c :: t) =
      (numNode ((c :: t).takeWhile isNumChar), (c :: t).dropWhile isNumChar) := by
  unfold parseNumber
  rw [List.takeWhile_cons_of_pos hc, List.dropWhile_cons_of_pos hc]
  by_cases hsign : c = 45 ∨ c = 43
  · simp [hsign, numNode]
  · simp [hsign, numNode, List.takeWhile_cons_of_pos hc, List.dropWhile_cons_of_pos hc]

theorem parseNumber_token {token : Bytes} (h : NumeralBytes token) (hr : Ends r) :
    parseNumber (token ++ r) = (numNode token, r) := by
  obtain ⟨⟨c, t, rfl, -⟩, hall⟩ := h
  have hsplit := span_stops hall hr
  rw [List.cons_append] at hsplit ⊢
  rw [parseNumber_span (hall c (by simp)), hsplit.1, hsplit.2]

/-- The first byte of a numeral differs from every byte that is neither a digit nor a minus. -/
theorem lead_ne {d : UInt8} (hc : c = 45 ∨ isDigit c = true) (hd : d ≠ 45 ∧ isDigit d = false) :
    c ≠ d := by
  rintro rfl
  rcases hc with h | h
  · exact hd.1 h
  · exact absurd h (by simp [hd.2])

theorem lead_not_ws (hc : c = 45 ∨ isDigit c = true) : isWs c = false := by
  simp [isWs, lead_ne (d := 32) hc (by decide), lead_ne (d := 9) hc (by decide),
    lead_ne (d := 10) hc (by decide), lead_ne (d := 13) hc (by decide)]

/-- A number, on its first byte. -/
theorem parseValue_token {token : Bytes} (h : NumeralBytes token) (hr : Ends r) (k : Nat) :
    parseValue (k + 1) (token ++ r) = .ok (numNode token, r) := by
  have hnum := parseNumber_token h hr
  obtain ⟨⟨c, t, rfl, hc⟩, -⟩ := h
  have hne := fun d => lead_ne (d := d) hc
  have hword : parseWord (c :: (t ++ r)) = none := by
    simp [parseWord, ascii, List.isPrefixOf, (hne 116 (by decide)).symm,
      (hne 102 (by decide)).symm, (hne 110 (by decide)).symm]
  have hlead : c = 45 ∨ c = 43 ∨ isDigit c = true := hc.imp_right .inr
  rw [List.cons_append] at hnum ⊢
  rw [parseValue, skipWs_of_not (lead_not_ws hc)]
  simp only [hne 123 (by decide), hne 91 (by decide), hne 34 (by decide), if_false, hword, hlead,
    if_true, hnum]

end Tokens

/-! ## Items -/

section Items

variable {c : UInt8} {s w r : Bytes} {v : JsonNode} {k : Nat} {i : Item}

/-- The first byte behind the white space does not close a list. -/
def Opens (s : Bytes) : Prop :=
  ∃ w c t, s = w ++ c :: t ∧ Blank w ∧ isWs c = false ∧ c ≠ 93 ∧ c ≠ 125

theorem opens_of_lead (t : Bytes) (h : isWs c = false ∧ c ≠ 93 ∧ c ≠ 125) : Opens (c :: t) :=
  ⟨[], c, t, rfl, nofun, h⟩

theorem Opens.append (h : Opens s) (r : Bytes) : Opens (s ++ r) := by
  obtain ⟨w, c, t, rfl, hw, hc⟩ := h
  exact ⟨w, c, t ++ r, by simp, hw, hc⟩

theorem Opens.blank (hw : Blank w) (h : Opens s) : Opens (w ++ s) := by
  obtain ⟨w', c, t, rfl, hw', hc⟩ := h
  refine ⟨w ++ w', c, t, by simp, fun b hb => ?_, hc⟩
  exact (List.mem_append.1 hb).elim (hw b) (hw' b)

theorem JsonText.opens (h : JsonText s i) : Opens s := by
  induction h with
  | null => exact opens_of_lead _ (by decide)
  | bool b => cases b <;> exact opens_of_lead _ (by decide)
  | num h =>
    obtain ⟨⟨c, t, rfl, hc⟩, -⟩ := h
    exact opens_of_lead t ⟨lead_not_ws hc, lead_ne hc (by decide), lead_ne hc (by decide)⟩
  | str | noElements | arr | noMembers | obj => exact opens_of_lead _ (by decide)
  | pad hw _ _ ih => exact (ih.append _).blank hw
  | element _ ih => exact ih
  | elements _ _ ih => exact ih.append _
  | member hw | members hw => exact (opens_of_lead _ (by decide)).blank hw

/-- White space in front of a value is skipped. -/
theorem parseValue_blank (hw : Blank w) (k : Nat) (s : Bytes) :
    parseValue k (w ++ s) = parseValue k s := by
  cases k with
  | zero => rfl
  | succ k => rw [parseValue, parseValue, skipWs_blank hw]

/-- What the parser makes of a text, with a unit of fuel for every byte. -/
def Reads (s : Bytes) : Item → Prop
  | .value v => ∀ k r, s.length ≤ k + 1 → Ends r → parseValue (k + 1) (s ++ r) = .ok (v, r)
  | .padded v => ∀ k c r, s.length ≤ k → isWs c = false → isNumChar c = false →
      ∃ x, parseValue k (s ++ c :: r) = .ok (v, x) ∧ skipWs x = c :: r
  | .elements xs => ∀ k r, s.length ≤ k → parseElements (k + 1) (s ++ 93 :: r) = .ok (xs, r)
  | .members ms => ∀ k r, s.length ≤ k → parseMembers (k + 1) (s ++ 125 :: r) = .ok (ms, r)

theorem Opens.skip (h : Opens s) (r : Bytes) : ∃ c t, skipWs (s ++ r) = c :: t ∧ c ≠ 93 ∧ c ≠ 125 := by
  obtain ⟨w, c, t, rfl, hw, hws, hc⟩ := h
  refine ⟨c, t ++ r, ?_, hc⟩
  rw [List.append_assoc, skipWs_blank hw, List.cons_append, skipWs_of_not hws]

/-- A list that opens is not empty. -/
theorem parseValue_arr (h : Opens s) (k : Nat) (r : Bytes) :
    parseValue (k + 1) (91 :: (s ++ r)) =
      (parseElements k (s ++ r)).map fun x => (.arr x.1, x.2) := by
  obtain ⟨c, t, hskip, hc, -⟩ := h.skip r
  rw [parseValue, skipWs_of_not (by decide)]
  simp only [show (91 : UInt8) ≠ 123 by decide, if_false, if_true, hskip]
  split
  · next heq => exact absurd (List.cons.inj heq).1 hc
  · rfl

theorem parseValue_obj (h : Opens s) (k : Nat) (r : Bytes) :
    parseValue (k + 1) (123 :: (s ++ r)) =
      (parseMembers k (s ++ r)).map fun x => (.obj x.1, x.2) := by
  obtain ⟨c, t, hskip, -, hc⟩ := h.skip r
  rw [parseValue, skipWs_of_not (by decide)]
  simp only [if_true, hskip]
  split
  · next heq => exact absurd (List.cons.inj heq).1 hc
  · rfl

/-- One round of the loop of `parse_object`, up to what follows the value. -/
theorem parseMembers_step {key w' x : Bytes} (hw : Blank w) (hkey : RawString key) (hw' : Blank w')
    (hv : parseValue k s = .ok (v, x)) :
    parseMembers (k + 1) (w ++ 34 :: (key ++ 34 :: (w' ++ 58 :: s))) =
      match skipWs x with
      | [] => .error .objectEof
      | 44 :: r => (parseMembers k r).map fun m => ((key, v) :: m.1, m.2)
      | 125 :: r => .ok ([(key, v)], r)
      | _ => .error .expectedCommaBrace := by
  have hname : parseStringRaw (skipWs (w ++ 34 :: (key ++ 34 :: (w' ++ 58 :: s)))) =
      .ok (key, w' ++ 58 :: s) := by
    rw [skipWs_blank hw, skipWs_of_not (by decide)]
    exact hkey.scan _
  have hcolon : skipWs (w' ++ 58 :: s) = 58 :: s := by
    rw [skipWs_blank hw', skipWs_of_not (by decide)]
  rw [parseMembers, hname]
  simp only [hcolon, hv] <;> rfl

/-- **The parser reads every text.** -/
theorem JsonText.reads (h : JsonText s i) : Reads s i := by
  induction h with
  | null => exact fun k r _ _ => rfl
  | bool b => cases b <;> exact fun k r _ _ => rfl
  | num h => exact fun k r _ hr => parseValue_token h hr k
  | str h =>
    intro k r _ _
    rw [List.cons_append, List.append_assoc, parseValue, skipWs_of_not (by decide)]
    simp [h.scan, Except.map]
  | noElements hw =>
    intro k r _ _
    rw [List.cons_append, List.append_assoc, parseValue, skipWs_of_not (by decide)]
    simp [skipWs_blank hw, skipWs_of_not (show isWs 93 = false by decide)]
  | arr h ih =>
    intro k r hk _
    simp only [List.length_cons, List.length_append, List.length_nil] at hk
    obtain ⟨k, rfl⟩ : ∃ n, k = n + 1 := ⟨k - 1, by omega⟩
    rw [List.cons_append, List.append_assoc, parseValue_arr h.opens, List.singleton_append,
      ih k r (by omega)]
    rfl
  | noMembers hw =>
    intro k r _ _
    rw [List.cons_append, List.append_assoc, parseValue, skipWs_of_not (by decide)]
    simp [skipWs_blank hw, skipWs_of_not (show isWs 125 = false by decide)]
  | obj h ih =>
    intro k r hk _
    simp only [List.length_cons, List.length_append, List.length_nil] at hk
    obtain ⟨k, rfl⟩ : ∃ n, k = n + 1 := ⟨k - 1, by omega⟩
    rw [List.cons_append, List.append_assoc, parseValue_obj h.opens, List.singleton_append,
      ih k r (by omega)]
    rfl
  | @pad w s w' v hw hw' h ih =>
    intro k c r hk hws hnum
    obtain ⟨w₀, c₀, t₀, rfl, -⟩ := h.opens
    simp only [List.length_append, List.length_cons] at hk
    obtain ⟨k, rfl⟩ : ∃ n, k = n + 1 := ⟨k - 1, by omega⟩
    refine ⟨w' ++ c :: r, ?_, by rw [skipWs_blank hw', skipWs_of_not hws]⟩
    rw [List.append_assoc, List.append_assoc, parseValue_blank hw]
    exact ih k _ (by simp only [List.length_append, List.length_cons]; omega)
      (ends_blank hw' (ends_cons hnum r))
  | element h ih =>
    intro k r hk
    obtain ⟨x, hx, hskip⟩ := ih k 93 r hk (by decide) (by decide)
    rw [parseElements, hx]
    simp only [hskip]
  | @elements s t v xs h ht ih iht =>
    intro k r hk
    simp only [List.length_append, List.length_cons] at hk
    obtain ⟨x, hx, hskip⟩ := ih k 44 (t ++ 93 :: r) (by omega) (by decide) (by decide)
    obtain ⟨k, rfl⟩ : ∃ n, k = n + 1 := ⟨k - 1, by omega⟩
    rw [List.append_assoc, List.cons_append, parseElements, hx]
    simp only [hskip, iht k r (by omega)]
    rfl
  | member hw hkey hw' h ih =>
    intro k r hk
    simp only [List.length_append, List.length_cons] at hk
    obtain ⟨x, hx, hskip⟩ := ih k 125 r (by omega) (by decide) (by decide)
    simp only [List.append_assoc, List.cons_append]
    rw [parseMembers_step hw hkey hw' hx, hskip]
    rfl
  | @members w key w' s t v ms hw hkey hw' h ht ih iht =>
    intro k r hk
    simp only [List.length_append, List.length_cons] at hk
    obtain ⟨x, hx, hskip⟩ := ih k 44 (t ++ 125 :: r) (by omega) (by decide) (by decide)
    obtain ⟨k, rfl⟩ : ∃ n, k = n + 1 := ⟨k - 1, by omega⟩
    simp only [List.append_assoc, List.cons_append]
    rw [parseMembers_step hw hkey hw' hx, hskip]
    simp only [iht k r (by omega)]
    rfl

/-- The whole document: white space around it, and behind that anything. -/
theorem JsonText.parsed (h : JsonText s (.value v)) (hw : Blank w) (hr : Ends r) :
    jsonParse (w ++ (s ++ r)) = .ok v := by
  have hread := h.reads (2 * (w ++ (s ++ r)).length) r
    (by simp only [List.length_append]; omega) hr
  rw [jsonParse, parseValue_blank hw, hread]
  rfl

end Items

/-! ## Integers -/

/-- The token of a plain decimal integer. -/
def plainInt (neg : Bool) (m : Nat) : Bytes := (if neg then [45] else []) ++ decimal m

/-- What `strtod` makes of a decimal numeral, with or without a minus sign. -/
theorem strtod_plainInt (neg : Bool) (m : Nat) :
    strtod (plainInt neg m) = ⟨neg, Binary64.ofDecimal m 0⟩ := by
  obtain ⟨d, ds, hds⟩ := List.exists_cons_of_ne_nil (decimal_ne_nil m)
  have hdigits := decimal_digits m
  obtain ⟨htake, hdrop⟩ := span_all hdigits
  have hlead : d ≠ 45 ∧ d ≠ 43 := by
    have hd : isDigit d = true := hdigits d (by simp [hds])
    constructor <;> rintro rfl <;> exact absurd hd (by decide)
  cases neg with
  | true =>
    simp [plainInt, strtod, htake, hdrop, fraction, exponent, decimal_ne_nil]
  | false =>
    have hhead : (decimal m).head? = some d := by rw [hds]; rfl
    simp [plainInt, strtod, hhead, hlead.1, hlead.2, htake, hdrop, fraction, exponent,
      decimal_ne_nil]

theorem numeralBytes_plainInt (neg : Bool) (m : Nat) : NumeralBytes (plainInt neg m) := by
  obtain ⟨d, ds, hds⟩ := List.exists_cons_of_ne_nil (decimal_ne_nil m)
  have hdigits := decimal_digits m
  have hnum : ∀ b ∈ decimal m, isNumChar b = true := by
    intro b hb
    simp [isNumChar, hdigits b hb]
  cases neg with
  | true =>
    refine ⟨⟨45, _, rfl, .inl rfl⟩, fun b hb => ?_⟩
    rcases List.mem_cons.1 hb with rfl | hb
    · rfl
    · exact hnum b hb
  | false => exact ⟨⟨d, ds, hds, .inr (hdigits d (by simp [hds]))⟩, hnum⟩

theorem take_plainInt (neg : Bool) {m : Nat} (h : m < 2 ^ 64) :
    (plainInt neg m).take NUM_TOKEN = plainInt neg m := by
  have hlen : (decimal m).length ≤ 20 := length_decimal_le (by decide) (Nat.lt_trans h (by decide))
  refine List.take_of_length_le ?_
  rw [plainInt, List.length_append, NUM_TOKEN]
  split
  · rw [List.length_singleton]
    omega
  · rw [List.length_nil]
    omega

/-- An integer below 2 ^ 53 is the `double` its node holds. -/
theorem numNode_plainInt (neg : Bool) {m : Nat} (h : m < 2 ^ 53) :
    ∃ x, numNode (plainInt neg m) = .num (plainInt neg m) ⟨neg, some x⟩ ∧ x.IsNat m := by
  obtain ⟨x, hx, hnat⟩ := Binary64.ofDecimal_isNat h
  refine ⟨x, ?_, hnat⟩
  rw [numNode, take_plainInt neg (Nat.lt_trans h (by decide)), strtod_plainInt, hx]

/-! ## Documents -/

/-- **`json_parse` reads back every document.**  White space around it and, behind a white-space byte,
    anything else does not change what is read.  An integer below 2 ^ 53 is read as itself, and
    `jn_field` finds the member with that key. -/
theorem jsonParse_reads_back :
    (∀ w s v, Blank w → JsonText s (.value v) → jsonParse (w ++ s) = .ok v ∧
      ∀ c r, isWs c = true → jsonParse (w ++ (s ++ c :: r)) = .ok v) ∧
    (∀ neg, ∀ m < 2 ^ 53, ∃ x, x.IsNat m ∧
      JsonText (plainInt neg m) (.value (.num (plainInt neg m) ⟨neg, some x⟩))) ∧
    ∀ ms : List (Bytes × JsonNode), (ms.map (·.1)).Nodup → ∀ key v,
      jnField (.obj ms) key = some v ↔ (ascii key, v) ∈ ms := by
  refine ⟨fun w s v hw h => ⟨?_, fun c r hc => ?_⟩, fun neg m hm => ?_, fun ms hms key v => ?_⟩
  · have hparse := h.parsed hw ends_nil
    rwa [List.append_nil] at hparse
  · exact h.parsed hw (ends_ws hc r)
  · obtain ⟨x, hnode, hnat⟩ := numNode_plainInt neg hm
    exact ⟨x, hnat, hnode ▸ .num (numeralBytes_plainInt neg m)⟩
  · exact ⟨Dict.mem_of_lookup, Dict.lookup_of_mem hms⟩

end Nishro.CCore

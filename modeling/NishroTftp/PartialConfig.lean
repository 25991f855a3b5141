import NishroTftp.ConfigFields
/-
  Messages that do not name every field.

  What a message is to do is `Keeps`: a field whose key is not there stays, and one whose key is there
  with a value of its type takes that value.  `Gives` says what value that is, in terms of the JSON
  text and not of the code: a string in the escapes of `json.h` that fits the buffer, an integer in the
  range of the field, the text of an address.

  `partial_config_iff` is the exact condition: no field that the message resets differs from the
  constant it is reset to, and no size is an integer that a `double` has no room for.
-/
namespace Nishro

open Nishro.CCore
open Nishro.Utf8 (text)
open Nishro.Decimal (decimal)

/-! ## What a JSON value means for a field -/

/-- The byte an escape stands for; `json.h` knows these six. -/
def escapeByte (e : UInt8) : Option UInt8 :=
  if e = 110 then some 10
  else if e = 114 then some 13
  else if e = 116 then some 9
  else if e = 34 ∨ e = 92 ∨ e = 47 then some e
  else none

/-- The text between the quotes. -/
def unquote : Bytes → Option Bytes
  | [] => some []
  | [c] => if c = 92 then none else some [c]
  | c :: e :: t =>
    if c = 92 then (escapeByte e).bind fun b => (unquote t).map (b :: ·)
    else (unquote (e :: t)).map (c :: ·)

/-- The text of an address. -/
def dottedQuad (a b c d : Nat) : Bytes :=
  decimal a ++ 46 :: (decimal b ++ 46 :: (decimal c ++ 46 :: decimal d))

/-- Pairs of hexadecimal digits with the byte `sep` between them. -/
def hexPairs (sep : UInt8) : List (UInt8 × UInt8) → Bytes
  | [] => []
  | [(h, l)] => [h, l]
  | (h, l) :: p :: ps => h :: l :: sep :: hexPairs sep (p :: ps)

def pairValue (p : UInt8 × UInt8) : Nat := (hexValue p.1).getD 0 * 16 + (hexValue p.2).getD 0

/-- The names of the levels. -/
def levelNames : List (Bytes × Nat) :=
  [(ascii "debug", LOG_DEBUG), (ascii "info", LOG_INFO), (ascii "warn", LOG_WARN),
    (ascii "error", LOG_ERROR)]

/-- The value that a JSON value of the right type gives a field of a kind. -/
inductive Gives : FieldKind → JsonNode → FieldValue → Prop
  | text {cap : Nat} {src bs : Bytes} (hsrc : unquote src = some bs) (hfit : bs.length < cap)
      (hnul : 0 ∉ bs) : Gives (.text cap) (.str src) (.text bs)
  | flag {dflt b : Bool} : Gives (.flag dflt) (.bool b) (.flag b)
  | number {bits dflt n : Nat} (hn : n < 2 ^ bits) :
      Gives (.number bits dflt) (numNode (decimal n)) (.num n)
  | limit {n : Nat} (hn : n < 2 ^ 32) : Gives .limit (numNode (decimal n)) (.num n)
  | address {src : Bytes} {a b c d : Nat} (hsrc : unquote src = some (dottedQuad a b c d))
      (ha : a < 256) (hb : b < 256) (hc : c < 256) (hd : d < 256) :
      Gives .address (.str src) (.num (((a * 256 + b) * 256 + c) * 256 + d))
  | hardware {src : Bytes} {sep : UInt8} {ps : Vector (UInt8 × UInt8) 6}
      (hsrc : unquote src = some (hexPairs sep ps.toList)) (hsep : sep = 58 ∨ sep = 45)
      (hhex : ∀ p ∈ ps.toList, (hexValue p.1).isSome ∧ (hexValue p.2).isSome) :
      Gives .hardware (.str src) (.mac (ps.map fun p => UInt8.ofNat (pairValue p)))
  | rules {xs : List JsonNode} (hroom : xs.length ≤ MAX_ACL_RULES)
      (hobj : ∀ x ∈ xs, ∃ ms, x = .obj ms) : Gives .rules (.arr xs) (.rules (xs.map readRule))
  | level {src lv : Bytes} {n : Nat} (hsrc : unquote src = some lv) (hlv : (lv, n) ∈ levelNames) :
      Gives .level (.str src) (.num n)

/-! ## What a message is to do -/

/-- Fields not present retain their previous value, the others take the one that is given. -/
def Keeps (c : Config) (root : JsonNode) : Prop :=
  ∀ f : Field, (f.locate root = none → f.read (configApplyNode c root) = f.read c) ∧
    ∀ v x, f.locate root = some v → Gives f.place.kind v x → f.read (configApplyNode c root) = x

/-- What a missing key makes of a field. -/
def FieldKind.fallback : FieldKind → Option FieldValue
  | .text _ => some (.text [])
  | .flag dflt => some (.flag dflt)
  | .number _ dflt => some (.num dflt)
  | .rules => some (.rules [])
  | .limit | .address | .hardware | .level => none

/-- A number comes through a `double` and a `long long`. -/
def FieldKind.Carries : FieldKind → FieldValue → Prop
  | .number .., .num n | .limit, .num n => n ≤ 2 ^ 63 ∧ Binary64.Holds n
  | _, _ => True

/-! ## Strings -/

/-- What `jn_str_copy` makes of an escape, where it is one that `json.h` knows. -/
theorem escapeByte_eq {e b : UInt8} (h : escapeByte e = some b) :
    (if e = 110 then 10 else if e = 114 then 13 else if e = 116 then 9 else e) = b := by
  unfold escapeByte at h
  split at h
  · next he => rw [if_pos he, Option.some.inj h]
  next he =>
  rw [if_neg he]
  split at h
  · next he => rw [if_pos he, Option.some.inj h]
  next he =>
  rw [if_neg he]
  split at h
  · next he => rw [if_pos he, Option.some.inj h]
  · next he =>
    rw [if_neg he]
    split at h
    · exact Option.some.inj h
    · cases h

theorem unescapeRaw_unquote : ∀ {src bs : Bytes}, unquote src = some bs → unescapeRaw src = bs
  | [], _, h => by
    cases h
    rfl
  | [c], _, h => by
    rw [unquote] at h
    split at h
    · cases h
    · cases h
      rfl
  | c :: e :: t, bs, h => by
    rw [unquote] at h
    rw [unescapeRaw]
    split at h
    · next hc =>
      obtain ⟨b, hb, h⟩ := Option.bind_eq_some_iff.1 h
      obtain ⟨bs', hbs, rfl⟩ := Option.map_eq_some_iff.1 h
      rw [if_pos hc, unescapeRaw_unquote hbs, escapeByte_eq hb]
    · next hc =>
      obtain ⟨bs', hbs, rfl⟩ := Option.map_eq_some_iff.1 h
      rw [if_neg hc, unescapeRaw_unquote hbs]

theorem jnStrCopy_unquote {src bs : Bytes} {cap : Nat} (h : unquote src = some bs)
    (hfit : bs.length < cap) (hnul : 0 ∉ bs) : jnStrCopy src cap = bs := by
  rw [jnStrCopy, unescapeRaw_unquote h, List.take_of_length_le (by omega)]
  refine List.takeWhile_eq_self_iff.2 fun b hb => ?_
  exact decide_eq_true fun h0 => hnul (h0 ▸ hb)

/-! ## Numbers -/

variable {n : Nat}

theorem numNode_toLongLong (h : n < 2 ^ 64) :
    (strtod ((decimal n).take NUM_TOKEN)).toLongLong =
      if Binary64.nearest n < 2 ^ 63 then (Binary64.nearest n : Int) else -2 ^ 63 := by
  have htrunc := trunc_numeral (n := (n : Int)) (by simpa using h)
  rw [← decimal_eq_wire, if_neg (by omega), Int.natAbs_natCast] at htrunc
  rw [Double.toLongLong, htrunc]
  show (if _ ∧ _ then _ else _) = _
  have hmin : (-2 ^ 63 : Int) ≤ Binary64.nearest n := by omega
  simp only [hmin, true_and]
  by_cases hlt : Binary64.nearest n < 2 ^ 63
  · rw [if_pos hlt, if_pos (by exact_mod_cast hlt)]
  · rw [if_neg hlt, if_neg (by exact_mod_cast hlt)]

/-- A 64-bit number is taken as it is exactly if a `double` has it and it is at most 2 ^ 63; the
    conversion of a larger one gives `LLONG_MIN`. -/
theorem number_taken_iff (h : n < 2 ^ 64) :
    ((strtod ((decimal n).take NUM_TOKEN)).toLongLong % 2 ^ 64).toNat = n ↔
      n ≤ 2 ^ 63 ∧ Binary64.Holds n := by
  rw [numNode_toLongLong h, ← Binary64.nearest_eq_iff]
  by_cases hlt : Binary64.nearest n < 2 ^ 63
  · omega
  -- only 2 ^ 63 itself is what `LLONG_MIN` becomes
  rw [if_neg hlt]
  constructor
  · rintro rfl
    exact ⟨Nat.le_refl _, Binary64.nearest_eq_iff.2 (by decide)⟩
  · omega

/-- Numbers of at most 32 bits are always taken. -/
theorem number_taken {bits n : Nat} (hbits : bits ≤ 32) (h : n < 2 ^ bits) :
    ((strtod ((decimal n).take NUM_TOKEN)).toLongLong % 2 ^ bits).toNat = n := by
  have h32 : n < 2 ^ 32 := Nat.lt_of_lt_of_le h (Nat.pow_le_pow_right (by decide) hbits)
  have hnear : Binary64.nearest n = n :=
    Binary64.nearest_eq_iff.2 (Binary64.holds_of_lt (Nat.lt_trans h32 (by decide)))
  rw [numNode_toLongLong (Nat.lt_trans h32 (by decide)), hnear, if_pos (by omega)]
  rw [Int.emod_eq_of_lt (by omega) (by exact_mod_cast h), Int.toNat_natCast]

/-! ## Addresses -/

variable {rest : Bytes}

/-- One number of an address. -/
theorem scanU_decimal (h : n < 256) (hrest : Decimal.Stops Decimal.isDigit rest) :
    scanU (decimal n ++ rest) = some (n, rest) := by
  obtain ⟨d, ds, hds⟩ := List.exists_cons_of_ne_nil (Decimal.decimal_ne_nil n)
  have hdigits := Decimal.decimal_digits n
  have hd := (Decimal.isDigit_iff d).1 (hdigits d (by simp [hds]))
  obtain ⟨hspace, hminus, hplus⟩ := lead_plain hd.1
  obtain ⟨htake, hdrop⟩ := Decimal.span_stops hdigits hrest
  have hblank : (decimal n ++ rest).dropWhile isspace = decimal n ++ rest := by
    rw [hds, List.cons_append, List.dropWhile_cons_of_neg (by simp [hspace])]
  have hhead : (decimal n ++ rest).head? = some d := by rw [hds]; rfl
  simp only [scanU, hblank, hhead, Option.some.injEq, beq_iff_eq, hminus]
  simp [hminus, hplus, htake, hdrop, Decimal.decimal_ne_nil]
  omega

variable {scan : Bytes → Option (Nat × Bytes)} {sep : UInt8}

theorem scanSeparated_last {s : Bytes} (h : scan s = some (n, rest)) :
    scanSeparated scan sep 0 s = some [n] := by
  rw [scanSeparated, h]
  rfl

theorem scanSeparated_next {k : Nat} {s : Bytes} (h : scan s = some (n, sep :: rest)) :
    scanSeparated scan sep (k + 1) s = (scanSeparated scan sep k rest).map (n :: ·) := by
  rw [scanSeparated, h]
  exact if_pos rfl

theorem parseIpv4Text_dottedQuad {a b c d : Nat} (ha : a < 256) (hb : b < 256) (hc : c < 256)
    (hd : d < 256) : parseIpv4Text (dottedQuad a b c d) =
      some (UInt32.ofNat (((a * 256 + b) * 256 + c) * 256 + d)) := by
  have hdot : ∀ t, Decimal.Stops Decimal.isDigit (46 :: t) := Decimal.stops_cons (by decide)
  have hlast := scanU_decimal hd (Decimal.stops_nil _)
  rw [List.append_nil] at hlast
  have hscan : scanSeparated scanU 46 3 (dottedQuad a b c d) = some [a, b, c, d] := by
    rw [dottedQuad, scanSeparated_next (scanU_decimal ha (hdot _)),
      scanSeparated_next (scanU_decimal hb (hdot _)), scanSeparated_next (scanU_decimal hc (hdot _)),
      scanSeparated_last hlast]
    rfl
  rw [parseIpv4Text, hscan]
  exact if_neg (by omega)

theorem decimal_nul (n : Nat) : 0 ∉ decimal n := by
  intro h
  exact absurd (Decimal.decimal_digits n 0 h) (by decide)

/-- The text of an address fits its buffer. -/
theorem dottedQuad_fits {a b c d : Nat} (ha : a < 256) (hb : b < 256) (hc : c < 256) (hd : d < 256) :
    (dottedQuad a b c d).length < MAX_PATHLEN ∧ 0 ∉ dottedQuad a b c d := by
  have hlen : ∀ {n}, n < 256 → (decimal n).length ≤ 3 := fun {n} h =>
    Decimal.length_decimal_le (by decide) (Nat.lt_trans h (by decide))
  constructor
  · have ha := hlen ha
    have hb := hlen hb
    have hc := hlen hc
    have hd := hlen hd
    simp only [dottedQuad, List.length_append, List.length_cons, MAX_PATHLEN]
    omega
  · simp [dottedQuad, decimal_nul]

/-! ## Hardware addresses -/

/-- The hexadecimal digits; `x` is none of them. -/
theorem hexValue_spec {c : UInt8} {v : Nat} (h : hexValue c = some v) :
    v < 16 ∧ 48 ≤ c.toNat ∧ (c.toNat ≤ 70 ∨ 97 ≤ c.toNat ∧ c.toNat ≤ 102) := by
  unfold hexValue at h
  split at h
  · next hd =>
    have hd := (Decimal.isDigit_iff c).1 hd
    cases h
    omega
  · split at h
    · next hc =>
      have hlo : 97 ≤ c.toNat := UInt8.le_iff_toNat_le.1 hc.1
      have hhi : c.toNat ≤ 102 := UInt8.le_iff_toNat_le.1 hc.2
      cases h
      omega
    · split at h
      · next hc =>
        have hlo : 65 ≤ c.toNat := UInt8.le_iff_toNat_le.1 hc.1
        have hhi : c.toNat ≤ 70 := UInt8.le_iff_toNat_le.1 hc.2
        cases h
        omega
      · cases h

/-- One byte of a hardware address. -/
theorem scanX_pair {h l : UInt8} (hh : (hexValue h).isSome) (hl : (hexValue l).isSome)
    (hrest : Decimal.Stops (fun c => (hexValue c).isSome) rest) :
    scanX (h :: l :: rest) = some (pairValue (h, l), rest) := by
  obtain ⟨u, hu⟩ := Option.isSome_iff_exists.1 hh
  obtain ⟨v, hv⟩ := Option.isSome_iff_exists.1 hl
  obtain ⟨hu16, hu48, -⟩ := hexValue_spec hu
  obtain ⟨hv16, -, hvx⟩ := hexValue_spec hv
  obtain ⟨hspace, hminus, hplus⟩ := lead_plain hu48
  have hx : l ≠ 120 ∧ l ≠ 88 := by
    constructor
    · rintro rfl
      exact absurd hvx (by decide)
    · rintro rfl
      exact absurd hvx (by decide)
  have hdigits : ∀ c ∈ [h, l], (hexValue c).isSome = true := by simp [hh, hl]
  obtain ⟨htake, hdrop⟩ := Decimal.span_stops hdigits hrest
  have hblank : (h :: l :: rest).dropWhile isspace = h :: l :: rest :=
    List.dropWhile_cons_of_neg (by simp [hspace])
  simp only [List.cons_append, List.nil_append] at htake hdrop
  simp only [scanX, hblank, List.head?_cons, Option.some.injEq, beq_iff_eq]
  simp [hminus, hplus, hx.1, hx.2, htake, hdrop, hu, hv, pairValue]
  omega

theorem scanSeparated_hexPairs (hsep : hexValue sep = none) :
    ∀ (p : UInt8 × UInt8) (ps : List (UInt8 × UInt8)),
      (∀ q ∈ p :: ps, (hexValue q.1).isSome ∧ (hexValue q.2).isSome) →
      scanSeparated scanX sep ps.length (hexPairs sep (p :: ps)) = some ((p :: ps).map pairValue)
  | p, [], h => by
    have hp := h p List.mem_cons_self
    exact scanSeparated_last (scanX_pair hp.1 hp.2 (Decimal.stops_nil _))
  | p, q :: ps, h => by
    have hp := h p List.mem_cons_self
    have hstop : Decimal.Stops (fun c => (hexValue c).isSome) (sep :: hexPairs sep (q :: ps)) :=
      Decimal.stops_cons (by simp [hsep]) _
    have hrest := scanSeparated_hexPairs hsep q ps fun r hr => h r (List.mem_cons_of_mem p hr)
    rw [List.length_cons, hexPairs, scanSeparated_next (scanX_pair hp.1 hp.2 hstop), hrest]
    rfl

theorem hex_nul {c : UInt8} (h : (hexValue c).isSome) : 0 ≠ c := by
  rintro rfl
  exact absurd h (by decide)

theorem hexPairs_ne_nil (sep : UInt8) {ps : List (UInt8 × UInt8)} (h : ps ≠ []) :
    hexPairs sep ps ≠ [] := by
  match ps with
  | [(a, b)] | (a, b) :: q :: qs => simp [hexPairs]

/-- The text of a hardware address fits its buffer. -/
theorem hexPairs_fits (hsep : 0 ≠ sep) :
    ∀ {ps : List (UInt8 × UInt8)}, (∀ p ∈ ps, (hexValue p.1).isSome ∧ (hexValue p.2).isSome) →
      (hexPairs sep ps).length ≤ 3 * ps.length ∧ 0 ∉ hexPairs sep ps
  | [], _ => by simp [hexPairs]
  | [(h, l)], hhex => by
    have hp := hhex (h, l) List.mem_cons_self
    simp [hexPairs, hex_nul hp.1, hex_nul hp.2]
  | (h, l) :: q :: ps, hhex => by
    have hp := hhex (h, l) List.mem_cons_self
    have ih := hexPairs_fits hsep fun p hp => hhex p (List.mem_cons_of_mem (h, l) hp)
    constructor
    · simp only [hexPairs, List.length_cons] at ih ⊢
      omega
    · simp [hexPairs, hex_nul hp.1, hex_nul hp.2, hsep, ih.2]

theorem scanSeparated_other {sep c : UInt8} {k : Nat} {s : Bytes} (h : scan s = some (n, c :: rest))
    (hc : c ≠ sep) : scanSeparated scan sep (k + 1) s = none := by
  rw [scanSeparated, h]
  exact if_neg hc

theorem pairValue_le {p : UInt8 × UInt8} (h : (hexValue p.1).isSome ∧ (hexValue p.2).isSome) :
    pairValue p ≤ 0xFF := by
  obtain ⟨u, hu⟩ := Option.isSome_iff_exists.1 h.1
  obtain ⟨v, hv⟩ := Option.isSome_iff_exists.1 h.2
  have hu16 := (hexValue_spec hu).1
  have hv16 := (hexValue_spec hv).1
  rw [pairValue, hu, hv]
  show u * 16 + v ≤ 255
  omega

/-- Both separators are tried; the other one stops after the first byte. -/
theorem scan_either (hsep : sep = 58 ∨ sep = 45) {ps : List (UInt8 × UInt8)} (hlen : ps.length = 6)
    (h : ∀ p ∈ ps, (hexValue p.1).isSome ∧ (hexValue p.2).isSome) :
    (scanSeparated scanX 58 5 (hexPairs sep ps)).or (scanSeparated scanX 45 5 (hexPairs sep ps)) =
      some (ps.map pairValue) := by
  obtain ⟨p, q, ps, rfl⟩ : ∃ p q qs, ps = p :: q :: qs := by
    match ps, hlen with
    | p :: q :: qs, _ => exact ⟨p, q, qs, rfl⟩
  have hscan : ∀ s, hexValue s = none → scanSeparated scanX s 5 (hexPairs s (p :: q :: ps)) =
      some ((p :: q :: ps).map pairValue) := by
    intro s hs
    have hall := scanSeparated_hexPairs hs p (q :: ps) h
    rwa [show (q :: ps).length = 5 by simpa using hlen] at hall
  rcases hsep with rfl | rfl
  · rw [hscan 58 (by decide)]
    rfl
  have hp := h p List.mem_cons_self
  have hstop : Decimal.Stops (fun c => (hexValue c).isSome) (45 :: hexPairs 45 (q :: ps)) :=
    Decimal.stops_cons (by decide) _
  have hfirst : scanSeparated scanX 58 5 (hexPairs 45 (p :: q :: ps)) = none :=
    scanSeparated_other (scanX_pair hp.1 hp.2 hstop) (by decide)
  rw [hfirst, hscan 45 (by decide)]
  rfl

theorem parseMac_hexPairs (hsep : sep = 58 ∨ sep = 45) {ps : Vector (UInt8 × UInt8) 6}
    (h : ∀ p ∈ ps.toList, (hexValue p.1).isSome ∧ (hexValue p.2).isSome) (out : Mac) :
    parseMac (hexPairs sep ps.toList) out = ps.map fun p => UInt8.ofNat (pairValue p) := by
  have hall : (ps.toList.map pairValue).takeWhile (· ≤ 0xFF) = ps.toList.map pairValue := by
    refine List.takeWhile_eq_self_iff.2 fun n hn => ?_
    obtain ⟨p, hp, rfl⟩ := List.mem_map.1 hn
    exact decide_eq_true (pairValue_le (h p hp))
  rw [parseMac, scan_either hsep (by simp) h]
  simp only [hall]
  ext i hi
  simp

/-! ## One field -/

/-- The values of a kind. -/
def FieldKind.Has : FieldKind → FieldValue → Prop
  | .address, .num _ | .hardware, .mac _ | .level, .num _ => True
  | .address, _ | .hardware, _ | .level, _ => False
  | _, _ => True

theorem Field.has_read (f : Field) (c : Config) : f.place.kind.Has (f.read c) := by
  cases f <;> trivial

theorem update_missing (k : FieldKind) (current : FieldValue) :
    k.update none current = k.fallback.getD current := by
  cases k <;> rfl

theorem Field.bits_cases {f : Field} {bits dflt : Nat} (h : f.place.kind = .number bits dflt) :
    bits ≤ 32 ∨ bits = 64 := by
  cases f <;> cases h <;> decide

theorem carries_small {bits n : Nat} (hbits : bits ≤ 32) (h : n < 2 ^ bits) :
    n ≤ 2 ^ 63 ∧ Binary64.Holds n := by
  have h32 : n < 2 ^ 32 := Nat.lt_of_lt_of_le h (Nat.pow_le_pow_right (by decide) hbits)
  exact ⟨by omega, Binary64.holds_of_lt (by omega)⟩

theorem number_given_iff {bits n : Nat} (hbits : bits ≤ 32 ∨ bits = 64) (h : n < 2 ^ bits) :
    FieldValue.num ((strtod ((decimal n).take NUM_TOKEN)).toLongLong % 2 ^ bits).toNat = .num n ↔
      n ≤ 2 ^ 63 ∧ Binary64.Holds n := by
  rw [FieldValue.num.injEq]
  rcases hbits with hbits | rfl
  · exact iff_of_true (number_taken hbits h) (carries_small hbits h)
  · exact number_taken_iff h

theorem applyAcl_objects {xs : List JsonNode} (hroom : xs.length ≤ MAX_ACL_RULES)
    (hobj : ∀ x ∈ xs, ∃ ms, x = .obj ms) : applyAcl (some (.arr xs)) = xs.map readRule := by
  have hrules : xs.filterMap ruleOf = xs.map readRule := by
    rw [← List.filterMap_eq_map]
    refine List.filterMap_congr fun x hx => ?_
    obtain ⟨ms, rfl⟩ := hobj x hx
    rfl
  rw [applyAcl, hrules, List.take_of_length_le (by simpa using hroom)]

theorem levelOf_names {lv : Bytes} (h : (lv, n) ∈ levelNames) (current : Nat) :
    lv.length < 16 ∧ 0 ∉ lv ∧ levelOf lv current = n := by
  simp only [levelNames, List.mem_cons, Prod.mk.injEq, List.not_mem_nil, or_false] at h
  rcases h with ⟨rfl, rfl⟩ | ⟨rfl, rfl⟩ | ⟨rfl, rfl⟩ | ⟨rfl, rfl⟩
  all_goals exact ⟨by decide, by decide, rfl⟩

/-- **A value of the right type is taken**, unless it is a number that a `double` has no room for. -/
theorem given_taken_iff {f : Field} {v : JsonNode} {x : FieldValue} (h : Gives f.place.kind v x)
    (c : Config) :
    f.place.kind.update (some v) (f.read c) = x ↔ f.place.kind.Carries x := by
  have hhas := f.has_read c
  have hbits := @Field.bits_cases f
  generalize f.place.kind = k at h hhas hbits
  generalize f.read c = current at hhas
  cases h with
  | text hsrc hfit hnul =>
    exact iff_of_true (congrArg FieldValue.text (jnStrCopy_unquote hsrc hfit hnul)) trivial
  | flag => exact iff_of_true rfl trivial
  | number hn => exact number_given_iff (hbits rfl) hn
  | limit hn => exact number_given_iff (.inl (Nat.le_refl 32)) hn
  | address hsrc ha hb hc hd =>
    obtain ⟨n, rfl⟩ : ∃ n, current = .num n := by
      cases current with
      | num n => exact ⟨n, rfl⟩
      | _ => exact hhas.elim
    obtain ⟨hfit, hnul⟩ := dottedQuad_fits ha hb hc hd
    refine iff_of_true (congrArg FieldValue.num ?_) trivial
    rw [jnStrCopy_unquote hsrc hfit hnul, parseIpv4Text_dottedQuad ha hb hc hd]
    exact UInt32.toNat_ofNat_of_lt' (by show _ < 4294967296; omega)
  | @hardware src sep ps hsrc hsep hhex =>
    obtain ⟨m, rfl⟩ : ∃ m, current = .mac m := by
      cases current with
      | mac m => exact ⟨m, rfl⟩
      | _ => exact hhas.elim
    have hne : 0 ≠ sep := by
      rintro rfl
      exact absurd hsep (by decide)
    obtain ⟨hlen, hnul⟩ := hexPairs_fits hne hhex
    have hcopy : jnStrCopy src 32 = hexPairs sep ps.toList :=
      jnStrCopy_unquote hsrc (by simp at hlen; omega) hnul
    have hparse := parseMac_hexPairs hsep hhex m
    refine iff_of_true ?_ trivial
    show (if jnStrCopy src 32 = [] then FieldValue.mac m
      else .mac (parseMac (jnStrCopy src 32) m)) = _
    rw [hcopy, hparse]
    exact if_neg (hexPairs_ne_nil sep (List.ne_nil_of_length_pos (by simp)))
  | rules hroom hobj =>
    exact iff_of_true (congrArg FieldValue.rules (applyAcl_objects hroom hobj)) trivial
  | level hsrc hlv =>
    obtain ⟨n, rfl⟩ : ∃ n, current = .num n := by
      cases current with
      | num n => exact ⟨n, rfl⟩
      | _ => exact hhas.elim
    obtain ⟨hfit, hnul, hlevel⟩ := levelOf_names hlv n
    refine iff_of_true (congrArg FieldValue.num ?_) trivial
    rw [jnStrCopy_unquote hsrc hfit hnul, hlevel]

/-! ## A message -/

theorem locate_eq (f : Field) {root obj : JsonNode} (h : f.home root = some obj) :
    f.locate root = jnField obj f.place.key := by
  rw [Field.locate, h]
  rfl

theorem read_home (f : Field) (c : Config) {root obj : JsonNode} (h : f.home root = some obj) :
    f.read (configApplyNode c root) =
      f.place.kind.update (jnField obj f.place.key) (f.read c) := by
  rw [read_configApplyNode, Field.readAt]
  rw [Field.home] at h
  rw [h]

theorem read_homeless (f : Field) (c : Config) {root : JsonNode} (h : f.home root = none) :
    f.read (configApplyNode c root) = f.read c := by
  rw [read_configApplyNode, Field.readAt]
  rw [Field.home] at h
  rw [h]

/-- **A message keeps what it does not name and sets what it names** exactly if, in the objects that
    it has, every field whose key is missing already holds the constant it is reset to, and every
    number is one that a `double` and a `long long` carry. -/
theorem partial_config_iff (c : Config) (root : JsonNode) :
    Keeps c root ↔ ∀ (f : Field) (obj : JsonNode), f.home root = some obj →
      (jnField obj f.place.key = none → ∀ d, f.place.kind.fallback = some d → f.read c = d) ∧
      ∀ v x, jnField obj f.place.key = some v → Gives f.place.kind v x → f.place.kind.Carries x := by
  constructor
  · intro hkeeps f obj hobj
    obtain ⟨hmissing, hpresent⟩ := hkeeps f
    rw [locate_eq f hobj, read_home f c hobj] at hmissing
    simp only [locate_eq f hobj, read_home f c hobj] at hpresent
    constructor
    · intro hnone d hd
      have hsame := hmissing hnone
      rw [hnone, update_missing, hd] at hsame
      exact hsame.symm
    · intro v x hv hx
      have hsame := hpresent v x hv hx
      rw [hv] at hsame
      exact (given_taken_iff hx c).1 hsame
  · intro hcond f
    cases hhome : f.home root with
    | none =>
      refine ⟨fun _ => read_homeless f c hhome, fun v x hv _ => ?_⟩
      rw [Field.locate, hhome] at hv
      cases hv
    | some obj =>
      obtain ⟨hreset, hcarries⟩ := hcond f obj hhome
      rw [locate_eq f hhome, read_home f c hhome]
      constructor
      · intro hnone
        rw [hnone, update_missing]
        cases hd : f.place.kind.fallback with
        | none => rfl
        | some d => exact (hreset hnone d hd).symm
      · intro v x hv hx
        rw [hv]
        exact (given_taken_iff hx c).2 (hcarries v x hv hx)

/-- An engine on another port. -/
def otherPort : Config := { configDefaults with tftpPort := 6969 }

/-- `{"tftp": {"wrq_enabled": true}}` -/
def uploadsOn : Json := .obj [(text "tftp", .obj [(text "wrq_enabled", .bool true)])]

/-- Switching uploads on takes the engine back to port 69. -/
theorem uploads_on_resets_port :
    jsonParse (wire uploadsOn.dumps) = .ok (nodeOf uploadsOn) ∧
    Field.tftpPort.locate (nodeOf uploadsOn) = none ∧
    Field.tftpPort.read otherPort = .num 6969 ∧
    Field.tftpPort.read (configApplyNode otherPort (nodeOf uploadsOn)) = .num 69 ∧
    ¬ Keeps otherPort (nodeOf uploadsOn) := by
  have hparse : jsonParse (wire uploadsOn.dumps) = .ok (nodeOf uploadsOn) :=
    jsonParse_dumps (by simp [uploadsOn, Json.Finite, Json.FiniteMembers, Json.FiniteMember])
  have hlocate : Field.tftpPort.locate (nodeOf uploadsOn) = none := by
    rfl
  have hread : Field.tftpPort.read (configApplyNode otherPort (nodeOf uploadsOn)) = .num 69 := by
    rfl
  refine ⟨hparse, hlocate, rfl, hread, fun h => ?_⟩
  have hsame := (h .tftpPort).1 hlocate
  exact absurd hsame (by decide)

end Nishro

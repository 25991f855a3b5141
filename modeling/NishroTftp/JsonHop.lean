import NishroTftp.CCore.ConfigApply
import NishroTftp.CCore.JsonText
import NishroTftp.Lib.JsonDumps
/-
  The JSON hop from the parent to the C engine: `json.dumps` on one side, `json.c` on the other.

  `nodeOf` is the tree `json.c` is meant to build for a Python value.  What `json.dumps` writes is a
  text of that tree (`text_dumps`), for every value whose floats are finite, so `json.c` builds it;
  Python writes the others as `NaN` or `Infinity`, which `json.c` refuses.
-/
namespace Nishro

open Nishro.Utf8 (Text text)
open Nishro.CCore
open Nishro.Json (dumps dumpsStr dumpsElements dumpsMembers dumpsMember escapeChar escaped
  unitEscape hexDigit numeral IsNumeral)

/-- The bytes of an ASCII text. -/
def wire (s : Text) : Bytes := s.map UInt8.ofNat

@[simp] theorem wire_nil : wire [] = [] := rfl

@[simp] theorem wire_cons (c : Nat) (s : Text) : wire (c :: s) = UInt8.ofNat c :: wire s := rfl

@[simp] theorem wire_append (s t : Text) : wire (s ++ t) = wire s ++ wire t := by
  simp [wire]

@[simp] theorem length_wire (s : Text) : (wire s).length = s.length := by simp [wire]

mutual

/-- The tree of a Python value. -/
def nodeOf : Json → JsonNode
  | .null => .null
  | .bool b => .bool b
  | .int n => numNode (wire (numeral n))
  | .float lexeme => numNode (wire lexeme)
  | .str s => .str (wire (escaped s))
  | .arr xs => .arr (nodesOf xs)
  | .obj ms => .obj (membersOf ms)

def nodesOf : List Json → List JsonNode
  | [] => []
  | x :: xs => nodeOf x :: nodesOf xs

def membersOf : List (Text × Json) → List (Bytes × JsonNode)
  | [] => []
  | m :: ms => memberOf m :: membersOf ms

def memberOf : Text × Json → Bytes × JsonNode
  | (key, v) => (wire (escaped key), nodeOf v)

end

/-! ## Strings -/

theorem CCore.RawString.append {s t : Bytes} (hs : RawString s) (ht : RawString t) : RawString (s ++ t) := by
  induction hs with
  | nil => exact ht
  | plain hb _ ih => exact .plain hb ih
  | escape b _ ih => exact .escape b ih

theorem raw_hexDigit (n : Nat) {s : Bytes} (h : RawString s) :
    RawString (UInt8.ofNat (hexDigit (n % 16)) :: s) := by
  refine .plain ?_ h
  have hlt : n % 16 < 16 := Nat.mod_lt n (by decide)
  generalize n % 16 = d at hlt
  revert d
  decide

theorem raw_unitEscape (u : Nat) : RawString (wire (unitEscape u)) :=
  .escape 117 (raw_hexDigit _ (raw_hexDigit _ (raw_hexDigit _ (raw_hexDigit _ .nil))))

theorem raw_escapeChar (c : Nat) : RawString (wire (escapeChar c)) := by
  unfold escapeChar
  split
  · exact .escape _ .nil
  split
  · exact .escape _ .nil
  split
  · exact .escape _ .nil
  split
  · exact .escape _ .nil
  split
  · exact .escape _ .nil
  split
  · exact .escape _ .nil
  split
  · next h34 _ _ _ _ _ hascii =>
    refine .plain ?_ .nil
    have hc : (UInt8.ofNat c).toNat = c := UInt8.toNat_ofNat_of_lt' (by show c < 256; omega)
    constructor
    · rintro h
      exact h34 (.inl (by rw [← hc, h]; rfl))
    · rintro h
      exact h34 (.inr (by rw [← hc, h]; rfl))
  split
  · exact raw_unitEscape c
  · exact (raw_unitEscape _).append (raw_unitEscape _)

theorem raw_escaped (s : Text) : RawString (wire (escaped s)) := by
  induction s with
  | nil => exact .nil
  | cons c s ih =>
    have happ : wire (escaped (c :: s)) = wire (escapeChar c) ++ wire (escaped s) := by
      simp [escaped]
    rw [happ]
    exact (raw_escapeChar c).append ih

/-! ## Numbers -/

theorem ofNat_digit {c : Nat} (h : Json.isDigit c = true) :
    Decimal.isDigit (UInt8.ofNat c) = true := by
  rw [Json.isDigit_iff] at h
  rw [Decimal.isDigit_iff, UInt8.toNat_ofNat_of_lt' (by show c < 256; omega)]
  exact h

theorem numeralBytes_wire {lexeme : Text} (h : IsNumeral lexeme) : NumeralBytes (wire lexeme) := by
  obtain ⟨⟨c, t, rfl, hc⟩, hall⟩ := h
  refine ⟨⟨UInt8.ofNat c, wire t, rfl, ?_⟩, ?_⟩
  · rcases hc with rfl | hc
    · exact .inl rfl
    · exact .inr (ofNat_digit hc)
  · intro b hb
    obtain ⟨d, hd, rfl⟩ := List.mem_map.1 hb
    rcases hall d hd with h | rfl | rfl | rfl | rfl | rfl
    · simp [isNumChar, ofNat_digit h]
    all_goals decide

theorem wire_numeral (n : Int) :
    wire (numeral n) = plainInt (n < 0) n.natAbs := by
  have hcodes : ∀ bs : Bytes, wire (bs.map (·.toNat)) = bs := by
    intro bs
    simp [wire, Function.comp_def]
  rw [numeral, wire_append, hcodes, plainInt]
  split <;> simp [*]

theorem decimal_eq_wire (n : Nat) : Decimal.decimal n = wire (numeral n) := by
  rw [wire_numeral, decide_eq_false (by omega)]
  rfl

/-! ## Values -/

theorem blank_nil : Blank [] := nofun

theorem blank_one : Blank [32] := by
  intro c hc
  rw [List.mem_singleton.1 hc]
  rfl

/-- A value behind a blank. -/
theorem CCore.JsonText.spaced {s : Bytes} {v : JsonNode} (h : JsonText s (.value v)) :
    JsonText (32 :: s) (.padded v) := by
  simpa using JsonText.pad blank_one blank_nil h

mutual

/-- **What `json.dumps` writes is a text of the tree.** -/
theorem text_dumps : ∀ v : Json, v.Finite → JsonText (wire (dumps v)) (.value (nodeOf v))
  | .null, _ => by
    rw [nodeOf]
    exact .null
  | .bool b, _ => by
    rw [nodeOf]
    cases b
    · exact .bool false
    · exact .bool true
  | .int n, _ => by
    rw [dumps, nodeOf, wire_numeral]
    exact .num (numeralBytes_plainInt _ _)
  | .float lexeme, h => by
    rw [Json.Finite] at h
    rw [dumps, nodeOf]
    exact .num (numeralBytes_wire h)
  | .str s, _ => by
    have htext : wire (dumps (.str s)) = 34 :: (wire (escaped s) ++ [34]) := by
      simp [dumps, dumpsStr]
    rw [htext, nodeOf]
    exact .str (raw_escaped s)
  | .arr [], _ => by
    rw [nodeOf, nodesOf]
    exact .noElements blank_nil
  | .arr (x :: xs), h => by
    rw [Json.Finite] at h
    have htext : wire (dumps (.arr (x :: xs))) = 91 :: ([] ++ wire (dumpsElements (x :: xs)) ++ [93]) := by
      simp [dumps]
    rw [htext, nodeOf]
    exact .arr (text_elements (x :: xs) blank_nil (by simp) h)
  | .obj [], _ => by
    rw [nodeOf, membersOf]
    exact .noMembers blank_nil
  | .obj ((key, v) :: ms), h => by
    rw [Json.Finite] at h
    have htext : wire (dumps (.obj ((key, v) :: ms))) =
        123 :: ([] ++ wire (dumpsMembers ((key, v) :: ms)) ++ [125]) := by simp [dumps]
    rw [htext, nodeOf]
    exact .obj (text_members ((key, v) :: ms) blank_nil (by simp) h)

theorem text_elements : ∀ (xs : List Json) {w : Bytes}, Blank w → xs ≠ [] →
    Json.FiniteElements xs → JsonText (w ++ wire (dumpsElements xs)) (.elements (nodesOf xs))
  | [], _, _, hne, _ => (hne rfl).elim
  | [x], w, hw, _, h => by
    rw [Json.FiniteElements] at h
    have hpad := JsonText.pad hw blank_nil (text_dumps x h.1)
    rw [List.append_nil] at hpad
    rw [dumpsElements, nodesOf, nodesOf]
    exact .element hpad
  | x :: y :: ys, w, hw, _, h => by
    rw [Json.FiniteElements] at h
    have htext : w ++ wire (dumpsElements (x :: y :: ys)) =
        (w ++ (wire (dumps x) ++ [])) ++ 44 :: ([32] ++ wire (dumpsElements (y :: ys))) := by
      simp [dumpsElements]
    rw [htext, nodesOf]
    exact .elements (.pad hw blank_nil (text_dumps x h.1))
      (text_elements (y :: ys) blank_one (by simp) h.2)

theorem text_members : ∀ (ms : List (Text × Json)) {w : Bytes}, Blank w → ms ≠ [] →
    Json.FiniteMembers ms → JsonText (w ++ wire (dumpsMembers ms)) (.members (membersOf ms))
  | [], _, _, hne, _ => (hne rfl).elim
  | [(key, v)], w, hw, _, h => by
    rw [Json.FiniteMembers, Json.FiniteMember] at h
    have htext : w ++ wire (dumpsMembers [(key, v)]) =
        w ++ 34 :: (wire (escaped key) ++ 34 :: ([] ++ 58 :: (32 :: wire (dumps v)))) := by
      simp [dumpsMembers, dumpsMember, dumpsStr]
    rw [htext, membersOf, membersOf, memberOf]
    exact .member hw (raw_escaped key) blank_nil (text_dumps v h.1).spaced
  | (key, v) :: m :: ms, w, hw, _, h => by
    rw [Json.FiniteMembers, Json.FiniteMember] at h
    have htext : w ++ wire (dumpsMembers ((key, v) :: m :: ms)) =
        w ++ 34 :: (wire (escaped key) ++ 34 :: ([] ++ 58 :: (32 :: wire (dumps v) ++
          44 :: ([32] ++ wire (dumpsMembers (m :: ms)))))) := by
      simp [dumpsMembers, dumpsMember, dumpsStr]
    rw [htext, membersOf, memberOf]
    exact .members hw (raw_escaped key) blank_nil (text_dumps v h.1).spaced
      (text_members (m :: ms) blank_one (by simp) h.2)

end

/-- The whole document. -/
theorem jsonParse_dumps {v : Json} (h : v.Finite) : jsonParse (wire (dumps v)) = .ok (nodeOf v) := by
  have hparse := (text_dumps v h).parsed blank_nil ends_nil
  rwa [List.nil_append, List.append_nil] at hparse

end Nishro

import NishroTftp.Lib.Binary64
import NishroTftp.Lib.Json
/-
  Python values as the engine's code handles them: what `json.loads` and `yaml.safe_load` give
  (None, booleans, integers, floats, strings, lists and dicts), and the conversions `int(x)`,
  `bool(x)`, `x or y` and `d.get(k, v)` on them.

  A float is its numeral, a string its code points.  A dict is an object with its members in the
  order they were set; the last member of a name counts.  What raises returns `Except.error`.
-/
namespace Nishro.Py

open Utf8 (Text text)

/-! ## Conversions -/

inductive PyError
  | attributeError
  | keyError
  | typeError
  | valueError
  | overflowError
deriving DecidableEq, Repr

section Except

variable {α β γ : Type} {x : Except PyError α}

theorem bind_eq_ok {f : α → Except PyError β} {r : β} :
    x.bind f = .ok r ↔ ∃ a, x = .ok a ∧ f a = .ok r := by
  cases x <;> simp [Except.bind]

theorem map_eq_ok {f : α → β} {r : β} : x.map f = .ok r ↔ ∃ a, x = .ok a ∧ f a = r := by
  cases x <;> simp [Except.map]

theorem except_map_bind (f : α → Except PyError β) (g : β → γ) :
    (x.bind f).map g = x.bind fun a => (f a).map g := by
  cases x <;> rfl

theorem except_bind_map (f : α → β) (g : β → Except PyError γ) :
    (x.map f).bind g = x.bind fun a => g (f a) := by
  cases x <;> rfl

theorem except_map_map (f : α → β) (g : β → γ) : (x.map f).map g = x.map fun a => g (f a) := by
  cases x <;> rfl

theorem except_bind_bind (f : α → Except PyError β) (g : β → Except PyError γ) :
    (x.bind f).bind g = x.bind fun a => (f a).bind g := by
  cases x <;> rfl

end Except

/-- The parts of a float numeral: its sign, its digits as one number, its decimal exponent. -/
def floatParts (lexeme : Text) : Bool × Nat × Int :=
  let neg := lexeme.head? == some 45
  let body := if neg then lexeme.tail else lexeme
  let mantissa := body.takeWhile fun c => c != 101 && c != 69
  let frac := (mantissa.dropWhile (· != 46)).drop 1
  let exp := (body.dropWhile fun c => c != 101 && c != 69).drop 1
  let e := if exp.head? == some 45 then -(Json.natVal exp.tail : Int)
    else Json.natVal (if exp.head? == some 43 then exp.tail else exp)
  (neg, Json.natVal (mantissa.filter (· != 46)), e - frac.length)

/-- The magnitude of a finite float, by its numeral. -/
def floatMagnitude (lexeme : Text) : Option Binary64.Magnitude :=
  if lexeme = text "NaN" ∨ lexeme = text "Infinity" ∨ lexeme = text "-Infinity" then none
  else Binary64.ofDecimal (floatParts lexeme).2.1 (floatParts lexeme).2.2

/-- `int(x)` of a float. -/
def floatToInt (lexeme : Text) : Except PyError Int :=
  match floatMagnitude lexeme with
  | none => .error (if lexeme = text "NaN" then .valueError else .overflowError)
  | some x => .ok (if (floatParts lexeme).1 then -(x.truncate : Int) else x.truncate)

/-- The digits of an integer literal, single underscores between them. -/
def digitsUnderscored : Text → Bool
  | [] => false
  | [c] => Json.isDigit c
  | c :: d :: t =>
    Json.isDigit c && (if d == 95 then digitsUnderscored t else digitsUnderscored (d :: t))

def isSpace (c : Nat) : Bool := Json.isWs c || c == 11 || c == 12

/-- `sys.get_int_max_str_digits()`. -/
def INT_MAX_STR_DIGITS : Nat := 4300

/-- `int(x)` of a string of ASCII characters. -/
def strToInt (s : Text) : Except PyError Int :=
  let s := ((s.dropWhile isSpace).reverse.dropWhile isSpace).reverse
  let neg := s.head? == some 45
  let body := if neg || s.head? == some 43 then s.tail else s
  let digits := body.filter (· != 95)
  if digitsUnderscored body && decide (digits.length ≤ INT_MAX_STR_DIGITS) then
    let n : Int := Json.natVal digits
    .ok (if neg then -n else n)
  else .error .valueError

/-- `int(x)`. -/
def toInt : Json → Except PyError Int
  | .int n => .ok n
  | .bool b => .ok (if b then 1 else 0)
  | .float lexeme => floatToInt lexeme
  | .str s => strToInt s
  | .null | .arr _ | .obj _ => .error .typeError

/-- `bool(x)`. -/
def truthy : Json → Bool
  | .null => false
  | .bool b => b
  | .int n => n != 0
  | .float lexeme => ! (floatMagnitude lexeme).any (·.m == 0)
  | .str s => s != []
  | .arr xs => ! xs.isEmpty
  | .obj ms => ! ms.isEmpty

/-- `int(x or 0)`. -/
def intOrZero : Option Json → Except PyError Int
  | none => .ok 0
  | some x => if truthy x then toInt x else .ok 0

theorem intOrZero_int (n : Int) : intOrZero (some (.int n)) = .ok n := by
  by_cases hz : n = 0
  · rw [hz]
    rfl
  · rw [intOrZero, truthy, if_pos (bne_iff_ne.2 hz), toInt]

/-- `x or {}`. -/
def orEmpty : Option Json → Json
  | none => .obj []
  | some x => if truthy x then x else .obj []

/-- `d.get(key)`; only a dict has `get`. -/
def dictGet (d : Json) (key : Text) : Except PyError (Option Json) :=
  match d with
  | .obj _ => .ok (d.get key)
  | _ => .error .attributeError

/-- `int(d.get(key, dflt))`. -/
def intAt (d : Json) (key : Text) (dflt : Int) : Except PyError Int :=
  (dictGet d key).bind fun
    | none => .ok dflt
    | some x => toInt x

/-- `int(d.get(key, 0) or 0)`. -/
def intOrZeroAt (d : Json) (key : Text) : Except PyError Int := (dictGet d key).bind intOrZero

/-! ## Objects -/

/-- The members of an object. -/
def items : Json → List (Text × Json)
  | .obj ms => ms
  | _ => []

/-- `d[key] = value`. -/
def setItem (d : Json) (key : Text) (value : Json) : Json := .obj (items d ++ [(key, value)])

theorem get_setItem {d : Json} {ms : List (Text × Json)} (hd : d = .obj ms) (key n : Text)
    (v : Json) : (setItem d key v).get n = if n = key then some v else d.get n := by
  subst hd
  by_cases h : n = key
  · subst h
    simp [setItem, items, Json.get]
  · have hne : ¬ key = n := fun e => h e.symm
    simp [setItem, items, Json.get, h, hne]

end Nishro.Py

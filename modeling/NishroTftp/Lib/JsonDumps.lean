import NishroTftp.Lib.Json
/-
  JSON texts as Python's `json.dumps` writes them with its default settings: `", "` and `": "` as
  separators, and ASCII only, every other character escaped.

  A float is written by its numeral, which for the values outside JSON is one of the words `NaN`,
  `Infinity` and `-Infinity`.
-/
namespace Nishro.Json

open Utf8 (Text text)

/-- A hexadecimal digit, in lower case. -/
def hexDigit (n : Nat) : Nat := if n < 10 then 48 + n else 87 + n

/-- The escape of one UTF-16 unit. -/
def unitEscape (u : Nat) : Text :=
  [92, 117, hexDigit (u / 4096 % 16), hexDigit (u / 256 % 16), hexDigit (u / 16 % 16),
    hexDigit (u % 16)]

/-- A character of a string. -/
def escapeChar (c : Nat) : Text :=
  if c = 34 ∨ c = 92 then [92, c]
  else if c = 10 then [92, 110]
  else if c = 13 then [92, 114]
  else if c = 9 then [92, 116]
  else if c = 12 then [92, 102]
  else if c = 8 then [92, 98]
  else if 32 ≤ c ∧ c ≤ 126 then [c]
  else if c < 0x10000 then unitEscape c
  else unitEscape (0xD800 + (c - 0x10000) / 0x400) ++ unitEscape (0xDC00 + (c - 0x10000) % 0x400)

/-- What stands between the quotes. -/
def escaped (s : Text) : Text := s.flatMap escapeChar

def dumpsStr (s : Text) : Text := 34 :: escaped s ++ [34]

mutual

/-- `json.dumps`. -/
def dumps : Json → Text
  | .null => text "null"
  | .bool true => text "true"
  | .bool false => text "false"
  | .int n => numeral n
  | .float lexeme => lexeme
  | .str s => dumpsStr s
  | .arr xs => 91 :: dumpsElements xs ++ [93]
  | .obj ms => 123 :: dumpsMembers ms ++ [125]

def dumpsElements : List Json → Text
  | [] => []
  | [x] => dumps x
  | x :: y :: xs => dumps x ++ [44, 32] ++ dumpsElements (y :: xs)

def dumpsMembers : List (Text × Json) → Text
  | [] => []
  | [m] => dumpsMember m
  | m :: m' :: ms => dumpsMember m ++ [44, 32] ++ dumpsMembers (m' :: ms)

def dumpsMember : Text × Json → Text
  | (key, v) => dumpsStr key ++ [58, 32] ++ dumps v

end

/-- A numeral of a finite float: it starts with a digit or a minus sign and has digits, signs, a
    point and an exponent in it. -/
def IsNumeral (lexeme : Text) : Prop :=
  (∃ c t, lexeme = c :: t ∧ (c = 45 ∨ isDigit c = true)) ∧
    ∀ c ∈ lexeme, isDigit c = true ∨ c = 46 ∨ c = 101 ∨ c = 69 ∨ c = 43 ∨ c = 45

mutual

/-- Every float in the value is finite. -/
def Finite : Json → Prop
  | .float lexeme => IsNumeral lexeme
  | .arr xs => FiniteElements xs
  | .obj ms => FiniteMembers ms
  | .null | .bool _ | .int _ | .str _ => True

def FiniteElements : List Json → Prop
  | [] => True
  | x :: xs => Finite x ∧ FiniteElements xs

def FiniteMembers : List (Text × Json) → Prop
  | [] => True
  | m :: ms => FiniteMember m ∧ FiniteMembers ms

def FiniteMember : Text × Json → Prop
  | (_, v) => Finite v

end

end Nishro.Json

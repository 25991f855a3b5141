import NishroTftp.CCore.Tftp
import NishroTftp.Lib.Binary64
/-
  The JSON reader of the C engine (`c_core/json.c`).

  A position in the buffer is the list of bytes from there to `end`.  A node keeps what the source
  keeps: strings and keys as the raw bytes between their quotes, numbers with their token and the
  `double` that `strtod` makes of its first 63 bytes.  Objects and arrays list their children in
  order.

  The recursion of `parse_value` is bounded by `fuel`; an array takes two units for each bracket it
  opens, and `jsonParse` gives two for every byte.
-/
namespace Nishro.CCore

open Nishro.Decimal

/-! ## Doubles -/

/-- A `double` that `strtod` can return: a sign and a finite magnitude, or infinity (`none`). -/
structure Double where
  neg : Bool
  mag : Option Binary64.Magnitude
deriving DecidableEq, Repr

/-- The digits after a `.`, and what follows. -/
def fraction : Bytes → Bytes × Bytes
  | 46 :: t => (t.takeWhile isDigit, t.dropWhile isDigit)
  | t => ([], t)

/-- The exponent after `e` or `E`; without digits it is not there. -/
def exponent : Bytes → Int
  | c :: t =>
    if c = 101 ∨ c = 69 then
      if t.head? = some 45 then -(ofDecimal (t.tail.takeWhile isDigit) : Int)
      else if t.head? = some 43 then ofDecimal (t.tail.takeWhile isDigit)
      else ofDecimal (t.takeWhile isDigit)
    else 0
  | [] => 0

/-- `strtod(s, NULL)` on text of digits, signs, `.` and exponents; 0 when no number starts it. -/
def strtod (s : Bytes) : Double :=
  let neg := s.head? == some 45
  let body := if neg || s.head? == some 43 then s.tail else s
  let int := body.takeWhile isDigit
  let frac := fraction (body.dropWhile isDigit)
  if int = [] ∧ frac.1 = [] then ⟨false, some ⟨0, 0⟩⟩
  else ⟨neg, Binary64.ofDecimal (ofDecimal (int ++ frac.1)) (exponent frac.2 - frac.1.length)⟩

/-- The value as an integer, towards zero. -/
def Double.trunc (d : Double) : Option Int :=
  d.mag.map fun x => if d.neg then -(x.truncate : Int) else x.truncate

/-- `(long long)d`.  Out of range the conversion of the target (x86-64) gives `LLONG_MIN`. -/
def Double.toLongLong (d : Double) : Int :=
  match d.trunc with
  | some n => if -2 ^ 63 ≤ n ∧ n < 2 ^ 63 then n else -2 ^ 63
  | none => -2 ^ 63

def Double.isZero (d : Double) : Bool := d.mag.any (·.m == 0)

/-! ## Nodes -/

inductive JsonNode
  | null
  | bool (b : Bool)
  | num (src : Bytes) (n : Double)
  | str (src : Bytes)
  | arr (children : List JsonNode)
  | obj (children : List (Bytes × JsonNode))

/-- What `set_err` is called with. -/
inductive JsonErr
  | expectedString
  | badEscape
  | unterminatedString
  | arrayEof
  | expectedCommaBracket
  | expectedColon
  | objectEof
  | expectedCommaBrace
  | unexpectedEof
  | badValue
deriving DecidableEq, Repr

def JsonErr.text : JsonErr → String
  | .expectedString => "expected string"
  | .badEscape => "bad escape"
  | .unterminatedString => "unterminated string"
  | .arrayEof => "array eof"
  | .expectedCommaBracket => "expected , or ]"
  | .expectedColon => "expected :"
  | .objectEof => "object eof"
  | .expectedCommaBrace => "expected , or \x7d"
  | .unexpectedEof => "unexpected eof"
  | .badValue => "bad value"

def isWs (c : UInt8) : Bool := c == 32 || c == 9 || c == 10 || c == 13

def skipWs (s : Bytes) : Bytes := s.dropWhile isWs

/-- The loop of `parse_string_raw`, after the opening quote: the raw bytes up to the closing one. -/
def scanRaw : Bytes → Except JsonErr (Bytes × Bytes)
  | [] => .error .unterminatedString
  | [c] =>
    if c = 34 then .ok ([], [])
    else .error (if c = 92 then .badEscape else .unterminatedString)
  | c :: d :: t =>
    if c = 34 then .ok ([], d :: t)
    else if c = 92 then (scanRaw t).map fun r => (c :: d :: r.1, r.2)
    else (scanRaw (d :: t)).map fun r => (c :: r.1, r.2)

def parseStringRaw : Bytes → Except JsonErr (Bytes × Bytes)
  | 34 :: t => scanRaw t
  | _ => .error .expectedString

/-- The bytes `parse_number` goes over. -/
def isNumChar (c : UInt8) : Bool :=
  isDigit c || c == 46 || c == 101 || c == 69 || c == 43 || c == 45

/-- `char tmp[64]` -/
def NUM_TOKEN : Nat := 63

def parseNumber (s : Bytes) : JsonNode × Bytes :=
  let signed := s.head? == some 45 || s.head? == some 43
  let body := if signed then s.tail else s
  let src := (if signed then s.take 1 else []) ++ body.takeWhile isNumChar
  (.num src (strtod (src.take NUM_TOKEN)), body.dropWhile isNumChar)

/-- The words `true`, `false` and `null`. -/
def parseWord (s : Bytes) : Option (JsonNode × Bytes) :=
  if (ascii "true").isPrefixOf s then some (.bool true, s.drop 4)
  else if (ascii "false").isPrefixOf s then some (.bool false, s.drop 5)
  else if (ascii "null").isPrefixOf s then some (.null, s.drop 4)
  else none

mutual

def parseValue : Nat → Bytes → Except JsonErr (JsonNode × Bytes)
  | 0, _ => .error .unexpectedEof
  | fuel + 1, s =>
    match skipWs s with
    | [] => .error .unexpectedEof
    | c :: t =>
      if c = 123 then
        match skipWs t with
        | 125 :: r => .ok (.obj [], r)
        | _ => (parseMembers fuel t).map fun r => (.obj r.1, r.2)
      else if c = 91 then
        match skipWs t with
        | 93 :: r => .ok (.arr [], r)
        | _ => (parseElements fuel t).map fun r => (.arr r.1, r.2)
      else if c = 34 then (scanRaw t).map fun r => (.str r.1, r.2)
      else
        match parseWord (c :: t) with
        | some r => .ok r
        | none =>
          if c = 45 ∨ c = 43 ∨ isDigit c = true then .ok (parseNumber (c :: t))
          else .error .badValue

/-- The loop of `parse_object`. -/
def parseMembers : Nat → Bytes → Except JsonErr (List (Bytes × JsonNode) × Bytes)
  | 0, _ => .error .objectEof
  | fuel + 1, s =>
    match parseStringRaw (skipWs s) with
    | .error e => .error e
    | .ok (key, r) =>
      match skipWs r with
      | 58 :: r =>
        match parseValue fuel r with
        | .error e => .error e
        | .ok (v, r) =>
          match skipWs r with
          | [] => .error .objectEof
          | 44 :: r => (parseMembers fuel r).map fun m => ((key, v) :: m.1, m.2)
          | 125 :: r => .ok ([(key, v)], r)
          | _ => .error .expectedCommaBrace
      | _ => .error .expectedColon

/-- The loop of `parse_array`. -/
def parseElements : Nat → Bytes → Except JsonErr (List JsonNode × Bytes)
  | 0, _ => .error .arrayEof
  | fuel + 1, s =>
    match parseValue fuel s with
    | .error e => .error e
    | .ok (v, r) =>
      match skipWs r with
      | [] => .error .arrayEof
      | 44 :: r => (parseElements fuel r).map fun m => (v :: m.1, m.2)
      | 93 :: r => .ok ([v], r)
      | _ => .error .expectedCommaBracket

end

/-- `json_parse`; bytes after the document are not looked at. -/
def jsonParse (buf : Bytes) : Except JsonErr JsonNode := (parseValue (2 * buf.length + 1) buf).map (·.1)

/-! ## Accessors -/

/-- `jn_field`: the first child with that key. -/
def jnField (obj : JsonNode) (key : String) : Option JsonNode :=
  match obj with
  | .obj children => children.lookup (ascii key)
  | _ => none

/-- The decoding loop of `jn_str_copy`. -/
def unescapeRaw : Bytes → Bytes
  | [] => []
  | [c] => [c]
  | c :: e :: t =>
    if c = 92 then
      (if e = 110 then 10 else if e = 114 then 13 else if e = 116 then 9 else e) :: unescapeRaw t
    else c :: unescapeRaw (e :: t)

/-- `jn_str_copy` into a buffer of `cap` bytes, as the C string that is then in it. -/
def jnStrCopy (src : Bytes) (cap : Nat) : Bytes :=
  ((unescapeRaw src).take (cap - 1)).takeWhile (· ≠ 0)

def jnGetBool (obj : JsonNode) (key : String) (dflt : Bool) : Bool :=
  match jnField obj key with
  | some (.bool b) => b
  | some (.num _ n) => ! n.isZero
  | _ => dflt

def jnGetInt (obj : JsonNode) (key : String) (dflt : Int) : Int :=
  match jnField obj key with
  | some (.num _ n) => n.toLongLong
  | _ => dflt

/-- `jn_get_str`; `none` is `-1`, and the buffer then holds the empty string. -/
def jnGetStr (obj : JsonNode) (key : String) (cap : Nat) : Option Bytes :=
  match jnField obj key with
  | some (.str src) => some (jnStrCopy src cap)
  | _ => none

end Nishro.CCore

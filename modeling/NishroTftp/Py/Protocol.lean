import NishroTftp.Lib.Wire
/-
  The wire format of the Python engine (`tftp/protocol.py`).

  A Python `str` is a list of characters; a `bytes` value is `Bytes`.  What raises `TFTPError` in
  the source returns `Except.error` here.  A dict is an association list in insertion order.
-/
namespace Nishro.Py

open Nishro.Wire

/-- A Python string. -/
abbrev Str := List Char

instance : LawfulBEq Str := inferInstance

/-- The characters of a literal of the source. -/
def str (s : String) : Str := s.toList

def OP_RRQ : UInt16 := 1
def OP_WRQ : UInt16 := 2
def OP_DATA : UInt16 := 3
def OP_ACK : UInt16 := 4
def OP_ERROR : UInt16 := 5
def OP_OACK : UInt16 := 6

def ERR_UNDEFINED : UInt16 := 0
def ERR_NOT_FOUND : UInt16 := 1
def ERR_ACCESS : UInt16 := 2
def ERR_DISK_FULL : UInt16 := 3
def ERR_ILLEGAL_OP : UInt16 := 4

structure TFTPError where
  code : UInt16
  message : Str
deriving DecidableEq, Repr

structure Request where
  opcode : UInt16
  filename : Str
  mode : Str
  options : List (Str × Str)
deriving DecidableEq, Repr

/-! ## Strings and dicts -/

/-- One byte under `decode("ascii", errors="replace")`. -/
def asciiChar (b : UInt8) : Char := if b < 128 then Char.ofNat b.toNat else Char.ofNat 0xFFFD

/-- `bytes.decode("ascii", errors="replace")`. -/
def decodeAscii (bs : Bytes) : Str := bs.map asciiChar

/-- `str.lower` on the characters `decodeAscii` can give. -/
def lower (s : Str) : Str := s.map Char.toLower

/-- `d[key] = value`. -/
def dictSet (d : List (Str × Str)) (key value : Str) : List (Str × Str) :=
  if d.any (·.1 == key) then d.map fun kv => if kv.1 = key then (key, value) else kv
  else d ++ [(key, value)]

/-! ## Unpack -/

def peekOpcode : Bytes → Except TFTPError UInt16
  | b0 :: b1 :: _ => .ok (rd16 b0 b1)
  | _ => .error ⟨ERR_ILLEGAL_OP, str "short packet"⟩

/-- `_split_cstrings` with the characters of the string under way. -/
def splitFrom (cur : Bytes) : Bytes → List Str
  | [] => if cur = [] then [] else [decodeAscii cur]
  | b :: bs => if b = 0 then decodeAscii cur :: splitFrom [] bs else splitFrom (cur ++ [b]) bs

/-- `_split_cstrings`: NUL-terminated strings, the last NUL optional. -/
def splitCstrings (buf : Bytes) : List Str := splitFrom [] buf

/-- The key/value pairs after filename and mode. -/
def requestOptions (opts : List (Str × Str)) : List Str → List (Str × Str)
  | key :: value :: rest =>
    requestOptions (if key ≠ [] then dictSet opts (lower key) value else opts) rest
  | _ => opts

def parseRequest (pkt : Bytes) : Except TFTPError Request :=
  match peekOpcode pkt with
  | .error e => .error e
  | .ok op =>
    if op ≠ OP_RRQ ∧ op ≠ OP_WRQ then .error ⟨ERR_ILLEGAL_OP, str "expected RRQ/WRQ"⟩
    else
      match splitCstrings (pkt.drop 2) with
      | filename :: mode :: rest => .ok ⟨op, filename, lower mode, requestOptions [] rest⟩
      | _ => .error ⟨ERR_ILLEGAL_OP, str "malformed RRQ/WRQ"⟩

/-- `parse_data`: block number and payload. -/
def parseData : Bytes → Except TFTPError (UInt16 × Bytes)
  | _ :: _ :: b2 :: b3 :: payload => .ok (rd16 b2 b3, payload)
  | _ => .error ⟨ERR_ILLEGAL_OP, str "short DATA"⟩

def parseAck : Bytes → Except TFTPError UInt16
  | _ :: _ :: b2 :: b3 :: _ => .ok (rd16 b2 b3)
  | _ => .error ⟨ERR_ILLEGAL_OP, str "short ACK"⟩

/-- `parse_error`: the error a peer reports. -/
def parseError : Bytes → Except TFTPError TFTPError
  | _ :: _ :: b2 :: b3 :: msg =>
    .ok ⟨rd16 b2 b3, decodeAscii (msg.takeWhile (· ≠ 0))⟩
  | _ => .error ⟨ERR_ILLEGAL_OP, str "short ERROR"⟩

/-! ## Pack -/

def packData (block : UInt16) (payload : Bytes) : Bytes := be16 OP_DATA ++ be16 block ++ payload

def packAck (block : UInt16) : Bytes := be16 OP_ACK ++ be16 block

/-- `str.encode("ascii", errors="replace")`. -/
def encodeAscii (s : Str) : Bytes := s.map fun c => if c.toNat < 128 then UInt8.ofNat c.toNat else 63

def packError (e : TFTPError) : Bytes := be16 OP_ERROR ++ be16 e.code ++ encodeAscii e.message ++ [0]

def packOack (options : List (Str × Str)) : Bytes :=
  be16 OP_OACK ++ (options.map fun kv => encodeAscii kv.1 ++ [0] ++ encodeAscii kv.2 ++ [0]).flatten

/-! ## Packets read back -/

@[simp] theorem peekOpcode_packData (n : UInt16) (d : Bytes) :
    peekOpcode (packData n d) = .ok OP_DATA := rfl

@[simp] theorem peekOpcode_packAck (n : UInt16) : peekOpcode (packAck n) = .ok OP_ACK := rfl

@[simp] theorem parseData_packData (n : UInt16) (d : Bytes) :
    parseData (packData n d) = .ok (n, d) := by
  simp [packData, be16, parseData]

@[simp] theorem parseAck_packAck (n : UInt16) : parseAck (packAck n) = .ok n := by
  simp [packAck, be16, parseAck]

end Nishro.Py

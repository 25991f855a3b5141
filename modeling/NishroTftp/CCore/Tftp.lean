import NishroTftp.Lib.Wire
import NishroTftp.Lib.Decimal
/-
  The TFTP codec of the C engine (`c_core/tftp.h`, `c_core/tftp.c`): opcodes, the parser of RRQ and
  WRQ requests with its option list, and the builders of DATA, ACK, ERROR and OACK packets.

  A builder of the source writes into a caller's buffer and returns the number of bytes written,
  `0` on overflow; here it returns the bytes, `[]` on overflow.  A `has_x`/`x` pair of `TftpReq` is
  an `Option` (the source reads `x` only under `has_x`).
-/
namespace Nishro.CCore

open Nishro.Wire Nishro.Decimal

/-! ## Constants -/

def TFTP_RRQ : UInt16 := 1
def TFTP_WRQ : UInt16 := 2
def TFTP_DATA : UInt16 := 3
def TFTP_ACK : UInt16 := 4
def TFTP_ERROR : UInt16 := 5
def TFTP_OACK : UInt16 := 6

def TFTP_ERR_NOT_DEFINED : UInt16 := 0
def TFTP_ERR_FILE_NOT_FOUND : UInt16 := 1
def TFTP_ERR_ACCESS : UInt16 := 2
def TFTP_ERR_DISK_FULL : UInt16 := 3

def TFTP_BLKSIZE_MIN : Int := 8
def TFTP_BLKSIZE_MAX : Int := 65464
def TFTP_BLKSIZE_DEFAULT : UInt16 := 512
def TFTP_WINDOWSIZE_MAX : Int := 64
def TFTP_WINDOWSIZE_DEFAULT : UInt8 := 1
def TFTP_TIMEOUT_MAX : Int := 255
def TFTP_TIMEOUT_DEFAULT : UInt16 := 5

/-- The bytes of an ASCII literal of the source. -/
def ascii (s : String) : Bytes := s.toList.map fun c => UInt8.ofNat c.toNat

/-! ## C library functions the parser uses -/

/-- `isspace` of the C locale. -/
def isspace (c : UInt8) : Bool := c == 32 || (9 ≤ c && c ≤ 13)

/-- A digit is neither a blank nor a sign. -/
theorem lead_plain {c : UInt8} (h : 48 ≤ c.toNat) : isspace c = false ∧ c ≠ 45 ∧ c ≠ 43 := by
  refine ⟨?_, ?_, ?_⟩
  · have h32 : c ≠ 32 := by
      rintro rfl
      exact absurd h (by decide)
    have h13 : ¬ c ≤ 13 := by
      show ¬ c.toNat ≤ 13
      omega
    simp [isspace, h32, h13]
  · rintro rfl
    exact absurd h (by decide)
  · rintro rfl
    exact absurd h (by decide)

/-- `tolower` of the C locale. -/
def tolower (c : UInt8) : UInt8 := if 65 ≤ c && c ≤ 90 then c + 32 else c

/-- `strtol(s, NULL, 10)` into a signed type with the values `-lim .. lim - 1`: leading blanks, an
    optional sign, then as many digits as there are; out of range saturates. -/
def strtol (lim : Nat) (s : Bytes) : Int :=
  match s.dropWhile isspace with
  | [] => 0
  | c :: t =>
    if c == 45 then -((min (ofDecimal (t.takeWhile isDigit)) lim : Nat) : Int)
    else if c == 43 then (min (ofDecimal (t.takeWhile isDigit)) (lim - 1) : Nat)
    else (min (ofDecimal ((c :: t).takeWhile isDigit)) (lim - 1) : Nat)

/-- `long` has 32 bits on the target (Windows). -/
def LONG_LIM : Nat := 2 ^ 31
def LLONG_LIM : Nat := 2 ^ 63

/-! ## Requests -/

/-- Parsed request. -/
structure TftpReq where
  opcode : UInt16
  filename : Bytes
  mode : Bytes
  blksize : Option UInt32
  windowsize : Option UInt32
  timeoutSec : Option UInt32
  tsize : Option UInt64
deriving DecidableEq, Repr

/-- The next NUL-terminated string of a buffer and what follows its NUL; `none` when the buffer is
    exhausted without a terminator. -/
def takeZstr : Bytes → Option (Bytes × Bytes)
  | [] => none
  | 0 :: rest => some ([], rest)
  | c :: rest =>
    match takeZstr rest with
    | none => none
    | some (s, rest') => some (c :: s, rest')

/-- Case-insensitive equality of C strings. -/
def caseEq (a b : Bytes) : Bool := a.map tolower == b.map tolower

/-- One `(option, value)` pair of the request; a value out of range leaves the option as it was. -/
def applyOption (o : TftpReq) (k v : Bytes) : TftpReq :=
  if caseEq k (ascii "blksize") then
    let x := strtol LONG_LIM v
    if TFTP_BLKSIZE_MIN ≤ x ∧ x ≤ TFTP_BLKSIZE_MAX then
      { o with blksize := some (UInt32.ofNat x.toNat) } else o
  else if caseEq k (ascii "windowsize") then
    let x := strtol LONG_LIM v
    if 1 ≤ x ∧ x ≤ TFTP_WINDOWSIZE_MAX then
      { o with windowsize := some (UInt32.ofNat x.toNat) } else o
  else if caseEq k (ascii "timeout") then
    let x := strtol LONG_LIM v
    if 1 ≤ x ∧ x ≤ TFTP_TIMEOUT_MAX then
      { o with timeoutSec := some (UInt32.ofNat x.toNat) } else o
  else if caseEq k (ascii "tsize") then
    let x := strtol LLONG_LIM v
    if 0 ≤ x then { o with tsize := some (UInt64.ofNat x.toNat) } else o
  else o

/-- The option loop.  Every round takes at least two bytes, so the length of the buffer is fuel
    enough. -/
def parseOptions : Nat → Bytes → TftpReq → TftpReq
  | 0, _, o => o
  | fuel + 1, rest, o =>
    match takeZstr rest with
    | none => o
    | some (k, rest₁) =>
      match takeZstr rest₁ with
      | none => o
      | some (v, rest₂) => parseOptions fuel rest₂ (applyOption o k v)

/-- `tftp_parse_request`; `none` is the source's `-1`. -/
def tftpParseRequest (buf : Bytes) : Option TftpReq :=
  match buf with
  | b₀ :: b₁ :: rest =>
    if buf.length < 4 then none
    else if rd16 b₀ b₁ ≠ TFTP_RRQ ∧ rd16 b₀ b₁ ≠ TFTP_WRQ then none
    else
      match takeZstr rest with
      | none => none
      | some (fn, rest₁) =>
        match takeZstr rest₁ with
        | none => none
        | some (md, rest₂) =>
          some (parseOptions rest₂.length rest₂
            { opcode := rd16 b₀ b₁, filename := fn, mode := md, blksize := none,
              windowsize := none, timeoutSec := none, tsize := none })
  | _ => none

/-! ## Builders -/

def tftpBuildData (cap : Nat) (block : UInt16) (payload : Bytes) : Bytes :=
  if cap < 4 + payload.length then [] else be16 TFTP_DATA ++ be16 block ++ payload

def tftpBuildAck (cap : Nat) (block : UInt16) : Bytes :=
  if cap < 4 then [] else be16 TFTP_ACK ++ be16 block

def tftpBuildError (cap : Nat) (code : UInt16) (msg : Bytes) : Bytes :=
  if cap < 4 + msg.length + 1 then [] else be16 TFTP_ERROR ++ be16 code ++ msg ++ [0]

/-- Append one option to the packet built so far; `none` when it does not fit. -/
def writeOpt (cap : Nat) (buf key val : Bytes) : Option Bytes :=
  if cap < buf.length + (key.length + 1) + (val.length + 1) then none
  else some (buf ++ key ++ [0] ++ val ++ [0])

/-- Append the option `key` if the request carries it. -/
def writeOptIf (cap : Nat) (key : Bytes) (val : Option Nat) (buf : Bytes) : Option Bytes :=
  match val with
  | none => some buf
  | some v => writeOpt cap buf key (decimal v)

def tftpBuildOack (cap : Nat) (n : TftpReq) : Bytes :=
  if cap < 2 then []
  else
    let r := writeOptIf cap (ascii "blksize") (n.blksize.map (·.toNat)) (be16 TFTP_OACK)
      |>.bind (writeOptIf cap (ascii "windowsize") (n.windowsize.map (·.toNat)))
      |>.bind (writeOptIf cap (ascii "timeout") (n.timeoutSec.map (·.toNat)))
      |>.bind (writeOptIf cap (ascii "tsize") (n.tsize.map (·.toNat)))
    r.getD []

/-! ## What the builders write -/

theorem tftpBuildAck_eq {cap : Nat} (block : UInt16) (h : 4 ≤ cap) :
    tftpBuildAck cap block = 0 :: 4 :: be16 block := by
  rw [tftpBuildAck, if_neg (by omega)]
  rfl

end Nishro.CCore

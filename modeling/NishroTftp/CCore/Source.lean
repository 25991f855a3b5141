import NishroTftp.CCore.Config
/-
  The file sources of the C engine (`c_core/source.c`) as its sessions use them: an open file with
  a position, read block by block with `fread` or appended to with `fwrite`.

  What the operating system answers is not the engine's choice, so an open source carries a SCRIPT
  `io` of outcomes, one for each operation in the order they are made; `ops` counts the operations
  made so far.  Quantifying over sources quantifies over every pattern of seek, read and write
  failures, at every point of a transfer.
-/
namespace Nishro.CCore

/-- How one `fseek` / `fread` / `fwrite` / upload turns out. -/
inductive IoOutcome
  /-- it does what it is asked to do -/
  | ok
  /-- a device error after `n` bytes -/
  | fault (n : Nat)
deriving DecidableEq, Repr

/-- An open file. -/
structure FileSource where
  isWrite : Bool
  /-- what is in the file: all of it for a reader, what was written so far for a writer -/
  content : Bytes
  /-- the file position of a reader -/
  pos : Nat
  /-- a writer whose staged content is sent to an FTP server on commit -/
  uploadOnCommit : Bool
  io : Nat → IoOutcome
  ops : Nat

namespace FileSource

/-- The outcome of the operation about to be made. -/
def outcome (f : FileSource) : IoOutcome := f.io f.ops

/-- `src_seek`: `fseek(fp, (long)off, SEEK_SET)`, with a 32-bit `long`; a negative offset is
    refused.  `false` is the source's `-1`. -/
def seek (f : FileSource) (off : UInt64) : Bool × FileSource :=
  let f' := { f with ops := f.ops + 1 }
  if f.outcome = .ok ∧ off.toNat % 2 ^ 32 < 2 ^ 31 then
    (true, { f' with pos := off.toNat % 2 ^ 32 })
  else (false, f')

/-- `src_read`: at most `max` bytes from the position on.  `fread` stopped by a device error
    returns what it had; only an error with NOTHING read is reported (`none`). -/
def read (f : FileSource) (max : Nat) : Option Bytes × FileSource :=
  if f.isWrite then (none, f)
  else
    let want := (f.content.drop f.pos).take max
    match f.outcome with
    | .ok => (some want, { f with pos := f.pos + want.length, ops := f.ops + 1 })
    | .fault n =>
      let got := want.take n
      (if got.length = 0 then none else some got,
        { f with pos := f.pos + got.length, ops := f.ops + 1 })

/-- `src_write`: the bytes that went out stay in the file even when the call fails. -/
def write (f : FileSource) (data : Bytes) : Bool × FileSource :=
  if ! f.isWrite then (false, f)
  else
    match f.outcome with
    | .ok => (true, { f with content := f.content ++ data, ops := f.ops + 1 })
    | .fault n =>
      (n ≥ data.length, { f with content := f.content ++ data.take n, ops := f.ops + 1 })

/-- `src_commit_write`: closing a local file is not checked; an FTP target has to take the
    upload. -/
def commitWrite (f : FileSource) : Bool :=
  f.isWrite && (! f.uploadOnCommit || f.outcome == .ok)

end FileSource

end Nishro.CCore

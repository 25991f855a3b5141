import NishroTftp.CCore.Packet
import NishroTftp.CCore.Source
/-
  The session manager of the C engine (`c_core/session.c`): the slot table, the RRQ sender with its
  prebuilt window, the WRQ receiver, the dispatcher `sessmgr_on_tftp` and the timer
  `sessmgr_tick`.

  A function of the source that works on one session (`SessMgr *m, Session *s`) touches that
  session, the manager's shared send batch and its counters, and writes frames and IPC lines; that
  is exactly a `Ctx`, and each such function is a function on it.  `SessMgr.onSlot` runs one on a
  slot of the table.  Fields and arithmetic have the widths of the source (`uint32_t` block
  numbers, `uint64_t` offsets and milliseconds, …).
-/
namespace Nishro.CCore

open Nishro.Wire

/-! ## State -/

def SERVER_TID_BASE : UInt16 := 40000
def SERVER_TID_RANGE : UInt16 := 20000
def SESS_MAX : Nat := 256
def MAX_RETRANS : UInt32 := 5
def PKT_BUF_SZ : Nat := 2048
/-- The capacity every batch is created with. -/
def BATCH_CAP : Nat := 128 * 1024
def PROGRESS_MIN_INTERVAL_MS : UInt64 := 200

inductive SState
  /-- the slot is free -/
  | free
  /-- sent OACK, waiting for ACK(0) -/
  | oackWaitAck0
  /-- actively sending DATA for RRQ -/
  | sendRrq
  /-- receiving DATA for WRQ -/
  | recvWrq
  /-- transfer complete -/
  | done
deriving DecidableEq, Repr

/-- A reading of `now_ms()`.  `GetSystemTimeAsFileTime` counts 100 ns ticks in 64 bits and
    `now_ms` divides them by 10000, so a reading is small; the clock is set after 1970. -/
structure Clock where
  ms : UInt64
  pos : 0 < ms.toNat
  small : ms.toNat < 2 ^ 51

structure Session where
  state : SState
  id : UInt32
  clientMac : Mac
  clientIp : UInt32
  clientPort : UInt16
  /-- our TID -/
  serverPort : UInt16
  vlanId : UInt16
  /-- `TFTP_RRQ` or `TFTP_WRQ` -/
  kind : UInt16
  filename : Bytes
  src : Option FileSource
  totalBytes : UInt64
  bytesDone : UInt64
  blksize : UInt16
  windowsize : UInt8
  timeoutSec : UInt16
  tsize : UInt64
  optionsNegotiated : Bool
  /-- next block to send (RRQ) or expect (WRQ) -/
  nextBlock : UInt32
  /-- last block sent so far in the window -/
  windowLast : UInt32
  eofReached : Bool
  /-- RRQ: file offset of block `nextBlock` -/
  windowFirstOffset : UInt64
  retransCount : UInt32
  nextTimeoutMs : UInt64
  startedMs : UInt64
  lastProgressMs : UInt64
  /-- the prebuilt next window (RRQ only) -/
  prebuilt : Option PcapBatch
  prebuiltFirstBlock : UInt32
  prebuiltLastBlock : UInt32
  prebuiltFirstOffset : UInt64
  prebuiltEndOffset : UInt64
  prebuiltEof : Bool
  prebuiltValid : Bool

/-- A slot after `memset`. -/
def Session.zero : Session where
  state := .free
  id := 0
  clientMac := Vector.replicate 6 0
  clientIp := 0
  clientPort := 0
  serverPort := 0
  vlanId := 0
  kind := 0
  filename := []
  src := none
  totalBytes := 0
  bytesDone := 0
  blksize := 0
  windowsize := 0
  timeoutSec := 0
  tsize := 0
  optionsNegotiated := false
  nextBlock := 0
  windowLast := 0
  eofReached := false
  windowFirstOffset := 0
  retransCount := 0
  nextTimeoutMs := 0
  startedMs := 0
  lastProgressMs := 0
  prebuilt := none
  prebuiltFirstBlock := 0
  prebuiltLastBlock := 0
  prebuiltFirstOffset := 0
  prebuiltEndOffset := 0
  prebuiltEof := false
  prebuiltValid := false

/-- Counters for the stats line. -/
structure SessStats where
  bytesSent : UInt64 := 0
  bytesReceived : UInt64 := 0
  sessionsActive : UInt32 := 0
  sessionsTotal : UInt32 := 0
  sessionsCompleted : UInt32 := 0
  sessionsFailed : UInt32 := 0
  rrqCount : UInt32 := 0
  wrqCount : UInt32 := 0
  errorsSent : UInt32 := 0
  aclDenied : UInt32 := 0

/-- Why a session ended without success. -/
inductive EndReason
  | fileNotFound
  | exceedsSizeLimit
  | writesDisabled
  | writeDenied
  | diskWriteFailed
  | writeCommitFailed
  | clientAborted
  | clientTimeout
deriving DecidableEq, Repr

def EndReason.text : EndReason → String
  | .fileNotFound => "file not found"
  | .exceedsSizeLimit => "exceeds size limit"
  | .writesDisabled => "writes disabled"
  | .writeDenied => "write denied"
  | .diskWriteFailed => "disk write failed"
  | .writeCommitFailed => "write commit failed"
  | .clientAborted => "client aborted"
  | .clientTimeout => "client timeout"

/-- A line for the parent process, before it is formatted: which `emit_session_*` was called and
    with what. -/
inductive IpcEvent
  | sessionStart (s : Session)
  | sessionProgress (s : Session)
  | sessionEnd (s : Session) (ok serverFault : Bool) (reason : Option EndReason) (now : UInt64)

/-- What a call writes: a frame sent at once, a frame of a transmitted queue, an IPC line. -/
inductive Output
  | send (f : UdpFrame)
  | data (q : QueuedFrame)
  | ipc (e : IpcEvent)

/-- What one call on one session works on. -/
structure Ctx where
  s : Session
  /-- `m->batch`, reused across every window send -/
  batch : PcapBatch
  stats : SessStats
  /-- written so far, in order -/
  out : List Output

/-! ## IPC events -/

def emitSessionStart (c : Ctx) : Ctx := { c with out := c.out ++ [.ipc (.sessionStart c.s)] }

/-- Rate-limited progress. -/
def emitSessionProgress (now : Clock) (c : Ctx) : Ctx :=
  let isFinal := c.s.bytesDone == c.s.totalBytes && decide (0 < c.s.totalBytes)
  if ! isFinal ∧ c.s.lastProgressMs ≠ 0 ∧
      now.ms - c.s.lastProgressMs < PROGRESS_MIN_INTERVAL_MS then c
  else
    let s := { c.s with lastProgressMs := now.ms }
    { c with s, out := c.out ++ [.ipc (.sessionProgress s)] }

def emitSessionEnd (now : Clock) (ok serverFault : Bool) (reason : Option EndReason) (c : Ctx) :
    Ctx :=
  { c with out := c.out ++ [.ipc (.sessionEnd c.s ok serverFault reason now.ms)] }

/-! ## Sending -/

/-- The frame that carries `payload` to the session's client. -/
def frameTo (cfg : Config) (s : Session) (payload : Bytes) : UdpFrame where
  dstMac := s.clientMac
  srcMac := cfg.virtualMac
  vlanId := s.vlanId
  srcIp := cfg.virtualIp
  dstIp := s.clientIp
  srcPort := s.serverPort
  dstPort := s.clientPort
  payload := payload

def sendTftpEx (cfg : Config) (payload : Bytes) (countBytes : Bool) (c : Ctx) : Ctx :=
  match buildUdp4 PKT_BUF_SZ (frameTo cfg c.s payload) with
  | none => c
  | some f =>
    { c with
      out := c.out ++ [.send f]
      stats := if countBytes then
          { c.stats with bytesSent := c.stats.bytesSent + UInt64.ofNat payload.length }
        else c.stats }

def sendTftp (cfg : Config) (payload : Bytes) (c : Ctx) : Ctx := sendTftpEx cfg payload true c

def sendError (cfg : Config) (code : UInt16) (msg : String) (c : Ctx) : Ctx :=
  let c := sendTftpEx cfg (tftpBuildError 512 code (ascii msg)) false c
  { c with stats := { c.stats with errorsSent := c.stats.errorsSent + 1 } }

/-- The deadline one timeout from now. -/
def deadline (now : Clock) (s : Session) : UInt64 := now.ms + s.timeoutSec.toUInt64 * 1000

/-- `negotiate`'s treatment of one option: clamp into `[lo, hi]`, the upper bound last. -/
def clampOpt (lo hi x : UInt32) : UInt32 :=
  let x := if x < lo then lo else x
  if hi < x then hi else x

/-- Clamp every option the client asked for into the bounds of the configuration. -/
def negotiate (cfg : Config) (r : TftpReq) : TftpReq :=
  { r with
    blksize := r.blksize.map (clampOpt cfg.blksizeMin cfg.blksizeMax)
    windowsize := r.windowsize.map (clampOpt cfg.windowsizeMin cfg.windowsizeMax)
    timeoutSec := r.timeoutSec.map (clampOpt cfg.timeoutMin cfg.timeoutMax) }

/-! ## RRQ -/

/-- What filling a window hands back: did it succeed, the queue and source it leaves, the last
    block queued, the offset after it, and whether it was a short one. -/
structure Fill where
  ok : Bool
  batch : PcapBatch
  src : FileSource
  last : UInt32
  endOffset : UInt64
  eof : Bool

/-- The loop of `rrq_fill_window`, with `k` rounds to go. -/
def fillLoop (cfg : Config) (s : Session) : Nat → UInt32 → Fill → Fill
  | 0, _, r => r
  | k + 1, block, r =>
    match r.src.read s.blksize.toNat with
    | (none, src) => { r with ok := false, src }
    | (some data, src) =>
      let pkt := tftpBuildData PKT_BUF_SZ block.toUInt16 data
      if pkt = [] then { r with ok := false, src }
      else
        match buildUdp4 PKT_BUF_SZ (frameTo cfg s pkt) with
        | none => { r with ok := false, src }
        | some frame =>
          match r.batch.add ⟨frame, block⟩ with
          | none => { r with src }    -- batch full
          | some batch =>
            let r := { r with batch, src, last := block,
                              endOffset := r.endOffset + UInt64.ofNat data.length }
            if data.length < s.blksize.toNat then { r with eof := true }
            else fillLoop cfg s k (block + 1) r

/-- Queue DATA packets for a full window starting at `firstBlock` / `firstOffset`.  Does not
    transmit. -/
def rrqFillWindow (cfg : Config) (s : Session) (batch : PcapBatch) (src : FileSource)
    (firstBlock : UInt32) (firstOffset : UInt64) : Fill :=
  let last := if firstBlock = 0 then 0 else firstBlock - 1
  match src.seek firstOffset with
  | (false, src) => ⟨false, batch, src, last, firstOffset, false⟩
  | (true, src) =>
    fillLoop cfg s s.windowsize.toNat firstBlock ⟨true, batch, src, last, firstOffset, false⟩

/-- Prebuild the NEXT window while we wait for an ACK on the current one.  The frames are appended
    to whatever the batch already holds. -/
def rrqPrebuildNext (cfg : Config) (s : Session) : Session :=
  match s.src, s.prebuilt with
  | some src, some pb =>
    if s.eofReached then s
    else
      let first := s.windowLast + 1
      let off := s.windowFirstOffset +
        (s.windowLast + 1 - s.nextBlock).toUInt64 * s.blksize.toUInt64
      let r := rrqFillWindow cfg s pb src first off
      let s := { s with src := some r.src, prebuilt := some r.batch }
      if ! r.ok then { s with prebuiltValid := false }
      else
        { s with
          prebuiltFirstBlock := first
          prebuiltLastBlock := r.last
          prebuiltFirstOffset := off
          prebuiltEndOffset := r.endOffset
          prebuiltEof := r.eof
          prebuiltValid := true }
  | _, _ => s

/-- The current window, read from disk into the shared batch. -/
def windowFill (cfg : Config) (c : Ctx) (src : FileSource) : Fill :=
  rrqFillWindow cfg c.s c.batch src c.s.nextBlock c.s.windowFirstOffset

/-- The read failed: tell the client and give up. -/
def windowFailed (cfg : Config) (c : Ctx) : Ctx :=
  let c := sendError cfg TFTP_ERR_ACCESS "read error" c
  { c with s := { c.s with state := .done } }

/-- The window is out: note how far it went, arm the timer, prebuild the next one. -/
def windowSent (cfg : Config) (now : Clock) (r : Fill) (c : Ctx) : Ctx :=
  { c with
    s := rrqPrebuildNext cfg { c.s with
      windowLast := r.last, eofReached := r.eof, nextTimeoutMs := deadline now c.s }
    stats := { c.stats with
      bytesSent := c.stats.bytesSent + (r.endOffset - c.s.windowFirstOffset) } }

/-- Transmit the current window (from disk) then prebuild the next.  What was queued is
    transmitted in either case. -/
def rrqSendWindow (cfg : Config) (now : Clock) (c : Ctx) : Ctx :=
  match c.s.src with
  | none => c
  | some src =>
    let r := windowFill cfg c src
    let c := { c with
      s := { c.s with prebuiltValid := false, src := some r.src }
      batch := r.batch.flushed
      out := c.out ++ r.batch.frames.map .data }
    if ! r.ok then windowFailed cfg c else windowSent cfg now r c

/-- Map a 16-bit ACK back to 32-bit space, anchored on `window_last`. -/
def ackCand (windowLast : UInt32) (ack : UInt16) : UInt32 :=
  let cand := withLow windowLast ack
  if windowLast < cand then cand - 0x10000
  else if cand + 0x10000 ≤ windowLast then cand + 0x10000
  else cand

/-- `bytes_done` once block `cand` is acknowledged. -/
def ackedBytes (s : Session) (cand : UInt32) : UInt64 :=
  let reached := s.windowFirstOffset + (cand + 1 - s.nextBlock).toUInt64 * s.blksize.toUInt64
  if s.totalBytes < reached then s.totalBytes else reached

/-- The last block is acknowledged: report and finish. -/
def rrqFinish (now : Clock) (c : Ctx) : Ctx :=
  let c := emitSessionEnd now true false none (emitSessionProgress now c)
  { c with
    s := { c.s with state := .done }
    stats := { c.stats with sessionsCompleted := c.stats.sessionsCompleted + 1 } }

/-- The session once block `cand` is acknowledged and there is more to send. -/
def ackAdvance (cand : UInt32) (s : Session) : Session :=
  { s with nextBlock := cand + 1, windowFirstOffset := s.bytesDone, retransCount := 0 }

/-- Fast path: flush the window that is already built, then prebuild the one after it. -/
def rrqFastPath (cfg : Config) (now : Clock) (c : Ctx) : Ctx :=
  let frames := (c.s.prebuilt.map (·.frames)).getD []
  let s := { c.s with
    windowLast := c.s.prebuiltLastBlock
    eofReached := c.s.prebuiltEof
    prebuilt := c.s.prebuilt.map (·.flushed)
    nextTimeoutMs := deadline now c.s
    prebuiltValid := false }
  let c := emitSessionProgress now { c with
    s
    out := c.out ++ frames.map .data
    stats := { c.stats with
      bytesSent := c.stats.bytesSent + (s.prebuiltEndOffset - s.prebuiltFirstOffset) } }
  { c with s := rrqPrebuildNext cfg c.s }

/-- Slow path: rebuild the window from disk. -/
def rrqSlowPath (cfg : Config) (now : Clock) (c : Ctx) : Ctx :=
  rrqSendWindow cfg now (emitSessionProgress now { c with s := { c.s with prebuiltValid := false } })

/-- On ACK(N): advance past N and send the next window, or finish. -/
def rrqOnAck (cfg : Config) (now : Clock) (ack : UInt16) (c : Ctx) : Ctx :=
  let cand := ackCand c.s.windowLast ack
  if cand < c.s.nextBlock then c    -- stale ack
  else
    let c := { c with s := { c.s with bytesDone := ackedBytes c.s cand } }
    if c.s.eofReached ∧ c.s.windowLast ≤ cand then rrqFinish now c
    else
      let c := { c with s := ackAdvance cand c.s }
      if c.s.prebuiltValid ∧ c.s.prebuiltFirstBlock = c.s.nextBlock ∧ cand = c.s.windowLast then
        rrqFastPath cfg now c
      else rrqSlowPath cfg now c

/-! ## WRQ -/

def wrqSendAck (cfg : Config) (now : Clock) (block : UInt16) (c : Ctx) : Ctx :=
  let c := sendTftp cfg (tftpBuildAck 32 block) c
  { c with s := { c.s with nextTimeoutMs := deadline now c.s } }

/-- Map a 16-bit DATA number into 32-bit space, anchored on `next_block`. -/
def dataCand (nextBlock : UInt32) (block : UInt16) : UInt32 :=
  let cand := withLow nextBlock block
  if cand + 0x10000 ≤ nextBlock then cand + 0x10000
  else if nextBlock + 0x8000 < cand then cand - 0x10000
  else cand

/-- `s->src && src_write(s->src, payload, len) < 0`, negated. -/
def writeBlock (payload : Bytes) : Option FileSource → Bool × Option FileSource
  | none => (true, none)
  | some f => ((f.write payload).1, some (f.write payload).2)

/-- The last block has been written: commit the file and report. -/
def wrqFinish (now : Clock) (c : Ctx) : Ctx :=
  let committed := c.s.src.any (·.commitWrite)
  let c := { c with s := { c.s with src := none } }
  let c := if committed then
      emitSessionEnd now true false none
        { c with stats := { c.stats with sessionsCompleted := c.stats.sessionsCompleted + 1 } }
    else
      emitSessionEnd now false true (some .writeCommitFailed)
        { c with stats := { c.stats with sessionsFailed := c.stats.sessionsFailed + 1 } }
  { c with s := { c.s with state := .done } }

/-- An in-order block: check the size cap, write, acknowledge, and finish on a short one. -/
def wrqInOrder (cfg : Config) (now : Clock) (cand : UInt32) (block : UInt16) (payload : Bytes)
    (c : Ctx) : Ctx :=
  if cfg.maxWrqSize ≠ 0 ∧ cfg.maxWrqSize < c.s.bytesDone + UInt64.ofNat payload.length then
    -- policy rejection, not a server fault
    let c := sendError cfg TFTP_ERR_DISK_FULL "over size limit" c
    emitSessionEnd now false false (some .exceedsSizeLimit)
      { c with s := { c.s with state := .done } }
  else
    let w := writeBlock payload c.s.src
    let c := { c with s := { c.s with src := w.2 } }
    if ! w.1 then
      let c := sendError cfg TFTP_ERR_DISK_FULL "write failed" c
      emitSessionEnd now false true (some .diskWriteFailed)
        { c with
          s := { c.s with state := .done }
          stats := { c.stats with sessionsFailed := c.stats.sessionsFailed + 1 } }
    else
      let c := { c with s := { c.s with
        bytesDone := c.s.bytesDone + UInt64.ofNat payload.length
        nextBlock := cand + 1
        retransCount := 0 } }
      let c := emitSessionProgress now (wrqSendAck cfg now block c)
      if payload.length < c.s.blksize.toNat then wrqFinish now c else c

def wrqOnData (cfg : Config) (now : Clock) (block : UInt16) (payload : Bytes) (c : Ctx) : Ctx :=
  let cand := dataCand c.s.nextBlock block
  if cand < c.s.nextBlock then wrqSendAck cfg now block c    -- duplicate: re-ACK and discard
  else if c.s.nextBlock < cand then c    -- out of order: drop, wait for retransmit
  else wrqInOrder cfg now cand block payload c

/-! ## Requests -/

/-- What the layers below answer while a request is handled: the file sources that can be opened
    (with the size `src_open_read` reports) and whether the prebuild batch can be allocated. -/
structure Env where
  openRead : Bytes → Option (FileSource × UInt64)
  openWrite : Bytes → Option FileSource
  batchNew : Bool

/-- The transfer parameters a request asks for, narrowed to the fields of the session. -/
def withOptions (req : TftpReq) (s : Session) : Session :=
  { s with
    blksize := (req.blksize.map (·.toUInt16)).getD TFTP_BLKSIZE_DEFAULT
    windowsize := (req.windowsize.map (·.toUInt8)).getD TFTP_WINDOWSIZE_DEFAULT
    timeoutSec := (req.timeoutSec.map (·.toUInt16)).getD TFTP_TIMEOUT_DEFAULT }

/-- Does the request carry an option that is acknowledged? -/
def hasOptions (req : TftpReq) : Bool :=
  req.blksize.isSome || req.windowsize.isSome || req.timeoutSec.isSome || req.tsize.isSome

/-- A request turned down before the transfer starts: ERROR to the client, then both events. -/
def rejectRequest (cfg : Config) (now : Clock) (code : UInt16) (msg : String) (reason : EndReason)
    (c : Ctx) : Ctx :=
  let c := sendError cfg code msg c
  let c := { c with s := { c.s with state := .done } }
  emitSessionEnd now false false (some reason) (emitSessionStart c)

/-- Enter the data phase of a download at block 1. -/
def dataPhase (c : Ctx) : Ctx :=
  { c with s := { c.s with state := .sendRrq, nextBlock := 1, windowFirstOffset := 0 } }

/-- `start_rrq` past its checks: options, session_start, then OACK or the first window. -/
def rrqBegin (cfg : Config) (now : Clock) (env : Env) (req : TftpReq) (sz : UInt64) (c : Ctx) :
    Ctx :=
  let req := negotiate cfg req
  let req := { req with tsize := req.tsize.map fun _ => sz }    -- server fills tsize
  let c := { c with s := { withOptions req c.s with
    tsize := sz
    optionsNegotiated := hasOptions req } }
  let c := emitSessionStart c
  let c := { c with s := { c.s with
    prebuilt := if env.batchNew then some (.new BATCH_CAP) else none } }
  if c.s.optionsNegotiated then
    let c := sendTftp cfg (tftpBuildOack 512 req) c
    { c with s := { c.s with state := .oackWaitAck0, nextTimeoutMs := deadline now c.s } }
  else
    rrqSendWindow cfg now (dataPhase c)

def startRrq (cfg : Config) (now : Clock) (env : Env) (req : TftpReq) (c : Ctx) : Ctx :=
  let c := { c with s := withOptions req c.s }
  match env.openRead req.filename with
  | none => rejectRequest cfg now TFTP_ERR_FILE_NOT_FOUND "not found" .fileNotFound c
  | some (src, sz) =>
    let c := { c with s := { c.s with src := some src, totalBytes := sz } }
    if cfg.maxRrqSize ≠ 0 ∧ cfg.maxRrqSize < sz then
      rejectRequest cfg now TFTP_ERR_ACCESS "over size limit" .exceedsSizeLimit c
    else rrqBegin cfg now env req sz c

/-- `start_wrq` past its checks: options, session_start, then OACK or ACK 0. -/
def wrqBegin (cfg : Config) (now : Clock) (req : TftpReq) (c : Ctx) : Ctx :=
  let c := { c with s := { withOptions req c.s with
    totalBytes := req.tsize.getD 0
    optionsNegotiated := hasOptions req } }
  let c := emitSessionStart c
  let c := if c.s.optionsNegotiated then sendTftp cfg (tftpBuildOack 512 req) c
    else wrqSendAck cfg now 0 c
  { c with s := { c.s with state := .recvWrq, nextBlock := 1 } }

/-- The announced size is over the cap. -/
def wrqTooBig (cfg : Config) (req : TftpReq) : Bool :=
  cfg.maxWrqSize ≠ 0 && req.tsize.any fun t => decide (cfg.maxWrqSize < t)

def startWrq (cfg : Config) (now : Clock) (env : Env) (req : TftpReq) (c : Ctx) : Ctx :=
  let c := { c with s := withOptions req c.s }
  if ! cfg.wrqEnabled then
    rejectRequest cfg now TFTP_ERR_ACCESS "wrq disabled" .writesDisabled c
  else
    match env.openWrite req.filename with
    | none => rejectRequest cfg now TFTP_ERR_ACCESS "write denied" .writeDenied c
    | some src =>
      let c := { c with s := { c.s with src := some src } }
      let req := negotiate cfg req
      if wrqTooBig cfg req then
        rejectRequest cfg now TFTP_ERR_ACCESS "over size limit" .exceedsSizeLimit c
      else wrqBegin cfg now req c

/-! ## Packets and ticks for one session -/

/-- The counters take note of a DATA packet. -/
def countReceived (tftp : Bytes) (c : Ctx) : Ctx :=
  { c with stats := { c.stats with
      bytesReceived := c.stats.bytesReceived + UInt64.ofNat (tftp.length - 4) } }

/-- The client aborted from its side. -/
def clientAborted (now : Clock) (c : Ctx) : Ctx :=
  let c := emitSessionEnd now false false (some .clientAborted) c
  { c with s := { c.s with state := .done } }

/-- The part of `sessmgr_on_tftp` after `find_or_alloc`: a non-request packet for a session. -/
def onSessionPacket (cfg : Config) (now : Clock) (tftp : Bytes) (c : Ctx) : Ctx :=
  let op := at16 tftp 0
  if op = TFTP_ACK ∧ 4 ≤ tftp.length then
    match c.s.state with
    | .oackWaitAck0 =>
      if at16 tftp 2 = 0 ∧ c.s.kind = TFTP_RRQ then rrqSendWindow cfg now (dataPhase c) else c
    | .sendRrq => rrqOnAck cfg now (at16 tftp 2) c
    | _ => c
  else if op = TFTP_DATA ∧ 4 ≤ tftp.length ∧ c.s.state = .recvWrq then
    wrqOnData cfg now (at16 tftp 2) (tftp.drop 4) (countReceived tftp c)
  else if op = TFTP_ERROR then clientAborted now c
  else c

def freeSlot (c : Ctx) : Ctx :=
  { c with
    s := { c.s with src := none, prebuilt := none, prebuiltValid := false, state := .free }
    stats := if c.s.state = .free then c.stats
      else { c.stats with sessionsActive := c.stats.sessionsActive - 1 } }

/-- The timer of this slot has run out. -/
def expired (now : Clock) (s : Session) : Bool :=
  s.nextTimeoutMs ≠ 0 && s.nextTimeoutMs ≤ now.ms

/-- What an expired timer makes a session send again. -/
def retransmit (cfg : Config) (now : Clock) (c : Ctx) : Ctx :=
  match c.s.state with
  | .oackWaitAck0 => { c with s := { c.s with nextTimeoutMs := deadline now c.s } }
  | .sendRrq => rrqSendWindow cfg now { c with s := { c.s with prebuiltValid := false } }
  | .recvWrq =>
    wrqSendAck cfg now (if 1 < c.s.nextBlock then (c.s.nextBlock - 1).toUInt16 else 0) c
  | _ => c

/-- One more expiry. -/
def bumpRetrans (c : Ctx) : Ctx :=
  { c with s := { c.s with retransCount := c.s.retransCount + 1 } }

/-- The client went silent: report and free the slot. -/
def timeOut (now : Clock) (c : Ctx) : Ctx :=
  freeSlot (emitSessionEnd now false false (some .clientTimeout) c)

/-- The body of the loop in `sessmgr_tick`. -/
def tickSlot (cfg : Config) (now : Clock) (c : Ctx) : Ctx :=
  match c.s.state with
  | .free => c
  | .done => freeSlot c
  | _ =>
    if ! expired now c.s then c
    else if MAX_RETRANS < (bumpRetrans c).s.retransCount then timeOut now (bumpRetrans c)
    else retransmit cfg now (bumpRetrans c)

/-! ## The manager -/

structure SessMgr where
  cfg : Config
  batch : PcapBatch
  slots : Fin SESS_MAX → Session
  nextId : UInt32
  nextServerTid : UInt16
  stats : SessStats

/-- `sessmgr_new`. -/
def sessmgrNew (cfg : Config) : SessMgr where
  cfg := cfg
  batch := .new BATCH_CAP
  slots := fun _ => .zero
  nextId := 0
  nextServerTid := 0
  stats := {}

/-- Something written, and the slot it was written for (none: the "server busy" reply). -/
structure SlotOutput where
  slot : Option (Fin SESS_MAX)
  out : Output

/-- Replace the session in slot `i`. -/
def SessMgr.setSlot (m : SessMgr) (i : Fin SESS_MAX) (s : Session) : SessMgr :=
  { m with slots := fun j => if j = i then s else m.slots j }

/-- Run a session function on slot `i`. -/
def SessMgr.onSlot (m : SessMgr) (i : Fin SESS_MAX) (f : Ctx → Ctx) :
    SessMgr × List SlotOutput :=
  let c := f ⟨m.slots i, m.batch, m.stats, []⟩
  ({ m.setSlot i c.s with batch := c.batch, stats := c.stats }, c.out.map (⟨some i, ·⟩))

/-- `find_or_alloc`: the first non-free slot with this client address, client port and TID. -/
def findOrAlloc (m : SessMgr) (ip : UInt32) (cport sport : UInt16) : Option (Fin SESS_MAX) :=
  (List.finRange SESS_MAX).find? fun i =>
    (m.slots i).state ≠ .free && ((m.slots i).clientIp == ip && (m.slots i).clientPort == cport &&
      (m.slots i).serverPort == sport)

/-- The cap on active sessions: `max_sessions`, with 0 for none, within the table. -/
def sessionCap (cfg : Config) : UInt32 :=
  let cap := if cfg.maxSessions = 0 then UInt32.ofNat SESS_MAX else cfg.maxSessions
  if UInt32.ofNat SESS_MAX < cap then UInt32.ofNat SESS_MAX else cap

/-- `alloc_slot`: the first free slot, unless the cap is reached. -/
def allocSlot (m : SessMgr) : Option (Fin SESS_MAX) :=
  if sessionCap m.cfg ≤ m.stats.sessionsActive then none
  else (List.finRange SESS_MAX).find? fun i => (m.slots i).state = .free

/-- The TID handed out when the counter stands at `t`. -/
def serverTid (t : UInt16) : UInt16 := SERVER_TID_BASE + t % SERVER_TID_RANGE

/-- Where a packet came from and where it went. -/
structure Sender where
  clientMac : Mac
  clientIp : UInt32
  clientPort : UInt16
  serverPort : UInt16
  vlanId : UInt16
deriving DecidableEq

/-- `str_copy` into `filename[MAX_PATHLEN]`. -/
def strCopy (dstSize : Nat) (src : Bytes) : Bytes := src.take (dstSize - 1)

/-- The session a request is entered as, in a slot that was just zeroed. -/
def newSession (m : SessMgr) (now : Clock) (p : Sender) (op : UInt16) (req : TftpReq) : Session :=
  { Session.zero with
    id := m.nextId + 1
    clientMac := p.clientMac
    clientIp := p.clientIp
    clientPort := p.clientPort
    serverPort := serverTid m.nextServerTid
    vlanId := p.vlanId
    kind := op
    startedMs := now.ms
    filename := strCopy MAX_PATHLEN req.filename }

/-- No capacity: answer ERROR from a fresh TID. -/
def replyBusy (m : SessMgr) (p : Sender) : SessMgr × List SlotOutput :=
  let frame : UdpFrame :=
    { dstMac := p.clientMac, srcMac := m.cfg.virtualMac, vlanId := p.vlanId,
      srcIp := m.cfg.virtualIp, dstIp := p.clientIp, srcPort := serverTid m.nextServerTid,
      dstPort := p.clientPort,
      payload := tftpBuildError 64 TFTP_ERR_NOT_DEFINED (ascii "server busy") }
  ({ m with nextServerTid := m.nextServerTid + 1 },
    ((buildUdp4 PKT_BUF_SZ frame).map fun f => (⟨none, .send f⟩ : SlotOutput)).toList)

/-- Open a session for a parsed request in slot `i`. -/
def openSession (m : SessMgr) (now : Clock) (env : Env) (p : Sender) (op : UInt16) (req : TftpReq)
    (i : Fin SESS_MAX) : SessMgr × List SlotOutput :=
  let m' := { m.setSlot i (newSession m now p op req) with
    nextId := m.nextId + 1
    nextServerTid := m.nextServerTid + 1
    stats := { m.stats with
      sessionsTotal := m.stats.sessionsTotal + 1
      sessionsActive := m.stats.sessionsActive + 1
      rrqCount := if op = TFTP_RRQ then m.stats.rrqCount + 1 else m.stats.rrqCount
      wrqCount := if op = TFTP_RRQ then m.stats.wrqCount else m.stats.wrqCount + 1 } }
  m'.onSlot i fun c =>
    if op = TFTP_RRQ then startRrq m.cfg now env req c else startWrq m.cfg now env req c

/-- The ACL verdict on a request; an untagged one is looked up as VLAN 0. -/
def SessMgr.admits (m : SessMgr) (p : Sender) : Bool :=
  aclAllowed m.cfg (if p.vlanId = VLAN_NONE then 0 else p.vlanId) p.clientIp .tftp

/-- The request half of `sessmgr_on_tftp`. -/
def onRequest (m : SessMgr) (now : Clock) (env : Env) (p : Sender) (tftp : Bytes) :
    SessMgr × List SlotOutput :=
  if ! m.admits p then
    ({ m with stats := { m.stats with aclDenied := m.stats.aclDenied + 1 } }, [])
  else
    match tftpParseRequest tftp with
    | none => (m, [])
    | some req =>
      match allocSlot m with
      | none => replyBusy m p
      | some i => openSession m now env p (at16 tftp 0) req i

/-- Is this payload a request, by its opcode? -/
def isRequest (tftp : Bytes) : Bool := at16 tftp 0 == TFTP_RRQ || at16 tftp 0 == TFTP_WRQ

/-- `sessmgr_on_tftp` (its return value, which no caller reads, is left out). -/
def sessmgrOnTftp (m : SessMgr) (now : Clock) (env : Env) (p : Sender) (tftp : Bytes) :
    SessMgr × List SlotOutput :=
  if tftp.length < 2 then (m, [])
  else if isRequest tftp then onRequest m now env p tftp
  else
    match findOrAlloc m p.clientIp p.clientPort p.serverPort with
    | none => (m, [])
    | some i => m.onSlot i (onSessionPacket m.cfg now tftp)

/-- One round of the loop in `sessmgr_tick`, with what was written before it. -/
def tickVisit (now : Clock) (acc : SessMgr × List SlotOutput) (i : Fin SESS_MAX) :
    SessMgr × List SlotOutput :=
  let r := acc.1.onSlot i (tickSlot acc.1.cfg now)
  (r.1, acc.2 ++ r.2)

/-- `sessmgr_tick`: the slots in order. -/
def sessmgrTick (m : SessMgr) (now : Clock) : SessMgr × List SlotOutput :=
  (List.finRange SESS_MAX).foldl (tickVisit now) (m, [])

/-! ## Runs of the manager -/

/-- What can happen to a manager: a TFTP payload arrives, a tick, a new configuration. -/
inductive Event
  | tftp (now : Clock) (env : Env) (p : Sender) (payload : Bytes)
  | tick (now : Clock)
  | configChanged (cfg : Config)

/-- One event, with what it writes. -/
def stepOut (m : SessMgr) : Event → SessMgr × List SlotOutput
  | .tftp now env p payload => sessmgrOnTftp m now env p payload
  | .tick now => sessmgrTick m now
  | .configChanged cfg => ({ m with cfg }, [])

/-- One event. -/
def step (m : SessMgr) (e : Event) : SessMgr := (stepOut m e).1

end Nishro.CCore

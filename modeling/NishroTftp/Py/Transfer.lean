import NishroTftp.Py.Protocol
import NishroTftp.Py.Stats
/-
  The two transfer loops of a Python session (`tftp/session.py`): `_send_file` and `_recv_file`.

  A coroutine is modelled between its waits.  Both loops wait for one thing only, the next packet
  of the session or the end of a timeout (`Input`); what they do in between is one step, and a step
  ends in the next wait, in a normal return or in an exception (`Next`).  Writing to the temporary
  file is awaited too, but nothing else of the session runs meanwhile.

  What a step does to the outside is a list of effects, in order: packets sent, counters bumped.
-/
namespace Nishro.Py

/-! ## Effects, exceptions, waits -/

inductive Effect
  /-- a TFTP packet to the client -/
  | send (payload : Bytes)
  /-- `STATS.bump` -/
  | bump (k : Counter) (amount : Nat)
deriving DecidableEq, Repr

/-- `_send`. -/
def send (payload : Bytes) : List Effect := [.send payload, .bump .bytesSent payload.length]

/-- `_send_error`. -/
def sendError (e : TFTPError) : List Effect := [.send (packError e), .bump .tftpErrors 1]

/-- The packets among the effects. -/
def sent (fx : List Effect) : List Bytes :=
  fx.filterMap fun
    | .send payload => some payload
    | .bump _ _ => none

/-- By how much a counter is bumped. -/
def bumped (k : Counter) (fx : List Effect) : Nat :=
  (fx.map fun
    | .send _ => 0
    | .bump j n => if j = k then n else 0).sum

/-- An exception: the protocol's own, or any other with its text. -/
inductive Exc
  | tftp (e : TFTPError)
  | other (what : Str)
deriving DecidableEq, Repr

/-- What ends a wait.  A write to the temporary file may fail: `fault` says after how many writes
    of this step one does, and with what text. -/
inductive Input
  | packet (pkt : Bytes) (fault : Option (Nat × Str))
  | timeout

/-- Where a step of a loop ends. -/
inductive Next (σ : Type)
  | wait (s : σ)
  | ret (s : σ)
  | raise (s : σ) (e : Exc)

/-- Does the step go on to another wait? -/
def Next.waiting {σ : Type} : Next σ → Option σ
  | .wait s => some s
  | _ => none

/-- The state a step ends in. -/
def Next.state {σ : Type} : Next σ → σ
  | .wait s | .ret s | .raise s _ => s

/-- The first of `count` numbers from `start` on whose wire form is `wire`. -/
def absolute (start count : Nat) (wire : UInt16) : Option Nat :=
  (List.range' start count).find? fun c => c % 65536 == wire.toNat

/-! ## `_send_file` -/

/-- The parameters and the variables of `_send_file`. -/
structure Sender where
  data : Bytes
  blksize : Int
  /-- `max(1, neg.windowsize)` -/
  windowsize : Int
  maxRetries : Int
  lastAck : Nat
  retries : Nat
  /-- `info.bytes_transferred` -/
  bytesTransferred : Int

/-- At the head of the function. -/
def Sender.new (data : Bytes) (blksize windowsize maxRetries : Int) : Sender :=
  ⟨data, blksize, max 1 windowsize, maxRetries, 0, 0, 0⟩

/-- `(total // blksize) + 1`. -/
def totalBlocks (len blksize : Int) : Int := Int.fdiv len blksize + 1

def Sender.totalBlocks (s : Sender) : Int := Py.totalBlocks s.data.length s.blksize

/-- `slice_block(n)`; both bounds are non-negative wherever it is called on a non-empty string. -/
def Sender.sliceBlock (s : Sender) (n : Nat) : Bytes :=
  (s.data.drop (((n : Int) - 1) * s.blksize).toNat).take s.blksize.toNat

/-- `window_end - last_ack`: how many blocks the window has. -/
def Sender.windowLength (s : Sender) : Nat :=
  (min ((s.lastAck : Int) + s.windowsize) s.totalBlocks - s.lastAck).toNat

/-- The DATA packet of block `bn`. -/
def Sender.dataPacket (s : Sender) (bn : Nat) : Bytes := packData (UInt16.ofNat bn) (s.sliceBlock bn)

/-- The blocks `window_start, …, window_end`, sent. -/
def Sender.sendWindow (s : Sender) : List Effect :=
  (List.range' (s.lastAck + 1) s.windowLength).flatMap fun bn => send (s.dataPacket bn)

/-- The head of the loop: the window, then the wait. -/
def Sender.loop (s : Sender) : Next Sender × List Effect :=
  if (s.lastAck : Int) < s.totalBlocks then (.wait s, s.sendWindow) else (.ret s, [])

/-- An acknowledgement of a block of the window. -/
def Sender.onAck (s : Sender) (wire : UInt16) : Sender :=
  match absolute (s.lastAck + 1) s.windowLength wire with
  | some c =>
    { s with lastAck := c, retries := 0, bytesTransferred := min s.data.length (c * s.blksize) }
  | none => s

def timeoutError (what : String) : TFTPError := ⟨ERR_UNDEFINED, str what⟩

/-- What comes after the wait. -/
def Sender.resume (s : Sender) : Input → Next Sender × List Effect
  | .timeout =>
    let s := { s with retries := s.retries + 1 }
    if s.maxRetries < (s.retries : Int) then
      (.raise s (.tftp (timeoutError "timeout waiting for ACK")), [])
    else s.loop
  | .packet pkt _ =>
    match peekOpcode pkt with
    | .error e => (.raise s (.tftp e), [])
    | .ok op =>
      if op = OP_ERROR then
        match parseError pkt with
        | .error e => (.raise s (.tftp e), [])
        | .ok err => (.raise s (.tftp err), [])
      else if op ≠ OP_ACK then s.loop
      else
        match parseAck pkt with
        | .error e => (.raise s (.tftp e), [])
        | .ok wire => (s.onAck wire).loop

/-! ## `_recv_file` -/

/-- The parameters and the variables of `_recv_file`. -/
structure Receiver where
  blksize : Int
  /-- `max(1, neg.windowsize)` -/
  windowsize : Int
  maxRetries : Int
  maxWrqSize : Int
  allowRollover : Bool
  expected : Nat
  retries : Nat
  windowReceived : List (Nat × Bytes)
  /-- what the temporary file holds -/
  file : Bytes
  /-- `info.bytes_transferred` -/
  bytesTransferred : Nat

def Receiver.new (blksize windowsize maxRetries maxWrqSize : Int) (allowRollover : Bool) : Receiver :=
  ⟨blksize, max 1 windowsize, maxRetries, maxWrqSize, allowRollover, 1, 0, [], [], 0⟩

/-- The acknowledgement of everything up to `expected`. -/
def Receiver.ack (r : Receiver) : List Effect := send (packAck (UInt16.ofNat (r.expected - 1)))

/-- `await fh.write(buf)` and the accounting after it. -/
def Receiver.store (r : Receiver) (buf : Bytes) : Receiver :=
  { r with file := r.file ++ buf, bytesTransferred := r.bytesTransferred + buf.length,
           expected := r.expected + 1 }

/-- The count of received bytes goes with each write. -/
def received (bufs : List Bytes) : List Effect := bufs.map fun buf => .bump .bytesReceived buf.length

/-- The buffered blocks from `n` on, as far as they are contiguous: what the loop
    `while expected in window_received` pops.  It ends after as many rounds as there are blocks. -/
def contiguous (fuel n : Nat) (w : List (Nat × Bytes)) : List Bytes :=
  match fuel with
  | 0 => []
  | fuel + 1 =>
    match w.lookup n with
    | some buf => buf :: contiguous fuel (n + 1) w
    | none => []

/-- `window_received[n] = payload`. -/
def setReceived (w : List (Nat × Bytes)) (n : Nat) (payload : Bytes) : List (Nat × Bytes) :=
  (n, payload) :: w.filter (·.1 ≠ n)

/-- The loop that drains the buffer; a write in it may fail. -/
def Receiver.drain (r : Receiver) (fault : Option (Nat × Str)) :
    Receiver × Option Str × List Effect :=
  let bufs := contiguous r.windowReceived.length r.expected r.windowReceived
  let (bufs, failed) :=
    match fault with
    | some (n, what) => if n < bufs.length then (bufs.take n, some what) else (bufs, none)
    | none => (bufs, none)
  let upTo := r.expected + bufs.length
  ({ bufs.foldl Receiver.store r with
     windowReceived := r.windowReceived.filter fun m => ! (r.expected ≤ m.1 && m.1 < upTo) },
    failed, received bufs)

def exceededError (max : Int) : TFTPError :=
  ⟨ERR_DISK_FULL, str "upload exceeded max_wrq_size (" ++ (toString max).toList ++ str ")"⟩

def rolloverError : TFTPError :=
  ⟨ERR_UNDEFINED, str "upload exceeded 65535 blocks; rollover disabled"⟩

/-- The block that was expected. -/
def Receiver.onExpected (r : Receiver) (payload : Bytes) (fault : Option (Nat × Str)) :
    Next Receiver × List Effect :=
  if r.maxWrqSize ≠ 0 ∧ r.maxWrqSize < (r.bytesTransferred : Int) + payload.length then
    (.raise r (.tftp (exceededError r.maxWrqSize)), [])
  else
    match fault with
    | some (0, what) => (.raise r (.other what), [])
    | fault =>
      let r := r.store payload
      if r.allowRollover = false ∧ 65536 < r.expected then
        (.raise r (.tftp rolloverError), received [payload])
      else
        match r.drain (fault.map fun f => (f.1 - 1, f.2)) with
        | (r, some what, fx) => (.raise r (.other what), received [payload] ++ fx)
        | (r, none, fx) =>
          ((if (payload.length : Int) < r.blksize then .ret r else .wait r),
            received [payload] ++ fx ++ r.ack)

/-- What comes after the wait. -/
def Receiver.resume (r : Receiver) : Input → Next Receiver × List Effect
  | .timeout =>
    let r := { r with retries := r.retries + 1 }
    if r.maxRetries < (r.retries : Int) then
      (.raise r (.tftp (timeoutError "timeout waiting for DATA")), [])
    else (.wait r, r.ack)
  | .packet pkt fault =>
    match peekOpcode pkt with
    | .error e => (.raise r (.tftp e), [])
    | .ok op =>
      if op = OP_ERROR then
        match parseError pkt with
        | .error e => (.raise r (.tftp e), [])
        | .ok err => (.raise r (.tftp err), [])
      else if op ≠ OP_DATA then (.wait r, [])
      else
        match parseData pkt with
        | .error e => (.raise r (.tftp e), [])
        | .ok (wire, payload) =>
          let r := { r with retries := 0 }
          match absolute r.expected r.windowsize.toNat wire with
          | none => (.wait r, r.ack)
          | some n =>
            if n = r.expected then r.onExpected payload fault
            else
              (.wait { r with windowReceived := setReceived r.windowReceived n payload }, r.ack)

end Nishro.Py

import NishroTftp.Py.Options
import NishroTftp.Py.Server
import NishroTftp.Py.Transfer
/-
  A session of the Python engine (`tftp/session.py`): `_run_rrq` and `_run_wrq` up to their first
  wait, the handshake of a download, the transfer loops, and the end of `_safe_run`.

  A session answers to a `World`: is the file locked, what does the cache or the source give, do
  the operations on the file system and the FTP upload succeed.  Every one of them may fail.  The
  functions of `os.path` belong to the world as well, since they differ between systems.

  What a session does on disk and over FTP shows as effects of its own kind (`Stored`): the rename
  that makes an upload visible, and the upload to the FTP server.
-/
namespace Nishro.Py

open Utf8 (Text text)

def TFTP_MAX_RETRIES_DEFAULT : Int := 5

/-! ## What a session knows and what it meets -/

/-- `SessionInfo`, without the times and the samples of the speed. -/
structure SessionInfo where
  kind : Str
  filename : Str
  clientMac : Mac
  blksize : Int := 512
  windowsize : Int := 1
  bytesTransferred : Int := 0
  totalBytes : Option Int := none
  state : Str := str "init"
  serverFault : Bool := false

/-- The arguments a session is made with. -/
structure SessionArgs where
  id : Str
  clientMac : Mac
  request : Request
  cfg : Json
  writeRoot : Str
  enableWrites : Bool
  maxRrqSize : Int
  maxWrqSize : Int
  maxFtpSize : Int
  allowWrqFtp : Bool
  ftpTrigger : Str
  allowRollover : Bool

/-- The functions of `os.path` a session uses. -/
structure PathOps where
  join : Str → Str → Str
  abspath : Str → Str
  sep : Char

/-- What the surroundings of a session answer.  An operation that can raise has the text of the
    exception as its failure. -/
structure World where
  paths : PathOps
  /-- the text of the `FileLockError` if the file is busy -/
  lock : Option Str
  /-- `cache.get_or_load`; `none` if there is no such file -/
  load : Except Str (Option Bytes)
  /-- making the directory and opening the temporary file -/
  openTmp : Option Str
  /-- `os.replace` -/
  replace : Option Str
  /-- `source.upload`: did it say that it worked -/
  upload : Bool
  /-- `str(e)` of an exception of the interpreter's own -/
  describe : PyError → Str
  /-- and of a division by zero -/
  zeroDivision : Str

/-- What becomes of an upload. -/
inductive Stored
  | none
  /-- the file at this path has these bytes now -/
  | replaced (path : Str) (content : Bytes)
  /-- the FTP server has been given these bytes under this name -/
  | uploaded (filename : Str) (content : Bytes)
deriving DecidableEq, Repr

/-! ## Names and paths -/

/-- Does `pat` occur in `s`? -/
def occursIn (pat : Str) : Str → Bool
  | [] => pat == []
  | c :: t => pat.isPrefixOf (c :: t) || occursIn pat t

/-- `_is_server_fault`. -/
def isServerFault (e : TFTPError) : Bool :=
  decide (e.code = ERR_UNDEFINED) && ! (occursIn (str "timeout") (lower e.message) ||
    occursIn (str "client never acked") (lower e.message))

/-- `_is_ftp_name`. -/
def SessionArgs.isFtpName (a : SessionArgs) (filename : Str) : Bool :=
  (str "ftp://").isPrefixOf (lower filename) ||
    (a.ftpTrigger != [] && a.ftpTrigger.isPrefixOf filename)

/-- `_rrq_limit`. -/
def SessionArgs.rrqLimit (a : SessionArgs) (filename : Str) : Int :=
  if a.isFtpName filename then a.maxFtpSize else a.maxRrqSize

/-- `filename.replace("\\", "/").lstrip("/")`. -/
def cleaned (filename : Str) : Str :=
  (filename.map fun c => if c = Char.ofNat 92 then '/' else c).dropWhile (· = '/')

/-- `s.split("/")`. -/
def splitSlash : Str → List Str
  | [] => [[]]
  | c :: t =>
    if c = '/' then [] :: splitSlash t
    else
      match splitSlash t with
      | [] => [[c]]
      | p :: ps => (c :: p) :: ps

/-- `_safe_join`. -/
def safeJoin (paths : PathOps) (root filename : Str) : Except TFTPError Str :=
  if (splitSlash (cleaned filename)).any (· == str "..") then
    .error ⟨ERR_ACCESS, str "path traversal rejected"⟩
  else
    let joined := paths.abspath (paths.join root (cleaned filename))
    let rootAbs := paths.abspath root
    if joined = rootAbs ∨ (rootAbs ++ [paths.sep]).isPrefixOf joined = true then .ok joined
    else .error ⟨ERR_ACCESS, str "path escapes write root"⟩

/-! ## Sessions -/

/-- Where a session waits. -/
inductive Stage
  /-- for the acknowledgement of the OACK; so many attempts are left -/
  | oackSent (left : Nat) (oack : Bytes) (next : Sender)
  | sending (s : Sender)
  | receiving (r : Receiver) (path : Str)
  | ended

structure Session where
  args : SessionArgs
  world : World
  info : SessionInfo
  stage : Stage
  stored : Stored

/-- `TftpSession.__init__`, the stage being that of a session not yet started. -/
def Session.new (args : SessionArgs) (world : World) : Session where
  args := args
  world := world
  info := { kind := if args.request.opcode = OP_RRQ then str "read" else str "write"
            filename := args.request.filename
            clientMac := args.clientMac }
  stage := .ended
  stored := .none

/-- The end of `_run_rrq` and `_run_wrq`, and of `_safe_run` after it. -/
def Session.done (s : Session) : Session × List Effect :=
  ({ s with stage := .ended, info := { s.info with state := str "done" } },
    [.bump .tftpSessionsCompleted 1])

/-- The handlers of `_safe_run`. -/
def Session.fail (s : Session) : Exc → Session × List Effect
  | .tftp e =>
    if isServerFault e then
      ({ s with stage := .ended, info := { s.info with state := e.message, serverFault := true } },
        sendError e ++ [.bump .tftpSessionsFailed 1])
    else ({ s with stage := .ended, info := { s.info with state := e.message } }, sendError e)
  | .other what =>
    let message := str "server error: " ++ what
    ({ s with stage := .ended, info := { s.info with state := message, serverFault := true } },
      sendError ⟨ERR_UNDEFINED, message⟩ ++ [.bump .tftpSessionsFailed 1])

/-- After more effects. -/
def after (fx : List Effect) (r : Session × List Effect) : Session × List Effect := (r.1, fx ++ r.2)

/-! ## Downloads -/

/-- The session after a step of `_send_file`. -/
def Session.sent (s : Session) : Next Sender × List Effect → Session × List Effect
  | (.wait snd, fx) =>
    ({ s with stage := .sending snd
              info := { s.info with bytesTransferred := snd.bytesTransferred } }, fx)
  | (.ret snd, fx) =>
    after fx { s with info := { s.info with bytesTransferred := snd.bytesTransferred } }.done
  | (.raise snd e, fx) =>
    after fx ({ s with info := { s.info with bytesTransferred := snd.bytesTransferred } }.fail e)

/-- `_send_file`, called. -/
def Session.sendFile (s : Session) (snd : Sender) : Session × List Effect :=
  { s with info := { s.info with state := str "transferring" } }.sent snd.loop

def neverAcked : TFTPError := ⟨ERR_UNDEFINED, str "client never acked OACK"⟩

/-- The head of the loop of `_send_oack_await_ack`, with so many attempts left. -/
def Session.sendOack (s : Session) (left : Nat) (oack : Bytes) (next : Sender) :
    Session × List Effect :=
  match left with
  | 0 => s.fail (.tftp neverAcked)
  | left + 1 => ({ s with stage := .oackSent left oack next }, send oack)

/-- What comes after a wait for the acknowledgement of the OACK. -/
def Session.onOack (s : Session) (left : Nat) (oack : Bytes) (next : Sender) :
    Input → Session × List Effect
  | .timeout => s.sendOack left oack next
  | .packet pkt _ =>
    match peekOpcode pkt with
    | .error e => s.fail (.tftp e)
    | .ok op =>
      if op = OP_ACK then
        match parseAck pkt with
        | .error e => s.fail (.tftp e)
        | .ok n => if n = 0 then s.sendFile next else s.sendOack left oack next
      else if op = OP_ERROR then
        match parseError pkt with
        | .error e => s.fail (.tftp e)
        | .ok err => s.fail (.tftp err)
      else s.sendOack left oack next

def unsupportedMode (mode : Str) : TFTPError := ⟨ERR_ILLEGAL_OP, str "unsupported mode " ++ mode⟩

def notFound (filename : Str) : TFTPError := ⟨ERR_NOT_FOUND, str "file not found: " ++ filename⟩

def sizeLimit (size limit : Int) : TFTPError :=
  ⟨ERR_DISK_FULL, str "file exceeds size limit (" ++ intStr size ++ str " > " ++ intStr limit ++
    str ")"⟩

def needsRollover (what : String) (blocks : Int) : TFTPError :=
  ⟨ERR_UNDEFINED, str what ++ str " needs " ++ intStr blocks ++
    str " blocks; block-number rollover disabled"⟩

/-- `mode in ("octet", "netascii")`. -/
def modeSupported (mode : Str) : Bool := mode == str "octet" || mode == str "netascii"

/-- `_run_rrq` once the options are settled: the transfer, and the OACK if there is one. -/
def SessionArgs.settleRrq (a : SessionArgs) (w : World) (data : Bytes) (neg : Negotiated) :
    Except Exc (Sender × Option Bytes) :=
  if neg.blksize = 0 then .error (.other w.zeroDivision)
  else if a.allowRollover = false ∧ 65535 < totalBlocks data.length neg.blksize then
    .error (.tftp (needsRollover "transfer" (totalBlocks data.length neg.blksize)))
  else
    match intAt a.cfg (text "max_retries") TFTP_MAX_RETRIES_DEFAULT with
    | .error e => .error (.other (w.describe e))
    | .ok maxRetries =>
      .ok (Sender.new data neg.blksize neg.windowsize maxRetries,
        if neg.reply = [] then none else some (packOack neg.reply))

/-- `_run_rrq` up to the first packet, with what it fills in of the info on the way. -/
def SessionArgs.openRrq (a : SessionArgs) (w : World) (info : SessionInfo) :
    SessionInfo × Except Exc (Sender × Option Bytes) :=
  let req := a.request
  if modeSupported req.mode = false then (info, .error (.tftp (unsupportedMode req.mode)))
  else
    match w.lock with
    | some busy => (info, .error (.tftp ⟨ERR_ACCESS, busy⟩))
    | none =>
      match w.load with
      | .error what => (info, .error (.other what))
      | .ok none => (info, .error (.tftp (notFound req.filename)))
      | .ok (some data) =>
        let limit := a.rrqLimit req.filename
        if limit ≠ 0 ∧ limit < (data.length : Int) then
          (info, .error (.tftp (sizeLimit data.length limit)))
        else
          let info := { info with totalBytes := some (data.length : Int) }
          match negotiate req.options a.cfg (some data.length) true with
          | .error e => (info, .error (.other (w.describe e)))
          | .ok neg =>
            ({ info with blksize := neg.blksize, windowsize := neg.windowsize },
              a.settleRrq w data neg)

/-- `_run_rrq` up to its first wait. -/
def Session.startRrq (s : Session) : Session × List Effect :=
  after [.bump .tftpRrq 1] <|
    match s.args.openRrq s.world s.info with
    | (info, .error e) => { s with info }.fail e
    | (info, .ok (next, none)) => { s with info }.sendFile next
    | (info, .ok (next, some oack)) => { s with info }.sendOack next.maxRetries.toNat oack next

/-! ## Uploads -/

def uploadFailed : TFTPError := ⟨ERR_UNDEFINED, str "FTP upload failed (see logs)"⟩

/-- After `_recv_file` has received the last block: the rename, and the upload of an FTP target. -/
def Session.received (s : Session) (r : Receiver) (path : Str) : Session × List Effect :=
  match s.world.replace with
  | some what => s.fail (.other what)
  | none =>
    if s.args.isFtpName s.args.request.filename then
      if s.world.upload then
        { s with stored := .uploaded s.args.request.filename r.file }.done
      else s.fail (.tftp uploadFailed)
    else { s with stored := .replaced path r.file }.done

/-- The session after a step of `_recv_file`. -/
def Session.stepped (s : Session) (path : Str) : Next Receiver × List Effect → Session × List Effect
  | (.wait r, fx) =>
    ({ s with stage := .receiving r path
              info := { s.info with bytesTransferred := r.bytesTransferred } }, fx)
  | (.ret r, fx) =>
    after fx ({ s with info := { s.info with bytesTransferred := r.bytesTransferred } }.received
      r path)
  | (.raise r e, fx) =>
    after fx ({ s with info := { s.info with bytesTransferred := r.bytesTransferred } }.fail e)

/-- The size a client has announced: `int(neg.reply["tsize"])`. -/
def advertised (neg : Negotiated) : Option Int :=
  match neg.reply.lookup (str "tsize") with
  | some (c :: t) => clientNumber (c :: t)
  | _ => none

def advertisedTooLarge (size max : Int) : TFTPError :=
  ⟨ERR_DISK_FULL, str "upload exceeds max_wrq_size (" ++ intStr size ++ str " > " ++ intStr max ++
    str ")"⟩

/-- The checks on the announced size. -/
def SessionArgs.checkAdvertised (a : SessionArgs) (w : World) (neg : Negotiated) : Option Exc :=
  match advertised neg with
  | none => none
  | some size =>
    if a.maxWrqSize ≠ 0 ∧ a.maxWrqSize < size then
      some (.tftp (advertisedTooLarge size a.maxWrqSize))
    else if a.allowRollover then none
    else if neg.blksize = 0 then some (.other w.zeroDivision)
    else if 65535 < totalBlocks size neg.blksize then
      some (.tftp (needsRollover "upload" (totalBlocks size neg.blksize)))
    else none

/-- The first answer to a write request: the OACK, or ACK 0. -/
def wrqReply (neg : Negotiated) : Bytes :=
  if neg.reply = [] then packAck 0 else packOack neg.reply

/-- `_run_wrq` once the options are settled, with the state of the session: the first answer goes
    out before the file is opened. -/
def SessionArgs.settleWrq (a : SessionArgs) (w : World) (neg : Negotiated) (path : Str) :
    Option Str × List Effect × Except Exc (Receiver × Str) :=
  match a.checkAdvertised w neg with
  | some e => (none, [], .error e)
  | none =>
    (some (str "receiving"), send (wrqReply neg),
      match intAt a.cfg (text "max_retries") TFTP_MAX_RETRIES_DEFAULT with
      | .error e => .error (.other (w.describe e))
      | .ok maxRetries =>
        match w.openTmp with
        | some what => .error (.other what)
        | none => .ok (Receiver.new neg.blksize neg.windowsize maxRetries a.maxWrqSize
            a.allowRollover, path))

def writesDisabled : TFTPError := ⟨ERR_ACCESS, str "writes disabled"⟩

def ftpWritesDisabled : TFTPError :=
  ⟨ERR_ACCESS, str "writes to FTP are disabled (enable files.allow_wrq_ftp to permit)"⟩

/-- The name an upload is received under. -/
def SessionArgs.uploadName (a : SessionArgs) : Str :=
  if a.isFtpName a.request.filename then str ".wrq_ftp_" ++ a.id ++ str ".bin"
  else a.request.filename

/-- `_run_wrq` up to its first wait, with what it fills in of the info and sends on the way. -/
def SessionArgs.openWrq (a : SessionArgs) (w : World) (info : SessionInfo) :
    SessionInfo × List Effect × Except Exc (Receiver × Str) :=
  let req := a.request
  if a.enableWrites = false then (info, [], .error (.tftp writesDisabled))
  else if modeSupported req.mode = false then
    (info, [], .error (.tftp (unsupportedMode req.mode)))
  else if a.isFtpName req.filename = true ∧ a.allowWrqFtp = false then
    (info, [], .error (.tftp ftpWritesDisabled))
  else
    match safeJoin w.paths a.writeRoot a.uploadName with
    | .error e => (info, [], .error (.tftp e))
    | .ok path =>
      match w.lock with
      | some busy => (info, [], .error (.tftp ⟨ERR_ACCESS, busy⟩))
      | none =>
        match negotiate req.options a.cfg none false with
        | .error e => (info, [], .error (.other (w.describe e)))
        | .ok neg =>
          let (state, fx, r) := a.settleWrq w neg path
          ({ info with blksize := neg.blksize, windowsize := neg.windowsize
                       totalBytes := advertised neg, state := state.getD info.state }, fx, r)

/-- `_run_wrq` up to its first wait. -/
def Session.startWrq (s : Session) : Session × List Effect :=
  after [.bump .tftpWrq 1] <|
    match s.args.openWrq s.world s.info with
    | (info, fx, .error e) => after fx ({ s with info }.fail e)
    | (info, fx, .ok (r, path)) => ({ s with info, stage := .receiving r path }, fx)

/-! ## Runs -/

/-- A new session, up to its first wait. -/
def Session.start (args : SessionArgs) (world : World) : Session × List Effect :=
  if args.request.opcode = OP_RRQ then (Session.new args world).startRrq
  else (Session.new args world).startWrq

/-- A session after its wait is over. -/
def Session.resume (s : Session) (i : Input) : Session × List Effect :=
  match s.stage with
  | .oackSent left oack next => s.onOack left oack next i
  | .sending snd => s.sent (snd.resume i)
  | .receiving r path => s.stepped path (r.resume i)
  | .ended => (s, [])

/-- The session after a sequence of waits, and all it has done. -/
def Session.run (args : SessionArgs) (world : World) (is : List Input) : Session × List Effect :=
  is.foldl (fun r i => after r.2 (r.1.resume i)) (Session.start args world)

/-- A request under a configuration that says nothing. -/
def bareArgs (req : Request) : SessionArgs where
  id := str "0"
  clientMac := Vector.replicate 6 0
  request := req
  cfg := .obj []
  writeRoot := str "/w"
  enableWrites := true
  maxRrqSize := 0
  maxWrqSize := 0
  maxFtpSize := 0
  allowWrqFtp := false
  ftpTrigger := []
  allowRollover := true

/-- Surroundings in which everything succeeds, with one file or none. -/
def obligingWorld (file : Option Bytes) : World where
  paths := ⟨fun a b => a ++ '/' :: b, id, '/'⟩
  lock := none
  load := .ok file
  openTmp := none
  replace := none
  upload := true
  describe := fun _ => []
  zeroDivision := []

/-! ## What stays -/

/-- A session keeps its arguments, its surroundings and its kind. -/
structure Same (s s' : Session) : Prop where
  args : s'.args = s.args
  world : s'.world = s.world
  kind : s'.info.kind = s.info.kind

theorem Same.refl (s : Session) : Same s s := ⟨rfl, rfl, rfl⟩

theorem Same.trans {s t u : Session} (h₁ : Same s t) (h₂ : Same t u) : Same s u :=
  ⟨h₂.args.trans h₁.args, h₂.world.trans h₁.world, h₂.kind.trans h₁.kind⟩

theorem Same.comp {s t u : Session} (h₂ : Same t u) (h₁ : Same s t) : Same s u := h₁.trans h₂

theorem same_fail (s : Session) (e : Exc) : Same s (s.fail e).1 := by
  cases e with
  | other what => exact ⟨rfl, rfl, rfl⟩
  | tftp e =>
    simp only [Session.fail]
    split <;> exact ⟨rfl, rfl, rfl⟩

theorem same_sent (s : Session) (r : Next Sender × List Effect) : Same s (s.sent r).1 := by
  obtain ⟨n, fx⟩ := r
  cases n with
  | wait snd => exact ⟨rfl, rfl, rfl⟩
  | ret snd => exact ⟨rfl, rfl, rfl⟩
  | raise snd e => exact (same_fail _ e).comp ⟨rfl, rfl, rfl⟩

theorem same_sendFile (s : Session) (snd : Sender) : Same s (s.sendFile snd).1 :=
  (same_sent _ _).comp ⟨rfl, rfl, rfl⟩

theorem same_sendOack (s : Session) (left : Nat) (oack : Bytes) (next : Sender) :
    Same s (s.sendOack left oack next).1 := by
  cases left with
  | zero => exact same_fail s _
  | succ left => exact ⟨rfl, rfl, rfl⟩

theorem same_onOack (s : Session) (left : Nat) (oack : Bytes) (next : Sender) (i : Input) :
    Same s (s.onOack left oack next i).1 := by
  cases i with
  | timeout => exact same_sendOack ..
  | packet pkt fault =>
    simp only [Session.onOack]
    split
    · exact same_fail s _
    split
    · split
      · exact same_fail s _
      · split
        · exact same_sendFile s _
        · exact same_sendOack ..
    · split
      · split <;> exact same_fail s _
      · exact same_sendOack ..

theorem same_received (s : Session) (r : Receiver) (path : Str) : Same s (s.received r path).1 := by
  unfold Session.received
  split
  · exact same_fail s _
  · split
    · split
      · exact ⟨rfl, rfl, rfl⟩
      · exact same_fail s _
    · exact ⟨rfl, rfl, rfl⟩

theorem same_stepped (s : Session) (path : Str) (r : Next Receiver × List Effect) :
    Same s (s.stepped path r).1 := by
  obtain ⟨n, fx⟩ := r
  cases n with
  | wait r => exact ⟨rfl, rfl, rfl⟩
  | ret r => exact (same_received _ r path).comp ⟨rfl, rfl, rfl⟩
  | raise r e => exact (same_fail _ e).comp ⟨rfl, rfl, rfl⟩

/-- One step. -/
theorem same_resume (s : Session) (i : Input) : Same s (s.resume i).1 := by
  unfold Session.resume
  split
  · exact same_onOack ..
  · exact same_sent s _
  · exact same_stepped ..
  · exact .refl s

theorem openRrq_info (a : SessionArgs) (w : World) (info : SessionInfo) :
    (a.openRrq w info).1.kind = info.kind ∧ (a.openRrq w info).1.serverFault = info.serverFault := by
  simp only [SessionArgs.openRrq]
  split
  · exact ⟨rfl, rfl⟩
  split
  · exact ⟨rfl, rfl⟩
  split
  · exact ⟨rfl, rfl⟩
  · exact ⟨rfl, rfl⟩
  · split
    · exact ⟨rfl, rfl⟩
    · split <;> exact ⟨rfl, rfl⟩

theorem same_startRrq (s : Session) : Same s s.startRrq.1 := by
  have hkind := (openRrq_info s.args s.world s.info).1
  simp only [Session.startRrq, after]
  generalize s.args.openRrq s.world s.info = r at hkind
  have hsame : Same s { s with info := r.1 } := ⟨rfl, rfl, hkind⟩
  split
  · exact (same_fail _ _).comp hsame
  · exact (same_sendFile _ _).comp hsame
  · exact (same_sendOack _ _ _ _).comp hsame

theorem openWrq_info (a : SessionArgs) (w : World) (info : SessionInfo) :
    ((a.openWrq w info).1.kind = info.kind ∧
      (a.openWrq w info).1.serverFault = info.serverFault) ∧
    ((a.openWrq w info).2.1 = [] ∨ ∃ neg, (a.openWrq w info).2.1 = send (wrqReply neg)) := by
  simp only [SessionArgs.openWrq]
  split
  · exact ⟨⟨rfl, rfl⟩, .inl rfl⟩
  split
  · exact ⟨⟨rfl, rfl⟩, .inl rfl⟩
  split
  · exact ⟨⟨rfl, rfl⟩, .inl rfl⟩
  split
  · exact ⟨⟨rfl, rfl⟩, .inl rfl⟩
  split
  · exact ⟨⟨rfl, rfl⟩, .inl rfl⟩
  split
  · exact ⟨⟨rfl, rfl⟩, .inl rfl⟩
  · refine ⟨⟨rfl, rfl⟩, ?_⟩
    simp only [SessionArgs.settleWrq]
    split
    · exact .inl rfl
    · exact .inr ⟨_, rfl⟩

theorem same_startWrq (s : Session) : Same s s.startWrq.1 := by
  have hkind := (openWrq_info s.args s.world s.info).1.1
  simp only [Session.startWrq, after]
  generalize s.args.openWrq s.world s.info = r at hkind
  have hsame : Same s { s with info := r.1 } := ⟨rfl, rfl, hkind⟩
  split
  · exact (same_fail _ _).comp hsame
  · exact ⟨rfl, rfl, hkind⟩

theorem same_start (args : SessionArgs) (world : World) :
    Same (Session.new args world) (Session.start args world).1 := by
  unfold Session.start
  split
  · exact same_startRrq _
  · exact same_startWrq _

/-- The kind of a session is the word for its opcode, at every time. -/
theorem run_kind (args : SessionArgs) (world : World) (is : List Input) :
    (Session.run args world is).1.info.kind =
      if args.request.opcode = OP_RRQ then str "read" else str "write" := by
  have hrun : ∀ (is : List Input) (r : Session × List Effect), Same (Session.new args world) r.1 →
      Same (Session.new args world) (is.foldl (fun r i => after r.2 (r.1.resume i)) r).1 := by
    intro is
    induction is with
    | nil => exact fun r h => h
    | cons i is ih => exact fun r h => ih _ (h.trans (same_resume r.1 i))
  exact (hrun is _ (same_start args world)).kind

end Nishro.Py

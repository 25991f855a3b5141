import NishroTftp.CCore.Window
import NishroTftp.NegotiationParity
import NishroTftp.Py.Router
/-
  Which downloads the two engines let in, under one configuration.

  The Python engine makes four checks: the mode, the cap of the ROUTE the name takes (FTP or local),
  the options, and the number of blocks if block numbers may not roll over.  The C engine makes one:
  `max_rrq_size`, whatever the route, against the size that a 32-bit `ftell` reports.  So the
  engines agree exactly when that one check happens to give the verdict of the four
  (`AdmitAlike`).
-/
namespace Nishro

open Nishro.CCore Nishro.ZStrings
open Nishro.Utf8 (Text text)
open Nishro.Py (sectionAt intAt intOrZeroAt dictGet toInt truthy boolAt strAt PyError SessionArgs
  World bind_eq_ok map_eq_ok)

/-! ## The arguments of a Python session -/

/-- `merged` in `main.py`: the fields of `tftp`, and the sections `sessions` and `files`. -/
def mergedView (yaml : Json) : Except PyError Json :=
  (sectionAt yaml "tftp").bind fun tftp =>
  (sectionAt yaml "sessions").bind fun sessions =>
  (sectionAt yaml "files").bind fun files =>
  match tftp with
  | .obj ms => .ok (.obj (ms ++ [(text "sessions", sessions), (text "files", files)]))
  | _ => .error .typeError

/-- `int(files_cfg.get(key, legacy) or 0)`. -/
def capAt (files : Json) (key : String) (legacy : Int) : Except PyError Int :=
  (dictGet files (text key)).bind fun
    | none => .ok legacy
    | some x => if truthy x then toInt x else .ok 0

/-- `ftp_trigger` in `_accept`: empty unless the prefix is enabled. -/
def triggerOf (pref : Json) : Except PyError Py.Str :=
  (boolAt pref "enabled" false).bind fun enabled =>
    if enabled then strAt pref "trigger" "f::" else .ok []

/-- The arguments `_accept` makes a session with.  The cap on the number of sessions, which it
    checks before, is not part of them. -/
def acceptArgs (yaml : Json) (id : Py.Str) (mac : Mac) (r : Py.Request) :
    Except PyError SessionArgs :=
  (mergedView yaml).bind fun cfg =>
  (sectionAt cfg "files").bind fun files =>
  (strAt files "write_root" "./tftp_uploads").bind fun writeRoot =>
  (boolAt cfg "enable_writes" false).bind fun enableWrites =>
  (intOrZeroAt files (text "max_file_size")).bind fun legacy =>
  (capAt files "max_rrq_size" legacy).bind fun maxRrq =>
  (capAt files "max_wrq_size" legacy).bind fun maxWrq =>
  (capAt files "max_ftp_size" legacy).bind fun maxFtp =>
  (boolAt files "allow_wrq_ftp" false).bind fun allowWrqFtp =>
  (sectionAt files "ftp_prefix").bind fun pref =>
  (triggerOf pref).bind fun trigger =>
  (boolAt cfg "allow_block_rollover" true).map fun allowRollover =>
    { id, clientMac := mac, request := r, cfg, writeRoot, enableWrites
      maxRrqSize := maxRrq
      maxWrqSize := maxWrq
      maxFtpSize := maxFtp
      allowWrqFtp
      ftpTrigger := trigger
      allowRollover }

/-! ## Who is let in -/

/-- The C session waits for the acknowledgement of its OACK or of a window. -/
def CCore.Session.inTransfer (s : CCore.Session) : Prop :=
  s.state = .oackWaitAck0 ∨ s.state = .sendRrq

/-- The Python session does. -/
def Py.Session.inTransfer (s : Py.Session) : Prop :=
  match s.stage with
  | .oackSent .. | .sending _ => True
  | .receiving .. | .ended => False

/-- `start_rrq` lets the read request `pkt` in, whatever slot it is given. -/
def CoreAdmits (cfg : Config) (env : Env) (pkt : Bytes) (now : Clock) (c : Ctx) : Prop :=
  ∃ req, tftpParseRequest pkt = some req ∧ (startRrq cfg now env req c).s.inTransfer

/-- `_run_rrq` lets it in. -/
def PyAdmits (yaml : Json) (w : World) (pkt : Bytes) (id : Py.Str) (mac : Mac) : Prop :=
  ∃ r args, Py.parseRequest pkt = .ok r ∧ acceptArgs yaml id mac r = .ok args ∧
    (Py.Session.new args w).startRrq.1.inTransfer

/-- Both engines find the file that is asked for, with these bytes in it, and can read it. -/
structure Resolved (env : Env) (w : World) (filename : Bytes) (data : Bytes) : Prop where
  opened : ∃ src, env.openRead filename = some (src, ftellSize data.length) ∧
    src.Healthy
  unlocked : w.lock = none
  loaded : w.load = .ok (some data)

/-! ## The check of the C engine -/

/-- Past its checks `start_rrq` always gets as far as a wait. -/
theorem rrqBegin_inTransfer (cfg : Config) (now : Clock) (env : Env) (req : TftpReq) (sz : UInt64)
    {c : Ctx} {src : FileSource} (hopen : c.s.src = some src) (hsrc : src.Healthy) :
    (rrqBegin cfg now env req sz c).s.inTransfer := by
  unfold rrqBegin
  simp only
  split
  · exact .inl rfl
  next hopts =>
  right
  have hblk : (rrqReply cfg req sz).blksize = none := by
    have hopts : ¬ hasOptions (rrqReply cfg req sz) = true := hopts
    simp only [hasOptions, Bool.or_eq_true, not_or, Option.not_isSome_iff_eq_none] at hopts
    exact hopts.1.1.1
  refine Eq.trans (rrqSendWindow_stays cfg now ?_ hsrc ?_ ?_) rfl
  · exact hopen
  · show 50 + (((rrqReply cfg req sz).blksize.map (·.toUInt16)).getD TFTP_BLKSIZE_DEFAULT).toNat ≤
      PKT_BUF_SZ
    rw [hblk]
    decide
  · show (0 : UInt64).toNat < 2 ^ 31
    decide

/-- The cap on downloads that the C engine holds against the size of the file. -/
def OverCap (cap : UInt64) (size : Nat) : Prop := cap ≠ 0 ∧ cap < ftellSize size

theorem startRrq_inTransfer_iff (cfg : Config) (now : Clock) {env : Env} (req : TftpReq) (c : Ctx)
    {src : FileSource} {size : Nat}
    (hopen : env.openRead req.filename = some (src, ftellSize size)) (hsrc : src.Healthy) :
    (startRrq cfg now env req c).s.inTransfer ↔ ¬ OverCap cfg.maxRrqSize size := by
  unfold startRrq
  rw [hopen]
  simp only
  by_cases hover : cfg.maxRrqSize ≠ 0 ∧ cfg.maxRrqSize < ftellSize size
  · rw [if_pos hover, rejectRequest_s]
    exact iff_of_false (by rintro (h | h) <;> cases h) (fun h => h hover)
  · rw [if_neg hover]
    exact iff_of_true (rrqBegin_inTransfer cfg now env req _ rfl hsrc) hover

/-- `max_rrq_size` of the configuration, as the translation reads it. -/
def rrqCapAt (yaml : Json) : Except PyError Int :=
  (sectionAt yaml "files").bind fun files => intOrZeroAt files (text "max_rrq_size")

theorem Pushed.maxRrqSize {c cfg : Config} {yaml : Json} (h : Pushed c yaml cfg) :
    ∃ cap, rrqCapAt yaml = .ok cap ∧ cfg.maxRrqSize = UInt64.ofInt (arrives cap) := by
  obtain ⟨net, tftp, filesOut, maxSessions, sec, log, -, hfiles, -, rfl⟩ := h.sections
  simp only [Py.filesSection, Py.prefixSection, Py.ftpSection, bind_eq_ok, map_eq_ok] at hfiles
  obtain ⟨files, hsection, _, -, _, -, _, -, _, -, _, -, _, -, cap, hcap, _, -, _, -, _, -,
    _, ⟨_, -, _, -, _, -, rfl⟩, _, ⟨_, -, _, -, _, -, _, -, _, -, _, -, rfl⟩, heq⟩ := hfiles
  obtain rfl := Json.obj.inj heq
  exact ⟨cap, bind_eq_ok.2 ⟨files, hsection, hcap⟩, rfl⟩

/-! ## The checks of the Python engine -/

/-- What `_run_rrq` asks of a read of `size` bytes before its first packet.  The last line is about
    odd configurations: no attempt at an OACK without retries, and no block at all if the block
    size is negative. -/
structure Admissible (a : SessionArgs) (size : Nat) : Prop where
  mode : Py.modeSupported a.request.mode = true
  cap : ¬ (a.rrqLimit a.request.filename ≠ 0 ∧ a.rrqLimit a.request.filename < (size : Int))
  transfer : ∃ neg retries, Py.negotiate a.request.options a.cfg (some size) true = .ok neg ∧
    intAt a.cfg (text "max_retries") Py.TFTP_MAX_RETRIES_DEFAULT = .ok retries ∧
    neg.blksize ≠ 0 ∧ ¬ (a.allowRollover = false ∧ 65535 < Py.totalBlocks size neg.blksize) ∧
    if neg.reply = [] then 0 < Py.totalBlocks size neg.blksize else 0 < retries

theorem not_inTransfer_fail (s : Py.Session) (e : Py.Exc) : ¬ (s.fail e).1.inTransfer := by
  cases e with
  | tftp e =>
    rw [Py.Session.fail]
    split <;> exact id
  | other what => exact id

theorem inTransfer_sendFile_iff (s : Py.Session) (snd : Py.Sender) :
    (s.sendFile snd).1.inTransfer ↔ (snd.lastAck : Int) < snd.totalBlocks := by
  unfold Py.Session.sendFile Py.Sender.loop
  split
  · next h => exact iff_of_true trivial h
  · next h => exact iff_of_false id h

theorem inTransfer_sendOack_iff (s : Py.Session) (left : Nat) (oack : Bytes) (next : Py.Sender) :
    (s.sendOack left oack next).1.inTransfer ↔ 0 < left := by
  cases left with
  | zero => exact iff_of_false (not_inTransfer_fail s _) (by decide)
  | succ left => exact iff_of_true trivial (Nat.succ_pos left)

/-- The checks that come before the first packet: one of them fails, or the transfer is set up. -/
theorem openRrq_cases (a : SessionArgs) {w : World} {data : Bytes} (info : Py.SessionInfo)
    (hlock : w.lock = none) (hload : w.load = .ok (some data)) :
    (∃ info' e, a.openRrq w info = (info', .error e) ∧ ¬ Admissible a data.length) ∨
    ∃ (info' : Py.SessionInfo) (neg : Py.Negotiated) (retries : Int), a.openRrq w info = (info', .ok
        (Py.Sender.new data neg.blksize neg.windowsize retries,
          if neg.reply = [] then none else some (Py.packOack neg.reply))) ∧
      (Admissible a data.length ↔
        if neg.reply = [] then 0 < Py.totalBlocks data.length neg.blksize else 0 < retries) := by
  unfold Py.SessionArgs.openRrq
  by_cases hmode : Py.modeSupported a.request.mode = false
  · left
    refine ⟨_, _, if_pos hmode, fun h => ?_⟩
    rw [h.mode] at hmode
    cases hmode
  by_cases hcap : a.rrqLimit a.request.filename ≠ 0 ∧
      a.rrqLimit a.request.filename < (data.length : Int)
  · left
    simp only [hlock, hload, if_neg hmode, if_pos hcap]
    exact ⟨_, _, rfl, fun h => h.cap hcap⟩
  simp only [hlock, hload, if_neg hmode, if_neg hcap, Py.SessionArgs.settleRrq]
  cases hneg : Py.negotiate a.request.options a.cfg (some data.length) true with
  | error e =>
    left
    refine ⟨_, _, rfl, fun h => ?_⟩
    obtain ⟨neg, -, hok, -⟩ := h.transfer
    rw [hneg] at hok
    cases hok
  | ok neg =>
    simp only
    by_cases hzero : neg.blksize = 0
    · left
      rw [if_pos hzero]
      refine ⟨_, _, rfl, fun h => ?_⟩
      obtain ⟨neg', -, hok, -, hne, -⟩ := h.transfer
      obtain rfl : neg = neg' := Except.ok.inj (hneg.symm.trans hok)
      exact hne hzero
    by_cases hroll : a.allowRollover = false ∧ 65535 < Py.totalBlocks data.length neg.blksize
    · left
      rw [if_neg hzero, if_pos hroll]
      refine ⟨_, _, rfl, fun h => ?_⟩
      obtain ⟨neg', -, hok, -, -, hblocks, -⟩ := h.transfer
      obtain rfl : neg = neg' := Except.ok.inj (hneg.symm.trans hok)
      exact hblocks hroll
    rw [if_neg hzero, if_neg hroll]
    cases hretries : intAt a.cfg (text "max_retries") Py.TFTP_MAX_RETRIES_DEFAULT with
    | error e =>
      left
      refine ⟨_, _, rfl, fun h => ?_⟩
      obtain ⟨-, retries, -, hok, -⟩ := h.transfer
      rw [hretries] at hok
      cases hok
    | ok retries =>
      right
      refine ⟨_, neg, retries, rfl, fun h => ?_, fun h => ?_⟩
      · obtain ⟨neg', retries', hok, hok', -, -, hlast⟩ := h.transfer
        obtain rfl : neg = neg' := Except.ok.inj (hneg.symm.trans hok)
        obtain rfl : retries = retries' := Except.ok.inj (hretries.symm.trans hok')
        exact hlast
      · exact ⟨by simpa using hmode, hcap, neg, retries, hneg, hretries, hzero, hroll, h⟩

/-- **The checks of `_run_rrq`**, on a file that is there. -/
theorem inTransfer_startRrq_iff (a : SessionArgs) {w : World} {data : Bytes}
    (hlock : w.lock = none) (hload : w.load = .ok (some data)) :
    (Py.Session.new a w).startRrq.1.inTransfer ↔ Admissible a data.length := by
  unfold Py.Session.startRrq
  rcases openRrq_cases a (Py.Session.new a w).info hlock hload with
    ⟨info, e, hopen, hnot⟩ | ⟨info, neg, retries, hopen, hiff⟩
  · have hargs : (Py.Session.new a w).args.openRrq (Py.Session.new a w).world
        (Py.Session.new a w).info = (info, .error e) := hopen
    rw [hargs]
    exact iff_of_false (not_inTransfer_fail _ e) hnot
  · have hargs : (Py.Session.new a w).args.openRrq (Py.Session.new a w).world
        (Py.Session.new a w).info = (info, .ok
          (Py.Sender.new data neg.blksize neg.windowsize retries,
            if neg.reply = [] then none else some (Py.packOack neg.reply))) := hopen
    rw [hargs, hiff]
    by_cases hreply : neg.reply = []
    · simp only [if_pos hreply]
      exact inTransfer_sendFile_iff ..
    · simp only [if_neg hreply]
      refine (inTransfer_sendOack_iff ..).trans ?_
      show 0 < retries.toNat ↔ 0 < retries
      omega

/-! ## Both -/

section Both

variable {c cfg : Config} {yaml : Json} {pkt : Bytes} {r : Py.Request} {req : TftpReq} {env : Env}
  {w : World} {data : Bytes}

theorem coreAdmits_iff (hc : tftpParseRequest pkt = some req)
    (hfile : Resolved env w req.filename data) (now : Clock) (slot : Ctx) :
    CoreAdmits cfg env pkt now slot ↔ ¬ OverCap cfg.maxRrqSize data.length := by
  obtain ⟨src, hopen, hsrc⟩ := hfile.opened
  rw [← startRrq_inTransfer_iff cfg now req slot hopen hsrc]
  constructor
  · rintro ⟨req', hreq, hin⟩
    obtain rfl : req = req' := Option.some.inj (hc.symm.trans hreq)
    exact hin
  · intro hin
    exact ⟨req, hc, hin⟩

theorem pyAdmits_iff (hpy : Py.parseRequest pkt = .ok r) (hlock : w.lock = none)
    (hload : w.load = .ok (some data)) (id : Py.Str) (mac : Mac) :
    PyAdmits yaml w pkt id mac ↔
      ∃ args, acceptArgs yaml id mac r = .ok args ∧ Admissible args data.length := by
  constructor
  · rintro ⟨r', args, hr, hargs, hin⟩
    obtain rfl : r = r' := Except.ok.inj (hpy.symm.trans hr)
    exact ⟨args, hargs, (inTransfer_startRrq_iff args hlock hload).1 hin⟩
  · rintro ⟨args, hargs, hadm⟩
    exact ⟨r, args, hpy, hargs, (inTransfer_startRrq_iff args hlock hload).2 hadm⟩

/-- The one check of the C engine gives the verdict of all the checks of the Python engine: the
    size that `ftell` reports is over `max_rrq_size`, as it arrives, exactly if the session cannot
    be made or its mode, the cap of its route, its options or its number of blocks stand against
    the transfer. -/
def AdmitAlike (yaml : Json) (id : Py.Str) (mac : Mac) (r : Py.Request) (size : Nat) : Prop :=
  ∃ cap, rrqCapAt yaml = .ok cap ∧ (OverCap (UInt64.ofInt (arrives cap)) size ↔
    ¬ ∃ args, acceptArgs yaml id mac r = .ok args ∧ Admissible args size)

end Both

/-- A file system in which every name is a file with these bytes. -/
def serving (data : Bytes) : Env where
  openRead _ := some (⟨false, data, 0, false, fun _ => .ok, 0⟩, ftellSize data.length)
  openWrite _ := none
  batchNew := true

theorem resolved_serving (filename data : Bytes) :
    Resolved (serving data) (Py.obligingWorld (some data)) filename data :=
  ⟨⟨_, rfl, rfl, fun _ => rfl⟩, rfl, rfl⟩

theorem not_overCap_zero (size : Nat) : ¬ OverCap (UInt64.ofInt (arrives 0)) size := by
  rintro ⟨h, -⟩
  exact h rfl

def someMac : Mac := Vector.replicate 6 2

/-- A configuration with a cap of one byte on FTP downloads, and without rollover. -/
def strictYaml : Json :=
  .obj [(text "tftp", .obj [(text "allow_block_rollover", .bool false)]),
    (text "files", .obj [(text "max_ftp_size", .int 1)])]

/-- A read request without options. -/
def readOf (filename mode : String) : Bytes := [0, 1] ++ pack [ascii filename, ascii mode]

/-- The shortest file that needs 65536 blocks of 512 bytes. -/
def longFile : Bytes := List.replicate (65535 * 512) 7

theorem pushed_strictYaml : ∃ cfg, Pushed configDefaults strictYaml cfg := by
  refine ⟨_, pushed_of_finite configDefaults ?_ rfl⟩
  simp [strictYaml, Json.Finite, Json.FiniteMembers, Json.FiniteMember]

/-- No cap on downloads means that the C engine lets everything in. -/
theorem coreAdmits_strict {cfg : Config} (hpush : Pushed configDefaults strictYaml cfg) {pkt : Bytes}
    {req : TftpReq} (hc : tftpParseRequest pkt = some req) (data : Bytes) (now : Clock) (slot : Ctx) :
    CoreAdmits cfg (serving data) pkt now slot := by
  obtain ⟨cap, hcap, hsent⟩ := hpush.maxRrqSize
  obtain rfl : (0 : Int) = cap := Except.ok.inj hcap
  rw [coreAdmits_iff hc (resolved_serving _ data), hsent]
  exact not_overCap_zero _

end Nishro

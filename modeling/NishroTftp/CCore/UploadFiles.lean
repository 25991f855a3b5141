import NishroTftp.CCore.AckNumbers
import NishroTftp.CCore.RoutingKeys
/-
  What uploads do to the files under `wrq_root` (`src_open_write`, `src_write`, `src_commit_write`
  and `src_close` in `c_core/source.c`, called from `c_core/session.c`).

  A local upload is opened with `fopen(path, "wb")`: the file is EMPTY from that moment on, before
  the announced size is looked at and before the first block has come.  Blocks are written where
  they belong, and closing the file, after the last block or after a failure, leaves what is there.
  Nothing stops a second session from opening the same path; each writes at its own position.

  The disk is kept beside the session table and moves with it.  Writes go to the file at once, which
  the buffers of `stdio` may delay until the file is closed.
-/
namespace Nishro.CCore

open Nishro.Runs

/-! ## Files -/

/-- The files on disk, by path. -/
abbrev Disk := Bytes → Option Bytes

def Disk.set (d : Disk) (path content : Bytes) : Disk :=
  fun q => if q = path then some content else d q

@[simp] theorem Disk.set_self (d : Disk) (path content : Bytes) :
    d.set path content path = some content := if_pos rfl

theorem Disk.set_other (d : Disk) {path q : Bytes} (content : Bytes) (h : q ≠ path) :
    d.set path content q = d q := if_neg h

/-- `data` written at offset `pos` of a file; a gap before it reads as zeros. -/
def overwrite (file : Bytes) (pos : Nat) (data : Bytes) : Bytes :=
  if data = [] then file
  else file.take pos ++ List.replicate (pos - file.length) 0 ++ data ++ file.drop (pos + data.length)

/-! ## The engine with its files -/

/-- What comes in: packets, and looks at the timers. -/
inductive Traffic
  | tftp (now : Clock) (env : Env) (p : Sender) (payload : Bytes)
  | tick (now : Clock)

def Traffic.event : Traffic → Event
  | .tftp now env p payload => .tftp now env p payload
  | .tick now => .tick now

structure Uploads where
  m : SessMgr
  disk : Disk
  /-- the local file that the session in a slot was opened on -/
  handle : Fin SESS_MAX → Option Bytes
  /-- path and payload of every upload that was reported as successful -/
  completed : List (Bytes × Bytes)

/-- The engine at its start. -/
def Uploads.start (cfg : Config) (disk : Disk) : Uploads :=
  ⟨sessmgrNew cfg, disk, fun _ => none, []⟩

/-- The file a request is opened on for writing: `place` is the path of a name under `wrq_root`. -/
def openedFile (place : Bytes → Bytes) (cfg : Config) (env : Env) (op : UInt16) (req : TftpReq) :
    Option Bytes :=
  if op = TFTP_RRQ ∨ ! cfg.wrqEnabled then none
  else
    match env.openWrite req.filename with
    | none => none
    | some f => if f.uploadOnCommit then none else some (place req.filename)

/-- What a packet makes `fwrite` put out for a session. -/
def writtenBy (cfg : Config) (s : Session) (tftp : Bytes) : Bytes :=
  if s.state = .recvWrq ∧ at16 tftp 0 = TFTP_DATA ∧ 4 ≤ tftp.length ∧
      dataCand s.nextBlock (at16 tftp 2) = s.nextBlock ∧
      ¬ (cfg.maxWrqSize ≠ 0 ∧
        cfg.maxWrqSize < s.bytesDone + UInt64.ofNat (tftp.drop 4).length) then
    match s.src with
    | none => []
    | some f => (f.write (tftp.drop 4)).2.content.drop f.content.length
  else []

/-- What the session has written before. -/
def Session.payload (s : Session) : Bytes := (s.src.map (·.content)).getD []

/-- One event: the table moves, and the files with it. -/
def uploadsStep (place : Bytes → Bytes) (u : Uploads) (t : Traffic) : Uploads :=
  let m' := step u.m t.event
  match t with
  | .tick _ => { u with m := m' }
  | .tftp now env p tftp =>
    match opens u.m p tftp with
    | some (req, i) =>
      let path := openedFile place u.m.cfg env (at16 tftp 0) req
      { u with
        m := m'
        disk := match path with
          | some path => u.disk.set path []
          | none => u.disk
        handle := fun j => if j = i then path else u.handle j }
    | none =>
      match reaches u.m p tftp with
      | none => { u with m := m' }
      | some i =>
        match u.handle i with
        | none => { u with m := m' }
        | some path =>
          let s := u.m.slots i
          let data := writtenBy u.m.cfg s tftp
          let out := outFor i (stepOut u.m (.tftp now env p tftp)).2
          { u with
            m := m'
            disk := match u.disk path with
              | some file => u.disk.set path (overwrite file s.payload.length data)
              | none => u.disk
            completed := if okEnds out = [] then u.completed
              else u.completed ++ [(path, s.payload ++ data)] }

/-- No session is active. -/
def Uploads.Idle (u : Uploads) : Prop := ∀ i, (u.m.slots i).state = .free

/-- The file at `path` is what it was, or the complete payload of a successful upload to it. -/
def Uploads.Atomic (disk₀ : Disk) (path : Bytes) (u : Uploads) : Prop :=
  u.disk path = disk₀ path ∨ ∃ payload, (path, payload) ∈ u.completed ∧ u.disk path = some payload

/-- The request opens the file at `path`. -/
def OpensFile (place : Bytes → Bytes) (m : SessMgr) (env : Env) (p : Sender) (tftp : Bytes)
    (path : Bytes) : Prop :=
  ∃ req i, opens m p tftp = some (req, i) ∧
    openedFile place m.cfg env (at16 tftp 0) req = some path

section Steps

variable (place : Bytes → Bytes)

/-- The table moves as it does without the disk. -/
theorem uploadsStep_m (u : Uploads) (t : Traffic) :
    (uploadsStep place u t).m = step u.m t.event := by
  cases t with
  | tick now => rfl
  | tftp now env p tftp =>
    simp only [uploadsStep]
    split
    · rfl
    · split
      · rfl
      · split <;> rfl

/-- Traffic does not change the configuration. -/
theorem traffic_cfg (m : SessMgr) (t : Traffic) : (step m t.event).cfg = m.cfg := by
  cases t with
  | tick now => exact sessmgrTick_cfg m now
  | tftp now env p tftp =>
    simp only [Traffic.event, step, stepOut]
    cases ho : opens m p tftp with
    | some ri =>
      rw [sessmgrOnTftp_open ho]
      rfl
    | none =>
      cases hr : reaches m p tftp with
      | some i => rw [sessmgrOnTftp_packet hr, onSlot_cfg]
      | none =>
        obtain ⟨⟨tid, denied, hm⟩, -⟩ := sessmgrOnTftp_idle now env ho hr
        rw [hm]

/-- A table without sessions has a slot to give. -/
theorem allocSlot_new (cfg : Config) : ∃ i, allocSlot (sessmgrNew cfg) = some i := by
  have hcap : ¬ sessionCap cfg ≤ 0 := by
    intro h
    have hzero : sessionCap cfg = 0 := UInt32.le_antisymm h UInt32.zero_le
    unfold sessionCap at hzero
    dsimp only at hzero
    split at hzero
    · cases hzero
    · split at hzero
      · cases hzero
      · contradiction
  have hsome : ((List.finRange SESS_MAX).find? fun i =>
      decide (((sessmgrNew cfg).slots i).state = .free)).isSome = true := by
    rw [List.find?_isSome]
    exact ⟨slot0, List.mem_finRange slot0, rfl⟩
  obtain ⟨i, hi⟩ := Option.isSome_iff_exists.1 hsome
  exact ⟨i, (if_neg hcap).trans hi⟩

/-- What is opened at any time could have been opened at the start. -/
theorem opensFile_new {m : SessMgr} {cfg : Config} (hcfg : m.cfg = cfg) {env : Env} {p : Sender}
    {tftp path : Bytes} (h : OpensFile place m env p tftp path) :
    OpensFile place (sessmgrNew cfg) env p tftp path := by
  subst hcfg
  obtain ⟨req, i, hopen, hfile⟩ := h
  obtain ⟨h1, h2, h3, h4, -⟩ := opens_eq_some.1 hopen
  obtain ⟨j, hj⟩ := allocSlot_new m.cfg
  exact ⟨req, j, opens_eq_some.2 ⟨h1, h2, h3, h4, hj⟩, hfile⟩

/-! ## A path that is never opened -/

/-- Nothing has touched the file at `path`, and no session has it open. -/
structure Uploads.Untouched (cfg : Config) (disk₀ : Disk) (path : Bytes) (u : Uploads) : Prop where
  cfg : u.m.cfg = cfg
  disk : u.disk path = disk₀ path
  handle : ∀ i, u.handle i ≠ some path

theorem untouched_step {cfg : Config} {disk₀ : Disk} {path : Bytes}
    (hnever : ∀ env p tftp, ¬ OpensFile place (sessmgrNew cfg) env p tftp path) {u : Uploads}
    (h : u.Untouched cfg disk₀ path) (t : Traffic) :
    (uploadsStep place u t).Untouched cfg disk₀ path := by
  have hcfg : (uploadsStep place u t).m.cfg = cfg := by
    rw [uploadsStep_m, traffic_cfg, h.cfg]
  cases t with
  | tick now => exact ⟨hcfg, h.disk, h.handle⟩
  | tftp now env p tftp =>
    cases ho : opens u.m p tftp with
    | some ri =>
      obtain ⟨req, i⟩ := ri
      have hne : openedFile place u.m.cfg env (at16 tftp 0) req ≠ some path := fun hfile =>
        hnever env p tftp (opensFile_new place h.cfg ⟨req, i, ho, hfile⟩)
      refine ⟨hcfg, ?_, fun j => ?_⟩ <;> simp only [uploadsStep, ho]
      · cases hfile : openedFile place u.m.cfg env (at16 tftp 0) req with
        | none => exact h.disk
        | some q =>
          rw [hfile] at hne
          exact (Disk.set_other _ _ fun hq => hne (congrArg some hq.symm)).trans h.disk
      · split
        · exact hne
        · exact h.handle j
    | none =>
      cases hr : reaches u.m p tftp with
      | none => exact ⟨hcfg, by simp only [uploadsStep, ho, hr]; exact h.disk,
          by simp only [uploadsStep, ho, hr]; exact h.handle⟩
      | some i =>
        cases hq : u.handle i with
        | none => exact ⟨hcfg, by simp only [uploadsStep, ho, hr, hq]; exact h.disk,
            by simp only [uploadsStep, ho, hr, hq]; exact h.handle⟩
        | some q =>
          have hne : path ≠ q := fun hpq => h.handle i (by rw [hq, hpq])
          refine ⟨hcfg, ?_, by simp only [uploadsStep, ho, hr, hq]; exact h.handle⟩
          simp only [uploadsStep, ho, hr, hq]
          cases u.disk q with
          | none => exact h.disk
          | some file => exact (Disk.set_other _ _ hne).trans h.disk

/-! ## A path that is opened -/

/-- After a request in an empty table, its slot is the only one in use. -/
theorem only_session (now : Clock) (env : Env) {cfg : Config} {p : Sender} {tftp : Bytes}
    {req : TftpReq} {i : Fin SESS_MAX} (ho : opens (sessmgrNew cfg) p tftp = some (req, i)) :
    let m := step (sessmgrNew cfg) (.tftp now env p tftp)
    (m.slots i).key = (p.clientIp, p.clientPort, serverTid 0) ∧ (m.slots i).state ≠ .free ∧
      ∀ j, j ≠ i → (m.slots j).state = .free := by
  intro m
  have hopening : opening (sessmgrNew cfg) (.tftp now env p tftp) =
      some (i, p.clientIp, p.clientPort, serverTid 0) := by
    simp only [opening, ho, Option.map_some]
    rfl
  refine ⟨?_, ?_, fun j hj => ?_⟩
  · rcases step_key (sessmgrNew cfg) (.tftp now env p tftp) i with ⟨k, hk, hkey, -⟩ | ⟨hno, -⟩
    · rw [hopening] at hk
      obtain ⟨-, rfl⟩ := Prod.mk.inj (Option.some.inj hk)
      exact hkey
    · exact absurd hopening (hno _)
  · rcases step_key (sessmgrNew cfg) (.tftp now env p tftp) i with ⟨k, -, -, hst⟩ | ⟨hno, -⟩
    · exact hst
    · exact absurd hopening (hno _)
  · show ((step (sessmgrNew cfg) (.tftp now env p tftp)).slots j).state = .free
    rw [step_opening_other hopening hj]
    rfl

/-- Its client's ERROR finds it. -/
theorem error_reaches {m : SessMgr} {i : Fin SESS_MAX} {ip : UInt32} {cport sport : UInt16}
    (hkey : (m.slots i).key = (ip, cport, sport)) (hlive : (m.slots i).state ≠ .free)
    (hrest : ∀ j, j ≠ i → (m.slots j).state = .free) (p : Sender) :
    reaches m { p with clientIp := ip, clientPort := cport, serverPort := sport } errorBytes =
      some i := by
  obtain ⟨h1, h2, h3⟩ : (m.slots i).clientIp = ip ∧ (m.slots i).clientPort = cport ∧
      (m.slots i).serverPort = sport := by
    simpa [Session.key] using hkey
  have hsome : (findOrAlloc m ip cport sport).isSome = true := by
    rw [findOrAlloc, List.find?_isSome]
    exact ⟨i, List.mem_finRange i, by simp [hlive, h1, h2, h3]⟩
  obtain ⟨j, hj⟩ := Option.isSome_iff_exists.1 hsome
  have hji : j = i := by
    by_contra hne
    exact (findOrAlloc_match hj).1 (hrest j hne)
  rw [← hji]
  exact hj

/-- The ERROR ends the session and leaves its file as it is. -/
theorem uploadsStep_error (now : Clock) (env : Env) {u : Uploads} {p : Sender} {i : Fin SESS_MAX}
    {path : Bytes} (hr : reaches u.m p errorBytes = some i) (hq : u.handle i = some path)
    {file : Bytes} (hfile : u.disk path = some file) :
    let u' := uploadsStep place u (.tftp now env p errorBytes)
    (u'.m.slots i).state = .done ∧ (∀ j, j ≠ i → u'.m.slots j = u.m.slots j) ∧
      u'.disk path = some file ∧ u'.completed = u.completed := by
  intro u'
  have ho : opens u.m p errorBytes = none := by
    unfold opens
    rw [if_pos (.inr (.inl (by decide)))]
  have hstep : stepOut u.m (.tftp now env p errorBytes) =
      u.m.onSlot i (onSessionPacket u.m.cfg now errorBytes) := sessmgrOnTftp_packet hr
  have hpacket : onSessionPacket u.m.cfg now errorBytes ⟨u.m.slots i, u.m.batch, u.m.stats, []⟩ =
      clientAborted now ⟨u.m.slots i, u.m.batch, u.m.stats, []⟩ :=
    onSessionPacket_error _ _ _ _ (by decide)
  have hm : u'.m = (u.m.onSlot i (onSessionPacket u.m.cfg now errorBytes)).1 := by
    rw [← hstep]
    exact uploadsStep_m place u (.tftp now env p errorBytes)
  have hwritten : writtenBy u.m.cfg (u.m.slots i) errorBytes = [] :=
    if_neg fun h => absurd h.2.1 (by decide)
  have hends : okEnds (outFor i (stepOut u.m (.tftp now env p errorBytes)).2) = [] := by
    rw [hstep, onSlot_out, if_pos rfl, hpacket]
    rfl
  refine ⟨?_, fun j hj => ?_, ?_, ?_⟩
  · rw [hm, onSlot_slots, if_pos rfl, hpacket]
    rfl
  · rw [hm, onSlot_slots, if_neg hj]
  · show (uploadsStep place u (.tftp now env p errorBytes)).disk path = some file
    simp only [uploadsStep, ho, hr, hq, hfile, hwritten]
    rw [Disk.set_self, overwrite, if_pos rfl]
  · show (uploadsStep place u (.tftp now env p errorBytes)).completed = u.completed
    simp only [uploadsStep, ho, hr, hq, if_pos hends]

/-- A request is taken, its client gives up, the slot is freed: what is left is an empty file. -/
theorem aborted_run {cfg : Config} (now : Clock) {env : Env} {p : Sender} {tftp path : Bytes}
    (h : OpensFile place (sessmgrNew cfg) env p tftp path) (disk : Disk) :
    let u := run (uploadsStep place) (Uploads.start cfg disk)
      [.tftp now env p tftp, .tftp now env { p with serverPort := serverTid 0 } errorBytes,
        .tick now]
    u.Idle ∧ u.disk path = some [] ∧ u.completed = [] := by
  obtain ⟨req, i, ho, hfile⟩ := h
  obtain ⟨hkey, hlive, hrest⟩ := only_session now env ho
  rw [run_cons, run_cons, run_cons, run_nil]
  have hopened : (uploadsStep place (Uploads.start cfg disk) (.tftp now env p tftp)).handle i =
        some path ∧
      (uploadsStep place (Uploads.start cfg disk) (.tftp now env p tftp)).disk path = some [] ∧
      (uploadsStep place (Uploads.start cfg disk) (.tftp now env p tftp)).completed = [] := by
    simp only [uploadsStep, Uploads.start, ho, hfile, if_true, Disk.set_self, and_self]
  have hm := uploadsStep_m place (Uploads.start cfg disk) (.tftp now env p tftp)
  generalize uploadsStep place (Uploads.start cfg disk) (.tftp now env p tftp) = u₁ at hopened hm ⊢
  rw [show step (Uploads.start cfg disk).m (Traffic.tftp now env p tftp).event =
    step (sessmgrNew cfg) (.tftp now env p tftp) from rfl] at hm
  rw [← hm] at hkey hlive hrest
  have hr : reaches u₁.m { p with serverPort := serverTid 0 } errorBytes = some i :=
    error_reaches hkey hlive hrest p
  have herror := uploadsStep_error place now env hr hopened.1 hopened.2.1
  generalize uploadsStep place u₁ (.tftp now env { p with serverPort := serverTid 0 } errorBytes) =
    u₂ at herror ⊢
  obtain ⟨hdone, hother, hdisk, hcompleted⟩ := herror
  refine ⟨fun j => ?_, ?_, ?_⟩
  rotate_left
  · exact hdisk
  · simp only [uploadsStep]
    exact hcompleted.trans hopened.2.2
  by_cases hj : j = i
  · subst hj
    exact (tick_frees now hdone).1
  obtain ⟨b, st, -, hs, -⟩ := stepOut_slot u₂.m (.tick now) j
  have hfree : (u₂.m.slots j).state = .free := by
    rw [hother j hj]
    exact hrest j hj
  show ((stepOut u₂.m (.tick now)).1.slots j).state = .free
  rw [hs]
  simp [slotCall, tickSlot, hfree]

end Steps

end Nishro.CCore

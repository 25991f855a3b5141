import NishroTftp.CCore.SlotStep
/-
  The life of a session as its parent sees it: one "session_start", one "session_end", at most one
  entry in the counters.

  A session ends on a dozen branches.  All of them but one say so: `rrq_send_window` gives a session
  up when it cannot read the file, and writes no line.  And one of them says so too often: an ERROR
  packet is answered with a "session_end" whatever the state of the session, also when it has ended
  before and only waits for the next tick to free its slot.  Both are described by the state before
  the event (`loses`), so a run is watched slot by slot and goes wrong exactly where one of them
  happens.
-/
namespace Nishro.CCore

/-! ## Lifecycle lines -/

inductive LifeEv
  | started (id : UInt32) (filename : Bytes)
  | ended (id : UInt32)
deriving DecidableEq

def lifeOf : Output → Option LifeEv
  | .ipc (.sessionStart s) => some (.started s.id s.filename)
  | .ipc (.sessionEnd s ..) => some (.ended s.id)
  | _ => none

/-- The lifecycle lines in an output. -/
def word (os : List Output) : List LifeEv := os.filterMap lifeOf

@[simp] theorem word_nil : word [] = [] := rfl

@[simp] theorem word_append (os os' : List Output) : word (os ++ os') = word os ++ word os' :=
  List.filterMap_append

@[simp] theorem word_data (fs : List QueuedFrame) : word (fs.map .data) = [] := by
  simp [word, lifeOf]

@[simp] theorem word_send (f : UdpFrame) : word [.send f] = [] := rfl

@[simp] theorem word_start (s : Session) :
    word [.ipc (.sessionStart s)] = [.started s.id s.filename] := rfl

@[simp] theorem word_progress (s : Session) : word [.ipc (.sessionProgress s)] = [] := rfl

@[simp] theorem word_end (s : Session) (ok fault : Bool) (reason : Option EndReason)
    (now : UInt64) : word [.ipc (.sessionEnd s ok fault reason now)] = [.ended s.id] := rfl

/-- The two counters of finished sessions. -/
def tally (st : SessStats) : UInt32 × UInt32 := (st.sessionsCompleted, st.sessionsFailed)

/-- How often they were raised. -/
def tallied (st st' : SessStats) : Nat :=
  (st'.sessionsCompleted - st.sessionsCompleted).toNat +
    (st'.sessionsFailed - st.sessionsFailed).toNat

theorem tallied_of_eq {st st' : SessStats} (h : tally st' = tally st) : tallied st st' = 0 := by
  obtain ⟨h1, h2⟩ := Prod.mk.inj h
  simp [tallied, h1, h2]

/-! ## Calls that write no lifecycle line -/

/-- The call neither starts nor ends the session, and counts nothing. -/
structure Quiet (c c' : Ctx) : Prop where
  word : word c'.out = word c.out
  tally : tally c'.stats = tally c.stats
  id : c'.s.id = c.s.id

/-- The call ends the session, and counts it at most once. -/
structure Ended (c c' : Ctx) : Prop where
  word : CCore.word c'.out = CCore.word c.out ++ [.ended c.s.id]
  tallied : tallied c.stats c'.stats ≤ 1
  id : c'.s.id = c.s.id

theorem Quiet.refl (c : Ctx) : Quiet c c := ⟨rfl, rfl, rfl⟩

theorem Quiet.trans {a b c : Ctx} (h : Quiet a b) (h' : Quiet b c) : Quiet a c :=
  ⟨h'.word.trans h.word, h'.tally.trans h.tally, h'.id.trans h.id⟩

theorem Quiet.ended {a b c : Ctx} (h : Quiet a b) (h' : Ended b c) : Ended a c := by
  obtain ⟨h1, h2⟩ := Prod.mk.inj h.tally
  refine ⟨by rw [h'.word, h.word, h.id], ?_, h'.id.trans h.id⟩
  have := h'.tallied
  rwa [tallied, h1, h2] at this

section Calls

variable (cfg : Config) (now : Clock) (c : Ctx)

theorem sendTftpEx_quiet (payload : Bytes) (count : Bool) :
    Quiet c (sendTftpEx cfg payload count c) := by
  unfold sendTftpEx
  split
  · exact .refl c
  · refine ⟨by simp, ?_, rfl⟩
    cases count <;> rfl

theorem sendTftp_quiet (payload : Bytes) : Quiet c (sendTftp cfg payload c) :=
  sendTftpEx_quiet cfg c payload true

theorem sendError_quiet (code : UInt16) (msg : String) : Quiet c (sendError cfg code msg c) := by
  unfold sendError
  generalize tftpBuildError 512 code (ascii msg) = payload
  exact Quiet.trans (sendTftpEx_quiet cfg c payload false) ⟨rfl, rfl, rfl⟩

theorem wrqSendAck_quiet (block : UInt16) : Quiet c (wrqSendAck cfg now block c) := by
  exact Quiet.trans (sendTftpEx_quiet cfg c (tftpBuildAck 32 block) true) ⟨rfl, rfl, rfl⟩

theorem emitSessionProgress_quiet : Quiet c (emitSessionProgress now c) := by
  rw [emitSessionProgress_eq]
  refine ⟨?_, rfl, rfl⟩
  split <;> simp

theorem windowFailed_quiet : Quiet c (windowFailed cfg c) := by
  have herr := sendError_quiet cfg c TFTP_ERR_ACCESS "read error"
  exact ⟨herr.word, herr.tally, herr.id⟩

/-- Whether it works or not, sending a window says nothing about the session's life. -/
theorem rrqSendWindow_quiet : Quiet c (rrqSendWindow cfg now c) := by
  rcases rrqSendWindow_cases cfg now c with ⟨-, h⟩ | ⟨src, -, ⟨-, h⟩ | ⟨-, h⟩⟩ <;> rw [h]
  · exact .refl c
  · refine Quiet.trans ?_ (windowFailed_quiet cfg _)
    exact ⟨by simp, rfl, rfl⟩
  · exact ⟨by simp [windowSent], rfl, by simp [windowSent]⟩

theorem rrqFastPath_quiet : Quiet c (rrqFastPath cfg now c) := by
  unfold rrqFastPath
  refine Quiet.trans (Quiet.trans ?_ (emitSessionProgress_quiet now _)) ⟨rfl, rfl, by simp⟩
  exact ⟨by simp, rfl, rfl⟩

/-- The line of an end, after a call that wrote none. -/
theorem emitSessionEnd_ended {c a b : Ctx} (ok fault : Bool) (reason : Option EndReason)
    (h : Quiet c a) (hout : b.out = a.out) (hid : b.s.id = a.s.id)
    (ht : tallied a.stats b.stats ≤ 1) : Ended c (emitSessionEnd now ok fault reason b) :=
  h.ended ⟨by simp [emitSessionEnd, hout, hid], ht, hid⟩

theorem tallied_self (st : SessStats) : tallied st st ≤ 1 := by simp [tallied]

theorem tallied_completed (st : SessStats) :
    tallied st { st with sessionsCompleted := st.sessionsCompleted + 1 } ≤ 1 := by
  simp [tallied, UInt32.add_comm st.sessionsCompleted 1]

theorem tallied_failed (st : SessStats) :
    tallied st { st with sessionsFailed := st.sessionsFailed + 1 } ≤ 1 := by
  simp [tallied, UInt32.add_comm st.sessionsFailed 1]

theorem rrqFinish_ended : Ended c (rrqFinish now c) := by
  obtain ⟨hw, -, hid⟩ := emitSessionEnd_ended now true false none (emitSessionProgress_quiet now c)
    rfl rfl (tallied_self _)
  refine ⟨hw, ?_, hid⟩
  have := tallied_completed c.stats
  simpa [rrqFinish] using this

theorem wrqFinish_ended : Ended c (wrqFinish now c) := by
  unfold wrqFinish
  simp only
  split
  · obtain ⟨hw, ht, hid⟩ := emitSessionEnd_ended now true false none (Quiet.refl c)
      (b := { c with
        s := { c.s with src := none }
        stats := { c.stats with sessionsCompleted := c.stats.sessionsCompleted + 1 } })
      rfl rfl (tallied_completed _)
    exact ⟨hw, ht, hid⟩
  · obtain ⟨hw, ht, hid⟩ := emitSessionEnd_ended now false true (some .writeCommitFailed)
      (Quiet.refl c) (b := { c with
        s := { c.s with src := none }
        stats := { c.stats with sessionsFailed := c.stats.sessionsFailed + 1 } })
      rfl rfl (tallied_failed _)
    exact ⟨hw, ht, hid⟩

theorem clientAborted_ended : Ended c (clientAborted now c) := by
  obtain ⟨hw, ht, hid⟩ := emitSessionEnd_ended now false false (some .clientAborted) (Quiet.refl c)
    rfl rfl (tallied_self _)
  exact ⟨hw, ht, hid⟩

theorem timeOut_ended : Ended c (timeOut now c) := by
  refine ⟨by simp [timeOut, freeSlot, emitSessionEnd], ?_, rfl⟩
  simp only [timeOut, freeSlot, tallied]
  split <;> simp

theorem tickSlot_tally : tally (tickSlot cfg now c).stats = tally c.stats := by
  rcases tickSlot_cases cfg now c with
    ⟨-, h⟩ | ⟨-, h⟩ | ⟨-, -, h⟩ | ⟨-, -, -, h⟩ | ⟨-, -, -, h⟩ <;> rw [h]
  · unfold freeSlot
    split <;> rfl
  · unfold timeOut freeSlot
    split <;> rfl
  unfold retransmit
  split
  · rfl
  · exact (rrqSendWindow_quiet cfg now _).tally
  · exact (wrqSendAck_quiet cfg now _ _).tally
  · rfl

/-- An in-order block: the upload goes on, or it ends and says so. -/
theorem wrqInOrder_life (cand : UInt32) (block : UInt16) (payload : Bytes) :
    (Quiet c (wrqInOrder cfg now cand block payload c) ∧
      (wrqInOrder cfg now cand block payload c).s.state = c.s.state) ∨
    (Ended c (wrqInOrder cfg now cand block payload c) ∧
      (wrqInOrder cfg now cand block payload c).s.state = .done) := by
  unfold wrqInOrder
  simp only
  split
  · have herr := sendError_quiet cfg c TFTP_ERR_DISK_FULL "over size limit"
    exact .inr ⟨emitSessionEnd_ended now _ _ _ herr rfl rfl (tallied_self _), rfl⟩
  split
  · have herr := sendError_quiet cfg { c with s := { c.s with src := (writeBlock payload c.s.src).2 } }
      TFTP_ERR_DISK_FULL "write failed"
    generalize sendError cfg TFTP_ERR_DISK_FULL "write failed"
      { c with s := { c.s with src := (writeBlock payload c.s.src).2 } } = c₀ at herr ⊢
    have hq : Quiet c c₀ := ⟨herr.word, herr.tally, herr.id⟩
    exact .inr ⟨emitSessionEnd_ended now _ _ _ hq rfl rfl (tallied_failed _), rfl⟩
  · -- past the write: ACK, progress, and the end of the file
    have hq := Quiet.trans (a := c) (b := { c with s := { c.s with
        src := (writeBlock payload c.s.src).2
        bytesDone := c.s.bytesDone + UInt64.ofNat payload.length
        nextBlock := cand + 1
        retransCount := 0 } }) ⟨rfl, rfl, rfl⟩
      ((wrqSendAck_quiet cfg now _ block).trans (emitSessionProgress_quiet now _))
    split
    · exact .inr ⟨hq.ended (wrqFinish_ended now _), by simp⟩
    · exact .inl ⟨hq, by simp⟩

theorem wrqOnData_life (block : UInt16) (payload : Bytes) :
    (Quiet c (wrqOnData cfg now block payload c) ∧
      (wrqOnData cfg now block payload c).s.state = c.s.state) ∨
    (Ended c (wrqOnData cfg now block payload c) ∧
      (wrqOnData cfg now block payload c).s.state = .done) := by
  rcases wrqOnData_cases cfg now c block payload with ⟨-, h⟩ | ⟨-, h⟩ | ⟨-, h⟩ <;> rw [h]
  · exact .inl ⟨wrqSendAck_quiet cfg now c block, by simp⟩
  · exact wrqInOrder_life cfg now c _ block payload
  · exact .inl ⟨.refl c, rfl⟩

end Calls

/-! ## Windows that cannot be read -/

/-- `rrq_send_window` on this session would give it up: a seek or read fails, or a block does not
    fit the packet buffer. -/
def unreadable (cfg : Config) (s : Session) : Bool :=
  s.src.any fun src => ! (rrqFillWindow cfg s (.new BATCH_CAP) src s.nextBlock s.windowFirstOffset).ok

/-- Filling looks at the block size, the window size and the addresses of a session only. -/
theorem fillLoop_congr {cfg : Config} {s s' : Session} (hb : s'.blksize = s.blksize)
    (hf : frameTo cfg s' = frameTo cfg s) (k : Nat) (block : UInt32) (r : Fill) :
    fillLoop cfg s' k block r = fillLoop cfg s k block r := by
  induction k generalizing block r with
  | zero => rfl
  | succ k ih => simp only [fillLoop, hb, hf, ih]

theorem rrqFillWindow_congr {cfg : Config} {s s' : Session} (hb : s'.blksize = s.blksize)
    (hw : s'.windowsize = s.windowsize) (hf : frameTo cfg s' = frameTo cfg s) (batch : PcapBatch)
    (src : FileSource) (first : UInt32) (off : UInt64) :
    rrqFillWindow cfg s' batch src first off = rrqFillWindow cfg s batch src first off := by
  simp only [rrqFillWindow, hw, fillLoop_congr hb hf]

theorem unreadable_congr {cfg : Config} {s s' : Session} (hsrc : s'.src = s.src)
    (hb : s'.blksize = s.blksize) (hw : s'.windowsize = s.windowsize)
    (hf : frameTo cfg s' = frameTo cfg s) (hn : s'.nextBlock = s.nextBlock)
    (ho : s'.windowFirstOffset = s.windowFirstOffset) : unreadable cfg s' = unreadable cfg s := by
  simp only [unreadable, hsrc, hn, ho, rrqFillWindow_congr hb hw hf]

/-- `rrq_send_window` gives a session up exactly when its window is unreadable. -/
theorem rrqSendWindow_state (cfg : Config) (now : Clock) {c : Ctx} (hb : CleanBatch c.batch) :
    (rrqSendWindow cfg now c).s.state = if unreadable cfg c.s then .done else c.s.state := by
  have hfill : ∀ src, windowFill cfg c src = rrqFillWindow cfg c.s (.new BATCH_CAP) src c.s.nextBlock
      c.s.windowFirstOffset := fun src => by rw [windowFill, show c.batch = _ from hb]
  rcases rrqSendWindow_cases cfg now c with ⟨hsrc, h⟩ | ⟨src, hsrc, ⟨hok, h⟩ | ⟨hok, h⟩⟩ <;> rw [h]
  · simp [unreadable, hsrc]
  · rw [hfill] at hok
    simp [unreadable, hsrc, hok, windowFailed]
  · rw [hfill] at hok
    simp [unreadable, hsrc, hok, windowSent]

/-- The session as `rrq_send_window` finds it, where an ACK makes it read a window from disk. -/
def ackReads (s : Session) (ack : UInt16) : Option Session :=
  let cand := ackCand s.windowLast ack
  match s.state with
  | .oackWaitAck0 =>
    if ack = 0 ∧ s.kind = TFTP_RRQ then some { s with nextBlock := 1, windowFirstOffset := 0 }
    else none
  | .sendRrq =>
    if cand < s.nextBlock ∨ (s.eofReached ∧ s.windowLast ≤ cand) ∨
        (s.prebuiltValid ∧ s.prebuiltFirstBlock = cand + 1 ∧ cand = s.windowLast) then none
    else some { s with nextBlock := cand + 1, windowFirstOffset := ackedBytes s cand }
  | _ => none

/-- The same for a packet. -/
def packetReads (s : Session) (tftp : Bytes) : Option Session :=
  if at16 tftp 0 = TFTP_ACK ∧ 4 ≤ tftp.length then ackReads s (at16 tftp 2) else none

/-- The same for a tick. -/
def tickReads (now : Clock) (s : Session) : Option Session :=
  if s.state = .sendRrq ∧ expired now s ∧ ¬ MAX_RETRANS < s.retransCount + 1 then some s else none

/-- The same for a request: a download without options reads its first window at once. -/
def requestReads (cfg : Config) (env : Env) (op : UInt16) (req : TftpReq) (s : Session) :
    Option Session :=
  if op ≠ TFTP_RRQ then none
  else
    (env.openRead req.filename).bind fun r =>
      if cfg.maxRrqSize ≠ 0 ∧ cfg.maxRrqSize < r.2 then none
      else if hasOptions (negotiate cfg req) then none
      else some { withOptions (negotiate cfg req) s with
        src := some r.1, nextBlock := 1, windowFirstOffset := 0 }

/-! ## What a call does to a life -/

/-- The ways a call can leave a session that was there before; `true` marks the two that break
    its life. -/
inductive CallFate (c c' : Ctx) : Bool → Prop
  | runs : Quiet c c' → c.s.live → c'.s.live → CallFate c c' false
  | rests : Quiet c c' → c.s.live = false → c'.s.state = c.s.state ∨ c'.s.state = .free →
      CallFate c c' false
  | ends : Ended c c' → c.s.live → c'.s.live = false → CallFate c c' false
  /-- given up without a word -/
  | lost : Quiet c c' → c.s.live → c'.s.state = .done → CallFate c c' true
  /-- ended a second time -/
  | endsAgain : Ended c c' → c.s.state = .done → c'.s.state = .done → CallFate c c' true

section Fates

variable {cfg : Config} {now : Clock} {c : Ctx}

theorem CallFate.refl (c : Ctx) : CallFate c c false := by
  cases hl : c.s.live with
  | true => exact .runs (.refl c) hl hl
  | false => exact .rests (.refl c) hl (.inl rfl)

/-- A fate does not change when something the lines and counters do not show came before it. -/
theorem CallFate.after {c₀ c' : Ctx} {bad : Bool} (h : CallFate c₀ c' bad) (hq : Quiet c c₀)
    (hst : c₀.s.state = c.s.state) : CallFate c c' bad := by
  have hl : c₀.s.live = c.s.live := by simp [Session.live, hst]
  cases h with
  | runs h1 h2 h3 => exact .runs (hq.trans h1) (hl ▸ h2) h3
  | rests h1 h2 h3 => exact .rests (hq.trans h1) (hl ▸ h2) (hst ▸ h3)
  | ends h1 h2 h3 => exact .ends (hq.ended h1) (hl ▸ h2) h3
  | lost h1 h2 h3 => exact .lost (hq.trans h1) (hl ▸ h2) h3
  | endsAgain h1 h2 h3 => exact .endsAgain (hq.ended h1) (hst ▸ h2) h3

/-- A call that goes on to send a window from disk, the session live until then. -/
theorem CallFate.sendWindow {c₀ : Ctx} (hb : CleanBatch c₀.batch) (hq : Quiet c c₀)
    (hl : c.s.live) (hl₀ : c₀.s.live) :
    CallFate c (rrqSendWindow cfg now c₀) (unreadable cfg c₀.s) := by
  have hst := rrqSendWindow_state cfg now hb
  have hq' := hq.trans (rrqSendWindow_quiet cfg now c₀)
  cases hu : unreadable cfg c₀.s with
  | true => exact .lost hq' hl (by simpa [hu] using hst)
  | false =>
    refine .runs hq' hl ?_
    rw [hu] at hst
    simpa [Session.live, hst] using hl₀

theorem CallFate.slowPath {c₀ : Ctx} (hb : CleanBatch c₀.batch) (hq : Quiet c c₀)
    (hl : c.s.live) (hl₀ : c₀.s.live) :
    CallFate c (rrqSlowPath cfg now c₀) (unreadable cfg c₀.s) := by
  have hq₁ : Quiet c
      (emitSessionProgress now { c₀ with s := { c₀.s with prebuiltValid := false } }) := by
    refine Quiet.trans ?_ (emitSessionProgress_quiet now _)
    exact ⟨hq.word, hq.tally, hq.id⟩
  have hu : unreadable cfg
      (emitSessionProgress now { c₀ with s := { c₀.s with prebuiltValid := false } }).s =
        unreadable cfg c₀.s := by
    rw [emitSessionProgress_s]
    exact unreadable_congr rfl rfl rfl rfl rfl rfl
  rw [← hu]
  exact .sendWindow (by simpa using hb) hq₁ hl (by simpa [Session.live] using hl₀)

theorem rrqOnAck_fate (hb : CleanBatch c.batch) (hst : c.s.state = .sendRrq) (ack : UInt16) :
    CallFate c (rrqOnAck cfg now ack c) ((ackReads c.s ack).any (unreadable cfg)) := by
  have hl : c.s.live := by simp [Session.live, hst]
  rcases rrqOnAck_cases cfg now c ack with
    ⟨h1, h⟩ | ⟨h1, h2, h⟩ | ⟨h1, h2, h3, h⟩ | ⟨h1, h2, h3, h⟩ <;> rw [h]
  · have hr : ackReads c.s ack = none := by simp [ackReads, hst, h1]
    rw [hr]
    exact .refl c
  · have hr : ackReads c.s ack = none := by simp [ackReads, hst, h2]
    rw [hr]
    refine .ends (Quiet.ended ?_ (rrqFinish_ended now _)) hl (Session.not_live_of_done rfl)
    exact ⟨rfl, rfl, rfl⟩
  · have hr : ackReads c.s ack = none := by
      simp only [ackReads, hst]
      exact if_pos (.inr (.inr h3))
    rw [hr]
    refine .runs (Quiet.trans ?_ (rrqFastPath_quiet cfg now _)) hl ?_
    · exact ⟨rfl, rfl, rfl⟩
    · simp [rrqFastPath, ackAdvance, Session.live, hst]
  · have hr : ackReads c.s ack = some { c.s with
        nextBlock := ackCand c.s.windowLast ack + 1
        windowFirstOffset := ackedBytes c.s (ackCand c.s.windowLast ack) } := by
      simp only [ackReads, hst]
      exact if_neg (by simp only [not_or]; exact ⟨h1, h2, h3⟩)
    have hu : unreadable cfg (ackAdvance (ackCand c.s.windowLast ack)
        { c.s with bytesDone := ackedBytes c.s (ackCand c.s.windowLast ack) }) =
        unreadable cfg { c.s with
          nextBlock := ackCand c.s.windowLast ack + 1
          windowFirstOffset := ackedBytes c.s (ackCand c.s.windowLast ack) } :=
      unreadable_congr rfl rfl rfl rfl rfl rfl
    rw [hr, Option.any_some, ← hu]
    exact .slowPath hb ⟨rfl, rfl, rfl⟩ hl (by simp [ackAdvance, Session.live, hst])

/-- An ACK, by the state of the session. -/
theorem onAck_fate (hb : CleanBatch c.batch) (ack : UInt16) :
    CallFate c (match c.s.state with
      | .oackWaitAck0 =>
        if ack = 0 ∧ c.s.kind = TFTP_RRQ then rrqSendWindow cfg now (dataPhase c) else c
      | .sendRrq => rrqOnAck cfg now ack c
      | _ => c) ((ackReads c.s ack).any (unreadable cfg)) := by
  cases hst : c.s.state with
  | sendRrq => exact rrqOnAck_fate hb hst ack
  | oackWaitAck0 =>
    have hl : c.s.live := by simp [Session.live, hst]
    by_cases h0 : ack = 0 ∧ c.s.kind = TFTP_RRQ
    · have hr : ackReads c.s ack = some { c.s with nextBlock := 1, windowFirstOffset := 0 } := by
        simp only [ackReads, hst, if_pos h0]
      have hu : unreadable cfg (dataPhase c).s =
          unreadable cfg { c.s with nextBlock := 1, windowFirstOffset := 0 } :=
        unreadable_congr rfl rfl rfl rfl rfl rfl
      simp only [if_pos h0, hr, Option.any_some, ← hu]
      exact .sendWindow hb ⟨rfl, rfl, rfl⟩ hl rfl
    · simp only [ackReads, hst, if_neg h0, Option.any_none]
      exact .refl c
  | _ =>
    simp only [ackReads, hst, Option.any_none]
    exact .refl c

/-- A DATA packet of a running upload. -/
theorem onData_fate (tftp : Bytes) (hst : c.s.state = .recvWrq) :
    CallFate c (wrqOnData cfg now (at16 tftp 2) (tftp.drop 4) (countReceived tftp c)) false := by
  have hl : c.s.live := by simp [Session.live, hst]
  have hcount : Quiet c (countReceived tftp c) := ⟨rfl, rfl, rfl⟩
  rcases wrqOnData_life cfg now (countReceived tftp c) (at16 tftp 2) (tftp.drop 4) with
    ⟨hq, hs⟩ | ⟨he, hs⟩
  · refine .runs (hcount.trans hq) hl ?_
    rw [Session.live_iff, hs]
    exact Session.live_iff.1 hl
  · exact .ends (hcount.ended he) hl (Session.not_live_of_done hs)

/-- A non-request packet: the session may be lost to an unreadable window, or ended again by an
    ERROR packet. -/
theorem onSessionPacket_fate (hb : CleanBatch c.batch) (tftp : Bytes)
    (hst : c.s.state ≠ .free) :
    CallFate c (onSessionPacket cfg now tftp c)
      ((packetReads c.s tftp).any (unreadable cfg) ||
        (at16 tftp 0 == TFTP_ERROR && c.s.state == .done)) := by
  by_cases herr : at16 tftp 0 = TFTP_ERROR
  · have hack : TFTP_ERROR ≠ TFTP_ACK := by decide
    have hr : packetReads c.s tftp = none := by simp [packetReads, herr, hack]
    rw [onSessionPacket_error cfg now c tftp herr, hr]
    have hend := clientAborted_ended now c
    by_cases hd : c.s.state = .done
    · simp only [Option.any_none, herr, hd, beq_self_eq_true, Bool.and_self, Bool.or_true]
      exact .endsAgain hend hd rfl
    · simp only [Option.any_none, Bool.false_or, herr, beq_eq_false_iff_ne.mpr hd, Bool.and_false]
      exact .ends hend (Session.live_iff.mpr ⟨hst, hd⟩) (Session.not_live_of_done rfl)
  · simp only [beq_eq_false_iff_ne.mpr herr, Bool.false_and, Bool.or_false]
    by_cases hack : at16 tftp 0 = TFTP_ACK ∧ 4 ≤ tftp.length
    · simp only [onSessionPacket, if_pos hack, packetReads]
      exact onAck_fate hb (at16 tftp 2)
    · simp only [onSessionPacket, if_neg hack, packetReads, Option.any_none, if_neg herr]
      split
      · rename_i hdata
        exact onData_fate tftp hdata.2.2
      · exact .refl c

theorem retransmit_fate (hb : CleanBatch c.batch) (hl : c.s.live) :
    CallFate c (retransmit cfg now c) (c.s.state == .sendRrq && unreadable cfg c.s) := by
  cases hst : c.s.state with
  | free => simp [Session.live, hst] at hl
  | done => simp [Session.live, hst] at hl
  | oackWaitAck0 =>
    simp only [retransmit, hst]
    exact .runs ⟨rfl, rfl, rfl⟩ hl (by simp [Session.live])
  | recvWrq =>
    simp only [retransmit, hst]
    exact .runs (wrqSendAck_quiet cfg now c _) hl (by simp [Session.live, hst])
  | sendRrq =>
    have hu : unreadable cfg { c.s with prebuiltValid := false } = unreadable cfg c.s :=
      unreadable_congr rfl rfl rfl rfl rfl rfl
    simp only [retransmit, hst, beq_self_eq_true, Bool.true_and, ← hu]
    exact .sendWindow hb ⟨rfl, rfl, rfl⟩ hl (by simp [Session.live])

theorem tickSlot_fate (hb : CleanBatch c.batch) :
    CallFate c (tickSlot cfg now c) ((tickReads now c.s).any (unreadable cfg)) := by
  rcases tickSlot_cases cfg now c with
    ⟨hst, h⟩ | ⟨hst, h⟩ | ⟨-, hexp, h⟩ | ⟨hst, -, hmax, h⟩ | ⟨hst, hexp, hmax, h⟩ <;> rw [h]
  · simp only [tickReads, hst, reduceCtorEq, false_and, if_false, Option.any_none]
    exact .refl c
  · simp only [tickReads, hst, reduceCtorEq, false_and, if_false, Option.any_none]
    refine .rests ⟨rfl, ?_, rfl⟩ (Session.not_live_of_done hst) (.inr rfl)
    simp only [freeSlot]
    split <;> rfl
  · simp only [tickReads, hexp, Bool.false_eq_true, false_and, and_false, if_false, Option.any_none]
    exact .refl c
  · simp only [tickReads, hmax, not_true_eq_false, and_false, if_false, Option.any_none]
    refine .ends (Quiet.ended ?_ (timeOut_ended now (bumpRetrans c))) (Session.live_iff.mpr hst)
      (Session.not_live_of_free rfl)
    exact ⟨rfl, rfl, rfl⟩
  · have hl : (bumpRetrans c).s.live := Session.live_iff.mpr hst
    have hu : unreadable cfg (bumpRetrans c).s = unreadable cfg c.s :=
      unreadable_congr rfl rfl rfl rfl rfl rfl
    have hr : (tickReads now c.s).any (unreadable cfg) =
        (c.s.state == .sendRrq && unreadable cfg c.s) := by
      by_cases h1 : c.s.state = .sendRrq <;> simp [tickReads, h1, hexp, hmax]
    rw [hr, ← hu]
    exact (retransmit_fate (c := bumpRetrans c) hb hl).after ⟨rfl, rfl, rfl⟩ rfl

end Fates

/-- The ways a request can leave the session it was entered as. -/
inductive Birth (c c' : Ctx) : Bool → Prop
  | runs : word c'.out = word c.out ++ [.started c.s.id c.s.filename] →
      tally c'.stats = tally c.stats → c'.s.id = c.s.id → c'.s.live → Birth c c' false
  | rejected : word c'.out = word c.out ++ [.started c.s.id c.s.filename, .ended c.s.id] →
      tally c'.stats = tally c.stats → c'.s.id = c.s.id → c'.s.state = .done → Birth c c' false
  /-- given up without a word -/
  | lost : word c'.out = word c.out ++ [.started c.s.id c.s.filename] →
      tally c'.stats = tally c.stats → c'.s.id = c.s.id → c'.s.state = .done → Birth c c' true

section Births

variable (cfg : Config) (now : Clock) (c : Ctx)

/-- Only the name, the id, the lines and the counters matter. -/
theorem Birth.of_fields {c c₀ c' : Ctx} {bad : Bool} (h : Birth c₀ c' bad) (hout : c₀.out = c.out)
    (hst : c₀.stats = c.stats) (hid : c₀.s.id = c.s.id) (hname : c₀.s.filename = c.s.filename) :
    Birth c c' bad := by
  cases h with
  | runs h1 h2 h3 h4 =>
    rw [hout, hid, hname] at h1
    exact .runs h1 (hst ▸ h2) (hid ▸ h3) h4
  | rejected h1 h2 h3 h4 =>
    rw [hout, hid, hname] at h1
    exact .rejected h1 (hst ▸ h2) (hid ▸ h3) h4
  | lost h1 h2 h3 h4 =>
    rw [hout, hid, hname] at h1
    exact .lost h1 (hst ▸ h2) (hid ▸ h3) h4

theorem rejectRequest_birth (code : UInt16) (msg : String) (reason : EndReason) :
    Birth c (rejectRequest cfg now code msg reason c) false := by
  have hq := sendError_quiet cfg c code msg
  have hs := sendError_s cfg c code msg
  unfold rejectRequest
  generalize sendError cfg code msg c = c₀ at hq hs ⊢
  refine .rejected ?_ hq.tally hq.id rfl
  simp [emitSessionStart, emitSessionEnd, hq.word, hs]
  rfl

theorem wrqBegin_birth (req : TftpReq) : Birth c (wrqBegin cfg now req c) false := by
  unfold wrqBegin
  simp only
  split
  · have hq := sendTftp_quiet cfg (emitSessionStart { c with s := { withOptions req c.s with
      totalBytes := req.tsize.getD 0, optionsNegotiated := hasOptions req } }) (tftpBuildOack 512 req)
    exact .runs (hq.word.trans (word_append _ _)) hq.tally hq.id rfl
  · have hq := wrqSendAck_quiet cfg now (emitSessionStart { c with s := { withOptions req c.s with
      totalBytes := req.tsize.getD 0, optionsNegotiated := hasOptions req } }) 0
    exact .runs (hq.word.trans (word_append _ _)) hq.tally hq.id rfl

theorem startWrq_birth (env : Env) (req : TftpReq) : Birth c (startWrq cfg now env req c) false := by
  rcases startWrq_cases cfg now c env req with ⟨-, code, msg, reason, src, h⟩ | ⟨-, src, -, h⟩ <;>
    rw [h]
  · exact (rejectRequest_birth cfg now _ code msg reason).of_fields rfl rfl rfl rfl
  · exact (wrqBegin_birth cfg now _ _).of_fields rfl rfl rfl rfl

/-- A download once its session_start is out. -/
def rrqOpened (env : Env) (req : TftpReq) (sz : UInt64) : Ctx :=
  let req := { negotiate cfg req with tsize := (negotiate cfg req).tsize.map fun _ => sz }
  let s := { withOptions req c.s with tsize := sz, optionsNegotiated := hasOptions req }
  { c with
    s := { s with prebuilt := if env.batchNew then some (.new BATCH_CAP) else none }
    out := c.out ++ [.ipc (.sessionStart s)] }

/-- The first window of a download, or its OACK. -/
theorem rrqBegin_birth (env : Env) (req : TftpReq) (sz : UInt64) (hb : CleanBatch c.batch) :
    Birth c (rrqBegin cfg now env req sz c) (! hasOptions (negotiate cfg req) &&
      unreadable cfg { withOptions (negotiate cfg req) c.s with
        nextBlock := 1, windowFirstOffset := 0 }) := by
  have hopt : hasOptions { negotiate cfg req with
      tsize := (negotiate cfg req).tsize.map fun _ => sz } = hasOptions (negotiate cfg req) := by
    simp [hasOptions]
  have heq : rrqBegin cfg now env req sz c =
      let c₁ := rrqOpened cfg c env req sz
      if hasOptions { negotiate cfg req with
        tsize := (negotiate cfg req).tsize.map fun _ => sz } then
        let c₂ := sendTftp cfg (tftpBuildOack 512 { negotiate cfg req with
          tsize := (negotiate cfg req).tsize.map fun _ => sz }) c₁
        { c₂ with s := { c₂.s with state := .oackWaitAck0, nextTimeoutMs := deadline now c₂.s } }
      else rrqSendWindow cfg now (dataPhase c₁) := rfl
  have hword : word (rrqOpened cfg c env req sz).out =
      word c.out ++ [.started c.s.id c.s.filename] := word_append _ _
  rw [heq, hopt]
  cases ho : hasOptions (negotiate cfg req) with
  | true =>
    generalize tftpBuildOack 512 _ = oack
    have hq := sendTftp_quiet cfg (rrqOpened cfg c env req sz) oack
    exact .runs (hq.word.trans hword) hq.tally hq.id rfl
  | false =>
    have hq := rrqSendWindow_quiet cfg now (dataPhase (rrqOpened cfg c env req sz))
    have hst := rrqSendWindow_state cfg now (c := dataPhase (rrqOpened cfg c env req sz)) hb
    have hu : unreadable cfg (dataPhase (rrqOpened cfg c env req sz)).s =
        unreadable cfg { withOptions (negotiate cfg req) c.s with
          nextBlock := 1, windowFirstOffset := 0 } := unreadable_congr rfl rfl rfl rfl rfl rfl
    simp only [Bool.false_eq_true, if_false, Bool.not_false, Bool.true_and, ← hu]
    cases hbad : unreadable cfg (dataPhase (rrqOpened cfg c env req sz)).s with
    | true => exact .lost (hq.word.trans hword) hq.tally hq.id (by rw [hst, hbad]; rfl)
    | false =>
      refine .runs (hq.word.trans hword) hq.tally hq.id ?_
      rw [hbad] at hst
      simp only [Session.live, hst]
      rfl

/-- A download: turned down, begun with an OACK, or begun with its first window. -/
theorem startRrq_birth (env : Env) (req : TftpReq) (hb : CleanBatch c.batch) :
    Birth c (startRrq cfg now env req c)
      ((requestReads cfg env TFTP_RRQ req c.s).any (unreadable cfg)) := by
  unfold startRrq requestReads
  cases hopen : env.openRead req.filename with
  | none => exact (rejectRequest_birth cfg now _ _ _ _).of_fields rfl rfl rfl rfl
  | some r =>
    obtain ⟨src, sz⟩ := r
    simp only [Option.bind_some]
    by_cases hbig : cfg.maxRrqSize ≠ 0 ∧ cfg.maxRrqSize < sz
    · simp only [if_pos hbig]
      exact (rejectRequest_birth cfg now _ _ _ _).of_fields rfl rfl rfl rfl
    simp only [if_neg hbig]
    have hbirth := rrqBegin_birth cfg now
      { c with s := { withOptions req c.s with src := some src, totalBytes := sz } } env req sz hb
    cases ho : hasOptions (negotiate cfg req) with
    | true =>
      rw [ho] at hbirth
      exact hbirth.of_fields rfl rfl rfl rfl
    | false =>
      have hu : unreadable cfg { withOptions (negotiate cfg req)
          { withOptions req c.s with src := some src, totalBytes := sz } with
            nextBlock := 1, windowFirstOffset := 0 } =
          unreadable cfg { withOptions (negotiate cfg req) c.s with
            src := some src, nextBlock := 1, windowFirstOffset := 0 } :=
        unreadable_congr rfl rfl rfl rfl rfl rfl
      rw [ho, hu] at hbirth
      exact hbirth.of_fields rfl rfl rfl rfl

theorem startSession_birth (m : SessMgr) (env : Env) (p : Sender) (op : UInt16) (req : TftpReq)
    (hb : CleanBatch c.batch) :
    Birth { c with s := newSession m now p op req } (startSession m now env p op req c)
      ((requestReads m.cfg env op req (newSession m now p op req)).any (unreadable m.cfg)) := by
  unfold startSession
  by_cases hop : op = TFTP_RRQ
  · subst hop
    exact startRrq_birth m.cfg now _ env req hb
  · have hr : requestReads m.cfg env op req (newSession m now p op req) = none := if_pos hop
    simp only [if_neg hop, hr, Option.any_none]
    exact startWrq_birth m.cfg now _ env req

end Births

/-! ## A life, watched -/

/-- What was written and counted for the session in a slot since it was opened. -/
structure Life where
  word : List LifeEv
  tallies : Nat
deriving DecidableEq

/-- Started, then ended, and counted at most once. -/
def Life.Complete (l : Life) (id : UInt32) : Prop :=
  (∃ name, l.word = [.started id name, .ended id]) ∧ l.tallies ≤ 1

/-- The life of a session is as it should be in the state the session is in. -/
def InOrder (s : Session) (l : Life) : Prop :=
  match s.state with
  | .free => l = ⟨[], 0⟩ ∨ l.Complete s.id
  | .done => l.Complete s.id
  | .oackWaitAck0 | .sendRrq | .recvWrq => (∃ name, l.word = [.started s.id name]) ∧ l.tallies = 0

theorem inOrder_live {s : Session} {l : Life} (hl : s.live) :
    InOrder s l ↔ (∃ name, l.word = [.started s.id name]) ∧ l.tallies = 0 := by
  unfold InOrder
  unfold Session.live at hl
  split <;> simp_all

theorem inOrder_done {s : Session} {l : Life} (h : s.state = .done) :
    InOrder s l ↔ l.Complete s.id := by
  simp [InOrder, h]

theorem inOrder_of_complete {s : Session} {l : Life} (hl : s.live = false) (h : l.Complete s.id) :
    InOrder s l := by
  unfold InOrder
  split
  · exact .inr h
  · exact h
  all_goals simp_all [Session.live]

theorem inOrder_congr {s s' : Session} (hst : s'.state = s.state) (hid : s'.id = s.id) (l : Life) :
    InOrder s' l ↔ InOrder s l := by
  unfold InOrder
  rw [hst, hid]

/-- After a call a life is in order exactly if the call did not break it. -/
theorem CallFate.inOrder_iff {c c' : Ctx} {bad : Bool} (h : CallFate c c' bad) (hout : c.out = [])
    {l : Life} (hl : InOrder c.s l) {t : Nat} (ht : t ≤ tallied c.stats c'.stats) :
    InOrder c'.s ⟨l.word ++ word c'.out, l.tallies + t⟩ ↔ bad = false := by
  have hquiet : Quiet c c' → (⟨l.word ++ word c'.out, l.tallies + t⟩ : Life) = l := by
    intro hq
    rw [tallied_of_eq hq.tally] at ht
    have hw := hq.word
    rw [hout] at hw
    simp [hw, Nat.le_zero.mp ht]
  cases h with
  | runs hq h1 h2 =>
    rw [hquiet hq, inOrder_live h2, hq.id, ← inOrder_live h1]
    simp [hl]
  | rests hq h1 h2 =>
    rw [hquiet hq]
    simp only [iff_true]
    rcases h2 with h2 | h2
    · exact (inOrder_congr h2 hq.id l).mpr hl
    simp only [InOrder, h2, hq.id]
    unfold InOrder at hl
    split at hl
    · exact hl
    · exact .inr hl
    all_goals simp_all [Session.live]
  | ends he h1 h2 =>
    obtain ⟨⟨name, hw⟩, h0⟩ := (inOrder_live h1).mp hl
    simp only [iff_true]
    refine inOrder_of_complete h2 ⟨⟨name, ?_⟩, ?_⟩
    · simp [hw, he.word, hout, he.id]
    · have := he.tallied
      simp only [h0]
      omega
  | lost hq h1 h2 =>
    obtain ⟨⟨name, hw⟩, -⟩ := (inOrder_live h1).mp hl
    rw [hquiet hq, inOrder_done h2]
    simp [Life.Complete, hw]
  | endsAgain he h1 h2 =>
    obtain ⟨⟨name, hw⟩, -⟩ := (inOrder_done h1).mp hl
    rw [inOrder_done h2]
    simp [Life.Complete, hw, he.word, hout]

theorem Birth.inOrder_iff {c c' : Ctx} {bad : Bool} (h : Birth c c' bad) (hout : c.out = [])
    {t : Nat} (ht : t ≤ tallied c.stats c'.stats) :
    InOrder c'.s ⟨word c'.out, t⟩ ↔ bad = false := by
  have hzero : tally c'.stats = tally c.stats → t = 0 := by
    intro h
    rw [tallied_of_eq h] at ht
    exact Nat.le_zero.mp ht
  cases h with
  | runs hw h1 h2 h3 =>
    rw [inOrder_live h3]
    simp [hw, hout, h2, hzero h1]
  | rejected hw h1 h2 h3 =>
    rw [inOrder_done h3]
    simp [Life.Complete, hw, hout, h2, hzero h1]
  | lost hw h1 h2 h3 =>
    rw [inOrder_done h3]
    simp [Life.Complete, hw, hout]

/-! ## Which slot an event concerns -/

/-- The slot a payload is for. -/
def concerned (m : SessMgr) : Event → Option (Fin SESS_MAX)
  | .tftp _ _ p tftp => ((opens m p tftp).map (·.2)).or (reaches m p tftp)
  | _ => none

/-- What an event adds to the counters, charged to the slot it concerns, or to all of them. -/
def charge (m : SessMgr) (e : Event) (i : Fin SESS_MAX) : Nat :=
  if (concerned m e).all (· == i) then tallied m.stats (step m e).stats else 0

/-- Does this event open a session in this slot? -/
def openedIn (m : SessMgr) (i : Fin SESS_MAX) : Event → Bool
  | .tftp _ _ p tftp => (opens m p tftp).any (·.2 == i)
  | _ => false

/-- Does this event lose the session of this slot, or end it again? -/
def loses (m : SessMgr) (i : Fin SESS_MAX) : Event → Bool
  | .tftp now env p tftp =>
    match opens m p tftp with
    | some (req, j) => j == i && (requestReads m.cfg env (at16 tftp 0) req
        (newSession m now p (at16 tftp 0) req)).any (unreadable m.cfg)
    | none => reaches m p tftp == some i && ((packetReads (m.slots i) tftp).any (unreadable m.cfg) ||
        (at16 tftp 0 == TFTP_ERROR && (m.slots i).state == .done))
  | .tick now => (tickReads now (m.slots i)).any (unreadable m.cfg)
  | .configChanged _ => false

/-- A tick counts nothing. -/
theorem sessmgrTick_tally (m : SessMgr) (now : Clock) :
    tally (sessmgrTick m now).1.stats = tally m.stats := by
  refine sessmgrTick_induct (P := fun m' _ => tally m'.stats = tally m.stats) m now rfl ?_
  intro m' _ i _ _ hm'
  refine Eq.trans ?_ hm'
  exact tickSlot_tally m.cfg now _

/-- The call an event makes on a slot, with what it is charged. -/
theorem stepOut_charged (m : SessMgr) (e : Event) (i : Fin SESS_MAX) :
    ∃ b st, (CleanBatch m.batch → CleanBatch b) ∧
      (step m e).slots i = (slotCall m i e ⟨m.slots i, b, st, []⟩).s ∧
      outFor i (stepOut m e).2 = (slotCall m i e ⟨m.slots i, b, st, []⟩).out ∧
      charge m e i ≤ tallied st (slotCall m i e ⟨m.slots i, b, st, []⟩).stats := by
  have huncharged : charge m e i = 0 → ∃ b st, (CleanBatch m.batch → CleanBatch b) ∧
      (step m e).slots i = (slotCall m i e ⟨m.slots i, b, st, []⟩).s ∧
      outFor i (stepOut m e).2 = (slotCall m i e ⟨m.slots i, b, st, []⟩).out ∧
      charge m e i ≤ tallied st (slotCall m i e ⟨m.slots i, b, st, []⟩).stats := by
    intro h0
    obtain ⟨b, st, hb, hs, ho⟩ := stepOut_slot m e i
    exact ⟨b, st, hb, hs, ho, by rw [h0]; exact Nat.zero_le _⟩
  cases e with
  | tick now => exact huncharged (tallied_of_eq (sessmgrTick_tally m now))
  | configChanged cfg => exact huncharged (tallied_of_eq rfl)
  | tftp now env p tftp =>
    cases ho : opens m p tftp with
    | some ri =>
      obtain ⟨req, j⟩ := ri
      by_cases hj : j = i
      · subst hj
        obtain ⟨st, hs, hout, -, hst, hcomp, hfail, -⟩ :=
          openSession_slots (m := m) now env p (at16 tftp 0) req j j
        refine ⟨m.batch, st, id, ?_⟩
        simp only [step, stepOut, sessmgrOnTftp_open ho, slotCall, ho, hs, hout, if_true, true_and]
        simp [charge, concerned, ho, step, stepOut, sessmgrOnTftp_open ho, hst, tallied, hcomp, hfail]
      · exact huncharged (by simp [charge, concerned, ho, hj])
    | none =>
      cases hr : reaches m p tftp with
      | some j =>
        by_cases hj : j = i
        · subst hj
          refine ⟨m.batch, m.stats, id, ?_⟩
          simp [step, stepOut, sessmgrOnTftp_packet hr, slotCall, ho, hr, onSlot_slots, onSlot_out,
            onSlot_stats, charge, concerned]
        · exact huncharged (by simp [charge, concerned, ho, hr, hj])
      | none =>
        obtain ⟨⟨tid, denied, hm⟩, -⟩ := sessmgrOnTftp_idle now env ho hr
        exact huncharged (by simp [charge, concerned, ho, hr, step, stepOut, hm, tallied])

/-- A slot before and after an event. -/
theorem slot_inOrder_iff (m : SessMgr) (e : Event) (i : Fin SESS_MAX) (hb : CleanBatch m.batch)
    {l : Life} (hl : InOrder (m.slots i) l) :
    InOrder ((step m e).slots i)
      ⟨(if openedIn m i e then [] else l.word) ++ word (outFor i (stepOut m e).2),
        (if openedIn m i e then 0 else l.tallies) + charge m e i⟩ ↔ loses m i e = false := by
  obtain ⟨b, st, hclean, hs, ho, hcharge⟩ := stepOut_charged m e i
  have hb' := hclean hb
  rw [hs, ho]
  cases e with
  | tick now => exact (tickSlot_fate hb').inOrder_iff rfl hl hcharge
  | configChanged cfg => exact (CallFate.refl ⟨m.slots i, b, st, []⟩).inOrder_iff rfl hl hcharge
  | tftp now env p tftp =>
    cases hop : opens m p tftp with
    | some ri =>
      obtain ⟨req, j⟩ := ri
      by_cases hj : j = i
      · subst hj
        simp only [openedIn, slotCall, loses, hop, Option.any_some, beq_self_eq_true, if_true,
          List.nil_append, Nat.zero_add, Bool.true_and] at hcharge ⊢
        exact (startSession_birth now _ m env p _ req hb').inOrder_iff rfl hcharge
      · simp only [openedIn, slotCall, loses, hop, Option.any_some, beq_eq_false_iff_ne.mpr hj,
          Bool.false_eq_true, if_neg hj, if_false, Bool.false_and] at hcharge ⊢
        have h := (CallFate.refl ⟨m.slots i, b, st, []⟩).inOrder_iff rfl hl hcharge
        exact iff_of_true (h.mpr rfl) trivial
    | none =>
      simp only [openedIn, slotCall, loses, hop, Option.any_none, Bool.false_eq_true, if_false]
        at hcharge ⊢
      by_cases hr : reaches m p tftp = some i
      · have hst := (findOrAlloc_match (reaches_eq_some.mp hr).2.2).1
        simp only [hr, if_true, beq_self_eq_true, Bool.true_and] at hcharge ⊢
        exact (onSessionPacket_fate hb' tftp hst).inOrder_iff rfl hl hcharge
      · simp only [if_neg hr, beq_eq_false_iff_ne.mpr hr, Bool.false_and] at hcharge ⊢
        have h := (CallFate.refl ⟨m.slots i, b, st, []⟩).inOrder_iff rfl hl hcharge
        exact iff_of_true (h.mpr rfl) trivial

/-! ## Runs, watched -/

/-- A manager with the lives of its slots. -/
structure Watch where
  m : SessMgr
  life : Fin SESS_MAX → Life
  clean : CleanBatch m.batch

def watchNew (cfg : Config) : Watch := ⟨sessmgrNew cfg, fun _ => ⟨[], 0⟩, rfl⟩

/-- One event: a slot that is opened starts a new life, and each life takes down what was written
    for its slot. -/
def Watch.step (w : Watch) (e : Event) : Watch where
  m := CCore.step w.m e
  life i := ⟨(if openedIn w.m i e then [] else (w.life i).word) ++ word (outFor i (stepOut w.m e).2),
    (if openedIn w.m i e then 0 else (w.life i).tallies) + charge w.m e i⟩
  clean := step_cleanBatch w.m e w.clean

/-- Every life is in order. -/
def Watch.Good (w : Watch) : Prop := ∀ i, InOrder (w.m.slots i) (w.life i)

/-- No session is lost, and none is ended again. -/
def LosesNone (w : Watch) (e : Event) : Prop := ∀ i, loses w.m i e = false

theorem Watch.good_step_iff {w : Watch} (e : Event) (h : w.Good) :
    (w.step e).Good ↔ LosesNone w e :=
  forall_congr' fun i => slot_inOrder_iff w.m e i w.clean (h i)

theorem watchNew_good (cfg : Config) : (watchNew cfg).Good := fun _ => .inl rfl

end Nishro.CCore

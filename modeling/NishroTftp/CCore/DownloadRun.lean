import NishroTftp.CCore.AckNumbers
import NishroTftp.CCore.Begin
import NishroTftp.CCore.Prebuilt
/-
  Whole downloads: `start_rrq`, then ACKs and looks at the timer in any order.

  Each event that sends a window from disk, or flushes the one built ahead, builds the next one; the
  condition for the queue to be exact is put on the sessions for which that happens.
-/
namespace Nishro.CCore

open Nishro.Runs
open Nishro.Wire

/-! ## The life of one download -/

/-- What happens to a download: an ACK comes in, or the timers are looked at. -/
inductive RrqEvent
  | ack (now : Clock) (n : UInt16)
  | tick (now : Clock)

def ackPacket (n : UInt16) : Bytes := be16 TFTP_ACK ++ be16 n

def rrqStep (cfg : Config) (c : Ctx) : RrqEvent → Ctx
  | .ack now n => onSessionPacket cfg now (ackPacket n) c
  | .tick now => tickSlot cfg now c

theorem onSessionPacket_ack (cfg : Config) (now : Clock) (n : UInt16) (c : Ctx) :
    onSessionPacket cfg now (ackPacket n) c =
      match c.s.state with
      | .oackWaitAck0 =>
        if n = 0 ∧ c.s.kind = TFTP_RRQ then rrqSendWindow cfg now (dataPhase c) else c
      | .sendRrq => rrqOnAck cfg now n c
      | _ => c := by
  have h0 : at16 (ackPacket n) 0 = TFTP_ACK := rd16_be16 TFTP_ACK
  have h2 : at16 (ackPacket n) 2 = n := rd16_be16 n
  unfold onSessionPacket
  rw [h0, h2]
  cases c.s.state <;> rfl

/-- The session for which `rrq_send_window` calls `rrq_prebuild_next`, if the window is read. -/
def windowSession (cfg : Config) (now : Clock) (c : Ctx) : Option Session :=
  match c.s.src with
  | none => none
  | some src =>
    let r := windowFill cfg c src
    if r.ok then
      some { c.s with
        prebuiltValid := false, src := some r.src
        windowLast := r.last, eofReached := r.eof, nextTimeoutMs := deadline now c.s }
    else none

/-- The one for which the fast path does: its queue is flushed. -/
def flushedSession (now : Clock) (s : Session) : Session :=
  let flushed : Session := { s with
    windowLast := s.prebuiltLastBlock
    eofReached := s.prebuiltEof
    prebuilt := s.prebuilt.map PcapBatch.flushed
    nextTimeoutMs := deadline now s
    prebuiltValid := false }
  { flushed with lastProgressMs := progressMs now flushed }

theorem rrqFastPath_s (cfg : Config) (now : Clock) (c : Ctx) :
    (rrqFastPath cfg now c).s = rrqPrebuildNext cfg (flushedSession now c.s) := by
  unfold rrqFastPath
  dsimp only
  rw [emitSessionProgress_s]
  rfl

/-- The one for which an ACK does. -/
def ackSession (cfg : Config) (now : Clock) (ack : UInt16) (c : Ctx) : Option Session :=
  let cand := ackCand c.s.windowLast ack
  if cand < c.s.nextBlock then none
  else
    let c := { c with s := { c.s with bytesDone := ackedBytes c.s cand } }
    if c.s.eofReached ∧ c.s.windowLast ≤ cand then none
    else
      let c := { c with s := ackAdvance cand c.s }
      if c.s.prebuiltValid ∧ c.s.prebuiltFirstBlock = c.s.nextBlock ∧ cand = c.s.windowLast then
        some (flushedSession now c.s)
      else
        windowSession cfg now (emitSessionProgress now
          { c with s := { c.s with prebuiltValid := false } })

/-- The timer makes a download send its window again. -/
def Resends (now : Clock) (s : Session) : Prop :=
  s.state = .sendRrq ∧ expired now s = true ∧ ¬ MAX_RETRANS < s.retransCount + 1

instance (now : Clock) (s : Session) : Decidable (Resends now s) := instDecidableAnd

def resending (s : Session) : Session :=
  { s with retransCount := s.retransCount + 1, prebuiltValid := false }

/-- The one for which an event does. -/
def RrqEvent.prebuildsFor (cfg : Config) (c : Ctx) : RrqEvent → Option Session
  | .ack now n =>
    match c.s.state with
    | .oackWaitAck0 =>
      if n = 0 ∧ c.s.kind = TFTP_RRQ then windowSession cfg now (dataPhase c) else none
    | .sendRrq => ackSession cfg now n c
    | _ => none
  | .tick now =>
    if Resends now c.s then
      windowSession cfg now { c with s := resending c.s }
    else none

/-- A download has a file that can be read and queues of the right capacity. -/
structure Session.Sound (s : Session) : Prop where
  download : s.state ≠ .recvWrq
  file : s.state = .oackWaitAck0 ∨ s.state = .sendRrq → s.src ≠ none
  healthy : ∀ src, s.src = some src → src.Healthy
  queue : ∀ pb, s.prebuilt = some pb → pb.cap = BATCH_CAP

section Life

variable (cfg : Config) (now : Clock) {c : Ctx}

theorem sound_prebuildNext {s : Session} (h : s.Sound) : (rrqPrebuildNext cfg s).Sound := by
  have hfill : ∀ src pb (s' : Session), s.src = some src → s.prebuilt = some pb →
      let r := rrqFillWindow cfg s pb src (s.windowLast + 1) (prebuildOffset s)
      s'.state = s.state → s'.src = some r.src → s'.prebuilt = some r.batch → s'.Sound := by
    intro src pb s' hsrc hpb r h1 h2 h3
    refine ⟨by rw [h1]; exact h.download, fun _ => by rw [h2]; exact Option.some_ne_none _,
      fun src' h' => ?_, fun pb' h' => ?_⟩
    · obtain rfl := Option.some.inj (h2.symm.trans h')
      exact (rrqFillWindow_src cfg s (h.healthy src hsrc) pb _ _).1
    · obtain rfl := Option.some.inj (h3.symm.trans h')
      exact (rrqFillWindow_cap cfg s pb src _ _).trans (h.queue pb hpb)
  rcases rrqPrebuildNext_cases cfg s with ⟨-, heq⟩ | ⟨src, pb, ⟨hfile, hpb, -⟩, -, heq⟩ |
    ⟨src, pb, hbuilds, heq⟩ <;> rw [heq]
  · exact h
  · exact hfill src pb _ hfile hpb rfl rfl rfl
  · exact hfill src pb _ hbuilds.file hbuilds.queue rfl rfl rfl

/-- Soundness is about the state, the file and the queue. -/
theorem Session.Sound.frame {s s' : Session} (h : s.Sound) (hst : s'.state = s.state)
    (hsrc : s'.src = s.src) (hpb : s'.prebuilt = s.prebuilt) : s'.Sound :=
  ⟨by rw [hst]; exact h.download, by rw [hst, hsrc]; exact h.file, by rw [hsrc]; exact h.healthy,
    by rw [hpb]; exact h.queue⟩

theorem Session.Sound.reader {s : Session} (h : s.Sound) {src : FileSource} (hsrc : src.Healthy) :
    ({ s with src := some src } : Session).Sound :=
  ⟨h.download, fun _ => Option.some_ne_none _, fun _ h' => by cases h'; exact hsrc, h.queue⟩

theorem Session.Sound.over {s s' : Session} (h : s.Sound) (hst : s'.state = .done)
    (hsrc : s'.src = s.src) (hpb : s'.prebuilt = s.prebuilt) : s'.Sound := by
  refine ⟨by rw [hst]; decide, ?_, by rw [hsrc]; exact h.healthy, by rw [hpb]; exact h.queue⟩
  rw [hst]
  rintro (h | h) <;> cases h

/-- The session in which a window has been read. -/
theorem sound_windowFill (h : c.s.Sound) {src : FileSource} (hsrc : c.s.src = some src) :
    ({ c.s with prebuiltValid := false, src := some (windowFill cfg c src).src } : Session).Sound :=
  (h.reader (rrqFillWindow_src cfg c.s (h.healthy src hsrc) c.batch _ _).1).frame rfl rfl rfl

theorem sound_sendWindow (h : c.s.Sound) : (rrqSendWindow cfg now c).s.Sound := by
  rcases rrqSendWindow_cases cfg now c with ⟨-, heq⟩ | ⟨src, hsrc, ⟨-, heq⟩ | ⟨-, heq⟩⟩ <;> rw [heq]
  · exact h
  · refine (sound_windowFill cfg h hsrc).over ?_ ?_ ?_ <;> simp [windowFailed]
  · exact sound_prebuildNext cfg ((sound_windowFill cfg h hsrc).frame rfl rfl rfl)

theorem prebuiltExact_of_ne {s : Session} (h : s.state ≠ .sendRrq) : PrebuiltExact cfg s :=
  fun hst => absurd hst h

theorem exact_sendWindow (hst : c.s.state = .sendRrq) (h : c.s.Sound) :
    PrebuiltExact cfg (rrqSendWindow cfg now c).s ↔
      ∀ s ∈ windowSession cfg now c, CleanPrebuild cfg s := by
  rcases rrqSendWindow_cases cfg now c with ⟨hnone, -⟩ | ⟨src, hsrc, ⟨hok, heq⟩ | ⟨hok, heq⟩⟩
  · exact absurd hnone (h.file (.inr hst))
  · have hnone : windowSession cfg now c = none := by
      unfold windowSession
      rw [hsrc]
      dsimp only
      rw [hok]
      rfl
    rw [heq, hnone]
    exact ⟨fun _ _ hs => (nomatch hs), fun _ => prebuiltExact_of_ne cfg (by simp [windowFailed])⟩
  · have hsome : windowSession cfg now c = some { c.s with
        prebuiltValid := false, src := some (windowFill cfg c src).src
        windowLast := (windowFill cfg c src).last, eofReached := (windowFill cfg c src).eof
        nextTimeoutMs := deadline now c.s } := by
      unfold windowSession
      rw [hsrc]
      dsimp only
      rw [if_pos hok]
    have hsound := sound_windowFill cfg h hsrc
    rw [heq, hsome]
    simp only [Option.mem_some_iff, forall_eq']
    exact prebuildNext_exact_iff cfg hst rfl hsound.healthy hsound.queue

theorem sound_onAck (h : c.s.Sound) (ack : UInt16) : (rrqOnAck cfg now ack c).s.Sound := by
  rcases rrqOnAck_cases cfg now c ack with
    ⟨-, heq⟩ | ⟨-, -, heq⟩ | ⟨-, -, -, heq⟩ | ⟨-, -, -, heq⟩ <;> rw [heq]
  · exact h
  · refine h.over ?_ ?_ ?_ <;> simp [rrqFinish]
  · rw [rrqFastPath_s]
    refine sound_prebuildNext cfg ⟨h.download, h.file, h.healthy, fun pb hpb => ?_⟩
    obtain ⟨pb', hpb', rfl⟩ := Option.map_eq_some_iff.1 hpb
    exact h.queue pb' hpb'
  · refine sound_sendWindow cfg now ?_
    rw [emitSessionProgress_s]
    exact h.frame rfl rfl rfl

/-- Nothing is built ahead: what was exact is. -/
theorem exact_none {s : Session} {o : Option Session} (ho : o = none) (h : PrebuiltExact cfg s) :
    PrebuiltExact cfg s ↔ ∀ s' ∈ o, CleanPrebuild cfg s' := by
  rw [ho]
  exact ⟨fun _ _ hs => (nomatch hs), fun _ => h⟩

theorem exact_onAck (hst : c.s.state = .sendRrq) (h : c.s.Sound) (hexact : PrebuiltExact cfg c.s)
    (ack : UInt16) :
    PrebuiltExact cfg (rrqOnAck cfg now ack c).s ↔
      ∀ s ∈ ackSession cfg now ack c, CleanPrebuild cfg s := by
  rcases rrqOnAck_cases cfg now c ack with
    ⟨h1, heq⟩ | ⟨h1, h2, heq⟩ | ⟨h1, h2, h3, heq⟩ | ⟨h1, h2, h3, heq⟩ <;> rw [heq]
  · exact exact_none cfg (if_pos h1) hexact
  · exact exact_none cfg ((if_neg h1).trans (if_pos h2)) (prebuiltExact_of_ne cfg (by simp [rrqFinish]))
  · rw [show ackSession cfg now ack c = _ from
      (if_neg h1).trans ((if_neg h2).trans (if_pos h3))]
    simp only [Option.mem_some_iff, forall_eq']
    rw [rrqFastPath_s]
    refine prebuildNext_exact_iff cfg hst rfl h.healthy fun pb hpb => ?_
    obtain ⟨pb', hpb', rfl⟩ := Option.map_eq_some_iff.1 hpb
    exact h.queue pb' hpb'
  · rw [show ackSession cfg now ack c = _ from
      (if_neg h1).trans ((if_neg h2).trans (if_neg h3))]
    refine exact_sendWindow cfg now ?_ ?_
    · rw [emitSessionProgress_s]
      exact hst
    · rw [emitSessionProgress_s]
      exact h.frame rfl rfl rfl

/-- What a look at the timer does to a download: nothing, the slot is freed, the wait for ACK 0 goes
    on, or the window is sent again. -/
theorem tickSlot_download (h : c.s.state ≠ .recvWrq) :
    (¬ Resends now c.s ∧ tickSlot cfg now c = c) ∨
    (¬ Resends now c.s ∧ (tickSlot cfg now c).s.state = .free ∧ (tickSlot cfg now c).s.src = none ∧
      (tickSlot cfg now c).s.prebuilt = none) ∨
    (c.s.state = .oackWaitAck0 ∧ tickSlot cfg now c = { c with s := { c.s with
      retransCount := c.s.retransCount + 1, nextTimeoutMs := deadline now c.s } }) ∨
    (Resends now c.s ∧ tickSlot cfg now c = rrqSendWindow cfg now { c with s := resending c.s }) := by
  rcases tickSlot_cases cfg now c with
    ⟨hst, heq⟩ | ⟨hst, heq⟩ | ⟨-, hexp, heq⟩ | ⟨-, -, hmax, heq⟩ | ⟨hlive, hexp, hmax, heq⟩ <;>
    rw [heq]
  · exact .inl ⟨fun hr => (nomatch hst.symm.trans hr.1), rfl⟩
  · exact .inr (.inl ⟨fun hr => (nomatch hst.symm.trans hr.1), rfl, rfl, rfl⟩)
  · exact .inl ⟨fun hr => (nomatch hexp.symm.trans hr.2.1), rfl⟩
  · exact .inr (.inl ⟨fun hr => hr.2.2 hmax, rfl, rfl, rfl⟩)
  unfold retransmit
  cases hst : c.s.state with
  | oackWaitAck0 =>
    rw [show (bumpRetrans c).s.state = .oackWaitAck0 from hst]
    exact .inr (.inr (.inl ⟨rfl, rfl⟩))
  | sendRrq =>
    rw [show (bumpRetrans c).s.state = .sendRrq from hst]
    exact .inr (.inr (.inr ⟨⟨hst, hexp, hmax⟩, rfl⟩))
  | recvWrq => exact absurd hst h
  | free => exact absurd hst hlive.1
  | done => exact absurd hst hlive.2

theorem sound_step (h : c.s.Sound) (e : RrqEvent) : (rrqStep cfg c e).s.Sound := by
  cases e with
  | ack now n =>
    rw [rrqStep, onSessionPacket_ack]
    cases hst : c.s.state with
    | oackWaitAck0 =>
      dsimp only
      split
      · refine sound_sendWindow cfg now ⟨fun h' => (nomatch h'), fun _ => ?_, h.healthy, h.queue⟩
        exact h.file (.inl hst)
      · exact h
    | sendRrq => exact sound_onAck cfg now h n
    | free => exact h
    | recvWrq => exact h
    | done => exact h
  | tick now =>
    rw [rrqStep]
    rcases tickSlot_download cfg now h.download with
      ⟨-, heq⟩ | ⟨-, hst, hsrc, hpb⟩ | ⟨hst, heq⟩ | ⟨-, heq⟩
    · rw [heq]
      exact h
    · refine ⟨by rw [hst]; decide, ?_, by rw [hsrc]; exact fun _ h => (nomatch h),
        by rw [hpb]; exact fun _ h => (nomatch h)⟩
      rw [hst]
      rintro (h | h) <;> cases h
    · rw [heq]
      exact h.frame rfl rfl rfl
    · rw [heq]
      exact sound_sendWindow cfg now (h.frame rfl rfl rfl)

/-- **One event.**  The window built ahead stays exact if and only if each window that the event builds
    ahead goes into an empty queue and is read from the right place. -/
theorem exact_step (h : c.s.Sound) (hexact : PrebuiltExact cfg c.s) (e : RrqEvent) :
    PrebuiltExact cfg (rrqStep cfg c e).s ↔
      ∀ s ∈ e.prebuildsFor cfg c, CleanPrebuild cfg s := by
  cases e with
  | ack now n =>
    unfold RrqEvent.prebuildsFor
    rw [rrqStep, onSessionPacket_ack]
    cases hst : c.s.state with
    | oackWaitAck0 =>
      dsimp only
      split
      · refine exact_sendWindow cfg now rfl ⟨fun h' => (nomatch h'), fun _ => ?_, h.healthy, h.queue⟩
        exact h.file (.inl hst)
      · exact exact_none cfg rfl hexact
    | sendRrq => exact exact_onAck cfg now hst h hexact n
    | free => exact exact_none cfg rfl hexact
    | recvWrq => exact exact_none cfg rfl hexact
    | done => exact exact_none cfg rfl hexact
  | tick now =>
    rw [rrqStep]
    rcases tickSlot_download cfg now h.download with
      ⟨hno, heq⟩ | ⟨hno, hst, -, -⟩ | ⟨hst, heq⟩ | ⟨hyes, heq⟩
    · rw [heq]
      exact exact_none cfg (if_neg hno) hexact
    · exact exact_none cfg (if_neg hno) (prebuiltExact_of_ne cfg (by rw [hst]; decide))
    · rw [heq]
      have hno : ¬ Resends now c.s := fun hr => nomatch hst.symm.trans hr.1
      refine exact_none cfg (if_neg hno) (prebuiltExact_of_ne cfg ?_)
      show c.s.state ≠ _
      rw [hst]
      decide
    · rw [heq, show RrqEvent.prebuildsFor cfg c (.tick now) = _ from if_pos hyes]
      exact exact_sendWindow cfg now hyes.1 (h.frame rfl rfl rfl)

end Life

/-! ## From the request on -/

/-- `start_rrq` with everything done but the OACK or the first window. -/
def begunCtx (cfg : Config) (env : Env) (req : TftpReq) (sz : UInt64) (c : Ctx) : Ctx :=
  let c := emitSessionStart { c with s := { withOptions (rrqReply cfg req sz) c.s with
    tsize := sz
    optionsNegotiated := hasOptions (rrqReply cfg req sz) } }
  { c with s := { c.s with prebuilt := if env.batchNew then some (.new BATCH_CAP) else none } }

theorem rrqBegin_eq (cfg : Config) (now : Clock) (env : Env) (req : TftpReq) (sz : UInt64) (c : Ctx) :
    rrqBegin cfg now env req sz c =
      if hasOptions (rrqReply cfg req sz) then
        let c := sendTftp cfg (tftpBuildOack 512 (rrqReply cfg req sz)) (begunCtx cfg env req sz c)
        { c with s := { c.s with state := .oackWaitAck0, nextTimeoutMs := deadline now c.s } }
      else rrqSendWindow cfg now (dataPhase (begunCtx cfg env req sz c)) :=
  rfl

/-- The fresh slot with the file of the request open. -/
def openedCtx (req : TftpReq) (src : FileSource) (sz : UInt64) (c : Ctx) : Ctx :=
  { c with s := { withOptions req c.s with src := some src, totalBytes := sz } }

/-- A request whose file was opened is turned down for its size, or begun. -/
theorem startRrq_opened (cfg : Config) (now : Clock) (env : Env) (req : TftpReq) {src : FileSource}
    {sz : UInt64} {c : Ctx} (hopen : env.openRead req.filename = some (src, sz)) :
    startRrq cfg now env req c =
      if cfg.maxRrqSize ≠ 0 ∧ cfg.maxRrqSize < sz then
        rejectRequest cfg now TFTP_ERR_ACCESS "over size limit" .exceedsSizeLimit
          (openedCtx req src sz c)
      else rrqBegin cfg now env req sz (openedCtx req src sz c) := by
  unfold startRrq
  rw [hopen]
  rfl

/-- The session for which `start_rrq` builds a window ahead: one without options. -/
def startPrebuildsFor (cfg : Config) (now : Clock) (env : Env) (req : TftpReq) (c : Ctx) :
    Option Session :=
  match env.openRead req.filename with
  | none => none
  | some (src, sz) =>
    if cfg.maxRrqSize ≠ 0 ∧ cfg.maxRrqSize < sz then none
    else if hasOptions (rrqReply cfg req sz) then none
    else windowSession cfg now (dataPhase (begunCtx cfg env req sz (openedCtx req src sz c)))

section Start

variable (cfg : Config) (now : Clock) (env : Env) (req : TftpReq)

/-- The slot that a download is started in, and what else the manager has. -/
def freshCtx (m : SessMgr) (p : Sender) (st : SessStats) : Ctx :=
  ⟨newSession m now p TFTP_RRQ req, .new BATCH_CAP, st, []⟩

/-- A file opened for a request can be read. -/
def Readable : Prop := ∀ src sz, env.openRead req.filename = some (src, sz) → src.Healthy

variable {c : Ctx}

theorem sound_begunCtx {src : FileSource} (hsrc : src.Healthy) (sz : UInt64) (st : SState)
    (hst : st ≠ .recvWrq) :
    ({ (begunCtx cfg env req sz (openedCtx req src sz c)).s with state := st } : Session).Sound := by
  refine ⟨hst, fun _ => Option.some_ne_none _, fun src' h => ?_, fun pb h => ?_⟩
  · obtain rfl : src = src' := Option.some.inj h
    exact hsrc
  · have h : (if env.batchNew then some (PcapBatch.new BATCH_CAP) else none) = some pb := h
    split at h
    · obtain rfl := Option.some.inj h
      rfl
    · cases h

/-- A request that is turned down builds nothing. -/
theorem reject_exact {code : UInt16} {msg : String} {reason : EndReason} {o : Option Session}
    (hsrc : ∀ src, c.s.src = some src → src.Healthy) (hpb : c.s.prebuilt = none) (ho : o = none) :
    (rejectRequest cfg now code msg reason c).s.Sound ∧
      (PrebuiltExact cfg (rejectRequest cfg now code msg reason c).s ↔
        ∀ s ∈ o, CleanPrebuild cfg s) := by
  rw [rejectRequest_s]
  refine ⟨⟨fun h => (nomatch h), ?_, hsrc, fun pb h => ?_⟩, ?_⟩
  · rintro (h | h) <;> cases h
  · exact nomatch hpb.symm.trans h
  · exact exact_none cfg ho (prebuiltExact_of_ne cfg fun h => nomatch h)

/-- A request that is taken up: without options, the first window goes out and the second is built. -/
theorem begin_exact {src : FileSource} (hsrc : src.Healthy) (sz : UInt64) :
    (rrqBegin cfg now env req sz (openedCtx req src sz c)).s.Sound ∧
      (PrebuiltExact cfg (rrqBegin cfg now env req sz (openedCtx req src sz c)).s ↔
        ∀ s ∈ (if hasOptions (rrqReply cfg req sz) then none else
          windowSession cfg now (dataPhase (begunCtx cfg env req sz (openedCtx req src sz c)))),
          CleanPrebuild cfg s) := by
  rw [rrqBegin_eq]
  split
  · dsimp only
    rw [sendTftp_s]
    refine ⟨(sound_begunCtx cfg env req hsrc sz .oackWaitAck0 (by decide)).frame rfl rfl rfl, ?_⟩
    exact exact_none cfg rfl (prebuiltExact_of_ne cfg fun h => nomatch h)
  · have hsound : (dataPhase (begunCtx cfg env req sz (openedCtx req src sz c))).s.Sound :=
      (sound_begunCtx cfg env req hsrc sz .sendRrq (by decide)).frame rfl rfl rfl
    exact ⟨sound_sendWindow cfg now hsound, exact_sendWindow cfg now rfl hsound⟩

theorem start_exact (hread : Readable env req) (hsrc : c.s.src = none) (hpb : c.s.prebuilt = none) :
    (startRrq cfg now env req c).s.Sound ∧
      (PrebuiltExact cfg (startRrq cfg now env req c).s ↔
        ∀ s ∈ startPrebuildsFor cfg now env req c, CleanPrebuild cfg s) := by
  unfold startRrq startPrebuildsFor
  cases hopen : env.openRead req.filename with
  | none => exact reject_exact cfg now (fun src h => nomatch hsrc.symm.trans h) hpb rfl
  | some srcSz =>
    obtain ⟨src, sz⟩ := srcSz
    have hsrc : src.Healthy := hread src sz hopen
    dsimp only
    by_cases hbig : cfg.maxRrqSize ≠ 0 ∧ cfg.maxRrqSize < sz
    · rw [if_pos hbig, if_pos hbig]
      refine reject_exact cfg now (fun src' h => ?_) hpb rfl
      obtain rfl : src = src' := Option.some.inj h
      exact hsrc
    · rw [if_neg hbig, if_neg hbig]
      exact begin_exact cfg now env req hsrc sz

/-- **The window built ahead is the one that would be read, if and only if its queue was empty.**
    In the run of a download from its request on, every state is exact if and only if each window
    that is built ahead goes into an empty queue and is read from the right place. -/
theorem prebuilt_exact_iff (m : SessMgr) (p : Sender) (st : SessStats) (es : List RrqEvent)
    (hread : Readable env req) :
    Always (rrqStep cfg) (fun c => PrebuiltExact cfg c.s)
        (startRrq cfg now env req (freshCtx now req m p st)) es ↔
      (∀ s ∈ startPrebuildsFor cfg now env req (freshCtx now req m p st), CleanPrebuild cfg s) ∧
        Along (rrqStep cfg) (fun c e => ∀ s ∈ e.prebuildsFor cfg c, CleanPrebuild cfg s)
          (startRrq cfg now env req (freshCtx now req m p st)) es := by
  obtain ⟨hsound, hstart⟩ := start_exact cfg now env req (c := freshCtx now req m p st) hread rfl rfl
  rw [← hstart]
  generalize startRrq cfg now env req (freshCtx now req m p st) = c at *
  have hsounds : Always (rrqStep cfg) (fun c => c.s.Sound) c es := by
    have hstep : ∀ c e, c.s.Sound → (rrqStep cfg c e).s.Sound := fun c e h => sound_step cfg h e
    exact always_of_step hstep hsound es
  constructor
  · intro h
    refine ⟨h.head, ?_⟩
    refine Always.along (fun c e hc hc' => ?_) (hsounds.and h)
    exact (exact_step cfg hc.1 hc.2 e).1 hc'.2
  · rintro ⟨h0, halong⟩
    have hstep : ∀ c e, (c.s.Sound ∧ PrebuiltExact cfg c.s) →
        (∀ s ∈ e.prebuildsFor cfg c, CleanPrebuild cfg s) →
        ((rrqStep cfg c e).s.Sound ∧ PrebuiltExact cfg (rrqStep cfg c e).s) :=
      fun c e hc hcond => ⟨sound_step cfg hc.1 e, (exact_step cfg hc.1 hc.2 e).2 hcond⟩
    exact (Along.always hstep ⟨hsound, h0⟩ halong).mono fun _ h => h.2

end Start

/-- A request for the file of 1100 bytes, without options: blocks of 512 bytes, one at a time. -/
def plainReq : TftpReq := ⟨TFTP_RRQ, ascii "f", ascii "octet", none, none, none, none⟩

def plainSlot : Ctx := freshCtx clock0 plainReq (sessmgrNew configDefaults) host {}

theorem readable_plain : Readable downloadEnv plainReq := by
  intro src sz h
  obtain ⟨rfl, -⟩ := Prod.mk.inj (Option.some.inj h)
  exact ⟨rfl, fun _ => rfl⟩

/-- Block 1 is out, and block 2 is in the queue as it would be read. -/
theorem second_block_exact : Always (rrqStep configDefaults)
    (fun c => PrebuiltExact configDefaults c.s)
    (startRrq configDefaults clock0 downloadEnv plainReq plainSlot) [] := by
  have hiff := prebuilt_exact_iff configDefaults clock0 downloadEnv plainReq
    (sessmgrNew configDefaults) host {} [] readable_plain
  rw [show freshCtx clock0 plainReq (sessmgrNew configDefaults) host {} = plainSlot from rfl] at hiff
  refine hiff.2 ⟨fun s hs src pb h => ?_, trivial⟩
  have hview : (startPrebuildsFor configDefaults clock0 downloadEnv plainReq plainSlot).map
      (fun s => (prebuildOffset s, windowEnd s, s.totalBytes, s.prebuilt)) =
      some (512, 512, 1100, some (.new BATCH_CAP)) := by
    decide +kernel
  rw [hs] at hview
  simp only [Option.map_some, Option.some.injEq, Prod.mk.injEq] at hview
  obtain ⟨h1, h2, h3, h4⟩ := hview
  obtain rfl : PcapBatch.new BATCH_CAP = pb := Option.some.inj (h4.symm.trans h.queue)
  refine ⟨rfl, placed_of_offset _ src (h1.trans h2.symm) ?_⟩
  rw [h2, h3]
  decide

/-- One timeout later block 2 is in the queue twice. -/
theorem timeout_doubles : ¬ Always (rrqStep configDefaults)
    (fun c => PrebuiltExact configDefaults c.s)
    (startRrq configDefaults clock0 downloadEnv plainReq plainSlot)
    [.tick ⟨100000, by decide, by decide⟩] := by
  intro h
  have hlast := h.last
  generalize hc : run (rrqStep configDefaults)
    (startRrq configDefaults clock0 downloadEnv plainReq plainSlot)
    [.tick ⟨100000, by decide, by decide⟩] = c at hlast
  have hview : (c.s.state = .sendRrq ∧ c.s.prebuiltValid = true) ∧
      c.s.prebuilt.map (fun pb => pb.frames.length) = some 2 ∧
      c.s.src.map (fun src =>
        (nextWindow configDefaults c.s src (windowEnd c.s)).batch.frames.length) = some 1 := by
    rw [← hc]
    decide +kernel
  obtain ⟨⟨hst, hvalid⟩, hpb, hsrc⟩ := hview
  obtain ⟨hqueue, -⟩ := hlast hst hvalid
  obtain ⟨pb, hpb', hlen⟩ := Option.map_eq_some_iff.1 hpb
  obtain ⟨src, hsrc', hone⟩ := Option.map_eq_some_iff.1 hsrc
  have hframes := (hqueue src pb hsrc' hpb').1
  rw [hframes, hone] at hlen
  cases hlen

end Nishro.CCore

import NishroTftp.CCore.Lifecycle
import NishroTftp.CCore.Window
import NishroTftp.Lib.Runs
/-
  Which block an ACK of a download is taken for (`rrq_on_ack`).

  An ACK carries 16 bits of a 32-bit block number.  `ackCand` puts the upper half of `window_last`
  before them and goes back one round of 65536 if that is too far ahead.  In the FIRST round there
  is nothing to go back to: the subtraction wraps, and a number above `window_last` becomes a block
  near 2^32, which is past every block of the window and so acknowledges all of it and more.
-/
namespace Nishro.CCore

open Nishro.Runs
open Nishro.Wire

/-! ## The windows of reachable sessions are narrow -/

section Fill

variable (cfg : Config) (s : Session)

/-- The last block queued is the one before the window, or one of its first `k`. -/
theorem fillLoop_last (k : Nat) (block : UInt32) (r : Fill) :
    (fillLoop cfg s k block r).last = r.last ∨
      ∃ i < k, (fillLoop cfg s k block r).last = block + UInt32.ofNat i := by
  induction k generalizing block r with
  | zero => exact .inl rfl
  | succ k ih =>
    rcases fillLoop_cases cfg s k block r with h | ⟨data, src, frame, -, -, -, h⟩ |
      ⟨data, src, frame, batch, -, -, -, ⟨-, h⟩ | ⟨-, h⟩⟩
    · exact .inl (by rw [h])
    · exact .inl (by rw [h])
    · exact .inr ⟨0, Nat.succ_pos k, by rw [h]; exact (UInt32.add_zero block).symm⟩
    rw [h]
    rcases ih (block + 1)
      ⟨r.ok, batch, src, block, r.endOffset + UInt64.ofNat data.length, r.eof⟩ with h | ⟨i, hi, h⟩
    · exact .inr ⟨0, Nat.succ_pos k, h.trans (UInt32.add_zero block).symm⟩
    · refine .inr ⟨i + 1, Nat.succ_lt_succ hi, h.trans ?_⟩
      rw [UInt32.ofNat_add, UInt32.add_assoc, UInt32.add_comm 1]
      rfl

/-- The number of blocks from `first` to `last`, modulo 2^32. -/
def span (first last : UInt32) : Nat := (last + 1 - first).toNat

theorem span_fillWindow (batch : PcapBatch) (src : FileSource) (first : UInt32) (off : UInt64) :
    span first (rrqFillWindow cfg s batch src first off).last ≤ 256 := by
  have hbefore : span first (if first = 0 then 0 else first - 1) ≤ 256 := by
    unfold span
    by_cases h0 : first = 0
    · rw [if_pos h0, h0]
      decide
    · rw [if_neg h0, UInt32.sub_add_cancel, UInt32.sub_self]
      decide
  have hw : s.windowsize.toNat < 256 := s.windowsize.toNat_lt
  unfold rrqFillWindow
  dsimp only
  split
  · exact hbefore
  rename_i src' _
  rcases fillLoop_last cfg s s.windowsize.toNat first
    ⟨true, batch, src', if first = 0 then 0 else first - 1, off, false⟩ with h | ⟨i, hi, h⟩
  · rw [h]
    exact hbefore
  rw [h]
  unfold span
  have hsum : first + UInt32.ofNat i + 1 - first = UInt32.ofNat (i + 1) := by
    rw [UInt32.add_assoc, UInt32.add_comm first, UInt32.add_sub_cancel, UInt32.ofNat_add]
    rfl
  rw [hsum, UInt32.toNat_ofNat_of_lt' (by show i + 1 < 4294967296; omega)]
  omega

end Fill

/-- A download in progress has a file, and its windows are no longer than a window size can say. -/
def Session.Narrow (s : Session) : Prop :=
  s.state = .oackWaitAck0 ∨ s.state = .sendRrq →
    s.src.isSome ∧ (s.state = .sendRrq → span s.nextBlock s.windowLast ≤ 256) ∧
      (s.prebuiltValid = true → span s.prebuiltFirstBlock s.prebuiltLastBlock ≤ 256)

theorem narrow_of_not_download {s : Session} (h1 : s.state ≠ .oackWaitAck0)
    (h2 : s.state ≠ .sendRrq) : s.Narrow := by
  rintro (h | h)
  · exact absurd h h1
  · exact absurd h h2

theorem narrow_of_done {s : Session} (h : s.state = .done) : s.Narrow :=
  narrow_of_not_download (by rw [h]; decide) (by rw [h]; decide)

section Calls

variable (cfg : Config) (now : Clock) (c : Ctx)

/-- The window that is prebuilt is narrow, too. -/
theorem narrow_prebuildNext {s : Session} (hsrc : s.src.isSome)
    (hspan : s.state = .sendRrq → span s.nextBlock s.windowLast ≤ 256)
    (hvalid : s.prebuiltValid = true → span s.prebuiltFirstBlock s.prebuiltLastBlock ≤ 256) :
    (rrqPrebuildNext cfg s).Narrow := by
  intro _
  unfold rrqPrebuildNext
  split
  · split
    · exact ⟨hsrc, hspan, hvalid⟩
    · dsimp only
      split
      · exact ⟨rfl, hspan, fun h => by cases h⟩
      · exact ⟨rfl, hspan, fun _ => span_fillWindow cfg s _ _ _ _⟩
  · exact ⟨hsrc, hspan, hvalid⟩

theorem narrow_sendWindow (hsrc : c.s.src.isSome) : (rrqSendWindow cfg now c).s.Narrow := by
  rcases rrqSendWindow_cases cfg now c with ⟨hnone, -⟩ | ⟨src, -, ⟨-, h⟩ | ⟨-, h⟩⟩
  · rw [hnone] at hsrc
    cases hsrc
  · rw [h]
    exact narrow_of_done (by simp [windowFailed])
  · rw [h]
    refine narrow_prebuildNext cfg rfl (fun _ => ?_) fun hv => ?_
    · exact span_fillWindow cfg c.s _ _ _ _
    · cases hv

theorem narrow_onAck (ack : UInt16) (hst : c.s.state = .sendRrq) (hc : c.s.Narrow) :
    (rrqOnAck cfg now ack c).s.Narrow := by
  obtain ⟨hsrc, -, hvalid⟩ := hc (.inr hst)
  rcases rrqOnAck_cases cfg now c ack with
    ⟨-, h⟩ | ⟨-, -, h⟩ | ⟨-, -, hfast, h⟩ | ⟨-, -, -, h⟩ <;> rw [h]
  · exact hc
  · exact narrow_of_done (by simp [rrqFinish])
  · unfold rrqFastPath
    dsimp only
    rw [emitSessionProgress_s]
    refine narrow_prebuildNext cfg hsrc (fun _ => ?_) fun hv => ?_
    · have hspan := hvalid hfast.1
      rw [hfast.2.1] at hspan
      exact hspan
    · cases hv
  · refine narrow_sendWindow cfg now _ ?_
    rw [emitSessionProgress_s]
    exact hsrc

/-- An upload does not become a download. -/
theorem wrqOnData_state (block : UInt16) (payload : Bytes) (hst : c.s.state = .recvWrq) :
    (wrqOnData cfg now block payload c).s.state = .recvWrq ∨
      (wrqOnData cfg now block payload c).s.state = .done := by
  rcases wrqOnData_life cfg now c block payload with ⟨-, h⟩ | ⟨-, h⟩
  · exact .inl (h.trans hst)
  · exact .inr h

theorem narrow_packet (tftp : Bytes) (hc : c.s.Narrow) :
    (onSessionPacket cfg now tftp c).s.Narrow := by
  rcases onSessionPacket_cases cfg now c tftp with
    h | ⟨hst, -, h⟩ | ⟨hst, h⟩ | ⟨-, hst, h⟩ | ⟨-, h⟩ <;> rw [h]
  · exact hc
  · exact narrow_sendWindow cfg now (dataPhase c) (hc (.inl hst)).1
  · exact narrow_onAck cfg now c _ hst hc
  · rcases wrqOnData_state cfg now (countReceived tftp c) (at16 tftp 2) (tftp.drop 4) hst with
      h' | h'
    · exact narrow_of_not_download (by rw [h']; decide) (by rw [h']; decide)
    · exact narrow_of_done h'
  · exact narrow_of_done rfl

theorem narrow_tick (hc : c.s.Narrow) : (tickSlot cfg now c).s.Narrow := by
  rcases tickSlot_cases cfg now c with
    ⟨-, h⟩ | ⟨-, h⟩ | ⟨-, -, h⟩ | ⟨-, -, -, h⟩ | ⟨-, -, -, h⟩ <;> rw [h]
  · exact hc
  · exact narrow_of_not_download (by simp [freeSlot]) (by simp [freeSlot])
  · exact hc
  · exact narrow_of_not_download (by simp [timeOut, freeSlot]) (by simp [timeOut, freeSlot])
  unfold retransmit
  cases hst : c.s.state with
  | oackWaitAck0 =>
    rw [show (bumpRetrans c).s.state = .oackWaitAck0 from hst]
    have hn := hc (.inl hst)
    exact fun _ => ⟨hn.1, hn.2.1, hn.2.2⟩
  | sendRrq =>
    rw [show (bumpRetrans c).s.state = .sendRrq from hst]
    exact narrow_sendWindow cfg now _ (hc (.inr hst)).1
  | recvWrq =>
    refine narrow_of_not_download ?_ ?_ <;>
    · simp [bumpRetrans, hst]
  | free =>
    exact narrow_of_not_download (by simp [bumpRetrans, hst]) (by simp [bumpRetrans, hst])
  | done =>
    exact narrow_of_done (by simp [bumpRetrans, hst])

theorem narrow_startRrq (env : Env) (req : TftpReq) (hv : c.s.prebuiltValid = false) :
    (startRrq cfg now env req c).s.Narrow := by
  rcases startRrq_cases cfg now c env req with
    ⟨code, msg, reason, src, tot, h⟩ | ⟨src, sz, -, h⟩ <;> rw [h]
  · exact narrow_of_done (by rw [rejectRequest_s])
  unfold rrqBegin
  simp only
  split
  · simp only [sendTftp_s]
    intro _
    refine ⟨rfl, fun hst => ?_, fun hvalid => ?_⟩
    · cases hst
    · exact absurd (hv.symm.trans hvalid) (by decide)
  · exact narrow_sendWindow cfg now (dataPhase _) rfl

theorem narrow_startSession (m : SessMgr) (env : Env) (p : Sender) (op : UInt16) (req : TftpReq) :
    (startSession m now env p op req c).s.Narrow := by
  unfold startSession
  split
  · exact narrow_startRrq m.cfg now _ env req rfl
  · rcases startWrq_cases m.cfg now { c with s := newSession m now p op req } env req with
      ⟨-, code, msg, reason, src, h⟩ | ⟨-, src, -, h⟩ <;> rw [h]
    · exact narrow_of_done (by rw [rejectRequest_s])
    · exact narrow_of_not_download (by simp [wrqBegin]) (by simp [wrqBegin])

end Calls

/-- Every slot of a manager. -/
def AllNarrow (m : SessMgr) : Prop := ∀ i, (m.slots i).Narrow

theorem allNarrow_step {m : SessMgr} (h : AllNarrow m) (e : Event) : AllNarrow (step m e) := by
  intro i
  obtain ⟨b, st, -, hs, -⟩ := stepOut_slot m e i
  rw [step, hs]
  cases e with
  | tick now => exact narrow_tick m.cfg now _ (h i)
  | configChanged cfg => exact h i
  | tftp now env p tftp =>
    unfold slotCall
    dsimp only
    split
    · split
      · exact narrow_startSession now _ m env p _ _
      · exact h i
    · split
      · exact narrow_packet m.cfg now _ tftp (h i)
      · exact h i

/-- Whatever a manager has been through. -/
theorem allNarrow_run (cfg : Config) (es : List Event) :
    AllNarrow (run step (sessmgrNew cfg) es) := by
  have hnew : AllNarrow (sessmgrNew cfg) := fun i => by
    rintro (h | h) <;> cases h
  have hstep : ∀ m e, AllNarrow m → AllNarrow (step m e) := fun _ e hm => allNarrow_step hm e
  exact (always_of_step hstep hnew es).last

/-! ## The candidate -/

section Cand

variable {last : UInt32} {ack : UInt16}

/-- The numbers that are mapped back below zero. -/
def Wraps (last : UInt32) (ack : UInt16) : Prop := last.toNat < ack.toNat ∧ last.toNat < 65536

/-- A number that does not wrap stands for the latest block that has it, up to `window_last`. -/
theorem ackCand_spec (hlast : last.toNat + 1 < 2 ^ 32 - 65536) (h : ¬ Wraps last ack) :
    (ackCand last ack).toNat ≤ last.toNat ∧ last.toNat < (ackCand last ack).toNat + 65536 ∧
      (ackCand last ack).toNat % 65536 = ack.toNat := by
  have ha : ack.toNat < 65536 := ack.toNat_lt
  have hw := toNat_withLow last ack
  have h64k : (0x10000 : UInt32).toNat = 65536 := rfl
  have hadd : (withLow last ack + 0x10000).toNat = (withLow last ack).toNat + 65536 := by
    rw [UInt32.toNat_add, h64k, hw]
    omega
  unfold Wraps at h
  unfold ackCand
  by_cases h1 : last < withLow last ack
  · have h1' := UInt32.lt_iff_toNat_lt.1 h1
    have hsub : (withLow last ack - 0x10000).toNat = (withLow last ack).toNat - 65536 := by
      rw [UInt32.toNat_sub_of_le]
      · rfl
      · rw [UInt32.le_iff_toNat_le, h64k]
        omega
    rw [if_pos h1, hsub]
    omega
  · have h1' : ¬ last.toNat < (withLow last ack).toNat := fun hc => h1 (UInt32.lt_iff_toNat_lt.2 hc)
    have h2 : ¬ withLow last ack + 0x10000 ≤ last := by
      rw [UInt32.le_iff_toNat_le, hadd]
      omega
    rw [if_neg h1, if_neg h2]
    omega

/-- One that wraps stands for a block past all of them. -/
theorem ackCand_wraps (h : Wraps last ack) :
    (ackCand last ack).toNat = 2 ^ 32 - 65536 + ack.toNat := by
  obtain ⟨hlt, hfirst⟩ := h
  have ha : ack.toNat < 65536 := ack.toNat_lt
  have hw := toNat_withLow last ack
  have h64k : (0x10000 : UInt32).toNat = 65536 := rfl
  have h1 : last < withLow last ack := UInt32.lt_iff_toNat_lt.2 (by omega)
  unfold ackCand
  rw [if_pos h1, UInt32.toNat_sub, hw, h64k]
  omega

end Cand

/-! ## Reports of success -/

/-- The session that a line says to have ended well. -/
def okEndOf : Output → Option UInt32
  | .ipc (.sessionEnd s true _ _ _) => some s.id
  | _ => none

/-- The sessions that are said to have ended well. -/
def okEnds (os : List Output) : List UInt32 := os.filterMap okEndOf

section OkEnds

variable (cfg : Config) (now : Clock) (c : Ctx)

@[simp] theorem okEnds_append (os os' : List Output) : okEnds (os ++ os') = okEnds os ++ okEnds os' :=
  List.filterMap_append

@[simp] theorem okEnds_data (fs : List QueuedFrame) : okEnds (fs.map .data) = [] := by
  simp [okEnds, okEndOf]

theorem okEnds_sendTftpEx (payload : Bytes) (count : Bool) :
    okEnds (sendTftpEx cfg payload count c).out = okEnds c.out := by
  unfold sendTftpEx
  split
  · rfl
  · exact (okEnds_append _ _).trans (List.append_nil _)

theorem okEnds_sendError (code : UInt16) (msg : String) :
    okEnds (sendError cfg code msg c).out = okEnds c.out := by
  have h := okEnds_sendTftpEx cfg c (tftpBuildError 512 code (ascii msg)) false
  rw [sendError]
  exact h

theorem okEnds_reject (code : UInt16) (msg : String) (reason : EndReason) :
    okEnds (rejectRequest cfg now code msg reason c).out = okEnds c.out := by
  rw [← okEnds_sendError cfg c code msg]
  simp [rejectRequest, emitSessionEnd, emitSessionStart, okEnds, okEndOf]

theorem okEnds_progress : okEnds (emitSessionProgress now c).out = okEnds c.out := by
  rw [emitSessionProgress_eq, okEnds_append]
  split
  · exact List.append_nil _
  · exact List.append_nil _

theorem okEnds_sendWindow : okEnds (rrqSendWindow cfg now c).out = okEnds c.out := by
  rcases rrqSendWindow_cases cfg now c with ⟨-, h⟩ | ⟨src, -, ⟨-, h⟩ | ⟨-, h⟩⟩ <;> rw [h]
  · refine (okEnds_sendTftpEx cfg _ _ _).trans ?_
    rw [okEnds_append, okEnds_data, List.append_nil]
  · show okEnds (c.out ++ _) = _
    rw [okEnds_append, okEnds_data, List.append_nil]

theorem okEnds_slowPath : okEnds (rrqSlowPath cfg now c).out = okEnds c.out :=
  (okEnds_sendWindow cfg now _).trans (okEnds_progress now _)

theorem okEnds_fastPath : okEnds (rrqFastPath cfg now c).out = okEnds c.out := by
  refine (okEnds_progress now _).trans ?_
  rw [okEnds_append, okEnds_data, List.append_nil]

theorem okEnds_finish : okEnds (rrqFinish now c).out = okEnds c.out ++ [c.s.id] := by
  have hid : (emitSessionProgress now c).s.id = c.s.id := by rw [emitSessionProgress_s]
  show okEnds ((emitSessionProgress now c).out ++ [_]) = _
  rw [okEnds_append, okEnds_progress, ← hid]
  rfl

end OkEnds

/-! ## What an ACK does -/

/-- The session is completed: it is over, and success has been reported. -/
structure Completed (c c' : Ctx) : Prop where
  done : c'.s.state = .done
  reported : okEnds c'.out = okEnds c.out ++ [c.s.id]

/-- Block `b` is acknowledged: the session is completed if `b` is the block the file ends with, and
    goes on after `b` otherwise. -/
def AcksBlock (c c' : Ctx) (b : UInt32) : Prop :=
  if c.s.eofReached = true ∧ b = c.s.windowLast then Completed c c'
  else c'.s.nextBlock = b + 1 ∧ okEnds c'.out = okEnds c.out

/-- `rrq_on_ack` takes a number for the block of the window that has it, and does nothing if there is
    none. -/
structure AckMapped (cfg : Config) (now : Clock) (c : Ctx) (ack : UInt16) : Prop where
  acked : ∀ b : UInt32, c.s.nextBlock ≤ b → b ≤ c.s.windowLast → b.toUInt16 = ack →
    AcksBlock c (rrqOnAck cfg now ack c) b
  ignored : (∀ b : UInt32, c.s.nextBlock ≤ b → b ≤ c.s.windowLast → b.toUInt16 ≠ ack) →
    rrqOnAck cfg now ack c = c

section Mapped

variable (cfg : Config) (now : Clock) {c : Ctx} {ack : UInt16}

theorem nextBlock_sendWindow (c : Ctx) : (rrqSendWindow cfg now c).s.nextBlock = c.s.nextBlock := by
  rcases rrqSendWindow_cases cfg now c with ⟨-, h⟩ | ⟨src, -, ⟨-, h⟩ | ⟨-, h⟩⟩ <;> rw [h]
  · simp [windowFailed]
  · unfold windowSent
    obtain ⟨_, _, _, _, _, _, _, _, h'⟩ := rrqPrebuildNext_frame cfg _
    rw [h']

/-- The candidate, if it is not stale and not past the window, is acknowledged. -/
theorem onAck_acks (hnext : ¬ ackCand c.s.windowLast ack < c.s.nextBlock)
    (hlast : ackCand c.s.windowLast ack ≤ c.s.windowLast) :
    AcksBlock c (rrqOnAck cfg now ack c) (ackCand c.s.windowLast ack) := by
  unfold AcksBlock
  rcases rrqOnAck_cases cfg now c ack with
    ⟨hstale, -⟩ | ⟨-, hend, h⟩ | ⟨-, hend, -, h⟩ | ⟨-, hend, -, h⟩
  · exact absurd hstale hnext
  · have heq : ackCand c.s.windowLast ack = c.s.windowLast := UInt32.le_antisymm hlast hend.2
    rw [if_pos ⟨hend.1, heq⟩, h]
    exact ⟨by simp [rrqFinish], okEnds_finish now _⟩
  · rw [if_neg fun hc => hend ⟨hc.1, UInt32.le_of_eq hc.2.symm⟩, h]
    refine ⟨?_, okEnds_fastPath cfg now _⟩
    obtain ⟨_, _, _, _, _, _, _, _, h'⟩ := rrqPrebuildNext_frame cfg _
    unfold rrqFastPath
    dsimp only
    rw [h', emitSessionProgress_s]
    rfl
  · rw [if_neg fun hc => hend ⟨hc.1, UInt32.le_of_eq hc.2.symm⟩, h]
    refine ⟨?_, okEnds_slowPath cfg now _⟩
    unfold rrqSlowPath
    rw [nextBlock_sendWindow, emitSessionProgress_s]
    rfl

/-- A window is sent, or the session is given up. -/
theorem sendWindow_ne {c c' : Ctx} (hst : c.s.state = .sendRrq) (hb : CleanBatch c'.batch)
    (hw : c'.s.windowsize ≠ 0) (hsrc : c'.s.src.isSome) (hout : c.out.length ≤ c'.out.length) :
    rrqSendWindow cfg now c' ≠ c := by
  intro heq
  rcases rrqSendWindow_cases cfg now c' with ⟨hnone, -⟩ | ⟨src, -, ⟨-, h⟩ | ⟨hok, h⟩⟩
  · rw [hnone] at hsrc
    cases hsrc
  · have hdone : c.s.state = .done := by
      rw [← heq, h]
      simp [windowFailed]
    rw [hst] at hdone
    cases hdone
  · have hlen : c.out.length = c'.out.length + (windowFill cfg c' src).batch.frames.length := by
      rw [← heq, h]
      simp [windowSent]
    unfold windowFill at hok hlen
    rw [hb] at hok hlen
    have hne := rrqFillWindow_queues cfg hw src _ _ hok
    have hpos := List.length_pos_iff.2 hne
    omega

/-- A number that wraps does not go unnoticed. -/
theorem onAck_wraps_ne (hst : c.s.state = .sendRrq) (hb : CleanBatch c.batch)
    (hw : c.s.windowsize ≠ 0) (hsrc : c.s.src.isSome)
    (hnext : c.s.nextBlock.toNat ≤ c.s.windowLast.toNat + 1) (h : Wraps c.s.windowLast ack) :
    rrqOnAck cfg now ack c ≠ c := by
  have hcand := ackCand_wraps h
  have hfirst := h.2
  rcases rrqOnAck_cases cfg now c ack with
    ⟨hstale, -⟩ | ⟨-, -, h'⟩ | ⟨-, -, hfast, -⟩ | ⟨-, -, -, h'⟩
  · have hlt := UInt32.lt_iff_toNat_lt.1 hstale
    omega
  · intro heq
    have hdone : c.s.state = .done := by
      rw [← heq, h']
      simp [rrqFinish]
    rw [hst] at hdone
    cases hdone
  · have heq := congrArg UInt32.toNat hfast.2.2
    omega
  · rw [h']
    refine sendWindow_ne cfg now hst (by rw [emitSessionProgress_batch]; exact hb) ?_ ?_ ?_
    · rw [emitSessionProgress_s]
      exact hw
    · rw [emitSessionProgress_s]
      exact hsrc
    · rw [emitSessionProgress_eq]
      simp [ackAdvance]

/-- Blocks of one narrow window with the same number are the same. -/
theorem eq_of_window {b cand last : UInt32} (hb : b.toNat ≤ last.toNat)
    (hfar : last.toNat < b.toNat + 65536) (hcand : cand.toNat ≤ last.toNat)
    (hcfar : last.toNat < cand.toNat + 65536) (h : b.toNat % 65536 = cand.toNat % 65536) :
    b = cand := by
  apply UInt32.toNat_inj.1
  omega

/-- In a session with a narrow window, exactly the numbers that do not wrap are mapped. -/
theorem ackMapped_iff (hst : c.s.state = .sendRrq) (hb : CleanBatch c.batch)
    (hw : c.s.windowsize ≠ 0) (hnarrow : c.s.Narrow)
    (hnext : c.s.nextBlock.toNat ≤ c.s.windowLast.toNat + 1)
    (hlast : c.s.windowLast.toNat + 1 < 2 ^ 32 - 65536) :
    AckMapped cfg now c ack ↔ ¬ Wraps c.s.windowLast ack := by
  obtain ⟨hsrc, hspan, -⟩ := hnarrow (.inr hst)
  have hwidth : c.s.windowLast.toNat < c.s.nextBlock.toNat + 65536 := by
    have hs := hspan hst
    unfold span at hs
    rw [UInt32.toNat_sub, UInt32.toNat_add] at hs
    have h1 : (1 : UInt32).toNat = 1 := rfl
    omega
  have hmod : ∀ b : UInt32, b.toUInt16 = ack ↔ b.toNat % 65536 = ack.toNat := by
    intro b
    rw [← UInt16.toNat_inj, UInt32.toNat_toUInt16]
  constructor
  · intro hmapped hwraps
    refine onAck_wraps_ne cfg now hst hb hw hsrc hnext hwraps (hmapped.ignored ?_)
    intro b _ hle heq
    have hle := UInt32.le_iff_toNat_le.1 hle
    have hb16 := (hmod b).1 heq
    obtain ⟨h1, h2⟩ := hwraps
    omega
  · intro hnot
    obtain ⟨hle, hfar, hnum⟩ := ackCand_spec hlast hnot
    refine ⟨fun b hlo hhi hnumber => ?_, fun hnone => ?_⟩
    · have hlo := UInt32.le_iff_toNat_le.1 hlo
      have hb16 := (hmod b).1 hnumber
      have hcand : b = ackCand c.s.windowLast ack :=
        eq_of_window hhi (by omega) hle hfar (by omega)
      subst hcand
      refine onAck_acks cfg now ?_ (UInt32.le_iff_toNat_le.2 hle)
      rw [UInt32.lt_iff_toNat_lt]
      omega
    · have hstale : ackCand c.s.windowLast ack < c.s.nextBlock := by
        refine UInt32.not_le.1 fun hge => ?_
        exact hnone _ hge (UInt32.le_iff_toNat_le.2 hle) ((hmod _).2 hnum)
      exact if_pos hstale

end Mapped

/-- **ACK numbers are mapped exactly, but for those that wrap.**  In every state a manager can reach,
    a download takes a number for the block of its window that has it, and ignores one that no block
    has, exactly when the number is not above `window_last` or the first 65536 blocks are behind
    it. -/
theorem acks_mapped_iff (cfg : Config) (es : List Event) (i : Fin SESS_MAX) (now : Clock)
    (ack : UInt16) {m : SessMgr} (hm : m = run step (sessmgrNew cfg) es)
    (hst : (m.slots i).state = .sendRrq)
    (hw : 1 ≤ (m.slots i).windowsize.toNat ∧ (m.slots i).windowsize.toNat ≤ 64)
    (hnext : (m.slots i).nextBlock.toNat ≤ (m.slots i).windowLast.toNat + 1)
    (hlast : (m.slots i).windowLast.toNat + 1 < 2 ^ 32 - 65536) :
    AckMapped m.cfg now ⟨m.slots i, m.batch, m.stats, []⟩ ack ↔
      ack.toNat ≤ (m.slots i).windowLast.toNat ∨ 65536 ≤ (m.slots i).windowLast.toNat := by
  have hclean : CleanBatch m.batch := by
    have hstep : ∀ m e, CleanBatch m.batch → CleanBatch (step m e).batch := step_cleanBatch
    have hnew : CleanBatch (sessmgrNew cfg).batch := rfl
    have hall : Always step (fun m => CleanBatch m.batch) (sessmgrNew cfg) es :=
      always_of_step hstep hnew es
    rw [hm]
    exact hall.last
  have hnarrow : (m.slots i).Narrow := by
    rw [hm]
    exact allNarrow_run cfg es i
  have hw0 : (m.slots i).windowsize ≠ 0 := by
    intro h0
    rw [h0] at hw
    exact absurd hw.1 (by decide)
  rw [ackMapped_iff m.cfg now hst hclean hw0 hnarrow hnext hlast]
  unfold Wraps
  dsimp only
  omega

/-- A file of 1100 bytes under any name. -/
def threeBlocks : FileSource := ⟨false, List.replicate 1100 7, 0, false, fun _ => .ok, 0⟩

def downloadEnv : Env := ⟨fun _ => some (threeBlocks, 1100), fun _ => none, true⟩

/-- A download of the file, one block at a time: block 1 is out. -/
def firstBlockOut : SessMgr :=
  run step (sessmgrNew configDefaults) [.tftp clock0 downloadEnv host (requestBytes 1 [])]

theorem firstBlockOut_slot : (firstBlockOut.slots slot0).state = .sendRrq ∧
    (firstBlockOut.slots slot0).windowsize = 1 ∧ (firstBlockOut.slots slot0).nextBlock = 1 ∧
    (firstBlockOut.slots slot0).windowLast = 1 ∧ firstBlockOut.batch = .new BATCH_CAP := by
  decide +kernel

/-- ACK 1 is taken for block 1. -/
theorem first_ack_mapped : AckMapped firstBlockOut.cfg clock0
    ⟨firstBlockOut.slots slot0, firstBlockOut.batch, firstBlockOut.stats, []⟩ 1 := by
  obtain ⟨hst, hw, hnext, hlast, -⟩ := firstBlockOut_slot
  refine (acks_mapped_iff (m := firstBlockOut) configDefaults _ slot0 clock0 1 rfl hst ?_ ?_ ?_).2
    (.inl ?_)
  · rw [hw]
    decide
  · rw [hnext, hlast]
    decide
  · rw [hlast]
    decide
  · rw [hlast]
    decide

/-- ACK 2, for a block that has not been sent, is not ignored. -/
theorem unsent_ack_taken : ¬ AckMapped firstBlockOut.cfg clock0
    ⟨firstBlockOut.slots slot0, firstBlockOut.batch, firstBlockOut.stats, []⟩ 2 := by
  obtain ⟨hst, hw, hnext, hlast, hb⟩ := firstBlockOut_slot
  have hnarrow : (firstBlockOut.slots slot0).Narrow := allNarrow_run configDefaults _ slot0
  generalize firstBlockOut = m at *
  intro hmapped
  refine (ackMapped_iff (c := ⟨m.slots slot0, m.batch, m.stats, []⟩) m.cfg clock0 hst hb ?_ hnarrow
    ?_ ?_).1 hmapped ?_
  · rw [hw]
    decide
  · rw [hnext, hlast]
    decide
  · rw [hlast]
    decide
  · rw [hlast]
    exact ⟨by decide, by decide⟩

end Nishro.CCore

import NishroTftp.CCore.Session
/-
  What one event does to one slot.

  The session functions of `session.c` never look at another slot, so an event acts on the table
  slot by slot: `slotCall m i e` is the call that event `e` makes on slot `i` (none, for most
  slots), and `stepOut_slot` says that the session found in slot `i` after the event, and
  everything written on its behalf, are what that call leaves.  `sessmgr_tick` is the only event
  that visits several slots; between two of them only the shared batch and the counters carry
  over.  Every per-session result of this development is proved about `slotCall` and lifted here.
-/
namespace Nishro.CCore

/-! ## Transfers in progress -/

/-- A transfer is in progress in this slot. -/
def Session.live (s : Session) : Bool :=
  match s.state with
  | .oackWaitAck0 | .sendRrq | .recvWrq => true
  | .free | .done => false

theorem Session.not_live_of_done {s : Session} (h : s.state = .done) : s.live = false := by
  simp [Session.live, h]

theorem Session.not_live_of_free {s : Session} (h : s.state = .free) : s.live = false := by
  simp [Session.live, h]

theorem Session.live_iff {s : Session} : s.live ↔ s.state ≠ .free ∧ s.state ≠ .done := by
  unfold Session.live
  cases s.state <;> simp

/-! ## Frame lemmas of the small senders -/

section Frame

variable (cfg : Config) (now : Clock) (c : Ctx)

@[simp] theorem sendTftpEx_s (payload : Bytes) (count : Bool) :
    (sendTftpEx cfg payload count c).s = c.s := by
  unfold sendTftpEx; split <;> rfl

@[simp] theorem sendTftpEx_batch (payload : Bytes) (count : Bool) :
    (sendTftpEx cfg payload count c).batch = c.batch := by
  unfold sendTftpEx; split <;> rfl

@[simp] theorem sendTftp_s (payload : Bytes) : (sendTftp cfg payload c).s = c.s :=
  sendTftpEx_s cfg c payload true

@[simp] theorem sendTftp_batch (payload : Bytes) : (sendTftp cfg payload c).batch = c.batch :=
  sendTftpEx_batch cfg c payload true

@[simp] theorem sendError_s (code : UInt16) (msg : String) :
    (sendError cfg code msg c).s = c.s := by
  simp [sendError]

@[simp] theorem sendError_batch (code : UInt16) (msg : String) :
    (sendError cfg code msg c).batch = c.batch := by
  simp [sendError]

@[simp] theorem wrqSendAck_s (block : UInt16) :
    (wrqSendAck cfg now block c).s = { c.s with nextTimeoutMs := deadline now c.s } := by
  simp [wrqSendAck]

@[simp] theorem wrqSendAck_batch (block : UInt16) :
    (wrqSendAck cfg now block c).batch = c.batch := by
  simp [wrqSendAck]

/-- Is this call of `emit_session_progress` suppressed by the rate limit? -/
def progressQuiet (s : Session) : Bool :=
  decide (! (s.bytesDone == s.totalBytes && decide (0 < s.totalBytes)) ∧ s.lastProgressMs ≠ 0 ∧
    now.ms - s.lastProgressMs < PROGRESS_MIN_INTERVAL_MS)

/-- The time of the last progress line after the call. -/
def progressMs (s : Session) : UInt64 := if progressQuiet now s then s.lastProgressMs else now.ms

/-- `emit_session_progress` as one record update: it stamps the session and writes at most one
    line. -/
theorem emitSessionProgress_eq :
    emitSessionProgress now c =
      { c with
        s := { c.s with lastProgressMs := progressMs now c.s }
        out := c.out ++ if progressQuiet now c.s then []
          else [.ipc (.sessionProgress { c.s with lastProgressMs := now.ms })] } := by
  unfold emitSessionProgress
  by_cases h : progressQuiet now c.s
  · have h' := of_decide_eq_true h
    simp only [progressMs, if_pos h, if_pos h', List.append_nil]
  · have h' := of_decide_eq_false (eq_false_of_ne_true h)
    simp only [progressMs, if_neg h, if_neg h']

@[simp] theorem emitSessionProgress_batch : (emitSessionProgress now c).batch = c.batch := by
  rw [emitSessionProgress_eq]

@[simp] theorem emitSessionProgress_stats : (emitSessionProgress now c).stats = c.stats := by
  rw [emitSessionProgress_eq]

@[simp] theorem emitSessionProgress_s :
    (emitSessionProgress now c).s = { c.s with lastProgressMs := progressMs now c.s } := by
  rw [emitSessionProgress_eq]

@[simp] theorem emitSessionEnd_s (ok fault : Bool) (reason : Option EndReason) :
    (emitSessionEnd now ok fault reason c).s = c.s := rfl

@[simp] theorem emitSessionEnd_batch (ok fault : Bool) (reason : Option EndReason) :
    (emitSessionEnd now ok fault reason c).batch = c.batch := rfl

@[simp] theorem emitSessionEnd_stats (ok fault : Bool) (reason : Option EndReason) :
    (emitSessionEnd now ok fault reason c).stats = c.stats := rfl

@[simp] theorem rejectRequest_s (code : UInt16) (msg : String) (reason : EndReason) :
    (rejectRequest cfg now code msg reason c).s = { c.s with state := .done } := by
  simp [rejectRequest, emitSessionStart]

@[simp] theorem rejectRequest_batch (code : UInt16) (msg : String) (reason : EndReason) :
    (rejectRequest cfg now code msg reason c).batch = c.batch := by
  simp [rejectRequest, emitSessionStart]

@[simp] theorem wrqFinish_state : (wrqFinish now c).s.state = .done := by
  unfold wrqFinish
  simp

end Frame

/-- Prebuilding touches the source and the prebuild fields, nothing else. -/
theorem rrqPrebuildNext_frame (cfg : Config) (s : Session) :
    ∃ src pb first last firstOff endOff eof valid, rrqPrebuildNext cfg s =
      { s with
        src, prebuilt := pb, prebuiltFirstBlock := first, prebuiltLastBlock := last,
        prebuiltFirstOffset := firstOff, prebuiltEndOffset := endOff, prebuiltEof := eof,
        prebuiltValid := valid } := by
  unfold rrqPrebuildNext
  split
  · split
    · exact ⟨_, _, _, _, _, _, _, _, rfl⟩
    · simp only
      split
      · exact ⟨_, _, _, _, _, _, _, _, rfl⟩
      · exact ⟨_, _, _, _, _, _, _, _, rfl⟩
  · exact ⟨_, _, _, _, _, _, _, _, rfl⟩

section Prebuild

variable (cfg : Config) (s : Session)

@[simp] theorem rrqPrebuildNext_state : (rrqPrebuildNext cfg s).state = s.state := by
  obtain ⟨_, _, _, _, _, _, _, _, h⟩ := rrqPrebuildNext_frame cfg s
  rw [h]

@[simp] theorem rrqPrebuildNext_id : (rrqPrebuildNext cfg s).id = s.id := by
  obtain ⟨_, _, _, _, _, _, _, _, h⟩ := rrqPrebuildNext_frame cfg s
  rw [h]

@[simp] theorem rrqPrebuildNext_nextTimeoutMs : (rrqPrebuildNext cfg s).nextTimeoutMs = s.nextTimeoutMs := by
  obtain ⟨_, _, _, _, _, _, _, _, h⟩ := rrqPrebuildNext_frame cfg s
  rw [h]

@[simp] theorem rrqPrebuildNext_retransCount : (rrqPrebuildNext cfg s).retransCount = s.retransCount := by
  obtain ⟨_, _, _, _, _, _, _, _, h⟩ := rrqPrebuildNext_frame cfg s
  rw [h]

end Prebuild

/-! ## The branches of the session functions -/

section Branches

variable (cfg : Config) (now : Clock) (c : Ctx)

/-- The branches of `rrq_send_window`: no source, a failed read, a window sent. -/
theorem rrqSendWindow_cases :
    (c.s.src = none ∧ rrqSendWindow cfg now c = c) ∨
    ∃ src, c.s.src = some src ∧
      let r := windowFill cfg c src
      let c' : Ctx := { c with
        s := { c.s with prebuiltValid := false, src := some r.src }
        batch := r.batch.flushed
        out := c.out ++ r.batch.frames.map .data }
      (r.ok = false ∧ rrqSendWindow cfg now c = windowFailed cfg c') ∨
      (r.ok = true ∧ rrqSendWindow cfg now c = windowSent cfg now r c') := by
  unfold rrqSendWindow
  cases hsrc : c.s.src with
  | none => exact .inl ⟨rfl, rfl⟩
  | some src =>
    refine .inr ⟨src, rfl, ?_⟩
    cases hok : (windowFill cfg c src).ok with
    | false => exact .inl ⟨hok, by simp [hok]⟩
    | true => exact .inr ⟨hok, by simp [hok]⟩

/-- The branches of `rrq_on_ack`: a stale ACK, the last ACK, the fast path, the slow path. -/
theorem rrqOnAck_cases (ack : UInt16) :
    let cand := ackCand c.s.windowLast ack
    let acked : Ctx := { c with s := { c.s with bytesDone := ackedBytes c.s cand } }
    let next : Ctx := { acked with s := ackAdvance cand acked.s }
    (cand < c.s.nextBlock ∧ rrqOnAck cfg now ack c = c) ∨
    (¬ cand < c.s.nextBlock ∧ (c.s.eofReached ∧ c.s.windowLast ≤ cand) ∧
      rrqOnAck cfg now ack c = rrqFinish now acked) ∨
    (¬ cand < c.s.nextBlock ∧ ¬ (c.s.eofReached ∧ c.s.windowLast ≤ cand) ∧
      (c.s.prebuiltValid ∧ c.s.prebuiltFirstBlock = cand + 1 ∧ cand = c.s.windowLast) ∧
      rrqOnAck cfg now ack c = rrqFastPath cfg now next) ∨
    (¬ cand < c.s.nextBlock ∧ ¬ (c.s.eofReached ∧ c.s.windowLast ≤ cand) ∧
      ¬ (c.s.prebuiltValid ∧ c.s.prebuiltFirstBlock = cand + 1 ∧ cand = c.s.windowLast) ∧
      rrqOnAck cfg now ack c = rrqSlowPath cfg now next) := by
  intro cand acked next
  by_cases h1 : cand < c.s.nextBlock
  · exact .inl ⟨h1, if_pos h1⟩
  by_cases h2 : c.s.eofReached ∧ c.s.windowLast ≤ cand
  · exact .inr (.inl ⟨h1, h2, (if_neg h1).trans (if_pos h2)⟩)
  · by_cases h3 : c.s.prebuiltValid ∧ c.s.prebuiltFirstBlock = cand + 1 ∧ cand = c.s.windowLast
    · exact .inr (.inr (.inl ⟨h1, h2, h3,
        (if_neg h1).trans ((if_neg h2).trans (if_pos h3))⟩))
    · exact .inr (.inr (.inr ⟨h1, h2, h3,
        (if_neg h1).trans ((if_neg h2).trans (if_neg h3))⟩))

/-- The branches of `wrq_on_data`: a block below `next_block`, the next block, a later one. -/
theorem wrqOnData_cases (block : UInt16) (payload : Bytes) :
    (dataCand c.s.nextBlock block < c.s.nextBlock ∧
      wrqOnData cfg now block payload c = wrqSendAck cfg now block c) ∨
    (dataCand c.s.nextBlock block = c.s.nextBlock ∧
      wrqOnData cfg now block payload c = wrqInOrder cfg now c.s.nextBlock block payload c) ∨
    (c.s.nextBlock < dataCand c.s.nextBlock block ∧ wrqOnData cfg now block payload c = c) := by
  by_cases h1 : dataCand c.s.nextBlock block < c.s.nextBlock
  · exact .inl ⟨h1, if_pos h1⟩
  · by_cases h2 : c.s.nextBlock < dataCand c.s.nextBlock block
    · exact .inr (.inr ⟨h2, (if_neg h1).trans (if_pos h2)⟩)
    · have h := UInt32.le_antisymm (UInt32.not_lt.mp h2) (UInt32.not_lt.mp h1)
      refine .inr (.inl ⟨h, (if_neg h1).trans ((if_neg h2).trans ?_)⟩)
      rw [h]

/-- The branches of a non-request packet: none taken, ACK 0 after the OACK, an ACK of data, DATA,
    an ERROR. -/
theorem onSessionPacket_cases (tftp : Bytes) :
    (onSessionPacket cfg now tftp c = c) ∨
    (c.s.state = .oackWaitAck0 ∧ c.s.kind = TFTP_RRQ ∧
      onSessionPacket cfg now tftp c = rrqSendWindow cfg now (dataPhase c)) ∨
    (c.s.state = .sendRrq ∧
      onSessionPacket cfg now tftp c = rrqOnAck cfg now (at16 tftp 2) c) ∨
    ((at16 tftp 0 = TFTP_DATA ∧ 4 ≤ tftp.length) ∧ c.s.state = .recvWrq ∧
      onSessionPacket cfg now tftp c =
        wrqOnData cfg now (at16 tftp 2) (tftp.drop 4) (countReceived tftp c)) ∨
    (at16 tftp 0 = TFTP_ERROR ∧ onSessionPacket cfg now tftp c = clientAborted now c) := by
  unfold onSessionPacket
  by_cases hack : at16 tftp 0 = TFTP_ACK ∧ 4 ≤ tftp.length
  · simp only [if_pos hack]
    cases hst : c.s.state with
    | oackWaitAck0 =>
      by_cases h0 : at16 tftp 2 = 0 ∧ c.s.kind = TFTP_RRQ
      · exact .inr (.inl ⟨rfl, h0.2, if_pos h0⟩)
      · exact .inl (if_neg h0)
    | sendRrq => exact .inr (.inr (.inl ⟨rfl, rfl⟩))
    | free => exact .inl rfl
    | recvWrq => exact .inl rfl
    | done => exact .inl rfl
  · simp only [if_neg hack]
    by_cases hdata : at16 tftp 0 = TFTP_DATA ∧ 4 ≤ tftp.length ∧ c.s.state = .recvWrq
    · exact .inr (.inr (.inr (.inl ⟨⟨hdata.1, hdata.2.1⟩, hdata.2.2, if_pos hdata⟩)))
    · simp only [if_neg hdata]
      by_cases herr : at16 tftp 0 = TFTP_ERROR
      · exact .inr (.inr (.inr (.inr ⟨herr, if_pos herr⟩)))
      · exact .inl (if_neg herr)

/-- An ERROR packet aborts the session whatever its state. -/
theorem onSessionPacket_error (tftp : Bytes) (h : at16 tftp 0 = TFTP_ERROR) :
    onSessionPacket cfg now tftp c = clientAborted now c := by
  have hack : TFTP_ERROR ≠ TFTP_ACK := by decide
  have hdata : TFTP_ERROR ≠ TFTP_DATA := by decide
  simp [onSessionPacket, h, hack, hdata]

/-- A DATA packet of a receiving session goes to `wrq_on_data`. -/
theorem onSessionPacket_data (tftp : Bytes) (h : at16 tftp 0 = TFTP_DATA) (hlen : 4 ≤ tftp.length)
    (hst : c.s.state = .recvWrq) :
    onSessionPacket cfg now tftp c =
      wrqOnData cfg now (at16 tftp 2) (tftp.drop 4) (countReceived tftp c) := by
  have hack : TFTP_DATA ≠ TFTP_ACK := by decide
  simp [onSessionPacket, h, hack, hlen, hst]

/-- The branches of `start_rrq`: turned down, or begun on an open source. -/
theorem startRrq_cases (env : Env) (req : TftpReq) :
    (∃ code msg reason src tot, startRrq cfg now env req c = rejectRequest cfg now code msg reason
      { c with s := { withOptions req c.s with src, totalBytes := tot } }) ∨
    ∃ src sz, env.openRead req.filename = some (src, sz) ∧
      startRrq cfg now env req c = rrqBegin cfg now env req sz
        { c with s := { withOptions req c.s with src := some src, totalBytes := sz } } := by
  unfold startRrq
  cases hopen : env.openRead req.filename with
  | none => exact .inl ⟨_, _, _, (withOptions req c.s).src, (withOptions req c.s).totalBytes, rfl⟩
  | some srcSz =>
    obtain ⟨src, sz⟩ := srcSz
    by_cases hsz : cfg.maxRrqSize ≠ 0 ∧ cfg.maxRrqSize < sz
    · exact .inl ⟨_, _, _, some src, sz, if_pos hsz⟩
    · exact .inr ⟨src, sz, rfl, if_neg hsz⟩

/-- The checks of `start_wrq`. -/
def acceptsWrq (env : Env) (req : TftpReq) : Bool :=
  cfg.wrqEnabled && (env.openWrite req.filename).isSome && ! wrqTooBig cfg (negotiate cfg req)

/-- The branches of `start_wrq`: turned down, or begun on an open source. -/
theorem startWrq_cases (env : Env) (req : TftpReq) :
    (acceptsWrq cfg env req = false ∧ ∃ code msg reason src,
      startWrq cfg now env req c = rejectRequest cfg now code msg reason
        { c with s := { withOptions req c.s with src } }) ∨
    (acceptsWrq cfg env req = true ∧ ∃ src, env.openWrite req.filename = some src ∧
      startWrq cfg now env req c = wrqBegin cfg now (negotiate cfg req)
        { c with s := { withOptions req c.s with src := some src } }) := by
  unfold startWrq acceptsWrq
  cases hen : cfg.wrqEnabled with
  | false => exact .inl ⟨by simp, _, _, _, (withOptions req c.s).src, rfl⟩
  | true =>
    cases hopen : env.openWrite req.filename with
    | none => exact .inl ⟨by simp, _, _, _, (withOptions req c.s).src, rfl⟩
    | some src =>
      cases hbig : wrqTooBig cfg (negotiate cfg req) with
      | true =>
        refine .inl ⟨by simp, TFTP_ERR_ACCESS, "over size limit", .exceedsSizeLimit, some src, ?_⟩
        simp [hbig]
      | false => exact .inr ⟨by simp, src, rfl, by simp [hbig]⟩

/-- The branches of a tick of one slot: free, done, not due, timed out, retransmitted. -/
theorem tickSlot_cases :
    (c.s.state = .free ∧ tickSlot cfg now c = c) ∨
    (c.s.state = .done ∧ tickSlot cfg now c = freeSlot c) ∨
    ((c.s.state ≠ .free ∧ c.s.state ≠ .done) ∧ expired now c.s = false ∧
      tickSlot cfg now c = c) ∨
    ((c.s.state ≠ .free ∧ c.s.state ≠ .done) ∧ expired now c.s = true ∧
      MAX_RETRANS < c.s.retransCount + 1 ∧ tickSlot cfg now c = timeOut now (bumpRetrans c)) ∨
    ((c.s.state ≠ .free ∧ c.s.state ≠ .done) ∧ expired now c.s = true ∧
      ¬ MAX_RETRANS < c.s.retransCount + 1 ∧
      tickSlot cfg now c = retransmit cfg now (bumpRetrans c)) := by
  have hlive : ∀ st, c.s.state = st → st ≠ .free → st ≠ .done → tickSlot cfg now c =
      if ! expired now c.s then c
      else if MAX_RETRANS < (bumpRetrans c).s.retransCount then timeOut now (bumpRetrans c)
      else retransmit cfg now (bumpRetrans c) := by
    intro st hst h1 h2
    unfold tickSlot
    cases st <;> simp_all
  by_cases h1 : c.s.state = .free
  · exact .inl ⟨h1, by simp [tickSlot, h1]⟩
  by_cases h2 : c.s.state = .done
  · exact .inr (.inl ⟨h2, by simp [tickSlot, h2]⟩)
  rw [hlive _ rfl h1 h2]
  cases hexp : expired now c.s with
  | false => exact .inr (.inr (.inl ⟨⟨h1, h2⟩, rfl, by simp⟩))
  | true =>
    by_cases hmax : MAX_RETRANS < c.s.retransCount + 1
    · exact .inr (.inr (.inr (.inl ⟨⟨h1, h2⟩, rfl, hmax, by simp [bumpRetrans, hmax]⟩)))
    · exact .inr (.inr (.inr (.inr ⟨⟨h1, h2⟩, rfl, hmax, by simp [bumpRetrans, hmax]⟩)))

end Branches

/-! ## The shared batch is empty between calls -/

/-- One round of the loop: a failure, a full queue, or a block queued, with which the loop ends if it
    is short. -/
theorem fillLoop_cases (cfg : Config) (s : Session) (k : Nat) (block : UInt32) (r : Fill) :
    (fillLoop cfg s (k + 1) block r =
      { r with ok := false, src := (r.src.read s.blksize.toNat).2 }) ∨
    (∃ data src frame, r.src.read s.blksize.toNat = (some data, src) ∧
      buildUdp4 PKT_BUF_SZ (frameTo cfg s (tftpBuildData PKT_BUF_SZ block.toUInt16 data)) =
        some frame ∧
      r.batch.add ⟨frame, block⟩ = none ∧ fillLoop cfg s (k + 1) block r = { r with src }) ∨
    ∃ data src frame batch, r.src.read s.blksize.toNat = (some data, src) ∧
      buildUdp4 PKT_BUF_SZ (frameTo cfg s (tftpBuildData PKT_BUF_SZ block.toUInt16 data)) =
        some frame ∧
      r.batch.add ⟨frame, block⟩ = some batch ∧
      let r' := { r with batch, src, last := block,
                         endOffset := r.endOffset + UInt64.ofNat data.length }
      (data.length < s.blksize.toNat ∧
        fillLoop cfg s (k + 1) block r = { r' with eof := true }) ∨
      (¬ data.length < s.blksize.toNat ∧
        fillLoop cfg s (k + 1) block r = fillLoop cfg s k (block + 1) r') := by
  generalize hloop : fillLoop cfg s (k + 1) block r = res
  unfold fillLoop at hloop
  cases hread : r.src.read s.blksize.toNat with
  | mk got src =>
    rw [hread] at hloop
    cases got with
    | none => exact .inl hloop.symm
    | some data =>
      dsimp only at hloop
      by_cases hpkt : tftpBuildData PKT_BUF_SZ block.toUInt16 data = []
      · exact .inl (hloop.symm.trans (if_pos hpkt))
      rw [if_neg hpkt] at hloop
      cases hframe : buildUdp4 PKT_BUF_SZ
          (frameTo cfg s (tftpBuildData PKT_BUF_SZ block.toUInt16 data)) with
      | none =>
        rw [hframe] at hloop
        exact .inl hloop.symm
      | some frame =>
        rw [hframe] at hloop
        dsimp only at hloop
        cases hadd : r.batch.add ⟨frame, block⟩ with
        | none =>
          rw [hadd] at hloop
          exact .inr (.inl ⟨data, src, frame, rfl, hframe, hadd, hloop.symm⟩)
        | some batch =>
          rw [hadd] at hloop
          refine .inr (.inr ⟨data, src, frame, batch, rfl, hframe, hadd, ?_⟩)
          by_cases hshort : data.length < s.blksize.toNat
          · exact .inl ⟨hshort, hloop.symm.trans (if_pos hshort)⟩
          · exact .inr ⟨hshort, hloop.symm.trans (if_neg hshort)⟩

/-- **The rule for a queue that is filled**: what holds of the queue and survives one more frame of
    the session holds when the window is in it. -/
theorem rrqFillWindow_induct {cfg : Config} {s : Session} {P : PcapBatch → Prop} {b : PcapBatch}
    (h : P b)
    (hadd : ∀ b b' pkt frame block, buildUdp4 PKT_BUF_SZ (frameTo cfg s pkt) = some frame →
      b.add ⟨frame, block⟩ = some b' → P b → P b')
    (src : FileSource) (first : UInt32) (off : UInt64) :
    P (rrqFillWindow cfg s b src first off).batch := by
  have hloop : ∀ k block (r : Fill), P r.batch → P (fillLoop cfg s k block r).batch := by
    intro k
    induction k with
    | zero => exact fun block r hr => hr
    | succ k ih =>
      intro block r hr
      rcases fillLoop_cases cfg s k block r with heq | ⟨data, src, frame, -, -, -, heq⟩ |
        ⟨data, src, frame, batch, -, hframe, hb, ⟨-, heq⟩ | ⟨-, heq⟩⟩ <;> rw [heq]
      · exact hr
      · exact hr
      · exact hadd _ _ _ _ _ hframe hb hr
      · exact ih _ _ (hadd _ _ _ _ _ hframe hb hr)
  unfold rrqFillWindow
  rcases src.seek off with ⟨_ | _, f⟩
  · exact h
  · exact hloop _ _ _ h

/-- Filling keeps the capacity. -/
theorem rrqFillWindow_cap (cfg : Config) (s : Session) (b : PcapBatch) (src : FileSource)
    (first : UInt32) (off : UInt64) : (rrqFillWindow cfg s b src first off).batch.cap = b.cap := by
  apply rrqFillWindow_induct (P := fun b' => b'.cap = b.cap) rfl
  intro b₁ b₂ _ _ _ _ hadd h
  rw [PcapBatch.add_eq_some hadd]
  exact h

theorem rrqFillWindow_flushed (cfg : Config) (s : Session) (b : PcapBatch) (src : FileSource)
    (first : UInt32) (off : UInt64) :
    (rrqFillWindow cfg s b src first off).batch.flushed = b.flushed := by
  simp only [PcapBatch.flushed, rrqFillWindow_cap]

/-- A call leaves the shared batch `b` alone, or leaves it flushed. -/
def BatchKept (b' b : PcapBatch) : Prop := b' = b ∨ b' = b.flushed

section Batch

variable (cfg : Config) (now : Clock)

theorem rrqSendWindow_batch (c : Ctx) :
    BatchKept (rrqSendWindow cfg now c).batch c.batch := by
  rcases rrqSendWindow_cases cfg now c with ⟨-, h⟩ | ⟨src, -, ⟨-, h⟩ | ⟨-, h⟩⟩ <;> rw [h]
  · exact .inl rfl
  · exact .inr (by simp [windowFailed, windowFill, rrqFillWindow_flushed])
  · exact .inr (by simp [windowSent, windowFill, rrqFillWindow_flushed])

theorem rrqSlowPath_batch (c : Ctx) :
    BatchKept (rrqSlowPath cfg now c).batch c.batch := by
  refine (rrqSendWindow_batch cfg now _).imp (·.trans ?_) (·.trans ?_) <;> simp

theorem rrqOnAck_batch (ack : UInt16) (c : Ctx) :
    BatchKept (rrqOnAck cfg now ack c).batch c.batch := by
  rcases rrqOnAck_cases cfg now c ack with ⟨-, h⟩ | ⟨-, -, h⟩ | ⟨-, -, -, h⟩ | ⟨-, -, -, h⟩ <;>
    rw [h]
  · exact .inl rfl
  · exact .inl (by simp [rrqFinish])
  · exact .inl (by simp [rrqFastPath])
  · exact rrqSlowPath_batch cfg now _

theorem wrqFinish_batch (c : Ctx) : (wrqFinish now c).batch = c.batch := by
  unfold wrqFinish
  simp only
  split <;> rfl

theorem wrqInOrder_batch (cand : UInt32) (block : UInt16)
    (payload : Bytes) (c : Ctx) : (wrqInOrder cfg now cand block payload c).batch = c.batch := by
  unfold wrqInOrder
  simp only
  split
  · simp
  · split
    · simp
    · split
      · simp [wrqFinish_batch]
      · simp

theorem wrqOnData_batch (block : UInt16) (payload : Bytes) (c : Ctx) :
    (wrqOnData cfg now block payload c).batch = c.batch := by
  rcases wrqOnData_cases cfg now c block payload with ⟨-, h⟩ | ⟨-, h⟩ | ⟨-, h⟩ <;> rw [h]
  · exact wrqSendAck_batch cfg now c block
  · exact wrqInOrder_batch cfg now _ block payload c

theorem rrqBegin_batch (env : Env) (req : TftpReq) (sz : UInt64) (c : Ctx) :
    BatchKept (rrqBegin cfg now env req sz c).batch c.batch := by
  unfold rrqBegin
  simp only
  split
  · exact .inl (by simp [emitSessionStart])
  · exact rrqSendWindow_batch cfg now _

theorem startRrq_batch (env : Env) (req : TftpReq) (c : Ctx) :
    BatchKept (startRrq cfg now env req c).batch c.batch := by
  rcases startRrq_cases cfg now c env req with ⟨_, _, _, _, _, h⟩ | ⟨_, _, -, h⟩ <;> rw [h]
  · exact .inl (rejectRequest_batch ..)
  · exact rrqBegin_batch ..

theorem wrqBegin_batch (req : TftpReq) (c : Ctx) :
    (wrqBegin cfg now req c).batch = c.batch := by
  unfold wrqBegin
  simp only
  split <;> simp [emitSessionStart]

theorem startWrq_batch (env : Env) (req : TftpReq) (c : Ctx) :
    (startWrq cfg now env req c).batch = c.batch := by
  rcases startWrq_cases cfg now c env req with ⟨-, _, _, _, _, h⟩ | ⟨-, _, -, h⟩ <;> rw [h]
  · exact rejectRequest_batch ..
  · exact wrqBegin_batch ..

theorem onSessionPacket_batch (tftp : Bytes) (c : Ctx) :
    BatchKept (onSessionPacket cfg now tftp c).batch c.batch := by
  rcases onSessionPacket_cases cfg now c tftp with
    h | ⟨-, -, h⟩ | ⟨-, h⟩ | ⟨-, -, h⟩ | ⟨-, h⟩ <;> rw [h]
  · exact .inl rfl
  · exact rrqSendWindow_batch cfg now (dataPhase c)
  · exact rrqOnAck_batch cfg now _ c
  · exact .inl (wrqOnData_batch cfg now (at16 tftp 2) (tftp.drop 4) (countReceived tftp c))
  · exact .inl rfl

theorem retransmit_batch (c : Ctx) :
    BatchKept (retransmit cfg now c).batch c.batch := by
  unfold retransmit
  split
  · exact .inl rfl
  · exact rrqSendWindow_batch cfg now _
  · exact .inl (wrqSendAck_batch ..)
  · exact .inl rfl

theorem tickSlot_batch (c : Ctx) :
    BatchKept (tickSlot cfg now c).batch c.batch := by
  rcases tickSlot_cases cfg now c with
    ⟨-, h⟩ | ⟨-, h⟩ | ⟨-, -, h⟩ | ⟨-, -, -, h⟩ | ⟨-, -, -, h⟩ <;> rw [h]
  · exact .inl rfl
  · exact .inl rfl
  · exact .inl rfl
  · exact .inl rfl
  · exact retransmit_batch cfg now (bumpRetrans c)

end Batch

/-! ## The call an event makes on a slot -/

/-- The request a payload opens a session for, and the slot it gets. -/
def opens (m : SessMgr) (p : Sender) (tftp : Bytes) : Option (TftpReq × Fin SESS_MAX) :=
  if tftp.length < 2 ∨ ! isRequest tftp ∨ ! m.admits p then none
  else (tftpParseRequest tftp).bind fun req => (allocSlot m).map fun i => (req, i)

/-- The slot a non-request payload is handed to. -/
def reaches (m : SessMgr) (p : Sender) (tftp : Bytes) : Option (Fin SESS_MAX) :=
  if tftp.length < 2 ∨ isRequest tftp then none
  else findOrAlloc m p.clientIp p.clientPort p.serverPort

/-- Start the transfer of a request in a slot, whatever was in it. -/
def startSession (m : SessMgr) (now : Clock) (env : Env) (p : Sender) (op : UInt16)
    (req : TftpReq) (c : Ctx) : Ctx :=
  let c := { c with s := newSession m now p op req }
  if op = TFTP_RRQ then startRrq m.cfg now env req c else startWrq m.cfg now env req c

/-- The call event `e` makes on slot `i`. -/
def slotCall (m : SessMgr) (i : Fin SESS_MAX) : Event → Ctx → Ctx
  | .tftp now env p tftp, c =>
    match opens m p tftp with
    | some (req, j) => if j = i then startSession m now env p (at16 tftp 0) req c else c
    | none => if reaches m p tftp = some i then onSessionPacket m.cfg now tftp c else c
  | .tick now, c => tickSlot m.cfg now c
  | .configChanged _, c => c

/-- What was written on behalf of slot `i`. -/
def outFor (i : Fin SESS_MAX) (os : List SlotOutput) : List Output :=
  os.filterMap fun o => if o.slot = some i then some o.out else none

@[simp] theorem outFor_nil (i : Fin SESS_MAX) : outFor i [] = [] := rfl

@[simp] theorem outFor_append (i : Fin SESS_MAX) (os os' : List SlotOutput) :
    outFor i (os ++ os') = outFor i os ++ outFor i os' :=
  List.filterMap_append

theorem outFor_map (i j : Fin SESS_MAX) (os : List Output) :
    outFor i (os.map (⟨some j, ·⟩)) = if j = i then os else [] := by
  induction os with
  | nil => simp
  | cons o os ih =>
    have hcons : outFor i ((o :: os).map (⟨some j, ·⟩)) =
        (if j = i then [o] else []) ++ outFor i (os.map (⟨some j, ·⟩)) := by
      by_cases h : j = i <;> simp [outFor, h]
    rw [hcons, ih]
    by_cases h : j = i <;> simp [h]

section OnSlot

variable (m : SessMgr) (i j : Fin SESS_MAX) (f : Ctx → Ctx)

theorem onSlot_slots :
    (m.onSlot i f).1.slots j =
      if j = i then (f ⟨m.slots i, m.batch, m.stats, []⟩).s else m.slots j := rfl

@[simp] theorem onSlot_cfg : (m.onSlot i f).1.cfg = m.cfg := rfl

theorem onSlot_batch :
    (m.onSlot i f).1.batch = (f ⟨m.slots i, m.batch, m.stats, []⟩).batch := rfl

theorem onSlot_stats :
    (m.onSlot i f).1.stats = (f ⟨m.slots i, m.batch, m.stats, []⟩).stats := rfl

theorem onSlot_out :
    outFor j (m.onSlot i f).2 =
      if i = j then (f ⟨m.slots i, m.batch, m.stats, []⟩).out else [] :=
  outFor_map j i _

end OnSlot

/-! ## One pass over the table -/

/-- The rule for `sessmgr_tick`: what holds before the pass, with nothing written yet, and
    survives the visit of any one slot, holds after it.  A slot is visited as it was before the
    pass. -/
theorem sessmgrTick_induct {P : SessMgr → List SlotOutput → Prop} (m : SessMgr) (now : Clock)
    (h0 : P m [])
    (hstep : ∀ m' os i, m'.slots i = m.slots i → m'.cfg = m.cfg → P m' os →
      P (m'.onSlot i (tickSlot m.cfg now)).1 (os ++ (m'.onSlot i (tickSlot m.cfg now)).2)) :
    P (sessmgrTick m now).1 (sessmgrTick m now).2 := by
  have hfold : ∀ (is : List (Fin SESS_MAX)) (acc : SessMgr × List SlotOutput), is.Nodup →
      (∀ i ∈ is, acc.1.slots i = m.slots i) → acc.1.cfg = m.cfg → P acc.1 acc.2 →
      P (is.foldl (tickVisit now) acc).1 (is.foldl (tickVisit now) acc).2 := by
    intro is
    induction is with
    | nil => exact fun acc _ _ _ h => h
    | cons i is ih =>
      intro acc hnd hslots hcfg h
      obtain ⟨hi, hnd⟩ := List.nodup_cons.mp hnd
      refine ih _ hnd (fun j hj => ?_) hcfg ?_
      · have hji : j ≠ i := by
          rintro rfl
          exact hi hj
        simp only [tickVisit, onSlot_slots, if_neg hji]
        exact hslots j (List.mem_cons_of_mem i hj)
      · simp only [tickVisit, hcfg]
        exact hstep _ _ i (hslots i List.mem_cons_self) hcfg h
  exact hfold _ (m, []) (List.nodup_finRange _) (fun _ _ => rfl) rfl h0

@[simp] theorem sessmgrTick_cfg (m : SessMgr) (now : Clock) : (sessmgrTick m now).1.cfg = m.cfg :=
  sessmgrTick_induct (P := fun m' _ => m'.cfg = m.cfg) m now rfl fun _ _ _ _ _ h => h

/-- The shared batch as every call finds it: empty, with the capacity it was created with. -/
def CleanBatch (b : PcapBatch) : Prop := b = .new BATCH_CAP

theorem BatchKept.clean {b b' : PcapBatch} (h : BatchKept b' b) (hc : CleanBatch b) :
    CleanBatch b' := by
  rcases h with h | h <;> rw [h, hc] <;> rfl

/-- A pass over a list of distinct slots visits each of them once, in the state it had before the
    pass, and does nothing to the others. -/
theorem tickFold_slot (now : Clock) (i : Fin SESS_MAX) (is : List (Fin SESS_MAX)) :
    is.Nodup → ∀ (m : SessMgr) (os : List SlotOutput),
      (i ∉ is → (is.foldl (tickVisit now) (m, os)).1.slots i = m.slots i ∧
        outFor i (is.foldl (tickVisit now) (m, os)).2 = outFor i os) ∧
      (i ∈ is → ∃ b st, (CleanBatch m.batch → CleanBatch b) ∧
        (is.foldl (tickVisit now) (m, os)).1.slots i =
          (tickSlot m.cfg now ⟨m.slots i, b, st, []⟩).s ∧
        outFor i (is.foldl (tickVisit now) (m, os)).2 =
          outFor i os ++ (tickSlot m.cfg now ⟨m.slots i, b, st, []⟩).out) := by
  induction is with
  | nil => intro _ m os; simp
  | cons j is ih =>
    intro hnd m os
    obtain ⟨hj, hnd⟩ := List.nodup_cons.mp hnd
    have hclean : CleanBatch m.batch →
        CleanBatch (m.onSlot j (tickSlot m.cfg now)).1.batch :=
      (tickSlot_batch m.cfg now ⟨m.slots j, m.batch, m.stats, []⟩).clean
    obtain ⟨ihout, ihin⟩ := ih hnd (m.onSlot j (tickSlot m.cfg now)).1
      (os ++ (m.onSlot j (tickSlot m.cfg now)).2)
    simp only [List.foldl_cons, tickVisit, List.mem_cons, not_or]
    refine ⟨fun ⟨hij, hi⟩ => ?_, fun hi => ?_⟩
    · obtain ⟨hs, ho⟩ := ihout hi
      rw [hs, ho, onSlot_slots, if_neg hij, outFor_append, onSlot_out, if_neg (Ne.symm hij)]
      simp
    by_cases hij : i = j
    · subst hij
      obtain ⟨hs, ho⟩ := ihout hj
      refine ⟨m.batch, m.stats, id, ?_, ?_⟩
      · rw [hs, onSlot_slots, if_pos rfl]
      · rw [ho, outFor_append, onSlot_out, if_pos rfl]
    · obtain ⟨b, st, hb, hs, ho⟩ := ihin (hi.resolve_left hij)
      rw [onSlot_slots, if_neg hij, onSlot_cfg] at hs ho
      refine ⟨b, st, fun h => hb (hclean h), hs, ?_⟩
      rw [ho, outFor_append, onSlot_out, if_neg (Ne.symm hij), List.append_nil]

/-! ## The branches of the dispatcher -/

section Dispatch

variable {m : SessMgr} {now : Clock} {env : Env} {p : Sender} {tftp : Bytes}

variable {i : Fin SESS_MAX}

theorem opens_eq_some {req : TftpReq} :
    opens m p tftp = some (req, i) ↔
      2 ≤ tftp.length ∧ isRequest tftp ∧ m.admits p ∧
      tftpParseRequest tftp = some req ∧ allocSlot m = some i := by
  unfold opens
  split
  · rename_i h
    simp only [reduceCtorEq, false_iff]
    rintro ⟨h1, h2, h3, -⟩
    rcases h with h | h | h
    · omega
    · simp [h2] at h
    · simp [h3] at h
  · rename_i h
    simp only [not_or, Bool.not_eq_true, Bool.not_eq_false', not_lt] at h
    simp only [h, true_and, Option.bind_eq_some_iff, Option.map_eq_some_iff, Prod.mk.injEq]
    constructor
    · rintro ⟨r, hr, j, hj, rfl, rfl⟩
      exact ⟨hr, hj⟩
    · rintro ⟨hr, hj⟩
      exact ⟨req, hr, i, hj, rfl, rfl⟩

/-- A slot that is handed out was free. -/
theorem allocSlot_free (h : allocSlot m = some i) : (m.slots i).state = .free := by
  unfold allocSlot at h
  split at h
  · cases h
  · simpa using List.find?_some h

/-- A slot that is found is in use and belongs to this address, port and TID. -/
theorem findOrAlloc_match {ip : UInt32} {cport sport : UInt16}
    (h : findOrAlloc m ip cport sport = some i) :
    (m.slots i).state ≠ .free ∧ (m.slots i).clientIp = ip ∧ (m.slots i).clientPort = cport ∧
      (m.slots i).serverPort = sport := by
  have := List.find?_some h
  simpa [and_assoc] using this

/-- A request never reaches a session. -/
theorem reaches_none_of_opens {ri : TftpReq × Fin SESS_MAX} (h : opens m p tftp = some ri) :
    reaches m p tftp = none := by
  have hreq : isRequest tftp := (opens_eq_some.mp h).2.1
  simp [reaches, hreq]

theorem sessmgrOnTftp_open {req : TftpReq} (h : opens m p tftp = some (req, i)) :
    sessmgrOnTftp m now env p tftp = openSession m now env p (at16 tftp 0) req i := by
  obtain ⟨h1, h2, h3, h4, h5⟩ := opens_eq_some.mp h
  simp [sessmgrOnTftp, onRequest, h2, h3, h4, h5, Nat.not_lt.mpr h1]

theorem reaches_eq_some :
    reaches m p tftp = some i ↔
      2 ≤ tftp.length ∧ ¬ isRequest tftp ∧
      findOrAlloc m p.clientIp p.clientPort p.serverPort = some i := by
  unfold reaches
  by_cases h : tftp.length < 2 ∨ isRequest tftp
  · rw [if_pos h]
    simp only [reduceCtorEq, false_iff]
    rintro ⟨h1, h2, -⟩
    rcases h with h | h
    · omega
    · exact h2 h
  · rw [if_neg h]
    rw [not_or, Nat.not_lt] at h
    simp [h]

theorem sessmgrOnTftp_packet (h : reaches m p tftp = some i) :
    sessmgrOnTftp m now env p tftp = m.onSlot i (onSessionPacket m.cfg now tftp) := by
  obtain ⟨h1, h2, h3⟩ := reaches_eq_some.mp h
  simp [sessmgrOnTftp, h2, h3, Nat.not_lt.mpr h1]

/-- Frames that belong to no session. -/
def Sessionless (os : List SlotOutput) : Prop := ∀ o ∈ os, o.slot = none ∧ ∃ f, o.out = .send f

theorem Sessionless.outFor {os : List SlotOutput} (h : Sessionless os) (i : Fin SESS_MAX) :
    outFor i os = [] := by
  refine List.filterMap_eq_nil_iff.mpr fun o ho => ?_
  simp [(h o ho).1]

theorem sessionless_nil : Sessionless [] := by simp [Sessionless]

theorem replyBusy_sessionless : Sessionless (replyBusy m p).2 := by
  have h : ∀ frame : Option UdpFrame,
      Sessionless (frame.map fun f => (⟨none, .send f⟩ : SlotOutput)).toList := by
    rintro (_ | f)
    · exact sessionless_nil
    · simp [Sessionless]
  simp only [replyBusy]
  exact h _

/-- A payload that neither opens a session nor reaches one moves no slot. -/
theorem sessmgrOnTftp_idle (now : Clock) (env : Env) (ho : opens m p tftp = none)
    (hr : reaches m p tftp = none) :
    (∃ tid denied, (sessmgrOnTftp m now env p tftp).1 =
      { m with nextServerTid := tid, stats := { m.stats with aclDenied := denied } }) ∧
    Sessionless (sessmgrOnTftp m now env p tftp).2 := by
  have hskip : (∃ tid denied, m =
      { m with nextServerTid := tid, stats := { m.stats with aclDenied := denied } }) :=
    ⟨m.nextServerTid, m.stats.aclDenied, rfl⟩
  unfold sessmgrOnTftp
  split
  · exact ⟨hskip, sessionless_nil⟩
  split
  · rename_i hreq
    unfold onRequest
    split
    · exact ⟨⟨m.nextServerTid, _, rfl⟩, sessionless_nil⟩
    rename_i hacl
    split
    · exact ⟨hskip, sessionless_nil⟩
    rename_i req hparse
    split
    · exact ⟨⟨m.nextServerTid + 1, m.stats.aclDenied, rfl⟩, replyBusy_sessionless⟩
    · rename_i i halloc
      have h : opens m p tftp = some (req, i) :=
        opens_eq_some.mpr ⟨by omega, hreq, by simpa using hacl, hparse, halloc⟩
      rw [ho] at h
      cases h
  · rename_i hreq
    split
    · exact ⟨hskip, sessionless_nil⟩
    · rename_i i hfind
      have h : reaches m p tftp = some i := reaches_eq_some.mpr ⟨by omega, hreq, hfind⟩
      rw [hr] at h
      cases h

theorem openSession_slots (now : Clock) (env : Env) (p : Sender) (op : UInt16) (req : TftpReq)
    (i j : Fin SESS_MAX) :
    ∃ st, (openSession m now env p op req i).1.slots j =
        (if j = i then (startSession m now env p op req ⟨m.slots i, m.batch, st, []⟩).s
          else m.slots j) ∧
      outFor j (openSession m now env p op req i).2 =
        (if i = j then (startSession m now env p op req ⟨m.slots i, m.batch, st, []⟩).out
          else []) ∧
      (openSession m now env p op req i).1.batch =
        (startSession m now env p op req ⟨m.slots i, m.batch, st, []⟩).batch ∧
      (openSession m now env p op req i).1.stats =
        (startSession m now env p op req ⟨m.slots i, m.batch, st, []⟩).stats ∧
      st.sessionsCompleted = m.stats.sessionsCompleted ∧
      st.sessionsFailed = m.stats.sessionsFailed ∧
      st.sessionsActive = m.stats.sessionsActive + 1 := by
  refine ⟨{ m.stats with
      sessionsTotal := m.stats.sessionsTotal + 1
      sessionsActive := m.stats.sessionsActive + 1
      rrqCount := if op = TFTP_RRQ then m.stats.rrqCount + 1 else m.stats.rrqCount
      wrqCount := if op = TFTP_RRQ then m.stats.wrqCount else m.stats.wrqCount + 1 }, ?_, ?_⟩
  · simp only [openSession, onSlot_slots, startSession, SessMgr.setSlot, if_pos]
    by_cases h : j = i <;> simp [h]
  · simp [openSession, onSlot_out, onSlot_batch, onSlot_stats, startSession, SessMgr.setSlot]

end Dispatch

/-! ## From a slot to the table -/

/-- **What an event does to a slot.**  The session in slot `i` after event `e`, and everything
    written for it, are those of the call `slotCall m i e` on the session before it. -/
theorem stepOut_slot (m : SessMgr) (e : Event) (i : Fin SESS_MAX) :
    ∃ b st, (CleanBatch m.batch → CleanBatch b) ∧
      (stepOut m e).1.slots i = (slotCall m i e ⟨m.slots i, b, st, []⟩).s ∧
      outFor i (stepOut m e).2 = (slotCall m i e ⟨m.slots i, b, st, []⟩).out := by
  cases e with
  | tick now =>
    exact (tickFold_slot now i _ (List.nodup_finRange _) m []).2 (List.mem_finRange i)
  | configChanged cfg => exact ⟨m.batch, m.stats, id, rfl, rfl⟩
  | tftp now env p tftp =>
    cases ho : opens m p tftp with
    | some ri =>
      obtain ⟨req, j⟩ := ri
      obtain ⟨st, hs, hout, -⟩ := openSession_slots (m := m) now env p (at16 tftp 0) req j i
      refine ⟨m.batch, st, id, ?_⟩
      simp only [stepOut, sessmgrOnTftp_open ho, slotCall, ho, hs, hout]
      by_cases hj : j = i
      · subst hj; simp
      · simp [hj, Ne.symm hj]
    | none =>
      cases hr : reaches m p tftp with
      | some j =>
        refine ⟨m.batch, m.stats, id, ?_⟩
        simp only [stepOut, sessmgrOnTftp_packet hr, slotCall, ho, hr, onSlot_slots, onSlot_out]
        by_cases hj : j = i
        · subst hj; simp
        · simp [hj, Ne.symm hj]
      | none =>
        obtain ⟨⟨tid, st, hm⟩, hout⟩ := sessmgrOnTftp_idle now env ho hr
        refine ⟨m.batch, m.stats, id, ?_⟩
        simp [stepOut, slotCall, ho, hr, hm, hout.outFor]

/-- A session that is over is freed by the next tick, without a word. -/
theorem tick_frees {m : SessMgr} (now : Clock) {i : Fin SESS_MAX}
    (h : (m.slots i).state = .done) :
    ((step m (.tick now)).slots i).state = .free ∧ outFor i (stepOut m (.tick now)).2 = [] := by
  obtain ⟨b, st, -, hs, ho⟩ := stepOut_slot m (.tick now) i
  rw [step, hs, ho]
  simp [slotCall, tickSlot, h, freeSlot]

theorem startSession_batch (m : SessMgr) (now : Clock) (env : Env) (p : Sender) (op : UInt16)
    (req : TftpReq) (c : Ctx) : BatchKept (startSession m now env p op req c).batch c.batch := by
  unfold startSession
  split
  · exact startRrq_batch m.cfg now env req _
  · exact .inl (startWrq_batch m.cfg now env req _)

/-- Between events the shared batch is empty. -/
theorem step_cleanBatch (m : SessMgr) (e : Event) (h : CleanBatch m.batch) :
    CleanBatch (step m e).batch := by
  cases e with
  | tick now =>
    refine sessmgrTick_induct (P := fun m' _ => CleanBatch m'.batch) m now h ?_
    intro m' _ i _ _ hm'
    exact (tickSlot_batch m.cfg now ⟨m'.slots i, m'.batch, m'.stats, []⟩).clean hm'
  | configChanged cfg => exact h
  | tftp now env p tftp =>
    simp only [step, stepOut]
    cases ho : opens m p tftp with
    | some ri =>
      obtain ⟨req, j⟩ := ri
      obtain ⟨st, -, -, hb, -⟩ := openSession_slots (m := m) now env p (at16 tftp 0) req j j
      rw [sessmgrOnTftp_open ho, hb]
      exact (startSession_batch m now env p _ req _).clean h
    | none =>
      cases hr : reaches m p tftp with
      | some j =>
        rw [sessmgrOnTftp_packet hr]
        exact (onSessionPacket_batch m.cfg now tftp _).clean h
      | none =>
        obtain ⟨⟨tid, st, hm⟩, -⟩ := sessmgrOnTftp_idle now env ho hr
        rw [hm]
        exact h

/-! ## A setting for concrete runs -/

def slot0 : Fin SESS_MAX := ⟨0, by decide⟩

def clock0 : Clock := ⟨1000, by decide, by decide⟩

/-- The defaults, with uploads enabled. -/
def uploadConfig : Config := { configDefaults with wrqEnabled := true }

/-- A local upload target on a disk without faults. -/
def emptyUpload : FileSource := ⟨true, [], 0, false, fun _ => .ok, 0⟩

/-- Uploads to any name can be opened; there is nothing to download. -/
def uploadEnv : Env := ⟨fun _ => none, fun _ => some emptyUpload, true⟩

/-- 10.0.0.1:2000, untagged, to the listen port. -/
def host : Sender := ⟨Vector.replicate 6 1, 0x0A000001, 2000, 69, VLAN_NONE⟩

/-- `host`, to the TID of the first session. -/
def hostToTid : Sender := { host with serverPort := 40000 }

/-- DATA block `n`. -/
def dataBytes (n : UInt16) (payload : Bytes) : Bytes := [0, 3] ++ Wire.be16 n ++ payload

/-- A request for the file `f` in octet mode. -/
def requestBytes (op : UInt8) (options : Bytes) : Bytes :=
  [0, op] ++ ascii "f" ++ [0] ++ ascii "octet" ++ [0] ++ options

/-- The shortest ERROR packet. -/
def errorBytes : Bytes := [0, 5, 0, 0]

theorem at16_dataBytes (n : UInt16) (payload : Bytes) :
    at16 (dataBytes n payload) 0 = TFTP_DATA ∧ at16 (dataBytes n payload) 2 = n ∧
      (dataBytes n payload).drop 4 = payload ∧ (dataBytes n payload).length = 4 + payload.length := by
  have h3 : Wire.rd16 0 3 = TFTP_DATA := by decide
  simp [dataBytes, at16, at8, Wire.be16, h3]
  omega

/-- The first slot is found if it matches. -/
theorem findOrAlloc_slot0 {m : SessMgr} {ip : UInt32} {cport sport : UInt16}
    (hst : (m.slots slot0).state ≠ .free) (hip : (m.slots slot0).clientIp = ip)
    (hc : (m.slots slot0).clientPort = cport) (hs : (m.slots slot0).serverPort = sport) :
    findOrAlloc m ip cport sport = some slot0 := by
  unfold findOrAlloc
  rw [show List.finRange SESS_MAX = slot0 :: (List.finRange 255).map Fin.succ from
    List.finRange_succ]
  exact List.find?_cons_of_pos (by simp [hst, hip, hc, hs])

end Nishro.CCore

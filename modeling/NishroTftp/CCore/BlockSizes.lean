import NishroTftp.CCore.DownloadRun
/-
  Which block sizes a download can be served in.

  The block size is settled between the request and the bounds of the configuration, which go up to
  65464; the packets are built in buffers of `PKT_BUF_SZ` = 2048 bytes that have to hold the Ethernet,
  VLAN, IPv4, UDP and TFTP headers as well.  What counts is the LONGEST block that is sent, the first
  one: as long as the block size, or as the file if that is shorter.
-/
namespace Nishro.CCore

open Nishro.Runs
open Nishro.Wire

/-! ## Filling a window -/

/-- No window is refused for another reason than a seek that fails. -/
def FillsAlways (cfg : Config) (s : Session) : Prop :=
  ∀ src, s.src = some src → ∀ batch first off, (src.seek off).1 = true →
    (rrqFillWindow cfg s batch src first off).ok = true

/-- The longest block of the file fits the buffer with its headers; without a window to fill there
    is nothing to fit. -/
def LongestBlockFits (blksize : UInt16) (windowsize : UInt8) (content : Bytes) : Prop :=
  windowsize = 0 ∨ 50 + min blksize.toNat content.length ≤ PKT_BUF_SZ

instance (blksize : UInt16) (windowsize : UInt8) (content : Bytes) :
    Decidable (LongestBlockFits blksize windowsize content) :=
  inferInstanceAs (Decidable (_ ∨ _))

section Fill

variable (cfg : Config) {s : Session} {src : FileSource}

theorem healthy_seek (h : src.Healthy) {off : UInt64} (hok : (src.seek off).1 = true) :
    src.seek off = (true, (src.seek off).2) ∧ (src.seek off).2.Healthy ∧
      (src.seek off).2.content = src.content := by
  refine ⟨Prod.ext hok rfl, ?_⟩
  unfold FileSource.seek
  split
  · exact ⟨⟨h.reader, h.sound⟩, rfl⟩
  · exact ⟨⟨h.reader, h.sound⟩, rfl⟩

theorem rrqFillWindow_fits (h : src.Healthy)
    (hfit : LongestBlockFits s.blksize s.windowsize src.content) (batch : PcapBatch)
    (first : UInt32) {off : UInt64} (hseek : (src.seek off).1 = true) :
    (rrqFillWindow cfg s batch src first off).ok = true := by
  obtain ⟨heq, hhealthy, hcontent⟩ := healthy_seek h hseek
  rw [rrqFillWindow, heq]
  rcases hfit with hzero | hfit
  · rw [hzero]
    rfl
  · exact fillLoop_fits cfg s _ first hhealthy (by rw [hcontent]; exact hfit)

/-- A block that is too long for the buffer is not built. -/
theorem fillLoop_too_long (k : Nat) (block : UInt32) {r : Fill} (hsrc : r.src.Healthy)
    (hlong : PKT_BUF_SZ < 50 + ((r.src.content.drop r.src.pos).take s.blksize.toNat).length) :
    (fillLoop cfg s (k + 1) block r).ok = false := by
  rw [fillLoop, hsrc.read]
  dsimp only
  by_cases hpkt : tftpBuildData PKT_BUF_SZ block.toUInt16
      ((r.src.content.drop r.src.pos).take s.blksize.toNat) = []
  · rw [if_pos hpkt]
  have hcap : ¬ PKT_BUF_SZ < 4 + ((r.src.content.drop r.src.pos).take s.blksize.toNat).length :=
    fun h => hpkt (if_pos h)
  have hnone : buildUdp4 PKT_BUF_SZ (frameTo cfg s (tftpBuildData PKT_BUF_SZ block.toUInt16
      ((r.src.content.drop r.src.pos).take s.blksize.toNat))) = none := by
    refine if_pos ?_
    show PKT_BUF_SZ < 18 + 20 + 8 + (tftpBuildData PKT_BUF_SZ block.toUInt16 _).length
    rw [tftpBuildData, if_neg hcap, List.length_append, List.length_append]
    simp only [length_be16]
    omega
  rw [if_neg hpkt, hnone]

/-- The first window is refused if its first block is too long. -/
theorem rrqFillWindow_too_long (h : src.Healthy)
    (hlong : ¬ LongestBlockFits s.blksize s.windowsize src.content) (batch : PcapBatch)
    (first : UInt32) : (rrqFillWindow cfg s batch src first 0).ok = false := by
  have hw : s.windowsize ≠ 0 := fun hw => hlong (.inl hw)
  have hlen : ¬ 50 + min s.blksize.toNat src.content.length ≤ PKT_BUF_SZ := fun h => hlong (.inr h)
  obtain ⟨k, hk⟩ : ∃ k, s.windowsize.toNat = k + 1 :=
    Nat.exists_eq_succ_of_ne_zero fun h0 => hw (UInt8.toNat_inj.1 h0)
  rw [rrqFillWindow, h.seek (by decide)]
  rw [hk]
  refine fillLoop_too_long cfg k first ⟨h.reader, h.sound⟩ ?_
  show PKT_BUF_SZ < 50 + ((src.content.drop 0).take s.blksize.toNat).length
  rw [List.drop_zero, List.length_take]
  omega

/-- **Filling a window of any session.** -/
theorem fillsAlways_iff (h : src.Healthy) (hsrc : s.src = some src) :
    FillsAlways cfg s ↔ LongestBlockFits s.blksize s.windowsize src.content := by
  constructor
  · intro hfills
    by_contra hlong
    have hok := hfills src hsrc (.new BATCH_CAP) 1 0 (by rw [h.seek (by decide)])
    rw [rrqFillWindow_too_long cfg h hlong] at hok
    cases hok
  · intro hfit src' hsrc' batch first off hseek
    obtain rfl : src = src' := Option.some.inj (hsrc.symm.trans hsrc')
    exact rrqFillWindow_fits cfg h hfit batch first hseek

end Fill

/-! ## Downloads -/

/-- What happens to a slot: a packet that is no request, or a look at the timers. -/
inductive SlotEvent
  | packet (now : Clock) (tftp : Bytes)
  | tick (now : Clock)

def slotStep (cfg : Config) (c : Ctx) : SlotEvent → Ctx
  | .packet now tftp => onSessionPacket cfg now tftp c
  | .tick now => tickSlot cfg now c

def readErrorPacket : Bytes := tftpBuildError 512 TFTP_ERR_ACCESS (ascii "read error")

/-- How often the client has been told of a read error. -/
def readErrors (out : List Output) : Nat :=
  out.countP fun
    | .send f => f.payload == readErrorPacket
    | .data _ | .ipc _ => false

theorem readErrors_append (out out' : List Output) :
    readErrors (out ++ out') = readErrors out + readErrors out' := List.countP_append

theorem readErrors_data (fs : List QueuedFrame) : readErrors (fs.map .data) = 0 := by
  unfold readErrors
  rw [List.countP_map, List.countP_eq_zero]
  exact fun q _ h => Bool.noConfusion h

theorem readErrors_ipc (out : List Output) (e : IpcEvent) :
    readErrors (out ++ [.ipc e]) = readErrors out := readErrors_append out _

theorem readErrors_progress (now : Clock) (c : Ctx) :
    readErrors (emitSessionProgress now c).out = readErrors c.out := by
  rw [emitSessionProgress_eq, readErrors_append]
  split <;> rfl

/-- The download of a file with this content and of this size, in blocks and windows of these
    sizes. -/
structure Session.Offers (content : Bytes) (b : UInt16) (w : UInt8) (sz : UInt64) (s : Session) :
    Prop where
  download : s.state ≠ .recvWrq
  file : ∀ src, s.src = some src → src.Healthy ∧ src.content = content
  blksize : s.blksize = b
  windowsize : s.windowsize = w
  offset : s.windowFirstOffset ≤ sz
  total : s.totalBytes = sz

/-- The promise: windows are always filled, and where every seek in the file works the client is
    never told of a read error. -/
structure Sendable (cfg : Config) (sz : UInt64) (c : Ctx) : Prop where
  fills : FillsAlways cfg c.s
  quiet : sz.toNat < 2 ^ 31 → readErrors c.out = 0

section Run

variable (cfg : Config) (now : Clock) {content : Bytes} {b : UInt16} {w : UInt8} {sz : UInt64}

/-- The files of two sessions that differ in nothing else. -/
theorem Session.Offers.reader {s s' : Session} (h : s.Offers content b w sz)
    (hst : s'.state ≠ .recvWrq)
    (hsrc : ∀ src, s'.src = some src → src.Healthy ∧ src.content = content)
    (hb : s'.blksize = s.blksize) (hw : s'.windowsize = s.windowsize)
    (hoff : s'.windowFirstOffset = s.windowFirstOffset) (htot : s'.totalBytes = s.totalBytes) :
    s'.Offers content b w sz :=
  ⟨hst, hsrc, hb.trans h.blksize, hw.trans h.windowsize, by rw [hoff]; exact h.offset,
    htot.trans h.total⟩

/-- What a window is read with is the same file, further on. -/
theorem Session.Offers.filled {s : Session} (h : s.Offers content b w sz) {src : FileSource}
    (hsrc : s.src = some src) (batch : PcapBatch) (first : UInt32) (off : UInt64) :
    (rrqFillWindow cfg s batch src first off).src.Healthy ∧
      (rrqFillWindow cfg s batch src first off).src.content = content := by
  obtain ⟨hhealthy, hcontent⟩ := h.file src hsrc
  obtain ⟨h1, h2⟩ := rrqFillWindow_src cfg s hhealthy batch first off
  exact ⟨h1, h2.trans hcontent⟩

theorem offers_prebuildNext {s : Session} (h : s.Offers content b w sz) :
    (rrqPrebuildNext cfg s).Offers content b w sz := by
  rcases rrqPrebuildNext_cases cfg s with ⟨-, heq⟩ | ⟨src, pb, ⟨hfile, -, -⟩, -, heq⟩ |
    ⟨src, pb, hbuilds, heq⟩ <;> rw [heq]
  · exact h
  · refine h.reader h.download (fun src' h' => ?_) rfl rfl rfl rfl
    obtain rfl := Option.some.inj h'
    exact h.filled cfg hfile _ _ _
  · refine h.reader h.download (fun src' h' => ?_) rfl rfl rfl rfl
    obtain rfl := Option.some.inj h'
    exact h.filled cfg hbuilds.file _ _ _

variable {c : Ctx}

/-- A window is sent: the file stays, and there is no read error if it can be filled. -/
theorem offers_sendWindow (h : c.s.Offers content b w sz) :
    (rrqSendWindow cfg now c).s.Offers content b w sz := by
  rcases rrqSendWindow_cases cfg now c with ⟨-, heq⟩ | ⟨src, hsrc, ⟨-, heq⟩ | ⟨-, heq⟩⟩ <;> rw [heq]
  · exact h
  · have hfill := h.filled cfg hsrc c.batch c.s.nextBlock c.s.windowFirstOffset
    refine h.reader (fun h' => by cases h') (fun src' h' => ?_) rfl rfl rfl rfl
    obtain rfl := Option.some.inj h'
    exact hfill
  · have hfill := h.filled cfg hsrc c.batch c.s.nextBlock c.s.windowFirstOffset
    refine offers_prebuildNext cfg (h.reader h.download (fun src' h' => ?_) rfl rfl rfl rfl)
    obtain rfl := Option.some.inj h'
    exact hfill

theorem quiet_sendWindow (hfit : LongestBlockFits b w content) (h : c.s.Offers content b w sz)
    (hsz : sz.toNat < 2 ^ 31) : readErrors (rrqSendWindow cfg now c).out = readErrors c.out := by
  rcases rrqSendWindow_cases cfg now c with ⟨-, heq⟩ | ⟨src, hsrc, ⟨hfail, -⟩ | ⟨-, heq⟩⟩
  · rw [heq]
  · obtain ⟨hhealthy, hcontent⟩ := h.file src hsrc
    have hoff : c.s.windowFirstOffset.toNat < 2 ^ 31 :=
      Nat.lt_of_le_of_lt (UInt64.le_iff_toNat_le.1 h.offset) hsz
    have hok : (windowFill cfg c src).ok = true := by
      refine rrqFillWindow_fits cfg hhealthy ?_ c.batch _ (by rw [hhealthy.seek hoff])
      rw [h.blksize, h.windowsize, hcontent]
      exact hfit
    exact nomatch hok.symm.trans hfail
  · rw [heq]
    simp only [windowSent]
    rw [readErrors_append, readErrors_data, Nat.add_zero]

theorem ackedBytes_le (s : Session) (cand : UInt32) : ackedBytes s cand ≤ s.totalBytes := by
  unfold ackedBytes
  dsimp only
  split
  · exact UInt64.le_refl _
  · next hlt => exact UInt64.not_lt.1 hlt

/-- An ACK moves the offset, but not beyond the file. -/
theorem offers_advance {s : Session} (h : s.Offers content b w sz) (cand : UInt32) :
    (ackAdvance cand { s with bytesDone := ackedBytes s cand }).Offers content b w sz :=
  ⟨h.download, h.file, h.blksize, h.windowsize, by
    show ackedBytes s cand ≤ sz
    rw [← h.total]
    exact ackedBytes_le s cand, h.total⟩

theorem offers_progress (h : c.s.Offers content b w sz) :
    (emitSessionProgress now c).s.Offers content b w sz := by
  rw [emitSessionProgress_s]
  exact h.reader h.download h.file rfl rfl rfl rfl

/-- An ACK. -/
theorem offers_onAck (h : c.s.Offers content b w sz) (ack : UInt16) :
    (rrqOnAck cfg now ack c).s.Offers content b w sz ∧
      (LongestBlockFits b w content → sz.toNat < 2 ^ 31 →
        readErrors (rrqOnAck cfg now ack c).out = readErrors c.out) := by
  have hnext := offers_advance h (ackCand c.s.windowLast ack)
  rcases rrqOnAck_cases cfg now (c := c) ack with
    ⟨-, heq⟩ | ⟨-, -, heq⟩ | ⟨-, -, -, heq⟩ | ⟨-, -, -, heq⟩ <;> rw [heq]
  · exact ⟨h, fun _ _ => rfl⟩
  · refine ⟨?_, fun _ _ => ?_⟩
    · refine h.reader (fun h' => nomatch h') ?_ ?_ ?_ ?_ ?_ <;> simp [rrqFinish]
      exact h.file
    · exact (readErrors_ipc _ _).trans (readErrors_progress now _)
  · refine ⟨?_, fun _ _ => ?_⟩
    · rw [rrqFastPath_s]
      exact offers_prebuildNext cfg (hnext.reader hnext.download hnext.file rfl rfl rfl rfl)
    · refine (readErrors_progress now _).trans ?_
      rw [readErrors_append, readErrors_data]
      rfl
  · have hslow : ∀ d : Ctx, d.s.Offers content b w sz →
        (emitSessionProgress now { d with s := { d.s with prebuiltValid := false } }).s.Offers
          content b w sz := fun d hd =>
      offers_progress now (c := { d with s := { d.s with prebuiltValid := false } })
        (hd.reader hd.download hd.file rfl rfl rfl rfl)
    refine ⟨offers_sendWindow cfg now (hslow _ hnext), fun hfit hsz => ?_⟩
    exact (quiet_sendWindow cfg now hfit (hslow _ hnext) hsz).trans (readErrors_progress now _)

/-- **One event.** -/
theorem offers_step (h : c.s.Offers content b w sz) (e : SlotEvent) :
    (slotStep cfg c e).s.Offers content b w sz ∧
      (LongestBlockFits b w content → sz.toNat < 2 ^ 31 →
        readErrors (slotStep cfg c e).out = readErrors c.out) := by
  cases e with
  | packet now tftp =>
    rw [slotStep]
    rcases onSessionPacket_cases cfg now (c := c) tftp with
      heq | ⟨-, -, heq⟩ | ⟨-, heq⟩ | ⟨-, hst, -⟩ | ⟨-, heq⟩
    · rw [heq]
      exact ⟨h, fun _ _ => rfl⟩
    · rw [heq]
      have hphase : (dataPhase c).s.Offers content b w sz :=
        ⟨fun h' => (nomatch h'), h.file, h.blksize, h.windowsize, UInt64.zero_le, h.total⟩
      exact ⟨offers_sendWindow cfg now hphase,
        fun hfit hsz => quiet_sendWindow cfg now hfit hphase hsz⟩
    · rw [heq]
      exact offers_onAck cfg now h _
    · exact absurd hst h.download
    · rw [heq]
      exact ⟨h.reader (fun h' => nomatch h') h.file rfl rfl rfl rfl, fun _ _ => readErrors_ipc _ _⟩
  | tick now =>
    rw [slotStep]
    rcases tickSlot_cases cfg now (c := c) with
      ⟨-, heq⟩ | ⟨-, heq⟩ | ⟨-, -, heq⟩ | ⟨-, -, -, heq⟩ | ⟨hlive, -, -, heq⟩ <;> rw [heq]
    · exact ⟨h, fun _ _ => rfl⟩
    · exact ⟨h.reader (fun h' => nomatch h') (fun _ h' => nomatch h') rfl rfl rfl rfl,
        fun _ _ => rfl⟩
    · exact ⟨h, fun _ _ => rfl⟩
    · exact ⟨h.reader (fun h' => nomatch h') (fun _ h' => nomatch h') rfl rfl rfl rfl,
        fun _ _ => readErrors_ipc _ _⟩
    unfold retransmit
    cases hst : c.s.state with
    | oackWaitAck0 =>
      rw [show (bumpRetrans c).s.state = .oackWaitAck0 from hst]
      exact ⟨h.reader h.download h.file rfl rfl rfl rfl, fun _ _ => rfl⟩
    | sendRrq =>
      rw [show (bumpRetrans c).s.state = .sendRrq from hst]
      have hagain : ({ (bumpRetrans c).s with prebuiltValid := false } : Session).Offers
          content b w sz := h.reader h.download h.file rfl rfl rfl rfl
      exact ⟨offers_sendWindow cfg now (c := { bumpRetrans c with s := _ }) hagain,
        fun hfit hsz => quiet_sendWindow cfg now (c := { bumpRetrans c with s := _ }) hfit hagain
          hsz⟩
    | recvWrq => exact absurd hst h.download
    | free => exact absurd hst hlive.1
    | done => exact absurd hst hlive.2

theorem src_prebuildNext {s : Session} (h : s.src ≠ none) : (rrqPrebuildNext cfg s).src ≠ none := by
  rcases rrqPrebuildNext_cases cfg s with ⟨-, heq⟩ | ⟨src, pb, -, -, heq⟩ | ⟨src, pb, -, heq⟩ <;>
    rw [heq]
  · exact h
  · exact Option.some_ne_none _
  · exact Option.some_ne_none _

theorem src_sendWindow (h : c.s.src ≠ none) : (rrqSendWindow cfg now c).s.src ≠ none := by
  rcases rrqSendWindow_cases cfg now c with ⟨-, heq⟩ | ⟨src, -, ⟨-, heq⟩ | ⟨-, heq⟩⟩ <;> rw [heq]
  · exact h
  · simp [windowFailed]
  · exact src_prebuildNext cfg (Option.some_ne_none _)

theorem Session.Offers.sendable (h : c.s.Offers content b w sz)
    (hfit : LongestBlockFits b w content) (hquiet : sz.toNat < 2 ^ 31 → readErrors c.out = 0) :
    Sendable cfg sz c := by
  refine ⟨fun src hsrc => ?_, hquiet⟩
  obtain ⟨hhealthy, hcontent⟩ := h.file src hsrc
  refine (fillsAlways_iff cfg hhealthy hsrc).2 ?_ src hsrc
  rw [h.blksize, h.windowsize, hcontent]
  exact hfit

end Run

/-! ## From the request on -/

/-- The block size and the window that a reply acknowledges, or that are taken without. -/
def TftpReq.blocks (reply : TftpReq) : UInt16 :=
  (reply.blksize.map (·.toUInt16)).getD TFTP_BLKSIZE_DEFAULT

def TftpReq.window (reply : TftpReq) : UInt8 :=
  (reply.windowsize.map (·.toUInt8)).getD TFTP_WINDOWSIZE_DEFAULT

section Start

variable (cfg : Config) (now : Clock) (env : Env) (req : TftpReq) {src : FileSource} {sz : UInt64}

/-- A download that has been taken up, with or without an OACK. -/
theorem offers_begin (hsrc : src.Healthy) {c : Ctx} (hout : c.out = [])
    (hoff : c.s.windowFirstOffset = 0) :
    let d := rrqBegin cfg now env req sz (openedCtx req src sz c)
    let reply := rrqReply cfg req sz
    d.s.Offers src.content reply.blocks reply.window sz ∧ d.s.src ≠ none ∧
      (LongestBlockFits reply.blocks reply.window src.content → sz.toNat < 2 ^ 31 →
        readErrors d.out = 0) := by
  intro d reply
  -- computed, since comparing the two sessions by unification goes through all their fields
  have hfirst : (begunCtx cfg env req sz (openedCtx req src sz c)).s.windowFirstOffset = 0 := by
    simp only [begunCtx, emitSessionStart, openedCtx, withOptions, hoff]
  have hbegun : ∀ st : SState, st ≠ .recvWrq →
      ({ (begunCtx cfg env req sz (openedCtx req src sz c)).s with state := st } : Session).Offers
        src.content reply.blocks reply.window sz := by
    intro st hst
    refine ⟨hst, fun src' h => ?_, rfl, rfl, ?_, rfl⟩
    · obtain rfl : src = src' := Option.some.inj h
      exact ⟨hsrc, rfl⟩
    · rw [hfirst]
      exact UInt64.zero_le
  have hquiet : readErrors (begunCtx cfg env req sz (openedCtx req src sz c)).out = 0 := by
    show readErrors (c.out ++ _) = 0
    rw [hout]
    rfl
  rw [show d = rrqBegin cfg now env req sz (openedCtx req src sz c) from rfl, rrqBegin_eq]
  split
  · dsimp only
    rw [sendTftp_s]
    have hstart := hbegun .oackWaitAck0 (by decide)
    refine ⟨hstart.reader hstart.download hstart.file rfl rfl rfl rfl, Option.some_ne_none _,
      fun _ _ => ?_⟩
    -- an OACK is no error packet
    have hpkt : (tftpBuildOack 512 reply == readErrorPacket) = false := by
      rw [tftpBuildOack_eq]
      rfl
    unfold sendTftp sendTftpEx
    split
    · exact hquiet
    rename_i f hf
    have hpayload : f.payload = tftpBuildOack 512 reply := by
      unfold buildUdp4 at hf
      split at hf
      · cases hf
      · obtain rfl := Option.some.inj hf
        rfl
    rw [readErrors_append, hquiet]
    simp [readErrors, hpayload, hpkt]
  · have hphase : (dataPhase (begunCtx cfg env req sz (openedCtx req src sz c))).s.Offers
        src.content reply.blocks reply.window sz :=
      ⟨fun h' => (by cases h'), (hbegun .sendRrq (by decide)).file, rfl, rfl, UInt64.zero_le, rfl⟩
    refine ⟨offers_sendWindow cfg now hphase, src_sendWindow cfg now (Option.some_ne_none _),
      fun hfit hsz => ?_⟩
    exact (quiet_sendWindow cfg now hfit hphase hsz).trans hquiet

/-- **Which downloads can be sent.**  For every configuration, every request that is not turned down
    and every file without device errors: in ALL runs of the session every window can be filled, and
    no client is told of a read error (in a file within the reach of `fseek`), if and only if the
    longest block of the file, with its headers, fits the packet buffer.  The bounds of the
    configuration do not see to that. -/
theorem downloads_sendable_iff (m : SessMgr) (p : Sender) (st : SessStats)
    (hopen : env.openRead req.filename = some (src, sz)) (hsrc : src.Healthy)
    (hlimit : ¬ (cfg.maxRrqSize ≠ 0 ∧ cfg.maxRrqSize < sz)) :
    (∀ es, Always (slotStep cfg) (Sendable cfg sz)
      (startRrq cfg now env req (freshCtx now req m p st)) es) ↔
    LongestBlockFits (rrqReply cfg req sz).blocks (rrqReply cfg req sz).window src.content := by
  have hstart : startRrq cfg now env req (freshCtx now req m p st) =
      rrqBegin cfg now env req sz (openedCtx req src sz (freshCtx now req m p st)) := by
    rw [startRrq_opened cfg now env req hopen, if_neg hlimit]
  rw [hstart]
  obtain ⟨hoffers, hne, hquiet⟩ := @offers_begin cfg now env req src sz hsrc
    (freshCtx now req m p st) rfl rfl
  constructor
  · intro h
    obtain ⟨src', hsrc'⟩ := Option.ne_none_iff_exists'.1 hne
    obtain ⟨hhealthy, hcontent⟩ := hoffers.file src' hsrc'
    have hfit := (fillsAlways_iff cfg hhealthy hsrc').1 (h []).fills
    rw [hoffers.blksize, hoffers.windowsize, hcontent] at hfit
    exact hfit
  · intro hfit es
    have hstep : ∀ (c : Ctx) (e : SlotEvent),
        (c.s.Offers src.content (rrqReply cfg req sz).blocks (rrqReply cfg req sz).window sz ∧
          (sz.toNat < 2 ^ 31 → readErrors c.out = 0)) →
        ((slotStep cfg c e).s.Offers src.content (rrqReply cfg req sz).blocks
            (rrqReply cfg req sz).window sz ∧
          (sz.toNat < 2 ^ 31 → readErrors (slotStep cfg c e).out = 0)) := by
      intro c e hc
      obtain ⟨h1, h2⟩ := offers_step cfg hc.1 e
      exact ⟨h1, fun hsz => (h2 hfit hsz).trans (hc.2 hsz)⟩
    refine (always_of_step hstep ⟨hoffers, hquiet hfit⟩ es).mono fun c hc => ?_
    exact hc.1.sendable cfg hfit hc.2

end Start

/-- The file of 1100 bytes in blocks of 512 bytes. -/
theorem plain_sendable : Always (slotStep configDefaults) (Sendable configDefaults 1100)
    (startRrq configDefaults clock0 downloadEnv plainReq
      (freshCtx clock0 plainReq (sessmgrNew configDefaults) host {}))
    [.packet clock0 (ackPacket 1)] := by
  have hfit : LongestBlockFits (rrqReply configDefaults plainReq 1100).blocks
      (rrqReply configDefaults plainReq 1100).window threeBlocks.content := by
    refine .inr ?_
    have hlen : threeBlocks.content.length = 1100 := List.length_replicate
    rw [hlen]
    decide
  exact (downloads_sendable_iff configDefaults clock0 downloadEnv plainReq
    (sessmgrNew configDefaults) host {} (show _ = some (threeBlocks, 1100) from rfl)
    ⟨rfl, fun _ => rfl⟩ (by decide)).2 hfit [.packet clock0 (ackPacket 1)]

/-- A client that asks for blocks of 2000 bytes of a file of 3000. -/
def bigBlocksReq : TftpReq := ⟨TFTP_RRQ, ascii "f", ascii "octet", some 2000, none, none, none⟩

def bigFileEnv : Env :=
  ⟨fun _ => some (⟨false, List.replicate 3000 7, 0, false, fun _ => .ok, 0⟩, 3000), fun _ => none,
    true⟩

/-- The block size is acknowledged, and the first window ends the session with a read error. -/
theorem big_blocks_refused :
    let c := startRrq configDefaults clock0 bigFileEnv bigBlocksReq
      (freshCtx clock0 bigBlocksReq (sessmgrNew configDefaults) host {})
    c.s.blksize = 2000 ∧ c.s.state = .oackWaitAck0 ∧
      readErrors (run (slotStep configDefaults) c [.packet clock0 (ackPacket 0)]).out = 1 ∧
      (run (slotStep configDefaults) c [.packet clock0 (ackPacket 0)]).s.state = .done := by
  decide +kernel

end Nishro.CCore

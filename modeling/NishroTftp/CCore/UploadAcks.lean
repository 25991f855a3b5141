import NishroTftp.CCore.SlotStep
import NishroTftp.Lib.Runs
/-
  What the C engine acknowledges during an upload.

  An ACK tells the client which block was the last one written in order; that block is
  `next_block - 1`.  The receiver sends an ACK from three places: for a block it has just written,
  for a block it takes for a duplicate, and from the timer.  The first always carries the right
  number.  The second repeats the number of the packet instead of the number of the last block
  written, and what it takes for a duplicate is decided on 32-bit numbers rebuilt from 16 bits;
  the third writes 0 for the number before block 0.  The main result says, for every run, exactly
  when all the ACKs sent are right.
-/
namespace Nishro.CCore

open Nishro.Wire Nishro.Runs

/-! ## The ACKs in an output -/

/-- The number of an ACK packet. -/
def ackOf : Output → Option UInt16
  | .send f =>
    if f.payload.length = 4 ∧ at16 f.payload 0 = TFTP_ACK then some (at16 f.payload 2) else none
  | _ => none

/-- The numbers of the ACKs in what was written, in order. -/
def acksIn (os : List Output) : List UInt16 := os.filterMap ackOf

@[simp] theorem acksIn_nil : acksIn [] = [] := rfl

@[simp] theorem acksIn_append (os os' : List Output) : acksIn (os ++ os') = acksIn os ++ acksIn os' :=
  List.filterMap_append

@[simp] theorem acksIn_ipc (e : IpcEvent) : acksIn [.ipc e] = [] := rfl

section Senders

variable (cfg : Config) (now : Clock) (c : Ctx)

theorem sendTftpEx_out (payload : Bytes) (count : Bool) (h : payload.length ≤ 2002) :
    (sendTftpEx cfg payload count c).out = c.out ++ [.send (frameTo cfg c.s payload)] := by
  have hfit : ¬ PKT_BUF_SZ < 18 + 20 + 8 + payload.length := by
    simp only [PKT_BUF_SZ]
    omega
  have hbuilt : buildUdp4 PKT_BUF_SZ (frameTo cfg c.s payload) = some (frameTo cfg c.s payload) :=
    if_neg hfit
  simp only [sendTftpEx, hbuilt]

theorem acksIn_wrqSendAck (block : UInt16) :
    acksIn (wrqSendAck cfg now block c).out = acksIn c.out ++ [block] := by
  have hpkt : tftpBuildAck 32 block = 0 :: 4 :: be16 block := tftpBuildAck_eq block (by omega)
  have hone : acksIn [.send (frameTo cfg c.s (tftpBuildAck 32 block))] = [block] := by
    have h4 : rd16 0 4 = TFTP_ACK := by decide
    simp [acksIn, ackOf, frameTo, hpkt, be16, at16, at8, h4]
  simp only [wrqSendAck, sendTftp]
  rw [sendTftpEx_out cfg c _ true (by simp [hpkt]), acksIn_append, hone]

/-- An ERROR is never taken for an ACK. -/
theorem ackOf_error (f : UdpFrame) (cap : Nat) (code : UInt16) (msg : Bytes)
    (h : f.payload = tftpBuildError cap code msg) : ackOf (.send f) = none := by
  simp only [ackOf, h, tftpBuildError]
  split
  · simp
  · simp [at16, at8, be16, TFTP_ERROR]

theorem acksIn_sendError (code : UInt16) (msg : String) :
    acksIn (sendError cfg code msg c).out = acksIn c.out := by
  unfold sendError sendTftpEx
  split
  · rfl
  rename_i f hf
  have hp : f.payload = tftpBuildError 512 code (ascii msg) := by
    rw [buildUdp4] at hf
    split at hf
    · cases hf
    · rw [← Option.some.inj hf]; rfl
  simp [acksIn, ackOf_error f _ _ _ hp]

theorem acksIn_emitSessionProgress :
    acksIn (emitSessionProgress now c).out = acksIn c.out := by
  rw [emitSessionProgress_eq]
  split <;> simp

theorem acksIn_emitSessionEnd (ok fault : Bool) (reason : Option EndReason) :
    acksIn (emitSessionEnd now ok fault reason c).out = acksIn c.out := by
  simp [emitSessionEnd]

theorem acksIn_wrqFinish : acksIn (wrqFinish now c).out = acksIn c.out := by
  unfold wrqFinish
  simp only
  split <;> simp [acksIn_emitSessionEnd]

end Senders

/-! ## Which packet is taken for which block -/

/-- A block number is lifted to a 32-bit one that agrees with it in the low half. -/
theorem toUInt16_dataCand (next : UInt32) (block : UInt16) :
    (dataCand next block).toUInt16 = block := by
  apply UInt16.toNat_inj.mp
  have hb : block.toNat < 65536 := block.toNat_lt
  have hw := toNat_withLow next block
  have h64k : (0x10000 : UInt32).toNat = 65536 := rfl
  rw [UInt32.toNat_toUInt16]
  simp only [dataCand]
  split
  · rw [UInt32.toNat_add, hw, h64k]
    omega
  · split
    · rw [UInt32.toNat_sub, hw, h64k]
      omega
    · omega

/-- The packet is taken for a duplicate, and its number is not that of the last block written. -/
def misacked (next : UInt32) (block : UInt16) : Prop :=
  dataCand next block < next ∧ block ≠ (next - 1).toUInt16

instance (next : UInt32) (block : UInt16) : Decidable (misacked next block) :=
  inferInstanceAs (Decidable (_ ∧ _))

/-! ## When every ACK is right -/

/-- Every ACK sent for a receiving session carries the number of the last block written. -/
def AckSound (m : SessMgr) (e : Event) : Prop :=
  ∀ i, (m.slots i).state = .recvWrq → ∀ n ∈ acksIn (outFor i (stepOut m e).2),
    n = (((step m e).slots i).nextBlock - 1).toUInt16

/-- No packet of this event is mistaken for a duplicate, or repeated as one without being the last
    block; no timer runs out at block number 0. -/
def NoMisack (m : SessMgr) : Event → Prop
  | .tftp _ _ p tftp => ∀ i, reaches m p tftp = some i → (m.slots i).state = .recvWrq →
      at16 tftp 0 = TFTP_DATA → 4 ≤ tftp.length → ¬ misacked (m.slots i).nextBlock (at16 tftp 2)
  | .tick now => ∀ i, (m.slots i).state = .recvWrq → expired now (m.slots i) →
      ¬ MAX_RETRANS < (m.slots i).retransCount + 1 → (m.slots i).nextBlock ≠ 0
  | .configChanged _ => True

/-- All the ACKs a call adds carry the number before its `next_block`. -/
def RightAcks (c c' : Ctx) : Prop :=
  ∃ ns, acksIn c'.out = acksIn c.out ++ ns ∧ ∀ n ∈ ns, n = (c'.s.nextBlock - 1).toUInt16

section Calls

variable {cfg : Config} {now : Clock} {c : Ctx}

theorem RightAcks.of_none {c c' : Ctx} (h : acksIn c'.out = acksIn c.out) : RightAcks c c' :=
  ⟨[], by simpa using h, by simp⟩

theorem wrqSendAck_rightAcks_iff (n : UInt16) :
    RightAcks c (wrqSendAck cfg now n c) ↔ n = (c.s.nextBlock - 1).toUInt16 := by
  have hacks := acksIn_wrqSendAck cfg now c n
  constructor
  · rintro ⟨ns, hns, hright⟩
    have hns : ns = [n] := List.append_cancel_left (hns.symm.trans hacks)
    exact hright n (by simp [hns])
  · intro h
    refine ⟨[n], hacks, ?_⟩
    intro n' hn'
    rw [List.mem_singleton.mp hn']
    exact h

theorem wrqFinish_nextBlock : (wrqFinish now c).s.nextBlock = c.s.nextBlock := by
  unfold wrqFinish
  simp only
  split <;> rfl

/-- The block that is expected is acknowledged by its own number. -/
theorem wrqInOrder_rightAcks (block : UInt16) (payload : Bytes)
    (hb : block = c.s.nextBlock.toUInt16) :
    RightAcks c (wrqInOrder cfg now c.s.nextBlock block payload c) := by
  unfold wrqInOrder
  simp only
  split
  · exact .of_none (by simp [acksIn_emitSessionEnd, acksIn_sendError])
  split
  · exact .of_none (by simp [acksIn_emitSessionEnd, acksIn_sendError])
  · split
    · refine ⟨[block], ?_, by simpa [wrqFinish_nextBlock] using hb⟩
      simp [acksIn_wrqFinish, acksIn_emitSessionProgress, acksIn_wrqSendAck]
    · refine ⟨[block], ?_, by simpa using hb⟩
      simp [acksIn_emitSessionProgress, acksIn_wrqSendAck]

/-- What `wrq_on_data` acknowledges is right unless it repeats a number it should not. -/
theorem wrqOnData_rightAcks_iff (block : UInt16) (payload : Bytes) :
    RightAcks c (wrqOnData cfg now block payload c) ↔ ¬ misacked c.s.nextBlock block := by
  rcases wrqOnData_cases cfg now c block payload with ⟨hc, h⟩ | ⟨hc, h⟩ | ⟨hc, h⟩ <;> rw [h]
  · rw [wrqSendAck_rightAcks_iff]
    simp [misacked, hc]
  · have hb : block = c.s.nextBlock.toUInt16 := by rw [← hc, toUInt16_dataCand]
    refine iff_of_true (wrqInOrder_rightAcks block payload hb) fun hm => ?_
    exact absurd hm.1 (by simp [hc])
  · refine iff_of_true (.of_none rfl) fun hm => ?_
    exact absurd hm.1 (UInt32.not_lt.mpr (UInt32.le_of_lt hc))

/-- A packet for a receiving session is acknowledged rightly unless it is misacked DATA. -/
theorem onSessionPacket_rightAcks_iff {tftp : Bytes} (hst : c.s.state = .recvWrq) :
    RightAcks c (onSessionPacket cfg now tftp c) ↔
      (at16 tftp 0 = TFTP_DATA → 4 ≤ tftp.length → ¬ misacked c.s.nextBlock (at16 tftp 2)) := by
  by_cases hdata : at16 tftp 0 = TFTP_DATA ∧ 4 ≤ tftp.length
  · rw [onSessionPacket_data cfg now c tftp hdata.1 hdata.2 hst]
    have hiff : RightAcks c (wrqOnData cfg now (at16 tftp 2) (tftp.drop 4) (countReceived tftp c)) ↔
        ¬ misacked c.s.nextBlock (at16 tftp 2) :=
      wrqOnData_rightAcks_iff (c := countReceived tftp c) (at16 tftp 2) (tftp.drop 4)
    rw [hiff]
    exact ⟨fun h _ _ => h, fun h => h hdata.1 hdata.2⟩
  · refine iff_of_true ?_ fun hop hlen => absurd ⟨hop, hlen⟩ hdata
    rcases onSessionPacket_cases cfg now c tftp with
      h | ⟨hst', -, -⟩ | ⟨hst', -⟩ | ⟨hdata', -, -⟩ | ⟨-, h⟩
    · rw [h]; exact .of_none rfl
    · rw [hst] at hst'; cases hst'
    · rw [hst] at hst'; cases hst'
    · exact absurd hdata' hdata
    · rw [h]; exact .of_none (by simp [clientAborted, acksIn_emitSessionEnd])

/-- The timer repeats the number of the last block, except before block 0. -/
theorem retransmit_rightAcks_iff (hst : c.s.state = .recvWrq) :
    RightAcks c (retransmit cfg now c) ↔ c.s.nextBlock ≠ 0 := by
  have hre : retransmit cfg now c = wrqSendAck cfg now
      (if 1 < c.s.nextBlock then (c.s.nextBlock - 1).toUInt16 else 0) c := by
    simp [retransmit, hst]
  rw [hre, wrqSendAck_rightAcks_iff]
  by_cases h0 : c.s.nextBlock = 0
  · have hlast : ¬ (0 : UInt16) = (0 - 1 : UInt32).toUInt16 := by decide
    rw [h0, if_neg (by decide)]
    exact iff_of_false hlast (fun h => h rfl)
  by_cases h1 : 1 < c.s.nextBlock
  · simp [h1, h0]
  have : c.s.nextBlock = 1 := by
    rw [UInt32.lt_iff_toNat_lt] at h1
    rw [← UInt32.toNat_inj] at h0 ⊢
    simp only [UInt32.toNat_zero, UInt32.toNat_one] at h0 h1 ⊢
    omega
  simp [this]

end Calls

/-- What an event acknowledges for a receiving slot is right exactly when the call it makes on the
    slot is. -/
theorem rightAcks_slot (m : SessMgr) (e : Event) (i : Fin SESS_MAX) :
    ∃ c, c.s = m.slots i ∧
      ((∀ n ∈ acksIn (outFor i (stepOut m e).2),
          n = (((step m e).slots i).nextBlock - 1).toUInt16) ↔ RightAcks c (slotCall m i e c)) := by
  obtain ⟨b, st, -, hs, ho⟩ := stepOut_slot m e i
  refine ⟨⟨m.slots i, b, st, []⟩, rfl, ?_⟩
  rw [ho, step, hs]
  constructor
  · intro h
    exact ⟨_, by simp, h⟩
  · rintro ⟨ns, hns, h⟩
    rw [hns]
    exact h

/-- The ACKs sent in a step are right exactly when no packet of it is misacked. -/
theorem ackSound_iff (m : SessMgr) (e : Event) : AckSound m e ↔ NoMisack m e := by
  unfold AckSound
  cases e with
  | configChanged cfg => simp [NoMisack, stepOut]
  | tick now =>
    refine forall_congr' fun i => imp_congr_right fun hst => ?_
    obtain ⟨c, hc, hiff⟩ := rightAcks_slot m (.tick now) i
    rw [hiff, slotCall]
    rw [← hc] at hst ⊢
    rcases tickSlot_cases m.cfg now c with
      ⟨hfree, -⟩ | ⟨hdone, -⟩ | ⟨-, hexp, h⟩ | ⟨-, -, hmax, h⟩ | ⟨-, hexp, hmax, h⟩
    · rw [hst] at hfree; cases hfree
    · rw [hst] at hdone; cases hdone
    · rw [h]
      exact iff_of_true (.of_none rfl) fun hexp' => by simp [hexp] at hexp'
    · rw [h]
      exact iff_of_true (.of_none (by simp [timeOut, freeSlot, acksIn_emitSessionEnd, bumpRetrans]))
        fun _ hmax' => absurd hmax hmax'
    · have hre : RightAcks c (retransmit m.cfg now (bumpRetrans c)) ↔ c.s.nextBlock ≠ 0 :=
        retransmit_rightAcks_iff hst
      rw [h, hre]
      exact ⟨fun h0 _ _ => h0, fun h0 => h0 hexp hmax⟩
  | tftp now env p tftp =>
    cases ho : opens m p tftp with
    | some ri =>
      -- a request opens a free slot and reaches no session
      obtain ⟨req, j⟩ := ri
      refine iff_of_true (fun i hst => ?_) ?_
      · obtain ⟨c, hc, hiff⟩ := rightAcks_slot m (.tftp now env p tftp) i
        rw [hiff]
        have hij : j ≠ i := by
          rintro rfl
          have hfree := allocSlot_free (opens_eq_some.mp ho).2.2.2.2
          rw [hst] at hfree
          cases hfree
        simp only [slotCall, ho, if_neg hij]
        exact .of_none rfl
      · intro i hi
        rw [reaches_none_of_opens ho] at hi
        cases hi
    | none =>
      have hslot : ∀ i, (m.slots i).state = .recvWrq →
          ((∀ n ∈ acksIn (outFor i (stepOut m (.tftp now env p tftp)).2),
              n = (((step m (.tftp now env p tftp)).slots i).nextBlock - 1).toUInt16) ↔
            (reaches m p tftp = some i → at16 tftp 0 = TFTP_DATA → 4 ≤ tftp.length →
              ¬ misacked (m.slots i).nextBlock (at16 tftp 2))) := by
        intro i hst
        obtain ⟨c, hc, hiff⟩ := rightAcks_slot m (.tftp now env p tftp) i
        rw [hiff]
        simp only [slotCall, ho]
        rw [← hc] at hst ⊢
        by_cases hr : reaches m p tftp = some i
        · simp only [hr, if_true, forall_const]
          exact onSessionPacket_rightAcks_iff hst
        · simp only [hr, if_false, false_implies, iff_true]
          exact .of_none rfl
      constructor
      · intro h i hr hst hop hlen
        exact (hslot i hst).mp (h i hst) hr hop hlen
      · intro h i hst
        exact (hslot i hst).mpr fun hr hop hlen => h i hr hst hop hlen

/-! ## What the numbers stand for -/

section Written

variable {cfg : Config} {now : Clock} {c : Ctx}

theorem wrqInOrder_nextBlock (cand : UInt32) (block : UInt16) (payload : Bytes) :
    (wrqInOrder cfg now cand block payload c).s.nextBlock = c.s.nextBlock ∨
    ((writeBlock payload c.s.src).1 = true ∧
      (wrqInOrder cfg now cand block payload c).s.nextBlock = cand + 1) := by
  unfold wrqInOrder
  simp only
  split
  · exact .inl (by simp)
  split
  · exact .inl (by simp)
  · rename_i hw
    refine .inr ⟨by simpa using hw, ?_⟩
    split
    · simp [wrqFinish_nextBlock]
    · simp

theorem wrqOnData_nextBlock (block : UInt16) (payload : Bytes) :
    (wrqOnData cfg now block payload c).s.nextBlock = c.s.nextBlock ∨
    (block = c.s.nextBlock.toUInt16 ∧ (writeBlock payload c.s.src).1 = true ∧
      (wrqOnData cfg now block payload c).s.nextBlock = c.s.nextBlock + 1) := by
  rcases wrqOnData_cases cfg now c block payload with ⟨-, h⟩ | ⟨hc, h⟩ | ⟨-, h⟩ <;> rw [h]
  · exact .inl (by simp)
  · have hb : block = c.s.nextBlock.toUInt16 := by rw [← hc, toUInt16_dataCand]
    exact (wrqInOrder_nextBlock c.s.nextBlock block payload).imp id fun h => ⟨hb, h⟩
  · exact .inl rfl

end Written

/-- `next_block` of a receiving session moves by one, and only past a block of that number which
    the event delivered and the file took. -/
def CountsWritten (m : SessMgr) (e : Event) : Prop :=
  ∀ i, (m.slots i).state = .recvWrq →
    ((step m e).slots i).nextBlock = (m.slots i).nextBlock ∨
    ∃ now env p tftp, e = .tftp now env p tftp ∧
      at16 tftp 2 = (m.slots i).nextBlock.toUInt16 ∧
      (writeBlock (tftp.drop 4) (m.slots i).src).1 = true ∧
      ((step m e).slots i).nextBlock = (m.slots i).nextBlock + 1

theorem countsWritten (m : SessMgr) (e : Event) : CountsWritten m e := by
  intro i hst
  obtain ⟨b, st, -, hs, -⟩ := stepOut_slot m e i
  rw [step, hs]
  cases e with
  | configChanged cfg => exact .inl rfl
  | tick now =>
    refine .inl ?_
    simp only [slotCall]
    rcases tickSlot_cases m.cfg now ⟨m.slots i, b, st, []⟩ with
      ⟨-, h⟩ | ⟨-, h⟩ | ⟨-, -, h⟩ | ⟨-, -, -, h⟩ | ⟨-, -, -, h⟩ <;> rw [h]
    · rfl
    · rfl
    · simp [retransmit, bumpRetrans, hst]
  | tftp now env p tftp =>
    simp only [slotCall]
    cases ho : opens m p tftp with
    | some ri =>
      obtain ⟨req, j⟩ := ri
      have hij : j ≠ i := by
        rintro rfl
        have hfree := allocSlot_free (opens_eq_some.mp ho).2.2.2.2
        rw [hst] at hfree
        cases hfree
      exact .inl (by simp [hij])
    | none =>
      simp only
      split
      · rcases onSessionPacket_cases m.cfg now ⟨m.slots i, b, st, []⟩ tftp with
          h | ⟨hst', -, -⟩ | ⟨hst', -⟩ | ⟨-, -, h⟩ | ⟨-, h⟩
        · exact .inl (by rw [h])
        · rw [show (m.slots i).state = _ from hst'] at hst; cases hst
        · rw [show (m.slots i).state = _ from hst'] at hst; cases hst
        · rw [h]
          exact (wrqOnData_nextBlock (c := countReceived tftp ⟨m.slots i, b, st, []⟩) _ _).imp id
            fun h => ⟨now, env, p, tftp, rfl, h⟩
        · exact .inl (by rw [h]; rfl)
      · exact .inl rfl

/-- **The ACKs of an upload.**  In every run, all the ACKs sent for receiving sessions carry the
    number of the last block written if and only if no step of it misacks a packet; and in every
    run the number they should carry counts blocks that were written. -/
theorem upload_acks_exact (cfg : Config) (es : List Event) :
    (Along step AckSound (sessmgrNew cfg) es ↔ Along step NoMisack (sessmgrNew cfg) es) ∧
    Along step CountsWritten (sessmgrNew cfg) es :=
  ⟨along_congr ackSound_iff _ es, along_of_forall countsWritten _ es⟩

-- the duplicates that are answered with a number of their own, and the two ends of a rollover
example : misacked 3 1 := by decide
example : ¬ misacked 3 2 := by decide
example : misacked 65535 0 := by decide
example : misacked 0xFFFF0001 1 := by decide

/-! ## Two uploads that are misled -/

/-- An upload in blocks of 8 bytes and windows of 4. -/
def windowedWrq : Event :=
  .tftp clock0 uploadEnv host (requestBytes 2
    (ascii "blksize" ++ [0] ++ ascii "8" ++ [0] ++ ascii "windowsize" ++ [0] ++ ascii "4" ++ [0]))

def eightBytes : Bytes := List.replicate 8 0

/-- Its full block `n`. -/
def windowedData (n : UInt16) : Event :=
  .tftp clock0 uploadEnv hostToTid (dataBytes n eightBytes)

/-- The first session is that upload, and expects block `k`. -/
structure Uploading (k : Nat) (m : SessMgr) : Prop where
  cfg : m.cfg = uploadConfig
  state : (m.slots slot0).state = .recvWrq
  ip : (m.slots slot0).clientIp = host.clientIp
  port : (m.slots slot0).clientPort = host.clientPort
  tid : (m.slots slot0).serverPort = 40000
  blksize : (m.slots slot0).blksize = 8
  next : (m.slots slot0).nextBlock = UInt32.ofNat k
  src : ∃ f, (m.slots slot0).src = some f ∧ f.isWrite = true ∧ f.io = fun _ => .ok

theorem uploading_start : Uploading 1 (step (sessmgrNew uploadConfig) windowedWrq) where
  cfg := rfl
  state := by decide
  ip := by decide
  port := by decide
  tid := by decide
  blksize := by decide
  next := by decide
  src := ⟨emptyUpload, rfl, rfl, rfl⟩

/-- A block number in the first 64 Ki is lifted to itself. -/
theorem dataCand_self {k : Nat} (hk : k < 65536) :
    dataCand (UInt32.ofNat k) (UInt16.ofNat k) = UInt32.ofNat k := by
  have hn : (UInt32.ofNat k).toNat = k := by simp; omega
  have hb : (UInt16.ofNat k).toNat = k := by simp; omega
  have hw : withLow (UInt32.ofNat k) (UInt16.ofNat k) = UInt32.ofNat k := by
    apply UInt32.toNat_inj.mp
    rw [toNat_withLow, hn, hb]
    omega
  simp only [dataCand, hw]
  rw [if_neg, if_neg]
  · rw [UInt32.lt_iff_toNat_lt, UInt32.toNat_add, hn, show (0x8000 : UInt32).toNat = 32768 from rfl]
    omega
  · rw [UInt32.le_iff_toNat_le, UInt32.toNat_add, hn, show (0x10000 : UInt32).toNat = 65536 from rfl]
    omega

/-- A full in-order block that the file takes, with no cap on the size. -/
theorem wrqInOrder_full (cfg : Config) (now : Clock) (cand : UInt32) (block : UInt16)
    (payload : Bytes) (c : Ctx) {f : FileSource} (hsrc : c.s.src = some f) (hw : f.isWrite = true)
    (hio : f.io f.ops = .ok) (hmax : cfg.maxWrqSize = 0)
    (hlen : ¬ payload.length < c.s.blksize.toNat) :
    ∃ ms bytes late, (wrqInOrder cfg now cand block payload c).s =
      { c.s with
        src := some { f with content := f.content ++ payload, ops := f.ops + 1 }
        bytesDone := bytes, nextBlock := cand + 1, retransCount := 0, nextTimeoutMs := ms
        lastProgressMs := late } := by
  have hwrite : writeBlock payload c.s.src =
      (true, some { f with content := f.content ++ payload, ops := f.ops + 1 }) := by
    simp [writeBlock, hsrc, FileSource.write, hw, FileSource.outcome, hio]
  simp [wrqInOrder, hmax, hwrite, hlen]

/-- The upload as `wrq_on_data` finds it when block `n` comes in. -/
def uploadCtx (m : SessMgr) (n : UInt16) : Ctx :=
  countReceived (dataBytes n eightBytes) ⟨m.slots slot0, m.batch, m.stats, []⟩

/-- A block of the upload goes to `wrq_on_data` on its session. -/
theorem uploading_data {k : Nat} {m : SessMgr} (h : Uploading k m) (n : UInt16) :
    stepOut m (windowedData n) = m.onSlot slot0 (onSessionPacket m.cfg clock0 (dataBytes n eightBytes)) ∧
    onSessionPacket m.cfg clock0 (dataBytes n eightBytes) ⟨m.slots slot0, m.batch, m.stats, []⟩ =
      wrqOnData m.cfg clock0 n eightBytes (uploadCtx m n) := by
  obtain ⟨hop, hn, hdrop, hlen⟩ := at16_dataBytes n eightBytes
  have hr : reaches m hostToTid (dataBytes n eightBytes) = some slot0 := by
    refine reaches_eq_some.mpr ⟨by omega, ?_, ?_⟩
    · simp only [isRequest, hop]
      decide
    · exact findOrAlloc_slot0 (by simp [h.state]) h.ip h.port h.tid
  refine ⟨sessmgrOnTftp_packet hr, ?_⟩
  rw [onSessionPacket_data _ _ _ _ hop (by omega) h.state, hn, hdrop]
  rfl

theorem uploading_next {k : Nat} {m : SessMgr} (hk : k < 65536) (h : Uploading k m) :
    Uploading (k + 1) (step m (windowedData (UInt16.ofNat k))) := by
  obtain ⟨f, hsrc, hw, hio⟩ := h.src
  obtain ⟨hout, hcall⟩ := uploading_data h (UInt16.ofNat k)
  have hnext : (uploadCtx m (UInt16.ofNat k)).s.nextBlock = UInt32.ofNat k := h.next
  have hblk : (uploadCtx m (UInt16.ofNat k)).s.blksize = 8 := h.blksize
  have hcand := dataCand_self hk
  obtain ⟨ms, bytes, late, hfull⟩ := wrqInOrder_full m.cfg clock0 (UInt32.ofNat k) (UInt16.ofNat k)
    eightBytes (uploadCtx m (UInt16.ofNat k)) hsrc hw (by rw [hio]) (by rw [h.cfg]; rfl)
    (by rw [hblk]; decide)
  have hs : (step m (windowedData (UInt16.ofNat k))).slots slot0 =
      (wrqInOrder m.cfg clock0 (UInt32.ofNat k) (UInt16.ofNat k) eightBytes
        (uploadCtx m (UInt16.ofNat k))).s := by
    rw [step, hout, onSlot_slots, if_pos rfl, hcall]
    rcases wrqOnData_cases m.cfg clock0 (uploadCtx m (UInt16.ofNat k)) (UInt16.ofNat k) eightBytes with
      ⟨hc, -⟩ | ⟨-, hc⟩ | ⟨hc, -⟩
    · simp [hnext, hcand] at hc
    · rw [hc, hnext]
    · simp [hnext, hcand] at hc
  rw [hfull] at hs
  constructor
  · rw [step, hout, onSlot_cfg, h.cfg]
  · rw [hs]; exact h.state
  · rw [hs]; exact h.ip
  · rw [hs]; exact h.port
  · rw [hs]; exact h.tid
  · rw [hs]; exact h.blksize
  · rw [hs]; exact (UInt32.ofNat_add k 1).symm
  · rw [hs]; exact ⟨_, rfl, hw, hio⟩

/-- Such an upload gets as far as one likes within the first 64 Ki blocks. -/
theorem uploading_reached {k : Nat} (hk : k < 65536) :
    Uploading (k + 1) (run step (sessmgrNew uploadConfig)
      (windowedWrq :: (List.range k).map fun j => windowedData (UInt16.ofNat (j + 1)))) := by
  induction k with
  | zero => exact uploading_start
  | succ k ih =>
    have h := ih (by omega)
    rw [run_cons] at h ⊢
    rw [List.range_succ, List.map_append, run_append]
    exact uploading_next hk h

/-- Block 65536 overtaking block 65535 is acknowledged, and is not written. -/
theorem rollover_acks_unwritten {m : SessMgr} (h : Uploading 65535 m) :
    (m.slots slot0).nextBlock = 65535 ∧
    acksIn (outFor slot0 (stepOut m (windowedData 0)).2) = [0] ∧
    ((step m (windowedData 0)).slots slot0).src = (m.slots slot0).src := by
  obtain ⟨hout, hcall⟩ := uploading_data h 0
  have hnext : (uploadCtx m 0).s.nextBlock = 65535 := h.next
  have hdup : wrqOnData m.cfg clock0 0 eightBytes (uploadCtx m 0) =
      wrqSendAck m.cfg clock0 0 (uploadCtx m 0) := by
    rcases wrqOnData_cases m.cfg clock0 (uploadCtx m 0) 0 eightBytes with
      ⟨-, hc⟩ | ⟨hc, -⟩ | ⟨hc, -⟩
    · exact hc
    · rw [hnext] at hc; exact absurd hc (by decide)
    · rw [hnext] at hc; exact absurd hc (by decide)
  refine ⟨h.next, ?_, ?_⟩
  · rw [hout, onSlot_out, if_pos rfl, hcall, hdup, acksIn_wrqSendAck]
    rfl
  · rw [step, hout, onSlot_slots, if_pos rfl, hcall, hdup, wrqSendAck_s]
    rfl

/-- The client is moved back, and is told of a block that was never written: a duplicate of block 1
    after block 2 is answered with ACK 1, and in a long upload block 65536, arriving just before
    block 65535, is answered with its own number. -/
theorem upload_acks_mislead :
    (∃ es, ((run step (sessmgrNew uploadConfig) es).slots slot0).nextBlock = 3 ∧
      acksIn (outFor slot0 (stepOut (run step (sessmgrNew uploadConfig) es) (windowedData 1)).2) =
        [1]) ∧
    ∃ es, ((run step (sessmgrNew uploadConfig) es).slots slot0).nextBlock = 65535 ∧
      acksIn (outFor slot0 (stepOut (run step (sessmgrNew uploadConfig) es) (windowedData 0)).2) =
        [0] ∧
      ((step (run step (sessmgrNew uploadConfig) es) (windowedData 0)).slots slot0).src =
        ((run step (sessmgrNew uploadConfig) es).slots slot0).src := by
  refine ⟨⟨[windowedWrq, windowedData 1, windowedData 2], by decide⟩, ?_⟩
  have hk : 65534 < 65536 := by omega
  exact ⟨_, rollover_acks_unwritten (uploading_reached hk)⟩

end Nishro.CCore

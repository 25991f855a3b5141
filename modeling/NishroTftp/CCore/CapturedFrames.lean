import NishroTftp.CCore.DownloadRun
import NishroTftp.CCore.Main
import NishroTftp.CCore.UploadAcks
/-
  Captured frames that are not what was sent: cut short by the snaplen of 2048 bytes, or one piece
  of an IPv4 datagram.

  The end of an upload is the first block that is shorter than the block size, and the length of a
  block is what `pkt_parse` makes of three numbers: the bytes captured, the total length of the IPv4
  header and the length field of the UDP header.  Where they disagree it takes the smallest that
  makes sense, and the fragment fields are not read at all; so the rest of a frame passes for a whole
  one.
-/
namespace Nishro.CCore

open Nishro.Wire

/-! ## What a frame says of itself -/

/-- Where the IPv4 header starts, behind an Ethernet header with or without a VLAN tag. -/
def ipStart (pkt : Bytes) : Option Nat :=
  if at16 pkt 12 = ETH_P_VLAN then if at16 pkt 16 = ETH_P_IP then some 18 else none
  else if at16 pkt 12 = ETH_P_IP then some 14 else none

/-- The length of the IPv4 header at `off`. -/
def ihlAt (pkt : Bytes) (off : Nat) : Nat := ((at8 pkt off) &&& 0x0F).toNat * 4

/-- The total length that header announces. -/
def ipTotalAt (pkt : Bytes) (off : Nat) : Nat := (at16 pkt (off + 2)).toNat

/-- The length field of the UDP header after it. -/
def udpLenAt (pkt : Bytes) (off : Nat) : Nat := (at16 pkt (off + ihlAt pkt off + 4)).toNat

/-- Fewer bytes were captured than one of the two lengths announces. -/
def CutShort (pkt : Bytes) (off : Nat) : Prop :=
  pkt.length < off + ipTotalAt pkt off ∨
    (at8 pkt (off + 9) = IP_P_UDP ∧ pkt.length < off + ihlAt pkt off + udpLenAt pkt off)

/-- More fragments follow, or this one is not the first. -/
def Fragment (pkt : Bytes) (off : Nat) : Prop := at16 pkt (off + 6) &&& 0x3FFF ≠ 0

/-- A frame that is neither cut short nor a fragment. -/
def Whole (pkt : Bytes) : Prop := ∀ off, ipStart pkt = some off → ¬ CutShort pkt off ∧ ¬ Fragment pkt off

/-- The bytes of the IPv4 packet after its header; a total length that does not even cover the
    header, or more than was captured, is replaced by what was captured. -/
def l4LenAt (pkt : Bytes) (off : Nat) : Nat :=
  (if ipTotalAt pkt off < ihlAt pkt off ∨ pkt.length < off + ipTotalAt pkt off then pkt.length - off
    else ipTotalAt pkt off) - ihlAt pkt off

/-- The UDP length covers its own header and stays within the IPv4 packet. -/
def LengthsAgree (pkt : Bytes) (off : Nat) : Prop :=
  8 ≤ udpLenAt pkt off ∧ udpLenAt pkt off ≤ l4LenAt pkt off

/-- **The payload of a parsed datagram is as long as the UDP header says, if and only if that length
    makes sense.** -/
theorem parseL4_payload {buf : Bytes} (off : Nat) {o v : PktView}
    (hcap : off + ihlAt buf off ≤ buf.length)
    (h : parseL4 buf (off + ihlAt buf off) (l4LenAt buf off) o = some v) (hudp : v.isUdp = true)
    (ho : o.isUdp = false) :
    v.udpPayload.length + 8 = udpLenAt buf off ↔ LengthsAgree buf off := by
  have hl4 : l4LenAt buf off ≤ buf.length - (off + ihlAt buf off) := by
    unfold l4LenAt
    split <;> omega
  unfold parseL4 at h
  split at h
  · split at h
    · cases h
    · obtain rfl := Option.some.inj h
      simp only [slice, List.length_take, List.length_drop]
      rw [show (at16 buf (off + ihlAt buf off + 4)).toNat = udpLenAt buf off from rfl]
      unfold LengthsAgree
      split <;> omega
  · split at h
    · split at h
      · cases h
      · obtain rfl := Option.some.inj h
        exact nomatch ho.symm.trans hudp
    · obtain rfl := Option.some.inj h
      exact nomatch ho.symm.trans hudp

/-- A UDP view comes from an IPv4 header. -/
theorem parseL3_payload {buf : Bytes} {off : Nat} {o v : PktView} (h : parseL3 buf off o = some v)
    (hudp : v.isUdp = true) (ho : o.isUdp = false) :
    o.ethType = ETH_P_IP ∧
      (v.udpPayload.length + 8 = udpLenAt buf off ↔ LengthsAgree buf off) := by
  unfold parseL3 at h
  split at h
  · unfold parseArp at h
    split at h
    · cases h
    · obtain rfl := Option.some.inj h
      exact nomatch ho.symm.trans hudp
  · split at h
    · obtain rfl := Option.some.inj h
      exact nomatch ho.symm.trans hudp
    · rename_i heth
      refine ⟨not_not.1 heth, ?_⟩
      unfold parseIpv4 at h
      split at h
      · cases h
      simp only at h
      split at h
      · cases h
      · rename_i hihl
        rw [not_or, Nat.not_lt, Nat.not_lt] at hihl
        exact parseL4_payload off hihl.2 h hudp ho

theorem pktParse_payload {buf : Bytes} {v : PktView} (h : pktParse buf = some v)
    (hudp : v.isUdp = true) :
    ∃ off, ipStart buf = some off ∧
      (v.udpPayload.length + 8 = udpLenAt buf off ↔ LengthsAgree buf off) := by
  unfold pktParse at h
  split at h
  · cases h
  simp only at h
  split at h
  · rename_i hvlan
    split at h
    · cases h
    · obtain ⟨heth, hlen⟩ := parseL3_payload h hudp rfl
      exact ⟨18, by rw [ipStart, if_pos hvlan, if_pos heth], hlen⟩
  · rename_i hvlan
    obtain ⟨heth, hlen⟩ := parseL3_payload h hudp rfl
    exact ⟨14, by rw [ipStart, if_neg hvlan, if_pos heth], hlen⟩

/-! ## What a packet does to a session -/

/-- Nothing is written to an upload, the next block stays, and the session is not completed. -/
structure Undisturbed (c c' : Ctx) : Prop where
  file : c.s.state = .recvWrq → c'.s.src.map (·.content) = c.s.src.map (·.content)
  next : c'.s.nextBlock = c.s.nextBlock
  ends : okEnds c'.out = okEnds c.out

/-- The block is the next one of the upload, within the cap, and (some of) it can be written. -/
def Session.takesData (cfg : Config) (s : Session) (block : UInt16) (payload : Bytes) : Prop :=
  dataCand s.nextBlock block = s.nextBlock ∧
    ¬ (cfg.maxWrqSize ≠ 0 ∧ cfg.maxWrqSize < s.bytesDone + UInt64.ofNat payload.length) ∧
    ((writeBlock payload s.src).1 = true ∨
      (writeBlock payload s.src).2.map (·.content) ≠ s.src.map (·.content))

/-- The ACK is not stale: it completes the download or moves it on. -/
def Session.takesAck (s : Session) (ack : UInt16) : Prop :=
  ¬ ackCand s.windowLast ack < s.nextBlock ∧
    ((s.eofReached ∧ s.windowLast ≤ ackCand s.windowLast ack) ∨
      ackCand s.windowLast ack + 1 ≠ s.nextBlock)

/-- The packet is one the session is waiting for. -/
def Session.takes (cfg : Config) (s : Session) (tftp : Bytes) : Prop :=
  4 ≤ tftp.length ∧
    match s.state with
    | .recvWrq => at16 tftp 0 = TFTP_DATA ∧ s.takesData cfg (at16 tftp 2) (tftp.drop 4)
    | .sendRrq => at16 tftp 0 = TFTP_ACK ∧ s.takesAck (at16 tftp 2)
    | .oackWaitAck0 =>
      at16 tftp 0 = TFTP_ACK ∧ at16 tftp 2 = 0 ∧ s.kind = TFTP_RRQ ∧ s.nextBlock ≠ 1
    | .free | .done => False

section Packet

variable (cfg : Config) (now : Clock) {c : Ctx}

theorem Undisturbed.refl (c : Ctx) : Undisturbed c c := ⟨fun _ => rfl, rfl, rfl⟩

theorem okEnds_wrqSendAck (block : UInt16) (c : Ctx) :
    okEnds (wrqSendAck cfg now block c).out = okEnds c.out :=
  okEnds_sendTftpEx cfg c _ true

/-- An end that is not well. -/
theorem okEnds_failed (fault : Bool) (reason : Option EndReason) (c : Ctx) :
    okEnds (emitSessionEnd now false fault reason c).out = okEnds c.out :=
  (okEnds_append _ _).trans (List.append_nil _)

theorem succ_ne (n : UInt32) : n + 1 ≠ n := by
  intro h
  have := congrArg UInt32.toNat h
  rw [UInt32.toNat_add] at this
  have h1 : (1 : UInt32).toNat = 1 := rfl
  omega

/-- The cap of the configuration is exceeded by this block. -/
def overCap (cfg : Config) (s : Session) (payload : Bytes) : Prop :=
  cfg.maxWrqSize ≠ 0 ∧ cfg.maxWrqSize < s.bytesDone + UInt64.ofNat payload.length

theorem wrqInOrder_over {cand : UInt32} {block : UInt16} {payload : Bytes}
    (h : overCap cfg c.s payload) : Undisturbed c (wrqInOrder cfg now cand block payload c) := by
  have hends := okEnds_sendError cfg c TFTP_ERR_DISK_FULL "over size limit"
  have hs := sendError_s cfg c TFTP_ERR_DISK_FULL "over size limit"
  unfold overCap at h
  unfold wrqInOrder
  rw [if_pos h]
  generalize sendError cfg TFTP_ERR_DISK_FULL "over size limit" c = d at hends hs
  refine ⟨fun _ => ?_, ?_, (okEnds_failed now _ _ _).trans hends⟩
  · show d.s.src.map _ = _
    rw [hs]
  · show d.s.nextBlock = _
    rw [hs]

/-- A block that is written moves `next_block`. -/
theorem wrqInOrder_written (cand : UInt32) (block : UInt16) {payload : Bytes}
    (h : ¬ overCap cfg c.s payload) (hw : (writeBlock payload c.s.src).1 = true) :
    (wrqInOrder cfg now cand block payload c).s.nextBlock = cand + 1 := by
  unfold overCap at h
  unfold wrqInOrder
  rw [if_neg h]
  simp only [hw, Bool.not_true, Bool.false_eq_true, if_false]
  split
  · simp [wrqFinish_nextBlock]
  · simp

/-- A write that fails may have left something in the file. -/
theorem wrqInOrder_failed {cand : UInt32} {block : UInt16} {payload : Bytes}
    (hst : c.s.state = .recvWrq) (h : ¬ overCap cfg c.s payload)
    (hw : (writeBlock payload c.s.src).1 = false) :
    Undisturbed c (wrqInOrder cfg now cand block payload c) ↔
      (writeBlock payload c.s.src).2.map (·.content) = c.s.src.map (·.content) := by
  unfold overCap at h
  unfold wrqInOrder
  rw [if_neg h]
  simp only [hw, Bool.not_false, if_true]
  have hends := okEnds_sendError cfg
    { c with s := { c.s with src := (writeBlock payload c.s.src).2 } }
    TFTP_ERR_DISK_FULL "write failed"
  have hs := sendError_s cfg { c with s := { c.s with src := (writeBlock payload c.s.src).2 } }
    TFTP_ERR_DISK_FULL "write failed"
  generalize sendError cfg TFTP_ERR_DISK_FULL "write failed"
    { c with s := { c.s with src := (writeBlock payload c.s.src).2 } } = d at hends hs
  have hsrc : d.s.src = (writeBlock payload c.s.src).2 := by rw [hs]
  constructor
  · intro hu
    have hfile : d.s.src.map (·.content) = c.s.src.map (·.content) := hu.file hst
    rw [hsrc] at hfile
    exact hfile
  · intro hfile
    refine ⟨fun _ => ?_, ?_, (okEnds_failed now _ _ _).trans hends⟩
    · show d.s.src.map _ = _
      rw [hsrc]
      exact hfile
    · show d.s.nextBlock = _
      rw [hs]

/-- A DATA packet. -/
theorem wrqOnData_undisturbed_iff (hst : c.s.state = .recvWrq) (block : UInt16) (payload : Bytes) :
    Undisturbed c (wrqOnData cfg now block payload c) ↔ ¬ c.s.takesData cfg block payload := by
  rcases wrqOnData_cases cfg now c block payload with ⟨hc, heq⟩ | ⟨hc, heq⟩ | ⟨hc, heq⟩ <;> rw [heq]
  · refine iff_of_true ⟨fun _ => by simp, by simp, okEnds_wrqSendAck cfg now block c⟩ fun ht => ?_
    rw [ht.1] at hc
    exact UInt32.lt_irrefl _ hc
  · by_cases hcap : overCap cfg c.s payload
    · exact iff_of_true (wrqInOrder_over cfg now hcap) fun ht => ht.2.1 hcap
    · cases hw : (writeBlock payload c.s.src).1 with
      | true =>
        have hnext := wrqInOrder_written cfg now c.s.nextBlock block hcap hw
        exact iff_of_false (fun hu => succ_ne _ (hnext.symm.trans hu.next))
          fun ht => ht ⟨hc, hcap, .inl hw⟩
      | false =>
        rw [wrqInOrder_failed cfg now hst hcap hw]
        constructor
        · rintro hfile ⟨-, -, hok | hne⟩
          · exact nomatch hw.symm.trans hok
          · exact hne hfile
        · intro ht
          by_contra hne
          exact ht ⟨hc, hcap, .inr hne⟩
  · refine iff_of_true (.refl c) fun ht => ?_
    rw [ht.1] at hc
    exact UInt32.lt_irrefl _ hc

theorem rrqPrebuildNext_nextBlock (s : Session) :
    (rrqPrebuildNext cfg s).nextBlock = s.nextBlock := by
  obtain ⟨_, _, _, _, _, _, _, _, h⟩ := rrqPrebuildNext_frame cfg s
  rw [h]

theorem rrqSendWindow_nextBlock (c : Ctx) :
    (rrqSendWindow cfg now c).s.nextBlock = c.s.nextBlock := by
  rcases rrqSendWindow_cases cfg now c with ⟨-, heq⟩ | ⟨src, -, ⟨-, heq⟩ | ⟨-, heq⟩⟩ <;> rw [heq]
  · simp [windowFailed]
  · exact rrqPrebuildNext_nextBlock cfg _

/-- An ACK of a download. -/
theorem rrqOnAck_undisturbed_iff (hst : c.s.state = .sendRrq) (ack : UInt16) :
    Undisturbed c (rrqOnAck cfg now ack c) ↔ ¬ c.s.takesAck ack := by
  have hmoved : ∀ c', c'.s.nextBlock = ackCand c.s.windowLast ack + 1 →
      okEnds c'.out = okEnds c.out → ¬ ackCand c.s.windowLast ack < c.s.nextBlock →
      ¬ (c.s.eofReached ∧ c.s.windowLast ≤ ackCand c.s.windowLast ack) →
      (Undisturbed c c' ↔ ¬ c.s.takesAck ack) := by
    intro c' hnext hends hfresh hmore
    constructor
    · rintro hu ⟨-, hfin | hne⟩
      · exact hmore hfin
      · exact hne (hnext.symm.trans hu.next)
    · intro ht
      refine ⟨fun h => (nomatch hst.symm.trans h), ?_, hends⟩
      by_contra hne
      exact ht ⟨hfresh, .inr fun h => hne (hnext.trans h)⟩
  rcases rrqOnAck_cases cfg now c ack with
    ⟨hstale, heq⟩ | ⟨hfresh, hfin, heq⟩ | ⟨hfresh, hmore, -, heq⟩ | ⟨hfresh, hmore, -, heq⟩ <;> rw [heq]
  · exact iff_of_true (.refl c) fun ht => ht.1 hstale
  · refine iff_of_false (fun hu => ?_) fun ht => ht ⟨hfresh, .inl hfin⟩
    have hends := hu.ends
    rw [okEnds_finish] at hends
    have hlen := congrArg List.length hends
    rw [List.length_append] at hlen
    exact absurd hlen (Nat.succ_ne_self _)
  · refine hmoved _ ?_ (okEnds_fastPath cfg now _) hfresh hmore
    rw [rrqFastPath_s, rrqPrebuildNext_nextBlock]
    rfl
  · refine hmoved _ ?_ (okEnds_slowPath cfg now _) hfresh hmore
    unfold rrqSlowPath
    rw [rrqSendWindow_nextBlock, emitSessionProgress_s]
    rfl

theorem clientAborted_undisturbed : Undisturbed c (clientAborted now c) :=
  ⟨fun _ => rfl, rfl, okEnds_failed now _ _ c⟩

/-- A packet that is no ACK, and no DATA for an upload, touches nothing. -/
theorem onSessionPacket_other {tftp : Bytes} (hack : ¬ (at16 tftp 0 = TFTP_ACK ∧ 4 ≤ tftp.length))
    (hdata : ¬ (at16 tftp 0 = TFTP_DATA ∧ 4 ≤ tftp.length ∧ c.s.state = .recvWrq)) :
    Undisturbed c (onSessionPacket cfg now tftp c) := by
  unfold onSessionPacket
  simp only [if_neg hack, if_neg hdata]
  split
  · exact clientAborted_undisturbed now
  · exact .refl c

/-- **A packet disturbs a session if and only if it is one the session takes.** -/
theorem onSessionPacket_undisturbed_iff (tftp : Bytes) :
    Undisturbed c (onSessionPacket cfg now tftp c) ↔ ¬ c.s.takes cfg tftp := by
  by_cases hack : at16 tftp 0 = TFTP_ACK ∧ 4 ≤ tftp.length
  · have hnodata : at16 tftp 0 ≠ TFTP_DATA := by
      rw [hack.1]
      decide
    unfold onSessionPacket Session.takes
    simp only [if_pos hack]
    cases hst : c.s.state with
    | free => exact iff_of_true (.refl c) fun h => h.2
    | done => exact iff_of_true (.refl c) fun h => h.2
    | recvWrq => exact iff_of_true (.refl c) fun h => hnodata h.2.1
    | sendRrq =>
      simp only [hack, true_and]
      exact rrqOnAck_undisturbed_iff cfg now hst _
    | oackWaitAck0 =>
      simp only [hack, true_and]
      by_cases h0 : at16 tftp 2 = 0 ∧ c.s.kind = TFTP_RRQ
      · rw [if_pos h0]
        have hnext : (rrqSendWindow cfg now (dataPhase c)).s.nextBlock = 1 :=
          rrqSendWindow_nextBlock cfg now (dataPhase c)
        constructor
        · intro hu h
          exact h.2.2 (hu.next.symm.trans hnext)
        · intro h
          refine ⟨fun h' => (nomatch hst.symm.trans h'), ?_, okEnds_sendWindow cfg now (dataPhase c)⟩
          rw [hnext]
          by_contra hne
          exact h ⟨h0.1, h0.2, fun h1 => hne h1.symm⟩
      · rw [if_neg h0]
        exact iff_of_true (.refl c) fun h => h0 ⟨h.1, h.2.1⟩
  · by_cases hdata : at16 tftp 0 = TFTP_DATA ∧ 4 ≤ tftp.length ∧ c.s.state = .recvWrq
    · obtain ⟨hop, hlen, hst⟩ := hdata
      have hu := wrqOnData_undisturbed_iff cfg now (c := countReceived tftp c) hst (at16 tftp 2)
        (tftp.drop 4)
      rw [onSessionPacket_data cfg now c tftp hop hlen hst]
      have htakes : c.s.takes cfg tftp ↔ c.s.takesData cfg (at16 tftp 2) (tftp.drop 4) := by
        unfold Session.takes
        rw [hst]
        exact ⟨fun h => h.2.2, fun h => ⟨hlen, hop, h⟩⟩
      rw [htakes]
      exact ⟨fun h => hu.1 ⟨h.file, h.next, h.ends⟩,
        fun h => ⟨(hu.2 h).file, (hu.2 h).next, (hu.2 h).ends⟩⟩
    · refine iff_of_true (onSessionPacket_other cfg now hack hdata) fun h => ?_
      unfold Session.takes at h
      revert h
      cases hst : c.s.state with
      | free => exact fun h => h.2
      | done => exact fun h => h.2
      | recvWrq => exact fun h => hdata ⟨h.2.1, h.1, hst⟩
      | sendRrq => exact fun h => hack ⟨h.2.1, h.1⟩
      | oackWaitAck0 => exact fun h => hack ⟨h.2.1, h.1⟩

end Packet

/-! ## What a datagram does to the sessions -/

/-- No upload under way is written to, no session's next block moves, none is completed. -/
structure SessionsUndisturbed (m m' : SessMgr) (out : List SlotOutput) : Prop where
  file : ∀ i, (m.slots i).state = .recvWrq →
    (m'.slots i).src.map (·.content) = (m.slots i).src.map (·.content)
  next : ∀ i, (m.slots i).state ≠ .free → (m'.slots i).nextBlock = (m.slots i).nextBlock
  ends : okEnds (out.map (·.out)) = []

section Datagram

variable {m : SessMgr} (now : Clock) (env : Env) {p : Sender} {tftp : Bytes}

theorem okEnds_startRrq (cfg : Config) (req : TftpReq) {c : Ctx} (hout : c.out = []) :
    okEnds (startRrq cfg now env req c).out = [] := by
  rcases startRrq_cases cfg now c env req with ⟨_, _, _, _, _, heq⟩ | ⟨src, sz, -, heq⟩ <;> rw [heq]
  · rw [okEnds_reject, hout]
    rfl
  rw [rrqBegin_eq]
  have hstart : okEnds (begunCtx cfg env req sz
      { c with s := { withOptions req c.s with src := some src, totalBytes := sz } }).out = [] := by
    show okEnds (c.out ++ _) = []
    rw [hout]
    rfl
  split
  · exact (okEnds_sendTftpEx cfg _ _ true).trans hstart
  · exact (okEnds_sendWindow cfg now _).trans hstart

theorem okEnds_startWrq (cfg : Config) (req : TftpReq) {c : Ctx} (hout : c.out = []) :
    okEnds (startWrq cfg now env req c).out = [] := by
  rcases startWrq_cases cfg now c env req with ⟨-, _, _, _, _, heq⟩ | ⟨-, src, -, heq⟩ <;> rw [heq]
  · rw [okEnds_reject, hout]
    rfl
  unfold wrqBegin
  dsimp only
  split
  · refine (okEnds_sendTftpEx cfg _ _ true).trans ?_
    show okEnds (c.out ++ _) = []
    rw [hout]
    rfl
  · refine (okEnds_wrqSendAck cfg now 0 _).trans ?_
    show okEnds (c.out ++ _) = []
    rw [hout]
    rfl

/-- A new session takes a free slot and completes nothing. -/
theorem openSession_undisturbed {op : UInt16} {req : TftpReq} {i : Fin SESS_MAX}
    (hfree : (m.slots i).state = .free) :
    SessionsUndisturbed m (openSession m now env p op req i).1 (openSession m now env p op req i).2 := by
  have hslots : ∀ j, (m.slots j).state ≠ .free →
      (openSession m now env p op req i).1.slots j = m.slots j := by
    intro j hj
    have hne : j ≠ i := by
      rintro rfl
      exact hj hfree
    unfold openSession
    simp only [onSlot_slots, SessMgr.setSlot, if_neg hne]
  refine ⟨fun j hj => ?_, fun j hj => ?_, ?_⟩
  · rw [hslots j (by rw [hj]; decide)]
  · rw [hslots j hj]
  unfold openSession SessMgr.onSlot
  simp only [List.map_map]
  rw [show ((fun o : SlotOutput => o.out) ∘ fun o => (⟨some i, o⟩ : SlotOutput)) = id from rfl,
    List.map_id]
  split
  · exact okEnds_startRrq now env m.cfg req rfl
  · exact okEnds_startWrq now env m.cfg req rfl

theorem okEnds_sessionless {os : List SlotOutput} (h : Sessionless os) :
    okEnds (os.map (·.out)) = [] := by
  refine List.filterMap_eq_nil_iff.2 fun o ho => ?_
  obtain ⟨q, hq, rfl⟩ := List.mem_map.1 ho
  obtain ⟨-, f, hf⟩ := h q hq
  rw [hf]
  rfl

/-- **A datagram disturbs the sessions if and only if it reaches one that takes it.** -/
theorem onTftp_undisturbed_iff :
    SessionsUndisturbed m (sessmgrOnTftp m now env p tftp).1 (sessmgrOnTftp m now env p tftp).2 ↔
      ∀ i, reaches m p tftp = some i → ¬ (m.slots i).takes m.cfg tftp := by
  cases ho : opens m p tftp with
  | some ri =>
    rw [sessmgrOnTftp_open ho, reaches_none_of_opens ho]
    refine iff_of_true (openSession_undisturbed now env ?_) fun i h => nomatch h
    exact allocSlot_free (opens_eq_some.1 ho).2.2.2.2
  | none =>
    cases hr : reaches m p tftp with
    | none =>
      obtain ⟨⟨tid, denied, hm⟩, hout⟩ := sessmgrOnTftp_idle now env ho hr
      rw [hm]
      exact iff_of_true ⟨fun _ _ => rfl, fun _ _ => rfl, okEnds_sessionless hout⟩
        fun i h => nomatch h
    | some i =>
      have hlive : (m.slots i).state ≠ .free := (findOrAlloc_match (reaches_eq_some.1 hr).2.2).1
      rw [sessmgrOnTftp_packet hr]
      have hiff := onSessionPacket_undisturbed_iff m.cfg now
        (c := ⟨m.slots i, m.batch, m.stats, []⟩) tftp
      have hout : okEnds ((m.onSlot i (onSessionPacket m.cfg now tftp)).2.map (·.out)) =
          okEnds (onSessionPacket m.cfg now tftp ⟨m.slots i, m.batch, m.stats, []⟩).out := by
        unfold SessMgr.onSlot
        rw [List.map_map]
        exact congrArg okEnds (List.map_id _)
      constructor
      · rintro hu _ ⟨⟩
        refine hiff.1 ⟨fun h => ?_, ?_, hout.symm.trans hu.ends⟩
        · have := hu.file i h
          rwa [onSlot_slots, if_pos rfl] at this
        · have := hu.next i hlive
          rwa [onSlot_slots, if_pos rfl] at this
      · intro h
        have hu := hiff.2 (h i rfl)
        refine ⟨fun j hj => ?_, fun j hj => ?_, hout.trans hu.ends⟩
        · rw [onSlot_slots]
          split
          · next hji =>
            subst hji
            exact hu.file hj
          · rfl
        · rw [onSlot_slots]
          split
          · next hji =>
            subst hji
            exact hu.next
          · rfl

end Datagram

/-! ## What a captured frame does -/

/-- The part of what is sent that the sessions send or report. -/
def tftpSent (out : List Sent) : List SlotOutput :=
  out.filterMap fun
    | .tftp o => some o
    | .arp _ | .echo _ => none

/-- What the sessions say to a frame is what they say to its datagram. -/
theorem onPkt_out (rt : Runtime) (now : Clock) (env : Env) (pkt : Bytes) :
    tftpSent (onPkt rt now env pkt).2 =
      match datagram rt.sess.cfg pkt with
      | none => []
      | some v => (sessmgrOnTftp rt.sess now env v.sender v.udpPayload).2 := by
  have harp : ∀ a : Option ArpReply, tftpSent (a.toList.map .arp) = [] := by
    rintro (_ | a) <;> rfl
  have hecho : ∀ a : Option EchoReply, tftpSent (a.toList.map .echo) = [] := by
    rintro (_ | a) <;> rfl
  have htftp : ∀ os : List SlotOutput, tftpSent (os.map .tftp) = os := by
    intro os
    rw [tftpSent, List.filterMap_map]
    exact List.filterMap_some
  unfold onPkt datagram
  cases hv : pktParse pkt with
  | none => rfl
  | some v =>
    simp only [Option.filter_some]
    by_cases hmac : v.srcMac = rt.sess.cfg.virtualMac
    · simp [hmac, tftpSent]
    by_cases hudp : v.isUdp
    · obtain ⟨harp', hicmp⟩ := pktParse_onlyUdp hv hudp
      by_cases hip : v.dstIp = rt.sess.cfg.virtualIp
      · simp [hmac, hudp, hip, arpHandle, icmpHandle, harp', hicmp, toSessions, htftp]
      · simp [hmac, hudp, hip, arpHandle, icmpHandle, harp', hicmp, tftpSent]
    · simp only [hmac, hudp, if_false, ne_eq, not_false_eq_true, decide_true, Bool.false_and,
        Bool.and_false, false_and, Bool.false_eq_true]
      split
      · exact harp _
      · split
        · exact hecho _
        · rfl

/-- The promise about one captured frame: if it is not whole it leaves the sessions alone, and a
    block that an upload takes is as long as the UDP length says. -/
structure FrameSafe (rt : Runtime) (now : Clock) (env : Env) (pkt : Bytes) : Prop where
  inert : ¬ Whole pkt → SessionsUndisturbed rt.sess (onPkt rt now env pkt).1.sess
    (tftpSent (onPkt rt now env pkt).2)
  exact : ∀ v i off, datagram rt.sess.cfg pkt = some v →
    reaches rt.sess v.sender v.udpPayload = some i → (rt.sess.slots i).state = .recvWrq →
    (rt.sess.slots i).takes rt.sess.cfg v.udpPayload → ipStart pkt = some off →
    (v.udpPayload.drop 4).length + 12 = udpLenAt pkt off

/-- A frame that a session takes is whole, and its lengths agree if it is a block of an upload. -/
def TakenFramesWhole (rt : Runtime) (pkt : Bytes) : Prop :=
  ∀ v i, datagram rt.sess.cfg pkt = some v → reaches rt.sess v.sender v.udpPayload = some i →
    (rt.sess.slots i).takes rt.sess.cfg v.udpPayload →
    Whole pkt ∧ ((rt.sess.slots i).state = .recvWrq →
      ∀ off, ipStart pkt = some off → LengthsAgree pkt off)

theorem datagram_payload {cfg : Config} {pkt : Bytes} {v : PktView}
    (h : datagram cfg pkt = some v) :
    ∃ off, ipStart pkt = some off ∧
      (v.udpPayload.length + 8 = udpLenAt pkt off ↔ LengthsAgree pkt off) := by
  unfold datagram at h
  rw [Option.filter_eq_some_iff] at h
  obtain ⟨hparse, hkeep⟩ := h
  simp only [Bool.and_eq_true] at hkeep
  exact pktParse_payload hparse hkeep.2.1

/-- **Frames that are cut short, and fragments.**  In every state of the engine and for every
    captured frame: one that is not whole leaves the sessions alone and a block taken for an upload
    is exactly as long as its UDP length says, IF AND ONLY IF the sessions are offered nothing but
    whole frames with lengths that agree.  The engine itself does not look. -/
theorem frame_safe_iff (rt : Runtime) (now : Clock) (env : Env) (pkt : Bytes) :
    FrameSafe rt now env pkt ↔ TakenFramesWhole rt pkt := by
  have hsess := onPkt_sess rt now env pkt
  have hout := onPkt_out rt now env pkt
  constructor
  · intro hsafe v i hv hreach htakes
    rw [hv] at hsess hout
    refine ⟨?_, fun hst off hoff => ?_⟩
    · by_contra hbad
      have hu := hsafe.inert hbad
      rw [hsess, hout] at hu
      exact (onTftp_undisturbed_iff now env).1 hu i hreach htakes
    · obtain ⟨off', hoff', hlen⟩ := datagram_payload hv
      obtain rfl : off = off' := Option.some.inj (hoff.symm.trans hoff')
      have hexact := hsafe.exact v i off hv hreach hst htakes hoff
      have h4 := htakes.1
      rw [List.length_drop] at hexact
      exact hlen.1 (by omega)
  · intro hwhole
    refine ⟨fun hbad => ?_, fun v i off hv hreach hst htakes hoff => ?_⟩
    · rw [hsess, hout]
      cases hv : datagram rt.sess.cfg pkt with
      | none => exact ⟨fun _ _ => rfl, fun _ _ => rfl, rfl⟩
      | some v =>
        refine (onTftp_undisturbed_iff now env).2 fun i hreach htakes => ?_
        exact hbad (hwhole v i hv hreach htakes).1
    · obtain ⟨off', hoff', hlen⟩ := datagram_payload hv
      obtain rfl : off = off' := Option.some.inj (hoff.symm.trans hoff')
      have hagree := hlen.2 ((hwhole v i hv hreach htakes).2 hst off hoff)
      have h4 := htakes.1
      rw [List.length_drop]
      omega

/-- An upload in blocks of 512 bytes that waits for its first block. -/
def waitingUpload : Runtime :=
  ⟨step (sessmgrNew uploadConfig) (.tftp clock0 uploadEnv host (requestBytes 2 [])), 0, 0, 0, 0⟩

/-- The first 49 bytes of a frame that carries 512 bytes of block 1: IPv4 total length 544, UDP
    length 524, and 3 bytes of the block. -/
def cutFrame : Bytes :=
  List.replicate 6 0 ++ List.replicate 6 1 ++ be16 ETH_P_IP ++
    [0x45, 0] ++ be16 544 ++ [0, 0, 0x40, 0, 64, 17, 0, 0, 10, 0, 0, 1, 0, 0, 0, 0] ++
    be16 2000 ++ be16 40000 ++ be16 524 ++ [0, 0] ++ dataBytes 1 [7, 7, 7]

/-- It completes the upload, with a file of 3 bytes. -/
theorem cut_frame_completes :
    ¬ Whole cutFrame ∧
      okEnds ((tftpSent (onPkt waitingUpload clock0 uploadEnv cutFrame).2).map (·.out)) = [1] ∧
      ((onPkt waitingUpload clock0 uploadEnv cutFrame).1.sess.slots slot0).bytesDone = 3 ∧
      ¬ FrameSafe waitingUpload clock0 uploadEnv cutFrame := by
  have hcut : ¬ Whole cutFrame := fun h => (h 14 (by decide)).1 (.inl (by decide))
  have hends : okEnds ((tftpSent (onPkt waitingUpload clock0 uploadEnv cutFrame).2).map (·.out)) =
      [1] := by decide +kernel
  refine ⟨hcut, hends, by decide +kernel, fun h => ?_⟩
  have hnone := (h.inert hcut).ends
  cases hnone

end Nishro.CCore

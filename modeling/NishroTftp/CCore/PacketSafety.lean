import NishroTftp.CCore.Packet
import NishroTftp.Lib.Checked
/-
  `pkt_parse` stays inside the frame it is given.

  The parser is written once more with every read, every slice it keeps and every difference of
  lengths checked (`Checked`), in the order of the source.  On frames of at most 65535 bytes no check
  fails and the result is that of `pktParse`.  Two things make that so: the header length and the
  total length are compared with the captured length before anything behind them is touched, and a
  length that is replaced by the captured one still covers the header.  The bound is needed:
  `(uint16_t)l4_len` of a longer frame can be less than 8, and `udp_len - 8` then wraps.
-/
namespace Nishro.CCore

open Checked

/-! ## The checked parser -/

def get8 (buf : Bytes) (i : Nat) : Checked UInt8 := within buf i 1 (at8 buf i)

def get16 (buf : Bytes) (i : Nat) : Checked UInt16 := within buf i 2 (at16 buf i)

def get32 (buf : Bytes) (i : Nat) : Checked UInt32 := within buf i 4 (at32 buf i)

def getMac (buf : Bytes) (i : Nat) : Checked Mac := within buf i 6 (atMac buf i)

/-- A pointer and a length that are kept. -/
def getSlice (buf : Bytes) (i n : Nat) : Checked Bytes := within buf i n (slice buf i n)

def checkArp (buf : Bytes) (off : Nat) (o : PktView) : Checked (Option PktView) :=
  if buf.length < off + 28 then .ok none
  else do
    let oper ← get16 buf (off + 6)
    let sha ← getMac buf (off + 8)
    let spa ← get32 buf (off + 14)
    let tha ← getMac buf (off + 18)
    let tpa ← get32 buf (off + 24)
    return some { o with isArp := true, arpOper := oper, arpSha := sha, arpSpa := spa,
                         arpTha := tha, arpTpa := tpa }

def checkL4 (buf : Bytes) (l4 l4Len : Nat) (o : PktView) : Checked (Option PktView) :=
  if o.ipProto = IP_P_UDP then
    if l4Len < 8 then .ok none
    else do
      let src ← get16 buf l4
      let dst ← get16 buf (l4 + 2)
      let udpLen ← get16 buf (l4 + 4)
      let udpLen := if udpLen.toNat < 8 ∨ l4Len < udpLen.toNat then l4Len % 65536 else udpLen.toNat
      let n ← minus udpLen 8
      let payload ← getSlice buf (l4 + 8) n
      return some { o with isUdp := true, srcPort := src, dstPort := dst, udpPayload := payload }
  else if o.ipProto = IP_P_ICMP then
    if l4Len < 8 then .ok none
    else do
      let type ← get8 buf l4
      let code ← get8 buf (l4 + 1)
      let hdr ← getSlice buf l4 l4Len
      return some { o with isIcmp := true, icmpType := type, icmpCode := code, icmpHdr := hdr }
  else .ok (some o)

def checkIpv4 (buf : Bytes) (off : Nat) (o : PktView) : Checked (Option PktView) :=
  if buf.length < off + 20 then .ok none
  else do
    let first ← get8 buf off
    let ihl := (first &&& 0x0F).toNat * 4
    if ihl < 20 ∨ buf.length < off + ihl then return none
    let hdr ← getSlice buf off ihl
    let proto ← get8 buf (off + 9)
    let src ← get32 buf (off + 12)
    let dst ← get32 buf (off + 16)
    let total ← get16 buf (off + 2)
    let ipTotal ← if total.toNat < ihl ∨ buf.length < off + total.toNat then minus buf.length off
      else .ok total.toNat
    let l4Len ← minus ipTotal ihl
    checkL4 buf (off + ihl) l4Len { o with isIpv4 := true, ipHdr := hdr, ipProto := proto,
                                           srcIp := src, dstIp := dst }

def checkL3 (buf : Bytes) (off : Nat) (o : PktView) : Checked (Option PktView) :=
  if o.ethType = ETH_P_ARP then checkArp buf off o
  else if o.ethType ≠ ETH_P_IP then .ok (some o)
  else checkIpv4 buf off o

def pktParseChecked (buf : Bytes) : Checked (Option PktView) :=
  if buf.length < 14 then .ok none
  else do
    let dst ← getMac buf 0
    let src ← getMac buf 6
    let et ← get16 buf 12
    if et = ETH_P_VLAN then
      if buf.length < 18 then return none
      let tci ← get16 buf 14
      let inner ← get16 buf 16
      checkL3 buf 18 { srcMac := src, dstMac := dst, hasVlan := true, vlanId := tci &&& 0x0FFF,
                       vlanPrio := (tci >>> 13) &&& 0x7, ethType := inner }
    else
      checkL3 buf 14 { srcMac := src, dstMac := dst, hasVlan := false, vlanId := 0, vlanPrio := 0,
                       ethType := et }

/-! ## No check fails -/

section Safe

variable {buf : Bytes} {off l4 l4Len : Nat}

theorem checkArp_eq (o : PktView) : checkArp buf off o = .ok (parseArp buf off o) := by
  unfold checkArp parseArp
  split
  · rfl
  · simp (disch := omega) only [get16, getMac, get32, within_ok, ok_bind]
    rfl

/-- The transport header and what it announces lie in the `l4Len` bytes that are there. -/
theorem checkL4_eq (hin : l4 + l4Len ≤ buf.length) (hlen : l4Len < 65536) (o : PktView) :
    checkL4 buf l4 l4Len o = .ok (parseL4 buf l4 l4Len o) := by
  unfold checkL4 parseL4
  split
  · split
    · rfl
    · simp (disch := omega) only [get16, within_ok, ok_bind]
      generalize hudp : (if (at16 buf (l4 + 4)).toNat < 8 ∨ l4Len < (at16 buf (l4 + 4)).toNat then
        l4Len % 65536 else (at16 buf (l4 + 4)).toNat) = udpLen
      have hbounds : 8 ≤ udpLen ∧ udpLen ≤ l4Len := by
        split at hudp <;> omega
      rw [minus_ok hbounds.1, ok_bind, getSlice, within_ok (by omega), ok_bind]
      rfl
  · split
    · split
      · rfl
      · simp (disch := omega) only [get8, getSlice, within_ok, ok_bind]
        rfl
    · rfl

theorem checkIpv4_eq (hlen : buf.length ≤ 65535) (o : PktView) :
    checkIpv4 buf off o = .ok (parseIpv4 buf off o) := by
  unfold checkIpv4 parseIpv4
  split
  · rfl
  rw [get8, within_ok (by omega), ok_bind]
  dsimp only
  split
  · rfl
  simp (disch := omega) only [get8, get16, get32, getSlice, within_ok, ok_bind]
  generalize (at16 buf (off + 2)).toNat = total
  -- either length covers the header and ends inside the frame
  split
  · rw [minus_ok (by omega), ok_bind, minus_ok (by omega), ok_bind]
    exact checkL4_eq (by omega) (by omega) _
  · rw [minus_ok (by omega), ok_bind]
    exact checkL4_eq (by omega) (by omega) _

theorem checkL3_eq (hlen : buf.length ≤ 65535) (o : PktView) :
    checkL3 buf off o = .ok (parseL3 buf off o) := by
  unfold checkL3 parseL3
  rw [checkArp_eq, checkIpv4_eq hlen]
  split
  · rfl
  · split <;> rfl

end Safe

/-- **`pkt_parse` is memory-safe.**  On every frame of at most 65535 bytes it reads inside the frame
    only, the slices it keeps lie inside, and no length wraps. -/
theorem pktParse_safe {buf : Bytes} (hlen : buf.length ≤ 65535) :
    pktParseChecked buf = .ok (pktParse buf) := by
  unfold pktParseChecked pktParse
  split
  · rfl
  simp (disch := omega) only [getMac, get16, within_ok, ok_bind]
  split
  · split
    · rfl
    · simp (disch := omega) only [within_ok, ok_bind]
      exact checkL3_eq hlen _
  · exact checkL3_eq hlen _

/-- An empty datagram from port 69 to port 70 in a frame of 42 bytes. -/
theorem least_datagram_safe : ∃ v, pktParseChecked (List.replicate 12 0 ++ [8, 0, 0x45, 0, 0, 28] ++
    List.replicate 5 0 ++ [17] ++ List.replicate 10 0 ++ [0, 69, 0, 70, 0, 8, 0, 0]) = .ok (some v) ∧
    v.isUdp = true :=
  ⟨_, pktParse_safe (by decide), rfl⟩

end Nishro.CCore

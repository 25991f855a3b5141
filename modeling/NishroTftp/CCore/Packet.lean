import NishroTftp.CCore.Config
/-
  Frames of the C engine: the parser of captured frames (`pkt_parse` in `c_core/packet.c`), the UDP
  frames it sends (`build_udp4`), and Npcap's send queue (`c_core/pcap_io.c`).

  An outbound frame is kept as the fields `build_udp4` is given.  The queue charges every frame its
  length plus the 16 bytes of a `pcap_pkthdr` and refuses one that would exceed its capacity.
-/
namespace Nishro.CCore

open Nishro.Wire

/-! ## Inbound frames -/

def ETH_P_IP : UInt16 := 0x0800
def ETH_P_ARP : UInt16 := 0x0806
def ETH_P_VLAN : UInt16 := 0x8100
def IP_P_ICMP : UInt8 := 1
def IP_P_UDP : UInt8 := 17

/-- The byte at `i`. -/
def at8 (buf : Bytes) (i : Nat) : UInt8 := buf.getD i 0

/-- `RD16(buf + i)`. -/
def at16 (buf : Bytes) (i : Nat) : UInt16 := rd16 (at8 buf i) (at8 buf (i + 1))

/-- Four bytes in network order. -/
def at32 (buf : Bytes) (i : Nat) : UInt32 :=
  UInt32.ofNat (((at8 buf i).toNat * 256 + (at8 buf (i + 1)).toNat) * 65536
    + (at8 buf (i + 2)).toNat * 256 + (at8 buf (i + 3)).toNat)

/-- Six bytes. -/
def atMac (buf : Bytes) (i : Nat) : Mac := Vector.ofFn fun k => at8 buf (i + k.val)

/-- The bytes `[i, i + n)`. -/
def slice (buf : Bytes) (i n : Nat) : Bytes := (buf.drop i).take n

/-- Parsed packet view; a slice of the buffer stands for a pointer and a length into it. -/
structure PktView where
  srcMac : Mac
  dstMac : Mac
  hasVlan : Bool
  vlanId : UInt16
  vlanPrio : UInt16
  ethType : UInt16
  isIpv4 : Bool := false
  ipHdr : Bytes := []
  ipProto : UInt8 := 0
  srcIp : UInt32 := 0
  dstIp : UInt32 := 0
  isUdp : Bool := false
  srcPort : UInt16 := 0
  dstPort : UInt16 := 0
  udpPayload : Bytes := []
  isIcmp : Bool := false
  icmpType : UInt8 := 0
  icmpCode : UInt8 := 0
  icmpHdr : Bytes := []
  isArp : Bool := false
  arpOper : UInt16 := 0
  arpSha : Mac := Vector.replicate 6 0
  arpSpa : UInt32 := 0
  arpTha : Mac := Vector.replicate 6 0
  arpTpa : UInt32 := 0

/-- The ARP part of a frame whose ARP header starts at `off`. -/
def parseArp (buf : Bytes) (off : Nat) (o : PktView) : Option PktView :=
  if buf.length < off + 28 then none
  else some { o with
    isArp := true
    arpOper := at16 buf (off + 6)
    arpSha := atMac buf (off + 8)
    arpSpa := at32 buf (off + 14)
    arpTha := atMac buf (off + 18)
    arpTpa := at32 buf (off + 24) }

/-- The transport part: `l4` is the offset of the header after the IPv4 header, `l4Len` the bytes
    the packet has from there on. -/
def parseL4 (buf : Bytes) (l4 l4Len : Nat) (o : PktView) : Option PktView :=
  if o.ipProto = IP_P_UDP then
    if l4Len < 8 then none
    else
      let udpLen := (at16 buf (l4 + 4)).toNat
      -- a UDP length that is too small or too large is replaced by what was captured
      let udpLen := if udpLen < 8 ∨ l4Len < udpLen then l4Len % 65536 else udpLen
      some { o with
        isUdp := true
        srcPort := at16 buf l4
        dstPort := at16 buf (l4 + 2)
        udpPayload := slice buf (l4 + 8) (udpLen - 8) }
  else if o.ipProto = IP_P_ICMP then
    if l4Len < 8 then none
    else some { o with
      isIcmp := true
      icmpType := at8 buf l4
      icmpCode := at8 buf (l4 + 1)
      icmpHdr := slice buf l4 l4Len }
  else some o

/-- The IPv4 part of a frame whose IPv4 header starts at `off`. -/
def parseIpv4 (buf : Bytes) (off : Nat) (o : PktView) : Option PktView :=
  if buf.length < off + 20 then none
  else
    let ihl := ((at8 buf off) &&& 0x0F).toNat * 4
    if ihl < 20 ∨ buf.length < off + ihl then none
    else
      let ipTotal := (at16 buf (off + 2)).toNat
      -- trust captured length over header total to be tolerant
      let ipTotal := if ipTotal < ihl ∨ buf.length < off + ipTotal then buf.length - off
        else ipTotal
      parseL4 buf (off + ihl) (ipTotal - ihl) { o with
        isIpv4 := true
        ipHdr := slice buf off ihl
        ipProto := at8 buf (off + 9)
        srcIp := at32 buf (off + 12)
        dstIp := at32 buf (off + 16) }

/-- What follows the Ethernet header, by ethertype. -/
def parseL3 (buf : Bytes) (off : Nat) (o : PktView) : Option PktView :=
  if o.ethType = ETH_P_ARP then parseArp buf off o
  else if o.ethType ≠ ETH_P_IP then some o
  else parseIpv4 buf off o

/-- `pkt_parse`; `none` is the source's `-1`. -/
def pktParse (buf : Bytes) : Option PktView :=
  if buf.length < 14 then none
  else
    let et := at16 buf 12
    if et = ETH_P_VLAN then
      if buf.length < 18 then none
      else
        let tci := at16 buf 14
        parseL3 buf 18 { srcMac := atMac buf 6, dstMac := atMac buf 0, hasVlan := true,
                         vlanId := tci &&& 0x0FFF, vlanPrio := (tci >>> 13) &&& 0x7,
                         ethType := at16 buf 16 }
    else
      parseL3 buf 14 { srcMac := atMac buf 6, dstMac := atMac buf 0, hasVlan := false,
                       vlanId := 0, vlanPrio := 0, ethType := et }

/-! ## Outbound UDP frames -/

/-- A UDP frame, by the arguments of `build_udp4`.  `vlanId = 0xFFFF` means no tag. -/
structure UdpFrame where
  dstMac : Mac
  srcMac : Mac
  vlanId : UInt16
  srcIp : UInt32
  dstIp : UInt32
  srcPort : UInt16
  dstPort : UInt16
  payload : Bytes
deriving DecidableEq

/-- The number of bytes of the frame: Ethernet with or without tag, IPv4, UDP, payload. -/
def UdpFrame.length (f : UdpFrame) : Nat :=
  (if f.vlanId = VLAN_NONE then 14 else 18) + 20 + 8 + f.payload.length

/-- `build_udp4` into a buffer of `bufLen` bytes; `none` is the source's `0`.  The check always
    leaves room for a tag. -/
def buildUdp4 (bufLen : Nat) (f : UdpFrame) : Option UdpFrame :=
  if bufLen < 18 + 20 + 8 + f.payload.length then none else some f

/-! ## `pcap_send_queue` -/

/-- A frame in a send queue, with the block number it was built for.  The number is not on the
    wire (only its low 16 bits are, in the payload); it is kept to speak about the frame. -/
structure QueuedFrame where
  frame : UdpFrame
  block : UInt32
deriving DecidableEq

/-- `struct PcapBatch`: the frames queued so far and the capacity in bytes. -/
structure PcapBatch where
  frames : List QueuedFrame
  cap : Nat
deriving DecidableEq

namespace PcapBatch

/-- The bytes a queued frame takes: a `pcap_pkthdr` and the frame. -/
def cost (q : QueuedFrame) : Nat := 16 + q.frame.length

/-- `q->len`. -/
def len (b : PcapBatch) : Nat := (b.frames.map cost).sum

/-- `pcapio_batch_new`. -/
def new (capacity : Nat) : PcapBatch := ⟨[], capacity⟩

/-- `pcapio_batch_add`; `none` is the source's `-1` (queue full). -/
def add (b : PcapBatch) (q : QueuedFrame) : Option PcapBatch :=
  if b.cap < b.len + cost q then none else some { b with frames := b.frames ++ [q] }

/-- What `pcapio_batch_flush` leaves behind: an empty queue of the same capacity. -/
def flushed (b : PcapBatch) : PcapBatch := { b with frames := [] }

@[simp] theorem flushed_frames (b : PcapBatch) : b.flushed.frames = [] := rfl

@[simp] theorem flushed_cap (b : PcapBatch) : b.flushed.cap = b.cap := rfl

theorem add_eq_some {b b' : PcapBatch} {q : QueuedFrame} (h : b.add q = some b') :
    b' = { b with frames := b.frames ++ [q] } := by
  unfold add at h
  split at h
  · cases h
  · exact (Option.some.inj h).symm

end PcapBatch

end Nishro.CCore

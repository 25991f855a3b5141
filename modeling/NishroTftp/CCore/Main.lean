import NishroTftp.CCore.SlotStep
/-
  The packet loop of the C engine (`on_pkt` in `c_core/main.c`) with the two responders it calls
  first (`c_core/arp.c`, `c_core/icmp.c`).

  `g_cfg` and the configuration of the session manager are the same storage, so there is one
  `Config` here, the manager's.  Of `Runtime` the counters are kept; the pcap handle is where
  the frames listed as sent go.
-/
namespace Nishro.CCore

/-! ## ARP and ICMP -/

/-- The VLAN an access rule is looked up with: 0 when untagged. -/
def PktView.aclVlan (v : PktView) : UInt16 := if v.hasVlan then v.vlanId else 0

/-- The tag a reply is sent with. -/
def PktView.tag (v : PktView) : UInt16 := if v.hasVlan then v.vlanId else VLAN_NONE

/-- The arguments of `build_arp_reply`. -/
structure ArpReply where
  targetMac : Mac
  targetIp : UInt32
  senderMac : Mac
  senderIp : UInt32
  vlanId : UInt16

/-- `arp_handle`: is the frame consumed, and what is answered. -/
def arpHandle (cfg : Config) (v : PktView) : Bool × Option ArpReply :=
  if ! v.isArp then (false, none)
  else if v.arpOper ≠ 1 then (false, none)    -- only requests
  else if v.arpTpa ≠ cfg.virtualIp then (false, none)
  else if ! aclAllowed cfg v.aclVlan v.arpSpa .arp then (true, none)
  else (true, some ⟨v.arpSha, v.arpSpa, cfg.virtualMac, cfg.virtualIp, v.tag⟩)

/-- The arguments of `build_icmp_echo_reply`. -/
structure EchoReply where
  dstMac : Mac
  srcMac : Mac
  vlanId : UInt16
  srcIp : UInt32
  dstIp : UInt32
  ident : UInt16
  seq : UInt16
  data : Bytes

/-- `build_icmp_echo_reply` into a buffer of `bufLen` bytes; `none` when it does not fit. -/
def buildIcmpEchoReply (bufLen : Nat) (r : EchoReply) : Option EchoReply :=
  if bufLen < 18 + 20 + 8 + r.data.length then none else some r

/-- `icmp_handle`: is the frame consumed, and what is answered. -/
def icmpHandle (cfg : Config) (v : PktView) : Bool × Option EchoReply :=
  if ! v.isIcmp then (false, none)
  else if v.icmpType ≠ 8 then (false, none)    -- echo request
  else if v.dstIp ≠ cfg.virtualIp then (false, none)
  else if ! aclAllowed cfg v.aclVlan v.srcIp .icmp then (true, none)
  else if v.icmpHdr.length < 8 then (true, none)
  else (true, buildIcmpEchoReply 2048
    { dstMac := v.srcMac, srcMac := cfg.virtualMac, vlanId := v.tag, srcIp := cfg.virtualIp,
      dstIp := v.srcIp, ident := at16 v.icmpHdr 4, seq := at16 v.icmpHdr 6,
      data := v.icmpHdr.drop 8 })

/-! ## `on_pkt` -/

structure Runtime where
  sess : SessMgr
  arpRequests : UInt64
  arpReplies : UInt64
  icmpRequests : UInt64
  icmpReplies : UInt64

/-- A frame on its way out. -/
inductive Sent
  | arp (r : ArpReply)
  | echo (r : EchoReply)
  | tftp (o : SlotOutput)

/-- Who a UDP datagram is from and where it goes, as `sessmgr_on_tftp` is told. -/
def PktView.sender (v : PktView) : Sender := ⟨v.srcMac, v.srcIp, v.srcPort, v.dstPort, v.tag⟩

/-- Count the ARP and ICMP requests for the virtual IP. -/
def countRequests (v : PktView) (rt : Runtime) : Runtime :=
  let cfg := rt.sess.cfg
  let rt := if v.isArp ∧ v.arpOper = 1 ∧ v.arpTpa = cfg.virtualIp then
    { rt with arpRequests := rt.arpRequests + 1 } else rt
  if v.isIcmp ∧ v.icmpType = 8 ∧ v.dstIp = cfg.virtualIp then
    { rt with icmpRequests := rt.icmpRequests + 1 } else rt

/-- Hand a datagram to the session manager. -/
def toSessions (rt : Runtime) (now : Clock) (env : Env) (v : PktView) : Runtime × List Sent :=
  let r := sessmgrOnTftp rt.sess now env v.sender v.udpPayload
  ({ rt with sess := r.1 }, r.2.map .tftp)

/-- `on_pkt`: handle one captured frame. -/
def onPkt (rt : Runtime) (now : Clock) (env : Env) (pkt : Bytes) : Runtime × List Sent :=
  match pktParse pkt with
  | none => (rt, [])
  | some v =>
    let cfg := rt.sess.cfg
    if v.srcMac = cfg.virtualMac then (rt, [])    -- our own frames
    else
      let rt := countRequests v rt
      let a := arpHandle cfg v
      if a.1 then ({ rt with arpReplies := rt.arpReplies + 1 }, a.2.toList.map .arp)
      else
        let e := icmpHandle cfg v
        if e.1 then ({ rt with icmpReplies := rt.icmpReplies + 1 }, e.2.toList.map .echo)
        else if v.isUdp ∧ v.dstIp = cfg.virtualIp ∧ v.dstPort = cfg.tftpPort then
          toSessions rt now env v
        -- traffic addressed to an existing session's server TID
        else if v.isUdp ∧ v.dstIp = cfg.virtualIp then toSessions rt now env v
        else (rt, [])

/-! ## What reaches the session manager -/

/-- Nothing in the view says ARP, ICMP or UDP yet. -/
structure PktView.Unclassified (o : PktView) : Prop where
  arp : o.isArp = false
  icmp : o.isIcmp = false
  udp : o.isUdp = false

/-- A view is classified as one thing only. -/
def PktView.OnlyUdp (v : PktView) : Prop := v.isUdp → v.isArp = false ∧ v.isIcmp = false

theorem parseL4_onlyUdp {buf : Bytes} {l4 len : Nat} {o v : PktView} (ho : o.Unclassified)
    (h : parseL4 buf l4 len o = some v) : v.OnlyUdp := by
  unfold parseL4 at h
  split at h
  · split at h
    · cases h
    · cases h
      exact fun _ => ⟨ho.arp, ho.icmp⟩
  · split at h
    · split at h
      · cases h
      · cases h
        exact fun hu => absurd hu (by simp [ho.udp])
    · cases h
      exact fun _ => ⟨ho.arp, ho.icmp⟩

theorem parseIpv4_onlyUdp {buf : Bytes} {off : Nat} {o v : PktView} (ho : o.Unclassified)
    (h : parseIpv4 buf off o = some v) : v.OnlyUdp := by
  unfold parseIpv4 at h
  split at h
  · cases h
  · simp only at h
    split at h
    · cases h
    · refine parseL4_onlyUdp ?_ h
      exact ⟨ho.arp, ho.icmp, ho.udp⟩

theorem parseL3_onlyUdp {buf : Bytes} {off : Nat} {o v : PktView} (ho : o.Unclassified)
    (h : parseL3 buf off o = some v) : v.OnlyUdp := by
  unfold parseL3 at h
  split at h
  · unfold parseArp at h
    split at h
    · cases h
    · cases h
      exact fun hu => absurd hu (by simp [ho.udp])
  · split at h
    · cases h
      exact fun hu => absurd hu (by simp [ho.udp])
    · exact parseIpv4_onlyUdp ho h

theorem pktParse_onlyUdp {buf : Bytes} {v : PktView} (h : pktParse buf = some v) : v.OnlyUdp := by
  unfold pktParse at h
  split at h
  · cases h
  simp only at h
  split at h
  · split at h
    · cases h
    · exact parseL3_onlyUdp ⟨rfl, rfl, rfl⟩ h
  · exact parseL3_onlyUdp ⟨rfl, rfl, rfl⟩ h

/-- The datagram a frame brings to the session manager: UDP to the virtual IP, not sent by us. -/
def datagram (cfg : Config) (pkt : Bytes) : Option PktView :=
  (pktParse pkt).filter fun v =>
    decide (v.srcMac ≠ cfg.virtualMac) && (v.isUdp && v.dstIp == cfg.virtualIp)

@[simp] theorem countRequests_sess (v : PktView) (rt : Runtime) :
    (countRequests v rt).sess = rt.sess := by
  unfold countRequests
  simp only
  split <;> split <;> rfl

/-- The two call sites of `sessmgr_on_tftp` make one: every datagram goes to the session manager,
    whatever its port, and nothing else moves it. -/
theorem onPkt_sess (rt : Runtime) (now : Clock) (env : Env) (pkt : Bytes) :
    (onPkt rt now env pkt).1.sess =
      match datagram rt.sess.cfg pkt with
      | none => rt.sess
      | some v => (sessmgrOnTftp rt.sess now env v.sender v.udpPayload).1 := by
  unfold onPkt datagram
  cases hv : pktParse pkt with
  | none => rfl
  | some v =>
    simp only [Option.filter_some]
    by_cases hmac : v.srcMac = rt.sess.cfg.virtualMac
    · simp [hmac]
    by_cases hudp : v.isUdp
    · obtain ⟨harp, hicmp⟩ := pktParse_onlyUdp hv hudp
      by_cases hip : v.dstIp = rt.sess.cfg.virtualIp
      · simp [hmac, hudp, hip, arpHandle, icmpHandle, harp, hicmp, toSessions]
      · simp [hmac, hudp, hip, arpHandle, icmpHandle, harp, hicmp]
    · simp only [hmac, hudp, if_false, ne_eq, not_false_eq_true, decide_true, Bool.false_and,
        Bool.and_false, false_and, Bool.false_eq_true]
      split
      · simp
      · split <;> simp

end Nishro.CCore

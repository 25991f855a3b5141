import NishroTftp.CCore.Main
import NishroTftp.Py.Server
/-
  Which packet reaches which session, and which packet opens one, in both engines.

  The Python dispatcher looks a packet up under its five-field `SessionKey` and takes new requests
  on the listen port only.  The C engine looks up three of the five fields (address, client port,
  TID) and hands the datagrams of EVERY port to the same function, so a packet of another host or
  VLAN can reach a session, and a request to any port can open one.  The two results say exactly in
  which states and for which frames that makes a difference.
-/
namespace Nishro

open CCore

/-! ## Isolation -/

/-- What a C session records of its peer, as the sender it expects packets from. -/
def CCore.Session.peer (s : Session) : Sender :=
  ⟨s.clientMac, s.clientIp, s.clientPort, s.serverPort, s.vlanId⟩

/-- The event leaves the session in slot `i` as it is, and nothing is written for it: no state
    change, no end, no byte in its file. -/
structure Untouched (m : SessMgr) (e : Event) (i : Fin SESS_MAX) : Prop where
  session : (step m e).slots i = m.slots i
  silent : outFor i (stepOut m e).2 = []

/-- No non-request packet of this sender touches a session of another peer. -/
def Isolated (m : SessMgr) (p : Sender) : Prop :=
  ∀ now env tftp, ¬ isRequest tftp → ∀ i, (m.slots i).peer ≠ p →
    Untouched m (.tftp now env p tftp) i

theorem opens_none_of_not_request {m : SessMgr} {p : Sender} {tftp : Bytes} (h : ¬ isRequest tftp) :
    opens m p tftp = none := by
  simp [opens, h]

/-- A packet that is not handed to slot `i` leaves it alone. -/
theorem untouched_of_not_reached {m : SessMgr} {now : Clock} {env : Env} {p : Sender} {tftp : Bytes}
    {i : Fin SESS_MAX} (hreq : ¬ isRequest tftp) (hr : reaches m p tftp ≠ some i) :
    Untouched m (.tftp now env p tftp) i := by
  obtain ⟨b, st, -, hs, ho⟩ := stepOut_slot m (.tftp now env p tftp) i
  simp only [slotCall, opens_none_of_not_request hreq, if_neg hr] at hs ho
  exact ⟨hs, ho⟩

/-- Whoever's packets reach a session can end it. -/
theorem error_touches {m : SessMgr} (now : Clock) (env : Env) {p : Sender} {i : Fin SESS_MAX}
    (h : findOrAlloc m p.clientIp p.clientPort p.serverPort = some i) :
    ¬ Untouched m (.tftp now env p errorBytes) i := by
  intro hu
  have hreq : ¬ isRequest errorBytes := by decide
  have hr : reaches m p errorBytes = some i := reaches_eq_some.mpr ⟨by decide, hreq, h⟩
  obtain ⟨b, st, -, -, ho⟩ := stepOut_slot m (.tftp now env p errorBytes) i
  simp only [slotCall, opens_none_of_not_request hreq, hr, if_true] at ho
  rw [onSessionPacket_error _ _ _ _ (by decide), hu.silent] at ho
  simp [clientAborted, emitSessionEnd] at ho

/-- Isolation holds for a sender exactly when the session its address, port and TID select, if any,
    is its own. -/
theorem isolated_iff (m : SessMgr) (p : Sender) :
    Isolated m p ↔ ∀ i, findOrAlloc m p.clientIp p.clientPort p.serverPort = some i →
      (m.slots i).clientMac = p.clientMac ∧ (m.slots i).vlanId = p.vlanId := by
  constructor
  · intro h i hi
    by_cases hp : (m.slots i).peer = p
    · rw [← hp]
      exact ⟨rfl, rfl⟩
    · refine absurd (h clock0 uploadEnv errorBytes (by decide) i hp) ?_
      exact error_touches clock0 uploadEnv hi
  · intro h now env tftp hreq i hp
    refine untouched_of_not_reached hreq fun hr => hp ?_
    have hfound := (reaches_eq_some.mp hr).2.2
    obtain ⟨hmac, hvlan⟩ := h i hfound
    obtain ⟨-, hip, hcport, hsport⟩ := findOrAlloc_match hfound
    simp only [Session.peer, hmac, hip, hcport, hsport, hvlan]

/-- **Session isolation.**  In the C engine a sender's packets touch only its own sessions exactly
    when the session selected by address, port and TID has its MAC and its VLAN tag; in the Python
    engine they always do. -/
theorem session_isolation (m : SessMgr) (p : Sender) (srv : Py.TftpServer) (q : Py.Packet) :
    (Isolated m p ↔ ∀ i, findOrAlloc m p.clientIp p.clientPort p.serverPort = some i →
      (m.slots i).clientMac = p.clientMac ∧ (m.slots i).vlanId = p.vlanId) ∧
    ∀ key, key ≠ q.probe → (Py.handle srv q).2.1.get key = srv.get key :=
  ⟨isolated_iff m p, fun _ h => Py.handle_get_of_ne srv q h⟩

/-- Uploads enabled, and VLAN 20 denied. -/
def vlan20Denied : Config :=
  { uploadConfig with acl := [⟨20, 0, 0, false, true, true, true⟩] }

/-- Another machine, on VLAN 20, that sends with the address and port of `host`. -/
def intruder : Sender := { hostToTid with clientMac := Vector.replicate 6 2, vlanId := 20 }

/-- The upload of `host` under way. -/
def hostUploading : SessMgr :=
  step (sessmgrNew vlan20Denied) (.tftp clock0 uploadEnv host (requestBytes 2 []))

/-- A host on a VLAN the access rules deny puts a byte of its own into a running upload, and ends
    it. -/
theorem intruder_writes_and_aborts :
    aclAllowed vlan20Denied intruder.vlanId intruder.clientIp .tftp = false ∧
    (hostUploading.slots slot0).peer = hostToTid ∧
    ((step hostUploading (.tftp clock0 uploadEnv intruder (dataBytes 1 [7]))).slots slot0).bytesDone
      = 1 ∧
    ((step hostUploading (.tftp clock0 uploadEnv intruder errorBytes)).slots slot0).state = .done := by
  decide

/-! ## Requests and the listen port -/

/-- The frame brings a request to the listen port that every check lets pass. -/
structure ListenRequest (rt : Runtime) (pkt : Bytes) (v : PktView) : Prop where
  datagram : datagram rt.sess.cfg pkt = some v
  toPort : v.dstPort = rt.sess.cfg.tftpPort
  request : 2 ≤ v.udpPayload.length ∧ isRequest v.udpPayload
  allowed : rt.sess.admits v.sender
  parsed : (tftpParseRequest v.udpPayload).isSome

/-- The same, to any other port. -/
structure Misrouted (rt : Runtime) (pkt : Bytes) (v : PktView) : Prop where
  datagram : datagram rt.sess.cfg pkt = some v
  toOther : v.dstPort ≠ rt.sess.cfg.tftpPort
  request : 2 ≤ v.udpPayload.length ∧ isRequest v.udpPayload
  allowed : rt.sess.admits v.sender
  parsed : (tftpParseRequest v.udpPayload).isSome

/-- No session is opened: no id and no TID is given out, no free slot is taken. -/
structure NoNewSession (m m' : SessMgr) : Prop where
  ids : m'.nextId = m.nextId
  tids : m'.nextServerTid = m.nextServerTid
  slots : ∀ i, (m.slots i).state = .free → m'.slots i = m.slots i

theorem NoNewSession.refl (m : SessMgr) : NoNewSession m m := ⟨rfl, rfl, fun _ _ => rfl⟩

/-- What is not an admitted, well-formed request opens nothing. -/
theorem sessmgrOnTftp_noNewSession (m : SessMgr) (now : Clock) (env : Env) (p : Sender)
    (tftp : Bytes) (h : ¬ (2 ≤ tftp.length ∧ isRequest tftp ∧ m.admits p ∧
      (tftpParseRequest tftp).isSome)) : NoNewSession m (sessmgrOnTftp m now env p tftp).1 := by
  unfold sessmgrOnTftp
  split
  · exact .refl m
  split
  · rename_i hreq
    unfold onRequest
    split
    · exact ⟨rfl, rfl, fun _ _ => rfl⟩
    · rename_i hacl
      split
      · exact .refl m
      · rename_i req hparse
        exact absurd ⟨by omega, hreq, by simpa using hacl, by simp [hparse]⟩ h
  · split
    · exact .refl m
    · rename_i i hfound
      refine ⟨rfl, rfl, fun j hj => ?_⟩
      have hij : j ≠ i := by
        rintro rfl
        exact (findOrAlloc_match hfound).1 hj
      rw [onSlot_slots, if_neg hij]

/-- An admitted, well-formed request takes a TID, whether there is room for its session or not. -/
theorem sessmgrOnTftp_takes_tid (m : SessMgr) (now : Clock) (env : Env) (p : Sender) (tftp : Bytes)
    (hlen : 2 ≤ tftp.length) (hreq : isRequest tftp) (hacl : m.admits p)
    (hparse : (tftpParseRequest tftp).isSome) :
    (sessmgrOnTftp m now env p tftp).1.nextServerTid = m.nextServerTid + 1 := by
  obtain ⟨req, hreq'⟩ := Option.isSome_iff_exists.mp hparse
  cases halloc : allocSlot m with
  | some i =>
    rw [sessmgrOnTftp_open (opens_eq_some.mpr ⟨hlen, hreq, hacl, hreq', halloc⟩)]
    rfl
  | none => simp [sessmgrOnTftp, Nat.not_lt.mpr hlen, hreq, onRequest, hacl, hreq', halloc, replyBusy]

/-- **Sessions and the listen port.**  A frame that is not an acceptable request to the listen port
    opens nothing in the C engine, if and only if it is not an acceptable request to another port;
    in the Python engine it never does, and a session is only entered for a request accepted
    there. -/
theorem opened_through_listen_port (rt : Runtime) (pkt : Bytes) (srv : Py.TftpServer) :
    ((∀ now env, (¬ ∃ v, ListenRequest rt pkt v) →
        NoNewSession rt.sess (onPkt rt now env pkt).1.sess) ↔ ¬ ∃ v, Misrouted rt pkt v) ∧
    (∀ p, ¬ Py.ListenRequest srv p → Py.NoNewSession srv (Py.handle srv p).2.1) ∧
    (∀ e key s, (key, s) ∈ (Py.serverStep srv e).sessions → key ∉ srv.sessions.map (·.1) →
      ∃ t ∈ srv.tasks, s.packet = t.packet ∧
        key = ⟨t.packet.ethSrc, t.packet.ipSrc, t.packet.udpSport, key.serverPort,
          t.packet.vlanId⟩) := by
  refine ⟨?_, Py.handle_noNewSession srv, fun e _ _ => Py.serverStep_new_key srv e⟩
  constructor
  · rintro h ⟨v, hv⟩
    have hno : ¬ ∃ v, ListenRequest rt pkt v := by
      rintro ⟨v', hv'⟩
      have hvv : v = v' := Option.some.inj (hv.datagram.symm.trans hv'.datagram)
      exact hv.toOther (hvv ▸ hv'.toPort)
    have htid := (h clock0 uploadEnv hno).tids
    rw [onPkt_sess, hv.datagram] at htid
    rw [sessmgrOnTftp_takes_tid _ _ _ _ _ hv.request.1 hv.request.2 hv.allowed hv.parsed] at htid
    simp at htid
  · intro h now env hno
    rw [onPkt_sess]
    cases hd : datagram rt.sess.cfg pkt with
    | none => exact .refl _
    | some v =>
      refine sessmgrOnTftp_noNewSession _ _ _ _ _ fun ⟨hlen, hreq, hacl, hparse⟩ => ?_
      by_cases hport : v.dstPort = rt.sess.cfg.tftpPort
      · exact hno ⟨v, hd, hport, ⟨hlen, hreq⟩, hacl, hparse⟩
      · exact h ⟨v, hd, hport, ⟨hlen, hreq⟩, hacl, hparse⟩

/-- The engine at 10.0.0.9, listening on port 69, with no sessions. -/
def listening : Runtime :=
  ⟨sessmgrNew { uploadConfig with virtualIp := 0x0A000009 }, 0, 0, 0, 0⟩

/-- 10.0.0.1:2000 to 10.0.0.9:5000, an upload request. -/
def strayRequest : Bytes :=
  List.replicate 6 0 ++ List.replicate 6 1 ++ [0x08, 0x00] ++
  [0x45, 0, 0, 38, 0, 0, 0, 0, 64, 17, 0, 0, 10, 0, 0, 1, 10, 0, 0, 9] ++
  [0x07, 0xD0, 0x13, 0x88, 0, 18, 0, 0] ++ requestBytes 2 []

/-- It opens a session and takes a TID. -/
theorem stray_request_opens_session :
    (datagram listening.sess.cfg strayRequest).map (·.dstPort) = some 5000 ∧
    listening.sess.cfg.tftpPort = 69 ∧
    (onPkt listening clock0 uploadEnv strayRequest).1.sess.nextServerTid = 1 ∧
    ((onPkt listening clock0 uploadEnv strayRequest).1.sess.slots slot0).state = .recvWrq := by
  decide

end Nishro

import NishroTftp.Py.Acl
/-
  The dispatcher of the Python engine (`tftp/server.py`): the session table, the TID pool and the
  admission of new requests.

  `handle` runs to its end without waiting.  A new request becomes a task (`_accept`), which runs
  later: it looks at the session cap, may wait for a place, draws a TID and enters the session.
  Between two awaits it is not interrupted, so a task that is scheduled makes one step, `resume`.
  The lock around the TID pool is never held across an await and does not show.

  A task and a session carry what the request was accepted on, `Accepted`: a value of it can only
  be built for a request that went through the checks of `handle`.
-/
namespace Nishro.Py

def TFTP_SESSION_QUEUE_MAX : Nat := 256
def TID_DRAWS : Nat := 1000

/-- `ParsedPacket`, the fields the dispatcher reads. -/
structure Packet where
  ethSrc : Mac
  vlanId : Option UInt16
  vlanPcp : UInt8
  vlanDei : UInt8
  isUdp : Bool
  ipSrc : UInt32
  ipDst : UInt32
  udpSport : UInt16
  udpDport : UInt16
  udpPayload : Bytes

structure SessionKey where
  clientMac : Mac
  clientIp : UInt32
  clientPort : UInt16
  serverPort : UInt16
  vlanId : Option UInt16
deriving DecidableEq

/-- The key of the session a packet belongs to. -/
def Packet.probe (p : Packet) : SessionKey := ⟨p.ethSrc, p.ipSrc, p.udpSport, p.udpDport, p.vlanId⟩

/-- The verdict of an access list on a TFTP packet. -/
def ACL.checkPacket (acl : ACL) (p : Packet) : Option Denial :=
  acl.check (str "tftp") (p.vlanId.map fun v => (v.toNat : Int)) p.ipSrc

/-- On what grounds a request was accepted: it came as UDP to the virtual IP and the listen port of
    the time, it parsed, and the access lists of the time let it pass. -/
structure Accepted (p : Packet) (req : Request) where
  virtualIp : UInt32
  listenPort : Int
  acl : ACL
  udp : p.isUdp = true
  toIp : p.ipDst = virtualIp
  toPort : (p.udpDport.toNat : Int) = listenPort
  allowed : acl.checkPacket p = none
  parsed : parseRequest p.udpPayload = .ok req

/-- A session, as far as the dispatcher knows it: the request it runs for, its inbound queue. -/
structure Sess where
  packet : Packet
  request : Request
  accepted : Accepted packet request
  queue : List Bytes

/-- How far an `_accept` task is: not started, or waiting for a place under a cap it has read. -/
inductive Phase
  | fresh
  | waiting (maxConcurrent : Int)

/-- A pending `_accept(p, req)`. -/
structure Task where
  packet : Packet
  request : Request
  accepted : Accepted packet request
  phase : Phase

structure Stats where
  aclDenied : Nat := 0
  vlanDenied : Nat := 0
  ipDenied : Nat := 0
  tftpErrors : Nat := 0
  tftpSessionsTotal : Nat := 0

structure TftpServer where
  virtualIp : UInt32
  listenPort : Int
  /-- `sessions.max_concurrent` -/
  maxConcurrent : Int
  /-- `sessions.overflow_policy` is "reject" -/
  overflowReject : Bool
  acl : ACL
  sessions : List (SessionKey × Sess)
  tidPool : List UInt16
  tasks : List Task
  stats : Stats

/-- An ERROR sent outside any session, from the listen port. -/
structure ErrorReply where
  packet : Packet
  error : TFTPError

/-- `_send_error_on_request`. -/
def sendErrorOnRequest (srv : TftpServer) (p : Packet) (e : TFTPError) :
    TftpServer × List ErrorReply :=
  ({ srv with stats := { srv.stats with tftpErrors := srv.stats.tftpErrors + 1 } }, [⟨p, e⟩])

/-- `TftpSession.feed`: a full queue drops the packet. -/
def Sess.feed (payload : Bytes) (s : Sess) : Sess :=
  if s.queue.length < TFTP_SESSION_QUEUE_MAX then { s with queue := s.queue ++ [payload] } else s

/-- `self.sessions.get(key)`. -/
def TftpServer.get (srv : TftpServer) (key : SessionKey) : Option Sess :=
  (srv.sessions.find? (·.1 == key)).map (·.2)

/-- Feed a packet to the session with this key. -/
def TftpServer.feed (srv : TftpServer) (key : SessionKey) (payload : Bytes) : TftpServer :=
  { srv with sessions := srv.sessions.map fun ks => if ks.1 = key then (ks.1, ks.2.feed payload) else ks }

/-- Count a denial. -/
def bumpDenied (d : Denial) (s : Stats) : Stats :=
  let s := { s with aclDenied := s.aclDenied + 1 }
  match d with
  | .vlan => { s with vlanDenied := s.vlanDenied + 1 }
  | .ip => { s with ipDenied := s.ipDenied + 1 }

/-- The second half of `handle`: a packet to the listen port that belongs to no session. -/
def handleNew (srv : TftpServer) (p : Packet) (hu : p.isUdp = true) (hip : p.ipDst = srv.virtualIp)
    (hport : (p.udpDport.toNat : Int) = srv.listenPort) : TftpServer × List ErrorReply :=
  match hacl : srv.acl.checkPacket p with
  | some d => ({ srv with stats := bumpDenied d srv.stats }, [])
  | none =>
    match hreq : parseRequest p.udpPayload with
    | .error e => sendErrorOnRequest srv p e
    | .ok req =>
      let acc : Accepted p req := ⟨srv.virtualIp, srv.listenPort, srv.acl, hu, hip, hport, hacl, hreq⟩
      ({ srv with tasks := srv.tasks ++ [⟨p, req, acc, .fresh⟩] }, [])

/-- `TftpServer.handle`: was the packet for the TFTP service, and what becomes of the server. -/
def handle (srv : TftpServer) (p : Packet) : Bool × TftpServer × List ErrorReply :=
  if hu : p.isUdp = true ∧ p.ipDst = srv.virtualIp then
    if (srv.get p.probe).isSome then (true, srv.feed p.probe p.udpPayload, [])
    else if hport : (p.udpDport.toNat : Int) = srv.listenPort then
      (true, handleNew srv p hu.1 hu.2 hport)
    else (true, srv, [])    -- not ours, but on our IP: swallow
  else (false, srv, [])

/-! ## Tasks -/

/-- `_alloc_tid`, given the numbers `random.randint` draws. -/
def allocTid (srv : TftpServer) (draws : List UInt16) : Option UInt16 :=
  (draws.take TID_DRAWS).find? fun t =>
    ! srv.tidPool.contains t && decide ((t.toNat : Int) ≠ srv.listenPort)

/-- A task with a place: draw a TID and enter the session.  With no TID to be had the task dies. -/
def enterSession (srv : TftpServer) (t : Task) (draws : List UInt16) : TftpServer :=
  match allocTid srv draws with
  | none => srv
  | some tid =>
    let key : SessionKey := ⟨t.packet.ethSrc, t.packet.ipSrc, t.packet.udpSport, tid, t.packet.vlanId⟩
    { srv with
      tidPool := tid :: srv.tidPool
      sessions := srv.sessions.filter (·.1 ≠ key) ++ [(key, ⟨t.packet, t.request, t.accepted, []⟩)]
      stats := { srv.stats with tftpSessionsTotal := srv.stats.tftpSessionsTotal + 1 } }

def serverBusy : TFTPError := ⟨ERR_UNDEFINED, str "server busy"⟩

/-- The cap a task compares with: it reads the configuration when it starts. -/
def Task.cap (srv : TftpServer) (t : Task) : Int :=
  match t.phase with
  | .fresh => srv.maxConcurrent
  | .waiting c => c

/-- One step of the task `t`, which is no longer in `srv.tasks`: the cap, then a place or an end. -/
def acceptStep (srv : TftpServer) (t : Task) (timedOut : Bool) (draws : List UInt16) :
    TftpServer × List ErrorReply :=
  if t.cap srv ≤ (srv.sessions.length : Int) then
    match t.phase with
    | .fresh =>
      if srv.overflowReject || timedOut then sendErrorOnRequest srv t.packet serverBusy
      else ({ srv with tasks := srv.tasks ++ [{ t with phase := .waiting (t.cap srv) }] }, [])
    | .waiting _ =>
      if timedOut then sendErrorOnRequest srv t.packet serverBusy
      else ({ srv with tasks := srv.tasks ++ [t] }, [])
  else (enterSession srv t draws, [])

/-- What can happen to the dispatcher. -/
inductive ServerEvent
  | packet (p : Packet)
  /-- task `k` is scheduled; its wait is over if `timedOut`; `draws` is what the TID is drawn from -/
  | resume (k : Nat) (timedOut : Bool) (draws : List UInt16)
  /-- `_on_complete` -/
  | complete (key : SessionKey)
  /-- `update`, and a reloaded ACL -/
  | reconfigure (virtualIp : UInt32) (listenPort maxConcurrent : Int) (overflowReject : Bool) (acl : ACL)

def serverStep (srv : TftpServer) : ServerEvent → TftpServer
  | .packet p => (handle srv p).2.1
  | .resume k timedOut draws =>
    match srv.tasks[k]? with
    | none => srv
    | some t => (acceptStep { srv with tasks := srv.tasks.eraseIdx k } t timedOut draws).1
  | .complete key =>
    { srv with
      sessions := srv.sessions.filter (·.1 ≠ key)
      tidPool := srv.tidPool.filter (· ≠ key.serverPort) }
  | .reconfigure virtualIp listenPort maxConcurrent overflowReject acl =>
    { srv with virtualIp, listenPort, maxConcurrent, overflowReject, acl }

/-! ## What `handle` touches -/

/-- A request to the listen port that every check lets pass. -/
structure ListenRequest (srv : TftpServer) (p : Packet) : Prop where
  udp : p.isUdp = true
  toIp : p.ipDst = srv.virtualIp
  toPort : (p.udpDport.toNat : Int) = srv.listenPort
  allowed : srv.acl.checkPacket p = none
  parsed : ∃ req, parseRequest p.udpPayload = .ok req

/-- No session is entered or about to be, and no TID is taken. -/
structure NoNewSession (srv srv' : TftpServer) : Prop where
  keys : srv'.sessions.map (·.1) = srv.sessions.map (·.1)
  tids : srv'.tidPool = srv.tidPool
  tasks : srv'.tasks = srv.tasks

theorem NoNewSession.refl (srv : TftpServer) : NoNewSession srv srv := ⟨rfl, rfl, rfl⟩

theorem feed_keys (srv : TftpServer) (key : SessionKey) (payload : Bytes) :
    (srv.feed key payload).sessions.map (·.1) = srv.sessions.map (·.1) := by
  simp only [TftpServer.feed, List.map_map]
  refine List.map_congr_left fun ks _ => ?_
  simp only [Function.comp]
  split <;> rfl

/-- What `handle` makes of the server: the packet goes to its session, a request to the listen port
    becomes a task, and anything else shows in the counters at most. -/
theorem handle_cases (srv : TftpServer) (p : Packet) :
    (handle srv p).2.1 = srv.feed p.probe p.udpPayload ∨
    (∃ stats, (handle srv p).2.1 = { srv with stats }) ∨
    ListenRequest srv p ∧ ∃ t, t.phase = .fresh ∧
      (handle srv p).2.1 = { srv with tasks := srv.tasks ++ [t] } := by
  unfold handle
  split
  · rename_i hu
    split
    · exact .inl rfl
    split
    · rename_i hport
      simp only [handleNew]
      split
      · exact .inr (.inl ⟨_, rfl⟩)
      · rename_i hacl
        split
        · exact .inr (.inl ⟨_, rfl⟩)
        · rename_i req hreq
          exact .inr (.inr ⟨⟨hu.1, hu.2, hport, hacl, req, hreq⟩, _, rfl, rfl⟩)
    · exact .inr (.inl ⟨_, rfl⟩)
  · exact .inr (.inl ⟨_, rfl⟩)

/-- `handle` itself enters no session. -/
theorem handle_keys (srv : TftpServer) (p : Packet) :
    (handle srv p).2.1.sessions.map (·.1) = srv.sessions.map (·.1) := by
  rcases handle_cases srv p with h | ⟨stats, h⟩ | ⟨-, t, -, h⟩ <;> rw [h]
  exact feed_keys srv _ _

/-- Only a request to the listen port can start a task. -/
theorem handle_noNewSession (srv : TftpServer) (p : Packet) (h : ¬ ListenRequest srv p) :
    NoNewSession srv (handle srv p).2.1 := by
  rcases handle_cases srv p with heq | ⟨stats, heq⟩ | ⟨hlisten, -⟩
  · rw [heq]
    exact ⟨feed_keys srv _ _, rfl, rfl⟩
  · rw [heq]
    exact ⟨rfl, rfl, rfl⟩
  · exact absurd hlisten h

theorem feed_get_of_ne (srv : TftpServer) {key k : SessionKey} (payload : Bytes) (h : k ≠ key) :
    (srv.feed key payload).get k = srv.get k := by
  simp only [TftpServer.get, TftpServer.feed]
  induction srv.sessions with
  | nil => rfl
  | cons ks rest ih =>
    by_cases hk : ks.1 = k
    · have hne : ks.1 ≠ key := hk ▸ h
      rw [List.map_cons, if_neg hne, List.find?_cons_of_pos (by simp [hk]),
        List.find?_cons_of_pos (by simp [hk])]
    · have hk' : (if ks.1 = key then (ks.1, ks.2.feed payload) else ks).1 ≠ k := by
        split <;> exact hk
      simp only [List.map_cons, List.find?_cons]
      rw [beq_false_of_ne hk', beq_false_of_ne hk]
      exact ih

variable {key : SessionKey}

/-- A packet is only ever handed to the session with its five-field key. -/
theorem handle_get_of_ne (srv : TftpServer) (p : Packet) (h : key ≠ p.probe) :
    (handle srv p).2.1.get key = srv.get key := by
  rcases handle_cases srv p with heq | ⟨stats, heq⟩ | ⟨-, t, -, heq⟩ <;> rw [heq]
  · exact feed_get_of_ne srv _ h
  · rfl
  · rfl

theorem enterSession_new {srv : TftpServer} {t : Task} {draws : List UInt16} {s : Sess}
    (hs : (key, s) ∈ (enterSession srv t draws).sessions) (hnew : key ∉ srv.sessions.map (·.1)) :
    s.packet = t.packet ∧
      key = ⟨t.packet.ethSrc, t.packet.ipSrc, t.packet.udpSport, key.serverPort, t.packet.vlanId⟩ := by
  unfold enterSession at hs
  split at hs
  · exact absurd (List.mem_map_of_mem hs) hnew
  · rcases List.mem_append.mp hs with hs | hs
    · exact absurd (List.mem_map_of_mem (List.mem_filter.mp hs).1) hnew
    · obtain ⟨rfl, rfl⟩ := Prod.mk.injEq .. ▸ List.mem_singleton.mp hs
      exact ⟨rfl, rfl⟩

theorem acceptStep_new {srv : TftpServer} {t : Task} {timedOut : Bool} {draws : List UInt16}
    {s : Sess} (hs : (key, s) ∈ (acceptStep srv t timedOut draws).1.sessions)
    (hnew : key ∉ srv.sessions.map (·.1)) :
    s.packet = t.packet ∧
      key = ⟨t.packet.ethSrc, t.packet.ipSrc, t.packet.udpSport, key.serverPort, t.packet.vlanId⟩ := by
  have hold : (key, s) ∈ srv.sessions → False := fun h => hnew (List.mem_map_of_mem h)
  unfold acceptStep at hs
  split at hs
  · split at hs
    · split at hs <;> exact (hold hs).elim
    · split at hs <;> exact (hold hs).elim
  · exact enterSession_new hs hnew

/-- A session is only ever entered by a task, under the addresses of the task's packet. -/
theorem serverStep_new_key (srv : TftpServer) (e : ServerEvent) {s : Sess}
    (hs : (key, s) ∈ (serverStep srv e).sessions) (hnew : key ∉ srv.sessions.map (·.1)) :
    ∃ t ∈ srv.tasks, s.packet = t.packet ∧
      key = ⟨t.packet.ethSrc, t.packet.ipSrc, t.packet.udpSport, key.serverPort, t.packet.vlanId⟩ := by
  have hkey : key ∈ (serverStep srv e).sessions.map (·.1) := List.mem_map_of_mem hs
  cases e with
  | packet p =>
    exact absurd (handle_keys srv p ▸ hkey) hnew
  | complete k =>
    refine absurd ?_ hnew
    exact List.mem_map_of_mem (List.mem_filter.mp hs).1
  | reconfigure _ _ _ _ _ => exact absurd hkey hnew
  | resume k timedOut draws =>
    simp only [serverStep] at hs
    split at hs
    · exact absurd (List.mem_map_of_mem hs) hnew
    · rename_i t ht
      exact ⟨t, List.mem_of_getElem? ht, acceptStep_new hs hnew⟩

end Nishro.Py

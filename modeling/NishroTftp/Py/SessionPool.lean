import NishroTftp.Lib.Runs
import NishroTftp.Py.Engine
import NishroTftp.Py.Session
import Mathlib.Data.List.Nodup
import Mathlib.Data.List.Perm.Basic
/-
  The session table and the TID pool over whole runs of the event loop.

  Between two steps of the event loop there are requests waiting to be accepted (`srv.tasks`) and
  session coroutines that have been started and have not ended (`running`).  The dispatcher's table
  and its pool of TIDs are kept by hand: entered in `_accept`, cleared in `_on_complete`, which
  every session calls once, when its coroutine ends.  The cap is checked by tasks that all wake up
  for the same free place; what saves it is that a task which has seen a place enters its session
  before any other task runs.

  Sessions are numbered in the order they are entered.
-/
namespace Nishro.Py

open Utf8 (Text text)
open Nishro.Runs

def TFTP_TID_MIN : Nat := 10000
def TFTP_TID_MAX : Nat := 65500

/-- What `random.randint(TFTP_TID_MIN, TFTP_TID_MAX)` can give. -/
def Tid : Type := { t : UInt16 // TFTP_TID_MIN ≤ t.toNat ∧ t.toNat ≤ TFTP_TID_MAX }

/-! ## `_on_complete` -/

def hexCode (n : Nat) : Nat := if n < 10 then 48 + n else 87 + n

/-- A MAC address as a text: lower-case hex with colons. -/
def macText (mac : Mac) : Text :=
  ((mac.toList.map fun b => [hexCode (b.toNat / 16), hexCode (b.toNat % 16)]).intersperse [58]).flatten

/-- What `_on_complete` tells the daily totals. -/
def completeRecord (info : SessionInfo) : DayRecord where
  success := info.state == str "done"
  serverFault := info.serverFault
  bytesSent := if info.kind = str "RRQ" then info.bytesTransferred else 0
  bytesReceived := if info.kind = str "WRQ" then info.bytesTransferred else 0
  filename := some (.str (codes info.filename))
  clientMac := some (.str (macText info.clientMac))

/-- A session coroutine that has not ended. -/
structure SessionTask where
  number : Nat
  key : SessionKey

structure Loop where
  srv : TftpServer
  running : List SessionTask
  /-- how many sessions have been entered -/
  entered : Nat
  sessionHistory : List SessionInfo
  /-- the calls of `daily_stats.record`, with the number of the session -/
  recorded : List (Nat × DayRecord)

/-- `_on_complete`, called by the session `t`. -/
def onComplete (l : Loop) (t : SessionTask) (info : SessionInfo) : Loop :=
  { l with
    srv := serverStep l.srv (.complete t.key)
    sessionHistory := (info :: l.sessionHistory).take HISTORY_MAX
    recorded := l.recorded ++ [(t.number, completeRecord info)] }

/-! ## Steps of the event loop -/

/-- The key of the session that a scheduled task enters, if it finds a place and a TID. -/
def placed (srv : TftpServer) (t : Task) (draws : List UInt16) : Option SessionKey :=
  if t.cap srv ≤ (srv.sessions.length : Int) then none
  else (allocTid srv draws).map fun tid =>
    ⟨t.packet.ethSrc, t.packet.ipSrc, t.packet.udpSport, tid, t.packet.vlanId⟩

inductive LoopEvent
  | packet (p : Packet)
  /-- the `k`-th pending request is scheduled; `timedOut` if its time in the queue is over -/
  | resume (k : Nat) (timedOut : Bool) (draws : Nat → Tid)
  /-- the coroutine of the `i`-th running session ends, well or not -/
  | finish (i : Nat) (info : SessionInfo)

/-- The numbers drawn for one TID. -/
def drawn (draws : Nat → Tid) : List UInt16 := (List.range TID_DRAWS).map fun n => (draws n).val

def loopStep (l : Loop) : LoopEvent → Loop
  | .packet p => { l with srv := serverStep l.srv (.packet p) }
  | .resume k timedOut draws =>
    let srv := serverStep l.srv (.resume k timedOut (drawn draws))
    match l.srv.tasks[k]?.bind fun t => placed l.srv t (drawn draws) with
    | some key =>
      { l with srv, running := l.running ++ [⟨l.entered, key⟩], entered := l.entered + 1 }
    | none => { l with srv }
  | .finish i info =>
    match l.running[i]? with
    | some t => { onComplete l t info with running := l.running.eraseIdx i }
    | none => l

/-- A server that has just been started. -/
def Loop.new (virtualIp : UInt32) (listenPort maxConcurrent : Int) (overflowReject : Bool)
    (acl : ACL) : Loop where
  srv := ⟨virtualIp, listenPort, maxConcurrent, overflowReject, acl, [], [], [], {}⟩
  running := []
  entered := 0
  sessionHistory := []
  recorded := []

/-! ## The invariant -/

/-- The ports of the sessions in the table. -/
def TftpServer.ports (srv : TftpServer) : List UInt16 := srv.sessions.map (·.1.serverPort)

theorem TftpServer.ports_eq (srv : TftpServer) :
    srv.ports = (srv.sessions.map (·.1)).map (·.serverPort) :=
  (List.map_map ..).symm

/-- Table and pool are sound for the cap `M` and the listen port `L`. -/
structure PoolSound (M L : Int) (l : Loop) : Prop where
  /-- at most `M` sessions -/
  cap : l.srv.sessions.length ≤ M.toNat
  /-- on distinct ports -/
  distinct : l.srv.ports.Nodup
  range : ∀ p ∈ l.srv.ports, TFTP_TID_MIN ≤ p.toNat ∧ p.toNat ≤ TFTP_TID_MAX
  notListen : ∀ p ∈ l.srv.ports, (p.toNat : Int) ≠ L
  /-- the pool is the set of these ports -/
  pool : ∀ p, p ∈ l.srv.tidPool ↔ p ∈ l.srv.ports
  /-- a session is in the table as long as it runs -/
  table : l.srv.sessions.map (·.1) = l.running.map (·.key)
  /-- each session that was entered runs, or has been recorded, once -/
  accounted : (l.recorded.map (·.1) ++ l.running.map (·.number)).Perm (List.range l.entered)

/-- What a fixed configuration adds: every pending request compares with the same cap. -/
structure Steady (M L : Int) (l : Loop) : Prop where
  maxConcurrent : l.srv.maxConcurrent = M
  listenPort : l.srv.listenPort = L
  caps : ∀ t ∈ l.srv.tasks, t.cap l.srv = M

/-! ## Requests arriving -/

/-- A packet leaves the pool and the configuration alone; it may leave a new request. -/
theorem handle_frame (srv : TftpServer) (p : Packet) :
    (handle srv p).2.1.tidPool = srv.tidPool ∧
      (handle srv p).2.1.maxConcurrent = srv.maxConcurrent ∧
      (handle srv p).2.1.listenPort = srv.listenPort ∧
      ∀ t ∈ (handle srv p).2.1.tasks, t ∈ srv.tasks ∨ t.phase = .fresh := by
  rcases handle_cases srv p with heq | ⟨stats, heq⟩ | ⟨-, t, hfresh, heq⟩ <;> rw [heq]
  · exact ⟨rfl, rfl, rfl, fun t ht => .inl ht⟩
  · exact ⟨rfl, rfl, rfl, fun t ht => .inl ht⟩
  · refine ⟨rfl, rfl, rfl, fun t' ht => ?_⟩
    rcases List.mem_append.1 ht with ht | ht
    · exact .inl ht
    · rw [List.mem_singleton.1 ht]
      exact .inr hfresh

theorem cap_congr {srv srv' : TftpServer} (h : srv'.maxConcurrent = srv.maxConcurrent) (t : Task) :
    t.cap srv' = t.cap srv := by
  unfold Task.cap
  split
  · exact h
  · rfl

theorem steady_packet {M L : Int} {l : Loop} (h : Steady M L l) (p : Packet) :
    Steady M L (loopStep l (.packet p)) := by
  obtain ⟨-, hmax, hlisten, htasks⟩ := handle_frame l.srv p
  refine ⟨hmax.trans h.maxConcurrent, hlisten.trans h.listenPort, fun t ht => ?_⟩
  rcases htasks t ht with hold | hfresh
  · exact (cap_congr hmax t).trans (h.caps t hold)
  · have hcap : t.cap (loopStep l (.packet p)).srv = (handle l.srv p).2.1.maxConcurrent := by
      simp only [Task.cap, hfresh]
      rfl
    exact hcap.trans (hmax.trans h.maxConcurrent)

/-- The table as a list of keys, and the pool, are all that soundness is about. -/
theorem PoolSound.congr {M L : Int} {l l' : Loop} (h : PoolSound M L l)
    (hkeys : l'.srv.sessions.map (·.1) = l.srv.sessions.map (·.1))
    (hpool : l'.srv.tidPool = l.srv.tidPool) (hrunning : l'.running = l.running)
    (hentered : l'.entered = l.entered) (hrecorded : l'.recorded = l.recorded) :
    PoolSound M L l' := by
  have hports : l'.srv.ports = l.srv.ports := by
    rw [TftpServer.ports_eq, TftpServer.ports_eq, hkeys]
  have hlen : l'.srv.sessions.length = l.srv.sessions.length := by
    simpa using congrArg List.length hkeys
  constructor
  · rw [hlen]
    exact h.cap
  · rw [hports]
    exact h.distinct
  · rw [hports]
    exact h.range
  · rw [hports]
    exact h.notListen
  · rw [hports, hpool]
    exact h.pool
  · rw [hkeys, hrunning]
    exact h.table
  · rw [hrunning, hentered, hrecorded]
    exact h.accounted

/-! ## Requests scheduled -/

/-- A TID that is allocated is one of the numbers drawn, is free and is not the listen port. -/
theorem allocTid_spec {srv : TftpServer} {draws : List UInt16} {tid : UInt16}
    (h : allocTid srv draws = some tid) :
    tid ∈ draws ∧ tid ∉ srv.tidPool ∧ (tid.toNat : Int) ≠ srv.listenPort := by
  have hmem := List.mem_of_find?_eq_some h
  have hsome := List.find?_some h
  simp only [Bool.and_eq_true, Bool.not_eq_true', decide_eq_true_eq] at hsome
  refine ⟨List.mem_of_mem_take hmem, ?_, hsome.2⟩
  simpa using hsome.1

section Resume

variable {srv : TftpServer} {k : Nat} {t : Task} (timedOut : Bool) {draws : List UInt16}

/-- A request that finds no place, or no TID: it waits on, is answered or dies. -/
theorem resume_unplaced (ht : srv.tasks[k]? = some t) (hp : placed srv t draws = none) :
    (serverStep srv (.resume k timedOut draws)).sessions = srv.sessions ∧
      (serverStep srv (.resume k timedOut draws)).tidPool = srv.tidPool ∧
      (serverStep srv (.resume k timedOut draws)).maxConcurrent = srv.maxConcurrent ∧
      (serverStep srv (.resume k timedOut draws)).listenPort = srv.listenPort ∧
      ∀ t' ∈ (serverStep srv (.resume k timedOut draws)).tasks,
        t' ∈ srv.tasks ∨ t'.phase = .waiting (t.cap srv) := by
  have herase : ∀ t' ∈ srv.tasks.eraseIdx k, t' ∈ srv.tasks ∨ t'.phase = .waiting (t.cap srv) :=
    fun t' ht' => .inl (List.mem_of_mem_eraseIdx ht')
  simp only [serverStep, ht]
  unfold acceptStep
  split
  · split
    · split
      · exact ⟨rfl, rfl, rfl, rfl, herase⟩
      · refine ⟨rfl, rfl, rfl, rfl, fun t' ht' => ?_⟩
        rcases List.mem_append.1 ht' with ht' | ht'
        · exact herase t' ht'
        · rw [List.mem_singleton.1 ht']
          exact .inr rfl
    · split
      · exact ⟨rfl, rfl, rfl, rfl, herase⟩
      · refine ⟨rfl, rfl, rfl, rfl, fun t' ht' => ?_⟩
        rcases List.mem_append.1 ht' with ht' | ht'
        · exact herase t' ht'
        · rw [List.mem_singleton.1 ht']
          exact .inl (List.mem_of_getElem? ht)
  · rename_i hcap
    have hcap' : ¬ t.cap srv ≤ (srv.sessions.length : Int) := hcap
    have halloc : allocTid srv draws = none := by
      rw [placed, if_neg hcap'] at hp
      exact Option.map_eq_none_iff.1 hp
    have halloc' : allocTid { srv with tasks := srv.tasks.eraseIdx k } draws = none := halloc
    rw [enterSession, halloc']
    exact ⟨rfl, rfl, rfl, rfl, herase⟩

/-- A request that finds both enters its session in the same step. -/
theorem resume_placed {key : SessionKey} (ht : srv.tasks[k]? = some t)
    (hp : placed srv t draws = some key) :
    (srv.sessions.length : Int) < t.cap srv ∧ allocTid srv draws = some key.serverPort ∧
      (∃ s, (serverStep srv (.resume k timedOut draws)).sessions =
        srv.sessions.filter (·.1 ≠ key) ++ [(key, s)]) ∧
      (serverStep srv (.resume k timedOut draws)).tidPool = key.serverPort :: srv.tidPool ∧
      (serverStep srv (.resume k timedOut draws)).maxConcurrent = srv.maxConcurrent ∧
      (serverStep srv (.resume k timedOut draws)).listenPort = srv.listenPort ∧
      ∀ t' ∈ (serverStep srv (.resume k timedOut draws)).tasks, t' ∈ srv.tasks := by
  rw [placed] at hp
  split at hp
  · cases hp
  rename_i hcap
  obtain ⟨tid, halloc, rfl⟩ := Option.map_eq_some_iff.1 hp
  have hcap' : ¬ t.cap { srv with tasks := srv.tasks.eraseIdx k } ≤ (srv.sessions.length : Int) :=
    hcap
  have halloc' : allocTid { srv with tasks := srv.tasks.eraseIdx k } draws = some tid := halloc
  have hstep : serverStep srv (.resume k timedOut draws) =
      enterSession { srv with tasks := srv.tasks.eraseIdx k } t draws := by
    simp only [serverStep, ht, acceptStep, if_neg hcap']
  refine ⟨Int.not_le.1 hcap, halloc, ?_⟩
  rw [hstep, enterSession, halloc']
  exact ⟨⟨_, rfl⟩, rfl, rfl, rfl, fun t' ht' => List.mem_of_mem_eraseIdx ht'⟩

end Resume

theorem steady_resume {M L : Int} {l : Loop} (h : Steady M L l) (k : Nat) (timedOut : Bool)
    (draws : Nat → Tid) : Steady M L (loopStep l (.resume k timedOut draws)) := by
  have hsrv : (loopStep l (.resume k timedOut draws)).srv =
      serverStep l.srv (.resume k timedOut (drawn draws)) := by
    simp only [loopStep]
    split <;> rfl
  cases ht : l.srv.tasks[k]? with
  | none =>
    have hstay : serverStep l.srv (.resume k timedOut (drawn draws)) = l.srv := by
      simp only [serverStep, ht]
    exact ⟨by rw [hsrv, hstay, h.maxConcurrent], by rw [hsrv, hstay, h.listenPort],
      by rw [hsrv, hstay]; exact h.caps⟩
  | some t =>
    have hcap := h.caps t (List.mem_of_getElem? ht)
    cases hp : placed l.srv t (drawn draws) with
    | none =>
      obtain ⟨-, -, hmax, hlisten, htasks⟩ := resume_unplaced timedOut ht hp
      rw [← hsrv] at hmax hlisten htasks
      refine ⟨hmax.trans h.maxConcurrent, hlisten.trans h.listenPort, fun t' ht' => ?_⟩
      rcases htasks t' ht' with hold | hwait
      · exact (cap_congr hmax t').trans (h.caps t' hold)
      · simp only [Task.cap, hwait]
        exact hcap
    | some key =>
      obtain ⟨-, -, -, -, hmax, hlisten, htasks⟩ := resume_placed timedOut ht hp
      rw [← hsrv] at hmax hlisten htasks
      exact ⟨hmax.trans h.maxConcurrent, hlisten.trans h.listenPort,
        fun t' ht' => (cap_congr hmax t').trans (h.caps t' (htasks t' ht'))⟩

/-- A key on a port that no session has is not in the table. -/
theorem filter_ne_of_fresh {srv : TftpServer} {key : SessionKey} (h : key.serverPort ∉ srv.ports) :
    srv.sessions.filter (·.1 ≠ key) = srv.sessions := by
  refine List.filter_eq_self.2 fun ks hks => decide_eq_true ?_
  rintro rfl
  exact h (List.mem_map_of_mem hks)

theorem sound_resume {M L : Int} {l : Loop} (h : PoolSound M L l) (hs : Steady M L l) (k : Nat)
    (timedOut : Bool) (draws : Nat → Tid) :
    PoolSound M L (loopStep l (.resume k timedOut draws)) := by
  cases ht : l.srv.tasks[k]? with
  | none =>
    have hstay : loopStep l (.resume k timedOut draws) = l := by
      simp only [loopStep, serverStep, ht, Option.bind]
    rw [hstay]
    exact h
  | some t =>
    cases hp : placed l.srv t (drawn draws) with
    | none =>
      obtain ⟨hsess, hpool, -⟩ := resume_unplaced timedOut ht hp
      have hstep : loopStep l (.resume k timedOut draws) =
          { l with srv := serverStep l.srv (.resume k timedOut (drawn draws)) } := by
        simp only [loopStep, ht, Option.bind, hp]
      rw [hstep]
      exact h.congr (congrArg (List.map (·.1)) hsess) hpool rfl rfl rfl
    | some key =>
      obtain ⟨hlt, halloc, ⟨s, hsess⟩, hpool, -⟩ := resume_placed timedOut ht hp
      obtain ⟨hdrawn, hfree, hlisten⟩ := allocTid_spec halloc
      have hfresh : key.serverPort ∉ l.srv.ports := fun hmem => hfree ((h.pool _).2 hmem)
      rw [filter_ne_of_fresh hfresh] at hsess
      have hstep : loopStep l (.resume k timedOut draws) =
          { l with srv := serverStep l.srv (.resume k timedOut (drawn draws))
                   running := l.running ++ [⟨l.entered, key⟩], entered := l.entered + 1 } := by
        simp only [loopStep, ht, Option.bind, hp]
      rw [hstep]
      generalize serverStep l.srv (.resume k timedOut (drawn draws)) = srv' at hsess hpool
      have hports : srv'.ports = l.srv.ports ++ [key.serverPort] := by
        simp [TftpServer.ports, hsess]
      constructor
      · have hcap := hs.caps t (List.mem_of_getElem? ht)
        simp only [hsess, List.length_append, List.length_singleton]
        omega
      · simp only [hports]
        exact List.nodup_append.2 ⟨h.distinct, List.nodup_singleton _, by
          intro p hp' q hq heq
          rw [List.mem_singleton.1 hq] at heq
          exact hfresh (heq ▸ hp')⟩
      · simp only [hports, List.mem_append, List.mem_singleton]
        rintro p (hp' | rfl)
        · exact h.range p hp'
        · obtain ⟨n, -, hn⟩ := List.mem_map.1 hdrawn
          rw [← hn]
          exact (draws n).property
      · simp only [hports, List.mem_append, List.mem_singleton]
        rintro p (hp' | rfl)
        · exact h.notListen p hp'
        · rw [← hs.listenPort]
          exact hlisten
      · intro p
        rw [hports, hpool, List.mem_append, List.mem_cons, List.mem_singleton, h.pool p]
        exact or_comm
      · simp only [hsess, List.map_append, h.table]
        rfl
      · simp only [List.map_append, List.range_succ, ← List.append_assoc]
        exact h.accounted.append_right _

/-! ## Sessions ending -/

theorem steady_finish {M L : Int} {l : Loop} (h : Steady M L l) (i : Nat) (info : SessionInfo) :
    Steady M L (loopStep l (.finish i info)) := by
  simp only [loopStep]
  split
  · exact ⟨h.maxConcurrent, h.listenPort, h.caps⟩
  · exact h

theorem filter_ne_eq_eraseIdx {α : Type} [DecidableEq α] {l : List α} {i : Nat} {a : α}
    (hnd : l.Nodup) (h : l[i]? = some a) : l.filter (· ≠ a) = l.eraseIdx i := by
  obtain ⟨hi, rfl⟩ := List.getElem?_eq_some_iff.1 h
  rw [← hnd.erase_getElem i hi, hnd.erase_eq_filter]
  refine List.filter_congr fun x _ => ?_
  by_cases hx : x = l[i] <;> simp [hx]

theorem sound_finish {M L : Int} {l : Loop} (h : PoolSound M L l) (i : Nat) (info : SessionInfo) :
    PoolSound M L (loopStep l (.finish i info)) := by
  cases hi : l.running[i]? with
  | none =>
    have hstay : loopStep l (.finish i info) = l := by simp only [loopStep, hi]
    rw [hstay]
    exact h
  | some t =>
    have hstep : loopStep l (.finish i info) =
        { onComplete l t info with running := l.running.eraseIdx i } := by
      simp only [loopStep, hi]
    have hkeys : (l.srv.sessions.map (·.1)).Nodup := by
      have := h.distinct
      rw [TftpServer.ports_eq] at this
      exact this.of_map
    have hkey : (l.srv.sessions.map (·.1))[i]? = some t.key := by
      rw [h.table, List.getElem?_map, hi]
      rfl
    have hport : l.srv.ports[i]? = some t.key.serverPort := by
      rw [TftpServer.ports_eq, List.getElem?_map, hkey]
      rfl
    -- the table loses the key of the session that ends, and nothing else
    have htable : ((l.srv.sessions.filter (·.1 ≠ t.key)).map (·.1)) =
        (l.srv.sessions.map (·.1)).eraseIdx i := by
      rw [← filter_ne_eq_eraseIdx hkeys hkey, List.filter_map]
      rfl
    have hports : (loopStep l (.finish i info)).srv.ports = l.srv.ports.eraseIdx i := by
      rw [hstep, TftpServer.ports_eq, TftpServer.ports_eq]
      simp only [onComplete, serverStep, htable]
      exact (List.eraseIdx_map _ _ _).symm
    have hsub : ∀ p ∈ (loopStep l (.finish i info)).srv.ports, p ∈ l.srv.ports := by
      intro p hp
      rw [hports] at hp
      exact List.mem_of_mem_eraseIdx hp
    constructor
    · have hlen : (loopStep l (.finish i info)).srv.sessions.length ≤ l.srv.sessions.length := by
        rw [hstep]
        exact List.length_filter_le ..
      exact hlen.trans h.cap
    · rw [hports]
      exact h.distinct.sublist (List.eraseIdx_sublist _ _)
    · exact fun p hp => h.range p (hsub p hp)
    · exact fun p hp => h.notListen p (hsub p hp)
    · intro p
      have hpool : (loopStep l (.finish i info)).srv.tidPool =
          l.srv.tidPool.filter (· ≠ t.key.serverPort) := by
        rw [hstep]
        rfl
      rw [hports, ← filter_ne_eq_eraseIdx h.distinct hport, hpool, List.mem_filter, List.mem_filter,
        h.pool p]
    · rw [hstep]
      simp only [onComplete, serverStep, htable, h.table]
      exact List.eraseIdx_map _ _ _
    · rw [hstep]
      obtain ⟨hlt, rfl⟩ := List.getElem?_eq_some_iff.1 hi
      refine .trans ?_ h.accounted
      simp only [onComplete, List.map_append, List.map_cons, List.map_nil, List.append_assoc]
      exact List.Perm.append_left _ ((List.getElem_cons_eraseIdx_perm hlt).map _)

/-! ## Every run -/

/-- One step of the event loop keeps table and pool sound. -/
theorem sound_step {M L : Int} (l : Loop) (e : LoopEvent) (h : PoolSound M L l ∧ Steady M L l) :
    PoolSound M L (loopStep l e) ∧ Steady M L (loopStep l e) := by
  cases e with
  | packet p =>
    exact ⟨h.1.congr (handle_keys l.srv p) (handle_frame l.srv p).1 rfl rfl rfl,
      steady_packet h.2 p⟩
  | resume k timedOut draws =>
    exact ⟨sound_resume h.1 h.2 k timedOut draws, steady_resume h.2 k timedOut draws⟩
  | finish i info => exact ⟨sound_finish h.1 i info, steady_finish h.2 i info⟩

/-- **The session table and the TID pool.**  Under a fixed configuration, in every state of every
    run of the event loop (any requests, both policies for a full server, any order in which
    waiting requests are scheduled, any sessions ending) there are at most `maxConcurrent` sessions
    in the table, on distinct ports between 10000 and 65500 other than the listen port; the pool is
    the set of these ports; the table has exactly the sessions that still run, and each session
    that has ended has been recorded once. -/
theorem session_pool_sound (virtualIp : UInt32) (listenPort maxConcurrent : Int)
    (overflowReject : Bool) (acl : ACL) (es : List LoopEvent) :
    Always loopStep (PoolSound maxConcurrent listenPort)
      (.new virtualIp listenPort maxConcurrent overflowReject acl) es := by
  have hnew : PoolSound maxConcurrent listenPort
      (.new virtualIp listenPort maxConcurrent overflowReject acl) := by
    refine ⟨Nat.zero_le _, List.nodup_nil, ?_, ?_, fun p => Iff.rfl, rfl, .nil⟩
    · intro p hp
      cases hp
    · intro p hp
      cases hp
  have hsteady : Steady maxConcurrent listenPort
      (.new virtualIp listenPort maxConcurrent overflowReject acl) := by
    refine ⟨rfl, rfl, ?_⟩
    intro t ht
    cases ht
  exact (always_of_step sound_step ⟨hnew, hsteady⟩ es).mono fun _ hl => hl.1

end Nishro.Py

import NishroTftp.CCore.Session
import NishroTftp.Lib.Runs
import NishroTftp.Py.Engine
import NishroTftp.Py.Stats
/-
  The counters of the dashboard (`core/stats.py`, `core/carryover.py`, `_stats_payload` of
  `web/app.py`, the end of `Nishro.run` in `main.py`).

  A counter lives in three places.  The Python engine counts in `STATS`.  The C engine counts for
  itself and reports now and then (`stat`); the last report is kept.  What an engine had counted
  when it was stopped is folded into the carryover.  The dashboard shows the sum of the running
  engine's count and the carryover.

  The C engine has NAMES of its own for six of the counters.  `_stats_payload` translates them,
  `carryover.add` does not: what the C engine counted under such a name is gone when it stops.

  A save that changes the engine stops the running one and the dashboard with it, so the engine in
  the configuration is the one that runs.
-/
namespace Nishro.Py

open Utf8 (Text text)
open Nishro.CCore (SessStats)
open Nishro.Runs

/-! ## The names of the C engine -/

/-- `c_to_py` of `_stats_payload`: the C engine's name and the counter. -/
def C_TO_PY : List (String × Counter) :=
  [("bytes_sent", .bytesSent), ("bytes_received", .bytesReceived), ("rrq", .tftpRrq),
    ("wrq", .tftpWrq), ("errors", .tftpErrors), ("sessions_total", .tftpSessionsTotal),
    ("sessions_completed", .tftpSessionsCompleted), ("sessions_failed", .tftpSessionsFailed),
    ("acl_denied", .aclDenied), ("arp_requests", .arpRequests), ("arp_replies", .arpReplies),
    ("icmp_requests", .icmpRequests), ("icmp_replies", .icmpReplies)]

/-! ## The `stat` event -/

/-- What the C engine reports: the counters of its sessions and of the main loop. -/
structure CoreCounters extends SessStats where
  arpRequests : UInt64 := 0
  arpReplies : UInt64 := 0
  icmpRequests : UInt64 := 0
  icmpReplies : UInt64 := 0

/-- `emit_stats`, as `json.loads` reads it. -/
def CoreCounters.event (c : CoreCounters) : Json :=
  .obj [(text "ev", .str (text "stat")),
    (text "bytes_sent", .int c.bytesSent.toNat), (text "bytes_received", .int c.bytesReceived.toNat),
    (text "sessions_active", .int c.sessionsActive.toNat),
    (text "sessions_total", .int c.sessionsTotal.toNat),
    (text "sessions_completed", .int c.sessionsCompleted.toNat),
    (text "sessions_failed", .int c.sessionsFailed.toNat),
    (text "rrq", .int c.rrqCount.toNat), (text "wrq", .int c.wrqCount.toNat),
    (text "errors", .int c.errorsSent.toNat), (text "acl_denied", .int c.aclDenied.toNat),
    (text "arp_requests", .int c.arpRequests.toNat), (text "arp_replies", .int c.arpReplies.toNat),
    (text "icmp_requests", .int c.icmpRequests.toNat),
    (text "icmp_replies", .int c.icmpReplies.toNat)]

/-- What the C engine has counted; it has no counters for the rest. -/
def CoreCounters.count (c : CoreCounters) : Counter → Nat
  | .bytesSent => c.bytesSent.toNat
  | .bytesReceived => c.bytesReceived.toNat
  | .tftpRrq => c.rrqCount.toNat
  | .tftpWrq => c.wrqCount.toNat
  | .tftpErrors => c.errorsSent.toNat
  | .tftpSessionsTotal => c.sessionsTotal.toNat
  | .tftpSessionsCompleted => c.sessionsCompleted.toNat
  | .tftpSessionsFailed => c.sessionsFailed.toNat
  | .aclDenied => c.aclDenied.toNat
  | .arpRequests => c.arpRequests.toNat
  | .arpReplies => c.arpReplies.toNat
  | .icmpRequests => c.icmpRequests.toNat
  | .icmpReplies => c.icmpReplies.toNat
  | .vlanDenied | .ipDenied | .cacheHits | .cacheMisses => 0

/-- The counters the C engine reports under a name of its own. -/
def Counter.renamed : Counter → Bool
  | .tftpRrq | .tftpWrq | .tftpErrors | .tftpSessionsTotal | .tftpSessionsCompleted
  | .tftpSessionsFailed => true
  | _ => false

/-- `CoreEngine.get_stats()`: the last report, the empty dict before the first. -/
def coreStats : Option CoreCounters → Json
  | none => .obj []
  | some c => c.event

/-! ## `STATS`, the carryover and the payload -/

/-- The counters of `STATS.snapshot()`; `reset_counters()` returns the same. -/
def snapshot (st : Counts) : Json := .obj (KEYS.map fun k => (k.key, .int (st k)))

/-- `carryover._carry`. -/
abbrev Carry := Counter → Int

/-- `carryover.add`.  What is no number is passed over; any other exception ends the loop (and is
    logged by the caller). -/
def addKeys (src : Json) : List Counter → Carry → Carry
  | [], carry => carry
  | k :: ks, carry =>
    match src.get k.key with
    | none => addKeys src ks carry
    | some x =>
      match intOrZero (some x) with
      | .ok n => addKeys src ks fun j => if j = k then carry j + n else carry j
      | .error .typeError | .error .valueError => addKeys src ks carry
      | .error _ => carry

def carryoverAdd (src : Json) (carry : Carry) : Carry := addKeys src KEYS carry

/-- A loop over `l` that sets, for some of its elements, the value of one key each. -/
def setLoop {ι : Type} (dst : ι → Counter) (value : ι → Option Json → Option Json) (d : Json)
    (l : List ι) : Json :=
  l.foldl (fun d i =>
    match value i (d.get (dst i).key) with
    | some v => setItem d (dst i).key v
    | none => d) d

/-- The C engine's last report over the snapshot. -/
def overlay (c s : Json) : Json := setLoop (·.2) (fun m _ => c.get (text m.1)) s C_TO_PY

/-- `int(out.get(k, 0) or 0) + v`, or `v` where that raises; nothing for a zero. -/
def carried (carry : Carry) (k : Counter) (old : Option Json) : Option Json :=
  if carry k = 0 then none
  else
    match intOrZero old with
    | .ok n => some (.int (n + carry k))
    | .error _ => some (.int (carry k))

/-- `carryover.apply`. -/
def carryoverApply (carry : Carry) (d : Json) : Json := setLoop id (carried carry) d KEYS

inductive Engine
  | stopped
  | python
  | c (last : Option CoreCounters)

/-- What the process holds. -/
structure Dashboard where
  stats : Counts
  engine : Engine
  carry : Carry

/-- The counters of `_stats_payload`. -/
def statsPayload (s : Dashboard) : Json :=
  carryoverApply s.carry
    (match s.engine with
      | .c last => overlay (coreStats last) (snapshot s.stats)
      | _ => snapshot s.stats)

/-- The number under a key. -/
def intOf : Option Json → Int
  | some (.int n) => n
  | _ => 0

/-- What the dashboard shows for a counter. -/
def shown (s : Dashboard) (k : Counter) : Int := intOf ((statsPayload s).get k.key)

/-! ## Events -/

/-- `engine_mode`. -/
inductive EngineMode
  | python
  | c
deriving DecidableEq, Repr

inductive DashEvent
  /-- `STATS.bump` -/
  | bump (k : Counter) (amount : Nat)
  /-- a `stat` event of the C engine -/
  | stat (c : CoreCounters)
  /-- the `finally` of `Nishro.run` -/
  | stop
  | start (mode : EngineMode)
  /-- the cache-invalidate endpoint -/
  | invalidate

def dashStep (s : Dashboard) : DashEvent → Dashboard
  | .bump k amount => { s with stats := bump s.stats k amount }
  | .stat c =>
    match s.engine with
    | .c _ => { s with engine := .c (some c) }
    | _ => s
  | .stop =>
    match s.engine with
    | .stopped => s
    | .python => ⟨fun _ => 0, .stopped, carryoverAdd (snapshot s.stats) s.carry⟩
    | .c last => { s with engine := .stopped, carry := carryoverAdd (coreStats last) s.carry }
  | .start .python => { s with engine := .python }
  | .start .c => { s with engine := .c none }
  | .invalidate =>
    { s with stats := fun k => if k = .cacheHits ∨ k = .cacheMisses then 0 else s.stats k }

/-- A fresh process. -/
def Dashboard.new : Dashboard := ⟨fun _ => 0, .stopped, fun _ => 0⟩

/-- What can happen when: the Python engine counts while it runs, the counters of one C process do
    not decrease, an engine starts where none runs. -/
def Occurs (s : Dashboard) : DashEvent → Prop
  | .bump _ _ => s.engine = .python
  | .stat c => ∀ last, s.engine = .c (some last) → ∀ k, last.count k ≤ c.count k
  | .start _ => s.engine = .stopped
  | .stop | .invalidate => True

/-- Does the event reset the counter at the user's wish? -/
def resets (k : Counter) : DashEvent → Prop
  | .invalidate => k = .cacheHits ∨ k = .cacheMisses
  | _ => False

/-! ## Reading a dict after a loop -/

section Loop

variable {ι : Type} {dst : ι → Counter} {value : ι → Option Json → Option Json}

theorem setLoop_obj {d : Json} (hd : ∃ ms, d = .obj ms) (l : List ι) :
    ∃ ms, setLoop dst value d l = .obj ms := by
  induction l generalizing d with
  | nil => exact hd
  | cons i l ih =>
    refine ih ?_
    dsimp only
    split
    · exact ⟨_, rfl⟩
    · exact hd

/-- A key no element is for is left alone. -/
theorem get_setLoop_of_not_mem {d : Json} (hd : ∃ ms, d = .obj ms) {l : List ι} {k : Counter}
    (hk : k ∉ l.map dst) : (setLoop dst value d l).get k.key = d.get k.key := by
  induction l generalizing d with
  | nil => rfl
  | cons i l ih =>
    rw [List.map_cons, List.mem_cons, not_or] at hk
    have hne : k.key ≠ (dst i).key := fun e => hk.1 (key_injective e)
    obtain ⟨ms, hms⟩ := hd
    rw [setLoop, List.foldl_cons]
    refine (ih ?_ hk.2).trans ?_
    · split
      · exact ⟨_, rfl⟩
      · exact ⟨ms, hms⟩
    · split
      · rw [get_setItem hms, if_neg hne]
      · rfl

/-- Each key is set once: the loop leaves what its element gives, or what was there. -/
theorem get_setLoop {d : Json} (hd : ∃ ms, d = .obj ms) {l : List ι} (hnd : (l.map dst).Nodup)
    {i : ι} (hi : i ∈ l) : (setLoop dst value d l).get (dst i).key =
      (value i (d.get (dst i).key)).or (d.get (dst i).key) := by
  induction l generalizing d with
  | nil => cases hi
  | cons j l ih =>
    obtain ⟨hj, hnd⟩ := List.nodup_cons.1 hnd
    obtain ⟨ms, hms⟩ := hd
    rw [setLoop, List.foldl_cons]
    rcases List.mem_cons.1 hi with rfl | hi
    · refine (get_setLoop_of_not_mem ?_ hj).trans ?_
      · split
        · exact ⟨_, rfl⟩
        · exact ⟨ms, hms⟩
      · split
        · rename_i v hv
          rw [get_setItem hms, if_pos rfl, hv]
          rfl
        · rename_i hv
          rw [hv]
          rfl
    · have hne : (dst i).key ≠ (dst j).key := by
        intro e
        exact hj (key_injective e ▸ List.mem_map_of_mem hi)
      have hget : ∀ v, (setItem d (dst j).key v).get (dst i).key = d.get (dst i).key := by
        intro v
        rw [get_setItem hms, if_neg hne]
      split
      · rename_i v _
        have hset : ∃ ms, setItem d (dst j).key v = .obj ms := ⟨_, rfl⟩
        refine (ih hset hnd hi).trans ?_
        rw [hget]
      · exact ih ⟨ms, hms⟩ hnd hi

end Loop

/-! ## What is shown -/

theorem get_snapshot (st : Counts) (k : Counter) : (snapshot st).get k.key = some (.int (st k)) := by
  cases k <;> rfl

/-- A report under the name the payload asks for. -/
theorem get_event (c : CoreCounters) {m : String × Counter} (hm : m ∈ C_TO_PY) :
    c.event.get (text m.1) = some (.int (c.count m.2)) := by
  simp only [C_TO_PY, List.mem_cons, List.not_mem_nil, or_false] at hm
  rcases hm with rfl | rfl | rfl | rfl | rfl | rfl | rfl | rfl | rfl | rfl | rfl | rfl | rfl <;> rfl

theorem nodup_C_TO_PY : (C_TO_PY.map (·.2)).Nodup := by decide

/-- A counter that is not in the table is one the C engine has not. -/
theorem count_of_not_mem (c : CoreCounters) {k : Counter} (h : k ∉ C_TO_PY.map (·.2)) :
    c.count k = 0 := by
  cases k <;> first | rfl | exact absurd (by decide) h

/-- What the running engine counts: `STATS`, or the C engine's last report. -/
def live (s : Dashboard) (k : Counter) : Int :=
  match s.engine with
  | .c (some c) => if k ∈ C_TO_PY.map (·.2) then c.count k else s.stats k
  | _ => s.stats k

/-- The dashboard shows the running count and the carryover. -/
theorem shown_eq (s : Dashboard) (k : Counter) : shown s k = live s k + s.carry k := by
  have hsnap : ∃ ms, snapshot s.stats = .obj ms := ⟨_, rfl⟩
  have hbase : ∃ d, statsPayload s = carryoverApply s.carry d ∧ (∃ ms, d = .obj ms) ∧
      d.get k.key = some (.int (live s k)) := by
    rcases he : s.engine with _ | _ | last
    · exact ⟨snapshot s.stats, by rw [statsPayload, he], hsnap, by
        rw [get_snapshot, live, he]⟩
    · exact ⟨snapshot s.stats, by rw [statsPayload, he], hsnap, by
        rw [get_snapshot, live, he]⟩
    refine ⟨overlay (coreStats last) (snapshot s.stats), by rw [statsPayload, he],
      setLoop_obj hsnap _, ?_⟩
    by_cases hk : k ∈ C_TO_PY.map (·.2)
    · obtain ⟨m, hm, rfl⟩ := List.mem_map.1 hk
      rw [overlay, get_setLoop hsnap nodup_C_TO_PY hm, live, he]
      cases last with
      | none => exact get_snapshot s.stats m.2
      | some c =>
        rw [coreStats, get_event c hm]
        simp only [if_pos hk, Option.or]
    · rw [overlay, get_setLoop_of_not_mem hsnap hk, get_snapshot, live, he]
      cases last with
      | none => rfl
      | some c => simp only [if_neg hk]
  obtain ⟨d, hpay, hobj, hget⟩ := hbase
  have hget' : (carryoverApply s.carry d).get k.key =
      (carried s.carry k (d.get k.key)).or (d.get k.key) :=
    get_setLoop hobj (List.Nodup.of_map _ (by simpa using nodup_keys)) (mem_KEYS k)
  rw [shown, hpay, hget', hget, carried]
  by_cases hz : s.carry k = 0
  · rw [if_pos hz, hz, Int.add_zero]
    rfl
  · rw [if_neg hz, intOrZero_int]
    rfl

/-! ## What a stop keeps -/

/-- Every counter the dict has is a number. -/
def IntValues (src : Json) : Prop :=
  ∀ (k : Counter) (x : Json), src.get k.key = some x → ∃ n, x = .int n

/-- Numbers are folded in key by key. -/
theorem addKeys_int {src : Json} (hint : IntValues src) (k : Counter) {ks : List Counter}
    (hnd : ks.Nodup) (carry : Carry) :
    addKeys src ks carry k = carry k + if k ∈ ks then intOf (src.get k.key) else 0 := by
  induction ks generalizing carry with
  | nil => simp [addKeys]
  | cons j ks ih =>
    obtain ⟨hj, hnd⟩ := List.nodup_cons.1 hnd
    rw [addKeys]
    cases hget : src.get j.key with
    | none =>
      refine (ih hnd carry).trans ?_
      by_cases hk : k = j
      · subst hk
        rw [if_neg hj, if_pos List.mem_cons_self, hget]
        rfl
      · simp [hk]
    | some x =>
      obtain ⟨n, rfl⟩ := hint j x hget
      simp only [intOrZero_int]
      refine (ih hnd _).trans ?_
      by_cases hk : k = j
      · subst hk
        rw [if_neg hj, if_pos List.mem_cons_self, if_pos rfl, hget, intOf, Int.add_zero]
      · simp [hk]

theorem carryoverAdd_int {src : Json} (hint : IntValues src) (carry : Carry) (k : Counter) :
    carryoverAdd src carry k = carry k + intOf (src.get k.key) := by
  have hnd : KEYS.Nodup := List.Nodup.of_map _ nodup_keys
  rw [carryoverAdd, addKeys_int hint k hnd, if_pos (mem_KEYS k)]

/-- The Python engine's counts are all kept. -/
theorem carryoverAdd_snapshot (st : Counts) (carry : Carry) (k : Counter) :
    carryoverAdd (snapshot st) carry k = carry k + st k := by
  rw [carryoverAdd_int, get_snapshot, intOf]
  intro k x hx
  rw [get_snapshot] at hx
  exact ⟨_, (Option.some.inj hx).symm⟩

/-- Of the C engine's counts those under a name of its own are not. -/
theorem carryoverAdd_coreStats (last : Option CoreCounters) (carry : Carry) (k : Counter) :
    carryoverAdd (coreStats last) carry k =
      carry k + if k.renamed then 0 else ((last.map (·.count k)).getD 0 : Nat) := by
  cases last with
  | none =>
    rw [carryoverAdd_int]
    · simp [coreStats, Json.get, intOf]
    · intro k x hx
      cases hx
  | some c =>
    rw [carryoverAdd_int]
    · cases k <;> rfl
    · intro k x hx
      cases k <;> cases hx <;> exact ⟨_, rfl⟩

/-- Only the Python engine counts in `STATS`, and it leaves nothing there. -/
def Quiet (s : Dashboard) : Prop := s.engine ≠ .python → s.stats = fun _ => 0

theorem quiet_new : Quiet Dashboard.new := fun _ => rfl

theorem quiet_step {s : Dashboard} {e : DashEvent} (h : Quiet s) (he : Occurs s e) :
    Quiet (dashStep s e) := by
  cases e with
  | bump k amount => exact fun hne => absurd he hne
  | stat c =>
    intro hne
    cases hs : s.engine with
    | c last =>
      simp only [dashStep, hs]
      exact h (by rw [hs]; exact Engine.noConfusion)
    | _ =>
      simp only [dashStep, hs] at hne ⊢
      exact h (by rwa [hs])
  | stop =>
    intro _
    cases hs : s.engine with
    | python => simp only [dashStep, hs]
    | _ =>
      simp only [dashStep, hs]
      exact h (by rw [hs]; exact Engine.noConfusion)
  | start mode =>
    have hstopped : s.engine = .stopped := he
    have hz := h (by rw [hstopped]; exact Engine.noConfusion)
    cases mode <;> exact fun _ => hz
  | invalidate =>
    intro hne
    have hz := h hne
    simp [dashStep, hz]

/-- At a stop of the C engine: its last count of `k` is zero, if it has a name of its own for it. -/
def Kept (k : Counter) (s : Dashboard) : DashEvent → Prop
  | .stop => ∀ c, s.engine = .c (some c) → k.renamed = true → c.count k = 0
  | _ => True

/-! ## A counter never goes back -/

theorem live_of_quiet {s : Dashboard} (h : Quiet s) (hne : s.engine ≠ .python)
    (hc : ∀ c, s.engine ≠ .c (some c)) (k : Counter) : live s k = 0 := by
  have hz := h hne
  rcases he : s.engine with _ | _ | last
  · simp [live, he, hz]
  · exact absurd he hne
  · cases last with
    | none => simp [live, he, hz]
    | some c => exact absurd he (hc c)

theorem live_c {s : Dashboard} (h : Quiet s) {c : CoreCounters} (he : s.engine = .c (some c))
    (k : Counter) : live s k = c.count k := by
  have hz := h (by rw [he]; exact Engine.noConfusion)
  simp only [live, he]
  split
  · rfl
  · rename_i hk
    rw [hz, count_of_not_mem c hk]

/-- One step: what is shown goes back only where a stop loses a count. -/
theorem shown_step_iff {s : Dashboard} {e : DashEvent} {k : Counter} (h : Quiet s)
    (he : Occurs s e) (hk : ¬ resets k e) : shown s k ≤ shown (dashStep s e) k ↔ Kept k s e := by
  rw [shown_eq, shown_eq]
  cases e with
  | bump j amount =>
    have hp : s.engine = .python := he
    refine iff_of_true ?_ trivial
    simp only [live, dashStep, hp, bump]
    split <;> omega
  | stat c =>
    refine iff_of_true ?_ trivial
    rcases hs : s.engine with _ | _ | last
    · simp [dashStep, hs]
    · simp [dashStep, hs]
    have hnew : live (dashStep s (.stat c)) k = c.count k := by
      refine live_c (quiet_step h he) ?_ k
      simp [dashStep, hs]
    have hcarry : (dashStep s (.stat c)).carry = s.carry := by simp [dashStep, hs]
    rw [hnew, hcarry]
    cases last with
    | none =>
      rw [live_of_quiet h (by rw [hs]; exact Engine.noConfusion) (by simp [hs])]
      omega
    | some c' =>
      have hle := he c' hs k
      rw [live_c h hs]
      omega
  | stop =>
    rcases hs : s.engine with _ | _ | last
    · refine iff_of_true ?_ fun c hc _ => absurd hc (by simp [hs])
      simp [dashStep, hs]
    · refine iff_of_true ?_ fun c hc _ => absurd hc (by simp [hs])
      simp only [dashStep, hs, carryoverAdd_snapshot, live]
      omega
    have hz := h (by rw [hs]; exact Engine.noConfusion)
    have hnew : live (dashStep s .stop) k = 0 := by simp [dashStep, hs, live, hz]
    have hcarry : (dashStep s .stop).carry k =
        s.carry k + if k.renamed then 0 else ((last.map (·.count k)).getD 0 : Nat) := by
      simp only [dashStep, hs]
      exact carryoverAdd_coreStats last s.carry k
    rw [hnew, hcarry]
    cases last with
    | none =>
      rw [live_of_quiet h (by rw [hs]; exact Engine.noConfusion) (by simp [hs])]
      refine iff_of_true ?_ fun c hc _ => absurd hc (by simp [hs])
      simp
    | some c =>
      rw [live_c h hs]
      have hkept : Kept k s .stop ↔ (k.renamed = true → c.count k = 0) := by
        simp [Kept, hs]
      rw [hkept]
      by_cases hr : k.renamed = true
      · simp [hr]
      · simp [hr]
        omega
  | start mode =>
    have hs : s.engine = .stopped := he
    refine iff_of_true ?_ trivial
    cases mode <;> simp [dashStep, live, hs]
  | invalidate =>
    have hne : ¬ (k = .cacheHits ∨ k = .cacheMisses) := hk
    refine iff_of_true ?_ trivial
    simp [dashStep, live, hne]

/-- The Python engine serves three reads, then the C engine answers two ARP requests, then the
    Python engine is back. -/
def arpOnly : List DashEvent :=
  [.start .python, .bump .tftpRrq 3, .stop, .start .c, .stat { arpRequests := 2 }, .stop,
    .start .python]

theorem occurs_arpOnly : Along dashStep Occurs .new arpOnly := by
  refine ⟨rfl, rfl, trivial, rfl, ?_, trivial, rfl, trivial⟩
  intro last hlast
  cases hlast

/-- The C engine serves a read, then the Python engine takes over. -/
def oneRead : List DashEvent := [.start .c, .stat { rrqCount := 1 }, .stop, .start .python]

end Nishro.Py

import NishroTftp.CCore.Ipc
import NishroTftp.Lib.Runs
import NishroTftp.Py.DailyStats
import NishroTftp.Py.SessionPool
/-
  The daily totals of the sessions of both engines.

  A session of the Python engine is counted by `_on_complete`, one of the C engine by `_on_event`
  when its "session_end" comes.  Both tell the daily totals how many bytes were sent and received,
  by the KIND of the session; and both ask whether the kind is "RRQ" or "WRQ", where it is "read"
  or "write".  So no byte is ever counted.

  The events of the C engine are taken as the dicts their lines are meant to be read as.
-/
namespace Nishro.Py

open Utf8 (Text text)

/-! ## A day -/

/-- What happens in a day: a Python session runs to its end, the C engine reports, a new C engine
    takes the place of the old one. -/
inductive Happening
  | python (args : SessionArgs) (world : World) (inputs : List Input)
  /-- `name` is the text of the file name in the line -/
  | core (name : Text) (e : CCore.IpcEvent)
  | newCore

/-- The calls of `daily_stats.record` are kept with the engine's tables. -/
def happen (eng : CoreEngine) : Happening → CoreEngine
  | .python args world inputs =>
    { eng with recorded := eng.recorded ++ [completeRecord (Session.run args world inputs).1.info] }
  | .core name e =>
    match onEvent eng ((CCore.Emission.record name (.session e)).toJson) with
    | .ok eng' => eng'
    | .error _ => eng
  | .newCore => { CoreEngine.new with recorded := eng.recorded }

/-- A Python session is counted when it has ended; the C engine ends what it has started. -/
def Happens (eng : CoreEngine) : Happening → Prop
  | .python args world inputs => ∃ s fx, Session.run args world inputs = (s, fx) ∧ s.stage = .ended
  | .core _ (.sessionEnd s _ _ _ _) => (s.id.toNat : Int) ∈ eng.keys
  | .core _ _ | .newCore => True

/-- A finished session as it was. -/
structure Finished where
  isRead : Bool
  bytes : Int
  /-- it ended "done" -/
  ok : Bool
  fault : Bool
deriving DecidableEq, Repr

def finishedBy : Happening → Option Finished
  | .python args world inputs =>
    let info := (Session.run args world inputs).1.info
    some ⟨args.request.opcode == OP_RRQ, info.bytesTransferred, info.state == str "done",
      info.serverFault⟩
  | .core _ (.sessionEnd s ok fault _ _) => some ⟨s.kind == CCore.TFTP_RRQ, s.bytesDone.toNat, ok, fault⟩
  | .core _ _ | .newCore => none

/-- The bytes of the sessions of one direction. -/
def bytesOf (isRead : Bool) (fs : List Finished) : Int :=
  ((fs.filter (·.isRead == isRead)).map (·.bytes)).sum

/-- The bucket of the day after a sequence of happenings. -/
def bucketAfter (t : Today) (d : DailyStats) (hs : List Happening) : Bucket :=
  (((Runs.run happen .new hs).recorded.foldl (DailyStats.record t) d).data.lookup t.iso).getD {}

/-- The bucket says what the sessions were. -/
structure Conserved (b : Bucket) (fs : List Finished) : Prop where
  bytesSent : b.bytesSent = bytesOf true fs
  bytesReceived : b.bytesReceived = bytesOf false fs
  total : b.total = fs.length
  completed : b.completed = fs.countP (·.ok)
  failed : b.failed = fs.countP (·.fault)

/-! ## What is recorded -/

/-- A record of the session as `record` is told of it: its outcome, and no bytes. -/
structure Counted (f : Finished) (r : DayRecord) : Prop where
  success : r.success = f.ok
  serverFault : r.serverFault = f.fault
  bytesSent : r.bytesSent = 0
  bytesReceived : r.bytesReceived = 0

/-- No kind is one of the words that are asked for. -/
def NoKind (s : Json) : Prop := kindIs "RRQ" s = false ∧ kindIs "WRQ" s = false

theorem counted_python (args : SessionArgs) (world : World) (inputs : List Input) :
    ∃ f, finishedBy (.python args world inputs) = some f ∧
      Counted f (completeRecord (Session.run args world inputs).1.info) := by
  have hkind := run_kind args world inputs
  have hne : ∀ word, word = str "RRQ" ∨ word = str "WRQ" →
      (Session.run args world inputs).1.info.kind ≠ word := by
    intro word hword heq
    rw [hkind] at heq
    split at heq <;> rcases hword with rfl | rfl <;> revert heq <;> decide
  exact ⟨_, rfl, rfl, rfl, if_neg (hne _ (.inl rfl)), if_neg (hne _ (.inr rfl))⟩

theorem get_update_of_none {d e : Json} {key : Text} (h : e.get key = none)
    (hd : ∃ ms, d = .obj ms) : (update d e).get key = d.get key := by
  obtain ⟨ms, rfl⟩ := hd
  cases e with
  | obj es =>
    have hfind : es.reverse.find? (fun m => m.1 == key) = none := by simpa [Json.get] using h
    simp [update, items, Json.get, List.find?_append, hfind]
  | _ => simp [update, items]

/-- The words of the C engine are "read" and "write". -/
theorem noKind_start (name : Text) (s : CCore.Session) :
    NoKind (CCore.Emission.record name (.session (.sessionStart s))).toJson := by
  have hget : (CCore.Emission.record name (.session (.sessionStart s))).toJson.get (text "kind") =
      some (.str (CCore.Emission.codes (CCore.ascii (CCore.kindName s.kind)))) := rfl
  have hname : CCore.kindName s.kind = "read" ∨ CCore.kindName s.kind = "write" := by
    unfold CCore.kindName
    split
    · exact .inl rfl
    · exact .inr rfl
  unfold NoKind kindIs
  rcases hname with h | h
  · rw [hget, h]
    decide
  · rw [hget, h]
    decide

/-- Reports after the first do not name the kind. -/
theorem noKind_update {d e : Json} (h : e.get (text "kind") = none) (hobj : ∃ ms, d = .obj ms)
    (hd : NoKind d) : NoKind (update d e) := by
  unfold NoKind kindIs at hd ⊢
  rw [get_update_of_none h hobj]
  exact hd

/-- The sessions of the table are dicts without such a kind. -/
def Plain (eng : CoreEngine) : Prop :=
  ∀ m ∈ eng.sessions, (∃ ms, m.2 = .obj ms) ∧ NoKind m.2

variable {eng : CoreEngine}

theorem plain_set (h : Plain eng) {id : Int} {s : Json} (hs : (∃ ms, s = .obj ms) ∧ NoKind s) :
    Plain (eng.set id s) := by
  intro m hm
  unfold CoreEngine.set at hm
  split at hm
  · obtain ⟨m', hm', rfl⟩ := List.mem_map.1 hm
    split
    · exact hs
    · exact h m' hm'
  · rcases List.mem_append.1 hm with hm | hm
    · exact h m hm
    · rw [List.mem_singleton.1 hm]
      exact hs

theorem plain_pop (h : Plain eng) (id : Int) : Plain (eng.pop id) :=
  fun m hm => h m (List.mem_filter.1 hm).1

theorem plain_get (h : Plain eng) {id : Int} {s : Json} (hs : eng.get id = some s) :
    (∃ ms, s = .obj ms) ∧ NoKind s := by
  obtain ⟨l₁, l₂, hl, -⟩ := List.lookup_eq_some_iff.1 hs
  exact h (id, s) (by rw [hl]; simp)

/-- What a "session_end" says, and that it does not name the kind. -/
theorem get_sessionEnd (name : Text) (s : CCore.Session) (ok fault : Bool)
    (reason : Option CCore.EndReason) (now : UInt64) {ev : Json}
    (hev : ev = (CCore.Emission.record name (.session (.sessionEnd s ok fault reason now))).toJson) :
    ev.get (text "ev") = some (.str (text "session_end")) ∧
      ev.get (text "id") = some (.int s.id.toNat) ∧
      ev.get (text "ok") = some (.bool ok) ∧ ev.get (text "server_fault") = some (.bool fault) ∧
      ev.get (text "bytes_transferred") = some (.int s.bytesDone.toNat) ∧
      ev.get (text "kind") = none := by
  subst hev
  simp only [CCore.Emission.record]
  cases CCore.endError ok reason <;> exact ⟨rfl, rfl, rfl, rfl, rfl, rfl⟩

/-- **One happening** adds one record for a session that finished by it, and none otherwise. -/
theorem happen_recorded {h : Happening} (hp : Plain eng) (hh : Happens eng h) :
    Plain (happen eng h) ∧ ∃ rs, (happen eng h).recorded = eng.recorded ++ rs ∧
      List.Forall₂ Counted (finishedBy h).toList rs := by
  cases h with
  | python args world inputs =>
    obtain ⟨f, hf, hcounted⟩ := counted_python args world inputs
    rw [hf]
    exact ⟨hp, _, rfl, .cons hcounted .nil⟩
  | newCore =>
    refine ⟨?_, [], (List.append_nil _).symm, .nil⟩
    intro m hm
    cases hm
  | core name e =>
    cases e with
    | sessionStart s =>
      have hon : onEvent eng (CCore.Emission.record name (.session (.sessionStart s))).toJson =
          .ok (eng.set s.id.toNat
            (CCore.Emission.record name (.session (.sessionStart s))).toJson) := rfl
      refine ⟨?_, [], ?_, .nil⟩
      · exact plain_set hp ⟨⟨_, rfl⟩, noKind_start name s⟩
      · simp only [happen, hon, List.append_nil]
        rfl
    | sessionProgress s =>
      have hon : onEvent eng (CCore.Emission.record name (.session (.sessionProgress s))).toJson =
          onDict eng (CCore.Emission.record name (.session (.sessionProgress s))).toJson := rfl
      have heventKind : eventKind
          (CCore.Emission.record name (.session (.sessionProgress s))).toJson = .sessionProgress := rfl
      have hid : eventId (CCore.Emission.record name (.session (.sessionProgress s))).toJson =
          .ok (s.id.toNat : Int) := rfl
      simp only [onDict, heventKind, hid, Except.map] at hon
      cases hget : eng.get (s.id.toNat : Int) with
      | none =>
        simp only [happen, hon, hget]
        exact ⟨hp, [], (List.append_nil _).symm, .nil⟩
      | some old =>
        obtain ⟨hobj, hkind⟩ := plain_get hp hget
        simp only [happen, hon, hget]
        exact ⟨plain_set hp ⟨⟨_, rfl⟩, noKind_update rfl hobj hkind⟩, [],
          (List.append_nil _).symm, .nil⟩
    | sessionEnd s ok fault reason now =>
      -- a session ends while the parent has it in its table
      obtain ⟨old, hget⟩ : ∃ old, eng.get (s.id.toNat : Int) = some old := by
        cases hget : eng.get (s.id.toNat : Int) with
        | none => exact absurd hh (not_mem_keys_of_get eng hget)
        | some old => exact ⟨old, rfl⟩
      obtain ⟨hobj, hkind⟩ := plain_get hp hget
      generalize hev : (CCore.Emission.record name
        (.session (.sessionEnd s ok fault reason now))).toJson = ev
      obtain ⟨hend, hid, hok, hfault, hbytes, hnone⟩ :=
        get_sessionEnd name s ok fault reason now hev.symm
      have heventKind : eventKind ev = .sessionEnd := by
        rw [eventKind, hend]
        decide
      have hbt : intOrZero ((update old ev).get (text "bytes_transferred")) =
          .ok (s.bytesDone.toNat : Int) := by
        rw [get_update hbytes, intOrZero_int]
      have hon : onEvent eng ev = finished (eng.pop s.id.toNat) old ev := by
        rw [onEvent_eq eng hend, onDict, heventKind, eventId_eq hid]
        simp only [Except.bind, hget]
      have hkind' := noKind_update hnone hobj hkind
      simp only [happen, hev, hon, finished, hbt, Except.map]
      refine ⟨plain_pop hp _, _, rfl, .cons ⟨?_, ?_, ?_, ?_⟩ .nil⟩
      · simp [dayRecord, hok, truthy]
      · simp [dayRecord, hfault, truthy]
      · simp [dayRecord, hkind'.1]
      · simp [dayRecord, hkind'.2]

/-- A whole day: one record for each finished session, in order. -/
theorem day_recorded (hp : Plain eng) {hs : List Happening} (hhs : Runs.Along happen Happens eng hs) :
    ∃ rs, (Runs.run happen eng hs).recorded = eng.recorded ++ rs ∧
      List.Forall₂ Counted (hs.filterMap finishedBy) rs := by
  induction hs generalizing eng with
  | nil => exact ⟨[], (List.append_nil _).symm, .nil⟩
  | cons h hs ih =>
    obtain ⟨hp', rs, hrs, hcounted⟩ := happen_recorded hp hhs.1
    obtain ⟨rs', hrs', hcounted'⟩ := ih hp' hhs.2
    refine ⟨rs ++ rs', ?_, ?_⟩
    · rw [Runs.run_cons, hrs', hrs, List.append_assoc]
    have happ : (h :: hs).filterMap finishedBy =
        (finishedBy h).toList ++ hs.filterMap finishedBy := by
      rw [List.filterMap_cons]
      cases finishedBy h <;> rfl
    rw [happ]
    exact List.rel_append hcounted hcounted'

/-- The sums over the records, by what the sessions were. -/
theorem counted_sums {fs : List Finished} {rs : List DayRecord} (h : List.Forall₂ Counted fs rs) :
    rs.length = fs.length ∧ rs.countP (·.success) = fs.countP (·.ok) ∧
      (rs.countP fun r => ! r.success && r.serverFault) =
        (fs.countP fun f => ! f.ok && f.fault) ∧
      (rs.map (·.bytesSent)).sum = 0 ∧ (rs.map (·.bytesReceived)).sum = 0 := by
  induction h with
  | nil => exact ⟨rfl, rfl, rfl, rfl, rfl⟩
  | cons hc _ ih =>
    obtain ⟨h1, h2, h3, h4, h5⟩ := ih
    simp [List.countP_cons, hc.success, hc.serverFault, hc.bytesSent, hc.bytesReceived, h1, h2, h3,
      h4, h5]

/-- Faults are all counted exactly when none is hidden by a success. -/
theorem countP_fault_iff (fs : List Finished) :
    (fs.countP fun f => ! f.ok && f.fault) = fs.countP (·.fault) ↔
      ∀ f ∈ fs, ¬ (f.ok = true ∧ f.fault = true) := by
  induction fs with
  | nil => simp
  | cons f fs ih =>
    have hle : (fs.countP fun f => ! f.ok && f.fault) ≤ fs.countP (·.fault) := by
      refine List.countP_mono_left fun f _ hf => ?_
      simp only [Bool.and_eq_true] at hf
      exact hf.2
    rw [List.forall_mem_cons, ← ih, List.countP_cons, List.countP_cons]
    cases f.ok <;> cases f.fault <;> simp
    omega

/-- **The daily totals.**  After any sequence of finished sessions of both engines on a day, the
    bucket of the day says what the sessions were exactly when they moved no bytes in either
    direction and none ended well with a server fault. -/
theorem day_totals_conserved_iff (t : Today) {d : DailyStats}
    (hd : d.data.lookup t.iso = none) {hs : List Happening}
    (hhs : Runs.Along happen Happens .new hs) :
    Conserved (bucketAfter t d hs) (hs.filterMap finishedBy) ↔
      bytesOf true (hs.filterMap finishedBy) = 0 ∧ bytesOf false (hs.filterMap finishedBy) = 0 ∧
        ∀ f ∈ hs.filterMap finishedBy, ¬ (f.ok = true ∧ f.fault = true) := by
  obtain ⟨rs, hrs, hcounted⟩ := day_recorded (fun m hm => by cases hm) hhs
  obtain ⟨hlen, hok, hfault, hsent, hreceived⟩ := counted_sums hcounted
  have hbucket : bucketAfter t d hs = rs.foldl Bucket.add {} := by
    have hrecorded : (Runs.run happen .new hs).recorded = rs := hrs
    rw [bucketAfter, hrecorded]
    by_cases hnil : rs = []
    · subst hnil
      rw [List.foldl_nil, hd]
      rfl
    · rw [records_lookup t d hnil, hd]
      rfl
  rw [hbucket, foldl_add, ← countP_fault_iff, ← hfault]
  constructor
  · intro hc
    refine ⟨?_, ?_, ?_⟩
    · rw [← hc.bytesSent, hsent]
      rfl
    · rw [← hc.bytesReceived, hreceived]
      rfl
    · rw [← hc.failed]
      exact (Nat.zero_add _).symm
  · rintro ⟨h1, h2, h3⟩
    refine ⟨?_, ?_, ?_, ?_, ?_⟩
    · rw [h1, hsent]
      rfl
    · rw [h2, hreceived]
      rfl
    · rw [← hlen]
      exact Nat.zero_add _
    · rw [← hok]
      exact Nat.zero_add _
    · rw [← h3]
      exact Nat.zero_add _

/-- A client asks for a file that is not there. -/
def missingFile : Happening :=
  .python (bareArgs ⟨OP_RRQ, str "a", str "octet", []⟩) (obligingWorld none) []

/-- It is counted as it was. -/
theorem missingFile_conserved :
    Runs.Along happen Happens .new [missingFile] ∧
      Conserved (bucketAfter someDay {} [missingFile]) ([missingFile].filterMap finishedBy) := by
  have hhs : Runs.Along happen Happens .new [missingFile] := ⟨⟨_, _, rfl, rfl⟩, trivial⟩
  exact ⟨hhs, (day_totals_conserved_iff someDay rfl hhs).2 ⟨rfl, rfl, by decide⟩⟩

/-- A client downloads a file of one byte. -/
def oneByte : Happening :=
  .python (bareArgs ⟨OP_RRQ, str "a", str "octet", []⟩) (obligingWorld (some [65]))
    [.packet (packAck 1) none]

/-- The bucket of the day has no byte sent. -/
theorem oneByte_not_counted :
    Runs.Along happen Happens .new [oneByte] ∧
      finishedBy oneByte = some ⟨true, 1, true, false⟩ ∧
      bucketAfter someDay {} [oneByte] = { total := 1, completed := 1 } :=
  ⟨⟨⟨_, _, rfl, rfl⟩, trivial⟩, rfl, rfl⟩

end Nishro.Py

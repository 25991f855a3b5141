import Mathlib.Data.List.Forall2
import NishroTftp.Lib.Dict
import NishroTftp.Py.Engine
/-
  The reader of the C engine's events with everything in it that can raise (`core/engine.py`):
  `_reader`, `_on_event` and `_compute_derived`.

  `_reader` catches `JSONDecodeError` and nothing else.  Any other exception ends its task, and nobody
  reads the pipe any more.  So the question for each line is which of the conversions on its way
  raise: `readline` itself on a line over the limit of the stream, `json.loads`, `ev.get` on what is
  not a dict, `int(ev["id"])`, and the arithmetic of the derived values.

  Floats and `json.loads` are Python's (`Floats`, `loads`): any functions here.  What is half written
  when an exception comes is not followed, since nothing is read after it.  `daily_stats.record`
  swallows what it raises and is left to `Py/Engine`.
-/
namespace Nishro.Py

open Utf8 (Text text)

/-! ## Values -/

/-- Python's floats, as far as the reader computes with them. -/
structure Floats (F : Type) where
  /-- `float(x)` -/
  ofJson : Json → Except PyError F
  /-- `int(x)` -/
  trunc : F → Except PyError Int
  nonzero : F → Bool
  lt : F → F → Bool
  sub : F → F → F
  mul : F → F → F
  /-- the constants `0`, `2.0` and `1000` -/
  ofNat : Nat → F
  /-- `a / b` of integers -/
  ratio : Int → Int → Except PyError F
  /-- `n / x` of an integer and a float -/
  quot : Int → F → Except PyError F
  /-- `v[0] < x`, of a sample that came in with the line -/
  jsonBefore : Json → F → Except PyError Bool
  /-- the speed since such a sample: `t0, b0 = v` and the rest of the computation -/
  jsonRate : Json → F → Int → Except PyError Int

/-- An element of `_spd_samples`: a pair of the reader's own, or whatever a line brought. -/
inductive Sample (F : Type)
  | own (t : F) (b : Int)
  | json (v : Json)

/-- A value in the dict of a session. -/
inductive PyVal (F : Type)
  | json (v : Json)
  | float (x : F)
  | samples (xs : List (Sample F))

variable {F : Type} (fl : Floats F)

def PyVal.truthy : PyVal F → Bool
  | .json v => Py.truthy v
  | .float x => fl.nonzero x
  | .samples xs => ! xs.isEmpty

/-- `int(x)`. -/
def PyVal.toInt : PyVal F → Except PyError Int
  | .json v => Py.toInt v
  | .float x => fl.trunc x
  | .samples _ => .error .typeError

/-- `float(x)`. -/
def PyVal.toFloat : PyVal F → Except PyError F
  | .json v => fl.ofJson v
  | .float x => .ok x
  | .samples _ => .error .typeError

/-- The dict of a session; the last member of a name counts. -/
abbrev LiveSess (F : Type) := List (Text × PyVal F)

def LiveSess.get (s : LiveSess F) (key : Text) : Option (PyVal F) :=
  (s.reverse.find? fun m => m.1 == key).map (·.2)

/-- `s[key] = v`. -/
def LiveSess.set (s : LiveSess F) (key : Text) (v : PyVal F) : LiveSess F := s ++ [(key, v)]

/-- `s.update(ev)`. -/
def LiveSess.update (s : LiveSess F) (ev : Json) : LiveSess F := s ++ (items ev).map fun m => (m.1, .json m.2)

/-- `x or 0`, as an integer. -/
def intOr (x : Option (PyVal F)) : Except PyError Int :=
  match x with
  | none => .ok 0
  | some v => if v.truthy fl then v.toInt fl else .ok 0

/-! ## `_compute_derived` -/

/-- `(done / total) if total > 0 else 0`. -/
def progressOf (done total : Int) : Except PyError (PyVal F) :=
  if 0 < total then (fl.ratio done total).map .float else .ok (.json (.int 0))

/-- `float(s.get("started_at") or now)`. -/
def startedAt (now : F) (s : LiveSess F) : Except PyError F :=
  match s.get (text "started_at") with
  | none => .ok now
  | some v => if v.truthy fl then v.toFloat fl else .ok now

/-- `int(max(now - started, 0) * 1000)`. -/
def durationMs (now started : F) : Except PyError Int :=
  if fl.lt (fl.sub now started) (fl.ofNat 0) then .ok 0
  else fl.trunc (fl.mul (fl.sub now started) (fl.ofNat 1000))

/-- The list that a new sample is appended to; only a list has `append`. -/
def samplesOf (s : LiveSess F) (started : F) : Except PyError (List (Sample F)) :=
  match s.get (text "_spd_samples") with
  | none | some (.json .null) => .ok [.own started 0]
  | some (.samples xs) => .ok xs
  | some (.json (.arr xs)) => .ok (xs.map .json)
  | some _ => .error .attributeError

/-- `x[0] < cutoff`. -/
def Sample.before (cutoff : F) : Sample F → Except PyError Bool
  | .own t _ => .ok (fl.lt t cutoff)
  | .json v => fl.jsonBefore v cutoff

/-- `while len(samples) > 2 and samples[1][0] < cutoff: samples.pop(0)`. -/
def trim (cutoff : F) : List (Sample F) → Except PyError (List (Sample F))
  | x :: y :: z :: rest => (y.before fl cutoff).bind fun old =>
    if old then trim cutoff (y :: z :: rest) else .ok (x :: y :: z :: rest)
  | xs => .ok xs

/-- The speed since a sample. -/
def Sample.rate (now : F) (done : Int) : Sample F → Except PyError Int
  | .own t b =>
    if fl.lt (fl.ofNat 0) (fl.sub now t) then
      (fl.quot (max (done - b) 0) (fl.sub now t)).bind fl.trunc
    else .ok 0
  | .json v => fl.jsonRate v now done

/-- The speed since the first sample that is left; there is one. -/
def speedOf (now : F) (done : Int) : List (Sample F) → Except PyError Int
  | [] => .ok 0
  | x :: _ => x.rate fl now done

/-- `_compute_derived` at the time `now`. -/
def computeDerived (now : F) (s : LiveSess F) : Except PyError (LiveSess F) :=
  (intOr fl (s.get (text "total_bytes"))).bind fun total =>
  (intOr fl (s.get (text "bytes_transferred"))).bind fun done =>
  (progressOf fl done total).bind fun progress =>
  let s := s.set (text "progress") progress
  (startedAt fl now s).bind fun started =>
  (durationMs fl now started).bind fun ms =>
  let s := s.set (text "duration_ms") (.json (.int ms))
  (samplesOf s started).bind fun xs =>
  (trim fl (fl.sub now (fl.ofNat 2)) (xs ++ [.own now done])).bind fun xs =>
  let s := s.set (text "_spd_samples") (.samples xs)
  (speedOf fl now done xs).bind fun speed =>
  let s := s.set (text "speed") (.json (.int speed))
  (intOr fl (s.get (text "max_speed"))).map fun peak =>
  s.set (text "max_speed") (.json (.int (if peak < speed then speed else peak)))

/-! ## `_on_event` and `_reader` -/

/-- The fields of `CoreEngine` that the web interface shows. -/
structure LiveEngine (F : Type) where
  stats : Json
  sessions : List (Int × LiveSess F)
  history : List (LiveSess F)
  ready : Bool

/-- `int(s.get("max_speed") or s.get("speed") or 0)`. -/
def finalSpeed (s : LiveSess F) : Except PyError Int :=
  match s.get (text "max_speed") with
  | some v => if v.truthy fl then v.toInt fl else intOr fl (s.get (text "speed"))
  | none => intOr fl (s.get (text "speed"))

/-- `session_end` of a session that was in the table. -/
def LiveEngine.finish (eng : LiveEngine F) (s : LiveSess F) : Except PyError (LiveEngine F) :=
  (finalSpeed fl s).bind fun speed =>
  let s := s.set (text "speed") (.json (.int speed))
  (intOr fl (s.get (text "bytes_transferred"))).map fun _ =>
  { eng with history := (s.filter (fun m => m.1.head? != some 95) :: eng.history).take HISTORY_MAX }

/-- `_on_event` on a dict. -/
def LiveEngine.onDict (now : F) (eng : LiveEngine F) (ev : Json) : Except PyError (LiveEngine F) :=
  match eventKind ev with
  | .stat => .ok { eng with stats := ev }
  | .sessionStart => (eventId ev).bind fun id =>
    (computeDerived fl now (LiveSess.update [] ev)).map fun s =>
    { eng with sessions := Dict.set eng.sessions id s }
  | .sessionProgress => (eventId ev).bind fun id =>
    match eng.sessions.lookup id with
    | none | some [] => .ok eng
    | some (m :: s) => (computeDerived fl now (LiveSess.update (m :: s) ev)).map fun s =>
      { eng with sessions := Dict.set eng.sessions id s }
  | .sessionEnd => (eventId ev).bind fun id =>
    let popped := { eng with sessions := eng.sessions.filter fun kv => kv.1 != id }
    match eng.sessions.lookup id with
    | none | some [] => .ok popped
    | some (m :: s) => popped.finish fl (LiveSess.update (m :: s) ev)
  | .ready => .ok { eng with ready := true }
  | .other => .ok eng

/-- `_on_event`: what is not a dict has no `get`. -/
def LiveEngine.onEvent (now : F) (eng : LiveEngine F) : Json → Except PyError (LiveEngine F)
  | .obj ms => eng.onDict fl now (.obj ms)
  | _ => .error .attributeError

/-- What `json.loads` raises. -/
inductive LoadError
  /-- `JSONDecodeError` -/
  | decode
  /-- a `ValueError` for an integer with too many digits, a `RecursionError` -/
  | other
deriving DecidableEq

variable (loads : Text → Except LoadError Json)

/-- The limit of an `asyncio.StreamReader`, for a line without its end. -/
def STREAM_LIMIT : Nat := 2 ^ 16

def lineLength (line : Bytes) : Nat :=
  if line.getLast? = some 10 then line.length - 1 else line.length

/-- One round of `_reader`; `none` once it has died of an exception. -/
def LiveEngine.readLine (eng : LiveEngine F) (now : F) (line : Bytes) : Option (LiveEngine F) :=
  if STREAM_LIMIT < lineLength line then none
  else
    match loads (Utf8.decode line) with
    | .error .decode => some eng
    | .error .other => none
    | .ok v => (eng.onEvent fl now v).toOption

/-- A round of the reader, if it is still there. -/
def readerStep (st : Option (LiveEngine F)) (l : F × Bytes) : Option (LiveEngine F) :=
  st.bind fun eng => eng.readLine fl loads l.1 l.2

/-! ## What must not raise -/

/-- Every conversion on the way to the derived values succeeds. -/
def Derives (now : F) (s : LiveSess F) : Prop :=
  ∃ total done started,
    intOr fl (s.get (text "total_bytes")) = .ok total ∧
    intOr fl (s.get (text "bytes_transferred")) = .ok done ∧
    (0 < total → ∃ x, fl.ratio done total = .ok x) ∧
    startedAt fl now s = .ok started ∧
    (fl.lt (fl.sub now started) (fl.ofNat 0) = false →
      ∃ n, fl.trunc (fl.mul (fl.sub now started) (fl.ofNat 1000)) = .ok n) ∧
    (∃ xs ys speed, samplesOf s started = .ok xs ∧
      trim fl (fl.sub now (fl.ofNat 2)) (xs ++ [.own now done]) = .ok ys ∧
      speedOf fl now done ys = .ok speed) ∧
    ∃ peak, intOr fl (s.get (text "max_speed")) = .ok peak

/-- The line names a session and an event of it. -/
structure SessionEvent (line : Bytes) (ev : Json) (id : Int) : Prop where
  json : loads (Utf8.decode line) = .ok ev
  dict : ∃ ms, ev = .obj ms
  kind : eventKind ev = .sessionStart ∨ eventKind ev = .sessionProgress ∨ eventKind ev = .sessionEnd
  names : eventId ev = .ok id

/-- What a line may do: the tables stay as they are unless it is an event of a session, and then
    only that session is touched. -/
structure Framed (line : Bytes) (eng eng' : LiveEngine F) : Prop where
  other : (∀ ev id, ¬ SessionEvent loads line ev id) →
    eng'.sessions = eng.sessions ∧ eng'.history = eng.history
  own : ∀ ev id, SessionEvent loads line ev id →
    ∀ k, k ≠ id → eng'.sessions.lookup k = eng.sessions.lookup k

/-- The reader gets over the line and goes on, and the line does no more than it may. -/
def Processes (eng : LiveEngine F) (now : F) (line : Bytes) : Prop :=
  ∃ eng', eng.readLine fl loads now line = some eng' ∧ Framed loads line eng eng'

/-- A dict that does not raise. -/
def Harmless (eng : LiveEngine F) (now : F) (ev : Json) : Prop :=
  match eventKind ev with
  | .sessionStart => (∃ id, eventId ev = .ok id) ∧ Derives fl now (LiveSess.update [] ev)
  | .sessionProgress => ∃ id, eventId ev = .ok id ∧
    ∀ s, eng.sessions.lookup id = some s → s ≠ [] → Derives fl now (s.update ev)
  | .sessionEnd => ∃ id, eventId ev = .ok id ∧
    ∀ s, eng.sessions.lookup id = some s → s ≠ [] →
      (∃ n, finalSpeed fl (s.update ev) = .ok n) ∧
      ∃ n, intOr fl ((s.update ev).get (text "bytes_transferred")) = .ok n
  | .stat | .ready | .other => True

/-! ## The derived values -/

section Raises

variable {α β : Type} {x : Except PyError α}

theorem ok_bind_iff {f : α → Except PyError β} :
    (∃ r, x.bind f = .ok r) ↔ ∃ a, x = .ok a ∧ ∃ r, f a = .ok r := by
  simp only [bind_eq_ok]
  exact ⟨fun ⟨r, a, ha, hr⟩ => ⟨a, ha, r, hr⟩, fun ⟨a, ha, r, hr⟩ => ⟨r, a, ha, hr⟩⟩

theorem ok_map_iff {f : α → β} : (∃ r, x.map f = .ok r) ↔ ∃ a, x = .ok a := by
  simp only [map_eq_ok]
  exact ⟨fun ⟨_, a, ha, _⟩ => ⟨a, ha⟩, fun ⟨a, ha⟩ => ⟨f a, a, ha, rfl⟩⟩

end Raises

theorem get_set_ne {s : LiveSess F} {key n : Text} (h : key ≠ n) (v : PyVal F) :
    (s.set key v).get n = s.get n := by
  simp [LiveSess.set, LiveSess.get, h]

theorem progressOf_ok_iff {done total : Int} :
    (∃ v, progressOf fl done total = .ok v) ↔ (0 < total → ∃ x, fl.ratio done total = .ok x) := by
  unfold progressOf
  split
  · next h => simp [map_eq_ok, h]
  · next h => simp [h]

theorem durationMs_ok_iff {now started : F} :
    (∃ n, durationMs fl now started = .ok n) ↔
      (fl.lt (fl.sub now started) (fl.ofNat 0) = false →
        ∃ n, fl.trunc (fl.mul (fl.sub now started) (fl.ofNat 1000)) = .ok n) := by
  unfold durationMs
  split
  · next h => simp [h]
  · next h => simp [Bool.eq_false_iff.2 h]

theorem startedAt_set {now : F} {s : LiveSess F} {key : Text} (h : key ≠ text "started_at")
    (v : PyVal F) : startedAt fl now (s.set key v) = startedAt fl now s := by
  rw [startedAt, get_set_ne h, startedAt]

theorem samplesOf_set {started : F} {s : LiveSess F} {key : Text} (h : key ≠ text "_spd_samples")
    (v : PyVal F) : samplesOf (s.set key v) started = samplesOf s started := by
  rw [samplesOf, get_set_ne h, samplesOf]

/-- `_compute_derived` raises exactly if one of its conversions does. -/
theorem computeDerived_ok_iff {now : F} {s : LiveSess F} :
    (∃ s', computeDerived fl now s = .ok s') ↔ Derives fl now s := by
  have hkeys : text "progress" ≠ text "started_at" ∧ text "progress" ≠ text "_spd_samples" ∧
      text "duration_ms" ≠ text "_spd_samples" ∧ text "progress" ≠ text "max_speed" ∧
      text "duration_ms" ≠ text "max_speed" ∧ text "_spd_samples" ≠ text "max_speed" ∧
      text "speed" ≠ text "max_speed" := by decide
  obtain ⟨h1, h2, h3, h4, h5, h6, h7⟩ := hkeys
  -- the values that are set on the way are not read again
  simp only [computeDerived, ok_bind_iff, ok_map_iff, startedAt_set fl h1, samplesOf_set h3,
    samplesOf_set h2, get_set_ne h7, get_set_ne h6, get_set_ne h5, get_set_ne h4]
  constructor
  · rintro ⟨total, htotal, done, hdone, progress, hprogress, started, hstarted, ms, hms, xs, hxs, ys,
      hys, speed, hspeed, peak, hpeak⟩
    exact ⟨total, done, started, htotal, hdone, (progressOf_ok_iff fl).1 ⟨progress, hprogress⟩,
      hstarted, (durationMs_ok_iff fl).1 ⟨ms, hms⟩, ⟨xs, ys, speed, hxs, hys, hspeed⟩, peak, hpeak⟩
  · rintro ⟨total, done, started, htotal, hdone, hprogress, hstarted, hms,
      ⟨xs, ys, speed, hxs, hys, hspeed⟩, peak, hpeak⟩
    obtain ⟨progress, hprogress⟩ := (progressOf_ok_iff fl).2 hprogress
    obtain ⟨ms, hms⟩ := (durationMs_ok_iff fl).2 hms
    exact ⟨total, htotal, done, hdone, progress, hprogress, started, hstarted, ms, hms, xs, hxs, ys,
      hys, speed, hspeed, peak, hpeak⟩

/-! ## One event -/

theorem finish_ok_iff (eng : LiveEngine F) (s : LiveSess F) :
    (∃ eng', eng.finish fl s = .ok eng') ↔ (∃ n, finalSpeed fl s = .ok n) ∧
      ∃ n, intOr fl (s.get (text "bytes_transferred")) = .ok n := by
  have hkey : text "speed" ≠ text "bytes_transferred" := by decide
  simp only [LiveEngine.finish, ok_bind_iff, ok_map_iff, get_set_ne hkey]
  exact ⟨fun ⟨n, hn, hbt⟩ => ⟨⟨n, hn⟩, hbt⟩, fun ⟨⟨n, hn⟩, hbt⟩ => ⟨n, hn, hbt⟩⟩

theorem onDict_ok_iff (eng : LiveEngine F) (now : F) (ev : Json) :
    (∃ eng', eng.onDict fl now ev = .ok eng') ↔ Harmless fl eng now ev := by
  unfold LiveEngine.onDict Harmless
  cases eventKind ev with
  | stat | ready | other => exact iff_of_true ⟨_, rfl⟩ trivial
  | sessionStart =>
    simp only [ok_bind_iff, ok_map_iff]
    rw [← computeDerived_ok_iff]
    exact ⟨fun ⟨id, hid, hs⟩ => ⟨⟨id, hid⟩, hs⟩, fun ⟨⟨id, hid⟩, hs⟩ => ⟨id, hid, hs⟩⟩
  | sessionProgress =>
    simp only [ok_bind_iff]
    refine exists_congr fun id => and_congr_right fun _ => ?_
    rcases eng.sessions.lookup id with _ | ⟨_ | ⟨m, s⟩⟩
    · exact iff_of_true ⟨_, rfl⟩ fun _ h => nomatch h
    · exact iff_of_true ⟨_, rfl⟩ fun _ h hne => absurd (Option.some.inj h).symm hne
    · simp only [ok_map_iff, computeDerived_ok_iff]
      exact ⟨fun h s' hs' _ => Option.some.inj hs' ▸ h, fun h => h _ rfl (List.cons_ne_nil m s)⟩
  | sessionEnd =>
    simp only [ok_bind_iff]
    refine exists_congr fun id => and_congr_right fun _ => ?_
    rcases eng.sessions.lookup id with _ | ⟨_ | ⟨m, s⟩⟩
    · exact iff_of_true ⟨_, rfl⟩ fun _ h => nomatch h
    · exact iff_of_true ⟨_, rfl⟩ fun _ h hne => absurd (Option.some.inj h).symm hne
    · simp only [finish_ok_iff]
      exact ⟨fun h s' hs' _ => Option.some.inj hs' ▸ h, fun h => h _ rfl (List.cons_ne_nil m s)⟩

theorem finish_sessions {eng eng' : LiveEngine F} {s : LiveSess F} (h : eng.finish fl s = .ok eng') :
    eng'.sessions = eng.sessions := by
  obtain ⟨_, -, h⟩ := bind_eq_ok.1 h
  obtain ⟨_, -, rfl⟩ := map_eq_ok.1 h
  rfl

/-- An event touches the session it names and no other. -/
theorem onDict_lookup {eng eng' : LiveEngine F} {now : F} {ev : Json} {id k : Int}
    (h : eng.onDict fl now ev = .ok eng') (hid : eventId ev = .ok id) (hk : k ≠ id) :
    eng'.sessions.lookup k = eng.sessions.lookup k := by
  have hset : ∀ s, (Dict.set eng.sessions id s).lookup k = eng.sessions.lookup k := by
    intro s
    rw [Dict.lookup_set, if_neg hk]
  have hpop : (eng.sessions.filter fun kv => kv.1 != id).lookup k = eng.sessions.lookup k := by
    rw [Dict.lookup_filter eng.sessions (· != id), if_pos (by simpa using hk)]
  unfold LiveEngine.onDict at h
  rw [hid] at h
  cases hkind : eventKind ev with
  | stat | ready | other =>
    rw [hkind] at h
    cases h
    rfl
  | sessionStart =>
    rw [hkind] at h
    obtain ⟨s, -, rfl⟩ := map_eq_ok.1 h
    exact hset s
  | sessionProgress =>
    rw [hkind] at h
    simp only [Except.bind] at h
    split at h
    · cases h
      rfl
    · cases h
      rfl
    · obtain ⟨s, -, rfl⟩ := map_eq_ok.1 h
      exact hset s
  | sessionEnd =>
    rw [hkind] at h
    simp only [Except.bind] at h
    split at h
    · cases h
      exact hpop
    · cases h
      exact hpop
    · rw [finish_sessions fl h]
      exact hpop

/-- What is not an event of a session leaves both tables as they are. -/
theorem onDict_tables {eng eng' : LiveEngine F} {now : F} {ev : Json}
    (h : eng.onDict fl now ev = .ok eng')
    (hkind : ¬ (eventKind ev = .sessionStart ∨ eventKind ev = .sessionProgress ∨
      eventKind ev = .sessionEnd)) :
    eng'.sessions = eng.sessions ∧ eng'.history = eng.history := by
  unfold LiveEngine.onDict at h
  cases hk : eventKind ev with
  | stat | ready | other =>
    rw [hk] at h
    cases h
    exact ⟨rfl, rfl⟩
  | sessionStart | sessionProgress | sessionEnd => simp [hk] at hkind

/-- A session's event without an id raises. -/
theorem eventId_of_ok {eng eng' : LiveEngine F} {now : F} {ev : Json}
    (h : eng.onDict fl now ev = .ok eng')
    (hkind : eventKind ev = .sessionStart ∨ eventKind ev = .sessionProgress ∨
      eventKind ev = .sessionEnd) : ∃ id, eventId ev = .ok id := by
  unfold LiveEngine.onDict at h
  rcases hkind with hk | hk | hk
  all_goals
    rw [hk] at h
    obtain ⟨id, hid, -⟩ := bind_eq_ok.1 h
    exact ⟨id, hid⟩

/-! ## One line -/

theorem readLine_framed {eng eng' : LiveEngine F} {now : F} {line : Bytes}
    (h : eng.readLine fl loads now line = some eng') : Framed loads line eng eng' := by
  unfold LiveEngine.readLine at h
  split at h
  · cases h
  cases hload : loads (Utf8.decode line) with
  | error e =>
    rw [hload] at h
    cases e with
    | decode =>
      cases h
      exact ⟨fun _ => ⟨rfl, rfl⟩, fun _ _ _ _ _ => rfl⟩
    | other => cases h
  | ok v =>
    rw [hload] at h
    have hok : eng.onEvent fl now v = .ok eng' := by
      cases hev : eng.onEvent fl now v with
      | error e => simp [hev, Except.toOption] at h
      | ok e => simpa [hev, Except.toOption] using h
    cases v with
    | obj ms =>
      have hdict : eng.onDict fl now (.obj ms) = .ok eng' := hok
      refine ⟨fun hnone => onDict_tables fl hdict fun hkind => ?_, fun ev id hev k hk => ?_⟩
      · obtain ⟨id, hid⟩ := eventId_of_ok fl hdict hkind
        exact hnone _ id ⟨hload, ⟨ms, rfl⟩, hkind, hid⟩
      · obtain rfl : Json.obj ms = ev := Except.ok.inj (hload.symm.trans hev.json)
        exact onDict_lookup fl hdict hev.names hk
    | _ => cases hok

theorem processes_iff_some (eng : LiveEngine F) (now : F) (line : Bytes) :
    Processes fl loads eng now line ↔ ∃ eng', eng.readLine fl loads now line = some eng' :=
  ⟨fun ⟨eng', h, _⟩ => ⟨eng', h⟩, fun ⟨eng', h⟩ => ⟨eng', h, readLine_framed fl loads h⟩⟩

/-- `json.loads`, up to the limits of the interpreter. -/
def pyLoads (t : Text) : Except LoadError Json :=
  match Json.loads t with
  | some v => .ok v
  | none => .error .decode

/-- Whole numbers for the floats and no sample taken from a line: enough for lines that no float is
    computed for. -/
def wholeFloats : Floats Int where
  ofJson := Py.toInt
  trunc := .ok
  nonzero := (· != 0)
  lt x y := decide (x < y)
  sub x y := x - y
  mul x y := x * y
  ofNat n := n
  ratio a b := .ok (a / b)
  quot n x := .ok (n / x)
  jsonBefore _ _ := .error .typeError
  jsonRate _ _ _ := .error .typeError

/-- The state before the first line. -/
def LiveEngine.fresh : LiveEngine Int := ⟨.obj [], [], [], false⟩

def derivedKeys : List Text :=
  [text "progress", text "duration_ms", text "_spd_samples", text "speed", text "max_speed"]

/-- Apart from the derived values the session is the dict. -/
def Shows (s : LiveSess F) (j : Json) : Prop :=
  ∀ key, key ∉ derivedKeys → s.get key = (j.get key).map .json

structure Shown (eng : LiveEngine F) (old : CoreEngine) : Prop where
  stats : eng.stats = old.stats
  ready : eng.ready = old.ready
  sessions : ∀ id, (eng.sessions.lookup id = none ∧ old.get id = none) ∨
    ∃ s j, eng.sessions.lookup id = some s ∧ old.get id = some j ∧ s ≠ [] ∧ Shows s j
  history : List.Forall₂ Shows eng.history old.sessionHistory

theorem get_set_derived {s : LiveSess F} {key n : Text} (hkey : key ∈ derivedKeys)
    (hn : n ∉ derivedKeys) (v : PyVal F) : (s.set key v).get n = s.get n := by
  refine get_set_ne (fun h => ?_) v
  subst h
  exact hn hkey

theorem get_liveUpdate (s : LiveSess F) (ev : Json) (key : Text) :
    (s.update ev).get key = ((ev.get key).map .json).or (s.get key) := by
  cases ev with
  | obj ms =>
    simp only [LiveSess.update, LiveSess.get, items, Json.get, List.reverse_append,
      ← List.map_reverse, List.find?_append, List.find?_map, Function.comp_def]
    cases ms.reverse.find? fun m => m.1 == key <;> rfl
  | _ => simp [LiveSess.update, items, Json.get]

theorem get_update_or (j ev : Json) (key : Text) :
    (update j ev).get key = (ev.get key).or (j.get key) := by
  have hitems : ∀ d : Json, d.get key = ((items d).reverse.find? fun m => m.1 == key).map (·.2) := by
    intro d
    cases d <;> rfl
  rw [hitems, hitems ev, hitems j, update, items, List.reverse_append, List.find?_append]
  cases (items ev).reverse.find? fun m => m.1 == key <;> rfl

theorem shows_update {s : LiveSess F} {j : Json} (h : Shows s j) (ev : Json) :
    Shows (s.update ev) (update j ev) := by
  intro key hkey
  rw [get_liveUpdate, get_update_or, h key hkey]
  cases ev.get key <;> rfl

theorem shows_start (ev : Json) : Shows (LiveSess.update ([] : LiveSess F) ev) ev := by
  intro key _
  rw [get_liveUpdate]
  cases ev.get key <;> rfl

theorem shows_set {s : LiveSess F} {j : Json} (h : Shows s j) {key : Text} (hkey : key ∈ derivedKeys)
    (v : PyVal F) : Shows (s.set key v) j :=
  fun n hn => (get_set_derived hkey hn v).trans (h n hn)

/-- The derived values change nothing else. -/
theorem computeDerived_shows {now : F} {s s' : LiveSess F} {j : Json}
    (h : computeDerived fl now s = .ok s') (hs : Shows s j) : s' ≠ [] ∧ Shows s' j := by
  simp only [computeDerived, bind_eq_ok, map_eq_ok] at h
  obtain ⟨_, -, _, -, _, -, _, -, _, -, _, -, _, -, _, -, _, -, rfl⟩ := h
  refine ⟨by simp [LiveSess.set], ?_⟩
  exact shows_set (shows_set (shows_set (shows_set (shows_set hs (by decide) _) (by decide) _)
    (by decide) _) (by decide) _) (by decide) _

theorem find_filter {β : Type} (p : Text → Bool) (l : List (Text × β)) (key : Text) :
    ((l.filter fun m => p m.1).reverse.find? fun m => m.1 == key) =
      if p key then l.reverse.find? fun m => m.1 == key else none := by
  rw [← List.filter_reverse, List.find?_filter]
  split
  · next hp =>
    refine congrArg (l.reverse.find? ·) (funext fun m => ?_)
    by_cases hm : m.1 = key <;> simp [hm, hp]
  · next hp =>
    refine List.find?_eq_none.2 fun m _ hm => ?_
    simp only [decide_eq_true_eq, beq_iff_eq] at hm
    exact hp (hm.2 ▸ hm.1)

/-- What goes into the history. -/
theorem shows_public {s : LiveSess F} {j : Json} (h : Shows s j) :
    Shows (s.filter fun m => m.1.head? != some 95)
      (.obj ((items j).filter fun m => m.1.head? != some 95)) := by
  intro key hkey
  have hj : j.get key = ((items j).reverse.find? fun m => m.1 == key).map (·.2) := by
    cases j <;> rfl
  have hs := h key hkey
  rw [hj] at hs
  rw [LiveSess.get, Json.get, find_filter (fun t => t.head? != some 95),
    find_filter (fun t => t.head? != some 95)]
  split
  · exact hs
  · rfl

theorem intOr_shown {s : LiveSess F} {j : Json} (h : Shows s j) {key : Text} (hkey : key ∉ derivedKeys) :
    intOr fl (s.get key) = intOrZero (j.get key) := by
  rw [h key hkey]
  cases j.get key <;> rfl

section Shown

variable {eng eng' : LiveEngine F} {old : CoreEngine} {id : Int}

theorem Shown.set (h : Shown eng old) {s : LiveSess F} {j : Json} (hs : s ≠ [] ∧ Shows s j) (id : Int) :
    Shown { eng with sessions := Dict.set eng.sessions id s } (old.set id j) := by
  refine ⟨h.stats, h.ready, fun k => ?_, h.history⟩
  have hold : (old.set id j).get k = if k = id then some j else old.get k :=
    Dict.lookup_set old.sessions id k j
  rw [hold, Dict.lookup_set]
  by_cases hk : k = id
  · rw [if_pos hk, if_pos hk]
    exact .inr ⟨s, j, rfl, rfl, hs.1, hs.2⟩
  · rw [if_neg hk, if_neg hk]
    exact h.sessions k

theorem Shown.pop (h : Shown eng old) (id : Int) :
    Shown { eng with sessions := eng.sessions.filter fun kv => kv.1 != id } (old.pop id) := by
  refine ⟨h.stats, h.ready, fun k => ?_, h.history⟩
  have hold : (old.pop id).get k = if k != id then old.get k else none :=
    Dict.lookup_filter old.sessions (· != id) k
  rw [hold, Dict.lookup_filter eng.sessions (· != id)]
  by_cases hk : k = id
  · simp [hk]
  · simpa [hk] using h.sessions k

/-- Popping what is not there. -/
theorem Shown.pop_missing (h : Shown eng old) (hold : old.get id = none) :
    Shown { eng with sessions := eng.sessions.filter fun kv => kv.1 != id } old := by
  have hpop := h.pop id
  refine ⟨h.stats, h.ready, fun k => ?_, h.history⟩
  by_cases hk : k = id
  · subst hk
    refine .inl ⟨?_, hold⟩
    rw [Dict.lookup_filter eng.sessions (· != k)]
    simp
  · have hsame : (old.pop id).get k = old.get k :=
      (Dict.lookup_filter old.sessions (· != id) k).trans (if_pos (by simpa using hk))
    rw [← hsame]
    exact hpop.sessions k

/-- A session that ends goes into both histories. -/
theorem Shown.finish (h : Shown eng old) {s : LiveSess F} {j ev : Json} (hs : Shows s (update j ev))
    (hf : eng.finish fl s = .ok eng') : ∃ old', finished old j ev = .ok old' ∧ Shown eng' old' := by
  simp only [LiveEngine.finish, bind_eq_ok, map_eq_ok] at hf
  obtain ⟨speed, -, bt, hbt, rfl⟩ := hf
  have hkey : text "speed" ∈ derivedKeys := by decide
  have hset := shows_set hs hkey (.json (.int speed))
  rw [intOr_shown fl hset (by decide)] at hbt
  rw [finished, hbt]
  refine ⟨_, rfl, h.stats, h.ready, h.sessions, ?_⟩
  exact List.forall₂_take _ (.cons (shows_public hset) h.history)

end Shown

/-- **What the reader shows.**  As long as no line ends it, the engine of `Py/Engine` takes the same
    events and has the same tables, apart from the derived values. -/
theorem onEvent_shown {eng eng' : LiveEngine F} {old : CoreEngine} {now : F} {ev : Json}
    (h : Shown eng old) (hev : eng.onEvent fl now ev = .ok eng') :
    ∃ old', onEvent old ev = .ok old' ∧ Shown eng' old' := by
  cases ev with
  | obj ms =>
    have hdict : eng.onDict fl now (.obj ms) = .ok eng' := hev
    show ∃ old', onDict old (.obj ms) = .ok old' ∧ _
    generalize Json.obj ms = ev at hdict
    unfold LiveEngine.onDict at hdict
    unfold onDict
    cases hkind : eventKind ev with
    | stat =>
      rw [hkind] at hdict
      cases hdict
      exact ⟨_, rfl, rfl, h.ready, h.sessions, h.history⟩
    | ready =>
      rw [hkind] at hdict
      cases hdict
      exact ⟨_, rfl, h.stats, rfl, h.sessions, h.history⟩
    | other =>
      rw [hkind] at hdict
      cases hdict
      exact ⟨old, rfl, h⟩
    | sessionStart =>
      rw [hkind] at hdict
      obtain ⟨id, hid, hdict⟩ := bind_eq_ok.1 hdict
      obtain ⟨s, hs, rfl⟩ := map_eq_ok.1 hdict
      rw [hid]
      exact ⟨_, rfl, h.set (computeDerived_shows fl hs (shows_start ev)) id⟩
    | sessionProgress =>
      rw [hkind] at hdict
      obtain ⟨id, hid, hdict⟩ := bind_eq_ok.1 hdict
      simp only [hid, Except.map]
      rcases h.sessions id with ⟨hnone, hold⟩ | ⟨s, j, hsome, hold, hne, hshows⟩
      · rw [hnone] at hdict
        cases hdict
        rw [hold]
        exact ⟨old, rfl, h⟩
      · obtain ⟨m, s, rfl⟩ := List.exists_cons_of_ne_nil hne
        rw [hsome] at hdict
        obtain ⟨s', hs', rfl⟩ := map_eq_ok.1 hdict
        rw [hold]
        exact ⟨_, rfl, h.set (computeDerived_shows fl hs' (shows_update hshows ev)) id⟩
    | sessionEnd =>
      rw [hkind] at hdict
      obtain ⟨id, hid, hdict⟩ := bind_eq_ok.1 hdict
      simp only [hid, Except.bind]
      rcases h.sessions id with ⟨hnone, hold⟩ | ⟨s, j, hsome, hold, hne, hshows⟩
      · rw [hnone] at hdict
        cases hdict
        rw [hold]
        exact ⟨old, rfl, h.pop_missing hold⟩
      · obtain ⟨m, s, rfl⟩ := List.exists_cons_of_ne_nil hne
        rw [hsome] at hdict
        rw [hold]
        exact (h.pop id).finish fl (shows_update hshows ev) hdict
  | _ => cases hev

theorem readLine_shown {eng eng' : LiveEngine F} {old : CoreEngine} {now : F} {line : Bytes}
    (h : Shown eng old) (hl : eng.readLine fl pyLoads now line = some eng') :
    ∃ old', readerLine (some old) line = some old' ∧ Shown eng' old' := by
  unfold LiveEngine.readLine pyLoads at hl
  simp only [readerLine, readLine, Option.bind_some]
  split at hl
  · cases hl
  cases hloads : Json.loads (Utf8.decode line) with
  | none =>
    rw [hloads] at hl
    obtain rfl := Option.some.inj hl
    exact ⟨old, rfl, h⟩
  | some ev =>
    rw [hloads] at hl
    cases hev : eng.onEvent fl now ev with
    | error err =>
      simp only [hev] at hl
      cases hl
    | ok eng₁ =>
      simp only [hev] at hl
      obtain rfl := Option.some.inj hl
      obtain ⟨old', hold, hshown⟩ := onEvent_shown fl h hev
      exact ⟨old', by simp only [hold]; rfl, hshown⟩

end Nishro.Py

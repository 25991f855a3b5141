import NishroTftp.Py.Value
/-
  The Python side of the C engine's pipe (`core/engine.py`): how the stream of its stdout is cut
  into lines, what a line is read as, and what `_on_event` makes of it.

  A dict is an object with its members in the order they were set; setting a key again appends,
  since the last member of a name counts.  What raises in the source returns `Except.error`, and an
  exception in `_on_event` ends the reader for good.
-/
namespace Nishro.Py

open Utf8 (Text text)

/-! ## Lines -/

/-- The values of `await self.proc.stdout.readline()`, one after another: each runs to the next
    newline and keeps it; what is left when the pipe closes comes last. -/
def readlines : Bytes → List Bytes
  | [] => []
  | b :: bs =>
    if b = 10 then [b] :: readlines bs
    else
      match readlines bs with
      | [] => [[b]]
      | l :: ls => (b :: l) :: ls

theorem length_readlines (bs : Bytes) :
    (readlines (bs ++ [10])).length = bs.count 10 + 1 := by
  induction bs with
  | nil => rfl
  | cons b bs ih =>
    rw [List.cons_append, readlines]
    by_cases hb : b = 10
    · rw [if_pos hb, List.length_cons, ih, hb, List.count_cons_self]
    · rw [if_neg hb, List.count_cons_of_ne hb, ← ih]
      cases hl : readlines (bs ++ [10]) with
      | nil => simp [hl] at ih
      | cons l ls => rfl

/-- A text is one line exactly when it holds no newline but the one at its end. -/
theorem readlines_eq_single (bs : Bytes) :
    readlines (bs ++ [10]) = [bs ++ [10]] ↔ 10 ∉ bs := by
  constructor
  · intro h
    have hlen := length_readlines bs
    rw [h, List.length_singleton] at hlen
    exact List.count_eq_zero.mp (by omega)
  · intro h
    induction bs with
    | nil => rfl
    | cons b bs ih =>
      rw [List.mem_cons, not_or] at h
      rw [List.cons_append, readlines, if_neg (Ne.symm h.1), ih h.2]

/-- The lines of a stretch that ends with a newline do not depend on what follows. -/
theorem readlines_append (l bs : Bytes) :
    readlines (l ++ [10] ++ bs) = readlines (l ++ [10]) ++ readlines bs := by
  induction l with
  | nil => simp [readlines]
  | cons b l ih =>
    simp only [List.cons_append, readlines]
    by_cases hb : b = 10
    · simp only [if_pos hb, List.cons_append, ih]
    · simp only [if_neg hb, ih]
      have hlen := length_readlines l
      cases hl : readlines (l ++ [10]) with
      | nil => simp [hl] at hlen
      | cons _ _ => rfl

/-- What `_reader` hands to `_on_event`; a line that is not JSON is logged and dropped. -/
def readLine (line : Bytes) : Option Json := Json.loads (Utf8.decode line)

/-! ## Objects -/

/-- `d.update(e)`. -/
def update (d e : Json) : Json := .obj (items d ++ items e)

/-! ## The engine's tables -/

/-- The arguments of a call of `daily_stats.record`. -/
structure DayRecord where
  success : Bool
  serverFault : Bool
  bytesSent : Int
  bytesReceived : Int
  filename : Option Json
  clientMac : Option Json

/-- `CoreEngine`: the fields `_on_event` writes, and the calls it has made of
    `daily_stats.record`. -/
structure CoreEngine where
  stats : Json
  sessions : List (Int × Json)
  sessionHistory : List Json
  ready : Bool
  recorded : List DayRecord

def CoreEngine.new : CoreEngine := ⟨.obj [], [], [], false, []⟩

/-- `self._sessions.get(id)`. -/
def CoreEngine.get (eng : CoreEngine) (id : Int) : Option Json := eng.sessions.lookup id

/-- `self._sessions[id] = s`: in its old place, or at the end. -/
def CoreEngine.set (eng : CoreEngine) (id : Int) (s : Json) : CoreEngine :=
  { eng with sessions :=
      if id ∈ eng.sessions.map (·.1) then
        eng.sessions.map fun m => if m.1 = id then (id, s) else m
      else eng.sessions ++ [(id, s)] }

/-- `self._sessions.pop(id, None)`. -/
def CoreEngine.pop (eng : CoreEngine) (id : Int) : CoreEngine :=
  { eng with sessions := eng.sessions.filter fun m => m.1 != id }

/-- `str(s.get("kind", "")).upper() == word`, for an ASCII word. -/
def kindIs (word : String) (s : Json) : Bool :=
  match s.get (text "kind") with
  | some (.str t) => (t.map fun c => if 97 ≤ c ∧ c ≤ 122 then c - 32 else c) == text word
  | _ => false

/-- `int(ev["id"])`. -/
def eventId (ev : Json) : Except PyError Int :=
  match ev.get (text "id") with
  | none => .error .keyError
  | some x => toInt x

def HISTORY_MAX : Nat := 100

/-- What the daily totals are told of a session that has ended. -/
def dayRecord (s ev : Json) (bt : Int) : DayRecord where
  success := (ev.get (text "ok")).any truthy
  serverFault := (ev.get (text "server_fault")).any truthy
  bytesSent := if kindIs "RRQ" s then bt else 0
  bytesReceived := if kindIs "WRQ" s then bt else 0
  filename := s.get (text "filename")
  clientMac := s.get (text "client_mac")

/-- `session_end` of a session that was in the table: into the history and the daily totals. -/
def finished (eng : CoreEngine) (s ev : Json) : Except PyError CoreEngine :=
  (intOrZero ((update s ev).get (text "bytes_transferred"))).map fun bt =>
    { eng with
      sessionHistory := (Json.obj ((items (update s ev)).filter fun m => m.1.head? != some 95) ::
        eng.sessionHistory).take HISTORY_MAX
      recorded := eng.recorded ++ [dayRecord (update s ev) ev bt] }

inductive EventKind
  | stat
  | sessionStart
  | sessionProgress
  | sessionEnd
  | ready
  | other
deriving DecidableEq, Repr

/-- `ev.get("ev")`; "hello", "bye" and what is unknown are only logged. -/
def eventKind (ev : Json) : EventKind :=
  match ev.get (text "ev") with
  | some (.str t) =>
    if t = text "stat" then .stat
    else if t = text "session_start" then .sessionStart
    else if t = text "session_progress" then .sessionProgress
    else if t = text "session_end" then .sessionEnd
    else if t = text "ready" then .ready
    else .other
  | _ => .other

/-- `_on_event` on a dict, without the values `_compute_derived` adds for display. -/
def onDict (eng : CoreEngine) (ev : Json) : Except PyError CoreEngine :=
  match eventKind ev with
  | .stat => .ok { eng with stats := ev }
  | .sessionStart => (eventId ev).map fun id => eng.set id ev
  | .sessionProgress => (eventId ev).map fun id =>
    match eng.get id with
    | some s => eng.set id (update s ev)
    | none => eng
  | .sessionEnd => (eventId ev).bind fun id =>
    match eng.get id with
    | some s => finished (eng.pop id) s ev
    | none => .ok eng
  | .ready => .ok { eng with ready := true }
  | .other => .ok eng

/-- `_on_event`: what is not a dict has no `get`. -/
def onEvent (eng : CoreEngine) : Json → Except PyError CoreEngine
  | .obj ms => onDict eng (.obj ms)
  | _ => .error .attributeError

/-- One line for the reader; `none` once it has died of an exception. -/
def readerLine (eng : Option CoreEngine) (line : Bytes) : Option CoreEngine :=
  eng.bind fun eng =>
    match readLine line with
    | none => some eng
    | some ev => (onEvent eng ev).toOption

/-- `_reader` over a stretch of the stream. -/
def reader (eng : Option CoreEngine) (stream : Bytes) : Option CoreEngine :=
  (readlines stream).foldl readerLine eng

theorem reader_append (eng : Option CoreEngine) (l bs : Bytes) :
    reader eng (l ++ [10] ++ bs) = reader (reader eng (l ++ [10])) bs := by
  rw [reader, readlines_append, List.foldl_append]
  rfl

/-! ## The keys of the table -/

def CoreEngine.keys (eng : CoreEngine) : List Int := eng.sessions.map (·.1)

theorem mem_keys_set (eng : CoreEngine) (id : Int) (s : Json) (k : Int) :
    k ∈ (eng.set id s).keys ↔ k = id ∨ k ∈ eng.keys := by
  unfold CoreEngine.set CoreEngine.keys
  by_cases hid : id ∈ eng.sessions.map (·.1)
  · rw [if_pos hid, List.map_map]
    have hkeys : (Prod.fst ∘ fun m : Int × Json => if m.1 = id then (id, s) else m) = Prod.fst := by
      funext m
      by_cases hm : m.1 = id <;> simp [hm]
    rw [hkeys]
    constructor
    · exact .inr
    · rintro (rfl | h)
      · exact hid
      · exact h
  · simp [if_neg hid, or_comm]

theorem mem_keys_pop (eng : CoreEngine) (id k : Int) :
    k ∈ (eng.pop id).keys ↔ k ≠ id ∧ k ∈ eng.keys := by
  simp [CoreEngine.pop, CoreEngine.keys, and_comm]

theorem get_update {d e v : Json} {key : Text} (h : e.get key = some v) :
    (update d e).get key = some v := by
  cases e with
  | obj ms =>
    obtain ⟨m, hm, rfl⟩ := Option.map_eq_some_iff.mp h
    simp [update, items, Json.get, List.find?_append, hm]
  | _ => cases h

section Events

variable {ev : Json} {id : Int} (eng : CoreEngine)

theorem onEvent_eq {key : Text} {v : Json} (h : ev.get key = some v) :
    onEvent eng ev = onDict eng ev := by
  cases ev with
  | obj ms => rfl
  | _ => cases h

theorem eventId_eq (h : ev.get (text "id") = some (.int id)) : eventId ev = .ok id := by
  simp [eventId, h, toInt]

theorem mem_keys_of_get {s : Json} (h : eng.get id = some s) : id ∈ eng.keys := by
  obtain ⟨l₁, l₂, hl, -⟩ := List.lookup_eq_some_iff.mp h
  simp [CoreEngine.keys, hl]

theorem not_mem_keys_of_get (h : eng.get id = none) : id ∉ eng.keys := by
  intro hid
  obtain ⟨m, hm, rfl⟩ := List.mem_map.mp hid
  simpa using List.lookup_eq_none_iff.mp h m hm

/-- A session_start enters its id. -/
theorem onEvent_start (hev : ev.get (text "ev") = some (.str (text "session_start")))
    (hid : ev.get (text "id") = some (.int id)) :
    ∃ eng', onEvent eng ev = .ok eng' ∧ ∀ k, k ∈ eng'.keys ↔ k = id ∨ k ∈ eng.keys := by
  have hkind : eventKind ev = .sessionStart := by
    rw [eventKind, hev]
    decide
  refine ⟨eng.set id ev, ?_, mem_keys_set eng id ev⟩
  rw [onEvent_eq eng hev, onDict, hkind, eventId_eq hid]
  rfl

/-- A session_progress enters and removes nothing. -/
theorem onEvent_progress (hev : ev.get (text "ev") = some (.str (text "session_progress")))
    (hid : ev.get (text "id") = some (.int id)) :
    ∃ eng', onEvent eng ev = .ok eng' ∧ ∀ k, k ∈ eng'.keys ↔ k ∈ eng.keys := by
  have hkind : eventKind ev = .sessionProgress := by
    rw [eventKind, hev]
    decide
  rw [onEvent_eq eng hev, onDict, hkind, eventId_eq hid]
  cases hs : eng.get id with
  | none => exact ⟨eng, by simp [Except.map, hs], fun k => Iff.rfl⟩
  | some s =>
    refine ⟨eng.set id (update s ev), by simp [Except.map, hs], fun k => ?_⟩
    rw [mem_keys_set]
    constructor
    · rintro (rfl | h)
      · exact mem_keys_of_get eng hs
      · exact h
    · exact .inr

/-- A session_end removes its id. -/
theorem onEvent_end {bytes : Int} (hev : ev.get (text "ev") = some (.str (text "session_end")))
    (hid : ev.get (text "id") = some (.int id))
    (hbytes : ev.get (text "bytes_transferred") = some (.int bytes)) :
    ∃ eng', onEvent eng ev = .ok eng' ∧ ∀ k, k ∈ eng'.keys ↔ k ≠ id ∧ k ∈ eng.keys := by
  have hkind : eventKind ev = .sessionEnd := by
    rw [eventKind, hev]
    decide
  rw [onEvent_eq eng hev, onDict, hkind, eventId_eq hid]
  cases hs : eng.get id with
  | none =>
    refine ⟨eng, by simp [Except.bind, hs], fun k => ⟨fun hk => ⟨?_, hk⟩, And.right⟩⟩
    rintro rfl
    exact not_mem_keys_of_get eng hs hk
  | some s =>
    have hbt : intOrZero ((update s ev).get (text "bytes_transferred")) = .ok bytes := by
      rw [get_update hbytes, intOrZero_int]
    refine ⟨_, by simp only [Except.bind, hs, finished, hbt, Except.map]; rfl, ?_⟩
    exact mem_keys_pop eng id

end Events

end Nishro.Py

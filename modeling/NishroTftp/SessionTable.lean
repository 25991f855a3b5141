import NishroTftp.CCore.Lifecycle
import NishroTftp.IpcLines
import NishroTftp.Lib.Runs
import Mathlib.Data.Set.Insert
/-
  The parent's table of active sessions against the sessions that are live in the C engine.

  The C engine tells its parent about sessions in lines; the parent keeps the table
  `CoreEngine._sessions` from them.  Between the two stands a LEDGER, the set of ids that a
  sequence of lifecycle lines leaves open.  The parent's keys are the ledger of what was written,
  as long as the lines arrive as they were meant (`reader_stream`), and the ledger is the set of
  live ids, as long as every session is started and ended once (`Table.onSlot`, `Table.open`).
-/
namespace Nishro

open CCore Runs
open Utf8 (text)

/-! ## The ledger -/

/-- One line. -/
def enter (K : Set Int) : LifeEv → Set Int
  | .started id _ => insert (id.toNat : Int) K
  | .ended id => K \ {(id.toNat : Int)}

/-- The ids a sequence of lifecycle lines leaves open. -/
def ledger (K : Set Int) (w : List LifeEv) : Set Int := w.foldl enter K

/-- What a call puts on the pipe. -/
def stream (os : List Output) : Bytes :=
  os.flatMap fun o => match o with
    | .ipc e => Emission.written (.session e)
    | _ => []

theorem written_eq_line (e : Emission) : ∃ l, e.written = l ++ [10] := by
  refine ⟨textMode (snprintf e.bufSize e.format) ++ [13], ?_⟩
  rw [Emission.written, ipcLine, textMode_append, List.append_assoc]
  rfl

/-- A faithful line is taken in as its lifecycle event. -/
theorem reader_line {e : IpcEvent} (h : Faithful (.session e)) (eng : Py.CoreEngine) :
    ∃ eng', Py.reader (some eng) (Emission.written (.session e)) = some eng' ∧
      ∀ k, k ∈ eng'.keys ↔ k ∈ ledger {k | k ∈ eng.keys} (word [.ipc e]) := by
  obtain ⟨halone, j, x, hj, -, hget⟩ := h
  have hreader : ∀ eng', Py.onEvent eng j = .ok eng' →
      Py.reader (some eng) (Emission.written (.session e)) = some eng' := by
    intro eng' hon
    simp [Py.reader, halone, Py.readerLine, hj, hon, Except.toOption]
  cases e with
  | sessionStart s =>
    obtain ⟨eng', hon, hkeys⟩ := Py.onEvent_start eng
      (hget (text "ev", .str (text "session_start")) (by simp [Emission.record]))
      (hget (text "id", .int s.id.toNat) (by simp [Emission.record]))
    exact ⟨eng', hreader eng' hon, hkeys⟩
  | sessionProgress s =>
    obtain ⟨eng', hon, hkeys⟩ := Py.onEvent_progress eng
      (hget (text "ev", .str (text "session_progress")) (by simp [Emission.record]))
      (hget (text "id", .int s.id.toNat) (by simp [Emission.record]))
    exact ⟨eng', hreader eng' hon, hkeys⟩
  | sessionEnd s ok fault reason now =>
    obtain ⟨eng', hon, hkeys⟩ := Py.onEvent_end eng
      (hget (text "ev", .str (text "session_end")) (by simp [Emission.record]))
      (hget (text "id", .int s.id.toNat) (by simp [Emission.record]))
      (hget (text "bytes_transferred", .int s.bytesDone.toNat) (by simp [Emission.record]))
    refine ⟨eng', hreader eng' hon, fun k => (hkeys k).trans and_comm⟩

/-- **The table is the ledger.**  If every "session_start" written is clean, the parent's keys after
    an output are what its lifecycle lines leave open. -/
theorem reader_stream {os : List Output}
    (h : ∀ s, .ipc (.sessionStart s) ∈ os → Clean (.session (.sessionStart s)))
    (eng : Py.CoreEngine) :
    ∃ eng', Py.reader (some eng) (stream os) = some eng' ∧
      ∀ k, k ∈ eng'.keys ↔ k ∈ ledger {k | k ∈ eng.keys} (word os) := by
  induction os generalizing eng with
  | nil => exact ⟨eng, rfl, fun k => Iff.rfl⟩
  | cons o os ih =>
    have hos : ∀ s, .ipc (.sessionStart s) ∈ os → Clean (.session (.sessionStart s)) :=
      fun s hs => h s (List.mem_cons_of_mem o hs)
    have hword : word (o :: os) = word [o] ++ word os := word_append [o] os
    cases o with
    | send f =>
      obtain ⟨eng', hr, hk⟩ := ih hos eng
      exact ⟨eng', hr, hk⟩
    | data q =>
      obtain ⟨eng', hr, hk⟩ := ih hos eng
      exact ⟨eng', hr, hk⟩
    | ipc e =>
      have hclean : Clean (.session e) := by
        cases e with
        | sessionStart s => exact h s List.mem_cons_self
        | sessionProgress s => exact clean_sessionProgress s
        | sessionEnd s ok fault reason now => exact clean_sessionEnd s ok fault reason now
      obtain ⟨eng₁, hr₁, hk₁⟩ := reader_line hclean.faithful eng
      obtain ⟨eng', hr, hk⟩ := ih hos eng₁
      obtain ⟨l, hl⟩ := written_eq_line (.session e)
      refine ⟨eng', ?_, fun k => ?_⟩
      · have hstream : stream (.ipc e :: os) = Emission.written (.session e) ++ stream os := rfl
        rw [hstream, hl, Py.reader_append, ← hl, hr₁, hr]
      · have hset : {k | k ∈ eng₁.keys} = ledger {k | k ∈ eng.keys} (word [.ipc e]) := Set.ext hk₁
        rw [hk, hset, hword, ledger, ledger, ledger, List.foldl_append]

/-! ## The live sessions -/

/-- The ids of the live sessions. -/
def liveIds (m : SessMgr) : Set Int := {k | ∃ i, (m.slots i).live ∧ ((m.slots i).id.toNat : Int) = k}

/-- The parent has the live sessions in its table, each under an id of its own. -/
structure Table (m : SessMgr) (eng : Py.CoreEngine) : Prop where
  keys : ∀ k, k ∈ eng.keys ↔ k ∈ liveIds m
  ids : ∀ i j, (m.slots i).live → (m.slots j).live → (m.slots i).id = (m.slots j).id → i = j

/-- The other slots are as they were. -/
def OnlySlot (i : Fin SESS_MAX) (m m' : SessMgr) : Prop := ∀ j, j ≠ i → m'.slots j = m.slots j

section Moves

variable {m m' : SessMgr} {i : Fin SESS_MAX} {eng eng' : Py.CoreEngine}

/-- The session of slot `i` goes on, or there still is none. -/
theorem Table.kept (h : Table m eng) (ho : OnlySlot i m m')
    (hlive : (m'.slots i).live = (m.slots i).live)
    (hid : (m.slots i).live → (m'.slots i).id = (m.slots i).id)
    (hk : ∀ k, k ∈ eng'.keys ↔ k ∈ eng.keys) : Table m' eng' := by
  have hsame : ∀ j, (m'.slots j).live = (m.slots j).live ∧
      ((m.slots j).live → (m'.slots j).id = (m.slots j).id) := by
    intro j
    by_cases hj : j = i
    · subst hj
      exact ⟨hlive, hid⟩
    · rw [ho j hj]
      exact ⟨rfl, fun _ => rfl⟩
  refine ⟨fun k => ?_, fun j j' h1 h2 h3 => ?_⟩
  · rw [hk, h.keys]
    constructor
    · rintro ⟨j, hj, rfl⟩
      exact ⟨j, by rwa [(hsame j).1], by rw [(hsame j).2 hj]⟩
    · rintro ⟨j, hj, rfl⟩
      rw [(hsame j).1] at hj
      exact ⟨j, hj, by rw [(hsame j).2 hj]⟩
  · rw [(hsame j).1] at h1
    rw [(hsame j').1] at h2
    rw [(hsame j).2 h1, (hsame j').2 h2] at h3
    exact h.ids j j' h1 h2 h3

/-- The session of slot `i` ends, and its id is struck out. -/
theorem Table.closed (h : Table m eng) (ho : OnlySlot i m m') (hlive : (m.slots i).live)
    (hdone : (m'.slots i).live = false)
    (hk : ∀ k, k ∈ eng'.keys ↔ k ∈ eng.keys ∧ k ≠ ((m.slots i).id.toNat : Int)) :
    Table m' eng' := by
  have hother : ∀ j, (m'.slots j).live → j ≠ i ∧ m'.slots j = m.slots j := by
    intro j hj
    have hji : j ≠ i := by
      rintro rfl
      rw [hdone] at hj
      cases hj
    exact ⟨hji, ho j hji⟩
  refine ⟨fun k => ?_, fun j j' h1 h2 h3 => ?_⟩
  · rw [hk, h.keys]
    constructor
    · rintro ⟨⟨j, hj, rfl⟩, hne⟩
      have hji : j ≠ i := by
        rintro rfl
        exact hne rfl
      exact ⟨j, by rwa [ho j hji], by rw [ho j hji]⟩
    · rintro ⟨j, hj, rfl⟩
      obtain ⟨hji, hs⟩ := hother j hj
      rw [hs] at hj
      refine ⟨⟨j, hj, by rw [hs]⟩, fun heq => hji (h.ids j i hj hlive ?_)⟩
      rw [hs] at heq
      exact UInt32.toNat_inj.mp (Int.ofNat_inj.mp heq)
  · have hs := (hother j h1).2
    have hs' := (hother j' h2).2
    rw [hs] at h1 h3
    rw [hs'] at h2 h3
    exact h.ids j j' h1 h2 h3

/-- A session is opened in slot `i`, under an id that no live one has. -/
theorem Table.opened (h : Table m eng) (ho : OnlySlot i m m') (hfree : (m.slots i).live = false)
    (hlive : (m'.slots i).live) (hfresh : ∀ j, (m.slots j).live → (m.slots j).id ≠ (m'.slots i).id)
    (hk : ∀ k, k ∈ eng'.keys ↔ k = ((m'.slots i).id.toNat : Int) ∨ k ∈ eng.keys) :
    Table m' eng' := by
  have hold : ∀ j, (m.slots j).live → j ≠ i := by
    rintro j hj rfl
    rw [hfree] at hj
    cases hj
  refine ⟨fun k => ?_, fun j j' h1 h2 h3 => ?_⟩
  · rw [hk, h.keys]
    constructor
    · rintro (rfl | ⟨j, hj, rfl⟩)
      · exact ⟨i, hlive, rfl⟩
      · exact ⟨j, by rwa [ho j (hold j hj)], by rw [ho j (hold j hj)]⟩
    · rintro ⟨j, hj, rfl⟩
      by_cases hji : j = i
      · exact .inl (by rw [hji])
      · rw [ho j hji] at hj ⊢
        exact .inr ⟨j, hj, rfl⟩
  · by_cases hj : j = i
    · by_cases hj' : j' = i
      · rw [hj, hj']
      · rw [ho j' hj'] at h2 h3
        rw [hj] at h3
        exact absurd h3.symm (hfresh j' h2)
    · rw [ho j hj] at h1 h3
      by_cases hj' : j' = i
      · rw [hj'] at h3
        exact absurd h3 (hfresh j h1)
      · rw [ho j' hj'] at h2 h3
        exact h.ids j j' h1 h2 h3

end Moves

/-! ## Calls -/

theorem onSlot_outs (m : SessMgr) (i : Fin SESS_MAX) (f : Ctx → Ctx) :
    (m.onSlot i f).2.map (·.out) = (f ⟨m.slots i, m.batch, m.stats, []⟩).out := by
  simp [SessMgr.onSlot, Function.comp_def]

theorem onlySlot_onSlot (m : SessMgr) (i : Fin SESS_MAX) (f : Ctx → Ctx) :
    OnlySlot i m (m.onSlot i f).1 := by
  intro j hj
  rw [onSlot_slots, if_neg hj]

theorem started_mem_word {os : List Output} {s : Session} (h : .ipc (.sessionStart s) ∈ os) :
    .started s.id s.filename ∈ word os :=
  List.mem_filterMap.mpr ⟨_, h, rfl⟩

/-- A call that breaks no life keeps the table. -/
theorem Table.onSlot {m : SessMgr} {eng : Py.CoreEngine} (h : Table m eng) (i : Fin SESS_MAX)
    (f : Ctx → Ctx) (hf : CallFate ⟨m.slots i, m.batch, m.stats, []⟩
      (f ⟨m.slots i, m.batch, m.stats, []⟩) false) :
    ∃ eng', Py.reader (some eng) (stream ((m.onSlot i f).2.map (·.out))) = some eng' ∧
      Table (m.onSlot i f).1 eng' := by
  have ho := onlySlot_onSlot m i f
  have hs : (m.onSlot i f).1.slots i = (f ⟨m.slots i, m.batch, m.stats, []⟩).s := if_pos rfl
  rw [onSlot_outs]
  generalize f ⟨m.slots i, m.batch, m.stats, []⟩ = c' at hf hs ⊢
  -- no line of the call is a "session_start"
  have hstart : ∀ s, .ipc (.sessionStart s) ∈ c'.out → Clean (.session (.sessionStart s)) := by
    intro s hm
    have hw := started_mem_word hm
    cases hf with
    | runs hq _ _ => rw [hq.word] at hw; cases hw
    | rests hq _ _ => rw [hq.word] at hw; cases hw
    | ends he _ _ => rw [he.word] at hw; simp at hw
  obtain ⟨eng', hr, hk⟩ := reader_stream hstart eng
  refine ⟨eng', hr, ?_⟩
  cases hf with
  | runs hq h1 h2 =>
    rw [hq.word] at hk
    refine h.kept ho ?_ (fun _ => ?_) hk
    · rw [hs, h2]
      exact h1.symm
    · rw [hs]
      exact hq.id
  | rests hq h1 h2 =>
    rw [hq.word] at hk
    have hdead : c'.s.live = false := by
      rcases h2 with h2 | h2
      · simpa [Session.live, h2] using h1
      · exact Session.not_live_of_free h2
    refine h.kept ho ?_ (fun _ => ?_) hk
    · rw [hs, hdead]
      exact h1.symm
    · rw [hs]
      exact hq.id
  | ends he h1 h2 =>
    rw [he.word] at hk
    exact h.closed ho h1 (by rw [hs]; exact h2) hk

/-- The longest name a start line is sure to have room for. -/
def NAME_ROOM : Nat := 208

/-- A filename that reaches the parent as it is. -/
structure PlainName (name : Bytes) : Prop where
  printable : Printable name
  short : name.length ≤ NAME_ROOM

theorem PlainName.clean {s : Session} (h : PlainName s.filename) :
    Clean (.session (.sessionStart s)) := by
  refine ⟨?_, h.printable⟩
  rw [← length_format]
  exact sessionStart_fits h.short

/-- A request that breaks no life keeps the table. -/
theorem Table.open {m : SessMgr} {eng : Py.CoreEngine} (h : Table m eng) (now : Clock) (env : Env)
    (p : Sender) (op : UInt16) (req : TftpReq) (i : Fin SESS_MAX)
    (hb : CleanBatch m.batch) (hfree : (m.slots i).state = .free)
    (hbad : (requestReads m.cfg env op req (newSession m now p op req)).any (unreadable m.cfg) = false)
    (hname : PlainName (strCopy MAX_PATHLEN req.filename))
    (hfresh : ∀ j, (m.slots j).live → (m.slots j).id ≠ m.nextId + 1) :
    ∃ eng', Py.reader (some eng) (stream ((openSession m now env p op req i).2.map (·.out))) =
        some eng' ∧ Table (openSession m now env p op req i).1 eng' := by
  obtain ⟨st, hs, hout, -⟩ := openSession_slots (m := m) now env p op req i i
  have ho : OnlySlot i m (openSession m now env p op req i).1 := by
    intro j hj
    obtain ⟨_, hsj, -⟩ := openSession_slots (m := m) now env p op req i j
    rw [hsj, if_neg hj]
  have houts : (openSession m now env p op req i).2.map (·.out) =
      outFor i (openSession m now env p op req i).2 := by
    unfold openSession
    rw [onSlot_outs, onSlot_out, if_pos rfl]
  have hbirth := startSession_birth now ⟨m.slots i, m.batch, st, []⟩ m env p op req hb
  rw [hbad] at hbirth
  rw [houts, hout, if_pos rfl]
  rw [if_pos rfl] at hs
  generalize startSession m now env p op req ⟨m.slots i, m.batch, st, []⟩ = c' at hbirth hs ⊢
  have hdead := Session.not_live_of_free hfree
  -- the start line has room for the name, so the parent can read it
  have hstart : ∀ s, .ipc (.sessionStart s) ∈ c'.out → Clean (.session (.sessionStart s)) := by
    intro s hm
    have hw := started_mem_word hm
    refine PlainName.clean ?_
    have hfile : s.filename = (newSession m now p op req).filename := by
      cases hbirth with
      | runs h1 _ _ _ =>
        rw [h1] at hw
        simp only [word_nil, List.nil_append, List.mem_singleton, LifeEv.started.injEq] at hw
        exact hw.2
      | rejected h1 _ _ _ =>
        rw [h1] at hw
        simp only [word_nil, List.nil_append, List.mem_cons, LifeEv.started.injEq, reduceCtorEq,
          List.not_mem_nil, or_false] at hw
        exact hw.2
    rw [hfile]
    exact hname
  obtain ⟨eng', hr, hk⟩ := reader_stream hstart eng
  refine ⟨eng', hr, ?_⟩
  cases hbirth with
  | runs h1 _ hid hlive =>
    rw [h1] at hk
    -- the session lives on, under an id that is new in the table
    refine h.opened ho hdead (by rwa [hs]) (fun j hj => ?_) (fun k => ?_)
    · rw [hs, hid]
      exact hfresh j hj
    · rw [hk, hs, hid]
      rfl
  | rejected h1 _ hid hdone =>
    rw [h1] at hk
    refine h.kept ho ?_ (fun hl => ?_) (fun k => ?_)
    · rw [hs, hdead]
      exact Session.not_live_of_done hdone
    · rw [hdead] at hl
      cases hl
    -- entered and struck out again; the id was not there before
    rw [hk]
    constructor
    · rintro ⟨hin, hne⟩
      exact hin.resolve_left hne
    · intro hin
      refine ⟨.inr hin, fun heq => ?_⟩
      obtain ⟨j, hj, hjk⟩ := (h.keys k).mp hin
      refine hfresh j hj (UInt32.toNat_inj.mp (Int.ofNat_inj.mp ?_))
      exact hjk.trans heq

/-! ## The two engines together -/

/-- The C engine, watched, and its parent; `none` once the parent's reader has died. -/
structure Engines where
  w : Watch
  parent : Option Py.CoreEngine

def enginesNew (cfg : Config) : Engines := ⟨watchNew cfg, some .new⟩

/-- One event, and the parent reads what was written. -/
def Engines.step (g : Engines) (e : Event) : Engines :=
  ⟨g.w.step e, Py.reader g.parent (stream ((stepOut g.w.m e).2.map (·.out)))⟩

/-- The parent's table holds the live sessions, and nothing else. -/
def Engines.TableExact (g : Engines) : Prop := ∃ eng, g.parent = some eng ∧ Table g.w.m eng

/-- A session that this event opens can be told apart from the live ones, and its name can be
    told to the parent. -/
def Announces (m : SessMgr) : Event → Prop
  | .tftp _ _ p tftp => ∀ req i, opens m p tftp = some (req, i) →
      (∀ j, (m.slots j).live → (m.slots j).id ≠ m.nextId + 1) ∧
      PlainName (strCopy MAX_PATHLEN req.filename)
  | _ => True

theorem stream_ends (os : List Output) : stream os = [] ∨ ∃ l, stream os = l ++ [10] := by
  induction os with
  | nil => exact .inl rfl
  | cons o os ih =>
    cases o with
    | send f => exact ih
    | data q => exact ih
    | ipc e =>
      refine .inr ?_
      obtain ⟨l, hl⟩ := written_eq_line (.session e)
      have hstream : stream (.ipc e :: os) = Emission.written (.session e) ++ stream os := rfl
      rw [hstream, hl]
      rcases ih with h | ⟨l', h⟩
      · exact ⟨l, by rw [h, List.append_nil]⟩
      · exact ⟨l ++ [10] ++ l', by rw [h, List.append_assoc _ l']⟩

/-- Outputs are read one after the other. -/
theorem reader_stream_append (eng : Option Py.CoreEngine) (os os' : List Output) :
    Py.reader eng (stream (os ++ os')) = Py.reader (Py.reader eng (stream os)) (stream os') := by
  have happ : stream (os ++ os') = stream os ++ stream os' := List.flatMap_append
  rw [happ]
  rcases stream_ends os with h | ⟨l, h⟩
  · rw [h]
    rfl
  · rw [h, Py.reader_append]

theorem stream_sessionless {os : List SlotOutput} (h : Sessionless os) :
    stream (os.map (·.out)) = [] := by
  refine List.flatMap_eq_nil_iff.mpr fun o ho => ?_
  obtain ⟨o', ho', rfl⟩ := List.mem_map.mp ho
  obtain ⟨-, f, hf⟩ := h o' ho'
  rw [hf]

theorem Table.of_slots {m m' : SessMgr} {eng : Py.CoreEngine} (h : Table m eng)
    (hs : m'.slots = m.slots) : Table m' eng :=
  ⟨fun k => by rw [h.keys, liveIds, liveIds, hs], by rw [hs]; exact h.ids⟩

/-- An event that breaks no life and opens no session under a taken id or an awkward name keeps the
    table exact. -/
theorem Engines.tableExact_step {g : Engines} {e : Event} (h : g.TableExact)
    (hl : LosesNone g.w e) (ha : Announces g.w.m e) : (g.step e).TableExact := by
  obtain ⟨eng, hp, ht⟩ := h
  unfold Engines.TableExact Engines.step
  simp only [hp]
  cases e with
  | configChanged cfg => exact ⟨eng, rfl, ht.of_slots rfl⟩
  | tick now =>
    have hvisit := sessmgrTick_induct (P := fun m' os => CleanBatch m'.batch ∧
      ∃ eng', Py.reader (some eng) (stream (os.map (·.out))) = some eng' ∧ Table m' eng')
      g.w.m now ⟨g.w.clean, eng, rfl, ht⟩ ?_
    · exact hvisit.2
    rintro m' os i hs hcfg ⟨hb, eng₁, hr₁, ht₁⟩
    have hfate : CallFate _ (tickSlot g.w.m.cfg now ⟨m'.slots i, m'.batch, m'.stats, []⟩) _ :=
      tickSlot_fate hb
    have hbad : (tickReads now (m'.slots i)).any (unreadable g.w.m.cfg) = false := by
      rw [hs]
      exact hl i
    rw [hbad] at hfate
    obtain ⟨eng', hr, ht'⟩ := ht₁.onSlot i _ hfate
    refine ⟨(tickSlot_batch g.w.m.cfg now _).clean hb, eng', ?_, ht'⟩
    rw [List.map_append, reader_stream_append, hr₁, hr]
  | tftp now env p tftp =>
    simp only [stepOut, Watch.step, CCore.step]
    cases hop : opens g.w.m p tftp with
    | some ri =>
      obtain ⟨req, i⟩ := ri
      obtain ⟨hfresh, hname⟩ := ha req i hop
      have hbad := hl i
      simp only [loses, hop, beq_self_eq_true, Bool.true_and] at hbad
      rw [sessmgrOnTftp_open hop]
      exact ht.open now env p _ req i g.w.clean (allocSlot_free (opens_eq_some.mp hop).2.2.2.2) hbad
        hname hfresh
    | none =>
      cases hr : reaches g.w.m p tftp with
      | some i =>
        have hbad := hl i
        simp only [loses, hop, hr, beq_self_eq_true, Bool.true_and] at hbad
        have hst := (findOrAlloc_match (reaches_eq_some.mp hr).2.2).1
        have hfate : CallFate _ (onSessionPacket g.w.m.cfg now tftp
            ⟨g.w.m.slots i, g.w.m.batch, g.w.m.stats, []⟩) _ :=
          onSessionPacket_fate g.w.clean tftp hst
        rw [hbad] at hfate
        rw [sessmgrOnTftp_packet hr]
        exact ht.onSlot i _ hfate
      | none =>
        obtain ⟨⟨tid, denied, hm⟩, hout⟩ := sessmgrOnTftp_idle now env hop hr
        rw [stream_sessionless hout, hm]
        exact ⟨eng, rfl, ht.of_slots rfl⟩

theorem enginesNew_tableExact (cfg : Config) : (enginesNew cfg).TableExact := by
  have hdead : ∀ i, ¬ ((enginesNew cfg).w.m.slots i).live := by
    intro i hi
    cases hi
  refine ⟨.new, rfl, fun k => ?_, fun i j hi => absurd hi (hdead i)⟩
  constructor
  · intro hk
    cases hk
  · rintro ⟨i, hi, -⟩
    exact absurd hi (hdead i)

/-- **Session lifecycle.**  In every run, all the sessions are started, ended and counted as they
    should be in every state if and only if no event loses a session to an unreadable window or
    ends one again.  If moreover sessions are opened only under ids that no live one has and with
    plain names, the parent's table holds exactly the live sessions in every state. -/
theorem session_lifecycle (cfg : Config) (es : List Event) :
    (Always Engines.step (·.w.Good) (enginesNew cfg) es ↔
      Along Engines.step (fun g e => LosesNone g.w e) (enginesNew cfg) es) ∧
    (Along Engines.step (fun g e => LosesNone g.w e ∧ Announces g.w.m e) (enginesNew cfg) es →
      Always Engines.step (fun g => g.w.Good ∧ g.TableExact) (enginesNew cfg) es) := by
  refine ⟨⟨?_, ?_⟩, ?_⟩
  · exact Always.along fun g e h h' => (Watch.good_step_iff e h).mp h'
  · exact Along.always (fun g e h hok => (Watch.good_step_iff e h).mpr hok) (watchNew_good cfg)
  · refine Along.always (fun g e h hok => ⟨?_, ?_⟩) ⟨watchNew_good cfg, enginesNew_tableExact cfg⟩
    · exact (Watch.good_step_iff e h.1).mpr hok.1
    · exact Engines.tableExact_step h.2 hok.1 hok.2

/-! ## Two broken lives -/

/-- A file of one byte on a device where nothing can be read. -/
def deadDisk : FileSource := ⟨false, [1], 0, false, fun _ => .fault 0, 0⟩

/-- A download of it. -/
def unreadableRrq : Event :=
  .tftp clock0 ⟨fun _ => some (deadDisk, 1), fun _ => none, true⟩ host (requestBytes 1 [])

/-- An upload of one byte, and an ERROR packet after its end. -/
def abortAfterEnd : List Event :=
  [.tftp clock0 uploadEnv host (requestBytes 2 []), .tftp clock0 uploadEnv hostToTid (dataBytes 1 [7]),
    .tftp clock0 uploadEnv hostToTid errorBytes]

/-- The tick frees a session that is over and writes nothing for it. -/
theorem Watch.tick_done {w : Watch} (now : Clock) {i : Fin SESS_MAX}
    (h : (w.m.slots i).state = .done) :
    ((w.step (.tick now)).m.slots i).state = .free ∧
      ((w.step (.tick now)).life i).word = (w.life i).word := by
  obtain ⟨hfree, hquiet⟩ := tick_frees now h
  refine ⟨hfree, ?_⟩
  simp [Watch.step, openedIn, hquiet]

/-- An upload that is over is ended a second time by an ERROR packet; a download whose file cannot
    be read is freed by the next tick, and its end is never told. -/
theorem life_broken :
    (run Watch.step (watchNew uploadConfig) abortAfterEnd).life slot0 =
      ⟨[.started 1 (ascii "f"), .ended 1, .ended 1], 1⟩ ∧
    ∀ now, ((run Watch.step (watchNew uploadConfig) [unreadableRrq, .tick now]).m.slots slot0).state =
        .free ∧
      ((run Watch.step (watchNew uploadConfig) [unreadableRrq, .tick now]).life slot0).word =
        [.started 1 (ascii "f")] := by
  refine ⟨by decide, fun now => ?_⟩
  have hdone : ((((watchNew uploadConfig).step unreadableRrq).m).slots slot0).state = .done := by
    decide
  have hword : (((watchNew uploadConfig).step unreadableRrq).life slot0).word =
      [.started 1 (ascii "f")] := by decide
  obtain ⟨hfree, hkept⟩ := Watch.tick_done now hdone
  exact ⟨hfree, hkept.trans hword⟩

end Nishro

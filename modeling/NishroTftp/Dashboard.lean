import NishroTftp.Py.LiveView
import NishroTftp.SessionTable
/-
  The whole way of a session, from the slot of the C engine to the page in the browser.

  The C engine writes lines, the reader of the parent keeps a table from them, and the WebSocket
  tells the browser about that table when it ticks.  `SessionTable` has the first half and
  `Py/LiveView` the second; here both run TOGETHER, the lines and the ticks in any order.  What joins
  them is that reading lines is a run of the engine the web side sees (`reader_shown`).
-/
namespace Nishro

open CCore Runs

namespace Py

variable {eng eng' : CoreEngine}

theorem readerLine_shown (h : eng.sessionHistory.length ≤ HISTORY_MAX) {line : Bytes}
    (hr : readerLine (some eng) line = some eng') :
    ∃ h', eng'.shown h' = eng.shown h ∨ ∃ e, eng'.shown h' = (eng.shown h).step e := by
  simp only [readerLine, Option.bind_some] at hr
  split at hr
  · obtain rfl := Option.some.inj hr
    exact ⟨h, .inl rfl⟩
  rename_i ev _
  cases hon : onEvent eng ev with
  | error err =>
    rw [hon] at hr
    cases hr
  | ok eng₁ =>
    rw [hon] at hr
    obtain rfl := Option.some.inj hr
    cases ev with
    | obj ms => exact onDict_shown h hon
    | _ => cases hon

/-- Reading lines is a run of what the web side sees. -/
theorem reader_shown (h : eng.sessionHistory.length ≤ HISTORY_MAX) {bs : Bytes}
    (hr : reader (some eng) bs = some eng') :
    ∃ h' es, eng'.shown h' = run WebEngine.step (eng.shown h) es := by
  unfold reader at hr
  generalize readlines bs = lines at hr
  induction lines generalizing eng with
  | nil =>
    obtain rfl := Option.some.inj hr
    exact ⟨h, [], rfl⟩
  | cons line lines ih =>
    rw [List.foldl_cons] at hr
    cases hline : readerLine (some eng) line with
    | none =>
      rw [hline, List.foldl_fixed' (fun _ => rfl)] at hr
      cases hr
    | some eng₁ =>
      rw [hline] at hr
      obtain ⟨h₁, hone⟩ := readerLine_shown h hline
      obtain ⟨h', es, hes⟩ := ih h₁ hr
      rcases hone with hsame | ⟨e, he⟩
      · exact ⟨h', es, by rw [hes, hsame]⟩
      · exact ⟨h', e :: es, by rw [hes, he, run_cons]⟩

/-- No session has two rows. -/
theorem WebEngine.nodup_run {eng : WebEngine} (h : (eng.sessions.map (·.1)).Nodup)
    (es : List WebEngineEvent) : ((run WebEngine.step eng es).sessions.map (·.1)).Nodup := by
  have hstep : ∀ (eng : WebEngine) (e : WebEngineEvent), (eng.sessions.map (·.1)).Nodup →
      ((eng.step e).sessions.map (·.1)).Nodup := by
    intro eng e heng
    cases e with
    | put id row => exact Dict.nodup_keys_set heng id row
    | finish id row => exact (List.filter_sublist.map _).nodup heng
  exact (always_of_step hstep h es).last

end Py

/-- The C engine with its parent, and a browser at its WebSocket. -/
structure Dash where
  engines : Engines
  web : Py.Stream

inductive DashEvent
  /-- something happens in the C engine, and the parent reads what it writes -/
  | core (e : Event)
  /-- something happens on the web side -/
  | web (e : Py.StreamEvent)

/-- `state.tftp_server`, the C engine being in use. -/
def webEngine (parent : Option Py.CoreEngine) : Option Py.WebEngine :=
  parent.bind fun eng => if h : eng.sessionHistory.length ≤ Py.HISTORY_MAX then some (eng.shown h) else none

def Dash.step (d : Dash) : DashEvent → Dash
  | .core e =>
    let g := d.engines.step e
    ⟨g, { d.web with server := { d.web.server with engine := webEngine g.parent } }⟩
  | .web e => { d with web := d.web.step e }

/-- A browser opens its socket on an engine that has just been started. -/
def Dash.new (cfg : Config) (srv : Py.Server) : Dash :=
  let g := enginesNew cfg
  ⟨g, .init { srv with engine := webEngine g.parent } false⟩

/-- No event breaks a life or opens a session that cannot be told, and the rows come from the C
    engine alone. -/
def Dash.Ok (d : Dash) : DashEvent → Prop
  | .core e => LosesNone d.engines.w e ∧ Announces d.engines.w.m e
  | .web (.engine _) => False
  | .web _ => True

/-- The parent's table is exact and is what the web side has; an empty list the socket remembers is
    what the browser shows. -/
structure Dash.Inv (d : Dash) (eng : Py.CoreEngine) : Prop where
  parent : d.engines.parent = some eng
  table : Table d.engines.w.m eng
  bounded : eng.sessionHistory.length ≤ Py.HISTORY_MAX
  seen : d.web.server.engine = some (eng.shown bounded)
  keys : ((eng.shown bounded).sessions.map (·.1)).Nodup
  empty : ∀ ws, d.web.socket = some ws → ws.prevSessionsEmpty = true → d.web.browser.sessions = []

section Steps

variable {d : Dash} {eng : Py.CoreEngine} (h : d.Inv eng)
include h

theorem Dash.Inv.core {e : Event} (hl : LosesNone d.engines.w e) (ha : Announces d.engines.w.m e) :
    ∃ eng', (d.step (.core e)).Inv eng' := by
  obtain ⟨eng', hp, ht⟩ := Engines.tableExact_step ⟨eng, h.parent, h.table⟩ hl ha
  have hread : Py.reader (some eng) (stream ((stepOut d.engines.w.m e).2.map (·.out))) = some eng' := by
    rw [← h.parent]
    exact hp
  obtain ⟨h', es, hes⟩ := Py.reader_shown h.bounded hread
  refine ⟨eng', hp, ht, h', ?_, ?_, h.empty⟩
  · show webEngine (d.engines.step e).parent = _
    rw [hp, webEngine, Option.bind_some, dif_pos h']
  · rw [hes]
    exact Py.WebEngine.nodup_run h.keys es

/-- What the browser shows after a tick that the socket survives. -/
theorem Dash.Inv.tick (raises : Bool) {ws : Py.Socket}
    (hws : (d.web.step (.tick raises)).socket = some ws) :
    (d.web.step (.tick raises)).browser.sessions = d.web.server.sessions raises ∧
      ws.prevSessionsEmpty = decide (d.web.server.sessions raises = []) := by
  unfold Py.Stream.step at hws ⊢
  cases hsocket : d.web.socket with
  | none => simp [hsocket] at hws
  | some ws₀ =>
    cases hui : Py.uiSettings d.web.server.config d.web.server.hasPassword with
    | error err => simp [hsocket, hui] at hws
    | ok ui =>
      simp only [hsocket, hui] at hws ⊢
      obtain rfl := Option.some.inj hws
      refine ⟨?_, rfl⟩
      show (if _ then some (d.web.server.sessions raises) else none).getD d.web.browser.sessions = _
      split
      · rfl
      · rename_i hsend
        obtain ⟨hnil, hprev⟩ := not_or.1 hsend
        exact (h.empty ws₀ hsocket (by simpa using hprev)).trans (not_not.1 hnil).symm

theorem Dash.Inv.step {e : DashEvent} (hok : d.Ok e) :
    ∃ eng', (d.step e).Inv eng' := by
  cases e with
  | core e => exact h.core hok.1 hok.2
  | web e =>
    refine ⟨eng, h.parent, h.table, h.bounded, ?_, h.keys, ?_⟩
    · cases e with
      | engine e => exact hok.elim
      | tick raises =>
        show (d.web.step (.tick raises)).server.engine = _
        simp only [Py.Stream.step]
        split <;> exact h.seen
      | _ => exact h.seen
    · cases e with
      | tick raises =>
        intro ws hws hempty
        obtain ⟨hshown, hprev⟩ := h.tick raises hws
        exact hshown.trans (of_decide_eq_true (hprev.symm.trans hempty))
      | _ => exact h.empty

end Steps

theorem Dash.Inv.new (cfg : Config) (srv : Py.Server) : (Dash.new cfg srv).Inv .new := by
  obtain ⟨eng, hp, ht⟩ := enginesNew_tableExact cfg
  obtain rfl := Option.some.inj hp
  unfold Dash.new Py.Stream.init
  dsimp only
  split
  · refine ⟨rfl, ht, by decide, rfl, List.nodup_nil, fun ws hws => ?_⟩
    cases hws
  · refine ⟨rfl, ht, by decide, rfl, List.nodup_nil, fun ws hws hempty => ?_⟩
    obtain rfl := Option.some.inj hws
    cases hempty

/-- **The page shows the transfers.**  However requests, packets, timeouts, lines, ticks, edits and
    saves follow each other: after a tick that the socket survives, the rows in the browser are those
    of the sessions that are live in the C engine, one row each. -/
theorem page_shows_live_sessions (cfg : Config) (srv : Py.Server) (es : List DashEvent)
    (hok : Along Dash.step Dash.Ok (.new cfg srv) es)
    (hopen : (run Dash.step (.new cfg srv) (es ++ [.web (.tick false)])).web.socket.isSome) :
    ∃ eng, (run Dash.step (.new cfg srv) es).engines.parent = some eng ∧
      (run Dash.step (.new cfg srv) (es ++ [.web (.tick false)])).web.browser.sessions =
        eng.sessions.map (fun m => Py.shownRow m.2) ∧
      eng.keys.Nodup ∧ ∀ k, k ∈ eng.keys ↔ k ∈ liveIds (run Dash.step (.new cfg srv) es).engines.w.m := by
  have hinv : ∃ eng, (run Dash.step (.new cfg srv) es).Inv eng :=
    (Along.always (I := fun d => ∃ eng, Dash.Inv d eng) (fun d e ⟨_, h⟩ hok => h.step hok)
      ⟨_, .new cfg srv⟩ hok).last
  rw [run_append, run_cons, run_nil] at hopen ⊢
  obtain ⟨eng, h⟩ := hinv
  obtain ⟨ws, hws⟩ := Option.isSome_iff_exists.1 hopen
  refine ⟨eng, h.parent, ?_, ?_, h.table.keys⟩
  · refine (h.tick false hws).1.trans ?_
    rw [Py.Server.sessions, h.seen]
    simp [Py.CoreEngine.shown]
  · simpa [Py.CoreEngine.shown, Py.CoreEngine.keys, Function.comp_def] using h.keys

/-- A server with nothing but the C engine. -/
def bareServer : Py.Server := ⟨none, none, .obj [], false⟩

/-- An upload is requested. -/
def uploadRequest : Event := .tftp clock0 uploadEnv host (requestBytes 2 [])

theorem page_shows_upload : ∃ eng : Py.CoreEngine, 1 ∈ eng.keys ∧
    (run Dash.step (.new uploadConfig bareServer)
      [.core uploadRequest, .web (.tick false)]).web.browser.sessions =
        eng.sessions.map (fun m => Py.shownRow m.2) := by
  have hopens : opens (sessmgrNew uploadConfig) host (requestBytes 2 []) = some (_, slot0) := rfl
  have hok : Along Dash.step Dash.Ok (.new uploadConfig bareServer) [.core uploadRequest] := by
    refine ⟨⟨fun i => ?_, fun req i h => ?_⟩, trivial⟩
    · show loses (sessmgrNew uploadConfig) i uploadRequest = false
      simp only [uploadRequest, loses, hopens]
      exact Bool.and_false _
    · cases hopens.symm.trans h
      have hname : PlainName [102] := ⟨⟨⟨[102], rfl⟩, by decide +kernel⟩, by decide⟩
      exact ⟨fun j hj => absurd hj Bool.false_ne_true, hname⟩
  obtain ⟨eng, -, hrows, -, hkeys⟩ := page_shows_live_sessions uploadConfig bareServer _ hok rfl
  exact ⟨eng, (hkeys 1).2 ⟨slot0, rfl, rfl⟩, hrows⟩

end Nishro

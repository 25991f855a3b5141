import NishroTftp.Lib.Dict
import NishroTftp.Lib.Runs
import NishroTftp.Py.ConfigSaves
import NishroTftp.Py.CoreCfg
import NishroTftp.Py.Engine
/-
  What a browser shows (`ws_stream` of `web/app.py`, `ws.onmessage` of `web/static/js/state.js`).

  The first message of a WebSocket carries everything; every later one, a TICK, leaves out what has
  not changed, and the browser keeps what it had.  So each test for a change has to be exact.  Those
  for the sessions, the users and the UI settings are.  The one for the history compares LENGTHS: the
  history is a ring of 100 rows, and once it is full its length says nothing any more.

  Rows of sessions are JSON values whose contents play no part.
-/
namespace Nishro.Py

open Runs
open Utf8 (Text text)

/-! ## The engine, as the web side sees it -/

/-- The sessions that run, with the row that is shown of each, and the rows of those that have
    ended, the latest first: a deque with `maxlen`. -/
structure WebEngine where
  sessions : List (Int × Json)
  history : List Json
  bounded : history.length ≤ HISTORY_MAX

inductive WebEngineEvent
  /-- a session starts, or the row of one changes -/
  | put (id : Int) (row : Json)
  /-- a session ends, `row` being its last -/
  | finish (id : Int) (row : Json)

/-- `session_history.appendleft(row)`. -/
def pushRow (row : Json) (history : List Json) : List Json := (row :: history).take HISTORY_MAX

theorem length_pushRow (row : Json) (history : List Json) :
    (pushRow row history).length ≤ HISTORY_MAX := by
  unfold pushRow
  rw [List.length_take]
  exact Nat.min_le_left _ _

def WebEngine.step (eng : WebEngine) : WebEngineEvent → WebEngine
  | .put id row => { eng with sessions := Dict.set eng.sessions id row }
  | .finish id row =>
    { sessions := eng.sessions.filter fun m => m.1 != id
      history := pushRow row eng.history
      bounded := length_pushRow row eng.history }

section Core

variable {eng eng' : CoreEngine} {ev : Json}

/-- The row of a session of the C engine: its dict without the private keys. -/
def shownRow (s : Json) : Json := .obj ((items s).filter fun m => m.1.head? != some 95)

/-- The C engine's tables, as the web side sees them. -/
def CoreEngine.shown (eng : CoreEngine) (h : eng.sessionHistory.length ≤ HISTORY_MAX) : WebEngine where
  sessions := eng.sessions.map fun m => (m.1, shownRow m.2)
  history := eng.sessionHistory
  bounded := h

theorem map_set {α : Type} [DecidableEq α] (d : List (α × Json)) (k : α) (v : Json)
    (f : Json → Json) : (Dict.set d k v).map (fun m => (m.1, f m.2)) =
      Dict.set (d.map fun m => (m.1, f m.2)) k (f v) := by
  unfold Dict.set
  have hkeys : (d.map fun m => (m.1, f m.2)).map (·.1) = d.map (·.1) := by
    rw [List.map_map]
    rfl
  rw [hkeys]
  by_cases hk : k ∈ d.map (·.1)
  · rw [if_pos hk, if_pos hk, List.map_map, List.map_map]
    refine List.map_congr_left fun m _ => ?_
    by_cases hm : m.1 = k
    · simp [hm]
    · simp [hm]
  · rw [if_neg hk, if_neg hk, List.map_append]
    rfl

/-- A session event of the C engine is one of the two kinds, or shows nowhere. -/
theorem onDict_shown (h : eng.sessionHistory.length ≤ HISTORY_MAX) (hok : onDict eng ev = .ok eng') :
    ∃ h', eng'.shown h' = eng.shown h ∨ ∃ e, eng'.shown h' = (eng.shown h).step e := by
  have hset : ∀ id s, ∃ h', (eng.set id s).shown h' = (eng.shown h).step (.put id (shownRow s)) := by
    intro id s
    refine ⟨h, ?_⟩
    show WebEngine.mk _ _ _ = WebEngine.mk _ _ _
    congr 1
    exact map_set eng.sessions id s shownRow
  have hsame : ∃ h', eng.shown h' = eng.shown h ∨ ∃ e, eng.shown h' = (eng.shown h).step e :=
    ⟨h, .inl rfl⟩
  unfold onDict at hok
  cases hkind : eventKind ev with
  | stat =>
    rw [hkind] at hok
    obtain rfl := Except.ok.inj hok
    exact hsame
  | sessionStart =>
    rw [hkind] at hok
    obtain ⟨id, -, rfl⟩ := map_eq_ok.1 hok
    obtain ⟨h', heq⟩ := hset id ev
    exact ⟨h', .inr ⟨_, heq⟩⟩
  | sessionProgress =>
    rw [hkind] at hok
    obtain ⟨id, -, rfl⟩ := map_eq_ok.1 hok
    cases hget : eng.get id with
    | none => exact hsame
    | some s =>
      obtain ⟨h', heq⟩ := hset id (update s ev)
      exact ⟨h', .inr ⟨_, heq⟩⟩
  | sessionEnd =>
    rw [hkind] at hok
    obtain ⟨id, -, hok⟩ := bind_eq_ok.1 hok
    cases hget : eng.get id with
    | none =>
      rw [hget] at hok
      obtain rfl := Except.ok.inj hok
      exact hsame
    | some s =>
      rw [hget] at hok
      obtain ⟨bt, -, rfl⟩ := map_eq_ok.1 hok
      refine ⟨length_pushRow _ _, .inr ⟨.finish id (shownRow (update s ev)), ?_⟩⟩
      show WebEngine.mk _ _ _ = WebEngine.mk _ _ _
      congr 1
      show List.map _ (List.filter _ eng.sessions) = List.filter _ (List.map _ eng.sessions)
      rw [List.filter_map]
      rfl
  | ready =>
    rw [hkind] at hok
    obtain rfl := Except.ok.inj hok
    exact hsame
  | other =>
    rw [hkind] at hok
    obtain rfl := Except.ok.inj hok
    exact hsame

end Core

/-! ## The settings -/

/-- What `_ui_settings` returns. -/
structure UiSettings where
  visibleTabs : List Text := []
  authRequired : Bool := false
  hasPassword : Bool := false
  completedColor : Text := []
  failedColor : Text := []
  recentWindowSec : Int := 0
  longWindowHours : Int := 0
deriving DecidableEq, Repr

/-- The tabs of the configuration that are known, the dashboard among them. -/
def shownTabs (raw : Option Json) : List Text :=
  let tabs := match raw with
    | some (.arr xs) => xs.filterMap fun
      | .str s => if ALL_VIEW_TABS.contains s then some s else none
      | _ => none
    | _ => ALL_VIEW_TABS
  if tabs.contains (text "dashboard") then tabs else text "dashboard" :: tabs

/-- One colour of `_clean_chart_colors`. -/
def shownColor (raw : Option Json) (key : String) (dflt : String) : Text :=
  match raw.bind fun raw => raw.get (text key) with
  | some (.str s) => if isHexColor s then s else text dflt
  | _ => text dflt

/-- `_clamp_int`, as a number. -/
def clampedInt (raw : Option Json) (dflt lo hi : Int) : Except PyError Int :=
  (clampInt (raw.getD (.int dflt)) dflt lo hi).map fun
    | .int n => n
    | _ => dflt

/-- `_ui_settings`. -/
def uiSettings (config : Json) (hasPassword : Bool) : Except PyError UiSettings :=
  let web (key : String) := getPath [text "web", text key] config
  (clampedInt (web "stats_recent_window_sec") 60 10 600).bind fun recent =>
  (clampedInt (web "stats_long_window_hours") 12 1 48).map fun long =>
    { visibleTabs := shownTabs (web "visible_tabs")
      authRequired := (web "require_auth").any truthy
      hasPassword := hasPassword
      completedColor := shownColor (web "daily_chart_colors") "completed" "#3fb950"
      failedColor := shownColor (web "daily_chart_colors") "failed" "#1f6feb"
      recentWindowSec := recent
      longWindowHours := long }

/-! ## The users -/

/-- `a == b` of dicts: the order of the members plays no part. -/
def SameDict (a b : List (Text × Text)) : Prop := ∀ key, a.lookup key = b.lookup key

instance (a b : List (Text × Text)) : Decidable (SameDict a b) :=
  decidable_of_iff (∀ key ∈ a.map (·.1) ++ b.map (·.1), a.lookup key = b.lookup key) (by
    refine ⟨fun h key => ?_, fun h key _ => h key⟩
    by_cases hmem : key ∈ a.map (·.1) ++ b.map (·.1)
    · exact h key hmem
    · rw [List.mem_append, not_or] at hmem
      rw [Dict.lookup_eq_none_of_not_mem hmem.1, Dict.lookup_eq_none_of_not_mem hmem.2])

/-- `UserStore.replace_all`. -/
def replaceAll (mapping : List (Text × Json)) : List (Text × Text) :=
  mapping.foldl (fun users m => Dict.set users m.1 (pyStr m.2)) []

/-! ## Server, socket and browser -/

/-- The parts of the server the messages are made of. -/
structure Server where
  /-- `state.tftp_server` -/
  engine : Option WebEngine
  /-- `state.users` -/
  users : Option (List (Text × Text))
  config : Json
  hasPassword : Bool

/-- The four values. -/
structure View where
  sessions : List Json
  sessionHistory : List Json
  users : List (Text × Text)
  uiSettings : UiSettings

/-- `_sessions_safe`; should `active_sessions` raise, nothing is shown. -/
def Server.sessions (srv : Server) (raises : Bool) : List Json :=
  match srv.engine with
  | none => []
  | some eng => if raises then [] else eng.sessions.map (·.2)

/-- `_history_safe`. -/
def Server.history (srv : Server) : List Json :=
  match srv.engine with
  | none => []
  | some eng => eng.history

/-- A `tick`: what it leaves out is `none`. -/
structure Tick where
  sessions : Option (List Json)
  sessionHistory : Option (List Json)
  users : Option (List (Text × Text))
  uiSettings : Option UiSettings

/-- The variables of `ws_stream`. -/
structure Socket where
  prevHistoryLen : Nat
  usersSnapshot : List (Text × Text)
  prevUi : UiSettings
  prevSessionsEmpty : Bool

/-- The message of a tick, and the variables after it. -/
def Socket.tick (ws : Socket) (srv : Server) (ui : UiSettings) (raises : Bool) : Tick × Socket :=
  let sessionsNow := srv.sessions raises
  let history := srv.history
  ({ sessions := if sessionsNow ≠ [] ∨ ws.prevSessionsEmpty = false then some sessionsNow else none
     sessionHistory := if history.length ≠ ws.prevHistoryLen then some history else none
     users := srv.users.filter fun cur => ! decide (SameDict cur ws.usersSnapshot)
     uiSettings := if ui ≠ ws.prevUi then some ui else none },
   { prevHistoryLen := history.length
     usersSnapshot := match srv.users with
       | some cur => if SameDict cur ws.usersSnapshot then ws.usersSnapshot else cur
       | none => ws.usersSnapshot
     prevUi := ui
     prevSessionsEmpty := decide (sessionsNow = []) })

/-- `ws.onmessage` on a tick. -/
def View.onTick (view : View) (msg : Tick) : View where
  sessions := msg.sessions.getD view.sessions
  sessionHistory := msg.sessionHistory.getD view.sessionHistory
  users := msg.users.getD view.users
  uiSettings := msg.uiSettings.getD view.uiSettings

/-- The values of the server at some moment. -/
def Server.view (srv : Server) (ui : UiSettings) (raises : Bool) : View where
  sessions := srv.sessions raises
  sessionHistory := srv.history
  users := srv.users.getD []
  uiSettings := ui

/-- A WebSocket with its two ends. -/
structure Stream where
  server : Server
  /-- `none` once the handler of the socket has raised -/
  socket : Option Socket
  browser : View
  /-- the values the server computed for its last message -/
  computed : View
  /-- the rows of the sessions that have ended since, the latest first -/
  ended : List Json

inductive StreamEvent
  | engine (e : WebEngineEvent)
  /-- the users are edited -/
  | users (mapping : List (Text × Json))
  /-- a configuration is saved, the UI settings in it -/
  | save (config : Json)
  | password (has : Bool)
  | tick (raises : Bool)

/-- A socket is opened and the browser gets the first message.  Settings that cannot be computed end
    it before that. -/
def Stream.init (srv : Server) (raises : Bool) : Stream :=
  match uiSettings srv.config srv.hasPassword with
  | .error _ => ⟨srv, none, ⟨[], [], [], {}⟩, ⟨[], [], [], {}⟩, []⟩
  | .ok ui =>
    let socket : Socket := ⟨srv.history.length, srv.users.getD [], ui, false⟩
    ⟨srv, some socket, srv.view ui raises, srv.view ui raises, []⟩

/-- The rows of ended sessions after an event. -/
def noteEnded (engine : Option WebEngine) (e : WebEngineEvent) (ended : List Json) : List Json :=
  match engine, e with
  | some _, .finish _ row => row :: ended
  | _, _ => ended

def Stream.step (w : Stream) : StreamEvent → Stream
  | .engine e => { w with
      server := { w.server with engine := w.server.engine.map (·.step e) }
      ended := noteEnded w.server.engine e w.ended }
  | .users mapping => { w with server :=
      { w.server with users := w.server.users.map fun _ => replaceAll mapping } }
  | .save config => { w with server := { w.server with config := config } }
  | .password has => { w with server := { w.server with hasPassword := has } }
  | .tick raises =>
    match w.socket, uiSettings w.server.config w.server.hasPassword with
    | some ws, .ok ui =>
      let (msg, ws') := ws.tick w.server ui raises
      { w with
        socket := some ws'
        browser := w.browser.onTick msg
        computed := w.server.view ui raises
        ended := [] }
    | _, _ => { w with socket := none }

/-- The browser shows what the server computed for its last message. -/
structure Stream.Converged (w : Stream) : Prop where
  sessions : w.browser.sessions = w.computed.sessions
  sessionHistory : w.browser.sessionHistory = w.computed.sessionHistory
  users : SameDict w.browser.users w.computed.users
  uiSettings : w.browser.uiSettings = w.computed.uiSettings

/-- No tick comes after sessions have ended while the ring was full, unless their rows leave it as it
    was. -/
def Stream.Quiet (w : Stream) : StreamEvent → Prop
  | .tick _ => w.socket.isSome → (∃ ui, uiSettings w.server.config w.server.hasPassword = .ok ui) →
      w.ended = [] ∨ w.computed.sessionHistory.length < HISTORY_MAX ∨
        (w.ended ++ w.computed.sessionHistory).take HISTORY_MAX = w.computed.sessionHistory
  | _ => True

/-! ## What the variables of the socket stand for -/

/-- The socket's variables against the browser, and the history against its last message. -/
structure Stream.Linked (w : Stream) (ws : Socket) : Prop where
  length : ws.prevHistoryLen = w.computed.sessionHistory.length
  users : SameDict ws.usersSnapshot w.browser.users
  noUsers : w.server.users = none → SameDict w.browser.users []
  ui : ws.prevUi = w.browser.uiSettings
  empty : ws.prevSessionsEmpty = true → w.browser.sessions = []
  ring : w.server.history = (w.ended ++ w.computed.sessionHistory).take HISTORY_MAX
  bounded : w.computed.sessionHistory.length ≤ HISTORY_MAX

section Linked

variable {w : Stream} {ws : Socket}

theorem length_history (srv : Server) : srv.history.length ≤ HISTORY_MAX := by
  unfold Server.history
  split
  · exact Nat.zero_le _
  · rename_i eng _
    exact eng.bounded

theorem take_history (srv : Server) : srv.history.take HISTORY_MAX = srv.history :=
  List.take_of_length_le (length_history srv)

theorem take_pushRow (row : Json) (l : List Json) :
    pushRow row (l.take HISTORY_MAX) = (row :: l).take HISTORY_MAX := by
  unfold pushRow HISTORY_MAX
  rw [List.take_succ_cons, List.take_succ_cons, List.take_take]
  rfl

/-- A ring that is not full shows by its length that something was added. -/
theorem length_ring (ended : List Json) {h : List Json} (hh : h.length ≤ HISTORY_MAX) :
    ((ended ++ h).take HISTORY_MAX).length = h.length ↔ ended = [] ∨ h.length = HISTORY_MAX := by
  rw [List.length_take, List.length_append]
  constructor
  · intro hlen
    by_cases hfull : h.length = HISTORY_MAX
    · exact .inr hfull
    · refine .inl (List.length_eq_zero_iff.1 ?_)
      omega
  · rintro (rfl | hfull)
    · rw [List.length_nil]
      omega
    · omega

/-- Sessions, users and settings of a tick reach the browser. -/
theorem Stream.Linked.onTick (h : w.Linked ws) (ui : UiSettings) (raises : Bool) :
    (w.browser.onTick (ws.tick w.server ui raises).1).sessions = w.server.sessions raises ∧
    SameDict (w.browser.onTick (ws.tick w.server ui raises).1).users (w.server.users.getD []) ∧
    (w.browser.onTick (ws.tick w.server ui raises).1).uiSettings = ui := by
  refine ⟨?_, ?_, ?_⟩
  · show (if w.server.sessions raises ≠ [] ∨ ws.prevSessionsEmpty = false then
      some (w.server.sessions raises) else none).getD w.browser.sessions = _
    by_cases hsend : w.server.sessions raises ≠ [] ∨ ws.prevSessionsEmpty = false
    · rw [if_pos hsend, Option.getD_some]
    · rw [if_neg hsend, Option.getD_none]
      obtain ⟨hnil, hprev⟩ := not_or.1 hsend
      rw [h.empty (by simpa using hprev), not_not.1 hnil]
  · show SameDict ((w.server.users.filter fun cur =>
      ! decide (SameDict cur ws.usersSnapshot)).getD w.browser.users) _
    cases husers : w.server.users with
    | none => exact h.noUsers husers
    | some cur =>
      by_cases hsame : SameDict cur ws.usersSnapshot
      · rw [Option.filter_some, if_neg (by simp [hsame]), Option.getD_none, Option.getD_some]
        exact fun key => ((hsame key).trans (h.users key)).symm
      · rw [Option.filter_some, if_pos (by simp [hsame]), Option.getD_some, Option.getD_some]
        exact fun _ => rfl
  · show (if ui ≠ ws.prevUi then some ui else none).getD w.browser.uiSettings = ui
    by_cases hui : ui = ws.prevUi
    · rw [if_neg (not_not.2 hui), Option.getD_none, hui, h.ui]
    · rw [if_pos hui, Option.getD_some]

/-- The history reaches it if its length differs, or if it is what the browser has. -/
theorem Stream.Linked.history_iff (h : w.Linked ws)
    (hconv : w.browser.sessionHistory = w.computed.sessionHistory) (ui : UiSettings)
    (raises : Bool) :
    (w.browser.onTick (ws.tick w.server ui raises).1).sessionHistory = w.server.history ↔
      w.ended = [] ∨ w.computed.sessionHistory.length < HISTORY_MAX ∨
        (w.ended ++ w.computed.sessionHistory).take HISTORY_MAX = w.computed.sessionHistory := by
  show (if w.server.history.length ≠ ws.prevHistoryLen then some w.server.history else none).getD
    w.browser.sessionHistory = _ ↔ _
  rw [h.length, hconv, h.ring]
  have hring := length_ring w.ended h.bounded
  by_cases hlen : ((w.ended ++ w.computed.sessionHistory).take HISTORY_MAX).length =
      w.computed.sessionHistory.length
  · rw [if_neg (not_not.2 hlen), Option.getD_none]
    constructor
    · intro heq
      exact .inr (.inr heq.symm)
    rintro (hnil | hlt | heq)
    · rw [hnil, List.nil_append, List.take_of_length_le h.bounded]
    · rcases hring.1 hlen with hnil | hfull
      · rw [hnil, List.nil_append, List.take_of_length_le h.bounded]
      · omega
    · exact heq.symm
  · rw [if_pos hlen, Option.getD_some]
    have hbound := h.bounded
    exact iff_of_true rfl (.inr (.inl (by omega)))

/-- The variables after a tick. -/
theorem Stream.Linked.tick (h : w.Linked ws) (ui : UiSettings) (raises : Bool) :
    Stream.Linked
      { w with
        socket := some (ws.tick w.server ui raises).2
        browser := w.browser.onTick (ws.tick w.server ui raises).1
        computed := w.server.view ui raises
        ended := [] } (ws.tick w.server ui raises).2 := by
  obtain ⟨hsessions, husers, hui⟩ := h.onTick ui raises
  refine ⟨rfl, ?_, ?_, hui.symm, ?_, (take_history w.server).symm, length_history w.server⟩
  · show SameDict (match w.server.users with
      | some cur => if SameDict cur ws.usersSnapshot then ws.usersSnapshot else cur
      | none => ws.usersSnapshot) _
    intro key
    rw [husers key]
    cases hnone : w.server.users with
    | none => exact (h.users key).trans (h.noUsers hnone key)
    | some cur =>
      dsimp only
      by_cases hsame : SameDict cur ws.usersSnapshot
      · rw [if_pos hsame]
        exact (hsame key).symm
      · rw [if_neg hsame]
        rfl
  · intro hnone key
    rw [husers key, hnone]
    rfl
  · intro hempty
    exact hsessions.trans (of_decide_eq_true hempty)

/-- The ring and what has ended since go together. -/
theorem history_engine {srv : Server} {ended h : List Json}
    (hring : srv.history = (ended ++ h).take HISTORY_MAX) (e : WebEngineEvent) :
    Server.history { srv with engine := srv.engine.map (·.step e) } =
      (noteEnded srv.engine e ended ++ h).take HISTORY_MAX := by
  obtain ⟨engine, users, config, hasPassword⟩ := srv
  cases engine with
  | none => exact hring
  | some eng =>
    cases e with
    | put id row => exact hring
    | finish id row =>
      show pushRow row eng.history = (row :: (ended ++ h)).take HISTORY_MAX
      have hring : eng.history = (ended ++ h).take HISTORY_MAX := hring
      rw [hring, take_pushRow]

end Linked

/-- A socket that is open is linked. -/
def Stream.Wf (w : Stream) : Prop := ∀ ws, w.socket = some ws → w.Linked ws

section Run

variable {w : Stream}

theorem Stream.Wf.init (srv : Server) (raises : Bool) : (Stream.init srv raises).Wf := by
  unfold Stream.init
  split
  · intro ws hws
    cases hws
  intro ws hws
  obtain rfl := Option.some.inj hws
  refine ⟨rfl, fun _ => rfl, fun hnone key => ?_, rfl, fun h => (by cases h),
    (take_history srv).symm, length_history srv⟩
  show (srv.users.getD []).lookup key = _
  rw [hnone]
  rfl

theorem Stream.Wf.step (h : w.Wf) (e : StreamEvent) : (w.step e).Wf := by
  cases e with
  | engine e =>
    intro ws hws
    have hl := h ws hws
    exact ⟨hl.length, hl.users, hl.noUsers, hl.ui, hl.empty, history_engine hl.ring e, hl.bounded⟩
  | users mapping =>
    intro ws hws
    have hl := h ws hws
    refine ⟨hl.length, hl.users, fun hnone => hl.noUsers ?_, hl.ui, hl.empty, hl.ring, hl.bounded⟩
    exact Option.map_eq_none_iff.1 hnone
  | save config =>
    intro ws hws
    have hl := h ws hws
    exact ⟨hl.length, hl.users, hl.noUsers, hl.ui, hl.empty, hl.ring, hl.bounded⟩
  | password has =>
    intro ws hws
    have hl := h ws hws
    exact ⟨hl.length, hl.users, hl.noUsers, hl.ui, hl.empty, hl.ring, hl.bounded⟩
  | tick raises =>
    unfold Stream.step
    cases hsocket : w.socket with
    | none =>
      intro ws hws
      cases hws
    | some ws =>
      cases uiSettings w.server.config w.server.hasPassword with
      | error err =>
        intro ws hws
        cases hws
      | ok ui =>
        intro ws' hws'
        obtain rfl := Option.some.inj hws'
        exact (h ws hsocket).tick ui raises

theorem converged_init (srv : Server) (raises : Bool) : (Stream.init srv raises).Converged := by
  unfold Stream.init
  split
  · exact ⟨rfl, rfl, fun _ => rfl, rfl⟩
  · exact ⟨rfl, rfl, fun _ => rfl, rfl⟩

/-- One event: nothing but a tick has to do with it. -/
theorem converged_step_iff (hwf : w.Wf) (h : w.Converged) (e : StreamEvent) :
    (w.step e).Converged ↔ w.Quiet e := by
  cases e with
  | tick raises =>
    unfold Stream.step Stream.Quiet
    cases hsocket : w.socket with
    | none =>
      refine iff_of_true ⟨h.sessions, h.sessionHistory, h.users, h.uiSettings⟩ fun hopen => ?_
      cases hopen
    | some ws =>
      cases hui : uiSettings w.server.config w.server.hasPassword with
      | error err =>
        refine iff_of_true ⟨h.sessions, h.sessionHistory, h.users, h.uiSettings⟩ fun _ hok => ?_
        obtain ⟨ui, hok⟩ := hok
        cases hok
      | ok ui =>
        have hl := hwf ws hsocket
        have hhist := hl.history_iff h.sessionHistory ui raises
        obtain ⟨hsessions, husers, hset⟩ := hl.onTick ui raises
        constructor
        · intro hconv _ _
          exact hhist.1 hconv.sessionHistory
        · intro hquiet
          exact ⟨hsessions, hhist.2 (hquiet rfl ⟨ui, rfl⟩), husers, hset⟩
  | engine e => exact iff_of_true ⟨h.sessions, h.sessionHistory, h.users, h.uiSettings⟩ trivial
  | users mapping => exact iff_of_true ⟨h.sessions, h.sessionHistory, h.users, h.uiSettings⟩ trivial
  | save config => exact iff_of_true ⟨h.sessions, h.sessionHistory, h.users, h.uiSettings⟩ trivial
  | password has => exact iff_of_true ⟨h.sessions, h.sessionHistory, h.users, h.uiSettings⟩ trivial

/-- **The browser follows the server until the history is full.**  Whatever the server is like when
    the socket opens, and whatever happens then, the browser shows after every tick what the server
    computed for it exactly when no tick comes after sessions have ended with the history full. -/
theorem browser_converges_iff (srv : Server) (raises : Bool) (es : List StreamEvent) :
    Always Stream.step Stream.Converged (.init srv raises) es ↔
      Along Stream.step Stream.Quiet (.init srv raises) es := by
  have hwf : Always Stream.step Stream.Wf (.init srv raises) es :=
    always_of_step (fun _ e hw => hw.step e) (.init srv raises) es
  constructor
  · intro h
    have hboth : Always Stream.step (fun w => w.Wf ∧ w.Converged) (.init srv raises) es := hwf.and h
    exact hboth.along fun w e hw hw' => (converged_step_iff hw.1 hw.2 e).1 hw'.2
  · intro h
    have hboth : Always Stream.step (fun w => w.Wf ∧ w.Converged) (.init srv raises) es :=
      Along.always (fun w e hw hq => ⟨hw.1.step e, (converged_step_iff hw.1 hw.2 e).2 hq⟩)
        ⟨.init srv raises, converged_init srv raises⟩ h
    exact hboth.mono fun _ hw => hw.2

end Run

/-- A server whose history is full, with one session running. -/
def fullServer : Server where
  engine := some ⟨[(7, .int 100)], (List.range 100).map fun n => .int n, by decide⟩
  users := some []
  config := .obj []
  hasPassword := false

/-- The hundred-and-first session ends, and no tick tells the browser. -/
theorem full_history_not_seen : ¬ Always Stream.step Stream.Converged (.init fullServer false)
    [.engine (.finish 7 (.int 100)), .tick false] := by
  intro h
  have hhead : some (Json.int 0) = some (.int 100) :=
    congrArg List.head? h.last.sessionHistory
  cases hhead

end Nishro.Py

import NishroTftp.Lib.Runs
import NishroTftp.Py.Value
/-
  The three ways the configuration is saved from the browser (`web/static/js/config.js`, the
  endpoints of `web/app.py`).

  The ACL editor and the UI-settings editor send their own part, and the server writes it into the
  configuration it holds: one message each.  The main form sends a WHOLE configuration.  It is made
  of a copy it has fetched just before and of the values of the form, so between the fetch and the
  POST there is a time in which the other two can save and be overwritten.

  A configuration is an object; what JavaScript does with one between `JSON.parse` and
  `JSON.stringify` is `setPath`.
-/
namespace Nishro.Py

open Runs
open Utf8 (Text text)

/-! ## `setPath` -/

/-- `node[key] = value`; a named property of an array is lost in the JSON text. -/
def setProperty (node : Json) (key : Text) (value : Json) : Json :=
  match node with
  | .obj _ => setItem node key value
  | _ => node

/-- The node below `key`, made anew where it is not an object. -/
def childAt (node : Json) (key : Text) : Json :=
  match node.get key with
  | some (.obj ms) => .obj ms
  | some (.arr xs) => .arr xs
  | _ => .obj []

/-- `setPath(obj, path, value)`. -/
def setPath : List Text → Json → Json → Json
  | [], _, node => node
  | [key], value, node => setProperty node key value
  | key :: next :: path, value, node =>
    setProperty node key (setPath (next :: path) value (childAt node key))

/-- `config.get(*path)`, `none` where there is nothing. -/
def getPath : List Text → Json → Option Json
  | [], node => some node
  | key :: path, node => (node.get key).bind (getPath path)

/-! ## The form -/

/-- The fields of `CONFIG_SCHEMA`, by section and key. -/
def SCHEMA : List (List Text) :=
  ([["network", "nic"], ["network", "virtual_ip"], ["network", "virtual_mac"],
    ["network", "promiscuous"],
    ["sessions", "max_concurrent"], ["sessions", "overflow_policy"], ["sessions", "queue_timeout"],
    ["tftp", "engine"], ["tftp", "listen_port"], ["tftp", "enable_writes"],
    ["tftp", "allow_block_rollover"], ["tftp", "max_retries"],
    ["tftp", "negotiation", "blksize"], ["tftp", "negotiation", "windowsize"],
    ["tftp", "negotiation", "timeout"],
    ["tftp", "defaults", "blksize"], ["tftp", "defaults", "windowsize"],
    ["tftp", "defaults", "timeout"],
    ["tftp", "limits", "blksize_min"], ["tftp", "limits", "blksize_max"],
    ["tftp", "limits", "windowsize_min"], ["tftp", "limits", "windowsize_max"],
    ["tftp", "limits", "timeout_min"], ["tftp", "limits", "timeout_max"],
    ["files", "write_root"], ["files", "max_wrq_size"], ["files", "allow_wrq_ftp"],
    ["files", "local", "recursive"], ["files", "local", "root"], ["files", "max_rrq_size"],
    ["files", "max_copy_size_local"], ["files", "max_copy_size_ftp"],
    ["files", "ftp", "host"], ["files", "ftp", "port"], ["files", "ftp", "user"],
    ["files", "ftp", "password"], ["files", "ftp", "root"], ["files", "max_ftp_size"],
    ["files", "ftp_prefix", "enabled"], ["files", "ftp_prefix", "trigger"],
    ["files", "ftp_prefix", "folder_prefix"], ["files", "ftp_prefix", "digit_pad"],
    ["files", "ftp_prefix", "host"], ["files", "ftp_prefix", "port"], ["files", "ftp_prefix", "user"],
    ["files", "ftp_prefix", "password"], ["files", "ftp_prefix", "root"],
    ["files", "cache", "enabled"], ["files", "cache", "max_bytes"],
    ["files", "cache", "max_file_bytes"],
    ["logging", "level"], ["logging", "file"], ["logging", "rotate", "enabled"],
    ["logging", "rotate", "max_bytes"], ["logging", "rotate", "backup_count"],
    ["logging", "memory_buffer"],
    ["web", "host"], ["web", "port"], ["web", "stats_interval"],
    ["web", "require_auth"]] : List (List String)).map (·.map text)

/-- The values of the form; a field that is not on the page has none. -/
abbrev Form := List Text → Option Json

/-- What the form sends: a copy of the configuration with the values of the form. -/
def overlayForm (form : Form) (copy : Json) : Json :=
  SCHEMA.foldl (fun out path =>
    match form path with
    | some value => setPath path value out
    | none => out) copy

/-! ## The other editors -/

/-- The fields the form has no part in. -/
inductive Field
  | security | visibleTabs | dailyChartColors | statsRecentWindowSec | statsLongWindowHours
deriving DecidableEq, Repr

/-- Its key in the payload of its editor, and in its section. -/
def Field.key : Field → Text
  | .security => text "security"
  | .visibleTabs => text "visible_tabs"
  | .dailyChartColors => text "daily_chart_colors"
  | .statsRecentWindowSec => text "stats_recent_window_sec"
  | .statsLongWindowHours => text "stats_long_window_hours"

/-- Where the field is. -/
def Field.path : Field → List Text
  | .security => [text "security"]
  | f => [text "web", f.key]

/-- The value of the field in a configuration. -/
def Field.value (f : Field) (config : Json) : Option Json := getPath f.path config

/-- `api_acl_post`: the configuration it saves. -/
def aclPost (config payload : Json) : Json := setItem config (text "security") payload

def ALL_VIEW_TABS : List Text :=
  (["dashboard", "sessions", "files", "stats", "logs"] : List String).map text

/-- `t in _ALL_VIEW_TABS`. -/
def isViewTab : Json → Bool
  | .str s => ALL_VIEW_TABS.contains s
  | _ => false

def isDashboard : Json → Bool
  | .str s => s == text "dashboard"
  | _ => false

/-- The tabs that are saved. -/
def cleanTabs (tabs : List Json) : List Json :=
  let clean := tabs.filter isViewTab
  if clean.any isDashboard then clean else .str (text "dashboard") :: clean

def isHexDigit (c : Nat) : Bool :=
  Json.isDigit c || (decide (97 ≤ c) && decide (c ≤ 102)) || (decide (65 ≤ c) && decide (c ≤ 70))

/-- `_HEX_RE.match`; the `$` of the expression lets a final newline pass. -/
def isHexColor (s : Text) : Bool :=
  let s := if s.length == 8 && s.getLast? == some 10 then s.dropLast else s
  s.length == 7 && s.head? == some 35 && s.tail.all isHexDigit

/-- `_clean_chart_colors` of a dict: one colour. -/
def cleanColor (raw : Json) (key : String) (dflt : String) : Json :=
  match raw.get (text key) with
  | some (.str s) => if isHexColor s then .str s else .str (text dflt)
  | _ => .str (text dflt)

def cleanChartColors (raw : Json) : Json :=
  .obj [(text "completed", cleanColor raw "completed" "#3fb950"),
    (text "failed", cleanColor raw "failed" "#1f6feb")]

/-- `_clamp_int`; what `int` raises for an infinity is not caught. -/
def clampInt (raw : Json) (dflt lo hi : Int) : Except PyError Json :=
  match toInt raw with
  | .ok n => .ok (.int (max lo (min hi n)))
  | .error .typeError | .error .valueError => .ok (.int (max lo (min hi dflt)))
  | .error e => .error e

/-- The value the UI-settings endpoint saves for a field of its payload; an error turns the whole
    request down. -/
def uiValue (f : Field) (raw : Json) : Except PyError Json :=
  match f with
  | .visibleTabs =>
    match raw with
    | .arr tabs => .ok (.arr (cleanTabs tabs))
    | _ => .error .valueError
  | .dailyChartColors =>
    match raw with
    | .obj _ => .ok (cleanChartColors raw)
    | _ => .error .valueError
  | .statsRecentWindowSec => clampInt raw 60 10 600
  | .statsLongWindowHours => clampInt raw 12 1 48
  | .security => .ok raw

/-- The fields of the UI-settings endpoint, in its order. -/
def UI_FIELDS : List Field :=
  [.visibleTabs, .dailyChartColors, .statsRecentWindowSec, .statsLongWindowHours]

/-- `web_cfg[key] = …` for the fields of the payload. -/
def uiFields (payload : Json) : List Field → Json → Except PyError Json
  | [], web => .ok web
  | f :: fs, web =>
    match payload.get f.key with
    | none => uiFields payload fs web
    | some raw => (uiValue f raw).bind fun v => uiFields payload fs (setItem web f.key v)

/-- `api_ui_settings_post`: the configuration it saves. -/
def uiSettingsPost (config payload : Json) : Except PyError Json :=
  match orEmpty (config.get (text "web")) with
  | .obj ms => (uiFields payload UI_FIELDS (.obj ms)).map fun web => setItem config (text "web") web
  | _ => .error .typeError

/-! ## Browsers and server -/

/-- The server, the browsers, and the requests that are under way. -/
structure Saves where
  /-- `config.data` -/
  store : Json
  /-- what the last save of its editor left in a field -/
  last : Field → Option Json
  /-- `currentConfig` of a browser -/
  current : Nat → Option Json
  /-- configurations on their way to a browser, which will keep them as `currentConfig` -/
  replies : List (Nat × Json)
  /-- calls of `save` under way: the browser, and the copy it will send -/
  saves : List (Nat × Json)

/-- A server with this configuration and browsers that have not asked for it yet. -/
def Saves.new (ms : List (Text × Json)) : Saves :=
  ⟨.obj ms, fun f => f.value (.obj ms), fun _ => none, [], []⟩

inductive SaveEvent
  /-- the form is shown: `load` fetches the configuration -/
  | load (browser : Nat)
  /-- the answer to `load`, or to a POST of the form, arrives -/
  | arrive (i : Nat)
  /-- `save` begins, with the copy the browser has -/
  | click (browser : Nat)
  /-- `save` fetches the configuration; without this the copy stays as it was -/
  | refetch (i : Nat)
  /-- `save` sends the copy with the values of the form -/
  | post (i : Nat) (form : Form)
  /-- a request of `save` fails, or the browser is closed -/
  | giveUp (i : Nat)
  /-- the ACL editor -/
  | acl (payload : Json)
  /-- the UI-settings editor -/
  | ui (payload : Json)

/-- The fields a save of the UI-settings editor is for. -/
def Field.inPayload (f : Field) (payload : Json) : Bool :=
  UI_FIELDS.contains f && (payload.get f.key).isSome

def Saves.step (w : Saves) : SaveEvent → Saves
  | .load b => { w with replies := w.replies ++ [(b, w.store)] }
  | .arrive i =>
    match w.replies[i]? with
    | some (b, config) => { w with
        current := fun c => if c = b then some config else w.current c
        replies := w.replies.eraseIdx i }
    | none => w
  | .click b =>
    match w.current b with
    | some config => { w with saves := w.saves ++ [(b, config)] }
    | none => w
  | .refetch i =>
    match w.saves[i]? with
    | some (b, _) => { w with saves := w.saves.set i (b, w.store) }
    | none => w
  | .post i form =>
    match w.saves[i]? with
    | some (b, copy) => { w with
        store := overlayForm form copy
        replies := w.replies ++ [(b, overlayForm form copy)]
        saves := w.saves.eraseIdx i }
    | none => w
  | .giveUp i => { w with saves := w.saves.eraseIdx i }
  | .acl payload => { w with
      store := aclPost w.store payload
      last := fun f => if f = .security then f.value (aclPost w.store payload) else w.last f }
  | .ui payload =>
    match uiSettingsPost w.store payload with
    | .ok config => { w with
        store := config
        last := fun f => if f.inPayload payload then f.value config else w.last f }
    | .error _ => w

/-! ## Who writes which field -/

/-- Two paths that part before either ends. -/
def apart : List Text → List Text → Bool
  | k :: p, k' :: q => k != k' || apart p q
  | _, _ => false

theorem setProperty_of_not_obj {node : Json} (h : ∀ ms, node ≠ .obj ms) (key : Text) (v : Json) :
    setProperty node key v = node := by
  cases node with
  | obj ms => exact absurd rfl (h ms)
  | _ => rfl

/-- Below a node that is made anew there is nothing, as there was nothing. -/
theorem getPath_childAt (node : Json) (key k : Text) (q : List Text) :
    getPath (k :: q) (childAt node key) = (node.get key).bind (getPath (k :: q)) := by
  unfold childAt
  cases node.get key with
  | none => rfl
  | some x => cases x <;> rfl

/-- Writing at one path leaves what is at a path apart from it. -/
theorem getPath_setPath {p q : List Text} (h : apart p q = true) (v node : Json) :
    getPath q (setPath p v node) = getPath q node := by
  induction p generalizing q node with
  | nil => simp [apart] at h
  | cons k p ih =>
    cases q with
    | nil => simp [apart] at h
    | cons k' q =>
      by_cases hobj : ∀ ms, node ≠ .obj ms
      · -- nothing is written, whatever is below
        cases p with
        | nil => rw [setPath, setProperty_of_not_obj hobj]
        | cons k₂ p => rw [setPath, setProperty_of_not_obj hobj]
      · obtain ⟨ms, rfl⟩ := Classical.not_forall_not.1 hobj
        have hset : ∀ x, (setProperty (.obj ms) k x).get k' =
            if k' = k then some x else (Json.obj ms).get k' := fun x => get_setItem rfl k k' x
        cases p with
        | nil =>
          have hne : ¬ k' = k := by
            rintro rfl
            simp [apart] at h
          rw [getPath, setPath, hset, if_neg hne, getPath]
        | cons k₂ p =>
          rw [getPath, setPath, hset, getPath]
          by_cases hk : k' = k
          · subst hk
            have hq : apart (k₂ :: p) q = true := by simpa [apart] using h
            cases q with
            | nil => simp [apart] at hq
            | cons k₃ q => rw [if_pos rfl, Option.bind_some, ih hq, getPath_childAt]
          · rw [if_neg hk]

/-- The form has no part in the fields of the editors. -/
theorem value_overlayForm (form : Form) (copy : Json) (f : Field) :
    f.value (overlayForm form copy) = f.value copy := by
  have hall : ∀ path ∈ SCHEMA, apart path f.path = true := by
    have h : (SCHEMA.all fun path => apart path f.path) = true := by
      cases f <;> decide
    exact List.all_eq_true.1 h
  unfold overlayForm Field.value
  generalize SCHEMA = paths at hall
  induction paths generalizing copy with
  | nil => rfl
  | cons path paths ih =>
    obtain ⟨hpath, hall⟩ := List.forall_mem_cons.1 hall
    rw [List.foldl_cons, ih _ hall]
    split
    · exact getPath_setPath hpath _ _
    · rfl

/-- The ACL editor writes its field. -/
theorem value_aclPost (ms : List (Text × Json)) (payload : Json) (f : Field) :
    f.value (aclPost (.obj ms) payload) =
      if f = .security then some payload else f.value (.obj ms) := by
  have hget := fun n => get_setItem (d := .obj ms) rfl (text "security") n payload
  cases f with
  | security => exact (congrArg (Option.bind · some) (hget (text "security"))).trans rfl
  | _ => exact congrArg (Option.bind · (getPath _)) (hget (text "web"))

/-- The UI-settings editor writes the fields of its payload. -/
theorem get_uiFields {payload : Json} {fs : List Field} {ms : List (Text × Json)} {web : Json}
    (h : uiFields payload fs (.obj ms) = .ok web) :
    (∃ ms', web = .obj ms') ∧ ∀ f : Field, f.key ∉ (fs.filter fun g =>
      (payload.get g.key).isSome).map Field.key → web.get f.key = (Json.obj ms).get f.key := by
  induction fs generalizing ms with
  | nil =>
    cases h
    exact ⟨⟨ms, rfl⟩, fun f _ => rfl⟩
  | cons g fs ih =>
    unfold uiFields at h
    cases hraw : payload.get g.key with
    | none =>
      rw [hraw] at h
      obtain ⟨hobj, hget⟩ := ih h
      refine ⟨hobj, fun f hf => hget f ?_⟩
      rwa [List.filter_cons_of_neg (by simp [hraw])] at hf
    | some raw =>
      rw [hraw] at h
      cases hv : uiValue g raw with
      | error e => simp [hv, Except.bind] at h
      | ok v =>
        simp only [hv, Except.bind] at h
        obtain ⟨hobj, hget⟩ := ih h
        refine ⟨hobj, fun f hf => ?_⟩
        rw [List.filter_cons_of_pos (by simp [hraw]), List.map_cons, List.mem_cons, not_or] at hf
        rw [hget f hf.2]
        exact (get_setItem rfl _ _ _).trans (if_neg hf.1)

/-- `x or {}` has the members of `x`. -/
theorem get_orEmpty (x : Option Json) (k : Text) : (orEmpty x).get k = x.bind (Json.get k) := by
  cases x with
  | none => rfl
  | some x =>
    rw [orEmpty, Option.bind_some]
    cases htruthy : truthy x with
    | true => rfl
    | false =>
      cases x with
      | obj ms =>
        have hnil : ms = [] := by simpa [truthy] using htruthy
        subst hnil
        rfl
      | _ => rfl

theorem Field.key_injective {f g : Field} (h : f.key = g.key) : f = g := by
  revert h
  cases f <;> cases g <;> decide

theorem value_uiSettingsPost {ms : List (Text × Json)} {payload config : Json}
    (h : uiSettingsPost (.obj ms) payload = .ok config) :
    (∃ ms', config = .obj ms') ∧
      ∀ f : Field, f.inPayload payload = false → f.value config = f.value (.obj ms) := by
  unfold uiSettingsPost at h
  cases hweb : orEmpty ((Json.obj ms).get (text "web")) with
  | obj ws =>
    rw [hweb] at h
    cases hui : uiFields payload UI_FIELDS (.obj ws) with
    | error e => simp [hui, Except.map] at h
    | ok web =>
      simp only [hui, Except.map, Except.ok.injEq] at h
      subst h
      have hget := fun n => get_setItem (d := .obj ms) rfl (text "web") n web
      obtain ⟨-, hkeep⟩ := get_uiFields hui
      refine ⟨⟨_, rfl⟩, fun f hf => ?_⟩
      have hnot : f.key ∉ (UI_FIELDS.filter fun g => (payload.get g.key).isSome).map Field.key := by
        intro hmem
        obtain ⟨g, hg, hkey⟩ := List.mem_map.1 hmem
        obtain ⟨hg, hsome⟩ := List.mem_filter.1 hg
        obtain rfl := Field.key_injective hkey
        simp [Field.inPayload, hg, hsome] at hf
      have hold : web.get f.key = ((Json.obj ms).get (text "web")).bind (Json.get f.key) := by
        rw [hkeep f hnot, ← hweb, get_orEmpty]
      have hnew : ∀ k, getPath [text "web", k] (setItem (.obj ms) (text "web") web) =
          (web.get k).bind some := by
        intro k
        simp only [getPath, hget, if_true, Option.bind_some]
      have hbefore : ∀ k, getPath [text "web", k] (.obj ms) =
          (((Json.obj ms).get (text "web")).bind (Json.get k)).bind some := by
        intro k
        simp only [getPath, Option.bind_assoc]
      cases f with
      | security => exact congrArg (Option.bind · some) (hget (text "security"))
      | _ => exact (hnew _).trans ((congrArg (Option.bind · some) hold).trans (hbefore _).symm)
  | _ => simp [hweb] at h

/-! ## Runs -/

/-- The fields of the editors are as their editors left them. -/
def Saves.Kept (w : Saves) : Prop := ∀ f : Field, f.value w.store = w.last f

/-- The copy that the form sends agrees with the configuration it replaces in the fields of the
    editors. -/
def Saves.UpToDate (w : Saves) : SaveEvent → Prop
  | .post i _ => ∀ b copy, w.saves[i]? = some (b, copy) → ∀ f : Field, f.value copy = f.value w.store
  | _ => True

def IsObj (x : Json) : Prop := ∃ ms, x = .obj ms

/-- Every configuration is an object. -/
structure Saves.Wf (w : Saves) : Prop where
  store : IsObj w.store
  current : ∀ b x, w.current b = some x → IsObj x
  replies : ∀ r ∈ w.replies, IsObj r.2
  saves : ∀ s ∈ w.saves, IsObj s.2

theorem isObj_setPath (p : List Text) (v : Json) {node : Json} (h : IsObj node) :
    IsObj (setPath p v node) := by
  obtain ⟨ms, rfl⟩ := h
  match p with
  | [] => exact ⟨ms, rfl⟩
  | [k] => exact ⟨_, rfl⟩
  | k :: k' :: p => exact ⟨_, rfl⟩

theorem isObj_overlayForm (form : Form) {copy : Json} (h : IsObj copy) :
    IsObj (overlayForm form copy) := by
  unfold overlayForm
  generalize SCHEMA = paths
  induction paths generalizing copy with
  | nil => exact h
  | cons path paths ih =>
    rw [List.foldl_cons]
    refine ih ?_
    split
    · exact isObj_setPath path _ h
    · exact h

theorem Saves.Wf.step {w : Saves} (h : w.Wf) (e : SaveEvent) : (w.step e).Wf := by
  have hadd : ∀ {l : List (Nat × Json)} {r : Nat × Json}, (∀ s ∈ l, IsObj s.2) → IsObj r.2 →
      ∀ s ∈ l ++ [r], IsObj s.2 := by
    intro l r hl hr s hs
    rcases List.mem_append.1 hs with hs | hs
    · exact hl s hs
    · rw [List.mem_singleton.1 hs]
      exact hr
  cases e with
  | load b => exact ⟨h.store, h.current, hadd h.replies h.store, h.saves⟩
  | arrive i =>
    simp only [Saves.step]
    cases hr : w.replies[i]? with
    | none => exact h
    | some r =>
      refine ⟨h.store, fun b x hx => ?_, fun s hs => h.replies s (List.mem_of_mem_eraseIdx hs),
        h.saves⟩
      have hobj := h.replies r (List.mem_of_getElem? hr)
      by_cases hb : b = r.1
      · have hx : some r.2 = some x := by simpa [hb] using hx
        rw [← Option.some.inj hx]
        exact hobj
      · exact h.current b x (by simpa [hb] using hx)
  | click b =>
    simp only [Saves.step]
    cases hc : w.current b with
    | none => exact h
    | some config => exact ⟨h.store, h.current, h.replies, hadd h.saves (h.current b config hc)⟩
  | refetch i =>
    simp only [Saves.step]
    cases hs : w.saves[i]? with
    | none => exact h
    | some s =>
      refine ⟨h.store, h.current, h.replies, fun s' hs' => ?_⟩
      rcases List.mem_or_eq_of_mem_set hs' with hs' | rfl
      · exact h.saves s' hs'
      · exact h.store
  | post i form =>
    simp only [Saves.step]
    cases hs : w.saves[i]? with
    | none => exact h
    | some s =>
      have hobj := isObj_overlayForm form (h.saves s (List.mem_of_getElem? hs))
      exact ⟨hobj, h.current, hadd h.replies hobj,
        fun s' hs' => h.saves s' (List.mem_of_mem_eraseIdx hs')⟩
  | giveUp i =>
    exact ⟨h.store, h.current, h.replies, fun s hs => h.saves s (List.mem_of_mem_eraseIdx hs)⟩
  | acl payload => exact ⟨⟨_, rfl⟩, h.current, h.replies, h.saves⟩
  | ui payload =>
    simp only [Saves.step]
    cases hui : uiSettingsPost w.store payload with
    | error e => exact h
    | ok config =>
      obtain ⟨ms, hms⟩ := h.store
      rw [hms] at hui
      exact ⟨(value_uiSettingsPost hui).1, h.current, h.replies, h.saves⟩

/-- One step keeps the fields of the editors exactly if it is not the POST of an old copy. -/
theorem kept_step_iff {w : Saves} (hwf : w.Wf) (h : w.Kept) (e : SaveEvent) :
    (w.step e).Kept ↔ w.UpToDate e := by
  cases e with
  | load b => exact iff_of_true h trivial
  | arrive i =>
    refine iff_of_true ?_ trivial
    simp only [Saves.step]
    split <;> exact h
  | click b =>
    refine iff_of_true ?_ trivial
    simp only [Saves.step]
    split <;> exact h
  | refetch i =>
    refine iff_of_true ?_ trivial
    simp only [Saves.step]
    split <;> exact h
  | giveUp i => exact iff_of_true h trivial
  | post i form =>
    simp only [Saves.step, Saves.UpToDate]
    cases hs : w.saves[i]? with
    | none => exact iff_of_true h fun b copy hc => by cases hc
    | some s =>
      obtain ⟨b, copy⟩ := s
      simp only [Saves.Kept, value_overlayForm, Option.some.injEq, Prod.mk.injEq]
      constructor
      · rintro hkept b' copy' ⟨rfl, rfl⟩ f
        rw [hkept f, h f]
      · intro hup f
        rw [hup b copy ⟨rfl, rfl⟩ f, h f]
  | acl payload =>
    refine iff_of_true (fun f => ?_) trivial
    obtain ⟨ms, hms⟩ := hwf.store
    by_cases hf : f = .security
    · exact (if_pos hf).symm
    · refine Eq.trans ?_ (if_neg hf).symm
      show f.value (aclPost w.store payload) = w.last f
      rw [← h f, hms, value_aclPost, if_neg hf]
  | ui payload =>
    refine iff_of_true ?_ trivial
    simp only [Saves.step]
    cases hui : uiSettingsPost w.store payload with
    | error e => exact h
    | ok config =>
      intro f
      obtain ⟨ms, hms⟩ := hwf.store
      rw [hms] at hui
      cases hf : f.inPayload payload with
      | true => exact (if_pos hf).symm
      | false =>
        refine Eq.trans ?_ (if_neg (by simp [hf])).symm
        show f.value config = w.last f
        rw [(value_uiSettingsPost hui).2 f hf, ← h f, hms]

/-- **Saves of the form and of the editors.**  Along every interleaving of the requests of any
    number of browsers, the fields of the editors are what their editors saved last exactly when no
    POST of the form brings a copy that differs in them from the configuration it replaces.  (The
    requests under way can be given up at any time and change nothing then, so every state counts
    as one in which all requests have completed.) -/
theorem editors_kept_iff (ms : List (Text × Json)) (es : List SaveEvent) :
    Always Saves.step Saves.Kept (.new ms) es ↔ Along Saves.step Saves.UpToDate (.new ms) es := by
  have hnew : (Saves.new ms).Wf := ⟨⟨ms, rfl⟩, by simp [Saves.new], by simp [Saves.new],
    by simp [Saves.new]⟩
  have hkept : (Saves.new ms).Kept := fun f => rfl
  have hwf : Always Saves.step Saves.Wf (.new ms) es :=
    always_of_step (fun _ e hw => hw.step e) hnew es
  constructor
  · intro h
    exact (h.and hwf).along fun w e hw hw' => (kept_step_iff hw.2 hw.1 e).1 hw'.1
  · intro h
    have hall : Always Saves.step (fun w => w.Wf ∧ w.Kept) (.new ms) es :=
      Along.always (fun w e hw hup => ⟨hw.1.step e, (kept_step_iff hw.1 hw.2 e).2 hup⟩)
        ⟨hnew, hkept⟩ h
    exact hall.mono fun w hw => hw.2

/-- A browser fetches the configuration for its save, an ACL is saved, then the form is: the ACL is
    gone, with no request left under way. -/
theorem acl_overwritten :
    let acl := Json.obj [(text "ip_acl", .str (text "deny"))]
    let w := run Saves.step (.new [])
      [.load 0, .arrive 0, .click 0, .refetch 0, .acl acl, .post 0 fun _ => none]
    (w.saves = [] ∧ Field.security.value w.store = none ∧ w.last .security = some acl) ∧
    ¬ Always Saves.step Saves.Kept (.new [])
      [.load 0, .arrive 0, .click 0, .refetch 0, .acl acl, .post 0 fun _ => none] := by
  intro acl w
  have hstore : Field.security.value w.store = none := by
    show Field.security.value (overlayForm (fun _ => none) (.obj [])) = none
    rw [value_overlayForm]
    rfl
  have hlast : w.last .security = some acl := rfl
  refine ⟨⟨rfl, hstore, hlast⟩, fun h => ?_⟩
  have hkept := h.last Field.security
  cases hkept.trans hlast

end Nishro.Py

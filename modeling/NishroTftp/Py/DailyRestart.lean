import Mathlib.Data.List.Lex
import NishroTftp.Lib.Runs
import NishroTftp.Py.DailyFile
/-
  The daily totals across a restart (`core/daily_stats.py`: `record`, `record_visitor`,
  `_maybe_flush_locked`; `Nishro.run` and `main` of `main.py`).

  A call that adds something marks the store and writes the file only if the last write is FIVE
  SECONDS old.  Nothing else writes it: `flush` has no caller, and neither `Nishro.run` nor `main`
  touches the store on the way out.  So the file is up to date at the end exactly when the last call
  that added something wrote it.

  Times are readings of the monotonic clock in milliseconds.
-/
namespace Nishro.Py

open Utf8 (Text text)
open Runs

/-! ## The calls -/

/-- Whether `record_visitor` has somebody to add. -/
def DailyStats.newVisitor (d : DailyStats) (t : Today) : Option Text → Option Text
  | none => none
  | some ip => if ip = [] ∨ ip ∈ namesOn d.visitors t.iso then none else some ip

/-- `record_visitor`, the maps. -/
def DailyStats.recordVisitor (t : Today) (d : DailyStats) (ip : Option Text) : DailyStats :=
  match d.newVisitor t ip with
  | none => d
  | some ip => { d with visitors := addTo d.visitors t.iso ip }.prune t

inductive DailyCall
  | record (r : DayRecord)
  | recordVisitor (ip : Option Text)

/-- A call: the day it falls on, the clock when it looks whether to write, and the clock after the
    write, should that succeed. -/
structure DailyEvent where
  call : DailyCall
  today : Today
  now : Nat
  written : Option Nat

/-- A process's store and its file. -/
structure DailyStore where
  stats : DailyStats
  dirty : Bool := false
  lastFlush : Nat := 0
  file : Option Json

/-- `_FLUSH_INTERVAL`. -/
def FLUSH_INTERVAL : Nat := 5000

/-- `DailyStats(path)`. -/
def DailyStore.init (file : Option Json) : DailyStore where
  stats := load file
  file := file

/-- `_flush_locked`; a failure is logged and changes nothing. -/
def DailyStore.flush (s : DailyStore) (e : DailyEvent) : DailyStore :=
  match e.written with
  | none => s
  | some clock => { s with file := some (fileOf s.stats), dirty := false, lastFlush := clock }

/-- `_maybe_flush_locked`. -/
def DailyStore.maybeFlush (s : DailyStore) (e : DailyEvent) : DailyStore :=
  if s.dirty ∧ s.lastFlush + FLUSH_INTERVAL ≤ e.now then s.flush e else s

/-- One call.  A `record` whose file name is no text ends before the store is marked. -/
def DailyStore.step (s : DailyStore) (e : DailyEvent) : DailyStore :=
  match e.call with
  | .record r =>
    let s := { s with stats := s.stats.record e.today r }
    match extractUserId r.filename with
    | .error _ => s
    | .ok _ => { s with dirty := true }.maybeFlush e
  | .recordVisitor ip =>
    match s.stats.newVisitor e.today ip with
    | none => s
    | some _ =>
      { s with stats := s.stats.recordVisitor e.today ip, dirty := true }.maybeFlush e

/-- A shutdown now, which leaves the file as it is, and a restart lose nothing: the days of the
    store are reported as before. -/
def DailyStore.Survives (s : DailyStore) : Prop :=
  ∀ day ∈ s.stats.days, (load s.file).report day = s.stats.report day

instance (s : DailyStore) : Decidable s.Survives :=
  inferInstanceAs (Decidable (∀ day ∈ s.stats.days, _))

/-! ## The maps after a call -/

section Wf

variable {norm : Text → Text} {m : List (Text × List Text)} {d : DailyStats} {day x : Text}

/-- Adding a name in its normal form. -/
theorem names_addTo (h : ∀ day, Names norm (namesOn m day)) (hx : x ≠ []) (hnorm : norm x = x)
    (day' : Text) : Names norm (namesOn (addTo m day x) day') := by
  show Names norm (namesOn (Dict.set m day (if x ∈ namesOn m day then _ else _)) day')
  rw [namesOn_set]
  by_cases hday : day' = day
  · rw [if_pos hday]
    by_cases hmem : x ∈ namesOn m day
    · rw [if_pos hmem]
      exact h day
    rw [if_neg hmem]
    refine ⟨List.concat_eq_append ▸ (h day).nodup.concat hmem, ?_, ?_⟩
    · intro y hy
      rcases List.mem_append.1 hy with hy | hy
      · exact (h day).nonempty y hy
      · exact List.mem_singleton.1 hy ▸ hx
    · intro y hy
      rcases List.mem_append.1 hy with hy | hy
      · exact (h day).normal y hy
      · exact List.mem_singleton.1 hy ▸ hnorm
  · rw [if_neg hday]
    exact h day'

/-- Days are dropped as a whole. -/
theorem names_filter {p : Text → Bool} (h : ∀ day, Names norm (namesOn m day)) (day : Text) :
    Names norm (namesOn (m.filter fun kv => p kv.1) day) := by
  unfold namesOn
  rw [Dict.lookup_filter]
  by_cases hp : p day = true
  · rw [if_pos hp]
    exact h day
  · rw [if_neg hp]
    exact Names.nil

/-- Whether a day outlives `_prune_locked`. -/
def DailyStats.keeps (d : DailyStats) (t : Today) (day : Text) : Bool :=
  ! ((d.data.map (·.1)).filter fun k => decide (k < t.cutoff)).contains day

theorem prune_eq (d : DailyStats) (t : Today) :
    d.prune t = ⟨d.data.filter fun kv => d.keeps t kv.1, d.users.filter fun kv => d.keeps t kv.1,
      d.devices.filter fun kv => d.keeps t kv.1, d.visitors.filter fun kv => d.keeps t kv.1⟩ :=
  rfl

theorem DailyStats.Wf.prune (h : d.Wf) (t : Today) : (d.prune t).Wf := by
  rw [prune_eq]
  exact ⟨names_filter h.users, names_filter h.devices, names_filter h.visitors⟩

/-- A user id is a numeral. -/
theorem extractUserId_ne_nil {filename : Option Json} {u : Text}
    (h : extractUserId filename = .ok (some u)) : u ≠ [] := by
  unfold extractUserId at h
  split at h
  · cases h
  · simp only [Except.ok.injEq, Option.map_eq_some_iff] at h
    obtain ⟨ds, -, rfl⟩ := h
    obtain ⟨c, cs, -, hc | hc⟩ := Json.numeral_cons (Json.natVal ds)
    · rw [hc]
      exact List.cons_ne_nil _ _
    · rw [hc]
      exact List.cons_ne_nil _ _
  · split at h <;> cases h

/-- The users after `record`. -/
def noteUser (m : List (Text × List Text)) (day : Text) : Option Text → List (Text × List Text)
  | some u => addTo m day u
  | none => m

/-- The devices after `record`. -/
def noteDevice (m : List (Text × List Text)) (day : Text) : Option Json → List (Text × List Text)
  | some mac => if truthy mac then addTo m day (lowerText (pyStr mac)) else m
  | none => m

/-- `record`, taken apart: the session counted, the names noted, the old days dropped. -/
theorem record_eq {t : Today} {r : DayRecord} {uid : Option Text}
    (h : extractUserId r.filename = .ok uid) :
    d.record t r = DailyStats.prune
      { data := Dict.set d.data t.iso (((d.data.lookup t.iso).getD {}).add r)
        users := noteUser d.users t.iso uid
        devices := noteDevice d.devices t.iso r.clientMac
        visitors := d.visitors } t := by
  unfold DailyStats.record noteDevice
  rw [h]
  cases uid with
  | none =>
    cases r.clientMac with
    | none => rfl
    | some mac => by_cases hm : truthy mac = true <;> simp [hm, noteUser]
  | some u =>
    cases r.clientMac with
    | none => rfl
    | some mac => by_cases hm : truthy mac = true <;> simp [hm, noteUser]

theorem record_of_error {t : Today} {r : DayRecord} {err : PyError}
    (h : extractUserId r.filename = .error err) :
    d.record t r =
      { d with data := Dict.set d.data t.iso (((d.data.lookup t.iso).getD {}).add r) } := by
  unfold DailyStats.record
  rw [h]

theorem DailyStats.Wf.record (h : d.Wf) (t : Today) (r : DayRecord) : (d.record t r).Wf := by
  cases hid : extractUserId r.filename with
  | error err =>
    rw [record_of_error hid]
    exact ⟨h.users, h.devices, h.visitors⟩
  | ok uid =>
    rw [record_eq hid]
    apply DailyStats.Wf.prune
    refine ⟨?_, ?_, h.visitors⟩
    · cases uid with
      | none => exact h.users
      | some u => exact names_addTo h.users (extractUserId_ne_nil hid) rfl
    cases hmac : r.clientMac with
    | none => exact h.devices
    | some mac =>
      unfold noteDevice
      dsimp only
      by_cases hm : truthy mac = true
      · rw [if_pos hm]
        exact names_addTo h.devices (normal_lowerText.nonempty _ (pyStr_ne_nil hm))
          (lowerText_lowerText _)
      · rw [if_neg hm]
        exact h.devices

theorem newVisitor_some {t : Today} {ip : Option Text} (h : d.newVisitor t ip = some x) :
    x ≠ [] ∧ x ∉ namesOn d.visitors t.iso := by
  unfold DailyStats.newVisitor at h
  split at h
  · cases h
  · split at h
    · cases h
    · rename_i ip hip
      obtain rfl := Option.some.inj h
      exact not_or.1 hip

theorem recordVisitor_of_some {t : Today} {ip : Option Text} (h : d.newVisitor t ip = some x) :
    d.recordVisitor t ip = { d with visitors := addTo d.visitors t.iso x }.prune t := by
  unfold DailyStats.recordVisitor
  rw [h]

theorem DailyStats.Wf.recordVisitor (h : d.Wf) (t : Today) (ip : Option Text) :
    (d.recordVisitor t ip).Wf := by
  cases hip : d.newVisitor t ip with
  | none =>
    unfold DailyStats.recordVisitor
    rw [hip]
    exact h
  | some x =>
    rw [recordVisitor_of_some hip]
    apply DailyStats.Wf.prune
    exact ⟨h.users, h.devices, names_addTo h.visitors (newVisitor_some hip).1 rfl⟩

end Wf

/-! ## What a call adds -/

/-- Whether a call adds something: every session does, and a visitor not seen on the day. -/
def DailyStore.Adds (s : DailyStore) (e : DailyEvent) : Prop :=
  match e.call with
  | .record _ => True
  | .recordVisitor ip => s.stats.newVisitor e.today ip ≠ none

instance (s : DailyStore) (e : DailyEvent) : Decidable (s.Adds e) :=
  match h : e.call with
  | .record _ => isTrue (by rw [DailyStore.Adds, h]; trivial)
  | .recordVisitor ip =>
    decidable_of_iff (s.stats.newVisitor e.today ip ≠ none) (by rw [DailyStore.Adds, h])

/-- Whether it would write the file: a record gets that far, the last write is old enough, and the
    new one succeeds. -/
def DailyStore.Saves (s : DailyStore) (e : DailyEvent) : Prop :=
  (∀ r, e.call = .record r → ∃ uid, extractUserId r.filename = .ok uid) ∧
    s.lastFlush + FLUSH_INTERVAL ≤ e.now ∧ e.written.isSome

/-- The maps after a call. -/
def DailyStats.after (d : DailyStats) (e : DailyEvent) : DailyStats :=
  match e.call with
  | .record r => d.record e.today r
  | .recordVisitor ip => d.recordVisitor e.today ip

section Step

variable {s : DailyStore} {e : DailyEvent} {d : DailyStats} {t : Today} {day : Text}

theorem maybeFlush_cases (hdirty : s.dirty = true) :
    (s.maybeFlush e).stats = s.stats ∧ (s.maybeFlush e).file =
      if s.lastFlush + FLUSH_INTERVAL ≤ e.now ∧ e.written.isSome then some (fileOf s.stats)
      else s.file := by
  unfold DailyStore.maybeFlush DailyStore.flush
  by_cases hold : s.lastFlush + FLUSH_INTERVAL ≤ e.now
  · rw [if_pos ⟨hdirty, hold⟩]
    cases e.written with
    | none => exact ⟨rfl, by rw [if_neg fun h => by cases h.2]⟩
    | some clock => exact ⟨rfl, by rw [if_pos ⟨hold, rfl⟩]⟩
  · rw [if_neg fun h => hold h.2]
    exact ⟨rfl, by rw [if_neg fun h => hold h.1]⟩

/-- A call that adds nothing changes nothing. -/
theorem step_of_not_adds (h : ¬ s.Adds e) : s.step e = s := by
  unfold DailyStore.Adds at h
  unfold DailyStore.step
  cases hcall : e.call with
  | record r =>
    rw [hcall] at h
    exact absurd trivial h
  | recordVisitor ip =>
    rw [hcall] at h
    dsimp only at h ⊢
    rw [not_not.1 h]

/-- One that does leaves the file alone unless it writes it. -/
theorem step_of_adds (h : s.Adds e) : (s.step e).stats = s.stats.after e ∧
    (s.Saves e → (s.step e).file = some (fileOf (s.stats.after e))) ∧
    (¬ s.Saves e → (s.step e).file = s.file) := by
  unfold DailyStore.Adds at h
  unfold DailyStore.Saves DailyStats.after DailyStore.step
  cases hcall : e.call with
  | record r =>
    dsimp only
    cases hid : extractUserId r.filename with
    | error err =>
      refine ⟨rfl, fun hsave => ?_, fun _ => rfl⟩
      obtain ⟨uid, huid⟩ := hsave.1 r rfl
      rw [hid] at huid
      cases huid
    | ok uid =>
      obtain ⟨hstats, hfile⟩ := maybeFlush_cases (e := e)
        (s := { s with stats := s.stats.record e.today r, dirty := true }) rfl
      have hok : ∀ r', DailyCall.record r = .record r' → ∃ uid, extractUserId r'.filename = .ok uid := by
        rintro r' ⟨⟩
        exact ⟨uid, hid⟩
      refine ⟨hstats, fun hsave => hfile.trans (if_pos hsave.2), fun hsave => ?_⟩
      exact hfile.trans (if_neg fun hc => hsave ⟨hok, hc⟩)
  | recordVisitor ip =>
    rw [hcall] at h
    dsimp only at h ⊢
    obtain ⟨x, hx⟩ := Option.ne_none_iff_exists'.1 h
    rw [hx]
    obtain ⟨hstats, hfile⟩ := maybeFlush_cases (e := e)
      (s := { s with stats := s.stats.recordVisitor e.today ip, dirty := true }) rfl
    refine ⟨hstats, fun hsave => hfile.trans (if_pos hsave.2), fun hsave => ?_⟩
    exact hfile.trans (if_neg fun hc => hsave ⟨fun r hr => (by cases hr), hc⟩)

theorem DailyStats.Wf.after (h : d.Wf) (e : DailyEvent) : (d.after e).Wf := by
  unfold DailyStats.after
  split
  · exact h.record _ _
  · exact h.recordVisitor _ _

/-- Days from the cutoff on are not dropped. -/
theorem prune_report (h : ¬ day < t.cutoff) : (d.prune t).report day = d.report day := by
  have hkeep : d.keeps t day = true := by
    unfold DailyStats.keeps
    rw [Bool.not_eq_true']
    refine Bool.eq_false_iff.2 fun hmem => h ?_
    exact of_decide_eq_true (List.mem_filter.1 (List.contains_iff_mem.1 hmem)).2
  rw [prune_eq]
  unfold DailyStats.report namesOn
  rw [Dict.lookup_filter, Dict.lookup_filter, Dict.lookup_filter, Dict.lookup_filter]
  simp only [hkeep, if_true]

/-- No fewer sessions and no fewer visitors. -/
structure DayReport.Covers (a b : DayReport) : Prop where
  total : b.numbers.total ≤ a.numbers.total
  visitors : b.visitors ≤ a.visitors

/-- More of one of them. -/
structure DayReport.Exceeds (a b : DayReport) : Prop extends DayReport.Covers a b where
  more : b.numbers.total < a.numbers.total ∨ b.visitors < a.visitors

theorem DayReport.Exceeds.trans_covers {a b c : DayReport} (h : a.Exceeds b) (hbc : b.Covers c) :
    a.Exceeds c :=
  ⟨⟨hbc.total.trans h.total, hbc.visitors.trans h.visitors⟩,
    h.more.imp hbc.total.trans_lt hbc.visitors.trans_lt⟩

theorem DayReport.Covers.trans_exceeds {a b c : DayReport} (h : a.Covers b) (hbc : b.Exceeds c) :
    a.Exceeds c :=
  ⟨⟨hbc.total.trans h.total, hbc.visitors.trans h.visitors⟩,
    hbc.more.imp (fun hlt => hlt.trans_le h.total) fun hlt => hlt.trans_le h.visitors⟩

theorem DayReport.Covers.trans {a b c : DayReport} (h : a.Covers b) (hbc : b.Covers c) :
    a.Covers c :=
  ⟨hbc.total.trans h.total, hbc.visitors.trans h.visitors⟩

theorem DayReport.Covers.refl (a : DayReport) : a.Covers a := ⟨Nat.le_refl _, Nat.le_refl _⟩

theorem DayReport.Exceeds.ne {a b : DayReport} (h : a.Exceeds b) : b ≠ a := by
  rintro rfl
  rcases h.more with hlt | hlt
  · exact Nat.lt_irrefl _ hlt
  · exact Nat.lt_irrefl _ hlt

/-- A session counted on a day, whatever becomes of the users and the devices. -/
theorem exceeds_counted (d : DailyStats) (day : Text) (r : DayRecord)
    (users devices : List (Text × List Text)) :
    let d' : DailyStats :=
      ⟨Dict.set d.data day (((d.data.lookup day).getD {}).add r), users, devices, d.visitors⟩
    (d'.report day).Exceeds (d.report day) ∧ ∀ day', (d'.report day').Covers (d.report day') := by
  intro d'
  have htotal : ∀ day', (d'.report day').numbers.total =
      (d.report day').numbers.total + if day' = day then 1 else 0 := by
    intro day'
    show ((List.lookup day' (Dict.set d.data day _)).getD {}).total =
      ((d.data.lookup day').getD {}).total + _
    rw [Dict.lookup_set]
    by_cases hday : day' = day
    · rw [if_pos hday, if_pos hday, hday]
      rfl
    · rw [if_neg hday, if_neg hday]
      rfl
  have hcover : ∀ day', (d'.report day').Covers (d.report day') := fun day' =>
    ⟨by rw [htotal]; exact Nat.le_add_right _ _, Nat.le_refl _⟩
  exact ⟨⟨hcover day, .inl (by rw [htotal, if_pos rfl]; exact Nat.lt_succ_self _)⟩, hcover⟩

theorem exceeds_visited {ip : Text} (hip : ip ∉ namesOn d.visitors day) :
    let d' := { d with visitors := addTo d.visitors day ip }
    (d'.report day).Exceeds (d.report day) ∧ ∀ day', (d'.report day').Covers (d.report day') := by
  intro d'
  have hvis : ∀ day', (d'.report day').visitors =
      (d.report day').visitors + if day' = day then 1 else 0 := by
    intro day'
    show (namesOn (Dict.set d.visitors day (if ip ∈ namesOn d.visitors day then _ else _))
      day').length = (namesOn d.visitors day').length + _
    rw [namesOn_set, if_neg hip]
    by_cases hday : day' = day
    · rw [if_pos hday, if_pos hday, hday]
      exact List.length_append
    · rw [if_neg hday, if_neg hday]
      rfl
  have hcover : ∀ day', (d'.report day').Covers (d.report day') := fun day' =>
    ⟨Nat.le_refl _, by rw [hvis]; exact Nat.le_add_right _ _⟩
  exact ⟨⟨hcover day, .inr (by rw [hvis, if_pos rfl]; exact Nat.lt_succ_self _)⟩, hcover⟩

theorem not_lt_cutoff (h : ¬ day < t.iso) : ¬ day < t.cutoff := by
  intro hlt
  exact h (lt_of_lt_of_le hlt (not_lt.1 t.retained))

/-- A call that adds something shows on its day, and takes nothing from that day or a later one. -/
theorem after_grows (h : s.Adds e) :
    ((s.stats.after e).report e.today.iso).Exceeds (s.stats.report e.today.iso) ∧
    ∀ day, ¬ day < e.today.iso → ((s.stats.after e).report day).Covers (s.stats.report day) := by
  unfold DailyStore.Adds at h
  unfold DailyStats.after
  cases hcall : e.call with
  | record r =>
    dsimp only
    cases hid : extractUserId r.filename with
    | error err =>
      rw [record_of_error hid]
      obtain ⟨hex, hcov⟩ :=
        exceeds_counted s.stats e.today.iso r s.stats.users s.stats.devices
      exact ⟨hex, fun day _ => hcov day⟩
    | ok uid =>
      rw [record_eq hid]
      obtain ⟨hex, hcov⟩ := exceeds_counted s.stats e.today.iso r
        (noteUser s.stats.users e.today.iso uid)
        (noteDevice s.stats.devices e.today.iso r.clientMac)
      refine ⟨?_, fun day hday => ?_⟩
      · rw [prune_report (not_lt_cutoff (lt_irrefl _))]
        exact hex
      · rw [prune_report (not_lt_cutoff hday)]
        exact hcov day
  | recordVisitor ip =>
    rw [hcall] at h
    dsimp only at h ⊢
    obtain ⟨x, hx⟩ := Option.ne_none_iff_exists'.1 h
    rw [recordVisitor_of_some hx]
    obtain ⟨hex, hcov⟩ := exceeds_visited (newVisitor_some hx).2
    refine ⟨?_, fun day hday => ?_⟩
    · rw [prune_report (not_lt_cutoff (lt_irrefl _))]
      exact hex
    · rw [prune_report (not_lt_cutoff hday)]
      exact hcov day

end Step

/-! ## Whole runs -/

/-- The file says what the store says. -/
def DailyStore.Clean (s : DailyStore) : Prop :=
  ∀ day, (load s.file).report day = s.stats.report day

/-- The file lacks something of a day, and nothing later has been dropped since. -/
def DailyStore.Behind (s : DailyStore) : Prop :=
  ∃ day, (s.stats.report day).Exceeds ((load s.file).report day) ∧
    ∀ day', ¬ day' < day → (s.stats.report day').Covers ((load s.file).report day')

/-- The last call of a run that added something, with the store it found. -/
def lastAdding (s : DailyStore) : List DailyEvent → Option (DailyStore × DailyEvent)
  | [] => none
  | e :: es => (lastAdding (s.step e) es).or (if s.Adds e then some (s, e) else none)

section Runs

variable {s : DailyStore} {e : DailyEvent}

theorem lastAdding_concat (s : DailyStore) (es : List DailyEvent) (e : DailyEvent) :
    lastAdding s (es ++ [e]) =
      if (run DailyStore.step s es).Adds e then some (run DailyStore.step s es, e)
      else lastAdding s es := by
  induction es generalizing s with
  | nil =>
    show (none : Option _).or _ = _
    rw [Option.none_or]
    rfl
  | cons e' es ih =>
    show (lastAdding (s.step e') (es ++ [e])).or _ = _
    rw [ih]
    show _ = if (run DailyStore.step (s.step e') es).Adds e then _ else _
    by_cases h : (run DailyStore.step (s.step e') es).Adds e
    · rw [if_pos h, if_pos h, Option.some_or]
      rfl
    · rw [if_neg h, if_neg h]
      rfl

/-- A report that is not the empty one is of a day of the store. -/
theorem mem_days_of_exceeds {d : DailyStats} {day : Text} {b : DayReport}
    (h : (d.report day).Exceeds b) : day ∈ d.days := by
  by_contra hnot
  have hmore := h.more
  rw [report_of_not_mem hnot] at hmore
  rcases hmore with hlt | hlt
  · exact Nat.not_lt_zero _ hlt
  · exact Nat.not_lt_zero _ hlt

theorem DailyStore.Clean.survives (h : s.Clean) : s.Survives := fun day _ => h day

theorem DailyStore.Behind.not_survives (h : s.Behind) : ¬ s.Survives := by
  obtain ⟨day, hex, -⟩ := h
  exact fun hs => hex.ne (hs day (mem_days_of_exceeds hex))

/-- What is written is clean. -/
theorem clean_step (hwf : s.stats.Wf) (hadds : s.Adds e) (hsaves : s.Saves e) :
    (s.step e).Clean := by
  obtain ⟨hstats, hfile, -⟩ := step_of_adds hadds
  intro day
  rw [hstats, hfile hsaves, load_fileOf (hwf.after e)]

/-- An addition that is not written leaves the file behind: behind the day of the call, if that is
    the latest, and as before otherwise. -/
theorem behind_step (h : s.Clean ∨ s.Behind) (hadds : s.Adds e) (hsaves : ¬ s.Saves e) :
    (s.step e).Behind := by
  obtain ⟨hstats, -, hfile⟩ := step_of_adds hadds
  obtain ⟨hex, hcov⟩ := after_grows hadds
  unfold DailyStore.Behind
  rw [hstats, hfile hsaves]
  have htoday : (∀ day, ¬ day < e.today.iso →
      (s.stats.report day).Covers ((load s.file).report day)) →
      ∃ day, ((s.stats.after e).report day).Exceeds ((load s.file).report day) ∧
        ∀ day', ¬ day' < day →
          ((s.stats.after e).report day').Covers ((load s.file).report day') := by
    intro hfrom
    exact ⟨e.today.iso, hex.trans_covers (hfrom _ (lt_irrefl _)),
      fun day' hday => (hcov day' hday).trans (hfrom day' hday)⟩
  rcases h with hclean | ⟨day, hexceeds, hlater⟩
  · exact htoday fun day _ => hclean day ▸ DayReport.Covers.refl _
  · by_cases hlt : day < e.today.iso
    · exact htoday fun day' hday => hlater day' fun h' => hday (h'.trans hlt)
    · refine ⟨day, (hcov day hlt).trans_exceeds hexceeds, fun day' hday => ?_⟩
      have hfrom : ¬ day' < e.today.iso := not_lt.2 ((not_lt.1 hlt).trans (not_lt.1 hday))
      exact (hcov day' hfrom).trans (hlater day' hday)

/-- Where a run leaves the file. -/
theorem run_file (file : Option Json) (es : List DailyEvent) :
    (run DailyStore.step (.init file) es).stats.Wf ∧
    ((∀ p ∈ lastAdding (.init file) es, p.1.Saves p.2) →
      (run DailyStore.step (.init file) es).Clean) ∧
    (¬ (∀ p ∈ lastAdding (.init file) es, p.1.Saves p.2) →
      (run DailyStore.step (.init file) es).Behind) := by
  induction es using List.reverseRecOn with
  | nil =>
    refine ⟨wf_load file, fun _ _ => rfl, fun h => absurd (fun p hp => ?_) h⟩
    cases hp
  | append_singleton es e ih =>
    obtain ⟨hwf, hclean, hbehind⟩ := ih
    have heither : (run DailyStore.step (.init file) es).Clean ∨
        (run DailyStore.step (.init file) es).Behind := by
      by_cases h : ∀ p ∈ lastAdding (.init file) es, p.1.Saves p.2
      · exact .inl (hclean h)
      · exact .inr (hbehind h)
    rw [lastAdding_concat, run_append]
    generalize run DailyStore.step (.init file) es = s at *
    show (s.step e).stats.Wf ∧ (_ → (s.step e).Clean) ∧ (_ → (s.step e).Behind)
    by_cases hadds : s.Adds e
    · rw [if_pos hadds]
      refine ⟨?_, fun h => clean_step hwf hadds (h _ rfl), fun h => ?_⟩
      · rw [(step_of_adds hadds).1]
        exact hwf.after e
      · refine behind_step heither hadds fun hsaves => h fun p hp => ?_
        obtain rfl := Option.some.inj hp
        exact hsaves
    · rw [if_neg hadds, step_of_not_adds hadds]
      exact ⟨hwf, hclean, hbehind⟩

/-- **A restart loses what was not written.**  From any file, after any calls at any times, a
    shutdown and a restart report the same of every day of the store exactly when the last call that
    added something wrote the file: when the write before it was five seconds old, its own write
    succeeded, and it was no record whose file name is not a text. -/
theorem restart_reports_iff (file : Option Json) (es : List DailyEvent) :
    (run DailyStore.step (.init file) es).Survives ↔
      ∀ p ∈ lastAdding (.init file) es, p.1.Saves p.2 := by
  obtain ⟨-, hclean, hbehind⟩ := run_file file es
  refine ⟨fun h => ?_, fun h => (hclean h).survives⟩
  by_contra hnot
  exact (hbehind hnot).not_survives h

end Runs

/-- A finished download on the fifteenth of April, at a time of the clock. -/
def downloadAt (now : Nat) : DailyEvent where
  call := .record ⟨true, false, 1468, 0, none, none⟩
  today := someDay
  now := now
  written := some (now + 1)

/-- Two sessions a second apart: the second is never written, and the restarted process knows of
    one. -/
theorem last_session_lost :
    ¬ (run DailyStore.step (.init none) [downloadAt 10000, downloadAt 11000]).Survives := by
  decide +kernel

end Nishro.Py

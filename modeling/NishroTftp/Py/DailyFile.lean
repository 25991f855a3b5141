import Mathlib.Data.List.Dedup
import Mathlib.Data.List.Sort
import NishroTftp.Py.DailyStats
/-
  The file of the daily totals (`core/daily_stats.py`: `_load`, `_flush_locked`).

  Four maps with different days are written as ONE object, a day a member, and taken apart again:
  names that are empty are passed over, devices are put in lower case, and a day without a bucket
  comes back with a bucket of zeros.  What is REPORTED of a day is the same (`load_fileOf`).

  The file is its JSON document, names in order; a file that is not there and one that is no JSON
  load alike.
-/
namespace Nishro.Py

open Utf8 (Text text)

/-! ## Writing -/

/-- An object from its names in order, those without a value left out. -/
def members (fields : List (Text × Option Json)) : List (Text × Json) :=
  fields.filterMap fun f => f.2.map fun v => (f.1, v)

/-- `sorted(names)`, if there are any. -/
def namesValue (names : List Text) : Option Json :=
  if names = [] then none else some (.arr ((names.insertionSort (· ≤ ·)).map .str))

/-- `self._users.get(day) or ()`, and so for the devices and the visitors. -/
def namesOn (m : List (Text × List Text)) (day : Text) : List Text := (m.lookup day).getD []

/-- The bucket of a day in the file: the numbers, and the three sets as lists. -/
def dayEntry (d : DailyStats) (day : Text) : Json :=
  let number (n : Bucket → Int) := (d.data.lookup day).map fun b => Json.int (n b)
  .obj (members
    [(text "bytes_received", number (·.bytesReceived)),
     (text "bytes_sent", number (·.bytesSent)),
     (text "completed", number fun b => b.completed),
     (text "devices", namesValue (namesOn d.devices day)),
     (text "failed", number fun b => b.failed),
     (text "total", number fun b => b.total),
     (text "users", namesValue (namesOn d.users day)),
     (text "visitors", namesValue (namesOn d.visitors day))])

/-- `all_days`. -/
def DailyStats.days (d : DailyStats) : List Text :=
  (d.data.map (·.1) ++ d.devices.map (·.1) ++ d.visitors.map (·.1) ++ d.users.map (·.1)).dedup

/-- What `_flush_locked` writes. -/
def fileOf (d : DailyStats) : Json :=
  .obj ((d.days.insertionSort (· ≤ ·)).map fun day => (day, dayEntry d day))

/-! ## Loading -/

/-- The five numbers, `int(v.get(name, 0) or 0)`; the counts of a file are not negative. -/
def loadBucket (v : Json) : Except PyError Bucket :=
  (intOrZeroAt v (text "total")).bind fun total =>
  (intOrZeroAt v (text "completed")).bind fun completed =>
  (intOrZeroAt v (text "failed")).bind fun failed =>
  (intOrZeroAt v (text "bytes_sent")).bind fun bytesSent =>
  (intOrZeroAt v (text "bytes_received")).bind fun bytesReceived =>
  .ok ⟨total.toNat, completed.toNat, failed.toNat, bytesSent, bytesReceived⟩

/-- One of the three sets, if it is a list. -/
def loadNames (norm : Text → Text) : Option Json → Option (List Text)
  | some (.arr xs) => some ((xs.filter truthy).map fun x => norm (pyStr x)).dedup
  | _ => none

def setNames (m : List (Text × List Text)) (day : Text) :
    Option (List Text) → List (Text × List Text)
  | some names => Dict.set m day names
  | none => m

def loadDay (d : DailyStats) (day : Text) (v : Json) : Except PyError DailyStats :=
  (loadBucket v).map fun b =>
    { data := Dict.set d.data day b
      users := setNames d.users day (loadNames id (v.get (text "users")))
      devices := setNames d.devices day (loadNames lowerText (v.get (text "devices")))
      visitors := setNames d.visitors day (loadNames id (v.get (text "visitors"))) }

/-- The loop of `_load`: an entry that is no dict is skipped, a number that cannot be read ends
    it. -/
def loadDays (d : DailyStats) : List (Text × Json) → DailyStats
  | [] => d
  | (day, v) :: rest =>
    match v with
    | .obj _ =>
      match loadDay d day v with
      | .ok d' => loadDays d' rest
      | .error _ => d
    | _ => loadDays d rest

/-- The dict a parsed object is: one member a name. -/
def dictItems (raw : Json) : List (Text × Json) :=
  (items raw).foldl (fun d m => Dict.set d m.1 m.2) []

/-- `_load`, into a store that is empty. -/
def load : Option Json → DailyStats
  | none => {}
  | some raw => loadDays {} (dictItems raw)

/-! ## What is reported -/

/-- What `today` and `recent` say of a day. -/
structure DayReport where
  numbers : Bucket
  users : Nat
  devices : Nat
  visitors : Nat
deriving DecidableEq, Repr

def DailyStats.report (d : DailyStats) (day : Text) : DayReport where
  numbers := (d.data.lookup day).getD {}
  users := (namesOn d.users day).length
  devices := (namesOn d.devices day).length
  visitors := (namesOn d.visitors day).length

/-- What the maps hold of a day. -/
structure DayKnown where
  numbers : Option Bucket
  users : List Text
  devices : List Text
  visitors : List Text

def DailyStats.known (d : DailyStats) (day : Text) : DayKnown :=
  ⟨d.data.lookup day, namesOn d.users day, namesOn d.devices day, namesOn d.visitors day⟩

def DayKnown.report (k : DayKnown) : DayReport :=
  ⟨k.numbers.getD {}, k.users.length, k.devices.length, k.visitors.length⟩

theorem report_eq (d : DailyStats) (day : Text) : d.report day = (d.known day).report := rfl

/-! ## What is written is read back -/

section Objects

variable {ms : List (Text × Json)} {fields : List (Text × Option Json)}

/-- Where the names are apart, there is one member to find. -/
theorem get_obj (h : (ms.map (·.1)).Nodup) (key : Text) : (Json.obj ms).get key = ms.lookup key := by
  show (ms.reverse.find? fun m => m.1 == key).map (·.2) = _
  cases hf : ms.reverse.find? (fun m => m.1 == key) with
  | none =>
    have hnot : key ∉ ms.map (·.1) := by
      intro hmem
      obtain ⟨m, hm, hk⟩ := List.mem_map.1 hmem
      have := List.find?_eq_none.1 hf m (List.mem_reverse.2 hm)
      simp [hk] at this
    rw [Dict.lookup_eq_none_of_not_mem hnot]
    rfl
  | some m =>
    have hm : m ∈ ms := List.mem_reverse.1 (List.mem_of_find?_eq_some hf)
    have hk : m.1 = key := by simpa using List.find?_some hf
    subst hk
    rw [Dict.lookup_of_mem h hm]
    rfl

theorem keys_members : (members fields).map (·.1) =
    (fields.filter fun f => f.2.isSome).map (·.1) := by
  induction fields with
  | nil => rfl
  | cons f fields ih =>
    obtain ⟨name, value⟩ := f
    cases value with
    | none => simpa [members] using ih
    | some v => simpa [members] using ih

theorem get_members (h : (fields.map (·.1)).Nodup) (key : Text) :
    (Json.obj (members fields)).get key = (fields.lookup key).join := by
  have hnd : ((members fields).map (·.1)).Nodup := by
    rw [keys_members]
    exact h.sublist (List.filter_sublist.map _)
  rw [get_obj hnd]
  induction fields with
  | nil => rfl
  | cons f fields ih =>
    obtain ⟨name, value⟩ := f
    have htail := (List.nodup_cons.1 h).2
    cases value with
    | none =>
      have hcons : members ((name, none) :: fields) = members fields := rfl
      rw [hcons] at hnd ⊢
      rw [ih htail hnd, List.lookup_cons]
      by_cases hk : key = name
      · subst hk
        rw [Dict.lookup_eq_none_of_not_mem (List.nodup_cons.1 h).1]
        simp
      · rw [beq_false_of_ne hk]
    | some v =>
      have hcons : members ((name, some v) :: fields) = (name, v) :: members fields := rfl
      rw [hcons] at hnd ⊢
      rw [List.lookup_cons, List.lookup_cons]
      by_cases hk : key = name
      · subst hk
        simp
      · rw [beq_false_of_ne hk]
        exact ih htail (List.nodup_cons.1 hnd).2

end Objects

section Entry

variable (d : DailyStats) (day : Text)

theorem get_dayEntry (key : Text) : (dayEntry d day).get key =
    (List.lookup key
      [(text "bytes_received", (d.data.lookup day).map fun b => Json.int b.bytesReceived),
       (text "bytes_sent", (d.data.lookup day).map fun b => Json.int b.bytesSent),
       (text "completed", (d.data.lookup day).map fun b => Json.int b.completed),
       (text "devices", namesValue (namesOn d.devices day)),
       (text "failed", (d.data.lookup day).map fun b => Json.int b.failed),
       (text "total", (d.data.lookup day).map fun b => Json.int b.total),
       (text "users", namesValue (namesOn d.users day)),
       (text "visitors", namesValue (namesOn d.visitors day))]).join := by
  refine get_members ?_ key
  show (["bytes_received", "bytes_sent", "completed", "devices", "failed", "total", "users",
    "visitors"].map text).Nodup
  decide

theorem intOrZero_number (n : Bucket → Int) (hn : n {} = 0) (b : Option Bucket) :
    intOrZero (b.map fun b => Json.int (n b)) = .ok (n (b.getD {})) := by
  cases b with
  | none => rw [Option.getD_none, hn]; rfl
  | some b => exact intOrZero_int (n b)

theorem loadBucket_dayEntry :
    loadBucket (dayEntry d day) = .ok ((d.data.lookup day).getD {}) := by
  have hat : ∀ key (n : Bucket → Int), n {} = 0 →
      (dayEntry d day).get key = ((d.data.lookup day).map fun b => Json.int (n b)) →
      intOrZeroAt (dayEntry d day) key = .ok (n ((d.data.lookup day).getD {})) := by
    intro key n hn hget
    show intOrZero ((dayEntry d day).get key) = _
    rw [hget, intOrZero_number n hn]
  unfold loadBucket
  rw [hat (text "total") (fun b => b.total) rfl (get_dayEntry d day _),
    hat (text "completed") (fun b => b.completed) rfl (get_dayEntry d day _),
    hat (text "failed") (fun b => b.failed) rfl (get_dayEntry d day _),
    hat (text "bytes_sent") (·.bytesSent) rfl (get_dayEntry d day _),
    hat (text "bytes_received") (·.bytesReceived) rfl (get_dayEntry d day _)]
  rfl

end Entry

/-- A set that loading leaves as it is: no name twice, none empty, each in its normal form. -/
structure Names (norm : Text → Text) (names : List Text) : Prop where
  nodup : names.Nodup
  nonempty : ∀ x ∈ names, x ≠ []
  normal : ∀ x ∈ names, norm x = x

section Names

variable {norm : Text → Text} {names : List Text} {m : List (Text × List Text)} {day : Text}

theorem Names.perm {names' : List Text} (h : Names norm names) (hp : names'.Perm names) :
    Names norm names' :=
  ⟨hp.nodup_iff.2 h.nodup, fun x hx => h.nonempty x (hp.mem_iff.1 hx),
    fun x hx => h.normal x (hp.mem_iff.1 hx)⟩

/-- The list of a set is read as that list. -/
theorem Names.loadNames (h : Names norm names) :
    loadNames norm (some (.arr (names.map .str))) = some names := by
  have hfilter : (names.map Json.str).filter truthy = names.map .str := by
    refine List.filter_eq_self.2 fun x hx => ?_
    obtain ⟨name, hname, rfl⟩ := List.mem_map.1 hx
    simpa [truthy] using h.nonempty name hname
  have hmap : (names.map Json.str).map (fun x => norm (pyStr x)) = names := by
    rw [List.map_map]
    refine (List.map_congr_left fun x hx => ?_).trans (List.map_id names)
    exact h.normal x hx
  rw [Py.loadNames, hfilter, hmap, h.nodup.dedup]

theorem namesOn_set (m : List (Text × List Text)) (day day' : Text) (names : List Text) :
    namesOn (Dict.set m day names) day' = if day' = day then names else namesOn m day' := by
  unfold namesOn
  rw [Dict.lookup_set]
  by_cases h : day' = day
  · rw [if_pos h, if_pos h, Option.getD_some]
  · rw [if_neg h, if_neg h]

theorem namesOn_setNames_of_ne {day' : Text} (h : day' ≠ day) (names : Option (List Text)) :
    namesOn (setNames m day names) day' = namesOn m day' := by
  cases names with
  | none => rfl
  | some names =>
    show namesOn (Dict.set m day names) day' = _
    rw [namesOn_set, if_neg h]

/-- A day that had no names has those that were written, in order. -/
theorem namesOn_setNames (h : Names norm names) (hnone : namesOn m day = []) :
    namesOn (setNames m day (loadNames norm (namesValue names))) day =
      names.insertionSort (· ≤ ·) := by
  unfold namesValue
  by_cases hnil : names = []
  · rw [if_pos hnil, hnil]
    exact hnone
  · have hperm := names.perm_insertionSort (· ≤ ·)
    rw [if_neg hnil, (h.perm hperm).loadNames]
    show namesOn (Dict.set m day _) day = _
    rw [namesOn_set, if_pos rfl]

end Names

/-- The three maps of a store are made of such sets. -/
structure DailyStats.Wf (d : DailyStats) : Prop where
  users : ∀ day, Names id (namesOn d.users day)
  devices : ∀ day, Names lowerText (namesOn d.devices day)
  visitors : ∀ day, Names id (namesOn d.visitors day)

section RoundTrip

variable {d d₀ : DailyStats} {day : Text}

/-- A day as it comes back: with a bucket, and the names in order. -/
def DayKnown.readBack (k : DayKnown) : DayKnown :=
  ⟨some (k.numbers.getD {}), k.users.insertionSort (· ≤ ·), k.devices.insertionSort (· ≤ ·),
    k.visitors.insertionSort (· ≤ ·)⟩

theorem report_readBack (k : DayKnown) : k.readBack.report = k.report := by
  simp [DayKnown.readBack, DayKnown.report, List.length_insertionSort]

/-- Nobody is known of a day. -/
structure DayKnown.Unnamed (k : DayKnown) : Prop where
  users : k.users = []
  devices : k.devices = []
  visitors : k.visitors = []

/-- What one entry of the file that can be read does. -/
theorem loadDay_ok {v : Json} {d' : DailyStats} (h : loadDay d day v = .ok d') :
    ∃ b, loadBucket v = .ok b ∧ d' =
      { data := Dict.set d.data day b
        users := setNames d.users day (loadNames id (v.get (text "users")))
        devices := setNames d.devices day (loadNames lowerText (v.get (text "devices")))
        visitors := setNames d.visitors day (loadNames id (v.get (text "visitors"))) } := by
  unfold loadDay at h
  cases hb : loadBucket v with
  | error err =>
    rw [hb] at h
    cases h
  | ok b =>
    rw [hb] at h
    exact ⟨b, rfl, (Except.ok.inj h).symm⟩

/-- An entry of the file is read back as the day it was written from. -/
theorem loadDay_dayEntry (h : d.Wf) (hd₀ : (d₀.known day).Unnamed) :
    ∃ d₁, loadDay d₀ day (dayEntry d day) = .ok d₁ ∧ d₁.known day = (d.known day).readBack ∧
      ∀ day', day' ≠ day → d₁.known day' = d₀.known day' := by
  have husers : (dayEntry d day).get (text "users") = namesValue (namesOn d.users day) :=
    get_dayEntry d day (text "users")
  have hdevices : (dayEntry d day).get (text "devices") = namesValue (namesOn d.devices day) :=
    get_dayEntry d day (text "devices")
  have hvisitors : (dayEntry d day).get (text "visitors") = namesValue (namesOn d.visitors day) :=
    get_dayEntry d day (text "visitors")
  unfold loadDay
  rw [loadBucket_dayEntry, husers, hdevices, hvisitors]
  refine ⟨_, rfl, ?_, fun day' hne => ?_⟩
  · unfold DailyStats.known DayKnown.readBack
    rw [Dict.lookup_set, if_pos rfl, namesOn_setNames (h.users day) hd₀.users,
      namesOn_setNames (h.devices day) hd₀.devices, namesOn_setNames (h.visitors day) hd₀.visitors]
  · unfold DailyStats.known
    rw [Dict.lookup_set, if_neg hne, namesOn_setNames_of_ne hne, namesOn_setNames_of_ne hne,
      namesOn_setNames_of_ne hne]

/-- The loop over the days of a file. -/
theorem loadDays_dayEntry (h : d.Wf) {days : List Text} (hnd : days.Nodup)
    (hd₀ : ∀ day ∈ days, (d₀.known day).Unnamed) :
    (∀ day ∈ days, (loadDays d₀ (days.map fun day => (day, dayEntry d day))).known day =
      (d.known day).readBack) ∧
    ∀ day, day ∉ days → (loadDays d₀ (days.map fun day => (day, dayEntry d day))).known day =
      d₀.known day := by
  induction days generalizing d₀ with
  | nil => exact ⟨fun day hday => absurd hday List.not_mem_nil, fun day _ => rfl⟩
  | cons k days ih =>
    obtain ⟨hk, hnd⟩ := List.nodup_cons.1 hnd
    obtain ⟨d₁, hload, hknown, hother⟩ := loadDay_dayEntry h (hd₀ k List.mem_cons_self)
    have hd₁ : ∀ day ∈ days, (d₁.known day).Unnamed := by
      intro day hday
      rw [hother day fun heq => hk (heq ▸ hday)]
      exact hd₀ day (List.mem_cons_of_mem k hday)
    have hcons : loadDays d₀ ((k :: days).map fun day => (day, dayEntry d day)) =
        loadDays d₁ (days.map fun day => (day, dayEntry d day)) := by
      show (match loadDay d₀ k (dayEntry d k) with
        | .ok d' => loadDays d' (days.map fun day => (day, dayEntry d day))
        | .error _ => d₀) = _
      rw [hload]
    obtain ⟨hin, hout⟩ := ih hnd hd₁
    rw [hcons]
    refine ⟨fun day hday => ?_, fun day hday => ?_⟩
    · rcases List.mem_cons.1 hday with rfl | hday
      · rw [hout day hk, hknown]
      · exact hin day hday
    · have hne : day ≠ k := fun heq => hday (heq ▸ List.mem_cons_self)
      rw [hout day fun hmem => hday (List.mem_cons_of_mem k hmem), hother day hne]

/-- Nothing is known of a day in none of the maps. -/
theorem known_of_not_mem (h : day ∉ d.days) : d.known day = ({} : DailyStats).known day := by
  unfold DailyStats.days at h
  rw [List.mem_dedup] at h
  simp only [List.mem_append, not_or] at h
  obtain ⟨⟨⟨hdata, hdevices⟩, hvisitors⟩, husers⟩ := h
  unfold DailyStats.known namesOn
  rw [Dict.lookup_eq_none_of_not_mem hdata, Dict.lookup_eq_none_of_not_mem hdevices,
    Dict.lookup_eq_none_of_not_mem hvisitors, Dict.lookup_eq_none_of_not_mem husers]
  rfl

theorem report_of_not_mem (h : day ∉ d.days) : d.report day = ({} : DailyStats).report day := by
  rw [report_eq, report_eq, known_of_not_mem h]

/-- The members of the file are the days, in order. -/
theorem dictItems_fileOf (d : DailyStats) : dictItems (fileOf d) =
    (d.days.insertionSort (· ≤ ·)).map fun day => (day, dayEntry d day) := by
  have hnd : (d.days.insertionSort (· ≤ ·)).Nodup :=
    (d.days.perm_insertionSort (· ≤ ·)).nodup_iff.2 (List.nodup_dedup _)
  refine (Dict.foldl_set [] _ ?_).trans (List.nil_append _)
  have hkeys : (items (fileOf d)).map (·.1) = d.days.insertionSort (· ≤ ·) :=
    List.map_map.trans (List.map_id _)
  rwa [List.nil_append, hkeys]

/-- What is known once the file has been read. -/
theorem known_load_fileOf (h : d.Wf) (day : Text) :
    (load (some (fileOf d))).known day =
      if day ∈ d.days then (d.known day).readBack else ({} : DailyStats).known day := by
  have hperm := d.days.perm_insertionSort (· ≤ ·)
  have hnd : (d.days.insertionSort (· ≤ ·)).Nodup := hperm.nodup_iff.2 (List.nodup_dedup _)
  have hempty : ∀ day ∈ d.days.insertionSort (· ≤ ·), (({} : DailyStats).known day).Unnamed :=
    fun _ _ => ⟨rfl, rfl, rfl⟩
  obtain ⟨hin, hout⟩ := loadDays_dayEntry h hnd hempty
  show (loadDays {} (dictItems (fileOf d))).known day = _
  rw [dictItems_fileOf]
  by_cases hday : day ∈ d.days
  · rw [if_pos hday]
    exact hin day (hperm.mem_iff.2 hday)
  · rw [if_neg hday]
    exact hout day fun hmem => hday (hperm.mem_iff.1 hmem)

/-- **The file says what the store says**, of every day. -/
theorem load_fileOf (h : d.Wf) (day : Text) :
    (load (some (fileOf d))).report day = d.report day := by
  rw [report_eq, known_load_fileOf h]
  by_cases hday : day ∈ d.days
  · rw [if_pos hday, report_readBack, report_eq]
  · rw [if_neg hday, report_of_not_mem hday, report_eq]

end RoundTrip

/-! ## The stores that come about -/

theorem lowerText_lowerText (s : Text) : lowerText (lowerText s) = lowerText s := by
  unfold lowerText
  rw [List.map_map]
  refine List.map_congr_left fun c _ => ?_
  show (if 65 ≤ (if 65 ≤ c ∧ c ≤ 90 then c + 32 else c) ∧
    (if 65 ≤ c ∧ c ≤ 90 then c + 32 else c) ≤ 90 then _ else _) = _
  by_cases hc : 65 ≤ c ∧ c ≤ 90
  · rw [if_pos hc, if_neg (by omega)]
  · rw [if_neg hc, if_neg hc]

/-- What is true is not written as the empty text. -/
theorem pyStr_ne_nil {x : Json} (h : truthy x = true) : pyStr x ≠ [] := by
  cases x with
  | null => cases h
  | bool b => cases b <;> decide
  | int n =>
    obtain ⟨c, cs, -, hc | hc⟩ := Json.numeral_cons n
    · exact fun hnil => by rw [pyStr, hc] at hnil; cases hnil
    · exact fun hnil => by rw [pyStr, hc] at hnil; cases hnil
  | float lexeme =>
    rintro rfl
    revert h
    decide +kernel
  | str s =>
    show s ≠ []
    simpa [truthy] using h
  | arr xs => simp [pyStr, Json.dumps]
  | obj ms => simp [pyStr, Json.dumps]

/-- What `_load` and the calls make of a name. -/
structure Normal (norm : Text → Text) : Prop where
  idem : ∀ s, norm (norm s) = norm s
  nonempty : ∀ s, s ≠ [] → norm s ≠ []

theorem normal_id : Normal id := ⟨fun _ => rfl, fun _ h => h⟩

theorem normal_lowerText : Normal lowerText :=
  ⟨lowerText_lowerText, fun _ h hnil => h (List.map_eq_nil_iff.1 hnil)⟩

section Wf

variable {norm : Text → Text} {m : List (Text × List Text)} {d : DailyStats} {day x : Text}

theorem Names.nil : Names norm [] :=
  ⟨List.nodup_nil, fun _ h => absurd h List.not_mem_nil, fun _ h => absurd h List.not_mem_nil⟩

theorem names_loadNames (hn : Normal norm) {v : Option Json} {names : List Text}
    (h : loadNames norm v = some names) : Names norm names := by
  unfold loadNames at h
  split at h
  · obtain rfl := Option.some.inj h
    have hmem : ∀ y ∈ ((List.filter truthy ‹_›).map fun x => norm (pyStr x)).dedup,
        ∃ x, truthy x = true ∧ norm (pyStr x) = y := by
      intro y hy
      obtain ⟨x, hx, hxy⟩ := List.mem_map.1 (List.mem_dedup.1 hy)
      exact ⟨x, (List.mem_filter.1 hx).2, hxy⟩
    refine ⟨List.nodup_dedup _, fun y hy => ?_, fun y hy => ?_⟩
    · obtain ⟨x, hx, rfl⟩ := hmem y hy
      exact hn.nonempty _ (pyStr_ne_nil hx)
    · obtain ⟨x, -, rfl⟩ := hmem y hy
      exact hn.idem _
  · cases h

theorem names_setNames (hn : Normal norm) (h : ∀ day, Names norm (namesOn m day)) (v : Option Json)
    (day' : Text) : Names norm (namesOn (setNames m day (loadNames norm v)) day') := by
  cases hload : loadNames norm v with
  | none => exact h day'
  | some names =>
    show Names norm (namesOn (Dict.set m day names) day')
    rw [namesOn_set]
    by_cases hday : day' = day
    · rw [if_pos hday]
      exact names_loadNames hn hload
    · rw [if_neg hday]
      exact h day'

theorem DailyStats.Wf.empty : ({} : DailyStats).Wf :=
  ⟨fun _ => Names.nil, fun _ => Names.nil, fun _ => Names.nil⟩

theorem DailyStats.Wf.loadDay (h : d.Wf) {v : Json} {d' : DailyStats}
    (hload : loadDay d day v = .ok d') : d'.Wf := by
  obtain ⟨b, -, rfl⟩ := loadDay_ok hload
  exact ⟨names_setNames normal_id h.users _, names_setNames normal_lowerText h.devices _,
    names_setNames normal_id h.visitors _⟩

theorem DailyStats.Wf.loadDays (h : d.Wf) (days : List (Text × Json)) : (loadDays d days).Wf := by
  induction days generalizing d with
  | nil => exact h
  | cons m days ih =>
    unfold Py.loadDays
    split
    · split
      · rename_i d' hload
        exact ih (h.loadDay hload)
      · exact h
    · exact ih h

/-- Whatever the file holds. -/
theorem wf_load (file : Option Json) : (load file).Wf := by
  cases file with
  | none => exact DailyStats.Wf.empty
  | some raw => exact DailyStats.Wf.empty.loadDays _

end Wf

end Nishro.Py

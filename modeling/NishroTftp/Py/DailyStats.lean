import NishroTftp.Lib.Dict
import NishroTftp.Py.CoreCfg
import NishroTftp.Py.Engine
/-
  The daily totals (`core/daily_stats.py`): `record`, which counts a session into the bucket of the
  day and drops the days that are too old.

  A day is its ISO text, and the order of the texts is the order of the days.  Writing the file is
  left out here: it changes none of the four maps.
-/
namespace Nishro.Py

open Utf8 (Text text)

/-- Today, and the day 180 days ago: buckets before it are dropped. -/
structure Today where
  iso : Text
  cutoff : Text
  retained : ¬ iso < cutoff

def someDay : Today := ⟨text "2026-04-15", text "2025-10-17", by decide⟩

/-- The numbers of a day. -/
structure Bucket where
  total : Nat := 0
  completed : Nat := 0
  failed : Nat := 0
  bytesSent : Int := 0
  bytesReceived : Int := 0
deriving DecidableEq, Repr

/-- `DailyStats`: the buckets, and per day the users, the devices and the visitors seen. -/
structure DailyStats where
  data : List (Text × Bucket) := []
  users : List (Text × List Text) := []
  devices : List (Text × List Text) := []
  visitors : List (Text × List Text) := []

/-- One session into the numbers. -/
def Bucket.add (b : Bucket) (r : DayRecord) : Bucket where
  total := b.total + 1
  completed := if r.success then b.completed + 1 else b.completed
  failed := if r.success then b.failed else if r.serverFault then b.failed + 1 else b.failed
  bytesSent := b.bytesSent + r.bytesSent
  bytesReceived := b.bytesReceived + r.bytesReceived

/-- `m.setdefault(day, set()).add(x)`. -/
def addTo (m : List (Text × List Text)) (day x : Text) : List (Text × List Text) :=
  let old := (m.lookup day).getD []
  Dict.set m day (if x ∈ old then old else old ++ [x])

/-- `^f::(\d{2,3})/`, the digits being ASCII. -/
def userDigits (filename : Text) : Option Text :=
  match filename with
  | 102 :: 58 :: 58 :: rest =>
    let digits := rest.takeWhile Json.isDigit
    if (digits.length = 2 ∨ digits.length = 3) ∧ (rest.dropWhile Json.isDigit).head? = some 47 then
      some digits
    else none
  | _ => none

/-- `_extract_user_id`. -/
def extractUserId : Option Json → Except PyError (Option Text)
  | none => .ok none
  | some (.str s) => .ok ((userDigits s).map fun ds => Json.numeral (Json.natVal ds))
  | some x => if truthy x then .error .typeError else .ok none

/-- `_prune_locked`: the days that have a bucket and are too old, out of all four maps. -/
def DailyStats.prune (d : DailyStats) (t : Today) : DailyStats :=
  let stale := (d.data.map (·.1)).filter fun k => decide (k < t.cutoff)
  let keep {β : Type} (m : List (Text × β)) := m.filter fun kv => ! stale.contains kv.1
  ⟨keep d.data, keep d.users, keep d.devices, keep d.visitors⟩

/-- `record`.  A file name that is no text ends the call once the session has been counted; the
    wrapper of the module logs it. -/
def DailyStats.record (t : Today) (d : DailyStats) (r : DayRecord) : DailyStats :=
  let bucket := ((d.data.lookup t.iso).getD {}).add r
  let d := { d with data := Dict.set d.data t.iso bucket }
  match extractUserId r.filename with
  | .error _ => d
  | .ok uid =>
    let d := match uid with
      | some u => { d with users := addTo d.users t.iso u }
      | none => d
    let d := match r.clientMac with
      | some mac =>
        if truthy mac then { d with devices := addTo d.devices t.iso (lowerText (pyStr mac)) } else d
      | none => d
    d.prune t

/-! ## The bucket of the day -/

/-- Today's bucket is never dropped. -/
theorem prune_lookup (d : DailyStats) (t : Today) :
    (d.prune t).data.lookup t.iso = d.data.lookup t.iso := by
  have hnot : t.iso ∉ (d.data.map (·.1)).filter fun k => decide (k < t.cutoff) := by
    intro hmem
    have hlt := (List.mem_filter.1 hmem).2
    exact t.retained (of_decide_eq_true hlt)
  have hkept : (! ((d.data.map (·.1)).filter fun k => decide (k < t.cutoff)).contains t.iso) = true := by
    simpa using hnot
  exact (Dict.lookup_filter _ (fun k => ! ((d.data.map (·.1)).filter _).contains k) _).trans
    (if_pos hkept)

/-- One call counts one session. -/
theorem record_lookup (t : Today) (d : DailyStats) (r : DayRecord) :
    (d.record t r).data.lookup t.iso = some (((d.data.lookup t.iso).getD {}).add r) := by
  have hset : ∀ d' : DailyStats,
      d'.data = Dict.set d.data t.iso (((d.data.lookup t.iso).getD {}).add r) →
      d'.data.lookup t.iso = some (((d.data.lookup t.iso).getD {}).add r) := by
    intro d' hd'
    rw [hd', Dict.lookup_set, if_pos rfl]
  unfold DailyStats.record
  split
  · exact hset _ rfl
  · rw [prune_lookup]
    refine hset _ ?_
    split
    · split <;> (split <;> rfl)
    · split <;> rfl

/-- The bucket after all the calls of a day. -/
theorem records_lookup (t : Today) (d : DailyStats) {rs : List DayRecord} (hrs : rs ≠ []) :
    (rs.foldl (DailyStats.record t) d).data.lookup t.iso =
      some (rs.foldl Bucket.add ((d.data.lookup t.iso).getD {})) := by
  induction rs generalizing d with
  | nil => exact absurd rfl hrs
  | cons r rs ih =>
    rw [List.foldl_cons, List.foldl_cons]
    by_cases h : rs = []
    · subst h
      exact record_lookup t d r
    · rw [ih _ h, record_lookup]
      rfl

/-- What a sequence of calls adds up to. -/
theorem foldl_add (rs : List DayRecord) (b : Bucket) :
    rs.foldl Bucket.add b =
      { total := b.total + rs.length
        completed := b.completed + rs.countP (·.success)
        failed := b.failed + rs.countP fun r => ! r.success && r.serverFault
        bytesSent := b.bytesSent + (rs.map (·.bytesSent)).sum
        bytesReceived := b.bytesReceived + (rs.map (·.bytesReceived)).sum } := by
  induction rs generalizing b with
  | nil => simp
  | cons r rs ih =>
    rw [List.foldl_cons, ih]
    simp only [Bucket.add, List.length_cons, List.countP_cons, List.map_cons, List.sum_cons,
      Bucket.mk.injEq]
    refine ⟨by omega, ?_, ?_, by omega, by omega⟩
    · by_cases hs : r.success = true
      · simp only [hs, if_true]
        omega
      · simp [hs]
    · by_cases hs : r.success = true
      · simp [hs]
      · by_cases hf : r.serverFault = true
        · simp [hs, hf]
          omega
        · simp [hs, hf]

end Nishro.Py

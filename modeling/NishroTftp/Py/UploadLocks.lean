import NishroTftp.Py.FileLocks
import NishroTftp.Py.WritePaths
/-
  The uploads that rely on the lock table.

  A session takes the lock under the name the client has SENT, and writes to the path that name
  resolves to.  The lock table itself is sound: `Wf` says that it holds exactly what the sessions
  hold, so no two uploads are under way for one name.  Two names that resolve to one path, or to paths
  one of which is the other's temporary file, are another matter.

  Whether two paths are one file is for the file system to say (`file`; under Windows `F` and `f` are).
-/
namespace Nishro.Py

open Runs FileOps

/-! ## Sessions that share it -/

/-- An upload that holds its lock: the name it is under, and where it writes. -/
structure Writer where
  name : Str
  path : Str

structure Sharing where
  locks : Locks
  writers : List Writer
  /-- the names that downloads hold, once for each of them -/
  readers : List Str

def Sharing.new : Sharing := ⟨[], [], []⟩

/-- The checks of `_run_wrq` before it takes the lock, and the path it is going to write to. -/
def SessionArgs.target (a : SessionArgs) (paths : PathOps) : Option Str :=
  if a.enableWrites = false ∨ modeSupported a.request.mode = false ∨
      (a.isFtpName a.request.filename = true ∧ a.allowWrqFtp = false) then none
  else (safeJoin paths a.writeRoot a.uploadName).toOption

inductive LockEvent
  /-- a write request comes as far as `try_write` -/
  | openWrite (a : SessionArgs)
  /-- an upload under this name ends, in whatever way -/
  | closeWrite (name : Str)
  /-- a download comes as far as `try_read` -/
  | openRead (name : Str)
  | closeRead (name : Str)

def Sharing.step (paths : PathOps) (s : Sharing) : LockEvent → Sharing
  | .openWrite a =>
    match a.target paths with
    | none => s
    | some path =>
      match s.locks.acquireWrite a.request.filename with
      | .error _ => s
      | .ok locks => { s with locks, writers := ⟨a.request.filename, path⟩ :: s.writers }
  | .closeWrite name =>
    if name ∈ s.writers.map (·.name) then
      { s with locks := s.locks.releaseWrite name
               writers := s.writers.filter fun w => w.name ≠ name }
    else s
  | .openRead name =>
    match s.locks.acquireRead name with
    | .error _ => s
    | .ok locks => { s with locks, readers := name :: s.readers }
  | .closeRead name =>
    if name ∈ s.readers then
      { s with locks := s.locks.releaseRead name, readers := s.readers.erase name }
    else s

/-! ## The table holds what the sessions hold -/

/-- What the table has to say of a name. -/
def Sharing.entry (s : Sharing) (name : Str) : Option Entry :=
  if name ∈ s.writers.map (·.name) then some ⟨0, true⟩
  else if s.readers.count name = 0 then none
  else some ⟨s.readers.count name, false⟩

structure Sharing.Wf (s : Sharing) : Prop where
  table : ∀ name, s.locks.lookup name = s.entry name
  excludes : ∀ name ∈ s.writers.map (·.name), name ∉ s.readers
  nodup : (s.writers.map (·.name)).Nodup

/-- Does any session hold a lock on this name? -/
def Sharing.Holds (s : Sharing) (name : Str) : Prop :=
  name ∈ s.writers.map (·.name) ∨ name ∈ s.readers

/-- How many uploads hold this name. -/
def Sharing.writing (s : Sharing) (name : Str) : Nat := (s.writers.map (·.name)).count name

/-- How many downloads hold it. -/
def Sharing.reading (s : Sharing) (name : Str) : Nat := s.readers.count name

/-- The table is in order exactly if it reflects these numbers. -/
theorem Sharing.wf_iff (s : Sharing) : s.Wf ↔ s.locks.Reflects s.writing s.reading := by
  have hpos : ∀ name, 0 < s.writing name ↔ name ∈ s.writers.map (·.name) := fun name =>
    List.count_pos_iff
  have hentry : ∀ name, s.entry name = entryOf (s.writing name) (s.reading name) := by
    intro name
    simp only [Sharing.entry, entryOf, hpos]
    rfl
  constructor
  · intro h
    refine ⟨fun name => (h.table name).trans (hentry name), fun name => ?_⟩
    by_cases hw : name ∈ s.writers.map (·.name)
    · exact .inr ⟨List.count_eq_one_of_mem h.nodup hw, List.count_eq_zero.2 (h.excludes name hw)⟩
    · exact .inl (List.count_eq_zero.2 hw)
  · intro h
    refine ⟨fun name => (h.table name).trans (hentry name).symm, fun name hw => ?_, ?_⟩
    · have hw := (hpos name).2 hw
      rcases h.excludes name with hzero | ⟨-, hzero⟩
      · omega
      · exact List.count_eq_zero.1 hzero
    · refine List.nodup_iff_count_le_one.2 fun name => ?_
      show s.writing name ≤ 1
      rcases h.excludes name with hzero | ⟨hone, -⟩ <;> omega

theorem Sharing.holds_iff (s : Sharing) (name : Str) :
    s.Holds name ↔ 0 < s.writing name ∨ 0 < s.reading name :=
  or_congr List.count_pos_iff.symm List.count_pos_iff.symm

section Counts

variable (locks : Locks) (ws : List Writer) (rs : List Str) (name : Str)

theorem writing_cons (w : Writer) :
    Sharing.writing ⟨locks, w :: ws, rs⟩ = plus (Sharing.writing ⟨locks, ws, rs⟩) w.name := by
  funext n
  by_cases hn : n = w.name
  · simp [Sharing.writing, plus, hn]
  · simp [Sharing.writing, plus, hn, List.count_cons_of_ne (Ne.symm hn)]

theorem reading_cons :
    Sharing.reading ⟨locks, ws, name :: rs⟩ = plus (Sharing.reading ⟨locks, ws, rs⟩) name := by
  funext n
  by_cases hn : n = name
  · simp [Sharing.reading, plus, hn]
  · simp [Sharing.reading, plus, hn, List.count_cons_of_ne (Ne.symm hn)]

theorem reading_erase : Sharing.reading ⟨locks, ws, rs.erase name⟩ =
    minus (Sharing.reading ⟨locks, ws, rs⟩) name := by
  funext n
  by_cases hn : n = name
  · simp [Sharing.reading, minus, hn]
  · simp [Sharing.reading, minus, hn, List.count_erase_of_ne hn]

/-- All uploads under the name go, and there is one. -/
theorem writing_filter (hone : Sharing.writing ⟨locks, ws, rs⟩ name = 1) :
    Sharing.writing ⟨locks, ws.filter fun w => w.name ≠ name, rs⟩ =
      minus (Sharing.writing ⟨locks, ws, rs⟩) name := by
  have hmap : (ws.filter fun w => w.name ≠ name).map (·.name) =
      (ws.map (·.name)).filter (· ≠ name) := by
    rw [List.filter_map]
    rfl
  funext n
  simp only [Sharing.writing, minus, hmap]
  by_cases hn : n = name
  · have hnone : name ∉ (ws.map (·.name)).filter (· ≠ name) := fun hmem =>
      (of_decide_eq_true (List.mem_filter.1 hmem).2) rfl
    have hone : (ws.map (·.name)).count name = 1 := hone
    rw [if_pos hn, hn, hone, List.count_eq_zero.2 hnone]
  · rw [if_neg hn]
    exact List.count_filter (decide_eq_true hn)

end Counts

/-- **One step** keeps the table in order. -/
theorem Sharing.Wf.step {s : Sharing} (h : s.Wf) (paths : PathOps) (e : LockEvent) :
    (s.step paths e).Wf := by
  have hr := s.wf_iff.1 h
  cases e with
  | openWrite a =>
    simp only [Sharing.step]
    cases a.target paths with
    | none => exact h
    | some path =>
      rcases hr.acquireWrite a.request.filename with ⟨-, heq⟩ | ⟨-, locks, heq, hnew⟩ <;> rw [heq]
      · exact h
      · refine (Sharing.wf_iff _).2 ?_
        rw [writing_cons]
        exact hnew
  | closeWrite name =>
    simp only [Sharing.step]
    by_cases hw : name ∈ s.writers.map (·.name)
    · rw [if_pos hw]
      refine (Sharing.wf_iff _).2 ?_
      have hone : s.writing name = 1 := List.count_eq_one_of_mem h.nodup hw
      rw [writing_filter (s.locks.releaseWrite name) s.writers s.readers name hone]
      exact hr.releaseWrite name (List.count_pos_iff.2 hw)
    · rw [if_neg hw]
      exact h
  | openRead name =>
    simp only [Sharing.step]
    rcases hr.acquireRead name with ⟨-, heq⟩ | ⟨locks, heq, hnew⟩ <;> rw [heq]
    · exact h
    · refine (Sharing.wf_iff _).2 ?_
      rw [reading_cons]
      exact hnew
  | closeRead name =>
    simp only [Sharing.step]
    by_cases hmem : name ∈ s.readers
    · rw [if_pos hmem]
      refine (Sharing.wf_iff _).2 ?_
      rw [reading_erase]
      exact hr.releaseRead name (List.count_pos_iff.2 hmem)
    · rw [if_neg hmem]
      exact h

/-! ## Paths that two uploads share -/

section Shared

variable {κ : Type} (file : Str → κ)

/-- The files of the one upload and those of the other have one in common. -/
def Collide (p q : Str) : Prop := ∃ x ∈ [p, part p], ∃ y ∈ [q, part q], file x = file y

/-- No two uploads that hold their locks have a file in common. -/
def Sharing.Exclusive (s : Sharing) : Prop :=
  s.writers.Pairwise fun w w' => ¬ Collide file w.path w'.path

/-- A request for a name that nobody holds resolves to files that no upload under way writes. -/
def Sharing.Unaliased (paths : PathOps) (s : Sharing) : LockEvent → Prop
  | .openWrite a => ∀ path, a.target paths = some path → ¬ s.Holds a.request.filename →
      ∀ w ∈ s.writers, ¬ Collide file path w.path
  | .closeWrite _ | .openRead _ | .closeRead _ => True

/-- One step. -/
theorem exclusive_step_iff {paths : PathOps} {s : Sharing} (hwf : s.Wf) (h : s.Exclusive file)
    (e : LockEvent) : (s.step paths e).Exclusive file ↔ s.Unaliased file paths e := by
  cases e with
  | openWrite a =>
    simp only [Sharing.step, Sharing.Unaliased]
    cases ht : a.target paths with
    | none => exact iff_of_true h fun path hp => by cases hp
    | some path =>
      rcases (s.wf_iff.1 hwf).acquireWrite a.request.filename with
        ⟨hheld, heq⟩ | ⟨⟨hnw, hnr⟩, locks, heq, -⟩ <;> rw [heq]
      · exact iff_of_true h fun _ _ hno => absurd ((s.holds_iff _).2 hheld) hno
      have hfree : ¬ s.Holds a.request.filename := by
        rw [Sharing.holds_iff]
        omega
      simp only [Sharing.Exclusive, List.pairwise_cons]
      constructor
      · rintro ⟨hnew, -⟩ path' hp -
        obtain rfl := Option.some.inj hp
        exact hnew
      · intro hun
        exact ⟨hun path rfl hfree, h⟩
  | closeWrite name =>
    refine iff_of_true ?_ trivial
    simp only [Sharing.step]
    split
    · exact List.Pairwise.sublist List.filter_sublist h
    · exact h
  | openRead name =>
    refine iff_of_true ?_ trivial
    simp only [Sharing.step]
    split <;> exact h
  | closeRead name =>
    refine iff_of_true ?_ trivial
    simp only [Sharing.step]
    split <;> exact h

end Shared

/-- Under a root on a drive, two spellings of one name are two locks and one path. -/
theorem spellings_collide {κ : Type} (file : Str → κ) (cwd : Str) {a b : SessionArgs}
    {root rest : Str} {c d : Char} (hroot : NtPath.OnDrive root c d rest)
    (ha : a.writeRoot = root) (hb : b.writeRoot = root)
    (hra : NtPath.Relative (cleaned a.uploadName)) (hrb : NtPath.Relative (cleaned b.uploadName))
    (hsegs : (NtPath.split (cleaned a.uploadName)).filter NtPath.keep =
      (NtPath.split (cleaned b.uploadName)).filter NtPath.keep) {p q : Str}
    (hp : a.target (windowsPaths cwd) = some p) (hq : b.target (windowsPaths cwd) = some q) :
    Collide file p q := by
  have hjoin : ∀ {x : SessionArgs} {t : Str}, x.target (windowsPaths cwd) = some t →
      t = NtPath.abspath cwd (NtPath.join x.writeRoot (cleaned x.uploadName)) := by
    intro x t ht
    unfold SessionArgs.target at ht
    split at ht
    · cases ht
    cases hs : safeJoin (windowsPaths cwd) x.writeRoot x.uploadName with
    | error e =>
      rw [hs] at ht
      cases ht
    | ok path =>
      rw [hs] at ht
      obtain rfl := Option.some.inj ht
      exact (safeJoin_ok hs).1
  have hpq : p = q := by
    rw [hjoin hp, hjoin hq, ha, hb]
    exact NtPath.resolve_congr hroot cwd hra hrb hsegs
  exact ⟨p, by simp, q, by simp, by rw [hpq]⟩

theorem dotted_spelling_collides : Collide id (str "C:\\w\\a\\f") (str "C:\\w\\a\\f") := by
  have hroot : NtPath.OnDrive (str "C:\\w") _ _ _ := ⟨rfl, by decide, by decide⟩
  exact spellings_collide id (str "C:\\srv") (a := writeTo "a/f") (b := writeTo "a//./f") hroot rfl rfl
    rfl rfl (by decide) (by decide) (by decide)

end Nishro.Py

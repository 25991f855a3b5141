import NishroTftp.Lib.Dict
import NishroTftp.Lib.Runs
import NishroTftp.Py.UploadDisk
/-
  `core/file_lock.py`: locks with many readers or one writer, by name.

  The table has an entry for a name while somebody holds it.  `setdefault` makes the entry BEFORE the
  check that may raise, and nothing takes it out again on that way; but a new entry has no holder and
  passes the check, so who raises has found an entry that was there.  `enterRead` and `enterWrite`
  return the table also where they raise; `acquireRead` and `acquireWrite` are the same for a caller
  that only looks at the table of a success.

  `Reflects` says what the table is for: it holds, of every name, how many write and how many read.
-/
namespace Nishro.Py

open Runs

/-! ## The lock table -/

/-- `_Entry`, without the waiters that nothing uses. -/
structure Entry where
  readers : Nat
  writer : Bool
deriving DecidableEq, Repr

abbrev Locks := List (Str × Entry)

/-- `self._entries.setdefault(path, _Entry())`. -/
def Locks.entry (t : Locks) (name : Str) : Entry := (t.lookup name).getD ⟨0, false⟩

/-- An entry is written back, or dropped if nobody holds it: `_gc`. -/
def Locks.put (t : Locks) (name : Str) (e : Entry) : Locks :=
  if e.writer = false ∧ e.readers = 0 then t.filter fun kv => kv.1 ≠ name else Dict.set t name e

def writerActive (name : Str) : Str := str "file busy (writer active): " ++ name

/-- `_acquire_read`. -/
def Locks.acquireRead (t : Locks) (name : Str) : Except Str Locks :=
  let e := t.entry name
  if e.writer then .error (writerActive name)
  else .ok (Dict.set t name { e with readers := e.readers + 1 })

/-- `_release_read`. -/
def Locks.releaseRead (t : Locks) (name : Str) : Locks :=
  match t.lookup name with
  | none => t
  | some e => t.put name { e with readers := e.readers - 1 }

/-- `_acquire_write`. -/
def Locks.acquireWrite (t : Locks) (name : Str) : Except Str Locks :=
  let e := t.entry name
  if e.writer = true ∨ 0 < e.readers then .error (fileBusy name)
  else .ok (Dict.set t name { e with writer := true })

/-- `_release_write`. -/
def Locks.releaseWrite (t : Locks) (name : Str) : Locks :=
  match t.lookup name with
  | none => t
  | some e => t.put name { e with writer := false }

theorem lookup_put (t : Locks) (name n : Str) (e : Entry) : (t.put name e).lookup n =
    if n = name then if e.writer = false ∧ e.readers = 0 then none else some e else t.lookup n := by
  unfold Locks.put
  by_cases he : e.writer = false ∧ e.readers = 0
  · rw [if_pos he, if_pos he]
    have := Dict.lookup_filter t (fun k => decide (k ≠ name)) n
    rw [this]
    by_cases hn : n = name
    · simp [hn]
    · simp [hn]
  · rw [if_neg he, if_neg he, Dict.lookup_set]

/-! ## The table that is left behind -/

/-- The table after `setdefault`. -/
def Locks.setdefault (t : Locks) (name : Str) : Locks :=
  if name ∈ t.map (·.1) then t else t ++ [(name, ⟨0, false⟩)]

/-- `_acquire_read`, with the table also where it raises. -/
def Locks.enterRead (t : Locks) (name : Str) : Locks × Except Str Unit :=
  let t := t.setdefault name
  let e := t.entry name
  if e.writer then (t, .error (writerActive name))
  else (Dict.set t name { e with readers := e.readers + 1 }, .ok ())

/-- `_acquire_write`, with the table also where it raises. -/
def Locks.enterWrite (t : Locks) (name : Str) : Locks × Except Str Unit :=
  let t := t.setdefault name
  let e := t.entry name
  if e.writer = true ∨ 0 < e.readers then (t, .error (fileBusy name))
  else (Dict.set t name { e with writer := true }, .ok ())

section Setdefault

variable (t : Locks) (name : Str)

theorem entry_setdefault : (t.setdefault name).entry name = t.entry name := by
  unfold Locks.setdefault Locks.entry
  by_cases h : name ∈ t.map (·.1)
  · rw [if_pos h]
  · rw [if_neg h, List.lookup_append, Dict.lookup_eq_none_of_not_mem h]
    simp

/-- Who finds a lock that is held has added nothing. -/
theorem setdefault_of_held (h : t.entry name ≠ ⟨0, false⟩) : t.setdefault name = t := by
  refine if_pos (Classical.byContradiction fun hno => h ?_)
  rw [Locks.entry, Dict.lookup_eq_none_of_not_mem hno]
  rfl

theorem set_setdefault (e : Entry) : Dict.set (t.setdefault name) name e = Dict.set t name e := by
  unfold Locks.setdefault
  by_cases h : name ∈ t.map (·.1)
  · rw [if_pos h]
  have hrest : ∀ kv ∈ t, (if kv.1 = name then (name, e) else kv) = kv := by
    intro kv hkv
    refine if_neg fun heq => h ?_
    rw [← heq]
    exact List.mem_map_of_mem hkv
  rw [if_neg h, Dict.set, Dict.set, if_neg h, if_pos (by simp), List.map_append,
    List.map_congr_left hrest, List.map_id']
  simp

/-- An attempt that raises leaves the table as it was. -/
theorem enterRead_eq : t.enterRead name =
    match t.acquireRead name with
    | .ok t' => (t', .ok ())
    | .error m => (t, .error m) := by
  simp only [Locks.enterRead, Locks.acquireRead, entry_setdefault, set_setdefault]
  by_cases hw : (t.entry name).writer = true
  · have hheld : t.entry name ≠ ⟨0, false⟩ := fun h => by
      rw [h] at hw
      cases hw
    rw [if_pos hw, if_pos hw, setdefault_of_held t name hheld]
  · rw [if_neg hw, if_neg hw]

theorem enterWrite_eq : t.enterWrite name =
    match t.acquireWrite name with
    | .ok t' => (t', .ok ())
    | .error m => (t, .error m) := by
  simp only [Locks.enterWrite, Locks.acquireWrite, entry_setdefault, set_setdefault]
  by_cases hw : (t.entry name).writer = true ∨ 0 < (t.entry name).readers
  · have hheld : t.entry name ≠ ⟨0, false⟩ := fun h => by
      rw [h] at hw
      rcases hw with hw | hw
      · cases hw
      · exact Nat.lt_irrefl 0 hw
    rw [if_pos hw, if_pos hw, setdefault_of_held t name hheld]
  · rw [if_neg hw, if_neg hw]

end Setdefault

/-! ## The table holds what is held -/

/-- The entry for a name with so many writers and readers. -/
def entryOf (writers readers : Nat) : Option Entry :=
  if 0 < writers then some ⟨0, true⟩ else if readers = 0 then none else some ⟨readers, false⟩

/-- The table says of every name how many write and how many read. -/
structure Locks.Reflects (t : Locks) (writers readers : Str → Nat) : Prop where
  table : ∀ name, t.lookup name = entryOf (writers name) (readers name)
  excludes : ∀ name, writers name = 0 ∨ writers name = 1 ∧ readers name = 0

def plus (count : Str → Nat) (name : Str) : Str → Nat :=
  fun n => if n = name then count n + 1 else count n

def minus (count : Str → Nat) (name : Str) : Str → Nat :=
  fun n => if n = name then count n - 1 else count n

section Reflects

variable {t : Locks} {writers readers : Str → Nat} (h : t.Reflects writers readers) (name : Str)
include h

theorem Locks.Reflects.entry_eq : t.entry name = (entryOf (writers name) (readers name)).getD ⟨0, false⟩ := by
  rw [Locks.entry, h.table]

/-- A name can be locked for writing exactly if nobody holds it. -/
theorem Locks.Reflects.acquireWrite :
    (0 < writers name ∨ 0 < readers name) ∧ t.acquireWrite name = .error (fileBusy name) ∨
    (writers name = 0 ∧ readers name = 0) ∧
      ∃ t', t.acquireWrite name = .ok t' ∧ t'.Reflects (plus writers name) readers := by
  unfold Locks.acquireWrite
  rw [h.entry_eq name]
  rcases h.excludes name with hw | ⟨hw, hr⟩
  · by_cases hr : readers name = 0
    · refine .inr ⟨⟨hw, hr⟩, _, if_neg (by simp [entryOf, hw, hr]), fun n => ?_, fun n => ?_⟩
      · rw [Dict.lookup_set, plus]
        by_cases hn : n = name
        · simp [entryOf, hn, hw, hr]
        · rw [if_neg hn, if_neg hn, h.table]
      · unfold plus
        by_cases hn : n = name
        · rw [if_pos hn, hn, hw, hr]
          exact .inr ⟨rfl, rfl⟩
        · rw [if_neg hn]
          exact h.excludes n
    · exact .inl ⟨.inr (by omega), if_pos (by simp [entryOf, hw, hr]; omega)⟩
  · exact .inl ⟨.inl (by omega), if_pos (by simp [entryOf, hw])⟩

/-- A name can be locked for reading exactly if nobody writes it. -/
theorem Locks.Reflects.acquireRead :
    0 < writers name ∧ t.acquireRead name = .error (writerActive name) ∨
    ∃ t', t.acquireRead name = .ok t' ∧ t'.Reflects writers (plus readers name) := by
  unfold Locks.acquireRead
  rw [h.entry_eq name]
  rcases h.excludes name with hw | ⟨hw, hr⟩
  · have hentry : (entryOf (writers name) (readers name)).getD ⟨0, false⟩ = ⟨readers name, false⟩ := by
      by_cases hr : readers name = 0 <;> simp [entryOf, hw, hr]
    rw [hentry]
    refine .inr ⟨_, if_neg Bool.false_ne_true, fun n => ?_, fun n => ?_⟩
    · rw [Dict.lookup_set, plus]
      by_cases hn : n = name
      · simp [entryOf, hn, hw]
      · rw [if_neg hn, if_neg hn, h.table]
    · unfold plus
      by_cases hn : n = name
      · exact .inl (hn ▸ hw)
      · rw [if_neg hn]
        exact h.excludes n
  · exact .inl ⟨by omega, if_pos (by simp [entryOf, hw])⟩

theorem Locks.Reflects.releaseWrite (hheld : 0 < writers name) :
    (t.releaseWrite name).Reflects (minus writers name) readers := by
  rcases h.excludes name with hw | ⟨hw, hr⟩
  · omega
  have hentry : t.lookup name = some ⟨0, true⟩ := by
    rw [h.table, entryOf, if_pos hheld]
  refine ⟨fun n => ?_, fun n => ?_⟩
  · simp only [Locks.releaseWrite, hentry, lookup_put, minus]
    by_cases hn : n = name
    · simp [entryOf, hn, hw, hr]
    · rw [if_neg hn, if_neg hn, h.table]
  · unfold minus
    by_cases hn : n = name
    · rw [if_pos hn, hn, hw]
      exact .inl rfl
    · rw [if_neg hn]
      exact h.excludes n

theorem Locks.Reflects.releaseRead (hheld : 0 < readers name) :
    (t.releaseRead name).Reflects writers (minus readers name) := by
  rcases h.excludes name with hw | ⟨-, hr⟩
  · have hentry : t.lookup name = some ⟨readers name, false⟩ := by
      rw [h.table, entryOf, if_neg (by omega), if_neg (by omega)]
    refine ⟨fun n => ?_, fun n => ?_⟩
    · simp only [Locks.releaseRead, hentry, lookup_put, minus]
      by_cases hn : n = name
      · simp [entryOf, hn, hw]
      · rw [if_neg hn, if_neg hn, h.table]
    · unfold minus
      by_cases hn : n = name
      · exact .inl (hn ▸ hw)
      · rw [if_neg hn]
        exact h.excludes n
  · omega

end Reflects

/-! ## Sessions that come and go -/

inductive LockKind
  | read
  | write
deriving DecidableEq, Repr

/-- A context that a session has entered: `try_read(path)` or `try_write(path)`. -/
structure Hold (ι : Type) where
  session : ι
  kind : LockKind
  path : Str
deriving DecidableEq, Repr

/-- `__aenter__`. -/
def Locks.enter (t : Locks) : LockKind → Str → Locks × Except Str Unit
  | .read, path => t.enterRead path
  | .write, path => t.enterWrite path

/-- `__aexit__`. -/
def Locks.leave (t : Locks) : LockKind → Str → Locks
  | .read, path => t.releaseRead path
  | .write, path => t.releaseWrite path

structure LockRoom (ι : Type) where
  locks : Locks
  holds : List (Hold ι)

inductive RoomEvent (ι : Type)
  | enter (h : Hold ι)
  | leave (h : Hold ι)

section Room

variable {ι : Type} [DecidableEq ι]

def LockRoom.new : LockRoom ι := ⟨[], []⟩

/-- A context is left once for each time it was entered. -/
def LockRoom.step (r : LockRoom ι) : RoomEvent ι → LockRoom ι
  | .enter h =>
    match r.locks.enter h.kind h.path with
    | (locks, .ok ()) => ⟨locks, h :: r.holds⟩
    | (locks, .error _) => ⟨locks, r.holds⟩
  | .leave h => if h ∈ r.holds then ⟨r.locks.leave h.kind h.path, r.holds.erase h⟩ else r

/-- How many hold this path in this way. -/
def LockRoom.count (r : LockRoom ι) (kind : LockKind) (path : Str) : Nat :=
  r.holds.countP fun h => h.kind = kind ∧ h.path = path

structure LockRoom.Exact (r : LockRoom ι) : Prop where
  /-- no writer together with a reader, and no two writers -/
  exclusive : ∀ path, r.count .write path = 0 ∨ r.count .write path = 1 ∧ r.count .read path = 0
  /-- an entry for a path is there exactly if somebody holds it -/
  present : ∀ path, path ∈ r.locks.map (·.1) ↔ ∃ h ∈ r.holds, h.path = path
  /-- and it says who -/
  entry : ∀ path e, r.locks.lookup path = some e →
    e.readers = r.count .read path ∧ (e.writer = true ↔ 0 < r.count .write path)
  /-- an attempt that raises leaves the table as it was -/
  untouched : ∀ kind path m, (r.locks.enter kind path).2 = .error m →
    (r.locks.enter kind path).1 = r.locks

/-- The table and the sessions agree. -/
def LockRoom.Agrees (r : LockRoom ι) : Prop := r.locks.Reflects (r.count .write) (r.count .read)

omit [DecidableEq ι] in
theorem count_cons (locks : Locks) (h : Hold ι) (holds : List (Hold ι)) (kind : LockKind) :
    (⟨locks, h :: holds⟩ : LockRoom ι).count kind =
      if h.kind = kind then plus ((⟨locks, holds⟩ : LockRoom ι).count kind) h.path
      else (⟨locks, holds⟩ : LockRoom ι).count kind := by
  funext path
  by_cases hk : h.kind = kind
  · by_cases hp : h.path = path
    · simp [LockRoom.count, plus, hk, hp]
    · simp [LockRoom.count, plus, hk, hp, Ne.symm hp]
  · simp [LockRoom.count, hk]

theorem count_erase (locks : Locks) {h : Hold ι} {holds : List (Hold ι)} (hmem : h ∈ holds)
    (kind : LockKind) :
    (⟨locks, holds.erase h⟩ : LockRoom ι).count kind =
      if h.kind = kind then minus ((⟨locks, holds⟩ : LockRoom ι).count kind) h.path
      else (⟨locks, holds⟩ : LockRoom ι).count kind := by
  funext path
  simp only [LockRoom.count, List.countP_erase, hmem, true_and]
  by_cases hk : h.kind = kind
  · by_cases hp : h.path = path
    · simp [LockRoom.count, minus, hk, hp]
    · simp [LockRoom.count, minus, hk, hp, Ne.symm hp]
  · simp [LockRoom.count, hk]

omit [DecidableEq ι] in
theorem count_pos_of_mem {r : LockRoom ι} {h : Hold ι} (hmem : h ∈ r.holds) :
    0 < r.count h.kind h.path :=
  List.countP_pos_iff.2 ⟨h, hmem, by simp⟩

/-- One step. -/
theorem LockRoom.Agrees.step {r : LockRoom ι} (h : r.Agrees) (e : RoomEvent ι) :
    (r.step e).Agrees := by
  cases e with
  | enter hold =>
    obtain ⟨session, kind, path⟩ := hold
    unfold LockRoom.step
    cases kind with
    | read =>
      simp only [Locks.enter, enterRead_eq]
      rcases h.acquireRead path with ⟨-, heq⟩ | ⟨t', heq, hnew⟩ <;> rw [heq]
      · exact h
      · rw [LockRoom.Agrees, count_cons, count_cons]
        exact hnew
    | write =>
      simp only [Locks.enter, enterWrite_eq]
      rcases h.acquireWrite path with ⟨-, heq⟩ | ⟨-, t', heq, hnew⟩ <;> rw [heq]
      · exact h
      · rw [LockRoom.Agrees, count_cons, count_cons]
        exact hnew
  | leave hold =>
    simp only [LockRoom.step]
    split
    · rename_i hmem
      have hpos := count_pos_of_mem hmem
      obtain ⟨session, kind, path⟩ := hold
      rw [LockRoom.Agrees, count_erase _ hmem, count_erase _ hmem]
      cases kind with
      | read => exact h.releaseRead path hpos
      | write => exact h.releaseWrite path hpos
    · exact h

omit [DecidableEq ι] in
theorem LockRoom.Agrees.exact {r : LockRoom ι} (h : r.Agrees) : r.Exact where
  exclusive := h.excludes
  present path := by
    have hpos : (∃ hold ∈ r.holds, hold.path = path) ↔
        0 < r.count .write path ∨ 0 < r.count .read path := by
      constructor
      · rintro ⟨hold, hmem, rfl⟩
        have := count_pos_of_mem hmem
        cases hk : hold.kind with
        | read => exact .inr (hk ▸ this)
        | write => exact .inl (hk ▸ this)
      · rintro (hc | hc)
        all_goals
          obtain ⟨hold, hmem, hp⟩ := List.countP_pos_iff.1 hc
          exact ⟨hold, hmem, (of_decide_eq_true hp).2⟩
    rw [hpos, ← not_iff_not, ← Dict.lookup_eq_none_iff_not_mem, h.table, entryOf]
    by_cases hw : 0 < r.count .write path
    · simp [hw]
    · by_cases hr : r.count .read path = 0
      · simp [hw, hr]
      · simp [hw, hr, Nat.pos_of_ne_zero hr]
  entry path e he := by
    rw [h.table, entryOf] at he
    rcases h.excludes path with hw | ⟨hw, hr⟩
    · by_cases hr : r.count .read path = 0
      · simp [hw, hr] at he
      · simp only [hw, hr, Nat.lt_irrefl, if_false, Option.some.injEq] at he
        subst he
        simp [hw]
    · simp only [hw, Nat.zero_lt_one, if_true, Option.some.injEq] at he
      subst he
      simp [hw, hr]
  untouched kind path m hm := by
    cases kind with
    | read =>
      simp only [Locks.enter, enterRead_eq] at hm ⊢
      split at hm
      · cases hm
      · rfl
    | write =>
      simp only [Locks.enter, enterWrite_eq] at hm ⊢
      split at hm
      · cases hm
      · rfl

/-- **The lock table is exact**, however sessions come and go: many readers or one writer, an entry
    for a path exactly while somebody holds it, and no trace of an attempt that failed. -/
theorem lock_table_exact (es : List (RoomEvent ι)) :
    Always LockRoom.step LockRoom.Exact .new es := by
  have hnew : (LockRoom.new : LockRoom ι).Agrees := ⟨fun _ => rfl, fun _ => .inl rfl⟩
  exact (always_of_step (fun r e h => h.step e) hnew es).mono fun r h => h.exact

end Room

end Nishro.Py

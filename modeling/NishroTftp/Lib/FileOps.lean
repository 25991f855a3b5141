import Mathlib.Logic.Function.Basic
/-
  Operations on files, and the disk after a list of them.

  A disk says what each path holds.  A program's work on it is the LIST of its operations in order;
  every prefix of the list is a moment at which somebody else may look, so a statement about "at any
  time" is a statement about prefixes.
-/
namespace Nishro.FileOps

variable {κ β : Type} [DecidableEq κ]

/-- What each path holds; `none` if there is no file. -/
abbrev Disk (κ β : Type) := κ → Option (List β)

inductive Op (κ β : Type)
  | mkdir (path : κ)
  /-- opened for writing: made, or emptied -/
  | create (path : κ)
  | append (path : κ) (data : List β)
  | rename (src dst : κ)
  | remove (path : κ)
deriving DecidableEq, Repr

/-- The files an operation makes, changes or takes away. -/
def Op.touches : Op κ β → List κ
  | .mkdir _ => []
  | .create path | .append path _ | .remove path => [path]
  | .rename src dst => [src, dst]

/-- The files an operation makes. -/
def Op.makes : Op κ β → List κ
  | .create path => [path]
  | .rename _ dst => [dst]
  | .mkdir _ | .append _ _ | .remove _ => []

def Op.apply (disk : Disk κ β) : Op κ β → Disk κ β
  | .mkdir _ => disk
  | .create path => Function.update disk path (some [])
  | .append path data => Function.update disk path ((disk path).map (· ++ data))
  | .rename src dst => Function.update (Function.update disk dst (disk src)) src none
  | .remove path => Function.update disk path none

/-- The disk after these operations. -/
def replay (disk : Disk κ β) (ops : List (Op κ β)) : Disk κ β := ops.foldl Op.apply disk

@[simp] theorem replay_nil (disk : Disk κ β) : replay disk [] = disk := rfl

theorem replay_append (disk : Disk κ β) (ops ops' : List (Op κ β)) :
    replay disk (ops ++ ops') = replay (replay disk ops) ops' :=
  List.foldl_append

@[simp] theorem replay_singleton (disk : Disk κ β) (op : Op κ β) : replay disk [op] = op.apply disk :=
  rfl

theorem apply_of_not_touched {op : Op κ β} {path : κ} (h : path ∉ op.touches) (disk : Disk κ β) :
    op.apply disk path = disk path := by
  cases op with
  | mkdir p => rfl
  | create p | append p data | remove p =>
    have hne : path ≠ p := by simpa [Op.touches] using h
    exact Function.update_of_ne hne _ _
  | rename src dst =>
    have hne : path ≠ src ∧ path ≠ dst := by simpa [Op.touches] using h
    rw [Op.apply, Function.update_of_ne hne.1, Function.update_of_ne hne.2]

/-- **Frame.**  A file that no operation touches stays as it is. -/
theorem replay_of_not_touched {ops : List (Op κ β)} {path : κ} (h : ∀ op ∈ ops, path ∉ op.touches)
    (disk : Disk κ β) : replay disk ops path = disk path := by
  induction ops generalizing disk with
  | nil => rfl
  | cons op ops ih =>
    have hrest := ih (fun o ho => h o (List.mem_cons_of_mem _ ho)) (op.apply disk)
    exact hrest.trans (apply_of_not_touched (h op List.mem_cons_self) disk)

/-- So it does at every moment on the way. -/
theorem replay_take_of_not_touched {ops : List (Op κ β)} {path : κ}
    (h : ∀ op ∈ ops, path ∉ op.touches) (disk : Disk κ β) (n : Nat) :
    replay disk (ops.take n) path = disk path :=
  replay_of_not_touched (fun op hop => h op (List.mem_of_mem_take hop)) disk

/-- A rename moves what the first path holds to the second. -/
theorem apply_rename_dst (disk : Disk κ β) {src dst : κ} (h : dst ≠ src) :
    (Op.rename src dst).apply disk dst = disk src := by
  rw [Op.apply, Function.update_of_ne h, Function.update_self]

theorem apply_rename_src (disk : Disk κ β) (src dst : κ) :
    (Op.rename src dst).apply disk src = none :=
  Function.update_self ..

theorem apply_append_self (disk : Disk κ β) (path : κ) (data : List β) :
    (Op.append path data).apply disk path = (disk path).map (· ++ data) :=
  Function.update_self ..

end Nishro.FileOps

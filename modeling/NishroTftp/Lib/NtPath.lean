import Mathlib.Data.List.Basic
/-
  Windows paths as text: `splitroot`, `join` and `normpath` of Python's `ntpath`, and `abspath` as far
  as it is lexical (the working directory is joined in front, the result is normalised).

  What a relative name below a root resolves to depends on its SEGMENTS only, and on those alone that
  are neither empty nor a dot: `resolve_congr`.
-/
namespace Nishro.NtPath

abbrev Text := List Char

/-- The backslash. -/
def sep : Char := Char.ofNat 92

def isSep (c : Char) : Bool := c = sep || c = '/'

/-- The text before the first separator in it, that separator, and the text after it. -/
def cut : Text → Option (Text × Char × Text)
  | [] => none
  | c :: t => if isSep c then some ([], c, t) else (cut t).map fun p => (c :: p.1, p.2)

/-- `splitroot`, without the long prefix of verbatim paths: drive, root and the rest. -/
def splitroot : Text → Text × Text × Text
  | c :: d :: t =>
    if isSep c then
      if isSep d then
        -- \\server\share
        match cut t with
        | none => (c :: d :: t, [], [])
        | some (server, s, rest) =>
          match cut rest with
          | none => (c :: d :: t, [], [])
          | some (share, s', rest) => (c :: d :: server ++ s :: share, [s'], rest)
      else ([], [c], d :: t)
    else if d = ':' then
      match t with
      | e :: t' => if isSep e then ([c, d], [e], t') else ([c, d], [], t)
      | [] => ([c, d], [], [])
    else ([], [], c :: d :: t)
  | [c] => if isSep c then ([], [c], []) else ([], [], [c])
  | [] => ([], [], [])

/-- `join`, for two paths. -/
def join (a b : Text) : Text :=
  let (drive, root, path) := splitroot a
  let (drive', root', path') := splitroot b
  if root' ≠ [] then
    (if drive' ≠ [] ∨ drive = [] then drive' else drive) ++ root' ++ path'
  else if drive' ≠ [] ∧ drive'.map Char.toLower ≠ drive.map Char.toLower then
    drive' ++ root' ++ path'
  else
    let drive := if drive' ≠ [] then drive' else drive
    let path := if path ≠ [] ∧ path.getLast?.any isSep = false then path ++ [sep] else path
    let path := path ++ path'
    if path ≠ [] ∧ root = [] ∧ drive ≠ [] ∧ drive.getLast?.any (fun c => c = ':' || isSep c) = false
    then drive ++ sep :: path
    else drive ++ root ++ path

/-- The segments between separators. -/
def split (t : Text) : List Text := t.splitOnP isSep

/-- One round of the loop of `normpath`: empty segments and dots go, two dots take the segment before
    them along. -/
def push (rooted : Bool) (comps : List Text) (s : Text) : List Text :=
  if s = [] ∨ s = ['.'] then comps
  else if s = ['.', '.'] then
    if comps ≠ [] ∧ comps.getLast? ≠ some ['.', '.'] then comps.dropLast
    else if comps = [] ∧ rooted then []
    else comps ++ [s]
  else comps ++ [s]

def glue : List Text → Text
  | [] => []
  | [s] => s
  | s :: ss => s ++ sep :: glue ss

def normpath (p : Text) : Text :=
  let (drive, root, path) := splitroot p
  let front := (drive ++ root).map fun c => if c = '/' then sep else c
  let comps := (split path).foldl (push (root ≠ [])) []
  if front = [] ∧ comps = [] then ['.'] else front ++ glue comps

/-- Is the path absolute: does it have a root, and a drive before it? -/
def isabs (p : Text) : Bool := (splitroot p).1 ≠ [] && (splitroot p).2.1 ≠ []

def abspath (cwd p : Text) : Text := normpath (if isabs p then p else join cwd p)

/-! ## Segments -/

/-- The segments that say something. -/
def keep (s : Text) : Bool := s ≠ [] && s ≠ ['.']

theorem push_blank {rooted : Bool} {comps : List Text} {s : Text} (h : keep s = false) :
    push rooted comps s = comps := by
  rw [push, if_pos]
  by_cases hs : s = []
  · exact .inl hs
  · simpa [keep, hs] using h

theorem foldl_push (rooted : Bool) (comps : List Text) (segs : List Text) :
    segs.foldl (push rooted) comps = (segs.filter keep).foldl (push rooted) comps := by
  induction segs generalizing comps with
  | nil => rfl
  | cons s segs ih =>
    rw [List.foldl_cons, ih]
    cases hs : keep s with
    | true => rw [List.filter_cons_of_pos hs, List.foldl_cons]
    | false => rw [List.filter_cons_of_neg (by rw [hs]; exact Bool.false_ne_true), push_blank hs]

theorem split_append (a : Text) {s : Char} (hs : isSep s = true) (b : Text) :
    split (a ++ s :: b) = split a ++ split b :=
  List.splitOnP_append_cons a b hs

/-! ## Names below a drive -/

/-- An absolute path on a drive: `X:\` and the rest. -/
structure OnDrive (root : Text) (c s : Char) (rest : Text) : Prop where
  eq : root = c :: ':' :: s :: rest
  letter : isSep c = false
  root : isSep s = true

/-- Neither a drive nor a root in front. -/
def Relative (name : Text) : Prop := splitroot name = ([], [], name)

section Below

variable {root rest : Text} {c s : Char} (h : OnDrive root c s rest)
include h

theorem splitroot_onDrive (t : Text) : splitroot (c :: ':' :: s :: t) = ([c, ':'], [s], t) := by
  simp [splitroot, h.letter, h.root]

/-- What is put before the name when the two are joined ends a segment. -/
theorem join_below : ∃ pre, (∀ name, Relative name → join root name = c :: ':' :: s :: (pre ++ name)) ∧
    ∃ segs, ∀ name, split (pre ++ name) = segs ++ split name := by
  have hsep : isSep sep = true := by decide
  have hjoin : ∀ name, Relative name → join root name = c :: ':' :: s ::
      ((if rest ≠ [] ∧ rest.getLast?.any isSep = false then rest ++ [sep] else rest) ++ name) := by
    intro name hname
    simp only [join, h.eq, splitroot_onDrive h, show splitroot name = ([], [], name) from hname]
    simp
  refine ⟨_, hjoin, ?_⟩
  by_cases hrest : rest ≠ [] ∧ rest.getLast?.any isSep = false
  · rw [if_pos hrest]
    refine ⟨split rest, fun name => ?_⟩
    rw [List.append_assoc]
    exact split_append rest hsep name
  · rw [if_neg hrest]
    by_cases hnil : rest = []
    · subst hnil
      exact ⟨[], fun name => rfl⟩
    -- the root ends in a separator already
    have hlast : rest.getLast?.any isSep = true := by
      simpa [hnil] using hrest
    obtain ⟨init, d, rfl⟩ : ∃ init d, rest = init ++ [d] :=
      ⟨rest.dropLast, rest.getLast hnil, (List.dropLast_append_getLast hnil).symm⟩
    have hd : isSep d = true := by simpa using hlast
    refine ⟨split init, fun name => ?_⟩
    rw [List.append_assoc]
    exact split_append init hd name

theorem abspath_onDrive (cwd t : Text) : abspath cwd (c :: ':' :: s :: t) =
    ([c, ':', s].map fun c => if c = '/' then sep else c) ++
      glue (((split t).filter keep).foldl (push true) []) := by
  rw [← foldl_push]
  simp only [abspath, isabs, normpath, splitroot_onDrive h]
  simp [splitroot_onDrive h]

/-- **Spellings.**  Names with the same segments resolve to the same path. -/
theorem resolve_congr (cwd : Text) {name name' : Text} (hname : Relative name)
    (hname' : Relative name') (hsegs : (split name).filter keep = (split name').filter keep) :
    abspath cwd (join root name) = abspath cwd (join root name') := by
  obtain ⟨pre, hjoin, segs, hsplit⟩ := join_below h
  rw [hjoin name hname, hjoin name' hname', abspath_onDrive h, abspath_onDrive h, hsplit, hsplit,
    List.filter_append, List.filter_append, hsegs]

end Below

end Nishro.NtPath

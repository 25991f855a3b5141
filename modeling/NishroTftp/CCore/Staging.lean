import NishroTftp.CCore.FtpFolder
import NishroTftp.Lib.FileOps
import NishroTftp.Lib.Runs
/-
  The staging files of FTP transfers in the C engine (`c_core/source.c`): where they are, and what
  the sources do to them.

  A source stages its file under a name made from the CLOCK, one stem for downloads and one for
  uploads.  `now_ms` is the system time in milliseconds and up to 256 packets are handled in one
  pass of the loop, so the clock of a request is arbitrary here, and so is the order of requests,
  writes and closes.  The streams are those of the Windows runtime: opening a file for writing
  empties it even if another stream has it open, a file that is open is not removed, and each stream
  writes at a position of its own.  What a stream buffers counts as written.

  `Desk` is what the files are for: each source with its data to itself, and no names at all.  As
  long as no request falls into the millisecond of a live source of its kind, the two are the same
  to every reader and every upload (`private_own_data`).
-/
namespace Nishro.CCore

open Nishro.Decimal Runs FileOps

/-! ## Names -/

/-- What a file is staged for. -/
inductive StagedFor
  | rrq
  | wrq
deriving DecidableEq, Repr

def StagedFor.stem : StagedFor → Bytes
  | .rrq => ascii "nishro_stage_"
  | .wrq => ascii "nishro_wrq_"

def MAX_PATH : Nat := 260

/-- A folder as `GetTempPathA` gives it into a `char[MAX_PATH]`. -/
structure TempDir where
  path : Bytes
  short : path.length < MAX_PATH

/-- `snprintf(tmp, sizeof tmp, "%s\\<stem>%llu.bin", tmpdir, now_ms())`. -/
def stagingPath (dir : TempDir) (kind : StagedFor) (ms : UInt64) : Bytes :=
  cut MAX_PATHLEN (dir.path ++ 92 :: (kind.stem ++ (decimal ms.toNat ++ ascii ".bin")))

/-- The buffer holds every such name. -/
theorem stagingPath_eq (dir : TempDir) (kind : StagedFor) (ms : UInt64) : stagingPath dir kind ms =
    dir.path ++ 92 :: (kind.stem ++ (decimal ms.toNat ++ ascii ".bin")) := by
  have hdigits : (decimal ms.toNat).length ≤ 20 :=
    length_decimal_le (by decide) (Nat.lt_trans ms.toNat_lt (by decide))
  have hstem : kind.stem.length ≤ 13 := by cases kind <;> decide
  have hext : (ascii ".bin").length = 4 := rfl
  have hdir := dir.short
  refine List.take_of_length_le ?_
  simp only [List.length_append, List.length_cons, MAX_PATH, MAX_PATHLEN] at hdir ⊢
  omega

/-- **Kind and millisecond are all there is to a name.** -/
theorem stagingPath_inj {dir : TempDir} {k k' : StagedFor} {ms ms' : UInt64} :
    stagingPath dir k ms = stagingPath dir k' ms' ↔ k = k' ∧ ms = ms' := by
  constructor
  · intro h
    rw [stagingPath_eq, stagingPath_eq] at h
    have hname := (List.cons.inj (List.append_cancel_left h)).2
    -- the stems differ in their eighth letter
    have hkind : k = k' := by
      have hletter := congrArg (·[7]?) hname
      cases k <;> cases k' <;> first | rfl | exact absurd hletter (by simp [StagedFor.stem, ascii])
    subst hkind
    have hdec := List.append_cancel_right (List.append_cancel_left hname)
    have hval := congrArg ofDecimal hdec
    rw [ofDecimal_decimal, ofDecimal_decimal] at hval
    exact ⟨rfl, UInt64.toNat_inj.1 hval⟩
  · rintro ⟨rfl, rfl⟩
    rfl

/-! ## Sources -/

/-- A `FileSource` with a staging file.  `openedMs` is the clock that its name was made from, and
    `pos` the position of its stream. -/
structure StagedSource where
  id : Nat
  kind : StagedFor
  openedMs : UInt64
  staging : Bytes
  remote : Bytes
  pos : Nat
deriving DecidableEq, Repr

/-- The files of the machine, and the sources that have not been freed. -/
structure Staging where
  files : FileOps.Disk Bytes UInt8
  live : List StagedSource
  nextId : Nat

/-- How a download into the staging file goes. -/
inductive Fetch
  /-- it fails before the local file is opened -/
  | noFile
  /-- it fails after so much, or the file is complete and cannot be opened again -/
  | broken (received : Bytes)
  | opened (data : Bytes)

/-- What happens, each request under the configuration of its time. -/
inductive StagingEvent
  /-- `src_open_read` -/
  | rrq (cfg : Config) (libc : Libc) (fn : Bytes) (ms : UInt64) (fetch : Fetch)
  /-- `src_open_write`; is there memory for the source? -/
  | wrq (cfg : Config) (libc : Libc) (fn : Bytes) (ms : UInt64) (memory : Bool)
  /-- `src_seek` and `src_read` -/
  | read (id : Nat) (off max : Nat)
  /-- `src_write`, of what reaches the file -/
  | write (id : Nat) (data : Bytes)
  /-- `src_commit_write` -/
  | commit (id : Nat)
  /-- `src_close` -/
  | close (id : Nat)

/-- `remove(path)`: a file that a source has open stays. -/
def removeFile (others : List StagedSource) (path : Bytes) (files : FileOps.Disk Bytes UInt8) :
    FileOps.Disk Bytes UInt8 :=
  if others.any (·.staging == path) then files else (Op.remove path).apply files

/-- A stream writes at its position; a gap before it is filled with zeros. -/
def writeAt (content : Bytes) (pos : Nat) (data : Bytes) : Bytes :=
  content.take pos ++ List.replicate (pos - content.length) 0 ++ data ++
    content.drop (pos + data.length)

/-- `free(s)`, and the staging file goes. -/
def Staging.release (st : Staging) (id : Nat) : Staging :=
  match st.live.find? (·.id == id) with
  | none => st
  | some s =>
    let others := st.live.filter (·.id != id)
    { st with files := removeFile others s.staging st.files, live := others }

def Staging.step (dir : TempDir) (st : Staging) : StagingEvent → Staging
  | .rrq cfg libc fn ms fetch =>
    if (srcOpenReadTarget cfg libc fn).isNone then st
    else
      let tmp := stagingPath dir .rrq ms
      match fetch with
      | .noFile => { st with files := removeFile st.live tmp st.files }
      | .broken received =>
        { st with files := removeFile st.live tmp (Function.update st.files tmp (some received)) }
      | .opened data =>
        { files := Function.update st.files tmp (some data)
          live := ⟨st.nextId, .rrq, ms, tmp, [], 0⟩ :: st.live
          nextId := st.nextId + 1 }
  | .wrq cfg libc fn ms memory =>
    match srcOpenWriteRemote cfg libc fn with
    | none => st
    | some remote =>
      let tmp := stagingPath dir .wrq ms
      let files := Function.update st.files tmp (some [])
      if memory then
        { files := files
          live := ⟨st.nextId, .wrq, ms, tmp, remote, 0⟩ :: st.live
          nextId := st.nextId + 1 }
      else { st with files := removeFile st.live tmp files }
  | .read _ _ _ => st
  | .write id data =>
    match st.live.find? (fun s => s.id == id && s.kind == .wrq) with
    | none => st
    | some s =>
      { st with
        files := Function.update st.files s.staging
          (some (writeAt ((st.files s.staging).getD []) s.pos data))
        live := st.live.map fun s =>
          if s.id = id then { s with pos := s.pos + data.length } else s }
  | .commit id => st.release id
  | .close id => st.release id

/-- `src_read` after `src_seek`: what a client gets to see. -/
def Staging.srcRead (st : Staging) (id off max : Nat) : Option Bytes :=
  (st.live.find? (fun s => s.id == id && s.kind == .rrq)).map fun s =>
    (((st.files s.staging).getD []).drop off).take max

/-- What `src_commit_write` uploads, and where. -/
def Staging.uploads (st : Staging) (id : Nat) : Option (Bytes × Bytes) :=
  (st.live.find? (fun s => s.id == id && s.kind == .wrq)).map fun s =>
    (s.remote, (st.files s.staging).getD [])

/-! ## What is to hold -/

/-- The file that a step opens, writes, reads or removes, and the source it does so for (a request
    has none yet). -/
def Staging.uses (dir : TempDir) (st : Staging) : StagingEvent → Option (Option Nat × Bytes)
  | .rrq cfg libc fn ms _ =>
    (srcOpenReadTarget cfg libc fn).map fun _ => (none, stagingPath dir .rrq ms)
  | .wrq cfg libc fn ms _ =>
    (srcOpenWriteRemote cfg libc fn).map fun _ => (none, stagingPath dir .wrq ms)
  | .read id _ _ | .write id _ | .commit id | .close id =>
    (st.live.find? (·.id == id)).map fun s => (some id, s.staging)

/-- No two live sources have the same staging path. -/
def Staging.Apart (st : Staging) : Prop := st.live.Pairwise fun s t => s.staging ≠ t.staging

/-- A step leaves the files of all other sources alone. -/
def Staging.KeepsOff (dir : TempDir) (st : Staging) (e : StagingEvent) : Prop :=
  ∀ who path, st.uses dir e = some (who, path) →
    ∀ s ∈ st.live, some s.id ≠ who → s.staging ≠ path

/-- Staging files are private all along. -/
def Private (dir : TempDir) (st : Staging) (es : List StagingEvent) : Prop :=
  Always (Staging.step dir) Staging.Apart st es ∧
    Along (Staging.step dir) (Staging.KeepsOff dir) st es

/-- The staging file a request makes, if it gets that far. -/
def StagingEvent.stages : StagingEvent → Option (StagedFor × UInt64)
  | .rrq cfg libc fn ms _ => (srcOpenReadTarget cfg libc fn).map fun _ => (.rrq, ms)
  | .wrq cfg libc fn ms _ => (srcOpenWriteRemote cfg libc fn).map fun _ => (.wrq, ms)
  | _ => none

/-- No request is staged in the millisecond of a live source of its kind. -/
def Staging.Spaced (st : Staging) (e : StagingEvent) : Prop :=
  ∀ kind ms, e.stages = some (kind, ms) → ∀ s ∈ st.live, s.kind = kind → s.openedMs ≠ ms

/-! ## Each source with its data to itself -/

/-- A source and its own data, without a name. -/
structure OwnData where
  id : Nat
  kind : StagedFor
  remote : Bytes
  data : Bytes
deriving DecidableEq, Repr

/-- What the staging files are for. -/
structure Desk where
  own : List OwnData
  nextId : Nat

def Desk.step (d : Desk) : StagingEvent → Desk
  | .rrq cfg libc fn _ fetch =>
    if (srcOpenReadTarget cfg libc fn).isNone then d
    else
      match fetch with
      | .noFile | .broken _ => d
      | .opened data => ⟨⟨d.nextId, .rrq, [], data⟩ :: d.own, d.nextId + 1⟩
  | .wrq cfg libc fn _ memory =>
    match srcOpenWriteRemote cfg libc fn with
    | none => d
    | some remote => if memory then ⟨⟨d.nextId, .wrq, remote, []⟩ :: d.own, d.nextId + 1⟩ else d
  | .read _ _ _ => d
  | .write id data =>
    { d with own := d.own.map fun o =>
        if o.id = id ∧ o.kind = .wrq then { o with data := o.data ++ data } else o }
  | .commit id | .close id => { d with own := d.own.filter (·.id != id) }

/-- A source with what its staging file holds. -/
def StagedSource.own (files : FileOps.Disk Bytes UInt8) (s : StagedSource) : OwnData :=
  ⟨s.id, s.kind, s.remote, (files s.staging).getD []⟩

/-- The sources as they find their files. -/
def Staging.desk (st : Staging) : Desk := ⟨st.live.map (·.own st.files), st.nextId⟩

/-! ## One step -/

structure Staging.Inv (dir : TempDir) (st : Staging) : Prop where
  named : ∀ s ∈ st.live, s.staging = stagingPath dir s.kind s.openedMs
  ids : st.live.Pairwise fun s t => s.id ≠ t.id
  fresh : ∀ s ∈ st.live, s.id < st.nextId
  apart : st.Apart
  /-- the file is there, and an upload is written at its end -/
  held : ∀ s ∈ st.live, ∃ content, st.files s.staging = some content ∧
    (s.kind = .wrq → s.pos = content.length)

theorem removeFile_of_ne {others : List StagedSource} {path path' : Bytes} (h : path' ≠ path)
    (files : FileOps.Disk Bytes UInt8) : removeFile others path files path' = files path' := by
  unfold removeFile
  split
  · rfl
  · exact apply_of_not_touched (by simpa [Op.touches] using h) files

theorem writeAt_end (content data : Bytes) :
    writeAt content content.length data = content ++ data := by
  simp [writeAt]

section
variable {dir : TempDir} {st : Staging}

/-- A name that no live source has. -/
def Staging.Unused (st : Staging) (path : Bytes) : Prop := ∀ s ∈ st.live, s.staging ≠ path

variable (h : st.Inv dir)
include h

/-- Under the invariant a staged request is spaced exactly if its name is unused. -/
theorem unused_iff (kind : StagedFor) (ms : UInt64) :
    st.Unused (stagingPath dir kind ms) ↔ ∀ s ∈ st.live, s.kind = kind → s.openedMs ≠ ms := by
  refine forall₂_congr fun s hs => ?_
  rw [h.named s hs, ne_eq, stagingPath_inj]
  tauto

/-- Only the staging files of live sources matter. -/
theorem Staging.Inv.frame {files : FileOps.Disk Bytes UInt8}
    (hfiles : ∀ s ∈ st.live, files s.staging = st.files s.staging) :
    ({ st with files := files } : Staging).Inv dir ∧
      ({ st with files := files } : Staging).desk = st.desk := by
  refine ⟨⟨h.named, h.ids, h.fresh, h.apart, fun s hs => ?_⟩, ?_⟩
  · obtain ⟨content, hc, hpos⟩ := h.held s hs
    exact ⟨content, (hfiles s hs).trans hc, hpos⟩
  · have hown : ∀ s ∈ st.live, s.own files = s.own st.files := by
      intro s hs
      rw [StagedSource.own, StagedSource.own, hfiles s hs]
    rw [Staging.desk, Staging.desk, List.map_congr_left hown]

/-- A new source under an unused name. -/
theorem Staging.Inv.opened {kind : StagedFor} {ms : UInt64}
    (hunused : st.Unused (stagingPath dir kind ms)) (remote : Bytes) {content : Bytes}
    (hempty : kind = .wrq → content = []) {st' : Staging}
    (hst' : st' = ⟨Function.update st.files (stagingPath dir kind ms) (some content),
      ⟨st.nextId, kind, ms, stagingPath dir kind ms, remote, 0⟩ :: st.live, st.nextId + 1⟩) :
    st'.Inv dir ∧
      st'.desk = ⟨⟨st.nextId, kind, remote, content⟩ :: st.desk.own, st.nextId + 1⟩ := by
  subst hst'
  have hothers : ∀ s ∈ st.live, Function.update st.files (stagingPath dir kind ms) (some content)
      s.staging = st.files s.staging := fun s hs => Function.update_of_ne (hunused s hs) _ _
  refine ⟨⟨?_, ?_, ?_, ?_, ?_⟩, ?_⟩
  · exact List.forall_mem_cons.2 ⟨rfl, h.named⟩
  · exact List.pairwise_cons.2 ⟨fun s hs => Nat.ne_of_gt (h.fresh s hs), h.ids⟩
  · exact List.forall_mem_cons.2
      ⟨Nat.lt_succ_self _, fun s hs => Nat.lt_succ_of_lt (h.fresh s hs)⟩
  · exact List.pairwise_cons.2 ⟨fun s hs => Ne.symm (hunused s hs), h.apart⟩
  · refine List.forall_mem_cons.2 ⟨⟨content, Function.update_self .., fun hk => ?_⟩, fun s hs => ?_⟩
    · rw [hempty hk]
      rfl
    · obtain ⟨c, hc, hpos⟩ := h.held s hs
      exact ⟨c, (hothers s hs).trans hc, hpos⟩
  · have hown : ∀ s ∈ st.live, s.own (Function.update st.files (stagingPath dir kind ms)
        (some content)) = s.own st.files := by
      intro s hs
      rw [StagedSource.own, StagedSource.own, hothers s hs]
    simp only [Staging.desk, List.map_cons, List.map_congr_left hown]
    rw [StagedSource.own]
    simp

/-- Sources of one id, or of one name, are the same. -/
theorem Staging.Inv.eq_of_id {s t : StagedSource} (hs : s ∈ st.live)
    (ht : t ∈ st.live) (hid : s.id = t.id) : s = t := by
  have : Std.Symm fun s t : StagedSource => s.id ≠ t.id := ⟨fun _ _ hne => Ne.symm hne⟩
  by_contra hne
  exact h.ids.forall hs ht hne hid

theorem Staging.Inv.eq_of_staging {s t : StagedSource} (hs : s ∈ st.live)
    (ht : t ∈ st.live) (hpath : s.staging = t.staging) : s = t := by
  have : Std.Symm fun s t : StagedSource => s.staging ≠ t.staging := ⟨fun _ _ hne => Ne.symm hne⟩
  by_contra hne
  exact h.apart.forall hs ht hne hpath

/-- A source is freed: the others keep their files. -/
theorem Staging.Inv.released (id : Nat) :
    (st.release id).Inv dir ∧
      (st.release id).desk = { st.desk with own := st.desk.own.filter (·.id != id) } := by
  have hkeep : ∀ files : FileOps.Disk Bytes UInt8, (∀ t ∈ st.live, t.id ≠ id →
      files t.staging = st.files t.staging) → ∀ st' : Staging,
      st' = { st with files := files, live := st.live.filter (·.id != id) } → st'.Inv dir ∧
        st'.desk = { st.desk with own := st.desk.own.filter (·.id != id) } := by
    rintro files hfiles st' rfl
    have hmem : ∀ t ∈ st.live.filter (·.id != id), t ∈ st.live ∧ t.id ≠ id := by
      intro t ht
      simpa using List.mem_filter.1 ht
    refine ⟨⟨fun t ht => h.named t (hmem t ht).1, h.ids.filter _,
      fun t ht => h.fresh t (hmem t ht).1, h.apart.filter _, fun t ht => ?_⟩, ?_⟩
    · obtain ⟨c, hc, hpos⟩ := h.held t (hmem t ht).1
      exact ⟨c, (hfiles t (hmem t ht).1 (hmem t ht).2).trans hc, hpos⟩
    · have hown : ∀ t ∈ st.live.filter (·.id != id), t.own files = t.own st.files := by
        intro t ht
        rw [StagedSource.own, StagedSource.own, hfiles t (hmem t ht).1 (hmem t ht).2]
      simp only [Staging.desk, List.map_congr_left hown, List.filter_map]
      rfl
  cases hfind : st.live.find? (·.id == id) with
  | none =>
    have hnone : ∀ t ∈ st.live, t.id ≠ id := by simpa using List.find?_eq_none.1 hfind
    refine hkeep st.files (fun t _ _ => rfl) _ ?_
    rw [Staging.release, hfind, List.filter_eq_self.2 (by simpa using hnone)]
  | some s =>
    have hs := List.mem_of_find?_eq_some hfind
    have hid : s.id = id := by simpa using List.find?_some hfind
    refine hkeep (removeFile (st.live.filter (·.id != id)) s.staging st.files) ?_ _ ?_
    · intro t ht hne
      refine removeFile_of_ne (fun hpath => hne ?_) _
      rw [h.eq_of_staging ht hs hpath, hid]
    · rw [Staging.release, hfind]

/-- An upload writes at the end of its own file. -/
theorem Staging.Inv.written (id : Nat) (data : Bytes) :
    (st.step dir (.write id data)).Inv dir ∧
      (st.step dir (.write id data)).desk = st.desk.step (.write id data) := by
  simp only [Staging.step, Desk.step]
  cases hfind : st.live.find? (fun s => s.id == id && s.kind == .wrq) with
  | none =>
    have hnone : ∀ s ∈ st.live, ¬ (s.id = id ∧ s.kind = .wrq) := by
      simpa using List.find?_eq_none.1 hfind
    refine ⟨h, ?_⟩
    have hsame : ∀ o ∈ st.desk.own,
        (if o.id = id ∧ o.kind = .wrq then { o with data := o.data ++ data } else o) = o := by
      intro o ho
      obtain ⟨s, hs, rfl⟩ := List.mem_map.1 ho
      exact if_neg (hnone s hs)
    rw [List.map_congr_left hsame, List.map_id']
  | some s =>
    have hs := List.mem_of_find?_eq_some hfind
    obtain ⟨hid, hkind⟩ : s.id = id ∧ s.kind = .wrq := by simpa using List.find?_some hfind
    obtain ⟨content, hcontent, hpos⟩ := h.held s hs
    -- the source itself, and all the others
    have hself : ∀ t ∈ st.live, t.id = id → t = s := fun t ht htid =>
      h.eq_of_id ht hs (htid.trans hid.symm)
    have hother : ∀ t ∈ st.live, t.id ≠ id → Function.update st.files s.staging
        (some (content ++ data)) t.staging = st.files t.staging := by
      intro t ht htid
      refine Function.update_of_ne (fun hpath => htid ?_) _ _
      rw [h.eq_of_staging ht hs hpath, hid]
    have hwrite : writeAt ((st.files s.staging).getD []) s.pos data = content ++ data := by
      rw [hcontent, Option.getD_some, hpos hkind, writeAt_end]
    simp only [hwrite]
    refine ⟨⟨?_, ?_, ?_, ?_, ?_⟩, ?_⟩
    · simp only [List.forall_mem_map]
      intro t ht
      split <;> exact h.named t ht
    · refine List.pairwise_map.2 (h.ids.imp ?_)
      intro a b hab
      split <;> split <;> exact hab
    · simp only [List.forall_mem_map]
      intro t ht
      split <;> exact h.fresh t ht
    · refine List.pairwise_map.2 (h.apart.imp ?_)
      intro a b hab
      split <;> split <;> exact hab
    · simp only [List.forall_mem_map]
      intro t ht
      by_cases htid : t.id = id
      · rw [if_pos htid, hself t ht htid]
        refine ⟨content ++ data, Function.update_self .., fun _ => ?_⟩
        rw [List.length_append, ← hpos hkind]
      · obtain ⟨c, hc, hcpos⟩ := h.held t ht
        rw [if_neg htid]
        exact ⟨c, (hother t ht htid).trans hc, hcpos⟩
    · simp only [Staging.desk, List.map_map]
      refine congrArg (Desk.mk · st.nextId) (List.map_congr_left fun t ht => ?_)
      by_cases htid : t.id = id
      · obtain rfl := hself t ht htid
        simp [StagedSource.own, hid, hkind, hcontent]
      · simp [StagedSource.own, htid, hother t ht htid]

/-- **A spaced step** keeps the invariant, and does to the files what it would do to data of its
    own. -/
theorem Staging.Inv.step {e : StagingEvent} (hspaced : st.Spaced e) :
    (st.step dir e).Inv dir ∧ (st.step dir e).desk = st.desk.step e := by
  cases e with
  | rrq cfg libc fn ms fetch =>
    simp only [Staging.step, Desk.step]
    cases htarget : srcOpenReadTarget cfg libc fn with
    | none => exact ⟨h, rfl⟩
    | some target =>
      have hunused := (unused_iff h .rrq ms).2
        (hspaced .rrq ms (by simp [StagingEvent.stages, htarget]))
      cases fetch with
      | noFile => exact h.frame fun s hs => removeFile_of_ne (hunused s hs) _
      | broken received =>
        refine h.frame fun s hs => ?_
        rw [removeFile_of_ne (hunused s hs), Function.update_of_ne (hunused s hs)]
      | opened data => exact h.opened hunused [] (fun hk => nomatch hk) rfl
  | wrq cfg libc fn ms memory =>
    simp only [Staging.step, Desk.step]
    cases hremote : srcOpenWriteRemote cfg libc fn with
    | none => exact ⟨h, rfl⟩
    | some remote =>
      have hunused := (unused_iff h .wrq ms).2
        (hspaced .wrq ms (by simp [StagingEvent.stages, hremote]))
      cases memory with
      | true => exact h.opened hunused remote (fun _ => rfl) rfl
      | false =>
        refine h.frame fun s hs => ?_
        rw [removeFile_of_ne (hunused s hs), Function.update_of_ne (hunused s hs)]
  | read id off max => exact ⟨h, rfl⟩
  | write id data => exact h.written id data
  | commit id => exact h.released id
  | close id => exact h.released id

/-- A request keeps off if its name is new. -/
theorem Staging.Inv.keepsOff_request {e : StagingEvent}
    (huses : st.uses dir e = e.stages.map fun k => (none, stagingPath dir k.1 k.2)) :
    st.KeepsOff dir e ↔ st.Spaced e := by
  have hname : ∀ kind ms, (∀ s ∈ st.live, some s.id ≠ none → s.staging ≠ stagingPath dir kind ms) ↔
      ∀ s ∈ st.live, s.kind = kind → s.openedMs ≠ ms := by
    intro kind ms
    rw [← unused_iff h]
    exact forall₂_congr fun s _ => ⟨fun hne => hne (by simp), fun hne _ => hne⟩
  unfold Staging.KeepsOff Staging.Spaced
  rw [huses]
  constructor
  · intro hoff kind ms hstages
    rw [← hname]
    exact hoff none _ (by rw [hstages]; rfl)
  · intro hspaced who path hpath
    obtain ⟨⟨kind, ms⟩, hstages, heq⟩ := Option.map_eq_some_iff.1 hpath
    cases heq
    rw [hname]
    exact hspaced kind ms hstages

/-- Everything else keeps off: it addresses the file of its own source. -/
theorem Staging.Inv.keepsOff_own {e : StagingEvent} {id : Nat}
    (huses : st.uses dir e = (st.live.find? (·.id == id)).map fun s => (some id, s.staging)) :
    st.KeepsOff dir e := by
  intro who path hpath t ht hne heq
  rw [huses] at hpath
  obtain ⟨s, hfind, hs⟩ := Option.map_eq_some_iff.1 hpath
  cases hs
  have hid : s.id = id := by simpa using List.find?_some hfind
  rw [h.eq_of_staging ht (List.mem_of_find?_eq_some hfind) heq, hid] at hne
  exact hne rfl

/-- **What a step may touch.**  Only a request can get at the file of another source. -/
theorem Staging.Inv.keepsOff_iff (e : StagingEvent) :
    st.KeepsOff dir e ↔ st.Spaced e := by
  cases e with
  | rrq cfg libc fn ms fetch =>
    refine h.keepsOff_request ?_
    simp only [Staging.uses, StagingEvent.stages, Option.map_map]
    rfl
  | wrq cfg libc fn ms memory =>
    refine h.keepsOff_request ?_
    simp only [Staging.uses, StagingEvent.stages, Option.map_map]
    rfl
  | read id off max => exact iff_of_true (h.keepsOff_own rfl) nofun
  | write id data => exact iff_of_true (h.keepsOff_own rfl) nofun
  | commit id => exact iff_of_true (h.keepsOff_own rfl) nofun
  | close id => exact iff_of_true (h.keepsOff_own rfl) nofun

/-! ## Whole runs -/

theorem Staging.Inv.private_iff (es : List StagingEvent) :
    Private dir st es ↔ Along (Staging.step dir) Staging.Spaced st es := by
  induction es generalizing st with
  | nil => exact ⟨fun _ => trivial, fun _ => ⟨h.apart, trivial⟩⟩
  | cons e es ih =>
    constructor
    · rintro ⟨⟨-, hapart⟩, hkeeps, hrest⟩
      have hspaced := (h.keepsOff_iff e).1 hkeeps
      exact ⟨hspaced, (ih (h.step hspaced).1).1 ⟨hapart, hrest⟩⟩
    · rintro ⟨hspaced, hrest⟩
      obtain ⟨hapart, hkeeps⟩ := (ih (h.step hspaced).1).2 hrest
      exact ⟨⟨h.apart, hapart⟩, (h.keepsOff_iff e).2 hspaced, hkeeps⟩

theorem Staging.Inv.run_desk {es : List StagingEvent}
    (hes : Along (Staging.step dir) Staging.Spaced st es) :
    (run (Staging.step dir) st es).desk = run Desk.step st.desk es := by
  induction es generalizing st with
  | nil => rfl
  | cons e es ih =>
    obtain ⟨hinv, hdesk⟩ := h.step hes.1
    rw [run_cons, run_cons, ih hinv hes.2, hdesk]

end

/-- Nothing is staged; the folder may hold any files. -/
def Staging.start (files : FileOps.Disk Bytes UInt8) : Staging := ⟨files, [], 0⟩

theorem inv_start (dir : TempDir) (files : FileOps.Disk Bytes UInt8) :
    (Staging.start files).Inv dir :=
  ⟨nofun, .nil, nofun, .nil, nofun⟩

/-- A reader among data of their own. -/
def Desk.srcRead (d : Desk) (id off max : Nat) : Option Bytes :=
  (d.own.find? (fun o => o.id == id && o.kind == .rrq)).map fun o => (o.data.drop off).take max

/-- An upload among data of their own. -/
def Desk.uploads (d : Desk) (id : Nat) : Option (Bytes × Bytes) :=
  (d.own.find? (fun o => o.id == id && o.kind == .wrq)).map fun o => (o.remote, o.data)

theorem srcRead_desk (st : Staging) (id off max : Nat) :
    st.desk.srcRead id off max = st.srcRead id off max := by
  simp only [Desk.srcRead, Staging.desk, List.find?_map, Option.map_map]
  rfl

theorem uploads_desk (st : Staging) (id : Nat) : st.desk.uploads id = st.uploads id := by
  simp only [Desk.uploads, Staging.desk, List.find?_map, Option.map_map]
  rfl

/-- A server that takes uploads for FTP. -/
def ftpUploadConfig : Config := { folderConfig with allowWrqFtp := true }

def tempDir : TempDir := ⟨ascii "C:", by decide⟩

/-- An upload and a block of it. -/
def loneUpload : List StagingEvent :=
  [.wrq ftpUploadConfig folderLibc (ascii "f::1/a") 1000 true, .write 0 (ascii "mine")]

/-- Two uploads that come in the same millisecond, and a block of each. -/
def sameMillisecond : List StagingEvent :=
  [.wrq ftpUploadConfig folderLibc (ascii "f::1/a") 1000 true,
    .wrq ftpUploadConfig folderLibc (ascii "f::2/b") 1000 true,
    .write 0 (ascii "mine"), .write 1 (ascii "ours")]

end Nishro.CCore

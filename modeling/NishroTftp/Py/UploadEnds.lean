import NishroTftp.Py.UploadSteps
/-
  How an upload of the Python engine ends, and what it leaves on disk.  Both results are read off
  `Moves`.

  1. The destination changes by the rename alone.  The WORD for it, the state "done", is another
     matter: `_safe_run` puts the text of a client's ERROR into the same field.
  2. The temporary file goes away by the rename alone.  No other exit removes it, and the staging file
     of an FTP target is removed only if nothing comes between its rename and `os.remove`.
-/
namespace Nishro.Py

open Runs FileOps

/-! ## The destination -/

/-- Nothing but, as the last operation, the rename of the temporary file touches the destination. -/
def OnlyRenamed (path : Str) (ops : List (Op Str UInt8)) : Prop :=
  ∃ pre last, ops = pre ++ last ∧ (∀ op ∈ pre, path ∉ op.touches) ∧
    (last = [] ∨ last = [.rename (part path) path])

/-- The destination at every moment of an upload, on whatever disk: it changes by the rename alone;
    as long as the session is not "done" it is what it was; and then it is the blocks taken in, one
    after the other from number 1 on. -/
structure AtomicAt (path : Str) (u : Upload) : Prop where
  once : OnlyRenamed path u.ops
  kept : u.s.info.state ≠ str "done" → ∀ disk n, replay disk (u.ops.take n) path = disk path
  whole : u.s.info.state = str "done" → ∃ blocks : List Bytes,
    (∀ disk, replay disk u.ops path = some blocks.flatten) ∧
      ∀ k b, blocks[k]? = some b → (k + 1, b) ∈ u.accepted

/-- Where an upload to this path can stand: it is being received into the temporary file, it has
    stopped before the rename, or it has been renamed. -/
inductive Shape (path : Str) (u : Upload) : Prop
  | receiving {r : Receiver} (stage : u.s.stage = .receiving r path) (holds : r.Holds u.accepted)
      (tmp : ∀ disk, replay disk u.ops (part path) = some r.file)
      (kept : ∀ op ∈ u.ops, path ∉ op.touches) (state : u.s.info.state ≠ str "done")
  | stopped (stage : u.s.stage = .ended) (kept : ∀ op ∈ u.ops, path ∉ op.touches)
      (state : u.s.info.state ≠ str "done")
  | renamed {r : Receiver} {pre : List (Op Str UInt8)} (stage : u.s.stage = .ended)
      (ops : u.ops = pre ++ [.rename (part path) path]) (holds : r.Holds u.accepted)
      (tmp : ∀ disk, replay disk pre (part path) = some r.file)
      (kept : ∀ op ∈ pre, path ∉ op.touches) (state : u.s.info.state = str "done")

theorem Shape.atomicAt {path : Str} {u : Upload} (h : Shape path u) : AtomicAt path u := by
  cases h with
  | receiving stage holds tmp kept state =>
    exact ⟨⟨u.ops, [], (List.append_nil _).symm, kept, .inl rfl⟩,
      fun _ disk n => replay_take_of_not_touched kept disk n, fun h => absurd h state⟩
  | stopped stage kept state =>
    exact ⟨⟨u.ops, [], (List.append_nil _).symm, kept, .inl rfl⟩,
      fun _ disk n => replay_take_of_not_touched kept disk n, fun h => absurd h state⟩
  | @renamed r pre stage ops holds tmp kept state =>
    refine ⟨⟨pre, _, ops, kept, .inr rfl⟩, fun h => absurd state h, fun _ => ?_⟩
    obtain ⟨blocks, hfile, -, hlog⟩ := holds.blocks
    refine ⟨blocks, fun disk => ?_, hlog⟩
    rw [ops, replay_append, replay_singleton, apply_rename_dst _ (part_ne path).symm, tmp, hfile]

theorem part_not_touched {path : Str} {ops : List (Op Str UInt8)}
    (h : ∀ op ∈ ops, ∃ data, op = .append (part path) data) : ∀ op ∈ ops, path ∉ op.touches := by
  intro op hop
  obtain ⟨data, rfl⟩ := h op hop
  simpa [Op.touches] using (part_ne path).symm

theorem kept_append {path : Str} {ops ops' : List (Op Str UInt8)}
    (h : ∀ op ∈ ops, path ∉ op.touches) (h' : ∀ op ∈ ops', path ∉ op.touches) :
    ∀ op ∈ ops ++ ops', path ∉ op.touches := by
  intro op hop
  rcases List.mem_append.1 hop with hop | hop
  · exact h op hop
  · exact h' op hop

/-- What a step of the loop writes continues the temporary file. -/
theorem after_appended {r : Receiver} {path : Str} {ops : List (Op Str UInt8)}
    (h : ∀ disk, replay disk ops (part path) = some r.file) (i : Input) (disk : Disk Str UInt8) :
    replay disk (ops ++ appended path r (r.resume i).1.state) (part path) =
      some (r.resume i).1.state.file := by
  obtain ⟨bufs, hst⟩ := resume_stores r i
  rw [replay_append, appended, replay_singleton, apply_append_self, h, hst.file,
    List.drop_left, Option.map_some]

theorem shape_step {f : Fate} {path : Str} {u : Upload} {e : UploadEvent} (h : Shape path u)
    (hlocal : u.s.args.isFtpName u.s.args.request.filename = false)
    (hok : ¬ AbortedAsDone f u e) : Shape path (uploadStep f u e) := by
  cases h with
  | stopped stage kept state =>
    rw [uploadStep, stage]
    exact .stopped stage kept state
  | renamed stage ops holds tmp kept state =>
    rw [uploadStep, stage]
    exact .renamed stage ops holds tmp kept state
  | @receiving r stage holds tmp kept state =>
    have hmoves := moves (f := f) stage e
    generalize uploadStep f u e = u' at hmoves
    cases hmoves with
    | waits event on more stage' state' =>
      exact .receiving stage' (holds.resume _) (after_appended tmp _)
        (kept_append kept (part_not_touched (appended_writes path r _)))
        (fun hdone => state (state'.symm.trans hdone))
    | stops exit stage' writes state' =>
      exact .stopped stage' (kept_append kept (part_not_touched writes))
        fun hdone => hok ((state' state).1 hdone)
    | finishes event on last close replace stage' ftp own =>
      obtain ⟨rfl, hdone⟩ := own hlocal
      exact .renamed stage' rfl (holds.resume _) (after_appended tmp _)
        (kept_append kept (part_not_touched (appended_writes path r _))) hdone

/-- An ERROR that says "done" leaves a session that is done and a destination as it was. -/
theorem aborted_not_atomic {f : Fate} {path : Str} {u : Upload} {e : UploadEvent} (h : Shape path u)
    (hbad : AbortedAsDone f u e) : ¬ AtomicAt path (uploadStep f u e) := by
  intro hatomic
  obtain ⟨r, path', hstage⟩ := hbad.2.1
  cases h with
  | stopped stage kept state =>
    rw [stage] at hstage
    cases hstage
  | renamed stage ops holds tmp kept state =>
    rw [stage] at hstage
    cases hstage
  | receiving stage holds tmp kept state =>
    obtain ⟨i, err, hi, hrep, -⟩ := hbad.2.2
    have hmoves := moves (f := f) stage e
    generalize uploadStep f u e = u' at hmoves hatomic
    cases hmoves with
    | waits event on more stage' state' =>
      rw [event] at hi
      obtain rfl := Option.some.inj hi
      exact not_aborts_of_reports on err hrep
    | finishes event on last close replace stage' ftp own =>
      rw [event] at hi
      obtain rfl := Option.some.inj hi
      exact not_aborts_of_reports on err hrep
    | stops exit stage' writes state' =>
      obtain ⟨blocks, hall, -⟩ := hatomic.whole ((state' state).2 hbad)
      have hempty := hall fun _ => none
      rw [replay_of_not_touched (kept_append kept (part_not_touched writes))] at hempty
      cases hempty

theorem mkdirs_touch (path : Str) (dirs : List Str) :
    ∀ op ∈ dirs.map (Op.mkdir : Str → Op Str UInt8), path ∉ op.touches := by
  intro op hop
  obtain ⟨dir, -, rfl⟩ := List.mem_map.1 hop
  simp [Op.touches]

theorem create_touch (path : Str) :
    ∀ op ∈ [(Op.create (part path) : Op Str UInt8)], path ∉ op.touches := by
  intro op hop
  rw [List.mem_singleton.1 hop]
  simpa [Op.touches] using (part_ne path).symm

theorem replay_created (disk : Disk Str UInt8) (ops : List (Op Str UInt8)) (path : Str) :
    replay disk (ops ++ [.create path]) path = some [] := by
  rw [replay_append, replay_singleton]
  exact Function.update_self ..

theorem shape_start {a : SessionArgs} {w : World} {path : Str} (hop : a.request.opcode ≠ OP_RRQ)
    (hlocal : a.isFtpName a.request.filename = false)
    (hpath : safeJoin w.paths a.writeRoot a.request.filename = .ok path) (f : Fate) :
    Shape path (Upload.start a w f) := by
  have hname : a.uploadName = a.request.filename := by
    rw [SessionArgs.uploadName, hlocal]
    rfl
  have hsame : ∀ {neg maxRetries path'}, a.Passes (f.world a w) neg maxRetries path' →
      path' = path := by
    intro neg maxRetries path' hp
    have hjoins := hp.joins
    rw [hname] at hjoins
    exact Except.ok.inj (hjoins.symm.trans hpath)
  have hstarts := starts hop w f
  generalize Upload.start a w f = u at hstarts
  cases hstarts with
  | refused no stage state => exact .stopped stage (fun op hop => by cases hop) state
  | failed passes fails stage state => exact .stopped stage (mkdirs_touch path _) state
  | @cancelled s neg maxRetries path' created passes opens cancel stage state =>
    obtain rfl := hsame passes
    refine .stopped stage (kept_append (mkdirs_touch path' _) ?_) state
    cases created with
    | true => exact create_touch path'
    | false => exact fun op hop => by cases hop
  | @opened s neg maxRetries path' passes opens on stage state =>
    obtain rfl := hsame passes
    exact .receiving stage (.new ..) (fun disk => replay_created disk _ _)
      (kept_append (mkdirs_touch path' _) (create_touch path')) state

/-- A write request for the file `f`. -/
def writeF : SessionArgs := bareArgs ⟨OP_WRQ, str "f", str "octet", []⟩

/-- The temporary files of an upload: `<destination>.part`, and the staging file of an FTP target. -/
def SessionArgs.temporaries (a : SessionArgs) (w : World) : List Str :=
  match a.opensAt w with
  | none => []
  | some path => part path :: if a.isFtpName a.request.filename then [path] else []

/-- Once the session has ended, none of these files that it has made is on any disk. -/
def CleanedUp (tmp : List Str) (u : Upload) : Prop :=
  u.s.stage = .ended → ∀ p ∈ tmp, (∃ op ∈ u.ops, p ∈ op.makes) → ∀ disk, replay disk u.ops p = none

/-- The task is not cancelled in an open that has made the temporary file. -/
def OpensCleanly (a : SessionArgs) (w : World) (f : Fate) : Prop :=
  a.opensAt (f.world a w) ≠ none → w.openTmp = none → f.cancelOpen ≠ some true

/-- The wait ends with a packet or a silence that does not break the upload off; and if it is the
    last block, the file is closed and renamed, and an FTP target is uploaded (or fails to be,
    without a cancellation) and removed. -/
def EndsCleanly (f : Fate) (u : Upload) (e : UploadEvent) : Prop :=
  ∀ r path, u.s.stage = .receiving r path → ∃ i, e = .input i ∧ ¬ r.Aborts i ∧
    (r.IsLast i → f.cancelClose = false ∧ u.s.world.replace = none ∧
      (u.s.args.isFtpName u.s.args.request.filename = true →
        f.cancelUpload = false ∧ f.removes = true))

/-- Where an upload can stand, in the eyes of its temporary files. -/
inductive Tidy (a : SessionArgs) (w : World) (path : Str) (u : Upload) : Prop
  | receiving {r : Receiver} (stage : u.s.stage = .receiving r path)
      (made : .create (part path) ∈ u.ops)
      (tmp : ∀ disk, replay disk u.ops (part path) = some r.file)
  | ended (stage : u.s.stage = .ended) (clean : CleanedUp (a.temporaries w) u)

theorem Tidy.cleanedUp {a : SessionArgs} {w : World} {path : Str} {u : Upload}
    (h : Tidy a w path u) : CleanedUp (a.temporaries w) u := by
  cases h with
  | receiving stage made tmp =>
    intro hended
    rw [stage] at hended
    cases hended
  | ended stage clean => exact clean

/-- Writing to a file does not take it away. -/
theorem replay_writes {path : Str} {ops ops' : List (Op Str UInt8)} {disk : Disk Str UInt8}
    (h : replay disk ops (part path) ≠ none)
    (hw : ∀ op ∈ ops', ∃ data, op = .append (part path) data) :
    replay disk (ops ++ ops') (part path) ≠ none := by
  induction ops' using List.reverseRecOn with
  | nil => rwa [List.append_nil]
  | append_singleton ops' op ih =>
    obtain ⟨data, rfl⟩ := hw op (by simp)
    have hprev := ih fun o ho => hw o (by simp [ho])
    rw [← List.append_assoc, replay_append, replay_singleton, apply_append_self]
    simpa using hprev

section Leftovers

variable {a : SessionArgs} {w : World} {f : Fate} {path : Str} {u : Upload} {e : UploadEvent}
  (hopens : a.opensAt w = some path) (hargs : u.s.args = a) (h : Tidy a w path u)
include hopens hargs h

theorem tidy_step (hok : EndsCleanly f u e) : Tidy a w path (uploadStep f u e) := by
  cases h with
  | ended stage clean =>
    rw [uploadStep, stage]
    exact .ended stage clean
  | @receiving r stage made tmp =>
    obtain ⟨i, rfl, hon, hlast⟩ := hok r path stage
    have hmoves := moves (f := f) stage (.input i)
    generalize uploadStep f u (.input i) = u' at hmoves
    cases hmoves with
    | waits event on more stage' state' =>
      exact .receiving stage' (List.mem_append_left _ made) (after_appended tmp _)
    | stops exit stage' writes state' =>
      exfalso
      rcases exit i rfl with hoff | ⟨hl, hc⟩
      · exact hon hoff
      · obtain ⟨hclose, hreplace, -⟩ := hlast hl
        rcases hc with hc | hc
        · rw [hclose] at hc
          cases hc
        · exact hc hreplace
    | @finishes s i' ops event on last close replace stage' ftp own =>
      refine .ended stage' fun _ p hp _ disk => ?_
      obtain rfl := UploadEvent.input.inj event
      have hrest := (hlast last).2.2
      rw [hargs] at hrest ftp own
      rw [SessionArgs.temporaries, hopens] at hp
      cases hftp : a.isFtpName a.request.filename with
      | false =>
        obtain ⟨rfl, -⟩ := own hftp
        simp only [hftp, Bool.false_eq_true, if_false, List.mem_singleton] at hp
        rw [hp, replay_append, replay_singleton]
        exact apply_rename_src ..
      | true =>
        have hops := ftp hftp
        rw [if_pos (hrest hftp)] at hops
        subst hops
        simp only [hftp, if_true, List.mem_cons, List.not_mem_nil, or_false] at hp
        rw [replay_append]
        rcases hp with rfl | rfl
        · show (Op.remove path).apply ((Op.rename (part path) path).apply _) (part path) = none
          rw [apply_of_not_touched (by simpa [Op.touches] using part_ne path)]
          exact apply_rename_src ..
        · exact Function.update_self ..

theorem leftover_step (hbad : ¬ EndsCleanly f u e) :
    ¬ CleanedUp (a.temporaries w) (uploadStep f u e) := by
  cases h with
  | ended stage clean =>
    refine absurd (fun r path' hst => ?_) hbad
    rw [stage] at hst
    cases hst
  | @receiving r stage made tmp =>
    intro hclean
    have hmoves := moves (f := f) stage e
    generalize uploadStep f u e = u' at hmoves hclean
    have hends : (∃ i, e = .input i ∧ ¬ r.Aborts i ∧ (r.IsLast i → f.cancelClose = false ∧
        u.s.world.replace = none ∧ (u.s.args.isFtpName u.s.args.request.filename = true →
          f.cancelUpload = false ∧ f.removes = true))) → EndsCleanly f u e := by
      intro hex r' path' hst
      rw [stage] at hst
      obtain ⟨rfl, rfl⟩ := Stage.receiving.inj hst
      exact hex
    cases hmoves with
    | waits event on more stage' state' =>
      exact hbad (hends ⟨_, event, on, fun hl => absurd hl more⟩)
    | stops exit stage' writes state' =>
      have hpart : part path ∈ a.temporaries w := by
        rw [SessionArgs.temporaries, hopens]
        exact List.mem_cons_self
      have hnone := hclean stage' (part path) hpart
        ⟨_, List.mem_append_left _ made, List.mem_singleton.2 rfl⟩ fun _ => none
      refine replay_writes ?_ writes hnone
      rw [tmp]
      exact Option.some_ne_none _
    | @finishes s i ops event on last close replace stage' ftp own =>
      cases hftp : u.s.args.isFtpName u.s.args.request.filename with
      | false =>
        refine hbad (hends ⟨i, event, on, fun _ => ⟨close, replace, fun hf => ?_⟩⟩)
        rw [hftp] at hf
        cases hf
      | true =>
        have hnot : ¬ (f.cancelUpload = false ∧ f.removes = true) := fun hgood =>
          hbad (hends ⟨i, event, on, fun _ => ⟨close, replace, fun _ => hgood⟩⟩)
        have hops := ftp hftp
        rw [if_neg hnot] at hops
        subst hops
        have hstaging : path ∈ a.temporaries w := by
          rw [hargs] at hftp
          simp [SessionArgs.temporaries, hopens, hftp]
        have hnone := hclean stage' path hstaging
          ⟨.rename (part path) path, by simp, List.mem_singleton.2 rfl⟩ fun _ => none
        rw [replay_append, replay_singleton, apply_rename_dst _ (part_ne path).symm,
          after_appended tmp] at hnone
        cases hnone

end Leftovers

/-- A request that passes opens its file; any other does nothing on disk. -/
theorem tidy_start {a : SessionArgs} {w : World} (hop : a.request.opcode ≠ OP_RRQ) (f : Fate)
    (hclean : OpensCleanly a w f) :
    (∃ path, a.opensAt (f.world a w) = some path ∧
      Tidy a (f.world a w) path (Upload.start a w f)) ∨
    (a.opensAt (f.world a w) = none ∧ (Upload.start a w f).s.stage = .ended) := by
  have hmkdirs : ∀ (dirs : List Str) (p : Str),
      ¬ ∃ op ∈ dirs.map (Op.mkdir : Str → Op Str UInt8), p ∈ op.makes := by
    rintro dirs p ⟨op, hop', hp⟩
    obtain ⟨dir, -, rfl⟩ := List.mem_map.1 hop'
    cases hp
  have hstarts := starts hop w f
  generalize Upload.start a w f = u at hstarts
  cases hstarts with
  | refused no stage state => exact .inr ⟨opensAt_refused hop no, stage⟩
  | @failed s neg maxRetries path what passes fails stage state =>
    exact .inl ⟨path, opensAt_passes hop passes,
      .ended stage fun _ p _ hmade => absurd hmade (hmkdirs _ p)⟩
  | @cancelled s neg maxRetries path created passes opens cancel stage state =>
    have hopens := opensAt_passes hop passes
    have hnot : created = false := by
      refine Bool.eq_false_iff.2 fun htrue => ?_
      refine hclean (by rw [hopens]; exact Option.some_ne_none _) opens ?_
      rw [cancel, htrue]
    subst hnot
    refine .inl ⟨path, hopens, .ended stage fun _ p _ hmade => ?_⟩
    rw [if_neg Bool.false_ne_true, List.append_nil] at hmade
    exact absurd hmade (hmkdirs _ p)
  | @opened s neg maxRetries path passes opens on stage state =>
    exact .inl ⟨path, opensAt_passes hop passes, .receiving stage (by simp)
      fun disk => replay_created disk _ _⟩

/-- Cancelled in the open, with the file made. -/
theorem leftover_start {a : SessionArgs} {w : World} (hop : a.request.opcode ≠ OP_RRQ) (f : Fate)
    (hbad : ¬ OpensCleanly a w f) :
    ¬ CleanedUp (a.temporaries (f.world a w)) (Upload.start a w f) := by
  intro hclean
  have hsome : a.opensAt (f.world a w) ≠ none ∧ w.openTmp = none ∧ f.cancelOpen = some true := by
    simpa only [OpensCleanly, Classical.not_imp, not_not] using hbad
  obtain ⟨hopens, htmp, hcancel⟩ := hsome
  have hstarts := starts hop w f
  generalize Upload.start a w f = u at hstarts hclean
  cases hstarts with
  | refused no stage state => exact hopens (opensAt_refused hop no)
  | failed passes fails stage state =>
    rw [htmp] at fails
    cases fails
  | opened passes opens on stage state =>
    rw [hcancel] at on
    cases on
  | @cancelled s neg maxRetries path created passes opens cancel stage state =>
    obtain rfl := Option.some.inj (cancel.symm.trans hcancel)
    have hpart : part path ∈ a.temporaries (f.world a w) := by
      rw [SessionArgs.temporaries, opensAt_passes hop passes]
      exact List.mem_cons_self
    have hnone := hclean stage (part path) hpart
      ⟨.create (part path), by simp, List.mem_singleton.2 rfl⟩ fun _ => none
    simp only [if_true] at hnone
    rw [replay_created] at hnone
    cases hnone

/-- **No temporary file outlives an upload** exactly if the task is not cancelled in the open and
    every wait ends cleanly. -/
theorem temporaries_removed_iff {a : SessionArgs} (hop : a.request.opcode ≠ OP_RRQ) (w : World)
    (f : Fate) (es : List UploadEvent) :
    Always (uploadStep f) (CleanedUp (a.temporaries (f.world a w))) (Upload.start a w f) es ↔
      OpensCleanly a w f ∧ Along (uploadStep f) (EndsCleanly f) (Upload.start a w f) es := by
  by_cases hclean : OpensCleanly a w f
  swap
  · exact iff_of_false (fun h => leftover_start hop f hclean h.head) fun h => hclean h.1
  rw [and_iff_right hclean]
  have hargs : (Upload.start a w f).s.args = a := (upload_same a w f).args
  rcases tidy_start hop f hclean with ⟨path, hopens, htidy⟩ | ⟨hrefused, hended⟩
  · let I : Upload → Prop := fun u => Tidy a (f.world a w) path u ∧ u.s.args = a
    refine always_iff_along (I := I) (fun u h => h.1.cleanedUp) ?_ ?_ es ⟨htidy, hargs⟩
    · rintro u e ⟨ht, ha⟩ hok
      exact ⟨tidy_step hopens ha ht hok, (uploadStep_same f u e).args.trans ha⟩
    · rintro u e ⟨ht, ha⟩ hbad
      exact leftover_step hopens ha ht hbad
  · -- nothing was opened, and an ended session does nothing more
    let I : Upload → Prop := fun u => u.s.stage = .ended
    refine always_iff_along (I := I) (fun u h _ p hp => ?_) (fun u e h _ => ?_)
      (fun u e h hbad => ?_) es hended
    · rw [SessionArgs.temporaries, hrefused] at hp
      cases hp
    · show (uploadStep f u e).s.stage = .ended
      rw [uploadStep, h]
      exact h
    · refine absurd (fun r path hst => ?_) hbad
      rw [h] at hst
      cases hst

/-- The last block comes, and nothing is left. -/
theorem one_block_cleaned :
    Always (uploadStep leftAlone) (CleanedUp (writeF.temporaries
        (leftAlone.world writeF (obligingWorld none))))
      (Upload.start writeF (obligingWorld none) leftAlone)
      [.input (.packet (packData 1 [7]) none)] := by
  refine (temporaries_removed_iff (by decide) _ leftAlone _).2
    ⟨fun _ _ => nofun, fun r path hr => ⟨_, rfl, ?_, fun _ => ⟨rfl, rfl, fun _ => ⟨rfl, rfl⟩⟩⟩,
      trivial⟩
  obtain ⟨rfl, -⟩ := Stage.receiving.inj hr
  rintro (h | ⟨-, e, h⟩ | ⟨payload, -, hcap | hroll | ⟨n, what, h, -⟩⟩)
  · cases h
  · cases h
  · exact hcap.1 rfl
  · cases hroll.1
  · cases h

/-- A client that falls silent: after six timeouts the session is over, and `f.part` stays. -/
theorem silence_leaves_part :
    ¬ Always (uploadStep leftAlone) (CleanedUp (writeF.temporaries
        (leftAlone.world writeF (obligingWorld none))))
      (Upload.start writeF (obligingWorld none) leftAlone)
      (List.replicate 6 (.input .timeout)) := by
  intro h
  have hnone := h.last rfl (str "/w/f.part") (by decide)
    ⟨.create (str "/w/f.part"), by decide, by decide⟩ fun _ => none
  cases hnone

end Nishro.Py

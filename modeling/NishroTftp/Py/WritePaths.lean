import NishroTftp.Lib.NtPath
import NishroTftp.Py.UploadSteps
/-
  Where uploads go.

  `_safe_join` compares texts: the resolved path has to BE the resolved root, or to begin with it and
  a separator.  The first of the two is one case too many, since the temporary file is
  `<destination>.part` and the suffix is put on after the check: for a name that resolves to the root
  itself that is a file beside the root.

  The functions of `os.path` are those of the world, so the results hold of every system; the runs on
  fixed names are under Windows rules, the only ones `main.py` starts under.
-/
namespace Nishro.Py

open Runs FileOps

/-! ## Inside the root -/

/-- Strictly below this directory: its path, a separator, and something more. -/
def StrictlyInside (paths : PathOps) (dir p : Str) : Prop :=
  ∃ rest, rest ≠ [] ∧ p = dir ++ paths.sep :: rest

/-- The name denotes the root directory: as it is, or with a separator after it. -/
def DenotesRoot (paths : PathOps) (root name : Str) : Prop :=
  paths.abspath (paths.join root (cleaned name)) = paths.abspath root ∨
    paths.abspath (paths.join root (cleaned name)) = paths.abspath root ++ [paths.sep]

theorem safeJoin_ok {paths : PathOps} {root name path : Str}
    (h : safeJoin paths root name = .ok path) :
    path = paths.abspath (paths.join root (cleaned name)) ∧
      (path = paths.abspath root ∨ ∃ rest, path = paths.abspath root ++ paths.sep :: rest) := by
  unfold safeJoin at h
  split at h
  · cases h
  dsimp only at h
  split at h
  · next hin =>
    obtain rfl := Except.ok.inj h
    refine ⟨rfl, hin.imp_right fun hp => ?_⟩
    obtain ⟨rest, hrest⟩ := List.isPrefixOf_iff_prefix.1 hp
    exact ⟨rest, by rw [← hrest, List.append_assoc]; rfl⟩
  · cases h

/-- What has been joined lies strictly inside exactly if it is not the root. -/
theorem inside_iff {paths : PathOps} {root name path : Str}
    (h : safeJoin paths root name = .ok path) :
    (StrictlyInside paths (paths.abspath root) path ∧
      StrictlyInside paths (paths.abspath root) (part path)) ↔ ¬ DenotesRoot paths root name := by
  obtain ⟨hpath, hin⟩ := safeJoin_ok h
  unfold DenotesRoot
  rw [← hpath]
  constructor
  · rintro ⟨⟨rest, hrest, heq⟩, -⟩ (hroot | hroot)
    · have := congrArg List.length (heq.symm.trans hroot)
      simp at this
    · have htail := List.append_cancel_left (heq.symm.trans hroot)
      exact hrest (List.cons.inj htail).2
  · intro hnot
    obtain ⟨hne, hne'⟩ := not_or.1 hnot
    obtain ⟨rest, hrest⟩ := hin.resolve_left hne
    have hnil : rest ≠ [] := by
      rintro rfl
      exact hne' hrest
    refine ⟨⟨rest, hnil, hrest⟩, rest ++ str ".part", by simp [hnil], ?_⟩
    rw [part, hrest, List.append_assoc]
    rfl

/-! ## What an upload touches -/

/-- Only these two files. -/
def Touches (path : Str) (ops : List (Op Str UInt8)) : Prop :=
  ∀ op ∈ ops, ∀ p ∈ op.touches, p = path ∨ p = part path

theorem Touches.append {path : Str} {ops ops' : List (Op Str UInt8)} (h : Touches path ops)
    (h' : Touches path ops') : Touches path (ops ++ ops') := by
  intro op hop
  rcases List.mem_append.1 hop with hop | hop
  · exact h op hop
  · exact h' op hop

theorem touches_writes {path : Str} {ops : List (Op Str UInt8)}
    (h : ∀ op ∈ ops, ∃ data, op = .append (part path) data) : Touches path ops := by
  intro op hop p hp
  obtain ⟨data, rfl⟩ := h op hop
  exact .inr (List.mem_singleton.1 hp)

/-- The files of an upload that is being received at this path, or has ended. -/
def Confined (path : Str) (u : Upload) : Prop :=
  Touches path u.ops ∧ (u.s.stage = .ended ∨ ∃ r, u.s.stage = .receiving r path)

theorem Confined.step {f : Fate} {path : Str} {u : Upload} (h : Confined path u) (e : UploadEvent) :
    Confined path (uploadStep f u e) := by
  obtain ⟨htouch, hstage | ⟨r, hstage⟩⟩ := h
  · rw [uploadStep, hstage]
    exact ⟨htouch, .inl hstage⟩
  have hmoves := moves (f := f) hstage e
  generalize uploadStep f u e = u' at hmoves
  cases hmoves with
  | waits event on more stage state =>
    exact ⟨htouch.append (touches_writes (appended_writes path r _)), .inr ⟨_, stage⟩⟩
  | stops exit stage writes state => exact ⟨htouch.append (touches_writes writes), .inl stage⟩
  | @finishes s i ops event on last close replace stage ftp own =>
    refine ⟨(htouch.append (touches_writes (appended_writes path r _))).append ?_, .inl stage⟩
    have hops : ops = [] ∨ ops = [.remove path] := by
      cases hftp : u.s.args.isFtpName u.s.args.request.filename with
      | false => exact .inl (own hftp).1
      | true =>
        rw [ftp hftp]
        split
        · exact .inr rfl
        · exact .inl rfl
    intro op hop p hp
    rcases List.mem_cons.1 hop with rfl | hop
    · have : p = part path ∨ p = path := by simpa [Op.touches] using hp
      exact this.symm
    · rcases hops with rfl | rfl
      · cases hop
      · rw [List.mem_singleton.1 hop] at hp
        exact .inl (List.mem_singleton.1 hp)

theorem Confined.run {f : Fate} {path : Str} {u : Upload} (h : Confined path u)
    (es : List UploadEvent) : Confined path (run (uploadStep f) u es) := by
  induction es generalizing u with
  | nil => exact h
  | cons e es ih => exact ih (h.step e)

/-! ## Containment -/

/-- An upload that is received writes strictly inside the root, the temporary file included, and
    touches nothing else; any other request is answered with an ERROR and makes nothing. -/
structure KeepsInside (a : SessionArgs) (w : World) (f : Fate) : Prop where
  inside : ∀ r path, (Upload.start a w f).s.stage = .receiving r path →
    StrictlyInside w.paths (w.paths.abspath a.writeRoot) path ∧
    StrictlyInside w.paths (w.paths.abspath a.writeRoot) (part path) ∧
    ∀ es, Touches path (run (uploadStep f) (Upload.start a w f) es).ops
  rejected : (∀ r path, (Upload.start a w f).s.stage ≠ .receiving r path) →
    (Upload.start a w f).ops = [] ∧
      ∃ e, Effect.send (packError e) ∈ (Session.start a (f.world a w)).2

/-- A request that gets as far as its file: the file is opened, and the name does not denote the root;
    or it cannot be opened, and no directory has been made for it. -/
def NamesFile (a : SessionArgs) (w : World) (f : Fate) : Prop :=
  ∀ path, a.opensAt (f.world a w) = some path →
    (w.openTmp = none → ¬ DenotesRoot w.paths a.writeRoot a.uploadName) ∧
    (w.openTmp ≠ none → f.made path = [])

theorem fail_sends (s : Session) (e : Exc) : ∃ err, Effect.send (packError err) ∈ (s.fail e).2 := by
  cases e with
  | other what => exact ⟨_, List.mem_append_left _ List.mem_cons_self⟩
  | tftp e =>
    simp only [Session.fail]
    split
    · exact ⟨e, List.mem_append_left _ List.mem_cons_self⟩
    · exact ⟨e, List.mem_cons_self⟩

/-- A write request that does not come to its first wait is answered with an ERROR. -/
theorem start_ended_sends {a : SessionArgs} (hop : a.request.opcode ≠ OP_RRQ) {w : World}
    (h : (Session.start a w).1.stage = .ended) :
    ∃ e, Effect.send (packError e) ∈ (Session.start a w).2 := by
  rw [start_wrq hop w] at h ⊢
  generalize a.openWrq w (Session.new a w).info = r at h
  obtain ⟨info, fx, e | ⟨r, path⟩⟩ := r
  · obtain ⟨err, herr⟩ := fail_sends { Session.new a w with info := info } e
    exact ⟨err, List.mem_append_right _ (List.mem_append_right _ herr)⟩
  · cases h

/-- **WRQ files and the write root.**  Uploads stay strictly inside the root, and refused ones make
    nothing, exactly if the name of one that is opened does not denote the root and no directory is
    made for one that cannot be opened. -/
theorem uploads_inside_iff {a : SessionArgs} (hop : a.request.opcode ≠ OP_RRQ) (w : World) {f : Fate}
    (hopen : f.cancelOpen = none) : KeepsInside a w f ↔ NamesFile a w f := by
  have hstarts := starts hop w f
  have hstage : (Upload.start a w f).s.stage = (Session.start a (f.world a w)).1.stage := by
    have := congrArg Session.stage (upload_start_session a w hopen)
    exact this
  generalize hu : Upload.start a w f = u at hstarts hstage
  have hended : u.s.stage = .ended → ∀ r path, u.s.stage ≠ .receiving r path := by
    intro h r path h'
    rw [h] at h'
    cases h'
  have hsends : u.s.stage = .ended →
      ∃ e, Effect.send (packError e) ∈ (Session.start a (f.world a w)).2 :=
    fun h => start_ended_sends hop (hstage.symm.trans h)
  cases hstarts with
  | refused no stage state =>
    refine iff_of_true ⟨fun r path h => ?_, fun _ => ?_⟩ fun path hpath => ?_
    · rw [hu] at h
      exact absurd h (hended stage r path)
    · rw [hu]
      exact ⟨rfl, hsends stage⟩
    · rw [opensAt_refused hop no] at hpath
      cases hpath
  | cancelled passes opens cancel stage state =>
    rw [hopen] at cancel
    cases cancel
  | @failed s neg maxRetries path what passes fails stage state =>
    have hat := opensAt_passes hop passes
    constructor
    · intro h path' hpath'
      obtain rfl := Option.some.inj (hat.symm.trans hpath')
      refine ⟨fun hnone => (nomatch fails.symm.trans hnone), fun _ => ?_⟩
      have hops := (h.rejected (by rw [hu]; exact hended stage)).1
      rw [hu] at hops
      exact List.map_eq_nil_iff.1 hops
    · intro h
      refine ⟨fun r path' hr => ?_, fun _ => ?_⟩
      · rw [hu] at hr
        exact absurd hr (hended stage r path')
      · rw [hu]
        refine ⟨?_, hsends stage⟩
        rw [(h path hat).2 (by rw [fails]; exact Option.some_ne_none _)]
        rfl
  | @opened s neg maxRetries path passes opens on stage state =>
    have hat := opensAt_passes hop passes
    have hiff := inside_iff passes.joins
    have hconf : Confined path (Upload.start a w f) := by
      rw [hu]
      refine ⟨fun op hop' p hp => ?_, .inr ⟨_, stage⟩⟩
      rcases List.mem_append.1 hop' with hop' | hop'
      · obtain ⟨dir, -, rfl⟩ := List.mem_map.1 hop'
        cases hp
      · rw [List.mem_singleton.1 hop'] at hp
        exact .inr (List.mem_singleton.1 hp)
    constructor
    · intro h path' hpath'
      refine ⟨fun _ => hiff.1 ?_, fun hne => absurd opens hne⟩
      have hin := h.inside _ path (by rw [hu]; exact stage)
      exact ⟨hin.1, hin.2.1⟩
    · intro h
      have hin := hiff.2 ((h path hat).1 opens)
      refine ⟨fun r path' hr => ?_, fun hno => ?_⟩
      · rw [hu] at hr
        obtain ⟨-, rfl⟩ := Stage.receiving.inj (stage.symm.trans hr)
        exact ⟨hin.1, hin.2, fun es => (hconf.run es).1⟩
      · rw [hu] at hno
        exact absurd stage (hno _ path)

/-- The rules of Windows, in this working directory. -/
def windowsPaths (cwd : Str) : PathOps := ⟨NtPath.join, NtPath.abspath cwd, NtPath.sep⟩

def windows : World := { obligingWorld none with paths := windowsPaths (str "C:\\srv") }

/-- A write request for this name, the root being `C:\w`. -/
def writeTo (name : String) : SessionArgs :=
  { bareArgs ⟨OP_WRQ, str name, str "octet", []⟩ with writeRoot := str "C:\\w" }

theorem plain_name_inside : KeepsInside (writeTo "a/f") windows leftAlone := by
  refine (uploads_inside_iff (by decide) windows rfl).2 fun path hpath => ⟨fun _ => ?_, fun h => ?_⟩
  · unfold DenotesRoot
    decide
  · exact absurd rfl h

/-- A file named `.` is received into `C:\w.part`, beside the root. -/
theorem dot_escapes_root :
    .create (str "C:\\w.part") ∈ (Upload.start (writeTo ".") windows leftAlone).ops ∧
    ¬ KeepsInside (writeTo ".") windows leftAlone := by
  refine ⟨by decide, fun h => ?_⟩
  obtain ⟨-, ⟨rest, hrest, heq⟩, -⟩ := h.inside _ (str "C:\\w") rfl
  -- the fifth character is the dot of the suffix, not a separator
  have hfifth : some '.' = some NtPath.sep := congrArg (fun t : Str => t[4]?) heq
  revert hfifth
  decide

end Nishro.Py

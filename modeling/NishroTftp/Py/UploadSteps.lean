import NishroTftp.Py.UploadDisk
/-
  What a step of an upload can do.

  1. `Starts`: the request is refused with a text of the engine's own, the file cannot be opened, the
     task is cancelled over it, or the upload is being received.
  2. `Exits`: on which packets and silences the loop of `_recv_file` goes on, returns or raises.
  3. `Moves`: a step goes on with more in the temporary file, stops with the destination untouched, or
     finishes with the rename.

  An upload that nobody cancels is the session of `Session.run` (`upload_run_session`).
-/
namespace Nishro.Py

open Runs FileOps
open Utf8 (text)

/-! ## The start of an upload -/

/-- Every check of `_run_wrq` before the file is opened. -/
structure SessionArgs.Passes (a : SessionArgs) (w : World) (neg : Negotiated) (maxRetries : Int)
    (path : Str) : Prop where
  writes : a.enableWrites = true
  mode : modeSupported a.request.mode = true
  ftp : ¬ (a.isFtpName a.request.filename = true ∧ a.allowWrqFtp = false)
  joins : safeJoin w.paths a.writeRoot a.uploadName = .ok path
  lock : w.lock = none
  settled : negotiate a.request.options a.cfg none false = .ok neg
  fits : a.checkAdvertised w neg = none
  retries : intAt a.cfg (text "max_retries") TFTP_MAX_RETRIES_DEFAULT = .ok maxRetries

/-- The text an exception leaves in the state of the session. -/
def Exc.text : Exc → Str
  | .tftp e => e.message
  | .other what => str "server error: " ++ what

/-- The engine's own texts are not the word "done". -/
def Exc.Ours (e : Exc) : Prop := e.text.head? ≠ some 'd'

theorem ours_other (what : Str) : (Exc.other what).Ours := by
  simp [Exc.Ours, Exc.text, str]

theorem Exc.Ours.ne_done {e : Exc} (h : e.Ours) : e.text ≠ str "done" := by
  intro heq
  exact h (by rw [heq]; rfl)

theorem safeJoin_ours {paths : PathOps} {root filename : Str} {e : TFTPError}
    (h : safeJoin paths root filename = .error e) : (Exc.tftp e).Ours := by
  unfold safeJoin at h
  split at h
  · cases h
    simp [Exc.Ours, Exc.text, str]
  · dsimp only at h
    split at h <;> cases h
    simp [Exc.Ours, Exc.text, str]

variable {neg : Negotiated}

theorem checkAdvertised_ours {a : SessionArgs} {w : World} {e : Exc}
    (h : a.checkAdvertised w neg = some e) : e.Ours := by
  unfold SessionArgs.checkAdvertised at h
  split at h
  · cases h
  split at h
  · cases h
    simp [Exc.Ours, Exc.text, advertisedTooLarge, str]
  split at h
  · cases h
  · split at h
    · cases h
      exact ours_other _
    · split at h <;> cases h
      simp [Exc.Ours, Exc.text, needsRollover, str]

/-- A request that passes is answered, and the file is opened or not. -/
theorem SessionArgs.Passes.openWrq {a : SessionArgs} {w : World} {maxRetries : Int} {path : Str}
    (h : a.Passes w neg maxRetries path) (info : SessionInfo) :
    ∃ info', info'.state = str "receiving" ∧ a.openWrq w info = (info', send (wrqReply neg),
      match w.openTmp with
      | some what => .error (.other what)
      | none => .ok (Receiver.new neg.blksize neg.windowsize maxRetries a.maxWrqSize
          a.allowRollover, path)) := by
  simp only [SessionArgs.openWrq, h.writes, h.mode, if_neg h.ftp, h.joins, h.lock, h.settled,
    SessionArgs.settleWrq, h.fits, h.retries, Bool.true_eq_false, if_false]
  exact ⟨_, rfl, rfl⟩

/-- Any other is refused, with a text of the engine's own. -/
theorem openWrq_refused {a : SessionArgs} {w : World} {f : Fate}
    (h : ∀ neg maxRetries path, ¬ a.Passes (f.world a w) neg maxRetries path)
    (info : SessionInfo) : ∃ info' fx e, e.Ours ∧
      a.openWrq (f.world a w) info = (info', fx, .error e) := by
  simp only [SessionArgs.openWrq]
  split
  · exact ⟨_, _, _, by simp [Exc.Ours, Exc.text, writesDisabled, str], rfl⟩
  rename_i hwrites
  split
  · exact ⟨_, _, _, by simp [Exc.Ours, Exc.text, unsupportedMode, str], rfl⟩
  rename_i hmode
  split
  · exact ⟨_, _, _, by simp [Exc.Ours, Exc.text, ftpWritesDisabled, str], rfl⟩
  rename_i hftp
  split
  · rename_i hjoin
    exact ⟨_, _, _, safeJoin_ours hjoin, rfl⟩
  rename_i path hjoin
  split
  · rename_i busy hlock
    simp only [Fate.world] at hlock
    split at hlock
    · cases hlock
      exact ⟨_, _, _, by simp [Exc.Ours, Exc.text, fileBusy, str], rfl⟩
    · cases hlock
  · rename_i hlock
    split
    · exact ⟨_, _, _, ours_other _, rfl⟩
    rename_i neg hneg
    simp only [SessionArgs.settleWrq]
    split
    · rename_i e hcheck
      exact ⟨_, _, _, checkAdvertised_ours hcheck, rfl⟩
    rename_i hcheck
    split
    · exact ⟨_, _, _, ours_other _, rfl⟩
    · rename_i maxRetries hretries
      exact absurd ⟨Bool.eq_true_of_not_eq_false hwrites,
        Bool.eq_true_of_not_eq_false hmode, hftp, hjoin, hlock, hneg, hcheck, hretries⟩
        (h neg maxRetries path)

theorem fail_stage (s : Session) (e : Exc) : (s.fail e).1.stage = .ended := by
  cases e with
  | tftp e =>
    simp only [Session.fail]
    split <;> rfl
  | other what => rfl

theorem fail_state (s : Session) (e : Exc) : (s.fail e).1.info.state = e.text := by
  cases e with
  | tftp e =>
    simp only [Session.fail]
    split <;> rfl
  | other what => rfl

/-- What the start of an upload can come to. -/
inductive Starts (a : SessionArgs) (w : World) (f : Fate) : Upload → Prop
  | refused {s : Session} (no : ∀ neg maxRetries path, ¬ a.Passes (f.world a w) neg maxRetries path)
      (stage : s.stage = .ended) (state : s.info.state ≠ str "done") : Starts a w f ⟨s, [], []⟩
  | failed {s : Session} {neg : Negotiated} {maxRetries : Int} {path what : Str}
      (passes : a.Passes (f.world a w) neg maxRetries path) (fails : w.openTmp = some what)
      (stage : s.stage = .ended) (state : s.info.state ≠ str "done") :
      Starts a w f ⟨s, (f.made path).map .mkdir, []⟩
  | cancelled {s : Session} {neg : Negotiated} {maxRetries : Int} {path : Str} {created : Bool}
      (passes : a.Passes (f.world a w) neg maxRetries path) (opens : w.openTmp = none)
      (cancel : f.cancelOpen = some created)
      (stage : s.stage = .ended) (state : s.info.state ≠ str "done") :
      Starts a w f ⟨s, (f.made path).map .mkdir ++ if created then [.create (part path)] else [], []⟩
  | opened {s : Session} {neg : Negotiated} {maxRetries : Int} {path : Str}
      (passes : a.Passes (f.world a w) neg maxRetries path) (opens : w.openTmp = none)
      (on : f.cancelOpen = none)
      (stage : s.stage = .receiving (Receiver.new neg.blksize neg.windowsize maxRetries a.maxWrqSize
        a.allowRollover) path)
      (state : s.info.state ≠ str "done") :
      Starts a w f ⟨s, (f.made path).map .mkdir ++ [.create (part path)], []⟩

section Start

variable {a : SessionArgs} {w : World} {f : Fate} (hop : a.request.opcode ≠ OP_RRQ)
include hop

theorem start_wrq (w : World) : Session.start a w = after [.bump .tftpWrq 1]
    (match a.openWrq w (Session.new a w).info with
      | (info, fx, .error e) => after fx ({ Session.new a w with info }.fail e)
      | (info, fx, .ok (r, path)) =>
        ({ Session.new a w with info, stage := .receiving r path }, fx)) := by
  rw [Session.start, if_neg hop]
  rfl

/-- The session itself, if the request passes. -/
theorem start_passes {maxRetries : Int} {path : Str} (h : a.Passes w neg maxRetries path) :
    (∀ what, w.openTmp = some what → (Session.start a w).1.stage = .ended ∧
      (Session.start a w).1.info.state ≠ str "done") ∧
    (w.openTmp = none → (Session.start a w).1.stage = .receiving (Receiver.new neg.blksize
        neg.windowsize maxRetries a.maxWrqSize a.allowRollover) path ∧
      (Session.start a w).1.info.state ≠ str "done") := by
  obtain ⟨info', hstate, hopen⟩ := h.openWrq (Session.new a w).info
  rw [start_wrq hop w, hopen]
  constructor
  · intro what hwhat
    rw [hwhat]
    refine ⟨fail_stage _ _, ?_⟩
    have := fail_state { Session.new a w with info := info' } (.other what)
    exact fun hdone => (ours_other what).ne_done (this.symm.trans hdone)
  · intro hnone
    rw [hnone]
    refine ⟨rfl, ?_⟩
    show info'.state ≠ _
    rw [hstate]
    decide

theorem start_refused (h : ∀ neg maxRetries path, ¬ a.Passes (f.world a w) neg maxRetries path) :
    (Session.start a (f.world a w)).1.stage = .ended ∧
      (Session.start a (f.world a w)).1.info.state ≠ str "done" := by
  obtain ⟨info', fx, e, hours, hopen⟩ := openWrq_refused h (Session.new a (f.world a w)).info
  rw [start_wrq hop (f.world a w), hopen]
  refine ⟨fail_stage _ e, fun hdone => hours.ne_done ?_⟩
  exact (fail_state { Session.new a (f.world a w) with info := info' } e).symm.trans hdone

theorem opensAt_passes {maxRetries : Int} {path : Str} (h : a.Passes w neg maxRetries path) :
    a.opensAt w = some path := by
  have h' : a.Passes { w with openTmp := none } neg maxRetries path :=
    ⟨h.writes, h.mode, h.ftp, h.joins, h.lock, h.settled, h.fits, h.retries⟩
  rw [SessionArgs.opensAt, ((start_passes hop h').2 rfl).1]

theorem opensAt_refused (h : ∀ neg maxRetries path, ¬ a.Passes (f.world a w) neg maxRetries path) :
    a.opensAt (f.world a w) = none := by
  have h' : ∀ neg maxRetries path,
      ¬ a.Passes (f.world a { w with openTmp := none }) neg maxRetries path :=
    fun neg maxRetries path hp => h neg maxRetries path
      ⟨hp.writes, hp.mode, hp.ftp, hp.joins, hp.lock, hp.settled, hp.fits, hp.retries⟩
  have hstage := (start_refused hop h').1
  rw [SessionArgs.opensAt]
  have hw : ({ f.world a w with openTmp := none } : World) = f.world a { w with openTmp := none } :=
    rfl
  rw [hw, hstage]

theorem starts (w : World) (f : Fate) : Starts a w f (Upload.start a w f) := by
  by_cases hp : ∃ neg maxRetries path, a.Passes (f.world a w) neg maxRetries path
  · obtain ⟨neg, maxRetries, path, hp⟩ := hp
    have hsession := start_passes hop hp
    simp only [Upload.start, opensAt_passes hop hp]
    cases hopen : w.openTmp with
    | some what =>
      have hw : (f.world a w).openTmp = some what := hopen
      rw [hw]
      obtain ⟨hstage, hstate⟩ := hsession.1 what hopen
      exact .failed hp hopen hstage hstate
    | none =>
      have hw : (f.world a w).openTmp = none := hopen
      rw [hw]
      obtain ⟨hstage, hstate⟩ := hsession.2 hopen
      cases hcancel : f.cancelOpen with
      | none => exact .opened hp hopen hcancel hstage hstate
      | some created =>
        cases created with
        | true => exact .cancelled hp hopen hcancel rfl hstate
        | false =>
          have := Starts.cancelled (s := (Session.start a (f.world a w)).1.cancelled) hp hopen hcancel
            rfl hstate
          rwa [if_neg Bool.false_ne_true, List.append_nil] at this
  · have hno : ∀ neg maxRetries path, ¬ a.Passes (f.world a w) neg maxRetries path :=
      fun neg maxRetries path h => hp ⟨neg, maxRetries, path, h⟩
    simp only [Upload.start, opensAt_refused hop hno]
    obtain ⟨hstage, hstate⟩ := start_refused hop hno
    exact .refused hno hstage hstate

end Start

theorem upload_same (a : SessionArgs) (w : World) (f : Fate) :
    Same (Session.new a (f.world a w)) (Upload.start a w f).s := by
  have hstart := same_start a (f.world a w)
  simp only [Upload.start]
  split
  · exact hstart
  split
  · exact hstart
  · split
    · exact hstart.trans ⟨rfl, rfl, rfl⟩
    · exact hstart.trans ⟨rfl, rfl, rfl⟩
    · exact hstart

/-! ## How the loop ends -/

/-- A packet or a silence that makes `_recv_file` raise. -/
def Receiver.Aborts (r : Receiver) : Input → Prop
  | .timeout => r.maxRetries < (r.retries : Int) + 1
  | .packet pkt fault =>
    match peekOpcode pkt with
    | .error _ => True
    | .ok op =>
      op = OP_ERROR ∨ (op = OP_DATA ∧ ∃ e, parseData pkt = .error e) ∨
      ∃ payload, r.inOrder (.packet pkt fault) = some (payload, fault) ∧
        (r.overCap payload ∨ (r.allowRollover = false ∧ 65535 < r.expected) ∨
          ∃ n what, fault = some (n, what) ∧ n < 1 + r.behind.length)

/-- The expected block has come and is a short one. -/
def Receiver.IsLast (r : Receiver) (i : Input) : Prop :=
  ∃ payload fault, r.inOrder i = some (payload, fault) ∧ (payload.length : Int) < r.blksize

/-- The peer says ERROR, with this. -/
def reports (err : TFTPError) : Input → Prop
  | .timeout => False
  | .packet pkt _ => peekOpcode pkt = .ok OP_ERROR ∧ parseError pkt = .ok err

/-- The three ways out of a wait. -/
inductive Exits (r : Receiver) (i : Input) : Next Receiver → Prop
  | wait {r' : Receiver} (on : ¬ r.Aborts i) (more : ¬ r.IsLast i) : Exits r i (.wait r')
  | ret {r' : Receiver} (on : ¬ r.Aborts i) (last : r.IsLast i) : Exits r i (.ret r')
  | raise {r' : Receiver} {e : Exc} (off : r.Aborts i)
      (why : e.Ours ∧ (∀ err, ¬ reports err i) ∨ ∃ err, reports err i ∧ e = .tftp err) :
      Exits r i (.raise r' e)

theorem inOrder_fault {r : Receiver} {pkt payload : Bytes} {fault fault' : Option (Nat × Str)}
    (h : r.inOrder (.packet pkt fault) = some (payload, fault')) : fault' = fault := by
  simp only [Receiver.inOrder] at h
  split at h
  · split at h
    · exact (Prod.mk.inj (Option.some.inj h)).2.symm
    · cases h
  · cases h

theorem inOrder_op {r : Receiver} {pkt payload : Bytes} {fault fault' : Option (Nat × Str)}
    (h : r.inOrder (.packet pkt fault) = some (payload, fault')) :
    peekOpcode pkt = .ok OP_DATA ∧ ∃ wire, parseData pkt = .ok (wire, payload) := by
  simp only [Receiver.inOrder] at h
  split at h
  · next op wire payload' hop hparse =>
    split at h
    · next hif =>
      obtain ⟨rfl, -⟩ := Prod.mk.inj (Option.some.inj h)
      exact ⟨hif.1 ▸ hop, wire, hparse⟩
    · cases h
  · cases h

theorem stopped_iff (r : Receiver) (fault : Option (Nat × Str)) (hzero : ∀ what, fault ≠ some (0, what)) :
    r.stopped fault ≠ none ↔ ∃ n what, fault = some (n, what) ∧ n < 1 + r.behind.length := by
  cases fault with
  | none => simp [Receiver.stopped]
  | some f =>
    obtain ⟨n, what⟩ := f
    have hn : n ≠ 0 := fun h => hzero what (by rw [h])
    simp only [Receiver.stopped, ne_eq, ite_eq_right_iff, reduceCtorEq, imp_false, not_not,
      Option.some.injEq, Prod.mk.injEq]
    constructor
    · intro h
      exact ⟨n, what, ⟨rfl, rfl⟩, by omega⟩
    · omega

variable {fault : Option (Nat × Str)}

theorem onExpected_ours {r r' : Receiver} {payload : Bytes} {e : Exc}
    (h : (r.onExpected payload fault).1 = .raise r' e) : e.Ours := by
  unfold Receiver.onExpected at h
  split at h
  · cases h
    simp [Exc.Ours, Exc.text, exceededError, str]
  split at h
  · cases h
    exact ours_other _
  dsimp only at h
  split at h
  · cases h
    simp [Exc.Ours, Exc.text, rolloverError, str]
  · split at h
    · cases h
      exact ours_other _
    · split at h <;> cases h

theorem exits_onExpected {r : Receiver} {pkt payload : Bytes}
    (hin : r.inOrder (.packet pkt fault) = some (payload, fault)) :
    Exits r (.packet pkt fault) (Receiver.onExpected { r with retries := 0 } payload fault).1 := by
  obtain ⟨hop, wire, hparse⟩ := inOrder_op hin
  have hreports : ∀ err, ¬ reports err (.packet pkt fault) := by
    rintro err ⟨hop', -⟩
    rw [hop] at hop'
    cases hop'
  have haborts : r.Aborts (.packet pkt fault) ↔ (r.overCap payload ∨
      (r.allowRollover = false ∧ 65535 < r.expected) ∨
        ∃ n what, fault = some (n, what) ∧ n < 1 + r.behind.length) := by
    simp only [Receiver.Aborts, hop]
    constructor
    · rintro (h | ⟨-, e, h⟩ | ⟨payload', h, hwhy⟩)
      · cases h
      · rw [hparse] at h
        cases h
      · obtain ⟨rfl, -⟩ := Prod.mk.inj (Option.some.inj (h.symm.trans hin))
        exact hwhy
    · exact fun h => .inr (.inr ⟨payload, hin, h⟩)
  have hlast : r.IsLast (.packet pkt fault) ↔ (payload.length : Int) < r.blksize := by
    constructor
    · rintro ⟨payload', fault', h, hlt⟩
      obtain ⟨rfl, -⟩ := Prod.mk.inj (Option.some.inj (h.symm.trans hin))
      exact hlt
    · exact fun h => ⟨payload, fault, hin, h⟩
  rcases onExpected_cases { r with retries := 0 } payload fault with
    ⟨hbad, e, h⟩ | ⟨-, hroll, e, h⟩ | ⟨hgood, hroll, h⟩
  · have hours := onExpected_ours h
    rw [h]
    refine .raise (haborts.2 ?_) (.inl ⟨hours, hreports⟩)
    rcases hbad with hbad | ⟨what, rfl⟩
    · exact .inl hbad
    · exact .inr (.inr ⟨0, what, rfl, by omega⟩)
  · have hours := onExpected_ours h
    rw [h]
    exact .raise (haborts.2 (.inr (.inl hroll))) (.inl ⟨hours, hreports⟩)
  · have hstop := stopped_iff r fault fun what hf => hgood (.inr ⟨what, hf⟩)
    rw [h]
    cases hst : r.stopped fault with
    | some what =>
      have hst' : Receiver.stopped { r with retries := 0 } fault = some what := hst
      rw [hst']
      refine .raise (haborts.2 (.inr (.inr (hstop.1 ?_)))) (.inl ⟨ours_other what, hreports⟩)
      rw [hst]
      exact Option.some_ne_none _
    | none =>
      have hst' : Receiver.stopped { r with retries := 0 } fault = none := hst
      have hon : ¬ r.Aborts (.packet pkt fault) := by
        rw [haborts]
        rintro (hcap | hr | hf)
        · exact hgood (.inl hcap)
        · exact hroll hr
        · exact hstop.2 hf hst
      rw [hst']
      by_cases hshort : (payload.length : Int) < r.blksize
      · rw [if_pos hshort]
        exact .ret hon (hlast.2 hshort)
      · rw [if_neg hshort]
        exact .wait hon fun h => hshort (hlast.1 h)

variable {pkt : Bytes}

theorem peekOpcode_ours {e : TFTPError} (h : peekOpcode pkt = .error e) : (Exc.tftp e).Ours := by
  unfold peekOpcode at h
  split at h <;> cases h
  simp [Exc.Ours, Exc.text, str]

theorem parseError_ours {e : TFTPError} (h : parseError pkt = .error e) : (Exc.tftp e).Ours := by
  unfold parseError at h
  split at h <;> cases h
  simp [Exc.Ours, Exc.text, str]

theorem parseData_ours {e : TFTPError} (h : parseData pkt = .error e) : (Exc.tftp e).Ours := by
  unfold parseData at h
  split at h <;> cases h
  simp [Exc.Ours, Exc.text, str]

/-- The ERROR of the client, or what only begins like one. -/
theorem exits_error {r : Receiver} (hop : peekOpcode pkt = .ok OP_ERROR) :
    Exits r (.packet pkt fault) (r.resume (.packet pkt fault)).1 := by
  have hoff : r.Aborts (.packet pkt fault) := by simp [Receiver.Aborts, hop]
  simp only [Receiver.resume, hop, if_true]
  cases hparse : parseError pkt with
  | ok err => exact .raise hoff (.inr ⟨err, ⟨hop, hparse⟩, rfl⟩)
  | error e =>
    refine .raise hoff (.inl ⟨parseError_ours hparse, fun err h => ?_⟩)
    have h2 := h.2
    rw [hparse] at h2
    cases h2

/-- A packet that is neither an ERROR nor the block the loop waits for is read over, unless it is
    DATA without a block number. -/
theorem exits_ignored {r : Receiver} {op : UInt16} (hin : r.inOrder (.packet pkt fault) = none)
    (hop : peekOpcode pkt = .ok op) (herr : op ≠ OP_ERROR) :
    Exits r (.packet pkt fault) (r.resume (.packet pkt fault)).1 := by
  have hlast : ¬ r.IsLast (.packet pkt fault) := by
    rintro ⟨payload, fault', h, -⟩
    rw [hin] at h
    cases h
  have horder : ¬ ∃ payload, r.inOrder (.packet pkt fault) = some (payload, fault) ∧
      (r.overCap payload ∨ (r.allowRollover = false ∧ 65535 < r.expected) ∨
        ∃ n what, fault = some (n, what) ∧ n < 1 + r.behind.length) := by
    rintro ⟨payload, h, -⟩
    rw [hin] at h
    cases h
  have hreports : ∀ err, ¬ reports err (.packet pkt fault) := by
    rintro err ⟨hop', -⟩
    rw [hop] at hop'
    exact herr (Except.ok.inj hop')
  simp only [Receiver.resume, hop]
  rw [if_neg herr]
  by_cases hdata : op = OP_DATA
  · rw [if_neg (not_not.2 hdata)]
    cases hparse : parseData pkt with
    | error e =>
      refine .raise ?_ (.inl ⟨parseData_ours hparse, hreports⟩)
      simp only [Receiver.Aborts, hop]
      exact .inr (.inl ⟨hdata, e, hparse⟩)
    | ok d =>
      obtain ⟨wire, payload⟩ := d
      have hon : ¬ r.Aborts (.packet pkt fault) := by
        simp only [Receiver.Aborts, hop]
        rintro (h | ⟨-, e, h⟩ | h)
        · exact herr h
        · rw [hparse] at h
          cases h
        · exact horder h
      simp only [Receiver.inOrder, hop, hparse, hdata, true_and] at hin
      dsimp only
      cases habs : absolute r.expected r.windowsize.toNat wire with
      | none => exact .wait hon hlast
      | some n =>
        rw [habs] at hin
        dsimp only
        by_cases hn : n = r.expected
        · rw [if_pos (congrArg some hn)] at hin
          cases hin
        · rw [if_neg hn]
          exact .wait hon hlast
  · rw [if_pos hdata]
    refine .wait ?_ hlast
    simp only [Receiver.Aborts, hop]
    rintro (h | ⟨h, -⟩ | h)
    · exact herr h
    · exact hdata h
    · exact horder h

/-- **One wait** ends the loop exactly on such an input. -/
theorem exits (r : Receiver) (i : Input) : Exits r i (r.resume i).1 := by
  cases i with
  | timeout =>
    have hlast : ¬ r.IsLast .timeout := by
      rintro ⟨payload, fault, h, -⟩
      cases h
    simp only [Receiver.resume]
    split
    · next h => exact .raise h (.inl ⟨by simp [Exc.Ours, Exc.text, timeoutError, str], fun _ h => h⟩)
    · next h => exact .wait h hlast
  | packet pkt fault =>
    rcases r.resume_cases (.packet pkt fault) with ⟨payload, fault', hin, heq⟩ | ⟨hin, -⟩
    · obtain rfl := inOrder_fault hin
      rw [heq]
      exact exits_onExpected hin
    cases hop : peekOpcode pkt with
    | error e =>
      simp only [Receiver.resume, hop]
      refine .raise (by simp [Receiver.Aborts, hop]) (.inl ⟨peekOpcode_ours hop, fun err h => ?_⟩)
      have h1 := h.1
      rw [hop] at h1
      cases h1
    | ok op =>
      by_cases herr : op = OP_ERROR
      · subst herr
        exact exits_error hop
      · exact exits_ignored hin hop herr

/-! ## One step -/

/-- The packet of an event. -/
def UploadEvent.packet : UploadEvent → Option Input
  | .input i => some i
  | .cancel => none
  | .cancelWrite pkt n => some (.packet pkt (some (n, [])))

/-- The client breaks the upload off with an ERROR whose text is the word for success, and the task
    is not cancelled over it. -/
def AbortedAsDone (f : Fate) (u : Upload) (e : UploadEvent) : Prop :=
  f.cancelClose = false ∧ (∃ r path, u.s.stage = .receiving r path) ∧
    ∃ i err, e.packet = some i ∧ reports err i ∧ err.message = str "done"

/-- What a step of an upload that is being received can do: go on; stop, with the destination as it
    was; or finish, by the rename. -/
inductive Moves (f : Fate) (u : Upload) (r : Receiver) (path : Str) (e : UploadEvent) : Upload → Prop
  | waits {s : Session} {i : Input} (event : e = .input i)
      (on : ¬ r.Aborts i) (more : ¬ r.IsLast i)
      (stage : s.stage = .receiving (r.resume i).1.state path)
      (state : s.info.state = u.s.info.state) :
      Moves f u r path e
        ⟨s, u.ops ++ appended path r (r.resume i).1.state, u.accepted ++ (r.takes i).toList⟩
  | stops {s : Session} {ops : List (Op Str UInt8)} {log : List (Nat × Bytes)}
      (exit : ∀ i, e = .input i → r.Aborts i ∨
        (r.IsLast i ∧ (f.cancelClose = true ∨ u.s.world.replace ≠ none)))
      (stage : s.stage = .ended) (writes : ∀ op ∈ ops, ∃ data, op = .append (part path) data)
      (state : u.s.info.state ≠ str "done" →
        (s.info.state = str "done" ↔ AbortedAsDone f u e)) :
      Moves f u r path e ⟨s, u.ops ++ ops, log⟩
  | finishes {s : Session} {i : Input} {ops : List (Op Str UInt8)} (event : e = .input i)
      (on : ¬ r.Aborts i) (last : r.IsLast i) (close : f.cancelClose = false)
      (replace : u.s.world.replace = none) (stage : s.stage = .ended)
      (ftp : u.s.args.isFtpName u.s.args.request.filename = true →
        ops = if f.cancelUpload = false ∧ f.removes = true then [.remove path] else [])
      (own : u.s.args.isFtpName u.s.args.request.filename = false →
        ops = [] ∧ s.info.state = str "done") :
      Moves f u r path e ⟨s, u.ops ++ appended path r (r.resume i).1.state ++
        .rename (part path) path :: ops, u.accepted ++ (r.takes i).toList⟩

theorem not_aborts_of_reports {r : Receiver} {i : Input} (h : ¬ r.Aborts i) (err : TFTPError) :
    ¬ reports err i := by
  intro hrep
  cases i with
  | timeout => exact hrep
  | packet pkt fault =>
    obtain ⟨hop, -⟩ := hrep
    refine h ?_
    simp only [Receiver.Aborts, hop]
    exact .inl trivial

theorem reports_inj {err err' : TFTPError} {i : Input} (h : reports err i) (h' : reports err' i) :
    err = err' := by
  cases i with
  | timeout => exact h.elim
  | packet pkt fault => exact Except.ok.inj (h.2.symm.trans h'.2)

/-- The word an exception leaves is "done" only if the client has put it there. -/
theorem text_done_iff {i : Input} {x : Exc}
    (why : x.Ours ∧ (∀ err, ¬ reports err i) ∨ ∃ err, reports err i ∧ x = .tftp err) :
    x.text = str "done" ↔ ∃ err, reports err i ∧ err.message = str "done" := by
  constructor
  · intro hdone
    rcases why with ⟨hours, -⟩ | ⟨err, hrep, rfl⟩
    · exact absurd hdone hours.ne_done
    · exact ⟨err, hrep, hdone⟩
  · rintro ⟨err, hrep, hdone⟩
    rcases why with ⟨-, hno⟩ | ⟨err', hrep', rfl⟩
    · exact absurd hrep (hno err)
    · rw [reports_inj hrep' hrep]
      exact hdone

theorem appended_writes (path : Str) (r r' : Receiver) :
    ∀ op ∈ appended path r r', ∃ data, op = .append (part path) data := by
  intro op hop
  exact ⟨_, List.mem_singleton.1 hop⟩

section Stepped

variable (s : Session) (path : Str) {p : Next Receiver × List Effect} {r' : Receiver}

theorem stepped_wait (h : p.1 = .wait r') : (s.stepped path p).1.stage = .receiving r' path ∧
    (s.stepped path p).1.info.state = s.info.state := by
  obtain ⟨n, fx⟩ := p
  obtain rfl : n = .wait r' := h
  exact ⟨rfl, rfl⟩

theorem stepped_raise {x : Exc} (h : p.1 = .raise r' x) : (s.stepped path p).1.stage = .ended ∧
    (s.stepped path p).1.info.state = x.text := by
  obtain ⟨n, fx⟩ := p
  obtain rfl : n = .raise r' x := h
  exact ⟨fail_stage _ x, fail_state _ x⟩

theorem stepped_ret (h : p.1 = .ret r') : (s.stepped path p).1.stage = .ended ∧
    (s.world.replace ≠ none → (s.stepped path p).1.info.state ≠ str "done") ∧
    (s.world.replace = none → s.args.isFtpName s.args.request.filename = false →
      (s.stepped path p).1.info.state = str "done") := by
  obtain ⟨n, fx⟩ := p
  obtain rfl : n = .ret r' := h
  simp only [Session.stepped, after, Session.received]
  cases s.world.replace with
  | some what =>
    refine ⟨rfl, fun _ hdone => (ours_other what).ne_done hdone, ?_⟩
    intro h
    cases h
  | none =>
    cases hftp : s.args.isFtpName s.args.request.filename with
    | false => exact ⟨rfl, fun h => absurd rfl h, fun _ _ => rfl⟩
    | true =>
      refine ⟨?_, fun h => absurd rfl h, fun _ h => by cases h⟩
      dsimp only
      rw [if_pos rfl]
      split
      · rfl
      · exact fail_stage _ _

end Stepped

section Step

variable {f : Fate} {u : Upload} {r : Receiver} {path : Str} (hstage : u.s.stage = .receiving r path)
include hstage

theorem aborted_iff {e : UploadEvent} {i : Input} (he : e.packet = some i) :
    AbortedAsDone f u e ↔
      f.cancelClose = false ∧ ∃ err, reports err i ∧ err.message = str "done" := by
  constructor
  · rintro ⟨hclose, -, i', err, he', hrep, hdone⟩
    obtain rfl := Option.some.inj (he.symm.trans he')
    exact ⟨hclose, err, hrep, hdone⟩
  · rintro ⟨hclose, err, hrep, hdone⟩
    exact ⟨hclose, ⟨r, path, hstage⟩, i, err, he, hrep, hdone⟩

theorem resume_receiving (i : Input) : u.s.resume i = u.s.stepped path (r.resume i) := by
  simp only [Session.resume, hstage]

/-- An exception ends the session, unless a cancellation in the close overtakes it. -/
theorem moves_raise {e : UploadEvent} {i : Input} {r' : Receiver} {x : Exc}
    (he : e.packet = some i) (h : (r.resume i).1 = .raise r' x) :
    Moves f u r path e (u.input f r path i) := by
  have hexit := exits r i
  rw [h] at hexit
  cases hexit with
  | raise off why =>
    simp only [Upload.input, h, List.append_nil]
    refine .stops (fun i' hi' => ?_) ?_ (appended_writes path r _) (fun hdone => ?_)
    · rw [hi'] at he
      obtain rfl := Option.some.inj he
      exact .inl off
    · split
      · rfl
      · rw [resume_receiving hstage]
        exact (stepped_raise u.s path h).1
    · rw [aborted_iff hstage he]
      split
      · next hclose =>
        refine iff_of_false hdone fun h => ?_
        rw [hclose] at h
        cases h.1
      · next hclose =>
        have hstate : (u.s.resume i).1.info.state = x.text := by
          rw [resume_receiving hstage]
          exact (stepped_raise u.s path h).2
        rw [hstate, text_done_iff why]
        exact ⟨fun h => ⟨Bool.eq_false_iff.2 hclose, h⟩, fun h => h.2⟩

theorem moves_input (i : Input) : Moves f u r path (.input i) (u.input f r path i) := by
  have hexit := exits r i
  cases h : (r.resume i).1 with
  | raise r' x => exact moves_raise hstage rfl h
  | wait r' =>
    rw [h] at hexit
    cases hexit with
    | wait on more =>
      have hs := stepped_wait u.s path h
      rw [← resume_receiving hstage] at hs
      have := Moves.waits (f := f) (u := u) (s := (u.s.resume i).1) (e := .input i) rfl on more
        (by rw [h]; exact hs.1) hs.2
      simpa only [Upload.input, h, List.append_nil] using this
  | ret r' =>
    rw [h] at hexit
    cases hexit with
    | ret on last =>
      have hs := stepped_ret u.s path h
      rw [← resume_receiving hstage] at hs
      have hnone : ∀ e : UploadEvent, e = .input i → ¬ AbortedAsDone f u e := by
        rintro e rfl habort
        obtain ⟨-, err, hrep, -⟩ := (aborted_iff hstage rfl).1 habort
        exact not_aborts_of_reports on err hrep
      have hexit : ∀ (c : f.cancelClose = true ∨ u.s.world.replace ≠ none) (i' : Input),
          UploadEvent.input i = .input i' → r.Aborts i' ∨
            (r.IsLast i' ∧ (f.cancelClose = true ∨ u.s.world.replace ≠ none)) := by
        intro c i' hi'
        cases hi'
        exact .inr ⟨last, c⟩
      simp only [Upload.input, h, Fate.finish]
      by_cases hclose : f.cancelClose = true
      · rw [if_pos hclose, List.append_nil]
        exact .stops (hexit (.inl hclose)) rfl (appended_writes path r _)
          fun hdone => iff_of_false hdone (hnone _ rfl)
      rw [if_neg hclose]
      cases hrep : u.s.world.replace with
      | some what =>
        have hne : u.s.world.replace ≠ none := by simp [hrep]
        simp only [Option.isSome_some, if_true, List.append_nil]
        exact .stops (hexit (.inr hne)) hs.1 (appended_writes path r _)
          fun _ => iff_of_false (hs.2.1 hne) (hnone _ rfl)
      | none =>
        have hret : (r.resume i).1.state = Next.state (.ret r') := by rw [h]
        rw [← hret]
        simp only [Option.isSome_none, Bool.false_eq_true, if_false]
        cases hftp : u.s.args.isFtpName u.s.args.request.filename with
        | false =>
          exact .finishes rfl on last (Bool.eq_false_iff.2 hclose) hrep hs.1
            (fun hf => by rw [hftp] at hf; cases hf) fun hf => ⟨rfl, hs.2.2 hrep hftp⟩
        | true =>
          have hown : u.s.args.isFtpName u.s.args.request.filename = false → ∀ P : Prop, P := by
            intro hf
            rw [hftp] at hf
            cases hf
          simp only [if_true]
          by_cases hcancel : f.cancelUpload = true
          · rw [if_pos hcancel]
            exact .finishes rfl on last (Bool.eq_false_iff.2 hclose) hrep rfl
              (fun _ => by simp [hcancel]) fun hf => hown hf _
          · rw [if_neg hcancel]
            exact .finishes rfl on last (Bool.eq_false_iff.2 hclose) hrep hs.1
              (fun _ => by simp [hcancel]) fun hf => hown hf _

/-- **One step** of an upload that is being received. -/
theorem moves (e : UploadEvent) : Moves f u r path e (uploadStep f u e) := by
  simp only [uploadStep, hstage]
  cases e with
  | input i => exact moves_input hstage i
  | cancel =>
    have hno : ¬ AbortedAsDone f u .cancel := by
      rintro ⟨-, -, i, err, hi, -⟩
      cases hi
    have : Moves f u r path .cancel ⟨u.s.cancelled, u.ops ++ [], u.accepted⟩ :=
      .stops (fun i hi => by cases hi) rfl (fun op hop => by cases hop)
        fun hdone => iff_of_false hdone hno
    rwa [List.append_nil] at this
  | cancelWrite pkt n =>
    simp only [Upload.cutOff]
    split
    · next h => exact moves_raise hstage rfl h
    next hne =>
    refine .stops (fun i hi => by cases hi) rfl (appended_writes path r _) fun hdone => ?_
    refine iff_of_false hdone fun habort => ?_
    -- an ERROR leads to an exception of the protocol, which the other branch has
    obtain ⟨-, err, hrep, -⟩ := (aborted_iff (f := f) hstage rfl).1 habort
    have hexit := exits r (.packet pkt (some (n, [])))
    cases hn : (r.resume (.packet pkt (some (n, [])))).1 with
    | wait r' =>
      rw [hn] at hexit
      cases hexit with
      | wait on more => exact not_aborts_of_reports on err hrep
    | ret r' =>
      rw [hn] at hexit
      cases hexit with
      | ret on last => exact not_aborts_of_reports on err hrep
    | raise r' x =>
      rw [hn] at hexit
      cases hexit with
      | raise off why =>
        rcases why with ⟨-, hno⟩ | ⟨err', -, rfl⟩
        · exact hno err hrep
        · exact hne r' err' hn

end Step

/-! ## Against the session -/

theorem finish_same {f : Fate} {s s' t : Session} {path : Str} (h : Same t s) (h' : Same t s') :
    Same t (f.finish s s' path).1 := by
  unfold Fate.finish
  split
  · exact h.trans ⟨rfl, rfl, rfl⟩
  split
  · exact h'
  · split
    · split
      · exact h.trans ⟨rfl, rfl, rfl⟩
      · exact h'
    · exact h'

theorem input_same (f : Fate) (u : Upload) (r : Receiver) (path : Str) (i : Input) :
    Same u.s (u.input f r path i).s := by
  simp only [Upload.input]
  split
  · exact same_resume u.s i
  · split
    · exact ⟨rfl, rfl, rfl⟩
    · exact same_resume u.s i
  · exact finish_same ⟨rfl, rfl, rfl⟩ (same_resume u.s i)

theorem uploadStep_same (f : Fate) (u : Upload) (e : UploadEvent) :
    Same u.s (uploadStep f u e).s := by
  unfold uploadStep
  split
  · split
    · exact input_same ..
    · exact ⟨rfl, rfl, rfl⟩
    · unfold Upload.cutOff
      dsimp only
      split
      · exact input_same ..
      · exact ⟨rfl, rfl, rfl⟩
  · exact .refl _

theorem finish_uncancelled {f : Fate} (hclose : f.cancelClose = false)
    (hupload : f.cancelUpload = false) (s s' : Session) (path : Str) :
    (f.finish s s' path).1 = s' := by
  unfold Fate.finish
  rw [hclose, hupload]
  simp only [Bool.false_eq_true, if_false]
  split
  · rfl
  · split <;> rfl

/-- A step without a cancellation is a step of the session. -/
theorem uploadStep_session {f : Fate} (hclose : f.cancelClose = false)
    (hupload : f.cancelUpload = false) {u : Upload}
    (hu : u.s.stage = .ended ∨ ∃ r path, u.s.stage = .receiving r path) (i : Input) :
    (uploadStep f u (.input i)).s = (u.s.resume i).1 := by
  rcases hu with hu | ⟨r, path, hu⟩
  · simp only [uploadStep, hu, Session.resume]
  · simp only [uploadStep, hu, Upload.input]
    split
    · rfl
    · rw [if_neg (by rw [hclose]; exact Bool.false_ne_true)]
    · exact finish_uncancelled hclose hupload ..

/-- A start without a cancellation is the start of the session. -/
theorem upload_start_session (a : SessionArgs) (w : World) {f : Fate}
    (hopen : f.cancelOpen = none) : (Upload.start a w f).s = (Session.start a (f.world a w)).1 := by
  simp only [Upload.start]
  split
  · rfl
  · split
    · rfl
    · rw [hopen]

end Nishro.Py

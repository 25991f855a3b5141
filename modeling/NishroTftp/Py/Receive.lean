import NishroTftp.Lib.Dict
import NishroTftp.Lib.Runs
import NishroTftp.Py.Session
/-
  What `_recv_file` writes.

  A block goes into the temporary file on two ways: as the one that was expected, or later, when the
  blocks that wait right behind it in the buffer are drained.  The limits are checked on the first
  way only, and so is the end of the file.  `Receiver.resume_cases` says what one wait can end in;
  the two results of this module, about limits and about the end of an upload, follow from it.
-/
namespace Nishro.Py

open Runs

/-! ## One step -/

/-- The blocks that wait right behind the expected one. -/
def Receiver.behind (r : Receiver) : List Bytes :=
  contiguous r.windowReceived.length (r.expected + 1) r.windowReceived

/-- Those of them that are written before a write fails, the expected one being the first. -/
def Receiver.waiting (r : Receiver) : Option (Nat × Str) → List Bytes
  | some (n, _) => r.behind.take (n - 1)
  | none => r.behind

/-- Blocks are written one after the other. -/
theorem foldl_store (bufs : List Bytes) (r : Receiver) :
    bufs.foldl Receiver.store r = { r with
      file := r.file ++ bufs.flatten
      bytesTransferred := r.bytesTransferred + bufs.flatten.length
      expected := r.expected + bufs.length } := by
  induction bufs generalizing r with
  | nil => simp
  | cons buf bufs ih =>
    rw [List.foldl_cons, ih]
    simp only [Receiver.store, List.flatten_cons, List.length_cons, List.append_assoc,
      List.length_append]
    congr 1 <;> omega

/-- `r'` is `r` with more blocks in the file, and perhaps others in the buffer. -/
structure Receiver.Stores (r : Receiver) (bufs : List Bytes) (r' : Receiver) : Prop where
  file : r'.file = r.file ++ bufs.flatten
  bytes : r'.bytesTransferred = r.bytesTransferred + bufs.flatten.length
  expected : r'.expected = r.expected + bufs.length
  blksize : r'.blksize = r.blksize
  windowsize : r'.windowsize = r.windowsize
  maxWrqSize : r'.maxWrqSize = r.maxWrqSize
  allowRollover : r'.allowRollover = r.allowRollover

theorem Receiver.Stores.none (r : Receiver) : r.Stores [] r :=
  ⟨by simp, by simp, rfl, rfl, rfl, rfl, rfl⟩

theorem Receiver.Stores.trans {r r' r'' : Receiver} {bufs bufs' : List Bytes}
    (h : r.Stores bufs r') (h' : r'.Stores bufs' r'') : r.Stores (bufs ++ bufs') r'' where
  file := by rw [h'.file, h.file, List.flatten_append, List.append_assoc]
  bytes := by rw [h'.bytes, h.bytes, List.flatten_append, List.length_append, Nat.add_assoc]
  expected := by rw [h'.expected, h.expected, List.length_append, Nat.add_assoc]
  blksize := h'.blksize.trans h.blksize
  windowsize := h'.windowsize.trans h.windowsize
  maxWrqSize := h'.maxWrqSize.trans h.maxWrqSize
  allowRollover := h'.allowRollover.trans h.allowRollover

/-- The cap stands against this payload. -/
def Receiver.overCap (r : Receiver) (payload : Bytes) : Prop :=
  r.maxWrqSize ≠ 0 ∧ r.maxWrqSize < (r.bytesTransferred : Int) + payload.length

/-- The expected block is written and the ones behind it are. -/
def Receiver.drained (r : Receiver) (payload : Bytes) (fault : Option (Nat × Str)) : Receiver :=
  let bufs := r.waiting fault
  { r with
    file := r.file ++ (payload :: bufs).flatten
    bytesTransferred := r.bytesTransferred + (payload :: bufs).flatten.length
    expected := r.expected + 1 + bufs.length
    windowReceived := r.windowReceived.filter fun m =>
      ! (r.expected + 1 ≤ m.1 && m.1 < r.expected + 1 + bufs.length) }

section

variable (r : Receiver) (payload : Bytes) (fault : Option (Nat × Str))

theorem drained_stores :
    r.Stores (payload :: r.waiting fault) (r.drained payload fault) :=
  ⟨rfl, rfl, by simp only [Receiver.drained, List.length_cons]; omega, rfl, rfl, rfl, rfl⟩

/-- The text of the write that fails in the drain, if one does. -/
def Receiver.stopped (r : Receiver) : Option (Nat × Str) → Option Str
  | some (n, what) => if n - 1 < r.behind.length then some what else none
  | none => none

theorem drain_eq :
    (r.store payload).drain (fault.map fun f => (f.1 - 1, f.2)) =
      (r.drained payload fault, r.stopped fault, received (r.waiting fault)) := by
  have hbehind : contiguous (r.store payload).windowReceived.length (r.store payload).expected
      (r.store payload).windowReceived = r.behind := rfl
  have hfold : ∀ bufs : List Bytes, bufs = r.waiting fault →
      { bufs.foldl Receiver.store (r.store payload) with
        windowReceived := (r.store payload).windowReceived.filter fun m =>
          ! ((r.store payload).expected ≤ m.1 &&
            m.1 < (r.store payload).expected + bufs.length) } = r.drained payload fault := by
    rintro bufs rfl
    rw [foldl_store]
    simp only [Receiver.store, Receiver.drained, List.flatten_cons, List.length_append,
      List.append_assoc, Nat.add_assoc]
    rfl
  unfold Receiver.drain
  rw [hbehind]
  cases fault with
  | none => exact congrArg (fun x => (x, none, received r.behind)) (hfold r.behind rfl)
  | some f =>
    obtain ⟨n, what⟩ := f
    simp only [Option.map_some, Receiver.stopped]
    by_cases hn : n - 1 < r.behind.length
    · simp only [if_pos hn]
      exact congrArg (fun x => (x, some what, _)) (hfold (r.behind.take (n - 1)) rfl)
    · have hall : r.behind = r.waiting (some (n, what)) :=
        (List.take_of_length_le (Nat.le_of_not_lt hn)).symm
      simp only [if_neg hn]
      rw [← hall]
      exact congrArg (fun x => (x, none, received r.behind)) (hfold r.behind hall)

/-- What the arrival of the expected block ends in: it is over the cap or cannot be written; it is
    written and is one too many; or it is written with those behind it, as far as they can be. -/
theorem onExpected_cases :
    ((r.overCap payload ∨ ∃ what, fault = some (0, what)) ∧
      ∃ e, (r.onExpected payload fault).1 = .raise r e) ∨
    (¬ (r.overCap payload ∨ ∃ what, fault = some (0, what)) ∧
      (r.allowRollover = false ∧ 65535 < r.expected) ∧
      ∃ e, (r.onExpected payload fault).1 = .raise (r.store payload) e) ∨
    (¬ (r.overCap payload ∨ ∃ what, fault = some (0, what)) ∧
      ¬ (r.allowRollover = false ∧ 65535 < r.expected) ∧
      (r.onExpected payload fault).1 = match r.stopped fault with
        | some what => .raise (r.drained payload fault) (.other what)
        | none =>
          if (payload.length : Int) < r.blksize then .ret (r.drained payload fault)
          else .wait (r.drained payload fault)) := by
  by_cases hcap : r.maxWrqSize ≠ 0 ∧ r.maxWrqSize < (r.bytesTransferred : Int) + payload.length
  · refine .inl ⟨.inl hcap, .tftp (exceededError r.maxWrqSize), ?_⟩
    unfold Receiver.onExpected
    rw [if_pos hcap]
  by_cases hzero : ∃ what, fault = some (0, what)
  · obtain ⟨what, rfl⟩ := hzero
    refine .inl ⟨.inr ⟨what, rfl⟩, .other what, ?_⟩
    unfold Receiver.onExpected
    rw [if_neg hcap]
    rfl
  right
  -- what the blocks behind it come to decides
  have hbody : ∀ d, (r.store payload).drain (fault.map fun f => (f.1 - 1, f.2)) = d →
      (r.onExpected payload fault).1 =
        if (r.store payload).allowRollover = false ∧ 65536 < (r.store payload).expected then
          .raise (r.store payload) (.tftp rolloverError)
        else d.2.1.elim (if (payload.length : Int) < d.1.blksize then .ret d.1 else .wait d.1)
          fun what => .raise d.1 (.other what) := by
    rintro ⟨r', stop, fx⟩ hd
    unfold Receiver.onExpected
    rw [if_neg hcap]
    rcases fault with _ | ⟨_ | n, what⟩
    · simp only [hd]
      split
      · rfl
      · cases stop <;> rfl
    · exact absurd ⟨what, rfl⟩ hzero
    · simp only [hd]
      split
      · rfl
      · cases stop <;> rfl
  have hgood : ¬ (r.overCap payload ∨ ∃ what, fault = some (0, what)) := not_or.2 ⟨hcap, hzero⟩
  have hnext : (r.store payload).expected = r.expected + 1 := rfl
  by_cases hroll : r.allowRollover = false ∧ 65535 < r.expected
  · left
    refine ⟨hgood, hroll, .tftp rolloverError, ?_⟩
    rw [hbody _ rfl, if_pos ⟨hroll.1, by omega⟩]
  right
  refine ⟨hgood, hroll, ?_⟩
  have hroll' : ¬ ((r.store payload).allowRollover = false ∧
      65536 < (r.store payload).expected) := by
    rintro ⟨h1, h2⟩
    exact hroll ⟨h1, by omega⟩
  rw [hbody _ (drain_eq ..), if_neg hroll']
  cases r.stopped fault with
  | none => rfl
  | some what => rfl

end

/-- The payload of the block that is expected, if that is what has come, with the write of the step
    that fails. -/
def Receiver.inOrder (r : Receiver) : Input → Option (Bytes × Option (Nat × Str))
  | .timeout => none
  | .packet pkt fault =>
    match peekOpcode pkt, parseData pkt with
    | .ok op, .ok (wire, payload) =>
      if op = OP_DATA ∧ absolute r.expected r.windowsize.toNat wire = some r.expected then
        some (payload, fault)
      else none
    | _, _ => none

/-- What a wait can end in: the expected block has come, or nothing is written. -/
theorem Receiver.resume_cases (r : Receiver) (i : Input) :
    (∃ payload fault, r.inOrder i = some (payload, fault) ∧
      r.resume i = Receiver.onExpected { r with retries := 0 } payload fault) ∨
    (r.inOrder i = none ∧ r.Stores [] (r.resume i).1.state) := by
  have hsame : ∀ retries w, r.Stores [] { r with retries := retries, windowReceived := w } :=
    fun _ _ => ⟨by simp, by simp, rfl, rfl, rfl, rfl, rfl⟩
  cases i with
  | timeout =>
    right
    refine ⟨rfl, ?_⟩
    simp only [Receiver.resume]
    split <;> exact hsame _ _
  | packet pkt fault =>
    simp only [Receiver.resume, Receiver.inOrder]
    cases hop : peekOpcode pkt with
    | error e => exact .inr ⟨rfl, .none r⟩
    | ok op =>
      simp only
      by_cases herr : op = OP_ERROR
      · right
        have hne : ¬ op = OP_DATA := by rw [herr]; decide
        rw [if_pos herr]
        constructor
        · cases parseData pkt <;> simp [hne]
        · cases parseError pkt <;> exact .none r
      · rw [if_neg herr]
        by_cases hdata : op = OP_DATA
        · rw [if_neg (not_not.2 hdata)]
          cases hparse : parseData pkt with
          | error e => exact .inr ⟨rfl, .none r⟩
          | ok d =>
            obtain ⟨wire, payload⟩ := d
            simp only [hdata, true_and]
            cases habs : absolute r.expected r.windowsize.toNat wire with
            | none => exact .inr ⟨by simp, hsame _ _⟩
            | some n =>
              simp only [Option.some.injEq]
              by_cases hn : n = r.expected
              · rw [if_pos hn, if_pos hn]
                exact .inl ⟨payload, fault, rfl, rfl⟩
              · rw [if_neg hn, if_neg hn]
                exact .inr ⟨rfl, hsame _ _⟩
        · right
          rw [if_pos hdata]
          constructor
          · cases parseData pkt <;> simp [hdata]
          · exact .none r

/-- Every step writes some blocks, or none. -/
theorem resume_stores (r : Receiver) (i : Input) : ∃ bufs, r.Stores bufs (r.resume i).1.state := by
  rcases r.resume_cases i with ⟨payload, fault, -, heq⟩ | ⟨-, h⟩
  · rw [heq]
    -- the retries are set back first, which no clause of `Stores` sees
    rcases onExpected_cases { r with retries := 0 } payload fault with
      ⟨-, e, h⟩ | ⟨-, -, e, h⟩ | ⟨-, -, h⟩
    · rw [h]
      exact ⟨[], (Receiver.Stores.none r).file, (Receiver.Stores.none r).bytes, rfl, rfl, rfl, rfl, rfl⟩
    · rw [h]
      exact ⟨[payload], ⟨by simp [Next.state, Receiver.store], by simp [Next.state, Receiver.store],
        rfl, rfl, rfl, rfl, rfl⟩⟩
    rw [h]
    refine ⟨payload :: r.waiting fault, ?_⟩
    have hst := drained_stores { r with retries := 0 } payload fault
    have hst : r.Stores (payload :: r.waiting fault)
        (Receiver.drained { r with retries := 0 } payload fault) :=
      ⟨hst.file, hst.bytes, hst.expected, rfl, rfl, rfl, rfl⟩
    split
    · exact hst
    · split <;> exact hst
  · exact ⟨[], h⟩

/-! ## Limits -/

/-- The loop of `_recv_file`, over and over. -/
def recvStep (n : Next Receiver) (i : Input) : Next Receiver :=
  match n with
  | .wait r => (r.resume i).1
  | .ret _ | .raise _ _ => n

/-- An upload within its limits.  `expected - 1` blocks are written, and that is the number that is
    acknowledged. -/
structure Receiver.Within (r : Receiver) : Prop where
  size : 0 < r.maxWrqSize →
    (r.bytesTransferred : Int) ≤ r.maxWrqSize ∧ (r.file.length : Int) ≤ r.maxWrqSize
  blocks : r.allowRollover = false → r.expected - 1 ≤ 65535

/-- There is room for the expected block and those that wait behind it. -/
structure Receiver.Roomy (r : Receiver) (payload : Bytes) (fault : Option (Nat × Str)) : Prop where
  size : 0 < r.maxWrqSize → (r.bytesTransferred : Int) + payload.length +
    (r.waiting fault).flatten.length ≤ r.maxWrqSize
  blocks : r.allowRollover = false → r.expected + (r.waiting fault).length ≤ 65535

/-- No block for which there is no room is taken: one that is expected and passes the check of the
    cap does not bring too many with it, and is not itself one too many. -/
def Receiver.KeepsRoom (r : Receiver) (i : Input) : Prop :=
  ∀ payload fault, r.inOrder i = some (payload, fault) →
    ¬ (r.overCap payload ∨ ∃ what, fault = some (0, what)) → r.Roomy payload fault

/-- What is counted is what is written, and there is always a block to expect. -/
structure Receiver.Counts (r : Receiver) : Prop where
  bytes : r.file.length = r.bytesTransferred
  expected : 1 ≤ r.expected

theorem Receiver.Stores.counts {r r' : Receiver} {bufs : List Bytes} (h : r.Stores bufs r')
    (hc : r.Counts) : r'.Counts where
  bytes := by
    have hb := hc.bytes
    rw [h.file, h.bytes, List.length_append]
    omega
  expected := by
    have he := hc.expected
    rw [h.expected]
    omega

theorem Receiver.Stores.within_iff {r r' : Receiver} {bufs : List Bytes} (h : r.Stores bufs r')
    (hc : r.Counts) : r'.Within ↔
      (0 < r.maxWrqSize → (r.bytesTransferred : Int) + bufs.flatten.length ≤ r.maxWrqSize) ∧
      (r.allowRollover = false → r.expected + bufs.length ≤ 65536) := by
  have hb := (h.counts hc).bytes
  have hbytes := h.bytes
  have hexp := h.expected
  constructor
  · intro hw
    constructor
    · intro hM
      have := (hw.size (by rw [h.maxWrqSize]; exact hM)).1
      rw [h.maxWrqSize] at this
      omega
    · intro hroll
      have := hw.blocks (by rw [h.allowRollover]; exact hroll)
      omega
  · rintro ⟨hsize, hblocks⟩
    constructor
    · intro hM
      rw [h.maxWrqSize] at hM ⊢
      omega
    · intro hroll
      rw [h.allowRollover] at hroll
      have := hblocks hroll
      omega

/-- One step keeps the limits exactly if there is room for what it takes. -/
theorem within_resume_iff {r : Receiver} (hc : r.Counts) (hw : r.Within) (i : Input) :
    (r.resume i).1.state.Within ↔ r.KeepsRoom i := by
  have hnone := (Receiver.Stores.none r).within_iff hc
  rcases r.resume_cases i with ⟨payload, fault, hin, heq⟩ | ⟨hin, hst⟩
  · have hkeeps : r.KeepsRoom i ↔
        (¬ (r.overCap payload ∨ ∃ what, fault = some (0, what)) → r.Roomy payload fault) := by
      constructor
      · exact fun h => h payload fault hin
      · intro h payload' fault' hin'
        obtain ⟨rfl, rfl⟩ := Prod.mk.inj (Option.some.inj (hin.symm.trans hin'))
        exact h
    rw [hkeeps, heq]
    rcases onExpected_cases { r with retries := 0 } payload fault with
      ⟨hbad, e, h⟩ | ⟨hgood, hroll, e, h⟩ | ⟨hgood, hroll, h⟩
    · rw [h]
      exact iff_of_true ⟨hw.size, hw.blocks⟩ (fun hgood => absurd hbad hgood)
    · rw [h]
      have hlast : 65535 < r.expected := hroll.2
      refine iff_of_false (fun hw' => ?_) (fun himp => ?_)
      · have hb : r.expected + 1 - 1 ≤ 65535 := hw'.blocks hroll.1
        omega
      · have hb := (himp hgood).blocks hroll.1
        omega
    · have hst := drained_stores { r with retries := 0 } payload fault
      have hst : r.Stores (payload :: r.waiting fault)
          (Receiver.drained { r with retries := 0 } payload fault) :=
        ⟨hst.file, hst.bytes, hst.expected, rfl, rfl, rfl, rfl⟩
      have hstate : (Receiver.onExpected { r with retries := 0 } payload fault).1.state =
          Receiver.drained { r with retries := 0 } payload fault := by
        rw [h]
        split
        · rfl
        · split <;> rfl
      rw [hstate, hst.within_iff hc]
      simp only [List.flatten_cons, List.length_append, List.length_cons]
      constructor
      · rintro ⟨hsize, hblocks⟩ -
        refine ⟨fun hM => ?_, fun hr => ?_⟩
        · omega
        · have := hblocks hr
          omega
      · intro himp
        have hroomy := himp hgood
        refine ⟨fun hM => ?_, fun hr => ?_⟩
        · have := hroomy.size hM
          omega
        · have := hroomy.blocks hr
          omega
  · refine iff_of_true ?_ (fun payload fault h => ?_)
    · rw [hst.within_iff hc, ← hnone]
      exact hw
    · rw [hin] at h
      cases h

/-- What is renamed to the destination: the temporary file, when the loop returns. -/
def renamed : Next Receiver → Option Bytes
  | .ret r => some r.file
  | .wait _ | .raise _ _ => none

/-- The limits are kept by what is written and by what is renamed. -/
def Limited (n : Next Receiver) : Prop :=
  n.state.Within ∧
  ∀ file, renamed n = some file →
    (0 < n.state.maxWrqSize → (file.length : Int) ≤ n.state.maxWrqSize) ∧
    (n.state.allowRollover = false → n.state.expected - 1 ≤ 65535)

theorem limited_iff (n : Next Receiver) : Limited n ↔ n.state.Within := by
  refine ⟨And.left, fun h => ⟨h, fun file hfile => ⟨fun hM => ?_, h.blocks⟩⟩⟩
  cases n with
  | wait r => cases hfile
  | raise r e => cases hfile
  | ret r =>
    cases hfile
    exact (h.size hM).2

/-- **Limits of uploads.**  In every run of the receive loop, whatever comes in, the cap on the size
    and the one on the number of blocks are kept throughout exactly when no block is taken for which
    there is no room: the one expected with those that wait behind it fits under the size cap, and
    none of them is beyond block 65535 where numbers may not roll over. -/
theorem upload_limits_iff (blksize windowsize maxRetries maxWrqSize : Int) (allowRollover : Bool)
    (is : List Input) :
    Always recvStep Limited
      (.wait (Receiver.new blksize windowsize maxRetries maxWrqSize allowRollover)) is ↔
    Along recvStep (fun n i => ∀ r, n = .wait r → r.KeepsRoom i)
      (.wait (Receiver.new blksize windowsize maxRetries maxWrqSize allowRollover)) is := by
  have hcounts : ∀ n i, n.state.Counts → (recvStep n i).state.Counts := by
    intro n i hn
    cases n with
    | wait r =>
      obtain ⟨bufs, hst⟩ := resume_stores r i
      exact hst.counts hn
    | ret r => exact hn
    | raise r e => exact hn
  have hstart : (Receiver.new blksize windowsize maxRetries maxWrqSize allowRollover).Counts :=
    ⟨rfl, Nat.le_refl 1⟩
  have hwithin : (Receiver.new blksize windowsize maxRetries maxWrqSize allowRollover).Within := by
    refine ⟨fun hM => ?_, fun _ => show 1 - 1 ≤ 65535 by decide⟩
    exact ⟨Int.le_of_lt hM, Int.le_of_lt hM⟩
  constructor
  · intro h
    have hall : Always recvStep (fun n => n.state.Counts) (.wait
        (Receiver.new blksize windowsize maxRetries maxWrqSize allowRollover)) is := by
      refine always_of_step hcounts ?_ is
      exact hstart
    refine (h.and hall).along fun n i hn hn' r hr => ?_
    subst hr
    exact (within_resume_iff hn.2 ((limited_iff _).1 hn.1) i).1 ((limited_iff _).1 hn'.1)
  · intro h
    have hinv : ∀ n i, n.state.Within ∧ n.state.Counts → (∀ r, n = .wait r → r.KeepsRoom i) →
        (recvStep n i).state.Within ∧ (recvStep n i).state.Counts := by
      intro n i hn hok
      refine ⟨?_, hcounts n i hn.2⟩
      cases n with
      | wait r => exact (within_resume_iff hn.2 hn.1 i).2 (hok r rfl)
      | ret r => exact hn.1
      | raise r e => exact hn.1
    exact (Along.always (I := fun n => n.state.Within ∧ n.state.Counts) hinv
      ⟨hwithin, hstart⟩ h).mono fun n hn => (limited_iff n).2 hn.1

/-- With a cap of 8 bytes, a full block 2 waits in the buffer; block 1 is short and below the cap,
    block 2 is written behind it, and a file of 15 bytes is renamed. -/
theorem short_block_over_cap :
    renamed (run recvStep (.wait (Receiver.new 8 2 5 8 true))
      [.packet (packData 2 (List.replicate 8 0)) none,
       .packet (packData 1 (List.replicate 7 0)) none]) = some (List.replicate 15 0) ∧
    ¬ Always recvStep Limited (.wait (Receiver.new 8 2 5 8 true))
      [.packet (packData 2 (List.replicate 8 0)) none,
       .packet (packData 1 (List.replicate 7 0)) none] := by
  refine ⟨by decide, fun h => ?_⟩
  have hlast := (h.last.1.size (by decide)).2
  revert hlast
  decide

end Nishro.Py

import NishroTftp.Lib.FileOps
import NishroTftp.Py.Receive
/-
  What an upload of the Python engine does to the disk.

  `_recv_file` makes the directory, opens `<destination>.part`, writes blocks into it and renames it
  at the end; `_run_wrq` then uploads and removes the staging file of an FTP target.  A session is a
  task: it can be CANCELLED at every `await` (the open, a wait for a packet, a write, the close, the
  FTP upload), and `CancelledError` passes every handler.  `Upload` is a session together with the
  list of its operations on files; `Session.resume` says what the session itself does.

  Nothing suspends between `os.replace` and the end of a local session, since the mutex of the lock
  table is never held across an `await`: there is no cancelling it half-way there.
-/
namespace Nishro.Py

open Runs FileOps

/-! ## The machine -/

/-- The temporary file of an upload. -/
def part (path : Str) : Str := path ++ str ".part"

theorem part_ne (path : Str) : part path ≠ path := by
  intro h
  have := congrArg List.length h
  simp [part, str] at this

/-- The text of `FileLockError` for a writer. -/
def fileBusy (filename : Str) : Str := str "file busy: " ++ filename

/-- How the operations that `World` says nothing of end, and where the task is cancelled. -/
structure Fate where
  /-- somebody holds the lock on the file -/
  busy : Bool
  /-- the directories that `os.makedirs` makes for this path -/
  made : Str → List Str
  /-- cancelled while the temporary file is being opened; has it been made? -/
  cancelOpen : Option Bool
  /-- cancelled while the temporary file is being closed -/
  cancelClose : Bool
  /-- cancelled while `source.upload` runs -/
  cancelUpload : Bool
  /-- `os.remove` of the staging file works -/
  removes : Bool

/-- The surroundings of a session, the lock being what this fate says. -/
def Fate.world (f : Fate) (a : SessionArgs) (w : World) : World :=
  { w with lock := if f.busy then some (fileBusy a.request.filename) else none }

inductive UploadEvent
  /-- the wait for a packet ends -/
  | input (i : Input)
  /-- the task is cancelled in that wait -/
  | cancel
  /-- it is cancelled after so many of the writes that this packet leads to -/
  | cancelWrite (pkt : Bytes) (n : Nat)

structure Upload where
  s : Session
  /-- what has been done on disk -/
  ops : List (Op Str UInt8)
  /-- the blocks that were taken in, with their numbers -/
  accepted : List (Nat × Bytes)

/-- `CancelledError` leaves `_safe_run` without a word. -/
def Session.cancelled (s : Session) : Session := { s with stage := .ended }

/-- Where the upload would be received, if every check before the file is opened lets it pass. -/
def SessionArgs.opensAt (a : SessionArgs) (w : World) : Option Str :=
  match (Session.start a { w with openTmp := none }).1.stage with
  | .receiving _ path => some path
  | _ => none

/-- A new session, up to its first wait for a packet. -/
def Upload.start (a : SessionArgs) (w : World) (f : Fate) : Upload :=
  let w := f.world a w
  let s := (Session.start a w).1
  match a.opensAt w with
  | none => ⟨s, [], []⟩
  | some path =>
    let made := (f.made path).map .mkdir
    match w.openTmp with
    | some _ => ⟨s, made, []⟩
    | none =>
      match f.cancelOpen with
      | some true => ⟨s.cancelled, made ++ [.create (part path)], []⟩
      | some false => ⟨s.cancelled, made, []⟩
      | none => ⟨s, made ++ [.create (part path)], []⟩

/-- The block a packet brings, with the number it is taken for. -/
def Receiver.takes (r : Receiver) : Input → Option (Nat × Bytes)
  | .timeout => none
  | .packet pkt _ =>
    match peekOpcode pkt, parseData pkt with
    | .ok op, .ok (wire, payload) =>
      if op = OP_DATA then (absolute r.expected r.windowsize.toNat wire).map (·, payload) else none
    | _, _ => none

/-- What is written between two states of the loop. -/
def appended (path : Str) (r r' : Receiver) : List (Op Str UInt8) :=
  [.append (part path) (r'.file.drop r.file.length)]

/-- After the last block: the temporary file is closed and renamed, and an FTP target uploaded and
    removed.  `s` is the session as it was, `s'` what becomes of it if it is not cancelled. -/
def Fate.finish (f : Fate) (s s' : Session) (path : Str) : Session × List (Op Str UInt8) :=
  if f.cancelClose then (s.cancelled, [])
  else if s.world.replace.isSome then (s', [])
  else if s.args.isFtpName s.args.request.filename then
    if f.cancelUpload then (s.cancelled, [.rename (part path) path])
    else (s', .rename (part path) path :: if f.removes then [.remove path] else [])
  else (s', [.rename (part path) path])

/-- The wait of `_recv_file` ends. -/
def Upload.input (f : Fate) (u : Upload) (r : Receiver) (path : Str) (i : Input) : Upload :=
  let n := (r.resume i).1
  let s := { u.s with info := { u.s.info with bytesTransferred := n.state.bytesTransferred } }
  let last : Session × List (Op Str UInt8) :=
    match n with
    | .wait _ => ((u.s.resume i).1, [])
    | .raise _ _ => (if f.cancelClose then s.cancelled else (u.s.resume i).1, [])
    | .ret _ => f.finish s (u.s.resume i).1 path
  ⟨last.1, u.ops ++ appended path r n.state ++ last.2, u.accepted ++ (r.takes i).toList⟩

/-- The task is cancelled after so many writes, or at the next `await` if the packet leads to no
    more; a packet that ends the session by itself is not survived for that. -/
def Upload.cutOff (f : Fate) (u : Upload) (r : Receiver) (path : Str) (pkt : Bytes) (n : Nat) :
    Upload :=
  let i := Input.packet pkt (some (n, []))
  match (r.resume i).1 with
  | .raise _ (.tftp _) => u.input f r path i
  | next =>
    let s := { u.s with info := { u.s.info with bytesTransferred := next.state.bytesTransferred } }
    ⟨s.cancelled, u.ops ++ appended path r next.state, u.accepted ++ (r.takes i).toList⟩

def uploadStep (f : Fate) (u : Upload) (e : UploadEvent) : Upload :=
  match u.s.stage with
  | .receiving r path =>
    match e with
    | .input i => u.input f r path i
    | .cancel => { u with s := u.s.cancelled }
    | .cancelWrite pkt n => u.cutOff f r path pkt n
  | _ => u

/-- A task that nobody cancels. -/
def leftAlone : Fate := ⟨false, fun _ => [], none, false, false, true⟩

/-! ## The blocks in the file -/

theorem contiguous_mem {fuel n k : Nat} {w : List (Nat × Bytes)} {b : Bytes}
    (h : (contiguous fuel n w)[k]? = some b) : (n + k, b) ∈ w := by
  induction fuel generalizing n k with
  | zero => simp [contiguous] at h
  | succ fuel ih =>
    rw [contiguous] at h
    cases hl : w.lookup n with
    | none => simp [hl] at h
    | some buf =>
      rw [hl] at h
      cases k with
      | zero =>
        cases Option.some.inj h
        exact Dict.mem_of_lookup hl
      | succ k =>
        have := ih (n := n + 1) (k := k) h
        rwa [show n + 1 + k = n + (k + 1) by omega] at this

/-- The file is made of blocks that were taken in under their numbers, and so is the buffer. -/
structure Receiver.Holds (r : Receiver) (log : List (Nat × Bytes)) : Prop where
  blocks : ∃ blocks : List Bytes, r.file = blocks.flatten ∧ r.expected = blocks.length + 1 ∧
    ∀ k b, blocks[k]? = some b → (k + 1, b) ∈ log
  buffered : ∀ m ∈ r.windowReceived, m ∈ log

theorem takes_of_inOrder {r : Receiver} {i : Input} {payload : Bytes} {fault : Option (Nat × Str)}
    (h : r.inOrder i = some (payload, fault)) : r.takes i = some (r.expected, payload) := by
  cases i with
  | timeout => cases h
  | packet pkt fault' =>
    simp only [Receiver.inOrder] at h
    simp only [Receiver.takes]
    cases hop : peekOpcode pkt with
    | error e => simp [hop] at h
    | ok op =>
      cases hparse : parseData pkt with
      | error e => simp [hop, hparse] at h
      | ok d =>
        simp only [hop, hparse] at h ⊢
        split at h
        · next hif =>
          cases Option.some.inj h
          rw [if_pos hif.1, hif.2]
          rfl
        · cases h

/-- What is in the buffer after a step was there before, or has just been taken in. -/
theorem resume_buffered {r : Receiver} {i : Input} {m : Nat × Bytes}
    (h : m ∈ (r.resume i).1.state.windowReceived) : m ∈ r.windowReceived ∨ r.takes i = some m := by
  rcases r.resume_cases i with ⟨payload, fault, -, heq⟩ | ⟨hin, -⟩
  · left
    rw [heq] at h
    rcases onExpected_cases { r with retries := 0 } payload fault with
      ⟨-, e, hn⟩ | ⟨-, -, e, hn⟩ | ⟨-, -, hn⟩
    · rw [hn] at h
      exact h
    · rw [hn] at h
      exact h
    have hst : (Receiver.onExpected { r with retries := 0 } payload fault).1.state =
        Receiver.drained { r with retries := 0 } payload fault := by
      rw [hn]
      split
      · rfl
      · split <;> rfl
    rw [hst] at h
    exact List.mem_of_mem_filter h
  · cases i with
    | timeout =>
      left
      simp only [Receiver.resume] at h
      split at h <;> exact h
    | packet pkt fault =>
      simp only [Receiver.resume] at h
      simp only [Receiver.takes]
      simp only [Receiver.inOrder] at hin
      cases hop : peekOpcode pkt with
      | error e =>
        rw [hop] at h
        exact .inl h
      | ok op =>
        simp only [hop] at h hin ⊢
        by_cases herr : op = OP_ERROR
        · left
          rw [if_pos herr] at h
          cases hpe : parseError pkt <;> (rw [hpe] at h; exact h)
        rw [if_neg herr] at h
        by_cases hdata : op = OP_DATA
        · rw [if_neg (not_not.2 hdata)] at h
          cases hparse : parseData pkt with
          | error e =>
            rw [hparse] at h
            exact .inl h
          | ok d =>
            obtain ⟨wire, payload⟩ := d
            simp only [hparse, hdata, true_and, if_true] at h hin ⊢
            cases habs : absolute r.expected r.windowsize.toNat wire with
            | none =>
              rw [habs] at h
              exact .inl h
            | some n =>
              simp only [habs, Option.some.injEq] at h hin ⊢
              by_cases hn : n = r.expected
              · rw [if_pos hn] at hin
                cases hin
              · rw [if_neg hn] at h
                rcases List.mem_cons.1 h with rfl | h
                · exact .inr rfl
                · exact .inl (List.mem_of_mem_filter h)
        · rw [if_pos hdata] at h
          exact .inl h

theorem waiting_behind {r : Receiver} {fault : Option (Nat × Str)} {k : Nat} {b : Bytes}
    (h : (r.waiting fault)[k]? = some b) : r.behind[k]? = some b := by
  cases fault with
  | none => exact h
  | some f =>
    have h : (r.behind.take (f.1 - 1))[k]? = some b := h
    rw [List.getElem?_take] at h
    split at h
    · exact h
    · cases h

/-- The blocks a step writes continue those in the file. -/
theorem resume_writes {r : Receiver} {log : List (Nat × Bytes)} (hr : r.Holds log) (i : Input) :
    ∃ bufs, r.Stores bufs (r.resume i).1.state ∧
      ∀ k b, bufs[k]? = some b → (r.expected + k, b) ∈ log ++ (r.takes i).toList := by
  rcases r.resume_cases i with ⟨payload, fault, hin, heq⟩ | ⟨-, h⟩
  · have hfirst : (r.expected, payload) ∈ log ++ (r.takes i).toList := by
      rw [takes_of_inOrder hin]
      simp
    rw [heq]
    rcases onExpected_cases { r with retries := 0 } payload fault with
      ⟨-, e, h⟩ | ⟨-, -, e, h⟩ | ⟨-, -, h⟩
    · refine ⟨[], ?_, fun k b hk => by simp at hk⟩
      rw [h]
      exact ⟨(Receiver.Stores.none r).file, (Receiver.Stores.none r).bytes, rfl, rfl, rfl, rfl, rfl⟩
    · refine ⟨[payload], ?_, fun k b hk => ?_⟩
      · rw [h]
        exact ⟨by simp [Next.state, Receiver.store], by simp [Next.state, Receiver.store],
          rfl, rfl, rfl, rfl, rfl⟩
      · cases k with
        | zero =>
          cases Option.some.inj hk
          exact hfirst
        | succ k => simp at hk
    · refine ⟨payload :: r.waiting fault, ?_, fun k b hk => ?_⟩
      · have hst := drained_stores { r with retries := 0 } payload fault
        have hst : r.Stores (payload :: r.waiting fault)
            (Receiver.drained { r with retries := 0 } payload fault) :=
          ⟨hst.file, hst.bytes, hst.expected, rfl, rfl, rfl, rfl⟩
        rw [h]
        split
        · exact hst
        · split <;> exact hst
      · cases k with
        | zero =>
          cases Option.some.inj hk
          exact hfirst
        | succ k =>
          have hmem := contiguous_mem (waiting_behind hk)
          rw [show r.expected + 1 + k = r.expected + (k + 1) by omega] at hmem
          exact List.mem_append_left _ (hr.buffered _ hmem)
  · exact ⟨[], h, fun k b hk => by simp at hk⟩

/-- One step. -/
theorem Receiver.Holds.resume {r : Receiver} {log : List (Nat × Bytes)} (hr : r.Holds log)
    (i : Input) : (r.resume i).1.state.Holds (log ++ (r.takes i).toList) := by
  constructor
  · obtain ⟨blocks, hfile, hexp, hlog⟩ := hr.blocks
    obtain ⟨bufs, hst, hbufs⟩ := resume_writes hr i
    refine ⟨blocks ++ bufs, ?_, ?_, fun k b hk => ?_⟩
    · rw [hst.file, hfile, List.flatten_append]
    · rw [hst.expected, hexp, List.length_append]
      omega
    by_cases hlt : k < blocks.length
    · rw [List.getElem?_append_left hlt] at hk
      exact List.mem_append_left _ (hlog k b hk)
    · rw [List.getElem?_append_right (by omega)] at hk
      have := hbufs _ b hk
      rwa [hexp, show blocks.length + 1 + (k - blocks.length) = k + 1 by omega] at this
  · intro m hm
    rcases resume_buffered hm with hm | hm
    · exact List.mem_append_left _ (hr.buffered m hm)
    · rw [hm]
      simp

theorem Receiver.Holds.new (blksize windowsize maxRetries maxWrqSize : Int) (allowRollover : Bool)
    (log : List (Nat × Bytes)) :
    (Receiver.new blksize windowsize maxRetries maxWrqSize allowRollover).Holds log :=
  ⟨⟨[], rfl, rfl, fun k b hk => by simp at hk⟩, fun m hm => by cases hm⟩

end Nishro.Py

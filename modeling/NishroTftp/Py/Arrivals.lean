import Mathlib.Data.List.Nodup
import Mathlib.Data.List.Perm.Subperm
import NishroTftp.Py.Receive
/-
  When an upload ends.

  The blocks of a conforming upload arrive in any order and any number of times, inside the receive
  window.  `Tracks` says what the loop of `_recv_file` knows of the arrivals so far: it expects the
  first block that is missing, holds those beyond it, and has written those before it.  The invariant
  carries the file all the way to the last arrival.  The END is another matter: it is seen only on a
  short block that comes in order, so a last block that waited in the buffer is written and not seen.
-/
namespace Nishro.Py

open Runs

/-! ## Arrivals -/

/-- Blocks `1 .. k` with these payloads are a file: the last one, and it alone, is short. -/
structure Conforming (blksize : Int) (k : Nat) (p : Nat → Bytes) : Prop where
  some_block : 1 ≤ k
  full : ∀ n, 1 ≤ n → n < k → blksize ≤ ((p n).length : Int)
  short : ((p k).length : Int) < blksize

/-- The payloads of the blocks before `n`. -/
def before (p : Nat → Bytes) (n : Nat) : Bytes := ((List.range' 1 (n - 1)).map p).flatten

theorem before_add (p : Nat → Bytes) {n : Nat} (hn : 1 ≤ n) (c : Nat) :
    before p (n + c) = before p n ++ ((List.range' n c).map p).flatten := by
  have h : List.range' 1 (n + c - 1) = List.range' 1 (n - 1) ++ List.range' n c := by
    have := @List.range'_append 1 (n - 1) c 1
    rw [show 1 + 1 * (n - 1) = n by omega, show n - 1 + c = n + c - 1 by omega] at this
    exact this.symm
  unfold before
  rw [h, List.map_append, List.flatten_append]

theorem length_before_le (p : Nat → Bytes) {n m : Nat} (hn : 1 ≤ n) (h : n ≤ m) :
    (before p n).length ≤ (before p m).length := by
  obtain ⟨c, rfl⟩ := Nat.exists_eq_add_of_le h
  rw [before_add p hn, List.length_append]
  omega

/-- Block `n` on the wire; the disk takes what is written to it. -/
def arrival (p : Nat → Bytes) (n : Nat) : Input :=
  .packet (packData (UInt16.ofNat n) (p n)) none

/-- The loop, over arrivals. -/
def arrive (p : Nat → Bytes) (s : Next Receiver) (n : Nat) : Next Receiver :=
  recvStep s (arrival p n)

/-- The number of block `n` on the wire is taken for what it is: for `n` if that is expected or
    beyond, and for nothing if it has been written. -/
def Receiver.Recognises (r : Receiver) (n : Nat) : Prop :=
  absolute r.expected r.windowsize.toNat (UInt16.ofNat n) = if r.expected ≤ n then some n else none

/-- So it is for every block inside the window, and for those behind it that are not so old that
    their numbers have come round. -/
theorem Receiver.recognises_of_window {r : Receiver} {n : Nat}
    (hwin : r.windowsize.toNat ≤ 65536) (hlt : n < r.expected + r.windowsize.toNat)
    (hold : r.expected + r.windowsize.toNat ≤ n + 65536) : r.Recognises n := by
  have hwire : (UInt16.ofNat n).toNat = n % 65536 := by simp
  have hmod : ∀ c, r.expected ≤ c → c < r.expected + r.windowsize.toNat →
      c % 65536 = n % 65536 → c = n := by
    intro c hc hc' h
    omega
  unfold Receiver.Recognises absolute
  by_cases hn : r.expected ≤ n
  · rw [if_pos hn]
    cases hf : (List.range' r.expected r.windowsize.toNat).find? fun c =>
        c % 65536 == (UInt16.ofNat n).toNat with
    | none =>
      have := List.find?_eq_none.1 hf n (by rw [List.mem_range'_1]; exact ⟨hn, hlt⟩)
      simp [hwire] at this
    | some c =>
      have hmem := List.mem_of_find?_eq_some hf
      rw [List.mem_range'_1] at hmem
      have heq := List.find?_some hf
      simp only [hwire, beq_iff_eq] at heq
      rw [hmod c hmem.1 hmem.2 heq]
  · rw [if_neg hn, List.find?_eq_none]
    intro c hc h
    rw [List.mem_range'_1] at hc
    simp only [hwire, beq_iff_eq] at h
    omega

/-! ## What waits in the buffer -/

section Buffer

variable {p : Nat → Bytes} {S : Nat → Prop} [DecidablePred S] {w : List (Nat × Bytes)}

/-- A round of the drain for each block in a row, as long as the rounds last. -/
theorem contiguous_eq (fuel m : Nat)
    (hw : ∀ j, m ≤ j → w.lookup j = if S j then some (p j) else none) :
    ∃ c, c ≤ fuel ∧ contiguous fuel m w = (List.range' m c).map p ∧
      (∀ j, m ≤ j → j < m + c → S j) ∧ (c = fuel ∨ ¬ S (m + c)) := by
  induction fuel generalizing m with
  | zero => exact ⟨0, Nat.le_refl 0, rfl, fun j h h' => by omega, .inl rfl⟩
  | succ fuel ih =>
    by_cases hm : S m
    · obtain ⟨c, hc, heq, hall, hend⟩ := ih (m + 1) fun j hj => hw j (by omega)
      refine ⟨c + 1, by omega, ?_, fun j hj hj' => ?_, ?_⟩
      · rw [contiguous, hw m (Nat.le_refl m), if_pos hm, List.range'_succ, List.map_cons, ← heq]
      · by_cases hjm : j = m
        · rw [hjm]
          exact hm
        · exact hall j (by omega) (by omega)
      · rcases hend with hend | hend
        · exact .inl (by omega)
        · rw [show m + 1 + c = m + (c + 1) by omega] at hend
          exact .inr hend
    · refine ⟨0, Nat.zero_le _, ?_, fun j h h' => by omega, .inr hm⟩
      rw [contiguous, hw m (Nat.le_refl m), if_neg hm]
      rfl

/-- There are never more blocks in a row than rounds, so the drain stops at the first that is
    missing. -/
theorem contiguous_all (m : Nat)
    (hw : ∀ j, m ≤ j → w.lookup j = if S j then some (p j) else none) :
    ∃ c, contiguous w.length m w = (List.range' m c).map p ∧
      (∀ j, m ≤ j → j < m + c → S j) ∧ ¬ S (m + c) := by
  obtain ⟨c, -, heq, hall, hend⟩ := contiguous_eq w.length m hw
  refine ⟨c, heq, hall, fun hS => ?_⟩
  rcases hend with hend | hend
  · -- `c + 1` different keys in a list of `c` entries
    have hsub : List.range' m (c + 1) ⊆ w.map (·.1) := by
      intro j hj
      rw [List.mem_range'_1] at hj
      have hSj : S j := by
        by_cases hjc : j = m + c
        · rw [hjc]
          exact hS
        · exact hall j hj.1 (by omega)
      refine Classical.byContradiction fun hno => ?_
      have hnone := Dict.lookup_eq_none_of_not_mem hno
      rw [hw j hj.1, if_pos hSj] at hnone
      cases hnone
    have hlen := List.Nodup.length_le_of_subset (List.nodup_range' 1) hsub
    rw [List.length_range', List.length_map] at hlen
    omega
  · exact hend hS

end Buffer

/-! ## The loop over arrivals -/

section Loop

variable {p : Nat → Bytes} {ms : List Nat} {r : Receiver} {n : Nat}

/-- What the arrival of a block that is recognised leads to. -/
theorem resume_arrival (hrec : r.Recognises n) :
    (r.resume (arrival p n)).1 =
      if n = r.expected then (Receiver.onExpected { r with retries := 0 } (p n) none).1
      else if n < r.expected then .wait { r with retries := 0 }
      else .wait { r with retries := 0, windowReceived := setReceived r.windowReceived n (p n) } := by
  have hne : OP_DATA ≠ OP_ERROR := by decide
  unfold Receiver.Recognises at hrec
  simp only [arrival, Receiver.resume, peekOpcode_packData, if_neg hne, ne_eq, not_true_eq_false, if_false,
    parseData_packData, hrec]
  by_cases hle : r.expected ≤ n
  · have hlt : ¬ n < r.expected := by omega
    rw [if_pos hle, if_neg hlt]
    dsimp only
    by_cases heq : n = r.expected
    · rw [if_pos heq, if_pos heq]
    · rw [if_neg heq, if_neg heq]
  · have hlt : n < r.expected := by omega
    rw [if_neg hle, if_pos hlt, if_neg (Nat.ne_of_lt hlt)]

/-- What the loop knows of the arrivals `ms`. -/
structure Tracks (p : Nat → Bytes) (ms : List Nat) (r : Receiver) : Prop where
  some_block : 1 ≤ r.expected
  arrived : ∀ j, 1 ≤ j → j < r.expected → j ∈ ms
  missing : r.expected ∉ ms
  buffered : ∀ j, r.expected ≤ j →
    r.windowReceived.lookup j = if j ∈ ms then some (p j) else none
  file : r.file = before p r.expected
  bytes : r.bytesTransferred = (before p r.expected).length

/-- The retries are no part of it. -/
theorem Tracks.retries (ht : Tracks p ms r) (m : Nat) : Tracks p ms { r with retries := m } :=
  ⟨ht.some_block, ht.arrived, ht.missing, ht.buffered, ht.file, ht.bytes⟩

/-- A block that was written already. -/
theorem Tracks.again (ht : Tracks p ms r) (hone : 1 ≤ n) (hlt : n < r.expected) :
    Tracks p (ms ++ [n]) r := by
  have hmem := ht.arrived n hone hlt
  have hiff : ∀ j, j ∈ ms ++ [n] ↔ j ∈ ms := by
    intro j
    simp only [List.mem_append, List.mem_singleton]
    exact ⟨fun h => h.elim id (fun e => e ▸ hmem), .inl⟩
  refine ⟨ht.some_block, fun j h h' => (hiff j).2 (ht.arrived j h h'), fun h => ?_, fun j hj => ?_,
    ht.file, ht.bytes⟩
  · exact ht.missing ((hiff _).1 h)
  · rw [ht.buffered j hj]
    simp only [hiff]

/-- A block beyond the expected one. -/
theorem Tracks.ahead (ht : Tracks p ms r) (hlt : r.expected < n) :
    Tracks p (ms ++ [n]) { r with windowReceived := setReceived r.windowReceived n (p n) } := by
  refine ⟨ht.some_block, fun j h h' => List.mem_append_left _ (ht.arrived j h h'), ?_, ?_,
    ht.file, ht.bytes⟩
  · intro h
    rcases List.mem_append.1 h with h | h
    · exact ht.missing h
    · have : r.expected = n := List.mem_singleton.1 h
      omega
  · intro j hj
    have hfilter : (r.windowReceived.filter fun kv => kv.1 ≠ n).lookup j =
        if j ≠ n then r.windowReceived.lookup j else none := by
      have := Dict.lookup_filter r.windowReceived (fun k => decide (k ≠ n)) j
      simpa using this
    show ((n, p n) :: r.windowReceived.filter fun kv => kv.1 ≠ n).lookup j = _
    rw [List.lookup_cons]
    by_cases hjn : j = n
    · subst hjn
      simp
    · have hne : (j == n) = false := beq_false_of_ne hjn
      rw [hne, hfilter, if_pos hjn, ht.buffered j hj]
      simp [hjn]

/-- The expected block, with those behind it. -/
theorem Tracks.next (ht : Tracks p ms r) :
    Tracks p (ms ++ [r.expected]) (r.drained (p r.expected) none) := by
  obtain ⟨c, heq, hall, hend⟩ := contiguous_all (S := fun j => j ∈ ms) (r.expected + 1)
    fun j hj => ht.buffered j (by omega)
  have hbehind : r.waiting none = (List.range' (r.expected + 1) c).map p := heq
  have hlen : (r.waiting none).length = c := by
    rw [hbehind, List.length_map, List.length_range']
  have hexp : (r.drained (p r.expected) none).expected = r.expected + (1 + c) := by
    show r.expected + 1 + (r.waiting none).length = _
    omega
  have hblocks : (p r.expected :: r.waiting none).flatten =
      ((List.range' r.expected (1 + c)).map p).flatten := by
    rw [hbehind, Nat.add_comm 1 c, List.range'_succ, List.map_cons]
  have hone := ht.some_block
  refine ⟨by omega, ?_, ?_, ?_, ?_, ?_⟩
  · intro j hj hj'
    rw [List.mem_append, List.mem_singleton]
    by_cases h : j < r.expected
    · exact .inl (ht.arrived j hj h)
    · by_cases h' : j = r.expected
      · exact .inr h'
      · exact .inl (hall j (by omega) (by omega))
  · rw [hexp, List.mem_append, List.mem_singleton]
    rintro (h | h)
    · rw [show r.expected + (1 + c) = r.expected + 1 + c by omega] at h
      exact hend h
    · omega
  · intro j hj
    have hfilter := Dict.lookup_filter r.windowReceived (fun m =>
      ! (decide (r.expected + 1 ≤ m) && decide (m < r.expected + 1 + (r.waiting none).length))) j
    have hkeep : (! (decide (r.expected + 1 ≤ j) &&
        decide (j < r.expected + 1 + (r.waiting none).length))) = true := by
      have : ¬ j < r.expected + 1 + (r.waiting none).length := by omega
      simp [this]
    rw [hkeep, if_pos rfl, ht.buffered j (by omega)] at hfilter
    refine hfilter.trans ?_
    have hne : j ≠ r.expected := by omega
    simp [hne]
  · rw [hexp, before_add p hone, ← hblocks, ← ht.file]
    rfl
  · rw [hexp, before_add p hone, ← hblocks, List.length_append, ← ht.bytes]
    rfl

/-- The limits do not stand against an upload of the blocks `1 .. k`. -/
structure Receiver.Allows (r : Receiver) (p : Nat → Bytes) (k : Nat) : Prop where
  size : r.maxWrqSize ≠ 0 → ((before p (k + 1)).length : Int) ≤ r.maxWrqSize
  blocks : r.allowRollover = false → k ≤ 65535

theorem Receiver.Stores.allows_iff {r' : Receiver} {bufs : List Bytes} (h : r.Stores bufs r')
    (p : Nat → Bytes) (k : Nat) : r'.Allows p k ↔ r.Allows p k := by
  constructor
  · rintro ⟨h1, h2⟩
    rw [h.maxWrqSize] at h1
    rw [h.allowRollover] at h2
    exact ⟨h1, h2⟩
  · rintro ⟨h1, h2⟩
    rw [← h.maxWrqSize] at h1
    rw [← h.allowRollover] at h2
    exact ⟨h1, h2⟩

/-- The expected block is refused exactly if the limits stand against the upload that ends
    with it. -/
theorem Tracks.refuses_iff (ht : Tracks p ms r) :
    ¬ r.Allows p r.expected ↔
      r.overCap (p r.expected) ∨ (r.allowRollover = false ∧ 65535 < r.expected) := by
  have hlen : (before p (r.expected + 1)).length =
      r.bytesTransferred + (p r.expected).length := by
    rw [before_add p ht.some_block, ht.bytes, List.length_append]
    simp [List.range'_succ]
  constructor
  · intro h
    by_cases hcap : r.overCap (p r.expected)
    · exact .inl hcap
    by_cases hroll : r.allowRollover = false ∧ 65535 < r.expected
    · exact .inr hroll
    refine absurd ⟨fun hM => ?_, fun hr => ?_⟩ h
    · have : ¬ r.maxWrqSize < (r.bytesTransferred : Int) + (p r.expected).length :=
        fun hlt => hcap ⟨hM, hlt⟩
      omega
    · exact Nat.le_of_not_lt fun hlt => hroll ⟨hr, hlt⟩
  · rintro (⟨hM, hlt⟩ | ⟨hr, hlt⟩) ⟨hsize, hblocks⟩
    · omega
    · have := hblocks hr
      omega

/-- What allows the whole file allows its first blocks. -/
theorem Receiver.Allows.mono {k m : Nat} (h : r.Allows p k) (hm : m ≤ k) : r.Allows p m := by
  refine ⟨fun hM => ?_, fun hr => ?_⟩
  · have h1 := h.size hM
    have h2 := length_before_le p (Nat.le_add_left 1 m) (Nat.add_le_add_right hm 1)
    omega
  · exact Nat.le_trans hm (h.blocks hr)

/-- **One arrival.**  What the loop knows is carried on, and it returns only on a short block that
    was expected; unless it is the expected block and the limits refuse it. -/
theorem arrive_cases (ht : Tracks p ms r) (hrec : r.Recognises n) (hone : 1 ≤ n) :
    ((n = r.expected → r.Allows p n) ∧
      ∃ r', arrive p (.wait r) n =
          (if n = r.expected ∧ ((p n).length : Int) < r.blksize then .ret r' else .wait r') ∧
        Tracks p (ms ++ [n]) r' ∧ ∃ bufs, r.Stores bufs r') ∨
    (n = r.expected ∧ ¬ r.Allows p n ∧ ∃ r' e, arrive p (.wait r) n = .raise r' e) := by
  obtain ⟨bufs, hst⟩ := resume_stores r (arrival p n)
  have harr : arrive p (.wait r) n = (r.resume (arrival p n)).1 := rfl
  rw [harr]
  rw [resume_arrival hrec] at hst ⊢
  by_cases heq : n = r.expected
  · rw [if_pos heq] at hst ⊢
    subst heq
    rcases onExpected_cases { r with retries := 0 } (p r.expected) none with
      ⟨hbad, e, h⟩ | ⟨-, hroll, e, h⟩ | ⟨hgood, hroll, h⟩
    · right
      refine ⟨rfl, ht.refuses_iff.2 (hbad.imp id fun ⟨_, hw⟩ => by cases hw), _, e, h⟩
    · right
      exact ⟨rfl, ht.refuses_iff.2 (.inr hroll), _, e, h⟩
    left
    have hallow : r.Allows p r.expected := by
      refine Classical.byContradiction fun hno => ?_
      rcases ht.refuses_iff.1 hno with hcap | hr
      · exact hgood (.inl hcap)
      · exact hroll hr
    rw [h] at hst ⊢
    have hnext := (ht.retries 0).next
    by_cases hshort : ((p r.expected).length : Int) < r.blksize
    · exact ⟨fun _ => hallow, _, by simp [Receiver.stopped, hshort], hnext, bufs,
        by simpa [Receiver.stopped, hshort, Next.state] using hst⟩
    · exact ⟨fun _ => hallow, _, by simp [Receiver.stopped, hshort], hnext, bufs,
        by simpa [Receiver.stopped, hshort, Next.state] using hst⟩
  · left
    refine ⟨fun h => absurd h heq, ?_⟩
    rw [if_neg heq] at hst ⊢
    by_cases hlt : n < r.expected
    · rw [if_pos hlt] at hst ⊢
      exact ⟨_, by simp [heq], (ht.again hone hlt).retries 0, bufs, hst⟩
    · rw [if_neg hlt] at hst ⊢
      exact ⟨_, by simp [heq], (ht.retries 0).ahead (show r.expected < n by omega), bufs, hst⟩

/-- What has been refused stays so. -/
theorem run_raise (p : Nat → Bytes) (r : Receiver) (e : Exc) (ns : List Nat) :
    run (arrive p) (.raise r e) ns = .raise r e := by
  induction ns with
  | nil => rfl
  | cons n ns ih => exact ih

/-- As long as a block is missing the loop waits and knows its arrivals, unless the limits stand
    against the upload and it has been refused. -/
theorem run_arrivals {k j : Nat} (hconf : Conforming r.blksize k p) (hj : 1 ≤ j ∧ j ≤ k)
    (ns : List Nat) (ht : Tracks p ms r) (hns : ∀ n ∈ ns, 1 ≤ n ∧ n ≤ k) (hmiss : j ∉ ms ++ ns)
    (hwin : Along (arrive p) (fun s n => ∀ r, s = .wait r → r.Recognises n) (.wait r) ns) :
    (∃ r', run (arrive p) (.wait r) ns = .wait r' ∧ Tracks p (ms ++ ns) r' ∧
      ∃ bufs, r.Stores bufs r') ∨
    (¬ r.Allows p k ∧ ∃ r' e, run (arrive p) (.wait r) ns = .raise r' e) := by
  induction ns generalizing ms r with
  | nil => exact .inl ⟨r, rfl, by simpa using ht, [], .none r⟩
  | cons n ns ih =>
    obtain ⟨hn, hns⟩ := List.forall_mem_cons.1 hns
    have hexp : r.expected ≤ j := by
      refine Nat.le_of_not_lt fun hlt => hmiss ?_
      exact List.mem_append_left _ (ht.arrived j hj.1 hlt)
    rw [run_cons]
    rcases arrive_cases ht (hwin.1 r rfl) hn.1 with
      ⟨-, r', harr, ht', bufs, hst⟩ | ⟨rfl, hno, r', e, harr⟩
    · -- a short block in order would be the last one, with nothing missing before it
      have hlast : ¬ (n = r.expected ∧ ((p n).length : Int) < r.blksize) := by
        rintro ⟨heq, hshort⟩
        have hk : n = k := by
          refine Classical.byContradiction fun hne => ?_
          have := hconf.full n hn.1 (by omega)
          omega
        have hjn : j = n := by omega
        exact hmiss (by simp [hjn])
      rw [if_neg hlast] at harr
      have hmiss' : j ∉ ms ++ [n] ++ ns := by simpa using hmiss
      have hwin' := hwin.2
      rw [harr] at hwin' ⊢
      rw [← hst.blksize] at hconf
      rcases ih hconf ht' hns hmiss' hwin' with ⟨r'', hrun, ht'', bufs', hst'⟩ | ⟨hno, hrun⟩
      · rw [List.append_assoc] at ht''
        exact .inl ⟨r'', hrun, ht'', bufs ++ bufs', hst.trans hst'⟩
      · exact .inr ⟨fun h => hno ((hst.allows_iff p k).2 h), hrun⟩
    · refine .inr ⟨fun h => hno (h.mono hn.2), r', e, ?_⟩
      rw [harr, run_raise]

end Loop

/-- **The end of an upload.**  Let the blocks of a file arrive in any order, any number of times and
    inside the window, until with `n` none is missing.  With that arrival the loop returns and the
    whole file is renamed exactly if it was the LAST block of the file that was missing and the
    limits allow the upload. -/
theorem upload_ends_iff {blksize windowsize maxRetries maxWrqSize : Int} {allowRollover : Bool}
    {k : Nat} {p : Nat → Bytes} (hconf : Conforming blksize k p) (ns : List Nat) (n : Nat)
    (hns : ∀ m ∈ ns ++ [n], 1 ≤ m ∧ m ≤ k)
    (hwin : Along (arrive p) (fun s m => ∀ r, s = .wait r → r.Recognises m)
      (.wait (Receiver.new blksize windowsize maxRetries maxWrqSize allowRollover)) (ns ++ [n]))
    (hnew : n ∉ ns) (hall : ∀ m, 1 ≤ m → m ≤ k → m ∈ ns ++ [n]) :
    renamed (run (arrive p)
        (.wait (Receiver.new blksize windowsize maxRetries maxWrqSize allowRollover)) (ns ++ [n])) =
      some ((List.range' 1 k).map p).flatten ↔
    n = k ∧ (Receiver.new blksize windowsize maxRetries maxWrqSize allowRollover).Allows p k := by
  generalize hr : Receiver.new blksize windowsize maxRetries maxWrqSize allowRollover = r at *
  have hblk : r.blksize = blksize := by rw [← hr]; rfl
  subst hblk
  have hn : 1 ≤ n ∧ n ≤ k := hns n (by simp)
  have hstart : Tracks p [] r := by
    rw [← hr]
    refine ⟨Nat.le_refl 1, fun j hj hj' => ?_, List.not_mem_nil, fun j _ => rfl, rfl, rfl⟩
    have : j < 1 := hj'
    omega
  rw [along_append] at hwin
  rw [run_append]
  rcases run_arrivals hconf hn ns hstart (fun m hm => hns m (List.mem_append_left _ hm))
      (by simpa using hnew) hwin.1 with ⟨r', hrun, ht, bufs, hst⟩ | ⟨hno, r', e, hrun⟩
  · have hrec := hwin.2.1 r' hrun
    rw [List.nil_append] at ht
    -- the one that is missing is the one that is expected
    have hexp : n = r'.expected := by
      have h1 : ¬ n < r'.expected := fun hlt => hnew (ht.arrived n hn.1 hlt)
      have h2 : ¬ r'.expected < n := by
        intro hlt
        have hmem := hall r'.expected ht.some_block (by omega)
        rcases List.mem_append.1 hmem with h | h
        · exact ht.missing h
        · have := List.mem_singleton.1 h
          omega
      omega
    rw [hrun, run_cons, run_nil, ← hst.allows_iff p k]
    rcases arrive_cases ht hrec hn.1 with
      ⟨hallow, r'', harr, ht', -⟩ | ⟨-, hno, r'', e, harr⟩
    · rw [harr]
      by_cases hk : n = k
      · have hshort : ((p n).length : Int) < r'.blksize := by
          rw [hk, hst.blksize]
          exact hconf.short
        -- the loop has come past the last block, and no further
        have hend : r''.expected = k + 1 := by
          have h1 : k < r''.expected := by
            refine Nat.lt_of_not_le fun hle => ht'.missing ?_
            exact hall r''.expected ht'.some_block hle
          have h2 : ¬ k + 1 < r''.expected := by
            intro hlt
            have := hns (k + 1) (ht'.arrived (k + 1) (by omega) hlt)
            omega
          omega
        rw [if_pos ⟨hexp, hshort⟩]
        refine iff_of_true ?_ ⟨hk, hk ▸ hallow hexp⟩
        show some r''.file = _
        rw [ht'.file, hend]
        rfl
      · -- only a short payload ends the loop: after a full one it waits on, though nothing is
        -- missing
        have hfull : ¬ ((p n).length : Int) < r'.blksize := by
          have := hconf.full n hn.1 (by omega)
          rw [hst.blksize]
          omega
        rw [if_neg fun h => hfull h.2]
        exact iff_of_false (fun h => by cases h) fun h => hk h.1
    · rw [harr]
      refine iff_of_false (fun h => by cases h) fun h => ?_
      rw [h.1] at hno
      exact hno h.2
  · rw [hrun]
    exact iff_of_false (fun h => by cases h) fun h => hno h.2

/-- Two blocks of 8 bytes each at the most, the second one short. -/
def shortFile (n : Nat) : Bytes := if n = 1 then List.replicate 8 1 else [2]

theorem shortFile_conforming : Conforming 8 2 shortFile := by
  refine ⟨by decide, fun n h1 h2 => ?_, by decide⟩
  have : n = 1 := by omega
  subst this
  decide

/-- In order, the upload ends with its second block. -/
theorem short_file_in_order :
    renamed (run (arrive shortFile) (.wait (Receiver.new 8 2 5 0 true)) ([1] ++ [2])) =
      some ((List.range' 1 2).map shortFile).flatten := by
  refine (upload_ends_iff shortFile_conforming [1] 2 (by decide) ?_ (by decide) ?_).2
    ⟨rfl, fun h => absurd rfl h, fun h => by cases h⟩
  · refine ⟨fun r hr => ?_, fun r hr => ?_, trivial⟩
    · cases hr
      exact Receiver.recognises_of_window (by decide) (by decide) (by decide)
    · cases hr
      exact Receiver.recognises_of_window (by decide) (by decide) (by decide)
  · intro m h1 h2
    simp only [List.mem_append, List.mem_singleton]
    omega

/-- With the second block first, all is written and the loop waits for more. -/
theorem short_file_reordered :
    Along (arrive shortFile) (fun s m => ∀ r, s = .wait r → r.Recognises m)
      (.wait (Receiver.new 8 2 5 0 true)) [2, 1] ∧
    run (arrive shortFile) (.wait (Receiver.new 8 2 5 0 true)) [2, 1] =
      .wait ⟨8, 2, 5, 0, true, 3, 0, [], List.replicate 8 1 ++ [2], 9⟩ ∧
    renamed (run (arrive shortFile) (.wait (Receiver.new 8 2 5 0 true)) [2, 1]) ≠
      some ((List.range' 1 2).map shortFile).flatten := by
  refine ⟨⟨fun r hr => ?_, fun r hr => ?_, trivial⟩, rfl, by decide⟩
  · cases hr
    exact Receiver.recognises_of_window (by decide) (by decide) (by decide)
  · cases hr
    exact Receiver.recognises_of_window (by decide) (by decide) (by decide)

end Nishro.Py

import NishroTftp.Py.UploadLink
/-
  The buffer of `_recv_file`: what the loop holds each time it waits.

  A number that was buffered lies ahead of `expected` and within the window, at the time.  Both stay
  true while `expected` moves: the drain goes over every buffered number in a row and stops at the
  first that is missing (`contiguous_all`), so none is left behind or at `expected`.  Nothing here
  needs the window to be smaller than the number space; where it is not, a number in the file may
  stand for another block of the client, but it still came in under its wire number.
-/
namespace Nishro.Py

open Runs

/-- The keys of `window_received` lie strictly within the window. -/
def Receiver.Windowed (r : Receiver) : Prop :=
  ∀ m ∈ r.windowReceived, r.expected < m.1 ∧ m.1 < r.expected + r.windowsize.toNat

/-- In the run over `is`, a DATA packet with the wire number of `n` brought this payload while `n`
    was in the window. -/
def ReceivedAs (start : Receiver) (is : List Input) (n : Nat) (payload : Bytes) : Prop :=
  ∃ before pkt fault after r wire, is = before ++ .packet pkt fault :: after ∧
    run recvStep (.wait start) before = .wait r ∧
    peekOpcode pkt = .ok OP_DATA ∧ parseData pkt = .ok (wire, payload) ∧ wire.toNat = n % 65536 ∧
    r.expected ≤ n ∧ n < r.expected + r.windowsize.toNat

section Steps

variable {r r' : Receiver} {i : Input}

/-- The drain takes every block in a row: the one it stops at is not in the buffer. -/
theorem behind_stops (r : Receiver) :
    r.expected + 1 + r.behind.length ∉ r.windowReceived.map (·.1) := by
  obtain ⟨c, heq, -, hstop⟩ := contiguous_all (S := fun j => j ∈ r.windowReceived.map (·.1))
    (p := fun j => (r.windowReceived.lookup j).getD []) (w := r.windowReceived) (r.expected + 1)
    fun j _ => by
      cases hj : r.windowReceived.lookup j with
      | none => rw [if_neg (Dict.lookup_eq_none_iff_not_mem.1 hj)]
      | some b => rw [if_pos (List.mem_map_of_mem (Dict.mem_of_lookup hj))]; rfl
  have hlen : r.behind.length = c := by
    rw [Receiver.behind, heq, List.length_map, List.length_range']
  rwa [hlen]

theorem waiting_of_not_stopped {fault : Option (Nat × Str)} (h : r.stopped fault = none) :
    r.waiting fault = r.behind := by
  cases fault with
  | none => rfl
  | some f =>
    refine List.take_of_length_le (Nat.le_of_not_lt fun hlt => ?_)
    rw [Receiver.stopped, if_pos hlt] at h
    cases h

theorem Receiver.Windowed.drained (h : r.Windowed) {fault : Option (Nat × Str)}
    (hfault : r.stopped fault = none) (payload : Bytes) : (r.drained payload fault).Windowed := by
  intro m hm
  obtain ⟨hm, hout⟩ := List.mem_filter.1 hm
  obtain ⟨hlow, hhigh⟩ := h m hm
  have hne : m.1 ≠ r.expected + 1 + r.behind.length := by
    intro heq
    exact behind_stops r (heq ▸ List.mem_map_of_mem hm)
  rw [waiting_of_not_stopped hfault] at hout
  simp only [Bool.not_eq_true', Bool.and_eq_false_iff, decide_eq_false_iff_not] at hout
  show r.expected + 1 + (r.waiting fault).length < m.1 ∧
    m.1 < r.expected + 1 + (r.waiting fault).length + r.windowsize.toNat
  rw [waiting_of_not_stopped hfault]
  omega

/-- What a block is taken for: a number of the window with its wire number. -/
theorem takes_some {m : Nat × Bytes} (h : r.takes i = some m) :
    ∃ pkt fault wire, i = .packet pkt fault ∧ peekOpcode pkt = .ok OP_DATA ∧
      parseData pkt = .ok (wire, m.2) ∧ wire.toNat = m.1 % 65536 ∧ r.expected ≤ m.1 ∧
      m.1 < r.expected + r.windowsize.toNat ∧ (r.inOrder i = none → m.1 ≠ r.expected) := by
  cases i with
  | timeout => cases h
  | packet pkt fault =>
    simp only [Receiver.takes] at h
    simp only [Receiver.inOrder]
    cases hop : peekOpcode pkt with
    | error e => simp [hop] at h
    | ok op =>
      cases hparse : parseData pkt with
      | error e => simp [hop, hparse] at h
      | ok d =>
        obtain ⟨wire, payload⟩ := d
        simp only [hop, hparse] at h ⊢
        split at h
        · next hdata =>
          obtain ⟨n, habs, rfl⟩ := Option.map_eq_some_iff.1 h
          obtain ⟨hlow, hhigh, hwire⟩ := absolute_some habs
          refine ⟨pkt, fault, wire, rfl, hop.trans (hdata ▸ rfl), hparse, hwire.symm, hlow, hhigh, ?_⟩
          rintro hin rfl
          simp [hdata, habs] at hin
        · cases h

/-- One step: if the loop waits again, the keys are again within the window. -/
theorem Receiver.Windowed.resume (h : r.Windowed) (hwait : (r.resume i).1 = .wait r') :
    r'.Windowed := by
  rcases r.resume_cases i with ⟨payload, fault, -, heq⟩ | ⟨hin, hst⟩
  · rw [heq] at hwait
    rcases onExpected_cases { r with retries := 0 } payload fault with
      ⟨-, e, hn⟩ | ⟨-, -, e, hn⟩ | ⟨-, -, hn⟩
    · rw [hn] at hwait
      cases hwait
    · rw [hn] at hwait
      cases hwait
    rw [hn] at hwait
    cases hstop : Receiver.stopped { r with retries := 0 } fault with
    | some what =>
      rw [hstop] at hwait
      cases hwait
    | none =>
      rw [hstop] at hwait
      simp only at hwait
      split at hwait
      · cases hwait
      · cases hwait
        exact Receiver.Windowed.drained (r := { r with retries := 0 }) h hstop payload
  · intro m hm
    rw [hwait] at hst
    have hst : r.Stores [] r' := hst
    rw [hst.expected, hst.windowsize, List.length_nil, Nat.add_zero]
    rcases resume_buffered (r := r) (i := i) (by rw [hwait]; exact hm) with hm | hm
    · exact h m hm
    · obtain ⟨-, -, -, -, -, -, -, hlow, hhigh, hne⟩ := takes_some hm
      have := hne hin
      omega

end Steps

/-! ## Runs -/

section Whole

variable {start r : Receiver} {is : List Input}

/-- Before a wait there was a wait. -/
theorem run_wait {i : Input} (h : run recvStep (.wait start) (is ++ [i]) = .wait r) :
    ∃ r₁, run recvStep (.wait start) is = .wait r₁ ∧ (r₁.resume i).1 = .wait r := by
  rw [run_append, run_cons, run_nil] at h
  cases hn : run recvStep (.wait start) is with
  | wait r₁ =>
    rw [hn] at h
    exact ⟨r₁, rfl, h⟩
  | ret r₁ =>
    rw [hn] at h
    cases h
  | raise r₁ e =>
    rw [hn] at h
    cases h

theorem ReceivedAs.append {n : Nat} {payload : Bytes} (h : ReceivedAs start is n payload)
    (is' : List Input) : ReceivedAs start (is ++ is') n payload := by
  obtain ⟨before, pkt, fault, after, r, wire, rfl, hrest⟩ := h
  exact ⟨before, pkt, fault, after ++ is', r, wire, by simp, hrest⟩

/-- What the loop holds at a wait. -/
structure Receiver.Sound (start : Receiver) (is : List Input) (r : Receiver) : Prop where
  windowed : r.Windowed
  counts : r.Counts
  windowsize : r.windowsize = start.windowsize
  holds : ∃ log, r.Holds log ∧ ∀ m ∈ log, ReceivedAs start is m.1 m.2

/-- It holds at every wait of a run, by induction on the inputs from the end. -/
theorem run_sound (h0 : Receiver.Sound start [] start)
    (h : run recvStep (.wait start) is = .wait r) : Receiver.Sound start is r := by
  induction is using List.reverseRecOn generalizing r with
  | nil =>
    cases h
    exact h0
  | append_singleton is i ih =>
    obtain ⟨r₁, h₁, hr⟩ := run_wait h
    obtain ⟨hwin, hcounts, hsize, log, hholds, hlog⟩ := ih h₁
    obtain ⟨bufs, hst⟩ := resume_stores r₁ i
    have hnext := hholds.resume i
    rw [hr] at hst hnext
    refine ⟨hwin.resume hr, hst.counts hcounts, hst.windowsize.trans hsize, _, hnext, ?_⟩
    intro m hm
    rcases List.mem_append.1 hm with hm | hm
    · exact (hlog m hm).append [i]
    · obtain ⟨pkt, fault, wire, rfl, hop, hparse, hwire, hlow, hhigh, -⟩ :=
        takes_some (Option.mem_toList.1 hm)
      exact ⟨is, pkt, fault, [], r₁, wire, rfl, h₁, hop, hparse, hwire, hlow, hhigh⟩

end Whole

/-- **The receive buffer.**  Whatever comes in, each time the loop waits: the keys of the buffer lie
    strictly between `expected` and the end of the window; the temporary file is made of one payload
    for each number before `expected`, received under its wire number while it was in the window;
    the bytes counted are those of the file; and the next DATA packet is answered by the
    acknowledgement of what is then in the file, unless it ends the upload with an exception. -/
theorem receive_buffer_sound (blksize windowsize maxRetries maxWrqSize : Int) (allowRollover : Bool)
    (is : List Input) {r : Receiver}
    (h : run recvStep (.wait
      (Receiver.new blksize windowsize maxRetries maxWrqSize allowRollover)) is = .wait r) :
    (∀ m ∈ r.windowReceived,
      r.expected < m.1 ∧ m.1 < r.expected + (max 1 windowsize).toNat) ∧
    (∃ blocks : List Bytes, r.file = blocks.flatten ∧ blocks.length = r.expected - 1 ∧
      ∀ k b, blocks[k]? = some b → ReceivedAs
        (Receiver.new blksize windowsize maxRetries maxWrqSize allowRollover) is (k + 1) b) ∧
    r.bytesTransferred = r.file.length ∧
    ∀ pkt fault d, peekOpcode pkt = .ok OP_DATA → parseData pkt = .ok d →
      sent (r.resume (.packet pkt fault)).2 = match (r.resume (.packet pkt fault)).1 with
        | .wait r' | .ret r' => [packAck (UInt16.ofNat ((r'.expected - 1) % 65536))]
        | .raise _ _ => [] := by
  have h0 : Receiver.Sound (Receiver.new blksize windowsize maxRetries maxWrqSize allowRollover) []
      (Receiver.new blksize windowsize maxRetries maxWrqSize allowRollover) :=
    ⟨fun _ => nofun, ⟨rfl, Nat.le_refl 1⟩, rfl, [], .new .., fun _ => nofun⟩
  obtain ⟨hwin, hcounts, hsize, log, hholds, hlog⟩ := run_sound h0 h
  refine ⟨fun m hm => ?_, ?_, hcounts.bytes.symm, fun pkt fault d hop hparse => ?_⟩
  · have hm := hwin m hm
    rwa [hsize] at hm
  · obtain ⟨blocks, hfile, hexp, hblocks⟩ := hholds.blocks
    exact ⟨blocks, hfile, by omega, fun k b hk => hlog _ (hblocks k b hk)⟩
  · have hmod : ∀ n, UInt16.ofNat (n % 65536) = UInt16.ofNat n := fun n => UInt16.ofNat_mod_size
    rw [resume_sent hop hparse]
    cases (r.resume (.packet pkt fault)).1 <;> simp [Next.acks, hmod]

/-- A second block that comes first waits in the buffer. -/
theorem second_block_waits : ∃ r, run recvStep (.wait (Receiver.new 8 2 5 0 true))
    [.packet (packData 2 [7]) none] = .wait r ∧ r.windowReceived = [(2, [7])] ∧
    r.bytesTransferred = r.file.length := by
  refine ⟨_, rfl, rfl, ?_⟩
  exact (receive_buffer_sound 8 2 5 0 true [.packet (packData 2 [7]) none] rfl).2.2.1

end Nishro.Py

import NishroTftp.Lib.Blocks
import NishroTftp.Lib.ReadClient
import NishroTftp.Py.Transfer
/-
  `_send_file` against a client of the protocol, over a network that loses, duplicates and reorders.

  Every packet that was ever sent stays on the wire, in both directions, and any of them may be
  delivered at any time, any number of times, or never.  One thing is asked of the network
  (`Timely`): a packet for block `n` is not delivered once block `n + 65535` has been sent.

  The transfer is a run of `SlidingWindow`: an acknowledgement in the window is an `ack`, the window
  that follows it a `send`, a DATA packet that the client takes a `recv`.  The invariant of that
  machine gives the rest.
-/
namespace Nishro.Py

open Runs Blocks SlidingWindow ReadClient

/-! ## The transfer as a whole -/

structure Download where
  sender : Next Sender
  /-- the DATA packets sent so far, each with the block it is for -/
  wire : List (Nat × Bytes)
  client : Client
  /-- the acknowledgements sent so far: how many blocks the client had -/
  acks : List Nat

/-- The blocks that are sent before a wait. -/
def windowBlocks : Next Sender → List Nat
  | .wait s => List.range' (s.lastAck + 1) s.windowLength
  | .ret _ | .raise _ _ => []

/-- A step of the sender is done, and what it sent is on the wire. -/
def Download.put (s : Download) (r : Next Sender × List Effect) : Download :=
  { s with sender := r.1, wire := s.wire ++ (windowBlocks r.1).zip (sent r.2) }

/-- `_send_file` is called. -/
def Download.start (snd : Sender) : Download := Download.put ⟨.wait snd, [], .new, []⟩ snd.loop

/-- The wait of `_send_file` ends; nothing happens if it is over. -/
def Download.feed (s : Download) (i : Input) : Download :=
  match s.sender with
  | .wait snd => s.put (snd.resume i)
  | .ret _ | .raise _ _ => s

inductive DownloadEvent
  /-- the `i`-th DATA packet reaches the client -/
  | data (i : Nat)
  /-- the client acknowledges the last block it holds in order -/
  | reply
  /-- the `i`-th acknowledgement reaches the server -/
  | ack (i : Nat)
  /-- any other packet reaches the server -/
  | stray (pkt : Bytes)
  | timeout

def downloadStep (blksize : Nat) (s : Download) : DownloadEvent → Download
  | .data i =>
    match s.wire[i]? with
    | some (_, pkt) =>
      match parseData pkt with
      | .ok (wire, payload) => { s with client := s.client.receive blksize wire payload }
      | .error _ => s
    | none => s
  | .reply => { s with acks := s.acks ++ [s.client.blocks.length] }
  | .ack i =>
    match s.acks[i]? with
    | some m => s.feed (.packet (packAck (UInt16.ofNat m)) none)
    | none => s
  | .stray pkt => s.feed (.packet pkt none)
  | .timeout => s.feed .timeout

/-- The highest block sent so far. -/
def Download.highest (s : Download) : Nat := (s.wire.map Prod.fst).foldr max 0

/-- What is asked of the network, and of a stray packet: it is no acknowledgement. -/
def Timely (s : Download) : DownloadEvent → Prop
  | .data i => ∀ f, s.wire[i]? = some f → s.highest < f.1 + 65535
  | .ack i => ∀ m, s.acks[i]? = some m → s.highest < m + 65535
  | .stray pkt => peekOpcode pkt ≠ .ok OP_ACK
  | .reply | .timeout => True

theorem highest_le_iff {s : Download} {k : Nat} : s.highest ≤ k ↔ ∀ f ∈ s.wire, f.1 ≤ k := by
  unfold Download.highest
  induction s.wire with
  | nil => simp
  | cons f fs ih => rw [List.map_cons, List.foldr_cons, Nat.max_le, ih, List.forall_mem_cons]

theorem le_highest {s : Download} {f : Nat × Bytes} (hf : f ∈ s.wire) : f.1 ≤ s.highest :=
  highest_le_iff.1 (Nat.le_refl _) f hf

/-! ## The sender in natural numbers -/

/-- A sender of this string, in blocks and windows of these sizes. -/
structure Sends (data : Bytes) (b w : Nat) (s : Sender) : Prop where
  data : s.data = data
  blksize : s.blksize = b
  windowsize : s.windowsize = w

section Sender

variable {data : Bytes} {b w : Nat} {s : Sender}

theorem Sends.totalBlocks (h : Sends data b w s) : s.totalBlocks = blockCount data.length b := by
  rw [Sender.totalBlocks, Py.totalBlocks, h.data, h.blksize, blockCount]
  rw [Int.fdiv_eq_ediv_of_nonneg _ (Int.natCast_nonneg b)]
  norm_cast

theorem Sends.windowLength (h : Sends data b w s) :
    s.windowLength = min (s.lastAck + w) (blockCount data.length b) - s.lastAck := by
  rw [Sender.windowLength, h.totalBlocks, h.windowsize]
  omega

theorem Sends.dataPacket (h : Sends data b w s) {n : Nat} (hn : 1 ≤ n) :
    s.dataPacket n = packData (UInt16.ofNat n) (block data b n) := by
  have hoff : (((n : Int) - 1) * (b : Int)).toNat = (n - 1) * b := by
    norm_cast
  rw [Sender.dataPacket, Sender.sliceBlock, h.data, h.blksize, hoff, Int.toNat_natCast, block]

theorem sent_sendWindow (s : Sender) :
    sent s.sendWindow = (List.range' (s.lastAck + 1) s.windowLength).map s.dataPacket := by
  unfold Sender.sendWindow
  induction List.range' (s.lastAck + 1) s.windowLength with
  | nil => rfl
  | cons n ns ih =>
    have happend : ∀ fx fx' : List Effect, sent (fx ++ fx') = sent fx ++ sent fx' :=
      fun fx fx' => List.filterMap_append
    rw [List.flatMap_cons, happend, ih]
    rfl

/-- What a wait of the sender can end in: an exception, or the head of the loop again, with an
    acknowledgement taken in or without. -/
theorem resume_cases (s : Sender) (i : Input) :
    (∃ r e, s.resume i = (.raise { s with retries := r } e, [])) ∨
    (∃ r, s.resume i = Sender.loop { s with retries := r }) ∨
    ∃ pkt fault wire, i = .packet pkt fault ∧ peekOpcode pkt = .ok OP_ACK ∧
      parseAck pkt = .ok wire ∧ s.resume i = (s.onAck wire).loop := by
  cases i with
  | timeout =>
    simp only [Sender.resume]
    split
    · exact .inl ⟨_, _, rfl⟩
    · exact .inr (.inl ⟨_, rfl⟩)
  | packet pkt fault =>
    simp only [Sender.resume]
    cases hop : peekOpcode pkt with
    | error e => exact .inl ⟨s.retries, _, rfl⟩
    | ok op =>
      simp only
      split
      · cases parseError pkt with
        | error e => exact .inl ⟨s.retries, _, rfl⟩
        | ok err => exact .inl ⟨s.retries, _, rfl⟩
      split
      · exact .inr (.inl ⟨s.retries, rfl⟩)
      · next hack =>
        cases hparse : parseAck pkt with
        | error e => exact .inl ⟨s.retries, _, rfl⟩
        | ok wire =>
          exact .inr (.inr ⟨pkt, fault, wire, rfl, by rw [hop, not_not.1 hack], hparse, rfl⟩)

/-- An acknowledgement moves the sender to a block of its window with that number, or not at all. -/
theorem onAck_cases (s : Sender) (wire : UInt16) :
    s.onAck wire = s ∨ ∃ c, s.lastAck < c ∧ c ≤ s.lastAck + s.windowLength ∧
      c % 65536 = wire.toNat ∧ s.onAck wire = { s with
        lastAck := c, retries := 0, bytesTransferred := min s.data.length (c * s.blksize) } := by
  unfold Sender.onAck
  cases habs : absolute (s.lastAck + 1) s.windowLength wire with
  | none => exact .inl rfl
  | some c =>
    have hmem := List.mem_of_find?_eq_some habs
    have hmod := List.find?_some habs
    rw [List.mem_range'_1] at hmem
    exact .inr ⟨c, by omega, by omega, by simpa using hmod, rfl⟩

end Sender

/-! ## The invariant -/

/-- What holds between two steps, `snd` being the state of the sender. -/
structure Carries (data : Bytes) (b w : Nat) (s : Download) (snd : Sender) : Prop where
  sends : Sends data b w snd
  follows : s.client.Follows (block data b) (blockCount data.length b) w snd.lastAck s.highest
  wire : ∀ f ∈ s.wire, 1 ≤ f.1 ∧ f.2 = packData (UInt16.ofNat f.1) (block data b f.1)
  acks : ∀ m ∈ s.acks, m ≤ s.client.blocks.length
  bytes : snd.bytesTransferred = min (data.length : Int) (snd.lastAck * b)

/-- Where the sender is: the whole window is out, or all is acknowledged. -/
def Settled (data : Bytes) (b w : Nat) (s : Download) : Prop :=
  match s.sender with
  | .wait snd => s.highest = min (snd.lastAck + w) (blockCount data.length b)
  | .ret snd => snd.lastAck = blockCount data.length b
  | .raise _ _ => True

structure Download.Inv (data : Bytes) (b w : Nat) (s : Download) : Prop where
  carries : Carries data b w s s.sender.state
  settled : Settled data b w s

section Invariant

variable {data : Bytes} {b w : Nat} {s : Download} {snd : Sender}

/-- The packets of a window, as they go on the wire. -/
theorem zip_sendWindow (s : Sender) :
    (windowBlocks (.wait s)).zip (sent s.sendWindow) =
      (List.range' (s.lastAck + 1) s.windowLength).map fun n => (n, s.dataPacket n) := by
  have h : ((List.range' (s.lastAck + 1) s.windowLength).map id).zip
      ((List.range' (s.lastAck + 1) s.windowLength).map s.dataPacket) = _ := List.zip_map'
  rw [List.map_id] at h
  rw [sent_sendWindow, windowBlocks, h]
  rfl

/-- At the head of the loop the window goes out, or all is done. -/
theorem Carries.put_loop (hw : 1 ≤ w) (h : Carries data b w s snd) :
    (s.put snd.loop).Inv data b w := by
  have hinv := h.follows.inv
  have hlen := h.sends.windowLength
  unfold Sender.loop
  rw [h.sends.totalBlocks]
  split
  · next hlt =>
    have hwire : (s.put (.wait snd, snd.sendWindow)).wire = s.wire ++
        (List.range' (snd.lastAck + 1) snd.windowLength).map fun n => (n, snd.dataPacket n) := by
      rw [Download.put, zip_sendWindow]
    have hhi := hinv.hi_le
    have htot := hinv.hi_le_total
    simp only at hhi htot
    have hhighest : (s.put (.wait snd, snd.sendWindow)).highest =
        min (snd.lastAck + w) (blockCount data.length b) := by
      refine Nat.le_antisymm (highest_le_iff.2 ?_) ?_
      · intro f hf
        rw [hwire, List.mem_append, List.mem_map] at hf
        rcases hf with hf | ⟨n, hn, rfl⟩
        · have := le_highest hf
          omega
        · rw [List.mem_range'_1] at hn
          omega
      · -- the last block of the window is out now
        have hmem : (min (snd.lastAck + w) (blockCount data.length b),
            snd.dataPacket (min (snd.lastAck + w) (blockCount data.length b))) ∈
              (s.put (.wait snd, snd.sendWindow)).wire := by
          rw [hwire, List.mem_append, List.mem_map]
          exact .inr ⟨_, by rw [List.mem_range'_1]; omega, rfl⟩
        exact le_highest hmem
    refine ⟨⟨h.sends, ⟨?_, h.follows.finished⟩, ?_, h.acks, h.bytes⟩, hhighest⟩
    · rw [hhighest]
      exact inv_step (M := w + 1) (Nat.lt_succ_self w) hinv (.send (by simp only; omega)
        (Nat.min_le_left _ _) (Nat.min_le_right _ _))
    intro f hf
    rw [hwire, List.mem_append, List.mem_map] at hf
    rcases hf with hf | ⟨n, hn, rfl⟩
    · exact h.wire f hf
    · rw [List.mem_range'_1] at hn
      exact ⟨by omega, h.sends.dataPacket (by omega)⟩
  · next hge =>
    have hput : s.put (.ret snd, []) = { s with sender := .ret snd } := by
      simp [Download.put, windowBlocks]
    rw [hput]
    have h1 := hinv.lo_le
    have h2 := hinv.got_le
    have h3 := hinv.hi_le_total
    simp only at h1 h2 h3
    refine ⟨⟨h.sends, h.follows, h.wire, h.acks, h.bytes⟩, ?_⟩
    show snd.lastAck = blockCount data.length b
    omega

/-- An acknowledgement is taken in. -/
theorem Carries.onAck (hw : w < 65536) (h : Carries data b w s snd)
    (hhighest : s.highest = min (snd.lastAck + w) (blockCount data.length b)) {m : Nat}
    (hm : m ∈ s.acks) (hlate : s.highest < m + 65535) :
    Carries data b w s (snd.onAck (UInt16.ofNat m)) := by
  rcases onAck_cases snd (UInt16.ofNat m) with heq | ⟨c, hlo, hhi, hmod, heq⟩
  · rw [heq]
    exact h
  rw [heq]
  have hlen := h.sends.windowLength
  have hstep := inv_step hw h.follows.inv
    (.ack (h.acks m hm) hlate hlo (by simp only; omega) hmod)
  refine ⟨⟨h.sends.data, h.sends.blksize, h.sends.windowsize⟩, ⟨hstep, h.follows.finished⟩,
    h.wire, h.acks, ?_⟩
  show min (snd.data.length : Int) (c * snd.blksize) = min (data.length : Int) (c * b)
  rw [h.sends.data, h.sends.blksize]

theorem Carries.retries (h : Carries data b w s snd) (r : Nat) :
    Carries data b w s { snd with retries := r } :=
  ⟨⟨h.sends.data, h.sends.blksize, h.sends.windowsize⟩, h.follows, h.wire, h.acks, h.bytes⟩

/-- The wait of the sender ends.  An acknowledgement must be one of the client's, and in time. -/
theorem Download.Inv.feed (hw : 1 ≤ w) (hw' : w < 65536) (h : s.Inv data b w) {i : Input}
    (hack : ∀ pkt fault, i = .packet pkt fault → peekOpcode pkt = .ok OP_ACK →
      ∃ m ∈ s.acks, s.highest < m + 65535 ∧ pkt = packAck (UInt16.ofNat m)) :
    (s.feed i).Inv data b w := by
  unfold Download.feed
  cases hs : s.sender with
  | ret snd => exact h
  | raise snd e => exact h
  | wait snd =>
    have hc := h.carries
    have hsettled := h.settled
    rw [hs] at hc
    rw [Settled, hs] at hsettled
    simp only [Next.state] at hc hsettled ⊢
    rcases resume_cases snd i with ⟨r, e, heq⟩ | ⟨r, heq⟩ | ⟨pkt, fault, wire, hi, hop, hparse, heq⟩
    · rw [heq]
      have hput : s.put (.raise { snd with retries := r } e, []) =
          { s with sender := .raise { snd with retries := r } e } := by
        simp [Download.put, windowBlocks]
      rw [hput]
      have hc' := hc.retries r
      exact ⟨⟨hc'.sends, hc'.follows, hc'.wire, hc'.acks, hc'.bytes⟩, trivial⟩
    · rw [heq]
      exact (hc.retries r).put_loop hw
    · rw [heq]
      obtain ⟨m, hm, hlate, rfl⟩ := hack pkt fault hi hop
      rw [parseAck_packAck] at hparse
      obtain rfl := Except.ok.inj hparse
      exact (hc.onAck hw' hsettled hm hlate).put_loop hw

/-- One step keeps the invariant. -/
theorem Download.Inv.step (hb : 1 ≤ b) (hw : 1 ≤ w) (hw' : w < 65536) (h : s.Inv data b w)
    {e : DownloadEvent} (he : Timely s e) : (downloadStep b s e).Inv data b w := by
  cases e with
  | data i =>
    simp only [downloadStep]
    cases hwire : s.wire[i]? with
    | none => exact h
    | some f =>
      obtain ⟨n, pkt⟩ := f
      have hmem := List.mem_of_getElem? hwire
      obtain ⟨h1, hpkt⟩ := h.carries.wire _ hmem
      have hlate := he _ hwire
      simp only at h1 hpkt hlate
      simp only [hpkt, parseData_packData]
      refine ⟨⟨h.carries.sends, h.carries.follows.receive hw' ?_ h1 (le_highest hmem) hlate,
        h.carries.wire, ?_, h.carries.bytes⟩, h.settled⟩
      · intro k hk hkT
        exact length_block_lt_iff data hb hk hkT
      · intro m hm
        exact Nat.le_trans (h.carries.acks m hm) (Client.length_receive_le ..)
  | reply =>
    refine ⟨⟨h.carries.sends, h.carries.follows, h.carries.wire, ?_, h.carries.bytes⟩, h.settled⟩
    intro m hm
    simp only [downloadStep, List.mem_append, List.mem_singleton] at hm
    rcases hm with hm | rfl
    · exact h.carries.acks m hm
    · exact Nat.le_refl _
  | ack i =>
    simp only [downloadStep]
    cases hack : s.acks[i]? with
    | none => exact h
    | some m =>
      refine h.feed hw hw' ?_
      rintro pkt fault ⟨⟩ -
      exact ⟨m, List.mem_of_getElem? hack, he m hack, rfl⟩
  | stray pkt =>
    refine h.feed hw hw' ?_
    rintro pkt' fault ⟨⟩ hop
    exact absurd hop he
  | timeout =>
    refine h.feed hw hw' ?_
    rintro pkt fault ⟨⟩

end Invariant

/-! ## What follows -/

/-- The promises of a download at one moment. -/
structure Download.Sound (data : Bytes) (s : Download) : Prop where
  held : s.client.held <+: data
  lastAck : s.sender.state.lastAck ≤ s.client.blocks.length
  bytes : 0 ≤ s.sender.state.bytesTransferred ∧ s.sender.state.bytesTransferred ≤ data.length
  returned : ∀ snd, s.sender = .ret snd → s.client.held = data ∧ s.client.finished = true

/-- And over one step. -/
structure Download.Grows (s s' : Download) : Prop where
  lastAck : s.sender.state.lastAck ≤ s'.sender.state.lastAck
  bytes : s.sender.state.bytesTransferred ≤ s'.sender.state.bytesTransferred

section Results

variable {data : Bytes} {b w : Nat} {s : Download}

theorem Download.Inv.held_eq (h : s.Inv data b w) :
    s.client.held = data.take (s.client.blocks.length * b) := by
  rw [h.carries.follows.held_eq, flatten_blocks]

theorem Download.Inv.sound (hb : 1 ≤ b) (h : s.Inv data b w) : s.Sound data where
  held := by
    rw [h.held_eq]
    exact List.take_prefix _ _
  lastAck := h.carries.follows.inv.lo_le
  bytes := by
    have hnonneg : (0 : Int) ≤ s.sender.state.lastAck * b :=
      Int.mul_nonneg (Int.natCast_nonneg _) (Int.natCast_nonneg _)
    rw [h.carries.bytes]
    omega
  returned := by
    intro snd hs
    have hlast := h.settled
    rw [Settled, hs] at hlast
    have h1 := h.carries.follows.inv.lo_le
    have h2 := h.carries.follows.inv.got_le
    have h3 := h.carries.follows.inv.hi_le_total
    rw [hs] at h1
    simp only [Next.state] at h1 h2 h3 hlast
    have hall : s.client.blocks.length = blockCount data.length b := by omega
    refine ⟨?_, h.carries.follows.finished.2 hall⟩
    rw [h.held_eq, hall]
    exact take_blockCount data hb

theorem state_loop (snd : Sender) : snd.loop.1.state = snd := by
  unfold Sender.loop
  split <;> rfl

/-- The sender does not go back. -/
theorem lastAck_feed_le (s : Download) (i : Input) :
    s.sender.state.lastAck ≤ (s.feed i).sender.state.lastAck := by
  unfold Download.feed
  cases hs : s.sender with
  | ret snd => simp [hs]
  | raise snd e => simp [hs]
  | wait snd =>
    show snd.lastAck ≤ (snd.resume i).1.state.lastAck
    rcases resume_cases snd i with ⟨r, e, heq⟩ | ⟨r, heq⟩ | ⟨_, _, wire, -, -, -, heq⟩
    · rw [heq]
      exact Nat.le_refl _
    · exact Nat.le_of_eq (by rw [heq, state_loop])
    · rw [heq, state_loop]
      rcases onAck_cases snd wire with h | ⟨c, hlo, -, -, h⟩
      · exact Nat.le_of_eq (by rw [h])
      · rw [h]
        exact Nat.le_of_lt hlo

theorem lastAck_step_le (s : Download) (e : DownloadEvent) :
    s.sender.state.lastAck ≤ (downloadStep b s e).sender.state.lastAck := by
  cases e with
  | data i =>
    simp only [downloadStep]
    split
    · split <;> exact Nat.le_refl _
    · exact Nat.le_refl _
  | reply => exact Nat.le_refl _
  | ack i =>
    simp only [downloadStep]
    split
    · exact lastAck_feed_le s _
    · exact Nat.le_refl _
  | stray pkt => exact lastAck_feed_le s _
  | timeout => exact lastAck_feed_le s _

theorem grows_of_inv {s' : Download} (h : s.Inv data b w) (h' : s'.Inv data b w)
    (hle : s.sender.state.lastAck ≤ s'.sender.state.lastAck) : s.Grows s' where
  lastAck := hle
  bytes := by
    have hmul : (s.sender.state.lastAck * b : Int) ≤ s'.sender.state.lastAck * b := by
      exact_mod_cast Nat.mul_le_mul_right b hle
    rw [h.carries.bytes, h'.carries.bytes]
    omega

/-- A sender that has just been made. -/
theorem carries_new (data : Bytes) (b w : Nat) (maxRetries : Int) (hw : 1 ≤ w) :
    Carries data b w ⟨.wait (Sender.new data b w maxRetries), [], .new, []⟩
      (Sender.new data b w maxRetries) where
  sends := ⟨rfl, rfl, by show max 1 (w : Int) = w; omega⟩
  follows := follows_new (blockCount_pos _ _)
  wire := by rintro f ⟨⟩
  acks := by rintro m ⟨⟩
  bytes := by
    show (0 : Int) = min (data.length : Int) (((0 : Nat) : Int) * b)
    omega

end Results

/-- **Downloads of the Python engine.**  For every string, every block size, every window of up to
    65535 blocks and every run of losses, duplications, reorderings, timeouts and stray packets in
    which no packet is a whole number space late: the client always holds a prefix of the string,
    `last_ack` and `bytes_transferred` never go back and never run ahead of the client and of the
    string, and `_send_file` returns only when the client holds the whole string and has seen its
    last, short block. -/
theorem download_correct {data : Bytes} {blksize windowsize : Int} (maxRetries : Int)
    (hb : 1 ≤ blksize) (hw : 1 ≤ windowsize) (hw' : windowsize ≤ 65535) {es : List DownloadEvent}
    (h : Along (downloadStep blksize.toNat) Timely
      (Download.start (Sender.new data blksize windowsize maxRetries)) es) :
    let s := run (downloadStep blksize.toNat)
      (Download.start (Sender.new data blksize windowsize maxRetries)) es
    s.Sound data ∧ ∀ e, Timely s e → s.Grows (downloadStep blksize.toNat s e) := by
  obtain ⟨b, rfl⟩ : ∃ b : Nat, blksize = b := ⟨blksize.toNat, by omega⟩
  obtain ⟨w, rfl⟩ : ∃ w : Nat, windowsize = w := ⟨windowsize.toNat, by omega⟩
  have hb : 1 ≤ b := by omega
  have hw : 1 ≤ w := by omega
  have hw' : w < 65536 := by omega
  have hstart := (carries_new data b w maxRetries hw).put_loop hw
  have hinv := (h.always (fun s e hs he => hs.step hb hw hw' he) hstart).last
  refine ⟨hinv.sound hb, fun e he => ?_⟩
  exact grows_of_inv hinv (hinv.step hb hw hw' he) (lastAck_step_le _ e)

/-- A string of one byte, acknowledged after its window was sent twice. -/
theorem one_byte_downloaded :
    let s := run (downloadStep 512) (Download.start (Sender.new [7] 512 1 5))
      [.timeout, .data 0, .data 1, .reply, .ack 0]
    s.Sound [7] ∧ ∀ e, Timely s e → s.Grows (downloadStep 512 s e) := by
  have h : Along (downloadStep (512 : Int).toNat) Timely (Download.start (Sender.new [7] 512 1 5))
      [.timeout, .data 0, .data 1, .reply, .ack 0] :=
    ⟨trivial, by rintro f ⟨⟩; decide, by rintro f ⟨⟩; decide, trivial, by rintro m ⟨⟩; decide,
      trivial⟩
  exact download_correct 5 (by decide) (by decide) (by decide) h

end Nishro.Py

import NishroTftp.Lib.WriteClient
import NishroTftp.Py.Arrivals
import NishroTftp.Py.UploadSteps
/-
  An upload against a client of the protocol, over a network that loses, duplicates and reorders.

  Every packet that was ever sent may be delivered at any time, any number of times, or never.  One
  thing is asked of the network (`TimelyLink`): a packet for block `n` is not delivered once block
  `n + 65535` has been sent.

  Two things can come between the two sides.

  1. The client may work with ANOTHER block size.  If the OACK is lost, the timeout of the receive loop
     sends ACK 0, which for the client is the answer of a server without options.  A block that is full
     for the client may then be short for the session.
  2. A packet that is old, but not late, may be taken for a block AHEAD of the one expected, since the
     window is searched for its number only.  It waits in the buffer until its place in the file has
     come.  The first place that can be filled so is the one after block 65536.
-/
namespace Nishro.Py

open Runs Blocks WriteClient

/-! ## The exchange -/

/-- The block size and the window size a client takes from an OACK; what is not acknowledged has its
    classic value, and with values it cannot work with the client gives up. -/
def adopt (opts : List (Str × Str)) : Option (Nat × Nat) :=
  let blksize := (clientInt opts "blksize").getD 512
  let windowsize := (clientInt opts "windowsize").getD 1
  if 1 ≤ blksize ∧ 1 ≤ windowsize ∧ windowsize ≤ 65535 then
    some (blksize.toNat, windowsize.toNat)
  else none

/-- The number a packet acknowledges, if it is an ACK. -/
def ackNumber (pkt : Bytes) : Option UInt16 :=
  match peekOpcode pkt, parseAck pkt with
  | .ok op, .ok wire => if op = OP_ACK then some wire else none
  | _, _ => none

/-- What a packet lets a client that waits for the first answer begin with. -/
def opening (pkt : Bytes) : Option (Nat × Nat) :=
  match ackNumber pkt with
  | some wire => if wire = 0 then some (512, 1) else none
  | none =>
    match peekOpcode pkt with
    | .ok op =>
      if op = OP_OACK then adopt (requestOptions [] (splitCstrings (pkt.drop 2))) else none
    | .error _ => none

/-- A packet reaches the client. -/
def hears (c : Client) (pkt : Bytes) : Client :=
  match c.params with
  | none => { c with params := opening pkt }
  | some _ =>
    match ackNumber pkt with
    | some wire => c.ack wire
    | none => c

structure UploadLink where
  s : Session
  /-- the packets the session has sent, each with the number of blocks it stands for -/
  out : List (Nat × Bytes)
  client : Client

/-- A session that has been started, and a client that has sent its request. -/
def UploadLink.start (a : SessionArgs) (w : World) : UploadLink :=
  let r := Session.start a w
  ⟨r.1, (sent r.2).map (0, ·), .new⟩

inductive LinkEvent
  /-- block `n` reaches the session -/
  | data (n : Nat)
  /-- the session has waited long enough -/
  | timeout
  /-- the `k`-th packet of the session reaches the client -/
  | reply (k : Nat)
  /-- the client sends one more block -/
  | send

/-- The number of blocks that are written once this wait has ended. -/
def Session.written (s : Session) (i : Input) : Nat :=
  match s.stage with
  | .receiving r _ => (r.resume i).1.state.expected - 1
  | _ => 0

/-- A wait of the session ends. -/
def UploadLink.input (x : UploadLink) (i : Input) : UploadLink :=
  let r := x.s.resume i
  { x with s := r.1, out := x.out ++ (sent r.2).map (x.s.written i, ·) }

/-- Only what was sent can arrive. -/
def linkStep (file : Bytes) (x : UploadLink) : LinkEvent → UploadLink
  | .data n =>
    match x.client.params with
    | some (blksize, _) =>
      if 1 ≤ n ∧ n ≤ x.client.high then x.input (arrival (block file blksize) n) else x
    | none => x
  | .timeout => x.input .timeout
  | .reply k =>
    match x.out[k]? with
    | some (_, pkt) => { x with client := hears x.client pkt }
    | none => x
  | .send => { x with client := x.client.send file }

/-- What is asked of the network. -/
def TimelyLink (x : UploadLink) : LinkEvent → Prop
  | .data n => x.client.high < n + 65535
  | .reply k => ∀ m pkt, x.out[k]? = some (m, pkt) → x.client.high < m + 65535
  | .timeout | .send => True

/-- A session that is done has stored the file, at its destination. -/
def Arrived (file : Bytes) (s : Session) : Prop :=
  s.info.state = str "done" →
    match s.stored with
    | .none => False
    | .replaced path content =>
      safeJoin s.world.paths s.args.writeRoot s.args.uploadName = .ok path ∧ content = file
    | .uploaded filename content => filename = s.args.request.filename ∧ content = file

/-- What a client may begin with: what the first answer says, or what ACK 0 says if that can be sent
    after a timeout. -/
def Offered (neg : Negotiated) (maxRetries : Int) (p : Nat × Nat) : Prop :=
  opening (wrqReply neg) = some p ∨ (1 ≤ maxRetries ∧ p = (512, 1))

/-- Blocks of this size can do no harm.  If they are short for the session, the first one is the file,
    or over the cap.  If they are not, the file has fewer than 65536 of them, or nothing is buffered,
    or the upload cannot be finished at all. -/
structure Receiver.Safe (r : Receiver) (file : Bytes) (blksize : Nat) : Prop where
  short : (blksize : Int) < r.blksize →
    file.length ≤ blksize ∨ (r.maxWrqSize ≠ 0 ∧ r.maxWrqSize < blksize)
  full : r.blksize ≤ blksize →
    blockCount file.length blksize ≤ 65535 ∨ r.windowsize = 1 ∨ r.allowRollover = false ∨
      r.blksize ≤ (file.length % blksize : Nat) ∨
      (r.maxWrqSize ≠ 0 ∧ r.maxWrqSize < file.length)

/-! ## What the session makes of a block -/

section Blocks

variable {r : Receiver} {p : Nat → Bytes} {n : Nat}

theorem absolute_some {start count c : Nat} {wire : UInt16} (h : absolute start count wire = some c) :
    start ≤ c ∧ c < start + count ∧ c % 65536 = wire.toNat := by
  have hmem := List.mem_of_find?_eq_some h
  have hnum := List.find?_some h
  rw [List.mem_range'_1] at hmem
  exact ⟨hmem.1, hmem.2, by simpa using hnum⟩

/-- What the arrival of block `n` can come to. -/
inductive Meets (p : Nat → Bytes) (r : Receiver) (n : Nat) : Next Receiver → Prop
  | ignored : Meets p r n (.wait { r with retries := 0 })
  | buffered {c : Nat} (cand : absolute r.expected r.windowsize.toNat (UInt16.ofNat n) = some c)
      (ahead : c ≠ r.expected) :
      Meets p r n
        (.wait { r with retries := 0, windowReceived := setReceived r.windowReceived c (p n) })
  | refused {r' : Receiver} {e : Exc} : Meets p r n (.raise r' e)
  | last (cand : absolute r.expected r.windowsize.toNat (UInt16.ofNat n) = some r.expected)
      (cap : ¬ r.overCap (p n)) (roll : ¬ (r.allowRollover = false ∧ 65535 < r.expected))
      (short : ((p n).length : Int) < r.blksize) :
      Meets p r n (.ret (Receiver.drained { r with retries := 0 } (p n) none))
  | more (cand : absolute r.expected r.windowsize.toNat (UInt16.ofNat n) = some r.expected)
      (long : ¬ ((p n).length : Int) < r.blksize) :
      Meets p r n (.wait (Receiver.drained { r with retries := 0 } (p n) none))

theorem resume_data (p : Nat → Bytes) (r : Receiver) (n : Nat) :
    r.resume (arrival p n) =
      match absolute r.expected r.windowsize.toNat (UInt16.ofNat n) with
      | none => (.wait { r with retries := 0 }, r.ack)
      | some c =>
        if c = r.expected then Receiver.onExpected { r with retries := 0 } (p n) none
        else (.wait { r with retries := 0, windowReceived := setReceived r.windowReceived c (p n) },
          r.ack) := by
  have hne : OP_DATA ≠ OP_ERROR := by decide
  simp only [arrival, Receiver.resume, peekOpcode_packData, if_neg hne, ne_eq, not_true_eq_false,
    if_false, parseData_packData]
  rfl

theorem meets (p : Nat → Bytes) (r : Receiver) (n : Nat) :
    Meets p r n (r.resume (arrival p n)).1 := by
  rw [resume_data]
  cases hc : absolute r.expected r.windowsize.toNat (UInt16.ofNat n) with
  | none => exact .ignored
  | some c =>
    dsimp only
    by_cases heq : c = r.expected
    · subst heq
      rw [if_pos rfl]
      rcases onExpected_cases { r with retries := 0 } (p n) none with
        ⟨-, e, h⟩ | ⟨-, -, e, h⟩ | ⟨hgood, hroll, h⟩
      · rw [h]
        exact .refused
      · rw [h]
        exact .refused
      rw [h]
      show Meets p r n (if ((p n).length : Int) < r.blksize then _ else _)
      by_cases hshort : ((p n).length : Int) < r.blksize
      · rw [if_pos hshort]
        exact .last hc (fun hcap => hgood (.inl hcap)) hroll hshort
      · rw [if_neg hshort]
        exact .more hc hshort
    · rw [if_neg heq]
      exact .buffered hc heq

theorem sent_received (bufs : List Bytes) (fx : List Effect) :
    sent (received bufs ++ fx) = sent fx := by
  induction bufs with
  | nil => rfl
  | cons buf bufs ih => exact ih

/-- The acknowledgement a block leads to; an exception sends none. -/
def Next.acks : Next Receiver → List Bytes
  | .wait r | .ret r => [packAck (UInt16.ofNat (r.expected - 1))]
  | .raise _ _ => []

theorem onExpected_sent (r : Receiver) (payload : Bytes) (fault : Option (Nat × Str)) :
    sent (r.onExpected payload fault).2 = (r.onExpected payload fault).1.acks := by
  unfold Receiver.onExpected
  split
  · rfl
  split
  · rfl
  dsimp only
  split
  · rfl
  rw [drain_eq]
  cases r.stopped fault with
  | some what =>
    rw [sent_received, ← List.append_nil (received _), sent_received]
    rfl
  | none =>
    dsimp only
    rw [List.append_assoc, sent_received, sent_received]
    split <;> rfl

/-- A DATA packet is answered by the acknowledgement of what is then written. -/
theorem resume_sent {pkt : Bytes} {fault : Option (Nat × Str)} {d : UInt16 × Bytes}
    (hop : peekOpcode pkt = .ok OP_DATA) (hparse : parseData pkt = .ok d) :
    sent (r.resume (.packet pkt fault)).2 = (r.resume (.packet pkt fault)).1.acks := by
  have hne : OP_DATA ≠ OP_ERROR := by decide
  obtain ⟨wire, payload⟩ := d
  simp only [Receiver.resume, hop, if_neg hne, ne_eq, not_true_eq_false, if_false, hparse]
  split
  · rfl
  · split
    · exact onExpected_sent _ payload fault
    · rfl

/-- A wait that goes on after a block acknowledges what is written. -/
theorem sent_of_data {r' : Receiver} (h : (r.resume (arrival p n)).1 = .wait r') :
    sent (r.resume (arrival p n)).2 = [packAck (UInt16.ofNat (r'.expected - 1))] := by
  have hsent : sent (r.resume (arrival p n)).2 = (r.resume (arrival p n)).1.acks :=
    resume_sent (peekOpcode_packData (UInt16.ofNat n) (p n)) (parseData_packData _ _)
  exact hsent.trans (congrArg Next.acks h)

end Blocks

/-! ## What is in the file, whatever arrives -/

section FullBlocks

variable {file : Bytes} {bs n : Nat} {r : Receiver}

/-- Every block that stands for one before the last is full.  So the bytes are there, though perhaps
    not the right ones. -/
structure FullBlocks (file : Bytes) (bs : Nat) (r : Receiver) : Prop where
  one : 1 ≤ r.expected
  bytes : min (r.expected - 1) (blockCount file.length bs - 1) * bs ≤ r.bytesTransferred
  queue : ∀ k q, (k, q) ∈ r.windowReceived → k < blockCount file.length bs → q.length = bs

theorem full_chunks {T : Nat} {bufs : List Bytes} {m : Nat} (h1 : 1 ≤ m)
    (h : ∀ (i : Nat) (b : Bytes), bufs[i]? = some b → m + i < T → b.length = bs) :
    min (m + bufs.length - 1) (T - 1) * bs ≤
      min (m - 1) (T - 1) * bs + bufs.flatten.length := by
  induction bufs generalizing m with
  | nil => simp
  | cons b bufs ih =>
    have hrest := ih (m := m + 1) (by omega) fun i b' hb' hlt =>
      h (i + 1) b' hb' (by omega)
    have hfirst : min m (T - 1) * bs ≤ min (m - 1) (T - 1) * bs + b.length := by
      by_cases hlt : m < T
      · have hb : b.length = bs := h 0 b rfl hlt
        rw [hb, ← Nat.succ_mul]
        exact Nat.mul_le_mul_right bs (by omega)
      · rw [show min m (T - 1) = min (m - 1) (T - 1) by omega]
        exact Nat.le_add_right _ _
    rw [List.flatten_cons, List.length_append, List.length_cons]
    rw [show m + 1 + bufs.length - 1 = m + (bufs.length + 1) - 1 by omega,
      show m + 1 - 1 = m by omega] at hrest
    omega

theorem FullBlocks.retries (h : FullBlocks file bs r) (m : Nat) : FullBlocks file bs { r with retries := m } :=
  ⟨h.one, h.bytes, h.queue⟩

/-- A block is taken for a later one. -/
theorem FullBlocks.buffered (h : FullBlocks file bs r) (h1 : 1 ≤ n) {c : Nat} (hc : n ≤ c) :
    FullBlocks file bs
      { r with windowReceived := setReceived r.windowReceived c (block file bs n) } := by
  refine ⟨h.one, h.bytes, fun k q hq hk => ?_⟩
  rcases List.mem_cons.1 hq with hq | hq
  · obtain ⟨rfl, rfl⟩ := Prod.mk.inj hq
    exact length_full_block file h1 (by omega)
  · exact h.queue k q (List.mem_filter.1 hq).1 hk

theorem waiting_mem {i : Nat} {b : Bytes} (h : (r.waiting none)[i]? = some b) :
    (r.expected + 1 + i, b) ∈ r.windowReceived :=
  contiguous_mem h

/-- A block is taken for the one expected. -/
theorem FullBlocks.drained (h : FullBlocks file bs r) (h1 : 1 ≤ n) (hn : n ≤ r.expected) :
    FullBlocks file bs (r.drained (block file bs n) none) := by
  have hfull : ∀ (i : Nat) (b : Bytes), (block file bs n :: r.waiting none)[i]? = some b →
      r.expected + i < blockCount file.length bs → b.length = bs := by
    intro i b hb hlt
    cases i with
    | zero =>
      obtain rfl : block file bs n = b := Option.some.inj hb
      exact length_full_block file h1 (by omega)
    | succ i =>
      refine h.queue _ b (waiting_mem hb) ?_
      rw [Nat.add_assoc, Nat.add_comm 1 i]
      exact hlt
  have hchunks := full_chunks h.one hfull
  have hbytes := h.bytes
  refine ⟨?_, ?_, fun k q hq hk => h.queue k q (List.mem_filter.1 hq).1 hk⟩
  · show 1 ≤ r.expected + 1 + _
    omega
  show min (r.expected + 1 + (r.waiting none).length - 1) _ * bs ≤
    r.bytesTransferred + (block file bs n :: r.waiting none).flatten.length
  rw [List.length_cons] at hchunks
  rw [show r.expected + 1 + (r.waiting none).length - 1 =
    r.expected + ((r.waiting none).length + 1) - 1 by omega]
  omega

/-- Once the last block is expected, all the bytes before it are there. -/
theorem FullBlocks.all_but_last (h : FullBlocks file bs r) (hb : 0 < bs)
    (he : blockCount file.length bs ≤ r.expected) :
    file.length ≤ r.bytesTransferred +
      (block file bs (blockCount file.length bs)).length := by
  have hbytes := h.bytes
  rw [show min (r.expected - 1) (blockCount file.length bs - 1) =
    blockCount file.length bs - 1 by omega] at hbytes
  have hdiv := Nat.div_add_mod file.length bs
  rw [length_last_block file hb]
  have hcount : (blockCount file.length bs - 1) * bs = bs * (file.length / bs) := by
    rw [blockCount, Nat.add_sub_cancel, Nat.mul_comm]
  omega

end FullBlocks

/-! ## What is in the file, if every block is taken for what it is -/

section Exact

variable {file : Bytes} {bs n : Nat} {r : Receiver}

/-- The blocks of the file are written in order; those that wait are right, or beyond a gap that
    nothing fills. -/
structure Exact (file : Bytes) (bs : Nat) (r : Receiver) : Prop where
  expected : r.expected ≤ blockCount file.length bs + 1
  written : r.file = file.take ((r.expected - 1) * bs)
  queue : ∀ k q, (k, q) ∈ r.windowReceived →
    (k ≤ blockCount file.length bs ∧ q = block file bs k) ∨ blockCount file.length bs + 2 ≤ k

theorem Exact.retries (h : Exact file bs r) (m : Nat) : Exact file bs { r with retries := m } :=
  ⟨h.expected, h.written, h.queue⟩

theorem Exact.buffered (h : Exact file bs r) {c : Nat}
    (hc : (c = n ∧ n ≤ blockCount file.length bs) ∨ blockCount file.length bs + 2 ≤ c) :
    Exact file bs
      { r with windowReceived := setReceived r.windowReceived c (block file bs n) } := by
  refine ⟨h.expected, h.written, fun k q hq => ?_⟩
  rcases List.mem_cons.1 hq with hq | hq
  · obtain ⟨rfl, rfl⟩ := Prod.mk.inj hq
    rcases hc with ⟨rfl, hn⟩ | hc
    · exact .inl ⟨hn, rfl⟩
    · exact .inr hc
  · exact h.queue k q (List.mem_filter.1 hq).1

theorem take_append_blocks (file : Bytes) (bs m c : Nat) :
    file.take (m * bs) ++ ((List.range' (m + 1) c).map (block file bs)).flatten =
      file.take ((m + c) * bs) := by
  induction c generalizing m with
  | zero => simp
  | succ c ih =>
    rw [List.range'_succ, List.map_cons, List.flatten_cons, ← List.append_assoc,
      take_append_block, ih (m + 1)]
    congr 2
    omega

/-- The blocks behind the expected one are the next ones of the file. -/
theorem Exact.waiting (h : Exact file bs r) (hT : r.expected ≤ blockCount file.length bs) :
    r.waiting none =
        (List.range' (r.expected + 1) (r.waiting none).length).map (block file bs) ∧
      r.expected + (r.waiting none).length ≤ blockCount file.length bs := by
  -- the gap after the last block cannot be crossed
  have hright : ∀ (i : Nat) (b : Bytes), (r.waiting none)[i]? = some b →
      r.expected + 1 + i ≤ blockCount file.length bs ∧ b = block file bs (r.expected + 1 + i) := by
    intro i b hb
    rcases h.queue _ b (waiting_mem hb) with hright | hfar
    · exact hright
    · have hi := (List.getElem?_eq_some_iff.1 hb).1
      obtain ⟨b', hb'⟩ : ∃ b', (r.waiting none)[blockCount file.length bs - r.expected]? = some b' :=
        ⟨_, List.getElem?_eq_getElem (by omega)⟩
      have hmem := waiting_mem hb'
      rcases h.queue _ b' hmem with ⟨hle, -⟩ | hle <;> omega
  constructor
  · apply List.ext_getElem?
    intro i
    cases hb : (r.waiting none)[i]? with
    | none =>
      have hi := List.getElem?_eq_none_iff.1 hb
      exact (List.getElem?_eq_none_iff.2 (by simpa using hi)).symm
    | some b =>
      have hi := (List.getElem?_eq_some_iff.1 hb).1
      rw [List.getElem?_map, List.getElem?_range' hi, (hright i b hb).2]
      simp
  · rcases Nat.eq_zero_or_pos (r.waiting none).length with h0 | hpos
    · omega
    · obtain ⟨b, hb⟩ : ∃ b, (r.waiting none)[(r.waiting none).length - 1]? = some b :=
        ⟨_, List.getElem?_eq_getElem (by omega)⟩
      have := (hright _ b hb).1
      omega

/-- The expected block arrives. -/
theorem Exact.drained (h : Exact file bs r) (h1 : 1 ≤ r.expected)
    (hT : r.expected ≤ blockCount file.length bs) :
    Exact file bs (r.drained (block file bs r.expected) none) := by
  obtain ⟨hwait, hle⟩ := h.waiting hT
  refine ⟨?_, ?_, fun k q hq => h.queue k q (List.mem_filter.1 hq).1⟩
  · show r.expected + 1 + (r.waiting none).length ≤ _
    omega
  show r.file ++ (block file bs r.expected :: r.waiting none).flatten =
    file.take ((r.expected + 1 + (r.waiting none).length - 1) * bs)
  have htake := take_append_blocks file bs (r.expected - 1) ((r.waiting none).length + 1)
  rw [Nat.sub_add_cancel h1, List.range'_succ, List.map_cons, ← hwait] at htake
  rw [h.written, htake]
  congr 2
  omega

/-- **The end.**  A short block that arrives in order completes the file, if its size does no harm. -/
theorem Exact.complete (h : Exact file bs r) (h1 : 1 ≤ r.expected)
    (hT : r.expected ≤ blockCount file.length bs) (hb : 0 < bs)
    (hshort : ((block file bs r.expected).length : Int) < r.blksize)
    (hsafe : (bs : Int) < r.blksize → file.length ≤ bs) :
    (r.drained (block file bs r.expected) none).file = file := by
  have hd := (h.drained h1 hT).written
  have hexp : (r.drained (block file bs r.expected) none).expected - 1 =
      r.expected + (r.waiting none).length := by
    show r.expected + 1 + (r.waiting none).length - 1 = _
    omega
  rw [hd, hexp]
  refine List.take_of_length_le ?_
  by_cases hlt : (bs : Int) < r.blksize
  · calc file.length ≤ 1 * bs := by rw [Nat.one_mul]; exact hsafe hlt
      _ ≤ _ := Nat.mul_le_mul_right bs (by omega)
  · have hlast := (length_block_lt_iff file hb h1 hT).1 (by omega)
    calc file.length ≤ r.expected * bs := by
          rw [hlast]
          exact Nat.le_of_lt (lt_blockCount_mul hb)
      _ ≤ _ := Nat.mul_le_mul_right bs (by omega)

end Exact

end Nishro.Py

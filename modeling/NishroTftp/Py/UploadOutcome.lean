import NishroTftp.Py.UploadDelivery
import NishroTftp.Py.UploadEnds
/-
  When an upload that is done has stored the file of the client.

  Where blocks of an offered size can do harm there is a run that ends in another file.  If they are
  short for the session, the first block alone is stored.  If they are not, the client sends all blocks
  but the last, an old block takes the place AFTER the last one in the buffer, and is written behind it.
-/
namespace Nishro.Py

open Runs Blocks WriteClient

/-! ## Runs that go wrong -/

section Wrong

variable {file : Bytes} {a : SessionArgs} {w : World} {path : Str} {base r : Receiver} {bs ws k h : Nat}
  {queue : List (Nat × Bytes)} {x : UploadLink}

/-- The first `k` blocks are written and acknowledged, and the client has sent `h`. -/
structure AtBlock (file : Bytes) (a : SessionArgs) (w : World) (path : Str) (base : Receiver)
    (bs ws k h : Nat) (queue : List (Nat × Bytes)) (x : UploadLink) (r : Receiver) : Prop
    extends Kin base r, OfSession a w x.s where
  client : x.client = ⟨some (bs, ws), k, h⟩
  stage : x.s.stage = .receiving r path
  expected : r.expected = k + 1
  queued : r.windowReceived = queue
  written : r.file = file.take (k * bs)
  bytes : r.bytesTransferred = (file.take (k * bs)).length

theorem absolute_self {start count : Nat} (hc : 1 ≤ count) :
    absolute start count (UInt16.ofNat start) = some start := by
  obtain ⟨c, rfl⟩ : ∃ c, count = c + 1 := ⟨count - 1, by omega⟩
  unfold absolute
  rw [List.range'_succ, List.find?_cons_of_pos]
  simp

/-- The ACK of the block that is out. -/
theorem hears_next (p : Nat × Nat) (k : Nat) :
    hears ⟨some p, k, k + 1⟩ (packAck (UInt16.ofNat (k + 1))) = ⟨some p, k + 1, k + 1⟩ := by
  have hfind : (List.range' (k + 1) (k + 1 - k)).find?
      (fun b => b % 65536 == (UInt16.ofNat (k + 1)).toNat) = some (k + 1) :=
    absolute_self (by omega)
  simp only [hears, ackNumber_packAck, Client.ack, hfind]

/-- The next block goes out. -/
theorem AtBlock.send (hx : AtBlock file a w path base bs ws k k queue x r) (hws : 1 ≤ ws)
    (hk : k < blockCount file.length bs) :
    AtBlock file a w path base bs ws k (k + 1) queue (linkStep file x .send) r := by
  refine ⟨hx.toKin, ⟨hx.args, hx.world⟩, ?_, hx.stage, hx.expected, hx.queued, hx.written, hx.bytes⟩
  show x.client.send file = _
  rw [hx.client]
  exact if_pos ⟨by show k < k + ws; omega, hk⟩

/-- **The next block arrives**, with nothing against it. -/
theorem AtBlock.arrives (hx : AtBlock file a w path base bs ws k h queue x r)
    (hwin : 1 ≤ base.windowsize)
    (hcap : base.maxWrqSize ≠ 0 → ((file.take ((k + 1) * bs)).length : Int) ≤ base.maxWrqSize)
    (hroll : base.allowRollover = false → k + 1 ≤ 65535) :
    (r.resume (arrival (block file bs) (k + 1))).1 =
      if ((block file bs (k + 1)).length : Int) < base.blksize then
        .ret (Receiver.drained { r with retries := 0 } (block file bs (k + 1)) none)
      else .wait (Receiver.drained { r with retries := 0 } (block file bs (k + 1)) none) := by
  have hcand : absolute r.expected r.windowsize.toNat (UInt16.ofNat (k + 1)) = some r.expected := by
    rw [hx.expected]
    refine absolute_self ?_
    rw [hx.windowsize]
    omega
  rw [resume_data, hcand]
  simp only [if_true]
  rcases onExpected_cases { r with retries := 0 } (block file bs (k + 1)) none with
    ⟨hbad, -⟩ | ⟨-, hbad, -⟩ | ⟨-, -, heq⟩
  · rcases hbad with ⟨h0, hlt⟩ | ⟨what, hwhat⟩
    · rw [hx.maxWrqSize] at h0 hlt
      have hle := hcap h0
      rw [← take_append_block, List.length_append] at hle
      rw [hx.bytes] at hlt
      omega
    · cases hwhat
  · have h0 : r.allowRollover = false := hbad.1
    have hlt : 65535 < r.expected := hbad.2
    rw [hx.allowRollover] at h0
    rw [hx.expected] at hlt
    have := hroll h0
    omega
  · rw [heq, ← hx.blksize]
    rfl

/-- What is then in the file. -/
theorem AtBlock.drained_file (hx : AtBlock file a w path base bs ws k h queue x r) :
    (Receiver.drained { r with retries := 0 } (block file bs (k + 1)) none).file =
      file.take ((k + 1) * bs) ++
        (contiguous queue.length (k + 2) queue).flatten := by
  show r.file ++ (block file bs (k + 1) ::
    contiguous r.windowReceived.length (r.expected + 1) r.windowReceived).flatten = _
  rw [hx.written, hx.queued, hx.expected, List.flatten_cons, ← List.append_assoc, take_append_block]

/-- A full block on which the session waits on, and its ACK. -/
theorem AtBlock.next (hws : 1 ≤ ws) (hwin : 1 ≤ base.windowsize)
    (hk : k + 1 < blockCount file.length bs) (hfull : base.blksize ≤ bs)
    (hcap : base.maxWrqSize ≠ 0 → ((file.take ((k + 1) * bs)).length : Int) ≤ base.maxWrqSize)
    (hroll : base.allowRollover = false → k + 1 ≤ 65535) :
    Leads (linkStep file) TimelyLink
      (fun x => ∃ r, AtBlock file a w path base bs ws k k [] x r)
      (fun x => ∃ r, AtBlock file a w path base bs ws (k + 1) (k + 1) [] x r) := by
  rintro x ⟨r, hx⟩
  -- the client sends, the session takes the block and acknowledges it, the client hears the ACK
  have hx₁ := hx.send hws (by omega)
  generalize h₁ : linkStep file x .send = x₁ at hx₁
  have hlen := length_full_block file (show 1 ≤ k + 1 by omega) hk
  have hr := hx₁.arrives hwin hcap hroll
  rw [if_neg (by omega)] at hr
  have hfile := hx₁.drained_file
  have hst := drained_stores { r with retries := 0 } (block file bs (k + 1)) none
  generalize hd : Receiver.drained { r with retries := 0 } (block file bs (k + 1)) none = r' at hr hfile hst
  -- nothing is queued, so the block is all that is written
  have hwait : Receiver.waiting { r with retries := 0 } none = [] := by
    show contiguous r.windowReceived.length (r.expected + 1) r.windowReceived = []
    rw [hx.queued]
    rfl
  rw [hwait] at hst
  have hexp : r'.expected = k + 2 := by
    rw [hst.expected]
    show r.expected + 1 = k + 2
    rw [hx.expected]
  have h₂ : linkStep file x₁ (.data (k + 1)) =
      x₁.waits (x₁.s.stepped path (r.resume (arrival (block file bs) (k + 1)))).1 r' := by
    simp only [linkStep, hx₁.client]
    rw [if_pos ⟨by omega, Nat.le_refl _⟩, input_waits hx₁.stage hr (sent_of_data hr)]
  have hsame := same_stepped x₁.s path (r.resume (arrival (block file bs) (k + 1)))
  obtain ⟨hstage, -⟩ := stepped_wait x₁.s path hr
  generalize (x₁.s.stepped path (r.resume (arrival (block file bs) (k + 1)))).1 = s at h₂ hsame hstage
  have hout : (x₁.waits s r').out[x₁.out.length]? = some (k + 1, packAck (UInt16.ofNat (k + 1))) := by
    show (x₁.out ++ [(r'.expected - 1, packAck (UInt16.ofNat (r'.expected - 1)))])[x₁.out.length]? = _
    rw [List.getElem?_append_right (Nat.le_refl _), hexp]
    simp
  have h₃ : linkStep file (x₁.waits s r') (.reply x₁.out.length) =
      { x₁.waits s r' with client := ⟨some (bs, ws), k + 1, k + 1⟩ } := by
    have hclient : (x₁.waits s r').client = ⟨some (bs, ws), k, k + 1⟩ := hx₁.client
    simp only [linkStep, hout]
    rw [hclient, hears_next]
  refine ⟨[.send, .data (k + 1), .reply x₁.out.length], ?_, r', ?_⟩
  · -- both packets arrive long before the block number comes round
    refine ⟨trivial, ?_, ?_, trivial⟩
    · rw [h₁]
      show x₁.client.high < k + 1 + 65535
      rw [hx₁.client]
      show k + 1 < k + 1 + 65535
      omega
    · rw [h₁, h₂]
      intro m pkt hm
      rw [hout] at hm
      obtain ⟨rfl, -⟩ := Prod.mk.inj (Option.some.inj hm)
      show x₁.client.high < k + 1 + 65535
      rw [hx₁.client]
      show k + 1 < k + 1 + 65535
      omega
  · show AtBlock file a w path base bs ws (k + 1) (k + 1) []
      (linkStep file (linkStep file (linkStep file x .send) (.data (k + 1))) (.reply x₁.out.length)) r'
    rw [h₁, h₂, h₃]
    refine ⟨⟨hst.blksize.trans hx.blksize, hst.windowsize.trans hx.windowsize,
      hst.maxWrqSize.trans hx.maxWrqSize, hst.allowRollover.trans hx.allowRollover⟩,
      ⟨hsame.args.trans hx₁.args, hsame.world.trans hx₁.world⟩, rfl, hstage, hexp, ?_, ?_, ?_⟩
    · rw [← hd]
      show r.windowReceived.filter _ = []
      rw [hx.queued]
      rfl
    · rw [hfile]
      exact List.append_nil _
    · rw [hst.bytes]
      show r.bytesTransferred + [block file bs (k + 1)].flatten.length = _
      rw [hx.bytes, ← take_append_block, List.length_append]
      simp

/-- Block after block, up to the last but one. -/
theorem AtBlock.upTo (hws : 1 ≤ ws) (hwin : 1 ≤ base.windowsize) (hfull : base.blksize ≤ bs)
    (hcap : base.maxWrqSize ≠ 0 → (file.length : Int) ≤ base.maxWrqSize)
    (hroll : base.allowRollover = true) :
    Leads (linkStep file) TimelyLink
      (fun x => ∃ r, AtBlock file a w path base bs ws 0 0 [] x r)
      (fun x => ∃ r, AtBlock file a w path base bs ws (blockCount file.length bs - 1)
        (blockCount file.length bs - 1) [] x r) := by
  refine Leads.iterate (P := fun k x => ∃ r, AtBlock file a w path base bs ws k k [] x r)
    (fun k hk => AtBlock.next hws hwin (by omega) hfull (fun h0 => ?_) fun h0 => ?_) _
    (Nat.le_refl _)
  · have hle := List.length_take_le ((k + 1) * bs) file
    have := hcap h0
    have hlen : (file.take ((k + 1) * bs)).length ≤ file.length := by
      rw [List.length_take]
      omega
    omega
  · rw [hroll] at h0
    cases h0

/-- A number that stands for the block after the one expected. -/
theorem absolute_next {start count n : Nat} (hc : 2 ≤ count) (hn : (start + 1) % 65536 = n % 65536) :
    absolute start count (UInt16.ofNat n) = some (start + 1) := by
  obtain ⟨c, rfl⟩ : ∃ c, count = c + 2 := ⟨count - 2, by omega⟩
  have hwire : (UInt16.ofNat n).toNat = n % 65536 := by simp
  unfold absolute
  rw [List.range'_succ, List.find?_cons_of_neg, List.range'_succ, List.find?_cons_of_pos]
  · simp only [hwire, beq_iff_eq]
    exact hn
  · simp only [hwire, beq_iff_eq]
    omega

/-- **An old block is taken for the one after the last.** -/
theorem AtBlock.stale (hwin : 2 ≤ base.windowsize) (hk : 65535 ≤ k) :
    Leads (linkStep file) TimelyLink
      (fun x => ∃ r, AtBlock file a w path base bs ws k k [] x r)
      (fun x => ∃ r, AtBlock file a w path base bs ws k k [(k + 2, block file bs (k - 65534))] x r) := by
  refine Leads.of_step ?_
  rintro x ⟨r, hx⟩
  have hcand : absolute r.expected r.windowsize.toNat (UInt16.ofNat (k - 65534)) = some (k + 2) := by
    rw [hx.expected, hx.windowsize]
    exact absolute_next (by omega) (by omega)
  have hr : (r.resume (arrival (block file bs) (k - 65534))).1 = .wait { r with
      retries := 0
      windowReceived := setReceived r.windowReceived (k + 2) (block file bs (k - 65534)) } := by
    rw [resume_data, hcand]
    simp only [hx.expected]
    rw [if_neg (by omega)]
  have hsame := same_stepped x.s path (r.resume (arrival (block file bs) (k - 65534)))
  obtain ⟨hstage, -⟩ := stepped_wait x.s path hr
  refine ⟨.data (k - 65534), ?_, { r with
    retries := 0
    windowReceived := setReceived r.windowReceived (k + 2) (block file bs (k - 65534)) }, ?_⟩
  · show x.client.high < k - 65534 + 65535
    rw [hx.client]
    show k < k - 65534 + 65535
    omega
  · have hstep : linkStep file x (.data (k - 65534)) =
        x.input (arrival (block file bs) (k - 65534)) := by
      simp only [linkStep, hx.client]
      exact if_pos ⟨by omega, by omega⟩
    rw [hstep, input_waits hx.stage hr (sent_of_data hr)]
    refine ⟨⟨hx.blksize, hx.windowsize, hx.maxWrqSize, hx.allowRollover⟩,
      ⟨hsame.args.trans hx.args, hsame.world.trans hx.world⟩, hx.client, hstage, hx.expected, ?_,
      hx.written, hx.bytes⟩
    show setReceived r.windowReceived (k + 2) _ = _
    rw [hx.queued]
    rfl

/-- **The upload ends with another file.** -/
theorem AtBlock.lost (hws : 1 ≤ ws) (hwin : 1 ≤ base.windowsize)
    (hk : k < blockCount file.length bs)
    (hcap : base.maxWrqSize ≠ 0 → ((file.take ((k + 1) * bs)).length : Int) ≤ base.maxWrqSize)
    (hroll : base.allowRollover = false → k + 1 ≤ 65535)
    (hshort : ((block file bs (k + 1)).length : Int) < base.blksize)
    (hjoin : safeJoin w.paths a.writeRoot a.uploadName = .ok path) (hcomp : w.Completes a)
    (hother : file.take ((k + 1) * bs) ++ (contiguous queue.length (k + 2) queue).flatten ≠ file) :
    Leads (linkStep file) TimelyLink
      (fun x => ∃ r, AtBlock file a w path base bs ws k k queue x r)
      (fun x => ¬ Arrived file x.s) := by
  rintro x ⟨r, hx⟩
  have hx₁ := hx.send hws hk
  refine ⟨[.send, .data (k + 1)], ⟨trivial, ?_, trivial⟩, ?_⟩
  · show (linkStep file x .send).client.high < k + 1 + 65535
    rw [hx₁.client]
    show k + 1 < k + 1 + 65535
    omega
  · show ¬ Arrived file (linkStep file (linkStep file x .send) (.data (k + 1))).s
    generalize linkStep file x .send = x₁ at hx₁
    have hr := hx₁.arrives hwin hcap hroll
    rw [if_pos hshort] at hr
    have hstep : linkStep file x₁ (.data (k + 1)) = x₁.input (arrival (block file bs) (k + 1)) := by
      simp only [linkStep, hx₁.client]
      exact if_pos ⟨by omega, Nat.le_refl _⟩
    rw [hstep, input_session hx₁.stage, arrived_ret_iff x₁.s hr (by rw [hx₁.world, hx₁.args]; exact hjoin),
      hx₁.drained_file, hx₁.world, hx₁.args]
    exact fun hx => hother (hx hcomp)

end Wrong

/-! ## From the request on -/

section Start

variable {file : Bytes} {a : SessionArgs} {w : World} {neg : Negotiated} {maxRetries : Int} {path : Str}

/-- The receive loop as a request starts it. -/
def SessionArgs.receiver (a : SessionArgs) (neg : Negotiated) (maxRetries : Int) : Receiver :=
  Receiver.new neg.blksize neg.windowsize maxRetries a.maxWrqSize a.allowRollover

theorem untouched_receiver (a : SessionArgs) (neg : Negotiated) (maxRetries : Int) :
    Untouched (a.receiver neg maxRetries) (a.receiver neg maxRetries) :=
  ⟨.refl _, rfl, rfl, rfl, rfl, rfl⟩

theorem start_of (a : SessionArgs) (w : World) : OfSession a w (Session.start a w).1 :=
  ⟨(same_start a w).args, (same_start a w).world⟩

section

variable (hop : a.request.opcode ≠ OP_RRQ) (hp : a.Passes w neg maxRetries path)
  (hopen : w.openTmp = none)
include hop hp hopen

/-- A request that passes gets its first answer. -/
theorem start_answers :
    (UploadLink.start a w).out = [(0, wrqReply neg)] ∧
      (UploadLink.start a w).s.stage = .receiving (a.receiver neg maxRetries) path ∧
      (UploadLink.start a w).s.info.state ≠ str "done" := by
  obtain ⟨hstage, hstate⟩ := (start_passes hop hp).2 hopen
  refine ⟨?_, hstage, hstate⟩
  obtain ⟨info', -, hwrq⟩ := hp.openWrq (Session.new a w).info
  show (sent (Session.start a w).2).map (0, ·) = _
  rw [start_wrq hop w, hwrq, hopen]
  rfl

theorem start_idle :
    LinkPhase file a w neg path (a.receiver neg maxRetries) (UploadLink.start a w) := by
  obtain ⟨hout, hstage, hstate⟩ := start_answers hop hp hopen
  refine .idle hstage hstate (untouched_receiver a neg maxRetries) rfl fun m pkt hm => ?_
  rw [hout] at hm
  obtain ⟨rfl, rfl⟩ := Prod.mk.inj (List.mem_singleton.1 hm)
  exact ⟨rfl, .inl rfl⟩

/-- A client can begin with whatever is offered to it. -/
theorem start_leads {bs ws : Nat} (hoff : Offered neg maxRetries (bs, ws)) :
    Leads (linkStep file) TimelyLink (fun x => x = UploadLink.start a w)
      (fun x => ∃ r, AtBlock file a w path (a.receiver neg maxRetries) bs ws 0 0 [] x r) := by
  rintro x rfl
  obtain ⟨hout, hstage, hstate⟩ := start_answers hop hp hopen
  have hof : OfSession a w (UploadLink.start a w).s := start_of a w
  have hnew : (UploadLink.start a w).client = .new := rfl
  generalize UploadLink.start a w = x at *
  rcases hoff with hoff | ⟨hretries, hoff⟩
  · have hk : x.out[0]? = some (0, wrqReply neg) := by
      rw [hout]
      rfl
    refine ⟨[.reply 0], ⟨fun m pkt hm => ?_, trivial⟩, a.receiver neg maxRetries, ?_⟩
    · rw [hnew]
      exact Nat.lt_of_lt_of_le Nat.zero_lt_one (by omega)
    have hstep : linkStep file x (.reply 0) = { x with client := ⟨some (bs, ws), 0, 0⟩ } := by
      simp only [linkStep, hk, hnew, hears, Client.new, hoff]
    show AtBlock file a w path _ bs ws 0 0 [] (linkStep file x (.reply 0)) _
    rw [hstep]
    exact ⟨.refl _, hof, rfl, hstage, rfl, rfl, by simp [SessionArgs.receiver, Receiver.new],
      by simp [SessionArgs.receiver, Receiver.new]⟩
  · -- the first answer is lost; the timeout sends ACK 0
    obtain ⟨rfl, rfl⟩ := Prod.mk.inj hoff
    have hr : ((a.receiver neg maxRetries).resume .timeout).1 =
        .wait { a.receiver neg maxRetries with retries := 1 } := by
      simp only [Receiver.resume]
      rw [if_neg (by show ¬ maxRetries < 1; omega)]
      rfl
    have hsent : sent ((a.receiver neg maxRetries).resume .timeout).2 = [packAck 0] :=
      (timeout_wait hr).2.2
    obtain ⟨hst, -⟩ := stepped_wait x.s path hr
    have hsame := same_stepped x.s path ((a.receiver neg maxRetries).resume .timeout)
    have h₁ : linkStep file x .timeout = _ := input_waits hstage hr hsent
    generalize (x.s.stepped path ((a.receiver neg maxRetries).resume .timeout)).1 = s at h₁ hst hsame
    have hk : (x.waits s { a.receiver neg maxRetries with retries := 1 }).out[1]? =
        some (0, packAck 0) := by
      show (x.out ++ [_])[1]? = _
      rw [hout]
      rfl
    have h₂ : linkStep file (x.waits s { a.receiver neg maxRetries with retries := 1 }) (.reply 1) =
        { x.waits s { a.receiver neg maxRetries with retries := 1 } with
          client := ⟨some (512, 1), 0, 0⟩ } := by
      have hclient : (x.waits s { a.receiver neg maxRetries with retries := 1 }).client = .new := hnew
      simp only [linkStep, hk]
      rw [hclient]
      rfl
    refine ⟨[.timeout, .reply 1], ⟨trivial, fun m pkt hm => ?_, trivial⟩,
      { a.receiver neg maxRetries with retries := 1 }, ?_⟩
    · show x.client.high < _
      rw [hnew]
      exact Nat.lt_of_lt_of_le Nat.zero_lt_one (by omega)
    show AtBlock file a w path _ 512 1 0 0 []
      (linkStep file (linkStep file x .timeout) (.reply 1)) _
    rw [h₁, h₂]
    exact ⟨⟨rfl, rfl, rfl, rfl⟩, ⟨hsame.args.trans hof.args, hsame.world.trans hof.world⟩, rfl, hst,
      rfl, rfl, by simp [SessionArgs.receiver, Receiver.new],
      by simp [SessionArgs.receiver, Receiver.new]⟩

/-- Where a size can do harm, it does so in some run. -/
theorem harmed (hcomp : w.Completes a) {bs ws : Nat}
    (hoff : Offered neg maxRetries (bs, ws)) (hbad : ¬ (a.receiver neg maxRetries).Safe file bs) :
    ∃ es, Along (linkStep file) TimelyLink (UploadLink.start a w) es ∧
      ¬ Arrived file (run (linkStep file) (UploadLink.start a w) es).s := by
  obtain ⟨hbs, hws, -⟩ : 0 < bs ∧ 1 ≤ ws ∧ ws ≤ 65535 := by
    rcases hoff with hoff | ⟨-, hoff⟩
    · exact opening_spec hoff
    · obtain ⟨rfl, rfl⟩ := Prod.mk.inj hoff
      decide
  have hwin : 1 ≤ (a.receiver neg maxRetries).windowsize := by
    show (1 : Int) ≤ max 1 neg.windowsize
    omega
  have hbegin : Leads (linkStep file) TimelyLink (fun x => x = UploadLink.start a w) _ :=
    start_leads hop hp hopen hoff
  generalize a.receiver neg maxRetries = base at *
  suffices hlost : Leads (linkStep file) TimelyLink
      (fun x => ∃ r, AtBlock file a w path base bs ws 0 0 [] x r)
      (fun x => ¬ Arrived file x.s) from (hbegin.trans hlost) _ rfl
  by_cases hlt : (bs : Int) < base.blksize
  · -- the first block is taken for the last
    have hnot : ¬ (file.length ≤ bs ∨ (base.maxWrqSize ≠ 0 ∧ base.maxWrqSize < bs)) := fun hx =>
      hbad ⟨fun _ => hx, fun hge => absurd hlt (by omega)⟩
    rw [not_or] at hnot
    have hlen : (file.take ((0 + 1) * bs)).length = bs := by
      rw [List.length_take]
      omega
    refine AtBlock.lost hws hwin (blockCount_pos _ _) (fun h0 => ?_) (fun _ => by omega) ?_ hp.joins
      hcomp ?_
    · rw [hlen]
      exact Int.not_lt.1 fun hM => hnot.2 ⟨h0, hM⟩
    · rw [length_block]
      omega
    · show file.take ((0 + 1) * bs) ++ [] ≠ file
      intro heq
      have := congrArg List.length heq
      rw [List.append_nil, hlen] at this
      omega
  · have hnot : ¬ (blockCount file.length bs ≤ 65535 ∨ base.windowsize = 1 ∨
        base.allowRollover = false ∨ base.blksize ≤ (file.length % bs : Nat) ∨
        (base.maxWrqSize ≠ 0 ∧ base.maxWrqSize < file.length)) := fun hx =>
      hbad ⟨fun hx' => absurd hx' hlt, fun _ => hx⟩
    simp only [not_or] at hnot
    obtain ⟨hT, hw1, hroll, hB, hM⟩ := hnot
    have hroll : base.allowRollover = true := by simpa using hroll
    have hcap : base.maxWrqSize ≠ 0 → (file.length : Int) ≤ base.maxWrqSize := fun h0 =>
      Int.not_lt.1 fun hlt => hM ⟨h0, hlt⟩
    have hlast : blockCount file.length bs - 1 + 1 = blockCount file.length bs := by omega
    have hall : file.take ((blockCount file.length bs - 1 + 1) * bs) = file := by
      exact take_blockCount file hbs
    refine ((AtBlock.upTo hws hwin (by omega) hcap hroll).trans
      (AtBlock.stale (by omega) (by omega))).trans ?_
    refine AtBlock.lost hws hwin (by omega) (fun h0 => ?_) (fun h0 => ?_) ?_ hp.joins hcomp ?_
    · rw [hall]
      exact hcap h0
    · rw [hroll] at h0
      cases h0
    · rw [hlast, length_last_block file hbs]
      omega
    -- the old block is written behind the last one
    have hold := length_full_block file (b := bs)
      (n := blockCount file.length bs - 1 - 65534) (by omega) (by omega)
    rw [hall]
    intro heq
    have := congrArg List.length heq
    rw [List.length_append] at this
    simp only [contiguous, List.length_singleton, List.lookup_cons, beq_self_eq_true,
      List.flatten_cons, List.flatten_nil, List.append_nil, hold] at this
    omega

end

end Start

/-- **When an upload that is done has stored the file.**  Let a client of the protocol upload any file
    under any request and configuration, over a network that is timely.  In EVERY run a session that is
    done has stored exactly that file if and only if, the request being let pass and the rename and the
    FTP upload working, no block size that is offered to the client can do harm. -/
theorem uploads_arrive_iff {a : SessionArgs} (hop : a.request.opcode ≠ OP_RRQ) (w : World) (f : Fate)
    (file : Bytes) :
    (∀ es, Along (linkStep file) TimelyLink (UploadLink.start a (f.world a w)) es →
      Arrived file (run (linkStep file) (UploadLink.start a (f.world a w)) es).s) ↔
    ∀ neg maxRetries path, a.Passes (f.world a w) neg maxRetries path → w.openTmp = none →
      w.Completes a → ∀ bs ws, Offered neg maxRetries (bs, ws) →
        (a.receiver neg maxRetries).Safe file bs := by
  constructor
  · intro h neg maxRetries path hp hopen hcomp bs ws hoff
    by_contra hbad
    obtain ⟨es, hes, hlost⟩ := harmed hop hp hopen hcomp hoff hbad
    exact hlost (h es hes)
  · intro h es hes
    by_cases hp : ∃ neg maxRetries path, a.Passes (f.world a w) neg maxRetries path ∧ w.openTmp = none
    · obtain ⟨neg, maxRetries, path, hp, hopen⟩ := hp
      exact (start_idle hop hp hopen).run (start_of a _) hp
        (fun hcomp => h neg maxRetries path hp hopen hcomp) es hes
    have hturned : (Session.start a (f.world a w)).1.stage = .ended ∧
        (Session.start a (f.world a w)).1.info.state ≠ str "done" := by
      by_cases hp' : ∃ neg maxRetries path, a.Passes (f.world a w) neg maxRetries path
      · obtain ⟨neg, maxRetries, path, hp'⟩ := hp'
        cases hopen : w.openTmp with
        | none => exact absurd ⟨neg, maxRetries, path, hp', hopen⟩ hp
        | some what => exact (start_passes hop hp').1 what hopen
      · exact start_refused hop fun neg maxRetries path hx => hp' ⟨neg, maxRetries, path, hx⟩
    rw [run_ended hturned.1]
    exact arrived_of_not_done hturned.2

/-- One byte, without options, is stored. -/
theorem one_byte_arrives :
    Arrived [7] (run (linkStep [7])
      (UploadLink.start writeF (leftAlone.world writeF (obligingWorld none)))
      [.reply 0, .send, .data 1]).s := by
  refine (uploads_arrive_iff (by decide) (obligingWorld none) leftAlone [7]).2 ?_ _ ?_
  · intro neg maxRetries path hp _ _ bs ws hoff
    have hneg : negotiate writeF.request.options writeF.cfg none false =
        .ok ⟨512, 1, 3, none, []⟩ := rfl
    obtain rfl := Except.ok.inj (hneg.symm.trans hp.settled)
    have hsize : bs = 512 := by
      rcases hoff with hoff | ⟨-, hoff⟩
      · have hopens : opening (wrqReply ⟨512, 1, 3, none, []⟩) = some (512, 1) := rfl
        exact (Prod.mk.inj (Option.some.inj (hoff.symm.trans hopens))).1
      · exact (Prod.mk.inj hoff).1
    subst hsize
    exact ⟨fun hlt => absurd hlt (Int.lt_irrefl 512), fun _ => .inl (by decide)⟩
  · refine ⟨fun m pkt _ => ?_, trivial, ?_, trivial⟩
    · exact Nat.lt_of_lt_of_le Nat.zero_lt_one (by omega)
    · show 1 < 1 + 65535
      omega

/-- A write request for the file `f` in blocks of 1024 bytes. -/
def largeWrite : SessionArgs :=
  bareArgs ⟨OP_WRQ, str "f", str "octet", [(str "blksize", str "1024")]⟩

def sixHundred : Bytes := List.replicate 600 7

/-- The OACK is lost; after the timeout the client takes ACK 0 for the answer, and sends a block. -/
def afterLostOack : UploadLink :=
  run (linkStep sixHundred)
    (UploadLink.start largeWrite (leftAlone.world largeWrite (obligingWorld none)))
    [.timeout, .reply 1, .send]

/-- **A lost OACK.**  The session has granted 1024 bytes and the client sends 512, so that its first
    block ends the upload: 512 bytes of 600 are stored, and the session is done. -/
theorem lost_oack_truncates :
    ∃ es, Along (linkStep sixHundred) TimelyLink
        (UploadLink.start largeWrite (leftAlone.world largeWrite (obligingWorld none))) es ∧
      ¬ Arrived sixHundred (run (linkStep sixHundred)
        (UploadLink.start largeWrite (leftAlone.world largeWrite (obligingWorld none))) es).s := by
  have hhigh : afterLostOack.client.high = 1 := by decide +kernel
  have hstate : (linkStep sixHundred afterLostOack (.data 1)).s.info.state =
      str "done" := by decide +kernel
  have hstored : (linkStep sixHundred afterLostOack (.data 1)).s.stored =
      .replaced (str "/w/f") (List.replicate 512 7) := by decide +kernel
  refine ⟨[.timeout, .reply 1, .send] ++ [.data 1], ?_, ?_⟩
  · rw [along_append]
    refine ⟨⟨trivial, fun m pkt _ => Nat.lt_of_lt_of_le Nat.zero_lt_one (by omega), trivial, trivial⟩,
      ?_, trivial⟩
    show afterLostOack.client.high < 1 + 65535
    rw [hhigh]
    decide
  · rw [run_append, run_cons, run_nil, ← afterLostOack]
    generalize linkStep sixHundred afterLostOack (.data 1) = x at hstate hstored
    intro h
    have harr := h hstate
    rw [hstored] at harr
    have hlen := congrArg List.length harr.2
    rw [List.length_replicate, sixHundred, List.length_replicate] at hlen
    cases hlen

end Nishro.Py

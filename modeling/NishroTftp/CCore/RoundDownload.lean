import NishroTftp.CCore.Delivery
/-
  A download that is reported to have ended well with a part of the file never sent.

  A client that acknowledges the first block of a window, and takes the rest of it for lost, leaves the
  queue of the window built ahead as it was; the next window is appended to it.  With blocks of 1468
  bytes the queue then fills up long before the window is complete, so `window_last` stays BEHIND the
  blocks that go out with the queue.  If that happens just below block 65536, the client acknowledges
  block 65535 while `window_last` is still below it: `next_block` wraps to 0, and the next ACK ends the
  session.

  `Sailing` says exactly where a session is: what the window is, what is queued, and how far the queue
  goes.  An ACK of the whole window and one of a part of it lead from one `Sailing` to the next; the run
  is put together from these two.
-/
namespace Nishro.CCore

open Nishro.Blocks
open Nishro.ReadClient
open Nishro.Runs
open Nishro.SlidingWindow
open Nishro.Wire

/-! ## How much a queue holds -/

theorem PcapBatch.add_len {b b' : PcapBatch} {q : QueuedFrame} (h : b.add q = some b') :
    b'.len ≤ b'.cap := by
  have hb := PcapBatch.add_eq_some h
  unfold PcapBatch.add at h
  split at h
  · cases h
  next hroom =>
  subst hb
  show ((b.frames ++ [q]).map PcapBatch.cost).sum ≤ b.cap
  rw [List.map_append, List.sum_append]
  have hroom : ¬ b.cap < (b.frames.map PcapBatch.cost).sum + PcapBatch.cost q := hroom
  simp only [List.map_cons, List.map_nil, List.sum_cons, List.sum_nil]
  omega

/-- Filling never goes past the capacity. -/
theorem rrqFillWindow_len (cfg : Config) (s : Session) (b : PcapBatch) (src : FileSource)
    (first : UInt32) (off : UInt64) (h : b.len ≤ b.cap) :
    (rrqFillWindow cfg s b src first off).batch.len ≤
      (rrqFillWindow cfg s b src first off).batch.cap :=
  rrqFillWindow_induct (P := fun b => b.len ≤ b.cap) h
    (fun _ _ _ _ _ _ hadd _ => PcapBatch.add_len hadd) src first off

/-- A block before the last takes this much of the queue, at least. -/
theorem Job.cost_frame (j : Job) {k : Nat} (h1 : 1 ≤ k) (hk : k < j.total) :
    62 + j.b ≤ PcapBatch.cost (j.frame k) := by
  have hfull : ¬ (j.blk k).length < j.b := fun hs =>
    Nat.ne_of_lt hk ((j.short_iff h1 (Nat.le_of_lt hk)).1 hs)
  have hpay : (j.frame k).frame.payload.length = 4 + (j.blk k).length := by
    rw [j.payload]
    simp [Job.blk]
    omega
  unfold PcapBatch.cost UdpFrame.length
  split <;> omega

theorem Job.cost_range (j : Job) {n k : Nat} (h1 : 1 ≤ n) (hn : n + k ≤ j.total) :
    k * (62 + j.b) ≤ ((j.range n k).map PcapBatch.cost).sum := by
  unfold Job.range
  induction k generalizing n with
  | zero => simp
  | succ k ih =>
    have hrest := ih (n := n + 1) (by omega) (by omega)
    have hfirst := j.cost_frame h1 (show n < j.total by omega)
    rw [List.range'_succ, List.map_cons, List.map_cons, List.sum_cons, Nat.add_mul]
    omega

/-! ## Where a session is -/

/-- The window is `n, …, top`; queued are `fs`, up to block `q`. -/
structure Job.Sailing (j : Job) (n top q : Nat) (fs : List QueuedFrame) (s : Session) : Prop
    extends j.Regular s where
  nextIs : s.nextBlock.toNat = n
  lastIs : s.windowLast.toNat = top
  valid : s.prebuiltValid = true
  endIs : s.prebuiltLastBlock.toNat = q
  held : ∃ pb, s.prebuilt = some pb ∧ pb.frames = fs ∧ pb.len ≤ pb.cap

section Session

variable {j : Job} {s : Session} {c : Ctx} {n top q : Nat} {fs : List QueuedFrame}

/-- **Building ahead**, onto what is queued already. -/
theorem Job.Windowed.builds (h : j.Windowed s) (hv : s.prebuiltValid = false)
    (hmore : s.windowLast.toNat < j.total) {pb : PcapBatch} (hpb : s.prebuilt = some pb)
    (hroom : pb.len ≤ pb.cap) :
    ∃ q, j.Sailing s.nextBlock.toNat s.windowLast.toNat q
        (pb.frames ++ j.range (s.windowLast.toNat + 1) (q - s.windowLast.toNat))
        (rrqPrebuildNext j.cfg s) ∧
      (pb.frames = [] → q = min (s.windowLast.toNat + j.w) j.total) := by
  have hneof : s.eofReached = false := by
    by_contra heof
    exact Nat.ne_of_lt hmore (h.eof.1 (by simpa using heof))
  have hreg := h.prebuild hv
  obtain ⟨_, _, _, _, _, _, _, _, hframe⟩ := rrqPrebuildNext_frame j.cfg s
  have hnext : (rrqPrebuildNext j.cfg s).nextBlock = s.nextBlock := by rw [hframe]
  have hlast : (rrqPrebuildNext j.cfg s).windowLast = s.windowLast := by rw [hframe]
  obtain ⟨src, hsrc, -, -⟩ := h.file
  rcases rrqPrebuildNext_cases j.cfg s with ⟨hno, -⟩ | ⟨src', pb', ⟨hfile, -, -⟩, hfail, -⟩ |
    ⟨src', pb', hbuilds, heq⟩
  · rcases hno with hno | hno | hno
    · exact nomatch hno.symm.trans hsrc
    · exact nomatch hno.symm.trans hpb
    · exact nomatch hno.symm.trans hneof
  · obtain ⟨-, q, hq⟩ := h.fill_ahead pb' hfile hneof
    exact nomatch hfail.symm.trans hq.ok
  · obtain rfl : pb = pb' := Option.some.inj (hpb.symm.trans hbuilds.queue)
    obtain ⟨-, q, hq⟩ := h.fill_ahead pb hbuilds.file hneof
    have hlen := rrqFillWindow_len j.cfg s pb src' (s.windowLast + 1) (prebuildOffset s) hroom
    generalize rrqFillWindow j.cfg s pb src' (s.windowLast + 1) (prebuildOffset s) = r at hq heq hlen
    have hcount : q + 1 - (s.windowLast.toNat + 1) = q - s.windowLast.toNat := by omega
    refine ⟨q, ⟨hreg, congrArg UInt32.toNat hnext, congrArg UInt32.toNat hlast, by rw [heq]; rfl,
      by rw [heq]; exact hq.last, r.batch, by rw [heq]; rfl, ?_, hlen⟩, ?_⟩
    · rw [hq.frames, hcount]
    intro hempty
    have hcap := h.queue pb hpb
    have hnew : pb = .new BATCH_CAP := by
      obtain ⟨frames, cap⟩ := pb
      obtain rfl : frames = [] := hempty
      obtain rfl : cap = BATCH_CAP := hcap
      rfl
    rw [hnew] at hq
    exact hq.all

/-- Where the queue ends. -/
theorem Job.Sailing.bounds (h : j.Sailing n top q fs s) :
    n ≤ top + 1 ∧ top + 1 ≤ n + j.w ∧ top < j.total ∧ top ≤ q ∧ q ≤ top + j.w ∧ q ≤ j.total := by
  have ha := h.ahead h.valid
  have h1 := h.next
  have h2 := h.width
  have h3 := ha.more
  have h4 := ha.lo
  have h5 := ha.hi
  have h6 := ha.total
  rw [h.lastIs] at h1 h2 h3 h4 h5
  rw [h.nextIs] at h1 h2
  rw [h.endIs] at h4 h5 h6
  exact ⟨h1, h2, h3, h4, h5, h6⟩

theorem Job.Sailing.more (h : j.Sailing n top q fs s) : s.eofReached = false := by
  by_contra heof
  have hlast := h.eof.1 (by simpa using heof)
  have hmore := (h.ahead h.valid).more
  omega

/-- The number of a block of the window is taken for that block. -/
theorem Job.Sailing.cand (h : j.Sailing n top q fs s) {m : Nat} (hn : n ≤ m) (hm : m ≤ top) :
    (ackCand s.windowLast (UInt16.ofNat m)).toNat = m := by
  have hT := j.total_lt
  have hw := j.winMax
  obtain ⟨-, hwidth, hlt, -⟩ := h.bounds
  have hack : (UInt16.ofNat m).toNat = m % 65536 := by simp
  have hnot : ¬ Wraps s.windowLast (UInt16.ofNat m) := by
    rintro ⟨hwrap, -⟩
    rw [h.lastIs] at hwrap
    omega
  obtain ⟨hle, hfar, hmod⟩ := ackCand_spec (by rw [h.lastIs]; omega) hnot
  rw [h.lastIs] at hle hfar
  exact eq_of_mod_eq hmod (by omega) (by omega)

/-- **The whole window is acknowledged**: what was queued goes out and becomes the window. -/
theorem Job.Sailing.full (h : j.Sailing n top q fs c.s) (now : Clock) (hn : n ≤ top)
    (hq : q < j.total) :
    j.Sailing (top + 1) q (min (q + j.w) j.total)
        (j.range (q + 1) (min (q + j.w) j.total - q))
        (rrqOnAck j.cfg now (UInt16.ofNat top) c).s ∧
      dataFrames (rrqOnAck j.cfg now (UInt16.ofNat top) c).out = dataFrames c.out ++ fs := by
  have ha := h.ahead h.valid
  obtain ⟨pb, hpb, rfl, hroom⟩ := h.held
  have hcand : ackCand c.s.windowLast (UInt16.ofNat top) = c.s.windowLast :=
    UInt32.toNat_inj.1 ((h.cand hn (Nat.le_refl _)).trans h.lastIs.symm)
  have hfirst : c.s.prebuiltFirstBlock = c.s.windowLast + 1 :=
    UInt32.toNat_inj.1 (ha.first.trans (h.ahead_first h.toRegular.last).symm)
  have hle : c.s.nextBlock.toNat ≤ c.s.windowLast.toNat := by
    rw [h.nextIs, h.lastIs]
    exact hn
  have hfast : rrqOnAck j.cfg now (UInt16.ofNat top) c =
      rrqFastPath j.cfg now { c with s := fullyAcked c.s } :=
    (onAck_full j.cfg now hcand (UInt32.le_iff_toNat_le.2 hle) h.more).trans
      (if_pos ⟨h.valid, hfirst⟩)
  rw [hfast]
  obtain ⟨hwin, hnext⟩ := h.toRegular.flushed h.valid now hle
  constructor
  · rw [rrqFastPath_s]
    obtain ⟨q', hq', hall⟩ := hwin.builds rfl
      (show c.s.prebuiltLastBlock.toNat < j.total by rw [h.endIs]; exact hq)
      (show c.s.prebuilt.map PcapBatch.flushed = some pb.flushed by rw [hpb]; rfl)
      (Nat.zero_le _)
    have hend : q' = min (q + j.w) j.total := by
      rw [← h.endIs]
      exact hall rfl
    have hlast' : (flushedSession now (afterAck c.s c.s.windowLast)).windowLast.toNat = q := h.endIs
    have hnext' : (flushedSession now (afterAck c.s c.s.windowLast)).nextBlock.toNat = top + 1 :=
      hnext.trans (congrArg (· + 1) h.lastIs)
    rw [hlast', hnext'] at hq'
    rw [← hend]
    exact hq'
  · refine (dataFrames_progress now _).trans ?_
    rw [dataFrames_append, dataFrames_data]
    show dataFrames c.out ++ (c.s.prebuilt.map (·.frames)).getD [] = _
    rw [hpb]
    rfl

/-- **A part of the window is acknowledged**: the rest goes out again, and the queue grows. -/
theorem Job.Sailing.part (h : j.Sailing n top q fs c.s) (hb : CleanBatch c.batch) (now : Clock)
    {m : Nat} (hn : n ≤ m) (hm : m < top) (hmore : m + j.w < j.total) :
    ∃ q', j.Sailing (m + 1) (m + j.w) q' (fs ++ j.range (m + j.w + 1) (q' - (m + j.w)))
        (rrqOnAck j.cfg now (UInt16.ofNat m) c).s ∧
      dataFrames (rrqOnAck j.cfg now (UInt16.ofNat m) c).out =
        dataFrames c.out ++ j.range (m + 1) j.w := by
  obtain ⟨-, hwidth, hlt, -⟩ := h.bounds
  obtain ⟨pb, hpb, rfl, hroom⟩ := h.held
  have hcand := h.cand hn (Nat.le_of_lt hm)
  have hnext := h.nextIs
  have hlast := h.lastIs
  rcases rrqOnAck_cases j.cfg now c (UInt16.ofNat m) with
    ⟨hstale, -⟩ | ⟨-, hend, -⟩ | ⟨-, -, hfast, -⟩ | ⟨-, -, -, heq⟩
  · have hstale := UInt32.lt_iff_toNat_lt.1 hstale
    omega
  · exact nomatch h.more.symm.trans hend.1
  · have hfull := congrArg UInt32.toNat hfast.2.2
    omega
  rw [heq]
  obtain ⟨d, hslow, hd⟩ := h.toRegular.resumes (c := ⟨afterAck c.s (ackCand c.s.windowLast
    (UInt16.ofNat m)), c.batch, c.stats, c.out⟩) rfl now (by omega) (by omega) rfl hb
  have hdnext : d.s.nextBlock.toNat = m + 1 := by rw [hd.next, hcand]
  have hdend : j.windowEnd d.s.nextBlock.toNat = m + j.w := by
    unfold Job.windowEnd
    omega
  obtain ⟨s₁, hout⟩ := hd.ready.window now (by omega) hd.clean
  have hlast₁ : s₁.windowLast.toNat = m + j.w := hout.last.trans hdend
  have hnext₁ : s₁.nextBlock.toNat = m + 1 := by rw [hout.next, hdnext]
  obtain ⟨q', hq', -⟩ := hout.windowed.builds hout.invalid (by rw [hlast₁]; exact hmore)
    (hout.queue.trans (hd.queue.trans hpb)) hroom
  rw [hlast₁, hnext₁, ← hout.built, ← hslow] at hq'
  refine ⟨q', hq', ?_⟩
  refine (congrArg (fun c => dataFrames c.out) hslow).trans ?_
  rw [hout.frames, hd.frames]
  congr 2
  omega

end Session

/-! ## The exchange at such a place -/

/-- The client has `got` blocks. -/
structure Job.At (j : Job) (n top q got : Nat) (fs : List QueuedFrame) (x : Exchange) : Prop where
  tracks : j.Tracks x
  sailing : j.Sailing n top q fs x.c.s
  got : x.client.blocks.length = got
  delivered : Delivered j.content x

/-- The blocks from `a` to `b` have been sent. -/
def Job.OnWire (j : Job) (a b : Nat) (x : Exchange) : Prop :=
  ∀ k, a ≤ k → k ≤ b → j.frame k ∈ x.wire

section Exchange

variable {j : Job} {x : Exchange} {n top q got : Nat} {fs : List QueuedFrame}

theorem Job.Tracks.moves (h : j.Tracks x) (hr : j.Regular x.c.s) : j.Moves x := by
  cases h.phase with
  | waits hw => exact nomatch hw.state.symm.trans hr.state
  | moves hm => exact hm
  | stranded hs =>
    have hT := j.total_lt
    have hpos := hr.pos
    have hle := hr.le
    rcases hs.far with h0 | hfar
    · rw [h0] at hpos
      exact absurd hpos (by decide)
    · omega
  | ended he =>
    rcases he with he | he
    · exact nomatch he.symm.trans hr.state
    · exact nomatch he.symm.trans hr.state

/-- No packet for a block of the window, or the one before it, is late. -/
theorem Job.At.recent (h : j.At n top q got fs x) {m : Nat} (hm : n ≤ m + 1) :
    Recent j.total m x := by
  intro g hg _
  have hblock := (Job.toNat_of_isBlock ((h.tracks.moves h.sailing.toRegular).wire g hg)).2.1
  obtain ⟨-, hwidth, -⟩ := h.sailing.bounds
  have hw := j.winMax
  rw [h.sailing.lastIs] at hblock
  omega

/-- The client has every block before the window. -/
theorem Job.At.lo (h : j.At n top q got fs x) : n ≤ got + 1 := by
  have hlo : x.c.s.nextBlock.toNat - 1 ≤ x.client.blocks.length :=
    (h.tracks.moves h.sailing.toRegular).follows.inv.lo_le
  rw [h.sailing.nextIs, h.got] at hlo
  omega

/-- **The next block arrives.** -/
theorem Job.At.deliver (h : j.At n top q got fs x) (hmore : got < j.total)
    (hsent : j.frame (got + 1) ∈ x.wire) :
    TimelyExchange j.total x (.data (j.frame (got + 1))) ∧
      j.At n top q (got + 1) fs (exchangeStep j.cfg x (.data (j.frame (got + 1)))) ∧
      (exchangeStep j.cfg x (.data (j.frame (got + 1)))).wire = x.wire := by
  have hmv := h.tracks.moves h.sailing.toRegular
  have htimely : TimelyExchange j.total x (.data (j.frame (got + 1))) := by
    intro _ _
    rw [j.toNat_block hmore]
    exact h.recent (Nat.le_succ_of_le h.lo)
  obtain ⟨htracks, hiff⟩ := h.tracks.step htimely h.delivered
  have hstep : exchangeStep j.cfg x (.data (j.frame (got + 1))) =
      { x with client := x.arrival (j.frame (got + 1)) } := if_pos hsent
  refine ⟨htimely, ⟨htracks, ?_, ?_, hiff.2 trivial⟩, by rw [hstep]⟩
  · rw [hstep]
    exact h.sailing
  rw [hstep]
  obtain ⟨hnum, -⟩ := j.read_frame (got + 1)
  have hopen : x.client.finished = false := by
    by_contra hfin
    have := hmv.follows.finished.1 (by simpa using hfin)
    rw [h.got] at this
    omega
  show (x.client.receive _ _ _).blocks.length = got + 1
  unfold Client.receive
  rw [if_pos ⟨hopen, by rw [hnum, toNat_ofNat16, h.got]⟩, List.length_append, h.got]
  rfl

/-- **All that was sent arrives**, up to a block. -/
theorem Job.At.deliver_to {a b : Nat} (ha : a ≤ got + 1) (hb : b ≤ j.total) {u : Nat} (hg : got ≤ u)
    (ht : u ≤ b) :
    Leads (exchangeStep j.cfg) (TimelyExchange j.total)
      (fun x => j.At n top q got fs x ∧ j.OnWire a b x)
      (fun x => j.At n top q u fs x ∧ j.OnWire a b x) := by
  obtain ⟨k, rfl⟩ : ∃ k, u = got + k := ⟨u - got, by omega⟩
  refine Leads.iterate (P := fun i x => j.At n top q (got + i) fs x ∧ j.OnWire a b x)
    (fun i hi => Leads.of_step fun x hx => ?_) k (Nat.le_refl k)
  obtain ⟨htimely, hat, hwire⟩ := hx.1.deliver (by omega) (hx.2 _ (by omega) (by omega))
  refine ⟨_, htimely, hat, ?_⟩
  unfold Job.OnWire
  rw [hwire]
  exact hx.2

/-- The exchange once the client has acknowledged what it has, and the ACK has arrived. -/
structure Job.Confirmed (j : Job) (x : Exchange) (c : Ctx) (x' : Exchange) : Prop where
  tracks : j.Tracks x'
  delivered : Delivered j.content x'
  client : x'.client = x.client
  acked : x.client.blocks.length ∈ x'.acks
  session : x'.c.s = c.s
  wire : x'.wire = x.wire ++ dataFrames c.out

theorem Job.Tracks.confirm (h : j.Tracks x) (hd : Delivered j.content x) (now : Clock)
    (hrecent : Recent j.total x.client.blocks.length x)
    (hlive : x.c.s.state = .sendRrq → x.c.s.nextBlock ≠ 0) :
    Along (exchangeStep j.cfg) (TimelyExchange j.total) x
        [.reply, .ack now x.client.blocks.length] ∧
      j.Confirmed x (rrqStep j.cfg x.c (.ack now (UInt16.ofNat x.client.blocks.length)))
        (Runs.run (exchangeStep j.cfg) x [.reply, .ack now x.client.blocks.length]) := by
  obtain ⟨ht₁, hd₁⟩ := h.step (e := .reply) trivial hd
  have hmem : x.client.blocks.length ∈ x.acks ++ [x.client.blocks.length] :=
    List.mem_append_right _ List.mem_cons_self
  obtain ⟨ht₂, hd₂⟩ := ht₁.ack now hmem hrecent (hd₁.2 trivial)
  have hrun : Runs.run (exchangeStep j.cfg) x [.reply, .ack now x.client.blocks.length] =
      (exchangeStep j.cfg x .reply).put
        (rrqStep j.cfg x.c (.ack now (UInt16.ofNat x.client.blocks.length))) := if_pos hmem
  refine ⟨⟨trivial, hrecent, trivial⟩, ?_⟩
  rw [hrun]
  exact ⟨ht₂, hd₂.2 fun _ hst h0 => absurd h0 (hlive hst), rfl, hmem, rfl, rfl⟩

/-- **The client acknowledges what it has.** -/
theorem Job.At.confirm (h : j.At n top q got fs x) (now : Clock) :
    Along (exchangeStep j.cfg) (TimelyExchange j.total) x [.reply, .ack now got] ∧
      j.Confirmed x (rrqOnAck j.cfg now (UInt16.ofNat got) x.c)
        (run (exchangeStep j.cfg) x [.reply, .ack now got]) := by
  have hpos := h.sailing.pos
  have hconf := h.tracks.confirm h.delivered now (by rw [h.got]; exact h.recent h.lo)
    fun _ h0 => by
      rw [h0] at hpos
      exact absurd hpos (by decide)
  have hstep : rrqStep j.cfg x.c (.ack now (UInt16.ofNat got)) =
      rrqOnAck j.cfg now (UInt16.ofNat got) x.c := by
    have hack := onSessionPacket_ack j.cfg now (UInt16.ofNat got) x.c
    rw [h.sailing.state] at hack
    exact hack
  rw [h.got, hstep] at hconf
  exact hconf

/-- The whole window is acknowledged. -/
theorem Job.At.full (hn : n ≤ top) (hq : q < j.total) :
    Leads (exchangeStep j.cfg) (TimelyExchange j.total) (j.At n top q top fs)
      (fun x => j.At (top + 1) q (min (q + j.w) j.total) top
        (j.range (q + 1) (min (q + j.w) j.total - q)) x ∧ ∀ f ∈ fs, f ∈ x.wire) := by
  intro x h
  obtain ⟨halong, hconf⟩ := h.confirm clock0
  obtain ⟨hsail, hout⟩ := h.sailing.full clock0 hn hq
  refine ⟨_, halong, ⟨hconf.tracks, by rw [hconf.session]; exact hsail,
    by rw [hconf.client]; exact h.got, hconf.delivered⟩, fun f hf => ?_⟩
  rw [hconf.wire, hout]
  exact List.mem_append_right _ (List.mem_append_right _ hf)

/-- A part of it is. -/
theorem Job.At.part {m : Nat} (hn : n ≤ m) (hm : m < top) (hmore : m + j.w < j.total) :
    Leads (exchangeStep j.cfg) (TimelyExchange j.total) (j.At n top q m fs)
      (fun x => (∃ q', j.At (m + 1) (m + j.w) q' m
        (fs ++ j.range (m + j.w + 1) (q' - (m + j.w))) x) ∧ j.OnWire (m + 1) (m + j.w) x) := by
  intro x h
  obtain ⟨halong, hconf⟩ := h.confirm clock0
  obtain ⟨q', hsail, hout⟩ := h.sailing.part h.tracks.clean clock0 hn hm hmore
  refine ⟨_, halong, ⟨q', hconf.tracks, by rw [hconf.session]; exact hsail,
    by rw [hconf.client]; exact h.got, hconf.delivered⟩, fun k h1 h2 => ?_⟩
  rw [hconf.wire, hout]
  exact List.mem_append_right _ (List.mem_append_right _
    ((j.mem_range).2 ⟨k, h1, by omega, rfl⟩))

/-! ## The run -/

/-- A download without losses: `p` blocks are acknowledged, a window is out and one is queued. -/
def Job.Cruise (j : Job) (p : Nat) (x : Exchange) : Prop :=
  j.At (p + 1) (p + j.w) (p + j.w + j.w) p (j.range (p + j.w + 1) j.w) x ∧
    j.OnWire (p + 1) (p + j.w) x

/-- From window to window. -/
theorem Job.cruise_step {p : Nat} (hp : p + j.w + j.w + j.w ≤ j.total) :
    Leads (exchangeStep j.cfg) (TimelyExchange j.total) (j.Cruise p) (j.Cruise (p + j.w)) := by
  have hw := j.winMin
  refine (Job.At.deliver_to (Nat.le_refl _) (by omega) (Nat.le_add_right p j.w)
    (Nat.le_refl _)).trans ?_
  intro x hx
  obtain ⟨es, hes, hat, hsent⟩ := Job.At.full (j := j) (by omega) (by omega) x hx.1
  have hend : min (p + j.w + j.w + j.w) j.total = p + j.w + j.w + j.w := Nat.min_eq_left hp
  have hcount : p + j.w + j.w + j.w - (p + j.w + j.w) = j.w := by omega
  rw [hend, hcount] at hat
  refine ⟨es, hes, hat, fun k h1 h2 => hsent _ ((j.mem_range).2 ⟨k, h1, by omega, rfl⟩)⟩

theorem Job.cruise_to {p : Nat} (k : Nat) (hp : p + j.w * (k + 2) ≤ j.total) :
    Leads (exchangeStep j.cfg) (TimelyExchange j.total) (j.Cruise p) (j.Cruise (p + j.w * k)) := by
  refine Leads.iterate (P := fun i => j.Cruise (p + j.w * i)) (fun i hi => ?_) k (Nat.le_refl k)
  have hstep : j.w * (i + 3) ≤ j.w * (k + 2) := Nat.mul_le_mul_left _ (by omega)
  rw [Nat.mul_add] at hstep
  rw [show p + j.w * (i + 1) = p + j.w * i + j.w by rw [Nat.mul_add, Nat.mul_one, Nat.add_assoc]]
  exact Job.cruise_step (by omega)

/-- The first window is acknowledged, after the OACK. -/
theorem Job.cruise_begin (hT : j.w + j.w < j.total) :
    Leads (exchangeStep j.cfg) (TimelyExchange j.total)
      (fun x => j.Tracks x ∧ j.Waits x ∧ Delivered j.content x ∧
        x.c.s.prebuilt = some (.new BATCH_CAP)) (j.Cruise 0) := by
  rintro x ⟨htracks, hwaits, hd, hqueue⟩
  have hgot : x.client.blocks.length = 0 := by
    rw [hwaits.client]
    rfl
  have hrecent : Recent j.total x.client.blocks.length x := by
    intro g hg
    rw [hwaits.wire] at hg
    cases hg
  obtain ⟨halong, hconf⟩ := htracks.confirm hd clock0 hrecent fun hst =>
    nomatch hwaits.state.symm.trans hst
  rw [hgot] at halong hconf
  have hstep : rrqStep j.cfg x.c (.ack clock0 (UInt16.ofNat 0)) =
      rrqSendWindow j.cfg clock0 (dataPhase x.c) := by
    have hack := onSessionPacket_ack j.cfg clock0 (UInt16.ofNat 0) x.c
    rw [hwaits.state] at hack
    exact hack.trans (if_pos ⟨rfl, hwaits.kind⟩)
  rw [hstep] at hconf
  have hready : j.Ready 0 (dataPhase x.c).s := by
    refine ⟨hwaits.toServes.frame rfl rfl rfl rfl rfl rfl, rfl, Nat.le_refl 1, j.total_pos,
      (Nat.zero_mul _).symm, fun pb hpb q hq => ?_⟩
    rw [hwaits.empty pb hpb] at hq
    cases hq
  obtain ⟨s₁, hout⟩ := hready.window clock0 (Nat.zero_le _) htracks.clean
  have hend : j.windowEnd 1 = j.w := by
    unfold Job.windowEnd
    omega
  have hlast₁ : s₁.windowLast.toNat = j.w := hout.last.trans hend
  have hnext₁ : s₁.nextBlock.toNat = 1 := congrArg UInt32.toNat hout.next
  obtain ⟨q, hq, hall⟩ := hout.windowed.builds hout.invalid (by omega)
    (hout.queue.trans hqueue) (Nat.zero_le _)
  obtain rfl : q = j.w + j.w := by
    rw [hall rfl]
    omega
  have hframes : dataFrames (rrqSendWindow j.cfg clock0 (dataPhase x.c)).out = j.range 1 j.w := by
    rw [hout.frames]
    show dataFrames x.c.out ++ j.range 1 (j.windowEnd 1 + 1 - 1) = _
    rw [htracks.fresh, hend]
    rfl
  rw [hlast₁, hnext₁, ← hout.built, Nat.add_sub_cancel] at hq
  refine ⟨_, halong, ⟨hconf.tracks, ?_, by rw [hconf.client]; exact hgot, hconf.delivered⟩,
    fun k h1 h2 => ?_⟩
  · rw [hconf.session, Nat.zero_add j.w]
    exact hq
  · rw [hconf.wire, hframes]
    exact List.mem_append_right _ ((j.mem_range).2 ⟨k, h1, by omega, rfl⟩)

/-- The session has come round to block 0, and the client has not got the file. -/
structure Job.Rounded (j : Job) (x : Exchange) : Prop where
  tracks : j.Tracks x
  delivered : Delivered j.content x
  state : x.c.s.state = .sendRrq
  zero : x.c.s.nextBlock = 0
  acked : 65535 ∈ x.acks
  lacks : x.client.held ≠ j.content

/-- A client that has not got the last full block has not got the file. -/
theorem Job.Moves.lacks (h : j.Moves x) (hlt : x.client.blocks.length + 1 < j.total) :
    x.client.held ≠ j.content := by
  intro hheld
  rw [h.follows.held_eq] at hheld
  have htake := (flatten_blocks j.content j.b x.client.blocks.length).symm.trans hheld
  have hlen := congrArg List.length htake
  rw [List.length_take] at hlen
  have hfull := j.offset_le (n := x.client.blocks.length + 1) hlt
  have hmin := j.blkMin
  rw [Nat.add_mul] at hfull
  omega

/-- **Block 65535 is acknowledged** while the window ends before it. -/
theorem Job.At.round (htop : top < 65535) (hT : 65536 < j.total) :
    Leads (exchangeStep j.cfg) (TimelyExchange j.total) (j.At n top q 65535 fs) j.Rounded := by
  intro x h
  obtain ⟨halong, hconf⟩ := h.confirm clock0
  have hwraps : Wraps x.c.s.windowLast (UInt16.ofNat 65535) := by
    unfold Wraps
    rw [h.sailing.lastIs]
    exact ⟨htop, by omega⟩
  obtain ⟨hstr, hnext, -⟩ := h.sailing.toRegular.strand h.tracks.clean clock0 h.sailing.more hwraps
  refine ⟨_, halong, hconf.tracks, hconf.delivered, by rw [hconf.session]; exact hstr.state, ?_,
    h.got ▸ hconf.acked, ?_⟩
  · rw [hconf.session, hnext]
    apply UInt32.toNat_inj.1
    rw [UInt32.toNat_add, ackCand_wraps hwraps]
    rfl
  · rw [hconf.client]
    exact (h.tracks.moves h.sailing.toRegular).lacks (by rw [h.got]; omega)

/-- **One more ACK** reports the download complete. -/
theorem Job.rounded_reported (hT : j.total < 131070) :
    Leads (exchangeStep j.cfg) (TimelyExchange j.total) j.Rounded
      (fun x => ¬ Delivered j.content x) := by
  refine Leads.of_step fun x h => ⟨.ack clock0 65535, ?_, ?_⟩
  · intro g _ hg
    omega
  have hrecent : Recent j.total 65535 x := fun g _ hg => by omega
  obtain ⟨-, hiff⟩ := h.tracks.ack clock0 h.acked hrecent h.delivered
  have hstep : exchangeStep j.cfg x (.ack clock0 65535) =
      x.put (rrqStep j.cfg x.c (.ack clock0 (UInt16.ofNat 65535))) := if_pos h.acked
  rw [hstep, hiff]
  exact fun hc => h.lacks (hc h.acked h.state h.zero)

/-- How far the queue goes onto which a second window was built. -/
theorem Job.Sailing.short {s : Session} {m : Nat}
    (h : j.Sailing n top q (j.range m j.w ++ j.range (top + 1) (q - top)) s)
    (h1 : 1 ≤ m) (hm : m + j.w ≤ j.total) (hq : q < j.total) :
    (j.w + (q - top)) * (62 + j.b) ≤ BATCH_CAP := by
  obtain ⟨pb, hpb, hframes, hroom⟩ := h.held
  obtain ⟨-, -, -, hlo, -⟩ := h.bounds
  have hcap := h.queue pb hpb
  have hold := j.cost_range h1 hm
  have hnew := j.cost_range (n := top + 1) (k := q - top) (by omega) (by omega)
  unfold PcapBatch.len at hroom
  rw [hframes, List.map_append, List.sum_append] at hroom
  rw [Nat.add_mul]
  omega

/-- **Round the block numbers.**  The client acknowledges 1022 windows of 64 blocks, then the first
    block of the next one, then everything it has got, twice. -/
theorem Job.goes_round (hb : j.b = 1468) (hw : j.w = 64) (hT : 65700 ≤ j.total)
    (hT' : j.total < 131070) :
    Leads (exchangeStep j.cfg) (TimelyExchange j.total) (j.Cruise 0)
      (fun x => ¬ Delivered j.content x) := by
  have hcruise := Job.cruise_to (j := j) (p := 0) 1022 (by omega)
  have hlost : Leads (exchangeStep j.cfg) (TimelyExchange j.total)
      (fun x => j.At 65409 65472 65536 65408 (j.range 65473 64) x ∧ j.OnWire 65409 65472 x)
      (fun x => (∃ q', j.At 65410 65473 q' 65409 (j.range 65473 j.w ++ j.range 65474 (q' - 65473)) x) ∧
        j.OnWire 65410 65473 x) := by
    refine (Job.At.deliver_to (u := 65409) (by omega) (by omega) (by omega) (by omega)).trans ?_
    intro x hx
    obtain ⟨es, hes, hat, hon⟩ := Job.At.part (j := j) (m := 65409) (by omega) (by omega)
      (by omega) x hx.1
    rw [hw] at hat hon ⊢
    exact ⟨es, hes, hat, hon⟩
  have hcatch : ∀ q', Leads (exchangeStep j.cfg) (TimelyExchange j.total)
      (fun x => j.At 65410 65473 q' 65409 (j.range 65473 j.w ++ j.range 65474 (q' - 65473)) x ∧
        j.OnWire 65410 65473 x) j.Rounded := by
    intro q' x hx
    obtain ⟨-, -, -, hlo, hhi, -⟩ := hx.1.sailing.bounds
    have hshort := hx.1.sailing.short (by omega) (by omega) (by omega)
    rw [hb] at hshort
    have hbehind : q' < 65535 := by
      have hcap : BATCH_CAP = 131072 := rfl
      omega
    have hround : Leads (exchangeStep j.cfg) (TimelyExchange j.total)
        (j.At 65474 q' (min (q' + j.w) j.total) 65535
          (j.range (q' + 1) (min (q' + j.w) j.total - q'))) j.Rounded :=
      Job.At.round hbehind (by omega)
    refine ((Job.At.deliver_to (u := 65473) (by omega) (by omega) (by omega) (by omega)).trans
      ?_) x hx
    intro y hy
    refine (((Job.At.full (by omega) (by omega)).trans ?_).trans hround) y hy.1
    intro z hz
    have hsent : j.OnWire 65473 65536 z := fun k h1 h2 =>
      hz.2 _ (List.mem_append_left _ ((j.mem_range).2 ⟨k, h1, by omega, rfl⟩))
    obtain ⟨es, hes, hat, -⟩ := Job.At.deliver_to (u := 65535) (by omega) (by omega) (by omega)
      (by omega) z ⟨hz.1, hsent⟩
    exact ⟨es, hes, hat⟩
  refine Leads.trans ?_ (Job.rounded_reported hT')
  refine (hcruise.trans (Leads.trans ?_ hlost)).trans fun x hx => ?_
  · intro x hx
    unfold Job.Cruise at hx
    rw [hw] at hx
    exact ⟨[], trivial, hx⟩
  · obtain ⟨⟨q', hat⟩, hon⟩ := hx
    exact hcatch q' x ⟨hat, hon⟩

end Exchange

/-! ## A file of 65700 blocks -/

section File

variable (src : FileSource)

/-- A server with one file of 96447600 bytes. -/
def roundEnv : Env := ⟨fun _ => some (src, 96447600), fun _ => none, true⟩

def roundReq : TftpReq :=
  ⟨TFTP_RRQ, ascii "f", ascii "octet", some 1468, some 64, none, none⟩

def roundSlot : Ctx := freshCtx clock0 roundReq (sessmgrNew configDefaults) host {}

/-- It grants what is asked for and waits for ACK 0. -/
theorem round_granted :
    let s := (startRrq configDefaults clock0 (roundEnv src) roundReq roundSlot).s
    s.blksize = 1468 ∧ s.windowsize = 64 ∧ s.state = .oackWaitAck0 ∧
      s.prebuilt = some (.new BATCH_CAP) :=
  ⟨rfl, rfl, rfl, rfl⟩

end File

def roundFile : FileSource := ⟨false, List.replicate 96447600 7, 0, false, fun _ => .ok, 0⟩

end Nishro.CCore

import NishroTftp.CCore.DownloadJob
import NishroTftp.Lib.ReadClient
/-
  A download against a client of the protocol, over a network that loses, duplicates and reorders.

  Every DATA frame that was ever transmitted stays on the wire and may be delivered at any time, any
  number of times, or never; so may every ACK the client has sent.  One thing is asked of the network
  (`Timely`): a packet for block `n` is not delivered once block `n + 65535` has been sent.

  As long as the session is regular, the exchange is a run of `SlidingWindow` with a window of `2 w`
  blocks: the window that is out and the one that was built ahead.  It stops being one when the client
  acknowledges a block that the session has flushed from its queue without counting it in
  `window_last`: that ACK wraps, and strands the session.
-/
namespace Nishro.CCore

open Nishro.Blocks
open Nishro.ReadClient
open Nishro.Runs
open Nishro.SlidingWindow
open Nishro.Wire

/-! ## The exchange -/

structure Exchange where
  /-- the session, with what one call has written taken out -/
  c : Ctx
  /-- the DATA frames transmitted so far -/
  wire : List QueuedFrame
  client : Client
  /-- the ACKs sent so far: how many blocks the client had -/
  acks : List Nat
  /-- what the client held each time the session was reported to have ended well -/
  ends : List Bytes

/-- A call on the session is done: what it transmitted is on the wire. -/
def Exchange.put (x : Exchange) (c : Ctx) : Exchange :=
  { x with
    c := { c with out := [] }
    wire := x.wire ++ dataFrames c.out
    ends := x.ends ++ (okEnds c.out).map fun _ => x.client.held }

/-- The session as `start_rrq` leaves it. -/
def Exchange.start (c : Ctx) : Exchange := Exchange.put ⟨c, [], .new, [], []⟩ c

inductive ExchangeEvent
  /-- a frame reaches the client -/
  | data (f : QueuedFrame)
  /-- the client acknowledges the last block it holds in order -/
  | reply
  /-- the ACK of `m` blocks reaches the server -/
  | ack (now : Clock) (m : Nat)
  | tick (now : Clock)

/-- The client takes in a frame. -/
def Exchange.arrival (x : Exchange) (f : QueuedFrame) : Client :=
  x.client.receive x.c.s.blksize.toNat (at16 f.frame.payload 2) (f.frame.payload.drop 4)

/-- Only what was sent can arrive. -/
def exchangeStep (cfg : Config) (x : Exchange) : ExchangeEvent → Exchange
  | .data f => if f ∈ x.wire then { x with client := x.arrival f } else x
  | .reply => { x with acks := x.acks ++ [x.client.blocks.length] }
  | .ack now m =>
    if m ∈ x.acks then x.put (rrqStep cfg x.c (.ack now (UInt16.ofNat m))) else x
  | .tick now => x.put (rrqStep cfg x.c (.tick now))

/-- No block of the file from `n + 65535` on has been sent. -/
def Recent (total n : Nat) (x : Exchange) : Prop :=
  ∀ g ∈ x.wire, g.block.toNat ≤ total → g.block.toNat < n + 65535

/-- What is asked of the network, for a file of `total` blocks. -/
def TimelyExchange (total : Nat) (x : Exchange) : ExchangeEvent → Prop
  | .data f => 1 ≤ f.block.toNat → f.block.toNat ≤ total → Recent total f.block.toNat x
  | .ack _ m => Recent total m x
  | .reply | .tick _ => True

/-- Whenever success was reported, the client held the file. -/
def Delivered (content : Bytes) (x : Exchange) : Prop := ∀ held ∈ x.ends, held = content

/-- An ACK that reaches a session at block 0 finds the client with the whole file. -/
def RoundedComplete (content : Bytes) (x : Exchange) : ExchangeEvent → Prop
  | .ack _ m => m ∈ x.acks → x.c.s.state = .sendRrq → x.c.s.nextBlock = 0 →
      x.client.held = content
  | .data _ | .reply | .tick _ => True

/-! ## The highest block on the wire -/

def highest (fs : List QueuedFrame) : Nat := (fs.map fun q => q.block.toNat).foldr max 0

theorem highest_le_iff {fs : List QueuedFrame} {k : Nat} :
    highest fs ≤ k ↔ ∀ q ∈ fs, q.block.toNat ≤ k := by
  unfold highest
  induction fs with
  | nil => simp
  | cons q fs ih => rw [List.map_cons, List.foldr_cons, Nat.max_le, ih, List.forall_mem_cons]

theorem le_highest {fs : List QueuedFrame} {q : QueuedFrame} (hq : q ∈ fs) :
    q.block.toNat ≤ highest fs :=
  highest_le_iff.1 (Nat.le_refl _) q hq

theorem highest_lt_iff {fs : List QueuedFrame} {k : Nat} (hk : 0 < k) :
    highest fs < k ↔ ∀ q ∈ fs, q.block.toNat < k := by
  obtain ⟨i, rfl⟩ : ∃ i, k = i + 1 := ⟨k - 1, by omega⟩
  rw [Nat.lt_succ_iff, highest_le_iff]
  simp only [Nat.lt_succ_iff]

/-! ## What holds along an exchange -/

namespace Job

variable (j : Job)

def blk (n : Nat) : Bytes := block j.content j.b n

/-- The session waits for ACK 0. -/
structure Waits (x : Exchange) : Prop extends j.Serves x.c.s where
  state : x.c.s.state = .oackWaitAck0
  kind : x.c.s.kind = TFTP_RRQ
  empty : ∀ pb, x.c.s.prebuilt = some pb → pb.frames = []
  wire : x.wire = []
  client : x.client = .new

/-- The session is regular, and the client has blocks of the file. -/
structure Moves (x : Exchange) : Prop where
  regular : j.Regular x.c.s
  wire : ∀ q ∈ x.wire, j.IsBlock (x.c.s.windowLast.toNat + j.w) q
  sent : ∃ q ∈ x.wire, q.block = x.c.s.windowLast
  follows : x.client.Follows j.blk j.total (2 * j.w) (x.c.s.nextBlock.toNat - 1) (highest x.wire)

inductive Phase (x : Exchange) : Prop
  | waits (h : j.Waits x)
  | moves (h : j.Moves x)
  | stranded (h : j.Stranded x.c.s)
  | ended (h : x.c.s.state = .done ∨ x.c.s.state = .free)

structure Tracks (x : Exchange) : Prop where
  phase : j.Phase x
  clean : CleanBatch x.c.batch
  fresh : x.c.out = []
  acks : ∀ m ∈ x.acks, m ≤ x.client.blocks.length

end Job

section Steps

variable {j : Job} {x : Exchange}

theorem Job.toNat_of_isBlock {top : Nat} {q : QueuedFrame} (h : j.IsBlock top q) :
    1 ≤ q.block.toNat ∧ q.block.toNat ≤ top ∧ q.block.toNat ≤ j.total ∧
      q = j.frame q.block.toNat := by
  obtain ⟨k, h1, h2, h3, rfl⟩ := h
  rw [j.toNat_block h3]
  exact ⟨h1, h2, h3, rfl⟩

/-- What the client reads in a frame of the file. -/
theorem Job.read_frame (j : Job) (k : Nat) :
    at16 (j.frame k).frame.payload 2 = UInt16.ofNat k ∧
      (j.frame k).frame.payload.drop 4 = j.blk k := by
  rw [j.payload]
  refine ⟨?_, rfl⟩
  have h : (UInt32.ofNat k).toUInt16 = UInt16.ofNat k := by
    apply UInt16.toNat_inj.1
    rw [UInt32.toNat_toUInt16, UInt32.toNat_ofNat', UInt16.toNat_ofNat']
    omega
  rw [← h]
  exact rd16_be16 _

theorem Job.short_iff (j : Job) {n : Nat} (h1 : 1 ≤ n) (hn : n ≤ j.total) :
    (j.blk n).length < j.b ↔ n = j.total :=
  length_block_lt_iff j.content (by have := j.blkMin; omega) h1 hn

/-- A frame arrives. -/
theorem Job.Moves.data (h : j.Moves x) {f : QueuedFrame} (hf : f ∈ x.wire)
    (ht : TimelyExchange j.total x (.data f)) : j.Moves { x with client := x.arrival f } := by
  obtain ⟨h1, -, h3, heq⟩ := Job.toNat_of_isBlock (h.wire f hf)
  have hw := j.winMax
  have hrecent : highest x.wire < f.block.toNat + 65535 := by
    rw [highest_lt_iff (by omega)]
    intro g hg
    exact ht h1 h3 g hg (Job.toNat_of_isBlock (h.wire g hg)).2.2.1
  refine ⟨h.regular, h.wire, h.sent, ?_⟩
  obtain ⟨hnum, hpay⟩ := j.read_frame f.block.toNat
  show (x.arrival f).Follows _ _ _ _ _
  unfold Exchange.arrival
  rw [h.regular.blksize]
  rw [← heq] at hnum hpay
  rw [hnum, hpay]
  exact h.follows.receive (by omega) (fun n h1 hn => j.short_iff h1 hn) h1 (le_highest hf) hrecent

/-- The session sends on from a block the client has come to. -/
theorem Job.Moves.advance (h : j.Moves x) {c : Ctx} {n : Nat} (hadv : j.Advances x.c c n)
    (hout : x.c.out = []) (hn : n - 1 ≤ x.client.blocks.length) : j.Moves (x.put c) := by
  obtain ⟨fs, hfs, hblocks, hlast⟩ := hadv.frames
  rw [hout] at hfs
  have hwire : (x.put c).wire = x.wire ++ fs := congrArg (x.wire ++ ·) hfs
  have hall : ∀ q ∈ (x.put c).wire, j.IsBlock (c.s.windowLast.toNat + j.w) q := by
    intro q hq
    rw [hwire, List.mem_append] at hq
    rcases hq with hq | hq
    · exact (h.wire q hq).mono (Nat.add_le_add_right hadv.grows _)
    · exact hblocks q hq
  have hinv := h.follows.inv
  have hmore : highest x.wire ≤ highest (x.put c).wire := by
    rw [highest_le_iff]
    intro q hq
    exact le_highest (by exact List.mem_append_left _ hq)
  have hwidth := hadv.regular.width
  have hnext := hadv.next
  refine ⟨hadv.regular, hall, ?_, ⟨?_, ?_, ?_, ?_, hinv.got_eq⟩, h.follows.finished⟩
  · rcases hlast with hsame | ⟨q, hq, heq⟩
    · obtain ⟨q, hq, heq⟩ := h.sent
      exact ⟨q, by exact List.mem_append_left _ hq, heq.trans hsame.symm⟩
    · exact ⟨q, by rw [hwire]; exact List.mem_append_right _ hq, heq⟩
  · show c.s.nextBlock.toNat - 1 ≤ _
    rw [hnext]
    exact hn
  · exact Nat.le_trans hinv.got_le hmore
  · show highest (x.put c).wire ≤ c.s.nextBlock.toNat - 1 + 2 * j.w
    rw [highest_le_iff]
    intro q hq
    have hq := (Job.toNat_of_isBlock (hall q hq)).2.1
    omega
  · show highest (x.put c).wire ≤ j.total
    rw [highest_le_iff]
    intro q hq
    exact (Job.toNat_of_isBlock (hall q hq)).2.2.1

/-- The window the session counts on, and what is on the wire. -/
theorem Job.Moves.bounds (h : j.Moves x) :
    x.c.s.windowLast.toNat ≤ highest x.wire ∧
      highest x.wire ≤ x.c.s.windowLast.toNat + j.w ∧ highest x.wire ≤ j.total := by
  obtain ⟨q, hq, heq⟩ := h.sent
  refine ⟨by rw [← heq]; exact le_highest hq, ?_, h.follows.inv.hi_le_total⟩
  rw [highest_le_iff]
  exact fun q hq => (Job.toNat_of_isBlock (h.wire q hq)).2.1

theorem Job.Moves.recent (h : j.Moves x) {m : Nat} (ht : Recent j.total m x) :
    highest x.wire < m + 65535 := by
  rw [highest_lt_iff (by omega)]
  exact fun g hg => ht g hg (Job.toNat_of_isBlock (h.wire g hg)).2.2.1

/-- **An ACK arrives.**  It is stale, or completes the download, or moves it on to the next block; or it
    is for a block that the session does not count in its window, and strands it. -/
theorem Job.Moves.onAck (h : j.Moves x) (hb : CleanBatch x.c.batch) (now : Clock) {m : Nat}
    (hm : m ≤ x.client.blocks.length) (ht : Recent j.total m x) :
    rrqOnAck j.cfg now (UInt16.ofNat m) x.c = x.c ∨
    (m = j.total ∧ Completed x.c (rrqOnAck j.cfg now (UInt16.ofNat m) x.c)) ∨
    j.Advances x.c (rrqOnAck j.cfg now (UInt16.ofNat m) x.c) (m + 1) ∨
    (j.Stranded (rrqOnAck j.cfg now (UInt16.ofNat m) x.c).s ∧
      okEnds (rrqOnAck j.cfg now (UInt16.ofNat m) x.c).out = okEnds x.c.out) := by
  have hrecent := h.recent ht
  obtain ⟨hlo, hhi, htotal⟩ := h.bounds
  have hgot : x.client.blocks.length ≤ highest x.wire := h.follows.inv.got_le
  have hw := j.winMax
  have hwidth := h.regular.width
  have hT := j.total_lt
  have hack : (UInt16.ofNat m).toNat = m % 65536 := by simp
  by_cases hwrap : Wraps x.c.s.windowLast (UInt16.ofNat m)
  · -- past the window, in the first 65536 blocks
    have hw1 := hwrap.1
    have hmore : x.c.s.eofReached = false := by
      by_contra heof
      have hlast := h.regular.eof.1 (by simpa using heof)
      omega
    obtain ⟨hstr, -, hquiet⟩ := h.regular.strand hb now hmore hwrap
    exact .inr (.inr (.inr ⟨hstr, hquiet⟩))
  · obtain ⟨hle, hfar, hmod⟩ := ackCand_spec (by omega) hwrap
    by_cases hpast : x.c.s.windowLast.toNat < m
    · -- past the window, in a later round: it is taken for a block of the round before
      refine .inl (if_pos ?_)
      rw [UInt32.lt_iff_toNat_lt]
      omega
    · have hcand : (ackCand x.c.s.windowLast (UInt16.ofNat m)).toNat = m :=
        eq_of_mod_eq hmod (by omega) (by omega)
      by_cases hstale : m < x.c.s.nextBlock.toNat
      · refine .inl (if_pos ?_)
        rw [UInt32.lt_iff_toNat_lt, hcand]
        exact hstale
      · rcases h.regular.onAck hb now hcand (by omega) (by omega) with hend | hadv
        · exact .inr (.inl hend)
        · exact .inr (.inr (.inl hadv))

/-- A client that has as many blocks as the file has the file. -/
theorem Job.Moves.held_all (h : j.Moves x) (hall : j.total ≤ x.client.blocks.length) :
    x.client.held = j.content := by
  have hlen : x.client.blocks.length = j.total :=
    Nat.le_antisymm (Nat.le_trans h.follows.inv.got_le h.follows.inv.hi_le_total) hall
  rw [h.follows.held_eq, hlen]
  refine (flatten_blocks j.content j.b j.total).trans ?_
  exact take_blockCount j.content (by have := j.blkMin; omega)

/-- The first window goes out. -/
theorem Job.begins (hserves : j.Serves x.c.s)
    (hempty : ∀ pb, x.c.s.prebuilt = some pb → pb.frames = []) (hnone : x.wire = [])
    (hclient : x.client = .new) (hb : CleanBatch x.c.batch) (hout : dataFrames x.c.out = [])
    (now : Clock) : j.Moves (x.put (rrqSendWindow j.cfg now (dataPhase x.c))) := by
  have hready : j.Ready 0 (dataPhase x.c).s := by
    refine ⟨hserves.frame rfl rfl rfl rfl rfl rfl, rfl, Nat.le_refl 1, j.total_pos,
      (Nat.zero_mul _).symm, fun pb hpb q hq => ?_⟩
    rw [hempty pb hpb] at hq
    cases hq
  have hsend := hready.send now (Nat.zero_le _) hb
  generalize rrqSendWindow j.cfg now (dataPhase x.c) = c at hsend ⊢
  have hlast : c.s.windowLast.toNat = j.windowEnd 1 := hsend.last
  have hnext : c.s.nextBlock.toNat = 1 := congrArg UInt32.toNat hsend.next
  have hframes : dataFrames c.out = dataFrames x.c.out ++ j.range 1 (j.windowEnd 1 + 1 - 1) :=
    hsend.frames
  -- nothing was on the wire before, so it carries this window and nothing else
  have hwire : (x.put c).wire = j.range 1 (j.windowEnd 1) := by
    show x.wire ++ dataFrames c.out = _
    rw [hnone, hframes, hout]
    rfl
  have hend := j.windowEnd_le 1
  have hw : j.windowEnd 1 ≤ j.w := Nat.le_trans (Nat.min_le_left _ _) (by omega)
  have hpos : 1 ≤ j.windowEnd 1 := by
    have h1 := j.winMin
    have h2 := j.total_pos
    unfold Job.windowEnd
    omega
  have hall : ∀ q ∈ (x.put c).wire, j.IsBlock (j.windowEnd 1) q := by
    intro q hq
    rw [hwire] at hq
    obtain ⟨k, h1, h2, rfl⟩ := (j.mem_range).1 hq
    exact ⟨k, h1, by omega, by omega, rfl⟩
  have hhigh : highest (x.put c).wire ≤ j.windowEnd 1 := by
    rw [highest_le_iff]
    exact fun q hq => (Job.toNat_of_isBlock (hall q hq)).2.1
  refine ⟨hsend.regular, fun q hq => (hall q hq).mono ?_, ?_, ?_⟩
  · show j.windowEnd 1 ≤ c.s.windowLast.toNat + j.w
    omega
  · refine ⟨j.frame (j.windowEnd 1), ?_, ?_⟩
    · rw [hwire]
      exact (j.mem_range).2 ⟨_, hpos, by omega, rfl⟩
    · apply UInt32.toNat_inj.1
      rw [j.toNat_block hend]
      exact hlast.symm
  · show x.client.Follows _ _ _ (c.s.nextBlock.toNat - 1) (highest (x.put c).wire)
    rw [hclient, hnext]
    have hnew : Client.new.Follows j.blk j.total (2 * j.w) 0 0 := follows_new j.total_pos
    exact ⟨⟨Nat.le_refl 0, Nat.zero_le _, by show highest _ ≤ 0 + 2 * j.w; omega,
      Nat.le_trans hhigh hend, rfl⟩, hnew.finished⟩

/-! ## One step -/

theorem put_self (hout : x.c.out = []) : x.put x.c = x := by
  obtain ⟨⟨s, batch, stats, out⟩, wire, client, acks, ends⟩ := x
  obtain rfl : out = [] := hout
  show Exchange.mk _ (wire ++ []) client acks (ends ++ []) = _
  rw [List.append_nil, List.append_nil]

theorem delivered_quiet {content : Bytes} {c : Ctx} (h : okEnds c.out = []) :
    Delivered content (x.put c) ↔ Delivered content x := by
  unfold Delivered Exchange.put
  rw [h]
  simp

theorem delivered_completed {content : Bytes} {c : Ctx} (hout : x.c.out = [])
    (h : Completed x.c c) :
    Delivered content (x.put c) ↔ Delivered content x ∧ x.client.held = content := by
  have hends := h.reported
  rw [hout] at hends
  unfold Delivered Exchange.put
  rw [hends]
  simp [okEnds, or_imp, forall_and]

/-- Tracking goes on after a call that leaves the exchange in one of its phases. -/
theorem Job.Tracks.call (h : j.Tracks x) {c : Ctx} (hphase : j.Phase (x.put c))
    (hclean : CleanBatch c.batch) : j.Tracks (x.put c) :=
  ⟨hphase, hclean, rfl, h.acks⟩

/-- **ACKs.**  What is tracked goes on being tracked, and success is reported with the file delivered
    unless the session has come round to block 0. -/
theorem Job.Tracks.ack (h : j.Tracks x) (now : Clock) {m : Nat} (hm : m ∈ x.acks)
    (ht : Recent j.total m x) (hd : Delivered j.content x) :
    j.Tracks (x.put (rrqStep j.cfg x.c (.ack now (UInt16.ofNat m)))) ∧
      (Delivered j.content (x.put (rrqStep j.cfg x.c (.ack now (UInt16.ofNat m)))) ↔
        RoundedComplete j.content x (.ack now m)) := by
  have hclean : CleanBatch (rrqStep j.cfg x.c (.ack now (UInt16.ofNat m))).batch :=
    (onSessionPacket_batch j.cfg now _ x.c).clean h.clean
  have hnone : okEnds x.c.out = [] := by
    rw [h.fresh]
    rfl
  have hstep := onSessionPacket_ack j.cfg now (UInt16.ofNat m) x.c
  rw [rrqStep] at hclean ⊢
  cases h.phase with
  | waits hw =>
    rw [hw.state] at hstep
    -- the client has no block yet, so it can have acknowledged nothing but the OACK
    have hzero : m = 0 := by
      have := h.acks m hm
      rw [hw.client] at this
      exact Nat.le_zero.1 this
    subst hzero
    have hstep : _ = rrqSendWindow j.cfg now (dataPhase x.c) :=
      hstep.trans (if_pos ⟨rfl, hw.kind⟩)
    rw [hstep] at hclean ⊢
    refine ⟨h.call (.moves (j.begins hw.toServes hw.empty hw.wire hw.client h.clean
      (by rw [h.fresh]; rfl) now)) hclean, ?_⟩
    rw [delivered_quiet (by rw [okEnds_sendWindow]; exact hnone)]
    exact ⟨fun _ _ hst => (by cases hw.state.symm.trans hst), fun _ => hd⟩
  | moves hmv =>
    rw [hmv.regular.state] at hstep
    rw [hstep] at hclean ⊢
    -- the session is not at block 0, so the condition asks for nothing
    have hvacuous : RoundedComplete j.content x (.ack now m) := by
      intro _ _ h0
      have hpos := hmv.regular.pos
      rw [h0] at hpos
      exact absurd hpos (by decide)
    rcases hmv.onAck h.clean now (h.acks m hm) ht with heq | ⟨hT, hend⟩ | hadv | ⟨hstr, hquiet⟩
    · rw [heq, put_self h.fresh]
      exact ⟨h, fun _ => hvacuous, fun _ => hd⟩
    · refine ⟨h.call (.ended (.inl hend.done)) hclean, ?_⟩
      rw [delivered_completed h.fresh hend]
      exact ⟨fun _ => hvacuous, fun _ => ⟨hd, hmv.held_all (by rw [← hT]; exact h.acks m hm)⟩⟩
    · refine ⟨h.call (.moves (hmv.advance hadv h.fresh (h.acks m hm))) hclean, ?_⟩
      rw [delivered_quiet (by rw [hadv.quiet]; exact hnone)]
      exact ⟨fun _ => hvacuous, fun _ => hd⟩
    · refine ⟨h.call (.stranded hstr) hclean, ?_⟩
      rw [delivered_quiet (by rw [hquiet]; exact hnone)]
      exact ⟨fun _ => hvacuous, fun _ => hd⟩
  | stranded hstr =>
    rw [hstr.state] at hstep
    rw [hstep] at hclean ⊢
    -- at block 0 any ACK ends the session, whatever the client has
    rcases hstr.onAck now (UInt16.ofNat m) with ⟨h0, hend⟩ | ⟨h0, heq⟩
    · refine ⟨h.call (.ended (.inl hend.done)) hclean, ?_⟩
      rw [delivered_completed h.fresh hend]
      exact ⟨fun hx _ _ _ => hx.2, fun hx => ⟨hd, hx hm hstr.state h0⟩⟩
    · rw [heq, put_self h.fresh]
      exact ⟨h, fun _ _ _ hzero => absurd hzero h0, fun _ => hd⟩
  | ended hend =>
    have hstep : onSessionPacket j.cfg now (ackPacket (UInt16.ofNat m)) x.c = x.c := by
      rcases hend with hst | hst <;> (rw [hst] at hstep; exact hstep)
    rw [hstep, put_self h.fresh]
    refine ⟨h, fun _ _ hst => ?_, fun _ => hd⟩
    rcases hend with hend | hend
    · cases hend.symm.trans hst
    · cases hend.symm.trans hst

/-- The timer. -/
theorem Job.Tracks.tick (h : j.Tracks x) (now : Clock) :
    j.Tracks (x.put (rrqStep j.cfg x.c (.tick now))) ∧
      (Delivered j.content (x.put (rrqStep j.cfg x.c (.tick now))) ↔ Delivered j.content x) := by
  have hclean : CleanBatch (rrqStep j.cfg x.c (.tick now)).batch :=
    (tickSlot_batch j.cfg now x.c).clean h.clean
  have hquiet : okEnds (rrqStep j.cfg x.c (.tick now)).out = [] := by
    refine (okEnds_tick j.cfg now x.c).trans ?_
    rw [h.fresh]
    rfl
  refine ⟨?_, delivered_quiet hquiet⟩
  rw [rrqStep] at hclean ⊢
  cases h.phase with
  | waits hw =>
    rcases tickSlot_download j.cfg now (by rw [hw.state]; decide) with
      ⟨-, heq⟩ | ⟨-, hst, -, -⟩ | ⟨-, heq⟩ | ⟨hre, -⟩
    · rw [heq, put_self h.fresh]
      exact h
    · exact h.call (.ended (.inr hst)) hclean
    · rw [heq] at hclean ⊢
      refine h.call (.waits ⟨hw.toServes.frame rfl rfl rfl rfl rfl rfl, hw.state, hw.kind, hw.empty,
        ?_, hw.client⟩) hclean
      show x.wire ++ dataFrames x.c.out = []
      rw [hw.wire, h.fresh]
      rfl
    · cases hw.state.symm.trans hre.1
  | moves hmv =>
    rcases hmv.regular.tick h.clean now with heq | hst | hadv
    · rw [heq, put_self h.fresh]
      exact h
    · exact h.call (.ended (.inr hst)) hclean
    · exact h.call (.moves (hmv.advance hadv h.fresh hmv.follows.inv.lo_le)) hclean
  | stranded hstr =>
    rcases hstr.tick h.clean now with hst | hstr
    · exact h.call (.ended (.inr hst)) hclean
    · exact h.call (.stranded hstr) hclean
  | ended hend =>
    -- no state that the timer acts on
    have hdead : ∀ st : SState, st ≠ .done → st ≠ .free → x.c.s.state ≠ st := by
      rintro st h1 h2 rfl
      exact hend.elim h1 h2
    refine h.call (.ended ?_) hclean
    rcases tickSlot_download j.cfg now (hdead _ (by decide) (by decide)) with
      ⟨-, heq⟩ | ⟨-, hst, -, -⟩ | ⟨hst, -⟩ | ⟨hre, -⟩
    · show (tickSlot j.cfg now x.c).s.state = .done ∨ (tickSlot j.cfg now x.c).s.state = .free
      rw [heq]
      exact hend
    · exact .inr hst
    · exact absurd hst (hdead _ (by decide) (by decide))
    · exact absurd hre.1 (hdead _ (by decide) (by decide))

/-- **One step.** -/
theorem Job.Tracks.step (h : j.Tracks x) {e : ExchangeEvent} (ht : TimelyExchange j.total x e)
    (hd : Delivered j.content x) :
    j.Tracks (exchangeStep j.cfg x e) ∧
      (Delivered j.content (exchangeStep j.cfg x e) ↔ RoundedComplete j.content x e) := by
  cases e with
  | data f =>
    unfold exchangeStep
    dsimp only
    split
    · next hf =>
      refine ⟨⟨?_, h.clean, h.fresh, fun m hm => ?_⟩, fun _ => trivial, fun _ => hd⟩
      · cases h.phase with
        | waits hw =>
          rw [hw.wire] at hf
          cases hf
        | moves hmv => exact .moves (hmv.data hf ht)
        | stranded hstr => exact .stranded hstr
        | ended hend => exact .ended hend
      · exact Nat.le_trans (h.acks m hm) (Client.length_receive_le _ _ _ _)
    · exact ⟨h, fun _ => trivial, fun _ => hd⟩
  | reply =>
    refine ⟨⟨?_, h.clean, h.fresh, fun m hm => ?_⟩, fun _ => trivial, fun _ => hd⟩
    · cases h.phase with
      | waits hw => exact .waits ⟨hw.toServes, hw.state, hw.kind, hw.empty, hw.wire, hw.client⟩
      | moves hmv => exact .moves ⟨hmv.regular, hmv.wire, hmv.sent, hmv.follows⟩
      | stranded hstr => exact .stranded hstr
      | ended hend => exact .ended hend
    · rcases List.mem_append.1 hm with hm | hm
      · exact h.acks m hm
      · exact Nat.le_of_eq (List.mem_singleton.1 hm)
  | ack now m =>
    unfold exchangeStep
    dsimp only
    split
    · next hm => exact h.ack now hm ht hd
    · next hm => exact ⟨h, fun _ hx => absurd hx hm, fun _ => hd⟩
  | tick now =>
    obtain ⟨htr, hiff⟩ := h.tick now
    exact ⟨htr, fun _ => trivial, fun _ => hiff.2 hd⟩

/-- **Whole runs.** -/
theorem Job.Tracks.run (h : j.Tracks x) (hd : Delivered j.content x) {es : List ExchangeEvent}
    (ht : Along (exchangeStep j.cfg) (TimelyExchange j.total) x es) :
    Always (exchangeStep j.cfg) (Delivered j.content) x es ↔
      Along (exchangeStep j.cfg) (RoundedComplete j.content) x es := by
  induction es generalizing x with
  | nil => exact ⟨fun _ => trivial, fun _ => hd⟩
  | cons e es ih =>
    obtain ⟨htr, hiff⟩ := h.step ht.1 hd
    constructor
    · rintro ⟨-, hrest⟩
      have hd' := hrest.head
      exact ⟨hiff.1 hd', (ih htr hd' ht.2).1 hrest⟩
    · rintro ⟨hok, hrest⟩
      have hd' := hiff.2 hok
      exact ⟨hd, (ih htr hd' ht.2).2 hrest⟩

end Steps

/-! ## From the request on -/

section Start

variable (cfg : Config) (now : Clock)

/-- Sending a window leaves the block size, the window size and the address of the client. -/
theorem sendWindow_link (c : Ctx) :
    (rrqSendWindow cfg now c).s.blksize = c.s.blksize ∧
      (rrqSendWindow cfg now c).s.windowsize = c.s.windowsize ∧
      frameTo cfg (rrqSendWindow cfg now c).s = frameTo cfg c.s := by
  rcases rrqSendWindow_cases cfg now c with ⟨-, heq⟩ | ⟨src, -, ⟨-, heq⟩ | ⟨-, heq⟩⟩ <;> rw [heq]
  · exact ⟨rfl, rfl, rfl⟩
  · unfold windowFailed
    simp only [sendError_s]
    exact ⟨trivial, trivial, rfl⟩
  · unfold windowSent
    obtain ⟨_, _, _, _, _, _, _, _, h⟩ := rrqPrebuildNext_frame cfg _
    rw [h]
    exact ⟨rfl, rfl, rfl⟩

variable {src : FileSource} {sz : UInt64}

/-- The job of a session, with this file. -/
def Job.of (s : Session) (content : Bytes) (hblk : 8 ≤ s.blksize.toNat ∧ s.blksize.toNat ≤ 1468)
    (hwin : 1 ≤ s.windowsize.toNat ∧ s.windowsize.toNat ≤ 64) (hsmall : content.length < 2 ^ 31) :
    Job :=
  ⟨cfg, content, s.blksize.toNat, s.windowsize.toNat, dataFrame cfg s content, hblk.1, hblk.2,
    hwin.1, hwin.2, hsmall, fun _ => rfl, fun _ => rfl⟩

/-- The session with the file open works on it. -/
theorem Job.serves_begun {s : Session} (hblk : 8 ≤ s.blksize.toNat ∧ s.blksize.toNat ≤ 1468)
    (hwin : 1 ≤ s.windowsize.toNat ∧ s.windowsize.toNat ≤ 64)
    (hsmall : src.content.length < 2 ^ 31) (env : Env) (req : TftpReq) (c : Ctx)
    (hsrc : src.Healthy) (hsize : sz.toNat = src.content.length)
    (hb : (begunCtx cfg env req sz (openedCtx req src sz c)).s.blksize = s.blksize)
    (hw : (begunCtx cfg env req sz (openedCtx req src sz c)).s.windowsize = s.windowsize)
    (hf : frameTo cfg (begunCtx cfg env req sz (openedCtx req src sz c)).s = frameTo cfg s) :
    (Job.of cfg s src.content hblk hwin hsmall).Serves
        (begunCtx cfg env req sz (openedCtx req src sz c)).s ∧
      ∀ pb, (begunCtx cfg env req sz (openedCtx req src sz c)).s.prebuilt = some pb →
        pb = .new BATCH_CAP := by
  have hqueue : ∀ pb, (begunCtx cfg env req sz (openedCtx req src sz c)).s.prebuilt = some pb →
      pb = .new BATCH_CAP := by
    intro pb hpb
    have hpb : (if env.batchNew then some (PcapBatch.new BATCH_CAP) else none) = some pb := hpb
    split at hpb
    · exact (Option.some.inj hpb).symm
    · cases hpb
  refine ⟨⟨congrArg UInt16.toNat hb, congrArg UInt8.toNat hw, dataFrame_congr hb hf, hsize,
    ⟨src, rfl, hsrc, rfl⟩, fun pb hpb => by rw [hqueue pb hpb]; rfl⟩, hqueue⟩

/-- A download starts in one of the phases, with nothing reported. -/
theorem Job.tracks_start (env : Env) (req : TftpReq) (m : SessMgr) (p : Sender) (st : SessStats)
    (hopen : env.openRead req.filename = some (src, sz)) (hsrc : src.Healthy)
    (hsize : sz.toNat = src.content.length) (hsmall : src.content.length < 2 ^ 31) {c : Ctx}
    (hc : c = startRrq cfg now env req (freshCtx now req m p st))
    (hblk : 8 ≤ c.s.blksize.toNat ∧ c.s.blksize.toNat ≤ 1468)
    (hwin : 1 ≤ c.s.windowsize.toNat ∧ c.s.windowsize.toNat ≤ 64) :
    (Job.of cfg c.s src.content hblk hwin hsmall).Tracks (Exchange.start c) ∧
      okEnds c.out = [] := by
  have hclean : CleanBatch c.batch := by
    rw [hc]
    exact (startRrq_batch cfg now env req _).clean rfl
  have htracks : ∀ {j : Job}, j.Phase (Exchange.start c) → j.Tracks (Exchange.start c) :=
    fun hphase => ⟨hphase, hclean, rfl, fun _ hm => nomatch hm⟩
  rw [startRrq_opened cfg now env req hopen] at hc
  by_cases hbig : cfg.maxRrqSize ≠ 0 ∧ cfg.maxRrqSize < sz
  · -- refused for its size: the session is over at once
    rw [if_pos hbig] at hc
    refine ⟨htracks (.ended (.inl ?_)), ?_⟩
    · show c.s.state = .done
      rw [hc, rejectRequest_s]
    · rw [hc]
      rfl
  · rw [if_neg hbig, rrqBegin_eq] at hc
    -- with options the OACK goes out and waits for its ACK; without, the first window
    by_cases hopts : hasOptions (rrqReply cfg req sz) = true
    · rw [if_pos hopts] at hc
      dsimp only at hc
      rw [sendTftp_s] at hc
      obtain ⟨hserves, hqueue⟩ := Job.serves_begun cfg (s := c.s) hblk hwin hsmall
        env req (freshCtx now req m p st) hsrc hsize (by rw [hc]) (by rw [hc])
        (by rw [hc]; rfl)
      have hwire : dataFrames c.out = [] := by
        rw [hc]
        exact dataFrames_sendTftpEx cfg _ true _
      have hst : c.s.state = .oackWaitAck0 := by rw [hc]
      have hkind : c.s.kind = TFTP_RRQ := by rw [hc]; rfl
      have hsrc' : c.s.src = some src := by rw [hc]; rfl
      have hpb : c.s.prebuilt =
          (begunCtx cfg env req sz (openedCtx req src sz (freshCtx now req m p st))).s.prebuilt := by
        rw [hc]
      have hlink : frameTo cfg c.s = frameTo cfg
          (begunCtx cfg env req sz (openedCtx req src sz (freshCtx now req m p st))).s := by
        rw [hc]
        rfl
      have hserves' : (Job.of cfg c.s src.content hblk hwin hsmall).Serves c.s :=
        hserves.frame (by rw [hc]) (by rw [hc]) hlink (by rw [hc]) hsrc' hpb
      refine ⟨htracks (.waits ⟨hserves', hst, hkind, fun pb h => ?_, hwire, rfl⟩), ?_⟩
      · rw [hqueue pb (hpb.symm.trans h)]
        rfl
      · rw [hc]
        exact okEnds_sendTftpEx cfg _ _ true
    · rw [if_neg hopts] at hc
      obtain ⟨h1, h2, h3⟩ := sendWindow_link cfg now
        (dataPhase (begunCtx cfg env req sz (openedCtx req src sz (freshCtx now req m p st))))
      rw [← hc] at h1 h2 h3
      obtain ⟨hserves, hqueue⟩ := Job.serves_begun cfg (s := c.s) hblk hwin hsmall
        env req (freshCtx now req m p st) hsrc hsize h1.symm h2.symm h3.symm
      refine ⟨htracks (.moves ?_), ?_⟩
      · have hbegins := Job.begins (x := ⟨begunCtx cfg env req sz (openedCtx req src sz
          (freshCtx now req m p st)), [], .new, [], []⟩) hserves
          (fun pb hpb => by rw [hqueue pb hpb]; rfl) rfl rfl rfl rfl now
        generalize hd : rrqSendWindow _ now _ = d at hbegins
        obtain rfl : c = d := hc.trans hd
        exact hbegins
      · rw [hc, okEnds_sendWindow]
        rfl

/-- Nothing has been reported at the start. -/
theorem delivered_start {content : Bytes} {c : Ctx} (h : okEnds c.out = []) :
    Delivered content (Exchange.start c) := by
  intro held hheld
  have hheld : held ∈ [] ++ (okEnds c.out).map fun _ => Client.new.held := hheld
  rw [h] at hheld
  cases hheld

end Start

end Nishro.CCore

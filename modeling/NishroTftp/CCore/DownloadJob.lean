import NishroTftp.CCore.DownloadRun
import NishroTftp.CCore.FileWindows
/-
  A download of a file that can be read: what its session looks like between calls.

  As long as every ACK is taken for a block of the window, the session is REGULAR: it is at block `n`
  of the file, has sent up to block `L`, and what is queued are blocks of the file, not too far ahead.
  An ACK that is taken for a block near 2^32 (`ackCand_wraps`) leaves the file behind: the session is
  then STRANDED past its end, sends one empty block, and comes to an end only if its block number has
  gone all the way round to 0.
-/
namespace Nishro.CCore

open Nishro.Blocks
open Nishro.Runs
open Nishro.Wire

/-- A file to be sent in blocks of `b` bytes, `w` blocks a window, as these frames. -/
structure Job where
  cfg : Config
  content : Bytes
  b : Nat
  w : Nat
  frame : Nat → QueuedFrame
  blkMin : 8 ≤ b
  blkMax : b ≤ 1468
  winMin : 1 ≤ w
  winMax : w ≤ 64
  small : content.length < 2 ^ 31
  payload : ∀ n, (frame n).frame.payload =
    be16 TFTP_DATA ++ be16 (UInt32.ofNat n).toUInt16 ++ block content b n
  number : ∀ n, (frame n).block = UInt32.ofNat n

namespace Job

variable (j : Job)

/-- The number of blocks. -/
def total : Nat := blockCount j.content.length j.b

/-- The frames for `count` blocks from `n` on. -/
def range (n count : Nat) : List QueuedFrame := (List.range' n count).map j.frame

theorem total_pos : 1 ≤ j.total := Nat.succ_pos _

theorem total_lt : j.total < 2 ^ 29 := by
  have h := j.small
  have hdiv : j.content.length / j.b ≤ j.content.length / 8 :=
    Nat.div_le_div_left j.blkMin (by decide)
  show j.content.length / j.b + 1 < _
  omega

/-- The blocks before the last lie within the file. -/
theorem offset_le {n : Nat} (h : n < j.total) : n * j.b ≤ j.content.length :=
  mul_le_of_lt_blockCount h

theorem mem_range {q : QueuedFrame} {n count : Nat} :
    q ∈ j.range n count ↔ ∃ k, n ≤ k ∧ k < n + count ∧ q = j.frame k := by
  unfold range
  rw [List.mem_map]
  constructor
  · rintro ⟨k, hk, rfl⟩
    rw [List.mem_range'_1] at hk
    exact ⟨k, hk.1, hk.2, rfl⟩
  · rintro ⟨k, h1, h2, rfl⟩
    exact ⟨k, List.mem_range'_1.2 ⟨h1, h2⟩, rfl⟩

theorem toNat_block {n : Nat} (h : n ≤ j.total) : (j.frame n).block.toNat = n := by
  have ht := j.total_lt
  rw [j.number, UInt32.toNat_ofNat']
  omega

/-- A frame is one of the file, up to block `top`. -/
def IsBlock (top : Nat) (q : QueuedFrame) : Prop :=
  ∃ k, 1 ≤ k ∧ k ≤ top ∧ k ≤ j.total ∧ q = j.frame k

theorem IsBlock.mono {j : Job} {top top' : Nat} (h : top ≤ top') {q : QueuedFrame}
    (hq : j.IsBlock top q) : j.IsBlock top' q := by
  obtain ⟨k, h1, h2, h3, rfl⟩ := hq
  exact ⟨k, h1, Nat.le_trans h2 h, h3, rfl⟩

/-- A session that works on the job. -/
structure Serves (s : Session) : Prop where
  blksize : s.blksize.toNat = j.b
  windowsize : s.windowsize.toNat = j.w
  frames : dataFrame j.cfg s j.content = j.frame
  size : s.totalBytes.toNat = j.content.length
  file : ∃ src, s.src = some src ∧ src.Healthy ∧ src.content = j.content
  queue : ∀ pb, s.prebuilt = some pb → pb.cap = BATCH_CAP

/-- It is about to send from `next_block` on; what is queued are blocks up to `top`. -/
structure Ready (top : Nat) (s : Session) : Prop extends j.Serves s where
  state : s.state = .sendRrq
  pos : 1 ≤ s.nextBlock.toNat
  le : s.nextBlock.toNat ≤ j.total
  offset : s.windowFirstOffset.toNat = (s.nextBlock.toNat - 1) * j.b
  queued : ∀ pb, s.prebuilt = some pb → ∀ q ∈ pb.frames, j.IsBlock top q

/-- It has sent a window. -/
structure Windowed (s : Session) : Prop extends j.Ready (s.windowLast.toNat + j.w) s where
  next : s.nextBlock.toNat ≤ s.windowLast.toNat + 1
  last : s.windowLast.toNat ≤ j.total
  width : s.windowLast.toNat + 1 ≤ s.nextBlock.toNat + j.w
  eof : s.eofReached = true ↔ s.windowLast.toNat = j.total

/-- The window that is built ahead is of the file. -/
structure Ahead (s : Session) : Prop where
  more : s.windowLast.toNat < j.total
  first : s.prebuiltFirstBlock.toNat = s.windowLast.toNat + 1
  lo : s.windowLast.toNat ≤ s.prebuiltLastBlock.toNat
  hi : s.prebuiltLastBlock.toNat ≤ s.windowLast.toNat + j.w
  total : s.prebuiltLastBlock.toNat ≤ j.total
  eof : s.prebuiltEof = true ↔ s.prebuiltLastBlock.toNat = j.total
  queued : s.prebuiltLastBlock = s.windowLast ∨
    ∃ pb q, s.prebuilt = some pb ∧ q ∈ pb.frames ∧ q.block = s.prebuiltLastBlock

/-- Between calls, as long as no ACK has been taken for a block past the window. -/
structure Regular (s : Session) : Prop extends j.Windowed s where
  ahead : s.prebuiltValid = true → j.Ahead s

/-- After one was: one empty block, past the end of the file, at a number near 2^32 or at 0. -/
structure Stranded (s : Session) : Prop extends j.Serves s where
  state : s.state = .sendRrq
  eof : s.eofReached = true
  one : s.windowLast = s.nextBlock
  offset : s.windowFirstOffset.toNat = j.content.length
  far : s.nextBlock = 0 ∨ 2 ^ 32 - 65536 ≤ s.nextBlock.toNat

end Job

section Fill

variable {j : Job} {s : Session}

theorem Job.Serves.fits (h : j.Serves s) : s.BlocksFit := by
  unfold Session.BlocksFit
  have hb := j.blkMax
  rw [h.blksize]
  show 50 + j.b ≤ 2048
  omega

theorem Job.Serves.total (h : j.Serves s) : s.blocks j.content = j.total := by
  unfold Session.blocks Job.total
  rw [h.blksize]

/-- The session may change in everything else. -/
theorem Job.Serves.frame {s' : Session} (h : j.Serves s) (hb : s'.blksize = s.blksize)
    (hw : s'.windowsize = s.windowsize) (hf : frameTo j.cfg s' = frameTo j.cfg s)
    (ht : s'.totalBytes = s.totalBytes) (hsrc : s'.src = s.src) (hpb : s'.prebuilt = s.prebuilt) :
    j.Serves s' where
  blksize := by rw [hb]; exact h.blksize
  windowsize := by rw [hw]; exact h.windowsize
  frames := (dataFrame_congr hb hf).trans h.frames
  size := by rw [ht]; exact h.size
  file := by rw [hsrc]; exact h.file
  queue := by rw [hpb]; exact h.queue

/-- What filling a window from block `n` on comes to: the blocks `n, …, q`. -/
structure Job.Fills (j : Job) (n : Nat) (batch : PcapBatch) (r : Fill) (q : Nat) : Prop where
  ok : r.ok = true
  frames : r.batch.frames = batch.frames ++ j.range n (q + 1 - n)
  last : r.last.toNat = q
  eof : r.eof = true ↔ q = j.total
  le : n ≤ q + 1
  width : q + 1 ≤ n + j.w
  total : q ≤ j.total
  full : batch.len + j.w * (66 + j.b) ≤ batch.cap → q = min (n - 1 + j.w) j.total
  src : r.src.Healthy ∧ r.src.content = j.content
  cap : r.batch.cap = batch.cap

theorem Job.Serves.fill (h : j.Serves s) {src : FileSource} (hsrc : src.Healthy)
    (hc : src.content = j.content) (batch : PcapBatch) (first : UInt32) (off : UInt64)
    (h1 : 1 ≤ first.toNat) (hn : first.toNat ≤ j.total) (hoff : off.toNat = (first.toNat - 1) * j.b) :
    ∃ q, j.Fills first.toNat batch (rrqFillWindow j.cfg s batch src first off) q := by
  have hb : 0 < s.blksize.toNat := by
    have := j.blkMin
    rw [h.blksize]
    omega
  have hsmall : off.toNat < 2 ^ 31 := by
    have hle := j.offset_le (n := first.toNat - 1) (by omega)
    have hlt := j.small
    omega
  have hfirst : UInt32.ofNat first.toNat = first := UInt32.ofNat_toNat
  obtain ⟨q, hq⟩ := rrqFillWindow_filled j.cfg h.fits hb h1 (by rw [h.total]; exact hn)
    first.toNat_lt batch hsrc hc (by rw [h.blksize]; exact hoff) hsmall
  rw [hfirst] at hq
  have hsrc' := rrqFillWindow_src j.cfg s hsrc batch first off
  have htotal := hq.total
  have hwidth := hq.width
  have hT := j.total_lt
  rw [h.total] at htotal
  rw [h.windowsize] at hwidth
  refine ⟨q, hq.ok, ?_, ?_, ?_, hq.le, hwidth, htotal, ?_, ⟨hsrc'.1, hsrc'.2.trans hc⟩,
    rrqFillWindow_cap j.cfg s batch src first off⟩
  · rw [hq.frames]
    unfold dataRange Job.range
    rw [h.frames]
  · rw [hq.last, UInt32.toNat_ofNat']
    omega
  · rw [hq.eof, h.total, decide_eq_true_eq]
  · have hfull := hq.full
    rw [h.windowsize, h.blksize, h.total] at hfull
    exact hfull

/-- A window fits into an empty queue. -/
theorem Job.Fills.all {n q : Nat} {r : Fill} (h : j.Fills n (.new BATCH_CAP) r q) :
    q = min (n - 1 + j.w) j.total := by
  refine h.full ?_
  have hw := j.winMax
  have hb := j.blkMax
  have hmul : j.w * (66 + j.b) ≤ 64 * 1534 := Nat.mul_le_mul hw (by omega)
  show 0 + _ ≤ 131072
  omega

end Fill

section Calls

variable {j : Job} {s : Session}

variable {top : Nat} {cand : UInt32}

/-- Where the block after `cand` starts, as it is computed. -/
theorem Job.Ready.offset_after (h : j.Ready top s) (hn : s.nextBlock.toNat ≤ cand.toNat + 1)
    (hc : cand.toNat ≤ j.total) :
    (s.windowFirstOffset + (cand + 1 - s.nextBlock).toUInt64 * s.blksize.toUInt64).toNat =
      cand.toNat * j.b := by
  have hT := j.total_lt
  have hpos := h.pos
  have hb := j.blkMax
  have hone : (cand + 1).toNat = cand.toNat + 1 := by
    show (cand.toNat + 1) % 2 ^ 32 = _
    omega
  have hsub : (cand + 1 - s.nextBlock).toNat = cand.toNat + 1 - s.nextBlock.toNat := by
    rw [UInt32.toNat_sub_of_le _ _ (UInt32.le_iff_toNat_le.2 (by rw [hone]; exact hn)), hone]
  have hsplit : cand.toNat * j.b =
      (s.nextBlock.toNat - 1) * j.b + (cand.toNat + 1 - s.nextBlock.toNat) * j.b := by
    rw [← Nat.add_mul]
    congr 1
    omega
  have hbound : cand.toNat * j.b ≤ 2 ^ 29 * 1468 := Nat.mul_le_mul (by omega) hb
  rw [UInt64.toNat_add, UInt64.toNat_mul, UInt32.toNat_toUInt64, UInt16.toNat_toUInt64, hsub,
    h.blksize, h.offset]
  omega

theorem Job.Ready.ahead_first (h : j.Ready top s) (hlast : s.windowLast.toNat ≤ j.total) :
    (s.windowLast + 1).toNat = s.windowLast.toNat + 1 := by
  have hT := j.total_lt
  have _ := h.pos
  show (s.windowLast.toNat + 1) % 2 ^ 32 = _
  omega

/-- Before the end of the file, the next window can be built. -/
theorem Job.Windowed.fill_ahead (h : j.Windowed s) {src : FileSource} (pb : PcapBatch)
    (hsrc : s.src = some src) (hmore : s.eofReached = false) :
    s.windowLast.toNat < j.total ∧ ∃ q, j.Fills (s.windowLast.toNat + 1) pb
      (rrqFillWindow j.cfg s pb src (s.windowLast + 1) (prebuildOffset s)) q := by
  have hne : s.windowLast.toNat ≠ j.total := fun hT => nomatch hmore.symm.trans (h.eof.2 hT)
  have hlt : s.windowLast.toNat < j.total := Nat.lt_of_le_of_ne h.last hne
  obtain ⟨src', hsrc', hhealthy, hcontent⟩ := h.file
  obtain rfl : src = src' := Option.some.inj (hsrc.symm.trans hsrc')
  have hfirst := h.ahead_first h.last
  have hfill := h.fill hhealthy hcontent pb (s.windowLast + 1) (prebuildOffset s)
    (by omega) (by omega) (by rw [hfirst]; exact h.offset_after h.next h.last)
  rw [hfirst] at hfill
  exact ⟨hlt, hfill⟩

/-- The next window is built ahead. -/
theorem Job.Windowed.prebuild (h : j.Windowed s) (hv : s.prebuiltValid = false) :
    j.Regular (rrqPrebuildNext j.cfg s) := by
  rcases rrqPrebuildNext_cases j.cfg s with ⟨-, heq⟩ | ⟨src, pb, ⟨hfile, -, hmore⟩, hfail, -⟩ |
    ⟨src, pb, hbuilds, heq⟩
  · rw [heq]
    exact ⟨h, fun hv' => nomatch hv.symm.trans hv'⟩
  · obtain ⟨-, q, hq⟩ := h.fill_ahead pb hfile hmore
    exact nomatch hfail.symm.trans hq.ok
  obtain ⟨hlt, q, hq⟩ := h.fill_ahead pb hbuilds.file hbuilds.more
  rw [heq]
  generalize rrqFillWindow j.cfg s pb src (s.windowLast + 1) (prebuildOffset s) = r at hq
  have hserves : j.Serves (withPrebuilt s r) :=
    { blksize := h.blksize
      windowsize := h.windowsize
      frames := (dataFrame_congr rfl rfl).trans h.frames
      size := h.size
      file := ⟨r.src, rfl, hq.src⟩
      queue := fun pb' hpb' => by
        obtain rfl := Option.some.inj hpb'
        exact hq.cap.trans (h.queue pb hbuilds.queue) }
  have hqueued : ∀ q' ∈ r.batch.frames, j.IsBlock (s.windowLast.toNat + j.w) q' := by
    intro q' hq'
    rw [hq.frames, List.mem_append] at hq'
    rcases hq' with hq' | hq'
    · exact h.queued pb hbuilds.queue q' hq'
    · obtain ⟨k, h1, h2, rfl⟩ := (j.mem_range).1 hq'
      have := hq.width
      have := hq.total
      exact ⟨k, by omega, by omega, by omega, rfl⟩
  refine ⟨⟨⟨hserves, h.state, h.pos, h.le, h.offset, fun pb' hpb' => ?_⟩, h.next, h.last, h.width,
    h.eof⟩, fun _ => ?_⟩
  · obtain rfl := Option.some.inj hpb'
    exact hqueued
  have hle := hq.le
  have hwidth := hq.width
  have htotal := hq.total
  refine ⟨hlt, h.ahead_first h.last, ?_, ?_, ?_, ?_, ?_⟩
  · show s.windowLast.toNat ≤ r.last.toNat
    rw [hq.last]
    omega
  · show r.last.toNat ≤ _
    rw [hq.last]
    show q ≤ s.windowLast.toNat + j.w
    omega
  · show r.last.toNat ≤ _
    rw [hq.last]
    exact htotal
  · show r.eof = true ↔ r.last.toNat = _
    rw [hq.last]
    exact hq.eof
  · by_cases hnone : q = s.windowLast.toNat
    · exact .inl (UInt32.toNat_inj.1 (hq.last.trans hnone))
    · refine .inr ⟨r.batch, j.frame q, rfl, ?_, ?_⟩
      · rw [hq.frames, List.mem_append]
        exact .inr ((j.mem_range).2 ⟨q, by omega, by omega, rfl⟩)
      · apply UInt32.toNat_inj.1
        rw [j.toNat_block htotal]
        exact hq.last.symm

/-- The last block of the window that is sent from block `n` on. -/
def Job.windowEnd (j : Job) (n : Nat) : Nat := min (n - 1 + j.w) j.total

theorem Job.windowEnd_le (j : Job) (n : Nat) : j.windowEnd n ≤ j.total := Nat.min_le_right _ _

/-- The window from `next_block` on is out, and the next one is built ahead. -/
structure Job.SendsWindow (j : Job) (c c' : Ctx) : Prop where
  regular : j.Regular c'.s
  next : c'.s.nextBlock = c.s.nextBlock
  last : c'.s.windowLast.toNat = j.windowEnd c.s.nextBlock.toNat
  frames : dataFrames c'.out = dataFrames c.out ++ j.range c.s.nextBlock.toNat
    (j.windowEnd c.s.nextBlock.toNat + 1 - c.s.nextBlock.toNat)

/-- The session between the two halves of `rrq_send_window`: the window is out, the next one is not
    built yet. -/
structure Job.WindowOut (j : Job) (now : Clock) (c : Ctx) (s : Session) : Prop where
  windowed : j.Windowed s
  invalid : s.prebuiltValid = false
  queue : s.prebuilt = c.s.prebuilt
  next : s.nextBlock = c.s.nextBlock
  last : s.windowLast.toNat = j.windowEnd c.s.nextBlock.toNat
  built : (rrqSendWindow j.cfg now c).s = rrqPrebuildNext j.cfg s
  frames : dataFrames (rrqSendWindow j.cfg now c).out = dataFrames c.out ++
    j.range c.s.nextBlock.toNat (j.windowEnd c.s.nextBlock.toNat + 1 - c.s.nextBlock.toNat)

variable {c : Ctx}

theorem Job.Ready.window (h : j.Ready top c.s) (now : Clock)
    (htop : top ≤ j.windowEnd c.s.nextBlock.toNat + j.w) (hb : CleanBatch c.batch) :
    ∃ s, j.WindowOut now c s := by
  obtain ⟨src, hsrc, hhealthy, hcontent⟩ := h.file
  obtain ⟨q, hq⟩ := h.fill hhealthy hcontent c.batch _ _ h.pos h.le h.offset
  have hfill : rrqFillWindow j.cfg c.s c.batch src c.s.nextBlock c.s.windowFirstOffset =
    windowFill j.cfg c src := rfl
  rw [hfill] at hq
  have hsends := sendWindow_sends j.cfg now hsrc hq.ok
  have hall : q = j.windowEnd c.s.nextBlock.toNat := by
    rw [hb] at hq
    exact hq.all
  subst hall
  have hlast := hq.last
  have hframes := hsends.frames
  rw [hq.frames, hb] at hframes
  have hle := hq.le
  have hwidth := hq.width
  rcases rrqSendWindow_cases j.cfg now c with ⟨hnone, -⟩ | ⟨src', hsrc', ⟨hfail, -⟩ | ⟨-, heq⟩⟩
  · exact nomatch hnone.symm.trans hsrc
  · obtain rfl : src = src' := Option.some.inj (hsrc.symm.trans hsrc')
    exact nomatch hq.ok.symm.trans hfail
  obtain rfl : src = src' := Option.some.inj (hsrc.symm.trans hsrc')
  refine ⟨_, ?_, ?_, ?_, ?_, ?_, by rw [heq]; rfl, hframes⟩
  · have hserves : j.Serves { c.s with src := some (windowFill j.cfg c src).src } :=
      ⟨h.blksize, h.windowsize, (dataFrame_congr rfl rfl).trans h.frames, h.size,
        ⟨_, rfl, hq.src⟩, h.queue⟩
    refine ⟨⟨hserves.frame rfl rfl rfl rfl rfl rfl, h.state, h.pos, h.le, h.offset, ?_⟩, ?_, ?_, ?_, ?_⟩
    · intro pb hpb q' hq'
      refine (h.queued pb hpb q' hq').mono ?_
      show top ≤ (windowFill j.cfg c src).last.toNat + j.w
      rw [hlast]
      exact htop
    · show c.s.nextBlock.toNat ≤ (windowFill j.cfg c src).last.toNat + 1
      rw [hlast]
      exact hle
    · show (windowFill j.cfg c src).last.toNat ≤ j.total
      rw [hlast]
      exact hq.total
    · show (windowFill j.cfg c src).last.toNat + 1 ≤ c.s.nextBlock.toNat + j.w
      rw [hlast]
      exact hwidth
    · show (windowFill j.cfg c src).eof = true ↔ (windowFill j.cfg c src).last.toNat = j.total
      rw [hlast]
      exact hq.eof
  · rfl
  · rfl
  · rfl
  · exact hlast

theorem Job.Ready.send (h : j.Ready top c.s) (now : Clock)
    (htop : top ≤ j.windowEnd c.s.nextBlock.toNat + j.w) (hb : CleanBatch c.batch) :
    j.SendsWindow c (rrqSendWindow j.cfg now c) := by
  obtain ⟨s₁, hout⟩ := h.window now htop hb
  obtain ⟨_, _, _, _, _, _, _, _, heq⟩ := rrqPrebuildNext_frame j.cfg s₁
  refine ⟨?_, ?_, ?_, hout.frames⟩
  · rw [hout.built]
    exact hout.windowed.prebuild hout.invalid
  · rw [hout.built, heq]
    exact hout.next
  · rw [hout.built, heq]
    exact hout.last

/-- A window has gone out, from block `n` on. -/
structure Job.Advances (j : Job) (c c' : Ctx) (n : Nat) : Prop where
  regular : j.Regular c'.s
  next : c'.s.nextBlock.toNat = n
  grows : c.s.windowLast.toNat ≤ c'.s.windowLast.toNat
  frames : ∃ fs, dataFrames c'.out = dataFrames c.out ++ fs ∧
    (∀ q ∈ fs, j.IsBlock (c'.s.windowLast.toNat + j.w) q) ∧
    (c'.s.windowLast = c.s.windowLast ∨ ∃ q ∈ fs, q.block = c'.s.windowLast)
  quiet : okEnds c'.out = okEnds c.out

/-- Everything that a session about to send consists of. -/
theorem Job.Ready.frame {s' : Session} (h : j.Ready top s) (hs : j.Serves s')
    (hst : s'.state = s.state) (hn : s'.nextBlock = s.nextBlock)
    (ho : s'.windowFirstOffset = s.windowFirstOffset) (hpb : s'.prebuilt = s.prebuilt) :
    j.Ready top s' where
  toServes := hs
  state := hst.trans h.state
  pos := by rw [hn]; exact h.pos
  le := by rw [hn]; exact h.le
  offset := by rw [hn, ho]; exact h.offset
  queued := by rw [hpb]; exact h.queued

/-- From disk, a window that is at least as long as the last one. -/
theorem Job.Ready.advances {c c₀ : Ctx} (h : j.Ready top c.s) (now : Clock)
    (htop : top ≤ j.windowEnd c.s.nextBlock.toNat + j.w) (hb : CleanBatch c.batch)
    (hlast : c₀.s.windowLast.toNat ≤ j.windowEnd c.s.nextBlock.toNat)
    (hout : dataFrames c.out = dataFrames c₀.out) (hquiet : okEnds c.out = okEnds c₀.out) :
    j.Advances c₀ (rrqSendWindow j.cfg now c) c.s.nextBlock.toNat := by
  have hsend := h.send now htop hb
  have hpos := h.pos
  have hw := j.winMin
  have hle := h.le
  refine ⟨hsend.regular, congrArg UInt32.toNat hsend.next, by rw [hsend.last]; exact hlast,
    ⟨_, by rw [hsend.frames, hout], fun q hq => ?_, .inr ?_⟩, ?_⟩
  · obtain ⟨k, h1, h2, rfl⟩ := (j.mem_range).1 hq
    have hend := j.windowEnd_le c.s.nextBlock.toNat
    rw [hsend.last]
    exact ⟨k, by omega, by omega, by omega, rfl⟩
  · have hend : c.s.nextBlock.toNat ≤ j.windowEnd c.s.nextBlock.toNat := by
      unfold Job.windowEnd
      omega
    refine ⟨j.frame (j.windowEnd c.s.nextBlock.toNat), (j.mem_range).2 ⟨_, hend, by omega, rfl⟩, ?_⟩
    apply UInt32.toNat_inj.1
    rw [j.toNat_block (j.windowEnd_le _), hsend.last]
  · rw [okEnds_sendWindow, hquiet]

/-- What an ACK of a block of the window has counted. -/
theorem Job.Ready.acked (h : j.Ready top s) (hn : s.nextBlock.toNat ≤ cand.toNat + 1)
    (hc : cand.toNat < j.total) : (ackedBytes s cand).toNat = cand.toNat * j.b := by
  have hreach := h.offset_after hn (Nat.le_of_lt hc)
  have hle := j.offset_le hc
  have hnot : ¬ s.totalBytes <
      s.windowFirstOffset + (cand + 1 - s.nextBlock).toUInt64 * s.blksize.toUInt64 := by
    rw [UInt64.lt_iff_toNat_lt, h.size]
    omega
  unfold ackedBytes
  rw [if_neg hnot, hreach]

theorem Job.Ready.afterAck (h : j.Ready top s) (hn : s.nextBlock.toNat ≤ cand.toNat)
    (hc : cand.toNat < j.total) :
    j.Ready top (CCore.afterAck s cand) ∧
      (CCore.afterAck s cand).nextBlock.toNat = cand.toNat + 1 := by
  have hT := j.total_lt
  have hone : (cand + 1).toNat = cand.toNat + 1 := by
    show (cand.toNat + 1) % 2 ^ 32 = _
    omega
  have hoff := h.acked (Nat.le_succ_of_le hn) hc
  refine ⟨⟨h.toServes.frame rfl rfl rfl rfl rfl rfl, h.state, ?_, ?_, ?_, h.queued⟩, hone⟩
  · show 1 ≤ (cand + 1).toNat
    omega
  · show (cand + 1).toNat ≤ _
    omega
  · show (ackedBytes s cand).toNat = ((cand + 1).toNat - 1) * j.b
    rw [hone, hoff, Nat.add_sub_cancel]

/-- A session whose window is acknowledged turns to the one built ahead. -/
theorem Job.Regular.flushed {c₀ : Ctx} (h : j.Regular c₀.s) (hv : c₀.s.prebuiltValid = true)
    (now : Clock) (hn : c₀.s.nextBlock.toNat ≤ c₀.s.windowLast.toNat) :
    j.Windowed (flushedSession now (afterAck c₀.s c₀.s.windowLast)) ∧
      (afterAck c₀.s c₀.s.windowLast).nextBlock.toNat = c₀.s.windowLast.toNat + 1 := by
  have ha := h.ahead hv
  have hlo := ha.lo
  have hhi := ha.hi
  obtain ⟨hready, hnext⟩ := h.toReady.afterAck hn ha.more
  refine ⟨⟨⟨⟨h.blksize, h.windowsize, (dataFrame_congr rfl rfl).trans h.frames, h.size, h.file, ?_⟩,
    h.state, hready.pos, hready.le, hready.offset, ?_⟩, ?_, ha.total, ?_, ha.eof⟩, hnext⟩
  · intro pb hpb
    obtain ⟨pb', hpb', rfl⟩ := Option.map_eq_some_iff.1 hpb
    exact h.queue pb' hpb'
  · intro pb hpb q hq
    obtain ⟨pb', -, rfl⟩ := Option.map_eq_some_iff.1 hpb
    cases hq
  · show (afterAck c₀.s c₀.s.windowLast).nextBlock.toNat ≤ c₀.s.prebuiltLastBlock.toNat + 1
    omega
  · show c₀.s.prebuiltLastBlock.toNat + 1 ≤ (afterAck c₀.s c₀.s.windowLast).nextBlock.toNat + j.w
    omega

/-- **The fast path**: the window built ahead is out, and the one after it is built. -/
theorem Job.Regular.fast {c c₀ : Ctx} (h : j.Regular c₀.s) (hv : c₀.s.prebuiltValid = true)
    (hc : c.s = afterAck c₀.s c₀.s.windowLast) (now : Clock)
    (hn : c₀.s.nextBlock.toNat ≤ c₀.s.windowLast.toNat) (hout : c.out = c₀.out) :
    j.Advances c₀ (rrqFastPath j.cfg now c) (c₀.s.windowLast.toNat + 1) := by
  have ha := h.ahead hv
  obtain ⟨hwin, hnext⟩ := h.flushed hv now hn
  have hlast : (rrqFastPath j.cfg now c).s.windowLast = c₀.s.prebuiltLastBlock := by
    obtain ⟨_, _, _, _, _, _, _, _, heq⟩ := rrqPrebuildNext_frame j.cfg (flushedSession now c.s)
    rw [rrqFastPath_s, heq, hc]
    rfl
  have hframes : dataFrames (rrqFastPath j.cfg now c).out =
      dataFrames c₀.out ++ (c₀.s.prebuilt.map (·.frames)).getD [] := by
    refine (dataFrames_progress now _).trans ?_
    rw [dataFrames_append, dataFrames_data, hc, hout]
    rfl
  refine ⟨?_, ?_, by rw [hlast]; exact ha.lo, ⟨_, hframes, ?_, ?_⟩, ?_⟩
  · rw [rrqFastPath_s, hc]
    exact hwin.prebuild rfl
  · obtain ⟨_, _, _, _, _, _, _, _, heq⟩ := rrqPrebuildNext_frame j.cfg (flushedSession now c.s)
    rw [rrqFastPath_s, heq, hc]
    exact hnext
  · intro q hq
    cases hpb : c₀.s.prebuilt with
    | none =>
      rw [hpb] at hq
      cases hq
    | some pb =>
      rw [hpb] at hq
      rw [hlast]
      exact (h.queued pb hpb q hq).mono (Nat.add_le_add_right ha.lo _)
  · rw [hlast]
    rcases ha.queued with heq | ⟨pb, q, hpb, hq, heq⟩
    · exact .inl heq
    · refine .inr ⟨q, ?_, heq⟩
      rw [hpb]
      exact hq
  · rw [okEnds_fastPath, hout]

/-- The session as the slow path is about to send from disk. -/
structure Job.Resumes (j : Job) (c₀ d : Ctx) (n : Nat) : Prop where
  ready : j.Ready (c₀.s.windowLast.toNat + j.w) d.s
  next : d.s.nextBlock.toNat = n
  queue : d.s.prebuilt = c₀.s.prebuilt
  clean : CleanBatch d.batch
  frames : dataFrames d.out = dataFrames c₀.out
  quiet : okEnds d.out = okEnds c₀.out

theorem Job.Regular.resumes {c c₀ : Ctx} (h : j.Regular c₀.s) (hc : c.s = afterAck c₀.s cand)
    (now : Clock) (hn : c₀.s.nextBlock.toNat ≤ cand.toNat) (hmore : cand.toNat < j.total)
    (hout : c.out = c₀.out) (hb : CleanBatch c.batch) :
    ∃ d, rrqSlowPath j.cfg now c = rrqSendWindow j.cfg now d ∧ j.Resumes c₀ d (cand.toNat + 1) := by
  obtain ⟨hready, hnext⟩ := h.toReady.afterAck hn hmore
  refine ⟨_, rfl, ?_⟩
  generalize hd : emitSessionProgress now { c with s := { c.s with prebuiltValid := false } } = d
  have hds : d.s = { afterAck c₀.s cand with
      prebuiltValid := false, lastProgressMs := d.s.lastProgressMs } := by
    rw [← hd, emitSessionProgress_s, hc]
  refine ⟨?_, ?_, ?_, ?_, ?_, ?_⟩
  · rw [hds]
    exact hready.frame (hready.toServes.frame rfl rfl rfl rfl rfl rfl) rfl rfl rfl rfl
  · rw [hds]
    exact hnext
  · rw [hds]
    rfl
  · rw [← hd, emitSessionProgress_batch]
    exact hb
  · rw [← hd, dataFrames_progress, hout]
  · rw [← hd, okEnds_progress, hout]

/-- **The slow path**: the window after an acknowledged block is sent from disk. -/
theorem Job.Regular.slow {c c₀ : Ctx} (h : j.Regular c₀.s) (hc : c.s = afterAck c₀.s cand)
    (now : Clock) (hn : c₀.s.nextBlock.toNat ≤ cand.toNat) (hmore : cand.toNat < j.total)
    (hout : c.out = c₀.out) (hb : CleanBatch c.batch) :
    j.Advances c₀ (rrqSlowPath j.cfg now c) (cand.toNat + 1) := by
  obtain ⟨d, heq, hd⟩ := h.resumes hc now hn hmore hout hb
  have hwidth := h.width
  have htotal := h.last
  have hend : c₀.s.windowLast.toNat ≤ j.windowEnd d.s.nextBlock.toNat := by
    rw [hd.next]
    unfold Job.windowEnd
    omega
  rw [heq, ← hd.next]
  exact hd.ready.advances now (Nat.add_le_add_right hend _) hd.clean hend hd.frames hd.quiet

/-- **An ACK of a block of the window.**  The download is completed if it is the last block of the
    file, and goes on after it otherwise. -/
theorem Job.Regular.onAck (h : j.Regular c.s) (hb : CleanBatch c.batch) (now : Clock) {ack : UInt16}
    {m : Nat} (hm : (ackCand c.s.windowLast ack).toNat = m) (hn : c.s.nextBlock.toNat ≤ m)
    (hlast : m ≤ c.s.windowLast.toNat) :
    (m = j.total ∧ Completed c (rrqOnAck j.cfg now ack c)) ∨
      j.Advances c (rrqOnAck j.cfg now ack c) (m + 1) := by
  have htotal := h.last
  rcases rrqOnAck_cases j.cfg now c ack with
    ⟨hstale, -⟩ | ⟨-, hend, heq⟩ | ⟨-, hend, hfast, heq⟩ | ⟨-, hend, -, heq⟩
  · have hlt := UInt32.lt_iff_toNat_lt.1 hstale
    omega
  · have hle := UInt32.le_iff_toNat_le.1 hend.2
    have heof := h.eof.1 hend.1
    rw [heq]
    exact .inl ⟨by omega, by simp [rrqFinish], okEnds_finish now _⟩
  · rw [heq]
    have hcand : c.s.windowLast.toNat = m := by rw [← hfast.2.2]; exact hm
    rw [← hcand]
    exact .inr (h.fast hfast.1 (congrArg (afterAck c.s) hfast.2.2) now (by omega) rfl)
  · rw [heq, ← hm]
    refine .inr (h.slow rfl now (by omega) ?_ rfl hb)
    -- the last block of the file would have ended the download
    refine Nat.lt_of_le_of_ne (by omega) fun hT => hend ⟨h.eof.2 (by omega), ?_⟩
    rw [UInt32.le_iff_toNat_le]
    omega

/-! ## Past the end of the file -/

/-- A session about to send from the end of the file, whatever its block number. -/
structure Job.AtEnd (j : Job) (s : Session) : Prop extends j.Serves s where
  state : s.state = .sendRrq
  offset : s.windowFirstOffset.toNat = j.content.length

/-- There it reads an empty block. -/
theorem Job.AtEnd.fill (h : j.AtEnd c.s) (hb : CleanBatch c.batch) {src : FileSource}
    (hsrc : src.Healthy) (hc : src.content = j.content) :
    (windowFill j.cfg c src).ok = true ∧ (windowFill j.cfg c src).last = c.s.nextBlock ∧
      (windowFill j.cfg c src).eof = true ∧ (windowFill j.cfg c src).src.Healthy ∧
      (windowFill j.cfg c src).src.content = j.content := by
  have hsmall : c.s.windowFirstOffset.toNat < 2 ^ 31 := by
    rw [h.offset]
    exact j.small
  have hblk : ([] : Bytes).length < c.s.blksize.toNat := by
    have := j.blkMin
    rw [h.blksize]
    exact Nat.lt_of_lt_of_le (by decide) this
  obtain ⟨k, hk⟩ : ∃ k, c.s.windowsize.toNat = k + 1 := by
    have := j.winMin
    exact ⟨j.w - 1, by rw [h.windowsize]; omega⟩
  have hread : (src.content.drop c.s.windowFirstOffset.toNat).take c.s.blksize.toNat = [] := by
    rw [h.offset, hc, List.drop_length, List.take_nil]
  obtain ⟨hpkt, hframe⟩ := buildData_fits h.toServes.fits j.cfg c.s.nextBlock.toUInt16
    (show ([] : Bytes).length ≤ _ from Nat.zero_le _)
  have hne : be16 TFTP_DATA ++ be16 c.s.nextBlock.toUInt16 ++ ([] : Bytes) ≠ [] := by
    simp [be16]
  have hseeked : ({ src with pos := c.s.windowFirstOffset.toNat, ops := src.ops + 1 } :
      FileSource).Healthy := ⟨hsrc.reader, hsrc.sound⟩
  have hadd : (PcapBatch.new BATCH_CAP).add
      ⟨frameTo j.cfg c.s (be16 TFTP_DATA ++ be16 c.s.nextBlock.toUInt16 ++ []), c.s.nextBlock⟩ =
      some ⟨[⟨frameTo j.cfg c.s (be16 TFTP_DATA ++ be16 c.s.nextBlock.toUInt16 ++ []),
        c.s.nextBlock⟩], BATCH_CAP⟩ := by
    refine if_neg ?_
    have hcost := cost_of_build hframe c.s.nextBlock
    have hsz : 16 + PKT_BUF_SZ ≤ BATCH_CAP := by decide
    show ¬ BATCH_CAP < 0 + _
    omega
  unfold windowFill rrqFillWindow
  rw [hsrc.seek hsmall, hk, hb]
  dsimp only
  rw [fillLoop, hseeked.read]
  dsimp only
  rw [hread, hpkt, hframe]
  dsimp only
  rw [hadd]
  dsimp only
  rw [if_pos hblk]
  exact ⟨rfl, rfl, rfl, ⟨hsrc.reader, hsrc.sound⟩, hc⟩

/-- It sends that block, and is stranded. -/
theorem Job.AtEnd.send (h : j.AtEnd c.s) (hb : CleanBatch c.batch) (now : Clock)
    (hfar : c.s.nextBlock = 0 ∨ 2 ^ 32 - 65536 ≤ c.s.nextBlock.toNat) :
    j.Stranded (rrqSendWindow j.cfg now c).s ∧
      (rrqSendWindow j.cfg now c).s.nextBlock = c.s.nextBlock := by
  obtain ⟨src, hsrc, hhealthy, hcontent⟩ := h.file
  obtain ⟨hok, hlast, heof, hsrc'⟩ := h.fill hb hhealthy hcontent
  rcases rrqSendWindow_cases j.cfg now c with ⟨hnone, -⟩ | ⟨src', hopen, ⟨hfail, -⟩ | ⟨-, heq⟩⟩
  · exact nomatch hnone.symm.trans hsrc
  · obtain rfl : src = src' := Option.some.inj (hsrc.symm.trans hopen)
    exact nomatch hok.symm.trans hfail
  obtain rfl : src = src' := Option.some.inj (hsrc.symm.trans hopen)
  rw [heq]
  unfold windowSent
  rw [rrqPrebuildNext_eof]
  · exact ⟨⟨⟨h.blksize, h.windowsize, (dataFrame_congr rfl rfl).trans h.frames, h.size,
      ⟨_, rfl, hsrc'⟩, h.queue⟩, h.state, heof, hlast, h.offset, hfar⟩, rfl⟩
  · exact heof

theorem Job.AtEnd.slow (h : j.AtEnd c.s) (hb : CleanBatch c.batch) (now : Clock)
    (hfar : c.s.nextBlock = 0 ∨ 2 ^ 32 - 65536 ≤ c.s.nextBlock.toNat) :
    j.Stranded (rrqSlowPath j.cfg now c).s ∧
      (rrqSlowPath j.cfg now c).s.nextBlock = c.s.nextBlock := by
  unfold rrqSlowPath
  generalize hd : emitSessionProgress now { c with s := { c.s with prebuiltValid := false } } = d
  have hds : d.s = { c.s with
      prebuiltValid := false, lastProgressMs := d.s.lastProgressMs } := by
    rw [← hd, emitSessionProgress_s]
  have hdb : CleanBatch d.batch := by
    rw [← hd, emitSessionProgress_batch]
    exact hb
  have hend : j.AtEnd d.s := by
    rw [hds]
    exact ⟨h.toServes.frame rfl rfl rfl rfl rfl rfl, h.state, h.offset⟩
  have hdn : d.s.nextBlock = c.s.nextBlock := by rw [hds]
  obtain ⟨hstr, hn⟩ := hend.send hdb now (by rw [hdn]; exact hfar)
  exact ⟨hstr, hn.trans hdn⟩

/-- An ACK that is taken for a block near 2^32 counts the whole file. -/
theorem Job.Regular.acked_all (h : j.Regular s) {ack : UInt16} (hw : Wraps s.windowLast ack) :
    ackedBytes s (ackCand s.windowLast ack) = s.totalBytes := by
  have hcand := ackCand_wraps hw
  have hfirst := hw.2
  have ha : ack.toNat < 65536 := ack.toNat_lt
  have hpos := h.pos
  have hnext := h.next
  have hmin := j.blkMin
  have hmax := j.blkMax
  have hoff := h.offset
  have hlen := j.offset_le (n := s.nextBlock.toNat - 1) (by have := h.le; omega)
  have hsmall := j.small
  have hdist : (ackCand s.windowLast ack + 1 - s.nextBlock).toNat =
      2 ^ 32 - 65536 + ack.toNat + 1 - s.nextBlock.toNat := by
    rw [UInt32.toNat_sub, UInt32.toNat_add, hcand]
    show (2 ^ 32 - s.nextBlock.toNat + (2 ^ 32 - 65536 + ack.toNat + 1) % 2 ^ 32) % 2 ^ 32 = _
    omega
  generalize hd : 2 ^ 32 - 65536 + ack.toNat + 1 - s.nextBlock.toNat = d at hdist
  have hlo : d * 8 ≤ d * j.b := Nat.mul_le_mul_left d hmin
  have hhi : d * j.b ≤ 2 ^ 32 * 1468 := Nat.mul_le_mul (by omega) hmax
  have hreach : (s.windowFirstOffset + (ackCand s.windowLast ack + 1 - s.nextBlock).toUInt64 *
      s.blksize.toUInt64).toNat = (s.nextBlock.toNat - 1) * j.b + d * j.b := by
    rw [UInt64.toNat_add, UInt64.toNat_mul, UInt32.toNat_toUInt64, UInt16.toNat_toUInt64, hdist,
      h.blksize]
    omega
  refine if_pos ?_
  rw [UInt64.lt_iff_toNat_lt, h.size]
  omega

/-- **An ACK past the window**, with more of the file to send: the session is stranded. -/
theorem Job.Regular.strand (h : j.Regular c.s) (hb : CleanBatch c.batch) (now : Clock)
    {ack : UInt16} (hmore : c.s.eofReached = false) (hw : Wraps c.s.windowLast ack) :
    j.Stranded (rrqOnAck j.cfg now ack c).s ∧
      (rrqOnAck j.cfg now ack c).s.nextBlock = ackCand c.s.windowLast ack + 1 ∧
      okEnds (rrqOnAck j.cfg now ack c).out = okEnds c.out := by
  have hcand := ackCand_wraps hw
  have hfirst := hw.2
  have ha : ack.toNat < 65536 := ack.toNat_lt
  have hnext := h.next
  rcases rrqOnAck_cases j.cfg now c ack with
    ⟨hstale, -⟩ | ⟨-, hend, -⟩ | ⟨-, -, hfast, -⟩ | ⟨-, -, -, heq⟩
  · have hlt := UInt32.lt_iff_toNat_lt.1 hstale
    omega
  · exact nomatch hmore.symm.trans hend.1
  · have heq := congrArg UInt32.toNat hfast.2.2
    omega
  rw [heq]
  have hend : j.AtEnd (afterAck c.s (ackCand c.s.windowLast ack)) := by
    refine ⟨h.toServes.frame rfl rfl rfl rfl rfl rfl, h.state, ?_⟩
    show (ackedBytes c.s (ackCand c.s.windowLast ack)).toNat = _
    rw [h.acked_all hw, h.size]
  have hfar : ackCand c.s.windowLast ack + 1 = 0 ∨
      2 ^ 32 - 65536 ≤ (ackCand c.s.windowLast ack + 1).toNat := by
    rw [← UInt32.toNat_inj, UInt32.toNat_add, hcand]
    show (2 ^ 32 - 65536 + ack.toNat + 1) % 2 ^ 32 = 0 ∨
      2 ^ 32 - 65536 ≤ (2 ^ 32 - 65536 + ack.toNat + 1) % 2 ^ 32
    omega
  obtain ⟨hstr, hn⟩ := Job.AtEnd.slow (c := ⟨afterAck c.s (ackCand c.s.windowLast ack), c.batch,
    c.stats, c.out⟩) hend hb now hfar
  exact ⟨hstr, hn, okEnds_slowPath j.cfg now _⟩

/-- Near 2^32 every number is taken for an earlier block. -/
theorem ackCand_far {last : UInt32} (h : 2 ^ 32 - 65536 ≤ last.toNat) (ack : UInt16) :
    ackCand last ack < last := by
  have ha : ack.toNat < 65536 := ack.toNat_lt
  have hw := toNat_withLow last ack
  have h64k : (0x10000 : UInt32).toNat = 65536 := rfl
  unfold ackCand
  by_cases h1 : last < withLow last ack
  · rw [if_pos h1, UInt32.lt_iff_toNat_lt, UInt32.toNat_sub]
    omega
  · have h2 : withLow last ack + 0x10000 ≤ last := by
      rw [UInt32.le_iff_toNat_le, UInt32.toNat_add]
      omega
    rw [if_neg h1, if_pos h2, UInt32.lt_iff_toNat_lt, UInt32.toNat_add]
    omega

/-- A stranded session ignores every ACK, unless its block number has gone round to 0: then any ACK
    completes it. -/
theorem Job.Stranded.onAck (h : j.Stranded c.s) (now : Clock) (ack : UInt16) :
    (c.s.nextBlock = 0 ∧ Completed c (rrqOnAck j.cfg now ack c)) ∨
      (c.s.nextBlock ≠ 0 ∧ rrqOnAck j.cfg now ack c = c) := by
  by_cases h0 : c.s.nextBlock = 0
  · refine .inl ⟨h0, ?_⟩
    have hlast : c.s.windowLast = 0 := h.one.trans h0
    rcases rrqOnAck_cases j.cfg now c ack with
      ⟨hstale, -⟩ | ⟨-, -, heq⟩ | ⟨-, hmore, -, -⟩ | ⟨-, hmore, -, -⟩
    · rw [h0] at hstale
      exact absurd hstale (UInt32.not_lt_zero)
    · rw [heq]
      exact ⟨by simp [rrqFinish], okEnds_finish now _⟩
    · exact absurd ⟨h.eof, by rw [hlast]; exact UInt32.zero_le⟩ hmore
    · exact absurd ⟨h.eof, by rw [hlast]; exact UInt32.zero_le⟩ hmore
  · refine .inr ⟨h0, if_pos ?_⟩
    have hfar := h.far.resolve_left h0
    rw [h.one]
    exact ackCand_far hfar ack

/-! ## Timeouts -/

theorem okEnds_tick (cfg : Config) (now : Clock) (c : Ctx) :
    okEnds (tickSlot cfg now c).out = okEnds c.out := by
  rcases tickSlot_cases cfg now c with
    ⟨-, heq⟩ | ⟨-, heq⟩ | ⟨-, -, heq⟩ | ⟨-, -, -, heq⟩ | ⟨-, -, -, heq⟩ <;> rw [heq]
  · rfl
  · show okEnds (c.out ++ [_]) = _
    rw [okEnds_append]
    exact List.append_nil _
  unfold retransmit
  cases (bumpRetrans c).s.state with
  | oackWaitAck0 => rfl
  | sendRrq => exact okEnds_sendWindow cfg now _
  | recvWrq => exact okEnds_sendTftpEx cfg _ _ _
  | free => rfl
  | done => rfl

theorem Job.Regular.tick (h : j.Regular c.s) (hb : CleanBatch c.batch) (now : Clock) :
    tickSlot j.cfg now c = c ∨ (tickSlot j.cfg now c).s.state = .free ∨
      j.Advances c (tickSlot j.cfg now c) c.s.nextBlock.toNat := by
  have hdownload : c.s.state ≠ .recvWrq := by
    rw [h.state]
    decide
  rcases tickSlot_download j.cfg now hdownload with
    ⟨-, heq⟩ | ⟨-, hst, -, -⟩ | ⟨hst, -⟩ | ⟨-, heq⟩
  · exact .inl heq
  · exact .inr (.inl hst)
  · exact nomatch h.state.symm.trans hst
  have hend : c.s.windowLast.toNat ≤ j.windowEnd c.s.nextBlock.toNat := by
    have hwidth := h.width
    have hlast := h.last
    unfold Job.windowEnd
    omega
  have hready : j.Ready (c.s.windowLast.toNat + j.w) (resending c.s) :=
    h.toReady.frame (h.toServes.frame rfl rfl rfl rfl rfl rfl) rfl rfl rfl rfl
  rw [heq]
  exact .inr (.inr (Job.Ready.advances (c := { c with s := resending c.s }) hready now
    (Nat.add_le_add_right hend _) hb hend rfl rfl))

theorem Job.Stranded.tick (h : j.Stranded c.s) (hb : CleanBatch c.batch) (now : Clock) :
    (tickSlot j.cfg now c).s.state = .free ∨ j.Stranded (tickSlot j.cfg now c).s := by
  have hdownload : c.s.state ≠ .recvWrq := by
    rw [h.state]
    decide
  rcases tickSlot_download j.cfg now hdownload with
    ⟨-, heq⟩ | ⟨-, hst, -, -⟩ | ⟨hst, -⟩ | ⟨-, heq⟩
  · rw [heq]
    exact .inr h
  · exact .inl hst
  · exact nomatch h.state.symm.trans hst
  · have hend : j.AtEnd (resending c.s) :=
      ⟨h.toServes.frame rfl rfl rfl rfl rfl rfl, h.state, h.offset⟩
    rw [heq]
    exact .inr (Job.AtEnd.send (c := { c with s := resending c.s }) hend hb now h.far).1

end Calls

end Nishro.CCore

import NishroTftp.CCore.Lifecycle
import NishroTftp.CCore.Window
import NishroTftp.Lib.Runs
/-
  The window that a download builds ahead (`rrq_prebuild_next`).

  After each window the engine reads the NEXT one into a queue of its own and marks it valid; the ACK
  of the whole window then only has to transmit that queue (the fast path of `rrq_on_ack`).  An ACK of
  a part of the window, or a timeout, drops the mark and sends from disk, after which the next window
  is built again.  Nothing empties the queue on that way: the new frames come AFTER the old ones.
-/
namespace Nishro.CCore

open Nishro.Runs
open Nishro.Wire

/-! ## What a window is made of -/

section Fill

variable (cfg : Config) (s : Session)

/-- Two windows with the same frames. -/
structure Fill.Alike (r r' : Fill) : Prop where
  ok : r.ok = r'.ok
  frames : r.batch.frames = r'.batch.frames
  last : r.last = r'.last
  eof : r.eof = r'.eof

theorem Fill.Alike.trans {r r' r'' : Fill} (h : r.Alike r') (h' : r'.Alike r'') : r.Alike r'' :=
  ⟨h.ok.trans h'.ok, h.frames.trans h'.frames, h.last.trans h'.last, h.eof.trans h'.eof⟩

theorem Fill.Alike.symm {r r' : Fill} (h : r.Alike r') : r'.Alike r :=
  ⟨h.ok.symm, h.frames.symm, h.last.symm, h.eof.symm⟩

/-- Reading leaves the file as it is. -/
theorem fillLoop_src (k : Nat) (block : UInt32) {r : Fill} (h : r.src.Healthy) :
    (fillLoop cfg s k block r).src.Healthy ∧
      (fillLoop cfg s k block r).src.content = r.src.content := by
  induction k generalizing block r with
  | zero => exact ⟨h, rfl⟩
  | succ k ih =>
    have hread : ∀ pos ops, ({ r.src with pos, ops } : FileSource).Healthy := fun _ _ =>
      ⟨h.reader, h.sound⟩
    rw [fillLoop, h.read]
    dsimp only
    split
    · exact ⟨hread _ _, rfl⟩
    split
    · exact ⟨hread _ _, rfl⟩
    · split
      · exact ⟨hread _ _, rfl⟩
      · split
        · exact ⟨hread _ _, rfl⟩
        · exact ih _ (hread _ _)

/-- What is queued depends on the content of the file and the position in it. -/
theorem fillLoop_alike (k : Nat) (block : UInt32) {r r' : Fill} (h : r.src.Healthy)
    (h' : r'.src.Healthy) (hc : r.src.content = r'.src.content) (hp : r.src.pos = r'.src.pos)
    (hok : r.ok = r'.ok) (hb : r.batch = r'.batch) (hlast : r.last = r'.last)
    (heof : r.eof = r'.eof) :
    (fillLoop cfg s k block r).Alike (fillLoop cfg s k block r') := by
  induction k generalizing block r r' with
  | zero => exact ⟨hok, congrArg _ hb, hlast, heof⟩
  | succ k ih =>
    rw [fillLoop, fillLoop, h.read, h'.read, hc, hp, hb]
    dsimp only
    split
    · exact ⟨rfl, rfl, hlast, heof⟩
    split
    · exact ⟨rfl, rfl, hlast, heof⟩
    · split
      · exact ⟨hok, rfl, hlast, heof⟩
      · split
        · exact ⟨hok, rfl, rfl, rfl⟩
        · exact ih _ ⟨h.reader, h.sound⟩ ⟨h'.reader, h'.sound⟩ rfl rfl hok rfl rfl heof

variable {src src' : FileSource}

theorem rrqFillWindow_src (h : src.Healthy) (batch : PcapBatch) (first : UInt32) (off : UInt64) :
    (rrqFillWindow cfg s batch src first off).src.Healthy ∧
      (rrqFillWindow cfg s batch src first off).src.content = src.content := by
  unfold rrqFillWindow FileSource.seek
  dsimp only
  split
  · rename_i heq
    split at heq <;> cases heq
    exact ⟨⟨h.reader, h.sound⟩, rfl⟩
  · rename_i heq
    split at heq <;> cases heq
    exact fillLoop_src cfg s _ _ ⟨h.reader, h.sound⟩

/-- Two readers of one file fill the same windows. -/
theorem rrqFillWindow_alike (h : src.Healthy) (h' : src'.Healthy)
    (hc : src.content = src'.content) (batch : PcapBatch) (first : UInt32) (off : UInt64) :
    (rrqFillWindow cfg s batch src first off).Alike (rrqFillWindow cfg s batch src' first off) := by
  unfold rrqFillWindow
  by_cases hoff : off.toNat % 2 ^ 32 < 2 ^ 31
  · rw [show src.seek off = _ from if_pos ⟨h.sound _, hoff⟩,
      show src'.seek off = _ from if_pos ⟨h'.sound _, hoff⟩]
    exact fillLoop_alike cfg s _ _ ⟨h.reader, h.sound⟩ ⟨h'.reader, h'.sound⟩ hc rfl rfl rfl rfl rfl
  · rw [show src.seek off = _ from if_neg fun hx => hoff hx.2,
      show src'.seek off = _ from if_neg fun hx => hoff hx.2]
    exact ⟨rfl, rfl, rfl, rfl⟩

/-- The frames that the loop queues are for consecutive blocks, and `last` is the last of them. -/
structure Consecutive (first before : UInt32) (fs : List QueuedFrame) (last : UInt32) : Prop where
  block : ∀ j q, fs[j]? = some q → q.block = first + UInt32.ofNat j
  last : last = if fs = [] then before else first + UInt32.ofNat (fs.length - 1)
  small : ∀ q ∈ fs, PcapBatch.cost q ≤ 16 + PKT_BUF_SZ

theorem consecutive_nil (block before : UInt32) : Consecutive block before [] before :=
  ⟨fun _ _ h => by simp at h, rfl, fun _ h => by simp at h⟩

theorem consecutive_cons {block before last : UInt32} {q : QueuedFrame} {fs : List QueuedFrame}
    (hq : q.block = block) (hsmall : PcapBatch.cost q ≤ 16 + PKT_BUF_SZ)
    (h : Consecutive (block + 1) block fs last) : Consecutive block before (q :: fs) last := by
  have hshift : ∀ j, block + 1 + UInt32.ofNat j = block + UInt32.ofNat (j + 1) := by
    intro j
    rw [UInt32.ofNat_add, UInt32.add_assoc, UInt32.add_comm 1]
    rfl
  refine ⟨fun j p hp => ?_, ?_, fun p hp => ?_⟩
  · cases j with
    | zero =>
      obtain rfl : q = p := by simpa using hp
      rw [hq]
      exact (UInt32.add_zero block).symm
    | succ j => rw [h.block j p (by simpa using hp), hshift]
  · rw [h.last, if_neg (List.cons_ne_nil q fs), List.length_cons, Nat.add_sub_cancel]
    cases fs with
    | nil => exact (UInt32.add_zero block).symm
    | cons p fs =>
      rw [if_neg (List.cons_ne_nil p fs), hshift]
      rfl
  · rcases List.mem_cons.1 hp with rfl | hp
    · exact hsmall
    · exact h.small p hp

theorem fillLoop_consecutive (k : Nat) (block : UInt32) (r : Fill) :
    ∃ fs, (fillLoop cfg s k block r).batch.frames = r.batch.frames ++ fs ∧ fs.length ≤ k ∧
      Consecutive block r.last fs (fillLoop cfg s k block r).last := by
  induction k generalizing block r with
  | zero => exact ⟨[], (List.append_nil _).symm, Nat.le_refl 0, consecutive_nil _ _⟩
  | succ k ih =>
    rcases fillLoop_cases cfg s k block r with h | ⟨data, src, frame, -, -, -, h⟩ |
      ⟨data, src, frame, batch, -, hframe, hadd, ⟨-, h⟩ | ⟨-, h⟩⟩
    · exact ⟨[], by rw [h, List.append_nil], Nat.zero_le _, by rw [h]; exact consecutive_nil _ _⟩
    · exact ⟨[], by rw [h, List.append_nil], Nat.zero_le _, by rw [h]; exact consecutive_nil _ _⟩
    · refine ⟨[⟨frame, block⟩], by rw [h, PcapBatch.add_eq_some hadd], Nat.succ_le_succ k.zero_le, ?_⟩
      rw [h]
      exact consecutive_cons rfl (cost_of_build hframe block) (consecutive_nil _ _)
    rw [h]
    obtain ⟨fs, hfs, hlen, hcons⟩ := ih (block + 1)
      ⟨r.ok, batch, src, block, r.endOffset + UInt64.ofNat data.length, r.eof⟩
    refine ⟨⟨frame, block⟩ :: fs, hfs.trans ?_, Nat.succ_le_succ hlen,
      consecutive_cons rfl (cost_of_build hframe block) hcons⟩
    rw [PcapBatch.add_eq_some hadd, List.append_assoc]
    rfl

/-- `last` before anything is queued. -/
def blockBefore (first : UInt32) : UInt32 := if first = 0 then 0 else first - 1

theorem rrqFillWindow_consecutive (batch : PcapBatch) (src : FileSource) (first : UInt32)
    (off : UInt64) :
    ∃ fs, (rrqFillWindow cfg s batch src first off).batch.frames = batch.frames ++ fs ∧
      fs.length ≤ s.windowsize.toNat ∧
      Consecutive first (blockBefore first) fs (rrqFillWindow cfg s batch src first off).last := by
  unfold rrqFillWindow
  dsimp only
  split
  · exact ⟨[], (List.append_nil _).symm, Nat.zero_le _, consecutive_nil _ _⟩
  · exact fillLoop_consecutive cfg s _ first _

/-- Whoever finds the frames of one window in a queue, and its last block noted, finds nothing before
    them. -/
theorem queue_was_empty {batch : PcapBatch} (hcap : batch.cap = BATCH_CAP) {src src' : FileSource}
    {first : UInt32} {off off' : UInt64}
    (hok : (rrqFillWindow cfg s batch src first off).ok = true)
    (hframes : (rrqFillWindow cfg s batch src first off).batch.frames =
      (rrqFillWindow cfg s (.new BATCH_CAP) src' first off').batch.frames)
    (hlast : (rrqFillWindow cfg s batch src first off).last =
      (rrqFillWindow cfg s (.new BATCH_CAP) src' first off').last) : batch.frames = [] := by
  obtain ⟨fs, hfs, -, hnew⟩ := rrqFillWindow_consecutive cfg s batch src first off
  obtain ⟨gs, hgs, hlen, hall⟩ := rrqFillWindow_consecutive cfg s (.new BATCH_CAP) src' first off'
  have hsum : batch.frames ++ fs = gs := (hfs.symm.trans hframes).trans hgs
  have hw : s.windowsize.toNat < 256 := s.windowsize.toNat_lt
  have hj : batch.frames.length < 256 := by
    have := congrArg List.length hsum
    rw [List.length_append] at this
    omega
  by_contra hne
  have hpos := List.length_pos_iff.2 hne
  cases fs with
  | cons q fs =>
    -- the first of the new frames is for `first`, and stands further back
    have hat : gs[batch.frames.length]? = some q := by
      rw [← hsum, List.getElem?_append_right (Nat.le_refl _), Nat.sub_self]
      rfl
    have h0 := (hnew.block 0 q rfl).symm.trans (hall.block _ q hat)
    have h1 := congrArg UInt32.toNat ((UInt32.add_right_inj first).1 h0)
    rw [UInt32.toNat_ofNat', UInt32.toNat_ofNat'] at h1
    omega
  | nil =>
    rw [List.append_nil] at hsum
    subst hsum
    have h0 := (hnew.last.symm.trans hlast).trans hall.last
    rw [if_pos rfl, if_neg hne] at h0
    unfold blockBefore at h0
    by_cases hfirst : first = 0
    · -- only after 2^32 blocks: then there is one frame in the queue, and room for another
      rw [hfirst, UInt32.zero_add] at h0
      have h1 := congrArg UInt32.toNat h0
      rw [UInt32.toNat_ofNat'] at h1
      have hone : batch.frames.length = 1 := by
        change 0 = _ at h1
        omega
      obtain ⟨q, hq⟩ := List.length_eq_one_iff.1 hone
      have hroom : batch.len + (16 + PKT_BUF_SZ) ≤ batch.cap := by
        have hcost := hall.small q (by rw [hq]; exact List.mem_singleton_self q)
        have hsz : PKT_BUF_SZ = 2048 := rfl
        have hbig : BATCH_CAP = 131072 := rfl
        unfold PcapBatch.len
        rw [hq, hcap]
        simp only [List.map_cons, List.map_nil, List.sum_cons, List.sum_nil]
        omega
      have hw0 : s.windowsize ≠ 0 := fun h => by
        rw [h] at hlen
        exact absurd (Nat.le_zero.1 hlen) (Nat.ne_of_gt hpos)
      obtain ⟨q', fs', hgrow⟩ := rrqFillWindow_grows cfg hw0 hroom src first off hok
      rw [hfs, List.append_nil] at hgrow
      have := congrArg List.length hgrow
      rw [List.length_append, List.length_cons] at this
      omega
    · have h1 := congrArg UInt32.toNat h0
      have hne0 : first.toNat ≠ 0 := fun h => hfirst (UInt32.toNat_inj.1 h)
      have hle : (1 : UInt32) ≤ first := UInt32.le_iff_toNat_le.2 (Nat.pos_of_ne_zero hne0)
      rw [if_neg hfirst, UInt32.toNat_sub_of_le _ _ hle, UInt32.toNat_add, UInt32.toNat_ofNat'] at h1
      change first.toNat - 1 = _ at h1
      omega

end Fill

/-! ## What the queue ought to hold -/

/-- The DATA frames among what was written. -/
def dataFrames (os : List Output) : List QueuedFrame := os.filterMap fun
  | .data q => some q
  | _ => none

/-- `window_last * blksize`. -/
def windowEnd (s : Session) : UInt64 := s.windowLast.toUInt64 * s.blksize.toUInt64

/-- The window after the current one, read from disk at `off` into an empty queue. -/
def nextWindow (cfg : Config) (s : Session) (src : FileSource) (off : UInt64) : Fill :=
  rrqFillWindow cfg s (.new BATCH_CAP) src (s.windowLast + 1) off

/-- The queue holds the frames of the next window. -/
def QueueExact (cfg : Config) (s : Session) : Prop :=
  ∀ src pb, s.src = some src → s.prebuilt = some pb →
    pb.frames = (nextWindow cfg s src (windowEnd s)).batch.frames ∧
      s.prebuiltLastBlock = (nextWindow cfg s src (windowEnd s)).last

/-- Two outcomes with the same window on its way. -/
structure SameWindow (c c' : Ctx) : Prop where
  state : c.s.state = c'.s.state
  next : c.s.nextBlock = c'.s.nextBlock
  last : c.s.windowLast = c'.s.windowLast
  eof : c.s.eofReached = c'.s.eofReached
  offset : c.s.windowFirstOffset = c'.s.windowFirstOffset
  frames : dataFrames c.out = dataFrames c'.out

/-- The ACK of the whole window does what it would do with the queue not valid. -/
def FastIsSlow (cfg : Config) (s : Session) : Prop :=
  ∀ (now : Clock) (ack : UInt16) (c : Ctx), c.s = s → CleanBatch c.batch →
    ackCand s.windowLast ack = s.windowLast →
    SameWindow (rrqOnAck cfg now ack c)
      (rrqOnAck cfg now ack { c with s := { s with prebuiltValid := false } })

/-- The window built ahead by a download is the one it would read from disk. -/
def PrebuiltExact (cfg : Config) (s : Session) : Prop :=
  s.state = .sendRrq → s.prebuiltValid = true → QueueExact cfg s ∧ FastIsSlow cfg s

/-! ## When it does -/

/-- Where `rrq_prebuild_next` reads from. -/
def prebuildOffset (s : Session) : UInt64 :=
  s.windowFirstOffset + (s.windowLast + 1 - s.nextBlock).toUInt64 * s.blksize.toUInt64

/-- `rrq_prebuild_next` builds a window. -/
structure Prebuilds (cfg : Config) (s : Session) (src : FileSource) (pb : PcapBatch) : Prop where
  file : s.src = some src
  queue : s.prebuilt = some pb
  more : s.eofReached = false
  ok : (rrqFillWindow cfg s pb src (s.windowLast + 1) (prebuildOffset s)).ok = true

/-- What is read there is what is read at the end of the window, and at the number of bytes that the
    ACK of the window will acknowledge. -/
structure Placed (cfg : Config) (s : Session) (src : FileSource) : Prop where
  frames : (nextWindow cfg s src (prebuildOffset s)).batch.frames =
    (nextWindow cfg s src (windowEnd s)).batch.frames
  last : (nextWindow cfg s src (prebuildOffset s)).last = (nextWindow cfg s src (windowEnd s)).last
  acked : s.nextBlock ≤ s.windowLast → (∃ ack, ackCand s.windowLast ack = s.windowLast) →
    (nextWindow cfg s src (prebuildOffset s)).Alike
      (nextWindow cfg s src (ackedBytes s s.windowLast))

/-- The place is right if it is the end of the window and within the size of the file. -/
theorem placed_of_offset (cfg : Config) {s : Session} (src : FileSource)
    (hoff : prebuildOffset s = windowEnd s) (hsize : windowEnd s ≤ s.totalBytes) :
    Placed cfg s src := by
  have hacked : ackedBytes s s.windowLast = prebuildOffset s := by
    refine if_neg (UInt64.not_lt.2 ?_)
    show prebuildOffset s ≤ _
    rw [hoff]
    exact hsize
  refine ⟨by rw [hoff], by rw [hoff], fun _ _ => ?_⟩
  rw [hacked]
  exact ⟨rfl, rfl, rfl, rfl⟩

/-- A window is built into an EMPTY queue, and read from the right place. -/
def CleanPrebuild (cfg : Config) (s : Session) : Prop :=
  ∀ src pb, Prebuilds cfg s src pb → pb.frames = [] ∧ Placed cfg s src

/-- The session once a window is built ahead. -/
def withPrebuilt (s : Session) (r : Fill) : Session :=
  { s with
    src := some r.src
    prebuilt := some r.batch
    prebuiltFirstBlock := s.windowLast + 1
    prebuiltLastBlock := r.last
    prebuiltFirstOffset := prebuildOffset s
    prebuiltEndOffset := r.endOffset
    prebuiltEof := r.eof
    prebuiltValid := true }

section Prebuild

variable (cfg : Config) {s : Session}

/-- There is nothing to build or nothing to build it in, the file cannot be read, or a window is built
    ahead. -/
theorem rrqPrebuildNext_cases (s : Session) :
    ((s.src = none ∨ s.prebuilt = none ∨ s.eofReached = true) ∧ rrqPrebuildNext cfg s = s) ∨
    (∃ src pb, (s.src = some src ∧ s.prebuilt = some pb ∧ s.eofReached = false) ∧
      let r := rrqFillWindow cfg s pb src (s.windowLast + 1) (prebuildOffset s)
      r.ok = false ∧ rrqPrebuildNext cfg s =
        { s with src := some r.src, prebuilt := some r.batch, prebuiltValid := false }) ∨
    ∃ src pb, Prebuilds cfg s src pb ∧ rrqPrebuildNext cfg s =
      withPrebuilt s (rrqFillWindow cfg s pb src (s.windowLast + 1) (prebuildOffset s)) := by
  unfold rrqPrebuildNext
  cases hsrc : s.src with
  | none => exact .inl ⟨.inl rfl, rfl⟩
  | some src =>
    cases hpb : s.prebuilt with
    | none => exact .inl ⟨.inr (.inl rfl), rfl⟩
    | some pb =>
      dsimp only
      by_cases heof : s.eofReached = true
      · exact .inl ⟨.inr (.inr heof), if_pos heof⟩
      rw [if_neg heof]
      cases hok : (rrqFillWindow cfg s pb src (s.windowLast + 1) (prebuildOffset s)).ok with
      | false =>
        refine .inr (.inl ⟨src, pb, ⟨rfl, rfl, by simpa using heof⟩, hok, ?_⟩)
        unfold prebuildOffset at hok
        rw [hok]
        rfl
      | true =>
        refine .inr (.inr ⟨src, pb, ⟨hsrc, hpb, by simpa using heof, hok⟩, ?_⟩)
        unfold prebuildOffset at hok
        rw [hok]
        rfl

/-- After the last window of the file there is none. -/
theorem rrqPrebuildNext_eof (h : s.eofReached = true) : rrqPrebuildNext cfg s = s := by
  rcases rrqPrebuildNext_cases cfg s with ⟨-, heq⟩ | ⟨_, _, ⟨-, -, hmore⟩, -⟩ | ⟨_, _, hbuilds, -⟩
  · exact heq
  · exact nomatch h.symm.trans hmore
  · exact nomatch h.symm.trans hbuilds.more

variable {src : FileSource}

/-- Reading the next window after it was built ahead is reading it before. -/
theorem nextWindow_withPrebuilt {r : Fill} (hr : r.src.Healthy) (hsrc : src.Healthy)
    (hc : r.src.content = src.content) (off : UInt64) :
    (nextWindow cfg (withPrebuilt s r) r.src off).Alike (nextWindow cfg s src off) := by
  have hsame : ∀ batch first, rrqFillWindow cfg (withPrebuilt s r) batch r.src first off =
      rrqFillWindow cfg s batch r.src first off := by
    intro batch first
    apply rrqFillWindow_congr <;> rfl
  unfold nextWindow
  rw [hsame]
  exact rrqFillWindow_alike cfg s hr hsrc hc _ _ _

theorem queueExact_withPrebuilt {r : Fill} (hr : r.src.Healthy) (hsrc : src.Healthy)
    (hc : r.src.content = src.content) :
    QueueExact cfg (withPrebuilt s r) ↔
      r.batch.frames = (nextWindow cfg s src (windowEnd s)).batch.frames ∧
        r.last = (nextWindow cfg s src (windowEnd s)).last := by
  have halike := nextWindow_withPrebuilt cfg (s := s) hr hsrc hc (windowEnd s)
  constructor
  · intro h
    obtain ⟨h1, h2⟩ := h r.src r.batch rfl rfl
    exact ⟨h1.trans halike.frames, h2.trans halike.last⟩
  · rintro ⟨h1, h2⟩ src' pb hsrc' hpb
    obtain rfl := Option.some.inj hsrc'
    obtain rfl := Option.some.inj hpb
    exact ⟨h1.trans halike.frames.symm, h2.trans halike.last.symm⟩

@[simp] theorem dataFrames_append (os os' : List Output) :
    dataFrames (os ++ os') = dataFrames os ++ dataFrames os' :=
  List.filterMap_append

@[simp] theorem dataFrames_data (fs : List QueuedFrame) : dataFrames (fs.map .data) = fs := by
  simp [dataFrames, List.filterMap_map]

theorem dataFrames_sendTftpEx (payload : Bytes) (count : Bool) (c : Ctx) :
    dataFrames (sendTftpEx cfg payload count c).out = dataFrames c.out := by
  unfold sendTftpEx
  split
  · rfl
  · exact (dataFrames_append _ _).trans (List.append_nil _)

theorem dataFrames_progress (now : Clock) (c : Ctx) :
    dataFrames (emitSessionProgress now c).out = dataFrames c.out := by
  rw [emitSessionProgress_eq, dataFrames_append]
  split <;> exact List.append_nil _

/-- A window goes out: `fs`, up to block `last`. -/
structure Sends (c c' : Ctx) (last : UInt32) (eof : Bool) (fs : List QueuedFrame) : Prop where
  state : c'.s.state = c.s.state
  next : c'.s.nextBlock = c.s.nextBlock
  last : c'.s.windowLast = last
  eof : c'.s.eofReached = eof
  offset : c'.s.windowFirstOffset = c.s.windowFirstOffset
  frames : dataFrames c'.out = dataFrames c.out ++ fs

/-- The fast path sends what is queued. -/
theorem fastPath_sends (now : Clock) {c : Ctx} {pb : PcapBatch} (hpb : c.s.prebuilt = some pb) :
    Sends c (rrqFastPath cfg now c) c.s.prebuiltLastBlock c.s.prebuiltEof pb.frames := by
  have hout : dataFrames (rrqFastPath cfg now c).out = dataFrames c.out ++ pb.frames := by
    refine (dataFrames_progress now _).trans ?_
    rw [dataFrames_append, dataFrames_data, hpb]
    rfl
  unfold rrqFastPath
  dsimp only
  obtain ⟨_, _, _, _, _, _, _, _, h⟩ := rrqPrebuildNext_frame cfg _
  rw [h, emitSessionProgress_s]
  exact ⟨rfl, rfl, rfl, rfl, rfl, hout⟩

/-- From disk, a window is sent as it is read. -/
theorem sendWindow_sends (now : Clock) {c : Ctx} (hsrc : c.s.src = some src)
    (hok : (windowFill cfg c src).ok = true) :
    Sends c (rrqSendWindow cfg now c) (windowFill cfg c src).last (windowFill cfg c src).eof
      (windowFill cfg c src).batch.frames := by
  rcases rrqSendWindow_cases cfg now c with ⟨hnone, -⟩ | ⟨src', hsrc', ⟨hfail, -⟩ | ⟨-, h⟩⟩
  · cases hnone.symm.trans hsrc
  · obtain rfl : src = src' := Option.some.inj (hsrc.symm.trans hsrc')
    exact nomatch hok.symm.trans hfail
  obtain rfl : src = src' := Option.some.inj (hsrc.symm.trans hsrc')
  have hout : dataFrames (rrqSendWindow cfg now c).out =
      dataFrames c.out ++ (windowFill cfg c src).batch.frames := by
    rw [h]
    show dataFrames (c.out ++ _) = _
    rw [dataFrames_append, dataFrames_data]
  rw [h] at hout ⊢
  unfold windowSent at hout ⊢
  obtain ⟨_, _, _, _, _, _, _, _, h'⟩ := rrqPrebuildNext_frame cfg _
  rw [h'] at hout ⊢
  exact ⟨rfl, rfl, rfl, rfl, rfl, hout⟩

theorem sendWindow_done (now : Clock) {c : Ctx} (hsrc : c.s.src = some src)
    (hok : (windowFill cfg c src).ok = false) : (rrqSendWindow cfg now c).s.state = .done := by
  rcases rrqSendWindow_cases cfg now c with ⟨hnone, -⟩ | ⟨src', hsrc', ⟨-, h⟩ | ⟨hfine, -⟩⟩
  · cases hnone.symm.trans hsrc
  · rw [h]
    simp [windowFailed]
  · obtain rfl : src = src' := Option.some.inj (hsrc.symm.trans hsrc')
    cases hok.symm.trans hfine

/-- Two windows that go out from the same place are the same if their frames are. -/
theorem sameWindow_iff {c d c' d' : Ctx} {last last' : UInt32} {eof eof' : Bool}
    {fs fs' : List QueuedFrame} (h : Sends c d last eof fs) (h' : Sends c' d' last' eof' fs')
    (hstate : c.s.state = c'.s.state) (hnext : c.s.nextBlock = c'.s.nextBlock)
    (hoff : c.s.windowFirstOffset = c'.s.windowFirstOffset)
    (hout : dataFrames c.out = dataFrames c'.out) :
    SameWindow d d' ↔ last = last' ∧ eof = eof' ∧ fs = fs' := by
  constructor
  · intro hs
    refine ⟨h.last.symm.trans (hs.last.trans h'.last), h.eof.symm.trans (hs.eof.trans h'.eof), ?_⟩
    have hframes := h.frames.symm.trans (hs.frames.trans h'.frames)
    rw [hout] at hframes
    exact List.append_cancel_left hframes
  · rintro ⟨rfl, rfl, rfl⟩
    exact ⟨h.state.trans (hstate.trans h'.state.symm), h.next.trans (hnext.trans h'.next.symm),
      h.last.trans h'.last.symm, h.eof.trans h'.eof.symm, h.offset.trans (hoff.trans h'.offset.symm),
      h.frames.trans (by rw [hout, h'.frames])⟩

/-- The session once block `cand` is acknowledged, and once the window is. -/
def afterAck (s : Session) (cand : UInt32) : Session :=
  ackAdvance cand { s with bytesDone := ackedBytes s cand }

def fullyAcked (s : Session) : Session := afterAck s s.windowLast

/-- The ACK of a window that is not the last: by the fast path if the next one is there. -/
theorem onAck_full (now : Clock) {c : Ctx} {ack : UInt16}
    (hack : ackCand c.s.windowLast ack = c.s.windowLast) (hle : c.s.nextBlock ≤ c.s.windowLast)
    (hmore : c.s.eofReached = false) :
    rrqOnAck cfg now ack c =
      if c.s.prebuiltValid = true ∧ c.s.prebuiltFirstBlock = c.s.windowLast + 1 then
        rrqFastPath cfg now { c with s := fullyAcked c.s }
      else rrqSlowPath cfg now { c with s := fullyAcked c.s } := by
  have hcases := rrqOnAck_cases cfg now c ack
  rw [hack] at hcases
  rcases hcases with ⟨hlt, -⟩ | ⟨-, hend, -⟩ | ⟨-, -, hfast, h⟩ | ⟨-, -, hslow, h⟩
  · exact absurd hlt (UInt32.not_lt.2 hle)
  · exact nomatch hmore.symm.trans hend.1
  · rw [h, if_pos ⟨hfast.1, hfast.2.1⟩]
    rfl
  · rw [h, if_neg fun hf => hslow ⟨hf.1, hf.2, rfl⟩]
    rfl

/-- What is read for a session that has come to the next window. -/
theorem windowFill_alike {c : Ctx} {src src' : FileSource} {off : UInt64} (hb : CleanBatch c.batch)
    (h' : src'.Healthy) (h : src.Healthy) (hc : src'.content = src.content)
    (hblk : c.s.blksize = s.blksize) (hws : c.s.windowsize = s.windowsize)
    (hto : frameTo cfg c.s = frameTo cfg s) (hnext : c.s.nextBlock = s.windowLast + 1)
    (hoff : c.s.windowFirstOffset = off) :
    (windowFill cfg c src').Alike (nextWindow cfg s src off) := by
  unfold windowFill nextWindow
  rw [rrqFillWindow_congr hblk hws hto, hb, hnext, hoff]
  exact rrqFillWindow_alike cfg s h' h hc _ _ _

section

variable {r : Fill} (hst : s.state = .sendRrq) (hmore : s.eofReached = false) (hok : r.ok = true)
  (hr : r.src.Healthy) (hsrc : src.Healthy) (hc : r.src.content = src.content)
include hst hmore hok hr hsrc hc

/-- With more of the window to acknowledge, the two paths are the same if the two windows are. -/
theorem sameWindow_withPrebuilt
    (hle : s.nextBlock ≤ s.windowLast) (now : Clock) {ack : UInt16}
    (hack : ackCand s.windowLast ack = s.windowLast) {c : Ctx} (hcs : c.s = withPrebuilt s r)
    (hb : CleanBatch c.batch) :
    SameWindow (rrqOnAck cfg now ack c)
        (rrqOnAck cfg now ack { c with s := { withPrebuilt s r with prebuiltValid := false } }) ↔
      r.Alike (nextWindow cfg s src (ackedBytes s s.windowLast)) := by
  obtain ⟨s', batch, stats, out⟩ := c
  subst hcs
  have hfast : rrqOnAck cfg now ack ⟨withPrebuilt s r, batch, stats, out⟩ =
      rrqFastPath cfg now ⟨fullyAcked (withPrebuilt s r), batch, stats, out⟩ :=
    (onAck_full cfg now hack hle hmore).trans (if_pos ⟨rfl, rfl⟩)
  have hslow : rrqOnAck cfg now ack
        ⟨{ withPrebuilt s r with prebuiltValid := false }, batch, stats, out⟩ =
      rrqSlowPath cfg now
        ⟨fullyAcked { withPrebuilt s r with prebuiltValid := false }, batch, stats, out⟩ :=
    (onAck_full cfg now hack hle hmore).trans (if_neg fun h => nomatch h.1)
  rw [hfast, hslow]
  unfold rrqSlowPath
  have hsends := fastPath_sends cfg now (c := ⟨fullyAcked (withPrebuilt s r), batch, stats, out⟩)
    (show _ = some r.batch from rfl)
  generalize hd : emitSessionProgress now ⟨{ fullyAcked { withPrebuilt s r with
    prebuiltValid := false } with prebuiltValid := false }, batch, stats, out⟩ = d
  have hds : d.s = { fullyAcked { withPrebuilt s r with prebuiltValid := false } with
      prebuiltValid := false, lastProgressMs := d.s.lastProgressMs } := by
    rw [← hd, emitSessionProgress_s]
  have hdout : dataFrames d.out = dataFrames out := by
    rw [← hd, dataFrames_progress]
  have hdb : CleanBatch d.batch := by
    rw [← hd, emitSessionProgress_batch]
    exact hb
  have halike : (windowFill cfg d r.src).Alike (nextWindow cfg s src (ackedBytes s s.windowLast)) := by
    apply windowFill_alike cfg hdb hr hsrc hc <;> rw [hds] <;> rfl
  have hdsrc : d.s.src = some r.src := by
    rw [hds]
    rfl
  cases hfill : (windowFill cfg d r.src).ok with
  | false =>
    have hdone := sendWindow_done cfg now hdsrc hfill
    refine ⟨fun h => ?_, fun h => ?_⟩
    · exact nomatch (hst.symm.trans (hsends.state.symm.trans h.state)).trans hdone
    · exact nomatch (hok.symm.trans (h.ok.trans halike.ok.symm)).trans hfill
  | true =>
    rw [sameWindow_iff hsends (sendWindow_sends cfg now hdsrc hfill) (by rw [hds]; rfl)
      (by rw [hds]; rfl) (by rw [hds]; rfl) hdout.symm]
    constructor
    · rintro ⟨h1, h2, h3⟩
      have h : r.Alike (windowFill cfg d r.src) := ⟨hok.trans hfill.symm, h3, h1, h2⟩
      exact h.trans halike
    · intro h
      have h := h.trans halike.symm
      exact ⟨h.last, h.eof, h.frames⟩

/-- The fast path is the slow path if the window built ahead is the one that is next, as far as the
    ACK will have counted. -/
theorem fastIsSlow_withPrebuilt :
    FastIsSlow cfg (withPrebuilt s r) ↔
      (s.nextBlock ≤ s.windowLast → (∃ ack, ackCand s.windowLast ack = s.windowLast) →
        r.Alike (nextWindow cfg s src (ackedBytes s s.windowLast))) := by
  constructor
  · rintro h hle ⟨ack, hack⟩
    exact (sameWindow_withPrebuilt cfg hst hmore hok hr hsrc hc hle clock0 hack
      (c := ⟨withPrebuilt s r, .new BATCH_CAP, {}, []⟩) rfl rfl).1 (h _ _ _ rfl rfl hack)
  intro h now ack c hcs hb hack
  by_cases hle : s.nextBlock ≤ s.windowLast
  · exact (sameWindow_withPrebuilt cfg hst hmore hok hr hsrc hc hle now hack hcs hb).2
      (h hle ⟨ack, hack⟩)
  -- nothing of the window is left to acknowledge: both ignore the ACK
  have hlt : s.windowLast < s.nextBlock := UInt32.not_le.1 hle
  have hstale : ∀ c : Ctx, c.s.windowLast = s.windowLast → c.s.nextBlock = s.nextBlock →
      rrqOnAck cfg now ack c = c := by
    intro c h1 h2
    refine if_pos ?_
    rw [h1, h2, show ackCand s.windowLast ack = s.windowLast from hack]
    exact hlt
  rw [hstale c (by rw [hcs]; rfl) (by rw [hcs]; rfl), hstale _ rfl rfl]
  exact ⟨by rw [hcs], by rw [hcs], by rw [hcs], by rw [hcs], by rw [hcs], rfl⟩

end

/-- **One prebuild.**  What `rrq_prebuild_next` leaves is exact if and only if it found its queue empty
    and read from the right place. -/
theorem prebuildNext_exact_iff (hst : s.state = .sendRrq) (hv : s.prebuiltValid = false)
    (hsrc : ∀ src, s.src = some src → src.Healthy)
    (hcap : ∀ pb, s.prebuilt = some pb → pb.cap = BATCH_CAP) :
    PrebuiltExact cfg (rrqPrebuildNext cfg s) ↔ CleanPrebuild cfg s := by
  rcases rrqPrebuildNext_cases cfg s with ⟨hnone, heq⟩ | ⟨src, pb, ⟨hfile, hpb, -⟩, hfail, heq⟩ |
    ⟨src, pb, hbuilds, heq⟩
  · rw [heq]
    refine ⟨fun _ src pb h => ?_, fun _ _ h => nomatch hv.symm.trans h⟩
    rcases hnone with hnone | hnone | hnone
    · exact nomatch h.file.symm.trans hnone
    · exact nomatch h.queue.symm.trans hnone
    · exact nomatch h.more.symm.trans hnone
  · rw [heq]
    refine ⟨fun _ src' pb' h => ?_, fun _ _ h => nomatch h⟩
    obtain rfl : src = src' := Option.some.inj (hfile.symm.trans h.file)
    obtain rfl : pb = pb' := Option.some.inj (hpb.symm.trans h.queue)
    exact nomatch h.ok.symm.trans hfail
  · have hsrc := hsrc src hbuilds.file
    have hcap := hcap pb hbuilds.queue
    obtain ⟨hr, hc⟩ := rrqFillWindow_src cfg s hsrc pb (s.windowLast + 1) (prebuildOffset s)
    have hqueue := queueExact_withPrebuilt cfg (s := s) hr hsrc hc
    have hpaths := fastIsSlow_withPrebuilt cfg hst hbuilds.more hbuilds.ok hr hsrc hc
    have hnew : pb.frames = [] → rrqFillWindow cfg s pb src (s.windowLast + 1) (prebuildOffset s) =
        nextWindow cfg s src (prebuildOffset s) := by
      intro h
      have hpb : pb = .new BATCH_CAP := by
        exact congrArg₂ PcapBatch.mk h hcap
      rw [hpb]
      rfl
    have hexact : PrebuiltExact cfg (rrqPrebuildNext cfg s) ↔
        QueueExact cfg (rrqPrebuildNext cfg s) ∧ FastIsSlow cfg (rrqPrebuildNext cfg s) := by
      refine ⟨fun h => h ?_ ?_, fun h _ _ => h⟩
      · rw [rrqPrebuildNext_state, hst]
      · rw [heq]
        rfl
    rw [hexact, heq, hqueue, hpaths]
    constructor
    · rintro ⟨⟨hframes, hlast⟩, hacked⟩ src' pb' h
      obtain rfl : src = src' := Option.some.inj (hbuilds.file.symm.trans h.file)
      obtain rfl : pb = pb' := Option.some.inj (hbuilds.queue.symm.trans h.queue)
      have hempty : pb.frames = [] := queue_was_empty cfg s hcap hbuilds.ok hframes hlast
      rw [hnew hempty] at hframes hlast hacked
      exact ⟨hempty, hframes, hlast, hacked⟩
    · intro h
      obtain ⟨hempty, hplaced⟩ := h src pb hbuilds
      rw [hnew hempty]
      exact ⟨⟨hplaced.frames, hplaced.last⟩, hplaced.acked⟩

end Prebuild

end Nishro.CCore

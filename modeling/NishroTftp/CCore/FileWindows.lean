import NishroTftp.CCore.Prebuilt
import NishroTftp.Lib.Blocks
/-
  The windows of a file that can be read, block by block.

  `rrq_fill_window`, sent to block `n` of such a file, queues the blocks `n, n + 1, …, q` of it: up to
  the window size, up to the block the file ends with, and as far as the queue takes them.
-/
namespace Nishro.CCore

open Nishro.Blocks
open Nishro.Wire

/-- The frame for block `n` of a file. -/
def dataFrame (cfg : Config) (s : Session) (content : Bytes) (n : Nat) : QueuedFrame :=
  ⟨frameTo cfg s (be16 TFTP_DATA ++ be16 (UInt32.ofNat n).toUInt16 ++
    block content s.blksize.toNat n), UInt32.ofNat n⟩

/-- The frames for `count` blocks from `n` on. -/
def dataRange (cfg : Config) (s : Session) (content : Bytes) (n count : Nat) : List QueuedFrame :=
  (List.range' n count).map (dataFrame cfg s content)

/-- The number of blocks of the file of a session. -/
def Session.blocks (s : Session) (content : Bytes) : Nat :=
  blockCount content.length s.blksize.toNat

section Frames

variable {cfg : Config} {s s' : Session} {content : Bytes}

theorem dataFrame_congr (hb : s'.blksize = s.blksize) (hf : frameTo cfg s' = frameTo cfg s) :
    dataFrame cfg s' content = dataFrame cfg s content := by
  funext n
  rw [dataFrame, dataFrame, hb, hf]

theorem dataRange_cons (n count : Nat) :
    dataRange cfg s content n (count + 1) =
      dataFrame cfg s content n :: dataRange cfg s content (n + 1) count := by
  unfold dataRange
  rw [List.range'_succ, List.map_cons]

theorem cost_dataFrame (n : Nat) :
    PcapBatch.cost (dataFrame cfg s content n) ≤ 66 + s.blksize.toNat := by
  have hlen : (block content s.blksize.toNat n).length ≤ s.blksize.toNat := by
    rw [length_block]
    exact Nat.min_le_left _ _
  have hpay : (be16 TFTP_DATA ++ be16 (UInt32.ofNat n).toUInt16 ++
      block content s.blksize.toNat n).length = 4 + (block content s.blksize.toNat n).length := by
    simp
    omega
  have hpay : (dataFrame cfg s content n).frame.payload.length =
      4 + (block content s.blksize.toNat n).length := hpay
  unfold PcapBatch.cost UdpFrame.length
  split <;> omega

end Frames

/-- What a fill from block `n` on comes to: `fs` is `n, …, q`. -/
structure Filled (cfg : Config) (s : Session) (content : Bytes) (n rounds : Nat) (before : PcapBatch)
    (r : Fill) (q : Nat) : Prop where
  ok : r.ok = true
  frames : r.batch.frames = before.frames ++ dataRange cfg s content n (q + 1 - n)
  last : r.last = UInt32.ofNat q
  eof : r.eof = decide (q = s.blocks content)
  le : n ≤ q + 1
  width : q + 1 ≤ n + rounds
  total : q ≤ s.blocks content
  full : before.len + rounds * (66 + s.blksize.toNat) ≤ before.cap →
    q = min (n - 1 + rounds) (s.blocks content)

section Fill

variable (cfg : Config) {s : Session} {content : Bytes}

theorem fillLoop_filled (hfit : s.BlocksFit) (hb : 0 < s.blksize.toNat) (rounds : Nat) {n : Nat}
    (h1 : 1 ≤ n) (hn : n ≤ s.blocks content) {r : Fill} (hsrc : r.src.Healthy)
    (hc : r.src.content = content) (hpos : r.src.pos = (n - 1) * s.blksize.toNat)
    (hok : r.ok = true) (hlast : r.last = UInt32.ofNat (n - 1)) (heof : r.eof = false) :
    ∃ q, Filled cfg s content n rounds r.batch (fillLoop cfg s rounds (UInt32.ofNat n) r) q := by
  induction rounds generalizing n r with
  | zero =>
    refine ⟨n - 1, hok, ?_, hlast, ?_, by omega, by omega, by omega, fun _ => by omega⟩
    · rw [show n - 1 + 1 - n = 0 by omega]
      exact (List.append_nil _).symm
    · exact heof.trans (decide_eq_false (by omega)).symm
  | succ rounds ih =>
    have hread : (r.src.content.drop r.src.pos).take s.blksize.toNat =
        block content s.blksize.toNat n := by
      rw [hc, hpos]
      rfl
    have hlen : (block content s.blksize.toNat n).length ≤ s.blksize.toNat := by
      exact List.length_take_le ..
    obtain ⟨hpkt, hframe⟩ := buildData_fits hfit cfg (UInt32.ofNat n).toUInt16 hlen
    have hne : be16 TFTP_DATA ++ be16 (UInt32.ofNat n).toUInt16 ++
        block content s.blksize.toNat n ≠ [] := by
      simp [be16]
    have hshort := length_block_lt_iff content hb h1 hn
    have hcost : PcapBatch.cost (dataFrame cfg s content n) ≤ 66 + s.blksize.toNat :=
      cost_dataFrame n
    rw [fillLoop, hsrc.read, hread]
    simp only [hpkt, if_neg hne, hframe]
    cases hadd : r.batch.add (dataFrame cfg s content n) with
    | none =>
      rw [show r.batch.add ⟨_, UInt32.ofNat n⟩ = none from hadd]
      refine ⟨n - 1, hok, ?_, hlast, ?_, by omega, by omega, by omega, fun hroom => ?_⟩
      · rw [show n - 1 + 1 - n = 0 by omega]
        exact (List.append_nil _).symm
      · exact heof.trans (decide_eq_false (by omega)).symm
      · unfold PcapBatch.add at hadd
        rw [Nat.add_mul, Nat.one_mul] at hroom
        rw [if_neg (by omega)] at hadd
        cases hadd
    | some batch =>
      rw [show r.batch.add ⟨_, UInt32.ofNat n⟩ = some batch from hadd]
      have hbatch := PcapBatch.add_eq_some hadd
      dsimp only
      by_cases hT : n = s.blocks content
      · rw [if_pos (hshort.2 hT)]
        refine ⟨n, hok, ?_, rfl, (decide_eq_true hT).symm, by omega, by omega, by omega,
          fun _ => by omega⟩
        rw [hbatch, show n + 1 - n = 0 + 1 by omega, dataRange_cons]
        rfl
      · have hlt : ¬ (block content s.blksize.toNat n).length < s.blksize.toNat := fun h =>
          hT (hshort.1 h)
        rw [if_neg hlt, show UInt32.ofNat n + 1 = UInt32.ofNat (n + 1) from (UInt32.ofNat_add n 1).symm]
        have hpos' : r.src.pos + (block content s.blksize.toNat n).length =
            (n + 1 - 1) * s.blksize.toNat := by
          have hfull : (block content s.blksize.toNat n).length = s.blksize.toNat := by omega
          rw [hpos, hfull, ← Nat.succ_mul]
          congr 1
          omega
        obtain ⟨q, hq⟩ := ih (n := n + 1) (by omega) (by omega) (r := ⟨r.ok, batch,
          { r.src with
            pos := r.src.pos + (block content s.blksize.toNat n).length
            ops := r.src.ops + 1 }, UInt32.ofNat n,
          r.endOffset + UInt64.ofNat (block content s.blksize.toNat n).length, r.eof⟩)
          ⟨hsrc.reader, hsrc.sound⟩ hc hpos' hok rfl heof
        have hle := hq.le
        refine ⟨q, hq.ok, ?_, hq.last, hq.eof, by omega, by have := hq.width; omega, hq.total,
          fun hroom => ?_⟩
        · rw [hq.frames, hbatch, show q + 1 - n = q + 1 - (n + 1) + 1 by omega, dataRange_cons,
            List.append_assoc]
          rfl
        have hlen : batch.len = r.batch.len + PcapBatch.cost (dataFrame cfg s content n) := by
          rw [hbatch]
          simp [PcapBatch.len]
        have hcap : batch.cap = r.batch.cap := by rw [hbatch]
        rw [Nat.add_mul, Nat.one_mul] at hroom
        have hfull := hq.full (show batch.len + _ ≤ batch.cap by omega)
        omega

/-- A window of the file, from block `n` on. -/
theorem rrqFillWindow_filled (hfit : s.BlocksFit) (hb : 0 < s.blksize.toNat) {n : Nat} (h1 : 1 ≤ n)
    (hn : n ≤ s.blocks content) (hn32 : n < 2 ^ 32) (batch : PcapBatch) {src : FileSource}
    (hsrc : src.Healthy) (hc : src.content = content) {off : UInt64}
    (hoff : off.toNat = (n - 1) * s.blksize.toNat) (hsmall : off.toNat < 2 ^ 31) :
    ∃ q, Filled cfg s content n s.windowsize.toNat batch
      (rrqFillWindow cfg s batch src (UInt32.ofNat n) off) q := by
  have hne : UInt32.ofNat n ≠ 0 := by
    intro h
    have h0 := congrArg UInt32.toNat h
    have h0 : n % 2 ^ 32 = 0 := h0
    omega
  have hlast : (if UInt32.ofNat n = 0 then 0 else UInt32.ofNat n - 1) = UInt32.ofNat (n - 1) := by
    rw [if_neg hne]
    apply UInt32.toNat_inj.1
    rw [UInt32.toNat_sub, UInt32.toNat_ofNat', UInt32.toNat_ofNat']
    have h1 : (1 : UInt32).toNat = 1 := rfl
    omega
  unfold rrqFillWindow
  rw [hsrc.seek hsmall]
  rw [hlast]
  exact fillLoop_filled cfg hfit hb _ h1 hn (r := ⟨true, batch, { src with
    pos := off.toNat, ops := src.ops + 1 }, UInt32.ofNat (n - 1), off, false⟩)
    ⟨hsrc.reader, hsrc.sound⟩ hc hoff rfl rfl rfl

end Fill

end Nishro.CCore

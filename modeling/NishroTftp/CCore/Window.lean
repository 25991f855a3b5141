import NishroTftp.CCore.SlotStep
/-
  How the window of a download is filled (`rrq_fill_window`) from a file that can be read: no
  device errors, and blocks that fit the packet buffer.
-/
namespace Nishro.CCore

open Nishro.Wire

/-- What is queued stays queued. -/
theorem fillLoop_frames (cfg : Config) (s : Session) (k : Nat) (block : UInt32) (r : Fill) :
    ∃ fs, (fillLoop cfg s k block r).batch.frames = r.batch.frames ++ fs := by
  induction k generalizing block r with
  | zero => exact ⟨[], (List.append_nil _).symm⟩
  | succ k ih =>
    rcases fillLoop_cases cfg s k block r with h | ⟨data, src, frame, -, -, -, h⟩ |
      ⟨data, src, frame, batch, -, -, hadd, ⟨-, h⟩ | ⟨-, h⟩⟩
    · exact ⟨[], by rw [h, List.append_nil]⟩
    · exact ⟨[], by rw [h, List.append_nil]⟩
    · exact ⟨[⟨frame, block⟩], by rw [h, PcapBatch.add_eq_some hadd]⟩
    rw [h]
    obtain ⟨fs, hfs⟩ := ih (block + 1)
      ⟨r.ok, batch, src, block, r.endOffset + UInt64.ofNat data.length, r.eof⟩
    refine ⟨⟨frame, block⟩ :: fs, hfs.trans ?_⟩
    rw [PcapBatch.add_eq_some hadd, List.append_assoc]
    rfl

variable {s : Session}

/-- What a frame takes in a queue, at most. -/
theorem cost_of_build {cfg : Config} {pkt : Bytes} {frame : UdpFrame}
    (h : buildUdp4 PKT_BUF_SZ (frameTo cfg s pkt) = some frame) (block : UInt32) :
    PcapBatch.cost ⟨frame, block⟩ ≤ 16 + PKT_BUF_SZ := by
  unfold buildUdp4 at h
  split at h
  · cases h
  · rename_i hlen
    obtain rfl := Option.some.inj h
    unfold PcapBatch.cost UdpFrame.length
    dsimp only at hlen ⊢
    split <;> omega

/-- A window that is read into a queue with room for a frame is not empty. -/
theorem rrqFillWindow_grows (cfg : Config) (hw : s.windowsize ≠ 0) {batch : PcapBatch}
    (hroom : batch.len + (16 + PKT_BUF_SZ) ≤ batch.cap) (src : FileSource) (first : UInt32)
    (off : UInt64) (hok : (rrqFillWindow cfg s batch src first off).ok = true) :
    ∃ q fs, (rrqFillWindow cfg s batch src first off).batch.frames = batch.frames ++ q :: fs := by
  have hpos : s.windowsize.toNat ≠ 0 := fun h => hw (UInt8.toNat_inj.1 h)
  obtain ⟨k, hk⟩ := Nat.exists_eq_succ_of_ne_zero hpos
  unfold rrqFillWindow at hok ⊢
  dsimp only at hok ⊢
  split at hok
  · cases hok
  rename_i src' hseek
  rw [hk] at hok ⊢
  generalize hr : (⟨true, batch, src', if first = 0 then 0 else first - 1, off, false⟩ :
    Fill) = r at hok ⊢
  have hbatch : r.batch = batch := by rw [← hr]
  rcases fillLoop_cases cfg s k first r with h | ⟨data, src, frame, -, hframe, hadd, -⟩ |
    ⟨data, src, frame, batch', -, -, hadd, ⟨-, h⟩ | ⟨-, h⟩⟩
  · rw [h] at hok
    cases hok
  · have hcost := cost_of_build hframe first
    rw [hbatch] at hadd
    unfold PcapBatch.add at hadd
    rw [if_neg (by omega)] at hadd
    cases hadd
  · refine ⟨⟨frame, first⟩, [], ?_⟩
    rw [h, PcapBatch.add_eq_some hadd, hbatch]
  · rw [h]
    obtain ⟨fs, hfs⟩ := fillLoop_frames cfg s k (first + 1)
      ⟨r.ok, batch', src, first, r.endOffset + UInt64.ofNat data.length, r.eof⟩
    refine ⟨⟨frame, first⟩, fs, ?_⟩
    rw [hfs, PcapBatch.add_eq_some hadd, hbatch, List.append_assoc]
    rfl

/-- A window that is read into an empty queue is not empty. -/
theorem rrqFillWindow_queues (cfg : Config) (hw : s.windowsize ≠ 0) (src : FileSource)
    (first : UInt32) (off : UInt64)
    (hok : (rrqFillWindow cfg s (.new BATCH_CAP) src first off).ok = true) :
    (rrqFillWindow cfg s (.new BATCH_CAP) src first off).batch.frames ≠ [] := by
  obtain ⟨q, fs, h⟩ := rrqFillWindow_grows cfg hw (by decide) src first off hok
  rw [h]
  exact List.cons_ne_nil q fs

/-- A reader that meets no device errors. -/
structure FileSource.Healthy (f : FileSource) : Prop where
  reader : f.isWrite = false
  sound : ∀ k, f.io k = .ok

theorem FileSource.Healthy.read {f : FileSource} (h : f.Healthy) (max : Nat) :
    f.read max = (some ((f.content.drop f.pos).take max),
      { f with
        pos := f.pos + ((f.content.drop f.pos).take max).length
        ops := f.ops + 1 }) := by
  rw [FileSource.read, h.reader, if_neg (by decide)]
  simp only [FileSource.outcome, h.sound]

theorem FileSource.Healthy.seek {f : FileSource} (h : f.Healthy) {off : UInt64}
    (hoff : off.toNat < 2 ^ 31) :
    f.seek off = (true, { f with pos := off.toNat, ops := f.ops + 1 }) := by
  have hmod : off.toNat % 2 ^ 32 = off.toNat := Nat.mod_eq_of_lt (by omega)
  rw [FileSource.seek, hmod, if_pos ⟨h.sound _, hoff⟩]

/-- What a session needs of its block size for its DATA packets to be built. -/
def Session.BlocksFit (s : Session) : Prop := 50 + s.blksize.toNat ≤ PKT_BUF_SZ

/-- A block that leaves room for the headers is built. -/
theorem buildData_of_le (cfg : Config) (s : Session) (block : UInt16) {data : Bytes}
    (hlen : 50 + data.length ≤ PKT_BUF_SZ) :
    tftpBuildData PKT_BUF_SZ block data = be16 TFTP_DATA ++ be16 block ++ data ∧
      buildUdp4 PKT_BUF_SZ (frameTo cfg s (be16 TFTP_DATA ++ be16 block ++ data)) =
        some (frameTo cfg s (be16 TFTP_DATA ++ be16 block ++ data)) := by
  have hpkt : (be16 TFTP_DATA ++ be16 block ++ data).length = 4 + data.length := by
    simp [be16]
    omega
  constructor
  · exact if_neg (by omega)
  · refine if_neg ?_
    show ¬ PKT_BUF_SZ < 18 + 20 + 8 + (be16 TFTP_DATA ++ be16 block ++ data).length
    omega

theorem buildData_fits (h : s.BlocksFit) (cfg : Config) (block : UInt16) {data : Bytes}
    (hdata : data.length ≤ s.blksize.toNat) :
    tftpBuildData PKT_BUF_SZ block data = be16 TFTP_DATA ++ be16 block ++ data ∧
      buildUdp4 PKT_BUF_SZ (frameTo cfg s (be16 TFTP_DATA ++ be16 block ++ data)) =
        some (frameTo cfg s (be16 TFTP_DATA ++ be16 block ++ data)) := by
  unfold Session.BlocksFit at h
  exact buildData_of_le cfg s block (by omega)

/-- The loop does not fail if every block of the file leaves room for the headers. -/
theorem fillLoop_fits (cfg : Config) (s : Session) (k : Nat) (block : UInt32) {r : Fill}
    (hsrc : r.src.Healthy)
    (hfit : 50 + min s.blksize.toNat r.src.content.length ≤ PKT_BUF_SZ) :
    (fillLoop cfg s k block r).ok = r.ok := by
  induction k generalizing block r with
  | zero => rfl
  | succ k ih =>
    have hlen : 50 + ((r.src.content.drop r.src.pos).take s.blksize.toNat).length ≤ PKT_BUF_SZ := by
      rw [List.length_take, List.length_drop]
      omega
    obtain ⟨hpkt, hframe⟩ := buildData_of_le cfg s block.toUInt16 hlen
    have hne : be16 TFTP_DATA ++ be16 block.toUInt16 ++
        (r.src.content.drop r.src.pos).take s.blksize.toNat ≠ [] := by
      simp [be16]
    rw [fillLoop, hsrc.read]
    simp only [hpkt, if_neg hne, hframe]
    split
    · rfl
    · split
      · rfl
      · exact ih _ ⟨hsrc.reader, hsrc.sound⟩ hfit

theorem fillLoop_ok (cfg : Config) (hfit : s.BlocksFit) (k : Nat) (block : UInt32) {r : Fill}
    (hsrc : r.src.Healthy) : (fillLoop cfg s k block r).ok = r.ok := by
  unfold Session.BlocksFit at hfit
  exact fillLoop_fits cfg s k block hsrc (by omega)

theorem rrqFillWindow_ok (cfg : Config) (hfit : s.BlocksFit) (batch : PcapBatch) {src : FileSource}
    (hsrc : src.Healthy) (first : UInt32) {off : UInt64} (hoff : off.toNat < 2 ^ 31) :
    (rrqFillWindow cfg s batch src first off).ok = true := by
  rw [rrqFillWindow, hsrc.seek hoff]
  exact fillLoop_ok cfg hfit _ _ ⟨hsrc.reader, hsrc.sound⟩

/-- A window is sent, and the session stays where it is. -/
theorem rrqSendWindow_stays (cfg : Config) (now : Clock) {c : Ctx} {src : FileSource}
    (hopen : c.s.src = some src) (hsrc : src.Healthy) (hfit : c.s.BlocksFit)
    (hoff : c.s.windowFirstOffset.toNat < 2 ^ 31) :
    (rrqSendWindow cfg now c).s.state = c.s.state := by
  have hok : (windowFill cfg c src).ok = true := rrqFillWindow_ok cfg hfit _ hsrc _ hoff
  rcases rrqSendWindow_cases cfg now c with ⟨hnone, -⟩ | ⟨src', hopen', ⟨hfail, -⟩ | ⟨-, h⟩⟩
  · rw [hnone] at hopen
    cases hopen
  · obtain rfl : src = src' := Option.some.inj (hopen.symm.trans hopen')
    rw [hok] at hfail
    cases hfail
  · rw [h]
    simp [windowSent]

end Nishro.CCore

import NishroTftp.Lib.SlidingWindow
import NishroTftp.Lib.Wire
/-
  The client of a download, as RFC 1350 and RFC 7440 have it.

  It appends a DATA packet only if its number is the next one it expects modulo 65536, takes a
  block shorter than the block size for the last one, and acknowledges the last block it holds in
  order, whenever it likes.  Against a sender of the blocks `blk 1, …, blk T` of which only the last
  is short it is the receiver of `SlidingWindow`.
-/
namespace Nishro.ReadClient

open Nishro.SlidingWindow

structure Client where
  /-- the payloads it has appended, in order -/
  blocks : List Bytes
  /-- it has seen the last block -/
  finished : Bool

def Client.new : Client := ⟨[], false⟩

/-- A DATA packet arrives. -/
def Client.receive (blksize : Nat) (c : Client) (wire : UInt16) (payload : Bytes) : Client :=
  if c.finished = false ∧ wire.toNat = (c.blocks.length + 1) % 65536 then
    ⟨c.blocks ++ [payload], decide (payload.length < blksize)⟩
  else c

/-- The bytes it holds. -/
def Client.held (c : Client) : Bytes := c.blocks.flatten

/-- A client that has got the blocks of this sender and no others, as its window allows. -/
structure Client.Follows (blk : Nat → Bytes) (T W lo hi : Nat) (c : Client) : Prop where
  inv : Inv blk T W ⟨lo, hi, c.blocks⟩
  finished : c.finished = true ↔ c.blocks.length = T

section

variable {blk : Nat → Bytes} {T W lo hi blksize : Nat} {c : Client}

theorem follows_new (hT : 0 < T) : Client.new.Follows blk T W 0 0 where
  inv := inv_init rfl
  finished := by
    constructor
    · rintro ⟨⟩
    · intro h
      have hzero : (0 : Nat) = T := h
      omega

theorem toNat_ofNat16 (n : Nat) : (UInt16.ofNat n).toNat = n % 65536 := by
  simp

/-- Any packet of the sender may arrive, if it is not too late. -/
theorem Client.Follows.receive (hW : W < 65536) (hshort : ∀ n, 1 ≤ n → n ≤ T →
    ((blk n).length < blksize ↔ n = T)) (h : c.Follows blk T W lo hi) {n : Nat} (h1 : 1 ≤ n)
    (hn : n ≤ hi) (hlate : hi < n + 65535) :
    (c.receive blksize (UInt16.ofNat n) (blk n)).Follows blk T W lo hi := by
  unfold Client.receive
  split
  · next hnext =>
    have hmod : n % 65536 = (c.blocks.length + 1) % 65536 := by
      rw [← hnext.2, toNat_ofNat16]
    have hexact : n = c.blocks.length + 1 := recv_exact hW h.inv hn hlate hmod
    have hstep := inv_step hW h.inv (.recvNext h1 hn hlate hmod)
    refine ⟨hstep, ?_⟩
    have hT : n ≤ T := Nat.le_trans hn h.inv.hi_le_total
    show decide ((blk n).length < blksize) = true ↔ (c.blocks ++ [blk n]).length = T
    rw [decide_eq_true_eq, hshort n h1 hT, List.length_append, List.length_singleton]
    omega
  · exact h

/-- What a client holds whose blocks are those of the sender. -/
theorem Client.Follows.held_eq (h : c.Follows blk T W lo hi) :
    c.held = ((List.range c.blocks.length).map fun k => blk (k + 1)).flatten :=
  congrArg List.flatten h.inv.got_eq

/-- A client forgets nothing. -/
theorem Client.length_receive_le (blksize : Nat) (c : Client) (wire : UInt16) (payload : Bytes) :
    c.blocks.length ≤ (c.receive blksize wire payload).blocks.length := by
  unfold Client.receive
  split
  · simp
  · exact Nat.le_refl _

end

end Nishro.ReadClient

import NishroTftp.Lib.Blocks
import NishroTftp.Lib.SlidingWindow
import NishroTftp.Lib.Wire
/-
  The client of an upload, as RFC 1350, RFC 2347 and RFC 7440 have it.

  The first answer of the server settles the block size and the window size; the client then cuts its
  file into blocks and sends them in order, never more than a window beyond the last one it knows to
  have arrived.  An ACK counts only if it is for a block of that window.

  What was sent may arrive any number of times, so sending a block AGAIN changes nothing that can
  happen: the state is how far the client has come, not what is on its way.
-/
namespace Nishro.WriteClient

open Nishro.Blocks
open Nishro.SlidingWindow

structure Client where
  /-- block size and window size, once the server has answered -/
  params : Option (Nat × Nat)
  /-- the last block it knows to have arrived -/
  acked : Nat
  /-- the last block it has sent -/
  high : Nat

def Client.new : Client := ⟨none, 0, 0⟩

/-- An ACK arrives: it is for the block of the window that has this number, if there is one. -/
def Client.ack (c : Client) (wire : UInt16) : Client :=
  match (List.range' (c.acked + 1) (c.high - c.acked)).find? fun b => b % 65536 == wire.toNat with
  | some b => { c with acked := b }
  | none => c

/-- The next block of the file goes out, if the window allows it. -/
def Client.send (file : Bytes) (c : Client) : Client :=
  match c.params with
  | none => c
  | some (blksize, windowsize) =>
    if c.high < c.acked + windowsize ∧ c.high < blockCount file.length blksize then
      { c with high := c.high + 1 }
    else c

/-- It keeps to its window and to the blocks of its file. -/
structure Client.Within (total windowsize : Nat) (c : Client) : Prop where
  sent : c.acked ≤ c.high
  window : c.high ≤ c.acked + windowsize
  total : c.high ≤ total

section

variable {total windowsize : Nat} {c : Client}

theorem within_new (total windowsize : Nat) : Client.new.Within total windowsize :=
  ⟨Nat.le_refl 0, Nat.zero_le _, Nat.zero_le _⟩

/-- What an ACK can do. -/
theorem Client.ack_cases (c : Client) (wire : UInt16) :
    c.ack wire = c ∨ ∃ b, c.acked < b ∧ b ≤ c.high ∧ b % 65536 = wire.toNat ∧
      c.ack wire = { c with acked := b } := by
  unfold Client.ack
  split
  · next b hb =>
    have hmem := List.mem_of_find?_eq_some hb
    have hnum := List.find?_some hb
    rw [List.mem_range'_1] at hmem
    exact .inr ⟨b, by omega, by omega, by simpa using hnum, rfl⟩
  · exact .inl rfl

theorem Client.ack_params (c : Client) (wire : UInt16) : (c.ack wire).params = c.params := by
  rcases c.ack_cases wire with h | ⟨b, -, -, -, h⟩ <;> rw [h]

theorem Client.ack_high (c : Client) (wire : UInt16) : (c.ack wire).high = c.high := by
  rcases c.ack_cases wire with h | ⟨b, -, -, -, h⟩ <;> rw [h]

theorem Client.Within.ack (h : c.Within total windowsize) (wire : UInt16) :
    (c.ack wire).Within total windowsize := by
  have hwin := h.window
  rcases c.ack_cases wire with heq | ⟨b, hlo, hhi, -, heq⟩
  · rw [heq]
    exact h
  · rw [heq]
    exact ⟨hhi, by show c.high ≤ b + windowsize; omega, h.total⟩

/-- **An ACK that is not late is not taken for more than it says.** -/
theorem Client.acked_le {wire : UInt16} {m : Nat} (hwire : wire.toNat = m % 65536)
    (hlate : c.high < m + 65535) : (c.ack wire).acked ≤ max c.acked m := by
  rcases c.ack_cases wire with heq | ⟨b, -, hhi, hnum, heq⟩
  · rw [heq]
    omega
  · rw [heq]
    show b ≤ max c.acked m
    omega

theorem Client.Within.send (file : Bytes) {blksize : Nat} (hp : c.params = some (blksize, windowsize))
    (h : c.Within (blockCount file.length blksize) windowsize) :
    (c.send file).Within (blockCount file.length blksize) windowsize := by
  have hsent := h.sent
  unfold Client.send
  rw [hp]
  dsimp only
  split
  · next hroom =>
    exact ⟨by show c.acked ≤ c.high + 1; omega, hroom.1, hroom.2⟩
  · exact h

theorem Client.send_params (file : Bytes) (c : Client) : (c.send file).params = c.params := by
  unfold Client.send
  cases hp : c.params with
  | none => exact hp
  | some p =>
    dsimp only
    split
    · rfl
    · exact hp

theorem Client.send_acked (file : Bytes) (c : Client) : (c.send file).acked = c.acked := by
  unfold Client.send
  cases c.params with
  | none => rfl
  | some p =>
    dsimp only
    split <;> rfl

theorem Client.le_send_high (file : Bytes) (c : Client) : c.high ≤ (c.send file).high := by
  unfold Client.send
  cases c.params with
  | none => exact Nat.le_refl _
  | some p =>
    dsimp only
    split
    · exact Nat.le_succ _
    · exact Nat.le_refl _

end

end Nishro.WriteClient

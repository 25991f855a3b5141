/-
  A byte string cut into numbered blocks.

  Block `n` (counted from 1) of `data` at block size `b` is the slice of length at most `b` that
  starts at `(n - 1) * b`.  A transfer always ends with a block SHORTER than `b`, so a string of
  length `len` has `len / b + 1` blocks, the last of them empty when `b` divides `len`.  The two
  facts the transfer proofs rest on: the first `n` blocks put together are the first `n * b`
  elements (`flatten_blocks`), and among the blocks of the string only the last one is short
  (`length_block_lt_iff`).
-/
namespace Nishro.Blocks

variable {α : Type}

/-- Block `n`, counted from 1. -/
def block (data : List α) (b n : Nat) : List α := (data.drop ((n - 1) * b)).take b

/-- How many blocks a string of length `len` is sent in. -/
def blockCount (len b : Nat) : Nat := len / b + 1

theorem length_block (data : List α) (b n : Nat) :
    (block data b n).length = min b (data.length - (n - 1) * b) := by
  simp [block]

/-- One more block extends the prefix held so far by one block size. -/
theorem take_append_block (data : List α) (b n : Nat) :
    data.take (n * b) ++ block data b (n + 1) = data.take ((n + 1) * b) := by
  rw [block, Nat.add_sub_cancel, Nat.succ_mul, List.take_add]

/-- The first `n` blocks, put together, are the first `n * b` elements. -/
theorem flatten_blocks (data : List α) (b n : Nat) :
    ((List.range n).map fun k => block data b (k + 1)).flatten = data.take (n * b) := by
  induction n with
  | zero => simp
  | succ n ih =>
    rw [List.range_succ, List.map_append, List.flatten_append, ih]
    simpa using take_append_block data b n

theorem blockCount_pos (len b : Nat) : 0 < blockCount len b := Nat.succ_pos _

/-- The blocks before the last one lie inside the string. -/
theorem mul_le_of_lt_blockCount {len b n : Nat} (h : n < blockCount len b) : n * b ≤ len := by
  have h1 : n ≤ len / b := Nat.le_of_lt_succ h
  exact Nat.le_trans (Nat.mul_le_mul_right b h1) (Nat.div_mul_le_self len b)

theorem lt_blockCount_mul {len b : Nat} (hb : 0 < b) : len < blockCount len b * b := by
  have h := Nat.div_add_mod len b
  have hlt := Nat.mod_lt len hb
  rw [blockCount, Nat.succ_mul, Nat.mul_comm (len / b) b]
  omega

/-- All the blocks together are the string. -/
theorem take_blockCount (data : List α) {b : Nat} (hb : 0 < b) :
    data.take (blockCount data.length b * b) = data :=
  List.take_of_length_le (Nat.le_of_lt (lt_blockCount_mul hb))

/-- **A short block is the last one.**  Among the blocks of a string only the last is shorter than
    the block size. -/
theorem length_block_lt_iff (data : List α) {b n : Nat} (hb : 0 < b) (h1 : 1 ≤ n)
    (hn : n ≤ blockCount data.length b) :
    (block data b n).length < b ↔ n = blockCount data.length b := by
  obtain ⟨k, rfl⟩ : ∃ k, n = k + 1 := ⟨n - 1, by omega⟩
  rw [length_block, Nat.add_sub_cancel]
  constructor
  · intro hlt
    rcases Nat.lt_or_ge (k + 1) (blockCount data.length b) with h | h
    · have hk := mul_le_of_lt_blockCount h
      rw [Nat.succ_mul] at hk
      omega
    · omega
  · intro heq
    have hlast : data.length < blockCount data.length b * b := lt_blockCount_mul hb
    rw [← heq, Nat.succ_mul] at hlast
    omega

/-- What is left for the last block. -/
theorem length_last_block (data : List α) {b : Nat} (hb : 0 < b) :
    (block data b (blockCount data.length b)).length = data.length % b := by
  have hdiv := Nat.div_add_mod data.length b
  rw [length_block, blockCount, Nat.add_sub_cancel, Nat.mul_comm]
  have hlt := Nat.mod_lt data.length hb
  omega

/-- The others are full. -/
theorem length_full_block (data : List α) {b n : Nat} (h1 : 1 ≤ n)
    (hn : n < blockCount data.length b) : (block data b n).length = b := by
  obtain ⟨k, rfl⟩ : ∃ k, n = k + 1 := ⟨n - 1, by omega⟩
  have hk := mul_le_of_lt_blockCount hn
  rw [Nat.succ_mul] at hk
  rw [length_block, Nat.add_sub_cancel]
  omega

end Nishro.Blocks

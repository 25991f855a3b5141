import NishroTftp.Lib.Runs
/-
  The sliding-window protocol with sequence numbers modulo `M`, as an abstract machine.

  A sender has the blocks `blk 1, …, blk T` to deliver.  It knows that `lo` of them have arrived
  and has sent every block up to `hi`, at most `W` beyond `lo`.  The receiver holds a list `got` of
  blocks, appends a block only when its number is the next one it expects MODULO `M`, and
  acknowledges the number of blocks it holds, again modulo `M`.  The network may lose, duplicate
  and reorder everything; the one thing asked of it is that a packet for block `n` is not delivered
  once block `n + (M - 1)` has been sent.

  Nothing is kept in flight explicitly: any block up to `hi` may arrive, any number of times, and
  so may an acknowledgement of any count the receiver has ever had.  `reach_inv` is what makes the
  protocol correct: with a window smaller than the number space the receiver's list is always
  exactly the first blocks, and the sender's `lo` never runs ahead of it.
-/
namespace Nishro.SlidingWindow

open Nishro.Runs

variable {P : Type}

/-- The two ends of a transfer. -/
structure St (P : Type) where
  /-- blocks the sender knows to have arrived -/
  lo : Nat
  /-- the highest block sent -/
  hi : Nat
  /-- the blocks the receiver holds, in order -/
  got : List P

/-- What can happen: the sender sends (again, or further), the receiver gets block `n`, the sender
    gets the acknowledgement of `m` blocks and takes it to mean `c`. -/
inductive Act
  | send (hi' : Nat)
  | recv (n : Nat)
  | ack (m c : Nat)

section

variable (blk : Nat → P) (T W M : Nat)

/-- Before anything is sent. -/
def Init (s : St P) : Prop := s = ⟨0, 0, []⟩

/-- One step of the abstract protocol. -/
inductive Step (s : St P) : Act → St P → Prop
  | send {hi' : Nat} : s.hi ≤ hi' → hi' ≤ s.lo + W → hi' ≤ T →
      Step s (.send hi') { s with hi := hi' }
  | recvNext {n : Nat} : 1 ≤ n → n ≤ s.hi → s.hi < n + (M - 1) →
      n % M = (s.got.length + 1) % M → Step s (.recv n) { s with got := s.got ++ [blk n] }
  | ack {m c : Nat} : m ≤ s.got.length → s.hi < m + (M - 1) → s.lo < c → c ≤ s.hi →
      c % M = m % M → Step s (.ack m c) { s with lo := c }

/-- The joint invariant of sender, receiver and what may still be in flight. -/
structure Inv (s : St P) : Prop where
  lo_le : s.lo ≤ s.got.length
  got_le : s.got.length ≤ s.hi
  hi_le : s.hi ≤ s.lo + W
  hi_le_total : s.hi ≤ T
  got_eq : s.got = (List.range s.got.length).map fun k => blk (k + 1)

end

/-! ## A number modulo `M` identifies a block among near ones -/

theorem eq_of_mod_eq {M a b : Nat} (h : a % M = b % M) (h₁ : a < b + M) (h₂ : b < a + M) :
    a = b := by
  have ha := Nat.div_add_mod a M
  have hb := Nat.div_add_mod b M
  rcases Nat.lt_trichotomy (a / M) (b / M) with hlt | heq | hgt
  · have hm := Nat.mul_le_mul_left M (Nat.succ_le_of_lt hlt)
    rw [Nat.mul_succ] at hm
    omega
  · rw [heq] at ha
    omega
  · have hm := Nat.mul_le_mul_left M (Nat.succ_le_of_lt hgt)
    rw [Nat.mul_succ] at hm
    omega

section

variable {blk : Nat → P} {T W M : Nat} {s s' : St P}

/-- The receiver takes a block for the next one only when it is. -/
theorem recv_exact (hW : W < M) (hI : Inv blk T W s) {n : Nat} (hn : n ≤ s.hi)
    (hlate : s.hi < n + (M - 1)) (hmod : n % M = (s.got.length + 1) % M) :
    n = s.got.length + 1 := by
  have h1 := hI.lo_le
  have h2 := hI.got_le
  have h3 := hI.hi_le
  exact eq_of_mod_eq hmod (by omega) (by omega)

/-- The sender reads an acknowledgement as the count it was sent for. -/
theorem ack_exact (hW : W < M) (hI : Inv blk T W s) {m c : Nat} (hm : m ≤ s.got.length)
    (hlate : s.hi < m + (M - 1)) (hlo : s.lo < c) (hhi : c ≤ s.hi) (hmod : c % M = m % M) :
    c = m := by
  have h2 := hI.got_le
  have h3 := hI.hi_le
  exact eq_of_mod_eq hmod (by omega) (by omega)

theorem inv_init (hs : Init s) : Inv blk T W s := by
  subst hs
  exact ⟨Nat.le_refl 0, Nat.le_refl 0, Nat.zero_le _, Nat.zero_le _, rfl⟩

/-- One step keeps the invariant. -/
theorem inv_step (hW : W < M) {a : Act} (hI : Inv blk T W s) (hst : Step blk T W M s a s') :
    Inv blk T W s' := by
  cases hst with
  | send h1 h2 h3 => exact ⟨hI.lo_le, Nat.le_trans hI.got_le h1, h2, h3, hI.got_eq⟩
  | @recvNext n hn1 hn hlate hmod =>
    obtain rfl := recv_exact hW hI hn hlate hmod
    have hgot := hI.got_eq
    refine ⟨?_, ?_, hI.hi_le, hI.hi_le_total, ?_⟩
    · have := hI.lo_le
      simp only [List.length_append, List.length_singleton]
      omega
    · simpa using hn
    · simp only [List.length_append, List.length_singleton]
      rw [List.range_succ, List.map_append, ← hgot]
      rfl
  | @ack m c hm hlate hlo hhi hmod =>
    obtain rfl := ack_exact hW hI hm hlate hlo hhi hmod
    have h3 := hI.hi_le
    exact ⟨hm, hI.got_le, by simp only; omega, hI.hi_le_total, hI.got_eq⟩

/-- **The protocol is correct.**  With a window smaller than the number space, in every reachable
    state the receiver holds exactly the first blocks, and the sender counts none that it does not
    hold. -/
theorem reach_inv (hW : W < M) (h : Reach Init (Step blk T W M) s) : Inv blk T W s :=
  h.inv (fun _ => inv_init) (fun _ _ _ => inv_step hW)

end

end Nishro.SlidingWindow

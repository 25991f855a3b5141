import NishroTftp.Lib.Wire
/-
  C code that checks its own steps.

  A read, a slice and an unsigned difference are all partial: `Checked` computations stop with a
  `Fault` where C would read outside the buffer, hold a slice that leaves it, or wrap.  A loop or a
  recursion that is given a number of rounds stops with `unfinished` when they are used up.  Code is
  safe on an input when its checked version returns.
-/
namespace Nishro

inductive Fault
  | outOfBounds
  | underflow
  | unfinished
deriving DecidableEq, Repr

abbrev Checked := Except Fault

namespace Checked

/-- `x`, which is made of the bytes `[i, i + n)`. -/
def within {α : Type} (buf : Bytes) (i n : Nat) (x : α) : Checked α :=
  if i + n ≤ buf.length then .ok x else .error .outOfBounds

/-- `a - b` of unsigned numbers. -/
def minus (a b : Nat) : Checked Nat := if b ≤ a then .ok (a - b) else .error .underflow

theorem within_ok {α : Type} {buf : Bytes} {i n : Nat} (h : i + n ≤ buf.length) (x : α) :
    within buf i n x = .ok x := if_pos h

theorem minus_ok {a b : Nat} (h : b ≤ a) : minus a b = .ok (a - b) := if_pos h

theorem ok_bind {α β : Type} (x : α) (f : α → Checked β) : (Except.ok x >>= f) = f x := rfl

end Checked

end Nishro

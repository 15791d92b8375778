/-
  PiRlm.Lib.Measured

  Recursion along a measure, by as many rounds as the measure says.

  A body that only asks for smaller arguments has the recursion as its fixed point, and the
  function still computes.
-/
import Mathlib

namespace PiRlm.Lib

variable {α β : Type}

/-- The function after a number of rounds; `out` stands for the calls that go deeper. -/
def rounds (body : (α → β) → α → β) (out : α → β) : Nat → α → β
  | 0 => out
  | n + 1 => body (rounds body out n)

/-- The recursive function: one round more than the measure of its argument. -/
def measured (body : (α → β) → α → β) (out : α → β) (size : α → Nat) (a : α) : β :=
  rounds body out (size a + 1) a

/-- The body calls the function on smaller arguments only. -/
def Descends (body : (α → β) → α → β) (size : α → Nat) : Prop :=
  ∀ f g a, (∀ b, size b < size a → f b = g b) → body f a = body g a

theorem rounds_eq {body : (α → β) → α → β} {out : α → β} {size : α → Nat}
    (h : Descends body size) {n m : Nat} {a : α} (hn : size a < n) (hm : size a < m) :
    rounds body out n a = rounds body out m a := by
  induction n generalizing m a with
  | zero => exact absurd hn (Nat.not_lt_zero _)
  | succ n ih =>
    cases m with
    | zero => exact absurd hm (Nat.not_lt_zero _)
    | succ m =>
      refine h _ _ a fun b hb => ih ?_ ?_
      · omega
      · omega

/-- The recursion equation. -/
theorem measured_eq {body : (α → β) → α → β} {out : α → β} {size : α → Nat}
    (h : Descends body size) (a : α) :
    measured body out size a = body (measured body out size) a := by
  refine h _ _ a fun b hb => ?_
  exact rounds_eq h hb (Nat.lt_succ_self (size b))

end PiRlm.Lib

/-
  PiRlm.Lib.Tally

  Sums of a measure over the records of a list, and how they change with one record.
-/
import Mathlib

namespace PiRlm.Lib

variable {α : Type}

/-- The sum of a measure over a list. -/
def tally (f : α → Nat) (xs : List α) : Nat :=
  (xs.map f).sum

variable {f : α → Nat} {xs : List α} {i : Nat} {x y : α}

@[simp] theorem tally_nil (f : α → Nat) : tally f [] = 0 := rfl

@[simp] theorem tally_cons (f : α → Nat) (x : α) (xs : List α) :
    tally f (x :: xs) = f x + tally f xs :=
  List.sum_cons

theorem tally_append (f : α → Nat) (xs ys : List α) :
    tally f (xs ++ ys) = tally f xs + tally f ys := by
  rw [tally, List.map_append, List.sum_append]
  rfl

theorem tally_concat (f : α → Nat) (xs : List α) (x : α) :
    tally f (xs ++ [x]) = tally f xs + f x := by
  rw [tally_append, tally_cons, tally_nil, Nat.add_zero]

/-- A record of a list with one more. -/
theorem getElem?_concat_eq_some (h : (xs ++ [x])[i]? = some y) :
    xs[i]? = some y ∨ i = xs.length ∧ y = x := by
  rcases Nat.lt_trichotomy i xs.length with hlt | rfl | hgt
  · exact .inl ((List.getElem?_append_left hlt).symm.trans h)
  · exact .inr ⟨rfl, (Option.some.inj (List.getElem?_concat_length.symm.trans h)).symm⟩
  · have hlt := (List.getElem?_eq_some_iff.mp h).1
    rw [List.length_append, List.length_singleton] at hlt
    omega

/-- One record is replaced: its measure goes and the new one comes. -/
theorem tally_set (h : xs[i]? = some x) : tally f (xs.set i y) + f x = tally f xs + f y := by
  induction xs generalizing i with
  | nil => exact absurd h nofun
  | cons z zs ih =>
    cases i with
    | zero =>
      obtain rfl : z = x := Option.some.inj h
      rw [List.set_cons_zero, tally_cons, tally_cons]
      omega
    | succ i =>
      have := ih h
      rw [List.set_cons_succ, tally_cons, tally_cons]
      omega

theorem le_tally (h : xs[i]? = some x) : f x ≤ tally f xs := by
  induction xs generalizing i with
  | nil => exact absurd h nofun
  | cons z zs ih =>
    rw [tally_cons]
    cases i with
    | zero =>
      obtain rfl : z = x := Option.some.inj h
      omega
    | succ i =>
      have := ih h
      omega

theorem tally_le_tally {g : α → Nat} (h : ∀ x ∈ xs, f x ≤ g x) : tally f xs ≤ tally g xs := by
  induction xs with
  | nil => exact le_rfl
  | cons z zs ih =>
    rw [List.forall_mem_cons] at h
    rw [tally_cons, tally_cons]
    exact Nat.add_le_add h.1 (ih h.2)

/-- A measure that is smaller at one record at least, and larger at none. -/
theorem tally_lt_tally {g : α → Nat} (h : ∀ x ∈ xs, f x ≤ g x) (hx : xs[i]? = some x)
    (hlt : f x < g x) : tally f xs < tally g xs := by
  induction xs generalizing i with
  | nil => exact absurd hx nofun
  | cons z zs ih =>
    rw [List.forall_mem_cons] at h
    rw [tally_cons, tally_cons]
    cases i with
    | zero =>
      obtain rfl : z = x := Option.some.inj hx
      exact Nat.add_lt_add_of_lt_of_le hlt (tally_le_tally h.2)
    | succ i => exact Nat.add_lt_add_of_le_of_lt h.1 (ih h.2 hx)

theorem tally_eq_zero (h : ∀ x ∈ xs, f x = 0) : tally f xs = 0 := by
  induction xs with
  | nil => rfl
  | cons z zs ih =>
    rw [List.forall_mem_cons] at h
    rw [tally_cons, h.1, ih h.2]

end PiRlm.Lib

/-
  PiRlm.Lib.OrderedMap

  Maps and sets that keep the order of insertion.

  A key keeps its place when it is assigned again and loses it when it is deleted.
-/
import Mathlib

namespace PiRlm.Lib

variable {κ α : Type} [DecidableEq κ]

/-- The entries of a map, in the order of their insertion. -/
abbrev OrderedMap (κ α : Type) := List (κ × α)

namespace OrderedMap

def get (m : OrderedMap κ α) (k : κ) : Option α :=
  (m.find? fun e => decide (e.1 = k)).map Prod.snd

def has (m : OrderedMap κ α) (k : κ) : Bool :=
  (m.get k).isSome

def set (m : OrderedMap κ α) (k : κ) (v : α) : OrderedMap κ α :=
  if m.has k then m.map fun e => if e.1 = k then (k, v) else e else m ++ [(k, v)]

def delete (m : OrderedMap κ α) (k : κ) : OrderedMap κ α :=
  m.filter fun e => decide (e.1 ≠ k)

theorem get_cons (e : κ × α) (m : OrderedMap κ α) (k : κ) :
    get (e :: m) k = if e.1 = k then some e.2 else get m k := by
  rw [get, List.find?_cons]
  by_cases h : e.1 = k
  · rw [decide_eq_true h, if_pos h]
    rfl
  · rw [decide_eq_false h, if_neg h]
    rfl

theorem get_append (m m' : OrderedMap κ α) (k : κ) :
    get (m ++ m') k = (get m k).or (get m' k) := by
  induction m with
  | nil => rfl
  | cons e m ih =>
    rw [List.cons_append, get_cons, get_cons, ih]
    split_ifs <;> rfl

/-- A map that has a key has it also after its entry is replaced. -/
theorem get_replace (m : OrderedMap κ α) (k k' : κ) (v : α) :
    get (m.map fun e => if e.1 = k then (k, v) else e) k' =
      if k' = k then (get m k).map fun _ => v else get m k' := by
  induction m with
  | nil => simp [get]
  | cons e m ih =>
    rw [List.map_cons, get_cons, get_cons, get_cons, ih]
    by_cases hkey : e.1 = k
    · by_cases h : k' = k
      · simp [hkey, h]
      · simp [hkey, h, Ne.symm h]
    · by_cases h : k' = k
      · subst h
        simp [hkey]
      · simp [hkey, h]

@[simp] theorem get_set (m : OrderedMap κ α) (k k' : κ) (v : α) :
    (m.set k v).get k' = if k' = k then some v else m.get k' := by
  unfold set has
  cases hget : m.get k with
  | some w =>
    rw [if_pos (Option.isSome_some), get_replace, hget]
    rfl
  | none =>
    rw [if_neg (by simp), get_append, get_cons]
    by_cases h : k' = k
    · subst h
      simp [hget]
    · simp [h, Ne.symm h, get]

theorem get_set_self (m : OrderedMap κ α) (k : κ) (v : α) : (m.set k v).get k = some v := by
  rw [get_set, if_pos rfl]

@[simp] theorem get_delete (m : OrderedMap κ α) (k k' : κ) :
    (m.delete k).get k' = if k' = k then none else m.get k' := by
  induction m with
  | nil => simp [delete, get]
  | cons e m ih =>
    rw [get_cons]
    unfold delete at ih ⊢
    rw [List.filter_cons]
    by_cases hkey : e.1 = k
    · rw [if_neg (by simpa using hkey), ih]
      by_cases h : k' = k
      · simp [h]
      · rw [if_neg h, if_neg h, if_neg (fun heq => h (heq.symm.trans hkey))]
    · rw [if_pos (by simpa using hkey), get_cons, ih]
      by_cases h : k' = k
      · subst h
        simp [hkey]
      · simp [h]

theorem has_set (m : OrderedMap κ α) (k k' : κ) (v : α) :
    (m.set k v).has k' = (decide (k' = k) || m.has k') := by
  rw [has, get_set, has]
  by_cases h : k' = k <;> simp [h]

end OrderedMap

/-- `Set.add`. -/
def insertNew (s : List κ) (k : κ) : List κ :=
  if k ∈ s then s else s ++ [k]

theorem insertNew_of_mem {s : List κ} {k : κ} (h : k ∈ s) : insertNew s k = s :=
  if_pos h

@[simp] theorem mem_insertNew {s : List κ} {k k' : κ} : k' ∈ insertNew s k ↔ k' ∈ s ∨ k' = k := by
  unfold insertNew
  split_ifs with h
  · constructor
    · exact Or.inl
    · rintro (hmem | rfl)
      · exact hmem
      · exact h
  · simp

end PiRlm.Lib

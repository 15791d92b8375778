/-
  PiRlm.Lib.Keyed

  Lists as maps: records with distinct keys, looked up by key.
-/
import Mathlib

namespace PiRlm.Lib

variable {α κ : Type} [DecidableEq κ] {key : α → κ} {xs ys : List α} {x : α} {k : κ}

theorem key_of_find (h : xs.find? (fun x => decide (key x = k)) = some x) : key x = k := by
  simpa using List.find?_some h

/-- With distinct keys a record is found under its key. -/
theorem find_eq_some_iff (h : (xs.map key).Nodup) :
    xs.find? (fun x => decide (key x = k)) = some x ↔ x ∈ xs ∧ key x = k := by
  constructor
  · intro hfind
    exact ⟨List.mem_of_find?_eq_some hfind, key_of_find hfind⟩
  · rintro ⟨hmem, hkey⟩
    obtain ⟨y, hy⟩ : ∃ y, xs.find? (fun x => decide (key x = k)) = some y := by
      rw [← Option.isSome_iff_exists, List.find?_isSome]
      exact ⟨x, hmem, decide_eq_true hkey⟩
    have heq : y = x := List.inj_on_of_nodup_map h (List.mem_of_find?_eq_some hy) hmem
      ((key_of_find hy).trans hkey.symm)
    rw [hy, heq]

theorem find_eq_none_iff : xs.find? (fun x => decide (key x = k)) = none ↔ ∀ x ∈ xs, key x ≠ k := by
  simp only [List.find?_eq_none, decide_eq_true_eq, ne_eq]

/-- The order of the records makes no difference. -/
theorem find_perm (hperm : xs.Perm ys) (h : (xs.map key).Nodup) (k : κ) :
    xs.find? (fun x => decide (key x = k)) = ys.find? (fun x => decide (key x = k)) := by
  have h' : (ys.map key).Nodup := (hperm.map key).nodup_iff.mp h
  apply Option.ext
  intro x
  rw [find_eq_some_iff h, find_eq_some_iff h', hperm.mem_iff]

/-- A record may be appended when none has its key. -/
theorem nodup_concat_iff (h : (xs.map key).Nodup) :
    ((xs ++ [x]).map key).Nodup ↔ (!xs.any fun y => decide (key y = key x)) = true := by
  rw [Bool.not_eq_true', List.any_eq_false, List.map_append, List.map_cons, List.map_nil,
    List.nodup_append]
  constructor
  · rintro ⟨-, -, hne⟩ y hy heq
    exact hne _ (List.mem_map_of_mem hy) _ (List.mem_singleton_self _) (of_decide_eq_true heq)
  · intro hne
    refine ⟨h, List.nodup_singleton _, fun k hk k' hk' heq => ?_⟩
    obtain ⟨y, hy, rfl⟩ := List.mem_map.mp hk
    rw [List.mem_singleton] at hk'
    exact hne y hy (decide_eq_true (heq.trans hk'))

/-- Assigning records to their keys in turn is a lookup, when the keys are distinct. -/
theorem foldl_update_eq_find (h : (xs.map key).Nodup) (f : κ → Option α) (k : κ) :
    xs.foldl (fun f x => Function.update f (key x) (some x)) f k =
      (xs.find? fun x => decide (key x = k)).or (f k) := by
  induction xs generalizing f with
  | nil => rfl
  | cons x xs ih =>
    rw [List.map_cons, List.nodup_cons] at h
    rw [List.foldl_cons, ih h.2]
    by_cases hkey : key x = k
    · -- no later record has this key
      have hnone : xs.find? (fun x => decide (key x = k)) = none :=
        find_eq_none_iff.mpr fun y hy heq => h.1 (hkey ▸ heq ▸ List.mem_map_of_mem hy)
      have hfound : (x :: xs).find? (fun x => decide (key x = k)) = some x := by
        rw [List.find?_cons, decide_eq_true hkey]
      rw [hnone, hfound, ← hkey, Function.update_self]
      rfl
    · rw [List.find?_cons, decide_eq_false hkey, Function.update_of_ne (Ne.symm hkey)]

end PiRlm.Lib

/-
  PiRlm.Lib.OrderedList

  Lists that are sorted, and cut down from the front.

  A stable sort commutes with a filter.  `shed` takes elements from the front as long as
  the state says that the next one has to go.
-/
import Mathlib

namespace PiRlm.Lib

variable {α σ : Type}

-- ============================================================================
-- Sorting and filtering
-- ============================================================================

section Sorting

variable {r : α → α → Prop} [DecidableRel r]

theorem orderedInsert_of_forall {a : α} {xs : List α} (h : ∀ x ∈ xs, r a x) :
    xs.orderedInsert r a = a :: xs := by
  cases xs with
  | nil => rfl
  | cons x xs => exact if_pos (h x List.mem_cons_self)

theorem filter_orderedInsert [IsTrans α r] (p : α → Bool) (a : α) {xs : List α}
    (h : xs.Pairwise r) :
    (xs.orderedInsert r a).filter p =
      if p a then (xs.filter p).orderedInsert r a else xs.filter p := by
  induction xs with
  | nil =>
    show [a].filter p = _
    rw [List.filter_singleton]
    cases p a <;> rfl
  | cons x xs ih =>
    rw [List.pairwise_cons] at h
    rw [List.orderedInsert_cons]
    by_cases hax : r a x
    · -- the element comes first, before the filter and after it
      have hfirst : ∀ y ∈ (x :: xs).filter p, r a y := by
        intro y hy
        rcases List.mem_cons.mp (List.mem_filter.mp hy).1 with rfl | hy
        · exact hax
        · exact trans_of r hax (h.1 y hy)
      rw [if_pos hax, List.filter_cons, orderedInsert_of_forall hfirst]
    · rw [if_neg hax, List.filter_cons, List.filter_cons, ih h.2]
      cases p x with
      | false => simp only [Bool.false_eq_true, if_false]
      | true =>
        simp only [if_true]
        split
        · rw [List.orderedInsert_cons, if_neg hax]
        · rfl

theorem filter_insertionSort [IsTrans α r] [Std.Total r] (p : α → Bool) (xs : List α) :
    (xs.insertionSort r).filter p = (xs.filter p).insertionSort r := by
  induction xs with
  | nil => rfl
  | cons x xs ih =>
    rw [List.insertionSort_cons, filter_orderedInsert p x (List.pairwise_insertionSort r xs), ih,
      List.filter_cons]
    cases p x with
    | false => simp only [Bool.false_eq_true, if_false]
    | true => simp only [if_true, List.insertionSort_cons]

end Sorting

-- ============================================================================
-- Elements that have to go
-- ============================================================================

section Shed

variable (needed : σ → α → Bool) (next : σ → α → σ)

/-- The elements at the front that have to go, one after the other. -/
def shed : σ → List α → List α
  | _, [] => []
  | s, x :: xs => if needed s x then x :: shed (next s x) xs else []

variable {needed next}

theorem shed_cons (s : σ) (x : α) (xs : List α) :
    shed needed next s (x :: xs) = if needed s x then x :: shed needed next (next s x) xs else [] :=
  rfl

theorem shed_prefix (s : σ) (xs : List α) : shed needed next s xs <+: xs := by
  induction xs generalizing s with
  | nil => exact List.prefix_rfl
  | cons x xs ih =>
    rw [shed_cons]
    split
    · exact (List.prefix_cons_inj x).mpr (ih (next s x))
    · exact List.nil_prefix

/-- The first element that stays does not have to go. -/
theorem shed_stops {s : σ} {xs gone stay : List α} {y : α} (h : shed needed next s xs = gone)
    (hsplit : xs = gone ++ y :: stay) : needed (gone.foldl next s) y = false := by
  induction xs generalizing s gone with
  | nil => exact absurd hsplit (by simp)
  | cons x xs ih =>
    rw [shed_cons] at h
    split at h
    · subst h
      show needed ((shed needed next (next s x) xs).foldl next (next s x)) y = false
      exact ih rfl (List.cons.inj hsplit).2
    · rename_i hx
      subst h
      obtain rfl : x = y := (List.cons.inj hsplit).1
      exact Bool.not_eq_true _ ▸ hx

/-- The last element that goes has to go. -/
theorem shed_last {s : σ} {xs gone : List α} {y : α}
    (h : shed needed next s xs = gone ++ [y]) : needed (gone.foldl next s) y = true := by
  induction xs generalizing s gone with
  | nil => exact absurd h (List.append_ne_nil_of_right_ne_nil gone (List.cons_ne_nil y [])).symm
  | cons x xs ih =>
    rw [shed_cons] at h
    split at h
    · rename_i hx
      cases gone with
      | nil =>
        obtain rfl : x = y := (List.cons.inj h).1
        exact hx
      | cons z gone =>
        obtain ⟨rfl, hrest⟩ := List.cons.inj h
        show needed (gone.foldl next (next s x)) y = true
        exact ih hrest
    · exact absurd h (by simp)

/-- Without some of the elements that go, the others go. -/
theorem shed_drop {s : σ} {xs gone rest : List α} (h : shed needed next s xs = gone ++ rest) :
    shed needed next (gone.foldl next s) (xs.drop gone.length) = rest := by
  induction gone generalizing s xs with
  | nil => exact h
  | cons x gone ih =>
    cases xs with
    | nil => exact absurd h (List.cons_ne_nil x (gone ++ rest)).symm
    | cons y xs =>
      rw [shed_cons] at h
      split at h
      · obtain ⟨rfl, hrest⟩ := List.cons.inj h
        exact ih hrest
      · exact absurd h (by simp)

theorem shed_eq_nil {s : σ} {xs : List α} (h : ∀ x ∈ xs, needed s x = false) :
    shed needed next s xs = [] := by
  cases xs with
  | nil => rfl
  | cons x xs => rw [shed_cons, if_neg (by rw [h x List.mem_cons_self]; exact nofun)]

end Shed

-- ============================================================================
-- The first elements with a property
-- ============================================================================

section FirstOf

variable {p q : α → Bool} {xs : List α} {m : Nat}

/-- An element after few others with the property is among the first of them. -/
theorem mem_take_filter {before : List α} {x : α} (h : before ++ [x] <+: xs)
    (hfew : (before.filter p).length < m) (hx : p x = true) : x ∈ (xs.filter p).take m := by
  have hinitial : before.filter p ++ [x] <+: xs.filter p := by
    have hfilter := h.filter p
    rwa [List.filter_append, List.filter_singleton, hx] at hfilter
  have hshort : (before.filter p ++ [x]).length ≤ m := by
    rw [List.length_append, List.length_singleton]
    omega
  have htake : before.filter p ++ [x] <+: (xs.filter p).take m := by
    rw [List.prefix_iff_eq_take.mp hinitial]
    exact List.take_prefix_take_left hshort
  exact htake.subset (List.mem_append_right _ List.mem_cons_self)

/-- Among the first elements with the property, each comes after few others. -/
theorem exists_of_mem_take_filter {x : α} (h : x ∈ (xs.filter p).take m) :
    p x = true ∧ ∃ before, before ++ [x] <+: xs ∧ (before.filter p).length < m := by
  induction xs generalizing m with
  | nil => exact absurd (List.mem_of_mem_take h) List.not_mem_nil
  | cons a xs ih =>
    by_cases ha : p a = true
    · rw [List.filter_cons_of_pos ha] at h
      cases m with
      | zero => exact absurd h List.not_mem_nil
      | succ m =>
        rw [List.take_succ_cons, List.mem_cons] at h
        rcases h with rfl | h
        · exact ⟨ha, [], ⟨xs, rfl⟩, Nat.succ_pos m⟩
        · obtain ⟨hx, before, hbefore, hfew⟩ := ih h
          refine ⟨hx, a :: before, (List.prefix_cons_inj a).mpr hbefore, ?_⟩
          rw [List.filter_cons_of_pos ha, List.length_cons]
          omega
    · rw [List.filter_cons_of_neg ha] at h
      obtain ⟨hx, before, hbefore, hfew⟩ := ih h
      refine ⟨hx, a :: before, (List.prefix_cons_inj a).mpr hbefore, ?_⟩
      rwa [List.filter_cons_of_neg ha]

/-- Two properties have the same first elements exactly when they agree until enough of
    them are found. -/
theorem take_filter_eq_iff (hnodup : xs.Nodup) :
    (xs.filter p).take m = (xs.filter q).take m ↔
      ∀ before x, before ++ [x] <+: xs → (before.filter p).length < m → p x = q x := by
  induction xs generalizing m with
  | nil =>
    refine iff_of_true rfl fun before x h => ?_
    exact absurd (List.prefix_nil.mp h) (by simp)
  | cons a xs ih =>
    obtain ⟨hnot, hnodup⟩ := List.nodup_cons.mp hnodup
    -- the elements after `a` come after it
    have hsplit : (∀ before x, before ++ [x] <+: a :: xs → (before.filter p).length < m →
        p x = q x) ↔ (0 < m → p a = q a) ∧ ∀ before x, before ++ [x] <+: xs →
          ((a :: before).filter p).length < m → p x = q x := by
      constructor
      · exact fun h => ⟨h [] a ⟨xs, rfl⟩, fun before x hbefore =>
          h (a :: before) x ((List.prefix_cons_inj a).mpr hbefore)⟩
      · rintro ⟨hfirst, hrest⟩ before x hbefore hfew
        cases before with
        | nil =>
          obtain rfl := (List.cons_prefix_cons.mp hbefore).1
          exact hfirst hfew
        | cons b before =>
          obtain ⟨rfl, hlater⟩ := List.cons_prefix_cons.mp hbefore
          exact hrest before x hlater hfew
    have hforeign : ∀ (r : α → Bool) (m : Nat), a ∉ (xs.filter r).take m :=
      fun r m hmem => hnot (List.mem_of_mem_filter (List.mem_of_mem_take hmem))
    rw [hsplit]
    cases m with
    | zero => simp
    | succ m =>
      by_cases hp : p a = true <;> by_cases hq : q a = true
      · rw [List.filter_cons_of_pos hp, List.filter_cons_of_pos hq, List.take_succ_cons,
          List.take_succ_cons, List.cons_inj_right, ih hnodup,
          and_iff_right fun _ => hp.trans hq.symm]
        simp only [List.filter_cons_of_pos hp, List.length_cons, Nat.add_lt_add_iff_right]
      · rw [List.filter_cons_of_pos hp, List.filter_cons_of_neg hq, List.take_succ_cons]
        refine iff_of_false (fun heq => ?_) fun h => hq ((h.1 (Nat.succ_pos m)).symm.trans hp)
        exact hforeign q (m + 1) (heq ▸ List.mem_cons_self)
      · rw [List.filter_cons_of_neg hp, List.filter_cons_of_pos hq, List.take_succ_cons]
        refine iff_of_false (fun heq => ?_) fun h => hp ((h.1 (Nat.succ_pos m)).trans hq)
        exact hforeign p (m + 1) (heq ▸ List.mem_cons_self)
      · have hsame : p a = q a := by
          rw [Bool.not_eq_true] at hp hq
          rw [hp, hq]
        rw [List.filter_cons_of_neg hp, List.filter_cons_of_neg hq, ih hnodup,
          and_iff_right fun _ => hsame]
        simp only [List.filter_cons_of_neg hp]

end FirstOf

end PiRlm.Lib

/-
  PiRlm.Lib.Commuting

  Folds whose steps commute up to an equivalence of states.

  The states of interest satisfy an invariant and the steps are those of the allowed events;
  where marked events commute with the others and with each other, only their multiset counts.
-/
import Mathlib

namespace PiRlm.Lib

variable {S E : Type} {step : S → E → S} {r : Setoid S} {Inv : S → Prop} {Allowed : E → Prop}

/-- Allowed events keep the invariant and the equivalence. -/
structure Respects (step : S → E → S) (r : Setoid S) (Inv : S → Prop) (Allowed : E → Prop) :
    Prop where
  inv : ∀ s e, Inv s → Allowed e → Inv (step s e)
  congr : ∀ s s' e, Inv s → Inv s' → Allowed e → r s s' → r (step s e) (step s' e)

/-- The order of two events makes no difference in the states of interest. -/
def CommuteAt (step : S → E → S) (r : Setoid S) (Inv : S → Prop) (a b : E) : Prop :=
  ∀ s, Inv s → r (step (step s a) b) (step (step s b) a)

namespace Respects

variable (h : Respects step r Inv Allowed)
include h

theorem foldl_inv {es : List E} (hes : ∀ e ∈ es, Allowed e) {s : S} (hs : Inv s) :
    Inv (es.foldl step s) := by
  induction es generalizing s with
  | nil => exact hs
  | cons e es ih =>
    rw [List.forall_mem_cons] at hes
    exact ih hes.2 (h.inv s e hs hes.1)

theorem foldl_congr {es : List E} (hes : ∀ e ∈ es, Allowed e) {s s' : S} (hs : Inv s)
    (hs' : Inv s') (hr : r s s') : r (es.foldl step s) (es.foldl step s') := by
  induction es generalizing s s' with
  | nil => exact hr
  | cons e es ih =>
    rw [List.forall_mem_cons] at hes
    exact ih hes.2 (h.inv s e hs hes.1) (h.inv s' e hs' hes.1) (h.congr s s' e hs hs' hes.1 hr)

/-- An event may be moved behind events it commutes with. -/
theorem foldl_move {p : E} (hp : Allowed p) {es : List E} (hes : ∀ e ∈ es, Allowed e)
    (hcomm : ∀ e ∈ es, CommuteAt step r Inv p e) {s : S} (hs : Inv s) :
    r (es.foldl step (step s p)) (step (es.foldl step s) p) := by
  induction es generalizing s with
  | nil => exact r.refl _
  | cons e es ih =>
    rw [List.forall_mem_cons] at hes hcomm
    have hswap : r (es.foldl step (step (step s p) e)) (es.foldl step (step (step s e) p)) :=
      h.foldl_congr hes.2 (h.inv _ e (h.inv s p hs hp) hes.1) (h.inv _ p (h.inv s e hs hes.1) hp)
        (hcomm.1 s hs)
    exact r.trans hswap (ih hes.2 hcomm.2 (h.inv s e hs hes.1))

/-- Marked events that commute with the others may be moved to the end. -/
theorem foldl_partition (mark : E → Bool) {es : List E} (hes : ∀ e ∈ es, Allowed e)
    (hcomm : ∀ p ∈ es, mark p = true → ∀ e ∈ es, mark e = false → CommuteAt step r Inv p e)
    {s : S} (hs : Inv s) :
    r (es.foldl step s)
      ((es.filter mark).foldl step ((es.filter fun e => !mark e).foldl step s)) := by
  induction es generalizing s with
  | nil => exact r.refl _
  | cons e es ih =>
    rw [List.forall_mem_cons] at hes
    have hrest := ih hes.2 (fun p hp hm e he => hcomm p (List.mem_cons_of_mem _ hp) hm e
      (List.mem_cons_of_mem _ he)) (h.inv s e hs hes.1)
    rw [List.foldl_cons]
    cases hmark : mark e with
    | false =>
      have hmarked : (e :: es).filter mark = es.filter mark := by simp [hmark]
      have hothers : (e :: es).filter (fun e => !mark e) = e :: es.filter fun e => !mark e := by
        simp [hmark]
      rw [hmarked, hothers]
      exact hrest
    | true =>
      have hmarked : (e :: es).filter mark = e :: es.filter mark := by simp [hmark]
      have hrest' : (e :: es).filter (fun e => !mark e) = es.filter fun e => !mark e := by
        simp [hmark]
      rw [hmarked, hrest']
      have hothers : ∀ e ∈ es.filter fun e => !mark e, Allowed e := fun e he =>
        hes.2 e (List.mem_of_mem_filter he)
      have hmove := h.foldl_move hes.1 hothers (fun e' he' => hcomm e (List.mem_cons_self) hmark e'
        (List.mem_cons_of_mem _ (List.mem_of_mem_filter he'))
        (by simpa using (List.mem_filter.mp he').2)) hs
      refine r.trans hrest (h.foldl_congr (fun e he => hes.2 e (List.mem_of_mem_filter he)) ?_ ?_
        hmove)
      · exact h.foldl_inv hothers (h.inv s e hs hes.1)
      · exact h.inv _ e (h.foldl_inv hothers hs) hes.1

/-- The order of events that commute with each other makes no difference. -/
theorem foldl_perm {es es' : List E} (hperm : es.Perm es') (hes : ∀ e ∈ es, Allowed e)
    (hcomm : ∀ a ∈ es, ∀ b ∈ es, CommuteAt step r Inv a b) {s : S} (hs : Inv s) :
    r (es.foldl step s) (es'.foldl step s) := by
  induction hperm generalizing s with
  | nil => exact r.refl _
  | cons e _ ih =>
    rw [List.forall_mem_cons] at hes
    exact ih hes.2 (fun a ha b hb => hcomm a (List.mem_cons_of_mem e ha) b
      (List.mem_cons_of_mem e hb)) (h.inv s e hs hes.1)
  | swap a b es =>
    have ha : Allowed a := hes a (by simp)
    have hb : Allowed b := hes b (by simp)
    refine h.foldl_congr (fun e he => hes e (by simp [he])) ?_ ?_
      (hcomm b (by simp) a (by simp) s hs)
    · exact h.inv _ a (h.inv s b hs hb) ha
    · exact h.inv _ b (h.inv s a hs ha) hb
  | trans hperm _ ih ih' =>
    refine r.trans (ih hes hcomm hs) (ih' (fun e he => hes e (hperm.mem_iff.mpr he))
      (fun a ha b hb => hcomm a (hperm.mem_iff.mpr ha) b (hperm.mem_iff.mpr hb)) hs)

/-- Two lists with the same other events in the same order, and the same marked events in some
    order, lead to equivalent states. -/
theorem foldl_rearranged (mark : E → Bool) {es es' : List E} (hes : ∀ e ∈ es, Allowed e)
    (hothers : es.filter (fun e => !mark e) = es'.filter fun e => !mark e)
    (hmarked : (es.filter mark).Perm (es'.filter mark))
    (hcomm : ∀ p ∈ es, mark p = true → ∀ e ∈ es, CommuteAt step r Inv p e) {s : S} (hs : Inv s) :
    r (es.foldl step s) (es'.foldl step s) := by
  have hmem : ∀ e ∈ es', e ∈ es := by
    intro e he
    cases hmark : mark e with
    | true =>
      exact List.mem_of_mem_filter (hmarked.mem_iff.mpr (List.mem_filter.mpr ⟨he, hmark⟩))
    | false =>
      have hother : e ∈ es'.filter fun e => !mark e := List.mem_filter.mpr ⟨he, by simp [hmark]⟩
      rw [← hothers] at hother
      exact List.mem_of_mem_filter hother
  have hpart := h.foldl_partition mark hes (fun p hp hm e he _ => hcomm p hp hm e he) hs
  have hpart' := h.foldl_partition mark (fun e he => hes e (hmem e he))
    (fun p hp hm e he _ => hcomm p (hmem p hp) hm e (hmem e he)) hs
  rw [← hothers] at hpart'
  refine r.trans hpart (r.trans (h.foldl_perm hmarked ?_ ?_ ?_) (r.symm hpart'))
  · exact fun e he => hes e (List.mem_of_mem_filter he)
  · intro a ha b hb
    exact hcomm a (List.mem_of_mem_filter ha) (List.mem_filter.mp ha).2 b (List.mem_of_mem_filter hb)
  · exact h.foldl_inv (fun e he => hes e (List.mem_of_mem_filter he)) hs

end Respects

end PiRlm.Lib

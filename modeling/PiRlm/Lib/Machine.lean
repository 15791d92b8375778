/-
  PiRlm.Lib.Machine

  Machines that take labelled steps, and what holds along their runs.

  A step is a partial function of the state and a label.  The label carries every choice
  that the machine itself does not make: who moves, and what its environment answers.
-/
import Mathlib

namespace PiRlm.Lib.Machine

variable {S E : Type}

/-- The state after a list of labels, when every step is possible. -/
def run (step : S → E → Option S) : S → List E → Option S
  | s, [] => some s
  | s, e :: es =>
    match step s e with
    | some s' => run step s' es
    | none => none

/-- Every step of the run meets a condition on the state before it and its label. -/
def Along (step : S → E → Option S) (cond : S → E → Prop) : S → List E → Prop
  | _, [] => True
  | s, e :: es => cond s e ∧ ∀ s', step s e = some s' → Along step cond s' es

instance decidableAlong (step : S → E → Option S) (cond : S → E → Prop)
    [∀ s e, Decidable (cond s e)] : ∀ s es, Decidable (Along step cond s es)
  | _, [] => isTrue trivial
  | s, e :: es =>
    match hstep : step s e with
    | none =>
      decidable_of_iff (cond s e) ⟨fun h => ⟨h, fun _ hs' => nomatch hstep.symm.trans hs'⟩, And.left⟩
    | some s' =>
      have := decidableAlong step cond s' es
      decidable_of_iff (cond s e ∧ Along step cond s' es)
        ⟨fun h => ⟨h.1, fun _ hs => Option.some.inj (hstep.symm.trans hs) ▸ h.2⟩,
          fun h => ⟨h.1, h.2 s' hstep⟩⟩

section

variable {step : S → E → Option S} {cond : S → E → Prop} {s s' : S} {e : E} {es es' : List E}

theorem run_cons_bind : run step s (e :: es) = (step s e).bind (run step · es) := by
  rw [run]
  cases step s e <;> rfl

theorem run_cons (h : step s e = some s') : run step s (e :: es) = run step s' es := by
  rw [run_cons_bind, h, Option.bind_some]

theorem run_append : run step s (es ++ es') = (run step s es).bind (run step · es') := by
  induction es generalizing s with
  | nil => rfl
  | cons e es ih =>
    rw [List.cons_append, run_cons_bind, run_cons_bind, Option.bind_assoc]
    exact Option.bind_congr fun s₁ _ => ih

/-- A condition that is always met. -/
theorem along_true : Along step (fun _ _ => True) s es := by
  induction es generalizing s with
  | nil => exact trivial
  | cons e es ih => exact ⟨trivial, fun _ _ => ih⟩

theorem Along.mono {cond' : S → E → Prop} (h : Along step cond s es)
    (himp : ∀ s e, cond s e → cond' s e) : Along step cond' s es := by
  induction es generalizing s with
  | nil => exact trivial
  | cons e es ih => exact ⟨himp s e h.1, fun s' hs' => ih (h.2 s' hs')⟩

/-- An invariant of the steps that meet the condition holds along the runs that meet it. -/
theorem run_invariant {I : S → Prop}
    (hstep : ∀ s e s', I s → cond s e → step s e = some s' → I s')
    (hinit : I s) (halong : Along step cond s es) (hrun : run step s es = some s') : I s' := by
  induction es generalizing s with
  | nil => exact Option.some.inj hrun ▸ hinit
  | cons e es ih =>
    obtain ⟨s₁, hs, hrun⟩ := Option.bind_eq_some_iff.mp (run_cons_bind.symm.trans hrun)
    exact ih (hstep s e s₁ hinit halong.1 hs) (halong.2 s₁ hs) hrun

/-- An invariant of all steps holds in every state that is reached. -/
theorem run_invariant_of_step {I : S → Prop}
    (hstep : ∀ s e s', I s → step s e = some s' → I s')
    (hinit : I s) (hrun : run step s es = some s') : I s' :=
  run_invariant (fun s e s' hI _ => hstep s e s' hI) hinit along_true hrun

/-- What does not hold at first and holds at last is brought about by one of the steps. -/
theorem exists_step_of_run {P : S → Prop} (hinit : ¬ P s) (hlast : P s')
    (hrun : run step s es = some s') :
    ∃ before e after s₁ s₂, es = before ++ e :: after ∧ run step s before = some s₁ ∧
      step s₁ e = some s₂ ∧ ¬ P s₁ ∧ P s₂ ∧ run step s₂ after = some s' := by
  induction es generalizing s with
  | nil => exact absurd (Option.some.inj hrun ▸ hlast) hinit
  | cons e es ih =>
    obtain ⟨s₁, hs, hrun⟩ := Option.bind_eq_some_iff.mp (run_cons_bind.symm.trans hrun)
    by_cases hP : P s₁
    · exact ⟨[], e, es, s, s₁, rfl, rfl, hs, hinit, hP, hrun⟩
    · obtain ⟨before, e', after, s₂, s₃, rfl, hbefore, hrest⟩ := ih hP hrun
      exact ⟨e :: before, e', after, s₂, s₃, rfl, (run_cons hs).trans hbefore, hrest⟩

end

end PiRlm.Lib.Machine

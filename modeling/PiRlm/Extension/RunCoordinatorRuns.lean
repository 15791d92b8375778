/-
  PiRlm.Extension.RunCoordinatorRuns

  The operations of the run coordinator as sequences of changes, and the invariants of
  every run of operations.
-/
import Mathlib
import PiRlm.Extension.RunCoordinatorSound

namespace PiRlm.Extension

open PiRlm.Lib PiRlm.Core PiRlm.Runtime

namespace Coordinator

variable {s s' : Coordinator} {i j : Nat} {r : RecordState} {control : LocalRunControl}
  {allowed : Actor → Prop} (source : Nat → Option RunProgressSnapshot)

-- ============================================================================
-- Reading progress
-- ============================================================================

theorem identify_acts {record : RecordState} {runId : JsString}
    (hr : s.records[i]? = some r) (hactive : i ∈ s.active) (hrunId : r.runId = record.runId) :
    Acts (· = .source i) s (s.identify i record runId) := by
  have hconflict : Acts (· = .source i) s (s.conflict i) :=
    .single rfl (.read i _ fun _ => rfl)
  rw [identify]
  split
  · exact hconflict
  · split
    · rename_i hnone
      split
      · rename_i hfree
        rw [← hrunId, Option.isNone_iff_eq_none] at hnone
        exact .single rfl (.bind _ i r .runId runId (.inr ⟨rfl, rfl⟩) hr hactive hnone hfree)
      · exact hconflict
    · exact .refl

theorem readSnapshot_acts {snapshot : RunProgressSnapshot} (hr : s.records[i]? = some r)
    (hactive : i ∈ s.active) : Acts (· = .source i) s (s.readSnapshot i r snapshot) := by
  let progressed := s.modify i ({ · with progress := some snapshot })
  have hprogressed : Acts (· = .source i) s progressed := .single rfl (.read i _ fun _ => rfl)
  have hprogressedRecord : progressed.records[i]? = some { r with progress := some snapshot } := by
    rw [modify_getElem?, if_pos rfl, hr]
    rfl
  rw [readSnapshot]
  split
  · split
    · exact hprogressed
    · exact .refl
  · split
    · exact hprogressed.trans (identify_acts hprogressedRecord hactive rfl)
    · exact identify_acts hr hactive rfl

theorem refresh_acts (h : s.Inv) (hi : s.Registered i) :
    Acts (· = .source i) s (s.refresh source i) := by
  rw [refresh]
  split
  · exact .refl
  · rename_i record hrecord
    split
    · rename_i hread
      rw [Bool.and_eq_true, Option.isNone_iff_eq_none] at hread
      have hcount : Acts (· = .source i) s { s with reads := s.reads + 1 } :=
        .single rfl (.count _ _)
      split
      · exact hcount
      · -- a record without a terminal is active
        exact hcount.trans
          (readSnapshot_acts hrecord (h.active_of_terminal hi hrecord hread.2))
    · exact .refl

theorem source_place (actor : Actor) (h : ∃ j, actor = .source j) :
    actor.place ≠ none ∧ ∀ i, actor ≠ .retirement i := by
  obtain ⟨j, rfl⟩ := h
  exact ⟨nofun, nofun⟩

/-- Reading progress leaves the collections and the session alone. -/
theorem sources_frame (hacts : Acts (fun actor => ∃ j, actor = .source j) s s') :
    s'.active = s.active ∧ s'.recent = s.recent ∧ s'.currentSession = s.currentSession ∧
      s'.minimumGeneration = s.minimumGeneration ∧ s'.subscribers = s.subscribers :=
  hacts.frame (fun actor h => (source_place actor h).1)
    fun i h => (source_place _ h).2 i rfl

theorem projectAll_acts (h : s.Inv) (indices : List Nat) (hindices : ∀ i ∈ indices, s.Registered i) :
    Acts (fun actor => ∃ j, actor = .source j) s (s.projectAll source indices).1 := by
  induction indices generalizing s with
  | nil => exact .refl
  | cons i indices ih =>
    have hfirst : Acts (fun actor => ∃ j, actor = .source j) s (s.refresh source i) :=
      (refresh_acts source h (hindices i List.mem_cons_self)).mono fun actor heq => ⟨i, heq⟩
    have hframe := sources_frame hfirst
    refine hfirst.trans (ih (hfirst.inv h) fun j hj => ?_)
    rw [Registered, hframe.1, hframe.2.1]
    exact hindices j (List.mem_cons_of_mem i hj)

theorem listing_acts (h : s.Inv) :
    Acts (fun actor => ∃ j, actor = .source j) s (s.listing source).1 :=
  projectAll_acts source h _ fun _ hi => List.mem_append.mp hi

/-- Without subscribers nothing is read. -/
theorem notify_acts (h : s.Inv) :
    Acts (fun actor => s.subscribers ≠ 0 ∧ ∃ j, actor = .source j) s (s.notify source) := by
  rw [notify]
  split
  · exact .refl
  · rename_i hsubscribers
    exact (listing_acts source h).mono fun actor hsource => ⟨hsubscribers, hsource⟩

-- ============================================================================
-- Operations of a handle
-- ============================================================================

/-- Who acts for the handle of a record: the record itself, and the sources that a
    notification reads. -/
def HandleActor (s : Coordinator) (i : Nat) (actor : Actor) : Prop :=
  actor.place = some i ∨ (s.subscribers ≠ 0 ∧ ∃ j, actor = .source j)

/-- A notification after changes that leave the subscribers alone. -/
theorem Acts.notify (hacts : Acts (s.HandleActor i) s s') (h : s.Inv)
    (hsubscribers : s'.subscribers = s.subscribers) :
    Acts (s.HandleActor i) s (s'.notify source) := by
  refine hacts.trans ((notify_acts source (hacts.inv h)).mono fun actor hsource => ?_)
  rw [hsubscribers] at hsource
  exact .inr hsource

variable (isControlOrFormat : Nat → Bool)

/-- Everyone may act. -/
abbrev Any (_ : Actor) : Prop := True

theorem Acts.any (hacts : Acts allowed s s') : Acts Any s s' := hacts.mono fun _ _ => trivial

end Coordinator

end PiRlm.Extension

/-
  PiRlm.Extension.RunCoordinatorSound

  What the operations of the run coordinator may change, and what they keep.

  Every operation is a sequence of a few changes, each made by the source, the owner or the
  retirement of one record.  The invariants are shown for one change; that an operation
  makes changes of its own record only is shown once for each operation.
-/
import Mathlib
import PiRlm.Extension.RunCoordinator

namespace PiRlm.Extension

open PiRlm.Lib PiRlm.Core PiRlm.Runtime

namespace RecordState

/-- The aliases that a record carries. -/
def Names (record : RecordState) (name : JsString) : Prop :=
  name = record.control.localId ∨ record.runId = some name ∨ record.runName = some name

/-- What no change takes from a record. -/
structure Kept (record later : RecordState) : Prop where
  control : later.control = record.control
  sessionId : later.sessionId = record.sessionId
  generation : later.generation = record.generation
  runId : ∀ name, record.runId = some name → later.runId = some name
  runName : ∀ name, record.runName = some name → later.runName = some name
  cancelRequested : record.cancelRequested = true → later.cancelRequested = true
  terminal : ∀ terminal, record.terminal = some terminal → later.terminal = some terminal

theorem Kept.refl (record : RecordState) : record.Kept record :=
  ⟨rfl, rfl, rfl, fun _ h => h, fun _ h => h, id, fun _ h => h⟩

theorem Kept.trans {record record' record'' : RecordState} (h : record.Kept record')
    (h' : record'.Kept record'') : record.Kept record'' where
  control := h'.control.trans h.control
  sessionId := h'.sessionId.trans h.sessionId
  generation := h'.generation.trans h.generation
  runId := fun name hname => h'.runId name (h.runId name hname)
  runName := fun name hname => h'.runName name (h.runName name hname)
  cancelRequested := fun hcancel => h'.cancelRequested (h.cancelRequested hcancel)
  terminal := fun terminal hterminal => h'.terminal terminal (h.terminal terminal hterminal)

/-- What reading the progress of a run may change of its record. -/
structure Read (record later : RecordState) : Prop where
  eq : later = { record with
    progress := later.progress, identityConflict := later.identityConflict, runId := later.runId }
  runId : ∀ name, record.runId = some name → later.runId = some name

theorem Read.refl (record : RecordState) : record.Read record := ⟨rfl, fun _ h => h⟩

theorem Read.trans {record record' record'' : RecordState} (h : record.Read record')
    (h' : record'.Read record'') : record.Read record'' where
  eq := by
    rw [h'.eq, h.eq]
  runId := fun name hname => h'.runId name (h.runId name hname)

end RecordState

-- ============================================================================
-- Changes
-- ============================================================================

/-- Who makes a change. -/
inductive Actor where
  | source (i : Nat)
  | owner (i : Nat)
  | retirement (i : Nat)
  | coordinator
  deriving Repr, DecidableEq

/-- The record that an actor acts on. -/
def Actor.place : Actor → Option Nat
  | .source i => some i
  | .owner i => some i
  | .retirement i => some i
  | .coordinator => none

namespace Coordinator

inductive Change (s : Coordinator) : Actor → Coordinator → Prop where
  | read (i : Nat) (f : RecordState → RecordState)
      (hf : ∀ r, f r = { r with progress := (f r).progress,
                                identityConflict := (f r).identityConflict }) :
      Change s (.source i) (s.modify i f)
  | mutate (i : Nat) (f : RecordState → RecordState)
      (hf : ∀ r, f r = { r with progress := (f r).progress,
                                progressSource := (f r).progressSource,
                                identityConflict := (f r).identityConflict,
                                cancelRequested := (f r).cancelRequested })
      (hcancel : ∀ r, r.cancelRequested = true → (f r).cancelRequested = true) :
      Change s (.owner i) (s.modify i f)
  | bind (actor : Actor) (i : Nat) (r : RecordState) (kind : AliasKind) (name : JsString)
      (hactor : actor = .owner i ∨ (actor = .source i ∧ kind = .runId))
      (hr : s.records[i]? = some r) (hactive : i ∈ s.active) (hnone : r.named kind = none)
      (hfree : s.aliasFree i name = true) : Change s actor (s.bind i kind name)
  | retire (i : Nat) (r : RecordState) (terminal : RunTerminalProjection)
      (hr : s.records[i]? = some r) (hactive : i ∈ s.active) :
      Change s (.retirement i) (s.retire i terminal)
  | register (record : RecordState) (hfresh : s.aliases record.control.localId = none)
      (hactive : s.active.length < runCoordinatorMaxActive) (hsession : s.currentSession ≠ none)
      (hrunId : record.runId = none) (hrunName : record.runName = none)
      (hterminal : record.terminal = none) : Change s .coordinator (s.register record)
  | session (current : Option SessionBinding) (minimum : Int)
      (hminimum : s.minimumGeneration ≤ minimum)
      (hcurrent : ∀ session, current = some session → session.generation ≤ minimum)
      (hcancelled : current = none → ∀ i ∈ s.active, ∀ r, s.records[i]? = some r →
        r.cancelRequested = true) :
      Change s .coordinator { s with currentSession := current, minimumGeneration := minimum }
  | count (reads : Nat) (actor : Actor) : Change s actor { s with reads := reads }
  | surroundings (subscribers : Nat) (aborted : List Nat) :
      Change s .coordinator { s with subscribers := subscribers, aborted := aborted }

/-- Changes of some actors, one after the other. -/
def Acts (allowed : Actor → Prop) : Coordinator → Coordinator → Prop :=
  Relation.ReflTransGen fun s s' => ∃ actor, allowed actor ∧ Change s actor s'

-- ============================================================================
-- Records
-- ============================================================================

variable {s s' : Coordinator} {i j : Nat} {r : RecordState} {name : JsString}

theorem modify_getElem? (f : RecordState → RecordState) :
    (s.modify i f).records[j]? = if i = j then s.records[j]?.map f else s.records[j]? := by
  rw [modify, List.getElem?_modify]
  split
  · rfl
  · exact Option.map_id' ..

-- ============================================================================
-- Eviction
-- ============================================================================

theorem release_aliases (key : Option JsString) :
    (s.release i key).aliases name = some j ↔
      s.aliases name = some j ∧ ¬(key = some name ∧ j = i) := by
  cases key with
  | none => exact ⟨fun h => ⟨h, fun hkey => absurd hkey.1 nofun⟩, And.left⟩
  | some key =>
    rw [release, Option.some.injEq]
    split
    · rename_i howned
      by_cases hkey : key = name
      · subst hkey
        show Function.update s.aliases key none key = some j ↔ _
        rw [Function.update_self, howned, Option.some.injEq]
        exact ⟨nofun, fun h => absurd ⟨rfl, h.1.symm⟩ h.2⟩
      · show Function.update s.aliases key none name = some j ↔ _
        rw [Function.update_of_ne (Ne.symm hkey)]
        exact ⟨fun h => ⟨h, fun h' => hkey h'.1⟩, And.left⟩
    · rename_i hother
      refine ⟨fun h => ⟨h, ?_⟩, And.left⟩
      rintro ⟨rfl, rfl⟩
      exact hother h

theorem release_frame (key : Option JsString) :
    s.release i key = { s with aliases := (s.release i key).aliases } := by
  cases key with
  | none => rfl
  | some key =>
    rw [release]
    split <;> rfl

theorem unbind_frame : s.unbind i = { s with aliases := (s.unbind i).aliases } := by
  rw [unbind]
  split
  · rfl
  · rename_i record _
    rw [release_frame record.runName, release_frame record.runId, release_frame]

/-- Every alias names a record that carries it. -/
def Carried (s : Coordinator) : Prop :=
  ∀ name i, s.aliases name = some i → ∃ r, s.records[i]? = some r ∧ r.Names name

theorem unbind_aliases (h : s.Carried) :
    (s.unbind i).aliases name = some j ↔ s.aliases name = some j ∧ j ≠ i := by
  rw [unbind]
  split
  · rename_i hmissing
    refine ⟨fun halias => ⟨halias, ?_⟩, And.left⟩
    rintro rfl
    obtain ⟨r, hr, -⟩ := h name j halias
    exact absurd (hmissing.symm.trans hr) nofun
  · rename_i record hrecord
    rw [release_aliases, release_aliases, release_aliases, Option.some.injEq]
    constructor
    · rintro ⟨⟨⟨halias, hlocalId⟩, hrunId⟩, hrunName⟩
      refine ⟨halias, ?_⟩
      rintro rfl
      -- one of the three keys is the name
      obtain ⟨r, hr, hnames⟩ := h name j halias
      obtain rfl := Option.some.inj (hrecord.symm.trans hr)
      rcases hnames with hname | hname | hname
      · exact hlocalId ⟨hname.symm, rfl⟩
      · exact hrunId ⟨hname, rfl⟩
      · exact hrunName ⟨hname, rfl⟩
    · rintro ⟨halias, hne⟩
      exact ⟨⟨⟨halias, fun h => hne h.2⟩, fun h => hne h.2⟩, fun h => hne h.2⟩

theorem Carried.unbind (h : s.Carried) (i : Nat) : (s.unbind i).Carried := by
  intro name j hj
  rw [unbind_frame]
  exact h name j ((unbind_aliases h).mp hj).1

theorem foldl_unbind (h : s.Carried) (evicted : List Nat) :
    evicted.foldl Coordinator.unbind s =
      { s with aliases := (evicted.foldl Coordinator.unbind s).aliases } ∧
    ∀ name j, (evicted.foldl Coordinator.unbind s).aliases name = some j ↔
      s.aliases name = some j ∧ j ∉ evicted := by
  induction evicted generalizing s with
  | nil => exact ⟨rfl, fun name j => ⟨fun h => ⟨h, List.not_mem_nil⟩, And.left⟩⟩
  | cons i evicted ih =>
    obtain ⟨hframe, haliases⟩ := ih (h.unbind i)
    rw [List.foldl_cons]
    refine ⟨?_, fun name j => ?_⟩
    · rw [hframe, unbind_frame]
    · rw [haliases, unbind_aliases h, List.mem_cons, not_or, and_assoc]

/-- What eviction leaves of the aliases and of the recent records. -/
theorem evict_spec (h : s.Carried) :
    s.evict = { s with aliases := s.evict.aliases, recent := s.recent.take runCoordinatorMaxRecent } ∧
    ∀ name j, s.evict.aliases name = some j ↔
      s.aliases name = some j ∧ j ∉ s.recent.drop runCoordinatorMaxRecent := by
  have hcarried : Carried { s with recent := s.recent.take runCoordinatorMaxRecent } := h
  obtain ⟨hframe, haliases⟩ :=
    foldl_unbind hcarried (s.recent.drop runCoordinatorMaxRecent).reverse
  refine ⟨hframe, fun name j => ?_⟩
  rw [evict, haliases, List.mem_reverse]

-- ============================================================================
-- The invariants
-- ============================================================================

/-- A retirement before the eviction. -/
def retired (s : Coordinator) (i : Nat) (terminal : RunTerminalProjection) : Coordinator :=
  { s.modify i ({ · with
      progressSource := false, terminal := some terminal, ownerSignal := none }) with
    active := s.active.erase i
    recent := i :: s.recent }

theorem retire_eq (terminal : RunTerminalProjection) :
    s.retire i terminal = (s.retired i terminal).evict := rfl

theorem retired_getElem? (terminal : RunTerminalProjection) :
    (s.retired i terminal).records[j]? =
      if i = j then s.records[j]?.map ({ · with
        progressSource := false, terminal := some terminal, ownerSignal := none })
      else s.records[j]? :=
  modify_getElem? _

theorem retired_carried (h : s.Carried) (terminal : RunTerminalProjection) :
    (s.retired i terminal).Carried := by
  intro name j hj
  obtain ⟨r, hr, hnames⟩ := h name j hj
  rw [retired_getElem?, hr]
  split
  · exact ⟨_, rfl, hnames⟩
  · exact ⟨r, rfl, hnames⟩

/-- A record that is active or recent. -/
def Registered (s : Coordinator) (i : Nat) : Prop := i ∈ s.active ∨ i ∈ s.recent

structure Inv (s : Coordinator) : Prop where
  alias_registered : ∀ name i, s.aliases name = some i → s.Registered i
  alias_carried : s.Carried
  reachable : ∀ i r name, s.Registered i → s.records[i]? = some r → r.Names name →
    s.aliases name = some i
  known : ∀ i, s.Registered i → i < s.records.length
  nodup : (s.active ++ s.recent).Nodup
  active_length : s.active.length ≤ runCoordinatorMaxActive
  recent_length : s.recent.length ≤ runCoordinatorMaxRecent
  running : ∀ i ∈ s.active, ∀ r, s.records[i]? = some r → r.terminal = none
  terminated : ∀ i ∈ s.recent, ∀ r, s.records[i]? = some r → r.terminal.isSome
  generation : ∀ session, s.currentSession = some session → session.generation ≤ s.minimumGeneration
  cancelled : s.currentSession = none → ∀ i ∈ s.active, ∀ r, s.records[i]? = some r →
    r.cancelRequested = true

namespace Inv

/-- A record that is not active has ended. -/
theorem active_of_terminal (h : s.Inv) (hi : s.Registered i) (hr : s.records[i]? = some r)
    (hterminal : r.terminal = none) : i ∈ s.active := by
  refine hi.resolve_right fun hrecent => ?_
  have hsome := h.terminated i hrecent r hr
  rw [hterminal] at hsome
  exact absurd hsome Bool.false_ne_true

/-- Changes that leave names and terminals alone keep the invariants. -/
theorem modify (h : s.Inv) {f : RecordState → RecordState}
    (hnames : ∀ r name, (f r).Names name ↔ r.Names name)
    (hterminal : ∀ r, (f r).terminal = r.terminal)
    (hcancel : ∀ r, r.cancelRequested = true → (f r).cancelRequested = true) :
    (s.modify i f).Inv := by
  -- the record of a place, before and after
  have hback : ∀ (j : Nat) r', (s.modify i f).records[j]? = some r' →
      ∃ r, s.records[j]? = some r ∧ (r' = r ∨ r' = f r) := by
    intro j r' hr'
    rw [modify_getElem?] at hr'
    split at hr'
    · obtain ⟨r, hr, rfl⟩ := Option.map_eq_some_iff.mp hr'
      exact ⟨r, hr, .inr rfl⟩
    · exact ⟨r', hr', .inl rfl⟩
  refine ⟨h.alias_registered, ?_, ?_, ?_, h.nodup, h.active_length, h.recent_length, ?_, ?_,
    h.generation, ?_⟩
  · intro name j hj
    obtain ⟨r, hr, hcarried⟩ := h.alias_carried name j hj
    rw [modify_getElem?, hr]
    split
    · exact ⟨f r, rfl, (hnames r name).mpr hcarried⟩
    · exact ⟨r, rfl, hcarried⟩
  · intro j r' name hj hr' hname
    obtain ⟨r, hr, rfl | rfl⟩ := hback j r' hr'
    · exact h.reachable j r' name hj hr hname
    · exact h.reachable j r name hj hr ((hnames r name).mp hname)
  · intro j hj
    rw [Coordinator.modify, List.length_modify]
    exact h.known j hj
  · intro j hj r' hr'
    obtain ⟨r, hr, rfl | rfl⟩ := hback j r' hr'
    · exact h.running j hj r' hr
    · exact (hterminal r).trans (h.running j hj r hr)
  · intro j hj r' hr'
    obtain ⟨r, hr, rfl | rfl⟩ := hback j r' hr'
    · exact h.terminated j hj r' hr
    · rw [hterminal]
      exact h.terminated j hj r hr
  · intro hsession j hj r' hr'
    obtain ⟨r, hr, rfl | rfl⟩ := hback j r' hr'
    · exact h.cancelled hsession j hj r' hr
    · exact hcancel r (h.cancelled hsession j hj r hr)

theorem bind (h : s.Inv) {kind : AliasKind} (hr : s.records[i]? = some r) (hactive : i ∈ s.active)
    (hnone : r.named kind = none) (hfree : s.aliasFree i name = true) :
    (s.bind i kind name).Inv := by
  have hset : ∀ other, (r.setAlias kind name).Names other ↔ r.Names other ∨ other = name := by
    intro other
    cases kind with
    | runId =>
      have hrunId : r.runId = none := hnone
      simp only [RecordState.Names, RecordState.setAlias, hrunId, Option.some.injEq, reduceCtorEq,
        false_or, eq_comm (a := name), or_assoc, or_comm (a := other = name)]
    | runName =>
      have hrunName : r.runName = none := hnone
      simp only [RecordState.Names, RecordState.setAlias, hrunName, Option.some.injEq, reduceCtorEq,
        or_false, eq_comm (a := name), or_assoc]
  have hbound : (s.bind i kind name).records[i]? = some (r.setAlias kind name) := by
    show (s.modify i _).records[i]? = _
    rw [modify_getElem?, if_pos rfl, hr]
    rfl
  have hother : ∀ j, j ≠ i → (s.bind i kind name).records[j]? = s.records[j]? := by
    intro j hj
    show (s.modify i _).records[j]? = _
    rw [modify_getElem?, if_neg (Ne.symm hj)]
  have hbase : ∀ r', (s.bind i kind name).records[i]? = some r' →
      r'.terminal = r.terminal ∧ r'.cancelRequested = r.cancelRequested := by
    intro r' hr'
    obtain rfl := Option.some.inj (hbound.symm.trans hr')
    cases kind <;> exact ⟨rfl, rfl⟩
  refine ⟨?_, ?_, ?_, ?_, h.nodup, h.active_length, h.recent_length, ?_, ?_, h.generation, ?_⟩
  · intro other j hj
    by_cases heq : other = name
    · subst heq
      rw [show (s.bind i kind other).aliases other = some i from Function.update_self ..] at hj
      exact Option.some.inj hj ▸ .inl hactive
    · rw [show (s.bind i kind name).aliases other = s.aliases other from
        Function.update_of_ne heq ..] at hj
      exact h.alias_registered other j hj
  · intro other j hj
    by_cases heq : other = name
    · subst heq
      rw [show (s.bind i kind other).aliases other = some i from Function.update_self ..] at hj
      obtain rfl := Option.some.inj hj
      exact ⟨_, hbound, (hset other).mpr (.inr rfl)⟩
    · rw [show (s.bind i kind name).aliases other = s.aliases other from
        Function.update_of_ne heq ..] at hj
      obtain ⟨r', hr', hcarried⟩ := h.alias_carried other j hj
      by_cases hij : j = i
      · subst hij
        obtain rfl := Option.some.inj (hr.symm.trans hr')
        exact ⟨_, hbound, (hset other).mpr (.inl hcarried)⟩
      · exact ⟨r', (hother j hij).trans hr', hcarried⟩
  · intro j r' other hj hr' hcarried
    by_cases heq : other = name
    · subst heq
      rw [show (s.bind i kind other).aliases other = some i from Function.update_self ..]
      by_cases hij : j = i
      · rw [hij]
      · -- the alias was free for the record
        rw [hother j hij] at hr'
        have hold := h.reachable j r' other hj hr' hcarried
        rw [aliasFree, hold] at hfree
        exact absurd (of_decide_eq_true hfree) hij
    · rw [show (s.bind i kind name).aliases other = s.aliases other from
        Function.update_of_ne heq ..]
      by_cases hij : j = i
      · subst hij
        obtain rfl := Option.some.inj (hbound.symm.trans hr')
        exact h.reachable j r other hj hr (((hset other).mp hcarried).resolve_right heq)
      · rw [hother j hij] at hr'
        exact h.reachable j r' other hj hr' hcarried
  · intro j hj
    show j < (s.records.modify i _).length
    rw [List.length_modify]
    exact h.known j hj
  · intro j hj r' hr'
    by_cases hij : j = i
    · subst hij
      exact (hbase r' hr').1.trans (h.running j hj r hr)
    · rw [hother j hij] at hr'
      exact h.running j hj r' hr'
  · intro j hj r' hr'
    by_cases hij : j = i
    · subst hij
      rw [(hbase r' hr').1]
      exact h.terminated j hj r hr
    · rw [hother j hij] at hr'
      exact h.terminated j hj r' hr'
  · intro hsession j hj r' hr'
    by_cases hij : j = i
    · subst hij
      rw [(hbase r' hr').2]
      exact h.cancelled hsession j hj r hr
    · rw [hother j hij] at hr'
      exact h.cancelled hsession j hj r' hr'

theorem retire (h : s.Inv) (terminal : RunTerminalProjection) (hactive : i ∈ s.active) :
    (s.retire i terminal).Inv := by
  have hcarried := retired_carried (i := i) h.alias_carried terminal
  obtain ⟨hframe, haliases⟩ := evict_spec hcarried
  have hback : ∀ (j : Nat) r', (s.retire i terminal).records[j]? = some r' →
      ∃ r, s.records[j]? = some r ∧ (j ≠ i ∧ r' = r ∨
        j = i ∧ r' = { r with progressSource := false, terminal := some terminal,
                              ownerSignal := none }) := by
    intro j r' hr'
    rw [retire_eq, hframe, retired_getElem?] at hr'
    split at hr'
    · rename_i hij
      obtain ⟨r, hr, rfl⟩ := Option.map_eq_some_iff.mp hr'
      exact ⟨r, hr, .inr ⟨hij.symm, rfl⟩⟩
    · rename_i hij
      exact ⟨r', hr', .inl ⟨Ne.symm hij, rfl⟩⟩
  have hperm : (s.active ++ s.recent).Perm (s.active.erase i ++ i :: s.recent) :=
    ((List.perm_cons_erase hactive).append_right _).trans List.perm_middle.symm
  have hnodup : (s.active.erase i ++ i :: s.recent).Nodup := hperm.nodup_iff.mp h.nodup
  obtain ⟨hactiveNodup, hrecentNodup, hdisjoint⟩ := List.nodup_append.mp hnodup
  have hregistered : ∀ j, s.Registered j ↔ j ∈ s.active.erase i ∨ j ∈ i :: s.recent := by
    intro j
    rw [Registered, ← List.mem_append, hperm.mem_iff, List.mem_append]
  have htake : ∀ j, j ∈ (i :: s.recent).take runCoordinatorMaxRecent → j ∈ i :: s.recent :=
    fun j => List.mem_of_mem_take
  -- a record that is kept is not evicted
  have hkept : ∀ j, (j ∈ s.active.erase i ∨ j ∈ (i :: s.recent).take runCoordinatorMaxRecent) →
      j ∉ (i :: s.recent).drop runCoordinatorMaxRecent := by
    rintro j (hj | hj) hdrop
    · exact hdisjoint j hj j (List.mem_of_mem_drop hdrop) rfl
    · exact List.disjoint_take_drop hrecentNodup (Nat.le_refl _) hj hdrop
  rw [retire_eq, hframe] at hback ⊢
  refine ⟨?_, ?_, ?_, ?_, ?_, ?_, ?_, ?_, ?_, h.generation, ?_⟩
  · intro name j hj
    obtain ⟨halias, hnotEvicted⟩ := (haliases name j).mp hj
    rcases (hregistered j).mp (h.alias_registered name j halias) with hj | hj
    · exact .inl hj
    · rw [← List.take_append_drop runCoordinatorMaxRecent (i :: s.recent), List.mem_append] at hj
      exact .inr (hj.resolve_right hnotEvicted)
  · intro name j hj
    exact hcarried name j ((haliases name j).mp hj).1
  · intro j r' name hj hr' hcarriedName
    obtain ⟨r, hr, hrecord⟩ := hback j r' hr'
    have hnames : r.Names name := by
      rcases hrecord with ⟨-, rfl⟩ | ⟨-, rfl⟩
      · exact hcarriedName
      · exact hcarriedName
    have hold : s.Registered j := (hregistered j).mpr (hj.imp_right (htake j))
    exact (haliases name j).mpr ⟨h.reachable j r name hold hr hnames, hkept j hj⟩
  · intro j hj
    show j < (s.records.modify i _).length
    rw [List.length_modify]
    exact h.known j ((hregistered j).mpr (hj.imp_right (htake j)))
  · exact hnodup.sublist ((List.Sublist.refl _).append (List.take_sublist _ _))
  · exact Nat.le_trans List.length_erase_le h.active_length
  · exact List.length_take_le _ _
  · intro j hj r' hr'
    have hne : j ≠ i := fun heq => hdisjoint j hj i List.mem_cons_self heq
    obtain ⟨r, hr, ⟨-, rfl⟩ | ⟨heq, -⟩⟩ := hback j r' hr'
    · exact h.running j (List.mem_of_mem_erase hj) r' hr
    · exact absurd heq hne
  · intro j hj r' hr'
    obtain ⟨r, hr, ⟨hne, rfl⟩ | ⟨-, rfl⟩⟩ := hback j r' hr'
    · exact h.terminated j ((List.mem_cons.mp (htake j hj)).resolve_left hne) r' hr
    · rfl
  · intro hsession j hj r' hr'
    obtain ⟨r, hr, ⟨-, rfl⟩ | ⟨-, rfl⟩⟩ := hback j r' hr'
    · exact h.cancelled hsession j (List.mem_of_mem_erase hj) r' hr
    · exact h.cancelled hsession j (List.mem_of_mem_erase hj) r hr

theorem register (h : s.Inv) (hfresh : s.aliases r.control.localId = none)
    (hactive : s.active.length < runCoordinatorMaxActive) (hsession : s.currentSession ≠ none)
    (hrunId : r.runId = none) (hrunName : r.runName = none) (hterminal : r.terminal = none) :
    (s.register r).Inv := by
  have hnew : ¬s.Registered s.records.length := fun hmem => Nat.lt_irrefl _ (h.known _ hmem)
  have hregistered : ∀ j, (s.register r).Registered j ↔ s.Registered j ∨ j = s.records.length := by
    intro j
    show (j ∈ s.active ++ [s.records.length] ∨ j ∈ s.recent) ↔ _
    rw [List.mem_append, List.mem_singleton, Registered, or_right_comm]
  have hnames : ∀ name, r.Names name ↔ name = r.control.localId := by
    intro name
    simp only [RecordState.Names, hrunId, hrunName, reduceCtorEq, or_false]
  have hold : ∀ (j : Nat) r', s.records[j]? = some r' → (s.register r).records[j]? = some r' := by
    intro j r' hr'
    show (s.records ++ [r])[j]? = _
    rw [List.getElem?_append_left (List.getElem?_eq_some_iff.mp hr').1]
    exact hr'
  have hback : ∀ (j : Nat) r', (s.register r).records[j]? = some r' → j ≠ s.records.length →
      s.records[j]? = some r' := by
    intro j r' hr' hne
    have hlt : j < (s.records ++ [r]).length := (List.getElem?_eq_some_iff.mp hr').1
    rw [List.length_append, List.length_singleton] at hlt
    have hr'' : (s.records ++ [r])[j]? = some r' := hr'
    rwa [List.getElem?_append_left (by omega)] at hr''
  have hlast : (s.register r).records[s.records.length]? = some r := List.getElem?_concat_length ..
  refine ⟨?_, ?_, ?_, ?_, ?_, ?_, h.recent_length, ?_, ?_, h.generation,
    fun hnone => absurd hnone hsession⟩
  · intro name j hj
    rw [hregistered]
    by_cases hname : name = r.control.localId
    · subst hname
      rw [show (s.register r).aliases r.control.localId = some s.records.length from
        Function.update_self ..] at hj
      exact .inr (Option.some.inj hj).symm
    · rw [show (s.register r).aliases name = s.aliases name from Function.update_of_ne hname ..] at hj
      exact .inl (h.alias_registered name j hj)
  · intro name j hj
    by_cases hname : name = r.control.localId
    · subst hname
      rw [show (s.register r).aliases r.control.localId = some s.records.length from
        Function.update_self ..] at hj
      obtain rfl := Option.some.inj hj
      exact ⟨r, hlast, .inl rfl⟩
    · rw [show (s.register r).aliases name = s.aliases name from Function.update_of_ne hname ..] at hj
      obtain ⟨r', hr', hcarried⟩ := h.alias_carried name j hj
      exact ⟨r', hold j r' hr', hcarried⟩
  · intro j r' name hj hr' hcarried
    by_cases hjnew : j = s.records.length
    · subst hjnew
      obtain rfl := Option.some.inj (hlast.symm.trans hr')
      rw [(hnames name).mp hcarried]
      exact Function.update_self ..
    · have holdj := ((hregistered j).mp hj).resolve_right hjnew
      have halias := h.reachable j r' name holdj (hback j r' hr' hjnew) hcarried
      have hne : name ≠ r.control.localId := by
        rintro rfl
        exact absurd (hfresh.symm.trans halias) nofun
      exact (Function.update_of_ne hne ..).trans halias
  · intro j hj
    show j < (s.records ++ [r]).length
    rw [List.length_append, List.length_singleton]
    rcases (hregistered j).mp hj with hj | rfl
    · exact Nat.lt_succ_of_lt (h.known j hj)
    · exact Nat.lt_succ_self _
  · show (s.active ++ [s.records.length] ++ s.recent).Nodup
    rw [List.append_assoc, List.singleton_append, List.perm_middle.nodup_iff, List.nodup_cons,
      List.mem_append]
    exact ⟨hnew, h.nodup⟩
  · show (s.active ++ [s.records.length]).length ≤ _
    rw [List.length_append, List.length_singleton]
    exact hactive
  · intro j hj r' hr'
    have hj' : j ∈ s.active ++ [s.records.length] := hj
    rcases List.mem_append.mp hj' with hj' | hj'
    · refine h.running j hj' r' (hback j r' hr' fun heq => ?_)
      exact hnew (heq ▸ .inl hj')
    · obtain rfl := List.mem_singleton.mp hj'
      obtain rfl := Option.some.inj (hlast.symm.trans hr')
      exact hterminal
  · intro j hj r' hr'
    refine h.terminated j hj r' (hback j r' hr' fun heq => ?_)
    exact hnew (heq ▸ .inr hj)

end Inv

-- ============================================================================
-- One change
-- ============================================================================

variable {actor : Actor}

theorem Inv.of_change (h : s.Inv) (hchange : s.Change actor s') : s'.Inv := by
  cases hchange with
  | read i f hf =>
    refine h.modify (fun r name => ?_) (fun r => ?_) fun r hcancel => ?_
    · rw [hf]
      exact Iff.rfl
    · rw [hf]
    · rw [hf]
      exact hcancel
  | mutate i f hf hcancel =>
    refine h.modify (fun r name => ?_) (fun r => ?_) hcancel
    · rw [hf]
      exact Iff.rfl
    · rw [hf]
  | bind _ i r kind name hactor hr hactive hnone hfree => exact h.bind hr hactive hnone hfree
  | retire i r terminal hr hactive => exact h.retire terminal hactive
  | register r hfresh hactive hsession hrunId hrunName hterminal =>
    exact h.register hfresh hactive hsession hrunId hrunName hterminal
  | session current minimum hminimum hcurrent hcancelled =>
    exact { h with generation := hcurrent, cancelled := hcancelled }
  | count reads =>
    exact { h with }
  | surroundings subscribers aborted =>
    exact { h with }

theorem retire_records (h : s.Inv) (terminal : RunTerminalProjection) :
    (s.retire i terminal).records = (s.retired i terminal).records ∧
    (s.retire i terminal).currentSession = s.currentSession ∧
    (s.retire i terminal).minimumGeneration = s.minimumGeneration := by
  rw [retire_eq, (evict_spec (retired_carried h.alias_carried terminal)).1]
  exact ⟨rfl, rfl, rfl⟩

/-- What a change makes of a record. -/
theorem Change.record (hchange : s.Change actor s') (h : s.Inv) (hr : s.records[i]? = some r) :
    ∃ r', s'.records[i]? = some r' ∧ r.Kept r' ∧ (actor.place ≠ some i → r' = r) ∧
      (actor = .source i → r.Read r') := by
  have hother : ∀ (j : Nat) (f : RecordState → RecordState), j ≠ i →
      (s.modify j f).records[i]? = some r := by
    intro j f hne
    rw [modify_getElem?, if_neg hne]
    exact hr
  have hsame : ∀ f : RecordState → RecordState, (s.modify i f).records[i]? = some (f r) := by
    intro f
    rw [modify_getElem?, if_pos rfl, hr]
    rfl
  have hstay : r.Kept r ∧ (actor.place ≠ some i → r = r) ∧ (actor = .source i → r.Read r) :=
    ⟨.refl r, fun _ => rfl, fun _ => .refl r⟩
  cases hchange with
  | read j f hf =>
    by_cases hij : j = i
    · subst hij
      refine ⟨f r, hsame f, ?_, fun hne => absurd rfl hne, fun _ => ?_⟩
      · rw [hf]
        exact ⟨rfl, rfl, rfl, fun _ h => h, fun _ h => h, id, fun _ h => h⟩
      · exact ⟨by rw [hf], by rw [hf]; exact fun _ h => h⟩
    · exact ⟨r, hother j f hij, hstay⟩
  | mutate j f hf hcancel =>
    by_cases hij : j = i
    · subst hij
      refine ⟨f r, hsame f, ?_, fun hne => absurd rfl hne, nofun⟩
      have hmonotone := hcancel r
      rw [hf] at hmonotone ⊢
      exact ⟨rfl, rfl, rfl, fun _ h => h, fun _ h => h, hmonotone, fun _ h => h⟩
    · exact ⟨r, hother j f hij, hstay⟩
  | bind _ j r' kind name hactor hr' hactive hnone hfree =>
    have hplace : actor.place = some j := by
      rcases hactor with rfl | ⟨rfl, -⟩ <;> rfl
    by_cases hij : j = i
    · subst hij
      obtain rfl := Option.some.inj (hr.symm.trans hr')
      refine ⟨_, hsame _, ?_, fun hne => absurd hplace hne, fun hsource => ?_⟩
      · -- the alias was not set
        cases kind with
        | runId =>
          have hrunId : r.runId = none := hnone
          exact ⟨rfl, rfl, rfl, fun _ h => absurd (hrunId.symm.trans h) nofun, fun _ h => h, id,
            fun _ h => h⟩
        | runName =>
          have hrunName : r.runName = none := hnone
          exact ⟨rfl, rfl, rfl, fun _ h => h, fun _ h => absurd (hrunName.symm.trans h) nofun, id,
            fun _ h => h⟩
      · rcases hactor with rfl | ⟨-, rfl⟩
        · exact absurd hsource nofun
        · have hrunId : r.runId = none := hnone
          exact ⟨rfl, fun _ h => absurd (hrunId.symm.trans h) nofun⟩
    · exact ⟨r, hother j _ hij, hstay⟩
  | retire j r' terminal hr' hactive =>
    rw [(retire_records h terminal).1]
    by_cases hij : j = i
    · subst hij
      have hrunning := h.running j hactive r hr
      exact ⟨_, hsame _, ⟨rfl, rfl, rfl, fun _ h => h, fun _ h => h, id,
        fun _ h => absurd (hrunning.symm.trans h) nofun⟩, fun hne => absurd rfl hne, nofun⟩
    · exact ⟨r, hother j _ hij, hstay⟩
  | register r' hfresh hactive hsession hrunId hrunName hterminal =>
    refine ⟨r, ?_, hstay⟩
    show (s.records ++ [r'])[i]? = _
    rw [List.getElem?_append_left (List.getElem?_eq_some_iff.mp hr).1]
    exact hr
  | session current minimum hminimum hcurrent hcancelled => exact ⟨r, hr, hstay⟩
  | count reads => exact ⟨r, hr, hstay⟩
  | surroundings subscribers aborted => exact ⟨r, hr, hstay⟩

theorem Change.minimum (hchange : s.Change actor s') (h : s.Inv) :
    s.minimumGeneration ≤ s'.minimumGeneration := by
  cases hchange with
  | retire i r terminal hr hactive => exact Int.le_of_eq (retire_records h terminal).2.2.symm
  | session current minimum hminimum hcurrent hcancelled => exact hminimum
  | _ => exact Int.le_refl _

/-- Only the coordinator changes the session, and only it and a retirement what is active. -/
theorem Change.frame (hchange : s.Change actor s') (hactor : actor.place ≠ none)
    (hretirement : ∀ i, actor ≠ .retirement i) :
    s'.active = s.active ∧ s'.recent = s.recent ∧ s'.currentSession = s.currentSession ∧
      s'.minimumGeneration = s.minimumGeneration ∧ s'.subscribers = s.subscribers := by
  cases hchange with
  | retire i r terminal hr hactive => exact absurd rfl (hretirement i)
  | register => exact absurd rfl hactor
  | session => exact absurd rfl hactor
  | surroundings => exact absurd rfl hactor
  | _ => exact ⟨rfl, rfl, rfl, rfl, rfl⟩

-- ============================================================================
-- Several changes
-- ============================================================================

variable {allowed : Actor → Prop}

theorem Acts.refl : Acts allowed s s := Relation.ReflTransGen.refl

theorem Acts.trans {s'' : Coordinator} (h : Acts allowed s s') (h' : Acts allowed s' s'') :
    Acts allowed s s'' :=
  Relation.ReflTransGen.trans h h'

theorem Acts.single (hactor : allowed actor) (h : s.Change actor s') : Acts allowed s s' :=
  Relation.ReflTransGen.single ⟨actor, hactor, h⟩

theorem Acts.mono {wider : Actor → Prop} (hwider : ∀ actor, allowed actor → wider actor)
    (h : Acts allowed s s') : Acts wider s s' :=
  Relation.ReflTransGen.mono (fun _ _ ⟨actor, hactor, hchange⟩ =>
    ⟨actor, hwider actor hactor, hchange⟩) _ _ h

theorem Acts.inv (hacts : Acts allowed s s') (h : s.Inv) : s'.Inv := by
  induction hacts with
  | refl => exact h
  | tail _ hchange ih =>
    obtain ⟨actor, -, hchange⟩ := hchange
    exact ih.of_change hchange

/-- What several changes make of a record. -/
theorem Acts.record (hacts : Acts allowed s s') (h : s.Inv) (hr : s.records[i]? = some r) :
    ∃ r', s'.records[i]? = some r' ∧ r.Kept r' := by
  induction hacts with
  | refl => exact ⟨r, hr, .refl r⟩
  | tail hacts hchange ih =>
    obtain ⟨r', hr', hkept⟩ := ih
    obtain ⟨actor, -, hchange⟩ := hchange
    obtain ⟨r'', hr'', hkept', -⟩ := hchange.record (Acts.inv hacts h) hr'
    exact ⟨r'', hr'', hkept.trans hkept'⟩

/-- Only its own source reads of a record that its owner does not act on. -/
theorem Acts.read (hacts : Acts allowed s s') (h : s.Inv) (hr : s.records[i]? = some r)
    (hallowed : ∀ actor, allowed actor → actor.place = some i → actor = .source i) :
    ∃ r', s'.records[i]? = some r' ∧ r.Read r' := by
  induction hacts with
  | refl => exact ⟨r, hr, .refl r⟩
  | tail hacts hchange ih =>
    obtain ⟨r', hr', hread⟩ := ih
    obtain ⟨actor, hactor, hchange⟩ := hchange
    obtain ⟨r'', hr'', -, hstay, hsource⟩ := hchange.record (Acts.inv hacts h) hr'
    refine ⟨r'', hr'', hread.trans ?_⟩
    by_cases hplace : actor.place = some i
    · exact hsource (hallowed actor hactor hplace)
    · rw [hstay hplace]
      exact .refl r'

/-- A record that no actor acts on stays. -/
theorem Acts.unchanged (hacts : Acts allowed s s') (h : s.Inv) (hr : s.records[i]? = some r)
    (hallowed : ∀ actor, allowed actor → actor.place ≠ some i) : s'.records[i]? = some r := by
  induction hacts with
  | refl => exact hr
  | tail hacts hchange ih =>
    obtain ⟨actor, hactor, hchange⟩ := hchange
    obtain ⟨r', hr', -, hstay, -⟩ := hchange.record (Acts.inv hacts h) ih
    rw [hr', hstay (hallowed actor hactor)]

theorem Acts.minimum (hacts : Acts allowed s s') (h : s.Inv) :
    s.minimumGeneration ≤ s'.minimumGeneration := by
  induction hacts with
  | refl => exact Int.le_refl _
  | tail hacts hchange ih =>
    obtain ⟨actor, -, hchange⟩ := hchange
    exact Int.le_trans ih (hchange.minimum (Acts.inv hacts h))

theorem Acts.frame (hacts : Acts allowed s s') (hactor : ∀ actor, allowed actor → actor.place ≠ none)
    (hretirement : ∀ i, ¬allowed (.retirement i)) :
    s'.active = s.active ∧ s'.recent = s.recent ∧ s'.currentSession = s.currentSession ∧
      s'.minimumGeneration = s.minimumGeneration ∧ s'.subscribers = s.subscribers := by
  induction hacts with
  | refl => exact ⟨rfl, rfl, rfl, rfl, rfl⟩
  | tail _ hchange ih =>
    obtain ⟨actor, hallowed, hchange⟩ := hchange
    obtain ⟨h1, h2, h3, h4, h5⟩ := hchange.frame (hactor actor hallowed) fun i heq =>
      hretirement i (heq ▸ hallowed)
    obtain ⟨g1, g2, g3, g4, g5⟩ := ih
    exact ⟨h1.trans g1, h2.trans g2, h3.trans g3, h4.trans g4, h5.trans g5⟩

end Coordinator

end PiRlm.Extension

/-
  PiRlm.Core.JournalStatusOrder

  The order of the progress events of a cell before its commit.

  A state is viewed without the order of what was seen and of the phases that wait for a
  commit.  The fold reads no more than the view, and in it the progress events of a cell that
  is not committed commute with every event but its commit.
-/
import PiRlm.Core.JournalStatusSound
import PiRlm.Lib.Commuting

namespace PiRlm.Core.Status

open PiRlm.Lib

variable {N : Type}

-- ============================================================================
-- The view
-- ============================================================================

def State.withProgress (st : State N) (seen : List JsString)
    (pending : OrderedMap JsString (List (N × JsString))) : State N :=
  { st with seenProgress := seen, pendingPhases := pending }

theorem updateFrame_withProgress (st : State N) (frameId : JsString)
    (update : MutableFrame N → MutableFrame N) (seen : List JsString)
    (pending : OrderedMap JsString (List (N × JsString))) :
    updateFrame (st.withProgress seen pending) frameId update =
      (updateFrame st frameId update).withProgress seen pending := by
  simp only [updateFrame, State.withProgress]
  cases st.frames.get frameId <;> rfl

theorem updateFrame_progress (st : State N) (frameId : JsString)
    (update : MutableFrame N → MutableFrame N) :
    (updateFrame st frameId update).pendingPhases = st.pendingPhases ∧
      (updateFrame st frameId update).seenProgress = st.seenProgress ∧
      (updateFrame st frameId update).committedCells = st.committedCells := by
  unfold updateFrame
  cases st.frames.get frameId <;> exact ⟨rfl, rfl, rfl⟩

/-- The phases that wait for a commit, cell by cell. -/
abbrev Waiting (N : Type) := JsString → Option (Multiset (N × JsString))

def waiting (pending : OrderedMap JsString (List (N × JsString))) : Waiting N :=
  fun cell => (pending.get cell).map Multiset.ofList

def Waiting.push (w : Waiting N) (cell : JsString) (phase : N × JsString) : Waiting N :=
  Function.update w cell (some ((w cell).getD 0 + {phase}))

/-- A state without the order of its progress. -/
@[ext] structure View (N : Type) where
  others : State N
  seen : Set JsString
  waiting : Waiting N

def State.view (st : State N) : View N :=
  ⟨st.withProgress [] [], {key | key ∈ st.seenProgress}, waiting st.pendingPhases⟩

theorem waiting_push (pending : OrderedMap JsString (List (N × JsString))) (cell : JsString)
    (phase : N × JsString) :
    waiting (pending.set cell ((pending.get cell).getD [] ++ [phase])) =
      (waiting pending).push cell phase := by
  funext c
  rw [waiting, OrderedMap.get_set, Waiting.push, Function.update_apply]
  split_ifs with h
  · subst h
    rw [waiting]
    cases pending.get c with
    | none => rfl
    | some l => simp [← Multiset.coe_add]
  · rfl

theorem waiting_delete (pending : OrderedMap JsString (List (N × JsString))) (cell : JsString) :
    waiting (pending.delete cell) = Function.update (waiting pending) cell none := by
  funext c
  rw [waiting, OrderedMap.get_delete, Function.update_apply]
  split_ifs <;> rfl

theorem Waiting.push_comm (w : Waiting N) (c c' : JsString) (x x' : N × JsString) :
    (w.push c x).push c' x' = (w.push c' x').push c x := by
  unfold Waiting.push
  by_cases h : c = c'
  · subst h
    simp [add_right_comm]
  · rw [Function.update_of_ne (Ne.symm h), Function.update_of_ne h,
      Function.update_comm h]

-- ============================================================================
-- Keys
-- ============================================================================

/-- The parts of a text joined by a zero unit, of which the second has none. -/
theorem joined_inj {a b a' b' : JsString} (hb : (0 : CodeUnit) ∉ b) (hb' : (0 : CodeUnit) ∉ b')
    (h : a ++ (zeroUnit ++ b) = a' ++ (zeroUnit ++ b')) : a = a' ∧ b = b' := by
  have hnone : ∀ {c x y : JsString}, (0 : CodeUnit) ∉ x → zeroUnit ++ x = c ++ (zeroUnit ++ y) →
      c = [] := by
    intro c x y hx heq
    cases c with
    | nil => rfl
    | cons u c =>
      obtain ⟨-, rfl⟩ := List.cons.inj heq
      exact absurd (List.mem_append_right c List.mem_cons_self) hx
  rcases List.append_eq_append_iff.mp h with ⟨c, rfl, heq⟩ | ⟨c, rfl, heq⟩
  · have hc := hnone hb heq
    subst hc
    exact ⟨(List.append_nil _).symm, (List.cons.inj heq).2⟩
  · have hc := hnone hb' heq
    subst hc
    exact ⟨List.append_nil _, (List.cons.inj heq).2.symm⟩

variable [JsonNumber N]

theorem zero_notMem_text (n : N) : (0 : CodeUnit) ∉ JsonNumber.text n := by
  intro h
  have hunit := isNumberLiteral_units (JsonNumber.text_isNumberLiteral n) 0 h
  revert hunit
  decide

theorem text_injective : Function.Injective (JsonNumber.text (N := N)) :=
  Function.LeftInverse.injective JsonNumber.ofText_text

theorem cellKey_inj {frameId frameId' : JsString} {iteration iteration' : N} :
    cellKey frameId iteration = cellKey frameId' iteration' ↔
      frameId = frameId' ∧ iteration = iteration' := by
  constructor
  · intro h
    obtain ⟨hframe, htext⟩ := joined_inj (zero_notMem_text _) (zero_notMem_text _) h
    exact ⟨hframe, text_injective htext⟩
  · rintro ⟨rfl, rfl⟩
    rfl

theorem progressKey_inj {frameId frameId' : JsString} {iteration iteration' ordinal ordinal' : N} :
    progressKey frameId iteration ordinal = progressKey frameId' iteration' ordinal' ↔
      (frameId = frameId' ∧ iteration = iteration') ∧ ordinal = ordinal' := by
  constructor
  · intro h
    obtain ⟨hcell, htext⟩ := joined_inj (zero_notMem_text _) (zero_notMem_text _) h
    exact ⟨cellKey_inj.mp hcell, text_injective htext⟩
  · rintro ⟨⟨rfl, rfl⟩, rfl⟩
    rfl

-- ============================================================================
-- What the fold reads is in the view
-- ============================================================================

/-- The waiting phases of a cell have distinct ordinals, all of them seen. -/
structure Numbered (st : State N) : Prop where
  nodup : ∀ cell pending, st.pendingPhases.get cell = some pending → (pending.map Prod.fst).Nodup
  seen : ∀ cell pending, st.pendingPhases.get cell = some pending →
    ∀ p ∈ pending, cell ++ (zeroUnit ++ JsonNumber.text p.1) ∈ st.seenProgress

theorem numbered_initial : Numbered (State.initial : State N) :=
  ⟨nofun, nofun⟩

theorem Numbered.of_eq {st st' : State N} (h : Numbered st)
    (hpending : st'.pendingPhases = st.pendingPhases) (hseen : st.seenProgress ⊆ st'.seenProgress) :
    Numbered st' :=
  ⟨by rw [hpending]; exact h.nodup, by rw [hpending]; exact fun c l hl p hp => hseen (h.seen c l hl p hp)⟩

/-- Distinct ordinals are sorted in one way. -/
theorem byOrdinal_congr {pending pending' : List (N × JsString)} (hperm : pending.Perm pending')
    (hnodup : (pending.map Prod.fst).Nodup) : byOrdinal pending = byOrdinal pending' := by
  have hleft : (byOrdinal pending).Perm pending := List.perm_insertionSort _ pending
  have hright : (byOrdinal pending').Perm pending' := List.perm_insertionSort _ pending'
  refine List.Perm.eq_of_pairwise (fun x y hx hy hxy hyx => ?_)
    (List.pairwise_insertionSort _ pending) (List.pairwise_insertionSort _ pending')
    (hleft.trans (hperm.trans hright.symm))
  have hordinal : x.1 = y.1 := JsonNumber.value_injective (le_antisymm hxy hyx)
  exact List.inj_on_of_nodup_map hnodup (hleft.mem_iff.mp hx)
    (hperm.mem_iff.mpr (hright.mem_iff.mp hy)) hordinal

theorem releasePhases_congr {pending pending' : List (N × JsString)}
    (hperm : pending.Perm pending') (hnodup : (pending.map Prod.fst).Nodup) (f : MutableFrame N) :
    releasePhases pending f = releasePhases pending' f := by
  rw [releasePhases, releasePhases, byOrdinal_congr hperm hnodup]

/-- A phase or a message of a cell. -/
structure Progress (N : Type) where
  frameId : JsString
  iteration : N
  ordinal : N
  name : Option JsString

def Event.progress? : Event N → Option (Progress N)
  | .phase frameId iteration ordinal name => some ⟨frameId, iteration, ordinal, some name⟩
  | .emit frameId iteration ordinal _ => some ⟨frameId, iteration, ordinal, none⟩
  | _ => none

def Event.commit? : Event N → Option (JsString × N × JsString)
  | .cellCommitted frameId iteration outputPreview => some (frameId, iteration, outputPreview)
  | _ => none

namespace Progress

variable (p : Progress N)

def cell : JsString := cellKey p.frameId p.iteration

def key : JsString := progressKey p.frameId p.iteration p.ordinal

end Progress

theorem Numbered.push {st : State N} (h : Numbered st) {p : Progress N}
    (hseen : p.key ∉ st.seenProgress) (name : JsString) :
    Numbered (st.withProgress (insertNew st.seenProgress p.key)
      (st.pendingPhases.set p.cell
        ((st.pendingPhases.get p.cell).getD [] ++ [(p.ordinal, name)]))) := by
  have hwait : ∀ x ∈ (st.pendingPhases.get p.cell).getD [],
      p.cell ++ (zeroUnit ++ JsonNumber.text x.1) ∈ st.seenProgress := by
    cases hget : st.pendingPhases.get p.cell with
    | none => simp
    | some l => exact h.seen _ l hget
  constructor
  · intro cell l hl
    rw [State.withProgress, OrderedMap.get_set] at hl
    split_ifs at hl with hcell
    · obtain rfl := Option.some.inj hl
      rw [List.map_append, List.nodup_append]
      refine ⟨?_, List.nodup_singleton _, ?_⟩
      · cases hget : st.pendingPhases.get p.cell with
        | none => exact List.nodup_nil
        | some l => exact h.nodup _ l hget
      · rintro o ho o' ho' rfl
        obtain ⟨x, hx, rfl⟩ := List.mem_map.mp ho
        have hordinal : x.1 = p.ordinal := List.mem_singleton.mp ho'
        have hold := hwait x hx
        rw [hordinal] at hold
        exact hseen hold
    · exact h.nodup cell l hl
  · intro cell l hl x hx
    refine mem_insertNew.mpr ?_
    rw [State.withProgress, OrderedMap.get_set] at hl
    split_ifs at hl with hcell
    · obtain rfl := Option.some.inj hl
      subst hcell
      rcases List.mem_append.mp hx with hx | hx
      · exact .inl (hwait x hx)
      · rw [List.mem_singleton.mp hx]
        exact .inr rfl
    · exact .inl (h.seen cell l hl x hx)

theorem Numbered.applyPendingPhase {st : State N} (h : Numbered st) (frameId : JsString)
    (iteration : N) : Numbered (applyPendingPhase st frameId iteration) := by
  unfold Status.applyPendingPhase
  cases st.frames.get frameId with
  | none => exact h
  | some f =>
    cases st.pendingPhases.get (cellKey frameId iteration) with
    | none => exact h
    | some pending =>
      have hget : ∀ cell l, (st.pendingPhases.delete (cellKey frameId iteration)).get cell = some l →
          st.pendingPhases.get cell = some l := by
        intro cell l hl
        rw [OrderedMap.get_delete] at hl
        split_ifs at hl
        exact hl
      exact ⟨fun cell l hl => h.nodup cell l (hget cell l hl),
        fun cell l hl => h.seen cell l (hget cell l hl)⟩

open Classical in
/-- What an unseen phase does: it waits for the commit of its cell, or reaches the frame. -/
noncomputable def View.phase (v : View N) (p : Progress N) (name : JsString) : View N :=
  if p.key ∈ v.seen then v
  else if p.cell ∈ v.others.committedCells then
    { v with others := updateFrame v.others p.frameId fun f => { f with phase := some name } }
  else { v with waiting := v.waiting.push p.cell (p.ordinal, name) }

noncomputable def View.note (v : View N) (p : Progress N) : View N :=
  { (match p.name with
      | some name => v.phase p name
      | none => v) with
    seen := insert p.key v.seen }

open Classical in
/-- The phases that wait after a phase or a message of a cell that is not committed. -/
noncomputable def Progress.await (p : Progress N) (seen : Set JsString) (w : Waiting N) :
    Waiting N :=
  match p.name with
  | some name => if p.key ∈ seen then w else w.push p.cell (p.ordinal, name)
  | none => w

theorem View.note_uncommitted {v : View N} {p : Progress N}
    (h : p.cell ∉ v.others.committedCells) :
    v.note p = ⟨v.others, insert p.key v.seen, p.await v.seen v.waiting⟩ := by
  unfold View.note View.phase Progress.await
  cases p.name with
  | none => rfl
  | some name =>
    simp only [if_neg h]
    split_ifs <;> rfl

theorem Progress.await_of_seen {p : Progress N} {seen : Set JsString} (h : p.key ∈ seen)
    (w : Waiting N) : p.await seen w = w := by
  unfold Progress.await
  cases p.name with
  | none => rfl
  | some name => exact if_pos h

theorem Progress.await_of_new {p : Progress N} {seen : Set JsString} (h : p.key ∉ seen)
    (w : Waiting N) : p.await seen w =
      match p.name with
      | some name => w.push p.cell (p.ordinal, name)
      | none => w := by
  unfold Progress.await
  cases p.name with
  | none => rfl
  | some name => exact if_neg h

theorem Progress.await_insert {p q : Progress N} (h : p.key ≠ q.key) (seen : Set JsString)
    (w : Waiting N) : p.await (insert q.key seen) w = p.await seen w := by
  by_cases hp : p.key ∈ seen
  · rw [Progress.await_of_seen hp, Progress.await_of_seen (Set.mem_insert_of_mem _ hp)]
  · have hp' : p.key ∉ insert q.key seen := fun hmem => hp (hmem.resolve_left h)
    rw [Progress.await_of_new hp, Progress.await_of_new hp']

theorem Progress.await_comm (p q : Progress N) (seen : Set JsString) (w : Waiting N) :
    q.await seen (p.await seen w) = p.await seen (q.await seen w) := by
  by_cases hp : p.key ∈ seen
  · rw [Progress.await_of_seen hp, Progress.await_of_seen hp]
  by_cases hq : q.key ∈ seen
  · rw [Progress.await_of_seen hq, Progress.await_of_seen hq]
  rw [Progress.await_of_new hp, Progress.await_of_new hq, Progress.await_of_new hq,
    Progress.await_of_new hp]
  cases p.name with
  | none => rfl
  | some name =>
    cases q.name with
    | none => rfl
    | some name' => exact Waiting.push_comm w p.cell q.cell (p.ordinal, name) (q.ordinal, name')

/-- The release of another cell does not see the phase. -/
theorem Progress.await_update {p : Progress N} {cell : JsString} (h : p.cell ≠ cell)
    (seen : Set JsString) (w : Waiting N) :
    Function.update (p.await seen w) cell none = p.await seen (Function.update w cell none) ∧
      p.await seen w cell = w cell := by
  by_cases hp : p.key ∈ seen
  · rw [Progress.await_of_seen hp, Progress.await_of_seen hp]
    exact ⟨rfl, rfl⟩
  · rw [Progress.await_of_new hp, Progress.await_of_new hp]
    cases p.name with
    | none => exact ⟨rfl, rfl⟩
    | some name =>
      have hrelease : Function.update (w.push p.cell (p.ordinal, name)) cell none =
          Waiting.push (Function.update w cell none) p.cell (p.ordinal, name) := by
        unfold Waiting.push
        rw [Function.update_of_ne h, Function.update_comm (Ne.symm h)]
      exact ⟨hrelease, Function.update_of_ne (Ne.symm h) _ _⟩

open Classical in
/-- The frames after a phase of a cell that is committed. -/
noncomputable def Progress.reach (p : Progress N) (seen : Set JsString) (st : State N) : State N :=
  match p.name with
  | some name =>
    if p.key ∈ seen then st
    else updateFrame st p.frameId fun f => { f with phase := some name }
  | none => st

theorem View.note_committed {v : View N} {p : Progress N} (h : p.cell ∈ v.others.committedCells) :
    v.note p = ⟨p.reach v.seen v.others, insert p.key v.seen, v.waiting⟩ := by
  unfold View.note View.phase Progress.reach
  cases p.name with
  | none => rfl
  | some name =>
    simp only [if_pos h]
    split_ifs <;> rfl

theorem Progress.reach_insert {p q : Progress N} (h : p.key ≠ q.key) (seen : Set JsString)
    (st : State N) : p.reach (insert q.key seen) st = p.reach seen st := by
  unfold Progress.reach
  cases p.name with
  | none => rfl
  | some name =>
    by_cases hp : p.key ∈ seen
    · simp only [if_pos hp, if_pos (Set.mem_insert_of_mem q.key hp)]
    · have hp' : p.key ∉ insert q.key seen := fun hmem => hp (hmem.resolve_left h)
      simp only [if_neg hp, if_neg hp']

theorem Progress.reach_committedCells (p : Progress N) (seen : Set JsString) (st : State N) :
    (p.reach seen st).committedCells = st.committedCells := by
  unfold Progress.reach
  cases p.name with
  | none => rfl
  | some name =>
    by_cases h : p.key ∈ seen
    · simp only [if_pos h]
    · simp only [if_neg h]
      exact (updateFrame_progress _ _ _).2.2

/-- Progress of a cell that is not committed commutes with other progress. -/
theorem View.note_comm {v : View N} {p q : Progress N} (hkey : p.key ≠ q.key)
    (hp : p.cell ∉ v.others.committedCells) : (v.note p).note q = (v.note q).note p := by
  rw [View.note_uncommitted hp]
  by_cases hq : q.cell ∈ v.others.committedCells
  · have hpq : p.cell ∉ (q.reach v.seen v.others).committedCells := by
      rwa [Progress.reach_committedCells]
    have hleft := View.note_committed
      (v := ⟨v.others, insert p.key v.seen, p.await v.seen v.waiting⟩) hq
    have hright := View.note_uncommitted
      (v := ⟨q.reach v.seen v.others, insert q.key v.seen, v.waiting⟩) hpq
    rw [View.note_committed hq, hleft, hright, Progress.reach_insert (Ne.symm hkey),
      Progress.await_insert hkey]
    exact View.ext rfl (Set.insert_comm _ _ _) rfl
  · have hleft := View.note_uncommitted
      (v := ⟨v.others, insert p.key v.seen, p.await v.seen v.waiting⟩) hq
    have hright := View.note_uncommitted
      (v := ⟨v.others, insert q.key v.seen, q.await v.seen v.waiting⟩) hp
    rw [View.note_uncommitted hq, hleft, hright, Progress.await_insert hkey,
      Progress.await_insert (Ne.symm hkey)]
    exact View.ext rfl (Set.insert_comm _ _ _) (Progress.await_comm _ _ _ _)

variable [DecidableEq N]

noncomputable def View.commit (v : View N) (frameId : JsString) (iteration : N)
    (outputPreview : JsString) : View N :=
  match v.others.frames.get frameId with
  | none => v
  | some f =>
    if iteration ∈ f.seenIterations then v
    else
      let others := commitCell v.others f frameId iteration outputPreview
      match others.frames.get frameId, v.waiting (cellKey frameId iteration) with
      | some f, some phases =>
        { v with
          others :=
            { others with frames := others.frames.set frameId (releasePhases phases.toList f) }
          waiting := Function.update v.waiting (cellKey frameId iteration) none }
      | _, _ => { v with others }

/-- The fold on views. -/
noncomputable def View.step (v : View N) (e : Event N) : View N :=
  match e.progress?, e.commit? with
  | some p, _ => v.note p
  | none, some (frameId, iteration, outputPreview) => v.commit frameId iteration outputPreview
  | none, none => { v with others := reduceEvent v.others e }

/-- The view of a state in which a progress key is seen. -/
theorem seen_insertNew (seen : List JsString) (key : JsString) :
    {k | k ∈ insertNew seen key} = insert key {k | k ∈ seen} := by
  ext k
  simp [or_comm]

theorem view_phase (st : State N) (frameId : JsString) (iteration ordinal : N) (name : JsString) :
    (reduceEvent st (.phase frameId iteration ordinal name)).view =
      st.view.note ⟨frameId, iteration, ordinal, some name⟩ := by
  simp only [reduceEvent, View.note, View.phase]
  by_cases hseen : progressKey frameId iteration ordinal ∈ st.seenProgress
  · have hview : (⟨frameId, iteration, ordinal, some name⟩ : Progress N).key ∈ st.view.seen := hseen
    rw [if_pos hseen, if_pos hview, Set.insert_eq_of_mem hview]
  · have hview : (⟨frameId, iteration, ordinal, some name⟩ : Progress N).key ∉ st.view.seen := hseen
    rw [if_neg hseen, if_neg hview]
    by_cases hcell : cellKey frameId iteration ∈ st.committedCells
    · have hcommitted : (⟨frameId, iteration, ordinal, some name⟩ : Progress N).cell ∈
          st.view.others.committedCells := hcell
      rw [if_pos hcell, if_pos hcommitted]
      have hstate : { st with
            seenProgress := insertNew st.seenProgress (progressKey frameId iteration ordinal) } =
          st.withProgress (insertNew st.seenProgress (progressKey frameId iteration ordinal))
            st.pendingPhases := rfl
      rw [hstate, updateFrame_withProgress]
      refine View.ext ?_ (seen_insertNew _ _) rfl
      exact (updateFrame_withProgress st frameId _ [] []).symm
    · have hcommitted : (⟨frameId, iteration, ordinal, some name⟩ : Progress N).cell ∉
          st.view.others.committedCells := hcell
      rw [if_neg hcell, if_neg hcommitted]
      exact View.ext rfl (seen_insertNew _ _) (waiting_push _ _ _)

omit [DecidableEq N] in
theorem applyPendingPhase_view {st : State N} (h : Numbered st) {frameId : JsString}
    {f : MutableFrame N} (hf : st.frames.get frameId = some f) (iteration : N) :
    (applyPendingPhase st frameId iteration).view =
      match st.view.waiting (cellKey frameId iteration) with
      | none => st.view
      | some phases =>
        ⟨{ st.view.others with frames := st.frames.set frameId (releasePhases phases.toList f) },
          st.view.seen, Function.update st.view.waiting (cellKey frameId iteration) none⟩ := by
  have hwaiting : st.view.waiting (cellKey frameId iteration) =
      (st.pendingPhases.get (cellKey frameId iteration)).map Multiset.ofList := rfl
  rw [hwaiting, applyPendingPhase, hf]
  cases hget : st.pendingPhases.get (cellKey frameId iteration) with
  | none => rfl
  | some pending =>
    have hperm : pending.Perm (pending : Multiset (N × JsString)).toList :=
      Multiset.coe_eq_coe.mp (Multiset.coe_toList _).symm
    rw [Option.map_some]
    simp only
    rw [← releasePhases_congr hperm (h.nodup _ _ hget)]
    exact View.ext rfl rfl (waiting_delete _ _)

theorem view_commit {st : State N} (h : Numbered st) (frameId : JsString) (iteration : N)
    (outputPreview : JsString) : (reduceEvent st (.cellCommitted frameId iteration outputPreview)).view =
      st.view.commit frameId iteration outputPreview := by
  have hframes : st.view.others.frames = st.frames := rfl
  simp only [reduceEvent, View.commit, hframes]
  cases hf : st.frames.get frameId with
  | none => rfl
  | some f =>
    simp only
    by_cases hmem : iteration ∈ f.seenIterations
    · rw [if_pos hmem, if_pos hmem]
    · rw [if_neg hmem, if_neg hmem]
      have hcommit : Numbered (commitCell st f frameId iteration outputPreview) :=
        h.of_eq rfl fun _ hk => hk
      have hget : (commitCell st f frameId iteration outputPreview).frames.get frameId = some
          { f with
            seenIterations := f.seenIterations ++ [iteration]
            iterations := f.iterations + 1
            lastOutputPreview := some outputPreview } := by
        rw [commitCell, OrderedMap.get_set, if_pos rfl]
      have hget' : (commitCell st.view.others f frameId iteration outputPreview).frames.get frameId =
          (commitCell st f frameId iteration outputPreview).frames.get frameId := rfl
      have hwaiting : (commitCell st f frameId iteration outputPreview).view.waiting =
        st.view.waiting := rfl
      rw [applyPendingPhase_view hcommit hget, hget', hget, hwaiting]
      cases st.view.waiting (cellKey frameId iteration) with
      | none => rfl
      | some phases => rfl

/-- The other events neither read the progress nor change it. -/
theorem reduceEvent_plain {e : Event N} (hprogress : e.progress? = none) (hcommit : e.commit? = none)
    (st : State N) (seen : List JsString) (pending : OrderedMap JsString (List (N × JsString))) :
    reduceEvent (st.withProgress seen pending) e =
      (reduceEvent st e).withProgress seen pending := by
  cases e with
  | phase | emit => cases hprogress
  | cellCommitted => cases hcommit
  | runStarted | passed => rfl
  | frameOpened frameId parentFrameId depth objective =>
    cases h : st.frames.has frameId <;> simp [reduceEvent, State.withProgress, h]
  | keyBound frameId kind key identityHash =>
    cases h : st.keyBindings.has (registryKey frameId kind key) <;>
      simp [reduceEvent, State.withProgress, h]
  | runCompleted | runFailed | runCancelled =>
    cases h : st.terminal <;> simp [reduceEvent, State.withProgress, h]
  | callCommitted frameId callId =>
    cases hf : st.frames.get frameId with
    | none => simp [reduceEvent, State.withProgress, hf]
    | some f =>
      by_cases h : callId ∈ st.committedCallIds <;> simp [reduceEvent, State.withProgress, hf, h]
  | answerCommitted frameId => exact updateFrame_withProgress st frameId _ seen pending
  | frameClosed frameId state => exact updateFrame_withProgress st frameId _ seen pending

/-- The fold on views follows the fold. -/
theorem view_reduceEvent {st : State N} (h : Numbered st) (e : Event N) :
    (reduceEvent st e).view = st.view.step e := by
  cases hprogress : e.progress? with
  | some p =>
    cases e with
    | phase frameId iteration ordinal name => exact view_phase st frameId iteration ordinal name
    | emit frameId iteration ordinal message => exact View.ext rfl (seen_insertNew _ _) rfl
    | _ => cases hprogress
  | none =>
    cases hcommit : e.commit? with
    | some c =>
      cases e with
      | cellCommitted frameId iteration outputPreview =>
        exact view_commit h frameId iteration outputPreview
      | _ => cases hcommit
    | none =>
      have hself : st.withProgress st.seenProgress st.pendingPhases = st := rfl
      have hplain := reduceEvent_plain hprogress hcommit st
      have hkeep := hplain st.seenProgress st.pendingPhases
      rw [hself] at hkeep
      have hstep : st.view.step e = { st.view with others := reduceEvent (st.withProgress [] []) e } := by
        simp only [View.step, hprogress, hcommit]
        rfl
      rw [hstep, hplain [] [], hkeep]
      rfl

-- ============================================================================
-- Invariants
-- ============================================================================

/-- The other events leave the progress alone. -/
theorem reduceEvent_keeps {e : Event N} (hprogress : e.progress? = none)
    (hcommit : e.commit? = none) (st : State N) :
    reduceEvent st e = (reduceEvent st e).withProgress st.seenProgress st.pendingPhases :=
  reduceEvent_plain hprogress hcommit st st.seenProgress st.pendingPhases

theorem Numbered.reduceEvent {st : State N} (h : Numbered st) (e : Event N) :
    Numbered (reduceEvent st e) := by
  cases e with
  | phase frameId iteration ordinal name =>
    simp only [Status.reduceEvent]
    split_ifs with hseen hcell
    · exact h
    · obtain ⟨hpending, hprogress, -⟩ := updateFrame_progress
        { st with seenProgress := insertNew st.seenProgress (progressKey frameId iteration ordinal) }
        frameId fun f => { f with phase := some name }
      refine h.of_eq hpending ?_
      rw [hprogress]
      exact fun _ hk => mem_insertNew.mpr (.inl hk)
    · exact h.push (p := ⟨frameId, iteration, ordinal, some name⟩) hseen name
  | emit => exact h.of_eq rfl fun _ hk => mem_insertNew.mpr (.inl hk)
  | cellCommitted frameId iteration outputPreview =>
    simp only [Status.reduceEvent]
    cases st.frames.get frameId with
    | none => exact h
    | some f =>
      simp only
      split_ifs
      · exact h
      · have hcommit : Numbered (commitCell st f frameId iteration outputPreview) :=
          h.of_eq rfl fun _ hk => hk
        exact hcommit.applyPendingPhase frameId iteration
  | _ =>
    rw [reduceEvent_keeps rfl rfl]
    exact h.of_eq rfl fun _ hk => hk

/-- A cell is committed by its commit only. -/
theorem committedCells_reduceEvent {e : Event N} (hcommit : e.commit? = none) (st : State N) :
    (reduceEvent st e).committedCells = st.committedCells := by
  cases e with
  | cellCommitted => cases hcommit
  | runStarted | passed | emit => rfl
  | frameOpened | keyBound | runCompleted | runFailed | runCancelled =>
    simp only [reduceEvent]
    split_ifs <;> rfl
  | phase frameId iteration ordinal name =>
    simp only [reduceEvent]
    split_ifs
    · rfl
    · exact (updateFrame_progress _ _ _).2.2
    · rfl
  | callCommitted frameId callId =>
    simp only [reduceEvent]
    cases st.frames.get frameId with
    | none => rfl
    | some f =>
      simp only
      split_ifs <;> rfl
  | answerCommitted frameId => exact (updateFrame_progress _ _ _).2.2
  | frameClosed frameId state => exact (updateFrame_progress _ _ _).2.2

omit [DecidableEq N] in
theorem applyPendingPhase_committedCells (st : State N) (frameId : JsString) (iteration : N) :
    (applyPendingPhase st frameId iteration).committedCells = st.committedCells := by
  unfold applyPendingPhase
  cases st.frames.get frameId with
  | none => rfl
  | some f => cases st.pendingPhases.get (cellKey frameId iteration) <;> rfl

theorem committedCells_commit {st : State N} {frameId : JsString} {iteration : N}
    {outputPreview cell : JsString}
    (h : cell ∈ (reduceEvent st (.cellCommitted frameId iteration outputPreview)).committedCells) :
    cell ∈ st.committedCells ∨ cell = cellKey frameId iteration := by
  simp only [reduceEvent] at h
  cases hf : st.frames.get frameId with
  | none =>
    rw [hf] at h
    exact .inl h
  | some f =>
    simp only [hf] at h
    split_ifs at h
    · exact .inl h
    · rw [applyPendingPhase_committedCells] at h
      exact mem_insertNew.mp h

-- ============================================================================
-- Progress of a cell before its commit
-- ============================================================================

theorem View.commit_committedCells {v : View N} {frameId : JsString} {iteration : N}
    {outputPreview cell : JsString} (hne : cell ≠ cellKey frameId iteration)
    (h : cell ∉ v.others.committedCells) :
    cell ∉ (v.commit frameId iteration outputPreview).others.committedCells := by
  have hinsert : cell ∉ insertNew v.others.committedCells (cellKey frameId iteration) :=
    fun hmem => (mem_insertNew.mp hmem).elim h hne
  unfold View.commit
  cases v.others.frames.get frameId with
  | none => exact h
  | some f =>
    simp only
    split_ifs
    · exact h
    · split
      · exact hinsert
      · exact hinsert

/-- Progress of a cell that is not committed commutes with the commit of another cell. -/
theorem View.commit_note {v : View N} {p : Progress N} {frameId : JsString} {iteration : N}
    {outputPreview : JsString} (hne : p.cell ≠ cellKey frameId iteration)
    (hp : p.cell ∉ v.others.committedCells) :
    (v.note p).commit frameId iteration outputPreview =
      (v.commit frameId iteration outputPreview).note p := by
  obtain ⟨hupdate, hget⟩ := Progress.await_update hne v.seen v.waiting
  have hafter : p.cell ∉ (v.commit frameId iteration outputPreview).others.committedCells :=
    View.commit_committedCells hne hp
  rw [View.note_uncommitted hafter, View.note_uncommitted hp]
  unfold View.commit
  cases v.others.frames.get frameId with
  | none => rfl
  | some f =>
    simp only
    split_ifs
    · rfl
    · rw [hget]
      cases (commitCell v.others f frameId iteration outputPreview).frames.get frameId with
      | none => rfl
      | some f' =>
        cases v.waiting (cellKey frameId iteration) with
        | none => rfl
        | some phases => exact View.ext rfl rfl hupdate

/-- The event is a phase or a message of the cell. -/
def Event.ofCell (frameId : JsString) (iteration : N) (e : Event N) : Bool :=
  match e.progress? with
  | some p => decide (p.frameId = frameId ∧ p.iteration = iteration)
  | none => false

def Event.ordinal? (e : Event N) : Option N :=
  e.progress?.map Progress.ordinal

/-- The event commits the cell. -/
def Event.commits (frameId : JsString) (iteration : N) (e : Event N) : Bool :=
  match e.commit? with
  | some c => decide (c.1 = frameId ∧ c.2.1 = iteration)
  | none => false

section Cell

variable {frameId : JsString} {iteration : N}

theorem cell_of_ofCell {e : Event N} (h : e.ofCell frameId iteration = true) :
    ∃ p, e.progress? = some p ∧ p.frameId = frameId ∧ p.iteration = iteration ∧
      p.cell = cellKey frameId iteration := by
  unfold Event.ofCell at h
  cases hp : e.progress? with
  | none =>
    rw [hp] at h
    cases h
  | some p =>
    simp only [hp, decide_eq_true_eq] at h
    exact ⟨p, rfl, h.1, h.2, by rw [Progress.cell, h.1, h.2]⟩

/-- The states in which the phases of a cell wait for its commit. -/
def Open (frameId : JsString) (iteration : N) (st : State N) : Prop :=
  Numbered st ∧ cellKey frameId iteration ∉ st.committedCells

theorem open_respects :
    Respects reduceEvent (Setoid.ker (State.view (N := N))) (Open frameId iteration)
      fun e => e.commits frameId iteration = false := by
  constructor
  · intro st e hopen he
    refine ⟨hopen.1.reduceEvent e, fun hmem => ?_⟩
    cases hcommit : e.commit? with
    | none =>
      rw [committedCells_reduceEvent hcommit] at hmem
      exact hopen.2 hmem
    | some c =>
      cases e with
      | cellCommitted f i preview =>
        rcases committedCells_commit hmem with hmem | hcell
        · exact hopen.2 hmem
        · obtain ⟨rfl, rfl⟩ := cellKey_inj.mp hcell
          simp [Event.commits, Event.commit?] at he
      | _ => cases hcommit
  · intro st st' e hopen hopen' _ hview
    have heq : st.view = st'.view := hview
    exact (view_reduceEvent hopen.1 e).trans ((congrArg (View.step · e) heq).trans
      (view_reduceEvent hopen'.1 e).symm)

/-- A phase or a message of a cell commutes with every event but the commit of the cell and
    other progress that has its ordinal. -/
theorem ofCell_commute {a e : Event N} (ha : a.ofCell frameId iteration = true)
    (he : e.commits frameId iteration = false)
    (hordinal : e.ofCell frameId iteration = true → a.ordinal? = e.ordinal? → a = e) :
    CommuteAt reduceEvent (Setoid.ker (State.view (N := N))) (Open frameId iteration) a e := by
  intro st hopen
  obtain ⟨p, hp, hframe, hiteration, hcell⟩ := cell_of_ofCell ha
  have hacommits : a.commits frameId iteration = false := by
    cases a with
    | phase | emit => rfl
    | _ => cases hp
  have hafter : ∀ e, e.commits frameId iteration = false → Numbered (reduceEvent st e) := fun e he =>
    (open_respects.inv st e hopen he).1
  have hnote : ∀ v : View N, v.step a = v.note p := by
    intro v
    simp only [View.step, hp]
  have hpcell : p.cell ∉ st.view.others.committedCells := by
    rw [hcell]
    exact hopen.2
  have hgoal : (st.view.note p).step e = (st.view.step e).note p := by
    cases hprogress : e.progress? with
    | some q =>
      have hstep : ∀ v : View N, v.step e = v.note q := by
        intro v
        simp only [View.step, hprogress]
      rw [hstep, hstep]
      by_cases hkey : p.key = q.key
      · obtain ⟨⟨hf, hi⟩, ho⟩ := progressKey_inj.mp hkey
        have hofCell : e.ofCell frameId iteration = true := by
          simp only [Event.ofCell, hprogress, decide_eq_true_eq]
          exact ⟨hf.symm.trans hframe, hi.symm.trans hiteration⟩
        have heq : a = e := hordinal hofCell (by simp [Event.ordinal?, hp, hprogress, ho])
        subst heq
        rw [hp] at hprogress
        obtain rfl := Option.some.inj hprogress
        rfl
      · exact View.note_comm hkey hpcell
    | none =>
      cases hcommit : e.commit? with
      | some c =>
        have hstep : ∀ v : View N, v.step e = v.commit c.1 c.2.1 c.2.2 := by
          intro v
          simp only [View.step, hprogress, hcommit]
        rw [hstep, hstep]
        refine View.commit_note (fun heq => ?_) hpcell
        rw [hcell, cellKey_inj] at heq
        simp [Event.commits, hcommit, heq] at he
      | none =>
        have hstep : ∀ v : View N, v.step e = { v with others := reduceEvent v.others e } := by
          intro v
          simp only [View.step, hprogress, hcommit]
        have hcommitted : p.cell ∉ (reduceEvent st.view.others e).committedCells := by
          rwa [committedCells_reduceEvent hcommit]
        have hright := View.note_uncommitted
          (v := ⟨reduceEvent st.view.others e, st.view.seen, st.view.waiting⟩) hcommitted
        rw [hstep, hstep, hright, View.note_uncommitted hpcell]
  have hviews : (reduceEvent (reduceEvent st a) e).view = (reduceEvent (reduceEvent st e) a).view := by
    rw [view_reduceEvent (hafter a hacommits), view_reduceEvent hopen.1, hnote, hgoal,
      view_reduceEvent (hafter e he), view_reduceEvent hopen.1, hnote]
  exact hviews

end Cell

/-- The lists have the same phases and messages of the cell in some order, and the same other
    events in one order. -/
structure Rearranged (frameId : JsString) (iteration : N) (events events' : List (Event N)) :
    Prop where
  others : events.filter (fun e => !e.ofCell frameId iteration) =
    events'.filter fun e => !e.ofCell frameId iteration
  progress : (events.filter (Event.ofCell frameId iteration)).Perm
    (events'.filter (Event.ofCell frameId iteration))

/-- Before the commit of a cell, the order of its progress makes no difference to the view. -/
theorem view_rearranged {frameId : JsString} {iteration : N} {before before' : List (Event N)}
    (h : Rearranged frameId iteration before before')
    (hcommit : ∀ e ∈ before, e.commits frameId iteration = false)
    (hordinal : ∀ a ∈ before, ∀ b ∈ before, a.ofCell frameId iteration = true →
      b.ofCell frameId iteration = true → a.ordinal? = b.ordinal? → a = b) :
    (before.foldl reduceEvent .initial).view = (before'.foldl reduceEvent .initial).view := by
  have hcomm : ∀ p ∈ before, p.ofCell frameId iteration = true → ∀ e ∈ before,
      CommuteAt reduceEvent (Setoid.ker (State.view (N := N))) (Open frameId iteration) p e :=
    fun p hp hcell e he => ofCell_commute hcell (hcommit e he) (hordinal p hp e he hcell)
  have hopen : Open frameId iteration (State.initial : State N) :=
    ⟨numbered_initial, List.not_mem_nil⟩
  exact open_respects.foldl_rearranged (Event.ofCell frameId iteration) hcommit h.others h.progress
    hcomm hopen

theorem numbered_respects :
    Respects reduceEvent (Setoid.ker (State.view (N := N))) Numbered fun _ => True :=
  ⟨fun _ e h _ => h.reduceEvent e, fun _ _ e h h' _ hview => (view_reduceEvent h e).trans
    ((congrArg (View.step · e) hview).trans (view_reduceEvent h' e).symm)⟩

omit [JsonNumber N] [DecidableEq N] in
theorem status_of_view {st st' : State N} (h : st.view = st'.view) : st.status = st'.status :=
  congrArg (fun v : View N => v.others.status) h

theorem reduceStatus_rearranged {frameId : JsString} {iteration : N}
    {before before' : List (Event N)} (h : Rearranged frameId iteration before before')
    (hcommit : ∀ e ∈ before, e.commits frameId iteration = false)
    (hordinal : ∀ a ∈ before, ∀ b ∈ before, a.ofCell frameId iteration = true →
      b.ofCell frameId iteration = true → a.ordinal? = b.ordinal? → a = b)
    (rest : List (Event N)) : reduceStatus (before' ++ rest) = reduceStatus (before ++ rest) := by
  have hnumbered : ∀ es : List (Event N), Numbered (es.foldl reduceEvent .initial) := fun es =>
    numbered_respects.foldl_inv (by simp) numbered_initial
  have hall : ∀ e ∈ rest, True := fun _ _ => trivial
  have hview := numbered_respects.foldl_congr hall (hnumbered before) (hnumbered before')
    (view_rearranged h hcommit hordinal)
  rw [reduceStatus, reduceStatus, List.foldl_append, List.foldl_append]
  exact (status_of_view hview).symm

/-- A journal keeps its status when events are put in again that it has seen, and when the
    progress of a cell, its ordinals distinct, is rearranged before the commit of the cell. -/
theorem reduceStatus_replay {events : List (Event N)} (hscoped : FrameScoped events) :
    (∀ events', Replays [] events events' → reduceStatus events' = reduceStatus events) ∧
    ∀ frameId iteration before before' rest, events = before ++ rest →
      Rearranged frameId iteration before before' →
      (∀ e ∈ before, e.commits frameId iteration = false) →
      (∀ a ∈ before, ∀ b ∈ before, a.ofCell frameId iteration = true →
        b.ofCell frameId iteration = true → a.ordinal? = b.ordinal? → a = b) →
      reduceStatus (before' ++ rest) = reduceStatus events := by
  refine ⟨fun events' h => reduceStatus_replays hscoped h, ?_⟩
  rintro frameId iteration before before' rest rfl h hcommit hordinal
  exact reduceStatus_rearranged h hcommit hordinal rest

/-- A frame with two phases of its first cell. -/
def openedWith (names : List JsString) (ordinals : List Int) : List (Event Int) :=
  .frameOpened (js "f0") none 0 (js "root") ::
    (names.zip ordinals).map fun p => .phase (js "f0") 1 p.2 p.1

def cellDone : Event Int := .cellCommitted (js "f0") 1 (js "p")

theorem reduceStatus_replay_phases :
    reduceStatus (openedWith [js "a", js "b"] [0, 1] ++ [cellDone, .phase (js "f0") 1 0 (js "a")]) =
        reduceStatus (openedWith [js "a", js "b"] [0, 1] ++ [cellDone]) ∧
      reduceStatus (openedWith [js "b", js "a"] [1, 0] ++ [cellDone]) =
        reduceStatus (openedWith [js "a", js "b"] [0, 1] ++ [cellDone]) := by
  have hscoped : FrameScoped (openedWith [js "a", js "b"] [0, 1] ++ [cellDone]) := by decide +kernel
  obtain ⟨hreplay, horder⟩ := reduceStatus_replay hscoped
  refine ⟨hreplay _ ?_, horder (js "f0") 1 _ _ _ rfl ⟨?_, ?_⟩ ?_ ?_⟩
  · refine .event (.event (.event (.event (.again (.inl ⟨?_, rfl⟩) (.done _)))))
    decide +kernel
  · decide +kernel
  · decide +kernel
  · decide +kernel
  · decide +kernel

/-- Two phases with one ordinal: the first of them is the phase of the frame. -/
theorem reduceStatus_same_ordinal :
    FrameScoped (openedWith [js "a", js "b"] [0, 0] ++ [cellDone]) ∧
      Rearranged (js "f0") 1 (openedWith [js "a", js "b"] [0, 0])
        (openedWith [js "b", js "a"] [0, 0]) ∧
      (∀ e ∈ openedWith [js "a", js "b"] [0, 0], e.commits (js "f0") 1 = false) ∧
      reduceStatus (openedWith [js "b", js "a"] [0, 0] ++ [cellDone]) ≠
        reduceStatus (openedWith [js "a", js "b"] [0, 0] ++ [cellDone]) := by
  refine ⟨?_, ⟨?_, ?_⟩, ?_, ?_⟩
  · decide +kernel
  · decide +kernel
  · decide +kernel
  · decide +kernel
  · decide +kernel

end PiRlm.Core.Status

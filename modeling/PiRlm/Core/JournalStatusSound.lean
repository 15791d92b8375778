/-
  PiRlm.Core.JournalStatusSound

  What a replayed journal leaves of the status of `core/journal.ts`.

  An event that the fold has recorded leaves its variables alone, and what is recorded stays
  recorded, so an event put in again later changes nothing.  The progress events of a cell that
  is not committed only reach two registries, of which the fold never reads the order.
-/
import PiRlm.Core.JournalStatus

namespace PiRlm.Core.Status

open PiRlm.Lib

variable {N : Type}

-- ============================================================================
-- Replays
-- ============================================================================

/-- The frame an event is about, opened before. -/
def Event.frameId? : Event N → Option JsString
  | .phase frameId _ _ _ | .emit frameId _ _ _ | .passed _ frameId | .keyBound frameId _ _ _
  | .cellCommitted frameId _ _ | .callCommitted frameId _ | .answerCommitted frameId
  | .frameClosed frameId _ => some frameId
  | .runStarted _ _ | .frameOpened _ _ _ _ | .runCompleted _ _ | .runFailed _ _
  | .runCancelled _ _ => none

/-- Kinds of events that a restart may put into a journal again. -/
def Event.replayed : Event N → Bool
  | .frameOpened _ _ _ _ | .keyBound _ _ _ _ | .phase _ _ _ _ | .emit _ _ _ _
  | .cellCommitted _ _ _ | .callCommitted _ _ => true
  | _ => false

/-- The event opens the frame. -/
def Event.opens (frameId : JsString) : Event N → Bool
  | .frameOpened frameId' _ _ _ => decide (frameId' = frameId)
  | _ => false

/-- Each event of a frame follows an opening of the frame. -/
def FrameScoped (events : List (Event N)) : Prop :=
  ∀ i : Fin events.length, (events.get i).frameId?.all fun frameId =>
    (events.take i).any fun e => e.opens frameId

instance (events : List (Event N)) : Decidable (FrameScoped events) :=
  inferInstanceAs (Decidable (∀ _ : Fin _, _ = true))

theorem FrameScoped.opened {before after : List (Event N)} {e : Event N}
    (h : FrameScoped (before ++ e :: after)) {frameId : JsString}
    (hframe : e.frameId? = some frameId) : ∃ e' ∈ before, e'.opens frameId = true := by
  have hat := h ⟨before.length, by simp⟩
  simpa [hframe] using hat

/-- The event has been seen, or it is a call with an identifier that has been seen. -/
def Seen (past : List (Event N)) (e : Event N) : Prop :=
  (e ∈ past ∧ e.replayed = true) ∨
    ∃ frameId frameId' callId, e = .callCommitted frameId callId ∧
      .callCommitted frameId' callId ∈ past

/-- The second list is the first with events put in again that were seen before. -/
inductive Replays : List (Event N) → List (Event N) → List (Event N) → Prop
  | done (past : List (Event N)) : Replays past [] []
  | event {past : List (Event N)} {e : Event N} {rest rest' : List (Event N)}
    (h : Replays (past ++ [e]) rest rest') : Replays past (e :: rest) (e :: rest')
  | again {past : List (Event N)} {e : Event N} {rest rest' : List (Event N)} (hseen : Seen past e)
    (h : Replays past rest rest') : Replays past rest (e :: rest')

/-- What is recorded in a state stays recorded in the other. -/
structure Grows (st st' : State N) : Prop where
  frames : ∀ frameId f, st.frames.get frameId = some f →
    ∃ f', st'.frames.get frameId = some f' ∧ f.seenIterations ⊆ f'.seenIterations
  keyBindings : ∀ key, st.keyBindings.has key = true → st'.keyBindings.has key = true
  committedCallIds : st.committedCallIds ⊆ st'.committedCallIds
  seenProgress : st.seenProgress ⊆ st'.seenProgress

theorem Grows.refl (st : State N) : Grows st st :=
  ⟨fun _ f hf => ⟨f, hf, fun _ h => h⟩, fun _ h => h, fun _ h => h, fun _ h => h⟩

/-- An assignment to a frame that keeps its iterations. -/
theorem Grows.setFrame {st : State N} {frameId : JsString} {f f' : MutableFrame N}
    (hf : st.frames.get frameId = some f) (hseen : f.seenIterations ⊆ f'.seenIterations)
    (g : JsString) (fg : MutableFrame N) (hg : st.frames.get g = some fg) :
    ∃ f'', (st.frames.set frameId f').get g = some f'' ∧
      fg.seenIterations ⊆ f''.seenIterations := by
  rw [OrderedMap.get_set]
  by_cases h : g = frameId
  · subst h
    rw [hf, Option.some.injEq] at hg
    exact ⟨f', if_pos rfl, hg ▸ hseen⟩
  · exact ⟨fg, by rw [if_neg h, hg], fun _ hi => hi⟩

theorem Grows.trans {st st' st'' : State N} (h : Grows st st') (h' : Grows st' st'') :
    Grows st st'' := by
  refine ⟨fun frameId f hf => ?_, fun key hk => h'.keyBindings key (h.keyBindings key hk),
    fun _ hc => h'.committedCallIds (h.committedCallIds hc),
    fun _ hp => h'.seenProgress (h.seenProgress hp)⟩
  obtain ⟨f', hf', hseen⟩ := h.frames frameId f hf
  obtain ⟨f'', hf'', hseen'⟩ := h'.frames frameId f' hf'
  exact ⟨f'', hf'', fun _ hi => hseen' (hseen hi)⟩

theorem updateFrame_grows (st : State N) (frameId : JsString)
    {update : MutableFrame N → MutableFrame N}
    (h : ∀ f, (update f).seenIterations = f.seenIterations) :
    Grows st (updateFrame st frameId update) := by
  unfold updateFrame
  cases hf : st.frames.get frameId with
  | none => exact .refl st
  | some f =>
    have hseen : f.seenIterations ⊆ (update f).seenIterations := by rw [h f]; exact fun _ hi => hi
    exact ⟨Grows.setFrame hf hseen, fun _ h => h, fun _ h => h, fun _ h => h⟩

theorem foldl_phases_seenIterations (phases : List (N × JsString)) (f : MutableFrame N) :
    (phases.foldl (fun f phase => { f with phase := some phase.2 }) f).seenIterations =
      f.seenIterations := by
  induction phases generalizing f with
  | nil => rfl
  | cons phase phases ih => rw [List.foldl_cons, ih]

variable [JsonNumber N]

/-- What the fold looks up before it takes an event up. -/
def Recorded (st : State N) : Event N → Prop
  | .frameOpened frameId _ _ _ => st.frames.has frameId = true
  | .keyBound frameId kind key _ => st.keyBindings.has (registryKey frameId kind key) = true
  | .phase frameId iteration ordinal _ | .emit frameId iteration ordinal _ =>
    progressKey frameId iteration ordinal ∈ st.seenProgress
  | .cellCommitted frameId iteration _ =>
    ∃ f, st.frames.get frameId = some f ∧ iteration ∈ f.seenIterations
  | .callCommitted _ callId => callId ∈ st.committedCallIds
  | _ => False

theorem Grows.recorded {st st' : State N} (h : Grows st st') {e : Event N}
    (hrec : Recorded st e) : Recorded st' e := by
  cases e with
  | frameOpened frameId parentFrameId depth objective =>
    obtain ⟨f, hf⟩ := Option.isSome_iff_exists.mp hrec
    obtain ⟨f', hf', -⟩ := h.frames frameId f hf
    exact Option.isSome_iff_exists.mpr ⟨f', hf'⟩
  | keyBound frameId kind key identityHash => exact h.keyBindings _ hrec
  | phase frameId iteration ordinal name => exact h.seenProgress hrec
  | emit frameId iteration ordinal message => exact h.seenProgress hrec
  | cellCommitted frameId iteration outputPreview =>
    obtain ⟨f, hf, hmem⟩ := hrec
    obtain ⟨f', hf', hseen⟩ := h.frames frameId f hf
    exact ⟨f', hf', hseen hmem⟩
  | callCommitted frameId callId => exact h.committedCallIds hrec
  | runStarted | passed | answerCommitted | frameClosed | runCompleted | runFailed
    | runCancelled => exact hrec.elim

theorem applyPendingPhase_grows (st : State N) (frameId : JsString) (iteration : N) :
    Grows st (applyPendingPhase st frameId iteration) := by
  unfold applyPendingPhase
  cases hf : st.frames.get frameId with
  | none => exact .refl st
  | some f =>
    cases st.pendingPhases.get (cellKey frameId iteration) with
    | none => exact .refl st
    | some pending =>
      refine ⟨Grows.setFrame hf ?_, fun _ h => h, fun _ h => h, fun _ h => h⟩
      rw [releasePhases, foldl_phases_seenIterations]
      exact fun _ hi => hi

variable [DecidableEq N]

attribute [local simp] reduceEvent

/-- Nothing that is recorded is lost. -/
theorem reduceEvent_grows (st : State N) (e : Event N) : Grows st (reduceEvent st e) := by
  cases e with
  | passed => exact .refl st
  | runStarted => exact ⟨(Grows.refl st).frames, fun _ h => h, fun _ h => h, fun _ h => h⟩
  | runCompleted | runFailed | runCancelled =>
    simp only [reduceEvent]
    split_ifs
    · exact .refl st
    · exact ⟨(Grows.refl st).frames, fun _ h => h, fun _ h => h, fun _ h => h⟩
  | frameOpened frameId parentFrameId depth objective =>
    simp only [reduceEvent]
    split_ifs with h
    · exact .refl st
    · refine ⟨fun g f hg => ?_, fun _ h => h, fun _ h => h, fun _ h => h⟩
      have hne : g ≠ frameId := by
        rintro rfl
        exact h (Option.isSome_iff_exists.mpr ⟨f, hg⟩)
      exact ⟨f, by simp [hne, hg], fun _ hi => hi⟩
  | phase frameId iteration ordinal name =>
    have hprogress : Grows st { st with
        seenProgress := insertNew st.seenProgress (progressKey frameId iteration ordinal) } :=
      ⟨(Grows.refl st).frames, fun _ h => h, fun _ h => h, fun _ h => mem_insertNew.mpr (.inl h)⟩
    simp only [reduceEvent]
    split_ifs with hseen hcell
    · exact .refl st
    · exact hprogress.trans (updateFrame_grows _ frameId fun _ => rfl)
    · exact hprogress.trans ⟨(Grows.refl _).frames, fun _ h => h, fun _ h => h, fun _ h => h⟩
  | emit frameId iteration ordinal message =>
    exact ⟨(Grows.refl st).frames, fun _ h => h, fun _ h => h,
      fun _ h => mem_insertNew.mpr (.inl h)⟩
  | keyBound frameId kind key identityHash =>
    simp only [reduceEvent]
    split_ifs
    · exact .refl st
    · refine ⟨(Grows.refl st).frames, fun k hk => ?_, fun _ h => h, fun _ h => h⟩
      rw [OrderedMap.has_set, hk, Bool.or_true]
  | cellCommitted frameId iteration outputPreview =>
    simp only [reduceEvent]
    cases hf : st.frames.get frameId with
    | none => exact .refl st
    | some f =>
      simp only
      split_ifs
      · exact .refl st
      · refine Grows.trans ?_ (applyPendingPhase_grows _ frameId iteration)
        exact ⟨Grows.setFrame hf (List.subset_append_left _ _), fun _ h => h, fun _ h => h,
          fun _ h => h⟩
  | callCommitted frameId callId =>
    simp only [reduceEvent]
    cases hf : st.frames.get frameId with
    | none => exact .refl st
    | some f =>
      simp only
      split_ifs
      · exact .refl st
      · exact ⟨Grows.setFrame hf fun _ hi => hi, fun _ h => h,
          fun _ h => mem_insertNew.mpr (.inl h), fun _ h => h⟩
  | answerCommitted frameId => exact updateFrame_grows st frameId fun _ => rfl
  | frameClosed frameId state => exact updateFrame_grows st frameId fun _ => rfl

/-- An event that is recorded is passed over. -/
theorem reduceEvent_of_recorded {st : State N} {e : Event N} (h : Recorded st e) :
    reduceEvent st e = st := by
  cases e with
  | frameOpened | keyBound | phase => exact if_pos h
  | emit frameId iteration ordinal message =>
    simp [insertNew_of_mem (show progressKey frameId iteration ordinal ∈ _ from h)]
  | cellCommitted frameId iteration outputPreview =>
    obtain ⟨f, hf, hmem⟩ := h
    simp [hf, hmem]
  | callCommitted frameId callId =>
    have hmem : callId ∈ st.committedCallIds := h
    cases hf : st.frames.get frameId <;> simp [hf, hmem]
  | runStarted | passed | answerCommitted | frameClosed | runCompleted | runFailed
    | runCancelled => exact h.elim

/-- An event of a frame that is open is recorded by its step. -/
theorem reduceEvent_records {st : State N} {e : Event N} (h : e.replayed = true)
    (hframe : ∀ frameId, e.frameId? = some frameId → st.frames.has frameId = true) :
    Recorded (reduceEvent st e) e := by
  cases e with
  | frameOpened frameId parentFrameId depth objective =>
    simp only [reduceEvent]
    split_ifs with hhas
    · exact hhas
    · simp [Recorded, OrderedMap.has_set]
  | keyBound frameId kind key identityHash =>
    simp only [reduceEvent]
    split_ifs with hhas
    · exact hhas
    · simp [Recorded, OrderedMap.has_set]
  | phase frameId iteration ordinal name =>
    simp only [reduceEvent]
    split_ifs with hseen hcell
    · exact hseen
    · refine (updateFrame_grows _ frameId ?_).seenProgress (mem_insertNew.mpr (.inr rfl))
      exact fun _ => rfl
    · exact mem_insertNew.mpr (.inr rfl)
  | emit frameId iteration ordinal message => exact mem_insertNew.mpr (.inr rfl)
  | cellCommitted frameId iteration outputPreview =>
    obtain ⟨f, hf⟩ := Option.isSome_iff_exists.mp (hframe frameId rfl)
    simp only [reduceEvent, hf]
    split_ifs with hmem
    · exact ⟨f, hf, hmem⟩
    · have hcommit := applyPendingPhase_grows (commitCell st f frameId iteration outputPreview)
        frameId iteration
      obtain ⟨f', hf', hseen⟩ := hcommit.frames frameId _ (by rw [commitCell, OrderedMap.get_set,
        if_pos rfl])
      exact ⟨f', hf', hseen (List.mem_append_right _ (List.mem_singleton_self iteration))⟩
  | callCommitted frameId callId =>
    obtain ⟨f, hf⟩ := Option.isSome_iff_exists.mp (hframe frameId rfl)
    simp only [reduceEvent, hf]
    split_ifs with hmem
    · exact hmem
    · exact mem_insertNew.mpr (.inr rfl)
  | runStarted | passed | answerCommitted | frameClosed | runCompleted | runFailed
    | runCancelled => cases h

omit [DecidableEq N] in
theorem Recorded.opened {st : State N} {e : Event N} {frameId : JsString}
    (hrec : e.replayed = true → Recorded st e) (h : e.opens frameId = true) :
    st.frames.has frameId = true := by
  cases e with
  | frameOpened =>
    obtain rfl := of_decide_eq_true h
    exact hrec rfl
  | _ => cases h

/-- Put in again, the events of a journal leave the variables as they were. -/
theorem foldl_replays {past rest rest' : List (Event N)} (h : Replays past rest rest')
    {st : State N} (hrec : ∀ e ∈ past, e.replayed = true → Recorded st e)
    (hscoped : ∀ before e after, rest = before ++ e :: after → ∀ frameId,
      e.frameId? = some frameId → ∃ e' ∈ past ++ before, e'.opens frameId = true) :
    rest'.foldl reduceEvent st = rest.foldl reduceEvent st := by
  induction h generalizing st with
  | done => rfl
  | @event past e rest rest' _ ih =>
    refine ih (fun e' he' hreplayed => ?_) fun before e' after heq frameId hframe => ?_
    · rcases List.mem_append.mp he' with he' | he'
      · exact (reduceEvent_grows st e).recorded (hrec e' he' hreplayed)
      · rw [List.mem_singleton.mp he'] at hreplayed ⊢
        refine reduceEvent_records hreplayed fun frameId hframe => ?_
        obtain ⟨e', hmem, hopens⟩ := hscoped [] e rest rfl frameId hframe
        rw [List.append_nil] at hmem
        exact Recorded.opened (hrec e' hmem) hopens
    · rw [List.append_assoc]
      exact hscoped (e :: before) e' after (by rw [heq]; rfl) frameId hframe
  | @again past e rest rest' hseen _ ih =>
    have hrecorded : Recorded st e := by
      rcases hseen with ⟨hmem, hreplayed⟩ | ⟨frameId, frameId', callId, rfl, hmem⟩
      · exact hrec e hmem hreplayed
      · have hcall : Recorded st (.callCommitted frameId' callId) := hrec _ hmem rfl
        exact hcall
    rw [List.foldl_cons, reduceEvent_of_recorded hrecorded]
    exact ih hrec hscoped

theorem reduceStatus_replays {events events' : List (Event N)} (hscoped : FrameScoped events)
    (h : Replays [] events events') : reduceStatus events' = reduceStatus events := by
  have hrec : ∀ e ∈ ([] : List (Event N)), e.replayed = true → Recorded State.initial e := by simp
  have hopened : ∀ before e after, events = before ++ e :: after → ∀ frameId,
      e.frameId? = some frameId → ∃ e' ∈ [] ++ before, e'.opens frameId = true := by
    rintro before e after rfl frameId hframe
    exact hscoped.opened hframe
  rw [reduceStatus, reduceStatus, foldl_replays h hrec hopened]

end PiRlm.Core.Status

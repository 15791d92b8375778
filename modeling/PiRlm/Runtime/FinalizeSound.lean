/-
  PiRlm.Runtime.FinalizeSound

  What `finalize` leaves in the journal and what it returns.

  An attempt appends closings, children first, and then one terminal.  What it returns
  after a read is the result of that terminal.  The terminal agrees with the closing of
  the root frame unless the first attempt closed the root frame for another outcome and
  came to no terminal.
-/
import Mathlib
import PiRlm.Runtime.Finalize
import PiRlm.Runtime.RunRecoveryJournal

namespace PiRlm.Runtime

open PiRlm.Lib PiRlm.Core

variable {A : Type}

/-! ## Frames of a journal -/

/-- The journal has a closing of the frame. -/
def ClosedIn (events : List RlmEvent) (frameId : JsString) : Prop :=
  ∃ state, RlmEvent.frameClosed frameId state ∈ events

/-- A journal of a run that has not ended: no terminal, each frame opened once and after
    its parent, the root frame not closed, no answer of a root frame that is not there. -/
structure RunJournal (rootFrameId : JsString) (events : List RlmEvent) : Prop where
  noTerminal : events.any RlmEvent.isTerminalEvent = false
  openedOnce : (openedIds events).Nodup
  parentFirst : ∀ before frameId parent after,
    events = before ++ .frameOpened frameId (some parent) :: after → parent ∈ openedIds before
  rootOpen : ¬ClosedIn events rootFrameId
  rootAnswer : frameAnswers events rootFrameId ≠ [] → rootFrameId ∈ openedIds events

theorem openedIds_append (events events' : List RlmEvent) :
    openedIds (events ++ events') = openedIds events ++ openedIds events' :=
  List.filterMap_append

theorem mem_openedIds {events : List RlmEvent} {frameId : JsString} :
    frameId ∈ openedIds events ↔ ∃ parent, RlmEvent.frameOpened frameId parent ∈ events := by
  rw [openedIds, List.mem_filterMap]
  constructor
  · rintro ⟨event, hmem, hopened⟩
    cases event with
    | frameOpened f parent =>
      obtain rfl := Option.some.inj hopened
      exact ⟨parent, hmem⟩
    | frameClosed | answerCommitted | terminal | other => cases hopened
  · rintro ⟨parent, hmem⟩
    exact ⟨_, hmem, rfl⟩

/-- No frame is the parent of one that was opened before it, nor of itself. -/
theorem RunJournal.pairwise_openedIds {rootFrameId : JsString} {events : List RlmEvent}
    (h : RunJournal rootFrameId events) :
    (openedIds events).Pairwise fun frameId later =>
      RlmEvent.frameOpened frameId (some later) ∉ events := by
  have hsuffix : ∀ before after, events = before ++ after →
      (openedIds after).Pairwise fun frameId later =>
        RlmEvent.frameOpened frameId (some later) ∉ events := by
    intro before after
    induction after generalizing before with
    | nil => exact fun _ => List.Pairwise.nil
    | cons event after ih =>
      intro hsplit
      have hrest := ih (before ++ [event]) (by rw [hsplit, List.append_assoc]; rfl)
      cases event with
      | frameClosed | answerCommitted | terminal | other => exact hrest
      | frameOpened frameId parent =>
        refine List.pairwise_cons.mpr ⟨fun later hlater hchild => ?_, hrest⟩
        -- the parent was opened before the frame, and once
        obtain ⟨before', after', hsplit'⟩ := List.append_of_mem hchild
        have hparent := h.parentFirst before' frameId later after' hsplit'
        have hids : openedIds before ++ frameId :: openedIds after =
            openedIds before' ++ frameId :: openedIds after' := by
          have heq := congrArg openedIds (hsplit.symm.trans hsplit')
          rw [openedIds_append, openedIds_append] at heq
          exact heq
        have hnodup := h.openedOnce
        rw [hsplit, openedIds_append] at hnodup
        have hnotin : frameId ∉ openedIds before ∧ frameId ∉ openedIds after := by
          have hperm := List.nodup_middle.mp hnodup
          rw [List.nodup_cons, List.mem_append, not_or] at hperm
          exact hperm.1
        have hsame : openedIds before = openedIds before' :=
          ((List.append_cons_inj_of_notMem hnotin.1 hnotin.2).mp hids).1
        rw [hsame] at hnodup
        exact (List.nodup_append.mp hnodup).2.2 later hparent later
          (List.mem_cons_of_mem frameId hlater) rfl
  exact hsuffix [] events rfl

/-! ### The open frames -/

/-- One event changes the order and the open frames. -/
def openStep (frames : List JsString × List JsString) (event : RlmEvent) :
    List JsString × List JsString :=
  match event with
  | .frameOpened frameId _ =>
    if frameId ∈ frames.2 then frames else (frames.1 ++ [frameId], frames.2 ++ [frameId])
  | .frameClosed frameId _ => (frames.1, frames.2.filter (· ≠ frameId))
  | _ => frames

theorem openFrames_concat (events : List RlmEvent) (event : RlmEvent) :
    openFrames (events ++ [event]) = openStep (openFrames events) event := by
  rw [openFrames, List.foldl_append, List.foldl_cons, List.foldl_nil]
  cases event <;> rfl

theorem openedIds_concat (events : List RlmEvent) (event : RlmEvent) :
    openedIds (events ++ [event]) = openedIds events ++ event.opened?.toList := by
  rw [openedIds_append]
  cases event <;> rfl

theorem closedIn_concat {events : List RlmEvent} {event : RlmEvent} {frameId : JsString} :
    ClosedIn (events ++ [event]) frameId ↔
      ClosedIn events frameId ∨ ∃ state, event = .frameClosed frameId state := by
  simp only [ClosedIn, List.mem_append, List.mem_singleton, exists_or, eq_comm]

/-- When each frame is opened once, the order is that of the openings, and a frame is open
    when it was opened and not closed. -/
theorem openFrames_spec {events : List RlmEvent} (h : (openedIds events).Nodup) :
    (openFrames events).1 = openedIds events ∧
      (∀ frameId ∈ (openFrames events).2, frameId ∈ openedIds events) ∧
      (∀ frameId ∈ openedIds events, frameId ∉ (openFrames events).2 → ClosedIn events frameId) ∧
      ∀ frameId ∈ openedIds events, ¬ClosedIn events frameId → frameId ∈ (openFrames events).2 := by
  induction events using List.reverseRecOn with
  | nil => exact ⟨rfl, nofun, nofun, nofun⟩
  | append_singleton events event ih =>
    rw [openedIds_concat] at h
    obtain ⟨horder, hopened, hclosed, hopen⟩ := ih (List.nodup_append.mp h).1
    rw [openFrames_concat, openedIds_concat]
    simp only [closedIn_concat]
    cases event with
    | answerCommitted | terminal | other =>
      simp only [openStep, RlmEvent.opened?, Option.toList_none, List.append_nil, reduceCtorEq,
        exists_false, or_false]
      exact ⟨horder, hopened, hclosed, hopen⟩
    | frameOpened frameId parent =>
      have hnew : frameId ∉ (openFrames events).2 := fun hmem =>
        (List.nodup_append.mp h).2.2 frameId (hopened frameId hmem) frameId
          (List.mem_singleton_self frameId) rfl
      simp only [openStep, if_neg hnew, RlmEvent.opened?, Option.toList_some, reduceCtorEq,
        exists_false, or_false, horder, List.mem_append, List.mem_singleton, not_or, true_and]
      refine ⟨fun f hf => hf.imp_left (hopened f), ?_, ?_⟩
      · rintro f (hf | rfl) ⟨hnot, hne⟩
        · exact hclosed f hf hnot
        · exact absurd rfl hne
      · rintro f (hf | rfl) hnot
        · exact .inl (hopen f hf hnot)
        · exact .inr rfl
    | frameClosed frameId state =>
      simp only [openStep, RlmEvent.opened?, Option.toList_none, List.append_nil, horder,
        List.mem_filter, decide_eq_true_eq, not_and, not_not, true_and,
        RlmEvent.frameClosed.injEq, exists_and_left, exists_eq', and_true]
      refine ⟨fun f hf => hopened f hf.1, fun f hf hnot => ?_, fun f hf hnot => ?_⟩
      · by_cases hmem : f ∈ (openFrames events).2
        · exact .inr (hnot hmem).symm
        · exact .inl (hclosed f hf hmem)
      · rw [not_or] at hnot
        exact ⟨hopen f hf hnot.1, fun heq => hnot.2 heq.symm⟩

/-! ### Closings -/

/-- No frame is its own parent. -/
theorem RunJournal.not_parent_self {rootFrameId : JsString} {events : List RlmEvent}
    (h : RunJournal rootFrameId events) (frameId : JsString) :
    RlmEvent.frameOpened frameId (some frameId) ∉ events := by
  intro hmem
  obtain ⟨before, after, hsplit⟩ := List.append_of_mem hmem
  have hbefore := h.parentFirst before frameId frameId after hsplit
  have hnodup := h.openedOnce
  rw [hsplit, openedIds_append] at hnodup
  exact (List.nodup_append.mp hnodup).2.2 frameId hbefore frameId
    (List.mem_cons_self (a := frameId)) rfl

/-- What `finalize` has written before a terminal: closings of frames of the journal, each
    after the closings of its children. -/
structure Closes (events written : List RlmEvent) : Prop where
  onlyClosings : ∀ event ∈ written, ∃ frameId state, event = .frameClosed frameId state
  childFirst : ∀ before frameId state after,
    written = before ++ .frameClosed frameId state :: after →
      ∀ child, RlmEvent.frameOpened child (some frameId) ∈ events →
        ClosedIn (events ++ before) child

section

variable {rootFrameId : JsString} {events written : List RlmEvent}

theorem Closes.nil : Closes events [] where
  onlyClosings := nofun
  childFirst := fun before _ _ _ h => by cases before <;> cases h

theorem Closes.filterMap_eq_nil {β : Type} (h : Closes events written) (f : RlmEvent → Option β)
    (hf : ∀ frameId state, f (.frameClosed frameId state) = none) : written.filterMap f = [] := by
  refine List.filterMap_eq_nil_iff.mpr fun event hmem => ?_
  obtain ⟨frameId, state, rfl⟩ := h.onlyClosings event hmem
  exact hf frameId state

theorem Closes.openedIds_append (h : Closes events written) :
    openedIds (events ++ written) = openedIds events := by
  rw [Runtime.openedIds_append, openedIds, openedIds,
    h.filterMap_eq_nil RlmEvent.opened? fun _ _ => rfl, List.append_nil]

theorem Closes.noTerminal (h : Closes events written)
    (hevents : events.any RlmEvent.isTerminalEvent = false) :
    (events ++ written).any RlmEvent.isTerminalEvent = false := by
  rw [List.any_append, hevents, Bool.false_or, List.any_eq_false]
  intro event hmem
  obtain ⟨frameId, state, rfl⟩ := h.onlyClosings event hmem
  exact Bool.false_ne_true

theorem ClosedIn.append_right {frameId : JsString} (h : ClosedIn events frameId)
    (more : List RlmEvent) : ClosedIn (events ++ more) frameId := by
  obtain ⟨state, hmem⟩ := h
  exact ⟨state, List.mem_append_left more hmem⟩

/-- Frames that an attempt closes, in the order in which it closes them. -/
def closingOrder (events : List RlmEvent) : List JsString :=
  (openFrames events).1.reverse.filter (· ∈ (openFrames events).2)

theorem mem_closingOrder (hrun : RunJournal rootFrameId events) (h : Closes events written)
    {frameId : JsString} :
    frameId ∈ closingOrder (events ++ written) ↔
      frameId ∈ openedIds events ∧ frameId ∈ (openFrames (events ++ written)).2 := by
  have hnodup : (openedIds (events ++ written)).Nodup := by
    rw [h.openedIds_append]
    exact hrun.openedOnce
  rw [closingOrder, List.mem_filter, List.mem_reverse, decide_eq_true_eq,
    (openFrames_spec hnodup).1, h.openedIds_append]

/-- A frame that is not closed is in the closing order. -/
theorem closedIn_or_mem_closingOrder (hrun : RunJournal rootFrameId events)
    (h : Closes events written) {frameId : JsString} (hopened : frameId ∈ openedIds events) :
    ClosedIn (events ++ written) frameId ∨ frameId ∈ closingOrder (events ++ written) := by
  have hopened' : frameId ∈ openedIds (events ++ written) := by
    rw [h.openedIds_append]
    exact hopened
  have hnodup : (openedIds (events ++ written)).Nodup := by
    rw [h.openedIds_append]
    exact hrun.openedOnce
  by_cases hopen : frameId ∈ (openFrames (events ++ written)).2
  · exact .inr ((mem_closingOrder hrun h).mpr ⟨hopened, hopen⟩)
  · exact .inl ((openFrames_spec hnodup).2.2.1 frameId hopened' hopen)

/-- Every child of a frame in the closing order is closed or stands before the frame. -/
theorem closingOrder_childFirst (hrun : RunJournal rootFrameId events)
    (h : Closes events written) {before after : List JsString} {frameId child : JsString}
    (hsplit : closingOrder (events ++ written) = before ++ frameId :: after)
    (hchild : RlmEvent.frameOpened child (some frameId) ∈ events) :
    ClosedIn (events ++ written) child ∨ child ∈ before := by
  have hopened : child ∈ openedIds events := mem_openedIds.mpr ⟨_, hchild⟩
  refine (closedIn_or_mem_closingOrder hrun h hopened).imp_right fun hmem => ?_
  -- parents are opened first, so they are closed last
  have hpair : (closingOrder (events ++ written)).Pairwise fun later frameId =>
      RlmEvent.frameOpened frameId (some later) ∉ events := by
    have hnodup : (openedIds (events ++ written)).Nodup := by
      rw [h.openedIds_append]
      exact hrun.openedOnce
    rw [closingOrder, (openFrames_spec hnodup).1, h.openedIds_append]
    exact (List.pairwise_reverse.mpr hrun.pairwise_openedIds).filter _
  rw [hsplit] at hmem hpair
  rcases List.mem_append.mp hmem with hbefore | hrest
  · exact hbefore
  · have hafter := (List.pairwise_cons.mp (List.pairwise_append.mp hpair).2.1).1
    rcases List.mem_cons.mp hrest with rfl | hlater
    · exact absurd hchild (hrun.not_parent_self child)
    · exact absurd hchild (hafter child hlater)

/-- Closing a prefix of the closing order keeps children first. -/
theorem Closes.append_closings (hrun : RunJournal rootFrameId events) (h : Closes events written)
    {closedIds : List JsString} (hstart : closedIds <+: closingOrder (events ++ written))
    (state : JsString → FrameState) :
    Closes events (written ++ closedIds.map fun frameId => .frameClosed frameId (state frameId)) where
  onlyClosings := by
    intro event hmem
    rcases List.mem_append.mp hmem with hold | hnew
    · exact h.onlyClosings event hold
    · obtain ⟨frameId, -, rfl⟩ := List.mem_map.mp hnew
      exact ⟨frameId, state frameId, rfl⟩
  childFirst := by
    intro before frameId st after hsplit child hchild
    rcases List.append_eq_append_iff.mp hsplit with ⟨mid, rfl, hnew⟩ | ⟨mid, hold, hnew⟩
    · -- the closing is a new one: its children were closed before or stand before it
      obtain ⟨pre, rest, rfl, hpre, hrest⟩ := List.map_eq_append_iff.mp hnew
      obtain ⟨f, post, rfl, hf, -⟩ := List.map_eq_cons_iff.mp hrest
      obtain rfl : f = frameId := (RlmEvent.frameClosed.inj hf).1
      obtain ⟨more, hmore⟩ := hstart
      rw [List.append_assoc, List.cons_append] at hmore
      rw [← List.append_assoc, ← hpre]
      rcases closingOrder_childFirst hrun h hmore.symm hchild with hclosed | hbefore
      · exact hclosed.append_right _
      · exact ⟨state child, List.mem_append_right _ (List.mem_map.mpr ⟨child, hbefore, rfl⟩)⟩
    · cases mid with
      | nil =>
        -- the split is at the boundary
        rw [List.append_nil] at hold
        subst hold
        rw [List.nil_append] at hnew
        obtain ⟨f, post, rfl, hf, -⟩ := List.map_eq_cons_iff.mp hnew.symm
        obtain rfl : f = frameId := (RlmEvent.frameClosed.inj hf).1
        obtain ⟨more, hmore⟩ := hstart
        rw [List.cons_append] at hmore
        have hfirst : _ ∨ _ ∈ [] := closingOrder_childFirst hrun h hmore.symm hchild
        exact hfirst.resolve_right List.not_mem_nil
      | cons event mid =>
        obtain ⟨rfl, -⟩ := List.cons.inj hnew
        exact h.childFirst before frameId st mid hold child hchild

end

/-! ## Appends -/

/-- While the journal has no terminal, the append says that the event is written. -/
def AppendResult.reported : AppendResult → Bool
  | .committed _ | .durable _ => true
  | .rejected _ | .unreported _ => false

/-- Without a terminal in the journal an append that fails may still have written the event;
    one that succeeds has. -/
theorem appendDurably_spec {st : FinalizeState A} (event : RlmEvent) (result : AppendResult)
    (h : st.journal.any RlmEvent.isTerminalEvent = false) :
    (appendDurably st event result).1.planned = st.planned ∧
      ((appendDurably st event result).1.journal = st.journal ++ [event] ∨
        (appendDurably st event result).1.journal = st.journal ∧
          (appendDurably st event result).2 = .error appendErrorCause) ∧
      ((appendDurably st event result).2 = .ok () ↔ result.reported = true) := by
  have hopen : ¬st.journal.any RlmEvent.isTerminalEvent = true := by
    rw [h]
    exact Bool.false_ne_true
  unfold appendDurably append
  rw [if_neg hopen]
  cases result with
  | committed cacheFailure => exact ⟨rfl, .inl rfl, by simp [AppendResult.reported]⟩
  | durable cause => exact ⟨rfl, .inl rfl, by simp [AppendResult.reported]⟩
  | rejected cause => exact ⟨rfl, .inr ⟨rfl, rfl⟩, by simp [AppendResult.reported]⟩
  | unreported cause => exact ⟨rfl, .inl rfl, by simp [AppendResult.reported]⟩

section

variable {rootFrameId : JsString}

/-- The event that closes a frame under a plan. -/
def closing (rootFrameId : JsString) (status : RunStatus) (frameId : JsString) : RlmEvent :=
  .frameClosed frameId (closingState rootFrameId status frameId)

/-- `closeFrames` writes the closings of a prefix of the frames, of all when it succeeds. -/
theorem closeFrames_spec (close : JsString → AppendResult) (frameIds : List JsString)
    {st : FinalizeState A} (h : st.journal.any RlmEvent.isTerminalEvent = false) :
    (closeFrames rootFrameId close frameIds st).1.planned = st.planned ∧
      ∃ closedIds, closedIds <+: frameIds ∧
        (closeFrames rootFrameId close frameIds st).1.journal =
          st.journal ++ closedIds.map (closing rootFrameId st.planned.status) ∧
        ((closeFrames rootFrameId close frameIds st).2 = .ok () → closedIds = frameIds) := by
  induction frameIds generalizing st with
  | nil => exact ⟨rfl, [], List.prefix_rfl, (List.append_nil _).symm, fun _ => rfl⟩
  | cons frameId frameIds ih =>
    obtain ⟨hplanned, hjournal, -⟩ :=
      appendDurably_spec (closing rootFrameId st.planned.status frameId) (close frameId) h
    rw [closeFrames]
    rw [closing] at hplanned hjournal
    generalize appendDurably st (.frameClosed frameId
      (closingState rootFrameId st.planned.status frameId)) (close frameId) = appended at *
    obtain ⟨st', outcome⟩ := appended
    cases outcome with
    | error cause =>
      rcases hjournal with hwritten | ⟨hsame, -⟩
      · exact ⟨hplanned, [frameId], List.prefix_append _ _, hwritten, nofun⟩
      · exact ⟨hplanned, [], List.nil_prefix, hsame.trans (List.append_nil _).symm, nofun⟩
    | ok =>
      have hwritten : st'.journal =
          st.journal ++ [closing rootFrameId st.planned.status frameId] :=
        hjournal.resolve_right fun hfail => by cases hfail.2
      have hnext : st'.journal.any RlmEvent.isTerminalEvent = false := by
        rw [hwritten, List.any_append, h]
        rfl
      obtain ⟨hplanned', closedIds, hstart, hjournal', hall⟩ := ih hnext
      have hplanned : st'.planned = st.planned := hplanned
      refine ⟨hplanned'.trans hplanned, frameId :: closedIds,
        List.cons_prefix_cons.mpr ⟨rfl, hstart⟩, ?_, fun hok => congrArg _ (hall hok)⟩
      rw [hjournal', hwritten, hplanned, List.append_assoc]
      rfl

end

/-! ## Attempts -/

/-- What an attempt plans for: the initial plan, or a failure of the same run. -/
def Plans (initial planned : PlannedResult A) : Prop :=
  planned = initial ∨ planned.status = .failed ∧ planned.runId = initial.runId

theorem Plans.runId {initial planned : PlannedResult A} (h : Plans initial planned) :
    planned.runId = initial.runId := by
  rcases h with rfl | ⟨-, hrunId⟩
  · rfl
  · exact hrunId

theorem plans_journalFailure (initial : PlannedResult A) (cause : ErrorCause) :
    Plans initial (journalFailure initial.runId cause) :=
  .inr ⟨rfl, rfl⟩

/-- Taking in a drain failure keeps the journal, and fails the plan or keeps it. -/
theorem observeDrain_spec (initial : PlannedResult A) (st : FinalizeState A)
    (drain : Option DrainFailure) :
    (observeDrain initial st drain).journal = st.journal ∧
      ((observeDrain initial st drain).planned = st.planned ∨
        ∃ cause, (observeDrain initial st drain).planned = journalFailure initial.runId cause) := by
  rcases drain with _ | ⟨e⟩ | ⟨cause⟩
  · exact ⟨rfl, .inl rfl⟩
  · rw [observeDrain]
    split_ifs
    · exact ⟨rfl, .inl rfl⟩
    · exact ⟨rfl, .inr ⟨_, rfl⟩⟩
  · exact ⟨rfl, .inr ⟨_, rfl⟩⟩

/-- A failed plan stays failed. -/
theorem observeDrain_failed (initial : PlannedResult A) {st : FinalizeState A}
    (drain : Option DrainFailure) (h : st.planned.status = .failed) :
    (observeDrain initial st drain).planned.status = .failed := by
  rcases (observeDrain_spec initial st drain).2 with hsame | ⟨cause, hfailed⟩
  · rw [hsame, h]
  · rw [hfailed]
    rfl

/-- The journal before a terminal is written: closings were appended to it. -/
def Closing (journal : List RlmEvent) (current : List RlmEvent) : Prop :=
  ∃ written, Closes journal written ∧ current = journal ++ written

/-- The journal after the terminal: closings of all open frames, then the terminal of a plan. -/
structure Ended (journal : List RlmEvent) (rootFrameId : JsString) (initial : PlannedResult A)
    (event : TerminalEvent) (current written : List RlmEvent) (planned : PlannedResult A) :
    Prop where
  closes : Closes journal written
  current_eq : current = journal ++ written ++ [.terminal event]
  allClosed : ∀ frameId ∈ openedIds journal, ClosedIn (journal ++ written) frameId
  plans : Plans initial planned
  terminal : terminalEvent planned (journal ++ written) rootFrameId = .ok event

/-- Every closing of the root frame is that of a plan with the status. -/
def RootClosedFor (rootFrameId : JsString) (status : RunStatus) (current : List RlmEvent) : Prop :=
  ∀ state, RlmEvent.frameClosed rootFrameId state ∈ current →
    state = closingState rootFrameId status rootFrameId

/-- The terminals that a plan can come to. -/
inductive TerminalOf (planned : PlannedResult A) (events : List RlmEvent) (rootFrameId : JsString) :
    TerminalEvent → Prop where
  | completed {mode : CompletionMode} {output : RunOutput} (status : planned.status = .completed)
      (mode_eq : planned.completionMode = some mode)
      (output_eq : completionOutput events rootFrameId mode = some output) :
      TerminalOf planned events rootFrameId (.runCompleted planned.runId mode (some output.ref))
  | cancelled (status : planned.status = .cancelled) (code message : JsString) :
      TerminalOf planned events rootFrameId (.runCancelled planned.runId code message)
  | failed (status : planned.status = .failed) (code message : JsString) :
      TerminalOf planned events rootFrameId (.runFailed planned.runId code message)

theorem terminalEvent_cases {planned : PlannedResult A} {events : List RlmEvent}
    {rootFrameId : JsString} {event : TerminalEvent}
    (h : terminalEvent planned events rootFrameId = .ok event) :
    TerminalOf planned events rootFrameId event := by
  unfold terminalEvent at h
  split at h
  · rename_i hstatus
    split at h
    · cases h
    · rename_i mode hmode
      split at h
      · cases h
      · rename_i output houtput
        obtain rfl := Except.ok.inj h
        exact .completed hstatus hmode houtput
  · rename_i hstatus
    obtain rfl := Except.ok.inj h
    exact .cancelled hstatus _ _
  · rename_i hstatus
    obtain rfl := Except.ok.inj h
    exact .failed hstatus _ _

theorem TerminalOf.runId {planned : PlannedResult A} {events : List RlmEvent}
    {rootFrameId : JsString} {event : TerminalEvent}
    (h : TerminalOf planned events rootFrameId event) : event.runId = planned.runId := by
  cases h <;> rfl

section

variable {journal current written : List RlmEvent} {rootFrameId : JsString}
  {initial planned : PlannedResult A} {event : TerminalEvent}

theorem Closing.noTerminal (h : Closing journal current)
    (hjournal : journal.any RlmEvent.isTerminalEvent = false) :
    current.any RlmEvent.isTerminalEvent = false := by
  obtain ⟨written, hcloses, rfl⟩ := h
  exact hcloses.noTerminal hjournal

theorem filterMap_terminal?_eq_nil {events : List RlmEvent}
    (h : events.any RlmEvent.isTerminalEvent = false) :
    events.filterMap RlmEvent.terminal? = [] := by
  refine List.filterMap_eq_nil_iff.mpr fun event hmem => ?_
  have hnot := List.any_eq_false.mp h event hmem
  exact Option.not_isSome_iff_eq_none.mp hnot

theorem terminalsForRun_eq_nil {events : List RlmEvent}
    (h : events.any RlmEvent.isTerminalEvent = false) (runId : JsString) :
    terminalsForRun events runId = [] := by
  rw [terminalsForRun, filterMap_terminal?_eq_nil h]
  rfl

theorem returned_of_noTerminal {st : FinalizeState A}
    (h : st.journal.any RlmEvent.isTerminalEvent = false) :
    returned rootFrameId initial st = none := by
  rw [returned, terminalsForRun_eq_nil h]

theorem Ended.terminals (h : Ended journal rootFrameId initial event current written planned)
    (hjournal : journal.any RlmEvent.isTerminalEvent = false) :
    current.filterMap RlmEvent.terminal? = [event] := by
  rw [h.current_eq, List.filterMap_append,
    filterMap_terminal?_eq_nil (h.closes.noTerminal hjournal)]
  rfl

theorem Ended.runId (h : Ended journal rootFrameId initial event current written planned) :
    event.runId = initial.runId :=
  (terminalEvent_cases h.terminal).runId.trans h.plans.runId

theorem Ended.terminalsForRun (h : Ended journal rootFrameId initial event current written planned)
    (hjournal : journal.any RlmEvent.isTerminalEvent = false) :
    terminalsForRun current initial.runId = [event] := by
  rw [Runtime.terminalsForRun, h.terminals hjournal]
  exact List.filter_eq_self.mpr fun e he => by
    rw [List.mem_singleton.mp he, h.runId, beq_self_eq_true]

theorem Ended.returned {st : FinalizeState A}
    (h : Ended journal rootFrameId initial event st.journal written planned)
    (hjournal : journal.any RlmEvent.isTerminalEvent = false) :
    returned rootFrameId initial st =
      some (finish rootFrameId initial st (resultFromTerminal event initial) st.journal) := by
  rw [Runtime.returned, h.terminalsForRun hjournal]

/-- A closing of the root frame that an attempt finds is one of a failed plan. -/
def RootReady (rootFrameId : JsString) (st : FinalizeState A) : Prop :=
  ∀ state, RlmEvent.frameClosed rootFrameId state ∈ st.journal →
    state = .failed ∧ st.planned.status = .failed

theorem RootReady.closedFor {st : FinalizeState A} (h : RootReady rootFrameId st) :
    RootClosedFor rootFrameId st.planned.status st.journal := by
  intro state hmem
  obtain ⟨rfl, hstatus⟩ := h state hmem
  rw [hstatus]
  rfl

theorem RootReady.observeDrain {st : FinalizeState A} (h : RootReady rootFrameId st)
    (drain : Option DrainFailure) : RootReady rootFrameId (observeDrain initial st drain) := by
  intro state hmem
  rw [(observeDrain_spec initial st drain).1] at hmem
  obtain ⟨hstate, hstatus⟩ := h state hmem
  exact ⟨hstate, observeDrain_failed initial drain hstatus⟩

theorem Plans.observeDrain {st : FinalizeState A} (h : Plans initial st.planned)
    (drain : Option DrainFailure) : Plans initial (observeDrain initial st drain).planned := by
  rcases (observeDrain_spec initial st drain).2 with hsame | ⟨cause, hfailed⟩
  · rw [hsame]
    exact h
  · rw [hfailed]
    exact plans_journalFailure initial cause

/-- New closings of the root frame are those of the plan. -/
theorem RootClosedFor.append_closings {status : RunStatus}
    (h : RootClosedFor rootFrameId status current) (closedIds : List JsString) :
    RootClosedFor rootFrameId status (current ++ closedIds.map (closing rootFrameId status)) := by
  intro state hmem
  rcases List.mem_append.mp hmem with hold | hnew
  · exact h state hold
  · obtain ⟨frameId, -, heq⟩ := List.mem_map.mp hnew
    obtain ⟨rfl, rfl⟩ := RlmEvent.frameClosed.inj heq
    rfl

theorem RootClosedFor.append_terminal {status : RunStatus}
    (h : RootClosedFor rootFrameId status current) (event : TerminalEvent) :
    RootClosedFor rootFrameId status (current ++ [.terminal event]) := by
  intro state hmem
  rcases List.mem_append.mp hmem with hold | hnew
  · exact h state hold
  · cases List.mem_singleton.mp hnew

theorem Closing.append_closings (hrun : RunJournal rootFrameId journal)
    (h : Closing journal current) {closedIds : List JsString} {status : RunStatus}
    (hstart : closedIds <+: closingOrder current) {next : List RlmEvent}
    (hnext : next = current ++ closedIds.map (closing rootFrameId status)) :
    Closing journal next := by
  obtain ⟨written, hcloses, rfl⟩ := h
  exact ⟨_, hcloses.append_closings hrun hstart (closingState rootFrameId status),
    hnext.trans (List.append_assoc _ _ _)⟩

/-- When the whole closing order was closed no frame is left open. -/
theorem Closing.allClosed (hrun : RunJournal rootFrameId journal) (h : Closing journal current)
    {closedIds : List JsString} {status : RunStatus} (hall : closedIds = closingOrder current)
    {next : List RlmEvent}
    (hnext : next = current ++ closedIds.map (closing rootFrameId status)) :
    ∀ frameId ∈ openedIds journal, ClosedIn next frameId := by
  obtain ⟨written, hcloses, rfl⟩ := h
  intro frameId hopened
  rw [hnext, hall]
  rcases closedIn_or_mem_closingOrder hrun hcloses hopened with hclosed | hmem
  · exact hclosed.append_right _
  · exact ⟨_, List.mem_append_right _ (List.mem_map.mpr ⟨frameId, hmem, rfl⟩)⟩

theorem Closing.ended (h : Closing journal current)
    (hall : ∀ frameId ∈ openedIds journal, ClosedIn current frameId)
    (hplans : Plans initial planned)
    (hterminal : terminalEvent planned current rootFrameId = .ok event) :
    ∃ written, Ended journal rootFrameId initial event (current ++ [.terminal event]) written
      planned := by
  obtain ⟨written, hcloses, rfl⟩ := h
  exact ⟨written, hcloses, rfl, hall, hplans, hterminal⟩

/-- The body of an attempt closes the root frame for its plan, and keeps a failed plan. -/
def KeepsRoot (rootFrameId : JsString) (st after : FinalizeState A) : Prop :=
  (RootReady rootFrameId st → RootClosedFor rootFrameId after.planned.status after.journal) ∧
    (st.planned.status = .failed → after.planned.status = .failed)

/-- One attempt on a journal without a terminal writes closings, and then possibly the
    terminal of its plan; a result is read back from the journal with the terminal. -/
theorem tryAttempt_spec (hrun : RunJournal rootFrameId journal) (faults : AttemptFaults)
    {st : FinalizeState A} (hclosing : Closing journal st.journal)
    (hplans : Plans initial st.planned) :
    let after := tryAttempt rootFrameId initial faults st
    KeepsRoot rootFrameId st after.1 ∧
    (Closing journal after.1.journal ∧ (∃ cause, after.2 = .error cause) ∨
      ∃ event written,
        Ended journal rootFrameId initial event after.1.journal written after.1.planned ∧
        (∀ result, after.2 = .ok result → returned rootFrameId initial after.1 = some result) ∧
        ((∃ result, after.2 = .ok result) ↔
          faults.append.reported = true ∧ faults.thirdRead = none)) := by
  unfold tryAttempt
  cases faults.firstRead with
  | some cause =>
    exact ⟨⟨fun hready => hready.closedFor, fun hfailed => hfailed⟩, .inl ⟨hclosing, cause, rfl⟩⟩
  | none =>
    simp only [returned_of_noTerminal (hclosing.noTerminal hrun.noTerminal)]
    have hready (h : RootReady rootFrameId st) :
        RootReady rootFrameId (observeDrain initial st faults.drain) := h.observeDrain faults.drain
    have hfailed := @observeDrain_failed A initial st faults.drain
    have hplans := hplans.observeDrain faults.drain
    have hclosing : Closing journal (observeDrain initial st faults.drain).journal := by
      rw [(observeDrain_spec initial st faults.drain).1]
      exact hclosing
    generalize observeDrain initial st faults.drain = st at *
    -- the closings
    obtain ⟨hplanned, closedIds, hstart, hjournal, hall⟩ :=
      @closeFrames_spec A rootFrameId faults.close (closingOrder st.journal) st
        (hclosing.noTerminal hrun.noTerminal)
    rw [closingOrder] at hplanned hjournal hall
    generalize closeFrames rootFrameId faults.close
      ((openFrames st.journal).1.reverse.filter (· ∈ (openFrames st.journal).2)) st = closed at *
    obtain ⟨st₁, outcome⟩ := closed
    have hplanned : st₁.planned = st.planned := hplanned
    have hclosing₁ : Closing journal st₁.journal :=
      hclosing.append_closings hrun hstart hjournal
    have hroot₁ := fun h => (hready h).closedFor.append_closings closedIds
    rw [← hjournal, ← hplanned] at hroot₁
    rw [← hplanned] at hfailed
    have hplans₁ : Plans initial st₁.planned := hplanned ▸ hplans
    cases outcome with
    | error cause => exact ⟨⟨hroot₁, hfailed⟩, .inl ⟨hclosing₁, cause, rfl⟩⟩
    | ok =>
      have hallClosed := hclosing.allClosed hrun (hall rfl) hjournal
      cases faults.secondRead with
      | some cause => exact ⟨⟨hroot₁, hfailed⟩, .inl ⟨hclosing₁, cause, rfl⟩⟩
      | none =>
        cases hterminal : terminalEvent st₁.planned st₁.journal rootFrameId with
        | error cause =>
          simp only [hterminal]
          exact ⟨⟨hroot₁, hfailed⟩, .inl ⟨hclosing₁, cause, rfl⟩⟩
        | ok event =>
          simp only [hterminal]
          obtain ⟨hplanned₂, hjournal₂, hreported⟩ :=
            appendDurably_spec (.terminal event) faults.append (hclosing₁.noTerminal hrun.noTerminal)
          generalize appendDurably st₁ (.terminal event) faults.append = appended at *
          obtain ⟨st₂, outcome⟩ := appended
          have hplanned₂ : st₂.planned = st₁.planned := hplanned₂
          rcases hjournal₂ with hwritten | ⟨hsame, hfail⟩
          · -- the terminal is in the journal, whatever the append says
            obtain ⟨written, hended⟩ := hclosing₁.ended hallClosed hplans₁ hterminal
            have hwritten : st₂.journal = st₁.journal ++ [.terminal event] := hwritten
            have hroot₂ := fun h => (hroot₁ h).append_terminal event
            rw [← hwritten, ← hplanned₂] at hended hroot₂
            rw [← hplanned₂] at hfailed
            have hreturned := hended.returned hrun.noTerminal
            cases outcome with
            | error cause =>
              refine ⟨⟨hroot₂, hfailed⟩, .inr ⟨event, written, hended, by simp, by simp, ?_⟩⟩
              rintro ⟨happended, -⟩
              cases hreported.mpr happended
            | ok =>
              have hsaid := hreported.mp rfl
              cases faults.thirdRead with
              | some cause =>
                exact ⟨⟨hroot₂, hfailed⟩, .inr ⟨event, written, hended, by simp, by simp, by simp⟩⟩
              | none =>
                simp only [hreturned]
                exact ⟨⟨hroot₂, hfailed⟩, .inr ⟨event, written, hended, fun _ h =>
                  congrArg some (Except.ok.inj h), fun _ => ⟨hsaid, trivial⟩, fun _ => ⟨_, rfl⟩⟩⟩
          · obtain rfl : outcome = .error appendErrorCause := hfail
            have hsame : st₂.journal = st₁.journal := hsame
            rw [← hsame] at hclosing₁ hroot₁
            rw [← hplanned₂] at hroot₁ hfailed
            exact ⟨⟨hroot₁, hfailed⟩, .inl ⟨hclosing₁, _, rfl⟩⟩

/-- With a terminal in the journal the body of an attempt writes nothing. -/
theorem tryAttempt_of_ended (hrun : RunJournal rootFrameId journal) (faults : AttemptFaults)
    {st : FinalizeState A}
    (h : Ended journal rootFrameId initial event st.journal written planned) :
    (tryAttempt rootFrameId initial faults st).1 = st ∧
      (∀ result, (tryAttempt rootFrameId initial faults st).2 = .ok result →
        returned rootFrameId initial st = some result) ∧
      ((∃ result, (tryAttempt rootFrameId initial faults st).2 = .ok result) ↔
        faults.firstRead = none) := by
  have hreturned := h.returned hrun.noTerminal
  unfold tryAttempt
  cases faults.firstRead with
  | some cause => exact ⟨rfl, by simp, by simp⟩
  | none =>
    rw [hreturned]
    exact ⟨rfl, fun _ hok => congrArg some (Except.ok.inj hok), fun _ => rfl, fun _ => ⟨_, rfl⟩⟩

/-- The journal has the terminal of a plan.  Under `agrees` the root frame was closed for that
    plan. -/
def Done (agrees : Prop) (journal : List RlmEvent) (rootFrameId : JsString)
    (initial : PlannedResult A) (event : TerminalEvent) (current : List RlmEvent) : Prop :=
  ∃ written planned, Ended journal rootFrameId initial event current written planned ∧
    (agrees → RootClosedFor rootFrameId planned.status current)

theorem Done.any_terminal {agrees : Prop} (h : Done agrees journal rootFrameId initial event current) :
    current.any RlmEvent.isTerminalEvent = true := by
  obtain ⟨written, planned, hended, -⟩ := h
  rw [hended.current_eq, List.any_append]
  exact Bool.or_true _

/-- A result is the one read back with the terminal; without one the plan has failed. -/
def ResultOf (rootFrameId : JsString) (initial : PlannedResult A) (event : TerminalEvent)
    (after : FinalizeState A × Option (RunResult A)) : Prop :=
  match after.2 with
  | some result =>
    result = finish rootFrameId initial after.1 (resultFromTerminal event initial) after.1.journal
  | none => ∃ cause, after.1.planned = journalFailure initial.runId cause

/-- An attempt without a result leaves a failed plan. -/
theorem attempt_none {faults : AttemptFaults} {st : FinalizeState A}
    (h : (attempt rootFrameId initial faults st).2 = none) :
    ∃ cause, (attempt rootFrameId initial faults st).1.planned =
      journalFailure initial.runId cause := by
  unfold attempt at h ⊢
  split at h
  · cases h
  · split at h
    · cases h
    · exact ⟨_, rfl⟩

/-- An attempt either returns what its body returned or rescued, or fails the plan. -/
theorem attempt_cases (faults : AttemptFaults) (st : FinalizeState A) :
    (attempt rootFrameId initial faults st).1.journal =
        (tryAttempt rootFrameId initial faults st).1.journal ∧
      (∀ result, (attempt rootFrameId initial faults st).2 = some result →
        (attempt rootFrameId initial faults st).1 = (tryAttempt rootFrameId initial faults st).1 ∧
          ((tryAttempt rootFrameId initial faults st).2 = .ok result ∨
            returned rootFrameId initial (tryAttempt rootFrameId initial faults st).1 =
              some result)) := by
  unfold attempt
  generalize tryAttempt rootFrameId initial faults st = body
  obtain ⟨st', outcome⟩ := body
  cases outcome with
  | ok result => exact ⟨rfl, fun _ h => ⟨rfl, .inl (congrArg Except.ok (Option.some.inj h))⟩⟩
  | error cause =>
    cases faults.rescueRead.isNone with
    | false => exact ⟨rfl, nofun⟩
    | true =>
      cases hreturned : returned rootFrameId initial st' with
      | none =>
        simp only [hreturned]
        exact ⟨trivial, nofun⟩
      | some result =>
        simp only [hreturned]
        exact ⟨trivial, fun _ h => ⟨trivial, .inr h⟩⟩

/-- A read after the terminal of the attempt itself. -/
def AttemptFaults.readsOwn (faults : AttemptFaults) : Bool :=
  faults.append.reported && faults.thirdRead.isNone || faults.rescueRead.isNone

/-- A read after the terminal of an earlier attempt. -/
def AttemptFaults.readsEarlier (faults : AttemptFaults) : Bool :=
  faults.firstRead.isNone || faults.rescueRead.isNone

/-- With a terminal in the journal an attempt returns when its body or the rescue reads it. -/
theorem attempt_isSome {faults : AttemptFaults} {st : FinalizeState A} {result : RunResult A}
    (h : returned rootFrameId initial (tryAttempt rootFrameId initial faults st).1 = some result) :
    (attempt rootFrameId initial faults st).2.isSome = true ↔
      (∃ result, (tryAttempt rootFrameId initial faults st).2 = .ok result) ∨
        faults.rescueRead = none := by
  unfold attempt
  generalize tryAttempt rootFrameId initial faults st = body at *
  obtain ⟨st', outcome⟩ := body
  cases outcome with
  | ok result' => simp
  | error cause =>
    have h : returned rootFrameId initial st' = some result := h
    cases faults.rescueRead with
    | none => simp [h]
    | some cause' => simp

/-- An attempt whose body leaves a terminal returns its result or fails the plan. -/
theorem attempt_resultOf (hrun : RunJournal rootFrameId journal) {faults : AttemptFaults}
    {st : FinalizeState A}
    (h : Ended journal rootFrameId initial event
      (tryAttempt rootFrameId initial faults st).1.journal written planned)
    (hok : ∀ result, (tryAttempt rootFrameId initial faults st).2 = .ok result →
      returned rootFrameId initial (tryAttempt rootFrameId initial faults st).1 = some result) :
    ResultOf rootFrameId initial event (attempt rootFrameId initial faults st) := by
  unfold ResultOf
  split
  · rename_i result hresult
    obtain ⟨hsame, hread⟩ := (attempt_cases faults st).2 result hresult
    have hreturned := hread.elim (hok result) id
    rw [h.returned hrun.noTerminal] at hreturned
    rw [hsame]
    exact (Option.some.inj hreturned).symm
  · rename_i hnone
    exact attempt_none hnone

/-- One attempt on a journal without a terminal. -/
theorem attempt_spec (hrun : RunJournal rootFrameId journal) (faults : AttemptFaults)
    {st : FinalizeState A} (hclosing : Closing journal st.journal)
    (hplans : Plans initial st.planned) {agrees : Prop}
    (hready : agrees → RootReady rootFrameId st) :
    let after := attempt rootFrameId initial faults st
    Closing journal after.1.journal ∧ after.2 = none ∧
        (agrees → st.planned.status = .failed →
          RootClosedFor rootFrameId .failed after.1.journal) ∨
      ∃ event, Done agrees journal rootFrameId initial event after.1.journal ∧
        ResultOf rootFrameId initial event after ∧
        after.2.isSome = faults.readsOwn := by
  obtain ⟨hroot, hbody⟩ := tryAttempt_spec hrun faults hclosing hplans
  have hjournal := (@attempt_cases A rootFrameId initial faults st).1
  rcases hbody with ⟨hclosing', cause, herror⟩ | ⟨event, written, hended, hok, hreads⟩
  · have hnone : (attempt rootFrameId initial faults st).2 = none := ?_
    · refine .inl ⟨hjournal ▸ hclosing', hnone, fun hagrees hfailed => ?_⟩
      show RootClosedFor rootFrameId .failed (attempt rootFrameId initial faults st).1.journal
      rw [hjournal, ← hroot.2 hfailed]
      exact hroot.1 (hready hagrees)
    -- nothing to return: the body failed and the journal has no terminal
    cases hresult : (attempt rootFrameId initial faults st).2 with
    | none => rfl
    | some result =>
      rcases ((attempt_cases faults st).2 result hresult).2 with hok | hreturned
      · rw [herror] at hok
        cases hok
      · rw [returned_of_noTerminal (hclosing'.noTerminal hrun.noTerminal)] at hreturned
        cases hreturned
  · refine .inr ⟨event, ?_, attempt_resultOf hrun hended hok, ?_⟩
    · rw [hjournal]
      exact ⟨written, _, hended, fun hagrees => hroot.1 (hready hagrees)⟩
    · rw [Bool.eq_iff_iff, attempt_isSome (hended.returned hrun.noTerminal), hreads,
        AttemptFaults.readsOwn]
      simp

/-- An attempt on a journal with a terminal. -/
theorem attempt_of_done (hrun : RunJournal rootFrameId journal) (faults : AttemptFaults)
    {st : FinalizeState A} {agrees : Prop}
    (h : Done agrees journal rootFrameId initial event st.journal) :
    let after := attempt rootFrameId initial faults st
    Done agrees journal rootFrameId initial event after.1.journal ∧
      ResultOf rootFrameId initial event after ∧
      after.2.isSome = faults.readsEarlier := by
  obtain ⟨written, planned, hended, hagrees⟩ := h
  obtain ⟨hsame, hok, hreads⟩ := tryAttempt_of_ended hrun faults hended
  have hjournal := (@attempt_cases A rootFrameId initial faults st).1
  rw [hsame] at hjournal
  refine ⟨?_, @attempt_resultOf A journal written rootFrameId initial planned event hrun
    faults st ?_ ?_, ?_⟩
  · rw [hjournal]
    exact ⟨written, planned, hended, hagrees⟩
  · rw [hsame]
    exact hended
  · rw [hsame]
    exact hok
  · have hreturned := hended.returned hrun.noTerminal
    rw [← hsame] at hreturned
    rw [Bool.eq_iff_iff, attempt_isSome hreturned, hreads, AttemptFaults.readsEarlier]
    simp

end

end PiRlm.Runtime

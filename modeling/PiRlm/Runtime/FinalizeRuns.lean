/-
  PiRlm.Runtime.FinalizeRuns

  The three attempts of `finalize` together: the journal afterwards, and the result.
-/
import Mathlib
import PiRlm.Runtime.FinalizeSound

namespace PiRlm.Runtime

open PiRlm.Lib PiRlm.Core

variable {A : Type}

/-! ## Runs of attempts -/

/-- Some read of the attempts succeeds after the terminal is in the journal: in the attempt that
    writes it, or in a later one. -/
def readsTerminal (rootFrameId : JsString) (initial : PlannedResult A) :
    List AttemptFaults → FinalizeState A → Bool
  | [], _ => false
  | faults :: rest, st =>
    let after := (attempt rootFrameId initial faults st).1
    after.journal.any RlmEvent.isTerminalEvent &&
        (if st.journal.any RlmEvent.isTerminalEvent then faults.readsEarlier else faults.readsOwn) ||
      readsTerminal rootFrameId initial rest after

theorem readsTerminal_cons (rootFrameId : JsString) (initial : PlannedResult A)
    (faults : AttemptFaults) (rest : List AttemptFaults) (st : FinalizeState A) :
    readsTerminal rootFrameId initial (faults :: rest) st =
      ((attempt rootFrameId initial faults st).1.journal.any RlmEvent.isTerminalEvent &&
          (if st.journal.any RlmEvent.isTerminalEvent then faults.readsEarlier
            else faults.readsOwn) ||
        readsTerminal rootFrameId initial rest (attempt rootFrameId initial faults st).1) := rfl

section

variable {journal : List RlmEvent} {rootFrameId : JsString} {initial : PlannedResult A}
  {agrees : Prop}

/-- An attempt without a result is followed by the next one. -/
theorem attempts_cons_of_none {faults : AttemptFaults} {st : FinalizeState A}
    (h : (attempt rootFrameId initial faults st).2 = none) (rest : List AttemptFaults) :
    attempts rootFrameId initial (faults :: rest) st =
      attempts rootFrameId initial rest (attempt rootFrameId initial faults st).1 := by
  rw [attempts]
  generalize attempt rootFrameId initial faults st = after at *
  obtain ⟨st', outcome⟩ := after
  obtain rfl : outcome = none := h
  rfl

/-- An attempt with a result is the last one. -/
theorem attempts_cons_of_some {faults : AttemptFaults} {st : FinalizeState A}
    {result : RunResult A} (h : (attempt rootFrameId initial faults st).2 = some result)
    (rest : List AttemptFaults) :
    attempts rootFrameId initial (faults :: rest) st = attempt rootFrameId initial faults st := by
  rw [attempts]
  generalize attempt rootFrameId initial faults st = after at *
  obtain ⟨st', outcome⟩ := after
  obtain rfl : outcome = some result := h
  rfl

/-- Attempts on a journal with a terminal. -/
theorem attempts_of_done (hrun : RunJournal rootFrameId journal) {event : TerminalEvent}
    (faults : List AttemptFaults) {st : FinalizeState A}
    (hfailed : ∃ cause, st.planned = journalFailure initial.runId cause)
    (h : Done agrees journal rootFrameId initial event st.journal) :
    Done agrees journal rootFrameId initial event
        (attempts rootFrameId initial faults st).1.journal ∧
      ResultOf rootFrameId initial event (attempts rootFrameId initial faults st) ∧
      (attempts rootFrameId initial faults st).2.isSome =
        readsTerminal rootFrameId initial faults st := by
  induction faults generalizing st with
  | nil => exact ⟨h, hfailed, rfl⟩
  | cons first rest ih =>
    obtain ⟨hdone, hresult, hreads⟩ := attempt_of_done hrun first h
    rw [readsTerminal_cons, if_pos h.any_terminal, hdone.any_terminal, Bool.true_and]
    cases hafter : (attempt rootFrameId initial first st).2 with
    | none =>
      rw [hafter, Option.isSome_none] at hreads
      rw [attempts_cons_of_none hafter, ← hreads, Bool.false_or]
      exact ih (attempt_none hafter) hdone
    | some result =>
      rw [hafter, Option.isSome_some] at hreads
      rw [attempts_cons_of_some hafter, hafter, ← hreads, Bool.true_or]
      exact ⟨hdone, hresult, rfl⟩

/-- Attempts of which the first one writes the terminal. -/
theorem attempts_of_ended (hrun : RunJournal rootFrameId journal) {event : TerminalEvent}
    {first : AttemptFaults} {st : FinalizeState A} (rest : List AttemptFaults)
    (hopen : st.journal.any RlmEvent.isTerminalEvent = false)
    (hdone : Done agrees journal rootFrameId initial event
      (attempt rootFrameId initial first st).1.journal)
    (hresult : ResultOf rootFrameId initial event (attempt rootFrameId initial first st))
    (hreads : (attempt rootFrameId initial first st).2.isSome = first.readsOwn) :
    Done agrees journal rootFrameId initial event
        (attempts rootFrameId initial (first :: rest) st).1.journal ∧
      ResultOf rootFrameId initial event (attempts rootFrameId initial (first :: rest) st) ∧
      (attempts rootFrameId initial (first :: rest) st).2.isSome =
        readsTerminal rootFrameId initial (first :: rest) st := by
  rw [readsTerminal_cons, if_neg (Bool.eq_false_iff.mp hopen), hdone.any_terminal, Bool.true_and]
  cases hafter : (attempt rootFrameId initial first st).2 with
  | none =>
    rw [hafter, Option.isSome_none] at hreads
    rw [attempts_cons_of_none hafter, ← hreads, Bool.false_or]
    exact attempts_of_done hrun rest (attempt_none hafter) hdone
  | some result =>
    rw [hafter, Option.isSome_some] at hreads
    rw [attempts_cons_of_some hafter, hafter, ← hreads, Bool.true_or]
    exact ⟨hdone, hresult, rfl⟩

/-- Attempts of which the first one writes no terminal. -/
theorem attempts_of_closing (hrun : RunJournal rootFrameId journal) {first : AttemptFaults}
    {st : FinalizeState A} (rest : List AttemptFaults)
    (hclosing : Closing journal (attempt rootFrameId initial first st).1.journal)
    (hnone : (attempt rootFrameId initial first st).2 = none) :
    attempts rootFrameId initial (first :: rest) st =
        attempts rootFrameId initial rest (attempt rootFrameId initial first st).1 ∧
      readsTerminal rootFrameId initial (first :: rest) st =
        readsTerminal rootFrameId initial rest (attempt rootFrameId initial first st).1 := by
  refine ⟨attempts_cons_of_none hnone rest, ?_⟩
  rw [readsTerminal_cons, hclosing.noTerminal hrun.noTerminal, Bool.false_and, Bool.false_or]

/-- Attempts after a failed plan, on a journal without a terminal. -/
theorem attempts_spec (hrun : RunJournal rootFrameId journal) (faults : List AttemptFaults)
    {st : FinalizeState A} (hclosing : Closing journal st.journal)
    (hfailed : ∃ cause, st.planned = journalFailure initial.runId cause)
    (hroot : agrees → RootClosedFor rootFrameId .failed st.journal) :
    let after := attempts rootFrameId initial faults st
    Closing journal after.1.journal ∧ after.2 = none ∧
        readsTerminal rootFrameId initial faults st = false ∧
        (∃ cause, after.1.planned = journalFailure initial.runId cause) ∨
      ∃ event, Done agrees journal rootFrameId initial event after.1.journal ∧
        ResultOf rootFrameId initial event after ∧
        after.2.isSome = readsTerminal rootFrameId initial faults st := by
  induction faults generalizing st with
  | nil => exact .inl ⟨hclosing, rfl, rfl, hfailed⟩
  | cons first rest ih =>
    have hstatus : st.planned.status = .failed := by
      obtain ⟨cause, hplanned⟩ := hfailed
      rw [hplanned]
      rfl
    have hplans : Plans initial st.planned := by
      obtain ⟨cause, hplanned⟩ := hfailed
      rw [hplanned]
      exact plans_journalFailure initial cause
    have hready : agrees → RootReady rootFrameId st := fun hagrees state hmem =>
      ⟨hroot hagrees state hmem, hstatus⟩
    rcases attempt_spec hrun first hclosing hplans hready with
      ⟨hclosing', hnone, hroot'⟩ | ⟨event, hdone, hresult, hreads⟩
    · obtain ⟨hattempts, hrest⟩ := attempts_of_closing hrun rest hclosing' hnone
      rw [hattempts, hrest]
      exact ih hclosing' (attempt_none hnone) fun hagrees => hroot' hagrees hstatus
    · exact .inr ⟨event, attempts_of_ended hrun rest (hclosing.noTerminal hrun.noTerminal) hdone
        hresult hreads⟩

end

/-! ## The terminal and the root frame -/

section

variable {journal current written events : List RlmEvent} {rootFrameId : JsString}
  {initial planned : PlannedResult A} {event : TerminalEvent}

theorem frameClosing_eq {frameId : JsString} {state : FrameState}
    (hclosed : ClosedIn events frameId)
    (hall : ∀ s, RlmEvent.frameClosed frameId s ∈ events → s = state) :
    frameClosing events frameId = some state := by
  obtain ⟨s, hmem⟩ := hclosed
  obtain rfl := hall s hmem
  have hsome : ∃ found, frameClosing events frameId = some found := by
    refine Option.isSome_iff_exists.mp (List.findSome?_isSome_iff.mpr ⟨_, hmem, ?_⟩)
    simp only [↓reduceIte, Option.isSome_some]
  obtain ⟨found, hfound⟩ := hsome
  obtain ⟨closing, hmem', hclosing⟩ := List.exists_of_findSome?_eq_some hfound
  split at hclosing
  · split_ifs at hclosing with hframe
    obtain rfl := Option.some.inj hclosing
    subst hframe
    rw [hfound, hall _ hmem']
  · cases hclosing

theorem Closes.frameAnswers_append (h : Closes journal written) (frameId : JsString) :
    frameAnswers (journal ++ written) frameId = frameAnswers journal frameId := by
  rw [frameAnswers, List.filterMap_append, h.filterMap_eq_nil RlmEvent.answer? fun _ _ => rfl,
    List.append_nil, frameAnswers]

theorem Ended.frameAnswers (h : Ended journal rootFrameId initial event current written planned)
    (frameId : JsString) : frameAnswers current frameId = frameAnswers journal frameId := by
  rw [← h.closes.frameAnswers_append, h.current_eq, Core.frameAnswers, List.filterMap_append]
  exact congrArg _ (List.append_nil _)

theorem completionOutput_some {mode : CompletionMode} {output : RunOutput}
    (h : completionOutput events rootFrameId mode = some output) :
    ∃ answer, frameAnswers events rootFrameId = [answer] ∧ answer.completionMode = mode ∧
      output.ref = answer.outputRef := by
  unfold completionOutput at h
  split at h
  · rename_i answer hanswer
    split_ifs at h with hmode
    refine ⟨answer, hanswer, hmode, ?_⟩
    unfold fullAnswerOutput at h
    split at h
    · split_ifs at h
      obtain rfl := Option.some.inj h
      rfl
    · cases h
  · cases h

/-- The plan of a completed terminal is the initial one. -/
theorem Plans.eq_of_completed (h : Plans initial planned) (hstatus : planned.status = .completed) :
    planned = initial := by
  rcases h with heq | ⟨hfailed, -⟩
  · exact heq
  · rw [hstatus] at hfailed
    cases hfailed

/-- The state in which the root frame of a run with the terminal is closed. -/
def rootState : TerminalEvent → FrameState
  | .runCompleted _ _ _ => .answered
  | .runFailed _ _ _ => .failed
  | .runCancelled _ _ _ => .cancelled

/-- The closing of the root frame and its answer agree with the terminal. -/
structure RootAgrees (current : List RlmEvent) (rootFrameId : JsString) (event : TerminalEvent) :
    Prop where
  closing : rootFrameId ∈ openedIds current →
    frameClosing current rootFrameId = some (rootState event)
  consistent : terminalInconsistency current rootFrameId event = none

theorem TerminalOf.closingState (h : TerminalOf planned events rootFrameId event) :
    closingState rootFrameId planned.status rootFrameId = rootState event := by
  cases h with
  | completed hstatus =>
    rw [hstatus]
    exact if_pos rfl
  | cancelled hstatus =>
    rw [hstatus]
    rfl
  | failed hstatus =>
    rw [hstatus]
    rfl

/-- When the root frame was closed for the plan of the terminal, the two agree. -/
theorem Ended.rootAgrees (hrun : RunJournal rootFrameId journal)
    (h : Ended journal rootFrameId initial event current written planned)
    (hroot : RootClosedFor rootFrameId planned.status current) :
    RootAgrees current rootFrameId event := by
  have hopened : openedIds current = openedIds journal := by
    rw [h.current_eq, openedIds_append, h.closes.openedIds_append]
    exact List.append_nil _
  have hterminal := terminalEvent_cases h.terminal
  have hclosing : rootFrameId ∈ openedIds current →
      frameClosing current rootFrameId = some (rootState event) := by
    intro hmem
    rw [hopened] at hmem
    rw [← hterminal.closingState]
    refine frameClosing_eq ?_ hroot
    rw [h.current_eq]
    exact (h.allClosed rootFrameId hmem).append_right _
  refine ⟨hclosing, ?_⟩
  cases hterminal with
  | completed hstatus hmode houtput =>
    obtain ⟨answer, hanswer, hanswerMode, href⟩ := completionOutput_some houtput
    rw [h.closes.frameAnswers_append] at hanswer
    have hmem : rootFrameId ∈ openedIds current := by
      rw [hopened]
      exact hrun.rootAnswer (by rw [hanswer]; exact List.cons_ne_nil _ _)
    have hclosed : frameClosing current rootFrameId = some .answered := hclosing hmem
    rw [terminalInconsistency, frameAnswer, h.frameAnswers, hanswer]
    simp only [List.head?_cons, hmem, hclosed, hanswerMode, href, ne_eq, not_true_eq_false,
      reduceCtorEq, or_self, ↓reduceIte]
  | cancelled hstatus code message =>
    exact if_neg fun hbad => hbad.2 (hclosing hbad.1)
  | failed hstatus code message =>
    exact if_neg fun hbad => hbad.2 (hclosing hbad.1)

/-! ### The result -/

def terminalStatus : TerminalEvent → RunStatus
  | .runCompleted _ _ _ => .completed
  | .runFailed _ _ _ => .failed
  | .runCancelled _ _ _ => .cancelled

def terminalCode : TerminalEvent → Option JsString
  | .runCompleted _ _ _ => none
  | .runFailed _ code _ => some code
  | .runCancelled _ code _ => some code

/-- The result is that of the terminal, and its output the only answer of the root frame. -/
structure ResultAgrees (current : List RlmEvent) (rootFrameId : JsString)
    (event : TerminalEvent) (result : RunResult A) : Prop where
  status : result.status = terminalStatus event
  code : result.error.map RunError.code = terminalCode event
  output : result.status = .completed → ∃ answer output,
    frameAnswers current rootFrameId = [answer] ∧ result.output = some output ∧
      output.ref = answer.outputRef ∧
      event = .runCompleted event.runId answer.completionMode (some answer.outputRef)

/-- The result read back with the terminal agrees with it. -/
theorem Ended.resultAgrees (hrun : RunJournal rootFrameId journal)
    (h : Ended journal rootFrameId initial event current written planned)
    (st : FinalizeState A) :
    ResultAgrees current rootFrameId event
      (finish rootFrameId initial st (resultFromTerminal event initial) current) := by
  have hterminals := h.terminalsForRun hrun.noTerminal
  have hterminal := terminalEvent_cases h.terminal
  cases hterminal with
  | completed hstatus hmode houtput =>
    obtain rfl := h.plans.eq_of_completed hstatus
    rename_i mode output
    obtain ⟨answer, hanswer, hanswerMode, href⟩ := completionOutput_some houtput
    have hresult : resultFromTerminal (.runCompleted planned.runId mode (some output.ref)) planned =
        { runId := planned.runId, status := .completed, completionMode := some mode
          answer := planned.answer, error := none } :=
      if_neg fun hbad => hbad.elim (fun hne => hne hstatus) fun hne => hne hmode
    -- the answers of the root frame are those from which the terminal was made
    have hcompletion : completionOutput current rootFrameId mode = some output := by
      rw [← houtput, completionOutput, completionOutput, h.frameAnswers,
        h.closes.frameAnswers_append]
    have hread : outputFromEvents current planned.runId rootFrameId
        { runId := planned.runId, status := .completed, completionMode := some mode
          answer := planned.answer, error := none } = some output := by
      simp only [outputFromEvents, hterminals, ↓reduceIte, hcompletion, Option.filter_some,
        beq_self_eq_true]
    rw [hresult, finish, hread]
    refine ⟨rfl, rfl, fun _ => ⟨answer, output, ?_, rfl, href, ?_⟩⟩
    · rw [h.frameAnswers, ← h.closes.frameAnswers_append, hanswer]
    · rw [← hanswerMode, ← href]
      rfl
  | cancelled hstatus code message => exact ⟨rfl, rfl, nofun⟩
  | failed hstatus code message => exact ⟨rfl, rfl, nofun⟩

end

/-! ## Finalization -/

/-- Closings were appended and then possibly a terminal: at most one terminal, and closings after
    those of the children. -/
structure ClosesOnce (journal current : List RlmEvent) : Prop where
  appended : ∃ closings : List RlmEvent,
    (∀ event ∈ closings, ∃ frameId state, event = .frameClosed frameId state) ∧
      (current = journal ++ closings ∨ ∃ event, current = journal ++ closings ++ [.terminal event])
  oneTerminal : (current.filterMap RlmEvent.terminal?).length ≤ 1
  childFirst : ∀ before frameId state after,
    current = journal ++ before ++ .frameClosed frameId state :: after →
      ∀ child, RlmEvent.frameOpened child (some frameId) ∈ journal →
        ClosedIn (journal ++ before) child

section

variable {journal current written : List RlmEvent} {rootFrameId : JsString}
  {initial planned : PlannedResult A} {event : TerminalEvent}

theorem Closes.closesOnce (h : Closes journal written)
    (hjournal : journal.any RlmEvent.isTerminalEvent = false) :
    ClosesOnce journal (journal ++ written) where
  appended := ⟨written, h.onlyClosings, .inl rfl⟩
  oneTerminal := by
    rw [filterMap_terminal?_eq_nil (h.noTerminal hjournal)]
    exact Nat.zero_le 1
  childFirst := by
    intro before frameId state after hsplit
    rw [List.append_assoc] at hsplit
    exact h.childFirst before frameId state after (List.append_cancel_left hsplit)

theorem Ended.closesOnce (h : Ended journal rootFrameId initial event current written planned)
    (hjournal : journal.any RlmEvent.isTerminalEvent = false) : ClosesOnce journal current where
  appended := ⟨written, h.closes.onlyClosings, .inr ⟨event, h.current_eq⟩⟩
  oneTerminal := by
    rw [h.terminals hjournal]
    exact Nat.le_refl 1
  childFirst := by
    intro before frameId state after hsplit
    rw [h.current_eq, List.append_assoc, List.append_assoc] at hsplit
    have hsplit := List.append_cancel_left hsplit
    -- the closing is not the last event, which is the terminal
    rcases List.eq_nil_or_concat after with rfl | ⟨after, last, rfl⟩
    · have hlast := (List.append_inj' hsplit rfl).2
      cases List.head_eq_of_cons_eq hlast
    · rw [List.concat_eq_append, ← List.cons_append, ← List.append_assoc] at hsplit
      exact h.closes.childFirst before frameId state after (List.append_inj' hsplit rfl).1

end

/-- State before the first attempt. -/
def initialState (journal : List RlmEvent) (initial : PlannedResult A)
    (statusCacheFailures : List AppendError) : FinalizeState A :=
  { journal, planned := initial, durableAppendFailures := [], statusCacheFailures }

/-- The first attempt closes the root frame, not as failed, and comes to no terminal. -/
def LeavesRootClosed (journal : List RlmEvent) (rootFrameId : JsString)
    (initial : PlannedResult A) (statusCacheFailures : List AppendError) (first : AttemptFaults) :
    Prop :=
  let after := (attempt rootFrameId initial first
    (initialState journal initial statusCacheFailures)).1.journal
  after.any RlmEvent.isTerminalEvent = false ∧
    ∃ state, state ≠ .failed ∧ RlmEvent.frameClosed rootFrameId state ∈ after

section

variable {journal : List RlmEvent} {rootFrameId : JsString} {initial : PlannedResult A}
  {statusCacheFailures : List AppendError} {first : AttemptFaults}

/-- The three attempts on the journal of a run that has not ended. -/
theorem threeAttempts_spec (hrun : RunJournal rootFrameId journal)
    (statusCacheFailures : List AppendError) (first second third : AttemptFaults) :
    let start := initialState journal initial statusCacheFailures
    let after := attempts rootFrameId initial [first, second, third] start
    Closing journal after.1.journal ∧ after.2 = none ∧
        readsTerminal rootFrameId initial [first, second, third] start = false ∧
        (∃ cause, after.1.planned = journalFailure initial.runId cause) ∨
      ∃ event, Done (¬LeavesRootClosed journal rootFrameId initial statusCacheFailures first)
          journal rootFrameId initial event after.1.journal ∧
        ResultOf rootFrameId initial event after ∧
        after.2.isSome = readsTerminal rootFrameId initial [first, second, third] start := by
  intro start
  have hclosing : Closing journal start.journal := ⟨[], .nil, (List.append_nil _).symm⟩
  have hready : ¬LeavesRootClosed journal rootFrameId initial statusCacheFailures first →
      RootReady rootFrameId start :=
    fun _ state hmem => absurd ⟨state, hmem⟩ hrun.rootOpen
  have hplans : Plans initial start.planned := .inl rfl
  rcases attempt_spec hrun first hclosing hplans hready with
    ⟨hclosing', hnone, -⟩ | ⟨event, hdone, hresult, hreads⟩
  · obtain ⟨hattempts, hrest⟩ := attempts_of_closing hrun [second, third] hclosing' hnone
    have hopen := hclosing'.noTerminal hrun.noTerminal
    rw [hattempts, hrest]
    refine attempts_spec hrun [second, third] hclosing' (attempt_none hnone) ?_
    exact fun hleaves state hmem => by_contra fun hne => hleaves ⟨hopen, state, hne, hmem⟩
  · exact .inr ⟨event, attempts_of_ended hrun [second, third] hrun.noTerminal hdone hresult hreads⟩

/-- `finalize` appends closings, children first, and at most one terminal.  When a read succeeds
    after the terminal is written, the result is that of the terminal; else it is a failure.
    The terminal agrees with the root frame unless the first attempt closed the root frame and
    came to no terminal. -/
theorem finalize_agrees (hrun : RunJournal rootFrameId journal)
    (statusCacheFailures : List AppendError) (first second third : AttemptFaults) :
    let final := finalize journal rootFrameId initial statusCacheFailures first second third
    let reads := readsTerminal rootFrameId initial [first, second, third]
      (initialState journal initial statusCacheFailures)
    ClosesOnce journal final.journal ∧
    (reads = false → final.result.status = .failed ∧
      final.result.error.map RunError.code = some (js "JOURNAL_FAILED")) ∧
    ∀ event ∈ final.journal.filterMap RlmEvent.terminal?,
      (reads = true → ResultAgrees final.journal rootFrameId event final.result) ∧
      (¬LeavesRootClosed journal rootFrameId initial statusCacheFailures first →
        RootAgrees final.journal rootFrameId event) := by
  have hspec := @threeAttempts_spec A journal rootFrameId initial hrun statusCacheFailures first
    second third
  rw [finalize]
  dsimp only at hspec ⊢
  generalize readsTerminal rootFrameId initial [first, second, third]
    (initialState journal initial statusCacheFailures) = reads at *
  rw [initialState] at hspec
  generalize attempts rootFrameId initial [first, second, third]
    { journal, planned := initial, durableAppendFailures := [], statusCacheFailures } = after at *
  obtain ⟨st, outcome⟩ := after
  rcases hspec with ⟨⟨written, hcloses, hjournal⟩, hnone, rfl, cause, hplanned⟩ |
    ⟨event, ⟨written, planned, hended, hroot⟩, hresult, hreads⟩
  · obtain rfl : outcome = none := hnone
    have hjournal : st.journal = journal ++ written := hjournal
    have hplanned : st.planned = journalFailure initial.runId cause := hplanned
    refine ⟨?_, fun _ => ?_, ?_⟩
    · show ClosesOnce journal st.journal
      rw [hjournal]
      exact hcloses.closesOnce hrun.noTerminal
    · simp only [hplanned]
      exact ⟨rfl, rfl⟩
    · intro event hevent
      have hempty := filterMap_terminal?_eq_nil (hcloses.noTerminal hrun.noTerminal)
      rw [← hjournal] at hempty
      simp only [hempty, List.not_mem_nil] at hevent
  · have honly := hended.terminals hrun.noTerminal
    have hclosesOnce := hended.closesOnce hrun.noTerminal
    cases outcome with
    | some result =>
      obtain rfl : true = reads := hreads
      have hresult : result = finish rootFrameId initial st (resultFromTerminal event initial)
        st.journal := hresult
      refine ⟨hclosesOnce, by simp, fun event' hevent => ?_⟩
      obtain rfl : event' = event := List.mem_singleton.mp (honly ▸ hevent)
      exact ⟨fun _ => hresult ▸ hended.resultAgrees hrun st,
        fun hleaves => hended.rootAgrees hrun (hroot hleaves)⟩
    | none =>
      obtain rfl : false = reads := hreads
      obtain ⟨cause, hplanned⟩ := hresult
      have hplanned : st.planned = journalFailure initial.runId cause := hplanned
      refine ⟨hclosesOnce, fun _ => ?_, fun event' hevent => ?_⟩
      · simp only [hplanned]
        exact ⟨rfl, rfl⟩
      · obtain rfl : event' = event := List.mem_singleton.mp (honly ▸ hevent)
        exact ⟨by simp, fun hleaves => hended.rootAgrees hrun (hroot hleaves)⟩

end

/-! ### Two runs of finalization -/

namespace FinalizeCases

def hash : JsString := List.replicate 64 (js "a").head!

def rootFrame : JsString := js "run:f0"

/-- A root frame with its answer. -/
def answered : List RlmEvent :=
  [.frameOpened rootFrame none,
    .answerCommitted
      { frameId := rootFrame, completionMode := .answer, outputRef := js "ctx_" ++ hash
        outputSha256 := some hash, outputBytes := some 1 }]

def completed : PlannedResult Unit where
  runId := js "run"
  status := .completed
  completionMode := some .answer
  answer := some ()
  error := none

def readError : ErrorCause where
  name := js "JournalReadError"
  code := none

def noFaults : AttemptFaults where
  drain := .none
  firstRead := .none
  close := fun _ => .committed .none
  secondRead := .none
  append := .committed .none
  thirdRead := .none
  rescueRead := .none

/-- The terminal is written and no read succeeds after it. -/
def unread : AttemptFaults :=
  { noFaults with thirdRead := some readError, rescueRead := some readError }

def noReads : AttemptFaults :=
  { noFaults with firstRead := some readError, rescueRead := some readError }

/-- The read between the closings and the terminal fails. -/
def interrupted : AttemptFaults :=
  { noFaults with secondRead := some readError }

theorem runJournal_answered : RunJournal rootFrame answered where
  noTerminal := rfl
  openedOnce := List.nodup_singleton _
  parentFirst := by
    intro before frameId parent after hsplit
    have hmem : RlmEvent.frameOpened frameId (some parent) ∈ answered := by
      rw [hsplit]
      exact List.mem_append_right _ List.mem_cons_self
    simp only [answered, List.mem_cons, RlmEvent.frameOpened.injEq, reduceCtorEq, and_false,
      List.not_mem_nil, or_self] at hmem
  rootOpen := by
    rintro ⟨state, hmem⟩
    simp only [answered, List.mem_cons, reduceCtorEq, List.not_mem_nil, or_self] at hmem
  rootAnswer := fun _ => List.mem_singleton_self _

end FinalizeCases

open FinalizeCases in
/-- A completed run whose journal cannot be read after its terminal is returned as failed; one
    whose journal cannot be read before it has a root frame closed as answered and a failed
    terminal. -/
theorem finalize_disagrees :
    RunJournal rootFrame answered ∧
    (let final := finalize answered rootFrame completed [] unread noReads noReads
      ∃ event ∈ final.journal.filterMap RlmEvent.terminal?,
        terminalStatus event = .completed ∧ final.result.status = .failed ∧
          final.result.error.map RunError.code = some (js "JOURNAL_FAILED") ∧
          ¬ResultAgrees final.journal rootFrame event final.result) ∧
    (let final := finalize answered rootFrame completed [] interrupted noFaults noFaults
      ∃ event ∈ final.journal.filterMap RlmEvent.terminal?,
        terminalStatus event = .failed ∧
          frameClosing final.journal rootFrame = some .answered ∧
          terminalInconsistency final.journal rootFrame event =
            some (js "failed terminal has inconsistent root state") ∧
          ¬RootAgrees final.journal rootFrame event) := by
  refine ⟨runJournal_answered, ⟨.runCompleted (js "run") .answer (some (js "ctx_" ++ hash)),
    by decide +kernel, rfl, by decide +kernel, by decide +kernel, fun h => ?_⟩,
    ⟨.runFailed (js "run") (js "JOURNAL_FAILED") (js "failed to finalize run journal"),
    by decide +kernel, rfl, by decide +kernel, by decide +kernel, fun h => ?_⟩⟩
  · have hstatus := h.status
    revert hstatus
    decide +kernel
  · have hconsistent := h.consistent
    revert hconsistent
    decide +kernel

open FinalizeCases in
/-- The first attempt writes the terminal of a completed run and cannot read it; the second one
    returns its answer. -/
theorem finalize_agrees_answered :
    let final := finalize answered rootFrame completed [] unread noFaults noFaults
    ∃ event, final.journal.filterMap RlmEvent.terminal? = [event] ∧
      terminalStatus event = .completed ∧ ClosesOnce answered final.journal ∧
      ResultAgrees final.journal rootFrame event final.result ∧
      RootAgrees final.journal rootFrame event := by
  obtain ⟨hcloses, -, hterminal⟩ :=
    @finalize_agrees _ _ _ completed runJournal_answered [] unread noFaults noFaults
  have hevent : (finalize answered rootFrame completed [] unread noFaults
      noFaults).journal.filterMap RlmEvent.terminal? =
        [.runCompleted (js "run") .answer (some (js "ctx_" ++ hash))] := by decide +kernel
  have hreads : readsTerminal rootFrame completed [unread, noFaults, noFaults]
      (initialState answered completed []) = true := by decide +kernel
  have hleaves : ¬LeavesRootClosed answered rootFrame completed [] unread :=
    fun h => absurd h.1 (by decide +kernel)
  obtain ⟨hresult, hroot⟩ := hterminal _ (hevent ▸ List.mem_singleton_self _)
  exact ⟨_, hevent, rfl, hcloses, hresult hreads, hroot hleaves⟩

end PiRlm.Runtime

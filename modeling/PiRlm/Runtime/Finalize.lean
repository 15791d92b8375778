/-
  PiRlm.Runtime.Finalize

  `finalize` of `runtime/run.ts`: close every open frame, then append the sole run
  terminal, in up to three attempts.

  The journal is the list of events a scan of it returns.  Each drain, read and append
  of an attempt takes its outcome from `AttemptFaults`.
-/
import Mathlib
import PiRlm.Core.Journal
import PiRlm.Core.Operation

namespace PiRlm.Runtime

open PiRlm.Lib PiRlm.Core

/-! ## Results -/

inductive RunStatus where
  | completed | failed | cancelled
  deriving Repr, DecidableEq

/-- Non-secret classification of an exception. -/
structure ErrorCause where
  name : JsString
  code : Option JsString
  deriving Repr, DecidableEq

structure RunError where
  code : JsString
  message : JsString
  cause : Option ErrorCause
  deriving Repr, DecidableEq

structure RunOutput where
  ref : JsString
  sha256 : JsString
  bytes : Nat
  deriving Repr, DecidableEq

structure RunWarning where
  code : JsString
  message : JsString
  cause : Option ErrorCause
  deriving Repr, DecidableEq

/-- A result before it is finished; `A` is the type of answers. -/
structure PlannedResult (A : Type) where
  runId : JsString
  status : RunStatus
  completionMode : Option CompletionMode
  answer : Option A
  error : Option RunError
  deriving Repr, DecidableEq

structure RunResult (A : Type) extends PlannedResult A where
  output : Option RunOutput
  warnings : List RunWarning
  deriving Repr, DecidableEq

variable {A : Type}

def failure (runId code message : JsString) (cause : Option ErrorCause) : PlannedResult A where
  runId := runId
  status := .failed
  completionMode := none
  answer := none
  error := some { code, message, cause }

/-- The failure of a finalization. -/
def journalFailure (runId : JsString) (cause : ErrorCause) : PlannedResult A :=
  failure runId (js "JOURNAL_FAILED") (js "failed to finalize run journal") (some cause)

/-- `new Error(...)`, classified. -/
def plainError : ErrorCause :=
  { name := js "Error", code := none }

def fullAnswerOutput (answer : AnswerCommitted) : Option RunOutput :=
  match answer.outputSha256, answer.outputBytes with
  | some sha256, some bytes =>
    if isHash sha256 ∧ answer.outputRef = js "ctx_" ++ sha256 ∧ bytes ≤ maxSafeInteger then
      some { ref := answer.outputRef, sha256, bytes }
    else none
  | _, _ => none

/-- Current writers require one fully described root answer before completing. -/
def completionOutput (events : List RlmEvent) (rootFrameId : JsString)
    (completionMode : CompletionMode) : Option RunOutput :=
  match frameAnswers events rootFrameId with
  | [answer] => if answer.completionMode = completionMode then fullAnswerOutput answer else none
  | _ => none

def terminalEvent (result : PlannedResult A) (events : List RlmEvent) (rootFrameId : JsString) :
    Except ErrorCause TerminalEvent :=
  match result.status with
  | .completed =>
    match result.completionMode with
    | none => .error plainError
    | some mode =>
      match completionOutput events rootFrameId mode with
      | none => .error plainError
      | some output => .ok (.runCompleted result.runId mode (some output.ref))
  | .cancelled =>
    .ok (.runCancelled result.runId (js "CANCELLED") (js "run cancelled by owner"))
  | .failed =>
    .ok (.runFailed result.runId
      ((result.error.map RunError.code).getD (js "FAILED"))
      ((result.error.map RunError.message).getD (js "run failed")))

def terminalsForRun (events : List RlmEvent) (expectedRunId : JsString) : List TerminalEvent :=
  (events.filterMap RlmEvent.terminal?).filter fun event => event.runId == expectedRunId

def outputFromEvents (events : List RlmEvent) (expectedRunId rootFrameId : JsString)
    (result : PlannedResult A) : Option RunOutput :=
  match result.status, result.completionMode, terminalsForRun events expectedRunId with
  | .completed, some mode, [.runCompleted _ terminalMode (some outputRef)] =>
    if terminalMode = mode then
      (completionOutput events rootFrameId mode).filter fun output => output.ref == outputRef
    else none
  | _, _, _ => none

def resultFromTerminal (event : TerminalEvent) (initial : PlannedResult A) : PlannedResult A :=
  match event with
  | .runCompleted _ mode _ =>
    if initial.status ≠ .completed ∨ initial.completionMode ≠ some mode then
      failure initial.runId (js "JOURNAL_FAILED")
        (js "run terminal does not match the planned completion") none
    else
      { runId := initial.runId, status := .completed, completionMode := some mode
        answer := initial.answer, error := none }
  | .runCancelled _ code message =>
    { runId := initial.runId, status := .cancelled, completionMode := none, answer := none
      error := some { code, message, cause := none } }
  | .runFailed _ code message =>
    let matchingCause := match initial.status, initial.error with
      | .failed, some error =>
        if error.code = code ∧ error.message = message then error.cause else none
      | _, _ => none
    failure initial.runId code message matchingCause

/-! ## The journal -/

/-- A `JournalAppendError`, with the classification of its cause. -/
structure AppendError where
  eventDurable : Bool
  cause : Option ErrorCause
  deriving Repr, DecidableEq

/-- What an append does while the journal has no terminal. -/
inductive AppendResult where
  /-- The event is written; the refresh of the status cache may fail. -/
  | committed (cacheFailure : Option AppendError)
  /-- The event is written and an error says so. -/
  | durable (cause : Option ErrorCause)
  /-- The event is not written. -/
  | rejected (cause : Option ErrorCause)
  /-- The event is written and an error says that it is not. -/
  | unreported (cause : Option ErrorCause)
  deriving Repr, DecidableEq

inductive DrainFailure where
  | append (error : AppendError)
  | thrown (cause : ErrorCause)
  deriving Repr, DecidableEq

/-- The outcome of each journal operation of one attempt; a read that fails has a cause. -/
structure AttemptFaults where
  drain : Option DrainFailure
  firstRead : Option ErrorCause
  close : JsString → AppendResult
  secondRead : Option ErrorCause
  append : AppendResult
  thirdRead : Option ErrorCause
  rescueRead : Option ErrorCause

structure FinalizeState (A : Type) where
  journal : List RlmEvent
  planned : PlannedResult A
  durableAppendFailures : List AppendError
  statusCacheFailures : List AppendError

/-- `journal.append`: nothing is written after a terminal. -/
def append (st : FinalizeState A) (event : RlmEvent) (result : AppendResult) :
    FinalizeState A × Except AppendError Unit :=
  if st.journal.any RlmEvent.isTerminalEvent then
    match result with
    | .committed cacheFailure =>
      ({ st with statusCacheFailures := st.statusCacheFailures ++ cacheFailure.toList }, .ok ())
    | .durable cause => (st, .error { eventDurable := false, cause })
    | .rejected cause => (st, .error { eventDurable := false, cause })
    | .unreported cause => (st, .error { eventDurable := false, cause })
  else
    match result with
    | .committed cacheFailure =>
      ({ st with
          journal := st.journal ++ [event]
          statusCacheFailures := st.statusCacheFailures ++ cacheFailure.toList }, .ok ())
    | .durable cause =>
      ({ st with journal := st.journal ++ [event] }, .error { eventDurable := true, cause })
    | .rejected cause => (st, .error { eventDurable := false, cause })
    | .unreported cause =>
      ({ st with journal := st.journal ++ [event] }, .error { eventDurable := false, cause })

/-- An append error, classified as a cause. -/
def appendErrorCause : ErrorCause :=
  { name := js "JournalAppendError", code := none }

def appendDurably (st : FinalizeState A) (event : RlmEvent) (result : AppendResult) :
    FinalizeState A × Except ErrorCause Unit :=
  match append st event result with
  | (st, .ok ()) => (st, .ok ())
  | (st, .error e) =>
    if e.eventDurable then
      ({ st with durableAppendFailures := st.durableAppendFailures ++ [e] }, .ok ())
    else (st, .error appendErrorCause)

/-! ## Attempts -/

/-- The two warnings of a finished result. -/
def warnings (st : FinalizeState A) : List RunWarning :=
  (match st.statusCacheFailures with
    | [] => []
    | e :: _ =>
      [{ code := js "STATUS_CACHE_REFRESH_FAILED"
         message := js ("journal status cache refresh failed; " ++
          "authoritative status remains available from events")
         cause := e.cause }]) ++
  match st.durableAppendFailures with
  | [] => []
  | e :: _ =>
    [{ code := js "JOURNAL_APPEND_CLEANUP_FAILED"
       message := js "journal event was durable but append cleanup failed"
       cause := e.cause }]

section

variable (rootFrameId : JsString) (initial : PlannedResult A)

def finish (st : FinalizeState A) (result : PlannedResult A) (events : List RlmEvent) :
    RunResult A :=
  let output := outputFromEvents events initial.runId rootFrameId result
  let authoritative :=
    if result.status = .completed ∧ output = none then
      failure initial.runId (js "JOURNAL_FAILED")
        (js "completed run has no authoritative journal output") none
    else result
  { authoritative with
    output := if authoritative.status = .completed then output else none
    warnings := warnings st }

/-- The result of a journal that has a terminal. -/
def returned (st : FinalizeState A) : Option (RunResult A) :=
  match terminalsForRun st.journal initial.runId with
  | [] => none
  | [event] => some (finish rootFrameId initial st (resultFromTerminal event initial) st.journal)
  | _ =>
    some (finish rootFrameId initial st
      (failure initial.runId (js "JOURNAL_FAILED")
        (js "run journal has multiple terminal events") none) st.journal)

/-- Frames in the order of their opening, and those among them that are open. -/
def openFrames (events : List RlmEvent) : List JsString × List JsString :=
  events.foldl (fun frames event =>
    match event with
    | .frameOpened frameId _ =>
      if frameId ∈ frames.2 then frames else (frames.1 ++ [frameId], frames.2 ++ [frameId])
    | .frameClosed frameId _ => (frames.1, frames.2.filter (· ≠ frameId))
    | _ => frames) ([], [])

/-- State in which a frame is closed. -/
def closingState (status : RunStatus) (frameId : JsString) : FrameState :=
  match status with
  | .cancelled => .cancelled
  | .failed => .failed
  | .completed => if frameId = rootFrameId then .answered else .closed

def closeFrames (close : JsString → AppendResult) :
    List JsString → FinalizeState A → FinalizeState A × Except ErrorCause Unit
  | [], st => (st, .ok ())
  | frameId :: frameIds, st =>
    match appendDurably st
        (.frameClosed frameId (closingState rootFrameId st.planned.status frameId))
        (close frameId) with
    | (st, .error e) => (st, .error e)
    | (st, .ok ()) => closeFrames close frameIds st

/-- The drain failure taken into the plan. -/
def observeDrain (st : FinalizeState A) : Option DrainFailure → FinalizeState A
  | none => st
  | some (.append e) =>
    if e.eventDurable then
      { st with durableAppendFailures := st.durableAppendFailures ++ [e] }
    else { st with planned := journalFailure initial.runId appendErrorCause }
  | some (.thrown cause) => { st with planned := journalFailure initial.runId cause }

/-- The body of the `try` of one attempt. -/
def tryAttempt (faults : AttemptFaults) (st : FinalizeState A) :
    FinalizeState A × Except ErrorCause (RunResult A) :=
  match faults.firstRead with
  | some cause => (st, .error cause)
  | none =>
    match returned rootFrameId initial st with
    | some result => (st, .ok result)
    | none =>
      let st := observeDrain initial st faults.drain
      let frames := openFrames st.journal
      match closeFrames rootFrameId faults.close
          (frames.1.reverse.filter (· ∈ frames.2)) st with
      | (st, .error cause) => (st, .error cause)
      | (st, .ok ()) =>
        match faults.secondRead with
        | some cause => (st, .error cause)
        | none =>
          match terminalEvent st.planned st.journal rootFrameId with
          | .error cause => (st, .error cause)
          | .ok event =>
            match appendDurably st (.terminal event) faults.append with
            | (st, .error cause) => (st, .error cause)
            | (st, .ok ()) =>
              match faults.thirdRead with
              | some cause => (st, .error cause)
              | none =>
                match returned rootFrameId initial st with
                | some result => (st, .ok result)
                | none => (st, .error plainError)

/-- One attempt: the result it returns, or none when the next attempt is to try. -/
def attempt (faults : AttemptFaults) (st : FinalizeState A) :
    FinalizeState A × Option (RunResult A) :=
  match tryAttempt rootFrameId initial faults st with
  | (st, .ok result) => (st, some result)
  | (st, .error cause) =>
    match faults.rescueRead.isNone, returned rootFrameId initial st with
    | true, some result => (st, some result)
    | _, _ => ({ st with planned := journalFailure initial.runId cause }, none)

def attempts : List AttemptFaults → FinalizeState A → FinalizeState A × Option (RunResult A)
  | [], st => (st, none)
  | faults :: rest, st =>
    match attempt rootFrameId initial faults st with
    | (st, some result) => (st, some result)
    | (st, none) => attempts rest st

end

/-- The journal after the attempts, and the result. -/
structure Finalized (A : Type) where
  journal : List RlmEvent
  result : RunResult A

/-- Close every successfully opened frame, then append the sole run terminal. -/
def finalize (journal : List RlmEvent) (rootFrameId : JsString) (initial : PlannedResult A)
    (statusCacheFailures : List AppendError) (first second third : AttemptFaults) :
    Finalized A :=
  let st : FinalizeState A :=
    { journal, planned := initial, durableAppendFailures := [], statusCacheFailures }
  match attempts rootFrameId initial [first, second, third] st with
  | (st, some result) => { journal := st.journal, result }
  | (st, none) => { journal := st.journal, result := finish rootFrameId initial st st.planned [] }

end PiRlm.Runtime

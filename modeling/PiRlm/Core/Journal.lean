/-
  PiRlm.Core.Journal

  Events of `core/journal.ts` as the runtime handles them, typed.  The kinds that the
  modelled functions do not look into are one constructor.
-/
import Mathlib
import PiRlm.Lib.Utf16

namespace PiRlm.Core

open PiRlm.Lib

inductive CompletionMode where
  | answer | fallbackExtract
  deriving Repr, DecidableEq

inductive FrameState where
  | open | answered | closed | failed | cancelled
  deriving Repr, DecidableEq

structure AnswerCommitted where
  frameId : JsString
  completionMode : CompletionMode
  outputRef : JsString
  outputSha256 : Option JsString
  outputBytes : Option Nat
  deriving Repr, DecidableEq

inductive TerminalEvent where
  | runCompleted (runId : JsString) (completionMode : CompletionMode)
      (outputRef : Option JsString)
  | runFailed (runId code message : JsString)
  | runCancelled (runId code message : JsString)
  deriving Repr, DecidableEq

def TerminalEvent.runId : TerminalEvent → JsString
  | .runCompleted runId _ _ => runId
  | .runFailed runId _ _ => runId
  | .runCancelled runId _ _ => runId

inductive RlmEvent where
  | frameOpened (frameId : JsString) (parentFrameId : Option JsString)
  | frameClosed (frameId : JsString) (state : FrameState)
  | answerCommitted (answer : AnswerCommitted)
  | terminal (event : TerminalEvent)
  | other (type : JsString)
  deriving Repr, DecidableEq

def RlmEvent.terminal? : RlmEvent → Option TerminalEvent
  | .terminal event => some event
  | _ => none

def RlmEvent.isTerminalEvent (event : RlmEvent) : Bool :=
  event.terminal?.isSome

def RlmEvent.opened? : RlmEvent → Option JsString
  | .frameOpened frameId _ => some frameId
  | _ => none

def RlmEvent.answer? : RlmEvent → Option AnswerCommitted
  | .answerCommitted answer => some answer
  | _ => none

/-- Frames in the order of their opening. -/
def openedIds (events : List RlmEvent) : List JsString :=
  events.filterMap RlmEvent.opened?

/-- The answers of a frame. -/
def frameAnswers (events : List RlmEvent) (frameId : JsString) : List AnswerCommitted :=
  (events.filterMap RlmEvent.answer?).filter fun answer => answer.frameId == frameId

end PiRlm.Core

/-
  PiRlm.Runtime.RunRecoveryJournal

  The rules of `runtime/run-recovery-journal.ts` that relate a run terminal to the root
  frame.
-/
import Mathlib
import PiRlm.Core.Journal

namespace PiRlm.Runtime

open PiRlm.Lib PiRlm.Core

/-- The answer that recovery keeps for a frame. -/
def frameAnswer (events : List RlmEvent) (frameId : JsString) : Option AnswerCommitted :=
  (frameAnswers events frameId).head?

/-- The state of the closing that recovery keeps for a frame. -/
def frameClosing (events : List RlmEvent) (frameId : JsString) : Option FrameState :=
  events.findSome? fun event =>
    match event with
    | .frameClosed f state => if f = frameId then some state else none
    | _ => none

/-- Why `validateRecoveryJournal` rejects a terminal as inconsistent with the root frame. -/
def terminalInconsistency (events : List RlmEvent) (rootFrameId : JsString) :
    TerminalEvent → Option JsString
  | .runCompleted _ mode outputRef =>
    match frameAnswer events rootFrameId with
    | none => some (js "completed terminal lacks one matching root answer")
    | some answer =>
      if rootFrameId ∉ openedIds events ∨ frameClosing events rootFrameId ≠ some .answered ∨
          answer.completionMode ≠ mode ∨ outputRef = none ∨
          outputRef ≠ some answer.outputRef then
        some (js "completed terminal lacks one matching root answer")
      else none
  | .runCancelled _ _ _ =>
    if rootFrameId ∈ openedIds events ∧ frameClosing events rootFrameId ≠ some .cancelled then
      some (js "cancelled terminal has inconsistent root state")
    else none
  | .runFailed _ _ _ =>
    if rootFrameId ∈ openedIds events ∧ frameClosing events rootFrameId ≠ some .failed then
      some (js "failed terminal has inconsistent root state")
    else none

end PiRlm.Runtime

/-
  PiRlm.Core.Ids

  Identity helpers of `core/ids.ts`, and the names of the frames of a run.
-/
import Mathlib
import PiRlm.Core.Operation
import PiRlm.Lib.Decimal

namespace PiRlm.Core

open PiRlm.Lib PiRlm.Lib.Json

inductive CallKind where
  | llm | agent | recurse | tool | artifact | context
  deriving Repr, DecidableEq

/-- The text of a kind in journal events and identities. -/
def CallKind.text : CallKind → JsString
  | .llm => js "llm"
  | .agent => js "agent"
  | .recurse => js "recurse"
  | .tool => js "tool"
  | .artifact => js "artifact"
  | .context => js "context"

def fullDigest (hasher : Hasher) (input : JsString) : Except JsString JsString :=
  if isHash (hasher input) then .ok (hasher input)
  else .error (js "hasher must return 64 lowercase hexadecimal characters")

/-- Stable identity hash of a JSON identity descriptor. -/
def identityHash {N : Type} [JsonNumber N] (hasher : Hasher) (identity : Json N) :
    Except JsString JsString :=
  (canonicalStringify identity).bind (fullDigest hasher)

-- ============================================================================
-- Frames
-- ============================================================================

def rootFrameId (runId : JsString) : JsString := runId ++ js ":f0"

/-- The frame of one execution of a recurse call. -/
def childFrameId (runId callId : JsString) (execution : Nat) : JsString :=
  runId ++ (js ":frame:" ++ (callId ++ (js ":e" ++ decimal execution)))

/-- `call_recurse_[a-f0-9]{64}`. -/
def isRecurseCallId (callId : JsString) : Bool :=
  isPrefixedHash (js "call_recurse_") callId

/-- `[1-9][0-9]*`. -/
def isOrdinal (s : JsString) : Bool :=
  match s with
  | [] => false
  | u :: _ => s.all isDigit && u != 0x30

/-- `FrameRef` of `runtime/state.ts`: a frame that the run has opened. -/
structure FrameRef (runId : JsString) where
  frameId : JsString
  lineage : Option JsString
  opened : (frameId = rootFrameId runId ∧ (lineage = none ∨ lineage = some frameId)) ∨
    ∃ callId execution, isRecurseCallId callId = true ∧ 1 ≤ execution ∧
      lineage = some callId ∧ frameId = childFrameId runId callId execution

/-- The root frame as `runProgram` builds it. -/
def FrameRef.root (runId : JsString) : FrameRef runId where
  frameId := rootFrameId runId
  lineage := some (rootFrameId runId)
  opened := .inl ⟨rfl, .inr rfl⟩

theorem length_of_isPrefixedHash {start s : JsString} (h : isPrefixedHash start s = true) :
    s.length = start.length + 64 := by
  rw [isPrefixedHash, Bool.and_eq_true, isHash, Bool.and_eq_true] at h
  obtain ⟨hstart, hlength, -⟩ := h
  have hle := (List.isPrefixOf_iff_prefix.mp hstart).length_le
  have hdrop : (s.drop start.length).length = 64 := by simpa using hlength
  rw [List.length_drop] at hdrop
  omega

theorem isOrdinal_decimal {n : Nat} (h : 1 ≤ n) : isOrdinal (decimal n) = true := by
  obtain ⟨u, rest, htext, hzero⟩ := decimal_cons n
  have hdigits : (decimal n).all isDigit = true :=
    List.all_eq_true.mpr (decimal_isDigit n)
  have hvalue := digitsValue_decimal n
  rw [htext] at hdigits hvalue ⊢
  show ((u :: rest).all isDigit && u != 0x30) = true
  rw [hdigits, Bool.true_and, bne_iff_ne]
  rintro rfl
  -- a lone zero would denote zero
  obtain rfl := hzero rfl
  have : digitsValue [0x30] = 0 := rfl
  omega

end PiRlm.Core

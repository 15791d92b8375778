/-
  PiRlm.Runtime.OperationRecovery

  The two folds that recovery makes over the operations of a journal: the usage that
  `deriveJournalState` of `runtime/checkpoint-recovery.ts` derives, and the rules of
  `validateRecoveryJournal` in `runtime/run-recovery-journal.ts` that a settlement must pass.

  An intent is entered into the maps that settlements look up; the rules that an intent
  itself must pass (approvals, limits, contiguous attempts) are not part of this fold.
-/
import Mathlib
import PiRlm.Runtime.Provider

namespace PiRlm.Runtime

open PiRlm.Lib PiRlm.Core

variable {C : Type} [CostNumber C]

-- ============================================================================
-- Derived usage
-- ============================================================================

structure DerivedUsage (C : Type) where
  intents : List OperationIntent
  attempts : Nat
  tokensReserved : Int
  tokensUsed : Nat
  inputTokensUsed : Nat
  outputTokensUsed : Nat
  costUsd : C
  providerDurationMs : Nat
  deriving Repr, DecidableEq

namespace DerivedUsage

def zero : DerivedUsage C := ⟨[], 0, 0, 0, 0, 0, CostNumber.zero, 0⟩

/-- `addUsage` of the checkpoint recovery: no addition is checked. -/
def addUsage (d : DerivedUsage C) (settled : CallUsage C) : DerivedUsage C :=
  { d with
    tokensUsed := d.tokensUsed + settled.total
    inputTokensUsed := d.inputTokensUsed + settled.input
    outputTokensUsed := d.outputTokensUsed + settled.output
    costUsd := CostNumber.add d.costUsd settled.cost
    providerDurationMs := d.providerDurationMs + settled.durationMs }

omit [CostNumber C] in
def addIntent (d : DerivedUsage C) (intent : OperationIntent) : DerivedUsage C :=
  { d with
    intents := intent :: d.intents
    attempts := d.attempts + intent.reservation.attempts
    tokensReserved := d.tokensReserved + intent.reservation.tokens }

def addSettlement (d : DerivedUsage C) (event : OperationSettled C) : DerivedUsage C :=
  { d with tokensReserved := d.tokensReserved - event.intent.reservation.tokens }.addUsage
    event.usage

def step (d : DerivedUsage C) : OperationEvent C → Option (DerivedUsage C)
  | .frameOpened _ => some d
  | .frameClosed _ => some d
  | .intended intent => some (d.addIntent intent)
  | .settled event => if event.intent ∈ d.intents then some (d.addSettlement event) else none

end DerivedUsage

/-- The ledger usage that a checkpoint recovery derives; `none` is an invalid checkpoint. -/
def deriveUsage (journal : List (OperationEvent C)) : Option (DerivedUsage C) :=
  journal.foldlM DerivedUsage.step DerivedUsage.zero

theorem deriveUsage_concat (journal : List (OperationEvent C)) (event : OperationEvent C) :
    deriveUsage (journal ++ [event]) = (deriveUsage journal).bind fun d => d.step event := by
  rw [deriveUsage, List.foldlM_append]
  show (deriveUsage journal).bind (fun d => (d.step event).bind some) = _
  congr 1
  funext d
  cases d.step event <;> rfl

-- ============================================================================
-- Settlement rules
-- ============================================================================

/-- An intent in the journal and the segment of its operation that it belongs to. -/
structure RecordedAttempt where
  intent : OperationIntent
  segment : Nat
  deriving Repr, DecidableEq

structure OperationRecovery (C : Type) where
  opened : List JsString
  closed : List JsString
  attempts : List RecordedAttempt
  settled : List OperationIntent
  /-- The usage of every logical-call segment. -/
  segments : List (CallUsage C)
  /-- The last segment of each operation. -/
  lastSegment : JsString → Option Nat
  tokensReserved : Nat
  tokensUsed : Nat

def OperationIntent.attemptKey (intent : OperationIntent) : JsString :=
  Runtime.attemptKey intent.frameId intent.operationId

namespace OperationRecovery

def empty : OperationRecovery C := ⟨[], [], [], [], [], fun _ => none, 0, 0⟩

variable (r : OperationRecovery C)

omit [CostNumber C] in
def addIntent (intent : OperationIntent) (segment : Nat) : OperationRecovery C :=
  { r with
    attempts := ⟨intent, segment⟩ :: r.attempts
    tokensReserved := r.tokensReserved + intent.reservation.tokens }

/-- A logical call opens a segment of its operation. -/
def openSegment (key : JsString) : OperationRecovery C :=
  { r with
    segments := r.segments ++ [zeroCallUsage]
    lastSegment := Function.update r.lastSegment key (some r.segments.length) }

def recordIntent (intent : OperationIntent) : Except JsString (OperationRecovery C) :=
  if intent.reservation.logicalCalls = 1 then
    .ok ((r.openSegment intent.attemptKey).addIntent intent r.segments.length)
  else
    match r.lastSegment intent.attemptKey with
    | none => .error (js "operation attempt has no logical-call segment")
    | some segment => .ok (r.addIntent intent segment)

omit [CostNumber C] in
/-- `requireFrame(frameId)`. -/
def frameFault (frameId : JsString) : Option JsString :=
  if frameId ∉ r.opened then some (js "event references an unopened frame")
  else if frameId ∈ r.closed then some (js "event follows frame closure")
  else none

/-- The usage of a settlement is well formed. -/
def settlementUsageOk (usage : CallUsage C) : Bool :=
  (normalizeCallUsage (some usage.raw) callUsageLimits).isOk &&
    usage.totalTokens.all fun total => decide (usage.input + usage.output ≤ total)

/-- Why a settlement of a recorded attempt is rejected, its segment apart. -/
def settlementFault (event : OperationSettled C) : Option JsString :=
  if event.intent.frameId ≠ event.frameId then
    some (js "operation settlement frame does not match its intent")
  else if event.intent ∈ r.settled then some (js "duplicate operation settlement")
  else if settlementUsageOk event.usage = false then
    some (js "operation settlement usage is invalid")
  else if r.tokensReserved < event.intent.reservation.tokens then
    some (js "operation token settlement exceeds reservations")
  else if maxSafeInteger < r.tokensUsed + event.usage.total then
    some (js "operation token usage overflows")
  else none

omit [CostNumber C] in
def addSettlement (event : OperationSettled C) (segment : Nat) (combined : CallUsage C) :
    OperationRecovery C :=
  { r with
    settled := event.intent :: r.settled
    segments := r.segments.set segment combined
    tokensReserved := r.tokensReserved - event.intent.reservation.tokens
    tokensUsed := r.tokensUsed + event.usage.total }

def recordSettlement (event : OperationSettled C) : Except JsString (OperationRecovery C) :=
  match r.frameFault event.frameId with
  | some fault => .error fault
  | none =>
    match r.attempts.find? fun attempt => decide (attempt.intent = event.intent) with
    | none => .error (js "operation settlement has no prior intent")
    | some attempt =>
      match r.settlementFault event with
      | some fault => .error fault
      | none =>
        match addUsage (r.segments.getD attempt.segment zeroCallUsage) event.usage with
        | .error _ => .error (js "operation settlement usage aggregate is invalid")
        | .ok combined => .ok (r.addSettlement event attempt.segment combined)

def step : OperationEvent C → Except JsString (OperationRecovery C)
  | .frameOpened frameId => .ok { r with opened := frameId :: r.opened }
  | .frameClosed frameId => .ok { r with closed := frameId :: r.closed }
  | .intended intent => r.recordIntent intent
  | .settled event => r.recordSettlement event

end OperationRecovery

/-- The operations that recovery reads in a journal, or why it rejects one. -/
def recoverOperations (journal : List (OperationEvent C)) : Except JsString (OperationRecovery C) :=
  journal.foldlM OperationRecovery.step OperationRecovery.empty

theorem recoverOperations_concat (journal : List (OperationEvent C)) (event : OperationEvent C) :
    recoverOperations (journal ++ [event]) =
      (recoverOperations journal).bind fun r => r.step event := by
  rw [recoverOperations, List.foldlM_append]
  show (recoverOperations journal).bind (fun r => (r.step event).bind .ok) = _
  congr 1
  funext r
  cases r.step event <;> rfl

/-- A settlement that passes every rule, as an update. -/
theorem OperationRecovery.recordSettlement_ok {r : OperationRecovery C}
    {event : OperationSettled C} {segment : Nat} {before combined : CallUsage C}
    (hframe : r.frameFault event.frameId = none)
    (hfind : (r.attempts.find? fun attempt => decide (attempt.intent = event.intent)) =
      some ⟨event.intent, segment⟩)
    (hfault : r.settlementFault event = none) (hbefore : r.segments[segment]? = some before)
    (hcombined : addUsage before event.usage = .ok combined) :
    r.recordSettlement event = .ok (r.addSettlement event segment combined) := by
  have hget : r.segments.getD segment zeroCallUsage = before := by
    rw [List.getD_eq_getElem?_getD, hbefore]
    rfl
  rw [recordSettlement, hframe]
  dsimp only
  rw [hfind]
  dsimp only
  rw [hfault, hget]
  dsimp only
  rw [hcombined]

/-- What a settlement that is recorded has changed. -/
theorem OperationRecovery.recordSettlement_cases {r r' : OperationRecovery C}
    {event : OperationSettled C} (h : r.recordSettlement event = .ok r') :
    ∃ segment combined, (∃ attempt ∈ r.attempts, attempt.intent = event.intent) ∧
      r' = r.addSettlement event segment combined := by
  unfold recordSettlement at h
  split at h
  · exact absurd h nofun
  · split at h
    · exact absurd h nofun
    · rename_i attempt hfind
      split at h
      · exact absurd h nofun
      · split at h
        · exact absurd h nofun
        · have hintent := List.find?_some hfind
          exact ⟨_, _, ⟨attempt, List.mem_of_find?_eq_some hfind, of_decide_eq_true hintent⟩,
            (Except.ok.inj h).symm⟩

end PiRlm.Runtime

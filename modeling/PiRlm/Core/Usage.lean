/-
  PiRlm.Core.Usage

  Per-call usage accounting of `core/usage.ts`.

  Token counts and durations are nonnegative integers, as every check of the source makes
  them.  Costs are the numbers of a format with a rounding addition: only what the checks
  rely on is assumed of it.
-/
import Mathlib
import PiRlm.Lib.Decimal

namespace PiRlm.Core

open PiRlm.Lib

/-- A number format for costs. -/
class CostNumber (C : Type) where
  zero : C
  add : C → C → C
  ofNat : Nat → C
  isFinite : C → Bool
  le : C → C → Bool
  isFinite_zero : isFinite zero = true
  le_zero_zero : le zero zero = true
  le_zero_ofNat : ∀ n, le zero (ofNat n) = true
  isFinite_add_zero : ∀ c, isFinite c = true → isFinite (add c zero) = true
  le_zero_add : ∀ c d, le zero c = true → le zero d = true → le zero (add c d) = true

instance : CostNumber ℚ where
  zero := 0
  add c d := c + d
  ofNat n := n
  isFinite _ := true
  le c d := decide (c ≤ d)
  isFinite_zero := rfl
  le_zero_zero := rfl
  le_zero_ofNat n := decide_eq_true n.cast_nonneg
  isFinite_add_zero _ _ := rfl
  le_zero_add _ _ hc hd :=
    decide_eq_true (add_nonneg (of_decide_eq_true hc) (of_decide_eq_true hd))

structure CallUsage (C : Type) where
  attempts : Nat
  inputTokens : Option Nat
  outputTokens : Option Nat
  totalTokens : Option Nat
  costUsd : Option C
  durationMs : Nat
  deriving Repr, DecidableEq

structure CallUsageLimits (C : Type) where
  maxAttempts : Nat
  maxTokens : Nat
  maxCostUsd : C
  maxDurationMs : Nat

def maxCallTokens : Nat := 10000000
def maxCallCostUsd : Nat := 10000
def maxCallDurationMs : Nat := 24 * 60 * 60 * 1000
def maxCallAttempts : Nat := 1

variable {C : Type} [CostNumber C]

def callUsageLimits : CallUsageLimits C where
  maxAttempts := maxCallAttempts
  maxTokens := maxCallTokens
  maxCostUsd := CostNumber.ofNat maxCallCostUsd
  maxDurationMs := maxCallDurationMs

def addUsageLimits : CallUsageLimits C where
  maxAttempts := maxSafeInteger
  maxTokens := maxSafeInteger
  maxCostUsd := CostNumber.ofNat (maxCallCostUsd * 1000000)
  maxDurationMs := maxSafeInteger

def zeroCallUsage : CallUsage C := ⟨0, none, none, none, none, 0⟩

-- ============================================================================
-- Usage that a provider reports
-- ============================================================================

/-- An own property that should hold a nonnegative integer. -/
inductive UsageField where
  | absent
  | integer (n : Nat)
  /-- Any other value, or an accessor. -/
  | invalid
  deriving Repr, DecidableEq

inductive CostField (C : Type) where
  | absent
  | number (c : C)
  | invalid
  deriving Repr, DecidableEq

/-- The own properties that are read of an untrusted usage object. -/
structure RawUsage (C : Type) where
  attempts : UsageField
  inputTokens : UsageField
  outputTokens : UsageField
  totalTokens : UsageField
  costUsd : CostField C
  durationMs : UsageField
  deriving Repr, DecidableEq

def invalidField (field : JsString) : JsString := js "invalid usage field " ++ field

/-- A safe nonnegative integer up to a maximum. -/
def UsageField.integer? (max : Nat) : UsageField → Option Nat
  | .integer n => if n ≤ maxSafeInteger ∧ n ≤ max then some n else none
  | _ => none

def UsageField.optionalInteger (key : JsString) (max : Nat) (field : UsageField) :
    Except JsString (Option Nat) :=
  if field = .absent then .ok none
  else
    match field.integer? max with
    | some n => .ok (some n)
    | none => .error (invalidField key)

def CostField.optionalCost (max : C) : CostField C → Except JsString (Option C)
  | .absent => .ok none
  | .number c =>
    if CostNumber.isFinite c && CostNumber.le CostNumber.zero c && CostNumber.le c max then
      .ok (some c)
    else .error (invalidField (js "costUsd"))
  | .invalid => .error (invalidField (js "costUsd"))

/-- Snapshot of untrusted provider usage; `none` is a value that is no object. -/
def normalizeCallUsage (value : Option (RawUsage C)) (limits : CallUsageLimits C) :
    Except JsString (CallUsage C) :=
  match value with
  | none => .error (invalidField (js "usage"))
  | some raw =>
    match raw.attempts.integer? limits.maxAttempts, raw.durationMs.integer? limits.maxDurationMs with
    | none, _ => .error (invalidField (js "attempts"))
    | some _, none => .error (invalidField (js "durationMs"))
    | some attempts, some durationMs =>
      (raw.inputTokens.optionalInteger (js "inputTokens") limits.maxTokens).bind fun inputTokens =>
      (raw.outputTokens.optionalInteger (js "outputTokens") limits.maxTokens).bind fun outputTokens =>
      (raw.totalTokens.optionalInteger (js "totalTokens") limits.maxTokens).bind fun totalTokens =>
      (raw.costUsd.optionalCost limits.maxCostUsd).map fun costUsd =>
        ⟨attempts, inputTokens, outputTokens, totalTokens, costUsd, durationMs⟩

/-- A usage as the object that holds it. -/
def CallUsage.raw (usage : CallUsage C) : RawUsage C where
  attempts := .integer usage.attempts
  inputTokens := usage.inputTokens.elim .absent .integer
  outputTokens := usage.outputTokens.elim .absent .integer
  totalTokens := usage.totalTokens.elim .absent .integer
  costUsd := usage.costUsd.elim .absent .number
  durationMs := .integer usage.durationMs

-- ============================================================================
-- Checked addition
-- ============================================================================

def checkedIntegerSum (a b max : Nat) : Option Nat :=
  if a ≤ maxSafeInteger ∧ b ≤ maxSafeInteger ∧ a + b ≤ max then some (a + b) else none

/-- The sum of two optional counts; the outer `none` is an overflow. -/
def addOptionalInteger (a b : Option Nat) (max : Nat) : Option (Option Nat) :=
  if a = none ∧ b = none then some none
  else (checkedIntegerSum (a.getD 0) (b.getD 0) max).map some

def addCost (a b : Option C) : C :=
  CostNumber.add (a.getD CostNumber.zero) (b.getD CostNumber.zero)

/-- Checked cumulative addition. -/
def addUsage (a b : CallUsage C) : Except JsString (CallUsage C) :=
  (normalizeCallUsage (some a.raw) addUsageLimits).bind fun left =>
  (normalizeCallUsage (some b.raw) addUsageLimits).bind fun right =>
  match checkedIntegerSum left.attempts right.attempts maxSafeInteger,
    checkedIntegerSum left.durationMs right.durationMs maxSafeInteger,
    addOptionalInteger left.inputTokens right.inputTokens maxSafeInteger,
    addOptionalInteger left.outputTokens right.outputTokens maxSafeInteger,
    addOptionalInteger left.totalTokens right.totalTokens maxSafeInteger with
  | some attempts, some durationMs, some inputTokens, some outputTokens, some totalTokens =>
    if CostNumber.isFinite (addCost left.costUsd right.costUsd) &&
        CostNumber.le (addCost left.costUsd right.costUsd) (addUsageLimits (C := C)).maxCostUsd then
      .ok ⟨attempts, inputTokens, outputTokens, totalTokens,
        if left.costUsd.isSome || right.costUsd.isSome then
          some (addCost left.costUsd right.costUsd) else none, durationMs⟩
    else .error (invalidField (js "aggregate"))
  | _, _, _, _, _ => .error (invalidField (js "aggregate"))

/-- The sum of usages in their order. -/
def sumUsages (usages : List (CallUsage C)) : Except JsString (CallUsage C) :=
  usages.foldlM addUsage zeroCallUsage

theorem sumUsages_concat (usages : List (CallUsage C)) (usage : CallUsage C) :
    sumUsages (usages ++ [usage]) = (sumUsages usages).bind fun sum => addUsage sum usage := by
  rw [sumUsages, List.foldlM_append]
  show (sumUsages usages).bind (fun sum => (addUsage sum usage).bind .ok) = _
  congr 1
  funext sum
  cases addUsage sum usage <;> rfl

end PiRlm.Core

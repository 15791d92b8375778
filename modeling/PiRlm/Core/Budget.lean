/-
  PiRlm.Core.Budget

  The tree-wide budget ledger of `core/budget.ts`, as far as calls, attempts, tokens and
  leaf concurrency go.
-/
import Mathlib
import PiRlm.Core.Usage

namespace PiRlm.Core

open PiRlm.Lib

structure CallError where
  code : JsString
  message : JsString
  deriving Repr, DecidableEq

structure BudgetLimits where
  maxDepth : Nat
  maxFrames : Nat
  maxLogicalCalls : Nat
  maxAttempts : Nat
  maxControllerTurns : Nat
  maxConcurrency : Nat
  tokenLimit : Option Nat
  storedByteLimit : Nat
  deadlineMs : Int
  deriving Repr, DecidableEq

structure BudgetUsage (C : Type) where
  framesOpened : Nat
  logicalCalls : Nat
  attempts : Nat
  controllerTurns : Nat
  activeLeafCalls : Nat
  tokensReserved : Nat
  tokensUsed : Nat
  inputTokensUsed : Nat
  outputTokensUsed : Nat
  costUsd : C
  providerDurationMs : Nat
  storedBytes : Nat
  deriving Repr, DecidableEq

structure Ledger (C : Type) where
  limits : BudgetLimits
  usage : BudgetUsage C
  deriving Repr, DecidableEq

variable {C : Type} [CostNumber C]

def zeroUsage : BudgetUsage C :=
  ⟨0, 0, 0, 0, 0, 0, 0, 0, 0, CostNumber.zero, 0, 0⟩

def createLedger (limits : BudgetLimits) : Ledger C := ⟨limits, zeroUsage⟩

namespace Ledger

variable (ledger : Ledger C)

omit [CostNumber C] in
def deadlinePassed (now : Int) : Bool := decide (ledger.limits.deadlineMs ≤ now)

omit [CostNumber C] in
/-- Open a child frame at a depth; the root is at depth 0. -/
def openFrame (childDepth : Nat) : Except CallError (Ledger C) :=
  if ledger.limits.maxDepth < childDepth then
    .error ⟨js "BUDGET_DEPTH", js "depth " ++ decimal childDepth ++ js " exceeds max " ++
      decimal ledger.limits.maxDepth⟩
  else if ledger.limits.maxFrames < ledger.usage.framesOpened + 1 then
    .error ⟨js "BUDGET_FRAMES",
      js "frame limit " ++ decimal ledger.limits.maxFrames ++ js " reached"⟩
  else .ok { ledger with usage.framesOpened := ledger.usage.framesOpened + 1 }

omit [CostNumber C] in
/-- Reserve a distinct logical call. -/
def reserveLogicalCall (now : Int) : Except CallError (Ledger C) :=
  if ledger.deadlinePassed now then .error ⟨js "BUDGET_DEADLINE", js "run deadline reached"⟩
  else if ledger.limits.maxLogicalCalls < ledger.usage.logicalCalls + 1 then
    .error ⟨js "BUDGET_CALLS",
      js "logical call limit " ++ decimal ledger.limits.maxLogicalCalls ++ js " reached"⟩
  else .ok { ledger with usage.logicalCalls := ledger.usage.logicalCalls + 1 }

omit [CostNumber C] in
/-- Reserve one attempt plus its optimistic token reservation. -/
def reserveAttempt (now : Int) (reserveTokens : Nat) : Except CallError (Ledger C) :=
  if ledger.deadlinePassed now then .error ⟨js "BUDGET_DEADLINE", js "run deadline reached"⟩
  else if maxCallTokens < reserveTokens then
    .error ⟨js "INVALID_REQUEST", js "invalid attempt token reservation"⟩
  else if maxSafeInteger < ledger.usage.attempts ∨ maxSafeInteger < ledger.usage.tokensReserved ∨
      maxSafeInteger < ledger.usage.tokensUsed then
    .error ⟨js "INVALID_RESULT", js "invalid ledger accounting"⟩
  else if ledger.limits.maxAttempts ≤ ledger.usage.attempts then
    .error ⟨js "BUDGET_ATTEMPTS",
      js "attempt limit " ++ decimal ledger.limits.maxAttempts ++ js " reached"⟩
  else if maxSafeInteger < ledger.usage.tokensReserved + reserveTokens then
    .error ⟨js "BUDGET_TOKENS", js "token reservation overflow"⟩
  else if ∃ limit ∈ ledger.limits.tokenLimit,
      limit < ledger.usage.tokensUsed + (ledger.usage.tokensReserved + reserveTokens) then
    .error ⟨js "BUDGET_TOKENS",
      js "token limit " ++ decimal (ledger.limits.tokenLimit.getD 0) ++ js " reached"⟩
  else .ok { ledger with
    usage.attempts := ledger.usage.attempts + 1
    usage.tokensReserved := ledger.usage.tokensReserved + reserveTokens }

omit [CostNumber C] in
/-- The ledger after a reservation, with a logical call if there is none yet. -/
def reserved (logicalReserved : Bool) (tokens : Nat) : Ledger C :=
  { ledger with
    usage.logicalCalls := ledger.usage.logicalCalls + (if logicalReserved then 0 else 1)
    usage.attempts := ledger.usage.attempts + 1
    usage.tokensReserved := ledger.usage.tokensReserved + tokens }

/-- The ledger's own accounting is well formed. -/
def accountingOk : Bool :=
  decide (ledger.usage.tokensReserved ≤ maxSafeInteger) &&
  decide (ledger.usage.tokensUsed ≤ maxSafeInteger) &&
  decide (ledger.usage.inputTokensUsed ≤ maxSafeInteger) &&
  decide (ledger.usage.outputTokensUsed ≤ maxSafeInteger) &&
  CostNumber.isFinite ledger.usage.costUsd &&
  CostNumber.le CostNumber.zero ledger.usage.costUsd &&
  decide (ledger.usage.providerDurationMs ≤ maxSafeInteger)

/-- What one settlement may add to the ledger. -/
def reportOk (actualTokens inputTokens outputTokens : Nat) (costUsd : C) (durationMs : Nat) : Bool :=
  decide (actualTokens ≤ maxCallTokens) && decide (inputTokens ≤ maxCallTokens) &&
  decide (outputTokens ≤ maxCallTokens) && decide (inputTokens + outputTokens ≤ actualTokens) &&
  CostNumber.isFinite costUsd && CostNumber.le CostNumber.zero costUsd &&
  CostNumber.le costUsd (CostNumber.ofNat maxCallCostUsd) && decide (durationMs ≤ maxCallDurationMs) &&
  decide (ledger.usage.tokensUsed + actualTokens ≤ maxSafeInteger) &&
  decide (ledger.usage.inputTokensUsed + inputTokens ≤ maxSafeInteger) &&
  decide (ledger.usage.outputTokensUsed + outputTokens ≤ maxSafeInteger) &&
  decide (ledger.usage.providerDurationMs + durationMs ≤ maxSafeInteger) &&
  CostNumber.isFinite (CostNumber.add ledger.usage.costUsd costUsd)

def settleAccounting (reservedTokens actualTokens inputTokens outputTokens : Nat) (costUsd : C)
    (durationMs : Nat) : Except CallError (Ledger C) :=
  if ledger.accountingOk = false then
    .error ⟨js "INVALID_RESULT", js "invalid ledger accounting"⟩
  else if ledger.usage.tokensReserved < reservedTokens then
    .error ⟨js "INVALID_RESULT", js "invalid token reservation settlement"⟩
  else if ledger.reportOk actualTokens inputTokens outputTokens costUsd durationMs = false then
    .error ⟨js "INVALID_RESULT", js "invalid reported provider usage"⟩
  else .ok { ledger with
    usage.tokensReserved := ledger.usage.tokensReserved - reservedTokens
    usage.tokensUsed := ledger.usage.tokensUsed + actualTokens
    usage.inputTokensUsed := ledger.usage.inputTokensUsed + inputTokens
    usage.outputTokensUsed := ledger.usage.outputTokensUsed + outputTokens
    usage.costUsd := CostNumber.add ledger.usage.costUsd costUsd
    usage.providerDurationMs := ledger.usage.providerDurationMs + durationMs }

/-- Settle an attempt by its tokens alone. -/
def settleAttempt (reservedTokens actualTokens : Nat) : Except CallError (Ledger C) :=
  ledger.settleAccounting reservedTokens actualTokens 0 0 CostNumber.zero 0

end Ledger

namespace CallUsage

variable (usage : CallUsage C)

omit [CostNumber C] in
def input : Nat := usage.inputTokens.getD 0

omit [CostNumber C] in
def output : Nat := usage.outputTokens.getD 0

omit [CostNumber C] in
/-- The reported total, or the sum of the parts. -/
def total : Nat := usage.totalTokens.getD (usage.input + usage.output)

def cost : C := usage.costUsd.getD CostNumber.zero

end CallUsage

namespace Ledger

variable (ledger : Ledger C)

/-- Settle all provider-reported accounting for one reserved attempt. -/
def settleAttemptUsage (reservedTokens : Nat) (usage : CallUsage C) : Except CallError (Ledger C) :=
  ledger.settleAccounting reservedTokens usage.total usage.input usage.output usage.cost
    usage.durationMs

omit [CostNumber C] in
/-- Try to acquire a leaf concurrency slot; `none` is saturation. -/
def acquireLeaf : Option (Ledger C) :=
  if ledger.limits.maxConcurrency < ledger.usage.activeLeafCalls + 1 then none
  else some { ledger with usage.activeLeafCalls := ledger.usage.activeLeafCalls + 1 }

omit [CostNumber C] in
def releaseLeaf : Ledger C :=
  { ledger with usage.activeLeafCalls := ledger.usage.activeLeafCalls - 1 }

-- ============================================================================
-- What a successful operation does
-- ============================================================================

variable {ledger} {ledger' : Ledger C} {now : Int} {tokens reservedTokens : Nat}

omit [CostNumber C] in
theorem reserveLogicalCall_ok (h : ledger.reserveLogicalCall now = .ok ledger') :
    ledger' = { ledger with usage.logicalCalls := ledger.usage.logicalCalls + 1 } := by
  unfold reserveLogicalCall at h
  split at h
  · exact absurd h nofun
  · split at h
    · exact absurd h nofun
    · exact (Except.ok.inj h).symm

omit [CostNumber C] in
theorem reserveAttempt_ok (h : ledger.reserveAttempt now tokens = .ok ledger') :
    ledger.usage.tokensReserved + tokens ≤ maxSafeInteger ∧
      ledger' = { ledger with
        usage.attempts := ledger.usage.attempts + 1
        usage.tokensReserved := ledger.usage.tokensReserved + tokens } := by
  unfold reserveAttempt at h
  split at h
  · exact absurd h nofun
  · split at h
    · exact absurd h nofun
    · split at h
      · exact absurd h nofun
      · split at h
        · exact absurd h nofun
        · split at h
          · exact absurd h nofun
          · rename_i hsafe
            split at h
            · exact absurd h nofun
            · exact ⟨not_lt.mp hsafe, (Except.ok.inj h).symm⟩

theorem accountingOk_iff : ledger.accountingOk = true ↔
    ledger.usage.tokensReserved ≤ maxSafeInteger ∧ ledger.usage.tokensUsed ≤ maxSafeInteger ∧
    ledger.usage.inputTokensUsed ≤ maxSafeInteger ∧
    ledger.usage.outputTokensUsed ≤ maxSafeInteger ∧
    CostNumber.isFinite ledger.usage.costUsd = true ∧
    CostNumber.le CostNumber.zero ledger.usage.costUsd = true ∧
    ledger.usage.providerDurationMs ≤ maxSafeInteger := by
  simp only [accountingOk, Bool.and_eq_true, decide_eq_true_eq, and_assoc]

/-- A settlement that is accepted, as an update of the ledger. -/
theorem settleAccounting_ok {actual input output duration : Nat} {cost : C}
    (h : ledger.settleAccounting reservedTokens actual input output cost duration = .ok ledger') :
    reservedTokens ≤ ledger.usage.tokensReserved ∧ ledger'.accountingOk = true ∧
      ledger' = { ledger with
        usage.tokensReserved := ledger.usage.tokensReserved - reservedTokens
        usage.tokensUsed := ledger.usage.tokensUsed + actual
        usage.inputTokensUsed := ledger.usage.inputTokensUsed + input
        usage.outputTokensUsed := ledger.usage.outputTokensUsed + output
        usage.costUsd := CostNumber.add ledger.usage.costUsd cost
        usage.providerDurationMs := ledger.usage.providerDurationMs + duration } := by
  unfold settleAccounting at h
  split at h
  · exact absurd h nofun
  · rename_i haccounting
    split at h
    · exact absurd h nofun
    · rename_i hreserved
      split at h
      · exact absurd h nofun
      · rename_i hreport
        obtain rfl := Except.ok.inj h
        refine ⟨not_lt.mp hreserved, ?_, rfl⟩
        obtain ⟨htokens, -, -, -, -, hcost, -⟩ :=
          accountingOk_iff.mp (Bool.not_eq_false _ ▸ haccounting)
        have hreport := Bool.not_eq_false _ ▸ hreport
        simp only [reportOk, Bool.and_eq_true, decide_eq_true_eq] at hreport
        obtain ⟨⟨⟨⟨⟨⟨⟨-, hzero⟩, -⟩, -⟩, hused⟩, hinput⟩, houtput⟩, hduration⟩ := hreport.1
        exact accountingOk_iff.mpr ⟨(Nat.sub_le _ _).trans htokens, hused, hinput, houtput,
          hreport.2, CostNumber.le_zero_add _ _ hcost hzero, hduration⟩

/-- A usage that may be reported is accepted, when its reservation is held. -/
theorem settleAttemptUsage_of_reportOk {usage : CallUsage C}
    (haccounting : ledger.accountingOk = true)
    (hreserved : reservedTokens ≤ ledger.usage.tokensReserved)
    (hreport : ledger.reportOk usage.total usage.input usage.output usage.cost usage.durationMs =
      true) :
    ∃ ledger', ledger.settleAttemptUsage reservedTokens usage = .ok ledger' := by
  unfold settleAttemptUsage settleAccounting
  rw [if_neg (ne_false_of_eq_true haccounting), if_neg (not_lt.mpr hreserved),
    if_neg (ne_false_of_eq_true hreport)]
  exact ⟨_, rfl⟩

/-- A reservation can always be given back without usage. -/
theorem settleAttempt_zero (haccounting : ledger.accountingOk = true)
    (hreserved : reservedTokens ≤ ledger.usage.tokensReserved) :
    ∃ ledger', ledger.settleAttempt reservedTokens 0 = .ok ledger' := by
  have hvalid := accountingOk_iff.mp haccounting
  have hreport : ledger.reportOk 0 0 0 CostNumber.zero 0 = true := by
    simp only [reportOk, Nat.add_zero, Nat.zero_le, decide_true, Bool.true_and, Bool.and_eq_true,
      decide_eq_true_eq, and_assoc]
    obtain ⟨-, hused, hinput, houtput, hfinite, -, hduration⟩ := hvalid
    refine ⟨CostNumber.isFinite_zero, CostNumber.le_zero_zero, CostNumber.le_zero_ofNat _,
      trivial, hused, hinput, houtput, hduration, CostNumber.isFinite_add_zero _ hfinite⟩
  have hsettled : ∃ ledger', ledger.settleAttemptUsage reservedTokens zeroCallUsage = .ok ledger' :=
    settleAttemptUsage_of_reportOk haccounting hreserved hreport
  exact hsettled

omit [CostNumber C] in
theorem acquireLeaf_some (h : ledger.acquireLeaf = some ledger') :
    ledger' = { ledger with usage.activeLeafCalls := ledger.usage.activeLeafCalls + 1 } := by
  unfold acquireLeaf at h
  split at h
  · exact absurd h nofun
  · exact (Option.some.inj h).symm

end Ledger

end PiRlm.Core

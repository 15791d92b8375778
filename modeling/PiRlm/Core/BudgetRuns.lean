/-
  PiRlm.Core.BudgetRuns

  Every run of ledger operations stays within the limits.

  The operations of `core/budget.ts` are called with any numbers.  An argument that does
  not pass the check of an operation fails the call; one that does is a natural number, and
  the call is the operation of `PiRlm.Core.Budget`.
-/
import Mathlib
import PiRlm.Core.Budget

namespace PiRlm.Core

open PiRlm.Lib

-- ============================================================================
-- Arguments
-- ============================================================================

/-- A number that a caller passes. -/
inductive Argument where
  | nan
  | infinity (positive : Bool)
  | finite (value : ℚ)
  deriving DecidableEq

namespace Argument

/-- `Number.isSafeInteger(x) && x >= 0`, with the value. -/
def natural? : Argument → Option Nat
  | .finite value =>
    if value.den = 1 ∧ 0 ≤ value.num ∧ value.num ≤ maxSafeInteger then some value.num.toNat
    else none
  | _ => none

/-- `x > limit`. -/
def exceeds (limit : Nat) : Argument → Bool
  | .nan => false
  | .infinity positive => positive
  | .finite value => decide ((limit : ℚ) < value)

/-- `x >= deadline`. -/
def reaches (deadline : Int) : Argument → Bool
  | .nan => false
  | .infinity positive => positive
  | .finite value => decide ((deadline : ℚ) ≤ value)

/-- `x + y`.  The sum is rounded only where no check accepts it. -/
def add : Argument → Argument → Argument
  | .finite x, .finite y => .finite (x + y)
  | .finite _, .infinity positive => .infinity positive
  | .infinity positive, .finite _ => .infinity positive
  | .infinity left, .infinity right => if left = right then .infinity left else .nan
  | _, _ => .nan

/-- A whole number of milliseconds that is past a deadline when the clock is. -/
def clock (now : Argument) (deadline : Int) : Int :=
  if now.reaches deadline then deadline else deadline - 1

def ofNat (n : Nat) : Argument := .finite n

end Argument

-- ============================================================================
-- Operations with any arguments
-- ============================================================================

variable {C : Type} [CostNumber C]

inductive TurnError where
  | controllerTurnsExhausted | deadline
  deriving Repr, DecidableEq

/-- What a call that does not succeed gives. -/
inductive LedgerFailure where
  | call (error : CallError)
  | turn (error : TurnError)
  | saturated
  | thrown (message : JsString)
  deriving Repr, DecidableEq

/-- A usage as a provider reports it. -/
structure ReportedUsage (C : Type) where
  inputTokens : Option Argument
  outputTokens : Option Argument
  totalTokens : Option Argument
  costUsd : Option C
  durationMs : Argument

inductive LedgerOperation (C : Type) where
  | openFrame (childDepth : Argument) (text : JsString)
  | reserveControllerTurn (now : Argument)
  | reserveLogicalCall (now : Argument)
  | releaseLogicalCall
  | reserveAttempt (now reserveTokens : Argument)
  | settleAttempt (reservedTokens actualTokens : Argument)
  | settleAttemptUsage (reservedTokens : Argument) (usage : ReportedUsage C)
  | acquireLeaf
  | releaseLeaf
  | reserveBytes (bytes : Argument)
  | releaseBytes (bytes : Argument)

def callFailure {α : Type} (code : JsString) (message : JsString) : Except LedgerFailure α :=
  .error (.call ⟨code, message⟩)

/-- A typed result of the core. -/
def lifted {α : Type} : Except CallError α → Except LedgerFailure α
  | .ok a => .ok a
  | .error e => .error (.call e)

namespace Ledger

variable (ledger : Ledger C)

omit [CostNumber C] in
/-- Open a child frame at any depth; the text is the depth in the message. -/
def openFrameAt (childDepth : Argument) (text : JsString) : Except LedgerFailure (Ledger C) :=
  if childDepth.exceeds ledger.limits.maxDepth then
    callFailure (js "BUDGET_DEPTH") (js "depth " ++ text ++ js " exceeds max " ++
      decimal ledger.limits.maxDepth)
  else lifted (ledger.openFrame 0)

omit [CostNumber C] in
/-- Reserve one controller provider response. -/
def reserveControllerTurn (now : Argument) : Except LedgerFailure (Ledger C) :=
  if now.reaches ledger.limits.deadlineMs then .error (.turn .deadline)
  else if ledger.limits.maxControllerTurns < ledger.usage.controllerTurns + 1 then
    .error (.turn .controllerTurnsExhausted)
  else .ok { ledger with usage.controllerTurns := ledger.usage.controllerTurns + 1 }

omit [CostNumber C] in
def releaseLogicalCall : Ledger C :=
  { ledger with usage.logicalCalls := ledger.usage.logicalCalls - 1 }

omit [CostNumber C] in
def reserveAttemptAt (now reserveTokens : Argument) : Except LedgerFailure (Ledger C) :=
  match reserveTokens.natural? with
  | some tokens => lifted (ledger.reserveAttempt (now.clock ledger.limits.deadlineMs) tokens)
  | none =>
    if now.reaches ledger.limits.deadlineMs then
      callFailure (js "BUDGET_DEADLINE") (js "run deadline reached")
    else callFailure (js "INVALID_REQUEST") (js "invalid attempt token reservation")

/-- `settleAccounting`: the ledger is checked before the reservation, and the reservation
    before the report. -/
def settleAccountingAt (reservedTokens actualTokens inputTokens outputTokens : Argument) (costUsd : C)
    (durationMs : Argument) : Except LedgerFailure (Ledger C) :=
  if ledger.accountingOk = false then
    callFailure (js "INVALID_RESULT") (js "invalid ledger accounting")
  else
    match reservedTokens.natural? with
    | none => callFailure (js "INVALID_RESULT") (js "invalid token reservation settlement")
    | some reserved =>
      if ledger.usage.tokensReserved < reserved then
        callFailure (js "INVALID_RESULT") (js "invalid token reservation settlement")
      else
        match actualTokens.natural?, inputTokens.natural?, outputTokens.natural?,
            durationMs.natural? with
        | some actual, some input, some output, some duration =>
          lifted (ledger.settleAccounting reserved actual input output costUsd duration)
        | _, _, _, _ => callFailure (js "INVALID_RESULT") (js "invalid reported provider usage")

def settleAttemptUsageAt (reservedTokens : Argument) (usage : ReportedUsage C) :
    Except LedgerFailure (Ledger C) :=
  let input := usage.inputTokens.getD (.ofNat 0)
  let output := usage.outputTokens.getD (.ofNat 0)
  ledger.settleAccountingAt reservedTokens (usage.totalTokens.getD (input.add output)) input output
    (usage.costUsd.getD CostNumber.zero) usage.durationMs

omit [CostNumber C] in
/-- Reserve a retained-byte delta. -/
def reserveBytes (bytes : Argument) : Except LedgerFailure (Ledger C) :=
  match bytes.natural? with
  | none => callFailure (js "INVALID_RESULT") (js "invalid stored-byte accounting")
  | some bytes =>
    if maxSafeInteger < ledger.usage.storedBytes then
      callFailure (js "INVALID_RESULT") (js "invalid stored-byte accounting")
    else if (ledger.limits.storedByteLimit : Int) - ledger.usage.storedBytes < bytes then
      callFailure (js "BUDGET_BYTES")
        (js "stored byte limit " ++ decimal ledger.limits.storedByteLimit ++ js " reached")
    else .ok { ledger with usage.storedBytes := ledger.usage.storedBytes + bytes }

omit [CostNumber C] in
/-- Give a reservation of bytes back. -/
def releaseBytes (bytes : Argument) : Except LedgerFailure (Ledger C) :=
  match bytes.natural? with
  | none => .error (.thrown (js "invalid stored-byte reservation rollback"))
  | some bytes =>
    if ledger.usage.storedBytes < bytes then
      .error (.thrown (js "invalid stored-byte reservation rollback"))
    else .ok { ledger with usage.storedBytes := ledger.usage.storedBytes - bytes }

/-- One call. -/
def perform : LedgerOperation C → Except LedgerFailure (Ledger C)
  | .openFrame childDepth text => ledger.openFrameAt childDepth text
  | .reserveControllerTurn now => ledger.reserveControllerTurn now
  | .reserveLogicalCall now =>
    lifted (ledger.reserveLogicalCall (now.clock ledger.limits.deadlineMs))
  | .releaseLogicalCall => .ok ledger.releaseLogicalCall
  | .reserveAttempt now reserveTokens => ledger.reserveAttemptAt now reserveTokens
  | .settleAttempt reservedTokens actualTokens =>
    ledger.settleAccountingAt reservedTokens actualTokens (.ofNat 0) (.ofNat 0) CostNumber.zero
      (.ofNat 0)
  | .settleAttemptUsage reservedTokens usage => ledger.settleAttemptUsageAt reservedTokens usage
  | .acquireLeaf =>
    match ledger.acquireLeaf with
    | some ledger' => .ok ledger'
    | none => .error .saturated
  | .releaseLeaf => .ok ledger.releaseLeaf
  | .reserveBytes bytes => ledger.reserveBytes bytes
  | .releaseBytes bytes => ledger.releaseBytes bytes

/-- The ledger after one call; a call that fails leaves it as it is. -/
def next (operation : LedgerOperation C) : Ledger C :=
  match ledger.perform operation with
  | .ok ledger' => ledger'
  | .error _ => ledger

/-- The ledger after a sequence of calls. -/
def run (operations : List (LedgerOperation C)) : Ledger C :=
  operations.foldl next ledger

end Ledger

-- ============================================================================
-- The invariant
-- ============================================================================

/-- The counts among the limits are safe integers. -/
structure BudgetLimits.Valid (limits : BudgetLimits) : Prop where
  maxFrames : limits.maxFrames ≤ maxSafeInteger
  maxLogicalCalls : limits.maxLogicalCalls ≤ maxSafeInteger
  maxAttempts : limits.maxAttempts ≤ maxSafeInteger
  maxControllerTurns : limits.maxControllerTurns ≤ maxSafeInteger
  maxConcurrency : limits.maxConcurrency ≤ maxSafeInteger
  storedByteLimit : limits.storedByteLimit ≤ maxSafeInteger

namespace Ledger

/-- The counters are within the limits, the amounts are safe, and what has been reported as
    input and output is part of the total. -/
structure Within (ledger : Ledger C) : Prop where
  framesOpened : ledger.usage.framesOpened ≤ ledger.limits.maxFrames
  logicalCalls : ledger.usage.logicalCalls ≤ ledger.limits.maxLogicalCalls
  attempts : ledger.usage.attempts ≤ ledger.limits.maxAttempts
  controllerTurns : ledger.usage.controllerTurns ≤ ledger.limits.maxControllerTurns
  activeLeafCalls : ledger.usage.activeLeafCalls ≤ ledger.limits.maxConcurrency
  storedBytes : ledger.usage.storedBytes ≤ ledger.limits.storedByteLimit
  accounting : ledger.accountingOk = true
  parts : ledger.usage.inputTokensUsed + ledger.usage.outputTokensUsed ≤ ledger.usage.tokensUsed

theorem within_createLedger (limits : BudgetLimits) : (createLedger (C := C) limits).Within where
  framesOpened := Nat.zero_le _
  logicalCalls := Nat.zero_le _
  attempts := Nat.zero_le _
  controllerTurns := Nat.zero_le _
  activeLeafCalls := Nat.zero_le _
  storedBytes := Nat.zero_le _
  accounting := accountingOk_iff.mpr ⟨Nat.zero_le _, Nat.zero_le _, Nat.zero_le _, Nat.zero_le _,
    CostNumber.isFinite_zero, CostNumber.le_zero_zero, Nat.zero_le _⟩
  parts := Nat.le_refl 0

-- ============================================================================
-- What a call that succeeds does
-- ============================================================================

section Calls

variable {ledger ledger' : Ledger C}

theorem lifted_eq_ok {α : Type} {x : Except CallError α} {a : α} :
    lifted x = .ok a ↔ x = .ok a := by
  cases x with
  | ok b => exact ⟨fun h => congrArg Except.ok (Except.ok.inj h),
      fun h => congrArg Except.ok (Except.ok.inj h)⟩
  | error e => exact ⟨nofun, nofun⟩

omit [CostNumber C] in
theorem openFrame_ok {childDepth : Nat} (h : ledger.openFrame childDepth = .ok ledger') :
    ledger.usage.framesOpened + 1 ≤ ledger.limits.maxFrames ∧
      ledger' = { ledger with usage.framesOpened := ledger.usage.framesOpened + 1 } := by
  rw [openFrame] at h
  split at h
  · exact absurd h nofun
  · split at h
    · exact absurd h nofun
    · rename_i hframes
      exact ⟨not_lt.mp hframes, (Except.ok.inj h).symm⟩

omit [CostNumber C] in
theorem reserveLogicalCall_bound {now : Int} (h : ledger.reserveLogicalCall now = .ok ledger') :
    ledger.usage.logicalCalls + 1 ≤ ledger.limits.maxLogicalCalls := by
  rw [reserveLogicalCall] at h
  split at h
  · exact absurd h nofun
  · split at h
    · exact absurd h nofun
    · rename_i hcalls
      exact not_lt.mp hcalls

omit [CostNumber C] in
/-- The limits that a reservation has been checked against. -/
theorem reserveAttempt_bounds {now : Int} {tokens : Nat}
    (h : ledger.reserveAttempt now tokens = .ok ledger') :
    ledger.usage.attempts + 1 ≤ ledger.limits.maxAttempts ∧
      ∀ limit ∈ ledger.limits.tokenLimit,
        ledger'.usage.tokensUsed + ledger'.usage.tokensReserved ≤ limit := by
  obtain ⟨-, hledger⟩ := reserveAttempt_ok h
  rw [reserveAttempt] at h
  split at h
  · exact absurd h nofun
  · split at h
    · exact absurd h nofun
    · split at h
      · exact absurd h nofun
      · split at h
        · exact absurd h nofun
        · rename_i hattempts
          split at h
          · exact absurd h nofun
          · split at h
            · exact absurd h nofun
            · rename_i htokens
              refine ⟨not_le.mp hattempts, fun limit hlimit => ?_⟩
              rw [hledger]
              exact not_lt.mp fun hlt => htokens ⟨limit, hlimit, hlt⟩

omit [CostNumber C] in
theorem reserveControllerTurn_ok {now : Argument}
    (h : ledger.reserveControllerTurn now = .ok ledger') :
    ledger.usage.controllerTurns + 1 ≤ ledger.limits.maxControllerTurns ∧
      ledger' = { ledger with usage.controllerTurns := ledger.usage.controllerTurns + 1 } := by
  rw [reserveControllerTurn] at h
  split at h
  · exact absurd h nofun
  · split at h
    · exact absurd h nofun
    · rename_i hturns
      exact ⟨not_lt.mp hturns, (Except.ok.inj h).symm⟩

omit [CostNumber C] in
theorem acquireLeaf_bound (h : ledger.acquireLeaf = some ledger') :
    ledger.usage.activeLeafCalls + 1 ≤ ledger.limits.maxConcurrency := by
  rw [acquireLeaf] at h
  split at h
  · exact absurd h nofun
  · rename_i hleaves
    exact not_lt.mp hleaves

omit [CostNumber C] in
theorem reserveBytes_ok {bytes : Argument} (h : ledger.reserveBytes bytes = .ok ledger') :
    ∃ n, ledger.usage.storedBytes + n ≤ ledger.limits.storedByteLimit ∧
      ledger' = { ledger with usage.storedBytes := ledger.usage.storedBytes + n } := by
  rw [reserveBytes] at h
  split at h
  · exact absurd h nofun
  · rename_i n _
    split at h
    · exact absurd h nofun
    · split at h
      · exact absurd h nofun
      · exact ⟨n, by omega, (Except.ok.inj h).symm⟩

omit [CostNumber C] in
theorem releaseBytes_ok {bytes : Argument} (h : ledger.releaseBytes bytes = .ok ledger') :
    ∃ n, ledger' = { ledger with usage.storedBytes := ledger.usage.storedBytes - n } := by
  rw [releaseBytes] at h
  split at h
  · exact absurd h nofun
  · rename_i n _
    split at h
    · exact absurd h nofun
    · exact ⟨n, (Except.ok.inj h).symm⟩

/-- A settlement is of natural numbers. -/
theorem settleAccountingAt_ok {reservedTokens actualTokens inputTokens outputTokens : Argument}
    {costUsd : C} {durationMs : Argument}
    (h : ledger.settleAccountingAt reservedTokens actualTokens inputTokens outputTokens costUsd
      durationMs = .ok ledger') :
    ∃ reserved actual input output duration,
      ledger.settleAccounting reserved actual input output costUsd duration = .ok ledger' := by
  rw [settleAccountingAt] at h
  split at h
  · exact absurd h nofun
  · split at h
    · exact absurd h nofun
    · rename_i reserved _
      split at h
      · exact absurd h nofun
      · split at h
        · rename_i actual input output duration _ _ _ _
          exact ⟨reserved, actual, input, output, duration, lifted_eq_ok.mp h⟩
        · exact absurd h nofun

/-- The input and the output that a settlement reports are part of its total. -/
theorem settleAccounting_parts {reserved actual input output duration : Nat} {cost : C}
    (h : ledger.settleAccounting reserved actual input output cost duration = .ok ledger') :
    input + output ≤ actual := by
  rw [settleAccounting] at h
  split at h
  · exact absurd h nofun
  · split at h
    · exact absurd h nofun
    · split at h
      · exact absurd h nofun
      · rename_i hreport
        have hreport := Bool.not_eq_false _ ▸ hreport
        simp only [reportOk, Bool.and_eq_true, decide_eq_true_eq] at hreport
        exact hreport.1.1.1.1.1.1.1.1.1.2

end Calls

-- ============================================================================
-- One call keeps the invariant
-- ============================================================================

variable {ledger ledger' : Ledger C}

/-- A settlement changes amounts only, and leaves them sound. -/
theorem Within.settle (h : ledger.Within) {reserved actual input output duration : Nat} {cost : C}
    (hsettled : ledger.settleAccounting reserved actual input output cost duration = .ok ledger') :
    ledger'.limits = ledger.limits ∧ ledger'.Within := by
  have hparts := settleAccounting_parts hsettled
  obtain ⟨-, haccounting, hledger⟩ := settleAccounting_ok hsettled
  have hsum := h.parts
  subst hledger
  exact ⟨rfl,
    { framesOpened := h.framesOpened
      logicalCalls := h.logicalCalls
      attempts := h.attempts
      controllerTurns := h.controllerTurns
      activeLeafCalls := h.activeLeafCalls
      storedBytes := h.storedBytes
      accounting := haccounting
      parts := by
        show ledger.usage.inputTokensUsed + input + (ledger.usage.outputTokensUsed + output) ≤
          ledger.usage.tokensUsed + actual
        omega }⟩

theorem Within.perform (h : ledger.Within) {operation : LedgerOperation C}
    (hok : ledger.perform operation = .ok ledger') :
    ledger'.limits = ledger.limits ∧ ledger'.Within := by
  cases operation with
  | openFrame childDepth text =>
    rw [Ledger.perform, openFrameAt] at hok
    split at hok
    · exact absurd hok nofun
    · obtain ⟨hframes, rfl⟩ := openFrame_ok (lifted_eq_ok.mp hok)
      exact ⟨rfl, { h with framesOpened := hframes }⟩
  | reserveControllerTurn now =>
    obtain ⟨hturns, rfl⟩ := reserveControllerTurn_ok hok
    exact ⟨rfl, { h with controllerTurns := hturns }⟩
  | reserveLogicalCall now =>
    have hreserved := lifted_eq_ok.mp hok
    have hcalls := reserveLogicalCall_bound hreserved
    obtain rfl := reserveLogicalCall_ok hreserved
    exact ⟨rfl, { h with logicalCalls := hcalls }⟩
  | releaseLogicalCall =>
    obtain rfl := Except.ok.inj hok
    exact ⟨rfl, { h with logicalCalls := (Nat.sub_le _ _).trans h.logicalCalls }⟩
  | reserveAttempt now reserveTokens =>
    rw [Ledger.perform, reserveAttemptAt] at hok
    split at hok
    · have hreserved := lifted_eq_ok.mp hok
      have hattempts := (reserveAttempt_bounds hreserved).1
      obtain ⟨hsafe, rfl⟩ := reserveAttempt_ok hreserved
      obtain ⟨-, hamounts⟩ := accountingOk_iff.mp h.accounting
      exact ⟨rfl, { h with
        attempts := hattempts
        accounting := accountingOk_iff.mpr ⟨hsafe, hamounts⟩ }⟩
    · split at hok
      · exact absurd hok nofun
      · exact absurd hok nofun
  | settleAttempt reservedTokens actualTokens =>
    obtain ⟨_, _, _, _, _, hsettled⟩ := settleAccountingAt_ok hok
    exact h.settle hsettled
  | settleAttemptUsage reservedTokens usage =>
    obtain ⟨_, _, _, _, _, hsettled⟩ := settleAccountingAt_ok hok
    exact h.settle hsettled
  | acquireLeaf =>
    rw [Ledger.perform] at hok
    split at hok
    · rename_i hacquired
      obtain rfl := Except.ok.inj hok
      have hleaves := acquireLeaf_bound hacquired
      obtain rfl := acquireLeaf_some hacquired
      exact ⟨rfl, { h with activeLeafCalls := hleaves }⟩
    · exact absurd hok nofun
  | releaseLeaf =>
    obtain rfl := Except.ok.inj hok
    exact ⟨rfl, { h with activeLeafCalls := (Nat.sub_le _ _).trans h.activeLeafCalls }⟩
  | reserveBytes bytes =>
    obtain ⟨n, hbytes, rfl⟩ := reserveBytes_ok hok
    exact ⟨rfl, { h with storedBytes := hbytes }⟩
  | releaseBytes bytes =>
    obtain ⟨n, rfl⟩ := releaseBytes_ok hok
    exact ⟨rfl, { h with storedBytes := (Nat.sub_le _ _).trans h.storedBytes }⟩

theorem Within.next (h : ledger.Within) (operation : LedgerOperation C) :
    (ledger.next operation).limits = ledger.limits ∧ (ledger.next operation).Within := by
  rw [Ledger.next]
  split
  · rename_i hok
    exact h.perform hok
  · exact ⟨rfl, h⟩

theorem Within.run (h : ledger.Within) (operations : List (LedgerOperation C)) :
    (ledger.run operations).limits = ledger.limits ∧ (ledger.run operations).Within := by
  induction operations generalizing ledger with
  | nil => exact ⟨rfl, h⟩
  | cons operation operations ih =>
    obtain ⟨hlimits, hnext⟩ := h.next operation
    obtain ⟨hrest, hwithin⟩ := ih hnext
    exact ⟨hrest.trans hlimits, hwithin⟩

-- ============================================================================
-- Runs
-- ============================================================================

/-- Every counter is a safe integer. -/
structure Safe (ledger : Ledger C) : Prop where
  framesOpened : ledger.usage.framesOpened ≤ maxSafeInteger
  logicalCalls : ledger.usage.logicalCalls ≤ maxSafeInteger
  attempts : ledger.usage.attempts ≤ maxSafeInteger
  controllerTurns : ledger.usage.controllerTurns ≤ maxSafeInteger
  activeLeafCalls : ledger.usage.activeLeafCalls ≤ maxSafeInteger
  tokensReserved : ledger.usage.tokensReserved ≤ maxSafeInteger
  tokensUsed : ledger.usage.tokensUsed ≤ maxSafeInteger
  inputTokensUsed : ledger.usage.inputTokensUsed ≤ maxSafeInteger
  outputTokensUsed : ledger.usage.outputTokensUsed ≤ maxSafeInteger
  providerDurationMs : ledger.usage.providerDurationMs ≤ maxSafeInteger
  storedBytes : ledger.usage.storedBytes ≤ maxSafeInteger

theorem Within.safe (h : ledger.Within) (hlimits : ledger.limits.Valid) : ledger.Safe := by
  obtain ⟨hreserved, hused, hinput, houtput, -, -, hduration⟩ := accountingOk_iff.mp h.accounting
  exact
    { framesOpened := h.framesOpened.trans hlimits.maxFrames
      logicalCalls := h.logicalCalls.trans hlimits.maxLogicalCalls
      attempts := h.attempts.trans hlimits.maxAttempts
      controllerTurns := h.controllerTurns.trans hlimits.maxControllerTurns
      activeLeafCalls := h.activeLeafCalls.trans hlimits.maxConcurrency
      tokensReserved := hreserved
      tokensUsed := hused
      inputTokensUsed := hinput
      outputTokensUsed := houtput
      providerDurationMs := hduration
      storedBytes := h.storedBytes.trans hlimits.storedByteLimit }

/-- Whatever has been called with whatever arguments, the counters are within the limits and
    safe, and the next reservation that succeeds is within the token limit. -/
theorem run_createLedger {limits : BudgetLimits} (hlimits : limits.Valid)
    (operations : List (LedgerOperation C)) :
    let ledger := (createLedger limits).run operations
    ledger.limits = limits ∧ ledger.Within ∧ ledger.Safe ∧
      ∀ now reserveTokens ledger', ledger.perform (.reserveAttempt now reserveTokens) = .ok ledger' →
        ∀ limit ∈ limits.tokenLimit,
          ledger'.usage.tokensUsed + ledger'.usage.tokensReserved ≤ limit := by
  obtain ⟨hsame, hwithin⟩ := (within_createLedger (C := C) limits).run operations
  replace hsame : ((createLedger limits).run operations).limits = limits := hsame
  refine ⟨hsame, hwithin, hwithin.safe (by rwa [hsame]), ?_⟩
  intro now reserveTokens ledger' hok limit hlimit
  rw [Ledger.perform, reserveAttemptAt] at hok
  split at hok
  · exact (reserveAttempt_bounds (lifted_eq_ok.mp hok)).2 limit (by rwa [hsame])
  · split at hok
    · exact absurd hok nofun
    · exact absurd hok nofun

/-- A ledger for ten tokens, of which two attempts reserve six. -/
def smallLimits : BudgetLimits where
  maxDepth := 1
  maxFrames := 1
  maxLogicalCalls := 1
  maxAttempts := 3
  maxControllerTurns := 1
  maxConcurrency := 1
  tokenLimit := some 10
  storedByteLimit := 100
  deadlineMs := 1000

/-- The first of two attempts uses more than it has reserved; a third one that would exceed
    the limit is refused, and one that just fits is not. -/
theorem run_smallLimits :
    let operations : List (LedgerOperation ℚ) :=
      [.reserveAttempt (.ofNat 1) (.ofNat 2), .reserveAttempt (.ofNat 2) (.ofNat 4),
        .settleAttempt (.ofNat 2) (.ofNat 5), .reserveAttempt (.ofNat 3) (.ofNat 2), .releaseLeaf,
        .openFrame .nan (js "NaN")]
    let ledger := (createLedger smallLimits).run operations
    ledger.usage.attempts = 2 ∧ ledger.usage.tokensUsed = 5 ∧ ledger.usage.tokensReserved = 4 ∧
      (ledger.perform (.reserveAttempt (.ofNat 3) (.ofNat 2))).isOk = false ∧
      (ledger.perform (.reserveAttempt (.ofNat 3) (.ofNat 1))).isOk = true ∧ ledger.Within ∧ ledger.Safe ∧
      ∀ now reserveTokens ledger', ledger.perform (.reserveAttempt now reserveTokens) = .ok ledger' →
        ledger'.usage.tokensUsed + ledger'.usage.tokensReserved ≤ 10 := by
  have hlimits : smallLimits.Valid := by constructor <;> decide
  intro operations ledger
  obtain ⟨-, hwithin, hsafe, htokens⟩ := run_createLedger hlimits operations
  refine ⟨by decide +kernel, by decide +kernel, by decide +kernel, by decide +kernel,
    by decide +kernel, hwithin, hsafe, ?_⟩
  exact fun now reserveTokens ledger' hok => htokens now reserveTokens ledger' hok 10 rfl

end Ledger

end PiRlm.Core

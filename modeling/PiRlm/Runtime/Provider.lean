/-
  PiRlm.Runtime.Provider

  The invocation and accounting boundary of `runtime/provider.ts`, over the semaphore of
  `runtime/semaphore.ts`.

  A step is one synchronous piece of a call, from one `await` to the next.  Its label holds
  what the environment answers there: clock readings, the outcome of an append, what a
  provider returns or throws.  A call goes on as its finalizer when the caller stops
  waiting, so it is in flight until its slot is released.
-/
import Mathlib
import PiRlm.Core.Budget
import PiRlm.Core.Operation
import PiRlm.Lib.Machine
import PiRlm.Shell.Hash

namespace PiRlm.Runtime

open PiRlm.Lib PiRlm.Core

-- ============================================================================
-- Requests
-- ============================================================================

inductive OperationKind where
  | controller | llm | extractor | agent
  deriving Repr, DecidableEq

def OperationKind.text : OperationKind → JsString
  | .controller => js "controller"
  | .llm => js "llm"
  | .extractor => js "extractor"
  | .agent => js "agent"

structure ExternalRequestIdentity where
  version : JsString
  sha256 : JsString
  deriving Repr, DecidableEq

/-- A model request as `prepareModelRequest` leaves it, with the default output cap. -/
structure PreparedRequest where
  prompt : JsString
  system : Option JsString
  context : List JsString
  /-- The canonical text of the schema, where it has one. -/
  schema : Option (Option JsString)
  maxOutputTokens : Int
  canonicalIdentity : JsString
  deriving Repr, DecidableEq

def PreparedRequest.outputCapOk (request : PreparedRequest) : Bool :=
  decide (0 < request.maxOutputTokens) && decide (request.maxOutputTokens ≤ maxCallTokens)

/-- Conservative estimate of a request: its octets, four to a token, and the output cap. -/
def tokenReservation (request : PreparedRequest) : Option Nat :=
  if request.outputCapOk then
    (match request.schema with
    | none => some []
    | some schema => schema.map fun text => [text]).bind fun schema =>
    let inputs := request.prompt :: (request.system.toList ++ request.context ++ schema)
    let inputBytes := (inputs.map fun input => (utf8 input).length).sum
    let inputTokens := (inputBytes + 3) / 4
    let maxOutputTokens := request.maxOutputTokens.toNat
    if inputBytes ≤ maxSafeInteger ∧ inputTokens + maxOutputTokens ≤ maxCallTokens then
      some (inputTokens + maxOutputTokens)
    else none
  else none

inductive Invocation where
  /-- `complete`, with what the preparation and the type checks of its request give. -/
  | complete (request : Except JsString PreparedRequest)
  | runExternal (identity : ExternalRequestIdentity)
  | runExternalReported (identity : ExternalRequestIdentity)

/-- The token reservation of a call, or why it is rejected at once. -/
def Invocation.reservedTokens : Invocation → Except CallError Nat
  | .complete (.error message) => .error ⟨js "INVALID_REQUEST", message⟩
  | .complete (.ok request) =>
    if request.outputCapOk = false then
      .error ⟨js "INVALID_REQUEST",
        js "maxOutputTokens must be a positive safe integer at most " ++ decimal maxCallTokens⟩
    else
      match tokenReservation request with
      | none => .error ⟨js "INVALID_REQUEST", js "call token reservation exceeds per-call maximum"⟩
      | some tokens => .ok tokens
  | .runExternal _ => .ok 0
  | .runExternalReported _ => .ok 0

def Invocation.identity : Invocation → ExternalRequestIdentity
  | .complete (.error _) => ⟨providerRequestIdentityVersion, []⟩
  | .complete (.ok request) =>
    ⟨providerRequestIdentityVersion, Shell.sha256 request.canonicalIdentity⟩
  | .runExternal identity => identity
  | .runExternalReported identity => identity

def Invocation.isComplete : Invocation → Bool
  | .complete _ => true
  | _ => false

/-- The error of a call that leaves the queue without a permit. -/
def Invocation.cancelled : Invocation → CallError
  | .complete _ => ⟨js "CANCELLED", js "model completion cancelled"⟩
  | .runExternal _ => ⟨js "CANCELLED", js "external model operation cancelled"⟩
  | .runExternalReported _ => ⟨js "CANCELLED", js "external operation cancelled"⟩

-- ============================================================================
-- What a provider answers
-- ============================================================================

variable {C : Type} [CostNumber C]

/-- The own properties that are read of a `PiModelError`. -/
structure PiFailure (C : Type) where
  code : Option JsString
  stopReason : Option JsString
  provider : Option JsString
  model : Option JsString
  usage : Option (RawUsage C)
  deriving Repr, DecidableEq

inductive OperationOutcome where
  | ok | error | cancelled | invalidResult
  deriving Repr, DecidableEq

inductive Effect (C : Type) where
  /-- A rejection, which may be an `OperationAbortedError` or a `PiModelError`. -/
  | threw (operationAborted : Bool) (failure : Option (PiFailure C))
  /-- A response of `complete`: whether it has a text, and its usage property. -/
  | response (text : Bool) (usage : Option (Option (RawUsage C)))
  /-- The value of `runExternal`. -/
  | value
  /-- The result of `runExternalReported`; the outcome is `none` where it is no outcome. -/
  | result (usage : Option (Option (RawUsage C))) (outcome : Option OperationOutcome)
      (errorCode : Option JsString)
  deriving Repr, DecidableEq

def usageLimits (wallMs : Nat) : CallUsageLimits C where
  maxAttempts := maxCallAttempts
  maxTokens := maxCallTokens
  maxCostUsd := CostNumber.ofNat maxCallCostUsd
  maxDurationMs := min maxCallDurationMs wallMs

/-- Usage of a provider whose parts must not exceed its total. -/
def normalizeOwnedUsage (value : Option (RawUsage C)) (limits : CallUsageLimits C) :
    Option (CallUsage C) :=
  match normalizeCallUsage value limits with
  | .error _ => none
  | .ok normalized =>
    let usage : CallUsage C := { normalized with attempts := 1 }
    if usage.input + usage.output ≤ maxSafeInteger ∧
        ∀ total ∈ usage.totalTokens, usage.input + usage.output ≤ total then some usage
    else none

def normalizeModelResponse (text : Bool) (usage : Option (Option (RawUsage C)))
    (limits : CallUsageLimits C) : Option (CallUsage C) :=
  match text, usage with
  | true, some value => normalizeOwnedUsage value limits
  | _, _ => none

def errorDetailMaxLength : Nat := 256

def boundedOwnString (value : Option JsString) : Option JsString :=
  value.filter fun s => decide (0 < s.length) && decide (s.length ≤ errorDetailMaxLength)

def piErrorCodes : List JsString :=
  [js "CANCELLED", js "PROVIDER_ERROR", js "OUTPUT_TRUNCATED", js "UNEXPECTED_TOOL_USE",
    js "MISSING_TEXT"]

def piStopReasons : List JsString :=
  [js "stop", js "length", js "toolUse", js "error", js "aborted"]

/-- The code and the usage of a well-formed `PiModelError`. -/
def normalizePiFailure (failure : PiFailure C) (limits : CallUsageLimits C) :
    Option (JsString × CallUsage C) :=
  match boundedOwnString failure.code, boundedOwnString failure.stopReason,
    boundedOwnString failure.provider, boundedOwnString failure.model,
    normalizeOwnedUsage failure.usage limits with
  | some code, some stopReason, some _, some _, some usage =>
    if code ∈ piErrorCodes ∧ stopReason ∈ piStopReasons then some (code, usage) else none
  | _, _, _, _, _ => none

/-- The code of the call error made of a `PiModelError`. -/
def piFailureCode (code : JsString) : JsString :=
  if code = js "CANCELLED" then js "CANCELLED"
  else if code = js "PROVIDER_ERROR" then js "FAILED" else js "INVALID_RESULT"

/-- Whole milliseconds between two clock readings. -/
def elapsedMs (startedMs completedMs : Int) : Nat :=
  min (completedMs - startedMs).toNat maxCallDurationMs

def measuredUsage (startedMs completedMs : Int) : CallUsage C :=
  { zeroCallUsage with attempts := 1, durationMs := elapsedMs startedMs completedMs }

/-- `/^[A-Z][A-Z0-9_]{0,63}$/`. -/
def isErrorCode (s : JsString) : Bool :=
  match s with
  | [] => false
  | u :: rest =>
    isUpper u && decide (rest.length ≤ 63) &&
      rest.all fun v => isUpper v || isDigit v || v == 0x5f
where
  isUpper (u : CodeUnit) : Bool := decide (0x41 ≤ u.val) && decide (u.val ≤ 0x5a)

/-- A usage to account for, and how to settle when the accounting accepts it. -/
structure Observation (C : Type) where
  usage : CallUsage C
  outcome : OperationOutcome
  errorCode : Option JsString
  deriving Repr, DecidableEq

/-- The outcome of a rejected effect. -/
def rejectedOutcome (cancelled : Bool) (usage : CallUsage C) : Observation C :=
  if cancelled then ⟨usage, .cancelled, some (js "CANCELLED")⟩
  else ⟨usage, .error, some (js "FAILED")⟩

def observeComplete (limits : CallUsageLimits C) (signalAborted : Bool) (measured : CallUsage C) :
    Effect C → Option (Observation C)
  | .threw operationAborted failure =>
    match failure.bind fun failure => normalizePiFailure failure limits with
    | some (code, usage) =>
      if piFailureCode code = js "CANCELLED" then some ⟨usage, .cancelled, some (js "CANCELLED")⟩
      else some ⟨usage, .error, some (piFailureCode code)⟩
    | none => some (rejectedOutcome (signalAborted || operationAborted) measured)
  | .response text usage =>
    match normalizeModelResponse text usage limits with
    | none => some ⟨measured, .invalidResult, some (js "INVALID_RESULT")⟩
    | some usage => some ⟨usage, .ok, none⟩
  | _ => none

def observeExternal (signalAborted : Bool) (measured : CallUsage C) :
    Effect C → Option (Observation C)
  | .threw operationAborted _ => some (rejectedOutcome (signalAborted || operationAborted) measured)
  | .value => some ⟨measured, .ok, none⟩
  | _ => none

def observeReported (limits : CallUsageLimits C) (signalAborted : Bool) (measured : CallUsage C) :
    Effect C → Option (Observation C)
  | .threw operationAborted _ => some (rejectedOutcome (signalAborted || operationAborted) measured)
  | .result reported outcome errorCode =>
    match reported.elim (.ok measured) fun value =>
        (normalizeCallUsage value limits).map fun usage => { usage with attempts := 1 } with
    | .error _ => some ⟨measured, .invalidResult, some (js "INVALID_RESULT")⟩
    | .ok usage =>
      match outcome with
      | none => some ⟨usage, .invalidResult, some (js "INVALID_RESULT")⟩
      | some outcome =>
        let validErrorCode := if outcome = .ok then errorCode.isNone else errorCode.any isErrorCode
        if validErrorCode then some ⟨usage, outcome, errorCode⟩
        else some ⟨usage, .invalidResult, some (js "INVALID_RESULT")⟩
  | _ => none

def Invocation.observe (invocation : Invocation) (limits : CallUsageLimits C)
    (signalAborted : Bool) (measured : CallUsage C) (effect : Effect C) : Option (Observation C) :=
  match invocation with
  | .complete _ => observeComplete limits signalAborted measured effect
  | .runExternal _ => observeExternal signalAborted measured effect
  | .runExternalReported _ => observeReported limits signalAborted measured effect

-- ============================================================================
-- The state
-- ============================================================================

structure OperationReservation where
  logicalCalls : Nat
  attempts : Nat
  tokens : Nat
  deriving Repr, DecidableEq

/-- The identity of one attempt.  It stands for the intent id, which is its digest. -/
structure OperationIntent where
  frameId : JsString
  operationId : JsString
  kind : OperationKind
  key : JsString
  attempt : Nat
  requestIdentityVersion : JsString
  requestSha256 : JsString
  reservation : OperationReservation
  deriving Repr, DecidableEq

structure OperationSettled (C : Type) where
  frameId : JsString
  intent : OperationIntent
  outcome : OperationOutcome
  usage : CallUsage C
  errorCode : Option JsString
  deriving Repr, DecidableEq

inductive OperationEvent (C : Type) where
  | frameOpened (frameId : JsString)
  | frameClosed (frameId : JsString)
  | intended (intent : OperationIntent)
  | settled (event : OperationSettled C)
  deriving Repr, DecidableEq

/-- What an operation reads of its frame. -/
structure OperationFrame where
  frameId : JsString
  usageScopes : List JsString
  deriving Repr, DecidableEq

/-- The variables that `createModelOperation` closes over. -/
structure ModelOperation (C : Type) where
  frame : OperationFrame
  operationId : JsString
  kind : OperationKind
  key : JsString
  signal : Nat
  deadlineMs : Int
  logicalReserved : Bool
  aggregate : CallUsage C
  poisoned : Bool
  attemptOrdinal : Nat
  deriving Repr, DecidableEq

/-- How a call that never launched, or whose slot is released, has ended. -/
inductive CallEnd where
  | threw (error : CallError)
  | aborted
  | poisoned
  | appendFailed
  /-- `INVALID_RESULT`, "model concurrency accounting diverged". -/
  | diverged
  | settled
  /-- The operation authority was closed before the effect ended. -/
  | unauthorized
  deriving Repr, DecidableEq

/-- The ends that a check of the call itself decides. -/
def CallEnd.declined : CallEnd → Bool
  | .threw _ | .aborted | .poisoned => true
  | _ => false

inductive CallPhase (C : Type) where
  /-- In the queue of the semaphore. -/
  | waiting
  | granted
  | refused
  /-- Reserved; waits for the append of its intent. -/
  | intending (intent : OperationIntent)
  /-- Waits for the external effect. -/
  | launched (intent : OperationIntent) (startedMs : Int)
  /-- Settled in the ledger; waits for the append of its settlement. -/
  | settling (event : OperationSettled C)
  | ended (outcome : CallEnd)
  deriving Repr, DecidableEq

structure ProviderCall (C : Type) where
  operation : Nat
  invocation : Invocation
  tokens : Nat
  phase : CallPhase C

/-- A usage that an operation has accounted for. -/
structure SettledUsage (C : Type) where
  operation : Nat
  usage : CallUsage C
  deriving Repr, DecidableEq

structure Provider (C : Type) where
  wallMs : Nat
  ledger : Ledger C
  capacity : Nat
  available : Nat
  waiters : List Nat
  operations : List (ModelOperation C)
  calls : List (ProviderCall C)
  journal : List (OperationEvent C)
  scopeUsage : JsString → Option (CallUsage C)
  operationAttempts : JsString → Option Nat
  aborted : List Nat
  authority : Bool
  /-- What has been settled, in order; no code reads it. -/
  history : List (SettledUsage C)

/-- The outcome of a journal append.  One that fails may have left its event. -/
inductive AppendOutcome where
  | committed
  | failed (inJournal : Bool)
  deriving Repr, DecidableEq

/-- Clock readings of the piece that reserves. -/
structure Readings where
  checkpoint : Int
  logicalCall : Int
  attempt : Int
  secondCheckpoint : Int
  deriving Repr, DecidableEq

def attemptKey (frameId operationId : JsString) : JsString := frameId ++ [0] ++ operationId

namespace Provider

variable (st : Provider C)

-- ============================================================================
-- The semaphore
-- ============================================================================

omit [CostNumber C] in
def setPhase (c : Nat) (phase : CallPhase C) : Provider C :=
  { st with calls := st.calls.modify c fun call => { call with phase } }

omit [CostNumber C] in
/-- Whether the signal of a call is aborted. -/
def signalAborted (c : Nat) : Bool :=
  ((st.calls[c]?).bind fun call => st.operations[call.operation]?).any fun op =>
    st.aborted.contains op.signal

omit [CostNumber C] in
/-- A permit goes to the first waiter that is not aborted, or becomes available. -/
def handOff : List Nat → Provider C → Provider C
  | [], st => { st with waiters := [], available := st.available + 1 }
  | c :: rest, st =>
    if st.signalAborted c then handOff rest (st.setPhase c .refused)
    else { st.setPhase c .granted with waiters := rest }

omit [CostNumber C] in
def release : Provider C := handOff st.waiters st

omit [CostNumber C] in
/-- The phase of a new call after `Semaphore.acquire`. -/
def acquire (call : ProviderCall C) (aborted : Bool) : Provider C :=
  if aborted then { st with calls := st.calls ++ [{ call with phase := .refused }] }
  else if 0 < st.available then
    { st with available := st.available - 1, calls := st.calls ++ [{ call with phase := .granted }] }
  else
    { st with waiters := st.waiters ++ [st.calls.length]
              calls := st.calls ++ [{ call with phase := .waiting }] }

omit [CostNumber C] in
/-- Every waiter of an aborted signal leaves the queue empty-handed. -/
def abort (signal : Nat) : Provider C :=
  let st := { st with aborted := signal :: st.aborted }
  let after := (st.waiters.filter st.signalAborted).foldl (fun st c => st.setPhase c .refused) st
  { after with waiters := st.waiters.filter fun c => !st.signalAborted c }

-- ============================================================================
-- Pieces of a call
-- ============================================================================

omit [CostNumber C] in
/-- `checkpoint()`: why a call may not go on. -/
def checkpoint (op : ModelOperation C) (now : Int) : Option CallEnd :=
  if op.poisoned then some .poisoned
  else if st.aborted.contains op.signal then some .aborted
  else if op.deadlineMs ≤ now then
    some (.threw ⟨js "BUDGET_DEADLINE", js "run deadline reached"⟩)
  else none

omit [CostNumber C] in
variable {st} in
theorem checkpoint_declined {op : ModelOperation C} {now : Int} {outcome : CallEnd}
    (h : st.checkpoint op now = some outcome) : outcome.declined = true := by
  unfold checkpoint at h
  split_ifs at h <;> exact Option.some.inj h ▸ rfl

omit [CostNumber C] in
/-- `reserve(tokens)`. -/
def reserve (o : Nat) (op : ModelOperation C) (tokens : Nat) (now : Readings) :
    Except CallError (Provider C × OperationReservation) :=
  (if op.logicalReserved then .ok st.ledger
    else st.ledger.reserveLogicalCall now.logicalCall).bind fun logical =>
  (logical.reserveAttempt now.attempt tokens).map fun ledger =>
    ({ st with
        ledger
        operations := st.operations.set o
          { op with logicalReserved := true, attemptOrdinal := op.attemptOrdinal + 1 }
        operationAttempts := Function.update st.operationAttempts
          (attemptKey op.frame.frameId op.operationId) (some (op.attemptOrdinal + 1)) },
      ⟨if op.logicalReserved then 0 else 1, 1, tokens⟩)

omit [CostNumber C] in
variable {st} in
/-- What a reservation that is granted changes. -/
theorem reserve_ok {o tokens : Nat} {op : ModelOperation C} {now : Readings} {next : Provider C}
    {reservation : OperationReservation}
    (h : st.reserve o op tokens now = .ok (next, reservation)) :
    st.ledger.usage.tokensReserved + tokens ≤ maxSafeInteger ∧
    next = { st with
      ledger := st.ledger.reserved op.logicalReserved tokens
      operations := st.operations.set o
        { op with logicalReserved := true, attemptOrdinal := op.attemptOrdinal + 1 }
      operationAttempts := Function.update st.operationAttempts
        (attemptKey op.frame.frameId op.operationId) (some (op.attemptOrdinal + 1)) } ∧
    reservation = ⟨if op.logicalReserved then 0 else 1, 1, tokens⟩ := by
  unfold reserve at h
  cases hlogical : (if op.logicalReserved then Except.ok st.ledger
      else st.ledger.reserveLogicalCall now.logicalCall) with
  | error error => simp only [hlogical, Except.bind, reduceCtorEq] at h
  | ok logical =>
    rw [hlogical] at h
    have hcalls : logical = { st.ledger with usage.logicalCalls :=
        st.ledger.usage.logicalCalls + (if op.logicalReserved then 0 else 1) } := by
      cases hreserved : op.logicalReserved with
      | true =>
        rw [hreserved] at hlogical
        exact (Except.ok.inj hlogical).symm
      | false =>
        rw [hreserved] at hlogical
        exact Ledger.reserveLogicalCall_ok hlogical
    cases hattempt : logical.reserveAttempt now.attempt tokens with
    | error error => simp only [Except.bind, hattempt, Except.map, reduceCtorEq] at h
    | ok ledger =>
      obtain ⟨hsafe, hledger⟩ := Ledger.reserveAttempt_ok hattempt
      simp only [Except.bind, hattempt, Except.map, Except.ok.injEq, Prod.mk.injEq] at h
      obtain ⟨hnext, hreservation⟩ := h
      subst hcalls
      refine ⟨hsafe, ?_, hreservation.symm⟩
      rw [← hnext, hledger]
      rfl

/-- `settleAttempt(tokens, 0)`, if it is accepted. -/
def giveBack (tokens : Nat) : Provider C :=
  match st.ledger.settleAttempt tokens 0 with
  | .ok ledger => { st with ledger }
  | .error _ => st

/-- A call ends: it gives back the tokens it still holds, its leaf and its permit. -/
def finish (c tokens : Nat) (active : Bool) (outcome : CallEnd) : Provider C :=
  let st := if 0 < tokens then st.giveBack tokens else st
  let st := if active then { st with ledger := st.ledger.releaseLeaf } else st
  (st.setPhase c (.ended outcome)).release

/-- `settleAttempt` with what a call still holds, if that is anything. -/
def settleUp (tokens : Nat) : Provider C :=
  if 0 < tokens then st.giveBack tokens else st

omit [CostNumber C] in
/-- The hand-over of a permit touches the calls and the semaphore alone. -/
theorem handOff_frame (ws : List Nat) (st : Provider C) : ∃ calls waiters available,
    handOff ws st = { st with calls, waiters, available } := by
  induction ws generalizing st with
  | nil => exact ⟨_, _, _, rfl⟩
  | cons c rest ih =>
    rw [handOff]
    split
    · obtain ⟨calls, waiters, available, heq⟩ := ih (st.setPhase c .refused)
      exact ⟨calls, waiters, available, heq⟩
    · exact ⟨_, _, _, rfl⟩

theorem settleUp_frame (tokens : Nat) : ∃ ledger, st.settleUp tokens = { st with ledger } := by
  unfold settleUp giveBack
  split
  · split <;> exact ⟨_, rfl⟩
  · exact ⟨_, rfl⟩

/-- The order of the phase and the ledger makes no difference. -/
theorem finish_eq {c tokens : Nat} {active : Bool} {outcome : CallEnd} :
    st.finish c tokens active outcome =
      (let ended := (st.setPhase c (.ended outcome)).settleUp tokens
       if active then { ended with ledger := ended.ledger.releaseLeaf } else ended).release := by
  have hgiven : (st.setPhase c (.ended outcome)).settleUp tokens =
      (st.settleUp tokens).setPhase c (.ended outcome) := by
    unfold settleUp
    split
    · unfold giveBack
      show (match st.ledger.settleAttempt tokens 0 with | .ok ledger => _ | .error _ => _) = _
      split <;> rfl
    · rfl
  rw [hgiven]
  cases active <;> rfl

theorem finish_frame (c tokens : Nat) (active : Bool) (outcome : CallEnd) :
    ∃ ledger calls waiters available,
      st.finish c tokens active outcome = { st with ledger, calls, waiters, available } := by
  obtain ⟨ledger, hsettled⟩ := (st.setPhase c (.ended outcome)).settleUp_frame tokens
  rw [finish_eq, hsettled]
  cases active with
  | true =>
    obtain ⟨calls, waiters, available, heq⟩ := handOff_frame st.waiters
      { st.setPhase c (.ended outcome) with ledger := ledger.releaseLeaf }
    exact ⟨ledger.releaseLeaf, calls, waiters, available, heq⟩
  | false =>
    obtain ⟨calls, waiters, available, heq⟩ := handOff_frame st.waiters
      { st.setPhase c (.ended outcome) with ledger }
    exact ⟨ledger, calls, waiters, available, heq⟩

omit [CostNumber C] in
def poison (o : Nat) : Provider C :=
  { st with operations := st.operations.modify o fun op => { op with poisoned := true } }

/-- The sums of the enclosing scopes with one more usage. -/
def scopedUpdates (scopeUsage : JsString → Option (CallUsage C)) (usage : CallUsage C) :
    List JsString → Except JsString (List (JsString × CallUsage C))
  | [] => .ok []
  | scope :: scopes =>
    (addUsage ((scopeUsage scope).getD zeroCallUsage) usage).bind fun sum =>
    (scopedUpdates scopeUsage usage scopes).map fun updates => (scope, sum) :: updates

omit [CostNumber C] in
def setScopes (scopeUsage : JsString → Option (CallUsage C))
    (updates : List (JsString × CallUsage C)) : JsString → Option (CallUsage C) :=
  updates.foldl (fun scopeUsage update => Function.update scopeUsage update.1 (some update.2))
    scopeUsage

/-- `addAccounting(usage)`: all sums, or none. -/
def addAccounting (o : Nat) (op : ModelOperation C) (usage : CallUsage C) :
    Provider C × Option CallError :=
  match addUsage op.aggregate usage with
  | .error message => (st, some ⟨js "INVALID_RESULT", message⟩)
  | .ok combined =>
    match scopedUpdates st.scopeUsage usage op.frame.usageScopes with
    | .error message => (st, some ⟨js "INVALID_RESULT", message⟩)
    | .ok updates =>
      ({ st with
          operations := st.operations.set o { op with aggregate := combined }
          scopeUsage := setScopes st.scopeUsage updates },
        none)

def accountUsage (o : Nat) (op : ModelOperation C) (reservedTokens : Nat) (usage : CallUsage C) :
    Provider C × Option CallError :=
  match st.ledger.settleAttemptUsage reservedTokens usage with
  | .error error => (st.giveBack reservedTokens, some error)
  | .ok ledger => { st with ledger }.addAccounting o op usage

theorem addAccounting_setPhase {c o : Nat} {phase : CallPhase C} {op : ModelOperation C}
    {usage : CallUsage C} :
    (st.setPhase c phase).addAccounting o op usage =
      ((st.addAccounting o op usage).1.setPhase c phase, (st.addAccounting o op usage).2) := by
  have hscopes : (st.setPhase c phase).scopeUsage = st.scopeUsage := rfl
  unfold addAccounting
  rw [hscopes]
  cases addUsage op.aggregate usage with
  | error message => rfl
  | ok combined => cases scopedUpdates st.scopeUsage usage op.frame.usageScopes <;> rfl

theorem accountUsage_setPhase {c o tokens : Nat} {phase : CallPhase C} {op : ModelOperation C}
    {usage : CallUsage C} :
    ((st.setPhase c phase).accountUsage o op tokens usage).1 =
      (st.accountUsage o op tokens usage).1.setPhase c phase := by
  have hledger : (st.setPhase c phase).ledger = st.ledger := rfl
  unfold accountUsage giveBack
  rw [hledger]
  cases st.ledger.settleAttemptUsage tokens usage with
  | error error => cases st.ledger.settleAttempt tokens 0 <;> rfl
  | ok ledger =>
    show (({ st with ledger } : Provider C).setPhase c phase |>.addAccounting o op usage).1 = _
    rw [addAccounting_setPhase]

omit [CostNumber C] in
/-- The append of an event: a failed one may have left it in the journal. -/
def appendEvent (event : OperationEvent C) : AppendOutcome → Provider C
  | .committed | .failed true => { st with journal := st.journal ++ [event] }
  | .failed false => st

-- ============================================================================
-- Steps
-- ============================================================================

/-- `createModelOperation`. -/
def create (frame : OperationFrame) (operationId : JsString) (kind : OperationKind)
    (key : JsString) (signal : Nat) (deadlineMs : Int) : Provider C :=
  { st with operations := st.operations ++
      [{ frame, operationId, kind, key, signal, deadlineMs
         logicalReserved := false
         aggregate := zeroCallUsage
         poisoned := false
         attemptOrdinal := (st.operationAttempts (attemptKey frame.frameId operationId)).getD 0 }] }

omit [CostNumber C] in
/-- A call up to its acquisition of a permit. -/
def begin (o : Nat) (invocation : Invocation) (now : Int) : Option (Provider C) :=
  (st.operations[o]?).map fun op =>
    match invocation.reservedTokens with
    | .error error => { st with calls := st.calls ++ [⟨o, invocation, 0, .ended (.threw error)⟩] }
    | .ok tokens =>
      match st.checkpoint op now with
      | some outcome => { st with calls := st.calls ++ [⟨o, invocation, 0, .ended outcome⟩] }
      | none => st.acquire ⟨o, invocation, tokens, .waiting⟩ (st.aborted.contains op.signal)

omit [CostNumber C] in
/-- Why a call that has reserved does not append its intent. -/
def refusal (op : ModelOperation C) (invocation : Invocation) (now : Int) : Option CallEnd :=
  match if invocation.isComplete then st.checkpoint op now else none with
  | some outcome => some outcome
  | none =>
    if operationRequestVersionAllowed op.kind.text invocation.identity.version &&
        isHash invocation.identity.sha256 then
      none
    else some (.threw ⟨js "INVALID_REQUEST", js "external request identity is invalid"⟩)

omit [CostNumber C] in
variable {st} in
theorem refusal_declined {op : ModelOperation C} {invocation : Invocation} {now : Int}
    {outcome : CallEnd} (h : st.refusal op invocation now = some outcome) :
    outcome.declined = true := by
  unfold refusal at h
  split at h
  · rename_i outcome' hcheckpoint
    obtain rfl := Option.some.inj h
    split at hcheckpoint
    · exact checkpoint_declined hcheckpoint
    · exact absurd hcheckpoint nofun
  · split at h
    · exact absurd h nofun
    · exact Option.some.inj h ▸ rfl

/-- The identity of the attempt that an operation has just reserved. -/
def intent (op : ModelOperation C) (invocation : Invocation) (reservation : OperationReservation) :
    OperationIntent :=
  ⟨op.frame.frameId, op.operationId, op.kind, op.key, op.attemptOrdinal + 1,
    invocation.identity.version, invocation.identity.sha256, reservation⟩

/-- A granted call, from its permit to the append of its intent. -/
def reserved (c o : Nat) (op : ModelOperation C) (invocation : Invocation) (tokens : Nat)
    (now : Readings) : Provider C :=
  match st.checkpoint op now.checkpoint with
  | some outcome => st.finish c 0 false outcome
  | none =>
    match st.reserve o op tokens now with
    | .error error => st.finish c 0 false (.threw error)
    | .ok (next, reservation) =>
      match next.ledger.acquireLeaf with
      | none => next.finish c tokens false .diverged
      | some ledger =>
        match { next with ledger }.refusal op invocation now.secondCheckpoint with
        | some outcome => { next with ledger }.finish c tokens true outcome
        | none => { next with ledger }.setPhase c (.intending (intent op invocation reservation))

/-- What follows the acquisition of a permit. -/
def acquired (c : Nat) (now : Readings) : Option (Provider C) :=
  match st.calls[c]? with
  | some ⟨o, invocation, tokens, .granted⟩ =>
    (st.operations[o]?).map fun op => st.reserved c o op invocation tokens now
  | some ⟨o, invocation, _, .refused⟩ =>
    (st.operations[o]?).map fun op =>
      st.setPhase c (.ended ((st.checkpoint op now.checkpoint).getD (.threw invocation.cancelled)))
  | _ => none

/-- What follows the append of an intent. -/
def intentAppended (c : Nat) (outcome : AppendOutcome) (now : Int) : Option (Provider C) :=
  match st.calls[c]? with
  | some ⟨o, _, tokens, .intending intent⟩ =>
    match outcome with
    | .committed =>
      some ((st.appendEvent (.intended intent) .committed).setPhase c (.launched intent now))
    | .failed inJournal =>
      some (((st.appendEvent (.intended intent) (.failed inJournal)).poison o).finish c tokens true
        .appendFailed)
  | _ => none

/-- The settlement event of an observation, after its accounting. -/
def settlement (intent : OperationIntent) (observation : Observation C)
    (accountingError : Option CallError) : OperationSettled C :=
  match accountingError with
  | none => ⟨intent.frameId, intent, observation.outcome, observation.usage, observation.errorCode⟩
  | some error => ⟨intent.frameId, intent, .invalidResult, observation.usage, some error.code⟩

/-- What follows the external effect, up to the append of the settlement. -/
def effectEnded (c : Nat) (effect : Effect C) (now : Int) : Option (Provider C) :=
  match st.calls[c]? with
  | some ⟨o, invocation, tokens, .launched intent startedMs⟩ =>
    (st.operations[o]?).bind fun op =>
      if st.authority = false then some (st.finish c 0 false .unauthorized)
      else
        (invocation.observe (usageLimits st.wallMs) (st.aborted.contains op.signal)
          (measuredUsage startedMs now) effect).map fun observation =>
          let accounted := st.accountUsage o op tokens observation.usage
          { accounted.1.setPhase c
              (.settling (settlement intent observation accounted.2)) with
            history := st.history ++ [⟨o, observation.usage⟩] }
  | _ => none

/-- What follows the append of a settlement. -/
def settlementAppended (c : Nat) (outcome : AppendOutcome) : Option (Provider C) :=
  match st.calls[c]? with
  | some ⟨o, _, _, .settling event⟩ =>
    match outcome with
    | .committed => some ((st.appendEvent (.settled event) .committed).finish c 0 true .settled)
    | .failed inJournal =>
      some (((st.appendEvent (.settled event) (.failed inJournal)).poison o).finish c 0 true
        .appendFailed)
  | _ => none

end Provider

inductive ProviderStep (C : Type) where
  | create (frame : OperationFrame) (operationId : JsString) (kind : OperationKind)
      (key : JsString) (signal : Nat) (deadlineMs : Int)
  | begin (o : Nat) (invocation : Invocation) (now : Int)
  | acquired (c : Nat) (now : Readings)
  | intentAppended (c : Nat) (outcome : AppendOutcome) (now : Int)
  | effectEnded (c : Nat) (effect : Effect C) (now : Int)
  | settlementAppended (c : Nat) (outcome : AppendOutcome)
  | abort (signal : Nat)
  | closeAuthority
  /-- Another part of the run changes what is its own in the ledger. -/
  | otherUsage (framesOpened logicalCalls controllerTurns storedBytes : Nat)
  /-- Another part of the run journals the opening or closing of a frame. -/
  | frameEvent (frameId : JsString) (closed : Bool)

namespace Provider

def step (st : Provider C) : ProviderStep C → Option (Provider C)
  | .create frame operationId kind key signal deadlineMs =>
    some (st.create frame operationId kind key signal deadlineMs)
  | .begin o invocation now => st.begin o invocation now
  | .acquired c now => st.acquired c now
  | .intentAppended c outcome now => st.intentAppended c outcome now
  | .effectEnded c effect now => st.effectEnded c effect now
  | .settlementAppended c outcome => st.settlementAppended c outcome
  | .abort signal => some (st.abort signal)
  | .closeAuthority => some { st with authority := false }
  | .otherUsage framesOpened logicalCalls controllerTurns storedBytes =>
    some { st with ledger := { st.ledger with usage := { st.ledger.usage with
      framesOpened, logicalCalls, controllerTurns, storedBytes } } }
  | .frameEvent frameId closed =>
    some { st with journal := st.journal ++
      [if closed then .frameClosed frameId else .frameOpened frameId] }

end Provider

-- ============================================================================
-- What a step can do
-- ============================================================================

namespace Provider

variable {st st' : Provider C} {c : Nat}

omit [CostNumber C] in
theorem begin_cases {o : Nat} {invocation : Invocation} {now : Int}
    (h : st.begin o invocation now = some st') :
    (∃ outcome : CallEnd, outcome.declined = true ∧
      st' = { st with calls := st.calls ++ [⟨o, invocation, 0, .ended outcome⟩] }) ∨
    ∃ tokens aborted, st' = st.acquire ⟨o, invocation, tokens, .waiting⟩ aborted := by
  obtain ⟨op, -, rfl⟩ := Option.map_eq_some_iff.mp h
  split
  · exact .inl ⟨_, rfl, rfl⟩
  · split
    · rename_i outcome hcheckpoint
      exact .inl ⟨outcome, checkpoint_declined hcheckpoint, rfl⟩
    · exact .inr ⟨_, _, rfl⟩

theorem acquired_cases {now : Readings} (h : st.acquired c now = some st') :
    ∃ o invocation tokens op, st.operations[o]? = some op ∧
      ((st.calls[c]? = some ⟨o, invocation, tokens, .granted⟩ ∧
          st' = st.reserved c o op invocation tokens now) ∨
        ∃ outcome : CallEnd, outcome.declined = true ∧
          st.calls[c]? = some ⟨o, invocation, tokens, .refused⟩ ∧
          st' = st.setPhase c (.ended outcome)) := by
  unfold acquired at h
  split at h
  · rename_i o invocation tokens hcall
    obtain ⟨op, hop, rfl⟩ := Option.map_eq_some_iff.mp h
    exact ⟨o, invocation, tokens, op, hop, .inl ⟨hcall, rfl⟩⟩
  · rename_i o invocation tokens hcall
    obtain ⟨op, hop, rfl⟩ := Option.map_eq_some_iff.mp h
    refine ⟨o, invocation, tokens, op, hop, .inr ⟨_, ?_, hcall, rfl⟩⟩
    cases hcheckpoint : st.checkpoint op now.checkpoint with
    | none => rfl
    | some outcome => exact checkpoint_declined hcheckpoint
  · exact absurd h nofun

/-- The ways in which a granted call goes on: it is declined, its leaf is refused, or its
    intent goes to the journal. -/
theorem reserved_cases (st : Provider C) (c o : Nat) (op : ModelOperation C)
    (invocation : Invocation) (tokens : Nat) (now : Readings) :
    (∃ outcome : CallEnd, outcome.declined = true ∧
      st.reserved c o op invocation tokens now = st.finish c 0 false outcome) ∨
    ∃ next reservation, st.checkpoint op now.checkpoint = none ∧
      st.reserve o op tokens now = .ok (next, reservation) ∧
      ((next.ledger.acquireLeaf = none ∧
          st.reserved c o op invocation tokens now = next.finish c tokens false .diverged) ∨
        ∃ ledger, next.ledger.acquireLeaf = some ledger ∧
          ((∃ outcome : CallEnd, outcome.declined = true ∧
              { next with ledger }.refusal op invocation now.secondCheckpoint = some outcome ∧
              st.reserved c o op invocation tokens now =
                { next with ledger }.finish c tokens true outcome) ∨
            { next with ledger }.refusal op invocation now.secondCheckpoint = none ∧
              st.reserved c o op invocation tokens now =
                { next with ledger }.setPhase c (.intending (intent op invocation reservation)))) := by
  unfold reserved
  split
  · rename_i outcome hcheckpoint
    exact .inl ⟨outcome, checkpoint_declined hcheckpoint, rfl⟩
  · rename_i hcheckpoint
    split
    · exact .inl ⟨_, rfl, rfl⟩
    · rename_i next reservation hreserve
      refine .inr ⟨next, reservation, hcheckpoint, hreserve, ?_⟩
      split
      · rename_i hsaturated
        exact .inl ⟨hsaturated, rfl⟩
      · rename_i ledger hacquired
        refine .inr ⟨ledger, hacquired, ?_⟩
        split
        · rename_i outcome hrefusal
          exact .inl ⟨outcome, refusal_declined hrefusal, hrefusal, rfl⟩
        · rename_i hrefusal
          exact .inr ⟨hrefusal, rfl⟩

theorem intentAppended_cases {outcome : AppendOutcome} {now : Int}
    (h : st.intentAppended c outcome now = some st') :
    ∃ o invocation tokens intent, st.calls[c]? = some ⟨o, invocation, tokens, .intending intent⟩ ∧
      ((outcome = .committed ∧
          st' = (st.appendEvent (.intended intent) .committed).setPhase c (.launched intent now)) ∨
        ∃ inJournal, outcome = .failed inJournal ∧
          st' = ((st.appendEvent (.intended intent) (.failed inJournal)).poison o).finish c tokens
            true .appendFailed) := by
  unfold intentAppended at h
  split at h
  · rename_i o invocation tokens intent hcall
    refine ⟨o, invocation, tokens, intent, hcall, ?_⟩
    split at h
    · exact .inl ⟨rfl, (Option.some.inj h).symm⟩
    · exact .inr ⟨_, rfl, (Option.some.inj h).symm⟩
  · exact absurd h nofun

theorem effectEnded_cases {effect : Effect C} {now : Int}
    (h : st.effectEnded c effect now = some st') :
    ∃ o invocation tokens intent startedMs op,
      st.calls[c]? = some ⟨o, invocation, tokens, .launched intent startedMs⟩ ∧
      st.operations[o]? = some op ∧
      ((st.authority = false ∧ st' = st.finish c 0 false .unauthorized) ∨
        st.authority = true ∧ ∃ observation : Observation C,
          invocation.observe (usageLimits st.wallMs) (st.aborted.contains op.signal)
            (measuredUsage startedMs now) effect = some observation ∧
          st' = { (st.accountUsage o op tokens observation.usage).1.setPhase c
              (.settling (settlement intent observation
                (st.accountUsage o op tokens observation.usage).2)) with
            history := st.history ++ [⟨o, observation.usage⟩] }) := by
  unfold effectEnded at h
  split at h
  · rename_i o invocation tokens intent startedMs hcall
    obtain ⟨op, hop, h⟩ := Option.bind_eq_some_iff.mp h
    refine ⟨o, invocation, tokens, intent, startedMs, op, hcall, hop, ?_⟩
    split at h
    · rename_i hclosed
      exact .inl ⟨hclosed, (Option.some.inj h).symm⟩
    · rename_i hopen
      obtain ⟨observation, hobserve, rfl⟩ := Option.map_eq_some_iff.mp h
      exact .inr ⟨Bool.not_eq_false _ ▸ hopen, observation, hobserve, rfl⟩
  · exact absurd h nofun

theorem settlementAppended_cases {outcome : AppendOutcome}
    (h : st.settlementAppended c outcome = some st') :
    ∃ o invocation tokens event, st.calls[c]? = some ⟨o, invocation, tokens, .settling event⟩ ∧
      ((outcome = .committed ∧
          st' = (st.appendEvent (.settled event) .committed).finish c 0 true .settled) ∨
        ∃ inJournal, outcome = .failed inJournal ∧
          st' = ((st.appendEvent (.settled event) (.failed inJournal)).poison o).finish c 0 true
            .appendFailed) := by
  unfold settlementAppended at h
  split at h
  · rename_i o invocation tokens event hcall
    refine ⟨o, invocation, tokens, event, hcall, ?_⟩
    split at h
    · exact .inl ⟨rfl, (Option.some.inj h).symm⟩
    · exact .inr ⟨_, rfl, (Option.some.inj h).symm⟩
  · exact absurd h nofun

end Provider

/-- The parts of a validated profile that the provider boundary reads. -/
structure ProviderProfile where
  maxConcurrency : Nat
  wallMs : Nat
  maxConcurrency_pos : 0 < maxConcurrency

/-- The provider boundary of a run that starts or resumes with a ledger and a journal. -/
def Provider.initial (profile : ProviderProfile) (ledger : Ledger C)
    (journal : List (OperationEvent C)) (operationAttempts : JsString → Option Nat) :
    Provider C where
  wallMs := profile.wallMs
  ledger := ledger
  capacity := max 1 profile.maxConcurrency
  available := max 1 profile.maxConcurrency
  waiters := []
  operations := []
  calls := []
  journal := journal
  scopeUsage := fun _ => none
  operationAttempts := operationAttempts
  aborted := []
  authority := true
  history := []

end PiRlm.Runtime

/-
  PiRlm.Runtime.AgentDelegation

  Authorization of agents, `authorizeAgent` of `runtime/agent-delegation.ts`.

  The machine takes calls, aborts and answers of the approval policy in any order.  What
  the event loop runs later (the call of the policy, the two callbacks of its promise, the
  callbacks of a wait, the rest of a call after its wait) is an event of its own, and so
  is the end of a call whose abort of the policy runs the listeners of the policy first.
  Any of these may come at any time after what queues it.
-/
import Mathlib
import PiRlm.Lib.Decimal
import PiRlm.Lib.Json
import PiRlm.Lib.Machine
import PiRlm.Lib.OrderedMap
import PiRlm.Lib.Whitespace
import PiRlm.Shell.Hash

namespace PiRlm.Runtime

open PiRlm.Lib PiRlm.Core PiRlm.Shell

-- ============================================================================
-- Requests
-- ============================================================================

def maxAgentNameBytes : Nat := 128

def maxApprovalIdBytes : Nat := 1024

def maxApprovalPreviewBytes : Nat := 4 * 1024

/-- A value of an unknown type. -/
inductive UnknownValue where
  | undefined
  | string (s : JsString)
  | other
  deriving Repr, DecidableEq

inductive OwnProperty where
  | data (value : UnknownValue)
  | accessor
  deriving Repr, DecidableEq

/-- The argument of a call: whether it is an object and no proxy, and its own properties. -/
structure RequestObject where
  isObject : Bool
  own : JsString → Option OwnProperty

def ownData (value : RequestObject) (key : JsString) : Except JsString UnknownValue :=
  match value.own key with
  | some (.data v) => .ok v
  | _ => .error (key ++ js " must be an own data property")

def ownOptionalData (value : RequestObject) (key : JsString) : Except JsString UnknownValue :=
  match value.own key with
  | some (.data v) => .ok v
  | some .accessor => .error (key ++ js " must be an own data property")
  | none => .ok .undefined

def boundedNormalizedString (value : UnknownValue) (label : JsString) (maxBytes : Nat) :
    Except JsString JsString :=
  match value with
  | .string s =>
    if s = [] ∨ trimWhiteSpace s ≠ s ∨ (0x0D ∈ s ∨ 0x0A ∈ s ∨ 0x00 ∈ s) ∨
        maxBytes < (utf8 s).length then
      .error (label ++ js " must be a bounded normalized string")
    else .ok s
  | _ => .error (label ++ js " must be a bounded normalized string")

def isAgentNameStart (u : CodeUnit) : Bool :=
  decide (0x41 ≤ u.val ∧ u.val ≤ 0x5A) || decide (0x61 ≤ u.val ∧ u.val ≤ 0x7A) || isDigit u

/-- `/^[A-Za-z0-9][A-Za-z0-9._-]{0,127}$/`, and the bound in bytes. -/
def isAgentName (value : JsString) : Bool :=
  match value with
  | [] => false
  | u :: rest =>
    isAgentNameStart u && rest.length ≤ 127 &&
      (rest.all fun w => isAgentNameStart w || w == 0x2E || w == 0x5F || w == 0x2D) &&
      (utf8 value).length ≤ maxAgentNameBytes

inductive AgentContext where
  | fresh
  | fork
  deriving Repr, DecidableEq

def AgentContext.text : AgentContext → JsString
  | .fresh => js "fresh"
  | .fork => js "fork"

structure AgentApprovalRequest where
  runId : JsString
  frameId : JsString
  callId : JsString
  agent : JsString
  taskSha256 : JsString
  taskPreview : JsString
  context : AgentContext
  model : Option JsString
  thinking : Option JsString
  deriving Repr, DecidableEq

def agentContext (value : UnknownValue) : Except JsString AgentContext :=
  if value = .string (js "fresh") then .ok .fresh
  else if value = .string (js "fork") then .ok .fork
  else .error (js "agent approval context must be fresh or fork")

def taskPreviewText (value : UnknownValue) : Except JsString JsString :=
  match value with
  | .string s =>
    if (utf8 s).length ≤ maxApprovalPreviewBytes then .ok s
    else .error (js "agent approval task preview must be a bounded string")
  | _ => .error (js "agent approval task preview must be a bounded string")

def optionalString (value : UnknownValue) (label : JsString) :
    Except JsString (Option JsString) :=
  if value = .undefined then .ok none
  else (boundedNormalizedString value label maxApprovalIdBytes).map some

def approvalRequestSnapshot (request : RequestObject) : Except JsString AgentApprovalRequest := do
  if !request.isObject then throw (js "agent approval request must be an object")
  let runId ← boundedNormalizedString (← ownData request (js "runId"))
    (js "agent approval run id") maxApprovalIdBytes
  let frameId ← boundedNormalizedString (← ownData request (js "frameId"))
    (js "agent approval frame id") maxApprovalIdBytes
  let callId ← boundedNormalizedString (← ownData request (js "callId"))
    (js "agent approval call id") maxApprovalIdBytes
  let agent ← boundedNormalizedString (← ownData request (js "agent"))
    (js "agent approval agent") maxAgentNameBytes
  if !isAgentName agent then throw (js "agent approval agent must be an agent identifier")
  let taskSha256 ← boundedNormalizedString (← ownData request (js "taskSha256"))
    (js "agent approval task hash") 64
  if !isHash taskSha256 then throw (js "agent approval task hash must be SHA-256")
  let taskPreview ← taskPreviewText (← ownData request (js "taskPreview"))
  let context ← agentContext (← ownData request (js "context"))
  let modelValue ← ownOptionalData request (js "model")
  let thinkingValue ← ownOptionalData request (js "thinking")
  let model ← optionalString modelValue (js "agent approval model")
  let thinking ← optionalString thinkingValue (js "agent approval thinking")
  return { runId, frameId, callId, agent, taskSha256, taskPreview, context, model, thinking }

/-- `request.model ?? null`. -/
def stringOrNull (value : Option JsString) : Json Int :=
  (value.map Json.str).getD .null

/-- What identifies a request; the preview is for display only. -/
def AgentApprovalRequest.identity (request : AgentApprovalRequest) : Json Int :=
  .arr [.str (js "pi-rlm.agent-approval-request.v1"), .str request.runId, .str request.frameId,
    .str request.callId, .str request.agent, .str request.taskSha256, .str request.context.text,
    stringOrNull request.model, stringOrNull request.thinking]

def approvalKey (request : AgentApprovalRequest) : JsString := sha256 request.identity.render

-- ============================================================================
-- Pending approvals and calls
-- ============================================================================

/-- What the promise of `approve` settles to; a value that is no boolean is `other`. -/
inductive ApproveAnswer where
  | bool (value : Bool)
  | other
  | rejected
  deriving Repr, DecidableEq

/-- How far the promise of a pending approval has come. -/
inductive ApproveStage where
  /-- The call of `approve` is queued. -/
  | queued
  /-- The call has been made; what it returned has not settled. -/
  | called
  | answered (answer : ApproveAnswer)
  /-- `.then((approved) => approved === true, () => false)` has run. -/
  | decided (approved : Bool)
  /-- `.finally` has run. -/
  | fulfilled (approved : Bool)
  deriving Repr, DecidableEq

structure PendingAgentApproval where
  request : AgentApprovalRequest
  /-- The signal of the controller is aborted. -/
  aborted : Bool
  waiters : Nat
  settled : Bool
  stage : ApproveStage
  deriving Repr, DecidableEq

def PendingAgentApproval.key (pending : PendingAgentApproval) : JsString :=
  approvalKey pending.request

inductive AgentApprovalDecision where
  | allowlisted
  | approved
  | denied
  deriving Repr, DecidableEq

/-- How a call of `authorizeAgent` ends. -/
inductive AuthorizeResult where
  | returned (decision : AgentApprovalDecision)
  /-- `OperationAbortedError`. -/
  | threw
  deriving Repr, DecidableEq

/-- What the promise of `waitForAbort` settles to. -/
inductive WaitOutcome where
  | resolved (approved : Bool)
  | rejected
  deriving Repr, DecidableEq

inductive AuthorizePhase where
  /-- Awaits the pending approval. -/
  | waiting (pending : Nat) (outcome : Option WaitOutcome)
  /-- Within the `finally` block, as the last waiter. -/
  | leaving (pending : Nat) (result : AuthorizeResult)
  | done (result : AuthorizeResult)
  deriving Repr, DecidableEq

structure AuthorizeCall where
  request : RequestObject
  signal : Nat
  phase : AuthorizePhase

/-- The policy of a run. -/
structure AgentDelegationRuntime where
  allowedAgentSet : List JsString
  /-- An approval policy is configured. -/
  approval : Bool
  deriving Repr, DecidableEq

structure ApprovalState where
  pendings : List PendingAgentApproval
  calls : List AuthorizeCall
  pendingApprovals : OrderedMap JsString Nat
  /-- `runSignal.aborted`. -/
  runAborted : Bool
  /-- The signals of callers that are aborted. -/
  aborted : List Nat

/-- What happens next to the promise of a pending approval. -/
inductive PolicyEvent where
  | approve
  | answer (answer : ApproveAnswer)
  | decide
  | settle
  deriving Repr, DecidableEq

inductive ApprovalEvent where
  | call (request : RequestObject) (signal : Nat)
  | policy (pending : Nat) (event : PolicyEvent)
  /-- `work.then` of a wait. -/
  | deliver (call : Nat)
  /-- The abort listener of a wait. -/
  | listener (call : Nat)
  | abort (signal : Nat)
  | abortRun
  /-- A call goes on after its wait. -/
  | resume (call : Nat)
  /-- A call goes on after the abort of the policy. -/
  | leave (call : Nat)

/-- One step of the promise of a pending approval. -/
def PendingAgentApproval.advance (pending : PendingAgentApproval) :
    PolicyEvent → Option PendingAgentApproval
  | .approve => if pending.stage = .queued then some { pending with stage := .called } else none
  | .answer answer =>
    if pending.stage = .called then some { pending with stage := .answered answer } else none
  | .decide =>
    match pending.stage with
    | .answered answer => some { pending with stage := .decided (answer == .bool true) }
    | _ => none
  | .settle =>
    match pending.stage with
    | .decided approved => some { pending with settled := true, stage := .fulfilled approved }
    | _ => none

namespace ApprovalState

def init : ApprovalState where
  pendings := []
  calls := []
  pendingApprovals := []
  runAborted := false
  aborted := []

variable (st : ApprovalState)

/-- `AbortSignal.any([runtime.runSignal, callerSignal]).aborted`. -/
def isAborted (signal : Nat) : Bool := st.runAborted || decide (signal ∈ st.aborted)

def setPhase (j : Nat) (call : AuthorizeCall) (phase : AuthorizePhase) : ApprovalState :=
  { st with calls := st.calls.set j { call with phase } }

/-- A call that returns without a wait. -/
def answerCall (request : RequestObject) (signal : Nat) (decision : AgentApprovalDecision) :
    ApprovalState :=
  { st with calls := st.calls ++ [⟨request, signal, .done (.returned decision)⟩] }

/-- A call joins a pending approval and waits for it. -/
def joinPending (request : RequestObject) (signal : Nat) (i : Nat) : ApprovalState :=
  { st with
    pendings := st.pendings.modify i fun pending => { pending with waiters := pending.waiters + 1 }
    calls := st.calls ++
      [⟨request, signal, .waiting i (if st.isAborted signal then some .rejected else none)⟩] }

def createPending (snapshot : AgentApprovalRequest) : ApprovalState :=
  { st with
    pendings := st.pendings ++ [⟨snapshot, false, 0, false, .queued⟩]
    pendingApprovals := st.pendingApprovals.set (approvalKey snapshot) st.pendings.length }

/-- `authorizeAgent`, up to its wait. -/
def authorizeAgent (runtime : AgentDelegationRuntime) (request : RequestObject) (signal : Nat) :
    ApprovalState :=
  match approvalRequestSnapshot request with
  | .error _ => st.answerCall request signal .denied
  | .ok snapshot =>
    if snapshot.agent ∈ runtime.allowedAgentSet then st.answerCall request signal .allowlisted
    else if !runtime.approval then st.answerCall request signal .denied
    else
      match st.pendingApprovals.get (approvalKey snapshot) with
      | some i => st.joinPending request signal i
      | none => (st.createPending snapshot).joinPending request signal st.pendings.length

/-- What a call returns after its wait. -/
def resultOf (signal : Nat) : WaitOutcome → AuthorizeResult
  | .resolved approved =>
    .returned (if approved && !st.runAborted && !decide (signal ∈ st.aborted) then .approved
      else .denied)
  | .rejected => .threw

/-- A call leaves its pending approval; the last waiter aborts the policy. -/
def leavePending (i : Nat) (pending : PendingAgentApproval) (j : Nat) (call : AuthorizeCall)
    (result : AuthorizeResult) : ApprovalState :=
  let waiters := pending.waiters - 1
  if waiters = 0 then
    { st with
      pendings := st.pendings.set i
        { pending with waiters, aborted := pending.aborted || !pending.settled } }.setPhase j call
      (.leaving i result)
  else
    { st with pendings := st.pendings.set i { pending with waiters } }.setPhase j call
      (.done result)

/-- The end of the `finally` block of a last waiter. -/
def deletePending (i : Nat) (pending : PendingAgentApproval) (j : Nat) (call : AuthorizeCall)
    (result : AuthorizeResult) : ApprovalState :=
  { st with
    pendingApprovals :=
      if st.pendingApprovals.get pending.key = some i then st.pendingApprovals.delete pending.key
      else st.pendingApprovals }.setPhase j call (.done result)

def step (runtime : AgentDelegationRuntime) : ApprovalEvent → Option ApprovalState
  | .call request signal => some (st.authorizeAgent runtime request signal)
  | .policy i event =>
    (st.pendings[i]?).bind fun pending => (pending.advance event).map fun pending' =>
      { st with pendings := st.pendings.set i pending' }
  | .deliver j =>
    (st.calls[j]?).bind fun call =>
      match call.phase with
      | .waiting i none =>
        (st.pendings[i]?).bind fun pending =>
          match pending.stage with
          | .fulfilled approved => some (st.setPhase j call (.waiting i (some (.resolved approved))))
          | _ => none
      | _ => none
  | .listener j =>
    (st.calls[j]?).bind fun call =>
      match call.phase with
      | .waiting i none =>
        if st.isAborted call.signal then some (st.setPhase j call (.waiting i (some .rejected)))
        else none
      | _ => none
  | .abort signal => some { st with aborted := st.aborted ++ [signal] }
  | .abortRun => some { st with runAborted := true }
  | .resume j =>
    (st.calls[j]?).bind fun call =>
      match call.phase with
      | .waiting i (some outcome) =>
        (st.pendings[i]?).map fun pending =>
          st.leavePending i pending j call (st.resultOf call.signal outcome)
      | _ => none
  | .leave j =>
    (st.calls[j]?).bind fun call =>
      match call.phase with
      | .leaving i result =>
        (st.pendings[i]?).map fun pending => st.deletePending i pending j call result
      | _ => none

end ApprovalState

end PiRlm.Runtime

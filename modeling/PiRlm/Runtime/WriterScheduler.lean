/-
  PiRlm.Runtime.WriterScheduler

  `RunWriterScheduler` of `runtime/run-writer-scheduler.ts`.

  A step is one synchronous piece of the scheduler: a call of one of its methods from any
  asynchronous context, or what follows the settlement of a promise it waits for.  Effects
  are what their callers make them: any context may call any method at any time.
-/
import Mathlib
import PiRlm.Lib.Machine

namespace PiRlm.Runtime

inductive SchedulerErrorCode where
  | closed | lockOrder | selfRelease
  deriving Repr, DecidableEq

/-- `writerScope.getStore()` of a caller. -/
inductive Inherited where
  | none
  /-- A scope of this scheduler. -/
  | own (scope : Nat)
  /-- A scope of another scheduler. -/
  | foreign (isOpen : Bool)
  deriving Repr, DecidableEq

inductive OwnedMethod where
  | run | runOwnedTransaction | runOwnedOperation
  deriving Repr, DecidableEq

/-- What becomes of a call. -/
inductive Route where
  | rejected (code : SchedulerErrorCode)
  /-- Invoked in the scope of its caller, which may keep it among its children. -/
  | inline (scope : Nat) (tracked : Bool)
  /-- Admitted to the queue. -/
  | queued
  /-- Fenced at once, inside the scope of its caller. -/
  | operation (parent : Nat)
  deriving Repr, DecidableEq

inductive CallStatus where
  | waiting
  | preFence
  | executing
  /-- The effect has settled and its scope waits for its children. -/
  | draining (effectOk : Bool)
  | postFence (primaryOk : Bool)
  | settled (ok : Bool)
  deriving Repr, DecidableEq

structure OwnedCall where
  route : Route
  status : CallStatus
  /-- The scope opened for the effect of a fenced call. -/
  scope : Option Nat
  deriving Repr, DecidableEq

structure WriterScope where
  isOpen : Bool
  children : List Nat
  deriving Repr, DecidableEq

inductive Job where
  | effect (call : Nat)
  | release
  | terminal (guarded : Bool)
  deriving Repr, DecidableEq

inductive TransitionOutcome where
  | applied | failed | guardRejected
  deriving Repr, DecidableEq

/-- How far the release or terminal transition at the head of the queue has come. -/
inductive Transition where
  | waiting
  | releasing
  | preFence
  | guarding
  | executing (scope : Nat)
  | draining (scope : Nat) (effectOk : Bool)
  | settled (outcome : TransitionOutcome)
  deriving Repr, DecidableEq

structure WriterScheduler where
  accepting : Bool
  released : Bool
  releaseInFlight : Bool
  terminalInFlight : Bool
  terminalPrepared : Bool
  /-- The jobs behind the tail promise; the first one runs. -/
  tail : List Job
  transition : Transition
  scopes : List WriterScope
  calls : List OwnedCall
  deriving Repr, DecidableEq

namespace WriterScheduler

def init : WriterScheduler where
  accepting := true
  released := false
  releaseInFlight := false
  terminalInFlight := false
  terminalPrepared := false
  tail := []
  transition := .waiting
  scopes := []
  calls := []

variable (st : WriterScheduler)

def isOpen (scope : Nat) : Bool :=
  (st.scopes[scope]?).any WriterScope.isOpen

/-! ## Methods -/

def addCall (route : Route) (status : CallStatus) : WriterScheduler :=
  { st with calls := st.calls ++ [{ route, status, scope := none }] }

def reject (code : SchedulerErrorCode) : WriterScheduler :=
  st.addCall (.rejected code) (.settled false)

/-- The part of `run` for callers without an open scope. -/
def admitCall : WriterScheduler :=
  if st.accepting then
    { st.addCall .queued .waiting with tail := st.tail ++ [.effect st.calls.length] }
  else st.reject .closed

/-- Calls from an open scope of this scheduler. -/
def nested (method : OwnedMethod) (scope : Nat) : WriterScheduler :=
  match method with
  | .run =>
    { st.addCall (.inline scope true) .executing with
      scopes := st.scopes.modify scope fun s =>
        { s with children := s.children ++ [st.calls.length] } }
  | .runOwnedTransaction => st.addCall (.inline scope false) .executing
  | .runOwnedOperation => st.addCall (.operation scope) .preFence

/-- `run`, `runOwnedTransaction` and `runOwnedOperation`. -/
def call (method : OwnedMethod) : Inherited → WriterScheduler
  | .foreign true => st.reject .lockOrder
  | .own scope => if st.isOpen scope then st.nested method scope else st.admitCall
  | .none => st.admitCall
  | .foreign false => st.admitCall

def terminal (guarded : Bool) (inherited : Inherited) :
    WriterScheduler × Except SchedulerErrorCode Unit :=
  if inherited = .foreign true then (st, .error .lockOrder)
  else
    let closed := { st with accepting := false }
    match inherited with
    | .own scope =>
      if st.isOpen scope then (closed, .error .selfRelease) else enqueue closed
    | _ => enqueue closed
where
  enqueue (st : WriterScheduler) : WriterScheduler × Except SchedulerErrorCode Unit :=
    if st.released then (st, .error .closed)
    else if st.releaseInFlight then (st, .error .closed)
    else if st.terminalInFlight then (st, .ok ())
    else ({ st with tail := st.tail ++ [.terminal guarded], terminalInFlight := true }, .ok ())

def release (inherited : Inherited) : WriterScheduler × Except SchedulerErrorCode Unit :=
  if inherited = .foreign true then (st, .error .lockOrder)
  else
    let closed := { st with accepting := false }
    match inherited with
    | .own scope =>
      if st.isOpen scope then (closed, .error .selfRelease) else enqueue closed
    | _ => enqueue closed
where
  enqueue (st : WriterScheduler) : WriterScheduler × Except SchedulerErrorCode Unit :=
    if st.released then (st, .ok ())
    else if st.terminalInFlight then (st, .error .closed)
    else if st.releaseInFlight then (st, .ok ())
    else ({ st with tail := st.tail ++ [.release], releaseInFlight := true }, .ok ())

/-! ## Queued work -/

def setCall (c : Nat) (call : OwnedCall) : WriterScheduler :=
  { st with calls := st.calls.set c call }

def closeScope (scope : Nat) : WriterScheduler :=
  { st with scopes := st.scopes.modify scope fun s => { s with isOpen := false } }

/-- Children of a scope have all settled. -/
def childrenSettled (scope : Nat) : Bool :=
  ((st.scopes[scope]?).map WriterScope.children).getD [] |>.all fun c =>
    match st.calls[c]? with
    | some { status := .settled _, .. } => true
    | _ => false

/-- No child of a scope was rejected. -/
def childrenOk (scope : Nat) : Bool :=
  ((st.scopes[scope]?).map WriterScope.children).getD [] |>.all fun c =>
    match st.calls[c]? with
    | some { status := .settled ok, .. } => ok
    | _ => false

/-- A fenced call settles; a queued one gives way to the next job. -/
def settleFenced (c : Nat) (call : OwnedCall) (ok : Bool) : WriterScheduler :=
  let st := st.setCall c { call with status := .settled ok }
  if call.route = .queued then { st with tail := st.tail.tail } else st

/-- Run the effect of a terminal transition in a scope of its own. -/
def startTerminal : WriterScheduler :=
  { st with
    scopes := st.scopes ++ [{ isOpen := true, children := [] }]
    transition := .executing st.scopes.length }

/-- The guard of a terminal transition comes after its pre-fence. -/
def guardTerminal (guarded : Bool) : WriterScheduler :=
  if guarded then { st with transition := .guarding } else st.startTerminal

/-- The handlers of a transition's promise; they run before the next job starts. -/
def handleTransition (job : Job) (outcome : TransitionOutcome) : WriterScheduler :=
  let st := { st with tail := st.tail.tail, transition := .waiting }
  match job, outcome with
  | .release, .applied => { st with released := true, releaseInFlight := false }
  | .release, _ => { st with releaseInFlight := false }
  | .terminal _, .applied => { st with released := true, terminalInFlight := false }
  | .terminal _, .guardRejected =>
    { st with terminalInFlight := false, terminalPrepared := false, accepting := true }
  | .terminal _, .failed => { st with terminalInFlight := false }
  | .effect _, _ => st

inductive Event where
  | call (method : OwnedMethod) (inherited : Inherited)
  | terminal (guarded : Bool) (inherited : Inherited)
  | release (inherited : Inherited)
  /-- The job at the head of the queue starts. -/
  | start
  | preFence (call : Nat) (ok : Bool)
  | settle (call : Nat) (ok : Bool)
  /-- The loop over the children of a scope ends. -/
  | drained (call : Nat)
  | postFence (call : Nat) (ok : Bool)
  | releaseTransition (ok : Bool)
  | terminalPreFence (ok : Bool)
  | guard (ok : Bool)
  | terminalSettle (ok : Bool)
  | terminalDrained
  | handled
  deriving Repr, DecidableEq

/-- The job at the head of the queue starts. -/
def start : Option WriterScheduler :=
  match st.tail with
  | [] => none
  | .effect c :: _ =>
    match st.calls[c]? with
    | some call =>
      if call.status = .waiting then some (st.setCall c { call with status := .preFence })
      else none
    | none => none
  | .release :: _ =>
    if st.transition = .waiting then some { st with transition := .releasing } else none
  | .terminal guarded :: _ =>
    if st.transition = .waiting then
      if st.terminalPrepared then some (st.guardTerminal guarded)
      else some { st with transition := .preFence }
    else none

/-- `runQueued` and inline effects: what follows each of their promises. -/
def advance (c : Nat) (call : OwnedCall) : Event → Option WriterScheduler
  | .preFence _ ok =>
    if call.status = .preFence then
      if ok then
        some { st.setCall c { call with status := .executing, scope := some st.scopes.length } with
          scopes := st.scopes ++ [{ isOpen := true, children := [] }] }
      else some (st.settleFenced c call false)
    else none
  | .settle _ ok =>
    if call.status = .executing then
      match call.route with
      | .inline _ _ => some (st.setCall c { call with status := .settled ok })
      | _ => some (st.setCall c { call with status := .draining ok })
    else none
  | .drained _ =>
    match call.status, call.scope with
    | .draining ok, some scope =>
      if st.childrenSettled scope then
        some ((st.setCall c { call with status := .postFence (ok && st.childrenOk scope) }).closeScope
          scope)
      else none
    | _, _ => none
  | .postFence _ ok =>
    match call.status with
    | .postFence primaryOk => some (st.settleFenced c call (primaryOk && ok))
    | _ => none
  | _ => none

/-- `runTerminalQueued` and the release job: what follows each of their promises. -/
def advanceTransition (job : Job) : Event → Option WriterScheduler
  | .releaseTransition ok =>
    if st.transition = .releasing then
      some { st with transition := .settled (if ok then .applied else .failed) }
    else none
  | .terminalPreFence ok =>
    match job with
    | .terminal guarded =>
      if st.transition = .preFence then
        if ok then some ({ st with terminalPrepared := true }.guardTerminal guarded)
        else some { st with transition := .settled .failed }
      else none
    | _ => none
  | .guard ok =>
    if st.transition = .guarding then
      if ok then some st.startTerminal
      else some { st with transition := .settled .guardRejected }
    else none
  | .terminalSettle ok =>
    match st.transition with
    | .executing scope => some { st with transition := .draining scope ok }
    | _ => none
  | .terminalDrained =>
    match st.transition with
    | .draining scope ok =>
      if st.childrenSettled scope then
        some { st.closeScope scope with
          transition := .settled (if ok && st.childrenOk scope then .applied else .failed) }
      else none
    | _ => none
  | .handled =>
    match st.transition with
    | .settled outcome => some (st.handleTransition job outcome)
    | _ => none
  | _ => none

def step : Event → Option WriterScheduler
  | .call method inherited => some (st.call method inherited)
  | .terminal guarded inherited => some (st.terminal guarded inherited).1
  | .release inherited => some (st.release inherited).1
  | .start => st.start
  | .preFence c ok => (st.calls[c]?).bind (st.advance c · (.preFence c ok))
  | .settle c ok => (st.calls[c]?).bind (st.advance c · (.settle c ok))
  | .drained c => (st.calls[c]?).bind (st.advance c · (.drained c))
  | .postFence c ok => (st.calls[c]?).bind (st.advance c · (.postFence c ok))
  | .releaseTransition ok => (st.tail.head?).bind (st.advanceTransition · (.releaseTransition ok))
  | .terminalPreFence ok => (st.tail.head?).bind (st.advanceTransition · (.terminalPreFence ok))
  | .guard ok => (st.tail.head?).bind (st.advanceTransition · (.guard ok))
  | .terminalSettle ok => (st.tail.head?).bind (st.advanceTransition · (.terminalSettle ok))
  | .terminalDrained => (st.tail.head?).bind (st.advanceTransition · .terminalDrained)
  | .handled => (st.tail.head?).bind (st.advanceTransition · .handled)

end WriterScheduler

end PiRlm.Runtime

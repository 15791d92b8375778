/-
  PiRlm.Shell.DelegationClient

  `DelegationV2Client.run` of `shell/delegation/client.ts`, from a request that is
  normalized.

  The machine is one call.  Wherever the code calls the bus, the signal or the caller, it
  leaves a frame, and any event may come before that call returns or throws: the bus may
  run a handler it was given, a timer may fire, the signal may be aborted.
-/
import PiRlm.Lib.Machine
import PiRlm.Shell.DelegationProtocol

namespace PiRlm.Shell

open PiRlm.Lib

namespace DelegationV2Client

-- ============================================================================
-- States
-- ============================================================================

inductive Channel where
  | response
  | started
  | update
  deriving Repr, DecidableEq

/-- A call of code outside that has not returned. -/
inductive Frame (N : Type) where
  /-- `events.on`. -/
  | subscribing (channel : Channel)
  /-- `signal.addEventListener`. -/
  | listening
  /-- `events.emit` of the request. -/
  | requesting
  /-- A removal in `cleanup`, and what is left to do then. -/
  | removing (channel : Channel) (rest : List Channel) (outcome : DelegationV2Outcome N)
    (cancelRemote : Bool)
  /-- The removal of a subscription that came after the settlement. -/
  | discarding (channel : Channel)
  /-- `events.emit` of the cancel. -/
  | cancelling (outcome : DelegationV2Outcome N)
  /-- `options.onUpdate`. -/
  | updating
  deriving Repr

inductive Emission where
  | request
  | cancel
  deriving Repr, DecidableEq

/-- A call that is valid, and whether there are a signal and an update callback. -/
structure Call where
  identity : DelegationIdentity
  requestedResult : RequestedResult
  signal : Bool
  onUpdate : Bool
  deriving Repr, DecidableEq

structure State (N : Type) where
  frames : List (Frame N)
  unsubscribe : List Channel
  /-- The timers that are set and have not fired. -/
  startTimer : Bool
  deadlineTimer : Bool
  /-- The listener is registered. -/
  listener : Bool
  aborted : Bool
  settled : Bool
  requestEmitted : Bool
  cancelEmitted : Bool
  updateCount : Nat
  /-- The handlers that the bus was given. -/
  handlers : List Channel
  /-- The subscriptions that are obtained and not removed. -/
  subscriptions : List Channel
  /-- The subscriptions whose removal threw. -/
  unremoved : List Channel
  /-- The calls of `resolve`. -/
  outcomes : List (DelegationV2Outcome N)
  emitted : List Emission
  /-- The updates that the callback was given. -/
  updates : List (DelegationV2Update N)
  deriving Repr

inductive Event (N : Type) where
  | returns
  /-- `events.on` returns something that is no function. -/
  | returnsOther
  | throws
  | deliver (channel : Channel) (w : JsWorld N) (data : JsValue N)
  | startTimer
  | deadlineTimer
  | abort

-- ============================================================================
-- Settlement
-- ============================================================================

variable {N : Type}

def failure (code : DelegationV2FailureCode) (status : JsString) : DelegationV2Outcome N :=
  .failure code status none

namespace State

def push (s : State N) (frame : Frame N) : State N := { s with frames := frame :: s.frames }

def resolve (s : State N) (outcome : DelegationV2Outcome N) : State N :=
  { s with outcomes := s.outcomes ++ [outcome] }

/-- The end of `settle`, after `cleanup`. -/
def afterCleanup (s : State N) (outcome : DelegationV2Outcome N) (cancelRemote : Bool) : State N :=
  if cancelRemote ∧ s.requestEmitted ∧ ¬s.cancelEmitted then
    { s with
      cancelEmitted := true
      emitted := s.emitted ++ [.cancel]
      frames := .cancelling outcome :: s.frames }
  else s.resolve outcome

/-- The removals of `cleanup`. -/
def removeNext (s : State N) (outcome : DelegationV2Outcome N) (cancelRemote : Bool) :
    List Channel → State N
  | [] => s.afterCleanup outcome cancelRemote
  | channel :: rest => s.push (.removing channel rest outcome cancelRemote)

def settle (s : State N) (outcome : DelegationV2Outcome N) (cancelRemote : Bool) : State N :=
  if s.settled then s
  else
    removeNext
      { s with
        settled := true
        startTimer := false
        deadlineTimer := false
        listener := false
        unsubscribe := [] }
      outcome cancelRemote s.unsubscribe.reverse

def onAbort (s : State N) : State N := s.settle (failure .cancelled (js "cancelled")) true

end State

-- ============================================================================
-- Handlers
-- ============================================================================

namespace Call

variable [JsonNumber N] (call : Call)

def onStarted (s : State N) (w : JsWorld N) (data : JsValue N) : State N :=
  if !s.requestEmitted || !isDelegationV2Started w data call.identity then s
  else { s with startTimer := false }

def onUpdateEvent (s : State N) (w : JsWorld N) (data : JsValue N) : State N :=
  if !s.requestEmitted || s.settled || decide (DelegationV2Limits.maxUpdates ≤ s.updateCount) ||
      !call.onUpdate then s
  else
    match parseDelegationV2Update w data call.identity with
    | none => s
    | some update =>
      { s with
        updateCount := s.updateCount + 1
        updates := s.updates ++ [update]
        frames := .updating :: s.frames }

def onResponse (s : State N) (w : JsWorld N) (data : JsValue N) : State N :=
  if !s.requestEmitted || s.settled then s
  else
    match parseDelegationV2Terminal w data call.identity call.requestedResult with
    | .unrelated => s
    | .invalid => s.settle (failure .invalidResult (js "invalid_result")) true
    | .outcome outcome => s.settle outcome false

def handle (s : State N) (channel : Channel) (w : JsWorld N) (data : JsValue N) : State N :=
  match channel with
  | .response => call.onResponse s w data
  | .started => call.onStarted s w data
  | .update => call.onUpdateEvent s w data

end Call

-- ============================================================================
-- The body of a call
-- ============================================================================

/-- `events.on` of the next channel. -/
def State.subscribe (s : State N) (channel : Channel) : State N :=
  { s with handlers := s.handlers ++ [channel], frames := .subscribing channel :: s.frames }

/-- The timers are set, and `events.emit` of the request. -/
def State.emitRequest (s : State N) : State N :=
  { s with
    startTimer := true
    deadlineTimer := true
    requestEmitted := true
    emitted := s.emitted ++ [.request]
    frames := .requesting :: s.frames }

namespace Call

variable (call : Call)

def afterListening (s : State N) : State N :=
  if call.signal && s.aborted then s.settle (failure .cancelled (js "cancelled")) false
  else s.emitRequest

def listen (s : State N) : State N :=
  if call.signal then s.push .listening else call.afterListening s

/-- What follows a `subscribe` that succeeds. -/
def afterSubscribe (s : State N) : Channel → State N
  | .response => s.subscribe .started
  | .started => s.subscribe .update
  | .update => call.listen s

/-- `events.on` returns a function. -/
def subscribed (s : State N) (channel : Channel) : State N :=
  let obtained := { s with subscriptions := s.subscriptions ++ [channel] }
  if s.settled then obtained.push (.discarding channel)
  else
    call.afterSubscribe { obtained with unsubscribe := s.unsubscribe ++ [channel] } channel

def returned (s : State N) : Frame N → State N
  | .subscribing channel => call.subscribed s channel
  | .listening => call.afterListening { s with listener := true }
  | .requesting => s
  | .removing channel rest outcome cancelRemote =>
    State.removeNext { s with subscriptions := s.subscriptions.erase channel } outcome
      cancelRemote rest
  | .discarding channel =>
    call.afterSubscribe { s with subscriptions := s.subscriptions.erase channel } channel
  | .cancelling outcome => s.resolve outcome
  | .updating => s

def thrown (s : State N) : Frame N → State N
  | .subscribing _ => s.settle (failure .unavailableContext (js "unavailable_context")) false
  | .listening => s.settle (failure .cancelled (js "cancelled")) false
  | .requesting => s.settle (failure .unavailableContext (js "unavailable_context")) true
  | .removing channel rest outcome cancelRemote =>
    State.removeNext { s with unremoved := s.unremoved ++ [channel] } outcome cancelRemote rest
  | .discarding channel =>
    call.afterSubscribe { s with unremoved := s.unremoved ++ [channel] } channel
  | .cancelling outcome => s.resolve outcome
  | .updating => s

-- ============================================================================
-- The machine
-- ============================================================================

variable [JsonNumber N]

def step (s : State N) : Event N → Option (State N)
  | .returns =>
    match s.frames with
    | [] => none
    | frame :: frames => some (call.returned { s with frames := frames } frame)
  | .returnsOther =>
    match s.frames with
    | .subscribing channel :: frames =>
      some (call.thrown { s with frames := frames } (.subscribing channel))
    | _ => none
  | .throws =>
    match s.frames with
    | [] => none
    | frame :: frames => some (call.thrown { s with frames := frames } frame)
  | .deliver channel w data =>
    if channel ∈ s.handlers then some (call.handle s channel w data) else none
  | .startTimer =>
    if s.startTimer then
      some (State.settle { s with startTimer := false }
        (failure .unavailableContext (js "unavailable_context")) true)
    else none
  | .deadlineTimer =>
    if s.deadlineTimer then
      some (State.settle { s with deadlineTimer := false } (failure .timeout (js "timed_out")) true)
    else none
  | .abort =>
    if call.signal && !s.aborted then
      let s := { s with aborted := true }
      some (if s.listener then State.onAbort { s with listener := false } else s)
    else none

/-- A call that is new. -/
def idle : State N where
  frames := []
  unsubscribe := []
  startTimer := false
  deadlineTimer := false
  listener := false
  aborted := false
  settled := false
  requestEmitted := false
  cancelEmitted := false
  updateCount := 0
  handlers := []
  subscriptions := []
  unremoved := []
  outcomes := []
  emitted := []
  updates := []

/-- `run`; with a signal that is aborted already nothing is started, and the call counts as
    settled. -/
def start (aborted : Bool) : State N :=
  if call.signal && aborted then
    { idle with
      aborted := true
      settled := true
      outcomes := [failure .cancelled (js "cancelled")] }
  else idle.subscribe .response

end Call

end DelegationV2Client

end PiRlm.Shell

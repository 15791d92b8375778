/-
  PiRlm.Core.JournalStatus

  `reduceStatus` of `core/journal.ts`: the fold of the events of a run into its status.

  An event carries the members that the fold reads.  The registries are keyed by texts that
  join their parts with a zero unit, as the source builds them.
-/
import PiRlm.Core.Ids
import PiRlm.Core.Journal
import PiRlm.Lib.OrderedMap

namespace PiRlm.Core.Status

open PiRlm.Lib

/-- Kinds of events of a frame that the fold passes over. -/
inductive PassedKind where
  | workspaceCommitted | agentApproval | fallbackEvidenceProjected | fallbackEvidenceCited
  | operationIntended | operationSettled | checkpointCommitted
  deriving Repr, DecidableEq

inductive Event (N : Type) where
  | runStarted (runId manifestHash : JsString)
  | frameOpened (frameId : JsString) (parentFrameId : Option JsString) (depth : N)
      (objective : JsString)
  | phase (frameId : JsString) (iteration ordinal : N) (name : JsString)
  | emit (frameId : JsString) (iteration ordinal : N) (message : JsString)
  | passed (kind : PassedKind) (frameId : JsString)
  | keyBound (frameId : JsString) (kind : CallKind) (key identityHash : JsString)
  | cellCommitted (frameId : JsString) (iteration : N) (outputPreview : JsString)
  | callCommitted (frameId callId : JsString)
  | answerCommitted (frameId : JsString)
  | frameClosed (frameId : JsString) (state : FrameState)
  | runCompleted (completionMode : CompletionMode) (outputRef : Option JsString)
  | runFailed (code message : JsString)
  | runCancelled (code message : JsString)
  deriving Repr, DecidableEq

inductive RunState where
  | running | completed | failed | cancelled
  deriving Repr, DecidableEq

structure EventErrorInfo where
  code : JsString
  message : JsString
  deriving Repr, DecidableEq

structure FrameStatus (N : Type) where
  frameId : JsString
  parentFrameId : Option JsString
  depth : N
  objective : JsString
  iterations : Nat
  calls : Nat
  phase : Option JsString
  lastOutputPreview : Option JsString
  state : FrameState
  deriving Repr, DecidableEq

structure KeyBindingStatus where
  frameId : JsString
  kind : CallKind
  key : JsString
  identityHash : JsString
  deriving Repr, DecidableEq

structure RunStatus (N : Type) where
  runId : Option JsString
  manifestHash : Option JsString
  state : RunState
  completionMode : Option CompletionMode
  outputRef : Option JsString
  error : Option EventErrorInfo
  /-- The own properties of the record of frames, in enumeration order. -/
  frames : List (JsString × FrameStatus N)
  frameOrder : List JsString
  committedCallIds : List JsString
  keyBindings : List KeyBindingStatus
  deriving Repr, DecidableEq

structure MutableFrame (N : Type) extends FrameStatus N where
  seenIterations : List N
  deriving Repr, DecidableEq

/-- The variables of the fold. -/
structure State (N : Type) where
  runId : Option JsString
  manifestHash : Option JsString
  state : RunState
  completionMode : Option CompletionMode
  outputRef : Option JsString
  error : Option EventErrorInfo
  terminal : Bool
  frames : OrderedMap JsString (MutableFrame N)
  frameOrder : List JsString
  committedCallIds : List JsString
  keyBindings : OrderedMap JsString KeyBindingStatus
  committedCells : List JsString
  seenProgress : List JsString
  pendingPhases : OrderedMap JsString (List (N × JsString))
  deriving Repr

def State.initial {N : Type} : State N where
  runId := none
  manifestHash := none
  state := .running
  completionMode := none
  outputRef := none
  error := none
  terminal := false
  frames := []
  frameOrder := []
  committedCallIds := []
  keyBindings := []
  committedCells := []
  seenProgress := []
  pendingPhases := []

/-- `\u0000`. -/
def zeroUnit : JsString := [0]

def registryKey (frameId : JsString) (kind : CallKind) (key : JsString) : JsString :=
  if kind = .recurse then frameId ++ (zeroUnit ++ (kind.text ++ (zeroUnit ++ key)))
  else kind.text ++ (zeroUnit ++ key)

variable {N : Type} [JsonNumber N]

def cellKey (frameId : JsString) (iteration : N) : JsString :=
  frameId ++ (zeroUnit ++ JsonNumber.text iteration)

def progressKey (frameId : JsString) (iteration ordinal : N) : JsString :=
  cellKey frameId iteration ++ (zeroUnit ++ JsonNumber.text ordinal)

/-- The phases of a cell in the order of their ordinals. -/
def byOrdinal (pending : List (N × JsString)) : List (N × JsString) :=
  pending.insertionSort fun a b => JsonNumber.value a.1 ≤ JsonNumber.value b.1

/-- `for (const phase of pending.sort(...)) f.phase = phase.name`. -/
def releasePhases (pending : List (N × JsString)) (f : MutableFrame N) : MutableFrame N :=
  (byOrdinal pending).foldl (fun f phase => { f with phase := some phase.2 }) f

def applyPendingPhase (st : State N) (frameId : JsString) (iteration : N) : State N :=
  match st.frames.get frameId with
  | none => st
  | some f =>
    match st.pendingPhases.get (cellKey frameId iteration) with
    | none => st
    | some pending =>
      { st with
        frames := st.frames.set frameId (releasePhases pending f)
        pendingPhases := st.pendingPhases.delete (cellKey frameId iteration) }

/-- An assignment to the frame, if there is one. -/
def updateFrame (st : State N) (frameId : JsString) (update : MutableFrame N → MutableFrame N) :
    State N :=
  match st.frames.get frameId with
  | none => st
  | some f => { st with frames := st.frames.set frameId (update f) }

/-- What the first commit of a cell assigns, before the phases of the cell. -/
def commitCell (st : State N) (f : MutableFrame N) (frameId : JsString) (iteration : N)
    (outputPreview : JsString) : State N :=
  { st with
    frames := st.frames.set frameId
      { f with
        seenIterations := f.seenIterations ++ [iteration]
        iterations := f.iterations + 1
        lastOutputPreview := some outputPreview }
    committedCells := insertNew st.committedCells (cellKey frameId iteration) }

variable [DecidableEq N]

/-- The body of the loop. -/
def reduceEvent (st : State N) : Event N → State N
  | .runStarted runId manifestHash =>
    { st with runId := some runId, manifestHash := some manifestHash }
  | .frameOpened frameId parentFrameId depth objective =>
    if st.frames.has frameId then st
    else
      { st with
        frames := st.frames.set frameId
          { frameId, parentFrameId, depth, objective, iterations := 0, calls := 0, phase := none,
            lastOutputPreview := none, state := .open, seenIterations := [] }
        frameOrder := st.frameOrder ++ [frameId] }
  | .phase frameId iteration ordinal name =>
    let cell := cellKey frameId iteration
    let progress := progressKey frameId iteration ordinal
    if progress ∈ st.seenProgress then st
    else
      let st := { st with seenProgress := insertNew st.seenProgress progress }
      if cell ∈ st.committedCells then updateFrame st frameId fun f => { f with phase := some name }
      else
        { st with
          pendingPhases :=
            st.pendingPhases.set cell ((st.pendingPhases.get cell).getD [] ++ [(ordinal, name)]) }
  | .emit frameId iteration ordinal _ =>
    { st with seenProgress := insertNew st.seenProgress (progressKey frameId iteration ordinal) }
  | .passed _ _ => st
  | .keyBound frameId kind key identityHash =>
    if st.keyBindings.has (registryKey frameId kind key) then st
    else
      { st with
        keyBindings := st.keyBindings.set (registryKey frameId kind key)
          { frameId, kind, key, identityHash } }
  | .cellCommitted frameId iteration outputPreview =>
    match st.frames.get frameId with
    | none => st
    | some f =>
      if iteration ∈ f.seenIterations then st
      else
        applyPendingPhase (commitCell st f frameId iteration outputPreview) frameId iteration
  | .callCommitted frameId callId =>
    match st.frames.get frameId with
    | none => st
    | some f =>
      if callId ∈ st.committedCallIds then st
      else
        { st with
          committedCallIds := insertNew st.committedCallIds callId
          frames := st.frames.set frameId { f with calls := f.calls + 1 } }
  | .answerCommitted frameId => updateFrame st frameId fun f => { f with state := .answered }
  | .frameClosed frameId state => updateFrame st frameId fun f => { f with state }
  | .runCompleted completionMode outputRef =>
    if st.terminal then st
    else
      { st with
        terminal := true, state := .completed, completionMode := some completionMode,
        outputRef := outputRef.or st.outputRef }
  | .runFailed code message =>
    if st.terminal then st
    else { st with terminal := true, state := .failed, error := some ⟨code, message⟩ }
  | .runCancelled code message =>
    if st.terminal then st
    else { st with terminal := true, state := .cancelled, error := some ⟨code, message⟩ }

omit [DecidableEq N] [JsonNumber N] in
/-- `frameStatuses`: an assignment to `__proto__` creates no own property. -/
def frameStatuses (frames : OrderedMap JsString (MutableFrame N)) :
    List (JsString × FrameStatus N) :=
  ownOrder Prod.fst ((frames.filter fun e => decide (e.1 ≠ js "__proto__")).map
    fun e => (e.1, e.2.toFrameStatus))

omit [DecidableEq N] [JsonNumber N] in
def State.status (st : State N) : RunStatus N where
  runId := st.runId
  manifestHash := st.manifestHash
  state := st.state
  completionMode := st.completionMode
  outputRef := st.outputRef
  error := st.error
  frames := frameStatuses st.frames
  frameOrder := st.frameOrder
  committedCallIds := st.committedCallIds
  keyBindings := st.keyBindings.map Prod.snd

/-- Fold an ordered event list into a run status projection. -/
def reduceStatus (events : List (Event N)) : RunStatus N :=
  (events.foldl reduceEvent .initial).status

end PiRlm.Core.Status

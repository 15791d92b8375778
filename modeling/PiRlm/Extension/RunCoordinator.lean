/-
  PiRlm.Extension.RunCoordinator

  Ownership, aliases and cancellation of runs, of `extension/run-coordinator.ts`.

  The record of a run is named by its place in a list that only grows.  What a progress
  source answers is given by the environment, one answer for each read.  Approvals, the
  objective preview and the counters of a snapshot are left out: no operation here reads
  them.
-/
import Mathlib
import PiRlm.Runtime.RunWriterProtocol

namespace PiRlm.Extension

open PiRlm.Lib PiRlm.Core PiRlm.Runtime

def runCoordinatorMaxActive : Nat := 16
def runCoordinatorMaxRecent : Nat := 32
def runCoordinatorMaxSubscribers : Nat := 32

-- ============================================================================
-- Aliases and codes
-- ============================================================================

def isLetter (u : CodeUnit) : Bool :=
  (decide (0x41 ≤ u.val) && decide (u.val ≤ 0x5A)) ||
    (decide (0x61 ≤ u.val) && decide (u.val ≤ 0x7A))

/-- `/^run_[a-f0-9]{64}$/`. -/
def isRunId (s : JsString) : Bool := isPrefixedHash (js "run_") s

/-- `/^[A-Za-z0-9_.:-]{1,128}$/`. -/
def isSafeAlias (s : JsString) : Bool :=
  decide (0 < s.length) && decide (s.length ≤ 128) && s.all fun u =>
    isLetter u || isDigit u || u == 0x5F || u == 0x2E || u == 0x3A || u == 0x2D

/-- `/^[A-Z][A-Z0-9_-]{0,63}$/`. -/
def isSafeCode (s : JsString) : Bool :=
  let upper (u : CodeUnit) : Bool := decide (0x41 ≤ u.val) && decide (u.val ≤ 0x5A)
  s.head?.any upper && decide (s.length ≤ 64) && s.all fun u =>
    upper u || isDigit u || u == 0x5F || u == 0x2D

/-- `/^[A-Za-z0-9_-]{32,256}$/`. -/
def isControlToken (s : JsString) : Bool :=
  decide (32 ≤ s.length) && decide (s.length ≤ 256) && s.all fun u =>
    isLetter u || isDigit u || u == 0x5F || u == 0x2D

-- ============================================================================
-- Records
-- ============================================================================

inductive TerminalStatus where
  | completed | failed | cancelled
  deriving Repr, DecidableEq

inductive RunCompletionMode where
  | answer | fallbackExtract
  deriving Repr, DecidableEq

structure RunTerminalProjection where
  status : TerminalStatus
  completionMode : Option RunCompletionMode
  errorCode : Option JsString
  warningCodes : List JsString
  deriving Repr, DecidableEq

/-- What `finish` reads of a result. -/
structure RunResult where
  runId : JsString
  status : TerminalStatus
  completionMode : Option RunCompletionMode
  errorCode : Option JsString
  warningCodes : List JsString
  deriving Repr, DecidableEq

def terminalProjection (result : RunResult) : RunTerminalProjection where
  status := result.status
  completionMode := result.completionMode
  errorCode := result.errorCode.filter isSafeCode
  warningCodes :=
    let codes := result.warningCodes.filter isSafeCode
    codes.drop (codes.length - 8)

inductive FailedStatus where
  | failed | cancelled
  deriving Repr, DecidableEq

def failedProjection (status : FailedStatus) (errorCode : Option JsString) :
    RunTerminalProjection where
  status := match status with
    | .failed => .failed
    | .cancelled => .cancelled
  completionMode := none
  errorCode := errorCode.filter isSafeCode
  warningCodes := []

structure RunProgressSnapshot where
  sequence : ℚ
  runId : Option JsString
  phase : JsString
  deriving Repr, DecidableEq

/-- The run that a snapshot names; the empty string names none. -/
def RunProgressSnapshot.named (snapshot : RunProgressSnapshot) : Option JsString :=
  snapshot.runId.filter fun runId => !runId.isEmpty

inductive EarlyPhase where
  | sourceCapture | initializing | allocating
  deriving Repr, DecidableEq

def EarlyPhase.text : EarlyPhase → JsString
  | .sourceCapture => js "source_capture"
  | .initializing => js "initializing"
  | .allocating => js "allocating"

/-- `record.progress?.sequence ?? -1`. -/
def lastSequence : Option RunProgressSnapshot → ℚ
  | none => -1
  | some progress => progress.sequence

structure LocalRunControl where
  localId : JsString
  token : JsString
  deriving Repr, DecidableEq

structure RecordState where
  control : LocalRunControl
  sessionId : JsString
  generation : Int
  runId : Option JsString
  runName : Option JsString
  progress : Option RunProgressSnapshot
  progressSource : Bool
  identityConflict : Bool
  cancelRequested : Bool
  terminal : Option RunTerminalProjection
  ownerSignal : Option Nat
  deriving Repr, DecidableEq

inductive AliasKind where
  | runId | runName
  deriving Repr, DecidableEq

def AliasKind.valid : AliasKind → JsString → Bool
  | .runId => isRunId
  | .runName => isRunName

namespace RecordState

/-- `record[kind]`. -/
def named (record : RecordState) : AliasKind → Option JsString
  | .runId => record.runId
  | .runName => record.runName

def setAlias (record : RecordState) (kind : AliasKind) (name : JsString) : RecordState :=
  match kind with
  | .runId => { record with runId := some name }
  | .runName => { record with runName := some name }

end RecordState

structure SessionBinding where
  sessionId : JsString
  generation : Int
  deriving Repr, DecidableEq

structure Coordinator where
  records : List RecordState
  active : List Nat
  recent : List Nat
  aliases : JsString → Option Nat
  currentSession : Option SessionBinding
  minimumGeneration : Int
  subscribers : Nat
  /-- The owner signals that have fired. -/
  aborted : List Nat
  /-- The reads of progress sources so far. -/
  reads : Nat

inductive CoordinatorCode where
  | runNotFound | runNotOwned | runTerminal | aliasCollision | invalidAlias | identityMismatch
  deriving Repr, DecidableEq

inductive CoordinatorMutationResult where
  | ok
  | refused (code : CoordinatorCode)
  deriving Repr, DecidableEq

inductive CoordinatorCancelResult where
  | requested
  | alreadyRequested
  | refused (code : CoordinatorCode)
  deriving Repr, DecidableEq

inductive CoordinatorError where
  | sessionInvalid | staleGeneration | activeLimit | idCollision | tokenInvalid | subscriberLimit
  deriving Repr, DecidableEq

inductive CoordinatedRunState where
  | running | cancelling | terminal (status : TerminalStatus)
  deriving Repr, DecidableEq

structure CoordinatedRun where
  localId : JsString
  runId : Option JsString
  runName : Option JsString
  sessionId : JsString
  authorizationGeneration : Int
  state : CoordinatedRunState
  progress : Option RunProgressSnapshot
  terminal : Option RunTerminalProjection
  deriving Repr, DecidableEq

namespace Coordinator

def modify (s : Coordinator) (i : Nat) (f : RecordState → RecordState) : Coordinator :=
  { s with records := s.records.modify i f }

/-- An alias that no other record has. -/
def aliasFree (s : Coordinator) (i : Nat) (name : JsString) : Bool :=
  match s.aliases name with
  | some j => decide (j = i)
  | none => true

def bind (s : Coordinator) (i : Nat) (kind : AliasKind) (name : JsString) : Coordinator :=
  { s.modify i (·.setAlias kind name) with aliases := Function.update s.aliases name (some i) }

def conflict (s : Coordinator) (i : Nat) : Coordinator :=
  s.modify i ({ · with identityConflict := true })

-- ============================================================================
-- Progress and projection
-- ============================================================================

/-- The run that a read snapshot names. -/
def identify (s : Coordinator) (i : Nat) (record : RecordState) (runId : JsString) : Coordinator :=
  if !isRunId runId || decide (record.runId.isSome ∧ record.runId ≠ some runId) then s.conflict i
  else if record.runId.isNone then
    if s.aliasFree i runId then s.bind i .runId runId else s.conflict i
  else s

def readSnapshot (s : Coordinator) (i : Nat) (record : RecordState)
    (snapshot : RunProgressSnapshot) : Coordinator :=
  let read :=
    if lastSequence record.progress ≤ snapshot.sequence then
      s.modify i ({ · with progress := some snapshot })
    else s
  match snapshot.named with
  | none => read
  | some runId => read.identify i record runId

variable (source : Nat → Option RunProgressSnapshot)

/-- A read that throws changes nothing. -/
def refresh (s : Coordinator) (i : Nat) : Coordinator :=
  match s.records[i]? with
  | none => s
  | some record =>
    if record.progressSource && record.terminal.isNone then
      match source s.reads with
      | none => { s with reads := s.reads + 1 }
      | some snapshot => { s with reads := s.reads + 1 }.readSnapshot i record snapshot
    else s

def projection (record : RecordState) : CoordinatedRun where
  localId := record.control.localId
  runId := record.runId
  runName := record.runName
  sessionId := record.sessionId
  authorizationGeneration := record.generation
  state := match record.terminal with
    | some terminal => .terminal terminal.status
    | none => if record.cancelRequested then .cancelling else .running
  progress := record.progress
  terminal := record.terminal

def project (s : Coordinator) (i : Nat) : Coordinator × Option CoordinatedRun :=
  let s := s.refresh source i
  (s, s.records[i]?.map projection)

def projectAll (s : Coordinator) : List Nat → Coordinator × List CoordinatedRun
  | [] => (s, [])
  | i :: rest =>
    let (s, run) := s.project source i
    let (s, runs) := s.projectAll rest
    (s, run.toList ++ runs)

def listing (s : Coordinator) : Coordinator × List CoordinatedRun :=
  s.projectAll source (s.active ++ s.recent)

def notify (s : Coordinator) : Coordinator :=
  if s.subscribers = 0 then s else (s.listing source).1

-- ============================================================================
-- Mutations
-- ============================================================================

/-- `aliases.delete(alias)`, of an alias of this record. -/
def release (s : Coordinator) (i : Nat) (name : Option JsString) : Coordinator :=
  match name with
  | none => s
  | some name =>
    if s.aliases name = some i then
      { s with aliases := Function.update s.aliases name none }
    else s

def unbind (s : Coordinator) (i : Nat) : Coordinator :=
  match s.records[i]? with
  | none => s
  | some record =>
    ((s.release i record.control.localId).release i record.runId).release i record.runName

/-- The loop that pops the last recent records; the oldest goes first. -/
def evict (s : Coordinator) : Coordinator :=
  (s.recent.drop runCoordinatorMaxRecent).reverse.foldl unbind
    { s with recent := s.recent.take runCoordinatorMaxRecent }

/-- What `terminalize` does to a record without a terminal. -/
def retire (s : Coordinator) (i : Nat) (terminal : RunTerminalProjection) : Coordinator :=
  let s := s.modify i
    ({ · with progressSource := false, terminal := some terminal, ownerSignal := none })
  evict { s with active := s.active.erase i, recent := i :: s.recent }

def terminalize (s : Coordinator) (i : Nat) (terminal : RunTerminalProjection)
    (refreshProgress : Bool) : Coordinator × CoordinatorMutationResult :=
  match s.records[i]? with
  | none => (s, .refused .runNotFound)
  | some record =>
    if record.terminal.isSome then (s, .refused .runTerminal)
    else
      let s := if refreshProgress then s.refresh source i else s
      ((s.retire i terminal).notify source, .ok)

def owned (s : Coordinator) (control : LocalRunControl) : Option Nat :=
  (s.aliases control.localId).filter fun i => s.records[i]?.any (decide <| ·.control = control)

def bindAlias (s : Coordinator) (i : Nat) (name : JsString) (kind : AliasKind)
    (publish : Bool) : Coordinator × CoordinatorMutationResult :=
  match s.records[i]? with
  | none => (s, .refused .runNotFound)
  | some record =>
    if record.terminal.isSome then (s, .refused .runTerminal)
    else if !kind.valid name then (s, .refused .invalidAlias)
    else if record.named kind = some name then (s, .ok)
    else if (record.named kind).isSome || !s.aliasFree i name then (s, .refused .aliasCollision)
    else
      let s := s.bind i kind name
      (if publish then s.notify source else s, .ok)

def cancel (s : Coordinator) (control : LocalRunControl) : Coordinator × CoordinatorCancelResult :=
  match s.owned control with
  | none =>
    (s, .refused (if (s.aliases control.localId).isSome then .runNotOwned else .runNotFound))
  | some i =>
    match s.records[i]? with
    | none => (s, .refused .runNotFound)
    | some record =>
      if record.terminal.isSome then (s, .refused .runTerminal)
      else if record.cancelRequested then (s, .alreadyRequested)
      else ((s.modify i ({ · with cancelRequested := true })).notify source, .requested)

/-- `cancel` with the control of each record in turn. -/
def cancelEach (s : Coordinator) (indices : List Nat) : Coordinator :=
  indices.foldl (fun s i =>
    match s.records[i]? with
    | none => s
    | some record => (s.cancel source record.control).1) s

-- ============================================================================
-- Operations
-- ============================================================================

variable (isControlOrFormat : Nat → Bool)

/-- The parameter holds of the control and format characters. -/
def validSession (value : JsString) : Bool :=
  decide ((utf8 value).length ≤ 256) && !value.isEmpty &&
    !(codePoints value).any isControlOrFormat

def setSession (s : Coordinator) (sessionId : JsString) (generation : Int) :
    Except CoordinatorError Coordinator :=
  if !validSession isControlOrFormat sessionId || decide (maxSafeInteger < generation.natAbs) ||
      decide (generation < 0) then
    .error .sessionInvalid
  else if decide (generation < s.minimumGeneration) ||
      s.currentSession.any (fun current => decide (generation < current.generation) ||
        (decide (generation = current.generation) && decide (current.sessionId ≠ sessionId))) then
    .error .staleGeneration
  else
    let cancelled :=
      if s.currentSession.any fun current => decide (current.generation ≠ generation) then
        s.cancelEach source s.active
      else s
    .ok { cancelled with
      minimumGeneration := max s.minimumGeneration generation
      currentSession := some ⟨sessionId, generation⟩ }

def invalidateSession (s : Coordinator) : Coordinator :=
  { s.cancelEach source s.active with
    minimumGeneration := match s.currentSession with
      | some current => max s.minimumGeneration (current.generation + 1)
      | none => s.minimumGeneration
    currentSession := none }

/-- The arguments of `create`, with what `createLocalId` and `createControlToken` answer. -/
structure CreateInput where
  sessionId : JsString
  authorizationGeneration : Int
  ownerSignal : Option Nat
  localIds : List JsString
  token : JsString
  deriving Repr, DecidableEq

def newRecord (input : CreateInput) (localId : JsString) : RecordState where
  control := ⟨localId, input.token⟩
  sessionId := input.sessionId
  generation := input.authorizationGeneration
  runId := none
  runName := none
  progress := none
  progressSource := false
  identityConflict := false
  cancelRequested := false
  terminal := none
  ownerSignal := input.ownerSignal

def register (s : Coordinator) (record : RecordState) : Coordinator :=
  { s with
    records := s.records ++ [record]
    active := s.active ++ [s.records.length]
    aliases := Function.update s.aliases record.control.localId (some s.records.length) }

def create (s : Coordinator) (input : CreateInput) :
    Except CoordinatorError (Coordinator × LocalRunControl) :=
  if s.currentSession ≠ some ⟨input.sessionId, input.authorizationGeneration⟩ then
    .error .staleGeneration
  else if runCoordinatorMaxActive ≤ s.active.length then .error .activeLimit
  else
    match (input.localIds.take 8).find? fun candidate =>
      isSafeAlias candidate && (s.aliases candidate).isNone with
    | none => .error .idCollision
    | some localId =>
      if !isControlToken input.token then .error .tokenInvalid
      else
        let admitted := s.register (newRecord input localId)
        let bound :=
          if input.ownerSignal.any (fun signal => decide (signal ∈ s.aborted)) then
            (admitted.cancel source ⟨localId, input.token⟩).1
          else admitted
        .ok (bound.notify source, ⟨localId, input.token⟩)

/-- An operation of a handle that mutates its record. -/
def mutate (s : Coordinator) (control : LocalRunControl)
    (operation : Nat → RecordState → Coordinator × CoordinatorMutationResult) :
    Coordinator × CoordinatorMutationResult :=
  match s.owned control with
  | none => (s, .refused .runNotOwned)
  | some i =>
    match s.records[i]? with
    | none => (s, .refused .runNotOwned)
    | some record => operation i record

def setPhase (s : Coordinator) (control : LocalRunControl) (phase : EarlyPhase) :
    Coordinator × CoordinatorMutationResult :=
  s.mutate control fun i record =>
    if record.terminal.isSome then (s, .refused .runTerminal)
    else
      ((s.modify i ({ · with
        progressSource := false
        progress := some ⟨lastSequence record.progress + 1, none, phase.text⟩ })).notify source, .ok)

def attachProgress (s : Coordinator) (control : LocalRunControl) :
    Coordinator × CoordinatorMutationResult :=
  s.mutate control fun i record =>
    if record.terminal.isSome then (s, .refused .runTerminal)
    else
      (((s.modify i ({ · with progressSource := true, progress := none })).refresh
        source i).notify source, .ok)

/-- The run that an observed snapshot names. -/
def observeIdentity (s : Coordinator) (i : Nat) (record : RecordState) (runId : JsString) :
    Coordinator :=
  if record.runId.isSome ∧ record.runId ≠ some runId then s.conflict i
  else if record.runId.isNone then
    match s.bindAlias source i runId .runId false with
    | (s, .ok) => s
    | (s, .refused _) => s.conflict i
  else s

def observe (s : Coordinator) (control : LocalRunControl) (snapshot : RunProgressSnapshot) :
    Coordinator × CoordinatorMutationResult :=
  s.mutate control fun i record =>
    if record.terminal.isSome then (s, .refused .runTerminal)
    else if snapshot.sequence < lastSequence record.progress then (s, .ok)
    else
      let read := s.modify i ({ · with progress := some snapshot })
      let identified := match snapshot.named with
        | none => read
        | some runId => read.observeIdentity source i record runId
      (identified.notify source, .ok)

def finish (s : Coordinator) (control : LocalRunControl) (result : RunResult) :
    Coordinator × CoordinatorMutationResult :=
  s.mutate control fun i _ =>
    let s := s.refresh source i
    match s.records[i]? with
    | none => (s, .refused .runNotOwned)
    | some record =>
      if record.identityConflict ∨ (record.runId.isSome ∧ record.runId ≠ some result.runId) then
        (s, .refused .identityMismatch)
      else if record.runId.isNone then
        match s.bindAlias source i result.runId .runId false with
        | (s, .ok) => s.terminalize source i (terminalProjection result) false
        | refused => refused
      else s.terminalize source i (terminalProjection result) false

def fail (s : Coordinator) (control : LocalRunControl) (status : FailedStatus)
    (errorCode : Option JsString) : Coordinator × CoordinatorMutationResult :=
  s.mutate control fun i _ => s.terminalize source i (failedProjection status errorCode) true

def resolve (s : Coordinator) (name : JsString) : Coordinator × Option CoordinatedRun :=
  if !isSafeAlias name then (s, none)
  else
    match s.aliases name with
    | none => (s, none)
    | some i => s.project source i

def cancelLocalAlias (s : Coordinator) (name : JsString) :
    Coordinator × CoordinatorCancelResult :=
  if !isSafeAlias name then (s, .refused .runNotFound)
  else
    match (s.aliases name).bind (s.records[·]?) with
    | none => (s, .refused .runNotFound)
    | some record =>
      if record.control.localId ≠ name then (s, .refused .runNotFound)
      else s.cancel source record.control

/-- An owner signal fires once; its listeners cancel the records that wait for it. -/
def ownerAbort (s : Coordinator) (signal : Nat) : Coordinator :=
  if signal ∈ s.aborted then s
  else
    { s with aborted := s.aborted ++ [signal] }.cancelEach source
      ((List.range s.records.length).filter fun i =>
        s.records[i]?.any fun (record : RecordState) => decide (record.ownerSignal = some signal))

def subscribe (s : Coordinator) : Except CoordinatorError Coordinator :=
  if runCoordinatorMaxSubscribers ≤ s.subscribers then .error .subscriberLimit
  else .ok { s with subscribers := s.subscribers + 1 }

def unsubscribe (s : Coordinator) : Coordinator :=
  { s with subscribers := s.subscribers - 1 }

-- ============================================================================
-- Runs
-- ============================================================================

end Coordinator

inductive HandleOp where
  | setPhase (phase : EarlyPhase)
  | bindRunName (runName : JsString)
  | bindRunId (runId : JsString)
  | attachProgress
  | observe (snapshot : RunProgressSnapshot)
  | finish (result : RunResult)
  | fail (status : FailedStatus) (errorCode : Option JsString)
  | cancel
  deriving Repr, DecidableEq

/-- An operation of the coordinator, or one of the handle with a control. -/
inductive CoordinatorOp where
  | setSession (sessionId : JsString) (generation : Int)
  | invalidateSession
  | create (input : Coordinator.CreateInput)
  | handle (control : LocalRunControl) (op : HandleOp)
  | cancelLocalAlias (name : JsString)
  | ownerAbort (signal : Nat)
  | resolve (name : JsString)
  | list
  | subscribe
  | unsubscribe
  deriving Repr, DecidableEq

namespace Coordinator

variable (source : Nat → Option RunProgressSnapshot) (isControlOrFormat : Nat → Bool)

def handle (s : Coordinator) (control : LocalRunControl) : HandleOp → Coordinator
  | .setPhase phase => (s.setPhase source control phase).1
  | .bindRunName runName =>
    (s.mutate control fun i _ => s.bindAlias source i runName .runName true).1
  | .bindRunId runId => (s.mutate control fun i _ => s.bindAlias source i runId .runId true).1
  | .attachProgress => (s.attachProgress source control).1
  | .observe snapshot => (s.observe source control snapshot).1
  | .finish result => (s.finish source control result).1
  | .fail status errorCode => (s.fail source control status errorCode).1
  | .cancel => (s.cancel source control).1

/-- What an operation leaves; one that throws changes nothing. -/
def step (s : Coordinator) : CoordinatorOp → Coordinator
  | .setSession sessionId generation =>
    match s.setSession source isControlOrFormat sessionId generation with
    | .ok s => s
    | .error _ => s
  | .invalidateSession => s.invalidateSession source
  | .create input =>
    match s.create source input with
    | .ok (s, _) => s
    | .error _ => s
  | .handle control op => s.handle source control op
  | .cancelLocalAlias name => (s.cancelLocalAlias source name).1
  | .ownerAbort signal => s.ownerAbort source signal
  | .resolve name => (s.resolve source name).1
  | .list => (s.listing source).1
  | .subscribe =>
    match s.subscribe with
    | .ok s => s
    | .error _ => s
  | .unsubscribe => s.unsubscribe

def run (s : Coordinator) (ops : List CoordinatorOp) : Coordinator :=
  ops.foldl (step source isControlOrFormat) s

end Coordinator

end PiRlm.Extension

/-
  PiRlm.Runtime.RunInspectionItems

  The items of an inspection: `project` of `runtime/run-inspection.ts`.

  The events of a journal prefix are read once, into maps that keep the order in which
  their keys came; a view lists one of the maps.  The items are JSON values, nested no
  deeper than the events that they come from.
-/
import Mathlib
import PiRlm.Runtime.RunWriterProtocol
import PiRlm.Shell.JournalScan

namespace PiRlm.Runtime

open PiRlm.Lib PiRlm.Core PiRlm.Shell

-- ============================================================================
-- Requests, errors and limits
-- ============================================================================

def maxRunInspectionPageSize : Nat := 200
def maxRunInspectionPageBytes : Nat := 256 * 1024
def maxRunInspectionAggregateItems : Nat := 10000
def maxRunInspectionEvents : Nat := 100000
def maxRunInspectionCursorBytes : Nat := 4096
def maxIdentityBytes : Nat := 512

inductive RunInspectionView where
  | summary | frames | cells | calls | budget | errors
  deriving Repr, DecidableEq

def RunInspectionView.text : RunInspectionView → JsString
  | .summary => js "summary"
  | .frames => js "frames"
  | .cells => js "cells"
  | .calls => js "calls"
  | .budget => js "budget"
  | .errors => js "errors"

inductive RunInspectionErrorCode where
  | invalidRequest | runNotFound | invalidCursor | limit
  deriving Repr, DecidableEq

inductive RunRecoveryErrorCode where
  | directoryInvalid | manifestInvalid | incompatible | lockInvalid | journalCorrupt | orphan
  | other (code : JsString)
  deriving Repr, DecidableEq

/-- What an inspection throws: an error of its own, an error of recovery, or one that
    neither raises. -/
inductive InspectionFailure where
  | inspection (code : RunInspectionErrorCode) (message : JsString)
  | recovery (code : RunRecoveryErrorCode) (message : JsString)
  | raised (message : JsString)
  deriving Repr, DecidableEq

/-- Addition and subtraction of a format of numbers, with its rounding. -/
class JsonArithmetic (N : Type) where
  add : N → N → N
  sub : N → N → N

/-- The model that the validation of a journal returns, as far as it is projected. -/
structure RecoveryJournalModel (N : Type) where
  rootFrameId : JsString
  content : List (JsString × N)

-- ============================================================================
-- Maps
-- ============================================================================

section Maps

variable {α : Type}

/-- `map.set(key, value)`: a new key comes last. -/
def mapSet (entries : List (JsString × α)) (key : JsString) (value : α) : List (JsString × α) :=
  if entries.any fun entry => entry.1 == key then
    entries.map fun entry => if entry.1 = key then (key, value) else entry
  else entries ++ [(key, value)]

/-- `map.get(key)`. -/
def mapGet (entries : List (JsString × α)) (key : JsString) : Option α :=
  (entries.find? fun entry => entry.1 == key).map Prod.snd

def mapHas (entries : List (JsString × α)) (key : JsString) : Bool :=
  (mapGet entries key).isSome

/-- `set.add(value)`. -/
def setAdd (values : List JsString) (value : JsString) : List JsString :=
  if value ∈ values then values else values ++ [value]

end Maps

-- ============================================================================
-- Parts of items
-- ============================================================================

variable {N : Type} [JsonNumber N]

def trustedErrorCodes : List JsString :=
  ["FAILED", "DENIED", "CANCELLED", "INTERRUPTED", "TIMED_OUT", "ACCEPTANCE_FAILED",
    "INVALID_REQUEST", "INVALID_RESULT", "UNAVAILABLE_CONTEXT", "SOURCE_CHANGED",
    "UNKNOWN_EFFECT", "BUDGET_DEPTH", "BUDGET_FRAMES", "BUDGET_CALLS", "BUDGET_ATTEMPTS",
    "BUDGET_TOKENS", "BUDGET_BYTES", "BUDGET_DEADLINE", "CPU_LIMIT", "HEAP_LIMIT",
    "WORKER_EXIT", "JOURNAL_CORRUPT", "LATE_CALLBACK", "UNHANDLED_REJECTION", "PARSE_ERROR",
    "DISPOSED", "NO_ANSWER", "ITERATION_BUDGET_EXHAUSTED", "SOURCE_FAILED",
    "CONTROLLER_FAILED", "EXTRACTOR_FAILED", "CONTEXT_FAILED", "JOURNAL_FAILED",
    "FALLBACK_EVIDENCE_TRUNCATED"].map js

variable (N) in
def textIdentity (text : JsString) : Json N :=
  .obj [(js "sha256", .str (sha256 text)), (js "bytes", number N (utf8 text).length)]

variable (N) in
def errorMetadata (code : JsString) (message : Option JsString) : Json N :=
  .obj ((if code ∈ trustedErrorCodes then [(js "trustedCode", .str code)] else []) ++
    [(js "code", textIdentity N code)] ++
    message.toList.map fun message => (js "message", textIdentity N message))

/-- `{ ...(value !== undefined ? { key: value } : {}) }`. -/
def present (key : JsString) (value : Option (Json N)) : RecordValue N :=
  value.toList.map (key, ·)

def limitError {α : Type} (message : JsString) : Except InspectionFailure α :=
  .error (.inspection .limit message)

def guardItems (size : Nat) : Except InspectionFailure Unit :=
  if maxRunInspectionAggregateItems < size then
    limitError (js "projected item aggregate exceeds the inspection limit")
  else .ok ()

def boundedIdentity (value label : JsString) : Except InspectionFailure Unit :=
  if maxIdentityBytes < (utf8 value).length then
    limitError (label ++ js " exceeds the inspection identity limit")
  else .ok ()

section Arithmetic

variable [JsonArithmetic N]

def checkedAdd (left right : N) : Except InspectionFailure N :=
  if JsonNumber.value right < 0 ∨ JsonNumber.value
      (JsonArithmetic.sub (JsonNumber.ofNat maxSafeInteger) right) < JsonNumber.value left then
    limitError (js "inspection usage aggregate overflowed")
  else .ok (JsonArithmetic.add left right)

/-- The sum of a list of amounts, each checked. -/
def checkedSum (amounts : List N) : Except InspectionFailure N :=
  amounts.foldlM checkedAdd (JsonNumber.ofNat 0)

end Arithmetic

/-- A number of a usage record. -/
def usageNumber (usage : RecordValue N) (key : JsString) : Option N :=
  match get usage key with
  | some (.num n) => some n
  | _ => none

def usageOrZero (usage : RecordValue N) (key : JsString) : N :=
  (usageNumber usage key).getD (JsonNumber.ofNat 0)

-- ============================================================================
-- Observations
-- ============================================================================

structure ObservedOperation (N : Type) where
  frameId : JsString
  operationId : JsString
  kind : JsString
  outcome : JsString
  usage : RecordValue N
  errorCode : Option JsString

/-- The maps that the events fill. -/
structure Observations (N : Type) [JsonNumber N] where
  frames : List (JsString × Shell.RlmEvent N)
  frameStates : List (JsString × JsString)
  frameCells : List (JsString × List (Shell.RlmEvent N))
  frameCalls : List (JsString × List JsString)
  phases : List (JsString × JsString)
  cells : List (JsString × Shell.RlmEvent N)
  calls : List (JsString × List (Shell.RlmEvent N))
  callExecutionHashes : List (JsString × List JsString)
  operationIntents : List (JsString × Shell.RlmEvent N)
  providers : List (JsString × List (ObservedOperation N))
  providerAttempts : List JsString
  terminal : Option (Shell.RlmEvent N)
  providerCount : Nat

def Observations.empty : Observations N :=
  ⟨[], [], [], [], [], [], [], [], [], [], [], none, 0⟩

/-- The text of a number member in a template string. -/
def numberText (event : Shell.RlmEvent N) (key : JsString) : JsString :=
  match get event.fields key with
  | some (.num n) => JsonNumber.text n
  | _ => []

def recordAt (event : Shell.RlmEvent N) (key : JsString) : RecordValue N :=
  match get event.fields key with
  | some (.obj fields) => fields
  | _ => []

/-- A member that is a nonempty string. -/
def textAt (event : Shell.RlmEvent N) (key : JsString) : Option JsString :=
  match get event.fields key with
  | some (.str s) => if s = [] then none else some s
  | _ => none

def separated (left right : JsString) : JsString := left ++ [0] ++ right

/-- One event of the loop of `project`. -/
def observe (seen : Observations N) (event : Shell.RlmEvent N) :
    Except InspectionFailure (Observations N) := do
  if own event.fields (js "frameId") then boundedIdentity event.frameId (js "frame identity")
  if event.type = js "frame_opened" ∧ !mapHas seen.frames event.frameId then
    let frames := mapSet seen.frames event.frameId event
    guardItems frames.length
    pure { seen with frames }
  else if event.type = js "frame_closed" then
    pure { seen with
      frameStates := mapSet seen.frameStates event.frameId (stringAt event.fields (js "state")) }
  else if event.type = js "answer_committed" then
    pure { seen with frameStates := mapSet seen.frameStates event.frameId (js "answered") }
  else if event.type = js "phase" then
    pure { seen with
      phases := mapSet seen.phases event.frameId (stringAt event.fields (js "name")) }
  else if event.type = js "cell_committed" then
    let identity := separated event.frameId (numberText event (js "iteration"))
    if mapHas seen.cells identity then pure seen
    else
      let cells := mapSet seen.cells identity event
      let entries := (mapGet seen.frameCells event.frameId).getD []
      guardItems cells.length
      pure { seen with
        cells
        frameCells := mapSet seen.frameCells event.frameId (entries ++ [event]) }
  else if event.type = js "call_committed" then
    let callId := stringAt event.fields (js "callId")
    boundedIdentity callId (js "call identity")
    let executions := (mapGet seen.calls callId).getD []
    let hashes := (mapGet seen.callExecutionHashes callId).getD []
    match canonicalStringify event.toJson with
    | .error message => .error (.raised message)
    | .ok text =>
      let executionHash := sha256 text
      let calls := mapSet seen.calls callId
        (if executionHash ∈ hashes then executions else executions ++ [event])
      guardItems calls.length
      pure { seen with
        calls
        callExecutionHashes :=
          mapSet seen.callExecutionHashes callId (setAdd hashes executionHash)
        frameCalls := mapSet seen.frameCalls event.frameId
          (setAdd ((mapGet seen.frameCalls event.frameId).getD []) callId) }
  else if event.type = js "operation_intended" then
    boundedIdentity (stringAt event.fields (js "operationId")) (js "operation identity")
    let operationIntents :=
      mapSet seen.operationIntents (stringAt event.fields (js "intentId")) event
    guardItems operationIntents.length
    pure { seen with operationIntents }
  else if event.type = js "operation_settled" then
    match mapGet seen.operationIntents (stringAt event.fields (js "intentId")) with
    | none => pure seen
    | some intent =>
      let operationId := stringAt intent.fields (js "operationId")
      let key := separated intent.frameId operationId
      let attemptIdentity := separated key (numberText intent (js "attempt"))
      if attemptIdentity ∈ seen.providerAttempts then pure seen
      else
        guardItems (seen.providerCount + 1)
        pure { seen with
          providerAttempts := seen.providerAttempts ++ [attemptIdentity]
          providers := mapSet seen.providers key ((mapGet seen.providers key).getD [] ++
            [{ frameId := intent.frameId
               operationId
               kind := stringAt intent.fields (js "kind")
               outcome := stringAt event.fields (js "outcome")
               usage := recordAt event (js "usage")
               errorCode := textAt event (js "errorCode") }])
          providerCount := seen.providerCount + 1 }
  else if Shell.isTerminal event then pure { seen with terminal := some event }
  else pure seen

-- ============================================================================
-- Views
-- ============================================================================

namespace Observations

variable (seen : Observations N)

def providerEvents : List (ObservedOperation N) := seen.providers.flatMap Prod.snd

/-- The terminal event, when it is one of these. -/
def terminalOf (types : List JsString) : Option (Shell.RlmEvent N) :=
  seen.terminal.filter fun event => event.type ∈ types

/-- The error of a run that has failed or has been cancelled. -/
def runError : Option (Json N) :=
  (seen.terminalOf [js "run_failed", js "run_cancelled"]).map fun event =>
    errorMetadata N (stringAt event.fields (js "code")) (some (stringAt event.fields (js "message")))

/-- The error of a cell. -/
def cellError (cell : Shell.RlmEvent N) : Option (Json N) :=
  (record (get cell.fields (js "error"))).map fun error =>
    errorMetadata N (stringAt error (js "code")) (some (stringAt error (js "message")))

def summaryItems (model : RecoveryJournalModel N) (eventCount : Nat) : List (Json N) :=
  let status :=
    match seen.terminal with
    | none => js "nonterminal"
    | some event =>
      if event.type = js "run_completed" then js "completed"
      else if event.type = js "run_failed" then js "failed"
      else js "cancelled"
  [.obj ([(js "kind", .str (js "summary")), (js "status", .str status),
      (js "rootFrameId", .str model.rootFrameId), (js "eventCount", number N eventCount),
      (js "frames", number N seen.frames.length), (js "cells", number N seen.cells.length),
      (js "committedCalls", number N seen.calls.length),
      (js "observedProviderAttempts", number N seen.providerEvents.length)] ++
    present (js "completionMode") ((seen.terminalOf [js "run_completed"]).map fun event =>
      .str (stringAt event.fields (js "completionMode"))) ++
    present (js "error") seen.runError)]

def frameItem (event : Shell.RlmEvent N) : Json N :=
  .obj ([(js "kind", .str (js "frame")), (js "frameId", .str event.frameId),
      (js "parentFrameId", (get event.fields (js "parentFrameId")).getD .null),
      (js "depth", (get event.fields (js "depth")).getD .null),
      (js "state", .str ((mapGet seen.frameStates event.frameId).getD (js "open"))),
      (js "cells", number N ((mapGet seen.frameCells event.frameId).getD []).length),
      (js "committedCalls", number N ((mapGet seen.frameCalls event.frameId).getD []).length)] ++
    present (js "phase") ((mapGet seen.phases event.frameId).map (textIdentity N)))

def cellItem (cell : Shell.RlmEvent N) : Json N :=
  .obj ([(js "kind", .str (js "cell")), (js "frameId", .str cell.frameId),
      (js "iteration", (get cell.fields (js "iteration")).getD .null),
      (js "codeHash", .str (stringAt cell.fields (js "codeHash"))),
      (js "hasResult", (get cell.fields (js "hasResult")).getD .null)] ++
    present (js "outputBytes") (get cell.fields (js "outputBytes")) ++
    present (js "outputOmittedBytes") (get cell.fields (js "outputOmittedBytes")) ++
    present (js "committedOutputBytes") (get cell.fields (js "outputRefBytes")) ++
    present (js "usage") (get cell.fields (js "usage")) ++
    present (js "error") (cellError cell))

def callItem (executions : List (Shell.RlmEvent N)) (call : Shell.RlmEvent N) : Json N :=
  let callId := stringAt call.fields (js "callId")
  let attempts := (mapGet seen.providers (separated call.frameId callId)).getD []
  .obj ([(js "kind", .str (js "call")), (js "frameId", .str call.frameId),
      (js "callId", .str callId), (js "callKind", .str (stringAt call.fields (js "kind"))),
      (js "key", textIdentity N (stringAt call.fields (js "key"))),
      (js "executions", number N executions.length),
      (js "ok", (get call.fields (js "ok")).getD .null),
      (js "usage", (get call.fields (js "usage")).getD .null)] ++
    present (js "outputSha256") (get call.fields (js "outputSha256")) ++
    present (js "outputBytes") (get call.fields (js "outputBytes")) ++
    [(js "observedProviderAttempts", number N attempts.length)] ++
    present (js "lastOutcome") (attempts.getLast?.map fun last => .str last.outcome) ++
    present (js "errorCode") ((attempts.getLast?.bind (·.errorCode)).map (textIdentity N)))

def errorItems (selected : JsString → Bool) (frameFilter : Option JsString) : List (Json N) :=
  (seen.cells.filterMap fun entry =>
    (cellError entry.2).bind fun error =>
      if selected entry.2.frameId then
        some (.obj [(js "kind", .str (js "error")), (js "source", .str (js "cell")),
          (js "frameId", .str entry.2.frameId),
          (js "iteration", (get entry.2.fields (js "iteration")).getD .null),
          (js "error", error)])
      else none) ++
  (seen.providerEvents.filterMap fun attempt =>
    attempt.errorCode.bind fun code =>
      if selected attempt.frameId then
        some (.obj [(js "kind", .str (js "error")), (js "source", .str (js "provider")),
          (js "frameId", .str attempt.frameId), (js "operationId", .str attempt.operationId),
          (js "error", errorMetadata N code none)])
      else none) ++
  (if frameFilter.isNone then
    seen.runError.toList.map fun error =>
      .obj [(js "kind", .str (js "error")), (js "source", .str (js "run")), (js "error", error)]
  else [])

variable [JsonArithmetic N]

def budgetItems (model : RecoveryJournalModel N) (limits : Json N) :
    Except InspectionFailure (List (Json N)) := do
  let usages := seen.providerEvents.map (·.usage)
  let reportedInputTokens ← checkedSum (usages.map (usageOrZero · (js "inputTokens")))
  let reportedOutputTokens ← checkedSum (usages.map (usageOrZero · (js "outputTokens")))
  let reportedTotalTokens ← checkedSum (usages.map fun usage =>
    (usageNumber usage (js "totalTokens")).getD
      (JsonArithmetic.add (usageOrZero usage (js "inputTokens"))
        (usageOrZero usage (js "outputTokens"))))
  let reportedCostUsd ← checkedSum (usages.map (usageOrZero · (js "costUsd")))
  let providerDurationMs ← checkedSum (usages.map (usageOrZero · (js "durationMs")))
  let content := model.content.foldl (fun content reference =>
    mapSet content reference.1 reference.2) []
  let committedContentBytes ← checkedSum (content.map Prod.snd)
  pure [.obj [(js "kind", .str (js "budget")), (js "limits", limits),
    (js "observedLowerBounds", .obj
      [(js "frames", number N seen.frames.length), (js "cells", number N seen.cells.length),
        (js "committedCalls", number N seen.calls.length),
        (js "observedProviderAttempts", number N seen.providerEvents.length),
        (js "observedControllerProviderAttempts", number N
          (seen.providerEvents.filter fun event => event.kind == js "controller").length),
        (js "reportedInputTokens", .num reportedInputTokens),
        (js "reportedOutputTokens", .num reportedOutputTokens),
        (js "reportedTotalTokens", .num reportedTotalTokens),
        (js "reportedCostUsd", .num reportedCostUsd),
        (js "providerDurationMs", .num providerDurationMs),
        (js "committedContentBytes", .num committedContentBytes)])]]

end Observations

def project [JsonArithmetic N] (view : RunInspectionView) (events : List (Shell.RlmEvent N))
    (model : RecoveryJournalModel N) (limits : Json N) (frameFilter : Option JsString) :
    Except InspectionFailure (List (Json N)) := do
  let seen ← events.foldlM observe Observations.empty
  let selected (frameId : JsString) : Bool := frameFilter.all fun filter => frameId == filter
  let items ←
    match view with
    | .summary => pure (seen.summaryItems model events.length)
    | .frames =>
      pure (((seen.frames.map Prod.snd).filter fun event => selected event.frameId).map
        seen.frameItem)
    | .cells =>
      pure (((seen.cells.map Prod.snd).filter fun cell => selected cell.frameId).map
        Observations.cellItem)
    | .calls =>
      pure ((seen.calls.map Prod.snd).filterMap fun executions =>
        if executions.head?.any fun first => selected first.frameId then
          executions.getLast?.map (seen.callItem executions)
        else none)
    | .budget => seen.budgetItems model limits
    | .errors => pure (seen.errorItems selected frameFilter)
  guardItems items.length
  pure items

end PiRlm.Runtime

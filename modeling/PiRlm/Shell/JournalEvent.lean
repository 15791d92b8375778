/-
  PiRlm.Shell.JournalEvent

  The strict event boundary of `shell/journal-event.ts`.

  `snapshot` copies bounded data, `validEvent` checks the shape of one of the 19 event
  types, `parseRlmEvent` is their composition.  An `RlmEvent` is a record that passed;
  its canonical form passes again, which is what reading a written record back needs.
-/
import Mathlib
import PiRlm.Shell.EventRecord

namespace PiRlm.Shell

open PiRlm.Lib PiRlm.Lib.Json PiRlm.Core

def maxEventDepth : Nat := 5
def maxEventNodes : Nat := 20000
def maxEventArray : Nat := 10000
def maxEventString : Nat := 1048576
def maxEventKeys : Nat := 32

def maxCallTokens : Nat := 10000000

def checkpointVersion : JsString := js "pi-rlm.checkpoint.v1"

def callKinds : List JsString :=
  [js "llm", js "agent", js "recurse", js "tool", js "artifact", js "context"]

def completionModes : List JsString := [js "answer", js "fallback_extract"]

def frameStates : List JsString :=
  [js "open", js "answered", js "closed", js "failed", js "cancelled"]

def operationKinds : List JsString := [js "controller", js "llm", js "extractor", js "agent"]

def agentApprovalDecisions : List JsString := [js "allowlisted", js "approved", js "denied"]

def operationOutcomes : List JsString :=
  [js "ok", js "error", js "cancelled", js "invalid_result"]

/-- `/^[A-Z][A-Z0-9_]{0,63}$/`. -/
def isErrorCode : JsString → Bool
  | [] => false
  | u :: rest =>
    decide (0x41 ≤ u.val ∧ u.val ≤ 0x5A) && decide (rest.length ≤ 63) &&
      rest.all fun w => decide (0x41 ≤ w.val ∧ w.val ≤ 0x5A) || isDigit w || w == 0x5F

variable {N : Type}

/-! ## Bounded snapshot -/

mutual
/-- Copy of a value with the number of nodes visited so far; nothing beyond a bound. -/
def walkEvent : Json N → Nat → Nat → Option (Json N × Nat)
  | .arr items, depth, nodes =>
    if maxEventNodes < nodes + 1 ∨ maxEventDepth < depth then none
    else if maxEventArray < items.length then none
    else (walkEventItems items depth (nodes + 1)).map fun p => (.arr p.1, p.2)
  | .obj fields, depth, nodes =>
    if maxEventNodes < nodes + 1 ∨ maxEventDepth < depth then none
    else if maxEventKeys < fields.length then none
    else (walkEventFields fields depth (nodes + 1)).map fun p => (.obj (mkFields p.1), p.2)
  | .str s, depth, nodes =>
    if maxEventNodes < nodes + 1 ∨ maxEventDepth < depth then none
    else if s.length ≤ maxEventString then some (.str s, nodes + 1) else none
  | v, depth, nodes =>
    if maxEventNodes < nodes + 1 ∨ maxEventDepth < depth then none else some (v, nodes + 1)
termination_by structural v => v

/-- `walkEvent` on the items of an array. -/
def walkEventItems : List (Json N) → Nat → Nat → Option (List (Json N) × Nat)
  | [], _, nodes => some ([], nodes)
  | v :: items, depth, nodes =>
    (walkEvent v (depth + 1) nodes).bind fun p =>
      (walkEventItems items depth p.2).map fun q => (p.1 :: q.1, q.2)
termination_by structural items => items

/-- `walkEvent` on the members of a record. -/
def walkEventFields :
    List (JsString × Json N) → Nat → Nat → Option (List (JsString × Json N) × Nat)
  | [], _, nodes => some ([], nodes)
  | (k, v) :: fields, depth, nodes =>
    (walkEvent v (depth + 1) nodes).bind fun p =>
      (walkEventFields fields depth p.2).map fun q => ((k, p.1) :: q.1, q.2)
termination_by structural fields => fields
end

/-- Bounded snapshot of an injectable value. -/
def snapshot (input : Json N) : Option (Json N) :=
  (walkEvent input 0 0).map Prod.fst

/-! ## Shapes -/

section Shapes

variable [JsonNumber N]

def validError (value : Option (Json N)) : Bool :=
  match record value with
  | none => false
  | some item =>
    exact item [js "code", js "message"] [] && string item (js "code") false &&
      string item (js "message") true

def validUsage (value : Option (Json N)) : Bool :=
  match record value with
  | none => false
  | some usage =>
    exact usage [js "attempts", js "durationMs"]
      [js "inputTokens", js "outputTokens", js "totalTokens", js "costUsd"] &&
    integer usage (js "attempts") false && integer usage (js "durationMs") false &&
    optional usage (js "inputTokens") (integer usage (js "inputTokens") false) &&
    optional usage (js "outputTokens") (integer usage (js "outputTokens") false) &&
    optional usage (js "totalTokens") (integer usage (js "totalTokens") false) &&
    optional usage (js "costUsd")
      (nonnegative usage (js "costUsd") && atMost usage (js "costUsd") 1000000000000)

def validLimits (value : Option (Json N)) : Bool :=
  match record value with
  | none => false
  | some limits =>
    exact limits [js "maxDepth", js "maxFrames", js "maxLogicalCalls", js "maxAttempts",
      js "maxControllerTurns", js "maxConcurrency", js "storedByteLimit", js "deadlineMs"]
      [js "tokenLimit"] &&
    integer limits (js "maxDepth") false && integer limits (js "maxFrames") true &&
    integer limits (js "maxLogicalCalls") false && integer limits (js "maxAttempts") false &&
    integer limits (js "maxControllerTurns") false &&
    integer limits (js "maxConcurrency") true && integer limits (js "storedByteLimit") false &&
    integer limits (js "deadlineMs") false &&
    optional limits (js "tokenLimit") (integer limits (js "tokenLimit") false)

def validInputRef (raw : Json N) : Bool :=
  match record (some raw) with
  | none => false
  | some item =>
    exact item [js "name", js "id", js "sha256", js "bytes"] [] &&
      string item (js "name") false && contextRef item (js "id") && hash item (js "sha256") &&
      integer item (js "bytes") false && refMatches item (js "id") (js "sha256")

/-- `Array.isArray(value) && value.every(p)`. -/
def everyItem {N : Type} (p : Json N → Bool) : Option (Json N) → Bool
  | some (.arr items) => items.all p
  | _ => false

def validInputRefs : Option (Json N) → Bool := everyItem validInputRef

/-- A non-empty string. -/
def isText : Json N → Bool
  | .str s => decide (0 < s.length)
  | _ => false

def validStringArray : Option (Json N) → Bool := everyItem isText

def validOperationReservation (value : Option (Json N)) : Bool :=
  match record value with
  | none => false
  | some reservation =>
    exact reservation [js "logicalCalls", js "attempts", js "tokens"] [] &&
      (isNumber reservation (js "logicalCalls") 0 ||
        isNumber reservation (js "logicalCalls") 1) &&
      isNumber reservation (js "attempts") 1 && integer reservation (js "tokens") false &&
      atMost reservation (js "tokens") maxCallTokens

def validOptionalOutput (value : RecordValue N) (refKey hashKey bytesKey : JsString) : Bool :=
  let count := ([refKey, hashKey, bytesKey].filter (own value)).length
  count == 0 || (count == 1 && own value refKey && contextRef value refKey) ||
    (count == 3 && contextRef value refKey && hash value hashKey &&
      integer value bytesKey false && refMatches value refKey hashKey)

def validRunStarted (event : RecordValue N) : Bool :=
  exact event [js "type", js "runId", js "manifestHash", js "limits"] [js "inputRefs"] &&
    string event (js "runId") false && hash event (js "manifestHash") &&
    validLimits (get event (js "limits")) &&
    optional event (js "inputRefs") (validInputRefs (get event (js "inputRefs")))

/-- A member that is null or a string. -/
def nullOrString (value : RecordValue N) (key : JsString) : Bool :=
  match get value key with
  | some .null => true
  | some (.str _) => true
  | _ => false

def validFrameOpened (event : RecordValue N) : Bool :=
  exact event [js "type", js "frameId", js "parentFrameId", js "depth", js "objective"] [] &&
    string event (js "frameId") false && nullOrString event (js "parentFrameId") &&
    integer event (js "depth") false && string event (js "objective") true

/-- The two progress events differ in the name of their text. -/
def validProgress (textKey : JsString) (event : RecordValue N) : Bool :=
  exact event [js "type", js "frameId", js "iteration", js "ordinal", textKey] [] &&
    string event (js "frameId") false && integer event (js "iteration") true &&
    integer event (js "ordinal") false && string event textKey true

def validPhase : RecordValue N → Bool := validProgress (js "name")

def validEmit : RecordValue N → Bool := validProgress (js "message")

def validKeyBound (event : RecordValue N) : Bool :=
  exact event [js "type", js "frameId", js "kind", js "key", js "identityHash"] [] &&
    string event (js "frameId") false && oneOf event (js "kind") callKinds &&
    string event (js "key") true && hash event (js "identityHash")

def validAgentApproval (event : RecordValue N) : Bool :=
  exact event
      [js "type", js "frameId", js "callId", js "agent", js "policyId", js "decision"] [] &&
    string event (js "frameId") false && string event (js "callId") false &&
    string event (js "agent") false && string event (js "policyId") false &&
    oneOf event (js "decision") agentApprovalDecisions

def validCellCommitted (event : RecordValue N) : Bool :=
  exact event [js "type", js "frameId", js "iteration", js "reasoning", js "codeHash",
      js "hasResult", js "outputPreview"]
      [js "outputBytes", js "outputOmittedBytes", js "usage", js "outputRef",
        js "outputRefSha256", js "outputRefBytes", js "error"] &&
    string event (js "frameId") false && integer event (js "iteration") true &&
    string event (js "reasoning") true && hash event (js "codeHash") &&
    boolean event (js "hasResult") && string event (js "outputPreview") true &&
    optional event (js "outputBytes") (integer event (js "outputBytes") false) &&
    optional event (js "outputOmittedBytes") (integer event (js "outputOmittedBytes") false) &&
    optional event (js "usage") (validUsage (get event (js "usage"))) &&
    optional event (js "error") (validError (get event (js "error"))) &&
    validOptionalOutput event (js "outputRef") (js "outputRefSha256") (js "outputRefBytes")

def validWorkspaceCommitted (event : RecordValue N) : Bool :=
  exact event [js "type", js "frameId", js "iteration", js "workspaceRef",
      js "workspaceSha256", js "workspaceBytes"] [] &&
    string event (js "frameId") false && integer event (js "iteration") true &&
    contextRef event (js "workspaceRef") && hash event (js "workspaceSha256") &&
    integer event (js "workspaceBytes") false &&
    refMatches event (js "workspaceRef") (js "workspaceSha256")

def validFallbackEvidenceProjected (event : RecordValue N) : Bool :=
  exact event [js "type", js "frameId", js "projectionVersion", js "projectionHash",
      js "projectedBytes", js "maxBytes", js "omittedBytes", js "omittedItems",
      js "truncatedItems", js "evidenceIdCount", js "evidenceIdsHash", js "truncated"] [] &&
    string event (js "frameId") false && string event (js "projectionVersion") false &&
    hash event (js "projectionHash") && integer event (js "projectedBytes") false &&
    integer event (js "maxBytes") false && integer event (js "omittedBytes") false &&
    integer event (js "omittedItems") false && integer event (js "truncatedItems") false &&
    integer event (js "evidenceIdCount") false && hash event (js "evidenceIdsHash") &&
    boolean event (js "truncated")

def validFallbackEvidenceCited (event : RecordValue N) : Bool :=
  exact event [js "type", js "frameId", js "evidenceRefs", js "evidenceRefsHash"] [] &&
    string event (js "frameId") false && validStringArray (get event (js "evidenceRefs")) &&
    hash event (js "evidenceRefsHash")

/-- The identity `validEvent` rebuilds from a checked intent. -/
def intentIdentity (event : RecordValue N) : OperationIntentIdentity N where
  runId := stringAt event (js "runId")
  frameId := stringAt event (js "frameId")
  operationId := stringAt event (js "operationId")
  kind := stringAt event (js "kind")
  key := stringAt event (js "key")
  attempt := (get event (js "attempt")).getD .null
  requestIdentityVersion := stringAt event (js "requestIdentityVersion")
  requestSha256 := stringAt event (js "requestSha256")
  reservation := (get event (js "reservation")).getD .null

def validOperationIntended (event : RecordValue N) : Bool :=
  exact event [js "type", js "schemaVersion", js "runId", js "frameId", js "operationId",
      js "kind", js "key", js "attempt", js "requestIdentityVersion", js "requestSha256",
      js "reservation", js "intentId"] [] &&
    isNumber event (js "schemaVersion") operationJournalSchemaVersion &&
    string event (js "runId") false && string event (js "frameId") false &&
    string event (js "operationId") false && oneOf event (js "kind") operationKinds &&
    string event (js "key") true && integer event (js "attempt") true &&
    string event (js "requestIdentityVersion") false && hash event (js "requestSha256") &&
    validOperationReservation (get event (js "reservation")) &&
    string event (js "intentId") false &&
    isPrefixedHash (js "op_") (stringAt event (js "intentId")) &&
    operationRequestVersionAllowed (stringAt event (js "kind"))
      (stringAt event (js "requestIdentityVersion")) &&
    -- A throw of the derivation is caught by `parseRlmEvent` as an invalid event.
    decide (deriveOperationIntentId sha256 (intentIdentity event) =
      .ok (stringAt event (js "intentId")))

/-- `record(event["usage"])?.["attempts"] === 1`. -/
def usageAttemptsIsOne (value : Option (Json N)) : Bool :=
  match record value with
  | none => false
  | some usage => isNumber usage (js "attempts") 1

def validOperationSettled (event : RecordValue N) : Bool :=
  exact event [js "type", js "schemaVersion", js "runId", js "frameId", js "intentId",
      js "outcome", js "usage"] [js "errorCode"] &&
    isNumber event (js "schemaVersion") operationJournalSchemaVersion &&
    string event (js "runId") false && string event (js "frameId") false &&
    string event (js "intentId") false &&
    isPrefixedHash (js "op_") (stringAt event (js "intentId")) &&
    oneOf event (js "outcome") operationOutcomes && validUsage (get event (js "usage")) &&
    usageAttemptsIsOne (get event (js "usage")) &&
    if stringAt event (js "outcome") = js "ok" then !own event (js "errorCode")
    else own event (js "errorCode") && string event (js "errorCode") false &&
      isErrorCode (stringAt event (js "errorCode"))

def validCheckpointCommitted (event : RecordValue N) : Bool :=
  exact event [js "type", js "schemaVersion", js "checkpointVersion", js "checkpointId",
      js "runId", js "frameId", js "manifestHash", js "checkpointSequence", js "checkpointRef",
      js "checkpointSha256", js "checkpointBytes", js "journalPrefixSha256",
      js "journalPrefixBytes", js "journalPrefixEventCount", js "nextIteration",
      js "nextControllerTurn"] [] &&
    isNumber event (js "schemaVersion") 1 &&
    oneOf event (js "checkpointVersion") [checkpointVersion] &&
    string event (js "checkpointId") false &&
    isPrefixedHash (js "cp_") (stringAt event (js "checkpointId")) &&
    string event (js "runId") false && string event (js "frameId") false &&
    hash event (js "manifestHash") && integer event (js "checkpointSequence") true &&
    contextRef event (js "checkpointRef") && hash event (js "checkpointSha256") &&
    integer event (js "checkpointBytes") false &&
    refMatches event (js "checkpointRef") (js "checkpointSha256") &&
    hash event (js "journalPrefixSha256") && integer event (js "journalPrefixBytes") false &&
    integer event (js "journalPrefixEventCount") true &&
    integer event (js "nextIteration") true && integer event (js "nextControllerTurn") true

def validCallCommitted (event : RecordValue N) : Bool :=
  exact event [js "type", js "frameId", js "callId", js "kind", js "key", js "cached", js "ok",
      js "usage"] [js "outputRef", js "outputSha256", js "outputBytes"] &&
    string event (js "frameId") false && string event (js "callId") false &&
    oneOf event (js "kind") callKinds && string event (js "key") true &&
    boolean event (js "cached") && boolean event (js "ok") &&
    validUsage (get event (js "usage")) &&
    validOptionalOutput event (js "outputRef") (js "outputSha256") (js "outputBytes")

def validAnswerCommitted (event : RecordValue N) : Bool :=
  let metadata := (own event (js "outputSha256")).toNat + (own event (js "outputBytes")).toNat
  exact event [js "type", js "frameId", js "completionMode", js "outputRef"]
      [js "outputSha256", js "outputBytes"] &&
    string event (js "frameId") false && oneOf event (js "completionMode") completionModes &&
    contextRef event (js "outputRef") &&
    (metadata == 0 || (metadata == 2 && hash event (js "outputSha256") &&
      integer event (js "outputBytes") false &&
      refMatches event (js "outputRef") (js "outputSha256")))

def validFrameClosed (event : RecordValue N) : Bool :=
  exact event [js "type", js "frameId", js "state"] [] && string event (js "frameId") false &&
    oneOf event (js "state") frameStates

def validRunCompleted (event : RecordValue N) : Bool :=
  exact event [js "type", js "runId", js "completionMode"] [js "outputRef"] &&
    string event (js "runId") false && oneOf event (js "completionMode") completionModes &&
    optional event (js "outputRef") (contextRef event (js "outputRef"))

def validRunFailed (event : RecordValue N) : Bool :=
  exact event [js "type", js "runId", js "code", js "message"] [] &&
    string event (js "runId") false && string event (js "code") false &&
    string event (js "message") true

def validRunCancelled (event : RecordValue N) : Bool :=
  exact event [js "type", js "runId", js "code", js "message"] [] &&
    string event (js "runId") false && oneOf event (js "code") [js "CANCELLED"] &&
    string event (js "message") true

/-- The cases of `validEvent`. -/
def eventChecks : List (JsString × (RecordValue N → Bool)) :=
  [(js "run_started", validRunStarted), (js "frame_opened", validFrameOpened),
    (js "phase", validPhase), (js "emit", validEmit), (js "key_bound", validKeyBound),
    (js "agent_approval", validAgentApproval), (js "cell_committed", validCellCommitted),
    (js "workspace_committed", validWorkspaceCommitted),
    (js "fallback_evidence_projected", validFallbackEvidenceProjected),
    (js "fallback_evidence_cited", validFallbackEvidenceCited),
    (js "operation_intended", validOperationIntended),
    (js "operation_settled", validOperationSettled),
    (js "checkpoint_committed", validCheckpointCommitted),
    (js "call_committed", validCallCommitted), (js "answer_committed", validAnswerCommitted),
    (js "frame_closed", validFrameClosed), (js "run_completed", validRunCompleted),
    (js "run_failed", validRunFailed), (js "run_cancelled", validRunCancelled)]

def validEvent (event : RecordValue N) : Bool :=
  string event (js "type") false &&
    match eventChecks.find? fun c => c.1 == stringAt event (js "type") with
    | some c => c.2 event
    | none => false

end Shapes

/-! ## Accepted records -/

mutual
/-- Number of values inside a value, itself included. -/
def nodeCount : Json N → Nat
  | .arr items => nodeCountItems items + 1
  | .obj fields => nodeCountFields fields + 1
  | _ => 1
termination_by structural v => v

/-- `nodeCount` of the items of an array. -/
def nodeCountItems : List (Json N) → Nat
  | [] => 0
  | v :: items => nodeCount v + nodeCountItems items
termination_by structural items => items

/-- `nodeCount` of the members of a record. -/
def nodeCountFields : List (JsString × Json N) → Nat
  | [] => 0
  | (_, v) :: fields => nodeCount v + nodeCountFields fields
termination_by structural fields => fields
end

/-- The node keeps the bounds on its own length. -/
def withinNode : Json N → Bool
  | .str s => decide (s.length ≤ maxEventString)
  | .arr items => decide (items.length ≤ maxEventArray)
  | .obj fields => decide (fields.length ≤ maxEventKeys)
  | _ => true

/-- The value keeps every bound of `snapshot`. -/
def withinBounds (v : Json N) : Bool :=
  decide (nodeCount v ≤ maxEventNodes) && decide (v.depth ≤ maxEventDepth) && v.all withinNode

attribute [local simp] nodeCount nodeCountItems nodeCountFields

theorem nodeCountItems_eq (items : List (Json N)) :
    nodeCountItems items = (items.map nodeCount).sum := by
  induction items with
  | nil => rfl
  | cons v items ih => rw [nodeCountItems, ih, List.map_cons, List.sum_cons]

theorem nodeCountFields_eq (fields : List (JsString × Json N)) :
    nodeCountFields fields = (fields.map fun f => nodeCount f.2).sum := by
  induction fields with
  | nil => rfl
  | cons f fields ih => rw [nodeCountFields, ih, List.map_cons, List.sum_cons]

theorem walkEventItems_cons (v : Json N) (items : List (Json N)) (depth nodes : Nat) :
    walkEventItems (v :: items) depth nodes =
      (walkEvent v (depth + 1) nodes).bind fun p =>
        (walkEventItems items depth p.2).map fun q => (p.1 :: q.1, q.2) := rfl

theorem walkEventFields_cons (f : JsString × Json N) (fields : List (JsString × Json N))
    (depth nodes : Nat) :
    walkEventFields (f :: fields) depth nodes =
      (walkEvent f.2 (depth + 1) nodes).bind fun p =>
        (walkEventFields fields depth p.2).map fun q => ((f.1, p.1) :: q.1, q.2) := rfl

/-- A copy that passes its bounds is the value itself, with its nodes counted. -/
def Walks (v : Json N) : Prop :=
  ∀ depth nodes, nodes + nodeCount v ≤ maxEventNodes → depth + v.depth ≤ maxEventDepth →
    walkEvent v depth nodes = some (v, nodes + nodeCount v)

theorem walkEventItems_ok {items : List (Json N)} (h : ∀ v ∈ items, Walks v)
    {depth nodes : Nat} (hn : nodes + nodeCountItems items ≤ maxEventNodes)
    (hd : ∀ v ∈ items, depth + 1 + v.depth ≤ maxEventDepth) :
    walkEventItems items depth nodes = some (items, nodes + nodeCountItems items) := by
  induction items generalizing nodes with
  | nil => rfl
  | cons v items ih =>
    rw [List.forall_mem_cons] at h hd
    simp only [nodeCountItems] at hn ⊢
    rw [walkEventItems_cons, h.1 (depth + 1) nodes (by omega) hd.1, Option.bind_some,
      ih h.2 (by omega) hd.2, Option.map_some, Nat.add_assoc]

theorem walkEventFields_ok {fields : List (JsString × Json N)} (h : ∀ f ∈ fields, Walks f.2)
    {depth nodes : Nat} (hn : nodes + nodeCountFields fields ≤ maxEventNodes)
    (hd : ∀ f ∈ fields, depth + 1 + f.2.depth ≤ maxEventDepth) :
    walkEventFields fields depth nodes = some (fields, nodes + nodeCountFields fields) := by
  induction fields generalizing nodes with
  | nil => rfl
  | cons f fields ih =>
    rw [List.forall_mem_cons] at h hd
    simp only [nodeCountFields] at hn ⊢
    rw [walkEventFields_cons, h.1 (depth + 1) nodes (by omega) hd.1, Option.bind_some,
      ih h.2 (by omega) hd.2, Option.map_some, Nat.add_assoc]

theorem walks {v : Json N} (hv : v.Owned) (hb : v.all withinNode = true) : Walks v := by
  induction v using Json.ind with
  | null | bool | num =>
    intro depth nodes hn hd
    simp only [nodeCount, Json.depth] at hn hd
    rw [walkEvent, if_neg (by omega)]
    all_goals simp
  | str s =>
    intro depth nodes hn hd
    simp only [nodeCount, Json.depth] at hn hd
    simp only [all, withinNode, decide_eq_true_eq] at hb
    rw [walkEvent, if_neg (by omega), if_pos hb]
    rfl
  | arr items ih =>
    intro depth nodes hn hd
    rw [owned_arr] at hv
    rw [all_arr] at hb
    simp only [nodeCount, Json.depth, withinNode, decide_eq_true_eq] at hn hd hb
    rw [walkEvent, if_neg (by omega), if_neg (by omega), walkEventItems_ok
      (fun v hmem => ih v hmem (hv v hmem) (hb.2 v hmem)) (by omega)
      (fun v hmem => by have := depthItems_le.mp (le_refl (depthItems items)) v hmem; omega),
      Option.map_some, nodeCount, Nat.add_assoc, Nat.add_comm 1]
  | obj fields ih =>
    intro depth nodes hn hd
    rw [owned_obj] at hv
    rw [all_obj] at hb
    simp only [nodeCount, Json.depth, withinNode, decide_eq_true_eq] at hn hd hb
    rw [walkEvent, if_neg (by omega), if_neg (by omega), walkEventFields_ok
      (fun f hmem => ih f hmem (hv.2 f hmem) (hb.2 f hmem)) (by omega)
      (fun f hmem => by have := depthFields_le.mp (le_refl (depthFields fields)) f hmem; omega),
      Option.map_some, mkFields_eq_self hv.1, nodeCount, Nat.add_assoc, Nat.add_comm 1]

/-- The snapshot of a value within the bounds is the value. -/
theorem snapshot_ok {v : Json N} (hv : v.Owned) (hb : withinBounds v = true) :
    snapshot v = some v := by
  simp only [withinBounds, Bool.and_eq_true, decide_eq_true_eq] at hb
  rw [snapshot, walks hv hb.2 0 0 (by omega) (by omega)]
  rfl

/-- What a copy that was made says about the value and the node counter. -/
def WalkSound (v : Json N) : Prop :=
  ∀ depth nodes w m, walkEvent v depth nodes = some (w, m) →
    w = v ∧ m = nodes + nodeCount v ∧ m ≤ maxEventNodes ∧
      depth + v.depth ≤ maxEventDepth ∧ v.all withinNode = true

theorem walkEventItems_sound {items : List (Json N)} (h : ∀ v ∈ items, WalkSound v)
    {depth nodes : Nat} {out : List (Json N)} {m : Nat} (hn : nodes ≤ maxEventNodes)
    (hw : walkEventItems items depth nodes = some (out, m)) :
    out = items ∧ m = nodes + nodeCountItems items ∧ m ≤ maxEventNodes ∧
      ∀ v ∈ items, depth + 1 + v.depth ≤ maxEventDepth ∧ v.all withinNode = true := by
  induction items generalizing nodes out m with
  | nil =>
    obtain ⟨rfl, rfl⟩ := Prod.mk.inj (Option.some.inj hw)
    exact ⟨rfl, rfl, hn, by simp⟩
  | cons v items ih =>
    rw [List.forall_mem_cons] at h
    rw [walkEventItems_cons, Option.bind_eq_some_iff] at hw
    obtain ⟨⟨w, k⟩, hhead, hrest⟩ := hw
    obtain ⟨⟨ws, k'⟩, htail, heq⟩ := Option.map_eq_some_iff.mp hrest
    obtain ⟨rfl, rfl⟩ := Prod.mk.inj heq
    obtain ⟨rfl, rfl, hk, hd, hb⟩ := h.1 _ _ _ _ hhead
    obtain ⟨rfl, rfl, hk', hall⟩ := ih h.2 hk htail
    refine ⟨rfl, ?_, hk', List.forall_mem_cons.mpr ⟨⟨hd, hb⟩, hall⟩⟩
    rw [nodeCountItems, Nat.add_assoc]

theorem walkEventFields_sound {fields : List (JsString × Json N)}
    (h : ∀ f ∈ fields, WalkSound f.2) {depth nodes : Nat} {out : List (JsString × Json N)}
    {m : Nat} (hn : nodes ≤ maxEventNodes)
    (hw : walkEventFields fields depth nodes = some (out, m)) :
    out = fields ∧ m = nodes + nodeCountFields fields ∧ m ≤ maxEventNodes ∧
      ∀ f ∈ fields, depth + 1 + f.2.depth ≤ maxEventDepth ∧ f.2.all withinNode = true := by
  induction fields generalizing nodes out m with
  | nil =>
    obtain ⟨rfl, rfl⟩ := Prod.mk.inj (Option.some.inj hw)
    exact ⟨rfl, rfl, hn, by simp⟩
  | cons f fields ih =>
    rw [List.forall_mem_cons] at h
    rw [walkEventFields_cons, Option.bind_eq_some_iff] at hw
    obtain ⟨⟨w, k⟩, hhead, hrest⟩ := hw
    obtain ⟨⟨ws, k'⟩, htail, heq⟩ := Option.map_eq_some_iff.mp hrest
    obtain ⟨rfl, rfl⟩ := Prod.mk.inj heq
    obtain ⟨rfl, rfl, hk, hd, hb⟩ := h.1 _ _ _ _ hhead
    obtain ⟨rfl, rfl, hk', hall⟩ := ih h.2 hk htail
    refine ⟨rfl, ?_, hk', List.forall_mem_cons.mpr ⟨⟨hd, hb⟩, hall⟩⟩
    rw [nodeCountFields, Nat.add_assoc]

theorem walkSound {v : Json N} (hv : v.Owned) : WalkSound v := by
  induction v using Json.ind with
  | null | bool | num =>
    intro depth nodes w m hw
    simp only [walkEvent] at hw
    split_ifs at hw with hguard
    obtain ⟨rfl, rfl⟩ := Prod.mk.inj (Option.some.inj hw)
    rw [not_or] at hguard
    exact ⟨rfl, rfl, by omega, by simp only [Json.depth]; omega, rfl⟩
  | str s =>
    intro depth nodes w m hw
    rw [walkEvent] at hw
    split_ifs at hw with hguard hlen
    obtain ⟨rfl, rfl⟩ := Prod.mk.inj (Option.some.inj hw)
    rw [not_or] at hguard
    refine ⟨rfl, rfl, by omega, by simp only [Json.depth]; omega, ?_⟩
    simp [all, withinNode, hlen]
  | arr items ih =>
    intro depth nodes w m hw
    rw [owned_arr] at hv
    rw [walkEvent] at hw
    split_ifs at hw with hguard hlen
    rw [not_or] at hguard
    obtain ⟨⟨out, k⟩, hitems, heq⟩ := Option.map_eq_some_iff.mp hw
    obtain ⟨rfl, rfl⟩ := Prod.mk.inj heq
    obtain ⟨rfl, rfl, hk, hall⟩ := walkEventItems_sound (fun v hmem => ih v hmem (hv v hmem))
      (by omega) hitems
    have hdepth : depthItems out ≤ maxEventDepth - depth :=
      depthItems_le.mpr fun v hmem => by have := (hall v hmem).1; omega
    refine ⟨rfl, by rw [nodeCount]; omega, hk, by simp only [Json.depth]; omega, ?_⟩
    rw [all_arr, withinNode, decide_eq_true_eq]
    exact ⟨by omega, fun v hmem => (hall v hmem).2⟩
  | obj fields ih =>
    intro depth nodes w m hw
    rw [owned_obj] at hv
    rw [walkEvent] at hw
    split_ifs at hw with hguard hlen
    rw [not_or] at hguard
    obtain ⟨⟨out, k⟩, hfields, heq⟩ := Option.map_eq_some_iff.mp hw
    obtain ⟨rfl, rfl⟩ := Prod.mk.inj heq
    obtain ⟨rfl, rfl, hk, hall⟩ := walkEventFields_sound
      (fun f hmem => ih f hmem (hv.2 f hmem)) (by omega) hfields
    have hdepth : depthFields out ≤ maxEventDepth - depth :=
      depthFields_le.mpr fun f hmem => by have := (hall f hmem).1; omega
    refine ⟨by rw [mkFields_eq_self hv.1], by rw [nodeCount]; omega, hk,
      by simp only [Json.depth]; omega, ?_⟩
    rw [all_obj, withinNode, decide_eq_true_eq]
    exact ⟨by omega, fun f hmem => (hall f hmem).2⟩

/-- The snapshot makes a copy exactly when every bound is kept. -/
theorem snapshot_eq_some_iff {v w : Json N} (hv : v.Owned) :
    snapshot v = some w ↔ w = v ∧ withinBounds v = true := by
  constructor
  · intro h
    obtain ⟨⟨w', m⟩, hw, rfl⟩ := Option.map_eq_some_iff.mp h
    obtain ⟨rfl, hm, hle, hd, hb⟩ := walkSound hv 0 0 w' m hw
    refine ⟨rfl, ?_⟩
    simp only [withinBounds, hb, Bool.and_true, Bool.and_eq_true, decide_eq_true_eq]
    exact ⟨by omega, by omega⟩
  · rintro ⟨rfl, hb⟩
    exact snapshot_ok hv hb

/-- A failure of the interpreter or of the shell around it. -/
structure InterpreterError where
  code : JsString
  message : JsString
  deriving Repr, DecidableEq

variable [JsonNumber N]

/-- A record that passed the event boundary. -/
structure RlmEvent (N : Type) [JsonNumber N] where
  fields : RecordValue N
  owned : (Json.obj fields).Owned
  bounded : withinBounds (.obj fields) = true
  valid : validEvent fields = true

/-- The event as data. -/
def RlmEvent.toJson (event : RlmEvent N) : Json N :=
  .obj event.fields

def invalidEvent : InterpreterError :=
  { code := js "JOURNAL_CORRUPT", message := js "invalid journal event" }

/-- Exhaustive strict boundary used for both legacy records and batch members. -/
def parseRlmEvent (input : JsonValue N) : Except InterpreterError (RlmEvent N) :=
  match h : snapshot input.1 with
  | some (.obj fields) =>
    if hv : validEvent fields = true then
      have hs := (snapshot_eq_some_iff input.2).mp h
      .ok { fields, owned := hs.1 ▸ input.2, bounded := hs.1 ▸ hs.2, valid := hv }
    else .error invalidEvent
  | _ => .error invalidEvent

/-- The boundary accepts an event as it is. -/
theorem parseRlmEvent_toJson (event : RlmEvent N) (h : event.toJson.Owned) :
    parseRlmEvent ⟨event.toJson, h⟩ = .ok event := by
  have hs := snapshot_ok event.owned event.bounded
  unfold parseRlmEvent
  split
  · rename_i fields hfields
    have heq : fields = event.fields := by
      change snapshot (.obj event.fields) = _ at hfields
      rw [hs] at hfields
      exact (Json.obj.inj (Option.some.inj hfields)).symm
    subst heq
    rw [dif_pos event.valid]
  · rename_i hne
    exact absurd hs (hne event.fields)

/-! ## The canonical form of an event -/

section CanonicalEvent

omit [JsonNumber N] in
theorem nodeCount_canonical {v : Json N} (hv : v.Owned) :
    nodeCount (canonical v) = nodeCount v := by
  induction v using Json.ind with
  | null | bool | num | str => rfl
  | arr items ih =>
    rw [owned_arr] at hv
    rw [canonical_arr, nodeCount, nodeCount, nodeCountItems_eq, nodeCountItems_eq, List.map_map]
    congr 2
    exact List.map_congr_left fun v hmem => ih v hmem (hv v hmem)
  | obj fields ih =>
    rw [owned_obj] at hv
    have hperm : (ownOrder Prod.fst (sortBy Prod.fst fields)).Perm fields :=
      (ownOrder_perm _).trans (sortBy_perm fields)
    rw [canonical_obj_of_nodup hv.1.1, nodeCount, nodeCount, nodeCountFields_eq,
      nodeCountFields_eq, List.map_map, ← (hperm.map fun f => nodeCount f.2).sum_eq]
    congr 2
    apply List.map_congr_left
    intro f hf
    exact ih f (hperm.mem_iff.mp hf) (hv.2 f (hperm.mem_iff.mp hf))

omit [JsonNumber N] in
theorem all_withinNode_canonical {v : Json N} (hv : v.Owned) (h : v.all withinNode = true) :
    (canonical v).all withinNode = true := by
  induction v using Json.ind with
  | null | bool | num | str => exact h
  | arr items ih =>
    rw [owned_arr] at hv
    rw [all_arr] at h
    rw [canonical_arr, all_arr, withinNode, List.length_map, List.forall_mem_map]
    exact ⟨h.1, fun v hmem => ih v hmem (hv v hmem) (h.2 v hmem)⟩
  | obj fields ih =>
    rw [owned_obj] at hv
    rw [all_obj] at h
    have hperm : (ownOrder Prod.fst (sortBy Prod.fst fields)).Perm fields :=
      (ownOrder_perm _).trans (sortBy_perm fields)
    rw [canonical_obj_of_nodup hv.1.1, all_obj, withinNode, List.length_map, hperm.length_eq,
      List.forall_mem_map]
    exact ⟨h.1, fun f hf => ih f (hperm.mem_iff.mp hf) (hv.2 f (hperm.mem_iff.mp hf))
      (h.2 f (hperm.mem_iff.mp hf))⟩

omit [JsonNumber N] in
theorem withinBounds_canonical {v : Json N} (hv : v.Owned) (h : withinBounds v = true) :
    withinBounds (canonical v) = true := by
  simp only [withinBounds, Bool.and_eq_true] at h ⊢
  rw [nodeCount_canonical hv, canonical_depth hv]
  exact ⟨h.1, all_withinNode_canonical hv h.2⟩

omit [JsonNumber N] in
/-- A check of a nested record gives one verdict on a value and on its canonical form. -/
theorem record_canonical {f : RecordValue N → Bool}
    (hf : ∀ value value', CanonicalRecord value value' → f value' = f value)
    {v : Option (Json N)} (hv : ∀ w ∈ v, w.Owned) :
    (match record (v.map canonical) with | none => false | some value => f value) =
      match record v with | none => false | some value => f value := by
  cases v with
  | none => rfl
  | some w =>
    rcases canonical_isObj w with ⟨fields, rfl, fields', hfields⟩ | ⟨hne, hne'⟩
    · have hnodup := (owned_obj.mp (hv _ rfl)).1.1
      rw [Option.map_some, hfields]
      exact hf fields fields' (canonicalRecord_of_canonical hnodup hfields)
    · have hnone : ∀ u : Json N, (∀ fields, u ≠ .obj fields) → record (some u) = none := by
        intro u hu
        cases u with
        | obj fields => exact absurd rfl (hu fields)
        | null | bool | num | str | arr => rfl
      rw [Option.map_some, hnone w hne, hnone _ hne']

omit [JsonNumber N] in
theorem validError_canonical {v : Option (Json N)} (hv : ∀ w ∈ v, w.Owned) :
    validError (v.map canonical) = validError v :=
  record_canonical (fun _ _ h => by simp only [h.exact, h.string]) hv

theorem validUsage_canonical {v : Option (Json N)} (hv : ∀ w ∈ v, w.Owned) :
    validUsage (v.map canonical) = validUsage v :=
  record_canonical
    (fun _ _ h => by simp only [h.exact, h.integer, h.optional, h.nonnegative, h.atMost]) hv

theorem validLimits_canonical {v : Option (Json N)} (hv : ∀ w ∈ v, w.Owned) :
    validLimits (v.map canonical) = validLimits v :=
  record_canonical (fun _ _ h => by simp only [h.exact, h.integer, h.optional]) hv

theorem validOperationReservation_canonical {v : Option (Json N)} (hv : ∀ w ∈ v, w.Owned) :
    validOperationReservation (v.map canonical) = validOperationReservation v :=
  record_canonical
    (fun _ _ h => by simp only [h.exact, h.isNumber, h.integer, h.atMost]) hv

theorem usageAttemptsIsOne_canonical {v : Option (Json N)} (hv : ∀ w ∈ v, w.Owned) :
    usageAttemptsIsOne (v.map canonical) = usageAttemptsIsOne v :=
  record_canonical (fun _ _ h => by simp only [h.isNumber]) hv

theorem validInputRef_canonical {v : Json N} (hv : v.Owned) :
    validInputRef (canonical v) = validInputRef v :=
  record_canonical (v := some v)
    (fun _ _ h => by
      simp only [h.exact, h.string, h.contextRef, h.hash, h.integer, h.refMatches])
    (fun w hw => by rw [← Option.some.inj hw]; exact hv)

omit [JsonNumber N] in
theorem isText_canonical (v : Json N) : isText (canonical v) = isText v := by
  cases v <;> rfl

omit [JsonNumber N] in
/-- A check of every item of an array gives one verdict on both. -/
theorem everyItem_canonical {p : Json N → Bool} (hp : ∀ v, v.Owned → p (canonical v) = p v)
    {v : Option (Json N)} (hv : ∀ w ∈ v, w.Owned) :
    everyItem p (v.map canonical) = everyItem p v := by
  cases v with
  | none => rfl
  | some w =>
    cases w with
    | null | bool | num | str | obj => rfl
    | arr items =>
      have hitems := owned_arr.mp (hv _ rfl)
      rw [Option.map_some, canonical_arr, everyItem, everyItem, List.all_map, Bool.eq_iff_iff,
        List.all_eq_true, List.all_eq_true]
      exact forall₂_congr fun v hmem => by rw [Function.comp, hp v (hitems v hmem)]

theorem validInputRefs_canonical {v : Option (Json N)} (hv : ∀ w ∈ v, w.Owned) :
    validInputRefs (v.map canonical) = validInputRefs v :=
  everyItem_canonical (fun _ => validInputRef_canonical) hv

omit [JsonNumber N] in
theorem validStringArray_canonical {v : Option (Json N)} (hv : ∀ w ∈ v, w.Owned) :
    validStringArray (v.map canonical) = validStringArray v :=
  everyItem_canonical (fun v _ => isText_canonical v) hv

/-! ### Each shape -/

variable {event event' : RecordValue N}

/-- `event'` is the canonical form of a record whose values are values. -/
structure CanonicalOf (event event' : RecordValue N) : Prop extends
    CanonicalRecord event event' where
  values : ∀ key, ∀ v ∈ Shell.get event key, v.Owned
  shallow : ∀ key, ∀ v ∈ Shell.get event key, v.depth ≤ maxEventDepth

variable (h : CanonicalOf event event')
include h

theorem validOptionalOutput_canonical (refKey hashKey bytesKey : JsString) :
    validOptionalOutput event' refKey hashKey bytesKey =
      validOptionalOutput event refKey hashKey bytesKey := by
  have hown : own event' = own event := funext h.own
  simp only [validOptionalOutput, hown, h.contextRef, h.hash, h.integer, h.refMatches]

theorem validRunStarted_canonical : validRunStarted event' = validRunStarted event := by
  simp only [validRunStarted, h.exact, h.string, h.hash, h.optional, h.get,
    validLimits_canonical (h.values _), validInputRefs_canonical (h.values _)]

theorem validFrameOpened_canonical : validFrameOpened event' = validFrameOpened event := by
  have hparent : nullOrString event' (js "parentFrameId") =
      nullOrString event (js "parentFrameId") := by
    rw [nullOrString, nullOrString, h.get]
    cases get event (js "parentFrameId") with
    | none => rfl
    | some v => cases v <;> rfl
  simp only [validFrameOpened, h.exact, h.string, h.integer, hparent]

theorem validProgress_canonical (textKey : JsString) :
    validProgress textKey event' = validProgress textKey event := by
  simp only [validProgress, h.exact, h.string, h.integer]

omit [JsonNumber N] in
theorem validKeyBound_canonical : validKeyBound event' = validKeyBound event := by
  simp only [validKeyBound, h.exact, h.string, h.oneOf, h.hash]

omit [JsonNumber N] in
theorem validAgentApproval_canonical :
    validAgentApproval event' = validAgentApproval event := by
  simp only [validAgentApproval, h.exact, h.string, h.oneOf]

theorem validCellCommitted_canonical :
    validCellCommitted event' = validCellCommitted event := by
  simp only [validCellCommitted, h.exact, h.string, h.integer, h.hash, h.boolean, h.optional,
    h.get, validUsage_canonical (h.values _), validError_canonical (h.values _),
    validOptionalOutput_canonical h]

theorem validWorkspaceCommitted_canonical :
    validWorkspaceCommitted event' = validWorkspaceCommitted event := by
  simp only [validWorkspaceCommitted, h.exact, h.string, h.integer, h.contextRef, h.hash,
    h.refMatches]

theorem validFallbackEvidenceProjected_canonical :
    validFallbackEvidenceProjected event' = validFallbackEvidenceProjected event := by
  simp only [validFallbackEvidenceProjected, h.exact, h.string, h.integer, h.hash, h.boolean]

omit [JsonNumber N] in
theorem validFallbackEvidenceCited_canonical :
    validFallbackEvidenceCited event' = validFallbackEvidenceCited event := by
  simp only [validFallbackEvidenceCited, h.exact, h.string, h.hash, h.get,
    validStringArray_canonical (h.values _)]

theorem validOperationSettled_canonical :
    validOperationSettled event' = validOperationSettled event := by
  simp only [validOperationSettled, h.exact, h.isNumber, h.string, h.stringAt, h.oneOf, h.own,
    h.get, validUsage_canonical (h.values _), usageAttemptsIsOne_canonical (h.values _)]

theorem validCheckpointCommitted_canonical :
    validCheckpointCommitted event' = validCheckpointCommitted event := by
  simp only [validCheckpointCommitted, h.exact, h.isNumber, h.string, h.stringAt, h.oneOf,
    h.integer, h.hash, h.contextRef, h.refMatches]

theorem validCallCommitted_canonical :
    validCallCommitted event' = validCallCommitted event := by
  simp only [validCallCommitted, h.exact, h.string, h.oneOf, h.boolean, h.get,
    validUsage_canonical (h.values _), validOptionalOutput_canonical h]

theorem validAnswerCommitted_canonical :
    validAnswerCommitted event' = validAnswerCommitted event := by
  simp only [validAnswerCommitted, h.own, h.exact, h.string, h.oneOf, h.contextRef, h.hash,
    h.integer, h.refMatches]

omit [JsonNumber N] in
theorem validFrameClosed_canonical : validFrameClosed event' = validFrameClosed event := by
  simp only [validFrameClosed, h.exact, h.string, h.oneOf]

omit [JsonNumber N] in
theorem validRunCompleted_canonical : validRunCompleted event' = validRunCompleted event := by
  simp only [validRunCompleted, h.exact, h.string, h.oneOf, h.optional, h.contextRef]

omit [JsonNumber N] in
theorem validRunFailed_canonical : validRunFailed event' = validRunFailed event := by
  simp only [validRunFailed, h.exact, h.string]

omit [JsonNumber N] in
theorem validRunCancelled_canonical : validRunCancelled event' = validRunCancelled event := by
  simp only [validRunCancelled, h.exact, h.string, h.oneOf]

omit [JsonNumber N] in
/-- A member and its canonical form, absent members as null. -/
theorem getD_canonical (key : JsString) :
    canonical ((get event' key).getD .null) = canonical ((get event key).getD .null) ∧
      ((get event key).getD .null).depth ≤ maxEventDepth ∧
      ((get event' key).getD .null).depth ≤ maxEventDepth := by
  have howned := h.values key
  have hdepth := h.shallow key
  rw [h.get]
  cases hget : get event key with
  | none => exact ⟨rfl, Nat.zero_le _, Nat.zero_le _⟩
  | some v =>
    rw [hget] at howned hdepth
    refine ⟨canonical_canonical (howned v rfl), hdepth v rfl, ?_⟩
    rw [Option.map_some, Option.getD_some, canonical_depth (howned v rfl)]
    exact hdepth v rfl

theorem deriveOperationIntentId_canonical :
    deriveOperationIntentId sha256 (intentIdentity event') =
      deriveOperationIntentId sha256 (intentIdentity event) := by
  obtain ⟨hattempt, ha, ha'⟩ := getD_canonical h (js "attempt")
  obtain ⟨hreservation, hr, hr'⟩ := getD_canonical h (js "reservation")
  have hidentity : intentIdentity event' = { intentIdentity event with
      attempt := (get event' (js "attempt")).getD .null
      reservation := (get event' (js "reservation")).getD .null } := by
    simp only [intentIdentity, h.stringAt]
  have hbound : ∀ identity : OperationIntentIdentity N,
      identity.attempt.depth ≤ maxEventDepth → identity.reservation.depth ≤ maxEventDepth →
      identity.toJson.depth ≤ maxJsonDepth := by
    intro identity h1 h2
    have h3 : maxEventDepth + 1 ≤ maxJsonDepth := by decide
    rw [OperationIntentIdentity.toJson, Json.depth, depthFields_le]
    simp only [List.forall_mem_cons, Json.depth]
    simp only [List.not_mem_nil, false_imp_iff, implies_true, and_true]
    omega
  have htext : canonicalStringify (intentIdentity event').toJson =
      canonicalStringify (intentIdentity event).toJson := by
    apply canonicalStringify_congr (hbound _ ha' hr') (hbound _ ha hr)
    rw [hidentity]
    exact canonical_identity _ hattempt hreservation
  rw [deriveOperationIntentId, deriveOperationIntentId, htext]

theorem validOperationIntended_canonical :
    validOperationIntended event' = validOperationIntended event := by
  simp only [validOperationIntended, h.exact, h.isNumber, h.string, h.stringAt, h.oneOf,
    h.integer, h.hash, h.get, validOperationReservation_canonical (h.values _),
    deriveOperationIntentId_canonical h]

/-- The shape check gives one verdict on an event and on its canonical form. -/
theorem validEvent_canonical : validEvent event' = validEvent event := by
  have hchecks : ∀ c ∈ eventChecks (N := N), c.2 event' = c.2 event := by
    simp only [eventChecks, List.forall_mem_cons]
    exact ⟨validRunStarted_canonical h, validFrameOpened_canonical h,
      validProgress_canonical h _, validProgress_canonical h _, validKeyBound_canonical h,
      validAgentApproval_canonical h, validCellCommitted_canonical h,
      validWorkspaceCommitted_canonical h, validFallbackEvidenceProjected_canonical h,
      validFallbackEvidenceCited_canonical h, validOperationIntended_canonical h,
      validOperationSettled_canonical h, validCheckpointCommitted_canonical h,
      validCallCommitted_canonical h, validAnswerCommitted_canonical h,
      validFrameClosed_canonical h, validRunCompleted_canonical h, validRunFailed_canonical h,
      validRunCancelled_canonical h, by simp⟩
  rw [validEvent, validEvent, h.string, h.stringAt]
  cases hfind : eventChecks.find? fun c : JsString × (RecordValue N → Bool) =>
      c.1 == stringAt event (js "type") with
  | none => rfl
  | some c =>
    dsimp only
    rw [hchecks c (List.mem_of_find?_eq_some hfind)]

end CanonicalEvent

namespace RlmEvent

theorem canonicalOf (event : RlmEvent N) {fields' : RecordValue N}
    (h : Core.canonical event.toJson = .obj fields') : CanonicalOf event.fields fields' := by
  have howned := owned_obj.mp event.owned
  have hbound : (Json.obj event.fields).depth ≤ maxEventDepth := by
    have := event.bounded
    simp only [withinBounds, Bool.and_eq_true, decide_eq_true_eq] at this
    exact this.1.2
  have hmem : ∀ key, ∀ v ∈ get event.fields key, (key, v) ∈ event.fields :=
    fun key v hv => (lookupField_eq_some_iff howned.1.1).mp hv
  refine ⟨canonicalRecord_of_canonical howned.1.1 h, fun key v hv => ?_, fun key v hv => ?_⟩
  · exact howned.2 _ (hmem key v hv)
  · have hdepth := depthFields_le.mp (le_refl (depthFields event.fields)) _ (hmem key v hv)
    simp only [Json.depth] at hbound
    dsimp only at hdepth
    omega

/-- The members of the canonical form. -/
def canonicalFields (event : RlmEvent N) : RecordValue N :=
  mkFields (sortBy Prod.fst (Core.canonicalFields event.fields))

theorem canonical_toJson (event : RlmEvent N) :
    Core.canonical event.toJson = .obj event.canonicalFields := by
  rw [toJson, Core.canonical, canonicalFields]

/-- The canonical form of an event is an event. -/
def canonical (event : RlmEvent N) : RlmEvent N where
  fields := event.canonicalFields
  owned := by
    rw [← canonical_toJson]
    exact canonical_owned _
  bounded := by
    rw [← canonical_toJson]
    exact withinBounds_canonical event.owned event.bounded
  valid := by
    rw [validEvent_canonical (event.canonicalOf event.canonical_toJson)]
    exact event.valid

theorem toJson_canonical (event : RlmEvent N) :
    event.canonical.toJson = Core.canonical event.toJson :=
  (canonical_toJson event).symm

theorem toJson_owned (event : RlmEvent N) : event.toJson.Owned :=
  event.owned

theorem toJson_depth (event : RlmEvent N) : event.toJson.depth ≤ maxEventDepth := by
  have h := event.bounded
  simp only [withinBounds, Bool.and_eq_true, decide_eq_true_eq] at h
  exact h.1.2

theorem toJson_injective {event event' : RlmEvent N} (h : event.toJson = event'.toJson) :
    event = event' := by
  cases event
  cases event'
  obtain rfl := Json.obj.inj h
  rfl

/-- Canonical events are canonical already. -/
theorem canonical_canonical (event : RlmEvent N) :
    event.canonical.canonical = event.canonical := by
  apply toJson_injective
  rw [toJson_canonical, toJson_canonical, Core.canonical_canonical event.toJson_owned]

end RlmEvent

end PiRlm.Shell

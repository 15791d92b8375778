/-
  PiRlm.Shell.DelegationProtocol

  What the events of a delegation say, `shell/delegation/protocol.ts`.

  Events are values of a world, of which own data properties are read only.
-/
import PiRlm.Lib.Whitespace
import PiRlm.Shell.BoundedJson
import PiRlm.Shell.EventRecord

namespace PiRlm.Shell

open PiRlm.Lib

-- ============================================================================
-- Limits
-- ============================================================================

namespace DelegationV2Limits

def shortTextBytes : Nat := 1024

def resultBytes : Nat := 2 * 1024 * 1024

def updateBytes : Nat := 16 * 1024

def errorBytes : Nat := 4 * 1024

def maxUpdates : Nat := 256

def maxJsonNodes : Nat := 100000

def maxJsonDepth : Nat := 100

def maxUsageCount : Nat := 1000000000

def maxCostUsd : Nat := 1000000

def maxDurationMs : Nat := 2147483647

end DelegationV2Limits

def delegationJsonLimits (maxBytes : Nat) : BoundedJsonLimits :=
  ⟨maxBytes, DelegationV2Limits.maxJsonNodes, DelegationV2Limits.maxJsonDepth⟩

-- ============================================================================
-- Calls and outcomes
-- ============================================================================

structure DelegationIdentity where
  requestId : JsString
  ownerRunId : JsString
  nodeId : JsString
  deriving Repr, DecidableEq

inductive RequestedResult where
  | text
  | structured
  deriving Repr, DecidableEq

def RequestedResult.kind : RequestedResult → JsString
  | .text => js "text"
  | .structured => js "structured"

inductive DelegationV2FailureCode where
  | cancelled
  | timeout
  | unavailableContext
  | invalidRequest
  | duplicateNode
  | turnBudgetExhausted
  | toolBudgetExhausted
  | invalidResult
  | failed
  deriving Repr, DecidableEq

structure SubagentDelegationV2Usage (N : Type) where
  input : N
  output : N
  cacheRead : N
  cacheWrite : N
  cost : N
  turns : N
  toolCalls : N
  durationMs : N
  deriving Repr, DecidableEq

inductive DelegationV2Outcome (N : Type) where
  | success (value : Json N) (usage : Option (SubagentDelegationV2Usage N))
    (runId agent model : Option JsString)
  | failure (code : DelegationV2FailureCode) (status : JsString)
    (usage : Option (SubagentDelegationV2Usage N))
  deriving Repr

structure DelegationV2Update (N : Type) where
  currentTool : Option JsString
  recentOutput : Option JsString
  model : Option JsString
  toolCount : Option N
  durationMs : Option N
  tokens : Option N
  deriving Repr, DecidableEq

-- ============================================================================
-- Fields
-- ============================================================================

section

variable {N : Type} [JsonNumber N] (w : JsWorld N)

def boundedString (maxBytes : Nat) (nonEmpty : Bool) : JsValue N → Option JsString
  | .str s =>
    if (nonEmpty = false ∨ trimWhiteSpace s ≠ []) ∧ octetLength s ≤ maxBytes then some s else none
  | _ => none

def DelegationV2.boundedInteger (max : Nat) (min : Int) : JsValue N → Option N
  | .num n =>
    if isSafeInteger n ∧ (min : ℚ) ≤ JsonNumber.value n ∧ JsonNumber.value n ≤ (max : ℚ) then some n
    else none
  | _ => none

/-- The test that `onlyKeys` makes of each key. -/
def onlyKeysFrom (supported : List JsString) : (count : Nat) → List JsString → Bool
  | _, [] => true
  | count, key :: rest =>
    if supported.length < count + 1 ∨ key ∉ supported then false
    else onlyKeysFrom supported (count + 1) rest

def onlyKeys (supported : List JsString) (keys : List JsString) : Bool :=
  onlyKeysFrom supported 0 keys

/-- The keys that an object has for an enumeration. -/
def enumerableKeys (o : JsObject N) : List JsString := o.enumerable.map (·.key)

/-- The object of a value that is a plain record. -/
def plainRecord : JsValue N → Option (JsObject N)
  | .object r => (w.heap[r]?).filter fun o => w.isPlainRecord o
  | _ => none

/-- A property that may be missing, and is an own data property that passes a test if not. -/
def optionalProperty {α : Type} (o : JsObject N) (key : JsString)
    (check : JsValue N → Option α) : Option (Option α) :=
  match o.property key with
  | none => some none
  | some (.accessor _) => none
  | some (.data v) => (check v).map some

/-- The value is the number two: `SUBAGENT_DELEGATION_V2_PROTOCOL_VERSION`. -/
def isProtocolVersion : JsValue N → Bool
  | .num n => decide (JsonNumber.value n = 2)
  | _ => false

def isTextValue (s : JsString) : JsValue N → Bool
  | .str t => decide (t = s)
  | _ => false

def identityMatches (o : JsObject N) (expected : DelegationIdentity) : Bool :=
  (o.dataProperty (js "version")).any isProtocolVersion &&
    (o.dataProperty (js "requestId")).any (isTextValue expected.requestId) &&
    (o.dataProperty (js "ownerRunId")).any (isTextValue expected.ownerRunId) &&
    (o.dataProperty (js "nodeId")).any (isTextValue expected.nodeId)

-- ============================================================================
-- Terminals
-- ============================================================================

def usageFields : List JsString :=
  [js "input", js "output", js "cacheRead", js "cacheWrite", js "cost", js "turns",
    js "toolCalls", js "durationMs"]

/-- A cost that is finite, not negative and at most `maxCostUsd`. -/
def boundedCost : JsValue N → Option N
  | .num n =>
    if 0 ≤ JsonNumber.value n ∧ JsonNumber.value n ≤ DelegationV2Limits.maxCostUsd then some n
    else none
  | _ => none

/-- `parseUsage` of a usage that is not missing. -/
def parseUsage (input : JsValue N) : Option (SubagentDelegationV2Usage N) := do
  let o ← plainRecord w input
  if !onlyKeys usageFields (enumerableKeys o) then none
  let count := DelegationV2.boundedInteger DelegationV2Limits.maxUsageCount 0
  let input ← (o.dataProperty (js "input")).bind count
  let output ← (o.dataProperty (js "output")).bind count
  let cacheRead ← (o.dataProperty (js "cacheRead")).bind count
  let cacheWrite ← (o.dataProperty (js "cacheWrite")).bind count
  let cost ← (o.dataProperty (js "cost")).bind boundedCost
  let turns ← (o.dataProperty (js "turns")).bind count
  let toolCalls ← (o.dataProperty (js "toolCalls")).bind count
  let durationMs ← (o.dataProperty (js "durationMs")).bind
    (DelegationV2.boundedInteger DelegationV2Limits.maxDurationMs 0)
  return ⟨input, output, cacheRead, cacheWrite, cost, turns, toolCalls, durationMs⟩

def statusFailureCode (status : JsString) : DelegationV2FailureCode :=
  if status = js "cancelled" ∨ status = js "interrupted" then .cancelled
  else if status = js "timed_out" then .timeout
  else if status = js "unavailable_context" then .unavailableContext
  else if status = js "invalid_request" then .invalidRequest
  else if status = js "duplicate_node" then .duplicateNode
  else if status = js "turn_budget_exhausted" then .turnBudgetExhausted
  else if status = js "tool_budget_exhausted" then .toolBudgetExhausted
  else if status = js "structured_output_failed" then .invalidResult
  else .failed

def statuses : List JsString :=
  [js "completed", js "failed", js "timed_out", js "cancelled", js "interrupted",
    js "turn_budget_exhausted", js "tool_budget_exhausted", js "structured_output_failed",
    js "acceptance_failed", js "invalid_request", js "unavailable_context", js "duplicate_node"]

def terminalFields : List JsString :=
  [js "version", js "requestId", js "ownerRunId", js "nodeId", js "status", js "error",
    js "runId", js "agent", js "model", js "thinking", js "exitCode", js "result", js "usage"]

/-- The text of a status that is known. -/
def knownStatus : JsValue N → Option JsString
  | .str s => if s ∈ statuses then some s else none
  | _ => none

/-- The value of the result of a completed call. -/
def parseResult (requestedResult : RequestedResult) (input : JsValue N) : Option (Json N) := do
  let o ← plainRecord w input
  if !(o.dataProperty (js "kind")).any (isTextValue requestedResult.kind) then none
  match requestedResult with
  | .text =>
    if !onlyKeys [js "kind", js "text"] (enumerableKeys o) then none
    let text ← (o.dataProperty (js "text")).bind
      (boundedString DelegationV2Limits.resultBytes false)
    return .str text
  | .structured =>
    if !onlyKeys [js "kind", js "value"] (enumerableKeys o) then none
    (o.dataProperty (js "value")).bind
      (cloneBoundedJson w (delegationJsonLimits DelegationV2Limits.resultBytes))

/-- The rest of `parseDelegationV2Terminal`, for an event of the call; nothing when invalid. -/
def parseTerminalFields (requestedResult : RequestedResult) (o : JsObject N) :
    Option (DelegationV2Outcome N) := do
  let shortText := boundedString DelegationV2Limits.shortTextBytes true
  if !onlyKeys terminalFields (enumerableKeys o) then none
  let status ← (o.dataProperty (js "status")).bind knownStatus
  let usage ← optionalProperty o (js "usage") (parseUsage w)
  let runId ← optionalProperty o (js "runId") shortText
  let agent ← optionalProperty o (js "agent") shortText
  let model ← optionalProperty o (js "model") shortText
  let error ← optionalProperty o (js "error") (boundedString DelegationV2Limits.errorBytes false)
  let _ ← optionalProperty o (js "thinking")
    (boundedString DelegationV2Limits.shortTextBytes false)
  let _ ← optionalProperty o (js "exitCode")
    (DelegationV2.boundedInteger DelegationV2Limits.maxDurationMs
      (-DelegationV2Limits.maxDurationMs))
  if status ≠ js "completed" then
    if (o.property (js "result")).isSome then none
    else return .failure (statusFailureCode status) status usage
  else
    if error.isSome then none
    let value ← (o.dataProperty (js "result")).bind (parseResult w requestedResult)
    return .success value usage runId agent model

inductive ParsedTerminal (N : Type) where
  | unrelated
  | invalid
  | outcome (value : DelegationV2Outcome N)
  deriving Repr

def parseDelegationV2Terminal (input : JsValue N) (expected : DelegationIdentity)
    (requestedResult : RequestedResult) : ParsedTerminal N :=
  match plainRecord w input with
  | none => .unrelated
  | some o =>
    if !identityMatches o expected then .unrelated
    else
      match parseTerminalFields w requestedResult o with
      | none => .invalid
      | some outcome => .outcome outcome

-- ============================================================================
-- Updates and starts
-- ============================================================================

def updateFields : List JsString :=
  [js "version", js "requestId", js "ownerRunId", js "nodeId", js "currentTool",
    js "currentToolArgs", js "recentOutput", js "recentOutputLines", js "recentTools",
    js "model", js "toolCount", js "durationMs", js "tokens"]

def startedFields : List JsString :=
  [js "version", js "requestId", js "ownerRunId", js "nodeId"]

/-- A value of a clone, as what the tests of strings and numbers see. -/
def leafValue : Json N → JsValue N
  | .null => .null
  | .bool b => .bool b
  | .num n => .num n
  | .str s => .str s
  | .arr _ | .obj _ => .object 0

/-- A member of a clone that may be missing. -/
def optionalField {α : Type} (fields : List (JsString × Json N)) (key : JsString)
    (check : Json N → Option α) : Option (Option α) :=
  match Json.lookupField fields key with
  | none => some none
  | some v => (check v).map some

/-- An entry of `recentTools`. -/
def isRecentTool : Json N → Bool
  | .obj item =>
    onlyKeys [js "tool", js "args"] (item.map Prod.fst) &&
      ((Json.lookupField item (js "tool")).bind fun v =>
        boundedString DelegationV2Limits.shortTextBytes true (leafValue v)).isSome &&
      ((Json.lookupField item (js "args")).bind fun v =>
        boundedString DelegationV2Limits.updateBytes false (leafValue v)).isSome
  | _ => false

def isStringItem : Json N → Bool
  | .str _ => true
  | _ => false

/-- An array of at most 256 items that pass a test. -/
def boundedArray (test : Json N → Bool) : Json N → Option (List (Json N))
  | .arr items => if items.length ≤ 256 ∧ items.all test then some items else none
  | _ => none

def parseDelegationV2Update (input : JsValue N) (expected : DelegationIdentity) :
    Option (DelegationV2Update N) := do
  let snapshot ← cloneBoundedJson w (delegationJsonLimits (64 * 1024)) input
  match snapshot with
  | .obj update =>
    let text := fun v => boundedString DelegationV2Limits.updateBytes false (leafValue v)
    let count := fun v =>
      DelegationV2.boundedInteger DelegationV2Limits.maxUsageCount 0 (leafValue v)
    let data := fun key => (Json.lookupField update key).map leafValue
    if !(onlyKeys updateFields (update.map Prod.fst) &&
        (data (js "version")).any isProtocolVersion &&
        (data (js "requestId")).any (isTextValue expected.requestId) &&
        (data (js "ownerRunId")).any (isTextValue expected.ownerRunId) &&
        (data (js "nodeId")).any (isTextValue expected.nodeId)) then none
    let _ ← optionalField update (js "currentToolArgs") text
    let _ ← optionalField update (js "recentOutputLines") (boundedArray isStringItem)
    let _ ← optionalField update (js "recentTools") (boundedArray isRecentTool)
    let currentTool ← optionalField update (js "currentTool") text
    let recentOutput ← optionalField update (js "recentOutput") text
    let model ← optionalField update (js "model") text
    let toolCount ← optionalField update (js "toolCount") count
    let tokens ← optionalField update (js "tokens") count
    let durationMs ← optionalField update (js "durationMs") fun v =>
      DelegationV2.boundedInteger DelegationV2Limits.maxDurationMs 0 (leafValue v)
    return ⟨currentTool, recentOutput, model, toolCount, durationMs, tokens⟩
  | _ => none

def isDelegationV2Started (input : JsValue N) (expected : DelegationIdentity) : Bool :=
  (plainRecord w input).any fun o =>
    onlyKeys startedFields (enumerableKeys o) && identityMatches o expected

end

-- ============================================================================
-- Events of other calls
-- ============================================================================

section

variable {N : Type} [JsonNumber N] {w : JsWorld N} {expected : DelegationIdentity}
  {v : JsValue N}

/-- The event has the identity of a call. -/
def Concerns (w : JsWorld N) (v : JsValue N) (expected : DelegationIdentity) : Prop :=
  ∃ o, plainRecord w v = some o ∧ identityMatches o expected = true

theorem parseTerminal_of_not_concerns (h : ¬Concerns w v expected)
    (requestedResult : RequestedResult) :
    parseDelegationV2Terminal w v expected requestedResult = .unrelated := by
  rw [parseDelegationV2Terminal]
  cases ho : plainRecord w v with
  | none => rfl
  | some o =>
    have hmatch : identityMatches o expected = false :=
      (Bool.not_eq_true _).mp fun htrue => h ⟨o, ho, htrue⟩
    dsimp only
    rw [hmatch]
    rfl

theorem not_concerns_of_parseTerminal {requestedResult : RequestedResult}
    (h : parseDelegationV2Terminal w v expected requestedResult = .unrelated) :
    ¬Concerns w v expected := by
  rintro ⟨o, ho, hmatch⟩
  rw [parseDelegationV2Terminal, ho] at h
  dsimp only at h
  rw [hmatch, Bool.not_true, if_neg Bool.false_ne_true] at h
  split at h <;> exact absurd h nofun

theorem isStarted_of_not_concerns (h : ¬Concerns w v expected) :
    isDelegationV2Started w v expected = false := by
  rw [isDelegationV2Started]
  cases ho : plainRecord w v with
  | none => rfl
  | some o =>
    have hmatch : identityMatches o expected = false :=
      (Bool.not_eq_true _).mp fun htrue => h ⟨o, ho, htrue⟩
    show (_ && identityMatches o expected) = false
    rw [hmatch, Bool.and_false]

theorem represents_of_clone {limits : BoundedJsonLimits} {clone : Json N}
    (h : cloneBoundedJson w limits v = some clone) : Represents w v clone := by
  rw [cloneBoundedJson] at h
  split at h
  · obtain ⟨⟨j, state⟩, hcounted, rfl⟩ := Option.map_eq_some_iff.mp h
    exact (cloneNode_sound hcounted).represents
  · exact absurd h (by simp)

omit [JsonNumber N] in
/-- What a test of strings and numbers accepts in a clone is there in the input. -/
theorem any_dataProperty {r : Nat} {o : JsObject N} {fields : List (JsString × Json N)}
    {key : JsString} {test : JsValue N → Bool} (ho : w.heap[r]? = some o)
    (h : Represents w (.object r) (.obj fields)) (htest : ∀ r, test (.object r) = false)
    (hany : ((Json.lookupField fields key).map leafValue).any test = true) :
    (o.dataProperty key).any test = true := by
  cases hj : Json.lookupField fields key with
  | none =>
    rw [hj] at hany
    exact absurd hany nofun
  | some j =>
    rw [hj] at hany
    have hleaf : test (leafValue j) = true := hany
    obtain ⟨v, hv, hrepresents⟩ := h.dataProperty ho hj
    rw [hv]
    cases hrepresents with
    | null | bool | num | str => exact hleaf
    | arr | obj => exact absurd ((htest 0).symm.trans hleaf) nofun

theorem parseUpdate_of_not_concerns (h : ¬Concerns w v expected) :
    parseDelegationV2Update w v expected = none := by
  rw [parseDelegationV2Update]
  cases hclone : cloneBoundedJson w (delegationJsonLimits (64 * 1024)) v with
  | none => rfl
  | some clone =>
    have hrepresents := represents_of_clone hclone
    cases hrepresents with
    | null | bool | num | str | arr => rfl
    | @obj r o fields value ho hplain hkeys hdata hfields =>
      have hr : Represents w (.object r) (.obj fields) := .obj value ho hplain hkeys hdata hfields
      have hrecord : plainRecord w (.object r) = some o := by
        rw [plainRecord, ho, Option.filter_some, if_pos hplain]
      rw [Option.bind_eq_bind, Option.bind_some]
      dsimp only
      rw [if_pos]
      · rfl
      · rw [Bool.not_eq_true']
        by_contra hmatch
        rw [Bool.not_eq_false] at hmatch
        simp only [Bool.and_eq_true] at hmatch
        obtain ⟨⟨⟨⟨-, hversion⟩, hrequest⟩, howner⟩, hnode⟩ := hmatch
        refine h ⟨o, hrecord, ?_⟩
        simp only [identityMatches, Bool.and_eq_true]
        exact ⟨⟨⟨any_dataProperty ho hr (fun _ => rfl) hversion,
          any_dataProperty ho hr (fun _ => rfl) hrequest⟩,
          any_dataProperty ho hr (fun _ => rfl) howner⟩,
          any_dataProperty ho hr (fun _ => rfl) hnode⟩

end

end PiRlm.Shell

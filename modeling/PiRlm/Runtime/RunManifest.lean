/-
  PiRlm.Runtime.RunManifest

  The run manifest: `buildRunManifest` and `parseManifestDocument` of
  `runtime/run-manifest.ts`, with `validateProfile` of `runtime/profile.ts`.

  The builder and the reader share the checks of the parts; the reader goes through a JSON
  value member by member and derives the prompt bindings again.
-/
import PiRlm.Core.Program
import PiRlm.Shell.Hash

namespace PiRlm.Runtime.Manifest

open PiRlm.Lib PiRlm.Lib.Json PiRlm.Core PiRlm.Shell

def runManifestSchemaVersion : Nat := 5
def rlmRuntimeVersion : JsString := js "0.1.0"
def rlmDslVersion : JsString := js "0.2.0"
def controllerResumeCapabilityVersion : JsString := js "pi-rlm.controller-resume.v1"

/-- What a check throws. -/
inductive ManifestError where
  | type (message : JsString)
  | range (message : JsString)
  | compatibility (message : JsString)
  | preflight (message : JsString)
  deriving Repr, DecidableEq

def ManifestError.message : ManifestError → JsString
  | .type message | .range message | .compatibility message | .preflight message => message

abbrev Check := Except ManifestError

/-- The members of an object. -/
abbrev Members (N : Type) := List (JsString × Json N)

/-- A `TypeError`, unless a check has passed. -/
def require (passed : Bool) (message : JsString) : Check Unit :=
  if passed then .ok () else .error (.type message)

/-- A check of every element, in order. -/
def each {α : Type} (check : α → Check Unit) : List α → Check Unit
  | [] => .ok ()
  | x :: rest => (check x).bind fun _ => each check rest

variable {N : Type}

-- ============================================================================
-- The boundary
-- ============================================================================

/-- A copy of strict JSON. -/
def plainJson (value : Option (Json N)) (label : JsString) : Check (Json N) :=
  match value with
  | none => .error (.type (label ++ js " is not strict JSON at $: undefined is not JSON"))
  | some value =>
    match parseJsonValue value with
    | .ok parsed => .ok parsed
    | .error (path, reason) =>
      .error (.type (label ++ js " is not strict JSON at " ++ path ++ js ": " ++ reason))

/-- An object with exactly the required fields and no others than the optional ones. -/
def record (value : Option (Json N)) (path : JsString) (required optional : List JsString) :
    Check (Members N) :=
  match value with
  | some (.obj fields) =>
    let keys := fields.map Prod.fst
    (require (decide (required.length ≤ keys.length) &&
      keys.all (fun key => decide (key ∈ required ++ optional)) &&
      required.all fun key => decide (key ∈ keys)) (path ++ js " has invalid fields")).map
        fun _ => fields
  | _ => .error (.type (path ++ js " must be an object"))

def array (value : Option (Json N)) (path : JsString) : Check (List (Json N)) :=
  match value with
  | some (.arr items) => .ok items
  | _ => .error (.type (path ++ js " must be an array"))

/-- A normalized nonempty string. -/
def string (value : Option (Json N)) (path : JsString) : Check JsString :=
  match value with
  | some (.str s) =>
    (require (!s.isEmpty && decide (trimWhiteSpace s = s))
      (path ++ js " must be a normalized nonempty string")).map fun _ => s
  | _ => .error (.type (path ++ js " must be a normalized nonempty string"))

def hash (value : Option (Json N)) (path : JsString) : Check JsString :=
  match value with
  | some (.str s) =>
    (require (isHash s) (path ++ js " must be a lowercase SHA-256 hash")).map fun _ => s
  | _ => .error (.type (path ++ js " must be a lowercase SHA-256 hash"))

/-- `value === text`. -/
def isText (text : JsString) : Option (Json N) → Bool
  | some (.str s) => s == text
  | _ => false

/-- `/^[A-Za-z0-9][A-Za-z0-9._-]{0,127}$/`. -/
def isNonce : JsString → Bool
  | [] => false
  | u :: rest => isAlphanumeric u && decide (rest.length ≤ 127) &&
    rest.all fun w => isAlphanumeric w || w == 0x2E || w == 0x5F || w == 0x2D
where
  isAlphanumeric (u : CodeUnit) : Bool :=
    isDigit u || decide (0x41 ≤ u.val ∧ u.val ≤ 0x5A) || decide (0x61 ≤ u.val ∧ u.val ≤ 0x7A)

section Numbers

variable [JsonNumber N]

/-- The number a member holds. -/
def numeric : Option (Json N) → Option ℚ
  | some (.num n) => some (JsonNumber.value n)
  | _ => none

/-- `Number.isSafeInteger(value) && value >= minimum`. -/
def isSafeInteger (minimum : ℚ) : Option ℚ → Bool
  | some value => value.isInt && decide (|value| ≤ maxSafeInteger) && decide (minimum ≤ value)
  | none => false

def integer (value : Option (Json N)) (path : JsString) (minimum : ℚ) : Check Unit :=
  require (isSafeInteger minimum (numeric value)) (path ++ js " must be a safe integer")

def canonicalText (value : Json N) : Check JsString :=
  match canonicalStringify value with
  | .ok text => .ok text
  | .error message => .error (.range message)

-- ============================================================================
-- Program, profile and limits
-- ============================================================================

def validateProgram (value : Option (Json N)) : Check (RlmProgram N) := do
  let json ← plainJson value (js "manifest program")
  match normalizeProgram json with
  | .error _ => .error (.type (js "manifest program is not a complete normalized RlmProgram"))
  | .ok program =>
    let normalized ← plainJson (some program.toJson) (js "normalized manifest program")
    let normalizedText ← canonicalText normalized
    let text ← canonicalText json
    require (decide (normalizedText = text))
      (js "manifest program is not a complete normalized RlmProgram")
    pure program

/-- The fields of a profile that hold numbers. -/
def profileNumbers : List JsString :=
  ["maxDepth", "maxFrames", "maxLogicalCalls", "maxAttempts", "maxControllerTurns",
    "maxConcurrency", "storedByteLimit", "wallMs", "cellWallMs", "memoryBytes",
    "previewHeadBytes", "previewTailBytes", "contextMaxReadBytes", "contextMaxLines",
    "contextMaxLineBytes", "contextMaxMatches", "contextMaxChunks", "contextMaxPatternBytes",
    "extractorEvidenceMaxBytes", "extractorValueMaxBytes", "extractorValuesMaxBytes",
    "extractorHandleHeadBytes", "extractorHandleTailBytes"].map js

def profileFields : List JsString :=
  [js "name"] ++ profileNumbers ++ [js "trajectory", js "models"]

def trajectoryFields : List JsString :=
  ["headEntries", "tailEntries", "codeHeadBytes", "codeTailBytes", "reasoningMaxBytes"].map js

def modelFields : List JsString := ["small", "medium", "large"].map js

def limitFields : List JsString :=
  ["maxDepth", "maxFrames", "maxLogicalCalls", "maxAttempts", "maxControllerTurns",
    "maxConcurrency", "storedByteLimit", "deadlineMs"].map js

/-- The members of a member. -/
def membersOf : Option (Json N) → Members N
  | some (.obj fields) => fields
  | _ => []

/-- `safeInteger` of `runtime/profile.ts`. -/
def safeInteger (name : JsString) (value : Option ℚ) (allowZero : Bool) : Check Unit :=
  require (isSafeInteger (if allowZero then 0 else 1) value)
    (name ++ js " must be a " ++ (if allowZero then js "nonnegative" else js "positive") ++
      js " safe integer")

/-- The sum of two numbers; two safe integers have a rounded one only beyond the safe range. -/
def sum (a b : Option ℚ) : Option ℚ :=
  match a, b with
  | some a, some b => some (a + b)
  | _, _ => none

/-- `a > b`. -/
def exceeds (a b : Option ℚ) : Bool :=
  match a, b with
  | some a, some b => decide (b < a)
  | _, _ => false

/-- The fields that `validateProfile` lets be zero. -/
def zeroFields : List JsString :=
  ["maxDepth", "maxFrames", "maxLogicalCalls", "maxAttempts", "maxControllerTurns",
    "storedByteLimit"].map js

/-- Validate host numeric options before any run effect or provider reservation. -/
def validateProfile (profile : Members N) : Check Unit := do
  let field (name : String) := numeric (lookupField profile (js name))
  let trajectory (name : String) :=
    numeric (lookupField (membersOf (lookupField profile (js "trajectory"))) (js name))
  let number (name : JsString) :=
    safeInteger name (numeric (lookupField profile name)) (decide (name ∈ zeroFields))
  each number (profileNumbers.take 6)
  if (lookupField profile (js "tokenLimit")).isSome then
    safeInteger (js "tokenLimit") (field "tokenLimit") false
  else pure ()
  each number (profileNumbers.drop 6)
  require (!exceeds (field "extractorValueMaxBytes") (field "extractorValuesMaxBytes"))
    (js "extractorValueMaxBytes must not exceed extractorValuesMaxBytes")
  require (!exceeds (field "extractorValuesMaxBytes") (field "extractorEvidenceMaxBytes"))
    (js "extractorValuesMaxBytes must not exceed extractorEvidenceMaxBytes")
  safeInteger (js "extractor handle preview capacity")
    (sum (field "extractorHandleHeadBytes") (field "extractorHandleTailBytes")) false
  each (fun name => safeInteger (js "trajectory." ++ name)
    (numeric (lookupField (membersOf (lookupField profile (js "trajectory"))) name)) true)
    trajectoryFields
  safeInteger (js "trajectory head/tail entry capacity")
    (sum (trajectory "headEntries") (trajectory "tailEntries")) true
  safeInteger (js "trajectory code preview capacity")
    (sum (trajectory "codeHeadBytes") (trajectory "codeTailBytes")) true

/-- `tokenLimit`, a positive integer if it is there. -/
def checkTokenLimit (fields : Members N) (path : JsString) : Check Unit :=
  if (lookupField fields (js "tokenLimit")).isSome then
    integer (lookupField fields (js "tokenLimit")) (path ++ js ".tokenLimit") 1
  else .ok ()

/-- Every field of a list holds a safe integer. -/
def checkIntegers (fields : Members N) (path : JsString) (names : List JsString) : Check Unit :=
  each (fun name => integer (lookupField fields name) (path ++ js "." ++ name) 0) names

def validateProfileJson (value : Option (Json N)) : Check (Members N) := do
  let path := js "manifest.profile"
  let profile ← record value path profileFields [js "tokenLimit"]
  let _ ← string (lookupField profile (js "name")) (path ++ js ".name")
  checkIntegers profile path profileNumbers
  checkTokenLimit profile path
  let trajectory ← record (lookupField profile (js "trajectory")) (path ++ js ".trajectory")
    trajectoryFields []
  each (fun entry => integer (some entry.2) (path ++ js ".trajectory." ++ entry.1) 0) trajectory
  let models ← record (lookupField profile (js "models")) (path ++ js ".models") modelFields []
  each (fun entry => (string (some entry.2) (path ++ js ".models." ++ entry.1)).map fun _ => ())
    models
  validateProfile profile
  pure profile

def validateLimits (value : Option (Json N)) (profile : Members N) : Check (Members N) := do
  let path := js "manifest.limits"
  let limits ← record value path limitFields [js "tokenLimit"]
  checkIntegers limits path limitFields
  checkTokenLimit limits path
  each (fun name => require (decide (name = js "deadlineMs") ||
      decide (numeric (lookupField limits name) = numeric (lookupField profile name)))
    (path ++ js "." ++ name ++ js " does not match profile")) limitFields
  require (decide (numeric (lookupField limits (js "tokenLimit")) =
    numeric (lookupField profile (js "tokenLimit"))))
    (path ++ js ".tokenLimit does not match profile")
  pure limits

end Numbers

-- ============================================================================
-- Components
-- ============================================================================

/-- A member of an object: a value, or `null` for none. -/
def nullable {α : Type} (json : α → Json N) : Option α → Json N
  | none => .null
  | some value => json value

/-- Implementation id and version, with the configuration of the instance. -/
structure RuntimeComponentIdentity (N : Type) where
  id : JsString
  version : JsString
  configuration : Json N
  deriving Repr

def RuntimeComponentIdentity.toJson (identity : RuntimeComponentIdentity N) : Json N :=
  .obj [(js "id", .str identity.id), (js "version", .str identity.version),
    (js "configuration", identity.configuration)]

inductive ResumeStrategy where
  | trajectoryDerived | stateToken
  deriving Repr, DecidableEq

def ResumeStrategy.text : ResumeStrategy → JsString
  | .trajectoryDerived => js "trajectory-derived"
  | .stateToken => js "state-token"

def resumeStrategy : Option (Json N) → Option ResumeStrategy
  | some (.str s) =>
    if s = js "trajectory-derived" then some .trajectoryDerived
    else if s = js "state-token" then some .stateToken
    else none
  | _ => none

def ResumeStrategy.toJson (strategy : ResumeStrategy) : Json N :=
  .obj [(js "version", .str controllerResumeCapabilityVersion), (js "strategy", .str strategy.text)]

structure BackendIdentity where
  id : JsString
  version : JsString
  deriving Repr, DecidableEq

def BackendIdentity.toJson (backend : BackendIdentity) : Json N :=
  .obj [(js "id", .str backend.id), (js "version", .str backend.version)]

structure RunComponents (N : Type) where
  model : RuntimeComponentIdentity N
  controller : RuntimeComponentIdentity N
  controllerResume : Option ResumeStrategy
  extractor : Option (RuntimeComponentIdentity N)
  agentDelegation : Option (RuntimeComponentIdentity N)
  deriving Repr

def RunComponents.toJson (components : RunComponents N) : Json N :=
  .obj [(js "model", components.model.toJson), (js "controller", components.controller.toJson),
    (js "controllerResume", nullable ResumeStrategy.toJson components.controllerResume),
    (js "extractor", nullable RuntimeComponentIdentity.toJson components.extractor),
    (js "agentDelegation", nullable RuntimeComponentIdentity.toJson components.agentDelegation)]

def runtimeIdentity (value : Option (Json N)) (path : JsString) :
    Check (RuntimeComponentIdentity N) := do
  let component ← record value path [js "id", js "version", js "configuration"] []
  let id ← string (lookupField component (js "id")) (path ++ js ".id")
  let version ← string (lookupField component (js "version")) (path ++ js ".version")
  let configuration ← plainJson (lookupField component (js "configuration"))
    (path ++ js ".configuration")
  pure ⟨id, version, configuration⟩

/-- The own data property `identity` of a component, if it has one with a value. -/
def suppliedIdentity (identity : Option (JsonValue N)) (path : JsString) :
    Check (RuntimeComponentIdentity N) :=
  match identity with
  | none => .error (.type (path ++ js ".identity must be an own data property with stable " ++
      js "non-secret identity/version/configuration"))
  | some identity => runtimeIdentity (some identity.1) (path ++ js ".identity")

/-- A property of the object a controller declares its resume capability with. -/
inductive CapabilityProperty (N : Type) where
  /-- There is no own data property. -/
  | absent
  | function
  | data (value : Option (JsonValue N))
  deriving Repr

structure CapabilityProperties (N : Type) where
  version : CapabilityProperty N
  strategy : CapabilityProperty N
  capture : CapabilityProperty N
  validate : CapabilityProperty N
  restore : CapabilityProperty N
  deriving Repr

/-- The own property `resumeCapability` of a controller. -/
inductive ResumeCapability (N : Type) where
  | absent
  /-- An accessor, or a property without a value. -/
  | invalid
  /-- A value that is not an object. -/
  | scalar
  | object (properties : CapabilityProperties N)
  deriving Repr

def capabilityMessage : JsString := js "controller resume capability is malformed or unsupported"

def capabilityData (property : CapabilityProperty N) (key : JsString) :
    Check (CapabilityProperty N) :=
  match property with
  | .absent => .error (.type (js "controller resume capability." ++ key ++
      js " must be an own data property"))
  | property => .ok property

/-- The JSON value of a property. -/
def CapabilityProperty.json : CapabilityProperty N → Option (Json N)
  | .data (some value) => some value.1
  | _ => none

def CapabilityProperty.isFunction : CapabilityProperty N → Bool
  | .function => true
  | _ => false

def inspectControllerResumeCapability : ResumeCapability N → Check (Option ResumeStrategy)
  | .absent => .ok none
  | .invalid => .error (.type (js "controller resume capability must be an own data property"))
  | .scalar => .error (.type capabilityMessage)
  | .object properties => do
    let version ← capabilityData properties.version (js "version")
    let strategy ← capabilityData properties.strategy (js "strategy")
    let capture ← capabilityData properties.capture (js "capture")
    let validate ← capabilityData properties.validate (js "validate")
    let restore ← capabilityData properties.restore (js "restore")
    require (isText controllerResumeCapabilityVersion version.json &&
      (resumeStrategy strategy.json).isSome && capture.isFunction && validate.isFunction &&
      restore.isFunction) capabilityMessage
    pure (resumeStrategy strategy.json)

structure RunComponentPreflightInput (N : Type) where
  backendId : Option (JsonValue N)
  backendVersion : Option (JsonValue N)
  model : Option (JsonValue N)
  controller : Option (JsonValue N)
  resumeCapability : ResumeCapability N
  /-- The extractor, if there is one, by its identity. -/
  extractor : Option (Option (JsonValue N))
  agentDelegation : Option (Option (JsonValue N))
  deriving Repr

/-- An optional component. -/
def suppliedOption (component : Option (Option (JsonValue N))) (path : JsString) :
    Check (Option (RuntimeComponentIdentity N)) :=
  match component with
  | none => .ok none
  | some identity => (suppliedIdentity identity path).map some

def snapshotComponents (input : RunComponentPreflightInput N) :
    Check (BackendIdentity × RunComponents N) := do
  let id ← string (input.backendId.map Subtype.val) (js "backend.id")
  let version ← string (input.backendVersion.map Subtype.val) (js "backend.version")
  let model ← suppliedIdentity input.model (js "model")
  let controller ← suppliedIdentity input.controller (js "controller")
  let controllerResume ← inspectControllerResumeCapability input.resumeCapability
  let extractor ← suppliedOption input.extractor (js "extractor")
  let agentDelegation ← suppliedOption input.agentDelegation (js "agentDelegation")
  pure (⟨id, version⟩, ⟨model, controller, controllerResume, extractor, agentDelegation⟩)

/-- Validate and snapshot opaque component identities before any run-owned effect. -/
def preflightRunComponents (input : RunComponentPreflightInput N) :
    Check (BackendIdentity × RunComponents N) :=
  (snapshotComponents input).mapError fun cause => .preflight cause.message

-- ============================================================================
-- Prompts
-- ============================================================================

def controllerPromptVersion : JsString := js "3"
def controllerTurnVersion : JsString := js "2"
def extractorPromptVersion : JsString := js "2"

def controllerTurnConfiguration : Json N := .obj [(js "projection", .str (js "frame-state-v1"))]

def extractorPromptConfiguration : Json N :=
  .obj [(js "contract", .str (js "provenance-envelope-v1"))]

def cellSchema : Json N :=
  .obj [(js "type", .str (js "object")),
    (js "required", .arr [.str (js "reasoning"), .str (js "code")]),
    (js "additionalProperties", .bool false),
    (js "properties", .obj [(js "reasoning", .obj [(js "type", .str (js "string"))]),
      (js "code", .obj [(js "type", .str (js "string"))])])]

/-- One declared input with the size and the hash of its source. -/
structure RunManifestInput (N : Type) where
  name : JsString
  label : JsString
  mimeType : JsString
  bytes : N
  sha256 : JsString
  deriving Repr

def RunManifestInput.toJson (input : RunManifestInput N) : Json N :=
  .obj [(js "name", .str input.name), (js "label", .str input.label),
    (js "mimeType", .str input.mimeType), (js "bytes", .num input.bytes),
    (js "sha256", .str input.sha256)]

/-- What the prompts are bound to. -/
def bindingInputs (program : RlmProgram N) (inputs : List (RunManifestInput N))
    (profile limits : Members N) (components : RunComponents N) : Json N :=
  .obj [(js "program", program.toJson), (js "inputs", .arr (inputs.map RunManifestInput.toJson)),
    (js "profile", .obj profile), (js "limits", .obj limits),
    (js "components", components.toJson)]

/-- The lines of `DSL_REFERENCE`. -/
def dslReference : List String := [
  "You drive an RLM by emitting ONE JavaScript cell per turn.",
  "Each cell is ES2023 executed as a fresh async function. The value of the final",
  "expression is echoed back to you as an observation. Lexical declarations do NOT",
  "persist across cells; persist state by assigning to the `workspace` object.",
  "",
  "Available globals:",
  "- objective: string, inputs: \x7b name: ContextRef \x7d, input: ContextRef " ++
    "(single-input runs).",
  "- ContextRef: \x7b id, label, bytes, sha256 \x7d with bounded async " ++
    "read(\x7boffsetBytes,lengthBytes\x7d),",
  "  lines(\x7bstartLine,count\x7d), " ++
    "grep(\x7bpattern,maxMatches,caseSensitive?,syntax?:\"literal\"\x7d),",
  "  chunks(\x7btargetTokens,maxChunks,overlapTokens?,boundary?\x7d). Regex/RE2 syntax " ++
    "is deferred in v1, not emulated.",
  "- workspace: mutable object of JSON or \x7b contextId \x7d / \x7b artifactId \x7d " ++
    "handles; persists across cells.",
  "- budget: read-only remaining calls, attempts, tokens, depth, deadline.",
  "- await llm(\x7b key, prompt, context?, model?, schema? \x7d) -> CallResult (r.ok, " ++
    "r.value | r.error).",
  "- await llm.batch(\x7b key, items:[llmSpec...] \x7d) -> CallResult[] in order.",
  "- await agent(\x7b key, agent, task, context?, model?:\x7btier,thinking?\x7d, " ++
    "schema?, timeoutMs?,",
  "  piContext?:\"fresh\"|\"fork\", turnBudget?, toolBudget? \x7d) -> CallResult. " ++
    "Unknown agents require host approval.",
  "- await recurse(\x7b key, objective, context \x7d) -> CallResult with the child's answer.",
  "- contexts.derive/concat/open, artifacts.write/open/asContext for host-backed data.",
  "- phase(name), emit(\x7bmessage\x7d), console.log(...) for progress (synchronous).",
  "- answer(value): submit the final result. It must contain every declared output.",
  "",
  "Rules:",
  "- Inspect before acting; verify empty or surprising results.",
  "- Use code for structural work (chunking, counting, joining); use llm for semantics.",
  "- Keep large data in workspace/contexts; never paste whole sources back to yourself.",
  "- Reuse stable keys so repeated calls are cached. Call answer() exactly once when done.",
  "- An answer is provisional until its cell returns successfully. A throw discards it; " ++
    "multiple",
  "  submissions in one cell reject the cell instead of selecting one.",
  "- A cell that throws, fails to await bridge work, or writes non-serializable workspace",
  "  values is reported back as a recoverable error; correct course on the next cell."]

def buildBasePrompt : JsString :=
  js "You are the pi-rlm controller. " ++ [0x0A].intercalate (dslReference.map js) ++
    js "\n\nRespond ONLY with JSON: \x7b\"reasoning\": string, \"code\": string\x7d."

/-- The hashes that the prompts are bound to. -/
structure PromptHashes where
  staticRendered : JsString
  bindingInputs : JsString
  responseSchema : JsString
  deriving Repr, DecidableEq

def controllerPrompts (hashes : PromptHashes) (turnConfiguration : Json N) : Members N :=
  [(js "staticVersion", .str controllerPromptVersion),
    (js "staticRenderedSha256", .str hashes.staticRendered),
    (js "turnVersion", .str controllerTurnVersion), (js "turnConfiguration", turnConfiguration),
    (js "bindingInputsSha256", .str hashes.bindingInputs),
    (js "responseSchemaSha256", .str hashes.responseSchema)]

def extractorPrompts (hashes : PromptHashes) (configuration : Json N) (enabled : Bool) :
    Members N :=
  [(js "enabled", .bool enabled), (js "version", .str extractorPromptVersion),
    (js "configuration", configuration), (js "bindingInputsSha256", .str hashes.bindingInputs)]

def promptsJson (hashes : PromptHashes) (turnConfiguration extractorConfiguration : Json N)
    (extractorEnabled : Bool) : Json N :=
  .obj [(js "controller", .obj (controllerPrompts hashes turnConfiguration)),
    (js "extractor", .obj (extractorPrompts hashes extractorConfiguration extractorEnabled))]

variable [JsonNumber N]

def promptBindings (program : RlmProgram N) (inputs : List (RunManifestInput N))
    (profile limits : Members N) (components : RunComponents N) : Check (Json N) := do
  let bound ← plainJson (some (bindingInputs program inputs profile limits components))
    (js "prompt binding inputs")
  let bindingText ← canonicalText bound
  let turnConfiguration ← plainJson (some (controllerTurnConfiguration : Json N))
    (js "controller turn configuration")
  let responseSchema ← canonicalText (cellSchema : Json N)
  let extractorConfiguration ← plainJson (some (extractorPromptConfiguration : Json N))
    (js "extractor prompt configuration")
  pure (promptsJson ⟨sha256 buildBasePrompt, sha256 bindingText, sha256 responseSchema⟩
    turnConfiguration extractorConfiguration components.extractor.isSome)

-- ============================================================================
-- The document
-- ============================================================================

inductive LaunchAuthorizationMode where
  | confirmed | slashCommand | direct
  deriving Repr, DecidableEq

def LaunchAuthorizationMode.text : LaunchAuthorizationMode → JsString
  | .confirmed => js "confirmed"
  | .slashCommand => js "slash_command"
  | .direct => js "direct"

structure RunManifest (N : Type) where
  nonce : JsString
  program : Json N
  inputs : List (RunManifestInput N)
  profile : Json N
  limits : Members N
  backend : BackendIdentity
  components : RunComponents N
  prompts : Json N
  mode : LaunchAuthorizationMode
  deriving Repr

def runtimeJson : Json N :=
  .obj [(js "package", .str (js "pi-rlm")), (js "packageVersion", .str rlmRuntimeVersion),
    (js "dslVersion", .str rlmDslVersion)]

/-- `run.id`. -/
def runId (nonce : JsString) : JsString := js "run_" ++ sha256 nonce

def runJson (nonce : JsString) : Json N :=
  .obj [(js "nonce", .str nonce), (js "id", .str (runId nonce))]

def LaunchAuthorizationMode.toJson (mode : LaunchAuthorizationMode) : Json N :=
  .obj [(js "mode", .str mode.text)]

def RunManifest.members (manifest : RunManifest N) : Members N :=
  [(js "schemaVersion", .num (JsonNumber.ofNat runManifestSchemaVersion)),
    (js "runtime", runtimeJson), (js "run", runJson manifest.nonce),
    (js "program", manifest.program),
    (js "inputs", .arr (manifest.inputs.map RunManifestInput.toJson)),
    (js "profile", manifest.profile), (js "limits", .obj manifest.limits),
    (js "backend", manifest.backend.toJson), (js "components", manifest.components.toJson),
    (js "prompts", manifest.prompts), (js "launchAuthorization", manifest.mode.toJson)]

def RunManifest.toJson (manifest : RunManifest N) : Json N := .obj manifest.members

structure RunManifestDocument (N : Type) where
  manifest : RunManifest N
  manifestHash : JsString
  deriving Repr

def RunManifestDocument.toJson (document : RunManifestDocument N) : Json N :=
  .obj [(js "manifest", document.manifest.toJson),
    (js "manifestHash", .str document.manifestHash)]

def computeManifestHash (manifest : Json N) : Check JsString := do
  let plain ← plainJson (some manifest) (js "run manifest")
  let text ← canonicalText plain
  pure (sha256 text)

/-- A source text.  No string has more octets than a number counts exactly. -/
structure SourceText where
  text : JsString
  bounded : (utf8 text).length ≤ maxSafeInteger

def SourceText.empty : SourceText := ⟨[], Nat.zero_le _⟩

structure BuildRunManifestInput (N : Type) extends RunComponentPreflightInput N where
  program : JsonValue N
  sources : JsString → Option SourceText
  profile : JsonValue N
  limits : JsonValue N
  authorizationMode : Option LaunchAuthorizationMode
  /-- What `createRunNonce` returns. -/
  nonce : JsString
  dslVersion : JsString

/-- The entry of a declared input. -/
def manifestInput (sources : JsString → Option SourceText) (declared : RlmInput) :
    RunManifestInput N :=
  let source := (sources declared.name).getD .empty
  ⟨declared.name, declared.name, js "text/plain", JsonNumber.ofNat (utf8 source.text).length,
    sha256 source.text⟩

def safeNonce (nonce : JsString) : Check JsString :=
  (require (isNonce nonce) (js "run nonce must be 1-128 safe identifier characters")).map
    fun _ => nonce

/-- Build the complete canonical identity before any run-owned effect. -/
def buildRunManifest (input : BuildRunManifestInput N) : Check (RunManifestDocument N) := do
  require (decide (input.dslVersion = rlmDslVersion))
    (js "unsupported DSL version " ++ input.dslVersion)
  let program ← validateProgram (some input.program.1)
  let plainProfile ← plainJson (some input.profile.1) (js "resolved profile")
  let profile ← validateProfileJson (some plainProfile)
  let plainLimits ← plainJson (some input.limits.1) (js "resolved limits")
  let limits ← validateLimits (some plainLimits) profile
  let (backend, components) ← preflightRunComponents input.toRunComponentPreflightInput
  let nonce ← safeNonce input.nonce
  let inputs := program.inputs.map (manifestInput input.sources)
  let manifestProgram ← plainJson (some program.toJson) (js "normalized program")
  let manifestProfile ← plainJson (some (.obj profile)) (js "resolved profile")
  let prompts ← promptBindings program inputs profile limits components
  let manifest : RunManifest N :=
    ⟨nonce, manifestProgram, inputs, manifestProfile, limits, backend, components, prompts,
      input.authorizationMode.getD .direct⟩
  let manifestHash ← computeManifestHash manifest.toJson
  pure ⟨manifest, manifestHash⟩

-- ============================================================================
-- The reader
-- ============================================================================

/-- A `RunManifestCompatibilityError`, unless a check has passed. -/
def requireCompatible (passed : Bool) (message : JsString) : Check Unit :=
  if passed then .ok () else .error (.compatibility message)

def parseRuntime (manifest : Members N) : Check Unit := do
  requireCompatible (decide (numeric (lookupField manifest (js "schemaVersion")) =
    some (runManifestSchemaVersion : ℚ))) (js "unsupported manifest schema version")
  let runtime ← record (lookupField manifest (js "runtime")) (js "manifest.runtime")
    [js "package", js "packageVersion", js "dslVersion"] []
  requireCompatible (isText (js "pi-rlm") (lookupField runtime (js "package")) &&
    isText rlmRuntimeVersion (lookupField runtime (js "packageVersion")) &&
    isText rlmDslVersion (lookupField runtime (js "dslVersion")))
    (js "manifest runtime is incompatible")

omit [JsonNumber N] in
def parseRun (manifest : Members N) : Check Unit := do
  let run ← record (lookupField manifest (js "run")) (js "manifest.run") [js "nonce", js "id"] []
  let nonce ← string (lookupField run (js "nonce")) (js "manifest.run.nonce")
  require (isNonce nonce && isText (runId nonce) (lookupField run (js "id")))
    (js "manifest run identity is invalid")

/-- One entry of `inputs`, next to the input that the program declares in its place. -/
def parseInput (declared : RlmInput) (entry : Json N) (index : Nat) :
    Check (RunManifestInput N) := do
  let path := itemPath (js "manifest.inputs") index
  let value ← record (some entry) path
    [js "name", js "label", js "mimeType", js "bytes", js "sha256"] []
  require (isText declared.name (lookupField value (js "name")) &&
    isText declared.name (lookupField value (js "label")) &&
    isText (js "text/plain") (lookupField value (js "mimeType")))
    (path ++ js " does not match program")
  let name ← string (lookupField value (js "name")) (path ++ js ".name")
  let label ← string (lookupField value (js "label")) (path ++ js ".label")
  let mimeType ← string (lookupField value (js "mimeType")) (path ++ js ".mimeType")
  integer (lookupField value (js "bytes")) (path ++ js ".bytes") 0
  let sha256 ← hash (lookupField value (js "sha256")) (path ++ js ".sha256")
  match lookupField value (js "bytes") with
  | some (.num bytes) => pure ⟨name, label, mimeType, bytes, sha256⟩
  | _ => .error (.type (path ++ js ".bytes must be a safe integer"))

def parseEntries : List RlmInput → List (Json N) → Nat → Check (List (RunManifestInput N))
  | declared :: rest, entry :: entries, index => do
    let input ← parseInput declared entry index
    let inputs ← parseEntries rest entries (index + 1)
    pure (input :: inputs)
  | _, _, _ => .ok []

def parseInputs (program : RlmProgram N) (manifest : Members N) :
    Check (List (RunManifestInput N)) := do
  let entries ← array (lookupField manifest (js "inputs")) (js "manifest.inputs")
  require (decide (entries.length = program.inputs.length))
    (js "manifest inputs do not match program")
  parseEntries program.inputs entries 0

omit [JsonNumber N] in
def parseBackend (manifest : Members N) : Check Unit := do
  let backend ← record (lookupField manifest (js "backend")) (js "manifest.backend")
    [js "id", js "version"] []
  let _ ← string (lookupField backend (js "id")) (js "manifest.backend.id")
  let _ ← string (lookupField backend (js "version")) (js "manifest.backend.version")
  pure ()

omit [JsonNumber N] in
def parseControllerResume (value : Option (Json N)) : Check (Option ResumeStrategy) :=
  match value with
  | some .null => .ok none
  | value => do
    let resume ← record value (js "manifest.components.controllerResume")
      [js "version", js "strategy"] []
    requireCompatible (isText controllerResumeCapabilityVersion
        (lookupField resume (js "version")) &&
      (resumeStrategy (lookupField resume (js "strategy"))).isSome)
      (js "manifest controller resume capability is unsupported")
    pure (resumeStrategy (lookupField resume (js "strategy")))

omit [JsonNumber N] in
/-- A component, or `null` for none. -/
def parseComponent (value : Option (Json N)) (path : JsString) :
    Check (Option (RuntimeComponentIdentity N)) :=
  match value with
  | some .null => .ok none
  | value => (runtimeIdentity value path).map some

omit [JsonNumber N] in
def parseComponents (manifest : Members N) : Check (RunComponents N) := do
  let path := js "manifest.components"
  let raw ← record (lookupField manifest (js "components")) path
    [js "model", js "controller", js "controllerResume", js "extractor", js "agentDelegation"] []
  let controllerResume ← parseControllerResume (lookupField raw (js "controllerResume"))
  let model ← runtimeIdentity (lookupField raw (js "model")) (path ++ js ".model")
  let controller ← runtimeIdentity (lookupField raw (js "controller")) (path ++ js ".controller")
  let extractor ← parseComponent (lookupField raw (js "extractor")) (path ++ js ".extractor")
  let agentDelegation ←
    parseComponent (lookupField raw (js "agentDelegation")) (path ++ js ".agentDelegation")
  pure ⟨model, controller, controllerResume, extractor, agentDelegation⟩

omit [JsonNumber N] in
def parseControllerPrompts (prompts : Members N) : Check Unit := do
  let path := js "manifest.prompts.controller"
  let controller ← record (lookupField prompts (js "controller")) path
    [js "staticVersion", js "staticRenderedSha256", js "turnVersion", js "turnConfiguration",
      js "bindingInputsSha256", js "responseSchemaSha256"] []
  requireCompatible (isText controllerPromptVersion (lookupField controller (js "staticVersion")) &&
    isText controllerTurnVersion (lookupField controller (js "turnVersion")))
    (js "manifest controller prompt version is unsupported")
  let _ ← plainJson (lookupField controller (js "turnConfiguration"))
    (path ++ js ".turnConfiguration")
  each (fun field => (hash (lookupField controller field) (path ++ js "." ++ field)).map fun _ => ())
    [js "staticRenderedSha256", js "bindingInputsSha256", js "responseSchemaSha256"]

omit [JsonNumber N] in
def parseExtractorPrompts (prompts : Members N) : Check Unit := do
  let path := js "manifest.prompts.extractor"
  let extractor ← record (lookupField prompts (js "extractor")) path
    [js "enabled", js "version", js "configuration", js "bindingInputsSha256"] []
  require (isBoolean (lookupField extractor (js "enabled"))) (path ++ js ".enabled must be boolean")
  requireCompatible (isText extractorPromptVersion (lookupField extractor (js "version")))
    (js "manifest extractor prompt version is unsupported")
  let _ ← plainJson (lookupField extractor (js "configuration")) (path ++ js ".configuration")
  let _ ← hash (lookupField extractor (js "bindingInputsSha256"))
    (path ++ js ".bindingInputsSha256")
  pure ()
where
  isBoolean : Option (Json N) → Bool
    | some (.bool _) => true
    | _ => false

omit [JsonNumber N] in
/-- The shape of the prompt bindings; what they bind is checked afterwards. -/
def parsePrompts (manifest : Members N) : Check (Members N) := do
  let prompts ← record (lookupField manifest (js "prompts")) (js "manifest.prompts")
    [js "controller", js "extractor"] []
  parseControllerPrompts prompts
  parseExtractorPrompts prompts
  pure prompts

/-- The bindings are those that the other sections come to. -/
def checkPrompts (prompts : Members N) (expected : Json N) : Check Unit := do
  let plain ← plainJson (some (.obj prompts)) (js "manifest prompts")
  let text ← canonicalText plain
  let plainExpected ← plainJson (some expected) (js "expected prompts")
  let expectedText ← canonicalText plainExpected
  require (decide (text = expectedText))
    (js "manifest prompt metadata is not derivable from the normalized manifest identity")

omit [JsonNumber N] in
def parseAuthorization (manifest : Members N) : Check Unit := do
  let authorization ← record (lookupField manifest (js "launchAuthorization"))
    (js "manifest.launchAuthorization") [js "mode"] []
  require ([LaunchAuthorizationMode.confirmed, .slashCommand, .direct].any fun mode =>
    isText mode.text (lookupField authorization (js "mode")))
    (js "manifest launch authorization mode is invalid")

def manifestFields : List JsString :=
  ["schemaVersion", "runtime", "run", "program", "inputs", "profile", "limits", "backend",
    "components", "prompts", "launchAuthorization"].map js

/-- What `parseManifestDocument` checks of `document.manifest`, once its hash is right. -/
def parseManifest (manifest : Members N) : Check Unit := do
  parseRuntime manifest
  parseRun manifest
  let program ← validateProgram (lookupField manifest (js "program"))
  let inputs ← parseInputs program manifest
  let profile ← validateProfileJson (lookupField manifest (js "profile"))
  let limits ← validateLimits (lookupField manifest (js "limits")) profile
  parseBackend manifest
  let components ← parseComponents manifest
  let prompts ← parsePrompts manifest
  let expected ← promptBindings program inputs profile limits components
  checkPrompts prompts expected
  parseAuthorization manifest

/-- Strict pure parser for a manifest snapshot. -/
def parseManifestDocument (input : Json N) : Check (Json N) := do
  let snapshot ← plainJson (some input) (js "run manifest document")
  let document ← record (some snapshot) (js "manifest document")
    [js "manifest", js "manifestHash"] []
  let manifestHash ← hash (lookupField document (js "manifestHash")) (js "manifestHash")
  let manifest ← record (lookupField document (js "manifest")) (js "manifest") manifestFields []
  let actualHash ← computeManifestHash (.obj manifest)
  require (decide (actualHash = manifestHash)) (js "manifest hash is stale or invalid")
  parseManifest manifest
  pure snapshot

end PiRlm.Runtime.Manifest

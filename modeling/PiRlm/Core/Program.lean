/-
  PiRlm.Core.Program

  The declarative program of a launcher and its normalization: `core/program.ts`.

  Each function of the source appends to a list of errors that it shares with the others;
  here it returns its own, and `normalizeProgram` joins them in the same order.
-/
import PiRlm.Core.Schema
import PiRlm.Lib.Whitespace

namespace PiRlm.Core

open PiRlm.Lib PiRlm.Lib.Json PiRlm.Core.Schema

structure RlmInput where
  name : JsString
  adapter : JsString
  description : JsString
  constraints : Option JsString
  deriving Repr, DecidableEq

structure RlmOutputField (N : Type) where
  name : JsString
  schema : Json N
  description : Option JsString
  deriving Repr

structure RlmProgram (N : Type) where
  objective : JsString
  inputs : List RlmInput
  outputs : List (RlmOutputField N)
  profile : JsString
  metadata : Option (Json N)
  deriving Repr

structure ProgramError where
  path : JsString
  message : JsString
  deriving Repr, DecidableEq

/-- Reserved guest globals an input name must not shadow. -/
def reservedNames : List JsString :=
  [js "objective", js "input", js "inputs", js "variables", js "budget", js "workspace",
    js "console", js "llm", js "agent", js "recurse", js "phase", js "checkpoint", js "emit",
    js "answer", js "contexts", js "artifacts", js "tools"]

def unsafeNames : List JsString := [js "__proto__", js "constructor", js "prototype"]

-- ============================================================================
-- The parts
-- ============================================================================

/-- What a part of the normalization returns, and the errors it reports. -/
structure Checked (α : Type) where
  value : α
  errors : List ProgramError
  deriving Repr, DecidableEq

variable {N : Type}

/-- The string of a member, trimmed. -/
def reqString (value : Option (Json N)) (path : JsString) (allowEmpty : Bool) :
    Checked JsString :=
  match value with
  | some (.str s) =>
    ⟨trimWhiteSpace s, if !allowEmpty && (trimWhiteSpace s).isEmpty then
      [⟨path, js "must not be empty"⟩] else []⟩
  | _ => ⟨[], [⟨path, js "must be a string"⟩]⟩

def validateName (name path : JsString) (allowReserved : Bool) : List ProgramError :=
  if !isIdentifier name then [⟨path, js "\"" ++ name ++ js "\" is not a valid identifier"⟩]
  else if name ∈ unsafeNames then [⟨path, js "\"" ++ name ++ js "\" is not a safe identifier"⟩]
  else if !allowReserved && decide (name ∈ reservedNames) then
    [⟨path, js "\"" ++ name ++ js "\" is a reserved name"⟩]
  else []

/-- The name of an input or an output: only a nonempty one is validated. -/
def reqName (value : Option (Json N)) (path : JsString) (allowReserved : Bool) :
    Checked JsString :=
  let name := reqString value path false
  ⟨name.value, name.errors ++
    if name.value.isEmpty then [] else validateName name.value path allowReserved⟩

/-- An optional text, which is dropped when it is not a string. -/
def optionalText : Option (Json N) → Option JsString
  | some (.str s) => some (trimWhiteSpace s)
  | _ => none

def normalizeInput (raw : Json N) (index : Nat) : Checked RlmInput :=
  let path := itemPath (js "inputs") index
  match raw with
  | .obj fields =>
    let name := reqName (lookupField fields (js "name")) (path ++ js ".name") false
    let adapter := reqString (lookupField fields (js "adapter")) (path ++ js ".adapter") false
    let description :=
      reqString (lookupField fields (js "description")) (path ++ js ".description") true
    ⟨⟨name.value, adapter.value, description.value,
        optionalText (lookupField fields (js "constraints"))⟩,
      name.errors ++ adapter.errors ++ description.errors⟩
  | _ => ⟨⟨[], [], [], none⟩, [⟨path, js "must be an object"⟩]⟩

variable [JsonNumber N]

/-- `normalizeJsonSchema` of a member, which may be missing. -/
def normalizeSchema : Option (Json N) → Except (List SchemaError) (Json N)
  | none => .error [⟨js "$", js "undefined is not JSON"⟩]
  | some schema => normalizeJsonSchema schema

/-- The path of an error of a schema, below the member that holds the schema. -/
def schemaErrorPath (path at' : JsString) : JsString :=
  path ++ js ".schema" ++ if (js "$schema").isPrefixOf at' then at'.drop 7 else at'.drop 1

def normalizeOutput (raw : Json N) (index : Nat) : Checked (RlmOutputField N) :=
  let path := itemPath (js "outputs") index
  match raw with
  | .obj fields =>
    let name := reqName (lookupField fields (js "name")) (path ++ js ".name") true
    let description := optionalText (lookupField fields (js "description"))
    match normalizeSchema (lookupField fields (js "schema")) with
    | .error errors => ⟨⟨name.value, .obj [], description⟩, name.errors ++
        errors.map fun error => ⟨schemaErrorPath path error.path, error.message⟩⟩
    | .ok schema => ⟨⟨name.value, schema, description⟩, name.errors⟩
  | _ => ⟨⟨[], .obj [], none⟩, [⟨path, js "must be an object"⟩]⟩

omit [JsonNumber N] in
/-- The items of an array, each with its index. -/
def normalizeItems {α : Type} (normalize : Json N → Nat → Checked α) : List (Json N) → Nat →
    Checked (List α)
  | [], _ => ⟨[], []⟩
  | raw :: rest, index =>
    let item := normalize raw index
    let items := normalizeItems normalize rest (index + 1)
    ⟨item.value :: items.value, item.errors ++ items.errors⟩

omit [JsonNumber N] in
/-- `inputs` or `outputs`. -/
def normalizeArray {α : Type} (normalize : Json N → Nat → Checked α) (value : Option (Json N))
    (path : JsString) : Checked (List α) :=
  match value with
  | some (.arr items) => normalizeItems normalize items 0
  | _ => ⟨[], [⟨path, js "must be an array"⟩]⟩

/-- The errors for names that have been seen before; an empty name is reported elsewhere. -/
def duplicateErrors (path kind : JsString) : List JsString → List JsString → List ProgramError
  | [], _ => []
  | name :: rest, seen =>
    (if !name.isEmpty && decide (name ∈ seen) then
      [⟨path, js "duplicate " ++ kind ++ js " \"" ++ name ++ js "\""⟩] else []) ++
      duplicateErrors path kind rest (name :: seen)

omit [JsonNumber N] in
def normalizeMetadata : Option (Json N) → Checked (Option (Json N))
  | none => ⟨none, []⟩
  | some metadata =>
    match parseJsonValue metadata with
    | .error (_, reason) => ⟨none, [⟨js "metadata", js "invalid metadata: " ++ reason⟩]⟩
    | .ok (.obj members) => ⟨some (.obj members), []⟩
    | .ok _ => ⟨none, [⟨js "metadata", js "metadata must be a JSON object"⟩]⟩

-- ============================================================================
-- Programs
-- ============================================================================

omit [JsonNumber N] in
/-- `input["profile"] ?? "default"`. -/
def profileMember : Option (Json N) → Option (Json N)
  | none | some .null => some (.str (js "default"))
  | some profile => some profile

omit [JsonNumber N] in
def outputsRequired : Option (Json N) → List ProgramError
  | some (.arr []) => [⟨js "outputs", js "at least one output is required"⟩]
  | _ => []

/-- The program of an object, and every error at once. -/
def normalizeMembers (fields : List (JsString × Json N)) : Checked (RlmProgram N) :=
  let objective := reqString (lookupField fields (js "objective")) (js "objective") false
  let profile := reqString (profileMember (lookupField fields (js "profile"))) (js "profile") false
  let inputs := normalizeArray normalizeInput (lookupField fields (js "inputs")) (js "inputs")
  let outputs := normalizeArray normalizeOutput (lookupField fields (js "outputs")) (js "outputs")
  let metadata := normalizeMetadata (lookupField fields (js "metadata"))
  ⟨⟨objective.value, inputs.value, outputs.value, profile.value, metadata.value⟩,
    objective.errors ++ profile.errors ++ inputs.errors ++
      duplicateErrors (js "inputs") (js "input") (inputs.value.map RlmInput.name) [] ++
      outputs.errors ++ outputsRequired (lookupField fields (js "outputs")) ++
      duplicateErrors (js "outputs") (js "output") (outputs.value.map RlmOutputField.name) [] ++
      metadata.errors⟩

/-- Validate and normalize an untrusted program payload. -/
def normalizeProgram : Json N → Except (List ProgramError) (RlmProgram N)
  | .obj fields =>
    let checked := normalizeMembers fields
    if checked.errors ≠ [] then .error checked.errors else .ok checked.value
  | _ => .error [⟨js "$", js "program must be an object"⟩]

-- ============================================================================
-- A program as a value
-- ============================================================================

omit [JsonNumber N]

/-- A member that is there only when it has a value. -/
def optionalMember {α : Type} (key : JsString) (json : α → Json N) :
    Option α → List (JsString × Json N)
  | none => []
  | some value => [(key, json value)]

def RlmInput.toJson (input : RlmInput) : Json N :=
  .obj ([(js "name", .str input.name), (js "adapter", .str input.adapter),
    (js "description", .str input.description)] ++
    optionalMember (js "constraints") .str input.constraints)

def RlmOutputField.toJson (output : RlmOutputField N) : Json N :=
  .obj ([(js "name", .str output.name), (js "schema", output.schema)] ++
    optionalMember (js "description") .str output.description)

def RlmProgram.toJson (program : RlmProgram N) : Json N :=
  .obj ([(js "objective", .str program.objective),
    (js "inputs", .arr (program.inputs.map RlmInput.toJson)),
    (js "outputs", .arr (program.outputs.map RlmOutputField.toJson)),
    (js "profile", .str program.profile)] ++
    optionalMember (js "metadata") id program.metadata)

end PiRlm.Core

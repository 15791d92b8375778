/-
  PiRlm.Core.Schema

  The JSON Schema validator of `core/schema.ts`.

  The walk of the normalization and the validation recurse by the depth of the schema and of
  the value; each keyword has a function of its own, which takes the recursive call.
-/
import PiRlm.Core.Json
import PiRlm.Lib.Measured

namespace PiRlm.Core.Schema

open PiRlm.Lib PiRlm.Lib.Json

variable {N : Type} [JsonNumber N]

def supportedSchemaTypes : List JsString :=
  [js "array", js "boolean", js "integer", js "null", js "number", js "object", js "string"]

def schemaKeywords : List JsString :=
  [js "type", js "required", js "properties", js "additionalProperties", js "items", js "enum"]

structure SchemaError where
  path : JsString
  message : JsString
  deriving Repr, DecidableEq

-- ============================================================================
-- Normalization
-- ============================================================================

/-- What a part of the walk assigns to the output, and its errors. -/
structure Walked (N : Type) where
  fields : List (JsString × Json N)
  errors : List SchemaError

namespace Walked

def nothing : Walked N := ⟨[], []⟩

def assigned (key : JsString) (value : Json N) : Walked N := ⟨[(key, value)], []⟩

def failed (path message : JsString) : Walked N := ⟨[], [⟨path, message⟩]⟩

end Walked

def walkKeywords (fields : List (JsString × Json N)) (path : JsString) : Walked N :=
  ⟨[], (fields.filter fun f => decide (f.1 ∉ schemaKeywords)).map fun f =>
    ⟨childPath path f.1, js "unsupported JSON Schema keyword \"" ++ f.1 ++ js "\""⟩⟩

def walkType (fields : List (JsString × Json N)) (path : JsString) : Walked N :=
  match lookupField fields (js "type") with
  | none => .nothing
  | some (.str type) =>
    if type ∈ supportedSchemaTypes then .assigned (js "type") (.str type)
    else .failed (path ++ js ".type") (js "unsupported JSON Schema type \"" ++ type ++ js "\"")
  | some _ =>
    .failed (path ++ js ".type")
      (js "type must be one supported type name; type arrays are not supported")

/-- The errors of the entries of `required`, with the names seen before. -/
def requiredErrors (path : JsString) : List (Json N) → Nat → List JsString → List SchemaError
  | [], _, _ => []
  | .str name :: rest, index, seen =>
    if name ∈ seen then
      ⟨itemPath path index, js "duplicate required property \"" ++ name ++ js "\""⟩ ::
        requiredErrors path rest (index + 1) seen
    else requiredErrors path rest (index + 1) (name :: seen)
  | _ :: rest, index, seen =>
    ⟨itemPath path index, js "required entries must be strings"⟩ ::
      requiredErrors path rest (index + 1) seen

def walkRequired (fields : List (JsString × Json N)) (path : JsString) : Walked N :=
  match lookupField fields (js "required") with
  | none => .nothing
  | some (.arr names) =>
    let errors := requiredErrors (path ++ js ".required") names 0 []
    ⟨if errors.isEmpty then [(js "required", .arr names)] else [], errors⟩
  | some _ => .failed (path ++ js ".required") (js "required must be an array of unique strings")

/-- One of the property schemas, if it is one. -/
def walkProperty (walk : Json N → JsString → Walked N) (path : JsString) :
    Json N → Option (Json N) × List SchemaError
  | .obj schema =>
    let walked := walk (.obj schema) path
    (some (.obj walked.fields), walked.errors)
  | _ => (none, [⟨path, js "property schema must be a JSON object"⟩])

def walkProperties (walk : Json N → JsString → Walked N) (fields : List (JsString × Json N))
    (path : JsString) : Walked N :=
  match lookupField fields (js "properties") with
  | none => .nothing
  | some (.obj properties) =>
    let walked := properties.map fun f =>
      (f.1, walkProperty walk (childPath (path ++ js ".properties") f.1) f.2)
    ⟨[(js "properties", .obj (walked.filterMap fun w => w.2.1.map fun schema => (w.1, schema)))],
      walked.flatMap fun w => w.2.2⟩
  | some _ => .failed (path ++ js ".properties") (js "properties must be an object of schemas")

def walkAdditional (walk : Json N → JsString → Walked N) (fields : List (JsString × Json N))
    (path : JsString) : Walked N :=
  match lookupField fields (js "additionalProperties") with
  | none => .nothing
  | some (.bool additional) => .assigned (js "additionalProperties") (.bool additional)
  | some (.obj additional) =>
    let walked := walk (.obj additional) (path ++ js ".additionalProperties")
    ⟨[(js "additionalProperties", .obj walked.fields)], walked.errors⟩
  | some _ =>
    .failed (path ++ js ".additionalProperties")
      (js "additionalProperties must be a boolean or schema object")

def walkItems (walk : Json N → JsString → Walked N) (fields : List (JsString × Json N))
    (path : JsString) : Walked N :=
  match lookupField fields (js "items") with
  | none => .nothing
  | some (.obj items) =>
    let walked := walk (.obj items) (path ++ js ".items")
    ⟨[(js "items", .obj walked.fields)], walked.errors⟩
  | some _ =>
    .failed (path ++ js ".items")
      (js "items must be one schema object; tuple forms are not supported")

/-- The errors of the values of `enum`, with the identities seen before; a value of a parsed
    schema always has one. -/
def enumErrors (path : JsString) :
    List (Json N) → Nat → List (Except JsString JsString) → List SchemaError
  | [], _, _ => []
  | value :: rest, index, identities =>
    let identity := canonicalStringify value
    (if identity ∈ identities then
      [⟨itemPath path index, js "enum values must be canonically unique"⟩] else []) ++
      enumErrors path rest (index + 1) (identity :: identities)

def walkEnum (fields : List (JsString × Json N)) (path : JsString) : Walked N :=
  match lookupField fields (js "enum") with
  | none => .nothing
  | some (.arr (value :: rest)) =>
    let errors := enumErrors (path ++ js ".enum") (value :: rest) 0 []
    ⟨if errors.isEmpty then [(js "enum", .arr (value :: rest))] else [], errors⟩
  | some _ => .failed (path ++ js ".enum") (js "enum must be a non-empty array")

/-- The body of `walk`. -/
def walkWith (walk : Json N → JsString → Walked N) : Json N → JsString → Walked N
  | .obj fields, path =>
    let parts := [walkKeywords fields path, walkType fields path, walkRequired fields path,
      walkProperties walk fields path, walkAdditional walk fields path, walkItems walk fields path,
      walkEnum fields path]
    ⟨parts.flatMap Walked.fields, parts.flatMap Walked.errors⟩
  | _, _ => .nothing

/-- `walk`, which is only called on objects. -/
def walk : Json N → JsString → Walked N :=
  measured walkWith (fun _ _ => .nothing) Json.depth

/-- Normalize an untrusted schema and reject everything outside the documented subset. -/
def normalizeJsonSchema (input : Json N) : Except (List SchemaError) (Json N) :=
  match parseJsonValue input with
  | .error (path, reason) => .error [⟨path, reason⟩]
  | .ok (.obj fields) =>
    let walked := walk (.obj fields) (js "$schema")
    if walked.errors ≠ [] then .error walked.errors else .ok (.obj walked.fields)
  | .ok _ => .error [⟨js "$", js "schema must be a JSON object"⟩]

-- ============================================================================
-- Validation
-- ============================================================================

def typeOf : Json N → JsString
  | .null => js "null"
  | .bool _ => js "boolean"
  | .num _ => js "number"
  | .str _ => js "string"
  | .arr _ => js "array"
  | .obj _ => js "object"

/-- `Number.isInteger(value)`. -/
def isInteger (n : N) : Bool := (JsonNumber.value n).isInt

def matchesType (value : Json N) (type : JsString) : Bool :=
  if type = js "integer" then match value with | .num n => isInteger n | _ => false
  else if type = js "number" then match value with | .num _ => true | _ => false
  else if type = js "string" then match value with | .str _ => true | _ => false
  else if type = js "boolean" then match value with | .bool _ => true | _ => false
  else if type = js "object" then match value with | .obj _ => true | _ => false
  else if type = js "array" then match value with | .arr _ => true | _ => false
  else if type = js "null" then match value with | .null => true | _ => false
  else false

def hasOwn (object : List (JsString × Json N)) (key : JsString) : Bool :=
  (lookupField object key).isSome

def enumViolations (value : Json N) (schema : List (JsString × Json N)) (path : JsString) :
    List JsString :=
  match lookupField schema (js "enum") with
  | some (.arr values) =>
    let identity := canonicalStringify value
    if values.any fun candidate => decide (canonicalStringify candidate = identity) then []
    else [path ++ js ": value not in enum"]
  | _ => []

def requiredViolations (value schema : List (JsString × Json N)) (path : JsString) :
    List JsString :=
  match lookupField schema (js "required") with
  | some (.arr required) => required.flatMap fun
    | .str key => if hasOwn value key then [] else [childPath path key ++ js ": required"]
    | _ => []
  | _ => []

/-- The declared properties of a schema. -/
def declaredProperties (schema : List (JsString × Json N)) : List (JsString × Json N) :=
  match lookupField schema (js "properties") with
  | some (.obj declared) => declared
  | _ => []

def propertyViolations (validate : Json N → Json N → JsString → List JsString)
    (value schema : List (JsString × Json N)) (path : JsString) : List JsString :=
  (declaredProperties schema).flatMap fun f =>
    match lookupField value f.1 with
    | some v => validate v f.2 (childPath path f.1)
    | none => []

def additionalViolations (validate : Json N → Json N → JsString → List JsString)
    (value schema : List (JsString × Json N)) (path : JsString) : List JsString :=
  match lookupField schema (js "additionalProperties") with
  | some (.bool false) => value.flatMap fun f =>
    if hasOwn (declaredProperties schema) f.1 then []
    else [childPath path f.1 ++ js ": additional property not allowed"]
  | some (.obj additional) => value.flatMap fun f =>
    if hasOwn (declaredProperties schema) f.1 then []
    else validate f.2 (.obj additional) (childPath path f.1)
  | _ => []

/-- The violations of the items, numbered from an index. -/
def itemViolations (validate : Json N → Json N → JsString → List JsString) (schema : Json N)
    (path : JsString) : List (Json N) → Nat → List JsString
  | [], _ => []
  | item :: rest, i =>
    validate item schema (itemPath path i) ++ itemViolations validate schema path rest (i + 1)

/-- The checks of an object or an array. -/
def memberViolations (validate : Json N → Json N → JsString → List JsString)
    (value : Json N) (schema : List (JsString × Json N)) (path : JsString) : List JsString :=
  match value with
  | .obj value =>
    requiredViolations value schema path ++ propertyViolations validate value schema path ++
      additionalViolations validate value schema path
  | .arr value =>
    match lookupField schema (js "items") with
    | some (.obj items) => itemViolations validate (.obj items) path value 0
    | _ => []
  | _ => []

/-- The body of `validateNormalized`. -/
def validateWith (validate : Json N → Json N → JsString → List JsString) (value : Json N) :
    Json N → JsString → List JsString
  | .obj schema, path =>
    let rest := enumViolations value schema path ++ memberViolations validate value schema path
    match lookupField schema (js "type") with
    | some (.str type) =>
      if !matchesType value type then
        [path ++ js ": expected " ++ type ++ js " but got " ++ typeOf value]
      else rest
    | _ => rest
  | _, _ => []

def validateNormalized : Json N → Json N → JsString → List JsString :=
  measured validateWith (fun _ _ _ => []) Json.depth

/-- Validate a JSON value. Invalid or unsupported schemas fail closed. -/
def validateAgainstSchema (value schema : Json N) (path : JsString) : List JsString :=
  match parseJsonValue value with
  | .error (at', reason) =>
    [path ++ js ": invalid JSON value (" ++ reason ++ js " at " ++ at' ++ js ")"]
  | .ok value =>
    match normalizeJsonSchema schema with
    | .error errors => errors.map fun error =>
      path ++ js ": invalid JSON schema at " ++ error.path ++ js ": " ++ error.message
    | .ok schema => validateNormalized value schema path

end PiRlm.Core.Schema

/-
  PiRlm.Core.ProgramSound

  A normalized program is its own normal form, and the normalization does not see the order
  of the members of what it is given.

  Each part is shown to leave its own output alone and to take a value and its canonical form
  to the same result, up to the canonical forms of the schemas and of the metadata.
-/
import PiRlm.Core.Program
import PiRlm.Core.SchemaSound

namespace PiRlm.Core

open PiRlm.Lib PiRlm.Lib.Json PiRlm.Core.Schema

variable {N : Type}

-- ============================================================================
-- Strings
-- ============================================================================

/-- A check that only asks for scalars does not see whether a value is canonical. -/
theorem reqString_canonical (value : Option (Json N)) (path : JsString) (allowEmpty : Bool) :
    reqString (value.map canonical) path allowEmpty = reqString value path allowEmpty := by
  cases value with
  | none => rfl
  | some v =>
    cases v with
    | str s => rfl
    | null | bool | num | arr | obj => rfl

theorem reqName_canonical (value : Option (Json N)) (path : JsString) (allowReserved : Bool) :
    reqName (value.map canonical) path allowReserved = reqName value path allowReserved := by
  rw [reqName, reqName, reqString_canonical]

theorem optionalText_canonical (value : Option (Json N)) :
    optionalText (value.map canonical) = optionalText value := by
  cases value with
  | none => rfl
  | some v =>
    cases v with
    | str s => rfl
    | null | bool | num | arr | obj => rfl

theorem reqString_eq_ok {value : Option (Json N)} {path : JsString} {allowEmpty : Bool}
    (h : (reqString value path allowEmpty).errors = []) :
    ∃ s, value = some (.str s) ∧ (reqString value path allowEmpty).value = trimWhiteSpace s ∧
      (allowEmpty = false → trimWhiteSpace s ≠ []) := by
  match value, h with
  | some (.str s), h =>
    refine ⟨s, rfl, rfl, ?_⟩
    rintro rfl hempty
    simp [reqString, hempty] at h

/-- A string that has been accepted is accepted as it is. -/
theorem reqString_value {value : Option (Json N)} {path : JsString} {allowEmpty : Bool}
    (h : (reqString value path allowEmpty).errors = []) (path' : JsString) :
    reqString (some (.str (reqString value path allowEmpty).value) : Option (Json N)) path'
      allowEmpty = ⟨(reqString value path allowEmpty).value, []⟩ := by
  obtain ⟨s, -, hvalue, hne⟩ := reqString_eq_ok h
  rw [hvalue, reqString, trimWhiteSpace_trimWhiteSpace]
  congr 1
  apply if_neg
  cases allowEmpty with
  | true => exact nofun
  | false => simpa using hne rfl

theorem validateName_path {name path : JsString} {allowReserved : Bool}
    (h : validateName name path allowReserved = []) (path' : JsString) :
    validateName name path' allowReserved = [] := by
  unfold validateName at h ⊢
  split_ifs at h ⊢
  rfl

/-- The path shows in the errors only. -/
theorem reqName_path {value : Option (Json N)} {path : JsString} {allowReserved : Bool}
    (h : (reqName value path allowReserved).errors = []) (path' : JsString) :
    reqName value path' allowReserved = ⟨(reqName value path allowReserved).value, []⟩ := by
  obtain ⟨hstring, hname⟩ := List.append_eq_nil_iff.mp h
  obtain ⟨s, rfl, hvalue, hne⟩ := reqString_eq_ok hstring
  have hsame : reqString (some (.str s) : Option (Json N)) path' false =
      ⟨(reqString (some (.str s) : Option (Json N)) path false).value, []⟩ := by
    rw [hvalue, reqString]
    congr 1
    apply if_neg
    simpa using hne rfl
  rw [reqName, hsame]
  show _ = (⟨(reqString (some (.str s) : Option (Json N)) path false).value, []⟩ : Checked JsString)
  congr 1
  rw [List.nil_append]
  split_ifs at hname ⊢
  · rfl
  · exact validateName_path hname path'

theorem reqName_value {value : Option (Json N)} {path : JsString} {allowReserved : Bool}
    (h : (reqName value path allowReserved).errors = []) (path' : JsString) :
    reqName (some (.str (reqName value path allowReserved).value) : Option (Json N)) path'
      allowReserved = ⟨(reqName value path allowReserved).value, []⟩ := by
  obtain ⟨hstring, hname⟩ := List.append_eq_nil_iff.mp h
  have hvalue := reqString_value hstring path
  have hagain : (reqName (some (.str (reqString value path false).value) : Option (Json N)) path
      allowReserved).errors = [] := by
    rw [reqName, hvalue]
    exact hname
  rw [show (reqName value path allowReserved).value = (reqString value path false).value from rfl,
    reqName_path hagain, reqName, hvalue]

/-- An accepted name is an identifier that shadows nothing. -/
theorem reqName_eq_ok {value : Option (Json N)} {path : JsString} {allowReserved : Bool}
    (h : (reqName value path allowReserved).errors = []) :
    isIdentifier (reqName value path allowReserved).value = true := by
  obtain ⟨hstring, hname⟩ := List.append_eq_nil_iff.mp h
  obtain ⟨s, -, hvalue, hne⟩ := reqString_eq_ok hstring
  have hnonempty : (reqString value path false).value.isEmpty = false := by
    rw [hvalue]
    simpa using hne rfl
  rw [hnonempty, if_neg (by simp), validateName] at hname
  by_contra hnot
  rw [if_pos (by simpa [reqName] using hnot)] at hname
  exact absurd hname (List.cons_ne_nil _ _)

theorem optionalText_value (value : Option (Json N)) :
    optionalText ((optionalText value).map (.str : JsString → Json N)) = optionalText value := by
  match value with
  | none => rfl
  | some (.str s) => exact congrArg some (trimWhiteSpace_trimWhiteSpace s)
  | some .null | some (.bool _) | some (.num _) | some (.arr _) | some (.obj _) => rfl

/-- An optional member is found under its key. -/
theorem lookupField_optionalMember {α : Type} (key : JsString) (json : α → Json N)
    (value : Option α) : lookupField (optionalMember key json value) key = value.map json := by
  cases value with
  | none => rfl
  | some v => simp [optionalMember, lookupField]

-- ============================================================================
-- Inputs
-- ============================================================================

theorem normalizeInput_canonical {raw : Json N} (h : raw.Owned) (index : Nat) :
    normalizeInput (canonical raw) index = normalizeInput raw index := by
  cases raw with
  | obj fields =>
    have hlookup := lookupField_canonicalMembers (owned_obj.mp h).1.1
    rw [canonical_obj_members]
    simp only [normalizeInput, hlookup, reqName_canonical, reqString_canonical,
      optionalText_canonical]
  | arr items => rw [canonical_arr]; rfl
  | null | bool | num | str => rfl

theorem normalizeInput_name {raw : Json N} {index : Nat}
    (h : (normalizeInput raw index).errors = []) :
    isIdentifier (normalizeInput raw index).value.name = true := by
  match raw, h with
  | .obj fields, h =>
    obtain ⟨hrest, -⟩ := List.append_eq_nil_iff.mp h
    obtain ⟨hname, -⟩ := List.append_eq_nil_iff.mp hrest
    exact reqName_eq_ok hname

theorem lookupField_input (input : RlmInput) :
    ∃ fields, (input.toJson : Json N) = .obj fields ∧
      lookupField fields (js "name") = some (.str input.name) ∧
      lookupField fields (js "adapter") = some (.str input.adapter) ∧
      lookupField fields (js "description") = some (.str input.description) ∧
      lookupField fields (js "constraints") = input.constraints.map .str := by
  refine ⟨_, rfl, rfl, rfl, rfl, ?_⟩
  rw [lookupField_append, lookupField_optionalMember]
  rfl

/-- A normalized input is normalized already. -/
theorem normalizeInput_toJson {raw : Json N} {index : Nat}
    (h : (normalizeInput raw index).errors = []) (index' : Nat) :
    normalizeInput ((normalizeInput raw index).value.toJson : Json N) index' =
      ⟨(normalizeInput raw index).value, []⟩ := by
  match raw, h with
  | .obj fields, h =>
    obtain ⟨hrest, hdescription⟩ := List.append_eq_nil_iff.mp h
    obtain ⟨hname, hadapter⟩ := List.append_eq_nil_iff.mp hrest
    obtain ⟨members, hmembers, hlname, hladapter, hldescription, hlconstraints⟩ :=
      lookupField_input (N := N) (normalizeInput (.obj fields) index).value
    rw [hmembers, normalizeInput]
    rw [hlname, hladapter, hldescription, hlconstraints]
    simp only [normalizeInput]
    rw [reqName_value hname, reqString_value hadapter, reqString_value hdescription,
      optionalText_value]
    rfl

theorem normalizeItems_toJson {α : Type} {normalize : Json N → Nat → Checked α}
    {toJson : α → Json N} {items : List (Json N)} {index : Nat}
    (hitem : ∀ raw ∈ items, ∀ i, (normalize raw i).errors = [] → ∀ j,
      normalize (toJson (normalize raw i).value) j = ⟨(normalize raw i).value, []⟩)
    (h : (normalizeItems normalize items index).errors = []) (index' : Nat) :
    normalizeItems normalize ((normalizeItems normalize items index).value.map toJson) index' =
      ⟨(normalizeItems normalize items index).value, []⟩ := by
  induction items generalizing index index' with
  | nil => rfl
  | cons raw rest ih =>
    obtain ⟨hhead, htail⟩ := List.append_eq_nil_iff.mp h
    have hrest := ih (fun w hw => hitem w (List.mem_cons_of_mem _ hw)) htail (index' + 1)
    have hfirst := hitem raw List.mem_cons_self index hhead index'
    simp only [normalizeItems, List.map_cons, hfirst, hrest, List.append_nil]

/-- What the items of an array come to, when those of another array come to the like. -/
theorem normalizeItems_related {α : Type} {normalize : Json N → Nat → Checked α}
    {R : α → α → Prop} {f : Json N → Json N} {items : List (Json N)} {index : Nat}
    (hitem : ∀ raw ∈ items, ∀ i, (normalize raw i).errors = [] →
      (normalize (f raw) i).errors = [] ∧
        R (normalize (f raw) i).value (normalize raw i).value)
    (h : (normalizeItems normalize items index).errors = []) :
    (normalizeItems normalize (items.map f) index).errors = [] ∧
      List.Forall₂ R (normalizeItems normalize (items.map f) index).value
        (normalizeItems normalize items index).value := by
  induction items generalizing index with
  | nil => exact ⟨rfl, .nil⟩
  | cons raw rest ih =>
    obtain ⟨hhead, htail⟩ := List.append_eq_nil_iff.mp h
    obtain ⟨herrors, hrelated⟩ := hitem raw List.mem_cons_self index hhead
    obtain ⟨hrest, hforall⟩ := ih (fun w hw => hitem w (List.mem_cons_of_mem _ hw)) htail
    exact ⟨List.append_eq_nil_iff.mpr ⟨herrors, hrest⟩, .cons hrelated hforall⟩

theorem normalizeItems_congr {α : Type} {normalize : Json N → Nat → Checked α}
    {f : Json N → Json N} {items : List (Json N)} {index : Nat}
    (hitem : ∀ raw ∈ items, ∀ i, normalize (f raw) i = normalize raw i) :
    normalizeItems normalize (items.map f) index = normalizeItems normalize items index := by
  induction items generalizing index with
  | nil => rfl
  | cons raw rest ih =>
    simp only [List.map_cons, normalizeItems, hitem raw List.mem_cons_self,
      ih fun w hw => hitem w (List.mem_cons_of_mem _ hw)]

/-- An accepted list of inputs or outputs is an array. -/
theorem normalizeArray_eq_ok {α : Type} {normalize : Json N → Nat → Checked α}
    {value : Option (Json N)} {path : JsString}
    (h : (normalizeArray normalize value path).errors = []) :
    ∃ items, value = some (.arr items) ∧
      normalizeArray normalize value path = normalizeItems normalize items 0 := by
  match value, h with
  | some (.arr items), _ => exact ⟨items, rfl, rfl⟩

/-- A normalized array is normalized already, when its items are. -/
theorem normalizeArray_toJson {α : Type} {normalize : Json N → Nat → Checked α}
    {toJson : α → Json N} {value : Option (Json N)} {path : JsString} {parts : List α}
    (h : normalizeArray normalize value path = ⟨parts, []⟩)
    (hitem : ∀ items, value = some (.arr items) → ∀ raw ∈ items, ∀ i,
      (normalize raw i).errors = [] → ∀ j,
        normalize (toJson (normalize raw i).value) j = ⟨(normalize raw i).value, []⟩) :
    normalizeArray normalize (some (.arr (parts.map toJson))) path = ⟨parts, []⟩ := by
  obtain ⟨items, hitems, heq⟩ := normalizeArray_eq_ok (congrArg Checked.errors h)
  rw [h] at heq
  have hagain := normalizeItems_toJson (hitem items hitems) (congrArg Checked.errors heq.symm) 0
  rw [← heq] at hagain
  exact hagain

theorem normalizeInputs_canonical {value : Option (Json N)} (h : ∀ v ∈ value, v.Owned)
    (path : JsString) :
    normalizeArray normalizeInput (value.map canonical) path =
      normalizeArray normalizeInput value path := by
  match value, h with
  | none, _ => rfl
  | some (.arr items), h =>
    rw [Option.map_some, canonical_arr]
    exact normalizeItems_congr fun raw hraw i =>
      normalizeInput_canonical (owned_arr.mp (h _ rfl) raw hraw) i
  | some (.obj fields), _ => rw [Option.map_some, canonical_obj]; rfl
  | some .null, _ | some (.bool _), _ | some (.num _), _ | some (.str _), _ => rfl

-- ============================================================================
-- Outputs
-- ============================================================================

variable [JsonNumber N]

theorem normalizeSchema_eq_ok {value : Option (Json N)} {out : Json N}
    (h : normalizeSchema value = .ok out) :
    ∃ schema, value = some schema ∧ normalizeJsonSchema schema = .ok out := by
  match value, h with
  | some schema, h => exact ⟨schema, rfl, h⟩

theorem normalizeSchema_errors {value : Option (Json N)} {errors : List SchemaError}
    (h : normalizeSchema value = .error errors) : errors ≠ [] := by
  match value, h with
  | none, h =>
    cases h
    exact List.cons_ne_nil _ _
  | some schema, h => exact normalizeJsonSchema_errors h

/-- What an accepted output is made of. -/
theorem normalizeOutput_eq_ok {raw : Json N} {index : Nat}
    (h : (normalizeOutput raw index).errors = []) :
    ∃ fields schema out path, raw = .obj fields ∧
      (reqName (lookupField fields (js "name")) path true).errors = [] ∧
      lookupField fields (js "schema") = some schema ∧ normalizeJsonSchema schema = .ok out ∧
      (normalizeOutput raw index).value = ⟨(reqName (lookupField fields (js "name")) path true).value,
        out, optionalText (lookupField fields (js "description"))⟩ := by
  match raw, h with
  | .obj fields, h =>
    rw [normalizeOutput] at h ⊢
    cases hschema : normalizeSchema (lookupField fields (js "schema")) with
    | error errors =>
      rw [hschema] at h
      obtain ⟨-, hnil⟩ := List.append_eq_nil_iff.mp h
      exact absurd (List.map_eq_nil_iff.mp hnil) (normalizeSchema_errors hschema)
    | ok out =>
      rw [hschema] at h
      obtain ⟨schema, hlookup, hok⟩ := normalizeSchema_eq_ok hschema
      exact ⟨fields, schema, out, _, rfl, h, hlookup, hok, rfl⟩

/-- The parts of an output come to an accepted output. -/
theorem normalizeOutput_of_parts {fields : List (JsString × Json N)} {schema out : Json N}
    {name : JsString} {index : Nat}
    (hname : ∀ path, reqName (lookupField fields (js "name")) path true = ⟨name, []⟩)
    (hschema : lookupField fields (js "schema") = some schema)
    (hout : normalizeJsonSchema schema = .ok out) :
    normalizeOutput (.obj fields) index =
      ⟨⟨name, out, optionalText (lookupField fields (js "description"))⟩, []⟩ := by
  rw [normalizeOutput]
  rw [hname, hschema, normalizeSchema, hout]

omit [JsonNumber N] in
theorem lookupField_output (output : RlmOutputField N) :
    ∃ fields, output.toJson = .obj fields ∧
      lookupField fields (js "name") = some (.str output.name) ∧
      lookupField fields (js "schema") = some output.schema ∧
      lookupField fields (js "description") = output.description.map .str := by
  refine ⟨_, rfl, rfl, rfl, ?_⟩
  rw [lookupField_append, lookupField_optionalMember]
  rfl

theorem normalizeOutput_schema_owned {raw : Json N} (hraw : raw.Owned) {index : Nat}
    (h : (normalizeOutput raw index).errors = []) :
    (normalizeOutput raw index).value.schema.Owned := by
  obtain ⟨fields, schema, out, path, rfl, -, hlookup, hok, hvalue⟩ := normalizeOutput_eq_ok h
  rw [hvalue]
  exact normalizeJsonSchema_owned ((owned_obj.mp hraw).2 _ (mem_of_lookupField hlookup)) hok

/-- The same output, up to the canonical form of its schema. -/
structure SameOutput (output output' : RlmOutputField N) : Prop where
  name : output.name = output'.name
  json : canonical output.toJson = canonical output'.toJson

theorem normalizeOutput_toJson {raw : Json N} (hraw : raw.Owned) {index : Nat}
    (h : (normalizeOutput raw index).errors = []) (index' : Nat) :
    normalizeOutput (normalizeOutput raw index).value.toJson index' =
      ⟨(normalizeOutput raw index).value, []⟩ := by
  obtain ⟨fields, schema, out, path, rfl, hname, hlookup, hok, hvalue⟩ := normalizeOutput_eq_ok h
  have hschema := (owned_obj.mp hraw).2 _ (mem_of_lookupField hlookup)
  rw [hvalue]
  obtain ⟨members, hmembers, hlname, hlschema, hldescription⟩ := lookupField_output
    (⟨(reqName (lookupField fields (js "name")) path true).value, out,
      optionalText (lookupField fields (js "description"))⟩ : RlmOutputField N)
  rw [hmembers]
  rw [normalizeOutput_of_parts (fun path' => by rw [hlname]; exact reqName_value hname path')
    hlschema (normalizeJsonSchema_normal hschema hok), hldescription, optionalText_value]

theorem normalizeOutput_canonical {raw : Json N} (hraw : raw.Owned) {index : Nat}
    (h : (normalizeOutput raw index).errors = []) :
    (normalizeOutput (canonical raw) index).errors = [] ∧
      SameOutput (normalizeOutput (canonical raw) index).value
        (normalizeOutput raw index).value := by
  obtain ⟨fields, schema, out, path, rfl, hname, hlookup, hok, hvalue⟩ := normalizeOutput_eq_ok h
  obtain ⟨hfields, hmembers⟩ := owned_obj.mp hraw
  have hcanonical := lookupField_canonicalMembers hfields.1
  obtain ⟨out', hok', hsame⟩ :=
    normalizeJsonSchema_canonical (hmembers _ (mem_of_lookupField hlookup)) hok
  have hname' : ∀ path', reqName (lookupField (canonicalMembers fields) (js "name")) path' true =
      ⟨(reqName (lookupField fields (js "name")) path true).value, []⟩ := by
    intro path'
    rw [hcanonical, reqName_canonical, reqName_path hname]
  have hschema : lookupField (canonicalMembers fields) (js "schema") = some (canonical schema) := by
    rw [hcanonical, hlookup, Option.map_some]
  rw [canonical_obj_members, normalizeOutput_of_parts hname' hschema hok', hvalue, hcanonical,
    optionalText_canonical]
  refine ⟨rfl, rfl, ?_⟩
  apply canonical_obj_congr
  simp only [List.cons_append, List.nil_append, canonicalFields, hsame]

-- ============================================================================
-- Programs
-- ============================================================================

omit [JsonNumber N] in
/-- Accepted metadata is an object within the depth limit, and stays as it is. -/
theorem normalizeMetadata_eq_ok {value : Option (Json N)} (hvalue : ∀ v ∈ value, v.Owned)
    (h : (normalizeMetadata value).errors = []) :
    (normalizeMetadata value).value = value ∧
      ∀ v ∈ value, (∃ members, v = .obj members) ∧ v.depth ≤ maxJsonDepth := by
  cases value with
  | none => exact ⟨rfl, nofun⟩
  | some v =>
    by_cases hdepth : v.depth ≤ maxJsonDepth
    · rw [normalizeMetadata, parseJsonValue_ok (hvalue v rfl) hdepth] at h ⊢
      cases v with
      | obj members =>
        refine ⟨rfl, ?_⟩
        rintro v ⟨⟩
        exact ⟨⟨members, rfl⟩, hdepth⟩
      | null | bool | num | str | arr => exact absurd h (List.cons_ne_nil _ _)
    · obtain ⟨e, he⟩ := parseJsonValue_error (not_le.mp hdepth)
      rw [normalizeMetadata, he] at h
      exact absurd h (List.cons_ne_nil _ _)

omit [JsonNumber N] in
theorem normalizeMetadata_of_object {value : Option (Json N)} (hvalue : ∀ v ∈ value, v.Owned)
    (h : ∀ v ∈ value, (∃ members, v = .obj members) ∧ v.depth ≤ maxJsonDepth) :
    normalizeMetadata value = ⟨value, []⟩ := by
  cases value with
  | none => rfl
  | some v =>
    obtain ⟨⟨members, rfl⟩, hdepth⟩ := h v rfl
    rw [normalizeMetadata, parseJsonValue_ok (hvalue _ rfl) hdepth]

omit [JsonNumber N] in
theorem normalizeItems_length {α : Type} (normalize : Json N → Nat → Checked α)
    (items : List (Json N)) (index : Nat) :
    (normalizeItems normalize items index).value.length = items.length := by
  induction items generalizing index with
  | nil => rfl
  | cons raw rest ih => simp only [normalizeItems, List.length_cons, ih]

omit [JsonNumber N] in
/-- At least one output: an array of as many items has one too. -/
theorem outputsRequired_eq_nil {items items' : List (Json N)}
    (h : outputsRequired (some (.arr items)) = []) (hlength : items'.length = items.length) :
    outputsRequired (some (.arr items')) = [] := by
  cases items' with
  | cons raw rest => rfl
  | nil =>
    obtain rfl := List.eq_nil_of_length_eq_zero hlength.symm
    exact h

/-- The parts of an object that makes a program. -/
structure ProgramParts (fields : List (JsString × Json N)) (program : RlmProgram N) : Prop where
  objective : reqString (lookupField fields (js "objective")) (js "objective") false =
    ⟨program.objective, []⟩
  profile : reqString (profileMember (lookupField fields (js "profile"))) (js "profile") false =
    ⟨program.profile, []⟩
  inputs : normalizeArray normalizeInput (lookupField fields (js "inputs")) (js "inputs") =
    ⟨program.inputs, []⟩
  inputNames : duplicateErrors (js "inputs") (js "input") (program.inputs.map RlmInput.name) [] = []
  outputs : normalizeArray normalizeOutput (lookupField fields (js "outputs")) (js "outputs") =
    ⟨program.outputs, []⟩
  required : outputsRequired (lookupField fields (js "outputs")) = []
  outputNames : duplicateErrors (js "outputs") (js "output")
    (program.outputs.map RlmOutputField.name) [] = []
  metadata : normalizeMetadata (lookupField fields (js "metadata")) = ⟨program.metadata, []⟩

theorem Checked.eq_of_errors {α : Type} {c : Checked α} (h : c.errors = []) : c = ⟨c.value, []⟩ := by
  rw [← h]

/-- The normalization accepts exactly the objects whose parts it accepts. -/
theorem normalizeProgram_eq_ok {input : Json N} {program : RlmProgram N} :
    normalizeProgram input = .ok program ↔
      ∃ fields, input = .obj fields ∧ ProgramParts fields program := by
  constructor
  · intro h
    cases input with
    | obj fields =>
      rw [normalizeProgram] at h
      split_ifs at h with hne
      cases h
      rw [ne_eq, not_not] at hne
      simp only [normalizeMembers, List.append_eq_nil_iff] at hne
      obtain ⟨⟨⟨⟨⟨⟨⟨hobjective, hprofile⟩, hinputs⟩, hinputNames⟩, houtputs⟩, hrequired⟩,
        houtputNames⟩, hmetadata⟩ := hne
      exact ⟨fields, rfl, Checked.eq_of_errors hobjective, Checked.eq_of_errors hprofile,
        Checked.eq_of_errors hinputs, hinputNames, Checked.eq_of_errors houtputs, hrequired,
        houtputNames, Checked.eq_of_errors hmetadata⟩
    | null | bool | num | str | arr => exact absurd h nofun
  · rintro ⟨fields, rfl, h⟩
    rw [normalizeProgram]
    rw [normalizeMembers, h.objective, h.profile, h.inputs, h.outputs, h.metadata]
    dsimp only
    rw [h.inputNames, h.required, h.outputNames]
    exact if_neg (not_not.mpr rfl)

omit [JsonNumber N] in
theorem lookupField_program (program : RlmProgram N) :
    ∃ fields, program.toJson = .obj fields ∧
      lookupField fields (js "objective") = some (.str program.objective) ∧
      lookupField fields (js "inputs") = some (.arr (program.inputs.map RlmInput.toJson)) ∧
      lookupField fields (js "outputs") = some (.arr (program.outputs.map RlmOutputField.toJson)) ∧
      lookupField fields (js "profile") = some (.str program.profile) ∧
      lookupField fields (js "metadata") = program.metadata := by
  refine ⟨_, rfl, rfl, rfl, rfl, rfl, ?_⟩
  rw [lookupField_append, lookupField_optionalMember, Option.map_id]
  rfl

omit [JsonNumber N] in
/-- The members of an object keep the rules of objects. -/
theorem owned_lookupField {fields : List (JsString × Json N)} (h : (Json.obj fields).Owned)
    (key : JsString) : ∀ v ∈ lookupField fields key, v.Owned :=
  fun _ hv => (owned_obj.mp h).2 _ (mem_of_lookupField hv)

/-- The normalization leaves a normalized program alone. -/
theorem normalizeProgram_toJson {input : Json N} {program : RlmProgram N} (hinput : input.Owned)
    (h : normalizeProgram input = .ok program) : normalizeProgram program.toJson = .ok program := by
  obtain ⟨fields, rfl, hparts⟩ := normalizeProgram_eq_ok.mp h
  obtain ⟨members, hmembers, hobjective, hinputs, houtputs, hprofile, hmetadata⟩ :=
    lookupField_program program
  rw [normalizeProgram_eq_ok]
  refine ⟨members, hmembers, ?_⟩
  have howned := owned_lookupField hinput
  constructor
  · have hstring := reqString_value (congrArg Checked.errors hparts.objective) (js "objective")
    rw [hparts.objective] at hstring
    rw [hobjective]
    exact hstring
  · have hstring := reqString_value (congrArg Checked.errors hparts.profile) (js "profile")
    rw [hparts.profile] at hstring
    rw [hprofile]
    exact hstring
  · rw [hinputs]
    apply normalizeArray_toJson hparts.inputs
    intro items _ raw _ i hraw j
    exact normalizeInput_toJson hraw j
  · exact hparts.inputNames
  · rw [houtputs]
    apply normalizeArray_toJson hparts.outputs
    intro items hitems raw hraw i herrors j
    have hitem : raw.Owned := owned_arr.mp (howned (js "outputs") (.arr items) hitems) raw hraw
    exact normalizeOutput_toJson hitem herrors j
  · obtain ⟨items, hitems, heq⟩ := normalizeArray_eq_ok (congrArg Checked.errors hparts.outputs)
    have hlength := normalizeItems_length normalizeOutput items 0
    rw [← heq, hparts.outputs] at hlength
    rw [houtputs]
    have hrequired := hparts.required
    rw [hitems] at hrequired
    apply outputsRequired_eq_nil hrequired
    rw [List.length_map]
    exact hlength
  · exact hparts.outputNames
  · obtain ⟨hvalue, hobject⟩ := normalizeMetadata_eq_ok (howned (js "metadata"))
      (congrArg Checked.errors hparts.metadata)
    rw [hparts.metadata] at hvalue
    dsimp only at hvalue
    rw [hmetadata, hvalue]
    exact normalizeMetadata_of_object (howned _) hobject

omit [JsonNumber N] in
theorem SameOutput.names {outputs outputs' : List (RlmOutputField N)}
    (h : List.Forall₂ SameOutput outputs outputs') :
    outputs.map RlmOutputField.name = outputs'.map RlmOutputField.name := by
  induction h with
  | nil => rfl
  | cons hsame _ ih => rw [List.map_cons, List.map_cons, hsame.name, ih]

omit [JsonNumber N] in
theorem SameOutput.jsons {outputs outputs' : List (RlmOutputField N)}
    (h : List.Forall₂ SameOutput outputs outputs') :
    canonical (.arr (outputs.map RlmOutputField.toJson)) =
      canonical (.arr (outputs'.map RlmOutputField.toJson)) := by
  rw [canonical_arr, canonical_arr, List.map_map, List.map_map]
  congr 1
  induction h with
  | nil => rfl
  | cons hsame _ ih =>
    rw [List.map_cons, List.map_cons, ih]
    congr 1
    exact hsame.json

omit [JsonNumber N] in
theorem profileMember_canonical (value : Option (Json N)) :
    profileMember (value.map canonical) = (profileMember value).map canonical := by
  cases value with
  | none => rfl
  | some v =>
    cases v with
    | null | bool | num | str => rfl
    | arr items => rw [Option.map_some, canonical_arr]; exact congrArg some (canonical_arr items).symm
    | obj fields =>
      rw [Option.map_some, canonical_obj]
      exact congrArg some (canonical_obj fields).symm

theorem normalizeOutputs_canonical {value : Option (Json N)} {path : JsString}
    {outputs : List (RlmOutputField N)} (hvalue : ∀ v ∈ value, v.Owned)
    (h : normalizeArray normalizeOutput value path = ⟨outputs, []⟩) :
    ∃ outputs', normalizeArray normalizeOutput (value.map canonical) path = ⟨outputs', []⟩ ∧
      List.Forall₂ SameOutput outputs' outputs := by
  obtain ⟨items, hitems, heq⟩ := normalizeArray_eq_ok (congrArg Checked.errors h)
  rw [h] at heq
  have howned := owned_arr.mp (hvalue (.arr items) hitems)
  obtain ⟨herrors, hrelated⟩ := normalizeItems_related (R := SameOutput) (f := canonical)
    (fun raw hraw i hok => normalizeOutput_canonical (howned raw hraw) hok)
    (congrArg Checked.errors heq.symm)
  rw [← heq] at hrelated
  refine ⟨_, ?_, hrelated⟩
  rw [hitems, Option.map_some, canonical_arr]
  exact Checked.eq_of_errors herrors

omit [JsonNumber N] in
theorem outputsRequired_canonical {value : Option (Json N)} (h : outputsRequired value = []) :
    outputsRequired (value.map canonical) = [] := by
  match value, h with
  | none, _ => rfl
  | some (.arr items), h =>
    rw [Option.map_some, canonical_arr]
    exact outputsRequired_eq_nil h (List.length_map canonical)
  | some (.obj fields), _ => rw [Option.map_some, canonical_obj]; rfl
  | some .null, _ | some (.bool _), _ | some (.num _), _ | some (.str _), _ => rfl

omit [JsonNumber N] in
theorem normalizeMetadata_canonical {value : Option (Json N)} (hvalue : ∀ v ∈ value, v.Owned)
    (h : ∀ v ∈ value, (∃ members, v = .obj members) ∧ v.depth ≤ maxJsonDepth) :
    normalizeMetadata (value.map canonical) = ⟨value.map canonical, []⟩ := by
  cases value with
  | none => rfl
  | some v =>
    obtain ⟨⟨members, rfl⟩, hdepth⟩ := h v rfl
    apply normalizeMetadata_of_object
    · rintro w ⟨⟩
      exact canonical_owned _
    · rintro w ⟨⟩
      exact ⟨⟨_, canonical_obj_members members⟩, (canonical_depth (hvalue _ rfl)).trans_le hdepth⟩

/-- The canonical form of a value makes the same program, up to the canonical forms of its
    schemas and its metadata. -/
theorem normalizeProgram_canonical {input : Json N} {program : RlmProgram N}
    (hinput : input.Owned) (h : normalizeProgram input = .ok program) :
    ∃ program', normalizeProgram (canonical input) = .ok program' ∧
      program'.inputs = program.inputs ∧ canonical program'.toJson = canonical program.toJson := by
  obtain ⟨fields, rfl, hparts⟩ := normalizeProgram_eq_ok.mp h
  have howned := owned_lookupField hinput
  have hlookup := lookupField_canonicalMembers (owned_obj.mp hinput).1.1
  obtain ⟨outputs', houtputs, hsame⟩ := normalizeOutputs_canonical (howned _) hparts.outputs
  obtain ⟨hvalue, hobject⟩ := normalizeMetadata_eq_ok (howned (js "metadata"))
    (congrArg Checked.errors hparts.metadata)
  rw [hparts.metadata] at hvalue
  refine ⟨⟨program.objective, program.inputs, outputs', program.profile,
    program.metadata.map canonical⟩, ?_, rfl, ?_⟩
  · rw [normalizeProgram_eq_ok]
    refine ⟨canonicalMembers fields, canonical_obj_members fields, ?_⟩
    constructor
    · rw [hlookup, reqString_canonical]
      exact hparts.objective
    · rw [hlookup, profileMember_canonical, reqString_canonical]
      exact hparts.profile
    · rw [hlookup, normalizeInputs_canonical (howned _)]
      exact hparts.inputs
    · exact hparts.inputNames
    · rw [hlookup]
      exact houtputs
    · rw [hlookup]
      exact outputsRequired_canonical hparts.required
    · show duplicateErrors _ _ (outputs'.map RlmOutputField.name) [] = []
      rw [SameOutput.names hsame]
      exact hparts.outputNames
    · show normalizeMetadata _ = ⟨program.metadata.map canonical, []⟩
      rw [hlookup, show program.metadata = lookupField fields (js "metadata") from hvalue]
      exact normalizeMetadata_canonical (howned _) hobject
  · apply canonical_obj_congr
    rw [canonicalFields_eq_map, canonicalFields_eq_map]
    have hmetadata : ∀ v ∈ program.metadata, canonical (canonical v) = canonical v := by
      intro v hv
      rw [show program.metadata = lookupField fields (js "metadata") from hvalue] at hv
      exact canonical_canonical (howned _ v hv)
    simp only [List.map_append, List.map_cons, List.map_nil, SameOutput.jsons hsame]
    congr 1
    cases hcase : program.metadata with
    | none => rfl
    | some v => simp only [Option.map_some, optionalMember, List.map_cons, List.map_nil, id,
        hmetadata v hcase]

-- ============================================================================
-- A normalized program as a value
-- ============================================================================

omit [JsonNumber N] in
theorem RlmInput.toJson_owned (input : RlmInput) : (input.toJson : Json N).Owned := by
  rw [RlmInput.toJson, owned_obj, ← isOwned_obj]
  cases input.constraints with
  | none => exact ⟨rfl, by simp [optionalMember, Owned, all, isOwned]⟩
  | some s => exact ⟨rfl, by simp [optionalMember, Owned, all, isOwned]⟩

omit [JsonNumber N] in
theorem RlmOutputField.toJson_owned {output : RlmOutputField N} (h : output.schema.Owned) :
    output.toJson.Owned := by
  have hstring : ∀ s : JsString, (Json.str s : Json N).Owned := fun _ => rfl
  rw [RlmOutputField.toJson, owned_obj, ← isOwned_obj]
  cases output.description with
  | none => exact ⟨rfl, by simp [optionalMember, h, hstring]⟩
  | some s => exact ⟨rfl, by simp [optionalMember, h, hstring]⟩

omit [JsonNumber N] in
theorem normalizeItems_forall {α : Type} {normalize : Json N → Nat → Checked α} {P : α → Prop}
    {items : List (Json N)} {index : Nat}
    (hitem : ∀ raw ∈ items, ∀ i, (normalize raw i).errors = [] → P (normalize raw i).value)
    (h : (normalizeItems normalize items index).errors = []) :
    ∀ part ∈ (normalizeItems normalize items index).value, P part := by
  induction items generalizing index with
  | nil => exact nofun
  | cons raw rest ih =>
    obtain ⟨hhead, htail⟩ := List.append_eq_nil_iff.mp h
    have hrest := ih (fun w hw => hitem w (List.mem_cons_of_mem _ hw)) htail
    exact List.forall_mem_cons.mpr ⟨hitem raw List.mem_cons_self index hhead, hrest⟩

/-- The inputs and outputs of a normalized program have identifiers for names. -/
theorem normalizeProgram_input_name {input : Json N} {program : RlmProgram N}
    (h : normalizeProgram input = .ok program) :
    ∀ declared ∈ program.inputs, isIdentifier declared.name = true := by
  obtain ⟨fields, rfl, hparts⟩ := normalizeProgram_eq_ok.mp h
  obtain ⟨items, -, heq⟩ := normalizeArray_eq_ok (congrArg Checked.errors hparts.inputs)
  rw [hparts.inputs] at heq
  have hnames := normalizeItems_forall (P := fun declared => isIdentifier declared.name = true)
    (fun raw _ i hraw => normalizeInput_name hraw) (congrArg Checked.errors heq.symm)
  rw [← heq] at hnames
  exact hnames

theorem normalizeProgram_owned {input : Json N} {program : RlmProgram N} (hinput : input.Owned)
    (h : normalizeProgram input = .ok program) : program.toJson.Owned := by
  obtain ⟨fields, rfl, hparts⟩ := normalizeProgram_eq_ok.mp h
  have howned := owned_lookupField hinput
  have hinputs : (Json.arr (program.inputs.map RlmInput.toJson) : Json N).Owned := by
    rw [owned_arr, List.forall_mem_map]
    intro declared _
    exact declared.toJson_owned
  have houtputs : (Json.arr (program.outputs.map RlmOutputField.toJson)).Owned := by
    obtain ⟨items, hitems, heq⟩ := normalizeArray_eq_ok (congrArg Checked.errors hparts.outputs)
    rw [hparts.outputs] at heq
    have hitem := owned_arr.mp (howned (js "outputs") (.arr items) hitems)
    have hschemas := normalizeItems_forall (P := fun output => output.schema.Owned)
      (fun raw hraw i hok => normalizeOutput_schema_owned (hitem raw hraw) hok)
      (congrArg Checked.errors heq.symm)
    rw [← heq] at hschemas
    rw [owned_arr, List.forall_mem_map]
    intro output houtput
    exact RlmOutputField.toJson_owned (hschemas output houtput)
  have hmetadata : ∀ v ∈ program.metadata, v.Owned := by
    obtain ⟨hvalue, -⟩ := normalizeMetadata_eq_ok (howned (js "metadata"))
      (congrArg Checked.errors hparts.metadata)
    rw [hparts.metadata] at hvalue
    rw [show program.metadata = lookupField fields (js "metadata") from hvalue]
    exact howned _
  have hstring : ∀ s : JsString, (Json.str s : Json N).Owned := fun _ => rfl
  rw [RlmProgram.toJson, owned_obj, ← isOwned_obj]
  cases hcase : program.metadata with
  | none => exact ⟨rfl, by simp [optionalMember, hinputs, houtputs, hstring]⟩
  | some v => exact ⟨rfl, by simp [optionalMember, hinputs, houtputs, hstring, hmetadata v hcase]⟩

end PiRlm.Core

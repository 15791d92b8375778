/-
  PiRlm.Core.SchemaValidation

  What the keywords of a schema ask of a value, and that the validation of `core/schema.ts`
  decides it.

  `Satisfies` is stated keyword by keyword.  A schema of the subset and its normal form have
  the same values, and on such a schema the validation reports nothing exactly on them.
-/
import PiRlm.Core.SchemaSound

namespace PiRlm.Core.Schema

open PiRlm.Lib PiRlm.Lib.Json

variable {N : Type}

-- ============================================================================
-- The meaning of the keywords
-- ============================================================================

/-- The key is one of the declared properties. -/
def Declared (schema : List (JsString × Json N)) (key : JsString) : Prop :=
  ∃ declared, lookupField schema (js "properties") = some (.obj declared) ∧
    key ∈ declared.map Prod.fst

variable [JsonNumber N]

/-- The values of a type name. -/
inductive HasType : Json N → JsString → Prop
  | null : HasType .null (js "null")
  | boolean (b : Bool) : HasType (.bool b) (js "boolean")
  | number (n : N) : HasType (.num n) (js "number")
  | integer (n : N) (z : ℤ) (h : JsonNumber.value n = z) : HasType (.num n) (js "integer")
  | string (s : JsString) : HasType (.str s) (js "string")
  | array (items : List (Json N)) : HasType (.arr items) (js "array")
  | object (fields : List (JsString × Json N)) : HasType (.obj fields) (js "object")

/-- What the keywords of a schema ask of a value; a keyword about objects or arrays asks
    nothing of another value. -/
inductive Satisfies : Json N → Json N → Prop
  | intro {value : Json N} {schema : List (JsString × Json N)}
    (type : ∀ name, lookupField schema (js "type") = some (.str name) → HasType value name)
    (enum : ∀ values, lookupField schema (js "enum") = some (.arr values) →
      ∃ candidate ∈ values, canonical candidate = canonical value)
    (required : ∀ members names, value = .obj members →
      lookupField schema (js "required") = some (.arr names) →
      ∀ key, .str key ∈ names → key ∈ members.map Prod.fst)
    (properties : ∀ members declared, value = .obj members →
      lookupField schema (js "properties") = some (.obj declared) →
      ∀ f ∈ declared, ∀ v, (f.1, v) ∈ members → Satisfies v f.2)
    (closed : ∀ members, value = .obj members →
      lookupField schema (js "additionalProperties") = some (.bool false) →
      ∀ f ∈ members, Declared schema f.1)
    (additional : ∀ members extra, value = .obj members →
      lookupField schema (js "additionalProperties") = some (.obj extra) →
      ∀ f ∈ members, ¬Declared schema f.1 → Satisfies f.2 (.obj extra))
    (items : ∀ values item, value = .arr values → lookupField schema (js "items") = some item →
      ∀ v ∈ values, Satisfies v item) :
    Satisfies value (.obj schema)

-- ============================================================================
-- The recursion of the validation
-- ============================================================================

omit [JsonNumber N] in
/-- The validation of an object or an array asks for its members. -/
theorem memberViolations_congr {validate validate' : Json N → Json N → JsString → List JsString}
    {value : Json N} (h : ∀ v, v.depth < value.depth → validate v = validate' v)
    (schema : List (JsString × Json N)) (path : JsString) :
    memberViolations validate value schema path = memberViolations validate' value schema path := by
  cases value with
  | null | bool | num | str => rfl
  | arr items =>
    have hitems : ∀ (schema : Json N) (rest : List (Json N)) (i : Nat), (∀ v ∈ rest, v ∈ items) →
        itemViolations validate schema path rest i =
          itemViolations validate' schema path rest i := by
      intro schema rest
      induction rest with
      | nil => exact fun _ _ => rfl
      | cons v rest ih =>
        intro i hmem
        have hv := h v (depth_of_mem_arr (hmem v (List.mem_cons_self)))
        have hrest := ih (i + 1) fun w hw => hmem w (List.mem_cons_of_mem v hw)
        simp only [itemViolations, hv, hrest]
    simp only [memberViolations, hitems _ items 0 fun _ hv => hv]
  | obj members =>
    have hproperties : propertyViolations validate members schema path =
        propertyViolations validate' members schema path := by
      refine List.flatMap_congr fun f _ => ?_
      cases hlookup : lookupField members f.1 with
      | none => rfl
      | some v => simp only [h v (depth_of_lookupField hlookup)]
    have hadditional : additionalViolations validate members schema path =
        additionalViolations validate' members schema path := by
      unfold additionalViolations
      cases lookupField schema (js "additionalProperties") with
      | none => rfl
      | some v =>
        cases v with
        | null | num | str | arr => rfl
        | bool allowed => cases allowed <;> rfl
        | obj additional =>
          refine List.flatMap_congr fun f hf => ?_
          rw [h f.2 (depth_of_mem_obj hf)]
    simp only [memberViolations, hproperties, hadditional]

theorem validateWith_descends : Descends (@validateWith N _) Json.depth := by
  intro validate validate' value h
  funext schema path
  cases schema with
  | null | bool | num | str | arr => rfl
  | obj schema => simp only [validateWith, memberViolations_congr h]

theorem validateNormalized_eq (value : Json N) :
    validateNormalized value = validateWith validateNormalized value :=
  measured_eq validateWith_descends value

-- ============================================================================
-- The checks, keyword by keyword
-- ============================================================================

theorem isInteger_iff {n : N} : isInteger n = true ↔ ∃ z : ℤ, JsonNumber.value n = z := by
  rw [isInteger, Rat.isInt, beq_iff_eq]
  constructor
  · intro hden
    exact ⟨(JsonNumber.value n).num, ((Rat.den_eq_one_iff _).mp hden).symm⟩
  · rintro ⟨z, hz⟩
    rw [hz, Rat.den_intCast]

theorem matchesType_iff {value : Json N} {name : JsString} :
    matchesType value name = true ↔ HasType value name := by
  constructor
  · intro h
    unfold matchesType at h
    split_ifs at h with hinteger hnumber hstring hboolean hobject harray hnull
    all_goals subst name
    · cases value with
      | num n =>
        obtain ⟨z, hz⟩ := isInteger_iff.mp h
        exact .integer n z hz
      | null | bool | str | arr | obj => cases h
    · cases value with
      | num n => exact .number n
      | null | bool | str | arr | obj => cases h
    · cases value with
      | str s => exact .string s
      | null | bool | num | arr | obj => cases h
    · cases value with
      | bool b => exact .boolean b
      | null | num | str | arr | obj => cases h
    · cases value with
      | obj fields => exact .object fields
      | null | bool | num | str | arr => cases h
    · cases value with
      | arr items => exact .array items
      | null | bool | num | str | obj => cases h
    · cases value with
      | null => exact .null
      | bool | num | str | arr | obj => cases h
  · intro h
    cases h with
    | integer n z hz => exact isInteger_iff.mpr ⟨z, hz⟩
    | null | boolean | number | string | array | object => rfl

omit [JsonNumber N] in
theorem hasOwn_iff {object : List (JsString × Json N)} {key : JsString} :
    hasOwn object key = true ↔ key ∈ object.map Prod.fst :=
  lookupField_isSome

omit [JsonNumber N] in
theorem declaredProperties_iff {schema : List (JsString × Json N)} {key : JsString} :
    hasOwn (declaredProperties schema) key = true ↔ Declared schema key := by
  rw [hasOwn_iff, Declared, declaredProperties]
  cases lookupField schema (js "properties") with
  | none => simp
  | some v => cases v <;> simp

theorem enumViolations_iff {value : Json N} {schema : List (JsString × Json N)}
    (hvalue : value.depth ≤ maxJsonDepth) (hschema : (Json.obj schema).depth ≤ maxJsonDepth)
    (path : JsString) : enumViolations value schema path = [] ↔
      ∀ values, lookupField schema (js "enum") = some (.arr values) →
        ∃ candidate ∈ values, canonical candidate = canonical value := by
  unfold enumViolations
  cases hlookup : lookupField schema (js "enum") with
  | none => simp
  | some v =>
    cases v with
    | null | bool | num | str | obj => simp
    | arr values =>
      have hidentity : ∀ candidate ∈ values, canonicalStringify candidate = canonicalStringify value
          ↔ canonical candidate = canonical value := by
        intro candidate hmem
        have hdepth := (depth_of_mem_arr hmem).trans (depth_of_lookupField hlookup)
        rw [canonicalStringify_ok (hdepth.le.trans hschema), canonicalStringify_ok hvalue,
          Except.ok.injEq]
        exact ⟨render_injective, fun h => by rw [h]⟩
      have hany : (values.any fun candidate =>
            decide (canonicalStringify candidate = canonicalStringify value)) = true ↔
          ∃ candidate ∈ values, canonical candidate = canonical value := by
        simp only [List.any_eq_true, decide_eq_true_eq]
        exact exists_congr fun candidate => and_congr_right fun hmem => hidentity candidate hmem
      by_cases h : ∃ candidate ∈ values, canonical candidate = canonical value
      · simp only [if_pos (hany.mpr h), true_iff]
        rintro _ ⟨⟩
        exact h
      · simp only [if_neg (mt hany.mp h), List.cons_ne_nil, false_iff]
        exact fun hall => h (hall values rfl)

omit [JsonNumber N] in
theorem requiredViolations_iff {members schema : List (JsString × Json N)} {path : JsString} :
    requiredViolations members schema path = [] ↔
      ∀ names, lookupField schema (js "required") = some (.arr names) →
        ∀ key, .str key ∈ names → key ∈ members.map Prod.fst := by
  unfold requiredViolations
  cases lookupField schema (js "required") with
  | none => simp
  | some v =>
    cases v with
    | null | bool | num | str | obj => simp
    | arr names =>
      rw [List.flatMap_eq_nil_iff]
      constructor
      · rintro hall _ ⟨⟩ key hkey
        have hnil := hall (.str key) hkey
        by_contra habsent
        rw [← hasOwn_iff] at habsent
        simp [habsent] at hnil
      · intro hall v hv
        cases v with
        | null | bool | num | arr | obj => rfl
        | str key => exact if_pos (hasOwn_iff.mpr (hall names rfl key hv))

/-- The validation of a value against a schema of the subset reports nothing exactly when the
    value satisfies it. -/
def Decides (validate : Json N → Json N → JsString → List JsString) (value : Json N) : Prop :=
  ∀ schema path, schema.depth ≤ maxJsonDepth → InSubset schema →
    (validate value schema path = [] ↔ Satisfies value schema)

section Members

variable {validate : Json N → Json N → JsString → List JsString}
  {members schema : List (JsString × Json N)}

section Object

variable (hmembers : ∀ f ∈ members, Decides validate f.2)
  (hdepth : (Json.obj schema).depth ≤ maxJsonDepth) (hsub : InSubset (.obj schema))
include hmembers hdepth hsub

theorem propertyViolations_iff (hnodup : (members.map Prod.fst).Nodup) (path : JsString) :
    propertyViolations validate members schema path = [] ↔
      ∀ declared, lookupField schema (js "properties") = some (.obj declared) →
        ∀ f ∈ declared, ∀ v, (f.1, v) ∈ members → Satisfies v f.2 := by
  obtain ⟨-, -, -, -, hproperty, -, -, -, -⟩ := hsub
  unfold propertyViolations declaredProperties
  cases hlookup : lookupField schema (js "properties") with
  | none => simp
  | some v =>
    cases v with
    | null | bool | num | str | arr => simp
    | obj declared =>
      have hinner : ∀ f ∈ declared, ∀ v, (f.1, v) ∈ members → ∀ path,
          validate v f.2 path = [] ↔ Satisfies v f.2 := by
        intro f hf v hv path
        have hlt := (depth_of_mem_obj hf).trans (depth_of_lookupField hlookup)
        exact hmembers (f.1, v) hv f.2 path (hlt.le.trans hdepth) (hproperty declared hlookup f hf)
      simp only [List.flatMap_eq_nil_iff]
      constructor
      · rintro hall _ ⟨⟩ f hf v hv
        have hnil := hall f hf
        rw [(lookupField_eq_some_iff hnodup).mpr hv] at hnil
        exact (hinner f hf v hv _).mp hnil
      · intro hall f hf
        cases hv : lookupField members f.1 with
        | none => rfl
        | some v =>
          have hmem := (lookupField_eq_some_iff hnodup).mp hv
          exact (hinner f hf v hmem _).mpr (hall declared rfl f hf v hmem)

theorem additionalViolations_iff (path : JsString) :
    additionalViolations validate members schema path = [] ↔
      (lookupField schema (js "additionalProperties") = some (.bool false) →
        ∀ f ∈ members, Declared schema f.1) ∧
      ∀ extra, lookupField schema (js "additionalProperties") = some (.obj extra) →
        ∀ f ∈ members, ¬Declared schema f.1 → Satisfies f.2 (.obj extra) := by
  obtain ⟨-, -, -, -, -, -, hextra, -, -⟩ := hsub
  unfold additionalViolations
  cases hlookup : lookupField schema (js "additionalProperties") with
  | none => simp
  | some v =>
    cases v with
    | null | num | str | arr => simp
    | bool allowed =>
      cases allowed with
      | true => simp
      | false => simp [List.flatMap_eq_nil_iff, declaredProperties_iff]
    | obj extra =>
      have hinner : ∀ f ∈ members, ∀ path,
          validate f.2 (.obj extra) path = [] ↔ Satisfies f.2 (.obj extra) := fun f hf path =>
        hmembers f hf _ path ((depth_of_lookupField hlookup).le.trans hdepth) (hextra extra hlookup)
      simp only [List.flatMap_eq_nil_iff]
      constructor
      · intro hall
        refine ⟨nofun, ?_⟩
        rintro _ ⟨⟩ f hf hdeclared
        have hnil := hall f hf
        rw [if_neg (mt declaredProperties_iff.mp hdeclared)] at hnil
        exact (hinner f hf _).mp hnil
      · intro hall f hf
        by_cases hdeclared : Declared schema f.1
        · exact if_pos (declaredProperties_iff.mpr hdeclared)
        · rw [if_neg (mt declaredProperties_iff.mp hdeclared)]
          exact (hinner f hf _).mpr (hall.2 extra rfl f hf hdeclared)

end Object

theorem itemViolations_iff {items : List (Json N)} (hitems : ∀ v ∈ items, Decides validate v)
    {item : Json N} (hdepth : item.depth ≤ maxJsonDepth) (hsub : InSubset item) (path : JsString)
    (i : Nat) : itemViolations validate item path items i = [] ↔ ∀ v ∈ items, Satisfies v item := by
  induction items generalizing i with
  | nil => simp [itemViolations]
  | cons v rest ih =>
    rw [List.forall_mem_cons] at hitems
    rw [itemViolations, List.append_eq_nil_iff, hitems.1 item _ hdepth hsub, ih hitems.2,
      List.forall_mem_cons]

end Members

-- ============================================================================
-- The validation
-- ============================================================================

/-- A check after the one of the type, which ends the validation when it fails. -/
theorem validateWith_eq_nil {validate : Json N → Json N → JsString → List JsString}
    {value : Json N} {schema : List (JsString × Json N)} {path : JsString} :
    validateWith validate value (.obj schema) path = [] ↔
      (∀ name, lookupField schema (js "type") = some (.str name) → HasType value name) ∧
      enumViolations value schema path = [] ∧
      memberViolations validate value schema path = [] := by
  cases hlookup : lookupField schema (js "type") with
  | none => simp [validateWith, hlookup]
  | some v =>
    cases v with
    | null | bool | num | arr | obj => simp [validateWith, hlookup]
    | str name =>
      by_cases h : matchesType value name = true
      · simp [validateWith, hlookup, h, matchesType_iff.mp h]
      · have hne : ¬HasType value name := mt matchesType_iff.mpr h
        simp [validateWith, hlookup, h, hne]

/-- On a schema of the subset the validation decides `Satisfies`. -/
theorem validateNormalized_decides {value : Json N} (howned : value.Owned)
    (hvalue : value.depth ≤ maxJsonDepth) : Decides validateNormalized value := by
  induction value using depthInd with
  | step value ih =>
    intro schema path hschema hsub
    obtain ⟨fields, rfl⟩ := hsub.isObj
    rw [validateNormalized_eq, validateWith_eq_nil, enumViolations_iff hvalue hschema]
    cases value with
    | null | bool | num | str =>
      constructor
      · rintro ⟨htype, henum, -⟩
        exact .intro htype henum nofun nofun nofun nofun nofun
      · rintro ⟨htype, henum, -, -, -, -, -⟩
        exact ⟨htype, henum, rfl⟩
    | arr items =>
      have hitems : ∀ v ∈ items, Decides validateNormalized v := fun v hv =>
        ih v (depth_of_mem_arr hv) (owned_arr.mp howned v hv)
          ((depth_of_mem_arr hv).le.trans hvalue)
      have hmember : memberViolations validateNormalized (.arr items) fields path = [] ↔
          ∀ item, lookupField fields (js "items") = some item → ∀ v ∈ items, Satisfies v item := by
        obtain ⟨-, -, -, -, -, -, -, hinner, -⟩ := hsub
        rw [memberViolations]
        cases hlookup : lookupField fields (js "items") with
        | none => simp
        | some v =>
          obtain ⟨inner, rfl⟩ := (hinner v hlookup).isObj
          have hdepth := (depth_of_lookupField hlookup).le.trans hschema
          simp [itemViolations_iff hitems hdepth (hinner _ hlookup)]
      rw [hmember]
      constructor
      · rintro ⟨htype, henum, hall⟩
        refine .intro htype henum nofun nofun nofun nofun ?_
        rintro _ item ⟨⟩ hlookup
        exact hall item hlookup
      · rintro ⟨htype, henum, -, -, -, -, hall⟩
        exact ⟨htype, henum, fun item hlookup => hall items item rfl hlookup⟩
    | obj members =>
      obtain ⟨⟨hnodup, -⟩, hinner⟩ := owned_obj.mp howned
      have hmembers : ∀ f ∈ members, Decides validateNormalized f.2 := fun f hf =>
        ih f.2 (depth_of_mem_obj hf) (hinner f hf) ((depth_of_mem_obj hf).le.trans hvalue)
      rw [memberViolations, List.append_eq_nil_iff, List.append_eq_nil_iff, requiredViolations_iff,
        propertyViolations_iff hmembers hschema hsub hnodup,
        additionalViolations_iff hmembers hschema hsub]
      constructor
      · rintro ⟨htype, henum, ⟨hrequired, hproperties⟩, hclosed, hadditional⟩
        refine .intro htype henum ?_ ?_ ?_ ?_ nofun
        · rintro _ names ⟨⟩
          exact hrequired names
        · rintro _ declared ⟨⟩
          exact hproperties declared
        · rintro _ ⟨⟩
          exact hclosed
        · rintro _ extra ⟨⟩
          exact hadditional extra
      · rintro ⟨htype, henum, hrequired, hproperties, hclosed, hadditional, -⟩
        exact ⟨htype, henum, ⟨fun names => hrequired members names rfl,
          fun declared => hproperties members declared rfl⟩, hclosed members rfl,
          fun extra => hadditional members extra rfl⟩

/-- A schema and its normal form have the same values. -/
theorem satisfies_normal {value schema : Json N} :
    Satisfies value (normal schema) ↔ Satisfies value schema := by
  induction value using depthInd generalizing schema with
  | step value ih =>
    cases schema with
    | null | bool | num | str | arr =>
      rw [normal_of_not_obj]
      exact nofun
    | obj fields =>
      rw [normal_obj]
      have hdeclared : ∀ key, Declared (normalFields fields) key ↔ Declared fields key := by
        intro key
        unfold Declared
        constructor
        · rintro ⟨_, hlookup, hkey⟩
          obtain ⟨members, hmembers, rfl⟩ := (lookup_declared fields).mp hlookup
          exact ⟨members, hmembers, by rwa [map_fst_mapValues] at hkey⟩
        · rintro ⟨members, hmembers, hkey⟩
          exact ⟨_, (lookup_declared fields).mpr ⟨members, hmembers, rfl⟩,
            by rwa [map_fst_mapValues]⟩
      have hadditional : lookupField (normalFields fields) (js "additionalProperties") =
          (lookupField fields (js "additionalProperties")).map normal :=
        lookup_inner fields (by decide)
      have hitems : lookupField (normalFields fields) (js "items") =
          (lookupField fields (js "items")).map normal :=
        lookup_inner fields (by decide)
      constructor
      · rintro ⟨type, enum, required, properties, closed, additional, items⟩
        rw [lookup_plain fields (by decide)] at type enum required
        refine .intro type enum required ?_ ?_ ?_ ?_
        · rintro members declared rfl hlookup f hf v hv
          have hsat := properties members _ rfl ((lookup_declared fields).mpr ⟨declared, hlookup, rfl⟩)
            (f.1, normal f.2) (List.mem_map_of_mem hf) v hv
          exact (ih v (depth_of_mem_obj hv)).mp hsat
        · rintro members rfl hlookup f hf
          refine (hdeclared f.1).mp (closed members rfl ?_ f hf)
          rw [hadditional, hlookup]
          rfl
        · rintro members extra rfl hlookup f hf hnot
          rw [hadditional, hlookup, Option.map_some, normal_obj] at additional
          have hsat := additional members _ rfl rfl f hf (mt (hdeclared f.1).mp hnot)
          rw [← normal_obj] at hsat
          exact (ih f.2 (depth_of_mem_obj hf)).mp hsat
        · rintro values item rfl hlookup v hv
          rw [hitems, hlookup] at items
          exact (ih v (depth_of_mem_arr hv)).mp (items values _ rfl rfl v hv)
      · rintro ⟨type, enum, required, properties, closed, additional, items⟩
        rw [← lookup_plain fields (by decide)] at type enum required
        refine .intro type enum required ?_ ?_ ?_ ?_
        · rintro members declared rfl hlookup f hf v hv
          obtain ⟨inner, hinner, rfl⟩ := (lookup_declared fields).mp hlookup
          obtain ⟨g, hg, rfl⟩ := List.mem_map.mp hf
          exact (ih v (depth_of_mem_obj hv)).mpr (properties members inner rfl hinner g hg v hv)
        · rintro members rfl hlookup f hf
          rw [hadditional, Option.map_eq_some_iff] at hlookup
          obtain ⟨v, hv, hnormal⟩ := hlookup
          have hother : ∀ fields, (Json.bool false : Json N) ≠ .obj fields := nofun
          rw [(normal_eq_iff hother).mp hnormal] at hv
          exact (hdeclared f.1).mpr (closed members rfl hv f hf)
        · rintro members extra rfl hlookup f hf hnot
          rw [hadditional, Option.map_eq_some_iff] at hlookup
          obtain ⟨v, hv, hnormal⟩ := hlookup
          obtain ⟨inner, rfl, -⟩ := normal_eq_obj hnormal
          rw [← hnormal, ih f.2 (depth_of_mem_obj hf)]
          exact additional members inner rfl hv f hf (mt (hdeclared f.1).mpr hnot)
        · rintro values item rfl hlookup v hv
          rw [hitems, Option.map_eq_some_iff] at hlookup
          obtain ⟨inner, hinner, rfl⟩ := hlookup
          exact (ih v (depth_of_mem_arr hv)).mpr (items values inner rfl hinner v hv)

/-- The validation reports nothing exactly on a value and a schema within the depth limit, of
    which the schema is one of the subset and the value satisfies it. -/
theorem validateAgainstSchema_eq_nil {value schema : Json N} (hvalue : value.Owned)
    (hschema : schema.Owned) (path : JsString) :
    validateAgainstSchema value schema path = [] ↔
      value.depth ≤ maxJsonDepth ∧ schema.depth ≤ maxJsonDepth ∧ InSubset schema ∧
        Satisfies value schema := by
  rw [validateAgainstSchema]
  by_cases hdepth : value.depth ≤ maxJsonDepth
  · rw [parseJsonValue_ok hvalue hdepth]
    cases hnormalize : normalizeJsonSchema schema with
    | error errors =>
      have hout : ¬(schema.depth ≤ maxJsonDepth ∧ InSubset schema) := fun h => by
        have hok := (normalizeJsonSchema_eq_ok hschema).mpr ⟨h.1, h.2, rfl⟩
        rw [hnormalize] at hok
        cases hok
      simp only [List.map_eq_nil_iff, normalizeJsonSchema_errors hnormalize, false_iff]
      exact fun hall => hout ⟨hall.2.1, hall.2.2.1⟩
    | ok out =>
      obtain ⟨hschemaDepth, hsub, rfl⟩ := (normalizeJsonSchema_eq_ok hschema).mp hnormalize
      have hdecides := validateNormalized_decides hvalue hdepth (normal schema) path
        ((normal_depth schema).trans hschemaDepth) hsub.normal
      simp [hdecides, satisfies_normal, hdepth, hschemaDepth, hsub]
  · obtain ⟨e, he⟩ := parseJsonValue_error (not_le.mp hdepth)
    simp [he, hdepth]

/-- Both functions decide the subset and what its schemas mean, for every value and schema a
    program can hold. -/
theorem schema_decided (value schema : JsonValue N) (path : JsString) :
    ((∃ out, normalizeJsonSchema schema.1 = .ok out) ↔
      schema.1.depth ≤ maxJsonDepth ∧ InSubset schema.1) ∧
    (∀ out, normalizeJsonSchema schema.1 = .ok out →
      normalizeJsonSchema out = .ok out ∧ ∀ v, Satisfies v out ↔ Satisfies v schema.1) ∧
    (validateAgainstSchema value.1 schema.1 path = [] ↔
      value.1.depth ≤ maxJsonDepth ∧ schema.1.depth ≤ maxJsonDepth ∧ InSubset schema.1 ∧
        Satisfies value.1 schema.1) := by
  refine ⟨?_, fun out hok => ⟨normalizeJsonSchema_normal schema.2 hok, fun v => ?_⟩,
    validateAgainstSchema_eq_nil value.2 schema.2 path⟩
  · simp only [normalizeJsonSchema_eq_ok schema.2]
    exact ⟨fun ⟨out, hdepth, hsub, _⟩ => ⟨hdepth, hsub⟩,
      fun ⟨hdepth, hsub⟩ => ⟨_, hdepth, hsub, rfl⟩⟩
  · obtain ⟨-, -, rfl⟩ := (normalizeJsonSchema_eq_ok schema.2).mp hok
    exact satisfies_normal

end PiRlm.Core.Schema

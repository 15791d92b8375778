/-
  PiRlm.Core.SchemaSound

  The documented subset of JSON Schema, and that the normalization of `core/schema.ts`
  decides it.

  `InSubset` is stated keyword by keyword and names no function of the walk.  The walk of a
  schema of the subset reports nothing and returns its `normal` form, which is a schema of the
  subset again and its own normal form.
-/
import PiRlm.Core.Schema

namespace PiRlm.Core.Schema

open PiRlm.Lib PiRlm.Lib.Json

variable {N : Type}

-- ============================================================================
-- The documented subset
-- ============================================================================

/-- The documented subset: every keyword is supported and has the form it asks for, in the
    schema and in every schema inside it. -/
inductive InSubset : Json N → Prop
  | intro {fields : List (JsString × Json N)}
    (keywords : ∀ f ∈ fields, f.1 ∈ schemaKeywords)
    (type : ∀ v, lookupField fields (js "type") = some v →
      ∃ name ∈ supportedSchemaTypes, v = .str name)
    (required : ∀ v, lookupField fields (js "required") = some v →
      ∃ names : List JsString, names.Nodup ∧ v = .arr (names.map .str))
    (properties : ∀ v, lookupField fields (js "properties") = some v → ∃ members, v = .obj members)
    (property : ∀ members, lookupField fields (js "properties") = some (.obj members) →
      ∀ f ∈ members, InSubset f.2)
    (additional : ∀ v, lookupField fields (js "additionalProperties") = some v →
      (∃ allowed, v = .bool allowed) ∨ ∃ members, v = .obj members)
    (extra : ∀ members, lookupField fields (js "additionalProperties") = some (.obj members) →
      InSubset (.obj members))
    (items : ∀ v, lookupField fields (js "items") = some v → InSubset v)
    (enum : ∀ v, lookupField fields (js "enum") = some v →
      ∃ values, v = .arr values ∧ values ≠ [] ∧ (values.map canonical).Nodup) :
    InSubset (.obj fields)

-- ============================================================================
-- The normal form of a schema
-- ============================================================================

theorem depth_of_lookupField {fields : List (JsString × Json N)} {key : JsString} {v : Json N}
    (h : lookupField fields key = some v) : v.depth < (Json.obj fields).depth := by
  simp only [Json.depth]
  exact depthFields_le.mp (le_refl _) _ (mem_of_lookupField h)

theorem depth_of_mem_obj {fields : List (JsString × Json N)} {f : JsString × Json N}
    (h : f ∈ fields) : f.2.depth < (Json.obj fields).depth := by
  simp only [Json.depth]
  exact depthFields_le.mp (le_refl _) f h

theorem depth_of_mem_arr {items : List (Json N)} {v : Json N} (h : v ∈ items) :
    v.depth < (Json.arr items).depth := by
  simp only [Json.depth]
  exact depthItems_le.mp (le_refl _) v h

/-- What the walk leaves of the value of a keyword. -/
def normalKeyword (normal : Json N → Json N) (key : JsString) (value : Json N) : Json N :=
  if key = js "properties" then
    match value with
    | .obj members => .obj (members.map fun f => (f.1, normal f.2))
    | value => value
  else if key = js "additionalProperties" ∨ key = js "items" then normal value
  else value

/-- The body of `normal`. -/
def normalWith (normal : Json N → Json N) : Json N → Json N
  | .obj fields => .obj (schemaKeywords.filterMap fun key =>
      (lookupField fields key).map fun v => (key, normalKeyword normal key v))
  | v => v

/-- The normal form of a schema: its keywords in the order of the walk, in it and in every
    schema inside it. -/
def normal : Json N → Json N :=
  measured normalWith id Json.depth

theorem normalWith_descends : Descends (@normalWith N) Json.depth := by
  intro normal normal' schema h
  cases schema with
  | null | bool | num | str | arr => rfl
  | obj fields =>
    rw [normalWith, normalWith]
    congr 1
    refine List.filterMap_congr fun key _ => ?_
    cases hlookup : lookupField fields key with
    | none => rfl
    | some v =>
      have hv := depth_of_lookupField hlookup
      simp only [Option.map_some, normalKeyword, h v hv]
      cases v with
      | null | bool | num | str | arr => rfl
      | obj members =>
        have hmap : members.map (fun f => (f.1, normal f.2)) =
            members.map fun f => (f.1, normal' f.2) :=
          List.map_congr_left fun f hf => by rw [h f.2 ((depth_of_mem_obj hf).trans hv)]
        simp only [hmap]

theorem normal_eq (schema : Json N) : normal schema = normalWith normal schema :=
  measured_eq normalWith_descends schema


/-- What the walk leaves of a keyword. -/
def kept (normal : Json N → Json N) (fields : List (JsString × Json N)) (key : JsString) :
    List (JsString × Json N) :=
  ((lookupField fields key).map fun v => (key, normalKeyword normal key v)).toList

/-- The members of the normal form of an object. -/
def normalFields (fields : List (JsString × Json N)) : List (JsString × Json N) :=
  schemaKeywords.flatMap (kept normal fields)

theorem normal_obj (fields : List (JsString × Json N)) :
    normal (.obj fields) = .obj (normalFields fields) := by
  rw [normal_eq, normalWith, List.filterMap_eq_flatMap_toList]
  rfl

theorem normal_of_not_obj {v : Json N} (h : ∀ fields, v ≠ .obj fields) : normal v = v := by
  rw [normal_eq]
  cases v with
  | obj fields => exact absurd rfl (h fields)
  | null | bool | num | str | arr => rfl

theorem mem_kept {fields : List (JsString × Json N)} {key : JsString} {f : JsString × Json N} :
    f ∈ kept normal fields key ↔
      ∃ v, lookupField fields key = some v ∧ f = (key, normalKeyword normal key v) := by
  rw [kept, Option.mem_toList, Option.map_eq_some_iff]
  exact exists_congr fun v => and_congr_right fun _ => eq_comm

theorem mem_normalFields {fields : List (JsString × Json N)} {f : JsString × Json N} :
    f ∈ normalFields fields ↔ f.1 ∈ schemaKeywords ∧
      ∃ v, lookupField fields f.1 = some v ∧ f.2 = normalKeyword normal f.1 v := by
  rw [normalFields, List.mem_flatMap]
  constructor
  · rintro ⟨key, hkey, hf⟩
    obtain ⟨v, hv, rfl⟩ := mem_kept.mp hf
    exact ⟨hkey, v, hv, rfl⟩
  · rintro ⟨hkey, v, hv, hf⟩
    exact ⟨f.1, hkey, mem_kept.mpr ⟨v, hv, Prod.ext rfl hf⟩⟩

theorem lookupField_kept (fields : List (JsString × Json N)) (key k : JsString) :
    lookupField (kept normal fields key) k =
      if k = key then (lookupField fields key).map (normalKeyword normal key) else none := by
  rw [kept]
  cases lookupField fields key with
  | none => simp [lookupField]
  | some v =>
    by_cases h : k = key
    · simp [lookupField, h]
    · simp [lookupField, h, Ne.symm h]

/-- A keyword is found in the normal form where it is found in the schema. -/
theorem lookupField_normalFields (fields : List (JsString × Json N)) {key : JsString}
    (h : key ∈ schemaKeywords) : lookupField (normalFields fields) key =
      (lookupField fields key).map (normalKeyword normal key) := by
  rw [normalFields]
  generalize schemaKeywords = keys at h
  induction keys with
  | nil => cases h
  | cons k keys ih =>
    rw [List.flatMap_cons, lookupField_append, lookupField_kept]
    by_cases hk : key = k
    · subst hk
      rw [if_pos rfl]
      by_cases hmem : key ∈ keys
      · rw [ih hmem, Option.or_self]
      · have hnone : lookupField (keys.flatMap (kept normal fields)) key = none := by
          rw [← Option.not_isSome_iff_eq_none, lookupField_isSome, List.mem_map]
          rintro ⟨f, hf, rfl⟩
          obtain ⟨k, hk, hf⟩ := List.mem_flatMap.mp hf
          obtain ⟨v, -, rfl⟩ := mem_kept.mp hf
          exact hmem hk
        rw [hnone, Option.or_none]
    · rw [if_neg hk, Option.none_or, ih ((List.mem_cons.mp h).resolve_left hk)]

theorem keys_normalFields (fields : List (JsString × Json N)) :
    ((normalFields fields).map Prod.fst).Sublist schemaKeywords := by
  rw [normalFields]
  generalize schemaKeywords = keys
  induction keys with
  | nil => exact List.Sublist.refl _
  | cons key keys ih =>
    rw [List.flatMap_cons, List.map_append, kept]
    cases lookupField fields key with
    | none => exact ih.trans (List.sublist_cons_self key keys)
    | some v => exact ih.cons_cons key

/-- The schemas under a keyword of a schema are normalized; other values stay. -/
theorem normalKeyword_cases (key : JsString) (v : Json N) :
    (key = js "properties" ∧ ∃ members, v = .obj members ∧
        normalKeyword normal key v = .obj (members.map fun f => (f.1, normal f.2))) ∨
      normalKeyword normal key v = normal v ∨ normalKeyword normal key v = v := by
  unfold normalKeyword
  split_ifs with hkey hinner
  · cases v with
    | obj members => exact .inl ⟨hkey, members, rfl, rfl⟩
    | null | bool | num | str | arr => exact .inr (.inr rfl)
  · exact .inr (.inl rfl)
  · exact .inr (.inr rfl)

/-- Induction on nesting. -/
@[elab_as_elim]
theorem depthInd {motive : Json N → Prop}
    (step : ∀ v, (∀ w, w.depth < v.depth → motive w) → motive v) (v : Json N) : motive v := by
  induction h : v.depth using Nat.strong_induction_on generalizing v with
  | _ d ih =>
    subst h
    exact step v fun w hw => ih _ hw w rfl

theorem depth_members_le {members : List (JsString × Json N)} {g : Json N → Json N}
    (h : ∀ f ∈ members, (g f.2).depth ≤ f.2.depth) :
    (Json.obj (members.map fun f => (f.1, g f.2))).depth ≤ (Json.obj members).depth := by
  simp only [Json.depth]
  rw [depthFields_le, List.forall_mem_map]
  intro f hf
  exact (Nat.succ_le_succ (h f hf)).trans (depthFields_le.mp (le_refl _) f hf)

theorem normal_depth (schema : Json N) : (normal schema).depth ≤ schema.depth := by
  induction schema using depthInd with
  | step schema ih =>
    cases schema with
    | null | bool | num | str | arr =>
      rw [normal_of_not_obj]
      exact nofun
    | obj fields =>
      rw [normal_obj]
      simp only [Json.depth]
      refine depthFields_le.mpr fun f hf => ?_
      obtain ⟨-, v, hv, hf⟩ := mem_normalFields.mp hf
      have hdepth := depth_of_lookupField hv
      refine Nat.succ_le_of_lt (lt_of_le_of_lt ?_ hdepth)
      rw [hf]
      rcases normalKeyword_cases f.1 v with ⟨-, members, rfl, heq⟩ | heq | heq
      · rw [heq]
        exact depth_members_le fun g hg => ih g.2 ((depth_of_mem_obj hg).trans hdepth)
      · rw [heq]
        exact ih v hdepth
      · rw [heq]

theorem owned_members {members : List (JsString × Json N)} {g : Json N → Json N}
    (h : (Json.obj members).Owned) (hg : ∀ f ∈ members, (g f.2).Owned) :
    (Json.obj (members.map fun f => (f.1, g f.2))).Owned := by
  rw [owned_obj, ← isOwned_obj] at h ⊢
  refine ⟨?_, List.forall_mem_map.mpr hg⟩
  have hkeys := map_fst_mapValues g members
  simp only [isOwned, hkeys] at h ⊢
  exact h.1

theorem normal_owned {schema : Json N} (h : schema.Owned) : (normal schema).Owned := by
  induction schema using depthInd with
  | step schema ih =>
    cases schema with
    | null | bool | num | str | arr =>
      rw [normal_of_not_obj]
      · exact h
      · exact nofun
    | obj fields =>
      rw [normal_obj]
      have hmembers := (owned_obj.mp h).2
      refine owned_obj.mpr ⟨⟨(keys_normalFields fields).nodup (by decide), ?_⟩, fun f hf => ?_⟩
      · refine ownOrder_eq_self fun f hf => ?_
        have hkey := (keys_normalFields fields).subset (List.mem_map_of_mem hf)
        revert hkey
        generalize f.1 = key
        revert key
        decide
      · obtain ⟨-, v, hv, hf⟩ := mem_normalFields.mp hf
        have hdepth := depth_of_lookupField hv
        have howned := hmembers _ (mem_of_lookupField hv)
        rw [hf]
        rcases normalKeyword_cases f.1 v with ⟨-, members, rfl, heq⟩ | heq | heq
        · rw [heq]
          exact owned_members howned fun g hg =>
            ih g.2 ((depth_of_mem_obj hg).trans hdepth) ((owned_obj.mp howned).2 g hg)
        · rw [heq]
          exact ih v hdepth howned
        · rw [heq]
          exact howned

theorem normal_normal (schema : Json N) : normal (normal schema) = normal schema := by
  induction schema using depthInd with
  | step schema ih =>
    cases schema with
    | null | bool | num | str | arr =>
      rw [normal_of_not_obj, normal_of_not_obj]
      all_goals exact nofun
    | obj fields =>
      rw [normal_obj, normal_obj]
      congr 1
      refine List.flatMap_congr fun key hkey => ?_
      rw [kept, lookupField_normalFields fields hkey, kept, Option.map_map]
      congr 1
      refine Option.map_congr fun v hv => ?_
      have hdepth := depth_of_lookupField hv
      have hstable : normalKeyword normal key (normalKeyword normal key v) =
          normalKeyword normal key v := by
        unfold normalKeyword
        split_ifs
        · cases v with
          | null | bool | num | str | arr => rfl
          | obj members =>
            simp only [List.map_map, Json.obj.injEq]
            refine List.map_congr_left fun f hf => ?_
            simp only [Function.comp, ih f.2 ((depth_of_mem_obj hf).trans hdepth)]
        · exact ih v hdepth
        · rfl
      simp only [Function.comp, hstable]

-- ============================================================================
-- The parts of the walk
-- ============================================================================

theorem walkKeywords_errors {fields : List (JsString × Json N)} {path : JsString} :
    (walkKeywords fields path).errors = [] ↔ ∀ f ∈ fields, f.1 ∈ schemaKeywords := by
  simp [walkKeywords, List.filter_eq_nil_iff]

theorem walkType_errors {fields : List (JsString × Json N)} {path : JsString} :
    (walkType fields path).errors = [] ↔ ∀ v, lookupField fields (js "type") = some v →
      ∃ name ∈ supportedSchemaTypes, v = .str name := by
  unfold walkType
  cases lookupField fields (js "type") with
  | none => simp [Walked.nothing]
  | some v =>
    cases v with
    | str name => by_cases h : name ∈ supportedSchemaTypes <;> simp [h, Walked.assigned, Walked.failed]
    | null | bool | num | arr | obj => simp [Walked.failed]

theorem requiredErrors_eq_nil {path : JsString} {names : List (Json N)} {index : Nat}
    {seen : List JsString} : requiredErrors path names index seen = [] ↔
      ∃ strings : List JsString, strings.Nodup ∧ (∀ s ∈ strings, s ∉ seen) ∧
        names = strings.map .str := by
  induction names generalizing index seen with
  | nil => simp [requiredErrors]
  | cons v rest ih =>
    constructor
    · intro h
      cases v with
      | null | bool | num | arr | obj => cases h
      | str name =>
        rw [requiredErrors] at h
        split_ifs at h with hseen
        obtain ⟨strings, hnodup, hnew, rfl⟩ := ih.mp h
        refine ⟨name :: strings, List.nodup_cons.mpr ⟨fun hmem => ?_, hnodup⟩, ?_, rfl⟩
        · exact hnew name hmem List.mem_cons_self
        · rw [List.forall_mem_cons]
          exact ⟨hseen, fun s hs hold => hnew s hs (List.mem_cons_of_mem name hold)⟩
    · rintro ⟨strings, hnodup, hnew, hnames⟩
      cases strings with
      | nil => cases hnames
      | cons name strings =>
        obtain ⟨rfl, rfl⟩ := List.cons.inj hnames
        rw [List.nodup_cons] at hnodup
        rw [List.forall_mem_cons] at hnew
        rw [requiredErrors, if_neg hnew.1, ih]
        refine ⟨strings, hnodup.2, fun s hs hmem => ?_, rfl⟩
        rcases List.mem_cons.mp hmem with rfl | hmem
        · exact hnodup.1 hs
        · exact hnew.2 s hs hmem

theorem walkRequired_errors {fields : List (JsString × Json N)} {path : JsString} :
    (walkRequired fields path).errors = [] ↔ ∀ v, lookupField fields (js "required") = some v →
      ∃ names : List JsString, names.Nodup ∧ v = .arr (names.map .str) := by
  unfold walkRequired
  cases lookupField fields (js "required") with
  | none => simp [Walked.nothing]
  | some v =>
    cases v with
    | arr names => simp [requiredErrors_eq_nil]
    | null | bool | num | str | obj => simp [Walked.failed]

/-- The walk of a schema reports nothing exactly on a schema of the subset, and then leaves
    its normal form. -/
structure WalkSpec (walk : Json N → JsString → Walked N) (fields : List (JsString × Json N)) :
    Prop where
  errors : ∀ path, (walk (.obj fields) path).errors = [] ↔ InSubset (.obj fields)
  fields : ∀ path, InSubset (.obj fields) →
    Json.obj (walk (.obj fields) path).fields = normal (.obj fields)

theorem InSubset.isObj {v : Json N} (h : InSubset v) : ∃ fields, v = .obj fields := by
  cases h
  exact ⟨_, rfl⟩

section Parts

variable {walk : Json N → JsString → Walked N} {fields : List (JsString × Json N)}

theorem walkProperty_errors {v : Json N} (h : ∀ inner, v = .obj inner → WalkSpec walk inner)
    (path : JsString) : (walkProperty walk path v).2 = [] ↔ InSubset v := by
  cases v with
  | obj inner => exact (h inner rfl).errors path
  | null | bool | num | str | arr =>
    refine ⟨nofun, fun hv => ?_⟩
    obtain ⟨_, hobj⟩ := hv.isObj
    cases hobj

theorem walkProperty_fields {v : Json N} (h : ∀ inner, v = .obj inner → WalkSpec walk inner)
    (hv : InSubset v) (path : JsString) : (walkProperty walk path v).1 = some (normal v) := by
  obtain ⟨inner, rfl⟩ := hv.isObj
  exact congrArg some ((h inner rfl).fields path hv)

variable (h : ∀ inner, (Json.obj inner).depth < (Json.obj fields).depth → WalkSpec walk inner)
include h

theorem walkProperties_errors (path : JsString) : (walkProperties walk fields path).errors = [] ↔
    (∀ v, lookupField fields (js "properties") = some v → ∃ members, v = .obj members) ∧
      ∀ members, lookupField fields (js "properties") = some (.obj members) →
        ∀ f ∈ members, InSubset f.2 := by
  unfold walkProperties
  cases hlookup : lookupField fields (js "properties") with
  | none => simp [Walked.nothing]
  | some v =>
    cases v with
    | null | bool | num | str | arr => simp [Walked.failed]
    | obj members =>
      have hmember : ∀ f ∈ members, ∀ path, (walkProperty walk path f.2).2 = [] ↔ InSubset f.2 :=
        fun f hf => walkProperty_errors fun inner hinner => h inner
          (hinner ▸ (depth_of_mem_obj hf).trans (depth_of_lookupField hlookup))
      simp only [List.flatMap_eq_nil_iff, List.forall_mem_map]
      constructor
      · intro hall
        refine ⟨fun v hv => ⟨members, (Option.some.inj hv).symm⟩, ?_⟩
        rintro _ ⟨⟩ f hf
        exact (hmember f hf _).mp (hall f hf)
      · intro hall f hf
        exact (hmember f hf _).mpr (hall.2 members rfl f hf)

theorem walkProperties_fields (hobj : ∀ v, lookupField fields (js "properties") = some v →
      ∃ members, v = .obj members)
    (hsub : ∀ members, lookupField fields (js "properties") = some (.obj members) →
      ∀ f ∈ members, InSubset f.2) (path : JsString) :
    (walkProperties walk fields path).fields = kept normal fields (js "properties") := by
  unfold walkProperties kept
  cases hlookup : lookupField fields (js "properties") with
  | none => rfl
  | some v =>
    obtain ⟨members, rfl⟩ := hobj v hlookup
    have hmember : ∀ f ∈ members, ∀ path, (walkProperty walk path f.2).1 = some (normal f.2) :=
      fun f hf => walkProperty_fields (fun inner hinner => h inner
        (hinner ▸ (depth_of_mem_obj hf).trans (depth_of_lookupField hlookup)))
        (hsub members hlookup f hf)
    have hmap : (members.map fun f =>
          (f.1, walkProperty walk (childPath (path ++ js ".properties") f.1) f.2)).filterMap
          (fun w => w.2.1.map fun schema => (w.1, schema)) =
        members.map fun f => (f.1, normal f.2) := by
      rw [List.filterMap_map, ← List.filterMap_eq_map]
      refine List.filterMap_congr fun f hf => ?_
      simp only [Function.comp, hmember f hf, Option.map_some]
    simp only [hmap]
    rfl

theorem walkAdditional_errors (path : JsString) : (walkAdditional walk fields path).errors = [] ↔
    (∀ v, lookupField fields (js "additionalProperties") = some v →
      (∃ allowed, v = .bool allowed) ∨ ∃ members, v = .obj members) ∧
      ∀ members, lookupField fields (js "additionalProperties") = some (.obj members) →
        InSubset (.obj members) := by
  unfold walkAdditional
  cases hlookup : lookupField fields (js "additionalProperties") with
  | none => simp [Walked.nothing]
  | some v =>
    cases v with
    | null | num | str | arr => simp [Walked.failed]
    | bool allowed => simp [Walked.assigned]
    | obj members => simp [(h members (depth_of_lookupField hlookup)).errors]

theorem walkAdditional_fields
    (hobj : ∀ v, lookupField fields (js "additionalProperties") = some v →
      (∃ allowed, v = .bool allowed) ∨ ∃ members, v = .obj members)
    (hsub : ∀ members, lookupField fields (js "additionalProperties") = some (.obj members) →
      InSubset (.obj members)) (path : JsString) :
    (walkAdditional walk fields path).fields = kept normal fields (js "additionalProperties") := by
  unfold walkAdditional kept
  cases hlookup : lookupField fields (js "additionalProperties") with
  | none => rfl
  | some v =>
    rcases hobj v hlookup with ⟨allowed, rfl⟩ | ⟨members, rfl⟩
    · rfl
    · have hspec := h members (depth_of_lookupField hlookup)
      simp only [hspec.fields _ (hsub members hlookup)]
      rfl

theorem walkItems_errors (path : JsString) : (walkItems walk fields path).errors = [] ↔
    ∀ v, lookupField fields (js "items") = some v → InSubset v := by
  unfold walkItems
  cases hlookup : lookupField fields (js "items") with
  | none => simp [Walked.nothing]
  | some v =>
    cases v with
    | obj members => simp [(h members (depth_of_lookupField hlookup)).errors]
    | null | bool | num | str | arr =>
      refine ⟨nofun, fun hall => ?_⟩
      obtain ⟨_, hobj⟩ := (hall _ rfl).isObj
      cases hobj

theorem walkItems_fields (hsub : ∀ v, lookupField fields (js "items") = some v → InSubset v)
    (path : JsString) : (walkItems walk fields path).fields = kept normal fields (js "items") := by
  unfold walkItems kept
  cases hlookup : lookupField fields (js "items") with
  | none => rfl
  | some v =>
    obtain ⟨members, rfl⟩ := (hsub v hlookup).isObj
    simp only [(h members (depth_of_lookupField hlookup)).fields _ (hsub _ hlookup)]
    rfl

end Parts

theorem walkType_fields {fields : List (JsString × Json N)}
    (h : ∀ v, lookupField fields (js "type") = some v →
      ∃ name ∈ supportedSchemaTypes, v = .str name) (path : JsString) :
    (walkType fields path).fields = kept normal fields (js "type") := by
  unfold walkType kept
  cases hlookup : lookupField fields (js "type") with
  | none => rfl
  | some v =>
    obtain ⟨name, hname, rfl⟩ := h v hlookup
    simp only [if_pos hname]
    rfl

theorem walkRequired_fields {fields : List (JsString × Json N)}
    (h : ∀ v, lookupField fields (js "required") = some v →
      ∃ names : List JsString, names.Nodup ∧ v = .arr (names.map .str)) (path : JsString) :
    (walkRequired fields path).fields = kept normal fields (js "required") := by
  unfold walkRequired kept
  cases hlookup : lookupField fields (js "required") with
  | none => rfl
  | some v =>
    obtain ⟨names, hnodup, rfl⟩ := h v hlookup
    have hnil : requiredErrors (path ++ js ".required") (names.map (Json.str (N := N))) 0 [] = [] :=
      requiredErrors_eq_nil.mpr ⟨names, hnodup, by simp, rfl⟩
    simp only [hnil]
    rfl

variable [JsonNumber N]

theorem enumErrors_eq_nil {path : JsString} {values : List (Json N)} {index : Nat}
    {identities : List (Except JsString JsString)} :
    enumErrors path values index identities = [] ↔
      (values.map canonicalStringify).Nodup ∧ ∀ v ∈ values, canonicalStringify v ∉ identities := by
  induction values generalizing index identities with
  | nil => simp [enumErrors]
  | cons v rest ih =>
    have hhead : (if canonicalStringify v ∈ identities then
          [(⟨itemPath path index, js "enum values must be canonically unique"⟩ : SchemaError)]
        else []) = [] ↔ canonicalStringify v ∉ identities := by
      by_cases hmem : canonicalStringify v ∈ identities <;> simp [hmem]
    rw [enumErrors, List.append_eq_nil_iff, hhead, ih, List.map_cons, List.nodup_cons,
      List.forall_mem_cons]
    simp only [List.mem_cons, not_or, forall_and, List.mem_map, not_exists, not_and]
    tauto

/-- Within the depth limit the identity of a value is its canonical form. -/
theorem nodup_identities {values : List (Json N)} (h : ∀ v ∈ values, v.depth ≤ maxJsonDepth) :
    (values.map canonicalStringify).Nodup ↔ (values.map canonical).Nodup := by
  have hmap : values.map canonicalStringify =
      (values.map canonical).map fun v => (.ok v.render : Except JsString JsString) := by
    rw [List.map_map]
    exact List.map_congr_left fun v hv => canonicalStringify_ok (h v hv)
  rw [hmap, List.nodup_map_iff]
  intro v w heq
  exact render_injective (Except.ok.inj heq)

section Enum

variable {fields : List (JsString × Json N)} (h : (Json.obj fields).depth ≤ maxJsonDepth)
include h

theorem enumErrors_iff {values : List (Json N)}
    (hlookup : lookupField fields (js "enum") = some (.arr values)) (path : JsString) :
    enumErrors path values 0 [] = [] ↔ (values.map canonical).Nodup := by
  have hdepth : ∀ v ∈ values, v.depth ≤ maxJsonDepth := by
    intro v hv
    have hlt := (depth_of_mem_arr hv).trans (depth_of_lookupField hlookup)
    omega
  rw [enumErrors_eq_nil, nodup_identities hdepth]
  simp

theorem walkEnum_errors (path : JsString) : (walkEnum fields path).errors = [] ↔
    ∀ v, lookupField fields (js "enum") = some v →
      ∃ values, v = .arr values ∧ values ≠ [] ∧ (values.map canonical).Nodup := by
  unfold walkEnum
  cases hlookup : lookupField fields (js "enum") with
  | none => simp [Walked.nothing]
  | some v =>
    cases v with
    | null | bool | num | str | obj => simp [Walked.failed]
    | arr values =>
      cases values with
      | nil => simp [Walked.failed]
      | cons value rest => simp [enumErrors_iff h hlookup]

theorem walkEnum_fields (hsub : ∀ v, lookupField fields (js "enum") = some v →
      ∃ values, v = .arr values ∧ values ≠ [] ∧ (values.map canonical).Nodup) (path : JsString) :
    (walkEnum fields path).fields = kept normal fields (js "enum") := by
  unfold walkEnum kept
  cases hlookup : lookupField fields (js "enum") with
  | none => rfl
  | some v =>
    obtain ⟨values, rfl, hne, hnodup⟩ := hsub v hlookup
    cases values with
    | nil => exact absurd rfl hne
    | cons value rest =>
      simp only [(enumErrors_iff h hlookup (path ++ js ".enum")).mpr hnodup]
      rfl

end Enum

-- ============================================================================
-- The walk
-- ============================================================================

/-- The body of the walk only looks into the schemas inside its argument. -/
theorem walkWith_descends : Descends (@walkWith N _) Json.depth := by
  intro walk walk' schema h
  cases schema with
  | null | bool | num | str | arr => rfl
  | obj fields =>
    have hproperties : ∀ path,
        walkProperties walk fields path = walkProperties walk' fields path := by
      intro path
      unfold walkProperties
      cases hlookup : lookupField fields (js "properties") with
      | none => rfl
      | some v =>
        cases v with
        | null | bool | num | str | arr => rfl
        | obj properties =>
          have hmember : ∀ f ∈ properties, ∀ path,
              walkProperty walk path f.2 = walkProperty walk' path f.2 := by
            intro f hf path
            cases hv : f.2 with
            | null | bool | num | str | arr => rfl
            | obj schema =>
              have hdepth := (depth_of_mem_obj hf).trans (depth_of_lookupField hlookup)
              simp only [walkProperty, h (.obj schema) (hv ▸ hdepth)]
          have hmap : (properties.map fun f =>
                (f.1, walkProperty walk (childPath (path ++ js ".properties") f.1) f.2)) =
              properties.map fun f =>
                (f.1, walkProperty walk' (childPath (path ++ js ".properties") f.1) f.2) :=
            List.map_congr_left fun f hf => by rw [hmember f hf]
          simp only [hmap]
    have hadditional : ∀ path,
        walkAdditional walk fields path = walkAdditional walk' fields path := by
      intro path
      unfold walkAdditional
      cases hlookup : lookupField fields (js "additionalProperties") with
      | none => rfl
      | some v =>
        cases v with
        | null | bool | num | str | arr => rfl
        | obj additional => simp only [h (.obj additional) (depth_of_lookupField hlookup)]
    have hitems : ∀ path, walkItems walk fields path = walkItems walk' fields path := by
      intro path
      unfold walkItems
      cases hlookup : lookupField fields (js "items") with
      | none => rfl
      | some v =>
        cases v with
        | null | bool | num | str | arr => rfl
        | obj items => simp only [h (.obj items) (depth_of_lookupField hlookup)]
    funext path
    simp only [walkWith, hproperties, hadditional, hitems]

theorem walk_eq (schema : Json N) : walk schema = walkWith walk schema :=
  measured_eq walkWith_descends schema

/-- The walk decides the subset and returns the normal form. -/
theorem walk_spec {fields : List (JsString × Json N)}
    (h : (Json.obj fields).depth ≤ maxJsonDepth) : WalkSpec walk fields := by
  generalize hdepth : (Json.obj fields).depth = d
  induction d using Nat.strong_induction_on generalizing fields with
  | _ d ih =>
    subst hdepth
    have hinner : ∀ inner, (Json.obj inner).depth < (Json.obj fields).depth →
        WalkSpec walk inner :=
      fun inner hlt => ih _ hlt (hlt.le.trans h) rfl
    constructor
    · intro path
      have hparts : (walk (.obj fields) path).errors = [] ↔
          (walkKeywords fields path).errors = [] ∧ (walkType fields path).errors = [] ∧
          (walkRequired fields path).errors = [] ∧ (walkProperties walk fields path).errors = [] ∧
          (walkAdditional walk fields path).errors = [] ∧ (walkItems walk fields path).errors = [] ∧
          (walkEnum fields path).errors = [] := by
        rw [walk_eq, walkWith]
        simp only [List.flatMap_eq_nil_iff, List.forall_mem_cons, List.not_mem_nil,
          false_implies, implies_true, and_true]
      rw [hparts, walkKeywords_errors, walkType_errors, walkRequired_errors,
        walkProperties_errors hinner, walkAdditional_errors hinner, walkItems_errors hinner,
        walkEnum_errors h]
      constructor
      · rintro ⟨hkeywords, htype, hrequired, ⟨hproperties, hproperty⟩, ⟨hadditional, hextra⟩,
          hitems, henum⟩
        exact .intro hkeywords htype hrequired hproperties hproperty hadditional hextra hitems henum
      · rintro ⟨hkeywords, htype, hrequired, hproperties, hproperty, hadditional, hextra, hitems,
          henum⟩
        exact ⟨hkeywords, htype, hrequired, ⟨hproperties, hproperty⟩, ⟨hadditional, hextra⟩,
          hitems, henum⟩
    · rintro path ⟨hkeywords, htype, hrequired, hproperties, hproperty, hadditional, hextra, hitems,
        henum⟩
      rw [normal_obj, walk_eq, walkWith]
      simp only [normalFields, schemaKeywords, List.flatMap_cons, List.flatMap_nil, walkType_fields htype,
        walkRequired_fields hrequired, walkProperties_fields hinner hproperties hproperty,
        walkAdditional_fields hinner hadditional hextra, walkItems_fields hinner hitems,
        walkEnum_fields h henum]
      rfl

-- ============================================================================
-- Normalization
-- ============================================================================

section Lookup

omit [JsonNumber N]

variable (fields : List (JsString × Json N))

/-- The keywords that hold no schema keep their values. -/
theorem lookup_plain {key : JsString} (hkey : key ∈ [js "type", js "required", js "enum"]) :
    lookupField (normalFields fields) key = lookupField fields key := by
  have hmem : key ∈ schemaKeywords := by
    revert hkey
    revert key
    decide
  have hid : normalKeyword (N := N) normal key = id := by
    funext v
    have hproperties : key ≠ js "properties" := by
      rintro rfl
      revert hkey
      decide
    have hinner : ¬(key = js "additionalProperties" ∨ key = js "items") := by
      rintro (rfl | rfl) <;> revert hkey <;> decide
    unfold normalKeyword
    rw [if_neg hproperties, if_neg hinner]
    rfl
  rw [lookupField_normalFields fields hmem, hid, Option.map_id_fun, id]

theorem lookup_properties : lookupField (normalFields fields) (js "properties") =
    (lookupField fields (js "properties")).map (normalKeyword normal (js "properties")) :=
  lookupField_normalFields fields (by decide)

theorem lookup_inner {key : JsString}
    (hkey : key ∈ [js "additionalProperties", js "items"]) :
    lookupField (normalFields fields) key = (lookupField fields key).map normal := by
  have hmem : key ∈ schemaKeywords := by
    revert hkey
    revert key
    decide
  have hnormal : normalKeyword (N := N) normal key = normal := by
    funext v
    have hproperties : key ≠ js "properties" := by
      rintro rfl
      revert hkey
      decide
    unfold normalKeyword
    rw [if_neg hproperties, if_pos (by simpa using hkey)]
  rw [lookupField_normalFields fields hmem, hnormal]

/-- A value with a normal form that is an object is an object itself. -/
theorem normal_eq_obj {v : Json N} {members : List (JsString × Json N)}
    (h : normal v = .obj members) : ∃ fields, v = .obj fields ∧ members = normalFields fields := by
  cases v with
  | obj fields =>
    rw [normal_obj] at h
    exact ⟨fields, rfl, (Json.obj.inj h).symm⟩
  | null | bool | num | str | arr =>
    rw [normal_of_not_obj] at h
    · cases h
    · exact nofun

theorem normal_eq_iff {v w : Json N} (h : ∀ fields, w ≠ .obj fields) : normal v = w ↔ v = w := by
  cases v with
  | obj fields =>
    rw [normal_obj]
    exact ⟨fun heq => absurd heq.symm (h _), fun heq => absurd heq.symm (h _)⟩
  | null | bool | num | str | arr =>
    rw [normal_of_not_obj]
    exact nofun

theorem normalKeyword_properties (v : Json N) : normalKeyword normal (js "properties") v =
    match v with
    | .obj members => .obj (members.map fun f => (f.1, normal f.2))
    | v => v := by
  unfold normalKeyword
  exact if_pos rfl

/-- The declared properties of the normal form. -/
theorem lookup_declared {declared : List (JsString × Json N)} :
    lookupField (normalFields fields) (js "properties") = some (.obj declared) ↔
      ∃ members, lookupField fields (js "properties") = some (.obj members) ∧
        declared = members.map fun f => (f.1, normal f.2) := by
  rw [lookup_properties, Option.map_eq_some_iff]
  constructor
  · rintro ⟨v, hv, heq⟩
    rw [normalKeyword_properties] at heq
    cases v with
    | obj members => exact ⟨members, hv, (Json.obj.inj heq).symm⟩
    | null | bool | num | str | arr => cases heq
  · rintro ⟨members, hv, rfl⟩
    exact ⟨_, hv, normalKeyword_properties _⟩

end Lookup

omit [JsonNumber N] in
/-- The normal form of a schema of the subset is one. -/
theorem InSubset.normal {schema : Json N} (h : InSubset schema) : InSubset (normal schema) := by
  induction h with
  | @intro fields keywords type required properties property additional extra items enum
      ihproperty ihextra ihitems =>
    rw [normal_obj]
    constructor
    · exact fun f hf => (mem_normalFields.mp hf).1
    · rw [lookup_plain fields (by decide)]
      exact type
    · rw [lookup_plain fields (by decide)]
      exact required
    · intro v hv
      obtain ⟨w, hw, rfl⟩ := Option.map_eq_some_iff.mp ((lookup_properties fields).symm.trans hv)
      obtain ⟨members, rfl⟩ := properties w hw
      exact ⟨_, normalKeyword_properties _⟩
    · intro declared hdeclared
      obtain ⟨members, hmembers, rfl⟩ := (lookup_declared fields).mp hdeclared
      exact List.forall_mem_map.mpr (ihproperty members hmembers)
    · intro v hv
      rw [lookup_inner fields (by decide)] at hv
      obtain ⟨w, hw, rfl⟩ := Option.map_eq_some_iff.mp hv
      rcases additional w hw with ⟨allowed, rfl⟩ | ⟨members, rfl⟩
      · exact .inl ⟨allowed, normal_of_not_obj nofun⟩
      · exact .inr ⟨_, normal_obj members⟩
    · intro members hv
      rw [lookup_inner fields (by decide)] at hv
      obtain ⟨w, hw, hobj⟩ := Option.map_eq_some_iff.mp hv
      obtain ⟨inner, rfl, -⟩ := normal_eq_obj hobj
      rw [← hobj]
      exact ihextra inner hw
    · intro v hv
      rw [lookup_inner fields (by decide)] at hv
      obtain ⟨w, hw, rfl⟩ := Option.map_eq_some_iff.mp hv
      exact ihitems w hw
    · rw [lookup_plain fields (by decide)]
      exact enum

omit [JsonNumber N] in
theorem lookupField_normalFields_of_not_mem {fields : List (JsString × Json N)} {key : JsString}
    (h : key ∉ schemaKeywords) : lookupField (normalFields fields) key = none := by
  rw [← Option.not_isSome_iff_eq_none, lookupField_isSome]
  exact fun hkey => h ((keys_normalFields fields).subset hkey)

omit [JsonNumber N] in
/-- On a schema of the subset the walk changes no more than the order of the keywords. -/
theorem InSubset.canonical_normal {schema : Json N} (h : InSubset schema) (howned : schema.Owned) :
    canonical (Schema.normal schema) = canonical schema := by
  induction h with
  | @intro fields keywords type required properties property additional extra items enum
      ihproperty ihextra ihitems =>
    obtain ⟨hfields, hmembers⟩ := owned_obj.mp howned
    rw [normal_obj]
    apply canonical_obj_ext ((keys_normalFields fields).nodup (by decide)) hfields.1
    intro key
    by_cases hkey : key ∈ schemaKeywords
    · rw [lookupField_normalFields fields hkey, Option.map_map]
      refine Option.map_congr fun v hv => ?_
      have hv' := hmembers _ (mem_of_lookupField hv)
      show canonical (normalKeyword Schema.normal key v) = canonical v
      unfold normalKeyword
      split_ifs with hproperties hinner
      · -- the declared properties, each one a schema
        subst hproperties
        obtain ⟨members, rfl⟩ := properties v hv
        obtain ⟨hdeclared, hinner⟩ := owned_obj.mp hv'
        apply canonical_obj_congr
        rw [canonicalFields_eq_map, canonicalFields_eq_map, List.map_map]
        apply List.map_congr_left
        intro f hf
        show (f.1, canonical (Schema.normal f.2)) = (f.1, canonical f.2)
        rw [ihproperty members hv f hf (hinner f hf)]
      · rcases hinner with rfl | rfl
        · rcases additional v hv with ⟨allowed, rfl⟩ | ⟨members, rfl⟩
          · rw [normal_of_not_obj]
            exact nofun
          · exact ihextra members hv hv'
        · exact ihitems v hv hv'
      · rfl
    · have hnone : lookupField fields key = none := by
        rw [← Option.not_isSome_iff_eq_none, lookupField_isSome, List.mem_map]
        rintro ⟨f, hf, rfl⟩
        exact hkey (keywords f hf)
      rw [lookupField_normalFields_of_not_mem hkey, hnone]

omit [JsonNumber N] in
/-- The canonical form of a schema of the subset is one. -/
theorem InSubset.canonical {schema : Json N} (h : InSubset schema) (howned : schema.Owned) :
    InSubset (canonical schema) := by
  induction h with
  | @intro fields keywords type required properties property additional extra items enum
      ihproperty ihextra ihitems =>
    obtain ⟨hfields, hmembers⟩ := owned_obj.mp howned
    have hlookup := lookupField_canonicalMembers hfields.1
    have hmember : ∀ {key : JsString} {v : Json N},
        lookupField (canonicalMembers fields) key = some v →
          ∃ w, lookupField fields key = some w ∧ w.Owned ∧ v = Core.canonical w := by
      intro key v hv
      obtain ⟨w, hw, rfl⟩ := Option.map_eq_some_iff.mp ((hlookup key).symm.trans hv)
      exact ⟨w, hw, hmembers _ (mem_of_lookupField hw), rfl⟩
    rw [canonical_obj_members]
    constructor
    · intro f hf
      obtain ⟨g, hg, rfl⟩ := List.mem_map.mp ((canonicalMembers_perm hfields.1).mem_iff.mp hf)
      exact keywords g hg
    · intro v hv
      obtain ⟨w, hw, -, rfl⟩ := hmember hv
      obtain ⟨name, hname, rfl⟩ := type w hw
      exact ⟨name, hname, rfl⟩
    · intro v hv
      obtain ⟨w, hw, -, rfl⟩ := hmember hv
      obtain ⟨names, hnames, rfl⟩ := required w hw
      refine ⟨names, hnames, ?_⟩
      rw [canonical_arr, List.map_map]
      rfl
    · intro v hv
      obtain ⟨w, hw, -, rfl⟩ := hmember hv
      obtain ⟨members, rfl⟩ := properties w hw
      exact ⟨_, canonical_obj_members members⟩
    · intro declared hv f hf
      obtain ⟨w, hw, hwowned, heq⟩ := hmember hv
      obtain ⟨members, rfl⟩ := properties w hw
      obtain ⟨hinner, hvalues⟩ := owned_obj.mp hwowned
      rw [canonical_obj_members] at heq
      obtain rfl := Json.obj.inj heq
      obtain ⟨g, hg, rfl⟩ := List.mem_map.mp ((canonicalMembers_perm hinner.1).mem_iff.mp hf)
      exact ihproperty members hw g hg (hvalues g hg)
    · intro v hv
      obtain ⟨w, hw, -, rfl⟩ := hmember hv
      rcases additional w hw with ⟨allowed, rfl⟩ | ⟨members, rfl⟩
      · exact .inl ⟨allowed, rfl⟩
      · exact .inr ⟨_, canonical_obj_members members⟩
    · intro members hv
      obtain ⟨w, hw, hwowned, heq⟩ := hmember hv
      rcases additional w hw with ⟨allowed, rfl⟩ | ⟨inner, rfl⟩
      · cases heq
      · rw [heq]
        exact ihextra inner hw hwowned
    · intro v hv
      obtain ⟨w, hw, hwowned, rfl⟩ := hmember hv
      exact ihitems w hw hwowned
    · intro v hv
      obtain ⟨w, hw, hwowned, rfl⟩ := hmember hv
      obtain ⟨values, rfl, hne, hnodup⟩ := enum w hw
      refine ⟨values.map Core.canonical, canonical_arr values, ?_, ?_⟩
      · intro hnil
        exact hne (List.map_eq_nil_iff.mp hnil)
      · -- the canonical form of a canonical value is the value
        have hsame : (values.map Core.canonical).map Core.canonical =
            values.map Core.canonical := by
          rw [List.map_map]
          apply List.map_congr_left
          intro value hvalue
          exact canonical_canonical (owned_arr.mp hwowned value hvalue)
        rw [hsame]
        exact hnodup

/-- The normalization accepts exactly the schemas of the subset within the depth limit, and
    returns their normal form. -/
theorem normalizeJsonSchema_eq_ok {schema out : Json N} (h : schema.Owned) :
    normalizeJsonSchema schema = .ok out ↔
      schema.depth ≤ maxJsonDepth ∧ InSubset schema ∧ out = normal schema := by
  by_cases hdepth : schema.depth ≤ maxJsonDepth
  · rw [normalizeJsonSchema, parseJsonValue_ok h hdepth]
    cases schema with
    | null | bool | num | str | arr =>
      refine ⟨nofun, fun hok => ?_⟩
      obtain ⟨_, hobj⟩ := hok.2.1.isObj
      cases hobj
    | obj fields =>
      have hspec := walk_spec hdepth
      by_cases hsub : InSubset (.obj fields)
      · have hnil := (hspec.errors (js "$schema")).mpr hsub
        simp only [hnil, ne_eq, not_true_eq_false, if_false, hspec.fields _ hsub, Except.ok.injEq,
          hdepth, hsub, true_and]
        exact eq_comm
      · have hne := mt (hspec.errors (js "$schema")).mp hsub
        simp [hne, hsub]
  · obtain ⟨e, he⟩ := parseJsonValue_error (not_le.mp hdepth)
    simp [normalizeJsonSchema, he, hdepth]

/-- A rejected schema has an error to show for it. -/
theorem normalizeJsonSchema_errors {schema : Json N} {errors : List SchemaError}
    (h : normalizeJsonSchema schema = .error errors) : errors ≠ [] := by
  unfold normalizeJsonSchema at h
  cases hparse : parseJsonValue schema with
  | error e =>
    rw [hparse] at h
    cases h
    exact List.cons_ne_nil _ _
  | ok parsed =>
    rw [hparse] at h
    cases parsed with
    | null | bool | num | str | arr =>
      cases h
      exact List.cons_ne_nil _ _
    | obj fields =>
      simp only at h
      split_ifs at h with hne
      cases h
      exact hne

/-- Normalization leaves its own output alone. -/
theorem normalizeJsonSchema_normal {schema out : Json N} (h : schema.Owned)
    (hok : normalizeJsonSchema schema = .ok out) : normalizeJsonSchema out = .ok out := by
  obtain ⟨hdepth, hsub, rfl⟩ := (normalizeJsonSchema_eq_ok h).mp hok
  rw [normalizeJsonSchema_eq_ok (normal_owned h)]
  exact ⟨(normal_depth schema).trans hdepth, hsub.normal, (normal_normal schema).symm⟩

/-- The canonical form of a schema is accepted with it, and to the same canonical form. -/
theorem normalizeJsonSchema_canonical {schema out : Json N} (h : schema.Owned)
    (hok : normalizeJsonSchema schema = .ok out) :
    ∃ out', normalizeJsonSchema (canonical schema) = .ok out' ∧ canonical out' = canonical out := by
  obtain ⟨hdepth, hsub, rfl⟩ := (normalizeJsonSchema_eq_ok h).mp hok
  have hcanonical := hsub.canonical h
  refine ⟨normal (canonical schema), ?_, ?_⟩
  · rw [normalizeJsonSchema_eq_ok (canonical_owned schema), canonical_depth h]
    exact ⟨hdepth, hcanonical, rfl⟩
  · rw [hcanonical.canonical_normal (canonical_owned schema), canonical_canonical h,
      hsub.canonical_normal h]

theorem normalizeJsonSchema_owned {schema out : Json N} (h : schema.Owned)
    (hok : normalizeJsonSchema schema = .ok out) : out.Owned := by
  obtain ⟨-, -, rfl⟩ := (normalizeJsonSchema_eq_ok h).mp hok
  exact normal_owned h

end PiRlm.Core.Schema

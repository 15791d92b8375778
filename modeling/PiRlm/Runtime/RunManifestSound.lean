/-
  PiRlm.Runtime.RunManifestSound

  The reader of manifests accepts what the builder makes.

  A document is written in canonical form, so the reader meets the canonical form of each
  section.  A check that asks for scalars only does not see the difference, and a check of an
  object goes on with the canonical members.
-/
import PiRlm.Core.ProgramSound
import PiRlm.Runtime.RunManifest
import PiRlm.Runtime.RunWriterRecords

namespace PiRlm.Runtime.Manifest

open PiRlm.Lib PiRlm.Lib.Json PiRlm.Core PiRlm.Shell

variable {N : Type}

-- ============================================================================
-- Checks
-- ============================================================================

theorem require_eq_ok {passed : Bool} {message : JsString} {u : Unit} :
    require passed message = .ok u ↔ passed = true := by
  cases passed with
  | true => exact ⟨fun _ => rfl, fun _ => rfl⟩
  | false => exact ⟨nofun, nofun⟩

theorem requireCompatible_eq_ok {passed : Bool} {message : JsString} {u : Unit} :
    requireCompatible passed message = .ok u ↔ passed = true := by
  cases passed with
  | true => exact ⟨fun _ => rfl, fun _ => rfl⟩
  | false => exact ⟨nofun, nofun⟩

theorem each_eq_ok {α : Type} {check : α → Check Unit} {xs : List α} {u : Unit} :
    each check xs = .ok u ↔ ∀ x ∈ xs, check x = .ok () := by
  induction xs with
  | nil => exact ⟨fun _ => nofun, fun _ => rfl⟩
  | cons x rest ih =>
    rw [List.forall_mem_cons]
    constructor
    · intro h
      obtain ⟨⟨⟩, hx, hrest⟩ := bind_eq_ok.mp h
      exact ⟨hx, ih.mp hrest⟩
    · rintro ⟨hx, hrest⟩
      exact bind_eq_ok.mpr ⟨(), hx, ih.mpr hrest⟩

theorem plainJson_ok {v : Json N} (hv : v.Owned) (h : v.depth ≤ maxJsonDepth) (label : JsString) :
    plainJson (some v) label = .ok v := by
  rw [plainJson, parseJsonValue_ok hv h]

theorem plainJson_eq_ok {v w : Json N} (hv : v.Owned) {label : JsString} :
    plainJson (some v) label = .ok w ↔ v.depth ≤ maxJsonDepth ∧ v = w := by
  by_cases h : v.depth ≤ maxJsonDepth
  · rw [plainJson_ok hv h]
    exact ⟨fun heq => ⟨h, Except.ok.inj heq⟩, fun heq => heq.2 ▸ rfl⟩
  · obtain ⟨⟨path, reason⟩, he⟩ := parseJsonValue_error (not_le.mp h)
    rw [plainJson, he]
    exact ⟨nofun, fun heq => absurd heq.1 h⟩

theorem plainJson_some {value : Option (Json N)} {label : JsString} {w : Json N}
    (h : plainJson value label = .ok w) : ∃ v, value = some v := by
  cases value with
  | none => exact absurd h nofun
  | some v => exact ⟨v, rfl⟩

/-- The fields that `record` asks for. -/
structure HasFields (fields : Members N) (required optional : List JsString) : Prop where
  length : required.length ≤ (fields.map Prod.fst).length
  allowed : ∀ key ∈ fields.map Prod.fst, key ∈ required ++ optional
  present : ∀ key ∈ required, key ∈ fields.map Prod.fst

theorem record_eq_ok {value : Option (Json N)} {path : JsString} {required optional : List JsString}
    {fields : Members N} :
    record value path required optional = .ok fields ↔
      value = some (.obj fields) ∧ HasFields fields required optional := by
  constructor
  · intro h
    match value, h with
    | some (.obj members), h =>
      obtain ⟨u, hrequire, rfl⟩ := map_eq_ok.mp h
      have hpassed := require_eq_ok.mp hrequire
      simp only [Bool.and_eq_true, decide_eq_true_eq, List.all_eq_true] at hpassed
      exact ⟨rfl, hpassed.1.1, hpassed.1.2, hpassed.2⟩
  · rintro ⟨rfl, hfields⟩
    apply map_eq_ok.mpr
    refine ⟨(), require_eq_ok.mpr ?_, rfl⟩
    simp only [Bool.and_eq_true, decide_eq_true_eq, List.all_eq_true]
    exact ⟨⟨hfields.length, hfields.allowed⟩, hfields.present⟩

theorem HasFields.canonical {fields : Members N} {required optional : List JsString}
    (h : HasFields fields required optional) (hnodup : (fields.map Prod.fst).Nodup) :
    HasFields (canonicalMembers fields) required optional := by
  have hperm : ((canonicalMembers fields).map Prod.fst).Perm (fields.map Prod.fst) := by
    rw [← map_fst_mapValues Core.canonical fields]
    exact (canonicalMembers_perm hnodup).map Prod.fst
  constructor
  · rw [hperm.length_eq]
    exact h.length
  · intro key hkey
    exact h.allowed key (hperm.mem_iff.mp hkey)
  · intro key hkey
    exact hperm.mem_iff.mpr (h.present key hkey)

/-- The canonical form of a record is one, with the canonical members. -/
theorem record_canonical {value : Option (Json N)} (hvalue : ∀ v ∈ value, v.Owned)
    {path : JsString} {required optional : List JsString} {fields : Members N}
    (h : record value path required optional = .ok fields) :
    record (value.map canonical) path required optional = .ok (canonicalMembers fields) := by
  obtain ⟨rfl, hfields⟩ := record_eq_ok.mp h
  rw [record_eq_ok]
  have hnodup := (owned_obj.mp (hvalue _ rfl)).1.1
  exact ⟨congrArg some (canonical_obj_members fields), hfields.canonical hnodup⟩

/-! ### Checks of scalars -/

/-- A function of a member that does not look into arrays and objects. -/
theorem ofScalars {α : Type} {f : Option (Json N) → α} {a : α}
    (harr : ∀ items, f (some (.arr items)) = a) (hobj : ∀ fields, f (some (.obj fields)) = a)
    (value : Option (Json N)) : f (value.map canonical) = f value := by
  match value with
  | none | some .null | some (.bool _) | some (.num _) | some (.str _) => rfl
  | some (.arr items) => rw [Option.map_some, canonical_arr, harr, harr]
  | some (.obj fields) => rw [Option.map_some, canonical_obj_members, hobj, hobj]

theorem string_canonical (value : Option (Json N)) (path : JsString) :
    string (value.map canonical) path = string value path :=
  ofScalars (f := (string · path)) (fun _ => rfl) (fun _ => rfl) value

theorem hash_canonical (value : Option (Json N)) (path : JsString) :
    hash (value.map canonical) path = hash value path :=
  ofScalars (f := (hash · path)) (fun _ => rfl) (fun _ => rfl) value

theorem isText_canonical (text : JsString) (value : Option (Json N)) :
    isText text (value.map canonical) = isText text value :=
  ofScalars (f := isText text) (fun _ => rfl) (fun _ => rfl) value

theorem string_eq_ok {value : Option (Json N)} {path s : JsString} :
    string value path = .ok s ↔ value = some (.str s) ∧ s ≠ [] ∧ trimWhiteSpace s = s := by
  constructor
  · intro h
    match value, h with
    | some (.str t), h =>
      obtain ⟨u, hrequire, rfl⟩ := map_eq_ok.mp h
      have hpassed := require_eq_ok.mp hrequire
      simp only [Bool.and_eq_true, Bool.not_eq_true', List.isEmpty_eq_false_iff,
        decide_eq_true_eq] at hpassed
      exact ⟨rfl, hpassed.1, hpassed.2⟩
  · rintro ⟨rfl, hne, htrim⟩
    apply map_eq_ok.mpr
    refine ⟨(), require_eq_ok.mpr ?_, rfl⟩
    simp only [Bool.and_eq_true, Bool.not_eq_true', List.isEmpty_eq_false_iff, decide_eq_true_eq]
    exact ⟨hne, htrim⟩

theorem hash_eq_ok {value : Option (Json N)} {path s : JsString} :
    hash value path = .ok s ↔ value = some (.str s) ∧ isHash s = true := by
  constructor
  · intro h
    match value, h with
    | some (.str t), h =>
      obtain ⟨u, hrequire, rfl⟩ := map_eq_ok.mp h
      exact ⟨rfl, require_eq_ok.mp hrequire⟩
  · rintro ⟨rfl, hs⟩
    exact map_eq_ok.mpr ⟨(), require_eq_ok.mpr hs, rfl⟩

theorem isText_iff {text : JsString} {value : Option (Json N)} :
    isText text value = true ↔ value = some (.str text) := by
  match value with
  | some (.str s) =>
    show (s == text) = true ↔ _
    rw [beq_iff_eq]
    exact ⟨fun h => h ▸ rfl, fun h => Json.str.inj (Option.some.inj h)⟩
  | none | some .null | some (.bool _) | some (.num _) | some (.arr _) | some (.obj _) =>
    exact ⟨nofun, nofun⟩

/-- What an object holds under a key, its canonical form holds in canonical form. -/
theorem lookup_canonical {fields : Members N} (h : (Json.obj fields).Owned) (key : JsString) :
    lookupField (canonicalMembers fields) key = (lookupField fields key).map canonical :=
  lookupField_canonicalMembers (owned_obj.mp h).1.1 key

theorem membersOf_canonical (value : Option (Json N)) :
    membersOf (value.map canonical) = canonicalMembers (membersOf value) := by
  match value with
  | none | some .null | some (.bool _) | some (.num _) | some (.str _) => rfl
  | some (.arr items) => rw [Option.map_some, canonical_arr]; rfl
  | some (.obj fields) => rw [Option.map_some, canonical_obj_members]; rfl

section Numbers

variable [JsonNumber N]

theorem numeric_canonical (value : Option (Json N)) :
    numeric (value.map canonical) = numeric value :=
  ofScalars (f := numeric) (fun _ => rfl) (fun _ => rfl) value

theorem integer_canonical (value : Option (Json N)) (path : JsString) (minimum : ℚ) :
    integer (value.map canonical) path minimum = integer value path minimum := by
  rw [integer, integer, numeric_canonical]

theorem canonicalText_ok {v : Json N} (h : v.depth ≤ maxJsonDepth) :
    canonicalText v = .ok (Core.canonical v).render := by
  rw [canonicalText, canonicalStringify_ok h]

theorem canonicalText_eq_ok {v : Json N} {text : JsString} :
    canonicalText v = .ok text ↔ v.depth ≤ maxJsonDepth ∧ (Core.canonical v).render = text := by
  rw [← canonicalStringify_eq_ok_iff, canonicalText]
  cases canonicalStringify v with
  | ok t => exact ⟨fun h => by rw [Except.ok.inj h], fun h => by rw [Except.ok.inj h]⟩
  | error e => exact ⟨nofun, nofun⟩

-- ============================================================================
-- Program, profile and limits
-- ============================================================================

/-- A program is accepted exactly when it is normalized already, up to the order of members. -/
theorem validateProgram_eq_ok {v : Json N} (hv : v.Owned) {program : RlmProgram N} :
    validateProgram (some v) = .ok program ↔ normalizeProgram v = .ok program ∧
      v.depth ≤ maxJsonDepth ∧ canonical program.toJson = canonical v := by
  constructor
  · intro h
    obtain ⟨json, hjson, h⟩ := bind_eq_ok.mp h
    obtain ⟨hdepth, rfl⟩ := (plainJson_eq_ok hv).mp hjson
    cases hnormal : normalizeProgram v with
    | error errors =>
      rw [hnormal] at h
      exact absurd h (by simp)
    | ok normal =>
      rw [hnormal] at h
      have howned := normalizeProgram_owned hv hnormal
      obtain ⟨normalized, hnormalized, h⟩ := bind_eq_ok.mp h
      obtain ⟨-, rfl⟩ := (plainJson_eq_ok howned).mp hnormalized
      obtain ⟨normalizedText, hnormalizedText, h⟩ := bind_eq_ok.mp h
      obtain ⟨text, htext, h⟩ := bind_eq_ok.mp h
      obtain ⟨u, hsame, h⟩ := bind_eq_ok.mp h
      obtain rfl : normal = program := Except.ok.inj h
      obtain ⟨-, rfl⟩ := canonicalText_eq_ok.mp hnormalizedText
      obtain ⟨-, rfl⟩ := canonicalText_eq_ok.mp htext
      exact ⟨rfl, hdepth, render_injective (of_decide_eq_true (require_eq_ok.mp hsame))⟩
  · rintro ⟨hnormal, hdepth, hsame⟩
    have howned := normalizeProgram_owned hv hnormal
    have hdepth' : program.toJson.depth ≤ maxJsonDepth := by
      rw [← canonical_depth howned, hsame, canonical_depth hv]
      exact hdepth
    refine bind_eq_ok.mpr ⟨v, plainJson_ok hv hdepth _, ?_⟩
    rw [hnormal]
    refine bind_eq_ok.mpr ⟨_, plainJson_ok howned hdepth' _, ?_⟩
    refine bind_eq_ok.mpr ⟨_, canonicalText_ok hdepth', ?_⟩
    refine bind_eq_ok.mpr ⟨_, canonicalText_ok hdepth, ?_⟩
    refine bind_eq_ok.mpr ⟨(), ?_, rfl⟩
    rw [require_eq_ok, hsame]
    exact decide_eq_true rfl

/-- The canonical form of an accepted program is accepted, as the same program up to the
    order of members. -/
theorem validateProgram_canonical {v : Json N} (hv : v.Owned) {program : RlmProgram N}
    (h : validateProgram (some v) = .ok program) :
    ∃ program', validateProgram (some (canonical program.toJson)) = .ok program' ∧
      program'.inputs = program.inputs ∧ canonical program'.toJson = canonical program.toJson := by
  obtain ⟨hnormal, hdepth, hsame⟩ := (validateProgram_eq_ok hv).mp h
  obtain ⟨program', hnormal', hinputs, hsame'⟩ := normalizeProgram_canonical hv hnormal
  refine ⟨program', ?_, hinputs, hsame'⟩
  rw [hsame, validateProgram_eq_ok (canonical_owned v), canonical_canonical hv,
    canonical_depth hv]
  exact ⟨hnormal', hdepth, hsame'.trans hsame⟩

/-- The checks of numbers see the same numbers in the canonical members. -/
theorem validateProfile_canonical {fields : Members N} (h : (Json.obj fields).Owned) :
    validateProfile (canonicalMembers fields) = validateProfile fields := by
  have hlookup := lookup_canonical h
  have htrajectory : ∀ key, numeric (lookupField
      (membersOf (lookupField (canonicalMembers fields) (js "trajectory"))) key) =
      numeric (lookupField (membersOf (lookupField fields (js "trajectory"))) key) := by
    intro key
    rw [hlookup, membersOf_canonical]
    cases hcase : lookupField fields (js "trajectory") with
    | none => rfl
    | some v =>
      cases v with
      | obj members =>
        have hmembers := (owned_obj.mp h).2 _ (mem_of_lookupField hcase)
        exact (congrArg numeric (lookup_canonical hmembers key)).trans (numeric_canonical _)
      | null | bool | num | str | arr => rfl
  have hsome : ∀ key, (lookupField (canonicalMembers fields) key).isSome =
      (lookupField fields key).isSome := by
    intro key
    rw [hlookup, Option.isSome_map]
  have hnumeric : ∀ key, numeric (lookupField (canonicalMembers fields) key) =
      numeric (lookupField fields key) := by
    intro key
    rw [hlookup, numeric_canonical]
  simp only [validateProfile, htrajectory, hsome, hnumeric]

theorem checkTokenLimit_canonical {fields : Members N} (h : (Json.obj fields).Owned)
    (path : JsString) : checkTokenLimit (canonicalMembers fields) path =
      checkTokenLimit fields path := by
  rw [checkTokenLimit, checkTokenLimit, lookup_canonical h, integer_canonical, Option.isSome_map]

theorem checkIntegers_canonical {fields : Members N} (h : (Json.obj fields).Owned)
    (path : JsString) (names : List JsString) :
    checkIntegers (canonicalMembers fields) path names = checkIntegers fields path names := by
  simp only [checkIntegers, lookup_canonical h, integer_canonical]

omit [JsonNumber N] in
/-- A check of all entries that only sees scalars passes on the canonical entries too. -/
theorem each_entry_canonical {fields : Members N} (h : (fields.map Prod.fst).Nodup)
    {check : JsString × Json N → Check Unit} {u : Unit}
    (hsame : ∀ f : JsString × Json N, check (f.1, canonical f.2) = check f)
    (hcheck : each check fields = .ok u) : each check (canonicalMembers fields) = .ok () := by
  rw [each_eq_ok] at hcheck ⊢
  intro f hf
  obtain ⟨g, hg, rfl⟩ := List.mem_map.mp ((canonicalMembers_perm h).mem_iff.mp hf)
  rw [hsame]
  exact hcheck g hg

omit [JsonNumber N] in
theorem owned_of_record {value : Option (Json N)} (hvalue : ∀ v ∈ value, v.Owned) {path : JsString}
    {required optional : List JsString} {fields : Members N}
    (h : record value path required optional = .ok fields) : (Json.obj fields).Owned :=
  hvalue _ (record_eq_ok.mp h).1

theorem validateProfileJson_canonical {value : Option (Json N)} (hvalue : ∀ v ∈ value, v.Owned)
    {profile : Members N} (h : validateProfileJson value = .ok profile) :
    value = some (.obj profile) ∧
      validateProfileJson (value.map canonical) = .ok (canonicalMembers profile) := by
  obtain ⟨fields, hrecord, h⟩ := bind_eq_ok.mp h
  obtain ⟨name, hname, h⟩ := bind_eq_ok.mp h
  obtain ⟨⟨⟩, hnumbers, h⟩ := bind_eq_ok.mp h
  obtain ⟨⟨⟩, htoken, h⟩ := bind_eq_ok.mp h
  obtain ⟨trajectory, htrajectory, h⟩ := bind_eq_ok.mp h
  obtain ⟨⟨⟩, hentries, h⟩ := bind_eq_ok.mp h
  obtain ⟨models, hmodels, h⟩ := bind_eq_ok.mp h
  obtain ⟨⟨⟩, hroutes, h⟩ := bind_eq_ok.mp h
  obtain ⟨⟨⟩, hprofile, h⟩ := bind_eq_ok.mp h
  obtain rfl : fields = profile := Except.ok.inj h
  have howned := owned_of_record hvalue hrecord
  have hinner := owned_lookupField howned
  have htrajectoryOwned := owned_of_record (hinner _) htrajectory
  have hmodelsOwned := owned_of_record (hinner _) hmodels
  refine ⟨(record_eq_ok.mp hrecord).1, ?_⟩
  refine bind_eq_ok.mpr ⟨_, record_canonical hvalue hrecord, ?_⟩
  refine bind_eq_ok.mpr ⟨name, ?_, ?_⟩
  · rw [lookup_canonical howned, string_canonical]
    exact hname
  refine bind_eq_ok.mpr ⟨(), ?_, ?_⟩
  · rw [checkIntegers_canonical howned]
    exact hnumbers
  refine bind_eq_ok.mpr ⟨(), ?_, ?_⟩
  · rw [checkTokenLimit_canonical howned]
    exact htoken
  refine bind_eq_ok.mpr ⟨canonicalMembers trajectory, ?_, ?_⟩
  · rw [lookup_canonical howned]
    exact record_canonical (hinner _) htrajectory
  refine bind_eq_ok.mpr ⟨(), ?_, ?_⟩
  · apply each_entry_canonical (owned_obj.mp htrajectoryOwned).1.1 _ hentries
    intro f
    exact integer_canonical (some f.2) _ _
  refine bind_eq_ok.mpr ⟨canonicalMembers models, ?_, ?_⟩
  · rw [lookup_canonical howned]
    exact record_canonical (hinner _) hmodels
  refine bind_eq_ok.mpr ⟨(), ?_, ?_⟩
  · apply each_entry_canonical (owned_obj.mp hmodelsOwned).1.1 _ hroutes
    intro f
    exact congrArg (Except.map fun _ => ()) (string_canonical (some f.2) _)
  refine bind_eq_ok.mpr ⟨(), ?_, rfl⟩
  rw [validateProfile_canonical howned]
  exact hprofile

theorem validateLimits_canonical {value : Option (Json N)} (hvalue : ∀ v ∈ value, v.Owned)
    {profile limits : Members N} (hprofile : (Json.obj profile).Owned)
    (h : validateLimits value profile = .ok limits) :
    value = some (.obj limits) ∧
      validateLimits (value.map canonical) (canonicalMembers profile) =
        .ok (canonicalMembers limits) := by
  obtain ⟨fields, hrecord, h⟩ := bind_eq_ok.mp h
  obtain ⟨⟨⟩, hnumbers, h⟩ := bind_eq_ok.mp h
  obtain ⟨⟨⟩, htoken, h⟩ := bind_eq_ok.mp h
  obtain ⟨⟨⟩, hmatch, h⟩ := bind_eq_ok.mp h
  obtain ⟨⟨⟩, htokens, h⟩ := bind_eq_ok.mp h
  obtain rfl : fields = limits := Except.ok.inj h
  have howned := owned_of_record hvalue hrecord
  refine ⟨(record_eq_ok.mp hrecord).1, ?_⟩
  refine bind_eq_ok.mpr ⟨_, record_canonical hvalue hrecord, ?_⟩
  refine bind_eq_ok.mpr ⟨(), ?_, ?_⟩
  · rw [checkIntegers_canonical howned]
    exact hnumbers
  refine bind_eq_ok.mpr ⟨(), ?_, ?_⟩
  · rw [checkTokenLimit_canonical howned]
    exact htoken
  refine bind_eq_ok.mpr ⟨(), ?_, bind_eq_ok.mpr ⟨(), ?_, rfl⟩⟩
  · simp only [lookup_canonical howned, lookup_canonical hprofile, numeric_canonical]
    exact hmatch
  · rw [lookup_canonical howned, lookup_canonical hprofile, numeric_canonical, numeric_canonical]
    exact htokens

end Numbers

-- ============================================================================
-- Components
-- ============================================================================

/-- The fields of an object that has just these. -/
theorem HasFields.of_keys {fields : Members N} {required optional : List JsString}
    (h : fields.map Prod.fst = required) : HasFields fields required optional := by
  constructor
  · rw [h]
  · rw [h]
    exact fun _ => List.mem_append_left optional
  · rw [h]
    exact fun _ hkey => hkey

/-- An object is read back as a record when it is written with just the fields asked for. -/
theorem record_of_keys {fields : Members N} {required : List JsString}
    (howned : (Json.obj fields).Owned) (h : fields.map Prod.fst = required) (path : JsString) :
    record (some (canonical (.obj fields))) path required [] = .ok (canonicalMembers fields) := by
  have hvalue : ∀ v ∈ some (Json.obj fields), v.Owned := by
    rintro v ⟨⟩
    exact howned
  exact record_canonical hvalue (record_eq_ok.mpr ⟨rfl, HasFields.of_keys h⟩)

/-- An identity that the checks let pass. -/
structure RuntimeComponentIdentity.Valid (identity : RuntimeComponentIdentity N) : Prop where
  id : identity.id ≠ [] ∧ trimWhiteSpace identity.id = identity.id
  version : identity.version ≠ [] ∧ trimWhiteSpace identity.version = identity.version
  owned : identity.configuration.Owned
  depth : identity.configuration.depth ≤ maxJsonDepth

def RuntimeComponentIdentity.canonical (identity : RuntimeComponentIdentity N) :
    RuntimeComponentIdentity N :=
  { identity with configuration := Core.canonical identity.configuration }

def RunComponents.canonical (components : RunComponents N) : RunComponents N :=
  { model := components.model.canonical
    controller := components.controller.canonical
    controllerResume := components.controllerResume
    extractor := components.extractor.map RuntimeComponentIdentity.canonical
    agentDelegation := components.agentDelegation.map RuntimeComponentIdentity.canonical }

theorem runtimeIdentity_valid {value : Option (Json N)} (hvalue : ∀ v ∈ value, v.Owned)
    {path : JsString} {identity : RuntimeComponentIdentity N}
    (h : runtimeIdentity value path = .ok identity) : identity.Valid := by
  obtain ⟨component, hrecord, h⟩ := bind_eq_ok.mp h
  obtain ⟨id, hid, h⟩ := bind_eq_ok.mp h
  obtain ⟨version, hversion, h⟩ := bind_eq_ok.mp h
  obtain ⟨configuration, hconfiguration, h⟩ := bind_eq_ok.mp h
  obtain rfl := Except.ok.inj h
  obtain ⟨w, hw⟩ := plainJson_some hconfiguration
  have howned := owned_lookupField (owned_of_record hvalue hrecord) _ w hw
  rw [hw] at hconfiguration
  obtain ⟨hdepth, rfl⟩ := (plainJson_eq_ok howned).mp hconfiguration
  exact ⟨(string_eq_ok.mp hid).2, (string_eq_ok.mp hversion).2, howned, hdepth⟩

theorem suppliedIdentity_valid {identity : Option (JsonValue N)} {path : JsString}
    {component : RuntimeComponentIdentity N} (h : suppliedIdentity identity path = .ok component) :
    component.Valid := by
  cases identity with
  | none => exact absurd h nofun
  | some identity =>
    apply runtimeIdentity_valid _ h
    rintro v ⟨⟩
    exact identity.2

namespace RuntimeComponentIdentity

variable {identity : RuntimeComponentIdentity N}

theorem Valid.toJson_owned (h : identity.Valid) : identity.toJson.Owned := by
  have hstring : ∀ s : JsString, (Json.str s : Json N).Owned := fun _ => rfl
  rw [RuntimeComponentIdentity.toJson, owned_obj, ← isOwned_obj]
  exact ⟨rfl, by simp [hstring, h.owned]⟩

theorem Valid.canonical (h : identity.Valid) : identity.canonical.Valid :=
  ⟨h.id, h.version, canonical_owned _, (canonical_depth h.owned).trans_le h.depth⟩

theorem canonical_toJson (h : identity.Valid) :
    Core.canonical identity.canonical.toJson = Core.canonical identity.toJson := by
  apply canonical_obj_congr
  simp only [canonicalFields, RuntimeComponentIdentity.canonical, canonical_canonical h.owned]

/-- A valid identity is read back, its configuration in canonical form. -/
theorem Valid.read (h : identity.Valid) (path : JsString) :
    runtimeIdentity (some (Core.canonical identity.toJson)) path = .ok identity.canonical := by
  have howned := h.toJson_owned
  refine bind_eq_ok.mpr ⟨_, record_of_keys howned rfl path, ?_⟩
  refine bind_eq_ok.mpr ⟨identity.id, ?_, ?_⟩
  · rw [lookup_canonical howned, string_canonical]
    exact string_eq_ok.mpr ⟨rfl, h.id⟩
  refine bind_eq_ok.mpr ⟨identity.version, ?_, ?_⟩
  · rw [lookup_canonical howned, string_canonical]
    exact string_eq_ok.mpr ⟨rfl, h.version⟩
  refine bind_eq_ok.mpr ⟨Core.canonical identity.configuration, ?_, rfl⟩
  rw [lookup_canonical howned]
  apply plainJson_ok (canonical_owned _)
  rw [canonical_depth h.owned]
  exact h.depth

theorem Valid.read_some (h : identity.Valid) (path : JsString) :
    parseComponent (some (Core.canonical identity.toJson)) path = .ok (some identity.canonical) := by
  have hread := h.read path
  rw [RuntimeComponentIdentity.toJson, canonical_obj_members] at hread ⊢
  show (runtimeIdentity _ path).map some = _
  rw [hread]
  rfl

end RuntimeComponentIdentity

theorem ResumeStrategy.toJson_owned (strategy : ResumeStrategy) :
    (strategy.toJson : Json N).Owned := by
  cases strategy with
  | trajectoryDerived => rfl
  | stateToken => rfl

theorem ResumeStrategy.canonical_toJson (strategy : ResumeStrategy) :
    ∃ members, canonical (strategy.toJson : Json N) = .obj members ∧
      lookupField members (js "version") = some (.str controllerResumeCapabilityVersion) ∧
      lookupField members (js "strategy") = some (.str strategy.text) ∧
      HasFields members [js "version", js "strategy"] [] := by
  have howned := strategy.toJson_owned (N := N)
  refine ⟨_, canonical_obj_members _, ?_, ?_, ?_⟩
  · rw [lookup_canonical howned]
    rfl
  · rw [lookup_canonical howned]
    rfl
  · exact (HasFields.of_keys rfl).canonical (owned_obj.mp howned).1.1

theorem resumeStrategy_text (strategy : ResumeStrategy) :
    resumeStrategy (some (.str strategy.text) : Option (Json N)) = some strategy := by
  cases strategy with
  | trajectoryDerived => rfl
  | stateToken => rfl

theorem parseControllerResume_read (strategy : Option ResumeStrategy) :
    parseControllerResume (some (canonical (nullable ResumeStrategy.toJson strategy : Json N))) =
      .ok strategy := by
  cases strategy with
  | none => rfl
  | some strategy =>
    obtain ⟨members, hmembers, hversion, hstrategy, hfields⟩ :=
      strategy.canonical_toJson (N := N)
    rw [nullable, hmembers]
    refine bind_eq_ok.mpr ⟨members, record_eq_ok.mpr ⟨rfl, hfields⟩, ?_⟩
    rw [hversion, hstrategy, resumeStrategy_text]
    refine bind_eq_ok.mpr ⟨(), ?_, rfl⟩
    rw [requireCompatible_eq_ok, isText_iff.mpr rfl]
    rfl

/-- Components that the preflight lets pass. -/
structure RunComponents.Valid (components : RunComponents N) : Prop where
  model : components.model.Valid
  controller : components.controller.Valid
  extractor : ∀ identity ∈ components.extractor, identity.Valid
  agentDelegation : ∀ identity ∈ components.agentDelegation, identity.Valid

theorem suppliedOption_valid {component : Option (Option (JsonValue N))} {path : JsString}
    {supplied : Option (RuntimeComponentIdentity N)}
    (h : suppliedOption component path = .ok supplied) : ∀ identity ∈ supplied, identity.Valid := by
  cases component with
  | none =>
    obtain rfl := Except.ok.inj h
    exact nofun
  | some identity =>
    obtain ⟨valid, hvalid, rfl⟩ := map_eq_ok.mp h
    rintro identity ⟨⟩
    exact suppliedIdentity_valid hvalid

/-- What the preflight of the components has found. -/
theorem preflightRunComponents_valid {input : RunComponentPreflightInput N}
    {backend : BackendIdentity} {components : RunComponents N}
    (h : preflightRunComponents input = .ok (backend, components)) :
    (backend.id ≠ [] ∧ trimWhiteSpace backend.id = backend.id) ∧
      (backend.version ≠ [] ∧ trimWhiteSpace backend.version = backend.version) ∧
      components.Valid := by
  have hsnapshot : snapshotComponents input = .ok (backend, components) := by
    rw [preflightRunComponents] at h
    cases hcase : snapshotComponents input with
    | error cause =>
      rw [hcase] at h
      exact absurd h nofun
    | ok snapshot =>
      rw [hcase] at h
      exact h
  obtain ⟨id, hid, h⟩ := bind_eq_ok.mp hsnapshot
  obtain ⟨version, hversion, h⟩ := bind_eq_ok.mp h
  obtain ⟨model, hmodel, h⟩ := bind_eq_ok.mp h
  obtain ⟨controller, hcontroller, h⟩ := bind_eq_ok.mp h
  obtain ⟨controllerResume, hresume, h⟩ := bind_eq_ok.mp h
  obtain ⟨extractor, hextractor, h⟩ := bind_eq_ok.mp h
  obtain ⟨agentDelegation, hdelegation, h⟩ := bind_eq_ok.mp h
  cases h
  exact ⟨(string_eq_ok.mp hid).2, (string_eq_ok.mp hversion).2, suppliedIdentity_valid hmodel,
    suppliedIdentity_valid hcontroller, suppliedOption_valid hextractor,
    suppliedOption_valid hdelegation⟩

theorem nullable_owned {component : Option (RuntimeComponentIdentity N)}
    (h : ∀ identity ∈ component, identity.Valid) :
    (nullable RuntimeComponentIdentity.toJson component).Owned := by
  cases component with
  | none => rfl
  | some identity => exact (h identity rfl).toJson_owned

theorem parseComponent_read {component : Option (RuntimeComponentIdentity N)}
    (h : ∀ identity ∈ component, identity.Valid) (path : JsString) :
    parseComponent (some (canonical (nullable RuntimeComponentIdentity.toJson component))) path =
      .ok (component.map RuntimeComponentIdentity.canonical) := by
  cases component with
  | none => rfl
  | some identity => exact (h identity rfl).read_some path

theorem nullable_canonical {component : Option (RuntimeComponentIdentity N)}
    (h : ∀ identity ∈ component, identity.Valid) :
    canonical (nullable RuntimeComponentIdentity.toJson
      (component.map RuntimeComponentIdentity.canonical)) =
      canonical (nullable RuntimeComponentIdentity.toJson component) := by
  cases component with
  | none => rfl
  | some identity => exact RuntimeComponentIdentity.canonical_toJson (h identity rfl)

theorem map_canonical_valid {component : Option (RuntimeComponentIdentity N)}
    (h : ∀ identity ∈ component, identity.Valid) :
    ∀ identity ∈ component.map RuntimeComponentIdentity.canonical, identity.Valid := by
  intro identity hidentity
  obtain ⟨valid, hvalid, rfl⟩ := Option.map_eq_some_iff.mp hidentity
  exact (h valid hvalid).canonical

namespace RunComponents

variable {components : RunComponents N}

theorem Valid.canonical (h : components.Valid) : components.canonical.Valid :=
  ⟨h.model.canonical, h.controller.canonical, map_canonical_valid h.extractor,
    map_canonical_valid h.agentDelegation⟩

theorem Valid.toJson_owned (h : components.Valid) : components.toJson.Owned := by
  have hresume : (nullable ResumeStrategy.toJson components.controllerResume : Json N).Owned := by
    cases components.controllerResume with
    | none => rfl
    | some strategy => exact strategy.toJson_owned
  rw [RunComponents.toJson, owned_obj, ← isOwned_obj]
  exact ⟨rfl, by simp [hresume, h.model.toJson_owned, h.controller.toJson_owned,
    nullable_owned h.extractor, nullable_owned h.agentDelegation]⟩

theorem canonical_toJson (h : components.Valid) :
    Core.canonical components.canonical.toJson = Core.canonical components.toJson := by
  apply canonical_obj_congr
  simp only [canonicalFields, RunComponents.canonical, nullable_canonical h.extractor,
    nullable_canonical h.agentDelegation, RuntimeComponentIdentity.canonical_toJson h.model,
    RuntimeComponentIdentity.canonical_toJson h.controller]

/-- Valid components are read back, their configurations in canonical form. -/
theorem Valid.read (h : components.Valid) {manifest : Members N}
    (hmanifest : lookupField manifest (js "components") =
      some (Core.canonical components.toJson)) :
    parseComponents manifest = .ok components.canonical := by
  have howned := h.toJson_owned
  refine bind_eq_ok.mpr
    ⟨_, (congrArg (record · _ _ _) hmanifest).trans (record_of_keys howned rfl _), ?_⟩
  refine bind_eq_ok.mpr ⟨components.controllerResume, ?_, ?_⟩
  · rw [lookup_canonical howned]
    exact parseControllerResume_read components.controllerResume
  refine bind_eq_ok.mpr ⟨components.model.canonical, ?_, ?_⟩
  · rw [lookup_canonical howned]
    exact h.model.read _
  refine bind_eq_ok.mpr ⟨components.controller.canonical, ?_, ?_⟩
  · rw [lookup_canonical howned]
    exact h.controller.read _
  refine bind_eq_ok.mpr ⟨components.extractor.map RuntimeComponentIdentity.canonical, ?_, ?_⟩
  · rw [lookup_canonical howned]
    exact parseComponent_read h.extractor _
  refine bind_eq_ok.mpr
    ⟨components.agentDelegation.map RuntimeComponentIdentity.canonical, ?_, rfl⟩
  rw [lookup_canonical howned]
  exact parseComponent_read h.agentDelegation _

end RunComponents

-- ============================================================================
-- Inputs
-- ============================================================================

/-- A unit of a name or a nonce is no white space. -/
theorem isWhiteSpace_of_word {u : CodeUnit}
    (h : u.val = 0x24 ∨ u.val = 0x2D ∨ u.val = 0x2E ∨ (0x30 ≤ u.val ∧ u.val ≤ 0x39) ∨
      (0x41 ≤ u.val ∧ u.val ≤ 0x5A) ∨ u.val = 0x5F ∨ (0x61 ≤ u.val ∧ u.val ≤ 0x7A)) :
    isWhiteSpace u = false := by
  simp only [isWhiteSpace, Bool.or_eq_false_iff, decide_eq_false_iff_not, beq_eq_false_iff_ne,
    ne_eq, Fin.ext_iff]
  refine ⟨⟨⟨⟨⟨⟨⟨⟨⟨⟨?_, ?_⟩, ?_⟩, ?_⟩, ?_⟩, ?_⟩, ?_⟩, ?_⟩, ?_⟩, ?_⟩, ?_⟩
  all_goals
    intro hspace
    try simp at hspace
    omega

theorem isIdentifier_normalized {name : JsString} (h : isIdentifier name = true) :
    name ≠ [] ∧ trimWhiteSpace name = name := by
  cases name with
  | nil => exact absurd h nofun
  | cons u rest =>
    refine ⟨List.cons_ne_nil u rest, trimWhiteSpace_eq_self ?_⟩
    rw [isIdentifier, Bool.and_eq_true, List.all_eq_true] at h
    rw [List.forall_mem_cons]
    have hstart : ∀ w : CodeUnit, isIdentifierStart w = true → isWhiteSpace w = false := by
      intro w hw
      apply isWhiteSpace_of_word
      simp only [isIdentifierStart, Bool.or_eq_true, decide_eq_true_eq, beq_iff_eq,
        Fin.ext_iff] at hw
      simp at hw
      omega
    refine ⟨hstart u h.1, fun w hw => ?_⟩
    rcases Bool.or_eq_true_iff.mp (h.2 w hw) with hword | hdigit
    · exact hstart w hword
    · apply isWhiteSpace_of_word
      simp only [isDigit, decide_eq_true_eq] at hdigit
      omega

theorem isNonce_normalized {nonce : JsString} (h : isNonce nonce = true) :
    nonce ≠ [] ∧ trimWhiteSpace nonce = nonce := by
  cases nonce with
  | nil => exact absurd h nofun
  | cons u rest =>
    refine ⟨List.cons_ne_nil u rest, trimWhiteSpace_eq_self ?_⟩
    rw [isNonce, Bool.and_eq_true, Bool.and_eq_true, List.all_eq_true] at h
    rw [List.forall_mem_cons]
    have hstart : ∀ w : CodeUnit, isNonce.isAlphanumeric w = true → isWhiteSpace w = false := by
      intro w hw
      apply isWhiteSpace_of_word
      simp only [isNonce.isAlphanumeric, isDigit, Bool.or_eq_true, decide_eq_true_eq] at hw
      omega
    refine ⟨hstart u h.1.1, fun w hw => ?_⟩
    have hunit := h.2 w hw
    simp only [Bool.or_eq_true, beq_iff_eq] at hunit
    rcases hunit with ((hword | rfl) | rfl) | rfl
    · exact hstart w hword
    · rfl
    · rfl
    · rfl

variable [JsonNumber N]

omit [JsonNumber N] in
theorem RunManifestInput.toJson_owned (input : RunManifestInput N) : input.toJson.Owned := by
  rw [RunManifestInput.toJson, owned_obj, ← isOwned_obj]
  exact ⟨rfl, by simp [Owned, all, isOwned]⟩

theorem isSafeInteger_natCast {n : Nat} (h : n ≤ maxSafeInteger) :
    isSafeInteger 0 (some (n : ℚ)) = true := by
  have hint : (n : ℚ).isInt = true := beq_iff_eq.mpr (Rat.den_natCast n)
  rw [isSafeInteger, hint, Bool.true_and, Bool.and_eq_true, decide_eq_true_eq, decide_eq_true_eq,
    Nat.abs_cast]
  exact ⟨by exact_mod_cast h, Nat.cast_nonneg n⟩

/-- The entry of a declared input is read back next to the input. -/
theorem parseInput_read {declared : RlmInput} (hname : isIdentifier declared.name = true)
    (sources : JsString → Option SourceText) (index : Nat) :
    parseInput declared (canonical (manifestInput sources declared).toJson) index =
      .ok (manifestInput (N := N) sources declared) := by
  have howned := (manifestInput (N := N) sources declared).toJson_owned
  have hlookup := lookup_canonical howned
  have hnormal := isIdentifier_normalized hname
  refine bind_eq_ok.mpr ⟨_, record_of_keys howned rfl _, ?_⟩
  refine bind_eq_ok.mpr ⟨(), ?_, ?_⟩
  · rw [require_eq_ok, hlookup, hlookup, hlookup, isText_canonical, isText_canonical,
      isText_canonical]
    simp only [Bool.and_eq_true, isText_iff]
    exact ⟨⟨rfl, rfl⟩, rfl⟩
  refine bind_eq_ok.mpr ⟨declared.name, ?_, ?_⟩
  · rw [hlookup, string_canonical]
    exact string_eq_ok.mpr ⟨rfl, hnormal⟩
  refine bind_eq_ok.mpr ⟨declared.name, ?_, ?_⟩
  · rw [hlookup, string_canonical]
    exact string_eq_ok.mpr ⟨rfl, hnormal⟩
  refine bind_eq_ok.mpr ⟨js "text/plain", ?_, ?_⟩
  · rw [hlookup, string_canonical]
    exact string_eq_ok.mpr ⟨rfl, List.cons_ne_nil _ _, by decide⟩
  refine bind_eq_ok.mpr ⟨(), ?_, ?_⟩
  · rw [hlookup, integer_canonical, integer, require_eq_ok]
    have hbounded := ((sources declared.name).getD .empty).bounded
    show isSafeInteger 0 (some (JsonNumber.value (JsonNumber.ofNat _ : N))) = true
    rw [JsonNumber.value_ofNat _ hbounded]
    exact isSafeInteger_natCast hbounded
  refine bind_eq_ok.mpr ⟨sha256 ((sources declared.name).getD .empty).text, ?_, ?_⟩
  · rw [hlookup, hash_canonical]
    exact hash_eq_ok.mpr ⟨rfl, isHash_sha256 _⟩
  rw [hlookup]
  rfl

theorem parseEntries_read {declared : List RlmInput}
    (hnames : ∀ input ∈ declared, isIdentifier input.name = true)
    (sources : JsString → Option SourceText) (index : Nat) :
    parseEntries declared ((declared.map (manifestInput sources)).map
      (canonical ∘ RunManifestInput.toJson)) index =
        .ok (declared.map (manifestInput (N := N) sources)) := by
  induction declared generalizing index with
  | nil => rfl
  | cons input rest ih =>
    obtain ⟨hname, hrest⟩ := List.forall_mem_cons.mp hnames
    refine bind_eq_ok.mpr ⟨_, parseInput_read hname sources index, ?_⟩
    exact bind_eq_ok.mpr ⟨_, ih hrest (index + 1), rfl⟩

/-- The inputs are read back next to those that the program declares. -/
theorem parseInputs_read {program : RlmProgram N}
    (hnames : ∀ declared ∈ program.inputs, isIdentifier declared.name = true)
    (sources : JsString → Option SourceText) {manifest : Members N}
    (hmanifest : lookupField manifest (js "inputs") = some (canonical
      (.arr ((program.inputs.map (manifestInput sources)).map RunManifestInput.toJson)))) :
    parseInputs program manifest = .ok (program.inputs.map (manifestInput sources)) := by
  rw [canonical_arr, List.map_map] at hmanifest
  refine bind_eq_ok.mpr ⟨_, congrArg (array · _) hmanifest, ?_⟩
  refine bind_eq_ok.mpr ⟨(), ?_, parseEntries_read hnames sources 0⟩
  rw [require_eq_ok, decide_eq_true_eq, List.length_map, List.length_map]

-- ============================================================================
-- Prompts
-- ============================================================================

/-- The prompts that go with hashes. -/
def boundPrompts (hashes : PromptHashes) (extractorEnabled : Bool) : Json N :=
  promptsJson hashes controllerTurnConfiguration extractorPromptConfiguration extractorEnabled

/-- The hashes that bind the prompts to a value. -/
def promptHashes (bound : Json N) : PromptHashes :=
  ⟨sha256 buildBasePrompt, sha256 (canonical bound).render,
    sha256 (canonical (cellSchema : Json N)).render⟩

theorem promptBindings_eq_ok {program : RlmProgram N} {inputs : List (RunManifestInput N)}
    {profile limits : Members N} {components : RunComponents N} {prompts : Json N}
    (h : (bindingInputs program inputs profile limits components).Owned) :
    promptBindings program inputs profile limits components = .ok prompts ↔
      (bindingInputs program inputs profile limits components).depth ≤ maxJsonDepth ∧
        boundPrompts (promptHashes (bindingInputs program inputs profile limits components))
          components.extractor.isSome = prompts := by
  have hturn := plainJson_ok (v := (controllerTurnConfiguration : Json N)) rfl
    (show 1 ≤ maxJsonDepth by decide) (js "controller turn configuration")
  have hextractor := plainJson_ok (v := (extractorPromptConfiguration : Json N)) rfl
    (show 1 ≤ maxJsonDepth by decide) (js "extractor prompt configuration")
  have hschema := canonicalText_ok (v := (cellSchema : Json N)) (show 3 ≤ maxJsonDepth by decide)
  constructor
  · intro hok
    obtain ⟨bound, hbound, hok⟩ := bind_eq_ok.mp hok
    obtain ⟨hdepth, rfl⟩ := (plainJson_eq_ok h).mp hbound
    rw [canonicalText_ok hdepth, hturn, hschema, hextractor] at hok
    exact ⟨hdepth, Except.ok.inj hok⟩
  · rintro ⟨hdepth, rfl⟩
    rw [promptBindings, plainJson_ok h hdepth]
    refine bind_eq_ok.mpr ⟨_, rfl, ?_⟩
    rw [canonicalText_ok hdepth, hturn, hschema, hextractor]
    rfl

/-- Hashes that are hashes. -/
structure PromptHashes.Valid (hashes : PromptHashes) : Prop where
  staticRendered : isHash hashes.staticRendered = true
  bindingInputs : isHash hashes.bindingInputs = true
  responseSchema : isHash hashes.responseSchema = true

theorem promptHashes_valid (bound : Json N) : (promptHashes bound).Valid :=
  ⟨isHash_sha256 _, isHash_sha256 _, isHash_sha256 _⟩

section Read

omit [JsonNumber N]

variable {hashes : PromptHashes} {enabled : Bool} {prompts : Members N}

theorem controllerPrompts_owned (hashes : PromptHashes) :
    (Json.obj (controllerPrompts hashes controllerTurnConfiguration) : Json N).Owned := rfl

theorem extractorPrompts_owned (hashes : PromptHashes) (enabled : Bool) :
    (Json.obj (extractorPrompts hashes extractorPromptConfiguration enabled) : Json N).Owned := rfl

theorem boundPrompts_owned (hashes : PromptHashes) (enabled : Bool) :
    (boundPrompts hashes enabled : Json N).Owned := rfl

theorem parseControllerPrompts_read (hvalid : hashes.Valid)
    (h : lookupField prompts (js "controller") =
      some (canonical (.obj (controllerPrompts hashes controllerTurnConfiguration)))) :
    parseControllerPrompts prompts = .ok () := by
  have howned := controllerPrompts_owned (N := N) hashes
  have hlookup := lookup_canonical howned
  refine bind_eq_ok.mpr
    ⟨_, (congrArg (record · _ _ _) h).trans (record_of_keys howned rfl _), ?_⟩
  refine bind_eq_ok.mpr ⟨(), ?_, ?_⟩
  · rw [requireCompatible_eq_ok, hlookup, hlookup, isText_canonical, isText_canonical,
      Bool.and_eq_true, isText_iff, isText_iff]
    exact ⟨rfl, rfl⟩
  have hdepth : (canonical (controllerTurnConfiguration : Json N)).depth ≤ maxJsonDepth :=
    show 1 ≤ maxJsonDepth by decide
  refine bind_eq_ok.mpr ⟨canonical controllerTurnConfiguration, ?_, ?_⟩
  · rw [hlookup]
    exact plainJson_ok (canonical_owned _) hdepth _
  rw [each_eq_ok]
  intro field hfield
  rw [hlookup, hash_canonical]
  simp only [List.mem_cons, List.not_mem_nil, or_false] at hfield
  apply map_eq_ok.mpr
  rcases hfield with rfl | rfl | rfl
  · exact ⟨_, hash_eq_ok.mpr ⟨rfl, hvalid.staticRendered⟩, rfl⟩
  · exact ⟨_, hash_eq_ok.mpr ⟨rfl, hvalid.bindingInputs⟩, rfl⟩
  · exact ⟨_, hash_eq_ok.mpr ⟨rfl, hvalid.responseSchema⟩, rfl⟩

theorem parseExtractorPrompts_read (hvalid : hashes.Valid)
    (h : lookupField prompts (js "extractor") =
      some (canonical (.obj (extractorPrompts hashes extractorPromptConfiguration enabled)))) :
    parseExtractorPrompts prompts = .ok () := by
  have howned := extractorPrompts_owned (N := N) hashes enabled
  have hlookup := lookup_canonical howned
  refine bind_eq_ok.mpr
    ⟨_, (congrArg (record · _ _ _) h).trans (record_of_keys howned rfl _), ?_⟩
  refine bind_eq_ok.mpr ⟨(), ?_, ?_⟩
  · rw [require_eq_ok, hlookup]
    rfl
  refine bind_eq_ok.mpr ⟨(), ?_, ?_⟩
  · rw [requireCompatible_eq_ok, hlookup, isText_canonical, isText_iff]
    rfl
  have hdepth : (canonical (extractorPromptConfiguration : Json N)).depth ≤ maxJsonDepth :=
    show 1 ≤ maxJsonDepth by decide
  refine bind_eq_ok.mpr ⟨canonical extractorPromptConfiguration, ?_, ?_⟩
  · rw [hlookup]
    exact plainJson_ok (canonical_owned _) hdepth _
  refine bind_eq_ok.mpr ⟨hashes.bindingInputs, ?_, rfl⟩
  rw [hlookup, hash_canonical]
  exact hash_eq_ok.mpr ⟨rfl, hvalid.bindingInputs⟩

/-- The prompt bindings are read back, whatever is bound. -/
theorem parsePrompts_read (hvalid : hashes.Valid) {manifest : Members N}
    (h : lookupField manifest (js "prompts") = some (canonical (boundPrompts hashes enabled))) :
    ∃ prompts, parsePrompts manifest = .ok prompts ∧
      .obj prompts = canonical (boundPrompts (N := N) hashes enabled) := by
  have howned := boundPrompts_owned (N := N) hashes enabled
  have hlookup := lookup_canonical howned
  refine ⟨_, ?_, (canonical_obj_members _).symm⟩
  refine bind_eq_ok.mpr
    ⟨_, (congrArg (record · _ _ _) h).trans (record_of_keys howned rfl _), ?_⟩
  refine bind_eq_ok.mpr ⟨(), parseControllerPrompts_read hvalid (hlookup _), ?_⟩
  exact bind_eq_ok.mpr ⟨(), parseExtractorPrompts_read hvalid (hlookup _), rfl⟩

end Read

/-- The bindings that are read are those that are expected. -/
theorem checkPrompts_read {prompts : Members N} {expected : Json N} (howned : expected.Owned)
    (hdepth : expected.depth ≤ maxJsonDepth) (h : .obj prompts = canonical expected) :
    checkPrompts prompts expected = .ok () := by
  have hdepth' := (canonical_depth howned).trans_le hdepth
  rw [checkPrompts, h, plainJson_ok (canonical_owned _) hdepth']
  refine bind_eq_ok.mpr ⟨_, rfl, bind_eq_ok.mpr ⟨_, canonicalText_ok hdepth', ?_⟩⟩
  refine bind_eq_ok.mpr ⟨_, plainJson_ok howned hdepth _, ?_⟩
  refine bind_eq_ok.mpr ⟨_, canonicalText_ok hdepth, ?_⟩
  rw [require_eq_ok, canonical_canonical howned]
  exact decide_eq_true rfl

-- ============================================================================
-- What the builder makes
-- ============================================================================

/-- The parts of an accepted input, and the document they make. -/
structure Built (input : BuildRunManifestInput N) (program : RlmProgram N) (profile : Members N)
    (document : RunManifestDocument N) : Prop where
  dslVersion : input.dslVersion = rlmDslVersion
  program_ok : validateProgram (some input.program.1) = .ok program
  profile_depth : input.profile.1.depth ≤ maxJsonDepth
  profile_ok : validateProfileJson (some input.profile.1) = .ok profile
  limits_depth : input.limits.1.depth ≤ maxJsonDepth
  limits_ok : validateLimits (some input.limits.1) profile = .ok document.manifest.limits
  components_ok : preflightRunComponents input.toRunComponentPreflightInput =
    .ok (document.manifest.backend, document.manifest.components)
  nonce : document.manifest.nonce = input.nonce ∧ isNonce input.nonce = true
  program_eq : document.manifest.program = program.toJson
  inputs_eq : document.manifest.inputs = program.inputs.map (manifestInput input.sources)
  profile_eq : document.manifest.profile = .obj profile
  prompts_ok : promptBindings program document.manifest.inputs profile document.manifest.limits
    document.manifest.components = .ok document.manifest.prompts
  mode : document.manifest.mode = input.authorizationMode.getD .direct
  hash_ok : computeManifestHash document.manifest.toJson = .ok document.manifestHash

section Build

variable {input : BuildRunManifestInput N} {program : RlmProgram N} {profile : Members N}
  {document : RunManifestDocument N}

omit [JsonNumber N] in
theorem owned_some (value : JsonValue N) : ∀ v ∈ some value.1, v.Owned := by
  rintro v ⟨⟩
  exact value.2

theorem built_of_buildRunManifest (h : buildRunManifest input = .ok document) :
    ∃ program profile, Built input program profile document := by
  obtain ⟨u, hdsl, h⟩ := bind_eq_ok.mp h
  obtain ⟨program, hprogram, h⟩ := bind_eq_ok.mp h
  obtain ⟨plainProfile, hplainProfile, h⟩ := bind_eq_ok.mp h
  obtain ⟨profile, hprofile, h⟩ := bind_eq_ok.mp h
  obtain ⟨plainLimits, hplainLimits, h⟩ := bind_eq_ok.mp h
  obtain ⟨limits, hlimits, h⟩ := bind_eq_ok.mp h
  obtain ⟨⟨backend, components⟩, hcomponents, h⟩ := bind_eq_ok.mp h
  obtain ⟨nonce, hnonce, h⟩ := bind_eq_ok.mp h
  obtain ⟨manifestProgram, hmanifestProgram, h⟩ := bind_eq_ok.mp h
  obtain ⟨manifestProfile, hmanifestProfile, h⟩ := bind_eq_ok.mp h
  obtain ⟨prompts, hprompts, h⟩ := bind_eq_ok.mp h
  obtain ⟨manifestHash, hhash, h⟩ := bind_eq_ok.mp h
  obtain rfl := Except.ok.inj h
  obtain ⟨hprofileDepth, rfl⟩ := (plainJson_eq_ok input.profile.2).mp hplainProfile
  obtain ⟨hlimitsDepth, rfl⟩ := (plainJson_eq_ok input.limits.2).mp hplainLimits
  obtain ⟨v, hv, rfl⟩ := map_eq_ok.mp hnonce
  have hnormal := ((validateProgram_eq_ok input.program.2).mp hprogram).1
  obtain ⟨-, rfl⟩ := (plainJson_eq_ok (normalizeProgram_owned input.program.2 hnormal)).mp
    hmanifestProgram
  have hprofileOwned : (Json.obj profile).Owned :=
    owned_some _ _ (validateProfileJson_canonical (owned_some _) hprofile).1
  obtain ⟨-, rfl⟩ := (plainJson_eq_ok hprofileOwned).mp hmanifestProfile
  exact ⟨program, profile, of_decide_eq_true (require_eq_ok.mp hdsl), hprogram, hprofileDepth,
    hprofile, hlimitsDepth, hlimits, hcomponents, ⟨rfl, require_eq_ok.mp hv⟩, rfl, rfl, rfl,
    hprompts, rfl, hhash⟩

theorem Built.buildRunManifest (h : Built input program profile document) :
    buildRunManifest input = .ok document := by
  obtain ⟨hnormal, hprogramDepth, hsame⟩ := (validateProgram_eq_ok input.program.2).mp h.program_ok
  have hprogramOwned := normalizeProgram_owned input.program.2 hnormal
  have hdepth : program.toJson.depth ≤ maxJsonDepth := by
    rw [← canonical_depth hprogramOwned, hsame, canonical_depth input.program.2]
    exact hprogramDepth
  have hvalue := (validateProfileJson_canonical (owned_some _) h.profile_ok).1
  have hprofileOwned : (Json.obj profile).Owned := owned_some _ _ hvalue
  have hprofileDepth : (Json.obj profile).depth ≤ maxJsonDepth := by
    rw [← Option.some.inj hvalue]
    exact h.profile_depth
  refine bind_eq_ok.mpr ⟨(), require_eq_ok.mpr (decide_eq_true h.dslVersion), ?_⟩
  refine bind_eq_ok.mpr ⟨program, h.program_ok, ?_⟩
  refine bind_eq_ok.mpr ⟨_, plainJson_ok input.profile.2 h.profile_depth _, ?_⟩
  refine bind_eq_ok.mpr ⟨profile, h.profile_ok, ?_⟩
  refine bind_eq_ok.mpr ⟨_, plainJson_ok input.limits.2 h.limits_depth _, ?_⟩
  refine bind_eq_ok.mpr ⟨document.manifest.limits, h.limits_ok, ?_⟩
  refine bind_eq_ok.mpr ⟨_, h.components_ok, ?_⟩
  refine bind_eq_ok.mpr ⟨input.nonce, map_eq_ok.mpr ⟨(), require_eq_ok.mpr h.nonce.2, rfl⟩, ?_⟩
  refine bind_eq_ok.mpr ⟨_, plainJson_ok hprogramOwned hdepth _, ?_⟩
  refine bind_eq_ok.mpr ⟨_, plainJson_ok hprofileOwned hprofileDepth _, ?_⟩
  refine bind_eq_ok.mpr ⟨document.manifest.prompts, ?_, ?_⟩
  · rw [← h.inputs_eq]
    exact h.prompts_ok
  have hmanifest : document.manifest = ⟨input.nonce, program.toJson,
      program.inputs.map (manifestInput input.sources), .obj profile, document.manifest.limits,
      document.manifest.backend, document.manifest.components, document.manifest.prompts,
      input.authorizationMode.getD .direct⟩ := by
    rw [← h.nonce.1, ← h.program_eq, ← h.inputs_eq, ← h.profile_eq, ← h.mode]
  refine bind_eq_ok.mpr ⟨document.manifestHash, ?_, ?_⟩
  · rw [← hmanifest]
    exact h.hash_ok
  · rw [← hmanifest]
    rfl

/-- The builder accepts exactly the inputs whose parts it accepts. -/
theorem buildRunManifest_eq_ok : buildRunManifest input = .ok document ↔
    ∃ program profile, Built input program profile document := by
  constructor
  · exact built_of_buildRunManifest
  · rintro ⟨program, profile, h⟩
    exact h.buildRunManifest

end Build

namespace Built

variable {input : BuildRunManifestInput N} {program : RlmProgram N} {profile : Members N}
  {document : RunManifestDocument N}

theorem program_owned (h : Built input program profile document) : program.toJson.Owned :=
  normalizeProgram_owned input.program.2
    ((validateProgram_eq_ok input.program.2).mp h.program_ok).1

theorem profile_owned (h : Built input program profile document) : (Json.obj profile).Owned :=
  owned_some input.profile _ (validateProfileJson_canonical (owned_some _) h.profile_ok).1

theorem limits_owned (h : Built input program profile document) :
    (Json.obj document.manifest.limits).Owned :=
  owned_some input.limits _
    (validateLimits_canonical (owned_some _) h.profile_owned h.limits_ok).1

theorem components_valid (h : Built input program profile document) :
    document.manifest.components.Valid :=
  (preflightRunComponents_valid h.components_ok).2.2

theorem names (h : Built input program profile document) :
    ∀ declared ∈ program.inputs, isIdentifier declared.name = true :=
  normalizeProgram_input_name ((validateProgram_eq_ok input.program.2).mp h.program_ok).1

omit [JsonNumber N] in
theorem inputs_owned (inputs : List (RunManifestInput N)) :
    (Json.arr (inputs.map RunManifestInput.toJson)).Owned := by
  rw [owned_arr, List.forall_mem_map]
  exact fun entry _ => entry.toJson_owned

/-- What the prompts are bound to. -/
def bound (program : RlmProgram N) (profile : Members N) (document : RunManifestDocument N) :
    Json N :=
  bindingInputs program document.manifest.inputs profile document.manifest.limits
    document.manifest.components

theorem bound_owned (h : Built input program profile document) :
    (bound program profile document).Owned := by
  rw [bound, bindingInputs, owned_obj, ← isOwned_obj]
  exact ⟨rfl, by simp [h.program_owned, h.profile_owned, h.limits_owned,
    h.components_valid.toJson_owned, inputs_owned]⟩

theorem prompts_eq (h : Built input program profile document) :
    (bound program profile document).depth ≤ maxJsonDepth ∧
      boundPrompts (promptHashes (bound program profile document))
        document.manifest.components.extractor.isSome = document.manifest.prompts :=
  (promptBindings_eq_ok h.bound_owned).mp h.prompts_ok

omit [JsonNumber N] in
theorem runtimeJson_owned : (runtimeJson : Json N).Owned := rfl

omit [JsonNumber N] in
theorem backend_owned (backend : BackendIdentity) : (backend.toJson : Json N).Owned := rfl

omit [JsonNumber N] in
theorem runJson_owned (nonce : JsString) : (runJson nonce : Json N).Owned := rfl

omit [JsonNumber N] in
theorem mode_owned (mode : LaunchAuthorizationMode) : (mode.toJson : Json N).Owned := rfl

theorem manifest_owned (h : Built input program profile document) :
    document.manifest.toJson.Owned := by
  have hnumber : ∀ n : N, (Json.num n).Owned := fun _ => rfl
  have hprompts : document.manifest.prompts.Owned := by
    rw [← h.prompts_eq.2]
    exact boundPrompts_owned _ _
  rw [RunManifest.toJson, owned_obj, ← isOwned_obj, RunManifest.members, h.program_eq,
    h.profile_eq]
  exact ⟨rfl, by simp [hnumber, hprompts, h.program_owned, h.profile_owned, h.limits_owned,
    h.components_valid.toJson_owned, inputs_owned, runtimeJson_owned, runJson_owned,
    backend_owned, mode_owned]⟩

theorem document_owned (h : Built input program profile document) : document.toJson.Owned := by
  have hstring : ∀ s : JsString, (Json.str s : Json N).Owned := fun _ => rfl
  rw [RunManifestDocument.toJson, owned_obj, ← isOwned_obj]
  exact ⟨rfl, by simp [hstring, h.manifest_owned]⟩

end Built

-- ============================================================================
-- Reading it back
-- ============================================================================

section Read

variable {manifest : Members N}

theorem parseRuntime_read
    (hversion : lookupField manifest (js "schemaVersion") =
      some (.num (JsonNumber.ofNat runManifestSchemaVersion)))
    (hruntime : lookupField manifest (js "runtime") = some (canonical runtimeJson)) :
    parseRuntime manifest = .ok () := by
  have howned := Built.runtimeJson_owned (N := N)
  have hlookup := lookup_canonical howned
  refine bind_eq_ok.mpr ⟨(), ?_, ?_⟩
  · rw [requireCompatible_eq_ok, hversion, numeric, JsonNumber.value_ofNat _ (by decide)]
    exact decide_eq_true rfl
  refine bind_eq_ok.mpr
    ⟨_, (congrArg (record · _ _ _) hruntime).trans (record_of_keys howned rfl _), ?_⟩
  rw [requireCompatible_eq_ok, hlookup, hlookup, hlookup, isText_canonical, isText_canonical,
    isText_canonical]
  simp only [Bool.and_eq_true, isText_iff]
  exact ⟨⟨rfl, rfl⟩, rfl⟩

omit [JsonNumber N] in
theorem parseRun_read {nonce : JsString} (hnonce : isNonce nonce = true)
    (hrun : lookupField manifest (js "run") = some (canonical (runJson nonce))) :
    parseRun manifest = .ok () := by
  have howned := Built.runJson_owned (N := N) nonce
  have hlookup := lookup_canonical howned
  refine bind_eq_ok.mpr
    ⟨_, (congrArg (record · _ _ _) hrun).trans (record_of_keys howned rfl _), ?_⟩
  refine bind_eq_ok.mpr ⟨nonce, ?_, ?_⟩
  · rw [hlookup, string_canonical]
    exact string_eq_ok.mpr ⟨rfl, isNonce_normalized hnonce⟩
  · rw [require_eq_ok, hlookup, isText_canonical, hnonce, Bool.true_and, isText_iff]
    rfl

omit [JsonNumber N] in
theorem parseBackend_read {backend : BackendIdentity}
    (hid : backend.id ≠ [] ∧ trimWhiteSpace backend.id = backend.id)
    (hversion : backend.version ≠ [] ∧ trimWhiteSpace backend.version = backend.version)
    (hbackend : lookupField manifest (js "backend") = some (canonical backend.toJson)) :
    parseBackend manifest = .ok () := by
  have howned := Built.backend_owned (N := N) backend
  have hlookup := lookup_canonical howned
  refine bind_eq_ok.mpr
    ⟨_, (congrArg (record · _ _ _) hbackend).trans (record_of_keys howned rfl _), ?_⟩
  refine bind_eq_ok.mpr ⟨backend.id, ?_, bind_eq_ok.mpr ⟨backend.version, ?_, rfl⟩⟩
  · rw [hlookup, string_canonical]
    exact string_eq_ok.mpr ⟨rfl, hid⟩
  · rw [hlookup, string_canonical]
    exact string_eq_ok.mpr ⟨rfl, hversion⟩

omit [JsonNumber N] in
theorem parseAuthorization_read {mode : LaunchAuthorizationMode}
    (hmode : lookupField manifest (js "launchAuthorization") = some (canonical mode.toJson)) :
    parseAuthorization manifest = .ok () := by
  have howned := Built.mode_owned (N := N) mode
  have hlookup := lookup_canonical howned
  refine bind_eq_ok.mpr
    ⟨_, (congrArg (record · _ _ _) hmode).trans (record_of_keys howned rfl _), ?_⟩
  rw [require_eq_ok, List.any_eq_true]
  refine ⟨mode, ?_, ?_⟩
  · cases mode with
    | confirmed => exact List.mem_cons_self
    | slashCommand => exact List.mem_cons_of_mem _ List.mem_cons_self
    | direct => exact List.mem_cons_of_mem _ (List.mem_cons_of_mem _ List.mem_cons_self)
  · rw [hlookup, isText_canonical, isText_iff]
    rfl

end Read

theorem computeManifestHash_eq_ok {manifest : Json N} (hmanifest : manifest.Owned)
    {manifestHash : JsString} :
    computeManifestHash manifest = .ok manifestHash ↔
      manifest.depth ≤ maxJsonDepth ∧ sha256 (canonical manifest).render = manifestHash := by
  constructor
  · intro h
    obtain ⟨plain, hplain, h⟩ := bind_eq_ok.mp h
    obtain ⟨hdepth, rfl⟩ := (plainJson_eq_ok hmanifest).mp hplain
    rw [canonicalText_ok hdepth] at h
    exact ⟨hdepth, Except.ok.inj h⟩
  · rintro ⟨hdepth, rfl⟩
    rw [computeManifestHash, plainJson_ok hmanifest hdepth]
    refine bind_eq_ok.mpr ⟨_, rfl, ?_⟩
    rw [canonicalText_ok hdepth]
    rfl

namespace Built

variable {input : BuildRunManifestInput N} {program : RlmProgram N} {profile : Members N}
  {document : RunManifestDocument N}

/-- The reader derives the same prompts from the canonical sections. -/
theorem promptBindings_read (h : Built input program profile document) {program' : RlmProgram N}
    (hprogram : canonical program'.toJson = canonical program.toJson)
    (howned : program'.toJson.Owned) :
    promptBindings program' document.manifest.inputs (canonicalMembers profile)
      (canonicalMembers document.manifest.limits) document.manifest.components.canonical =
        .ok document.manifest.prompts := by
  obtain ⟨hdepth, hprompts⟩ := h.prompts_eq
  have hcomponents := h.components_valid
  have hprofile := canonical_obj_members profile
  have hlimits := canonical_obj_members document.manifest.limits
  have hcanonicalOwned := hcomponents.canonical.toJson_owned
  have hboundOwned : (bindingInputs program' document.manifest.inputs (canonicalMembers profile)
      (canonicalMembers document.manifest.limits)
      document.manifest.components.canonical).Owned := by
    rw [bindingInputs, owned_obj, ← isOwned_obj, ← hprofile, ← hlimits]
    exact ⟨rfl, by simp [howned, canonical_owned, hcanonicalOwned, inputs_owned]⟩
  have hsame : canonical (bindingInputs program' document.manifest.inputs
      (canonicalMembers profile) (canonicalMembers document.manifest.limits)
      document.manifest.components.canonical) = canonical (bound program profile document) := by
    apply canonical_obj_congr
    simp only [canonicalFields, hprogram, ← hprofile, ← hlimits,
      canonical_canonical h.profile_owned, canonical_canonical h.limits_owned,
      RunComponents.canonical_toJson hcomponents]
  rw [promptBindings_eq_ok hboundOwned, promptHashes, hsame]
  refine ⟨?_, ?_⟩
  · rw [← canonical_depth hboundOwned, hsame, canonical_depth h.bound_owned]
    exact hdepth
  · rw [← hprompts, promptHashes]
    congr 1
    exact Option.isSome_map

/-- What the reader makes of the sections of a document in canonical form: it accepts each of
    them again, and with no other content. -/
structure Reread (document : RunManifestDocument N) (program : RlmProgram N)
    (profile limits : Members N) (components : RunComponents N) : Prop where
  program_ok : validateProgram (lookupField (canonicalMembers document.manifest.members)
    (js "program")) = .ok program
  program_same : canonical program.toJson = canonical document.manifest.program
  inputs_ok : parseInputs program (canonicalMembers document.manifest.members) =
    .ok document.manifest.inputs
  profile_ok : validateProfileJson (lookupField (canonicalMembers document.manifest.members)
    (js "profile")) = .ok profile
  profile_same : .obj profile = canonical document.manifest.profile
  limits_ok : validateLimits (lookupField (canonicalMembers document.manifest.members)
    (js "limits")) profile = .ok limits
  limits_same : .obj limits = canonical (.obj document.manifest.limits)
  components_ok : parseComponents (canonicalMembers document.manifest.members) = .ok components
  components_same : canonical components.toJson = canonical document.manifest.components.toJson
  prompts_ok : promptBindings program document.manifest.inputs profile limits components =
    .ok document.manifest.prompts

theorem reread (h : Built input program profile document) :
    ∃ program' profile' limits' components',
      Reread document program' profile' limits' components' := by
  have hmembers : (Json.obj document.manifest.members).Owned := h.manifest_owned
  have hlookup := lookup_canonical hmembers
  obtain ⟨program', hprogram', hinputs, hsame⟩ :=
    validateProgram_canonical input.program.2 h.program_ok
  have hprogram := canonical_owned program.toJson
  have howned : program'.toJson.Owned := by
    apply normalizeProgram_owned hprogram
    exact ((validateProgram_eq_ok hprogram).mp hprogram').1
  refine ⟨program', canonicalMembers profile, canonicalMembers document.manifest.limits,
    document.manifest.components.canonical, ?_⟩
  constructor
  · refine (congrArg validateProgram (hlookup _)).trans ?_
    show validateProgram (some (canonical document.manifest.program)) = _
    rw [h.program_eq]
    exact hprogram'
  · rw [h.program_eq]
    exact hsame
  · rw [h.inputs_eq, ← hinputs]
    apply parseInputs_read
    · rw [hinputs]
      exact h.names
    · refine (hlookup _).trans ?_
      show some (canonical (.arr (document.manifest.inputs.map RunManifestInput.toJson))) = _
      rw [h.inputs_eq, hinputs]
  · obtain ⟨hvalue, hread⟩ := validateProfileJson_canonical (owned_some _) h.profile_ok
    refine (congrArg validateProfileJson (hlookup _)).trans ?_
    show validateProfileJson (some (canonical document.manifest.profile)) = _
    rw [h.profile_eq, ← Option.some.inj hvalue]
    exact hread
  · rw [h.profile_eq, canonical_obj_members]
  · obtain ⟨hvalue, hread⟩ := validateLimits_canonical (owned_some _) h.profile_owned h.limits_ok
    refine (congrArg (validateLimits · (canonicalMembers profile)) (hlookup _)).trans ?_
    show validateLimits (some (canonical (.obj document.manifest.limits))) _ = _
    rw [← Option.some.inj hvalue]
    exact hread
  · rw [canonical_obj_members]
  · exact h.components_valid.read (hlookup _)
  · exact RunComponents.canonical_toJson h.components_valid
  · exact h.promptBindings_read hsame howned

/-- The reader accepts the canonical members of a manifest that the builder has made. -/
theorem parseManifest_read (h : Built input program profile document) :
    parseManifest (canonicalMembers document.manifest.members) = .ok () := by
  have hmembers : (Json.obj document.manifest.members).Owned := h.manifest_owned
  have hlookup := lookup_canonical hmembers
  obtain ⟨program', profile', limits', components', hreread⟩ := h.reread
  obtain ⟨hid, hversion, -⟩ := preflightRunComponents_valid h.components_ok
  refine bind_eq_ok.mpr ⟨(), parseRuntime_read (hlookup _) (hlookup _), ?_⟩
  refine bind_eq_ok.mpr ⟨(), parseRun_read (h.nonce.1 ▸ h.nonce.2) (hlookup _), ?_⟩
  refine bind_eq_ok.mpr ⟨program', hreread.program_ok, ?_⟩
  refine bind_eq_ok.mpr ⟨document.manifest.inputs, hreread.inputs_ok, ?_⟩
  refine bind_eq_ok.mpr ⟨profile', hreread.profile_ok, ?_⟩
  refine bind_eq_ok.mpr ⟨limits', hreread.limits_ok, ?_⟩
  refine bind_eq_ok.mpr ⟨(), parseBackend_read hid hversion (hlookup _), ?_⟩
  refine bind_eq_ok.mpr ⟨components', hreread.components_ok, ?_⟩
  obtain ⟨-, hprompts⟩ := h.prompts_eq
  have hmember : lookupField (canonicalMembers document.manifest.members) (js "prompts") =
      some (canonical (boundPrompts (promptHashes (bound program profile document))
        document.manifest.components.extractor.isSome)) := by
    rw [hlookup, hprompts]
    rfl
  obtain ⟨prompts, hparse, hobj⟩ := parsePrompts_read (promptHashes_valid _) hmember
  refine bind_eq_ok.mpr ⟨prompts, hparse, ?_⟩
  refine bind_eq_ok.mpr ⟨document.manifest.prompts, hreread.prompts_ok, ?_⟩
  refine bind_eq_ok.mpr ⟨(), ?_, parseAuthorization_read (hlookup _)⟩
  rw [← hprompts]
  exact checkPrompts_read (boundPrompts_owned _ _) (show 3 ≤ maxJsonDepth by decide) hobj

/-- The canonical form of a document that the builder has made is accepted as it is. -/
theorem parseManifestDocument_read (h : Built input program profile document)
    (hdepth : document.toJson.depth ≤ maxJsonDepth) :
    parseManifestDocument (canonical document.toJson) = .ok (canonical document.toJson) := by
  have howned := h.document_owned
  have hlookup := lookup_canonical howned
  have hmanifest := h.manifest_owned
  obtain ⟨hmanifestDepth, hhash⟩ := (computeManifestHash_eq_ok hmanifest).mp h.hash_ok
  have hsnapshot : plainJson (some (canonical document.toJson)) (js "run manifest document") =
      .ok (canonical document.toJson) :=
    plainJson_ok (canonical_owned _) ((canonical_depth howned).trans_le hdepth) _
  refine bind_eq_ok.mpr ⟨_, hsnapshot, ?_⟩
  refine bind_eq_ok.mpr ⟨_, record_of_keys howned rfl _, ?_⟩
  refine bind_eq_ok.mpr ⟨document.manifestHash, ?_, ?_⟩
  · rw [hlookup, hash_canonical]
    refine hash_eq_ok.mpr ⟨rfl, ?_⟩
    rw [← hhash]
    exact isHash_sha256 _
  refine bind_eq_ok.mpr ⟨canonicalMembers document.manifest.members, ?_, ?_⟩
  · rw [hlookup]
    exact record_of_keys hmanifest rfl _
  refine bind_eq_ok.mpr ⟨document.manifestHash, ?_, ?_⟩
  · rw [← canonical_obj_members, ← RunManifest.toJson,
      computeManifestHash_eq_ok (canonical_owned _), canonical_canonical hmanifest]
    exact ⟨(canonical_depth hmanifest).trans_le hmanifestDepth, hhash⟩
  refine bind_eq_ok.mpr ⟨(), require_eq_ok.mpr (decide_eq_true rfl), ?_⟩
  exact bind_eq_ok.mpr ⟨(), h.parseManifest_read, rfl⟩

end Built

/-- A document that the reader accepts is the one it is given, and its hash is that of its
    manifest. -/
theorem parseManifestDocument_eq_ok {value snapshot : Json N} (hvalue : value.Owned)
    (h : parseManifestDocument value = .ok snapshot) :
    snapshot = value ∧ ∃ document manifest manifestHash, value = .obj document ∧
      HasFields document [js "manifest", js "manifestHash"] [] ∧
      lookupField document (js "manifest") = some manifest ∧
      lookupField document (js "manifestHash") = some (.str manifestHash) ∧
      manifest.depth ≤ maxJsonDepth ∧ sha256 (canonical manifest).render = manifestHash := by
  obtain ⟨plain, hplain, h⟩ := bind_eq_ok.mp h
  obtain ⟨-, rfl⟩ := (plainJson_eq_ok hvalue).mp hplain
  obtain ⟨document, hdocument, h⟩ := bind_eq_ok.mp h
  obtain ⟨manifestHash, hhash, h⟩ := bind_eq_ok.mp h
  obtain ⟨manifest, hmanifest, h⟩ := bind_eq_ok.mp h
  obtain ⟨actualHash, hactual, h⟩ := bind_eq_ok.mp h
  obtain ⟨u, hsame, h⟩ := bind_eq_ok.mp h
  obtain ⟨⟨⟩, hparse, h⟩ := bind_eq_ok.mp h
  obtain rfl := Except.ok.inj h
  obtain ⟨hobj, hfields⟩ := record_eq_ok.mp hdocument
  obtain rfl := Option.some.inj hobj
  have hmember := (record_eq_ok.mp hmanifest).1
  have howned := owned_lookupField hvalue _ _ hmember
  obtain ⟨hdepth, hsha⟩ := (computeManifestHash_eq_ok howned).mp hactual
  have hequal : actualHash = manifestHash := of_decide_eq_true (require_eq_ok.mp hsame)
  exact ⟨rfl, document, _, manifestHash, rfl, hfields, hmember, (hash_eq_ok.mp hhash).1, hdepth,
    hsha.trans hequal⟩

end PiRlm.Runtime.Manifest

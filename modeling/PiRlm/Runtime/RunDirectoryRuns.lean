/-
  PiRlm.Runtime.RunDirectoryRuns

  The round trip of a manifest: what the builder makes is claimed and read back, over every
  execution in which no file operation fails.
-/
import PiRlm.Runtime.RunDirectorySound

namespace PiRlm.Runtime.RunDirectory

open PiRlm.Lib PiRlm.Lib.Json PiRlm.Core PiRlm.Shell PiRlm.Runtime.Manifest

-- ============================================================================
-- Executions without a failed operation
-- ============================================================================

/-- A fault of the environment fails the operation it answers. -/
theorem fault_fails (o : RunDirectoryOp) (l : RunDirectoryLabel) (s : RunDirectory)
    (hl : runDirectoryDevice.fault l = true) :
    ∃ e, (runDirectoryDevice.perform o l s).2 = .error e := by
  cases l with
  | done count => exact absurd hl nofun
  | failsBefore error => exact ⟨error, rfl⟩
  | failsAfter error => exact ⟨error, rfl⟩
  | torn count error =>
    refine ⟨error, ?_⟩
    cases o <;> rfl

variable {N : Type} [JsonNumber N] {document : RunManifestDocument N} {allowed : List JsString}
  {s s' : RunDirectory}

theorem Yields.succeeds {α : Type} {program : Io α} {r : Except RunDirectoryFailure α}
    (h : Yields program r s s') {Q : Except RunDirectoryFailure α → RunDirectory → Prop}
    (hQ : Q r s') : program.Succeeds runDirectoryDevice Q s :=
  Program.Succeeds.of_ends fault_fails (h.ends hQ)

/-- `open(path, "wx")` fails on a file that is there. -/
theorem createFile_taken {name : JsString} (h : (s.lookup name).isSome = true)
    (l : RunDirectoryLabel) :
    ∃ e, (runDirectoryDevice.perform (.createFile name) l s).2 = .error e := by
  cases l with
  | done count =>
    refine ⟨existing, ?_⟩
    show (effect count s (.createFile name)).2 = _
    rw [effect, if_pos h]
  | failsBefore error => exact fault_fails _ _ s rfl
  | failsAfter error => exact fault_fails _ _ s rfl
  | torn count error => exact fault_fails _ _ s rfl

/-- A claim of a directory that is claimed already has a failed operation. -/
theorem claimLock_taken (h : (s.lookup runLockFile).isSome = true)
    {Q : Except RunDirectoryFailure Unit → RunDirectory → Prop} :
    (claimLock document allowed).Succeeds runDirectoryDevice Q s := by
  apply Program.Succeeds.bind
  apply Program.Succeeds.bind
  apply Program.Succeeds.attempt
  exact Program.Succeeds.perform_fails (createFile_taken h)

theorem publish_taken {temp serialized : JsString} (h : (s.lookup temp).isSome = true)
    {Q : Except RunDirectoryFailure Unit → RunDirectory → Prop} :
    (publish temp serialized).Succeeds runDirectoryDevice Q s := by
  apply Program.Succeeds.bind
  apply Yields.succeeds syncEntries_yields.attempt
  apply Program.Succeeds.bind
  apply Program.Succeeds.attempt
  exact Program.Succeeds.perform_fails (createFile_taken h)

/-- A claim that is not rejected at once. -/
theorem claimRunDirectory_eq {serialized : JsString}
    (hserialized : serializeDocument document = .ok serialized)
    (hsize : (utf8 serialized).length ≤ maxRunManifestBytes) :
    claimRunDirectory document allowed = (do
      claimLock document allowed
      publish (manifestTempFile document.manifest.nonce) serialized) := by
  rw [claimRunDirectory, hserialized]
  exact if_neg (not_lt.mpr hsize)

/-- Such a claim begins with the lock. -/
theorem claimRunDirectory_ne_raise {serialized : JsString}
    (hserialized : serializeDocument document = .ok serialized)
    (hsize : (utf8 serialized).length ≤ maxRunManifestBytes) (e : RunDirectoryFailure) :
    claimRunDirectory document allowed ≠ .raise e := by
  rw [claimRunDirectory_eq hserialized hsize]
  exact nofun

/-- Either a document is rejected before anything is done, or its text fits. -/
theorem claimRunDirectory_cases (document : RunManifestDocument N) (allowed : List JsString) :
    (∃ e, claimRunDirectory document allowed = .raise e) ∨
      ∃ serialized, serializeDocument document = .ok serialized ∧
        (utf8 serialized).length ≤ maxRunManifestBytes := by
  cases hserialized : serializeDocument document with
  | error cause =>
    left
    rw [claimRunDirectory, hserialized]
    exact ⟨_, rfl⟩
  | ok serialized =>
    by_cases hsize : (utf8 serialized).length ≤ maxRunManifestBytes
    · exact .inr ⟨serialized, rfl, hsize⟩
    · left
      rw [claimRunDirectory, hserialized]
      exact ⟨_, if_pos (not_le.mp hsize)⟩

/-- When no operation fails, a claim writes the text of the document: a lock or a temporary
    file that is there already would fail the claim. -/
theorem claimRunDirectory_writes {serialized : JsString}
    (hserialized : serializeDocument document = .ok serialized)
    (hsize : (utf8 serialized).length ≤ maxRunManifestBytes) (hstrays : s.strays allowed = []) :
    (claimRunDirectory document allowed).Succeeds runDirectoryDevice (fun r s' => r = .ok () ∧
      s'.lookup runManifestFile = some (privateFile runManifestFile (utf8 serialized))) s := by
  cases hlock : s.lookup runLockFile with
  | some file =>
    rw [claimRunDirectory_eq hserialized hsize]
    apply Program.Succeeds.bind
    exact claimLock_taken (Option.isSome_of_eq_some hlock)
  | none =>
    cases htemp : s.lookup (manifestTempFile document.manifest.nonce) with
    | none =>
      obtain ⟨s', hyields, hfile⟩ :=
        claimRunDirectory_yields hserialized hsize hlock htemp hstrays
      exact Yields.succeeds hyields ⟨rfl, hfile⟩
    | some file =>
      obtain ⟨text, htext⟩ := lockText_ok document
      rw [claimRunDirectory_eq hserialized hsize]
      apply Program.Succeeds.bind
      apply Yields.succeeds (claimLock_yields hlock hstrays htext)
      apply publish_taken
      rw [lookup_written_ne (manifestTempFile_ne_lock _), htemp]
      rfl

/-- When no operation fails, a claim of a directory with other entries is refused, and leaves
    the directory as it was. -/
theorem claimRunDirectory_refuses {serialized : JsString}
    (hserialized : serializeDocument document = .ok serialized)
    (hsize : (utf8 serialized).length ≤ maxRunManifestBytes) (hstrays : s.strays allowed ≠ []) :
    (claimRunDirectory document allowed).Succeeds runDirectoryDevice (fun r s' =>
      r = .error (.directory .notEmpty (js "run directory contains existing state")) ∧ s' = s)
      s := by
  rw [claimRunDirectory_eq hserialized hsize]
  apply Program.Succeeds.bind
  cases hlock : s.lookup runLockFile with
  | some file => exact claimLock_taken (Option.isSome_of_eq_some hlock)
  | none => exact Yields.succeeds (claimLock_throws hlock hstrays) ⟨rfl, rfl⟩

-- ============================================================================
-- The round trip
-- ============================================================================

/-- Whenever no operation fails, the reader gives the document in canonical form, under the
    same hash. -/
def ReadsBack (document : RunManifestDocument N) (s : RunDirectory) : Prop :=
  Yields (readRunManifest N) (.ok (canonical document.toJson)) s s ∧
    lookupField (membersOf (some (canonical document.toJson))) (js "manifestHash") =
      some (.str document.manifestHash)

/-- A claim in which no operation fails returns, and leaves a directory that reads back. -/
def Publishes (document : RunManifestDocument N) (allowed : List JsString) (s : RunDirectory) :
    Prop :=
  (claimRunDirectory document allowed).Succeeds runDirectoryDevice
    (fun r s' => r = .ok () ∧ ReadsBack document s') s

/-- A claim in which no operation fails is refused, and changes nothing. -/
def Refuses (document : RunManifestDocument N) (allowed : List JsString) (s : RunDirectory) :
    Prop :=
  (claimRunDirectory document allowed).Succeeds runDirectoryDevice (fun r s' =>
    r = .error (.directory .notEmpty (js "run directory contains existing state")) ∧ s' = s) s

/-- The texts of two manifests differ and have one hash. -/
def Collides (manifest manifest' : Json N) : Prop :=
  (canonical manifest).render ≠ (canonical manifest').render ∧
    sha256 (canonical manifest).render = sha256 (canonical manifest').render

section RoundTrip

variable {input : BuildRunManifestInput N} {program : RlmProgram N} {profile : Members N}

theorem hash_member (h : Built input program profile document) :
    lookupField (membersOf (some (canonical document.toJson))) (js "manifestHash") =
      some (.str document.manifestHash) := by
  rw [RunManifestDocument.toJson, canonical_obj_members]
  exact lookup_canonical h.document_owned _

/-- What the builder makes is published in a directory that holds nothing else. -/
theorem publishes_of_built (h : Built input program profile document) {serialized : JsString}
    (hserialized : serializeDocument document = .ok serialized)
    (hsize : (utf8 serialized).length ≤ maxRunManifestBytes) (hstrays : s.strays allowed = []) :
    Publishes document allowed s := by
  obtain ⟨hdepth, rfl⟩ := (serializeDocument_eq_ok h.document_owned).mp hserialized
  have howned := h.document_owned
  apply (claimRunDirectory_writes hserialized hsize hstrays).mono
  rintro r s' ⟨hr, hfile⟩
  refine ⟨hr, ?_, hash_member h⟩
  have hstored : storedText (canonical document.toJson) = storedText document.toJson := by
    rw [storedText, storedText, canonical_canonical howned]
  apply readRunManifest_yields (canonical_canonical howned).symm
  · exact h.parseManifestDocument_read hdepth
  · rw [canonical_depth howned]
    exact hdepth
  · rw [hstored]
    exact hsize
  · rw [hstored]
    exact hfile

omit [JsonNumber N] in
theorem lookup_of_hasFields {fields : Members N} {required optional : List JsString}
    (h : HasFields fields required optional) {key : JsString} (hkey : key ∉ required ++ optional) :
    lookupField fields key = none := by
  rw [← Option.not_isSome_iff_eq_none, lookupField_isSome]
  intro hmem
  exact hkey (h.allowed key hmem)

/-- Two documents with the same manifest and the same hash have one canonical form. -/
theorem canonical_document {fields : Members N} (howned : (Json.obj fields).Owned)
    (hfields : HasFields fields [js "manifest", js "manifestHash"] []) {manifest : Json N}
    (hmanifest : lookupField fields (js "manifest") = some manifest)
    (hhash : lookupField fields (js "manifestHash") = some (.str document.manifestHash))
    (hsame : canonical manifest = canonical document.manifest.toJson) :
    canonical (.obj fields) = canonical document.toJson := by
  have hnodup : [js "manifest", js "manifestHash"].Nodup := by decide
  rw [RunManifestDocument.toJson]
  refine canonical_obj_ext (owned_obj.mp howned).1.1 hnodup ?_
  intro key
  by_cases hmember : key = js "manifest"
  · rw [hmember, hmanifest, Option.map_some, hsame]
    rfl
  by_cases hmember' : key = js "manifestHash"
  · rw [hmember', hhash]
    rfl
  · have hother : key ∉ [js "manifest", js "manifestHash"] := by
      simp only [List.mem_cons, List.not_mem_nil, or_false, not_or]
      exact ⟨hmember, hmember'⟩
    rw [lookup_of_hasFields hfields hother]
    have hnone : lookupField [(js "manifest", document.manifest.toJson),
        (js "manifestHash", .str document.manifestHash)] key = none := by
      rw [← Option.not_isSome_iff_eq_none, lookupField_isSome]
      exact hother
    rw [hnone]

/-- What is read under the hash of a document is that document, or a collision. -/
theorem read_same_hash (h : Built input program profile document) {v : Json N}
    (hcanonical : v = canonical v) (hdocument : parseManifestDocument v = .ok v)
    (hhash : lookupField (membersOf (some v)) (js "manifestHash") =
      some (.str document.manifestHash)) :
    ∃ manifest, lookupField (membersOf (some v)) (js "manifest") = some manifest ∧
      (v = canonical document.toJson ∨ Collides manifest document.manifest.toJson) := by
  have howned : v.Owned := hcanonical ▸ canonical_owned v
  obtain ⟨-, fields, manifest, manifestHash, rfl, hfields, hmanifest, hmember, -, hsha⟩ :=
    parseManifestDocument_eq_ok howned hdocument
  refine ⟨manifest, hmanifest, ?_⟩
  obtain rfl : manifestHash = document.manifestHash :=
    Json.str.inj (Option.some.inj (hmember.symm.trans hhash))
  obtain ⟨-, hsha'⟩ := (computeManifestHash_eq_ok h.manifest_owned).mp h.hash_ok
  by_cases htext : (canonical manifest).render = (canonical document.manifest.toJson).render
  · left
    rw [hcanonical]
    exact canonical_document howned hfields hmanifest hhash (render_injective htext)
  · right
    exact ⟨htext, hsha.trans hsha'.symm⟩

end RoundTrip

/-- The round trip of a manifest.  A document that the builder has made is rejected before the
    lock is created, or it is published in every directory without strays and read back; every
    section of it is read again as the same.  Whatever the reader accepts, from any directory
    and through any failures, under the same hash is the document itself, or a collision. -/
theorem manifest_round_trip {input : BuildRunManifestInput N}
    (h : buildRunManifest input = .ok document) :
    (∀ (value : JsonValue N) (program : RlmProgram N), normalizeProgram value.1 = .ok program →
      normalizeProgram program.toJson = .ok program) ∧
    (Json.parse (storedText document.toJson) = some (canonical document.toJson) ∧
      ∃ program profile limits components,
        Built.Reread document program profile limits components) ∧
    (∀ allowed, (∃ e, claimRunDirectory document allowed = .raise e) ∨
      ∀ s : RunDirectory, (s.strays allowed = [] → Publishes document allowed s) ∧
        (s.strays allowed ≠ [] → Refuses document allowed s)) ∧
    ∀ ls s s' v, (readRunManifest N).exec runDirectoryDevice ls s = (s', some (.ok v)) →
      lookupField (membersOf (some v)) (js "manifestHash") = some (.str document.manifestHash) →
      ∃ manifest, lookupField (membersOf (some v)) (js "manifest") = some manifest ∧
        (v = canonical document.toJson ∨ Collides manifest document.manifest.toJson) := by
  obtain ⟨program, profile, hbuilt⟩ := buildRunManifest_eq_ok.mp h
  refine ⟨?_, ⟨parse_storedText _, hbuilt.reread⟩, ?_, ?_⟩
  · intro value program hprogram
    exact normalizeProgram_toJson value.2 hprogram
  · intro allowed
    rcases claimRunDirectory_cases document allowed with hraise | ⟨serialized, hserialized, hsize⟩
    · exact .inl hraise
    right
    intro s
    constructor
    · exact publishes_of_built hbuilt hserialized hsize
    · exact claimRunDirectory_refuses hserialized hsize
  · intro ls s s' v hexec hhash
    obtain ⟨hcanonical, hdocument⟩ :=
      readRunManifest_returns.exec runDirectoryDevice (congrArg Prod.snd hexec)
    exact read_same_hash hbuilt hcanonical hdocument hhash

-- ============================================================================
-- A run with all the optional parts
-- ============================================================================

def sampleProgram : RlmProgram Int :=
  ⟨js "o", [⟨js "source", js "text", js "d", some (js "c")⟩],
    [⟨js "answer", .obj [(js "type", .str (js "string"))], some (js "d")⟩], js "default",
    some (.obj [(js "tag", .num 1)])⟩

def sampleProfile : Members Int :=
  (js "name", .str (js "p")) :: profileNumbers.map (fun name => (name, .num 1)) ++
    [(js "trajectory", .obj (trajectoryFields.map fun name => (name, .num 1))),
      (js "models", .obj (modelFields.map fun name => (name, .str (js "m"))))]

def sampleLimits : Members Int := limitFields.map fun name => (name, .num 1)

def sampleIdentity : RuntimeComponentIdentity Int := ⟨js "m", js "1", .null⟩

def sampleComponents : RunComponents Int :=
  ⟨sampleIdentity, sampleIdentity, some .stateToken, some sampleIdentity, some sampleIdentity⟩

def sampleCapability : ResumeCapability Int :=
  .object ⟨.data (some ⟨.str controllerResumeCapabilityVersion, rfl⟩),
    .data (some ⟨.str (js "state-token"), rfl⟩), .function, .function, .function⟩

def sampleSources (_ : JsString) : Option SourceText := some ⟨js "x", by decide⟩

def sampleInput : BuildRunManifestInput Int where
  backendId := some ⟨.str (js "b"), rfl⟩
  backendVersion := some ⟨.str (js "1"), rfl⟩
  model := some ⟨sampleIdentity.toJson, rfl⟩
  controller := some ⟨sampleIdentity.toJson, rfl⟩
  resumeCapability := sampleCapability
  extractor := some (some ⟨sampleIdentity.toJson, rfl⟩)
  agentDelegation := some (some ⟨sampleIdentity.toJson, rfl⟩)
  program := ⟨sampleProgram.toJson, rfl⟩
  sources := sampleSources
  profile := ⟨.obj sampleProfile, rfl⟩
  limits := ⟨.obj sampleLimits, rfl⟩
  authorizationMode := some .confirmed
  nonce := js "n"
  dslVersion := rlmDslVersion

def sampleInputs : List (RunManifestInput Int) :=
  sampleProgram.inputs.map (manifestInput sampleSources)

def sampleBound : Json Int :=
  bindingInputs sampleProgram sampleInputs sampleProfile sampleLimits sampleComponents

def sampleManifest : RunManifest Int where
  nonce := js "n"
  program := sampleProgram.toJson
  inputs := sampleInputs
  profile := .obj sampleProfile
  limits := sampleLimits
  backend := ⟨js "b", js "1"⟩
  components := sampleComponents
  prompts := boundPrompts (promptHashes sampleBound) true
  mode := .confirmed

def sampleDocument : RunManifestDocument Int :=
  ⟨sampleManifest, sha256 (canonical sampleManifest.toJson).render⟩

set_option maxRecDepth 4000 in
theorem sampleProgram_normal : normalizeProgram sampleProgram.toJson = .ok sampleProgram := rfl

set_option maxRecDepth 4000 in
theorem sampleProfile_ok : validateProfileJson (some (.obj sampleProfile)) = .ok sampleProfile := by
  have hpair (name : JsString) (allowZero : Bool) : Manifest.safeInteger name
      (sum (numeric (some (.num (1 : Int)))) (numeric (some (.num (1 : Int))))) allowZero = .ok () := by
    have htwo : sum (numeric (some (.num (1 : Int)))) (numeric (some (.num (1 : Int)))) =
        numeric (some (.num (2 : Int))) := by
      simp only [sum, numeric, JsonNumber.value]
      norm_num
    rw [htwo]
    cases allowZero <;> rfl
  have hprofile : validateProfile sampleProfile = .ok () := by
    refine bind_eq_ok.mpr ⟨(), rfl, ?_⟩
    refine bind_eq_ok.mpr ⟨(), rfl, ?_⟩
    refine bind_eq_ok.mpr ⟨(), rfl, ?_⟩
    refine bind_eq_ok.mpr ⟨(), rfl, ?_⟩
    refine bind_eq_ok.mpr ⟨(), hpair _ false, ?_⟩
    refine bind_eq_ok.mpr ⟨(), rfl, ?_⟩
    exact bind_eq_ok.mpr ⟨(), hpair _ true, hpair _ true⟩
  refine bind_eq_ok.mpr ⟨sampleProfile, rfl, ?_⟩
  refine bind_eq_ok.mpr ⟨js "p", rfl, ?_⟩
  refine bind_eq_ok.mpr ⟨(), rfl, ?_⟩
  refine bind_eq_ok.mpr ⟨(), rfl, ?_⟩
  refine bind_eq_ok.mpr ⟨trajectoryFields.map fun name => (name, .num 1), rfl, ?_⟩
  refine bind_eq_ok.mpr ⟨(), rfl, ?_⟩
  refine bind_eq_ok.mpr ⟨modelFields.map fun name => (name, .str (js "m")), rfl, ?_⟩
  refine bind_eq_ok.mpr ⟨(), rfl, ?_⟩
  exact bind_eq_ok.mpr ⟨(), hprofile, rfl⟩

theorem sampleProgram_ok : validateProgram (some sampleProgram.toJson) = .ok sampleProgram :=
  (validateProgram_eq_ok sampleInput.program.2).mpr ⟨sampleProgram_normal, by decide, rfl⟩

theorem sampleBuilt : Built sampleInput sampleProgram sampleProfile sampleDocument where
  dslVersion := rfl
  program_ok := sampleProgram_ok
  profile_depth := by decide
  profile_ok := sampleProfile_ok
  limits_depth := by decide
  limits_ok := rfl
  components_ok := rfl
  nonce := ⟨rfl, rfl⟩
  program_eq := rfl
  inputs_eq := rfl
  profile_eq := rfl
  prompts_ok := by
    have howned : sampleBound.Owned := rfl
    have hdepth : sampleBound.depth ≤ maxJsonDepth := by decide
    exact (promptBindings_eq_ok howned).mpr ⟨hdepth, rfl⟩
  mode := rfl
  hash_ok := by
    have howned : sampleManifest.toJson.Owned := rfl
    have hdepth : sampleManifest.toJson.depth ≤ maxJsonDepth := by decide
    exact (computeManifestHash_eq_ok howned).mpr ⟨hdepth, rfl⟩

theorem sampleDocument_bound : sampleDocument.toJson.lengthBound < maxRunManifestBytes := by
  have hsha (s : JsString) : (sha256 s).length = 64 := Sha256.hexDigest_length (utf8 s)
  simp only [RunManifestDocument.toJson, sampleDocument, RunManifest.toJson, RunManifest.members,
    sampleManifest, runJson, runId, boundPrompts, promptsJson, controllerPrompts,
    extractorPrompts, promptHashes, lengthBound, lengthBoundFields, List.length_append, hsha]
  decide

theorem sampleDocument_fits :
    ∃ serialized, serializeDocument sampleDocument = .ok serialized ∧
      (utf8 serialized).length ≤ maxRunManifestBytes := by
  have howned := sampleBuilt.document_owned
  have hdepth : sampleDocument.toJson.depth ≤ maxJsonDepth := by decide
  have hlength := (storedText_le howned).trans (Nat.succ_le_of_lt sampleDocument_bound)
  exact ⟨_, (serializeDocument_eq_ok howned).mpr ⟨hdepth, rfl⟩, hlength⟩

theorem manifest_round_trip_sample :
    buildRunManifest sampleInput = .ok sampleDocument ∧ Publishes sampleDocument [] ⟨[]⟩ := by
  have hbuild := sampleBuilt.buildRunManifest
  have hfits := sampleDocument_fits
  -- no more than this counts of the document
  generalize sampleDocument = document at hbuild hfits ⊢
  obtain ⟨serialized, hserialized, hsize⟩ := hfits
  obtain ⟨-, -, hclaim, -⟩ := manifest_round_trip hbuild
  have hruns := (hclaim []).resolve_left
    (not_exists.mpr (claimRunDirectory_ne_raise hserialized hsize))
  exact ⟨hbuild, (hruns ⟨[]⟩).1 rfl⟩

/-- A directory with another entry: the lock is created, no operation fails, and the claim
    throws. -/
theorem claimRunDirectory_stray :
    buildRunManifest sampleInput = .ok sampleDocument ∧
      (∀ e, claimRunDirectory sampleDocument [] ≠ .raise e) ∧
      ¬Publishes sampleDocument [] ⟨[privateFile (js "notes.txt") []]⟩ := by
  have hbuild := sampleBuilt.buildRunManifest
  have hfits := sampleDocument_fits
  generalize sampleDocument = document at hbuild hfits ⊢
  obtain ⟨serialized, hserialized, hsize⟩ := hfits
  refine ⟨hbuild, claimRunDirectory_ne_raise hserialized hsize, ?_⟩
  intro hpublishes
  rw [Publishes, claimRunDirectory_eq hserialized hsize] at hpublishes
  have hcreate := hpublishes (.done 0) () rfl
  have hread := hcreate (.done 0) _ rfl
  have hclose := hread (.done 0) () rfl
  have hunlink := hclose (.done 0) () rfl
  have hopen := hunlink (.done 0) () rfl
  have hsync := hopen (.done 0) () rfl
  obtain ⟨hok, -⟩ := hsync (.done 0) () rfl
  exact absurd hok nofun

end PiRlm.Runtime.RunDirectory

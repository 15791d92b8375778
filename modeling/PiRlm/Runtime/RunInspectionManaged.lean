/-
  PiRlm.Runtime.RunInspectionManaged

  Inspecting a run that has been published.

  The manifest that the builder has made, with its lock and a journal of valid records, is
  an authority of an inspection.  Whatever the reader of manifests accepts has the members
  that an inspection uses.
-/
import Mathlib
import PiRlm.Runtime.RunDirectoryRuns
import PiRlm.Runtime.RunInspectionRuns
import PiRlm.Shell.JournalRuns

namespace PiRlm.Runtime

open PiRlm.Lib PiRlm.Core PiRlm.Shell

variable {N : Type} [JsonNumber N]

-- ============================================================================
-- The reader of manifests
-- ============================================================================

omit [JsonNumber N] in
/-- The members of a manifest document that an inspection uses: `manifest.run.id`,
    `manifestHash` and `manifest.limits`. -/
def inspectedMembers (snapshot : Json N) : Option (JsString × JsString × Json N) := do
  let document ← record (some snapshot)
  let manifest ← record (get document (js "manifest"))
  let run ← record (get manifest (js "run"))
  let limits ← get manifest (js "limits")
  pure (stringAt run (js "id"), stringAt document (js "manifestHash"), limits)

def parseRunManifestDocument (input : Json N) :
    Except ManifestFailure (RunManifestDocument N) :=
  match Manifest.parseManifestDocument input with
  | .error (.compatibility _) => .error .incompatible
  | .error _ => .error .invalid
  | .ok snapshot =>
    match inspectedMembers snapshot with
    | none => .error .invalid
    | some (runId, manifestHash, limits) =>
      if h : isPrefixedHash (js "run_") runId = true ∧ isHash manifestHash = true ∧
          limits.depth ≤ 1 then
        .ok ⟨runId, manifestHash, limits, h.1, h.2.1, h.2.2⟩
      else .error .invalid

/-- A member that holds a safe integer is a number. -/
theorem numeric_of_integer {value : Option (Json N)} {path : JsString} {minimum : ℚ} {u : Unit}
    (h : Manifest.integer value path minimum = .ok u) : ∃ n, value = some (.num n) := by
  have hpassed := Manifest.require_eq_ok.mp h
  cases value with
  | none => exact absurd hpassed Bool.false_ne_true
  | some v =>
    cases v with
    | num n => exact ⟨n, rfl⟩
    | _ => exact absurd hpassed Bool.false_ne_true

/-- The limits of a manifest are numbers. -/
theorem depth_of_validateLimits {v : Json N} (hv : v.Owned) {profile limits : Manifest.Members N}
    (h : Manifest.validateLimits (some v) profile = .ok limits) : v.depth ≤ 1 := by
  obtain ⟨fields, hfields, h⟩ := bind_eq_ok.mp h
  obtain ⟨u, hintegers, h⟩ := bind_eq_ok.mp h
  obtain ⟨u', htoken, -⟩ := bind_eq_ok.mp h
  obtain ⟨hvalue, hkeys⟩ := Manifest.record_eq_ok.mp hfields
  obtain rfl := Option.some.inj hvalue
  have hnodup := (Json.owned_obj.mp hv).1.1
  rw [Json.depth, Json.depthFields_le]
  rintro ⟨key, member⟩ hmember
  have hlookup : Json.lookupField fields key = some member :=
    (Json.lookupField_eq_some_iff hnodup).mpr hmember
  have hnumber : ∃ n, Json.lookupField fields key = some (.num n) := by
    rcases List.mem_append.mp (hkeys.allowed key (List.mem_map_of_mem hmember)) with hkey | hkey
    · exact numeric_of_integer (Manifest.each_eq_ok.mp hintegers key hkey)
    · obtain rfl := List.mem_singleton.mp hkey
      rw [Manifest.checkTokenLimit, if_pos (Option.isSome_of_eq_some hlookup)] at htoken
      exact numeric_of_integer htoken
  obtain ⟨n, hn⟩ := hnumber
  obtain rfl := Option.some.inj (hlookup.symm.trans hn)
  exact le_rfl

theorem isPrefixedHash_append {start hash : JsString} (h : isHash hash = true) :
    isPrefixedHash start (start ++ hash) = true := by
  rw [isPrefixedHash, List.drop_left, h, Bool.and_true, List.isPrefixOf_iff_prefix]
  exact List.prefix_append start hash

theorem isPrefixedHash_runId (nonce : JsString) :
    isPrefixedHash (js "run_") (Manifest.runId nonce) = true :=
  isPrefixedHash_append (isHash_sha256 nonce)

/-- Whatever the reader of manifests accepts has the members that an inspection uses, and they
    are of their kinds. -/
theorem exists_inspectedMembers {v snapshot : Json N} (hv : v.Owned)
    (h : Manifest.parseManifestDocument v = .ok snapshot) :
    ∃ runId manifestHash limits,
      inspectedMembers snapshot = some (runId, manifestHash, limits) ∧
      isPrefixedHash (js "run_") runId = true ∧ isHash manifestHash = true ∧
      limits.depth ≤ 1 := by
  obtain ⟨plain, hplain, h⟩ := bind_eq_ok.mp h
  obtain ⟨-, rfl⟩ := (Manifest.plainJson_eq_ok hv).mp hplain
  obtain ⟨document, hdocument, h⟩ := bind_eq_ok.mp h
  obtain ⟨manifestHash, hhash, h⟩ := bind_eq_ok.mp h
  obtain ⟨manifest, hmanifest, h⟩ := bind_eq_ok.mp h
  obtain ⟨actualHash, -, h⟩ := bind_eq_ok.mp h
  obtain ⟨u, -, h⟩ := bind_eq_ok.mp h
  obtain ⟨⟨⟩, hparse, h⟩ := bind_eq_ok.mp h
  obtain rfl := Except.ok.inj h
  obtain rfl := Option.some.inj (Manifest.record_eq_ok.mp hdocument).1
  obtain ⟨hhashMember, hhashValid⟩ := Manifest.hash_eq_ok.mp hhash
  have hmanifestMember := (Manifest.record_eq_ok.mp hmanifest).1
  have hmanifestOwned := owned_lookupField hv _ _ hmanifestMember
  obtain ⟨u, -, hparse⟩ := bind_eq_ok.mp hparse
  obtain ⟨u, hrun, hparse⟩ := bind_eq_ok.mp hparse
  obtain ⟨program, -, hparse⟩ := bind_eq_ok.mp hparse
  obtain ⟨inputs, -, hparse⟩ := bind_eq_ok.mp hparse
  obtain ⟨profile, -, hparse⟩ := bind_eq_ok.mp hparse
  obtain ⟨limits, hlimits, -⟩ := bind_eq_ok.mp hparse
  obtain ⟨run, hrunRecord, hrun⟩ := bind_eq_ok.mp hrun
  obtain ⟨nonce, -, hrun⟩ := bind_eq_ok.mp hrun
  have hrunMember := (Manifest.record_eq_ok.mp hrunRecord).1
  have hpassed := Manifest.require_eq_ok.mp hrun
  rw [Bool.and_eq_true, Manifest.isText_iff] at hpassed
  obtain ⟨fields, hfields, -⟩ := bind_eq_ok.mp hlimits
  have hlimitsMember := (Manifest.record_eq_ok.mp hfields).1
  have hlimitsOwned := owned_lookupField hmanifestOwned _ _ hlimitsMember
  rw [hlimitsMember] at hlimits
  refine ⟨Manifest.runId nonce, manifestHash, .obj fields, ?_, isPrefixedHash_runId nonce,
    hhashValid, depth_of_validateLimits hlimitsOwned hlimits⟩
  simp only [inspectedMembers, record, Option.bind_eq_bind, Option.bind_some, hmanifestMember,
    hrunMember, hlimitsMember, stringAt, hpassed.2, hhashMember, Option.pure_def]

/-- The reader of an inspection accepts what the reader of manifests accepts. -/
theorem parseRunManifestDocument_ok {v snapshot : Json N} (hv : v.Owned)
    (h : Manifest.parseManifestDocument v = .ok snapshot) :
    ∃ document, parseRunManifestDocument v = .ok document ∧
      inspectedMembers snapshot =
        some (document.runId, document.manifestHash, document.limits) := by
  obtain ⟨runId, manifestHash, limits, hmembers, hvalid⟩ := exists_inspectedMembers hv h
  refine ⟨⟨runId, manifestHash, limits, hvalid.1, hvalid.2.1, hvalid.2.2⟩, ?_, hmembers⟩
  rw [parseRunManifestDocument, h]
  dsimp only
  rw [hmembers]
  exact dif_pos hvalid

-- ============================================================================
-- The authority of a published run
-- ============================================================================

section Published

variable {input : Manifest.BuildRunManifestInput N} {program : RlmProgram N}
  {profile : Manifest.Members N} {document : Manifest.RunManifestDocument N}

/-- A document that the builder has made, as an inspection sees it. -/
def inspectedDocument (h : Manifest.Built input program profile document) :
    RunManifestDocument N where
  runId := Manifest.runId document.manifest.nonce
  manifestHash := document.manifestHash
  limits := canonical (.obj document.manifest.limits)
  runId_hash := isPrefixedHash_runId _
  manifestHash_hash := by
    obtain ⟨-, hhash⟩ := (Manifest.computeManifestHash_eq_ok h.manifest_owned).mp h.hash_ok
    rw [← hhash]
    exact isHash_sha256 _
  limits_depth := by
    obtain ⟨hvalue, -⟩ :=
      Manifest.validateLimits_canonical (Manifest.owned_some _) h.profile_owned h.limits_ok
    rw [canonical_depth h.limits_owned, ← Option.some.inj hvalue]
    exact depth_of_validateLimits input.limits.2 h.limits_ok

omit [JsonNumber N] in
theorem get_canonicalMembers {fields : RecordValue N} (h : (Json.obj fields).Owned)
    {key : JsString} {v : Json N} (hmember : get fields key = some v) :
    get (canonicalMembers fields) key = some (canonical v) :=
  (Manifest.lookup_canonical h key).trans (congrArg (Option.map canonical) hmember)

theorem inspectedMembers_canonical (h : Manifest.Built input program profile document) :
    inspectedMembers (canonical document.toJson) =
      some (Manifest.runId document.manifest.nonce, document.manifestHash,
        canonical (.obj document.manifest.limits)) := by
  have hmanifest : get (canonicalMembers _) (js "manifest") =
      some (canonical (.obj document.manifest.members)) :=
    get_canonicalMembers h.document_owned rfl
  have hhash : get (canonicalMembers _) (js "manifestHash") =
      some (canonical (.str document.manifestHash)) :=
    get_canonicalMembers h.document_owned rfl
  have hrun : get (canonicalMembers document.manifest.members) (js "run") =
      some (canonical (Manifest.runJson document.manifest.nonce)) :=
    get_canonicalMembers h.manifest_owned rfl
  have hid : get (canonicalMembers (N := N) _) (js "id") =
      some (canonical (.str (Manifest.runId document.manifest.nonce))) :=
    get_canonicalMembers (Manifest.Built.runJson_owned document.manifest.nonce) rfl
  have hlimits : get (canonicalMembers document.manifest.members) (js "limits") =
      some (canonical (.obj document.manifest.limits)) :=
    get_canonicalMembers h.manifest_owned rfl
  rw [canonical_obj_members] at hmanifest
  rw [Manifest.runJson, canonical_obj_members] at hrun
  rw [Manifest.RunManifestDocument.toJson, canonical_obj_members]
  simp only [inspectedMembers, record, Option.bind_eq_bind, Option.bind_some, hmanifest, hrun,
    hlimits, stringAt, hhash, hid, Option.pure_def, canonical]

theorem parseRunManifestDocument_canonical (h : Manifest.Built input program profile document)
    (hdepth : document.toJson.depth ≤ maxJsonDepth) :
    parseRunManifestDocument (canonical document.toJson) = .ok (inspectedDocument h) := by
  obtain ⟨inspected, hparse, hmembers⟩ := parseRunManifestDocument_ok (canonical_owned _)
    (h.parseManifestDocument_read hdepth)
  have hsame := inspectedMembers_canonical h
  obtain ⟨hrunId, hhash, hlimits⟩ := by
    simpa only [Option.some.injEq, Prod.mk.injEq] using hmembers.symm.trans hsame
  rw [hparse, inspectedDocument]
  cases inspected
  dsimp only at hrunId hhash hlimits
  subst hrunId hhash hlimits
  rfl

omit [JsonNumber N] in
/-- A file that only its owner can read. -/
def ownFile (bytes : List Byte) : PrivateFile := ⟨true, 1, 0o600, bytes⟩

theorem readPrivateFile_ownFile {name : JsString} {bytes : List Byte} {maxBytes : Nat}
    {code : RunRecoveryErrorCode} (h : bytes.length ≤ maxBytes) :
    readPrivateFile name (some (ownFile bytes)) maxBytes code none = .ok bytes :=
  readPrivateFile_eq_ok.mpr
    ⟨_, rfl, rfl, rfl, (by decide : 0o600 % 0o100 = 0), h, le_rfl, List.take_length.symm⟩

/-- The directory of a run with these texts and this journal. -/
def managedFiles (manifestText lockText : JsString) (journal : List Byte) : ManagedRunFiles where
  isDirectory := true
  mode := 0o700
  manifest := some (ownFile (utf8 manifestText))
  lock := some (ownFile (utf8 lockText))
  journal := some (ownFile journal)

/-- The text of a value in canonical form, with or without a line feed, is read as that. -/
theorem canonicalText_parsed {text : JsString} {v : Json N} (hv : v.Owned)
    (hdepth : v.depth ≤ maxJsonDepth) (hparse : Json.parse text = some (canonical v)) :
    canonicalText (N := N) text = some (canonical v, (canonical v).render) := by
  obtain ⟨raw, hraw, hrevive⟩ := Option.map_eq_some_iff.mp hparse
  have hparsed : parseJson (N := N) text = some ⟨raw.revive, Json.revive_owned raw⟩ := by
    rw [parseJson, hraw, Option.map_some]
  have hcanonical : (canonical v).depth ≤ maxJsonDepth := (canonical_depth hv).trans_le hdepth
  rw [canonicalText, hparsed]
  simp only [Option.bind_eq_bind, Option.bind_some, hrevive,
    parseJsonValue_ok (canonical_owned v) hcanonical, canonicalStringify_ok hcanonical,
    canonical_canonical hv, Except.toOption, Option.pure_def]

theorem textDecode_storedText (v : Json N) :
    textDecode (utf8 (RunDirectory.storedText v)) = some (RunDirectory.storedText v) := by
  obtain ⟨u, rest, hrender, -, -, hascii⟩ := Json.render_head (canonical v)
  rw [textDecode, utf8DecodeFatal_utf8 (RunDirectory.storedText_wellFormed v), Option.map_some,
    RunDirectory.storedText, hrender, List.cons_append]
  refine congrArg some (if_neg ?_)
  rintro rfl
  exact absurd hascii (by decide)

/-- The lock of a run is always short enough. -/
theorem length_lockIdentity (inspected : RunManifestDocument N) :
    (utf8 (canonical (lockIdentity inspected)).render).length ≤ maxLockBytes := by
  have howned : (lockIdentity inspected).Owned := rfl
  have hrender := Json.octetLength_render_le (canonical (lockIdentity inspected))
  have hrunId : inspected.runId.length = 68 := by
    obtain ⟨hash, hsplit, hvalid⟩ := isPrefixedHash_split inspected.runId_hash
    rw [hsplit, List.length_append, isHash_length hvalid]
    rfl
  have hbound : (lockIdentity inspected).lengthBound ≤ maxLockBytes := by
    rw [lockIdentity, Json.lengthBound]
    simp only [Json.lengthBoundFields, Json.lengthBound, hrunId,
      isHash_length inspected.manifestHash_hash]
    decide
  rw [RunDirectory.lengthBound_canonical howned] at hrender
  exact hrender.trans hbound

theorem readLock_identity {files : ManagedRunFiles} (inspected : RunManifestDocument N)
    (hfile : files.lock = some (ownFile (utf8 (canonical (lockIdentity inspected)).render))) :
    readLock files inspected = .ok () := by
  have howned : (lockIdentity inspected).Owned := rfl
  have hdepth : (lockIdentity inspected).depth ≤ maxJsonDepth := show 1 ≤ maxJsonDepth by decide
  have hparse : Json.parse (canonical (lockIdentity inspected)).render =
      some (canonical (lockIdentity inspected)) := by
    rw [Json.parse_render, Json.revive_eq_self (canonical_owned _)]
  have hpassed : ((canonical (lockIdentity inspected)).render ==
      (canonical (lockIdentity inspected)).render &&
      (canonicalStringify (lockIdentity inspected)).toOption ==
        some (canonical (lockIdentity inspected)).render) = true := by
    rw [canonicalStringify_ok hdepth]
    exact Bool.and_eq_true_iff.mpr ⟨beq_self_eq_true _, beq_self_eq_true _⟩
  rw [readLock, hfile]
  refine bind_eq_ok.mpr ⟨_, readPrivateFile_ownFile (length_lockIdentity inspected), ?_⟩
  rw [textDecode_render, Option.bind_some, canonicalText_parsed howned hdepth hparse,
    Option.filter, if_pos hpassed]
  rfl

/-- The manifest and the lock of a document that the builder has made, and a journal of valid
    records, are the authority of an inspection. -/
theorem readAuthority_published (h : Manifest.Built input program profile document)
    {manifestText lockText : JsString} {records : List (JournalRecord N)}
    {validate : RunManifestDocument N → List (Shell.RlmEvent N) →
      Except InspectionFailure (RecoveryJournalModel N)} {model : RecoveryJournalModel N}
    (hmanifest : RunDirectory.serializeDocument document = .ok manifestText)
    (hmanifestSize : (utf8 manifestText).length ≤ maxManifestBytes)
    (hlock : RunDirectory.lockText document = .ok lockText)
    (hjournalSize : (journalOctets records).length ≤ maxRecoveryJournalBytes)
    (hnonempty : committedEvents records ≠ [])
    (hbounded : (committedEvents records).length ≤ maxRunInspectionEvents)
    (hmodel : validate (inspectedDocument h) (committedEvents records) = .ok model) :
    readAuthority ⟨parseRunManifestDocument, validate⟩
      (managedFiles manifestText lockText (journalOctets records)) none =
        .ok ⟨inspectedDocument h, journalOctets records, committedEvents records, model⟩ := by
  obtain ⟨hdepth, rfl⟩ := (RunDirectory.serializeDocument_eq_ok h.document_owned).mp hmanifest
  obtain ⟨hlockDepth, rfl⟩ := Manifest.canonicalText_eq_ok.mp hlock
  refine readAuthority_eq_ok.mpr ⟨journalOctets records, scanOf records, ?_⟩
  exact
    { directory := ⟨rfl, (by decide : 0o700 % 0o100 = 0)⟩
      manifest := by
        have hpassed : ((canonical document.toJson).render ++ [0x0A] ==
            RunDirectory.storedText document.toJson) = true := beq_self_eq_true _
        refine bind_eq_ok.mpr ⟨_, readPrivateFile_ownFile hmanifestSize, ?_⟩
        rw [textDecode_storedText, Option.bind_some, canonicalText_parsed h.document_owned hdepth
          (RunDirectory.parse_storedText _), Option.filter, if_pos hpassed]
        dsimp only
        rw [parseRunManifestDocument_canonical h hdepth]
        rfl
      lock := readLock_identity (inspectedDocument h) rfl
      journal := readPrivateFile_ownFile hjournalSize
      scan := scanJournal_records records
      whole := nofun
      nonempty := List.length_pos_iff.mpr hnonempty |>.ne'
      bounded := hbounded
      model := hmodel
      verified := List.take_length.symm
      events := rfl }

end Published

-- ============================================================================
-- Journals of single events
-- ============================================================================

section Journals

/-- Each event is committed on its own. -/
theorem committedEvents_events (events : List (Shell.RlmEvent N)) :
    committedEvents (events.map JournalRecord.event) = events.map Shell.RlmEvent.canonical := by
  induction events using List.reverseRecOn with
  | nil => rfl
  | append_singleton events event ih =>
    have hfresh : ∀ id ∈ (JournalRecord.event event).batchId,
        id ∉ committedBatchIds (events.map JournalRecord.event) := by
      intro id hid
      cases hid
    rw [List.map_append, List.map_singleton, committedEvents_fresh hfresh, ih, List.map_append]
    rfl

theorem length_octets_event (event : Shell.RlmEvent N) :
    (JournalRecord.event event).octets.length ≤ event.toJson.lengthBound + 1 := by
  have hbound := Json.octetLength_render_le (canonical event.toJson)
  rw [RunDirectory.lengthBound_canonical event.toJson_owned, ← event.toJson_canonical] at hbound
  rw [JournalRecord.octets_eq, List.length_append, List.length_singleton]
  exact Nat.succ_le_succ hbound

theorem length_journalOctets_events (events : List (Shell.RlmEvent N)) :
    (journalOctets (events.map JournalRecord.event)).length ≤
      (events.map fun event => event.toJson.lengthBound + 1).sum := by
  induction events with
  | nil => exact le_rfl
  | cons event events ih =>
    have hevent := length_octets_event event
    rw [journalOctets, List.map_cons, List.map_cons, List.flatten_cons, List.length_append,
      List.map_cons, List.sum_cons]
    exact Nat.add_le_add hevent ih

end Journals

-- ============================================================================
-- Frames
-- ============================================================================

section Frames

omit [JsonNumber N] in
theorem mapSet_new {α : Type} {entries : List (JsString × α)} {key : JsString} {value : α}
    (h : ∀ entry ∈ entries, entry.1 ≠ key) :
    mapSet entries key value = entries ++ [(key, value)] := by
  refine if_neg ?_
  rw [List.any_eq_true]
  rintro ⟨entry, hentry, hkey⟩
  exact h entry hentry (eq_of_beq hkey)

omit [JsonNumber N] in
theorem mapHas_new {α : Type} {entries : List (JsString × α)} {key : JsString}
    (h : ∀ entry ∈ entries, entry.1 ≠ key) : mapHas entries key = false := by
  rw [mapHas, mapGet, Option.isSome_map, Option.isSome_eq_false_iff, Option.isNone_iff_eq_none,
    List.find?_eq_none]
  intro entry hentry hkey
  exact h entry hentry (eq_of_beq hkey)

/-- The start of a run fills none of the maps. -/
theorem observe_runStarted {seen : Observations N} {event : Shell.RlmEvent N}
    (htype : event.type = js "run_started") (hframe : own event.fields (js "frameId") = false) :
    observe seen event = .ok seen := by
  have hterminal : Shell.isTerminal event = false := by
    rw [Shell.isTerminal, htype]
    decide
  rw [observe, hframe, htype, hterminal]
  rfl

/-- A frame that is opened comes last. -/
theorem observe_frameOpened {seen : Observations N} {event : Shell.RlmEvent N}
    (htype : event.type = js "frame_opened")
    (hbounded : (utf8 event.frameId).length ≤ maxIdentityBytes)
    (hnew : ∀ entry ∈ seen.frames, entry.1 ≠ event.frameId)
    (hfew : seen.frames.length < maxRunInspectionAggregateItems) :
    observe seen event = .ok { seen with frames := seen.frames ++ [(event.frameId, event)] } := by
  have hidentity : boundedIdentity event.frameId (js "frame identity") = .ok () :=
    if_neg (not_lt.mpr hbounded)
  have hguard : guardItems (seen.frames ++ [(event.frameId, event)]).length = .ok () := by
    rw [List.length_append, List.length_singleton]
    exact if_neg (not_lt.mpr hfew)
  have hopened : event.type = js "frame_opened" ∧
      (!mapHas seen.frames event.frameId) = true := by
    rw [mapHas_new hnew]
    exact ⟨htype, rfl⟩
  rw [observe, hidentity]
  -- the identity is checked where there is one
  by_cases hframe : own event.fields (js "frameId") = true
  · refine (if_pos hframe).trans ((if_pos hopened).trans ?_)
    rw [mapSet_new hnew]
    exact bind_eq_ok.mpr ⟨(), hguard, rfl⟩
  · refine (if_neg hframe).trans ((if_pos hopened).trans ?_)
    rw [mapSet_new hnew]
    exact bind_eq_ok.mpr ⟨(), hguard, rfl⟩

/-- Frames that are opened one after the other, none of them twice. -/
structure OpensFrames (opened : List (Shell.RlmEvent N)) : Prop where
  types : ∀ event ∈ opened, event.type = js "frame_opened"
  bounded : ∀ event ∈ opened, (utf8 event.frameId).length ≤ maxIdentityBytes
  distinct : (opened.map (·.frameId)).Nodup
  few : opened.length ≤ maxRunInspectionAggregateItems

/-- What is observed of a run that has only opened frames. -/
def onlyOpened (opened : List (Shell.RlmEvent N)) : Observations N :=
  { Observations.empty with frames := opened.map fun event => (event.frameId, event) }

theorem observe_opened {opened before : List (Shell.RlmEvent N)}
    (h : OpensFrames (before ++ opened)) :
    opened.foldlM observe (onlyOpened before) = .ok (onlyOpened (before ++ opened)) := by
  induction opened generalizing before with
  | nil =>
    rw [List.append_nil]
    rfl
  | cons event opened ih =>
    have hmem : event ∈ before ++ event :: opened :=
      List.mem_append_right _ List.mem_cons_self
    have hnew : ∀ entry ∈ (onlyOpened before).frames, entry.1 ≠ event.frameId := by
      intro entry hentry heq
      obtain ⟨earlier, hearlier, rfl⟩ := List.mem_map.mp hentry
      have hdistinct := h.distinct
      rw [List.map_append, List.nodup_append] at hdistinct
      exact hdistinct.2.2 _ (List.mem_map_of_mem hearlier) _ List.mem_cons_self heq
    have hfew : (onlyOpened before).frames.length < maxRunInspectionAggregateItems := by
      have hlength := h.few
      rw [List.length_append, List.length_cons] at hlength
      rw [onlyOpened, List.length_map]
      omega
    have hnext : { onlyOpened before with
        frames := (onlyOpened before).frames ++ [(event.frameId, event)] } =
          onlyOpened (before ++ [event]) := by
      rw [onlyOpened, onlyOpened, List.map_append]
      rfl
    rw [List.foldlM_cons]
    refine bind_eq_ok.mpr
      ⟨_, observe_frameOpened (h.types _ hmem) (h.bounded _ hmem) hnew hfew, ?_⟩
    rw [hnext, List.append_cons before event opened]
    rw [List.append_cons before event opened] at h
    exact ih h

variable {start : Shell.RlmEvent N} {opened : List (Shell.RlmEvent N)}

theorem observe_started (htype : start.type = js "run_started")
    (hframe : own start.fields (js "frameId") = false) (h : OpensFrames opened) :
    (start :: opened).foldlM observe Observations.empty = .ok (onlyOpened opened) := by
  have hopened : opened.foldlM observe (onlyOpened []) = .ok (onlyOpened ([] ++ opened)) :=
    observe_opened h
  rw [List.foldlM_cons]
  exact bind_eq_ok.mpr ⟨_, observe_runStarted htype hframe, hopened⟩

variable [JsonArithmetic N]

/-- The frames of a run that has only opened frames are listed as they have been opened. -/
theorem project_frames (htype : start.type = js "run_started")
    (hframe : own start.fields (js "frameId") = false) (h : OpensFrames opened)
    (model : RecoveryJournalModel N) (limits : Json N) :
    project .frames (start :: opened) model limits none =
      .ok (opened.map Observations.empty.frameItem) := by
  have hlisted : (((onlyOpened opened).frames.map Prod.snd).filter fun _ => true).map
      (onlyOpened opened).frameItem = opened.map Observations.empty.frameItem := by
    have hevents : (onlyOpened opened).frames.map Prod.snd = opened := by
      rw [onlyOpened, List.map_map]
      exact List.map_id opened
    rw [List.filter_true, hevents]
    rfl
  have hguard :
      guardItems (opened.map (Observations.empty (N := N)).frameItem).length = .ok () := by
    rw [List.length_map]
    exact if_neg (not_lt.mpr h.few)
  refine bind_eq_ok.mpr ⟨_, observe_started htype hframe h, ?_⟩
  refine bind_eq_ok.mpr ⟨_, rfl, ?_⟩
  refine (bind_eq_ok.mpr ⟨(), ?_, congrArg Except.ok hlisted⟩)
  exact (congrArg (fun items : List (Json N) => guardItems items.length) hlisted).trans hguard

/-- Such a run has no errors to list. -/
theorem project_errors (htype : start.type = js "run_started")
    (hframe : own start.fields (js "frameId") = false) (h : OpensFrames opened)
    (model : RecoveryJournalModel N) (limits : Json N) :
    project .errors (start :: opened) model limits none = .ok [] := by
  refine bind_eq_ok.mpr ⟨_, observe_started htype hframe h, ?_⟩
  exact bind_eq_ok.mpr ⟨[], rfl, rfl⟩

omit [JsonArithmetic N] in
/-- The item of a frame that has only been opened. -/
theorem frameItem_canonical (event : Shell.RlmEvent N) {parent depth : Json N}
    (hparent : get event.fields (js "parentFrameId") = some parent)
    (hdepth : get event.fields (js "depth") = some depth) :
    Observations.empty.frameItem event.canonical =
      .obj [(js "kind", .str (js "frame")), (js "frameId", .str event.frameId),
        (js "parentFrameId", canonical parent), (js "depth", canonical depth),
        (js "state", .str (js "open")), (js "cells", number N 0),
        (js "committedCalls", number N 0)] := by
  rw [Observations.frameItem, event.frameId_canonical, event.canonicalRecord.get,
    event.canonicalRecord.get, hparent, hdepth]
  rfl

end Frames

-- ============================================================================
-- A run with two frames
-- ============================================================================

instance : JsonArithmetic Int := ⟨(· + ·), (· - ·)⟩

/-- The hashes that the journal of a run with one input starts with. -/
structure StartHashes where
  run : JsString
  manifest : JsString
  source : JsString
  run_hash : isHash run = true
  manifest_hash : isHash manifest = true
  source_hash : isHash source = true

theorem ascii_of_all {s : JsString} (h : (s.all fun u => decide (u.val < 0x80)) = true) :
    ∀ u ∈ s, u.val < 0x80 :=
  fun u hu => of_decide_eq_true (List.all_eq_true.mp h u hu)

theorem isHash_ascii {hash : JsString} (h : isHash hash = true) : ∀ u ∈ hash, u.val < 0x80 := by
  intro u hu
  rw [isHash, Bool.and_eq_true, List.all_eq_true] at h
  have hunit := h.2 u hu
  simp only [Sha256.isHexUnit, Bool.or_eq_true, decide_eq_true_eq] at hunit
  omega

namespace StartHashes

variable (hashes : StartHashes)

def runId : JsString := js "run_" ++ hashes.run

def sourceRef : Json Int :=
  .obj [(js "name", .str (js "source")), (js "id", .str (js "ctx_" ++ hashes.source)),
    (js "sha256", .str hashes.source), (js "bytes", .num 1)]

theorem length_run : hashes.run.length = 64 := isHash_length hashes.run_hash

theorem length_manifest : hashes.manifest.length = 64 := isHash_length hashes.manifest_hash

theorem length_source : hashes.source.length = 64 := isHash_length hashes.source_hash

theorem validInputRef_sourceRef : validInputRef hashes.sourceRef = true := by
  have hid : isPrefixedHash (js "ctx_") (js "ctx_" ++ hashes.source) = true :=
    isPrefixedHash_append hashes.source_hash
  have hlength : decide (0 < hashes.source.length) = true := by
    rw [length_source]
    rfl
  show (isPrefixedHash (js "ctx_") (js "ctx_" ++ hashes.source) &&
    (decide (0 < hashes.source.length) && isHash hashes.source) && true &&
    (js "ctx_" ++ hashes.source == js "ctx_" ++ hashes.source)) = true
  rw [hid, hlength, hashes.source_hash, beq_self_eq_true]
  rfl

theorem withinNode_str {s : JsString} (h : s.length ≤ 1000) :
    (Json.str (N := Int) s).all withinNode = true :=
  decide_eq_true (h.trans (by decide))

theorem withinBounds_record {fields : RecordValue Int}
    (hcount : nodeCount (.obj fields) ≤ 100) (hdepth : (Json.obj fields).depth ≤ maxEventDepth)
    (hlength : fields.length ≤ maxEventKeys)
    (hfields : ∀ f ∈ fields, f.2.all withinNode = true) :
    withinBounds (.obj fields) = true := by
  have hall : (Json.obj fields).all withinNode = true :=
    Json.all_obj.mpr ⟨decide_eq_true hlength, hfields⟩
  rw [withinBounds, hall, decide_eq_true hdepth, decide_eq_true (hcount.trans (by decide))]
  rfl

theorem withinNode_sourceRef : hashes.sourceRef.all withinNode = true := by
  have hlength := hashes.length_source
  refine Json.all_obj.mpr ⟨(by decide : decide (4 ≤ maxEventKeys) = true), ?_⟩
  simp only [List.forall_mem_cons, List.not_mem_nil, false_imp_iff, implies_true, and_true]
  refine ⟨withinNode_str (by decide), withinNode_str ?_, withinNode_str (by omega), rfl⟩
  rw [List.length_append, hlength]
  decide

def started : Shell.RlmEvent Int where
  fields := [(js "type", .str (js "run_started")), (js "runId", .str hashes.runId),
    (js "manifestHash", .str hashes.manifest), (js "limits", .obj RunDirectory.sampleLimits),
    (js "inputRefs", .arr [hashes.sourceRef])]
  owned := rfl
  bounded := by
    have hrunId : hashes.runId.length ≤ 1000 := by
      rw [runId, List.length_append, length_run]
      decide
    have hmanifest := hashes.length_manifest
    have hlimits : (Json.obj RunDirectory.sampleLimits).all withinNode = true := by decide
    have hrefs : (Json.arr [hashes.sourceRef]).all withinNode = true :=
      Json.all_arr.mpr ⟨(by decide : decide (1 ≤ maxEventArray) = true),
        List.forall_mem_singleton.mpr hashes.withinNode_sourceRef⟩
    refine withinBounds_record (by decide : 19 ≤ 100) (by decide : 3 ≤ maxEventDepth)
      (by decide : 5 ≤ maxEventKeys) ?_
    simp only [List.forall_mem_cons, List.not_mem_nil, false_imp_iff, implies_true, and_true]
    exact ⟨withinNode_str (by decide), withinNode_str hrunId, withinNode_str (by omega), hlimits,
      hrefs⟩
  valid := by
    have hlength : decide (0 < hashes.manifest.length) = true := by
      rw [length_manifest]
      rfl
    show ((decide (0 < hashes.manifest.length) && isHash hashes.manifest) && true &&
      (validInputRef hashes.sourceRef && true)) = true
    rw [hlength, hashes.manifest_hash, validInputRef_sourceRef]
    rfl

/-- A frame of the run, opened by another one unless it is the root. -/
def frameFields (name : JsString) (parent : Option JsString) : RecordValue Int :=
  [(js "type", .str (js "frame_opened")), (js "frameId", .str (hashes.runId ++ name)),
    (js "parentFrameId", nullable parent),
    (js "depth", .num (if parent.isSome then 1 else 0)), (js "objective", .str (js "o"))]

theorem withinBounds_frameFields {name : JsString} {parent : Option JsString}
    (hname : name.length ≤ 100) (hparent : ∀ id ∈ parent, id.length ≤ 1000) :
    withinBounds (.obj (hashes.frameFields name parent)) = true := by
  have hframeId : (hashes.runId ++ name).length ≤ 1000 := by
    rw [List.length_append, runId, List.length_append, length_run]
    have : (js "run_").length = 4 := rfl
    omega
  cases parent with
  | none =>
    refine withinBounds_record (by decide : 6 ≤ 100) (by decide : 1 ≤ maxEventDepth)
      (by decide : 5 ≤ maxEventKeys) ?_
    simp only [frameFields, List.forall_mem_cons, List.not_mem_nil, false_imp_iff, implies_true,
      and_true]
    exact ⟨withinNode_str (by decide), withinNode_str hframeId, rfl, rfl,
      withinNode_str (by decide)⟩
  | some id =>
    refine withinBounds_record (by decide : 6 ≤ 100) (by decide : 1 ≤ maxEventDepth)
      (by decide : 5 ≤ maxEventKeys) ?_
    simp only [frameFields, List.forall_mem_cons, List.not_mem_nil, false_imp_iff, implies_true,
      and_true]
    exact ⟨withinNode_str (by decide), withinNode_str hframeId,
      withinNode_str (hparent id rfl), rfl, withinNode_str (by decide)⟩

def rootName : JsString := js ":f0"

def rootId : JsString := hashes.runId ++ rootName

def childName : JsString := js ":frame:call_recurse_" ++ hashes.source ++ js ":e1"

theorem length_rootId : hashes.rootId.length = 71 := by
  rw [rootId, runId, List.length_append, List.length_append, length_run]
  rfl

theorem length_childName : hashes.childName.length = 87 := by
  rw [childName, List.length_append, List.length_append, length_source]
  rfl

def rootOpened : Shell.RlmEvent Int where
  fields := hashes.frameFields rootName none
  owned := rfl
  bounded := hashes.withinBounds_frameFields (by decide) nofun
  valid := rfl

def childOpened : Shell.RlmEvent Int where
  fields := hashes.frameFields hashes.childName (some hashes.rootId)
  owned := rfl
  bounded := by
    refine hashes.withinBounds_frameFields ?_ ?_
    · rw [length_childName]
      decide
    · rintro id ⟨⟩
      rw [length_rootId]
      decide
  valid := rfl

/-- A phase of the root frame, which comes after the first page. -/
def phase : Shell.RlmEvent Int where
  fields := [(js "type", .str (js "phase")), (js "frameId", .str hashes.rootId),
    (js "iteration", .num 1), (js "ordinal", .num 0), (js "name", .str (js "plan"))]
  owned := rfl
  bounded := by
    have hrootId := hashes.length_rootId
    refine withinBounds_record (by decide : 6 ≤ 100) (by decide : 1 ≤ maxEventDepth)
      (by decide : 5 ≤ maxEventKeys) ?_
    simp only [List.forall_mem_cons, List.not_mem_nil, false_imp_iff, implies_true, and_true]
    exact ⟨withinNode_str (by decide), withinNode_str (by omega), rfl, rfl,
      withinNode_str (by decide)⟩
  valid := rfl

/-- What the journal holds when the first page is asked for. -/
def events : List (Shell.RlmEvent Int) :=
  [hashes.started, hashes.rootOpened, hashes.childOpened]

/-- The events before a request: the phase comes after the first one. -/
def eventsAt : Nat → List (Shell.RlmEvent Int)
  | 0 => hashes.events
  | _ + 1 => hashes.events ++ [hashes.phase]

def journalAt (n : Nat) : List Byte :=
  journalOctets ((hashes.eventsAt n).map JournalRecord.event)

theorem journalAt_grows (n : Nat) : hashes.journalAt n <+: hashes.journalAt (n + 1) := by
  cases n with
  | zero =>
    rw [journalAt, journalAt, eventsAt, eventsAt, List.map_append, journalOctets_append]
    exact List.prefix_append _ _
  | succ n => exact List.prefix_refl _

theorem lengthBound_events :
    ((hashes.events ++ [hashes.phase]).map fun event => event.toJson.lengthBound + 1).sum ≤
      20000 := by
  simp only [events, started, rootOpened, childOpened, phase, frameFields, sourceRef, nullable,
    Shell.RlmEvent.toJson, Json.lengthBound, Json.lengthBoundFields, Json.lengthBoundItems,
    List.cons_append, List.nil_append, List.map_cons, List.map_nil, List.sum_cons, List.sum_nil,
    List.length_append, length_rootId, length_childName, length_manifest, length_source, runId,
    length_run, Option.isSome_some, Option.isSome_none, Bool.false_eq_true, if_true, if_false]
  decide

theorem length_journalAt (n : Nat) : (hashes.journalAt n).length ≤ 20000 := by
  have hlength : (hashes.journalAt (n + 1)).length ≤ 20000 :=
    (length_journalOctets_events _).trans hashes.lengthBound_events
  exact (hashes.journalAt_grows n).length_le.trans hlength

theorem ascii_runId : ∀ u ∈ hashes.runId, u.val < 0x80 :=
  List.forall_mem_append.mpr ⟨ascii_of_all rfl, isHash_ascii hashes.run_hash⟩

theorem ascii_rootId : ∀ u ∈ hashes.rootId, u.val < 0x80 :=
  List.forall_mem_append.mpr ⟨hashes.ascii_runId, ascii_of_all rfl⟩

theorem ascii_childId : ∀ u ∈ hashes.runId ++ hashes.childName, u.val < 0x80 := by
  refine List.forall_mem_append.mpr ⟨hashes.ascii_runId, ?_⟩
  refine List.forall_mem_append.mpr ⟨List.forall_mem_append.mpr ⟨ascii_of_all rfl, ?_⟩,
    ascii_of_all rfl⟩
  exact isHash_ascii hashes.source_hash

theorem opensFrames :
    OpensFrames ([hashes.rootOpened, hashes.childOpened].map Shell.RlmEvent.canonical) where
  types := by
    simp only [List.map_cons, List.map_nil, List.forall_mem_cons, List.not_mem_nil, false_imp_iff,
      implies_true, and_true, Shell.RlmEvent.type_canonical]
    exact ⟨rfl, rfl⟩
  bounded := by
    simp only [List.map_cons, List.map_nil, List.forall_mem_cons, List.not_mem_nil, false_imp_iff,
      implies_true, and_true, Shell.RlmEvent.frameId_canonical]
    refine ⟨(octetLength_ascii hashes.ascii_rootId).trans_le ?_,
      (octetLength_ascii hashes.ascii_childId).trans_le ?_⟩
    · rw [length_rootId]
      decide
    · rw [List.length_append, length_childName, runId, List.length_append, length_run]
      decide
  distinct := by
    simp only [List.map_cons, List.map_nil, Shell.RlmEvent.frameId_canonical]
    refine List.pairwise_pair.mpr ?_
    intro heq
    have hnames : rootName = hashes.childName := List.append_cancel_left heq
    have hstart : js ":f0" = js ":fr" := congrArg (List.take 3) hnames
    exact absurd hstart (by decide)
  few := by
    show 2 ≤ maxRunInspectionAggregateItems
    decide

/-- The item of a frame. -/
def frameItem (name : JsString) (parent : Option JsString) : Json Int :=
  .obj [(js "kind", .str (js "frame")), (js "frameId", .str (hashes.runId ++ name)),
    (js "parentFrameId", nullable parent), (js "depth", .num (if parent.isSome then 1 else 0)),
    (js "state", .str (js "open")), (js "cells", .num 0), (js "committedCalls", .num 0)]

def frameItems : List (Json Int) :=
  [hashes.frameItem rootName none, hashes.frameItem hashes.childName (some hashes.rootId)]

theorem frameItems_eq : ([hashes.rootOpened, hashes.childOpened].map Shell.RlmEvent.canonical).map
    Observations.empty.frameItem = hashes.frameItems := by
  have hroot := @frameItem_canonical Int _ hashes.rootOpened .null (.num 0) rfl rfl
  have hchild :=
    @frameItem_canonical Int _ hashes.childOpened (.str hashes.rootId) (.num 1) rfl rfl
  rw [List.map_map, List.map_cons, List.map_cons, List.map_nil, Function.comp_apply,
    Function.comp_apply, hroot, hchild]
  rfl

theorem lengthBound_frameItem {name : JsString} {parent : Option JsString}
    (hname : name.length ≤ 100) (hparent : ∀ id ∈ parent, id.length ≤ 1000) :
    (canonical (hashes.frameItem name parent)).lengthBound ≤ 200000 := by
  have howned : (hashes.frameItem name parent).Owned := by
    cases parent <;> rfl
  have hframeId : (hashes.runId ++ name).length ≤ 168 := by
    rw [List.length_append, runId, List.length_append, length_run]
    exact Nat.add_le_add_left hname 68
  have hnullable : (nullable (N := Int) parent).lengthBound ≤ 6002 := by
    cases parent with
    | none => exact (by decide : 4 ≤ 6002)
    | some id =>
      have hid := hparent id rfl
      show id.length * 6 + 2 ≤ 6002
      omega
  have hdepth : (Json.num (if parent.isSome then (1 : Int) else 0)).lengthBound = 1 := by
    cases parent <;> rfl
  have hzero : (JsonNumber.text (0 : Int)).length = 1 := rfl
  have hkeys : (js "kind").length = 4 ∧ (js "frame").length = 5 ∧ (js "frameId").length = 7 ∧
      (js "parentFrameId").length = 13 ∧ (js "depth").length = 5 ∧ (js "state").length = 5 ∧
      (js "open").length = 4 ∧ (js "cells").length = 5 ∧ (js "committedCalls").length = 14 := by
    decide
  rw [RunDirectory.lengthBound_canonical howned]
  simp only [frameItem, Json.lengthBound, Json.lengthBoundFields] at hdepth ⊢
  omega

theorem lengthBound_frameItems :
    ∀ item ∈ hashes.frameItems, (canonical item).lengthBound ≤ 200000 := by
  have hroot : (canonical (hashes.frameItem rootName none)).lengthBound ≤ 200000 :=
    hashes.lengthBound_frameItem (by decide) nofun
  have hchild : (canonical
      (hashes.frameItem hashes.childName (some hashes.rootId))).lengthBound ≤ 200000 := by
    refine hashes.lengthBound_frameItem ?_ ?_
    · rw [length_childName]
      decide
    · rintro id ⟨⟩
      rw [length_rootId]
      decide
  exact List.forall_mem_cons.mpr ⟨hroot, List.forall_mem_singleton.mpr hchild⟩

end StartHashes

/-- The input contents that the start of a journal refers to. -/
def inputContent (start : Shell.RlmEvent Int) : List (JsString × Int) :=
  match get start.fields (js "inputRefs") with
  | some (.arr refs) => refs.filterMap fun ref =>
    (record (some ref)).map fun fields =>
      (stringAt fields (js "id"), usageOrZero fields (js "bytes"))
  | _ => []

/-- What `validateRecoveryJournal` makes of a journal in which frames are opened and nothing
    else has been done. -/
def openedModel (document : RunManifestDocument Int) (events : List (Shell.RlmEvent Int)) :
    Except InspectionFailure (RecoveryJournalModel Int) :=
  match events with
  | [] => recoveryFailure (.other (js "RECOVERY_SEMANTIC_CORRUPTION"))
      (js "journal does not begin with run_started")
  | start :: _ =>
    if stringAt start.fields (js "runId") = document.runId ∧
        stringAt start.fields (js "manifestHash") = document.manifestHash then
      .ok ⟨document.runId ++ js ":f0", inputContent start⟩
    else recoveryFailure (.other (js "RECOVERY_IDENTITY_MISMATCH"))
      (js "journal start does not match the manifest")

def openedValidation : RunValidation Int := ⟨parseRunManifestDocument, openedModel⟩

section Inspected

variable {input : Manifest.BuildRunManifestInput Int} {program : RlmProgram Int}
  {profile : Manifest.Members Int} {document : Manifest.RunManifestDocument Int}
  (h : Manifest.Built input program profile document)

def builtHashes : StartHashes where
  run := sha256 document.manifest.nonce
  manifest := document.manifestHash
  source := sha256 (js "x")
  run_hash := isHash_sha256 _
  manifest_hash := (inspectedDocument h).manifestHash_hash
  source_hash := isHash_sha256 _

def builtFiles (n : Nat) : ManagedRunFiles :=
  managedFiles (RunDirectory.storedText document.toJson)
    (canonical (lockIdentity (inspectedDocument h))).render ((builtHashes h).journalAt n)

def builtSnapshot : AuthoritySnapshot Int where
  document := inspectedDocument h
  verified := (builtHashes h).journalAt 0
  events := (builtHashes h).events.map Shell.RlmEvent.canonical
  model := ⟨(builtHashes h).rootId, inputContent (builtHashes h).started.canonical⟩

theorem openedModel_built : openedModel (inspectedDocument h)
    ((builtHashes h).events.map Shell.RlmEvent.canonical) = .ok (builtSnapshot h).model := by
  have hrun := (builtHashes h).started.canonicalRecord.stringAt (js "runId")
  have hhash := (builtHashes h).started.canonicalRecord.stringAt (js "manifestHash")
  exact if_pos ⟨hrun, hhash⟩

theorem readAuthority_built (hdepth : document.toJson.depth ≤ maxJsonDepth)
    (hsize : (utf8 (RunDirectory.storedText document.toJson)).length ≤ maxManifestBytes) :
    readAuthority openedValidation (builtFiles h 0) none = .ok (builtSnapshot h) := by
  let records := ((builtHashes h).eventsAt 0).map JournalRecord.event
  have hcommitted : committedEvents records = ((builtHashes h).eventsAt 0).map _ :=
    committedEvents_events _
  have hserialized := (RunDirectory.serializeDocument_eq_ok h.document_owned).mpr ⟨hdepth, rfl⟩
  have hlock : RunDirectory.lockText document =
      .ok (canonical (lockIdentity (inspectedDocument h))).render :=
    Manifest.canonicalText_ok (show 1 ≤ maxJsonDepth by decide)
  have hjournal : ((builtHashes h).journalAt 0).length ≤ maxRecoveryJournalBytes :=
    ((builtHashes h).length_journalAt 0).trans (by decide)
  have hnonempty : committedEvents records ≠ [] := by
    rw [hcommitted]
    exact List.cons_ne_nil _ _
  have hbounded : (committedEvents records).length ≤
      maxRunInspectionEvents := by
    rw [hcommitted, List.length_map]
    exact (by decide : 3 ≤ maxRunInspectionEvents)
  have hmodel : openedModel (inspectedDocument h)
      (committedEvents records) =
        .ok (builtSnapshot h).model := by
    rw [hcommitted]
    exact openedModel_built h
  have hpublished :=
    readAuthority_published h hserialized hsize hlock hjournal hnonempty hbounded hmodel
  rw [hcommitted] at hpublished
  exact hpublished

def inspectedRun : JsString := js "run-" ++ List.replicate 32 0x30

def inspectionRequest (view : RunInspectionView) : RunInspectionRequest :=
  ⟨1, inspectedRun, view, none, none, none⟩

def inspectionKey : List Byte := List.replicate 32 0

theorem validRequest_inspection (view : RunInspectionView) :
    validRequest { inspectionRequest view with pageSize := some 1 } = true := by
  cases view <;> rfl

theorem grown_builtFiles (n : Nat) : Grown (builtFiles h n) (builtFiles h (n + 1)) where
  rest := rfl
  journal := ⟨_, _, rfl, rfl, (builtHashes h).journalAt_grows n,
    ((builtHashes h).length_journalAt (n + 1)).trans (by decide)⟩

/-- Pages of one item each, of a view of the run. -/
def builtInspection (hdepth : document.toJson.depth ≤ maxJsonDepth)
    (hsize : (utf8 (RunDirectory.storedText document.toJson)).length ≤ maxManifestBytes)
    (view : RunInspectionView) {items : List (Json Int)}
    (hlisted : project view (builtSnapshot h).events (builtSnapshot h).model
      (builtSnapshot h).document.limits none = .ok items)
    (hitems : ∀ item ∈ items, (canonical item).lengthBound ≤ 200000) :
    Inspection openedValidation where
  key := inspectionKey
  runs := fun n name => if name = inspectedRun then some (builtFiles h n) else none
  request := inspectionRequest view
  pageSize := fun _ => some 1
  files := builtFiles h
  snapshot := builtSnapshot h
  items := items
  first := rfl
  longKey := le_rfl
  valid := fun _ => validRequest_inspection view
  managed := fun _ => if_pos rfl
  grown := grown_builtFiles h
  authority := readAuthority_built h hdepth hsize
  listed := hlisted
  singly := by
    have hread := readAuthority_built h hdepth hsize
    obtain ⟨raw, parsed, hauthority⟩ := readAuthority_eq_ok.mp hread
    have hfound : Found openedValidation inspectionKey
        (fun name => if name = inspectedRun then some (builtFiles h 0) else none)
        { inspectionRequest view with pageSize := some 1 } none (builtFiles h 0) (builtSnapshot h)
        items :=
      { valid := validRequest_inspection view
        longKey := le_rfl
        decoded := rfl
        managed := if_pos rfl
        authority := hread
        current := nofun
        listed := hlisted
        offset := fun hle => List.length_eq_zero_iff.mp (Nat.le_zero.mp hle) }
    exact (hfound.sound hauthority).singly_of_lengthBound hitems

theorem project_builtFrames : project .frames (builtSnapshot h).events (builtSnapshot h).model
    (builtSnapshot h).document.limits none = .ok (builtHashes h).frameItems := by
  have hframe := (builtHashes h).started.canonicalRecord.own (js "frameId")
  have hproject := project_frames ((builtHashes h).started.type_canonical) hframe
    (builtHashes h).opensFrames (builtSnapshot h).model (builtSnapshot h).document.limits
  rw [(builtHashes h).frameItems_eq] at hproject
  exact hproject

theorem project_builtErrors : project .errors (builtSnapshot h).events (builtSnapshot h).model
    (builtSnapshot h).document.limits none = .ok [] := by
  have hframe := (builtHashes h).started.canonicalRecord.own (js "frameId")
  exact project_errors ((builtHashes h).started.type_canonical) hframe
    (builtHashes h).opensFrames _ _

end Inspected

-- ============================================================================
-- Inspection paging
-- ============================================================================

/-- A cursor as it was issued is not forged. -/
theorem unforgeable_text [DecimalNumber N] (key : List Byte) (issued : Issued N) :
    Unforgeable key (· = issued) (issued.cursor.text N key) := by
  intro payload mac hcontent hmac
  have hissued := issued.valid.cursorContent_text N key
  obtain ⟨rfl, rfl⟩ := Prod.mk.inj (Option.some.inj (hcontent.symm.trans hissued))
  exact ⟨issued, rfl, issued.cursor.canonical_members N⟩

namespace Inspection

variable [JsonArithmetic N] [DecimalNumber N] {validation : RunValidation N}
  (inspection : Inspection validation)

/-- Where one item is asked for, the page holds that item and the cursor to the next. -/
theorem exists_single {n offset : Nat} {cursor : Option JsString}
    (hanswers : inspection.Answers n cursor offset) (hsize : inspection.size n = 1)
    (hlt : offset < inspection.items.length) :
    ∃ page, inspection.ask n cursor = .ok page ∧ page.items = [inspection.items[offset]] ∧
      page.nextCursor = inspection.context.cursorFrom (offset + 1) := by
  have hcount : min (inspection.size n) (inspection.items.length - offset) = 1 := by omega
  obtain ⟨kept, bytes, hpos, hle, hlargest, -⟩ :=
    inspection.sound.largestPage_ok inspection.singly hlt le_rfl
  obtain rfl : kept = 1 := by omega
  have hitems : (inspection.items.drop offset).take 1 = [inspection.items[offset]] := by
    rw [List.drop_eq_getElem_cons hlt]
    rfl
  refine ⟨_, (hanswers _).mpr ((congrArg (inspection.context.largestPage offset) hcount).trans
    hlargest), hitems, ?_⟩
  exact congrArg (fun items : List (Json N) =>
    inspection.context.cursorFrom (offset + items.length)) hitems

end Inspection

/-- Inspection paging: the pages from a request without a cursor list the items of the prefix
    that the first page has seen, each once and in order; a cursor is accepted only as it was
    issued, for its own view, filter and run. -/
theorem inspection_exact [JsonArithmetic N] [DecimalNumber N] {validation : RunValidation N}
    (inspection : Inspection validation) :
    (∃ pages, (∀ pages', Follows inspection.ask 0 none pages' ↔ pages' = pages) ∧
      pages.flatMap (·.items) = inspection.items ∧
      (inspection.items ≠ [] → ∀ page ∈ pages, page.items ≠ []) ∧
      (inspection.items = [] → pages.length = 1) ∧
      (∀ page ∈ pages, page.Measured) ∧
      ∀ page ∈ pages, ∀ encoded ∈ page.nextCursor, ∃ issued : Issued N,
        encoded = issued.cursor.text N inspection.key ∧
        issued.cursor.view = inspection.request.view ∧
        issued.frameId = inspection.request.frameId ∧
        issued.cursor.runId = inspection.snapshot.document.runId) ∧
    ∀ (runs : JsString → Option ManagedRunFiles) (request : RunInspectionRequest)
      (encoded : JsString) (issued : Issued N → Prop) (page : RunInspectionPage N),
      request.cursor = some encoded → Unforgeable inspection.key issued encoded →
      inspectManagedRunPage validation inspection.key runs request = .ok page →
      ∃ cursor, issued cursor ∧ cursor.CarriedBy inspection.key encoded ∧
        cursor.cursor.view = request.view ∧
        (CollisionFreeTexts (filterText N cursor.frameId) (filterText N request.frameId) →
          cursor.frameId = request.frameId) ∧
        ∃ files snapshot, runs request.runName = some files ∧
          readAuthority validation files (some cursor.cursor) = .ok snapshot ∧
          cursor.cursor.runId = snapshot.document.runId := by
  refine ⟨?_, ?_⟩
  · obtain ⟨pages, hfollows, hitems, hadvances, hsingle, hmeasured, hcursors⟩ :=
      inspection.exists_pages
    exact ⟨pages, fun pages' => ⟨hfollows.unique, fun h => h ▸ hfollows⟩, hitems, hadvances,
      hsingle, hmeasured, hcursors⟩
  · intro runs request encoded issued page hencoded hunforgeable h
    obtain ⟨cursor, hissued, hcarried, hview, hfilter, hrun⟩ :=
      exists_issued hencoded hunforgeable h
    exact ⟨cursor, hissued, hcarried, hview,
      fun hcollision => filterText_injective (hcollision hfilter), hrun⟩

theorem sampleDocument_size :
    (utf8 (RunDirectory.storedText RunDirectory.sampleDocument.toJson)).length ≤
      maxManifestBytes :=
  (RunDirectory.storedText_le RunDirectory.sampleBuilt.document_owned).trans
    (Nat.succ_le_of_lt RunDirectory.sampleDocument_bound)

theorem sampleDocument_depth : RunDirectory.sampleDocument.toJson.depth ≤ maxJsonDepth := by
  decide

def sampleHashes : StartHashes := builtHashes RunDirectory.sampleBuilt

/-- The frames of a run, one on each page. -/
def sampleFrames : Inspection openedValidation :=
  builtInspection RunDirectory.sampleBuilt sampleDocument_depth sampleDocument_size .frames
    (project_builtFrames _) sampleHashes.lengthBound_frameItems

/-- The errors of the same run, which are none. -/
def sampleErrors : Inspection openedValidation :=
  builtInspection RunDirectory.sampleBuilt sampleDocument_depth sampleDocument_size .errors
    (project_builtErrors _) nofun

/-- An empty view is one page, which lists no item. -/
theorem inspection_emptyView : ∃ page, Follows sampleErrors.ask 0 none [page] ∧
    page.items = [] := by
  obtain ⟨pages, hfollows, hitems, -, hsingle, -⟩ := sampleErrors.exists_pages
  obtain ⟨page, rfl⟩ := List.length_eq_one_iff.mp (hsingle rfl)
  refine ⟨page, hfollows, ?_⟩
  rw [List.flatMap_singleton] at hitems
  exact hitems

/-- The cursor of the first page of frames. -/
def sampleIssued : Issued Int where
  frameId := none
  cursor := sampleFrames.context.cursorAt 1
  valid := sampleFrames.sound.cursorAt le_rfl (by decide : 1 < 2)
  filter := rfl

theorem inspection_exact_frames :
    (∃ first second,
      (∀ pages, Follows sampleFrames.ask 0 none pages ↔ pages = [first, second]) ∧
      first.items ++ second.items = sampleHashes.frameItems ∧
      first.nextCursor = some (sampleIssued.cursor.text Int sampleFrames.key)) ∧
    ∀ runs page, inspectManagedRunPage openedValidation sampleFrames.key runs
      { sampleFrames.request with
        view := .cells
        cursor := some (sampleIssued.cursor.text Int sampleFrames.key) } ≠ .ok page := by
  obtain ⟨⟨pages, hpages, hitems, -⟩, haccepted⟩ := inspection_exact sampleFrames
  refine ⟨?_, ?_⟩
  · obtain ⟨first, hfirst, -, hnext⟩ :=
      sampleFrames.exists_single sampleFrames.answers_first rfl (by decide : 0 < 2)
    have hcursor : first.nextCursor = some (sampleIssued.cursor.text Int sampleFrames.key) :=
      hnext.trans (PageContext.cursorFrom_of_lt (by decide : 1 < 2))
    have hanswers := sampleFrames.answers_next 0 le_rfl (by decide : 1 < 2)
    rw [PageContext.cursorFrom_of_lt (by decide : 1 < 2)] at hanswers
    obtain ⟨second, hsecond, -, hlast⟩ :=
      sampleFrames.exists_single hanswers rfl (by decide : 1 < 2)
    have hfollows : Follows sampleFrames.ask 0 none [first, second] :=
      .next hfirst hcursor (.last hsecond (hlast.trans (PageContext.cursorFrom_of_le le_rfl)))
    obtain rfl := (hpages _).mp hfollows
    refine ⟨first, second, hpages, ?_, hcursor⟩
    rw [List.flatMap_cons, List.flatMap_singleton] at hitems
    exact hitems
  · intro runs page hpage
    obtain ⟨cursor, rfl, -, hview, -⟩ := haccepted runs _ _ (· = sampleIssued) page rfl
      (unforgeable_text _ sampleIssued) hpage
    exact absurd hview nofun

end PiRlm.Runtime

/-
  PiRlm.Runtime.RunInspection

  Pages over the journal of a managed run: `runtime/run-inspection.ts`.

  A page lists as many items as fit, and a cursor for the rest.  A cursor fixes the prefix
  of the journal that the first page has seen and carries a keyed hash of what it says.  The
  validation of a manifest and of a journal is a parameter.
-/
import Mathlib
import PiRlm.Lib.Base64url
import PiRlm.Lib.Hmac
import PiRlm.Runtime.RunInspectionItems

namespace PiRlm.Runtime

open PiRlm.Lib PiRlm.Core PiRlm.Shell

def maxManifestBytes : Nat := 2 * 1024 * 1024
def maxLockBytes : Nat := 4096
def maxRecoveryJournalBytes : Nat := 32 * 1024 * 1024
def defaultRunInspectionPageSize : Nat := 50

-- ============================================================================
-- Requests and pages
-- ============================================================================

structure RunInspectionRequest where
  version : Nat
  runName : JsString
  view : RunInspectionView
  frameId : Option JsString
  cursor : Option JsString
  pageSize : Option Nat
  deriving Repr, DecidableEq

structure CursorV1 where
  runId : JsString
  manifestHash : JsString
  journalPrefixSha256 : JsString
  prefixBytes : Nat
  eventCount : Nat
  view : RunInspectionView
  filterHash : JsString
  offset : Nat
  deriving Repr, DecidableEq

structure RunInspectionPage (N : Type) where
  runName : JsString
  runId : JsString
  manifestHash : JsString
  journalPrefixSha256 : JsString
  eventCount : Nat
  view : RunInspectionView
  items : List (Json N)
  serializedBytes : Nat
  nextCursor : Option JsString

def invalidCursor {α : Type} (message : JsString) : Except InspectionFailure α :=
  .error (.inspection .invalidCursor message)

def recoveryFailure {α : Type} (code : RunRecoveryErrorCode) (message : JsString) :
    Except InspectionFailure α :=
  .error (.recovery code message)

/-- The checks of `requestSnapshot` on the members of a plain request. -/
def validRequest (request : RunInspectionRequest) : Bool :=
  decide (request.version = 1) && isRunName request.runName &&
    request.frameId.all (fun frameId =>
      !frameId.isEmpty && decide ((utf8 frameId).length ≤ maxIdentityBytes)) &&
    request.cursor.all (fun cursor =>
      decide ((utf8 cursor).length ≤ maxRunInspectionCursorBytes)) &&
    request.pageSize.all fun pageSize =>
      decide (1 ≤ pageSize) && decide (pageSize ≤ maxRunInspectionPageSize)

variable {N : Type} [JsonNumber N]

/-- `canonicalStringify`, with what it throws. -/
def stringify (v : Json N) : Except InspectionFailure JsString :=
  match canonicalStringify v with
  | .ok text => .ok text
  | .error message => .error (.raised message)

-- ============================================================================
-- Cursors
-- ============================================================================

variable (N) in
def CursorV1.toJson (payload : CursorV1) : Json N :=
  .obj [(js "version", number N 1), (js "runId", .str payload.runId),
    (js "manifestHash", .str payload.manifestHash),
    (js "journalPrefixSha256", .str payload.journalPrefixSha256),
    (js "prefixBytes", number N payload.prefixBytes),
    (js "eventCount", number N payload.eventCount), (js "view", .str payload.view.text),
    (js "filterHash", .str payload.filterHash), (js "offset", number N payload.offset)]

def cursorMac (payload : Json N) (key : List Byte) : Except InspectionFailure JsString :=
  (stringify payload).map fun text => Sha256.hmac key (utf8 text)

def cursorEnvelope (payload : Json N) (mac : JsString) : Json N :=
  .obj [(js "payload", payload), (js "mac", .str mac)]

variable (N) in
def encodeCursor (payload : CursorV1) (key : List Byte) : Except InspectionFailure JsString := do
  let mac ← cursorMac (payload.toJson N) key
  let text ← stringify (cursorEnvelope (payload.toJson N) mac)
  pure (Base64url.encode (utf8 text))

def payloadKeys : List JsString :=
  [js "eventCount", js "filterHash", js "journalPrefixSha256", js "manifestHash", js "offset",
    js "prefixBytes", js "runId", js "version", js "view"]

def viewOf (text : JsString) : Option RunInspectionView :=
  [.summary, .frames, .cells, .calls, .budget, .errors].find? fun view => view.text == text

/-- A string member. -/
def textMember (value : RecordValue N) (key : JsString) (check : JsString → Bool) :
    Option JsString :=
  match get value key with
  | some (.str s) => if check s then some s else none
  | _ => none

/-- A member that is an integer within bounds. -/
def integerMember (value : RecordValue N) (key : JsString) (minimum maximum : Nat) : Option Nat :=
  match get value key with
  | some (.num n) =>
    if isSafeInteger n ∧ (minimum : ℚ) ≤ JsonNumber.value n ∧ JsonNumber.value n ≤ (maximum : ℚ) then
      some (JsonNumber.value n).num.toNat
    else none
  | _ => none

/-- The envelope that a cursor text carries: a payload and its keyed hash. -/
def cursorContent (encoded : JsString) : Option (RecordValue N × JsString) := do
  guard (!encoded.isEmpty && encoded.all Base64url.isUnit)
  let octets := Base64url.decode encoded
  guard (Base64url.encode octets == encoded && decide (octets.length ≤ maxRunInspectionCursorBytes))
  let text ← textDecode octets
  let parsed ← parseJson (N := N) text
  let value ← (parseJsonValue parsed.val).toOption
  let envelope ← record (some value)
  guard (joinedKeys (envelope.map Prod.fst) == joinedKeys [js "mac", js "payload"])
  let mac ← textMember envelope (js "mac") isHash
  let payload ← record (get envelope (js "payload"))
  pure (payload, mac)

/-- The payload of a cursor, when its members are what they should be. -/
def parsePayload (payload : RecordValue N) : Option CursorV1 := do
  guard (joinedKeys (payload.map Prod.fst) == joinedKeys payloadKeys)
  guard (isNumber payload (js "version") 1)
  let runId ← textMember payload (js "runId") fun _ => true
  let manifestHash ← textMember payload (js "manifestHash") fun _ => true
  let journalPrefixSha256 ← textMember payload (js "journalPrefixSha256") isHash
  let filterHash ← textMember payload (js "filterHash") isHash
  let prefixBytes ← integerMember payload (js "prefixBytes") 1 maxRecoveryJournalBytes
  let eventCount ← integerMember payload (js "eventCount") 1 maxRunInspectionEvents
  let offset ← integerMember payload (js "offset") 1 maxRunInspectionAggregateItems
  let view ← (textMember payload (js "view") fun _ => true).bind viewOf
  pure { runId, manifestHash, journalPrefixSha256, prefixBytes, eventCount, view, filterHash, offset }

variable (N) in
def decodeCursor (encoded : JsString) (key : List Byte) : Except InspectionFailure CursorV1 :=
  let decoded : Option CursorV1 := do
    let (payload, mac) ← cursorContent (N := N) encoded
    let cursor ← parsePayload payload
    let expected ← (cursorMac (.obj payload) key).toOption
    guard (mac == expected)
    pure cursor
  match decoded with
  | some cursor => .ok cursor
  | none => invalidCursor (js "inspection cursor is invalid or stale")

-- ============================================================================
-- The authority of a run
-- ============================================================================

structure PrivateFile where
  isFile : Bool
  nlink : Nat
  mode : Nat
  bytes : List Byte
  deriving Repr, DecidableEq

/-- A managed run directory; `none` is a file that cannot be opened. -/
structure ManagedRunFiles where
  isDirectory : Bool
  mode : Nat
  manifest : Option PrivateFile
  lock : Option PrivateFile
  journal : Option PrivateFile
  deriving Repr, DecidableEq

/-- A manifest that has been validated. -/
structure RunManifestDocument (N : Type) where
  runId : JsString
  manifestHash : JsString
  limits : Json N
  runId_hash : isPrefixedHash (js "run_") runId = true
  manifestHash_hash : isHash manifestHash = true
  limits_depth : limits.depth ≤ 1

inductive ManifestFailure where
  | incompatible | invalid
  deriving Repr, DecidableEq

/-- `parseRunManifestDocument` and `validateRecoveryJournal`. -/
structure RunValidation (N : Type) [JsonNumber N] where
  parseRunManifestDocument : Json N → Except ManifestFailure (RunManifestDocument N)
  validateRecoveryJournal : RunManifestDocument N → List (Shell.RlmEvent N) →
    Except InspectionFailure (RecoveryJournalModel N)

structure AuthoritySnapshot (N : Type) [JsonNumber N] where
  document : RunManifestDocument N
  verified : List Byte
  events : List (Shell.RlmEvent N)
  model : RecoveryJournalModel N

/-- A file read at once; `prefixBytes` limits how much is read of it. -/
def readPrivateFile (name : JsString) (file : Option PrivateFile) (maxBytes : Nat)
    (code : RunRecoveryErrorCode) (prefixBytes : Option Nat) :
    Except InspectionFailure (List Byte) :=
  match file with
  | none => recoveryFailure code (js "failed to read " ++ name)
  | some file =>
    let bytesToRead := prefixBytes.getD file.bytes.length
    if !file.isFile ∨ file.nlink ≠ 1 ∨ file.mode % 0o100 ≠ 0 ∨ maxBytes < file.bytes.length ∨
        file.bytes.length < bytesToRead ∨ maxBytes < bytesToRead then
      recoveryFailure code (name ++ js " is not a bounded private regular file")
    else .ok (file.bytes.take bytesToRead)

/-- The value of a text that is one canonical JSON value. -/
def canonicalText (text : JsString) : Option (Json N × JsString) := do
  let parsed ← parseJson (N := N) text
  let value ← (parseJsonValue parsed.val).toOption
  let canonical ← (canonicalStringify value).toOption
  pure (value, canonical)

variable (validation : RunValidation N)

def readManifest (files : ManagedRunFiles) : Except InspectionFailure (RunManifestDocument N) := do
  let octets ← readPrivateFile (js "manifest.json") files.manifest maxManifestBytes
    .manifestInvalid none
  match (textDecode octets).bind fun text =>
    (canonicalText (N := N) text).filter fun value => value.2 ++ [0x0A] == text with
  | none => recoveryFailure .manifestInvalid (js "stored run manifest is invalid")
  | some (value, _) =>
    match validation.parseRunManifestDocument value with
    | .ok document => pure document
    | .error .incompatible =>
      recoveryFailure .incompatible (js "stored run manifest is incompatible")
    | .error .invalid => recoveryFailure .manifestInvalid (js "stored run manifest is invalid")

def lockIdentity (document : RunManifestDocument N) : Json N :=
  .obj [(js "runId", .str document.runId), (js "manifestHash", .str document.manifestHash)]

def readLock (files : ManagedRunFiles) (document : RunManifestDocument N) :
    Except InspectionFailure Unit := do
  let octets ← readPrivateFile (js ".pi-rlm-run.lock") files.lock maxLockBytes .lockInvalid none
  match (textDecode octets).bind fun text =>
    (canonicalText (N := N) text).filter fun value =>
      value.2 == text && (canonicalStringify (lockIdentity document)).toOption == some value.2 with
  | none => recoveryFailure .lockInvalid (js "permanent run lock is invalid")
  | some _ => pure ()

def readAuthority (files : ManagedRunFiles) (cursor : Option CursorV1) :
    Except InspectionFailure (AuthoritySnapshot N) :=
  if !files.isDirectory ∨ files.mode % 0o100 ≠ 0 then
    recoveryFailure .directoryInvalid (js "managed run directory is not a private real directory")
  else do
    let document ← readManifest validation files
    readLock files document
    let raw ← readPrivateFile (js "events.jsonl") files.journal maxRecoveryJournalBytes
      .journalCorrupt (cursor.map (·.prefixBytes))
    match scanJournal (N := N) raw with
    | .error _ => recoveryFailure .journalCorrupt (js "stored run journal prefix is corrupt")
    | .ok parsed =>
      if cursor.isSome ∧ parsed.verifiedBytes ≠ raw.length then
        invalidCursor (js "inspection cursor prefix is no longer authoritative")
      else if parsed.events.length = 0 then
        recoveryFailure .orphan (js "manifest has no authoritative run start")
      else if maxRunInspectionEvents < parsed.events.length then
        limitError (js "journal event aggregate exceeds the inspection limit")
      else do
        let model ← validation.validateRecoveryJournal document parsed.events
        pure
          { document
            verified := raw.take parsed.verifiedBytes
            events := parsed.events
            model }

-- ============================================================================
-- Pages
-- ============================================================================

namespace RunInspectionPage

def toJson (page : RunInspectionPage N) : Json N :=
  .obj ([(js "version", number N 1), (js "runName", .str page.runName),
      (js "runId", .str page.runId), (js "manifestHash", .str page.manifestHash),
      (js "journalPrefixSha256", .str page.journalPrefixSha256),
      (js "eventCount", number N page.eventCount), (js "view", .str page.view.text),
      (js "items", .arr page.items)] ++
    present (js "nextCursor") (page.nextCursor.map .str) ++
    [(js "serializedBytes", number N page.serializedBytes)])

/-- The length of the canonical encoding of a page. -/
def encodedBytes (page : RunInspectionPage N) : Except InspectionFailure Nat :=
  (stringify page.toJson).map fun text => (utf8 text).length

/-- The loop of `measuredPage`, for so many attempts. -/
def measure : Nat → RunInspectionPage N → Except InspectionFailure (RunInspectionPage N)
  | 0, page => .ok page
  | attempt + 1, page => do
    let next ← page.encodedBytes
    if next = page.serializedBytes then pure page
    else measure attempt { page with serializedBytes := next }

def measuredPage (page : RunInspectionPage N) : Except InspectionFailure (RunInspectionPage N) :=
  measure 4 { page with serializedBytes := 0 }

end RunInspectionPage

variable (N) in
def filterHash (frameId : Option JsString) : Except InspectionFailure JsString :=
  (stringify (N := N) (.obj [(js "frameId", nullable frameId)])).map sha256

/-- What a page says besides its items, and the cursor to the items after an offset. -/
structure PageContext (N : Type) [JsonNumber N] where
  snapshot : AuthoritySnapshot N
  runName : JsString
  view : RunInspectionView
  filterHash : JsString
  cursorKey : List Byte
  items : List (Json N)

namespace PageContext

variable (context : PageContext N)

def cursorAt (offset : Nat) : CursorV1 where
  runId := context.snapshot.document.runId
  manifestHash := context.snapshot.document.manifestHash
  journalPrefixSha256 := sha256Bytes context.snapshot.verified
  prefixBytes := context.snapshot.verified.length
  eventCount := context.snapshot.events.length
  view := context.view
  filterHash := context.filterHash
  offset := offset

/-- The page of so many items from an offset. -/
def page (offset count : Nat) : Except InspectionFailure (RunInspectionPage N) := do
  let pageItems := (context.items.drop offset).take count
  let nextOffset := offset + pageItems.length
  let nextCursor ←
    if nextOffset < context.items.length then
      (encodeCursor N (context.cursorAt nextOffset) context.cursorKey).map some
    else pure none
  RunInspectionPage.measuredPage
    { runName := context.runName
      runId := context.snapshot.document.runId
      manifestHash := context.snapshot.document.manifestHash
      journalPrefixSha256 := sha256Bytes context.snapshot.verified
      eventCount := context.snapshot.events.length
      view := context.view
      items := pageItems
      serializedBytes := 0
      nextCursor }

/-- The loop that shrinks a page until it fits. -/
def largestPage (offset : Nat) : Nat → Except InspectionFailure (RunInspectionPage N)
  | 0 =>
    if context.items.length = 0 then do
      let page ← context.page offset 0
      if page.serializedBytes ≤ maxRunInspectionPageBytes then pure page
      else limitError (js "one inspection item exceeds the serialized page byte limit")
    else limitError (js "one inspection item exceeds the serialized page byte limit")
  | count + 1 => do
    let page ← context.page offset (count + 1)
    if page.serializedBytes ≤ maxRunInspectionPageBytes then pure page
    else largestPage offset count

end PageContext

/-- A cursor is of this run, prefix, view and filter. -/
def cursorMatches (cursor : CursorV1) (request : RunInspectionRequest)
    (snapshot : AuthoritySnapshot N) (hash : JsString) : Bool :=
  decide (cursor.runId = snapshot.document.runId) &&
    decide (cursor.manifestHash = snapshot.document.manifestHash) &&
    decide (cursor.view = request.view) && decide (cursor.filterHash = hash) &&
    decide (cursor.prefixBytes = snapshot.verified.length) &&
    decide (cursor.journalPrefixSha256 = sha256Bytes snapshot.verified) &&
    decide (cursor.eventCount = snapshot.events.length)

variable [JsonArithmetic N]

/-- `runs` are the managed runs that a listing finds to be valid, by name. -/
def inspectManagedRunPage (cursorKey : List Byte) (runs : JsString → Option ManagedRunFiles)
    (request : RunInspectionRequest) : Except InspectionFailure (RunInspectionPage N) :=
  if !validRequest request then
    .error (.inspection .invalidRequest (js "invalid managed run inspection request"))
  else if cursorKey.length < 32 then
    .error (.inspection .invalidRequest
      (js "inspection cursor key must contain at least 32 bytes"))
  else do
    let cursor ←
      match request.cursor with
      | none => pure none
      | some encoded => (decodeCursor N encoded cursorKey).map some
    match runs request.runName with
    | none =>
      .error (.inspection .runNotFound (js "managed run was not found or is not valid"))
    | some files =>
      let snapshot ← readAuthority validation files cursor
      let hash ← filterHash N request.frameId
      if cursor.any fun cursor => !cursorMatches cursor request snapshot hash then
        invalidCursor (js "inspection cursor is invalid or stale")
      else
        let offset := cursor.elim 0 (·.offset)
        let items ← project request.view snapshot.events snapshot.model snapshot.document.limits
          request.frameId
        if items.length ≤ offset ∧ 0 < items.length then
          invalidCursor (js "inspection cursor offset is stale")
        else
          let context : PageContext N :=
            { snapshot, runName := request.runName, view := request.view, filterHash := hash,
              cursorKey, items }
          context.largestPage offset
            (min (request.pageSize.getD defaultRunInspectionPageSize) (items.length - offset))

end PiRlm.Runtime

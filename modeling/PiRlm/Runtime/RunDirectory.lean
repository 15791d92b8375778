/-
  PiRlm.Runtime.RunDirectory

  The run directory of a manifest: `claimRunDirectory` and `readRunManifest` of
  `runtime/run-manifest.ts`.

  The programs perform file operations on a directory.  An operation may fail before or after
  it has acted, and a write may be torn; what has been done to the directory stays done.
-/
import PiRlm.Lib.Program
import PiRlm.Runtime.RunManifest

namespace PiRlm.Runtime

open PiRlm.Lib PiRlm.Lib.Json PiRlm.Core PiRlm.Shell PiRlm.Runtime.Manifest

def runManifestFile : JsString := js "manifest.json"
def runLockFile : JsString := js ".pi-rlm-run.lock"
def maxRunManifestBytes : Nat := 2 * 1024 * 1024

/-- The name of the temporary file of a manifest. -/
def manifestTempFile (nonce : JsString) : JsString :=
  js "." ++ runManifestFile ++ js "." ++ nonce ++ js ".tmp"

-- ============================================================================
-- Errors
-- ============================================================================

inductive RunDirectoryErrorCode where
  | inUse | notEmpty | writeFailed | cleanupFailed | invalid | incompatible
  deriving Repr, DecidableEq

def RunDirectoryErrorCode.text : RunDirectoryErrorCode → JsString
  | .inUse => js "RUN_DIRECTORY_IN_USE"
  | .notEmpty => js "RUN_DIRECTORY_NOT_EMPTY"
  | .writeFailed => js "MANIFEST_WRITE_FAILED"
  | .cleanupFailed => js "MANIFEST_CLEANUP_FAILED"
  | .invalid => js "MANIFEST_INVALID"
  | .incompatible => js "MANIFEST_INCOMPATIBLE"

inductive RunDirectoryFailure where
  | aborted
  /-- A failed file operation, with its own code if it has one. -/
  | io (code : Option JsString)
  | check (error : ManifestError)
  /-- The text is not JSON. -/
  | json
  | handleCleanup (cause : RunDirectoryFailure)
  | aggregate (first second : RunDirectoryFailure)
  | directory (code : RunDirectoryErrorCode) (message : JsString)
  | caused (code : RunDirectoryErrorCode) (message : JsString) (cause : RunDirectoryFailure)
  deriving Repr, DecidableEq

/-- The own data property `code` of an error, if it is a string. -/
def errorCode : RunDirectoryFailure → Option JsString
  | .io code => code
  | .directory code _ | .caused code _ _ => some code.text
  | .check (.preflight _) => some (js "RUN_COMPONENT_IDENTITY_INVALID")
  | _ => none

def isControl (code : Option JsString) : Bool :=
  code.any fun code => decide (code = js "BUDGET_DEADLINE") || (js "WRITER_").isPrefixOf code

/-- Find the original cancellation or writer-fencing failure. -/
def controlFailure : RunDirectoryFailure → Option RunDirectoryFailure
  | .aborted => some .aborted
  | .io code => if isControl code then some (.io code) else none
  | .aggregate first second => (controlFailure first).or (controlFailure second)
  | .handleCleanup cause | .caused _ _ cause => controlFailure cause
  | .check _ | .json | .directory _ _ => none

/-- `error instanceof RunDirectoryError`. -/
def RunDirectoryFailure.isDirectoryError : RunDirectoryFailure → Bool
  | .directory .. | .caused .. => true
  | _ => false

-- ============================================================================
-- The directory
-- ============================================================================

structure RunFile where
  name : JsString
  isFile : Bool
  nlink : Nat
  mode : Nat
  content : List Byte
  deriving Repr, DecidableEq

/-- The entries of a run directory. -/
structure RunDirectory where
  files : List RunFile
  deriving Repr, DecidableEq

namespace RunDirectory

def lookup (s : RunDirectory) (name : JsString) : Option RunFile :=
  s.files.find? fun file => decide (file.name = name)

def remove (s : RunDirectory) (name : JsString) : RunDirectory :=
  { s with files := s.files.filter fun file => decide (file.name ≠ name) }

def add (s : RunDirectory) (file : RunFile) : RunDirectory :=
  { s with files := s.files ++ [file] }

end RunDirectory

inductive RunDirectoryOp where
  /-- `checkpoint()`, which throws when the run is aborted. -/
  | checkpoint
  /-- `open(path, "wx", 0o600)`. -/
  | createFile (name : JsString)
  /-- `open(path, O_RDONLY | O_NOFOLLOW)`. -/
  | openFile (name : JsString)
  | openDirectory
  | writeFile (name : JsString) (bytes : List Byte)
  | sync (name : JsString)
  | close (name : JsString)
  | syncDirectory
  | closeDirectory
  | readDirectory
  | rename (source target : JsString)
  | unlink (name : JsString)
  | stat (name : JsString)
  | read (name : JsString) (offset length : Nat)
  deriving Repr, DecidableEq

abbrev RunDirectoryOp.Reply : RunDirectoryOp → Type
  | .readDirectory => List JsString
  | .stat _ => RunFile
  | .read .. => List Byte
  | _ => Unit

inductive RunDirectoryLabel where
  /-- The operation is performed; a read gives at most so many octets, but some if there are any. -/
  | done (count : Nat)
  | failsBefore (error : RunDirectoryFailure)
  | failsAfter (error : RunDirectoryFailure)
  /-- A write fails when it has written so many octets. -/
  | torn (count : Nat) (error : RunDirectoryFailure)
  deriving Repr, DecidableEq

namespace RunDirectory

def missing : RunDirectoryFailure := .io (some (js "ENOENT"))
def existing : RunDirectoryFailure := .io (some (js "EEXIST"))

/-- What an operation does that is performed. -/
def effect (count : Nat) (s : RunDirectory) :
    (o : RunDirectoryOp) → RunDirectory × Except RunDirectoryFailure o.Reply
  | .checkpoint | .openDirectory | .sync _ | .close _ | .syncDirectory | .closeDirectory =>
    (s, .ok ())
  | .createFile name =>
    if (s.lookup name).isSome then (s, .error existing)
    else (s.add ⟨name, true, 1, 0o600, []⟩, .ok ())
  | .openFile name => (s, if (s.lookup name).isSome then .ok () else .error missing)
  | .writeFile name bytes =>
    match s.lookup name with
    | some file => ((s.remove name).add { file with content := bytes }, .ok ())
    | none => (s, .error missing)
  | .readDirectory => (s, .ok (s.files.map RunFile.name))
  | .rename source target =>
    match s.lookup source with
    | some file => (((s.remove source).remove target).add { file with name := target }, .ok ())
    | none => (s, .error missing)
  | .unlink name =>
    if (s.lookup name).isSome then (s.remove name, .ok ()) else (s, .error missing)
  | .stat name =>
    (s, match s.lookup name with
      | some file => .ok file
      | none => .error missing)
  | .read name offset length =>
    (s, match s.lookup name with
      | some file => .ok ((file.content.drop offset).take (min length (max 1 count)))
      | none => .error missing)

def perform (o : RunDirectoryOp) (l : RunDirectoryLabel) (s : RunDirectory) :
    RunDirectory × Except RunDirectoryFailure o.Reply :=
  match l with
  | .done count => s.effect count o
  | .failsBefore error => (s, .error error)
  | .failsAfter error => ((s.effect 0 o).1, .error error)
  | .torn count error =>
    match o with
    | .writeFile name bytes => ((s.effect 0 (.writeFile name (bytes.take count))).1, .error error)
    | _ => (s, .error error)

end RunDirectory

def runDirectoryDevice :
    Device RunDirectoryOp.Reply RunDirectoryFailure RunDirectoryLabel RunDirectory where
  perform := RunDirectory.perform
  fault := fun
    | .done _ => false
    | _ => true

-- ============================================================================
-- Files and handles
-- ============================================================================

namespace RunDirectory

abbrev Io := Program RunDirectoryOp.Reply RunDirectoryFailure

def run (o : RunDirectoryOp) : Io o.Reply := Program.perform o

def lift {α : Type} : Check α → Io α
  | .ok value => pure value
  | .error error => .raise (.check error)

/-- A handle is closed after the operation on it; a failed close is an error of its own. -/
def closeAfter (close operation : Io Unit) : Io Unit := do
  let result ← operation.attempt
  let closed ← close.attempt
  match closed, result with
  | .ok _, .ok _ => pure ()
  | .ok _, .error primary => .raise primary
  | .error cleanup, .ok _ => .raise (.handleCleanup cleanup)
  | .error cleanup, .error primary => .raise (.handleCleanup (.aggregate primary cleanup))

/-- `fsync` of the directory. -/
def syncEntries : Io Unit := do
  run .openDirectory
  closeAfter (run .closeDirectory) (run .syncDirectory)

def cleanupFile (name : JsString) : Io Unit := do
  match ← (run (.unlink name)).attempt with
  | .ok _ => pure ()
  | .error error => if errorCode error = some (js "ENOENT") then pure () else .raise error

/-- The errors of cleanups that have failed. -/
def failures : List (Except RunDirectoryFailure Unit) → List RunDirectoryFailure
  | [] => []
  | .ok _ :: rest => failures rest
  | .error error :: rest => error :: failures rest

def combinedFailure (primary : RunDirectoryFailure) : List RunDirectoryFailure →
    RunDirectoryFailure
  | [] => primary
  | error :: rest => .aggregate primary (combinedFailure error rest)

/-- What is thrown after a failure has been cleaned up: `cleanupFailed` when a handle or a
    cleanup has failed.  An error of the claim itself may be thrown as it is. -/
def afterCleanup (error : RunDirectoryFailure) (cleanup : List RunDirectoryFailure)
    (rethrow : Bool) (cleanupMessage message : JsString) : RunDirectoryFailure :=
  match error with
  | .handleCleanup cause =>
    .caused .cleanupFailed cleanupMessage (combinedFailure cause cleanup)
  | error =>
    if !cleanup.isEmpty then .caused .cleanupFailed cleanupMessage (combinedFailure error cleanup)
    else if rethrow && error.isDirectoryError then error
    else .caused .writeFailed message error

variable {N : Type} [JsonNumber N]

-- ============================================================================
-- The claim
-- ============================================================================

/-- The text of a document. -/
def serializeDocument (document : RunManifestDocument N) : Check JsString := do
  let plain ← plainJson (some document.toJson) (js "run manifest document")
  let text ← Manifest.canonicalText plain
  pure (text ++ [0x0A])

/-- The text of the lock. -/
def lockText (document : RunManifestDocument N) : Check JsString :=
  Manifest.canonicalText (.obj [(js "runId", .str (runId document.manifest.nonce)),
    (js "manifestHash", .str document.manifestHash)] : Json N)

/-- Create the lock file, which is there as soon as a directory is claimed. -/
def createLock : Io Unit := do
  match ← (run (.createFile runLockFile)).attempt with
  | .ok _ => pure ()
  | .error error =>
    if errorCode error = some (js "EEXIST") then
      .raise (.caused .inUse (js "run directory is already claimed") error)
    else .raise (.caused .writeFailed (js "failed to claim run directory") error)

/-- Write the lock of a directory that holds no other entries than those allowed. -/
def fillLock (document : RunManifestDocument N) (allowedEntries : List JsString) : Io Unit := do
  let names ← run .readDirectory
  let entries := names.filter fun name =>
    decide (name ≠ runLockFile) && decide (name ∉ allowedEntries)
  if entries ≠ [] then
    .raise (.directory .notEmpty (js "run directory contains existing state"))
  else
    let text ← lift (lockText document)
    run (.writeFile runLockFile (utf8 text))
    run (.sync runLockFile)

def claimLock (document : RunManifestDocument N) (allowedEntries : List JsString) : Io Unit := do
  createLock
  match ← (closeAfter (run (.close runLockFile)) (fillLock document allowedEntries)).attempt with
  | .ok _ => pure ()
  | .error error =>
    let unlinked ← (cleanupFile runLockFile).attempt
    let synced ← syncEntries.attempt
    .raise (afterCleanup error (failures [unlinked, synced]) true
      (js "failed to clean an incomplete run directory claim")
      (js "failed to persist run directory claim"))

/-- What is left of the temporary file when a publication fails. -/
inductive TempFile where
  | absent | created | renamed
  deriving Repr, DecidableEq

/-- Remove a temporary file that is still there, and throw. -/
def abandon (temp : JsString) (left : TempFile) (error : RunDirectoryFailure) : Io Unit := do
  let cleanup ← match left with
    | .created => (cleanupFile temp).attempt
    | .absent | .renamed => pure (.ok ())
  .raise (afterCleanup error (failures [cleanup]) false
    (js "failed to clean an incomplete run manifest")
    (js "failed to publish durable run manifest"))

/-- Publish a text as the manifest. -/
def publish (temp serialized : JsString) : Io Unit := do
  -- the lock is durable before any valid manifest can appear
  match ← syncEntries.attempt with
  | .error error => abandon temp .absent error
  | .ok _ =>
  match ← (run (.createFile temp)).attempt with
  | .error error => abandon temp .absent error
  | .ok _ =>
  let written ← Program.attempt do
    closeAfter (run (.close temp)) do
      run (.writeFile temp (utf8 serialized))
      run (.sync temp)
    run (.rename temp runManifestFile)
  match written with
  | .error error => abandon temp .created error
  | .ok _ =>
  match ← syncEntries.attempt with
  | .error error => abandon temp .renamed error
  | .ok _ => pure ()

/-- Permanently claim an empty run directory and atomically publish its manifest. -/
def claimRunDirectory (document : RunManifestDocument N) (allowedEntries : List JsString) :
    Io Unit :=
  match serializeDocument document with
  | .error cause => .raise (.caused .writeFailed (js "run manifest cannot be serialized")
      (.check cause))
  | .ok serialized =>
    if maxRunManifestBytes < (utf8 serialized).length then
      .raise (.directory .writeFailed (js "run manifest exceeds its resume authority byte limit"))
    else do
      claimLock document allowedEntries
      publish (manifestTempFile document.manifest.nonce) serialized

-- ============================================================================
-- The reader
-- ============================================================================

/-- `finally { await handle.close() }`: an error of the close takes the place of one before. -/
def withFile {α : Type} (name : JsString) (body : Io α) : Io α := do
  run (.openFile name)
  let result ← body.attempt
  run (.close name)
  match result with
  | .ok value => pure value
  | .error error => .raise error

/-- The loop of a bounded read: it stops at an empty read. -/
def readLoop (name : JsString) (length : Nat) : Nat → List Byte → Io (List Byte)
  | 0, octets => pure octets
  | fuel + 1, octets =>
    if octets.length < length then do
      run .checkpoint
      let chunk ← run (.read name octets.length (min (64 * 1024) (length - octets.length)))
      if chunk = [] then pure octets else readLoop name length fuel (octets ++ chunk)
    else pure octets

/-- One bounded private regular file. -/
def boundedPrivate (file : RunFile) (maximum : Nat) : Bool :=
  file.isFile && decide (file.nlink = 1) && decide (file.mode % 0o100 = 0) &&
    decide (1 ≤ file.content.length) && decide (file.content.length ≤ maximum)

/-- Bounded no-follow authority read through one stable private regular-file handle. -/
def readBoundedRunDirectoryFile (name : JsString) (maximum : Nat) : Io (List Byte) := do
  run .checkpoint
  withFile name do
    let before ← run (.stat name)
    if !boundedPrivate before maximum then
      .raise (.check (.type (js "authority file is not one bounded private regular file")))
    else
      run .checkpoint
      let octets ← readLoop name before.content.length before.content.length []
      let after ← run (.stat name)
      if octets.length ≠ before.content.length ∨ before ≠ after then
        .raise (.check (.type (js "authority file changed during its bounded read")))
      else
        run .checkpoint
        pure octets

/-- The document of a parsed text, which has to be its canonical text. -/
def storedDocument (text : JsString) (parsed : Json N) : Check (Json N) := do
  let document ← parseManifestDocument parsed
  let plain ← plainJson (some document) (js "stored run manifest")
  let canonical ← Manifest.canonicalText plain
  Manifest.require (decide (canonical ++ [0x0A] = text))
    (js "stored run manifest is not canonical strict JSON")
  pure document

def parseDocument (text : JsString) : Except RunDirectoryFailure (Json N) :=
  match Json.parse text with
  | none => .error .json
  | some parsed => (storedDocument text parsed).mapError .check

variable (N) in
def readDocument : Io (Json N) := do
  let octets ← readBoundedRunDirectoryFile runManifestFile maxRunManifestBytes
  match parseDocument (utf8Decode octets) with
  | .ok document => pure document
  | .error error => .raise error

variable (N) in
/-- Read and strictly validate an existing compatible manifest. -/
def readRunManifest : Io (Json N) := do
  match ← (readDocument N).attempt with
  | .ok document => pure document
  | .error error =>
    match controlFailure error with
    | some control => .raise control
    | none =>
      match error with
      | .check (.compatibility _) =>
        .raise (.caused .incompatible (js "stored run manifest is incompatible") error)
      | error =>
        if error.isDirectoryError then .raise error
        else .raise (.caused .invalid (js "stored run manifest is invalid") error)

end RunDirectory

end PiRlm.Runtime

/-
  PiRlm.Runtime.CheckpointStore

  Checkpoint payloads in two slots: `runtime/checkpoint-store.ts`, and the part of
  `RunCheckpointWriter.commit` of `runtime/checkpoint-persistence.ts` that publishes one.

  The programs perform file operations on a checkpoint directory.  An operation may fail
  before or after it has acted, a write may be torn, and a program may stop after any
  operation; what has been done to the directory stays done.
-/
import Mathlib
import PiRlm.Core.Operation
import PiRlm.Lib.Program
import PiRlm.Lib.Decimal
import PiRlm.Shell.Hash

namespace PiRlm.Runtime

open PiRlm.Lib PiRlm.Core PiRlm.Shell

-- ============================================================================
-- Limits and names
-- ============================================================================

def maxRunCheckpointBytes : Nat := 256 * 1024 * 1024
def runCheckpointMetadataAllowanceBytes : Nat := 1024 * 1024
def runCheckpointRetainedSlots : Nat := 2
def runCheckpointMaxPhysicalEntries : Nat := 3

def runCheckpointPayloadByteLimit (storedByteLimit : Nat) : Nat :=
  min maxRunCheckpointBytes
    (if maxRunCheckpointBytes - runCheckpointMetadataAllowanceBytes < storedByteLimit then
      maxRunCheckpointBytes
    else storedByteLimit + runCheckpointMetadataAllowanceBytes)

def runCheckpointAggregateByteLimit (storedByteLimit : Nat) : Nat :=
  runCheckpointPayloadByteLimit storedByteLimit * runCheckpointMaxPhysicalEntries

def pendingFile : JsString := js ".pending.tmp"

/-- The last component of `checkpointPath`. -/
def slotFile (sequence : Nat) : JsString :=
  js "slot-" ++ decimal (sequence % runCheckpointRetainedSlots) ++ js ".bin"

/-- `/^slot-([01])\.bin$/`. -/
def isSlot (name : JsString) : Bool :=
  decide (name = js "slot-0.bin") || decide (name = js "slot-1.bin")

structure RunCheckpointContentReference where
  checkpointSequence : Nat
  id : JsString
  sha256 : JsString
  bytes : Nat
  deriving Repr, DecidableEq

structure RunCheckpointPhysicalUsage where
  entries : Nat
  bytes : Nat
  deriving Repr, DecidableEq

-- ============================================================================
-- Errors
-- ============================================================================

inductive CheckpointError where
  | aborted
  /-- An error with an own code, if it has one. -/
  | coded (code : Option JsString)
  | caused (code : Option JsString) (cause : CheckpointError)
  | aggregate (first second : CheckpointError)
  | append (eventDurable : Bool) (cause : CheckpointError)
  deriving Repr, DecidableEq

def storeError : CheckpointError := .coded none
def capacityError : CheckpointError := .coded (some (js "CHECKPOINT_CAPACITY"))

/-- `error.code === code`. -/
def CheckpointError.hasCode (code : JsString) : CheckpointError → Bool
  | .coded own => decide (own = some code)
  | .caused own _ => decide (own = some code)
  | _ => false

def isControlCode (code : Option JsString) : Bool :=
  code.any fun code => decide (code = js "BUDGET_DEADLINE") || (js "WRITER_").isPrefixOf code

def checkpointControlFailure : CheckpointError → Option CheckpointError
  | .aborted => some .aborted
  | .coded code => if isControlCode code then some (.coded code) else none
  | .caused code cause =>
    if isControlCode code then some (.caused code cause) else checkpointControlFailure cause
  | .aggregate first second =>
    match checkpointControlFailure first with
    | some found => some found
    | none => checkpointControlFailure second
  | .append _ cause => checkpointControlFailure cause

def isOptionalCode (code : Option JsString) : Bool :=
  code.any fun code => decide (code ∈ ["CHECKPOINT_CAPACITY", "EDQUOT", "EFBIG", "EIO", "EMFILE",
    "ENFILE", "ENOMEM", "ENOSPC"].map js)

def isOptionalCheckpointStorageFailure : CheckpointError → Bool
  | .aborted => false
  | .coded code => isOptionalCode code
  | .caused code cause => isOptionalCode code || isOptionalCheckpointStorageFailure cause
  | .aggregate first second =>
    isOptionalCheckpointStorageFailure first && isOptionalCheckpointStorageFailure second
  | .append _ cause => isOptionalCheckpointStorageFailure cause

-- ============================================================================
-- The directory and the journal
-- ============================================================================

structure CheckpointFile where
  name : JsString
  isFile : Bool
  nlink : Nat
  mode : Nat
  content : List Byte
  deriving Repr, DecidableEq

/-- The checkpoint directory of a run, when there is one, and the references of the
    `checkpoint_committed` events of its journal. -/
structure CheckpointDisk where
  directory : Bool
  files : List CheckpointFile
  journal : List RunCheckpointContentReference
  deriving Repr, DecidableEq

namespace CheckpointDisk

def lookup (s : CheckpointDisk) (name : JsString) : Option CheckpointFile :=
  s.files.find? fun file => decide (file.name = name)

def remove (s : CheckpointDisk) (name : JsString) : CheckpointDisk :=
  { s with files := s.files.filter fun file => decide (file.name ≠ name) }

def add (s : CheckpointDisk) (file : CheckpointFile) : CheckpointDisk :=
  { s with files := s.files ++ [file] }

end CheckpointDisk

structure DirectoryInfo where
  symbolicLink : Bool
  directory : Bool
  mode : Nat
  deriving Repr, DecidableEq

inductive CheckpointOp where
  /-- `checkpoint()`, which throws when the run is aborted. -/
  | checkpoint
  | mkdir
  | lstatDirectory
  /-- Both real paths: the directory is the one in the run directory. -/
  | realpath
  | readDirectory
  | openFile (name : JsString)
  | stat (name : JsString)
  | close (name : JsString)
  | sync (name : JsString)
  | unlink (name : JsString)
  | syncDirectory
  | writeFile (name : JsString) (bytes : List Byte)
  | rename (source target : JsString)
  | read (name : JsString) (offset length : Nat)
  /-- The `checkpoint_committed` events of `journal.authoritySnapshot()`. -/
  | authoritySnapshot
  | append (reference : RunCheckpointContentReference)
  deriving Repr, DecidableEq

abbrev CheckpointOp.Reply : CheckpointOp → Type
  | .lstatDirectory => DirectoryInfo
  | .realpath => Bool
  | .readDirectory => List JsString
  | .stat _ => CheckpointFile
  | .read .. => List Byte
  | .authoritySnapshot => Nat
  | .append _ => Bool
  | _ => Unit

inductive CheckpointLabel where
  /-- The operation succeeds; a read gives at most so many octets, but some if there are any. -/
  | done (count : Nat)
  | failsBefore (error : CheckpointError)
  | failsAfter (error : CheckpointError)
  /-- A write fails when it has written so many octets. -/
  | torn (count : Nat) (error : CheckpointError)
  deriving Repr, DecidableEq

namespace CheckpointDisk

def missing : CheckpointError := .coded (some (js "ENOENT"))
def existing : CheckpointError := .coded (some (js "EEXIST"))

/-- What an operation does that does not fail. -/
def effect (count : Nat) (s : CheckpointDisk) :
    (o : CheckpointOp) → CheckpointDisk × Except CheckpointError o.Reply
  | .checkpoint => (s, .ok ())
  | .mkdir => if s.directory then (s, .error existing) else ({ s with directory := true }, .ok ())
  | .lstatDirectory =>
    (s, if s.directory then .ok ⟨false, true, 0o700⟩ else .error missing)
  | .realpath => (s, if s.directory then .ok true else .error missing)
  | .readDirectory => (s, if s.directory then .ok (s.files.map (·.name)) else .error missing)
  | .openFile name => (s, if (s.lookup name).isSome then .ok () else .error missing)
  | .stat name =>
    (s, match s.lookup name with
      | some file => .ok file
      | none => .error missing)
  | .close _ => (s, .ok ())
  | .sync _ => (s, .ok ())
  | .unlink name =>
    if (s.lookup name).isSome then (s.remove name, .ok ()) else (s, .error missing)
  | .syncDirectory => (s, if s.directory then .ok () else .error missing)
  | .writeFile name bytes =>
    if (s.lookup name).isSome then (s, .error existing)
    else if s.directory then (s.add ⟨name, true, 1, 0o600, bytes⟩, .ok ())
    else (s, .error missing)
  | .rename source target =>
    match s.lookup source with
    | some file => (((s.remove source).remove target).add { file with name := target }, .ok ())
    | none => (s, .error missing)
  | .read name offset length =>
    (s, match s.lookup name with
      | some file => .ok ((file.content.drop offset).take (min length (max 1 count)))
      | none => .error missing)
  | .authoritySnapshot => (s, .ok s.journal.length)
  | .append reference => ({ s with journal := s.journal ++ [reference] }, .ok true)

/-- An append says whether its event is durable. -/
def reported (durable : Bool) (error : CheckpointError) : CheckpointOp → CheckpointError
  | .append _ => .append durable error
  | _ => error

def perform (o : CheckpointOp) (l : CheckpointLabel) (s : CheckpointDisk) :
    CheckpointDisk × Except CheckpointError o.Reply :=
  match l with
  | .done count => s.effect count o
  | .failsBefore error => (s, .error (reported false error o))
  | .failsAfter error => ((s.effect 0 o).1, .error (reported true error o))
  | .torn count error =>
    match o with
    | .writeFile name bytes => ((s.effect 0 (.writeFile name (bytes.take count))).1, .error error)
    | o => (s, .error (reported false error o))

end CheckpointDisk

def checkpointDevice : Device CheckpointOp.Reply CheckpointError CheckpointLabel CheckpointDisk where
  perform := CheckpointDisk.perform
  fault := fun
    | .done _ => false
    | _ => true

-- ============================================================================
-- The store
-- ============================================================================

namespace RunCheckpointStore

abbrev Io := Program CheckpointOp.Reply CheckpointError

def perform (o : CheckpointOp) : Io o.Reply := Program.perform o

/-- `finally { close }`: an error of the close takes the place of one before it. -/
def withFile {α : Type} (name : JsString) (body : Io α) : Io α := do
  perform (.openFile name)
  let result ← body.attempt
  perform (.close name)
  match result with
  | .ok value => pure value
  | .error error => .raise error

variable (storedByteLimit : Nat)

/-- `mkdir`, for a directory that may be there already. -/
def makeDirectory : Io Unit := do
  match ← (perform .mkdir).attempt with
  | .ok _ => pure ()
  | .error error => if error.hasCode (js "EEXIST") then pure () else .raise error

def checkDirectory : Io Unit := do
  let info ← perform .lstatDirectory
  if info.symbolicLink || !info.directory || decide (info.mode % 0o100 ≠ 0) then .raise storeError
  else
    let inside ← perform .realpath
    if inside then pure () else .raise storeError

def ensureDirectory (create : Bool) : Io Unit :=
  if create then do
    makeDirectory
    checkDirectory
  else checkDirectory

def names : Io (List JsString) := do
  let names ← perform .readDirectory
  if runCheckpointMaxPhysicalEntries < names.length then .raise storeError
  else pure (names.mergeSort fun left right => decide (left ≤ right))

/-- One bounded private regular file. -/
def boundedPrivate (file : CheckpointFile) (minimum : Nat) : Bool :=
  file.isFile && decide (file.nlink = 1) && decide (file.mode % 0o100 = 0) &&
    decide (minimum ≤ file.content.length) &&
    decide (file.content.length ≤ runCheckpointPayloadByteLimit storedByteLimit)

def privateFileSize (name : JsString) (allowEmpty : Bool) : Io Nat :=
  withFile name do
    let before ← perform (.stat name)
    if !boundedPrivate storedByteLimit before (if allowEmpty then 0 else 1) then .raise storeError
    else
      let after ← perform (.stat name)
      if before = after then pure before.content.length else .raise storeError

/-- The loop of `inspectEntries`, from a number of bytes on. -/
def inspectNames : List JsString → Nat → Io Nat
  | [], bytes => pure bytes
  | name :: rest, bytes =>
    if !(decide (name = pendingFile) || isSlot name) then .raise storeError
    else do
      let size ← privateFileSize storedByteLimit name (decide (name = pendingFile))
      if runCheckpointAggregateByteLimit storedByteLimit < bytes + size then .raise capacityError
      else inspectNames rest (bytes + size)

def inspectEntries : Io RunCheckpointPhysicalUsage := do
  let names ← names
  let bytes ← inspectNames storedByteLimit names 0
  pure ⟨names.length, bytes⟩

def removePending : Io Unit := do
  let removed ← Program.attempt do
    let _ ← privateFileSize storedByteLimit pendingFile true
    perform (.unlink pendingFile)
    perform .syncDirectory
  match removed with
  | .ok _ => pure ()
  | .error error => if error.hasCode (js "ENOENT") then pure () else .raise error

def writePending (bytes : List Byte) : Io Unit := do
  perform (.writeFile pendingFile bytes)
  withFile pendingFile (perform (.sync pendingFile))

/-- The loop of `read`: it stops at an empty read. -/
def readLoop (name : JsString) (length : Nat) : Nat → List Byte → Io (List Byte)
  | 0, octets => pure octets
  | fuel + 1, octets =>
    if octets.length < length then do
      perform .checkpoint
      let chunk ← perform (.read name octets.length (min (64 * 1024) (length - octets.length)))
      if chunk = [] then pure octets else readLoop name length fuel (octets ++ chunk)
    else pure octets

def referenceValid (reference : RunCheckpointContentReference) : Bool :=
  decide (reference.checkpointSequence ≤ maxSafeInteger) &&
    decide (1 ≤ reference.checkpointSequence) &&
    isPrefixedHash (js "ctx_") reference.id && isHash reference.sha256 &&
    decide (reference.id = js "ctx_" ++ reference.sha256) && decide (1 ≤ reference.bytes) &&
    decide (reference.bytes ≤ runCheckpointPayloadByteLimit storedByteLimit)

def read (reference : RunCheckpointContentReference) : Io (List Byte) := do
  if !referenceValid storedByteLimit reference then .raise storeError
  else
    perform .checkpoint
    ensureDirectory false
    let _ ← inspectEntries storedByteLimit
    let name := slotFile reference.checkpointSequence
    withFile name do
      let before ← perform (.stat name)
      if !boundedPrivate storedByteLimit before 0 ||
          decide (before.content.length ≠ reference.bytes) then .raise storeError
      else
        let octets ← readLoop name reference.bytes reference.bytes []
        let after ← perform (.stat name)
        if octets.length ≠ reference.bytes ∨ before ≠ after then .raise storeError
        else if sha256Bytes octets ≠ reference.sha256 then .raise storeError
        else
          perform .checkpoint
          pure octets

/-- The reference of a payload. -/
def reference (sequence : Nat) (payload : List Byte) : RunCheckpointContentReference :=
  ⟨sequence, js "ctx_" ++ sha256Bytes payload, sha256Bytes payload, payload.length⟩

/-- What `publish` tries, with its payload made canonical. -/
def publishPayload (sequence : Nat) (payload : List Byte) :
    Io (Option RunCheckpointContentReference) := do
  ensureDirectory true
  removePending storedByteLimit
  let usage ← inspectEntries storedByteLimit
  if runCheckpointRetainedSlots < usage.entries ∨
      runCheckpointAggregateByteLimit storedByteLimit < usage.bytes + payload.length then
    pure none
  else
    writePending payload
    let size ← privateFileSize storedByteLimit pendingFile false
    if size ≠ payload.length then .raise storeError
    else
      perform .checkpoint
      perform (.rename pendingFile (slotFile sequence))
      perform .syncDirectory
      let final ← read storedByteLimit (reference sequence payload)
      if final.length ≠ payload.length then .raise storeError
      else
        let _ ← inspectEntries storedByteLimit
        pure (some (reference sequence payload))

/-- What follows an error of `publishPayload` and the cleanup after it. -/
def declineFailure (error : CheckpointError) (cleanup : Except CheckpointError Unit) :
    Io (Option RunCheckpointContentReference) :=
  match cleanup with
  | .ok _ =>
    match checkpointControlFailure error with
    | some control => .raise control
    | none => if isOptionalCheckpointStorageFailure error then pure none else .raise error
  | .error cleanupError =>
    match (checkpointControlFailure error).or (checkpointControlFailure cleanupError) with
    | some control => .raise control
    | none =>
      if isOptionalCheckpointStorageFailure error &&
          isOptionalCheckpointStorageFailure cleanupError then pure none
      else .raise (.aggregate error cleanupError)

def publish (sequence : Nat) (payload : List Byte) :
    Io (Option RunCheckpointContentReference) := do
  if payload.length < 1 ∨ runCheckpointPayloadByteLimit storedByteLimit < payload.length then
    pure none
  else
    perform .checkpoint
    match ← (publishPayload storedByteLimit sequence payload).attempt with
    | .ok published => pure published
    | .error error =>
      let cleanup ← (removePending storedByteLimit).attempt
      perform .checkpoint
      declineFailure error cleanup

end RunCheckpointStore

-- ============================================================================
-- The writer
-- ============================================================================

open RunCheckpointStore in
def classifyCheckpointJournalFailure (error : CheckpointError) : Io Bool :=
  match checkpointControlFailure error with
  | some control => .raise control
  | none =>
    match error with
    | .append eventDurable cause =>
      if eventDurable then pure true
      else if isOptionalCheckpointStorageFailure (.append eventDurable cause) then pure false
      else .raise error
    | error => .raise error

open RunCheckpointStore in
/-- `RunCheckpointWriter.commit` from the journal snapshot on, for a captured payload. -/
def commitCheckpoint (storedByteLimit : Nat) (payload : List Byte) : Io Bool := do
  let committed ← perform .authoritySnapshot
  match ← publish storedByteLimit (committed + 1) payload with
  | none => pure false
  | some reference =>
    perform .checkpoint
    match ← (perform (.append reference)).attempt with
    | .ok appended => pure appended
    | .error error => classifyCheckpointJournalFailure error

/-- Commits one after the other, each with a payload and the labels that it is given; one
    that runs out of labels has crashed. -/
def runCheckpoints (storedByteLimit : Nat) (s : CheckpointDisk)
    (commits : List (List Byte × List CheckpointLabel)) : CheckpointDisk :=
  commits.foldl (fun s commit =>
    ((commitCheckpoint storedByteLimit commit.1).exec checkpointDevice commit.2 s).1) s

/-- A run with no checkpoint. -/
def noCheckpoint : CheckpointDisk := ⟨false, [], []⟩

end PiRlm.Runtime

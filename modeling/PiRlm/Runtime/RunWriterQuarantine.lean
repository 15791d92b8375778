/-
  PiRlm.Runtime.RunWriterQuarantine

  The removal of quarantined runs: `scavengeRunQuarantine` of
  `runtime/run-writer-quarantine.ts`, `syncPrivateDirectory` of
  `runtime/run-writer-directory.ts`, and `scavengeQuarantines` of `runtime/run-retention.ts`.

  The programs perform file operations on a managed root.  `rm` takes one path after the
  other, and the environment chooses which: a program that stops leaves a part of the tree,
  and other programs act between two operations.
-/
import Mathlib
import PiRlm.Lib.Program
import PiRlm.Lib.Decimal
import PiRlm.Runtime.ArbitrationDirectory

namespace PiRlm.Runtime

open PiRlm.Lib PiRlm.Core PiRlm.Shell

-- ============================================================================
-- The managed root
-- ============================================================================

/-- A file of an arbitration directory; `elsewhere` counts its links outside of it. -/
structure ArbitrationFile where
  name : JsString
  dev : Nat
  ino : Nat
  mode : Nat
  isFile : Bool
  content : List Byte
  elsewhere : Nat
  deriving Repr, DecidableEq

structure ArbitrationTree where
  mode : Nat
  files : List ArbitrationFile
  deriving Repr, DecidableEq

/-- An entry of the managed root; `others` are the paths below it that are not in its
    arbitration directory. -/
structure RunTree where
  name : JsString
  dev : Nat
  ino : Nat
  /-- A directory, and no symbolic link. -/
  isDirectory : Bool
  arbitration : Option ArbitrationTree
  others : List JsString
  deriving Repr, DecidableEq

structure ManagedRoot where
  dev : Nat
  ino : Nat
  mode : Nat
  entries : List RunTree
  deriving Repr, DecidableEq

namespace ArbitrationFile

def sameInode (left right : ArbitrationFile) : Bool :=
  decide (left.dev = right.dev) && decide (left.ino = right.ino)

/-- What loading a file of a directory gives: a bounded regular file and its links. -/
def load (files : List ArbitrationFile) (file : ArbitrationFile) :
    Option (List Byte × ArbitrationEntryStat) :=
  if file.isFile && decide (file.content.length ≤ maxArbitrationRecordBytes) then
    some (file.content,
      { dev := file.dev
        ino := file.ino
        mode := file.mode
        nlink := file.elsewhere + files.countP file.sameInode
        size := file.content.length
        isFile := true })
  else none

end ArbitrationFile

namespace ArbitrationTree

def find (tree : ArbitrationTree) (name : JsString) : Option ArbitrationFile :=
  tree.files.find? fun file => decide (file.name = name)

end ArbitrationTree

/-- A path that can be removed: a file, or a directory with nothing in it. -/
inductive RemovalTarget where
  | file (name : JsString)
  | arbitration
  | other (path : JsString)
  | run
  deriving Repr, DecidableEq

namespace RunTree

def targets (tree : RunTree) : List RemovalTarget :=
  (match tree.arbitration with
    | none => if tree.others.isEmpty then [.run] else []
    | some directory =>
      if directory.files.isEmpty then [.arbitration]
      else directory.files.map fun file => .file file.name) ++
    tree.others.map .other

def unlink (tree : RunTree) : RemovalTarget → Option RunTree
  | .file name =>
    some { tree with
      arbitration := tree.arbitration.map fun directory =>
        { directory with files := directory.files.filter fun file => decide (file.name ≠ name) } }
  | .arbitration => some { tree with arbitration := none }
  | .other path => some { tree with others := tree.others.filter fun other => decide (other ≠ path) }
  | .run => none

/-- The number of paths of a tree. -/
def size (tree : RunTree) : Nat :=
  1 + tree.others.length + (tree.arbitration.elim 0 fun directory => 1 + directory.files.length)

end RunTree

namespace ManagedRoot

def find (s : ManagedRoot) (name : JsString) : Option RunTree :=
  s.entries.find? fun tree => decide (tree.name = name)

/-- The root with another tree under a name, or with none. -/
def set (s : ManagedRoot) (name : JsString) (tree : Option RunTree) : ManagedRoot :=
  { s with entries := s.entries.filterMap fun other => if other.name = name then tree else some other }

end ManagedRoot

-- ============================================================================
-- Operations
-- ============================================================================

inductive ScavengeError where
  /-- A file operation fails, with `ENOENT` or with another code. -/
  | system (missing : Bool)
  | typeError (message : JsString)
  | error (message : JsString)
  | protocol (error : WriterProtocolError)
  | aggregate (first second : ScavengeError) (message : JsString)
  | scanLimit (message : JsString)
  | cleanup (message : JsString) (cause : ScavengeError)
  deriving Repr, DecidableEq

structure RunStat where
  dev : Nat
  ino : Nat
  isDirectory : Bool
  deriving Repr, DecidableEq

structure RootStat where
  dev : Nat
  ino : Nat
  mode : Nat
  deriving Repr, DecidableEq

inductive QuarantineOp where
  /-- `mkdir` and `chmod` of the root, and the checks of its identity. -/
  | ensureRoot
  | openRoot
  | lstat (name : JsString)
  | statDirectory (name : JsString)
  | list (name : JsString)
  | load (name file : JsString)
  /-- `rm` finds the tree. -/
  | walk (name : JsString)
  /-- `rm` removes one path; the reply says whether the tree is gone. -/
  | removeNext (name : JsString)
  /-- The root, by its descriptor and by its path. -/
  | statRoot
  | syncRoot
  deriving Repr, DecidableEq

abbrev QuarantineOp.Reply : QuarantineOp → Type
  | .openRoot => List JsString
  | .lstat _ => RunStat
  | .statDirectory _ => Nat
  | .list _ => List JsString
  | .load .. => List Byte × ArbitrationEntryStat
  | .walk _ => Nat
  | .removeNext _ => Bool
  | .statRoot => RootStat
  | _ => Unit

inductive QuarantineLabel where
  /-- The operation succeeds; `choice` says which path goes. -/
  | done (choice : Nat)
  | failsBefore
  | failsAfter (choice : Nat)
  deriving Repr, DecidableEq

namespace ManagedRoot

def missing : ScavengeError := .system true

def reply {α : Type} (value : Option α) : Except ScavengeError α :=
  match value with
  | some value => .ok value
  | none => .error missing

/-- The arbitration directory of an entry. -/
def directory (s : ManagedRoot) (name : JsString) : Option ArbitrationTree :=
  (s.find name).bind (·.arbitration)

/-- One path of a tree goes, if there is one. -/
def removeNext (s : ManagedRoot) (name : JsString) (choice : Nat) : ManagedRoot :=
  match s.find name with
  | none => s
  | some tree =>
    match tree.targets[choice % tree.targets.length]? with
    | none => s
    | some target => s.set name (tree.unlink target)

/-- What an operation does that does not fail. -/
def effect (choice : Nat) (s : ManagedRoot) :
    (o : QuarantineOp) → ManagedRoot × Except ScavengeError o.Reply
  | .ensureRoot => ({ s with mode := 0o700 }, .ok ())
  | .openRoot => (s, .ok (s.entries.map (·.name)))
  | .lstat name => (s, reply ((s.find name).map fun tree => ⟨tree.dev, tree.ino, tree.isDirectory⟩))
  | .statDirectory name => (s, reply ((s.directory name).map (·.mode)))
  | .list name => (s, reply ((s.directory name).map fun tree => tree.files.map (·.name)))
  | .load name file =>
    (s, reply ((s.directory name).bind fun tree => (tree.find file).bind (·.load tree.files)))
  | .walk name => (s, reply ((s.find name).map (·.size)))
  | .removeNext name =>
    let s' := s.removeNext name choice
    (s', .ok (s'.find name).isNone)
  | .statRoot => (s, .ok ⟨s.dev, s.ino, s.mode⟩)
  | .syncRoot => (s, .ok ())

def perform (o : QuarantineOp) (l : QuarantineLabel) (s : ManagedRoot) :
    ManagedRoot × Except ScavengeError o.Reply :=
  match l with
  | .done choice => s.effect choice o
  | .failsBefore => (s, .error (.system false))
  | .failsAfter choice => ((s.effect choice o).1, .error (.system false))

end ManagedRoot

def quarantineDevice : Device QuarantineOp.Reply ScavengeError QuarantineLabel ManagedRoot where
  perform := ManagedRoot.perform
  fault := fun
    | .done _ => false
    | _ => true

-- ============================================================================
-- Names
-- ============================================================================

structure QuarantineName where
  token : JsString
  dev : JsString
  ino : JsString
  deriving Repr, DecidableEq

/-- `QUARANTINE.exec(name)`. -/
def quarantineMatch (name : JsString) : Option QuarantineName :=
  let start := js ".pi-rlm-quarantine-"
  let rest := name.drop start.length
  match rest.drop 64 with
  | 0x2d :: identity =>
    match identity.dropWhile isDigit with
    | 0x2d :: ino =>
      if start.isPrefixOf name && isHash (rest.take 64) && !(identity.takeWhile isDigit).isEmpty &&
          !ino.isEmpty && ino.all isDigit then
        some ⟨rest.take 64, identity.takeWhile isDigit, ino⟩
      else none
    | _ => none
  | _ => none

def isRunQuarantineName (name : JsString) : Bool := (quarantineMatch name).isSome

def quarantineName (generation : GenerationRecord) : JsString :=
  js ".pi-rlm-quarantine-" ++ generation.token ++ js "-" ++ decimal generation.runDev ++ js "-" ++
    decimal generation.runIno

-- ============================================================================
-- The scavenger
-- ============================================================================

namespace RunQuarantine

abbrev Io := Program QuarantineOp.Reply ScavengeError

def perform (o : QuarantineOp) : Io o.Reply := Program.perform o

/-- `lstat`, with `ENOENT` as no value. -/
def statAttempt (name : JsString) : Io (Option RunStat) := do
  match ← (perform (.lstat name)).attempt with
  | .ok stat => pure (some stat)
  | .error error => if error = .system true then pure none else .raise error

def valid (stat : RootStat) (expected : Option (Nat × Nat)) : Bool :=
  decide (stat.mode % 0o10000 = 0o700) &&
    expected.all fun identity => decide (stat.dev = identity.1) && decide (stat.ino = identity.2)

/-- `syncPrivateDirectory(root, expected)`. -/
def syncPrivateDirectory (expected : Option (Nat × Nat)) : Io Unit := do
  let before ← perform .statRoot
  let identity := expected.getD (before.dev, before.ino)
  if !valid before (some identity) then
    .raise (.error (js "private directory descriptor or pathname identity is invalid before sync"))
  else
    perform .syncRoot
    let after ← perform .statRoot
    if !valid after (some identity) then
      .raise (.error (js "private directory descriptor or pathname identity changed during sync"))
    else pure ()

/-- The loop of `scanArbitrationDirectory`, from the entries that have been loaded. -/
def loadEntries (name : JsString) :
    List JsString → List ArbitrationDirectoryEntry → Io (List ArbitrationDirectoryEntry)
  | [], entries => pure entries
  | file :: files, entries => do
    let loaded ← (perform (.load name file)).attempt
    loadEntries name files (entries ++ [⟨file, loaded.toOption⟩])

variable (N : Type) [JsonNumber N] (localeCompare : JsString → JsString → Ordering)

/-- The inspection of what has been loaded. -/
def inspectLoaded (entries : List ArbitrationDirectoryEntry) : Io ArbitrationChain :=
  match inspectArbitrationDirectory N localeCompare entries with
  | some (.ok chain) => pure chain
  | some (.error error) => .raise (.protocol error)
  | none => .raise (.error [])

def scanArbitrationDirectory (name : JsString) : Io ArbitrationChain := do
  match ← (perform (.statDirectory name)).attempt with
  | .error _ => .raise (.protocol ⟨.corrupt, js "arbitration directory cannot be inspected"⟩)
  | .ok mode =>
    if mode % 0o10000 ≠ 0o700 then
      .raise (.protocol ⟨.corrupt, js "arbitration directory is not canonical private metadata"⟩)
    else do
      let names ← perform (.list name)
      if maxArbitrationEntries < names.length then
        .raise (.protocol ⟨.limit, js "arbitration directory entry limit exceeded"⟩)
      else do
        let entries ← loadEntries name (names.insertionSort (· ≤ ·)) []
        inspectLoaded N localeCompare entries

def sameRun (stat : RunStat) (generation : GenerationRecord) : Bool :=
  stat.isDirectory && decide (stat.dev = generation.runDev) && decide (stat.ino = generation.runIno)

/-- The name, the inode and the tip of the chain agree, and the tip is terminal. -/
def agrees (name : QuarantineName) (stat : RunStat) (chain : ArbitrationChain)
    (tip : GenerationRecord) : Bool :=
  decide (tip.token = name.token) && decide (decimal tip.runDev = name.dev) &&
    decide (decimal tip.runIno = name.ino) && (chain.release? tip.token).isNone &&
    (decide (tip.role = .retention) || decide (tip.role = .retirement) ||
      (decide (tip.role = .writer) && decide (tip.ordinal = 1))) &&
    sameRun stat tip

/-- The loop of `rm`, for at most so many paths. -/
def removeRest (name : JsString) : Nat → Io Unit
  | 0 => .raise (.system false)
  | paths + 1 => do
    let gone ← perform (.removeNext name)
    if gone then pure () else removeRest name paths

/-- `rm(path, { recursive: true, force: false })`. -/
def remove (name : JsString) : Io Unit := do
  let paths ← perform (.walk name)
  removeRest name paths

/-- The removal, where a remover that fails may have removed the tree nonetheless. -/
def removeReconciled (name : JsString) : Io Unit := do
  match ← (remove name).attempt with
  | .ok _ => pure ()
  | .error removal =>
    match ← (statAttempt name).attempt with
    | .error inspection =>
      .raise (.aggregate removal inspection
        (js "quarantine removal and residual inspection both failed"))
    | .ok residual => if residual.isSome then .raise removal else pure ()

/-- The end of a removal. -/
def confirmRemoved (name : JsString) (tip : GenerationRecord) : Io Unit := do
  let residual ← statAttempt name
  if residual.isSome then
    .raise (.error (js "quarantine remover resolved without removing the inode-bound directory"))
  else syncPrivateDirectory (some (tip.rootDev, tip.rootIno))

/-- A name that matches is a child of the root. -/
def scavengeRunQuarantine (name : JsString) : Io Unit :=
  match quarantineMatch name with
  | none => .raise (.typeError (js "invalid quarantine name"))
  | some parts => do
    match ← statAttempt name with
    | none => syncPrivateDirectory none
    | some stat => do
      let chain ← scanArbitrationDirectory N localeCompare name
      match chain.tip.filter (agrees parts stat chain) with
      | none => .raise (.error (js "quarantine name, inode, and terminal arbitration disagree"))
      | some tip => do
        removeReconciled name
        confirmRemoved name tip

variable (maxScanEntries : Nat)

/-- The loop of `scavengeQuarantines`, after so many entries. -/
def scavengeEntries : List JsString → Nat → Io Unit
  | [], _ => pure ()
  | name :: names, examined =>
    if maxScanEntries < examined + 1 then
      .raise (.scanLimit (js "quarantine scavenging entry limit reached"))
    else if isRunQuarantineName name then do
      match ← (scavengeRunQuarantine N localeCompare name).attempt with
      | .ok _ => scavengeEntries names (examined + 1)
      | .error cause =>
        .raise (.cleanup (js "failed to scavenge deterministic managed-run quarantine") cause)
    else scavengeEntries names (examined + 1)

def scavengeQuarantines : Io Unit := do
  perform .ensureRoot
  let names ← perform .openRoot
  scavengeEntries N localeCompare maxScanEntries names 0

end RunQuarantine

end PiRlm.Runtime

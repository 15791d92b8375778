/-
  PiRlm.Runtime.ArbitrationDirectory

  The inspection of an arbitration directory: `inspectArbitrationDirectory` of
  `runtime/run-writer-protocol.ts`.

  Slots name the generations and releases that count; an intent that no slot refers to is
  an orphan.  `String.prototype.localeCompare` is a parameter: it orders the orphans that
  are returned and decides nothing else.
-/
import Mathlib
import PiRlm.Runtime.RunWriterRecords

namespace PiRlm.Runtime

open PiRlm.Lib PiRlm.Core PiRlm.Shell

structure ArbitrationEntryStat where
  dev : Nat
  ino : Nat
  mode : Nat
  nlink : Nat
  size : Nat
  isFile : Bool
  deriving Repr, DecidableEq

/-- A name of the listing and what loading it has given; `none` is a load that failed. -/
structure ArbitrationDirectoryEntry where
  name : JsString
  load : Option (List Byte × ArbitrationEntryStat)
  deriving Repr, DecidableEq

inductive OrphanValidity where
  | canonical | malformed | unverifiable
  deriving Repr, DecidableEq

inductive IntentKind where
  | generation | release
  deriving Repr, DecidableEq

structure ArbitrationOrphan where
  name : JsString
  recordType : IntentKind
  validity : OrphanValidity
  deriving Repr, DecidableEq

structure ArbitrationChain where
  generations : List GenerationRecord
  releases : List ReleaseRecord
  orphans : List ArbitrationOrphan
  tip : Option GenerationRecord
  deriving Repr, DecidableEq

/-- `chain.releases.get(token)`. -/
def ArbitrationChain.release? (chain : ArbitrationChain) (token : JsString) :
    Option ReleaseRecord :=
  chain.releases.find? fun release => decide (release.generation = token)

def corrupt {α : Type} (message : JsString) : Except WriterProtocolError α :=
  .error ⟨.corrupt, message⟩

/-- `corrupt(message)`, unless a check has passed. -/
def demand (passed : Bool) (message : JsString) : Except WriterProtocolError Unit :=
  if passed then .ok () else corrupt message

-- ============================================================================
-- Names
-- ============================================================================

/-- What stands between a start and an end of a name. -/
def enclosed (start stop name : JsString) : Option JsString :=
  if start.isPrefixOf name && stop.isSuffixOf (name.drop start.length) then
    some ((name.drop start.length).take ((name.drop start.length).length - stop.length))
  else none

inductive SlotName where
  | next (predecessor : Option JsString)
  | released (generation : JsString)
  deriving Repr, DecidableEq

/-- `nextName` and `releasedName`. -/
def slotName (name : JsString) : Option SlotName :=
  if name = js "next-root.claim" then some (.next none)
  else
    match (enclosed (js "next-") (js ".claim") name).filter isHash with
    | some predecessor => some (.next (some predecessor))
    | none =>
      ((enclosed (js "released-") (js ".claim") name).filter isHash).map .released

def intentKind (name : JsString) : Option IntentKind :=
  if (js "gen-").isPrefixOf name && (js ".json").isSuffixOf name then some .generation
  else if (js "rel-").isPrefixOf name && (js ".json").isSuffixOf name then some .release
  else none

-- ============================================================================
-- Slots
-- ============================================================================

def privateFile (bytes : List Byte) (stat : ArbitrationEntryStat) : Bool :=
  stat.isFile && decide (stat.mode % 0o10000 = 0o600) && decide (stat.size = bytes.length)

/-- `entryIdentity` and `entryBytes`: what has been loaded of a private regular file. -/
def entryIdentity (entry : ArbitrationDirectoryEntry) (label : JsString) :
    Except WriterProtocolError (List Byte × ArbitrationEntryStat) :=
  match entry.load with
  | none => corrupt (label ++ js " cannot be read")
  | some (bytes, stat) =>
    (demand (privateFile bytes stat)
      (label ++ js " is not a canonical private regular file")).map fun _ => (bytes, stat)

def sameInode (left right : ArbitrationEntryStat) : Bool :=
  decide (left.dev = right.dev) && decide (left.ino = right.ino)

/-- `entries.get(name)`. -/
def findEntry (entries : List ArbitrationDirectoryEntry) (name : JsString) :
    Option ArbitrationDirectoryEntry :=
  entries.find? fun entry => decide (entry.name = name)

/-- The intent that a slot refers to is in the listing, and is the file of the slot. -/
def matchIntent (entries : List ArbitrationDirectoryEntry) (slot intentName missing : JsString)
    (slotStat : ArbitrationEntryStat) : Except WriterProtocolError Unit :=
  match findEntry entries intentName with
  | none => corrupt (slot ++ missing)
  | some intent =>
    (entryIdentity intent (js "intent " ++ intentName)).bind fun loaded =>
    demand (sameInode slotStat loaded.2 && decide (loaded.2.nlink = 2))
      (slot ++ js " does not match its intent inode")

/-- The record of a slot. -/
inductive SlotRecord where
  | generation (record : GenerationRecord)
  | release (record : ReleaseRecord)
  deriving Repr, DecidableEq

def SlotRecord.intentName : SlotRecord → JsString
  | .generation record => generationIntentFilename record.token
  | .release record => releaseIntentFilename record.token

variable (N : Type) [JsonNumber N]

/-- A record that does not decode makes its slot malformed. -/
def decodeSlot (slot : JsString) (name : SlotName) (bytes : List Byte) :
    Except WriterProtocolError SlotRecord :=
  match name with
  | .next predecessor =>
    match decodeGenerationRecord N bytes with
    | .error _ => corrupt (slot ++ js " contains a malformed authoritative record")
    | .ok generation =>
      (demand (decide (generation.predecessor = predecessor))
        (slot ++ js " references the wrong predecessor")).map fun _ => .generation generation
  | .released token =>
    match decodeReleaseRecord N bytes with
    | .error _ => corrupt (slot ++ js " contains a malformed authoritative record")
    | .ok release =>
      (demand (decide (release.generation = token))
        (slot ++ js " references the wrong generation")).map fun _ => .release release

def SlotRecord.missing : SlotRecord → JsString
  | .generation _ => js " has no generation intent"
  | .release _ => js " has no release intent"

/-- What a slot entry stands for. -/
def readSlot (entries : List ArbitrationDirectoryEntry) (entry : ArbitrationDirectoryEntry)
    (name : SlotName) : Except WriterProtocolError SlotRecord :=
  let slot := js "slot " ++ entry.name
  (entryIdentity entry slot).bind fun loaded =>
  (demand (decide (loaded.2.nlink = 2)) (slot ++ js " has an invalid link count")).bind fun _ =>
  (decodeSlot N slot name loaded.1).bind fun record =>
  (matchIntent entries slot record.intentName record.missing loaded.2).map fun _ => record

/-- The maps that the slots fill. -/
structure Slots where
  referenced : List JsString
  generations : List GenerationRecord
  successors : Option JsString → Option GenerationRecord
  releases : List ReleaseRecord

namespace Slots

def empty : Slots := ⟨[], [], fun _ => none, []⟩

def add (slots : Slots) : SlotRecord → Except WriterProtocolError Slots
  | .generation record =>
    (demand (!slots.generations.any fun other => decide (other.token = record.token))
      (js "generation token is referenced more than once")).map fun _ =>
      { slots with
        referenced := slots.referenced ++ [generationIntentFilename record.token]
        generations := slots.generations ++ [record]
        successors := Function.update slots.successors record.predecessor (some record) }
  | .release record =>
    (demand (!slots.releases.any fun other => decide (other.generation = record.generation))
      (js "generation has more than one release slot")).map fun _ =>
      { slots with
        referenced := slots.referenced ++ [releaseIntentFilename record.token]
        releases := slots.releases ++ [record] }

end Slots

/-- The first pass over the listing. -/
def inspectSlots (entries : List ArbitrationDirectoryEntry) :
    List ArbitrationDirectoryEntry → Slots → Except WriterProtocolError Slots
  | [], slots => .ok slots
  | entry :: rest, slots =>
    match slotName entry.name with
    | none => inspectSlots entries rest slots
    | some name =>
      (readSlot N entries entry name).bind fun record =>
      (slots.add record).bind fun slots => inspectSlots entries rest slots

-- ============================================================================
-- Orphans
-- ============================================================================

/-- The name that the canonical record of an intent has. -/
def expectedName (kind : IntentKind) (bytes : List Byte) : Option JsString :=
  match kind with
  | .generation =>
    match decodeGenerationRecord N bytes with
    | .ok record => some (generationIntentFilename record.token)
    | .error _ => none
  | .release =>
    match decodeReleaseRecord N bytes with
    | .ok record => some (releaseIntentFilename record.token)
    | .error _ => none

def orphanValidity (entry : ArbitrationDirectoryEntry) (kind : IntentKind) : OrphanValidity :=
  match entry.load with
  | none => .unverifiable
  | some (bytes, stat) =>
    if stat.nlink ≠ 1 then .unverifiable
    else if expectedName N kind bytes = some entry.name ∧ privateFile bytes stat = true then
      .canonical
    else .malformed

/-- The second pass over the listing. -/
def inspectOrphans (referenced : List JsString) :
    List ArbitrationDirectoryEntry → Except WriterProtocolError (List ArbitrationOrphan)
  | [] => .ok []
  | entry :: rest =>
    if (slotName entry.name).isSome || decide (entry.name ∈ referenced) then
      inspectOrphans referenced rest
    else
      match intentKind entry.name with
      | none => corrupt (js "unexpected arbitration entry " ++ entry.name)
      | some kind =>
        (inspectOrphans referenced rest).map fun orphans =>
          ⟨entry.name, kind, orphanValidity N entry kind⟩ :: orphans

-- ============================================================================
-- The chain
-- ============================================================================

/-- What the walk checks of the next generation, against the first one of the chain. -/
def checkGeneration (slots : Slots) (chain : List GenerationRecord)
    (generation : GenerationRecord) : Except WriterProtocolError Unit := do
  demand (decide (generation.ordinal = chain.length + 1))
    (js "generation ordinals are not contiguous")
  demand (chain.head?.all fun identity =>
      decide (identity.toArbitrationIdentity = generation.toArbitrationIdentity) &&
        decide (identity.runName = generation.runName))
    (js "generation chain changes run identity")
  let release := slots.releases.find? fun release => decide (release.generation = generation.token)
  demand (!(decide (generation.role = .retirement) && release.isSome))
    (js "retirement generation cannot be released")
  demand (release.all fun release =>
      decide (generation.toArbitrationIdentity = release.toArbitrationIdentity) &&
        decide (release.processNonce = generation.processNonce))
    (js "release does not match its generation owner and identity")

/-- The walk from the root slot; `none` when the bound on its steps is reached. -/
def walkChain (slots : Slots) :
    Nat → Option JsString → List GenerationRecord →
      Option (Except WriterProtocolError (List GenerationRecord))
  | 0, _, _ => none
  | fuel + 1, predecessor, chain =>
    match slots.successors predecessor with
    | none => some (.ok chain)
    | some generation =>
      match checkGeneration slots chain generation with
      | .error error => some (.error error)
      | .ok _ => walkChain slots fuel (some generation.token) (chain ++ [generation])

/-- What follows the walk. -/
def closeChain (slots : Slots) (orphans : List ArbitrationOrphan) (chain : List GenerationRecord) :
    Except WriterProtocolError ArbitrationChain := do
  demand (decide (chain.length = slots.generations.length))
    (js "generation slot is not reachable from next-root.claim")
  demand (slots.releases.all fun release =>
      slots.generations.any fun generation => decide (generation.token = release.generation))
    (js "release references an unknown generation")
  pure ⟨chain, slots.releases, orphans, chain.getLast?⟩

/-- The checks of the listing as a whole, and its two passes. -/
def inspectEntries (entries : List ArbitrationDirectoryEntry) :
    Except WriterProtocolError (Slots × List ArbitrationOrphan) :=
  if maxArbitrationEntries < entries.length then
    .error ⟨.limit, js "arbitration directory entry limit exceeded"⟩
  else
    (demand (decide (entries.map (·.name)).Nodup)
      (js "arbitration directory contains a duplicate entry name")).bind fun _ =>
    (inspectSlots N entries entries .empty).bind fun slots =>
    (inspectOrphans N slots.referenced entries).bind fun orphans =>
    if maxArbitrationOrphans < orphans.length then
      .error ⟨.limit, js "arbitration orphan budget exceeded"⟩
    else .ok (slots, orphans)

variable (localeCompare : JsString → JsString → Ordering)

/-- `none` would be a walk that does not end. -/
def inspectArbitrationDirectory (entries : List ArbitrationDirectoryEntry) :
    Option (Except WriterProtocolError ArbitrationChain) :=
  match inspectEntries N entries with
  | .error error => some (.error error)
  | .ok (slots, orphans) =>
    (walkChain slots (slots.generations.length + 1) none []).map fun walked =>
      walked.bind fun chain =>
        closeChain slots
          (orphans.mergeSort fun left right => localeCompare left.name right.name != .gt) chain

end PiRlm.Runtime

/-
  PiRlm.Shell.JournalStore

  Journal records of `shell/journal-store.ts` and the scan of a journal file.

  A record is one event or one checksummed batch, written as one canonical line.
  `scanJournal` reads the complete lines of a file, checks each against the line its
  own content would be written as, and drops a batch whose identity was seen before.
-/
import Mathlib
import PiRlm.Shell.JournalEvent

namespace PiRlm.Shell

open PiRlm.Lib PiRlm.Lib.Json PiRlm.Core

def batchRecordType : JsString := js "journal_batch"

def batchRecordVersion : Nat := 1

/-- Line feed, as an octet and as a code unit. -/
def lineFeed : Byte := 0x0A

def lineFeedUnit : CodeUnit := 0x0A

variable {N : Type} [JsonNumber N]

/-! ## Events -/

namespace RlmEvent

def type (event : RlmEvent N) : JsString :=
  stringAt event.fields (js "type")

def frameId (event : RlmEvent N) : JsString :=
  stringAt event.fields (js "frameId")

end RlmEvent

/-- `left[leftKey] === right[rightKey]` for numbers. -/
def sameNumber (left : RecordValue N) (leftKey : JsString) (right : RecordValue N)
    (rightKey : JsString) : Bool :=
  match get left leftKey, get right rightKey with
  | some (.num m), some (.num n) => decide (JsonNumber.value m = JsonNumber.value n)
  | _, _ => false

def isTerminal (event : RlmEvent N) : Bool :=
  event.type == js "run_completed" || event.type == js "run_failed" ||
    event.type == js "run_cancelled"

def isProgress (event : RlmEvent N) : Bool :=
  event.type == js "phase" || event.type == js "emit"

def sameProgressIdentity (left right : RlmEvent N) : Bool :=
  left.frameId == right.frameId &&
    sameNumber left.fields (js "iteration") right.fields (js "iteration") &&
    sameNumber left.fields (js "ordinal") right.fields (js "ordinal")

/-! ## Batches -/

def hasFullCellOutput (cell : RlmEvent N) : Bool :=
  string cell.fields (js "outputRef") true && string cell.fields (js "outputRefSha256") true &&
    isHash (stringAt cell.fields (js "outputRefSha256")) &&
    refMatches cell.fields (js "outputRef") (js "outputRefSha256") &&
    integer cell.fields (js "outputRefBytes") false

def hasFullAnswerOutput (answer : RlmEvent N) : Bool :=
  isHash (stringAt answer.fields (js "outputSha256")) &&
    refMatches answer.fields (js "outputRef") (js "outputSha256") &&
    integer answer.fields (js "outputBytes") false

def sameOutput (cell answer : RlmEvent N) : Bool :=
  hasFullCellOutput cell && hasFullAnswerOutput answer &&
    stringAt cell.fields (js "outputRef") == stringAt answer.fields (js "outputRef") &&
    stringAt cell.fields (js "outputRefSha256") == stringAt answer.fields (js "outputSha256") &&
    sameNumber cell.fields (js "outputRefBytes") answer.fields (js "outputBytes")

/-- A citation with the answer extracted from it. -/
def isFallbackPair (citation answer : RlmEvent N) : Bool :=
  citation.type == js "fallback_evidence_cited" && answer.type == js "answer_committed"

/-- The progress event at `index` belongs to the cell. -/
def progressMatches (cell progress : RlmEvent N) (index : Nat) : Bool :=
  isProgress progress && progress.frameId == cell.frameId &&
    sameNumber progress.fields (js "iteration") cell.fields (js "iteration") &&
    isNumber progress.fields (js "ordinal") index

/-- The part of a batch after its progress events: the cell, with its answer or without
    any output. -/
def validCellTail (cell : RlmEvent N) : List (RlmEvent N) → Bool
  | [] => !own cell.fields (js "outputRef") && !own cell.fields (js "outputRefSha256") &&
      !own cell.fields (js "outputRefBytes")
  | answer :: _ => answer.type == js "answer_committed" && answer.frameId == cell.frameId &&
      stringAt answer.fields (js "completionMode") == js "answer" && sameOutput cell answer

/-- Indexes of the cell events. -/
def cellIndexes (events : List (RlmEvent N)) : List Nat :=
  (events.zipIdx.filter fun p => p.1.type == js "cell_committed").map Prod.snd

/-- Only the two exact transactions emitted by the runtime are valid batch payloads. -/
def validBatchSemantics (events : List (RlmEvent N)) : Bool :=
  if 1 < (events.filter fun e => e.type == js "answer_committed").length then false
  else
    match events with
    | [first, second] =>
      if isFallbackPair first second then
        first.frameId == second.frameId &&
          stringAt second.fields (js "completionMode") == js "fallback_extract" &&
          hasFullAnswerOutput second
      else validCellBatch events
    | _ => validCellBatch events
where
  /-- Progress events, one cell, and at most one answer. -/
  validCellBatch (events : List (RlmEvent N)) : Bool :=
    match cellIndexes events with
    | [cellIndex] =>
      match events.drop cellIndex with
      | [] => false
      | cell :: tail =>
        (cellIndex + 1 == events.length || cellIndex + 2 == events.length) &&
          ((events.take cellIndex).zipIdx.all fun p => progressMatches cell p.1 p.2) &&
          validCellTail cell tail
    | _ => false

/-- A batch as it is written. -/
structure JournalBatchRecord (N : Type) [JsonNumber N] where
  batchId : JsString
  checksum : JsString
  events : List (RlmEvent N)

def JournalBatchRecord.toJson (record : JournalBatchRecord N) : Json N :=
  .obj [(js "type", .str batchRecordType),
    (js "version", .num (JsonNumber.ofNat batchRecordVersion)),
    (js "batchId", .str record.batchId),
    (js "checksum", .str record.checksum),
    (js "events", .arr (record.events.map RlmEvent.toJson))]

def makeBatchRecord (events : List (RlmEvent N)) : Except JsString (JournalBatchRecord N) :=
  (canonicalStringify (.arr (events.map RlmEvent.toJson))).map fun text =>
    { batchId := js "batch_" ++ sha256 text, checksum := sha256 text, events }

/-- The canonical line of a record. -/
def recordLine (record : Json N) : Except JsString JsString :=
  (canonicalStringify record).map fun text => text ++ [lineFeedUnit]

/-! ## Scan -/

structure JournalEventPosition where
  /-- Zero-based semantic event index in the verified event stream. -/
  eventIndex : Nat
  /-- Complete JSONL bytes preceding the physical record containing this event. -/
  prefixBytes : Nat
  /-- Complete JSONL bytes through the physical record containing this event. -/
  endBytes : Nat
  deriving Repr, DecidableEq

structure JournalScan (N : Type) [JsonNumber N] where
  events : List (RlmEvent N)
  eventPositions : List JournalEventPosition
  verifiedBytes : Nat
  batchIds : List JsString

def lineHash (line : JsString) : JsString :=
  (sha256 line).take 12

def corruptLine (lineNumber : Nat) (line : JsString) : InterpreterError where
  code := js "JOURNAL_CORRUPT"
  message := js "corrupt journal line " ++ decimal lineNumber ++ js " (" ++ lineHash line ++ js ")"

/-- Every item parses as an event. -/
def parseEvents : (items : List (Json N)) → (∀ v ∈ items, v.Owned) → Option (List (RlmEvent N))
  | [], _ => some []
  | v :: items, h =>
    match parseRlmEvent ⟨v, h v List.mem_cons_self⟩ with
    | .error _ => none
    | .ok event =>
      (parseEvents items fun w hw => h w (List.mem_cons_of_mem v hw)).map (event :: ·)

/-- `Object.keys(envelope).sort().join("\0")`. -/
def joinedKeys (keys : List JsString) : JsString :=
  [(0 : CodeUnit)].intercalate (sortBy id keys)

def envelopeKeys : List JsString :=
  [js "batchId", js "checksum", js "events", js "type", js "version"]

/-- The checks of a batch envelope before its events are parsed. -/
def validEnvelope (envelope : RecordValue N) : Bool :=
  joinedKeys (envelope.map Prod.fst) == [(0 : CodeUnit)].intercalate envelopeKeys &&
    isNumber envelope (js "version") batchRecordVersion &&
    string envelope (js "batchId") true &&
    isPrefixedHash (js "batch_") (stringAt envelope (js "batchId")) &&
    string envelope (js "checksum") true && isHash (stringAt envelope (js "checksum"))

/-- The events of a batch line, when everything about it is as it would be written. -/
def scanBatch (envelope : RecordValue N) (howned : (Json.obj envelope).Owned) (line : JsString) :
    Option (JournalBatchRecord N) :=
  if validEnvelope envelope then
    match hevents : get envelope (js "events") with
    | some (.arr items) =>
      if items = [] then none
      else
        have hitems : ∀ v ∈ items, v.Owned :=
          owned_arr.mp ((owned_obj.mp howned).2 _
            ((lookupField_eq_some_iff (owned_obj.mp howned).1.1).mp hevents))
        (parseEvents items hitems).bind fun events =>
          if validBatchSemantics events then
            match makeBatchRecord events with
            | .error _ => none
            | .ok expected =>
              if stringAt envelope (js "batchId") = expected.batchId ∧
                  stringAt envelope (js "checksum") = expected.checksum ∧
                  recordLine expected.toJson = .ok (line ++ [lineFeedUnit])
              then some expected else none
          else none
    | _ => none
  else none

/-- `parsed` is an object whose own `type` says that it is a batch. -/
def isBatchEnvelope : Json N → Bool
  | .obj fields =>
    match get fields (js "type") with
    | some (.str t) => t == batchRecordType
    | _ => false
  | _ => false

/-- Events of one parsed line, with the identity of a batch. -/
def scanRecord (parsed : JsonValue N) (line : JsString) :
    Option (List (RlmEvent N) × Option JsString) :=
  match parsed with
  | ⟨.obj envelope, howned⟩ =>
    if isBatchEnvelope (.obj envelope) then
      (scanBatch envelope howned line).map fun record => (record.events, some record.batchId)
    else
      match parseRlmEvent ⟨.obj envelope, howned⟩ with
      | .error _ => none
      | .ok event => some ([event], none)
  | other =>
    match parseRlmEvent other with
    | .error _ => none
    | .ok event => some ([event], none)

/-- State of the scan between lines. -/
structure ScanState (N : Type) [JsonNumber N] where
  events : List (RlmEvent N)
  eventPositions : List JournalEventPosition
  batchIds : List JsString
  lineStart : Nat
  lineNumber : Nat

/-- `push` of the events of a record that ends before `endBytes`. -/
def ScanState.push (st : ScanState N) (events : List (RlmEvent N)) (endBytes : Nat) :
    ScanState N :=
  { st with
    events := st.events ++ events
    eventPositions := st.eventPositions ++ events.mapIdx fun i _ =>
      { eventIndex := st.events.length + i, prefixBytes := st.lineStart, endBytes } }

/-- One complete line whose line feed is at `i`. -/
def scanLine (st : ScanState N) (bytes : List Byte) (i : Nat) :
    Except InterpreterError (ScanState N) :=
  let line := utf8Decode bytes
  if line.length = 0 then .error (corruptLine st.lineNumber line)
  else
    match parseJson line with
    | none => .error (corruptLine st.lineNumber line)
    | some parsed =>
      match scanRecord parsed line with
      | none => .error (corruptLine st.lineNumber line)
      | some (events, none) =>
        .ok { st.push events (i + 1) with lineStart := i + 1, lineNumber := st.lineNumber + 1 }
      | some (events, some batchId) =>
        let st' := if batchId ∈ st.batchIds then st else st.push events (i + 1)
        .ok { st' with
          batchIds := if batchId ∈ st.batchIds then st.batchIds else st.batchIds ++ [batchId]
          lineStart := i + 1
          lineNumber := st.lineNumber + 1 }

/-- The loop over the verified octets; `current` is the line read so far. -/
def scanLoop : List Byte → List Byte → Nat → ScanState N → Except InterpreterError (ScanState N)
  | [], _, _, st => .ok st
  | b :: rest, current, i, st =>
    if b ≠ lineFeed then scanLoop rest (current ++ [b]) (i + 1) st
    else
      match scanLine st current i with
      | .error e => .error e
      | .ok st' => scanLoop rest [] (i + 1) st'

/-- `raw.lastIndexOf(0x0a)`. -/
def lastIndexOf (raw : List Byte) : Int :=
  (raw.length : Int) - (raw.reverse.takeWhile (· ≠ lineFeed)).length - 1

/-- End of the last complete line. -/
def verifiedLength (raw : List Byte) : Nat :=
  if raw.length = 0 ∨ raw.getLast? = some lineFeed then raw.length
  else (lastIndexOf raw + 1).toNat

def scanJournal (raw : List Byte) : Except InterpreterError (JournalScan N) :=
  (scanLoop (raw.take (verifiedLength raw)) [] 0
    { events := [], eventPositions := [], batchIds := [], lineStart := 0, lineNumber := 0 }).map
    fun st =>
      { events := st.events, eventPositions := st.eventPositions,
        verifiedBytes := verifiedLength raw, batchIds := st.batchIds }

end PiRlm.Shell

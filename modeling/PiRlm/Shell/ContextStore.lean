/-
  PiRlm.Shell.ContextStore

  The content-addressed context store: `shell/context-store.ts`.

  An entry carries the facts that tie its descriptor to its bytes.  Line windows and chunks
  are byte ranges of one entry; chunks are stored again, each under its own content address,
  and `concat` joins stored entries.
-/
import PiRlm.Lib.Decimal
import PiRlm.Lib.Utf8Boundary
import PiRlm.Shell.Hash

namespace PiRlm.Shell

open PiRlm.Lib PiRlm.Core

-- ============================================================================
-- Entries and limits
-- ============================================================================

structure ContextDescriptor where
  id : JsString
  label : JsString
  bytes : Nat
  estimatedTokens : Nat
  tokenEstimator : JsString
  mimeType : JsString
  sha256 : JsString
  deriving Repr, DecidableEq

structure ContextRead where
  text : JsString
  startByte : Nat
  endByte : Nat
  truncated : Bool
  deriving Repr, DecidableEq

/-- The limits that `validateLimits` accepts. -/
structure ContextStoreLimits where
  maxReadBytes : Nat
  maxLines : Nat
  maxLineBytes : Nat
  maxChunks : Nat
  four_le_maxReadBytes : 4 ≤ maxReadBytes
  maxLines_pos : 1 ≤ maxLines
  maxLineBytes_pos : 1 ≤ maxLineBytes
  maxChunks_pos : 1 ≤ maxChunks
  maxLineBytes_le : maxLineBytes ≤ maxReadBytes

/-- `DEFAULT_CONTEXT_STORE_LIMITS`. -/
def defaultContextStoreLimits : ContextStoreLimits where
  maxReadBytes := 1024 * 1024
  maxLines := 10000
  maxLineBytes := 64 * 1024
  maxChunks := 256
  four_le_maxReadBytes := by decide
  maxLines_pos := by decide
  maxLineBytes_pos := by decide
  maxChunks_pos := by decide
  maxLineBytes_le := by decide

inductive ContextError where
  | unavailable (id : JsString)
  | spec (message : JsString)
  | chunkOverflow (produced max : Nat)
  | budget (message : JsString)
  /-- What the file system or a hook of the operation throws. -/
  | failed (message : JsString)
  deriving Repr, DecidableEq

def estimateTokens (bytes : Nat) : Nat := (bytes + 3) / 4

def makeId (sha : JsString) : JsString := js "ctx_" ++ sha

def makeDescriptor (label mimeType sha : JsString) (bytes : Nat) : ContextDescriptor where
  id := makeId sha
  label
  bytes
  estimatedTokens := estimateTokens bytes
  tokenEstimator := js "utf8-bytes/4"
  mimeType
  sha256 := sha

/-- Stored bytes under the address of their content. -/
structure Entry where
  descriptor : ContextDescriptor
  bytesArray : List Byte
  id_eq : descriptor.id = makeId (sha256Bytes bytesArray)
  bytes_eq : descriptor.bytes = bytesArray.length
  length_le : bytesArray.length ≤ maxSafeInteger

structure ContextStore where
  limits : ContextStoreLimits
  entries : List Entry

-- ============================================================================
-- Byte positions
-- ============================================================================

/-- Start offsets move forward to the next code-point boundary. -/
def forwardBoundary (bytes : List Byte) (index : Nat) : Nat :=
  let i := min index bytes.length
  scanAhead (bytes.drop i) i

/-- End offsets move backward, so that no code point is split. -/
def backwardBoundary (bytes : List Byte) (index : Nat) : Nat :=
  scanBack bytes (min index bytes.length)

/-- `value` must be an integer between two bounds. -/
def boundedInteger (value : Int) (name : JsString) (min max : Nat) : Except ContextError Nat :=
  if value < min ∨ (max : Int) < value then
    .error (.spec (name ++ js " must be an integer between " ++ intText min ++ js " and " ++
      intText max))
  else .ok value.toNat

/-- The first of the octets, numbered from `i`, that has a value. -/
def findFrom (value : Byte) : List Byte → Nat → Option Nat
  | [], _ => none
  | b :: rest, i => if b = value then some i else findFrom value rest (i + 1)

def findByte (bytes : List Byte) (value : Byte) (start stop : Nat) : Option Nat :=
  findFrom value ((bytes.take stop).drop start) start

def newlineByte : Byte := 0x0A

def carriageReturn : Byte := 0x0D

/-- `bytes.subarray(start, stop)`. -/
def subarray (bytes : List Byte) (start stop : Nat) : List Byte := (bytes.take stop).drop start

namespace ContextStore

variable (store : ContextStore)

def entryOrThrow (id : JsString) : Except ContextError Entry :=
  match store.entries.find? fun entry => entry.descriptor.id == id with
  | none => .error (.unavailable id)
  | some entry => .ok entry

-- ============================================================================
-- Lines
-- ============================================================================

/-- The start of a line, this many lines after the one that starts at `startByte`. -/
def seekLine (bytes : List Byte) : Nat → Nat → Option Nat
  | 0, startByte => some startByte
  | skipped + 1, startByte =>
    match findByte bytes newlineByte startByte bytes.length with
    | none => none
    | some newline => seekLine bytes skipped (newline + 1)

/-- The end of a line without its delimiter. -/
def lineEnd (bytes : List Byte) (lineStart rawEnd : Nat) : Nat :=
  if lineStart < rawEnd ∧ bytes[rawEnd - 1]? = some carriageReturn then rawEnd - 1 else rawEnd

/-- The end of the last selected line and whether a line feed follows; `more` counts the lines
    to select after the one at `lineStart`. -/
def selectLines (limits : ContextStoreLimits) (bytes : List Byte)
    (startByte more lineNumber lineStart : Nat) : Except ContextError (Nat × Bool) :=
  let newline := findByte bytes newlineByte lineStart bytes.length
  let endByte := lineEnd bytes lineStart (newline.getD bytes.length)
  if limits.maxLineBytes < endByte - lineStart then
    .error (.spec (js "line " ++ intText lineNumber ++ js " exceeds maxLineBytes " ++
      intText limits.maxLineBytes))
  else if limits.maxReadBytes < endByte - startByte then
    .error (.spec (js "line window exceeds maxReadBytes " ++ intText limits.maxReadBytes))
  else
    match newline, more with
    | none, _ => .ok (endByte, false)
    | some _, 0 => .ok (endByte, true)
    | some newline, more + 1 =>
      selectLines limits bytes startByte more (lineNumber + 1) (newline + 1)

def lines (id : JsString) (startLine count : Int) : Except ContextError ContextRead := do
  let entry ← store.entryOrThrow id
  let bytesArray := entry.bytesArray
  let startLine ← boundedInteger startLine (js "startLine") 1 maxSafeInteger
  let count ← boundedInteger count (js "count") 1 store.limits.maxLines
  match seekLine bytesArray (startLine - 1) 0 with
  | none =>
    return { text := [], startByte := bytesArray.length, endByte := bytesArray.length,
             truncated := false }
  | some startByte =>
    let (endByte, truncated) ←
      selectLines store.limits bytesArray startByte (count - 1) startLine startByte
    return { text := utf8DecodeText (subarray bytesArray startByte endByte), startByte, endByte,
             truncated }

-- ============================================================================
-- Search
-- ============================================================================

structure ContextMatch where
  text : JsString
  line : Nat
  startByte : Nat
  contextId : JsString
  deriving Repr, DecidableEq

/-- The limits of a search, beside those of the lines. -/
structure ContextSearchLimits where
  maxPatternBytes : Nat
  maxMatches : Nat
  deriving Repr, DecidableEq

structure GrepOptions where
  pattern : JsString
  caseSensitive : Option Bool
  maxMatches : Int
  syntaxName : Option JsString
  deriving Repr, DecidableEq

/-- What a search looks for in every line, once the line is folded. -/
structure GrepSearch where
  needle : JsString
  fold : JsString → JsString
  maxMatches : Nat

def GrepSearch.hit (search : GrepSearch) (text : JsString) : Bool :=
  decide (search.needle <:+: search.fold text)

/-- The checks of the options. -/
def grepSearch (limits : ContextSearchLimits) (toLowerCase : JsString → JsString)
    (options : GrepOptions) : Except ContextError GrepSearch :=
  if limits.maxPatternBytes < (utf8 options.pattern).length then
    .error (.spec (js "pattern exceeds maxPatternBytes " ++ intText limits.maxPatternBytes))
  else if options.syntaxName ≠ none ∧ options.syntaxName ≠ some (js "literal") then
    .error (.spec (js "grep syntax " ++ quote (options.syntaxName.getD []) ++
      js " is unsupported in v1; use literal syntax"))
  else
    (boundedInteger options.maxMatches (js "maxMatches") 1 limits.maxMatches).map fun maxMatches =>
      if options.caseSensitive = some true then
        { needle := options.pattern, fold := id, maxMatches }
      else { needle := toLowerCase options.pattern, fold := toLowerCase, maxMatches }

def oversizedLine (limits : ContextStoreLimits) (lineNumber : Nat) : ContextError :=
  .spec (js "line " ++ intText lineNumber ++ js " exceeds maxLineBytes " ++
    intText limits.maxLineBytes)

/-- The loop over the lines, for so many of them; `remaining` counts the matches to find. -/
def grepFrom (limits : ContextStoreLimits) (bytes : List Byte) (search : GrepSearch)
    (id : JsString) : (fuel lineStart lineNumber returnedBytes remaining : Nat) →
    Except ContextError (List ContextMatch)
  | 0, _, _, _, _ => .ok []
  | fuel + 1, lineStart, lineNumber, returnedBytes, remaining =>
    if bytes.length < lineStart ∨ remaining = 0 then .ok []
    else
      let newline := findByte bytes newlineByte lineStart bytes.length
      let lineEnd := newline.getD bytes.length
      if limits.maxLineBytes < lineEnd - lineStart then .error (oversizedLine limits lineNumber)
      else
        let text := utf8DecodeText (subarray bytes lineStart lineEnd)
        let next (returnedBytes remaining : Nat) : Except ContextError (List ContextMatch) :=
          match newline with
          | none => .ok []
          | some newline =>
            grepFrom limits bytes search id fuel (newline + 1) (lineNumber + 1) returnedBytes
              remaining
        if search.hit text then
          let returnedBytes := returnedBytes + (lineEnd - lineStart)
          if limits.maxReadBytes < returnedBytes then
            .error (.spec (js "grep results exceed maxReadBytes " ++ intText limits.maxReadBytes))
          else
            (next returnedBytes (remaining - 1)).map
              ({ text, line := lineNumber, startByte := lineStart, contextId := id } :: ·)
        else next returnedBytes remaining

/-- `toLowerCase` is that of the language. -/
def grep (searchLimits : ContextSearchLimits) (toLowerCase : JsString → JsString) (id : JsString)
    (options : GrepOptions) : Except ContextError (List ContextMatch) := do
  let entry ← store.entryOrThrow id
  let search ← grepSearch searchLimits toLowerCase options
  grepFrom store.limits entry.bytesArray search id (entry.bytesArray.length + 1) 0 1 0
    search.maxMatches

-- ============================================================================
-- Chunks
-- ============================================================================

structure ChunkOptions where
  targetTokens : Int
  overlapTokens : Option Int
  maxChunks : Int
  boundary : Option JsString
  deriving Repr, DecidableEq

structure Range where
  start : Nat
  stop : Nat
  deriving Repr, DecidableEq

/-- The options of the loop, in bytes. -/
structure ChunkBytes where
  targetBytes : Nat
  overlapBytes : Nat
  maxChunks : Nat
  line : Bool
  deriving Repr, DecidableEq

/-- The end of the chunk that starts at `start`; up to a line feed if one is near. -/
def chunkEnd (bytes : List Byte) (options : ChunkBytes) (start : Nat) : Nat :=
  let stop := backwardBoundary bytes (min bytes.length (start + options.targetBytes))
  if options.line && decide (stop < bytes.length) then
    match findByte bytes newlineByte stop (min bytes.length (stop + options.targetBytes)) with
    | none => stop
    | some newline => newline + 1
  else stop

/-- The start of the chunk after `start` to `stop`. -/
def nextChunkStart (bytes : List Byte) (options : ChunkBytes) (start stop : Nat) : Nat :=
  let nextStart :=
    if options.overlapBytes = 0 then stop else backwardBoundary bytes (stop - options.overlapBytes)
  if nextStart ≤ start then forwardBoundary bytes (start + 1) else nextStart

def noForwardProgress : ContextError :=
  .spec (js "chunk options do not make forward progress")

def oversizedChunk (limits : ContextStoreLimits) : ContextError :=
  .spec (js "chunk exceeds maxReadBytes " ++ intText limits.maxReadBytes)

/-- The loop over the ranges; `remaining` is how many more there may be. -/
def chunkRanges (limits : ContextStoreLimits) (bytes : List Byte) (options : ChunkBytes) :
    (remaining start : Nat) → Except ContextError (List Range)
  | 0, start =>
    if start < bytes.length then .error (.chunkOverflow (options.maxChunks + 1) options.maxChunks)
    else .ok []
  | remaining + 1, start =>
    if start < bytes.length then
      let stop := chunkEnd bytes options start
      if stop ≤ start then .error noForwardProgress
      else if limits.maxReadBytes < stop - start then .error (oversizedChunk limits)
      else if bytes.length ≤ stop then .ok [⟨start, stop⟩]
      else
        let nextStart := nextChunkStart bytes options start stop
        if nextStart ≤ start ∨ stop < nextStart then .error noForwardProgress
        else (chunkRanges limits bytes options remaining nextStart).map (⟨start, stop⟩ :: ·)
    else .ok []

/-- No overlap, or one below the target. -/
def overlapOf (targetTokens : Nat) : Option Int → Except ContextError Nat
  | none => .ok 0
  | some overlapTokens => boundedInteger overlapTokens (js "overlapTokens") 1 (targetTokens - 1)

/-- The checks of the options. -/
def chunkBytes (limits : ContextStoreLimits) (options : ChunkOptions) :
    Except ContextError ChunkBytes :=
  (boundedInteger options.targetTokens (js "targetTokens") 1 (limits.maxReadBytes / 4)).bind
    fun targetTokens =>
  (overlapOf targetTokens options.overlapTokens).bind fun overlapTokens =>
  (boundedInteger options.maxChunks (js "maxChunks") 1 limits.maxChunks).bind fun maxChunks =>
  if options.boundary ≠ none ∧ options.boundary ≠ some (js "line") ∧
      options.boundary ≠ some (js "none") then
    .error (.spec (js "boundary must be \"line\" or \"none\""))
  else
    .ok { targetBytes := targetTokens * 4, overlapBytes := overlapTokens * 4, maxChunks,
          line := options.boundary == some (js "line") }

-- ============================================================================
-- Commits
-- ============================================================================

theorem length_subarray_le (bytes : List Byte) (start stop : Nat) :
    (subarray bytes start stop).length ≤ bytes.length :=
  ((List.drop_sublist _ _).trans (List.take_sublist _ _)).length_le

/-- `prepareBytes`. -/
def prepareBytes (label mimeType : JsString) (bytes : List Byte)
    (h : bytes.length ≤ maxSafeInteger) : Entry where
  descriptor := makeDescriptor label mimeType (sha256Bytes bytes) bytes.length
  bytesArray := bytes
  id_eq := rfl
  bytes_eq := rfl
  length_le := h

/-- The descriptors of the prepared entries, those of entries that are known already among
    them, and the entries to add. -/
def stage : List Entry → List Entry → List ContextDescriptor × List Entry
  | _, [] => ([], [])
  | known, candidate :: rest =>
    match known.find? fun entry => entry.descriptor.id == candidate.descriptor.id with
    | some existing =>
      let staged := stage known rest
      (existing.descriptor :: staged.1, staged.2)
    | none =>
      let staged := stage (known ++ [candidate]) rest
      (candidate.descriptor :: staged.1, candidate :: staged.2)

/-- The hooks of an operation: how many bytes it may add, and what publishing entries throws. -/
structure ContextOperationControl where
  maxOutputBytes : Option Int
  publish : List Entry → Option ContextError

def outputLimit (control : ContextOperationControl) : Except ContextError Nat :=
  match control.maxOutputBytes with
  | none => .ok maxSafeInteger
  | some bytes => boundedInteger bytes (js "maxOutputBytes") 0 maxSafeInteger

/-- `commitPrepared`: all of the new entries, or none. -/
def commitPrepared (control : ContextOperationControl) (prepared : List Entry) :
    Except ContextError (ContextStore × List ContextDescriptor) :=
  let staged := stage store.entries prepared
  let delta := (staged.2.map fun entry => entry.descriptor.bytes).sum
  if maxSafeInteger < delta then .error (.spec (js "context output is too large"))
  else
    (outputLimit control).bind fun maxOutputBytes =>
      if maxOutputBytes < delta then
        .error (.budget (js "context output requires " ++ intText delta ++ js " bytes; " ++
          intText maxOutputBytes ++ js " bytes remain"))
      else
        match if staged.2.isEmpty then none else control.publish staged.2 with
        | some error => .error error
        | none => .ok ({ store with entries := store.entries ++ staged.2 }, staged.1)

/-- The prepared entries of the ranges, numbered from `index`. -/
def chunkEntries (entry : Entry) : List Range → Nat → List Entry
  | [], _ => []
  | range :: rest, index =>
    prepareBytes (entry.descriptor.label ++ js "#chunk" ++ intText (index + 1 : Nat))
        entry.descriptor.mimeType (subarray entry.bytesArray range.start range.stop)
        ((length_subarray_le _ _ _).trans entry.length_le) ::
      chunkEntries entry rest (index + 1)

def chunks (control : ContextOperationControl) (id : JsString) (options : ChunkOptions) :
    Except ContextError (ContextStore × List ContextDescriptor) :=
  (store.entryOrThrow id).bind fun entry =>
  (chunkBytes store.limits options).bind fun options =>
  (chunkRanges store.limits entry.bytesArray options options.maxChunks 0).bind fun ranges =>
  store.commitPrepared control (chunkEntries entry ranges 0)

-- ============================================================================
-- Concatenation
-- ============================================================================

/-- The parts with the separator between them. -/
def joinParts (separator : List Byte) : List (List Byte) → List Byte
  | [] => []
  | [part] => part
  | part :: next :: rest => part ++ separator ++ joinParts separator (next :: rest)

structure ConcatSpec where
  key : JsString
  refs : List JsString
  separator : Option JsString
  label : Option JsString
  deriving Repr, DecidableEq

def concat (control : ContextOperationControl) (spec : ConcatSpec) :
    Except ContextError (ContextStore × ContextDescriptor) :=
  let separator := utf8 (spec.separator.getD (js "\n"))
  (spec.refs.mapM fun ref => (store.entryOrThrow ref).map Entry.bytesArray).bind fun parts =>
    let bytes := joinParts separator parts
    if h : bytes.length ≤ maxSafeInteger then
      let maxOutputBytes := control.maxOutputBytes.getD maxSafeInteger
      if maxOutputBytes < bytes.length ∧
          store.entries.all (fun entry => entry.descriptor.bytes != bytes.length) = true then
        .error (.budget (js "context output requires " ++ intText bytes.length ++ js " bytes; " ++
          intText maxOutputBytes ++ js " bytes remain"))
      else
        let label := spec.label.getD (js "concat:" ++ spec.key)
        let prepared := prepareBytes label (js "text/plain") bytes h
        (store.commitPrepared control [prepared]).bind fun committed =>
          match committed.2 with
          | [] => .error (.failed [])
          | descriptor :: _ => .ok (committed.1, descriptor)
    else .error (.spec (js "concat output is too large"))

end ContextStore

end PiRlm.Shell

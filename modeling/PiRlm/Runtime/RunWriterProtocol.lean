/-
  PiRlm.Runtime.RunWriterProtocol

  The records of writer arbitration and their wire form, of
  `runtime/run-writer-protocol.ts`.

  A record is one line of canonical JSON.  A file holds a record exactly when its octets
  are the encoding of one: the decoder encodes what it has read and compares.
-/
import Mathlib
import PiRlm.Core.Ids
import PiRlm.Shell.EventRecord

namespace PiRlm.Runtime

open PiRlm.Lib PiRlm.Core PiRlm.Shell

def maxArbitrationRecordBytes : Nat := 4096
def maxArbitrationOrdinal : Nat := 1024
def maxArbitrationOrphans : Nat := 1024
def maxArbitrationEntries : Nat := maxArbitrationOrdinal * 4 + maxArbitrationOrphans

-- ============================================================================
-- Records
-- ============================================================================

inductive ArbitrationRole where
  | writer | retention | retirement
  deriving Repr, DecidableEq

def ArbitrationRole.text : ArbitrationRole → JsString
  | .writer => js "writer"
  | .retention => js "retention"
  | .retirement => js "retirement"

structure ArbitrationIdentity where
  rootDev : Nat
  rootIno : Nat
  runDev : Nat
  runIno : Nat
  deriving Repr, DecidableEq

structure GenerationRecord extends ArbitrationIdentity where
  token : JsString
  predecessor : Option JsString
  ordinal : Nat
  role : ArbitrationRole
  runName : JsString
  pid : Nat
  processNonce : JsString
  osProcessIdentity : Option JsString
  createdAtMs : Nat
  deriving Repr, DecidableEq

structure ReleaseRecord extends ArbitrationIdentity where
  token : JsString
  generation : JsString
  processNonce : JsString
  releasedAtMs : Nat
  deriving Repr, DecidableEq

inductive WriterProtocolErrorCode where
  | record | corrupt | limit
  deriving Repr, DecidableEq

structure WriterProtocolError where
  code : WriterProtocolErrorCode
  message : JsString
  deriving Repr, DecidableEq

-- ============================================================================
-- Checks
-- ============================================================================

variable (N : Type) [JsonNumber N]

/-- `recordError(message)`, unless a check has passed. -/
def require (passed : Bool) (message : JsString) : Except WriterProtocolError Unit :=
  if passed then .ok () else .error ⟨.record, message⟩

def isRunName (s : JsString) : Bool :=
  (js "run-").isPrefixOf s && decide ((s.drop 4).length = 32) && (s.drop 4).all Sha256.isHexUnit

def isDecimal (s : JsString) : Bool :=
  s == [0x30] || isOrdinal s

/-- `/^[A-Za-z0-9._:-]{1,128}$/`. -/
def isOsIdentity (s : JsString) : Bool :=
  decide (0 < s.length) && decide (s.length ≤ 128) && s.all fun u =>
    isDigit u || (decide (0x41 ≤ u.val) && decide (u.val ≤ 0x5A)) ||
      (decide (0x61 ≤ u.val) && decide (u.val ≤ 0x7A)) || u == 0x2E || u == 0x5F || u == 0x3A ||
      u == 0x2D

variable {N}

def stringField (value : Option (Json N)) (pattern : JsString → Bool) (label : JsString) :
    Except WriterProtocolError JsString :=
  match value with
  | some (.str s) => (require (pattern s) (label ++ js " is invalid")).map fun _ => s
  | _ => .error ⟨.record, label ++ js " is invalid"⟩

/-- A string, or `null` for none. -/
def nullableField (value : Option (Json N)) (pattern : JsString → Bool) (label : JsString) :
    Except WriterProtocolError (Option JsString) :=
  match value with
  | some .null => .ok none
  | value => (stringField value pattern label).map some

def safeInteger (value : Option (Json N)) (label : JsString) (minimum : Nat) :
    Except WriterProtocolError Nat :=
  match value with
  | some (.num n) =>
    (require (isSafeInteger n && decide ((minimum : ℚ) ≤ JsonNumber.value n))
      (label ++ js " is invalid")).map fun _ => (JsonNumber.value n).num.toNat
  | _ => .error ⟨.record, label ++ js " is invalid"⟩

def decimalField (value : Option (Json N)) (label : JsString) : Except WriterProtocolError Nat :=
  (stringField value isDecimal label).bind fun encoded =>
  (require (decimal (digitsValue encoded) == encoded)
    (label ++ js " is not canonical decimal")).map fun _ => digitsValue encoded

def roleField : Option (Json N) → Except WriterProtocolError ArbitrationRole
  | some (.str s) =>
    if s = js "writer" then .ok .writer
    else if s = js "retention" then .ok .retention
    else if s = js "retirement" then .ok .retirement
    else .error ⟨.record, js "generation role is invalid"⟩
  | _ => .error ⟨.record, js "generation role is invalid"⟩

/-- What `validateGeneration` takes: the fields that a caller has not checked are values of
    any kind. -/
structure GenerationFields (N : Type) extends ArbitrationIdentity where
  schemaVersion : Option (Json N)
  type : Option (Json N)
  token : JsString
  predecessor : Option JsString
  ordinal : Nat
  role : Option (Json N)
  runName : Option (Json N)
  pid : Option (Json N)
  processNonce : Option (Json N)
  osProcessIdentity : Option (Json N)
  createdAtMs : Option (Json N)

/-- `value === 1` for a schema version. -/
def isVersionOne : Option (Json N) → Bool
  | some (.num n) => decide (JsonNumber.value n = 1)
  | _ => false

omit [JsonNumber N] in
def isText (text : JsString) : Option (Json N) → Bool
  | some (.str s) => s == text
  | _ => false

def validateGeneration (record : GenerationFields N) :
    Except WriterProtocolError GenerationRecord := do
  require (isVersionOne record.schemaVersion && isText (js "generation") record.type)
    (js "generation discriminator is invalid")
  require (isHash record.token) (js "generation token is invalid")
  require (record.predecessor.all isHash) (js "generation predecessor is invalid")
  require (decide (1 ≤ record.ordinal) && decide (record.ordinal ≤ maxSafeInteger))
    (js "generation ordinal is invalid")
  require (decide (record.ordinal ≤ maxArbitrationOrdinal))
    (js "generation ordinal exceeds the protocol limit")
  require (decide (record.ordinal = 1) == record.predecessor.isNone)
    (js "generation predecessor does not match ordinal")
  let role ← roleField record.role
  require (decide (record.ordinal = maxArbitrationOrdinal) == decide (role = .retirement))
    (js "only the final ordinal is retirement and it is reserved for retirement")
  let runName ← stringField record.runName isRunName (js "generation runName")
  let pid ← safeInteger record.pid (js "generation pid") 1
  require (decide (pid ≤ 0x7fffffff)) (js "generation pid is invalid")
  let processNonce ← stringField record.processNonce isHash (js "generation processNonce")
  let osProcessIdentity ←
    nullableField record.osProcessIdentity isOsIdentity (js "generation osProcessIdentity")
  let createdAtMs ← safeInteger record.createdAtMs (js "generation createdAtMs") 0
  pure
    { toArbitrationIdentity := record.toArbitrationIdentity
      token := record.token
      predecessor := record.predecessor
      ordinal := record.ordinal
      role, runName, pid, processNonce, osProcessIdentity, createdAtMs }

/-- What `validateRelease` takes. -/
structure ReleaseFields (N : Type) extends ArbitrationIdentity where
  schemaVersion : Option (Json N)
  type : Option (Json N)
  token : JsString
  generation : JsString
  processNonce : JsString
  releasedAtMs : Nat

def validateRelease (record : ReleaseFields N) : Except WriterProtocolError ReleaseRecord := do
  require (isVersionOne record.schemaVersion && isText (js "release") record.type)
    (js "release discriminator is invalid")
  require (isHash record.token) (js "release token is invalid")
  require (isHash record.generation) (js "release generation is invalid")
  require (isHash record.processNonce) (js "release processNonce is invalid")
  require (decide (record.releasedAtMs ≤ maxSafeInteger)) (js "release releasedAtMs is invalid")
  pure
    { toArbitrationIdentity := record.toArbitrationIdentity
      token := record.token
      generation := record.generation
      processNonce := record.processNonce
      releasedAtMs := record.releasedAtMs }

-- ============================================================================
-- The wire form
-- ============================================================================

variable (N)

def number (n : Nat) : Json N := .num (JsonNumber.ofNat n)

variable {N}

omit [JsonNumber N] in
def nullable : Option JsString → Json N
  | none => .null
  | some s => .str s

def generationWire (record : GenerationRecord) : List (JsString × Json N) :=
  [(js "schemaVersion", number N 1), (js "type", .str (js "generation")),
    (js "token", .str record.token), (js "predecessor", nullable record.predecessor),
    (js "ordinal", number N record.ordinal), (js "role", .str record.role.text),
    (js "rootDev", .str (decimal record.rootDev)), (js "rootIno", .str (decimal record.rootIno)),
    (js "runDev", .str (decimal record.runDev)), (js "runIno", .str (decimal record.runIno)),
    (js "runName", .str record.runName), (js "pid", number N record.pid),
    (js "processNonce", .str record.processNonce),
    (js "osProcessIdentity", nullable record.osProcessIdentity),
    (js "createdAtMs", number N record.createdAtMs)]

def releaseWire (record : ReleaseRecord) : List (JsString × Json N) :=
  [(js "schemaVersion", number N 1), (js "type", .str (js "release")),
    (js "token", .str record.token), (js "generation", .str record.generation),
    (js "processNonce", .str record.processNonce),
    (js "rootDev", .str (decimal record.rootDev)), (js "rootIno", .str (decimal record.rootIno)),
    (js "runDev", .str (decimal record.runDev)), (js "runIno", .str (decimal record.runIno)),
    (js "releasedAtMs", number N record.releasedAtMs)]

/-- A number as a check of safe integers takes it: none beyond them passes. -/
def checkedNumber (n : Nat) : Option (Json N) :=
  if n ≤ maxSafeInteger then some (number N n) else none

/-- A typed record, as `validateGeneration` reads it. -/
def GenerationRecord.fields (record : GenerationRecord) : GenerationFields N where
  toArbitrationIdentity := record.toArbitrationIdentity
  schemaVersion := some (number N 1)
  type := some (.str (js "generation"))
  token := record.token
  predecessor := record.predecessor
  ordinal := record.ordinal
  role := some (.str record.role.text)
  runName := some (.str record.runName)
  pid := checkedNumber record.pid
  processNonce := some (.str record.processNonce)
  osProcessIdentity := some (nullable record.osProcessIdentity)
  createdAtMs := checkedNumber record.createdAtMs

def ReleaseRecord.fields (record : ReleaseRecord) : ReleaseFields N where
  toArbitrationIdentity := record.toArbitrationIdentity
  schemaVersion := some (number N 1)
  type := some (.str (js "release"))
  token := record.token
  generation := record.generation
  processNonce := record.processNonce
  releasedAtMs := record.releasedAtMs

/-- `bytes(value)`: one line of JSON, if it is not too long. -/
def recordBytes (wire : List (JsString × Json N)) : Except WriterProtocolError (List Byte) :=
  (require (decide ((utf8 ((Json.obj wire).render ++ [0x0A])).length ≤ maxArbitrationRecordBytes))
    (js "record exceeds the byte limit")).map fun _ => utf8 ((Json.obj wire).render ++ [0x0A])

variable (N)

def encodeGenerationRecord (record : GenerationRecord) :
    Except WriterProtocolError (List Byte) :=
  (validateGeneration (N := N) record.fields).bind fun _ => recordBytes (N := N) (generationWire record)

def encodeReleaseRecord (record : ReleaseRecord) : Except WriterProtocolError (List Byte) :=
  (validateRelease (N := N) record.fields).bind fun _ => recordBytes (N := N) (releaseWire record)

def withoutMark : JsString → JsString
  | [] => []
  | u :: text => if u = 0xFEFF then text else u :: text

/-- `new TextDecoder("utf-8", { fatal: true })`, which drops a byte order mark. -/
def textDecode (input : List Byte) : Option JsString :=
  (utf8DecodeFatal input).map withoutMark

def generationKeys : List JsString :=
  [js "schemaVersion", js "type", js "token", js "predecessor", js "ordinal", js "role",
    js "rootDev", js "rootIno", js "runDev", js "runIno", js "runName", js "pid",
    js "processNonce", js "osProcessIdentity", js "createdAtMs"]

def releaseKeys : List JsString :=
  [js "schemaVersion", js "type", js "token", js "generation", js "processNonce", js "rootDev",
    js "rootIno", js "runDev", js "runIno", js "releasedAtMs"]

variable {N} in
omit [JsonNumber N] in
/-- `exactKeys` of a parsed value. -/
def exactKeys (value : Json N) (keys : List JsString) (label : JsString) :
    Except WriterProtocolError (RecordValue N) :=
  match value with
  | .obj fields =>
    (require (decide (fields.length = keys.length) && fields.all fun field => field.1 ∈ keys)
      (label ++ js " fields are not exact")).map fun _ => fields
  | _ => .error ⟨.record, label ++ js " must be an object"⟩

/-- One JSON text with one trailing newline. -/
def parseWire (input : List Byte) (keys : List JsString) (label : JsString) :
    Except WriterProtocolError (RecordValue N) :=
  if input.length = 0 ∨ maxArbitrationRecordBytes < input.length then
    .error ⟨.record, label ++ js " byte length is invalid"⟩
  else
    match textDecode input with
    | none => .error ⟨.record, label ++ js " is not UTF-8"⟩
    | some text =>
      if [0x0A] <:+ text ∧ ¬[0x0A, 0x0A] <:+ text then
        match parseJson (N := N) text with
        | none => .error ⟨.record, label ++ js " is not JSON"⟩
        | some value => exactKeys value.val keys label
      else .error ⟨.record, label ++ js " must have one trailing newline"⟩

def decodeGenerationRecord (input : List Byte) : Except WriterProtocolError GenerationRecord := do
  let value ← parseWire N input generationKeys (js "generation")
  let token ← stringField (get value (js "token")) isHash (js "generation token")
  let predecessor ←
    nullableField (get value (js "predecessor")) isHash (js "generation predecessor")
  let ordinal ← safeInteger (get value (js "ordinal")) (js "generation ordinal") 1
  let rootDev ← decimalField (get value (js "rootDev")) (js "generation rootDev")
  let rootIno ← decimalField (get value (js "rootIno")) (js "generation rootIno")
  let runDev ← decimalField (get value (js "runDev")) (js "generation runDev")
  let runIno ← decimalField (get value (js "runIno")) (js "generation runIno")
  let record ← validateGeneration (N := N)
    { rootDev, rootIno, runDev, runIno, token, predecessor, ordinal
      schemaVersion := get value (js "schemaVersion")
      type := get value (js "type")
      role := get value (js "role")
      runName := get value (js "runName")
      pid := get value (js "pid")
      processNonce := get value (js "processNonce")
      osProcessIdentity := get value (js "osProcessIdentity")
      createdAtMs := get value (js "createdAtMs") }
  let encoded ← encodeGenerationRecord N record
  require (decide (encoded = input)) (js "generation is not canonical")
  pure record

def decodeReleaseRecord (input : List Byte) : Except WriterProtocolError ReleaseRecord := do
  let value ← parseWire N input releaseKeys (js "release")
  let token ← stringField (get value (js "token")) isHash (js "release token")
  let generation ← stringField (get value (js "generation")) isHash (js "release generation")
  let processNonce ← stringField (get value (js "processNonce")) isHash (js "release processNonce")
  let rootDev ← decimalField (get value (js "rootDev")) (js "release rootDev")
  let rootIno ← decimalField (get value (js "rootIno")) (js "release rootIno")
  let runDev ← decimalField (get value (js "runDev")) (js "release runDev")
  let runIno ← decimalField (get value (js "runIno")) (js "release runIno")
  let releasedAtMs ← safeInteger (get value (js "releasedAtMs")) (js "release releasedAtMs") 0
  let record ← validateRelease (N := N)
    { rootDev, rootIno, runDev, runIno, token, generation, processNonce, releasedAtMs
      schemaVersion := get value (js "schemaVersion")
      type := get value (js "type") }
  let encoded ← encodeReleaseRecord N record
  require (decide (encoded = input)) (js "release is not canonical")
  pure record

-- ============================================================================
-- File names
-- ============================================================================

def generationIntentFilename (token : JsString) : JsString := js "gen-" ++ token ++ js ".json"
def releaseIntentFilename (token : JsString) : JsString := js "rel-" ++ token ++ js ".json"

def successorSlotFilename : Option JsString → JsString
  | none => js "next-root.claim"
  | some predecessor => js "next-" ++ predecessor ++ js ".claim"

def releaseSlotFilename (generation : JsString) : JsString :=
  js "released-" ++ generation ++ js ".claim"

end PiRlm.Runtime

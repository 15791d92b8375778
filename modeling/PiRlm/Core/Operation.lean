/-
  PiRlm.Core.Operation

  Identity of write-ahead external operations (`core/operation.ts`), at the level of
  JSON data: the identity is hashed through its canonical text.
-/
import Mathlib
import PiRlm.Core.Json
import PiRlm.Lib.Sha256

namespace PiRlm.Core

open PiRlm.Lib PiRlm.Lib.Json

/-- A text digest supplied to the pure core. -/
abbrev Hasher := JsString → JsString

def operationJournalSchemaVersion : Nat := 2

def providerRequestIdentityVersion : JsString := js "pi-rlm.provider-request.v1"

def agentRequestIdentityVersion : JsString := js "pi-rlm.agent-request.v1"

def externalExtractorRequestIdentityVersion : JsString :=
  js "pi-rlm.external-extractor-request.v1"

/-- `/^[0-9a-f]{64}$/`. -/
def isHash (s : JsString) : Bool :=
  s.length == 64 && s.all Sha256.isHexUnit

/-- `prefix` followed by a hash, and nothing else. -/
def isPrefixedHash (start : JsString) (s : JsString) : Bool :=
  start.isPrefixOf s && isHash (s.drop start.length)

variable {N : Type} [JsonNumber N]

/-- The object literal built to identify an intent. -/
structure OperationIntentIdentity (N : Type) where
  runId : JsString
  frameId : JsString
  operationId : JsString
  kind : JsString
  key : JsString
  attempt : Json N
  requestIdentityVersion : JsString
  requestSha256 : JsString
  reservation : Json N

def OperationIntentIdentity.toJson (identity : OperationIntentIdentity N) : Json N :=
  .obj [(js "schemaVersion", .num (JsonNumber.ofNat operationJournalSchemaVersion)),
    (js "runId", .str identity.runId),
    (js "frameId", .str identity.frameId),
    (js "operationId", .str identity.operationId),
    (js "kind", .str identity.kind),
    (js "key", .str identity.key),
    (js "attempt", identity.attempt),
    (js "requestIdentityVersion", .str identity.requestIdentityVersion),
    (js "requestSha256", .str identity.requestSha256),
    (js "reservation", identity.reservation)]

/-- The digest of a text, which must be a lower-case SHA-256. -/
def digest (hasher : Hasher) (input : JsString) : Except JsString JsString :=
  if isHash (hasher input) then .ok (hasher input)
  else .error (js "operation intent hasher must return lowercase SHA-256")

/-- Identity binds scope, logical operation, exact request hash, attempt, and reservation. -/
def deriveOperationIntentId (hasher : Hasher) (identity : OperationIntentIdentity N) :
    Except JsString JsString :=
  (canonicalStringify identity.toJson).bind fun text =>
    (digest hasher text).map fun d => js "op_" ++ d

def operationRequestVersionAllowed (kind version : JsString) : Bool :=
  if kind = js "agent" then version == agentRequestIdentityVersion
  else if kind = js "extractor" then
    version == providerRequestIdentityVersion || version == externalExtractorRequestIdentityVersion
  else version == providerRequestIdentityVersion

/-- The canonical form of an identity depends on that of its data only. -/
theorem canonical_identity (identity : OperationIntentIdentity N)
    {attempt reservation : Json N} (ha : canonical attempt = canonical identity.attempt)
    (hr : canonical reservation = canonical identity.reservation) :
    canonical ({ identity with attempt, reservation } : OperationIntentIdentity N).toJson =
      canonical identity.toJson := by
  apply canonical_obj_congr
  simp only [canonicalFields, ha, hr]

omit [JsonNumber N] in
theorem isHash_hexDigest (message : List Byte) : isHash (Sha256.hexDigest message) = true := by
  rw [isHash, Sha256.hexDigest_length, Sha256.hexDigest_all]
  rfl

end PiRlm.Core

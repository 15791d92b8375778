/-
  PiRlm.Lib.Hmac

  The keyed hash of `createHmac("sha256", key)`, over `PiRlm.Lib.Sha256`.
-/
import Mathlib
import PiRlm.Lib.Sha256

namespace PiRlm.Lib.Sha256

def digestWords (s : State) : List Nat := [s.a, s.b, s.c, s.d, s.e, s.f, s.g, s.h]

/-- The digest as 32 octets. -/
def digest (message : List Byte) : List Byte :=
  (digestWords (hash message)).flatMap fun word => (beBytes 4 word).map (Fin.ofNat 256)

/-- The key as one block. -/
def blockKey (key : List Byte) : List Byte :=
  let short := if 64 < key.length then digest key else key
  short ++ List.replicate (64 - short.length) 0

def maskedKey (key : List Byte) (mask : Nat) : List Byte :=
  (blockKey key).map fun b => Fin.ofNat 256 (b.val ^^^ mask)

/-- `createHmac("sha256", key).update(message).digest("hex")`. -/
def hmac (key message : List Byte) : JsString :=
  hexDigest (maskedKey key 0x5C ++ digest (maskedKey key 0x36 ++ message))

/-- The keyed hash of a short message. -/
example : hmac (utf8 (js "key")) (utf8 (js "abc")) =
    js "9c196e32dc0175f86f4b1cb89289d6619de6bee699e4c378e68309ed97a1a6ab" := by
  decide +kernel

end PiRlm.Lib.Sha256

/-
  PiRlm.Shell.Hash

  The concrete hasher of `shell/hash.ts`.
-/
import Mathlib
import PiRlm.Core.Operation

namespace PiRlm.Shell

open PiRlm.Lib PiRlm.Core

/-- Lower-case hexadecimal SHA-256 of the UTF-8 octets of a text. -/
def sha256 : Hasher := fun input => Sha256.hexDigest (utf8 input)

/-- `sha256Bytes`: the same for octets. -/
def sha256Bytes (input : List Byte) : JsString := Sha256.hexDigest input

theorem isHash_sha256 (input : JsString) : isHash (sha256 input) = true :=
  isHash_hexDigest (utf8 input)

end PiRlm.Shell

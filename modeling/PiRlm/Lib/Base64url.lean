/-
  PiRlm.Lib.Base64url

  `Buffer.from(s, "base64url")` and `buffer.toString("base64url")`.

  Four units carry three octets; a text that ends after two or three units of a group
  carries one or two octets more.  A single unit at the end is dropped.
-/
import Mathlib
import PiRlm.Lib.Utf16

namespace PiRlm.Lib.Base64url

/-- The unit of six bits. -/
def unit (n : Nat) : CodeUnit :=
  if n < 26 then Fin.ofNat 65536 (0x41 + n)
  else if n < 52 then Fin.ofNat 65536 (0x61 + (n - 26))
  else if n < 62 then Fin.ofNat 65536 (0x30 + (n - 52))
  else if n = 62 then 0x2D
  else 0x5F

/-- The six bits of a unit. -/
def sextet (u : CodeUnit) : Nat :=
  if 0x41 ≤ u.val ∧ u.val ≤ 0x5A then u.val - 0x41
  else if 0x61 ≤ u.val ∧ u.val ≤ 0x7A then u.val - 0x61 + 26
  else if 0x30 ≤ u.val ∧ u.val ≤ 0x39 then u.val - 0x30 + 52
  else if u.val = 0x2D then 62
  else 63

/-- `[A-Za-z0-9_-]`. -/
def isUnit (u : CodeUnit) : Bool :=
  (decide (0x41 ≤ u.val) && decide (u.val ≤ 0x5A)) ||
    (decide (0x61 ≤ u.val) && decide (u.val ≤ 0x7A)) ||
    (decide (0x30 ≤ u.val) && decide (u.val ≤ 0x39)) || u == 0x5F || u == 0x2D

def encode : List Byte → JsString
  | a :: b :: c :: rest =>
    unit (a.val / 4) :: unit (a.val % 4 * 16 + b.val / 16) ::
      unit (b.val % 16 * 4 + c.val / 64) :: unit (c.val % 64) :: encode rest
  | [a, b] =>
    [unit (a.val / 4), unit (a.val % 4 * 16 + b.val / 16), unit (b.val % 16 * 4)]
  | [a] => [unit (a.val / 4), unit (a.val % 4 * 16)]
  | [] => []

def decode : JsString → List Byte
  | w :: x :: y :: z :: rest =>
    Fin.ofNat 256 (sextet w * 4 + sextet x / 16) ::
      Fin.ofNat 256 (sextet x % 16 * 16 + sextet y / 4) ::
      Fin.ofNat 256 (sextet y % 4 * 64 + sextet z) :: decode rest
  | [w, x, y] =>
    [Fin.ofNat 256 (sextet w * 4 + sextet x / 16),
      Fin.ofNat 256 (sextet x % 16 * 16 + sextet y / 4)]
  | [w, x] => [Fin.ofNat 256 (sextet w * 4 + sextet x / 16)]
  | _ => []

theorem sextet_unit {n : Nat} (h : n < 64) : sextet (unit n) = n := by
  interval_cases n <;> decide

theorem isUnit_unit {n : Nat} (h : n < 64) : isUnit (unit n) = true := by
  interval_cases n <;> decide

/-- The octets of a group, from the sextets that carry them. -/
theorem group_octets (a b c : Byte) :
    Fin.ofNat 256 (a.val / 4 * 4 + (a.val % 4 * 16 + b.val / 16) / 16) = a ∧
    Fin.ofNat 256 ((a.val % 4 * 16 + b.val / 16) % 16 * 16 +
      (b.val % 16 * 4 + c.val / 64) / 4) = b ∧
    Fin.ofNat 256 ((b.val % 16 * 4 + c.val / 64) % 4 * 64 + c.val % 64) = c := by
  have ha := a.isLt
  have hb := b.isLt
  have hc := c.isLt
  refine ⟨Fin.ext ?_, Fin.ext ?_, Fin.ext ?_⟩
  · show (a.val / 4 * 4 + (a.val % 4 * 16 + b.val / 16) / 16) % 256 = a.val
    omega
  · show ((a.val % 4 * 16 + b.val / 16) % 16 * 16 + (b.val % 16 * 4 + c.val / 64) / 4) % 256 =
      b.val
    omega
  · show ((b.val % 16 * 4 + c.val / 64) % 4 * 64 + c.val % 64) % 256 = c.val
    omega

theorem decode_encode (octets : List Byte) : decode (encode octets) = octets := by
  induction octets using encode.induct with
  | case1 a b c rest ih =>
    obtain ⟨ha, hb, hc⟩ := group_octets a b c
    have := a.isLt
    have := b.isLt
    have := c.isLt
    rw [encode, decode, ih, sextet_unit (by omega), sextet_unit (by omega), sextet_unit (by omega),
      sextet_unit (by omega), ha, hb, hc]
  | case2 a b =>
    obtain ⟨ha, hb, -⟩ := group_octets a b 0
    have := a.isLt
    have := b.isLt
    simp only [Fin.val_zero, Nat.zero_div, Nat.add_zero] at hb
    rw [encode, decode, sextet_unit (by omega), sextet_unit (by omega), sextet_unit (by omega), ha,
      hb]
  | case3 a =>
    obtain ⟨ha, -, -⟩ := group_octets a 0 0
    have := a.isLt
    simp only [Fin.val_zero, Nat.zero_div, Nat.add_zero] at ha
    rw [encode, decode, sextet_unit (by omega), sextet_unit (by omega), ha]
  | case4 => rfl

theorem encode_units (octets : List Byte) : ∀ u ∈ encode octets, isUnit u = true := by
  induction octets using encode.induct with
  | case1 a b c rest ih =>
    have := a.isLt
    have := b.isLt
    have := c.isLt
    rw [encode]
    simp only [List.forall_mem_cons]
    exact ⟨isUnit_unit (by omega), isUnit_unit (by omega), isUnit_unit (by omega),
      isUnit_unit (by omega), ih⟩
  | case2 a b =>
    have := a.isLt
    have := b.isLt
    rw [encode]
    simp only [List.forall_mem_cons]
    exact ⟨isUnit_unit (by omega), isUnit_unit (by omega), isUnit_unit (by omega), nofun⟩
  | case3 a =>
    have := a.isLt
    rw [encode]
    simp only [List.forall_mem_cons]
    exact ⟨isUnit_unit (by omega), isUnit_unit (by omega), nofun⟩
  | case4 => exact nofun

theorem encode_ne_nil {octets : List Byte} (h : octets ≠ []) : encode octets ≠ [] := by
  intro hnil
  have hdecode := decode_encode octets
  rw [hnil] at hdecode
  exact h hdecode.symm

theorem length_encode_le (octets : List Byte) : 3 * (encode octets).length ≤ 4 * octets.length + 2 := by
  induction octets using encode.induct with
  | case1 a b c rest ih =>
    rw [encode]
    simp only [List.length_cons]
    omega
  | case2 a b => exact (by decide : 9 ≤ 10)
  | case3 a => exact Nat.le_refl 6
  | case4 => exact Nat.zero_le 2

end PiRlm.Lib.Base64url

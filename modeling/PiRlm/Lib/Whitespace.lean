/-
  PiRlm.Lib.Whitespace

  White space of the language, and `String.prototype.trim`.
-/
import PiRlm.Lib.Utf16

namespace PiRlm.Lib

/-- White space and line terminators. -/
def isWhiteSpace (u : CodeUnit) : Bool :=
  decide (0x09 ≤ u.val ∧ u.val ≤ 0x0D) || u == 0x20 || u == 0xA0 || u == 0x1680 ||
    decide (0x2000 ≤ u.val ∧ u.val ≤ 0x200A) || u == 0x2028 || u == 0x2029 || u == 0x202F ||
    u == 0x205F || u == 0x3000 || u == 0xFEFF

/-- `trim`. -/
def trimWhiteSpace (s : JsString) : JsString :=
  (s.dropWhile isWhiteSpace).rdropWhile isWhiteSpace

/-- A text without white space is left alone. -/
theorem trimWhiteSpace_eq_self {s : JsString} (h : ∀ u ∈ s, isWhiteSpace u = false) :
    trimWhiteSpace s = s := by
  have hfront : s.dropWhile isWhiteSpace = s := by
    rw [List.dropWhile_eq_self_iff]
    intro hlength
    simp [h _ (List.getElem_mem hlength)]
  have hback : s.rdropWhile isWhiteSpace = s := by
    rw [List.rdropWhile_eq_self_iff]
    intro hne
    simp [h _ (List.getLast_mem hne)]
  rw [trimWhiteSpace, hfront, hback]

theorem trimWhiteSpace_trimWhiteSpace (s : JsString) :
    trimWhiteSpace (trimWhiteSpace s) = trimWhiteSpace s := by
  have hfront : (trimWhiteSpace s).dropWhile isWhiteSpace = trimWhiteSpace s := by
    rw [List.dropWhile_eq_self_iff]
    intro hlength
    have hstart : trimWhiteSpace s <+: s.dropWhile isWhiteSpace := List.rdropWhile_prefix _ _
    -- what is left of the end starts where the whole does
    rw [hstart.getElem hlength]
    exact List.dropWhile_get_zero_not _ s (hlength.trans_le hstart.length_le)
  rw [trimWhiteSpace, hfront, trimWhiteSpace, List.rdropWhile_idempotent]

end PiRlm.Lib

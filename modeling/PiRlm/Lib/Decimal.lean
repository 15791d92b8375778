/-
  PiRlm.Lib.Decimal

  Decimal text of natural numbers, and the integers as a number format.
-/
import Mathlib
import PiRlm.Lib.JsonObject

namespace PiRlm.Lib

/-- Code unit of a decimal digit. -/
def digitUnit (d : Nat) : CodeUnit :=
  Fin.ofNat 65536 (0x30 + d)

/-- Decimal text of a natural number. -/
def decimal (n : Nat) : JsString :=
  if n = 0 then [0x30] else (Nat.digits 10 n).reverse.map digitUnit

theorem digitUnit_isDigit {d : Nat} (h : d < 10) :
    isDigit (digitUnit d) = true ∧ (digitUnit d).val - 0x30 = d := by
  interval_cases d <;> decide

theorem decimal_isDigit (n : Nat) : ∀ u ∈ decimal n, isDigit u = true := by
  unfold decimal
  split_ifs with h
  · intro u hu
    rw [List.mem_singleton.mp hu]
    decide
  · intro u hu
    obtain ⟨d, hd, rfl⟩ := List.mem_map.mp hu
    exact (digitUnit_isDigit (Nat.digits_lt_base (by decide) (List.mem_reverse.mp hd))).1

theorem digitsValue_reverse {ds : List Nat} (h : ∀ d ∈ ds, d < 10) :
    digitsValue (ds.reverse.map digitUnit) = Nat.ofDigits 10 ds := by
  induction ds with
  | nil => rfl
  | cons d ds ih =>
    rw [List.forall_mem_cons] at h
    have hd := (digitUnit_isDigit h.1).2
    have ih' := ih h.2
    unfold digitsValue at ih' ⊢
    rw [List.reverse_cons, List.map_append, List.foldl_append, ih', Nat.ofDigits_cons]
    simp only [List.map_cons, List.map_nil, List.foldl_cons, List.foldl_nil, hd]
    omega

/-- Reading the decimal text of a number gives the number. -/
theorem digitsValue_decimal (n : Nat) : digitsValue (decimal n) = n := by
  unfold decimal
  split_ifs with h
  · subst h
    rfl
  · rw [digitsValue_reverse fun d hd => Nat.digits_lt_base (by decide) hd,
      Nat.ofDigits_digits]

/-- A decimal text is a lone zero or starts with another digit. -/
theorem decimal_cons (n : Nat) :
    ∃ u rest, decimal n = u :: rest ∧ (u = 0x30 → rest = []) := by
  unfold decimal
  split_ifs with h
  · exact ⟨_, _, rfl, fun _ => rfl⟩
  · have hne : Nat.digits 10 n ≠ [] := Nat.digits_ne_nil_iff_ne_zero.mpr h
    have hlast := Nat.getLast_digit_ne_zero 10 h
    have hlt : (Nat.digits 10 n).getLast hne < 10 :=
      Nat.digits_lt_base (by decide) (List.getLast_mem hne)
    refine ⟨digitUnit ((Nat.digits 10 n).getLast hne),
      (Nat.digits 10 n).dropLast.reverse.map digitUnit, ?_, ?_⟩
    · conv_lhs => rw [← List.dropLast_append_getLast hne]
      rw [List.reverse_append]
      rfl
    · intro hzero
      exact absurd hzero (by interval_cases (Nat.digits 10 n).getLast hne <;> first | omega | decide)

theorem digitUnit_val {u : CodeUnit} (h : isDigit u = true) :
    u.val - 0x30 < 10 ∧ digitUnit (u.val - 0x30) = u := by
  simp only [isDigit, decide_eq_true_eq] at h
  refine ⟨by omega, ?_⟩
  apply Fin.ext
  show (0x30 + (u.val - 0x30)) % 65536 = u.val
  omega

/-- A text of digits that does not start with a zero is the decimal of the number it denotes. -/
theorem decimal_digitsValue {u : CodeUnit} {rest : JsString} (hzero : u ≠ 0x30)
    (h : ∀ v ∈ u :: rest, isDigit v = true) : decimal (digitsValue (u :: rest)) = u :: rest := by
  let ds := (u :: rest).reverse.map fun v => v.val - 0x30
  have hdigits : ∀ d ∈ ds, d < 10 := by
    intro d hd
    obtain ⟨v, hv, rfl⟩ := List.mem_map.mp hd
    exact (digitUnit_val (h v (List.mem_reverse.mp hv))).1
  have htext : ds.reverse.map digitUnit = u :: rest := by
    rw [← List.map_reverse, List.reverse_reverse, List.map_map]
    calc (u :: rest).map (digitUnit ∘ fun v => v.val - 0x30)
        = (u :: rest).map id := List.map_congr_left fun v hv => (digitUnit_val (h v hv)).2
      _ = u :: rest := List.map_id _
  have hlast : ∀ hne : ds ≠ [], ds.getLast hne ≠ 0 := by
    intro hne hlast
    have hends : ds = rest.reverse.map (fun v => v.val - 0x30) ++ [u.val - 0x30] := by
      show (u :: rest).reverse.map _ = _
      rw [List.reverse_cons, List.map_append]
      rfl
    have hfirst : u.val - 0x30 = 0 := by
      rw [← hlast, List.getLast_congr hne (by simp) hends, List.getLast_append_singleton]
    have hunit := (digitUnit_val (h u List.mem_cons_self)).2
    rw [hfirst] at hunit
    exact hzero hunit.symm
  have hvalue : digitsValue (u :: rest) = Nat.ofDigits 10 ds := by
    rw [← htext]
    exact digitsValue_reverse hdigits
  have hback : Nat.digits 10 (digitsValue (u :: rest)) = ds := by
    rw [hvalue]
    exact Nat.digits_ofDigits 10 (by decide) ds hdigits hlast
  have hne : digitsValue (u :: rest) ≠ 0 := by
    intro hnil
    rw [hnil, Nat.digits_zero] at hback
    rw [← hback] at htext
    exact absurd htext nofun
  rw [decimal, if_neg hne, hback, htext]

theorem decimal_isNumberLiteral (n : Nat) :
    scanNumber (decimal n) = some (decimal n, []) := by
  obtain ⟨u, rest, hcons, hzero⟩ := decimal_cons n
  have hdigits := decimal_isDigit n
  rw [hcons] at hdigits ⊢
  rw [List.forall_mem_cons] at hdigits
  have htake : rest.takeWhile isDigit = rest := List.takeWhile_eq_self_iff.mpr hdigits.2
  have hdrop : rest.dropWhile isDigit = [] := List.dropWhile_eq_nil_iff.mpr hdigits.2
  have hminus : u ≠ 0x2D := by
    rintro rfl
    exact absurd hdigits.1 (by decide)
  unfold scanNumber
  rw [scanMinus, if_neg hminus, scanInteger]
  by_cases h0 : u = 0x30
  · rw [if_pos h0, hzero h0]
    rfl
  · rw [if_neg h0, if_pos hdigits.1, htake, hdrop]
    simp [scanFraction, scanExponent]

/-! ## Integers as numbers -/

/-- Text of an integer. -/
def intText : Int → JsString
  | .ofNat n => decimal n
  | .negSucc n => 0x2D :: decimal (n + 1)

/-- Integer part of a literal. -/
def intOfText (s : JsString) : Int :=
  if (scanMinus s).1 = [] then (digitsValue (s.takeWhile isDigit) : Int)
  else -(digitsValue ((scanMinus s).2.takeWhile isDigit) : Int)

theorem scanMinus_decimal (n : Nat) : scanMinus (decimal n) = ([], decimal n) := by
  obtain ⟨u, rest, hcons, -⟩ := decimal_cons n
  have hdigit := decimal_isDigit n u (by simp [hcons])
  have hminus : u ≠ 0x2D := by
    rintro rfl
    exact absurd hdigit (by decide)
  rw [hcons, scanMinus, if_neg hminus]

theorem takeWhile_decimal (n : Nat) : (decimal n).takeWhile isDigit = decimal n :=
  List.takeWhile_eq_self_iff.mpr (decimal_isDigit n)

/-- The integers are a number format whose literals have no fraction and no exponent. -/
instance : JsonNumber Int where
  text := intText
  ofText := intOfText
  value := fun n => (n : ℚ)
  ofNat := Int.ofNat
  value_injective := Int.cast_injective
  value_ofNat := fun _ _ => rfl
  text_isNumberLiteral := by
    intro n
    cases n with
    | ofNat n => simp [isNumberLiteral, intText, decimal_isNumberLiteral]
    | negSucc n =>
      have h := decimal_isNumberLiteral (n + 1)
      have hs := scanMinus_decimal (n + 1)
      unfold scanNumber at h
      rw [hs] at h
      have h' : scanNumber (0x2D :: decimal (n + 1)) = some (0x2D :: decimal (n + 1), []) := by
        unfold scanNumber
        obtain ⟨p, hp, heq⟩ := Option.map_eq_some_iff.mp h
        simp only [List.nil_append, Prod.mk.injEq] at heq
        simp only [scanMinus, if_true, hp, Option.map_some, List.cons_append, List.nil_append,
          heq.1, heq.2]
      simp [isNumberLiteral, intText, h']
  ofText_text := by
    intro n
    cases n with
    | ofNat n =>
      simp [intText, intOfText, scanMinus_decimal, takeWhile_decimal, digitsValue_decimal]
    | negSucc n =>
      have h : scanMinus (0x2D :: decimal (n + 1)) = ([0x2D], decimal (n + 1)) := by
        rw [scanMinus, if_pos rfl]
      simp only [intText, intOfText, h, takeWhile_decimal, digitsValue_decimal]
      rfl

end PiRlm.Lib

/-
  PiRlm.Lib.JsonText

  JSON values and their text.

  `render` writes a value the way `JSON.stringify` does, taking the members of an
  object in the order the value lists them; `parseRaw` reads a text back and keeps
  that order.  The round trip `parseRaw_render` makes `render` injective on ordered
  values.  Numbers are a parameter: any type with a literal for each value.
-/
import Mathlib
import PiRlm.Lib.Utf16

namespace PiRlm.Lib

/-! ## Number literals -/

/-- ASCII digit. -/
def isDigit (u : CodeUnit) : Bool :=
  decide (0x30 ≤ u.val ∧ u.val ≤ 0x39)

/-- Units a number literal may hold. -/
def isNumberUnit (u : CodeUnit) : Bool :=
  isDigit u || u == 0x2B || u == 0x2D || u == 0x2E || u == 0x45 || u == 0x65

/-- Optional leading minus sign. -/
def scanMinus : JsString → JsString × JsString
  | [] => ([], [])
  | u :: rest => if u = 0x2D then ([u], rest) else ([], u :: rest)

/-- Integer part: a lone zero, or digits that do not start with one. -/
def scanInteger : JsString → Option (JsString × JsString)
  | [] => none
  | u :: rest =>
    if u = 0x30 then some ([u], rest)
    else if isDigit u then some (u :: rest.takeWhile isDigit, rest.dropWhile isDigit)
    else none

/-- Optional fraction. -/
def scanFraction : JsString → JsString × JsString
  | [] => ([], [])
  | u :: rest =>
    if u = 0x2E ∧ rest.takeWhile isDigit ≠ [] then
      (u :: rest.takeWhile isDigit, rest.dropWhile isDigit)
    else ([], u :: rest)

/-- Optional sign of an exponent. -/
def scanSign : JsString → JsString × JsString
  | [] => ([], [])
  | u :: rest => if u = 0x2B ∨ u = 0x2D then ([u], rest) else ([], u :: rest)

/-- Optional exponent. -/
def scanExponent : JsString → JsString × JsString
  | [] => ([], [])
  | u :: rest =>
    if (u = 0x65 ∨ u = 0x45) ∧ (scanSign rest).2.takeWhile isDigit ≠ [] then
      (u :: (scanSign rest).1 ++ (scanSign rest).2.takeWhile isDigit,
        (scanSign rest).2.dropWhile isDigit)
    else ([], u :: rest)

/-- The number literal at the front of a text, and the rest. -/
def scanNumber (s : JsString) : Option (JsString × JsString) :=
  (scanInteger (scanMinus s).2).map fun p =>
    ((scanMinus s).1 ++ p.1 ++ (scanFraction p.2).1 ++ (scanExponent (scanFraction p.2).2).1,
      (scanExponent (scanFraction p.2).2).2)

/-- The whole text is one number literal. -/
def isNumberLiteral (s : JsString) : Bool :=
  scanNumber s == some (s, [])

/-- `Number.MAX_SAFE_INTEGER`. -/
def maxSafeInteger : Nat := 2 ^ 53 - 1

/-- A format of finite numbers: a set of rationals, each with a literal from which it is
    read back.  The two zeros of a floating-point format are one number here, as they
    are under `===` and in a text. -/
class JsonNumber (N : Type) where
  /-- The literal written for a number. -/
  text : N → JsString
  /-- The number a literal denotes. -/
  ofText : JsString → N
  /-- The number as a rational. -/
  value : N → ℚ
  /-- The number of a natural number up to the largest safe integer. -/
  ofNat : Nat → N
  value_injective : Function.Injective value
  value_ofNat : ∀ n, n ≤ maxSafeInteger → value (ofNat n) = n
  text_isNumberLiteral : ∀ n, isNumberLiteral (text n) = true
  ofText_text : ∀ n, ofText (text n) = n

/-- What may follow a number: nothing, or a unit no literal continues with. -/
def NumberStop (s : JsString) : Prop :=
  ∀ u ∈ s.head?, isNumberUnit u = false

/-! ### A literal ends where the rest cannot continue it -/

theorem NumberStop.not_digit {t : JsString} (h : NumberStop t) :
    ∀ u ∈ t.head?, isDigit u = false := by
  intro u hu
  have hn := h u hu
  simp only [isNumberUnit, Bool.or_eq_false_iff] at hn
  exact hn.1.1.1.1.1

theorem takeWhile_append_stop {p : CodeUnit → Bool} {t : JsString}
    (h : ∀ u ∈ t.head?, p u = false) (s : JsString) :
    (s ++ t).takeWhile p = s.takeWhile p := by
  induction s with
  | nil =>
    cases t with
    | nil => rfl
    | cons u t => simp [h u (by simp)]
  | cons u s ih =>
    rw [List.cons_append, List.takeWhile_cons, List.takeWhile_cons, ih]

theorem dropWhile_append_stop {p : CodeUnit → Bool} {t : JsString}
    (h : ∀ u ∈ t.head?, p u = false) (s : JsString) :
    (s ++ t).dropWhile p = s.dropWhile p ++ t := by
  induction s with
  | nil =>
    cases t with
    | nil => rfl
    | cons u t => simp [h u (by simp)]
  | cons u s ih =>
    rw [List.cons_append, List.dropWhile_cons, List.dropWhile_cons, ih]
    split_ifs <;> rfl

theorem scanMinus_append {t : JsString} (h : NumberStop t) (s : JsString) :
    scanMinus (s ++ t) = ((scanMinus s).1, (scanMinus s).2 ++ t) := by
  cases s with
  | nil =>
    cases t with
    | nil => rfl
    | cons u t =>
      have hu : u ≠ 0x2D := by
        rintro rfl
        exact absurd (h _ rfl) (by decide)
      simp [scanMinus, hu]
  | cons u s =>
    simp only [List.cons_append, scanMinus]
    split_ifs <;> rfl

theorem scanSign_append {t : JsString} (h : NumberStop t) (s : JsString) :
    scanSign (s ++ t) = ((scanSign s).1, (scanSign s).2 ++ t) := by
  cases s with
  | nil =>
    cases t with
    | nil => rfl
    | cons u t =>
      have hu : ¬ (u = 0x2B ∨ u = 0x2D) := by
        rintro (rfl | rfl) <;> exact absurd (h _ rfl) (by decide)
      simp [scanSign, hu]
  | cons u s =>
    simp only [List.cons_append, scanSign]
    split_ifs <;> rfl

theorem scanInteger_append {s t a b : JsString} (h : NumberStop t)
    (hs : scanInteger s = some (a, b)) : scanInteger (s ++ t) = some (a, b ++ t) := by
  cases s with
  | nil => cases hs
  | cons u s =>
    simp only [scanInteger, List.cons_append] at hs ⊢
    split_ifs at hs ⊢ with h0 hd
    · obtain ⟨rfl, rfl⟩ := Prod.mk.inj (Option.some.inj hs)
      rfl
    · obtain ⟨rfl, rfl⟩ := Prod.mk.inj (Option.some.inj hs)
      rw [takeWhile_append_stop h.not_digit, dropWhile_append_stop h.not_digit]

theorem scanFraction_append {t : JsString} (h : NumberStop t) (s : JsString) :
    scanFraction (s ++ t) = ((scanFraction s).1, (scanFraction s).2 ++ t) := by
  cases s with
  | nil =>
    cases t with
    | nil => rfl
    | cons u t =>
      have hu : u ≠ 0x2E := by
        rintro rfl
        exact absurd (h _ rfl) (by decide)
      simp [scanFraction, hu]
  | cons u s =>
    simp only [List.cons_append, scanFraction, takeWhile_append_stop h.not_digit,
      dropWhile_append_stop h.not_digit]
    split_ifs <;> rfl

theorem scanExponent_append {t : JsString} (h : NumberStop t) (s : JsString) :
    scanExponent (s ++ t) = ((scanExponent s).1, (scanExponent s).2 ++ t) := by
  cases s with
  | nil =>
    cases t with
    | nil => rfl
    | cons u t =>
      have hu : ¬ (u = 0x65 ∨ u = 0x45) := by
        rintro (rfl | rfl) <;> exact absurd (h _ rfl) (by decide)
      simp [scanExponent, hu]
  | cons u s =>
    simp only [List.cons_append, scanExponent, scanSign_append h,
      takeWhile_append_stop h.not_digit, dropWhile_append_stop h.not_digit]
    split_ifs <;> rfl

theorem scanNumber_append {s t a b : JsString} (h : NumberStop t)
    (hs : scanNumber s = some (a, b)) : scanNumber (s ++ t) = some (a, b ++ t) := by
  unfold scanNumber at hs ⊢
  obtain ⟨⟨i, r⟩, hi, heq⟩ := Option.map_eq_some_iff.mp hs
  obtain ⟨rfl, rfl⟩ := Prod.mk.inj heq
  rw [scanMinus_append h, scanInteger_append h hi]
  simp only [Option.map_some, scanFraction_append h, scanExponent_append h]

/-- A literal is read to its end, whatever stops it. -/
theorem scanNumber_literal {s t : JsString} (hs : isNumberLiteral s = true)
    (h : NumberStop t) : scanNumber (s ++ t) = some (s, t) := by
  have hs' : scanNumber s = some (s, []) := by simpa [isNumberLiteral] using hs
  simpa using scanNumber_append h hs'

/-! ### Units of a literal -/

theorem isNumberUnit_of_isDigit {u : CodeUnit} (h : isDigit u = true) :
    isNumberUnit u = true := by
  simp [isNumberUnit, h]

theorem takeWhile_isDigit_units (s : JsString) :
    ∀ u ∈ s.takeWhile isDigit, isNumberUnit u = true :=
  fun _ hu => isNumberUnit_of_isDigit (List.mem_takeWhile_imp hu)

theorem scanMinus_units (s : JsString) : ∀ u ∈ (scanMinus s).1, isNumberUnit u = true := by
  cases s with
  | nil => simp [scanMinus]
  | cons v s =>
    simp only [scanMinus]
    split_ifs with h
    · simp [h, isNumberUnit]
    · simp

theorem scanSign_units (s : JsString) : ∀ u ∈ (scanSign s).1, isNumberUnit u = true := by
  cases s with
  | nil => simp [scanSign]
  | cons v s =>
    simp only [scanSign]
    split_ifs with h
    · rcases h with rfl | rfl <;> simp [isNumberUnit]
    · simp

theorem scanInteger_units {s a b : JsString} (hs : scanInteger s = some (a, b)) :
    ∀ u ∈ a, isNumberUnit u = true := by
  cases s with
  | nil => cases hs
  | cons v s =>
    simp only [scanInteger] at hs
    split_ifs at hs with h0 hd
    · obtain ⟨rfl, rfl⟩ := Prod.mk.inj (Option.some.inj hs)
      simp [h0, isNumberUnit, isDigit]
    · obtain ⟨rfl, rfl⟩ := Prod.mk.inj (Option.some.inj hs)
      exact List.forall_mem_cons.mpr ⟨isNumberUnit_of_isDigit hd, takeWhile_isDigit_units s⟩

theorem scanFraction_units (s : JsString) :
    ∀ u ∈ (scanFraction s).1, isNumberUnit u = true := by
  cases s with
  | nil => simp [scanFraction]
  | cons v s =>
    simp only [scanFraction]
    split_ifs with h
    · refine List.forall_mem_cons.mpr ⟨?_, takeWhile_isDigit_units s⟩
      simp [h.1, isNumberUnit]
    · simp

theorem scanExponent_units (s : JsString) :
    ∀ u ∈ (scanExponent s).1, isNumberUnit u = true := by
  cases s with
  | nil => simp [scanExponent]
  | cons v s =>
    simp only [scanExponent]
    split_ifs with h
    · refine List.forall_mem_append.mpr ⟨?_, takeWhile_isDigit_units _⟩
      refine List.forall_mem_cons.mpr ⟨?_, scanSign_units s⟩
      rcases h.1 with rfl | rfl <;> simp [isNumberUnit]
    · simp

theorem isNumberLiteral_units {s : JsString} (hs : isNumberLiteral s = true) :
    ∀ u ∈ s, isNumberUnit u = true := by
  have hs' : scanNumber s = some (s, []) := by simpa [isNumberLiteral] using hs
  unfold scanNumber at hs'
  obtain ⟨⟨i, r⟩, hi, heq⟩ := Option.map_eq_some_iff.mp hs'
  rw [← (Prod.mk.inj heq).1]
  simp only [List.forall_mem_append]
  exact ⟨⟨⟨scanMinus_units s, scanInteger_units hi⟩, scanFraction_units r⟩,
    scanExponent_units _⟩

theorem isNumberLiteral_ne_nil {s : JsString} (hs : isNumberLiteral s = true) : s ≠ [] := by
  rintro rfl
  exact absurd hs (by decide)

theorem isNumberUnit_bounds {u : CodeUnit} (h : isNumberUnit u = true) :
    0x20 ≤ u.val ∧ u.val < 0x80 := by
  simp only [isNumberUnit, isDigit, Bool.or_eq_true, decide_eq_true_eq, beq_iff_eq] at h
  rcases h with ((((h | rfl) | rfl) | rfl) | rfl) | rfl
  · omega
  all_goals decide

/-! ## String literals -/

/-- Lower-case hexadecimal digit. -/
def hexDigit (n : Nat) : CodeUnit :=
  if n < 10 then Fin.ofNat 65536 (0x30 + n) else Fin.ofNat 65536 (0x57 + n)

/-- Value of a hexadecimal digit, in either case. -/
def hexDigitValue (u : CodeUnit) : Option Nat :=
  if 0x30 ≤ u.val ∧ u.val ≤ 0x39 then some (u.val - 0x30)
  else if 0x61 ≤ u.val ∧ u.val ≤ 0x66 then some (u.val - 0x57)
  else if 0x41 ≤ u.val ∧ u.val ≤ 0x46 then some (u.val - 0x37)
  else none

/-- Four-digit escape of one code unit. -/
def hexEscape (u : CodeUnit) : JsString :=
  [0x5C, 0x75, hexDigit (u.val / 0x1000), hexDigit (u.val / 0x100 % 0x10),
    hexDigit (u.val / 0x10 % 0x10), hexDigit (u.val % 0x10)]

/-- The letter a two-unit escape of a code unit ends in. -/
def shortEscape (u : CodeUnit) : Option CodeUnit :=
  if u = 0x08 then some 0x62
  else if u = 0x09 then some 0x74
  else if u = 0x0A then some 0x6E
  else if u = 0x0C then some 0x66
  else if u = 0x0D then some 0x72
  else if u = 0x22 then some 0x22
  else if u = 0x5C then some 0x5C
  else none

/-- The code unit an escape letter other than the hexadecimal one stands for. -/
def unescape (u : CodeUnit) : Option CodeUnit :=
  if u = 0x62 then some 0x08
  else if u = 0x74 then some 0x09
  else if u = 0x6E then some 0x0A
  else if u = 0x66 then some 0x0C
  else if u = 0x72 then some 0x0D
  else if u = 0x22 then some 0x22
  else if u = 0x5C then some 0x5C
  else if u = 0x2F then some 0x2F
  else none

/-- Text of one code unit that is not half of a surrogate pair. -/
def quoteUnit (u : CodeUnit) : JsString :=
  match shortEscape u with
  | some e => [0x5C, e]
  | none => if u.val < 0x20 ∨ isSurrogate u.val then hexEscape u else [u]

/-- Text of a string between its quotation marks. -/
def quoteUnits : JsString → JsString
  | [] => []
  | [u] => quoteUnit u
  | u :: v :: rest =>
    if isHighSurrogate u && isLowSurrogate v then u :: v :: quoteUnits rest
    else quoteUnit u ++ quoteUnits (v :: rest)

/-- A string literal, as `JSON.stringify` writes it. -/
def quote (s : JsString) : JsString :=
  0x22 :: quoteUnits s ++ [0x22]

/-- The code unit four hexadecimal digits denote. -/
def hexValue (a b c d : CodeUnit) : Option CodeUnit :=
  (hexDigitValue a).bind fun a =>
  (hexDigitValue b).bind fun b =>
  (hexDigitValue c).bind fun c =>
  (hexDigitValue d).map fun d =>
    Fin.ofNat 65536 (a * 0x1000 + b * 0x100 + c * 0x10 + d)

/-- The string literal whose opening mark was just read, and the rest. -/
def scanString : JsString → Option (JsString × JsString)
  | [] => none
  | u :: rest =>
    if u = 0x22 then some ([], rest)
    else if u = 0x5C then
      match rest with
      | [] => none
      | e :: rest =>
        if e = 0x75 then
          match rest with
          | a :: b :: c :: d :: rest =>
            (hexValue a b c d).bind fun v => (scanString rest).map fun p => (v :: p.1, p.2)
          | _ => none
        else
          (unescape e).bind fun v => (scanString rest).map fun p => (v :: p.1, p.2)
    else if u.val < 0x20 then none
    else (scanString rest).map fun p => (u :: p.1, p.2)

theorem hexDigitValue_hexDigit {n : Nat} (h : n < 0x10) :
    hexDigitValue (hexDigit n) = some n := by
  interval_cases n <;> rfl

theorem hexValue_hexEscape (u : CodeUnit) :
    hexValue (hexDigit (u.val / 0x1000)) (hexDigit (u.val / 0x100 % 0x10))
      (hexDigit (u.val / 0x10 % 0x10)) (hexDigit (u.val % 0x10)) = some u := by
  have hu := u.isLt
  have hval : Fin.ofNat 65536 (u.val / 0x1000 * 0x1000 + u.val / 0x100 % 0x10 * 0x100 +
      u.val / 0x10 % 0x10 * 0x10 + u.val % 0x10) = u := by
    apply Fin.ext
    rw [Fin.val_ofNat]
    omega
  simp only [hexValue]
  rw [hexDigitValue_hexDigit (by omega), hexDigitValue_hexDigit (by omega),
    hexDigitValue_hexDigit (by omega), hexDigitValue_hexDigit (by omega)]
  simp only [Option.bind_some, Option.map_some, hval]

/-- An escape letter is undone by `unescape` and is not the hexadecimal one. -/
theorem unescape_shortEscape {u e : CodeUnit} (h : shortEscape u = some e) :
    unescape e = some u ∧ e ≠ 0x75 := by
  unfold shortEscape at h
  split_ifs at h <;> cases h <;> subst_vars <;> decide

theorem scanString_plain {u : CodeUnit} (h1 : u ≠ 0x22) (h2 : u ≠ 0x5C)
    (h3 : ¬ u.val < 0x20) (rest : JsString) :
    scanString (u :: rest) = (scanString rest).map fun p => (u :: p.1, p.2) := by
  rw [scanString.eq_def]
  simp only [h1, h2, h3, if_false]

theorem scanString_close (rest : JsString) : scanString (0x22 :: rest) = some ([], rest) := by
  rw [scanString.eq_def]
  simp

/-- Reading the text of one code unit reads that code unit. -/
theorem scanString_quoteUnit (u : CodeUnit) (rest : JsString) :
    scanString (quoteUnit u ++ rest) = (scanString rest).map fun p => (u :: p.1, p.2) := by
  unfold quoteUnit
  cases hs : shortEscape u with
  | some e =>
    obtain ⟨hun, hne⟩ := unescape_shortEscape hs
    simp only [List.cons_append, List.nil_append]
    rw [scanString.eq_def]
    simp [hun, hne]
  | none =>
    have hne1 : u ≠ 0x22 := by rintro rfl; cases hs
    have hne2 : u ≠ 0x5C := by rintro rfl; cases hs
    by_cases hx : u.val < 0x20 ∨ isSurrogate u.val = true
    · simp only [hx, if_true, hexEscape, List.cons_append, List.nil_append]
      rw [scanString.eq_def]
      simp [hexValue_hexEscape u]
    · simp only [hx, if_false]
      exact scanString_plain hne1 hne2 (fun h => hx (Or.inl h)) rest

/-- Reading a quoted string gives the string and what follows its closing mark. -/
theorem scanString_quoteUnits (s rest : JsString) :
    scanString (quoteUnits s ++ 0x22 :: rest) = some (s, rest) := by
  fun_induction quoteUnits s with
  | case1 => exact scanString_close rest
  | case2 u => rw [scanString_quoteUnit, scanString_close]; rfl
  | case3 u v r h ih =>
    simp only [isHighSurrogate, isLowSurrogate, Bool.and_eq_true, decide_eq_true_eq] at h
    have hne : ∀ w x : CodeUnit, x.val < 0xD800 → 0xD800 ≤ w.val → w ≠ x := by
      rintro w x hx hw rfl
      omega
    rw [List.cons_append, List.cons_append,
      scanString_plain (hne u _ (by decide) h.1.1) (hne u _ (by decide) h.1.1) (by omega),
      scanString_plain (hne v _ (by decide) (by omega)) (hne v _ (by decide) (by omega))
        (by omega), ih]
    rfl
  | case4 u v r h ih =>
    rw [List.append_assoc, scanString_quoteUnit, ih]
    rfl

/-! ### Units of a quoted string -/

theorem hexDigit_bounds {n : Nat} (h : n < 0x10) :
    0x20 ≤ (hexDigit n).val ∧ (hexDigit n).val < 0x80 := by
  interval_cases n <;> decide

theorem shortEscape_bounds {u e : CodeUnit} (h : shortEscape u = some e) :
    0x20 ≤ e.val ∧ e.val < 0x80 := by
  unfold shortEscape at h
  split_ifs at h <;> cases h <;> decide

/-- The text of one code unit holds no control character and no surrogate. -/
theorem quoteUnit_units (u : CodeUnit) :
    ∀ v ∈ quoteUnit u, 0x20 ≤ v.val ∧ isSurrogate v.val = false := by
  have hascii : ∀ v : CodeUnit, 0x20 ≤ v.val ∧ v.val < 0x80 →
      0x20 ≤ v.val ∧ isSurrogate v.val = false := by
    intro v hv
    refine ⟨hv.1, ?_⟩
    unfold isSurrogate
    rw [decide_eq_false_iff_not]
    omega
  have hu := u.isLt
  unfold quoteUnit
  cases hs : shortEscape u with
  | some e =>
    intro v hv
    simp only [List.mem_cons, List.not_mem_nil, or_false] at hv
    rcases hv with rfl | rfl
    · decide
    · exact hascii v (shortEscape_bounds hs)
  | none =>
    by_cases hx : u.val < 0x20 ∨ isSurrogate u.val = true
    · intro v hv
      simp only [hx, if_true, hexEscape, List.mem_cons, List.not_mem_nil, or_false] at hv
      rcases hv with rfl | rfl | rfl | rfl | rfl | rfl
      · decide
      · decide
      all_goals exact hascii _ (hexDigit_bounds (by omega))
    · intro v hv
      simp only [hx, if_false, List.mem_singleton] at hv
      rw [hv]
      rw [not_or, Bool.not_eq_true] at hx
      exact ⟨by omega, hx.2⟩

theorem quoteUnits_wellFormed (s : JsString) : WellFormed (quoteUnits s) := by
  fun_induction quoteUnits s with
  | case1 => exact wellFormed_nil
  | case2 u => exact wellFormed_of_units fun v hv => (quoteUnit_units u v hv).2
  | case3 u v r h ih =>
    rw [Bool.and_eq_true] at h
    exact WellFormed.pair h.1 h.2 ih
  | case4 u v r h ih =>
    exact (wellFormed_of_units fun w hw => (quoteUnit_units u w hw).2).append ih

theorem quoteUnits_units (s : JsString) : ∀ v ∈ quoteUnits s, 0x20 ≤ v.val := by
  fun_induction quoteUnits s with
  | case1 => simp
  | case2 u => exact fun v hv => (quoteUnit_units u v hv).1
  | case3 u v r h ih =>
    simp only [isHighSurrogate, isLowSurrogate, Bool.and_eq_true, decide_eq_true_eq] at h
    exact List.forall_mem_cons.mpr ⟨by omega, List.forall_mem_cons.mpr ⟨by omega, ih⟩⟩
  | case4 u v r h ih =>
    exact List.forall_mem_append.mpr ⟨fun w hw => (quoteUnit_units u w hw).1, ih⟩

theorem quote_wellFormed (s : JsString) : WellFormed (quote s) :=
  (WellFormed.cons (by decide) (quoteUnits_wellFormed s)).append (by decide)

theorem quote_units (s : JsString) : ∀ v ∈ quote s, 0x20 ≤ v.val := by
  intro v hv
  simp only [quote, List.cons_append, List.mem_cons, List.mem_append, List.not_mem_nil,
    or_false] at hv
  rcases hv with rfl | hv | rfl
  · decide
  · exact quoteUnits_units s v hv
  · decide

end PiRlm.Lib

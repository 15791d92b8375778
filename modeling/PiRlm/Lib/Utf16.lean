/-
  PiRlm.Lib.Utf16

  UTF-16 strings and their UTF-8 encoding.

  A string is the list of its code units, surrogates included, and may hold
  lone surrogates.  `utf8` encodes one the way a text encoder does (a lone
  surrogate becomes U+FFFD); `decodeScalars` is the byte-at-a-time decoder,
  read leniently by `utf8Decode` and strictly by `utf8DecodeFatal`.
-/
import Mathlib

namespace PiRlm.Lib

/-- One UTF-16 code unit. -/
abbrev CodeUnit := Fin 65536

/-- A string of UTF-16 code units. -/
abbrev JsString := List CodeUnit

/-- One octet. -/
abbrev Byte := Fin 256

-- named once, so that every module elaborates units and strings alike
instance instNeZeroUnit : NeZero 65536 := ⟨by decide⟩
instance instNeZeroOctet : NeZero 256 := ⟨by decide⟩
instance instLawfulBEqUnit : LawfulBEq CodeUnit := inferInstance
instance instLawfulBEqJsString : LawfulBEq JsString := inferInstance

/-- The string a Latin-1 literal of the source denotes. -/
def js (s : String) : JsString :=
  s.toList.map fun c => Fin.ofNat 65536 c.toNat

/-! ## Surrogates and code points -/

/-- First half of a surrogate pair. -/
def isHighSurrogate (u : CodeUnit) : Bool :=
  decide (0xD800 ≤ u.val ∧ u.val ≤ 0xDBFF)

/-- Second half of a surrogate pair. -/
def isLowSurrogate (u : CodeUnit) : Bool :=
  decide (0xDC00 ≤ u.val ∧ u.val ≤ 0xDFFF)

/-- A code point that no surrogate pair and no single unit may stand for. -/
def isSurrogate (c : Nat) : Bool :=
  decide (0xD800 ≤ c ∧ c ≤ 0xDFFF)

/-- The code point of a surrogate pair. -/
def pairCodePoint (high low : CodeUnit) : Nat :=
  0x10000 + (high.val - 0xD800) * 0x400 + (low.val - 0xDC00)

/-- Code points of a string; a lone surrogate is its own code point. -/
def codePoints : JsString → List Nat
  | [] => []
  | [u] => [u.val]
  | u :: v :: rest =>
    if isHighSurrogate u && isLowSurrogate v then
      pairCodePoint u v :: codePoints rest
    else
      u.val :: codePoints (v :: rest)

/-- Code units of one code point. -/
def utf16 (c : Nat) : JsString :=
  if c < 0x10000 then [Fin.ofNat 65536 c]
  else [Fin.ofNat 65536 (0xD800 + (c - 0x10000) / 0x400),
        Fin.ofNat 65536 (0xDC00 + (c - 0x10000) % 0x400)]

/-- No code point of the string is a lone surrogate. -/
def WellFormed (s : JsString) : Prop :=
  ∀ c ∈ codePoints s, isSurrogate c = false

instance (s : JsString) : Decidable (WellFormed s) :=
  inferInstanceAs (Decidable (∀ c ∈ codePoints s, isSurrogate c = false))

theorem utf16_unit (u : CodeUnit) : utf16 u.val = [u] := by
  have hu := u.isLt
  simp only [utf16, hu, if_true]
  congr 1
  exact Fin.ext (Nat.mod_eq_of_lt hu)

theorem le_pairCodePoint (u v : CodeUnit) : 0x10000 ≤ pairCodePoint u v := by
  unfold pairCodePoint
  omega

theorem utf16_pair {u v : CodeUnit}
    (hu : isHighSurrogate u = true) (hv : isLowSurrogate v = true) :
    utf16 (pairCodePoint u v) = [u, v] := by
  unfold isHighSurrogate at hu
  unfold isLowSurrogate at hv
  rw [decide_eq_true_eq] at hu hv
  have hhigh : Fin.ofNat 65536 (0xD800 + (pairCodePoint u v - 0x10000) / 0x400) = u := by
    apply Fin.ext
    rw [Fin.val_ofNat]
    unfold pairCodePoint
    omega
  have hlow : Fin.ofNat 65536 (0xDC00 + (pairCodePoint u v - 0x10000) % 0x400) = v := by
    apply Fin.ext
    rw [Fin.val_ofNat]
    unfold pairCodePoint
    omega
  rw [utf16, if_neg (Nat.not_lt.mpr (le_pairCodePoint u v)), hhigh, hlow]

/-- Code points lose nothing: re-encoding them gives the string back. -/
theorem flatMap_utf16_codePoints (s : JsString) :
    (codePoints s).flatMap utf16 = s := by
  fun_induction codePoints s with
  | case1 => rfl
  | case2 u => simp [utf16_unit]
  | case3 u v rest h ih =>
    simp only [Bool.and_eq_true] at h
    rw [List.flatMap_cons, utf16_pair h.1 h.2, ih]
    rfl
  | case4 u v rest h ih =>
    rw [List.flatMap_cons, utf16_unit, ih]
    rfl

theorem pairCodePoint_not_surrogate (u v : CodeUnit) :
    isSurrogate (pairCodePoint u v) = false := by
  have hle := le_pairCodePoint u v
  unfold isSurrogate
  rw [decide_eq_false_iff_not]
  omega

theorem pairCodePoint_lt {u v : CodeUnit}
    (hu : isHighSurrogate u = true) (hv : isLowSurrogate v = true) :
    pairCodePoint u v < 0x110000 := by
  unfold isHighSurrogate at hu
  unfold isLowSurrogate at hv
  rw [decide_eq_true_eq] at hu hv
  unfold pairCodePoint
  omega

theorem codePoints_lt (s : JsString) : ∀ c ∈ codePoints s, c < 0x110000 := by
  fun_induction codePoints s with
  | case1 => simp
  | case2 u =>
    have hu := u.isLt
    intro c hc
    rw [List.mem_singleton] at hc
    omega
  | case3 u v rest h ih =>
    rw [Bool.and_eq_true] at h
    exact List.forall_mem_cons.mpr ⟨pairCodePoint_lt h.1 h.2, ih⟩
  | case4 u v rest h ih =>
    have hu := u.isLt
    exact List.forall_mem_cons.mpr ⟨by omega, ih⟩

/-! ## Concatenation of well-formed strings -/

@[simp] theorem wellFormed_nil : WellFormed [] := by
  simp [WellFormed, codePoints]

/-- A unit that is no surrogate splits off. -/
theorem codePoints_cons {u : CodeUnit} (h : isSurrogate u.val = false) (s : JsString) :
    codePoints (u :: s) = u.val :: codePoints s := by
  have hu : isHighSurrogate u = false := by
    simp only [isHighSurrogate, isSurrogate, decide_eq_false_iff_not] at *
    omega
  cases s with
  | nil => rfl
  | cons v rest => simp [codePoints, hu]

/-- Code points of a concatenation: a well-formed left part never ends inside a pair. -/
theorem codePoints_append {s : JsString} (h : WellFormed s) (t : JsString) :
    codePoints (s ++ t) = codePoints s ++ codePoints t := by
  revert h
  fun_induction codePoints s with
  | case1 => intro _; rfl
  | case2 u =>
    intro h
    have hu : isSurrogate u.val = false := h u.val (by simp [codePoints])
    exact codePoints_cons hu t
  | case3 u v rest hp ih =>
    intro h
    have hrest : WellFormed rest := fun c hc => h c (by simp [codePoints, hp, hc])
    rw [List.cons_append, List.cons_append]
    simp only [codePoints, hp, if_true, ih hrest, List.cons_append]
  | case4 u v rest hp ih =>
    intro h
    have hrest : WellFormed (v :: rest) := fun c hc => h c (by simp [codePoints, hp, hc])
    rw [List.cons_append, List.cons_append]
    simp only [codePoints, hp, Bool.false_eq_true, if_false]
    rw [← List.cons_append, ih hrest, List.cons_append]

theorem WellFormed.append {s t : JsString} (hs : WellFormed s) (ht : WellFormed t) :
    WellFormed (s ++ t) := by
  intro c hc
  rw [codePoints_append hs, List.mem_append] at hc
  exact hc.elim (hs c) (ht c)

theorem WellFormed.cons {u : CodeUnit} {s : JsString}
    (hu : isSurrogate u.val = false) (hs : WellFormed s) : WellFormed (u :: s) := by
  intro c hc
  rw [codePoints_cons hu, List.mem_cons] at hc
  rcases hc with rfl | hc
  · exact hu
  · exact hs c hc

theorem WellFormed.pair {u v : CodeUnit} {s : JsString}
    (hu : isHighSurrogate u = true) (hv : isLowSurrogate v = true) (hs : WellFormed s) :
    WellFormed (u :: v :: s) := by
  intro c hc
  simp only [codePoints, hu, hv, Bool.and_self, if_true, List.mem_cons] at hc
  rcases hc with hc | hc
  · rw [hc]
    exact pairCodePoint_not_surrogate u v
  · exact hs c hc

/-- A string without surrogates is well formed. -/
theorem wellFormed_of_units {s : JsString} (h : ∀ u ∈ s, isSurrogate u.val = false) :
    WellFormed s := by
  induction s with
  | nil => exact wellFormed_nil
  | cons u s ih =>
    exact WellFormed.cons (h u (by simp)) (ih fun v hv => h v (by simp [hv]))

/-! ## UTF-8 encoding -/

/-- Octets of one scalar value. -/
def encodeScalar (c : Nat) : List Byte :=
  if c < 0x80 then [Fin.ofNat 256 c]
  else if c < 0x800 then
    [Fin.ofNat 256 (0xC0 + c / 0x40), Fin.ofNat 256 (0x80 + c % 0x40)]
  else if c < 0x10000 then
    [Fin.ofNat 256 (0xE0 + c / 0x1000), Fin.ofNat 256 (0x80 + c / 0x40 % 0x40),
      Fin.ofNat 256 (0x80 + c % 0x40)]
  else
    [Fin.ofNat 256 (0xF0 + c / 0x40000), Fin.ofNat 256 (0x80 + c / 0x1000 % 0x40),
      Fin.ofNat 256 (0x80 + c / 0x40 % 0x40), Fin.ofNat 256 (0x80 + c % 0x40)]

/-- The replacement character. -/
def replacement : Nat := 0xFFFD

/-- UTF-8 octets of a string; each lone surrogate is encoded as U+FFFD. -/
def utf8 (s : JsString) : List Byte :=
  (codePoints s).flatMap fun c => encodeScalar (if isSurrogate c then replacement else c)

theorem utf8_append {s : JsString} (h : WellFormed s) (t : JsString) :
    utf8 (s ++ t) = utf8 s ++ utf8 t := by
  rw [utf8, codePoints_append h, List.flatMap_append]
  rfl

theorem utf8_flatten {ss : List JsString} (h : ∀ s ∈ ss, WellFormed s) :
    utf8 ss.flatten = (ss.map utf8).flatten := by
  induction ss with
  | nil => rfl
  | cons s ss ih =>
    rw [List.flatten_cons, utf8_append (h s (by simp)), ih fun t ht => h t (by simp [ht])]
    rfl

theorem length_encodeScalar_le (c : Nat) : (encodeScalar c).length ≤ 4 := by
  rw [encodeScalar]
  split_ifs <;> simp

theorem length_codePoints_le (s : JsString) : (codePoints s).length ≤ s.length := by
  induction s using codePoints.induct with
  | case1 => exact le_rfl
  | case2 u => exact le_rfl
  | case3 u v rest hpair ih =>
    rw [codePoints, if_pos hpair, List.length_cons, List.length_cons, List.length_cons]
    omega
  | case4 u v rest hpair ih =>
    rw [codePoints, if_neg hpair, List.length_cons, List.length_cons]
    omega

theorem length_utf8_le (s : JsString) : (utf8 s).length ≤ s.length * 4 := by
  have hlength := length_codePoints_le s
  rw [utf8, List.length_flatMap]
  refine (List.sum_le_card_nsmul _ 4 ?_).trans ?_
  · rw [List.forall_mem_map]
    exact fun c _ => length_encodeScalar_le _
  · rw [List.length_map, smul_eq_mul]
    exact Nat.mul_le_mul_right 4 hlength

theorem utf8_cons {u : CodeUnit} (h : isSurrogate u.val = false) (s : JsString) :
    utf8 (u :: s) = encodeScalar u.val ++ utf8 s := by
  rw [utf8, codePoints_cons h, List.flatMap_cons, h]
  rfl

theorem utf8_wellFormed {s : JsString} (h : WellFormed s) :
    utf8 s = (codePoints s).flatMap encodeScalar := by
  rw [utf8]
  apply List.flatMap_congr
  intro c hc
  simp [h c hc]

/-- Every octet of a code point outside ASCII is outside ASCII. -/
theorem encodeScalar_ascii {c : Nat} (hc : c < 0x110000) {b : Byte}
    (hb : b ∈ encodeScalar c) (hlt : b.val < 0x80) : b.val = c ∧ c < 0x80 := by
  unfold encodeScalar at hb
  split at hb
  · simp only [List.mem_singleton] at hb
    subst hb
    simp only [Fin.val_ofNat]
    omega
  · split at hb
    · simp only [List.mem_cons, List.not_mem_nil, or_false] at hb
      rcases hb with rfl | rfl <;> simp only [Fin.val_ofNat] at hlt <;> omega
    · split at hb
      · simp only [List.mem_cons, List.not_mem_nil, or_false] at hb
        rcases hb with rfl | rfl | rfl <;> simp only [Fin.val_ofNat] at hlt <;> omega
      · simp only [List.mem_cons, List.not_mem_nil, or_false] at hb
        rcases hb with rfl | rfl | rfl | rfl <;> simp only [Fin.val_ofNat] at hlt <;> omega

theorem encodeScalar_ne_nil (c : Nat) : encodeScalar c ≠ [] := by
  unfold encodeScalar
  split_ifs <;> simp

/-- An ASCII octet of the encoding comes from that very code unit of the string. -/
theorem mem_of_mem_utf8 {s : JsString} {b : Byte}
    (hb : b ∈ utf8 s) (hlt : b.val < 0x80) : Fin.ofNat 65536 b.val ∈ s := by
  obtain ⟨c, hc, hbc⟩ := List.mem_flatMap.mp hb
  have hclt := codePoints_lt s c hc
  have hcode : (if isSurrogate c then replacement else c) < 0x110000 := by
    split_ifs
    · decide
    · exact hclt
  obtain ⟨hval, hascii⟩ := encodeScalar_ascii hcode hbc hlt
  have hns : isSurrogate c = false := by
    by_contra hs
    simp only [Bool.not_eq_false] at hs
    simp [hs, replacement] at hascii
  simp only [hns, Bool.false_eq_true, if_false] at hval hascii
  have hmem : utf16 c = [Fin.ofNat 65536 b.val] := by
    have hsmall : c < 0x10000 := by omega
    simp only [utf16, hsmall, if_true, hval]
  rw [← flatMap_utf16_codePoints s]
  exact List.mem_flatMap.mpr ⟨c, hc, by simp [hmem]⟩

/-! ## UTF-8 decoding -/

/-- Decoder state: between characters, or inside one with the number of
    continuation octets still due, the bits read and the next octet's bounds. -/
inductive DecoderState where
  | ground
  | more (remaining bits lower upper : Nat)
  deriving Repr, DecidableEq

/-- The lead octet of a character: `none` in the output is a decoding error. -/
def decodeLead (b : Byte) : DecoderState × List (Option Nat) :=
  if b.val < 0x80 then (.ground, [some b.val])
  else if 0xC2 ≤ b.val ∧ b.val ≤ 0xDF then (.more 1 (b.val - 0xC0) 0x80 0xBF, [])
  else if 0xE0 ≤ b.val ∧ b.val ≤ 0xEF then
    (.more 2 (b.val - 0xE0) (if b.val = 0xE0 then 0xA0 else 0x80)
      (if b.val = 0xED then 0x9F else 0xBF), [])
  else if 0xF0 ≤ b.val ∧ b.val ≤ 0xF4 then
    (.more 3 (b.val - 0xF0) (if b.val = 0xF0 then 0x90 else 0x80)
      (if b.val = 0xF4 then 0x8F else 0xBF), [])
  else (.ground, [none])

/-- One octet.  An octet that cannot continue the open character ends it with an
    error and is read again as a lead octet. -/
def decodeStep (st : DecoderState) (b : Byte) : DecoderState × List (Option Nat) :=
  match st with
  | .ground => decodeLead b
  | .more remaining bits lower upper =>
    if lower ≤ b.val ∧ b.val ≤ upper then
      if remaining = 1 then (.ground, [some (bits * 0x40 + (b.val - 0x80))])
      else (.more (remaining - 1) (bits * 0x40 + (b.val - 0x80)) 0x80 0xBF, [])
    else
      let (st', out) := decodeLead b
      (st', none :: out)

/-- Decoding from a state to the end of the input. -/
def decodeFrom : DecoderState → List Byte → List (Option Nat)
  | .ground, [] => []
  | .more .., [] => [none]
  | st, b :: bs => (decodeStep st b).2 ++ decodeFrom (decodeStep st b).1 bs

/-- The scalar values of an octet string, an error where it is malformed. -/
def decodeScalars (bs : List Byte) : List (Option Nat) :=
  decodeFrom .ground bs

/-- Lenient decoding: U+FFFD for each error. -/
def utf8Decode (bs : List Byte) : JsString :=
  (decodeScalars bs).flatMap fun c => utf16 (c.getD replacement)

/-- Strict decoding: no result when any octet is malformed. -/
def utf8DecodeFatal (bs : List Byte) : Option JsString :=
  if (decodeScalars bs).all Option.isSome then some (utf8Decode bs) else none

/-! ### One character -/

/-- Lead octet of a two-octet character. -/
theorem decodeLead_two {k : Nat} (h1 : 2 ≤ k) (h2 : k < 0x20) :
    decodeLead (Fin.ofNat 256 (0xC0 + k)) = (.more 1 k 0x80 0xBF, []) := by
  have hv : (Fin.ofNat 256 (0xC0 + k)).val = 0xC0 + k := Nat.mod_eq_of_lt (by omega)
  unfold decodeLead
  rw [hv, if_neg (by omega), if_pos (by omega), Nat.add_sub_cancel_left]

/-- Lead octet of a three-octet character. -/
theorem decodeLead_three {k : Nat} (h : k < 0x10) :
    decodeLead (Fin.ofNat 256 (0xE0 + k)) =
      (.more 2 k (if k = 0 then 0xA0 else 0x80) (if k = 0xD then 0x9F else 0xBF), []) := by
  have hv : (Fin.ofNat 256 (0xE0 + k)).val = 0xE0 + k := Nat.mod_eq_of_lt (by omega)
  unfold decodeLead
  rw [hv, if_neg (by omega), if_neg (by omega), if_pos (by omega), Nat.add_sub_cancel_left]
  have h0 : (0xE0 + k = 0xE0) = (k = 0) := by apply propext; omega
  have hd : (0xE0 + k = 0xED) = (k = 0xD) := by apply propext; omega
  simp only [h0, hd]

/-- Lead octet of a four-octet character. -/
theorem decodeLead_four {k : Nat} (h : k ≤ 4) :
    decodeLead (Fin.ofNat 256 (0xF0 + k)) =
      (.more 3 k (if k = 0 then 0x90 else 0x80) (if k = 4 then 0x8F else 0xBF), []) := by
  have hv : (Fin.ofNat 256 (0xF0 + k)).val = 0xF0 + k := Nat.mod_eq_of_lt (by omega)
  unfold decodeLead
  rw [hv, if_neg (by omega), if_neg (by omega), if_neg (by omega), if_pos (by omega),
    Nat.add_sub_cancel_left]
  have h0 : (0xF0 + k = 0xF0) = (k = 0) := by apply propext; omega
  have h4 : (0xF0 + k = 0xF4) = (k = 4) := by apply propext; omega
  simp only [h0, h4]

/-- A continuation octet that leaves more to come. -/
theorem decodeStep_more (r b lo hi k : Nat) (hr : r ≠ 1) (hk : k < 0x40)
    (hlo : lo ≤ 0x80 + k) (hhi : 0x80 + k ≤ hi) :
    decodeStep (.more r b lo hi) (Fin.ofNat 256 (0x80 + k)) =
      (.more (r - 1) (b * 0x40 + k) 0x80 0xBF, []) := by
  have hv : (Fin.ofNat 256 (0x80 + k)).val = 0x80 + k := Nat.mod_eq_of_lt (by omega)
  simp only [decodeStep, hv, Nat.add_sub_cancel_left]
  rw [if_pos ⟨hlo, hhi⟩, if_neg hr]

/-- The last continuation octet. -/
theorem decodeStep_last (b lo hi k : Nat) (hk : k < 0x40)
    (hlo : lo ≤ 0x80 + k) (hhi : 0x80 + k ≤ hi) :
    decodeStep (.more 1 b lo hi) (Fin.ofNat 256 (0x80 + k)) =
      (.ground, [some (b * 0x40 + k)]) := by
  have hv : (Fin.ofNat 256 (0x80 + k)).val = 0x80 + k := Nat.mod_eq_of_lt (by omega)
  simp only [decodeStep, hv, Nat.add_sub_cancel_left]
  rw [if_pos ⟨hlo, hhi⟩, if_pos trivial]

theorem decodeFrom_cons (st : DecoderState) (b : Byte) (bs : List Byte) :
    decodeFrom st (b :: bs) = (decodeStep st b).2 ++ decodeFrom (decodeStep st b).1 bs := by
  cases st <;> rfl

/-- Decoding the octets of one scalar value gives it back and returns to `ground`. -/
theorem decodeFrom_encodeScalar {c : Nat} (hlt : c < 0x110000)
    (hs : isSurrogate c = false) (bs : List Byte) :
    decodeFrom .ground (encodeScalar c ++ bs) = some c :: decodeFrom .ground bs := by
  unfold isSurrogate at hs
  rw [decide_eq_false_iff_not] at hs
  unfold encodeScalar
  split_ifs with h1 h2 h3
  · have hv : (Fin.ofNat 256 c).val = c := Nat.mod_eq_of_lt (by omega)
    have hlead : decodeLead (Fin.ofNat 256 c) = (.ground, [some c]) := by
      unfold decodeLead
      rw [hv, if_pos h1]
    simp only [List.cons_append, List.nil_append, decodeFrom_cons, decodeStep, hlead]
  · have hlast := decodeStep_last (c / 0x40) 0x80 0xBF (c % 0x40) (by omega) (by omega) (by omega)
    have hc : c / 0x40 * 0x40 + c % 0x40 = c := by omega
    simp only [List.cons_append, List.nil_append, decodeFrom_cons]
    simp only [decodeStep.eq_1, decodeLead_two (k := c / 0x40) (by omega) (by omega),
      hlast, hc, List.nil_append, List.cons_append]
  · have hmid := decodeStep_more 2 (c / 0x1000) (if c / 0x1000 = 0 then 0xA0 else 0x80)
      (if c / 0x1000 = 0xD then 0x9F else 0xBF) (c / 0x40 % 0x40) (by omega) (by omega) (by split_ifs <;> omega)
      (by split_ifs <;> omega)
    have hlast := decodeStep_last (c / 0x1000 * 0x40 + c / 0x40 % 0x40) 0x80 0xBF (c % 0x40)
      (by omega) (by omega) (by omega)
    have hc : (c / 0x1000 * 0x40 + c / 0x40 % 0x40) * 0x40 + c % 0x40 = c := by omega
    simp only [List.cons_append, List.nil_append, decodeFrom_cons]
    simp only [decodeStep.eq_1, decodeLead_three (k := c / 0x1000) (by omega),
      hmid, hlast, hc, List.nil_append, List.cons_append, Nat.reduceSub]
  · have hmid := decodeStep_more 3 (c / 0x40000) (if c / 0x40000 = 0 then 0x90 else 0x80)
      (if c / 0x40000 = 4 then 0x8F else 0xBF) (c / 0x1000 % 0x40) (by omega) (by omega) (by split_ifs <;> omega)
      (by split_ifs <;> omega)
    have hmid' := decodeStep_more 2 (c / 0x40000 * 0x40 + c / 0x1000 % 0x40) 0x80 0xBF
      (c / 0x40 % 0x40) (by omega) (by omega) (by omega) (by omega)
    have hlast := decodeStep_last
      ((c / 0x40000 * 0x40 + c / 0x1000 % 0x40) * 0x40 + c / 0x40 % 0x40) 0x80 0xBF
      (c % 0x40) (by omega) (by omega) (by omega)
    have hc : ((c / 0x40000 * 0x40 + c / 0x1000 % 0x40) * 0x40 + c / 0x40 % 0x40) * 0x40 +
        c % 0x40 = c := by omega
    simp only [List.cons_append, List.nil_append, decodeFrom_cons]
    simp only [decodeStep.eq_1, decodeLead_four (k := c / 0x40000) (by omega),
      hmid, hmid', hlast, hc, List.nil_append, List.cons_append, Nat.reduceSub]

/-! ### Whole strings -/

theorem decodeScalars_flatMap {cs : List Nat} (hlt : ∀ c ∈ cs, c < 0x110000)
    (hs : ∀ c ∈ cs, isSurrogate c = false) :
    decodeScalars (cs.flatMap encodeScalar) = cs.map some := by
  unfold decodeScalars
  induction cs with
  | nil => rfl
  | cons c cs ih =>
    rw [List.flatMap_cons, decodeFrom_encodeScalar (hlt c (by simp)) (hs c (by simp)),
      ih (fun d hd => hlt d (by simp [hd])) (fun d hd => hs d (by simp [hd]))]
    rfl

theorem decodeScalars_utf8 {s : JsString} (h : WellFormed s) :
    decodeScalars (utf8 s) = (codePoints s).map some := by
  rw [utf8_wellFormed h]
  exact decodeScalars_flatMap (codePoints_lt s) h

/-- The lenient decoder undoes the encoder on well-formed strings. -/
theorem utf8Decode_utf8 {s : JsString} (h : WellFormed s) : utf8Decode (utf8 s) = s := by
  rw [utf8Decode, decodeScalars_utf8 h, List.flatMap_map]
  exact flatMap_utf16_codePoints s

/-- So does the strict one. -/
theorem utf8DecodeFatal_utf8 {s : JsString} (h : WellFormed s) :
    utf8DecodeFatal (utf8 s) = some s := by
  have hall : ((codePoints s).map some).all Option.isSome = true := by simp
  rw [utf8DecodeFatal, decodeScalars_utf8 h, if_pos hall, utf8Decode_utf8 h]

end PiRlm.Lib

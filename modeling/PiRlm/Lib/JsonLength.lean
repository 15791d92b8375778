/-
  PiRlm.Lib.JsonLength

  How many octets a JSON text has.

  The length of an object is a sum over its members, so that it does not depend on their
  order.  A string literal has at most six octets for a code unit, which bounds the length of
  a value by the lengths of its strings.
-/
import Mathlib
import PiRlm.Lib.Decimal

namespace PiRlm.Lib

/-- The length of a text in UTF-8. -/
def octetLength (s : JsString) : Nat :=
  (utf8 s).length

theorem octetLength_append {s : JsString} (h : WellFormed s) (t : JsString) :
    octetLength (s ++ t) = octetLength s + octetLength t := by
  rw [octetLength, utf8_append h, List.length_append]
  rfl

theorem octetLength_le (s : JsString) : octetLength s ≤ s.length * 4 :=
  length_utf8_le s

theorem isSurrogate_ascii {u : CodeUnit} (h : u.val < 0x80) : isSurrogate u.val = false := by
  simp only [isSurrogate, decide_eq_false_iff_not]
  omega

theorem octetLength_cons {u : CodeUnit} (h : u.val < 0x80) (s : JsString) :
    octetLength (u :: s) = octetLength s + 1 := by
  rw [octetLength, utf8_cons (isSurrogate_ascii h), encodeScalar, if_pos h]
  rfl

theorem octetLength_ascii {s : JsString} (h : ∀ u ∈ s, u.val < 0x80) :
    octetLength s = s.length := by
  induction s with
  | nil => rfl
  | cons u s ih =>
    rw [List.forall_mem_cons] at h
    rw [octetLength_cons h.1, ih h.2, List.length_cons]

-- ============================================================================
-- String literals
-- ============================================================================

theorem octetLength_quoteUnit_le (u : CodeUnit) : octetLength (quoteUnit u) ≤ 6 := by
  unfold quoteUnit
  cases hshort : shortEscape u with
  | some e =>
    have hlow := (shortEscape_bounds hshort).2
    have hascii : ∀ v ∈ [0x5C, e], v.val < 0x80 :=
      List.forall_mem_cons.mpr ⟨by decide, List.forall_mem_singleton.mpr hlow⟩
    rw [octetLength_ascii hascii]
    exact Nat.le_add_left 2 4
  | none =>
    dsimp only
    split_ifs with hescape
    · have hunits : ∀ v ∈ hexEscape u, v.val < 0x80 := by
        have hu := u.isLt
        intro v hv
        simp only [hexEscape, List.mem_cons, List.not_mem_nil, or_false] at hv
        rcases hv with rfl | rfl | rfl | rfl | rfl | rfl
        · decide
        · decide
        all_goals exact (hexDigit_bounds (by omega)).2
      rw [octetLength_ascii hunits]
      exact le_refl 6
    · have hone := octetLength_le [u]
      rw [List.length_singleton] at hone
      omega

theorem octetLength_quoteUnits_le (s : JsString) : octetLength (quoteUnits s) ≤ s.length * 6 := by
  fun_induction quoteUnits s with
  | case1 => exact Nat.zero_le _
  | case2 u => exact octetLength_quoteUnit_le u
  | case3 u v rest hpair ih =>
    have hwell : WellFormed [u, v] :=
      .pair (Bool.and_eq_true_iff.mp hpair).1 (Bool.and_eq_true_iff.mp hpair).2 wellFormed_nil
    have htwo := octetLength_le [u, v]
    have happend := octetLength_append hwell (quoteUnits rest)
    simp only [List.cons_append, List.nil_append, List.length_cons, List.length_nil] at happend htwo ⊢
    omega
  | case4 u v rest hpair ih =>
    have hwell : WellFormed (quoteUnit u) :=
      wellFormed_of_units fun w hw => (quoteUnit_units u w hw).2
    have hone := octetLength_quoteUnit_le u
    rw [octetLength_append hwell, List.length_cons]
    omega

/-- A string literal has at most six octets for a code unit. -/
theorem octetLength_quote_le (s : JsString) : octetLength (quote s) ≤ s.length * 6 + 2 := by
  have hunits := octetLength_quoteUnits_le s
  have hend : octetLength [0x22] = 1 := by decide
  rw [quote, List.cons_append, octetLength_cons (by decide),
    octetLength_append (quoteUnits_wellFormed s), hend]
  omega

-- ============================================================================
-- Objects and numbers
-- ============================================================================

namespace Json

variable {N : Type} [JsonNumber N]

/-- The length of a member with a separator. -/
def memberLength (f : JsString × Json N) : Nat :=
  octetLength (quote f.1) + octetLength f.2.render + 2

theorem octetLength_member (f : JsString × Json N) (rest : JsString) :
    octetLength (quote f.1 ++ 0x3A :: f.2.render ++ rest) + 1 =
      memberLength f + octetLength rest := by
  have hvalue : WellFormed (0x3A :: f.2.render) := (render_wellFormed f.2).cons (by decide)
  rw [octetLength_append ((quote_wellFormed f.1).append hvalue),
    octetLength_append (quote_wellFormed f.1), octetLength_cons (by decide), memberLength]
  omega

theorem octetLength_renderFields (fields : List (JsString × Json N)) :
    octetLength (renderFields fields) = (fields.map memberLength).sum + 1 := by
  induction fields with
  | nil => rfl
  | cons f fields ih =>
    have hmember := octetLength_member f (renderFields fields)
    rw [List.map_cons, List.sum_cons]
    show octetLength (0x2C :: (quote f.1 ++ 0x3A :: f.2.render ++ renderFields fields)) = _
    rw [octetLength_cons (by decide), hmember, ih]
    omega

theorem octetLength_obj {fields : List (JsString × Json N)} (h : fields ≠ []) :
    octetLength (Json.obj fields).render = (fields.map memberLength).sum + 1 := by
  cases fields with
  | nil => exact absurd rfl h
  | cons f fields =>
    have hmember := octetLength_member f (renderFields fields)
    rw [List.map_cons, List.sum_cons]
    show octetLength (0x7B :: (quote f.1 ++ 0x3A :: f.2.render ++ renderFields fields)) = _
    rw [octetLength_cons (by decide), hmember, octetLength_renderFields]
    omega

-- ============================================================================
-- Values as lists of parts
-- ============================================================================

/-- Parts with commas between them. -/
def separated : List JsString → JsString
  | [] => []
  | part :: parts => part ++ parts.flatMap fun part => 0x2C :: part

def bracket (first last : CodeUnit) (parts : List JsString) : JsString :=
  first :: separated parts ++ [last]

/-- The text of a member. -/
def member (f : JsString × Json N) : JsString := quote f.1 ++ 0x3A :: f.2.render

theorem renderItems_eq (items : List (Json N)) :
    renderItems items = ((items.map render).flatMap fun part => 0x2C :: part) ++ [0x5D] := by
  induction items with
  | nil => rfl
  | cons v items ih =>
    rw [renderItems, ih, List.map_cons, List.flatMap_cons, List.append_assoc]

theorem renderFields_eq (fields : List (JsString × Json N)) :
    renderFields fields = ((fields.map member).flatMap fun part => 0x2C :: part) ++ [0x7D] := by
  induction fields with
  | nil => rfl
  | cons f fields ih =>
    rw [renderFields, ih, List.map_cons, List.flatMap_cons, member]
    simp

theorem render_arr (items : List (Json N)) :
    (Json.arr items).render = bracket 0x5B 0x5D (items.map render) := by
  cases items with
  | nil => rfl
  | cons v items =>
    show 0x5B :: v.render ++ renderItems items = _
    rw [renderItems_eq, bracket, List.map_cons, separated]
    simp

theorem render_obj (fields : List (JsString × Json N)) :
    (Json.obj fields).render = bracket 0x7B 0x7D (fields.map member) := by
  cases fields with
  | nil => rfl
  | cons f fields =>
    show 0x7B :: quote f.1 ++ 0x3A :: f.2.render ++ renderFields fields = _
    rw [renderFields_eq, bracket, List.map_cons, separated, member]
    simp

/-- The lengths of some parts, with a comma before each but the first. -/
def separatedLength : (first : Bool) → List Nat → Nat
  | _, [] => 0
  | first, n :: lengths => (if first then 0 else 1) + n + separatedLength false lengths

theorem octetLength_parts {parts : List JsString} (h : ∀ part ∈ parts, WellFormed part)
    {last : CodeUnit} (hlast : last.val < 0x80) :
    octetLength (parts.flatMap (fun part => 0x2C :: part) ++ [last]) =
      separatedLength false (parts.map octetLength) + 1 := by
  induction parts with
  | nil => exact octetLength_cons hlast []
  | cons part parts ih =>
    rw [List.forall_mem_cons] at h
    rw [List.flatMap_cons, List.cons_append, List.cons_append, octetLength_cons (by decide),
      List.append_assoc, octetLength_append h.1, ih h.2, List.map_cons, separatedLength]
    simp only [Bool.false_eq_true, if_false]
    omega

theorem octetLength_bracket {parts : List JsString} (h : ∀ part ∈ parts, WellFormed part)
    {first last : CodeUnit} (hfirst : first.val < 0x80) (hlast : last.val < 0x80) :
    octetLength (bracket first last parts) = separatedLength true (parts.map octetLength) + 2 := by
  rw [bracket, List.cons_append, octetLength_cons hfirst]
  cases parts with
  | nil =>
    have hend : octetLength [last] = 1 := octetLength_cons hlast []
    exact congrArg (· + 1) hend
  | cons part parts =>
    rw [List.forall_mem_cons] at h
    rw [separated, List.append_assoc, octetLength_append h.1, octetLength_parts h.2 hlast,
      List.map_cons, separatedLength]
    simp only [if_true]
    omega

theorem octetLength_arr (items : List (Json N)) :
    octetLength (Json.arr items).render =
      separatedLength true (items.map fun v => octetLength v.render) + 2 := by
  rw [render_arr, octetLength_bracket _ (by decide) (by decide), List.map_map]
  · rfl
  · intro part hpart
    obtain ⟨v, -, rfl⟩ := List.mem_map.mp hpart
    exact render_wellFormed v

theorem octetLength_obj_parts (fields : List (JsString × Json N)) :
    octetLength (Json.obj fields).render = separatedLength true
      (fields.map fun f => octetLength (quote f.1) + 1 + octetLength f.2.render) + 2 := by
  rw [render_obj, octetLength_bracket _ (by decide) (by decide), List.map_map]
  · congr 3
    funext f
    show octetLength (quote f.1 ++ 0x3A :: f.2.render) = _
    rw [octetLength_append (quote_wellFormed f.1), octetLength_cons (by decide)]
    omega
  · intro part hpart
    obtain ⟨f, -, rfl⟩ := List.mem_map.mp hpart
    have hvalue : WellFormed (0x3A :: f.2.render) := (render_wellFormed f.2).cons (by decide)
    exact (quote_wellFormed f.1).append hvalue

theorem octetLength_num (n : N) :
    octetLength (Json.num n).render = (JsonNumber.text n).length :=
  octetLength_ascii fun u hu =>
    (isNumberUnit_bounds (isNumberLiteral_units (JsonNumber.text_isNumberLiteral n) u hu)).2

-- ============================================================================
-- Bounds
-- ============================================================================

mutual

/-- A bound for the octets of a text that only looks at how long the strings are. -/
def lengthBound : Json N → Nat
  | .null => 4
  | .bool _ => 5
  | .num n => (JsonNumber.text n).length
  | .str s => s.length * 6 + 2
  | .arr items => lengthBoundItems items + 2
  | .obj fields => lengthBoundFields fields + 2
termination_by structural v => v

def lengthBoundItems : List (Json N) → Nat
  | [] => 0
  | v :: items => v.lengthBound + 1 + lengthBoundItems items
termination_by structural items => items

def lengthBoundFields : List (JsString × Json N) → Nat
  | [] => 0
  | (k, v) :: fields => k.length * 6 + v.lengthBound + 4 + lengthBoundFields fields
termination_by structural fields => fields
end

/-- The bound of a member with a separator. -/
def memberBound (f : JsString × Json N) : Nat := f.1.length * 6 + f.2.lengthBound + 4

theorem lengthBoundFields_eq (fields : List (JsString × Json N)) :
    lengthBoundFields fields = (fields.map memberBound).sum := by
  induction fields with
  | nil => rfl
  | cons f fields ih =>
    rw [List.map_cons, List.sum_cons, ← ih]
    rfl

theorem lengthBoundItems_eq (items : List (Json N)) :
    lengthBoundItems items = (items.map fun v => v.lengthBound + 1).sum := by
  induction items with
  | nil => rfl
  | cons v items ih =>
    rw [List.map_cons, List.sum_cons, ← ih]
    rfl

theorem separatedLength_le (first : Bool) (lengths : List Nat) :
    separatedLength first lengths ≤ (lengths.map (· + 1)).sum := by
  induction lengths generalizing first with
  | nil => exact Nat.zero_le _
  | cons n lengths ih =>
    have hrest := ih false
    rw [separatedLength, List.map_cons, List.sum_cons]
    split_ifs
    · omega
    · omega

theorem memberLength_le {f : JsString × Json N} (h : octetLength f.2.render ≤ f.2.lengthBound) :
    memberLength f ≤ memberBound f := by
  have hkey := octetLength_quote_le f.1
  rw [memberLength, memberBound]
  omega

theorem octetLength_render_le (v : Json N) : octetLength v.render ≤ v.lengthBound := by
  induction v using Json.ind with
  | null => exact le_refl 4
  | bool b =>
    cases b with
    | false => exact le_refl 5
    | true => exact Nat.le_succ 4
  | num n => exact (octetLength_num n).le
  | str s => exact octetLength_quote_le s
  | arr items ih =>
    have hsum : ((items.map fun v => octetLength v.render).map (· + 1)).sum ≤
        lengthBoundItems items := by
      rw [lengthBoundItems_eq, List.map_map]
      apply List.sum_le_sum
      intro v hv
      exact Nat.add_le_add_right (ih v hv) 1
    have hparts := separatedLength_le true (items.map fun v => octetLength v.render)
    rw [octetLength_arr, lengthBound]
    omega
  | obj fields ih =>
    have hsum : (fields.map memberLength).sum ≤ lengthBoundFields fields := by
      rw [lengthBoundFields_eq]
      apply List.sum_le_sum
      exact fun f hf => memberLength_le (ih f hf)
    cases fields with
    | nil => exact le_refl 2
    | cons f fields =>
      rw [octetLength_obj (List.cons_ne_nil f fields), lengthBound]
      omega

end Json

-- ============================================================================
-- Decimal texts
-- ============================================================================

/-- A format that writes every natural number up to the largest safe integer in decimal. -/
class DecimalNumber (N : Type) [JsonNumber N] : Prop where
  text_ofNat : ∀ n, n ≤ maxSafeInteger → JsonNumber.text (JsonNumber.ofNat n : N) = decimal n

instance : DecimalNumber Int where
  text_ofNat := fun _ _ => rfl

theorem length_decimal (n : Nat) : (decimal n).length = Nat.log 10 n + 1 := by
  unfold decimal
  split_ifs with h
  · subst h
    rfl
  · rw [List.length_map, List.length_reverse, Nat.length_digits 10 n (by decide) h]

theorem length_decimal_pos (n : Nat) : 0 < (decimal n).length := by
  rw [length_decimal]
  exact Nat.succ_pos _

theorem length_decimal_le {n k : Nat} (h : n < 10 ^ (k + 1)) : (decimal n).length ≤ k + 1 := by
  rw [length_decimal]
  exact Nat.succ_le_succ (Nat.le_of_lt_succ (Nat.log_lt_of_lt_pow' (by omega) h))

/-- A length that counts its own digits: after three estimates, each from the one before,
    the number of digits no longer changes. -/
theorem length_decimal_estimate (base : Nat) :
    (decimal (base + (decimal (base + (decimal (base + 1)).length)).length)).length =
      (decimal (base + (decimal (base + 1)).length)).length := by
  let first := base + 1
  let k := Nat.log 10 first
  have hlow : 10 ^ k ≤ first := Nat.pow_log_le_self 10 (Nat.succ_ne_zero base)
  have hhigh : first < 10 ^ (k + 1) := Nat.lt_pow_succ_log_self (by decide) first
  have hroom : k + 1 < 10 ^ (k + 1) := Nat.lt_pow_self (by decide)
  have hpow : 10 ^ (k + 2) = 10 * 10 ^ (k + 1) := pow_succ' 10 (k + 1)
  have hsecond : base + (decimal first).length = first + k := by
    rw [length_decimal]
    omega
  show (decimal (base + (decimal (base + (decimal first).length)).length)).length =
    (decimal (base + (decimal first).length)).length
  rw [hsecond]
  by_cases hcarry : first + k < 10 ^ (k + 1)
  · -- the second estimate has as many digits as the first, and is the length
    have hlog : Nat.log 10 (first + k) = k := Nat.log_eq_of_pow_le_of_lt_pow (by omega) hcarry
    rw [length_decimal (first + k), hlog, show base + (k + 1) = first + k by omega,
      length_decimal, hlog]
  · -- it has one digit more, and the third estimate no other
    have hlog : Nat.log 10 (first + k) = k + 1 :=
      Nat.log_eq_of_pow_le_of_lt_pow (by omega) (by omega)
    rw [length_decimal (first + k), hlog, show base + (k + 1 + 1) = first + k + 1 by omega,
      length_decimal, Nat.log_eq_of_pow_le_of_lt_pow (m := k + 1) (by omega) (by omega)]

end PiRlm.Lib

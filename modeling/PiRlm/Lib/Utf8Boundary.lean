/-
  PiRlm.Lib.Utf8Boundary

  The boundaries between the characters of UTF-8 octets.

  `scalars` is a string as the encoder sees it, `encode` its octets.  A boundary is the
  length of the octets of some of the first characters; the octets themselves tell it, since
  only the first octet of a character is no continuation.  The scans of a slice move an index
  to the boundary before or after it.
-/
import PiRlm.Lib.Utf16

namespace PiRlm.Lib

-- ============================================================================
-- Scalar values
-- ============================================================================

/-- A code point that UTF-8 can encode. -/
def IsScalar (c : Nat) : Prop := c < 0x110000 ∧ isSurrogate c = false

/-- The scalar values of a string: U+FFFD in place of each lone surrogate. -/
def scalars (s : JsString) : List Nat :=
  (codePoints s).map fun c => if isSurrogate c then replacement else c

/-- `String.fromCodePoint(...cs)`. -/
def fromScalars (cs : List Nat) : JsString := cs.flatMap utf16

def encode (cs : List Nat) : List Byte := cs.flatMap encodeScalar

theorem utf8_eq_encode (s : JsString) : utf8 s = encode (scalars s) := by
  rw [encode, scalars, List.flatMap_map]
  rfl

theorem isScalar_scalars (s : JsString) : ∀ c ∈ scalars s, IsScalar c := by
  intro c hc
  obtain ⟨d, hd, rfl⟩ := List.mem_map.mp hc
  have hlt := codePoints_lt s d hd
  split
  · exact ⟨by decide, by decide⟩
  · rename_i hsurrogate
    exact ⟨hlt, Bool.not_eq_true _ ▸ hsurrogate⟩

/-- A scalar value in front of a string is its first code point. -/
theorem codePoints_utf16 {c : Nat} (h : IsScalar c) (s : JsString) :
    codePoints (utf16 c ++ s) = c :: codePoints s := by
  obtain ⟨hlt, hsurrogate⟩ := h
  by_cases hsmall : c < 0x10000
  · have hval : (Fin.ofNat 65536 c).val = c := Nat.mod_eq_of_lt hsmall
    rw [utf16, if_pos hsmall, List.singleton_append, codePoints_cons (by rw [hval, hsurrogate]),
      hval]
  · rw [utf16, if_neg hsmall]
    have hhighVal : (Fin.ofNat 65536 (0xD800 + (c - 0x10000) / 0x400)).val =
        0xD800 + (c - 0x10000) / 0x400 := Nat.mod_eq_of_lt (by omega)
    have hlowVal : (Fin.ofNat 65536 (0xDC00 + (c - 0x10000) % 0x400)).val =
        0xDC00 + (c - 0x10000) % 0x400 := Nat.mod_eq_of_lt (by omega)
    generalize Fin.ofNat 65536 (0xD800 + (c - 0x10000) / 0x400) = high at hhighVal ⊢
    generalize Fin.ofNat 65536 (0xDC00 + (c - 0x10000) % 0x400) = low at hlowVal ⊢
    have hhigh : isHighSurrogate high = true := by
      rw [isHighSurrogate, decide_eq_true_eq]
      omega
    have hlow : isLowSurrogate low = true := by
      rw [isLowSurrogate, decide_eq_true_eq]
      omega
    have hpair : pairCodePoint high low = c := by
      unfold pairCodePoint
      omega
    show codePoints (high :: low :: s) = _
    rw [codePoints, hhigh, hlow, Bool.and_self, if_pos rfl, hpair]

theorem codePoints_fromScalars {cs : List Nat} (h : ∀ c ∈ cs, IsScalar c) :
    codePoints (fromScalars cs) = cs := by
  induction cs with
  | nil => rfl
  | cons c cs ih =>
    rw [List.forall_mem_cons] at h
    show codePoints (utf16 c ++ fromScalars cs) = _
    rw [codePoints_utf16 h.1, ih h.2]

/-- The string of scalar values has these scalar values. -/
theorem scalars_fromScalars {cs : List Nat} (h : ∀ c ∈ cs, IsScalar c) :
    scalars (fromScalars cs) = cs := by
  rw [scalars, codePoints_fromScalars h]
  conv_rhs => rw [← List.map_id cs]
  refine List.map_congr_left fun c hc => ?_
  rw [(h c hc).2]
  rfl

@[simp] theorem encode_nil : encode [] = [] := rfl

theorem encode_cons (c : Nat) (cs : List Nat) : encode (c :: cs) = encodeScalar c ++ encode cs :=
  rfl

theorem encode_append (cs ds : List Nat) : encode (cs ++ ds) = encode cs ++ encode ds :=
  List.flatMap_append

theorem length_encodeScalar_pos (c : Nat) : 0 < (encodeScalar c).length :=
  List.length_pos_iff.mpr (encodeScalar_ne_nil c)

-- ============================================================================
-- Continuations
-- ============================================================================

/-- `(byte & 0xc0) === 0x80`. -/
def isContinuation (b : Byte) : Bool := b.val &&& 0xC0 == 0x80

/-- The octet at an index is a continuation; there is none past the end. -/
def continuesAt (bytes : List Byte) (i : Nat) : Bool := (bytes[i]?.map isContinuation).getD false

theorem isContinuation_eq (b : Byte) : isContinuation b = decide (0x80 ≤ b.val ∧ b.val < 0xC0) := by
  revert b
  decide +kernel

theorem isContinuation_ofNat {n : Nat} (hle : 0x80 ≤ n) (hlt : n < 0xC0) :
    isContinuation (Fin.ofNat 256 n) = true := by
  have hval : (Fin.ofNat 256 n).val = n := Nat.mod_eq_of_lt (by omega)
  rw [isContinuation_eq, hval]
  exact decide_eq_true ⟨hle, hlt⟩

theorem isContinuation_lead {n : Nat} (h : n < 0x80 ∨ 0xC0 ≤ n) (hlt : n < 256) :
    isContinuation (Fin.ofNat 256 n) = false := by
  have hval : (Fin.ofNat 256 n).val = n := Nat.mod_eq_of_lt hlt
  rw [isContinuation_eq, hval]
  exact decide_eq_false (by omega)

/-- One octet leads a character and the others continue it. -/
theorem encodeScalar_eq_cons {c : Nat} (h : c < 0x110000) :
    ∃ lead rest, encodeScalar c = lead :: rest ∧ isContinuation lead = false ∧
      ∀ b ∈ rest, isContinuation b = true := by
  rw [encodeScalar]
  split_ifs with h1 h2 h3
  · exact ⟨_, _, rfl, isContinuation_lead (.inl h1) (by omega), List.forall_mem_nil _⟩
  · refine ⟨_, _, rfl, isContinuation_lead (.inr (by omega)) (by omega), ?_⟩
    simp only [List.forall_mem_cons]
    exact ⟨isContinuation_ofNat (by omega) (by omega), List.forall_mem_nil _⟩
  · refine ⟨_, _, rfl, isContinuation_lead (.inr (by omega)) (by omega), ?_⟩
    simp only [List.forall_mem_cons]
    exact ⟨isContinuation_ofNat (by omega) (by omega),
      isContinuation_ofNat (by omega) (by omega), List.forall_mem_nil _⟩
  · refine ⟨_, _, rfl, isContinuation_lead (.inr (by omega)) (by omega), ?_⟩
    simp only [List.forall_mem_cons]
    exact ⟨isContinuation_ofNat (by omega) (by omega), isContinuation_ofNat (by omega) (by omega),
      isContinuation_ofNat (by omega) (by omega), List.forall_mem_nil _⟩

-- ============================================================================
-- Boundaries
-- ============================================================================

/-- The index lies between two characters, or at an end. -/
def Boundary (cs : List Nat) (i : Nat) : Prop :=
  ∃ before after, cs = before ++ after ∧ (encode before).length = i

theorem boundary_zero (cs : List Nat) : Boundary cs 0 := ⟨[], cs, rfl, rfl⟩

theorem boundary_length (cs : List Nat) : Boundary cs (encode cs).length :=
  ⟨cs, [], (List.append_nil cs).symm, rfl⟩

theorem Boundary.le {cs : List Nat} {i : Nat} (h : Boundary cs i) : i ≤ (encode cs).length := by
  obtain ⟨before, after, rfl, rfl⟩ := h
  rw [encode_append, List.length_append]
  exact Nat.le_add_right _ _

/-- Where the first character does not end the index, it only shifts it. -/
theorem boundary_cons {c : Nat} {cs : List Nat} {i : Nat} :
    Boundary (c :: cs) i ↔ i = 0 ∨ ∃ j, i = (encodeScalar c).length + j ∧ Boundary cs j := by
  constructor
  · rintro ⟨before, after, hcs, rfl⟩
    cases before with
    | nil => exact .inl rfl
    | cons d before =>
      obtain ⟨rfl, htail⟩ := List.cons.inj hcs
      refine .inr ⟨(encode before).length, ?_, before, after, htail, rfl⟩
      rw [encode_cons, List.length_append]
  · rintro (rfl | ⟨j, rfl, before, after, rfl, rfl⟩)
    · exact boundary_zero _
    · refine ⟨c :: before, after, rfl, ?_⟩
      rw [encode_cons, List.length_append]

/-- The octets tell the boundaries: they are where no continuation is. -/
theorem boundary_iff {cs : List Nat} (h : ∀ c ∈ cs, IsScalar c) {i : Nat} :
    Boundary cs i ↔ i ≤ (encode cs).length ∧ continuesAt (encode cs) i = false := by
  induction cs generalizing i with
  | nil =>
    constructor
    · rintro hboundary
      exact ⟨hboundary.le, rfl⟩
    · rintro ⟨hle, -⟩
      obtain rfl : i = 0 := Nat.le_zero.mp hle
      exact boundary_zero []
  | cons c cs ih =>
    rw [List.forall_mem_cons] at h
    obtain ⟨lead, rest, hc, hlead, hrest⟩ := encodeScalar_eq_cons h.1.1
    rw [boundary_cons, encode_cons, hc, List.length_append]
    rcases Nat.lt_or_ge i (lead :: rest).length with hinside | hpast
    · have hat : continuesAt ((lead :: rest) ++ encode cs) i =
          ((lead :: rest)[i]?.map isContinuation).getD false := by
        rw [continuesAt, List.getElem?_append_left hinside]
      rw [hat]
      cases i with
      | zero => simpa using hlead
      | succ i =>
        -- inside the character
        have hlt : i < rest.length := Nat.lt_of_succ_lt_succ hinside
        have hcontinues := hrest rest[i] (List.getElem_mem hlt)
        rw [List.getElem?_cons_succ, List.getElem?_eq_getElem hlt]
        constructor
        · rintro (hzero | ⟨j, hj, -⟩)
          · exact absurd hzero (Nat.succ_ne_zero i)
          · omega
        · rintro ⟨-, hnot⟩
          exact absurd (hcontinues.symm.trans hnot) nofun
    · obtain ⟨j, rfl⟩ := Nat.exists_eq_add_of_le hpast
      have hat : continuesAt ((lead :: rest) ++ encode cs) ((lead :: rest).length + j) =
          continuesAt (encode cs) j := by
        rw [continuesAt, List.getElem?_append_right (Nat.le_add_right _ _), Nat.add_sub_cancel_left]
        rfl
      rw [hat, Nat.add_le_add_iff_left, ← ih h.2]
      constructor
      · rintro (hzero | ⟨k, hk, hboundary⟩)
        · rw [List.length_cons] at hzero
          omega
        · exact Nat.add_left_cancel hk ▸ hboundary
      · exact fun hboundary => .inr ⟨j, rfl, hboundary⟩

/-- The octets of a slice between two boundaries. -/
theorem Boundary.split {cs : List Nat} {i : Nat} (h : Boundary cs i) :
    ∃ before after, cs = before ++ after ∧ (encode before).length = i ∧
      (encode cs).take i = encode before ∧ (encode cs).drop i = encode after := by
  obtain ⟨before, after, rfl, rfl⟩ := h
  refine ⟨before, after, rfl, rfl, ?_, ?_⟩
  · rw [encode_append, List.take_left]
  · rw [encode_append, List.drop_left]

/-- After a boundary inside the octets, the next one is at most four octets away. -/
theorem Boundary.next {cs : List Nat} {i : Nat} (h : Boundary cs i) (hlt : i < (encode cs).length) :
    ∃ j, i < j ∧ j ≤ i + 4 ∧ Boundary cs j := by
  obtain ⟨before, after, rfl, rfl⟩ := h
  cases after with
  | nil =>
    rw [List.append_nil] at hlt
    exact absurd hlt (lt_irrefl _)
  | cons c after =>
    refine ⟨(encode (before ++ [c])).length, ?_, ?_, before ++ [c], after, ?_, rfl⟩
    · rw [encode_append, List.length_append, encode_cons, encode_nil, List.append_nil]
      have := length_encodeScalar_pos c
      omega
    · rw [encode_append, List.length_append, encode_cons, encode_nil, List.append_nil]
      have := length_encodeScalar_le c
      omega
    · rw [List.append_assoc]
      rfl

/-- An ASCII octet is a character of its own. -/
theorem boundary_succ {cs : List Nat} (h : ∀ c ∈ cs, IsScalar c) {i : Nat} {b : Byte}
    (hget : (encode cs)[i]? = some b) (hascii : b.val < 0x80) : Boundary cs (i + 1) := by
  have hlt := (List.getElem?_eq_some_iff.mp hget).1
  have hlead : isContinuation b = false := by
    rw [isContinuation_eq]
    exact decide_eq_false (by omega)
  have hboundary : Boundary cs i := by
    refine (boundary_iff h).mpr ⟨hlt.le, ?_⟩
    rw [continuesAt, hget]
    exact hlead
  obtain ⟨before, after, rfl, rfl⟩ := hboundary
  cases after with
  | nil =>
    rw [List.append_nil] at hlt
    exact absurd hlt (lt_irrefl _)
  | cons c after =>
    have hc : IsScalar c := h c (List.mem_append_right _ List.mem_cons_self)
    obtain ⟨lead, rest, hencode, -, -⟩ := encodeScalar_eq_cons hc.1
    rw [encode_append, encode_cons, hencode, List.getElem?_append_right (le_refl _), Nat.sub_self] at hget
    obtain rfl : lead = b := Option.some.inj hget
    obtain ⟨-, hsmall⟩ := encodeScalar_ascii hc.1 (hencode ▸ List.mem_cons_self) hascii
    refine ⟨before ++ [c], after, by rw [List.append_assoc]; rfl, ?_⟩
    rw [encode_append, List.length_append, encode_cons, encode_nil, List.append_nil, encodeScalar,
      if_pos hsmall]
    rfl

-- ============================================================================
-- Scans
-- ============================================================================

/-- The last index up to `i` that is no continuation, or `0`. -/
def scanBack (bytes : List Byte) : Nat → Nat
  | 0 => 0
  | i + 1 => if continuesAt bytes (i + 1) then scanBack bytes i else i + 1

/-- The first index from `i` on that is no continuation; the list holds the octets from `i` on. -/
def scanAhead : List Byte → Nat → Nat
  | [], i => i
  | b :: rest, i => if isContinuation b then scanAhead rest (i + 1) else i

section Scans

variable {cs : List Nat} {i j : Nat}

theorem scanBack_le (bytes : List Byte) (i : Nat) : scanBack bytes i ≤ i := by
  induction i with
  | zero => exact le_refl 0
  | succ i ih =>
    rw [scanBack]
    split
    · exact Nat.le_succ_of_le ih
    · exact le_refl _

theorem scanBack_boundary (h : ∀ c ∈ cs, IsScalar c) (hi : i ≤ (encode cs).length) :
    Boundary cs (scanBack (encode cs) i) := by
  induction i with
  | zero => exact boundary_zero cs
  | succ i ih =>
    rw [scanBack]
    split
    · exact ih (Nat.le_of_succ_le hi)
    · rename_i hstop
      exact (boundary_iff h).mpr ⟨hi, Bool.not_eq_true _ ▸ hstop⟩

/-- No boundary lies between the result and the index. -/
theorem Boundary.le_scanBack (h : ∀ c ∈ cs, IsScalar c) (hj : Boundary cs j) (hle : j ≤ i) :
    j ≤ scanBack (encode cs) i := by
  induction i with
  | zero => exact hle
  | succ i ih =>
    rw [scanBack]
    split
    · rename_i hcontinues
      refine ih (Nat.le_of_lt_succ (lt_of_le_of_ne hle ?_))
      rintro rfl
      exact absurd (hcontinues.symm.trans ((boundary_iff h).mp hj).2) nofun
    · exact hle

/-- The scan passes no more than the continuations of one character. -/
theorem lt_scanBack_add (h : ∀ c ∈ cs, IsScalar c) (hi : i ≤ (encode cs).length) :
    i < scanBack (encode cs) i + 4 := by
  by_contra hfar
  have hlt : scanBack (encode cs) i < (encode cs).length := by omega
  obtain ⟨j, hj, hjle, hnext⟩ := (scanBack_boundary h hi).next hlt
  have := hnext.le_scanBack h (i := i) (by omega)
  omega

theorem le_scanAhead (bytes : List Byte) (i : Nat) : i ≤ scanAhead bytes i := by
  induction bytes generalizing i with
  | nil => exact le_refl i
  | cons b bytes ih =>
    rw [scanAhead]
    split
    · exact (Nat.le_succ i).trans (ih (i + 1))
    · exact le_refl i

theorem scanAhead_boundary (h : ∀ c ∈ cs, IsScalar c) (hi : i ≤ (encode cs).length) :
    Boundary cs (scanAhead ((encode cs).drop i) i) := by
  generalize hrest : (encode cs).drop i = rest
  induction rest generalizing i with
  | nil =>
    have : i = (encode cs).length := le_antisymm hi (List.drop_eq_nil_iff.mp hrest)
    exact this ▸ boundary_length cs
  | cons b rest ih =>
    have hlt : i < (encode cs).length := by
      by_contra hge
      rw [List.drop_eq_nil_of_le (not_lt.mp hge)] at hrest
      exact absurd hrest nofun
    rw [List.drop_eq_getElem_cons hlt] at hrest
    obtain ⟨rfl, htail⟩ := List.cons.inj hrest
    rw [scanAhead]
    split
    · exact ih hlt htail
    · rename_i hstop
      refine (boundary_iff h).mpr ⟨hi, ?_⟩
      rw [continuesAt, List.getElem?_eq_getElem hlt]
      exact Bool.not_eq_true _ ▸ hstop

/-- No boundary lies between the index and the result. -/
theorem Boundary.scanAhead_le (h : ∀ c ∈ cs, IsScalar c) (hj : Boundary cs j) (hle : i ≤ j) :
    scanAhead ((encode cs).drop i) i ≤ j := by
  generalize hrest : (encode cs).drop i = rest
  induction rest generalizing i with
  | nil => exact hle
  | cons b rest ih =>
    rw [scanAhead]
    split
    · rename_i hcontinues
      have hlt : i < (encode cs).length := by
        by_contra hge
        rw [List.drop_eq_nil_of_le (not_lt.mp hge)] at hrest
        exact absurd hrest nofun
      rw [List.drop_eq_getElem_cons hlt] at hrest
      obtain ⟨rfl, htail⟩ := List.cons.inj hrest
      refine ih (lt_of_le_of_ne hle ?_) htail
      rintro rfl
      have hnot := ((boundary_iff h).mp hj).2
      rw [continuesAt, List.getElem?_eq_getElem hlt] at hnot
      exact absurd (hcontinues.symm.trans hnot) nofun
    · exact hle

end Scans

-- ============================================================================
-- The text decoder
-- ============================================================================

/-- U+FEFF, which a text decoder drops at the start. -/
def byteOrderMark : Nat := 0xFEFF

def dropMark : List Nat → List Nat
  | [] => []
  | c :: cs => if c = byteOrderMark then cs else c :: cs

/-- `new TextDecoder("utf-8", { fatal: false }).decode(bytes)`. -/
def utf8DecodeText (bytes : List Byte) : JsString :=
  fromScalars (dropMark ((decodeScalars bytes).map fun c => c.getD replacement))

theorem utf8DecodeText_encode {cs : List Nat} (h : ∀ c ∈ cs, IsScalar c) :
    utf8DecodeText (encode cs) = fromScalars (dropMark cs) := by
  have hcs : (cs.map some).map (fun c => c.getD replacement) = cs := by
    rw [List.map_map]
    exact List.map_id cs
  rw [utf8DecodeText, encode, decodeScalars_flatMap (fun c hc => (h c hc).1) (fun c hc => (h c hc).2),
    hcs]

theorem dropMark_mark (cs : List Nat) : dropMark (byteOrderMark :: cs) = cs := by
  rw [dropMark, if_pos rfl]

theorem dropMark_of_ne {cs : List Nat} (h : cs.head? ≠ some byteOrderMark) : dropMark cs = cs := by
  cases cs with
  | nil => rfl
  | cons c cs => exact if_neg fun hc => h (congrArg some hc)

theorem dropMark_subset (cs : List Nat) : dropMark cs ⊆ cs := by
  cases cs with
  | nil => exact List.Subset.refl []
  | cons c cs =>
    rw [dropMark]
    split
    · exact List.subset_cons_self c cs
    · exact List.Subset.refl _

end PiRlm.Lib

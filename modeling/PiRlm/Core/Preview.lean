/-
  PiRlm.Core.Preview

  Truncation to a number of UTF-8 bytes, and the previews made of it: `core/preview.ts`.

  The code points of a text are its scalar values, U+FFFD for an unpaired surrogate.  What
  the truncations keep is the longest head and the longest tail within the budget, except
  that the decoder drops a byte order mark they start with.
-/
import PiRlm.Lib.Decimal
import PiRlm.Lib.Utf8Boundary

namespace PiRlm.Core

open PiRlm.Lib

-- ============================================================================
-- Truncation
-- ============================================================================

def byteLength (text : JsString) : Nat := (utf8 text).length

def truncateUtf8 (text : JsString) (maxBytes : Int) : JsString :=
  if maxBytes ≤ 0 then []
  else
    let bytes := utf8 text
    if (bytes.length : Int) ≤ maxBytes then text
    else utf8DecodeText (bytes.take (scanBack bytes maxBytes.toNat))

def truncateUtf8Tail (text : JsString) (maxBytes : Int) : JsString :=
  if maxBytes ≤ 0 then []
  else
    let bytes := utf8 text
    if (bytes.length : Int) ≤ maxBytes then text
    else
      let start := bytes.length - maxBytes.toNat
      utf8DecodeText (bytes.drop (scanAhead (bytes.drop start) start))

-- ============================================================================
-- Previews
-- ============================================================================

structure Preview where
  text : JsString
  truncated : Bool
  originalBytes : Nat
  omittedBytes : Int
  deriving Repr, DecidableEq

structure HeadTailOptions where
  headBytes : Int
  tailBytes : Int
  separator : Option JsString := none
  deriving Repr, DecidableEq

/-- `options.separator ?? "\n... [${omittedBytes} bytes omitted] ...\n"`. -/
def HeadTailOptions.separatorText (options : HeadTailOptions) (omittedBytes : Int) : JsString :=
  options.separator.getD
    (js "\n... [" ++ intText omittedBytes ++ js " bytes omitted] ...\n")

def headTailPreview (text : JsString) (options : HeadTailOptions) : Preview :=
  let originalBytes := byteLength text
  let budget := max 0 options.headBytes + max 0 options.tailBytes
  if (originalBytes : Int) ≤ budget then
    { text, truncated := false, originalBytes, omittedBytes := 0 }
  else
    let head := truncateUtf8 text options.headBytes
    let tail := truncateUtf8Tail text options.tailBytes
    let keptBytes := byteLength head + byteLength tail
    let omittedBytes := (originalBytes : Int) - keptBytes
    { text := head ++ options.separatorText omittedBytes ++ tail, truncated := true,
      originalBytes, omittedBytes }

def headPreview (text : JsString) (maxBytes : Int) : Preview :=
  let originalBytes := byteLength text
  if (originalBytes : Int) ≤ maxBytes then
    { text, truncated := false, originalBytes, omittedBytes := 0 }
  else
    let head := truncateUtf8 text maxBytes
    { text := head, truncated := true, originalBytes,
      omittedBytes := (originalBytes : Int) - byteLength head }

-- ============================================================================
-- What a preview is to keep
-- ============================================================================

/-- The longest prefix of the text, in code points, that fits the budget; a negative budget
    is an empty one. -/
structure HeadOf (text head : JsString) (maxBytes : Int) : Prop where
  fits : (byteLength head : Int) ≤ max 0 maxBytes
  longest : ∃ rest, scalars text = scalars head ++ rest ∧
    ∀ c ∈ rest.head?, maxBytes < byteLength head + (encodeScalar c).length

/-- The longest suffix. -/
structure TailOf (text tail : JsString) (maxBytes : Int) : Prop where
  fits : (byteLength tail : Int) ≤ max 0 maxBytes
  longest : ∃ rest, scalars text = rest ++ scalars tail ∧
    ∀ c ∈ rest.getLast?, maxBytes < (encodeScalar c).length + byteLength tail

/-- The head and the tail of a truncated preview. -/
structure HeadTailOf (text : JsString) (options : HeadTailOptions) (preview : Preview)
    (head tail : JsString) : Prop where
  text_eq : preview.text = head ++ options.separatorText preview.omittedBytes ++ tail
  headOf : HeadOf text head options.headBytes
  tailOf : TailOf text tail options.tailBytes
  disjoint : ∃ middle, scalars text = scalars head ++ middle ++ scalars tail
  originalBytes : preview.originalBytes = byteLength text
  accounted : (preview.originalBytes : Int) =
    byteLength head + preview.omittedBytes + byteLength tail

/-- A head of the text that starts with a byte order mark fits, and the text does not. -/
def MarkOpensHead (text : JsString) (maxBytes : Int) : Prop :=
  (scalars text).head? = some byteOrderMark ∧
    ((encodeScalar byteOrderMark).length : Int) ≤ maxBytes ∧ maxBytes < byteLength text

/-- The longest tail that fits starts with a byte order mark, and the text does not fit. -/
def MarkOpensTail (text : JsString) (maxBytes : Int) : Prop :=
  maxBytes < byteLength text ∧ ∃ before after, scalars text = before ++ byteOrderMark :: after ∧
    ((encode (byteOrderMark :: after)).length : Int) ≤ maxBytes ∧
    ∀ c ∈ before.getLast?,
      maxBytes < (encodeScalar c).length + (encode (byteOrderMark :: after)).length

-- ============================================================================
-- The characters kept
-- ============================================================================

section Kept

variable {text : JsString} {maxBytes : Int}

theorem byteLength_eq (text : JsString) : byteLength text = (encode (scalars text)).length :=
  congrArg List.length (utf8_eq_encode text)

theorem byteLength_fromScalars {cs : List Nat} (h : ∀ c ∈ cs, IsScalar c) :
    byteLength (fromScalars cs) = (encode cs).length := by
  rw [byteLength_eq, scalars_fromScalars h]

/-- Of a text that is too long, the head is decoded from the longest prefix that fits. -/
theorem truncateUtf8_eq (hlong : maxBytes < byteLength text) :
    ∃ before after, scalars text = before ++ after ∧
      ((encode before).length : Int) ≤ max 0 maxBytes ∧
      (∀ c ∈ after.head?, maxBytes < (encode before).length + (encodeScalar c).length) ∧
      truncateUtf8 text maxBytes = fromScalars (dropMark before) := by
  have hscalars := isScalar_scalars text
  rw [byteLength_eq] at hlong
  by_cases hempty : maxBytes ≤ 0
  · refine ⟨[], scalars text, rfl, le_max_left 0 maxBytes, fun c _ => ?_, if_pos hempty⟩
    have := length_encodeScalar_pos c
    rw [encode_nil, List.length_nil]
    omega
  · obtain ⟨n, rfl⟩ := Int.eq_ofNat_of_zero_le (not_le.mp hempty).le
    have hn : n ≤ (encode (scalars text)).length := by omega
    obtain ⟨before, after, hsplit, hlength, htake, -⟩ := (scanBack_boundary hscalars hn).split
    refine ⟨before, after, hsplit, ?_, ?_, ?_⟩
    · have := scanBack_le (encode (scalars text)) n
      omega
    · -- one more character would end at a boundary that the scan has passed
      intro c hc
      obtain ⟨after, rfl⟩ : ∃ rest, after = c :: rest := List.head?_eq_some_iff.mp hc
      have hnext : Boundary (scalars text) (encode (before ++ [c])).length :=
        ⟨before ++ [c], after, by rw [hsplit, List.append_assoc]; rfl, rfl⟩
      have hsingle : (encode [c]).length = (encodeScalar c).length := by
        rw [encode_cons, encode_nil, List.append_nil]
      rw [encode_append, List.length_append, hsingle] at hnext
      by_contra hfits
      have hle := hnext.le_scanBack hscalars (i := n) (by omega)
      have := length_encodeScalar_pos c
      omega
    · have hkept : ∀ c ∈ before, IsScalar c := fun c hc =>
        hscalars c (hsplit ▸ List.mem_append_left after hc)
      rw [truncateUtf8, if_neg hempty, utf8_eq_encode]
      show (if ((encode (scalars text)).length : Int) ≤ n then text else _) = _
      rw [if_neg (by omega), Int.toNat_natCast, htake, utf8DecodeText_encode hkept]

/-- So is the tail, from the longest suffix. -/
theorem truncateUtf8Tail_eq (hlong : maxBytes < byteLength text) :
    ∃ before after, scalars text = before ++ after ∧
      ((encode after).length : Int) ≤ max 0 maxBytes ∧
      (∀ c ∈ before.getLast?, maxBytes < (encodeScalar c).length + (encode after).length) ∧
      truncateUtf8Tail text maxBytes = fromScalars (dropMark after) := by
  have hscalars := isScalar_scalars text
  rw [byteLength_eq] at hlong
  by_cases hempty : maxBytes ≤ 0
  · refine ⟨scalars text, [], (List.append_nil _).symm, le_max_left 0 maxBytes, fun c _ => ?_,
      if_pos hempty⟩
    have := length_encodeScalar_pos c
    rw [encode_nil, List.length_nil]
    omega
  · obtain ⟨n, rfl⟩ := Int.eq_ofNat_of_zero_le (not_le.mp hempty).le
    let start := (encode (scalars text)).length - n
    have hstart : start ≤ (encode (scalars text)).length := Nat.sub_le _ _
    obtain ⟨before, after, hsplit, hlength, -, hdrop⟩ := (scanAhead_boundary hscalars hstart).split
    have htotal : (encode (scalars text)).length = (encode before).length + (encode after).length := by
      rw [hsplit, encode_append, List.length_append]
    refine ⟨before, after, hsplit, ?_, ?_, ?_⟩
    · have := le_scanAhead ((encode (scalars text)).drop start) start
      omega
    · intro c hc
      obtain ⟨before, rfl⟩ : ∃ front, before = front ++ [c] := List.getLast?_eq_some_iff.mp hc
      have hprevious : Boundary (scalars text) (encode before).length :=
        ⟨before, c :: after, by rw [hsplit, List.append_assoc]; rfl, rfl⟩
      have hsingle : (encode (before ++ [c])).length =
          (encode before).length + (encodeScalar c).length := by
        rw [encode_append, List.length_append, encode_cons, encode_nil, List.append_nil]
      by_contra hfits
      have hle := hprevious.scanAhead_le hscalars (i := start) (by omega)
      have := length_encodeScalar_pos c
      omega
    · have hkept : ∀ c ∈ after, IsScalar c := fun c hc =>
        hscalars c (hsplit ▸ List.mem_append_right before hc)
      rw [truncateUtf8Tail, if_neg hempty, utf8_eq_encode]
      show (if ((encode (scalars text)).length : Int) ≤ n then text else _) = _
      rw [if_neg (by omega), Int.toNat_natCast]
      show utf8DecodeText ((encode (scalars text)).drop
        (scanAhead ((encode (scalars text)).drop start) start)) = _
      rw [hdrop, utf8DecodeText_encode hkept]

end Kept

-- ============================================================================
-- The byte order mark
-- ============================================================================

section Mark

variable {text : JsString} {maxBytes : Int} {before after : List Nat}

/-- Without the mark at its start, a longest prefix is one no more: it is too short, or no
    prefix. -/
theorem headOf_dropMark_iff (hscalars : ∀ c ∈ before, IsScalar c)
    (hsplit : scalars text = before ++ after)
    (hfits : ((encode before).length : Int) ≤ max 0 maxBytes)
    (hlongest : ∀ c ∈ after.head?, maxBytes < (encode before).length + (encodeScalar c).length) :
    HeadOf text (fromScalars (dropMark before)) maxBytes ↔ before.head? ≠ some byteOrderMark := by
  have hkept : ∀ c ∈ dropMark before, IsScalar c := fun c hc =>
    hscalars c (dropMark_subset before hc)
  constructor
  · rintro ⟨-, rest, hrest, hmax⟩ hmark
    obtain ⟨behind, rfl⟩ : ∃ rest, before = byteOrderMark :: rest := List.head?_eq_some_iff.mp hmark
    rw [dropMark_mark] at hrest hmax hkept
    rw [scalars_fromScalars hkept, hsplit] at hrest
    rw [byteLength_fromScalars hkept] at hmax
    cases rest with
    | nil =>
      have := congrArg List.length hrest
      simp only [List.length_append, List.length_cons, List.length_nil] at this
      omega
    | cons c rest =>
      -- the prefix with one more character is as long as the one with the mark
      have hsame : byteOrderMark :: behind = behind ++ [c] := by
        have happend : byteOrderMark :: behind ++ after = behind ++ [c] ++ rest := by
          rw [hrest, List.append_assoc]
          rfl
        refine List.append_inj_left happend ?_
        rw [List.length_append]
        rfl
      have hlength := congrArg (fun cs => (encode cs).length) hsame
      simp only [encode_append, List.length_append, encode_cons, encode_nil, List.length_nil] at hlength
      have hnext := hmax c rfl
      rw [encode_cons, List.length_append] at hfits
      have := length_encodeScalar_pos c
      omega
  · intro hmark
    rw [dropMark_of_ne hmark]
    refine ⟨?_, after, ?_, ?_⟩
    · rwa [byteLength_fromScalars hscalars]
    · rwa [scalars_fromScalars hscalars]
    · rwa [byteLength_fromScalars hscalars]

theorem tailOf_dropMark_iff (hscalars : ∀ c ∈ after, IsScalar c)
    (hsplit : scalars text = before ++ after)
    (hfits : ((encode after).length : Int) ≤ max 0 maxBytes)
    (hlongest : ∀ c ∈ before.getLast?, maxBytes < (encodeScalar c).length + (encode after).length) :
    TailOf text (fromScalars (dropMark after)) maxBytes ↔ after.head? ≠ some byteOrderMark := by
  have hkept : ∀ c ∈ dropMark after, IsScalar c := fun c hc =>
    hscalars c (dropMark_subset after hc)
  constructor
  · rintro ⟨-, rest, hrest, hmax⟩ hmark
    obtain ⟨behind, rfl⟩ : ∃ rest, after = byteOrderMark :: rest := List.head?_eq_some_iff.mp hmark
    rw [dropMark_mark] at hrest hmax hkept
    rw [scalars_fromScalars hkept, hsplit] at hrest
    rw [byteLength_fromScalars hkept] at hmax
    have hfront : before ++ [byteOrderMark] = rest := by
      have : before ++ [byteOrderMark] ++ behind = rest ++ behind := by
        rw [← hrest, List.append_assoc]
        rfl
      exact List.append_cancel_right this
    have hnext := hmax byteOrderMark (by rw [← hfront, List.getLast?_concat]; rfl)
    rw [encode_cons, List.length_append] at hfits
    have := length_encodeScalar_pos byteOrderMark
    omega
  · intro hmark
    rw [dropMark_of_ne hmark]
    refine ⟨?_, before, ?_, ?_⟩
    · rwa [byteLength_fromScalars hscalars]
    · rwa [scalars_fromScalars hscalars]
    · rwa [byteLength_fromScalars hscalars]

/-- There is one longest suffix that fits. -/
theorem longest_suffix_subset {before after before' after' : List Nat}
    (hsplit : before ++ after = before' ++ after')
    (hfits : ((encode after).length : Int) ≤ max 0 maxBytes)
    (hlongest : ∀ c ∈ before'.getLast?,
      maxBytes < (encodeScalar c).length + (encode after').length) : after <:+ after' := by
  rcases List.append_eq_append_iff.mp hsplit with ⟨between, rfl, rfl⟩ | ⟨between, rfl, rfl⟩
  · -- the second is the shorter one
    rcases List.eq_nil_or_concat' between with rfl | ⟨front, c, rfl⟩
    · exact List.suffix_rfl
    · have hnext := hlongest c (by rw [← List.append_assoc, List.getLast?_concat]; rfl)
      rw [encode_append, List.length_append, encode_append, List.length_append, encode_cons,
        encode_nil, List.append_nil] at hfits
      have := length_encodeScalar_pos c
      omega
  · exact List.suffix_append between after

theorem headOf_truncateUtf8 (text : JsString) (maxBytes : Int) :
    HeadOf text (truncateUtf8 text maxBytes) maxBytes ↔ ¬ MarkOpensHead text maxBytes := by
  rcases lt_or_ge maxBytes (byteLength text : Int) with hlong | hshort
  · obtain ⟨before, after, hsplit, hfits, hlongest, heq⟩ := truncateUtf8_eq hlong
    have hscalars : ∀ c ∈ before, IsScalar c := fun c hc =>
      isScalar_scalars text c (hsplit ▸ List.mem_append_left after hc)
    rw [heq, headOf_dropMark_iff hscalars hsplit hfits hlongest, not_iff_not]
    constructor
    · intro hmark
      obtain ⟨behind, rfl⟩ : ∃ rest, before = byteOrderMark :: rest :=
        List.head?_eq_some_iff.mp hmark
      refine ⟨by rw [hsplit]; rfl, ?_, hlong⟩
      rw [encode_cons, List.length_append] at hfits
      have := length_encodeScalar_pos byteOrderMark
      omega
    · rintro ⟨hmark, hbudget, -⟩
      cases before with
      | nil =>
        have hnext := hlongest byteOrderMark (by rwa [hsplit] at hmark)
        rw [encode_nil, List.length_nil] at hnext
        omega
      | cons c before =>
        rwa [hsplit] at hmark
  · -- the text itself
    have hwhole : HeadOf text text maxBytes :=
      ⟨by omega, [], (List.append_nil _).symm, nofun⟩
    refine iff_of_true ?_ fun hmark => absurd hmark.2.2 (not_lt.mpr hshort)
    rw [truncateUtf8]
    split
    · have hnone : byteLength text = 0 := by omega
      refine ⟨le_max_left 0 maxBytes, scalars text, rfl, fun c _ => ?_⟩
      have := length_encodeScalar_pos c
      show maxBytes < ((0 : Nat) : Int) + _
      omega
    · show HeadOf text (if (byteLength text : Int) ≤ maxBytes then text else _) maxBytes
      rwa [if_pos hshort]

theorem tailOf_truncateUtf8Tail (text : JsString) (maxBytes : Int) :
    TailOf text (truncateUtf8Tail text maxBytes) maxBytes ↔ ¬ MarkOpensTail text maxBytes := by
  rcases lt_or_ge maxBytes (byteLength text : Int) with hlong | hshort
  · obtain ⟨before, after, hsplit, hfits, hlongest, heq⟩ := truncateUtf8Tail_eq hlong
    have hscalars : ∀ c ∈ after, IsScalar c := fun c hc =>
      isScalar_scalars text c (hsplit ▸ List.mem_append_right before hc)
    rw [heq, tailOf_dropMark_iff hscalars hsplit hfits hlongest, not_iff_not]
    constructor
    · intro hmark
      obtain ⟨behind, rfl⟩ : ∃ rest, after = byteOrderMark :: rest :=
        List.head?_eq_some_iff.mp hmark
      refine ⟨hlong, before, behind, hsplit, ?_, hlongest⟩
      rw [encode_cons, List.length_append] at hfits ⊢
      have := length_encodeScalar_pos byteOrderMark
      omega
    · rintro ⟨-, before', after', hsplit', hfits', hlongest'⟩
      have hsame := hsplit.symm.trans hsplit'
      have hle := (longest_suffix_subset hsame hfits hlongest').length_le
      have hge := longest_suffix_subset hsame.symm (hfits'.trans (le_max_right 0 maxBytes)) hlongest
      rw [← hge.eq_of_length (le_antisymm hge.length_le hle)]
      rfl
  · have hwhole : TailOf text text maxBytes := ⟨by omega, [], rfl, nofun⟩
    refine iff_of_true ?_ fun hmark => absurd hmark.1 (not_lt.mpr hshort)
    rw [truncateUtf8Tail]
    split
    · have hnone : byteLength text = 0 := by omega
      refine ⟨le_max_left 0 maxBytes, scalars text, (List.append_nil _).symm, fun c _ => ?_⟩
      have := length_encodeScalar_pos c
      show maxBytes < _ + ((0 : Nat) : Int)
      omega
    · show TailOf text (if (byteLength text : Int) ≤ maxBytes then text else _) maxBytes
      rwa [if_pos hshort]

end Mark

-- ============================================================================
-- Faithful previews
-- ============================================================================

/-- A truncated preview that keeps the head alone. -/
structure HeadPreviewOf (text : JsString) (maxBytes : Int) (preview : Preview) : Prop where
  headOf : HeadOf text preview.text maxBytes
  originalBytes : preview.originalBytes = byteLength text
  accounted : (preview.originalBytes : Int) = byteLength preview.text + preview.omittedBytes

section Faithful

variable {text head tail : JsString} {options : HeadTailOptions} {maxBytes : Int}

/-- A head and a tail whose budgets do not hold the text leave something between them. -/
theorem HeadOf.disjoint (hhead : HeadOf text head options.headBytes)
    (htail : TailOf text tail options.tailBytes)
    (hlong : max 0 options.headBytes + max 0 options.tailBytes < (byteLength text : Int)) :
    ∃ middle, scalars text = scalars head ++ middle ++ scalars tail := by
  obtain ⟨rest, hrest, -⟩ := hhead.longest
  obtain ⟨rest', hrest', -⟩ := htail.longest
  rcases List.append_eq_append_iff.mp (hrest.symm.trans hrest') with
    ⟨middle, -, hmiddle⟩ | ⟨overlap, -, hoverlap⟩
  · refine ⟨middle, ?_⟩
    rw [hrest, hmiddle, List.append_assoc]
  · have hfits := hhead.fits
    have hfits' := htail.fits
    rw [byteLength_eq] at hfits hfits' hlong
    rw [hrest, encode_append, List.length_append] at hlong
    rw [hoverlap, encode_append, List.length_append] at hfits'
    omega

theorem headTailPreview_truncated (h : (headTailPreview text options).truncated = true) :
    max 0 options.headBytes + max 0 options.tailBytes < (byteLength text : Int) := by
  by_contra hshort
  rw [headTailPreview, if_pos (not_lt.mp hshort)] at h
  exact absurd h nofun

theorem headPreview_truncated (h : (headPreview text maxBytes).truncated = true) :
    maxBytes < (byteLength text : Int) := by
  by_contra hshort
  rw [headPreview, if_pos (not_lt.mp hshort)] at h
  exact absurd h nofun

theorem headTailOf_iff (h : (headTailPreview text options).truncated = true) :
    HeadTailOf text options (headTailPreview text options) (truncateUtf8 text options.headBytes)
        (truncateUtf8Tail text options.tailBytes) ↔
      ¬ MarkOpensHead text options.headBytes ∧ ¬ MarkOpensTail text options.tailBytes := by
  have hlong := headTailPreview_truncated h
  constructor
  · intro hpreview
    exact ⟨(headOf_truncateUtf8 text _).mp hpreview.headOf,
      (tailOf_truncateUtf8Tail text _).mp hpreview.tailOf⟩
  · rintro ⟨hhead, htail⟩
    have hheadOf := (headOf_truncateUtf8 text _).mpr hhead
    have htailOf := (tailOf_truncateUtf8Tail text _).mpr htail
    rw [headTailPreview, if_neg (not_le.mpr hlong)]
    exact
      { text_eq := rfl
        headOf := hheadOf
        tailOf := htailOf
        disjoint := hheadOf.disjoint htailOf hlong
        originalBytes := rfl
        accounted := by
          dsimp only
          omega }

theorem headPreviewOf_iff (h : (headPreview text maxBytes).truncated = true) :
    HeadPreviewOf text maxBytes (headPreview text maxBytes) ↔ ¬ MarkOpensHead text maxBytes := by
  rw [← headOf_truncateUtf8, headPreview, if_neg (not_le.mpr (headPreview_truncated h))]
  constructor
  · exact HeadPreviewOf.headOf
  · intro hhead
    refine ⟨hhead, rfl, ?_⟩
    dsimp only
    omega

/-- What the truncations keep is what they say unless it starts with a byte order mark. -/
theorem previews_faithful_iff (text : JsString) (options : HeadTailOptions) (maxBytes : Int) :
    ((headTailPreview text options).truncated = true →
      (HeadTailOf text options (headTailPreview text options)
          (truncateUtf8 text options.headBytes) (truncateUtf8Tail text options.tailBytes) ↔
        ¬ MarkOpensHead text options.headBytes ∧ ¬ MarkOpensTail text options.tailBytes)) ∧
    (HeadOf text (truncateUtf8 text maxBytes) maxBytes ↔ ¬ MarkOpensHead text maxBytes) ∧
    (TailOf text (truncateUtf8Tail text maxBytes) maxBytes ↔ ¬ MarkOpensTail text maxBytes) ∧
    ((headPreview text maxBytes).truncated = true →
      (HeadPreviewOf text maxBytes (headPreview text maxBytes) ↔
        ¬ MarkOpensHead text maxBytes)) :=
  ⟨headTailOf_iff, headOf_truncateUtf8 text maxBytes, tailOf_truncateUtf8Tail text maxBytes,
    headPreviewOf_iff⟩

/-- A byte order mark and ten digits. -/
def markedText : JsString := fromScalars [byteOrderMark] ++ js "0123456789"

/-- The head of five bytes loses the mark. -/
theorem headTailPreview_marked :
    let options : HeadTailOptions := { headBytes := 5, tailBytes := 2 }
    let preview := headTailPreview markedText options
    preview.text = js "01\n... [9 bytes omitted] ...\n89" ∧ preview.truncated = true ∧
      ¬ HeadTailOf markedText options preview (truncateUtf8 markedText options.headBytes)
        (truncateUtf8Tail markedText options.tailBytes) := by
  intro options preview
  have htruncated : preview.truncated = true := by decide +kernel
  refine ⟨by decide +kernel, htruncated, fun hpreview => ?_⟩
  refine ((headTailOf_iff htruncated).mp hpreview).1 ⟨by decide +kernel, ?_, ?_⟩
  · show ((encodeScalar byteOrderMark).length : Int) ≤ 5
    decide
  · show (5 : Int) < byteLength markedText
    decide +kernel

end Faithful

end PiRlm.Core

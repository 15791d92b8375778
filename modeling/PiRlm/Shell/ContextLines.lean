/-
  PiRlm.Shell.ContextLines

  Line windows of the context store against the lines of the text.

  The loops of `lines` are followed byte by byte on the lines of the stored bytes, which are
  the encoded lines of the text.  Two windows come out differently: the decoder drops a byte
  order mark at the start, and a CR at the end of the text is taken for half a delimiter.
-/
import PiRlm.Lib.Lines
import PiRlm.Shell.ContextStore
import PiRlm.Core.Preview

namespace PiRlm.Shell

open PiRlm.Lib PiRlm.Core

-- ============================================================================
-- Scans for a line feed
-- ============================================================================

section Find

variable {value : Byte} {bytes : List Byte}

theorem findFrom_of_not_mem (h : value ∉ bytes) (i : Nat) : findFrom value bytes i = none := by
  induction bytes generalizing i with
  | nil => rfl
  | cons b bytes ih =>
    rw [List.mem_cons, not_or] at h
    rw [findFrom, if_neg (Ne.symm h.1), ih h.2]

theorem findFrom_append {front : List Byte} (h : value ∉ front) (rest : List Byte) (i : Nat) :
    findFrom value (front ++ value :: rest) i = some (i + front.length) := by
  induction front generalizing i with
  | nil => exact if_pos rfl
  | cons b front ih =>
    rw [List.mem_cons, not_or] at h
    rw [List.cons_append, findFrom, if_neg (Ne.symm h.1), ih h.2, List.length_cons]
    exact congrArg some (by omega)

/-- A search up to the end only sees the bytes from its start on. -/
theorem findByte_length (bytes : List Byte) (start : Nat) :
    findByte bytes value start bytes.length = findFrom value (bytes.drop start) start := by
  rw [findByte, List.take_length]

end Find

-- ============================================================================
-- The loops over the lines
-- ============================================================================

def byteLines (bytes : List Byte) : List (Line Byte) :=
  splitLines newlineByte carriageReturn bytes

theorem byteLines_of_not_mem {bytes : List Byte} (h : newlineByte ∉ bytes) :
    byteLines bytes = [⟨bytes, []⟩] := splitLines_of_not_mem h

theorem byteLines_append {front : List Byte} (h : newlineByte ∉ front) (rest : List Byte) :
    byteLines (front ++ newlineByte :: rest) =
      endedLine newlineByte carriageReturn front :: byteLines rest := splitLines_append h rest

theorem byteLines_length_pos (bytes : List Byte) : 0 < (byteLines bytes).length :=
  List.length_pos_iff.mpr (splitLines_ne_nil bytes)

section Loops

variable {bytes : List Byte}

theorem drop_next {start : Nat} {front rest : List Byte}
    (h : bytes.drop start = front ++ newlineByte :: rest) :
    bytes.drop (start + front.length + 1) = rest := by
  rw [Nat.add_assoc, ← List.drop_drop, h, List.drop_append, List.drop_eq_nil_of_le (Nat.le_succ _),
    Nat.add_sub_cancel_left]
  rfl

/-- Skipping lines ends at the start of the next one, if there is one. -/
theorem seekLine_eq (bytes : List Byte) (k start : Nat) :
    ContextStore.seekLine bytes k start =
      if k < (byteLines (bytes.drop start)).length then
        some (start + (((byteLines (bytes.drop start)).take k).flatMap Line.whole).length)
      else none := by
  induction k generalizing start with
  | zero => exact (if_pos (byteLines_length_pos _)).symm
  | succ k ih =>
    rw [ContextStore.seekLine, findByte_length]
    by_cases hmem : newlineByte ∈ bytes.drop start
    · obtain ⟨front, rest, hsplit, hfront⟩ := List.eq_append_cons_of_mem hmem
      rw [hsplit, findFrom_append hfront]
      show ContextStore.seekLine bytes k (start + front.length + 1) = _
      rw [ih, drop_next hsplit, byteLines_append hfront, List.length_cons, List.take_succ_cons,
        List.flatMap_cons, endedLine_whole, List.length_append, List.length_append]
      simp only [Nat.add_lt_add_iff_right]
      split
      · exact congrArg some (by rw [List.length_singleton]; omega)
      · rfl
    · rw [findFrom_of_not_mem hmem, byteLines_of_not_mem hmem]
      exact (if_neg (by rw [List.length_singleton]; omega)).symm

/-- The octet before the end of some octets that follow a start. -/
theorem getElem?_before_end {start : Nat} {front rest : List Byte} (h : bytes.drop start = front ++ rest) :
    start < start + front.length ∧ bytes[start + front.length - 1]? = some carriageReturn ↔
      front.getLast? = some carriageReturn := by
  rcases List.eq_nil_or_concat' front with rfl | ⟨init, b, rfl⟩
  · exact iff_of_false (fun h => absurd h.1 (lt_irrefl start)) nofun
  · have hindex : start + (init ++ [b]).length - 1 = start + init.length := by
      rw [List.length_append, List.length_singleton]
      omega
    have hget : bytes[start + init.length]? = some b := by
      rw [← List.getElem?_drop, h, List.append_assoc, List.getElem?_append_right (le_refl _),
        Nat.sub_self]
      rfl
    rw [hindex, hget, List.getLast?_concat]
    refine and_iff_right ?_
    rw [List.length_append, List.length_singleton]
    omega

/-- The end of a line without its delimiter; what a lone CR at the end of the text loses. -/
theorem lineEnd_eq {start : Nat} {front rest : List Byte} (h : bytes.drop start = front ++ rest) :
    ContextStore.lineEnd bytes start (start + front.length) =
      if front.getLast? = some carriageReturn then start + front.dropLast.length
      else start + front.length := by
  rw [ContextStore.lineEnd]
  by_cases hcr : front.getLast? = some carriageReturn
  · rw [if_pos hcr, if_pos ((getElem?_before_end h).mpr hcr)]
    obtain ⟨init, rfl⟩ := List.getLast?_eq_some_iff.mp hcr
    rw [List.dropLast_concat, List.length_append, List.length_singleton]
    omega
  · rw [if_neg hcr, if_neg fun h' => hcr ((getElem?_before_end h).mp h')]

theorem length_endedLine_content (front : List Byte) :
    (endedLine newlineByte carriageReturn front).content.length =
      if front.getLast? = some carriageReturn then front.dropLast.length else front.length := by
  rw [endedLine]
  split <;> rfl

/-- The CR that a window of `count` lines loses at the end of the text. -/
def lostReturn (bytes : List Byte) (count : Nat) : Nat :=
  if (byteLines bytes).length ≤ count ∧ bytes.getLast? = some carriageReturn then 1 else 0

theorem lostReturn_append {front rest : List Byte} (h : newlineByte ∉ front) (count : Nat) :
    lostReturn (front ++ newlineByte :: rest) (count + 1) = lostReturn rest count := by
  have hlast : (front ++ newlineByte :: rest).getLast? = some carriageReturn ↔
      rest.getLast? = some carriageReturn := by
    rw [List.getLast?_append_of_ne_nil _ (List.cons_ne_nil _ _)]
    cases rest with
    | nil => exact iff_of_false (by decide) nofun
    | cons b rest => rw [List.getLast?_cons_cons]
  rw [lostReturn, lostReturn, byteLines_append h, List.length_cons]
  simp only [hlast, Nat.add_le_add_iff_right]

/-- The end of the last line, which a window of more lines reaches. -/
theorem lastLine_eq {lineStart : Nat} (hle : lineStart ≤ bytes.length)
    (hmem : newlineByte ∉ bytes.drop lineStart) (more : Nat) :
    ContextStore.lineEnd bytes lineStart bytes.length +
          lostReturn (bytes.drop lineStart) (more + 1) = lineStart +
        (windowText ((byteLines (bytes.drop lineStart)).take (more + 1))).length ∧
      false = decide (more + 1 < (byteLines (bytes.drop lineStart)).length) := by
  have hwhole : bytes.drop lineStart = bytes.drop lineStart ++ [] := (List.append_nil _).symm
  have hlength : lineStart + (bytes.drop lineStart).length = bytes.length := by
    rw [List.length_drop]
    omega
  have hend := lineEnd_eq hwhole
  rw [hlength] at hend
  rw [hend, lostReturn, byteLines_of_not_mem hmem]
  refine ⟨?_, ?_⟩
  · rw [List.take_of_length_le (Nat.succ_le_succ (Nat.zero_le more))]
    show _ = lineStart + (bytes.drop lineStart).length
    by_cases hcr : (bytes.drop lineStart).getLast? = some carriageReturn
    · rw [if_pos hcr, if_pos ⟨Nat.succ_le_succ (Nat.zero_le more), hcr⟩, List.length_dropLast]
      have := List.length_pos_of_mem (List.mem_of_getLast? hcr)
      omega
    · rw [if_neg hcr, if_neg fun h => hcr h.2]
      omega
  · exact (decide_eq_false (by rw [List.length_singleton]; omega)).symm

/-- A selection that does not throw has passed the checks of its first line. -/
theorem selectLines_passed {limits : ContextStoreLimits} {startByte more lineNumber lineStart : Nat}
    {result : Nat × Bool} :
    ContextStore.selectLines limits bytes startByte more lineNumber lineStart = .ok result →
    match findFrom newlineByte (bytes.drop lineStart) lineStart, more with
    | none, _ => result = (ContextStore.lineEnd bytes lineStart bytes.length, false)
    | some newline, 0 => result = (ContextStore.lineEnd bytes lineStart newline, true)
    | some newline, more + 1 =>
      ContextStore.selectLines limits bytes startByte more (lineNumber + 1) (newline + 1) =
        .ok result := by
  intro h
  rw [ContextStore.selectLines.eq_def, findByte_length] at h
  generalize findFrom newlineByte (bytes.drop lineStart) lineStart = newline at h ⊢
  dsimp only at h
  split at h
  · exact absurd h nofun
  split at h
  · exact absurd h nofun
  cases newline with
  | none => exact (Except.ok.inj h).symm
  | some newline =>
    cases more with
    | zero => exact (Except.ok.inj h).symm
    | succ more => exact h

/-- Where the selection of lines ends. -/
theorem selectLines_eq_ok {limits : ContextStoreLimits} {startByte more lineNumber lineStart : Nat}
    {result : Nat × Bool} (hle : lineStart ≤ bytes.length)
    (h : ContextStore.selectLines limits bytes startByte more lineNumber lineStart = .ok result) :
    result.1 + lostReturn (bytes.drop lineStart) (more + 1) = lineStart +
        (windowText ((byteLines (bytes.drop lineStart)).take (more + 1))).length ∧
      result.2 = decide (more + 1 < (byteLines (bytes.drop lineStart)).length) := by
  induction more generalizing lineNumber lineStart with
  | zero =>
    have hpassed := selectLines_passed h
    by_cases hmem : newlineByte ∈ bytes.drop lineStart
    · obtain ⟨front, rest, hsplit, hfront⟩ := List.eq_append_cons_of_mem hmem
      rw [hsplit, findFrom_append hfront] at hpassed
      obtain rfl := hpassed
      have hnone : lostReturn rest 0 = 0 := by
        rw [lostReturn, if_neg]
        have := byteLines_length_pos rest
        omega
      rw [hsplit, lostReturn_append hfront, hnone, byteLines_append hfront, lineEnd_eq hsplit]
      refine ⟨?_, ?_⟩
      · show _ = lineStart + (endedLine newlineByte carriageReturn front).content.length
        rw [length_endedLine_content]
        split <;> rfl
      · exact (decide_eq_true (Nat.succ_lt_succ (byteLines_length_pos rest))).symm
    · rw [findFrom_of_not_mem hmem] at hpassed
      obtain rfl := hpassed
      exact lastLine_eq hle hmem 0
  | succ more ih =>
    have hpassed := selectLines_passed h
    by_cases hmem : newlineByte ∈ bytes.drop lineStart
    · obtain ⟨front, rest, hsplit, hfront⟩ := List.eq_append_cons_of_mem hmem
      rw [hsplit, findFrom_append hfront] at hpassed
      have hnext : lineStart + front.length + 1 ≤ bytes.length := by
        have := congrArg List.length hsplit
        rw [List.length_drop, List.length_append, List.length_cons] at this
        omega
      obtain ⟨hend, hmore⟩ := ih hnext hpassed
      rw [drop_next hsplit] at hend hmore
      have hne : (byteLines rest).take (more + 1) ≠ [] := by
        have := byteLines_length_pos rest
        rw [← List.length_pos_iff, List.length_take]
        omega
      rw [hsplit, lostReturn_append hfront, byteLines_append hfront, List.take_succ_cons,
        windowText_cons hne, endedLine_whole, List.length_append, List.length_append,
        List.length_singleton, List.length_cons]
      refine ⟨by omega, ?_⟩
      rw [hmore, decide_eq_decide]
      omega
    · rw [findFrom_of_not_mem hmem] at hpassed
      obtain rfl := hpassed
      exact lastLine_eq hle hmem (more + 1)

end Loops

-- ============================================================================
-- Lines of text
-- ============================================================================

/-- The lines of a text, in code points. -/
def documentLines (text : JsString) : List (Line Nat) := splitLines 0x0A 0x0D (scalars text)

/-- The window of `count` lines from the 1-based `startLine` on. -/
def lineWindow (text : JsString) (startLine count : Nat) : List (Line Nat) :=
  ((documentLines text).drop (startLine - 1)).take count

/-- What a read of a line window is to return. -/
structure LinesOf (text : JsString) (startLine count : Nat) (read : ContextRead) : Prop where
  text_eq : read.text = fromScalars (windowText (lineWindow text startLine count))
  startByte_eq : read.startByte =
    (encode (((documentLines text).take (startLine - 1)).flatMap Line.whole)).length
  endByte_eq : read.endByte =
    read.startByte + (encode (windowText (lineWindow text startLine count))).length
  truncated_iff : read.truncated = true ↔ startLine - 1 + count < (documentLines text).length
  length_eq : byteLength read.text = read.endByte - read.startByte
  past : (documentLines text).length < startLine →
    read = ⟨[], byteLength text, byteLength text, false⟩

/-- The window starts with a byte order mark. -/
def MarkOpensWindow (text : JsString) (startLine count : Nat) : Prop :=
  (windowText (lineWindow text startLine count)).head? = some byteOrderMark

/-- The window reaches the last line of the text, and ends in a CR. -/
def ReturnEndsWindow (text : JsString) (startLine count : Nat) : Prop :=
  (windowText (lineWindow text startLine count)).getLast? = some 0x0D ∧
    (documentLines text).length ≤ startLine - 1 + count

instance (text : JsString) (startLine count : Nat) :
    Decidable (ReturnEndsWindow text startLine count) :=
  inferInstanceAs (Decidable (_ ∧ _))

theorem keepsLines_encodeScalar :
    KeepsLines encodeScalar IsScalar 0x0A 0x0D newlineByte carriageReturn where
  lf_eq := by decide
  cr_eq := by decide
  lf_not_mem c hc hne hmem := hne (encodeScalar_ascii hc.1 hmem (by decide)).1.symm
  cr_not_mem c hc hne hmem := hne (encodeScalar_ascii hc.1 hmem (by decide)).1.symm
  ne_nil := encodeScalar_ne_nil

theorem byteLines_utf8 (text : JsString) :
    byteLines (utf8 text) = (documentLines text).map (Line.encode encodeScalar) := by
  rw [utf8_eq_encode]
  exact keepsLines_encodeScalar.splitLines_flatMap (isScalar_scalars text)

theorem isScalar_windowText {text : JsString} {n m : Nat} :
    ∀ c ∈ windowText (((documentLines text).drop n).take m), IsScalar c := by
  intro c hc
  have hlines : (documentLines text).flatMap Line.whole = scalars text := flatMap_whole_splitLines _
  refine isScalar_scalars text c ?_
  rw [← hlines]
  obtain ⟨line, hline, hmem⟩ := List.mem_flatMap.mp ((windowText_initial _).subset hc)
  refine List.mem_flatMap.mpr ⟨line, ?_, hmem⟩
  exact List.drop_subset _ _ (List.take_subset _ _ hline)

section Lines

variable {store : ContextStore} {id : JsString} {entry : Entry} {startLine count : Int}
  {read : ContextRead}

theorem boundedInteger_eq_ok {value : Int} {name : JsString} {min max n : Nat}
    (h : boundedInteger value name min max = .ok n) : value = n ∧ min ≤ n ∧ n ≤ max := by
  rw [boundedInteger] at h
  split at h
  · exact absurd h nofun
  · obtain rfl := Except.ok.inj h
    omega

/-- A read of lines that does not throw: past the end, or a selection. -/
theorem lines_eq_ok (hentry : store.entryOrThrow id = .ok entry)
    (h : store.lines id startLine count = .ok read) :
    1 ≤ startLine ∧ 1 ≤ count ∧
    ((ContextStore.seekLine entry.bytesArray (startLine.toNat - 1) 0 = none ∧
        read = ⟨[], entry.bytesArray.length, entry.bytesArray.length, false⟩) ∨
      ∃ startByte result,
        ContextStore.seekLine entry.bytesArray (startLine.toNat - 1) 0 = some startByte ∧
        ContextStore.selectLines store.limits entry.bytesArray startByte (count.toNat - 1)
          startLine.toNat startByte = .ok result ∧
        read = ⟨utf8DecodeText (subarray entry.bytesArray startByte result.1), startByte, result.1,
          result.2⟩) := by
  cases hstart : boundedInteger startLine (js "startLine") 1 maxSafeInteger with
  | error => simp [ContextStore.lines, hentry, hstart, bind, Except.bind] at h
  | ok first =>
    cases hcount : boundedInteger count (js "count") 1 store.limits.maxLines with
    | error => simp [ContextStore.lines, hentry, hstart, hcount, bind, Except.bind] at h
    | ok selected =>
      obtain ⟨rfl, hfirst, -⟩ := boundedInteger_eq_ok hstart
      obtain ⟨rfl, hselected, -⟩ := boundedInteger_eq_ok hcount
      refine ⟨by omega, by omega, ?_⟩
      simp only [ContextStore.lines, hentry, hstart, hcount, bind, Except.bind] at h
      rw [Int.toNat_natCast, Int.toNat_natCast]
      split at h
      · rename_i hseek
        exact .inl ⟨hseek, (Except.ok.inj h).symm⟩
      · rename_i startByte hseek
        split at h
        · exact absurd h nofun
        · rename_i result hselect
          exact .inr ⟨startByte, result, hseek, hselect, (Except.ok.inj h).symm⟩

/-- The text from a line on: where it starts, and its lines. -/
theorem drop_utf8 {text : JsString} {k : Nat} (h : k < (documentLines text).length) :
    let start := (((byteLines (utf8 text)).take k).flatMap Line.whole).length
    byteLines ((utf8 text).drop start) = ((documentLines text).drop k).map (Line.encode encodeScalar) := by
  intro start
  have hlines : k < (byteLines (utf8 text)).length := by
    rwa [byteLines_utf8, List.length_map]
  obtain ⟨rest, hsplit, hrest⟩ := splitLines_drop hlines
  have hdrop : (utf8 text).drop start = rest := by
    conv_lhs => rw [hsplit]
    exact List.drop_left
  rw [hdrop, List.map_drop, ← byteLines_utf8]
  exact hrest

/-- The octets before a line are those of the lines before it. -/
theorem length_take_byteLines (text : JsString) (k : Nat) :
    (((byteLines (utf8 text)).take k).flatMap Line.whole).length =
      (encode (((documentLines text).take k).flatMap Line.whole)).length := by
  rw [byteLines_utf8, ← List.map_take, flatMap_whole_encode]
  rfl

/-- Where a selection ends, and its octets. -/
theorem selection_eq {text : JsString} {limits : ContextStoreLimits} {n more lineNumber : Nat}
    {result : Nat × Bool} (hinside : n < (documentLines text).length)
    (h : ContextStore.selectLines limits (utf8 text)
      (((byteLines (utf8 text)).take n).flatMap Line.whole).length more lineNumber
      (((byteLines (utf8 text)).take n).flatMap Line.whole).length = .ok result) :
    let start := (((byteLines (utf8 text)).take n).flatMap Line.whole).length
    let window := windowText (((documentLines text).drop n).take (more + 1))
    (result.1 + (if window.getLast? = some 0x0D ∧ (documentLines text).length ≤ n + (more + 1)
        then 1 else 0) = start + (encode window).length) ∧
      result.2 = decide (n + (more + 1) < (documentLines text).length) ∧
      (utf8 text).drop start = encode window ++ ((utf8 text).drop start).drop (encode window).length := by
  intro start window
  have hlines := drop_utf8 hinside
  have hprefix := take_whole_initial (byteLines (utf8 text)) n
  have hwhole : (byteLines (utf8 text)).flatMap Line.whole = utf8 text :=
    flatMap_whole_splitLines _
  rw [hwhole] at hprefix
  obtain ⟨hend, hmore⟩ := selectLines_eq_ok hprefix.length_le h
  -- the window in octets
  have hwindow : windowText ((byteLines ((utf8 text).drop start)).take (more + 1)) = encode window := by
    rw [hlines, ← List.map_take, windowText_encode]
    rfl
  have hcount : (byteLines ((utf8 text).drop start)).length = (documentLines text).length - n := by
    rw [hlines, List.length_map, List.length_drop]
  have hlost : lostReturn ((utf8 text).drop start) (more + 1) =
      if window.getLast? = some 0x0D ∧ (documentLines text).length ≤ n + (more + 1) then 1 else 0 := by
    rw [lostReturn, hcount]
    refine if_congr ?_ rfl rfl
    by_cases hreach : (documentLines text).length ≤ n + (more + 1)
    · -- the window is all of the rest
      have hall : (utf8 text).drop start = encode window := by
        rw [← hwindow, List.take_of_length_le (by omega), byteLines, windowText_splitLines]
      have hlast : (encode window).getLast? = some carriageReturn ↔ window.getLast? = some 0x0D :=
        keepsLines_encodeScalar.getLast_eq_iff isScalar_windowText
      rw [hall, hlast]
      exact and_congr_left' (iff_of_true (by omega) hreach) |>.trans and_comm
    · exact iff_of_false (fun h => hreach (by omega)) fun h => hreach h.2
  have hrest : windowText ((byteLines ((utf8 text).drop start)).take (more + 1)) <+:
      (utf8 text).drop start := by
    refine (windowText_initial _).trans ((take_whole_initial _ _).trans ?_)
    rw [byteLines, flatMap_whole_splitLines]
  rw [hwindow, hlost] at hend
  rw [hwindow] at hrest
  refine ⟨hend, ?_, ?_⟩
  · rw [hmore, hcount, decide_eq_decide]
    omega
  · conv_lhs => rw [← List.take_append_drop (encode window).length ((utf8 text).drop start)]
    rw [← List.prefix_iff_eq_take.mp hrest]

/-- A request past the last line. -/
theorem linesOf_past {text : JsString} {n more : Nat} (hpast : (documentLines text).length ≤ n) :
    LinesOf text (n + 1) (more + 1) ⟨[], (utf8 text).length, (utf8 text).length, false⟩ ↔
      ¬ MarkOpensWindow text (n + 1) (more + 1) ∧ ¬ ReturnEndsWindow text (n + 1) (more + 1) := by
  have hwindow : lineWindow text (n + 1) (more + 1) = [] := by
    rw [lineWindow, Nat.add_sub_cancel, List.drop_eq_nil_of_le hpast, List.take_nil]
  have hstart : (utf8 text).length =
      (encode (((documentLines text).take n).flatMap Line.whole)).length := by
    rw [List.take_of_length_le hpast, documentLines, flatMap_whole_splitLines]
    exact byteLength_eq text
  refine iff_of_true ?_ ⟨?_, ?_⟩
  · exact
      { text_eq := by rw [hwindow]; rfl
        startByte_eq := hstart
        endByte_eq := by rw [hwindow]; rfl
        truncated_iff := iff_of_false nofun (by omega)
        length_eq := (Nat.sub_self _).symm
        past := fun _ => rfl }
  · rw [MarkOpensWindow, hwindow]
    exact nofun
  · rw [ReturnEndsWindow, hwindow]
    exact fun hreturn => absurd hreturn.1 nofun

/-- A request that selects lines. -/
theorem linesOf_selection {text : JsString} {n more startByte endByte : Nat}
    (hinside : n < (documentLines text).length)
    (hstart : startByte = (encode (((documentLines text).take n).flatMap Line.whole)).length)
    (hend : endByte + (if ReturnEndsWindow text (n + 1) (more + 1) then 1 else 0) =
      startByte + (encode (windowText (lineWindow text (n + 1) (more + 1)))).length)
    (hslice : (utf8 text).drop startByte = encode (windowText (lineWindow text (n + 1) (more + 1))) ++
      ((utf8 text).drop startByte).drop
        (encode (windowText (lineWindow text (n + 1) (more + 1)))).length) :
    LinesOf text (n + 1) (more + 1) ⟨utf8DecodeText (subarray (utf8 text) startByte endByte),
        startByte, endByte, decide (n + (more + 1) < (documentLines text).length)⟩ ↔
      ¬ MarkOpensWindow text (n + 1) (more + 1) ∧ ¬ ReturnEndsWindow text (n + 1) (more + 1) := by
  have hscalars : ∀ c ∈ windowText (lineWindow text (n + 1) (more + 1)), IsScalar c :=
    isScalar_windowText
  by_cases hreturn : ReturnEndsWindow text (n + 1) (more + 1)
  · -- the CR is missing at the end
    rw [if_pos hreturn] at hend
    refine iff_of_false (fun hlines => ?_) fun h => h.2 hreturn
    have hexpected := hlines.endByte_eq
    dsimp only at hexpected
    omega
  · rw [if_neg hreturn, Nat.add_zero] at hend
    have htext : utf8DecodeText (subarray (utf8 text) startByte endByte) =
        fromScalars (dropMark (windowText (lineWindow text (n + 1) (more + 1)))) := by
      rw [← utf8DecodeText_encode hscalars, subarray, hend, List.drop_take, Nat.add_sub_cancel_left,
        hslice, List.take_left]
    rw [htext, and_iff_left hreturn, MarkOpensWindow]
    constructor
    · -- a mark is missing at the start
      intro hlines hmark
      obtain ⟨behind, hwindow⟩ := List.head?_eq_some_iff.mp hmark
      have hlength := hlines.length_eq
      have hkept : ∀ c ∈ behind, IsScalar c := fun c hc =>
        hscalars c (hwindow ▸ List.mem_cons_of_mem _ hc)
      rw [hwindow, dropMark_mark] at hlength
      rw [hwindow, encode_cons, List.length_append] at hend
      dsimp only at hlength
      rw [byteLength_fromScalars hkept] at hlength
      have := length_encodeScalar_pos byteOrderMark
      omega
    · intro hmark
      rw [dropMark_of_ne hmark]
      exact
        { text_eq := rfl
          startByte_eq := hstart
          endByte_eq := hend
          truncated_iff := decide_eq_true_iff
          length_eq := by
            rw [byteLength_fromScalars hscalars]
            dsimp only
            omega
          past := fun hpast => absurd hpast (by omega) }

/-- A line window is what it should be unless it starts with a byte order mark or ends in the
    CR at the end of the text. -/
theorem lines_faithful_iff {text : JsString} (hentry : store.entryOrThrow id = .ok entry)
    (htext : entry.bytesArray = utf8 text) (h : store.lines id startLine count = .ok read) :
    LinesOf text startLine.toNat count.toNat read ↔
      ¬ MarkOpensWindow text startLine.toNat count.toNat ∧
        ¬ ReturnEndsWindow text startLine.toNat count.toNat := by
  obtain ⟨hfirst, hcount, hread⟩ := lines_eq_ok hentry h
  obtain ⟨n, hn⟩ : ∃ n, startLine.toNat = n + 1 := ⟨startLine.toNat - 1, by omega⟩
  obtain ⟨more, hm⟩ : ∃ more, count.toNat = more + 1 := ⟨count.toNat - 1, by omega⟩
  rw [htext, hn, hm] at hread
  rw [hn, hm]
  simp only [Nat.add_sub_cancel, seekLine_eq, List.drop_zero] at hread
  have hlength : (byteLines (utf8 text)).length = (documentLines text).length := by
    rw [byteLines_utf8, List.length_map]
  rw [hlength] at hread
  rcases hread with ⟨hseek, rfl⟩ | ⟨startByte, result, hseek, hselect, rfl⟩
  · have hpast : (documentLines text).length ≤ n := by
      by_contra hlt
      rw [if_pos (not_le.mp hlt)] at hseek
      exact absurd hseek nofun
    exact linesOf_past hpast
  · have hinside : n < (documentLines text).length := by
      by_contra hle
      rw [if_neg hle] at hseek
      exact absurd hseek nofun
    rw [if_pos hinside, Nat.zero_add] at hseek
    obtain rfl := Option.some.inj hseek
    obtain ⟨hend, hmore, hslice⟩ := selection_eq hinside hselect
    rw [hmore]
    exact linesOf_selection hinside (length_take_byteLines text n) hend hslice

/-- A store with one text. -/
def textStore (text : JsString) (h : (utf8 text).length ≤ maxSafeInteger) : ContextStore where
  limits := defaultContextStoreLimits
  entries := [ContextStore.prepareBytes (js "text") (js "text/plain") (utf8 text) h]

theorem textStore_entry (text : JsString) (h : (utf8 text).length ≤ maxSafeInteger) :
    (textStore text h).entryOrThrow (makeId (sha256Bytes (utf8 text))) =
      .ok (ContextStore.prepareBytes (js "text") (js "text/plain") (utf8 text) h) := by
  have hfind : (textStore text h).entries.find?
      (fun entry => entry.descriptor.id == makeId (sha256Bytes (utf8 text))) = some
        (ContextStore.prepareBytes (js "text") (js "text/plain") (utf8 text) h) :=
    List.find?_cons_of_pos (beq_self_eq_true _)
  rw [ContextStore.entryOrThrow, hfind]

/-- The second and third of four lines, with both kinds of delimiters. -/
theorem lines_mixed :
    let store := textStore (js "a\nb\r\nc\r\nd") (by decide)
    let id := makeId (sha256Bytes (utf8 (js "a\nb\r\nc\r\nd")))
    store.lines id 2 2 = .ok ⟨js "b\r\nc", 2, 6, true⟩ ∧
      (LinesOf (js "a\nb\r\nc\r\nd") 2 2 ⟨js "b\r\nc", 2, 6, true⟩ ↔
        ¬ MarkOpensWindow (js "a\nb\r\nc\r\nd") 2 2 ∧
          ¬ ReturnEndsWindow (js "a\nb\r\nc\r\nd") 2 2) := by
  intro store id
  have hentry := textStore_entry (js "a\nb\r\nc\r\nd") (by decide)
  have hlines : store.lines id 2 2 = .ok ⟨js "b\r\nc", 2, 6, true⟩ := by
    rw [ContextStore.lines, hentry]
    decide +kernel
  exact ⟨hlines, lines_faithful_iff hentry rfl hlines⟩

/-- A CR at the end of the text is lost, and so is a byte order mark at the start. -/
theorem lines_lossy :
    (∃ read, (textStore (js "a\r") (by decide)).lines (makeId (sha256Bytes (utf8 (js "a\r")))) 1 1 =
        .ok read ∧ read = ⟨js "a", 0, 1, false⟩ ∧ ¬ LinesOf (js "a\r") 1 1 read) ∧
      ∃ read, (textStore (fromScalars [byteOrderMark, 0x61]) (by decide)).lines
          (makeId (sha256Bytes (utf8 (fromScalars [byteOrderMark, 0x61])))) 1 1 = .ok read ∧
        read = ⟨js "a", 0, 4, false⟩ ∧ ¬ LinesOf (fromScalars [byteOrderMark, 0x61]) 1 1 read := by
  constructor
  · refine ⟨⟨js "a", 0, 1, false⟩, ?_, rfl, fun hlines => ?_⟩
    · rw [ContextStore.lines, textStore_entry]
      decide +kernel
    · exact absurd hlines.endByte_eq (by decide)
  · refine ⟨⟨js "a", 0, 4, false⟩, ?_, rfl, fun hlines => ?_⟩
    · rw [ContextStore.lines, textStore_entry]
      decide +kernel
    · exact absurd hlines.length_eq (by decide)

end Lines

end PiRlm.Shell

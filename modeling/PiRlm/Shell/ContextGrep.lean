/-
  PiRlm.Shell.ContextGrep

  The search of the context store against its line windows.

  `grep` reads the octets of a line up to the line feed, `lines` leaves out a CR in front of
  it.  The two agree where no line that is found, or that is at the length limit, ends in
  a CR.
-/
import PiRlm.Lib.OrderedList
import PiRlm.Shell.ContextLines

namespace PiRlm.Shell

open PiRlm.Lib PiRlm.Core ContextStore

-- ============================================================================
-- Lines as they are read
-- ============================================================================

/-- A line up to its line feed: its number, where it starts, and its octets. -/
structure RawLine where
  number : Nat
  start : Nat
  octets : List Byte
  deriving Repr, DecidableEq

namespace RawLine

variable (line : RawLine)

/-- A CR before the line feed, or at the end of the text. -/
def EndsInReturn : Prop := line.octets.getLast? = some carriageReturn

instance : Decidable line.EndsInReturn := inferInstanceAs (Decidable (_ = _))

/-- The octets that `lines` returns. -/
def stripped : List Byte :=
  if line.EndsInReturn then line.octets.dropLast else line.octets

/-- What `grep` searches. -/
def text : JsString := utf8DecodeText line.octets

/-- What `lines` returns. -/
def lineText : JsString := utf8DecodeText line.stripped

def toMatch (id : JsString) : ContextMatch where
  text := line.text
  line := line.number
  startByte := line.start
  contextId := id

theorem length_stripped_le : line.stripped.length ≤ line.octets.length := by
  rw [stripped]
  split
  · rw [List.length_dropLast]
    omega
  · exact le_rfl

end RawLine

/-- Lines with their numbers and positions. -/
def numberLines : List (List Byte) → Nat → Nat → List RawLine
  | [], _, _ => []
  | octets :: rest, number, start =>
    ⟨number, start, octets⟩ :: numberLines rest (number + 1) (start + octets.length + 1)

/-- The lines of some octets from a position on. -/
def rawLinesFrom (bytes : List Byte) (number start : Nat) : List RawLine :=
  numberLines ((bytes.drop start).splitOn newlineByte) number start

def rawLines (bytes : List Byte) : List RawLine := rawLinesFrom bytes 1 0

section Raw

variable {bytes : List Byte} {number start : Nat}

theorem splitOn_last {text : List Byte} (h : newlineByte ∉ text) :
    text.splitOn newlineByte = [text] := by
  apply List.splitOnP_eq_singleton
  intro b hb
  exact beq_eq_false_iff_ne.mpr fun heq => h (heq ▸ hb)

theorem splitOn_ended {front rest : List Byte} (h : newlineByte ∉ front) :
    (front ++ newlineByte :: rest).splitOn newlineByte = front :: rest.splitOn newlineByte := by
  apply List.splitOnP_append_cons_of_forall_mem
  · intro b hb
    exact beq_eq_false_iff_ne.mpr fun heq => h (heq ▸ hb)
  · exact beq_self_eq_true newlineByte

theorem rawLinesFrom_last (h : newlineByte ∉ bytes.drop start) :
    rawLinesFrom bytes number start = [⟨number, start, bytes.drop start⟩] := by
  rw [rawLinesFrom, splitOn_last h]
  rfl

theorem rawLinesFrom_ended {front rest : List Byte}
    (hsplit : bytes.drop start = front ++ newlineByte :: rest) (h : newlineByte ∉ front) :
    rawLinesFrom bytes number start = ⟨number, start, front⟩ ::
      rawLinesFrom bytes (number + 1) (start + front.length + 1) := by
  rw [rawLinesFrom, hsplit, splitOn_ended h, numberLines, rawLinesFrom, drop_next hsplit]

/-- A position is at a line: its octets, and the rest of the text. -/
structure At (bytes : List Byte) (line : RawLine) (tail : List Byte) : Prop where
  drop_eq : bytes.drop line.start = line.octets ++ tail
  not_mem : newlineByte ∉ line.octets
  tail_eq : tail = [] ∨ ∃ rest, tail = newlineByte :: rest

/-- The lines from a position on: how to find one, and where it is. -/
theorem rawLinesFrom_getElem {k : Nat} {line : RawLine}
    (h : (rawLinesFrom bytes number start)[k]? = some line) :
    seekLine bytes k start = some line.start ∧ line.number = number + k ∧
      ∃ tail, At bytes line tail := by
  induction k generalizing number start with
  | zero =>
    by_cases hmem : newlineByte ∈ bytes.drop start
    · obtain ⟨front, rest, hsplit, hfront⟩ := List.eq_append_cons_of_mem hmem
      rw [rawLinesFrom_ended hsplit hfront, List.getElem?_cons_zero] at h
      obtain rfl := Option.some.inj h
      exact ⟨rfl, rfl, newlineByte :: rest, hsplit, hfront, .inr ⟨rest, rfl⟩⟩
    · rw [rawLinesFrom_last hmem, List.getElem?_cons_zero] at h
      obtain rfl := Option.some.inj h
      exact ⟨rfl, rfl, [], (List.append_nil _).symm, hmem, .inl rfl⟩
  | succ k ih =>
    by_cases hmem : newlineByte ∈ bytes.drop start
    · obtain ⟨front, rest, hsplit, hfront⟩ := List.eq_append_cons_of_mem hmem
      rw [rawLinesFrom_ended hsplit hfront, List.getElem?_cons_succ] at h
      obtain ⟨hseek, hnumber, hat⟩ := ih h
      refine ⟨?_, by omega, hat⟩
      rw [seekLine, findByte_length, hsplit, findFrom_append hfront]
      exact hseek
    · rw [rawLinesFrom_last hmem, List.getElem?_cons_succ] at h
      exact absurd h (by simp)

/-- The end of the line that starts at a position. -/
theorem At.find {line : RawLine} {tail : List Byte} (h : At bytes line tail) :
    findByte bytes newlineByte line.start bytes.length =
      if tail = [] then none else some (line.start + line.octets.length) := by
  rw [findByte_length, h.drop_eq]
  rcases h.tail_eq with rfl | ⟨rest, rfl⟩
  · rw [List.append_nil, if_pos rfl]
    exact findFrom_of_not_mem h.not_mem line.start
  · rw [if_neg (List.cons_ne_nil _ _)]
    exact findFrom_append h.not_mem rest line.start

/-- The line ends where the text ends or at its line feed. -/
theorem At.stop {line : RawLine} {tail : List Byte} (h : At bytes line tail)
    (hle : line.start ≤ bytes.length) :
    (findByte bytes newlineByte line.start bytes.length).getD bytes.length =
      line.start + line.octets.length := by
  rw [h.find]
  split
  · rename_i htail
    have hlength := congrArg List.length h.drop_eq
    rw [htail, List.append_nil, List.length_drop] at hlength
    show bytes.length = _
    omega
  · rfl

theorem At.subarray_eq {line : RawLine} {tail : List Byte} (h : At bytes line tail) {n : Nat}
    (hn : n ≤ line.octets.length) :
    subarray bytes line.start (line.start + n) = line.octets.take n := by
  rw [subarray, List.drop_take, Nat.add_sub_cancel_left, h.drop_eq, List.take_append_of_le_length hn]

theorem At.lineEnd_eq {line : RawLine} {tail : List Byte} (h : At bytes line tail) :
    lineEnd bytes line.start (line.start + line.octets.length) =
      line.start + line.stripped.length := by
  rw [PiRlm.Shell.lineEnd_eq h.drop_eq, RawLine.stripped]
  by_cases hreturn : line.EndsInReturn
  · rw [if_pos hreturn]
    exact if_pos hreturn
  · rw [if_neg hreturn]
    exact if_neg hreturn

theorem stripped_eq_take (line : RawLine) :
    line.stripped = line.octets.take line.stripped.length := by
  rw [RawLine.stripped]
  split
  · rw [List.length_dropLast, ← List.dropLast_eq_take]
  · rw [List.take_length]

/-- A position of a line is within the text. -/
theorem start_le {k : Nat} {line : RawLine} (hle : start ≤ bytes.length)
    (h : (rawLinesFrom bytes number start)[k]? = some line) : line.start ≤ bytes.length := by
  induction k generalizing number start with
  | zero =>
    by_cases hmem : newlineByte ∈ bytes.drop start
    · obtain ⟨front, rest, hsplit, hfront⟩ := List.eq_append_cons_of_mem hmem
      rw [rawLinesFrom_ended hsplit hfront, List.getElem?_cons_zero] at h
      obtain rfl := Option.some.inj h
      exact hle
    · rw [rawLinesFrom_last hmem, List.getElem?_cons_zero] at h
      obtain rfl := Option.some.inj h
      exact hle
  | succ k ih =>
    by_cases hmem : newlineByte ∈ bytes.drop start
    · obtain ⟨front, rest, hsplit, hfront⟩ := List.eq_append_cons_of_mem hmem
      rw [rawLinesFrom_ended hsplit hfront, List.getElem?_cons_succ] at h
      have hlength := congrArg List.length hsplit
      rw [List.length_drop, List.length_append, List.length_cons] at hlength
      exact ih (by omega) h
    · rw [rawLinesFrom_last hmem, List.getElem?_cons_succ] at h
      exact absurd h nofun

end Raw

-- ============================================================================
-- One line of a window
-- ============================================================================

section Window

variable {store : ContextStore} {id : JsString} {entry : Entry} {line : RawLine}

theorem boundedInteger_ok {name : JsString} {min max n : Nat} (hmin : min ≤ n) (hmax : n ≤ max) :
    boundedInteger n name min max = .ok n := by
  rw [boundedInteger, if_neg (by omega), Int.toNat_natCast]

theorem boundedInteger_error {name : JsString} {min max n : Nat} (h : max < n) :
    ∃ e, boundedInteger n name min max = .error e := by
  rw [boundedInteger, if_pos (by omega)]
  exact ⟨_, rfl⟩

/-- The window of one line that a text has. -/
theorem lines_one (hentry : store.entryOrThrow id = .ok entry)
    (hline : line ∈ rawLines entry.bytesArray) (hnumber : line.number ≤ maxSafeInteger) :
    (store.limits.maxLineBytes < line.stripped.length ∧
        store.lines id line.number 1 = .error (oversizedLine store.limits line.number)) ∨
      (line.stripped.length ≤ store.limits.maxLineBytes ∧
        ∃ endByte truncated, store.lines id line.number 1 =
          .ok ⟨line.lineText, line.start, endByte, truncated⟩) := by
  obtain ⟨k, hk⟩ := List.mem_iff_getElem?.mp hline
  obtain ⟨hseek, hposition, tail, hat⟩ := rawLinesFrom_getElem hk
  have hle := start_le (Nat.zero_le _) hk
  have hfirst : line.number - 1 = k := by omega
  have hstart : boundedInteger (line.number : Int) (js "startLine") 1 maxSafeInteger =
      .ok line.number := boundedInteger_ok (by omega) hnumber
  have hcount : boundedInteger 1 (js "count") 1 store.limits.maxLines = .ok 1 :=
    boundedInteger_ok le_rfl store.limits.maxLines_pos
  have hlines : store.lines id line.number 1 =
      (selectLines store.limits entry.bytesArray line.start 0 line.number line.start).map
        fun result => ⟨utf8DecodeText (subarray entry.bytesArray line.start result.1), line.start,
          result.1, result.2⟩ := by
    simp only [ContextStore.lines, hentry, hstart, hcount, hfirst, hseek, bind, Except.bind, pure,
      Except.pure, Nat.sub_self]
    cases selectLines store.limits entry.bytesArray line.start 0 line.number line.start <;> rfl
  have hselect : selectLines store.limits entry.bytesArray line.start 0 line.number line.start =
      if store.limits.maxLineBytes < line.stripped.length then
        .error (oversizedLine store.limits line.number)
      else .ok (line.start + line.stripped.length, decide (tail ≠ [])) := by
    rw [selectLines.eq_def]
    dsimp only
    rw [hat.stop hle, hat.lineEnd_eq, Nat.add_sub_cancel_left, hat.find]
    have hread := store.limits.maxLineBytes_le
    by_cases hlong : store.limits.maxLineBytes < line.stripped.length
    · rw [if_pos hlong, if_pos hlong]
      rfl
    · rw [if_neg hlong, if_neg hlong, if_neg (by omega)]
      by_cases htail : tail = []
      · simp [htail]
      · simp [htail]
  rw [hlines, hselect]
  by_cases hlong : store.limits.maxLineBytes < line.stripped.length
  · rw [if_pos hlong]
    exact .inl ⟨hlong, rfl⟩
  · rw [if_neg hlong]
    refine .inr ⟨by omega, line.start + line.stripped.length, decide (tail ≠ []), ?_⟩
    have htext : subarray entry.bytesArray line.start (line.start + line.stripped.length) =
        line.stripped := by
      rw [hat.subarray_eq line.length_stripped_le]
      exact (stripped_eq_take line).symm
    show Except.ok (ContextRead.mk (utf8DecodeText (subarray _ _ _)) _ _ _) = _
    rw [htext]
    rfl

theorem lines_beyond (hentry : store.entryOrThrow id = .ok entry)
    (hnumber : maxSafeInteger < line.number) : ∃ e, store.lines id line.number 1 = .error e := by
  obtain ⟨e, he⟩ : ∃ e, boundedInteger (line.number : Int) (js "startLine") 1 maxSafeInteger =
      .error e := boundedInteger_error hnumber
  refine ⟨e, ?_⟩
  simp only [ContextStore.lines, hentry, he, bind, Except.bind]

end Window

-- ============================================================================
-- The search over the lines
-- ============================================================================

/-- The loop of `grep`, line by line. -/
def searchLines (limits : ContextStoreLimits) (search : GrepSearch) (id : JsString) :
    List RawLine → (returned remaining : Nat) → Except ContextError (List ContextMatch)
  | [], _, _ => .ok []
  | line :: rest, returned, remaining =>
    if remaining = 0 then .ok []
    else if limits.maxLineBytes < line.octets.length then .error (oversizedLine limits line.number)
    else if search.hit line.text then
      if limits.maxReadBytes < returned + line.octets.length then
        .error (.spec (js "grep results exceed maxReadBytes " ++ intText limits.maxReadBytes))
      else
        (searchLines limits search id rest (returned + line.octets.length) (remaining - 1)).map
          (line.toMatch id :: ·)
    else searchLines limits search id rest returned remaining

section Search

variable {limits : ContextStoreLimits} {search : GrepSearch} {id : JsString} {bytes : List Byte}

/-- The loop reads the lines one after the other, and does not run out of steps. -/
theorem grepFrom_eq {fuel start number returned remaining : Nat} (hle : start ≤ bytes.length)
    (hfuel : bytes.length - start < fuel) :
    grepFrom limits bytes search id fuel start number returned remaining =
      searchLines limits search id (rawLinesFrom bytes number start) returned remaining := by
  induction fuel generalizing start number returned remaining with
  | zero => omega
  | succ fuel ih =>
    obtain ⟨line, hline⟩ : ∃ line, (rawLinesFrom bytes number start)[0]? = some line := by
      by_cases hmem : newlineByte ∈ bytes.drop start
      · obtain ⟨front, rest, hsplit, hfront⟩ := List.eq_append_cons_of_mem hmem
        exact ⟨_, by rw [rawLinesFrom_ended hsplit hfront]; rfl⟩
      · exact ⟨_, by rw [rawLinesFrom_last hmem]; rfl⟩
    obtain ⟨hseek, hnumber, tail, hat⟩ := rawLinesFrom_getElem hline
    obtain rfl : start = line.start := Option.some.inj hseek
    obtain rfl : line.number = number := hnumber
    -- what is left after the line
    have hrest : rawLinesFrom bytes line.number line.start = line ::
        if tail = [] then []
        else rawLinesFrom bytes (line.number + 1) (line.start + line.octets.length + 1) := by
      rcases hat.tail_eq with rfl | ⟨rest, rfl⟩
      · have hnone : newlineByte ∉ bytes.drop line.start := by
          rw [hat.drop_eq, List.append_nil]
          exact hat.not_mem
        rw [rawLinesFrom_last hnone, if_pos rfl, hat.drop_eq, List.append_nil]
      · rw [rawLinesFrom_ended hat.drop_eq hat.not_mem, if_neg (List.cons_ne_nil _ _)]
    have hnext : tail ≠ [] → ∀ returned remaining,
        grepFrom limits bytes search id fuel (line.start + line.octets.length + 1)
            (line.number + 1) returned remaining =
          searchLines limits search id
            (rawLinesFrom bytes (line.number + 1) (line.start + line.octets.length + 1))
            returned remaining := by
      intro htail returned remaining
      have hlength := congrArg List.length hat.drop_eq
      have hpos := List.length_pos_iff.mpr htail
      rw [List.length_drop, List.length_append] at hlength
      exact ih (by omega) (by omega)
    have htext : utf8DecodeText (subarray bytes line.start (line.start + line.octets.length)) =
        line.text := by
      rw [hat.subarray_eq le_rfl, List.take_length]
      rfl
    rw [hrest, searchLines, grepFrom]
    by_cases hdone : remaining = 0
    · rw [if_pos (.inr hdone), if_pos hdone]
    · rw [if_neg (by omega), if_neg hdone]
      dsimp only
      rw [hat.stop hle, Nat.add_sub_cancel_left, htext, hat.find]
      by_cases htail : tail = []
      · rw [if_pos htail, if_pos htail]
        rfl
      · rw [if_neg htail, if_neg htail]
        simp only [hnext htail]
        rfl

theorem searchLines_zero (lines : List RawLine) (returned : Nat) :
    searchLines limits search id lines returned 0 = .ok [] := by
  cases lines <;> rfl

/-- What a search finds in a line as it is read. -/
def found (search : GrepSearch) (line : RawLine) : Bool := search.hit line.text

/-- The octets of the lines that are found. -/
def foundBytes (search : GrepSearch) (lines : List RawLine) : Nat :=
  ((lines.filter (found search)).map (·.octets.length)).sum

/-- A search comes to a line: what is before it is within the limits, and has few matches. -/
structure Reads (limits : ContextStoreLimits) (search : GrepSearch) (returned remaining : Nat)
    (lines before : List RawLine) (line : RawLine) : Prop where
  split : before ++ [line] <+: lines
  short : ∀ other ∈ before, other.octets.length ≤ limits.maxLineBytes
  few : (before.filter (found search)).length < remaining
  fits : returned + foundBytes search before ≤ limits.maxReadBytes

theorem foundBytes_cons (line : RawLine) (lines : List RawLine) :
    foundBytes search (line :: lines) =
      (if found search line then line.octets.length else 0) + foundBytes search lines := by
  rw [foundBytes, foundBytes]
  by_cases h : found search line = true
  · rw [List.filter_cons_of_pos h, if_pos h, List.map_cons, List.sum_cons]
  · rw [List.filter_cons_of_neg h, if_neg h, Nat.zero_add]

/-- A search past one line. -/
theorem searchLines_cons {line : RawLine} {rest : List RawLine} {returned remaining : Nat}
    (hremaining : 0 < remaining) (hshort : line.octets.length ≤ limits.maxLineBytes)
    (hfits : returned + (if found search line then line.octets.length else 0) ≤
      limits.maxReadBytes) :
    searchLines limits search id (line :: rest) returned remaining =
      if found search line then
        (searchLines limits search id rest (returned + line.octets.length) (remaining - 1)).map
          (line.toMatch id :: ·)
      else searchLines limits search id rest returned remaining := by
  rw [searchLines, if_neg (by omega), if_neg (by omega)]
  by_cases hfound : found search line = true
  · rw [if_pos hfound] at hfits
    rw [if_pos hfound]
    exact (if_pos hfound).trans (if_neg (by omega))
  · rw [if_neg hfound]
    exact if_neg hfound

/-- A search within the limits returns the first lines that it finds. -/
theorem searchLines_ok {lines : List RawLine} {returned remaining : Nat}
    (hshort : ∀ before line, Reads limits search returned remaining lines before line →
      line.octets.length ≤ limits.maxLineBytes)
    (hfits : returned + (((lines.filter (found search)).take remaining).map
      (·.octets.length)).sum ≤ limits.maxReadBytes) :
    searchLines limits search id lines returned remaining =
      .ok (((lines.filter (found search)).take remaining).map (·.toMatch id)) := by
  induction lines generalizing returned remaining with
  | nil => simp [searchLines]
  | cons line rest ih =>
    rcases Nat.eq_zero_or_pos remaining with rfl | hpos
    · rw [searchLines_zero, List.take_zero, List.map_nil]
    have hfirst : line.octets.length ≤ limits.maxLineBytes :=
      hshort [] line ⟨⟨rest, rfl⟩, nofun, hpos, (Nat.le_add_right _ _).trans hfits⟩
    by_cases hfound : found search line = true
    · obtain ⟨remaining, rfl⟩ : ∃ n, remaining = n + 1 := ⟨remaining - 1, by omega⟩
      rw [List.filter_cons_of_pos hfound, List.take_succ_cons, List.map_cons, List.sum_cons,
        ← Nat.add_assoc] at hfits
      have hlater : ∀ before other, Reads limits search (returned + line.octets.length) remaining
          rest before other → other.octets.length ≤ limits.maxLineBytes := by
        intro before other hreads
        refine hshort (line :: before) other ⟨(List.prefix_cons_inj line).mpr hreads.split,
          List.forall_mem_cons.mpr ⟨hfirst, hreads.short⟩, ?_, ?_⟩
        · rw [List.filter_cons_of_pos hfound, List.length_cons]
          exact Nat.succ_lt_succ hreads.few
        · rw [foundBytes_cons, if_pos hfound, ← Nat.add_assoc]
          exact hreads.fits
      rw [searchLines_cons hpos hfirst (by rw [if_pos hfound]; omega), if_pos hfound,
        Nat.add_sub_cancel, ih hlater hfits, List.filter_cons_of_pos hfound, List.take_succ_cons]
      rfl
    · rw [List.filter_cons_of_neg hfound] at hfits ⊢
      rw [searchLines_cons hpos hfirst (by rw [if_neg hfound]; omega), if_neg hfound]
      refine ih (fun before other hreads => ?_) hfits
      refine hshort (line :: before) other ⟨(List.prefix_cons_inj line).mpr hreads.split,
        List.forall_mem_cons.mpr ⟨hfirst, hreads.short⟩, ?_, ?_⟩
      · rw [List.filter_cons_of_neg hfound]
        exact hreads.few
      · rw [foundBytes_cons, if_neg hfound, Nat.zero_add]
        exact hreads.fits

def oversizedResults (limits : ContextStoreLimits) : ContextError :=
  .spec (js "grep results exceed maxReadBytes " ++ intText limits.maxReadBytes)

/-- Past one line, the search comes to what it came to before. -/
theorem Reads.cons {line other : RawLine} {rest before : List RawLine} {returned remaining : Nat}
    (hshort : line.octets.length ≤ limits.maxLineBytes) :
    Reads limits search returned remaining (line :: rest) (line :: before) other ↔
      if found search line then
        Reads limits search (returned + line.octets.length) (remaining - 1) rest before other
      else Reads limits search returned remaining rest before other := by
  by_cases hfound : found search line = true
  · rw [if_pos hfound]
    constructor
    · rintro ⟨hsplit, hbefore, hfew, hfits⟩
      rw [List.filter_cons_of_pos hfound, List.length_cons] at hfew
      rw [foundBytes_cons, if_pos hfound, ← Nat.add_assoc] at hfits
      exact ⟨(List.prefix_cons_inj line).mp hsplit, (List.forall_mem_cons.mp hbefore).2, by omega,
        hfits⟩
    · rintro ⟨hsplit, hbefore, hfew, hfits⟩
      refine ⟨(List.prefix_cons_inj line).mpr hsplit, List.forall_mem_cons.mpr ⟨hshort, hbefore⟩,
        ?_, ?_⟩
      · rw [List.filter_cons_of_pos hfound, List.length_cons]
        omega
      · rw [foundBytes_cons, if_pos hfound, ← Nat.add_assoc]
        exact hfits
  · rw [if_neg hfound]
    constructor
    · rintro ⟨hsplit, hbefore, hfew, hfits⟩
      rw [List.filter_cons_of_neg hfound] at hfew
      rw [foundBytes_cons, if_neg hfound, Nat.zero_add] at hfits
      exact ⟨(List.prefix_cons_inj line).mp hsplit, (List.forall_mem_cons.mp hbefore).2, hfew,
        hfits⟩
    · rintro ⟨hsplit, hbefore, hfew, hfits⟩
      refine ⟨(List.prefix_cons_inj line).mpr hsplit, List.forall_mem_cons.mpr ⟨hshort, hbefore⟩,
        ?_, ?_⟩
      · rwa [List.filter_cons_of_neg hfound]
      · rwa [foundBytes_cons, if_neg hfound, Nat.zero_add]

/-- A search that comes to an oversized line refuses the text for it. -/
theorem searchLines_oversized {lines before : List RawLine} {line : RawLine}
    {returned remaining : Nat}
    (h : Reads limits search returned remaining lines before line)
    (hlong : limits.maxLineBytes < line.octets.length) :
    searchLines limits search id lines returned remaining =
      .error (oversizedLine limits line.number) := by
  have hpos : 0 < remaining := (Nat.zero_le _).trans_lt h.few
  induction before generalizing lines returned remaining with
  | nil =>
    obtain ⟨rest, rfl⟩ := h.split
    exact (if_neg (by omega)).trans (if_pos hlong)
  | cons first before ih =>
    obtain ⟨rest, rfl⟩ : ∃ rest, lines = first :: rest := by
      obtain ⟨rest, hrest⟩ := h.split
      exact ⟨before ++ [line] ++ rest, hrest.symm⟩
    have hshort := h.short first List.mem_cons_self
    have hfits := h.fits
    rw [foundBytes_cons] at hfits
    rw [searchLines_cons hpos hshort (by omega)]
    have hlater := (Reads.cons hshort).mp h
    by_cases hfound : found search first = true
    · rw [if_pos hfound] at hlater ⊢
      rw [ih hlater ((Nat.zero_le _).trans_lt hlater.few)]
      rfl
    · rw [if_neg hfound] at hlater ⊢
      exact ih hlater hpos

/-- How a search ends. -/
theorem searchLines_cases (lines : List RawLine) (returned remaining : Nat)
    (hreturned : returned ≤ limits.maxReadBytes) :
    ((∀ before line, Reads limits search returned remaining lines before line →
        line.octets.length ≤ limits.maxLineBytes) ∧
      returned + (((lines.filter (found search)).take remaining).map (·.octets.length)).sum ≤
        limits.maxReadBytes) ∨
    (∃ before line, Reads limits search returned remaining lines before line ∧
      limits.maxLineBytes < line.octets.length) ∨
    searchLines limits search id lines returned remaining = .error (oversizedResults limits) := by
  induction lines generalizing returned remaining with
  | nil =>
    refine .inl ⟨fun before line h => ?_, by simpa using hreturned⟩
    exact absurd (List.prefix_nil.mp h.split) (by simp)
  | cons line rest ih =>
    rcases Nat.eq_zero_or_pos remaining with rfl | hpos
    · refine .inl ⟨fun before line h => absurd h.few (Nat.not_lt_zero _), ?_⟩
      simpa using hreturned
    by_cases hlong : limits.maxLineBytes < line.octets.length
    · exact .inr (.inl ⟨[], line, ⟨⟨rest, rfl⟩, nofun, hpos, hreturned⟩, hlong⟩)
    have hshort : line.octets.length ≤ limits.maxLineBytes := Nat.not_lt.mp hlong
    -- a line that is read is this one or one of the rest
    have hreads : ∀ returned' remaining',
        (∀ before other, Reads limits search returned remaining (line :: rest) (line :: before)
          other → Reads limits search returned' remaining' rest before other) →
        (∀ before other, Reads limits search returned' remaining' rest before other →
          other.octets.length ≤ limits.maxLineBytes) →
        ∀ before other, Reads limits search returned remaining (line :: rest) before other →
          other.octets.length ≤ limits.maxLineBytes := by
      intro returned' remaining' hlater hrest before other h
      cases before with
      | nil =>
        obtain rfl := (List.cons_prefix_cons.mp h.split).1
        exact hshort
      | cons first before =>
        obtain rfl := (List.cons_prefix_cons.mp h.split).1
        exact hrest before other (hlater before other h)
    by_cases hfound : found search line = true
    · have hcons : ∀ before other,
          Reads limits search returned remaining (line :: rest) (line :: before) other ↔
            Reads limits search (returned + line.octets.length) (remaining - 1) rest before
              other := by
        intro before other
        rw [Reads.cons hshort, if_pos hfound]
      by_cases hmuch : limits.maxReadBytes < returned + line.octets.length
      · refine .inr (.inr ?_)
        rw [searchLines, if_neg (by omega), if_neg hlong]
        exact (if_pos hfound).trans (if_pos hmuch)
      · rcases ih (returned + line.octets.length) (remaining - 1) (by omega) with
          ⟨hrest, hfits⟩ | ⟨before, other, hother, hlong⟩ | herror
        · refine .inl ⟨hreads _ _ (fun before other => (hcons before other).mp) hrest, ?_⟩
          obtain ⟨remaining, rfl⟩ : ∃ n, remaining = n + 1 := ⟨remaining - 1, by omega⟩
          rw [List.filter_cons_of_pos hfound, List.take_succ_cons, List.map_cons, List.sum_cons,
            ← Nat.add_assoc]
          exact hfits
        · exact .inr (.inl ⟨line :: before, other, (hcons before other).mpr hother, hlong⟩)
        · refine .inr (.inr ?_)
          rw [searchLines_cons hpos hshort (by rw [if_pos hfound]; omega), if_pos hfound, herror]
          rfl
    · have hcons : ∀ before other,
          Reads limits search returned remaining (line :: rest) (line :: before) other ↔
            Reads limits search returned remaining rest before other := by
        intro before other
        rw [Reads.cons hshort, if_neg hfound]
      rcases ih returned remaining hreturned with
        ⟨hrest, hfits⟩ | ⟨before, other, hother, hlong⟩ | herror
      · refine .inl ⟨hreads _ _ (fun before other => (hcons before other).mp) hrest, ?_⟩
        rw [List.filter_cons_of_neg hfound]
        exact hfits
      · exact .inr (.inl ⟨line :: before, other, (hcons before other).mpr hother, hlong⟩)
      · refine .inr (.inr ?_)
        rw [searchLines_cons hpos hshort (by rw [if_neg hfound]; omega), if_neg hfound, herror]

end Search

-- ============================================================================
-- The lines of a text
-- ============================================================================

section Numbers

variable {ls : List (List Byte)} {number start : Nat} {line : RawLine} {bytes : List Byte}

theorem map_number_numberLines :
    (numberLines ls number start).map (·.number) = List.range' number ls.length := by
  induction ls generalizing number start with
  | nil => rfl
  | cons octets rest ih =>
    rw [numberLines, List.map_cons, ih, List.length_cons, List.range'_succ]

theorem octets_mem (h : line ∈ numberLines ls number start) : line.octets ∈ ls := by
  induction ls generalizing number start with
  | nil => exact absurd h List.not_mem_nil
  | cons octets rest ih =>
    rcases List.mem_cons.mp h with rfl | h
    · exact List.mem_cons_self
    · exact List.mem_cons_of_mem _ (ih h)

/-- Every line before takes at least one octet. -/
theorem number_le_start (h : line ∈ numberLines ls number start) :
    line.number + start ≤ line.start + number := by
  induction ls generalizing number start with
  | nil => exact absurd h List.not_mem_nil
  | cons octets rest ih =>
    rcases List.mem_cons.mp h with rfl | h
    · dsimp only
      omega
    · have := ih h
      omega

theorem length_splitOn (bytes : List Byte) :
    (bytes.splitOn newlineByte).length = (byteLines bytes).length := by
  induction bytes using lines_induction newlineByte with
  | last bytes h =>
    rw [byteLines_of_not_mem h, splitOn_last h]
    rfl
  | ended front rest h ih =>
    rw [byteLines_append h, splitOn_ended h, List.length_cons, List.length_cons, ih]

theorem map_number_rawLines (bytes : List Byte) :
    (rawLines bytes).map (·.number) = List.range' 1 (byteLines bytes).length := by
  rw [rawLines, rawLinesFrom, List.drop_zero, map_number_numberLines, length_splitOn]

theorem rawLines_nodup (bytes : List Byte) : (rawLines bytes).Nodup := by
  have hnodup : ((rawLines bytes).map (·.number)).Nodup := by
    rw [map_number_rawLines]
    exact List.nodup_range'
  exact hnodup.of_map

/-- A line that ends in a CR has a number that `lines` accepts. -/
theorem number_le (h : line ∈ rawLines bytes) (hbytes : bytes.length ≤ maxSafeInteger)
    (hne : line.octets ≠ []) : line.number ≤ maxSafeInteger := by
  have hnumber := number_le_start h
  obtain ⟨k, hk⟩ := List.mem_iff_getElem?.mp h
  obtain ⟨-, -, tail, hat⟩ := rawLinesFrom_getElem hk
  have hlength := congrArg List.length hat.drop_eq
  have hpos := List.length_pos_iff.mpr hne
  rw [List.length_drop, List.length_append] at hlength
  omega

/-- The lines of an encoded text are encoded texts. -/
theorem octets_encode {cs : List Nat} (hscalars : ∀ c ∈ cs, IsScalar c) {octets : List Byte}
    (h : octets ∈ (encode cs).splitOn newlineByte) :
    ∃ ds, octets = encode ds ∧ ∀ c ∈ ds, IsScalar c := by
  induction cs using lines_induction 0x0A with
  | last cs hnot =>
    rw [encode, splitOn_last (keepsLines_encodeScalar.not_mem hscalars hnot)] at h
    exact ⟨cs, List.mem_singleton.mp h, hscalars⟩
  | ended front rest hnot ih =>
    have hfront : ∀ c ∈ front, IsScalar c := fun c hc => hscalars c (List.mem_append_left _ hc)
    have hsplit : encode (front ++ 0x0A :: rest) = encode front ++ newlineByte :: encode rest := by
      rw [encode_append, encode_cons, keepsLines_encodeScalar.lf_eq]
      rfl
    have hnone : newlineByte ∉ encode front := keepsLines_encodeScalar.not_mem hfront hnot
    rw [hsplit, splitOn_ended hnone] at h
    rcases List.mem_cons.mp h with rfl | h
    · exact ⟨front, rfl, hfront⟩
    · exact ih (fun c hc => hscalars c (List.mem_append_right _ (List.mem_cons_of_mem _ hc))) h

/-- A CR at the end of a line is part of what `grep` searches, and of nothing that `lines`
    returns. -/
theorem text_ne_lineText {text : JsString} (h : line ∈ rawLines (utf8 text))
    (hreturn : line.EndsInReturn) : line.text ≠ line.lineText := by
  have hoctets := octets_mem h
  rw [List.drop_zero, utf8_eq_encode] at hoctets
  obtain ⟨ds, hds, hscalars⟩ := octets_encode (isScalar_scalars text) hoctets
  have hlast : ds.getLast? = some 0x0D := by
    rw [RawLine.EndsInReturn, hds] at hreturn
    exact (keepsLines_encodeScalar.getLast_eq_iff hscalars).mp hreturn
  have hstripped : line.stripped = encode ds.dropLast := by
    rw [RawLine.stripped, if_pos hreturn, hds]
    exact keepsLines_encodeScalar.dropLast_flatMap hlast
  obtain ⟨init, rfl⟩ := List.getLast?_eq_some_iff.mp hlast
  rw [List.dropLast_concat] at hstripped
  have hinit : ∀ c ∈ init, IsScalar c := fun c hc => hscalars c (List.mem_append_left _ hc)
  intro heq
  rw [RawLine.text, RawLine.lineText, hds, hstripped, utf8DecodeText_encode hscalars,
    utf8DecodeText_encode hinit] at heq
  have hlength := congrArg (fun s => (scalars s).length) heq
  rw [scalars_fromScalars fun c hc => hscalars c (dropMark_subset _ hc),
    scalars_fromScalars fun c hc => hinit c (dropMark_subset _ hc)] at hlength
  cases init with
  | nil => exact absurd hlength (by decide)
  | cons c init =>
    rw [List.cons_append, dropMark, dropMark] at hlength
    split at hlength
    · rw [List.length_append, List.length_singleton] at hlength
      omega
    · rw [List.length_cons, List.length_append, List.length_singleton, List.length_cons] at hlength
      omega

end Numbers

-- ============================================================================
-- Agreement
-- ============================================================================

section Agreement

variable (store : ContextStore) (id : JsString) (search : GrepSearch)

/-- The text that `lines` returns for a line is found. -/
def linesHit (lineNumber : Nat) : Bool :=
  match store.lines id lineNumber 1 with
  | .ok read => search.hit read.text
  | .error _ => false

/-- The matches are the first lines that are found in what `lines` returns, and `lines`
    returns for each what the match says. -/
structure AgreesWithLines (lineCount : Nat) (matches' : List ContextMatch) : Prop where
  found : matches'.map (·.line) =
    ((List.range' 1 lineCount).filter (linesHit store id search)).take search.maxMatches
  sliced : ∀ m ∈ matches', ∃ read, store.lines id m.line 1 = .ok read ∧ read.text = m.text ∧
    read.startByte = m.startByte

/-- `grep` returns what `lines` has, and refuses no line that `lines` returns. -/
structure GrepAgrees (lineCount : Nat) (result : Except ContextError (List ContextMatch)) :
    Prop where
  returned : ∀ matches', result = .ok matches' → AgreesWithLines store id search lineCount matches'
  refused : ∀ lineNumber, result = .error (oversizedLine store.limits lineNumber) →
    ∃ e, store.lines id lineNumber 1 = .error e

/-- A line that `lines` can return as `grep` has it. -/
def Sliceable (line : RawLine) : Prop :=
  line.number ≤ maxSafeInteger ∧ ¬ line.EndsInReturn

/-- No line at the length limit ends in a CR, and neither does a line that is found, unless the
    text is refused. -/
structure ReturnsHarmless (limits : ContextStoreLimits) (lines : List RawLine) : Prop where
  length : ∀ before line, Reads limits search 0 search.maxMatches lines before line →
    limits.maxLineBytes < line.octets.length → limits.maxLineBytes < line.stripped.length
  found : (∀ before line, Reads limits search 0 search.maxMatches lines before line →
      line.octets.length ≤ limits.maxLineBytes) →
    (((lines.filter (found search)).take search.maxMatches).map (·.octets.length)).sum ≤
      limits.maxReadBytes →
    ∀ before line, Reads limits search 0 search.maxMatches lines before line →
      search.hit line.text = true ∨ search.hit line.lineText = true → Sliceable line

section Decided

variable {store : ContextStore} {id : JsString} {search : GrepSearch} {entry : Entry}
  {text : JsString} {line : RawLine}

/-- What `lines` finds in a line that is not too long. -/
theorem linesHit_eq (hentry : store.entryOrThrow id = .ok entry)
    (hline : line ∈ rawLines entry.bytesArray)
    (hshort : line.octets.length ≤ store.limits.maxLineBytes) :
    linesHit store id search line.number =
      (decide (line.number ≤ maxSafeInteger) && search.hit line.lineText) := by
  by_cases hnumber : line.number ≤ maxSafeInteger
  · rcases lines_one hentry hline hnumber with ⟨hlong, -⟩ | ⟨-, endByte, truncated, hread⟩
    · have := line.length_stripped_le
      omega
    · rw [linesHit, hread, decide_eq_true hnumber, Bool.true_and]
  · obtain ⟨e, he⟩ := lines_beyond hentry (Nat.not_le.mp hnumber)
    rw [linesHit, he, decide_eq_false hnumber, Bool.false_and]

theorem lineText_eq (h : ¬ line.EndsInReturn) : line.lineText = line.text := by
  rw [RawLine.lineText, RawLine.text, RawLine.stripped, if_neg h]

/-- A search that finds no line too long comes to every line after few matches. -/
theorem reads_of_few {limits : ContextStoreLimits} {lines before : List RawLine}
    (hshort : ∀ before line, Reads limits search 0 search.maxMatches lines before line →
      line.octets.length ≤ limits.maxLineBytes)
    (hfits : (((lines.filter (found search)).take search.maxMatches).map
      (·.octets.length)).sum ≤ limits.maxReadBytes)
    (hsplit : before ++ [line] <+: lines)
    (hfew : (before.filter (found search)).length < search.maxMatches) :
    Reads limits search 0 search.maxMatches lines before line := by
  induction before using List.reverseRecOn generalizing line with
  | nil => exact ⟨hsplit, nofun, hfew, Nat.zero_le _⟩
  | append_singleton before last ih =>
    have hbefore : before ++ [last] <+: lines := (List.prefix_append _ [line]).trans hsplit
    have hless : (before.filter (found search)).length < search.maxMatches := by
      rw [List.filter_append, List.length_append] at hfew
      omega
    have hlast := ih hbefore hless
    refine ⟨hsplit, ?_, hfew, ?_⟩
    · rw [List.forall_mem_append, List.forall_mem_singleton]
      exact ⟨hlast.short, hshort before last hlast⟩
    · -- what is found so far is among the first matches
      have hfirst : (before ++ [last]).filter (found search) <+:
          (lines.filter (found search)).take search.maxMatches := by
        rw [List.prefix_iff_eq_take.mp (hbefore.filter (found search))]
        exact List.take_prefix_take_left hfew.le
      obtain ⟨more, hmore⟩ := hfirst.map (·.octets.length)
      rw [← hmore, List.sum_append] at hfits
      rw [Nat.zero_add, foundBytes]
      omega

/-- A search within the limits agrees with `lines` where it finds no line that ends in a CR. -/
theorem agrees_iff (hentry : store.entryOrThrow id = .ok entry)
    (htext : entry.bytesArray = utf8 text)
    (hshort : ∀ before line, Reads store.limits search 0 search.maxMatches
      (rawLines entry.bytesArray) before line → line.octets.length ≤ store.limits.maxLineBytes)
    (hfits : ((((rawLines entry.bytesArray).filter (found search)).take search.maxMatches).map
      (·.octets.length)).sum ≤ store.limits.maxReadBytes) :
    AgreesWithLines store id search (byteLines entry.bytesArray).length
        ((((rawLines entry.bytesArray).filter (found search)).take search.maxMatches).map
          (·.toMatch id)) ↔
      ∀ before line, Reads store.limits search 0 search.maxMatches (rawLines entry.bytesArray)
        before line → search.hit line.text = true ∨ search.hit line.lineText = true →
        Sliceable line := by
  let lines := rawLines entry.bytesArray
  let hit (line : RawLine) : Bool := linesHit store id search line.number
  have hnumbers : List.range' 1 (byteLines entry.bytesArray).length = lines.map (·.number) :=
    (map_number_rawLines entry.bytesArray).symm
  have hmem : ∀ {before line}, before ++ [line] <+: lines → line ∈ lines := fun h =>
    h.subset (List.mem_append_right _ List.mem_cons_self)
  have hreads : ∀ before line, before ++ [line] <+: lines →
      (before.filter (found search)).length < search.maxMatches →
      Reads store.limits search 0 search.maxMatches lines before line :=
    fun before line => reads_of_few hshort hfits
  have hhit : ∀ before line, Reads store.limits search 0 search.maxMatches lines before line →
      hit line = (decide (line.number ≤ maxSafeInteger) && search.hit line.lineText) :=
    fun before line h => linesHit_eq hentry (hmem h.split) (hshort before line h)
  -- the first matches are the first lines that `lines` finds, where the two find the same
  have hfound : (((lines.filter (found search)).take search.maxMatches).map
        (·.toMatch id)).map (·.line) =
      ((List.range' 1 (byteLines entry.bytesArray).length).filter
        (linesHit store id search)).take search.maxMatches ↔
      ∀ before line, before ++ [line] <+: lines →
        (before.filter (found search)).length < search.maxMatches →
        found search line = hit line := by
    rw [hnumbers, List.filter_map, List.map_map, ← List.map_take,
      ← take_filter_eq_iff (rawLines_nodup entry.bytesArray)]
    have hinjective : ∀ x ∈ lines, ∀ y ∈ lines, x.number = y.number → x = y := by
      have hnodup : (lines.map (·.number)).Nodup := by
        rw [← hnumbers]
        exact List.nodup_range'
      exact List.inj_on_of_nodup_map hnodup
    constructor
    · intro hmap
      have hmap' : ((lines.filter (found search)).take search.maxMatches).map (·.number) =
          ((lines.filter hit).take search.maxMatches).map (·.number) := hmap
      refine eq_of_map_eq (fun x hx y hy => ?_) hmap'
      exact hinjective x (List.mem_of_mem_filter (List.mem_of_mem_take hx)) y
        (List.mem_of_mem_filter (List.mem_of_mem_take hy))
    · exact fun heq => congrArg (List.map (·.number)) heq
  constructor
  · intro hagrees before line hread hany
    have hsame := hfound.mp hagrees.found before line hread.split hread.few
    rw [hhit before line hread] at hsame
    by_cases hreturn : line.EndsInReturn
    · -- `lines` has no such text
      exfalso
      have hne : line.octets ≠ [] := by
        rintro hnil
        rw [RawLine.EndsInReturn, hnil] at hreturn
        exact absurd hreturn nofun
      have hnumber := number_le (hmem hread.split) entry.length_le hne
      rw [decide_eq_true hnumber, Bool.true_and] at hsame
      have hraw : found search line = true := hany.elim (fun h => h) fun h => hsame.trans h
      have hmatch := List.mem_map_of_mem (f := fun line : RawLine => line.toMatch id)
        (mem_take_filter hread.split hread.few hraw)
      obtain ⟨read, hlines, htextEq, -⟩ := hagrees.sliced _ hmatch
      rcases lines_one hentry (hmem hread.split) hnumber with ⟨-, herror⟩ | ⟨-, _, _, hone⟩
      · exact absurd (herror.symm.trans hlines) nofun
      · obtain rfl := Except.ok.inj (hone.symm.trans hlines)
        have hline : line ∈ rawLines entry.bytesArray := hmem hread.split
        rw [htext] at hline
        exact text_ne_lineText hline hreturn htextEq.symm
    · rw [lineText_eq hreturn, or_self] at hany
      rw [lineText_eq hreturn] at hsame
      have hboth : (decide (line.number ≤ maxSafeInteger) && search.hit line.text) = true :=
        hsame.symm.trans hany
      rw [Bool.and_eq_true, decide_eq_true_eq] at hboth
      exact ⟨hboth.1, hreturn⟩
  · intro hsliceable
    refine ⟨hfound.mpr fun before line hsplit hfew => ?_, fun m hm => ?_⟩
    · have hread := hreads before line hsplit hfew
      rw [hhit before line hread]
      have hline := hsliceable before line hread
      by_cases hraw : search.hit line.text = true
      · obtain ⟨hnumber, hreturn⟩ := hline (.inl hraw)
        rw [lineText_eq hreturn, decide_eq_true hnumber, Bool.true_and]
        rfl
      · by_cases hstripped : search.hit line.lineText = true
        · rw [lineText_eq (hline (.inr hstripped)).2] at hstripped
          exact absurd hstripped hraw
        · rw [Bool.not_eq_true] at hraw hstripped
          rw [hstripped, Bool.and_false]
          exact hraw
    · obtain ⟨line, hline, rfl⟩ := List.mem_map.mp hm
      obtain ⟨hraw, before, hsplit, hfew⟩ := exists_of_mem_take_filter hline
      have hread := hreads before line hsplit hfew
      obtain ⟨hnumber, hreturn⟩ := hsliceable before line hread (.inl hraw)
      rcases lines_one hentry (hmem hsplit) hnumber with ⟨hlong, -⟩ | ⟨-, endByte, more, hone⟩
      · have := line.length_stripped_le
        have := hshort before line hread
        omega
      · exact ⟨_, hone, lineText_eq hreturn, rfl⟩

theorem oversizedLine_injective {limits : ContextStoreLimits} {n m : Nat}
    (h : oversizedLine limits n = oversizedLine limits m) : n = m := by
  have htext : js "line " ++ intText n ++ js " exceeds maxLineBytes " ++
      intText limits.maxLineBytes = js "line " ++ intText m ++ js " exceeds maxLineBytes " ++
      intText limits.maxLineBytes := ContextError.spec.inj h
  rw [List.append_assoc, List.append_assoc (js "line " ++ intText m)] at htext
  have hnumbers : intText n = intText m :=
    List.append_cancel_left (List.append_cancel_right htext)
  have hinverse : Function.LeftInverse intOfText intText := JsonNumber.ofText_text (N := Int)
  exact Int.ofNat.inj (hinverse.injective hnumbers)

theorem oversizedLine_ne {limits : ContextStoreLimits} (n : Nat) :
    oversizedResults limits ≠ oversizedLine limits n := by
  intro h
  have htext : js "grep results exceed maxReadBytes " ++ intText limits.maxReadBytes =
      js "line " ++ intText n ++ js " exceeds maxLineBytes " ++ intText limits.maxLineBytes :=
    ContextError.spec.inj h
  exact absurd (List.cons.inj htext).1 (by decide)

theorem grep_eq {searchLimits : ContextSearchLimits} {toLowerCase : JsString → JsString}
    {options : GrepOptions} (hentry : store.entryOrThrow id = .ok entry)
    (hoptions : grepSearch searchLimits toLowerCase options = .ok search) :
    store.grep searchLimits toLowerCase id options =
      searchLines store.limits search id (rawLines entry.bytesArray) 0 search.maxMatches := by
  simp only [grep, hentry, hoptions, bind, Except.bind]
  exact grepFrom_eq (Nat.zero_le _) (by omega)

/-- `grep` agrees with `lines` exactly where no CR at the end of a line makes a difference. -/
theorem grep_agrees_iff {searchLimits : ContextSearchLimits} {toLowerCase : JsString → JsString}
    {options : GrepOptions} (hentry : store.entryOrThrow id = .ok entry)
    (htext : entry.bytesArray = utf8 text)
    (hoptions : grepSearch searchLimits toLowerCase options = .ok search) :
    GrepAgrees store id search (documentLines text).length
        (store.grep searchLimits toLowerCase id options) ↔
      ReturnsHarmless search store.limits (rawLines entry.bytesArray) := by
  have hcount : (documentLines text).length = (byteLines entry.bytesArray).length := by
    rw [htext, byteLines_utf8, List.length_map]
  have hlong : ∀ line ∈ rawLines entry.bytesArray,
      (∃ e, store.lines id line.number 1 = .error e) ↔
        store.limits.maxLineBytes < line.stripped.length ∨ maxSafeInteger < line.number := by
    intro line hline
    by_cases hnumber : line.number ≤ maxSafeInteger
    · rw [or_iff_left (Nat.not_lt.mpr hnumber)]
      rcases lines_one hentry hline hnumber with ⟨hlong, herror⟩ | ⟨hshort, _, _, hone⟩
      · exact iff_of_true ⟨_, herror⟩ hlong
      · refine iff_of_false ?_ (Nat.not_lt.mpr hshort)
        rintro ⟨e, he⟩
        exact absurd (hone.symm.trans he) nofun
    · exact iff_of_true (lines_beyond hentry (Nat.not_le.mp hnumber)) (.inr (Nat.not_le.mp hnumber))
  have hmem : ∀ {before line}, before ++ [line] <+: rawLines entry.bytesArray →
      line ∈ rawLines entry.bytesArray := fun h =>
    h.subset (List.mem_append_right _ List.mem_cons_self)
  rw [grep_eq hentry hoptions, hcount]
  rcases @searchLines_cases store.limits search id (rawLines entry.bytesArray) 0
      search.maxMatches (Nat.zero_le store.limits.maxReadBytes) with
    ⟨hshort, hfits⟩ | ⟨before, line, hread, hover⟩ | herror
  · -- nothing is refused
    rw [Nat.zero_add] at hfits
    rw [searchLines_ok hshort ((Nat.zero_add _).trans_le hfits)]
    constructor
    · rintro ⟨hreturned, -⟩
      refine ⟨fun before line hread hover => ?_, fun _ _ => ?_⟩
      · exact absurd (hshort before line hread) (Nat.not_le.mpr hover)
      · exact (agrees_iff hentry htext hshort hfits).mp (hreturned _ rfl)
    · rintro ⟨-, hfound⟩
      refine ⟨fun matches' hmatches => ?_, nofun⟩
      obtain rfl := Except.ok.inj hmatches
      exact (agrees_iff hentry htext hshort hfits).mpr (hfound hshort hfits)
  · -- a line is too long for the search
    rw [searchLines_oversized hread hover]
    constructor
    · rintro ⟨-, hrefused⟩
      refine ⟨fun before' line' hread' hover' => ?_, fun hshort => ?_⟩
      · have hnumber : line'.number = line.number := oversizedLine_injective
          (Except.error.inj ((@searchLines_oversized _ _ id _ _ _ _ _ hread' hover').symm.trans
            (searchLines_oversized hread hover)))
        rcases (hlong line' (hmem hread'.split)).mp (hnumber ▸ hrefused line.number rfl) with
          hline | hnumber
        · exact hline
        · -- a line that is too long is not empty
          by_contra hnot
          have hne : line'.octets ≠ [] := by
            intro hnil
            rw [hnil, List.length_nil] at hover'
            omega
          have := number_le (hmem hread'.split) entry.length_le hne
          omega
      · exact absurd (hshort before line hread) (Nat.not_le.mpr hover)
    · rintro ⟨hlength, -⟩
      refine ⟨nofun, fun lineNumber herror => ?_⟩
      obtain rfl := oversizedLine_injective (Except.error.inj herror)
      exact (hlong line (hmem hread.split)).mpr (.inl (hlength before line hread hover))
  · -- the results are too long
    rw [herror]
    refine iff_of_true ⟨nofun, fun lineNumber h => ?_⟩ ?_
    · exact absurd (Except.error.inj h) (oversizedLine_ne lineNumber)
    · refine ⟨fun before line hread hover => ?_, fun hshort hfits => ?_⟩
      · rw [searchLines_oversized hread hover] at herror
        exact absurd (Except.error.inj herror).symm (oversizedLine_ne line.number)
      · rw [searchLines_ok hshort ((Nat.zero_add _).trans_le hfits)] at herror
        exact absurd herror nofun

end Decided

/-- The capital letters of ASCII. -/
def asciiLowerCase (s : JsString) : JsString :=
  s.map fun c => if 0x41 ≤ c ∧ c ≤ 0x5A then c + 0x20 else c

/-- A search without regard to case finds the third of four lines, the second of which ends in
    a CR. -/
theorem grep_mixed :
    let text := js "a\nB\r\nc\nd"
    let store := textStore text (by decide)
    let id := makeId (sha256Bytes (utf8 text))
    let search : GrepSearch := ⟨js "c", asciiLowerCase, 2⟩
    store.grep ⟨10, 10⟩ asciiLowerCase id ⟨js "C", none, 2, none⟩ = .ok [⟨js "c", 3, 5, id⟩] ∧
      ReturnsHarmless search store.limits (rawLines (utf8 text)) ∧
      GrepAgrees store id search (documentLines text).length
        (store.grep ⟨10, 10⟩ asciiLowerCase id ⟨js "C", none, 2, none⟩) := by
  intro text store id search
  have hentry := textStore_entry text (by decide)
  have hoptions : grepSearch ⟨10, 10⟩ asciiLowerCase ⟨js "C", none, 2, none⟩ = .ok search := rfl
  have hshort : ∀ line ∈ rawLines (utf8 text),
      line.octets.length ≤ store.limits.maxLineBytes := by decide +kernel
  have hfound : ∀ line ∈ rawLines (utf8 text),
      search.hit line.text = true ∨ search.hit line.lineText = true →
        line.number ≤ maxSafeInteger ∧ ¬line.EndsInReturn := by decide +kernel
  have hmem : ∀ {before line}, Reads store.limits search 0 search.maxMatches
      (rawLines (utf8 text)) before line → line ∈ rawLines (utf8 text) := fun h =>
    h.split.subset (List.mem_append_right _ List.mem_cons_self)
  have hharmless : ReturnsHarmless search store.limits (rawLines (utf8 text)) :=
    { length := fun before line hread hlong =>
        absurd hlong (Nat.not_lt.mpr (hshort line (hmem hread)))
      found := fun _ _ before line hread => hfound line (hmem hread) }
  refine ⟨?_, hharmless, (grep_agrees_iff hentry rfl hoptions).mpr hharmless⟩
  rw [grep_eq hentry hoptions]
  rfl

/-- `grep` returns the CR in front of a line feed, which `lines` does not. -/
theorem grep_returns_return :
    let text := js "a\r\nb"
    let store := textStore text (by decide)
    let id := makeId (sha256Bytes (utf8 text))
    let search : GrepSearch := ⟨js "a", fun s => s, 1⟩
    store.grep ⟨10, 10⟩ asciiLowerCase id ⟨js "a", some true, 1, none⟩ =
        .ok [⟨js "a\r", 1, 0, id⟩] ∧
      store.lines id 1 1 = .ok ⟨js "a", 0, 1, true⟩ ∧
      ¬ GrepAgrees store id search (documentLines text).length
        (store.grep ⟨10, 10⟩ asciiLowerCase id ⟨js "a", some true, 1, none⟩) := by
  intro text store id search
  have hentry := textStore_entry text (by decide)
  have hgrep : store.grep ⟨10, 10⟩ asciiLowerCase id ⟨js "a", some true, 1, none⟩ =
      .ok [⟨js "a\r", 1, 0, id⟩] := by
    have hoptions : grepSearch ⟨10, 10⟩ asciiLowerCase ⟨js "a", some true, 1, none⟩ =
        .ok search := rfl
    rw [grep_eq hentry hoptions]
    rfl
  have hlines : store.lines id 1 1 = .ok ⟨js "a", 0, 1, true⟩ := by
    rw [ContextStore.lines, hentry]
    decide +kernel
  refine ⟨hgrep, hlines, fun hagrees => ?_⟩
  obtain ⟨read, hread, htext, -⟩ :=
    (hagrees.returned _ hgrep).sliced _ (List.mem_singleton_self _)
  have hsame := Except.ok.inj (hlines.symm.trans hread)
  rw [← hsame] at htext
  exact absurd htext (by decide)

end Agreement

end PiRlm.Shell

/-
  PiRlm.Lib.Lines

  A text as its lines, which end at LF and CRLF only.

  A line is its content and its delimiter; the last one has no delimiter.  A scan for the
  next LF finds the end of the first line, and the lines of an encoded text are the encoded
  lines when the encoding leaves the two delimiters alone.
-/
import Mathlib

namespace PiRlm.Lib

variable {α β : Type}

-- ============================================================================
-- Lines
-- ============================================================================

structure Line (α : Type) where
  content : List α
  delimiter : List α
  deriving Repr, DecidableEq

namespace Line

def whole (line : Line α) : List α := line.content ++ line.delimiter

/-- A character in front of a line: a CR right before the LF is part of the delimiter. -/
def push [DecidableEq α] (lf cr a : α) (line : Line α) : Line α :=
  if a = cr ∧ line = ⟨[], [lf]⟩ then ⟨[], [cr, lf]⟩ else ⟨a :: line.content, line.delimiter⟩

def encode (f : α → List β) (line : Line α) : Line β :=
  ⟨line.content.flatMap f, line.delimiter.flatMap f⟩

end Line

/-- The lines of a text. -/
def splitLines [DecidableEq α] (lf cr : α) : List α → List (Line α)
  | [] => [⟨[], []⟩]
  | a :: rest =>
    if a = lf then ⟨[], [lf]⟩ :: splitLines lf cr rest
    else (splitLines lf cr rest).modifyHead (Line.push lf cr a)

/-- The text of a window of lines, without the delimiter of the last one. -/
def windowText : List (Line α) → List α
  | [] => []
  | [line] => line.content
  | line :: next :: rest => line.whole ++ windowText (next :: rest)

/-- The line whose characters stand before an LF. -/
def endedLine [DecidableEq α] (lf cr : α) (front : List α) : Line α :=
  if front.getLast? = some cr then ⟨front.dropLast, [cr, lf]⟩ else ⟨front, [lf]⟩

section Split

variable [DecidableEq α] {lf cr : α}

theorem splitLines_of_not_mem {text : List α} (h : lf ∉ text) :
    splitLines lf cr text = [⟨text, []⟩] := by
  induction text with
  | nil => rfl
  | cons a text ih =>
    rw [List.mem_cons, not_or] at h
    rw [splitLines, if_neg (Ne.symm h.1), ih h.2]
    show [Line.push lf cr a ⟨text, []⟩] = _
    rw [Line.push, if_neg]
    rintro ⟨-, hline⟩
    exact absurd (congrArg Line.delimiter hline) nofun

theorem push_endedLine {a : α} (front : List α) :
    Line.push lf cr a (endedLine lf cr front) = endedLine lf cr (a :: front) := by
  cases front with
  | nil =>
    show Line.push lf cr a ⟨[], [lf]⟩ = endedLine lf cr [a]
    rw [Line.push, endedLine]
    have hlast : [a].getLast? = some cr ↔ a = cr := Option.some_inj
    by_cases hcr : a = cr
    · rw [if_pos ⟨hcr, rfl⟩, if_pos (hlast.mpr hcr)]
      rfl
    · rw [if_neg fun h => hcr h.1, if_neg fun h => hcr (hlast.mp h)]
  | cons b front =>
    rw [endedLine, endedLine, List.getLast?_cons_cons]
    have hnot : ∀ line : Line α, line.delimiter ≠ [lf] ∨ line.content ≠ [] →
        Line.push lf cr a line = ⟨a :: line.content, line.delimiter⟩ := by
      rintro line hline
      rw [Line.push, if_neg]
      rintro ⟨-, rfl⟩
      exact hline.elim (fun h => h rfl) fun h => h rfl
    split
    · exact hnot _ (.inl (by simp))
    · exact hnot _ (.inr (by simp))

/-- The first LF ends the first line. -/
theorem splitLines_append {front : List α} (h : lf ∉ front) (rest : List α) :
    splitLines lf cr (front ++ lf :: rest) = endedLine lf cr front :: splitLines lf cr rest := by
  induction front with
  | nil => exact if_pos rfl
  | cons a front ih =>
    rw [List.mem_cons, not_or] at h
    rw [List.cons_append, splitLines, if_neg (Ne.symm h.1), ih h.2, List.modifyHead_cons,
      push_endedLine]

theorem endedLine_whole (front : List α) : (endedLine lf cr front).whole = front ++ [lf] := by
  rw [endedLine]
  split
  · rename_i hcr
    obtain ⟨init, rfl⟩ := List.getLast?_eq_some_iff.mp hcr
    rw [List.dropLast_concat, Line.whole, List.append_assoc]
    rfl
  · rfl

/-- A text either has no LF, or a first one. -/
theorem lines_induction {motive : List α → Prop} (lf : α)
    (last : ∀ text, lf ∉ text → motive text)
    (ended : ∀ front rest, lf ∉ front → motive rest → motive (front ++ lf :: rest))
    (text : List α) : motive text := by
  induction hn : text.length using Nat.strong_induction_on generalizing text with
  | _ n ih =>
    by_cases hmem : lf ∈ text
    · obtain ⟨front, rest, rfl, hfront⟩ := List.eq_append_cons_of_mem hmem
      refine ended front rest hfront (ih rest.length ?_ rest rfl)
      rw [← hn, List.length_append, List.length_cons]
      omega
    · exact last text hmem

theorem splitLines_ne_nil (text : List α) : splitLines lf cr text ≠ [] := by
  induction text using lines_induction lf with
  | last text h => rw [splitLines_of_not_mem h]; exact nofun
  | ended front rest h => rw [splitLines_append h]; exact nofun

/-- The lines together are the text. -/
theorem flatMap_whole_splitLines (text : List α) :
    (splitLines lf cr text).flatMap Line.whole = text := by
  induction text using lines_induction lf with
  | last text h =>
    rw [splitLines_of_not_mem h]
    show text ++ [] ++ [] = text
    rw [List.append_nil, List.append_nil]
  | ended front rest h ih =>
    rw [splitLines_append h, List.flatMap_cons, endedLine_whole, ih, List.append_assoc]
    rfl

/-- The text from one of its lines on. -/
theorem splitLines_drop {text : List α} {k : Nat} (h : k < (splitLines lf cr text).length) :
    ∃ rest, text = ((splitLines lf cr text).take k).flatMap Line.whole ++ rest ∧
      splitLines lf cr rest = (splitLines lf cr text).drop k := by
  induction text using lines_induction lf generalizing k with
  | last text hnot =>
    rw [splitLines_of_not_mem hnot] at h ⊢
    obtain rfl : k = 0 := Nat.lt_one_iff.mp h
    exact ⟨text, rfl, splitLines_of_not_mem hnot⟩
  | ended front rest hnot ih =>
    cases k with
    | zero => exact ⟨_, rfl, rfl⟩
    | succ k =>
      rw [splitLines_append hnot, List.length_cons, Nat.add_lt_add_iff_right] at h
      obtain ⟨rest', hrest, hlines⟩ := ih h
      refine ⟨rest', ?_, ?_⟩
      · rw [splitLines_append hnot, List.take_succ_cons, List.flatMap_cons, endedLine_whole]
        rw [List.append_assoc, List.append_assoc, ← hrest]
        rfl
      · rw [hlines, splitLines_append hnot, List.drop_succ_cons]

end Split

-- ============================================================================
-- Windows
-- ============================================================================

theorem windowText_cons {line : Line α} {rest : List (Line α)} (h : rest ≠ []) :
    windowText (line :: rest) = line.whole ++ windowText rest := by
  cases rest with
  | nil => exact absurd rfl h
  | cons next rest => rfl

theorem windowText_initial (lines : List (Line α)) : windowText lines <+: lines.flatMap Line.whole := by
  induction lines with
  | nil => exact List.prefix_rfl
  | cons line rest ih =>
    cases rest with
    | nil =>
      refine ⟨line.delimiter, ?_⟩
      show line.content ++ line.delimiter = line.whole ++ []
      rw [List.append_nil]
      rfl
    | cons next rest => exact (List.prefix_append_right_inj line.whole).mpr ih

theorem take_whole_initial (lines : List (Line α)) (n : Nat) :
    (lines.take n).flatMap Line.whole <+: lines.flatMap Line.whole := by
  conv_rhs => rw [← List.take_append_drop n lines, List.flatMap_append]
  exact List.prefix_append _ _

/-- All of the lines together end where the text ends. -/
theorem windowText_splitLines [DecidableEq α] {lf cr : α} (text : List α) :
    windowText (splitLines lf cr text) = text := by
  induction text using lines_induction lf with
  | last text h => rw [splitLines_of_not_mem h]; rfl
  | ended front rest h ih =>
    rw [splitLines_append h, windowText_cons (splitLines_ne_nil rest), endedLine_whole, ih,
      List.append_assoc]
    rfl

-- ============================================================================
-- Encoded lines
-- ============================================================================

/-- An encoding that leaves the two delimiters alone in the texts of some characters. -/
structure KeepsLines (f : α → List β) (valid : α → Prop) (lf cr : α) (lf' cr' : β) : Prop where
  lf_eq : f lf = [lf']
  cr_eq : f cr = [cr']
  lf_not_mem : ∀ a, valid a → a ≠ lf → lf' ∉ f a
  cr_not_mem : ∀ a, valid a → a ≠ cr → cr' ∉ f a
  ne_nil : ∀ a, f a ≠ []

namespace KeepsLines

variable {f : α → List β} {valid : α → Prop} {lf cr : α} {lf' cr' : β} {text : List α}

theorem not_mem (h : KeepsLines f valid lf cr lf' cr') (hvalid : ∀ a ∈ text, valid a)
    (htext : lf ∉ text) : lf' ∉ text.flatMap f := by
  intro hmem
  obtain ⟨a, ha, hlf⟩ := List.mem_flatMap.mp hmem
  refine h.lf_not_mem a (hvalid a ha) ?_ hlf
  rintro rfl
  exact htext ha

/-- The last character is a CR before the encoding and after it. -/
theorem getLast_eq_iff (h : KeepsLines f valid lf cr lf' cr') (hvalid : ∀ a ∈ text, valid a) :
    (text.flatMap f).getLast? = some cr' ↔ text.getLast? = some cr := by
  rcases List.eq_nil_or_concat' text with rfl | ⟨init, a, rfl⟩
  · exact iff_of_false nofun nofun
  · rw [List.flatMap_append, List.flatMap_singleton, List.getLast?_concat, Option.some_inj,
      List.getLast?_append_of_ne_nil _ (h.ne_nil a)]
    constructor
    · intro hcr
      by_contra hne
      exact h.cr_not_mem a (hvalid a (by simp)) hne (List.mem_of_getLast? hcr)
    · rintro rfl
      rw [h.cr_eq]
      rfl

theorem dropLast_flatMap (h : KeepsLines f valid lf cr lf' cr') (hcr : text.getLast? = some cr) :
    (text.flatMap f).dropLast = text.dropLast.flatMap f := by
  obtain ⟨init, rfl⟩ := List.getLast?_eq_some_iff.mp hcr
  rw [List.flatMap_append, List.flatMap_singleton, h.cr_eq, List.dropLast_concat,
    List.dropLast_concat]

theorem encode_endedLine [DecidableEq α] [DecidableEq β] (h : KeepsLines f valid lf cr lf' cr')
    (hvalid : ∀ a ∈ text, valid a) :
    endedLine lf' cr' (text.flatMap f) = (endedLine lf cr text).encode f := by
  rw [endedLine, endedLine]
  by_cases hcr : text.getLast? = some cr
  · rw [if_pos hcr, if_pos ((h.getLast_eq_iff hvalid).mpr hcr), h.dropLast_flatMap hcr, Line.encode,
      List.flatMap_cons, h.cr_eq, List.flatMap_singleton, h.lf_eq]
    rfl
  · rw [if_neg hcr, if_neg fun hcr' => hcr ((h.getLast_eq_iff hvalid).mp hcr'), Line.encode,
      List.flatMap_singleton, h.lf_eq]

/-- The lines of the encoded text are the encoded lines. -/
theorem splitLines_flatMap [DecidableEq α] [DecidableEq β] (h : KeepsLines f valid lf cr lf' cr')
    (hvalid : ∀ a ∈ text, valid a) :
    splitLines lf' cr' (text.flatMap f) = (splitLines lf cr text).map (Line.encode f) := by
  induction text using lines_induction lf with
  | last text hnot =>
    rw [splitLines_of_not_mem (h.not_mem hvalid hnot), splitLines_of_not_mem hnot]
    rfl
  | ended front rest hnot ih =>
    have hfront : ∀ a ∈ front, valid a := fun a ha => hvalid a (List.mem_append_left _ ha)
    have hrest : ∀ a ∈ rest, valid a := fun a ha =>
      hvalid a (List.mem_append_right _ (List.mem_cons_of_mem lf ha))
    rw [List.flatMap_append, List.flatMap_cons, h.lf_eq, List.singleton_append,
      splitLines_append (h.not_mem hfront hnot), splitLines_append hnot, List.map_cons,
      h.encode_endedLine hfront, ih hrest]

end KeepsLines

theorem encode_whole (f : α → List β) (line : Line α) :
    (line.encode f).whole = line.whole.flatMap f := by
  rw [Line.whole, Line.whole, List.flatMap_append]
  rfl

theorem windowText_encode (f : α → List β) (lines : List (Line α)) :
    windowText (lines.map (Line.encode f)) = (windowText lines).flatMap f := by
  induction lines with
  | nil => rfl
  | cons line rest ih =>
    cases rest with
    | nil => rfl
    | cons next rest =>
      show (line.encode f).whole ++ _ = (line.whole ++ _).flatMap f
      rw [List.flatMap_append, encode_whole]
      exact congrArg _ ih

theorem flatMap_whole_encode (f : α → List β) (lines : List (Line α)) :
    (lines.map (Line.encode f)).flatMap Line.whole = (lines.flatMap Line.whole).flatMap f := by
  rw [List.flatMap_map, List.flatMap_assoc]
  exact List.flatMap_congr fun line _ => encode_whole f line

end PiRlm.Lib

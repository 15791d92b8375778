/-
  PiRlm.Lib.Json

  JSON values, `render` and its inverse `parseRaw`.

  The members of an object are kept in the order the value lists them, both when
  it is written and when it is read back, so the round trip holds with no
  condition on the value.
-/
import Mathlib
import PiRlm.Lib.JsonText

namespace PiRlm.Lib

/-- A JSON value over a number format `N`. -/
inductive Json (N : Type) where
  | null
  | bool (b : Bool)
  | num (n : N)
  | str (s : JsString)
  | arr (items : List (Json N))
  | obj (fields : List (JsString × Json N))
  deriving Repr

namespace Json

variable {N : Type}

/-- Induction over values, through the items of arrays and the members of objects. -/
@[elab_as_elim]
theorem ind {motive : Json N → Prop} (null : motive .null) (bool : ∀ b, motive (.bool b))
    (num : ∀ n, motive (.num n)) (str : ∀ s, motive (.str s))
    (arr : ∀ items, (∀ v ∈ items, motive v) → motive (.arr items))
    (obj : ∀ fields : List (JsString × Json N), (∀ f ∈ fields, motive f.2) →
      motive (.obj fields)) (v : Json N) : motive v :=
  @Json.rec N motive (fun items => ∀ v ∈ items, motive v)
    (fun fields => ∀ f ∈ fields, motive f.2) (fun f => motive f.2)
    null bool num str arr obj (fun _ h => absurd h List.not_mem_nil)
    (fun _ _ hv hs => List.forall_mem_cons.mpr ⟨hv, hs⟩)
    (fun _ h => absurd h List.not_mem_nil)
    (fun _ _ hf hs => List.forall_mem_cons.mpr ⟨hf, hs⟩) (fun _ _ hv => hv) v

/-! ## Nesting -/

mutual
/-- Nesting depth: zero for a value without children. -/
def depth : Json N → Nat
  | .arr items => depthItems items
  | .obj fields => depthFields fields
  | _ => 0
termination_by structural v => v

/-- Depth of an array with these items. -/
def depthItems : List (Json N) → Nat
  | [] => 0
  | v :: items => max (v.depth + 1) (depthItems items)
termination_by structural items => items

/-- Depth of an object with these members. -/
def depthFields : List (JsString × Json N) → Nat
  | [] => 0
  | (_, v) :: fields => max (v.depth + 1) (depthFields fields)
termination_by structural fields => fields
end

theorem depthItems_le {items : List (Json N)} {d : Nat} :
    depthItems items ≤ d ↔ ∀ v ∈ items, v.depth + 1 ≤ d := by
  induction items with
  | nil => simp [depthItems]
  | cons v items ih => simp only [depthItems, max_le_iff, ih, List.forall_mem_cons]

theorem depthFields_le {fields : List (JsString × Json N)} {d : Nat} :
    depthFields fields ≤ d ↔ ∀ f ∈ fields, f.2.depth + 1 ≤ d := by
  induction fields with
  | nil => simp [depthFields]
  | cons f fields ih => simp only [depthFields, max_le_iff, ih, List.forall_mem_cons]

/-! ## Predicates on every node -/

mutual
/-- The predicate holds of the value and of every value inside it. -/
def all (p : Json N → Bool) : Json N → Bool
  | .arr items => p (.arr items) && allItems p items
  | .obj fields => p (.obj fields) && allFields p fields
  | v => p v
termination_by structural v => v

/-- `all` on the items of an array. -/
def allItems (p : Json N → Bool) : List (Json N) → Bool
  | [] => true
  | v :: items => v.all p && allItems p items
termination_by structural items => items

/-- `all` on the members of an object. -/
def allFields (p : Json N → Bool) : List (JsString × Json N) → Bool
  | [] => true
  | (_, v) :: fields => v.all p && allFields p fields
termination_by structural fields => fields
end

theorem allItems_iff {p : Json N → Bool} {items : List (Json N)} :
    allItems p items = true ↔ ∀ v ∈ items, v.all p = true := by
  induction items with
  | nil => simp [allItems]
  | cons v items ih => simp only [allItems, Bool.and_eq_true, ih, List.forall_mem_cons]

theorem allFields_iff {p : Json N → Bool} {fields : List (JsString × Json N)} :
    allFields p fields = true ↔ ∀ f ∈ fields, f.2.all p = true := by
  induction fields with
  | nil => simp [allFields]
  | cons f fields ih => simp only [allFields, Bool.and_eq_true, ih, List.forall_mem_cons]

theorem all_arr {p : Json N → Bool} {items : List (Json N)} :
    (Json.arr items).all p = true ↔ p (.arr items) = true ∧ ∀ v ∈ items, v.all p = true := by
  rw [all, Bool.and_eq_true, allItems_iff]

theorem all_obj {p : Json N → Bool} {fields : List (JsString × Json N)} :
    (Json.obj fields).all p = true ↔
      p (.obj fields) = true ∧ ∀ f ∈ fields, f.2.all p = true := by
  rw [all, Bool.and_eq_true, allFields_iff]

/-! ## Writing -/

variable [JsonNumber N]

mutual
/-- Text of a value, members of an object in the order listed. -/
def render : Json N → JsString
  | .null => js "null"
  | .bool b => if b then js "true" else js "false"
  | .num n => JsonNumber.text n
  | .str s => quote s
  | .arr [] => js "[]"
  | .arr (v :: items) => 0x5B :: v.render ++ renderItems items
  | .obj [] => js "\x7b\x7d"
  | .obj ((k, v) :: fields) => 0x7B :: quote k ++ 0x3A :: v.render ++ renderFields fields
termination_by structural v => v

/-- Text after the first item of an array. -/
def renderItems : List (Json N) → JsString
  | [] => [0x5D]
  | v :: items => 0x2C :: v.render ++ renderItems items
termination_by structural items => items

/-- Text after the first member of an object. -/
def renderFields : List (JsString × Json N) → JsString
  | [] => [0x7D]
  | (k, v) :: fields => 0x2C :: quote k ++ 0x3A :: v.render ++ renderFields fields
termination_by structural fields => fields
end

/-! ## Reading -/

/-- JSON white space. -/
def isSpace (u : CodeUnit) : Bool :=
  u == 0x20 || u == 0x09 || u == 0x0A || u == 0x0D

/-- The text after its leading white space. -/
def skipSpace (s : JsString) : JsString :=
  s.dropWhile isSpace

/-- The rest of the text after a keyword. -/
def scanKeyword (word : JsString) (s : JsString) : Option JsString :=
  if word.isPrefixOf s then some (s.drop word.length) else none

mutual
/-- One value at the front of the text, and the rest.  The first argument bounds
    the recursion; the length of the text is always enough. -/
def parseValue : Nat → JsString → Option (Json N × JsString)
  | 0, _ => none
  | fuel + 1, s =>
    match skipSpace s with
    | [] => none
    | u :: rest =>
      if u = 0x22 then (scanString rest).map fun p => (.str p.1, p.2)
      else if u = 0x5B then
        match skipSpace rest with
        | [] => none
        | v :: rest' =>
          if v = 0x5D then some (.arr [], rest')
          else (parseValue fuel rest).bind fun p =>
            (parseItems fuel p.2).map fun q => (.arr (p.1 :: q.1), q.2)
      else if u = 0x7B then
        match skipSpace rest with
        | [] => none
        | v :: rest' =>
          if v = 0x7D then some (.obj [], rest')
          else (parseMember fuel rest).bind fun p =>
            (parseFields fuel p.2).map fun q => (.obj (p.1 :: q.1), q.2)
      else if u = 0x6E then (scanKeyword (js "null") (u :: rest)).map fun r => (.null, r)
      else if u = 0x74 then (scanKeyword (js "true") (u :: rest)).map fun r => (.bool true, r)
      else if u = 0x66 then
        (scanKeyword (js "false") (u :: rest)).map fun r => (.bool false, r)
      else (scanNumber (u :: rest)).map fun p => (.num (JsonNumber.ofText p.1), p.2)

/-- The items after the first one, up to the closing bracket. -/
def parseItems : Nat → JsString → Option (List (Json N) × JsString)
  | 0, _ => none
  | fuel + 1, s =>
    match skipSpace s with
    | [] => none
    | u :: rest =>
      if u = 0x5D then some ([], rest)
      else if u = 0x2C then
        (parseValue fuel rest).bind fun p =>
          (parseItems fuel p.2).map fun q => (p.1 :: q.1, q.2)
      else none

/-- One member: key, colon, value. -/
def parseMember : Nat → JsString → Option ((JsString × Json N) × JsString)
  | 0, _ => none
  | fuel + 1, s =>
    match skipSpace s with
    | [] => none
    | u :: rest =>
      if u = 0x22 then
        (scanString rest).bind fun k =>
          match skipSpace k.2 with
          | [] => none
          | v :: rest' =>
            if v = 0x3A then (parseValue fuel rest').map fun p => ((k.1, p.1), p.2) else none
      else none

/-- The members after the first one, up to the closing brace. -/
def parseFields : Nat → JsString → Option (List (JsString × Json N) × JsString)
  | 0, _ => none
  | fuel + 1, s =>
    match skipSpace s with
    | [] => none
    | u :: rest =>
      if u = 0x7D then some ([], rest)
      else if u = 0x2C then
        (parseMember fuel rest).bind fun p =>
          (parseFields fuel p.2).map fun q => (p.1 :: q.1, q.2)
      else none
end

/-- The value a whole text denotes, members in the order of the text. -/
def parseRaw (s : JsString) : Option (Json N) :=
  (parseValue (s.length + 1) s).bind fun p => if skipSpace p.2 = [] then some p.1 else none

/-! ## Round trip -/

theorem skipSpace_cons {u : CodeUnit} (h : isSpace u = false) (s : JsString) :
    skipSpace (u :: s) = u :: s := by
  simp [skipSpace, h]

theorem numberStop_nil : NumberStop [] := by
  simp [NumberStop]

theorem numberStop_cons {u : CodeUnit} (h : isNumberUnit u = false) (s : JsString) :
    NumberStop (u :: s) := by
  simp [NumberStop, h]

theorem isSpace_of_isNumberUnit {u : CodeUnit} (h : isNumberUnit u = true) :
    isSpace u = false ∧ u ≠ 0x22 ∧ u ≠ 0x5B ∧ u ≠ 0x7B ∧ u ≠ 0x6E ∧ u ≠ 0x74 ∧ u ≠ 0x66 ∧
      u ≠ 0x5D := by
  refine ⟨?_, ?_, ?_, ?_, ?_, ?_, ?_, ?_⟩
  · by_contra hs
    simp only [isSpace, Bool.not_eq_false, Bool.or_eq_true, beq_iff_eq] at hs
    rcases hs with ((rfl | rfl) | rfl) | rfl <;> exact absurd h (by decide)
  all_goals
    rintro rfl
    exact absurd h (by decide)

/-- First unit of a value's text. -/
theorem render_head (v : Json N) :
    ∃ u rest, v.render = u :: rest ∧ isSpace u = false ∧ u ≠ 0x5D ∧ u.val < 0x80 := by
  cases v with
  | null => exact ⟨_, _, rfl, by decide, by decide, by decide⟩
  | bool b => cases b <;> exact ⟨_, _, rfl, by decide, by decide, by decide⟩
  | num n =>
    have hlit := JsonNumber.text_isNumberLiteral n
    obtain ⟨u, rest, htext⟩ := List.exists_cons_of_ne_nil (isNumberLiteral_ne_nil hlit)
    have hunit := isNumberLiteral_units hlit u (by simp [htext])
    have hu := isSpace_of_isNumberUnit hunit
    exact ⟨u, rest, htext, hu.1, hu.2.2.2.2.2.2.2, (isNumberUnit_bounds hunit).2⟩
  | str s => exact ⟨_, _, rfl, by decide, by decide, by decide⟩
  | arr items => cases items <;> exact ⟨_, _, rfl, by decide, by decide, by decide⟩
  | obj fields => cases fields <;> exact ⟨_, _, rfl, by decide, by decide, by decide⟩

/-- Reading the text of `v` gives `v`, with fuel above the text's length. -/
def Reads (v : Json N) : Prop :=
  ∀ fuel rest, v.render.length < fuel → NumberStop rest →
    parseValue fuel (v.render ++ rest) = some (v, rest)

theorem parseValue_keyword {u : CodeUnit} {word rest : JsString} {v : Json N} {fuel : Nat}
    (h : ∀ s, parseValue (N := N) (fuel + 1) (u :: s) =
      (scanKeyword (u :: word) (u :: s)).map fun r => (v, r)) :
    parseValue (fuel + 1) (u :: word ++ rest) = some (v, rest) := by
  rw [List.cons_append, h, ← List.cons_append]
  have hpre : (u :: word).isPrefixOf (u :: word ++ rest) = true := by
    rw [List.isPrefixOf_iff_prefix]
    exact List.prefix_append _ _
  rw [scanKeyword, if_pos hpre, List.drop_left]
  rfl

theorem reads_null : Reads (N := N) .null := by
  rintro (_ | fuel) rest hfuel _
  · exact absurd hfuel (by simp)
  · exact parseValue_keyword fun s => rfl

theorem reads_bool (b : Bool) : Reads (N := N) (.bool b) := by
  rintro (_ | fuel) rest hfuel _
  · exact absurd hfuel (by simp)
  · cases b with
    | true => exact parseValue_keyword fun s => rfl
    | false => exact parseValue_keyword fun s => rfl

theorem reads_num (n : N) : Reads (.num n) := by
  rintro (_ | fuel) rest hfuel hstop
  · exact absurd hfuel (by simp)
  · have hlit := JsonNumber.text_isNumberLiteral n
    obtain ⟨u, t, htext⟩ := List.exists_cons_of_ne_nil (isNumberLiteral_ne_nil hlit)
    obtain ⟨hsp, h22, h5b, h7b, h6e, h74, h66, -⟩ :=
      isSpace_of_isNumberUnit (isNumberLiteral_units hlit u (by simp [htext]))
    have hscan := scanNumber_literal hlit hstop
    rw [render, htext, List.cons_append, parseValue, skipSpace_cons hsp]
    simp only [h22, h5b, h7b, h6e, h74, h66, if_false]
    rw [← List.cons_append, ← htext, hscan]
    simp [JsonNumber.ofText_text]

theorem reads_str (s : JsString) : Reads (N := N) (.str s) := by
  rintro (_ | fuel) rest hfuel _
  · exact absurd hfuel (by simp)
  · rw [render, quote, List.cons_append, List.cons_append, parseValue,
      skipSpace_cons (by decide), List.append_assoc]
    simp only [if_true, List.cons_append, List.nil_append, scanString_quoteUnits, Option.map_some]

theorem numberStop_renderItems (items : List (Json N)) (rest : JsString) :
    NumberStop (renderItems items ++ rest) := by
  cases items <;> exact numberStop_cons (by decide) _

theorem numberStop_renderFields (fields : List (JsString × Json N)) (rest : JsString) :
    NumberStop (renderFields fields ++ rest) := by
  rcases fields with _ | ⟨⟨k, v⟩, fields⟩ <;> exact numberStop_cons (by decide) _

theorem renderItems_length_pos (items : List (Json N)) : 0 < (renderItems items).length := by
  cases items <;> simp [renderItems]

theorem renderFields_length_pos (fields : List (JsString × Json N)) :
    0 < (renderFields fields).length := by
  rcases fields with _ | ⟨⟨k, v⟩, fields⟩ <;> simp [renderFields]

theorem parseItems_render {items : List (Json N)} (h : ∀ v ∈ items, Reads v)
    {fuel : Nat} {rest : JsString} (hfuel : (renderItems items).length ≤ fuel) :
    parseItems fuel (renderItems items ++ rest) = some (items, rest) := by
  induction items generalizing fuel with
  | nil =>
    obtain ⟨fuel, rfl⟩ : ∃ f, fuel = f + 1 := ⟨fuel - 1, by simp [renderItems] at hfuel; omega⟩
    rw [renderItems, List.cons_append, parseItems, skipSpace_cons (by decide)]
    simp
  | cons v items ih =>
    have hpos := renderItems_length_pos items
    simp only [renderItems, List.cons_append, List.length_cons, List.length_append] at hfuel
    obtain ⟨fuel, rfl⟩ : ∃ f, fuel = f + 1 := ⟨fuel - 1, by omega⟩
    have hv := h v (by simp) fuel (renderItems items ++ rest) (by omega)
      (numberStop_renderItems items rest)
    have hitems : parseItems fuel (renderItems items ++ rest) = some (items, rest) :=
      ih (fun w hw => h w (by simp [hw])) (by omega)
    rw [renderItems, List.cons_append, List.cons_append, parseItems,
      skipSpace_cons (by decide), List.append_assoc]
    simp [hv, hitems]

theorem reads_arr {items : List (Json N)} (h : ∀ v ∈ items, Reads v) : Reads (.arr items) := by
  intro fuel rest hfuel _
  obtain ⟨fuel, rfl⟩ : ∃ f, fuel = f + 1 := ⟨fuel - 1, by omega⟩
  cases items with
  | nil => rfl
  | cons v items =>
    obtain ⟨u, t, hhead, hsp, hclose, -⟩ := render_head v
    have hpos := renderItems_length_pos items
    simp only [render, List.cons_append, List.length_cons, List.length_append] at hfuel
    have hv := h v (by simp) fuel (renderItems items ++ rest) (by omega)
      (numberStop_renderItems items rest)
    have hitems : parseItems fuel (renderItems items ++ rest) = some (items, rest) :=
      parseItems_render (fun w hw => h w (by simp [hw])) (by omega)
    have hskip : skipSpace (v.render ++ (renderItems items ++ rest)) =
        u :: (t ++ (renderItems items ++ rest)) := by
      rw [hhead, List.cons_append, skipSpace_cons hsp]
    rw [render, List.cons_append, List.cons_append, parseValue, skipSpace_cons (by decide),
      List.append_assoc]
    simp [hskip, hclose, hv, hitems]

theorem parseMember_render {k : JsString} {v : Json N} (h : Reads v) {fuel : Nat}
    {rest : JsString} (hfuel : v.render.length + 1 < fuel) (hstop : NumberStop rest) :
    parseMember fuel (quote k ++ 0x3A :: (v.render ++ rest)) = some ((k, v), rest) := by
  obtain ⟨fuel, rfl⟩ : ∃ f, fuel = f + 1 := ⟨fuel - 1, by omega⟩
  have hv := h fuel rest (by omega) hstop
  rw [quote, List.cons_append, List.cons_append, parseMember, skipSpace_cons (by decide),
    List.append_assoc]
  simp [scanString_quoteUnits, skipSpace_cons (u := 0x3A) (by decide), hv]

theorem parseFields_render {fields : List (JsString × Json N)} (h : ∀ f ∈ fields, Reads f.2)
    {fuel : Nat} {rest : JsString} (hfuel : (renderFields fields).length ≤ fuel) :
    parseFields fuel (renderFields fields ++ rest) = some (fields, rest) := by
  induction fields generalizing fuel with
  | nil =>
    obtain ⟨fuel, rfl⟩ : ∃ f, fuel = f + 1 := ⟨fuel - 1, by simp [renderFields] at hfuel; omega⟩
    rw [renderFields, List.cons_append, parseFields, skipSpace_cons (by decide)]
    simp
  | cons f fields ih =>
    obtain ⟨k, v⟩ := f
    have hpos := renderFields_length_pos fields
    simp only [renderFields, quote, List.cons_append, List.length_cons, List.length_append]
      at hfuel
    obtain ⟨fuel, rfl⟩ : ∃ f, fuel = f + 1 := ⟨fuel - 1, by omega⟩
    have hkv : Reads v := h (k, v) (by simp)
    have hmem : parseMember fuel (quote k ++ 0x3A :: (v.render ++ (renderFields fields ++ rest))) =
        some ((k, v), renderFields fields ++ rest) :=
      parseMember_render hkv (by omega) (numberStop_renderFields fields rest)
    have hfields : parseFields fuel (renderFields fields ++ rest) = some (fields, rest) :=
      ih (fun w hw => h w (by simp [hw])) (by omega)
    rw [renderFields, List.cons_append, List.cons_append, List.cons_append, parseFields,
      skipSpace_cons (by decide), List.append_assoc, List.append_assoc, List.cons_append]
    simp [hmem, hfields]

theorem reads_obj {fields : List (JsString × Json N)} (h : ∀ f ∈ fields, Reads f.2) :
    Reads (.obj fields) := by
  intro fuel rest hfuel _
  obtain ⟨fuel, rfl⟩ : ∃ f, fuel = f + 1 := ⟨fuel - 1, by omega⟩
  rcases fields with _ | ⟨⟨k, v⟩, fields⟩
  · rfl
  · have hpos := renderFields_length_pos fields
    simp only [render, quote, List.cons_append, List.length_cons, List.length_append] at hfuel
    have hkv : Reads v := h (k, v) (by simp)
    have hmem : parseMember fuel (quote k ++ 0x3A :: (v.render ++ (renderFields fields ++ rest))) =
        some ((k, v), renderFields fields ++ rest) :=
      parseMember_render hkv (by omega) (numberStop_renderFields fields rest)
    have hfields : parseFields fuel (renderFields fields ++ rest) = some (fields, rest) :=
      parseFields_render (fun w hw => h w (by simp [hw])) (by omega)
    have hskip : ∀ t, skipSpace (quote k ++ t) = 0x22 :: (quoteUnits k ++ [0x22] ++ t) := by
      intro t
      rw [quote, List.cons_append, List.cons_append, skipSpace_cons (by decide)]
    rw [render, List.cons_append, List.cons_append, List.cons_append, parseValue,
      skipSpace_cons (by decide), List.append_assoc, List.append_assoc, List.cons_append]
    simp [hskip, hmem, hfields]

theorem reads (v : Json N) : Reads v := by
  induction v using Json.ind with
  | null => exact reads_null
  | bool b => exact reads_bool b
  | num n => exact reads_num n
  | str s => exact reads_str s
  | arr items ih => exact reads_arr ih
  | obj fields ih => exact reads_obj ih

/-- Reading back the text of a value gives the value. -/
theorem parseRaw_render (v : Json N) : parseRaw v.render = some v := by
  have h := reads v (v.render.length + 1) [] (Nat.lt_succ_self _) numberStop_nil
  rw [List.append_nil] at h
  rw [parseRaw, h, Option.bind_some, skipSpace, List.dropWhile_nil, if_pos rfl]

/-- Values with one text are one value, listing the same members in the same order. -/
theorem render_injective {v w : Json N} (h : v.render = w.render) : v = w := by
  have hv := parseRaw_render v
  rw [h, parseRaw_render w] at hv
  exact (Option.some.inj hv).symm

/-! ## Units of a text -/

/-- A text of printable ASCII units. -/
def Printable (s : JsString) : Prop :=
  ∀ u ∈ s, 0x20 ≤ u.val ∧ u.val < 0x80

theorem printable_of_all {s : JsString}
    (h : (s.all fun u => decide (0x20 ≤ u.val ∧ u.val < 0x80)) = true) : Printable s := by
  intro u hu
  exact of_decide_eq_true (List.all_eq_true.mp h u hu)

/-- A property of texts that concatenation keeps holds of the text of every value when
    it holds of printable ASCII and of quoted strings. -/
theorem render_induction {P : JsString → Prop} (append : ∀ s t, P s → P t → P (s ++ t))
    (ascii : ∀ s, Printable s → P s) (string : ∀ s, P (quote s)) (v : Json N) :
    P v.render := by
  have mark : ∀ u : CodeUnit, 0x20 ≤ u.val ∧ u.val < 0x80 → P [u] :=
    fun u hu => ascii [u] (List.forall_mem_cons.mpr ⟨hu, by simp⟩)
  have cons : ∀ u : CodeUnit, 0x20 ≤ u.val ∧ u.val < 0x80 → ∀ s, P s → P (u :: s) :=
    fun u hu s hs => append [u] s (mark u hu) hs
  have member : ∀ (k : JsString) (w : Json N), P w.render → P (quote k ++ 0x3A :: w.render) :=
    fun k w hw => append _ _ (string k) (cons _ (by decide) _ hw)
  have hitems : ∀ items : List (Json N), (∀ v ∈ items, P v.render) →
      P (renderItems items) := by
    intro items h
    induction items with
    | nil => exact mark _ (by decide)
    | cons v items ih =>
      rw [List.forall_mem_cons] at h
      rw [renderItems]
      exact append _ _ (cons _ (by decide) _ h.1) (ih h.2)
  have hfields : ∀ fields : List (JsString × Json N), (∀ f ∈ fields, P f.2.render) →
      P (renderFields fields) := by
    intro fields h
    induction fields with
    | nil => exact mark _ (by decide)
    | cons f fields ih =>
      rw [List.forall_mem_cons] at h
      rw [renderFields]
      exact append _ _ (cons _ (by decide) _ (member f.1 f.2 h.1)) (ih h.2)
  induction v using Json.ind with
  | null => exact ascii (js "null") (printable_of_all (by decide))
  | bool b =>
    cases b with
    | true => exact ascii (js "true") (printable_of_all (by decide))
    | false => exact ascii (js "false") (printable_of_all (by decide))
  | num n =>
    exact ascii _ fun u hu => isNumberUnit_bounds
      (isNumberLiteral_units (JsonNumber.text_isNumberLiteral n) u hu)
  | str s => exact string s
  | arr items ih =>
    cases items with
    | nil => exact append [0x5B] [0x5D] (mark _ (by decide)) (mark _ (by decide))
    | cons v items =>
      rw [List.forall_mem_cons] at ih
      rw [render]
      exact append _ _ (cons _ (by decide) _ ih.1) (hitems items ih.2)
  | obj fields ih =>
    rcases fields with _ | ⟨f, fields⟩
    · exact append [0x7B] [0x7D] (mark _ (by decide)) (mark _ (by decide))
    · rw [List.forall_mem_cons] at ih
      rw [render]
      exact append _ _ (cons _ (by decide) _ (member f.1 f.2 ih.1)) (hfields fields ih.2)

/-- No text holds a control character, so none holds a line feed. -/
theorem render_units (v : Json N) : ∀ u ∈ v.render, 0x20 ≤ u.val :=
  render_induction (P := fun s => ∀ u ∈ s, 0x20 ≤ u.val)
    (fun _ _ hs ht => List.forall_mem_append.mpr ⟨hs, ht⟩) (fun _ hs u hu => (hs u hu).1)
    quote_units v

theorem Printable.wellFormed {s : JsString} (h : Printable s) : WellFormed s := by
  apply wellFormed_of_units
  intro u hu
  have hb := h u hu
  unfold isSurrogate
  rw [decide_eq_false_iff_not]
  omega

/-- Every text is well formed: lone surrogates of strings and keys are escaped. -/
theorem render_wellFormed (v : Json N) : WellFormed v.render :=
  render_induction (fun _ _ => WellFormed.append) (fun _ => Printable.wellFormed)
    quote_wellFormed v

end Json

end PiRlm.Lib

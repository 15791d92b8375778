/-
  PiRlm.Shell.CanonicalJson

  The streaming encoder of `shell/canonical-json.ts`.

  `streamCanonicalJson` hands bounded fragments to a sink that may throw; it visits
  the members of an object in key-sort order and never rebuilds the object.  The sink
  is a state `σ` with an emission step, so the effects before a throw are those of the
  source.  `fragments` lists what a completed run emits.
-/
import Mathlib
import PiRlm.Core.Json

namespace PiRlm.Shell

open PiRlm.Lib PiRlm.Lib.Json PiRlm.Core

def maxFragmentCodeUnits : Nat := 8 * 1024

/-- One step of the path to a node. -/
inductive PathPart where
  | key (k : JsString)
  | index (i : Nat)
  deriving Repr, DecidableEq

def pathText (parts : List PathPart) : JsString :=
  parts.foldl (fun path part =>
    match part with
    | .index i => path ++ js "[" ++ decimal i ++ js "]"
    | .key k =>
      if isIdentifier k then path ++ js "." ++ k else path ++ js "[" ++ quote k ++ js "]")
    (js "$")

/-- `code.toString(16)`. -/
def hexText (code : Nat) : JsString :=
  if code = 0 then [0x30] else (Nat.digits 16 code).reverse.map hexDigit

/-- `\u` and the code, padded to four digits. -/
def hexEscape (code : Nat) : JsString :=
  js "\\u" ++ (hexText code).leftpad 4 0x30

/-! ## Strings -/

/-- Text the loop of `emitString` appends for a unit that starts no surrogate pair. -/
def emitUnit (u : CodeUnit) : JsString :=
  if u = 0x08 then js "\\b"
  else if u = 0x09 then js "\\t"
  else if u = 0x0A then js "\\n"
  else if u = 0x0C then js "\\f"
  else if u = 0x0D then js "\\r"
  else if u = 0x22 then js "\\\""
  else if u = 0x5C then js "\\\\"
  else if u.val < 0x20 then hexEscape u.val
  else if isHighSurrogate u then hexEscape u.val
  else if isLowSurrogate u then hexEscape u.val
  else [u]

/-- Texts the loop appends, one for each unit or surrogate pair. -/
def stringPieces : JsString → List JsString
  | [] => []
  | [u] => [emitUnit u]
  | u :: v :: rest =>
    if isHighSurrogate u && isLowSurrogate v then [u, v] :: stringPieces rest
    else emitUnit u :: stringPieces (v :: rest)

section Sink

variable {N : Type} {σ : Type}

/-- `append`: a text that would overflow the open fragment flushes it first. -/
def appendPiece (emit : σ → JsString → Except JsString σ) (st : σ × JsString)
    (text : JsString) : Except JsString (σ × JsString) :=
  if maxFragmentCodeUnits < st.2.length + text.length then
    (emit st.1 st.2).map fun s => (s, text)
  else .ok (st.1, st.2 ++ text)

def emitString (emit : σ → JsString → Except JsString σ) (value : JsString) (s : σ) :
    Except JsString σ :=
  ((stringPieces value ++ [[0x22]]).foldlM (appendPiece emit) (s, [0x22])).bind fun st =>
    if 0 < st.2.length then emit st.1 st.2 else .ok st.1

/-- Emission steps in turn. -/
def emitAll (steps : List (σ → Except JsString σ)) (s : σ) : Except JsString σ :=
  steps.foldlM (fun s step => step s) s

mutual
/-- Fragments of a value to a sink, children below `path` at `depth`. -/
def streamCanonicalJson [JsonNumber N] (emit : σ → JsString → Except JsString σ) :
    Json N → List PathPart → Nat → σ → Except JsString σ
  | .arr items, path, depth, s =>
    if maxJsonDepth < depth then .error (depthMessage (pathText path))
    else emitAll ([fun s => emit s (js "[")] ++ streamItems emit items path 0 depth ++
      [fun s => emit s (js "]")]) s
  | .obj fields, path, depth, s =>
    if maxJsonDepth < depth then .error (depthMessage (pathText path))
    else emitAll ([fun s => emit s (js "\x7b")] ++
      ((sortBy Prod.fst (streamFields emit fields path depth)).mapIdx fun i f =>
        [fun s => if 0 < i then emit s (js ",") else .ok s,
          fun s => emitString emit f.1 s, fun s => emit s (js ":"), f.2]).flatten ++
      [fun s => emit s (js "\x7d")]) s
  | .null, path, depth, s =>
    if maxJsonDepth < depth then .error (depthMessage (pathText path)) else emit s (js "null")
  | .bool b, path, depth, s =>
    if maxJsonDepth < depth then .error (depthMessage (pathText path))
    else emit s (if b then js "true" else js "false")
  | .num n, path, depth, s =>
    if maxJsonDepth < depth then .error (depthMessage (pathText path))
    else emit s (JsonNumber.text n)
  | .str t, path, depth, s =>
    if maxJsonDepth < depth then .error (depthMessage (pathText path))
    else emitString emit t s
termination_by structural v => v

/-- Steps for the items of an array from index `i` on. -/
def streamItems [JsonNumber N] (emit : σ → JsString → Except JsString σ) :
    List (Json N) → List PathPart → Nat → Nat → List (σ → Except JsString σ)
  | [], _, _, _ => []
  | v :: items, path, i, depth =>
    (fun s => if 0 < i then emit s (js ",") else .ok s) ::
      streamCanonicalJson emit v (path ++ [.index i]) (depth + 1) ::
        streamItems emit items path (i + 1) depth
termination_by structural items => items

/-- The members with the step that streams their value, in the order of the object. -/
def streamFields [JsonNumber N] (emit : σ → JsString → Except JsString σ) :
    List (JsString × Json N) → List PathPart → Nat →
    List (JsString × (σ → Except JsString σ))
  | [], _, _ => []
  | (k, v) :: fields, path, depth =>
    (k, streamCanonicalJson emit v (path ++ [.key k]) (depth + 1)) ::
      streamFields emit fields path depth
termination_by structural fields => fields
end

end Sink

/-! ## What a string emits -/

/-- Fragments of a text appended piece by piece to an open fragment. -/
def splitFragments : JsString → List JsString → List JsString
  | fragment, [] => if 0 < fragment.length then [fragment] else []
  | fragment, text :: texts =>
    if maxFragmentCodeUnits < fragment.length + text.length then
      fragment :: splitFragments text texts
    else splitFragments (fragment ++ text) texts

theorem splitFragments_nil (fragment : JsString) :
    splitFragments fragment [] = if 0 < fragment.length then [fragment] else [] := rfl

theorem splitFragments_cons (fragment text : JsString) (texts : List JsString) :
    splitFragments fragment (text :: texts) =
      if maxFragmentCodeUnits < fragment.length + text.length then
        fragment :: splitFragments text texts
      else splitFragments (fragment ++ text) texts := rfl

/-- Fragments of one string literal. -/
def stringFragments (value : JsString) : List JsString :=
  splitFragments [0x22] (stringPieces value ++ [[0x22]])

section

variable {σ : Type} {emit : σ → JsString → Except JsString σ}

theorem foldlM_appendPiece (texts : List JsString) (s : σ) (fragment : JsString) :
    ((texts.foldlM (appendPiece emit) (s, fragment)).bind fun st =>
      if 0 < st.2.length then emit st.1 st.2 else .ok st.1) =
      (splitFragments fragment texts).foldlM emit s := by
  induction texts generalizing s fragment with
  | nil =>
    rw [List.foldlM_nil, splitFragments_nil]
    show (if 0 < fragment.length then emit s fragment else .ok s) = _
    split_ifs
    · rw [List.foldlM_cons]
      cases emit s fragment <;> rfl
    · rfl
  | cons text texts ih =>
    rw [List.foldlM_cons, appendPiece, splitFragments_cons]
    split_ifs with h
    · rw [List.foldlM_cons]
      cases emit s fragment with
      | error e => rfl
      | ok s' => exact ih s' text
    · exact ih s (fragment ++ text)

theorem emitString_eq (value : JsString) (s : σ) :
    emitString emit value s = (stringFragments value).foldlM emit s :=
  foldlM_appendPiece _ _ _

end

theorem splitFragments_flatten (fragment : JsString) (texts : List JsString) :
    (splitFragments fragment texts).flatten = fragment ++ texts.flatten := by
  induction texts generalizing fragment with
  | nil =>
    rw [splitFragments_nil]
    split_ifs with h
    · simp
    · simpa using h
  | cons text texts ih =>
    rw [splitFragments_cons]
    split_ifs
    · rw [List.flatten_cons, ih, List.flatten_cons]
    · rw [ih, List.flatten_cons, List.append_assoc]

theorem splitFragments_wellFormed {fragment : JsString} {texts : List JsString}
    (hf : WellFormed fragment) (ht : ∀ text ∈ texts, WellFormed text) :
    ∀ f ∈ splitFragments fragment texts, WellFormed f := by
  induction texts generalizing fragment with
  | nil =>
    rw [splitFragments_nil]
    split_ifs <;> simp [hf]
  | cons text texts ih =>
    rw [List.forall_mem_cons] at ht
    rw [splitFragments_cons]
    split_ifs with h
    · exact List.forall_mem_cons.mpr ⟨hf, ih ht.1 ht.2⟩
    · exact ih (hf.append ht.1) ht.2

/-! ### The escapes of the two encoders -/

/-- Hexadecimal digits of a code, most significant first, without leading zeros. -/
theorem hexText_of_lt {code : Nat} (h : code < 0x10000) :
    hexText code =
      if code < 0x10 then [hexDigit code]
      else if code < 0x100 then [hexDigit (code / 0x10), hexDigit (code % 0x10)]
      else if code < 0x1000 then
        [hexDigit (code / 0x100), hexDigit (code / 0x10 % 0x10), hexDigit (code % 0x10)]
      else [hexDigit (code / 0x1000), hexDigit (code / 0x100 % 0x10),
        hexDigit (code / 0x10 % 0x10), hexDigit (code % 0x10)] := by
  have step : ∀ n, 0 < n → Nat.digits 16 n = n % 16 :: Nat.digits 16 (n / 16) :=
    fun n hn => Nat.digits_def' (by decide) hn
  have last : ∀ n, 0 < n → n < 16 → Nat.digits 16 n = [n] :=
    fun n hn hlt => Nat.digits_of_lt 16 n (by omega) hlt
  have h2 : code / 16 / 16 = code / 0x100 := by omega
  have h3 : code / 0x100 / 16 = code / 0x1000 := by omega
  by_cases h0 : code = 0
  · subst h0
    rfl
  rw [hexText, if_neg h0]
  split_ifs with h1
  · rw [last code (by omega) h1]
    rfl
  · rw [step code (by omega), last (code / 16) (by omega) (by omega)]
    rfl
  · rw [step code (by omega), step (code / 16) (by omega), h2,
      last (code / 0x100) (by omega) (by omega)]
    rfl
  · rw [step code (by omega), step (code / 16) (by omega), h2, step (code / 0x100) (by omega),
      h3, last (code / 0x1000) (by omega) (by omega)]
    rfl

/-- The padded escape has exactly the four digits of the code unit. -/
theorem hexEscape_eq (u : CodeUnit) : hexEscape u.val = Lib.hexEscape u := by
  have hu := u.isLt
  have hzero : hexDigit 0 = 0x30 := by decide
  rw [hexEscape, hexText_of_lt hu, Lib.hexEscape]
  split_ifs with h1 h2 h3
  · have e1 : u.val / 0x1000 = 0 := by omega
    have e2 : u.val / 0x100 % 0x10 = 0 := by omega
    have e3 : u.val / 0x10 % 0x10 = 0 := by omega
    have e4 : u.val % 0x10 = u.val := by omega
    rw [e1, e2, e3, e4, hzero]
    rfl
  · have e1 : u.val / 0x1000 = 0 := by omega
    have e2 : u.val / 0x100 % 0x10 = 0 := by omega
    have e3 : u.val / 0x10 % 0x10 = u.val / 0x10 := by omega
    rw [e1, e2, e3, hzero]
    rfl
  · have e1 : u.val / 0x1000 = 0 := by omega
    have e2 : u.val / 0x100 % 0x10 = u.val / 0x100 := by omega
    rw [e1, e2, hzero]
    rfl
  · rfl

theorem isSurrogate_iff (u : CodeUnit) :
    isSurrogate u.val = true ↔ isHighSurrogate u = true ∨ isLowSurrogate u = true := by
  simp only [isSurrogate, isHighSurrogate, isLowSurrogate, decide_eq_true_eq]
  omega

theorem emitUnit_eq (u : CodeUnit) : emitUnit u = quoteUnit u := by
  have hdefault : (if u.val < 0x20 then hexEscape u.val
      else if isHighSurrogate u then hexEscape u.val
      else if isLowSurrogate u then hexEscape u.val else [u]) =
      if u.val < 0x20 ∨ isSurrogate u.val = true then Lib.hexEscape u else [u] := by
    have hs := isSurrogate_iff u
    rw [hexEscape_eq]
    split_ifs <;> first | rfl | tauto
  unfold emitUnit quoteUnit shortEscape
  rw [hdefault]
  split_ifs <;> rfl

theorem stringPieces_flatten (s : JsString) : (stringPieces s).flatten = quoteUnits s := by
  fun_induction stringPieces s with
  | case1 => rfl
  | case2 u => simp [quoteUnits, emitUnit_eq]
  | case3 u v rest h ih => rw [List.flatten_cons, ih, quoteUnits, if_pos h]; rfl
  | case4 u v rest h ih => rw [List.flatten_cons, ih, quoteUnits, if_neg h, emitUnit_eq]

theorem stringPieces_wellFormed (s : JsString) : ∀ text ∈ stringPieces s, WellFormed text := by
  have hunit : ∀ u, WellFormed (emitUnit u) := by
    intro u
    rw [emitUnit_eq]
    exact wellFormed_of_units fun v hv => (quoteUnit_units u v hv).2
  fun_induction stringPieces s with
  | case1 => simp
  | case2 u => simp [hunit]
  | case3 u v rest h ih =>
    rw [Bool.and_eq_true] at h
    exact List.forall_mem_cons.mpr ⟨WellFormed.pair h.1 h.2 wellFormed_nil, ih⟩
  | case4 u v rest h ih => exact List.forall_mem_cons.mpr ⟨hunit u, ih⟩

/-- The fragments of a string are its `JSON.stringify` text. -/
theorem stringFragments_flatten (s : JsString) : (stringFragments s).flatten = quote s := by
  rw [stringFragments, splitFragments_flatten, List.flatten_append, stringPieces_flatten]
  rfl

theorem stringFragments_wellFormed (s : JsString) :
    ∀ f ∈ stringFragments s, WellFormed f := by
  apply splitFragments_wellFormed (by decide)
  intro text ht
  rcases List.mem_append.mp ht with ht | ht
  · exact stringPieces_wellFormed s text ht
  · rw [List.mem_singleton.mp ht]
    decide

/-! ## What a value emits -/

section Fragments

variable {N : Type} [JsonNumber N]

mutual
/-- Fragments of a value in the order of emission. -/
def fragments : Json N → List JsString
  | .arr items => [js "["] ++ fragmentItems items 0 ++ [js "]"]
  | .obj fields =>
    [js "\x7b"] ++
      ((sortBy Prod.fst (fragmentFields fields)).mapIdx fun i f =>
        (if 0 < i then [js ","] else []) ++ stringFragments f.1 ++ [js ":"] ++ f.2).flatten ++
      [js "\x7d"]
  | .null => [js "null"]
  | .bool b => [if b then js "true" else js "false"]
  | .num n => [JsonNumber.text n]
  | .str t => stringFragments t
termination_by structural v => v

/-- Fragments of the items of an array from index `i` on. -/
def fragmentItems : List (Json N) → Nat → List JsString
  | [], _ => []
  | v :: items, i =>
    (if 0 < i then [js ","] else []) ++ fragments v ++ fragmentItems items (i + 1)
termination_by structural items => items

/-- The members with the fragments of their value. -/
def fragmentFields : List (JsString × Json N) → List (JsString × List JsString)
  | [] => []
  | (k, v) :: fields => (k, fragments v) :: fragmentFields fields
termination_by structural fields => fields
end

theorem fragments_arr (items : List (Json N)) :
    fragments (.arr items) = [js "["] ++ fragmentItems items 0 ++ [js "]"] := rfl

theorem fragments_obj (fields : List (JsString × Json N)) :
    fragments (.obj fields) = [js "\x7b"] ++
      ((sortBy Prod.fst (fragmentFields fields)).mapIdx fun i f =>
        (if 0 < i then [js ","] else []) ++ stringFragments f.1 ++ [js ":"] ++ f.2).flatten ++
      [js "\x7d"] := rfl

theorem fragmentItems_cons (v : Json N) (items : List (Json N)) (i : Nat) :
    fragmentItems (v :: items) i =
      (if 0 < i then [js ","] else []) ++ fragments v ++ fragmentItems items (i + 1) := rfl

theorem fragmentFields_eq_map (fields : List (JsString × Json N)) :
    fragmentFields fields = fields.map fun f => (f.1, fragments f.2) := by
  induction fields with
  | nil => rfl
  | cons f fields ih =>
    show (f.1, fragments f.2) :: fragmentFields fields = _
    rw [ih, List.map_cons]

theorem sortBy_fragmentFields (fields : List (JsString × Json N)) :
    sortBy Prod.fst (fragmentFields fields) =
      (sortBy Prod.fst fields).map fun f => (f.1, fragments f.2) := by
  rw [fragmentFields_eq_map]
  exact (map_sortBy _ (by intro _; rfl) fields).symm

variable {σ : Type} {emit : σ → JsString → Except JsString σ}

/-- These steps, in turn, emit exactly these fragments. -/
def Emits (emit : σ → JsString → Except JsString σ) (steps : List (σ → Except JsString σ))
    (frags : List JsString) : Prop :=
  ∀ s, emitAll steps s = frags.foldlM emit s

theorem emits_nil : Emits emit [] [] := fun _ => rfl

theorem Emits.append {xs ys : List (σ → Except JsString σ)} {a b : List JsString}
    (hx : Emits emit xs a) (hy : Emits emit ys b) : Emits emit (xs ++ ys) (a ++ b) := by
  intro s
  unfold Emits emitAll at hx hy
  rw [emitAll, List.foldlM_append, hx s, List.foldlM_append]
  cases a.foldlM emit s with
  | error e => rfl
  | ok s' => exact hy s'

/-- A single step. -/
theorem emits_step {step : σ → Except JsString σ} {frags : List JsString}
    (h : ∀ s, step s = frags.foldlM emit s) : Emits emit [step] frags := by
  intro s
  rw [emitAll, List.foldlM_cons, h s]
  cases frags.foldlM emit s <;> rfl

theorem Emits.cons {step : σ → Except JsString σ} {xs : List (σ → Except JsString σ)}
    {a b : List JsString} (h : ∀ s, step s = a.foldlM emit s) (hx : Emits emit xs b) :
    Emits emit (step :: xs) (a ++ b) :=
  (emits_step h).append hx

theorem foldlM_singleton (frag : JsString) (s : σ) :
    [frag].foldlM emit s = emit s frag := by
  rw [List.foldlM_cons]
  cases emit s frag <;> rfl

theorem emits_emit (frag : JsString) : Emits emit [fun s => emit s frag] [frag] :=
  emits_step fun s => (foldlM_singleton frag s).symm

/-- The separator step of all but the first child. -/
theorem separator_eq (i : Nat) (s : σ) :
    (if 0 < i then emit s (js ",") else .ok s) =
      (if 0 < i then [js ","] else []).foldlM emit s := by
  split_ifs
  · exact (foldlM_singleton _ s).symm
  · rfl

theorem emits_streamItems {items : List (Json N)} {path : List PathPart} {depth : Nat}
    (h : ∀ v ∈ items, ∀ path s,
      streamCanonicalJson emit v path (depth + 1) s = (fragments v).foldlM emit s)
    (i : Nat) : Emits emit (streamItems emit items path i depth) (fragmentItems items i) := by
  induction items generalizing i with
  | nil => exact emits_nil
  | cons v items ih =>
    rw [streamItems, fragmentItems_cons, List.append_assoc]
    exact Emits.cons (separator_eq i) (Emits.cons (h v (by simp) _)
      (ih (fun w hw => h w (by simp [hw])) (i + 1)))

theorem streamFields_eq_map (fields : List (JsString × Json N)) (path : List PathPart)
    (depth : Nat) :
    streamFields emit fields path depth =
      fields.map fun f =>
        (f.1, streamCanonicalJson emit f.2 (path ++ [.key f.1]) (depth + 1)) := by
  induction fields with
  | nil => rfl
  | cons f fields ih => rw [streamFields, ih, List.map_cons]

/-- The steps of a list of sorted members, from index `start` on. -/
theorem emits_fields {fields : List (JsString × Json N)} {path : List PathPart} {depth : Nat}
    (h : ∀ f ∈ fields, ∀ path s,
      streamCanonicalJson emit f.2 path (depth + 1) s = (fragments f.2).foldlM emit s)
    (start : Nat) :
    Emits emit
      ((fields.map fun f =>
        (f.1, streamCanonicalJson emit f.2 (path ++ [.key f.1]) (depth + 1))).mapIdx
          fun i f => [fun s => if 0 < start + i then emit s (js ",") else .ok s,
            fun s => emitString emit f.1 s, fun s => emit s (js ":"), f.2]).flatten
      ((fields.map fun f => (f.1, fragments f.2)).mapIdx fun i f =>
        (if 0 < start + i then [js ","] else []) ++ stringFragments f.1 ++ [js ":"] ++
          f.2).flatten := by
  induction fields generalizing start with
  | nil => exact emits_nil
  | cons f fields ih =>
    have htail := ih (fun g hg => h g (by simp [hg])) (start + 1)
    simp only [List.map_cons, List.mapIdx_cons, List.flatten_cons]
    refine Emits.append ?_ ?_
    · simp only [List.append_assoc]
      refine Emits.cons (separator_eq (start + 0)) (Emits.cons (emitString_eq f.1)
        (Emits.cons (fun s => (foldlM_singleton (js ":") s).symm) (emits_step ?_)))
      exact h f (by simp) _
    · simpa only [Nat.add_assoc, Nat.add_comm 1] using htail

/-- Within the depth limit the stream emits the fragments of the value. -/
theorem streamCanonicalJson_ok {v : Json N} {depth : Nat} (h : depth + v.depth ≤ maxJsonDepth)
    (path : List PathPart) (s : σ) :
    streamCanonicalJson emit v path depth s = (fragments v).foldlM emit s := by
  induction v using Json.ind generalizing path depth s with
  | null | bool | num =>
    simp only [Json.depth] at h
    rw [streamCanonicalJson, if_neg (by omega), fragments, foldlM_singleton]
  | str t =>
    simp only [Json.depth] at h
    rw [streamCanonicalJson, if_neg (by omega), fragments, emitString_eq]
  | arr items ih =>
    have hitems : ∀ v ∈ items, ∀ path s,
        streamCanonicalJson emit v path (depth + 1) s = (fragments v).foldlM emit s := by
      intro v hv path s
      have hdepth := depthItems_le.mp (le_refl (depthItems items)) v hv
      exact ih v hv (by simp only [Json.depth] at h; omega) path s
    rw [streamCanonicalJson, if_neg (by omega), fragments]
    exact ((emits_emit _).append (emits_streamItems hitems 0)).append (emits_emit _) s
  | obj fields ih =>
    have hfields : ∀ f ∈ sortBy Prod.fst fields, ∀ path s,
        streamCanonicalJson emit f.2 path (depth + 1) s = (fragments f.2).foldlM emit s := by
      intro f hf path s
      have hf' : f ∈ fields := (sortBy_perm fields).mem_iff.mp hf
      have hdepth := depthFields_le.mp (le_refl (depthFields fields)) f hf'
      exact ih f hf' (by simp only [Json.depth] at h; omega) path s
    have hsort : sortBy Prod.fst (streamFields emit fields path depth) =
        (sortBy Prod.fst fields).map fun f =>
          (f.1, streamCanonicalJson emit f.2 (path ++ [.key f.1]) (depth + 1)) := by
      rw [streamFields_eq_map]
      exact (map_sortBy _ (by intro _; rfl) fields).symm
    have hemits := @emits_fields N _ σ emit _ path depth hfields 0
    simp only [Nat.zero_add] at hemits
    rw [streamCanonicalJson, if_neg (by omega), hsort, fragments, sortBy_fragmentFields]
    exact ((emits_emit _).append hemits).append (emits_emit _) s

/-! ### Concatenation of the fragments -/

mutual
/-- The value with the members of every object in key-sort order. -/
def sortKeys : Json N → Json N
  | .arr items => .arr (sortKeysItems items)
  | .obj fields => .obj (sortBy Prod.fst (sortKeysFields fields))
  | v => v
termination_by structural v => v

/-- `sortKeys` on the items of an array. -/
def sortKeysItems : List (Json N) → List (Json N)
  | [] => []
  | v :: items => sortKeys v :: sortKeysItems items
termination_by structural items => items

/-- `sortKeys` on the members of an object. -/
def sortKeysFields : List (JsString × Json N) → List (JsString × Json N)
  | [] => []
  | (k, v) :: fields => (k, sortKeys v) :: sortKeysFields fields
termination_by structural fields => fields
end

omit [JsonNumber N] in
theorem sortKeys_arr (items : List (Json N)) :
    sortKeys (.arr items) = .arr (items.map sortKeys) := by
  have h : sortKeysItems items = items.map sortKeys := by
    induction items with
    | nil => rfl
    | cons v items ih =>
      show sortKeys v :: sortKeysItems items = _
      rw [ih, List.map_cons]
  show Json.arr (sortKeysItems items) = _
  rw [h]

omit [JsonNumber N] in
theorem sortKeys_obj (fields : List (JsString × Json N)) :
    sortKeys (.obj fields) = .obj ((sortBy Prod.fst fields).map fun f => (f.1, sortKeys f.2)) := by
  have h : sortKeysFields fields = fields.map fun f => (f.1, sortKeys f.2) := by
    induction fields with
    | nil => rfl
    | cons f fields ih =>
      show (f.1, sortKeys f.2) :: sortKeysFields fields = _
      rw [ih, List.map_cons]
  show Json.obj (sortBy Prod.fst (sortKeysFields fields)) = _
  rw [h]
  congr 1
  exact (map_sortBy _ (by intro _; rfl) fields).symm

theorem fragmentItems_flatten {items : List (Json N)}
    (h : ∀ v ∈ items, (fragments v).flatten = (sortKeys v).render) (i : Nat) :
    (fragmentItems items (i + 1)).flatten ++ js "]" =
      renderItems (items.map sortKeys) := by
  induction items generalizing i with
  | nil => rfl
  | cons v items ih =>
    rw [fragmentItems_cons, if_pos (Nat.succ_pos i), List.flatten_append, List.flatten_append,
      h v (by simp), List.map_cons, renderItems, ← ih (fun w hw => h w (by simp [hw])) (i + 1),
      List.append_assoc, List.append_assoc]
    rfl

/-- Fragments of the members after the first. -/
theorem fragmentFields_flatten {fields : List (JsString × Json N)}
    (h : ∀ f ∈ fields, (fragments f.2).flatten = (sortKeys f.2).render) (start : Nat) :
    ((fields.map fun f => (f.1, fragments f.2)).mapIdx fun i f =>
        (if 0 < start + 1 + i then [js ","] else []) ++ stringFragments f.1 ++ [js ":"] ++
          f.2).flatten.flatten ++ js "\x7d" =
      renderFields (fields.map fun f => (f.1, sortKeys f.2)) := by
  induction fields generalizing start with
  | nil => rfl
  | cons f fields ih =>
    have htail := ih (fun g hg => h g (by simp [hg])) (start + 1)
    simp only [List.map_cons, List.mapIdx_cons, List.flatten_cons, renderFields]
    rw [if_pos (by omega), ← htail]
    simp only [Nat.add_assoc, Nat.add_comm 1, List.flatten_append, stringFragments_flatten,
      h f (by simp), List.append_assoc]
    rfl

/-- The stream concatenates to the text of the key-sorted value. -/
theorem fragments_flatten (v : Json N) : (fragments v).flatten = (sortKeys v).render := by
  induction v using Json.ind with
  | null | bool | num => simp [fragments, sortKeys, render]
  | str t =>
    rw [fragments, stringFragments_flatten]
    rfl
  | arr items ih =>
    rw [fragments_arr, sortKeys_arr, List.flatten_append, List.flatten_append]
    cases items with
    | nil => rfl
    | cons v items =>
      have htail := fragmentItems_flatten (List.forall_mem_cons.mp ih).2 0
      rw [fragmentItems_cons, if_neg (by omega), List.map_cons, render, ← htail,
        List.flatten_append, List.nil_append, ih v (by simp), List.append_assoc,
        List.append_assoc]
      simp [js]
  | obj fields ih =>
    have ih' : ∀ f ∈ sortBy Prod.fst fields, (fragments f.2).flatten = (sortKeys f.2).render :=
      fun f hf => ih f ((sortBy_perm fields).mem_iff.mp hf)
    rw [fragments_obj, sortKeys_obj, sortBy_fragmentFields, List.flatten_append, List.flatten_append]
    generalize sortBy Prod.fst fields = sorted at ih'
    cases sorted with
    | nil => rfl
    | cons f sorted =>
      have htail := fragmentFields_flatten (List.forall_mem_cons.mp ih').2 0
      simp only [List.map_cons, List.mapIdx_cons, List.flatten_cons, render]
      rw [← htail]
      simp [stringFragments_flatten, ih' f (by simp), js, Nat.add_comm]

/-- No fragment ends inside a surrogate pair. -/
theorem fragments_wellFormed (v : Json N) : ∀ f ∈ fragments v, WellFormed f := by
  have hsep : ∀ i : Nat, ∀ f ∈ (if 0 < i then [js ","] else []), WellFormed f := by
    intro i
    split_ifs
    · simp only [List.forall_mem_cons, List.not_mem_nil, false_imp_iff, implies_true, and_true]
      decide
    · simp
  induction v using Json.ind with
  | null => simp only [fragments, List.forall_mem_singleton]; decide
  | bool b => cases b <;> simp only [fragments, List.forall_mem_singleton] <;> decide
  | num n =>
    simp only [fragments, List.forall_mem_singleton]
    exact render_wellFormed (.num n)
  | str t => exact stringFragments_wellFormed t
  | arr items ih =>
    have hitems : ∀ i, ∀ f ∈ fragmentItems items i, WellFormed f := by
      induction items with
      | nil => exact fun i f hf => absurd hf List.not_mem_nil
      | cons v items ihi =>
        rw [List.forall_mem_cons] at ih
        intro i
        rw [fragmentItems_cons]
        exact List.forall_mem_append.mpr
          ⟨List.forall_mem_append.mpr ⟨hsep i, ih.1⟩, ihi ih.2 (i + 1)⟩
    rw [fragments_arr]
    refine List.forall_mem_append.mpr ⟨List.forall_mem_append.mpr ⟨?_, hitems 0⟩, ?_⟩ <;>
      (rw [List.forall_mem_singleton]; decide)
  | obj fields ih =>
    rw [fragments_obj, sortBy_fragmentFields]
    refine List.forall_mem_append.mpr ⟨List.forall_mem_append.mpr ⟨?_, ?_⟩, ?_⟩
    · rw [List.forall_mem_singleton]
      decide
    · intro f hf
      obtain ⟨part, hpart, hf⟩ := List.mem_flatten.mp hf
      obtain ⟨i, hi, rfl⟩ := List.mem_mapIdx.mp hpart
      obtain ⟨g, hg, heq⟩ := List.mem_map.mp (List.getElem_mem hi)
      rw [← heq] at hf
      simp only [List.mem_append] at hf
      rcases hf with ((hf | hf) | hf) | hf
      · exact hsep i f hf
      · exact stringFragments_wellFormed _ f hf
      · rw [List.mem_singleton.mp hf]
        decide
      · exact ih g ((sortBy_perm fields).mem_iff.mp hg) f hf
    · rw [List.forall_mem_singleton]
      decide

end Fragments

/-! ## `prepareCanonicalJson` -/

/-- What `prepareCanonicalJson` returns; `materialize` is the result of calling it. -/
structure CanonicalJsonPreparation where
  bytes : Nat
  sha256 : JsString
  materialize : Except JsString (List Byte)

/-- Bytes counted and octets hashed so far. -/
structure Measure where
  bytes : Nat
  hashed : List Byte
  deriving DecidableEq

/-- The measuring sink. -/
def measure (st : Measure) (fragment : JsString) : Except JsString Measure :=
  let added := (utf8 fragment).length
  if (maxSafeInteger : Int) - added < st.bytes then .error (js "canonical JSON output is too large")
  else .ok { bytes := st.bytes + added, hashed := st.hashed ++ utf8 fragment }

/-- The sink of `materialize`: octets written so far into a buffer of `size` octets.
    `encodeInto` stops short when the rest of the buffer is too small. -/
def encodeFragment (size : Nat) (written : List Byte) (fragment : JsString) :
    Except JsString (List Byte) :=
  if size - written.length < (utf8 fragment).length then
    .error (js "canonical JSON changed while materializing")
  else .ok (written ++ utf8 fragment)

variable {N : Type} [JsonNumber N]

def materialize (v : Json N) (size : Nat) : Except JsString (List Byte) :=
  (streamCanonicalJson (encodeFragment size) v [] 0 []).bind fun written =>
    if written.length ≠ size then .error (js "canonical JSON changed while materializing")
    else .ok written

/-- Hash and measure canonical JSON, then provide one exact-size materializer. -/
def prepareCanonicalJson (sha256 : List Byte → JsString) (v : Json N) :
    Except JsString CanonicalJsonPreparation :=
  (streamCanonicalJson measure v [] 0 { bytes := 0, hashed := [] }).map fun st =>
    { bytes := st.bytes, sha256 := sha256 st.hashed, materialize := materialize v st.bytes }

/-! ### The two passes over the stream -/

theorem foldlM_measure (frags : List JsString) (st : Measure)
    (h : st.bytes ≤ maxSafeInteger) :
    frags.foldlM measure st =
      if maxSafeInteger < st.bytes + (frags.map utf8).flatten.length then
        .error (js "canonical JSON output is too large")
      else .ok { bytes := st.bytes + (frags.map utf8).flatten.length,
                 hashed := st.hashed ++ (frags.map utf8).flatten } := by
  induction frags generalizing st with
  | nil =>
    have hle : ¬ maxSafeInteger < st.bytes := by omega
    simp [hle]
    rfl
  | cons f frags ih =>
    rw [List.foldlM_cons, measure]
    simp only [List.map_cons, List.flatten_cons, List.length_append]
    split_ifs with h1 h2 h2
    · rfl
    · omega
    · show frags.foldlM measure _ = _
      rw [ih _ (by simp only; omega), if_pos (by simp only; omega)]
    · show frags.foldlM measure _ = _
      rw [ih _ (by simp only; omega), if_neg (by simp only; omega)]
      simp only [List.append_assoc, Nat.add_assoc]

theorem foldlM_encodeFragment (size : Nat) (frags : List JsString) (written : List Byte)
    (h : written.length + (frags.map utf8).flatten.length ≤ size) :
    frags.foldlM (encodeFragment size) written = .ok (written ++ (frags.map utf8).flatten) := by
  induction frags generalizing written with
  | nil => simp; rfl
  | cons f frags ih =>
    simp only [List.map_cons, List.flatten_cons, List.length_append] at h
    rw [List.foldlM_cons, encodeFragment, if_neg (by omega)]
    show frags.foldlM (encodeFragment size) _ = _
    rw [ih _ (by rw [List.length_append]; omega)]
    simp

/-- The octets of a stream, fragment by fragment or as one text. -/
theorem utf8_fragments (v : Json N) :
    ((fragments v).map utf8).flatten = utf8 (sortKeys v).render := by
  rw [← fragments_flatten, utf8_flatten (fragments_wellFormed v)]

/-- Preparation of a value within the depth limit, in terms of its key-sorted text. -/
theorem prepareCanonicalJson_eq (sha256 : List Byte → JsString) {v : Json N}
    (h : v.depth ≤ maxJsonDepth) :
    prepareCanonicalJson sha256 v =
      if maxSafeInteger < (utf8 (sortKeys v).render).length then
        .error (js "canonical JSON output is too large")
      else .ok { bytes := (utf8 (sortKeys v).render).length,
                 sha256 := sha256 (utf8 (sortKeys v).render),
                 materialize := .ok (utf8 (sortKeys v).render) } := by
  have hdepth : 0 + v.depth ≤ maxJsonDepth := by omega
  have hmat : materialize v (utf8 (sortKeys v).render).length =
      .ok (utf8 (sortKeys v).render) := by
    rw [materialize, streamCanonicalJson_ok hdepth, foldlM_encodeFragment,
      utf8_fragments, List.nil_append]
    · simp [Except.bind]
    · rw [utf8_fragments]
      simp
  rw [prepareCanonicalJson, streamCanonicalJson_ok hdepth, foldlM_measure _ _ (Nat.zero_le _),
    utf8_fragments]
  simp only [Nat.zero_add, List.nil_append]
  split_ifs with hlong
  · rfl
  · rw [Except.map, hmat]

end PiRlm.Shell

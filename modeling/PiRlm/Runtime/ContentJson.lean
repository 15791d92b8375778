/-
  PiRlm.Runtime.ContentJson

  Stored JSON and its readers.

  The stores write the octets of `prepareCanonicalJson`; the readers of
  `runtime/checkpoint-recovery.ts` accept octets whose text is `canonicalStringify` of
  the value they parse to.  The two encoders agree on a value exactly when, in every
  object inside, the key sort is also the enumeration order (`KeysAgree`).
-/
import Mathlib
import PiRlm.Shell.CanonicalJson

namespace PiRlm.Runtime

open PiRlm.Lib PiRlm.Lib.Json PiRlm.Core PiRlm.Shell

/-- `new TextDecoder("utf-8", { fatal: true })`: strict, less a byte order mark. -/
def decodeText (bytes : List Byte) : Option JsString :=
  utf8DecodeFatal (if [0xEF, 0xBB, 0xBF].isPrefixOf bytes then bytes.drop 3 else bytes)

variable {N : Type} [JsonNumber N]

/-- The reader of stored JSON, which `contentJson` and `parseCanonicalPayload` share. -/
def contentJson (bytes : List Byte) : Option (Json N) :=
  (decodeText bytes).bind fun text =>
  (parse text).bind fun raw =>
    match parseJsonValue raw with
    | .error _ => none
    | .ok value => if canonicalStringify value = .ok text then some value else none

/-- Concatenation of the fragments a value streams. -/
def streamedText (v : Json N) : Except JsString JsString :=
  streamCanonicalJson (fun text fragment => .ok (text ++ fragment)) v [] 0 []

/-- The streaming encoder, what the stores write with it and what their readers accept
    are those of `canonicalStringify`. -/
def EncodersAgree (sha256 : List Byte → JsString) (v : Json N) : Prop :=
  ∃ text, canonicalStringify v = .ok text ∧ streamedText v = .ok text ∧
    prepareCanonicalJson sha256 v =
      (if maxSafeInteger < (utf8 text).length then
        .error (js "canonical JSON output is too large")
      else .ok { bytes := (utf8 text).length, sha256 := sha256 (utf8 text),
                 materialize := .ok (utf8 text) }) ∧
    ∀ prepared bytes, prepareCanonicalJson sha256 v = .ok prepared →
      prepared.materialize = .ok bytes → (contentJson (N := N) bytes).isSome

/-- The keys of the node, sorted by code units, are in enumeration order: array indices
    first, in numeric order. -/
def keysAgreeAt : Json N → Bool
  | .obj fields =>
    decide (ownOrder id (sortBy id (fields.map Prod.fst)) = sortBy id (fields.map Prod.fst))
  | _ => true

/-- The keys of every object inside agree. -/
def KeysAgree (v : Json N) : Prop :=
  v.all keysAgreeAt = true

instance (v : Json N) : Decidable (KeysAgree v) :=
  inferInstanceAs (Decidable (_ = true))

omit [JsonNumber N] in
theorem keysAgree_arr {items : List (Json N)} :
    KeysAgree (.arr items) ↔ ∀ v ∈ items, KeysAgree v := by
  simp only [KeysAgree, all_arr, keysAgreeAt, true_and]

omit [JsonNumber N] in
theorem keysAgree_obj {fields : List (JsString × Json N)} :
    KeysAgree (.obj fields) ↔
      ownOrder id (sortBy id (fields.map Prod.fst)) = sortBy id (fields.map Prod.fst) ∧
        ∀ f ∈ fields, KeysAgree f.2 := by
  simp only [KeysAgree, all_obj, keysAgreeAt, decide_eq_true_eq]

/-! ## The two key orders -/

omit [JsonNumber N] in
/-- With distinct keys the members are in the same order when their keys are. -/
theorem ownOrder_sortBy_eq_iff {fields : List (JsString × Json N)}
    (h : (fields.map Prod.fst).Nodup) :
    ownOrder Prod.fst (sortBy Prod.fst fields) = sortBy Prod.fst fields ↔
      ownOrder id (sortBy id (fields.map Prod.fst)) = sortBy id (fields.map Prod.fst) := by
  have hsort : (sortBy Prod.fst fields).map Prod.fst = sortBy id (fields.map Prod.fst) :=
    map_sortBy Prod.fst (by intro _; rfl) fields
  have hown : (ownOrder Prod.fst (sortBy Prod.fst fields)).map Prod.fst =
      ownOrder id (sortBy id (fields.map Prod.fst)) := by
    rw [← hsort]
    exact map_ownOrder Prod.fst (by intro _; rfl) _
  rw [← hown, ← hsort]
  have hperm : (ownOrder Prod.fst (sortBy Prod.fst fields)).Perm (sortBy Prod.fst fields) :=
    ownOrder_perm _
  refine ⟨fun heq => by rw [heq], fun heq => eq_of_perm_of_map_eq hperm ?_ heq⟩
  exact ((hperm.trans (sortBy_perm fields)).map Prod.fst).nodup_iff.mpr h

omit [JsonNumber N] in
/-- Sorting the keys gives the canonical value exactly when the key orders agree. -/
theorem sortKeys_eq_canonical_iff {v : Json N} (hv : v.Owned) :
    sortKeys v = canonical v ↔ KeysAgree v := by
  induction v using Json.ind with
  | null | bool | num | str => exact iff_of_true rfl rfl
  | arr items ih =>
    rw [owned_arr] at hv
    rw [sortKeys_arr, canonical_arr, keysAgree_arr, Json.arr.injEq, List.map_inj_left]
    exact forall₂_congr fun v hmem => ih v hmem (hv v hmem)
  | obj fields ih =>
    rw [owned_obj] at hv
    have hmem : ∀ f ∈ sortBy Prod.fst fields, f ∈ fields :=
      fun f hf => (sortBy_perm fields).mem_iff.mp hf
    rw [sortKeys_obj, canonical_obj_of_nodup hv.1.1, keysAgree_obj, Json.obj.injEq,
      ← ownOrder_sortBy_eq_iff hv.1.1]
    constructor
    · intro heq
      -- Equal lists have equal keys, and equal keys force one order.
      have hkeys : (ownOrder Prod.fst (sortBy Prod.fst fields)).map Prod.fst =
          (sortBy Prod.fst fields).map Prod.fst := by
        rw [← map_fst_mapValues canonical, ← heq, map_fst_mapValues]
      have hperm : (ownOrder Prod.fst (sortBy Prod.fst fields)).Perm (sortBy Prod.fst fields) :=
        ownOrder_perm _
      have horder := eq_of_perm_of_map_eq hperm
        (((hperm.trans (sortBy_perm fields)).map Prod.fst).nodup_iff.mpr hv.1.1) hkeys
      refine ⟨horder, fun f hf => (ih f hf (hv.2 f hf)).mp ?_⟩
      rw [horder, List.map_inj_left] at heq
      exact (Prod.mk.inj (heq f ((sortBy_perm fields).mem_iff.mpr hf))).2
    · rintro ⟨horder, hvalues⟩
      rw [horder, List.map_inj_left]
      intro f hf
      rw [(ih f (hmem f hf) (hv.2 f (hmem f hf))).mpr (hvalues f (hmem f hf))]

/-! ## Stored octets -/

theorem streamedText_ok {v : Json N} (h : v.depth ≤ maxJsonDepth) :
    streamedText v = .ok (sortKeys v).render := by
  have hfold : ∀ (frags : List JsString) (text : JsString),
      frags.foldlM (fun text fragment => (.ok (text ++ fragment) : Except JsString JsString)) text =
        .ok (text ++ frags.flatten) := by
    intro frags
    induction frags with
    | nil => intro text; simp; rfl
    | cons f frags ih =>
      intro text
      rw [List.foldlM_cons]
      show frags.foldlM _ (text ++ f) = _
      rw [ih, List.flatten_cons, List.append_assoc]
  rw [streamedText, streamCanonicalJson_ok (by omega), hfold, fragments_flatten, List.nil_append]

theorem decodeText_utf8_render (v : Json N) : decodeText (utf8 v.render) = some v.render := by
  obtain ⟨u, rest, hhead, -, -, hlt⟩ := render_head v
  have hns : isSurrogate u.val = false := by
    unfold isSurrogate
    rw [decide_eq_false_iff_not]
    omega
  have hbom : ([0xEF, 0xBB, 0xBF] : List Byte).isPrefixOf (utf8 v.render) = false := by
    rw [hhead, utf8_cons hns, encodeScalar, if_pos hlt, List.cons_append, List.isPrefixOf]
    have hne : ((0xEF : Byte) == Fin.ofNat 256 u.val) = false := by
      apply beq_false_of_ne
      intro heq
      have hval : 0xEF = u.val % 256 := congrArg Fin.val heq
      omega
    rw [hne, Bool.false_and]
  rw [decodeText, hbom, if_neg (by decide), utf8DecodeFatal_utf8 (render_wellFormed v)]

omit [JsonNumber N] in
/-- Parsing the key-sorted text rebuilds the canonical value. -/
theorem revive_sortKeys (v : Json N) : (sortKeys v).revive = canonical v := by
  induction v using Json.ind with
  | null | bool | num | str => rfl
  | arr items ih =>
    rw [sortKeys_arr, canonical_arr, revive, reviveItems_eq_map, List.map_map]
    congr 1
    exact List.map_congr_left ih
  | obj fields ih =>
    rw [sortKeys_obj, canonical_obj, revive, reviveFields_eq_map, List.map_map]
    congr 2
    apply List.map_congr_left
    intro f hf
    simp only [Function.comp, ih f ((sortBy_perm fields).mem_iff.mp hf)]

/-- The readers accept what the stream writes exactly when the key orders agree. -/
theorem contentJson_sortKeys {v : Json N} (hv : v.Owned) (h : v.depth ≤ maxJsonDepth) :
    contentJson (utf8 (sortKeys v).render) =
      if KeysAgree v then some (canonical v) else none := by
  have hdepth : (canonical v).depth ≤ maxJsonDepth := by rw [canonical_depth hv]; exact h
  rw [contentJson, decodeText_utf8_render, Option.bind_some, parse_render, revive_sortKeys,
    Option.bind_some, parseJsonValue_ok (canonical_owned v) hdepth]
  dsimp only
  rw [canonicalStringify_ok hdepth, canonical_canonical hv]
  have hiff : (Except.ok (canonical v).render : Except JsString JsString) =
      .ok (sortKeys v).render ↔ KeysAgree v := by
    rw [← sortKeys_eq_canonical_iff hv, Except.ok.injEq]
    exact ⟨fun heq => (render_injective heq).symm, fun heq => by rw [heq]⟩
  simp only [hiff]

/-- The encoders agree on a value within the depth limit exactly when, in every object
    inside, sorting the keys by code units puts them in enumeration order. -/
theorem encodersAgree_iff (sha256 : List Byte → JsString) (v : JsonValue N)
    (h : v.1.depth ≤ maxJsonDepth) : EncodersAgree sha256 v.1 ↔ KeysAgree v.1 := by
  constructor
  · rintro ⟨text, hcanonical, hstream, -, -⟩
    rw [canonicalStringify_ok h] at hcanonical
    rw [streamedText_ok h, ← Except.ok.inj hcanonical] at hstream
    exact (sortKeys_eq_canonical_iff v.2).mp (render_injective (Except.ok.inj hstream))
  · intro hkeys
    have hsort := (sortKeys_eq_canonical_iff v.2).mpr hkeys
    refine ⟨(canonical v.1).render, canonicalStringify_ok h, ?_, ?_, ?_⟩
    · rw [streamedText_ok h, hsort]
    · rw [prepareCanonicalJson_eq sha256 h, hsort]
    · intro prepared bytes hprep hmat
      rw [prepareCanonicalJson_eq sha256 h, hsort] at hprep
      split_ifs at hprep
      rw [← Except.ok.inj hprep] at hmat
      rw [← Except.ok.inj hmat, ← hsort, contentJson_sortKeys v.2 h, if_pos hkeys]
      rfl

/-- `{"b": [-3, "\ud800"], "7": {"a": true}}`, as an object enumerates it. -/
def mixedKeys : JsonValue Int :=
  ⟨.obj [(js "7", .obj [(js "a", .bool true)]),
    (js "b", .arr [.num (-3), .str [0xD800]])], by decide⟩

theorem mixedKeys_agree :
    mixedKeys.1.depth ≤ maxJsonDepth ∧ EncodersAgree (fun _ => []) mixedKeys.1 :=
  ⟨by decide, (encodersAgree_iff (fun _ => []) mixedKeys (by decide)).mpr (by decide)⟩

/-- `{"9": null, "10": null}`, as an object enumerates it. -/
def numericKeys : JsonValue Int :=
  ⟨.obj [(js "9", .null), (js "10", .null)], by decide⟩

/-- On keys `9` and `10` the stream and `canonicalStringify` order the members differently,
    and the readers reject what the stream writes. -/
theorem numericKeys_disagree :
    streamedText numericKeys.1 = .ok (js "\x7b\"10\":null,\"9\":null\x7d") ∧
      canonicalStringify numericKeys.1 = .ok (js "\x7b\"9\":null,\"10\":null\x7d") ∧
      contentJson (N := Int) (utf8 (sortKeys numericKeys.1).render) = none ∧
      ∀ sha256, ¬ EncodersAgree sha256 numericKeys.1 := by
  have hstream : streamedText numericKeys.1 =
      .ok (js "\x7b\"10\":null,\"9\":null\x7d") := by decide
  have hcanonical : canonicalStringify numericKeys.1 =
      .ok (js "\x7b\"9\":null,\"10\":null\x7d") := by decide
  refine ⟨hstream, hcanonical, ?_, ?_⟩
  · rw [contentJson_sortKeys numericKeys.2 (by decide), if_neg (by decide)]
  · rintro sha256 ⟨text, hc, hs, -, -⟩
    rw [hcanonical] at hc
    rw [hstream, ← Except.ok.inj hc] at hs
    exact absurd (Except.ok.inj hs) (by decide)

end PiRlm.Runtime

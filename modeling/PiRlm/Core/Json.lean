/-
  PiRlm.Core.Json

  The JSON value model of `core/json.ts`: `canonicalize`, `canonicalStringify` and the
  strict boundary `parseJsonValue`.

  `canonicalize` rebuilds every object by assigning its members in key-sort order, so
  the result still enumerates array-index keys first.  On values of admitted depth it
  is the total function `canonical`, which is idempotent and changes no depth.
-/
import Mathlib
import PiRlm.Lib.Decimal

namespace PiRlm.Core

open PiRlm.Lib PiRlm.Lib.Json

/-- Maximum nesting accepted at an untrusted JSON boundary. -/
def maxJsonDepth : Nat := 100

/-- ASCII letter, underscore or dollar sign. -/
def isIdentifierStart (u : CodeUnit) : Bool :=
  decide (0x41 ≤ u.val ∧ u.val ≤ 0x5A) || decide (0x61 ≤ u.val ∧ u.val ≤ 0x7A) ||
    u == 0x5F || u == 0x24

/-- `/^[A-Za-z_$][A-Za-z0-9_$]*$/`. -/
def isIdentifier : JsString → Bool
  | [] => false
  | u :: rest => isIdentifierStart u && rest.all fun w => isIdentifierStart w || isDigit w

def childPath (path key : JsString) : JsString :=
  if isIdentifier key then path ++ js "." ++ key else path ++ js "[" ++ quote key ++ js "]"

def itemPath (path : JsString) (i : Nat) : JsString :=
  path ++ js "[" ++ decimal i ++ js "]"

/-- Message of the `RangeError` for a value nested too deeply. -/
def depthMessage (path : JsString) : JsString :=
  js "maximum JSON depth of " ++ decimal maxJsonDepth ++ js " exceeded at " ++ path

variable {N : Type}

/-- The results of the members, or the first error. -/
def collectFields {E α : Type} (fields : List (JsString × Except E α)) :
    Except E (List (JsString × α)) :=
  fields.mapM fun f => f.2.map fun v => (f.1, v)

/-! ## Canonical form -/

mutual
/-- Members are visited, and assigned, in key-sort order. -/
def canonicalizeAt : Json N → JsString → Nat → Except JsString (Json N)
  | .arr items, path, depth =>
    if maxJsonDepth < depth then .error (depthMessage path)
    else (canonicalizeItems items path 0 depth).map .arr
  | .obj fields, path, depth =>
    if maxJsonDepth < depth then .error (depthMessage path)
    else (collectFields (sortBy Prod.fst (canonicalizeFields fields path depth))).map
      fun sorted => .obj (mkFields sorted)
  | v, path, depth =>
    if maxJsonDepth < depth then .error (depthMessage path) else .ok v
termination_by structural v => v

/-- `value.map((item, i) => canonicalizeAt(item, ...))`. -/
def canonicalizeItems : List (Json N) → JsString → Nat → Nat → Except JsString (List (Json N))
  | [], _, _, _ => .ok []
  | v :: items, path, i, depth =>
    (canonicalizeAt v (itemPath path i) (depth + 1)).bind fun w =>
      (canonicalizeItems items path (i + 1) depth).map (w :: ·)
termination_by structural items => items

/-- The members with their canonical form, still in the order of the object. -/
def canonicalizeFields :
    List (JsString × Json N) → JsString → Nat → List (JsString × Except JsString (Json N))
  | [], _, _ => []
  | (k, v) :: fields, path, depth =>
    (k, canonicalizeAt v (childPath path k) (depth + 1)) :: canonicalizeFields fields path depth
termination_by structural fields => fields
end

/-- Recursively sort own object keys. -/
def canonicalize (v : Json N) : Except JsString (Json N) :=
  canonicalizeAt v (js "$") 0

/-- Deterministic JSON string with sorted keys. -/
def canonicalStringify [JsonNumber N] (v : Json N) : Except JsString JsString :=
  (canonicalize v).map render

/-! ## Strict JSON boundary -/

mutual
/-- The check of `parseJsonValue` on data: a failure is the path of the node and the reason.
    The value is rebuilt member by member in enumeration order. -/
def walkJsonValue : Json N → JsString → Nat → Except (JsString × JsString) (Json N)
  | .arr items, path, depth =>
    if maxJsonDepth < depth then
      .error (path, js "maximum JSON depth of " ++ decimal maxJsonDepth ++ js " exceeded")
    else (walkItems items path 0 depth).map .arr
  | .obj fields, path, depth =>
    if maxJsonDepth < depth then
      .error (path, js "maximum JSON depth of " ++ decimal maxJsonDepth ++ js " exceeded")
    else (collectFields (walkFields fields path depth)).map fun out => .obj (mkFields out)
  | v, path, depth =>
    if maxJsonDepth < depth then
      .error (path, js "maximum JSON depth of " ++ decimal maxJsonDepth ++ js " exceeded")
    else .ok v
termination_by structural v => v

/-- `walkJsonValue` on the items of an array. -/
def walkItems :
    List (Json N) → JsString → Nat → Nat → Except (JsString × JsString) (List (Json N))
  | [], _, _, _ => .ok []
  | v :: items, path, i, depth =>
    (walkJsonValue v (itemPath path i) (depth + 1)).bind fun w =>
      (walkItems items path (i + 1) depth).map (w :: ·)
termination_by structural items => items

/-- `walkJsonValue` on the members of an object. -/
def walkFields : List (JsString × Json N) → JsString → Nat →
    List (JsString × Except (JsString × JsString) (Json N))
  | [], _, _ => []
  | (k, v) :: fields, path, depth =>
    (k, walkJsonValue v (childPath path k) (depth + 1)) :: walkFields fields path depth
termination_by structural fields => fields
end

def parseJsonValue (v : Json N) : Except (JsString × JsString) (Json N) :=
  walkJsonValue v (js "$") 0

/-! ## The canonical value -/

mutual
/-- The value `canonicalize` returns when no node is too deep. -/
def canonical : Json N → Json N
  | .arr items => .arr (canonicalItems items)
  | .obj fields => .obj (mkFields (sortBy Prod.fst (canonicalFields fields)))
  | v => v
termination_by structural v => v

/-- `canonical` on the items of an array. -/
def canonicalItems : List (Json N) → List (Json N)
  | [] => []
  | v :: items => canonical v :: canonicalItems items
termination_by structural items => items

/-- `canonical` on the members of an object. -/
def canonicalFields : List (JsString × Json N) → List (JsString × Json N)
  | [] => []
  | (k, v) :: fields => (k, canonical v) :: canonicalFields fields
termination_by structural fields => fields
end

theorem canonicalItems_eq_map (items : List (Json N)) :
    canonicalItems items = items.map canonical := by
  induction items with
  | nil => rfl
  | cons v items ih => rw [canonicalItems, ih, List.map_cons]

theorem canonicalFields_eq_map (fields : List (JsString × Json N)) :
    canonicalFields fields = fields.map fun f => (f.1, canonical f.2) := by
  induction fields with
  | nil => rfl
  | cons f fields ih => rw [canonicalFields, ih, List.map_cons]

theorem canonical_arr (items : List (Json N)) :
    canonical (.arr items) = .arr (items.map canonical) := by
  rw [canonical, canonicalItems_eq_map]

/-- The members are first sorted, then canonical; the other order is the same. -/
theorem canonical_obj (fields : List (JsString × Json N)) :
    canonical (.obj fields) =
      .obj (mkFields ((sortBy Prod.fst fields).map fun f => (f.1, canonical f.2))) := by
  rw [canonical, canonicalFields_eq_map]
  congr 2
  exact (map_sortBy _ (by intro _; rfl) fields).symm

/-! ## Results of the collector -/

theorem mapM_ok {E α β : Type} {f : α → Except E β} {g : α → β} {xs : List α}
    (h : ∀ x ∈ xs, f x = .ok (g x)) : xs.mapM f = .ok (xs.map g) := by
  induction xs with
  | nil => rfl
  | cons x xs ih =>
    rw [List.mapM_cons, h x (by simp), ih fun y hy => h y (by simp [hy])]
    rfl

theorem mapM_error {E α β : Type} {f : α → Except E β} {xs : List α} {x : α} {e : E}
    (hx : x ∈ xs) (h : f x = .error e) : ∃ e', xs.mapM f = .error e' := by
  induction xs with
  | nil => cases hx
  | cons y ys ih =>
    rw [List.mapM_cons]
    cases hy : f y with
    | error e' => exact ⟨e', rfl⟩
    | ok b =>
      rcases List.mem_cons.mp hx with rfl | hx
      · rw [h] at hy
        cases hy
      · obtain ⟨e', he'⟩ := ih hx
        exact ⟨e', by rw [he']; rfl⟩

theorem collectFields_ok {E α β : Type} {g : JsString × α → Except E β} {h : α → β}
    {fields : List (JsString × α)} (hok : ∀ f ∈ fields, g f = .ok (h f.2)) :
    collectFields (fields.map fun f => (f.1, g f)) = .ok (fields.map fun f => (f.1, h f.2)) := by
  rw [collectFields, List.mapM_map]
  refine mapM_ok fun f hf => ?_
  simp only [Function.comp, hok f hf]
  rfl

theorem collectFields_error {E α β : Type} {g : JsString × α → Except E β}
    {fields : List (JsString × α)} {f : JsString × α} {e : E} (hf : f ∈ fields)
    (herr : g f = .error e) :
    ∃ e', collectFields (fields.map fun f => (f.1, g f)) = .error e' := by
  rw [collectFields, List.mapM_map]
  refine mapM_error (e := e) hf ?_
  simp only [Function.comp, herr]
  rfl

/-! ## `canonicalize` returns the canonical value -/

theorem canonicalizeFields_eq_map (fields : List (JsString × Json N)) (path : JsString)
    (depth : Nat) :
    canonicalizeFields fields path depth =
      fields.map fun f => (f.1, canonicalizeAt f.2 (childPath path f.1) (depth + 1)) := by
  induction fields with
  | nil => rfl
  | cons f fields ih => rw [canonicalizeFields, ih, List.map_cons]

/-- The members of an object, sorted, with their results. -/
theorem sortBy_canonicalizeFields (fields : List (JsString × Json N)) (path : JsString)
    (depth : Nat) :
    sortBy Prod.fst (canonicalizeFields fields path depth) =
      (sortBy Prod.fst fields).map fun f =>
        (f.1, canonicalizeAt f.2 (childPath path f.1) (depth + 1)) := by
  rw [canonicalizeFields_eq_map]
  exact (map_sortBy _ (by intro _; rfl) fields).symm

theorem canonicalizeItems_ok {items : List (Json N)} {depth : Nat}
    (h : ∀ v ∈ items, ∀ path, canonicalizeAt v path (depth + 1) = .ok (canonical v))
    (path : JsString) (i : Nat) :
    canonicalizeItems items path i depth = .ok (items.map canonical) := by
  induction items generalizing i with
  | nil => rfl
  | cons v items ih =>
    rw [canonicalizeItems, h v (by simp), ih (fun w hw => h w (by simp [hw]))]
    rfl

/-- Within the depth limit `canonicalizeAt` returns the canonical value. -/
theorem canonicalizeAt_ok {v : Json N} {depth : Nat} (h : depth + v.depth ≤ maxJsonDepth)
    (path : JsString) : canonicalizeAt v path depth = .ok (canonical v) := by
  induction v using Json.ind generalizing path depth with
  | null | bool | num | str =>
    simp only [Json.depth] at h
    rw [canonicalizeAt, if_neg (by omega), canonical]
    all_goals simp
  | arr items ih =>
    have hitems : ∀ v ∈ items, ∀ path, canonicalizeAt v path (depth + 1) = .ok (canonical v) := by
      intro v hv path
      have hv' := depthItems_le.mp (le_refl (depthItems items)) v hv
      exact ih v hv (by simp only [Json.depth] at h; omega) path
    rw [canonicalizeAt, if_neg (by omega), canonicalizeItems_ok hitems, canonical_arr]
    rfl
  | obj fields ih =>
    have hfields : ∀ f ∈ sortBy Prod.fst fields,
        canonicalizeAt f.2 (childPath path f.1) (depth + 1) = .ok (canonical f.2) := by
      intro f hf
      have hf' : f ∈ fields := (sortBy_perm fields).mem_iff.mp hf
      have hdepth := depthFields_le.mp (le_refl (depthFields fields)) f hf'
      exact ih f hf' (by simp only [Json.depth] at h; omega) _
    rw [canonicalizeAt, if_neg (by omega), sortBy_canonicalizeFields, collectFields_ok hfields,
      canonical_obj]
    rfl

theorem canonicalizeItems_error {items : List (Json N)} {v : Json N} {depth : Nat}
    (hv : v ∈ items) (h : ∀ path, ∃ e, canonicalizeAt v path (depth + 1) = .error e)
    (path : JsString) (i : Nat) : ∃ e, canonicalizeItems items path i depth = .error e := by
  induction items generalizing i with
  | nil => cases hv
  | cons w items ih =>
    rw [canonicalizeItems]
    cases hw : canonicalizeAt w (itemPath path i) (depth + 1) with
    | error e => exact ⟨e, rfl⟩
    | ok w' =>
      rcases List.mem_cons.mp hv with rfl | hv
      · obtain ⟨e, he⟩ := h (itemPath path i)
        rw [hw] at he
        cases he
      · obtain ⟨e, he⟩ := ih hv (i + 1)
        exact ⟨e, by rw [he]; rfl⟩

theorem exists_depth_of_lt_depthItems {items : List (Json N)} {d : Nat}
    (h : d < depthItems items) : ∃ v ∈ items, d < v.depth + 1 := by
  by_contra hnone
  push Not at hnone
  exact absurd (depthItems_le.mpr hnone) (by omega)

theorem exists_depth_of_lt_depthFields {fields : List (JsString × Json N)} {d : Nat}
    (h : d < depthFields fields) : ∃ f ∈ fields, d < f.2.depth + 1 := by
  by_contra hnone
  push Not at hnone
  exact absurd (depthFields_le.mpr hnone) (by omega)

/-- Beyond the depth limit it throws. -/
theorem canonicalizeAt_error {v : Json N} {depth : Nat} (h : maxJsonDepth < depth + v.depth)
    (path : JsString) : ∃ e, canonicalizeAt v path depth = .error e := by
  induction v using Json.ind generalizing path depth with
  | null | bool | num | str =>
    simp only [Json.depth] at h
    exact ⟨depthMessage path, by rw [canonicalizeAt, if_pos (by omega)]; all_goals simp⟩
  | arr items ih =>
    rw [canonicalizeAt]
    by_cases hd : maxJsonDepth < depth
    · exact ⟨_, if_pos hd⟩
    · rw [if_neg hd]
      simp only [Json.depth] at h
      obtain ⟨v, hv, hlt⟩ := exists_depth_of_lt_depthItems
        (show maxJsonDepth - depth < depthItems items by omega)
      have herr : ∀ path, ∃ e, canonicalizeAt v path (depth + 1) = .error e :=
        fun path => ih v hv (by omega) path
      obtain ⟨e, he⟩ := canonicalizeItems_error hv herr path 0
      exact ⟨e, by rw [he]; rfl⟩
  | obj fields ih =>
    rw [canonicalizeAt, sortBy_canonicalizeFields]
    by_cases hd : maxJsonDepth < depth
    · exact ⟨_, if_pos hd⟩
    · rw [if_neg hd]
      simp only [Json.depth] at h
      obtain ⟨f, hf, hlt⟩ := exists_depth_of_lt_depthFields
        (show maxJsonDepth - depth < depthFields fields by omega)
      obtain ⟨e, he⟩ := ih f hf (show maxJsonDepth < depth + 1 + f.2.depth by omega)
        (childPath path f.1)
      obtain ⟨e', he'⟩ := collectFields_error (g := fun f =>
        canonicalizeAt f.2 (childPath path f.1) (depth + 1))
        ((sortBy_perm fields).mem_iff.mpr hf) he
      exact ⟨e', by rw [he']; rfl⟩

theorem canonicalStringify_ok [JsonNumber N] {v : Json N} (h : v.depth ≤ maxJsonDepth) :
    canonicalStringify v = .ok (canonical v).render := by
  rw [canonicalStringify, canonicalize, canonicalizeAt_ok (by omega)]
  rfl

/-- Values with one canonical form have one text. -/
theorem canonicalStringify_congr [JsonNumber N] {v w : Json N} (hv : v.depth ≤ maxJsonDepth)
    (hw : w.depth ≤ maxJsonDepth) (h : canonical v = canonical w) :
    canonicalStringify v = canonicalStringify w := by
  rw [canonicalStringify_ok hv, canonicalStringify_ok hw, h]

/-- `canonicalStringify` accepts exactly the values within the depth limit. -/
theorem canonicalStringify_eq_ok_iff [JsonNumber N] {v : Json N} {text : JsString} :
    canonicalStringify v = .ok text ↔ v.depth ≤ maxJsonDepth ∧ (canonical v).render = text := by
  by_cases h : v.depth ≤ maxJsonDepth
  · rw [canonicalStringify_ok h]
    simp [h]
  · obtain ⟨e, he⟩ := canonicalizeAt_error (show maxJsonDepth < 0 + v.depth by omega) (js "$")
    rw [canonicalStringify, canonicalize, he]
    constructor
    · intro hok
      cases hok
    · intro hok
      exact absurd hok.1 h

/-! ## Properties of the canonical value -/

theorem canonical_owned (v : Json N) : (canonical v).Owned := by
  induction v using Json.ind with
  | null | bool | num | str => rfl
  | arr items ih =>
    rw [canonical_arr, owned_arr, List.forall_mem_map]
    exact ih
  | obj fields ih =>
    rw [canonical_obj, owned_obj]
    refine ⟨mkFields_owned _, mkFields_values ?_⟩
    rw [List.forall_mem_map]
    exact fun f hf => ih f ((sortBy_perm fields).mem_iff.mp hf)

/-- The keys of the members after a change to their values. -/
theorem map_fst_mapValues {α β : Type} (g : α → β) (fields : List (JsString × α)) :
    (fields.map fun f => (f.1, g f.2)).map Prod.fst = fields.map Prod.fst := by
  rw [List.map_map]
  rfl

/-- With distinct keys, the members of a canonical object. -/
theorem canonical_obj_of_nodup {fields : List (JsString × Json N)}
    (h : (fields.map Prod.fst).Nodup) :
    canonical (.obj fields) =
      .obj ((ownOrder Prod.fst (sortBy Prod.fst fields)).map fun f => (f.1, canonical f.2)) := by
  have hnodup : ((sortBy Prod.fst fields).map Prod.fst).Nodup :=
    ((sortBy_perm fields).map Prod.fst).nodup_iff.mpr h
  rw [canonical_obj, mkFields_of_nodup (by rw [map_fst_mapValues]; exact hnodup)]
  congr 1
  exact (map_ownOrder _ (by intro _; rfl) _).symm

/-- The members of a canonical object, for keys that are already in order. -/
theorem canonical_obj_of_sorted {fields sorted : List (JsString × Json N)}
    (hperm : sorted.Perm fields) (hnodup : (sorted.map Prod.fst).Nodup)
    (hsorted : (sorted.map Prod.fst).Pairwise (· ≤ ·))
    (hkeys : ∀ k ∈ sorted.map Prod.fst, isArrayIndex k = false) :
    canonical (.obj fields) = .obj (sorted.map fun f => (f.1, canonical f.2)) := by
  have hown : ∀ f ∈ sorted, isArrayIndex f.1 = false :=
    fun f hf => hkeys f.1 (List.mem_map_of_mem (f := Prod.fst) hf)
  rw [canonical_obj_of_nodup ((hperm.map Prod.fst).nodup_iff.mp hnodup),
    ← sortBy_congr hperm hnodup, sortBy_eq_self (List.pairwise_map.mp hsorted),
    ownOrder_eq_self hown]

theorem canonical_depth {v : Json N} (h : v.Owned) : (canonical v).depth = v.depth := by
  induction v using Json.ind with
  | null | bool | num | str => rfl
  | arr items ih =>
    rw [owned_arr] at h
    rw [canonical_arr]
    simp only [Json.depth]
    apply le_antisymm
    · rw [depthItems_le, List.forall_mem_map]
      intro v hv
      rw [ih v hv (h v hv)]
      exact depthItems_le.mp (le_refl _) v hv
    · rw [depthItems_le]
      intro v hv
      rw [← ih v hv (h v hv)]
      exact depthItems_le.mp (le_refl _) _ (List.mem_map_of_mem hv)
  | obj fields ih =>
    rw [owned_obj] at h
    have hperm : (ownOrder Prod.fst (sortBy Prod.fst fields)).Perm fields :=
      (ownOrder_perm _).trans (sortBy_perm fields)
    rw [canonical_obj_of_nodup h.1.1]
    simp only [Json.depth]
    apply le_antisymm
    · rw [depthFields_le, List.forall_mem_map]
      intro f hf
      have hf' := hperm.mem_iff.mp hf
      rw [ih f hf' (h.2 f hf')]
      exact depthFields_le.mp (le_refl _) f hf'
    · rw [depthFields_le]
      intro f hf
      rw [← ih f hf (h.2 f hf)]
      exact depthFields_le.mp (le_refl _) (f.1, canonical f.2)
        (List.mem_map.mpr ⟨f, hperm.mem_iff.mpr hf, rfl⟩)

/-- Canonical values are canonical already. -/
theorem canonical_canonical {v : Json N} (h : v.Owned) : canonical (canonical v) = canonical v := by
  induction v using Json.ind with
  | null | bool | num | str => rfl
  | arr items ih =>
    rw [owned_arr] at h
    rw [canonical_arr, canonical_arr, List.map_map]
    congr 1
    exact List.map_congr_left fun v hv => ih v hv (h v hv)
  | obj fields ih =>
    rw [owned_obj] at h
    have hperm : (ownOrder Prod.fst (sortBy Prod.fst fields)).Perm fields :=
      (ownOrder_perm _).trans (sortBy_perm fields)
    have hnodup := (hperm.map Prod.fst).nodup_iff.mpr h.1.1
    rw [canonical_obj_of_nodup h.1.1,
      canonical_obj_of_nodup (by rw [map_fst_mapValues]; exact hnodup)]
    congr 1
    -- The key sort forgets the order in which the first pass left the members.
    have hsort : sortBy Prod.fst ((ownOrder Prod.fst (sortBy Prod.fst fields)).map
        fun f => (f.1, canonical f.2)) =
        (sortBy Prod.fst fields).map fun f => (f.1, canonical f.2) := by
      rw [← map_sortBy (fun f : JsString × Json N => (f.1, canonical f.2))
        (by intro _; rfl), sortBy_congr hperm hnodup]
    rw [hsort, ← map_ownOrder (fun f : JsString × Json N => (f.1, canonical f.2))
      (by intro _; rfl), List.map_map]
    apply List.map_congr_left
    intro f hf
    have hf' := hperm.mem_iff.mp hf
    simp only [Function.comp, ih f hf' (h.2 f hf')]

/-- The members of the canonical form of an object. -/
def canonicalMembers (fields : List (JsString × Json N)) : List (JsString × Json N) :=
  mkFields (sortBy Prod.fst (canonicalFields fields))

theorem canonical_obj_members (fields : List (JsString × Json N)) :
    canonical (.obj fields) = .obj (canonicalMembers fields) := by
  rw [canonical, canonicalMembers]

theorem canonicalMembers_perm {fields : List (JsString × Json N)}
    (h : (fields.map Prod.fst).Nodup) :
    (canonicalMembers fields).Perm (fields.map fun f => (f.1, canonical f.2)) := by
  have hobj := (canonical_obj_members fields).symm.trans (canonical_obj_of_nodup h)
  rw [Json.obj.inj hobj]
  exact ((ownOrder_perm _).trans (sortBy_perm fields)).map _

/-- What an object holds under a key, its canonical form holds in canonical form. -/
theorem lookupField_canonicalMembers {fields : List (JsString × Json N)}
    (h : (fields.map Prod.fst).Nodup) (key : JsString) :
    lookupField (canonicalMembers fields) key = (lookupField fields key).map canonical := by
  rw [lookupField_perm (canonicalMembers_perm h) (by rw [map_fst_mapValues]; exact h),
    lookupField_map]

/-- The canonical form depends on the canonical forms of the members only. -/
theorem canonical_obj_congr {fields fields' : List (JsString × Json N)}
    (h : canonicalFields fields = canonicalFields fields') :
    canonical (.obj fields) = canonical (.obj fields') := by
  rw [canonical, canonical, h]

/-- The order of the members does not show in the canonical form. -/
theorem canonical_obj_ext {fields fields' : List (JsString × Json N)}
    (h : (fields.map Prod.fst).Nodup) (h' : (fields'.map Prod.fst).Nodup)
    (hsame : ∀ key, (lookupField fields key).map canonical =
      (lookupField fields' key).map canonical) :
    canonical (.obj fields) = canonical (.obj fields') := by
  have hmem : ∀ {members : List (JsString × Json N)}, (members.map Prod.fst).Nodup →
      ∀ key v, (key, v) ∈ (members.map fun f => (f.1, canonical f.2)) ↔
        (lookupField members key).map canonical = some v := by
    intro members hnodup key v
    rw [← lookupField_map, lookupField_eq_some_iff]
    rw [map_fst_mapValues]
    exact hnodup
  have hnodup : ∀ {members : List (JsString × Json N)}, (members.map Prod.fst).Nodup →
      (members.map fun f => (f.1, canonical f.2)).Nodup := by
    intro members hnodup
    apply List.Nodup.of_map Prod.fst
    rw [map_fst_mapValues]
    exact hnodup
  have hperm : (fields.map fun f => (f.1, canonical f.2)).Perm
      (fields'.map fun f => (f.1, canonical f.2)) := by
    rw [List.perm_ext_iff_of_nodup (hnodup h) (hnodup h')]
    rintro ⟨key, v⟩
    rw [hmem h, hmem h', hsame]
  rw [canonical, canonical, canonicalFields_eq_map, canonicalFields_eq_map,
    sortBy_congr hperm (by rw [map_fst_mapValues]; exact h)]

/-! ## `parseJsonValue` on data -/

theorem walkFields_eq_map (fields : List (JsString × Json N)) (path : JsString)
    (depth : Nat) :
    walkFields fields path depth =
      fields.map fun f => (f.1, walkJsonValue f.2 (childPath path f.1) (depth + 1)) := by
  induction fields with
  | nil => rfl
  | cons f fields ih => rw [walkFields, ih, List.map_cons]

theorem walkItems_ok {items : List (Json N)} {depth : Nat}
    (h : ∀ v ∈ items, ∀ path, walkJsonValue v path (depth + 1) = .ok v)
    (path : JsString) (i : Nat) : walkItems items path i depth = .ok items := by
  induction items generalizing i with
  | nil => rfl
  | cons v items ih =>
    rw [walkItems, h v (by simp), ih (fun w hw => h w (by simp [hw]))]
    rfl

theorem walkJsonValue_ok {v : Json N} {depth : Nat} (hv : v.Owned)
    (h : depth + v.depth ≤ maxJsonDepth) (path : JsString) :
    walkJsonValue v path depth = .ok v := by
  induction v using Json.ind generalizing path depth with
  | null | bool | num | str =>
    simp only [Json.depth] at h
    rw [walkJsonValue, if_neg (by omega)]
    all_goals simp
  | arr items ih =>
    rw [owned_arr] at hv
    have hitems : ∀ v ∈ items, ∀ path, walkJsonValue v path (depth + 1) = .ok v := by
      intro v hmem path
      have hdepth := depthItems_le.mp (le_refl (depthItems items)) v hmem
      exact ih v hmem (hv v hmem) (by simp only [Json.depth] at h; omega) path
    rw [walkJsonValue, if_neg (by omega), walkItems_ok hitems]
    rfl
  | obj fields ih =>
    rw [owned_obj] at hv
    have hfields : ∀ f ∈ fields,
        walkJsonValue f.2 (childPath path f.1) (depth + 1) = .ok (id f.2) := by
      intro f hf
      have hdepth := depthFields_le.mp (le_refl (depthFields fields)) f hf
      exact ih f hf (hv.2 f hf) (by simp only [Json.depth] at h; omega) _
    rw [walkJsonValue, if_neg (by omega), walkFields_eq_map, collectFields_ok hfields]
    have hmap : (fields.map fun f => (f.1, id f.2)) = fields := List.map_id' fields
    rw [hmap, Except.map, mkFields_eq_self hv.1]

theorem walkItems_error {items : List (Json N)} {v : Json N} {depth : Nat}
    (hv : v ∈ items) (h : ∀ path, ∃ e, walkJsonValue v path (depth + 1) = .error e)
    (path : JsString) (i : Nat) : ∃ e, walkItems items path i depth = .error e := by
  induction items generalizing i with
  | nil => cases hv
  | cons w items ih =>
    rw [walkItems]
    cases hw : walkJsonValue w (itemPath path i) (depth + 1) with
    | error e => exact ⟨e, rfl⟩
    | ok w' =>
      rcases List.mem_cons.mp hv with rfl | hv
      · obtain ⟨e, he⟩ := h (itemPath path i)
        rw [hw] at he
        cases he
      · obtain ⟨e, he⟩ := ih hv (i + 1)
        exact ⟨e, by rw [he]; rfl⟩

theorem walkJsonValue_error {v : Json N} {depth : Nat} (h : maxJsonDepth < depth + v.depth)
    (path : JsString) : ∃ e, walkJsonValue v path depth = .error e := by
  induction v using Json.ind generalizing path depth with
  | null | bool | num | str =>
    simp only [Json.depth] at h
    exact ⟨_, by rw [walkJsonValue, if_pos (by omega)]; all_goals simp⟩
  | arr items ih =>
    rw [walkJsonValue]
    by_cases hd : maxJsonDepth < depth
    · exact ⟨_, if_pos hd⟩
    · rw [if_neg hd]
      simp only [Json.depth] at h
      obtain ⟨v, hv, hlt⟩ := exists_depth_of_lt_depthItems
        (show maxJsonDepth - depth < depthItems items by omega)
      have herr : ∀ path, ∃ e, walkJsonValue v path (depth + 1) = .error e :=
        fun path => ih v hv (by omega) path
      obtain ⟨e, he⟩ := walkItems_error hv herr path 0
      exact ⟨e, by rw [he]; rfl⟩
  | obj fields ih =>
    rw [walkJsonValue, walkFields_eq_map]
    by_cases hd : maxJsonDepth < depth
    · exact ⟨_, if_pos hd⟩
    · rw [if_neg hd]
      simp only [Json.depth] at h
      obtain ⟨f, hf, hlt⟩ := exists_depth_of_lt_depthFields
        (show maxJsonDepth - depth < depthFields fields by omega)
      obtain ⟨e, he⟩ := ih f hf (show maxJsonDepth < depth + 1 + f.2.depth by omega)
        (childPath path f.1)
      obtain ⟨e', he'⟩ := collectFields_error (g := fun f =>
        walkJsonValue f.2 (childPath path f.1) (depth + 1)) hf he
      exact ⟨e', by rw [he']; rfl⟩

/-- Data within the depth limit passes the boundary unchanged. -/
theorem parseJsonValue_ok {v : Json N} (hv : v.Owned) (h : v.depth ≤ maxJsonDepth) :
    parseJsonValue v = .ok v :=
  walkJsonValue_ok hv (by omega) _

/-- Data nested more deeply does not pass it. -/
theorem parseJsonValue_error {v : Json N} (h : maxJsonDepth < v.depth) :
    ∃ e, parseJsonValue v = .error e :=
  walkJsonValue_error (by omega) _

end PiRlm.Core

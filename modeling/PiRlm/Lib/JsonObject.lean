/-
  PiRlm.Lib.JsonObject

  Own properties of objects: array-index keys, enumeration order, assignment.

  An object enumerates its array-index keys first, in numeric order, and its other
  keys in the order of their creation.  `ownOrder` puts a list of members in that
  order and `sortBy` puts it in the order of a key sort by code units; the two
  agree on some key sets and not on others.  `JsonValue` is the type of the values a
  program can hold: distinct keys, in enumeration order, in every object inside.
-/
import Mathlib
import PiRlm.Lib.Json

namespace PiRlm.Lib

/-! ## Array indices -/

/-- Number a text of digits denotes. -/
def digitsValue (s : JsString) : Nat :=
  s.foldl (fun n u => n * 10 + (u.val - 0x30)) 0

/-- The array index a key is: the canonical decimal of a number below `2 ^ 32 - 1`. -/
def arrayIndex? (key : JsString) : Option Nat :=
  match key with
  | [] => none
  | u :: rest =>
    if (u :: rest).all isDigit ∧ (u ≠ 0x30 ∨ rest = []) ∧ digitsValue (u :: rest) < 2 ^ 32 - 1
    then some (digitsValue (u :: rest))
    else none

/-- Whether a key is enumerated as an array index. -/
def isArrayIndex (key : JsString) : Bool :=
  (arrayIndex? key).isSome

/-- Place of an array index among the others. -/
def indexRank (key : JsString) : Nat :=
  (arrayIndex? key).getD 0

/-! ## Two orders on keyed lists -/

section Order

variable {α : Type} (key : α → JsString)

/-- Order of a key sort by code units. -/
def sortBy (xs : List α) : List α :=
  xs.insertionSort fun x y => key x ≤ key y

/-- Order in which an object enumerates members created in the order of the list. -/
def ownOrder (xs : List α) : List α :=
  (xs.filter fun x => isArrayIndex (key x)).insertionSort
      (fun x y => indexRank (key x) ≤ indexRank (key y)) ++
    xs.filter fun x => !isArrayIndex (key x)

instance : Std.Total fun x y : α => key x ≤ key y :=
  ⟨fun x y => le_total (key x) (key y)⟩

instance : IsTrans α fun x y : α => key x ≤ key y :=
  ⟨fun _ _ _ h1 h2 => le_trans h1 h2⟩

instance : Std.Total fun x y : α => indexRank (key x) ≤ indexRank (key y) :=
  ⟨fun x y => le_total (indexRank (key x)) (indexRank (key y))⟩

instance : IsTrans α fun x y : α => indexRank (key x) ≤ indexRank (key y) :=
  ⟨fun _ _ _ h1 h2 => le_trans h1 h2⟩

variable {key}

theorem sortBy_perm (xs : List α) : (sortBy key xs).Perm xs :=
  List.perm_insertionSort _ xs

theorem sortBy_pairwise (xs : List α) :
    (sortBy key xs).Pairwise fun x y => key x ≤ key y :=
  List.pairwise_insertionSort _ xs

theorem sortBy_eq_self {xs : List α} (h : xs.Pairwise fun x y => key x ≤ key y) :
    sortBy key xs = xs :=
  h.insertionSort_eq

theorem map_sortBy {β : Type} {key' : β → JsString} (f : α → β)
    (h : ∀ x, key' (f x) = key x) (xs : List α) :
    (sortBy key xs).map f = sortBy key' (xs.map f) :=
  List.map_insertionSort _ _ f xs fun x _ y _ => by rw [h, h]

theorem ownOrder_perm (xs : List α) : (ownOrder key xs).Perm xs :=
  ((List.perm_insertionSort _ _).append_right _).trans (List.filter_append_perm _ xs)

theorem map_ownOrder {β : Type} {key' : β → JsString} (f : α → β)
    (h : ∀ x, key' (f x) = key x) (xs : List α) :
    (ownOrder key xs).map f = ownOrder key' (xs.map f) := by
  have hcomp : (fun x => isArrayIndex (key x)) = (fun y => isArrayIndex (key' y)) ∘ f := by
    funext x
    simp [h]
  have hcomp' : (fun x => !isArrayIndex (key x)) = (fun y => !isArrayIndex (key' y)) ∘ f := by
    funext x
    simp [h]
  rw [ownOrder, List.map_append, ownOrder,
    List.map_insertionSort _ (fun y z => indexRank (key' y) ≤ indexRank (key' z)) f _
      (fun x _ y _ => by rw [h, h]), hcomp, hcomp', List.filter_map, List.filter_map]

/-- Members already in enumeration order stay where they are. -/
theorem ownOrder_ownOrder (xs : List α) : ownOrder key (ownOrder key xs) = ownOrder key xs := by
  have hperm := List.perm_insertionSort (fun x y : α => indexRank (key x) ≤ indexRank (key y))
    (xs.filter fun x => isArrayIndex (key x))
  have hmem : ∀ x ∈ (xs.filter fun x => isArrayIndex (key x)).insertionSort
      (fun x y => indexRank (key x) ≤ indexRank (key y)), isArrayIndex (key x) = true :=
    fun x hx => (List.mem_filter.mp (hperm.mem_iff.mp hx)).2
  have hindex : (ownOrder key xs).filter (fun x => isArrayIndex (key x)) =
      (xs.filter fun x => isArrayIndex (key x)).insertionSort
        (fun x y => indexRank (key x) ≤ indexRank (key y)) := by
    rw [ownOrder, List.filter_append, List.filter_eq_self.mpr hmem, List.filter_filter]
    simp
  have hother : (ownOrder key xs).filter (fun x => !isArrayIndex (key x)) =
      xs.filter fun x => !isArrayIndex (key x) := by
    rw [ownOrder, List.filter_append, List.filter_filter, List.filter_eq_nil_iff.mpr]
    · simp
    · intro x hx
      simp [hmem x hx]
  rw [ownOrder, hindex, hother, (List.pairwise_insertionSort _ _).insertionSort_eq, ownOrder]

/-- A list without array indices enumerates in the order of creation. -/
theorem ownOrder_eq_self {xs : List α} (h : ∀ x ∈ xs, isArrayIndex (key x) = false) :
    ownOrder key xs = xs := by
  have hnil : xs.filter (fun x => isArrayIndex (key x)) = [] := by
    rw [List.filter_eq_nil_iff]
    intro x hx
    simp [h x hx]
  have hself : xs.filter (fun x => !isArrayIndex (key x)) = xs := by
    rw [List.filter_eq_self]
    intro x hx
    simp [h x hx]
  rw [ownOrder, hnil, hself]
  rfl

/-- Array indices in their order, and other keys after them. -/
theorem ownOrder_append {front back : List α} (hfront : ∀ x ∈ front, isArrayIndex (key x) = true)
    (hsorted : front.Pairwise fun x y => indexRank (key x) ≤ indexRank (key y))
    (hback : ∀ x ∈ back, isArrayIndex (key x) = false) :
    ownOrder key (front ++ back) = front ++ back := by
  have hindex : (front ++ back).filter (fun x => isArrayIndex (key x)) = front := by
    rw [List.filter_append, List.filter_eq_self.mpr hfront, List.filter_eq_nil_iff.mpr]
    · exact List.append_nil front
    · intro x hx
      simp [hback x hx]
  have hother : (front ++ back).filter (fun x => !isArrayIndex (key x)) = back := by
    rw [List.filter_append, List.filter_eq_nil_iff.mpr, List.filter_eq_self.mpr]
    · rfl
    · intro x hx
      simp [hback x hx]
    · intro x hx
      simp [hfront x hx]
  rw [ownOrder, hindex, hother, hsorted.insertionSort_eq]

theorem ownOrder_filter {xs : List α} (h : ownOrder key xs = xs) (q : α → Bool) :
    ownOrder key (xs.filter q) = xs.filter q := by
  have hperm := List.perm_insertionSort (fun x y : α => indexRank (key x) ≤ indexRank (key y))
    (xs.filter fun x => isArrayIndex (key x))
  have hsplit : xs.filter q = ((xs.filter fun x => isArrayIndex (key x)).insertionSort fun x y =>
      indexRank (key x) ≤ indexRank (key y)).filter q ++
        (xs.filter fun x => !isArrayIndex (key x)).filter q := by
    rw [← List.filter_append]
    exact congrArg (List.filter q) h.symm
  rw [hsplit]
  refine ownOrder_append (fun x hx => ?_) ?_ fun x hx => ?_
  · exact (List.mem_filter.mp (hperm.mem_iff.mp (List.mem_filter.mp hx).1)).2
  · exact (List.pairwise_insertionSort _ _).filter q
  · have hnot := (List.mem_filter.mp (List.mem_filter.mp hx).1).2
    rwa [Bool.not_eq_true'] at hnot

theorem eq_of_map_eq {β : Type} {key : α → β} {xs ys : List α}
    (h : ∀ x ∈ xs, ∀ y ∈ ys, key x = key y → x = y)
    (hkeys : xs.map key = ys.map key) : xs = ys := by
  induction xs generalizing ys with
  | nil => exact (List.map_eq_nil_iff.mp hkeys.symm).symm
  | cons x xs ih =>
    cases ys with
    | nil => cases hkeys
    | cons y ys =>
      obtain ⟨hhead, htail⟩ := List.cons.inj hkeys
      rw [h x (by simp) y (by simp) hhead,
        ih (fun a ha b hb => h a (by simp [ha]) b (by simp [hb])) htail]

/-- Two arrangements of one list with distinct keys are equal when their keys are. -/
theorem eq_of_perm_of_map_eq {xs ys : List α} (hperm : xs.Perm ys)
    (hnodup : (xs.map key).Nodup) (hkeys : xs.map key = ys.map key) : xs = ys :=
  eq_of_map_eq
    (fun _ hx _ hy => List.inj_on_of_nodup_map hnodup hx (hperm.mem_iff.mpr hy)) hkeys

/-- A key sort does not depend on the order in which distinct keys are given. -/
theorem sortBy_congr {xs ys : List α} (hperm : xs.Perm ys) (hnodup : (xs.map key).Nodup) :
    sortBy key xs = sortBy key ys := by
  have hsorted : (sortBy key xs).Perm (sortBy key ys) :=
    (sortBy_perm xs).trans (hperm.trans (sortBy_perm ys).symm)
  apply List.Perm.eq_of_pairwise _ (sortBy_pairwise xs) (sortBy_pairwise ys) hsorted
  intro x y hx hy hxy hyx
  have hx' : x ∈ xs := (sortBy_perm xs).mem_iff.mp hx
  have hy' : y ∈ xs := hperm.mem_iff.mpr ((sortBy_perm ys).mem_iff.mp hy)
  exact List.inj_on_of_nodup_map hnodup hx' hy' (le_antisymm hxy hyx)

end Order

/-! ## Objects -/

namespace Json

variable {N : Type}

/-- Assignment to a property: in place when the key is there, else at the end. -/
def setField (fields : List (JsString × Json N)) (k : JsString) (v : Json N) :
    List (JsString × Json N) :=
  if k ∈ fields.map Prod.fst then fields.map fun f => if f.1 = k then (k, v) else f
  else fields ++ [(k, v)]

/-- The members of an object built by assigning to its properties in turn. -/
def mkFields (fields : List (JsString × Json N)) : List (JsString × Json N) :=
  ownOrder Prod.fst (fields.foldl (fun acc f => setField acc f.1 f.2) [])

/-- First member of that key: `Object.getOwnPropertyDescriptor(...).value`. -/
def lookupField (fields : List (JsString × Json N)) (k : JsString) : Option (Json N) :=
  (fields.find? fun f => f.1 == k).map Prod.snd

theorem foldl_setField {fields acc : List (JsString × Json N)}
    (h : ((acc ++ fields).map Prod.fst).Nodup) :
    fields.foldl (fun acc f => setField acc f.1 f.2) acc = acc ++ fields := by
  induction fields generalizing acc with
  | nil => simp
  | cons f fields ih =>
    have hnew : f.1 ∉ acc.map Prod.fst := by
      intro hmem
      rw [List.map_append, List.nodup_append] at h
      exact h.2.2 _ hmem f.1 (by simp) rfl
    have hset : setField acc f.1 f.2 = acc ++ [f] := by
      rw [setField, if_neg hnew]
    rw [List.foldl_cons, hset, ih (by simpa using h), List.append_assoc]
    rfl

/-- With distinct keys nothing is overwritten. -/
theorem mkFields_of_nodup {fields : List (JsString × Json N)}
    (h : (fields.map Prod.fst).Nodup) : mkFields fields = ownOrder Prod.fst fields := by
  rw [mkFields, foldl_setField (by simpa using h), List.nil_append]

theorem setField_keys (fields : List (JsString × Json N)) (k : JsString) (v : Json N) :
    (setField fields k v).map Prod.fst =
      if k ∈ fields.map Prod.fst then fields.map Prod.fst else fields.map Prod.fst ++ [k] := by
  unfold setField
  split_ifs with h
  · rw [List.map_map]
    apply List.map_congr_left
    intro f _
    simp only [Function.comp]
    split_ifs with hf
    · exact hf.symm
    · rfl
  · simp

theorem setField_values {P : Json N → Prop} {fields : List (JsString × Json N)}
    (h : ∀ f ∈ fields, P f.2) {v : Json N} (hv : P v) (k : JsString) :
    ∀ f ∈ setField fields k v, P f.2 := by
  unfold setField
  split_ifs with hk
  · intro f hf
    obtain ⟨g, hg, rfl⟩ := List.mem_map.mp hf
    split_ifs
    · exact hv
    · exact h g hg
  · intro f hf
    rcases List.mem_append.mp hf with hf | hf
    · exact h f hf
    · rw [List.mem_singleton.mp hf]
      exact hv

theorem foldl_setField_keys_nodup {fields acc : List (JsString × Json N)}
    (h : (acc.map Prod.fst).Nodup) :
    ((fields.foldl (fun acc f => setField acc f.1 f.2) acc).map Prod.fst).Nodup := by
  induction fields generalizing acc with
  | nil => exact h
  | cons f fields ih =>
    apply ih
    rw [setField_keys]
    split_ifs with hk
    · exact h
    · rw [List.nodup_append]
      refine ⟨h, by simp, ?_⟩
      rintro a ha b hb rfl
      rw [List.mem_singleton.mp hb] at ha
      exact hk ha

theorem mkFields_values {P : Json N → Prop} {fields : List (JsString × Json N)}
    (h : ∀ f ∈ fields, P f.2) : ∀ f ∈ mkFields fields, P f.2 := by
  have hfold : ∀ acc : List (JsString × Json N), (∀ f ∈ acc, P f.2) →
      ∀ f ∈ fields.foldl (fun acc f => setField acc f.1 f.2) acc, P f.2 := by
    induction fields with
    | nil => exact fun _ hacc => hacc
    | cons f fields ih =>
      intro acc hacc
      exact ih (fun g hg => h g (by simp [hg])) _ (setField_values hacc (h f (by simp)) f.1)
  intro f hf
  exact hfold [] (by simp) f ((ownOrder_perm _).mem_iff.mp hf)

/-! ### Looking a key up -/

theorem mem_of_lookupField {fields : List (JsString × Json N)} {key : JsString} {v : Json N}
    (h : lookupField fields key = some v) : (key, v) ∈ fields := by
  rw [lookupField, Option.map_eq_some_iff] at h
  obtain ⟨f, hf, rfl⟩ := h
  have hkey : f.1 = key := by simpa using List.find?_some hf
  rw [← hkey]
  exact List.mem_of_find?_eq_some hf

theorem lookupField_isSome {fields : List (JsString × Json N)} {key : JsString} :
    (lookupField fields key).isSome = true ↔ key ∈ fields.map Prod.fst := by
  rw [lookupField, Option.isSome_map, List.find?_isSome]
  simp

theorem lookupField_append (xs ys : List (JsString × Json N)) (key : JsString) :
    lookupField (xs ++ ys) key = (lookupField xs key).or (lookupField ys key) := by
  rw [lookupField, List.find?_append]
  cases hx : xs.find? fun f => f.1 == key with
  | none => simp [lookupField, hx]
  | some f => simp [lookupField, hx]

theorem lookupField_eq_some_iff {fields : List (JsString × Json N)} (h : (fields.map Prod.fst).Nodup)
    {key : JsString} {v : Json N} : lookupField fields key = some v ↔ (key, v) ∈ fields := by
  rw [lookupField, Option.map_eq_some_iff]
  constructor
  · intro hsome
    exact mem_of_lookupField (by rw [lookupField, Option.map_eq_some_iff]; exact hsome)
  · intro hmem
    obtain ⟨f, hf⟩ : ∃ f, fields.find? (fun f => f.1 == key) = some f := by
      rw [← Option.isSome_iff_exists, List.find?_isSome]
      exact ⟨(key, v), hmem, by simp⟩
    have hkey : f.1 = key := by simpa using List.find?_some hf
    have heq : f = (key, v) :=
      List.inj_on_of_nodup_map h (List.mem_of_find?_eq_some hf) hmem hkey
    exact ⟨f, hf, by rw [heq]⟩

theorem lookupField_perm {fields fields' : List (JsString × Json N)} (hperm : fields'.Perm fields)
    (h : (fields.map Prod.fst).Nodup) (key : JsString) :
    lookupField fields' key = lookupField fields key := by
  have h' : (fields'.map Prod.fst).Nodup := (hperm.map Prod.fst).nodup_iff.mpr h
  apply Option.ext
  intro v
  rw [lookupField_eq_some_iff h, lookupField_eq_some_iff h', hperm.mem_iff]

theorem lookupField_map (g : Json N → Json N) (fields : List (JsString × Json N)) (key : JsString) :
    lookupField (fields.map fun f => (f.1, g f.2)) key = (lookupField fields key).map g := by
  unfold lookupField
  rw [List.find?_map, Option.map_map, Option.map_map]
  rfl

/-! ### Values -/

/-- The node keeps the rules of objects: distinct keys, in enumeration order. -/
def isOwned : Json N → Bool
  | .obj fields =>
    decide (fields.map Prod.fst).Nodup &&
      decide (ownOrder id (fields.map Prod.fst) = fields.map Prod.fst)
  | _ => true

/-- Every object inside keeps the rules of objects. -/
def Owned (v : Json N) : Prop :=
  v.all isOwned = true

instance (v : Json N) : Decidable v.Owned :=
  inferInstanceAs (Decidable (_ = true))

/-- Members that keep the rules of objects. -/
def OwnedFields (fields : List (JsString × Json N)) : Prop :=
  (fields.map Prod.fst).Nodup ∧ ownOrder Prod.fst fields = fields

theorem isOwned_obj {fields : List (JsString × Json N)} :
    isOwned (.obj fields) = true ↔ OwnedFields fields := by
  simp only [isOwned, Bool.and_eq_true, decide_eq_true_eq, OwnedFields]
  have hkeys : (ownOrder Prod.fst fields).map Prod.fst = ownOrder id (fields.map Prod.fst) :=
    map_ownOrder Prod.fst (by intro _; rfl) fields
  rw [← hkeys]
  refine and_congr_right fun hnodup => ⟨fun h => ?_, fun h => by rw [h]⟩
  have hperm : (ownOrder Prod.fst fields).Perm fields := ownOrder_perm fields
  exact eq_of_perm_of_map_eq hperm ((hperm.map Prod.fst).nodup_iff.mpr hnodup) h

theorem owned_arr {items : List (Json N)} :
    (Json.arr items).Owned ↔ ∀ v ∈ items, v.Owned := by
  simp only [Owned, all_arr, isOwned, true_and]

theorem owned_obj {fields : List (JsString × Json N)} :
    (Json.obj fields).Owned ↔ OwnedFields fields ∧ ∀ f ∈ fields, f.2.Owned := by
  simp only [Owned, all_obj, isOwned_obj]

theorem mkFields_owned (fields : List (JsString × Json N)) : OwnedFields (mkFields fields) := by
  refine ⟨?_, ownOrder_ownOrder _⟩
  exact ((ownOrder_perm _).map Prod.fst).nodup_iff.mpr (foldl_setField_keys_nodup (by simp))

theorem mkFields_eq_self {fields : List (JsString × Json N)} (h : OwnedFields fields) :
    mkFields fields = fields := by
  rw [mkFields_of_nodup h.1, h.2]

/-! ### `JSON.parse` -/

mutual
/-- The value a text's tree denotes: each object is built member by member. -/
def revive : Json N → Json N
  | .arr items => .arr (reviveItems items)
  | .obj fields => .obj (mkFields (reviveFields fields))
  | v => v
termination_by structural v => v

/-- `revive` on the items of an array. -/
def reviveItems : List (Json N) → List (Json N)
  | [] => []
  | v :: items => v.revive :: reviveItems items
termination_by structural items => items

/-- `revive` on the members of an object. -/
def reviveFields : List (JsString × Json N) → List (JsString × Json N)
  | [] => []
  | (k, v) :: fields => (k, v.revive) :: reviveFields fields
termination_by structural fields => fields
end

theorem reviveItems_eq_map (items : List (Json N)) : reviveItems items = items.map revive := by
  induction items with
  | nil => rfl
  | cons v items ih => rw [reviveItems, ih, List.map_cons]

theorem reviveFields_eq_map (fields : List (JsString × Json N)) :
    reviveFields fields = fields.map fun f => (f.1, f.2.revive) := by
  induction fields with
  | nil => rfl
  | cons f fields ih => rw [reviveFields, ih, List.map_cons]

theorem revive_owned (v : Json N) : v.revive.Owned := by
  induction v using Json.ind with
  | null | bool | num | str => rfl
  | arr items ih =>
    rw [revive, reviveItems_eq_map, owned_arr, List.forall_mem_map]
    exact ih
  | obj fields ih =>
    rw [revive, reviveFields_eq_map, owned_obj]
    refine ⟨mkFields_owned _, mkFields_values ?_⟩
    rw [List.forall_mem_map]
    exact ih

/-- A value a program can hold is left alone. -/
theorem revive_eq_self {v : Json N} (h : v.Owned) : v.revive = v := by
  induction v using Json.ind with
  | null | bool | num | str => rfl
  | arr items ih =>
    rw [owned_arr] at h
    have hmap : items.map revive = items := by
      rw [List.map_congr_left fun v hv => ih v hv (h v hv), List.map_id']
    rw [revive, reviveItems_eq_map, hmap]
  | obj fields ih =>
    rw [owned_obj] at h
    have hmap : (fields.map fun f => (f.1, f.2.revive)) = fields := by
      rw [List.map_congr_left (g := id) fun f hf => by rw [ih f hf (h.2 f hf)]; rfl, List.map_id]
    rw [revive, reviveFields_eq_map, hmap, mkFields_eq_self h.1]

variable [JsonNumber N]

/-- `JSON.parse`, without a result on a syntax error. -/
def parse (s : JsString) : Option (Json N) :=
  (parseRaw s).map revive

/-- Parsing the text of any ordered tree builds its objects. -/
theorem parse_render (v : Json N) : parse v.render = some v.revive := by
  rw [parse, parseRaw_render, Option.map_some]

theorem parse_owned {s : JsString} {v : Json N} (h : parse s = some v) : v.Owned := by
  obtain ⟨w, -, rfl⟩ := Option.map_eq_some_iff.mp h
  exact revive_owned w

end Json

/-- A JSON value as a program holds it. -/
abbrev JsonValue (N : Type) : Type :=
  { v : Json N // v.Owned }

/-- `JSON.parse`, its result as a value. -/
def parseJson {N : Type} [JsonNumber N] (s : JsString) : Option (JsonValue N) :=
  (Json.parseRaw s).map fun v => ⟨v.revive, Json.revive_owned v⟩

theorem parseJson_render {N : Type} [JsonNumber N] {v : Json N} (h : v.Owned) :
    parseJson v.render = some ⟨v, h⟩ := by
  rw [parseJson, Json.parseRaw_render, Option.map_some]
  congr 1
  exact Subtype.ext (Json.revive_eq_self h)

end PiRlm.Lib

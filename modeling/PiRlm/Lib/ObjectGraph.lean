/-
  PiRlm.Lib.ObjectGraph

  Object graphs of the language, the JSON values they represent, and `JSON.stringify`.

  Objects refer to each other by their place in a heap, so that they may be shared and
  cyclic.  Functions and the getters of accessors are numbers that a world gives a
  meaning; what a proxy does is not modelled, nor are properties with symbols for keys.
-/
import Mathlib
import PiRlm.Lib.JsonLength
import PiRlm.Lib.Keyed

namespace PiRlm.Lib

-- ============================================================================
-- Nodes
-- ============================================================================

namespace Json

variable {N : Type}

mutual
/-- The values inside a value, itself included. -/
def nodes : Json N → Nat
  | .arr items => nodesItems items + 1
  | .obj fields => nodesFields fields + 1
  | _ => 1
termination_by structural v => v

def nodesItems : List (Json N) → Nat
  | [] => 0
  | v :: items => v.nodes + nodesItems items
termination_by structural items => items

def nodesFields : List (JsString × Json N) → Nat
  | [] => 0
  | (_, v) :: fields => v.nodes + nodesFields fields
termination_by structural fields => fields
end

theorem nodes_le_nodesItems {items : List (Json N)} {v : Json N} (h : v ∈ items) :
    v.nodes ≤ nodesItems items := by
  induction items with
  | nil => exact absurd h List.not_mem_nil
  | cons w items ih =>
    rw [nodesItems]
    rcases List.mem_cons.mp h with rfl | h
    · omega
    · have := ih h
      omega

theorem nodes_le_nodesFields {fields : List (JsString × Json N)} {f : JsString × Json N}
    (h : f ∈ fields) : f.2.nodes ≤ nodesFields fields := by
  induction fields with
  | nil => exact absurd h List.not_mem_nil
  | cons g fields ih =>
    rw [nodesFields]
    rcases List.mem_cons.mp h with rfl | h
    · omega
    · have := ih h
      omega

mutual
theorem depth_lt_nodes : ∀ v : Json N, v.depth < v.nodes
  | .null | .bool _ | .num _ | .str _ => Nat.one_pos
  | .arr items => Nat.lt_succ_of_le (depthItems_le_nodes items)
  | .obj fields => Nat.lt_succ_of_le (depthFields_le_nodes fields)

theorem depthItems_le_nodes : ∀ items : List (Json N), depthItems items ≤ nodesItems items
  | [] => Nat.le_refl 0
  | v :: items => by
    have := depth_lt_nodes v
    have := depthItems_le_nodes items
    rw [depthItems, nodesItems]
    omega

theorem depthFields_le_nodes :
    ∀ fields : List (JsString × Json N), depthFields fields ≤ nodesFields fields
  | [] => Nat.le_refl 0
  | (_, v) :: fields => by
    have := depth_lt_nodes v
    have := depthFields_le_nodes fields
    rw [depthFields, nodesFields]
    omega
end

theorem length_le_nodesItems (items : List (Json N)) : items.length ≤ nodesItems items := by
  induction items with
  | nil => exact Nat.le_refl 0
  | cons v items ih =>
    have := v.depth_lt_nodes
    rw [nodesItems, List.length_cons]
    omega

theorem length_le_nodesFields (fields : List (JsString × Json N)) :
    fields.length ≤ nodesFields fields := by
  induction fields with
  | nil => exact Nat.le_refl 0
  | cons f fields ih =>
    have := f.2.depth_lt_nodes
    rw [nodesFields, List.length_cons]
    omega

end Json

-- ============================================================================
-- Graphs
-- ============================================================================

inductive JsValue (N : Type) where
  | undefined
  | null
  | bool (b : Bool)
  | num (n : N)
  /-- A number that is not finite. -/
  | nonFinite
  | str (s : JsString)
  | symbol
  | bigint
  | function (f : Nat)
  | object (r : Nat)
  deriving Repr, DecidableEq

inductive Property (N : Type) where
  | data (value : JsValue N)
  | accessor (getter : Option Nat)
  deriving Repr, DecidableEq

structure OwnProperty (N : Type) where
  key : JsString
  enumerable : Bool
  property : Property N
  deriving Repr, DecidableEq

/-- An object.  Its own properties have distinct keys, and stand in their order. -/
structure JsObject (N : Type) where
  /-- The length of an array. -/
  array : Option Nat
  proxy : Bool
  prototype : Option Nat
  properties : List (OwnProperty N)
  nodup : (properties.map (·.key)).Nodup
  ordered : ownOrder (·.key) properties = properties

/-- A heap, and what its functions do with a receiver; a function may throw. -/
structure JsWorld (N : Type) where
  heap : List (JsObject N)
  objectPrototype : Nat
  arrayPrototype : Nat
  call : Nat → JsValue N → Option (JsValue N)

variable {N : Type}

namespace JsObject

variable (o : JsObject N)

def property (key : JsString) : Option (Property N) :=
  (o.properties.find? fun p => decide (p.key = key)).map (·.property)

/-- The value of an own data property. -/
def dataProperty (key : JsString) : Option (JsValue N) :=
  match o.property key with
  | some (.data v) => some v
  | _ => none

/-- The own properties that an enumeration visits. -/
def enumerable : List (OwnProperty N) := o.properties.filter (·.enumerable)

end JsObject

namespace JsWorld

variable (w : JsWorld N)

/-- `Array.isArray`, and an array like a literal. -/
def isPlainArray (o : JsObject N) : Bool :=
  o.array.isSome && !o.proxy && o.prototype == some w.arrayPrototype

/-- An object like a literal, or one without a prototype. -/
def isPlainRecord (o : JsObject N) : Bool :=
  !o.array.isSome && !o.proxy &&
    (o.prototype == some w.objectPrototype || o.prototype == none)

/-- `Get`, up a chain of prototypes; nothing when a getter throws. -/
def getFrom (receiver : JsValue N) (key : JsString) : Nat → Nat → Option (JsValue N)
  | 0, _ => some .undefined
  | fuel + 1, r =>
    match w.heap[r]? with
    | none => some .undefined
    | some o =>
      match o.property key with
      | some (.data v) => some v
      | some (.accessor none) => some .undefined
      | some (.accessor (some getter)) => w.call getter receiver
      | none =>
        match o.prototype with
        | none => some .undefined
        | some prototype => getFrom receiver key fuel prototype

/-- The property of an object; a chain of prototypes is no longer than the heap. -/
def get (r : Nat) (key : JsString) : Option (JsValue N) :=
  w.getFrom (.object r) key w.heap.length r

-- ============================================================================
-- `JSON.stringify`
-- ============================================================================

/-- What `toJSON` makes of a value. -/
def toJson (v : JsValue N) : Option (JsValue N) :=
  match v with
  | .object r =>
    (w.get r (js "toJSON")).bind fun method =>
      match method with
      | .function f => w.call f v
      | _ => some v
  | _ => some v

variable [JsonNumber N]

/-- The text of a value: nothing when it throws, and `some none` for `undefined`. -/
def stringifyFrom : (fuel : Nat) → (stack : List Nat) → JsValue N → Option (Option JsString)
  | 0, _, _ => none
  | fuel + 1, stack, v =>
    (w.toJson v).bind fun v =>
      match v with
      | .undefined | .symbol | .function _ => some none
      | .null | .nonFinite => some (some (js "null"))
      | .bool b => some (some (if b then js "true" else js "false"))
      | .num n => some (some (JsonNumber.text n))
      | .str s => some (some (quote s))
      | .bigint => none
      | .object r =>
        if r ∈ stack then none
        else
          match w.heap[r]? with
          | none => none
          | some o =>
            match o.array with
            | some length =>
              ((List.range length).mapM fun i =>
                (w.get r (decimal i)).bind (stringifyFrom fuel (r :: stack))).map fun parts =>
                  some (Json.bracket 0x5B 0x5D (parts.map fun part => part.getD (js "null")))
            | none =>
              (o.enumerable.mapM fun p =>
                (w.get r p.key).bind fun v =>
                  (stringifyFrom fuel (r :: stack) v).map fun part =>
                    part.map fun text => quote p.key ++ 0x3A :: text).map fun parts =>
                  some (Json.bracket 0x7B 0x7D (parts.filterMap fun part => part))

/-- `JSON.stringify`; a stack without a cycle is no longer than the heap. -/
def stringify (v : JsValue N) : Option (Option JsString) :=
  w.stringifyFrom (w.heap.length + 2) [] v

end JsWorld

-- ============================================================================
-- The values that graphs represent
-- ============================================================================

/-- A value is acyclic plain data: it unfolds to a JSON value, through own data properties of
    plain arrays and records, with nothing else to enumerate. -/
inductive Represents (w : JsWorld N) : JsValue N → Json N → Prop where
  | null : Represents w .null .null
  | bool (b : Bool) : Represents w (.bool b) (.bool b)
  | num (n : N) : Represents w (.num n) (.num n)
  | str (s : JsString) : Represents w (.str s) (.str s)
  | arr {r : Nat} {o : JsObject N} {items : List (Json N)} (value : Nat → JsValue N)
    (ho : w.heap[r]? = some o) (hplain : w.isPlainArray o = true)
    (hlength : o.array = some items.length)
    (hkeys : ∀ p ∈ o.enumerable, ∃ i < items.length, p.key = decimal i)
    (hdata : ∀ i < items.length, o.dataProperty (decimal i) = some (value i))
    (hitems : ∀ (i : Nat) (item : Json N), items[i]? = some item →
      Represents w (value i) item) :
    Represents w (.object r) (.arr items)
  | obj {r : Nat} {o : JsObject N} {fields : List (JsString × Json N)} (value : Nat → JsValue N)
    (ho : w.heap[r]? = some o) (hplain : w.isPlainRecord o = true)
    (hkeys : o.enumerable.map (·.key) = fields.map Prod.fst)
    (hdata : ∀ (i : Nat) (p : OwnProperty N), o.enumerable[i]? = some p →
      p.property = .data (value i))
    (hfields : ∀ (i : Nat) (f : JsString × Json N), fields[i]? = some f →
      Represents w (value i) f.2) :
    Represents w (.object r) (.obj fields)

/-- The objects of the graph of a value. -/
inductive Reaches (w : JsWorld N) : JsValue N → Nat → Prop where
  | self (r : Nat) : Reaches w (.object r) r
  | step {r r' : Nat} {o : JsObject N} {p : OwnProperty N} {v : JsValue N}
    (ho : w.heap[r]? = some o) (hp : p ∈ o.properties) (hdata : p.property = .data v)
    (hreaches : Reaches w v r') : Reaches w (.object r) r'

/-- An object without a method for its encoding, own or inherited. -/
def Hookless (w : JsWorld N) (r : Nat) : Prop :=
  ∃ v, w.get r (js "toJSON") = some v ∧ ∀ f, v ≠ .function f

section

variable {w : JsWorld N} {v : JsValue N} {o : JsObject N} {p : OwnProperty N}

theorem JsObject.property_of_mem (hp : p ∈ o.properties) : o.property p.key = some p.property := by
  rw [JsObject.property, (find_eq_some_iff o.nodup).mpr ⟨hp, rfl⟩]
  rfl

theorem JsObject.property_of_dataProperty {key : JsString} (h : o.dataProperty key = some v) :
    o.property key = some (.data v) := by
  rw [JsObject.dataProperty] at h
  split at h
  · rename_i value heq
    obtain rfl := Option.some.inj h
    exact heq
  · exact absurd h nofun

/-- An own data property is found before any inherited one. -/
theorem JsWorld.get_of_data {r : Nat} {key : JsString} (ho : w.heap[r]? = some o)
    (h : o.property key = some (.data v)) : w.get r key = some v := by
  have hpos : 0 < w.heap.length := (Nat.zero_le r).trans_lt (List.getElem?_eq_some_iff.mp ho).1
  obtain ⟨fuel, hfuel⟩ : ∃ fuel, w.heap.length = fuel + 1 := ⟨w.heap.length - 1, by omega⟩
  rw [JsWorld.get, hfuel, JsWorld.getFrom, ho]
  dsimp only
  rw [h]

theorem JsWorld.proxy_of_plain (h : w.isPlainArray o = true) : o.proxy = false := by
  rw [isPlainArray, Bool.and_eq_true, Bool.and_eq_true] at h
  exact (Bool.not_eq_true' _).mp h.1.2

theorem JsWorld.proxy_of_record (h : w.isPlainRecord o = true) : o.proxy = false := by
  rw [isPlainRecord, Bool.and_eq_true, Bool.and_eq_true] at h
  exact (Bool.not_eq_true' _).mp h.1.2

theorem JsWorld.array_of_record (h : w.isPlainRecord o = true) : o.array = none := by
  rw [isPlainRecord, Bool.and_eq_true, Bool.and_eq_true, Bool.not_eq_true',
    Option.isSome_eq_false_iff, Option.isNone_iff_eq_none] at h
  exact h.1.1

/-- A value represents one JSON value at most. -/
theorem Represents.unique {j j' : Json N} (h : Represents w v j) (h' : Represents w v j') :
    j = j' := by
  induction h generalizing j' with
  | null | bool | num | str => cases h'; rfl
  | arr value ho hplain hlength hkeys hdata hitems ih =>
    cases h' with
    | arr value' ho' hplain' hlength' hkeys' hdata' hitems' =>
      obtain rfl := Option.some.inj (ho.symm.trans ho')
      have hlen := Option.some.inj (hlength.symm.trans hlength')
      congr 1
      refine List.ext_getElem? fun i => ?_
      cases hi : (_ : List (Json N))[i]? with
      | none =>
        rw [List.getElem?_eq_none_iff] at hi
        exact (List.getElem?_eq_none (hlen ▸ hi)).symm
      | some item =>
        have hlt := (List.getElem?_eq_some_iff.mp hi).1
        obtain ⟨item', hitem'⟩ : ∃ item', (_ : List (Json N))[i]? = some item' :=
          ⟨_, List.getElem?_eq_getElem (hlen ▸ hlt)⟩
        have hvalue := Option.some.inj ((hdata i hlt).symm.trans (hdata' i (hlen ▸ hlt)))
        rw [hitem', ih i item hi (hvalue ▸ hitems' i item' hitem')]
    | obj value' ho' hplain' hkeys' hdata' hfields' =>
      obtain rfl := Option.some.inj (ho.symm.trans ho')
      rw [JsWorld.array_of_record hplain'] at hlength
      exact absurd hlength nofun
  | @obj r o fields value ho hplain hkeys hdata hfields ih =>
    cases h' with
    | arr value' ho' hplain' hlength' hkeys' hdata' hitems' =>
      obtain rfl := Option.some.inj (ho.symm.trans ho')
      rw [JsWorld.array_of_record hplain] at hlength'
      exact absurd hlength' nofun
    | @obj _ _ fields' value' ho' hplain' hkeys' hdata' hfields' =>
      obtain rfl := Option.some.inj (ho.symm.trans ho')
      have hsame : fields.map Prod.fst = fields'.map Prod.fst := hkeys.symm.trans hkeys'
      congr 1
      refine List.ext_getElem? fun i => ?_
      have hlen : fields.length = fields'.length := by
        have := congrArg List.length hsame
        rwa [List.length_map, List.length_map] at this
      rcases Nat.lt_or_ge i fields.length with hlt | hge
      · have hf := List.getElem?_eq_getElem hlt
        have hf' := List.getElem?_eq_getElem (hlen ▸ hlt : i < fields'.length)
        have hp : i < (fields.map Prod.fst).length := by rwa [List.length_map]
        obtain ⟨p, hp⟩ : ∃ p, (_ : List (OwnProperty N))[i]? = some p := by
          rw [← hkeys, List.length_map] at hp
          exact ⟨_, List.getElem?_eq_getElem hp⟩
        have hvalue := Property.data.inj ((hdata i p hp).symm.trans (hdata' i p hp))
        have hkey : (fields[i]).1 = (fields'[i]).1 := by
          have := congrArg (·[i]?) hsame
          simpa [List.getElem?_map, hf, hf'] using this
        rw [hf, hf']
        exact congrArg some (Prod.ext hkey (ih i _ hf (hvalue ▸ hfields' i _ hf')))
      · rw [List.getElem?_eq_none hge, List.getElem?_eq_none (hlen ▸ hge)]

/-- An object whose members represent values has them in the order of its properties. -/
theorem Represents.owned {j : Json N} (h : Represents w v j) : j.Owned := by
  induction h with
  | null | bool | num | str => rfl
  | arr value ho hplain hlength hkeys hdata hitems ih =>
    rw [Json.owned_arr]
    intro item hitem
    obtain ⟨i, hi⟩ := List.mem_iff_getElem?.mp hitem
    exact ih i item hi
  | @obj r o fields value ho hplain hkeys hdata hfields ih =>
    rw [Json.owned_obj]
    have hsub : (o.enumerable.map (·.key)).Nodup :=
      o.nodup.sublist (List.filter_sublist.map _)
    refine ⟨⟨hkeys ▸ hsub, ?_⟩, fun f hf => ?_⟩
    · have hordered : ownOrder (·.key) o.enumerable = o.enumerable := ownOrder_filter o.ordered _
      have hkeyOrder : ownOrder id (fields.map Prod.fst) = fields.map Prod.fst := by
        rw [← hkeys]
        exact (map_ownOrder _ (fun _ => rfl) _).symm.trans (congrArg _ hordered)
      have hkeyed : (ownOrder Prod.fst fields).map Prod.fst = ownOrder id (fields.map Prod.fst) :=
        map_ownOrder Prod.fst (by intro _; rfl) fields
      have hnodup : ((ownOrder Prod.fst fields).map Prod.fst).Nodup :=
        ((ownOrder_perm fields).map Prod.fst).nodup_iff.mpr (hkeys ▸ hsub)
      exact eq_of_perm_of_map_eq (ownOrder_perm fields) hnodup (hkeyed.trans hkeyOrder)
    · obtain ⟨i, hi⟩ := List.mem_iff_getElem?.mp hf
      exact ih i f hi

/-- A member of what an object represents is that of an own data property. -/
theorem Represents.dataProperty {r : Nat} {fields : List (JsString × Json N)} {key : JsString}
    {j : Json N} (ho : w.heap[r]? = some o) (h : Represents w (.object r) (.obj fields))
    (hj : Json.lookupField fields key = some j) :
    ∃ v, o.dataProperty key = some v ∧ Represents w v j := by
  cases h with
  | obj value ho' hplain hkeys hdata hfields =>
    obtain rfl := Option.some.inj (ho.symm.trans ho')
    obtain ⟨f, hf, rfl⟩ := Option.map_eq_some_iff.mp hj
    obtain ⟨i, hi⟩ := List.mem_iff_getElem?.mp (List.mem_of_find?_eq_some hf)
    have hfound := List.find?_some hf
    have hkey : f.1 = key := beq_iff_eq.mp hfound
    have hplace : (o.enumerable.map (·.key))[i]? = some f.1 := by
      rw [hkeys, List.getElem?_map, hi]
      rfl
    rw [List.getElem?_map] at hplace
    obtain ⟨p, hp, heq⟩ := Option.map_eq_some_iff.mp hplace
    have hmem : p ∈ o.properties := List.mem_of_mem_filter (List.mem_of_getElem? hp)
    refine ⟨value i, ?_, hfields i f hi⟩
    rw [← hkey, ← heq, JsObject.dataProperty, JsObject.property_of_mem hmem, hdata i p hp]

/-- A partial function on every element. -/
theorem mapM_eq_some {α β : Type} {f : α → Option β} {xs : List α} {ys : List β}
    (hlength : xs.length = ys.length)
    (h : ∀ (i : Nat) (x : α) (y : β), xs[i]? = some x → ys[i]? = some y → f x = some y) :
    xs.mapM f = some ys := by
  induction xs generalizing ys with
  | nil =>
    rw [List.eq_nil_of_length_eq_zero hlength.symm]
    rfl
  | cons x xs ih =>
    cases ys with
    | nil => exact absurd hlength nofun
    | cons y ys =>
      have hrest : xs.mapM f = some ys :=
        ih (Nat.succ.inj hlength) fun i x y hx hy => h (i + 1) x y hx hy
      rw [List.mapM_cons, h 0 x y rfl rfl, hrest]
      rfl

theorem length_le_of_nodup {stack : List Nat} {n : Nat} (hnodup : stack.Nodup)
    (hlt : ∀ r ∈ stack, r < n) : stack.length ≤ n := by
  have hsub : stack ⊆ List.range n := fun r hr => List.mem_range.mpr (hlt r hr)
  have := (List.subperm_of_subset hnodup hsub).length_le
  rwa [List.length_range] at this

theorem toJson_of_hookless {r : Nat} (h : Hookless w r) :
    w.toJson (.object r) = some (.object r) := by
  obtain ⟨method, hget, hnot⟩ := h
  rw [JsWorld.toJson, hget]
  cases method with
  | function f => exact absurd rfl (hnot f)
  | _ => rfl

/-- The graph of a value of an own data property. -/
theorem Reaches.of_property {r r' : Nat} {key : JsString} (ho : w.heap[r]? = some o)
    (hproperty : o.property key = some (.data v)) (h : Reaches w v r') :
    Reaches w (.object r) r' := by
  obtain ⟨p, hfind, hdata⟩ := Option.map_eq_some_iff.mp hproperty
  exact .step ho (List.mem_of_find?_eq_some hfind) hdata h

/-- An object that is on the way to a value represents more than the value. -/
def Above (w : JsWorld N) (stack : List Nat) (j : Json N) : Prop :=
  ∀ r ∈ stack, ∃ j', Represents w (.object r) j' ∧ j.nodes < j'.nodes

theorem Above.not_mem {stack : List Nat} {j : Json N} {r : Nat} (h : Above w stack j)
    (hr : Represents w (.object r) j) : r ∉ stack := by
  intro hmem
  obtain ⟨j', hj', hlt⟩ := h r hmem
  rw [hr.unique hj'] at hlt
  exact lt_irrefl _ hlt

theorem Above.cons {stack : List Nat} {j item : Json N} {r : Nat} (h : Above w stack j)
    (hr : Represents w (.object r) j) (hlt : item.nodes < j.nodes) : Above w (r :: stack) item := by
  rw [Above, List.forall_mem_cons]
  refine ⟨⟨j, hr, hlt⟩, fun r' hr' => ?_⟩
  obtain ⟨j', hj', hless⟩ := h r' hr'
  exact ⟨j', hj', hlt.trans hless⟩

variable [JsonNumber N]

theorem stringifyFrom_represents {j : Json N} (h : Represents w v j) {fuel : Nat}
    {stack : List Nat} (hhook : ∀ r, Reaches w v r → Hookless w r) (hnodup : stack.Nodup)
    (hlt : ∀ r ∈ stack, r < w.heap.length) (habove : Above w stack j)
    (hfuel : w.heap.length + 2 ≤ fuel + stack.length) :
    w.stringifyFrom fuel stack v = some (some j.render) := by
  induction h generalizing fuel stack with
  | null | bool | num | str =>
    have := length_le_of_nodup hnodup hlt
    obtain ⟨fuel, rfl⟩ : ∃ n, fuel = n + 1 := ⟨fuel - 1, by omega⟩
    rfl
  | @arr r o items value ho hplain hlength hkeys hdata hitems ih =>
    have hr : Represents w (.object r) (.arr items) :=
      .arr value ho hplain hlength hkeys hdata hitems
    have hlen := length_le_of_nodup hnodup hlt
    obtain ⟨fuel, rfl⟩ : ∃ n, fuel = n + 1 := ⟨fuel - 1, by omega⟩
    have hparts : (List.range items.length).mapM (fun i =>
        (w.get r (decimal i)).bind (w.stringifyFrom fuel (r :: stack))) =
          some (items.map fun item => some item.render) := by
      refine mapM_eq_some (by rw [List.length_range, List.length_map]) fun k i part hi hpart => ?_
      have hk := (List.getElem?_eq_some_iff.mp hi).1
      rw [List.length_range] at hk
      rw [List.getElem?_range hk] at hi
      obtain rfl := Option.some.inj hi
      have hitem := List.getElem?_eq_getElem hk
      rw [List.getElem?_map, hitem] at hpart
      obtain rfl := Option.some.inj hpart
      have hproperty := JsObject.property_of_dataProperty (hdata k hk)
      have hreach : ∀ r', Reaches w (value k) r' → Reaches w (.object r) r' :=
        fun r' => Reaches.of_property ho hproperty
      have hless : (items[k]).nodes < (Json.arr items).nodes := by
        have := Json.nodes_le_nodesItems (List.getElem_mem hk)
        rw [Json.nodes]
        omega
      rw [JsWorld.get_of_data ho hproperty]
      refine ih k _ hitem (fun r' hr' => hhook r' (hreach r' hr')) ?_ ?_ (habove.cons hr hless) ?_
      · exact List.nodup_cons.mpr ⟨habove.not_mem hr, hnodup⟩
      · exact List.forall_mem_cons.mpr ⟨(List.getElem?_eq_some_iff.mp ho).1, hlt⟩
      · rw [List.length_cons]
        omega
    rw [JsWorld.stringifyFrom, toJson_of_hookless (hhook r (.self r))]
    dsimp only [Option.bind_some]
    rw [if_neg (habove.not_mem hr), ho]
    dsimp only
    rw [hlength]
    dsimp only
    rw [hparts, Option.map_some, List.map_map, Json.render_arr]
    rfl
  | @obj r o fields value ho hplain hkeys hdata hfields ih =>
    have hr : Represents w (.object r) (.obj fields) := .obj value ho hplain hkeys hdata hfields
    have hlen := length_le_of_nodup hnodup hlt
    obtain ⟨fuel, rfl⟩ : ∃ n, fuel = n + 1 := ⟨fuel - 1, by omega⟩
    have hlengths : o.enumerable.length = fields.length := by
      have := congrArg List.length hkeys
      rwa [List.length_map, List.length_map] at this
    have hparts : (o.enumerable.mapM fun p => (w.get r p.key).bind fun v =>
        (w.stringifyFrom fuel (r :: stack) v).map fun part =>
          part.map fun text => quote p.key ++ 0x3A :: text) =
          some (fields.map fun f => some (Json.member f)) := by
      refine mapM_eq_some (by rw [hlengths, List.length_map]) fun k p part hp hpart => ?_
      have hk := (List.getElem?_eq_some_iff.mp hp).1
      have hf := List.getElem?_eq_getElem (hlengths ▸ hk : k < fields.length)
      rw [List.getElem?_map, hf] at hpart
      obtain rfl := Option.some.inj hpart
      have hkey : p.key = (fields[k]).1 := by
        have := congrArg (·[k]?) hkeys
        simpa [List.getElem?_map, hp, hf] using this
      have hmem : p ∈ o.properties := List.mem_of_mem_filter (List.mem_of_getElem? hp)
      have hproperty : o.property p.key = some (.data (value k)) := by
        rw [JsObject.property_of_mem hmem, hdata k p hp]
      have hreach : ∀ r', Reaches w (value k) r' → Reaches w (.object r) r' :=
        fun r' => Reaches.of_property ho hproperty
      have hless : (fields[k]).2.nodes < (Json.obj fields).nodes := by
        have := Json.nodes_le_nodesFields (List.getElem_mem (hlengths ▸ hk : k < fields.length))
        rw [Json.nodes]
        omega
      have htext : w.stringifyFrom fuel (r :: stack) (value k) =
          some (some (fields[k]).2.render) := by
        refine ih k _ hf (fun r' hr' => hhook r' (hreach r' hr')) ?_ ?_ (habove.cons hr hless) ?_
        · exact List.nodup_cons.mpr ⟨habove.not_mem hr, hnodup⟩
        · exact List.forall_mem_cons.mpr ⟨(List.getElem?_eq_some_iff.mp ho).1, hlt⟩
        · rw [List.length_cons]
          omega
      rw [JsWorld.get_of_data ho hproperty, Option.bind_some, htext, Option.map_some,
        Option.map_some, hkey]
      rfl
    rw [JsWorld.stringifyFrom, toJson_of_hookless (hhook r (.self r))]
    dsimp only [Option.bind_some]
    rw [if_neg (habove.not_mem hr), ho]
    dsimp only
    rw [JsWorld.array_of_record hplain]
    dsimp only
    have hall : (fields.map fun f => some (Json.member f)).filterMap (fun part => part) =
        fields.map Json.member := by
      rw [List.filterMap_map]
      exact congrFun List.filterMap_eq_map fields
    rw [hparts, Option.map_some, hall, Json.render_obj]

/-- The encoding of a value without hooks is the text of what it represents. -/
theorem stringify_represents {j : Json N} (h : Represents w v j)
    (hhook : ∀ r, Reaches w v r → Hookless w r) : w.stringify v = some (some j.render) :=
  stringifyFrom_represents h hhook List.nodup_nil nofun nofun (Nat.le_refl _)

end

end PiRlm.Lib

/-
  PiRlm.Shell.BoundedJson

  The bounded clone of `shell/delegation/bounded-json.ts`.

  It reads own data properties only and calls nothing, so that a world gives it its heap
  and its two prototypes.  The objects under way are an argument: what a call adds to
  them it takes away again.
-/
import PiRlm.Lib.ObjectGraph

namespace PiRlm.Shell

open PiRlm.Lib

-- ============================================================================
-- The clone
-- ============================================================================

structure BoundedJsonLimits where
  maxBytes : Nat
  maxNodes : Nat
  maxDepth : Nat
  deriving Repr, DecidableEq

/-- The limits are safe integers, and positive but for the depth. -/
def BoundedJsonLimits.Valid (limits : BoundedJsonLimits) : Prop :=
  (1 ≤ limits.maxBytes ∧ limits.maxBytes ≤ maxSafeInteger) ∧
    (1 ≤ limits.maxNodes ∧ limits.maxNodes ≤ maxSafeInteger) ∧ limits.maxDepth ≤ maxSafeInteger

instance (limits : BoundedJsonLimits) : Decidable limits.Valid :=
  inferInstanceAs (Decidable (_ ∧ _))

structure CloneState where
  bytes : Nat
  nodes : Nat
  deriving Repr, DecidableEq

/-- `/^(0|[1-9][0-9]*)$/`. -/
def isIndexKey : JsString → Bool
  | [] => false
  | u :: rest => (u == 0x30 && rest.isEmpty) || (u != 0x30 && (u :: rest).all isDigit)

section

variable {N : Type} [JsonNumber N] (w : JsWorld N) (limits : BoundedJsonLimits)

def addBytes (state : CloneState) (amount : Nat) : Option CloneState :=
  if state.bytes + amount ≤ maxSafeInteger ∧ state.bytes + amount ≤ limits.maxBytes then
    some { state with bytes := state.bytes + amount }
  else none

/-- The loop over the enumerable keys of an array. -/
def arrayKeys (length : Nat) : List (OwnProperty N) → (enumerableKeys : Nat) → Bool
  | [], _ => true
  | p :: rest, enumerableKeys =>
    if limits.maxNodes < enumerableKeys + 1 ∨ isIndexKey p.key = false ∨
        length ≤ digitsValue p.key then false
    else arrayKeys length rest (enumerableKeys + 1)

/-- The loop over the items of an array. -/
def cloneItems (o : JsObject N) (clone : CloneState → JsValue N → Option (Json N × CloneState)) :
    (remaining index : Nat) → CloneState → Option (List (Json N) × CloneState)
  | 0, _, state => some ([], state)
  | remaining + 1, index, state =>
    (if 0 < index then addBytes limits state 1 else some state).bind fun state =>
    (o.dataProperty (decimal index)).bind fun item =>
    (clone state item).bind fun cloned =>
    (cloneItems o clone remaining (index + 1) cloned.2).map fun rest => (cloned.1 :: rest.1, rest.2)

/-- The loop over the enumerable keys of a record. -/
def cloneFields (o : JsObject N) (clone : CloneState → JsValue N → Option (Json N × CloneState)) :
    List (OwnProperty N) → (index : Nat) → CloneState →
      Option (List (JsString × Json N) × CloneState)
  | [], _, state => some ([], state)
  | p :: rest, index, state =>
    if limits.maxNodes ≤ index then none
    else
      (addBytes limits state
        (octetLength (quote p.key) + 1 + (if 0 < index then 1 else 0))).bind fun state =>
      (o.dataProperty p.key).bind fun item =>
      (clone state item).bind fun cloned =>
      (cloneFields o clone rest (index + 1) cloned.2).map fun rest =>
        ((p.key, cloned.1) :: rest.1, rest.2)

/-- `cloneNode`; each call counts one node, so that as many nested calls as there may be nodes
    are enough. -/
def cloneNode : (fuel : Nat) → (seen : List Nat) → (depth : Nat) → CloneState → JsValue N →
    Option (Json N × CloneState)
  | 0, _, _, _, _ => none
  | fuel + 1, seen, depth, state, input =>
    let state := { state with nodes := state.nodes + 1 }
    if limits.maxNodes < state.nodes ∨ limits.maxDepth < depth then none
    else
      match input with
      | .null => (addBytes limits state 4).map fun state => (.null, state)
      | .str s => (addBytes limits state (octetLength (quote s))).map fun state => (.str s, state)
      | .bool b => (addBytes limits state (if b then 4 else 5)).map fun state => (.bool b, state)
      | .num n =>
        (addBytes limits state (octetLength (JsonNumber.text n))).map fun state => (.num n, state)
      | .object r =>
        match w.heap[r]? with
        | none => none
        | some o =>
          if o.proxy ∨ r ∈ seen then none
          else
            match o.array with
            | some length =>
              if !w.isPlainArray o then none
              else
                (addBytes limits state 2).bind fun state =>
                if !arrayKeys limits length o.enumerable 0 then none
                else
                  (cloneItems limits o (cloneNode fuel (r :: seen) (depth + 1)) length 0 state).map
                    fun cloned => (.arr cloned.1, cloned.2)
            | none =>
              if !w.isPlainRecord o then none
              else
                (addBytes limits state 2).bind fun state =>
                (cloneFields limits o (cloneNode fuel (r :: seen) (depth + 1)) o.enumerable 0
                  state).map fun cloned => (.obj cloned.1, cloned.2)
      | _ => none

/-- The clone with the counters at its end. -/
def cloneCounted (input : JsValue N) : Option (Json N × CloneState) :=
  cloneNode w limits (limits.maxNodes + 1) [] 0 ⟨0, 0⟩ input

def cloneBoundedJson (input : JsValue N) : Option (Json N) :=
  if limits.Valid then (cloneCounted w limits input).map Prod.fst else none

end

-- ============================================================================
-- Keys and bytes
-- ============================================================================

theorem isIndexKey_decimal (n : Nat) : isIndexKey (decimal n) = true := by
  obtain ⟨u, rest, hcons, hzero⟩ := decimal_cons n
  have hdigits := decimal_isDigit n
  rw [hcons] at hdigits ⊢
  by_cases hu : u = 0x30
  · rw [isIndexKey, hu, hzero hu]
    rfl
  · rw [isIndexKey, Bool.or_eq_true, Bool.and_eq_true, Bool.and_eq_true]
    exact .inr ⟨bne_iff_ne.mpr hu, List.all_eq_true.mpr hdigits⟩

theorem decimal_of_isIndexKey {key : JsString} (h : isIndexKey key = true) :
    decimal (digitsValue key) = key := by
  cases key with
  | nil => exact absurd h nofun
  | cons u rest =>
    rw [isIndexKey, Bool.or_eq_true, Bool.and_eq_true, Bool.and_eq_true] at h
    rcases h with ⟨hzero, hrest⟩ | ⟨hzero, hdigits⟩
    · rw [beq_iff_eq.mp hzero, List.isEmpty_iff.mp hrest]
      rfl
    · exact decimal_digitsValue (bne_iff_ne.mp hzero) (List.all_eq_true.mp hdigits)

section

variable {N : Type} {limits : BoundedJsonLimits} {length : Nat} {properties : List (OwnProperty N)}

theorem arrayKeys_sound {enumerableKeys : Nat}
    (h : arrayKeys limits length properties enumerableKeys = true) :
    ∀ p ∈ properties, ∃ i < length, p.key = decimal i := by
  induction properties generalizing enumerableKeys with
  | nil => exact nofun
  | cons p rest ih =>
    rw [arrayKeys] at h
    split at h
    · exact absurd h nofun
    · rename_i hkey
      rw [not_or, not_or, Bool.not_eq_false, Nat.not_le] at hkey
      rw [List.forall_mem_cons]
      exact ⟨⟨_, hkey.2.2, (decimal_of_isIndexKey hkey.2.1).symm⟩, ih h⟩

theorem arrayKeys_complete {enumerableKeys : Nat}
    (h : ∀ p ∈ properties, ∃ i < length, p.key = decimal i)
    (hroom : enumerableKeys + properties.length ≤ limits.maxNodes) :
    arrayKeys limits length properties enumerableKeys = true := by
  induction properties generalizing enumerableKeys with
  | nil => rfl
  | cons p rest ih =>
    rw [List.forall_mem_cons] at h
    rw [List.length_cons] at hroom
    obtain ⟨⟨i, hi, hkey⟩, hrest⟩ := h
    rw [arrayKeys, if_neg]
    · exact ih hrest (by omega)
    · rw [hkey, isIndexKey_decimal, digitsValue_decimal]
      rintro (hmany | hnot | hle)
      · omega
      · exact absurd hnot nofun
      · omega

/-- An array has at most as many keys as places. -/
theorem enumerable_length_le {o : JsObject N}
    (hkeys : ∀ p ∈ o.enumerable, ∃ i < length, p.key = decimal i) :
    o.enumerable.length ≤ length := by
  have hnodup : (o.enumerable.map (·.key)).Nodup :=
    o.nodup.sublist (List.filter_sublist.map _)
  have hsub : o.enumerable.map (·.key) ⊆ (List.range length).map decimal := by
    intro key hkey
    obtain ⟨p, hp, rfl⟩ := List.mem_map.mp hkey
    obtain ⟨i, hi, heq⟩ := hkeys p hp
    exact List.mem_map.mpr ⟨i, List.mem_range.mpr hi, heq.symm⟩
  have := (List.subperm_of_subset hnodup hsub).length_le
  rwa [List.length_map, List.length_map, List.length_range] at this

theorem addBytes_eq_some {state state' : CloneState} {amount : Nat} :
    addBytes limits state amount = some state' →
      state' = { state with bytes := state.bytes + amount } ∧ state'.bytes ≤ limits.maxBytes := by
  intro h
  rw [addBytes] at h
  split at h
  · rename_i hfits
    obtain rfl := Option.some.inj h
    exact ⟨rfl, hfits.2⟩
  · exact absurd h nofun

theorem addBytes_of_le (hvalid : limits.Valid) {state : CloneState} {amount : Nat}
    (h : state.bytes + amount ≤ limits.maxBytes) :
    addBytes limits state amount = some { state with bytes := state.bytes + amount } :=
  if_pos ⟨h.trans hvalid.1.2, h⟩

end

-- ============================================================================
-- What is accepted
-- ============================================================================

section Sound

variable {N : Type} [JsonNumber N] {w : JsWorld N} {limits : BoundedJsonLimits}

/-- A clone that is accepted: what it represents, and what it adds to the counters. -/
structure Cloned (w : JsWorld N) (limits : BoundedJsonLimits) (depth : Nat) (state : CloneState)
    (v : JsValue N) (j : Json N) (state' : CloneState) : Prop where
  represents : Represents w v j
  nodes : state'.nodes = state.nodes + j.nodes
  bytes : state'.bytes = state.bytes + octetLength j.render
  depth_le : depth + j.depth ≤ limits.maxDepth
  nodes_le : state'.nodes ≤ limits.maxNodes
  bytes_le : state'.bytes ≤ limits.maxBytes

/-- Items that are accepted, from an index on. -/
structure ClonedItems (w : JsWorld N) (limits : BoundedJsonLimits) (o : JsObject N) (depth : Nat)
    (remaining index : Nat) (state : CloneState) (items : List (Json N)) (state' : CloneState) :
    Prop where
  length : items.length = remaining
  each : ∀ (i : Nat) (item : Json N), items[i]? = some item →
    ∃ v, o.dataProperty (decimal (index + i)) = some v ∧ Represents w v item ∧
      depth + 1 + item.depth ≤ limits.maxDepth
  nodes : state'.nodes = state.nodes + Json.nodesItems items
  bytes : state'.bytes = state.bytes +
    Json.separatedLength (index == 0) (items.map fun item => octetLength item.render)
  nodes_le : state'.nodes ≤ limits.maxNodes
  bytes_le : state'.bytes ≤ limits.maxBytes

/-- Members that are accepted, from an index on. -/
structure ClonedFields (w : JsWorld N) (limits : BoundedJsonLimits) (o : JsObject N) (depth : Nat)
    (properties : List (OwnProperty N)) (index : Nat) (state : CloneState)
    (fields : List (JsString × Json N)) (state' : CloneState) : Prop where
  keys : properties.map (·.key) = fields.map Prod.fst
  each : ∀ (i : Nat) (f : JsString × Json N), fields[i]? = some f →
    ∃ v, o.dataProperty f.1 = some v ∧ Represents w v f.2 ∧
      depth + 1 + f.2.depth ≤ limits.maxDepth
  nodes : state'.nodes = state.nodes + Json.nodesFields fields
  bytes : state'.bytes = state.bytes + Json.separatedLength (index == 0)
    (fields.map fun f => octetLength (quote f.1) + 1 + octetLength f.2.render)
  nodes_le : state'.nodes ≤ limits.maxNodes
  bytes_le : state'.bytes ≤ limits.maxBytes

variable {depth : Nat} {clone : CloneState → JsValue N → Option (Json N × CloneState)}
  {o : JsObject N}

theorem cloneItems_sound
    (hclone : ∀ state v j state', clone state v = some (j, state') →
      Cloned w limits (depth + 1) state v j state')
    {remaining index : Nat} {state state' : CloneState} {items : List (Json N)}
    (hnodes : state.nodes ≤ limits.maxNodes) (hbytes : state.bytes ≤ limits.maxBytes)
    (h : cloneItems limits o clone remaining index state = some (items, state')) :
    ClonedItems w limits o depth remaining index state items state' := by
  induction remaining generalizing index state items with
  | zero =>
    obtain ⟨rfl, rfl⟩ := Prod.mk.inj (Option.some.inj h)
    exact ⟨rfl, nofun, rfl, rfl, hnodes, hbytes⟩
  | succ remaining ih =>
    rw [cloneItems] at h
    obtain ⟨opened, hopened, h⟩ := Option.bind_eq_some_iff.mp h
    obtain ⟨v, hv, h⟩ := Option.bind_eq_some_iff.mp h
    obtain ⟨⟨item, cloned⟩, hitem, h⟩ := Option.bind_eq_some_iff.mp h
    obtain ⟨⟨rest, last⟩, hrest, heq⟩ := Option.map_eq_some_iff.mp h
    obtain ⟨rfl, rfl⟩ := Prod.mk.inj heq
    have hcloned := hclone opened v item cloned hitem
    have hlater : ClonedItems w limits o depth remaining (index + 1) cloned rest last :=
      ih hcloned.nodes_le hcloned.bytes_le hrest
    -- a comma before each item but the first
    have hcomma : opened.nodes = state.nodes ∧
        opened.bytes = state.bytes + if (index == 0) = true then 0 else 1 := by
      by_cases hindex : 0 < index
      · rw [if_pos hindex] at hopened
        rw [(addBytes_eq_some hopened).1, if_neg (by simp; omega)]
        exact ⟨rfl, rfl⟩
      · rw [if_neg hindex] at hopened
        rw [← Option.some.inj hopened, if_pos (by simp; omega)]
        exact ⟨rfl, rfl⟩
    refine ⟨congrArg (· + 1) hlater.length, fun i other hother => ?_, ?_, ?_, hlater.nodes_le,
      hlater.bytes_le⟩
    · cases i with
      | zero =>
        obtain rfl := Option.some.inj hother
        exact ⟨v, hv, hcloned.represents, hcloned.depth_le⟩
      | succ i =>
        obtain ⟨v', hv', hrepresents, hdepth⟩ := hlater.each i other hother
        have hplace : index + (i + 1) = index + 1 + i := by omega
        exact ⟨v', hplace ▸ hv', hrepresents, hdepth⟩
    · have := hlater.nodes
      have := hcloned.nodes
      rw [Json.nodesItems]
      dsimp only
      omega
    · have hlast := hlater.bytes
      have hfirst := hcloned.bytes
      have hnext : (index + 1 == 0) = false := rfl
      rw [hnext] at hlast
      rw [List.map_cons, Json.separatedLength]
      dsimp only
      omega

theorem cloneFields_sound
    (hclone : ∀ state v j state', clone state v = some (j, state') →
      Cloned w limits (depth + 1) state v j state')
    {properties : List (OwnProperty N)} {index : Nat} {state state' : CloneState}
    {fields : List (JsString × Json N)}
    (hnodes : state.nodes ≤ limits.maxNodes) (hbytes : state.bytes ≤ limits.maxBytes)
    (h : cloneFields limits o clone properties index state = some (fields, state')) :
    ClonedFields w limits o depth properties index state fields state' := by
  induction properties generalizing index state fields with
  | nil =>
    obtain ⟨rfl, rfl⟩ := Prod.mk.inj (Option.some.inj h)
    exact ⟨rfl, nofun, rfl, rfl, hnodes, hbytes⟩
  | cons p rest ih =>
    rw [cloneFields] at h
    split at h
    · exact absurd h nofun
    · obtain ⟨opened, hopened, h⟩ := Option.bind_eq_some_iff.mp h
      obtain ⟨v, hv, h⟩ := Option.bind_eq_some_iff.mp h
      obtain ⟨⟨j, cloned⟩, hj, h⟩ := Option.bind_eq_some_iff.mp h
      obtain ⟨⟨others, last⟩, hrest, heq⟩ := Option.map_eq_some_iff.mp h
      obtain ⟨rfl, rfl⟩ := Prod.mk.inj heq
      have hcloned := hclone opened v j cloned hj
      have hlater : ClonedFields w limits o depth rest (index + 1) cloned others last :=
        ih hcloned.nodes_le hcloned.bytes_le hrest
      have hkey := (addBytes_eq_some hopened).1
      have hcomma : (if 0 < index then 1 else 0) = if (index == 0) = true then 0 else 1 := by
        by_cases hindex : 0 < index
        · rw [if_pos hindex, if_neg (by simp; omega)]
        · rw [if_neg hindex, if_pos (by simp; omega)]
      rw [hcomma] at hkey
      refine ⟨?_, fun i f hf => ?_, ?_, ?_, hlater.nodes_le, hlater.bytes_le⟩
      · rw [List.map_cons, List.map_cons, hlater.keys]
      · cases i with
        | zero =>
          obtain rfl := Option.some.inj hf
          exact ⟨v, hv, hcloned.represents, hcloned.depth_le⟩
        | succ i => exact hlater.each i f hf
      · have := hlater.nodes
        have := hcloned.nodes
        rw [hkey] at this
        rw [Json.nodesFields]
        dsimp only at this ⊢
        omega
      · have hlast := hlater.bytes
        have hfirst := hcloned.bytes
        have hnext : (index + 1 == 0) = false := rfl
        rw [hnext] at hlast
        rw [hkey] at hfirst
        rw [List.map_cons, Json.separatedLength]
        dsimp only at hfirst ⊢
        omega

variable {r length : Nat} {state opened state' : CloneState}

theorem ClonedItems.arr {items : List (Json N)} (ho : w.heap[r]? = some o)
    (harray : o.array = some length) (hplain : w.isPlainArray o = true)
    (hkeys : ∀ p ∈ o.enumerable, ∃ i < length, p.key = decimal i)
    (hdepth : depth ≤ limits.maxDepth) (hnodes : opened.nodes = state.nodes + 1)
    (hbytes : opened.bytes = state.bytes + 2)
    (h : ClonedItems w limits o depth length 0 opened items state') :
    Cloned w limits depth state (.object r) (.arr items) state' := by
  have hitem : ∀ (i : Nat) (item : Json N), items[i]? = some item →
      ∃ v, o.dataProperty (decimal i) = some v ∧ Represents w v item ∧
        depth + 1 + item.depth ≤ limits.maxDepth := by
    intro i item hi
    obtain ⟨v, hv, hrest⟩ := h.each i item hi
    rw [Nat.zero_add] at hv
    exact ⟨v, hv, hrest⟩
  refine ⟨?_, ?_, ?_, ?_, h.nodes_le, h.bytes_le⟩
  · obtain rfl := h.length
    refine .arr (fun i => (o.dataProperty (decimal i)).getD .undefined) ho hplain harray hkeys ?_ ?_
    · intro i hi
      obtain ⟨v, hv, -⟩ := hitem i _ (List.getElem?_eq_getElem hi)
      rw [hv, Option.getD_some]
    · intro i item hi
      obtain ⟨v, hv, hrepresents, -⟩ := hitem i item hi
      rw [hv, Option.getD_some]
      exact hrepresents
  · have := h.nodes
    rw [Json.nodes]
    omega
  · have hitems := h.bytes
    have hlength := Json.octetLength_arr items
    have hfirst : ((0 : Nat) == 0) = true := rfl
    rw [hfirst] at hitems
    omega
  · have hdeep : Json.depthItems items ≤ limits.maxDepth - depth := by
      rw [Json.depthItems_le]
      intro item hmem
      obtain ⟨i, hi⟩ := List.mem_iff_getElem?.mp hmem
      obtain ⟨-, -, -, hle⟩ := hitem i item hi
      omega
    rw [Json.depth]
    omega

theorem ClonedFields.obj {fields : List (JsString × Json N)} (ho : w.heap[r]? = some o)
    (hplain : w.isPlainRecord o = true) (hdepth : depth ≤ limits.maxDepth)
    (hnodes : opened.nodes = state.nodes + 1) (hbytes : opened.bytes = state.bytes + 2)
    (h : ClonedFields w limits o depth o.enumerable 0 opened fields state') :
    Cloned w limits depth state (.object r) (.obj fields) state' := by
  -- the member at a place has the key of the property there
  have hkey : ∀ (i : Nat) (p : OwnProperty N) (f : JsString × Json N),
      o.enumerable[i]? = some p → fields[i]? = some f → p.key = f.1 := by
    intro i p f hp hf
    have := congrArg (·[i]?) h.keys
    simpa [List.getElem?_map, hp, hf] using this
  have hlength : o.enumerable.length = fields.length := by
    have := congrArg List.length h.keys
    rwa [List.length_map, List.length_map] at this
  refine ⟨?_, ?_, ?_, ?_, h.nodes_le, h.bytes_le⟩
  · refine .obj (fun i => ((o.enumerable[i]?).bind fun p => o.dataProperty p.key).getD .undefined)
      ho hplain h.keys ?_ ?_
    · intro i p hp
      have hlt := (List.getElem?_eq_some_iff.mp hp).1
      have hf := List.getElem?_eq_getElem (hlength ▸ hlt : i < fields.length)
      obtain ⟨v, hv, -⟩ := h.each i _ hf
      have hmem : p ∈ o.properties := List.mem_of_mem_filter (List.mem_of_getElem? hp)
      rw [← hkey i p _ hp hf] at hv
      have hproperty := JsObject.property_of_dataProperty hv
      rw [JsObject.property_of_mem hmem] at hproperty
      rw [hp, Option.bind_some, hv, Option.getD_some]
      exact Option.some.inj hproperty
    · intro i f hf
      have hlt := (List.getElem?_eq_some_iff.mp hf).1
      have hp := List.getElem?_eq_getElem (hlength ▸ hlt : i < o.enumerable.length)
      obtain ⟨v, hv, hrepresents, -⟩ := h.each i f hf
      rw [hp, Option.bind_some, hkey i _ f hp hf, hv, Option.getD_some]
      exact hrepresents
  · have := h.nodes
    rw [Json.nodes]
    omega
  · have hmembers := h.bytes
    have hoctets := Json.octetLength_obj_parts fields
    have hfirst : ((0 : Nat) == 0) = true := rfl
    rw [hfirst] at hmembers
    omega
  · have hdeep : Json.depthFields fields ≤ limits.maxDepth - depth := by
      rw [Json.depthFields_le]
      intro f hmem
      obtain ⟨i, hf⟩ := List.mem_iff_getElem?.mp hmem
      obtain ⟨-, -, -, hle⟩ := h.each i f hf
      omega
    rw [Json.depth]
    omega

theorem Cloned.leaf {v : JsValue N} {j j' : Json N} {amount : Nat} (hr : Represents w v j)
    (hnodes : j.nodes = 1) (hdepth : j.depth = 0) (hbytes : octetLength j.render = amount)
    (hfits : state.nodes + 1 ≤ limits.maxNodes ∧ depth ≤ limits.maxDepth)
    (h : (addBytes limits { state with nodes := state.nodes + 1 } amount).map
      (fun state => (j, state)) = some (j', state')) :
    Cloned w limits depth state v j' state' := by
  obtain ⟨added, hadded, heq⟩ := Option.map_eq_some_iff.mp h
  obtain ⟨rfl, rfl⟩ := Prod.mk.inj heq
  obtain ⟨hstate, hle⟩ := addBytes_eq_some hadded
  have hcounted : added.nodes = state.nodes + 1 ∧ added.bytes = state.bytes + amount := by
    rw [hstate]
    exact ⟨rfl, rfl⟩
  exact ⟨hr, by omega, by omega, by omega, by omega, hle⟩

theorem cloneNode_sound {fuel : Nat} {seen : List Nat} {v : JsValue N} {j : Json N}
    (h : cloneNode w limits fuel seen depth state v = some (j, state')) :
    Cloned w limits depth state v j state' := by
  induction fuel generalizing seen depth state v j state' with
  | zero => exact absurd h nofun
  | succ fuel ih =>
    rw [cloneNode.eq_def] at h
    dsimp only at h
    by_cases hlimit : limits.maxNodes < state.nodes + 1 ∨ limits.maxDepth < depth
    · rw [if_pos hlimit] at h
      exact absurd h nofun
    · rw [if_neg hlimit] at h
      have hfits : state.nodes + 1 ≤ limits.maxNodes ∧ depth ≤ limits.maxDepth := by omega
      cases v with
      | undefined | nonFinite | symbol | bigint | function => exact absurd h nofun
      | null => exact .leaf .null rfl rfl rfl hfits h
      | bool b => exact .leaf (.bool b) rfl rfl (by cases b <;> rfl) hfits h
      | num n => exact .leaf (.num n) rfl rfl rfl hfits h
      | str s => exact .leaf (.str s) rfl rfl rfl hfits h
      | object r =>
        dsimp only at h
        split at h
        · exact absurd h nofun
        · rename_i o ho
          split at h
          · exact absurd h nofun
          · split at h
            · rename_i length harray
              split at h
              · exact absurd h nofun
              · rename_i hplain
                rw [Bool.not_eq_true', Bool.not_eq_false] at hplain
                obtain ⟨opened, hopened, h⟩ := Option.bind_eq_some_iff.mp h
                split at h
                · exact absurd h nofun
                · rename_i hkeys
                  rw [Bool.not_eq_true', Bool.not_eq_false] at hkeys
                  obtain ⟨⟨items, last⟩, hitems, heq⟩ := Option.map_eq_some_iff.mp h
                  obtain ⟨rfl, rfl⟩ := Prod.mk.inj heq
                  obtain ⟨hstate, hle⟩ := addBytes_eq_some hopened
                  have hcloned := cloneItems_sound (fun _ _ _ _ => ih)
                    (by rw [hstate]; exact hfits.1) hle hitems
                  exact hcloned.arr ho harray hplain (arrayKeys_sound hkeys) hfits.2
                    (by rw [hstate]) (by rw [hstate])
            · split at h
              · exact absurd h nofun
              · rename_i hplain
                rw [Bool.not_eq_true', Bool.not_eq_false] at hplain
                obtain ⟨opened, hopened, h⟩ := Option.bind_eq_some_iff.mp h
                obtain ⟨⟨fields, last⟩, hfields, heq⟩ := Option.map_eq_some_iff.mp h
                obtain ⟨rfl, rfl⟩ := Prod.mk.inj heq
                obtain ⟨hstate, hle⟩ := addBytes_eq_some hopened
                have hcloned := cloneFields_sound (fun _ _ _ _ => ih)
                  (by rw [hstate]; exact hfits.1) hle hfields
                exact hcloned.obj ho hplain hfits.2 (by rw [hstate]) (by rw [hstate])

end Sound

-- ============================================================================
-- What is within the limits
-- ============================================================================

section Complete

variable {N : Type} [JsonNumber N] {w : JsWorld N} {limits : BoundedJsonLimits} {o : JsObject N}
  {clone : CloneState → JsValue N → Option (Json N × CloneState)} {state : CloneState}

/-- The counters after some bytes and nodes. -/
def CloneState.plus (state : CloneState) (bytes nodes : Nat) : CloneState :=
  ⟨state.bytes + bytes, state.nodes + nodes⟩

@[simp] theorem CloneState.plus_bytes (bytes nodes : Nat) :
    (state.plus bytes nodes).bytes = state.bytes + bytes := rfl

@[simp] theorem CloneState.plus_nodes (bytes nodes : Nat) :
    (state.plus bytes nodes).nodes = state.nodes + nodes := rfl

theorem CloneState.plus_plus (bytes nodes bytes' nodes' : Nat) :
    (state.plus bytes nodes).plus bytes' nodes' = state.plus (bytes + bytes') (nodes + nodes') := by
  rw [plus, plus, plus, Nat.add_assoc, Nat.add_assoc]

/-- The counters have room for a value. -/
def Room (limits : BoundedJsonLimits) (state : CloneState) (bytes nodes : Nat) : Prop :=
  state.bytes + bytes ≤ limits.maxBytes ∧ state.nodes + nodes ≤ limits.maxNodes

/-- A clone of an item wherever there is room for it. -/
def Clones (limits : BoundedJsonLimits)
    (clone : CloneState → JsValue N → Option (Json N × CloneState)) (v : JsValue N) (j : Json N) :
    Prop :=
  ∀ state, Room limits state (octetLength j.render) j.nodes →
    clone state v = some (j, state.plus (octetLength j.render) j.nodes)

theorem addBytes_plus (hvalid : limits.Valid) {amount : Nat}
    (h : state.bytes + amount ≤ limits.maxBytes) :
    addBytes limits state amount = some (state.plus amount 0) :=
  addBytes_of_le hvalid h

theorem cloneItems_complete (hvalid : limits.Valid) {items : List (Json N)}
    {value : Nat → JsValue N} {index : Nat}
    (hdata : ∀ i < items.length, o.dataProperty (decimal (index + i)) = some (value i))
    (hclone : ∀ (i : Nat) (item : Json N), items[i]? = some item →
      Clones limits clone (value i) item)
    (hroom : Room limits state
      (Json.separatedLength (index == 0) (items.map fun item => octetLength item.render))
      (Json.nodesItems items)) :
    cloneItems limits o clone items.length index state = some (items, state.plus
      (Json.separatedLength (index == 0) (items.map fun item => octetLength item.render))
      (Json.nodesItems items)) := by
  induction items generalizing index state value with
  | nil => rfl
  | cons item items ih =>
    obtain ⟨hbytes, hnodes⟩ := hroom
    rw [List.map_cons, Json.separatedLength] at hbytes
    rw [Json.nodesItems] at hnodes
    have hnext : (index + 1 == 0) = false := rfl
    -- a comma before each item but the first
    have hcomma : (if 0 < index then addBytes limits state 1 else some state) =
        some (state.plus (if (index == 0) = true then 0 else 1) 0) := by
      by_cases hindex : 0 < index
      · have hlater : ¬(index == 0) = true := by simp; omega
        rw [if_neg hlater] at hbytes ⊢
        rw [if_pos hindex, addBytes_plus hvalid (by omega)]
      · have hfirst : (index == 0) = true := by simp; omega
        rw [if_neg hindex, if_pos hfirst]
        rfl
    rw [List.map_cons, Json.separatedLength, Json.nodesItems]
    generalize (if (index == 0) = true then 0 else 1) = comma at hbytes hcomma ⊢
    have hfirst := hdata 0 (by simp)
    have hitem := hclone 0 item rfl (state.plus comma 0)
      ⟨by rw [CloneState.plus_bytes]; omega, by rw [CloneState.plus_nodes]; omega⟩
    rw [CloneState.plus_plus, Nat.zero_add] at hitem
    generalize hcloned : state.plus (comma + octetLength item.render) item.nodes = cloned at hitem
    have hrest : cloneItems limits o clone items.length (index + 1) cloned =
        some (items, cloned.plus
          (Json.separatedLength (index + 1 == 0) (items.map fun item => octetLength item.render))
          (Json.nodesItems items)) := by
      apply ih
      · intro i hi
        have hplace : index + 1 + i = index + (i + 1) := by omega
        rw [hplace]
        exact hdata (i + 1) (by rw [List.length_cons]; omega)
      · exact fun i other hother => hclone (i + 1) other hother
      · rw [hnext, ← hcloned]
        exact ⟨by rw [CloneState.plus_bytes]; omega, by rw [CloneState.plus_nodes]; omega⟩
    rw [List.length_cons, cloneItems, hcomma, Option.bind_some]
    rw [Nat.add_zero] at hfirst
    rw [hfirst, Option.bind_some, hitem, Option.bind_some, hrest, Option.map_some, ← hcloned,
      CloneState.plus_plus, hnext]

theorem cloneFields_complete (hvalid : limits.Valid) {properties : List (OwnProperty N)}
    {fields : List (JsString × Json N)} {value : Nat → JsValue N} {index : Nat}
    (hkeys : properties.map (·.key) = fields.map Prod.fst)
    (hdata : ∀ (i : Nat) (p : OwnProperty N), properties[i]? = some p →
      o.dataProperty p.key = some (value i))
    (hclone : ∀ (i : Nat) (f : JsString × Json N), fields[i]? = some f →
      Clones limits clone (value i) f.2)
    (hindex : index + properties.length ≤ limits.maxNodes)
    (hroom : Room limits state (Json.separatedLength (index == 0)
      (fields.map fun f => octetLength (quote f.1) + 1 + octetLength f.2.render))
      (Json.nodesFields fields)) :
    cloneFields limits o clone properties index state = some (fields, state.plus
      (Json.separatedLength (index == 0)
        (fields.map fun f => octetLength (quote f.1) + 1 + octetLength f.2.render))
      (Json.nodesFields fields)) := by
  induction properties generalizing index state value fields with
  | nil =>
    obtain rfl := List.map_eq_nil_iff.mp hkeys.symm
    rfl
  | cons p properties ih =>
    cases fields with
    | nil => exact absurd hkeys nofun
    | cons f fields =>
      obtain ⟨hkey, hlater⟩ := List.cons.inj hkeys
      dsimp only at hkey
      obtain ⟨hbytes, hnodes⟩ := hroom
      rw [List.map_cons, Json.separatedLength] at hbytes
      rw [Json.nodesFields] at hnodes
      rw [List.length_cons] at hindex
      have hnext : (index + 1 == 0) = false := rfl
      have hcomma : (if 0 < index then 1 else 0) = if (index == 0) = true then 0 else 1 := by
        by_cases h : 0 < index
        · rw [if_pos h, if_neg (by simp; omega)]
        · rw [if_neg h, if_pos (by simp; omega)]
      rw [List.map_cons, Json.separatedLength, Json.nodesFields]
      generalize (if (index == 0) = true then 0 else 1) = comma at hbytes hcomma ⊢
      have hopened := addBytes_plus hvalid
        (show state.bytes + (octetLength (quote f.1) + 1 + comma) ≤ limits.maxBytes by omega)
      have hfirst := hdata 0 p rfl
      rw [hkey] at hfirst
      have hitem := hclone 0 f rfl (state.plus (octetLength (quote f.1) + 1 + comma) 0)
        ⟨by rw [CloneState.plus_bytes]; omega, by rw [CloneState.plus_nodes]; omega⟩
      rw [CloneState.plus_plus, Nat.zero_add] at hitem
      generalize hcloned : state.plus (octetLength (quote f.1) + 1 + comma +
        octetLength f.2.render) f.2.nodes = cloned at hitem
      have hrest : cloneFields limits o clone properties (index + 1) cloned =
          some (fields, cloned.plus (Json.separatedLength (index + 1 == 0)
            (fields.map fun f => octetLength (quote f.1) + 1 + octetLength f.2.render))
            (Json.nodesFields fields)) := by
        apply ih hlater
        · exact fun i other hother => hdata (i + 1) other hother
        · exact fun i other hother => hclone (i + 1) other hother
        · omega
        · rw [hnext, ← hcloned]
          exact ⟨by rw [CloneState.plus_bytes]; omega, by rw [CloneState.plus_nodes]; omega⟩
      have hbelow : ¬limits.maxNodes ≤ index := by omega
      have hsum : octetLength (quote f.1) + 1 + comma + octetLength f.2.render =
          comma + (octetLength (quote f.1) + 1 + octetLength f.2.render) := by omega
      rw [cloneFields, if_neg hbelow, hcomma, hkey, hopened, Option.bind_some, hfirst,
        Option.bind_some, hitem, Option.bind_some, hrest, Option.map_some, ← hcloned,
        CloneState.plus_plus, hnext, hsum]

theorem addBytes_leaf (hvalid : limits.Valid) {j : Json N} {amount : Nat}
    (hnodes : j.nodes = 1) (hamount : octetLength j.render = amount)
    (hroom : Room limits state (octetLength j.render) j.nodes) :
    (addBytes limits { state with nodes := state.nodes + 1 } amount).map
      (fun state => (j, state)) = some (j, state.plus (octetLength j.render) j.nodes) := by
  obtain ⟨hbytes, -⟩ := hroom
  rw [hamount] at hbytes
  rw [addBytes_of_le hvalid (by exact hbytes), Option.map_some, hnodes, hamount]
  rfl

theorem octetLength_bool (b : Bool) :
    octetLength (Json.bool b : Json N).render = if b then 4 else 5 := by
  cases b <;> rfl

theorem Room.fits {bytes nodes depth d : Nat} (h : Room limits state bytes nodes)
    (hpos : 0 < nodes) (hdepth : depth + d ≤ limits.maxDepth) :
    ¬(limits.maxNodes < state.nodes + 1 ∨ limits.maxDepth < depth) := by
  obtain ⟨-, hnodes⟩ := h
  omega

theorem cloneNode_complete (hvalid : limits.Valid) {v : JsValue N} {j : Json N}
    (h : Represents w v j) {fuel depth : Nat} {seen : List Nat} (hfuel : j.depth < fuel)
    (habove : Above w seen j) (hdepth : depth + j.depth ≤ limits.maxDepth) :
    Clones limits (cloneNode w limits fuel seen depth) v j := by
  induction h generalizing fuel depth seen with
  | null | bool | num | str =>
    obtain ⟨fuel, rfl⟩ : ∃ n, fuel = n + 1 := ⟨fuel - 1, by omega⟩
    intro state hroom
    rw [cloneNode.eq_def]
    dsimp only
    rw [if_neg (hroom.fits (Json.depth_lt_nodes _).pos hdepth)]
    exact addBytes_leaf hvalid rfl (by first | rfl | exact octetLength_bool _) hroom
  | @arr r o items value ho hplain hlength hkeys hdata hitems ih =>
    have hr : Represents w (.object r) (.arr items) :=
      .arr value ho hplain hlength hkeys hdata hitems
    obtain ⟨fuel, rfl⟩ : ∃ n, fuel = n + 1 := ⟨fuel - 1, by omega⟩
    intro state hroom
    have hnew : ¬(o.proxy = true ∨ r ∈ seen) := by
      rw [JsWorld.proxy_of_plain hplain]
      rintro (hproxy | hmem)
      · exact absurd hproxy nofun
      · exact habove.not_mem hr hmem
    rw [cloneNode.eq_def]
    dsimp only
    rw [if_neg (hroom.fits (Json.depth_lt_nodes _).pos hdepth), ho]
    dsimp only
    rw [if_neg hnew, hlength, hplain]
    dsimp only
    rw [Bool.not_true, if_neg Bool.false_ne_true]
    obtain ⟨hbytes, hnodes⟩ := hroom
    rw [Json.nodes] at hnodes
    rw [Json.octetLength_arr] at hbytes
    have hcount := Json.length_le_nodesItems items
    have hmany := enumerable_length_le hkeys
    have hopened : addBytes limits { state with nodes := state.nodes + 1 } 2 =
        some (state.plus 2 1) :=
      addBytes_of_le hvalid (by dsimp only; omega)
    have hkeysFit : arrayKeys limits items.length o.enumerable 0 = true :=
      arrayKeys_complete hkeys (by omega)
    have hcloned : cloneItems limits o (cloneNode w limits fuel (r :: seen) (depth + 1))
        items.length 0 (state.plus 2 1) = some (items, (state.plus 2 1).plus
          (Json.separatedLength (0 == 0) (items.map fun item => octetLength item.render))
          (Json.nodesItems items)) := by
      apply cloneItems_complete hvalid
      · intro i hi
        rw [Nat.zero_add]
        exact hdata i hi
      · intro i item hi
        have hmem := List.mem_of_getElem? hi
        have hless := Json.nodes_le_nodesItems hmem
        have hdeep : item.depth + 1 ≤ Json.depthItems items :=
          Json.depthItems_le.mp (Nat.le_refl _) item hmem
        rw [Json.depth] at hfuel hdepth
        apply ih i item hi
        · omega
        · exact habove.cons hr (by rw [Json.nodes]; omega)
        · omega
      · exact ⟨by rw [CloneState.plus_bytes]; dsimp; omega, by rw [CloneState.plus_nodes]; omega⟩
    rw [hopened, Option.bind_some, hkeysFit, Bool.not_true, if_neg Bool.false_ne_true, hcloned,
      Option.map_some, CloneState.plus_plus, Json.octetLength_arr, Json.nodes, Nat.add_comm 2,
      Nat.add_comm 1]
    rfl
  | @obj r o fields value ho hplain hkeys hdata hfields ih =>
    have hr : Represents w (.object r) (.obj fields) := .obj value ho hplain hkeys hdata hfields
    obtain ⟨fuel, rfl⟩ : ∃ n, fuel = n + 1 := ⟨fuel - 1, by omega⟩
    intro state hroom
    have hnew : ¬(o.proxy = true ∨ r ∈ seen) := by
      rw [JsWorld.proxy_of_record hplain]
      rintro (hproxy | hmem)
      · exact absurd hproxy nofun
      · exact habove.not_mem hr hmem
    rw [cloneNode.eq_def]
    dsimp only
    rw [if_neg (hroom.fits (Json.depth_lt_nodes _).pos hdepth), ho]
    dsimp only
    rw [if_neg hnew, JsWorld.array_of_record hplain, hplain]
    dsimp only
    rw [Bool.not_true, if_neg Bool.false_ne_true]
    obtain ⟨hbytes, hnodes⟩ := hroom
    rw [Json.nodes] at hnodes
    rw [Json.octetLength_obj_parts] at hbytes
    have hcount := Json.length_le_nodesFields fields
    have hlengths : o.enumerable.length = fields.length := by
      have := congrArg List.length hkeys
      rwa [List.length_map, List.length_map] at this
    have hopened : addBytes limits { state with nodes := state.nodes + 1 } 2 =
        some (state.plus 2 1) :=
      addBytes_of_le hvalid (by dsimp only; omega)
    have hcloned : cloneFields limits o (cloneNode w limits fuel (r :: seen) (depth + 1))
        o.enumerable 0 (state.plus 2 1) = some (fields, (state.plus 2 1).plus
          (Json.separatedLength (0 == 0)
            (fields.map fun f => octetLength (quote f.1) + 1 + octetLength f.2.render))
          (Json.nodesFields fields)) := by
      apply cloneFields_complete hvalid hkeys
      · intro i p hp
        have hmem : p ∈ o.properties := List.mem_of_mem_filter (List.mem_of_getElem? hp)
        rw [JsObject.dataProperty, JsObject.property_of_mem hmem, hdata i p hp]
      · intro i f hf
        have hmem := List.mem_of_getElem? hf
        have hless := Json.nodes_le_nodesFields hmem
        have hdeep : f.2.depth + 1 ≤ Json.depthFields fields :=
          Json.depthFields_le.mp (Nat.le_refl _) f hmem
        rw [Json.depth] at hfuel hdepth
        apply ih i f hf
        · omega
        · exact habove.cons hr (by rw [Json.nodes]; omega)
        · omega
      · omega
      · exact ⟨by rw [CloneState.plus_bytes]; dsimp; omega, by rw [CloneState.plus_nodes]; omega⟩
    rw [hopened, Option.bind_some, hcloned, Option.map_some, CloneState.plus_plus,
      Json.octetLength_obj_parts, Json.nodes, Nat.add_comm 2, Nat.add_comm 1]
    rfl

end Complete

-- ============================================================================
-- The clone is exact
-- ============================================================================

section Exact

variable {N : Type} [JsonNumber N] {w : JsWorld N} {limits : BoundedJsonLimits} {v : JsValue N}

theorem cloneCounted_iff (hvalid : limits.Valid) {clone : Json N} {state : CloneState} :
    cloneCounted w limits v = some (clone, state) ↔
      Represents w v clone ∧ clone.nodes ≤ limits.maxNodes ∧ clone.depth ≤ limits.maxDepth ∧
        octetLength clone.render ≤ limits.maxBytes ∧
        state = ⟨octetLength clone.render, clone.nodes⟩ := by
  rw [cloneCounted]
  constructor
  · intro h
    obtain ⟨hrepresents, hnodes, hbytes, hdepth, hnodesLe, hbytesLe⟩ := cloneNode_sound h
    rw [Nat.zero_add] at hnodes hbytes hdepth
    rw [hnodes] at hnodesLe
    rw [hbytes] at hbytesLe
    exact ⟨hrepresents, hnodesLe, hdepth, hbytesLe, by rw [← hbytes, ← hnodes]⟩
  · rintro ⟨hrepresents, hnodes, hdepth, hbytes, rfl⟩
    have hless := clone.depth_lt_nodes
    have hclones := cloneNode_complete hvalid hrepresents
      (show clone.depth < limits.maxNodes + 1 by omega) (fun r hr => absurd hr List.not_mem_nil)
      (show 0 + clone.depth ≤ limits.maxDepth by omega)
    rw [hclones ⟨0, 0⟩ ⟨by dsimp only; omega, by dsimp only; omega⟩, CloneState.plus,
      Nat.zero_add, Nat.zero_add]

/-- Nothing that the functions and getters of a world do is seen by the clone. -/
theorem cloneNode_call (call : Nat → JsValue N → Option (JsValue N)) {fuel : Nat} :
    cloneNode { w with call := call } limits fuel = cloneNode w limits fuel := by
  induction fuel with
  | zero => rfl
  | succ fuel ih =>
    funext seen depth state input
    rw [cloneNode.eq_def, cloneNode.eq_def]
    simp only [ih]
    rfl

/-- The clone is accepted exactly when the input is acyclic plain data within the limits; the
    counters are then those of the encoding of the clone, which is that of the input when no
    object of it has a method for its encoding; and no such method, nor any getter, is called. -/
theorem cloneBoundedJson_exact (hvalid : limits.Valid) :
    (∀ clone state, cloneCounted w limits v = some (clone, state) ↔
      Represents w v clone ∧ clone.nodes ≤ limits.maxNodes ∧ clone.depth ≤ limits.maxDepth ∧
        octetLength clone.render ≤ limits.maxBytes ∧
        state = ⟨octetLength clone.render, clone.nodes⟩) ∧
    cloneBoundedJson w limits v = (cloneCounted w limits v).map Prod.fst ∧
    (∀ clone, Represents w v clone → clone.Owned ∧
      ((∀ r, Reaches w v r → Hookless w r) → w.stringify v = some (some clone.render))) ∧
    ∀ call, cloneBoundedJson { w with call := call } limits v = cloneBoundedJson w limits v := by
  refine ⟨fun clone state => cloneCounted_iff hvalid, if_pos hvalid, ?_, ?_⟩
  · exact fun clone h => ⟨h.owned, stringify_represents h⟩
  · intro call
    rw [cloneBoundedJson, cloneBoundedJson, cloneCounted, cloneCounted, cloneNode_call]

end Exact

/-- The two prototypes, an object with one member, an object that hides a method for its
    encoding, which returns nothing, and an array that has the first object twice. -/
def smallWorld : JsWorld Int where
  heap := [⟨none, false, none, [], by decide, by decide⟩,
    ⟨some 0, false, some 0, [], by decide, by decide⟩,
    ⟨none, false, some 0, [⟨js "a", true, .data (.num 1)⟩], by decide, by decide⟩,
    ⟨none, false, some 0, [⟨js "toJSON", false, .data (.function 0)⟩], by decide, by decide⟩,
    ⟨some 2, false, some 1, [⟨js "0", true, .data (.object 2)⟩, ⟨js "1", true, .data (.object 2)⟩],
      by decide, by decide⟩]
  objectPrototype := 0
  arrayPrototype := 1
  call := fun _ _ => some .null

def oneMember : Json Int := .obj [(js "a", .num 1)]

theorem represents_oneMember : Represents smallWorld (.object 2) oneMember := by
  refine .obj (fun _ => .num 1) rfl rfl rfl ?_ ?_
  · intro i p hp
    obtain rfl := List.mem_singleton.mp (List.mem_of_getElem? hp)
    rfl
  · intro i f hf
    obtain rfl := List.mem_singleton.mp (List.mem_of_getElem? hf)
    exact .num 1

theorem represents_shared : Represents smallWorld (.object 4) (.arr [oneMember, oneMember]) := by
  refine .arr (fun _ => .object 2) rfl rfl rfl ?_ ?_ ?_
  · decide
  · decide
  · intro i item hitem
    have hsame : ∀ item ∈ [oneMember, oneMember], item = oneMember := by simp
    obtain rfl := hsame item (List.mem_of_getElem? hitem)
    exact represents_oneMember

theorem hookless_shared {r : Nat} (h : Reaches smallWorld (.object 4) r) :
    Hookless smallWorld r := by
  cases h with
  | self => exact ⟨.undefined, rfl, nofun⟩
  | step ho hp hdata hreaches =>
    obtain rfl := Option.some.inj ho
    have hinner : ∀ p ∈ [(⟨js "0", true, .data (.object 2)⟩ : OwnProperty Int),
        ⟨js "1", true, .data (.object 2)⟩], p.property = .data (.object 2) := by simp
    obtain rfl := Property.data.inj (hdata.symm.trans (hinner _ hp))
    cases hreaches with
    | self => exact ⟨.undefined, rfl, nofun⟩
    | step ho hp hdata hreaches =>
      obtain rfl := Option.some.inj ho
      obtain rfl := List.mem_singleton.mp hp
      obtain rfl := Property.data.inj hdata
      cases hreaches

/-- What is shared is cloned, counted and encoded each time. -/
theorem cloneBoundedJson_shared :
    cloneCounted smallWorld ⟨17, 5, 2⟩ (.object 4) =
        some (.arr [oneMember, oneMember], ⟨17, 5⟩) ∧
      cloneBoundedJson smallWorld ⟨17, 5, 2⟩ (.object 4) = some (.arr [oneMember, oneMember]) ∧
      smallWorld.stringify (.object 4) =
        some (some (Json.arr [oneMember, oneMember]).render) := by
  have hvalid : BoundedJsonLimits.Valid ⟨17, 5, 2⟩ := by decide
  obtain ⟨hcounted, hclone, hencoded, -⟩ := cloneBoundedJson_exact (w := smallWorld)
    (v := .object 4) hvalid
  have haccepted := (hcounted (.arr [oneMember, oneMember]) ⟨17, 5⟩).mpr
    ⟨represents_shared, by decide, by decide, by decide, by decide⟩
  refine ⟨haccepted, ?_, (hencoded _ represents_shared).2 fun r => hookless_shared⟩
  rw [hclone, haccepted]
  rfl

theorem cloneBoundedJson_hidden :
    cloneCounted smallWorld ⟨3, 1, 0⟩ (.object 3) = some (.obj [], ⟨2, 1⟩) ∧
      smallWorld.stringify (.object 3) = some (some (js "null")) ∧
      octetLength (js "null") = 4 := by
  refine ⟨?_, ?_, ?_⟩
  all_goals rfl

end PiRlm.Shell

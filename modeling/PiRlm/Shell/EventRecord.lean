/-
  PiRlm.Shell.EventRecord

  The field checks of `shell/journal-event.ts` on the members of a record.

  Every check reads a record through the set of its keys and the values under them,
  so it gives the same verdict on the canonical form of the record.
-/
import Mathlib
import PiRlm.Shell.Hash

namespace PiRlm.Shell

open PiRlm.Lib PiRlm.Lib.Json PiRlm.Core

/-- The members of a plain record. -/
abbrev RecordValue (N : Type) := List (JsString × Json N)

section Checks

variable {N : Type}

/-- `value[key]`, nothing when the record has no such member. -/
abbrev get (value : RecordValue N) (key : JsString) : Option (Json N) :=
  lookupField value key

def own (value : RecordValue N) (key : JsString) : Bool :=
  (get value key).isSome

def record : Option (Json N) → Option (RecordValue N)
  | some (.obj fields) => some fields
  | _ => none

def exact (value : RecordValue N) (required optional : List JsString) : Bool :=
  required.all (own value) && (value.map Prod.fst).all fun key => key ∈ required ++ optional

/-- `value[key] as string`, after a check that it is one. -/
def stringAt (value : RecordValue N) (key : JsString) : JsString :=
  match get value key with
  | some (.str s) => s
  | _ => []

def string (value : RecordValue N) (key : JsString) (empty : Bool) : Bool :=
  match get value key with
  | some (.str s) => empty || decide (0 < s.length)
  | _ => false

def boolean (value : RecordValue N) (key : JsString) : Bool :=
  match get value key with
  | some (.bool _) => true
  | _ => false

def hash (value : RecordValue N) (key : JsString) : Bool :=
  string value key false && isHash (stringAt value key)

def contextRef (value : RecordValue N) (key : JsString) : Bool :=
  string value key false && isPrefixedHash (js "ctx_") (stringAt value key)

def optional (value : RecordValue N) (key : JsString) (validate : Bool) : Bool :=
  !own value key || validate

def oneOf (value : RecordValue N) (key : JsString) (values : List JsString) : Bool :=
  string value key false && decide (stringAt value key ∈ values)

/-- `value[refKey] === "ctx_" + value[hashKey]`, on string members. -/
def refMatches (value : RecordValue N) (refKey hashKey : JsString) : Bool :=
  stringAt value refKey == js "ctx_" ++ stringAt value hashKey

variable [JsonNumber N]

/-- `Number.isSafeInteger`. -/
def isSafeInteger (n : N) : Bool :=
  decide ((JsonNumber.value n).den = 1 ∧ |(JsonNumber.value n).num| ≤ maxSafeInteger)

def integer (value : RecordValue N) (key : JsString) (positive : Bool) : Bool :=
  match get value key with
  | some (.num n) =>
    isSafeInteger n &&
      (if positive then decide (0 < JsonNumber.value n) else decide (0 ≤ JsonNumber.value n))
  | _ => false

/-- `value[key] === n` for a literal number. -/
def isNumber (value : RecordValue N) (key : JsString) (n : Nat) : Bool :=
  match get value key with
  | some (.num m) => decide (JsonNumber.value m = n)
  | _ => false

/-- `value[key] <= n` for a number member. -/
def atMost (value : RecordValue N) (key : JsString) (n : Nat) : Bool :=
  match get value key with
  | some (.num m) => decide (JsonNumber.value m ≤ n)
  | _ => false

/-- A member that is a non-negative number. -/
def nonnegative (value : RecordValue N) (key : JsString) : Bool :=
  match get value key with
  | some (.num m) => decide (0 ≤ JsonNumber.value m)
  | _ => false

end Checks

/-! ## Records and their canonical form -/

section Canonical

variable {N : Type}

/-- `value'` has the keys of `value` and the canonical form of each value under them. -/
structure CanonicalRecord (value value' : RecordValue N) : Prop where
  keys : (value'.map Prod.fst).Perm (value.map Prod.fst)
  get : ∀ key, get value' key = (get value key).map canonical

/-- The members of a canonical object are a canonical record of the object's. -/
theorem canonicalRecord_of_canonical {fields fields' : RecordValue N}
    (hnodup : (fields.map Prod.fst).Nodup) (h : canonical (.obj fields) = .obj fields') :
    CanonicalRecord fields fields' := by
  have hperm : (ownOrder Prod.fst (sortBy Prod.fst fields)).Perm fields :=
    (ownOrder_perm _).trans (sortBy_perm fields)
  rw [canonical_obj_of_nodup hnodup, Json.obj.injEq] at h
  subst h
  constructor
  · rw [map_fst_mapValues]
    exact hperm.map Prod.fst
  · intro key
    rw [get, lookupField_map, lookupField_perm hperm hnodup]

theorem canonical_isObj (v : Json N) :
    (∃ fields, v = .obj fields ∧ ∃ fields', canonical v = .obj fields') ∨
      (∀ fields, v ≠ .obj fields) ∧ ∀ fields, canonical v ≠ .obj fields := by
  cases v with
  | obj fields => exact .inl ⟨fields, rfl, _, rfl⟩
  | null | bool | num | str | arr => exact .inr ⟨nofun, nofun⟩

namespace CanonicalRecord

variable {value value' : RecordValue N} (h : CanonicalRecord value value')
include h

theorem own (key : JsString) : own value' key = own value key := by
  simp only [Shell.own, h.get, Option.isSome_map]

theorem exact (required optional : List JsString) :
    exact value' required optional = exact value required optional := by
  have hown : Shell.own value' = Shell.own value := funext h.own
  have hkeys : ∀ p : JsString → Bool, (value'.map Prod.fst).all p = (value.map Prod.fst).all p :=
    fun p => h.keys.all_eq
  rw [Shell.exact, Shell.exact, hown, hkeys]

/-- A check that looks at one member through its string, boolean or number. -/
theorem get_str (key : JsString) {α : Type} (f : JsString → α) (d : α) :
    (match Shell.get value' key with | some (.str s) => f s | _ => d) =
      match Shell.get value key with | some (.str s) => f s | _ => d := by
  rw [h.get]
  cases Shell.get value key with
  | none => rfl
  | some v => cases v <;> rfl

theorem get_num (key : JsString) {α : Type} (f : N → α) (d : α) :
    (match Shell.get value' key with | some (.num n) => f n | _ => d) =
      match Shell.get value key with | some (.num n) => f n | _ => d := by
  rw [h.get]
  cases Shell.get value key with
  | none => rfl
  | some v => cases v <;> rfl

theorem stringAt (key : JsString) : stringAt value' key = stringAt value key :=
  h.get_str key id []

theorem string (key : JsString) (empty : Bool) : string value' key empty = string value key empty :=
  h.get_str key (fun s => empty || decide (0 < s.length)) false

theorem boolean (key : JsString) : boolean value' key = boolean value key := by
  rw [Shell.boolean, Shell.boolean, h.get]
  cases Shell.get value key with
  | none => rfl
  | some v => cases v <;> rfl

theorem hash (key : JsString) : hash value' key = hash value key := by
  rw [Shell.hash, Shell.hash, h.string, h.stringAt]

theorem contextRef (key : JsString) : contextRef value' key = contextRef value key := by
  rw [Shell.contextRef, Shell.contextRef, h.string, h.stringAt]

theorem optional (key : JsString) (validate : Bool) :
    optional value' key validate = optional value key validate := by
  rw [Shell.optional, Shell.optional, h.own]

theorem oneOf (key : JsString) (values : List JsString) :
    oneOf value' key values = oneOf value key values := by
  rw [Shell.oneOf, Shell.oneOf, h.string, h.stringAt]

theorem refMatches (refKey hashKey : JsString) :
    refMatches value' refKey hashKey = refMatches value refKey hashKey := by
  rw [Shell.refMatches, Shell.refMatches, h.stringAt, h.stringAt]

variable [JsonNumber N]

theorem integer (key : JsString) (positive : Bool) :
    integer value' key positive = integer value key positive :=
  h.get_num key _ false

theorem isNumber (key : JsString) (n : Nat) : isNumber value' key n = isNumber value key n :=
  h.get_num key _ false

theorem atMost (key : JsString) (n : Nat) : atMost value' key n = atMost value key n :=
  h.get_num key _ false

theorem nonnegative (key : JsString) : nonnegative value' key = nonnegative value key :=
  h.get_num key _ false

end CanonicalRecord

end Canonical

end PiRlm.Shell

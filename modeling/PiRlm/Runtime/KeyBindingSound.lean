/-
  PiRlm.Runtime.KeyBindingSound

  What the registry, the pending appends and the journal have to do with each other in
  every run of `bindKeys`, and from it: returned calls are bound durably, the journal
  agrees with itself, nothing stays pending, and rejected claims change nothing.
-/
import Mathlib
import PiRlm.Runtime.KeyBinding

namespace PiRlm.Runtime

open PiRlm.Lib PiRlm.Lib.Json PiRlm.Core

variable {runId : JsString} {N : Type}

-- ============================================================================
-- Registry keys of the runtime and of recovery
-- ============================================================================

/-- Recovery reads the lineage of a frame back from its name. -/
theorem recurseLineage?_childFrameId {callId : JsString} {execution : Nat}
    (hcall : isRecurseCallId callId = true) (hexecution : 1 ≤ execution) :
    recurseLineage? runId (childFrameId runId callId execution) = some callId := by
  have hlength : callId.length = 77 := length_of_isPrefixedHash hcall
  have hstart : (runId ++ js ":frame:").isPrefixOf (childFrameId runId callId execution) = true :=
    List.isPrefixOf_iff_prefix.mpr
      ⟨callId ++ (js ":e" ++ decimal execution), by simp only [childFrameId, List.append_assoc]⟩
  have hrest : (childFrameId runId callId execution).drop (runId ++ js ":frame:").length =
      callId ++ (js ":e" ++ decimal execution) := by
    rw [childFrameId, ← List.append_assoc, List.drop_left]
  have htake : (callId ++ (js ":e" ++ decimal execution)).take 77 = callId := by
    rw [← hlength, List.take_left]
  have hdrop : (callId ++ (js ":e" ++ decimal execution)).drop 77 =
      js ":e" ++ decimal execution := by
    rw [← hlength, List.drop_left]
  have hsuffix : (js ":e").isPrefixOf (js ":e" ++ decimal execution) = true :=
    List.isPrefixOf_iff_prefix.mpr (List.prefix_append _ _)
  have hordinal : (js ":e" ++ decimal execution).drop 2 = decimal execution := rfl
  simp only [recurseLineage?, if_pos hstart, hrest, htake, hdrop, hcall, hsuffix, hordinal,
    isOrdinal_decimal hexecution, Bool.and_true, if_true]

theorem childFrameId_ne_root (callId : JsString) (execution : Nat) :
    childFrameId runId callId execution ≠ rootFrameId runId := by
  intro h
  have htail := List.append_cancel_left h
  -- the names differ in the third unit after the run's
  have hthird : (some 0x72 : Option CodeUnit) = some 0x30 := congrArg (fun s => s[2]?) htail
  exact absurd hthird (by decide)

theorem recoveryKeyRegistryId_event (claim : RequestedClaim runId N) :
    recoveryKeyRegistryId runId claim.event = .ok claim.registryId := by
  unfold recoveryKeyRegistryId RequestedClaim.registryId keyRegistryId
  by_cases hkind : claim.kind = .recurse
  · rcases claim.frame.opened with ⟨hroot, hlineage⟩ | ⟨callId, n, hcall, hn, hlineage, hchild⟩
    · have : claim.frame.lineage.getD claim.frame.frameId = claim.frame.frameId := by
        rcases hlineage with h | h <;> rw [h] <;> rfl
      rw [if_neg (show ¬claim.event.kind ≠ .recurse from not_not_intro hkind),
        if_pos (show claim.event.frameId = _ from hroot), if_pos hkind, this]
      rfl
    · have hne : claim.event.frameId ≠ rootFrameId runId := by
        show claim.frame.frameId ≠ _
        rw [hchild]
        exact childFrameId_ne_root callId n
      have hread : recurseLineage? runId claim.event.frameId = some callId := by
        show recurseLineage? runId claim.frame.frameId = _
        rw [hchild]
        exact recurseLineage?_childFrameId hcall hn
      rw [if_neg (show ¬claim.event.kind ≠ .recurse from not_not_intro hkind), if_neg hne,
        if_pos hkind, hread, hlineage]
      rfl
  · rw [if_pos (show claim.event.kind ≠ .recurse from hkind), if_neg hkind]
    rfl

-- ============================================================================
-- The invariant
-- ============================================================================

/-- The bindings whose appends a call still has to see settled. -/
def BindPhase.installed : BindPhase runId N → List (Installed runId N)
  | .appending current remaining _ => current :: remaining
  | _ => []

/-- The call has installed its claims, or had none to install. -/
def BindPhase.IsActive : BindPhase runId N → Prop
  | .appending _ _ _ => True
  | .returned => True
  | _ => False

/-- The call waits for others, or has found a changed identity. -/
def BindPhase.IsUntouched : BindPhase runId N → Prop
  | .waiting _ => True
  | .threw (.keyIdentityChanged _ _) => True
  | _ => False

namespace KeyRegistry

def Owns (st : KeyRegistry runId N) (c : Nat) (inst : Installed runId N) : Prop :=
  ∃ call, st.calls[c]? = some call ∧ inst ∈ call.phase.installed

def Holds (st : KeyRegistry runId N) (id : JsString) (ref : Nat) (bound : KeyIdentityBinding) :
    Prop :=
  st.keyIdentities id = some ref ∧ st.bindings[ref]? = some bound

def Journaled (st : KeyRegistry runId N) (id hash : JsString) : Prop :=
  ∃ event ∈ keyBounds st.journal,
    recoveryKeyRegistryId runId event = .ok id ∧ event.identityHash = hash

/-- The event of a binding is in the journal, and its call does not know yet. -/
def Written (st : KeyRegistry runId N) (ref : Nat) : Prop :=
  ∃ (c : Nat) (call : BindCall runId N) (current : Installed runId N)
    (remaining : List (Installed runId N)), st.calls[c]? = some call ∧
      call.phase = .appending current remaining .written ∧ current.binding = ref

def DurableIn (st : KeyRegistry runId N) (id hash : JsString) : Prop :=
  ∃ ref bound, st.Holds id ref bound ∧ bound.state = .durable ∧ bound.identityHash = hash

/-- The binding of a claim that has just been installed. -/
def fresh (claim : RequestedClaim runId N) : KeyIdentityBinding :=
  ⟨some claim.canonicalIdentity, claim.identityHash, .pending, .pending⟩

structure RegistryInv [JsonNumber N] (hasher : Hasher) (st : KeyRegistry runId N) : Prop where
  total : ∀ id ref, st.keyIdentities id = some ref → ref < st.bindings.length
  injective : ∀ id id' ref, st.keyIdentities id = some ref → st.keyIdentities id' = some ref →
    id = id'
  owned : ∀ c inst, st.Owns c inst → st.Holds inst.claim.registryId inst.binding (fresh inst.claim)
  owner : ∀ c c' inst inst', st.Owns c inst → st.Owns c' inst' → inst.binding = inst'.binding →
    c = c'
  distinct : ∀ (c : Nat) (call : BindCall runId N), st.calls[c]? = some call →
    (call.phase.installed.map Installed.binding).Nodup
  pending : ∀ id ref bound, st.Holds id ref bound → bound.state = .pending →
    ∃ c inst, st.Owns c inst ∧ inst.binding = ref
  ready : ∀ ref bound, st.bindings[ref]? = some bound → bound.ready = .pending →
    ∃ c inst, st.Owns c inst ∧ inst.binding = ref
  journaled : ∀ id hash, st.Journaled id hash →
    ∃ ref bound, st.Holds id ref bound ∧ bound.identityHash = hash ∧
      (bound.state = .pending → st.Written ref)
  settled : ∀ id ref bound, st.Holds id ref bound → bound.state ≠ .pending →
    st.Journaled id bound.identityHash
  written : ∀ (c : Nat) (call : BindCall runId N) (current : Installed runId N)
    (remaining : List (Installed runId N)), st.calls[c]? = some call → call.phase = .appending current remaining .written →
    st.Journaled current.claim.registryId current.claim.identityHash
  handled : ∀ (c : Nat) (call : BindCall runId N) (current : Installed runId N)
    (remaining : List (Installed runId N)), st.calls[c]? = some call → call.phase ≠ .appending current remaining .ignored
  covered : ∀ (c : Nat) (call : BindCall runId N), st.calls[c]? = some call → call.phase.IsActive →
    ∀ claim ∈ call.requested, (∃ inst ∈ call.phase.installed, inst.claim = claim) ∨
      st.DurableIn claim.registryId claim.identityHash
  requested : ∀ (c : Nat) (call : BindCall runId N), st.calls[c]? = some call → (∀ error, call.phase ≠ .threw error) →
    requestClaims hasher [] call.claims = .ok call.requested

-- ============================================================================
-- Small readings of the updates
-- ============================================================================

section

variable {st : KeyRegistry runId N}

theorem keyIdentities_discard (error : BindError) {inst : Installed runId N}
    (h : st.keyIdentities inst.claim.registryId = some inst.binding) :
    (st.discard error inst).keyIdentities =
      Function.update st.keyIdentities inst.claim.registryId none :=
  if_pos h

theorem getElem?_bindings_discard (error : BindError) (inst : Installed runId N) (ref : Nat) :
    (st.discard error inst).bindings[ref]? =
      if inst.binding = ref then
        (st.bindings[ref]?).map fun bound => { bound with ready := .rejected error }
      else st.bindings[ref]? := by
  rw [discard, List.getElem?_modify]
  split <;> simp only [Option.map_id', Option.map_eq_map]

theorem getElem?_bindings_setBinding (r ref : Nat) (ready : Ready) (state : BindingState) :
    (st.setBinding r ready state).bindings[ref]? =
      if r = ref then (st.bindings[ref]?).map fun bound => { bound with ready, state }
      else st.bindings[ref]? := by
  rw [setBinding, List.getElem?_modify]
  split <;> simp only [Option.map_id', Option.map_eq_map]

/-- Discarding bindings that are in the registry under their claims takes exactly them out. -/
theorem discardAll_spec (error : BindError) {installed : List (Installed runId N)}
    (hheld : ∀ inst ∈ installed, st.keyIdentities inst.claim.registryId = some inst.binding)
    (hnodup : (installed.map Installed.binding).Nodup) :
    let st' := installed.foldl (fun st inst => st.discard error inst) st
    st'.calls = st.calls ∧ st'.journal = st.journal ∧
    st'.bindings.length = st.bindings.length ∧
    (∀ inst ∈ installed, st'.keyIdentities inst.claim.registryId = none) ∧
    (∀ id, (∀ inst ∈ installed, inst.claim.registryId ≠ id) →
      st'.keyIdentities id = st.keyIdentities id) ∧
    (∀ inst ∈ installed, st'.bindings[inst.binding]? =
      (st.bindings[inst.binding]?).map fun bound => { bound with ready := .rejected error }) ∧
    ∀ ref, (∀ inst ∈ installed, inst.binding ≠ ref) → st'.bindings[ref]? = st.bindings[ref]? := by
  induction installed generalizing st with
  | nil =>
    exact ⟨rfl, rfl, rfl, fun _ h => absurd h List.not_mem_nil, fun _ _ => rfl,
      fun _ h => absurd h List.not_mem_nil, fun _ _ => rfl⟩
  | cons first rest ih =>
    rw [List.map_cons, List.nodup_cons] at hnodup
    rw [List.forall_mem_cons] at hheld
    have hkeys := keyIdentities_discard error hheld.1
    -- the others stay in the registry: another binding means another key
    have hother : ∀ inst ∈ rest, inst.claim.registryId ≠ first.claim.registryId := by
      intro inst hinst heq
      have hsame : inst.binding = first.binding := by
        have := hheld.2 inst hinst
        rw [heq, hheld.1] at this
        exact (Option.some.inj this).symm
      exact hnodup.1 (hsame ▸ List.mem_map_of_mem hinst)
    have hbinding : ∀ inst ∈ rest, first.binding ≠ inst.binding := fun inst hinst heq =>
      hnodup.1 (heq ▸ List.mem_map_of_mem hinst)
    obtain ⟨hcalls, hjournal, hlength, hgone, hkept, hrejected, hframe⟩ :=
      @ih (st.discard error first)
        (fun inst hinst => by
          rw [hkeys, Function.update_of_ne (hother inst hinst)]
          exact hheld.2 inst hinst) hnodup.2
    refine ⟨hcalls, hjournal, hlength.trans (List.length_modify ..), ?_, ?_, ?_, ?_⟩
    · rw [List.forall_mem_cons]
      refine ⟨?_, hgone⟩
      show (rest.foldl _ (st.discard error first)).keyIdentities _ = none
      rw [hkept _ hother, hkeys, Function.update_self]
    · intro id hid
      rw [List.forall_mem_cons] at hid
      show (rest.foldl _ (st.discard error first)).keyIdentities _ = _
      rw [hkept id hid.2, hkeys, Function.update_of_ne (Ne.symm hid.1)]
    · rw [List.forall_mem_cons]
      constructor
      · show (rest.foldl _ (st.discard error first)).bindings[_]? = _
        rw [hframe _ fun inst hinst => (hbinding inst hinst).symm, getElem?_bindings_discard,
          if_pos rfl]
      · intro inst hinst
        show (rest.foldl _ (st.discard error first)).bindings[_]? = _
        rw [hrejected inst hinst, getElem?_bindings_discard, if_neg (hbinding inst hinst)]
    · intro ref href
      rw [List.forall_mem_cons] at href
      show (rest.foldl _ (st.discard error first)).bindings[_]? = _
      rw [hframe ref href.2, getElem?_bindings_discard, if_neg href.1]

end

-- ============================================================================
-- What a step of one call changes
-- ============================================================================

/-- What has become of a binding that a call owned before a step. -/
inductive Fate (st st' : KeyRegistry runId N) (call : BindCall runId N)
    (inst : Installed runId N) : Prop where
  | still (mem : inst ∈ call.phase.installed)
      (key : st'.keyIdentities inst.claim.registryId = st.keyIdentities inst.claim.registryId)
      (binding : st'.bindings[inst.binding]? = st.bindings[inst.binding]?)
      (notWritten : ¬st.Written inst.binding)
  | kept (bound : KeyIdentityBinding)
      (released : ∀ other ∈ call.phase.installed, other.binding ≠ inst.binding)
      (key : st'.keyIdentities inst.claim.registryId = st.keyIdentities inst.claim.registryId)
      (binding : st'.bindings[inst.binding]? = some bound)
      (hash : bound.identityHash = inst.claim.identityHash)
      (state : bound.state ≠ .pending) (ready : bound.ready ≠ .pending)
      (journaled : st.Journaled inst.claim.registryId inst.claim.identityHash)
  | gone (released : ∀ other ∈ call.phase.installed, other.binding ≠ inst.binding)
      (key : st'.keyIdentities inst.claim.registryId = none)
      (ready : ∀ bound, st'.bindings[inst.binding]? = some bound → bound.ready ≠ .pending)
      (notWritten : ¬st.Written inst.binding)

/-- A step that ends with `call` in place `c`: what it owned is settled or still there, what
it owns more is new, and nothing else in the registry changes. -/
structure Changes [JsonNumber N] (hasher : Hasher) (st st' : KeyRegistry runId N) (c : Nat)
    (call : BindCall runId N) : Prop where
  here : st'.calls[c]? = some call
  others : ∀ c', c' ≠ c → st'.calls[c']? = st.calls[c']?
  journal : st'.journal = st.journal
  old : ∀ inst, st.Owns c inst → Fate st st' call inst
  new : ∀ inst ∈ call.phase.installed, ¬st.Owns c inst →
    st.keyIdentities inst.claim.registryId = none ∧ st.bindings.length ≤ inst.binding ∧
      st'.Holds inst.claim.registryId inst.binding (fresh inst.claim)
  keys : ∀ id, (∀ inst, st.Owns c inst → inst.claim.registryId ≠ id) →
    (∀ inst ∈ call.phase.installed, inst.claim.registryId ≠ id) →
    st'.keyIdentities id = st.keyIdentities id
  bindings : ∀ ref, (∀ inst, st.Owns c inst → inst.binding ≠ ref) →
    (∀ inst ∈ call.phase.installed, inst.binding ≠ ref) →
    st'.bindings[ref]? = st.bindings[ref]?
  length : st.bindings.length ≤ st'.bindings.length
  distinct : (call.phase.installed.map Installed.binding).Nodup
  progress : ∀ current remaining progress,
    call.phase = .appending current remaining progress → progress = .queued
  covered : call.phase.IsActive → ∀ claim ∈ call.requested,
    (∃ inst ∈ call.phase.installed, inst.claim = claim) ∨
      st'.DurableIn claim.registryId claim.identityHash
  requested : (∀ error, call.phase ≠ .threw error) →
    requestClaims hasher [] call.claims = .ok call.requested

section

variable [JsonNumber N] {hasher : Hasher} {st st' : KeyRegistry runId N} {c : Nat}
  {call : BindCall runId N}

theorem lt_length_of_getElem? {α : Type} {xs : List α} {i : Nat} {x : α}
    (h : xs[i]? = some x) : i < xs.length := by
  obtain ⟨hlt, -⟩ := List.getElem?_eq_some_iff.mp h
  exact hlt

theorem Changes.owns (h : Changes hasher st st' c call) {c' : Nat} {inst : Installed runId N}
    (howns : st'.Owns c' inst) :
    (c' = c ∧ inst ∈ call.phase.installed) ∨ (c' ≠ c ∧ st.Owns c' inst) := by
  obtain ⟨call', hcall, hmem⟩ := howns
  by_cases hc : c' = c
  · subst hc
    obtain rfl := Option.some.inj (hcall.symm.trans h.here)
    exact .inl ⟨rfl, hmem⟩
  · rw [h.others c' hc] at hcall
    exact .inr ⟨hc, call', hcall, hmem⟩

theorem Changes.owns_here (h : Changes hasher st st' c call) {inst : Installed runId N}
    (hmem : inst ∈ call.phase.installed) : st'.Owns c inst :=
  ⟨call, h.here, hmem⟩

theorem Changes.owns_other (h : Changes hasher st st' c call) {c' : Nat} (hc : c' ≠ c)
    {inst : Installed runId N} (howns : st.Owns c' inst) : st'.Owns c' inst := by
  obtain ⟨call', hcall, hmem⟩ := howns
  exact ⟨call', (h.others c' hc).trans hcall, hmem⟩

/-- A key of the registry after the step was there before, or has just been installed. -/
theorem Changes.key_cases (h : Changes hasher st st' c call) {id : JsString} {ref : Nat}
    (hkey : st'.keyIdentities id = some ref) :
    st.keyIdentities id = some ref ∨
      ∃ inst ∈ call.phase.installed, ¬st.Owns c inst ∧ inst.claim.registryId = id ∧
        inst.binding = ref := by
  by_cases hnew : ∃ inst ∈ call.phase.installed, ¬st.Owns c inst ∧ inst.claim.registryId = id
  · obtain ⟨inst, hmem, hnot, rfl⟩ := hnew
    have hheld := (h.new inst hmem hnot).2.2.1
    exact .inr ⟨inst, hmem, hnot, rfl, Option.some.inj (hheld.symm.trans hkey)⟩
  · left
    by_cases hold : ∃ inst, st.Owns c inst ∧ inst.claim.registryId = id
    · obtain ⟨inst, howns, rfl⟩ := hold
      cases h.old inst howns with
      | still _ key _ _ => exact key ▸ hkey
      | kept _ _ key _ _ _ _ _ => exact key ▸ hkey
      | gone _ key _ _ => exact absurd (key.symm.trans hkey) nofun
    · rw [← hkey]
      refine (h.keys id (fun inst howns heq => hold ⟨inst, howns, heq⟩) fun inst hmem heq => ?_).symm
      by_cases howns : st.Owns c inst
      · exact hold ⟨inst, howns, heq⟩
      · exact hnew ⟨inst, hmem, howns, heq⟩

/-- A binding that the call does not own keeps its place and its record. -/
theorem Changes.unowned (h : Changes hasher st st' c call) (hinv : RegistryInv hasher st)
    {id : JsString} {ref : Nat} {bound : KeyIdentityBinding} (hheld : st.Holds id ref bound)
    (hun : ∀ inst, st.Owns c inst → inst.binding ≠ ref) : st'.Holds id ref bound := by
  constructor
  · rw [h.keys id]
    · exact hheld.1
    · intro inst howns heq
      have := (hinv.owned c inst howns).1
      rw [heq, hheld.1] at this
      exact hun inst howns (Option.some.inj this).symm
    · intro inst hmem heq
      by_cases howns : st.Owns c inst
      · have := (hinv.owned c inst howns).1
        rw [heq, hheld.1] at this
        exact hun inst howns (Option.some.inj this).symm
      · have := (h.new inst hmem howns).1
        rw [heq, hheld.1] at this
        exact absurd this nofun
  · rw [h.bindings ref hun]
    · exact hheld.2
    · intro inst hmem heq
      by_cases howns : st.Owns c inst
      · exact hun inst howns heq
      · have := (h.new inst hmem howns).2.1
        have := lt_length_of_getElem? hheld.2
        omega

/-- A durable binding is durable after the step. -/
theorem Changes.durableIn (h : Changes hasher st st' c call) (hinv : RegistryInv hasher st)
    {id hash : JsString} (hdurable : st.DurableIn id hash) : st'.DurableIn id hash := by
  obtain ⟨ref, bound, hheld, hstate, hhash⟩ := hdurable
  refine ⟨ref, bound, h.unowned hinv hheld fun inst howns heq => ?_, hstate, hhash⟩
  -- what a call owns is pending
  have := (hinv.owned c inst howns).2
  rw [heq, hheld.2] at this
  rw [Option.some.inj this] at hstate
  exact absurd hstate nofun

theorem Changes.injective (h : Changes hasher st st' c call) (hinv : RegistryInv hasher st)
    {id id' : JsString} {ref : Nat} (hid : st'.keyIdentities id = some ref)
    (hid' : st'.keyIdentities id' = some ref) : id = id' := by
  rcases h.key_cases hid with hold | ⟨inst, hmem, hnot, rfl, rfl⟩
  · rcases h.key_cases hid' with hold' | ⟨inst', hmem', hnot', rfl, rfl⟩
    · exact hinv.injective id id' ref hold hold'
    · have := hinv.total id _ hold
      have := (h.new inst' hmem' hnot').2.1
      omega
  · rcases h.key_cases hid' with hold' | ⟨inst', hmem', -, rfl, heq⟩
    · have := hinv.total id' _ hold'
      have := (h.new inst hmem hnot).2.1
      omega
    · rw [List.inj_on_of_nodup_map h.distinct hmem hmem' heq.symm]

theorem Changes.owned (h : Changes hasher st st' c call) (hinv : RegistryInv hasher st)
    {c' : Nat} {inst : Installed runId N} (howns : st'.Owns c' inst) :
    st'.Holds inst.claim.registryId inst.binding (fresh inst.claim) := by
  rcases h.owns howns with ⟨rfl, hmem⟩ | ⟨hc, hother⟩
  · by_cases hbefore : st.Owns c' inst
    · have hheld := hinv.owned c' inst hbefore
      cases h.old inst hbefore with
      | still _ key binding _ => exact ⟨key.trans hheld.1, binding.trans hheld.2⟩
      | kept _ released _ _ _ _ _ _ => exact absurd rfl (released inst hmem)
      | gone released _ _ _ => exact absurd rfl (released inst hmem)
    · exact (h.new inst hmem hbefore).2.2
  · exact h.unowned hinv (hinv.owned c' inst hother) fun inst' howns' heq =>
      hc (hinv.owner c' c inst inst' hother howns' heq.symm)

theorem Changes.owner (h : Changes hasher st st' c call) (hinv : RegistryInv hasher st)
    {c₁ c₂ : Nat} {i₁ i₂ : Installed runId N} (h₁ : st'.Owns c₁ i₁) (h₂ : st'.Owns c₂ i₂)
    (heq : i₁.binding = i₂.binding) : c₁ = c₂ := by
  -- a binding of the call of the step is its own or too new to be another's
  have hmixed : ∀ {i i' : Installed runId N} {c' : Nat}, i ∈ call.phase.installed → c' ≠ c →
      st.Owns c' i' → i.binding = i'.binding → False := by
    intro i i' c' hmem hc howns heq
    by_cases hbefore : st.Owns c i
    · exact hc (hinv.owner c c' i i' hbefore howns heq).symm
    · have := (h.new i hmem hbefore).2.1
      have := lt_length_of_getElem? (hinv.owned c' i' howns).2
      omega
  rcases h.owns h₁ with ⟨rfl, hmem₁⟩ | ⟨hc₁, hold₁⟩
  · rcases h.owns h₂ with ⟨rfl, -⟩ | ⟨hc₂, hold₂⟩
    · rfl
    · exact (hmixed hmem₁ hc₂ hold₂ heq).elim
  · rcases h.owns h₂ with ⟨rfl, hmem₂⟩ | ⟨-, hold₂⟩
    · exact (hmixed hmem₂ hc₁ hold₁ heq.symm).elim
    · exact hinv.owner c₁ c₂ i₁ i₂ hold₁ hold₂ heq

/-- A promise that is not settled after the step belongs to an owned binding. -/
theorem Changes.ready (h : Changes hasher st st' c call) (hinv : RegistryInv hasher st)
    {ref : Nat} {bound : KeyIdentityBinding} (hbound : st'.bindings[ref]? = some bound)
    (hready : bound.ready = .pending) : ∃ c inst, st'.Owns c inst ∧ inst.binding = ref := by
  by_cases hnew : ∃ inst ∈ call.phase.installed, inst.binding = ref
  · obtain ⟨inst, hmem, rfl⟩ := hnew
    exact ⟨c, inst, h.owns_here hmem, rfl⟩
  by_cases hold : ∃ inst, st.Owns c inst ∧ inst.binding = ref
  · obtain ⟨inst, howns, rfl⟩ := hold
    cases h.old inst howns with
    | still mem _ _ _ => exact ⟨c, inst, h.owns_here mem, rfl⟩
    | kept bound' _ _ binding _ _ ready _ =>
      exact absurd (Option.some.inj (hbound.symm.trans binding) ▸ hready) ready
    | gone _ _ ready _ => exact absurd hready (ready bound hbound)
  · rw [h.bindings ref (fun inst howns heq => hold ⟨inst, howns, heq⟩)
      fun inst hmem heq => hnew ⟨inst, hmem, heq⟩] at hbound
    obtain ⟨c', inst, howns, heq⟩ := hinv.ready ref bound hbound hready
    refine ⟨c', inst, h.owns_other ?_ howns, heq⟩
    rintro rfl
    exact hold ⟨inst, howns, heq⟩

/-- What the registry holds after the step: a fresh binding, a binding just settled, or what
was there before and is nobody's of the call. -/
theorem Changes.holds_cases (h : Changes hasher st st' c call) (hinv : RegistryInv hasher st)
    {id : JsString} {ref : Nat} {bound : KeyIdentityBinding} (hheld : st'.Holds id ref bound) :
    (bound.state = .pending ∧ ∃ inst, st'.Owns c inst ∧ inst.binding = ref) ∨
      (bound.state ≠ .pending ∧ st.Journaled id bound.identityHash) ∨
      (st.Holds id ref bound ∧ ∀ inst, st.Owns c inst → inst.binding ≠ ref) := by
  rcases h.key_cases hheld.1 with hkey | ⟨inst, hmem, -, rfl, rfl⟩
  · by_cases hold : ∃ inst, st.Owns c inst ∧ inst.binding = ref
    · obtain ⟨inst, howns, rfl⟩ := hold
      obtain rfl : id = inst.claim.registryId :=
        hinv.injective _ _ _ hkey (hinv.owned c inst howns).1
      cases h.old inst howns with
      | still mem _ _ _ =>
        have howns' := h.owns_here mem
        have := (h.owned hinv howns').2
        rw [hheld.2] at this
        exact .inl ⟨Option.some.inj this ▸ rfl, inst, howns', rfl⟩
      | kept bound' _ _ binding hash state _ journaled =>
        obtain rfl := Option.some.inj (hheld.2.symm.trans binding)
        exact .inr (.inl ⟨state, hash ▸ journaled⟩)
      | gone _ key _ _ => exact absurd (key.symm.trans hheld.1) nofun
    · have hun : ∀ inst, st.Owns c inst → inst.binding ≠ ref :=
        fun inst howns heq => hold ⟨inst, howns, heq⟩
      have hlt := hinv.total id ref hkey
      have hbefore := h.unowned hinv ⟨hkey, List.getElem?_eq_getElem hlt⟩ hun
      have := hbefore.2.symm.trans hheld.2
      rw [← Option.some.inj this]
      exact .inr (.inr ⟨⟨hkey, List.getElem?_eq_getElem hlt⟩, hun⟩)
  · have howns := h.owns_here hmem
    have := (h.owned hinv howns).2
    rw [hheld.2] at this
    exact .inl ⟨Option.some.inj this ▸ rfl, inst, howns, rfl⟩

theorem Changes.journaled (h : Changes hasher st st' c call) (hinv : RegistryInv hasher st)
    {id hash : JsString} (hjournaled : st.Journaled id hash) :
    ∃ ref bound, st'.Holds id ref bound ∧ bound.identityHash = hash ∧
      (bound.state = .pending → st'.Written ref) := by
  obtain ⟨ref, bound, hheld, rfl, hwritten⟩ := hinv.journaled id hash hjournaled
  by_cases hold : ∃ inst, st.Owns c inst ∧ inst.binding = ref
  · -- a pending binding of the call with its event in the journal is one it settles
    obtain ⟨inst, howns, rfl⟩ := hold
    have howned := hinv.owned c inst howns
    obtain rfl : id = inst.claim.registryId := hinv.injective _ _ _ hheld.1 howned.1
    obtain rfl := Option.some.inj (hheld.2.symm.trans howned.2)
    cases h.old inst howns with
    | still _ _ _ notWritten => exact absurd (hwritten rfl) notWritten
    | kept bound' _ key binding hhash state _ _ =>
      exact ⟨inst.binding, bound', ⟨key.trans howned.1, binding⟩, hhash,
        fun hpending => absurd hpending state⟩
    | gone _ _ _ notWritten => exact absurd (hwritten rfl) notWritten
  · have hun : ∀ inst, st.Owns c inst → inst.binding ≠ ref :=
      fun inst howns heq => hold ⟨inst, howns, heq⟩
    refine ⟨ref, bound, h.unowned hinv hheld hun, rfl, fun hpending => ?_⟩
    obtain ⟨c', call', current, remaining, hcall, hphase, hcurrent⟩ := hwritten hpending
    refine ⟨c', call', current, remaining, ?_, hphase, hcurrent⟩
    rw [h.others c' ?_]
    · exact hcall
    · rintro rfl
      refine hun current ⟨call', hcall, ?_⟩ hcurrent
      rw [hphase]
      exact List.mem_cons_self

theorem Changes.inv (h : Changes hasher st st' c call) (hinv : RegistryInv hasher st) :
    RegistryInv hasher st' where
  total id ref hkey := by
    rcases h.key_cases hkey with hold | ⟨inst, hmem, -, -, rfl⟩
    · exact (hinv.total id ref hold).trans_le h.length
    · exact lt_length_of_getElem? (h.owned hinv (h.owns_here hmem)).2
  injective _ _ _ hid hid' := h.injective hinv hid hid'
  owned _ _ howns := h.owned hinv howns
  owner _ _ _ _ h₁ h₂ heq := h.owner hinv h₁ h₂ heq
  distinct c' call' hcall := by
    by_cases hc : c' = c
    · subst hc
      rw [← Option.some.inj (h.here.symm.trans hcall)]
      exact h.distinct
    · exact hinv.distinct c' call' (h.others c' hc ▸ hcall)
  pending id ref bound hheld hstate := by
    rcases h.holds_cases hinv hheld with ⟨-, inst, howns, heq⟩ | ⟨hstate', -⟩ | ⟨hbefore, hun⟩
    · exact ⟨c, inst, howns, heq⟩
    · exact absurd hstate hstate'
    · obtain ⟨c', inst, howns, heq⟩ := hinv.pending id ref bound hbefore hstate
      refine ⟨c', inst, h.owns_other ?_ howns, heq⟩
      rintro rfl
      exact hun inst howns heq
  ready _ _ hbound hready := h.ready hinv hbound hready
  journaled id hash hjournaled := by
    unfold Journaled at hjournaled
    rw [h.journal] at hjournaled
    exact h.journaled hinv hjournaled
  settled id ref bound hheld hstate := by
    unfold Journaled
    rw [h.journal]
    rcases h.holds_cases hinv hheld with ⟨hpending, -⟩ | ⟨-, hjournaled⟩ | ⟨hbefore, -⟩
    · exact absurd hpending hstate
    · exact hjournaled
    · exact hinv.settled id ref bound hbefore hstate
  written c' call' current remaining hcall hphase := by
    unfold Journaled
    rw [h.journal]
    by_cases hc : c' = c
    · subst hc
      obtain rfl := Option.some.inj (hcall.symm.trans h.here)
      exact absurd (h.progress current remaining _ hphase) nofun
    · exact hinv.written c' call' current remaining (h.others c' hc ▸ hcall) hphase
  handled c' call' current remaining hcall hphase := by
    by_cases hc : c' = c
    · subst hc
      obtain rfl := Option.some.inj (hcall.symm.trans h.here)
      exact absurd (h.progress current remaining _ hphase) nofun
    · exact hinv.handled c' call' current remaining (h.others c' hc ▸ hcall) hphase
  covered c' call' hcall hactive claim hclaim := by
    by_cases hc : c' = c
    · subst hc
      obtain rfl := Option.some.inj (hcall.symm.trans h.here)
      exact h.covered hactive claim hclaim
    · exact (hinv.covered c' call' (h.others c' hc ▸ hcall) hactive claim hclaim).imp_right
        (h.durableIn hinv)
  requested c' call' hcall hphase := by
    by_cases hc : c' = c
    · subst hc
      obtain rfl := Option.some.inj (hcall.symm.trans h.here)
      exact h.requested hphase
    · exact hinv.requested c' call' (h.others c' hc ▸ hcall) hphase

end

end KeyRegistry

end PiRlm.Runtime

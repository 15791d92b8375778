/-
  PiRlm.Runtime.KeyBindingRuns

  Every run of `bindKeys` keeps the invariant of the registry, as long as no binding comes
  to the journal after its terminal event.  A call that returns has its claims bound
  durably, the journal agrees with itself, nothing stays pending, and a rejected call has
  changed nothing.
-/
import Mathlib
import PiRlm.Runtime.KeyBindingChanges
import PiRlm.Shell.Hash

namespace PiRlm.Runtime

open PiRlm.Lib PiRlm.Lib.Json PiRlm.Core

variable {runId : JsString} {N : Type} [JsonNumber N] {hasher : Hasher}

namespace KeyRegistry

variable {st st' : KeyRegistry runId N} {c : Nat} {call : BindCall runId N}

-- ============================================================================
-- Steps
-- ============================================================================

/-- A binding comes to the journal before its terminal event. -/
def BeforeTerminal (st : KeyRegistry runId N) : BindStep runId N → Prop
  | .handled _ => ∀ entry ∈ st.journal, entry.isTerminal = false
  | _ => True

omit [JsonNumber N] in
theorem owns_nothing (hcall : st.calls[c]? = some call) (h : call.phase.installed = []) :
    ∀ inst, ¬st.Owns c inst := by
  rintro inst ⟨call', hcall', hmem⟩
  rw [← Option.some.inj (hcall.symm.trans hcall'), h] at hmem
  exact List.not_mem_nil hmem

omit [JsonNumber N] in
theorem owns_nothing_new : ∀ inst, ¬st.Owns st.calls.length inst := by
  rintro inst ⟨call', hcall', -⟩
  exact absurd (lt_length_of_getElem? hcall') (lt_irrefl _)

omit [JsonNumber N] in
theorem getElem?_push_ne {c' : Nat} (hc : c' ≠ st.calls.length) :
    (st.calls ++ [call])[c']? = st.calls[c']? := by
  rcases lt_or_ge c' st.calls.length with hlt | hge
  · exact List.getElem?_append_left hlt
  · rw [List.getElem?_eq_none hge, List.getElem?_eq_none]
    rw [List.length_append, List.length_singleton]
    omega

omit [JsonNumber N] in
theorem calls_installAll (claims : List (RequestedClaim runId N)) :
    (st.installAll claims).1.calls = st.calls := by
  induction claims generalizing st with
  | nil => rfl
  | cons claim claims ih => exact ih

omit [JsonNumber N] in
theorem calls_turn (call : BindCall runId N) : (st.turn call).1.calls = st.calls := by
  unfold turn
  cases st.inspect call.requested with
  | error error => rfl
  | ok found =>
    obtain ⟨refs, additions⟩ := found
    cases refs with
    | cons ref refs => rfl
    | nil =>
      have := @calls_installAll _ _ st additions
      simp only
      split <;> rename_i heq <;> rw [heq] at this <;> exact this

omit [JsonNumber N] in
theorem calls_fail (current : Installed runId N) (remaining : List (Installed runId N))
    (error : BindError) (eventDurable : Bool) :
    (st.fail current remaining error eventDurable).calls = st.calls := by
  have hdiscard : ∀ (installed : List (Installed runId N)) (st : KeyRegistry runId N),
      (installed.foldl (fun st inst => st.discard error inst) st).calls = st.calls := by
    intro installed
    induction installed with
    | nil => exact fun _ => rfl
    | cons inst rest ih => exact fun st => ih (st.discard error inst)
  unfold fail
  rw [hdiscard]
  cases eventDurable <;> rfl

-- what a step needs of the call it moves, and what it makes of it

omit [JsonNumber N] in
theorem rejected_cases {ref : Nat} (hstep : st.rejected c ref = some st') :
    ∃ claims requested refs error, st.calls[c]? = some ⟨claims, requested, .waiting refs⟩ ∧
      st' = st.setCall c ⟨claims, requested, .threw error⟩ := by
  unfold rejected at hstep
  split at hstep
  · rename_i claims requested refs hcall
    split at hstep
    · split at hstep
      · rename_i error _
        exact ⟨claims, requested, refs, error, hcall, (Option.some.inj hstep).symm⟩
      · exact absurd hstep nofun
    · exact absurd hstep nofun
  · exact absurd hstep nofun

omit [JsonNumber N] in
theorem resume_cases (hstep : st.resume c = some st') :
    ∃ claims requested refs, st.calls[c]? = some ⟨claims, requested, .waiting refs⟩ ∧
      st' = (st.turn ⟨claims, requested, .returned⟩).1.setCall c
        (st.turn ⟨claims, requested, .returned⟩).2 := by
  unfold resume at hstep
  split at hstep
  · rename_i claims requested refs hcall
    split at hstep
    · exact ⟨claims, requested, refs, hcall, (Option.some.inj hstep).symm⟩
    · exact absurd hstep nofun
  · exact absurd hstep nofun

omit [JsonNumber N] in
theorem handled_cases (hstep : st.handled c = some st') :
    ∃ claims requested current remaining,
      st.calls[c]? = some ⟨claims, requested, .appending current remaining .queued⟩ ∧
      st' = { st.setCall c ⟨claims, requested, .appending current remaining
          (if st.journal.any JournalEntry.isTerminal then .ignored else .written)⟩ with
        journal := appendEntry st.journal (.keyBound current.claim.event) } := by
  unfold handled at hstep
  split at hstep
  · rename_i claims requested current remaining hcall
    exact ⟨claims, requested, current, remaining, hcall, (Option.some.inj hstep).symm⟩
  · exact absurd hstep nofun

omit [JsonNumber N] in
theorem appended_cases (hstep : st.appended c = some st') :
    ∃ claims requested current remaining progress,
      st.calls[c]? = some ⟨claims, requested, .appending current remaining progress⟩ ∧
      progress ≠ .queued ∧
      st' = (st.setBinding current.binding .resolved .durable).setCall c
        ⟨claims, requested, nextPhase remaining⟩ := by
  unfold appended at hstep
  split at hstep
  · rename_i claims requested current remaining progress hcall
    split at hstep
    · rename_i hprogress
      exact ⟨claims, requested, current, remaining, progress, hcall, hprogress,
        (Option.some.inj hstep).symm⟩
    · exact absurd hstep nofun
  · exact absurd hstep nofun

omit [JsonNumber N] in
theorem appendFailed_cases {error : JsString} {eventDurable : Bool}
    (hstep : st.appendFailed c error eventDurable = some st') :
    ∃ claims requested current remaining progress,
      st.calls[c]? = some ⟨claims, requested, .appending current remaining progress⟩ ∧
      eventDurable = decide (progress = .written) ∧
      st' = (st.fail current remaining (.append error) eventDurable).setCall c
        ⟨claims, requested, .threw (.append error)⟩ := by
  unfold appendFailed at hstep
  split at hstep
  · rename_i claims requested current remaining progress hcall
    split at hstep
    · rename_i htruthful
      exact ⟨claims, requested, current, remaining, progress, hcall, htruthful,
        (Option.some.inj hstep).symm⟩
    · exact absurd hstep nofun
  · exact absurd hstep nofun

theorem call_inv (hinv : RegistryInv hasher st) (claims : List (KeyClaim runId N)) :
    RegistryInv hasher (st.call hasher claims) := by
  unfold call
  cases hrequested : requestClaims hasher [] claims with
  | error error =>
    have hquiet : Changes hasher st
        { st with calls := st.calls ++ [⟨claims, [], .threw error⟩] } st.calls.length
        ⟨claims, [], .threw error⟩ :=
      .quiet List.getElem?_concat_length (fun c' hc => getElem?_push_ne hc) rfl rfl rfl
        owns_nothing_new nofun nofun fun h => absurd rfl (h error)
    exact hquiet.inv hinv
  | ok requested =>
    have hturn : Changes hasher st
        { (st.turn ⟨claims, requested, .returned⟩).1 with
          calls := st.calls ++ [(st.turn ⟨claims, requested, .returned⟩).2] } st.calls.length
        (st.turn ⟨claims, requested, .returned⟩).2 :=
      turn_changes hinv hrequested owns_nothing_new rfl List.getElem?_concat_length
        (fun c' hc => getElem?_push_ne hc) rfl rfl rfl
    exact hturn.inv hinv

theorem step_inv {e : BindStep runId N} (hinv : RegistryInv hasher st)
    (hcond : st.BeforeTerminal e) (hstep : st.step hasher e = some st') :
    RegistryInv hasher st' := by
  cases e with
  | call claims =>
    obtain rfl := Option.some.inj hstep
    exact call_inv hinv claims
  | resume c =>
    obtain ⟨claims, requested, refs, hcall, rfl⟩ := resume_cases hstep
    have hcalls := @calls_turn _ _ st ⟨claims, requested, .returned⟩
    have hrequested := hinv.requested c _ hcall nofun
    have hturn : Changes hasher st
        ((st.turn ⟨claims, requested, .returned⟩).1.setCall c
          (st.turn ⟨claims, requested, .returned⟩).2) c
        (st.turn ⟨claims, requested, .returned⟩).2 :=
      turn_changes hinv hrequested (owns_nothing hcall rfl) rfl
        (List.getElem?_set_self (hcalls ▸ lt_length_of_getElem? hcall))
        (fun c' hc => by rw [getElem?_setCall_ne _ c' hc, hcalls]) rfl rfl rfl
    exact hturn.inv hinv
  | rejected c ref =>
    obtain ⟨claims, requested, refs, error, hcall, rfl⟩ := rejected_cases hstep
    have hquiet : Changes hasher st _ c ⟨claims, requested, .threw error⟩ :=
      .quiet (getElem?_setCall_self hcall _) (getElem?_setCall_ne _) rfl rfl rfl
        (owns_nothing hcall rfl) nofun nofun fun h => absurd rfl (h error)
    exact hquiet.inv hinv
  | handled c =>
    obtain ⟨claims, requested, current, remaining, hcall, rfl⟩ := handled_cases hstep
    have hopen : st.journal.any JournalEntry.isTerminal = false :=
      List.any_eq_false.mpr fun entry hentry => ne_true_of_eq_false (hcond entry hentry)
    simp only [appendEntry, hopen, Bool.false_eq_true, if_false]
    exact handled_inv hinv hcall
  | appended c =>
    obtain ⟨claims, requested, current, remaining, progress, hcall, hprogress, rfl⟩ :=
      appended_cases hstep
    have hwritten : progress = .written := by
      cases progress with
      | queued => exact absurd rfl hprogress
      | ignored => exact absurd rfl (hinv.handled c _ current remaining hcall)
      | written => rfl
    subst hwritten
    have hinstalled : (nextPhase remaining).installed = remaining := by
      cases remaining <;> rfl
    refine (appended_changes hinv hcall hinstalled ?_).inv hinv
    cases remaining <;> intro _ _ _ h <;> cases h
    rfl
  | appendFailed c error eventDurable =>
    obtain ⟨claims, requested, current, remaining, progress, hcall, htruthful, rfl⟩ :=
      appendFailed_cases hstep
    exact (failed_changes hinv hcall htruthful).inv hinv
  | other event =>
    obtain rfl := Option.some.inj hstep
    exact hinv.other event

theorem restored_inv {journal : List JournalEntry} (hagree : BindingsAgree runId journal) :
    RegistryInv hasher (restored journal : KeyRegistry runId N) := by
  have howns : ∀ c inst, ¬(restored journal : KeyRegistry runId N).Owns c inst :=
    fun c inst ⟨call, hcall, _⟩ => absurd (hcall.symm.trans List.getElem?_nil) nofun
  have hcalls : ∀ (c : Nat) (call : BindCall runId N),
      (restored journal : KeyRegistry runId N).calls[c]? ≠ some call :=
    fun c call hcall => absurd (hcall.symm.trans List.getElem?_nil) nofun
  -- a key of the registry is the key of the event its binding comes from
  have hkey : ∀ id ref, (restored journal : KeyRegistry runId N).keyIdentities id = some ref →
      ∃ event, (keyBounds journal)[ref]? = some event ∧
        recoveryKeyRegistryId runId event = .ok id := by
    intro id ref h
    obtain ⟨hlt, hevent, -⟩ := List.findIdx?_eq_some_iff_getElem.mp h
    exact ⟨_, List.getElem?_eq_getElem hlt, of_decide_eq_true hevent⟩
  have hbinding : ∀ (ref : Nat) event, (keyBounds journal)[ref]? = some event →
      (restored journal : KeyRegistry runId N).bindings[ref]? =
        some ⟨none, event.identityHash, .resolved, .durable⟩ := by
    intro ref event h
    show ((keyBounds journal).map _)[ref]? = _
    rw [List.getElem?_map, h]
    rfl
  have hdurable : ∀ (ref : Nat) bound,
      (restored journal : KeyRegistry runId N).bindings[ref]? = some bound →
      bound.ready = .resolved ∧ bound.state = .durable := by
    intro ref bound h
    replace h : ((keyBounds journal).map _)[ref]? = some bound := h
    rw [List.getElem?_map] at h
    obtain ⟨event, -, rfl⟩ := Option.map_eq_some_iff.mp h
    exact ⟨rfl, rfl⟩
  exact {
    total := fun id ref h => by
      obtain ⟨event, hevent, -⟩ := hkey id ref h
      exact lt_length_of_getElem? (hbinding ref event hevent)
    injective := fun id id' ref h h' => by
      obtain ⟨event, hevent, hid⟩ := hkey id ref h
      obtain ⟨event', hevent', hid'⟩ := hkey id' ref h'
      obtain rfl := Option.some.inj (hevent.symm.trans hevent')
      exact Except.ok.inj (hid.symm.trans hid')
    owned := fun c inst h => absurd h (howns c inst)
    owner := fun c _ inst _ h => absurd h (howns c inst)
    distinct := fun c call h => absurd h (hcalls c call)
    pending := fun id ref bound hheld h =>
      absurd ((hdurable ref bound hheld.2).2.symm.trans h) nofun
    ready := fun ref bound hbound h =>
      absurd ((hdurable ref bound hbound).1.symm.trans h) nofun
    journaled := fun id hash h => by
      obtain ⟨event, hevent, hid, rfl⟩ := h
      cases hfind : (restored journal : KeyRegistry runId N).keyIdentities id with
      | none =>
        have := List.findIdx?_eq_none_iff.mp hfind event hevent
        exact absurd hid (of_decide_eq_false this)
      | some ref =>
        obtain ⟨first, hfirst, hid'⟩ := hkey id ref hfind
        refine ⟨ref, _, ⟨hfind, hbinding ref first hfirst⟩, ?_, nofun⟩
        exact hagree first (List.mem_of_getElem? hfirst) event hevent id hid' hid
    settled := fun id ref bound hheld _ => by
      obtain ⟨event, hevent, hid⟩ := hkey id ref hheld.1
      obtain rfl := Option.some.inj (hheld.2.symm.trans (hbinding ref event hevent))
      exact ⟨event, List.mem_of_getElem? hevent, hid, rfl⟩
    written := fun c call _ _ h => absurd h (hcalls c call)
    handled := fun c call _ _ h => absurd h (hcalls c call)
    covered := fun c call h => absurd h (hcalls c call)
    requested := fun c call h => absurd h (hcalls c call) }

-- ============================================================================
-- Rejected calls
-- ============================================================================

def SameRecords (st st' : KeyRegistry runId N) : Prop :=
  st'.keyIdentities = st.keyIdentities ∧ st'.bindings = st.bindings ∧ st'.journal = st.journal

omit [JsonNumber N] in
theorem turn_untouched {call : BindCall runId N} (h : (st.turn call).2.phase.IsUntouched) :
    SameRecords st (st.turn call).1 := by
  unfold turn at h ⊢
  cases hinspect : st.inspect call.requested with
  | error error => exact ⟨rfl, rfl, rfl⟩
  | ok found =>
    obtain ⟨refs, additions⟩ := found
    simp only [hinspect] at h ⊢
    cases refs with
    | cons ref refs => exact ⟨rfl, rfl, rfl⟩
    | nil =>
      cases hinstall : st.installAll additions with
      | mk next installed =>
        simp only [hinstall] at h ⊢
        cases installed <;> exact h.elim

/-- A step after which its call is untouched has changed nothing. -/
theorem step_untouched {e : BindStep runId N} (hstep : st.step hasher e = some st')
    (hcaller : e.caller st = some c) (hcall : st'.calls[c]? = some call)
    (h : call.phase.IsUntouched) : SameRecords st st' := by
  cases e with
  | call claims =>
    obtain rfl := Option.some.inj hstep
    obtain rfl := Option.some.inj hcaller
    unfold KeyRegistry.call at hcall ⊢
    cases hrequested : requestClaims hasher [] claims with
    | error error => exact ⟨rfl, rfl, rfl⟩
    | ok requested =>
      simp only [hrequested, List.getElem?_concat_length] at hcall ⊢
      obtain rfl := Option.some.inj hcall
      exact turn_untouched h
  | resume c =>
    obtain rfl := Option.some.inj hcaller
    obtain ⟨claims, requested, refs, hbefore, rfl⟩ := resume_cases hstep
    have hlt := lt_length_of_getElem? hbefore
    rw [← @calls_turn _ _ st ⟨claims, requested, .returned⟩] at hlt
    obtain rfl := Option.some.inj ((List.getElem?_set_self hlt).symm.trans hcall)
    exact turn_untouched h
  | rejected c ref =>
    obtain ⟨claims, requested, refs, error, hbefore, rfl⟩ := rejected_cases hstep
    exact ⟨rfl, rfl, rfl⟩
  | handled c =>
    obtain rfl := Option.some.inj hcaller
    obtain ⟨claims, requested, current, remaining, hbefore, rfl⟩ := handled_cases hstep
    obtain rfl := Option.some.inj ((getElem?_setCall_self hbefore _).symm.trans hcall)
    exact h.elim
  | appended c =>
    obtain rfl := Option.some.inj hcaller
    obtain ⟨claims, requested, current, remaining, progress, hbefore, -, rfl⟩ :=
      appended_cases hstep
    obtain rfl := Option.some.inj ((getElem?_setCall_self hbefore _).symm.trans hcall)
    cases remaining <;> exact h.elim
  | appendFailed c error eventDurable =>
    obtain rfl := Option.some.inj hcaller
    obtain ⟨claims, requested, current, remaining, progress, hbefore, -, rfl⟩ :=
      appendFailed_cases hstep
    have hlt : c < (st.fail current remaining (.append error) eventDurable).calls.length := by
      rw [calls_fail]
      exact lt_length_of_getElem? hbefore
    obtain rfl := Option.some.inj ((List.getElem?_set_self hlt).symm.trans hcall)
    exact h.elim
  | other event => exact absurd hcaller nofun

/-- An untouched call has been untouched in every state before. -/
theorem untouched_before {e : BindStep runId N} (hstep : st.step hasher e = some st')
    {call₁ call₂ : BindCall runId N} (hbefore : st.calls[c]? = some call₁)
    (hafter : st'.calls[c]? = some call₂) (h : call₂.phase.IsUntouched) :
    call₁.phase.IsUntouched := by
  -- a step moves one call; what it makes of an appending call is not untouched
  have hother : ∀ {c' : Nat} {new : BindCall runId N} {stNew : KeyRegistry runId N},
      c' ≠ c → stNew.calls = st.calls → (stNew.setCall c' new).calls[c]? = some call₂ →
      call₁.phase.IsUntouched := by
    intro c' new stNew hc hcalls hcall
    rw [getElem?_setCall_ne _ c hc.symm, hcalls, hbefore] at hcall
    exact Option.some.inj hcall ▸ h
  have hself : ∀ {new : BindCall runId N} {stNew : KeyRegistry runId N},
      stNew.calls = st.calls → (stNew.setCall c new).calls[c]? = some call₂ →
      new.phase.IsUntouched := by
    intro new stNew hcalls hcall
    rw [← hcalls] at hbefore
    rw [Option.some.inj ((getElem?_setCall_self hbefore new).symm.trans hcall)]
    exact h
  cases e with
  | call claims =>
    obtain rfl := Option.some.inj hstep
    have hcalls : ∃ new, (st.call hasher claims).calls = st.calls ++ [new] := by
      unfold KeyRegistry.call
      cases requestClaims hasher [] claims <;> exact ⟨_, rfl⟩
    obtain ⟨new, hcalls⟩ := hcalls
    rw [hcalls, List.getElem?_append_left (lt_length_of_getElem? hbefore), hbefore] at hafter
    exact Option.some.inj hafter ▸ h
  | resume c' =>
    obtain ⟨claims, requested, refs, hcall, rfl⟩ := resume_cases hstep
    by_cases hc : c' = c
    · subst hc
      obtain rfl := Option.some.inj (hcall.symm.trans hbefore)
      trivial
    · exact hother hc (calls_turn _) hafter
  | rejected c' ref =>
    obtain ⟨claims, requested, refs, error, hcall, rfl⟩ := rejected_cases hstep
    by_cases hc : c' = c
    · subst hc
      obtain rfl := Option.some.inj (hcall.symm.trans hbefore)
      trivial
    · exact hother hc rfl hafter
  | handled c' =>
    obtain ⟨claims, requested, current, remaining, hcall, rfl⟩ := handled_cases hstep
    by_cases hc : c' = c
    · subst hc
      exact (hself rfl hafter).elim
    · exact hother hc rfl hafter
  | appended c' =>
    obtain ⟨claims, requested, current, remaining, progress, hcall, -, rfl⟩ := appended_cases hstep
    by_cases hc : c' = c
    · subst hc
      have huntouched := hself rfl hafter
      cases remaining <;> exact huntouched.elim
    · exact hother hc rfl hafter
  | appendFailed c' error eventDurable =>
    obtain ⟨claims, requested, current, remaining, progress, hcall, -, rfl⟩ :=
      appendFailed_cases hstep
    by_cases hc : c' = c
    · subst hc
      exact (hself (calls_fail ..) hafter).elim
    · exact hother hc (calls_fail ..) hafter
  | other event =>
    obtain rfl := Option.some.inj hstep
    exact Option.some.inj (hbefore.symm.trans hafter) ▸ h

/-- No call is taken away. -/
theorem length_calls_step {e : BindStep runId N} (hstep : st.step hasher e = some st') :
    st.calls.length ≤ st'.calls.length := by
  cases e with
  | call claims =>
    obtain rfl := Option.some.inj hstep
    unfold KeyRegistry.call
    cases requestClaims hasher [] claims <;> exact (List.prefix_append _ _).length_le
  | resume c =>
    obtain ⟨claims, requested, refs, -, rfl⟩ := resume_cases hstep
    rw [setCall, List.length_set, calls_turn]
  | rejected c ref =>
    obtain ⟨claims, requested, refs, error, -, rfl⟩ := rejected_cases hstep
    rw [setCall, List.length_set]
  | handled c =>
    obtain ⟨claims, requested, current, remaining, -, rfl⟩ := handled_cases hstep
    rw [setCall, List.length_set]
  | appended c =>
    obtain ⟨claims, requested, current, remaining, progress, -, -, rfl⟩ := appended_cases hstep
    rw [setCall, List.length_set]
    rfl
  | appendFailed c error eventDurable =>
    obtain ⟨claims, requested, current, remaining, progress, -, -, rfl⟩ := appendFailed_cases hstep
    rw [setCall, List.length_set, calls_fail]
  | other event =>
    obtain rfl := Option.some.inj hstep
    exact le_rfl

/-- The call of a step is there after it. -/
theorem caller_exists {e : BindStep runId N} (hstep : st.step hasher e = some st')
    (hcaller : e.caller st = some c) : ∃ call, st'.calls[c]? = some call := by
  have hthere : ∀ {c' : Nat} {old : BindCall runId N}, st.calls[c']? = some old →
      ∃ call, st'.calls[c']? = some call := fun h =>
    ⟨_, List.getElem?_eq_getElem
      ((lt_length_of_getElem? h).trans_le (length_calls_step hstep))⟩
  cases e with
  | call claims =>
    obtain rfl := Option.some.inj hstep
    obtain rfl := Option.some.inj hcaller
    unfold KeyRegistry.call
    cases requestClaims hasher [] claims <;> exact ⟨_, List.getElem?_concat_length⟩
  | resume c =>
    obtain rfl := Option.some.inj hcaller
    obtain ⟨claims, requested, refs, hcall, -⟩ := resume_cases hstep
    exact hthere hcall
  | rejected c ref =>
    obtain rfl := Option.some.inj hcaller
    obtain ⟨claims, requested, refs, error, hcall, -⟩ := rejected_cases hstep
    exact hthere hcall
  | handled c =>
    obtain rfl := Option.some.inj hcaller
    obtain ⟨claims, requested, current, remaining, hcall, -⟩ := handled_cases hstep
    exact hthere hcall
  | appended c =>
    obtain rfl := Option.some.inj hcaller
    obtain ⟨claims, requested, current, remaining, progress, hcall, -⟩ := appended_cases hstep
    exact hthere hcall
  | appendFailed c error eventDurable =>
    obtain rfl := Option.some.inj hcaller
    obtain ⟨claims, requested, current, remaining, progress, hcall, -⟩ := appendFailed_cases hstep
    exact hthere hcall
  | other event => exact absurd hcaller nofun

theorem untouched_before_run {events : List (BindStep runId N)}
    (hrun : Machine.run (step hasher) st events = some st')
    {call₁ call₂ : BindCall runId N} (hbefore : st.calls[c]? = some call₁)
    (hafter : st'.calls[c]? = some call₂) (h : call₂.phase.IsUntouched) :
    call₁.phase.IsUntouched := by
  induction events generalizing st call₁ with
  | nil =>
    obtain rfl := Option.some.inj hrun
    exact Option.some.inj (hbefore.symm.trans hafter) ▸ h
  | cons e events ih =>
    cases hstep : st.step hasher e with
    | none => simp only [Machine.run, hstep, reduceCtorEq] at hrun
    | some next =>
      rw [Machine.run_cons hstep] at hrun
      have hlt := (lt_length_of_getElem? hbefore).trans_le (length_calls_step hstep)
      have hnext := ih hrun (List.getElem?_eq_getElem hlt)
      exact untouched_before hstep hbefore (List.getElem?_eq_getElem hlt) hnext

-- ============================================================================
-- Agreement
-- ============================================================================

/-- A claim is bound durably: in the registry, and in the journal. -/
def DurablyBound (st : KeyRegistry runId N) (id hash : JsString) : Prop :=
  st.DurableIn id hash ∧ st.Journaled id hash

omit [JsonNumber N] in
theorem appending_of_owns {inst : Installed runId N} (h : st.Owns c inst) :
    ∃ call ∈ st.calls, ∃ current remaining progress,
      call.phase = .appending current remaining progress := by
  obtain ⟨call, hcall, hmem⟩ := h
  refine ⟨call, List.mem_of_getElem? hcall, ?_⟩
  cases hphase : call.phase with
  | appending current remaining progress => exact ⟨current, remaining, progress, rfl⟩
  | waiting _ | returned | threw _ =>
    rw [hphase] at hmem
    exact absurd hmem List.not_mem_nil

end KeyRegistry

open KeyRegistry

/-- What `bindKeys` promises of a run. -/
structure KeyAgreement (hasher : Hasher) (initial : KeyRegistry runId N)
    (events : List (BindStep runId N)) (st : KeyRegistry runId N) : Prop where
  returned : ∀ call ∈ st.calls, call.phase = .returned → ∀ claim ∈ call.claims,
    ∃ hash, identityHash hasher claim.identity = .ok hash ∧
      st.DurablyBound (keyRegistryId claim.kind claim.key claim.frame) hash
  journal : BindingsAgree runId st.journal
  settled : (∀ call ∈ st.calls, ∀ current remaining progress,
      call.phase ≠ .appending current remaining progress) →
    (∀ bound ∈ st.bindings, bound.ready ≠ .pending) ∧
      ∀ id ref bound, st.Holds id ref bound → bound.state ≠ .pending
  rejected : ∀ before e after st₁ st₂ (c : Nat) kind key, events = before ++ e :: after →
    Machine.run (KeyRegistry.step hasher) initial before = some st₁ →
    st₁.step hasher e = some st₂ → e.caller st₁ = some c →
    (st.calls[c]?).map BindCall.phase = some (.threw (.keyIdentityChanged kind key)) →
    SameRecords st₁ st₂

theorem run_inv {journal : List JournalEntry} (hagree : BindingsAgree runId journal)
    {events : List (BindStep runId N)} {st : KeyRegistry runId N}
    (halong : Machine.Along (KeyRegistry.step hasher) BeforeTerminal (restored journal) events)
    (hrun : Machine.run (KeyRegistry.step hasher) (restored journal) events = some st) :
    RegistryInv hasher st :=
  Machine.run_invariant (fun _ _ _ hinv hcond hstep => step_inv hinv hcond hstep)
    (restored_inv hagree) halong hrun

/-- Key binding agreement in every run whose bindings come to the journal before its
terminal event, from any journal that agrees with itself. -/
theorem bindKeys_agreement (journal : List JournalEntry) (hagree : BindingsAgree runId journal)
    (events : List (BindStep runId N)) (st : KeyRegistry runId N)
    (halong : Machine.Along (KeyRegistry.step hasher) BeforeTerminal (restored journal) events)
    (hrun : Machine.run (KeyRegistry.step hasher) (restored journal) events = some st) :
    KeyAgreement hasher (restored journal) events st := by
  have hinv := run_inv hagree halong hrun
  refine ⟨?_, ?_, ?_, ?_⟩
  · intro call hmem hphase claim hclaim
    obtain ⟨c, hcall⟩ := List.getElem?_of_mem hmem
    have hrequested := hinv.requested c call hcall (by rw [hphase]; exact nofun)
    obtain ⟨entry, hentry, hid, hhash⟩ := requested_covers hrequested claim hclaim
    rcases hinv.covered c call hcall (by rw [hphase]; trivial) entry hentry with
      ⟨inst, hinst, -⟩ | hdurable
    · rw [hphase] at hinst
      exact absurd hinst List.not_mem_nil
    · rw [← hid]
      refine ⟨entry.identityHash, hhash, hdurable, ?_⟩
      obtain ⟨ref, bound, hheld, hstate, hbound⟩ := hdurable
      exact hbound ▸ hinv.settled _ ref bound hheld (by rw [hstate]; exact nofun)
  · intro e₁ h₁ e₂ h₂ id hid₁ hid₂
    obtain ⟨ref, bound, hheld, hhash, -⟩ := hinv.journaled id _ ⟨e₁, h₁, hid₁, rfl⟩
    obtain ⟨ref', bound', hheld', hhash', -⟩ := hinv.journaled id _ ⟨e₂, h₂, hid₂, rfl⟩
    obtain rfl := Option.some.inj (hheld.1.symm.trans hheld'.1)
    obtain rfl := Option.some.inj (hheld.2.symm.trans hheld'.2)
    rw [← hhash, ← hhash']
  · intro hnone
    have hidle : ∀ c inst, ¬st.Owns c inst := by
      intro c inst howns
      obtain ⟨call, hmem, current, remaining, progress, hphase⟩ := appending_of_owns howns
      exact hnone call hmem current remaining progress hphase
    constructor
    · intro bound hmem hready
      obtain ⟨ref, hbound⟩ := List.getElem?_of_mem hmem
      obtain ⟨c, inst, howns, -⟩ := hinv.ready ref bound hbound hready
      exact hidle c inst howns
    · intro id ref bound hheld hstate
      obtain ⟨c, inst, howns, -⟩ := hinv.pending id ref bound hheld hstate
      exact hidle c inst howns
  · rintro before e after st₁ st₂ c kind key rfl hbefore hstep hcaller hfinal
    obtain ⟨final, hcall, hphase⟩ := Option.map_eq_some_iff.mp hfinal
    have hafter : Machine.run (KeyRegistry.step hasher) st₂ after = some st := by
      rw [Machine.run_append, hbefore] at hrun
      exact (Machine.run_cons hstep).symm.trans hrun
    obtain ⟨moved, hmoved⟩ := caller_exists hstep hcaller
    have huntouched : moved.phase.IsUntouched := by
      refine untouched_before_run hafter hmoved hcall ?_
      rw [hphase]
      trivial
    exact step_untouched hstep hcaller hmoved huntouched

-- ============================================================================
-- Claims of two keys
-- ============================================================================

/-- A claim of a key for the identity `null`. -/
def nullClaim (key : JsString) : KeyClaim (js "run") Int := ⟨.root _, .llm, key, .null⟩

def nullRequest (key : JsString) : RequestedClaim (js "run") Int :=
  ⟨nullClaim key, js "null", Shell.sha256 (js "null")⟩

theorem normalizeClaim_nullClaim (key : JsString) :
    normalizeClaim Shell.sha256 (nullClaim key) = .ok (nullRequest key) := by
  have htext : canonicalStringify (nullClaim key).identity = .ok (js "null") := rfl
  have hhash : identityHash Shell.sha256 (nullClaim key).identity =
      .ok (Shell.sha256 (js "null")) := by
    rw [identityHash, htext]
    show fullDigest Shell.sha256 (js "null") = _
    rw [fullDigest, if_pos (Shell.isHash_sha256 _)]
  unfold normalizeClaim
  rw [hhash, htext]
  rfl

theorem requestClaims_one (key : JsString) :
    requestClaims Shell.sha256 [] [nullClaim key] = .ok [nullRequest key] := by
  rw [requestClaims, requestClaim, normalizeClaim_nullClaim]
  rfl

theorem registryId_ne : (nullRequest (js "a")).registryId ≠ (nullRequest (js "b")).registryId := by
  decide

theorem requestClaims_two : requestClaims Shell.sha256 [] [nullClaim (js "a"), nullClaim (js "b")] =
    .ok [nullRequest (js "a"), nullRequest (js "b")] := by
  have hnew : [nullRequest (js "a")].find?
      (fun prior => prior.registryId == (nullRequest (js "b")).registryId) = none := by
    rw [List.find?_singleton, beq_false_of_ne registryId_ne]
    rfl
  rw [requestClaims, requestClaim, normalizeClaim_nullClaim]
  show requestClaims Shell.sha256 [nullRequest (js "a")] [nullClaim (js "b")] = _
  rw [requestClaims, requestClaim, normalizeClaim_nullClaim, Except.bind, hnew]
  rfl

namespace KeyRegistry

variable {st : KeyRegistry runId N} {claim : RequestedClaim runId N} {ref : Nat}
  {bound : KeyIdentityBinding}

omit [JsonNumber N] in
/-- A binding to the same identity that is not ready yet is waited for. -/
theorem inspect_pending (hbound : st.binding? claim.registryId = some (ref, bound))
    (hhash : bound.identityHash = claim.identityHash) (hstate : bound.state = .pending) :
    st.inspect [claim] = .ok ([ref], []) := by
  rw [inspect, hbound]
  dsimp only
  rw [if_neg (not_not_intro hhash), hstate]
  rfl

omit [JsonNumber N] in
/-- A binding to the same identity that is durable is all a claim needs. -/
theorem inspect_durable (hbound : st.binding? claim.registryId = some (ref, bound))
    (hhash : bound.identityHash = claim.identityHash) (hstate : bound.state = .durable) :
    st.inspect [claim] = .ok ([], []) := by
  rw [inspect, hbound]
  dsimp only
  rw [if_neg (not_not_intro hhash), hstate]
  rfl

omit [JsonNumber N] in
theorem resume_returns {claims : List (KeyClaim runId N)} {requested : List (RequestedClaim runId N)}
    {refs : List Nat} (hcall : st.calls[c]? = some ⟨claims, requested, .waiting refs⟩)
    (hready : ∀ ref ∈ refs, st.ready? ref = some .resolved)
    (hinspect : st.inspect requested = .ok ([], [])) :
    st.resume c = some (st.setCall c ⟨claims, requested, .returned⟩) := by
  rw [resume, hcall]
  dsimp only
  rw [if_pos hready, turn, hinspect]
  rfl

end KeyRegistry

/-- A registry with bindings of both keys. -/
def twoBindings (first : Ready) (state : BindingState) (journal : List JournalEntry)
    (calls : List (BindCall (js "run") Int)) : KeyRegistry (js "run") Int where
  keyIdentities := Function.update
    (Function.update (fun _ => none) (nullRequest (js "a")).registryId (some 0))
    (nullRequest (js "b")).registryId (some 1)
  bindings := [⟨some (js "null"), Shell.sha256 (js "null"), first, state⟩,
    KeyRegistry.fresh (nullRequest (js "b"))]
  journal := journal
  calls := calls

theorem binding_twoBindings (first : Ready) (state : BindingState) (journal : List JournalEntry)
    (calls : List (BindCall (js "run") Int)) :
    (twoBindings first state journal calls).binding? (nullRequest (js "a")).registryId =
      some (0, ⟨some (js "null"), Shell.sha256 (js "null"), first, state⟩) := by
  have hid : (twoBindings first state journal calls).keyIdentities
      (nullRequest (js "a")).registryId = some 0 := by
    unfold twoBindings
    dsimp only
    rw [Function.update_of_ne registryId_ne, Function.update_self]
  rw [KeyRegistry.binding?, hid]
  rfl

/-- A call that claims both keys, in a phase. -/
def callOfTwo (phase : BindPhase (js "run") Int) : BindCall (js "run") Int :=
  ⟨[nullClaim (js "a"), nullClaim (js "b")], [nullRequest (js "a"), nullRequest (js "b")], phase⟩

def callOfOne (phase : BindPhase (js "run") Int) : BindCall (js "run") Int :=
  ⟨[nullClaim (js "a")], [nullRequest (js "a")], phase⟩

/-- The first call installs both claims. -/
theorem step_callOfTwo : (restored []).step Shell.sha256
      (.call [nullClaim (js "a"), nullClaim (js "b")]) =
    some (twoBindings .pending .pending []
      [callOfTwo (.appending ⟨nullRequest (js "a"), 0⟩ [⟨nullRequest (js "b"), 1⟩] .queued)]) := by
  rw [KeyRegistry.step, KeyRegistry.call, requestClaims_two]
  rfl

/-- The second call waits for the binding of the first. -/
theorem step_callOfOne (call : BindCall (js "run") Int) :
    (twoBindings .pending .pending [] [call]).step Shell.sha256 (.call [nullClaim (js "a")]) =
      some (twoBindings .pending .pending [] [call, callOfOne (.waiting [0])]) := by
  have hinspect := KeyRegistry.inspect_pending (binding_twoBindings .pending .pending [] [call])
    rfl rfl
  rw [KeyRegistry.step, KeyRegistry.call, requestClaims_one]
  dsimp only
  rw [KeyRegistry.turn, hinspect]
  rfl

/-- When the key is in the journal, the second call returns. -/
theorem step_resume (journal : List JournalEntry) (call : BindCall (js "run") Int) :
    (twoBindings .resolved .durable journal [call, callOfOne (.waiting [0])]).step Shell.sha256
        (.resume 1) =
      some (twoBindings .resolved .durable journal [call, callOfOne .returned]) := by
  have hinspect := KeyRegistry.inspect_durable
    (binding_twoBindings .resolved .durable journal [call, callOfOne (.waiting [0])]) rfl rfl
  rw [KeyRegistry.step, KeyRegistry.resume_returns rfl (List.forall_mem_singleton.mpr rfl) hinspect]
  rfl

/-- Two calls with a claim in common; the append of the other claim fails. -/
def overlappingCalls : List (BindStep (js "run") Int) :=
  [.call [nullClaim (js "a"), nullClaim (js "b")], .call [nullClaim (js "a")], .handled 0,
    .appended 0, .resume 1, .appendFailed 0 (js "disk full") false]

theorem bindKeys_agreement_overlapping : ∃ st : KeyRegistry (js "run") Int,
    Machine.run (KeyRegistry.step Shell.sha256) (restored []) overlappingCalls = some st ∧
      st.calls.map BindCall.phase = [.threw (.append (js "disk full")), .returned] ∧
      keyBounds st.journal = [(nullRequest (js "a")).event] ∧
      KeyAgreement Shell.sha256 (restored []) overlappingCalls st := by
  have hagree : BindingsAgree (js "run") [] := fun _ h => absurd h List.not_mem_nil
  have halong : Machine.Along (KeyRegistry.step Shell.sha256) BeforeTerminal (restored [])
      overlappingCalls := by
    refine ⟨trivial, fun st hst => ⟨trivial, fun st' hst' => ⟨?_, fun _ _ => ⟨trivial, fun _ _ =>
      ⟨trivial, fun _ _ => ⟨trivial, fun _ _ => trivial⟩⟩⟩⟩⟩⟩
    obtain rfl := Option.some.inj (step_callOfTwo.symm.trans hst)
    obtain rfl := Option.some.inj ((step_callOfOne _).symm.trans hst')
    exact fun entry hentry => absurd hentry List.not_mem_nil
  -- the first claim is appended, then the second call returns, and the first one fails
  have hhandled : (twoBindings .pending .pending [] [callOfTwo
        (.appending ⟨nullRequest (js "a"), 0⟩ [⟨nullRequest (js "b"), 1⟩] .queued),
        callOfOne (.waiting [0])]).step Shell.sha256 (.handled 0) =
      some (twoBindings .pending .pending [.keyBound (nullRequest (js "a")).event] [callOfTwo
        (.appending ⟨nullRequest (js "a"), 0⟩ [⟨nullRequest (js "b"), 1⟩] .written),
        callOfOne (.waiting [0])]) := rfl
  have happended : (twoBindings .pending .pending [.keyBound (nullRequest (js "a")).event]
        [callOfTwo (.appending ⟨nullRequest (js "a"), 0⟩ [⟨nullRequest (js "b"), 1⟩] .written),
        callOfOne (.waiting [0])]).step Shell.sha256 (.appended 0) =
      some (twoBindings .resolved .durable [.keyBound (nullRequest (js "a")).event]
        [callOfTwo (.appending ⟨nullRequest (js "b"), 1⟩ [] .queued),
        callOfOne (.waiting [0])]) := rfl
  have hfailed : Machine.run (KeyRegistry.step Shell.sha256)
      (twoBindings .resolved .durable [.keyBound (nullRequest (js "a")).event]
        [callOfTwo (.appending ⟨nullRequest (js "b"), 1⟩ [] .queued), callOfOne .returned])
      [.appendFailed 0 (js "disk full") false] = some _ := rfl
  have hrun := (Machine.run_cons step_callOfTwo).trans <| (Machine.run_cons (step_callOfOne _)).trans <|
    (Machine.run_cons hhandled).trans <| (Machine.run_cons happended).trans <|
      (Machine.run_cons (step_resume _ _)).trans hfailed
  exact ⟨_, hrun, rfl, rfl, bindKeys_agreement [] hagree _ _ halong hrun⟩

/-- A binding that comes to the journal after the terminal event is ignored, and its call
returns all the same. -/
theorem returns_unbound : ¬∀ (events : List (BindStep (js "run") Int)) st,
    Machine.run (KeyRegistry.step Shell.sha256) (restored []) events = some st →
      KeyAgreement Shell.sha256 (restored []) events st := by
  intro h
  have hstep : (restored []).step Shell.sha256 (.call [nullClaim (js "a")]) = some
      { keyIdentities := Function.update (fun _ => none) (nullRequest (js "a")).registryId (some 0)
        bindings := [KeyRegistry.fresh (nullRequest (js "a"))]
        journal := []
        calls := [callOfOne (.appending ⟨nullRequest (js "a"), 0⟩ [] .queued)] } := by
    rw [KeyRegistry.step, KeyRegistry.call, requestClaims_one]
    rfl
  have hagreement := h [.call [nullClaim (js "a")],
    .other (.terminal (.runCancelled (js "run") [] [])), .handled 0, .appended 0] _
    ((Machine.run_cons hstep).trans rfl)
  obtain ⟨hash, -, -, event, hevent, -⟩ :=
    hagreement.returned _ List.mem_cons_self rfl (nullClaim (js "a")) List.mem_cons_self
  exact absurd hevent List.not_mem_nil

end PiRlm.Runtime

/-
  PiRlm.Runtime.KeyBindingChanges

  The pieces of `bindKeys`, each a change that the invariant of the registry allows: the
  claims of a call, one turn of its loop, and the outcomes of its appends.
-/
import Mathlib
import PiRlm.Runtime.KeyBindingSound

namespace PiRlm.Runtime

open PiRlm.Lib PiRlm.Lib.Json PiRlm.Core

variable {runId : JsString} {N : Type} [JsonNumber N] {hasher : Hasher}

-- ============================================================================
-- The claims of one call
-- ============================================================================

theorem normalizeClaim_spec {claim : KeyClaim runId N} {normalized : RequestedClaim runId N}
    (h : normalizeClaim hasher claim = .ok normalized) :
    normalized.toKeyClaim = claim ∧
      canonicalStringify claim.identity = .ok normalized.canonicalIdentity ∧
      fullDigest hasher normalized.canonicalIdentity = .ok normalized.identityHash := by
  unfold normalizeClaim identityHash at h
  cases htext : canonicalStringify claim.identity with
  | error message => simp only [htext, reduceCtorEq] at h
  | ok text =>
    cases hdigest : fullDigest hasher text with
    | error message =>
      simp only [htext, Except.bind, hdigest, reduceCtorEq] at h
    | ok hash =>
      simp only [htext, Except.bind, hdigest] at h
      obtain rfl := Except.ok.inj h
      exact ⟨rfl, rfl, hdigest⟩

/-- What a list of requested claims says of a claim: its key is there, with its identity. -/
def Requests (hasher : Hasher) (requested : List (RequestedClaim runId N))
    (claim : KeyClaim runId N) : Prop :=
  ∃ entry ∈ requested, entry.registryId = keyRegistryId claim.kind claim.key claim.frame ∧
    identityHash hasher claim.identity = .ok entry.identityHash

/-- The text and the hash of a requested claim are those of its identity. -/
def Digested (hasher : Hasher) (requested : List (RequestedClaim runId N)) : Prop :=
  ∀ entry ∈ requested, fullDigest hasher entry.canonicalIdentity = .ok entry.identityHash

theorem requestClaim_spec {requested requested' : List (RequestedClaim runId N)}
    {claim : KeyClaim runId N} (h : requestClaim hasher requested claim = .ok requested')
    (hdigested : Digested hasher requested)
    (hnodup : (requested.map RequestedClaim.registryId).Nodup) :
    Digested hasher requested' ∧ (requested'.map RequestedClaim.registryId).Nodup ∧
      (∀ entry ∈ requested, entry ∈ requested') ∧ Requests hasher requested' claim := by
  unfold requestClaim at h
  cases hnormal : normalizeClaim hasher claim with
  | error error => simp only [hnormal, Except.bind, reduceCtorEq] at h
  | ok normalized =>
    obtain ⟨rfl, htext, hdigest⟩ := normalizeClaim_spec hnormal
    have hhash : identityHash hasher normalized.identity = .ok normalized.identityHash := by
      rw [identityHash, htext]
      exact hdigest
    simp only [hnormal, Except.bind] at h
    cases hfind : requested.find? fun prior => prior.registryId == normalized.registryId with
    | none =>
      simp only [hfind] at h
      obtain rfl := Except.ok.inj h
      have habsent : ∀ prior ∈ requested, prior.registryId ≠ normalized.registryId := by
        intro prior hprior heq
        exact absurd (beq_iff_eq.mpr heq) (List.find?_eq_none.mp hfind prior hprior)
      refine ⟨?_, ?_, fun entry hentry => List.mem_append_left _ hentry,
        normalized, List.mem_append_right _ List.mem_cons_self, rfl, hhash⟩
      · intro entry hentry
        rcases List.mem_append.mp hentry with hentry | hentry
        · exact hdigested entry hentry
        · rw [List.mem_singleton.mp hentry]
          exact hdigest
      · rw [List.map_append, List.nodup_append']
        refine ⟨hnodup, List.nodup_singleton _, ?_⟩
        intro id hid hnew
        obtain ⟨prior, hprior, rfl⟩ := List.mem_map.mp hid
        exact habsent prior hprior (List.mem_singleton.mp hnew)
    | some prior =>
      simp only [hfind] at h
      have hprior := List.mem_of_find?_eq_some hfind
      have hsame : prior.registryId = normalized.registryId := by
        have := List.find?_some hfind
        exact beq_iff_eq.mp this
      split at h
      · exact absurd h nofun
      · rename_i hcanonical
        obtain rfl := Except.ok.inj h
        refine ⟨hdigested, hnodup, fun _ h => h, prior, hprior, hsame, ?_⟩
        -- equal canonical texts have equal hashes
        have := hdigested prior hprior
        rw [not_not.mp hcanonical, hdigest] at this
        rw [hhash, Except.ok.inj this]

theorem requestClaims_spec {requested requested' : List (RequestedClaim runId N)}
    {claims : List (KeyClaim runId N)} (h : requestClaims hasher requested claims = .ok requested')
    (hdigested : Digested hasher requested)
    (hnodup : (requested.map RequestedClaim.registryId).Nodup) :
    (requested'.map RequestedClaim.registryId).Nodup ∧
      (∀ entry ∈ requested, entry ∈ requested') ∧ ∀ claim ∈ claims, Requests hasher requested' claim := by
  induction claims generalizing requested with
  | nil =>
    obtain rfl := Except.ok.inj h
    exact ⟨hnodup, fun _ h => h, fun _ h => absurd h List.not_mem_nil⟩
  | cons claim claims ih =>
    unfold requestClaims at h
    cases hfirst : requestClaim hasher requested claim with
    | error error => simp only [hfirst, Except.bind, reduceCtorEq] at h
    | ok next =>
      simp only [hfirst, Except.bind] at h
      obtain ⟨hdigested', hnodup', hkept, hclaim⟩ := requestClaim_spec hfirst hdigested hnodup
      obtain ⟨hdistinct, hmono, hrest⟩ := ih h hdigested' hnodup'
      refine ⟨hdistinct, fun entry hentry => hmono entry (hkept entry hentry), ?_⟩
      rw [List.forall_mem_cons]
      refine ⟨?_, hrest⟩
      obtain ⟨entry, hentry, hid, hhash⟩ := hclaim
      exact ⟨entry, hmono entry hentry, hid, hhash⟩

theorem requested_nodup {claims : List (KeyClaim runId N)}
    {requested : List (RequestedClaim runId N)}
    (h : requestClaims hasher [] claims = .ok requested) :
    (requested.map RequestedClaim.registryId).Nodup :=
  (requestClaims_spec h (fun _ h => absurd h List.not_mem_nil) List.nodup_nil).1

theorem requested_covers {claims : List (KeyClaim runId N)}
    {requested : List (RequestedClaim runId N)}
    (h : requestClaims hasher [] claims = .ok requested) :
    ∀ claim ∈ claims, Requests hasher requested claim :=
  (requestClaims_spec h (fun _ h => absurd h List.not_mem_nil) List.nodup_nil).2.2

namespace KeyRegistry

variable {st st' : KeyRegistry runId N} {c : Nat} {call : BindCall runId N}

-- ============================================================================
-- One turn of the loop
-- ============================================================================

omit [JsonNumber N] in
/-- A registry check that passes: the additions are unbound claims, and without a binding to
wait for every other claim is bound durably. -/
theorem inspect_spec {claims additions : List (RequestedClaim runId N)} {refs : List Nat}
    (htotal : ∀ id ref, st.keyIdentities id = some ref → ref < st.bindings.length)
    (h : st.inspect claims = .ok (refs, additions)) :
    additions.Sublist claims ∧
      (∀ claim ∈ additions, st.keyIdentities claim.registryId = none) ∧
      (refs = [] → ∀ claim ∈ claims,
        claim ∈ additions ∨ st.DurableIn claim.registryId claim.identityHash) := by
  induction claims generalizing refs additions with
  | nil =>
    obtain ⟨rfl, rfl⟩ := Prod.mk.inj (Except.ok.inj h)
    exact ⟨.slnil, fun _ h => absurd h List.not_mem_nil, fun _ _ h => absurd h List.not_mem_nil⟩
  | cons claim claims ih =>
    unfold inspect at h
    cases hbinding : st.binding? claim.registryId with
    | none =>
      simp only [hbinding] at h
      cases hrest : st.inspect claims with
      | error error => simp only [hrest, Except.map, reduceCtorEq] at h
      | ok found =>
        simp only [hrest, Except.map] at h
        obtain ⟨rfl, rfl⟩ := Prod.mk.inj (Except.ok.inj h)
        obtain ⟨hsub, hunbound, hdurable⟩ := ih hrest
        refine ⟨hsub.cons_cons _, ?_, fun hrefs => ?_⟩
        · rw [List.forall_mem_cons]
          refine ⟨?_, hunbound⟩
          cases hkey : st.keyIdentities claim.registryId with
          | none => rfl
          | some ref =>
            simp only [binding?, hkey, Option.bind_some,
              List.getElem?_eq_getElem (htotal _ _ hkey), Option.map_some, reduceCtorEq] at hbinding
        · rw [List.forall_mem_cons]
          exact ⟨.inl List.mem_cons_self, fun other hother =>
            (hdurable hrefs other hother).imp_left (List.mem_cons_of_mem _)⟩
    | some found =>
      obtain ⟨ref, bound⟩ := found
      have hheld : st.Holds claim.registryId ref bound := by
        unfold binding? at hbinding
        obtain ⟨ref', hkey, hmap⟩ := Option.bind_eq_some_iff.mp hbinding
        obtain ⟨bound', hbound, hpair⟩ := Option.map_eq_some_iff.mp hmap
        obtain ⟨rfl, rfl⟩ := Prod.mk.inj hpair
        exact ⟨hkey, hbound⟩
      simp only [hbinding] at h
      split at h
      · exact absurd h nofun
      · rename_i hhash
        cases hstate : bound.state with
        | durableFailed error => simp only [hstate, reduceCtorEq] at h
        | pending =>
          simp only [hstate] at h
          cases hrest : st.inspect claims with
          | error error => simp only [hrest, Except.map, reduceCtorEq] at h
          | ok found =>
            simp only [hrest, Except.map] at h
            obtain ⟨rfl, rfl⟩ := Prod.mk.inj (Except.ok.inj h)
            obtain ⟨hsub, hunbound, -⟩ := ih hrest
            exact ⟨hsub.cons _, hunbound, fun hrefs => absurd hrefs nofun⟩
        | durable =>
          simp only [hstate] at h
          obtain ⟨hsub, hunbound, hdurable⟩ := ih h
          refine ⟨hsub.cons _, hunbound, fun hrefs => ?_⟩
          rw [List.forall_mem_cons]
          exact ⟨.inr ⟨ref, bound, hheld, hstate, not_not.mp hhash⟩, hdurable hrefs⟩

omit [JsonNumber N] in
/-- Installing claims of distinct unbound keys. -/
theorem installAll_spec {claims : List (RequestedClaim runId N)}
    (hnodup : (claims.map RequestedClaim.registryId).Nodup) :
    (st.installAll claims).1.journal = st.journal ∧
    (st.installAll claims).1.calls = st.calls ∧
    (st.installAll claims).2.map Installed.claim = claims ∧
    ((st.installAll claims).2.map Installed.binding).Nodup ∧
    st.bindings.length ≤ (st.installAll claims).1.bindings.length ∧
    (∀ inst ∈ (st.installAll claims).2, st.bindings.length ≤ inst.binding ∧
      (st.installAll claims).1.Holds inst.claim.registryId inst.binding (fresh inst.claim)) ∧
    (∀ id, (∀ claim ∈ claims, claim.registryId ≠ id) →
      (st.installAll claims).1.keyIdentities id = st.keyIdentities id) ∧
    ∀ ref, (∀ inst ∈ (st.installAll claims).2, inst.binding ≠ ref) →
      (st.installAll claims).1.bindings[ref]? = st.bindings[ref]? := by
  induction claims generalizing st with
  | nil =>
    exact ⟨rfl, rfl, rfl, List.nodup_nil, le_rfl, fun _ h => absurd h List.not_mem_nil,
      fun _ _ => rfl, fun _ _ => rfl⟩
  | cons claim claims ih =>
    rw [List.map_cons, List.nodup_cons] at hnodup
    obtain ⟨hjournal, hcalls, hclaims, hrefs, hlength, hheld, hkeys, hbindings⟩ :=
      @ih (st.install claim) hnodup.2
    have hinstalled : (st.install claim).bindings.length = st.bindings.length + 1 :=
      List.length_append
    have hlater : ∀ inst ∈ ((st.install claim).installAll claims).2,
        st.bindings.length + 1 ≤ inst.binding :=
      fun inst hinst => hinstalled ▸ (hheld inst hinst).1
    rw [installAll]
    refine ⟨hjournal, hcalls, congrArg (claim :: ·) hclaims, ?_, ?_, ?_, ?_, ?_⟩
    · rw [List.map_cons, List.nodup_cons]
      refine ⟨fun hmem => ?_, hrefs⟩
      obtain ⟨inst, hinst, heq⟩ := List.mem_map.mp hmem
      have := hlater inst hinst
      have : inst.binding = st.bindings.length := heq
      omega
    · rw [hinstalled] at hlength
      show st.bindings.length ≤ ((st.install claim).installAll claims).1.bindings.length
      omega
    · rw [List.forall_mem_cons]
      refine ⟨⟨le_rfl, ?_, ?_⟩, fun inst hinst => ⟨?_, (hheld inst hinst).2⟩⟩
      · show ((st.install claim).installAll claims).1.keyIdentities claim.registryId = _
        rw [hkeys _ fun other hother heq => hnodup.1 (List.mem_map.mpr ⟨other, hother, heq⟩)]
        exact Function.update_self ..
      · show ((st.install claim).installAll claims).1.bindings[st.bindings.length]? = _
        rw [hbindings _ fun inst hinst heq => by have := hlater inst hinst; omega]
        exact List.getElem?_concat_length
      · have := hlater inst hinst
        omega
    · intro id hid
      rw [List.forall_mem_cons] at hid
      show ((st.install claim).installAll claims).1.keyIdentities id = _
      rw [hkeys id hid.2]
      exact Function.update_of_ne (Ne.symm hid.1) ..
    · intro ref href
      rw [List.forall_mem_cons] at href
      show ((st.install claim).installAll claims).1.bindings[ref]? = _
      rw [hbindings ref href.2]
      show (st.bindings ++ [fresh claim])[ref]? = _
      rcases lt_or_ge ref st.bindings.length with hlt | hge
      · exact List.getElem?_append_left hlt
      · have hne : st.bindings.length ≠ ref := href.1
        rw [List.getElem?_eq_none hge, List.getElem?_eq_none]
        rw [List.length_append, List.length_singleton]
        omega

/-- A step that leaves the registry and the journal alone, of a call that owns nothing. -/
theorem Changes.quiet (hhere : st'.calls[c]? = some call)
    (hothers : ∀ c', c' ≠ c → st'.calls[c']? = st.calls[c']?)
    (hjournal : st'.journal = st.journal) (hkeys : st'.keyIdentities = st.keyIdentities)
    (hbindings : st'.bindings = st.bindings) (hnone : ∀ inst, ¬st.Owns c inst)
    (hphase : ∀ current remaining progress, call.phase ≠ .appending current remaining progress)
    (hcovered : call.phase = .returned → ∀ claim ∈ call.requested,
      st.DurableIn claim.registryId claim.identityHash)
    (hrequested : (∀ error, call.phase ≠ .threw error) →
      requestClaims hasher [] call.claims = .ok call.requested) :
    Changes hasher st st' c call := by
  have hinstalled : call.phase.installed = [] := by
    cases hcall : call.phase with
    | appending current remaining progress => exact absurd hcall (hphase current remaining progress)
    | waiting _ | returned | threw _ => rfl
  exact {
    here := hhere
    others := hothers
    journal := hjournal
    old := fun inst howns => absurd howns (hnone inst)
    new := fun inst hmem => absurd (hinstalled ▸ hmem) List.not_mem_nil
    keys := fun _ _ _ => congrFun hkeys _
    bindings := fun ref _ _ => by rw [hbindings]
    length := by rw [hbindings]
    distinct := by rw [hinstalled]; exact List.nodup_nil
    progress := fun current remaining progress h =>
      absurd h (hphase current remaining progress)
    covered := fun hactive claim hclaim => by
      right
      unfold DurableIn Holds
      rw [hkeys, hbindings]
      cases hcall : call.phase with
      | returned => exact hcovered hcall claim hclaim
      | appending current remaining progress =>
        exact absurd hcall (hphase current remaining progress)
      | waiting _ | threw _ =>
        rw [hcall] at hactive
        exact hactive.elim
    requested := hrequested }

/-- A turn of the loop by a call that owns nothing. -/
theorem turn_changes (hinv : RegistryInv hasher st) {claims : List (KeyClaim runId N)}
    {requested : List (RequestedClaim runId N)}
    (hrequested : requestClaims hasher [] claims = .ok requested)
    (hnone : ∀ inst, ¬st.Owns c inst)
    {next : KeyRegistry runId N × BindCall runId N}
    (hturn : st.turn ⟨claims, requested, .returned⟩ = next)
    (hhere : st'.calls[c]? = some next.2)
    (hothers : ∀ c', c' ≠ c → st'.calls[c']? = st.calls[c']?)
    (hjournal : st'.journal = next.1.journal) (hkeys : st'.keyIdentities = next.1.keyIdentities)
    (hbindings : st'.bindings = next.1.bindings) : Changes hasher st st' c next.2 := by
  unfold turn at hturn
  cases hinspect : st.inspect requested with
  | error error =>
    simp only [hinspect] at hturn
    subst hturn
    exact .quiet hhere hothers hjournal hkeys hbindings hnone nofun nofun
      fun h => absurd rfl (h error)
  | ok found =>
    obtain ⟨refs, additions⟩ := found
    obtain ⟨hsub, hunbound, hdurable⟩ := inspect_spec hinv.total hinspect
    cases refs with
    | cons ref refs =>
      simp only [hinspect] at hturn
      subst hturn
      exact .quiet hhere hothers hjournal hkeys hbindings hnone nofun nofun fun _ => hrequested
    | nil =>
      have hnodup : (additions.map RequestedClaim.registryId).Nodup :=
        (requested_nodup hrequested).sublist (hsub.map _)
      obtain ⟨hjournal', -, hclaims, hrefs, hlength, hheld, hkeys', hbindings'⟩ :=
        @installAll_spec runId N st additions hnodup
      simp only [hinspect] at hturn
      cases hinstall : st.installAll additions with
      | mk stInstalled installed =>
        simp only [hinstall] at hturn hjournal' hclaims hrefs hlength hheld hkeys' hbindings'
        cases installed with
        | nil =>
          -- nothing to install: the registry is the one before
          subst hturn
          obtain rfl : additions = [] := hclaims.symm
          obtain ⟨rfl, -⟩ := Prod.mk.inj hinstall
          exact .quiet hhere hothers hjournal hkeys hbindings hnone nofun
            (fun _ claim hclaim => (hdurable rfl claim hclaim).resolve_left List.not_mem_nil)
            fun _ => hrequested
        | cons current remaining =>
          subst hturn
          have hlate : ∀ id ref bound, st.Holds id ref bound → bound.state = .durable →
              st'.Holds id ref bound := by
            intro id ref bound hbound _
            have hlt := lt_length_of_getElem? hbound.2
            constructor
            · rw [hkeys]
              show stInstalled.keyIdentities id = _
              rw [hkeys' id]
              · exact hbound.1
              · intro claim hclaim heq
                have := hunbound claim hclaim
                rw [heq, hbound.1] at this
                exact absurd this nofun
            · rw [hbindings]
              show stInstalled.bindings[ref]? = _
              rw [hbindings' ref]
              · exact hbound.2
              · intro inst hinst heq
                have := (hheld inst hinst).1
                omega
          exact {
            here := hhere
            others := hothers
            journal := hjournal.trans hjournal'
            old := fun inst howns => absurd howns (hnone inst)
            new := fun inst hmem _ => by
              refine ⟨?_, (hheld inst hmem).1, ?_⟩
              · exact hunbound _ (hclaims ▸ List.mem_map_of_mem hmem)
              · unfold Holds
                rw [hkeys, hbindings]
                exact (hheld inst hmem).2
            keys := fun id _ hid => by
              rw [hkeys]
              refine hkeys' id fun claim hclaim => ?_
              rw [← hclaims] at hclaim
              obtain ⟨inst, hinst, rfl⟩ := List.mem_map.mp hclaim
              exact hid inst hinst
            bindings := fun ref _ href => by
              rw [hbindings]
              exact hbindings' ref href
            length := by rw [hbindings]; exact hlength
            distinct := hrefs
            progress := fun _ _ _ h => by cases h; rfl
            covered := fun _ claim hclaim => by
              rcases hdurable rfl claim hclaim with hmem | ⟨ref, bound, hbound, hstate, hhash⟩
              · rw [← hclaims] at hmem
                exact .inl (List.mem_map.mp hmem)
              · exact .inr ⟨ref, bound, hlate _ _ _ hbound hstate, hstate, hhash⟩
            requested := fun _ => hrequested }

-- ============================================================================
-- Appends
-- ============================================================================

omit [JsonNumber N] in
theorem getElem?_setCall_self (hcall : st.calls[c]? = some call) (new : BindCall runId N) :
    (st.setCall c new).calls[c]? = some new :=
  List.getElem?_set_self (lt_length_of_getElem? hcall)

omit [JsonNumber N] in
theorem getElem?_setCall_ne (new : BindCall runId N) (c' : Nat) (hc : c' ≠ c) :
    (st.setCall c new).calls[c']? = st.calls[c']? :=
  List.getElem?_set_ne hc.symm

section

variable {claims : List (KeyClaim runId N)} {requested : List (RequestedClaim runId N)}
  {current : Installed runId N} {remaining : List (Installed runId N)} {progress : AppendProgress}

omit [JsonNumber N] in
theorem owns_appending
    (hcall : st.calls[c]? = some ⟨claims, requested, .appending current remaining progress⟩)
    {inst : Installed runId N} : st.Owns c inst ↔ inst ∈ current :: remaining := by
  constructor
  · rintro ⟨call', hcall', hmem⟩
    rw [← Option.some.inj (hcall.symm.trans hcall')] at hmem
    exact hmem
  · exact fun hmem => ⟨_, hcall, hmem⟩

/-- Of the bindings that a call owns, the journal can only have the event of the current. -/
theorem written_owned (hinv : RegistryInv hasher st)
    (hcall : st.calls[c]? = some ⟨claims, requested, .appending current remaining progress⟩)
    {inst : Installed runId N} (howns : st.Owns c inst) (hwritten : st.Written inst.binding) :
    inst.binding = current.binding ∧ progress = .written := by
  obtain ⟨c', call', current', remaining', hcall', hphase, heq⟩ := hwritten
  have howns' : st.Owns c' current' :=
    ⟨call', hcall', hphase ▸ List.mem_cons_self⟩
  obtain rfl := hinv.owner c' c current' inst howns' howns heq
  obtain rfl := Option.some.inj (hcall.symm.trans hcall')
  cases hphase
  exact ⟨heq.symm, rfl⟩

theorem appended_changes (hinv : RegistryInv hasher st)
    (hcall : st.calls[c]? = some ⟨claims, requested, .appending current remaining .written⟩)
    {phase : BindPhase runId N} (hinstalled : phase.installed = remaining)
    (hqueued : ∀ current remaining progress,
      phase = .appending current remaining progress → progress = .queued) :
    Changes hasher st ((st.setBinding current.binding .resolved .durable).setCall c
      ⟨claims, requested, phase⟩) c ⟨claims, requested, phase⟩ := by
  have hrequested := hinv.requested c _ hcall (by rintro _ ⟨⟩)
  have hcurrent := hinv.owned c current ((owns_appending hcall).mpr List.mem_cons_self)
  have hnodup : current.binding ∉ remaining.map Installed.binding ∧
      (remaining.map Installed.binding).Nodup := List.nodup_cons.mp (hinv.distinct c _ hcall)
  have hne : ∀ inst ∈ remaining, inst.binding ≠ current.binding := fun inst hinst heq =>
    hnodup.1 (List.mem_map.mpr ⟨inst, hinst, heq⟩)
  have hdurable : ((st.setBinding current.binding .resolved .durable).setCall c
      ⟨claims, requested, phase⟩).Holds current.claim.registryId current.binding
      { fresh current.claim with ready := .resolved, state := .durable } := by
    refine ⟨hcurrent.1, ?_⟩
    show (st.setBinding current.binding .resolved .durable).bindings[_]? = _
    rw [getElem?_bindings_setBinding, if_pos rfl, hcurrent.2]
    rfl
  have hframe : ∀ ref, ref ≠ current.binding →
      (st.setBinding current.binding .resolved .durable).bindings[ref]? = st.bindings[ref]? := by
    intro ref href
    rw [getElem?_bindings_setBinding, if_neg href.symm]
  exact {
    here := getElem?_setCall_self hcall _
    others := getElem?_setCall_ne _
    journal := rfl
    old := fun inst howns => by
      rcases List.mem_cons.mp ((owns_appending hcall).mp howns) with rfl | hmem
      · refine .kept _ ?_ rfl hdurable.2 rfl (by rintro ⟨⟩) (by rintro ⟨⟩) (hinv.written c _ _ _ hcall rfl)
        rw [hinstalled]
        exact hne
      · refine .still (hinstalled.symm ▸ hmem) rfl (hframe _ (hne inst hmem)) fun hwritten => ?_
        exact hne inst hmem (written_owned hinv hcall howns hwritten).1
    new := fun inst hmem hnot => by
      rw [hinstalled] at hmem
      exact absurd ((owns_appending hcall).mpr (List.mem_cons_of_mem _ hmem)) hnot
    keys := fun _ _ _ => rfl
    bindings := fun ref hun _ =>
      hframe ref fun heq => hun current ((owns_appending hcall).mpr List.mem_cons_self) heq.symm
    length := by
      show _ ≤ (st.setBinding current.binding .resolved .durable).bindings.length
      rw [setBinding, List.length_modify]
    distinct := by
      rw [hinstalled]
      exact hnodup.2
    progress := hqueued
    covered := fun _ claim hclaim => by
      rcases hinv.covered c _ hcall trivial claim hclaim with ⟨inst, hmem, rfl⟩ | hbefore
      · rcases List.mem_cons.mp hmem with rfl | hmem
        · exact .inr ⟨inst.binding, _, hdurable, rfl, rfl⟩
        · exact .inl ⟨inst, hinstalled.symm ▸ hmem, rfl⟩
      · obtain ⟨ref, bound, hheld, hstate, hhash⟩ := hbefore
        refine .inr ⟨ref, bound, ⟨hheld.1, (hframe ref ?_).trans hheld.2⟩, hstate, hhash⟩
        -- the current binding was pending
        rintro rfl
        rw [Option.some.inj (hheld.2.symm.trans hcurrent.2)] at hstate
        exact absurd hstate (by rintro ⟨⟩)
    requested := fun _ => hrequested }

theorem failed_changes (hinv : RegistryInv hasher st)
    (hcall : st.calls[c]? = some ⟨claims, requested, .appending current remaining progress⟩)
    {error : BindError} {eventDurable : Bool}
    (htruthful : eventDurable = decide (progress = .written)) :
    Changes hasher st ((st.fail current remaining error eventDurable).setCall c
      ⟨claims, requested, .threw error⟩) c ⟨claims, requested, .threw error⟩ := by
  have howned : ∀ inst ∈ current :: remaining,
      st.Holds inst.claim.registryId inst.binding (fresh inst.claim) :=
    fun inst hmem => hinv.owned c inst ((owns_appending hcall).mpr hmem)
  have hdistinct : ((current :: remaining).map Installed.binding).Nodup := hinv.distinct c _ hcall
  have hnodup : current.binding ∉ remaining.map Installed.binding ∧
      (remaining.map Installed.binding).Nodup := List.nodup_cons.mp hdistinct
  have hne : ∀ inst ∈ remaining, inst.binding ≠ current.binding := fun inst hinst heq =>
    hnodup.1 (List.mem_map.mpr ⟨inst, hinst, heq⟩)
  have hrejected : ∀ inst : Installed runId N, ∀ bound,
      (st.bindings[inst.binding]?).map (fun bound => { bound with ready := .rejected error }) =
        some bound → bound.ready ≠ .pending := by
    intro inst bound hbound
    obtain ⟨_, -, rfl⟩ := Option.map_eq_some_iff.mp hbound
    exact nofun
  cases heventDurable : eventDurable with
  | false =>
    -- nothing of the call is in the journal: all of it is taken back
    obtain ⟨hcalls, hjournal, hlength, hgone, hkept, hmapped, hframe⟩ :=
      @discardAll_spec runId N st error (current :: remaining)
        (fun inst hmem => (howned inst hmem).1) hdistinct
    have hprogress : progress ≠ .written := by
      rintro rfl
      rw [heventDurable] at htruthful
      exact absurd htruthful nofun
    exact {
      here := by
        refine List.getElem?_set_self ?_
        show c < ((current :: remaining).foldl (fun st inst => st.discard error inst) st).calls.length
        rw [hcalls]
        exact lt_length_of_getElem? hcall
      others := fun c' hc => by
        rw [getElem?_setCall_ne _ c' hc]
        exact congrArg (fun calls => calls[c']?) hcalls
      journal := hjournal
      old := fun inst howns => by
        have hmem := (owns_appending hcall).mp howns
        exact .gone (fun _ h => absurd h List.not_mem_nil) (hgone inst hmem)
          (fun bound hbound => hrejected inst bound ((hmapped inst hmem).symm.trans hbound))
          fun hwritten => hprogress (written_owned hinv hcall howns hwritten).2
      new := fun _ h _ => absurd h List.not_mem_nil
      keys := fun id hid _ => hkept id fun inst hmem => hid inst ((owns_appending hcall).mpr hmem)
      bindings := fun ref href _ =>
        hframe ref fun inst hmem => href inst ((owns_appending hcall).mpr hmem)
      length := hlength.ge
      distinct := List.nodup_nil
      progress := nofun
      covered := fun h => h.elim
      requested := fun h => absurd rfl (h error) }
  | true =>
    -- the current binding stays, and says that its append failed
    have hprogress : progress = .written := by
      rw [heventDurable] at htruthful
      exact of_decide_eq_true htruthful.symm
    subst hprogress
    obtain ⟨hcalls, hjournal, hlength, hgone, hkept, hmapped, hframe⟩ :=
      @discardAll_spec runId N
        (st.setBinding current.binding (.rejected error) (.durableFailed error))
        error remaining (fun inst hmem => (howned inst (List.mem_cons_of_mem _ hmem)).1) hnodup.2
    have hsame : ∀ ref, ref ≠ current.binding →
        (st.setBinding current.binding (.rejected error) (.durableFailed error)).bindings[ref]? =
          st.bindings[ref]? := by
      intro ref href
      rw [getElem?_bindings_setBinding, if_neg href.symm]
    have hid : ∀ inst ∈ remaining, inst.claim.registryId ≠ current.claim.registryId := by
      intro inst hmem heq
      have h₁ := (howned inst (List.mem_cons_of_mem _ hmem)).1
      rw [heq, (howned current List.mem_cons_self).1] at h₁
      exact hne inst hmem (Option.some.inj h₁).symm
    exact {
      here := by
        refine List.getElem?_set_self ?_
        show c < (remaining.foldl (fun st inst => st.discard error inst) (st.setBinding
          current.binding (.rejected error) (.durableFailed error))).calls.length
        rw [hcalls]
        exact lt_length_of_getElem? hcall
      others := fun c' hc => by
        rw [getElem?_setCall_ne _ c' hc]
        exact congrArg (fun calls => calls[c']?) hcalls
      journal := hjournal
      old := fun inst howns => by
        rcases List.mem_cons.mp ((owns_appending hcall).mp howns) with rfl | hmem
        · refine .kept { fresh inst.claim with ready := .rejected error, state := .durableFailed error }
            (fun _ h => absurd h List.not_mem_nil) (hkept _ hid) ?_ rfl nofun nofun
            (hinv.written c _ _ _ hcall rfl)
          refine (hframe _ hne).trans ?_
          rw [getElem?_bindings_setBinding, if_pos rfl, (howned inst List.mem_cons_self).2]
          rfl
        · refine .gone (fun _ h => absurd h List.not_mem_nil) (hgone inst hmem) ?_ fun hwritten =>
            hne inst hmem (written_owned hinv hcall howns hwritten).1
          intro bound hbound
          have := (hmapped inst hmem).symm.trans hbound
          rw [hsame _ (hne inst hmem)] at this
          exact hrejected inst bound this
      new := fun _ h _ => absurd h List.not_mem_nil
      keys := fun id hun _ => hkept id fun inst hmem =>
        hun inst ((owns_appending hcall).mpr (List.mem_cons_of_mem _ hmem))
      bindings := fun ref hun _ => by
        refine (hframe ref fun inst hmem =>
          hun inst ((owns_appending hcall).mpr (List.mem_cons_of_mem _ hmem))).trans ?_
        exact hsame ref fun heq => hun current ((owns_appending hcall).mpr List.mem_cons_self) heq.symm
      length := by
        refine le_of_eq_of_le ?_ hlength.ge
        rw [setBinding, List.length_modify]
      distinct := List.nodup_nil
      progress := nofun
      covered := fun h => h.elim
      requested := fun h => absurd rfl (h error) }

omit [JsonNumber N] in
theorem keyBounds_append_keyBound (journal : List JournalEntry) (event : KeyBound) :
    keyBounds (journal ++ [.keyBound event]) = keyBounds journal ++ [event] :=
  List.filterMap_append

omit [JsonNumber N] in
theorem keyBounds_appendEntry_other (journal : List JournalEntry) (event : RlmEvent) :
    keyBounds (appendEntry journal (.other event)) = keyBounds journal := by
  unfold appendEntry
  split
  · rfl
  · rw [keyBounds, List.filterMap_append]
    exact List.append_nil _

/-- The journal takes the event of the current claim. -/
theorem handled_inv (hinv : RegistryInv hasher st)
    (hcall : st.calls[c]? = some ⟨claims, requested, .appending current remaining .queued⟩) :
    RegistryInv hasher { st.setCall c ⟨claims, requested, .appending current remaining .written⟩ with
      journal := st.journal ++ [.keyBound current.claim.event] } := by
  have hself := getElem?_setCall_self hcall ⟨claims, requested, .appending current remaining .written⟩
  -- the calls own what they owned
  have howns : ∀ c' inst, { st.setCall c
      ⟨claims, requested, .appending current remaining .written⟩ with
        journal := st.journal ++ [JournalEntry.keyBound current.claim.event] }.Owns c' inst ↔
      st.Owns c' inst := by
    intro c' inst
    by_cases hc : c' = c
    · subst hc
      constructor
      · rintro ⟨call', hcall', hmem⟩
        obtain rfl := Option.some.inj (hself.symm.trans hcall')
        exact ⟨_, hcall, hmem⟩
      · rintro ⟨call', hcall', hmem⟩
        obtain rfl := Option.some.inj (hcall.symm.trans hcall')
        exact ⟨_, hself, hmem⟩
    · unfold Owns
      show (∃ call, (st.setCall c _).calls[c']? = some call ∧ _) ↔ _
      rw [getElem?_setCall_ne _ c' hc]
  have hmono : ∀ id hash, st.Journaled id hash → { st.setCall c
      ⟨claims, requested, .appending current remaining .written⟩ with
        journal := st.journal ++ [JournalEntry.keyBound current.claim.event] }.Journaled id hash := by
    rintro id hash ⟨event, hevent, hid, hhash⟩
    refine ⟨event, ?_, hid, hhash⟩
    show event ∈ keyBounds (st.journal ++ [JournalEntry.keyBound current.claim.event])
    rw [keyBounds_append_keyBound]
    exact List.mem_append_left _ hevent
  -- a record of the changed call is the one before, up to its progress
  have hcases : ∀ c' call', (st.setCall c
      ⟨claims, requested, .appending current remaining .written⟩).calls[c']? = some call' →
      (c' = c ∧ call' = ⟨claims, requested, .appending current remaining .written⟩) ∨
        st.calls[c']? = some call' := by
    intro c' call' hcall'
    by_cases hc : c' = c
    · subst hc
      exact .inl ⟨rfl, Option.some.inj (hcall'.symm.trans hself)⟩
    · rw [getElem?_setCall_ne _ c' hc] at hcall'
      exact .inr hcall'
  exact {
    total := hinv.total
    injective := hinv.injective
    owned := fun c' inst h => hinv.owned c' inst ((howns c' inst).mp h)
    owner := fun c₁ c₂ i₁ i₂ h₁ h₂ heq =>
      hinv.owner c₁ c₂ i₁ i₂ ((howns c₁ i₁).mp h₁) ((howns c₂ i₂).mp h₂) heq
    distinct := fun c' call' hcall' => by
      rcases hcases c' call' hcall' with ⟨rfl, rfl⟩ | hbefore
      · have hbefore := hinv.distinct c' _ hcall
        exact hbefore
      · exact hinv.distinct c' call' hbefore
    pending := fun id ref bound hheld hstate => by
      obtain ⟨c', inst, h, heq⟩ := hinv.pending id ref bound hheld hstate
      exact ⟨c', inst, (howns c' inst).mpr h, heq⟩
    ready := fun ref bound hbound hready => by
      obtain ⟨c', inst, h, heq⟩ := hinv.ready ref bound hbound hready
      exact ⟨c', inst, (howns c' inst).mpr h, heq⟩
    journaled := fun id hash hjournaled => by
      obtain ⟨event, hevent, hid, rfl⟩ := hjournaled
      replace hevent : event ∈ keyBounds (st.journal ++ [JournalEntry.keyBound current.claim.event]) := hevent
      rw [keyBounds_append_keyBound] at hevent
      rcases List.mem_append.mp hevent with hbefore | hnew
      · obtain ⟨ref, bound, hheld, hhash, hwritten⟩ := hinv.journaled id _ ⟨event, hbefore, hid, rfl⟩
        refine ⟨ref, bound, hheld, hhash, fun hpending => ?_⟩
        obtain ⟨c', call', current', remaining', hcall', hphase, heq⟩ := hwritten hpending
        refine ⟨c', call', current', remaining', ?_, hphase, heq⟩
        refine (getElem?_setCall_ne _ c' ?_).trans hcall'
        rintro rfl
        obtain rfl := Option.some.inj (hcall.symm.trans hcall')
        exact absurd hphase nofun
      · obtain rfl := List.mem_singleton.mp hnew
        rw [recoveryKeyRegistryId_event] at hid
        obtain rfl := Except.ok.inj hid
        exact ⟨current.binding, _,
          hinv.owned c current ((owns_appending hcall).mpr List.mem_cons_self), rfl,
          fun _ => ⟨c, _, current, remaining, hself, rfl, rfl⟩⟩
    settled := fun id ref bound hheld hstate => hmono _ _ (hinv.settled id ref bound hheld hstate)
    written := fun c' call' current' remaining' hcall' hphase => by
      rcases hcases c' call' hcall' with ⟨rfl, rfl⟩ | hbefore
      · cases hphase
        refine ⟨current.claim.event, ?_, recoveryKeyRegistryId_event _, rfl⟩
        show current.claim.event ∈ keyBounds (st.journal ++ [JournalEntry.keyBound current.claim.event])
        rw [keyBounds_append_keyBound]
        exact List.mem_append_right _ List.mem_cons_self
      · exact hmono _ _ (hinv.written c' call' current' remaining' hbefore hphase)
    handled := fun c' call' current' remaining' hcall' => by
      rcases hcases c' call' hcall' with ⟨rfl, rfl⟩ | hbefore
      · exact nofun
      · exact hinv.handled c' call' current' remaining' hbefore
    covered := fun c' call' hcall' hactive => by
      rcases hcases c' call' hcall' with ⟨rfl, rfl⟩ | hbefore
      · have hbefore := hinv.covered c' _ hcall trivial
        exact hbefore
      · exact hinv.covered c' call' hbefore hactive
    requested := fun c' call' hcall' hphase => by
      rcases hcases c' call' hcall' with ⟨rfl, rfl⟩ | hbefore
      · have hbefore := hinv.requested c' _ hcall nofun
        exact hbefore
      · exact hinv.requested c' call' hbefore hphase }

/-- Only the bindings in the journal matter. -/
theorem RegistryInv.other (hinv : RegistryInv hasher st) (event : RlmEvent) :
    RegistryInv hasher { st with journal := appendEntry st.journal (.other event) } := by
  have hjournaled : ∀ id hash,
      { st with journal := appendEntry st.journal (.other event) }.Journaled id hash ↔
        st.Journaled id hash := by
    intro id hash
    unfold Journaled
    rw [keyBounds_appendEntry_other]
  exact { hinv with
    journaled := fun id hash h => hinv.journaled id hash ((hjournaled id hash).mp h)
    settled := fun id ref bound hheld hstate =>
      (hjournaled _ _).mpr (hinv.settled id ref bound hheld hstate)
    written := fun c call current remaining hcall hphase =>
      (hjournaled _ _).mpr (hinv.written c call current remaining hcall hphase) }

end

end KeyRegistry

end PiRlm.Runtime

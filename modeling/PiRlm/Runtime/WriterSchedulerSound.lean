/-
  PiRlm.Runtime.WriterSchedulerSound

  What excludes what in a writer scheduler.

  The scopes that are open form a tree under the one job that runs, so when that job has
  closed its scope nothing executes.  This rests on every scope waiting for what was
  started in it: the scheduler sees to it for `run`, and the caller has to for
  `runOwnedTransaction` and `runOwnedOperation`.
-/
import Mathlib
import PiRlm.Runtime.WriterScheduler

namespace PiRlm.Runtime

def CallStatus.live : CallStatus → Bool
  | .executing => true
  | .draining _ => true
  | _ => false

def CallStatus.isSettled : CallStatus → Bool
  | .settled _ => true
  | _ => false

namespace WriterScheduler

open PiRlm.Lib

/-! ## Scopes -/

/-- Scope in which the effect of a call runs. -/
def scopeOf (call : OwnedCall) : Option Nat :=
  match call.route with
  | .inline scope _ => some scope
  | _ => call.scope

/-- Scope in which the effect of a terminal transition runs. -/
def terminalScope (st : WriterScheduler) : Option Nat :=
  match st.transition with
  | .executing scope => some scope
  | .draining scope _ => some scope
  | _ => none

/-- Children of a scope. -/
def children (st : WriterScheduler) (scope : Nat) : List Nat :=
  ((st.scopes[scope]?).map WriterScope.children).getD []

/-- Every transaction and operation that was started inside the scope has settled. -/
def NestedSettled (st : WriterScheduler) (scope : Nat) : Prop :=
  ∀ (c : Nat) (call : OwnedCall), st.calls[c]? = some call →
    call.route = .inline scope false ∨ call.route = .operation scope →
      call.status.isSettled = true

/-- The scope that an event closes waits for its transactions and operations. -/
def AwaitsNested (st : WriterScheduler) : Event → Prop
  | .drained c => ∀ call scope, st.calls[c]? = some call → call.scope = some scope →
      st.NestedSettled scope
  | .terminalDrained => ∀ scope, st.terminalScope = some scope → st.NestedSettled scope
  | _ => True

instance (st : WriterScheduler) (scope : Nat) : Decidable (st.NestedSettled scope) :=
  decidable_of_iff (∀ call ∈ st.calls,
      call.route = .inline scope false ∨ call.route = .operation scope →
        call.status.isSettled = true)
    ⟨fun h _ call hcall => h call (List.mem_of_getElem? hcall), fun h call hmem =>
      have ⟨c, hcall⟩ := List.getElem?_of_mem hmem
      h c call hcall⟩

instance (st : WriterScheduler) : ∀ e, Decidable (st.AwaitsNested e)
  | .drained c =>
    match hcall : st.calls[c]? with
    | none => isTrue fun _ _ h => nomatch hcall.symm.trans h
    | some call =>
      decidable_of_iff (∀ scope ∈ call.scope, st.NestedSettled scope)
        ⟨fun h _ scope hother hscope => h scope
          (Option.some.inj (hcall.symm.trans hother) ▸ hscope), fun h scope => h call scope hcall⟩
  | .terminalDrained =>
    decidable_of_iff (∀ scope ∈ st.terminalScope, st.NestedSettled scope) Iff.rfl
  | .call _ _ | .terminal _ _ | .release _ | .start | .preFence _ _ | .settle _ _
  | .postFence _ _ | .releaseTransition _ | .terminalPreFence _ | .guard _ | .terminalSettle _
  | .handled => isTrue trivial

/-- A scope inside another one. -/
inductive Within (st : WriterScheduler) (outer : Nat) : Nat → Prop where
  | refl : Within st outer outer
  | operation {c parent scope : Nat} {call : OwnedCall} (hcall : st.calls[c]? = some call)
      (hroute : call.route = .operation parent) (hscope : call.scope = some scope)
      (hparent : Within st outer parent) : Within st outer scope

/-- A call whose effect runs in the scope: it was queued, or runs inside an older open scope. -/
def Opens (st : WriterScheduler) (scope : Nat) (call : OwnedCall) : Prop :=
  call.scope = some scope ∧ call.status.live = true ∧
    (call.route = .queued ∨
      ∃ parent, call.route = .operation parent ∧ parent < scope ∧ st.isOpen parent = true)

structure ScopeInv (st : WriterScheduler) : Prop where
  known : ∀ (c : Nat) (call : OwnedCall) (scope : Nat), st.calls[c]? = some call →
    call.scope = some scope ∨ (∃ tracked, call.route = .inline scope tracked) ∨
      call.route = .operation scope → scope < st.scopes.length
  unique : ∀ (c c' : Nat) (call call' : OwnedCall) (scope : Nat), st.calls[c]? = some call →
    st.calls[c']? = some call' → call.scope = some scope → call'.scope = some scope → c = c'
  terminalOnly : ∀ scope, st.terminalScope = some scope → scope < st.scopes.length ∧
    ∀ (c : Nat) (call : OwnedCall), st.calls[c]? = some call → call.scope ≠ some scope
  executing : ∀ (c : Nat) (call : OwnedCall), st.calls[c]? = some call →
    call.status = .executing → ∃ scope, scopeOf call = some scope ∧ st.isOpen scope = true
  unsettled : ∀ (c : Nat) (call : OwnedCall) (parent : Nat), st.calls[c]? = some call →
    call.route = .operation parent → call.status.isSettled = false → st.isOpen parent = true
  opened : ∀ scope, st.isOpen scope = true → st.terminalScope = some scope ∨
    ∃ (c : Nat) (call : OwnedCall), st.calls[c]? = some call ∧ st.Opens scope call
  tracked : ∀ (c : Nat) (call : OwnedCall) (scope : Nat), st.calls[c]? = some call →
    call.route = .inline scope true → c ∈ st.children scope
  inline : ∀ (c : Nat) (call : OwnedCall) (scope : Nat) (tracked : Bool),
    st.calls[c]? = some call → call.route = .inline scope tracked →
      (call.status = .executing ∨ call.status.isSettled = true) ∧ call.scope = none
  rejected : ∀ (c : Nat) (call : OwnedCall) (code : SchedulerErrorCode),
    st.calls[c]? = some call → call.route = .rejected code → call.status = .settled false

/-- Every open scope stands in the scope of a queued call or of a terminal transition. -/
theorem ScopeInv.root {st : WriterScheduler} (h : ScopeInv st) (scope : Nat)
    (hopen : st.isOpen scope = true) :
    (∃ root, st.terminalScope = some root ∧ st.Within root scope) ∨
      ∃ (c : Nat) (call : OwnedCall), st.calls[c]? = some call ∧ call.route = .queued ∧
        call.status.live = true := by
  induction scope using Nat.strong_induction_on with
  | _ scope ih =>
    rcases h.opened scope hopen with hterminal | ⟨c, call, hcall, hscope, hlive, hroute⟩
    · exact .inl ⟨scope, hterminal, .refl⟩
    · rcases hroute with hqueued | ⟨parent, hoperation, hlt, hparent⟩
      · exact .inr ⟨c, call, hcall, hqueued, hlive⟩
      · refine (ih parent hlt hparent).imp_left ?_
        rintro ⟨root, hroot, hwithin⟩
        exact ⟨root, hroot, .operation hcall hoperation hscope hwithin⟩

/-! ### Updates of the state -/

theorem isOpen_lt {st : WriterScheduler} {scope : Nat} (h : st.isOpen scope = true) :
    scope < st.scopes.length := by
  by_contra hge
  rw [isOpen, List.getElem?_eq_none (Nat.le_of_not_lt hge)] at h
  exact Bool.false_ne_true h

theorem getElem?_addCall {st : WriterScheduler} {route : Route} {status : CallStatus} {k : Nat}
    {call : OwnedCall} (h : (st.addCall route status).calls[k]? = some call) :
    st.calls[k]? = some call ∨
      k = st.calls.length ∧ call = { route, status, scope := none } := by
  rw [addCall, List.getElem?_append] at h
  split_ifs at h with hlt
  · exact .inl h
  · rw [List.getElem?_singleton] at h
    split_ifs at h with hk
    exact .inr ⟨by omega, (Option.some.inj h).symm⟩

theorem getElem?_setCall {st : WriterScheduler} {c : Nat} {old : OwnedCall} (new : OwnedCall)
    (hold : st.calls[c]? = some old) (k : Nat) :
    (st.setCall c new).calls[k]? = if k = c then some new else st.calls[k]? := by
  have hlt : c < st.calls.length := (List.getElem?_eq_some_iff.mp hold).1
  rw [setCall, List.getElem?_set]
  by_cases hk : k = c
  · subst hk
    rw [if_pos rfl, if_pos hlt, if_pos rfl]
  · rw [if_neg (Ne.symm hk), if_neg hk]

/-- A call of the updated state is the new one, or one of the old state. -/
theorem setCall_cases {st : WriterScheduler} {c : Nat} {old new : OwnedCall}
    (hold : st.calls[c]? = some old) {k : Nat} {call : OwnedCall}
    (h : (st.setCall c new).calls[k]? = some call) :
    k = c ∧ call = new ∨ k ≠ c ∧ st.calls[k]? = some call := by
  rw [getElem?_setCall new hold] at h
  split_ifs at h with hk
  · exact .inl ⟨hk, (Option.some.inj h).symm⟩
  · exact .inr ⟨hk, h⟩

theorem setCall_self {st : WriterScheduler} {c : Nat} {old : OwnedCall} (new : OwnedCall)
    (hold : st.calls[c]? = some old) : (st.setCall c new).calls[c]? = some new := by
  rw [getElem?_setCall new hold, if_pos rfl]

theorem setCall_ne {st : WriterScheduler} {c k : Nat} {old : OwnedCall} (new : OwnedCall)
    (hold : st.calls[c]? = some old) (hk : k ≠ c) :
    (st.setCall c new).calls[k]? = st.calls[k]? := by
  rw [getElem?_setCall new hold, if_neg hk]

theorem isOpen_closeScope (st : WriterScheduler) (closed scope : Nat) :
    (st.closeScope closed).isOpen scope = true ↔ st.isOpen scope = true ∧ scope ≠ closed := by
  rw [closeScope, isOpen, isOpen, List.getElem?_modify]
  by_cases h : closed = scope
  · cases st.scopes[scope]? <;> simp [h]
  · cases st.scopes[scope]? <;> simp [h, Ne.symm h]

theorem children_closeScope (st : WriterScheduler) (closed scope : Nat) :
    (st.closeScope closed).children scope = st.children scope := by
  rw [closeScope, children, children, List.getElem?_modify]
  split_ifs with h
  · cases st.scopes[scope]? <;> rfl
  · cases st.scopes[scope]? <;> rfl

/-- A scope for an effect that starts. -/
def openScope (st : WriterScheduler) : WriterScheduler :=
  { st with scopes := st.scopes ++ [{ isOpen := true, children := [] }] }

theorem isOpen_openScope (st : WriterScheduler) (scope : Nat) :
    st.openScope.isOpen scope = true ↔ st.isOpen scope = true ∨ scope = st.scopes.length := by
  rw [openScope, isOpen, isOpen, List.getElem?_append]
  split_ifs with hlt
  · exact (or_iff_left (by omega)).symm
  · rw [List.getElem?_eq_none (Nat.le_of_not_lt hlt), List.getElem?_singleton]
    split_ifs with hz
    · exact iff_of_true rfl (.inr (by omega))
    · refine iff_of_false Bool.false_ne_true ?_
      rintro (h | h)
      · cases h
      · omega

theorem children_openScope {st : WriterScheduler} {scope : Nat} (h : scope < st.scopes.length) :
    st.openScope.children scope = st.children scope := by
  rw [openScope, children, children, List.getElem?_append_left h]

/-- The invariant is about the calls, the scopes and the scope of a terminal transition. -/
theorem ScopeInv.congr {st st' : WriterScheduler} (h : ScopeInv st) (hcalls : st'.calls = st.calls)
    (hscopes : st'.scopes = st.scopes) (hterminal : st'.terminalScope = st.terminalScope) :
    ScopeInv st' := by
  have hopen : st'.isOpen = st.isOpen := by
    funext scope
    rw [isOpen, isOpen, hscopes]
  have hopens : st'.Opens = st.Opens := by
    funext scope call
    rw [Opens, Opens, hopen]
  have hchildren : st'.children = st.children := by
    funext scope
    rw [children, children, hscopes]
  constructor
  · rw [hcalls, hscopes]
    exact h.known
  · rw [hcalls]
    exact h.unique
  · rw [hcalls, hscopes, hterminal]
    exact h.terminalOnly
  · rw [hcalls, hopen]
    exact h.executing
  · rw [hcalls, hopen]
    exact h.unsettled
  · rw [hcalls, hopen, hopens, hterminal]
    exact h.opened
  · rw [hcalls, hchildren]
    exact h.tracked
  · rw [hcalls]
    exact h.inline
  · rw [hcalls]
    exact h.rejected

section

variable {st : WriterScheduler}

/-- A new call without a scope of its own. -/
theorem ScopeInv.addCall (h : ScopeInv st) {route : Route} {status : CallStatus}
    (hinline : ∀ scope tracked, route = .inline scope tracked → st.isOpen scope = true)
    (htracked : ∀ scope, route = .inline scope true → st.calls.length ∈ st.children scope)
    (hoperation : ∀ parent, route = .operation parent → st.isOpen parent = true)
    (hexecuting : status = .executing ↔ ∃ scope tracked, route = .inline scope tracked)
    (hrejected : ∀ code, route = .rejected code → status = .settled false) :
    ScopeInv (st.addCall route status) := by
  have hold : ∀ {c : Nat} {call : OwnedCall}, st.calls[c]? = some call →
      (st.addCall route status).calls[c]? = some call := fun hcall => by
    rw [WriterScheduler.addCall, List.getElem?_append_left (List.getElem?_eq_some_iff.mp hcall).1]
    exact hcall
  constructor
  · intro c call scope hcall hscope
    rcases getElem?_addCall hcall with hcall | ⟨-, rfl⟩
    · exact h.known c call scope hcall hscope
    · rcases hscope with hscope | ⟨tracked, hroute⟩ | hroute
      · cases hscope
      · exact isOpen_lt (hinline scope tracked hroute)
      · exact isOpen_lt (hoperation scope hroute)
  · intro c c' call call' scope hcall hcall' hscope hscope'
    rcases getElem?_addCall hcall with hcall | ⟨-, rfl⟩
    · rcases getElem?_addCall hcall' with hcall' | ⟨-, rfl⟩
      · exact h.unique c c' call call' scope hcall hcall' hscope hscope'
      · cases hscope'
    · cases hscope
  · intro scope hterminal
    obtain ⟨hlt, hnot⟩ := h.terminalOnly scope hterminal
    refine ⟨hlt, fun c call hcall => ?_⟩
    rcases getElem?_addCall hcall with hcall | ⟨-, rfl⟩
    · exact hnot c call hcall
    · exact nofun
  · intro c call hcall hstatus
    rcases getElem?_addCall hcall with hcall | ⟨-, rfl⟩
    · exact h.executing c call hcall hstatus
    · obtain ⟨scope, tracked, rfl⟩ := hexecuting.mp hstatus
      exact ⟨scope, rfl, hinline scope tracked rfl⟩
  · intro c call parent hcall hroute hunsettled
    rcases getElem?_addCall hcall with hcall | ⟨-, rfl⟩
    · exact h.unsettled c call parent hcall hroute hunsettled
    · exact hoperation parent hroute
  · intro scope hopen
    refine (h.opened scope hopen).imp_right ?_
    rintro ⟨c, call, hcall, hopens⟩
    exact ⟨c, call, hold hcall, hopens⟩
  · intro c call scope hcall hroute
    rcases getElem?_addCall hcall with hcall | ⟨rfl, rfl⟩
    · exact h.tracked c call scope hcall hroute
    · exact htracked scope hroute
  · intro c call scope tracked hcall hroute
    rcases getElem?_addCall hcall with hcall | ⟨-, rfl⟩
    · exact h.inline c call scope tracked hcall hroute
    · exact ⟨.inl (hexecuting.mpr ⟨scope, tracked, hroute⟩), rfl⟩
  · intro c call code hcall hroute
    rcases getElem?_addCall hcall with hcall | ⟨-, rfl⟩
    · exact h.rejected c call code hcall hroute
    · exact hrejected code hroute

/-- A call goes on within the same scope. -/
theorem ScopeInv.setCall (h : ScopeInv st) {c : Nat} {old : OwnedCall} {status : CallStatus}
    (hold : st.calls[c]? = some old) (hexecuting : status ≠ .executing)
    (hlive : (∃ scope, old.scope = some scope) → old.status.live = true → status.live = true)
    (hunsettled : old.status.isSettled = false)
    (hinline : ∀ scope tracked, old.route = .inline scope tracked → status.isSettled = true) :
    ScopeInv (st.setCall c { old with status }) := by
  constructor
  · intro k call scope hcall hscope
    rcases setCall_cases hold hcall with ⟨rfl, rfl⟩ | ⟨-, hcall⟩
    · exact h.known k old scope hold hscope
    · exact h.known k call scope hcall hscope
  · intro k k' call call' scope hcall hcall' hscope hscope'
    rcases setCall_cases hold hcall with ⟨rfl, rfl⟩ | ⟨-, hk⟩ <;>
      rcases setCall_cases hold hcall' with ⟨rfl, rfl⟩ | ⟨-, hk'⟩
    · rfl
    · exact h.unique _ _ old call' scope hold hk' hscope hscope'
    · exact h.unique _ _ call old scope hk hold hscope hscope'
    · exact h.unique _ _ call call' scope hk hk' hscope hscope'
  · intro scope hterminal
    obtain ⟨hlt, hnot⟩ := h.terminalOnly scope hterminal
    refine ⟨hlt, fun k call hcall => ?_⟩
    rcases setCall_cases hold hcall with ⟨rfl, rfl⟩ | ⟨-, hcall⟩
    · exact hnot k old hold
    · exact hnot k call hcall
  · intro k call hcall hstatus
    rcases setCall_cases hold hcall with ⟨rfl, rfl⟩ | ⟨-, hcall⟩
    · exact absurd hstatus hexecuting
    · exact h.executing k call hcall hstatus
  · intro k call parent hcall hroute hsettled
    rcases setCall_cases hold hcall with ⟨rfl, rfl⟩ | ⟨-, hcall⟩
    · exact h.unsettled k old parent hold hroute hunsettled
    · exact h.unsettled k call parent hcall hroute hsettled
  · intro scope hopen
    refine (h.opened scope hopen).imp_right ?_
    rintro ⟨k, call, hcall, hscope, hcallLive, hroute⟩
    by_cases hk : k = c
    · subst hk
      obtain rfl := Option.some.inj (hold.symm.trans hcall)
      exact ⟨k, _, setCall_self _ hold, hscope, hlive ⟨scope, hscope⟩ hcallLive, hroute⟩
    · exact ⟨k, call, (setCall_ne _ hold hk).trans hcall, hscope, hcallLive, hroute⟩
  · intro k call scope hcall hroute
    rcases setCall_cases hold hcall with ⟨rfl, rfl⟩ | ⟨-, hcall⟩
    · exact h.tracked k old scope hold hroute
    · exact h.tracked k call scope hcall hroute
  · intro k call scope tracked hcall hroute
    rcases setCall_cases hold hcall with ⟨rfl, rfl⟩ | ⟨-, hcall⟩
    · exact ⟨.inr (hinline scope tracked hroute), (h.inline k old scope tracked hold hroute).2⟩
    · exact h.inline k call scope tracked hcall hroute
  · intro k call code hcall hroute
    rcases setCall_cases hold hcall with ⟨rfl, rfl⟩ | ⟨-, hcall⟩
    · rw [h.rejected k old code hold hroute] at hunsettled
      cases hunsettled
    · exact h.rejected k call code hcall hroute

/-- A new scope that no call runs in yet, for the effect of a terminal transition. -/
theorem ScopeInv.startTerminal (h : ScopeInv st) (hterminal : st.terminalScope = none) :
    ScopeInv st.startTerminal := by
  have hcalls : st.startTerminal.calls = st.calls := rfl
  have hopen : ∀ scope, st.startTerminal.isOpen scope = true ↔
      st.isOpen scope = true ∨ scope = st.scopes.length := isOpen_openScope st
  have hnew : st.startTerminal.terminalScope = some st.scopes.length := rfl
  have hlength : st.startTerminal.scopes.length = st.scopes.length + 1 :=
    List.length_append
  constructor
  · intro c call scope hcall hscope
    have hlt := h.known c call scope hcall hscope
    omega
  · exact h.unique
  · intro scope hscope
    obtain rfl := Option.some.inj (hnew.symm.trans hscope)
    refine ⟨by omega, fun c call hcall hcallScope => ?_⟩
    exact Nat.lt_irrefl _ (h.known c call _ hcall (.inl hcallScope))
  · intro c call hcall hstatus
    obtain ⟨scope, hscope, hopened⟩ := h.executing c call hcall hstatus
    exact ⟨scope, hscope, (hopen scope).mpr (.inl hopened)⟩
  · intro c call parent hcall hroute hsettled
    exact (hopen parent).mpr (.inl (h.unsettled c call parent hcall hroute hsettled))
  · intro scope hscope
    rcases (hopen scope).mp hscope with hold | rfl
    · rcases h.opened scope hold with hterm | ⟨c, call, hcall, hown, hlive, hroute⟩
      · rw [hterminal] at hterm
        cases hterm
      · refine .inr ⟨c, call, hcall, hown, hlive, hroute.imp_right ?_⟩
        rintro ⟨parent, hoperation, hlt, hparent⟩
        exact ⟨parent, hoperation, hlt, (hopen parent).mpr (.inl hparent)⟩
    · exact .inl hnew
  · intro c call scope hcall hroute
    have hlt := h.known c call scope hcall (.inr (.inl ⟨true, hroute⟩))
    exact (children_openScope hlt).symm ▸ h.tracked c call scope hcall hroute
  · exact h.inline
  · exact h.rejected

/-- The effect of a fenced call starts in a new scope. -/
theorem ScopeInv.startFenced (h : ScopeInv st) {c : Nat} {old : OwnedCall}
    (hold : st.calls[c]? = some old) (hstatus : old.status = .preFence) :
    ScopeInv (st.openScope.setCall c
      { old with status := .executing, scope := some st.scopes.length }) := by
  have hold' : st.openScope.calls[c]? = some old := hold
  have hlength : st.openScope.scopes.length = st.scopes.length + 1 := List.length_append
  have hfenced : ∀ scope tracked, old.route ≠ .inline scope tracked := fun scope tracked hroute => by
    rcases (h.inline c old scope tracked hold hroute).1 with hexecuting | hsettled
    · rw [hstatus] at hexecuting
      cases hexecuting
    · rw [hstatus] at hsettled
      cases hsettled
  have hscopeOf : scopeOf { old with status := .executing, scope := some st.scopes.length } =
      some st.scopes.length := by
    rw [scopeOf]
    split
    · exact absurd ‹_› (hfenced _ _)
    · rfl
  have hopen : ∀ scope, (st.openScope.setCall c
      { old with status := .executing, scope := some st.scopes.length }).isOpen scope = true ↔
      st.isOpen scope = true ∨ scope = st.scopes.length := isOpen_openScope st
  constructor
  · intro k call scope hcall hscope
    show scope < st.openScope.scopes.length
    rcases setCall_cases hold' hcall with ⟨rfl, rfl⟩ | ⟨-, hcall⟩
    · rcases hscope with hscope | hroute
      · obtain rfl := Option.some.inj hscope
        omega
      · have hlt := h.known k old scope hold (.inr hroute)
        omega
    · have hlt := h.known k call scope hcall hscope
      omega
  · intro k k' call call' scope hcall hcall' hscope hscope'
    rcases setCall_cases hold' hcall with ⟨rfl, rfl⟩ | ⟨-, hk⟩ <;>
      rcases setCall_cases hold' hcall' with ⟨rfl, rfl⟩ | ⟨-, hk'⟩
    · rfl
    · obtain rfl := Option.some.inj hscope
      exact absurd (h.known k' call' _ hk' (.inl hscope')) (Nat.lt_irrefl _)
    · obtain rfl := Option.some.inj hscope'
      exact absurd (h.known k call _ hk (.inl hscope)) (Nat.lt_irrefl _)
    · exact h.unique _ _ call call' scope hk hk' hscope hscope'
  · intro scope hterminal
    obtain ⟨hlt, hnot⟩ := h.terminalOnly scope hterminal
    refine ⟨show scope < st.openScope.scopes.length by omega, fun k call hcall => ?_⟩
    rcases setCall_cases hold' hcall with ⟨rfl, rfl⟩ | ⟨-, hcall⟩
    · intro hscope
      obtain rfl := Option.some.inj hscope
      exact Nat.lt_irrefl _ hlt
    · exact hnot k call hcall
  · intro k call hcall hexecuting
    rcases setCall_cases hold' hcall with ⟨rfl, rfl⟩ | ⟨-, hcall⟩
    · exact ⟨_, hscopeOf, (hopen _).mpr (.inr rfl)⟩
    · obtain ⟨scope, hscope, hopened⟩ := h.executing k call hcall hexecuting
      exact ⟨scope, hscope, (hopen scope).mpr (.inl hopened)⟩
  · intro k call parent hcall hroute hsettled
    refine (hopen parent).mpr (.inl ?_)
    rcases setCall_cases hold' hcall with ⟨rfl, rfl⟩ | ⟨-, hcall⟩
    · exact h.unsettled k old parent hold hroute (by rw [hstatus]; rfl)
    · exact h.unsettled k call parent hcall hroute hsettled
  · intro scope hscope
    rcases (hopen scope).mp hscope with hopened | rfl
    · refine (h.opened scope hopened).imp_right ?_
      rintro ⟨k, call, hcall, hown, hlive, hroute⟩
      have hk : k ≠ c := by
        rintro rfl
        obtain rfl := Option.some.inj (hold.symm.trans hcall)
        rw [hstatus] at hlive
        cases hlive
      refine ⟨k, call, (setCall_ne _ hold' hk).trans hcall, hown, hlive, hroute.imp_right ?_⟩
      rintro ⟨parent, hoperation, hlt, hparent⟩
      exact ⟨parent, hoperation, hlt, (hopen parent).mpr (.inl hparent)⟩
    · refine .inr ⟨c, _, setCall_self _ hold', rfl, rfl, ?_⟩
      show old.route = .queued ∨ _
      cases hroute : old.route with
      | queued => exact .inl rfl
      | inline scope tracked => exact absurd hroute (hfenced scope tracked)
      | rejected code =>
        rw [h.rejected c old code hold hroute] at hstatus
        cases hstatus
      | operation parent =>
        have hparent := h.unsettled c old parent hold hroute (by rw [hstatus]; rfl)
        exact .inr ⟨parent, rfl, isOpen_lt hparent, (hopen parent).mpr (.inl hparent)⟩
  · intro k call scope hcall hroute
    rcases setCall_cases hold' hcall with ⟨rfl, rfl⟩ | ⟨-, hcall⟩
    · exact absurd hroute (hfenced scope true)
    · have hlt := h.known k call scope hcall (.inr (.inl ⟨true, hroute⟩))
      exact (children_openScope hlt).symm ▸ h.tracked k call scope hcall hroute
  · intro k call scope tracked hcall hroute
    rcases setCall_cases hold' hcall with ⟨rfl, rfl⟩ | ⟨-, hcall⟩
    · exact absurd hroute (hfenced scope tracked)
    · exact h.inline k call scope tracked hcall hroute
  · intro k call code hcall hroute
    rcases setCall_cases hold' hcall with ⟨rfl, rfl⟩ | ⟨-, hcall⟩
    · rw [h.rejected k old code hold hroute] at hstatus
      cases hstatus
    · exact h.rejected k call code hcall hroute

/-! ### Closing a scope -/

theorem mem_of_childrenSettled {scope : Nat} (h : st.childrenSettled scope = true) {c : Nat}
    (hmem : c ∈ st.children scope) {call : OwnedCall} (hcall : st.calls[c]? = some call) :
    call.status.isSettled = true := by
  have hchild := List.all_eq_true.mp h c hmem
  rw [hcall] at hchild
  split at hchild
  · rename_i heq
    obtain rfl := Option.some.inj heq
    rfl
  · cases hchild

/-- When the children, transactions and operations of a scope have settled, only the call that
    owns the scope can still execute in it, and no operation depends on it. -/
theorem ScopeInv.executing_owner (h : ScopeInv st) {scope : Nat}
    (hchildren : st.childrenSettled scope = true) (hnested : st.NestedSettled scope) {c : Nat}
    {call : OwnedCall} (hcall : st.calls[c]? = some call) (hstatus : call.status = .executing)
    (hscope : scopeOf call = some scope) : call.scope = some scope := by
  have hunsettled : call.status.isSettled ≠ true := by
    rw [hstatus]
    exact Bool.false_ne_true
  rw [scopeOf] at hscope
  split at hscope
  · rename_i own tracked hroute
    obtain rfl := Option.some.inj hscope
    cases tracked with
    | true =>
      exact absurd (mem_of_childrenSettled hchildren (h.tracked c call own hcall hroute) hcall)
        hunsettled
    | false => exact absurd (hnested c call hcall (.inl hroute)) hunsettled
  · exact hscope

theorem NestedSettled.parent_ne {scope : Nat} (hnested : st.NestedSettled scope) {c : Nat}
    {call : OwnedCall} {parent : Nat} (hcall : st.calls[c]? = some call)
    (hroute : call.route = .operation parent) (hsettled : call.status.isSettled = false) :
    parent ≠ scope := by
  rintro rfl
  rw [hnested c call hcall (.inr hroute)] at hsettled
  cases hsettled

theorem live_not_settled {status : CallStatus} (h : status.live = true) :
    status.isSettled = false := by
  cases status <;> first | rfl | cases h

/-- A fenced call closes its scope. -/
theorem ScopeInv.closeFenced (h : ScopeInv st) {c scope : Nat} {old : OwnedCall} {ok ok' : Bool}
    (hold : st.calls[c]? = some old) (hstatus : old.status = .draining ok)
    (hscope : old.scope = some scope) (hchildren : st.childrenSettled scope = true)
    (hnested : st.NestedSettled scope) :
    ScopeInv ((st.setCall c { old with status := .postFence ok' }).closeScope scope) := by
  have hopen := isOpen_closeScope (st.setCall c { old with status := .postFence ok' }) scope
  have hlength : ((st.setCall c { old with status := .postFence ok' }).closeScope
      scope).scopes.length = st.scopes.length := List.length_modify _ _ _
  constructor
  · intro k call s hcall hs
    rw [hlength]
    rcases setCall_cases hold hcall with ⟨rfl, rfl⟩ | ⟨-, hcall⟩
    · exact h.known k old s hold hs
    · exact h.known k call s hcall hs
  · intro k k' call call' s hcall hcall' hs hs'
    rcases setCall_cases hold hcall with ⟨rfl, rfl⟩ | ⟨-, hk⟩ <;>
      rcases setCall_cases hold hcall' with ⟨rfl, rfl⟩ | ⟨-, hk'⟩
    · rfl
    · exact h.unique _ _ old call' s hold hk' hs hs'
    · exact h.unique _ _ call old s hk hold hs hs'
    · exact h.unique _ _ call call' s hk hk' hs hs'
  · intro s hterminal
    obtain ⟨hlt, hnot⟩ := h.terminalOnly s hterminal
    refine ⟨hlength ▸ hlt, fun k call hcall => ?_⟩
    rcases setCall_cases hold hcall with ⟨rfl, rfl⟩ | ⟨-, hcall⟩
    · exact hnot k old hold
    · exact hnot k call hcall
  · intro k call hcall hexecuting
    rcases setCall_cases hold hcall with ⟨rfl, rfl⟩ | ⟨hk, hother⟩
    · cases hexecuting
    · obtain ⟨s, hs, hopened⟩ := h.executing k call hother hexecuting
      refine ⟨s, hs, (hopen s).mpr ⟨hopened, ?_⟩⟩
      rintro rfl
      have hown := h.executing_owner hchildren hnested hother hexecuting hs
      exact hk (h.unique k c call old s hother hold hown hscope)
  · intro k call parent hcall hroute hsettled
    rcases setCall_cases hold hcall with ⟨rfl, rfl⟩ | ⟨-, hcall⟩
    · have hunsettled : old.status.isSettled = false := by rw [hstatus]; rfl
      exact (hopen parent).mpr ⟨h.unsettled k old parent hold hroute hunsettled,
        hnested.parent_ne hold hroute hunsettled⟩
    · exact (hopen parent).mpr ⟨h.unsettled k call parent hcall hroute hsettled,
        hnested.parent_ne hcall hroute hsettled⟩
  · intro s hs
    obtain ⟨hopened, hne⟩ := (hopen s).mp hs
    refine (h.opened s hopened).imp_right ?_
    rintro ⟨k, call, hcall, hown, hlive, hroute⟩
    have hk : k ≠ c := by
      rintro rfl
      obtain rfl := Option.some.inj (hold.symm.trans hcall)
      exact hne (Option.some.inj (hown.symm.trans hscope))
    refine ⟨k, call, (setCall_ne _ hold hk).trans hcall, hown, hlive, hroute.imp_right ?_⟩
    rintro ⟨parent, hoperation, hlt, hparent⟩
    exact ⟨parent, hoperation, hlt, (hopen parent).mpr
      ⟨hparent, hnested.parent_ne hcall hoperation (live_not_settled hlive)⟩⟩
  · intro k call s hcall hroute
    rw [children_closeScope]
    rcases setCall_cases hold hcall with ⟨rfl, rfl⟩ | ⟨-, hcall⟩
    · exact h.tracked k old s hold hroute
    · exact h.tracked k call s hcall hroute
  · intro k call s tracked hcall hroute
    rcases setCall_cases hold hcall with ⟨rfl, rfl⟩ | ⟨-, hcall⟩
    · rcases (h.inline k old s tracked hold hroute).1 with hbad | hbad
      · rw [hstatus] at hbad
        cases hbad
      · rw [hstatus] at hbad
        cases hbad
    · exact h.inline k call s tracked hcall hroute
  · intro k call code hcall hroute
    rcases setCall_cases hold hcall with ⟨rfl, rfl⟩ | ⟨-, hcall⟩
    · rw [h.rejected k old code hold hroute] at hstatus
      cases hstatus
    · exact h.rejected k call code hcall hroute

/-- A terminal transition closes its scope. -/
theorem ScopeInv.closeTerminal (h : ScopeInv st) {scope : Nat}
    (hterminal : st.terminalScope = some scope) (hchildren : st.childrenSettled scope = true)
    (hnested : st.NestedSettled scope) (outcome : TransitionOutcome) :
    ScopeInv { st.closeScope scope with transition := .settled outcome } := by
  have hopen : ∀ s, ({ st.closeScope scope with
      transition := .settled outcome } : WriterScheduler).isOpen s = true ↔
      st.isOpen s = true ∧ s ≠ scope := isOpen_closeScope st scope
  have hlength : (st.closeScope scope).scopes.length = st.scopes.length := List.length_modify _ _ _
  obtain ⟨-, hnot⟩ := h.terminalOnly scope hterminal
  constructor
  · intro k call s hcall hs
    exact hlength.symm ▸ h.known k call s hcall hs
  · exact h.unique
  · exact nofun
  · intro k call hcall hexecuting
    obtain ⟨s, hs, hopened⟩ := h.executing k call hcall hexecuting
    refine ⟨s, hs, (hopen s).mpr ⟨hopened, ?_⟩⟩
    rintro rfl
    exact hnot k call hcall (h.executing_owner hchildren hnested hcall hexecuting hs)
  · intro k call parent hcall hroute hsettled
    exact (hopen parent).mpr ⟨h.unsettled k call parent hcall hroute hsettled,
      hnested.parent_ne hcall hroute hsettled⟩
  · intro s hs
    obtain ⟨hopened, hne⟩ := (hopen s).mp hs
    rcases h.opened s hopened with hterm | ⟨k, call, hcall, hown, hlive, hroute⟩
    · exact absurd (Option.some.inj (hterm.symm.trans hterminal)) hne
    · refine .inr ⟨k, call, hcall, hown, hlive, hroute.imp_right ?_⟩
      rintro ⟨parent, hoperation, hlt, hparent⟩
      exact ⟨parent, hoperation, hlt, (hopen parent).mpr
        ⟨hparent, hnested.parent_ne hcall hoperation (live_not_settled hlive)⟩⟩
  · intro k call s hcall hroute
    have hchild := children_closeScope st scope s
    exact hchild.symm ▸ h.tracked k call s hcall hroute
  · exact h.inline
  · exact h.rejected

/-! ### Steps -/

theorem ScopeInv.reject (h : ScopeInv st) (code : SchedulerErrorCode) :
    ScopeInv (st.reject code) := by
  refine ScopeInv.addCall h ?_ ?_ ?_ (iff_of_false ?_ ?_) ?_
  · exact nofun
  · exact nofun
  · exact nofun
  · exact nofun
  · exact nofun
  · exact fun _ _ => rfl

theorem ScopeInv.admitCall (h : ScopeInv st) : ScopeInv st.admitCall := by
  rw [WriterScheduler.admitCall]
  split_ifs
  · have hadd : ScopeInv (st.addCall .queued .waiting) := by
      refine ScopeInv.addCall h ?_ ?_ ?_ (iff_of_false ?_ ?_) ?_ <;> exact nofun
    exact hadd.congr rfl rfl rfl
  · exact h.reject .closed

theorem ScopeInv.addChild (h : ScopeInv st) (scope child : Nat) :
    ScopeInv { st with scopes := st.scopes.modify scope fun s =>
      { s with children := s.children ++ [child] } } := by
  have hopen : ∀ s, ({ st with scopes := st.scopes.modify scope fun s =>
      { s with children := s.children ++ [child] } } : WriterScheduler).isOpen s = st.isOpen s := by
    intro s
    rw [isOpen, isOpen, List.getElem?_modify]
    cases st.scopes[s]? with
    | none => rfl
    | some own =>
      show WriterScope.isOpen (if scope = s then _ else own) = own.isOpen
      split_ifs <;> rfl
  have hlength : (st.scopes.modify scope fun s =>
      { s with children := s.children ++ [child] }).length = st.scopes.length :=
    List.length_modify _ _ _
  constructor
  · intro c call s hcall hs
    exact hlength.symm ▸ h.known c call s hcall hs
  · exact h.unique
  · intro s hterminal
    exact hlength.symm ▸ h.terminalOnly s hterminal
  · intro c call hcall hstatus
    obtain ⟨s, hs, hopened⟩ := h.executing c call hcall hstatus
    exact ⟨s, hs, (hopen s).trans hopened⟩
  · intro c call parent hcall hroute hsettled
    exact (hopen parent).trans (h.unsettled c call parent hcall hroute hsettled)
  · intro s hs
    refine (h.opened s ((hopen s).symm.trans hs)).imp_right ?_
    rintro ⟨c, call, hcall, hown, hlive, hroute⟩
    refine ⟨c, call, hcall, hown, hlive, hroute.imp_right ?_⟩
    rintro ⟨parent, hoperation, hlt, hparent⟩
    exact ⟨parent, hoperation, hlt, (hopen parent).trans hparent⟩
  · intro c call s hcall hroute
    have hmem := h.tracked c call s hcall hroute
    rw [children] at hmem ⊢
    rw [List.getElem?_modify]
    cases hs : st.scopes[s]? with
    | none =>
      rw [hs] at hmem
      cases hmem
    | some own =>
      rw [hs] at hmem
      show c ∈ WriterScope.children (if scope = s then _ else own)
      split_ifs
      · exact List.mem_append_left _ hmem
      · exact hmem
  · exact h.inline
  · exact h.rejected

theorem mem_children_addChild {scope child : Nat} (h : st.isOpen scope = true) :
    child ∈ ({ st with scopes := st.scopes.modify scope fun s =>
      { s with children := s.children ++ [child] } } : WriterScheduler).children scope := by
  rw [children, List.getElem?_modify_eq]
  rw [isOpen] at h
  cases hs : st.scopes[scope]? with
  | none =>
    rw [hs] at h
    cases h
  | some own => exact List.mem_append_right _ (List.mem_singleton_self child)

theorem ScopeInv.nested (h : ScopeInv st) (method : OwnedMethod) {scope : Nat}
    (hopen : st.isOpen scope = true) : ScopeInv (st.nested method scope) := by
  cases method with
  | run =>
    have hchild := h.addChild scope st.calls.length
    have hopen' : ({ st with scopes := st.scopes.modify scope fun s =>
        { s with children := s.children ++ [st.calls.length] } } : WriterScheduler).isOpen scope =
        true := by
      rw [isOpen] at hopen ⊢
      rw [List.getElem?_modify_eq]
      cases hs : st.scopes[scope]? with
      | none =>
        rw [hs] at hopen
        cases hopen
      | some own =>
        rw [hs] at hopen
        exact hopen
    refine ScopeInv.addCall hchild (fun s tracked hroute => ?_) (fun s hroute => ?_) nofun
      (iff_of_true rfl ⟨scope, true, rfl⟩) nofun
    · obtain ⟨rfl, -⟩ := Route.inline.inj hroute
      exact hopen'
    · obtain ⟨rfl, -⟩ := Route.inline.inj hroute
      exact mem_children_addChild hopen
  | runOwnedTransaction =>
    refine h.addCall (fun s tracked hroute => ?_) (fun s hroute => ?_) nofun
      (iff_of_true rfl ⟨scope, false, rfl⟩) nofun
    · obtain ⟨rfl, -⟩ := Route.inline.inj hroute
      exact hopen
    · cases (Route.inline.inj hroute).2
  | runOwnedOperation =>
    refine h.addCall nofun nofun (fun parent hroute => ?_) (iff_of_false nofun nofun) nofun
    obtain rfl := Route.operation.inj hroute
    exact hopen

theorem ScopeInv.call (h : ScopeInv st) (method : OwnedMethod) (inherited : Inherited) :
    ScopeInv (st.call method inherited) := by
  cases inherited with
  | none => exact h.admitCall
  | foreign isOpen =>
    cases isOpen with
    | true => exact h.reject .lockOrder
    | false => exact h.admitCall
  | own scope =>
    rw [WriterScheduler.call]
    split_ifs with hopen
    · exact h.nested method hopen
    · exact h.admitCall

/-- `terminal` and `release` only set flags and add a job. -/
theorem terminal_same (guarded : Bool) (inherited : Inherited) :
    (st.terminal guarded inherited).1.calls = st.calls ∧
      (st.terminal guarded inherited).1.scopes = st.scopes ∧
      (st.terminal guarded inherited).1.transition = st.transition := by
  rw [terminal]
  split_ifs
  · exact ⟨rfl, rfl, rfl⟩
  · have henqueue : ∀ s : WriterScheduler, (terminal.enqueue guarded s).1.calls = s.calls ∧
        (terminal.enqueue guarded s).1.scopes = s.scopes ∧
        (terminal.enqueue guarded s).1.transition = s.transition := by
      intro s
      rw [terminal.enqueue]
      split_ifs <;> exact ⟨rfl, rfl, rfl⟩
    split
    · split_ifs
      · exact ⟨rfl, rfl, rfl⟩
      · exact henqueue _
    · exact henqueue _

theorem release_same (inherited : Inherited) :
    (st.release inherited).1.calls = st.calls ∧
      (st.release inherited).1.scopes = st.scopes ∧
      (st.release inherited).1.transition = st.transition := by
  rw [release]
  split_ifs
  · exact ⟨rfl, rfl, rfl⟩
  · have henqueue : ∀ s : WriterScheduler, (release.enqueue s).1.calls = s.calls ∧
        (release.enqueue s).1.scopes = s.scopes ∧
        (release.enqueue s).1.transition = s.transition := by
      intro s
      rw [release.enqueue]
      split_ifs <;> exact ⟨rfl, rfl, rfl⟩
    split
    · split_ifs
      · exact ⟨rfl, rfl, rfl⟩
      · exact henqueue _
    · exact henqueue _

theorem terminalScope_congr {st' : WriterScheduler} (h : st'.transition = st.transition) :
    st'.terminalScope = st.terminalScope := by
  rw [terminalScope, terminalScope, h]

theorem ScopeInv.settleFenced (h : ScopeInv st) {c : Nat} {call : OwnedCall} {ok : Bool}
    (hcall : st.calls[c]? = some call) (hlive : call.status.live = false)
    (hsettled : call.status.isSettled = false) : ScopeInv (st.settleFenced c call ok) := by
  have hset : ScopeInv (st.setCall c { call with status := .settled ok }) := h.setCall hcall nofun
    (fun _ hbad => absurd (hlive.symm.trans hbad) Bool.false_ne_true) hsettled (fun _ _ _ => rfl)
  rw [WriterScheduler.settleFenced]
  split_ifs
  · exact hset.congr rfl rfl rfl
  · exact hset

theorem ScopeInv.advance (h : ScopeInv st) {c : Nat} {call : OwnedCall} {e : Event}
    {st' : WriterScheduler} (hcall : st.calls[c]? = some call)
    (hnested : ∀ k scope, e = .drained k → call.scope = some scope → st.NestedSettled scope)
    (hstep : st.advance c call e = some st') : ScopeInv st' := by
  cases e with
  | preFence k ok =>
    rw [WriterScheduler.advance] at hstep
    split_ifs at hstep with hstatus hok
    · obtain rfl := Option.some.inj hstep
      exact h.startFenced hcall hstatus
    · obtain rfl := Option.some.inj hstep
      exact h.settleFenced hcall (by rw [hstatus]; rfl) (by rw [hstatus]; rfl)
  | settle k ok =>
    rw [WriterScheduler.advance] at hstep
    split_ifs at hstep with hstatus
    split at hstep
    · rename_i scope tracked hroute
      obtain rfl := Option.some.inj hstep
      have hnoScope : ¬∃ s, call.scope = some s := by
        rw [(h.inline c call scope tracked hcall hroute).2]
        exact nofun
      exact h.setCall hcall nofun (fun hs => absurd hs hnoScope) (by rw [hstatus]; rfl)
        fun _ _ _ => rfl
    · rename_i hroute
      obtain rfl := Option.some.inj hstep
      exact h.setCall hcall nofun (fun _ _ => rfl) (by rw [hstatus]; rfl)
        fun s tracked hinline => absurd hinline (hroute s tracked)
  | drained k =>
    rw [WriterScheduler.advance] at hstep
    split at hstep
    · rename_i ok scope hstatus hscope
      split_ifs at hstep with hchildren
      obtain rfl := Option.some.inj hstep
      exact h.closeFenced hcall hstatus hscope hchildren (hnested k scope rfl hscope)
    · cases hstep
  | postFence k ok =>
    rw [WriterScheduler.advance] at hstep
    split at hstep
    · rename_i primaryOk hstatus
      obtain rfl := Option.some.inj hstep
      exact h.settleFenced hcall (by rw [hstatus]; rfl) (by rw [hstatus]; rfl)
    · cases hstep
  | _ => cases hstep

theorem ScopeInv.guardTerminal (h : ScopeInv st) (hterminal : st.terminalScope = none)
    (guarded : Bool) : ScopeInv (st.guardTerminal guarded) := by
  rw [WriterScheduler.guardTerminal]
  split_ifs
  · exact h.congr rfl rfl hterminal.symm
  · exact h.startTerminal hterminal

theorem ScopeInv.start (h : ScopeInv st) {st' : WriterScheduler} (hstep : st.start = some st') :
    ScopeInv st' := by
  rw [WriterScheduler.start] at hstep
  split at hstep
  · cases hstep
  · split at hstep
    · rename_i c _ _ _ call hcall
      split_ifs at hstep with hstatus
      obtain rfl := Option.some.inj hstep
      refine h.setCall hcall nofun (fun _ hlive => ?_) (by rw [hstatus]; rfl) fun s tracked hinline => ?_
      · rw [hstatus] at hlive
        cases hlive
      · rcases (h.inline c call s tracked hcall hinline).1 with hbad | hbad
        · rw [hstatus] at hbad
          cases hbad
        · rw [hstatus] at hbad
          cases hbad
    · cases hstep
  · split_ifs at hstep with hwaiting
    obtain rfl := Option.some.inj hstep
    refine h.congr rfl rfl ?_
    rw [terminalScope, terminalScope, hwaiting]
  · rename_i guarded _ _
    split_ifs at hstep with hwaiting hprepared
    · obtain rfl := Option.some.inj hstep
      exact h.guardTerminal (by rw [terminalScope, hwaiting]) guarded
    · obtain rfl := Option.some.inj hstep
      refine h.congr rfl rfl ?_
      rw [terminalScope, terminalScope, hwaiting]

theorem handleTransition_same (job : Job) (outcome : TransitionOutcome) :
    (st.handleTransition job outcome).calls = st.calls ∧
      (st.handleTransition job outcome).scopes = st.scopes ∧
      (st.handleTransition job outcome).transition = .waiting := by
  cases job <;> cases outcome <;> exact ⟨rfl, rfl, rfl⟩

theorem ScopeInv.advanceTransition (h : ScopeInv st) {job : Job} {e : Event}
    {st' : WriterScheduler}
    (hnested : ∀ scope, e = .terminalDrained → st.terminalScope = some scope →
      st.NestedSettled scope)
    (hstep : st.advanceTransition job e = some st') : ScopeInv st' := by
  cases e with
  | releaseTransition ok =>
    rw [WriterScheduler.advanceTransition] at hstep
    split at hstep
    · rename_i htransition
      obtain rfl := Option.some.inj hstep
      refine h.congr rfl rfl ?_
      rw [terminalScope, terminalScope, htransition]
    · cases hstep
  | terminalPreFence ok =>
    cases job with
    | effect | release => cases hstep
    | terminal guarded =>
      rw [WriterScheduler.advanceTransition] at hstep
      split_ifs at hstep with htransition hok
      · obtain rfl := Option.some.inj hstep
        have hprepared : ScopeInv { st with terminalPrepared := true } := h.congr rfl rfl rfl
        refine hprepared.guardTerminal ?_ guarded
        show st.terminalScope = none
        rw [terminalScope, htransition]
      · obtain rfl := Option.some.inj hstep
        refine h.congr rfl rfl ?_
        rw [terminalScope, terminalScope, htransition]
  | guard ok =>
    rw [WriterScheduler.advanceTransition] at hstep
    split_ifs at hstep with htransition hok
    · obtain rfl := Option.some.inj hstep
      exact h.startTerminal (by rw [terminalScope, htransition])
    · obtain rfl := Option.some.inj hstep
      refine h.congr rfl rfl ?_
      rw [terminalScope, terminalScope, htransition]
  | terminalSettle ok =>
    rw [WriterScheduler.advanceTransition] at hstep
    split at hstep
    · rename_i scope htransition
      obtain rfl := Option.some.inj hstep
      refine h.congr rfl rfl ?_
      rw [terminalScope, terminalScope, htransition]
    · cases hstep
  | terminalDrained =>
    rw [WriterScheduler.advanceTransition] at hstep
    split at hstep
    · rename_i scope ok htransition
      split at hstep
      · rename_i hchildren
        obtain rfl := Option.some.inj hstep
        have hterminal : st.terminalScope = some scope := by
          rw [terminalScope, htransition]
        exact h.closeTerminal hterminal hchildren (hnested scope rfl hterminal) _
      · cases hstep
    · cases hstep
  | handled =>
    rw [WriterScheduler.advanceTransition] at hstep
    split at hstep
    · rename_i outcome htransition
      obtain rfl := Option.some.inj hstep
      obtain ⟨hcalls, hscopes, hwaiting⟩ := @handleTransition_same st job outcome
      refine h.congr hcalls hscopes ?_
      rw [terminalScope, terminalScope, hwaiting, htransition]
    · cases hstep
  | _ => cases hstep

/-- The scopes stay a tree when every scope waits for its transactions and operations. -/
theorem scopeInv_step (h : ScopeInv st) {e : Event} (hawaits : st.AwaitsNested e)
    {st' : WriterScheduler} (hstep : st.step e = some st') : ScopeInv st' := by
  cases e with
  | call method inherited =>
    obtain rfl := Option.some.inj hstep
    exact h.call method inherited
  | terminal guarded inherited =>
    obtain rfl := Option.some.inj hstep
    obtain ⟨hcalls, hscopes, htransition⟩ := @terminal_same st guarded inherited
    exact h.congr hcalls hscopes (terminalScope_congr htransition)
  | release inherited =>
    obtain rfl := Option.some.inj hstep
    obtain ⟨hcalls, hscopes, htransition⟩ := @release_same st inherited
    exact h.congr hcalls hscopes (terminalScope_congr htransition)
  | start => exact h.start hstep
  | preFence c ok =>
    obtain ⟨call, hcall, hadvance⟩ := Option.bind_eq_some_iff.mp hstep
    refine h.advance hcall ?_ hadvance
    exact nofun
  | settle c ok =>
    obtain ⟨call, hcall, hadvance⟩ := Option.bind_eq_some_iff.mp hstep
    refine h.advance hcall ?_ hadvance
    exact nofun
  | drained c =>
    obtain ⟨call, hcall, hadvance⟩ := Option.bind_eq_some_iff.mp hstep
    exact h.advance hcall (fun _ scope _ hscope => hawaits call scope hcall hscope) hadvance
  | postFence c ok =>
    obtain ⟨call, hcall, hadvance⟩ := Option.bind_eq_some_iff.mp hstep
    refine h.advance hcall ?_ hadvance
    exact nofun
  | releaseTransition ok =>
    obtain ⟨job, -, hadvance⟩ := Option.bind_eq_some_iff.mp hstep
    refine h.advanceTransition ?_ hadvance
    exact nofun
  | terminalPreFence ok =>
    obtain ⟨job, -, hadvance⟩ := Option.bind_eq_some_iff.mp hstep
    refine h.advanceTransition ?_ hadvance
    exact nofun
  | guard ok =>
    obtain ⟨job, -, hadvance⟩ := Option.bind_eq_some_iff.mp hstep
    refine h.advanceTransition ?_ hadvance
    exact nofun
  | terminalSettle ok =>
    obtain ⟨job, -, hadvance⟩ := Option.bind_eq_some_iff.mp hstep
    refine h.advanceTransition ?_ hadvance
    exact nofun
  | terminalDrained =>
    obtain ⟨job, -, hadvance⟩ := Option.bind_eq_some_iff.mp hstep
    exact h.advanceTransition (fun scope _ hterminal => hawaits scope hterminal) hadvance
  | handled =>
    obtain ⟨job, -, hadvance⟩ := Option.bind_eq_some_iff.mp hstep
    refine h.advanceTransition ?_ hadvance
    exact nofun

end

theorem no_calls_init {c : Nat} {call : OwnedCall} : init.calls[c]? ≠ some call :=
  fun h => nomatch h

theorem scopeInv_init : ScopeInv init where
  known _ _ _ h := absurd h no_calls_init
  unique _ _ _ _ _ h := absurd h no_calls_init
  terminalOnly _ h := nomatch h
  executing _ _ h := absurd h no_calls_init
  unsettled _ _ _ h := absurd h no_calls_init
  opened _ h := absurd h Bool.false_ne_true
  tracked _ _ _ h := absurd h no_calls_init
  inline _ _ _ _ h := absurd h no_calls_init
  rejected _ _ _ h := absurd h no_calls_init

end WriterScheduler

end PiRlm.Runtime

/-
  PiRlm.Runtime.ProviderAccounting

  Permits, leaf slots and token reservations over every interleaving of calls.

  Each is held by the calls in certain phases.  Inside a step a call may also hold some in
  hand: `Balanced` counts both.  A call in a phase gives up its share when the phase
  changes, and the shares in hand go to the new phase, to the ledger or to the semaphore.
-/
import Mathlib
import PiRlm.Lib.Tally
import PiRlm.Runtime.Provider

namespace PiRlm.Runtime

open PiRlm.Lib PiRlm.Core

variable {C : Type}

-- ============================================================================
-- What a call holds
-- ============================================================================

theorem CallEnd.authorized_of_declined {outcome : CallEnd} (h : outcome.declined = true) :
    outcome ≠ .unauthorized := by
  rintro rfl
  exact absurd h nofun

theorem CallEnd.converged_of_declined {outcome : CallEnd} (h : outcome.declined = true) :
    outcome ≠ .diverged := by
  rintro rfl
  exact absurd h nofun

namespace CallPhase

def permit : CallPhase C → Nat
  | .granted | .intending _ | .launched _ _ | .settling _ => 1
  | .waiting | .refused | .ended _ => 0

/-- A call that ends without authority keeps its leaf. -/
def leaf : CallPhase C → Nat
  | .intending _ | .launched _ _ | .settling _ | .ended .unauthorized => 1
  | .waiting | .granted | .refused | .ended _ => 0

/-- A call holds its token reservation from `reserve` to its settlement in the ledger. -/
def reserves : CallPhase C → Bool
  | .intending _ | .launched _ _ | .ended .unauthorized => true
  | .waiting | .granted | .refused | .settling _ | .ended _ => false

def inFlight : CallPhase C → Bool
  | .ended _ => false
  | _ => true

end CallPhase

namespace ProviderCall

def permit (call : ProviderCall C) : Nat := call.phase.permit

def leaf (call : ProviderCall C) : Nat := call.phase.leaf

def reservedTokens (call : ProviderCall C) : Nat := if call.phase.reserves then call.tokens else 0

theorem leaf_le_permit {call : ProviderCall C} (h : call.phase ≠ .ended .unauthorized) :
    call.leaf ≤ call.permit := by
  rw [leaf, permit]
  cases hphase : call.phase with
  | waiting | granted | refused => exact Nat.zero_le _
  | intending | launched | settling => exact le_rfl
  | ended outcome =>
    cases outcome with
    | unauthorized => exact absurd hphase h
    | threw | aborted | poisoned | appendFailed | diverged | settled => exact le_rfl

end ProviderCall

namespace Provider

/-- The calls in their phases, with what one call has in hand, account for the whole. -/
structure Balanced [CostNumber C] (st : Provider C) (permits leaves tokens : Nat) : Prop where
  waiting : ∀ c, c ∈ st.waiters ↔
    ∃ call : ProviderCall C, st.calls[c]? = some call ∧ call.phase = .waiting
  nodup : st.waiters.Nodup
  accounting : st.ledger.accountingOk = true
  permits : st.available + tally ProviderCall.permit st.calls + permits = st.capacity
  leaves : st.ledger.usage.activeLeafCalls = tally ProviderCall.leaf st.calls + leaves
  tokens : st.ledger.usage.tokensReserved = tally ProviderCall.reservedTokens st.calls + tokens

variable {st st' : Provider C} {c : Nat} {call : ProviderCall C} {phase : CallPhase C}
  {ws vs : List Nat}

theorem setPhase_calls (h : st.calls[c]? = some call) :
    (st.setPhase c phase).calls = st.calls.set c { call with phase } := by
  show st.calls.modify c _ = _
  rw [List.modify_eq_set_getElem?, h]
  rfl

theorem mem_setPhase (h : call ∈ (st.setPhase c phase).calls) :
    call ∈ st.calls ∨ call.phase = phase := by
  cases hc : st.calls[c]? with
  | none =>
    have hsame : (st.setPhase c phase).calls = st.calls := by
      show st.calls.modify c _ = _
      rw [List.modify_eq_set_getElem?, hc]
      rfl
    exact .inl (hsame ▸ h)
  | some call' =>
    rw [setPhase_calls hc] at h
    rcases List.mem_or_eq_of_mem_set h with hold | rfl
    · exact .inl hold
    · exact .inr rfl

/-- A call that is not the one whose phase changes. -/
theorem setPhase_calls_ne {d : Nat} (h : d ≠ c) :
    (st.setPhase c phase).calls[d]? = st.calls[d]? := by
  exact List.getElem?_modify_ne _ _ h.symm

-- ============================================================================
-- Calls that end
-- ============================================================================

/-- No step made out that the accounting diverged, or that its authority was gone. -/
structure Converged (st : Provider C) : Prop where
  concurrency : st.ledger.limits.maxConcurrency = st.capacity
  calls : st.authority = true →
    ∀ call ∈ st.calls, call.phase ≠ .ended .unauthorized ∧ call.phase ≠ .ended .diverged

namespace Converged

/-- The calls of a state are old ones or in phases that have converged. -/
theorem of_calls (h : Converged st) (hauthority : st'.authority = true → st.authority = true)
    (hlimits : st'.ledger.limits = st.ledger.limits) (hcapacity : st'.capacity = st.capacity)
    (hcalls : st.authority = true → ∀ call ∈ st'.calls, call ∈ st.calls ∨
      call.phase ≠ .ended .unauthorized ∧ call.phase ≠ .ended .diverged) : Converged st' := by
  refine ⟨?_, fun hopen call hmem => ?_⟩
  · rw [hlimits, hcapacity]
    exact h.concurrency
  · rcases hcalls (hauthority hopen) call hmem with hold | hnew
    · exact h.calls (hauthority hopen) call hold
    · exact hnew

theorem frame (h : Converged st) (hauthority : st'.authority = true → st.authority = true)
    (hlimits : st'.ledger.limits = st.ledger.limits) (hcapacity : st'.capacity = st.capacity)
    (hcalls : st'.calls = st.calls) : Converged st' :=
  h.of_calls hauthority hlimits hcapacity fun _ _ hmem => .inl (hcalls ▸ hmem)

theorem setPhase (h : Converged st) (hphase : st.authority = true →
    phase ≠ .ended .unauthorized ∧ phase ≠ .ended .diverged) : Converged (st.setPhase c phase) := by
  refine h.of_calls id rfl rfl fun hopen call hmem => ?_
  rcases mem_setPhase hmem with hold | hnew
  · exact .inl hold
  · exact .inr (hnew ▸ hphase hopen)

theorem concat (h : Converged st) (hunauthorized : call.phase ≠ .ended .unauthorized)
    (hdiverged : call.phase ≠ .ended .diverged) :
    Converged { st with calls := st.calls ++ [call] } := by
  refine h.of_calls id rfl rfl fun _ call' hmem => ?_
  rcases List.mem_append.mp hmem with hold | hnew
  · exact .inl hold
  · exact .inr (List.mem_singleton.mp hnew ▸ ⟨hunauthorized, hdiverged⟩)

theorem handOff (ws : List Nat) {st : Provider C} (h : Converged st) :
    Converged (handOff ws st) := by
  induction ws generalizing st with
  | nil => exact h.frame id rfl rfl rfl
  | cons c rest ih =>
    rw [Provider.handOff]
    split
    · exact ih (h.setPhase fun _ => ⟨by rintro ⟨⟩, by rintro ⟨⟩⟩)
    · have hgranted : Converged (st.setPhase c .granted) := h.setPhase fun _ => ⟨by rintro ⟨⟩, by rintro ⟨⟩⟩
      exact hgranted.frame id rfl rfl rfl

theorem abort (h : Converged st) (signal : Nat) : Converged (st.abort signal) := by
  let marked : Provider C := { st with aborted := signal :: st.aborted }
  have hfold : ∀ (us : List Nat) (st : Provider C), Converged st →
      Converged (us.foldl (fun st c => st.setPhase c .refused) st) := by
    intro us
    induction us with
    | nil => exact fun st h => h
    | cons c us ih => exact fun st h => ih _ (h.setPhase fun _ => ⟨nofun, nofun⟩)
  have hmarked : Converged marked := h.frame id rfl rfl rfl
  exact (hfold (st.waiters.filter marked.signalAborted) marked hmarked).frame id rfl rfl rfl

theorem acquire (h : Converged st) (aborted : Bool) : Converged (st.acquire call aborted) := by
  unfold Provider.acquire
  split
  · exact h.concat nofun nofun
  · split
    · have hgranted : Converged { st with calls := st.calls ++ [{ call with phase := .granted }] } :=
        h.concat nofun nofun
      exact hgranted.frame id rfl rfl rfl
    · have hwaiting : Converged { st with calls := st.calls ++ [{ call with phase := .waiting }] } :=
        h.concat nofun nofun
      exact hwaiting.frame id rfl rfl rfl

end Converged

variable [CostNumber C] {p p' l l' t t' : Nat}

-- ============================================================================
-- Changes of phase
-- ============================================================================

namespace Balanced

/-- A state with the same calls, queue and ledger. -/
theorem frame (h : Balanced st p l t) (hcalls : st'.calls = st.calls)
    (hwaiters : st'.waiters = st.waiters) (hledger : st'.ledger = st.ledger)
    (havailable : st'.available = st.available) (hcapacity : st'.capacity = st.capacity) :
    Balanced st' p l t := by
  constructor
  · rw [hcalls, hwaiters]
    exact h.waiting
  · rw [hwaiters]
    exact h.nodup
  · rw [hledger]
    exact h.accounting
  · rw [hcalls, havailable, hcapacity]
    exact h.permits
  · rw [hcalls, hledger]
    exact h.leaves
  · rw [hcalls, hledger]
    exact h.tokens

/-- A call changes its phase, and the queue loses at most that call. -/
theorem rephase (h : Balanced { st with waiters := ws } p l t) (hcall : st.calls[c]? = some call)
    (hwaiting : phase ≠ .waiting)
    (hnodup : vs.Nodup) (hqueue : ∀ d, d ∈ vs ↔ d ∈ ws ∧ d ≠ c)
    (hp : p + call.permit = p' + phase.permit) (hl : l + call.leaf = l' + phase.leaf)
    (ht : t + call.reservedTokens = t' + ProviderCall.reservedTokens { call with phase }) :
    Balanced { st.setPhase c phase with waiters := vs } p' l' t' := by
  have hcalls : (st.setPhase c phase).calls = _ := setPhase_calls hcall
  have hpermits := tally_set (f := ProviderCall.permit) (y := { call with phase }) hcall
  have hleaves := tally_set (f := ProviderCall.leaf) (y := { call with phase }) hcall
  have htokens := tally_set (f := ProviderCall.reservedTokens) (y := { call with phase }) hcall
  constructor
  · intro d
    show d ∈ vs ↔ ∃ call, (st.setPhase c phase).calls[d]? = some call ∧ call.phase = .waiting
    rw [hqueue d]
    by_cases hd : d = c
    · subst hd
      refine ⟨fun hin => absurd rfl hin.2, ?_⟩
      rintro ⟨call', hcall', hphase'⟩
      rw [hcalls, List.getElem?_set_self (List.getElem?_eq_some_iff.mp hcall).1] at hcall'
      obtain rfl := Option.some.inj hcall'
      exact absurd hphase' hwaiting
    · rw [setPhase_calls_ne hd]
      exact ⟨fun hin => (h.waiting d).mp hin.1, fun hin => ⟨(h.waiting d).mpr hin, hd⟩⟩
  · exact hnodup
  · exact h.accounting
  · have := h.permits
    show st.available + tally _ (st.setPhase c phase).calls + p' = st.capacity
    change st.available + tally _ st.calls + p = st.capacity at this
    change _ + call.permit = _ + phase.permit at hpermits
    rw [hcalls]
    omega
  · have := h.leaves
    show st.ledger.usage.activeLeafCalls = tally _ (st.setPhase c phase).calls + l'
    change st.ledger.usage.activeLeafCalls = tally _ st.calls + l at this
    change _ + call.leaf = _ + phase.leaf at hleaves
    rw [hcalls]
    omega
  · have := h.tokens
    show st.ledger.usage.tokensReserved = tally _ (st.setPhase c phase).calls + t'
    change st.ledger.usage.tokensReserved = tally _ st.calls + t at this
    rw [hcalls]
    omega

/-- A call that does not wait changes its phase. -/
theorem setPhase (h : Balanced st p l t) (hcall : st.calls[c]? = some call)
    (hold : call.phase ≠ .waiting) (hwaiting : phase ≠ .waiting)
    (hp : p + call.permit = p' + phase.permit) (hl : l + call.leaf = l' + phase.leaf)
    (ht : t + call.reservedTokens = t' + ProviderCall.reservedTokens { call with phase }) :
    Balanced (st.setPhase c phase) p' l' t' := by
  have hnotin : c ∉ st.waiters := by
    intro hin
    obtain ⟨call', hcall', hphase⟩ := (h.waiting c).mp hin
    obtain rfl := Option.some.inj (hcall.symm.trans hcall')
    exact hold hphase
  have hsame : Balanced { st with waiters := st.waiters } p l t := h
  show Balanced { st.setPhase c phase with waiters := st.waiters } p' l' t'
  exact hsame.rephase hcall hwaiting h.nodup
    (fun d => ⟨fun hin => ⟨hin, fun heq => hnotin (heq ▸ hin)⟩, And.left⟩) hp hl ht

/-- A waiting call leaves the queue, with a permit from the hand or without one. -/
theorem leaveQueue (h : Balanced { st with waiters := ws } p l t) (hc : c ∈ ws)
    (hphase : phase = .refused ∧ p' = p ∨ phase = .granted ∧ p = p' + 1)
    (hnodup : vs.Nodup) (hqueue : ∀ d, d ∈ vs ↔ d ∈ ws ∧ d ≠ c) :
    Balanced { st.setPhase c phase with waiters := vs } p' l t := by
  obtain ⟨call, hcall, hwaits⟩ := (h.waiting c).mp hc
  have hpermit : call.permit = 0 := by rw [ProviderCall.permit, hwaits]; rfl
  have hleaf : call.leaf = 0 := by rw [ProviderCall.leaf, hwaits]; rfl
  have htokens : call.reservedTokens = 0 := by rw [ProviderCall.reservedTokens, hwaits]; rfl
  rcases hphase with ⟨rfl, rfl⟩ | ⟨rfl, rfl⟩
  · exact h.rephase hcall nofun hnodup hqueue (by rw [hpermit]; rfl) (by rw [hleaf]; rfl)
      (by rw [htokens]; rfl)
  · exact h.rephase hcall nofun hnodup hqueue (by rw [hpermit]; rfl) (by rw [hleaf]; rfl)
      (by rw [htokens]; rfl)

/-- A new call that does not wait. -/
theorem concat (h : Balanced st p l t) (hwaiting : call.phase ≠ .waiting)
    (hp : p = p' + call.permit) (hl : l = l' + call.leaf) (ht : t = t' + call.reservedTokens) :
    Balanced { st with calls := st.calls ++ [call] } p' l' t' := by
  constructor
  · intro d
    show d ∈ st.waiters ↔ ∃ call', (st.calls ++ [call])[d]? = some call' ∧ call'.phase = .waiting
    rw [h.waiting d]
    constructor
    · rintro ⟨call', hcall', hphase⟩
      have hlt := (List.getElem?_eq_some_iff.mp hcall').1
      exact ⟨call', (List.getElem?_append_left hlt).trans hcall', hphase⟩
    · rintro ⟨call', hcall', hphase⟩
      rcases Nat.lt_or_ge d st.calls.length with hlt | hge
      · exact ⟨call', (List.getElem?_append_left hlt).symm.trans hcall', hphase⟩
      · rw [List.getElem?_append_right hge, List.getElem?_singleton] at hcall'
        split at hcall'
        · obtain rfl := Option.some.inj hcall'
          exact absurd hphase hwaiting
        · exact absurd hcall' nofun
  · exact h.nodup
  · exact h.accounting
  · have := h.permits
    show st.available + tally _ (st.calls ++ [call]) + p' = st.capacity
    rw [tally_concat]
    omega
  · have := h.leaves
    show st.ledger.usage.activeLeafCalls = tally _ (st.calls ++ [call]) + l'
    rw [tally_concat]
    omega
  · have := h.tokens
    show st.ledger.usage.tokensReserved = tally _ (st.calls ++ [call]) + t'
    rw [tally_concat]
    omega

/-- A new call that waits at the end of the queue. -/
theorem concat_waiting (h : Balanced st p l t) (hwaiting : call.phase = .waiting) :
    Balanced { st with waiters := st.waiters ++ [st.calls.length]
                       calls := st.calls ++ [call] } p l t := by
  have hfresh : st.calls.length ∉ st.waiters := by
    intro hin
    obtain ⟨call', hcall', -⟩ := (h.waiting _).mp hin
    exact absurd (List.getElem?_eq_some_iff.mp hcall').1 (lt_irrefl _)
  constructor
  · intro d
    show d ∈ st.waiters ++ [st.calls.length] ↔
      ∃ call', (st.calls ++ [call])[d]? = some call' ∧ call'.phase = .waiting
    rw [List.mem_append, List.mem_singleton, h.waiting d]
    constructor
    · rintro (⟨call', hcall', hphase⟩ | rfl)
      · have hlt := (List.getElem?_eq_some_iff.mp hcall').1
        exact ⟨call', (List.getElem?_append_left hlt).trans hcall', hphase⟩
      · exact ⟨call, List.getElem?_concat_length, hwaiting⟩
    · rintro ⟨call', hcall', hphase⟩
      rcases Nat.lt_or_ge d st.calls.length with hlt | hge
      · exact .inl ⟨call', (List.getElem?_append_left hlt).symm.trans hcall', hphase⟩
      · have hlt := (List.getElem?_eq_some_iff.mp hcall').1
        rw [List.length_append, List.length_singleton] at hlt
        exact .inr (Nat.le_antisymm (Nat.le_of_lt_succ hlt) hge)
  · exact List.Nodup.append h.nodup (List.nodup_singleton _)
      (List.disjoint_singleton.mpr hfresh)
  · exact h.accounting
  · have := h.permits
    show st.available + tally _ (st.calls ++ [call]) + p = st.capacity
    rw [tally_concat, ProviderCall.permit, hwaiting]
    exact this
  · have := h.leaves
    show st.ledger.usage.activeLeafCalls = tally _ (st.calls ++ [call]) + l
    rw [tally_concat, ProviderCall.leaf, hwaiting]
    exact this
  · have := h.tokens
    show st.ledger.usage.tokensReserved = tally _ (st.calls ++ [call]) + t
    rw [tally_concat, ProviderCall.reservedTokens, hwaiting]
    exact this

-- ============================================================================
-- The semaphore
-- ============================================================================

/-- A permit in hand goes to the queue or becomes available. -/
theorem handOff (ws : List Nat) {st : Provider C}
    (h : Balanced { st with waiters := ws } 1 l t) : Balanced (handOff ws st) 0 l t := by
  induction ws generalizing st with
  | nil =>
    refine ⟨h.waiting, h.nodup, h.accounting, ?_, h.leaves, h.tokens⟩
    have := h.permits
    show st.available + 1 + tally _ st.calls + 0 = st.capacity
    change st.available + tally _ st.calls + 1 = st.capacity at this
    omega
  | cons c rest ih =>
    have hnodup := List.nodup_cons.mp h.nodup
    have hqueue : ∀ d, d ∈ rest ↔ d ∈ c :: rest ∧ d ≠ c := fun d =>
      ⟨fun hin => ⟨List.mem_cons_of_mem c hin, fun heq => hnodup.1 (heq ▸ hin)⟩,
        fun hin => (List.mem_cons.mp hin.1).resolve_left hin.2⟩
    rw [Provider.handOff]
    split
    · exact ih (h.leaveQueue List.mem_cons_self (.inl ⟨rfl, rfl⟩) hnodup.2 hqueue)
    · exact h.leaveQueue List.mem_cons_self (.inr ⟨rfl, rfl⟩) hnodup.2 hqueue

theorem release (h : Balanced st 1 l t) : Balanced st.release 0 l t :=
  handOff st.waiters h

/-- Calls leave the queue one after the other without a permit. -/
theorem refuse (us : List Nat) {st : Provider C} {ws : List Nat}
    (h : Balanced { st with waiters := ws } p l t) (hsub : ∀ c ∈ us, c ∈ ws) (hus : us.Nodup)
    (hnodup : vs.Nodup) (hqueue : ∀ d, d ∈ vs ↔ d ∈ ws ∧ d ∉ us) :
    Balanced { us.foldl (fun st c => st.setPhase c .refused) st with waiters := vs } p l t := by
  induction us generalizing st ws with
  | nil =>
    refine ⟨fun d => ?_, hnodup, h.accounting, h.permits, h.leaves,
      h.tokens⟩
    exact (hqueue d).trans ((and_iff_left List.not_mem_nil).trans (h.waiting d))
  | cons c us ih =>
    have hus := List.nodup_cons.mp hus
    have hws : ws.Nodup := h.nodup
    have hstep : Balanced { st.setPhase c .refused with waiters := ws.erase c } p l t :=
      h.leaveQueue (hsub c List.mem_cons_self) (.inl ⟨rfl, rfl⟩) (hws.erase c)
        fun d => (hws.mem_erase_iff).trans and_comm
    refine ih hstep (fun d hd => ?_) hus.2 fun d => ?_
    · exact (hws.mem_erase_iff).mpr
        ⟨fun heq => hus.1 (heq ▸ hd), hsub d (List.mem_cons_of_mem c hd)⟩
    · rw [hqueue d, hws.mem_erase_iff, List.mem_cons, not_or]
      exact ⟨fun ⟨hin, hne, hnot⟩ => ⟨⟨hne, hin⟩, hnot⟩, fun ⟨⟨hne, hin⟩, hnot⟩ => ⟨hin, hne, hnot⟩⟩

theorem abort (h : Balanced st p l t) (signal : Nat) : Balanced (st.abort signal) p l t := by
  let marked : Provider C := { st with aborted := signal :: st.aborted }
  have hmarked : Balanced { marked with waiters := st.waiters } p l t :=
    h.frame rfl rfl rfl rfl rfl
  refine refuse (st.waiters.filter marked.signalAborted) hmarked
    (fun c hc => List.mem_of_mem_filter hc) (h.nodup.filter _) (h.nodup.filter _) fun d => ?_
  rw [List.mem_filter, List.mem_filter]
  cases marked.signalAborted d <;> simp

/-- A permit is taken from the semaphore, or the call waits for one. -/
theorem acquire (h : Balanced st 0 0 0) (aborted : Bool) :
    Balanced (st.acquire call aborted) 0 0 0 := by
  unfold Provider.acquire
  split
  · exact h.concat nofun rfl rfl rfl
  · split
    · rename_i havailable
      have htaken : Balanced { st with available := st.available - 1 } 1 0 0 := by
        refine ⟨h.waiting, h.nodup, h.accounting, ?_, h.leaves,
          h.tokens⟩
        have := h.permits
        show st.available - 1 + tally _ st.calls + 1 = st.capacity
        omega
      exact htaken.concat nofun rfl rfl rfl
    · exact h.concat_waiting rfl

-- ============================================================================
-- The ledger
-- ============================================================================

/-- An operation of the ledger changes what is in hand. -/
theorem withLedger {ledger : Ledger C} (h : Balanced st p l t)
    (haccounting : ledger.accountingOk = true)
    (hleaves : ledger.usage.activeLeafCalls + l = st.ledger.usage.activeLeafCalls + l')
    (htokens : ledger.usage.tokensReserved + t = st.ledger.usage.tokensReserved + t') :
    Balanced { st with ledger } p l' t' := by
  refine ⟨h.waiting, h.nodup, haccounting, h.permits, ?_, ?_⟩
  · have := h.leaves
    show ledger.usage.activeLeafCalls = tally _ st.calls + l'
    omega
  · have := h.tokens
    show ledger.usage.tokensReserved = tally _ st.calls + t'
    omega

theorem giveBack {tokens : Nat} (h : Balanced st p l (t + tokens)) :
    Balanced (st.giveBack tokens) p l t := by
  have hreserved : tokens ≤ st.ledger.usage.tokensReserved := by
    have := h.tokens
    omega
  obtain ⟨ledger, hsettled⟩ := Ledger.settleAttempt_zero h.accounting hreserved
  obtain ⟨-, haccounting, hledger⟩ := Ledger.settleAccounting_ok hsettled
  rw [Provider.giveBack, hsettled]
  refine h.withLedger haccounting (by rw [hledger]) ?_
  rw [hledger]
  show st.ledger.usage.tokensReserved - tokens + (t + tokens) = st.ledger.usage.tokensReserved + t
  omega

theorem releaseLeaf (h : Balanced st p (l + 1) t) :
    Balanced { st with ledger := st.ledger.releaseLeaf } p l t := by
  have := h.leaves
  refine h.withLedger h.accounting ?_ rfl
  show st.ledger.usage.activeLeafCalls - 1 + (l + 1) = st.ledger.usage.activeLeafCalls + l
  omega

theorem acquireLeaf {ledger : Ledger C} (h : Balanced st p l t)
    (hacquired : st.ledger.acquireLeaf = some ledger) : Balanced { st with ledger } p (l + 1) t := by
  obtain rfl := Ledger.acquireLeaf_some hacquired
  refine h.withLedger h.accounting ?_ rfl
  show st.ledger.usage.activeLeafCalls + 1 + l = st.ledger.usage.activeLeafCalls + (l + 1)
  omega

theorem addAccounting (h : Balanced st p l t) (o : Nat) (op : ModelOperation C)
    (usage : CallUsage C) : Balanced (st.addAccounting o op usage).1 p l t := by
  unfold Provider.addAccounting
  split
  · exact h
  · split
    · exact h
    · exact h.frame rfl rfl rfl rfl rfl

/-- Accounting gives the reservation back, whether it accepts the usage or not. -/
theorem accountUsage {tokens : Nat} (h : Balanced st p l (t + tokens)) (o : Nat)
    (op : ModelOperation C) (usage : CallUsage C) :
    Balanced (st.accountUsage o op tokens usage).1 p l t := by
  unfold Provider.accountUsage
  split
  · exact h.giveBack
  · rename_i ledger hsettled
    obtain ⟨hreserved, haccounting, hledger⟩ := Ledger.settleAccounting_ok hsettled
    refine addAccounting (h.withLedger haccounting (by rw [hledger]) ?_) o op usage
    rw [hledger]
    show st.ledger.usage.tokensReserved - tokens + (t + tokens) = st.ledger.usage.tokensReserved + t
    omega

theorem reserve {o tokens : Nat} {op : ModelOperation C} {now : Readings} {next : Provider C}
    {reservation : OperationReservation} (h : Balanced st p l t)
    (hreserve : st.reserve o op tokens now = .ok (next, reservation)) :
    Balanced next p l (t + tokens) := by
  obtain ⟨hsafe, rfl, -⟩ := reserve_ok hreserve
  have haccounting := Ledger.accountingOk_iff.mp h.accounting
  have hledger : Balanced { st with ledger := st.ledger.reserved op.logicalReserved tokens } p l
      (t + tokens) := by
    refine h.withLedger (Ledger.accountingOk_iff.mpr ⟨hsafe, haccounting.2⟩) rfl ?_
    show st.ledger.usage.tokensReserved + tokens + t = st.ledger.usage.tokensReserved + (t + tokens)
    omega
  exact hledger.frame rfl rfl rfl rfl rfl

/-- A call ends with a permit, and with a leaf and tokens if it has any. -/
theorem finish {tokens : Nat} {active : Bool} {outcome : CallEnd} (h : Balanced st p l t)
    (hcall : st.calls[c]? = some call) (hold : call.phase ≠ .waiting) (hp : p + call.permit = 1)
    (hl : l + call.leaf = (if active then 1 else 0) + (CallPhase.ended outcome : CallPhase C).leaf)
    (ht : t + call.reservedTokens =
      tokens + ({ call with phase := .ended outcome } : ProviderCall C).reservedTokens) :
    Balanced (st.finish c tokens active outcome) 0 0 0 := by
  have hended : Balanced (st.setPhase c (.ended outcome)) 1 (if active then 1 else 0) tokens :=
    h.setPhase hcall hold nofun hp hl ht
  rw [finish_eq]
  apply release
  have hgiven : Balanced ((st.setPhase c (.ended outcome)).settleUp tokens) 1
      (if active then 1 else 0) 0 := by
    unfold settleUp
    split
    · exact giveBack (by rw [Nat.zero_add]; exact hended)
    · obtain rfl : tokens = 0 := by omega
      exact hended
  cases active with
  | true => exact hgiven.releaseLeaf
  | false => exact hgiven

/-- A call that has its authority ends with nothing of the balance. -/
theorem finish_authorized {tokens : Nat} {active : Bool} {outcome : CallEnd}
    (h : Balanced st p l t) (hcall : st.calls[c]? = some call) (hold : call.phase ≠ .waiting)
    (houtcome : outcome ≠ .unauthorized) (hp : p + call.permit = 1)
    (hl : l + call.leaf = if active then 1 else 0) (ht : t + call.reservedTokens = tokens) :
    Balanced (st.finish c tokens active outcome) 0 0 0 := by
  cases outcome with
  | unauthorized => exact absurd rfl houtcome
  | threw | aborted | poisoned | appendFailed | diverged | settled =>
    exact h.finish hcall hold hp hl ht

end Balanced

-- ============================================================================
-- Steps
-- ============================================================================

theorem Balanced.reserved {o tokens : Nat} {op : ModelOperation C} {invocation : Invocation}
    {now : Readings} (h : Balanced st 0 0 0)
    (hcall : st.calls[c]? = some ⟨o, invocation, tokens, .granted⟩) :
    Balanced (st.reserved c o op invocation tokens now) 0 0 0 := by
  rcases reserved_cases st c o op invocation tokens now with
    ⟨outcome, hdeclined, heq⟩ | ⟨next, reservation, -, hreserve, hnext⟩
  · rw [heq]
    exact h.finish_authorized hcall nofun (CallEnd.authorized_of_declined hdeclined) rfl rfl rfl
  · have hreserved := h.reserve hreserve
    obtain ⟨-, rfl, -⟩ := reserve_ok hreserve
    rw [Nat.zero_add] at hreserved
    rcases hnext with ⟨-, heq⟩ | ⟨ledger, hacquired, ⟨outcome, hdeclined, -, heq⟩ | ⟨-, heq⟩⟩
    · rw [heq]
      exact hreserved.finish_authorized hcall nofun nofun rfl rfl rfl
    · rw [heq]
      exact (hreserved.acquireLeaf hacquired).finish_authorized hcall nofun
        (CallEnd.authorized_of_declined hdeclined) rfl rfl rfl
    · rw [heq]
      exact (hreserved.acquireLeaf hacquired).setPhase hcall nofun nofun rfl rfl
        (Nat.zero_add _).symm

theorem Balanced.begin {o : Nat} {invocation : Invocation} {now : Int} (h : Balanced st 0 0 0)
    (hstep : st.begin o invocation now = some st') : Balanced st' 0 0 0 := by
  rcases begin_cases hstep with ⟨outcome, hdeclined, rfl⟩ | ⟨tokens, aborted, rfl⟩
  · cases outcome with
    | unauthorized => exact absurd hdeclined nofun
    | threw | aborted | poisoned | appendFailed | diverged | settled =>
      exact h.concat nofun rfl rfl rfl
  · exact h.acquire _

theorem Balanced.acquired {now : Readings} (h : Balanced st 0 0 0)
    (hstep : st.acquired c now = some st') : Balanced st' 0 0 0 := by
  obtain ⟨o, invocation, tokens, op, -, ⟨hcall, rfl⟩ | ⟨outcome, hdeclined, hcall, rfl⟩⟩ :=
    acquired_cases hstep
  · exact h.reserved hcall
  · cases outcome with
    | unauthorized => exact absurd hdeclined nofun
    | threw | aborted | poisoned | appendFailed | diverged | settled =>
      exact h.setPhase hcall nofun nofun rfl rfl rfl

theorem Balanced.intentAppended {outcome : AppendOutcome} {now : Int} (h : Balanced st 0 0 0)
    (hstep : st.intentAppended c outcome now = some st') : Balanced st' 0 0 0 := by
  obtain ⟨o, invocation, tokens, intent, hcall, ⟨-, rfl⟩ | ⟨inJournal, -, rfl⟩⟩ :=
    intentAppended_cases hstep
  · have happended : Balanced (st.appendEvent (.intended intent) .committed) 0 0 0 :=
      h.frame rfl rfl rfl rfl rfl
    exact happended.setPhase hcall nofun nofun rfl rfl rfl
  · have hpoisoned : Balanced ((st.appendEvent (.intended intent) (.failed inJournal)).poison o)
        0 0 0 := by
      cases inJournal <;> exact h.frame rfl rfl rfl rfl rfl
    have hpoisonedCall : ((st.appendEvent (.intended intent) (.failed inJournal)).poison o).calls[c]? =
        some ⟨o, invocation, tokens, .intending intent⟩ := by
      cases inJournal <;> exact hcall
    exact hpoisoned.finish_authorized hpoisonedCall nofun nofun rfl rfl (Nat.zero_add _)

theorem Balanced.effectEnded {effect : Effect C} {now : Int} (h : Balanced st 0 0 0)
    (hstep : st.effectEnded c effect now = some st') : Balanced st' 0 0 0 := by
  obtain ⟨o, invocation, tokens, intent, startedMs, op, hcall, -,
    ⟨-, rfl⟩ | ⟨-, observation, -, rfl⟩⟩ := effectEnded_cases hstep
  · exact h.finish hcall nofun rfl rfl rfl
  · -- The phase changes first, so that the tokens are in hand when they are settled.
    let accounted := st.accountUsage o op tokens observation.usage
    have hphase : Balanced (st.setPhase c (.settling (settlement intent observation accounted.2)))
        0 0 (0 + tokens) :=
      h.setPhase hcall nofun nofun rfl rfl rfl
    have haccounted := hphase.accountUsage o op observation.usage
    rw [accountUsage_setPhase] at haccounted
    exact haccounted.frame rfl rfl rfl rfl rfl

theorem Balanced.settlementAppended {outcome : AppendOutcome} (h : Balanced st 0 0 0)
    (hstep : st.settlementAppended c outcome = some st') : Balanced st' 0 0 0 := by
  obtain ⟨o, invocation, tokens, event, hcall, ⟨-, rfl⟩ | ⟨inJournal, -, rfl⟩⟩ :=
    settlementAppended_cases hstep
  · have happended : Balanced (st.appendEvent (.settled event) .committed) 0 0 0 :=
      h.frame rfl rfl rfl rfl rfl
    exact happended.finish_authorized hcall nofun nofun rfl rfl rfl
  · have hpoisoned : Balanced ((st.appendEvent (.settled event) (.failed inJournal)).poison o)
        0 0 0 := by
      cases inJournal <;> exact h.frame rfl rfl rfl rfl rfl
    have hpoisonedCall : ((st.appendEvent (.settled event) (.failed inJournal)).poison o).calls[c]? =
        some ⟨o, invocation, tokens, .settling event⟩ := by
      cases inJournal <;> exact hcall
    exact hpoisoned.finish_authorized hpoisonedCall nofun nofun rfl rfl rfl

/-- Every step keeps the balance. -/
theorem Balanced.step {e : ProviderStep C} (h : Balanced st 0 0 0)
    (hstep : st.step e = some st') : Balanced st' 0 0 0 := by
  cases e with
  | create =>
    obtain rfl := Option.some.inj hstep
    exact h.frame rfl rfl rfl rfl rfl
  | «begin» => exact h.begin hstep
  | acquired => exact h.acquired hstep
  | intentAppended => exact h.intentAppended hstep
  | effectEnded => exact h.effectEnded hstep
  | settlementAppended => exact h.settlementAppended hstep
  | abort signal =>
    obtain rfl := Option.some.inj hstep
    exact h.abort signal
  | closeAuthority =>
    obtain rfl := Option.some.inj hstep
    exact h.frame rfl rfl rfl rfl rfl
  | otherUsage =>
    obtain rfl := Option.some.inj hstep
    exact h.withLedger h.accounting rfl rfl
  | frameEvent =>
    obtain rfl := Option.some.inj hstep
    exact h.frame rfl rfl rfl rfl rfl

-- ============================================================================
-- Calls that end under authority
-- ============================================================================

namespace Converged

theorem settleUp {tokens : Nat} (h : Converged st) : Converged (st.settleUp tokens) := by
  unfold Provider.settleUp Provider.giveBack
  split
  · split
    · rename_i ledger hsettled
      obtain ⟨-, -, hledger⟩ := Ledger.settleAccounting_ok hsettled
      exact h.frame id (by rw [hledger]) rfl rfl
    · exact h
  · exact h

theorem finish {tokens : Nat} {active : Bool} {outcome : CallEnd} (h : Converged st)
    (houtcome : st.authority = true → outcome ≠ .unauthorized ∧ outcome ≠ .diverged) :
    Converged (st.finish c tokens active outcome) := by
  rw [finish_eq]
  have hended : Converged ((st.setPhase c (.ended outcome)).settleUp tokens) :=
    settleUp (h.setPhase fun hopen => ⟨fun heq => (houtcome hopen).1 (CallPhase.ended.inj heq),
      fun heq => (houtcome hopen).2 (CallPhase.ended.inj heq)⟩)
  cases active with
  | true => exact handOff _ (hended.frame id rfl rfl rfl)
  | false => exact handOff _ hended

/-- A granted call under authority always acquires a leaf. -/
theorem acquireLeaf (h : Converged st) (hbalanced : Balanced st 0 0 t)
    (hauthority : st.authority = true) (hcall : st.calls[c]? = some call)
    (hgranted : call.phase = .granted) : st.ledger.acquireLeaf ≠ none := by
  have hlt : tally ProviderCall.leaf st.calls < tally ProviderCall.permit st.calls := by
    apply tally_lt_tally (fun call hmem => ProviderCall.leaf_le_permit (h.calls hauthority call hmem).1)
      hcall
    rw [ProviderCall.leaf, ProviderCall.permit, hgranted]
    exact Nat.zero_lt_one
  have hroom : ¬ st.ledger.limits.maxConcurrency < st.ledger.usage.activeLeafCalls + 1 := by
    have := hbalanced.leaves
    have := hbalanced.permits
    rw [h.concurrency]
    omega
  rw [Ledger.acquireLeaf, if_neg hroom]
  exact nofun

theorem finish_declined {tokens : Nat} {active : Bool} {outcome : CallEnd} (h : Converged st)
    (houtcome : outcome.declined = true) : Converged (st.finish c tokens active outcome) :=
  h.finish fun _ => ⟨CallEnd.authorized_of_declined houtcome, CallEnd.converged_of_declined houtcome⟩

theorem accountUsage {o tokens : Nat} {op : ModelOperation C} {usage : CallUsage C}
    (h : Converged st) : Converged (st.accountUsage o op tokens usage).1 := by
  unfold Provider.accountUsage Provider.giveBack Provider.addAccounting
  split
  · split
    · rename_i ledger hsettled
      obtain ⟨-, -, hledger⟩ := Ledger.settleAccounting_ok hsettled
      exact h.frame id (by rw [hledger]) rfl rfl
    · exact h
  · rename_i ledger hsettled
    obtain ⟨-, -, hledger⟩ := Ledger.settleAccounting_ok hsettled
    have hlimits : ledger.limits = st.ledger.limits := by rw [hledger]
    split
    · exact h.frame id hlimits rfl rfl
    · split
      · exact h.frame id hlimits rfl rfl
      · exact h.frame id hlimits rfl rfl

theorem reserved {o tokens : Nat} {op : ModelOperation C} {invocation : Invocation}
    {now : Readings} (h : Converged st) (hbalanced : Balanced st 0 0 0)
    (hcall : st.calls[c]? = some ⟨o, invocation, tokens, .granted⟩) :
    Converged (st.reserved c o op invocation tokens now) := by
  rcases reserved_cases st c o op invocation tokens now with
    ⟨outcome, hdeclined, heq⟩ | ⟨next, reservation, -, hreserve, hnext⟩
  · rw [heq]
    exact h.finish_declined hdeclined
  · have hreserved := hbalanced.reserve hreserve
    obtain ⟨-, rfl, -⟩ := reserve_ok hreserve
    have hconverged : Converged { st with
        ledger := st.ledger.reserved op.logicalReserved tokens
        operations := st.operations.set o
          { op with logicalReserved := true, attemptOrdinal := op.attemptOrdinal + 1 }
        operationAttempts := Function.update st.operationAttempts
          (attemptKey op.frame.frameId op.operationId) (some (op.attemptOrdinal + 1)) } :=
      h.frame id rfl rfl rfl
    rcases hnext with ⟨hsaturated, heq⟩ | ⟨ledger, hacquired, hrefusal⟩
    · rw [heq]
      exact hconverged.finish fun hopen =>
        absurd hsaturated (hconverged.acquireLeaf hreserved hopen hcall rfl)
    · have hleaf : ledger.limits = st.ledger.limits := by
        rw [Ledger.acquireLeaf_some hacquired]
        rfl
      rcases hrefusal with ⟨outcome, hdeclined, -, heq⟩ | ⟨-, heq⟩
      · rw [heq]
        exact finish_declined (hconverged.frame id hleaf rfl rfl) hdeclined
      · rw [heq]
        exact setPhase (hconverged.frame id hleaf rfl rfl) fun _ => ⟨nofun, nofun⟩

omit [CostNumber C] in
theorem declined {outcome : CallEnd} (hdeclined : outcome.declined = true) :
    (CallPhase.ended outcome : CallPhase C) ≠ .ended .unauthorized ∧
      (CallPhase.ended outcome : CallPhase C) ≠ .ended .diverged :=
  ⟨fun heq => CallEnd.authorized_of_declined hdeclined (CallPhase.ended.inj heq),
    fun heq => CallEnd.converged_of_declined hdeclined (CallPhase.ended.inj heq)⟩

theorem step {e : ProviderStep C} (h : Converged st) (hbalanced : Balanced st 0 0 0)
    (hstep : st.step e = some st') : Converged st' := by
  cases e with
  | create | otherUsage | frameEvent =>
    obtain rfl := Option.some.inj hstep
    exact h.frame id rfl rfl rfl
  | «begin» =>
    rcases begin_cases hstep with ⟨outcome, hdeclined, rfl⟩ | ⟨tokens, aborted, rfl⟩
    · exact h.concat (declined hdeclined).1 (declined hdeclined).2
    · exact h.acquire _
  | acquired c now =>
    obtain ⟨o, invocation, tokens, op, -, ⟨hcall, rfl⟩ | ⟨outcome, hdeclined, hcall, rfl⟩⟩ :=
      acquired_cases hstep
    · exact h.reserved hbalanced hcall
    · exact h.setPhase fun _ => declined hdeclined
  | intentAppended c outcome now =>
    obtain ⟨o, invocation, tokens, intent, hcall, ⟨-, rfl⟩ | ⟨inJournal, -, rfl⟩⟩ :=
      intentAppended_cases hstep
    · have happended : Converged (st.appendEvent (.intended intent) .committed) :=
        h.frame id rfl rfl rfl
      exact happended.setPhase fun _ => ⟨nofun, nofun⟩
    · refine finish ?_ fun _ => ⟨nofun, nofun⟩
      cases inJournal <;> exact h.frame id rfl rfl rfl
  | effectEnded c effect now =>
    obtain ⟨o, invocation, tokens, intent, startedMs, op, hcall, hop,
      ⟨hclosed, rfl⟩ | ⟨hopen, observation, -, rfl⟩⟩ := effectEnded_cases hstep
    · exact h.finish fun hopen => absurd (hclosed.symm.trans hopen) nofun
    · let accounted := st.accountUsage o op tokens observation.usage
      have hsettling : Converged
          (accounted.1.setPhase c (.settling (settlement intent observation accounted.2))) :=
        (accountUsage h).setPhase fun _ => ⟨nofun, nofun⟩
      exact hsettling.frame id rfl rfl rfl
  | settlementAppended c outcome =>
    obtain ⟨o, invocation, tokens, event, hcall, ⟨-, rfl⟩ | ⟨inJournal, -, rfl⟩⟩ :=
      settlementAppended_cases hstep
    · exact finish (h.frame id rfl rfl rfl) fun _ => ⟨nofun, nofun⟩
    · refine finish ?_ fun _ => ⟨nofun, nofun⟩
      cases inJournal <;> exact h.frame id rfl rfl rfl
  | abort signal =>
    obtain rfl := Option.some.inj hstep
    exact h.abort signal
  | closeAuthority =>
    obtain rfl := Option.some.inj hstep
    exact h.frame nofun rfl rfl rfl

end Converged

-- ============================================================================
-- Runs
-- ============================================================================

/-- A ledger with well-formed accounting and nothing reserved: a new one, or a recovered one. -/
structure Resting (ledger : Ledger C) (profile : ProviderProfile) : Prop where
  accounting : ledger.accountingOk = true
  leaves : ledger.usage.activeLeafCalls = 0
  tokens : ledger.usage.tokensReserved = 0
  concurrency : ledger.limits.maxConcurrency = profile.maxConcurrency

theorem resting_createLedger {limits : BudgetLimits} {profile : ProviderProfile}
    (h : limits.maxConcurrency = profile.maxConcurrency) :
    Resting (createLedger (C := C) limits) profile := by
  refine ⟨Ledger.accountingOk_iff.mpr ?_, rfl, rfl, h⟩
  exact ⟨Nat.zero_le _, Nat.zero_le _, Nat.zero_le _, Nat.zero_le _, CostNumber.isFinite_zero,
    CostNumber.le_zero_zero, Nat.zero_le _⟩

variable {profile : ProviderProfile} {ledger : Ledger C} {journal : List (OperationEvent C)}
  {operationAttempts : JsString → Option Nat} {es : List (ProviderStep C)}

theorem initial_balanced (h : Resting ledger profile) :
    Balanced (initial profile ledger journal operationAttempts) 0 0 0 where
  waiting _ := ⟨fun hin => absurd hin List.not_mem_nil, fun ⟨_, hcall, _⟩ => absurd hcall nofun⟩
  nodup := List.nodup_nil
  accounting := h.accounting
  permits := rfl
  leaves := h.leaves
  tokens := h.tokens

theorem initial_converged (h : Resting ledger profile) :
    Converged (initial profile ledger journal operationAttempts) where
  concurrency := h.concurrency.trans (Nat.max_eq_right profile.maxConcurrency_pos).symm
  calls _ _ hmem := absurd hmem List.not_mem_nil

theorem run_balanced (h : Resting ledger profile)
    (hrun : Machine.run step (initial profile ledger journal operationAttempts) es = some st) :
    Balanced st 0 0 0 ∧ Converged st :=
  Machine.run_invariant_of_step (I := fun st => Balanced st 0 0 0 ∧ Converged st)
    (fun _ _ _ hI hstep => ⟨hI.1.step hstep, hI.2.step hI.1 hstep⟩)
    ⟨initial_balanced h, initial_converged h⟩ hrun

/-- `isIdle()`: no permit is held and no acquisition is queued. -/
def isIdle (st : Provider C) : Bool :=
  decide (st.available = st.capacity) && st.waiters.isEmpty

/-- With no call in flight nothing is held. -/
theorem Balanced.idle (h : Balanced st 0 0 0) (hconverged : Converged st)
    (hauthority : st.authority = true) (hended : ∀ call ∈ st.calls, call.phase.inFlight = false) :
    st.ledger.usage.tokensReserved = 0 ∧ st.ledger.usage.activeLeafCalls = 0 ∧
      st.isIdle = true := by
  have hphase : ∀ call ∈ st.calls, ∃ outcome, call.phase = .ended outcome ∧
      outcome ≠ .unauthorized := by
    intro call hmem
    have hflight := hended call hmem
    have hauthorized := (hconverged.calls hauthority call hmem).1
    cases hphase : call.phase with
    | ended outcome => exact ⟨outcome, rfl, fun heq => hauthorized (hphase.trans (heq ▸ rfl))⟩
    | waiting | granted | refused | intending | launched | settling =>
      rw [hphase] at hflight
      exact absurd hflight nofun
  have hheld : ∀ call ∈ st.calls,
      call.permit = 0 ∧ call.leaf = 0 ∧ call.reservedTokens = 0 := by
    intro call hmem
    obtain ⟨outcome, hphase, houtcome⟩ := hphase call hmem
    rw [ProviderCall.permit, ProviderCall.leaf, ProviderCall.reservedTokens, hphase]
    cases outcome with
    | unauthorized => exact absurd rfl houtcome
    | threw | aborted | poisoned | appendFailed | diverged | settled => exact ⟨rfl, rfl, rfl⟩
  have hwaiters : st.waiters = [] := by
    apply List.eq_nil_iff_forall_not_mem.mpr
    intro c hin
    obtain ⟨call, hcall, hwaits⟩ := (h.waiting c).mp hin
    obtain ⟨outcome, hphase, -⟩ := hphase call (List.mem_of_getElem? hcall)
    exact absurd (hwaits.symm.trans hphase) nofun
  refine ⟨?_, ?_, ?_⟩
  · rw [h.tokens, tally_eq_zero fun call hmem => (hheld call hmem).2.2]
  · rw [h.leaves, tally_eq_zero fun call hmem => (hheld call hmem).2.1]
  · have := h.permits
    rw [tally_eq_zero fun call hmem => (hheld call hmem).1] at this
    rw [isIdle, hwaiters, Bool.and_eq_true, decide_eq_true_eq]
    exact ⟨this, rfl⟩

theorem Balanced.leaves_le (h : Balanced st 0 0 0) (hconverged : Converged st)
    (hauthority : st.authority = true) :
    st.ledger.usage.activeLeafCalls ≤ st.ledger.limits.maxConcurrency := by
  have hle : tally ProviderCall.leaf st.calls ≤ tally ProviderCall.permit st.calls :=
    tally_le_tally fun call hmem =>
      ProviderCall.leaf_le_permit (hconverged.calls hauthority call hmem).1
  have := h.leaves
  have := h.permits
  rw [hconverged.concurrency]
  omega

/-- Conservation: at every await point the ledger and the semaphore hold what the calls in
    their phases hold, and nothing when no call is in flight. -/
theorem accounting_conserved (h : Resting ledger profile)
    (hrun : Machine.run step (initial profile ledger journal operationAttempts) es = some st)
    (hauthority : st.authority = true) :
    st.ledger.usage.tokensReserved = tally ProviderCall.reservedTokens st.calls ∧
    st.ledger.usage.activeLeafCalls = tally ProviderCall.leaf st.calls ∧
    st.ledger.usage.activeLeafCalls ≤ st.ledger.limits.maxConcurrency ∧
    (∀ call ∈ st.calls, call.phase ≠ .ended .diverged) ∧
    ((∀ call ∈ st.calls, call.phase.inFlight = false) →
      st.ledger.usage.tokensReserved = 0 ∧ st.ledger.usage.activeLeafCalls = 0 ∧
      st.isIdle = true) := by
  obtain ⟨hbalanced, hconverged⟩ := run_balanced h hrun
  exact ⟨hbalanced.tokens, hbalanced.leaves, hbalanced.leaves_le hconverged hauthority,
    fun call hmem => (hconverged.calls hauthority call hmem).2,
    hbalanced.idle hconverged hauthority⟩

/-- One external call is launched and a completion waits for its permit. -/
def twoCalls : List (ProviderStep ℚ) :=
  [.create ⟨js "f", []⟩ (js "op") .agent (js "k") 0 100,
    .begin 0 (.runExternalReported ⟨agentRequestIdentityVersion, List.replicate 64 0x61⟩) 1,
    .begin 0 (.complete (.ok ⟨js "hi", none, [], none, 512, js "x"⟩)) 2,
    .acquired 0 ⟨3, 3, 3, 3⟩, .intentAppended 0 .committed 4]

theorem accounting_conserved_twoCalls :
    ∃ st : Provider ℚ,
      Machine.run step (initial ⟨1, 1000, Nat.one_pos⟩
        (createLedger ⟨0, 1, 8, 8, 8, 1, none, 0, 100⟩) [.frameOpened (js "f")] fun _ => none)
        twoCalls = some st ∧
      st.ledger.usage.activeLeafCalls = tally ProviderCall.leaf st.calls ∧
      st.ledger.usage.activeLeafCalls = 1 ∧ st.waiters = [1] := by
  have hrun : (Machine.run step (initial ⟨1, 1000, Nat.one_pos⟩
      (createLedger ⟨0, 1, 8, 8, 8, 1, none, 0, 100⟩) [.frameOpened (js "f")] fun _ => none)
      twoCalls).isSome = true := rfl
  refine ⟨_, (Option.some_get hrun).symm, ?_, rfl, rfl⟩
  exact (accounting_conserved (resting_createLedger rfl) (Option.some_get hrun).symm rfl).2.1

end Provider

end PiRlm.Runtime

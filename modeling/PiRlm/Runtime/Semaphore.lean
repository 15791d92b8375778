/-
  PiRlm.Runtime.Semaphore

  The abortable semaphore of `runtime/semaphore.ts`.

  The machine around it takes calls of `acquire`, aborts of signals and calls of the
  release functions in any order.  An abort first marks its signal and then runs the
  listeners one by one, so that other calls may come between.
-/
import Mathlib
import PiRlm.Lib.Machine

namespace PiRlm.Runtime

open PiRlm.Lib

-- ============================================================================
-- The semaphore and its callers
-- ============================================================================

/-- A queued call of `acquire`, with its signal if it has one. -/
structure Waiter where
  call : Nat
  signal : Option Nat
  deriving Repr, DecidableEq

structure SemaphoreState where
  available : Int
  capacity : Int
  waiters : List Waiter
  /-- The abort listeners that are registered. -/
  listeners : List Waiter
  /-- The signals that have been aborted. -/
  aborted : List Nat
  /-- The signal of each call so far. -/
  signals : List (Option Nat)
  /-- For each permit that has been granted, whether it has been released. -/
  permits : List Bool
  /-- What the calls have resolved to, in order: a permit or nothing. -/
  resolved : List (Nat × Option Nat)
  deriving Repr, DecidableEq

inductive SemaphoreEvent where
  | acquire (signal : Option Nat)
  | abort (signal : Nat)
  | listener (waiter : Waiter)
  | release (permit : Nat)
  deriving Repr, DecidableEq

namespace SemaphoreState

/-- `new Semaphore(max)`. -/
def init (max : Int) : SemaphoreState where
  available := Max.max 1 max
  capacity := Max.max 1 max
  waiters := []
  listeners := []
  aborted := []
  signals := []
  permits := []
  resolved := []

variable (st : SemaphoreState)

/-- `signal?.aborted`. -/
def isAborted (signal : Option Nat) : Bool :=
  signal.any (· ∈ st.aborted)

def resolve (call : Nat) (permit : Option Nat) : SemaphoreState :=
  { st with resolved := st.resolved ++ [(call, permit)] }

/-- `resolve(this.makeRelease())`. -/
def grant (call : Nat) : SemaphoreState :=
  { st with permits := st.permits ++ [false] }.resolve call (some st.permits.length)

def acquire (signal : Option Nat) : SemaphoreState :=
  let call := st.signals.length
  let called := { st with signals := st.signals ++ [signal] }
  if st.isAborted signal then called.resolve call none
  else if 0 < st.available then
    { called with available := st.available - 1 }.grant call
  else
    { called with
      listeners := if signal.isSome then st.listeners ++ [⟨call, signal⟩] else st.listeners
      waiters := st.waiters ++ [⟨call, signal⟩] }

/-- The abort listener of a waiter. -/
def onAbort (waiter : Waiter) : SemaphoreState :=
  { st with
    waiters := st.waiters.erase waiter
    listeners := st.listeners.erase waiter }.resolve waiter.call none

/-- The loop of a release, over the queue. -/
def handOff : List Waiter → SemaphoreState → SemaphoreState
  | [], st => { st with waiters := [], available := st.available + 1 }
  | next :: rest, st =>
    let shifted := { st with waiters := rest, listeners := st.listeners.erase next }
    if st.isAborted next.signal then handOff rest (shifted.resolve next.call none)
    else shifted.grant next.call

/-- A release function; a second call does nothing. -/
def release (permit : Nat) : SemaphoreState :=
  if st.permits[permit]? = some false then
    handOff st.waiters { st with permits := st.permits.set permit true }
  else st

/-- One event.  A listener runs when it is registered and its signal is aborted; a release
    function exists once its permit has been granted. -/
def step : SemaphoreEvent → Option SemaphoreState
  | .acquire signal => some (st.acquire signal)
  | .abort signal => some { st with aborted := st.aborted ++ [signal] }
  | .listener waiter =>
    if waiter ∈ st.listeners ∧ st.isAborted waiter.signal then some (st.onAbort waiter) else none
  | .release permit => if permit < st.permits.length then some (st.release permit) else none

/-- The permits that have been granted and not released. -/
def held : Nat := st.permits.count false

-- ============================================================================
-- The invariant
-- ============================================================================

/-- With so many permits in the hands of a release that is under way, every permit is
    accounted for and every call is resolved or waiting. -/
structure Inv (inHand : Int) (st : SemaphoreState) : Prop where
  permits : (st.held : Int) + st.available + inHand = st.capacity
  idle : 0 < st.available → st.waiters = []
  calls : (st.resolved.map Prod.fst ++ st.waiters.map Waiter.call).Perm (List.range st.signals.length)
  arrival : (st.waiters.map Waiter.call).Pairwise (· < ·)
  signals : ∀ w ∈ st.waiters, st.signals[w.call]? = some w.signal
  listeners : st.listeners = st.waiters.filter (·.signal.isSome)
  refused : ∀ call, (call, none) ∈ st.resolved →
    ∃ signal, st.signals[call]? = some signal ∧ st.isAborted signal = true
  granted : st.resolved.filterMap Prod.snd = List.range st.permits.length
  order : ((st.resolved.filter fun r => r.2.isSome).map Prod.fst).Pairwise (· < ·)
  ahead : ∀ r ∈ st.resolved, r.2.isSome → ∀ w ∈ st.waiters, r.1 < w.call

theorem inv_init (max : Int) : (init max).Inv 0 where
  permits := by simp [init, held]
  idle := fun _ => rfl
  calls := List.Perm.refl _
  arrival := List.Pairwise.nil
  signals := nofun
  listeners := rfl
  refused := nofun
  granted := rfl
  order := List.Pairwise.nil
  ahead := nofun

variable {st} {inHand : Int}

-- ============================================================================
-- Refusing a waiter and granting to one
-- ============================================================================

/-- A waiter whose signal is aborted is refused, by its listener or by a release. -/
theorem Inv.onAbort (h : st.Inv inHand) {w : Waiter} (hw : w ∈ st.waiters)
    (haborted : st.isAborted w.signal = true) : (st.onAbort w).Inv inHand where
  permits := h.permits
  idle := by
    intro havailable
    rw [h.idle havailable] at hw
    exact absurd hw List.not_mem_nil
  calls := by
    have hsplit : (st.waiters.map Waiter.call).Perm
        (w.call :: (st.waiters.erase w).map Waiter.call) :=
      (List.perm_cons_erase hw).map Waiter.call
    have hcalls : (st.resolved.map Prod.fst ++ [w.call] ++
        (st.waiters.erase w).map Waiter.call).Perm
          (st.resolved.map Prod.fst ++ st.waiters.map Waiter.call) := by
      rw [List.append_assoc]
      exact hsplit.symm.append_left _
    show ((st.resolved ++ [(w.call, none)]).map Prod.fst ++ _).Perm _
    rw [List.map_append]
    exact hcalls.trans h.calls
  arrival := h.arrival.sublist (List.erase_sublist.map Waiter.call)
  signals := fun w' hw' => h.signals w' (List.mem_of_mem_erase hw')
  listeners := by
    show st.listeners.erase w = (st.waiters.erase w).filter (·.signal.isSome)
    rw [h.listeners, List.erase_filter]
  refused := by
    intro call hcall
    rcases List.mem_append.mp hcall with hcall | hcall
    · exact h.refused call hcall
    · obtain rfl : call = w.call := congrArg Prod.fst (List.mem_singleton.mp hcall)
      exact ⟨w.signal, h.signals w hw, haborted⟩
  granted := by
    show (st.resolved ++ [(w.call, none)]).filterMap Prod.snd = _
    rw [List.filterMap_append, h.granted]
    exact List.append_nil _
  order := by
    show (((st.resolved ++ [(w.call, none)]).filter fun r : Nat × Option Nat =>
      r.2.isSome).map Prod.fst).Pairwise _
    rw [List.filter_append, List.map_append]
    exact (List.append_nil _).symm ▸ h.order
  ahead := by
    intro r hr hsome w' hw'
    rcases List.mem_append.mp hr with hr | hr
    · exact h.ahead r hr hsome w' (List.mem_of_mem_erase hw')
    · rw [List.mem_singleton.mp hr] at hsome
      exact absurd hsome nofun

/-- The permit in the hands of a release goes to the first waiter. -/
theorem Inv.grant_head (h : st.Inv 1) {next : Waiter} {rest : List Waiter}
    (hwaiters : st.waiters = next :: rest) :
    ({ st with waiters := rest, listeners := st.listeners.erase next }.grant next.call).Inv 0 := by
  have harrival := h.arrival
  have hcalls := h.calls
  have hlisteners := h.listeners
  rw [hwaiters] at harrival hcalls hlisteners
  rw [List.map_cons, List.pairwise_cons] at harrival
  rw [List.map_cons] at hcalls
  exact
    { permits := by
        have hpermits := h.permits
        show ((st.permits ++ [false]).count false : Int) + st.available + 0 = st.capacity
        rw [List.count_append]
        simp only [held] at hpermits
        simp only [List.count_singleton_self]
        omega
      idle := by
        intro havailable
        exact absurd (hwaiters.symm.trans (h.idle havailable)) nofun
      calls := by
        show ((st.resolved ++ [(next.call, some st.permits.length)]).map Prod.fst ++ _).Perm _
        rw [List.map_append, List.append_assoc]
        exact hcalls
      arrival := harrival.2
      signals := fun w hw => h.signals w (hwaiters ▸ List.mem_cons_of_mem next hw)
      listeners := by
        show st.listeners.erase next = rest.filter (·.signal.isSome)
        rw [hlisteners, List.erase_filter, List.erase_cons_head]
      refused := by
        intro call hcall
        rcases List.mem_append.mp hcall with hcall | hcall
        · exact h.refused call hcall
        · exact absurd (congrArg Prod.snd (List.mem_singleton.mp hcall)) nofun
      granted := by
        show (st.resolved ++ [(next.call, some st.permits.length)]).filterMap Prod.snd =
          List.range (st.permits ++ [false]).length
        rw [List.filterMap_append, h.granted, List.length_append, List.length_singleton,
          List.range_succ]
        rfl
      order := by
        show (((st.resolved ++ [(next.call, some st.permits.length)]).filter
          fun r : Nat × Option Nat => r.2.isSome).map Prod.fst).Pairwise _
        rw [List.filter_append, List.map_append]
        refine List.pairwise_append.mpr ⟨h.order, List.pairwise_singleton _ _, ?_⟩
        intro call hcall next' hnext
        obtain ⟨r, hr, rfl⟩ := List.mem_map.mp hcall
        obtain rfl : next' = next.call := List.mem_singleton.mp hnext
        rw [List.mem_filter] at hr
        exact h.ahead r hr.1 hr.2 next (hwaiters ▸ List.mem_cons_self)
      ahead := by
        intro r hr hsome w hw
        rcases List.mem_append.mp hr with hr | hr
        · exact h.ahead r hr hsome w (hwaiters ▸ List.mem_cons_of_mem next hw)
        · rw [List.mem_singleton.mp hr]
          exact harrival.1 w.call (List.mem_map_of_mem hw) }

/-- The loop of a release leaves no permit in its hands. -/
theorem Inv.handOff (h : st.Inv 1) {waiters : List Waiter} (hwaiters : st.waiters = waiters) :
    (handOff waiters st).Inv 0 := by
  induction waiters generalizing st with
  | nil =>
    rw [SemaphoreState.handOff]
    exact
      { permits := by
          have hpermits := h.permits
          show (st.held : Int) + (st.available + 1) + 0 = st.capacity
          omega
        idle := fun _ => rfl
        calls := hwaiters ▸ h.calls
        arrival := List.Pairwise.nil
        signals := nofun
        listeners := by
          have hlisteners := h.listeners
          rwa [hwaiters] at hlisteners
        refused := h.refused
        granted := h.granted
        order := h.order
        ahead := fun _ _ _ => nofun }
  | cons next rest ih =>
    rw [SemaphoreState.handOff]
    split
    · rename_i haborted
      have hmem : next ∈ st.waiters := hwaiters ▸ List.mem_cons_self
      have hrefused := h.onAbort hmem haborted
      have herase : st.waiters.erase next = rest := by
        rw [hwaiters, List.erase_cons_head]
      rw [SemaphoreState.onAbort, herase] at hrefused
      exact ih hrefused rfl
    · exact h.grant_head hwaiters

-- ============================================================================
-- One event keeps the invariant
-- ============================================================================

theorem Inv.lookup_append (h : st.Inv inHand) (signal : Option Nat) {w : Waiter}
    (hw : w ∈ st.waiters) : (st.signals ++ [signal])[w.call]? = some w.signal := by
  have hlt : w.call < st.signals.length :=
    List.mem_range.mp (h.calls.subset (List.mem_append_right _ (List.mem_map_of_mem hw)))
  rw [List.getElem?_append_left hlt]
  exact h.signals w hw

theorem Inv.refused_append (h : st.Inv inHand) (signal : Option Nat) {call : Nat}
    (hcall : (call, none) ∈ st.resolved) :
    ∃ found, (st.signals ++ [signal])[call]? = some found ∧ st.isAborted found = true := by
  obtain ⟨found, hfound, haborted⟩ := h.refused call hcall
  have hlt : call < st.signals.length := (List.getElem?_eq_some_iff.mp hfound).1
  exact ⟨found, (List.getElem?_append_left hlt).trans hfound, haborted⟩

/-- A call that is resolved has come before the next one. -/
theorem Inv.resolved_lt (h : st.Inv inHand) {r : Nat × Option Nat} (hr : r ∈ st.resolved) :
    r.1 < st.signals.length :=
  List.mem_range.mp (h.calls.subset (List.mem_append_left _ (List.mem_map_of_mem hr)))

/-- The calls with one more, resolved or waiting. -/
theorem Inv.calls_concat (h : st.Inv inHand) (signal : Option Nat) :
    (st.resolved.map Prod.fst ++ st.waiters.map Waiter.call ++ [st.signals.length]).Perm
      (List.range (st.signals ++ [signal]).length) := by
  rw [List.length_append, List.length_singleton, List.range_succ]
  exact h.calls.append_right _

theorem Inv.acquire (h : st.Inv 0) (signal : Option Nat) : (st.acquire signal).Inv 0 := by
  have hcalls := h.calls_concat signal
  rw [SemaphoreState.acquire]
  split
  · -- the signal is aborted already
    rename_i haborted
    exact
      { permits := h.permits
        idle := h.idle
        calls := by
          show ((st.resolved ++ [(st.signals.length, none)]).map Prod.fst ++ _).Perm _
          rw [List.map_append, List.append_assoc]
          refine List.Perm.trans ?_ hcalls
          rw [List.append_assoc]
          exact List.perm_append_comm.append_left _
        arrival := h.arrival
        signals := fun w hw => h.lookup_append signal hw
        listeners := h.listeners
        refused := by
          intro call hcall
          rcases List.mem_append.mp hcall with hcall | hcall
          · exact h.refused_append signal hcall
          · obtain rfl : call = st.signals.length :=
              congrArg Prod.fst (List.mem_singleton.mp hcall)
            exact ⟨signal, List.getElem?_concat_length, haborted⟩
        granted := by
          show (st.resolved ++ [(st.signals.length, none)]).filterMap Prod.snd = _
          rw [List.filterMap_append, h.granted]
          exact List.append_nil _
        order := by
          show (((st.resolved ++ [(st.signals.length, none)]).filter fun r : Nat × Option Nat =>
            r.2.isSome).map Prod.fst).Pairwise _
          rw [List.filter_append, List.map_append]
          exact (List.append_nil _).symm ▸ h.order
        ahead := by
          intro r hr hsome w hw
          rcases List.mem_append.mp hr with hr | hr
          · exact h.ahead r hr hsome w hw
          · rw [List.mem_singleton.mp hr] at hsome
            exact absurd hsome nofun }
  · split
    · -- a permit is free, so that nobody waits
      rename_i havailable
      have hidle := h.idle havailable
      exact
        { permits := by
            have hpermits := h.permits
            show ((st.permits ++ [false]).count false : Int) + (st.available - 1) + 0 = st.capacity
            rw [List.count_append]
            simp only [held] at hpermits
            simp only [List.count_singleton_self]
            omega
          idle := fun _ => hidle
          calls := by
            show ((st.resolved ++ [(st.signals.length, some st.permits.length)]).map Prod.fst ++
              st.waiters.map Waiter.call).Perm _
            rw [hidle, List.map_nil, List.append_nil] at hcalls ⊢
            rw [List.map_append]
            exact hcalls
          arrival := h.arrival
          signals := fun w hw => h.lookup_append signal hw
          listeners := h.listeners
          refused := by
            intro call hcall
            rcases List.mem_append.mp hcall with hcall | hcall
            · exact h.refused_append signal hcall
            · exact absurd (congrArg Prod.snd (List.mem_singleton.mp hcall)) nofun
          granted := by
            show (st.resolved ++ [(st.signals.length, some st.permits.length)]).filterMap Prod.snd =
              List.range (st.permits ++ [false]).length
            rw [List.filterMap_append, h.granted, List.length_append, List.length_singleton,
              List.range_succ]
            rfl
          order := by
            show (((st.resolved ++ [(st.signals.length, some st.permits.length)]).filter
              fun r : Nat × Option Nat => r.2.isSome).map Prod.fst).Pairwise _
            rw [List.filter_append, List.map_append]
            refine List.pairwise_append.mpr ⟨h.order, List.pairwise_singleton _ _, ?_⟩
            intro call hcall last hlast
            obtain ⟨r, hr, rfl⟩ := List.mem_map.mp hcall
            obtain rfl : last = st.signals.length := List.mem_singleton.mp hlast
            exact h.resolved_lt (List.mem_filter.mp hr).1
          ahead := by
            intro r _ _ w hw
            replace hw : w ∈ st.waiters := hw
            rw [hidle] at hw
            exact absurd hw List.not_mem_nil }
    · -- the call waits, last in the queue
      rename_i havailable
      have hbefore : ∀ w ∈ st.waiters, w.call < st.signals.length := fun w hw =>
        List.mem_range.mp (h.calls.subset (List.mem_append_right _ (List.mem_map_of_mem hw)))
      exact
        { permits := h.permits
          idle := fun hpos => absurd hpos havailable
          calls := by
            show (st.resolved.map Prod.fst ++
              (st.waiters ++ [Waiter.mk st.signals.length signal]).map Waiter.call).Perm _
            rw [List.map_append, ← List.append_assoc]
            exact hcalls
          arrival := by
            show ((st.waiters ++ [Waiter.mk st.signals.length signal]).map Waiter.call).Pairwise _
            rw [List.map_append]
            refine List.pairwise_append.mpr ⟨h.arrival, List.pairwise_singleton _ _, ?_⟩
            intro call hcall last hlast
            obtain ⟨w, hw, rfl⟩ := List.mem_map.mp hcall
            obtain rfl : last = st.signals.length := List.mem_singleton.mp hlast
            exact hbefore w hw
          signals := by
            intro w hw
            rcases List.mem_append.mp hw with hw | hw
            · exact h.lookup_append signal hw
            · rw [List.mem_singleton.mp hw]
              exact List.getElem?_concat_length
          listeners := by
            show (if signal.isSome then _ else _) = (st.waiters ++ [_]).filter _
            rw [List.filter_append, h.listeners]
            cases signal with
            | none => exact (List.append_nil _).symm
            | some signal => rfl
          refused := fun call hcall => h.refused_append signal hcall
          granted := h.granted
          order := h.order
          ahead := by
            intro r hr hsome w hw
            rcases List.mem_append.mp hw with hw | hw
            · exact h.ahead r hr hsome w hw
            · rw [List.mem_singleton.mp hw]
              exact h.resolved_lt hr }

theorem isAborted_append {signal : Option Nat} (h : st.isAborted signal = true) (aborted : Nat) :
    { st with aborted := st.aborted ++ [aborted] }.isAborted signal = true := by
  cases signal with
  | none => exact absurd h nofun
  | some signal =>
    have hmem : signal ∈ st.aborted := of_decide_eq_true h
    exact decide_eq_true (List.mem_append_left _ hmem)

theorem Inv.release (h : st.Inv 0) (permit : Nat) : (st.release permit).Inv 0 := by
  rw [SemaphoreState.release]
  split
  · rename_i hpermit
    obtain ⟨hlt, hfalse⟩ := List.getElem?_eq_some_iff.mp hpermit
    have hpos : 0 < st.permits.count false :=
      List.count_pos_iff.mpr (hfalse ▸ List.getElem_mem hlt)
    have hcount : (st.permits.set permit true).count false + 1 = st.permits.count false := by
      rw [List.count_set hlt, hfalse]
      simp only [beq_self_eq_true, if_true, Bool.true_beq, Bool.false_eq_true, if_false]
      omega
    have hfree : ({ st with permits := st.permits.set permit true } : SemaphoreState).Inv 1 := by
      refine
        { h with
          permits := ?_
          granted := ?_ }
      · have hpermits := h.permits
        show ((st.permits.set permit true).count false : Int) + st.available + 1 = st.capacity
        simp only [held] at hpermits
        omega
      · rw [h.granted, List.length_set]
    exact hfree.handOff rfl
  · exact h

theorem Inv.step (h : st.Inv 0) {e : SemaphoreEvent} {st' : SemaphoreState}
    (hstep : st.step e = some st') : st'.Inv 0 := by
  cases e with
  | acquire signal =>
    obtain rfl := Option.some.inj hstep
    exact h.acquire signal
  | abort signal =>
    obtain rfl := Option.some.inj hstep
    exact { h with
      refused := fun call hcall => by
        obtain ⟨found, hfound, haborted⟩ := h.refused call hcall
        exact ⟨found, hfound, isAborted_append haborted signal⟩ }
  | listener waiter =>
    rw [SemaphoreState.step] at hstep
    split at hstep
    · rename_i hready
      obtain rfl := Option.some.inj hstep
      have hwaiting : waiter ∈ st.waiters := by
        have hmem := hready.1
        rw [h.listeners, List.mem_filter] at hmem
        exact hmem.1
      exact h.onAbort hwaiting hready.2
    · exact absurd hstep nofun
  | release permit =>
    rw [SemaphoreState.step] at hstep
    split at hstep
    · obtain rfl := Option.some.inj hstep
      exact h.release permit
    · exact absurd hstep nofun

-- ============================================================================
-- Who gets a permit
-- ============================================================================

/-- The loop of a release leaves the signals alone, and grants to a waiter that is not
    aborted. -/
theorem handOff_granted (waiters : List Waiter) (st : SemaphoreState) :
    (handOff waiters st).signals = st.signals ∧ (handOff waiters st).aborted = st.aborted ∧
      ∀ r ∈ (handOff waiters st).resolved, r.2.isSome → r ∈ st.resolved ∨
        ∃ w ∈ waiters, r.1 = w.call ∧ st.isAborted w.signal = false := by
  induction waiters generalizing st with
  | nil => exact ⟨rfl, rfl, fun r hr _ => .inl hr⟩
  | cons next rest ih =>
    rw [SemaphoreState.handOff]
    split
    · obtain ⟨hsignals, haborted, hresolved⟩ :=
        ih ({ st with waiters := rest, listeners := st.listeners.erase next }.resolve next.call none)
      refine ⟨hsignals, haborted, fun r hr hsome => ?_⟩
      rcases hresolved r hr hsome with hbefore | ⟨w, hw, hcall, hlive⟩
      · rcases List.mem_append.mp hbefore with hbefore | hbefore
        · exact .inl hbefore
        · rw [List.mem_singleton.mp hbefore] at hsome
          exact absurd hsome nofun
      · exact .inr ⟨w, List.mem_cons_of_mem next hw, hcall, hlive⟩
    · rename_i hlive
      refine ⟨rfl, rfl, fun r hr _ => ?_⟩
      rcases List.mem_append.mp hr with hr | hr
      · exact .inl hr
      · exact .inr ⟨next, List.mem_cons_self, congrArg Prod.fst (List.mem_singleton.mp hr),
          Bool.not_eq_true _ ▸ hlive⟩

/-- What an event does to the calls: signals are only added, aborted ones stay, and a new
    permit goes to a call whose signal is not aborted. -/
theorem Inv.step_granted (h : st.Inv 0) {e : SemaphoreEvent} {st' : SemaphoreState}
    (hstep : st.step e = some st') :
    st.signals <+: st'.signals ∧ st.aborted ⊆ st'.aborted ∧
      ∀ r ∈ st'.resolved, r.2.isSome → r ∈ st.resolved ∨
        ∃ signal, st'.signals[r.1]? = some signal ∧ st'.isAborted signal = false := by
  cases e with
  | acquire signal =>
    obtain rfl := Option.some.inj hstep
    rw [SemaphoreState.acquire]
    split
    · refine ⟨List.prefix_append _ _, fun _ hmem => hmem, fun r hr hsome => ?_⟩
      rcases List.mem_append.mp hr with hr | hr
      · exact .inl hr
      · rw [List.mem_singleton.mp hr] at hsome
        exact absurd hsome nofun
    · rename_i hlive
      split
      · refine ⟨List.prefix_append _ _, fun _ hmem => hmem, fun r hr _ => ?_⟩
        rcases List.mem_append.mp hr with hr | hr
        · exact .inl hr
        · rw [List.mem_singleton.mp hr]
          exact .inr ⟨signal, List.getElem?_concat_length, Bool.not_eq_true _ ▸ hlive⟩
      · exact ⟨List.prefix_append _ _, fun _ hmem => hmem, fun r hr _ => .inl hr⟩
  | abort signal =>
    obtain rfl := Option.some.inj hstep
    exact ⟨List.prefix_rfl, List.subset_append_left _ _, fun r hr _ => .inl hr⟩
  | listener waiter =>
    rw [SemaphoreState.step] at hstep
    split at hstep
    · obtain rfl := Option.some.inj hstep
      refine ⟨List.prefix_rfl, fun _ hmem => hmem, fun r hr hsome => ?_⟩
      rcases List.mem_append.mp hr with hr | hr
      · exact .inl hr
      · rw [List.mem_singleton.mp hr] at hsome
        exact absurd hsome nofun
    · exact absurd hstep nofun
  | release permit =>
    rw [SemaphoreState.step] at hstep
    split at hstep
    · obtain rfl := Option.some.inj hstep
      rw [SemaphoreState.release]
      split
      · obtain ⟨hsignals, haborted, hresolved⟩ := handOff_granted st.waiters
          { st with permits := st.permits.set permit true }
        refine ⟨⟨[], by rw [hsignals, List.append_nil]⟩, fun _ hmem => by rwa [haborted], fun r hr hsome => ?_⟩
        rcases hresolved r hr hsome with hbefore | ⟨w, hw, hcall, hlive⟩
        · exact .inl hbefore
        · refine .inr ⟨w.signal, ?_, ?_⟩
          · rw [hsignals, hcall]
            exact h.signals w hw
          · rw [isAborted, haborted]
            exact hlive
      · exact ⟨List.prefix_rfl, fun _ hmem => hmem, fun r hr _ => .inl hr⟩
    · exact absurd hstep nofun

theorem isAborted_mono {st' : SemaphoreState} (h : st.aborted ⊆ st'.aborted)
    {signal : Option Nat} (haborted : st.isAborted signal = true) : st'.isAborted signal = true := by
  cases signal with
  | none => exact absurd haborted nofun
  | some signal => exact decide_eq_true (h (of_decide_eq_true haborted))

/-- A release that hands its permit over hands it to the first waiter that is not aborted;
    without one the permit becomes available. -/
theorem handOff_find (waiters : List Waiter) (st : SemaphoreState) :
    (∀ w, waiters.find? (fun w => !st.isAborted w.signal) = some w →
      (w.call, some st.permits.length) ∈ (handOff waiters st).resolved) ∧
    (waiters.find? (fun w => !st.isAborted w.signal) = none →
      (handOff waiters st).available = st.available + 1) := by
  induction waiters generalizing st with
  | nil => exact ⟨nofun, fun _ => rfl⟩
  | cons next rest ih =>
    rw [SemaphoreState.handOff, List.find?_cons]
    cases haborted : st.isAborted next.signal with
    | true =>
      exact ih ({ st with waiters := rest, listeners := st.listeners.erase next }.resolve next.call
        none)
    | false =>
      refine ⟨fun w hw => ?_, nofun⟩
      obtain rfl := Option.some.inj hw
      exact List.mem_append_right _ (List.mem_singleton.mpr rfl)

-- ============================================================================
-- Runs
-- ============================================================================

/-- What holds in every state of a semaphore. -/
structure Safe (st : SemaphoreState) : Prop where
  balance : (st.held : Int) + st.available = st.capacity
  idle : 0 < st.available → st.waiters = []
  once : (st.resolved.map Prod.fst).Nodup
  permits : st.resolved.filterMap Prod.snd = List.range st.permits.length
  order : ((st.resolved.filter fun r => r.2.isSome).map Prod.fst).Pairwise (· < ·)
  fair : ∀ r ∈ st.resolved, r.2.isSome → ∀ call < r.1,
    (∃ permit, (call, some permit) ∈ st.resolved) ∨
      ∃ signal, st.signals[call]? = some signal ∧ st.isAborted signal = true

theorem Inv.safe (h : st.Inv 0) : st.Safe where
  balance := by
    have := h.permits
    omega
  idle := h.idle
  once := (List.nodup_append.mp (h.calls.nodup_iff.mpr List.nodup_range)).1
  permits := h.granted
  order := h.order
  fair := by
    intro r hr hsome call hlt
    have hmem : call ∈ List.range st.signals.length :=
      List.mem_range.mpr (hlt.trans (h.resolved_lt hr))
    rcases List.mem_append.mp (h.calls.mem_iff.mpr hmem) with hresolved | hwaiting
    · obtain ⟨⟨_, permit⟩, hr', rfl⟩ := List.mem_map.mp hresolved
      cases permit with
      | none => exact .inr (h.refused _ hr')
      | some permit => exact .inl ⟨permit, hr'⟩
    · -- nobody waits that has come before a call with a permit
      obtain ⟨w, hw, rfl⟩ := List.mem_map.mp hwaiting
      exact absurd (h.ahead r hr hsome w hw) (by omega)

/-- A waiter that is aborted before it has a permit never gets one. -/
theorem Inv.aborted_waiter (h : st.Inv 0) {w : Waiter} (hw : w ∈ st.waiters)
    (haborted : st.isAborted w.signal = true) {es : List SemaphoreEvent} {st' : SemaphoreState}
    (hrun : Machine.run SemaphoreState.step st es = some st') :
    ∀ permit, (w.call, some permit) ∉ st'.resolved := by
  let I (st : SemaphoreState) : Prop := st.Inv 0 ∧ st.signals[w.call]? = some w.signal ∧
    st.isAborted w.signal = true ∧ ∀ permit, (w.call, some permit) ∉ st.resolved
  have hstep : ∀ st e st', I st → SemaphoreState.step st e = some st' → I st' := by
    rintro st e st' ⟨hinv, hsignal, haborted, hnone⟩ hstep
    obtain ⟨hsignals, hmore, hgranted⟩ := hinv.step_granted hstep
    have hsignal' : st'.signals[w.call]? = some w.signal := by
      obtain ⟨more, hmore⟩ := hsignals
      rw [← hmore, List.getElem?_append_left (List.getElem?_eq_some_iff.mp hsignal).1]
      exact hsignal
    have haborted' := isAborted_mono hmore haborted
    refine ⟨hinv.step hstep, hsignal', haborted', fun permit hpermit => ?_⟩
    rcases hgranted _ hpermit rfl with hbefore | ⟨signal, hfound, hlive⟩
    · exact hnone permit hbefore
    · obtain rfl := Option.some.inj (hsignal'.symm.trans hfound)
      rw [haborted'] at hlive
      exact absurd hlive nofun
  have hinit : I st := by
    refine ⟨h, h.signals w hw, haborted, fun permit hpermit => ?_⟩
    exact absurd (h.ahead _ hpermit rfl w hw) (lt_irrefl w.call)
  exact (Machine.run_invariant_of_step hstep hinit hrun).2.2.2

/-- In every run of a semaphore the permits are accounted for, each call is resolved at most
    once and in the order of arrival, an aborted waiter never gets a permit, and a release
    hands its permit to the first waiter that is not aborted. -/
theorem run_safe {max : Int} {es : List SemaphoreEvent} {st : SemaphoreState}
    (hrun : Machine.run step (init max) es = some st) :
    st.Safe ∧
    (∀ w ∈ st.waiters, st.isAborted w.signal = true →
      ∀ es' st', Machine.run step st es' = some st' →
        ∀ permit, (w.call, some permit) ∉ st'.resolved) ∧
    ∀ permit, st.permits[permit]? = some false →
      (∀ w, st.waiters.find? (fun w => !st.isAborted w.signal) = some w →
        (w.call, some st.permits.length) ∈ (st.release permit).resolved) ∧
      (st.waiters.find? (fun w => !st.isAborted w.signal) = none →
        (st.release permit).available = st.available + 1) := by
  have hinv : st.Inv 0 :=
    Machine.run_invariant_of_step (fun _ _ _ hI hstep => hI.step hstep) (inv_init max) hrun
  refine ⟨hinv.safe, fun w hw haborted es' st' hrun' => hinv.aborted_waiter hw haborted hrun', ?_⟩
  intro permit hpermit
  rw [release, if_pos hpermit]
  have hfind := handOff_find st.waiters { st with permits := st.permits.set permit true }
  rw [List.length_set] at hfind
  exact hfind

/-- The first of two waiters for the only permit is aborted, and its listener has not run
    yet. -/
def abortedWaiter : List SemaphoreEvent :=
  [.acquire none, .acquire (some 7), .acquire (some 8), .abort 7]

/-- The release hands the permit to the second waiter; a release that is repeated does
    nothing, and the next permit is kept. -/
theorem run_abortedWaiter :
    (∃ st, Machine.run step (init 1) abortedWaiter = some st ∧ st.Safe ∧
      (∀ es' st', Machine.run step st es' = some st' →
        ∀ permit, (1, some permit) ∉ st'.resolved) ∧
      (2, some 1) ∈ (st.release 0).resolved) ∧
    ∃ st, Machine.run step (init 1) (abortedWaiter ++ [.release 0, .release 0]) = some st ∧
      st.Safe ∧ st.resolved = [(0, some 0), (1, none), (2, some 1)] ∧ st.held = 1 ∧
      (st.release 1).available = 1 := by
  constructor
  · obtain ⟨hsafe, haborted, hrelease⟩ := @run_safe 1 abortedWaiter _ rfl
    exact ⟨_, rfl, hsafe, haborted ⟨1, some 7⟩ List.mem_cons_self rfl, (hrelease 0 rfl).1 ⟨2, some 8⟩ rfl⟩
  · obtain ⟨hsafe, -, hrelease⟩ := @run_safe 1 (abortedWaiter ++ [.release 0, .release 0]) _ rfl
    exact ⟨_, rfl, hsafe, by decide, by decide, (hrelease 1 rfl).2 rfl⟩

end SemaphoreState

end PiRlm.Runtime

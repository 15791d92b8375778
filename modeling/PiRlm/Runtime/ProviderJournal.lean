/-
  PiRlm.Runtime.ProviderJournal

  The ledger of the provider boundary against the two folds over its journal.

  Every step of the boundary is a step of the abstract account of attempts, as long as an
  operation makes one attempt at a time, a reservation is followed by its intent, the ledger
  accepts each usage, and a settlement finds its frame open.
-/
import Mathlib
import PiRlm.Runtime.OperationAttempts
import PiRlm.Runtime.ProviderAccounting

namespace PiRlm.Runtime

open PiRlm.Lib PiRlm.Core

variable {C : Type}

-- ============================================================================
-- The attempts of a state
-- ============================================================================

/-- The attempt of a call between its reservation and the append of its settlement. -/
def CallPhase.attempt? (o : Nat) : CallPhase C → Option (LiveAttempt C)
  | .intending intent => some ⟨o, intent, .intending⟩
  | .launched intent _ => some ⟨o, intent, .launched⟩
  | .settling event => some ⟨o, event.intent, .settling event⟩
  | .waiting | .granted | .refused | .ended _ => none

def ProviderCall.attempt? (call : ProviderCall C) : Option (LiveAttempt C) :=
  call.phase.attempt? call.operation

def ModelOperation.core (op : ModelOperation C) : OperationCore :=
  ⟨op.frame.frameId, op.operationId, op.logicalReserved, op.attemptOrdinal⟩

def ModelOperation.attemptKey (op : ModelOperation C) : JsString :=
  Runtime.attemptKey op.frame.frameId op.operationId

namespace Provider

def live (st : Provider C) : List (LiveAttempt C) := st.calls.filterMap ProviderCall.attempt?

def counters (st : Provider C) : AttemptCounters where
  attempts := st.ledger.usage.attempts
  tokensUsed := st.ledger.usage.tokensUsed
  inputTokensUsed := st.ledger.usage.inputTokensUsed
  outputTokensUsed := st.ledger.usage.outputTokensUsed
  providerDurationMs := st.ledger.usage.providerDurationMs

def attempts (st : Provider C) : Attempts C where
  live := st.live
  operations := st.operations.map ModelOperation.core
  operationAttempts := st.operationAttempts
  history := st.history
  journal := st.journal
  counters := st.counters

variable {st st' : Provider C} {c : Nat} {call : ProviderCall C} {phase : CallPhase C}

/-- One call changes its phase: its attempt is replaced. -/
theorem live_setPhase (hcall : st.calls[c]? = some call) : ∃ rest,
    st.live.Perm (call.attempt?.toList ++ rest) ∧
      (st.setPhase c phase).live.Perm ((phase.attempt? call.operation).toList ++ rest) := by
  obtain ⟨hlt, hget⟩ := List.getElem?_eq_some_iff.mp hcall
  obtain ⟨before, after, hcalls, -, hset⟩ := @List.exists_of_set _ c { call with phase } _ hlt
  refine ⟨before.filterMap ProviderCall.attempt? ++ after.filterMap ProviderCall.attempt?, ?_, ?_⟩
  · rw [live, hcalls, hget, List.filterMap_append, List.filterMap_cons]
    cases call.attempt? with
    | none => exact List.Perm.refl _
    | some x => exact List.perm_middle
  · have hnew : ({ call with phase } : ProviderCall C).attempt? = phase.attempt? call.operation := rfl
    rw [live, setPhase_calls hcall, hset, List.filterMap_append, List.filterMap_cons, hnew]
    cases phase.attempt? call.operation with
    | none => exact List.Perm.refl _
    | some x => exact List.perm_middle

/-- A call without an attempt changes to a phase without one. -/
theorem live_setPhase_none (hcall : ∀ call, st.calls[c]? = some call → call.attempt? = none)
    (hphase : ∀ o, phase.attempt? o = none) : (st.setPhase c phase).live = st.live := by
  cases hc : st.calls[c]? with
  | none =>
    have hsame : (st.setPhase c phase).calls = st.calls := by
      show st.calls.modify c _ = _
      rw [List.modify_eq_set_getElem?, hc]
      rfl
    rw [live, live, hsame]
  | some call =>
    obtain ⟨hlt, hget⟩ := List.getElem?_eq_some_iff.mp hc
    obtain ⟨before, after, hcalls, -, hset⟩ := @List.exists_of_set _ c { call with phase } _ hlt
    have hnew : ({ call with phase } : ProviderCall C).attempt? = none := hphase _
    rw [live, live, setPhase_calls hc, hset, hcalls, hget, List.filterMap_append,
      List.filterMap_append, List.filterMap_cons, List.filterMap_cons, hnew, hcall call hc]

/-- A call after another one has lost its attempt. -/
theorem attempt_none_setPhase {d : Nat}
    (hcall : ∀ call, st.calls[d]? = some call → call.attempt? = none)
    (hphase : ∀ o, phase.attempt? o = none) :
    ∀ call, (st.setPhase c phase).calls[d]? = some call → call.attempt? = none := by
  intro call hget
  by_cases hd : d = c
  · subst hd
    change (st.calls.modify d _)[d]? = some call at hget
    rw [List.getElem?_modify_eq] at hget
    obtain ⟨old, -, rfl⟩ := Option.map_eq_some_iff.mp hget
    exact hphase _
  · rw [setPhase_calls_ne hd] at hget
    exact hcall call hget

theorem live_handOff (ws : List Nat) {st : Provider C}
    (hws : ∀ c ∈ ws, ∀ call, st.calls[c]? = some call → call.attempt? = none) :
    (handOff ws st).live = st.live := by
  induction ws generalizing st with
  | nil => rfl
  | cons c rest ih =>
    have hc := hws c List.mem_cons_self
    have hrest : ∀ phase : CallPhase C, (∀ o, phase.attempt? o = none) →
        ∀ d ∈ rest, ∀ call, (st.setPhase c phase).calls[d]? = some call → call.attempt? = none :=
      fun phase hphase d hd => attempt_none_setPhase (hws d (List.mem_cons_of_mem c hd)) hphase
    rw [handOff]
    split
    · rw [ih (hrest _ fun _ => rfl)]
      exact live_setPhase_none hc fun _ => rfl
    · exact live_setPhase_none hc fun _ => rfl

/-- The hand-over of a permit changes no attempt. -/
theorem attempts_handOff (ws : List Nat) (st : Provider C)
    (hws : ∀ c ∈ ws, ∀ call, st.calls[c]? = some call → call.attempt? = none) :
    (handOff ws st).attempts = st.attempts := by
  have hlive := live_handOff ws hws
  obtain ⟨calls, waiters, available, heq⟩ := handOff_frame ws st
  rw [heq] at hlive ⊢
  exact congrArg (fun live => { st.attempts with live }) hlive

variable [CostNumber C]

theorem Balanced.waiters_none (h : Balanced st 0 0 0) :
    ∀ c ∈ st.waiters, ∀ call, st.calls[c]? = some call → call.attempt? = none := by
  intro c hc call hcall
  obtain ⟨call', hcall', hphase⟩ := (h.waiting c).mp hc
  obtain rfl := Option.some.inj (hcall.symm.trans hcall')
  rw [ProviderCall.attempt?, hphase]
  rfl

theorem attempts_settleUp (st : Provider C) (tokens : Nat) : (st.settleUp tokens).attempts = st.attempts := by
  unfold settleUp giveBack
  split
  · split
    · rename_i ledger hsettled
      obtain ⟨-, -, hledger⟩ := Ledger.settleAccounting_ok hsettled
      rw [hledger]
      rfl
    · rfl
  · rfl

/-- The end of a call is seen in its attempt alone. -/
theorem attempts_finish {tokens : Nat} {active : Bool} {outcome : CallEnd}
    (hwaiters : ∀ c ∈ st.waiters, ∀ call, st.calls[c]? = some call → call.attempt? = none) :
    (st.finish c tokens active outcome).attempts =
      { st.attempts with live := (st.setPhase c (.ended outcome)).live } := by
  have hsettled := attempts_settleUp (st.setPhase c (.ended outcome)) tokens
  obtain ⟨ledger, heq⟩ := (st.setPhase c (.ended outcome)).settleUp_frame tokens
  have hended : ∀ d ∈ st.waiters, ∀ call,
      (st.setPhase c (.ended outcome)).calls[d]? = some call → call.attempt? = none :=
    fun d hd => attempt_none_setPhase (hwaiters d hd) fun _ => rfl
  rw [finish_eq, heq]
  rw [heq] at hsettled
  cases active with
  | true =>
    have hhanded := attempts_handOff st.waiters
      { st.setPhase c (.ended outcome) with ledger := ledger.releaseLeaf } hended
    exact hhanded.trans hsettled
  | false =>
    have hhanded := attempts_handOff st.waiters { st.setPhase c (.ended outcome) with ledger } hended
    exact hhanded.trans hsettled

/-- An accepted usage is added to the counters and to nothing else of the attempts. -/
theorem attempts_accountUsage {o tokens : Nat} {op : ModelOperation C} {usage : CallUsage C}
    {ledger : Ledger C} (hop : st.operations[o]? = some op)
    (hsettled : st.ledger.settleAttemptUsage tokens usage = .ok ledger) :
    (st.accountUsage o op tokens usage).1.attempts =
      { st.attempts with counters := st.counters.addUsage usage } := by
  obtain ⟨-, -, hledger⟩ := Ledger.settleAccounting_ok hsettled
  have hoperations : ∀ combined, (st.operations.set o { op with aggregate := combined }).map
      ModelOperation.core = st.operations.map ModelOperation.core := by
    intro combined
    have hcore : (st.operations.map ModelOperation.core)[o]? = some op.core := by
      rw [List.getElem?_map, hop]
      rfl
    obtain ⟨hlt, hget⟩ := List.getElem?_eq_some_iff.mp hcore
    rw [List.map_set]
    show (st.operations.map ModelOperation.core).set o op.core = _
    rw [← hget]
    exact List.set_getElem_self hlt
  have hcounters : ({ st with ledger } : Provider C).counters = st.counters.addUsage usage := by
    rw [counters, hledger]
    rfl
  unfold accountUsage
  rw [hsettled]
  show (({ st with ledger } : Provider C).addAccounting o op usage).1.attempts = _
  unfold addAccounting
  split
  · exact congrArg (fun counters => { st.attempts with counters }) hcounters
  · split
    · exact congrArg (fun counters => { st.attempts with counters }) hcounters
    · rename_i combined _ _ _ _
      refine (congrArg (fun counters => { st.attempts with
        operations := (st.operations.set o { op with aggregate := combined }).map
          ModelOperation.core
        counters }) hcounters).trans ?_
      exact congrArg (fun operations =>
        { st.attempts with operations, counters := st.counters.addUsage usage })
        (hoperations combined)

end Provider

-- ============================================================================
-- Observations
-- ============================================================================

variable [CostNumber C]

theorem normalizeOwnedUsage_attempts {value : Option (RawUsage C)} {limits : CallUsageLimits C}
    {usage : CallUsage C} (h : normalizeOwnedUsage value limits = some usage) :
    usage.attempts = 1 := by
  unfold normalizeOwnedUsage at h
  split at h
  · exact absurd h nofun
  · dsimp only at h
    split at h
    · exact Option.some.inj h ▸ rfl
    · exact absurd h nofun

omit [CostNumber C] in
theorem rejectedOutcome_usage {cancelled : Bool} {usage : CallUsage C} :
    (rejectedOutcome cancelled usage).usage = usage := by
  cases cancelled <;> rfl

/-- Every observation counts one attempt. -/
theorem observe_attempts {invocation : Invocation} {limits : CallUsageLimits C}
    {signalAborted : Bool} {measured : CallUsage C} {effect : Effect C}
    {observation : Observation C} (hmeasured : measured.attempts = 1)
    (h : invocation.observe limits signalAborted measured effect = some observation) :
    observation.usage.attempts = 1 := by
  cases invocation with
  | complete request =>
    change observeComplete limits signalAborted measured effect = some observation at h
    unfold observeComplete at h
    split at h
    · split at h
      · rename_i operationAborted failure code usage hfailure
        obtain ⟨failure, -, hfailure⟩ := Option.bind_eq_some_iff.mp hfailure
        have husage : usage.attempts = 1 := by
          unfold normalizePiFailure at hfailure
          split at hfailure
          · rename_i husage
            split at hfailure
            · obtain ⟨-, rfl⟩ := Prod.mk.inj (Option.some.inj hfailure)
              exact normalizeOwnedUsage_attempts husage
            · exact absurd hfailure nofun
          · exact absurd hfailure nofun
        split at h <;> exact Option.some.inj h ▸ husage
      · rw [← Option.some.inj h, rejectedOutcome_usage]
        exact hmeasured
    · split at h
      · exact Option.some.inj h ▸ hmeasured
      · rename_i text value usage husage
        unfold normalizeModelResponse at husage
        split at husage
        · exact Option.some.inj h ▸ normalizeOwnedUsage_attempts husage
        · exact absurd husage nofun
    · exact absurd h nofun
  | runExternal identity =>
    change observeExternal signalAborted measured effect = some observation at h
    unfold observeExternal at h
    split at h
    · rw [← Option.some.inj h, rejectedOutcome_usage]
      exact hmeasured
    · exact Option.some.inj h ▸ hmeasured
    · exact absurd h nofun
  | runExternalReported identity =>
    change observeReported limits signalAborted measured effect = some observation at h
    unfold observeReported at h
    split at h
    · rw [← Option.some.inj h, rejectedOutcome_usage]
      exact hmeasured
    · split at h
      · exact Option.some.inj h ▸ hmeasured
      · rename_i reported outcome errorCode _ usage husage
        have hattempts : usage.attempts = 1 := by
          cases reported with
          | none => exact Except.ok.inj husage ▸ hmeasured
          | some value =>
            change (normalizeCallUsage value limits).map _ = .ok usage at husage
            cases hnormalized : normalizeCallUsage value limits with
            | error message => rw [hnormalized] at husage; exact absurd husage nofun
            | ok normalized => rw [hnormalized] at husage; exact Except.ok.inj husage ▸ rfl
        split at h
        · exact Option.some.inj h ▸ hattempts
        · dsimp only at h
          split_ifs at h <;> exact Option.some.inj h ▸ hattempts
    · exact absurd h nofun

omit [CostNumber C] in
theorem optionalInteger_elim {key : JsString} {max : Nat} {n : Option Nat}
    (h : ∀ m ∈ n, m ≤ maxSafeInteger ∧ m ≤ max) :
    (n.elim UsageField.absent UsageField.integer).optionalInteger key max = .ok n := by
  cases n with
  | none => rfl
  | some m =>
    have hinteger : (UsageField.integer m).integer? max = some m := if_pos (h m rfl)
    show (UsageField.integer m).optionalInteger key max = _
    rw [UsageField.optionalInteger, if_neg nofun, hinteger]

/-- A usage that the ledger accepts passes the rule for settlements. -/
theorem settlementUsageOk_of_reportOk {ledger : Ledger C} {usage : CallUsage C}
    (hattempts : usage.attempts = 1)
    (h : ledger.reportOk usage.total usage.input usage.output usage.cost usage.durationMs = true) :
    OperationRecovery.settlementUsageOk usage = true := by
  simp only [Ledger.reportOk, Bool.and_eq_true, decide_eq_true_eq, and_assoc] at h
  obtain ⟨htotal, hinput, houtput, hparts, hfinite, hzero, hcost, hduration, -⟩ := h
  have hsafe : maxCallTokens ≤ maxSafeInteger := by decide
  have hinputs : ∀ m ∈ usage.inputTokens, m ≤ maxSafeInteger ∧ m ≤ maxCallTokens := by
    intro m hm
    rw [CallUsage.input, Option.mem_def.mp hm] at hinput
    exact ⟨le_trans hinput hsafe, hinput⟩
  have houtputs : ∀ m ∈ usage.outputTokens, m ≤ maxSafeInteger ∧ m ≤ maxCallTokens := by
    intro m hm
    rw [CallUsage.output, Option.mem_def.mp hm] at houtput
    exact ⟨le_trans houtput hsafe, houtput⟩
  have htotals : ∀ m ∈ usage.totalTokens, m ≤ maxSafeInteger ∧ m ≤ maxCallTokens := by
    intro m hm
    rw [CallUsage.total, Option.mem_def.mp hm] at htotal
    exact ⟨le_trans htotal hsafe, htotal⟩
  have hcosts : (usage.costUsd.elim CostField.absent CostField.number).optionalCost
      (CostNumber.ofNat maxCallCostUsd) = .ok usage.costUsd := by
    rw [CallUsage.cost] at hfinite hzero hcost
    cases hc : usage.costUsd with
    | none => rfl
    | some c =>
      rw [hc] at hfinite hzero hcost
      refine if_pos ?_
      rw [Bool.and_eq_true, Bool.and_eq_true]
      exact ⟨⟨hfinite, hzero⟩, hcost⟩
  have hattempt : usage.raw.attempts.integer? (callUsageLimits (C := C)).maxAttempts = some 1 := by
    show (UsageField.integer usage.attempts).integer? _ = _
    rw [hattempts]
    rfl
  have hdurations : usage.raw.durationMs.integer? (callUsageLimits (C := C)).maxDurationMs =
      some usage.durationMs :=
    if_pos ⟨le_trans hduration (by decide), hduration⟩
  have hnormalized : normalizeCallUsage (some usage.raw) callUsageLimits =
      .ok ⟨1, usage.inputTokens, usage.outputTokens, usage.totalTokens, usage.costUsd,
        usage.durationMs⟩ := by
    have hin : usage.raw.inputTokens.optionalInteger (js "inputTokens")
        (callUsageLimits (C := C)).maxTokens = .ok usage.inputTokens := optionalInteger_elim hinputs
    have hout : usage.raw.outputTokens.optionalInteger (js "outputTokens")
        (callUsageLimits (C := C)).maxTokens = .ok usage.outputTokens := optionalInteger_elim houtputs
    have hall : usage.raw.totalTokens.optionalInteger (js "totalTokens")
        (callUsageLimits (C := C)).maxTokens = .ok usage.totalTokens := optionalInteger_elim htotals
    have hcostUsd : usage.raw.costUsd.optionalCost (callUsageLimits (C := C)).maxCostUsd =
        .ok usage.costUsd := hcosts
    rw [normalizeCallUsage, hattempt, hdurations]
    dsimp only
    rw [hin, hout, hall, hcostUsd]
    rfl
  rw [OperationRecovery.settlementUsageOk, hnormalized, Bool.and_eq_true]
  refine ⟨rfl, ?_⟩
  rw [CallUsage.total] at hparts
  cases ht : usage.totalTokens with
  | none => rfl
  | some total =>
    rw [ht] at hparts
    exact decide_eq_true hparts

-- ============================================================================
-- The condition on a run
-- ============================================================================

omit [CostNumber C] in
/-- A frame that the journal opens and does not close. -/
def frameIsOpen (journal : List (OperationEvent C)) (frameId : JsString) : Bool :=
  (journal.any fun event => match event with
    | .frameOpened f => f == frameId
    | _ => false) &&
  !journal.any fun event => match event with
    | .frameClosed f => f == frameId
    | _ => false

omit [CostNumber C] in
theorem frameOpen_of_isOpen {journal : List (OperationEvent C)} {frameId : JsString}
    (h : frameIsOpen journal frameId = true) : FrameOpen journal frameId := by
  rw [frameIsOpen, Bool.and_eq_true, List.any_eq_true, Bool.not_eq_true', List.any_eq_false] at h
  obtain ⟨⟨event, hmem, hopens⟩, hcloses⟩ := h
  constructor
  · cases event with
    | frameOpened f => exact beq_iff_eq.mp hopens ▸ hmem
    | frameClosed | intended | settled => exact absurd hopens nofun
  · exact fun hin => hcloses _ hin (beq_self_eq_true frameId)

/-- The journal commits every append. -/
def ProviderStep.appends : ProviderStep C → Bool
  | .intentAppended _ outcome _ => outcome == .committed
  | .settlementAppended _ outcome => outcome == .committed
  | _ => true

namespace Provider

/-- A granted call that reserves makes the only attempt of its operation, after the latest
    one, and goes on to the append of its intent. -/
def reservesInTurn (st : Provider C) (c : Nat) (now : Readings) : Bool :=
  match st.calls[c]? with
  | some ⟨o, invocation, tokens, .granted⟩ =>
    match st.operations[o]? with
    | none => true
    | some op =>
      match st.checkpoint op now.checkpoint, st.reserve o op tokens now with
      | none, .ok (next, _) =>
        decide (op.attemptOrdinal = (st.operationAttempts op.attemptKey).getD 0) &&
        st.live.all (fun x => x.intent.attemptKey != op.attemptKey) &&
        (next.ledger.acquireLeaf.any fun ledger =>
          ({ next with ledger }.refusal op invocation now.secondCheckpoint).isNone)
      | _, _ => true
  | _ => true

/-- The ledger accepts the usage of an effect, and the sum of its operation stays in range. -/
def acceptsUsage (st : Provider C) (c : Nat) (effect : Effect C) (now : Int) : Bool :=
  match st.calls[c]? with
  | some ⟨o, invocation, _, .launched _ startedMs⟩ =>
    match st.operations[o]? with
    | none => true
    | some op =>
      match invocation.observe (usageLimits st.wallMs) (st.aborted.contains op.signal)
        (measuredUsage startedMs now) effect with
      | none => true
      | some observation =>
        st.authority == false ||
        (st.ledger.reportOk observation.usage.total observation.usage.input
            observation.usage.output observation.usage.cost observation.usage.durationMs &&
          (sumUsages (operationHistory st.history o ++ [observation.usage])).isOk)
  | _ => true

/-- A settlement finds the frame of its operation open. -/
def settlesInFrame (st : Provider C) (c : Nat) : Bool :=
  match st.calls[c]? with
  | some ⟨_, _, _, .settling event⟩ => frameIsOpen st.journal event.frameId
  | _ => true

/-- The steps whose bookkeeping the journal can repeat. -/
def accounted (st : Provider C) : ProviderStep C → Bool
  | .acquired c now => st.reservesInTurn c now
  | .effectEnded c effect now => st.acceptsUsage c effect now
  | .settlementAppended c _ => st.settlesInFrame c
  | _ => true

-- ============================================================================
-- Refinement
-- ============================================================================

variable {st st' : Provider C} {c : Nat}

omit [CostNumber C] in
/-- An attempt of a state, at the head of the live ones. -/
theorem live_perm {call : ProviderCall C} {phase : CallPhase C} {x : LiveAttempt C}
    (hcall : st.calls[c]? = some call) (hx : call.attempt? = some x) : ∃ rest,
    st.live.Perm (x :: rest) ∧
      (st.setPhase c phase).live.Perm ((phase.attempt? call.operation).toList ++ rest) := by
  obtain ⟨rest, hbefore, hafter⟩ := live_setPhase hcall
  rw [hx] at hbefore
  exact ⟨rest, hbefore, hafter⟩

omit [CostNumber C] in
/-- A call that does not have an attempt and gets one. -/
theorem live_setPhase_new {call : ProviderCall C} {phase : CallPhase C} {x : LiveAttempt C}
    (hcall : st.calls[c]? = some call) (hnone : call.attempt? = none)
    (hx : phase.attempt? call.operation = some x) :
    (st.setPhase c phase).live.Perm (x :: st.live) := by
  obtain ⟨rest, hbefore, hafter⟩ := live_setPhase hcall
  rw [hnone] at hbefore
  rw [hx] at hafter
  exact hafter.trans (List.Perm.cons x hbefore.symm)

omit [CostNumber C] in
theorem attempt_none_of_call {call : ProviderCall C} (hcall : st.calls[c]? = some call)
    (hnone : call.attempt? = none) :
    ∀ call, st.calls[c]? = some call → call.attempt? = none := by
  intro call' hcall'
  obtain rfl := Option.some.inj (hcall.symm.trans hcall')
  exact hnone

omit [CostNumber C] in
theorem attempts_concat {call : ProviderCall C} (hnone : call.attempt? = none) :
    ({ st with calls := st.calls ++ [call] } : Provider C).attempts = st.attempts := by
  refine congrArg (fun live => ({ st.attempts with live } : Attempts C)) ?_
  show (st.calls ++ [call]).filterMap _ = st.calls.filterMap _
  rw [List.filterMap_append, List.filterMap_cons, hnone, List.filterMap_nil, List.append_nil]

omit [CostNumber C] in
/-- A new call has no attempt yet. -/
theorem attempts_acquire {call : ProviderCall C} {aborted : Bool} :
    (st.acquire call aborted).attempts = st.attempts := by
  unfold acquire
  split
  · exact attempts_concat rfl
  · split
    · exact @attempts_concat C st { call with phase := .granted } rfl
    · exact @attempts_concat C st { call with phase := .waiting } rfl

theorem attempts_abort (h : Balanced st 0 0 0) (signal : Nat) :
    (st.abort signal).attempts = st.attempts := by
  have hfold : ∀ (us : List Nat) (st : Provider C),
      (∀ c ∈ us, ∀ call, st.calls[c]? = some call → call.attempt? = none) →
      (us.foldl (fun st c => st.setPhase c .refused) st).attempts = st.attempts := by
    intro us
    induction us with
    | nil => exact fun st _ => rfl
    | cons c us ih =>
      intro st hus
      have hset : (st.setPhase c .refused).attempts = st.attempts :=
        congrArg (fun live => ({ st.attempts with live } : Attempts C))
          (live_setPhase_none (hus c List.mem_cons_self) fun _ => rfl)
      refine (ih (st.setPhase c .refused) fun d hd => ?_).trans hset
      exact attempt_none_setPhase (hus d (List.mem_cons_of_mem c hd)) fun _ => rfl
  let marked : Provider C := { st with aborted := signal :: st.aborted }
  exact hfold (st.waiters.filter marked.signalAborted) marked fun c hc =>
    h.waiters_none c (List.mem_of_mem_filter hc)

theorem acquired_refines {now : Readings} (h : Balanced st 0 0 0)
    (haccounted : st.reservesInTurn c now = true) (hstep : st.acquired c now = some st') :
    st.attempts.Step st'.attempts := by
  obtain ⟨o, invocation, tokens, op, hop, ⟨hcall, rfl⟩ | ⟨outcome, -, hcall, rfl⟩⟩ :=
    acquired_cases hstep
  · have hnone := attempt_none_of_call hcall rfl
    rcases reserved_cases st c o op invocation tokens now with
      ⟨outcome, -, heq⟩ | ⟨next, reservation, hcheckpoint, hreserve, hnext⟩
    · rw [heq, attempts_finish h.waiters_none, live_setPhase_none hnone fun _ => rfl]
      exact .quiet
    · unfold reservesInTurn at haccounted
      rw [hcall] at haccounted
      dsimp only at haccounted
      rw [hop] at haccounted
      dsimp only at haccounted
      rw [hcheckpoint, hreserve] at haccounted
      dsimp only at haccounted
      rw [Bool.and_eq_true, Bool.and_eq_true, decide_eq_true_eq, List.all_eq_true,
        Option.any_eq_true] at haccounted
      obtain ⟨⟨hcurrent, hidle⟩, ledger, hacquired, hintends⟩ := haccounted
      have hintent : st.reserved c o op invocation tokens now =
          { next with ledger }.setPhase c (.intending (intent op invocation reservation)) := by
        rcases hnext with ⟨hnone, -⟩ | ⟨ledger', hacquired', ⟨outcome, -, hrefusal, -⟩ | ⟨-, heq⟩⟩
        · exact absurd (hnone.symm.trans hacquired) nofun
        · obtain rfl := Option.some.inj (hacquired.symm.trans hacquired')
          rw [hrefusal] at hintends
          exact absurd hintends nofun
        · obtain rfl := Option.some.inj (hacquired.symm.trans hacquired')
          exact heq
      obtain ⟨-, rfl, hreservation⟩ := reserve_ok hreserve
      obtain rfl := Ledger.acquireLeaf_some hacquired
      rw [hintent]
      have hkeys : ∀ x ∈ st.live, x.intent.attemptKey ≠ op.attemptKey :=
        fun x hx => bne_iff_ne.mp (hidle x hx)
      have hcore : st.attempts.operations[o]? = some op.core := by
        show (st.operations.map ModelOperation.core)[o]? = _
        rw [List.getElem?_map, hop]
        rfl
      -- The new attempt is the operation's own, and the rest of the state is as before.
      have hlive : (st.setPhase c (.intending (intent op invocation reservation))).live.Perm
          (⟨o, intent op invocation reservation, .intending⟩ :: st.live) :=
        live_setPhase_new hcall rfl rfl
      refine (congrArg (Attempts.Step st.attempts) ?_).mpr
        (.reserve hcore hcurrent hkeys rfl rfl hreservation hlive)
      exact congrArg (fun operations => ({ st.attempts with
        live := (st.setPhase c (.intending (intent op invocation reservation))).live
        operations
        operationAttempts := Function.update st.operationAttempts op.attemptKey
          (some (op.attemptOrdinal + 1))
        counters := { st.counters with attempts := st.ledger.usage.attempts + 1 } } : Attempts C))
        List.map_set
  · have hnone := attempt_none_of_call hcall rfl
    have hsame : (st.setPhase c (.ended outcome)).attempts = st.attempts :=
      congrArg (fun live => { st.attempts with live }) (live_setPhase_none hnone fun _ => rfl)
    rw [hsame]
    exact .quiet

theorem intentAppended_refines {outcome : AppendOutcome} {now : Int}
    (happends : outcome = .committed) (hstep : st.intentAppended c outcome now = some st') :
    st.attempts.Step st'.attempts := by
  obtain ⟨o, invocation, tokens, intent, hcall, ⟨-, rfl⟩ | ⟨inJournal, hfailed, -⟩⟩ :=
    intentAppended_cases hstep
  · obtain ⟨rest, hbefore, hafter⟩ := @live_perm C st c _ (.launched intent now) _ hcall rfl
    exact .launch hbefore hafter
  · exact absurd (happends.symm.trans hfailed) nofun

theorem effectEnded_refines {effect : Effect C} {now : Int} (h : Balanced st 0 0 0)
    (haccounted : st.acceptsUsage c effect now = true)
    (hstep : st.effectEnded c effect now = some st') : st.attempts.Step st'.attempts := by
  obtain ⟨o, invocation, tokens, intent, startedMs, op, hcall, hop,
    ⟨-, rfl⟩ | ⟨hopen, observation, hobserve, rfl⟩⟩ := effectEnded_cases hstep
  · rw [attempts_finish h.waiters_none]
    obtain ⟨rest, hbefore, hafter⟩ := @live_perm C st c _ (.ended .unauthorized) _ hcall rfl
    exact .abandon (hbefore.trans (List.Perm.cons _ hafter.symm))
  · unfold acceptsUsage at haccounted
    rw [hcall] at haccounted
    dsimp only at haccounted
    rw [hop] at haccounted
    dsimp only at haccounted
    rw [hobserve] at haccounted
    dsimp only at haccounted
    rw [hopen, Bool.or_eq_true, Bool.and_eq_true] at haccounted
    obtain ⟨hreport, hsum⟩ := haccounted.resolve_left (by simp)
    have hreserved : tokens ≤ st.ledger.usage.tokensReserved := by
      rw [h.tokens]
      exact Nat.le_add_right_of_le (le_tally (f := ProviderCall.reservedTokens) hcall)
    obtain ⟨ledger, hsettled⟩ := Ledger.settleAttemptUsage_of_reportOk h.accounting hreserved hreport
    generalize hevent : settlement intent observation
      (st.accountUsage o op tokens observation.usage).2 = event
    have hintent : event.intent = intent ∧ event.frameId = intent.frameId ∧
        event.usage = observation.usage := by
      rw [← hevent]
      unfold settlement
      split <;> exact ⟨rfl, rfl, rfl⟩
    obtain ⟨rest, hbefore, hafter⟩ := @live_perm C st c _ (.settling event) _ hcall rfl
    have hsafe : st.ledger.usage.tokensUsed + event.usage.total ≤ maxSafeInteger := by
      simp only [Ledger.reportOk, Bool.and_eq_true, decide_eq_true_eq, and_assoc] at hreport
      rw [hintent.2.2]
      exact hreport.2.2.2.2.2.2.2.2.1
    have hsum : ∃ sum, sumUsages (operationHistory st.history o ++ [event.usage]) = .ok sum := by
      rw [hintent.2.2]
      cases hsums : sumUsages (operationHistory st.history o ++ [observation.usage]) with
      | ok sum => exact ⟨sum, rfl⟩
      | error message =>
        rw [hsums] at hsum
        cases hsum
    have husage : OperationRecovery.settlementUsageOk event.usage = true := by
      rw [hintent.2.2]
      exact settlementUsageOk_of_reportOk (observe_attempts rfl hobserve) hreport
    have hlive : (st.setPhase c (.settling event)).live.Perm
        (⟨o, intent, .settling event⟩ :: rest) := by
      have hsame : (CallPhase.settling event : CallPhase C).attempt? o =
          some ⟨o, intent, .settling event⟩ := by
        rw [← hintent.1]
        rfl
      rw [hsame] at hafter
      exact hafter
    refine (congrArg (Attempts.Step st.attempts) ?_).mpr
      (.settle hbefore hlive ⟨hintent.1, hintent.2.1⟩ husage hsum hsafe)
    have hcounted := @attempts_accountUsage C (st.setPhase c (.settling event)) _ o tokens op
      observation.usage ledger hop hsettled
    rw [accountUsage_setPhase] at hcounted
    rw [hintent.2.2]
    let entry : SettledUsage C := ⟨o, observation.usage⟩
    exact congrArg (fun attempts : Attempts C =>
      { attempts with history := st.history ++ [entry] }) hcounted

theorem settlementAppended_refines {outcome : AppendOutcome} (h : Balanced st 0 0 0)
    (happends : outcome = .committed) (haccounted : st.settlesInFrame c = true)
    (hstep : st.settlementAppended c outcome = some st') : st.attempts.Step st'.attempts := by
  obtain ⟨o, invocation, tokens, event, hcall, ⟨-, rfl⟩ | ⟨inJournal, hfailed, -⟩⟩ :=
    settlementAppended_cases hstep
  · unfold settlesInFrame at haccounted
    rw [hcall] at haccounted
    have hwaiters : ∀ d ∈ (st.appendEvent (.settled event) .committed).waiters, ∀ call,
        (st.appendEvent (.settled event) .committed).calls[d]? = some call → call.attempt? = none :=
      h.waiters_none
    rw [attempts_finish hwaiters]
    obtain ⟨rest, hbefore, hafter⟩ := @live_perm C st c _ (.ended .settled) _ hcall rfl
    exact .record (hbefore.trans (List.Perm.cons _ hafter.symm)) (frameOpen_of_isOpen haccounted)
  · exact absurd (happends.symm.trans hfailed) nofun

/-- A step that the journal can repeat is one of the abstract account. -/
theorem step_refines {e : ProviderStep C} (h : Balanced st 0 0 0) (happends : e.appends = true)
    (haccounted : st.accounted e = true) (hstep : st.step e = some st') :
    st.attempts.Step st'.attempts := by
  cases e with
  | create frame operationId kind key signal deadlineMs =>
    obtain rfl := Option.some.inj hstep
    let core : OperationCore := ⟨frame.frameId, operationId, false,
      (st.operationAttempts (Runtime.attemptKey frame.frameId operationId)).getD 0⟩
    refine (congrArg (Attempts.Step st.attempts) ?_).mpr (.create core rfl)
    exact congrArg (fun operations => ({ st.attempts with operations } : Attempts C))
      List.map_append
  | «begin» o invocation now =>
    rcases begin_cases hstep with ⟨outcome, -, rfl⟩ | ⟨tokens, aborted, rfl⟩
    · rw [attempts_concat rfl]
      exact .quiet
    · rw [attempts_acquire]
      exact .quiet
  | acquired c now => exact acquired_refines h haccounted hstep
  | intentAppended c outcome now =>
    exact intentAppended_refines (beq_iff_eq.mp happends) hstep
  | effectEnded c effect now => exact effectEnded_refines h haccounted hstep
  | settlementAppended c outcome =>
    exact settlementAppended_refines h (beq_iff_eq.mp happends) haccounted hstep
  | abort signal =>
    obtain rfl := Option.some.inj hstep
    rw [attempts_abort h]
    exact .quiet
  | closeAuthority | otherUsage =>
    obtain rfl := Option.some.inj hstep
    exact .quiet
  | frameEvent frameId closed =>
    obtain rfl := Option.some.inj hstep
    exact .frameEvent frameId closed

-- ============================================================================
-- Runs
-- ============================================================================

/-- The journal and the ledger that a run starts or resumes with agree. -/
structure Resumable (ledger : Ledger C) (journal : List (OperationEvent C))
    (operationAttempts : JsString → Option Nat) (d : DerivedUsage C) (r : OperationRecovery C) :
    Prop where
  derived : deriveUsage journal = some d
  recovered : recoverOperations journal = .ok r
  attempts : ledger.usage.attempts = d.attempts
  tokensUsed : ledger.usage.tokensUsed = d.tokensUsed
  inputTokensUsed : ledger.usage.inputTokensUsed = d.inputTokensUsed
  outputTokensUsed : ledger.usage.outputTokensUsed = d.outputTokensUsed
  providerDurationMs : ledger.usage.providerDurationMs = d.providerDurationMs
  ordinals : ∀ attempt ∈ r.attempts,
    attempt.intent.attempt ≤ (operationAttempts attempt.intent.attemptKey).getD 0

variable {profile : ProviderProfile} {ledger : Ledger C} {journal : List (OperationEvent C)}
  {operationAttempts : JsString → Option Nat} {es : List (ProviderStep C)} {d : DerivedUsage C}
  {r : OperationRecovery C}

theorem initial_recorded (h : Resting ledger profile)
    (hresume : Resumable ledger journal operationAttempts d r) :
    Recorded (initial profile ledger journal operationAttempts).attempts d r where
  folded := Folded.of_folds hresume.derived hresume.recovered
  counted := ⟨hresume.attempts, hresume.tokensUsed, hresume.inputTokensUsed,
    hresume.outputTokensUsed, hresume.providerDurationMs⟩
  reserved := Nat.zero_le _
  safe := (Ledger.accountingOk_iff.mp h.accounting).2.1
  keys := List.nodup_nil
  bounds := hresume.ordinals
  history _ hentry := absurd hentry List.not_mem_nil
  live _ hx := absurd hx List.not_mem_nil
  ordinals _ _ hop := absurd hop nofun
  fresh _ _ hop := absurd hop nofun
  latest _ _ _ _ hop := absurd hop nofun
  idle _ _ hop := absurd hop nofun

/-- Along a run that is accounted, recovery accepts the journal in every state, and derives
    the ledger's usage of it whenever no attempt is live. -/
theorem journal_agrees (h : Resting ledger profile)
    (hresume : Resumable ledger journal operationAttempts d r)
    (haccounted : Machine.Along step (fun st e => e.appends = true ∧ st.accounted e = true)
      (initial profile ledger journal operationAttempts) es)
    (hrun : Machine.run step (initial profile ledger journal operationAttempts) es = some st) :
    ∃ d' r', deriveUsage st.journal = some d' ∧ recoverOperations st.journal = .ok r' ∧
      ((∀ call ∈ st.calls, call.attempt? = none) → st.counters = d'.counters) := by
  have hinv : Balanced st 0 0 0 ∧ ∃ d' r', Recorded st.attempts d' r' := by
    refine Machine.run_invariant (I := fun st => Balanced st 0 0 0 ∧
      ∃ d' r', Recorded st.attempts d' r') (fun s e s' hI hcond hstep => ?_)
      ⟨initial_balanced h, d, r, initial_recorded h hresume⟩ haccounted hrun
    obtain ⟨hbalanced, d', r', hrecorded⟩ := hI
    exact ⟨hbalanced.step hstep,
      hrecorded.step (step_refines hbalanced hcond.1 hcond.2 hstep)⟩
  obtain ⟨-, d', r', hrecorded⟩ := hinv
  refine ⟨d', r', hrecorded.folded.derived, hrecorded.folded.recovered, fun hquiet => ?_⟩
  exact hrecorded.counters_eq (List.filterMap_eq_nil_iff.mpr hquiet)

/-- A run of one agent call, up to its result. -/
def oneReport (totalTokens : Nat) : List (ProviderStep ℚ) :=
  [.create ⟨js "f", []⟩ (js "op") .agent (js "k") 0 100,
    .begin 0 (.runExternalReported ⟨agentRequestIdentityVersion, List.replicate 64 0x61⟩) 1,
    .acquired 0 ⟨2, 2, 2, 2⟩, .intentAppended 0 .committed 3,
    .effectEnded 0 (.result (some (some ⟨.integer 1, .integer 2, .absent, .integer totalTokens,
      .absent, .integer 0⟩)) (some .ok) none) 4,
    .settlementAppended 0 .committed]

def oneFrame : Provider ℚ :=
  initial ⟨1, 1000, Nat.one_pos⟩ (createLedger ⟨0, 1, 8, 8, 8, 1, none, 0, 100⟩)
    [.frameOpened (js "f")] fun _ => none

theorem journal_agrees_oneReport :
    ∃ st d, Machine.run step oneFrame (oneReport 3) = some st ∧
      deriveUsage st.journal = some d ∧ st.counters = d.counters ∧ st.counters.tokensUsed = 3 := by
  have haccounted : Machine.Along step (fun st e => e.appends = true ∧ st.accounted e = true)
      oneFrame (oneReport 3) := by decide +kernel
  have hrun : ((Machine.run step oneFrame (oneReport 3)).map fun st =>
      (st.live.length, st.counters.tokensUsed)) = some (0, 3) := by decide +kernel
  obtain ⟨st, hst, hend⟩ := Option.map_eq_some_iff.mp hrun
  obtain ⟨hlive, htokens⟩ := Prod.mk.inj hend
  have hresume : Resumable (createLedger (C := ℚ) ⟨0, 1, 8, 8, 8, 1, none, 0, 100⟩)
      [.frameOpened (js "f")] (fun _ => none) DerivedUsage.zero
      { OperationRecovery.empty with opened := [js "f"] } :=
    ⟨rfl, rfl, rfl, rfl, rfl, rfl, rfl, fun _ hmem => absurd hmem List.not_mem_nil⟩
  obtain ⟨d, r, hderived, -, hquiet⟩ :=
    journal_agrees (resting_createLedger rfl) hresume haccounted hst
  exact ⟨st, d, hst, hderived,
    hquiet (List.filterMap_eq_nil_iff.mp (List.eq_nil_of_length_eq_zero hlive)), htokens⟩

/-- A total below its parts: the ledger refuses the usage, and the journal records it. -/
theorem oneReport_diverges :
    ∃ st d, Machine.run step oneFrame (oneReport 1) = some st ∧
      (∀ e ∈ oneReport 1, e.appends = true) ∧ (∀ call ∈ st.calls, call.attempt? = none) ∧
      deriveUsage st.journal = some d ∧ st.counters.tokensUsed = 0 ∧ d.counters.tokensUsed = 1 ∧
      recoverOperations st.journal = .error (js "operation settlement usage is invalid") := by
  have hrun : (Machine.run step oneFrame (oneReport 1)).isSome = true := rfl
  have hlive : ((Machine.run step oneFrame (oneReport 1)).get hrun).live.length = 0 := rfl
  refine ⟨_, _, (Option.some_get hrun).symm, ?_, ?_, rfl, rfl, rfl, rfl⟩
  · decide
  · exact List.filterMap_eq_nil_iff.mp (List.eq_nil_of_length_eq_zero hlive)

end Provider

end PiRlm.Runtime

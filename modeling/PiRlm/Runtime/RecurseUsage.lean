/-
  PiRlm.Runtime.RecurseUsage

  The usage scopes of nested recurse calls: `runChild` of `runtime/frame.ts` over the
  provider boundary.

  An execution opens a scope under its call id and removes it when it is finished.  Every
  usage that an operation settles is added to the scopes around its frame.  A call with an
  execution in flight waits for it, so a call id has one execution at a time.
-/
import Mathlib
import PiRlm.Core.Ids
import PiRlm.Runtime.ProviderAccounting

namespace PiRlm.Runtime

open PiRlm.Lib PiRlm.Core

variable {C : Type} [CostNumber C]

structure RecurseExecution (C : Type) where
  callId : JsString
  frameId : JsString
  depth : Nat
  /-- The scopes of its frame: those of the parent frame and its own. -/
  usageScopes : List JsString
  /-- The executions that these scopes belong to. -/
  path : List Nat
  running : Bool
  /-- The usage that its result is made with. -/
  result : Option (CallUsage C)

structure RecurseRun (C : Type) where
  runId : JsString
  provider : Provider C
  executions : List (RecurseExecution C)
  recurseExecutions : JsString → Option Nat
  /-- The executions around the frame of each operation; no code reads them. -/
  paths : List (List Nat)

/-- What a child or an operation takes from its frame. -/
structure RecurseFrame where
  frameId : JsString
  depth : Nat
  usageScopes : List JsString
  path : List Nat
  deriving Repr, DecidableEq

inductive RecurseStep (C : Type) where
  /-- An operation of the root frame, or of the frame of an execution. -/
  | operation (frame : Option Nat) (operationId : JsString) (kind : OperationKind)
      (key : JsString) (signal : Nat) (deadlineMs : Int)
  | provider (e : ProviderStep C)
  /-- `runChild` from the root frame, or from the frame of an execution. -/
  | call (parent : Option Nat) (callId : JsString) (now : Int)
  /-- The execution reads `recurseUsage()` for its result. -/
  | result (x : Nat)
  /-- The `finally` block of an execution. -/
  | finished (x : Nat)

def ProviderStep.isCreate : ProviderStep C → Bool
  | .create .. => true
  | _ => false

namespace RecurseRun

variable (st : RecurseRun C)

omit [CostNumber C] in
def frame : Option Nat → Option RecurseFrame
  | none => some ⟨rootFrameId st.runId, 0, [], []⟩
  | some x => (st.executions[x]?).map fun ex => ⟨ex.frameId, ex.depth, ex.usageScopes, ex.path⟩

omit [CostNumber C] in
def setScope (scope : JsString) (usage : Option (CallUsage C)) : RecurseRun C :=
  { st with
    provider := { st.provider with
      scopeUsage := Function.update st.provider.scopeUsage scope usage } }

omit [CostNumber C] in
/-- `inflight.get(callId)`. -/
def inFlight (callId : JsString) : Bool :=
  st.executions.any fun ex => ex.running && ex.callId == callId

omit [CostNumber C] in
/-- `recurseUsage()`. -/
def recurseUsage (callId : JsString) : CallUsage C :=
  (st.provider.scopeUsage callId).getD zeroCallUsage

omit [CostNumber C] in
/-- The next execution of a call id under a parent frame. -/
def childExecution (parent : RecurseFrame) (callId : JsString) (execution : Nat) :
    RecurseExecution C where
  callId
  frameId := childFrameId st.runId callId execution
  depth := parent.depth + 1
  usageScopes := parent.usageScopes ++ [callId]
  path := parent.path ++ [st.executions.length]
  running := true
  result := none

/-- The opening of an execution under a parent frame. -/
def openExecution (parent : RecurseFrame) (callId : JsString) (ledger : Ledger C) : RecurseRun C :=
  let execution := (st.recurseExecutions callId).getD 0 + 1
  { st with
    provider := { st.provider with
      ledger
      scopeUsage := Function.update st.provider.scopeUsage callId (some zeroCallUsage) }
    executions := st.executions ++ [st.childExecution parent callId execution]
    recurseExecutions := Function.update st.recurseExecutions callId (some execution) }

/-- A recurse call from a frame, up to the opening of its own frame. -/
def call (parent : RecurseFrame) (callId : JsString) (now : Int) : RecurseRun C :=
  if st.inFlight callId then st
  else
    match (st.provider.ledger.reserveLogicalCall now).bind fun reserved =>
        reserved.openFrame (parent.depth + 1) with
    | .error _ => st.setScope callId none
    | .ok ledger => st.openExecution parent callId ledger

def step (st : RecurseRun C) : RecurseStep C → Option (RecurseRun C)
  | .operation frame operationId kind key signal deadlineMs =>
    (st.frame frame).map fun frame =>
      { st with
        provider := st.provider.create ⟨frame.frameId, frame.usageScopes⟩ operationId kind key
          signal deadlineMs
        paths := st.paths ++ [frame.path] }
  | .provider e =>
    if e.isCreate then none else (st.provider.step e).map fun provider => { st with provider }
  | .call parent callId now => (st.frame parent).map fun parent => st.call parent callId now
  | .result x =>
    match st.executions[x]? with
    | some ex =>
      if ex.running then
        some { st with
          executions := st.executions.set x
            { ex with result := some (st.recurseUsage ex.callId) } }
      else none
    | none => none
  | .finished x =>
    match st.executions[x]? with
    | some ex =>
      if ex.running then
        some { st.setScope ex.callId none with
          executions := st.executions.set x { ex with running := false } }
      else none
    | none => none

def initial (runId : JsString) (provider : Provider C)
    (recurseExecutions : JsString → Option Nat) : RecurseRun C :=
  ⟨runId, provider, [], recurseExecutions, []⟩

omit [CostNumber C] in
/-- The usages settled by the operations of an execution's own subtree, in their order. -/
def subtreeUsage (x : Nat) : List (CallUsage C) :=
  (st.provider.history.filter fun entry =>
    (st.paths.getD entry.operation []).contains x).map (·.usage)

/-- The accounting of a usage stays within its bounds in every sum that it goes to. -/
def accountable (provider : Provider C) (op : ModelOperation C) (tokens : Nat)
    (usage : CallUsage C) : Bool :=
  (provider.ledger.settleAttemptUsage tokens usage).isOk &&
  (addUsage op.aggregate usage).isOk &&
  op.frame.usageScopes.all fun scope =>
    (addUsage ((provider.scopeUsage scope).getD zeroCallUsage) usage).isOk

/-- An operation settles while every execution around its frame is in flight and has not
    made its result, and its usage is accountable. -/
def settlesInScope (c : Nat) (effect : Effect C) (now : Int) : Bool :=
  let provider := st.provider
  match provider.calls[c]? with
  | some ⟨o, invocation, tokens, .launched _ startedMs⟩ =>
    match provider.operations[o]? with
    | none => true
    | some op =>
      match invocation.observe (usageLimits provider.wallMs) (provider.aborted.contains op.signal)
        (measuredUsage startedMs now) effect with
      | none => true
      | some observation =>
        provider.authority == false || (st.paths.getD o []).isEmpty ||
        ((st.paths.getD o []).all (fun x =>
            (st.executions[x]?).any fun ex => ex.running && ex.result.isNone) &&
          accountable provider op tokens observation.usage)
  | _ => true

def attributed (st : RecurseRun C) : RecurseStep C → Bool
  | .provider (.effectEnded c effect now) => st.settlesInScope c effect now
  | _ => true

end RecurseRun

-- ============================================================================
-- What a step of the provider does to the scopes
-- ============================================================================

namespace Provider

variable {st st' : Provider C}

omit [CostNumber C] in
theorem frames_set {o : Nat} {op op' : ModelOperation C} (hop : st.operations[o]? = some op)
    (hframe : op'.frame = op.frame) :
    (st.operations.set o op').map (·.frame) = st.operations.map (·.frame) := by
  have hget : (st.operations.map (·.frame))[o]? = some op.frame := by
    rw [List.getElem?_map, hop]
    rfl
  obtain ⟨hlt, hget⟩ := List.getElem?_eq_some_iff.mp hget
  rw [List.map_set, hframe, ← hget]
  exact List.set_getElem_self hlt

omit [CostNumber C] in
theorem frames_poison (o : Nat) :
    (st.poison o).operations.map (·.frame) = st.operations.map (·.frame) := by
  show (st.operations.modify o _).map _ = _
  cases hop : st.operations[o]? with
  | none =>
    rw [List.modify_eq_set_getElem?, hop]
    rfl
  | some op =>
    rw [List.modify_eq_set_getElem?, hop]
    exact frames_set hop rfl

/-- Two states with the same scopes, history and frames of operations. -/
structure SameScopes (st st' : Provider C) : Prop where
  scopeUsage : st'.scopeUsage = st.scopeUsage
  history : st'.history = st.history
  frames : st'.operations.map (·.frame) = st.operations.map (·.frame)

omit [CostNumber C] in
theorem SameScopes.trans {st'' : Provider C} (h : SameScopes st st') (h' : SameScopes st' st'') :
    SameScopes st st'' :=
  ⟨h'.scopeUsage.trans h.scopeUsage, h'.history.trans h.history, h'.frames.trans h.frames⟩

theorem sameScopes_finish (c tokens : Nat) (active : Bool) (outcome : CallEnd) :
    SameScopes st (st.finish c tokens active outcome) := by
  obtain ⟨ledger, calls, waiters, available, heq⟩ := finish_frame st c tokens active outcome
  rw [heq]
  exact ⟨rfl, rfl, rfl⟩

theorem sameScopes_reserved {c o tokens : Nat} {op : ModelOperation C} {invocation : Invocation}
    {now : Readings} (hop : st.operations[o]? = some op) :
    SameScopes st (st.reserved c o op invocation tokens now) := by
  rcases reserved_cases st c o op invocation tokens now with
    ⟨outcome, -, heq⟩ | ⟨next, reservation, -, hreserve, hnext⟩
  · rw [heq]
    exact sameScopes_finish c 0 false outcome
  · obtain ⟨-, rfl, -⟩ := reserve_ok hreserve
    have hreserved : ∀ ledger, SameScopes st { st with
        ledger
        operations := st.operations.set o
          { op with logicalReserved := true, attemptOrdinal := op.attemptOrdinal + 1 }
        operationAttempts := Function.update st.operationAttempts
          (attemptKey op.frame.frameId op.operationId) (some (op.attemptOrdinal + 1)) } :=
      fun _ => ⟨rfl, rfl, frames_set hop rfl⟩
    rcases hnext with ⟨-, heq⟩ | ⟨ledger, -, ⟨outcome, -, -, heq⟩ | ⟨-, heq⟩⟩
    · rw [heq]
      exact (hreserved _).trans (sameScopes_finish c tokens false .diverged)
    · rw [heq]
      exact (hreserved ledger).trans (sameScopes_finish c tokens true outcome)
    · rw [heq]
      exact (hreserved ledger).trans ⟨rfl, rfl, rfl⟩

omit [CostNumber C] in
theorem sameScopes_abort (signal : Nat) : SameScopes st (st.abort signal) := by
  have hfold : ∀ (us : List Nat) (st : Provider C),
      SameScopes st (us.foldl (fun st c => st.setPhase c .refused) st) := by
    intro us
    induction us with
    | nil => exact fun st => ⟨rfl, rfl, rfl⟩
    | cons c us ih =>
      intro st
      have hset : SameScopes st (st.setPhase c .refused) := ⟨rfl, rfl, rfl⟩
      exact hset.trans (ih (st.setPhase c .refused))
  let marked : Provider C := { st with aborted := signal :: st.aborted }
  have h := hfold (st.waiters.filter marked.signalAborted) marked
  exact ⟨h.scopeUsage, h.history, h.frames⟩

/-- Only the end of an effect under authority changes scopes or the history. -/
theorem step_scopes {e : ProviderStep C} (hcreate : e.isCreate = false)
    (hstep : st.step e = some st') :
    SameScopes st st' ∨
    ∃ c effect now o invocation tokens intent startedMs op, ∃ observation : Observation C,
      e = .effectEnded c effect now ∧
      st.calls[c]? = some ⟨o, invocation, tokens, .launched intent startedMs⟩ ∧
      st.operations[o]? = some op ∧ st.authority = true ∧
      invocation.observe (usageLimits st.wallMs) (st.aborted.contains op.signal)
        (measuredUsage startedMs now) effect = some observation ∧
      st'.scopeUsage = (st.accountUsage o op tokens observation.usage).1.scopeUsage ∧
      st'.history = st.history ++ [⟨o, observation.usage⟩] ∧
      st'.operations = (st.accountUsage o op tokens observation.usage).1.operations := by
  cases e with
  | create => exact absurd hcreate nofun
  | «begin» o invocation now =>
    refine .inl ?_
    rcases begin_cases hstep with ⟨outcome, -, rfl⟩ | ⟨tokens, aborted, rfl⟩
    · exact ⟨rfl, rfl, rfl⟩
    · unfold acquire
      split_ifs <;> exact ⟨rfl, rfl, rfl⟩
  | acquired c now =>
    refine .inl ?_
    obtain ⟨o, invocation, tokens, op, hop, ⟨-, rfl⟩ | ⟨outcome, -, -, rfl⟩⟩ := acquired_cases hstep
    · exact sameScopes_reserved hop
    · exact ⟨rfl, rfl, rfl⟩
  | intentAppended c outcome now =>
    refine .inl ?_
    obtain ⟨o, invocation, tokens, intent, -, ⟨-, rfl⟩ | ⟨inJournal, -, rfl⟩⟩ :=
      intentAppended_cases hstep
    · exact ⟨rfl, rfl, rfl⟩
    · refine SameScopes.trans ?_ (sameScopes_finish c tokens true .appendFailed)
      cases inJournal <;> exact ⟨rfl, rfl, frames_poison o⟩
  | effectEnded c effect now =>
    obtain ⟨o, invocation, tokens, intent, startedMs, op, hcall, hop,
      ⟨-, rfl⟩ | ⟨hopen, observation, hobserve, rfl⟩⟩ := effectEnded_cases hstep
    · exact .inl (sameScopes_finish c 0 false .unauthorized)
    · exact .inr ⟨c, effect, now, o, invocation, tokens, intent, startedMs, op, observation, rfl,
        hcall, hop, hopen, hobserve, rfl, rfl, rfl⟩
  | settlementAppended c outcome =>
    refine .inl ?_
    obtain ⟨o, invocation, tokens, event, -, ⟨-, rfl⟩ | ⟨inJournal, -, rfl⟩⟩ :=
      settlementAppended_cases hstep
    · have happended : SameScopes st (st.appendEvent (.settled event) .committed) :=
        ⟨rfl, rfl, rfl⟩
      exact happended.trans (sameScopes_finish c 0 true .settled)
    · refine SameScopes.trans ?_ (sameScopes_finish c 0 true .appendFailed)
      cases inJournal <;> exact ⟨rfl, rfl, frames_poison o⟩
  | abort signal =>
    obtain rfl := Option.some.inj hstep
    exact .inl (sameScopes_abort signal)
  | closeAuthority | otherUsage | frameEvent =>
    obtain rfl := Option.some.inj hstep
    exact .inl ⟨rfl, rfl, rfl⟩

/-- Scoped updates hold the sum of each scope, and are set at these scopes alone. -/
theorem scopedUpdates_ok {scopeUsage : JsString → Option (CallUsage C)} {usage : CallUsage C}
    (scopes : List JsString) {updates : List (JsString × CallUsage C)}
    (h : scopedUpdates scopeUsage usage scopes = .ok updates)
    (start : JsString → Option (CallUsage C)) :
    (∀ scope ∈ scopes, ∃ sum, addUsage ((scopeUsage scope).getD zeroCallUsage) usage = .ok sum ∧
      setScopes start updates scope = some sum) ∧
    ∀ scope ∉ scopes, setScopes start updates scope = start scope := by
  induction scopes generalizing updates start with
  | nil =>
    obtain rfl := Except.ok.inj h
    exact ⟨fun _ hin => absurd hin List.not_mem_nil, fun _ _ => rfl⟩
  | cons first scopes ih =>
    rw [scopedUpdates] at h
    cases hsum : addUsage ((scopeUsage first).getD zeroCallUsage) usage with
    | error message => rw [hsum] at h; exact absurd h nofun
    | ok sum =>
      rw [hsum] at h
      cases hrest : scopedUpdates scopeUsage usage scopes with
      | error message =>
        simp only [Except.bind, hrest, Except.map, reduceCtorEq] at h
      | ok rest =>
        simp only [Except.bind, hrest, Except.map, Except.ok.injEq] at h
        subst h
        obtain ⟨hin, hout⟩ := ih hrest (Function.update start first (some sum))
        refine ⟨fun scope hmem => ?_, fun scope hnot => ?_⟩
        · by_cases hscope : scope ∈ scopes
          · exact hin scope hscope
          · obtain rfl := (List.mem_cons.mp hmem).resolve_right hscope
            refine ⟨sum, hsum, ?_⟩
            exact (hout scope hscope).trans (Function.update_self _ _ _)
        · rw [List.mem_cons, not_or] at hnot
          exact (hout scope hnot.2).trans (Function.update_of_ne hnot.1 _ _)

theorem scopedUpdates_isOk {scopeUsage : JsString → Option (CallUsage C)} {usage : CallUsage C}
    {scopes : List JsString}
    (h : ∀ scope ∈ scopes, (addUsage ((scopeUsage scope).getD zeroCallUsage) usage).isOk = true) :
    ∃ updates, scopedUpdates scopeUsage usage scopes = .ok updates := by
  induction scopes with
  | nil => exact ⟨[], rfl⟩
  | cons first scopes ih =>
    rw [List.forall_mem_cons] at h
    obtain ⟨updates, hupdates⟩ := ih h.2
    rw [scopedUpdates]
    cases hsum : addUsage ((scopeUsage first).getD zeroCallUsage) usage with
    | error message => rw [hsum] at h; exact absurd h.1 nofun
    | ok sum => exact ⟨(first, sum) :: updates, by rw [hupdates]; rfl⟩

/-- An accountable usage is accepted. -/
theorem accountUsage_accepted {o tokens : Nat} {op : ModelOperation C} {usage : CallUsage C}
    (h : RecurseRun.accountable st op tokens usage = true) :
    (st.accountUsage o op tokens usage).2 = none := by
  simp only [RecurseRun.accountable, Bool.and_eq_true, List.all_eq_true] at h
  obtain ⟨⟨hledger, haggregate⟩, hscopes⟩ := h
  obtain ⟨updates, hupdates⟩ := scopedUpdates_isOk hscopes
  cases hsettled : st.ledger.settleAttemptUsage tokens usage with
  | error error => rw [hsettled] at hledger; exact absurd hledger nofun
  | ok ledger =>
    cases hcombined : addUsage op.aggregate usage with
    | error message => rw [hcombined] at haggregate; exact absurd haggregate nofun
    | ok combined => simp only [accountUsage, hsettled, addAccounting, hcombined, hupdates]

/-- An accepted accounting adds the usage to each scope once. -/
theorem accountUsage_scopes {o tokens : Nat} {op : ModelOperation C} {usage : CallUsage C}
    (h : (st.accountUsage o op tokens usage).2 = none) :
    ∀ scope ∈ op.frame.usageScopes, ∃ sum,
      addUsage ((st.scopeUsage scope).getD zeroCallUsage) usage = .ok sum ∧
      (st.accountUsage o op tokens usage).1.scopeUsage scope = some sum := by
  unfold accountUsage at h ⊢
  split at h
  · exact absurd h nofun
  · unfold addAccounting at h ⊢
    split at h
    · exact absurd h nofun
    · split at h
      · exact absurd h nofun
      · rename_i updates hupdates
        exact (scopedUpdates_ok op.frame.usageScopes hupdates st.scopeUsage).1

/-- The accounting leaves all other scopes, and the frames of the operations. -/
theorem accountUsage_other {o tokens : Nat} {op : ModelOperation C} {usage : CallUsage C}
    (hop : st.operations[o]? = some op) :
    (∀ scope ∉ op.frame.usageScopes,
      (st.accountUsage o op tokens usage).1.scopeUsage scope = st.scopeUsage scope) ∧
    (st.accountUsage o op tokens usage).1.operations.map (·.frame) =
      st.operations.map (·.frame) := by
  unfold accountUsage
  split
  · unfold giveBack
    split <;> exact ⟨fun _ _ => rfl, rfl⟩
  · unfold addAccounting
    split
    · exact ⟨fun _ _ => rfl, rfl⟩
    · split
      · exact ⟨fun _ _ => rfl, rfl⟩
      · rename_i updates hupdates
        refine ⟨fun scope hnot => ?_, frames_set hop rfl⟩
        exact (scopedUpdates_ok op.frame.usageScopes hupdates st.scopeUsage).2 scope hnot

end Provider

-- ============================================================================
-- The invariant
-- ============================================================================

namespace RecurseRun

variable {st st' : RecurseRun C}

/-- The scopes of a frame are the call ids of the executions around it. -/
def Names (executions : List (RecurseExecution C)) (x : Nat) (scope : JsString) : Prop :=
  ∃ ex : RecurseExecution C, executions[x]? = some ex ∧ ex.callId = scope

/-- Every scope is that of one running execution, and holds the sum of its subtree. -/
structure Attributed (st : RecurseRun C) : Prop where
  operations : st.paths.length = st.provider.operations.length
  operationScopes : ∀ (o : Nat) op path, st.provider.operations[o]? = some op →
    st.paths[o]? = some path → List.Forall₂ (Names st.executions) path op.frame.usageScopes
  executionScopes : ∀ (x : Nat) ex, st.executions[x]? = some ex →
    List.Forall₂ (Names st.executions) ex.path ex.usageScopes
  history : ∀ entry ∈ st.provider.history, entry.operation < st.paths.length
  distinct : ∀ (x y : Nat) ex ey, st.executions[x]? = some ex → st.executions[y]? = some ey →
    ex.running = true → ey.running = true → ex.callId = ey.callId → x = y
  running : ∀ (x : Nat) ex, st.executions[x]? = some ex → ex.running = true →
    ∃ usage, st.provider.scopeUsage ex.callId = some usage ∧
      sumUsages (st.subtreeUsage x) = .ok usage
  results : ∀ (x : Nat) ex usage, st.executions[x]? = some ex → ex.result = some usage →
    sumUsages (st.subtreeUsage x) = .ok usage
  closed : ∀ scope, (∀ ex ∈ st.executions, ex.running = true → ex.callId ≠ scope) →
    st.provider.scopeUsage scope = none

omit [CostNumber C] in
theorem Names.append {executions : List (RecurseExecution C)} {x : Nat} {scope : JsString}
    (h : Names executions x scope) (new : RecurseExecution C) :
    Names (executions ++ [new]) x scope := by
  obtain ⟨ex, hex, hscope⟩ := h
  exact ⟨ex, (List.getElem?_append_left (List.getElem?_eq_some_iff.mp hex).1).trans hex, hscope⟩

omit [CostNumber C] in
/-- An execution keeps its call id. -/
theorem Names.set {executions : List (RecurseExecution C)} {x y : Nat} {scope : JsString}
    {ex ex' : RecurseExecution C} (h : Names executions y scope) (hex : executions[x]? = some ex)
    (hcall : ex'.callId = ex.callId) : Names (executions.set x ex') y scope := by
  obtain ⟨ey, hey, hscope⟩ := h
  by_cases heq : y = x
  · subst heq
    obtain rfl := Option.some.inj (hex.symm.trans hey)
    exact ⟨ex', List.getElem?_set_self (List.getElem?_eq_some_iff.mp hex).1, hcall.trans hscope⟩
  · exact ⟨ey, (List.getElem?_set_ne (Ne.symm heq)).trans hey, hscope⟩

omit [CostNumber C] in
/-- The executions around a frame exist. -/
theorem lt_of_names {executions : List (RecurseExecution C)} {path : List Nat}
    {scopes : List JsString} (h : List.Forall₂ (Names executions) path scopes) :
    ∀ x ∈ path, x < executions.length := by
  induction h with
  | nil => exact fun _ hin => absurd hin List.not_mem_nil
  | cons hname _ ih =>
    intro x hin
    rcases List.mem_cons.mp hin with rfl | hin
    · obtain ⟨ex, hex, -⟩ := hname
      exact (List.getElem?_eq_some_iff.mp hex).1
    · exact ih x hin

omit [CostNumber C] in
/-- The scope of each execution on a path is among the scopes. -/
theorem mem_scopes {executions : List (RecurseExecution C)} {path : List Nat}
    {scopes : List JsString} (h : List.Forall₂ (Names executions) path scopes) {x : Nat}
    {ex : RecurseExecution C} (hin : x ∈ path) (hex : executions[x]? = some ex) :
    ex.callId ∈ scopes := by
  induction h with
  | nil => exact absurd hin List.not_mem_nil
  | cons hname _ ih =>
    rcases List.mem_cons.mp hin with rfl | hin
    · obtain ⟨ex', hex', rfl⟩ := hname
      obtain rfl := Option.some.inj (hex.symm.trans hex')
      exact List.mem_cons_self
    · exact List.mem_cons_of_mem _ (ih hin)

omit [CostNumber C] in
/-- Each scope is that of an execution on the path. -/
theorem mem_path {executions : List (RecurseExecution C)} {path : List Nat}
    {scopes : List JsString} (h : List.Forall₂ (Names executions) path scopes) {scope : JsString}
    (hin : scope ∈ scopes) : ∃ x ∈ path, Names executions x scope := by
  induction h with
  | nil => exact absurd hin List.not_mem_nil
  | cons hname _ ih =>
    rcases List.mem_cons.mp hin with rfl | hin
    · exact ⟨_, List.mem_cons_self, hname⟩
    · obtain ⟨x, hx, hname'⟩ := ih hin
      exact ⟨x, List.mem_cons_of_mem _ hx, hname'⟩

omit [CostNumber C] in
theorem get_set {executions : List (RecurseExecution C)} {x y : Nat}
    {ex' ey : RecurseExecution C} (h : (executions.set x ex')[y]? = some ey) :
    x = y ∧ ey = ex' ∨ x ≠ y ∧ executions[y]? = some ey := by
  rw [List.getElem?_set] at h
  split_ifs at h with heq hlt
  · exact .inl ⟨heq, (Option.some.inj h).symm⟩
  · exact .inr ⟨heq, h⟩

omit [CostNumber C] in
theorem get_append {executions : List (RecurseExecution C)} {y : Nat}
    {new ey : RecurseExecution C} (h : (executions ++ [new])[y]? = some ey) :
    y = executions.length ∧ ey = new ∨ executions[y]? = some ey := by
  rw [List.getElem?_append] at h
  split_ifs at h with hlt
  · exact .inr h
  · rw [List.getElem?_singleton] at h
    split_ifs at h with heq
    exact .inl ⟨by omega, (Option.some.inj h).symm⟩

omit [CostNumber C] in
/-- Without an execution in flight a call id has no running execution. -/
theorem not_inFlight {callId : JsString} (h : st.inFlight callId = false) :
    ∀ ex ∈ st.executions, ex.running = true → ex.callId ≠ callId := by
  intro ex hmem hrunning heq
  have hfalse := List.any_eq_false.mp h ex hmem
  rw [hrunning, Bool.true_and, beq_iff_eq] at hfalse
  exact hfalse heq

/-- What the condition says of an effect that settles under authority. -/
theorem settlesInScope_cases {c o tokens : Nat} {invocation : Invocation}
    {intent : OperationIntent} {startedMs now : Int} {effect : Effect C} {op : ModelOperation C}
    {observation : Observation C}
    (h : st.settlesInScope c effect now = true)
    (hcall : st.provider.calls[c]? = some ⟨o, invocation, tokens, .launched intent startedMs⟩)
    (hop : st.provider.operations[o]? = some op) (hauthority : st.provider.authority = true)
    (hobserve : invocation.observe (usageLimits st.provider.wallMs)
      (st.provider.aborted.contains op.signal) (measuredUsage startedMs now) effect =
        some observation) :
    st.paths.getD o [] = [] ∨
    (∀ x ∈ st.paths.getD o [], ∃ ex, st.executions[x]? = some ex ∧ ex.running = true ∧
      ex.result = none) ∧
    (st.provider.accountUsage o op tokens observation.usage).2 = none := by
  simp only [settlesInScope, hcall, hop, hobserve, hauthority, Bool.or_eq_true, Bool.and_eq_true,
    List.isEmpty_iff, List.all_eq_true, Option.any_eq_true, Option.isNone_iff_eq_none, beq_iff_eq,
    reduceCtorEq, false_or] at h
  rcases h with hempty | ⟨hall, haccepted⟩
  · exact .inl hempty
  · refine .inr ⟨fun x hx => ?_, Provider.accountUsage_accepted haccepted⟩
    obtain ⟨ex, hex, hrunning⟩ := hall x hx
    exact ⟨ex, hex, hrunning⟩

-- ============================================================================
-- The usage of a subtree
-- ============================================================================

omit [CostNumber C] in
/-- A new operation has settled nothing. -/
theorem subtreeUsage_operation {provider : Provider C} {path : List Nat}
    (hhistory : provider.history = st.provider.history)
    (h : ∀ entry ∈ st.provider.history, entry.operation < st.paths.length) (x : Nat) :
    RecurseRun.subtreeUsage { st with provider, paths := st.paths ++ [path] } x =
      st.subtreeUsage x := by
  show ((provider.history.filter _).map _) = (st.provider.history.filter _).map _
  rw [hhistory]
  congr 1
  apply List.filter_congr
  intro entry hentry
  show ((st.paths ++ [path]).getD entry.operation []).contains x = _
  rw [List.getD_append _ _ _ _ (h entry hentry)]

omit [CostNumber C] in
/-- A settlement adds its usage to the executions around its operation, once to each. -/
theorem subtreeUsage_settled {provider : Provider C} {o : Nat} {usage : CallUsage C}
    (hhistory : provider.history = st.provider.history ++ [⟨o, usage⟩]) (x : Nat) :
    RecurseRun.subtreeUsage { st with provider } x =
      st.subtreeUsage x ++ (if x ∈ st.paths.getD o [] then [usage] else []) := by
  show ((provider.history.filter _).map _) = (st.provider.history.filter _).map _ ++ _
  rw [hhistory, List.filter_append, List.map_append]
  congr 1
  by_cases hin : x ∈ st.paths.getD o []
  · rw [if_pos hin, List.filter_cons_of_pos (by exact List.contains_iff_mem.mpr hin)]
    rfl
  · rw [if_neg hin, List.filter_cons_of_neg (by exact fun h => hin (List.contains_iff_mem.mp h))]
    rfl

omit [CostNumber C] in
theorem subtreeUsage_fresh {x : Nat} (h : ∀ path ∈ st.paths, x ∉ path) :
    st.subtreeUsage x = [] := by
  rw [subtreeUsage, List.map_eq_nil_iff, List.filter_eq_nil_iff]
  intro entry hentry hcontains
  have hin := List.contains_iff_mem.mp hcontains
  by_cases hlt : entry.operation < st.paths.length
  · rw [List.getD_eq_getElem _ _ hlt] at hin
    exact h _ (List.getElem_mem hlt) hin
  · rw [List.getD_eq_default _ _ (Nat.le_of_not_lt hlt)] at hin
    exact absurd hin List.not_mem_nil

-- ============================================================================
-- What one step preserves
-- ============================================================================

namespace Attributed

theorem frame_scopes (h : Attributed st) {f : Option Nat} {frame : RecurseFrame}
    (hframe : st.frame f = some frame) :
    List.Forall₂ (Names st.executions) frame.path frame.usageScopes := by
  cases f with
  | none =>
    obtain rfl := Option.some.inj hframe
    exact .nil
  | some x =>
    obtain ⟨ex, hex, rfl⟩ := Option.map_eq_some_iff.mp hframe
    exact h.executionScopes x ex hex

/-- A state with the same executions, paths, scopes and history. -/
theorem provider {provider : Provider C} (h : Attributed st)
    (hsame : st.provider.SameScopes provider) : Attributed { st with provider } := by
  have hsubtree : ∀ x, RecurseRun.subtreeUsage { st with provider } x = st.subtreeUsage x := by
    intro x
    show ((provider.history.filter _).map _) = _
    rw [hsame.history]
    rfl
  have hlength : provider.operations.length = st.provider.operations.length := by
    have := congrArg List.length hsame.frames
    rwa [List.length_map, List.length_map] at this
  constructor
  case operations => exact h.operations.trans hlength.symm
  case operationScopes =>
    intro o op path hop hpath
    have hframe : (st.provider.operations.map (·.frame))[o]? = some op.frame := by
      rw [← hsame.frames, List.getElem?_map, hop]
      rfl
    rw [List.getElem?_map] at hframe
    obtain ⟨op', hop', hframe⟩ := Option.map_eq_some_iff.mp hframe
    have hnames := h.operationScopes o op' path hop' hpath
    rwa [hframe] at hnames
  case executionScopes => exact h.executionScopes
  case history =>
    intro entry hentry
    exact h.history entry (hsame.history ▸ hentry)
  case distinct => exact h.distinct
  case running =>
    intro x ex hex hrunning
    obtain ⟨usage, hscope, hsum⟩ := h.running x ex hex hrunning
    refine ⟨usage, ?_, ?_⟩
    · show provider.scopeUsage ex.callId = some usage
      rw [hsame.scopeUsage, hscope]
    · rw [hsubtree, hsum]
  case results =>
    intro x ex usage hex hresult
    rw [hsubtree]
    exact h.results x ex usage hex hresult
  case closed =>
    intro scope hscope
    show provider.scopeUsage scope = none
    rw [hsame.scopeUsage]
    exact h.closed scope hscope

theorem operation {f : Option Nat} {frame : RecurseFrame} (h : Attributed st)
    (hframe : st.frame f = some frame) (operationId : JsString) (kind : OperationKind)
    (key : JsString) (signal : Nat) (deadlineMs : Int) :
    Attributed { st with
      provider := st.provider.create ⟨frame.frameId, frame.usageScopes⟩ operationId kind key
        signal deadlineMs
      paths := st.paths ++ [frame.path] } := by
  have hsubtree : ∀ x, RecurseRun.subtreeUsage { st with
      provider := st.provider.create ⟨frame.frameId, frame.usageScopes⟩ operationId kind key
        signal deadlineMs
      paths := st.paths ++ [frame.path] } x = st.subtreeUsage x :=
    subtreeUsage_operation rfl h.history
  constructor
  case operations =>
    show (st.paths ++ [frame.path]).length = (st.provider.operations ++ [_]).length
    rw [List.length_append, List.length_append, h.operations]
    rfl
  case operationScopes =>
    intro o op path hop hpath
    replace hop : (st.provider.operations ++ [_])[o]? = some op := hop
    replace hpath : (st.paths ++ [frame.path])[o]? = some path := hpath
    by_cases hlt : o < st.paths.length
    · rw [List.getElem?_append_left hlt] at hpath
      rw [List.getElem?_append_left (h.operations ▸ hlt)] at hop
      exact h.operationScopes o op path hop hpath
    · -- the new operation has the scopes of its frame
      rw [List.getElem?_append_right (Nat.le_of_not_lt hlt)] at hpath
      rw [List.getElem?_append_right (h.operations ▸ Nat.le_of_not_lt hlt), ← h.operations] at hop
      rw [List.getElem?_singleton] at hpath hop
      split_ifs at hpath hop
      obtain rfl := Option.some.inj hpath
      obtain rfl := Option.some.inj hop
      exact h.frame_scopes hframe
  case executionScopes => exact h.executionScopes
  case history =>
    intro entry hentry
    have := h.history entry hentry
    show entry.operation < (st.paths ++ [frame.path]).length
    rw [List.length_append]
    omega
  case distinct => exact h.distinct
  case running =>
    intro x ex hex hrunning
    rw [hsubtree]
    exact h.running x ex hex hrunning
  case results =>
    intro x ex usage hex hresult
    rw [hsubtree]
    exact h.results x ex usage hex hresult
  case closed => exact h.closed

/-- The settlement of an operation, when its frame is in no execution, or all executions
    around it are in flight without a result and its usage is accepted. -/
theorem settled {provider : Provider C} {o tokens : Nat} {op : ModelOperation C}
    {usage : CallUsage C} (h : Attributed st) (hop : st.provider.operations[o]? = some op)
    (hscope : st.paths.getD o [] = [] ∨
      (∀ x ∈ st.paths.getD o [], ∃ ex, st.executions[x]? = some ex ∧ ex.running = true ∧
        ex.result = none) ∧
      (st.provider.accountUsage o op tokens usage).2 = none)
    (hscopes : provider.scopeUsage = (st.provider.accountUsage o op tokens usage).1.scopeUsage)
    (hhistory : provider.history = st.provider.history ++ [⟨o, usage⟩])
    (hoperations : provider.operations =
      (st.provider.accountUsage o op tokens usage).1.operations) :
    Attributed { st with provider } := by
  obtain ⟨hother, hframes⟩ := @Provider.accountUsage_other C _ st.provider o tokens op usage hop
  have hlt : o < st.paths.length := h.operations ▸ (List.getElem?_eq_some_iff.mp hop).1
  have hpath : st.paths[o]? = some (st.paths.getD o []) := by
    rw [List.getD_eq_getElem _ _ hlt, List.getElem?_eq_getElem hlt]
  have hnames := h.operationScopes o op _ hop hpath
  -- an execution in flight that is not around the frame keeps its scope
  have hkept : ∀ (y : Nat) ey, st.executions[y]? = some ey → ey.running = true →
      y ∉ st.paths.getD o [] → ey.callId ∉ op.frame.usageScopes := by
    intro y ey hey hrunning hnot hin
    obtain ⟨x, hx, ex, hex, hcall⟩ := mem_path hnames hin
    rcases hscope with hempty | ⟨hall, -⟩
    · exact absurd (hempty ▸ hx) List.not_mem_nil
    · obtain ⟨ex', hex', hrunning', -⟩ := hall x hx
      obtain rfl := Option.some.inj (hex.symm.trans hex')
      exact hnot (h.distinct y x ey ex hey hex hrunning hrunning' hcall.symm ▸ hx)
  constructor
  case operations =>
    have hlength := congrArg List.length hframes
    rw [List.length_map, List.length_map] at hlength
    show st.paths.length = provider.operations.length
    rw [hoperations, hlength, h.operations]
  case operationScopes =>
    intro o' op' path hop' hpath'
    have hframe : (st.provider.operations.map (·.frame))[o']? = some op'.frame := by
      rw [← hframes, ← hoperations, List.getElem?_map, hop']
      rfl
    rw [List.getElem?_map] at hframe
    obtain ⟨before, hbefore, hframe⟩ := Option.map_eq_some_iff.mp hframe
    have hnames' := h.operationScopes o' before path hbefore hpath'
    rwa [hframe] at hnames'
  case executionScopes => exact h.executionScopes
  case history =>
    intro entry hentry
    replace hentry : entry ∈ provider.history := hentry
    rw [hhistory, List.mem_append, List.mem_singleton] at hentry
    rcases hentry with hentry | rfl
    · exact h.history entry hentry
    · exact hlt
  case distinct => exact h.distinct
  case running =>
    intro y ey hey hrunning
    obtain ⟨sum, hsum, hsubtree⟩ := h.running y ey hey hrunning
    rw [subtreeUsage_settled hhistory]
    show ∃ sum, provider.scopeUsage ey.callId = some sum ∧ _
    rw [hscopes]
    by_cases hin : y ∈ st.paths.getD o []
    · rcases hscope with hempty | ⟨-, haccepted⟩
      · exact absurd (hempty ▸ hin) List.not_mem_nil
      · obtain ⟨next, hnext, hset⟩ := st.provider.accountUsage_scopes haccepted ey.callId
          (mem_scopes hnames hin hey)
        rw [hsum] at hnext
        refine ⟨next, hset, ?_⟩
        rw [if_pos hin, sumUsages_concat, hsubtree]
        exact hnext
    · refine ⟨sum, ?_, ?_⟩
      · rw [hother ey.callId (hkept y ey hey hrunning hin), hsum]
      · rw [if_neg hin, List.append_nil, hsubtree]
  case results =>
    intro y ey sum hey hresult
    rw [subtreeUsage_settled hhistory]
    have hnot : y ∉ st.paths.getD o [] := by
      intro hin
      rcases hscope with hempty | ⟨hall, -⟩
      · exact absurd (hempty ▸ hin) List.not_mem_nil
      · obtain ⟨ex, hex, -, hnone⟩ := hall y hin
        obtain rfl := Option.some.inj (hex.symm.trans hey)
        exact absurd (hnone.symm.trans hresult) nofun
    rw [if_neg hnot, List.append_nil]
    exact h.results y ey sum hey hresult
  case closed =>
    intro scope hclosed
    show provider.scopeUsage scope = none
    rw [hscopes, hother scope ?_]
    · exact h.closed scope hclosed
    · intro hin
      obtain ⟨x, hx, ex, hex, hcall⟩ := mem_path hnames hin
      rcases hscope with hempty | ⟨hall, -⟩
      · exact absurd (hempty ▸ hx) List.not_mem_nil
      · obtain ⟨ex', hex', hrunning, -⟩ := hall x hx
        obtain rfl := Option.some.inj (hex.symm.trans hex')
        exact hclosed ex (List.mem_of_getElem? hex) hrunning hcall

/-- A call that is refused has no scope. -/
theorem refused {callId : JsString} (h : Attributed st) (hflight : st.inFlight callId = false) :
    Attributed (st.setScope callId none) := by
  constructor
  case operations => exact h.operations
  case operationScopes => exact h.operationScopes
  case executionScopes => exact h.executionScopes
  case history => exact h.history
  case distinct => exact h.distinct
  case running =>
    intro x ex hex hrunning
    obtain ⟨usage, hscope, hsum⟩ := h.running x ex hex hrunning
    have hne := not_inFlight hflight ex (List.mem_of_getElem? hex) hrunning
    exact ⟨usage, (Function.update_of_ne hne _ _).trans hscope, hsum⟩
  case results => exact h.results
  case closed =>
    intro scope hclosed
    by_cases heq : scope = callId
    · subst heq
      exact Function.update_self _ _ _
    · exact (Function.update_of_ne heq _ _).trans (h.closed scope hclosed)

/-- A new execution starts from nothing. -/
theorem openExecution {f : Option Nat} {parent : RecurseFrame} {callId : JsString}
    (h : Attributed st) (hparent : st.frame f = some parent)
    (hflight : st.inFlight callId = false) (ledger : Ledger C) :
    Attributed (st.openExecution parent callId ledger) := by
  have hpaths : ∀ path ∈ st.paths, st.executions.length ∉ path := by
    intro path hmem hin
    obtain ⟨o, hpath⟩ := List.mem_iff_getElem?.mp hmem
    have hlt := h.operations ▸ (List.getElem?_eq_some_iff.mp hpath).1
    have hnames := h.operationScopes o _ path (List.getElem?_eq_getElem hlt) hpath
    exact absurd (lt_of_names hnames _ hin) (lt_irrefl _)
  constructor
  case operations => exact h.operations
  case operationScopes =>
    intro o op path hop hpath
    exact (h.operationScopes o op path hop hpath).imp fun _ _ hname => hname.append _
  case executionScopes =>
    intro x ex hex
    rcases get_append hex with ⟨-, rfl⟩ | hex
    · have hframe := (h.frame_scopes hparent).imp fun _ _ hname => hname.append
        (st.childExecution parent callId ((st.recurseExecutions callId).getD 0 + 1))
      refine List.rel_append hframe (.cons ?_ .nil)
      exact ⟨st.childExecution parent callId ((st.recurseExecutions callId).getD 0 + 1),
        List.getElem?_concat_length, rfl⟩
    · exact (h.executionScopes x ex hex).imp fun _ _ hname => hname.append _
  case history => exact h.history
  case distinct =>
    intro x y ex ey hex hey hx hy heq
    rcases get_append hex with ⟨rfl, rfl⟩ | hex <;> rcases get_append hey with ⟨rfl, rfl⟩ | hey
    · rfl
    · exact absurd heq.symm (not_inFlight hflight ey (List.mem_of_getElem? hey) hy)
    · exact absurd heq (not_inFlight hflight ex (List.mem_of_getElem? hex) hx)
    · exact h.distinct x y ex ey hex hey hx hy heq
  case running =>
    intro x ex hex hrunning
    rcases get_append hex with ⟨rfl, rfl⟩ | hex
    · refine ⟨zeroCallUsage, Function.update_self _ _ _, ?_⟩
      show sumUsages (st.subtreeUsage st.executions.length) = _
      rw [subtreeUsage_fresh hpaths]
      rfl
    · obtain ⟨usage, hscope, hsum⟩ := h.running x ex hex hrunning
      have hne := not_inFlight hflight ex (List.mem_of_getElem? hex) hrunning
      exact ⟨usage, (Function.update_of_ne hne _ _).trans hscope, hsum⟩
  case results =>
    intro x ex usage hex hresult
    rcases get_append hex with ⟨-, rfl⟩ | hex
    · exact absurd hresult nofun
    · exact h.results x ex usage hex hresult
  case closed =>
    intro scope hclosed
    replace hclosed : ∀ ex ∈ st.executions ++ [_], ex.running = true → ex.callId ≠ scope := hclosed
    have hne := hclosed _ List.mem_concat_self rfl
    refine (Function.update_of_ne hne.symm _ _).trans (h.closed scope fun ex hmem => ?_)
    exact hclosed ex (List.mem_append_left _ hmem)

theorem operationScopes_set {x : Nat} {ex ex' : RecurseExecution C} (h : Attributed st)
    (hex : st.executions[x]? = some ex) (hcall : ex'.callId = ex.callId) (o : Nat)
    (op : ModelOperation C) (path : List Nat) (hop : st.provider.operations[o]? = some op)
    (hpath : st.paths[o]? = some path) :
    List.Forall₂ (Names (st.executions.set x ex')) path op.frame.usageScopes :=
  (h.operationScopes o op path hop hpath).imp fun _ _ hname => Names.set hname hex hcall

theorem executionScopes_set {x : Nat} {ex ex' : RecurseExecution C} (h : Attributed st)
    (hex : st.executions[x]? = some ex) (hcall : ex'.callId = ex.callId)
    (hpath : ex'.path = ex.path) (hscopes : ex'.usageScopes = ex.usageScopes) (y : Nat)
    (ey : RecurseExecution C) (hey : (st.executions.set x ex')[y]? = some ey) :
    List.Forall₂ (Names (st.executions.set x ex')) ey.path ey.usageScopes := by
  refine List.Forall₂.imp (fun _ _ hname => Names.set hname hex hcall) ?_
  rcases get_set hey with ⟨rfl, rfl⟩ | ⟨-, hey⟩
  · rw [hpath, hscopes]
    exact h.executionScopes x ex hex
  · exact h.executionScopes y ey hey

/-- A result is made of the sum in the scope. -/
theorem result {x : Nat} {ex : RecurseExecution C} (h : Attributed st)
    (hex : st.executions[x]? = some ex) (hrunning : ex.running = true) :
    Attributed { st with
      executions := st.executions.set x { ex with result := some (st.recurseUsage ex.callId) } } := by
  obtain ⟨sum, hscope, hsum⟩ := h.running x ex hex hrunning
  constructor
  case operations => exact h.operations
  case operationScopes => exact h.operationScopes_set hex rfl
  case executionScopes => exact h.executionScopes_set hex rfl rfl rfl
  case history => exact h.history
  case distinct =>
    intro y z ey ez hey hez hy hz heq
    rcases get_set hey with ⟨rfl, rfl⟩ | ⟨-, hey⟩ <;> rcases get_set hez with ⟨rfl, rfl⟩ | ⟨-, hez⟩
    · rfl
    · exact h.distinct x z ex ez hex hez hrunning hz heq
    · exact h.distinct y x ey ex hey hex hy hrunning heq
    · exact h.distinct y z ey ez hey hez hy hz heq
  case running =>
    intro y ey hey hy
    rcases get_set hey with ⟨rfl, rfl⟩ | ⟨-, hey⟩
    · exact ⟨sum, hscope, hsum⟩
    · exact h.running y ey hey hy
  case results =>
    intro y ey usage hey hresult
    rcases get_set hey with ⟨rfl, rfl⟩ | ⟨-, hey⟩
    · obtain rfl := Option.some.inj hresult
      show sumUsages (st.subtreeUsage x) = .ok ((st.provider.scopeUsage ex.callId).getD _)
      rw [hsum, hscope]
      rfl
    · exact h.results y ey usage hey hresult
  case closed =>
    intro scope hclosed
    refine h.closed scope fun ey hmem hy => ?_
    obtain ⟨y, hey⟩ := List.mem_iff_getElem?.mp hmem
    by_cases heq : x = y
    · subst heq
      obtain rfl := Option.some.inj (hex.symm.trans hey)
      have hself : (st.executions.set x { ex with
          result := some (st.recurseUsage ex.callId) })[x]? = some _ :=
        List.getElem?_set_self (List.getElem?_eq_some_iff.mp hex).1
      have hne := hclosed _ (List.mem_of_getElem? hself) hrunning
      exact hne
    · exact hclosed ey (List.mem_of_getElem? ((List.getElem?_set_ne heq).trans hey)) hy

/-- An execution that is finished takes its scope with it. -/
theorem finished {x : Nat} {ex : RecurseExecution C} (h : Attributed st)
    (hex : st.executions[x]? = some ex) (hrunning : ex.running = true) :
    Attributed { st.setScope ex.callId none with
      executions := st.executions.set x { ex with running := false } } := by
  constructor
  case operations => exact h.operations
  case operationScopes => exact h.operationScopes_set hex rfl
  case executionScopes => exact h.executionScopes_set hex rfl rfl rfl
  case history => exact h.history
  case distinct =>
    intro y z ey ez hey hez hy hz heq
    rcases get_set hey with ⟨rfl, rfl⟩ | ⟨-, hey⟩
    · exact absurd hy nofun
    · rcases get_set hez with ⟨rfl, rfl⟩ | ⟨-, hez⟩
      · exact absurd hz nofun
      · exact h.distinct y z ey ez hey hez hy hz heq
  case running =>
    intro y ey hey hy
    rcases get_set hey with ⟨rfl, rfl⟩ | ⟨hne, hey⟩
    · exact absurd hy nofun
    · -- another execution in flight has another call id
      obtain ⟨usage, hscope, hsum⟩ := h.running y ey hey hy
      have hcall : ey.callId ≠ ex.callId :=
        fun heq => hne (h.distinct x y ex ey hex hey hrunning hy heq.symm)
      exact ⟨usage, (Function.update_of_ne hcall _ _).trans hscope, hsum⟩
  case results =>
    intro y ey usage hey hresult
    rcases get_set hey with ⟨rfl, rfl⟩ | ⟨-, hey⟩
    · exact h.results x ex usage hex hresult
    · exact h.results y ey usage hey hresult
  case closed =>
    intro scope hclosed
    by_cases heq : scope = ex.callId
    · subst heq
      exact Function.update_self _ _ _
    · refine (Function.update_of_ne heq _ _).trans (h.closed scope fun ey hmem hy => ?_)
      obtain ⟨y, hey⟩ := List.mem_iff_getElem?.mp hmem
      by_cases hxy : x = y
      · subst hxy
        obtain rfl := Option.some.inj (hex.symm.trans hey)
        exact Ne.symm heq
      · exact hclosed ey (List.mem_of_getElem? ((List.getElem?_set_ne hxy).trans hey)) hy

theorem step {e : RecurseStep C} (h : Attributed st) (hcond : st.attributed e = true)
    (hstep : st.step e = some st') : Attributed st' := by
  cases e with
  | operation f operationId kind key signal deadlineMs =>
    obtain ⟨frame, hframe, rfl⟩ := Option.map_eq_some_iff.mp hstep
    exact h.operation hframe operationId kind key signal deadlineMs
  | provider e =>
    rw [RecurseRun.step] at hstep
    split_ifs at hstep with hcreate
    obtain ⟨provider, hprovider, rfl⟩ := Option.map_eq_some_iff.mp hstep
    rcases Provider.step_scopes (Bool.not_eq_true _ ▸ hcreate) hprovider with hsame |
      ⟨c, effect, now, o, invocation, tokens, intent, startedMs, op, observation, rfl, hcall, hop,
        hauthority, hobserve, hscopes, hhistory, hoperations⟩
    · exact h.provider hsame
    · exact h.settled hop (settlesInScope_cases hcond hcall hop hauthority hobserve) hscopes
        hhistory hoperations
  | call f callId now =>
    obtain ⟨parent, hparent, rfl⟩ := Option.map_eq_some_iff.mp hstep
    unfold RecurseRun.call
    split
    · exact h
    · rename_i hflight
      split
      · exact h.refused (Bool.not_eq_true _ ▸ hflight)
      · exact h.openExecution hparent (Bool.not_eq_true _ ▸ hflight) _
  | result x =>
    rw [RecurseRun.step] at hstep
    split at hstep
    · rename_i ex hex
      split_ifs at hstep with hrunning
      obtain rfl := Option.some.inj hstep
      exact h.result hex hrunning
    · exact absurd hstep nofun
  | finished x =>
    rw [RecurseRun.step] at hstep
    split at hstep
    · rename_i ex hex
      split_ifs at hstep with hrunning
      obtain rfl := Option.some.inj hstep
      exact h.finished hex hrunning
    · exact absurd hstep nofun

end Attributed

-- ============================================================================
-- Runs
-- ============================================================================

variable {runId : JsString} {profile : ProviderProfile} {ledger : Ledger C}
  {journal : List (OperationEvent C)} {operationAttempts recurseExecutions : JsString → Option Nat}
  {es : List (RecurseStep C)}

theorem initial_attributed : Attributed (initial runId
    (Provider.initial profile ledger journal operationAttempts) recurseExecutions) where
  operations := rfl
  operationScopes _ _ _ hop := absurd hop nofun
  executionScopes _ _ hex := absurd hex nofun
  history _ hentry := absurd hentry List.not_mem_nil
  distinct _ _ _ _ hex := absurd hex nofun
  running _ _ hex := absurd hex nofun
  results _ _ _ hex := absurd hex nofun
  closed _ _ := rfl

/-- While no operation settles outside its executions, a result has the usage of its
    subtree, an open scope the usage so far, and no scope outlives its execution. -/
theorem usage_attributed
    (halong : Machine.Along step (fun st e => st.attributed e = true) (initial runId
      (Provider.initial profile ledger journal operationAttempts) recurseExecutions) es)
    (hrun : Machine.run step (initial runId
      (Provider.initial profile ledger journal operationAttempts) recurseExecutions) es = some st) :
    (∀ (x : Nat) ex usage, st.executions[x]? = some ex → ex.result = some usage →
      sumUsages (st.subtreeUsage x) = .ok usage) ∧
    (∀ (x : Nat) ex, st.executions[x]? = some ex → ex.running = true →
      ∃ usage, st.provider.scopeUsage ex.callId = some usage ∧
        sumUsages (st.subtreeUsage x) = .ok usage) ∧
    ((∀ ex ∈ st.executions, ex.running = false) → ∀ scope, st.provider.scopeUsage scope = none) := by
  have h : Attributed st :=
    Machine.run_invariant (fun _ _ _ hI hcond hstep => hI.step hcond hstep) initial_attributed
      halong hrun
  refine ⟨h.results, h.running, fun hended scope => h.closed scope fun ex hmem hrunning => ?_⟩
  exact absurd (hrunning.symm.trans (hended ex hmem)) nofun

/-- A run with room for two frames, one in the other, and two calls at a time. -/
def recurseStart : RecurseRun ℚ :=
  initial (js "run") (Provider.initial ⟨2, 1000, Nat.two_pos⟩
    (createLedger ⟨2, 3, 8, 8, 8, 2, none, 0, 100⟩) [] fun _ => none) fun _ => none

/-- An operation of a frame, up to the launch of its effect. -/
def launch (frame : Option Nat) (o : Nat) (operationId : JsString) : List (RecurseStep ℚ) :=
  [.operation frame operationId .agent (js "k") 0 100,
    .provider (.begin o (.runExternal ⟨agentRequestIdentityVersion, List.replicate 64 0x61⟩) 1),
    .provider (.acquired o ⟨1, 1, 1, 1⟩), .provider (.intentAppended o .committed 1)]

def settle (o : Nat) : List (RecurseStep ℚ) :=
  [.provider (.effectEnded o .value 4), .provider (.settlementAppended o .committed)]

/-- A recurse call whose frame launches an operation and makes a recurse call, whose frame
    launches one too. -/
def nestedRecurse : List (RecurseStep ℚ) :=
  [.call none (js "c") 1] ++ launch (some 0) 0 (js "a") ++ [.call (some 0) (js "d") 2] ++
    launch (some 1) 1 (js "b") ++ settle 1 ++ [.result 1, .finished 1] ++ settle 0 ++
    [.result 0, .finished 0]

/-- The usage of the inner operation is added to both executions. -/
theorem usage_attributed_nestedRecurse :
    ∃ st : RecurseRun ℚ, Machine.run step recurseStart nestedRecurse = some st ∧
      sumUsages (st.subtreeUsage 0) = .ok { zeroCallUsage with attempts := 2, durationMs := 6 } ∧
      sumUsages (st.subtreeUsage 1) = .ok { zeroCallUsage with attempts := 1, durationMs := 3 } ∧
      ∀ scope, st.provider.scopeUsage scope = none := by
  have hrun : (Machine.run step recurseStart nestedRecurse).isSome = true := by decide +kernel
  have halong :
      Machine.Along step (fun st e => st.attributed e = true) recurseStart nestedRecurse := by
    decide +kernel
  have hends : ((Machine.run step recurseStart nestedRecurse).get hrun).executions.map
      (fun ex => (ex.running, ex.result)) =
        [(false, some { zeroCallUsage with attempts := 2, durationMs := 6 }),
          (false, some { zeroCallUsage with attempts := 1, durationMs := 3 })] := by
    decide +kernel +revert
  obtain ⟨outer, executions, hexecutions, houter, hends⟩ := List.map_eq_cons_iff.mp hends
  obtain ⟨inner, rfl, hinner⟩ := List.map_eq_singleton_iff.mp hends
  obtain ⟨hresults, -, hclosed⟩ := usage_attributed halong (Option.some_get hrun).symm
  refine ⟨_, (Option.some_get hrun).symm, ?_, ?_, hclosed ?_⟩
  · exact hresults 0 outer _ (by rw [hexecutions]; rfl) (congrArg Prod.snd houter)
  · exact hresults 1 inner _ (by rw [hexecutions]; rfl) (congrArg Prod.snd hinner)
  · rw [hexecutions, List.forall_mem_cons, List.forall_mem_singleton]
    exact ⟨congrArg Prod.fst houter, congrArg Prod.fst hinner⟩

/-- Two operations of a cancelled execution settle late: the one in a second execution of
    the same call, the other after that. -/
def lateSettlements : List (RecurseStep ℚ) :=
  [.call none (js "c") 1] ++ launch (some 0) 0 (js "a") ++ launch (some 0) 1 (js "b") ++
    [.result 0, .finished 0, .call none (js "c") 2] ++ settle 0 ++ [.result 1, .finished 1] ++
    settle 1

/-- The first result lacks the usage of its operations, the second has usage that is not of
    its subtree, and with nothing in flight a scope is left. -/
theorem lateSettlements_misattributed :
    ∃ st : RecurseRun ℚ, Machine.run step recurseStart lateSettlements = some st ∧
      st.executions.map (·.result) = [some zeroCallUsage,
        some { zeroCallUsage with attempts := 1, durationMs := 3 }] ∧
      (st.subtreeUsage 0).length = 2 ∧ st.subtreeUsage 1 = [] ∧
      (∀ ex ∈ st.executions, ex.running = false) ∧ st.provider.isIdle = true ∧
      st.provider.scopeUsage (js "c") ≠ none := by
  have hrun : (Machine.run step recurseStart lateSettlements).isSome = true := by decide +kernel
  refine ⟨_, (Option.some_get hrun).symm, ?_⟩
  decide +kernel +revert

end RecurseRun

end PiRlm.Runtime

/-
  PiRlm.Runtime.OperationAttempts

  An abstract account of the attempts of a run: each reserves, launches, settles in the
  ledger, and is recorded in the journal.  One attempt of an operation is unsettled at a
  time, and the ledger accepts the usage of each.

  Along its steps the two folds of recovery agree with the ledger, up to the attempts that
  have reserved or settled and are not in the journal yet.
-/
import Mathlib
import PiRlm.Lib.Tally
import PiRlm.Runtime.OperationRecovery

namespace PiRlm.Runtime

open PiRlm.Lib PiRlm.Core

variable {C : Type}

-- ============================================================================
-- The abstract state
-- ============================================================================

inductive AttemptStage (C : Type) where
  /-- Reserved; the intent is not in the journal yet. -/
  | intending
  | launched
  /-- Settled in the ledger; the settlement is not in the journal yet. -/
  | settling (event : OperationSettled C)

structure LiveAttempt (C : Type) where
  operation : Nat
  intent : OperationIntent
  stage : AttemptStage C

structure OperationCore where
  frameId : JsString
  operationId : JsString
  logicalReserved : Bool
  attemptOrdinal : Nat

def OperationCore.attemptKey (core : OperationCore) : JsString :=
  Runtime.attemptKey core.frameId core.operationId

/-- The counters of the ledger that a settlement or a reservation adds to. -/
structure AttemptCounters where
  attempts : Nat
  tokensUsed : Nat
  inputTokensUsed : Nat
  outputTokensUsed : Nat
  providerDurationMs : Nat
  deriving Repr, DecidableEq

def AttemptCounters.addUsage (counters : AttemptCounters) (usage : CallUsage C) :
    AttemptCounters where
  attempts := counters.attempts
  tokensUsed := counters.tokensUsed + usage.total
  inputTokensUsed := counters.inputTokensUsed + usage.input
  outputTokensUsed := counters.outputTokensUsed + usage.output
  providerDurationMs := counters.providerDurationMs + usage.durationMs

def DerivedUsage.counters (d : DerivedUsage C) : AttemptCounters where
  attempts := d.attempts
  tokensUsed := d.tokensUsed
  inputTokensUsed := d.inputTokensUsed
  outputTokensUsed := d.outputTokensUsed
  providerDurationMs := d.providerDurationMs

structure Attempts (C : Type) where
  live : List (LiveAttempt C)
  operations : List OperationCore
  operationAttempts : JsString → Option Nat
  history : List (SettledUsage C)
  journal : List (OperationEvent C)
  counters : AttemptCounters

/-- The usages that an operation has settled, in their order. -/
def operationHistory (history : List (SettledUsage C)) (o : Nat) : List (CallUsage C) :=
  (history.filter fun entry => entry.operation == o).map (·.usage)

/-- A frame that the journal opens and does not close. -/
def FrameOpen (journal : List (OperationEvent C)) (frameId : JsString) : Prop :=
  OperationEvent.frameOpened frameId ∈ journal ∧ OperationEvent.frameClosed frameId ∉ journal

theorem operationHistory_concat (history : List (SettledUsage C)) (o : Nat) (usage : CallUsage C) :
    operationHistory (history ++ [⟨o, usage⟩]) o = operationHistory history o ++ [usage] := by
  rw [operationHistory, List.filter_append, List.map_append]
  simp only [List.filter_cons, beq_self_eq_true, if_true, List.filter_nil, List.map_cons,
    List.map_nil]
  rfl

theorem operationHistory_concat_ne {history : List (SettledUsage C)} {o o' : Nat}
    {usage : CallUsage C} (h : o' ≠ o) :
    operationHistory (history ++ [⟨o', usage⟩]) o = operationHistory history o := by
  have hne : (o' == o) = false := beq_false_of_ne h
  rw [operationHistory, List.filter_append, List.filter_cons, hne, List.filter_nil]
  simp only [Bool.false_eq_true, if_false, List.append_nil]
  rfl

variable [CostNumber C]

namespace Attempts

/-- One step of an attempt, or of the frames and operations around it. -/
inductive Step (a : Attempts C) : Attempts C → Prop
  | quiet : Step a a
  | frameEvent (frameId : JsString) (closed : Bool) :
      Step a { a with journal := a.journal ++
        [if closed then .frameClosed frameId else .frameOpened frameId] }
  | create (core : OperationCore) (hnew : core.logicalReserved = false) :
      Step a { a with operations := a.operations ++ [core] }
  | reserve {o : Nat} {core : OperationCore} {intent : OperationIntent} {tokens : Nat}
      {live : List (LiveAttempt C)} (hop : a.operations[o]? = some core)
      (hcurrent : core.attemptOrdinal = (a.operationAttempts core.attemptKey).getD 0)
      (hidle : ∀ attempt ∈ a.live, attempt.intent.attemptKey ≠ core.attemptKey)
      (hkey : intent.attemptKey = core.attemptKey)
      (hattempt : intent.attempt = core.attemptOrdinal + 1)
      (hreservation : intent.reservation = ⟨if core.logicalReserved then 0 else 1, 1, tokens⟩)
      (hlive : live.Perm (⟨o, intent, .intending⟩ :: a.live)) :
      Step a { a with
        live
        operations := a.operations.set o
          { core with logicalReserved := true, attemptOrdinal := core.attemptOrdinal + 1 }
        operationAttempts := Function.update a.operationAttempts core.attemptKey
          (some (core.attemptOrdinal + 1))
        counters := { a.counters with attempts := a.counters.attempts + 1 } }
  | launch {o : Nat} {intent : OperationIntent} {rest live : List (LiveAttempt C)}
      (hbefore : a.live.Perm (⟨o, intent, .intending⟩ :: rest))
      (hlive : live.Perm (⟨o, intent, .launched⟩ :: rest)) :
      Step a { a with live, journal := a.journal ++ [.intended intent] }
  | settle {o : Nat} {intent : OperationIntent} {event : OperationSettled C}
      {rest live : List (LiveAttempt C)}
      (hbefore : a.live.Perm (⟨o, intent, .launched⟩ :: rest))
      (hlive : live.Perm (⟨o, intent, .settling event⟩ :: rest))
      (hevent : event.intent = intent ∧ event.frameId = intent.frameId)
      (husage : OperationRecovery.settlementUsageOk event.usage = true)
      (hsum : ∃ sum, sumUsages (operationHistory a.history o ++ [event.usage]) = .ok sum)
      (hsafe : a.counters.tokensUsed + event.usage.total ≤ maxSafeInteger) :
      Step a { a with
        live
        history := a.history ++ [⟨o, event.usage⟩]
        counters := a.counters.addUsage event.usage }
  | abandon {o : Nat} {intent : OperationIntent} {live : List (LiveAttempt C)}
      (hbefore : a.live.Perm (⟨o, intent, .launched⟩ :: live)) : Step a { a with live }
  | record {o : Nat} {intent : OperationIntent} {event : OperationSettled C}
      {live : List (LiveAttempt C)}
      (hbefore : a.live.Perm (⟨o, intent, .settling event⟩ :: live))
      (hopen : FrameOpen a.journal event.frameId) :
      Step a { a with live, journal := a.journal ++ [.settled event] }

end Attempts

-- ============================================================================
-- What the folds keep
-- ============================================================================

/-- The two folds over one journal, side by side. -/
structure Folded (journal : List (OperationEvent C)) (d : DerivedUsage C)
    (r : OperationRecovery C) : Prop where
  derived : deriveUsage journal = some d
  recovered : recoverOperations journal = .ok r
  used : r.tokensUsed = d.tokensUsed
  intents : ∀ attempt ∈ r.attempts, attempt.intent ∈ d.intents
  settled : ∀ intent ∈ r.settled, ∃ attempt ∈ r.attempts, attempt.intent = intent
  opened : ∀ frameId, frameId ∈ r.opened ↔ OperationEvent.frameOpened frameId ∈ journal
  closed : ∀ frameId, frameId ∈ r.closed ↔ OperationEvent.frameClosed frameId ∈ journal
  bound : ∀ key segment, r.lastSegment key = some segment → segment < r.segments.length
  /-- No two operations have their last segment in common. -/
  apart : ∀ key key' segment, r.lastSegment key = some segment →
    r.lastSegment key' = some segment → key = key'

namespace Folded

variable {journal : List (OperationEvent C)} {d : DerivedUsage C} {r r' : OperationRecovery C}
  {event : OperationEvent C} {intent : OperationIntent} {settled : OperationSettled C}

theorem empty : Folded ([] : List (OperationEvent C)) DerivedUsage.zero OperationRecovery.empty where
  derived := rfl
  recovered := rfl
  used := rfl
  intents _ h := absurd h List.not_mem_nil
  settled _ h := absurd h List.not_mem_nil
  opened _ := Iff.rfl.trans (iff_of_false List.not_mem_nil List.not_mem_nil)
  closed _ := Iff.rfl.trans (iff_of_false List.not_mem_nil List.not_mem_nil)
  bound _ _ h := absurd h nofun
  apart _ _ _ h := absurd h nofun

theorem frameFault (h : Folded journal d r) {frameId : JsString} (hopen : FrameOpen journal frameId) :
    r.frameFault frameId = none := by
  have hopened : frameId ∈ r.opened := (h.opened frameId).mpr hopen.1
  have hclosed : frameId ∉ r.closed := fun hin => hopen.2 ((h.closed frameId).mp hin)
  rw [OperationRecovery.frameFault, if_neg (not_not.mpr hopened), if_neg hclosed]

theorem frameEvent (h : Folded journal d r) (frameId : JsString) (closed : Bool) :
    Folded (journal ++ [if closed then .frameClosed frameId else .frameOpened frameId]) d
      (if closed then { r with closed := frameId :: r.closed }
        else { r with opened := frameId :: r.opened }) := by
  cases closed with
  | true =>
    refine ⟨?_, ?_, h.used, h.intents, h.settled, fun f => ?_, fun f => ?_, h.bound,
      h.apart⟩
    · rw [deriveUsage_concat, h.derived]
      rfl
    · rw [recoverOperations_concat, h.recovered]
      rfl
    · show f ∈ r.opened ↔ _
      rw [h.opened f, List.mem_append, List.mem_singleton]
      exact ⟨.inl, fun hin => hin.resolve_right nofun⟩
    · show f ∈ frameId :: r.closed ↔ _
      rw [List.mem_cons, h.closed f, List.mem_append, List.mem_singleton]
      exact ⟨fun hin => hin.elim (fun heq => .inr (heq ▸ rfl)) .inl,
        fun hin => hin.elim .inr fun heq => .inl (OperationEvent.frameClosed.inj heq)⟩
  | false =>
    refine ⟨?_, ?_, h.used, h.intents, h.settled, fun f => ?_, fun f => ?_, h.bound,
      h.apart⟩
    · rw [deriveUsage_concat, h.derived]
      rfl
    · rw [recoverOperations_concat, h.recovered]
      rfl
    · show f ∈ frameId :: r.opened ↔ _
      rw [List.mem_cons, h.opened f, List.mem_append, List.mem_singleton]
      exact ⟨fun hin => hin.elim (fun heq => .inr (heq ▸ rfl)) .inl,
        fun hin => hin.elim .inr fun heq => .inl (OperationEvent.frameOpened.inj heq)⟩
    · show f ∈ r.closed ↔ _
      rw [h.closed f, List.mem_append, List.mem_singleton]
      exact ⟨.inl, fun hin => hin.resolve_right nofun⟩


/-- A logical call opens a segment that no operation has yet. -/
theorem openSegment (h : Folded journal d r) (key : JsString) :
    (∀ key' segment, (r.openSegment key).lastSegment key' = some segment →
      segment < (r.openSegment key).segments.length) ∧
    ∀ key₁ key₂ segment, (r.openSegment key).lastSegment key₁ = some segment →
      (r.openSegment key).lastSegment key₂ = some segment → key₁ = key₂ := by
  have hlength : (r.openSegment key).segments.length = r.segments.length + 1 :=
    List.length_append
  have hlast : ∀ key' segment, (r.openSegment key).lastSegment key' = some segment →
      key' = key ∧ segment = r.segments.length ∨
        key' ≠ key ∧ r.lastSegment key' = some segment := by
    intro key' segment hsegment
    change Function.update r.lastSegment key (some r.segments.length) key' = _ at hsegment
    by_cases hkey : key' = key
    · subst hkey
      rw [Function.update_self] at hsegment
      exact .inl ⟨rfl, (Option.some.inj hsegment).symm⟩
    · rw [Function.update_of_ne hkey] at hsegment
      exact .inr ⟨hkey, hsegment⟩
  constructor
  · intro key' segment hsegment
    rw [hlength]
    rcases hlast key' segment hsegment with ⟨-, rfl⟩ | ⟨-, hold⟩
    · exact Nat.lt_succ_self _
    · exact Nat.lt_succ_of_lt (h.bound key' segment hold)
  · intro key₁ key₂ segment hfirst hsecond
    rcases hlast key₁ segment hfirst with ⟨rfl, rfl⟩ | ⟨-, hold₁⟩
    · rcases hlast key₂ _ hsecond with ⟨rfl, -⟩ | ⟨-, hold₂⟩
      · rfl
      · exact absurd (h.bound key₂ _ hold₂) (lt_irrefl _)
    · rcases hlast key₂ segment hsecond with ⟨-, rfl⟩ | ⟨-, hold₂⟩
      · exact absurd (h.bound key₁ _ hold₁) (lt_irrefl _)
      · exact h.apart key₁ key₂ segment hold₁ hold₂

theorem addIntent (h : Folded journal d r) (hrecord : r.recordIntent intent = .ok r') :
    Folded (journal ++ [.intended intent]) (d.addIntent intent) r' := by
  have hintents : ∀ segment, ∀ attempt ∈ (⟨intent, segment⟩ :: r.attempts : List RecordedAttempt),
      attempt.intent ∈ intent :: d.intents := by
    intro segment attempt hmem
    rcases List.mem_cons.mp hmem with rfl | hold
    · exact List.mem_cons_self
    · exact List.mem_cons_of_mem _ (h.intents attempt hold)
  have hsettled : ∀ segment, ∀ intent' ∈ r.settled,
      ∃ attempt ∈ (⟨intent, segment⟩ :: r.attempts : List RecordedAttempt),
        attempt.intent = intent' := by
    intro segment intent' hmem
    obtain ⟨attempt, hold, heq⟩ := h.settled intent' hmem
    exact ⟨attempt, List.mem_cons_of_mem _ hold, heq⟩
  have hderived : deriveUsage (journal ++ [.intended intent]) = some (d.addIntent intent) := by
    rw [deriveUsage_concat, h.derived]
    rfl
  have hrecovered : recoverOperations (journal ++ [.intended intent]) = .ok r' := by
    rw [recoverOperations_concat, h.recovered]
    exact hrecord
  have hopened : ∀ frameId, frameId ∈ r.opened ↔
      OperationEvent.frameOpened frameId ∈ journal ++ [.intended intent] := by
    intro frameId
    rw [h.opened frameId, List.mem_append, List.mem_singleton]
    exact ⟨.inl, fun hin => hin.resolve_right nofun⟩
  have hclosed : ∀ frameId, frameId ∈ r.closed ↔
      OperationEvent.frameClosed frameId ∈ journal ++ [.intended intent] := by
    intro frameId
    rw [h.closed frameId, List.mem_append, List.mem_singleton]
    exact ⟨.inl, fun hin => hin.resolve_right nofun⟩
  unfold OperationRecovery.recordIntent at hrecord
  split at hrecord
  · obtain rfl := Except.ok.inj hrecord
    have hsegments := h.openSegment intent.attemptKey
    exact ⟨hderived, hrecovered, h.used, hintents _, hsettled _, hopened, hclosed, hsegments.1,
      hsegments.2⟩
  · split at hrecord
    · exact absurd hrecord nofun
    · obtain rfl := Except.ok.inj hrecord
      exact ⟨hderived, hrecovered, h.used, hintents _, hsettled _, hopened, hclosed, h.bound,
        h.apart⟩

theorem addSettlement {segment : Nat} {combined : CallUsage C} (h : Folded journal d r)
    (hattempt : ∃ attempt ∈ r.attempts, attempt.intent = settled.intent)
    (hrecord : r.recordSettlement settled = .ok (r.addSettlement settled segment combined)) :
    Folded (journal ++ [.settled settled]) (d.addSettlement settled)
      (r.addSettlement settled segment combined) := by
  obtain ⟨attempt, hmem, hintent⟩ := hattempt
  refine ⟨?_, ?_, ?_, h.intents, fun intent hin => ?_, fun frameId => ?_, fun frameId => ?_,
    fun key s hs => ?_, h.apart⟩
  · rw [deriveUsage_concat, h.derived]
    exact if_pos (hintent ▸ h.intents attempt hmem)
  · rw [recoverOperations_concat, h.recovered]
    exact hrecord
  · exact congrArg (· + settled.usage.total) h.used
  · rcases List.mem_cons.mp hin with rfl | hold
    · exact ⟨attempt, hmem, hintent⟩
    · exact h.settled intent hold
  · show frameId ∈ r.opened ↔ _
    rw [h.opened frameId, List.mem_append, List.mem_singleton]
    exact ⟨.inl, fun hin => hin.resolve_right nofun⟩
  · show frameId ∈ r.closed ↔ _
    rw [h.closed frameId, List.mem_append, List.mem_singleton]
    exact ⟨.inl, fun hin => hin.resolve_right nofun⟩
  · show s < (r.segments.set segment combined).length
    rw [List.length_set]
    exact h.bound key s hs

/-- Any journal that both folds accept. -/
theorem of_folds (hderived : deriveUsage journal = some d)
    (hrecovered : recoverOperations journal = .ok r) : Folded journal d r := by
  induction journal using List.reverseRecOn generalizing d r with
  | nil =>
    obtain rfl := Option.some.inj hderived
    obtain rfl := Except.ok.inj hrecovered
    exact empty
  | append_singleton journal event ih =>
    rw [deriveUsage_concat] at hderived
    obtain ⟨d₀, hd₀, hstep⟩ := Option.bind_eq_some_iff.mp hderived
    rw [recoverOperations_concat] at hrecovered
    cases hr₀ : recoverOperations journal with
    | error fault => rw [hr₀] at hrecovered; exact absurd hrecovered nofun
    | ok r₀ =>
      rw [hr₀] at hrecovered
      have h := ih hd₀ hr₀
      cases event with
      | frameOpened frameId =>
        obtain rfl := Option.some.inj hstep
        obtain rfl := Except.ok.inj hrecovered
        exact h.frameEvent frameId false
      | frameClosed frameId =>
        obtain rfl := Option.some.inj hstep
        obtain rfl := Except.ok.inj hrecovered
        exact h.frameEvent frameId true
      | intended intent =>
        obtain rfl := Option.some.inj hstep
        exact h.addIntent hrecovered
      | settled event =>
        change (if event.intent ∈ d₀.intents then some (d₀.addSettlement event) else none) = _
          at hstep
        change r₀.recordSettlement event = .ok r at hrecovered
        split at hstep
        · obtain rfl := Option.some.inj hstep
          obtain ⟨segment, combined, hattempt, rfl⟩ :=
            OperationRecovery.recordSettlement_cases hrecovered
          exact h.addSettlement hattempt hrecovered
        · exact absurd hstep nofun

end Folded

-- ============================================================================
-- Segments of one operation
-- ============================================================================

namespace OperationRecovery

variable {r r' : OperationRecovery C} {key : JsString} {intent intent' : OperationIntent}
  {usages : List (CallUsage C)}

/-- The last segment of an operation holds the sum of some usages. -/
def SegmentSum (r : OperationRecovery C) (key : JsString) (usages : List (CallUsage C)) : Prop :=
  ∃ segment sum, r.lastSegment key = some segment ∧ r.segments[segment]? = some sum ∧
    sumUsages usages = .ok sum

/-- A recorded intent in the last segment of its operation, without settlement. -/
def Pending (r : OperationRecovery C) (intent : OperationIntent) (usages : List (CallUsage C)) :
    Prop :=
  ∃ segment sum,
    (r.attempts.find? fun attempt => decide (attempt.intent = intent)) = some ⟨intent, segment⟩ ∧
    r.lastSegment intent.attemptKey = some segment ∧ r.segments[segment]? = some sum ∧
    sumUsages usages = .ok sum ∧ intent ∉ r.settled

/-- The two states have the same of one operation. -/
structure SameAt (r r' : OperationRecovery C) (key : JsString) : Prop where
  lastSegment : r'.lastSegment key = r.lastSegment key
  segments : ∀ segment, r.lastSegment key = some segment →
    r'.segments[segment]? = r.segments[segment]?
  attempts : ∀ intent : OperationIntent, intent.attemptKey = key →
    (r'.attempts.find? fun attempt => decide (attempt.intent = intent)) =
      r.attempts.find? fun attempt => decide (attempt.intent = intent)
  recorded : ∀ attempt ∈ r'.attempts, attempt.intent.attemptKey = key → attempt ∈ r.attempts
  settled : ∀ intent : OperationIntent, intent.attemptKey = key →
    (intent ∈ r'.settled ↔ intent ∈ r.settled)

theorem SegmentSum.congr (h : SegmentSum r key usages) (hsame : SameAt r r' key) :
    SegmentSum r' key usages := by
  obtain ⟨segment, sum, hlast, hsegment, hsum⟩ := h
  exact ⟨segment, sum, hsame.lastSegment.trans hlast, (hsame.segments segment hlast).trans hsegment,
    hsum⟩

theorem Pending.congr (h : Pending r intent usages) (hsame : SameAt r r' intent.attemptKey) :
    Pending r' intent usages := by
  obtain ⟨segment, sum, hfind, hlast, hsegment, hsum, hsettled⟩ := h
  exact ⟨segment, sum, (hsame.attempts intent rfl).trans hfind, hsame.lastSegment.trans hlast,
    (hsame.segments segment hlast).trans hsegment, hsum,
    fun hin => hsettled ((hsame.settled intent rfl).mp hin)⟩

theorem Pending.segmentSum (h : Pending r intent usages) :
    SegmentSum r intent.attemptKey usages := by
  obtain ⟨segment, sum, -, hlast, hsegment, hsum, -⟩ := h
  exact ⟨segment, sum, hlast, hsegment, hsum⟩

omit [CostNumber C] in
/-- An intent of another operation. -/
theorem SameAt.addIntent {segment : Nat} (h : intent'.attemptKey ≠ key) :
    SameAt r (r.addIntent intent' segment) key := by
  have hne : ∀ intent : OperationIntent, intent.attemptKey = key → intent' ≠ intent := by
    rintro intent hkey rfl
    exact h hkey
  refine ⟨rfl, fun _ _ => rfl, fun intent hkey => ?_, fun attempt hmem hkey => ?_,
    fun _ _ => Iff.rfl⟩
  · exact List.find?_cons_of_neg (by simpa using hne intent hkey)
  · rcases List.mem_cons.mp hmem with rfl | hold
    · exact absurd hkey h
    · exact hold

omit [CostNumber C] in
theorem SameAt.openSegment {key' : JsString} (hne : key' ≠ key)
    (hbound : ∀ segment, r.lastSegment key = some segment → segment < r.segments.length) :
    SameAt r (r.openSegment key') key where
  lastSegment := Function.update_of_ne hne.symm _ _
  segments segment hlast := List.getElem?_append_left (hbound segment hlast)
  attempts _ _ := rfl
  recorded _ hmem _ := hmem
  settled _ _ := Iff.rfl

omit [CostNumber C] in
theorem SameAt.trans {r'' : OperationRecovery C} (h : SameAt r r' key) (h' : SameAt r' r'' key) :
    SameAt r r'' key where
  lastSegment := h'.lastSegment.trans h.lastSegment
  segments segment hlast :=
    (h'.segments segment (h.lastSegment.trans hlast)).trans (h.segments segment hlast)
  attempts intent hkey := (h'.attempts intent hkey).trans (h.attempts intent hkey)
  recorded attempt hmem hkey := h.recorded attempt (h'.recorded attempt hmem hkey) hkey
  settled intent hkey := (h'.settled intent hkey).trans (h.settled intent hkey)

omit [CostNumber C] in
/-- A settlement of another operation. -/
theorem SameAt.addSettlement {event : OperationSettled C} {segment : Nat} {combined : CallUsage C}
    (hkey : event.intent.attemptKey ≠ key)
    (hapart : ∀ segment', r.lastSegment key = some segment' → segment' ≠ segment) :
    SameAt r (r.addSettlement event segment combined) key where
  lastSegment := rfl
  segments segment' hlast := List.getElem?_set_ne (hapart segment' hlast).symm
  attempts _ _ := rfl
  recorded _ hmem _ := hmem
  settled intent hintent := by
    show intent ∈ event.intent :: r.settled ↔ _
    rw [List.mem_cons]
    refine or_iff_right ?_
    rintro rfl
    exact hkey hintent

end OperationRecovery

-- ============================================================================
-- The invariant
-- ============================================================================

namespace LiveAttempt

def intends (x : LiveAttempt C) : Nat :=
  match x.stage with
  | .intending => 1
  | .launched | .settling _ => 0

/-- A measure of the usage that is settled in the ledger and not in the journal. -/
def settles (f : CallUsage C → Nat) (x : LiveAttempt C) : Nat :=
  match x.stage with
  | .settling event => f event.usage
  | .intending | .launched => 0

/-- The reservation that the journal holds for an attempt. -/
def recordedTokens (x : LiveAttempt C) : Nat :=
  match x.stage with
  | .intending => 0
  | .launched | .settling _ => x.intent.reservation.tokens

end LiveAttempt

/-- What recovery knows of an attempt in each of its stages. -/
def StageOk (r : OperationRecovery C) (bound : Nat) (history : List (CallUsage C))
    (x : LiveAttempt C) : Prop :=
  match x.stage with
  | .intending =>
    (∀ attempt ∈ r.attempts, attempt.intent ≠ x.intent) ∧ x.intent.attempt ≤ bound ∧
      x.intent.reservation.attempts = 1 ∧
      (x.intent.reservation.logicalCalls = 1 ∧ history = [] ∨
        x.intent.reservation.logicalCalls ≠ 1 ∧ r.SegmentSum x.intent.attemptKey history)
  | .launched => r.Pending x.intent history
  | .settling event =>
    event.intent = x.intent ∧ event.frameId = x.intent.frameId ∧
      OperationRecovery.settlementUsageOk event.usage = true ∧
      ∃ before sum, history = before ++ [event.usage] ∧ r.Pending x.intent before ∧
        sumUsages history = .ok sum

structure LiveOk (a : Attempts C) (r : OperationRecovery C) (x : LiveAttempt C) : Prop where
  core : ∃ core, a.operations[x.operation]? = some core ∧
    core.attemptKey = x.intent.attemptKey ∧ core.logicalReserved = true ∧
    core.attemptOrdinal = (a.operationAttempts core.attemptKey).getD 0
  stage : StageOk r ((a.operationAttempts x.intent.attemptKey).getD 0)
    (operationHistory a.history x.operation) x

structure Counted (a : Attempts C) (d : DerivedUsage C) : Prop where
  attempts : a.counters.attempts = d.attempts + tally LiveAttempt.intends a.live
  tokensUsed : a.counters.tokensUsed =
    d.tokensUsed + tally (LiveAttempt.settles CallUsage.total) a.live
  inputTokensUsed : a.counters.inputTokensUsed =
    d.inputTokensUsed + tally (LiveAttempt.settles CallUsage.input) a.live
  outputTokensUsed : a.counters.outputTokensUsed =
    d.outputTokensUsed + tally (LiveAttempt.settles CallUsage.output) a.live
  providerDurationMs : a.counters.providerDurationMs =
    d.providerDurationMs + tally (LiveAttempt.settles CallUsage.durationMs) a.live

/-- The folds agree with the ledger, up to the attempts that are live. -/
structure Recorded (a : Attempts C) (d : DerivedUsage C) (r : OperationRecovery C) : Prop where
  folded : Folded a.journal d r
  counted : Counted a d
  reserved : tally LiveAttempt.recordedTokens a.live ≤ r.tokensReserved
  safe : a.counters.tokensUsed ≤ maxSafeInteger
  keys : (a.live.map fun x => x.intent.attemptKey).Nodup
  bounds : ∀ attempt ∈ r.attempts,
    attempt.intent.attempt ≤ (a.operationAttempts attempt.intent.attemptKey).getD 0
  history : ∀ entry ∈ a.history, entry.operation < a.operations.length
  live : ∀ x ∈ a.live, LiveOk a r x
  ordinals : ∀ (o : Nat) core, a.operations[o]? = some core →
    core.logicalReserved = true →
    core.attemptOrdinal ≤ (a.operationAttempts core.attemptKey).getD 0
  fresh : ∀ (o : Nat) core, a.operations[o]? = some core → core.logicalReserved = false →
    operationHistory a.history o = []
  /-- At most one operation of a key has made the latest attempt. -/
  latest : ∀ (o o' : Nat) core core', a.operations[o]? = some core →
    a.operations[o']? = some core' → core.attemptKey = core'.attemptKey →
    core.logicalReserved = true → core'.logicalReserved = true →
    core.attemptOrdinal = (a.operationAttempts core.attemptKey).getD 0 →
    core'.attemptOrdinal = (a.operationAttempts core.attemptKey).getD 0 → o = o'
  idle : ∀ (o : Nat) core, a.operations[o]? = some core → core.logicalReserved = true →
    core.attemptOrdinal = (a.operationAttempts core.attemptKey).getD 0 →
    (∀ x ∈ a.live, x.intent.attemptKey ≠ core.attemptKey) →
    r.SegmentSum core.attemptKey (operationHistory a.history o)

omit [CostNumber C] in
theorem operationHistory_eq_nil {history : List (SettledUsage C)} {o : Nat}
    (h : ∀ entry ∈ history, entry.operation < o) : operationHistory history o = [] := by
  rw [operationHistory, List.map_eq_nil_iff, List.filter_eq_nil_iff]
  intro entry hmem heq
  exact absurd (h entry hmem) (by rw [beq_iff_eq.mp heq]; exact lt_irrefl o)

theorem StageOk.congr {r r' : OperationRecovery C} {bound bound' : Nat}
    {history history' : List (CallUsage C)} {x : LiveAttempt C} (h : StageOk r bound history x)
    (hsame : r.SameAt r' x.intent.attemptKey) (hbound : bound' = bound)
    (hhistory : history' = history) : StageOk r' bound' history' x := by
  subst hbound hhistory
  unfold StageOk at h ⊢
  cases hstage : x.stage with
  | intending =>
    rw [hstage] at h
    refine ⟨fun attempt hmem heq => ?_, h.2.1, h.2.2.1, ?_⟩
    · exact h.1 attempt (hsame.recorded attempt hmem (heq ▸ rfl)) heq
    · exact h.2.2.2.imp id fun hsum => ⟨hsum.1, hsum.2.congr hsame⟩
  | launched =>
    rw [hstage] at h
    exact OperationRecovery.Pending.congr h hsame
  | settling event =>
    rw [hstage] at h
    obtain ⟨hintent, hframe, husage, before, sum, hhistory, hpending, hsum⟩ := h
    exact ⟨hintent, hframe, husage, before, sum, hhistory, hpending.congr hsame, hsum⟩

namespace Recorded

variable {a : Attempts C} {d : DerivedUsage C} {r r' : OperationRecovery C}
  {live rest : List (LiveAttempt C)} {o : Nat} {intent : OperationIntent}
  {core : OperationCore} {event : OperationSettled C}

theorem perm (h : Recorded a d r) (hperm : live.Perm a.live) :
    Recorded { a with live := live } d r where
  folded := h.folded
  counted := by
    have htally : ∀ f : LiveAttempt C → Nat, tally f live = tally f a.live :=
      fun f => (hperm.map f).sum_eq
    refine ⟨?_, ?_, ?_, ?_, ?_⟩
    · exact h.counted.attempts.trans (congrArg _ (htally _).symm)
    · exact h.counted.tokensUsed.trans (congrArg _ (htally _).symm)
    · exact h.counted.inputTokensUsed.trans (congrArg _ (htally _).symm)
    · exact h.counted.outputTokensUsed.trans (congrArg _ (htally _).symm)
    · exact h.counted.providerDurationMs.trans (congrArg _ (htally _).symm)
  reserved := by
    have htally : tally LiveAttempt.recordedTokens live =
        tally LiveAttempt.recordedTokens a.live := (hperm.map _).sum_eq
    exact htally ▸ h.reserved
  safe := h.safe
  keys := (hperm.map _).nodup_iff.mpr h.keys
  bounds := h.bounds
  history := h.history
  live x hx := ⟨(h.live x (hperm.mem_iff.mp hx)).core, (h.live x (hperm.mem_iff.mp hx)).stage⟩
  ordinals := h.ordinals
  fresh := h.fresh
  latest := h.latest
  idle o core hop hreserved hcurrent hidle :=
    h.idle o core hop hreserved hcurrent fun x hx => hidle x (hperm.mem_iff.mpr hx)

/-- The operation of another live attempt is another one. -/
theorem operation_ne (h : Recorded a d r) {x : LiveAttempt C} (hx : x ∈ a.live)
    (hop : a.operations[o]? = some core) (hkey : x.intent.attemptKey ≠ core.attemptKey) :
    x.operation ≠ o := by
  rintro rfl
  obtain ⟨core', hcore', hkey', -⟩ := (h.live x hx).core
  obtain rfl := Option.some.inj (hop.symm.trans hcore')
  exact hkey hkey'.symm

theorem frameEvent (h : Recorded a d r) (frameId : JsString) (closed : Bool) :
    ∃ r', Recorded { a with journal := a.journal ++
      [if closed then .frameClosed frameId else .frameOpened frameId] } d r' := by
  refine ⟨_, h.folded.frameEvent frameId closed, ⟨h.counted.attempts, h.counted.tokensUsed,
    h.counted.inputTokensUsed, h.counted.outputTokensUsed, h.counted.providerDurationMs⟩, ?_,
    h.safe, h.keys, ?_, h.history, fun x hx => ⟨(h.live x hx).core, ?_⟩, h.ordinals, h.fresh,
    h.latest, fun o core hop hreserved hcurrent hidle => ?_⟩
  · cases closed <;> exact h.reserved
  · cases closed <;> exact h.bounds
  · have hsame : r.SameAt (if closed then { r with closed := frameId :: r.closed }
        else { r with opened := frameId :: r.opened }) x.intent.attemptKey := by
      cases closed <;> exact ⟨rfl, fun _ _ => rfl, fun _ _ => rfl, fun _ hmem _ => hmem,
        fun _ _ => Iff.rfl⟩
    exact (h.live x hx).stage.congr hsame rfl rfl
  · cases closed <;> exact h.idle o core hop hreserved hcurrent hidle

theorem create (h : Recorded a d r) (hnew : core.logicalReserved = false) :
    Recorded { a with operations := a.operations ++ [core] } d r := by
  have hold : ∀ (o : Nat) core', (a.operations ++ [core])[o]? = some core' →
      a.operations[o]? = some core' ∨ o = a.operations.length ∧ core' = core := by
    intro o core' hop
    rcases Nat.lt_or_ge o a.operations.length with hlt | hge
    · exact .inl ((List.getElem?_append_left hlt).symm.trans hop)
    · rw [List.getElem?_append_right hge, List.getElem?_singleton] at hop
      split at hop
      · rename_i hzero
        exact .inr ⟨Nat.le_antisymm (Nat.sub_eq_zero_iff_le.mp hzero) hge,
          (Option.some.inj hop).symm⟩
      · exact absurd hop nofun
  refine ⟨h.folded, ⟨h.counted.attempts, h.counted.tokensUsed,
    h.counted.inputTokensUsed, h.counted.outputTokensUsed, h.counted.providerDurationMs⟩,
    h.reserved, h.safe, h.keys, h.bounds, ?_, fun x hx => ⟨?_, (h.live x hx).stage⟩, ?_, ?_, ?_, ?_⟩
  · intro entry hentry
    show entry.operation < (a.operations ++ [core]).length
    rw [List.length_append]
    exact Nat.lt_add_right _ (h.history entry hentry)
  · obtain ⟨core', hcore', hrest⟩ := (h.live x hx).core
    exact ⟨core', (List.getElem?_append_left (List.getElem?_eq_some_iff.mp hcore').1).trans hcore',
      hrest⟩
  · intro o core' hop hreserved
    rcases hold o core' hop with hop | ⟨-, rfl⟩
    · exact h.ordinals o core' hop hreserved
    · exact absurd (hnew.symm.trans hreserved) nofun
  · intro o core' hop hfresh
    rcases hold o core' hop with hop | ⟨rfl, -⟩
    · exact h.fresh o core' hop hfresh
    · exact operationHistory_eq_nil h.history
  · intro o o' core₁ core₂ hop hop' hkey hreserved hreserved'
    rcases hold o core₁ hop with hop | ⟨-, rfl⟩
    · rcases hold o' core₂ hop' with hop' | ⟨-, rfl⟩
      · exact h.latest o o' core₁ core₂ hop hop' hkey hreserved hreserved'
      · exact absurd (hnew.symm.trans hreserved') nofun
    · exact absurd (hnew.symm.trans hreserved) nofun
  · intro o core' hop hreserved
    rcases hold o core' hop with hop | ⟨-, rfl⟩
    · exact h.idle o core' hop hreserved
    · exact absurd (hnew.symm.trans hreserved) nofun

theorem reserve {tokens : Nat} (h : Recorded a d r) (hop : a.operations[o]? = some core)
    (hcurrent : core.attemptOrdinal = (a.operationAttempts core.attemptKey).getD 0)
    (hidle : ∀ x ∈ a.live, x.intent.attemptKey ≠ core.attemptKey)
    (hkey : intent.attemptKey = core.attemptKey)
    (hattempt : intent.attempt = core.attemptOrdinal + 1)
    (hreservation : intent.reservation = ⟨if core.logicalReserved then 0 else 1, 1, tokens⟩) :
    Recorded { a with
      live := ⟨o, intent, .intending⟩ :: a.live
      operations := a.operations.set o
        { core with logicalReserved := true, attemptOrdinal := core.attemptOrdinal + 1 }
      operationAttempts := Function.update a.operationAttempts core.attemptKey
        (some (core.attemptOrdinal + 1))
      counters := { a.counters with attempts := a.counters.attempts + 1 } } d r := by
  let core' : OperationCore :=
    { core with logicalReserved := true, attemptOrdinal := core.attemptOrdinal + 1 }
  have hlt := (List.getElem?_eq_some_iff.mp hop).1
  have hself : (a.operations.set o core')[o]? = some core' := List.getElem?_set_self hlt
  -- The operations afterwards: the one that reserves, and the others as before.
  have hops : ∀ (o' : Nat) core'', (a.operations.set o core')[o']? = some core'' →
      o' = o ∧ core'' = core' ∨ o' ≠ o ∧ a.operations[o']? = some core'' := by
    intro o' core'' hop'
    by_cases heq : o' = o
    · subst heq
      exact .inl ⟨rfl, (Option.some.inj (hself.symm.trans hop')).symm⟩
    · exact .inr ⟨heq, (List.getElem?_set_ne (Ne.symm heq)).symm.trans hop'⟩
  have hmap : ∀ key, key ≠ core.attemptKey → Function.update a.operationAttempts core.attemptKey
      (some (core.attemptOrdinal + 1)) key = a.operationAttempts key :=
    fun key hne => Function.update_of_ne hne _ _
  have hmapSelf : Function.update a.operationAttempts core.attemptKey
      (some (core.attemptOrdinal + 1)) core.attemptKey = some (core.attemptOrdinal + 1) :=
    Function.update_self _ _ _
  -- An attempt of the same key in an old state is at most the old ordinal.
  have hold : ∀ (o' : Nat) core'', a.operations[o']? = some core'' → core''.logicalReserved = true →
      core''.attemptKey = core.attemptKey → core''.attemptOrdinal ≤ core.attemptOrdinal := by
    intro o' core'' hop' hreserved' hkey'
    have := h.ordinals o' core'' hop' hreserved'
    rw [hkey', ← hcurrent] at this
    exact this
  refine ⟨h.folded, ⟨?_, ?_, ?_, ?_, ?_⟩, ?_, h.safe, ?_, ?_, ?_, ?_, ?_, ?_, ?_, ?_⟩
  · show a.counters.attempts + 1 = d.attempts + tally _ (_ :: a.live)
    rw [tally_cons, h.counted.attempts]
    show _ = d.attempts + (1 + _)
    omega
  · exact h.counted.tokensUsed.trans (congrArg _ (Nat.zero_add _).symm)
  · exact h.counted.inputTokensUsed.trans (congrArg _ (Nat.zero_add _).symm)
  · exact h.counted.outputTokensUsed.trans (congrArg _ (Nat.zero_add _).symm)
  · exact h.counted.providerDurationMs.trans (congrArg _ (Nat.zero_add _).symm)
  · exact (Nat.zero_add _).trans_le h.reserved
  · refine List.nodup_cons.mpr ⟨fun hin => ?_, h.keys⟩
    obtain ⟨x, hx, hkeyx⟩ := List.mem_map.mp hin
    exact hidle x hx (hkeyx.trans hkey)
  · intro attempt hmem
    have := h.bounds attempt hmem
    show _ ≤ (Function.update a.operationAttempts _ _ _).getD 0
    by_cases heq : attempt.intent.attemptKey = core.attemptKey
    · rw [heq, ← hcurrent] at this
      rw [heq, hmapSelf]
      exact Nat.le_succ_of_le this
    · rw [hmap _ heq]
      exact this
  · intro entry hentry
    show entry.operation < (a.operations.set o core').length
    rw [List.length_set]
    exact h.history entry hentry
  · intro x hx
    rcases List.mem_cons.mp hx with rfl | hx
    · refine ⟨⟨core', hself, hkey.symm, rfl, ?_⟩, fun attempt hmem heq => ?_, ?_, ?_, ?_⟩
      · exact (congrArg (fun n => Option.getD n 0) hmapSelf).symm
      · have := h.bounds attempt hmem
        rw [heq, hkey, ← hcurrent, hattempt] at this
        exact absurd this (Nat.not_succ_le_self _)
      · show intent.attempt ≤ (Function.update a.operationAttempts _ _ _).getD 0
        rw [hkey, hmapSelf, hattempt]
        exact le_rfl
      · show intent.reservation.attempts = 1
        rw [hreservation]
      · show intent.reservation.logicalCalls = 1 ∧ _ ∨ intent.reservation.logicalCalls ≠ 1 ∧ _
        rw [hreservation]
        cases hreserved : core.logicalReserved with
        | false => exact .inl ⟨rfl, h.fresh o core hop hreserved⟩
        | true =>
          refine .inr ⟨nofun, ?_⟩
          show r.SegmentSum intent.attemptKey _
          rw [hkey]
          exact h.idle o core hop hreserved hcurrent hidle
    · have hne := hidle x hx
      obtain ⟨core'', hcore, hkeyx, hreserved, hordinal⟩ := (h.live x hx).core
      refine ⟨⟨core'', ?_, hkeyx, hreserved, ?_⟩, ?_⟩
      · exact (List.getElem?_set_ne (h.operation_ne hx hop hne).symm).trans hcore
      · show core''.attemptOrdinal = (Function.update a.operationAttempts _ _ _).getD 0
        rw [hmap _ (hkeyx ▸ hne)]
        exact hordinal
      · show StageOk r ((Function.update a.operationAttempts _ _ _).getD 0) _ x
        rw [hmap _ hne]
        exact (h.live x hx).stage
  · intro o' core'' hop' hreserved'
    show core''.attemptOrdinal ≤ (Function.update a.operationAttempts _ _ _).getD 0
    rcases hops o' core'' hop' with ⟨-, rfl⟩ | ⟨-, hop'⟩
    · exact (congrArg (fun n => Option.getD n 0) hmapSelf).ge
    · by_cases heq : core''.attemptKey = core.attemptKey
      · rw [heq, hmapSelf]
        exact Nat.le_succ_of_le (hold o' core'' hop' hreserved' heq)
      · rw [hmap _ heq]
        exact h.ordinals o' core'' hop' hreserved'
  · intro o' core'' hop' hfresh
    rcases hops o' core'' hop' with ⟨-, rfl⟩ | ⟨-, hop'⟩
    · exact absurd hfresh nofun
    · exact h.fresh o' core'' hop' hfresh
  · intro o₁ o₂ core₁ core₂ hop₁ hop₂ hkeys hreserved₁ hreserved₂ hcurrent₁ hcurrent₂
    change core₁.attemptOrdinal = (Function.update a.operationAttempts _ _ _).getD 0 at hcurrent₁
    change core₂.attemptOrdinal = (Function.update a.operationAttempts _ _ _).getD 0 at hcurrent₂
    by_cases heq : core₁.attemptKey = core.attemptKey
    · -- Only the operation that reserves has the new ordinal.
      rw [heq, hmapSelf] at hcurrent₁ hcurrent₂
      have hlatest : ∀ (o' : Nat) core'', (a.operations.set o core')[o']? = some core'' →
          core''.logicalReserved = true → core''.attemptKey = core.attemptKey →
          core''.attemptOrdinal = core.attemptOrdinal + 1 → o' = o := by
        intro o' core'' hop' hreserved' hkey' hordinal
        rcases hops o' core'' hop' with ⟨heq, -⟩ | ⟨-, hop'⟩
        · exact heq
        · have := hold o' core'' hop' hreserved' hkey'
          omega
      exact (hlatest o₁ core₁ hop₁ hreserved₁ heq hcurrent₁).trans
        (hlatest o₂ core₂ hop₂ hreserved₂ (hkeys ▸ heq) hcurrent₂).symm
    · rw [hmap _ heq] at hcurrent₁ hcurrent₂
      rcases hops o₁ core₁ hop₁ with ⟨-, rfl⟩ | ⟨-, hop₁⟩
      · exact absurd rfl heq
      · rcases hops o₂ core₂ hop₂ with ⟨-, rfl⟩ | ⟨-, hop₂⟩
        · exact absurd hkeys heq
        · exact h.latest o₁ o₂ core₁ core₂ hop₁ hop₂ hkeys hreserved₁ hreserved₂ hcurrent₁ hcurrent₂
  · intro o' core'' hop' hreserved' hcurrent' hidle'
    change core''.attemptOrdinal = (Function.update a.operationAttempts _ _ _).getD 0 at hcurrent'
    have hne : core''.attemptKey ≠ core.attemptKey := fun heq =>
      hidle' _ List.mem_cons_self (hkey.trans heq.symm)
    rcases hops o' core'' hop' with ⟨-, rfl⟩ | ⟨-, hop'⟩
    · exact absurd rfl hne
    · rw [hmap _ hne] at hcurrent'
      exact h.idle o' core'' hop' hreserved' hcurrent' fun x hx =>
        hidle' x (List.mem_cons_of_mem _ hx)

/-- The head of the live attempts has a key of its own. -/
theorem head_key (h : Recorded { a with live := live } d r) {x : LiveAttempt C}
    (hlive : live = x :: rest) : ∀ y ∈ rest, y.intent.attemptKey ≠ x.intent.attemptKey := by
  subst hlive
  intro y hy heq
  exact (List.nodup_cons.mp h.keys).1 (List.mem_map.mpr ⟨y, hy, heq⟩)

theorem launch (h : Recorded { a with live := ⟨o, intent, .intending⟩ :: rest } d r) :
    ∃ r', Recorded { a with
      live := ⟨o, intent, .launched⟩ :: rest
      journal := a.journal ++ [.intended intent] } (d.addIntent intent) r' := by
  have hhead := h.head_key rfl
  obtain ⟨hcore, hfresh, hbound, hattempts, hsegment⟩ :=
    (⟨(h.live _ List.mem_cons_self).core, (h.live _ List.mem_cons_self).stage⟩ : _ ∧ _)
  change ∀ attempt ∈ r.attempts, attempt.intent ≠ intent at hfresh
  have hunsettled : intent ∉ r.settled := by
    intro hin
    obtain ⟨attempt, hmem, heq⟩ := h.folded.settled intent hin
    exact hfresh attempt hmem heq
  -- The intent goes into a segment with the sum of the operation so far.
  have hrecord : ∃ r', r.recordIntent intent = .ok r' ∧
      r'.Pending intent (operationHistory a.history o) ∧
      (∀ key, intent.attemptKey ≠ key → r.SameAt r' key) ∧
      (∀ attempt ∈ r'.attempts, attempt.intent = intent ∨ attempt ∈ r.attempts) ∧
      r'.tokensReserved = r.tokensReserved + intent.reservation.tokens := by
    unfold OperationRecovery.recordIntent
    rcases hsegment with ⟨hlogical, hhistory⟩ | ⟨hlogical, segment, sum, hlast, hget, hsum⟩
    · rw [if_pos hlogical]
      refine ⟨_, rfl, ⟨r.segments.length, zeroCallUsage, ?_, ?_, ?_, ?_, hunsettled⟩, ?_, ?_, rfl⟩
      · exact List.find?_cons_of_pos (decide_eq_true rfl)
      · exact Function.update_self _ _ _
      · exact List.getElem?_concat_length
      · change operationHistory a.history o = [] at hhistory
        rw [hhistory]
        rfl
      · intro key hne
        exact (OperationRecovery.SameAt.openSegment hne (h.folded.bound key)).trans
          (.addIntent hne)
      · intro attempt hmem
        exact (List.mem_cons.mp hmem).imp (congrArg RecordedAttempt.intent) id
    · rw [if_neg hlogical]
      change r.lastSegment intent.attemptKey = some segment at hlast
      rw [hlast]
      refine ⟨_, rfl, ⟨segment, sum, ?_, hlast, hget, hsum, hunsettled⟩, ?_, ?_, rfl⟩
      · exact List.find?_cons_of_pos (decide_eq_true rfl)
      · exact fun key hne => .addIntent hne
      · intro attempt hmem
        exact (List.mem_cons.mp hmem).imp (congrArg RecordedAttempt.intent) id
  obtain ⟨r', hrecord, hpending, hsame, hattempt, htokens⟩ := hrecord
  refine ⟨r', h.folded.addIntent hrecord, ⟨?_, h.counted.tokensUsed, h.counted.inputTokensUsed,
    h.counted.outputTokensUsed, h.counted.providerDurationMs⟩, ?_, h.safe, h.keys, ?_, h.history,
    ?_, h.ordinals, h.fresh, h.latest, ?_⟩
  · have := h.counted.attempts
    change a.counters.attempts = d.attempts + tally _ (_ :: rest) at this
    show a.counters.attempts = d.attempts + intent.reservation.attempts + tally _ (_ :: rest)
    change intent.reservation.attempts = 1 at hattempts
    rw [tally_cons] at this ⊢
    change a.counters.attempts = d.attempts + (1 + _) at this
    show a.counters.attempts = d.attempts + intent.reservation.attempts + (0 + _)
    omega
  · have := h.reserved
    change tally _ (_ :: rest) ≤ _ at this
    show tally _ (_ :: rest) ≤ _
    rw [tally_cons] at this ⊢
    change 0 + _ ≤ _ at this
    show intent.reservation.tokens + _ ≤ _
    omega
  · intro attempt hmem
    rcases hattempt attempt hmem with heq | hold
    · rw [heq]
      exact hbound
    · exact h.bounds attempt hold
  · intro x hx
    rcases List.mem_cons.mp hx with rfl | hx
    · exact ⟨hcore, hpending⟩
    · have hlive := h.live x (List.mem_cons_of_mem _ hx)
      exact ⟨hlive.core, hlive.stage.congr (hsame _ (hhead x hx).symm) rfl rfl⟩
  · intro o' core hop hreserved hcurrent hidle
    have hne : intent.attemptKey ≠ core.attemptKey := hidle _ List.mem_cons_self
    refine (h.idle o' core hop hreserved hcurrent fun x hx => ?_).congr (hsame _ hne)
    rcases List.mem_cons.mp hx with rfl | hx
    · exact hne
    · exact hidle x (List.mem_cons_of_mem _ hx)

theorem settle (h : Recorded { a with live := ⟨o, intent, .launched⟩ :: rest } d r)
    (hevent : event.intent = intent ∧ event.frameId = intent.frameId)
    (husage : OperationRecovery.settlementUsageOk event.usage = true)
    (hsum : ∃ sum, sumUsages (operationHistory a.history o ++ [event.usage]) = .ok sum)
    (hsafe : a.counters.tokensUsed + event.usage.total ≤ maxSafeInteger) :
    Recorded { a with
      live := ⟨o, intent, .settling event⟩ :: rest
      history := a.history ++ [⟨o, event.usage⟩]
      counters := a.counters.addUsage event.usage } d r := by
  have hhead := h.head_key rfl
  have hpending : r.Pending intent (operationHistory a.history o) :=
    (h.live _ List.mem_cons_self).stage
  obtain ⟨core, hop, hkey, hreserved, hcurrent⟩ := (h.live _ List.mem_cons_self).core
  change a.operations[o]? = some core at hop
  change core.attemptKey = intent.attemptKey at hkey
  obtain ⟨sum, hsum⟩ := hsum
  have hself := operationHistory_concat a.history o event.usage
  have hother : ∀ o', o' ≠ o →
      operationHistory (a.history ++ [⟨o, event.usage⟩]) o' = operationHistory a.history o' :=
    fun o' hne => operationHistory_concat_ne hne.symm
  have hsettles : ∀ f : CallUsage C → Nat,
      tally (LiveAttempt.settles f) (⟨o, intent, .settling event⟩ :: rest) =
        tally (LiveAttempt.settles f) (⟨o, intent, .launched⟩ :: rest) + f event.usage := by
    intro f
    rw [tally_cons, tally_cons]
    show f event.usage + _ = 0 + _ + f event.usage
    omega
  refine ⟨h.folded, ⟨h.counted.attempts, ?_, ?_, ?_, ?_⟩, h.reserved, hsafe, h.keys, h.bounds, ?_,
    ?_, h.ordinals, ?_, h.latest, ?_⟩
  · have := h.counted.tokensUsed
    show a.counters.tokensUsed + event.usage.total = d.tokensUsed + tally _ (_ :: rest)
    rw [hsettles]
    change a.counters.tokensUsed = d.tokensUsed + tally _ (_ :: rest) at this
    omega
  · have := h.counted.inputTokensUsed
    show a.counters.inputTokensUsed + event.usage.input = d.inputTokensUsed + tally _ (_ :: rest)
    rw [hsettles]
    change a.counters.inputTokensUsed = d.inputTokensUsed + tally _ (_ :: rest) at this
    omega
  · have := h.counted.outputTokensUsed
    show a.counters.outputTokensUsed + event.usage.output = d.outputTokensUsed + tally _ (_ :: rest)
    rw [hsettles]
    change a.counters.outputTokensUsed = d.outputTokensUsed + tally _ (_ :: rest) at this
    omega
  · have := h.counted.providerDurationMs
    show a.counters.providerDurationMs + event.usage.durationMs =
      d.providerDurationMs + tally _ (_ :: rest)
    rw [hsettles]
    change a.counters.providerDurationMs = d.providerDurationMs + tally _ (_ :: rest) at this
    omega
  · intro entry hentry
    rcases List.mem_append.mp hentry with hold | hnew
    · exact h.history entry hold
    · rw [List.mem_singleton.mp hnew]
      exact (List.getElem?_eq_some_iff.mp hop).1
  · intro x hx
    rcases List.mem_cons.mp hx with rfl | hx
    · refine ⟨⟨core, hop, hkey, hreserved, hcurrent⟩, hevent.1, hevent.2, husage, _, sum, hself,
        hpending, ?_⟩
      show sumUsages (operationHistory (a.history ++ [⟨o, event.usage⟩]) o) = .ok sum
      rw [hself]
      exact hsum
    · have hlive := h.live x (List.mem_cons_of_mem _ hx)
      have hne := h.operation_ne (List.mem_cons_of_mem _ hx) hop
        fun heq => hhead x hx (heq.trans hkey)
      exact ⟨hlive.core, hlive.stage.congr ⟨rfl, fun _ _ => rfl, fun _ _ => rfl,
        fun _ hmem _ => hmem, fun _ _ => Iff.rfl⟩ rfl (hother _ hne)⟩
  · intro o' core' hop' hfresh
    have hne : o' ≠ o := by
      rintro rfl
      obtain rfl := Option.some.inj (hop.symm.trans hop')
      exact absurd (hreserved.symm.trans hfresh) nofun
    exact (hother o' hne).trans (h.fresh o' core' hop' hfresh)
  · intro o' core' hop' hreserved' hcurrent' hidle
    have hne : o' ≠ o := by
      rintro rfl
      obtain rfl := Option.some.inj (hop.symm.trans hop')
      exact hidle _ List.mem_cons_self hkey.symm
    show r.SegmentSum core'.attemptKey (operationHistory (a.history ++ [⟨o, event.usage⟩]) o')
    rw [hother o' hne]
    refine h.idle o' core' hop' hreserved' hcurrent' fun x hx => ?_
    rcases List.mem_cons.mp hx with rfl | hx
    · exact hidle ⟨o, intent, .settling event⟩ List.mem_cons_self
    · exact hidle x (List.mem_cons_of_mem _ hx)

/-- An operation whose attempt leaves the live ones has made the latest of its key. -/
theorem idle_of_leaves {x : LiveAttempt C} (h : Recorded { a with live := x :: rest } d r)
    (hsame : ∀ key, x.intent.attemptKey ≠ key → r.SameAt r' key)
    (hself : r'.SegmentSum x.intent.attemptKey (operationHistory a.history x.operation)) :
    ∀ (o : Nat) core, a.operations[o]? = some core → core.logicalReserved = true →
      core.attemptOrdinal = (a.operationAttempts core.attemptKey).getD 0 →
      (∀ y ∈ rest, y.intent.attemptKey ≠ core.attemptKey) →
      r'.SegmentSum core.attemptKey (operationHistory a.history o) := by
  intro o core hop hreserved hcurrent hidle
  by_cases hkey : x.intent.attemptKey = core.attemptKey
  · obtain ⟨core', hop', hkey', hreserved', hcurrent'⟩ := (h.live x List.mem_cons_self).core
    change a.operations[x.operation]? = some core' at hop'
    change core'.attemptOrdinal = (a.operationAttempts core'.attemptKey).getD 0 at hcurrent'
    obtain rfl : x.operation = o :=
      h.latest x.operation o core' core hop' hop (hkey'.trans hkey) hreserved' hreserved hcurrent'
        (by rw [hkey', hkey]; exact hcurrent)
    exact hkey ▸ hself
  · refine (h.idle o core hop hreserved hcurrent fun y hy => ?_).congr (hsame _ hkey)
    rcases List.mem_cons.mp hy with rfl | hy
    · exact hkey
    · exact hidle y hy

theorem abandon (h : Recorded { a with live := ⟨o, intent, .launched⟩ :: rest } d r) :
    Recorded { a with live := rest } d r := by
  have hpending : r.Pending intent (operationHistory a.history o) :=
    (h.live _ List.mem_cons_self).stage
  have htally : ∀ f : LiveAttempt C → Nat, f ⟨o, intent, .launched⟩ = 0 →
      tally f (⟨o, intent, .launched⟩ :: rest) = tally f rest := by
    intro f hzero
    rw [tally_cons, hzero, Nat.zero_add]
  refine ⟨h.folded, ⟨?_, ?_, ?_, ?_, ?_⟩, ?_, h.safe, (List.nodup_cons.mp h.keys).2, h.bounds,
    h.history, fun x hx => ?_, h.ordinals, h.fresh, h.latest, ?_⟩
  · exact h.counted.attempts.trans (congrArg _ (htally _ rfl))
  · exact h.counted.tokensUsed.trans (congrArg _ (htally _ rfl))
  · exact h.counted.inputTokensUsed.trans (congrArg _ (htally _ rfl))
  · exact h.counted.outputTokensUsed.trans (congrArg _ (htally _ rfl))
  · exact h.counted.providerDurationMs.trans (congrArg _ (htally _ rfl))
  · have := h.reserved
    change tally _ (_ :: rest) ≤ _ at this
    rw [tally_cons] at this
    exact (Nat.le_add_left _ _).trans this
  · have hlive := h.live x (List.mem_cons_of_mem _ hx)
    exact ⟨hlive.core, hlive.stage⟩
  · exact h.idle_of_leaves (fun _ _ => ⟨rfl, fun _ _ => rfl, fun _ _ => rfl, fun _ hmem _ => hmem,
      fun _ _ => Iff.rfl⟩) hpending.segmentSum

theorem record (h : Recorded { a with live := ⟨o, intent, .settling event⟩ :: rest } d r)
    (hopen : FrameOpen a.journal event.frameId) :
    ∃ r', Recorded { a with live := rest, journal := a.journal ++ [.settled event] }
      (d.addSettlement event) r' := by
  have hhead := h.head_key rfl
  obtain ⟨hintent, hframe, husage, before, sum, hhistory, hpending, hsum⟩ :=
    (h.live _ List.mem_cons_self).stage
  change event.intent = intent at hintent
  subst hintent
  change operationHistory a.history o = _ at hhistory
  change sumUsages (operationHistory a.history o) = _ at hsum
  obtain ⟨segment, subtotal, hfind, hlast, hget, hbefore, hunsettled⟩ := hpending
  -- The settlement passes every rule.
  have hused : event.usage.total ≤ a.counters.tokensUsed - d.tokensUsed := by
    have := h.counted.tokensUsed
    change a.counters.tokensUsed = d.tokensUsed + tally _ (_ :: rest) at this
    rw [tally_cons] at this
    change a.counters.tokensUsed = d.tokensUsed + (event.usage.total + _) at this
    omega
  have hreserved : event.intent.reservation.tokens +
      tally LiveAttempt.recordedTokens rest ≤ r.tokensReserved := by
    have := h.reserved
    change tally _ (_ :: rest) ≤ _ at this
    rw [tally_cons] at this
    exact this
  have hfault : r.settlementFault event = none := by
    have hsafe : a.counters.tokensUsed ≤ maxSafeInteger := h.safe
    have := h.counted.tokensUsed
    change a.counters.tokensUsed = d.tokensUsed + tally _ (_ :: rest) at this
    rw [tally_cons] at this
    change a.counters.tokensUsed = d.tokensUsed + (event.usage.total + _) at this
    have hroom : ¬ maxSafeInteger < r.tokensUsed + event.usage.total := by
      rw [h.folded.used]
      omega
    rw [OperationRecovery.settlementFault, if_neg (not_not.mpr hframe.symm), if_neg hunsettled,
      if_neg (ne_false_of_eq_true husage), if_neg (not_lt.mpr ((Nat.le_add_right _ _).trans hreserved)),
      if_neg hroom]
  have hcombined : addUsage subtotal event.usage = .ok sum := by
    rw [hhistory, sumUsages_concat, hbefore] at hsum
    exact hsum
  have hrecord := OperationRecovery.recordSettlement_ok (h.folded.frameFault hopen) hfind hfault
    hget hcombined
  have hattempt : ∃ attempt ∈ r.attempts, attempt.intent = event.intent :=
    ⟨_, List.mem_of_find?_eq_some hfind, rfl⟩
  have hsame : ∀ key, event.intent.attemptKey ≠ key →
      r.SameAt (r.addSettlement event segment sum) key := fun key hne =>
    .addSettlement hne fun segment' hlast' heq =>
      hne (h.folded.apart _ _ segment hlast (heq ▸ hlast'))
  have htally : ∀ f : CallUsage C → Nat,
      tally (LiveAttempt.settles f) (⟨o, event.intent, .settling event⟩ :: rest) =
        f event.usage + tally (LiveAttempt.settles f) rest := fun f => tally_cons _ _ _
  refine ⟨_, h.folded.addSettlement hattempt hrecord, ⟨?_, ?_, ?_, ?_, ?_⟩, ?_, h.safe,
    (List.nodup_cons.mp h.keys).2, h.bounds, h.history, fun x hx => ?_, h.ordinals, h.fresh,
    h.latest, ?_⟩
  · have := h.counted.attempts
    change a.counters.attempts = d.attempts + tally _ (_ :: rest) at this
    rw [tally_cons] at this
    exact this.trans (congrArg _ (Nat.zero_add _))
  · exact (h.counted.tokensUsed.trans (congrArg _ (htally _))).trans (Nat.add_assoc _ _ _).symm
  · exact (h.counted.inputTokensUsed.trans (congrArg _ (htally _))).trans (Nat.add_assoc _ _ _).symm
  · exact (h.counted.outputTokensUsed.trans (congrArg _ (htally _))).trans (Nat.add_assoc _ _ _).symm
  · exact (h.counted.providerDurationMs.trans (congrArg _ (htally _))).trans
      (Nat.add_assoc _ _ _).symm
  · show tally _ rest ≤ r.tokensReserved - event.intent.reservation.tokens
    omega
  · have hlive := h.live x (List.mem_cons_of_mem _ hx)
    exact ⟨hlive.core, hlive.stage.congr (hsame _ (hhead x hx).symm) rfl rfl⟩
  · refine h.idle_of_leaves hsame ⟨segment, sum, hlast, ?_, hsum⟩
    exact List.getElem?_set_self (List.getElem?_eq_some_iff.mp hget).1

/-- Every step keeps the folds in agreement with the ledger. -/
theorem step {a' : Attempts C} (h : Recorded a d r) (hstep : a.Step a') :
    ∃ d' r', Recorded a' d' r' := by
  cases hstep with
  | quiet => exact ⟨d, r, h⟩
  | frameEvent frameId closed =>
    obtain ⟨r', h'⟩ := h.frameEvent frameId closed
    exact ⟨d, r', h'⟩
  | create core hnew => exact ⟨d, r, h.create hnew⟩
  | reserve hop hcurrent hidle hkey hattempt hreservation hlive =>
    exact ⟨d, r, (h.reserve hop hcurrent hidle hkey hattempt hreservation).perm hlive⟩
  | launch hbefore hlive =>
    have hlisted := h.perm hbefore.symm
    obtain ⟨r', h'⟩ := hlisted.launch
    exact ⟨_, r', h'.perm hlive⟩
  | settle hbefore hlive hevent husage hsum hsafe =>
    have hlisted := h.perm hbefore.symm
    exact ⟨d, r, (hlisted.settle hevent husage hsum hsafe).perm hlive⟩
  | abandon hbefore =>
    have hlisted := h.perm hbefore.symm
    exact ⟨d, r, hlisted.abandon⟩
  | record hbefore hopen =>
    have hlisted := h.perm hbefore.symm
    obtain ⟨r', h'⟩ := hlisted.record hopen
    exact ⟨_, r', h'⟩

/-- With no attempt live the derived usage is the ledger's. -/
theorem counters_eq (h : Recorded a d r) (hquiet : a.live = []) : a.counters = d.counters := by
  have htally : ∀ f : LiveAttempt C → Nat, tally f a.live = 0 := by
    intro f
    rw [hquiet]
    rfl
  have hcounted := h.counted
  cases hcounters : a.counters with
  | mk attempts tokensUsed inputTokensUsed outputTokensUsed providerDurationMs =>
    rw [DerivedUsage.counters]
    congr 1
    · have := hcounted.attempts
      rw [htally, hcounters] at this
      exact this
    · have := hcounted.tokensUsed
      rw [htally, hcounters] at this
      exact this
    · have := hcounted.inputTokensUsed
      rw [htally, hcounters] at this
      exact this
    · have := hcounted.outputTokensUsed
      rw [htally, hcounters] at this
      exact this
    · have := hcounted.providerDurationMs
      rw [htally, hcounters] at this
      exact this

end Recorded

end PiRlm.Runtime

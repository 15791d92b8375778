/-
  PiRlm.Shell.JournalRuns

  What a sequence of appends leaves in a journal that starts empty.

  The calls of one store run one after the other, so a run is a fold over its calls.
  The invariant `RunInvariant` says that the file is a list of records, which events
  they hold, and under which identities; every call keeps it.  `HistoryReplayable` says
  that the batches so far can be replayed without an effect.  It is kept by the calls that
  do not commit a part of a batch under an identity of its own.
-/
import Mathlib
import PiRlm.Shell.JournalDurability

namespace PiRlm.Shell

open PiRlm.Lib PiRlm.Lib.Json PiRlm.Core

variable {N : Type} [JsonNumber N]

/-! ## Runs -/

/-- The file, and each call so far with its outcome. -/
structure RunState (N : Type) where
  file : List Byte
  history : List (JournalCall N × Except JournalAppendError JournalBatchAppendOutcome)

/-- One call, when no file operation fails. -/
def RunState.step (st : RunState N) (call : JournalCall N) : RunState N where
  file := (runCall st.file call noFaults).1
  history := st.history ++ [(call, (runCall st.file call noFaults).2)]

/-- The calls of a run in the order of the queue, from an empty file. -/
def runCalls (calls : List (JournalCall N)) : RunState N :=
  calls.foldl RunState.step { file := [], history := [] }

theorem runCalls_concat (calls : List (JournalCall N)) (call : JournalCall N) :
    runCalls (calls ++ [call]) = (runCalls calls).step call := by
  rw [runCalls, List.foldl_append]
  rfl

/-- Events a call committed. -/
def committedBy
    (entry : JournalCall N × Except JournalAppendError JournalBatchAppendOutcome) :
    List (RlmEvent N) :=
  match entry.2 with
  | .error _ => []
  | .ok outcome => committedOf entry.1.events outcome.events

def JournalCall.isBatch : JournalCall N → Bool
  | .append _ => false
  | .appendBatch _ => true

/-! ## Progress identities -/

theorem sameNumber_canonical_left {left left' : RecordValue N} (h : CanonicalRecord left left')
    (leftKey : JsString) (right : RecordValue N) (rightKey : JsString) :
    sameNumber left' leftKey right rightKey = sameNumber left leftKey right rightKey := by
  rw [sameNumber, sameNumber, h.get]
  cases get left leftKey with
  | none => rfl
  | some v => cases v <;> rfl

theorem sameProgressIdentity_canonical_left (left right : RlmEvent N) :
    sameProgressIdentity left.canonical right = sameProgressIdentity left right := by
  simp only [sameProgressIdentity, RlmEvent.frameId_canonical,
    sameNumber_canonical_left left.canonicalRecord]

theorem sameNumber_comm (left : RecordValue N) (leftKey : JsString) (right : RecordValue N)
    (rightKey : JsString) :
    sameNumber left leftKey right rightKey = sameNumber right rightKey left leftKey := by
  rw [sameNumber, sameNumber]
  cases get left leftKey with
  | none => cases get right rightKey with
    | none => rfl
    | some w => cases w <;> rfl
  | some v => cases get right rightKey with
    | none => cases v <;> rfl
    | some w => cases v <;> cases w <;> first | rfl | exact decide_eq_decide.mpr eq_comm

theorem sameProgressIdentity_comm (left right : RlmEvent N) :
    sameProgressIdentity left right = sameProgressIdentity right left := by
  rw [sameProgressIdentity, sameProgressIdentity, sameNumber_comm left.fields,
    sameNumber_comm left.fields, Bool.beq_comm]

theorem sameNumber_self {value : RecordValue N} {key : JsString} {positive : Bool}
    (h : integer value key positive = true) : sameNumber value key value key = true := by
  rw [integer] at h
  rw [sameNumber]
  split at h
  · rename_i n hget
    rw [hget]
    exact decide_eq_true rfl
  · exact absurd h Bool.false_ne_true

/-- A progress event has the members its identity is made of. -/
theorem validProgress_of_isProgress {event : RlmEvent N} (h : isProgress event = true) :
    ∃ textKey, validProgress textKey event.fields = true := by
  have hvalid := event.valid
  rw [validEvent, Bool.and_eq_true] at hvalid
  rw [isProgress, Bool.or_eq_true, beq_iff_eq, beq_iff_eq] at h
  rcases h with htype | htype
  · rw [show stringAt event.fields (js "type") = js "phase" from htype] at hvalid
    exact ⟨js "name", hvalid.2⟩
  · rw [show stringAt event.fields (js "type") = js "emit" from htype] at hvalid
    exact ⟨js "message", hvalid.2⟩

theorem sameProgressIdentity_self {event : RlmEvent N} (h : isProgress event = true) :
    sameProgressIdentity event event = true := by
  obtain ⟨textKey, hvalid⟩ := validProgress_of_isProgress h
  simp only [validProgress, Bool.and_eq_true] at hvalid
  rw [sameProgressIdentity, sameNumber_self hvalid.1.1.2, sameNumber_self hvalid.1.2,
    beq_self_eq_true]
  rfl

theorem isTerminal_eq_false_of_isProgress {event : RlmEvent N} (h : isProgress event = true) :
    isTerminal event = false := by
  rw [isProgress, Bool.or_eq_true, beq_iff_eq, beq_iff_eq] at h
  rw [isTerminal]
  rcases h with htype | htype <;> rw [htype] <;> decide

/-! ## The shape of a batch -/

theorem type_of_cellIndexes {batch : List (RlmEvent N)} {i : Nat} (h : cellIndexes batch = [i])
    {cell : RlmEvent N} {tail : List (RlmEvent N)} (hdrop : batch.drop i = cell :: tail) :
    cell.type = js "cell_committed" := by
  have hmem : i ∈ cellIndexes batch := by
    rw [h]
    exact List.mem_singleton_self i
  rw [cellIndexes] at hmem
  obtain ⟨⟨e, j⟩, hfilter, rfl⟩ := List.mem_map.mp hmem
  obtain ⟨hzip, htype⟩ := List.mem_filter.mp hfilter
  have hget : batch[j]? = some e := List.mem_zipIdx_iff_getElem?.mp hzip
  have hcell : batch[j]? = some cell := by
    rw [← Nat.add_zero j, ← List.getElem?_drop, hdrop]
    rfl
  obtain rfl := Option.some.inj (hcell.symm.trans hget)
  exact beq_iff_eq.mp htype

/-- A valid batch is a citation with its answer, or the progress of a cell, the cell and
    perhaps its answer. -/
theorem validBatchSemantics_cases {batch : List (RlmEvent N)}
    (h : validBatchSemantics batch = true) :
    (∃ citation answer, batch = [citation, answer] ∧ isFallbackPair citation answer = true) ∨
      ∃ progress cell tail, batch = progress ++ cell :: tail ∧
        cell.type = js "cell_committed" ∧
        (progress.zipIdx.all fun p => progressMatches cell p.1 p.2) = true ∧
        (tail = [] ∨ ∃ answer, tail = [answer] ∧ answer.type = js "answer_committed") := by
  have hcell : validBatchSemantics.validCellBatch batch = true →
      ∃ progress cell tail, batch = progress ++ cell :: tail ∧
        cell.type = js "cell_committed" ∧
        (progress.zipIdx.all fun p => progressMatches cell p.1 p.2) = true ∧
        (tail = [] ∨ ∃ answer, tail = [answer] ∧ answer.type = js "answer_committed") := by
    intro hvalid
    rw [validBatchSemantics.validCellBatch] at hvalid
    split at hvalid
    · rename_i i hindexes
      split at hvalid
      · exact absurd hvalid Bool.false_ne_true
      · rename_i cell tail hdrop
        simp only [Bool.and_eq_true, Bool.or_eq_true, beq_iff_eq] at hvalid
        obtain ⟨⟨hlength, hprogress⟩, htail⟩ := hvalid
        have hsplit : batch = batch.take i ++ cell :: tail := by
          rw [← hdrop, List.take_append_drop]
        have hdroplength := congrArg List.length hdrop
        rw [List.length_drop, List.length_cons] at hdroplength
        refine ⟨batch.take i, cell, tail, hsplit, type_of_cellIndexes hindexes hdrop,
          hprogress, ?_⟩
        rcases tail with _ | ⟨answer, _ | ⟨other, rest⟩⟩
        · exact .inl rfl
        · simp only [validCellTail, Bool.and_eq_true, beq_iff_eq] at htail
          exact .inr ⟨answer, rfl, htail.1.1.1⟩
        · simp only [List.length_cons] at hdroplength
          omega
    · exact absurd hvalid Bool.false_ne_true
  unfold validBatchSemantics at h
  split_ifs at h with hanswers
  split at h
  · rename_i first second
    split_ifs at h with hpair
    · exact .inl ⟨first, second, rfl, hpair⟩
    · exact .inr (hcell h)
  · exact .inr (hcell h)

/-- Neither ends a run before the other, nor do they share a progress identity. -/
def Compatible (event later : RlmEvent N) : Prop :=
  isTerminal event = false ∧
    (isProgress event = true → isProgress later = true → sameProgressIdentity event later = false)

theorem isProgress_of_type {event : RlmEvent N} {type : JsString} (h : event.type = type)
    (hphase : type ≠ js "phase") (hemit : type ≠ js "emit") : isProgress event = false := by
  rw [isProgress, h, beq_false_of_ne hphase, beq_false_of_ne hemit]
  rfl

theorem isTerminal_of_type {event : RlmEvent N} {type : JsString} (h : event.type = type)
    (hcompleted : type ≠ js "run_completed") (hfailed : type ≠ js "run_failed")
    (hcancelled : type ≠ js "run_cancelled") : isTerminal event = false := by
  rw [isTerminal, h, beq_false_of_ne hcompleted, beq_false_of_ne hfailed,
    beq_false_of_ne hcancelled]
  rfl

/-- Progress events at different places of a batch have different ordinals. -/
theorem sameProgressIdentity_of_ordinals {cell cell' event later : RlmEvent N} {i j : Nat}
    (hi : progressMatches cell event i = true) (hj : progressMatches cell' later j = true)
    (hne : i ≠ j) : sameProgressIdentity event later = false := by
  have hnumber : ∀ {cell event : RlmEvent N} {i : Nat}, progressMatches cell event i = true →
      ∃ n, get event.fields (js "ordinal") = some (.num n) ∧ JsonNumber.value n = i := by
    intro cell event i h
    simp only [progressMatches, Bool.and_eq_true] at h
    have hordinal := h.2
    rw [isNumber] at hordinal
    split at hordinal
    · rename_i n hget
      exact ⟨n, hget, of_decide_eq_true hordinal⟩
    · exact absurd hordinal Bool.false_ne_true
  obtain ⟨m, hm, hmi⟩ := hnumber hi
  obtain ⟨n, hn, hnj⟩ := hnumber hj
  have hdiffer : sameNumber event.fields (js "ordinal") later.fields (js "ordinal") = false := by
    rw [sameNumber, hm, hn]
    apply decide_eq_false
    rw [hmi, hnj]
    exact_mod_cast hne
  rw [sameProgressIdentity, hdiffer, Bool.and_false]

theorem pairwise_compatible {batch : List (RlmEvent N)} (h : validBatchSemantics batch = true) :
    batch.Pairwise Compatible := by
  rcases validBatchSemantics_cases h with
    ⟨citation, answer, rfl, hpair⟩ | ⟨progress, cell, tail, rfl, hcell, hprogress, htail⟩
  · simp only [isFallbackPair, Bool.and_eq_true, beq_iff_eq] at hpair
    refine List.pairwise_pair.mpr ⟨isTerminal_of_type hpair.1 ?_ ?_ ?_, ?_⟩
    · decide
    · decide
    · decide
    · rw [isProgress_of_type hpair.1 (by decide) (by decide)]
      rintro ⟨⟩
  · have hmatches : ∀ i (hi : i < progress.length), progressMatches cell progress[i] i = true := by
      intro i hi
      rw [List.all_eq_true] at hprogress
      exact hprogress (progress[i], i) (List.mem_zipIdx_iff_getElem?.mpr (by simp [hi]))
    have hnoprogress : ∀ later ∈ cell :: tail, isProgress later = false := by
      intro later hlater
      rcases List.mem_cons.mp hlater with rfl | hlater
      · exact isProgress_of_type hcell (by decide) (by decide)
      · rcases htail with rfl | ⟨answer, rfl, htype⟩
        · cases hlater
        · obtain rfl := List.mem_singleton.mp hlater
          exact isProgress_of_type htype (by decide) (by decide)
    have hcellTerminal : isTerminal cell = false :=
      isTerminal_of_type hcell (by decide) (by decide) (by decide)
    rw [List.pairwise_append]
    refine ⟨?_, ?_, ?_⟩
    · rw [List.pairwise_iff_getElem]
      intro i j hi hj hij
      have hmatch := hmatches i hi
      refine ⟨isTerminal_eq_false_of_isProgress ?_, fun _ _ =>
        sameProgressIdentity_of_ordinals hmatch (hmatches j hj) hij.ne⟩
      simp only [progressMatches, Bool.and_eq_true] at hmatch
      exact hmatch.1.1.1
    · rw [List.pairwise_cons]
      refine ⟨fun later hlater => ⟨hcellTerminal, fun _ hp => ?_⟩, ?_⟩
      · rw [hnoprogress later (List.mem_cons_of_mem cell hlater)] at hp
        exact absurd hp Bool.false_ne_true
      · rcases htail with rfl | ⟨answer, rfl, -⟩
        · exact List.Pairwise.nil
        · exact List.pairwise_singleton _ _
    · intro event hevent later hlater
      obtain ⟨i, hi, rfl⟩ := List.mem_iff_getElem.mp hevent
      have hmatch := hmatches i hi
      simp only [progressMatches, Bool.and_eq_true] at hmatch
      refine ⟨isTerminal_eq_false_of_isProgress hmatch.1.1.1, fun _ hp => ?_⟩
      rw [hnoprogress later hlater] at hp
      exact absurd hp Bool.false_ne_true

/-! ## What a call accepts -/

/-- A progress event whose identity one of the events has. -/
def alreadyPresent (events : List (RlmEvent N)) (event : RlmEvent N) : Bool :=
  isProgress event && (events.filter isProgress).any (sameProgressIdentity · event)

/-- The events of a call less the progress that is there. -/
def remaining (events batch : List (RlmEvent N)) : List (RlmEvent N) :=
  batch.filter fun event => !alreadyPresent events event

/-- The loop decides on each event by itself. -/
theorem acceptEvents_eq {batch : List (RlmEvent N)} (h : batch.Pairwise Compatible)
    (identities : List (RlmEvent N)) :
    acceptEvents batch false identities =
      batch.map fun event =>
        (event,
          if isProgress event && identities.any (sameProgressIdentity · event) then .deduplicated
          else .committed) := by
  induction batch generalizing identities with
  | nil => rfl
  | cons event batch ih =>
    rw [List.pairwise_cons] at h
    obtain ⟨hlater, hrest⟩ := h
    rw [acceptEvents, if_neg Bool.false_ne_true, List.map_cons]
    by_cases hknown : (isProgress event && identities.any (sameProgressIdentity · event)) = true
    · rw [if_pos hknown, if_pos hknown, ih hrest]
    · rw [if_neg hknown, if_neg hknown]
      cases batch with
      | nil => rfl
      | cons next batch =>
        rw [(hlater next List.mem_cons_self).1, ih hrest]
        congr 1
        apply List.map_congr_left
        intro later hmem
        by_cases hprogress : isProgress event = true
        · -- the identity that was added is none of the later ones
          rw [if_pos hprogress, List.any_append, List.any_cons, List.any_nil, Bool.or_false]
          by_cases hp : isProgress later = true
          · rw [(hlater later hmem).2 hprogress hp, Bool.or_false]
          · rw [Bool.eq_false_iff.mpr hp, Bool.false_and, Bool.false_and]
        · rw [if_neg hprogress]

theorem decided_eq {batch : List (RlmEvent N)} (h : batch.Pairwise Compatible)
    (events : List (RlmEvent N)) :
    acceptEvents batch false (events.filter isProgress) =
      batch.map fun event =>
        (event, if alreadyPresent events event then .deduplicated else .committed) :=
  acceptEvents_eq h _

theorem accepted_eq {batch : List (RlmEvent N)} (h : batch.Pairwise Compatible)
    (events : List (RlmEvent N)) :
    ((acceptEvents batch false (events.filter isProgress)).filter
      fun d => d.2 == .committed).map Prod.fst = remaining events batch := by
  rw [decided_eq h, List.filter_map, List.map_map, remaining]
  have hcommitted : (fun d : RlmEvent N × JournalAppendDisposition => d.2 == .committed) ∘
      (fun event => (event,
        if alreadyPresent events event then JournalAppendDisposition.deduplicated
        else .committed)) = fun event => !alreadyPresent events event := by
    funext event
    cases hpresent : alreadyPresent events event <;> simp [hpresent]
  rw [hcommitted]
  exact List.map_id _

theorem not_isTerminal_of_mem {batch : List (RlmEvent N)}
    (h : validBatchSemantics batch = true) : ∀ event ∈ batch, isTerminal event = false := by
  have hanswer : ∀ {event : RlmEvent N}, event.type = js "answer_committed" →
      isTerminal event = false := fun htype =>
    isTerminal_of_type htype (by decide) (by decide) (by decide)
  rcases validBatchSemantics_cases h with
    ⟨citation, answer, rfl, hpair⟩ | ⟨progress, cell, tail, rfl, hcell, hprogress, htail⟩
  · simp only [isFallbackPair, Bool.and_eq_true, beq_iff_eq] at hpair
    simp only [List.forall_mem_cons, List.not_mem_nil, false_imp_iff, implies_true, and_true]
    exact ⟨isTerminal_of_type hpair.1 (by decide) (by decide) (by decide), hanswer hpair.2⟩
  · intro event hevent
    rcases List.mem_append.mp hevent with hmem | hmem
    · have hpairwise := pairwise_compatible h
      rw [List.pairwise_append] at hpairwise
      exact (hpairwise.2.2 event hmem cell List.mem_cons_self).1
    · rcases List.mem_cons.mp hmem with rfl | hmem
      · exact isTerminal_of_type hcell (by decide) (by decide) (by decide)
      · rcases htail with rfl | ⟨answer, rfl, htype⟩
        · cases hmem
        · obtain rfl := List.mem_singleton.mp hmem
          exact hanswer htype

/-- The candidate of a valid batch is the batch. -/
theorem exactReplay_batch {batch : List (RlmEvent N)} (h : validBatchSemantics batch = true)
    (scan : JournalScan N) :
    exactReplay scan batch true =
      if (batchOf batch).batchId ∈ scan.batchIds then
        .ok (some (batch.map fun _ => .deduplicated))
      else .ok none := by
  have hnone : batch.findIdx? isTerminal = none := by
    rw [List.findIdx?_eq_none_iff]
    exact not_isTerminal_of_mem h
  simp only [exactReplay, if_true, hnone, makeBatchRecord_ok]
  congr 2
  rw [List.mapIdx_eq_zipIdx_map]
  simp

/-- Calls whose events are compatible: a single event, or a valid batch. -/
structure WellFormedCall (batch : List (RlmEvent N)) (batched : Bool) : Prop where
  pairwise : batch.Pairwise Compatible
  single : batched = false → batch.length ≤ 1
  valid : batched = true → validBatchSemantics batch = true

theorem wellFormedCall_of_parse {call : JournalCall N} {batch : List (RlmEvent N)}
    {batched : Bool} (h : call.parse = .ok (batch, batched)) :
    WellFormedCall batch batched ∧ call.events = batch ∧ call.isBatch = batched := by
  have hsingle := parse_length h
  have hevents : call.events = batch := by rw [JournalCall.events, h]
  cases call with
  | append event =>
    rw [JournalCall.parse] at h
    cases hevent : parseRlmEvent event with
    | error e => rw [hevent] at h; cases h
    | ok e =>
      rw [hevent] at h
      obtain ⟨rfl, rfl⟩ := Prod.mk.inj (Except.ok.inj h)
      exact ⟨⟨List.pairwise_singleton _ _, hsingle, by simp⟩, hevents, rfl⟩
  | appendBatch events =>
    rw [JournalCall.parse] at h
    cases hparsed : events.mapM parseRlmEvent with
    | error e => rw [hparsed] at h; cases h
    | ok parsed =>
      rw [hparsed] at h
      simp only [Except.bind] at h
      split_ifs at h with hvalid
      obtain ⟨rfl, rfl⟩ := Prod.mk.inj (Except.ok.inj h)
      exact ⟨⟨pairwise_compatible hvalid, hsingle, fun _ => hvalid⟩, hevents, rfl⟩

/-! ## What a plan decides -/

section Plan

variable {scan : JournalScan N} {batch : List (RlmEvent N)} {batched : Bool}
  {plan : AppendPlan N}

theorem planRecord_batch (scan : JournalScan N) (accepted : List (RlmEvent N)) :
    planRecord scan true accepted =
      if accepted = [] then .ok none
      else if validBatchSemantics accepted = true then
        if (batchOf accepted).batchId ∈ scan.batchIds then .ok none
        else .ok (some { line := (batchLine accepted).render ++ [lineFeedUnit]
                         batchId := some (batchOf accepted).batchId })
      else .error (journalCorrupt (js "invalid deduplicated journal batch")) := by
  cases accepted with
  | nil => rfl
  | cons first rest =>
    rw [if_neg (List.cons_ne_nil first rest)]
    simp only [planRecord, if_true, makeBatchRecord_ok, recordLine_batchOf]

theorem planRecord_event (scan : JournalScan N) (accepted : List (RlmEvent N)) :
    planRecord scan false accepted =
      .ok (accepted.head?.map fun event =>
        { line := event.canonical.toJson.render ++ [lineFeedUnit], batchId := none }) := by
  cases accepted with
  | nil => rfl
  | cons first rest => simp [planRecord, recordLine_event]

/-- A plan with a record appends what is not there yet. -/
theorem planAppend_some (hcall : WellFormedCall batch batched)
    (h : planAppend scan batch batched = .ok plan) (hrecord : plan.record ≠ none) :
    scan.events.any isTerminal = false ∧ plan.accepted = remaining scan.events batch ∧
      (batched = true → (batchOf batch).batchId ∉ scan.batchIds ∧
        validBatchSemantics (remaining scan.events batch) = true ∧
        (batchOf (remaining scan.events batch)).batchId ∉ scan.batchIds) := by
  rw [planAppend] at h
  split_ifs at h with hterminal
  · obtain rfl := Except.ok.inj h
    exact absurd rfl hrecord
  refine ⟨Bool.eq_false_iff.mpr hterminal, ?_⟩
  cases hreplay : exactReplay scan batch batched with
  | error cause => rw [hreplay] at h; cases h
  | ok replay =>
    rw [hreplay] at h
    cases replay with
    | some dispositions =>
      obtain rfl := Except.ok.inj h
      exact absurd rfl hrecord
    | none =>
      dsimp only at h
      rw [planDecided, accepted_eq hcall.pairwise] at h
      split at h
      · cases h
      · rename_i planned hplanned
        obtain rfl := Except.ok.inj h
        refine ⟨rfl, fun hbatched => ?_⟩
        subst hbatched
        rw [exactReplay_batch (hcall.valid rfl)] at hreplay
        split_ifs at hreplay with hseen
        · cases Except.ok.inj hreplay
        rw [planRecord_batch] at hplanned
        split_ifs at hplanned with hnil hvalid hrest
        · cases Except.ok.inj hplanned
        · cases Except.ok.inj hplanned
        · exact ⟨hseen, hvalid, hrest⟩
      · obtain rfl := Except.ok.inj h
        exact absurd rfl hrecord

/-- What is declared a duplicate is there: as a progress identity, or in a batch. -/
theorem planAppend_deduplicated (hcall : WellFormedCall batch batched)
    (h : planAppend scan batch batched = .ok plan) {event : RlmEvent N}
    (hevent : (event, .deduplicated) ∈ batch.zip plan.dispositions) :
    alreadyPresent scan.events event = true ∨
      ∃ es : List (RlmEvent N), batched = true ∧ es.Sublist batch ∧ event ∈ es ∧
        validBatchSemantics es = true ∧ (batchOf es).batchId ∈ scan.batchIds := by
  have hmem := (List.of_mem_zip hevent).1
  rw [planAppend] at h
  split_ifs at h with hterminal
  · obtain rfl := Except.ok.inj h
    have hd := (List.of_mem_zip hevent).2
    simp at hd
  cases hreplay : exactReplay scan batch batched with
  | error cause => rw [hreplay] at h; cases h
  | ok replay =>
    rw [hreplay] at h
    cases replay with
    | some dispositions =>
      right
      cases batched with
      | false => cases Except.ok.inj hreplay
      | true =>
        rw [exactReplay_batch (hcall.valid rfl)] at hreplay
        split_ifs at hreplay with hseen
        · exact ⟨batch, rfl, List.Sublist.refl _, hmem, hcall.valid rfl, hseen⟩
        · cases Except.ok.inj hreplay
    | none =>
      dsimp only at h
      rw [planDecided, accepted_eq hcall.pairwise] at h
      by_cases hpresent : alreadyPresent scan.events event = true
      · exact .inl hpresent
      have hremaining : event ∈ remaining scan.events batch :=
        List.mem_filter.mpr ⟨hmem, by simpa using hpresent⟩
      right
      split at h
      · cases h
      · -- with a record, an event that is not present is committed
        obtain rfl := Except.ok.inj h
        have hzip := zip_map_snd_acceptEvents batch false (scan.events.filter isProgress)
        dsimp only at hevent
        rw [hzip, decided_eq hcall.pairwise] at hevent
        obtain ⟨e, -, he⟩ := List.mem_map.mp hevent
        obtain ⟨rfl, hd⟩ := Prod.mk.inj he
        rw [if_neg hpresent] at hd
        cases hd
      · rename_i hnone
        have hne : remaining scan.events batch ≠ [] := List.ne_nil_of_mem hremaining
        cases batched with
        | false =>
          rw [planRecord_event, List.head?_eq_some_head hne] at hnone
          cases Except.ok.inj hnone
        | true =>
          rw [planRecord_batch, if_neg hne] at hnone
          split_ifs at hnone with hvalid hseen
          · exact ⟨_, rfl, List.filter_sublist, hremaining, hvalid, hseen⟩
          · cases Except.ok.inj hnone

/-- The part of a batch that is not progress. -/
def cellPart (batch : List (RlmEvent N)) : List (RlmEvent N) :=
  batch.filter fun event => !isProgress event

/-- The journal has the batch, or all of its progress and the batch of the rest. -/
def Replayable (events : List (RlmEvent N)) (batchIds : List JsString)
    (batch : List (RlmEvent N)) : Prop :=
  (batchOf batch).batchId ∈ batchIds ∨
    (remaining events batch = cellPart batch ∧ (batchOf (cellPart batch)).batchId ∈ batchIds)

theorem planAppend_replayable (hvalid : validBatchSemantics batch = true)
    (hreplayable : Replayable scan.events scan.batchIds batch)
    (h : planAppend scan batch true = .ok plan) : plan.record = none := by
  by_contra hrecord
  have hcall : WellFormedCall batch true :=
    ⟨pairwise_compatible hvalid, fun h => absurd h (by decide), fun _ => hvalid⟩
  obtain ⟨-, -, hnew⟩ := planAppend_some hcall h hrecord
  obtain ⟨hbatch, -, hrest⟩ := hnew rfl
  rcases hreplayable with hseen | ⟨hremaining, hseen⟩
  · exact hbatch hseen
  · rw [hremaining] at hrest
    exact hrest hseen

end Plan

/-! ## A call on written records -/

/-- What a scan of these records returns. -/
def scanOf (records : List (JournalRecord N)) : JournalScan N :=
  (scanned records).toScan (journalOctets records).length

theorem scanJournal_records (records : List (JournalRecord N)) :
    scanJournal (journalOctets records) = .ok (scanOf records) := by
  have hscan := scanJournal_append records (List.not_mem_nil (a := lineFeed))
  rwa [List.append_nil] at hscan

theorem openJournal_records (records : List (JournalRecord N)) :
    (openJournal (N := N) (journalOctets records) noFaults).1 = journalOctets records ∧
      ∀ scan : JournalScan N, (openJournal (journalOctets records) noFaults).2 = .ok scan →
        scan = scanOf records := by
  rw [openJournal]
  simp only [noFaults, readBounded, Bool.false_eq_true, if_false]
  split_ifs with hlength
  · exact ⟨rfl, by simp⟩
  · have hwhole : ¬(scanOf records).verifiedBytes ≠ (journalOctets records).length :=
      not_not_intro rfl
    dsimp only
    rw [scanJournal_records]
    dsimp only
    rw [if_neg hwhole]
    exact ⟨rfl, fun scan hscan => (Except.ok.inj hscan).symm⟩

/-- What a call does to these records: nothing, or one record more. -/
inductive CallStep (records : List (JournalRecord N)) (call : JournalCall N) :
    List Byte × Except JournalAppendError JournalBatchAppendOutcome → Prop where
  | rejected (e : JournalAppendError) : CallStep records call (journalOctets records, .error e)
  | kept {batch : List (RlmEvent N)} {batched : Bool} {plan : AppendPlan N}
      {outcome : JournalBatchAppendOutcome} (hparse : call.parse = .ok (batch, batched))
      (hplan : planAppend (scanOf records) batch batched = .ok plan)
      (hrecord : plan.record = none) (houtcome : outcome.events = plan.dispositions) :
      CallStep records call (journalOctets records, .ok outcome)
  | appended {batch : List (RlmEvent N)} {batched : Bool} {plan : AppendPlan N}
      {record : JournalRecord N} {outcome : JournalBatchAppendOutcome}
      (hparse : call.parse = .ok (batch, batched))
      (hplan : planAppend (scanOf records) batch batched = .ok plan)
      (hrecord : plan.record ≠ none) (houtcome : outcome.events = plan.dispositions)
      (hevents : record.events = plan.accepted)
      (hid : record.batchId =
        if batched then some (batchOf plan.accepted).batchId else none)
      (hfresh : ∀ id ∈ record.batchId, id ∉ committedBatchIds records) :
      CallStep records call (journalOctets (records ++ [record]), .ok outcome)

theorem closeJournal_noFaults (plan : AppendPlan N) (eventDurable : Bool) :
    ∃ outcome, closeJournal plan eventDurable noFaults = .ok outcome ∧
      outcome.events = plan.dispositions := by
  cases hclose : closeJournal plan eventDurable noFaults with
  | error e =>
    simp only [closeJournal, noFaults, Bool.false_eq_true, if_false] at hclose
    split_ifs at hclose
  | ok outcome => exact ⟨outcome, rfl, closeJournal_ok hclose⟩

theorem runCall_step (records : List (JournalRecord N)) (call : JournalCall N) :
    CallStep records call (runCall (journalOctets records) call noFaults) := by
  rw [runCall]
  cases hparse : call.parse with
  | error e => exact .rejected _
  | ok parsed =>
    obtain ⟨batch, batched⟩ := parsed
    obtain ⟨hfile, hopened⟩ := openJournal_records records
    dsimp only
    rw [enqueue]
    generalize openJournal (N := N) (journalOctets records) noFaults = opened at hfile hopened
    obtain ⟨file, cause | scan⟩ := opened
    · obtain rfl : file = _ := hfile
      exact .rejected _
    · obtain rfl : file = _ := hfile
      obtain rfl := hopened scan rfl
      dsimp only
      cases hplan : planAppend (scanOf records) batch batched with
      | error cause => exact .rejected _
      | ok plan =>
        dsimp only
        cases hrecord : plan.record with
        | none =>
          obtain ⟨outcome, hclose, houtcome⟩ := closeJournal_noFaults plan false
          dsimp only
          rw [hclose]
          exact .kept hparse hplan hrecord houtcome
        | some planned =>
          obtain ⟨record, hevents, hline, hid, hfresh, hbatch⟩ :=
            (planAppend_spec (parse_length hparse) hplan).written planned hrecord
          obtain ⟨outcome, hclose, houtcome⟩ := closeJournal_noFaults plan true
          dsimp only
          rw [writeRecord]
          split_ifs with hroom
          · exact .rejected _
          · simp only [noFaults, appendToFile, syncHandle, Bool.false_eq_true, if_false]
            simp only [noFaults] at hclose
            rw [hclose, octets_of_line hline, ← journalOctets_concat]
            exact .appended hparse hplan (by simp [hrecord]) houtcome hevents (hid.trans hbatch)
              (hid ▸ hfresh)

/-! ## The invariant of a run -/

/-- The call commits no part of a batch under an identity of its own: there is nothing to
    commit, or the record is the whole batch or the cell without its progress. -/
def KeepsIdentity (file : List Byte) (call : JournalCall N) : Prop :=
  call.isBatch = true → ∀ scan : JournalScan N, scanJournal file = .ok scan →
    scan.events.any isTerminal = true ∨
    (batchOf call.events).batchId ∈ scan.batchIds ∨
    validBatchSemantics (remaining scan.events call.events) = false ∨
    remaining scan.events call.events = call.events ∨
    remaining scan.events call.events = cellPart call.events ∨
    (batchOf (cellPart call.events)).batchId ∈ scan.batchIds

/-- SHA-256 tells the batches among these calls apart, and what is left of them. -/
def CollisionFree (calls : List (JournalCall N)) : Prop :=
  ∀ call ∈ calls, ∀ call' ∈ calls, call.isBatch = true → call'.isBatch = true →
    ∀ es es' : List (RlmEvent N), es.Sublist call.events → es'.Sublist call'.events →
      validBatchSemantics es = true → validBatchSemantics es' = true →
      sha256 (eventsText es) = sha256 (eventsText es') → eventsText es = eventsText es'

structure RunInvariant (st : RunState N) (records : List (JournalRecord N)) : Prop where
  file : st.file = journalOctets records
  events : committedEvents records = (st.history.flatMap committedBy).map RlmEvent.canonical
  compatible : (committedEvents records).Pairwise Compatible
  ids : ∀ id ∈ committedBatchIds records, ∃ entry ∈ st.history, entry.1.isBatch = true ∧
    validBatchSemantics (committedBy entry) = true ∧ id = (batchOf (committedBy entry)).batchId

/-- The batches that committed something are replayable. -/
def HistoryReplayable (st : RunState N) (records : List (JournalRecord N)) : Prop :=
  ∀ entry ∈ st.history, entry.1.isBatch = true → committedBy entry ≠ [] →
    validBatchSemantics entry.1.events = true ∧
      Replayable (committedEvents records) (committedBatchIds records) entry.1.events

/-- An entry that commits nothing changes nothing. -/
theorem RunInvariant.keep {st : RunState N} {records : List (JournalRecord N)}
    (hinv : RunInvariant st records)
    {entry : JournalCall N × Except JournalAppendError JournalBatchAppendOutcome}
    (hentry : committedBy entry = []) :
    RunInvariant { file := st.file, history := st.history ++ [entry] } records where
  file := hinv.file
  events := by
    rw [hinv.events, List.flatMap_append, List.flatMap_singleton, hentry, List.append_nil]
  compatible := hinv.compatible
  ids id hid := by
    obtain ⟨e, he, hrest⟩ := hinv.ids id hid
    exact ⟨e, List.mem_append_left _ he, hrest⟩

theorem HistoryReplayable.keep {st : RunState N} {records : List (JournalRecord N)}
    (h : HistoryReplayable st records)
    {entry : JournalCall N × Except JournalAppendError JournalBatchAppendOutcome}
    (hentry : committedBy entry = []) :
    HistoryReplayable { file := st.file, history := st.history ++ [entry] } records := by
  intro e he hbatch hne
  rcases List.mem_append.mp he with hmem | hmem
  · exact h e hmem hbatch hne
  · obtain rfl := List.mem_singleton.mp hmem
    exact absurd hentry hne

theorem compatible_canonical {event later : RlmEvent N} :
    Compatible event.canonical later.canonical ↔ Compatible event later := by
  rw [Compatible, Compatible, isTerminal_canonical, isProgress_canonical, isProgress_canonical,
    sameProgressIdentity_canonical]

theorem alreadyPresent_append (events events' : List (RlmEvent N)) (event : RlmEvent N) :
    alreadyPresent (events ++ events') event =
      (alreadyPresent events event || alreadyPresent events' event) := by
  rw [alreadyPresent, List.filter_append, List.any_append, Bool.and_or_distrib_left]
  rfl

theorem alreadyPresent_canonical_self {events : List (RlmEvent N)} {event : RlmEvent N}
    (hprogress : isProgress event = true) (hmem : event ∈ events) :
    alreadyPresent (events.map RlmEvent.canonical) event = true := by
  rw [alreadyPresent, hprogress, Bool.true_and, List.any_eq_true]
  refine ⟨event.canonical, List.mem_filter.mpr ⟨List.mem_map_of_mem hmem, ?_⟩, ?_⟩
  · rw [isProgress_canonical]
    exact hprogress
  · rw [sameProgressIdentity_canonical_left]
    exact sameProgressIdentity_self hprogress

/-- Only the cell is left of a batch whose progress is all there. -/
theorem remaining_eq_cellPart_iff {events batch : List (RlmEvent N)} :
    remaining events batch = cellPart batch ↔
      ∀ event ∈ batch, isProgress event = true → alreadyPresent events event = true := by
  constructor
  · intro heq event hmem hprogress
    by_contra hnew
    have hremaining : event ∈ remaining events batch :=
      List.mem_filter.mpr ⟨hmem, by simpa using hnew⟩
    rw [heq, cellPart, List.mem_filter, hprogress] at hremaining
    exact absurd hremaining.2 Bool.false_ne_true
  · intro hpresent
    rw [remaining, cellPart]
    apply List.filter_congr
    intro event hmem
    by_cases hprogress : isProgress event = true
    · rw [hpresent event hmem hprogress, hprogress]
    · rw [alreadyPresent, Bool.eq_false_iff.mpr hprogress, Bool.false_and]

theorem Replayable.mono {events events' batch : List (RlmEvent N)} {ids ids' : List JsString}
    (h : Replayable events ids batch) (hids : ∀ id ∈ ids, id ∈ ids') :
    Replayable (events ++ events') ids' batch := by
  rcases h with hseen | ⟨hremaining, hseen⟩
  · exact .inl (hids _ hseen)
  · refine .inr ⟨remaining_eq_cellPart_iff.mpr fun event hmem hprogress => ?_, hids _ hseen⟩
    rw [alreadyPresent_append, remaining_eq_cellPart_iff.mp hremaining event hmem hprogress,
      Bool.true_or]

/-- A record of a new identity adds all of its events. -/
theorem committedEvents_fresh {records : List (JournalRecord N)} {record : JournalRecord N}
    (hfresh : ∀ id ∈ record.batchId, id ∉ committedBatchIds records) :
    committedEvents (records ++ [record]) =
      committedEvents records ++ record.events.map RlmEvent.canonical := by
  have hnew : ¬repeated records record = true := by
    intro hrepeated
    cases hid : record.batchId with
    | none => rw [repeated, hid] at hrepeated; exact absurd hrepeated Bool.false_ne_true
    | some id =>
      rw [repeated_eq records record hid] at hrepeated
      exact hfresh id hid (of_decide_eq_true hrepeated)
  rw [committedEvents_concat, contribution, if_neg hnew]

theorem mem_committedBatchIds_concat {records : List (JournalRecord N)}
    {record : JournalRecord N} {id : JsString} :
    id ∈ committedBatchIds (records ++ [record]) ↔
      id ∈ committedBatchIds records ∨ id ∈ record.batchId := by
  rw [mem_committedBatchIds, mem_committedBatchIds]
  simp [or_and_right, exists_or]

/-- New events are compatible with the journal they are appended to. -/
theorem pairwise_append_remaining {events batch : List (RlmEvent N)}
    (hevents : events.Pairwise Compatible) (hbatch : batch.Pairwise Compatible)
    (hterminal : events.any isTerminal = false) :
    (events ++ (remaining events batch).map RlmEvent.canonical).Pairwise Compatible := by
  rw [List.pairwise_append]
  refine ⟨hevents, ?_, fun event hevent later hlater => ?_⟩
  · rw [List.pairwise_map]
    exact (hbatch.sublist List.filter_sublist).imp compatible_canonical.mpr
  · obtain ⟨original, horiginal, rfl⟩ := List.mem_map.mp hlater
    have hnotTerminal : isTerminal event = false := by
      rw [List.any_eq_false] at hterminal
      exact Bool.eq_false_iff.mpr (hterminal event hevent)
    refine ⟨hnotTerminal, fun hprogress hlaterProgress => ?_⟩
    rw [isProgress_canonical] at hlaterProgress
    have hnew := (List.mem_filter.mp horiginal).2
    rw [alreadyPresent, hlaterProgress, Bool.true_and, Bool.not_eq_true', List.any_eq_false] at hnew
    have hdiffer := hnew event (List.mem_filter.mpr ⟨hevent, hprogress⟩)
    rw [sameProgressIdentity_comm, sameProgressIdentity_canonical_left, sameProgressIdentity_comm]
    exact Bool.eq_false_iff.mpr hdiffer

theorem runInvariant_init : RunInvariant (N := N) { file := [], history := [] } [] where
  file := rfl
  events := rfl
  compatible := List.Pairwise.nil
  ids := nofun

/-- What a call commits is replayable after it. -/
theorem replayable_of_keepsIdentity {records : List (JournalRecord N)}
    {record : JournalRecord N} {call : JournalCall N} {plan : AppendPlan N}
    (hkeeps : KeepsIdentity (journalOctets records) call) (hbatch : call.isBatch = true)
    (hcall : WellFormedCall call.events true)
    (hplan : planAppend (scanOf records) call.events true = .ok plan)
    (hrecord : plan.record ≠ none) (hevents : record.events = plan.accepted)
    (hid : record.batchId = some (batchOf plan.accepted).batchId)
    (hfresh : ∀ id ∈ record.batchId, id ∉ committedBatchIds records) :
    Replayable (committedEvents (records ++ [record])) (committedBatchIds (records ++ [record]))
      call.events := by
  obtain ⟨hterminal, haccepted, hnew⟩ := planAppend_some hcall hplan hrecord
  obtain ⟨hunseen, hvalid, -⟩ := hnew rfl
  have hmem : (batchOf plan.accepted).batchId ∈ committedBatchIds (records ++ [record]) :=
    mem_committedBatchIds_concat.mpr (.inr hid)
  -- afterwards all of the progress is there, old or new
  have hpresent : remaining (committedEvents (records ++ [record])) call.events =
      cellPart call.events := by
    refine remaining_eq_cellPart_iff.mpr fun event hevent hprogress => ?_
    rw [committedEvents_fresh hfresh, alreadyPresent_append, hevents, haccepted]
    by_cases hold : alreadyPresent (committedEvents records) event = true
    · rw [hold, Bool.true_or]
    · have hremaining : event ∈ remaining (scanOf records).events call.events := by
        refine List.mem_filter.mpr ⟨hevent, ?_⟩
        show (!alreadyPresent (committedEvents records) event) = true
        simpa using hold
      rw [alreadyPresent_canonical_self hprogress hremaining, Bool.or_true]
  rcases hkeeps hbatch (scanOf records) (scanJournal_records records) with
    h | h | h | h | h | h
  · exact absurd (hterminal.symm.trans h) Bool.false_ne_true
  · exact absurd h hunseen
  · exact absurd (h.symm.trans hvalid) Bool.false_ne_true
  · left
    rwa [haccepted, h] at hmem
  · refine .inr ⟨hpresent, ?_⟩
    rwa [haccepted, h] at hmem
  · exact .inr ⟨hpresent, mem_committedBatchIds_concat.mpr (.inl h)⟩

theorem RunInvariant.step {st : RunState N} {records : List (JournalRecord N)}
    (hinv : RunInvariant st records) (call : JournalCall N) :
    ∃ records', RunInvariant (st.step call) records' ∧
      (HistoryReplayable st records → KeepsIdentity st.file call →
        HistoryReplayable (st.step call) records') := by
  obtain ⟨file, history⟩ := st
  obtain rfl : file = journalOctets records := hinv.file
  rw [RunState.step]
  have hstep := runCall_step records call
  dsimp only
  generalize runCall (journalOctets records) call noFaults = result at hstep
  cases hstep with
  | rejected e => exact ⟨records, hinv.keep rfl, fun h _ => h.keep rfl⟩
  | @kept batch batched plan outcome hparse hplan hrecord houtcome =>
    have hnothing : committedBy (call, .ok outcome) = [] := by
      rw [committedBy]
      dsimp only
      rw [houtcome]
      exact committedOf_eq_nil ((planAppend_spec (parse_length hparse) hplan).unchanged hrecord)
    exact ⟨records, hinv.keep hnothing, fun h _ => h.keep hnothing⟩
  | @appended batch batched plan record outcome hparse hplan hrecord houtcome hevents hid hfresh =>
    obtain ⟨hcall, rfl, rfl⟩ := wellFormedCall_of_parse hparse
    have hspec := planAppend_spec (parse_length hparse) hplan
    have hcommitted : committedBy (call, .ok outcome) = record.events := by
      rw [committedBy, hevents, hspec.accepted]
      dsimp only
      rw [houtcome]
    obtain ⟨hterminal, haccepted, hnew⟩ := planAppend_some hcall hplan hrecord
    refine ⟨records ++ [record], ⟨rfl, ?_, ?_, ?_⟩, ?_⟩
    · rw [committedEvents_fresh hfresh, hinv.events, List.flatMap_append, List.flatMap_singleton,
        hcommitted, List.map_append]
    · rw [committedEvents_fresh hfresh, hevents, haccepted]
      exact pairwise_append_remaining hinv.compatible hcall.pairwise hterminal
    · intro id hmem
      rcases mem_committedBatchIds_concat.mp hmem with hold | hnewId
      · obtain ⟨entry, hentry, hrest⟩ := hinv.ids id hold
        exact ⟨entry, List.mem_append_left _ hentry, hrest⟩
      · refine ⟨_, List.mem_append_right _ (List.mem_singleton_self _), ?_⟩
        rw [hcommitted, hevents]
        by_cases hbatched : call.isBatch = true
        · rw [hid, if_pos hbatched] at hnewId
          refine ⟨hbatched, ?_, (Option.some.inj hnewId).symm⟩
          rw [haccepted]
          exact (hnew hbatched).2.1
        · rw [hid, if_neg hbatched] at hnewId
          cases hnewId
    · intro hhistory hkeeps entry hentry hbatch hne
      rcases List.mem_append.mp hentry with hold | hlast
      · obtain ⟨hvalid, hreplayable⟩ := hhistory entry hold hbatch hne
        refine ⟨hvalid, ?_⟩
        rw [committedEvents_fresh hfresh]
        exact hreplayable.mono fun id hmem => mem_committedBatchIds_concat.mpr (.inl hmem)
      · obtain rfl := List.mem_singleton.mp hlast
        dsimp only at hbatch ⊢
        rw [hbatch] at hcall hplan hid
        exact ⟨hcall.valid rfl,
          replayable_of_keepsIdentity hkeeps hbatch hcall hplan hrecord hevents hid hfresh⟩

/-- Every step of the run keeps the identity of the batch it commits. -/
def EachKeepsIdentity (calls : List (JournalCall N)) : Prop :=
  ∀ before call after, calls = before ++ call :: after →
    KeepsIdentity (runCalls before).file call

theorem EachKeepsIdentity.before {calls : List (JournalCall N)} {call : JournalCall N}
    (h : EachKeepsIdentity (calls ++ [call])) : EachKeepsIdentity calls :=
  fun before call' after hsplit => h before call' (after ++ [call])
    (by rw [hsplit, List.append_assoc, List.cons_append])

theorem runInvariant_runCalls (calls : List (JournalCall N)) :
    ∃ records, RunInvariant (runCalls calls) records ∧
      (EachKeepsIdentity calls → HistoryReplayable (runCalls calls) records) := by
  induction calls using List.reverseRecOn with
  | nil => exact ⟨[], runInvariant_init, fun _ => by simp [HistoryReplayable, runCalls]⟩
  | append_singleton calls call ih =>
    obtain ⟨records, hinv, hhistory⟩ := ih
    obtain ⟨records', hinv', hhistory'⟩ := hinv.step call
    rw [runCalls_concat]
    exact ⟨records', hinv', fun h => hhistory' (hhistory h.before) (h calls call [] rfl)⟩

/-! ## Uniqueness -/

/-- The journal of a run has at most one terminal event, nothing after it, one progress
    event for each identity, and exactly the events reported as committed; what was
    declared a duplicate was there. -/
structure UniqueEvents (calls : List (JournalCall N)) : Prop where
  journal : ∃ scan : JournalScan N, scanJournal (runCalls calls).file = .ok scan ∧
    (scan.events.filter isTerminal).length ≤ 1 ∧
    scan.events.Pairwise (fun event _ => isTerminal event = false) ∧
    (scan.events.filter isProgress).Pairwise
      (fun event later => sameProgressIdentity event later = false) ∧
    scan.events = ((runCalls calls).history.flatMap committedBy).map RlmEvent.canonical
  deduplicated : ∀ before call after outcome, calls = before ++ call :: after →
    (runCall (runCalls before).file call noFaults).2 = .ok outcome →
    ∀ event, (event, .deduplicated) ∈ call.events.zip outcome.events →
      ∃ scan : JournalScan N, scanJournal (runCalls before).file = .ok scan ∧
        ∃ e ∈ scan.events, e.canonical = event.canonical ∨
          (isProgress e = true ∧ isProgress event = true ∧ sameProgressIdentity e event = true)

/-- Besides, a committed batch can be replayed without an effect. -/
structure UniqueJournal (calls : List (JournalCall N)) : Prop extends UniqueEvents calls where
  replay : ∀ entry ∈ (runCalls calls).history, entry.1.isBatch = true → committedBy entry ≠ [] →
    (runCall (runCalls calls).file entry.1 noFaults).1 = (runCalls calls).file

theorem length_filter_isTerminal_le {events : List (RlmEvent N)}
    (h : events.Pairwise fun event _ => isTerminal event = false) :
    (events.filter isTerminal).length ≤ 1 := by
  have hfiltered := h.sublist (List.filter_sublist (p := isTerminal))
  match hevents : events.filter isTerminal with
  | [] => exact Nat.zero_le 1
  | [_] => exact le_rfl
  | first :: second :: rest =>
    rw [hevents, List.pairwise_cons] at hfiltered
    have hfirst : isTerminal first = true :=
      (List.mem_filter.mp (hevents ▸ List.mem_cons_self)).2
    rw [hfiltered.1 second List.mem_cons_self] at hfirst
    exact absurd hfirst Bool.false_ne_true

theorem eventsText_injective {es es' : List (RlmEvent N)} (h : eventsText es = eventsText es') :
    es.map RlmEvent.canonical = es'.map RlmEvent.canonical := by
  have harr := render_injective h
  rw [canonical_arr_events, canonical_arr_events, Json.arr.injEq] at harr
  exact List.map_injective_iff.mpr (fun _ _ => RlmEvent.toJson_injective) harr

theorem batchId_injective {es es' : List (RlmEvent N)}
    (h : (batchOf es).batchId = (batchOf es').batchId) :
    sha256 (eventsText es) = sha256 (eventsText es') :=
  List.append_cancel_left h

/-- The calls of the history are the calls of the run. -/
theorem mem_history {calls : List (JournalCall N)}
    {entry : JournalCall N × Except JournalAppendError JournalBatchAppendOutcome}
    (h : entry ∈ (runCalls calls).history) : entry.1 ∈ calls := by
  induction calls using List.reverseRecOn with
  | nil => cases h
  | append_singleton calls call ih =>
    rw [runCalls_concat] at h
    rcases List.mem_append.mp h with hold | hlast
    · exact List.mem_append_left _ (ih hold)
    · obtain rfl := List.mem_singleton.mp hlast
      exact List.mem_append_right _ (List.mem_singleton_self _)

theorem committedBy_sublist
    (entry : JournalCall N × Except JournalAppendError JournalBatchAppendOutcome) :
    (committedBy entry).Sublist entry.1.events := by
  rw [committedBy]
  split
  · exact List.nil_sublist _
  · exact committedOf_sublist _ _

theorem RunInvariant.deduplicated {calls : List (JournalCall N)}
    {records : List (JournalRecord N)} (hinv : RunInvariant (runCalls calls) records)
    {call : JournalCall N} (hfree : CollisionFree (calls ++ [call]))
    {outcome : JournalBatchAppendOutcome}
    (houtcome : (runCall (runCalls calls).file call noFaults).2 = .ok outcome)
    {event : RlmEvent N} (hevent : (event, .deduplicated) ∈ call.events.zip outcome.events) :
    ∃ e ∈ committedEvents records, e.canonical = event.canonical ∨
      (isProgress e = true ∧ isProgress event = true ∧ sameProgressIdentity e event = true) := by
  have hplanned : ∃ plan, planAppend (scanOf records) call.events call.isBatch = .ok plan ∧
      outcome.events = plan.dispositions ∧ WellFormedCall call.events call.isBatch := by
    have hstep := runCall_step records call
    rw [hinv.file] at houtcome
    generalize runCall (journalOctets records) call noFaults = result at hstep houtcome
    cases hstep with
    | rejected e => cases houtcome
    | kept hparse hplan _ hdispositions | appended hparse hplan _ hdispositions =>
      obtain ⟨hcall, rfl, rfl⟩ := wellFormedCall_of_parse hparse
      obtain rfl := Except.ok.inj houtcome
      exact ⟨_, hplan, hdispositions, hcall⟩
  obtain ⟨plan, hplan, hdispositions, hcall⟩ := hplanned
  rw [hdispositions] at hevent
  rcases planAppend_deduplicated hcall hplan hevent with
    hpresent | ⟨es, hbatch, hsublist, hmem, hvalid, hseen⟩
  · rw [alreadyPresent, Bool.and_eq_true, List.any_eq_true] at hpresent
    obtain ⟨hprogress, e, he, hsame⟩ := hpresent
    obtain ⟨he, heprogress⟩ := List.mem_filter.mp he
    exact ⟨e, he, .inr ⟨heprogress, hprogress, hsame⟩⟩
  · obtain ⟨entry, hentry, hentryBatch, hentryValid, hid⟩ := hinv.ids _ hseen
    have htext := hfree call (List.mem_append_right _ (List.mem_singleton_self _)) entry.1
      (List.mem_append_left _ (mem_history hentry)) hbatch hentryBatch es (committedBy entry)
      hsublist (committedBy_sublist entry) hvalid hentryValid (batchId_injective hid)
    have hcanonical : event.canonical ∈ (committedBy entry).map RlmEvent.canonical := by
      rw [← eventsText_injective htext]
      exact List.mem_map_of_mem hmem
    refine ⟨event.canonical, ?_, .inl event.canonical_canonical⟩
    rw [hinv.events, List.map_flatMap]
    exact List.mem_flatMap.mpr ⟨entry, hentry, hcanonical⟩

theorem RunInvariant.replay {st : RunState N} {records : List (JournalRecord N)}
    (hinv : RunInvariant st records) (hhistory : HistoryReplayable st records)
    {entry : JournalCall N × Except JournalAppendError JournalBatchAppendOutcome}
    (hentry : entry ∈ st.history) (hbatch : entry.1.isBatch = true)
    (hne : committedBy entry ≠ []) : (runCall st.file entry.1 noFaults).1 = st.file := by
  obtain ⟨hvalid, hreplayable⟩ := hhistory entry hentry hbatch hne
  rw [hinv.file]
  have hstep := runCall_step records entry.1
  generalize runCall (journalOctets records) entry.1 noFaults = result at hstep
  cases hstep with
  | rejected e => rfl
  | kept hparse hplan _ _ => rfl
  | appended hparse hplan hrecord =>
    obtain ⟨-, rfl, rfl⟩ := wellFormedCall_of_parse hparse
    rw [hbatch] at hplan
    exact absurd (planAppend_replayable hvalid hreplayable hplan) hrecord

theorem uniqueEvents {calls : List (JournalCall N)} (hfree : CollisionFree calls) :
    UniqueEvents calls where
  journal := by
    obtain ⟨records, hinv, -⟩ := runInvariant_runCalls calls
    have hterminal : (committedEvents records).Pairwise fun event _ => isTerminal event = false :=
      hinv.compatible.imp And.left
    refine ⟨scanOf records, ?_, length_filter_isTerminal_le hterminal, hterminal, ?_, hinv.events⟩
    · rw [hinv.file]
      exact scanJournal_records records
    · refine (hinv.compatible.sublist List.filter_sublist).imp_of_mem ?_
      intro event later hevent hlater hcompatible
      exact hcompatible.2 (List.mem_filter.mp hevent).2 (List.mem_filter.mp hlater).2
  deduplicated before call after outcome hsplit houtcome event hevent := by
    obtain ⟨records, hinv, -⟩ := runInvariant_runCalls before
    have hcalls : calls = (before ++ [call]) ++ after := by rw [hsplit, List.append_assoc]; rfl
    have hfree' : CollisionFree (before ++ [call]) := fun c hc c' hc' =>
      hfree c (hcalls ▸ List.mem_append_left _ hc) c' (hcalls ▸ List.mem_append_left _ hc')
    refine ⟨scanOf records, ?_, hinv.deduplicated hfree' houtcome hevent⟩
    rw [hinv.file]
    exact scanJournal_records records

/-- Every run has unique events, and a run in which each step keeps the identity of its batch
    a unique journal. -/
theorem uniqueJournal_of_keepsIdentity {calls : List (JournalCall N)}
    (hfree : CollisionFree calls) :
    UniqueEvents calls ∧ (EachKeepsIdentity calls → UniqueJournal calls) := by
  refine ⟨uniqueEvents hfree, fun hkeeps => ⟨uniqueEvents hfree, fun entry hentry hbatch hne => ?_⟩⟩
  obtain ⟨records, hinv, hhistory⟩ := runInvariant_runCalls calls
  exact hinv.replay (hhistory hkeeps) hentry hbatch hne

/-! ### A batch that is committed twice -/

/-- The plan for a record of what is left of a call. -/
theorem planAppend_record {records : List (JournalRecord N)} {batch : List (RlmEvent N)}
    {record : JournalRecord N} (hcall : WellFormedCall batch record.batchId.isSome)
    (hterminal : (committedEvents records).any isTerminal = false)
    (hremaining : remaining (committedEvents records) batch = record.events)
    (hunseen : record.batchId.isSome = true →
      (batchOf batch).batchId ∉ committedBatchIds records)
    (hfresh : ∀ id ∈ record.batchId, id ∉ committedBatchIds records) :
    ∃ plan planned, planAppend (scanOf records) batch record.batchId.isSome = .ok plan ∧
      plan.record = some planned ∧ record.line = .ok planned.line ∧
      plan.dispositions = batch.map fun event =>
        if alreadyPresent (committedEvents records) event then .deduplicated else .committed := by
  have hevents : (scanOf records).events = committedEvents records := rfl
  have hids : (scanOf records).batchIds = committedBatchIds records := rfl
  have hdispositions : ((acceptEvents batch false ((committedEvents records).filter
      isProgress)).map Prod.snd) = batch.map fun event =>
        if alreadyPresent (committedEvents records) event then .deduplicated else .committed := by
    rw [decided_eq hcall.pairwise, List.map_map]
    rfl
  rw [planAppend, hevents, if_neg (Bool.eq_false_iff.mp hterminal)]
  cases record with
  | event e =>
    have hsingle : (JournalRecord.event e).batchId.isSome = false := rfl
    have hreplay : exactReplay (scanOf records) batch false = .ok none := rfl
    rw [hsingle] at hcall ⊢
    rw [hreplay]
    dsimp only
    rw [planDecided, accepted_eq hcall.pairwise, hremaining, planRecord_event]
    exact ⟨_, _, rfl, rfl, JournalRecord.line_eq _, hdispositions⟩
  | batch es valid =>
    have hid : (JournalRecord.batch es valid).batchId = some (batchOf es).batchId := by
      rw [JournalRecord.batchId, makeBatchRecord_ok]
      rfl
    have hsome : (JournalRecord.batch es valid).batchId.isSome = true := by rw [hid]; rfl
    rw [hsome] at hcall hunseen ⊢
    rw [exactReplay_batch (hcall.valid rfl), hids, if_neg (hunseen rfl)]
    dsimp only
    have hes : (JournalRecord.batch es valid).events = es := rfl
    rw [planDecided, accepted_eq hcall.pairwise, hremaining, hes, planRecord_batch,
      if_neg (validBatchSemantics_ne_nil valid), if_pos valid, hids, if_neg (hfresh _ hid)]
    exact ⟨_, _, rfl, rfl, JournalRecord.line_eq _, hdispositions⟩

/-- A call of which this record is left appends the record. -/
theorem runCall_record {records : List (JournalRecord N)} {call : JournalCall N}
    {batch : List (RlmEvent N)} {record : JournalRecord N}
    (hparse : call.parse = .ok (batch, record.batchId.isSome))
    (hterminal : (committedEvents records).any isTerminal = false)
    (hremaining : remaining (committedEvents records) batch = record.events)
    (hunseen : record.batchId.isSome = true →
      (batchOf batch).batchId ∉ committedBatchIds records)
    (hfresh : ∀ id ∈ record.batchId, id ∉ committedBatchIds records)
    (hsize : (journalOctets (records ++ [record])).length ≤ maxJournalAuthorityBytes) :
    ∃ outcome, runCall (journalOctets records) call noFaults =
        (journalOctets (records ++ [record]), .ok outcome) ∧
      outcome.events = batch.map fun event =>
        if alreadyPresent (committedEvents records) event then .deduplicated else .committed := by
  obtain ⟨hcall, -, -⟩ := wellFormedCall_of_parse hparse
  obtain ⟨plan, planned, hplan, hrecord, hline, hdispositions⟩ :=
    planAppend_record hcall hterminal hremaining hunseen hfresh
  rw [journalOctets_concat, List.length_append] at hsize
  have hopened : openJournal (N := N) (journalOctets records) noFaults =
      (journalOctets records, .ok (scanOf records)) := by
    have hwhole : ¬(scanOf records).verifiedBytes ≠ (journalOctets records).length :=
      not_not_intro rfl
    have hfits : ¬maxJournalAuthorityBytes < (journalOctets records).length := by omega
    rw [openJournal]
    simp only [noFaults, readBounded, Bool.false_eq_true, if_false, if_neg hfits]
    rw [scanJournal_records]
    dsimp only
    rw [if_neg hwhole]
  have hroom : ¬maxJournalAuthorityBytes - (scanOf records).verifiedBytes <
      (utf8 planned.line).length := by
    have hverified : (scanOf records).verifiedBytes = (journalOctets records).length := rfl
    rw [octets_of_line hline, hverified]
    omega
  obtain ⟨outcome, hclose, houtcome⟩ := closeJournal_noFaults plan true
  refine ⟨outcome, ?_, houtcome.trans hdispositions⟩
  rw [runCall, hparse]
  dsimp only
  rw [enqueue, hopened]
  dsimp only
  rw [hplan]
  dsimp only
  rw [hrecord]
  dsimp only
  rw [writeRecord, if_neg hroom]
  simp only [noFaults, appendToFile, syncHandle, Bool.false_eq_true, if_false]
  simp only [noFaults] at hclose
  rw [hclose, octets_of_line hline, ← journalOctets_concat]

/-- The calls with these events as arguments. -/
def appendCall (event : RlmEvent N) : JournalCall N :=
  .append ⟨event.toJson, event.toJson_owned⟩

def appendBatchCall (events : List (RlmEvent N)) : JournalCall N :=
  .appendBatch (events.map fun event => ⟨event.toJson, event.toJson_owned⟩)

theorem parse_appendCall (event : RlmEvent N) :
    (appendCall event).parse = .ok ([event], false) := by
  rw [appendCall, JournalCall.parse, parseRlmEvent_toJson]
  rfl

theorem parse_appendBatchCall {events : List (RlmEvent N)}
    (h : validBatchSemantics events = true) :
    (appendBatchCall events).parse = .ok (events, true) := by
  have hparsed : (events.map fun event : RlmEvent N =>
      (⟨event.toJson, event.toJson_owned⟩ : JsonValue N)).mapM parseRlmEvent = .ok events := by
    rw [List.mapM_map]
    exact (mapM_ok (g := id) fun event _ => parseRlmEvent_toJson event _).trans
      (congrArg Except.ok (List.map_id events))
  rw [appendBatchCall, JournalCall.parse, hparsed]
  exact if_pos h

theorem length_journalOctets_le (records : List (JournalRecord N)) :
    (journalOctets records).length ≤
      (records.map fun record => record.value.render.length * 4 + 1).sum := by
  induction records using List.reverseRecOn with
  | nil => exact le_rfl
  | append_singleton records record ih =>
    have hlength := length_utf8_le record.value.render
    rw [journalOctets_concat, record.octets_eq, List.length_append, List.length_append,
      List.length_singleton, List.map_append, List.sum_append, List.map_singleton,
      List.sum_singleton]
    omega

theorem fits_of_prefix {records all : List (JournalRecord N)} (h : records <+: all)
    (hsum : (all.map fun record => record.value.render.length * 4 + 1).sum ≤
      maxJournalAuthorityBytes) : (journalOctets records).length ≤ maxJournalAuthorityBytes := by
  have hle := length_journalOctets_le records
  obtain ⟨rest, rfl⟩ := h
  rw [List.map_append, List.sum_append] at hsum
  omega

def laterPhaseEvent : RlmEvent Int where
  fields := [(js "frameId", .str (js "root")), (js "iteration", .num 1),
    (js "name", .str (js "plan")), (js "ordinal", .num 1), (js "type", .str (js "phase"))]
  owned := by decide
  bounded := by decide
  valid := by decide

def cellEvent : RlmEvent Int where
  fields := [(js "codeHash", .str (List.replicate 64 0x30)), (js "frameId", .str (js "root")),
    (js "hasResult", .bool false), (js "iteration", .num 1), (js "outputPreview", .str []),
    (js "reasoning", .str []), (js "type", .str (js "cell_committed"))]
  owned := by decide +kernel
  bounded := by decide +kernel
  valid := by decide +kernel

/-- A cell with its two phases. -/
def phasesAndCell : List (RlmEvent Int) := [phaseEvent, laterPhaseEvent, cellEvent]

/-- What the calls of the run below write: the later phase, the rest of the batch, and
    the cell again. -/
def phaseRecord : JournalRecord Int := .event laterPhaseEvent

def reducedRecord : JournalRecord Int := .batch [phaseEvent, cellEvent] (by decide)

def repeatedRecord : JournalRecord Int := .batch [cellEvent] (by decide)

theorem parse_phasesAndCell :
    (appendBatchCall phasesAndCell).parse = .ok (phasesAndCell, true) :=
  parse_appendBatchCall (by decide)

theorem length_repeated_le {records : List (JournalRecord Int)}
    (h : records <+: [phaseRecord, reducedRecord, repeatedRecord]) :
    (journalOctets records).length ≤ maxJournalAuthorityBytes :=
  fits_of_prefix h (by decide +kernel)

theorem append_laterPhase : ∃ outcome,
    runCall [] (appendCall laterPhaseEvent) noFaults =
      (journalOctets [phaseRecord], .ok outcome) := by
  obtain ⟨outcome, hcall, -⟩ := @runCall_record Int _ [] (appendCall laterPhaseEvent)
    [laterPhaseEvent] phaseRecord (parse_appendCall laterPhaseEvent) rfl rfl nofun nofun
    (length_repeated_le ⟨[reducedRecord, repeatedRecord], rfl⟩)
  exact ⟨outcome, hcall⟩

theorem append_reduced : ∃ outcome,
    runCall (journalOctets [phaseRecord]) (appendBatchCall phasesAndCell) noFaults =
      (journalOctets [phaseRecord, reducedRecord], .ok outcome) ∧
    outcome.events = [.committed, .deduplicated, .committed] := by
  have hfirst : alreadyPresent (committedEvents [phaseRecord]) phaseEvent = false := by decide
  have hlater : alreadyPresent (committedEvents [phaseRecord]) laterPhaseEvent = true := by
    decide
  have hcell : alreadyPresent (committedEvents [phaseRecord]) cellEvent = false := by decide
  have hremaining : remaining (committedEvents [phaseRecord]) phasesAndCell =
      reducedRecord.events := by
    simp [remaining, phasesAndCell, hfirst, hlater, hcell, reducedRecord, JournalRecord.events]
  obtain ⟨outcome, hcall, houtcome⟩ := @runCall_record Int _ [phaseRecord]
    (appendBatchCall phasesAndCell) phasesAndCell reducedRecord parse_phasesAndCell
    (by decide) hremaining (fun _ => List.not_mem_nil)
    (fun id _ => List.not_mem_nil (a := id)) (length_repeated_le ⟨[repeatedRecord], rfl⟩)
  refine ⟨outcome, hcall, houtcome.trans ?_⟩
  simp [phasesAndCell, hfirst, hlater, hcell]

theorem append_repeated : ∃ outcome,
    runCall (journalOctets [phaseRecord, reducedRecord]) (appendBatchCall phasesAndCell)
      noFaults = (journalOctets [phaseRecord, reducedRecord, repeatedRecord], .ok outcome) := by
  have hfirst : alreadyPresent (committedEvents [phaseRecord, reducedRecord]) phaseEvent =
      true := by decide
  have hlater : alreadyPresent (committedEvents [phaseRecord, reducedRecord]) laterPhaseEvent =
      true := by decide
  have hcell : alreadyPresent (committedEvents [phaseRecord, reducedRecord]) cellEvent =
      false := by decide
  have hremaining : remaining (committedEvents [phaseRecord, reducedRecord]) phasesAndCell =
      repeatedRecord.events := by
    simp [remaining, phasesAndCell, hfirst, hlater, hcell, repeatedRecord, JournalRecord.events]
  have hfresh : ∀ id ∈ repeatedRecord.batchId,
      id ∉ committedBatchIds [phaseRecord, reducedRecord] := by
    rintro id hid
    obtain rfl : (batchOf [cellEvent]).batchId = id := Option.some.inj hid
    decide +kernel
  obtain ⟨outcome, hcall, -⟩ := @runCall_record Int _ [phaseRecord, reducedRecord]
    (appendBatchCall phasesAndCell) phasesAndCell repeatedRecord parse_phasesAndCell
    (by decide) hremaining (fun _ => by decide +kernel) hfresh
    (length_repeated_le (List.prefix_refl _))
  exact ⟨outcome, hcall⟩

/-- The later phase is appended alone and then in the batch of its cell, which commits the
    rest of the batch; the same batch once more commits the cell again. -/
theorem batch_committed_twice : ¬∀ calls : List (JournalCall Int), UniqueJournal calls := by
  intro hunique
  obtain ⟨outcome₁, hfirst⟩ := append_laterPhase
  obtain ⟨outcome₂, hreduced, hcommitted⟩ := append_reduced
  obtain ⟨outcome₃, hrepeated⟩ := append_repeated
  have hevents : (appendBatchCall phasesAndCell).events = phasesAndCell := by
    rw [JournalCall.events, parse_phasesAndCell]
  have hrun : runCalls [appendCall laterPhaseEvent, appendBatchCall phasesAndCell] =
      { file := journalOctets [phaseRecord, reducedRecord]
        history := [(appendCall laterPhaseEvent, .ok outcome₁),
          (appendBatchCall phasesAndCell, .ok outcome₂)] } := by
    simp only [runCalls, List.foldl_cons, List.foldl_nil, RunState.step, hfirst, hreduced]
    rfl
  have hreplay := (hunique [appendCall laterPhaseEvent, appendBatchCall phasesAndCell]).replay
    (appendBatchCall phasesAndCell, .ok outcome₂)
  rw [hrun] at hreplay
  have hsame := hreplay (List.mem_cons_of_mem _ (List.mem_singleton_self _)) rfl (by
    rw [committedBy]
    dsimp only
    rw [hcommitted, hevents]
    exact List.cons_ne_nil _ _)
  rw [hrepeated] at hsame
  dsimp only at hsame
  -- the file grew by a record
  have hgrown : journalOctets [phaseRecord, reducedRecord, repeatedRecord] =
      journalOctets [phaseRecord, reducedRecord] ++ repeatedRecord.octets :=
    journalOctets_concat [phaseRecord, reducedRecord] repeatedRecord
  have hlength := congrArg List.length (hgrown.symm.trans hsame)
  rw [List.length_append, repeatedRecord.octets_eq, List.length_append,
    List.length_singleton] at hlength
  omega

/-! ### A batch that is committed once -/

/-- The phase of a cell is appended alone, then in the batch of the cell, and the batch is
    appended once more. -/
def phaseAndCell : List (JournalCall Int) :=
  [appendCall phaseEvent, appendBatchCall [phaseEvent, cellEvent],
    appendBatchCall [phaseEvent, cellEvent]]

def firstPhaseRecord : JournalRecord Int := .event phaseEvent

theorem parse_phaseAndCell :
    (appendBatchCall [phaseEvent, cellEvent]).parse = .ok ([phaseEvent, cellEvent], true) :=
  parse_appendBatchCall (by decide)

theorem length_phaseAndCell_le {records : List (JournalRecord Int)}
    (h : records <+: [firstPhaseRecord, repeatedRecord]) :
    (journalOctets records).length ≤ maxJournalAuthorityBytes :=
  fits_of_prefix h (by decide +kernel)

theorem alreadyPresent_phaseEvent :
    alreadyPresent (committedEvents [firstPhaseRecord]) phaseEvent = true ∧
      alreadyPresent (committedEvents [firstPhaseRecord]) cellEvent = false := by
  decide

theorem cellPart_phaseAndCell : cellPart [phaseEvent, cellEvent] = [cellEvent] := by
  have hphase : isProgress phaseEvent = true := by decide
  have hcell : isProgress cellEvent = false := by decide
  simp [cellPart, hphase, hcell]

theorem remaining_phaseAndCell :
    remaining (committedEvents [firstPhaseRecord]) [phaseEvent, cellEvent] = [cellEvent] := by
  simp [remaining, alreadyPresent_phaseEvent]

/-- The first two calls write the phase, and the cell without it. -/
theorem runCalls_phaseAndCell : ∃ outcome₁ outcome₂,
    runCalls (phaseAndCell.take 1) =
      { file := journalOctets [firstPhaseRecord]
        history := [(appendCall phaseEvent, .ok outcome₁)] } ∧
    runCalls (phaseAndCell.take 2) =
      { file := journalOctets [firstPhaseRecord, repeatedRecord]
        history := [(appendCall phaseEvent, .ok outcome₁),
          (appendBatchCall [phaseEvent, cellEvent], .ok outcome₂)] } ∧
    outcome₂.events = [.deduplicated, .committed] := by
  obtain ⟨outcome₁, hfirst, -⟩ := @runCall_record Int _ [] (appendCall phaseEvent) [phaseEvent]
    firstPhaseRecord (parse_appendCall phaseEvent) rfl rfl nofun nofun
    (length_phaseAndCell_le ⟨[repeatedRecord], rfl⟩)
  obtain ⟨outcome₂, hsecond, hdispositions⟩ := @runCall_record Int _ [firstPhaseRecord]
    (appendBatchCall [phaseEvent, cellEvent]) [phaseEvent, cellEvent] repeatedRecord
    parse_phaseAndCell (by decide) remaining_phaseAndCell
    (fun _ => List.not_mem_nil) (fun id _ => List.not_mem_nil (a := id))
    (length_phaseAndCell_le (List.prefix_refl _))
  have hone : runCalls (phaseAndCell.take 1) = RunState.step ⟨[], []⟩ (appendCall phaseEvent) := rfl
  have htwo : runCalls (phaseAndCell.take 2) = RunState.step
      (runCalls (phaseAndCell.take 1)) (appendBatchCall [phaseEvent, cellEvent]) := rfl
  have hfirst : runCall [] (appendCall phaseEvent) noFaults =
      (journalOctets [firstPhaseRecord], .ok outcome₁) := hfirst
  rw [RunState.step, hfirst] at hone
  rw [hone, RunState.step, hsecond] at htwo
  refine ⟨outcome₁, outcome₂, hone, htwo, hdispositions.trans ?_⟩
  simp [alreadyPresent_phaseEvent]

theorem collisionFree_phaseAndCell : CollisionFree phaseAndCell := by
  have hbatch : ∀ call ∈ phaseAndCell, call.isBatch = true →
      call.events = [phaseEvent, cellEvent] := by
    have hevents : (appendBatchCall [phaseEvent, cellEvent]).events = [phaseEvent, cellEvent] := by
      rw [JournalCall.events, parse_phaseAndCell]
    intro call hcall hbatch
    simp only [phaseAndCell, List.mem_cons, List.not_mem_nil, or_false] at hcall
    rcases hcall with rfl | rfl | rfl
    · exact absurd hbatch Bool.false_ne_true
    · exact hevents
    · exact hevents
  have hdiffer : sha256 (eventsText [cellEvent]) ≠ sha256 (eventsText [phaseEvent, cellEvent]) := by
    decide +kernel
  have hparts : ∀ es : List (RlmEvent Int), es.Sublist [phaseEvent, cellEvent] →
      validBatchSemantics es = true → es = [cellEvent] ∨ es = [phaseEvent, cellEvent] := by
    intro es hsublist hes
    rcases List.sublist_cons_iff.mp hsublist with h | ⟨rest, rfl, h⟩ <;>
      rcases List.sublist_singleton.mp h with rfl | rfl
    · exact absurd hes (by decide)
    · exact .inl rfl
    · exact absurd hes (by decide)
    · exact .inr rfl
  intro call hcall call' hcall' hisBatch hisBatch' es es' hes hes' hvalid hvalid' hsha
  rw [hbatch call hcall hisBatch] at hes
  rw [hbatch call' hcall' hisBatch'] at hes'
  rcases hparts es hes hvalid with rfl | rfl <;> rcases hparts es' hes' hvalid' with rfl | rfl
  · rfl
  · exact absurd hsha hdiffer
  · exact absurd hsha.symm hdiffer
  · rfl

theorem keepsIdentity_phaseAndCell : EachKeepsIdentity phaseAndCell := by
  obtain ⟨outcome₁, outcome₂, hone, htwo, -⟩ := runCalls_phaseAndCell
  have hevents : (appendBatchCall [phaseEvent, cellEvent]).events = [phaseEvent, cellEvent] := by
    rw [JournalCall.events, parse_phaseAndCell]
  intro before call after hsplit hbatch scan hscan
  rcases before with _ | ⟨first, _ | ⟨second, _ | ⟨third, before⟩⟩⟩
  · obtain ⟨rfl, -⟩ := List.cons.inj hsplit
    exact absurd hbatch Bool.false_ne_true
  · -- the phase is there already, and the cell is committed alone
    obtain ⟨rfl, hrest⟩ := List.cons.inj hsplit
    obtain ⟨rfl, -⟩ := List.cons.inj hrest
    have hfile : (runCalls [appendCall phaseEvent]).file = journalOctets [firstPhaseRecord] :=
      congrArg RunState.file hone
    rw [hfile, scanJournal_records] at hscan
    obtain rfl := Except.ok.inj hscan
    right; right; right; right; left
    rw [hevents, cellPart_phaseAndCell]
    exact remaining_phaseAndCell
  · obtain ⟨rfl, hrest⟩ := List.cons.inj hsplit
    obtain ⟨rfl, hrest'⟩ := List.cons.inj hrest
    obtain ⟨rfl, -⟩ := List.cons.inj hrest'
    have hfile : (runCalls [appendCall phaseEvent, appendBatchCall [phaseEvent, cellEvent]]).file =
        journalOctets [firstPhaseRecord, repeatedRecord] := congrArg RunState.file htwo
    rw [hfile, scanJournal_records] at hscan
    obtain rfl := Except.ok.inj hscan
    have hid : repeatedRecord.batchId = some (batchOf [cellEvent]).batchId := rfl
    right; right; right; right; right
    rw [hevents, cellPart_phaseAndCell]
    exact (@mem_committedBatchIds_concat _ _ [firstPhaseRecord] repeatedRecord _).mpr (.inr hid)
  · have hlength := congrArg List.length hsplit
    simp [phaseAndCell] at hlength

/-- The batch that is appended again leaves the file as it is. -/
theorem uniqueJournal_phaseAndCell :
    (runCalls phaseAndCell).file = journalOctets [firstPhaseRecord, repeatedRecord] ∧
      UniqueJournal phaseAndCell := by
  obtain ⟨outcome₁, outcome₂, -, htwo, hdispositions⟩ := runCalls_phaseAndCell
  have hevents : (appendBatchCall [phaseEvent, cellEvent]).events = [phaseEvent, cellEvent] := by
    rw [JournalCall.events, parse_phaseAndCell]
  have hkeeps : EachKeepsIdentity (phaseAndCell.take 2) :=
    @EachKeepsIdentity.before _ _ (phaseAndCell.take 2) _ keepsIdentity_phaseAndCell
  have hfree : CollisionFree (phaseAndCell.take 2) := fun call hcall call' hcall' =>
    collisionFree_phaseAndCell call (List.mem_of_mem_take hcall) call' (List.mem_of_mem_take hcall')
  have hreplay := ((uniqueJournal_of_keepsIdentity hfree).2 hkeeps).replay
    (appendBatchCall [phaseEvent, cellEvent], .ok outcome₂)
  rw [htwo] at hreplay
  refine ⟨?_, (uniqueJournal_of_keepsIdentity collisionFree_phaseAndCell).2
    keepsIdentity_phaseAndCell⟩
  have hthree : runCalls phaseAndCell = RunState.step
      (runCalls (phaseAndCell.take 2)) (appendBatchCall [phaseEvent, cellEvent]) := rfl
  have hcommitted : committedBy (appendBatchCall [phaseEvent, cellEvent], .ok outcome₂) ≠ [] := by
    rw [committedBy]
    dsimp only
    rw [hdispositions, hevents]
    exact List.cons_ne_nil _ _
  have hsame := hreplay (List.mem_cons_of_mem _ (List.mem_singleton_self _)) rfl hcommitted
  rw [hthree, htwo, RunState.step]
  dsimp only at hsame ⊢
  exact hsame

end PiRlm.Shell

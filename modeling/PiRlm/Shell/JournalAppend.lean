/-
  PiRlm.Shell.JournalAppend

  `JournalStore.append` and `appendBatch` of `shell/journal-store.ts`.

  One store queues its calls, so a call is a function of the octets of the file before
  it.  Each file operation takes its outcome from `AppendFaults`: it succeeds, or it
  throws, an append after any number of octets of the line.
-/
import Mathlib
import PiRlm.Shell.JournalScan

namespace PiRlm.Shell

open PiRlm.Lib PiRlm.Lib.Json PiRlm.Core

def maxJournalAuthorityBytes : Nat := 32 * 1024 * 1024

inductive FileOperation where
  | open | read | truncate | sync | appendFile | close | writeStatus
  deriving Repr, DecidableEq

/-- What an operation throws, when it throws: nothing, an error without an effect, or
    an error after the effect. -/
inductive Fault where
  | none | before | after
  deriving Repr, DecidableEq

/-- The file operations of one call that throw. -/
structure AppendFaults where
  openFile : Bool
  readFile : Bool
  repairTruncate : Fault
  repairSync : Bool
  /-- `some k` when `appendFile` throws after `k` octets of the line reached the file. -/
  appendFile : Option Nat
  syncFile : Bool
  reconcileRead : Bool
  reconcileSync : Bool
  reconcileTruncate : Fault
  reconcileTruncateSync : Bool
  closeFile : Bool
  writeStatus : Bool
  deriving Repr, DecidableEq

/-- Nothing throws. -/
def noFaults : AppendFaults where
  openFile := false
  readFile := false
  repairTruncate := .none
  repairSync := false
  appendFile := none
  syncFile := false
  reconcileRead := false
  reconcileSync := false
  reconcileTruncate := .none
  reconcileTruncateSync := false
  closeFile := false
  writeStatus := false

inductive AppendCause where
  | interpreter (error : InterpreterError)
  /-- A `RangeError` of `canonicalStringify`. -/
  | range (message : JsString)
  | file (operation : FileOperation)

inductive JournalAppendPhase where
  | event | statusCache
  deriving Repr, DecidableEq

structure JournalAppendError where
  phase : JournalAppendPhase
  eventDurable : Bool
  cause : AppendCause

inductive JournalAppendDisposition where
  | committed | deduplicated | ignoredAfterTerminal
  deriving Repr, DecidableEq

inductive StatusCache where
  | refreshed
  | skipped
  | failed (error : JournalAppendError)

structure JournalBatchAppendOutcome where
  events : List JournalAppendDisposition
  statusCache : StatusCache

def journalCorrupt (message : JsString) : AppendCause :=
  .interpreter { code := js "JOURNAL_CORRUPT", message }

variable {N : Type} [JsonNumber N]

/-! ## What a call appends -/

/-- A record about to be appended. -/
structure PlannedRecord where
  line : JsString
  batchId : Option JsString

/-- What a call does to a journal that scans. -/
structure AppendPlan (N : Type) [JsonNumber N] where
  dispositions : List JournalAppendDisposition
  refreshStatus : Bool
  accepted : List (RlmEvent N)
  record : Option PlannedRecord

/-- The loop over the events of a call. -/
def acceptEvents :
    List (RlmEvent N) → Bool → List (RlmEvent N) → List (RlmEvent N × JournalAppendDisposition)
  | [], _, _ => []
  | event :: batch, terminalSeen, progressIdentities =>
    if terminalSeen then
      (event, .ignoredAfterTerminal) :: acceptEvents batch terminalSeen progressIdentities
    else if isProgress event && progressIdentities.any (sameProgressIdentity · event) then
      (event, .deduplicated) :: acceptEvents batch terminalSeen progressIdentities
    else
      (event, .committed) :: acceptEvents batch (isTerminal event)
        (if isProgress event then progressIdentities ++ [event] else progressIdentities)

/-- Dispositions of a batch whose candidate record the journal already has. -/
def exactReplay (scan : JournalScan N) (batch : List (RlmEvent N)) (batched : Bool) :
    Except AppendCause (Option (List JournalAppendDisposition)) :=
  if batched then
    let terminalIndex := batch.findIdx? isTerminal
    let candidate := match terminalIndex with
      | none => batch
      | some i => batch.take (i + 1)
    match makeBatchRecord candidate with
    | .error message => .error (.range message)
    | .ok record =>
      if record.batchId ∈ scan.batchIds then
        .ok (some (batch.mapIdx fun index _ =>
          match terminalIndex with
          | some i => if i < index then .ignoredAfterTerminal else .deduplicated
          | none => .deduplicated))
      else .ok none
  else .ok none

/-- The accepted events as a record, or the dispositions when they are a batch that the
    journal already has. -/
def planRecord (scan : JournalScan N) (batched : Bool) (accepted : List (RlmEvent N)) :
    Except AppendCause (Option PlannedRecord) :=
  match accepted with
  | [] => .ok none
  | first :: _ =>
    if batched then
      if validBatchSemantics accepted then
        match makeBatchRecord accepted with
        | .error message => .error (.range message)
        | .ok record =>
          if record.batchId ∈ scan.batchIds then .ok none
          else
            match recordLine record.toJson with
            | .error message => .error (.range message)
            | .ok line => .ok (some { line, batchId := some record.batchId })
      else .error (journalCorrupt (js "invalid deduplicated journal batch"))
    else
      match recordLine first.toJson with
      | .error message => .error (.range message)
      | .ok line => .ok (some { line, batchId := none })

/-- The plan for events that the loop has decided on. -/
def planDecided (scan : JournalScan N) (batch : List (RlmEvent N)) (batched : Bool)
    (decided : List (RlmEvent N × JournalAppendDisposition)) :
    Except AppendCause (AppendPlan N) :=
  let accepted := (decided.filter fun d => d.2 == .committed).map Prod.fst
  match planRecord scan batched accepted with
  | .error cause => .error cause
  | .ok (some record) =>
    .ok { dispositions := decided.map Prod.snd, refreshStatus := true, accepted
          record := some record }
  | .ok none =>
    -- a batch that is already there makes its accepted events duplicates
    .ok { dispositions := decided.map fun d => if d.2 == .committed then .deduplicated else d.2
          refreshStatus := accepted.isEmpty && batch.any isTerminal, accepted := []
          record := none }

def planAppend (scan : JournalScan N) (batch : List (RlmEvent N)) (batched : Bool) :
    Except AppendCause (AppendPlan N) :=
  if scan.events.any isTerminal then
    .ok { dispositions := batch.map fun _ => .ignoredAfterTerminal
          refreshStatus := batch.any isTerminal, accepted := [], record := none }
  else
    match exactReplay scan batch batched with
    | .error cause => .error cause
    | .ok (some dispositions) =>
      .ok { dispositions, refreshStatus := false, accepted := [], record := none }
    | .ok none =>
      planDecided scan batch batched (acceptEvents batch false (scan.events.filter isProgress))

/-! ## File operations -/

/-- `readBoundedJournalHandle`. -/
def readBounded (file : List Byte) (throws : Bool) : Except AppendCause (List Byte) :=
  if throws then .error (.file .read)
  else if maxJournalAuthorityBytes < file.length then
    .error (journalCorrupt (js "journal is not one bounded private regular file"))
  else .ok file

def truncateFile (file : List Byte) (length : Nat) : Fault → List Byte × Except AppendCause Unit
  | .none => (file.take length, .ok ())
  | .before => (file, .error (.file .truncate))
  | .after => (file.take length, .error (.file .truncate))

def syncHandle (throws : Bool) : Except AppendCause Unit :=
  if throws then .error (.file .sync) else .ok ()

/-- The octets of a line appended, all of them or as many as came before the error. -/
def appendToFile (file octets : List Byte) : Option Nat → List Byte × Except AppendCause Unit
  | none => (file ++ octets, .ok ())
  | some k => (file ++ octets.take k, .error (.file .appendFile))

/-- The file read, scanned, and cut to its complete lines. -/
def openJournal (file : List Byte) (faults : AppendFaults) :
    List Byte × Except AppendCause (JournalScan N) :=
  if faults.openFile then (file, .error (.file .open))
  else
    match readBounded file faults.readFile with
    | .error cause => (file, .error cause)
    | .ok raw =>
      match scanJournal raw with
      | .error e => (file, .error (.interpreter e))
      | .ok scanned =>
        if scanned.verifiedBytes ≠ raw.length then
          match truncateFile file scanned.verifiedBytes faults.repairTruncate with
          | (file, .error cause) => (file, .error cause)
          | (file, .ok ()) =>
            match syncHandle faults.repairSync with
            | .error cause => (file, .error cause)
            | .ok () =>
              match scanJournal (raw.take scanned.verifiedBytes) with
              | .error e => (file, .error (.interpreter e))
              | .ok scanned => (file, .ok scanned)
        else (file, .ok scanned)

/-- The octets from `baseBytes` on are the line of the record, and the file scans. -/
def exactRecord (N : Type) [JsonNumber N] (raw : List Byte) (baseBytes : Nat)
    (record : PlannedRecord) : Bool :=
  raw.drop baseBytes == utf8 record.line &&
    match scanJournal (N := N) raw with
    | .error _ => false
    | .ok scanned => scanned.verifiedBytes == raw.length &&
        record.batchId.all (· ∈ scanned.batchIds)

/-- Whether the record is in the file after a rejected append; the file is cut back to
    `baseBytes` when it is not. -/
def reconcileRejectedAppend (N : Type) [JsonNumber N] (file : List Byte) (baseBytes : Nat)
    (record : PlannedRecord) (faults : AppendFaults) : List Byte × Except AppendCause Bool :=
  match readBounded file faults.reconcileRead with
  | .error cause => (file, .error cause)
  | .ok raw =>
    if maxJournalAuthorityBytes < raw.length then
      (file, .error (journalCorrupt (js "journal exceeds its authority byte limit")))
    else if exactRecord N raw baseBytes record then
      match syncHandle faults.reconcileSync with
      | .error cause => (file, .error cause)
      | .ok () => (file, .ok true)
    else
      match truncateFile file baseBytes faults.reconcileTruncate with
      | (file, .error cause) => (file, .error cause)
      | (file, .ok ()) =>
        match syncHandle faults.reconcileTruncateSync with
        | .error cause => (file, .error cause)
        | .ok () => (file, .ok false)

/-- The error thrown for a rejected append, with what the reconciliation found. -/
def rejected (cause : AppendCause) :
    List Byte × Except AppendCause Bool → List Byte × Except JournalAppendError Unit
  | (file, .ok eventDurable) => (file, .error { phase := .event, eventDurable, cause })
  | (file, .error cause) => (file, .error { phase := .event, eventDurable := false, cause })

/-- The append and flush of one record. -/
def writeRecord (N : Type) [JsonNumber N] (file : List Byte) (baseBytes : Nat)
    (record : PlannedRecord) (faults : AppendFaults) :
    List Byte × Except JournalAppendError Unit :=
  if maxJournalAuthorityBytes - baseBytes < (utf8 record.line).length then
    (file, .error { phase := .event, eventDurable := false
                    cause := journalCorrupt
                      (js "journal append exceeds the authority byte limit") })
  else
    match appendToFile file (utf8 record.line) faults.appendFile with
    | (file, .error cause) => rejected cause (reconcileRejectedAppend N file baseBytes record faults)
    | (file, .ok ()) =>
      match syncHandle faults.syncFile with
      | .error cause => rejected cause (reconcileRejectedAppend N file baseBytes record faults)
      | .ok () => (file, .ok ())

/-- The close of the handle, whose error counts when there is no earlier one. -/
def closeJournal (plan : AppendPlan N) (eventDurable : Bool) (faults : AppendFaults) :
    Except JournalAppendError JournalBatchAppendOutcome :=
  if faults.closeFile then .error { phase := .event, eventDurable, cause := .file .close }
  else if !plan.refreshStatus then .ok { events := plan.dispositions, statusCache := .skipped }
  else if faults.writeStatus then
    .ok { events := plan.dispositions
          statusCache := .failed
            { phase := .statusCache, eventDurable, cause := .file .writeStatus } }
  else .ok { events := plan.dispositions, statusCache := .refreshed }

def enqueue (file : List Byte) (batch : List (RlmEvent N)) (batched : Bool)
    (faults : AppendFaults) :
    List Byte × Except JournalAppendError JournalBatchAppendOutcome :=
  match openJournal (N := N) file faults with
  | (file, .error cause) => (file, .error { phase := .event, eventDurable := false, cause })
  | (file, .ok scanned) =>
    match planAppend scanned batch batched with
    | .error cause => (file, .error { phase := .event, eventDurable := false, cause })
    | .ok plan =>
      match plan.record with
      | none => (file, closeJournal plan false faults)
      | some record =>
        match writeRecord N file scanned.verifiedBytes record faults with
        | (file, .error e) => (file, .error e)
        | (file, .ok ()) => (file, closeJournal plan true faults)

/-! ## Calls -/

/-- A call on the store. -/
inductive JournalCall (N : Type) where
  | append (event : JsonValue N)
  | appendBatch (batch : List (JsonValue N))

/-- The events of a call and whether it is a batch, once parsed. -/
def JournalCall.parse : JournalCall N → Except InterpreterError (List (RlmEvent N) × Bool)
  | .append event => (parseRlmEvent event).map fun e => ([e], false)
  | .appendBatch batch =>
    (batch.mapM parseRlmEvent).bind fun parsed =>
      if validBatchSemantics parsed then .ok (parsed, true)
      else .error { code := js "JOURNAL_CORRUPT", message := js "invalid journal batch" }

/-- `append` or `appendBatch`; of an `append`, the outcome has one disposition. -/
def runCall (file : List Byte) (call : JournalCall N) (faults : AppendFaults) :
    List Byte × Except JournalAppendError JournalBatchAppendOutcome :=
  match call.parse with
  | .error e => (file, .error { phase := .event, eventDurable := false, cause := .interpreter e })
  | .ok (batch, batched) => enqueue file batch batched faults

/-! ## What a plan writes -/

/-- A planned record is the record of the accepted events, which are not there yet. -/
theorem planRecord_some {scan : JournalScan N} {batched : Bool} {accepted : List (RlmEvent N)}
    {planned : PlannedRecord} (hone : batched = false → accepted.length ≤ 1)
    (h : planRecord scan batched accepted = .ok (some planned)) :
    ∃ record : JournalRecord N, record.events = accepted ∧ record.line = .ok planned.line ∧
      record.batchId = planned.batchId ∧ (∀ id ∈ planned.batchId, id ∉ scan.batchIds) ∧
      planned.batchId = if batched then some (batchOf accepted).batchId else none := by
  cases accepted with
  | nil => cases h
  | cons first rest =>
    cases batched with
    | false =>
      obtain rfl : rest = [] := by
        have hlength := hone rfl
        rw [List.length_cons] at hlength
        exact List.length_eq_zero_iff.mp (by omega)
      simp only [planRecord, recordLine_event, Bool.false_eq_true, if_false, Except.ok.injEq,
        Option.some.injEq] at h
      subst h
      exact ⟨.event first, rfl, recordLine_event first, rfl, nofun, rfl⟩
    | true =>
      simp only [planRecord, if_true, makeBatchRecord_ok, recordLine_batchOf] at h
      split_ifs at h with hvalid hseen
      · cases Except.ok.inj h
      obtain rfl := Option.some.inj (Except.ok.inj h)
      have hid : (JournalRecord.batch _ hvalid).batchId = some (batchOf (first :: rest)).batchId := by
        rw [JournalRecord.batchId, makeBatchRecord_ok]
        rfl
      refine ⟨.batch _ hvalid, rfl, JournalRecord.line_eq _, hid, ?_, rfl⟩
      rintro id hmem
      obtain rfl := Option.some.inj hmem
      exact hseen

/-- The events of a call come back in order, each with its disposition. -/
theorem map_fst_acceptEvents (batch : List (RlmEvent N)) (terminalSeen : Bool)
    (progressIdentities : List (RlmEvent N)) :
    (acceptEvents batch terminalSeen progressIdentities).map Prod.fst = batch := by
  induction batch generalizing terminalSeen progressIdentities with
  | nil => rfl
  | cons event batch ih =>
    rw [acceptEvents]
    split_ifs <;> rw [List.map_cons, ih]

/-- Events of a call that are to be committed. -/
def committedOf (batch : List (RlmEvent N)) (dispositions : List JournalAppendDisposition) :
    List (RlmEvent N) :=
  ((batch.zip dispositions).filter fun d => d.2 == .committed).map Prod.fst

theorem committedOf_sublist (batch : List (RlmEvent N))
    (dispositions : List JournalAppendDisposition) :
    (committedOf batch dispositions).Sublist batch := by
  have hfst : ((batch.zip dispositions).map Prod.fst).Sublist batch := by
    induction batch generalizing dispositions with
    | nil => exact List.nil_sublist _
    | cons event batch ih =>
      cases dispositions with
      | nil => exact List.nil_sublist _
      | cons d dispositions => exact (ih dispositions).cons_cons event
  exact (List.filter_sublist.map Prod.fst).trans hfst

theorem committedOf_eq_nil {batch : List (RlmEvent N)}
    {dispositions : List JournalAppendDisposition} (h : .committed ∉ dispositions) :
    committedOf batch dispositions = [] := by
  rw [committedOf, List.map_eq_nil_iff, List.filter_eq_nil_iff]
  rintro ⟨event, d⟩ hmem hd
  obtain rfl : d = .committed := beq_iff_eq.mp hd
  exact h (List.of_mem_zip hmem).2

/-- What the plan of a call says about the journal after it. -/
structure PlanSpec (scan : JournalScan N) (batch : List (RlmEvent N)) (batched : Bool)
    (plan : AppendPlan N) : Prop where
  accepted : plan.accepted = committedOf batch plan.dispositions
  length : plan.dispositions.length = batch.length
  unchanged : plan.record = none → JournalAppendDisposition.committed ∉ plan.dispositions
  written : ∀ planned ∈ plan.record, ∃ record : JournalRecord N,
    record.events = plan.accepted ∧ record.line = .ok planned.line ∧
      record.batchId = planned.batchId ∧ (∀ id ∈ planned.batchId, id ∉ scan.batchIds) ∧
      planned.batchId = if batched then some (batchOf plan.accepted).batchId else none

theorem zip_map_snd_acceptEvents (batch : List (RlmEvent N)) (terminalSeen : Bool)
    (progressIdentities : List (RlmEvent N)) :
    batch.zip ((acceptEvents batch terminalSeen progressIdentities).map Prod.snd) =
      acceptEvents batch terminalSeen progressIdentities := by
  exact (List.zip_of_prod (map_fst_acceptEvents batch terminalSeen progressIdentities) rfl).symm

theorem exactReplay_not_committed {scan : JournalScan N} {batch : List (RlmEvent N)}
    {batched : Bool} {dispositions : List JournalAppendDisposition}
    (h : exactReplay scan batch batched = .ok (some dispositions)) :
    JournalAppendDisposition.committed ∉ dispositions := by
  cases batched with
  | false => cases Except.ok.inj h
  | true =>
    simp only [exactReplay, if_true, makeBatchRecord_ok] at h
    split_ifs at h with hseen
    · obtain rfl := Option.some.inj (Except.ok.inj h)
      intro hmem
      obtain ⟨index, hindex, hd⟩ := List.mem_mapIdx.mp hmem
      split at hd
      · split_ifs at hd
      · cases hd
    · cases Except.ok.inj h

theorem length_exactReplay {scan : JournalScan N} {batch : List (RlmEvent N)}
    {batched : Bool} {dispositions : List JournalAppendDisposition}
    (h : exactReplay scan batch batched = .ok (some dispositions)) :
    dispositions.length = batch.length := by
  cases batched with
  | false => cases Except.ok.inj h
  | true =>
    simp only [exactReplay, if_true, makeBatchRecord_ok] at h
    split_ifs at h with hseen
    · obtain rfl := Option.some.inj (Except.ok.inj h)
      exact List.length_mapIdx
    · cases Except.ok.inj h

/-- A plan without a record commits nothing. -/
theorem planSpec_of_not_committed {scan : JournalScan N} {batch : List (RlmEvent N)}
    {batched : Bool} {dispositions : List JournalAppendDisposition} {refreshStatus : Bool}
    (hlength : dispositions.length = batch.length)
    (h : JournalAppendDisposition.committed ∉ dispositions) :
    PlanSpec scan batch batched
      { dispositions, refreshStatus, accepted := [], record := none } :=
  ⟨(committedOf_eq_nil h).symm, hlength, fun _ => h, nofun⟩

theorem planAppend_spec {scan : JournalScan N} {batch : List (RlmEvent N)} {batched : Bool}
    {plan : AppendPlan N} (hone : batched = false → batch.length ≤ 1)
    (h : planAppend scan batch batched = .ok plan) : PlanSpec scan batch batched plan := by
  let decided := acceptEvents batch false (scan.events.filter isProgress)
  have hzip : batch.zip (decided.map Prod.snd) = decided := zip_map_snd_acceptEvents _ _ _
  have hfst : decided.map Prod.fst = batch := map_fst_acceptEvents _ _ _
  have hlength : decided.length = batch.length := by rw [← hfst, List.length_map]
  rw [planAppend] at h
  split_ifs at h with hterminal
  · obtain rfl := Except.ok.inj h
    exact planSpec_of_not_committed (List.length_map _) (by simp)
  · cases hreplay : exactReplay scan batch batched with
    | error cause => rw [hreplay] at h; cases h
    | ok replay =>
      rw [hreplay] at h
      cases replay with
      | some dispositions =>
        obtain rfl := Except.ok.inj h
        exact planSpec_of_not_committed (length_exactReplay hreplay)
          (exactReplay_not_committed hreplay)
      | none =>
        dsimp only at h
        rw [planDecided] at h
        split at h
        · cases h
        · rename_i planned hplanned
          obtain rfl := Except.ok.inj h
          have haccepted := committedOf_sublist batch (decided.map Prod.snd)
          rw [committedOf, hzip] at haccepted
          refine ⟨by rw [committedOf, hzip], by rw [List.length_map]; exact hlength, nofun, ?_⟩
          intro planned' hmem
          obtain rfl := Option.some.inj hmem
          exact planRecord_some (fun hb => haccepted.length_le.trans (hone hb)) hplanned
        · obtain rfl := Except.ok.inj h
          refine planSpec_of_not_committed (by rw [List.length_map]; exact hlength) ?_
          intro hmem
          obtain ⟨d, -, hd⟩ := List.mem_map.mp hmem
          split_ifs at hd with hcommitted
          exact hcommitted (beq_iff_eq.mpr hd)

end PiRlm.Shell

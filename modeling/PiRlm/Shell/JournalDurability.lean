/-
  PiRlm.Shell.JournalDurability

  What an append leaves on disk, and what it says about it.

  After any call and any faults the complete lines of the file are the ones before it,
  or those and the line of one new record.  The verdict of the call tells which, with
  one exception: a line that was written whole by an append or a flush that reported a
  failure, when the reconciliation fails as well (`truthful_iff`).
-/
import Mathlib
import PiRlm.Shell.JournalAppend

namespace PiRlm.Shell

open PiRlm.Lib PiRlm.Lib.Json PiRlm.Core

variable {N : Type} [JsonNumber N]

/-! ## Opening -/

theorem scanJournal_verifiedBytes {raw : List Byte} {scan : JournalScan N}
    (h : scanJournal raw = .ok scan) : scan.verifiedBytes = (completeOctets raw).length := by
  rw [scanJournal_eq] at h
  cases hloop : scanLoop (completeOctets raw) [] 0 (scanned ([] : List (JournalRecord N))) with
  | error e => rw [hloop] at h; cases h
  | ok st =>
    rw [hloop] at h
    obtain rfl := Except.ok.inj h
    rfl

theorem length_completeOctets_le (raw : List Byte) :
    (completeOctets raw).length ≤ raw.length :=
  (List.take_sublist _ _).length_le

theorem completeOctets_completeOctets (raw : List Byte) :
    completeOctets (completeOctets raw) = completeOctets raw := by
  obtain ⟨-, -, -, hwhole⟩ := exists_tail raw
  exact hwhole.completeOctets_eq

theorem readBounded_ok {file raw : List Byte} {throws : Bool}
    (h : readBounded file throws = .ok raw) :
    raw = file ∧ throws = false ∧ file.length ≤ maxJournalAuthorityBytes := by
  rw [readBounded] at h
  split_ifs at h with hthrows hlength
  exact ⟨(Except.ok.inj h).symm, by simpa using hthrows, by omega⟩

theorem truncateFile_octets {file : List Byte} (fault : Fault) :
    completeOctets (truncateFile file (completeOctets file).length fault).1 =
      completeOctets file := by
  have htake : file.take (completeOctets file).length = completeOctets file := by
    rw [length_completeOctets]
    rfl
  cases fault <;> simp only [truncateFile, htake, completeOctets_completeOctets]

/-- What opening a journal leaves and returns. -/
theorem openJournal_spec (file : List Byte) (faults : AppendFaults) :
    completeOctets (openJournal (N := N) file faults).1 = completeOctets file ∧
      ∀ scan : JournalScan N, (openJournal file faults).2 = .ok scan →
        (openJournal (N := N) file faults).1 = completeOctets file ∧
          scanJournal file = .ok scan ∧
          (completeOctets file).length ≤ maxJournalAuthorityBytes := by
  rw [openJournal]
  split_ifs with hopen
  · exact ⟨rfl, nofun⟩
  cases hread : readBounded file faults.readFile with
  | error cause => exact ⟨rfl, nofun⟩
  | ok raw =>
    obtain ⟨rfl, -, hlength⟩ := readBounded_ok hread
    dsimp only
    cases hscan : scanJournal (N := N) raw with
    | error e => exact ⟨rfl, nofun⟩
    | ok scan =>
      have hverified := scanJournal_verifiedBytes hscan
      have hle := (length_completeOctets_le raw).trans hlength
      dsimp only
      split_ifs with htorn
      · -- the torn tail is cut off, and the rest scans as before
        have htruncate := @truncateFile_octets raw faults.repairTruncate
        have hagain : scanJournal (raw.take scan.verifiedBytes) = .ok scan := by
          rw [hverified, length_completeOctets]
          exact (scanJournal_congr (completeOctets_completeOctets raw)).trans hscan
        rw [hverified] at hagain ⊢
        cases hfault : faults.repairTruncate with
        | before => exact ⟨rfl, nofun⟩
        | after => rw [hfault] at htruncate; exact ⟨htruncate, nofun⟩
        | none =>
          rw [hfault] at htruncate
          simp only [truncateFile] at htruncate ⊢
          cases syncHandle faults.repairSync with
          | error cause => exact ⟨htruncate, nofun⟩
          | ok _ =>
            dsimp only
            rw [hagain]
            refine ⟨htruncate, fun scan' hscan' => ?_⟩
            obtain rfl := Except.ok.inj hscan'
            rw [length_completeOctets] at htruncate ⊢
            exact ⟨rfl, rfl, by rwa [← length_completeOctets]⟩
      · rw [not_not] at htorn
        have hwhole : completeOctets raw = raw := by
          rw [completeOctets, ← length_completeOctets, ← hverified, htorn, List.take_length]
        refine ⟨rfl, fun scan' hscan' => ?_⟩
        obtain rfl := Except.ok.inj hscan'
        exact ⟨hwhole.symm, rfl, hle⟩

/-! ## Writing -/

/-- The whole line reaches the file, the append or the flush reports a failure, and the
    reconciliation cannot read the file back or cannot flush it. -/
def AppendFaults.unreconciled (faults : AppendFaults) (octets : Nat) : Bool :=
  (match faults.appendFile with
    | some k => decide (octets ≤ k)
    | none => faults.syncFile) && (faults.reconcileRead || faults.reconcileSync)

/-- What is left of the append of `octets` to `base`, and what it reports. -/
inductive Written (base octets : List Byte) (unreconciled : Bool) :
    List Byte × Except JournalAppendError Unit → Prop where
  | ok (h : unreconciled = false) : Written base octets unreconciled (base ++ octets, .ok ())
  | durable (h : unreconciled = false) (cause : AppendCause) : Written base octets unreconciled
      (base ++ octets, .error { phase := .event, eventDurable := true, cause })
  | unreconciled (h : unreconciled = true) (cause : AppendCause) :
      Written base octets unreconciled
        (base ++ octets, .error { phase := .event, eventDurable := false, cause })
  | absent (h : unreconciled = false) (cause : AppendCause) (file : List Byte)
      (hfile : completeOctets file = base) :
      Written base octets unreconciled
        (file, .error { phase := .event, eventDurable := false, cause })

section Write

variable {base : List Byte} {scan : JournalScan N} {record : JournalRecord N}
  {planned : PlannedRecord}

theorem octets_of_line (hline : record.line = .ok planned.line) :
    utf8 planned.line = record.octets := by
  rw [JournalRecord.octets, hline]

theorem completeOctets_torn (hbase : Complete base) {k : Nat} (hk : k < record.octets.length) :
    completeOctets (base ++ record.octets.take k) = base := by
  apply completeOctets_append hbase
  rw [record.octets_eq, List.length_append, List.length_singleton] at hk
  rw [record.octets_eq, List.take_append_of_le_length (by omega)]
  exact fun hmem => lineFeed_not_mem_utf8_render _ (List.mem_of_mem_take hmem)

/-- The reconciliation of a file in which the line is whole. -/
theorem reconcile_whole (hbase : Complete base) (hscan : scanJournal base = .ok scan)
    (hline : record.line = .ok planned.line) (hid : record.batchId = planned.batchId)
    (hfits : (base ++ record.octets).length ≤ maxJournalAuthorityBytes)
    (faults : AppendFaults) :
    reconcileRejectedAppend N (base ++ record.octets) base.length planned faults =
      (base ++ record.octets,
        if faults.reconcileRead then .error (.file .read)
        else if faults.reconcileSync then .error (.file .sync) else .ok true) := by
  have hexact : exactRecord N (base ++ record.octets) base.length planned = true := by
    obtain ⟨scan', hscan', -, hverified, hids⟩ := scanJournal_append_octets hbase hscan record
    have hids' : planned.batchId.all (· ∈ scan'.batchIds) = true := by
      rw [← hid, Option.all_eq_true]
      exact fun id hmem => decide_eq_true (hids id hmem)
    rw [exactRecord, List.drop_left, octets_of_line hline, hscan']
    dsimp only
    rw [hverified, hids', beq_self_eq_true, beq_self_eq_true]
    rfl
  rw [reconcileRejectedAppend, readBounded]
  by_cases hread : faults.reconcileRead = true
  · rw [if_pos hread, if_pos hread]
  · rw [if_neg hread, if_neg hread, if_neg hfits.not_gt]
    dsimp only
    rw [if_neg hfits.not_gt, if_pos hexact, syncHandle]
    split_ifs <;> rfl

/-- The reconciliation of a file in which the line is torn. -/
theorem reconcile_torn (hbase : Complete base) (hline : record.line = .ok planned.line)
    {k : Nat} (hk : k < record.octets.length) (faults : AppendFaults) :
    completeOctets (reconcileRejectedAppend N (base ++ record.octets.take k) base.length planned
        faults).1 = base ∧
      (reconcileRejectedAppend N (base ++ record.octets.take k) base.length planned
        faults).2 ≠ .ok true := by
  have htorn := completeOctets_torn hbase hk
  have hinexact : ¬exactRecord N (base ++ record.octets.take k) base.length planned = true := by
    rw [exactRecord, List.drop_left, octets_of_line hline, Bool.and_eq_true, beq_iff_eq]
    rintro ⟨heq, -⟩
    have hlength := congrArg List.length heq
    rw [List.length_take] at hlength
    omega
  have htruncate : ∀ fault, completeOctets
      (truncateFile (base ++ record.octets.take k) base.length fault).1 = base := by
    intro fault
    cases fault <;> simp only [truncateFile, htorn, List.take_left, hbase.completeOctets_eq]
  rw [reconcileRejectedAppend]
  cases hread : readBounded (base ++ record.octets.take k) faults.reconcileRead with
  | error cause => exact ⟨htorn, nofun⟩
  | ok raw =>
    obtain ⟨rfl, -, hlength⟩ := readBounded_ok hread
    dsimp only
    rw [if_neg hlength.not_gt, if_neg hinexact]
    have hfile := htruncate faults.reconcileTruncate
    generalize truncateFile (base ++ record.octets.take k) base.length
      faults.reconcileTruncate = truncated at hfile
    obtain ⟨file, _ | _⟩ := truncated
    · exact ⟨hfile, nofun⟩
    · dsimp only
      cases syncHandle faults.reconcileTruncateSync with
      | error cause => exact ⟨hfile, nofun⟩
      | ok _ => exact ⟨hfile, fun h => Bool.false_ne_true (Except.ok.inj h)⟩

/-- A rejected append whose line is whole. -/
theorem rejected_whole (hbase : Complete base) (hscan : scanJournal base = .ok scan)
    (hline : record.line = .ok planned.line) (hid : record.batchId = planned.batchId)
    (hfits : (base ++ record.octets).length ≤ maxJournalAuthorityBytes)
    (faults : AppendFaults) (cause : AppendCause) :
    Written base record.octets (faults.reconcileRead || faults.reconcileSync)
      (rejected cause (reconcileRejectedAppend N (base ++ record.octets) base.length planned
        faults)) := by
  rw [reconcile_whole hbase hscan hline hid hfits]
  by_cases hread : faults.reconcileRead = true
  · rw [hread]
    exact .unreconciled rfl _
  · by_cases hsync : faults.reconcileSync = true
    · rw [if_neg hread, hsync, Bool.or_true]
      exact .unreconciled rfl _
    · rw [if_neg hread, if_neg hsync]
      refine .durable ?_ cause
      rw [Bool.eq_false_iff.mpr hread, Bool.eq_false_iff.mpr hsync]
      rfl

/-- The write of a record that fits. -/
theorem writeRecord_written (hbase : Complete base) (hscan : scanJournal base = .ok scan)
    (hline : record.line = .ok planned.line) (hid : record.batchId = planned.batchId)
    (hfits : (base ++ record.octets).length ≤ maxJournalAuthorityBytes)
    (faults : AppendFaults) :
    Written base record.octets (faults.unreconciled record.octets.length)
      (writeRecord N base base.length planned faults) := by
  have hoctets := octets_of_line hline
  have hroom : ¬maxJournalAuthorityBytes - base.length < (utf8 planned.line).length := by
    rw [List.length_append] at hfits
    rw [hoctets]
    omega
  rw [writeRecord, if_neg hroom, hoctets, AppendFaults.unreconciled]
  cases happend : faults.appendFile with
  | none =>
    dsimp only [appendToFile]
    rw [syncHandle]
    by_cases hsync : faults.syncFile = true
    · rw [if_pos hsync, hsync, Bool.true_and]
      exact rejected_whole hbase hscan hline hid hfits faults _
    · rw [if_neg hsync]
      refine .ok ?_
      rw [Bool.eq_false_iff.mpr hsync, Bool.false_and]
  | some k =>
    dsimp only [appendToFile]
    by_cases hk : record.octets.length ≤ k
    · rw [List.take_of_length_le hk, decide_eq_true hk, Bool.true_and]
      exact rejected_whole hbase hscan hline hid hfits faults _
    · obtain ⟨hfile, hverdict⟩ := reconcile_torn hbase hline (Nat.lt_of_not_le hk) faults
      rw [decide_eq_false hk, Bool.false_and]
      generalize reconcileRejectedAppend N (base ++ record.octets.take k) base.length planned
        faults = reconciled at hfile hverdict
      obtain ⟨file, cause | durable⟩ := reconciled
      · exact .absent rfl cause file hfile
      · obtain rfl : durable = false := by
          rw [← Bool.not_eq_true]
          rintro rfl
          exact hverdict rfl
        exact .absent rfl _ file hfile

end Write

/-! ## The verdict of a call -/

/-- A scan of the file returns the event. -/
def Present (event : RlmEvent N) (file : List Byte) : Prop :=
  ∃ scan : JournalScan N, scanJournal file = .ok scan ∧
    ∃ e ∈ scan.events, e.canonical = event.canonical

/-- The complete lines of the later file are those of the earlier one and the line of one
    record, which a scan reads after the earlier events. -/
structure Appended (file file' : List Byte) (record : JournalRecord N) : Prop where
  octets : completeOctets file' = completeOctets file ++ record.octets
  scans : ∃ scan scan' : JournalScan N, scanJournal file = .ok scan ∧
    scanJournal file' = .ok scan' ∧
    scan'.events = scan.events ++ record.events.map RlmEvent.canonical

/-- Events of a call. -/
def JournalCall.events (call : JournalCall N) : List (RlmEvent N) :=
  match call.parse with
  | .error _ => []
  | .ok parsed => parsed.1

/-- The append is atomic and the verdict true. -/
structure Truthful (file : List Byte) (call : JournalCall N)
    (result : List Byte × Except JournalAppendError JournalBatchAppendOutcome) : Prop where
  atomic : completeOctets result.1 = completeOctets file ∨
    ∃ record : JournalRecord N, record.events.Sublist call.events ∧ Appended file result.1 record
  committed : ∀ outcome, result.2 = .ok outcome →
    JournalAppendDisposition.committed ∈ outcome.events →
    ∃ record : JournalRecord N, record.events = committedOf call.events outcome.events ∧
      Appended file result.1 record
  durable : ∀ e, result.2 = .error e → e.eventDurable = true →
    ∃ record : JournalRecord N, record.events.Sublist call.events ∧ Appended file result.1 record
  absent : ∀ e, result.2 = .error e → e.eventDurable = false →
    ∀ event ∈ call.events, ¬Present event file → ¬Present event result.1

/-- The record a call comes to append, with its events: the journal opens and scans, the
    plan has a record, and the record fits. -/
def appendedRecord (file : List Byte) (call : JournalCall N) (faults : AppendFaults) :
    Option (PlannedRecord × List (RlmEvent N)) :=
  match call.parse with
  | .error _ => none
  | .ok (batch, batched) =>
    match (openJournal file faults).2 with
    | .error _ => none
    | .ok scan =>
      match planAppend scan batch batched with
      | .error _ => none
      | .ok plan =>
        plan.record.bind fun record =>
          if maxJournalAuthorityBytes - scan.verifiedBytes < (utf8 record.line).length then none
          else some (record, plan.accepted)

/-- The call appends a record with a new event, and its line is left unreconciled. -/
def LeavesUnreconciled (file : List Byte) (call : JournalCall N) (faults : AppendFaults) : Prop :=
  ∃ planned ∈ appendedRecord file call faults,
    faults.unreconciled (utf8 planned.1.line).length = true ∧
      ∃ event ∈ planned.2, ¬Present event file

/-! ### How a call ends -/

theorem appended_append {file : List Byte} {scan : JournalScan N} {record : JournalRecord N}
    (hscan : scanJournal file = .ok scan) (hnew : ∀ id ∈ record.batchId, id ∉ scan.batchIds) :
    Appended file (completeOctets file ++ record.octets) record := by
  obtain ⟨-, -, -, hbase⟩ := exists_tail file
  have hwhole : Complete (completeOctets file ++ record.octets) := by
    right
    rw [record.octets_eq, ← List.append_assoc, List.getLast?_concat]
  have hscan' : scanJournal (completeOctets file) = .ok scan := by
    rw [← hscan]
    exact scanJournal_congr (completeOctets_completeOctets file)
  have hfresh : ¬record.batchId.any (· ∈ scan.batchIds) = true := by
    rw [Option.any_eq_true]
    rintro ⟨id, hid, hmem⟩
    exact hnew id hid (of_decide_eq_true hmem)
  obtain ⟨scan₁, hscan₁, hevents, -⟩ := scanJournal_append_octets hbase hscan' record
  rw [if_neg hfresh] at hevents
  exact ⟨hwhole.completeOctets_eq, scan, scan₁, hscan, hscan₁, hevents⟩

/-- A call that comes to no append leaves the complete lines alone and says so. -/
structure Untouched (file : List Byte)
    (result : List Byte × Except JournalAppendError JournalBatchAppendOutcome) : Prop where
  octets : completeOctets result.1 = completeOctets file
  outcome : ∀ outcome, result.2 = .ok outcome →
    JournalAppendDisposition.committed ∉ outcome.events
  error : ∀ e, result.2 = .error e → e.eventDurable = false

/-- A call that comes to append `record` ends as the write of the record does. -/
structure Attempted (file : List Byte) (call : JournalCall N) (faults : AppendFaults)
    (planned : PlannedRecord × List (RlmEvent N)) (record : JournalRecord N)
    (write : List Byte × Except JournalAppendError Unit)
    (result : List Byte × Except JournalAppendError JournalBatchAppendOutcome) : Prop where
  octets : utf8 planned.1.line = record.octets
  events : record.events = planned.2
  sublist : record.events.Sublist call.events
  appended : Appended file (completeOctets file ++ record.octets) record
  written : Written (completeOctets file) record.octets
    (faults.unreconciled record.octets.length) write
  file : result.1 = write.1
  rejected : ∀ e, write.2 = .error e → result.2 = .error e
  outcome : write.2 = .ok () → ∀ outcome, result.2 = .ok outcome →
    record.events = committedOf call.events outcome.events
  closed : write.2 = .ok () → ∀ e, result.2 = .error e → e.eventDurable = true

theorem closeJournal_ok {plan : AppendPlan N} {eventDurable : Bool} {faults : AppendFaults}
    {outcome : JournalBatchAppendOutcome}
    (h : closeJournal plan eventDurable faults = .ok outcome) :
    outcome.events = plan.dispositions := by
  rw [closeJournal] at h
  split_ifs at h <;> rw [← Except.ok.inj h]

theorem closeJournal_error {plan : AppendPlan N} {eventDurable : Bool} {faults : AppendFaults}
    {e : JournalAppendError} (h : closeJournal plan eventDurable faults = .error e) :
    e.eventDurable = eventDurable := by
  rw [closeJournal] at h
  split_ifs at h
  rw [← Except.error.inj h]

theorem parse_length {call : JournalCall N} {batch : List (RlmEvent N)} {batched : Bool}
    (h : call.parse = .ok (batch, batched)) : batched = false → batch.length ≤ 1 := by
  cases call with
  | append event =>
    rw [JournalCall.parse] at h
    cases hevent : parseRlmEvent event with
    | error e => rw [hevent] at h; cases h
    | ok e =>
      rw [hevent] at h
      obtain ⟨rfl, -⟩ := Prod.mk.inj (Except.ok.inj h)
      exact fun _ => le_rfl
  | appendBatch events =>
    rw [JournalCall.parse] at h
    cases hparsed : events.mapM parseRlmEvent with
    | error e => rw [hparsed] at h; cases h
    | ok parsed =>
      rw [hparsed] at h
      simp only [Except.bind] at h
      split_ifs at h
      obtain ⟨-, rfl⟩ := Prod.mk.inj (Except.ok.inj h)
      exact nofun

/-- A call comes to no append, or ends as the append of its record does. -/
theorem runCall_ends (file : List Byte) (call : JournalCall N) (faults : AppendFaults) :
    (appendedRecord file call faults = none ∧ Untouched file (runCall file call faults)) ∨
      ∃ planned record write, appendedRecord file call faults = some planned ∧
        Attempted file call faults planned record write (runCall file call faults) := by
  rw [appendedRecord, runCall]
  cases hparse : call.parse with
  | error e => exact .inl ⟨rfl, rfl, nofun, fun _ h => by rw [← Except.error.inj h]⟩
  | ok parsed =>
    obtain ⟨batch, batched⟩ := parsed
    have hevents : call.events = batch := by rw [JournalCall.events, hparse]
    obtain ⟨hcomplete, hopened⟩ := openJournal_spec (N := N) file faults
    dsimp only
    rw [enqueue]
    generalize openJournal (N := N) file faults = opened at hcomplete hopened
    obtain ⟨file₁, cause | scan⟩ := opened
    · exact .inl ⟨rfl, hcomplete, nofun, fun _ h => by rw [← Except.error.inj h]⟩
    · obtain ⟨hfile₁, hscan, hlength⟩ := hopened scan rfl
      dsimp only at hfile₁ hcomplete ⊢
      cases hplan : planAppend scan batch batched with
      | error cause => exact .inl ⟨rfl, hcomplete, nofun, fun _ h => by rw [← Except.error.inj h]⟩
      | ok plan =>
        have hspec := planAppend_spec (parse_length hparse) hplan
        dsimp only
        cases hrecord : plan.record with
        | none =>
          refine .inl ⟨rfl, hcomplete, fun outcome houtcome => ?_, fun e he => ?_⟩
          · rw [closeJournal_ok houtcome]
            exact hspec.unchanged hrecord
          · exact closeJournal_error he
        | some planned =>
          obtain ⟨record, hrecords, hline, hid, hnew, -⟩ := hspec.written planned hrecord
          have hoctets := octets_of_line hline
          have hverified := scanJournal_verifiedBytes hscan
          obtain ⟨-, -, -, hbase⟩ := exists_tail file
          have hbaseScan : scanJournal (completeOctets file) = .ok scan := by
            rw [← hscan]
            exact scanJournal_congr (completeOctets_completeOctets file)
          subst hfile₁
          dsimp only [Option.bind_some]
          rw [hverified]
          by_cases hroom : maxJournalAuthorityBytes - (completeOctets file).length <
              (utf8 planned.line).length
          · rw [if_pos hroom, writeRecord, if_pos hroom]
            exact .inl ⟨rfl, hcomplete, nofun, fun _ h => by rw [← Except.error.inj h]⟩
          · rw [if_neg hroom]
            have hfits : (completeOctets file ++ record.octets).length ≤
                maxJournalAuthorityBytes := by
              rw [List.length_append, ← hoctets]
              omega
            have hwritten := writeRecord_written hbase hbaseScan hline hid hfits faults
            have hsublist : record.events.Sublist call.events := by
              rw [hrecords, hspec.accepted, hevents]
              exact committedOf_sublist _ _
            refine .inr ⟨(planned, plan.accepted), record, _, rfl, hoctets, hrecords, hsublist,
              appended_append hscan (hid ▸ hnew), hwritten, ?_, ?_, ?_, ?_⟩
            all_goals
              generalize writeRecord N (completeOctets file) (completeOctets file).length planned
                faults = write
              obtain ⟨file₂, e | ⟨⟩⟩ := write
            · rfl
            · rfl
            · exact fun _ he => congrArg Except.error (Except.error.inj he)
            · exact nofun
            · exact nofun
            · intro _ outcome houtcome
              rw [closeJournal_ok houtcome, hrecords, hspec.accepted, hevents]
            · exact nofun
            · exact fun _ e he => closeJournal_error he

/-! ### The verdict -/

theorem present_congr {file file' : List Byte} (h : completeOctets file = completeOctets file')
    (event : RlmEvent N) : Present event file ↔ Present event file' := by
  rw [Present, Present, scanJournal_congr h]

/-- An event of an appended record is present. -/
theorem Appended.present {file file' : List Byte} {record : JournalRecord N}
    (h : Appended file file' record) {event : RlmEvent N} (hevent : event ∈ record.events) :
    Present event file' := by
  obtain ⟨scan, scan', -, hscan', hevents⟩ := h.scans
  refine ⟨scan', hscan', event.canonical, ?_, event.canonical_canonical⟩
  rw [hevents]
  exact List.mem_append_right _ (List.mem_map_of_mem hevent)

/-- An event that an appended record makes present is one of its events. -/
theorem Appended.of_present {file file' : List Byte} {record : JournalRecord N}
    (h : Appended file file' record) {event : RlmEvent N} (hbefore : ¬Present event file)
    (hafter : Present event file') : ∃ e ∈ record.events, ¬Present e file := by
  obtain ⟨scan, scan', hscan, hscan', hevents⟩ := h.scans
  obtain ⟨scan₁, hscan₁, e, he, hcanonical⟩ := hafter
  obtain rfl := Except.ok.inj (hscan'.symm.trans hscan₁)
  rw [hevents, List.mem_append, List.mem_map] at he
  rcases he with he | ⟨e', he', rfl⟩
  · exact absurd ⟨scan, hscan, e, he, hcanonical⟩ hbefore
  · refine ⟨e', he', fun ⟨scan₂, hscan₂, x, hx, hxe⟩ => hbefore ⟨scan₂, hscan₂, x, hx, ?_⟩⟩
    rw [hxe, ← hcanonical, e'.canonical_canonical]

/-- A call that leaves its line unreconciled denies an event that is there. -/
theorem not_truthful {file : List Byte} {call : JournalCall N} {faults : AppendFaults}
    (h : LeavesUnreconciled file call faults) :
    ¬Truthful file call (runCall file call faults) := by
  obtain ⟨planned, hplanned, hfaults, event, hevent, hnew⟩ := h
  intro htruthful
  rcases runCall_ends file call faults with ⟨hnone, -⟩ | ⟨planned', record, write, hsome, hend⟩
  · rw [hnone] at hplanned
    cases hplanned
  · obtain rfl := Option.some.inj (hsome.symm.trans hplanned)
    rw [← hend.events] at hevent
    rw [hend.octets] at hfaults
    have hwritten := hend.written
    rw [hfaults] at hwritten
    cases hwritten with
    | ok h | durable h | absent h => cases h
    | unreconciled _ cause =>
      have hresult := hend.rejected _ rfl
      refine htruthful.absent _ hresult rfl event (hend.sublist.mem hevent) hnew ?_
      rw [hend.file]
      exact hend.appended.present hevent

theorem Untouched.truthful {file : List Byte} {call : JournalCall N}
    {result : List Byte × Except JournalAppendError JournalBatchAppendOutcome}
    (h : Untouched file result) : Truthful file call result where
  atomic := .inl h.octets
  committed outcome houtcome hcommitted := absurd hcommitted (h.outcome outcome houtcome)
  durable e he hdurable := absurd hdurable (by simp [h.error e he])
  absent _ _ _ event _ hnew hpresent := hnew ((present_congr h.octets event).mp hpresent)

/-- Any other call is atomic and tells the truth. -/
theorem truthful_of_reconciled {file : List Byte} {call : JournalCall N} {faults : AppendFaults}
    (h : ¬LeavesUnreconciled file call faults) :
    Truthful file call (runCall file call faults) := by
  rcases runCall_ends file call faults with
    ⟨-, huntouched⟩ | ⟨planned, record, write, hsome, hend⟩
  · exact huntouched.truthful
  generalize runCall file call faults = result at hend
  obtain ⟨file', outcome⟩ := result
  have hfile : file' = write.1 := hend.file
  have hwritten := hend.written
  generalize hun : faults.unreconciled record.octets.length = unreconciled at hwritten
  cases hwritten with
  | ok hreconciled =>
    have happended : Appended file file' record := by
      rw [hfile]
      exact hend.appended
    exact ⟨.inr ⟨record, hend.sublist, happended⟩,
      fun outcome houtcome _ => ⟨record, hend.outcome rfl outcome houtcome, happended⟩,
      fun _ _ _ => ⟨record, hend.sublist, happended⟩,
      fun e he hdurable => absurd (hend.closed rfl e he) (by simp [hdurable])⟩
  | durable hreconciled cause =>
    have happended : Appended file file' record := by
      rw [hfile]
      exact hend.appended
    obtain rfl : outcome = _ := hend.rejected _ rfl
    exact ⟨.inr ⟨record, hend.sublist, happended⟩, nofun,
      fun _ _ _ => ⟨record, hend.sublist, happended⟩,
      fun e he hdurable => by cases Except.error.inj he; cases hdurable⟩
  | unreconciled hunreconciled cause =>
    have happended : Appended file file' record := by
      rw [hfile]
      exact hend.appended
    obtain rfl : outcome = _ := hend.rejected _ rfl
    refine ⟨.inr ⟨record, hend.sublist, happended⟩, nofun, ?_, ?_⟩
    · intro e he hdurable
      cases Except.error.inj he
      cases hdurable
    · -- nothing new can be present, or the line would be left unreconciled
      intro e _ _ event _ hnew hpresent
      obtain ⟨x, hx, hxnew⟩ := happended.of_present hnew hpresent
      rw [hend.events] at hx
      exact h ⟨planned, hsome, by rw [hend.octets]; exact hun.trans hunreconciled, x, hx, hxnew⟩
  | absent hreconciled cause file₁ hoctets =>
    obtain rfl : outcome = _ := hend.rejected _ rfl
    have hsame : completeOctets file' = completeOctets file := by
      rw [hfile]
      exact hoctets
    refine ⟨.inl hsame, nofun, ?_, fun _ _ _ event _ hnew hpresent => ?_⟩
    · intro e he hdurable
      cases Except.error.inj he
      cases hdurable
    · exact hnew ((present_congr hsame event).mp hpresent)

/-- An append is atomic and its verdict true exactly when it does not leave a whole line
    of a new event unreconciled. -/
theorem truthful_iff (file : List Byte) (call : JournalCall N) (faults : AppendFaults) :
    Truthful file call (runCall file call faults) ↔ ¬LeavesUnreconciled file call faults :=
  ⟨fun h hun => not_truthful hun h, truthful_of_reconciled⟩

/-! ### A record that is denied -/

/-- The record of an event appended to an empty file. -/
theorem appendedRecord_nil {event : RlmEvent N} {faults : AppendFaults}
    (hfits : event.canonical.toJson.render.length ≤ 1000) (hopen : faults.openFile = false)
    (hread : faults.readFile = false) :
    appendedRecord [] (.append ⟨event.toJson, event.toJson_owned⟩) faults =
      some ({ line := event.canonical.toJson.render ++ [lineFeedUnit], batchId := none },
        [event]) := by
  have hparse : JournalCall.parse (.append ⟨event.toJson, event.toJson_owned⟩) =
      .ok ([event], false) := by
    rw [JournalCall.parse, parseRlmEvent_toJson]
    rfl
  have hopened : openJournal [] faults =
      ([], .ok ((scanned ([] : List (JournalRecord N))).toScan 0)) := by
    rw [openJournal, hopen, readBounded, hread]
    rfl
  have hplan : planAppend ((scanned ([] : List (JournalRecord N))).toScan 0) [event] false =
      .ok { dispositions := [.committed], refreshStatus := true, accepted := [event]
            record := some { line := event.canonical.toJson.render ++ [lineFeedUnit]
                             batchId := none } } := by
    have haccepted : acceptEvents [event] false [] = [(event, .committed)] := by
      simp [acceptEvents]
    show planDecided _ [event] false (acceptEvents [event] false []) = _
    rw [haccepted, planDecided]
    simp only [List.filter_singleton, List.map_singleton, planRecord, Bool.false_eq_true,
      if_false, recordLine_event]
    rfl
  have hlength := length_utf8_le (event.canonical.toJson.render ++ [lineFeedUnit])
  rw [List.length_append, List.length_singleton] at hlength
  have hroom : ¬maxJournalAuthorityBytes - 0 <
      (utf8 (event.canonical.toJson.render ++ [lineFeedUnit])).length := by
    rw [maxJournalAuthorityBytes]
    omega
  rw [appendedRecord, hparse]
  dsimp only
  rw [hopened]
  dsimp only
  rw [hplan]
  exact if_neg hroom

def phaseEvent : RlmEvent Int where
  fields := [(js "frameId", .str (js "root")), (js "iteration", .num 1),
    (js "name", .str (js "plan")), (js "ordinal", .num 0), (js "type", .str (js "phase"))]
  owned := by decide
  bounded := by decide
  valid := by decide

/-- The flush of the event fails, and so does the read that is to find out about it. -/
def deniedFaults : AppendFaults :=
  { noFaults with syncFile := true, reconcileRead := true }

theorem append_denied :
    ¬∀ (file : List Byte) (call : JournalCall Int) (faults : AppendFaults),
      Truthful file call (runCall file call faults) := by
  intro h
  refine not_truthful ?_ (h [] (.append ⟨phaseEvent.toJson, phaseEvent.toJson_owned⟩) deniedFaults)
  refine ⟨_, appendedRecord_nil (by decide) rfl rfl, rfl, phaseEvent, List.mem_singleton_self _, ?_⟩
  rintro ⟨scan, hscan, event, hevent, -⟩
  obtain rfl := Except.ok.inj hscan
  cases hevent

end PiRlm.Shell

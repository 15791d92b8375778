/-
  PiRlm.Shell.JournalScan

  What the scan of a written journal returns, whole or cut at any octet.

  Each record is written as one line without a line feed inside.  Reading the line back
  gives the canonical form of the record's events (`scanRecord_event`,
  `scanRecord_batch`), so the scan of the octets of a list of records is the state
  `scanned` computed from the records alone, and the octets after the last line feed of
  a cut file change nothing.
-/
import Mathlib
import PiRlm.Shell.JournalStore

namespace PiRlm.Shell

open PiRlm.Lib PiRlm.Lib.Json PiRlm.Core

variable {N : Type} [JsonNumber N]

/-! ## Records -/

/-- One record of the journal: an event or a valid batch. -/
inductive JournalRecord (N : Type) [JsonNumber N] where
  | event (e : RlmEvent N)
  | batch (es : List (RlmEvent N)) (valid : validBatchSemantics es = true)

namespace JournalRecord

/-- Events the record was made from. -/
def events : JournalRecord N → List (RlmEvent N)
  | .event e => [e]
  | .batch es _ => es

/-- The line written for the record. -/
def line : JournalRecord N → Except JsString JsString
  | .event e => recordLine e.toJson
  | .batch es _ => (makeBatchRecord es).bind fun record => recordLine record.toJson

/-- Identity of a batch. -/
def batchId : JournalRecord N → Option JsString
  | .event _ => none
  | .batch es _ => ((makeBatchRecord es).toOption).map JournalBatchRecord.batchId

/-- Octets of the line. -/
def octets (record : JournalRecord N) : List Byte :=
  match record.line with
  | .ok line => utf8 line
  | .error _ => []

end JournalRecord

/-- Octets of a journal into which these records were appended. -/
def journalOctets (records : List (JournalRecord N)) : List Byte :=
  (records.map JournalRecord.octets).flatten

/-- A batch whose identity one of the earlier records already has. -/
def repeated (before : List (JournalRecord N)) (record : JournalRecord N) : Bool :=
  record.batchId.any fun batchId => before.any fun r => r.batchId == some batchId

/-- Events a record adds after the earlier ones. -/
def contribution (before : List (JournalRecord N)) (record : JournalRecord N) :
    List (RlmEvent N) :=
  if repeated before record then [] else record.events.map RlmEvent.canonical

/-- Events of a journal, in append order. -/
def committedEvents (records : List (JournalRecord N)) : List (RlmEvent N) :=
  (records.mapIdx fun i record => contribution (records.take i) record).flatten

/-- For each event of a journal, the span of the record that holds it. -/
def committedSpans (records : List (JournalRecord N)) : List (Nat × Nat) :=
  (records.mapIdx fun i record =>
    (contribution (records.take i) record).map fun _ =>
      ((journalOctets (records.take i)).length,
        (journalOctets (records.take i)).length + record.octets.length)).flatten

/-! ## The line of an event -/

theorem maxEventDepth_le : maxEventDepth + 2 ≤ maxJsonDepth := by decide

theorem recordLine_event (event : RlmEvent N) :
    recordLine event.toJson = .ok (event.canonical.toJson.render ++ [lineFeedUnit]) := by
  have hdepth := event.toJson_depth
  have hle := maxEventDepth_le
  rw [recordLine, canonicalStringify_ok (by omega), event.toJson_canonical]
  rfl

/-- The type of an event names one of the shapes, so it is no batch. -/
theorem RlmEvent.type_ne_batch (event : RlmEvent N) : event.type ≠ batchRecordType := by
  intro htype
  have hvalid := event.valid
  rw [validEvent, Bool.and_eq_true] at hvalid
  have hfind : eventChecks.find? (fun c : JsString × (RecordValue N → Bool) =>
      c.1 == stringAt event.fields (js "type")) = none := by
    rw [List.find?_eq_none]
    intro c hc
    have hkeys : ∀ k ∈ (eventChecks (N := N)).map Prod.fst, k ≠ batchRecordType := by
      simp only [eventChecks, List.map_cons, List.map_nil, List.forall_mem_cons]
      decide
    have hne := hkeys c.1 (List.mem_map_of_mem hc)
    rw [show stringAt event.fields (js "type") = batchRecordType from htype]
    simpa using hne
  rw [hfind] at hvalid
  exact Bool.false_ne_true hvalid.2

theorem isBatchEnvelope_event (event : RlmEvent N) :
    isBatchEnvelope event.toJson = false := by
  have htype := event.type_ne_batch
  rw [RlmEvent.type, stringAt] at htype
  rw [RlmEvent.toJson, isBatchEnvelope]
  split <;> simp_all

theorem scanRecord_event (event : RlmEvent N) (line : JsString) :
    scanRecord ⟨event.toJson, event.toJson_owned⟩ line = some ([event], none) := by
  have hbatch : isBatchEnvelope (.obj event.fields) = false := isBatchEnvelope_event event
  have hparse : parseRlmEvent ⟨.obj event.fields, event.owned⟩ = .ok event :=
    parseRlmEvent_toJson event event.toJson_owned
  show scanRecord ⟨.obj event.fields, event.owned⟩ line = _
  unfold scanRecord
  dsimp only
  rw [hbatch, hparse]
  rfl

/-! ## The line of a batch -/

theorem canonical_arr_events (events : List (RlmEvent N)) :
    canonical (.arr (events.map RlmEvent.toJson)) =
      .arr ((events.map RlmEvent.canonical).map RlmEvent.toJson) := by
  rw [canonical_arr, List.map_map, List.map_map]
  congr 1

theorem depth_arr_events (events : List (RlmEvent N)) :
    (Json.arr (events.map RlmEvent.toJson)).depth ≤ maxEventDepth + 1 := by
  rw [Json.depth, depthItems_le, List.forall_mem_map]
  intro event _
  have := event.toJson_depth
  omega

/-- Text a batch is identified by. -/
def eventsText (events : List (RlmEvent N)) : JsString :=
  (Core.canonical (.arr (events.map RlmEvent.toJson))).render

/-- The record made from these events. -/
def batchOf (events : List (RlmEvent N)) : JournalBatchRecord N where
  batchId := js "batch_" ++ sha256 (eventsText events)
  checksum := sha256 (eventsText events)
  events := events

theorem makeBatchRecord_ok (events : List (RlmEvent N)) :
    makeBatchRecord events = .ok (batchOf events) := by
  have hdepth := depth_arr_events events
  have hle := maxEventDepth_le
  rw [makeBatchRecord, canonicalStringify_ok (by omega)]
  rfl

/-- Canonical events have the text of the events. -/
theorem eventsText_canonical (events : List (RlmEvent N)) :
    eventsText (events.map RlmEvent.canonical) = eventsText events := by
  have hcanonical : (events.map RlmEvent.canonical).map RlmEvent.canonical =
      events.map RlmEvent.canonical := by
    rw [List.map_map]
    exact List.map_congr_left fun event _ => event.canonical_canonical
  rw [eventsText, canonical_arr_events, hcanonical, eventsText, canonical_arr_events]

/-! ### Batch semantics of canonical events -/

namespace RlmEvent

variable (event : RlmEvent N)

theorem canonicalRecord : CanonicalRecord event.fields event.canonical.fields :=
  (event.canonicalOf event.canonical_toJson).toCanonicalRecord

@[simp] theorem type_canonical : event.canonical.type = event.type :=
  event.canonicalRecord.stringAt _

@[simp] theorem frameId_canonical : event.canonical.frameId = event.frameId :=
  event.canonicalRecord.stringAt _

end RlmEvent

theorem sameNumber_canonical {left left' right right' : RecordValue N}
    (hl : CanonicalRecord left left') (hr : CanonicalRecord right right')
    (leftKey rightKey : JsString) :
    sameNumber left' leftKey right' rightKey = sameNumber left leftKey right rightKey := by
  rw [sameNumber, sameNumber, hl.get, hr.get]
  cases get left leftKey with
  | none => rfl
  | some v =>
    cases get right rightKey with
    | none => cases v <;> rfl
    | some w => cases v <;> cases w <;> rfl

@[simp] theorem isTerminal_canonical (event : RlmEvent N) :
    isTerminal event.canonical = isTerminal event := by
  simp only [isTerminal, RlmEvent.type_canonical]

@[simp] theorem isProgress_canonical (event : RlmEvent N) :
    isProgress event.canonical = isProgress event := by
  simp only [isProgress, RlmEvent.type_canonical]

@[simp] theorem sameProgressIdentity_canonical (left right : RlmEvent N) :
    sameProgressIdentity left.canonical right.canonical = sameProgressIdentity left right := by
  simp only [sameProgressIdentity, RlmEvent.frameId_canonical,
    sameNumber_canonical left.canonicalRecord right.canonicalRecord]

@[simp] theorem hasFullCellOutput_canonical (cell : RlmEvent N) :
    hasFullCellOutput cell.canonical = hasFullCellOutput cell := by
  have h := cell.canonicalRecord
  simp only [hasFullCellOutput, h.string, h.stringAt, h.refMatches, h.integer]

@[simp] theorem hasFullAnswerOutput_canonical (answer : RlmEvent N) :
    hasFullAnswerOutput answer.canonical = hasFullAnswerOutput answer := by
  have h := answer.canonicalRecord
  simp only [hasFullAnswerOutput, h.stringAt, h.refMatches, h.integer]

@[simp] theorem sameOutput_canonical (cell answer : RlmEvent N) :
    sameOutput cell.canonical answer.canonical = sameOutput cell answer := by
  have hc := cell.canonicalRecord
  have ha := answer.canonicalRecord
  simp only [sameOutput, hasFullCellOutput_canonical, hasFullAnswerOutput_canonical,
    hc.stringAt, ha.stringAt, sameNumber_canonical hc ha]

theorem progressMatches_canonical (cell progress : RlmEvent N) (index : Nat) :
    progressMatches cell.canonical progress.canonical index =
      progressMatches cell progress index := by
  have hc := cell.canonicalRecord
  have hp := progress.canonicalRecord
  simp only [progressMatches, isProgress_canonical, RlmEvent.frameId_canonical,
    sameNumber_canonical hp hc, hp.isNumber]

theorem validCellTail_canonical (cell : RlmEvent N) (tail : List (RlmEvent N)) :
    validCellTail cell.canonical (tail.map RlmEvent.canonical) = validCellTail cell tail := by
  cases tail with
  | nil => simp only [List.map_nil, validCellTail, cell.canonicalRecord.own]
  | cons answer tail =>
    simp only [List.map_cons, validCellTail, RlmEvent.type_canonical,
      RlmEvent.frameId_canonical, answer.canonicalRecord.stringAt, sameOutput_canonical]

theorem filter_map_canonical {p : RlmEvent N → Bool} (hp : ∀ e, p (RlmEvent.canonical e) = p e)
    (events : List (RlmEvent N)) :
    (events.map RlmEvent.canonical).filter p = (events.filter p).map RlmEvent.canonical := by
  have hcomp : p ∘ RlmEvent.canonical = p := funext hp
  rw [List.filter_map, hcomp]

theorem cellIndexes_canonical (events : List (RlmEvent N)) :
    cellIndexes (events.map RlmEvent.canonical) = cellIndexes events := by
  have hcomp : ((fun p : RlmEvent N × Nat => p.1.type == js "cell_committed") ∘
      Prod.map RlmEvent.canonical id) = fun p => p.1.type == js "cell_committed" := by
    funext p
    simp
  rw [cellIndexes, cellIndexes, List.zipIdx_map, List.filter_map, hcomp, List.map_map]
  rfl

theorem validCellBatch_canonical (events : List (RlmEvent N)) :
    validBatchSemantics.validCellBatch (events.map RlmEvent.canonical) =
      validBatchSemantics.validCellBatch events := by
  have hprogress : ∀ (cell : RlmEvent N) (xs : List (RlmEvent N)),
      (xs.map RlmEvent.canonical).zipIdx.all
        (fun p => progressMatches cell.canonical p.1 p.2) =
      xs.zipIdx.all fun p => progressMatches cell p.1 p.2 := by
    intro cell xs
    rw [List.zipIdx_map, List.all_map]
    congr 1
    funext p
    exact progressMatches_canonical cell p.1 p.2
  rw [validBatchSemantics.validCellBatch, validBatchSemantics.validCellBatch,
    cellIndexes_canonical]
  rcases cellIndexes events with _ | ⟨i, _ | _⟩
  · rfl
  · dsimp only
    rw [← List.map_drop, ← List.map_take, List.length_map]
    cases events.drop i with
    | nil => rfl
    | cons cell tail =>
      simp only [List.map_cons]
      rw [hprogress, validCellTail_canonical]
  · rfl

/-- Canonical events form a valid batch exactly when the events do. -/
theorem validBatchSemantics_canonical (events : List (RlmEvent N)) :
    validBatchSemantics (events.map RlmEvent.canonical) = validBatchSemantics events := by
  have hcell := validCellBatch_canonical events
  have hanswers : ((events.map RlmEvent.canonical).filter
      fun e => e.type == js "answer_committed").length =
      (events.filter fun e => e.type == js "answer_committed").length := by
    rw [filter_map_canonical (fun e => by rw [e.type_canonical]), List.length_map]
  unfold validBatchSemantics
  rw [hanswers]
  congr 1
  -- only a list of two events has a case of its own
  rcases events with _ | ⟨first, _ | ⟨second, _ | ⟨third, rest⟩⟩⟩
  · exact hcell
  · exact hcell
  · have hpair : isFallbackPair first.canonical second.canonical =
        isFallbackPair first second := by
      simp only [isFallbackPair, RlmEvent.type_canonical]
    simp only [List.map_cons, List.map_nil] at hcell ⊢
    rw [hpair, hcell, first.frameId_canonical, second.frameId_canonical,
      second.canonicalRecord.stringAt, hasFullAnswerOutput_canonical]
  · exact hcell

/-! ### Reading a batch back -/

/-- Members of a batch in the order in which its line has them. -/
def batchFields (batchId checksum : JsString) (items : List (Json N)) : RecordValue N :=
  [(js "batchId", .str batchId), (js "checksum", .str checksum), (js "events", .arr items),
    (js "type", .str batchRecordType),
    (js "version", .num (JsonNumber.ofNat batchRecordVersion))]

/-- The value on the line of a batch. -/
def batchLine (events : List (RlmEvent N)) : Json N :=
  .obj (batchFields (batchOf events).batchId (batchOf events).checksum
    ((events.map RlmEvent.canonical).map RlmEvent.toJson))

theorem batchFields_keys (batchId checksum : JsString) (items : List (Json N)) :
    (batchFields batchId checksum items).map Prod.fst = envelopeKeys := rfl

theorem envelopeKeys_sorted : envelopeKeys.Pairwise (· ≤ ·) := by decide

theorem envelopeKeys_nodup : envelopeKeys.Nodup := by decide

theorem canonical_batchRecord (record : JournalBatchRecord N) :
    canonical record.toJson =
      .obj ((batchFields record.batchId record.checksum (record.events.map RlmEvent.toJson)).map
        fun f => (f.1, canonical f.2)) := by
  let sorted := batchFields record.batchId record.checksum (record.events.map RlmEvent.toJson)
  have hperm : List.Perm sorted
      [(js "type", .str batchRecordType),
        (js "version", .num (JsonNumber.ofNat batchRecordVersion)),
        (js "batchId", .str record.batchId), (js "checksum", .str record.checksum),
        (js "events", .arr (record.events.map RlmEvent.toJson))] :=
    @List.perm_append_comm _ (sorted.take 3) (sorted.drop 3)
  have hkeys : ∀ k ∈ envelopeKeys, isArrayIndex k = false := by
    simp only [envelopeKeys, List.forall_mem_cons]
    decide
  exact canonical_obj_of_sorted hperm envelopeKeys_nodup envelopeKeys_sorted hkeys

theorem canonical_batchOf (events : List (RlmEvent N)) :
    canonical (batchOf events).toJson = batchLine events := by
  rw [canonical_batchRecord]
  simp only [batchFields, List.map_cons, List.map_nil]
  rw [batchOf, canonical_arr_events]
  rfl

theorem batchLine_owned (events : List (RlmEvent N)) : (batchLine events).Owned := by
  rw [← canonical_batchOf]
  exact canonical_owned _

theorem depth_batchRecord (record : JournalBatchRecord N) :
    record.toJson.depth ≤ maxJsonDepth := by
  have hevents := depth_arr_events record.events
  have hle := maxEventDepth_le
  rw [JournalBatchRecord.toJson, Json.depth, depthFields_le]
  simp only [List.forall_mem_cons, List.not_mem_nil, false_imp_iff, implies_true, and_true]
  refine ⟨?_, ?_, ?_, ?_, by omega⟩ <;> simp only [Json.depth] <;> decide

theorem recordLine_batchOf (events : List (RlmEvent N)) :
    recordLine (batchOf events).toJson = .ok ((batchLine events).render ++ [lineFeedUnit]) := by
  rw [recordLine, canonicalStringify_ok (depth_batchRecord _), canonical_batchOf]
  rfl

/-- A batch of canonical events is written as the events are. -/
theorem batchLine_canonical (events : List (RlmEvent N)) :
    batchLine (events.map RlmEvent.canonical) = batchLine events := by
  have hcanonical : (events.map RlmEvent.canonical).map RlmEvent.canonical =
      events.map RlmEvent.canonical := by
    rw [List.map_map]
    exact List.map_congr_left fun event _ => event.canonical_canonical
  simp only [batchLine, batchOf, hcanonical, eventsText_canonical]

theorem parseEvents_toJson (events : List (RlmEvent N))
    (h : ∀ v ∈ events.map RlmEvent.toJson, v.Owned) :
    parseEvents (events.map RlmEvent.toJson) h = some events := by
  induction events with
  | nil => rfl
  | cons event events ih =>
    simp only [List.map_cons, parseEvents]
    rw [parseRlmEvent_toJson, ih]
    rfl

section BatchFields

variable (batchId checksum : JsString) (items : List (Json N))

theorem isBatchEnvelope_batchFields :
    isBatchEnvelope (.obj (batchFields batchId checksum items)) = true := rfl

theorem get_events_batchFields :
    get (batchFields batchId checksum items) (js "events") = some (.arr items) := rfl

theorem stringAt_batchId_batchFields :
    stringAt (batchFields batchId checksum items) (js "batchId") = batchId := rfl

theorem stringAt_checksum_batchFields :
    stringAt (batchFields batchId checksum items) (js "checksum") = checksum := rfl

theorem validEnvelope_batchFields (hid : isPrefixedHash (js "batch_") batchId = true)
    (hsum : isHash checksum = true) :
    validEnvelope (batchFields batchId checksum items) = true := by
  have hkeys : joinedKeys ((batchFields batchId checksum items).map Prod.fst) =
      [(0 : CodeUnit)].intercalate envelopeKeys := by
    rw [joinedKeys, batchFields_keys]
    exact congrArg _ (sortBy_eq_self envelopeKeys_sorted)
  have hversion : isNumber (batchFields batchId checksum items) (js "version")
      batchRecordVersion = true :=
    decide_eq_true (JsonNumber.value_ofNat batchRecordVersion (by decide))
  rw [validEnvelope, hkeys, hversion, stringAt_batchId_batchFields, hid,
    stringAt_checksum_batchFields, hsum, beq_self_eq_true]
  rfl

end BatchFields

theorem isPrefixedHash_append {s : JsString} (start : JsString) (h : isHash s = true) :
    isPrefixedHash start (start ++ s) = true := by
  rw [isPrefixedHash, List.drop_left, h, Bool.and_true, List.isPrefixOf_iff_prefix]
  exact List.prefix_append start s

theorem validEnvelope_batchOf (events : List (RlmEvent N)) (items : List (Json N)) :
    validEnvelope (batchFields (batchOf events).batchId (batchOf events).checksum items) =
      true :=
  validEnvelope_batchFields _ _ _ (isPrefixedHash_append _ (isHash_sha256 _)) (isHash_sha256 _)

theorem scanBatch_ok {envelope : RecordValue N} {howned : (Json.obj envelope).Owned}
    {line : JsString} {items : List (Json N)} {events : List (RlmEvent N)}
    {expected : JournalBatchRecord N} (henvelope : validEnvelope envelope = true)
    (hget : get envelope (js "events") = some (.arr items)) (hne : items ≠ [])
    (hparse : ∀ h, parseEvents items h = some events) (hsem : validBatchSemantics events = true)
    (hmake : makeBatchRecord events = .ok expected)
    (hid : stringAt envelope (js "batchId") = expected.batchId)
    (hsum : stringAt envelope (js "checksum") = expected.checksum)
    (hline : recordLine expected.toJson = .ok (line ++ [lineFeedUnit])) :
    scanBatch envelope howned line = some expected := by
  unfold scanBatch
  rw [if_pos henvelope]
  split
  case h_1 items' hevents =>
    obtain rfl : items' = items := by
      rw [hget] at hevents
      exact (Json.arr.inj (Option.some.inj hevents)).symm
    rw [if_neg hne]
    dsimp only
    rw [hparse, Option.bind_some, if_pos hsem, hmake]
    exact if_pos ⟨hid, hsum, hline⟩
  case h_2 hother => exact absurd hget (hother items)

theorem validBatchSemantics_ne_nil {events : List (RlmEvent N)}
    (h : validBatchSemantics events = true) : events ≠ [] := by
  rintro rfl
  exact Bool.false_ne_true h

theorem scanRecord_of_batch {envelope : RecordValue N} {howned : (Json.obj envelope).Owned}
    (h : isBatchEnvelope (.obj envelope) = true) (line : JsString) :
    scanRecord ⟨.obj envelope, howned⟩ line =
      (scanBatch envelope howned line).map fun record => (record.events, some record.batchId) := by
  unfold scanRecord
  exact if_pos h

theorem scanRecord_batch {events : List (RlmEvent N)} (hsem : validBatchSemantics events = true) :
    scanRecord ⟨batchLine events, batchLine_owned events⟩ (batchLine events).render =
      some (events.map RlmEvent.canonical, some (batchOf events).batchId) := by
  have hscan : scanBatch _ (batchLine_owned events) (batchLine events).render =
      some (batchOf (events.map RlmEvent.canonical)) := by
    refine scanBatch_ok (validEnvelope_batchOf events _) (get_events_batchFields _ _ _)
      (by simpa using validBatchSemantics_ne_nil hsem) (parseEvents_toJson _)
      ((validBatchSemantics_canonical events).trans hsem) (makeBatchRecord_ok _) ?_ ?_ ?_
    · rw [stringAt_batchId_batchFields, batchOf, batchOf, eventsText_canonical]
    · rw [stringAt_checksum_batchFields, batchOf, batchOf, eventsText_canonical]
    · rw [recordLine_batchOf, batchLine_canonical]
  refine (scanRecord_of_batch (isBatchEnvelope_batchFields _ _ _) _).trans ?_
  rw [hscan, Option.map_some, batchOf, batchOf, eventsText_canonical]

/-! ## The line of a record -/

namespace JournalRecord

/-- The value on the line of the record. -/
def value : JournalRecord N → Json N
  | .event e => e.canonical.toJson
  | .batch es _ => batchLine es

theorem value_owned (record : JournalRecord N) : record.value.Owned := by
  cases record with
  | event e => exact e.canonical.toJson_owned
  | batch es valid => exact batchLine_owned es

theorem line_eq (record : JournalRecord N) :
    record.line = .ok (record.value.render ++ [lineFeedUnit]) := by
  cases record with
  | event e => exact recordLine_event e
  | batch es valid =>
    rw [line, makeBatchRecord_ok]
    exact recordLine_batchOf es

theorem octets_eq (record : JournalRecord N) :
    record.octets = utf8 record.value.render ++ [lineFeed] := by
  rw [octets, line_eq]
  exact utf8_append (render_wellFormed _) _

theorem scanRecord_value (record : JournalRecord N) :
    scanRecord ⟨record.value, record.value_owned⟩ record.value.render =
      some (record.events.map RlmEvent.canonical, record.batchId) := by
  cases record with
  | event e => exact scanRecord_event e.canonical _
  | batch es valid =>
    refine (scanRecord_batch valid).trans ?_
    rw [batchId, makeBatchRecord_ok]
    rfl

end JournalRecord

theorem lineFeed_not_mem_utf8_render (v : Json N) : lineFeed ∉ utf8 v.render := by
  intro hmem
  have hunit := render_units v _ (mem_of_mem_utf8 hmem (by decide))
  exact absurd hunit (by decide)

/-- State of the scan after the line of a record that ends before `endBytes`. -/
def ScanState.next (st : ScanState N) (record : JournalRecord N) (endBytes : Nat) :
    ScanState N :=
  let pushed := st.push (record.events.map RlmEvent.canonical) endBytes
  match record.batchId with
  | none => { pushed with lineStart := endBytes, lineNumber := st.lineNumber + 1 }
  | some batchId =>
    { (if batchId ∈ st.batchIds then st else pushed) with
      batchIds := if batchId ∈ st.batchIds then st.batchIds else st.batchIds ++ [batchId]
      lineStart := endBytes
      lineNumber := st.lineNumber + 1 }

/-- The line of a record is read as the record. -/
theorem scanLine_value (st : ScanState N) (record : JournalRecord N) (i : Nat) :
    scanLine st (utf8 record.value.render) i = .ok (st.next record (i + 1)) := by
  have hnonempty : record.value.render.length ≠ 0 := by
    obtain ⟨u, rest, hrender, -⟩ := render_head record.value
    simp [hrender]
  rw [scanLine, utf8Decode_utf8 (render_wellFormed _), if_neg hnonempty,
    parseJson_render record.value_owned]
  dsimp only
  rw [record.scanRecord_value, ScanState.next]
  cases record.batchId <;> rfl

/-! ## The state of the scan after whole records -/

section Committed

variable (records : List (JournalRecord N)) (record : JournalRecord N)

theorem journalOctets_append (records' : List (JournalRecord N)) :
    journalOctets (records ++ records') = journalOctets records ++ journalOctets records' := by
  rw [journalOctets, List.map_append, List.flatten_append]
  rfl

theorem journalOctets_concat :
    journalOctets (records ++ [record]) = journalOctets records ++ record.octets := by
  have hone : journalOctets [record] = record.octets := by simp [journalOctets]
  rw [journalOctets_append, hone]

/-- What is computed from each record and the ones before it, for one record more. -/
theorem mapIdx_take_concat {α β : Type} (f : List α → α → β) (xs : List α) (x : α) :
    ((xs ++ [x]).mapIdx fun i y => f ((xs ++ [x]).take i) y) =
      (xs.mapIdx fun i y => f (xs.take i) y) ++ [f xs x] := by
  rw [List.mapIdx_concat, List.take_left']
  · congr 1
    apply List.ext_getElem
    · simp
    · intro i h _
      rw [List.length_mapIdx] at h
      rw [List.getElem_mapIdx, List.getElem_mapIdx, List.take_append_of_le_length h.le]
  · rfl

theorem committedEvents_concat :
    committedEvents (records ++ [record]) =
      committedEvents records ++ contribution records record := by
  rw [committedEvents, mapIdx_take_concat contribution, List.flatten_append,
    List.flatten_singleton]
  rfl

theorem committedSpans_concat :
    committedSpans (records ++ [record]) =
      committedSpans records ++ (contribution records record).map fun _ =>
        ((journalOctets records).length, (journalOctets records).length + record.octets.length) := by
  rw [committedSpans, mapIdx_take_concat (fun before r => (contribution before r).map fun _ =>
    ((journalOctets before).length, (journalOctets before).length + r.octets.length)),
    List.flatten_append, List.flatten_singleton]
  rfl

theorem length_committedSpans :
    (committedSpans records).length = (committedEvents records).length := by
  induction records using List.reverseRecOn with
  | nil => rfl
  | append_singleton records record ih =>
    rw [committedSpans_concat, committedEvents_concat, List.length_append, List.length_append,
      List.length_map, ih]

/-- Identities of the batches, each once. -/
def committedBatchIds (records : List (JournalRecord N)) : List JsString :=
  records.foldl (fun ids record =>
    match record.batchId with
    | none => ids
    | some batchId => if batchId ∈ ids then ids else ids ++ [batchId]) []

/-- Positions of the committed events. -/
def committedPositions (records : List (JournalRecord N)) : List JournalEventPosition :=
  (committedSpans records).mapIdx fun i span =>
    { eventIndex := i, prefixBytes := span.1, endBytes := span.2 }

theorem committedBatchIds_concat :
    committedBatchIds (records ++ [record]) =
      match record.batchId with
      | none => committedBatchIds records
      | some batchId =>
        if batchId ∈ committedBatchIds records then committedBatchIds records
        else committedBatchIds records ++ [batchId] := by
  rw [committedBatchIds, List.foldl_append]
  rfl

theorem mem_committedBatchIds {batchId : JsString} :
    batchId ∈ committedBatchIds records ↔ ∃ r ∈ records, r.batchId = some batchId := by
  induction records using List.reverseRecOn with
  | nil => simp [committedBatchIds]
  | append_singleton records record ih =>
    rw [committedBatchIds_concat]
    cases hid : record.batchId with
    | none => simp [ih, hid]
    | some b =>
      simp only [List.mem_append, List.mem_singleton, or_and_right, exists_or, exists_eq_left,
        hid, ← ih]
      split_ifs with hmem
      · constructor
        · exact Or.inl
        · rintro (h | h)
          · exact h
          · obtain rfl := Option.some.inj h
            exact hmem
      · simp [eq_comm]

theorem repeated_eq {batchId : JsString} (hid : record.batchId = some batchId) :
    repeated records record = decide (batchId ∈ committedBatchIds records) := by
  rw [repeated, hid, Option.any_some, Bool.eq_iff_iff, List.any_eq_true, decide_eq_true_eq,
    mem_committedBatchIds]
  simp

/-- The scan after these records and nothing else. -/
def scanned (records : List (JournalRecord N)) : ScanState N where
  events := committedEvents records
  eventPositions := committedPositions records
  batchIds := committedBatchIds records
  lineStart := (journalOctets records).length
  lineNumber := records.length

theorem committedPositions_concat :
    committedPositions (records ++ [record]) =
      committedPositions records ++ (contribution records record).mapIdx fun i _ =>
        { eventIndex := (committedEvents records).length + i
          prefixBytes := (journalOctets records).length
          endBytes := (journalOctets records).length + record.octets.length } := by
  rw [committedPositions, committedSpans_concat, List.mapIdx_append]
  congr 1
  apply List.ext_getElem
  · simp
  · intro i h _
    simp [length_committedSpans, Nat.add_comm]

theorem scanned_concat :
    scanned (records ++ [record]) =
      (scanned records).next record ((journalOctets records).length + record.octets.length) := by
  rw [ScanState.next, scanned, committedEvents_concat, committedPositions_concat,
    journalOctets_concat, committedBatchIds_concat, List.length_append, List.length_append]
  cases hid : record.batchId with
  | none =>
    have hnew : repeated records record = false := by rw [repeated, hid]; rfl
    simp only [contribution, hnew, Bool.false_eq_true, if_false]
    rfl
  | some batchId =>
    rw [contribution, repeated_eq records record hid]
    by_cases hmem : batchId ∈ committedBatchIds records
    · simp [scanned, hmem]
    · simp only [scanned, hmem, decide_false, if_false, Bool.false_eq_true]
      rfl

end Committed

/-! ## The scan of a journal -/

/-- The loop over one line. -/
theorem scanLoop_line {line : List Byte} (hline : lineFeed ∉ line) (rest current : List Byte)
    (i : Nat) (st : ScanState N) :
    scanLoop (line ++ lineFeed :: rest) current i st =
      match scanLine st (current ++ line) (i + line.length) with
      | .error e => .error e
      | .ok st' => scanLoop rest [] (i + line.length + 1) st' := by
  induction line generalizing current i with
  | nil =>
    rw [List.nil_append, scanLoop, if_neg (not_not_intro rfl), List.append_nil]
    rfl
  | cons b line ih =>
    obtain ⟨hb, hline⟩ := List.ne_and_not_mem_of_not_mem_cons hline
    rw [List.cons_append, scanLoop, if_pos hb.symm, ih hline, List.append_assoc, List.length_cons,
      List.singleton_append, Nat.add_right_comm, Nat.add_assoc]

/-- The loop over the octets of a record. -/
theorem scanLoop_octets (record : JournalRecord N) (rest : List Byte) (i : Nat)
    (st : ScanState N) :
    scanLoop (record.octets ++ rest) [] i st =
      scanLoop rest [] (i + record.octets.length) (st.next record (i + record.octets.length)) := by
  rw [record.octets_eq, List.append_assoc, List.singleton_append,
    scanLoop_line (lineFeed_not_mem_utf8_render _), List.nil_append, scanLine_value,
    List.length_append, Nat.add_assoc]
  rfl

/-- Whole records take the loop to their state, whatever follows. -/
theorem scanLoop_records (records : List (JournalRecord N)) (rest : List Byte) :
    scanLoop (journalOctets records ++ rest) [] 0 (scanned ([] : List (JournalRecord N))) =
      scanLoop rest [] (journalOctets records).length (scanned records) := by
  induction records using List.reverseRecOn generalizing rest with
  | nil => rfl
  | append_singleton records record ih =>
    rw [journalOctets_concat, List.append_assoc, ih, scanLoop_octets, scanned_concat,
      List.length_append]

/-! ### Complete lines -/

/-- Octets that end where a line does. -/
def Complete (octets : List Byte) : Prop :=
  octets = [] ∨ octets.getLast? = some lineFeed

/-- The complete lines of a file. -/
def completeOctets (raw : List Byte) : List Byte :=
  raw.take (verifiedLength raw)

theorem Complete.takeWhile_reverse {octets : List Byte} (h : Complete octets) :
    octets.reverse.takeWhile (· ≠ lineFeed) = [] := by
  rcases h with rfl | hlast
  · rfl
  · rw [← List.head?_reverse] at hlast
    obtain ⟨rest, hrest⟩ := List.head?_eq_some_iff.mp hlast
    rw [hrest, List.takeWhile_cons_of_neg (by simp)]

/-- Octets after the last line feed do not count. -/
theorem verifiedLength_append {whole tail : List Byte} (hwhole : Complete whole)
    (htail : lineFeed ∉ tail) : verifiedLength (whole ++ tail) = whole.length := by
  have hindex : lastIndexOf (whole ++ tail) = (whole.length : Int) - 1 := by
    have hall : ∀ b ∈ tail.reverse, decide (b ≠ lineFeed) = true := by
      intro b hb
      exact decide_eq_true fun h => htail (h ▸ List.mem_reverse.mp hb)
    rw [lastIndexOf, List.reverse_append, List.takeWhile_append_of_pos hall,
      hwhole.takeWhile_reverse, List.append_nil, List.length_reverse, List.length_append]
    omega
  unfold verifiedLength
  split_ifs with h
  · -- a file that is empty or ends in a line feed has no tail
    rcases tail.eq_nil_or_concat with rfl | ⟨init, last, rfl⟩
    · rw [List.append_nil]
    · rcases h with h | h
      · simp at h
      · rw [List.concat_eq_append, ← List.append_assoc, List.getLast?_concat] at h
        exact absurd (by simp [Option.some.inj h]) htail
  · rw [hindex]
    omega

theorem completeOctets_append {whole tail : List Byte} (hwhole : Complete whole)
    (htail : lineFeed ∉ tail) : completeOctets (whole ++ tail) = whole := by
  rw [completeOctets, verifiedLength_append hwhole htail, List.take_left]

theorem Complete.completeOctets_eq {octets : List Byte} (h : Complete octets) :
    completeOctets octets = octets := by
  have happend := completeOctets_append h (List.not_mem_nil (a := lineFeed))
  rwa [List.append_nil] at happend

/-- Every file is its complete lines and a tail without a line feed. -/
theorem exists_tail (raw : List Byte) :
    ∃ tail, raw = completeOctets raw ++ tail ∧ lineFeed ∉ tail ∧ Complete (completeOctets raw) := by
  obtain ⟨whole, tail, rfl, hwhole, htail⟩ : ∃ whole tail, raw = whole ++ tail ∧
      Complete whole ∧ lineFeed ∉ tail := by
    refine ⟨(raw.reverse.dropWhile (· ≠ lineFeed)).reverse,
      (raw.reverse.takeWhile (· ≠ lineFeed)).reverse, ?_, ?_, ?_⟩
    · rw [← List.reverse_append, List.takeWhile_append_dropWhile, List.reverse_reverse]
    · rcases hdrop : raw.reverse.dropWhile (· ≠ lineFeed) with _ | ⟨b, rest⟩
      · exact .inl rfl
      · right
        have hb := List.head?_dropWhile_not (fun b : Byte => decide (b ≠ lineFeed)) raw.reverse
        rw [hdrop] at hb
        rw [List.getLast?_reverse]
        simpa using hb
    · intro hmem
      have hne := List.mem_takeWhile_imp (List.mem_reverse.mp hmem)
      simp at hne
  rw [completeOctets_append hwhole htail]
  exact ⟨tail, rfl, htail, hwhole⟩

theorem length_completeOctets (raw : List Byte) :
    (completeOctets raw).length = verifiedLength raw := by
  obtain ⟨tail, hraw, htail, hwhole⟩ := exists_tail raw
  have hlength := verifiedLength_append hwhole htail
  rw [← hraw] at hlength
  exact hlength.symm

/-- What a scan that ends in this state returns. -/
def ScanState.toScan (st : ScanState N) (verifiedBytes : Nat) : JournalScan N where
  events := st.events
  eventPositions := st.eventPositions
  verifiedBytes := verifiedBytes
  batchIds := st.batchIds

theorem scanJournal_eq (raw : List Byte) :
    scanJournal raw =
      (scanLoop (completeOctets raw) [] 0 (scanned ([] : List (JournalRecord N)))).map
        fun st => st.toScan (completeOctets raw).length := by
  rw [length_completeOctets]
  rfl

/-- The scan depends on the complete lines only. -/
theorem scanJournal_congr {raw raw' : List Byte} (h : completeOctets raw = completeOctets raw') :
    scanJournal (N := N) raw = scanJournal raw' := by
  rw [scanJournal_eq, scanJournal_eq, h]

/-- The loop over complete lines, and then over the rest. -/
theorem scanLoop_append {whole current : List Byte}
    (hwhole : whole.getLast? = some lineFeed ∨ whole = [] ∧ current = []) (rest : List Byte)
    (i : Nat) (st : ScanState N) :
    scanLoop (whole ++ rest) current i st =
      (scanLoop whole current i st).bind fun st' => scanLoop rest [] (i + whole.length) st' := by
  induction whole generalizing current i st with
  | nil =>
    obtain ⟨-, rfl⟩ := hwhole.resolve_left (by simp)
    rfl
  | cons b whole ih =>
    have hlast := hwhole.resolve_right (by simp)
    have hcount : i + (b :: whole).length = i + 1 + whole.length := by
      rw [List.length_cons]
      omega
    rw [List.cons_append, scanLoop, scanLoop, hcount]
    by_cases hb : b = lineFeed
    · subst hb
      rw [if_neg (not_not_intro rfl), if_neg (not_not_intro rfl)]
      cases scanLine st current i with
      | error e => rfl
      | ok st' =>
        apply ih
        cases whole with
        | nil => exact .inr ⟨rfl, rfl⟩
        | cons c whole => exact .inl (by rwa [List.getLast?_cons_cons] at hlast)
    · rw [if_pos hb, if_pos hb]
      apply ih
      cases whole with
      | nil => exact absurd (by simpa using hlast) hb
      | cons c whole => exact .inl (by rwa [List.getLast?_cons_cons] at hlast)

/-- One record more after complete lines that scan. -/
theorem scanJournal_append_octets {whole : List Byte} {scan : JournalScan N}
    (hwhole : Complete whole) (hscan : scanJournal whole = .ok scan)
    (record : JournalRecord N) :
    ∃ scan', scanJournal (whole ++ record.octets) = .ok scan' ∧
      scan'.events = scan.events ++
        (if record.batchId.any (· ∈ scan.batchIds) then []
        else record.events.map RlmEvent.canonical) ∧
      scan'.verifiedBytes = (whole ++ record.octets).length ∧
      ∀ id ∈ record.batchId, id ∈ scan'.batchIds := by
  have hcomplete : Complete (whole ++ record.octets) := by
    right
    rw [record.octets_eq, ← List.append_assoc, List.getLast?_concat]
  have hstart : whole.getLast? = some lineFeed ∨ whole = [] ∧ ([] : List Byte) = [] :=
    hwhole.symm.imp_right fun h => ⟨h, rfl⟩
  rw [scanJournal_eq, hwhole.completeOctets_eq] at hscan
  obtain ⟨st, hst, rfl⟩ : ∃ st, scanLoop whole [] 0 (scanned ([] : List (JournalRecord N))) =
      .ok st ∧ st.toScan whole.length = scan := by
    cases hloop : scanLoop whole [] 0 (scanned ([] : List (JournalRecord N))) with
    | error e => rw [hloop] at hscan; cases hscan
    | ok st =>
      rw [hloop] at hscan
      exact ⟨st, rfl, Except.ok.inj hscan⟩
  have hone := scanLoop_octets record [] (0 + whole.length) st
  rw [List.append_nil, scanLoop] at hone
  refine ⟨(st.next record (0 + whole.length + record.octets.length)).toScan
    (whole ++ record.octets).length, ?_, ?_, rfl, ?_⟩
  · rw [scanJournal_eq, hcomplete.completeOctets_eq, scanLoop_append hstart, hst]
    show (scanLoop record.octets [] (0 + whole.length) st).map _ = _
    rw [hone]
    rfl
  · rw [ScanState.next]
    cases record.batchId with
    | none => rfl
    | some batchId =>
      by_cases hmem : batchId ∈ st.batchIds
      · simp [ScanState.toScan, hmem]
      · simp [ScanState.toScan, ScanState.push, hmem]
  · intro id hid
    rw [Option.mem_def] at hid
    by_cases hmem : id ∈ st.batchIds <;> simp [ScanState.toScan, ScanState.next, hid, hmem]

theorem complete_journalOctets (records : List (JournalRecord N)) :
    Complete (journalOctets records) := by
  induction records using List.reverseRecOn with
  | nil => exact .inl rfl
  | append_singleton records record _ =>
    right
    rw [journalOctets_concat, record.octets_eq, ← List.append_assoc, List.getLast?_concat]

/-- The scan of whole records and a torn tail. -/
theorem scanJournal_append (records : List (JournalRecord N)) {tail : List Byte}
    (htail : lineFeed ∉ tail) :
    scanJournal (journalOctets records ++ tail) =
      .ok ((scanned records).toScan (journalOctets records).length) := by
  have hloop := scanLoop_records records []
  rw [List.append_nil, scanLoop] at hloop
  rw [scanJournal_eq, completeOctets_append (complete_journalOctets records) htail, hloop]
  rfl

/-- A journal cut anywhere is the records wholly before the cut, and a tail without a
    line feed. -/
theorem journalOctets_take (records : List (JournalRecord N)) (offset : Nat) :
    ∃ n ≤ records.length, ∃ tail,
      (journalOctets records).take offset = journalOctets (records.take n) ++ tail ∧
      lineFeed ∉ tail ∧
      ∀ m ≤ records.length,
        (journalOctets (records.take m)).length ≤ ((journalOctets records).take offset).length ↔
          m ≤ n := by
  induction records generalizing offset with
  | nil =>
    refine ⟨0, le_rfl, [], by simp [journalOctets], List.not_mem_nil, fun m hm => ?_⟩
    obtain rfl := Nat.le_zero.mp hm
    simp [journalOctets]
  | cons record records ih =>
    have hcons : ∀ rs : List (JournalRecord N),
        journalOctets (record :: rs) = record.octets ++ journalOctets rs := fun _ => rfl
    have hlength : record.octets.length = (utf8 record.value.render).length + 1 := by
      rw [record.octets_eq, List.length_append]
      rfl
    rcases Nat.lt_or_ge offset record.octets.length with hlt | hge
    · refine ⟨0, Nat.zero_le _, (utf8 record.value.render).take offset, ?_, ?_, ?_⟩
      · rw [hcons, List.take_append_of_le_length hlt.le, record.octets_eq,
          List.take_append_of_le_length (by omega)]
        rfl
      · exact fun h => lineFeed_not_mem_utf8_render _ (List.mem_of_mem_take h)
      · intro m _
        cases m with
        | zero => simp [journalOctets]
        | succ m =>
          rw [List.take_succ_cons, hcons, hcons, List.length_append, List.length_take]
          omega
    · obtain ⟨n, hn, tail, htake, htail, hmax⟩ := ih (offset - record.octets.length)
      refine ⟨n + 1, Nat.succ_le_succ hn, tail, ?_, htail, ?_⟩
      · rw [hcons, List.take_append, List.take_of_length_le hge, htake, List.take_succ_cons,
          hcons, List.append_assoc]
      · intro m hm
        cases m with
        | zero => simp [journalOctets]
        | succ m =>
          have hstep := hmax m (Nat.le_of_succ_le_succ hm)
          rw [hcons, List.take_append, List.take_of_length_le hge, List.take_succ_cons, hcons,
            List.length_append, List.length_append, Nat.add_le_add_iff_left, hstep,
            Nat.succ_le_succ_iff]

/-- A journal cut at any octet scans to the records wholly before the cut. -/
theorem scanJournal_take (records : List (JournalRecord N)) (offset : Nat) :
    (∀ record ∈ records, ∃ line, record.line = .ok line) ∧
    ∃ n ≤ records.length,
      (∀ m ≤ records.length,
        (journalOctets (records.take m)).length ≤ ((journalOctets records).take offset).length ↔
          m ≤ n) ∧
      ∃ scan : JournalScan N,
        scanJournal ((journalOctets records).take offset) = .ok scan ∧
        scan.verifiedBytes = (journalOctets (records.take n)).length ∧
        scan.events = committedEvents (records.take n) ∧
        scan.eventPositions = committedPositions (records.take n) := by
  refine ⟨fun record _ => ⟨_, record.line_eq⟩, ?_⟩
  obtain ⟨n, hn, tail, htake, htail, hmax⟩ := journalOctets_take records offset
  have hscan := scanJournal_append (records.take n) htail
  rw [← htake] at hscan
  exact ⟨n, hn, hmax, _, hscan, rfl, rfl, rfl⟩

end PiRlm.Shell

/-
  PiRlm.Runtime.RunInspectionSound

  One page of an inspection.

  A page states its own length, a cursor is read back as it was issued, and the authority
  that a cursor names is read again from a journal that has grown.
-/
import Mathlib
import PiRlm.Lib.JsonLength
import PiRlm.Runtime.RunInspection
import PiRlm.Runtime.RunWriterRecords

namespace PiRlm.Runtime

open PiRlm.Lib PiRlm.Core PiRlm.Shell

-- ============================================================================
-- Canonical texts and their lengths
-- ============================================================================

section Lengths

variable {N : Type} [JsonNumber N]

theorem stringify_ok {v : Json N} (h : v.depth ≤ maxJsonDepth) :
    stringify v = .ok (canonical v).render := by
  rw [stringify, canonicalStringify_ok h]

/-- The length of the canonical text of an object, from its members in any order. -/
theorem octetLength_canonical_obj {fields : RecordValue N} (hne : fields ≠ [])
    (hnodup : (fields.map Prod.fst).Nodup) :
    octetLength (canonical (.obj fields)).render =
      (fields.map fun f => Json.memberLength (f.1, canonical f.2)).sum + 1 := by
  have hperm : (ownOrder Prod.fst (sortBy Prod.fst fields)).Perm fields :=
    (ownOrder_perm _).trans (sortBy_perm fields)
  rw [canonical_obj_of_nodup hnodup, Json.octetLength_obj, List.map_map]
  · exact congrArg (· + 1) (hperm.map _).sum_eq
  · intro hnil
    exact hne (hperm.symm.trans (List.map_eq_nil_iff.mp hnil ▸ List.Perm.refl _)).eq_nil

end Lengths

theorem isHash_length {s : JsString} (h : isHash s = true) : s.length = 64 := by
  rw [isHash, Bool.and_eq_true, beq_iff_eq] at h
  exact h.1

theorem isPrefixedHash_split {start s : JsString} (h : isPrefixedHash start s = true) :
    ∃ hash, s = start ++ hash ∧ isHash hash = true := by
  rw [isPrefixedHash, Bool.and_eq_true, List.isPrefixOf_iff_prefix] at h
  obtain ⟨⟨hash, rfl⟩, hhash⟩ := h
  rw [List.drop_left] at hhash
  exact ⟨hash, rfl, hhash⟩

-- ============================================================================
-- The depth of items
-- ============================================================================

section Depth

variable {N : Type} [JsonNumber N]

theorem get_depth (event : Shell.RlmEvent N) {key : JsString} {v : Json N}
    (h : get event.fields key = some v) : v.depth + 1 ≤ maxEventDepth := by
  have hdepth := event.toJson_depth
  rw [Shell.RlmEvent.toJson, Json.depth, Json.depthFields_le] at hdepth
  obtain ⟨f, hf, rfl⟩ := Option.map_eq_some_iff.mp h
  exact hdepth f (List.mem_of_find?_eq_some hf)

theorem getD_depth (event : Shell.RlmEvent N) (key : JsString) :
    ((get event.fields key).getD .null).depth + 1 ≤ maxEventDepth := by
  rcases hget : get event.fields key with _ | v
  · exact (by decide : 0 + 1 ≤ maxEventDepth)
  · exact get_depth event hget

omit [JsonNumber N] in
theorem present_depth {key : JsString} {value : Option (Json N)} {d : Nat}
    (h : ∀ v ∈ value, v.depth + 1 ≤ d) : ∀ f ∈ present key value, f.2.depth + 1 ≤ d := by
  intro f hf
  obtain ⟨v, hv, rfl⟩ := List.mem_map.mp hf
  exact h v (Option.mem_toList.mp hv)

theorem textIdentity_depth (text : JsString) : (textIdentity N text).depth = 1 := rfl

theorem errorMetadata_depth (code : JsString) (message : Option JsString) :
    (errorMetadata N code message).depth ≤ 2 := by
  rw [errorMetadata, Json.depth, Json.depthFields_le]
  split <;> rcases message with _ | message <;>
    simp [textIdentity_depth, Json.depth]

namespace Observations

variable (seen : Observations N)

theorem runError_depth : ∀ error ∈ seen.runError, error.depth ≤ 2 := by
  intro error herror
  obtain ⟨event, -, rfl⟩ := Option.map_eq_some_iff.mp herror
  exact errorMetadata_depth _ _

theorem cellError_depth (cell : Shell.RlmEvent N) : ∀ error ∈ cellError cell, error.depth ≤ 2 := by
  intro error herror
  obtain ⟨fields, -, rfl⟩ := Option.map_eq_some_iff.mp herror
  exact errorMetadata_depth _ _

omit [JsonNumber N] in
/-- An object whose values are as deep as an event allows. -/
theorem depth_item {fields : RecordValue N} (h : ∀ f ∈ fields, f.2.depth + 1 ≤ maxEventDepth) :
    (Json.obj fields).depth ≤ maxEventDepth := by
  rw [Json.depth, Json.depthFields_le]
  exact h

theorem summaryItems_depth (model : RecoveryJournalModel N) (eventCount : Nat) :
    ∀ item ∈ seen.summaryItems model eventCount, item.depth ≤ maxEventDepth := by
  intro item hitem
  rw [summaryItems, List.mem_singleton] at hitem
  subst hitem
  refine depth_item ?_
  simp only [List.forall_mem_append, List.forall_mem_cons, List.not_mem_nil, false_imp_iff,
    implies_true, and_true, Json.depth, number]
  refine ⟨⟨by decide, present_depth ?_⟩, present_depth fun error herror => ?_⟩
  · intro v hv
    obtain ⟨event, -, rfl⟩ := Option.map_eq_some_iff.mp hv
    exact (by decide : 0 + 1 ≤ maxEventDepth)
  · have := seen.runError_depth error herror
    have : maxEventDepth = 5 := rfl
    omega

theorem frameItem_depth (event : Shell.RlmEvent N) :
    (seen.frameItem event).depth ≤ maxEventDepth := by
  refine depth_item ?_
  simp only [List.forall_mem_append, List.forall_mem_cons, List.not_mem_nil, false_imp_iff,
    implies_true, and_true, Json.depth, number]
  refine ⟨⟨by decide, by decide, getD_depth event _, getD_depth event _, by decide⟩,
    present_depth fun v hv => ?_⟩
  obtain ⟨text, -, rfl⟩ := Option.map_eq_some_iff.mp hv
  exact (by decide : 1 + 1 ≤ maxEventDepth)

theorem cellItem_depth (cell : Shell.RlmEvent N) : (cellItem cell).depth ≤ maxEventDepth := by
  refine depth_item ?_
  simp only [List.forall_mem_append, List.forall_mem_cons, List.not_mem_nil, false_imp_iff,
    implies_true, and_true, Json.depth]
  have hget : ∀ key, ∀ v ∈ get cell.fields key, v.depth + 1 ≤ maxEventDepth :=
    fun key v hv => get_depth cell hv
  refine ⟨⟨⟨⟨⟨⟨by decide, by decide, getD_depth cell _, by decide, getD_depth cell _⟩,
    present_depth (hget _)⟩, present_depth (hget _)⟩, present_depth (hget _)⟩,
    present_depth (hget _)⟩, present_depth fun error herror => ?_⟩
  have := cellError_depth cell error herror
  have : maxEventDepth = 5 := rfl
  omega

theorem callItem_depth (executions : List (Shell.RlmEvent N)) (call : Shell.RlmEvent N) :
    (seen.callItem executions call).depth ≤ maxEventDepth := by
  refine depth_item ?_
  simp only [List.forall_mem_append, List.forall_mem_cons, List.not_mem_nil, false_imp_iff,
    implies_true, and_true, Json.depth, number, textIdentity_depth]
  have hget : ∀ key, ∀ v ∈ get call.fields key, v.depth + 1 ≤ maxEventDepth :=
    fun key v hv => get_depth call hv
  refine ⟨⟨⟨⟨⟨⟨by decide, by decide, by decide, by decide, by decide, by decide,
    getD_depth call _, getD_depth call _⟩, present_depth (hget _)⟩, present_depth (hget _)⟩,
    by decide⟩, present_depth fun v hv => ?_⟩, present_depth fun v hv => ?_⟩
  · obtain ⟨last, -, rfl⟩ := Option.map_eq_some_iff.mp hv
    exact (by decide : 0 + 1 ≤ maxEventDepth)
  · obtain ⟨code, -, rfl⟩ := Option.map_eq_some_iff.mp hv
    exact (by decide : 1 + 1 ≤ maxEventDepth)

theorem errorItems_depth (selected : JsString → Bool) (frameFilter : Option JsString) :
    ∀ item ∈ seen.errorItems selected frameFilter, item.depth ≤ maxEventDepth := by
  have hsmall : ∀ error : Json N, error.depth ≤ 2 → error.depth + 1 ≤ maxEventDepth := by
    intro error herror
    have : maxEventDepth = 5 := rfl
    omega
  have hzero : 0 + 1 ≤ maxEventDepth := by decide
  rw [errorItems]
  simp only [List.forall_mem_append, List.mem_filterMap, Option.bind_eq_some_iff]
  refine ⟨⟨?_, ?_⟩, ?_⟩
  · rintro item ⟨entry, -, error, herror, hitem⟩
    split at hitem
    · obtain rfl := Option.some.inj hitem
      refine depth_item ?_
      simp only [List.forall_mem_cons, List.not_mem_nil, false_imp_iff, implies_true, and_true,
        Json.depth]
      exact ⟨hzero, hzero, hzero, getD_depth entry.2 _, hsmall _ (cellError_depth _ _ herror)⟩
    · exact absurd hitem (by simp)
  · rintro item ⟨attempt, -, code, -, hitem⟩
    split at hitem
    · obtain rfl := Option.some.inj hitem
      refine depth_item ?_
      simp only [List.forall_mem_cons, List.not_mem_nil, false_imp_iff, implies_true, and_true,
        Json.depth]
      exact ⟨hzero, hzero, hzero, hzero, hsmall _ (errorMetadata_depth _ _)⟩
    · exact absurd hitem (by simp)
  · intro item hitem
    split at hitem
    · obtain ⟨error, herror, rfl⟩ := List.mem_map.mp hitem
      refine depth_item ?_
      simp only [List.forall_mem_cons, List.not_mem_nil, false_imp_iff, implies_true, and_true,
        Json.depth]
      exact ⟨hzero, hzero, hsmall _ (seen.runError_depth _ (Option.mem_toList.mp herror))⟩
    · exact absurd hitem List.not_mem_nil

variable [JsonArithmetic N]

theorem budgetItems_depth {model : RecoveryJournalModel N} {limits : Json N} {items : List (Json N)}
    (hlimits : limits.depth ≤ 1) (h : seen.budgetItems model limits = .ok items) :
    ∀ item ∈ items, item.depth ≤ maxEventDepth := by
  simp only [budgetItems, bind_eq_ok] at h
  obtain ⟨_, -, _, -, _, -, _, -, _, -, _, -, h⟩ := h
  obtain rfl := Except.ok.inj h
  rw [List.forall_mem_singleton]
  refine depth_item ?_
  simp only [List.forall_mem_cons, List.not_mem_nil, false_imp_iff, implies_true, and_true,
    Json.depth, number, Json.depthFields]
  have : maxEventDepth = 5 := rfl
  omega

end Observations

omit [JsonNumber N] in
/-- The last check of `project`. -/
theorem guarded_eq_ok {listed : Except InspectionFailure (List (Json N))} {items : List (Json N)} :
    (do let items ← listed; guardItems items.length; pure items) = .ok items ↔
      listed = .ok items ∧ items.length ≤ maxRunInspectionAggregateItems := by
  have hguard : ∀ size u, guardItems size = .ok u ↔ size ≤ maxRunInspectionAggregateItems := by
    intro size u
    rw [guardItems]
    split
    · exact ⟨nofun, fun hle => absurd hle (by omega)⟩
    · exact ⟨fun _ => by omega, fun _ => rfl⟩
  simp only [bind_eq_ok, hguard]
  constructor
  · rintro ⟨listed, hlisted, -, hlength, hitems⟩
    obtain rfl := Except.ok.inj hitems
    exact ⟨hlisted, hlength⟩
  · rintro ⟨hlisted, hlength⟩
    exact ⟨items, hlisted, (), hlength, rfl⟩

/-- An item is no deeper than an event, and there are not too many. -/
theorem project_bounds [JsonArithmetic N] {view : RunInspectionView}
    {events : List (Shell.RlmEvent N)} {model : RecoveryJournalModel N} {limits : Json N}
    {frameFilter : Option JsString} {items : List (Json N)} (hlimits : limits.depth ≤ 1)
    (h : project view events model limits frameFilter = .ok items) :
    (∀ item ∈ items, item.depth ≤ maxEventDepth) ∧
      items.length ≤ maxRunInspectionAggregateItems := by
  rw [project] at h
  obtain ⟨seen, -, h⟩ := bind_eq_ok.mp h
  cases view with
  | summary =>
    obtain ⟨hlisted, hlength⟩ := guarded_eq_ok.mp h
    obtain rfl := Except.ok.inj hlisted
    exact ⟨seen.summaryItems_depth model events.length, hlength⟩
  | frames =>
    obtain ⟨hlisted, hlength⟩ := guarded_eq_ok.mp h
    obtain rfl := Except.ok.inj hlisted
    refine ⟨?_, hlength⟩
    rw [List.forall_mem_map]
    exact fun event _ => seen.frameItem_depth event
  | cells =>
    obtain ⟨hlisted, hlength⟩ := guarded_eq_ok.mp h
    obtain rfl := Except.ok.inj hlisted
    refine ⟨?_, hlength⟩
    rw [List.forall_mem_map]
    exact fun cell _ => Observations.cellItem_depth cell
  | calls =>
    obtain ⟨hlisted, hlength⟩ := guarded_eq_ok.mp h
    obtain rfl := Except.ok.inj hlisted
    refine ⟨?_, hlength⟩
    intro item hitem
    obtain ⟨executions, -, hitem⟩ := List.mem_filterMap.mp hitem
    split at hitem
    · obtain ⟨call, -, rfl⟩ := Option.map_eq_some_iff.mp hitem
      exact seen.callItem_depth executions call
    · exact absurd hitem nofun
  | budget =>
    obtain ⟨hlisted, hlength⟩ := guarded_eq_ok.mp h
    exact ⟨seen.budgetItems_depth hlimits hlisted, hlength⟩
  | errors =>
    obtain ⟨hlisted, hlength⟩ := guarded_eq_ok.mp h
    obtain rfl := Except.ok.inj hlisted
    exact ⟨seen.errorItems_depth _ frameFilter, hlength⟩

end Depth

-- ============================================================================
-- A page that states its own length
-- ============================================================================

namespace RunInspectionPage

variable {N : Type} [JsonNumber N]

/-- The members of a page besides its length. -/
def members (page : RunInspectionPage N) : RecordValue N :=
  [(js "version", number N 1), (js "runName", .str page.runName), (js "runId", .str page.runId),
    (js "manifestHash", .str page.manifestHash),
    (js "journalPrefixSha256", .str page.journalPrefixSha256),
    (js "eventCount", number N page.eventCount), (js "view", .str page.view.text),
    (js "items", .arr page.items)] ++ present (js "nextCursor") (page.nextCursor.map .str)

/-- The length of a page without the digits of its length. -/
def base (page : RunInspectionPage N) : Nat :=
  (page.members.map fun f => Json.memberLength (f.1, canonical f.2)).sum +
    octetLength (quote (js "serializedBytes")) + 3

/-- The page that states this length. -/
def sized (page : RunInspectionPage N) (serializedBytes : Nat) : RunInspectionPage N :=
  { page with serializedBytes }

/-- The items are not nested too deeply for a page. -/
def Shallow (page : RunInspectionPage N) : Prop :=
  ∀ item ∈ page.items, item.depth + 2 ≤ maxJsonDepth

/-- The keys of a page with or without a cursor. -/
def pageKeys (cursor : List JsString) : List JsString :=
  [js "version", js "runName", js "runId", js "manifestHash", js "journalPrefixSha256",
    js "eventCount", js "view", js "items"] ++ cursor ++ [js "serializedBytes"]

theorem toJson_keys_nodup (page : RunInspectionPage N) (bytes : Json N) :
    ((page.members ++ [(js "serializedBytes", bytes)]).map Prod.fst).Nodup := by
  rcases hcursor : page.nextCursor with _ | cursor
  · have hkeys : (pageKeys []).Nodup := by decide
    rw [members, hcursor]
    exact hkeys
  · have hkeys : (pageKeys [js "nextCursor"]).Nodup := by decide
    rw [members, hcursor]
    exact hkeys

theorem toJson_depth {page : RunInspectionPage N} (h : page.Shallow) :
    page.toJson.depth ≤ maxJsonDepth := by
  have hitems : Json.depthItems page.items + 1 ≤ maxJsonDepth := by
    have hle : Json.depthItems page.items ≤ maxJsonDepth - 1 :=
      Json.depthItems_le.mpr fun item hitem => by
        have := h item hitem
        omega
    have : 0 < maxJsonDepth := by decide
    omega
  rw [toJson, Json.depth, Json.depthFields_le]
  rcases hcursor : page.nextCursor with _ | cursor
  all_goals
    simp only [present, Option.map_none, Option.map_some, Option.toList_none, Option.toList_some,
      List.map_nil, List.map_cons, List.append_nil, List.cons_append, List.nil_append,
      List.forall_mem_cons, List.not_mem_nil, false_imp_iff, implies_true, and_true, Json.depth,
      number]
    have : 0 < maxJsonDepth := by decide
    omega

/-- The length of a page that states a length. -/
theorem encodedBytes_sized {page : RunInspectionPage N} (h : page.Shallow) (bytes : Nat) :
    (page.sized bytes).encodedBytes =
      .ok (page.base + (JsonNumber.text (JsonNumber.ofNat bytes : N)).length) := by
  have hshallow : (page.sized bytes).Shallow := h
  have hdepth : (page.sized bytes).toJson.depth ≤ maxJsonDepth := toJson_depth hshallow
  have hne : page.members ++ [(js "serializedBytes", number N bytes)] ≠ [] := by simp
  have hlength := octetLength_canonical_obj hne (page.toJson_keys_nodup _)
  have hlast : Json.memberLength (js "serializedBytes", canonical (number N bytes)) =
      octetLength (quote (js "serializedBytes")) +
        (JsonNumber.text (JsonNumber.ofNat bytes : N)).length + 2 := by
    rw [Json.memberLength]
    exact congrArg (octetLength (quote (js "serializedBytes")) + · + 2) (Json.octetLength_num _)
  rw [List.map_append, List.sum_append, List.map_singleton, List.sum_singleton, hlast] at hlength
  rw [encodedBytes, stringify_ok hdepth]
  refine congrArg Except.ok (hlength.trans ?_)
  rw [base]
  omega

/-- A further attempt, from a page that states a length. -/
theorem measure_succ {page : RunInspectionPage N} (h : page.Shallow) (attempt bytes : Nat) :
    measure (attempt + 1) (page.sized bytes) =
      if page.base + (JsonNumber.text (JsonNumber.ofNat bytes : N)).length = bytes then
        .ok (page.sized bytes)
      else measure attempt
        (page.sized (page.base + (JsonNumber.text (JsonNumber.ofNat bytes : N)).length)) := by
  rw [measure, encodedBytes_sized h]
  rfl

/-- Every length that `measuredPage` arrives at counts at least one digit. -/
theorem exists_measure {page : RunInspectionPage N} (h : page.Shallow) (attempt : Nat) :
    ∀ bytes, page.base < bytes →
      ∃ bytes', measure attempt (page.sized bytes) = .ok (page.sized bytes') ∧
        page.base < bytes' := by
  induction attempt with
  | zero => exact fun bytes hbytes => ⟨bytes, rfl, hbytes⟩
  | succ attempt ih =>
    intro bytes hbytes
    rw [measure_succ h]
    split
    · exact ⟨bytes, rfl, hbytes⟩
    · refine ih _ ?_
      have := List.length_pos_iff.mpr
        (isNumberLiteral_ne_nil (JsonNumber.text_isNumberLiteral (JsonNumber.ofNat bytes : N)))
      omega

/-- A page states the length of its own text, when it is within the limit. -/
theorem measuredPage_ok [DecimalNumber N] {page : RunInspectionPage N} (h : page.Shallow) :
    ∃ bytes, page.measuredPage = .ok (page.sized bytes) ∧ page.base < bytes ∧
      (page.base < maxRunInspectionPageBytes → bytes ≤ page.base + 16 ∧
        (page.sized bytes).encodedBytes = .ok bytes) := by
  have hstart : page.measuredPage = measure 3
      (page.sized (page.base + (JsonNumber.text (JsonNumber.ofNat 0 : N)).length)) := by
    have hpos := List.length_pos_iff.mpr
      (isNumberLiteral_ne_nil (JsonNumber.text_isNumberLiteral (JsonNumber.ofNat 0 : N)))
    refine (measure_succ h 3 0).trans (if_neg ?_)
    omega
  have hdecimal : ∀ n, n ≤ maxSafeInteger →
      (JsonNumber.text (JsonNumber.ofNat n : N)).length = (decimal n).length :=
    fun n hn => congrArg List.length (DecimalNumber.text_ofNat n hn)
  rw [hstart, hdecimal 0 (Nat.zero_le _)]
  by_cases hbase : page.base < maxRunInspectionPageBytes
  · -- every estimate is a safe integer, so that its digits are those of the page
    have hdigits : ∀ n, n ≤ maxSafeInteger → (decimal n).length ≤ 16 := by
      intro n hn
      have : maxSafeInteger < 10 ^ (15 + 1) := by decide
      exact length_decimal_le (by omega)
    have hmax : maxRunInspectionPageBytes + 16 ≤ maxSafeInteger := by decide
    let first := page.base + 1
    let second := page.base + (decimal first).length
    let third := page.base + (decimal second).length
    have hfirst : first ≤ maxSafeInteger := by omega
    have hsecond : second ≤ page.base + 16 := Nat.add_le_add_left (hdigits first hfirst) _
    have hthird : third ≤ page.base + 16 :=
      Nat.add_le_add_left (hdigits second (by omega)) _
    have hfixed : page.base + (decimal third).length = third :=
      congrArg (page.base + ·) (length_decimal_estimate page.base)
    have hstep : ∀ attempt n, n ≤ maxSafeInteger → measure (attempt + 1) (page.sized n) =
        if page.base + (decimal n).length = n then .ok (page.sized n)
        else measure attempt (page.sized (page.base + (decimal n).length)) := by
      intro attempt n hn
      rw [measure_succ h, hdecimal n hn]
    have hmeasured : ∀ n, n ≤ maxSafeInteger → page.base + (decimal n).length = n →
        (page.sized n).encodedBytes = .ok n := by
      intro n hn hlength
      rw [encodedBytes_sized h, hdecimal n hn, hlength]
    show ∃ bytes, measure 3 (page.sized first) = _ ∧ _
    by_cases h1 : second = first
    · refine ⟨first, (hstep 2 first hfirst).trans (if_pos h1), ?_, fun _ => ⟨?_, ?_⟩⟩
      · exact Nat.lt_succ_self _
      · omega
      · exact hmeasured first hfirst h1
    · rw [hstep 2 first hfirst, if_neg h1]
      by_cases h2 : third = second
      · refine ⟨second, (hstep 1 second (by omega)).trans (if_pos h2), ?_, fun _ => ⟨hsecond, ?_⟩⟩
        · have := length_decimal_pos first
          omega
        · exact hmeasured second (by omega) h2
      · rw [hstep 1 second (by omega), if_neg h2]
        refine ⟨third, (hstep 0 third (by omega)).trans (if_pos hfixed), ?_,
          fun _ => ⟨hthird, ?_⟩⟩
        · have := length_decimal_pos second
          omega
        · exact hmeasured third (by omega) hfixed
  · obtain ⟨bytes, hbytes, hlt⟩ := exists_measure h 3 (page.base + (decimal 0).length)
      (Nat.lt_succ_self _)
    exact ⟨bytes, hbytes, hlt, fun hlow => absurd hlow hbase⟩

end RunInspectionPage

-- ============================================================================
-- A cursor that is read back
-- ============================================================================

theorem textDecode_render {N : Type} [JsonNumber N] (v : Json N) :
    textDecode (utf8 v.render) = some v.render := by
  obtain ⟨u, rest, hrender, -, -, hascii⟩ := Json.render_head v
  rw [textDecode, utf8DecodeFatal_utf8 (Json.render_wellFormed v), Option.map_some, hrender]
  refine congrArg some (if_neg ?_)
  rintro rfl
  exact absurd hascii (by decide)

theorem viewOf_text (view : RunInspectionView) : viewOf view.text = some view := by
  cases view <;> rfl

theorem view_length (view : RunInspectionView) : view.text.length ≤ 7 := by
  cases view <;> decide

theorem integerMember_number {N : Type} [JsonNumber N] (value : RecordValue N) (key : JsString)
    {n minimum maximum : Nat} (hget : get value key = some (number N n)) (hmin : minimum ≤ n)
    (hmax : n ≤ maximum) (hsafe : n ≤ maxSafeInteger) :
    integerMember value key minimum maximum = some n := by
  have hvalue : JsonNumber.value (JsonNumber.ofNat n : N) = n := JsonNumber.value_ofNat n hsafe
  rw [integerMember, hget]
  show (if _ then some _ else none) = _
  rw [if_pos]
  · rw [hvalue, Rat.num_natCast, Int.toNat_natCast]
  · rw [hvalue]
    exact ⟨isSafeInteger_ofNat hsafe, by exact_mod_cast hmin, by exact_mod_cast hmax⟩

namespace CursorV1

/-- The members of a cursor are within the bounds that a request checks. -/
structure Valid (cursor : CursorV1) : Prop where
  runId : isPrefixedHash (js "run_") cursor.runId = true
  manifestHash : isHash cursor.manifestHash = true
  journalPrefixSha256 : isHash cursor.journalPrefixSha256 = true
  filterHash : isHash cursor.filterHash = true
  prefixBytes_pos : 1 ≤ cursor.prefixBytes
  prefixBytes_le : cursor.prefixBytes ≤ maxRecoveryJournalBytes
  eventCount_pos : 1 ≤ cursor.eventCount
  eventCount_le : cursor.eventCount ≤ maxRunInspectionEvents
  offset_pos : 1 ≤ cursor.offset
  offset_le : cursor.offset ≤ maxRunInspectionAggregateItems

variable (N : Type) [JsonNumber N] (cursor : CursorV1) (key : List Byte)

/-- The members of a payload in the order of its text. -/
def members : RecordValue N :=
  [(js "eventCount", number N cursor.eventCount), (js "filterHash", .str cursor.filterHash),
    (js "journalPrefixSha256", .str cursor.journalPrefixSha256),
    (js "manifestHash", .str cursor.manifestHash), (js "offset", number N cursor.offset),
    (js "prefixBytes", number N cursor.prefixBytes), (js "runId", .str cursor.runId),
    (js "version", number N 1), (js "view", .str cursor.view.text)]

/-- The keyed hash of a payload. -/
def mac : JsString :=
  Sha256.hmac key (utf8 (Json.obj (cursor.members N)).render)

/-- The members of an envelope in the order of its text. -/
def envelope : RecordValue N :=
  [(js "mac", .str (cursor.mac N key)), (js "payload", .obj (cursor.members N))]

theorem canonical_toJson : canonical (cursor.toJson N) = .obj (cursor.members N) := by
  have horder : List.Perm ([5, 7, 3, 2, 8, 4, 1, 0, 6] : List (Fin 9)) (List.finRange 9) := by
    decide
  have hkeys : ∀ k ∈ payloadKeys, isArrayIndex k = false := by
    simp only [payloadKeys, List.forall_mem_cons]
    decide
  exact canonical_obj_of_sorted (horder.map (List.get
    [(js "version", number N 1), (js "runId", .str cursor.runId),
      (js "manifestHash", .str cursor.manifestHash),
      (js "journalPrefixSha256", .str cursor.journalPrefixSha256),
      (js "prefixBytes", number N cursor.prefixBytes),
      (js "eventCount", number N cursor.eventCount), (js "view", .str cursor.view.text),
      (js "filterHash", .str cursor.filterHash), (js "offset", number N cursor.offset)]))
    (by decide : payloadKeys.Nodup) (by decide : payloadKeys.Pairwise (· ≤ ·)) hkeys

omit [JsonNumber N] in
theorem canonical_envelope (payload : Json N) (mac : JsString) :
    canonical (cursorEnvelope payload mac) =
      .obj [(js "mac", .str mac), (js "payload", canonical payload)] := by
  have hkeys : ∀ k ∈ [js "mac", js "payload"], isArrayIndex k = false := by
    simp only [List.forall_mem_cons]
    decide
  exact canonical_obj_of_sorted (List.Perm.swap (js "payload", payload) (js "mac", .str mac) [])
    (by decide : [js "mac", js "payload"].Nodup)
    (by decide : [js "mac", js "payload"].Pairwise (· ≤ ·)) hkeys

theorem depth_members : (Json.obj (cursor.members N)).depth ≤ 1 := by
  rw [Json.depth, Json.depthFields_le]
  simp only [members, List.forall_mem_cons, List.not_mem_nil, false_imp_iff, implies_true, and_true,
    Json.depth, number, Nat.zero_add, Nat.le_refl]

theorem depth_toJson : (cursor.toJson N).depth ≤ 1 := by
  rw [toJson, Json.depth, Json.depthFields_le]
  simp only [List.forall_mem_cons, List.not_mem_nil, false_imp_iff, implies_true, and_true,
    Json.depth, number, Nat.zero_add, Nat.le_refl]

omit [JsonNumber N] in
theorem depth_envelope (payload : Json N) (mac : JsString) (h : payload.depth ≤ 1) :
    (cursorEnvelope payload mac).depth ≤ maxJsonDepth := by
  have hpayload : payload.depth + 1 ≤ maxJsonDepth := by
    have : 2 ≤ maxJsonDepth := by decide
    omega
  rw [cursorEnvelope, Json.depth, Json.depthFields_le]
  simp only [List.forall_mem_cons, List.not_mem_nil, false_imp_iff, implies_true, and_true]
  exact ⟨hpayload, (by decide : 0 + 1 ≤ maxJsonDepth)⟩

theorem stringify_toJson :
    stringify (cursor.toJson N) = .ok (Json.obj (cursor.members N)).render := by
  rw [stringify_ok ((cursor.depth_toJson N).trans (by decide)), canonical_toJson]

theorem cursorMac_toJson : cursorMac (cursor.toJson N) key = .ok (cursor.mac N key) := by
  rw [cursorMac, stringify_toJson]
  rfl

/-- The text of a cursor. -/
def text : JsString :=
  Base64url.encode (utf8 (Json.obj (cursor.envelope N key)).render)

theorem encodeCursor_eq : encodeCursor N cursor key = .ok (cursor.text N key) := by
  have htext : stringify (cursorEnvelope (cursor.toJson N) (cursor.mac N key)) =
      .ok (Json.obj (cursor.envelope N key)).render := by
    rw [stringify_ok (depth_envelope N _ _ (cursor.depth_toJson N)), canonical_envelope,
      canonical_toJson]
    rfl
  rw [encodeCursor]
  exact bind_eq_ok.mpr ⟨_, cursor.cursorMac_toJson N key, bind_eq_ok.mpr ⟨_, htext, rfl⟩⟩

/-- The members of a payload are canonical as they are. -/
theorem canonical_members : canonical (.obj (cursor.members N)) = .obj (cursor.members N) := by
  have hkeys : ∀ k ∈ payloadKeys, isArrayIndex k = false := by
    simp only [payloadKeys, List.forall_mem_cons]
    decide
  exact canonical_obj_of_sorted (List.Perm.refl _) (by decide : payloadKeys.Nodup)
    (by decide : payloadKeys.Pairwise (· ≤ ·)) hkeys

theorem canonical_envelope_members :
    canonical (.obj (cursor.envelope N key)) = .obj (cursor.envelope N key) := by
  have hcanonical := canonical_envelope N (.obj (cursor.members N)) (cursor.mac N key)
  have hperm := List.Perm.swap (js "payload", Json.obj (cursor.members N))
    (js "mac", .str (cursor.mac N key)) []
  have hkeys : ∀ k ∈ [js "mac", js "payload"], isArrayIndex k = false := by
    simp only [List.forall_mem_cons]
    decide
  have hown := canonical_obj_of_sorted (List.Perm.refl (cursor.envelope N key))
    (by decide : [js "mac", js "payload"].Nodup)
    (by decide : [js "mac", js "payload"].Pairwise (· ≤ ·)) hkeys
  rw [hown]
  simp only [envelope, List.map_cons, List.map_nil, canonical_members]
  rfl

theorem isHash_mac : isHash (cursor.mac N key) = true :=
  isHash_hexDigest _

section Valid

variable {cursor}

/-- The text of an envelope is short enough for a cursor. -/
theorem Valid.octetLength_envelope [DecimalNumber N] (h : cursor.Valid) :
    octetLength (Json.obj (cursor.envelope N key)).render ≤ 3071 := by
  have hnumber : ∀ n, n ≤ maxRecoveryJournalBytes → (number N n).lengthBound ≤ 8 := by
    intro n hn
    have hdigits : n < 10 ^ (7 + 1) := hn.trans_lt (by decide)
    rw [number, Json.lengthBound, DecimalNumber.text_ofNat n (hn.trans (by decide))]
    exact length_decimal_le hdigits
  have hevents := hnumber _ (h.eventCount_le.trans (by decide))
  have hoffset := hnumber _ (h.offset_le.trans (by decide))
  have hprefix := hnumber _ h.prefixBytes_le
  have hversion := hnumber 1 (by decide)
  have hview := view_length cursor.view
  have hrun : cursor.runId.length = 68 := by
    obtain ⟨hash, hrunId, hhash⟩ := isPrefixedHash_split h.runId
    rw [hrunId, List.length_append, isHash_length hhash]
    rfl
  have hkeys : (js "mac").length = 3 ∧ (js "payload").length = 7 ∧
      (js "eventCount").length = 10 ∧ (js "filterHash").length = 10 ∧
      (js "journalPrefixSha256").length = 19 ∧ (js "manifestHash").length = 12 ∧
      (js "offset").length = 6 ∧ (js "prefixBytes").length = 11 ∧ (js "runId").length = 5 ∧
      (js "version").length = 7 ∧ (js "view").length = 4 := by decide
  refine (Json.octetLength_render_le _).trans ?_
  simp only [envelope, members, Json.lengthBound, Json.lengthBoundFields,
    isHash_length (cursor.isHash_mac N key), isHash_length h.filterHash,
    isHash_length h.journalPrefixSha256, isHash_length h.manifestHash, hrun]
  omega

/-- A cursor has as many octets as code units. -/
theorem octetLength_text (cursor : CursorV1) :
    (utf8 (cursor.text N key)).length = (cursor.text N key).length := by
  have hascii : ∀ u ∈ cursor.text N key, u.val < 0x80 := by
    intro u hu
    have hunit := Base64url.encode_units _ u hu
    simp only [Base64url.isUnit, Bool.or_eq_true, Bool.and_eq_true, decide_eq_true_eq,
      beq_iff_eq, Fin.ext_iff] at hunit
    omega
  exact octetLength_ascii hascii

/-- A cursor is not too long for a request. -/
theorem Valid.length_text [DecimalNumber N] (h : cursor.Valid) :
    (utf8 (cursor.text N key)).length ≤ maxRunInspectionCursorBytes := by
  have hencoded : 3 * (cursor.text N key).length ≤
      4 * octetLength (Json.obj (cursor.envelope N key)).render + 2 :=
    Base64url.length_encode_le _
  have henvelope := h.octetLength_envelope N key
  have hlength := octetLength_text N key cursor
  have : maxRunInspectionCursorBytes = 4096 := rfl
  omega

theorem Valid.parsePayload_members (h : cursor.Valid) :
    parsePayload (cursor.members N) = some cursor := by
  have hversion : isNumber (cursor.members N) (js "version") 1 = true :=
    decide_eq_true (JsonNumber.value_ofNat 1 (by decide))
  have hsafe : maxRecoveryJournalBytes ≤ maxSafeInteger := by decide
  have hevents : maxRunInspectionEvents ≤ maxSafeInteger := by decide
  have hitems : maxRunInspectionAggregateItems ≤ maxSafeInteger := by decide
  have hprefixBytes := integerMember_number (cursor.members N) (js "prefixBytes")
    rfl h.prefixBytes_pos h.prefixBytes_le (h.prefixBytes_le.trans hsafe)
  have heventCount := integerMember_number (cursor.members N) (js "eventCount")
    rfl h.eventCount_pos h.eventCount_le (h.eventCount_le.trans hevents)
  have hoffset := integerMember_number (cursor.members N) (js "offset")
    rfl h.offset_pos h.offset_le (h.offset_le.trans hitems)
  have hjournal : textMember (cursor.members N) (js "journalPrefixSha256") isHash =
      some cursor.journalPrefixSha256 := if_pos h.journalPrefixSha256
  have hfilter : textMember (cursor.members N) (js "filterHash") isHash =
      some cursor.filterHash := if_pos h.filterHash
  have hview : (textMember (cursor.members N) (js "view") fun _ => true).bind viewOf =
      some cursor.view := viewOf_text cursor.view
  have hkeys : joinedKeys ((cursor.members N).map Prod.fst) = joinedKeys payloadKeys := rfl
  rw [parsePayload, hkeys, beq_self_eq_true, hversion, hprefixBytes, heventCount, hoffset, hjournal,
    hfilter, hview]
  rfl

theorem Valid.cursorContent_text [DecimalNumber N] (h : cursor.Valid) :
    cursorContent (N := N) (cursor.text N key) = some (cursor.members N, cursor.mac N key) := by
  let envelope := Json.obj (cursor.envelope N key)
  have hne : utf8 envelope.render ≠ [] := by
    intro hnil
    have hdecoded := textDecode_render envelope
    rw [hnil] at hdecoded
    obtain ⟨u, rest, hrender, -⟩ := Json.render_head envelope
    rw [hrender] at hdecoded
    exact absurd hdecoded nofun
  have hencoded : (!(cursor.text N key).isEmpty && (cursor.text N key).all Base64url.isUnit) =
      true := by
    rw [Bool.and_eq_true, List.all_eq_true, Bool.not_eq_true', List.isEmpty_eq_false_iff]
    exact ⟨Base64url.encode_ne_nil hne, Base64url.encode_units _⟩
  have hoctets : Base64url.decode (cursor.text N key) = utf8 envelope.render :=
    Base64url.decode_encode _
  have hlength : (utf8 envelope.render).length ≤ maxRunInspectionCursorBytes :=
    (h.octetLength_envelope N key).trans (by decide)
  have howned : envelope.Owned := by
    have hcanonical := canonical_owned (Json.obj (cursor.envelope N key))
    rwa [canonical_envelope_members] at hcanonical
  have hdepth : envelope.depth ≤ maxJsonDepth := by
    have hle := depth_envelope N (.obj (cursor.members N)) (cursor.mac N key)
      (cursor.depth_members N)
    rw [cursorEnvelope, Json.depth, Json.depthFields_le] at hle
    rw [Json.depth, Json.depthFields_le]
    simp only [CursorV1.envelope, List.forall_mem_cons] at hle ⊢
    exact ⟨hle.2.1, hle.1, hle.2.2⟩
  have hlimit : (Base64url.encode (utf8 envelope.render) == cursor.text N key &&
      decide ((utf8 envelope.render).length ≤ maxRunInspectionCursorBytes)) = true := by
    rw [decide_eq_true hlength, Bool.and_true]
    exact beq_self_eq_true (cursor.text N key)
  have hparsed : parseJson (N := N) envelope.render = some ⟨envelope, howned⟩ :=
    parseJson_render howned
  have hvalue : (parseJsonValue envelope).toOption = some envelope := by
    rw [parseJsonValue_ok howned hdepth]
    rfl
  have hmac : textMember (cursor.envelope N key) (js "mac") isHash = some (cursor.mac N key) :=
    if_pos (cursor.isHash_mac N key)
  simp only [cursorContent, Option.bind_eq_bind, Option.bind_eq_some_iff, Option.guard_eq_some',
    Option.pure_def, hoctets]
  exact ⟨(), hencoded, (), hlimit, _, textDecode_render envelope, _, hparsed, _, hvalue, _, rfl, (),
    rfl, _, hmac, _, rfl, rfl⟩

end Valid

end CursorV1

section Decode

variable {N : Type} [JsonNumber N]

/-- What an accepted cursor says, and that its keyed hash is right. -/
theorem decodeCursor_eq_ok {encoded : JsString} {key : List Byte} {cursor : CursorV1} :
    decodeCursor N encoded key = .ok cursor ↔
      ∃ payload mac, cursorContent (N := N) encoded = some (payload, mac) ∧
        parsePayload payload = some cursor ∧ cursorMac (.obj payload) key = .ok mac := by
  constructor
  · intro h
    rw [decodeCursor] at h
    dsimp only at h
    split at h
    · rename_i decoded hdecoded
      obtain rfl := Except.ok.inj h
      simp only [Option.bind_eq_bind, Option.bind_eq_some_iff, Option.guard_eq_some',
        Option.pure_def, beq_iff_eq] at hdecoded
      obtain ⟨⟨payload, mac⟩, hcontent, decoded, hpayload, expected, hexpected, -, rfl, hcursor⟩ :=
        hdecoded
      obtain rfl := Option.some.inj hcursor
      cases hmac : cursorMac (.obj payload) key with
      | error failure =>
        rw [hmac] at hexpected
        cases hexpected
      | ok computed =>
        rw [hmac] at hexpected
        exact ⟨payload, mac, hcontent, hpayload,
          hmac.trans (congrArg Except.ok (Option.some.inj hexpected))⟩
    · cases h
  · rintro ⟨payload, mac, hcontent, hpayload, hmac⟩
    simp [decodeCursor, hcontent, hpayload, hmac, Except.toOption]

/-- A cursor is read back as it was issued. -/
theorem CursorV1.Valid.decodeCursor_text [DecimalNumber N] {cursor : CursorV1} (h : cursor.Valid)
    (key : List Byte) : decodeCursor N (cursor.text N key) key = .ok cursor := by
  refine decodeCursor_eq_ok.mpr
    ⟨cursor.members N, cursor.mac N key, h.cursorContent_text N key, h.parsePayload_members N, ?_⟩
  have hdepth : (Json.obj (cursor.members N)).depth ≤ maxJsonDepth :=
    (cursor.depth_members N).trans (by decide)
  rw [cursorMac, stringify_ok hdepth, cursor.canonical_members N]
  rfl

end Decode

end PiRlm.Runtime

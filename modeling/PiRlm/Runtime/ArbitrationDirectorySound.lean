/-
  PiRlm.Runtime.ArbitrationDirectorySound

  An inspection of an arbitration directory ends, gives a well-formed chain when it
  accepts, and does not depend on the order of the listing.

  The two passes are first described as filters of the listing: which entries they keep
  depends on the listing only through lookups by name.  The walk depends on the slots only
  through lookups by token.
-/
import Mathlib
import PiRlm.Lib.Keyed
import PiRlm.Runtime.ArbitrationDirectory

namespace PiRlm.Runtime

open PiRlm.Lib PiRlm.Core PiRlm.Shell

theorem demand_eq_ok {passed : Bool} {message : JsString} {u : Unit} :
    demand passed message = .ok u ↔ passed = true := by
  cases passed with
  | true => exact ⟨fun _ => rfl, fun _ => rfl⟩
  | false => exact ⟨nofun, nofun⟩

theorem exceptBind_eq_ok {E α β : Type} {x : Except E α} {f : α → Except E β} {b : β} :
    x.bind f = .ok b ↔ ∃ a, x = .ok a ∧ f a = .ok b :=
  bind_eq_ok

-- ============================================================================
-- Names
-- ============================================================================

theorem enclosed_eq_some {start stop name inner : JsString}
    (h : enclosed start stop name = some inner) : name = start ++ inner ++ stop := by
  unfold enclosed at h
  split at h
  · rename_i hboth
    rw [Bool.and_eq_true, List.isPrefixOf_iff_prefix, List.isSuffixOf_iff_suffix] at hboth
    obtain ⟨⟨rest, rfl⟩, inner', hinner⟩ := hboth
    rw [List.drop_left] at h hinner
    obtain rfl := Option.some.inj h
    rw [← hinner, List.length_append, Nat.add_sub_cancel, List.take_left, List.append_assoc]
  · exact absurd h nofun

def SlotName.filename : SlotName → JsString
  | .next none => js "next-root.claim"
  | .next (some predecessor) => js "next-" ++ predecessor ++ js ".claim"
  | .released generation => js "released-" ++ generation ++ js ".claim"

theorem filename_of_slotName {name : JsString} {slot : SlotName} (h : slotName name = some slot) :
    name = slot.filename := by
  unfold slotName at h
  split at h
  · rename_i hroot
    obtain rfl := Option.some.inj h
    exact hroot
  · split at h
    · rename_i predecessor hnext
      obtain rfl := Option.some.inj h
      exact enclosed_eq_some (Option.filter_eq_some_iff.mp hnext).1
    · obtain ⟨generation, hreleased, rfl⟩ := Option.map_eq_some_iff.mp h
      exact enclosed_eq_some (Option.filter_eq_some_iff.mp hreleased).1

/-- No two names are one slot. -/
theorem slotName_inj {name name' : JsString} {slot : SlotName} (h : slotName name = some slot)
    (h' : slotName name' = some slot) : name = name' :=
  (filename_of_slotName h).trans (filename_of_slotName h').symm

-- ============================================================================
-- The first pass
-- ============================================================================

variable (N : Type) [JsonNumber N]

def SlotRecord.generation? : SlotRecord → Option GenerationRecord
  | .generation record => some record
  | .release _ => none

def SlotRecord.release? : SlotRecord → Option ReleaseRecord
  | .generation _ => none
  | .release record => some record

/-- The record of an entry that is a slot and reads. -/
def slotRecord? (entries : List ArbitrationDirectoryEntry) (entry : ArbitrationDirectoryEntry) :
    Option SlotRecord :=
  (slotName entry.name).bind fun name => (readSlot N entries entry name).toOption

def slotRecords (entries rest : List ArbitrationDirectoryEntry) : List SlotRecord :=
  rest.filterMap (slotRecord? N entries)

/-- Every slot of a listing reads. -/
def SlotsRead (entries rest : List ArbitrationDirectoryEntry) : Prop :=
  ∀ entry ∈ rest, (slotName entry.name).isSome → (slotRecord? N entries entry).isSome

/-- The maps, with these records put in. -/
def Slots.extend (slots : Slots) (records : List SlotRecord) : Slots where
  referenced := slots.referenced ++ records.map (·.intentName)
  generations := slots.generations ++ records.filterMap (·.generation?)
  successors := (records.filterMap (·.generation?)).foldl
    (fun f record => Function.update f record.predecessor (some record)) slots.successors
  releases := slots.releases ++ records.filterMap (·.release?)

/-- No two generations have one token, and no two releases one generation. -/
structure Slots.Distinct (slots : Slots) : Prop where
  generations : (slots.generations.map (·.token)).Nodup
  releases : (slots.releases.map (·.generation)).Nodup

variable {N}

theorem Slots.extend_nil (slots : Slots) : slots.extend [] = slots := by
  simp only [Slots.extend, List.map_nil, List.filterMap_nil, List.append_nil, List.foldl_nil]

theorem Slots.extend_cons (slots : Slots) (record : SlotRecord) (records : List SlotRecord) :
    slots.extend (record :: records) = (slots.extend [record]).extend records := by
  cases record with
  | generation record =>
    simp only [Slots.extend, SlotRecord.generation?, SlotRecord.release?, List.map_cons,
      List.filterMap_cons, List.map_nil, List.filterMap_nil, List.append_assoc, List.append_nil,
      List.cons_append, List.nil_append, List.foldl_cons, List.foldl_nil]
  | release record =>
    simp only [Slots.extend, SlotRecord.generation?, SlotRecord.release?, List.map_cons,
      List.filterMap_cons, List.map_nil, List.filterMap_nil, List.append_assoc, List.append_nil,
      List.cons_append, List.nil_append, List.foldl_nil]

theorem Slots.Distinct.of_extend {slots : Slots} {records : List SlotRecord}
    (h : (slots.extend records).Distinct) : slots.Distinct where
  generations := h.generations.sublist ((List.sublist_append_left _ _).map _)
  releases := h.releases.sublist ((List.sublist_append_left _ _).map _)

theorem Slots.add_eq_ok {slots slots' : Slots} {record : SlotRecord} (h : slots.Distinct) :
    slots.add record = .ok slots' ↔
      (slots.extend [record]).Distinct ∧ slots' = slots.extend [record] := by
  cases record with
  | generation record =>
    have hextend : slots.extend [.generation record] =
        { referenced := slots.referenced ++ [generationIntentFilename record.token]
          generations := slots.generations ++ [record]
          successors := Function.update slots.successors record.predecessor (some record)
          releases := slots.releases } := by
      simp only [Slots.extend, SlotRecord.intentName, SlotRecord.generation?, SlotRecord.release?,
        List.map_cons, List.map_nil, List.filterMap_cons, List.filterMap_nil, List.append_nil,
        List.foldl_cons, List.foldl_nil]
    rw [Slots.add, map_eq_ok, hextend]
    simp only [demand_eq_ok]
    constructor
    · rintro ⟨-, hfresh, rfl⟩
      exact ⟨⟨(nodup_concat_iff h.generations).mpr hfresh, h.releases⟩, rfl⟩
    · rintro ⟨hdistinct, rfl⟩
      exact ⟨(), (nodup_concat_iff h.generations).mp hdistinct.generations, rfl⟩
  | release record =>
    have hextend : slots.extend [.release record] =
        { slots with
          referenced := slots.referenced ++ [releaseIntentFilename record.token]
          releases := slots.releases ++ [record] } := by
      simp only [Slots.extend, SlotRecord.intentName, SlotRecord.generation?, SlotRecord.release?,
        List.map_cons, List.map_nil, List.filterMap_cons, List.filterMap_nil, List.append_nil,
        List.foldl_nil]
    rw [Slots.add, map_eq_ok, hextend]
    simp only [demand_eq_ok]
    constructor
    · rintro ⟨-, hfresh, rfl⟩
      exact ⟨⟨h.generations, (nodup_concat_iff h.releases).mpr hfresh⟩, rfl⟩
    · rintro ⟨hdistinct, rfl⟩
      exact ⟨(), (nodup_concat_iff h.releases).mp hdistinct.releases, rfl⟩

theorem toOption_eq_some_iff {E α : Type} {x : Except E α} {a : α} :
    x.toOption = some a ↔ x = .ok a := by
  cases x with
  | error e => exact ⟨nofun, nofun⟩
  | ok b => exact ⟨fun h => congrArg _ (Option.some.inj h), fun h => congrArg _ (Except.ok.inj h)⟩

theorem slotRecord_eq_some_iff {entries : List ArbitrationDirectoryEntry}
    {entry : ArbitrationDirectoryEntry} {record : SlotRecord} :
    slotRecord? N entries entry = some record ↔
      ∃ name, slotName entry.name = some name ∧ readSlot N entries entry name = .ok record := by
  simp only [slotRecord?, Option.bind_eq_some_iff, toOption_eq_some_iff]

/-- The first pass accepts when every slot reads and the records are distinct. -/
theorem inspectSlots_eq_ok {entries rest : List ArbitrationDirectoryEntry} {slots slots' : Slots}
    (h : slots.Distinct) :
    inspectSlots N entries rest slots = .ok slots' ↔
      SlotsRead N entries rest ∧ (slots.extend (slotRecords N entries rest)).Distinct ∧
        slots' = slots.extend (slotRecords N entries rest) := by
  induction rest generalizing slots slots' with
  | nil =>
    have hrecords : slotRecords N entries [] = [] := rfl
    rw [hrecords, Slots.extend_nil]
    exact ⟨fun heq => ⟨nofun, h, (Except.ok.inj heq).symm⟩, fun ⟨_, _, heq⟩ => heq ▸ rfl⟩
  | cons entry rest ih =>
    cases hname : slotName entry.name with
    | none =>
      -- the entry is no slot
      have hnone : slotRecord? N entries entry = none := by rw [slotRecord?, hname]; rfl
      have hread : SlotsRead N entries (entry :: rest) ↔ SlotsRead N entries rest := by
        rw [SlotsRead, List.forall_mem_cons, hname]
        exact ⟨fun h => h.2, fun h => ⟨nofun, h⟩⟩
      rw [inspectSlots, hname, hread, slotRecords, List.filterMap_cons_none hnone]
      exact ih h
    | some name =>
      have hread : SlotsRead N entries (entry :: rest) ↔
          (slotRecord? N entries entry).isSome ∧ SlotsRead N entries rest := by
        rw [SlotsRead, List.forall_mem_cons, hname]
        exact ⟨fun h => ⟨h.1 rfl, h.2⟩, fun h => ⟨fun _ => h.1, h.2⟩⟩
      rw [inspectSlots, hname, hread]
      simp only [exceptBind_eq_ok, Slots.add_eq_ok h]
      constructor
      · rintro ⟨record, hrecord, slots'', ⟨hdistinct, rfl⟩, hrest⟩
        obtain ⟨hrestRead, hrestDistinct, rfl⟩ := (ih hdistinct).mp hrest
        have hsome := slotRecord_eq_some_iff.mpr ⟨name, hname, hrecord⟩
        rw [slotRecords, List.filterMap_cons_some hsome, Slots.extend_cons]
        exact ⟨⟨hsome ▸ rfl, hrestRead⟩, hrestDistinct, rfl⟩
      · rintro ⟨⟨hsome, hrestRead⟩, hdistinct, rfl⟩
        obtain ⟨record, hrecord⟩ := Option.isSome_iff_exists.mp hsome
        obtain ⟨name', hname', hok⟩ := slotRecord_eq_some_iff.mp hrecord
        obtain rfl := Option.some.inj (hname.symm.trans hname')
        have hextend : slots.extend (slotRecords N entries (entry :: rest)) =
            (slots.extend [record]).extend (slotRecords N entries rest) := by
          rw [slotRecords, List.filterMap_cons_some hrecord, Slots.extend_cons, slotRecords]
        rw [hextend] at hdistinct ⊢
        exact ⟨record, hok, _, ⟨hdistinct.of_extend, rfl⟩,
          (ih hdistinct.of_extend).mpr ⟨hrestRead, hdistinct, rfl⟩⟩

-- ============================================================================
-- The second pass
-- ============================================================================

variable (N)

/-- An entry that the first pass has taken. -/
def taken (referenced : List JsString) (entry : ArbitrationDirectoryEntry) : Bool :=
  (slotName entry.name).isSome || decide (entry.name ∈ referenced)

def orphan? (referenced : List JsString) (entry : ArbitrationDirectoryEntry) :
    Option ArbitrationOrphan :=
  if taken referenced entry then none
  else (intentKind entry.name).map fun kind => ⟨entry.name, kind, orphanValidity N entry kind⟩

variable {N}

/-- The second pass accepts when every entry that the first has left is an intent. -/
theorem inspectOrphans_eq_ok {referenced : List JsString} {rest : List ArbitrationDirectoryEntry}
    {orphans : List ArbitrationOrphan} :
    inspectOrphans N referenced rest = .ok orphans ↔
      (∀ entry ∈ rest, taken referenced entry = false → (intentKind entry.name).isSome) ∧
        orphans = rest.filterMap (orphan? N referenced) := by
  induction rest generalizing orphans with
  | nil => exact ⟨fun h => ⟨nofun, (Except.ok.inj h).symm⟩, fun h => h.2 ▸ rfl⟩
  | cons entry rest ih =>
    rw [List.forall_mem_cons]
    by_cases htaken : taken referenced entry = true
    · have hnone : orphan? N referenced entry = none := by rw [orphan?, if_pos htaken]
      rw [inspectOrphans, ← taken, if_pos htaken, ih, List.filterMap_cons_none hnone, htaken]
      exact ⟨fun h => ⟨⟨nofun, h.1⟩, h.2⟩, fun h => ⟨h.1.2, h.2⟩⟩
    · rw [Bool.not_eq_true] at htaken
      rw [inspectOrphans, ← taken, htaken, if_neg Bool.false_ne_true]
      cases hkind : intentKind entry.name with
      | none => exact ⟨nofun, fun h => absurd (h.1.1 rfl) Bool.false_ne_true⟩
      | some kind =>
        have hsome : orphan? N referenced entry =
            some ⟨entry.name, kind, orphanValidity N entry kind⟩ := by
          rw [orphan?, htaken, if_neg Bool.false_ne_true, hkind]
          rfl
        rw [map_eq_ok, List.filterMap_cons_some hsome]
        constructor
        · rintro ⟨tail, htail, rfl⟩
          obtain ⟨hkinds, rfl⟩ := ih.mp htail
          exact ⟨⟨fun _ => rfl, hkinds⟩, rfl⟩
        · rintro ⟨⟨-, hkinds⟩, rfl⟩
          exact ⟨_, ih.mpr ⟨hkinds, rfl⟩, rfl⟩

-- ============================================================================
-- The listing
-- ============================================================================

/-- When the two passes accept, and what they give. -/
structure Inspected (entries : List ArbitrationDirectoryEntry) (slots : Slots)
    (orphans : List ArbitrationOrphan) : Prop where
  length : entries.length ≤ maxArbitrationEntries
  names : (entries.map (·.name)).Nodup
  read : SlotsRead N entries entries
  distinct : slots.Distinct
  slots_eq : slots = Slots.empty.extend (slotRecords N entries entries)
  kinds : ∀ entry ∈ entries, taken slots.referenced entry = false → (intentKind entry.name).isSome
  orphans_eq : orphans = entries.filterMap (orphan? N slots.referenced)
  budget : orphans.length ≤ maxArbitrationOrphans

theorem Slots.empty_distinct : Slots.empty.Distinct := ⟨List.nodup_nil, List.nodup_nil⟩

theorem inspectEntries_eq_ok {entries : List ArbitrationDirectoryEntry} {slots : Slots}
    {orphans : List ArbitrationOrphan} :
    inspectEntries N entries = .ok (slots, orphans) ↔ Inspected (N := N) entries slots orphans := by
  rw [inspectEntries]
  split
  · rename_i hlength
    exact ⟨nofun, fun h => absurd h.length (Nat.not_le.mpr hlength)⟩
  · rename_i hlength
    simp only [exceptBind_eq_ok, demand_eq_ok, decide_eq_true_eq,
      inspectSlots_eq_ok Slots.empty_distinct, inspectOrphans_eq_ok]
    constructor
    · rintro ⟨-, hnames, slots', ⟨hread, hdistinct, rfl⟩, orphans', ⟨hkinds, rfl⟩, hbudget⟩
      split at hbudget
      · exact absurd hbudget nofun
      · rename_i hle
        obtain ⟨rfl, rfl⟩ := Prod.mk.inj (Except.ok.inj hbudget)
        exact ⟨Nat.not_lt.mp hlength, hnames, hread, hdistinct, rfl, hkinds, rfl, Nat.not_lt.mp hle⟩
    · intro h
      refine ⟨(), h.names, slots, ⟨h.read, h.slots_eq ▸ h.distinct, h.slots_eq⟩, orphans,
        ⟨h.kinds, h.orphans_eq⟩, ?_⟩
      rw [if_neg (Nat.not_lt.mpr h.budget)]

variable {entries entries' : List ArbitrationDirectoryEntry} {slots slots' : Slots}
  {orphans orphans' : List ArbitrationOrphan}

theorem load_of_entryIdentity {entry : ArbitrationDirectoryEntry} {label : JsString}
    {loaded : List Byte × ArbitrationEntryStat} (h : entryIdentity entry label = .ok loaded) :
    entry.load = some loaded := by
  unfold entryIdentity at h
  split at h
  · exact absurd h nofun
  · rename_i bytes stat hload
    obtain ⟨-, -, heq⟩ := map_eq_ok.mp h
    rw [hload, heq]

/-- A slot that reads is loaded, and decodes to its record. -/
theorem load_of_slotRecord {entry : ArbitrationDirectoryEntry} {record : SlotRecord}
    (h : slotRecord? N entries entry = some record) :
    ∃ name bytes stat, slotName entry.name = some name ∧ entry.load = some (bytes, stat) ∧
      decodeSlot N (js "slot " ++ entry.name) name bytes = .ok record := by
  obtain ⟨name, hname, hread⟩ := slotRecord_eq_some_iff.mp h
  simp only [readSlot, exceptBind_eq_ok, map_eq_ok] at hread
  obtain ⟨⟨bytes, stat⟩, hentry, -, -, record', hdecode, -, -, rfl⟩ := hread
  exact ⟨name, bytes, stat, hname, load_of_entryIdentity hentry, hdecode⟩

/-- A name of a slot and the record that it holds. -/
def SlotName.Holds (N : Type) [JsonNumber N] (bytes : List Byte) : SlotName → SlotRecord → Prop
  | .next predecessor, .generation record =>
    record.predecessor = predecessor ∧ decodeGenerationRecord N bytes = .ok record
  | .released token, .release record =>
    record.generation = token ∧ decodeReleaseRecord N bytes = .ok record
  | _, _ => False

theorem decodeSlot_eq_ok {slot : JsString} {name : SlotName} {bytes : List Byte}
    {record : SlotRecord} (h : decodeSlot N slot name bytes = .ok record) :
    name.Holds N bytes record := by
  cases name with
  | next predecessor =>
    simp only [decodeSlot] at h
    split at h
    · exact absurd h nofun
    · rename_i generation hgeneration
      obtain ⟨u, hdemand, rfl⟩ := map_eq_ok.mp h
      exact ⟨of_decide_eq_true (demand_eq_ok.mp hdemand), hgeneration⟩
  | released token =>
    simp only [decodeSlot] at h
    split at h
    · exact absurd h nofun
    · rename_i release hrelease
      obtain ⟨u, hdemand, rfl⟩ := map_eq_ok.mp h
      exact ⟨of_decide_eq_true (demand_eq_ok.mp hdemand), hrelease⟩

/-- The slot that a record is found in. -/
def SlotRecord.slot : SlotRecord → SlotName
  | .generation record => .next record.predecessor
  | .release record => .released record.generation

theorem SlotName.Holds.slot {bytes : List Byte} {name : SlotName} {record : SlotRecord}
    (h : name.Holds N bytes record) : record.slot = name := by
  cases name <;> cases record <;> first | exact h.elim | exact congrArg _ h.1

theorem slotName_of_slotRecord {entry : ArbitrationDirectoryEntry} {record : SlotRecord}
    (h : slotRecord? N entries entry = some record) : slotName entry.name = some record.slot := by
  obtain ⟨name, bytes, stat, hname, -, hdecode⟩ := load_of_slotRecord h
  rw [hname, (decodeSlot_eq_ok hdecode).slot]

/-- No two records of a listing have one slot. -/
theorem slotRecords_pairwise (hnames : (entries.map (·.name)).Nodup) :
    (slotRecords N entries entries).Pairwise fun left right => left.slot ≠ right.slot := by
  rw [List.Nodup, List.pairwise_map] at hnames
  refine List.Pairwise.filterMap _ (fun entry entry' hne record hrecord record' hrecord' heq => ?_)
    hnames
  have hname := slotName_of_slotRecord hrecord
  rw [heq] at hname
  exact hne (slotName_inj hname (slotName_of_slotRecord hrecord'))

namespace Inspected

variable (h : Inspected (N := N) entries slots orphans)

include h

theorem generations_eq :
    slots.generations = (slotRecords N entries entries).filterMap (·.generation?) := by
  rw [h.slots_eq]
  rfl

theorem releases_eq :
    slots.releases = (slotRecords N entries entries).filterMap (·.release?) := by
  rw [h.slots_eq]
  rfl

theorem referenced_eq :
    slots.referenced = (slotRecords N entries entries).map (·.intentName) := by
  rw [h.slots_eq]
  rfl

theorem predecessors_nodup : (slots.generations.map (·.predecessor)).Nodup := by
  rw [h.generations_eq, List.Nodup, List.pairwise_map]
  refine List.Pairwise.filterMap _ (fun left right hne record hleft record' hright heq => ?_)
    (slotRecords_pairwise h.names)
  cases left <;> cases right <;> cases hleft <;> cases hright
  exact hne (congrArg SlotName.next heq)

/-- The successor of a token is the generation with that predecessor. -/
theorem successors_eq (predecessor : Option JsString) :
    slots.successors predecessor =
      slots.generations.find? fun record => decide (record.predecessor = predecessor) := by
  have hsuccessors : slots.successors = slots.generations.foldl
      (fun (f : Option JsString → Option GenerationRecord) record =>
        Function.update f record.predecessor (some record)) Slots.empty.successors := by
    rw [h.generations_eq, h.slots_eq]
    rfl
  rw [hsuccessors, foldl_update_eq_find h.predecessors_nodup]
  exact Option.or_none

/-- Every slot of the listing is a generation or a release of the maps. -/
theorem slot_accounted {entry : ArbitrationDirectoryEntry} {name : SlotName}
    (hentry : entry ∈ entries) (hname : slotName entry.name = some name) :
    ∃ bytes stat, entry.load = some (bytes, stat) ∧
      ((∃ record ∈ slots.generations, name.Holds N bytes (.generation record)) ∨
        ∃ record ∈ slots.releases, name.Holds N bytes (.release record)) := by
  obtain ⟨record, hrecord⟩ :=
    Option.isSome_iff_exists.mp (h.read entry hentry (by rw [hname]; rfl))
  obtain ⟨name', bytes, stat, hname', hload, hdecode⟩ := load_of_slotRecord hrecord
  obtain rfl := Option.some.inj (hname.symm.trans hname')
  have hmem : record ∈ slotRecords N entries entries :=
    List.mem_filterMap.mpr ⟨entry, hentry, hrecord⟩
  refine ⟨bytes, stat, hload, ?_⟩
  cases record with
  | generation record =>
    refine .inl ⟨record, ?_, decodeSlot_eq_ok hdecode⟩
    rw [h.generations_eq]
    exact List.mem_filterMap.mpr ⟨_, hmem, rfl⟩
  | release record =>
    refine .inr ⟨record, ?_, decodeSlot_eq_ok hdecode⟩
    rw [h.releases_eq]
    exact List.mem_filterMap.mpr ⟨_, hmem, rfl⟩

end Inspected

-- ============================================================================
-- The order of the listing
-- ============================================================================

theorem findEntry_perm (hperm : entries.Perm entries') (hnames : (entries.map (·.name)).Nodup) :
    findEntry entries = findEntry entries' :=
  funext fun name => find_perm hperm hnames name

theorem slotRecord_perm (hperm : entries.Perm entries') (hnames : (entries.map (·.name)).Nodup) :
    slotRecord? N entries = slotRecord? N entries' := by
  funext entry
  simp only [slotRecord?, readSlot, matchIntent, findEntry_perm hperm hnames]

theorem slotRecords_perm (hperm : entries.Perm entries') (hnames : (entries.map (·.name)).Nodup) :
    (slotRecords N entries entries).Perm (slotRecords N entries' entries') := by
  rw [slotRecords, slotRecords, slotRecord_perm hperm hnames]
  exact hperm.filterMap _

/-- Maps that were filled in different orders. -/
structure Slots.Similar (left right : Slots) : Prop where
  referenced : left.referenced.Perm right.referenced
  generations : left.generations.Perm right.generations
  successors : left.successors = right.successors
  releases : left.releases.Perm right.releases

/-- A listing in another order is inspected alike. -/
theorem Inspected.perm (h : Inspected (N := N) entries slots orphans)
    (hperm : entries.Perm entries') :
    ∃ slots' orphans', Inspected (N := N) entries' slots' orphans' ∧ slots.Similar slots' ∧
      orphans.Perm orphans' := by
  have hrecords := slotRecords_perm (N := N) hperm h.names
  let slots' := Slots.empty.extend (slotRecords N entries' entries')
  have hreferenced : slots.referenced.Perm slots'.referenced := by
    rw [h.referenced_eq]
    exact hrecords.map _
  have hgenerations : slots.generations.Perm slots'.generations := by
    rw [h.generations_eq]
    exact hrecords.filterMap _
  have hreleases : slots.releases.Perm slots'.releases := by
    rw [h.releases_eq]
    exact hrecords.filterMap _
  have htaken : taken slots'.referenced = taken slots.referenced := by
    funext entry
    simp only [taken, hreferenced.mem_iff]
  have horphan : orphan? N slots'.referenced = orphan? N slots.referenced := by
    funext entry
    simp only [orphan?, htaken]
  have horphans : orphans.Perm (entries'.filterMap (orphan? N slots'.referenced)) := by
    rw [h.orphans_eq, horphan]
    exact hperm.filterMap _
  have h' : Inspected (N := N) entries' slots' (entries'.filterMap (orphan? N slots'.referenced)) :=
    { length := hperm.length_eq ▸ h.length
      names := (hperm.map _).nodup_iff.mp h.names
      read := by
        intro entry hentry hslot
        rw [← slotRecord_perm hperm h.names]
        exact h.read entry (hperm.mem_iff.mpr hentry) hslot
      distinct :=
        ⟨(hgenerations.map _).nodup_iff.mp h.distinct.generations,
          (hreleases.map _).nodup_iff.mp h.distinct.releases⟩
      slots_eq := rfl
      kinds := by
        intro entry hentry hfree
        rw [htaken] at hfree
        exact h.kinds entry (hperm.mem_iff.mpr hentry) hfree
      orphans_eq := rfl
      budget := horphans.length_eq ▸ h.budget }
  refine ⟨slots', _, h', ⟨hreferenced, hgenerations, ?_, hreleases⟩, horphans⟩
  funext predecessor
  rw [h.successors_eq, h'.successors_eq]
  exact find_perm hgenerations h.predecessors_nodup predecessor

-- ============================================================================
-- The walk
-- ============================================================================

theorem checkGeneration_congr {chain : List GenerationRecord} {generation : GenerationRecord}
    (hreleases : slots.releases.Perm slots'.releases) (hdistinct : slots.Distinct) :
    checkGeneration slots chain generation = checkGeneration slots' chain generation := by
  have hfind : (slots.releases.find? fun release =>
      decide (release.generation = generation.token)) =
        slots'.releases.find? fun release => decide (release.generation = generation.token) :=
    find_perm hreleases hdistinct.releases _
  simp only [checkGeneration, hfind]

/-- The walk reads the maps by key only. -/
theorem walkChain_congr (hsimilar : slots.Similar slots') (hdistinct : slots.Distinct) (fuel : Nat)
    (predecessor : Option JsString) (chain : List GenerationRecord) :
    walkChain slots fuel predecessor chain = walkChain slots' fuel predecessor chain := by
  induction fuel generalizing predecessor chain with
  | zero => rfl
  | succ fuel ih =>
    simp only [walkChain, hsimilar.successors, checkGeneration_congr hsimilar.releases hdistinct, ih]

/-- What the walk has checked of a chain. -/
structure Slots.Chain (slots : Slots) (chain : List GenerationRecord) : Prop where
  mem : ∀ generation ∈ chain, generation ∈ slots.generations
  ordinal : ∀ i generation, chain[i]? = some generation → generation.ordinal = i + 1
  root : ∀ generation, chain[0]? = some generation → generation.predecessor = none
  predecessor : ∀ i generation generation', chain[i]? = some generation →
    chain[i + 1]? = some generation' → generation'.predecessor = some generation.token
  identity : ∀ first, chain[0]? = some first → ∀ generation ∈ chain,
    first.toArbitrationIdentity = generation.toArbitrationIdentity ∧
      first.runName = generation.runName
  release : ∀ generation ∈ chain, ∀ release,
    (slots.releases.find? fun release => decide (release.generation = generation.token)) =
      some release →
    generation.role ≠ .retirement ∧
      generation.toArbitrationIdentity = release.toArbitrationIdentity ∧
      release.processNonce = generation.processNonce

theorem checkGeneration_eq_ok {chain : List GenerationRecord} {generation : GenerationRecord}
    {u : Unit} (h : checkGeneration slots chain generation = .ok u) :
    generation.ordinal = chain.length + 1 ∧
      (∀ first, chain[0]? = some first →
        first.toArbitrationIdentity = generation.toArbitrationIdentity ∧
          first.runName = generation.runName) ∧
      ∀ release, (slots.releases.find? fun release =>
          decide (release.generation = generation.token)) = some release →
        generation.role ≠ .retirement ∧
          generation.toArbitrationIdentity = release.toArbitrationIdentity ∧
          release.processNonce = generation.processNonce := by
  simp only [checkGeneration, bind_eq_ok, demand_eq_ok] at h
  obtain ⟨-, hordinal, -, hidentity, -, hretirement, hrelease⟩ := h
  refine ⟨of_decide_eq_true hordinal, fun first hfirst => ?_, fun release hfind => ?_⟩
  · rw [List.head?_eq_getElem?, hfirst, Option.all_some, Bool.and_eq_true] at hidentity
    exact ⟨of_decide_eq_true hidentity.1, of_decide_eq_true hidentity.2⟩
  · rw [hfind, Option.isSome_some, Bool.and_true, Bool.not_eq_true'] at hretirement
    rw [hfind, Option.all_some, Bool.and_eq_true] at hrelease
    exact ⟨of_decide_eq_false hretirement, of_decide_eq_true hrelease.1,
      of_decide_eq_true hrelease.2⟩

theorem Slots.Chain.nil : slots.Chain [] where
  mem := nofun
  ordinal := nofun
  root := nofun
  predecessor := nofun
  identity := nofun
  release := nofun

/-- One step of the walk. -/
theorem Slots.Chain.concat {chain : List GenerationRecord} {generation : GenerationRecord}
    {u : Unit} (h : slots.Chain chain) (hmem : generation ∈ slots.generations)
    (hpredecessor : generation.predecessor = chain.getLast?.map (·.token))
    (hcheck : checkGeneration slots chain generation = .ok u) :
    slots.Chain (chain ++ [generation]) := by
  obtain ⟨hordinal, hidentity, hrelease⟩ := checkGeneration_eq_ok hcheck
  have hlast : ∀ i g, (chain ++ [generation])[i]? = some g →
      chain[i]? = some g ∨ (i = chain.length ∧ g = generation) := by
    intro i g hg
    rw [List.getElem?_append] at hg
    split at hg
    · exact .inl hg
    · rename_i hge
      rw [List.getElem?_singleton] at hg
      split at hg
      · exact .inr ⟨by omega, (Option.some.inj hg).symm⟩
      · exact absurd hg nofun
  refine ⟨?_, ?_, ?_, ?_, ?_, ?_⟩
  · intro g hg
    rcases List.mem_append.mp hg with hg | hg
    · exact h.mem g hg
    · exact List.mem_singleton.mp hg ▸ hmem
  · intro i g hg
    rcases hlast i g hg with hg | ⟨rfl, rfl⟩
    · exact h.ordinal i g hg
    · exact hordinal
  · intro g hg
    rcases hlast 0 g hg with hg | ⟨hempty, rfl⟩
    · exact h.root g hg
    · rw [hpredecessor, List.getLast?_eq_none_iff.mpr (List.eq_nil_of_length_eq_zero hempty.symm)]
      rfl
  · intro i g g' hg hg'
    rcases hlast (i + 1) g' hg' with hg' | ⟨hlength, rfl⟩
    · have hlt : i < chain.length := by
        have := (List.getElem?_eq_some_iff.mp hg').1
        omega
      rw [List.getElem?_append_left hlt] at hg
      exact h.predecessor i g g' hg hg'
    · -- the generation before the new one is the last of the chain
      rw [List.getElem?_append_left (by omega)] at hg
      rw [hpredecessor, List.getLast?_eq_getElem?, ← hlength, Nat.add_sub_cancel, hg]
      rfl
  · intro first hfirst g hg
    rcases List.mem_append.mp hg with hg | hg
    · have hlt : 0 < chain.length := List.length_pos_of_mem hg
      rw [List.getElem?_append_left hlt] at hfirst
      exact h.identity first hfirst g hg
    · obtain rfl := List.mem_singleton.mp hg
      rcases hlast 0 first hfirst with hfirst | ⟨-, rfl⟩
      · exact hidentity first hfirst
      · exact ⟨rfl, rfl⟩
  · intro g hg
    rcases List.mem_append.mp hg with hg | hg
    · exact h.release g hg
    · exact List.mem_singleton.mp hg ▸ hrelease

/-- The ordinals tell the generations of a chain apart. -/
theorem Slots.Chain.nodup {chain : List GenerationRecord} (h : slots.Chain chain) :
    chain.Nodup := by
  rw [List.nodup_iff_getElem?_ne_getElem?]
  intro i j hij hj heq
  have hg : chain[j]? = some chain[j] := List.getElem?_eq_getElem hj
  have hi := h.ordinal i _ (heq.trans hg)
  have hj := h.ordinal j _ hg
  omega

theorem Slots.Chain.length_le {chain : List GenerationRecord} (h : slots.Chain chain) :
    chain.length ≤ slots.generations.length :=
  (h.nodup.subperm h.mem).length_le

/-- The walk ends: a chain has no more generations than the slots. -/
theorem walkChain_isSome (hnext : ∀ predecessor generation,
      slots.successors predecessor = some generation →
        generation ∈ slots.generations ∧ generation.predecessor = predecessor)
    (fuel : Nat) (chain : List GenerationRecord) (hchain : slots.Chain chain)
    (hfuel : slots.generations.length < fuel + chain.length) :
    ∃ walked, walkChain slots fuel (chain.getLast?.map (·.token)) chain = some walked ∧
      ∀ result, walked = .ok result → slots.Chain result := by
  induction fuel generalizing chain with
  | zero =>
    have := hchain.length_le
    omega
  | succ fuel ih =>
    rw [walkChain]
    split
    · exact ⟨_, rfl, fun result h => Except.ok.inj h ▸ hchain⟩
    · rename_i generation hsuccessor
      obtain ⟨hmem, hpredecessor⟩ := hnext _ _ hsuccessor
      split
      · exact ⟨_, rfl, nofun⟩
      · rename_i u hcheck
        have hconcat := hchain.concat hmem hpredecessor hcheck
        have hlast : (chain ++ [generation]).getLast?.map (·.token) = some generation.token := by
          rw [List.getLast?_concat]
          rfl
        rw [← hlast]
        refine ih _ hconcat ?_
        rw [List.length_append, List.length_singleton]
        omega

/-- What the walk and the checks after it have found. -/
structure Slots.Closed (slots : Slots) (chain : List GenerationRecord) : Prop extends
    slots.Chain chain where
  generations : chain.Perm slots.generations
  releases : ∀ release ∈ slots.releases, ∃ generation ∈ chain,
    generation.token = release.generation

theorem closeChain_eq_ok {chain : List GenerationRecord} {result : ArbitrationChain}
    (hchain : slots.Chain chain) :
    closeChain slots orphans chain = .ok result ↔
      slots.Closed chain ∧ result = ⟨chain, slots.releases, orphans, chain.getLast?⟩ := by
  simp only [closeChain, bind_eq_ok, demand_eq_ok, decide_eq_true_eq, List.all_eq_true,
    List.any_eq_true]
  constructor
  · rintro ⟨-, hlength, -, hreleases, heq⟩
    have hperm : chain.Perm slots.generations :=
      (hchain.nodup.subperm hchain.mem).perm_of_length_le (Nat.le_of_eq hlength.symm)
    refine ⟨⟨hchain, hperm, fun release hrelease => ?_⟩, (Except.ok.inj heq).symm⟩
    obtain ⟨generation, hmem, htoken⟩ := hreleases release hrelease
    exact ⟨generation, hperm.mem_iff.mpr hmem, htoken⟩
  · rintro ⟨hclosed, rfl⟩
    refine ⟨(), hclosed.generations.length_eq, (), fun release hrelease => ?_, rfl⟩
    obtain ⟨generation, hmem, htoken⟩ := hclosed.releases release hrelease
    exact ⟨generation, hclosed.generations.mem_iff.mp hmem, htoken⟩

theorem Inspected.successors_some (h : Inspected (N := N) entries slots orphans)
    {predecessor : Option JsString} {generation : GenerationRecord}
    (hsuccessor : slots.successors predecessor = some generation) :
    generation ∈ slots.generations ∧ generation.predecessor = predecessor := by
  rw [h.successors_eq, find_eq_some_iff h.predecessors_nodup] at hsuccessor
  exact hsuccessor

theorem Inspected.walk (h : Inspected (N := N) entries slots orphans) :
    ∃ walked, walkChain slots (slots.generations.length + 1) none [] = some walked ∧
      ∀ result, walked = .ok result → slots.Chain result :=
  walkChain_isSome (fun _ _ => h.successors_some) _ [] .nil (Nat.lt_succ_self _)

-- ============================================================================
-- The inspection
-- ============================================================================

variable {localeCompare : JsString → JsString → Ordering}

variable (localeCompare) in
/-- The inspection ends. -/
theorem inspectArbitrationDirectory_isSome (entries : List ArbitrationDirectoryEntry) :
    ∃ outcome, inspectArbitrationDirectory N localeCompare entries = some outcome := by
  unfold inspectArbitrationDirectory
  split
  · exact ⟨_, rfl⟩
  · rename_i slots orphans hentries
    obtain ⟨walked, hwalked, -⟩ := (inspectEntries_eq_ok.mp hentries).walk
    rw [hwalked]
    exact ⟨_, rfl⟩

theorem inspectArbitrationDirectory_eq_ok {chain : ArbitrationChain} :
    inspectArbitrationDirectory N localeCompare entries = some (.ok chain) ↔
      ∃ slots orphans generations, Inspected (N := N) entries slots orphans ∧
        walkChain slots (slots.generations.length + 1) none [] = some (.ok generations) ∧
        slots.Closed generations ∧
        chain = ⟨generations, slots.releases,
          orphans.mergeSort fun left right => localeCompare left.name right.name != .gt,
          generations.getLast?⟩ := by
  unfold inspectArbitrationDirectory
  constructor
  · intro h
    split at h
    · exact absurd (Option.some.inj h) nofun
    · rename_i slots orphans hentries
      have hinspected := inspectEntries_eq_ok.mp hentries
      obtain ⟨walked, hwalked, hchain⟩ := hinspected.walk
      rw [hwalked, Option.map_some, Option.some.injEq, exceptBind_eq_ok] at h
      obtain ⟨generations, rfl, hclose⟩ := h
      obtain ⟨hclosed, rfl⟩ := (closeChain_eq_ok (hchain generations rfl)).mp hclose
      exact ⟨slots, orphans, generations, hinspected, hwalked, hclosed, rfl⟩
  · rintro ⟨slots, orphans, generations, hinspected, hwalked, hclosed, rfl⟩
    rw [inspectEntries_eq_ok.mpr hinspected]
    simp only [hwalked, Option.map_some, Option.some.injEq, exceptBind_eq_ok]
    exact ⟨generations, rfl, (closeChain_eq_ok hclosed.toChain).mpr ⟨hclosed, rfl⟩⟩

/-- One chain, but for the order of its orphans and of the releases in their map. -/
structure ArbitrationChain.Same (left right : ArbitrationChain) : Prop where
  generations : left.generations = right.generations
  releases : left.release? = right.release?
  releaseRecords : left.releases.Perm right.releases
  orphans : left.orphans.Perm right.orphans
  tip : left.tip = right.tip

/-- The order of the orphans is that of their names, where no two names compare equal. -/
def Separates (localeCompare : JsString → JsString → Ordering) (names : List JsString) : Prop :=
  Std.TransCmp localeCompare ∧
    ∀ left ∈ names, ∀ right ∈ names, localeCompare left right = .eq → left = right

/-- What an accepted chain has been checked for. -/
structure ArbitrationChain.WellFormed (N : Type) [JsonNumber N]
    (entries : List ArbitrationDirectoryEntry) (chain : ArbitrationChain) : Prop where
  ordinal : ∀ i generation, chain.generations[i]? = some generation → generation.ordinal = i + 1
  root : ∀ generation, chain.generations[0]? = some generation → generation.predecessor = none
  predecessor : ∀ i generation generation', chain.generations[i]? = some generation →
    chain.generations[i + 1]? = some generation' →
    generation'.predecessor = some generation.token
  tokens : (chain.generations.map (·.token)).Nodup
  identity : ∀ generation ∈ chain.generations, ∀ generation' ∈ chain.generations,
    generation.toArbitrationIdentity = generation'.toArbitrationIdentity ∧
      generation.runName = generation'.runName
  release : ∀ release ∈ chain.releases, ∃ generation ∈ chain.generations,
    generation.token = release.generation ∧ generation.role ≠ .retirement ∧
      generation.toArbitrationIdentity = release.toArbitrationIdentity ∧
      release.processNonce = generation.processNonce
  releases : (chain.releases.map (·.generation)).Nodup
  slot : ∀ entry ∈ entries, ∀ name, slotName entry.name = some name →
    ∃ bytes stat, entry.load = some (bytes, stat) ∧
      ((∃ record ∈ chain.generations, name.Holds N bytes (.generation record)) ∨
        ∃ record ∈ chain.releases, name.Holds N bytes (.release record))
  tip : chain.tip = chain.generations.getLast?

theorem wellFormed_of_closed (h : Inspected (N := N) entries slots orphans)
    {generations : List GenerationRecord} (hclosed : slots.Closed generations)
    {listed : List ArbitrationOrphan} :
    ArbitrationChain.WellFormed N entries
      ⟨generations, slots.releases, listed, generations.getLast?⟩ where
  ordinal := hclosed.ordinal
  root := hclosed.root
  predecessor := hclosed.predecessor
  tokens := (hclosed.generations.map _).nodup_iff.mpr h.distinct.generations
  identity := by
    intro generation hmem generation' hmem'
    -- both are compared with the first generation
    have hlength : 0 < generations.length := List.length_pos_of_mem hmem
    have hfirst : generations[0]? = some generations[0] := List.getElem?_eq_getElem hlength
    have hleft := hclosed.identity _ hfirst generation hmem
    have hright := hclosed.identity _ hfirst generation' hmem'
    exact ⟨hleft.1.symm.trans hright.1, hleft.2.symm.trans hright.2⟩
  release := by
    intro release hrelease
    obtain ⟨generation, hmem, htoken⟩ := hclosed.releases release hrelease
    have hfind := (find_eq_some_iff h.distinct.releases).mpr ⟨hrelease, htoken.symm⟩
    exact ⟨generation, hmem, htoken, hclosed.release generation hmem release hfind⟩
  releases := h.distinct.releases
  slot := by
    intro entry hentry name hname
    obtain ⟨bytes, stat, hload, hholds⟩ := h.slot_accounted hentry hname
    refine ⟨bytes, stat, hload, ?_⟩
    rcases hholds with ⟨record, hmem, hholds⟩ | hholds
    · exact .inl ⟨record, hclosed.generations.mem_iff.mpr hmem, hholds⟩
    · exact .inr hholds
  tip := rfl

/-- Where names are told apart, two sorted lists of the same orphans are one. -/
theorem mergeSort_orphans_eq {left right : List ArbitrationOrphan} (hperm : left.Perm right)
    (hnames : (left.map (·.name)).Nodup) (h : Separates localeCompare (left.map (·.name))) :
    (left.mergeSort fun a b => localeCompare a.name b.name != .gt) =
      right.mergeSort fun a b => localeCompare a.name b.name != .gt := by
  obtain ⟨htrans, hseparates⟩ := h
  let le (a b : ArbitrationOrphan) : Bool := localeCompare a.name b.name != .gt
  have hle : ∀ a b, le a b = true ↔ (localeCompare a.name b.name).isLE := by
    intro a b
    show (localeCompare a.name b.name != .gt) = true ↔ _
    cases localeCompare a.name b.name <;> decide
  have hleTrans : ∀ a b c, le a b = true → le b c = true → le a c = true := by
    intro a b c hab hbc
    rw [hle] at hab hbc ⊢
    exact Std.TransCmp.isLE_trans hab hbc
  have hleTotal : ∀ a b, (le a b || le b a) = true := by
    intro a b
    have hswap : localeCompare b.name a.name = (localeCompare a.name b.name).swap :=
      Std.OrientedCmp.eq_swap
    rw [Bool.or_eq_true, hle, hle, hswap]
    cases localeCompare a.name b.name <;> decide
  have hsorted := List.pairwise_mergeSort hleTrans hleTotal
  refine List.Perm.eq_of_pairwise (fun a b ha hb hab hba => ?_) (hsorted left) (hsorted right)
    ((List.mergeSort_perm _ _).trans (hperm.trans (List.mergeSort_perm _ _).symm))
  have hamem : a ∈ left := List.mem_mergeSort.mp ha
  have hbmem : b ∈ left := hperm.mem_iff.mpr (List.mem_mergeSort.mp hb)
  refine List.inj_on_of_nodup_map hnames hamem hbmem (hseparates _ (List.mem_map_of_mem hamem) _
    (List.mem_map_of_mem hbmem) ?_)
  -- both comparisons hold, so neither name is greater
  have hswap : localeCompare b.name a.name = (localeCompare a.name b.name).swap :=
    Std.OrientedCmp.eq_swap
  rw [hle] at hab hba
  rw [hswap] at hba
  revert hab hba
  cases localeCompare a.name b.name <;> decide

theorem Inspected.orphans_nodup (h : Inspected (N := N) entries slots orphans) :
    (orphans.map (·.name)).Nodup := by
  have hnames := h.names
  rw [List.Nodup, List.pairwise_map] at hnames
  rw [h.orphans_eq, List.Nodup, List.pairwise_map]
  refine List.Pairwise.filterMap _ (fun entry entry' hne orphan horphan orphan' horphan' => ?_)
    hnames
  have hname : ∀ entry orphan, orphan? N slots.referenced entry = some orphan →
      orphan.name = entry.name := by
    intro entry orphan horphan
    rw [orphan?] at horphan
    split at horphan
    · exact absurd horphan nofun
    · obtain ⟨kind, -, rfl⟩ := Option.map_eq_some_iff.mp horphan
      rfl
  rw [hname _ _ horphan, hname _ _ horphan']
  exact hne

/-- A listing that is accepted is accepted in every other order, as the same chain. -/
theorem inspectArbitrationDirectory_perm (hperm : entries.Perm entries')
    {chain : ArbitrationChain}
    (h : inspectArbitrationDirectory N localeCompare entries = some (.ok chain)) :
    ∃ chain', inspectArbitrationDirectory N localeCompare entries' = some (.ok chain') ∧
      chain.Same chain' ∧ chain.WellFormed N entries ∧
      (Separates localeCompare (chain.orphans.map (·.name)) → chain.orphans = chain'.orphans) := by
  obtain ⟨slots, orphans, generations, hinspected, hwalked, hclosed, rfl⟩ :=
    inspectArbitrationDirectory_eq_ok.mp h
  obtain ⟨slots', orphans', hinspected', hsimilar, horphans⟩ := hinspected.perm hperm
  have hclosed' : slots'.Closed generations :=
    { mem := fun generation hmem =>
        hsimilar.generations.mem_iff.mp (hclosed.mem generation hmem)
      ordinal := hclosed.ordinal
      root := hclosed.root
      predecessor := hclosed.predecessor
      identity := hclosed.identity
      release := by
        intro generation hmem release hfind
        rw [← find_perm hsimilar.releases hinspected.distinct.releases] at hfind
        exact hclosed.release generation hmem release hfind
      generations := hclosed.generations.trans hsimilar.generations
      releases := fun release hrelease =>
        hclosed.releases release (hsimilar.releases.mem_iff.mpr hrelease) }
  have hwalked' : walkChain slots' (slots'.generations.length + 1) none [] =
      some (.ok generations) := by
    rw [← walkChain_congr hsimilar hinspected.distinct, ← hsimilar.generations.length_eq]
    exact hwalked
  refine ⟨_, inspectArbitrationDirectory_eq_ok.mpr
    ⟨slots', orphans', generations, hinspected', hwalked', hclosed', rfl⟩,
    ⟨rfl, ?_, hsimilar.releases, ?_, rfl⟩, wellFormed_of_closed hinspected hclosed, ?_⟩
  · funext token
    exact find_perm hsimilar.releases hinspected.distinct.releases token
  · exact (List.mergeSort_perm _ _).trans (horphans.trans (List.mergeSort_perm _ _).symm)
  · intro hseparates
    refine mergeSort_orphans_eq horphans hinspected.orphans_nodup ⟨hseparates.1, ?_⟩
    intro left hleft right hright
    have hmem : ∀ name, name ∈ orphans.map (·.name) → name ∈ (orphans.mergeSort
        fun left right => localeCompare left.name right.name != .gt).map (·.name) :=
      fun name hname => ((List.mergeSort_perm _ _).map _).mem_iff.mpr hname
    exact hseparates.2 left (hmem left hleft) right (hmem right hright)

/-- Two listings of the same entries have one outcome, apart from which orphans of equal
    names come first, and an accepted chain is well formed. -/
theorem inspectArbitrationDirectory_order (hperm : entries.Perm entries') :
    ∃ outcome outcome', inspectArbitrationDirectory N localeCompare entries = some outcome ∧
      inspectArbitrationDirectory N localeCompare entries' = some outcome' ∧
      ((∃ error error', outcome = .error error ∧ outcome' = .error error') ∨
        ∃ chain chain', outcome = .ok chain ∧ outcome' = .ok chain' ∧ chain.Same chain' ∧
          chain.WellFormed N entries ∧
          (Separates localeCompare (chain.orphans.map (·.name)) →
            chain.orphans = chain'.orphans)) := by
  obtain ⟨outcome, houtcome⟩ :=
    inspectArbitrationDirectory_isSome (N := N) localeCompare entries
  obtain ⟨outcome', houtcome'⟩ :=
    inspectArbitrationDirectory_isSome (N := N) localeCompare entries'
  refine ⟨outcome, outcome', houtcome, houtcome', ?_⟩
  cases outcome with
  | ok chain =>
    obtain ⟨chain', hchain', hsame⟩ := inspectArbitrationDirectory_perm hperm houtcome
    rw [houtcome'] at hchain'
    exact .inr ⟨chain, chain', rfl, Option.some.inj hchain', hsame⟩
  | error error =>
    cases outcome' with
    | error error' => exact .inl ⟨error, error', rfl, rfl⟩
    | ok chain' =>
      -- the other order would accept, and so would this one
      obtain ⟨chain, hchain, -⟩ := inspectArbitrationDirectory_perm hperm.symm houtcome'
      exact absurd (houtcome.symm.trans hchain) nofun

-- ============================================================================
-- Names that compare equal
-- ============================================================================

/-- A comparison that holds a composed letter and its decomposition equal. -/
def decomposingCompare (left right : JsString) : Ordering :=
  let decompose (s : JsString) : JsString :=
    s.flatMap fun unit => if unit = 0xE9 then [0x65, 0x301] else [unit]
  compare ((decompose left).map (·.val)) ((decompose right).map (·.val))

def composedOrphan : ArbitrationDirectoryEntry :=
  ⟨js "gen-" ++ [0xE9] ++ js ".json", none⟩

def decomposedOrphan : ArbitrationDirectoryEntry :=
  ⟨js "gen-" ++ [0x65, 0x301] ++ js ".json", none⟩

/-- Two orphans whose names compare equal are listed in the order of the listing. -/
theorem inspectArbitrationDirectory_listingOrder :
    [composedOrphan, decomposedOrphan].Perm [decomposedOrphan, composedOrphan] ∧
      inspectArbitrationDirectory Int decomposingCompare [composedOrphan, decomposedOrphan] ≠
        inspectArbitrationDirectory Int decomposingCompare [decomposedOrphan, composedOrphan] := by
  have hlisted : ∀ left right : ArbitrationDirectoryEntry,
      (left = composedOrphan ∧ right = decomposedOrphan) ∨
        (left = decomposedOrphan ∧ right = composedOrphan) →
      inspectArbitrationDirectory Int decomposingCompare [left, right] =
        some (.ok ⟨[], [], [⟨left.name, .generation, .unverifiable⟩,
          ⟨right.name, .generation, .unverifiable⟩], none⟩) := by
    intro left right h
    have hentries : inspectEntries Int [left, right] =
        .ok (Slots.empty, [⟨left.name, .generation, .unverifiable⟩,
          ⟨right.name, .generation, .unverifiable⟩]) := by
      rcases h with ⟨rfl, rfl⟩ | ⟨rfl, rfl⟩
      · rfl
      · rfl
    have hequal : decomposingCompare left.name right.name = .eq := by
      rcases h with ⟨rfl, rfl⟩ | ⟨rfl, rfl⟩
      · decide
      · decide
    -- the sort keeps equal names in their order
    have hsorted : ([⟨left.name, .generation, .unverifiable⟩,
        ⟨right.name, .generation, .unverifiable⟩] : List ArbitrationOrphan).Pairwise
        fun a b => (decomposingCompare a.name b.name != .gt) = true := by
      rw [List.pairwise_pair, hequal]
      rfl
    rw [inspectArbitrationDirectory, hentries]
    simp only [List.mergeSort_of_pairwise hsorted]
    rfl
  refine ⟨List.Perm.swap _ _ _, ?_⟩
  rw [hlisted _ _ (.inl ⟨rfl, rfl⟩), hlisted _ _ (.inr ⟨rfl, rfl⟩)]
  decide

/-- The generation that `successorGeneration` succeeds. -/
def releasedGeneration : GenerationRecord :=
  { successorGeneration with token := List.replicate 64 0x61, predecessor := none, ordinal := 1 }

/-- The slot and the intent of a record, which are one file. -/
def recordEntries (slot intent : JsString) (ino : Nat)
    (encoded : Except WriterProtocolError (List Byte)) : List ArbitrationDirectoryEntry :=
  let load := encoded.toOption.map fun bytes => (bytes, ⟨1, ino, 0o600, 2, bytes.length, true⟩)
  [⟨slot, load⟩, ⟨intent, load⟩]

/-- Two generations, the release of the first, and two orphans. -/
def releasedListing : List ArbitrationDirectoryEntry :=
  [composedOrphan] ++
    recordEntries (successorSlotFilename successorGeneration.predecessor)
      (generationIntentFilename successorGeneration.token) 5
      (encodeGenerationRecord Int successorGeneration) ++
    recordEntries (releaseSlotFilename predecessorRelease.generation)
      (releaseIntentFilename predecessorRelease.token) 6
      (encodeReleaseRecord Int predecessorRelease) ++
    [decomposedOrphan] ++
    recordEntries (successorSlotFilename none) (generationIntentFilename releasedGeneration.token) 7
      (encodeGenerationRecord Int releasedGeneration)

/-- The order of code units, in which only equal names compare equal. -/
def compareUnits : JsString → JsString → Ordering := compareOn fun name => name.map (·.val)

theorem separates_compareUnits (names : List JsString) : Separates compareUnits names := by
  refine ⟨inferInstanceAs (Std.TransCmp (compareOn _)), fun left _ right _ heq => ?_⟩
  have hunits : left.map (·.val) = right.map (·.val) := Std.compare_eq_iff_eq.mp heq
  exact List.map_injective_iff.mpr Fin.val_injective hunits

theorem inspectArbitrationDirectory_order_released : ∃ chain chain',
    inspectArbitrationDirectory Int compareUnits releasedListing = some (.ok chain) ∧
      inspectArbitrationDirectory Int compareUnits releasedListing.reverse = some (.ok chain') ∧
      chain.generations = [releasedGeneration, successorGeneration] ∧
      chain.releases = [predecessorRelease] ∧ chain.Same chain' ∧
      chain.orphans = chain'.orphans ∧ chain.WellFormed Int releasedListing := by
  obtain ⟨outcome, outcome', houtcome, houtcome', hsame⟩ := @inspectArbitrationDirectory_order Int _
    releasedListing releasedListing.reverse compareUnits (List.reverse_perm _).symm
  have haccepted : (inspectArbitrationDirectory Int compareUnits releasedListing).map
      (fun outcome => outcome.toOption.map fun chain => (chain.generations, chain.releases)) =
        some (some ([releasedGeneration, successorGeneration], [predecessorRelease])) := by
    decide +kernel
  rw [houtcome] at haccepted
  rcases hsame with ⟨error, error', rfl, -⟩ | ⟨chain, chain', rfl, rfl, hsame, hwellFormed, horphans⟩
  · exact absurd haccepted (by simp [Except.toOption])
  · obtain ⟨hgenerations, hreleases⟩ :=
      Prod.mk.inj (Option.some.inj (Option.some.inj haccepted))
    exact ⟨chain, chain', houtcome, houtcome', hgenerations, hreleases, hsame,
      horphans (separates_compareUnits _), hwellFormed⟩

end PiRlm.Runtime

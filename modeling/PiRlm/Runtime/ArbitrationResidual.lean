/-
  PiRlm.Runtime.ArbitrationResidual

  What is left of an arbitration directory: when the inspection of some of its files still
  finds the tip that the inspection of all of them finds.

  A slot and its intent are the two links of one file.  Every slot of a generation, every
  intent of a slot that is left, and few enough other files have to be left.
-/
import Mathlib
import PiRlm.Runtime.ArbitrationDirectorySound
import PiRlm.Runtime.RunWriterQuarantine

namespace PiRlm.Runtime

open PiRlm.Lib PiRlm.Core PiRlm.Shell

namespace ArbitrationFile

def isSlot (file : ArbitrationFile) : Bool := (slotName file.name).isSome

def isGenerationSlot (file : ArbitrationFile) : Bool :=
  match slotName file.name with
  | some (.next _) => true
  | _ => false

/-- A slot, or a file that a slot links to. -/
def isEvidence (files : List ArbitrationFile) (file : ArbitrationFile) : Bool :=
  files.any fun slot => slot.isSlot && slot.sameInode file

/-- A file of a directory, as an entry of its listing. -/
def entry (files : List ArbitrationFile) (file : ArbitrationFile) : ArbitrationDirectoryEntry :=
  ⟨file.name, file.load files⟩

theorem sameInode_self (file : ArbitrationFile) : file.sameInode file = true := by
  simp only [sameInode, decide_true, Bool.and_self]

theorem sameInode_iff {left right : ArbitrationFile} :
    left.sameInode right = true ↔ left.dev = right.dev ∧ left.ino = right.ino := by
  simp only [sameInode, Bool.and_eq_true, decide_eq_true_eq]

theorem sameInode_eq {left right : ArbitrationFile} (h : left.sameInode right = true) :
    left.sameInode = right.sameInode := by
  obtain ⟨hdev, hino⟩ := sameInode_iff.mp h
  funext other
  rw [sameInode, sameInode, hdev, hino]

theorem isSlot_of_generation {file : ArbitrationFile} (h : file.isGenerationSlot = true) :
    file.isSlot = true := by
  unfold isGenerationSlot at h
  unfold isSlot
  split at h
  · rename_i hname
    rw [hname]
    rfl
  · exact absurd h nofun

theorem isEvidence_iff {files : List ArbitrationFile} {file : ArbitrationFile} :
    file.isEvidence files = true ↔
      ∃ slot ∈ files, slot.isSlot = true ∧ slot.sameInode file = true := by
  simp only [isEvidence, List.any_eq_true, Bool.and_eq_true]

theorem isEvidence_slot {files : List ArbitrationFile} {slot : ArbitrationFile}
    (hmem : slot ∈ files) (hslot : slot.isSlot = true) : slot.isEvidence files = true :=
  isEvidence_iff.mpr ⟨slot, hmem, hslot, slot.sameInode_self⟩

end ArbitrationFile

open ArbitrationFile

/-- The files that are left of a directory are enough for its inspection. -/
structure Intact (original files : List ArbitrationFile) : Prop where
  /-- The generations have their slots and intents. -/
  generations : ∀ slot ∈ original, slot.isGenerationSlot = true →
    ∀ file ∈ original, slot.sameInode file = true → file ∈ files
  /-- A slot that is left has its intent. -/
  intents : ∀ slot ∈ files, slot.isSlot = true →
    ∀ file ∈ original, slot.sameInode file = true → file ∈ files
  budget : (files.filter fun file => !file.isEvidence files).length ≤ maxArbitrationOrphans

instance (original files : List ArbitrationFile) : Decidable (Intact original files) :=
  decidable_of_iff
    ((∀ slot ∈ original, slot.isGenerationSlot = true →
        ∀ file ∈ original, slot.sameInode file = true → file ∈ files) ∧
      (∀ slot ∈ files, slot.isSlot = true →
        ∀ file ∈ original, slot.sameInode file = true → file ∈ files) ∧
      (files.filter fun file => !file.isEvidence files).length ≤ maxArbitrationOrphans)
    ⟨fun h => ⟨h.1, h.2.1, h.2.2⟩, fun h => ⟨h.generations, h.intents, h.budget⟩⟩

variable {N : Type} [JsonNumber N] {localeCompare : JsString → JsString → Ordering}
  {entries entries' : List ArbitrationDirectoryEntry} {slots slots' : Slots}
  {orphans orphans' : List ArbitrationOrphan} {original files : List ArbitrationFile}

-- ============================================================================
-- A slot and its intent
-- ============================================================================

/-- A slot that reads and its intent are the two links of one file. -/
theorem intent_of_slotRecord {entry : ArbitrationDirectoryEntry} {record : SlotRecord}
    (h : slotRecord? N entries entry = some record) :
    ∃ bytes stat intent intentBytes intentStat, entry.load = some (bytes, stat) ∧ stat.nlink = 2 ∧
      findEntry entries record.intentName = some intent ∧
      intent.load = some (intentBytes, intentStat) ∧ sameInode stat intentStat = true := by
  obtain ⟨name, hname, hread⟩ := slotRecord_eq_some_iff.mp h
  simp only [readSlot, exceptBind_eq_ok, map_eq_ok, demand_eq_ok] at hread
  obtain ⟨⟨bytes, stat⟩, hentry, -, hlinks, record', -, u, hmatch, rfl⟩ := hread
  unfold matchIntent at hmatch
  split at hmatch
  · exact absurd hmatch (by simp [corrupt])
  · rename_i intent hintent
    simp only [exceptBind_eq_ok, demand_eq_ok, Bool.and_eq_true] at hmatch
    obtain ⟨⟨intentBytes, intentStat⟩, hload, hsame, -⟩ := hmatch
    exact ⟨bytes, stat, intent, intentBytes, intentStat, load_of_entryIdentity hentry,
      of_decide_eq_true hlinks, hintent, load_of_entryIdentity hload, hsame⟩

/-- A slot reads in another listing that has the same entry under its intent's name. -/
theorem slotRecord_of_intent {entry : ArbitrationDirectoryEntry} {record : SlotRecord}
    (h : slotRecord? N entries entry = some record)
    (hfind : findEntry entries' record.intentName = findEntry entries record.intentName) :
    slotRecord? N entries' entry = some record := by
  obtain ⟨name, hname, hread⟩ := slotRecord_eq_some_iff.mp h
  refine slotRecord_eq_some_iff.mpr ⟨name, hname, ?_⟩
  simp only [readSlot, exceptBind_eq_ok, map_eq_ok, demand_eq_ok] at hread ⊢
  obtain ⟨loaded, hentry, u, hlinks, record', hdecode, v, hmatch, rfl⟩ := hread
  refine ⟨loaded, hentry, u, hlinks, record', hdecode, v, ?_, rfl⟩
  rw [matchIntent, hfind]
  exact hmatch

/-- What a slot holds is decided by its name and its content. -/
theorem slotRecord_eq {entry entry' : ArbitrationDirectoryEntry} {record record' : SlotRecord}
    {bytes : List Byte} {stat stat' : ArbitrationEntryStat}
    (h : slotRecord? N entries entry = some record)
    (h' : slotRecord? N entries' entry' = some record') (hname : entry.name = entry'.name)
    (hload : entry.load = some (bytes, stat)) (hload' : entry'.load = some (bytes, stat')) :
    record = record' := by
  obtain ⟨name, bytes₁, stat₁, hslot, hload₁, hdecode⟩ := load_of_slotRecord h
  obtain ⟨name', bytes₂, stat₂, hslot', hload₂, hdecode'⟩ := load_of_slotRecord h'
  obtain ⟨rfl, -⟩ := Prod.mk.inj (Option.some.inj (hload.symm.trans hload₁))
  obtain ⟨rfl, -⟩ := Prod.mk.inj (Option.some.inj (hload'.symm.trans hload₂))
  rw [hname] at hslot hdecode
  obtain rfl := Option.some.inj (hslot.symm.trans hslot')
  exact Except.ok.inj (hdecode.symm.trans hdecode')

theorem intentKind_generationIntent (token : JsString) :
    (intentKind (generationIntentFilename token)).isSome := by
  have hstart : (js "gen-").isPrefixOf (generationIntentFilename token) = true := by
    rw [List.isPrefixOf_iff_prefix, generationIntentFilename, List.append_assoc]
    exact List.prefix_append _ _
  have hstop : (js ".json").isSuffixOf (generationIntentFilename token) = true := by
    rw [List.isSuffixOf_iff_suffix]
    exact List.suffix_append _ _
  rw [intentKind, hstart, hstop]
  rfl

theorem intentKind_releaseIntent (token : JsString) :
    (intentKind (releaseIntentFilename token)).isSome := by
  have hstart : (js "rel-").isPrefixOf (releaseIntentFilename token) = true := by
    rw [List.isPrefixOf_iff_prefix, releaseIntentFilename, List.append_assoc]
    exact List.prefix_append _ _
  have hstop : (js ".json").isSuffixOf (releaseIntentFilename token) = true := by
    rw [List.isSuffixOf_iff_suffix]
    exact List.suffix_append _ _
  rw [intentKind, hstart, hstop]
  split <;> rfl

theorem intentKind_intentName (record : SlotRecord) : (intentKind record.intentName).isSome := by
  cases record with
  | generation record => exact intentKind_generationIntent record.token
  | release record => exact intentKind_releaseIntent record.token

/-- The name of a slot and that of an intent end in another unit. -/
theorem slotName_intentName (record : SlotRecord) : slotName record.intentName = none := by
  have hslot : ∀ slot : SlotName, slot.filename.getLast? = some 0x6d := by
    intro slot
    cases slot with
    | next predecessor =>
      cases predecessor with
      | none => rfl
      | some predecessor => rw [SlotName.filename, List.getLast?_append]; rfl
    | released generation => rw [SlotName.filename, List.getLast?_append]; rfl
  have hintent : record.intentName.getLast? = some 0x6e := by
    cases record with
    | generation record =>
      rw [SlotRecord.intentName, generationIntentFilename, List.getLast?_append]
      rfl
    | release record =>
      rw [SlotRecord.intentName, releaseIntentFilename, List.getLast?_append]
      rfl
  cases hname : slotName record.intentName with
  | none => rfl
  | some slot =>
    rw [filename_of_slotName hname, hslot] at hintent
    exact absurd hintent (by decide)

-- ============================================================================
-- The files of a directory and their links
-- ============================================================================

theorem load_eq_some {file : ArbitrationFile} {bytes : List Byte} {stat : ArbitrationEntryStat}
    (h : file.load files = some (bytes, stat)) :
    bytes = file.content ∧ stat.dev = file.dev ∧ stat.ino = file.ino ∧
      stat.nlink = file.elsewhere + files.countP file.sameInode := by
  unfold ArbitrationFile.load at h
  split at h
  · obtain ⟨rfl, rfl⟩ := Prod.mk.inj (Option.some.inj h)
    exact ⟨rfl, rfl, rfl, rfl⟩
  · exact absurd h nofun

theorem nodup_of_names (hnames : (original.map (·.name)).Nodup) : original.Nodup :=
  hnames.of_map _

theorem file_eq_of_name (hnames : (original.map (·.name)).Nodup) {file file' : ArbitrationFile}
    (hfile : file ∈ original) (hfile' : file' ∈ original) (hname : file.name = file'.name) :
    file = file' :=
  List.inj_on_of_nodup_map hnames hfile hfile' hname

/-- A file with two links is under no third name. -/
theorem intent_unique {slot file intent : ArbitrationFile} {bytes : List Byte} {stat : ArbitrationEntryStat}
    (hload : slot.load original = some (bytes, stat)) (hlinks : stat.nlink = 2)
    (hslot : slot ∈ original) (hfile : file ∈ original) (hintent : intent ∈ original)
    (hsame : slot.sameInode file = true) (hsame' : slot.sameInode intent = true)
    (hne : file ≠ slot) (hne' : intent ≠ slot) : file = intent := by
  by_contra hdistinct
  have hthree : [slot, file, intent].Nodup := by
    simp only [List.nodup_cons, List.mem_cons, List.not_mem_nil, or_false, not_or, List.nodup_nil,
      not_false_eq_true, and_true]
    exact ⟨⟨hne.symm, hne'.symm⟩, hdistinct⟩
  have hsub : [slot, file, intent] ⊆ original.filter slot.sameInode := by
    simp only [List.cons_subset, List.nil_subset, List.mem_filter, and_true]
    exact ⟨⟨hslot, slot.sameInode_self⟩, ⟨hfile, hsame⟩, hintent, hsame'⟩
  have hlength := (hthree.subperm hsub).length_le
  obtain ⟨-, -, -, hcount⟩ := load_eq_some hload
  rw [List.countP_eq_length_filter] at hcount
  simp only [List.length_cons, List.length_nil] at hlength
  omega

/-- What is left of a file keeps its links when none of them is gone. -/
theorem load_eq_of_links (hnames : (original.map (·.name)).Nodup) (hsub : files.Sublist original)
    {file : ArbitrationFile}
    (hlinks : ∀ other ∈ original, file.sameInode other = true → other ∈ files) :
    file.load files = file.load original := by
  have hcount : files.countP file.sameInode = original.countP file.sameInode := by
    apply Nat.le_antisymm hsub.countP_le
    rw [List.countP_eq_length_filter, List.countP_eq_length_filter]
    have hnodup : (original.filter file.sameInode).Nodup := (nodup_of_names hnames).filter _
    refine (hnodup.subperm fun other hother => ?_).length_le
    obtain ⟨hmem, hsame⟩ := List.mem_filter.mp hother
    exact List.mem_filter.mpr ⟨hlinks other hmem hsame, hsame⟩
  rw [ArbitrationFile.load, ArbitrationFile.load, hcount]

/-- The files that count are as they were. -/
theorem Intact.load_eq (h : Intact original files) (hnames : (original.map (·.name)).Nodup)
    (hsub : files.Sublist original) {file : ArbitrationFile}
    (hevidence : file.isEvidence files = true) : file.load files = file.load original := by
  obtain ⟨slot, hmem, hslot, hsame⟩ := isEvidence_iff.mp hevidence
  refine load_eq_of_links hnames hsub fun other hother hlink => ?_
  rw [← sameInode_eq hsame] at hlink
  exact h.intents slot hmem hslot other hother hlink

/-- The listing of a directory. -/
def listing (files : List ArbitrationFile) : List ArbitrationDirectoryEntry :=
  files.map (ArbitrationFile.entry files)

theorem listing_names (files : List ArbitrationFile) :
    (listing files).map (·.name) = files.map (·.name) := by
  rw [listing, List.map_map]
  rfl

/-- A slot of a listing that reads, with its intent. -/
theorem intent_file {slot : ArbitrationFile} {record : SlotRecord}
    (h : slotRecord? N (listing files) (slot.entry files) = some record) :
    ∃ intent ∈ files, intent.name = record.intentName ∧ slot.sameInode intent = true ∧
      findEntry (listing files) record.intentName = some (intent.entry files) ∧
      ∃ bytes stat, slot.load files = some (bytes, stat) ∧ stat.nlink = 2 := by
  obtain ⟨bytes, stat, entry, intentBytes, intentStat, hload, hlinks, hfind, hintent, hsame⟩ :=
    intent_of_slotRecord h
  obtain ⟨intent, hmem, rfl⟩ := List.mem_map.mp (List.mem_of_find?_eq_some hfind)
  obtain ⟨-, hdev, hino, -⟩ := load_eq_some hload
  obtain ⟨-, hdev', hino', -⟩ := load_eq_some hintent
  rw [Runtime.sameInode, Bool.and_eq_true, decide_eq_true_eq, decide_eq_true_eq, hdev, hdev', hino,
    hino'] at hsame
  have hname : ArbitrationDirectoryEntry.name (intent.entry files) = record.intentName :=
    key_of_find hfind
  exact ⟨intent, hmem, hname, sameInode_iff.mpr hsame, hfind, bytes, stat, hload, hlinks⟩

/-- The files that a slot links to are the slot and its intent. -/
theorem linked_cases {slot file : ArbitrationFile} {record : SlotRecord} (hslot : slot ∈ files)
    (h : slotRecord? N (listing files) (slot.entry files) = some record) (hfile : file ∈ files)
    (hsame : slot.sameInode file = true) : file = slot ∨ file.name = record.intentName := by
  obtain ⟨intent, hintent, hname, hlink, -, bytes, stat, hload, hlinks⟩ := intent_file h
  by_cases heq : file = slot
  · exact .inl heq
  · have hne : intent ≠ slot := by
      rintro rfl
      have hsome : slotName intent.name = some record.slot := slotName_of_slotRecord h
      rw [hname, slotName_intentName] at hsome
      exact absurd hsome nofun
    rw [intent_unique hload hlinks hslot hfile hintent hsame hlink heq hne]
    exact .inr hname

/-- The first pass takes the files that count, when it reads the slots among them. -/
theorem taken_eq_evidence {records : List SlotRecord} (hnames : (files.map (·.name)).Nodup)
    (hfound : ∀ record ∈ records, ∃ slot ∈ files, slot.isSlot = true ∧
      ∃ intent ∈ files, intent.name = record.intentName ∧ slot.sameInode intent = true)
    (hread : ∀ slot ∈ files, slot.isSlot = true → ∃ record ∈ records,
      ∀ file ∈ files, slot.sameInode file = true → file = slot ∨ file.name = record.intentName)
    {entry : ArbitrationDirectoryEntry} {file : ArbitrationFile} (hfile : file ∈ files)
    (hname : file.name = entry.name) :
    taken (records.map (·.intentName)) entry = file.isEvidence files := by
  rw [Bool.eq_iff_iff, isEvidence_iff, taken, Bool.or_eq_true, decide_eq_true_eq, ← hname]
  constructor
  · rintro (hslot | hintent)
    · exact ⟨file, hfile, hslot, file.sameInode_self⟩
    · obtain ⟨record, hrecord, hrecordName⟩ := List.mem_map.mp hintent
      obtain ⟨slot, hmem, hslot, intent, hintent, hintentName, hsame⟩ := hfound record hrecord
      have heq := file_eq_of_name hnames hintent hfile (hintentName.trans hrecordName)
      exact ⟨slot, hmem, hslot, heq ▸ hsame⟩
  · rintro ⟨slot, hmem, hslot, hsame⟩
    obtain ⟨record, hrecord, hlinked⟩ := hread slot hmem hslot
    rcases hlinked file hfile hsame with rfl | hintent
    · exact .inl hslot
    · exact .inr (List.mem_map.mpr ⟨record, hrecord, hintent.symm⟩)

theorem listing_taken (h : Inspected (N := N) (listing files) slots orphans)
    (hnames : (files.map (·.name)).Nodup) {entry : ArbitrationDirectoryEntry}
    {file : ArbitrationFile} (hfile : file ∈ files) (hname : file.name = entry.name) :
    taken slots.referenced entry = file.isEvidence files := by
  rw [h.referenced_eq]
  refine taken_eq_evidence hnames ?_ ?_ hfile hname
  · intro record hrecord
    obtain ⟨entry, hentry, hrecord⟩ := List.mem_filterMap.mp hrecord
    obtain ⟨slot, hmem, rfl⟩ := List.mem_map.mp hentry
    have hslot : slotName slot.name = some record.slot := slotName_of_slotRecord hrecord
    obtain ⟨intent, hintent, hname, hsame, -⟩ := intent_file hrecord
    exact ⟨slot, hmem, by rw [ArbitrationFile.isSlot, hslot]; rfl, intent, hintent, hname, hsame⟩
  · intro slot hmem hslot
    have hentry : slot.entry files ∈ listing files := List.mem_map_of_mem hmem
    obtain ⟨record, hrecord⟩ := Option.isSome_iff_exists.mp (h.read _ hentry hslot)
    exact ⟨record, List.mem_filterMap.mpr ⟨_, hentry, hrecord⟩, fun file hfile hsame =>
      linked_cases hmem hrecord hfile hsame⟩

-- ============================================================================
-- Enough is left
-- ============================================================================

/-- A listing of files of which those that count have been loaded as they are. -/
structure Views (files : List ArbitrationFile) (view : List ArbitrationDirectoryEntry) : Prop where
  names : (view.map (·.name)).Perm (files.map (·.name))
  evidence : ∀ file ∈ files, file.isEvidence files = true → file.entry files ∈ view

theorem views_listing (hperm : entries.Perm (listing files)) : Views files entries where
  names := listing_names files ▸ hperm.map _
  evidence _ hfile _ := hperm.mem_iff.mpr (List.mem_map_of_mem hfile)

/-- The entries that the first pass leaves are those of the files that do not count. -/
theorem free_length {referenced : List JsString}
    (hperm : (entries.map (·.name)).Perm (files.map (·.name)))
    (hnames : (files.map (·.name)).Nodup)
    (htaken : ∀ entry ∈ entries, ∀ file ∈ files, file.name = entry.name →
      taken referenced entry = file.isEvidence files) :
    entries.countP (fun entry => !taken referenced entry) =
      (files.filter fun file => !file.isEvidence files).length := by
  -- both are counted by their names
  let free (name : JsString) : Bool :=
    !files.any fun file => decide (file.name = name) && file.isEvidence files
  have hfree : ∀ file ∈ files, free file.name = !file.isEvidence files := by
    intro file hfile
    show (!files.any _) = _
    rw [Bool.not_inj_iff, Bool.eq_iff_iff, List.any_eq_true]
    constructor
    · rintro ⟨other, hother, hboth⟩
      rw [Bool.and_eq_true, decide_eq_true_eq] at hboth
      exact file_eq_of_name hnames hother hfile hboth.1 ▸ hboth.2
    · intro hevidence
      exact ⟨file, hfile, by rw [hevidence, decide_eq_true rfl, Bool.and_self]⟩
  calc entries.countP (fun entry => !taken referenced entry)
      = entries.countP fun entry => free entry.name := by
        refine List.countP_congr fun entry hentry => ?_
        obtain ⟨file, hfile, hname⟩ :=
          List.mem_map.mp (hperm.mem_iff.mp (List.mem_map_of_mem hentry))
        rw [← hname, hfree file hfile, ← htaken entry hentry file hfile hname]
    _ = (entries.map (·.name)).countP free := by rw [List.countP_map]; rfl
    _ = (files.map (·.name)).countP free := hperm.countP_eq _
    _ = files.countP fun file => free file.name := by rw [List.countP_map]; rfl
    _ = files.countP fun file => !file.isEvidence files :=
        List.countP_congr fun file hfile => by rw [hfree file hfile]
    _ = _ := List.countP_eq_length_filter

theorem orphans_length_le (referenced : List JsString) :
    (entries.filterMap (orphan? N referenced)).length ≤
      entries.countP fun entry => !taken referenced entry := by
  rw [List.length_filterMap_eq_countP]
  refine List.countP_mono_left fun entry _ hsome => ?_
  rw [orphan?] at hsome
  split at hsome
  · exact absurd hsome (by simp)
  · rename_i hnot
    rwa [Bool.not_eq_true, ← Bool.not_eq_true'] at hnot

theorem Inspected.orphans_length (h : Inspected (N := N) entries slots orphans) :
    orphans.length = entries.countP fun entry => !taken slots.referenced entry := by
  rw [h.orphans_eq, List.length_filterMap_eq_countP]
  refine List.countP_congr fun entry hentry => ?_
  rw [orphan?]
  split
  · rename_i htaken
    rw [htaken]
    simp
  · rename_i hnot
    rw [Bool.not_eq_true] at hnot
    rw [hnot, Option.isSome_map]
    exact ⟨fun _ => rfl, fun _ => h.kinds entry hentry hnot⟩

section Residual

variable {view : List ArbitrationDirectoryEntry}
  (h : Inspected (N := N) (listing original) slots orphans) (hsub : files.Sublist original)
  (hintact : Intact original files) (hview : Views files view)

include h hsub hintact hview

omit hintact hview in
theorem residual_names : (original.map (·.name)).Nodup ∧ (files.map (·.name)).Nodup := by
  have hnames := h.names
  rw [listing_names] at hnames
  exact ⟨hnames, hnames.sublist (hsub.map _)⟩

omit hintact in
theorem view_names : (view.map (·.name)).Nodup :=
  hview.names.nodup_iff.mpr (residual_names h hsub).2

/-- An entry of the view that counts is the entry of its file in the original listing. -/
theorem view_evidence {entry : ArbitrationDirectoryEntry} (hentry : entry ∈ view) :
    ∃ file ∈ files, file.name = entry.name ∧
      (file.isEvidence files = true → entry = file.entry original) := by
  obtain ⟨file, hfile, hname⟩ :=
    List.mem_map.mp (hview.names.mem_iff.mp (List.mem_map_of_mem hentry))
  refine ⟨file, hfile, hname, fun hevidence => ?_⟩
  have hloaded := hintact.load_eq (residual_names h hsub).1 hsub hevidence
  have hmem : file.entry original ∈ view := by
    rw [ArbitrationFile.entry, ← hloaded]
    exact hview.evidence file hfile hevidence
  exact List.inj_on_of_nodup_map (view_names h hsub hview) hentry hmem hname.symm

/-- A slot that is left reads as before. -/
theorem view_slotRecord {slot : ArbitrationFile} (hmem : slot ∈ files) (hslot : slot.isSlot = true) :
    ∃ record, slotRecord? N (listing original) (slot.entry original) = some record ∧
      slotRecord? N view (slot.entry original) = some record ∧ slot.entry original ∈ view := by
  have horiginal := hsub.subset hmem
  have hloaded {file : ArbitrationFile} (hfile : file ∈ files)
      (hevidence : file.isEvidence files = true) : file.entry original ∈ view := by
    rw [ArbitrationFile.entry, ← hintact.load_eq (residual_names h hsub).1 hsub hevidence]
    exact hview.evidence file hfile hevidence
  obtain ⟨record, hrecord⟩ := Option.isSome_iff_exists.mp
    (h.read (slot.entry original) (List.mem_map_of_mem horiginal) hslot)
  obtain ⟨intent, hintent, hname, hsame, hfind, -⟩ := intent_file hrecord
  -- the intent is left as well, and is an entry of the view
  have hleft := hintact.intents slot hmem hslot intent hintent hsame
  have hin := hloaded hleft (isEvidence_iff.mpr ⟨slot, hmem, hslot, hsame⟩)
  have hfind' : findEntry view record.intentName = some (intent.entry original) :=
    (find_eq_some_iff (view_names h hsub hview)).mpr ⟨hin, hname⟩
  exact ⟨record, hrecord, slotRecord_of_intent hrecord (hfind'.trans hfind.symm),
    hloaded hmem (isEvidence_slot hmem hslot)⟩

theorem view_record {entry : ArbitrationDirectoryEntry} {record : SlotRecord}
    (hentry : entry ∈ view) (hrecord : slotRecord? N view entry = some record) :
    ∃ slot ∈ files, slot.isSlot = true ∧ entry = slot.entry original ∧
      slotRecord? N (listing original) entry = some record := by
  obtain ⟨slot, hmem, hname, heq⟩ := view_evidence h hsub hintact hview hentry
  have hslot : slot.isSlot = true := by
    rw [ArbitrationFile.isSlot, hname, slotName_of_slotRecord hrecord]
    rfl
  obtain rfl := heq (isEvidence_slot hmem hslot)
  obtain ⟨record', hrecord', hview', -⟩ := view_slotRecord h hsub hintact hview hmem hslot
  obtain rfl := Option.some.inj (hrecord.symm.trans hview')
  exact ⟨slot, hmem, hslot, rfl, hrecord'⟩

theorem view_slotRecords :
    (slotRecords N view view).Subperm (slotRecords N (listing original) (listing original)) := by
  have hnodup : (slotRecords N view view).Nodup :=
    (slotRecords_pairwise (view_names h hsub hview)).imp fun hne heq => hne (congrArg _ heq)
  refine hnodup.subperm fun record hrecord => ?_
  obtain ⟨entry, hentry, hrecord⟩ := List.mem_filterMap.mp hrecord
  obtain ⟨slot, hmem, -, rfl, hrecord'⟩ := view_record h hsub hintact hview hentry hrecord
  exact List.mem_filterMap.mpr ⟨_, List.mem_map_of_mem (hsub.subset hmem), hrecord'⟩

/-- The slots of generations are left. -/
theorem view_generation {record : GenerationRecord} (hmem : record ∈ slots.generations) :
    SlotRecord.generation record ∈ slotRecords N view view := by
  rw [h.generations_eq] at hmem
  obtain ⟨found, hfound, hrecord⟩ := List.mem_filterMap.mp hmem
  obtain ⟨entry, hentry, hread⟩ := List.mem_filterMap.mp hfound
  obtain ⟨slot, hslot, rfl⟩ := List.mem_map.mp hentry
  cases found with
  | release _ => exact absurd hrecord nofun
  | generation found =>
    obtain rfl := Option.some.inj hrecord
    have hname : slotName slot.name = some (.next found.predecessor) := slotName_of_slotRecord hread
    have hgeneration : slot.isGenerationSlot = true := by
      rw [ArbitrationFile.isGenerationSlot, hname]
    have hleft := hintact.generations slot hslot hgeneration slot hslot slot.sameInode_self
    obtain ⟨record', hrecord', hview', hin⟩ := view_slotRecord h hsub hintact hview hleft
      (isSlot_of_generation hgeneration)
    obtain rfl := Option.some.inj (hread.symm.trans hrecord')
    exact List.mem_filterMap.mpr ⟨_, hin, hview'⟩

/-- The maps that the slots of the view fill. -/
theorem view_slots :
    (Slots.empty.extend (slotRecords N view view)).Distinct ∧
      (Slots.empty.extend (slotRecords N view view)).generations.Perm slots.generations ∧
      ∀ release ∈ (Slots.empty.extend (slotRecords N view view)).releases,
        release ∈ slots.releases := by
  obtain ⟨records, hperm, hrecords⟩ := view_slotRecords h hsub hintact hview
  have hgenerations : ((slotRecords N view view).filterMap (·.generation?)).Perm
      (records.filterMap (·.generation?)) := (hperm.filterMap _).symm
  have hreleases : ((slotRecords N view view).filterMap (·.release?)).Perm
      (records.filterMap (·.release?)) := (hperm.filterMap _).symm
  have hsubGenerations : (records.filterMap (·.generation?)).Sublist slots.generations := by
    rw [h.generations_eq]
    exact hrecords.filterMap _
  have hsubReleases : (records.filterMap (·.release?)).Sublist slots.releases := by
    rw [h.releases_eq]
    exact hrecords.filterMap _
  have hdistinct : (Slots.empty.extend (slotRecords N view view)).Distinct :=
    ⟨(hgenerations.map _).nodup_iff.mpr (h.distinct.generations.sublist (hsubGenerations.map _)),
      (hreleases.map _).nodup_iff.mpr (h.distinct.releases.sublist (hsubReleases.map _))⟩
  refine ⟨hdistinct, ?_, fun release hrelease => hsubReleases.subset (hreleases.subset hrelease)⟩
  rw [List.perm_ext_iff_of_nodup (hdistinct.generations.of_map _)
    (h.distinct.generations.of_map _)]
  intro record
  constructor
  · exact fun hmem => hsubGenerations.subset (hgenerations.subset hmem)
  · exact fun hmem => List.mem_filterMap.mpr ⟨_, view_generation h hsub hintact hview hmem, rfl⟩

theorem view_taken {entry : ArbitrationDirectoryEntry} {file : ArbitrationFile}
    (hfile : file ∈ files) (hname : file.name = entry.name) :
    taken (Slots.empty.extend (slotRecords N view view)).referenced entry =
      file.isEvidence files := by
  refine taken_eq_evidence (residual_names h hsub).2 ?_ ?_ hfile hname
  · intro record hrecord
    obtain ⟨entry, hentry, hrecord⟩ := List.mem_filterMap.mp hrecord
    obtain ⟨slot, hmem, hslot, rfl, hread⟩ := view_record h hsub hintact hview hentry hrecord
    obtain ⟨intent, hintent, hname, hsame, -⟩ := intent_file hread
    exact ⟨slot, hmem, hslot, intent, hintact.intents slot hmem hslot intent hintent hsame, hname,
      hsame⟩
  · intro slot hmem hslot
    obtain ⟨record, hrecord, hread, hin⟩ := view_slotRecord h hsub hintact hview hmem hslot
    exact ⟨record, List.mem_filterMap.mpr ⟨_, hin, hread⟩, fun file hfile hsame =>
      linked_cases (hsub.subset hmem) hrecord (hsub.subset hfile) hsame⟩

theorem view_inspected :
    Inspected (N := N) view (Slots.empty.extend (slotRecords N view view))
      (view.filterMap (orphan? N (Slots.empty.extend (slotRecords N view view)).referenced)) where
  length := by
    have hview : view.length = files.length := by
      have := hview.names.length_eq
      rwa [List.length_map, List.length_map] at this
    have horiginal := h.length
    rw [listing, List.length_map] at horiginal
    exact hview ▸ hsub.length_le.trans horiginal
  names := view_names h hsub hview
  read := by
    intro entry hentry hslot
    obtain ⟨file, hfile, hname, heq⟩ := view_evidence h hsub hintact hview hentry
    have hslot' : file.isSlot = true := by rwa [ArbitrationFile.isSlot, hname]
    obtain rfl := heq (isEvidence_slot hfile hslot')
    obtain ⟨record, -, hread, -⟩ := view_slotRecord h hsub hintact hview hfile hslot'
    rw [hread]
    rfl
  distinct := (view_slots h hsub hintact hview).1
  slots_eq := rfl
  kinds := by
    intro entry hentry hfree
    obtain ⟨file, hfile, hname, -⟩ := view_evidence h hsub hintact hview hentry
    have hmem : file.entry original ∈ listing original := List.mem_map_of_mem (hsub.subset hfile)
    rw [← hname]
    by_cases htaken : taken slots.referenced (file.entry original) = true
    · -- it is no slot, so that the first inspection has taken it as an intent
      rw [taken, Bool.or_eq_true, decide_eq_true_eq] at htaken
      rw [taken, Bool.or_eq_false_iff, ← hname] at hfree
      rcases htaken with hslot | hintent
      · exact absurd hslot (by rw [ArbitrationFile.entry, hfree.1]; exact Bool.false_ne_true)
      · rw [h.referenced_eq] at hintent
        obtain ⟨record, -, hintent⟩ := List.mem_map.mp hintent
        have hkind := intentKind_intentName record
        rwa [hintent] at hkind
    · exact h.kinds _ hmem (Bool.not_eq_true _ ▸ htaken)
  orphans_eq := rfl
  budget := by
    refine (orphans_length_le _).trans ?_
    rw [free_length hview.names (residual_names h hsub).2
      fun entry _ file hfile hname => view_taken h hsub hintact hview hfile hname]
    exact hintact.budget

end Residual

/-- A generation with fewer releases is checked for less. -/
theorem checkGeneration_fewer {chain : List GenerationRecord} {generation : GenerationRecord}
    {u : Unit} (h : checkGeneration slots chain generation = .ok u)
    (hreleases : ∀ token release,
      (slots'.releases.find? fun release => decide (release.generation = token)) = some release →
        (slots.releases.find? fun release => decide (release.generation = token)) = some release) :
    checkGeneration slots' chain generation = .ok () := by
  simp only [checkGeneration, bind_eq_ok, demand_eq_ok] at h ⊢
  obtain ⟨-, hordinal, -, hidentity, -, hretirement, hrelease⟩ := h
  refine ⟨(), hordinal, (), hidentity, (), ?_, ?_⟩
  · cases hfind : slots'.releases.find? fun release =>
        decide (release.generation = generation.token) with
    | none => rw [Option.isSome_none, Bool.and_false]; rfl
    | some release => rwa [hreleases _ _ hfind] at hretirement
  · cases hfind : slots'.releases.find? fun release =>
        decide (release.generation = generation.token) with
    | none => rfl
    | some release => rwa [hreleases _ _ hfind] at hrelease

theorem walkChain_fewer (hsuccessors : slots'.successors = slots.successors)
    (hreleases : ∀ token release,
      (slots'.releases.find? fun release => decide (release.generation = token)) = some release →
        (slots.releases.find? fun release => decide (release.generation = token)) = some release)
    {fuel : Nat} {predecessor : Option JsString} {chain result : List GenerationRecord}
    (h : walkChain slots fuel predecessor chain = some (.ok result)) :
    walkChain slots' fuel predecessor chain = some (.ok result) := by
  induction fuel generalizing predecessor chain with
  | zero => exact absurd h (by simp [walkChain])
  | succ fuel ih =>
    rw [walkChain] at h ⊢
    rw [hsuccessors]
    split at h
    · exact h
    · rename_i generation hsuccessor
      split at h
      · exact absurd (Option.some.inj h) (by simp)
      · rename_i u hcheck
        rw [checkGeneration_fewer hcheck hreleases]
        exact ih h

/-- The inspection of what is left finds the generations of the whole. -/
theorem inspect_of_intact {chain : ArbitrationChain}
    {view : List ArbitrationDirectoryEntry}
    (hchain : inspectArbitrationDirectory N localeCompare (listing original) = some (.ok chain))
    (hsub : files.Sublist original) (hintact : Intact original files) (hview : Views files view) :
    ∃ chain', inspectArbitrationDirectory N localeCompare view = some (.ok chain') ∧
      chain'.tip = chain.tip ∧
      ∀ token, chain.release? token = none → chain'.release? token = none := by
  obtain ⟨slots, orphans, generations, h, hwalk, hclosed, rfl⟩ :=
    inspectArbitrationDirectory_eq_ok.mp hchain
  have h' := view_inspected h hsub hintact hview
  obtain ⟨hdistinct, hgenerations, hreleases⟩ := view_slots h hsub hintact hview
  generalize Slots.empty.extend (slotRecords N view view) = slots'
    at h' hdistinct hgenerations hreleases
  have hsuccessors : slots'.successors = slots.successors := by
    funext predecessor
    rw [h'.successors_eq, h.successors_eq]
    exact find_perm hgenerations h'.predecessors_nodup predecessor
  have hfind : ∀ token release,
      (slots'.releases.find? fun release => decide (release.generation = token)) = some release →
        (slots.releases.find? fun release => decide (release.generation = token)) =
          some release := by
    intro token release hfound
    obtain ⟨hmem, hkey⟩ := (find_eq_some_iff hdistinct.releases).mp hfound
    exact (find_eq_some_iff h.distinct.releases).mpr ⟨hreleases release hmem, hkey⟩
  have hwalk' := walkChain_fewer hsuccessors hfind hwalk
  rw [← hgenerations.length_eq] at hwalk'
  obtain ⟨walked, hwalked, hchain'⟩ := h'.walk
  obtain rfl := Option.some.inj (hwalked.symm.trans hwalk')
  have hclosed' : slots'.Closed generations :=
    { toChain := hchain' generations rfl
      generations := hclosed.generations.trans hgenerations.symm
      releases := fun release hrelease => hclosed.releases release (hreleases release hrelease) }
  refine ⟨_, inspectArbitrationDirectory_eq_ok.mpr ⟨slots', _, generations, h', hwalk', hclosed',
    rfl⟩, rfl, fun token hnone => ?_⟩
  rw [ArbitrationChain.release?, find_eq_none_iff] at hnone ⊢
  exact fun release hrelease => hnone release (hreleases release hrelease)

-- ============================================================================
-- Too little is left
-- ============================================================================

/-- A slot of what is left holds the record that it held. -/
theorem left_record (h : Inspected (N := N) (listing original) slots orphans)
    (hsub : files.Sublist original) {slot : ArbitrationFile} {record : SlotRecord}
    (hmem : slot ∈ files) (hrecord : slotRecord? N (listing files) (slot.entry files) = some record) :
    slotRecord? N (listing original) (slot.entry original) = some record := by
  have hname : slotName slot.name = some record.slot := slotName_of_slotRecord hrecord
  obtain ⟨record', hrecord'⟩ := Option.isSome_iff_exists.mp
    (h.read (slot.entry original) (List.mem_map_of_mem (hsub.subset hmem))
      (by show (slotName slot.name).isSome; rw [hname]; rfl))
  obtain ⟨-, bytes, stat, -, hload, -⟩ := load_of_slotRecord hrecord
  obtain ⟨-, bytes', stat', -, hload', -⟩ := load_of_slotRecord hrecord'
  obtain ⟨rfl, -⟩ := load_eq_some hload
  obtain ⟨rfl, -⟩ := load_eq_some hload'
  rw [slotRecord_eq hrecord hrecord' rfl hload hload']
  exact hrecord'

/-- Two chains with the generations of one set of slots and the same last token are one. -/
theorem chain_eq {chain chain' : List GenerationRecord} (hclosed : slots.Closed chain)
    (hdistinct : slots.Distinct) (hchain' : slots'.Chain chain')
    (hsubset : ∀ generation ∈ chain', generation ∈ slots.generations)
    {tip tip' : GenerationRecord} (htip : chain.getLast? = some tip)
    (htip' : chain'.getLast? = some tip') (htoken : tip'.token = tip.token) : chain' = chain := by
  -- the ordinal of a generation is its place in either chain
  have hplace : ∀ (i : Nat) generation, chain'[i]? = some generation → chain[i]? = some generation := by
    intro i generation hi
    have hmem := hclosed.generations.mem_iff.mpr
      (hsubset generation (List.mem_of_getElem? hi))
    obtain ⟨j, hj⟩ := List.mem_iff_getElem?.mp hmem
    have hi' := hchain'.ordinal i generation hi
    have hj' := hclosed.ordinal j generation hj
    have heq : i = j := by omega
    exact heq ▸ hj
  rw [List.getLast?_eq_getElem?] at htip htip'
  have hlast := hplace _ _ htip'
  have htokens : (chain.map (·.token)).Nodup :=
    (hclosed.generations.map _).nodup_iff.mpr hdistinct.generations
  have htips : tip' = tip := List.inj_on_of_nodup_map htokens (List.mem_of_getElem? hlast)
    (List.mem_of_getElem? htip) htoken
  obtain rfl := htips
  have hlt := (List.getElem?_eq_some_iff.mp hlast).1
  have hlt' := (List.getElem?_eq_some_iff.mp htip').1
  have hpositions : chain'.length - 1 = chain.length - 1 :=
    (List.getElem?_inj hlt hclosed.nodup).mp (hlast.trans htip.symm)
  refine List.ext_getElem (by omega) fun i hi hi' => ?_
  have hsome := hplace i _ (List.getElem?_eq_getElem hi)
  rw [List.getElem?_eq_getElem hi'] at hsome
  exact (Option.some.inj hsome).symm

/-- A slot that reads has its intent, so that nothing of its file is gone. -/
theorem left_links (h : Inspected (N := N) (listing original) slots orphans)
    (hsub : files.Sublist original) {slot file : ArbitrationFile} {record : SlotRecord}
    (hmem : slot ∈ files) (hrecord : slotRecord? N (listing files) (slot.entry files) = some record)
    (hfile : file ∈ original) (hsame : slot.sameInode file = true) : file ∈ files := by
  rcases linked_cases (hsub.subset hmem) (left_record h hsub hmem hrecord) hfile hsame with
    rfl | hname
  · exact hmem
  · obtain ⟨intent, hintent, hintentName, -⟩ := intent_file hrecord
    have heq := file_eq_of_name (residual_names h hsub).1 hfile (hsub.subset hintent)
      (hname.trans hintentName.symm)
    exact heq ▸ hintent

/-- A slot of the maps is one of the files. -/
theorem slot_of_record (h : Inspected (N := N) (listing files) slots orphans)
    {record : GenerationRecord} (hmem : record ∈ slots.generations) :
    ∃ slot ∈ files,
      slotRecord? N (listing files) (slot.entry files) = some (.generation record) := by
  rw [h.generations_eq] at hmem
  obtain ⟨found, hfound, hrecord⟩ := List.mem_filterMap.mp hmem
  obtain ⟨entry, hentry, hread⟩ := List.mem_filterMap.mp hfound
  obtain ⟨slot, hslot, rfl⟩ := List.mem_map.mp hentry
  cases found with
  | release _ => exact absurd hrecord nofun
  | generation found =>
    obtain rfl := Option.some.inj hrecord
    exact ⟨slot, hslot, hread⟩

/-- What is left is enough when its inspection finds the tip of the whole. -/
theorem intact_of_inspect {chain chain' : ArbitrationChain}
    {view : List ArbitrationDirectoryEntry} {tip tip' : GenerationRecord}
    (hchain : inspectArbitrationDirectory N localeCompare (listing original) = some (.ok chain))
    (hsub : files.Sublist original) (hperm : view.Perm (listing files))
    (hchain' : inspectArbitrationDirectory N localeCompare view = some (.ok chain'))
    (htip : chain.tip = some tip) (htip' : chain'.tip = some tip')
    (htoken : tip'.token = tip.token) : Intact original files := by
  obtain ⟨left, hleft, hsame, -⟩ := inspectArbitrationDirectory_perm hperm hchain'
  obtain ⟨slots, orphans, generations, h, -, hclosed, rfl⟩ :=
    inspectArbitrationDirectory_eq_ok.mp hchain
  obtain ⟨slots', orphans', generations', h', -, hclosed', rfl⟩ :=
    inspectArbitrationDirectory_eq_ok.mp hleft
  have hnames := residual_names h hsub
  have hgenerations : generations' = generations := by
    refine chain_eq hclosed h.distinct hclosed'.toChain (fun generation hmem => ?_) htip
      (hsame.tip.symm.trans htip') htoken
    obtain ⟨slot, hslot, hrecord⟩ := slot_of_record h' (hclosed'.mem generation hmem)
    rw [h.generations_eq]
    exact List.mem_filterMap.mpr ⟨_, List.mem_filterMap.mpr ⟨_,
      List.mem_map_of_mem (hsub.subset hslot), left_record h hsub hslot hrecord⟩, rfl⟩
  refine ⟨?_, ?_, ?_⟩
  · intro slot hslot hgeneration file hfile hlink
    obtain ⟨record, hrecord⟩ := Option.isSome_iff_exists.mp
      (h.read (slot.entry original) (List.mem_map_of_mem hslot)
        (isSlot_of_generation hgeneration))
    have hname : slotName slot.name = some record.slot := slotName_of_slotRecord hrecord
    cases record with
    | release record =>
      rw [ArbitrationFile.isGenerationSlot, hname] at hgeneration
      exact absurd hgeneration Bool.false_ne_true
    | generation record =>
      -- its generation is in the chain that is found, so that its slot is left
      have hmem : record ∈ slots.generations := by
        rw [h.generations_eq]
        exact List.mem_filterMap.mpr ⟨_, List.mem_filterMap.mpr ⟨_, List.mem_map_of_mem hslot,
          hrecord⟩, rfl⟩
      have hmem' : record ∈ slots'.generations :=
        hclosed'.mem record (hgenerations ▸ hclosed.generations.mem_iff.mpr hmem)
      obtain ⟨slot', hslot', hrecord'⟩ := slot_of_record h' hmem'
      have hname' : slotName slot'.name = some (SlotRecord.generation record).slot :=
        slotName_of_slotRecord hrecord'
      have heq := file_eq_of_name hnames.1 (hsub.subset hslot') hslot (slotName_inj hname' hname)
      exact left_links h hsub hslot' hrecord' hfile (heq ▸ hlink)
  · intro slot hslot hslotName file hfile hlink
    obtain ⟨record, hrecord⟩ := Option.isSome_iff_exists.mp
      (h'.read (slot.entry files) (List.mem_map_of_mem hslot) hslotName)
    exact left_links h hsub hslot hrecord hfile hlink
  · have hcount := free_length (List.Perm.of_eq (listing_names files)) hnames.2
      fun entry _ file hfile hname => listing_taken h' hnames.2 hfile hname
    rw [← hcount, ← h'.orphans_length]
    exact h'.budget

end PiRlm.Runtime

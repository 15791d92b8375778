/-
  PiRlm.Runtime.CheckpointStoreSound

  The journaled checkpoint stays readable through every run of commits.

  A commit writes to the pending file and to the slot whose parity is not that of the last
  journaled checkpoint, so at each of its operations that checkpoint is intact.
-/
import Mathlib
import PiRlm.Lib.Keyed
import PiRlm.Runtime.CheckpointStore

namespace PiRlm.Runtime

open PiRlm.Lib PiRlm.Core PiRlm.Shell RunCheckpointStore

variable {storedByteLimit sequence n : Nat} {s s' : CheckpointDisk} {name : JsString}
  {file : CheckpointFile}

-- ============================================================================
-- Names
-- ============================================================================

theorem slotFile_eq (n : Nat) : slotFile n = js "slot-0.bin" ∨ slotFile n = js "slot-1.bin" := by
  have hcases : n % runCheckpointRetainedSlots = 0 ∨ n % runCheckpointRetainedSlots = 1 := by
    show n % 2 = 0 ∨ n % 2 = 1
    omega
  rcases hcases with h | h
  · left
    rw [slotFile, h]
    decide
  · right
    rw [slotFile, h]
    decide

theorem isSlot_slotFile (n : Nat) : isSlot (slotFile n) = true := by
  rcases slotFile_eq n with h | h <;> rw [h] <;> decide

/-- Consecutive checkpoints have different slots. -/
theorem slotFile_succ_ne (n : Nat) : slotFile (n + 1) ≠ slotFile n := by
  have hcases : (n % 2 = 0 ∧ (n + 1) % 2 = 1) ∨ (n % 2 = 1 ∧ (n + 1) % 2 = 0) := by omega
  rcases hcases with ⟨h, h'⟩ | ⟨h, h'⟩
  · rw [slotFile, slotFile, runCheckpointRetainedSlots, h, h']
    decide
  · rw [slotFile, slotFile, runCheckpointRetainedSlots, h, h']
    decide

theorem slotFile_ne_pending (n : Nat) : slotFile n ≠ pendingFile := by
  rcases slotFile_eq n with h | h <;> rw [h] <;> decide

-- ============================================================================
-- The invariant
-- ============================================================================

/-- A file of the store: a slot that is not empty, or the pending file. -/
structure CheckpointFile.Bounded (storedByteLimit : Nat) (file : CheckpointFile) : Prop where
  name : file.name = pendingFile ∨ isSlot file.name = true
  canonical : file.isFile = true ∧ file.nlink = 1 ∧ file.mode = 0o600
  length : file.content.length ≤ runCheckpointPayloadByteLimit storedByteLimit
  slot : file.name ≠ pendingFile → 1 ≤ file.content.length

/-- The payload that a reference names is in its slot. -/
def CheckpointDisk.Holds (s : CheckpointDisk) (reference : RunCheckpointContentReference) : Prop :=
  ∃ file, s.lookup (slotFile reference.checkpointSequence) = some file ∧
    file.content.length = reference.bytes ∧ sha256Bytes file.content = reference.sha256

structure CheckpointDisk.Inv (storedByteLimit : Nat) (s : CheckpointDisk) : Prop where
  names : (s.files.map (·.name)).Nodup
  file : ∀ file ∈ s.files, file.Bounded storedByteLimit
  directory : s.files ≠ [] → s.directory = true
  journal : ∀ reference, s.journal.getLast? = some reference →
    reference.checkpointSequence = s.journal.length ∧
      referenceValid storedByteLimit reference = true ∧ s.Holds reference

namespace CheckpointDisk

theorem inv_noCheckpoint : noCheckpoint.Inv storedByteLimit where
  names := List.nodup_nil
  file := nofun
  directory := fun h => absurd rfl h
  journal := nofun

theorem lookup_eq_some_iff (h : s.Inv storedByteLimit) :
    s.lookup name = some file ↔ file ∈ s.files ∧ file.name = name :=
  find_eq_some_iff h.names

theorem lookup_remove (removed : JsString) :
    (s.remove removed).lookup name = if name = removed then none else s.lookup name := by
  rw [remove, lookup, lookup, List.find?_filter]
  split
  · rename_i heq
    subst heq
    rw [List.find?_eq_none]
    intro file _
    by_cases h : file.name = name <;> simp [h]
  · rename_i hne
    congr 1
    funext file
    by_cases h : file.name = name
    · rw [h]
      simp [hne]
    · simp [h]

theorem lookup_add (h : s.lookup file.name = none) :
    (s.add file).lookup name = if name = file.name then some file else s.lookup name := by
  rw [add, lookup, lookup, List.find?_append]
  split
  · rename_i heq
    subst heq
    rw [show (s.files.find? fun other => decide (other.name = file.name)) = none from h]
    simp
  · rename_i hne
    have hnone : [file].find? (fun other => decide (other.name = name)) = none := by
      simp [Ne.symm hne]
    rw [hnone, Option.or_none]

/-- The journaled checkpoint is held by every directory with the same slot. -/
theorem Inv.holds_of_lookup (h : s.Inv storedByteLimit) (hjournal : s'.journal = s.journal)
    (hslot : s'.lookup (slotFile s.journal.length) = s.lookup (slotFile s.journal.length))
    (reference : RunCheckpointContentReference) (hlast : s'.journal.getLast? = some reference) :
    reference.checkpointSequence = s'.journal.length ∧
      referenceValid storedByteLimit reference = true ∧ s'.Holds reference := by
  rw [hjournal] at hlast ⊢
  obtain ⟨hsequence, hvalid, file, hfile, hcontent⟩ := h.journal reference hlast
  refine ⟨hsequence, hvalid, file, ?_, hcontent⟩
  rw [hsequence] at hfile ⊢
  rw [hslot]
  exact hfile

theorem Inv.remove (h : s.Inv storedByteLimit) {removed : JsString}
    (hne : removed ≠ slotFile s.journal.length) : (s.remove removed).Inv storedByteLimit where
  names := h.names.sublist (List.filter_sublist.map _)
  file := fun file hmem => h.file file (List.mem_of_mem_filter hmem)
  directory := by
    intro hsome
    obtain ⟨file, hmem⟩ := List.exists_mem_of_ne_nil _ hsome
    exact h.directory (List.ne_nil_of_mem (List.mem_of_mem_filter hmem))
  journal := h.holds_of_lookup rfl (by rw [lookup_remove, if_neg hne.symm])

theorem Inv.add (h : s.Inv storedByteLimit) (hbounded : file.Bounded storedByteLimit)
    (hfree : s.lookup file.name = none) (hdirectory : s.directory = true)
    (hne : file.name ≠ slotFile s.journal.length) : (s.add file).Inv storedByteLimit where
  names := by
    show ((s.files ++ [file]).map (·.name)).Nodup
    rw [nodup_concat_iff h.names, Bool.not_eq_true', List.any_eq_false]
    intro other hmem
    exact List.find?_eq_none.mp hfree other hmem
  file := by
    intro other hmem
    rcases List.mem_append.mp hmem with hmem | hmem
    · exact h.file other hmem
    · exact List.mem_singleton.mp hmem ▸ hbounded
  directory := fun _ => hdirectory
  journal := h.holds_of_lookup rfl (by rw [lookup_add hfree, if_neg (Ne.symm hne)])

/-- The events of the journal only grow when the payload is in place. -/
theorem Inv.append (h : s.Inv storedByteLimit) {reference : RunCheckpointContentReference}
    (hsequence : reference.checkpointSequence = s.journal.length + 1)
    (hvalid : referenceValid storedByteLimit reference = true) (hholds : s.Holds reference) :
    { s with journal := s.journal ++ [reference] }.Inv storedByteLimit where
  names := h.names
  file := h.file
  directory := h.directory
  journal := by
    intro other hlast
    rw [List.getLast?_concat, Option.some.injEq] at hlast
    subst hlast
    rw [List.length_append, List.length_singleton]
    exact ⟨hsequence, hvalid, hholds⟩

/-- There are at most two slots and the pending file. -/
theorem Inv.length_le (h : s.Inv storedByteLimit) : s.files.length ≤ runCheckpointMaxPhysicalEntries := by
  have hsubset : s.files.map (·.name) ⊆ [pendingFile, js "slot-0.bin", js "slot-1.bin"] := by
    intro name hmem
    obtain ⟨file, hfile, rfl⟩ := List.mem_map.mp hmem
    rcases (h.file file hfile).name with heq | hslot
    · rw [heq]
      exact List.mem_cons_self
    · rw [isSlot, Bool.or_eq_true, decide_eq_true_eq, decide_eq_true_eq] at hslot
      rcases hslot with heq | heq <;> rw [heq] <;> decide
  have hle := (h.names.subperm hsubset).length_le
  rwa [List.length_map] at hle

theorem Inv.bytes_le (h : s.Inv storedByteLimit) :
    (s.files.map fun file => file.content.length).sum ≤
      runCheckpointAggregateByteLimit storedByteLimit := by
  have hsum := List.sum_le_card_nsmul (s.files.map fun file => file.content.length)
    (runCheckpointPayloadByteLimit storedByteLimit) fun size hmem => by
      obtain ⟨file, hfile, rfl⟩ := List.mem_map.mp hmem
      exact (h.file file hfile).length
  rw [List.length_map, smul_eq_mul] at hsum
  calc (s.files.map fun file => file.content.length).sum
      ≤ s.files.length * runCheckpointPayloadByteLimit storedByteLimit := hsum
    _ ≤ runCheckpointMaxPhysicalEntries * runCheckpointPayloadByteLimit storedByteLimit :=
        Nat.mul_le_mul_right _ h.length_le
    _ = runCheckpointAggregateByteLimit storedByteLimit := Nat.mul_comm _ _

end CheckpointDisk

-- ============================================================================
-- Operations that read
-- ============================================================================

/-- The execution of a program of the store keeps the invariant and ends so. -/
abbrev Runs (storedByteLimit : Nat) {α : Type} (program : Io α) (clean : Bool)
    (Q : Bool → Except CheckpointError α → CheckpointDisk → Prop) (s : CheckpointDisk) : Prop :=
  Wp checkpointDevice (.alone (CheckpointDisk.Inv storedByteLimit)) () program clean Q s

/-- A program of the store that only reads. -/
abbrev Reads (storedByteLimit : Nat) {α : Type} (program : Io α) (r : Except CheckpointError α)
    (s : CheckpointDisk) : Prop :=
  program.Reads checkpointDevice (CheckpointDisk.Inv storedByteLimit) r s

/-- An operation whose effect is to reply. -/
theorem perform_reads {o : CheckpointOp} {r : Except CheckpointError o.Reply}
    (heffect : ∀ count, s.effect count o = (s, r)) (hwrite : ∀ name bytes, o ≠ .writeFile name bytes) :
    Reads storedByteLimit (perform o) r s := by
  refine Program.Reads.perform fun _ l => ?_
  cases l with
  | done count => exact ⟨congrArg Prod.fst (heffect count), fun _ => congrArg Prod.snd (heffect count),
      nofun⟩
  | failsBefore error => exact ⟨rfl, nofun, fun _ => ⟨_, rfl⟩⟩
  | failsAfter error => exact ⟨congrArg Prod.fst (heffect 0), nofun, fun _ => ⟨_, rfl⟩⟩
  | torn count error =>
    have htorn : s.perform o (.torn count error) = (s, .error (CheckpointDisk.reported false error o)) := by
      cases o with
      | writeFile name bytes => exact absurd rfl (hwrite name bytes)
      | _ => rfl
    refine ⟨congrArg Prod.fst htorn, nofun, fun _ => ⟨_, congrArg Prod.snd htorn⟩⟩

theorem openFile_reads (h : s.lookup name = some file) :
    Reads storedByteLimit (perform (.openFile name)) (.ok ()) s := by
  refine perform_reads (fun count => ?_) nofun
  rw [CheckpointDisk.effect, h]
  rfl

theorem openFile_missing (h : s.lookup name = none) :
    Reads storedByteLimit (perform (.openFile name)) (.error CheckpointDisk.missing) s := by
  refine perform_reads (fun count => ?_) nofun
  rw [CheckpointDisk.effect, h]
  rfl

theorem stat_reads (h : s.lookup name = some file) :
    Reads storedByteLimit (perform (.stat name)) (.ok file) s := by
  refine perform_reads (fun count => ?_) nofun
  rw [CheckpointDisk.effect, h]

theorem withFile_reads {α : Type} {body : Io α} {r : Except CheckpointError α}
    (hinv : s.Inv storedByteLimit) (hfile : s.lookup name = some file)
    (hbody : Reads storedByteLimit body r s) : Reads storedByteLimit (withFile name body) r s := by
  refine (openFile_reads hfile).bind hinv fun clean => ?_
  refine Wp.bind hinv (Wp.attempt ((hbody clean).mono ?_))
  rintro clean' r' s' - ⟨rfl, hresult⟩
  have hclose : Reads storedByteLimit (perform (.close name)) (.ok ()) s' :=
    perform_reads (fun _ => rfl) nofun
  refine hclose.wp_bind hinv ?_ fun e => ⟨rfl, .inr ⟨rfl, e, rfl⟩⟩
  -- what the body has raised is raised again
  cases r' with
  | ok a => exact Wp.pure_alone fun _ => ⟨rfl, hresult⟩
  | error e => exact Wp.raise_alone fun _ => ⟨rfl, hresult⟩

theorem CheckpointFile.Bounded.boundedPrivate {minimum : Nat} (h : file.Bounded storedByteLimit)
    (hminimum : minimum ≤ file.content.length) :
    RunCheckpointStore.boundedPrivate storedByteLimit file minimum = true := by
  rw [RunCheckpointStore.boundedPrivate, h.canonical.1, h.canonical.2.1, h.canonical.2.2,
    decide_eq_true hminimum, decide_eq_true h.length]
  rfl

theorem CheckpointFile.Bounded.size_ok (h : file.Bounded storedByteLimit) :
    decide (file.name = pendingFile) = true ∨ 1 ≤ file.content.length := by
  by_cases hpending : file.name = pendingFile
  · exact .inl (decide_eq_true hpending)
  · exact .inr (h.slot hpending)

theorem privateFileSize_reads (hinv : s.Inv storedByteLimit) (hfile : s.lookup name = some file)
    {allowEmpty : Bool} (hsize : allowEmpty = true ∨ 1 ≤ file.content.length) :
    Reads storedByteLimit (privateFileSize storedByteLimit name allowEmpty)
      (.ok file.content.length) s := by
  have hbounded := hinv.file file ((CheckpointDisk.lookup_eq_some_iff hinv).mp hfile).1
  have hminimum : (if allowEmpty then 0 else 1) ≤ file.content.length := by
    rcases hsize with rfl | hsize
    · exact Nat.zero_le _
    · split <;> omega
  refine withFile_reads hinv hfile ((stat_reads hfile).bind hinv ?_)
  rw [hbounded.boundedPrivate hminimum, Bool.not_true, if_neg Bool.false_ne_true]
  refine (stat_reads hfile).bind hinv ?_
  rw [if_pos rfl]
  exact .pure

theorem privateFileSize_missing (hinv : s.Inv storedByteLimit) (hfile : s.lookup name = none)
    (allowEmpty : Bool) :
    Reads storedByteLimit (privateFileSize storedByteLimit name allowEmpty)
      (.error CheckpointDisk.missing) s :=
  (openFile_missing hfile).bind_error hinv

/-- The size of the file with a name. -/
def CheckpointDisk.sizeOf (s : CheckpointDisk) (name : JsString) : Nat :=
  match s.lookup name with
  | some file => file.content.length
  | none => 0

theorem inspectNames_reads (hinv : s.Inv storedByteLimit) (names : List JsString) (bytes : Nat)
    (hnames : ∀ name ∈ names, ∃ file ∈ s.files, file.name = name)
    (hbytes : bytes + (names.map s.sizeOf).sum ≤ runCheckpointAggregateByteLimit storedByteLimit) :
    Reads storedByteLimit (inspectNames storedByteLimit names bytes)
      (.ok (bytes + (names.map s.sizeOf).sum)) s := by
  induction names generalizing bytes with
  | nil => exact .pure
  | cons name names ih =>
    obtain ⟨file, hmem, rfl⟩ := hnames name List.mem_cons_self
    have hlookup : s.lookup file.name = some file :=
      (CheckpointDisk.lookup_eq_some_iff hinv).mpr ⟨hmem, rfl⟩
    have hbounded := hinv.file file hmem
    have hsize : s.sizeOf file.name = file.content.length := by
      rw [CheckpointDisk.sizeOf, hlookup]
    have hknown : (decide (file.name = pendingFile) || isSlot file.name) = true := by
      rw [Bool.or_eq_true, decide_eq_true_eq]
      exact hbounded.name
    rw [List.map_cons, List.sum_cons, hsize, ← Nat.add_assoc] at hbytes
    rw [List.map_cons, List.sum_cons, hsize, ← Nat.add_assoc, inspectNames, hknown, Bool.not_true,
      if_neg Bool.false_ne_true]
    refine (privateFileSize_reads hinv hlookup hbounded.size_ok).bind hinv ?_
    rw [if_neg (by omega)]
    exact ih _ (fun name hname => hnames name (List.mem_cons_of_mem _ hname)) hbytes

theorem inspectEntries_reads (hinv : s.Inv storedByteLimit) (hdirectory : s.directory = true) :
    Reads storedByteLimit (inspectEntries storedByteLimit)
      (.ok ⟨s.files.length, (s.files.map fun file => file.content.length).sum⟩) s := by
  have hlist : Reads storedByteLimit (perform .readDirectory) (.ok (s.files.map (·.name))) s := by
    refine perform_reads (fun count => ?_) nofun
    rw [CheckpointDisk.effect, hdirectory]
    rfl
  have hnames : Reads storedByteLimit RunCheckpointStore.names
      (.ok ((s.files.map (·.name)).mergeSort fun left right => decide (left ≤ right))) s := by
    refine hlist.bind hinv ?_
    rw [List.length_map, if_neg (Nat.not_lt.mpr hinv.length_le)]
    exact .pure
  have hperm := List.mergeSort_perm (s.files.map (·.name)) fun left right => decide (left ≤ right)
  -- the order of the names makes no difference to the sum
  have hsum : (((s.files.map (·.name)).mergeSort fun left right => decide (left ≤ right)).map
      s.sizeOf).sum = (s.files.map fun file => file.content.length).sum := by
    rw [(hperm.map s.sizeOf).sum_eq, List.map_map]
    congr 1
    refine List.map_congr_left fun file hmem => ?_
    show s.sizeOf file.name = _
    rw [CheckpointDisk.sizeOf, (CheckpointDisk.lookup_eq_some_iff hinv).mpr ⟨hmem, rfl⟩]
  refine hnames.bind hinv ?_
  have hbytes := inspectNames_reads hinv _ 0 (fun name hname => by
      obtain ⟨file, hmem, heq⟩ := List.mem_map.mp (hperm.mem_iff.mp hname)
      exact ⟨file, hmem, heq⟩) (by rw [Nat.zero_add, hsum]; exact hinv.bytes_le)
  refine hbytes.bind hinv ?_
  rw [Nat.zero_add, hsum, hperm.length_eq, List.length_map]
  exact .pure

theorem checkDirectory_reads (hinv : s.Inv storedByteLimit) (hdirectory : s.directory = true) :
    Reads storedByteLimit checkDirectory (.ok ()) s := by
  have hlstat : Reads storedByteLimit (perform .lstatDirectory) (.ok ⟨false, true, 0o700⟩) s := by
    refine perform_reads (fun count => ?_) nofun
    rw [CheckpointDisk.effect, hdirectory]
    rfl
  have hrealpath : Reads storedByteLimit (perform .realpath) (.ok true) s := by
    refine perform_reads (fun count => ?_) nofun
    rw [CheckpointDisk.effect, hdirectory]
    rfl
  exact hlstat.bind hinv (hrealpath.bind hinv .pure)

theorem checkpoint_reads : Reads storedByteLimit (perform .checkpoint) (.ok ()) s :=
  perform_reads (fun _ => rfl) nofun

/-- However short the reads are, the loop reads the whole file. -/
theorem readLoop_reads (hinv : s.Inv storedByteLimit) (hfile : s.lookup name = some file)
    (fuel : Nat) (octets : List Byte) (hoctets : octets = file.content.take octets.length)
    (hfuel : file.content.length ≤ fuel + octets.length) :
    Reads storedByteLimit (readLoop name file.content.length fuel octets) (.ok file.content) s := by
  have hall : file.content.length ≤ octets.length → octets = file.content := by
    intro hle
    rw [List.take_of_length_le hle] at hoctets
    exact hoctets
  induction fuel generalizing octets with
  | zero =>
    rw [Nat.zero_add] at hfuel
    rw [readLoop, hall hfuel]
    exact .pure
  | succ fuel ih =>
    rw [readLoop]
    split
    · rename_i hlt
      refine checkpoint_reads.bind hinv fun clean => ?_
      refine Wp.bind hinv (Wp.perform_alone fun _ l => ?_)
      cases l with
      | done count =>
        let chunk := (file.content.drop octets.length).take
          (min (min (64 * 1024) (file.content.length - octets.length)) (max 1 count))
        have hreply : checkpointDevice.perform (.read name octets.length
            (min (64 * 1024) (file.content.length - octets.length))) (.done count) s =
            (s, .ok chunk) := by
          show (s, match s.lookup name with
            | some file => _
            | none => _) = _
          rw [hfile]
        rw [hreply]
        refine ⟨hinv, ?_⟩
        have hclean : (clean && !checkpointDevice.fault (.done count)) = clean := Bool.and_true clean
        -- a read before the end gives an octet at least
        have hlength : 1 ≤ chunk.length ∧ octets.length + chunk.length ≤ file.content.length := by
          rw [List.length_take, List.length_drop]
          omega
        have hne : chunk ≠ [] := List.ne_nil_of_length_pos hlength.1
        have hnext : octets ++ chunk = file.content.take (octets ++ chunk).length := by
          rw [List.length_append, List.take_add, ← hoctets]
          congr 1
          rw [List.length_take]
          exact List.take_eq_take_min
        simp only [hclean, if_neg hne]
        refine ih (octets ++ chunk) hnext ?_ (fun hle => ?_) clean
        · rw [List.length_append]
          omega
        · rw [List.take_of_length_le hle] at hnext
          exact hnext
      | failsBefore error => exact ⟨hinv, rfl, .inr ⟨Bool.and_false clean, _, rfl⟩⟩
      | failsAfter error => exact ⟨hinv, rfl, .inr ⟨Bool.and_false clean, _, rfl⟩⟩
      | torn count error => exact ⟨hinv, rfl, .inr ⟨Bool.and_false clean, _, rfl⟩⟩
    · rename_i hge
      rw [hall (Nat.not_lt.mp hge)]
      exact .pure

/-- A payload that is in its slot is read. -/
theorem read_reads (hinv : s.Inv storedByteLimit) (hdirectory : s.directory = true)
    {reference : RunCheckpointContentReference}
    (hvalid : referenceValid storedByteLimit reference = true)
    (hfile : s.lookup (slotFile reference.checkpointSequence) = some file)
    (hlength : file.content.length = reference.bytes)
    (hhash : sha256Bytes file.content = reference.sha256) :
    Reads storedByteLimit (RunCheckpointStore.read storedByteLimit reference)
      (.ok file.content) s := by
  have hbounded := hinv.file file ((CheckpointDisk.lookup_eq_some_iff hinv).mp hfile).1
  have hstat : (!RunCheckpointStore.boundedPrivate storedByteLimit file 0 ||
      decide (file.content.length ≠ reference.bytes)) = false := by
    rw [hbounded.boundedPrivate (Nat.zero_le _), hlength]
    simp
  have hloop : Reads storedByteLimit
      (readLoop (slotFile reference.checkpointSequence) reference.bytes reference.bytes [])
      (.ok file.content) s := by
    rw [← hlength]
    exact readLoop_reads hinv hfile _ [] rfl (Nat.le_add_right _ _)
  rw [RunCheckpointStore.read, hvalid, Bool.not_true, if_neg Bool.false_ne_true]
  refine checkpoint_reads.bind hinv ?_
  refine (checkDirectory_reads hinv hdirectory).bind hinv ?_
  refine (inspectEntries_reads hinv hdirectory).bind hinv ?_
  refine withFile_reads hinv hfile ((stat_reads hfile).bind hinv ?_)
  rw [hstat, if_neg Bool.false_ne_true]
  refine hloop.bind hinv ((stat_reads hfile).bind hinv ?_)
  rw [if_neg (by rw [hlength]; simp), if_neg (by rw [hhash]; simp)]
  exact checkpoint_reads.bind hinv .pure

-- ============================================================================
-- Operations that write
-- ============================================================================

/-- Only the pending file and the directory itself may have changed. -/
structure CheckpointDisk.Steady (s s' : CheckpointDisk) : Prop where
  journal : s'.journal = s.journal
  lookup : ∀ name, name ≠ pendingFile → s'.lookup name = s.lookup name
  directory : s.directory = true → s'.directory = true

theorem CheckpointDisk.Steady.refl (s : CheckpointDisk) : s.Steady s :=
  ⟨rfl, fun _ _ => rfl, id⟩

theorem CheckpointDisk.Steady.trans {s'' : CheckpointDisk} (h : s.Steady s') (h' : s'.Steady s'') :
    s.Steady s'' where
  journal := h'.journal.trans h.journal
  lookup := fun name hne => (h'.lookup name hne).trans (h.lookup name hne)
  directory := fun hdirectory => h'.directory (h.directory hdirectory)

theorem CheckpointDisk.Inv.makeDirectory (h : s.Inv storedByteLimit) :
    { s with directory := true }.Inv storedByteLimit :=
  { h with directory := fun _ => rfl }

/-- The directories that a failing operation may leave. -/
inductive FaultState (s : CheckpointDisk) : CheckpointOp → CheckpointDisk → Prop where
  | before (o : CheckpointOp) : FaultState s o s
  | after (o : CheckpointOp) : FaultState s o (s.effect 0 o).1
  | torn (name : JsString) (bytes : List Byte) (count : Nat) :
      FaultState s (.writeFile name bytes) (s.effect 0 (.writeFile name (bytes.take count))).1

/-- An operation that may have an effect. -/
theorem perform_runs {o : CheckpointOp} {clean : Bool}
    {Q : Bool → Except CheckpointError o.Reply → CheckpointDisk → Prop}
    (hdone : ∀ count, (s.effect count o).1.Inv storedByteLimit ∧
      Q clean (s.effect count o).2 (s.effect count o).1)
    (hfault : ∀ s', FaultState s o s' → s'.Inv storedByteLimit ∧ ∀ e, Q false (.error e) s') :
    Runs storedByteLimit (perform o) clean Q s := by
  refine Wp.perform_alone fun _ l => ?_
  cases l with
  | done count =>
    rw [show (clean && !checkpointDevice.fault (.done count)) = clean from Bool.and_true clean]
    exact hdone count
  | failsBefore error =>
    rw [show (clean && !checkpointDevice.fault (.failsBefore error)) = false from Bool.and_false clean]
    exact ⟨(hfault _ (.before o)).1, (hfault _ (.before o)).2 _⟩
  | failsAfter error =>
    rw [show (clean && !checkpointDevice.fault (.failsAfter error)) = false from Bool.and_false clean]
    exact ⟨(hfault _ (.after o)).1, (hfault _ (.after o)).2 _⟩
  | torn count error =>
    rw [show (clean && !checkpointDevice.fault (.torn count error)) = false from
      Bool.and_false clean]
    cases o with
    | writeFile name bytes =>
      exact ⟨(hfault _ (.torn name bytes count)).1, (hfault _ (.torn name bytes count)).2 _⟩
    | _ => exact ⟨(hfault _ (.before _)).1, (hfault _ (.before _)).2 _⟩

theorem makeDirectory_runs (hinv : s.Inv storedByteLimit) (clean : Bool) :
    Runs storedByteLimit makeDirectory clean (fun clean' r s' => s.Steady s' ∧
      (clean' = true → r = .ok () ∧ s'.directory = true)) s := by
  have hmade : s.Steady { s with directory := true } := ⟨rfl, fun _ _ => rfl, fun _ => rfl⟩
  have heffect : ∀ count, (s.effect count .mkdir).1.Inv storedByteLimit ∧
      s.Steady (s.effect count .mkdir).1 := by
    intro count
    rw [CheckpointDisk.effect]
    split
    · exact ⟨hinv, .refl s⟩
    · exact ⟨hinv.makeDirectory, hmade⟩
  refine Wp.bind hinv (Wp.attempt (perform_runs (fun count => ⟨(heffect count).1, ?_⟩)
    fun s' hs' => ?_))
  · rw [CheckpointDisk.effect]
    cases hdirectory : s.directory with
    | true =>
      -- the directory is there already
      exact Wp.pure_alone fun _ => ⟨.refl s, fun _ => ⟨rfl, hdirectory⟩⟩
    | false => exact Wp.pure_alone fun _ => ⟨hmade, fun _ => ⟨rfl, rfl⟩⟩
  · have hstate : s'.Inv storedByteLimit ∧ s.Steady s' := by
      cases hs' with
      | before => exact ⟨hinv, .refl s⟩
      | after => exact heffect 0
    refine ⟨hstate.1, fun error => ?_⟩
    show Runs storedByteLimit
      (if error.hasCode (js "EEXIST") then (pure () : Io Unit) else .raise error) false _ s'
    split
    · exact Wp.pure_alone fun _ => ⟨hstate.2, nofun⟩
    · exact Wp.raise_alone fun _ => ⟨hstate.2, nofun⟩

theorem checkDirectory_missing (hinv : s.Inv storedByteLimit) (hdirectory : s.directory = false) :
    Reads storedByteLimit checkDirectory (.error CheckpointDisk.missing) s := by
  have hlstat : Reads storedByteLimit (perform .lstatDirectory) (.error CheckpointDisk.missing) s := by
    refine perform_reads (fun count => ?_) nofun
    rw [CheckpointDisk.effect, hdirectory]
    rfl
  exact hlstat.bind_error hinv

/-- What a directory that has been ensured to be there promises. -/
theorem ensureDirectory_runs (hinv : s.Inv storedByteLimit) (clean : Bool) :
    Runs storedByteLimit (ensureDirectory true) clean (fun clean' r s' => s.Steady s' ∧
      (r = .ok () → s'.directory = true) ∧ (clean' = true → r = .ok ())) s := by
  refine Wp.bind hinv ((makeDirectory_runs hinv clean).mono ?_)
  rintro clean' r s' hinv' ⟨hsteady, hclean⟩
  cases r with
  | error e => exact ⟨hsteady, nofun, fun h => absurd (hclean h).1 nofun⟩
  | ok u =>
    cases hdirectory : s'.directory with
    | true =>
      refine ((checkDirectory_reads hinv' hdirectory) clean').mono ?_
      rintro clean'' r s'' - ⟨rfl, ⟨rfl, rfl⟩ | ⟨rfl, e, rfl⟩⟩
      · exact ⟨hsteady, fun _ => hdirectory, fun _ => rfl⟩
      · exact ⟨hsteady, nofun, nofun⟩
    | false =>
      refine ((checkDirectory_missing hinv' hdirectory) clean').mono ?_
      rintro clean'' r s'' - ⟨rfl, ⟨rfl, rfl⟩ | ⟨rfl, e, rfl⟩⟩
      · exact ⟨hsteady, nofun, fun h => absurd ((hclean h).2.symm.trans hdirectory) nofun⟩
      · exact ⟨hsteady, nofun, nofun⟩

theorem syncDirectory_reads (hdirectory : s.directory = true) :
    Reads storedByteLimit (perform .syncDirectory) (.ok ()) s := by
  refine perform_reads (fun count => ?_) nofun
  rw [CheckpointDisk.effect, hdirectory]
  rfl

theorem CheckpointDisk.Inv.removePending (h : s.Inv storedByteLimit) :
    (s.remove pendingFile).Inv storedByteLimit ∧ s.Steady (s.remove pendingFile) := by
  refine ⟨h.remove (slotFile_ne_pending _).symm, rfl, fun name hne => ?_, id⟩
  rw [lookup_remove, if_neg hne]

theorem CheckpointDisk.lookup_remove_self (s : CheckpointDisk) (name : JsString) :
    (s.remove name).lookup name = none := by
  rw [lookup_remove, if_pos rfl]

/-- A leftover pending file goes away, whatever was written of it. -/
theorem removePending_runs (hinv : s.Inv storedByteLimit) (clean : Bool) :
    Runs storedByteLimit (removePending storedByteLimit) clean (fun clean' r s' => s.Steady s' ∧
      (clean' = true → r = .ok () ∧ s'.lookup pendingFile = none)) s := by
  -- the last part turns an error that says that there is no file into success
  have hlast : ∀ (error : CheckpointError) (clean' : Bool) (t : CheckpointDisk),
      s.Steady t → (clean' = true → error = CheckpointDisk.missing ∧
        t.lookup pendingFile = none) →
      Runs storedByteLimit
        (if error.hasCode (js "ENOENT") then (pure () : Io Unit) else .raise error) clean'
        (fun clean' r s' => s.Steady s' ∧
          (clean' = true → r = .ok () ∧ s'.lookup pendingFile = none)) t := by
    intro error clean' t hsteady hclean
    by_cases hcode : error.hasCode (js "ENOENT") = true
    · rw [if_pos hcode]
      exact Wp.pure_alone fun _ => ⟨hsteady, fun h => ⟨rfl, (hclean h).2⟩⟩
    · rw [if_neg hcode]
      refine Wp.raise_alone fun _ => ⟨hsteady, fun h => ?_⟩
      obtain rfl := (hclean h).1
      exact absurd (by decide) hcode
  obtain ⟨hremovedInv, hremoved⟩ := hinv.removePending
  refine Wp.bind hinv (Wp.attempt ?_)
  cases hfile : s.lookup pendingFile with
  | none =>
    refine (((privateFileSize_missing hinv hfile true).bind_error hinv) clean).mono ?_
    rintro clean' r s' - ⟨rfl, ⟨rfl, rfl⟩ | ⟨rfl, e, rfl⟩⟩
    · exact hlast _ clean' s' (.refl s') fun _ => ⟨rfl, hfile⟩
    · exact hlast e false s' (.refl s') (by rintro ⟨⟩)
  | some file =>
    have hdirectory : s.directory = true := hinv.directory
      (List.ne_nil_of_mem ((CheckpointDisk.lookup_eq_some_iff hinv).mp hfile).1)
    refine (privateFileSize_reads hinv hfile (.inl rfl)).wp_bind hinv ?_ fun e =>
      hlast e false s (.refl s) (by rintro ⟨⟩)
    refine Wp.bind hinv (perform_runs (fun count => ?_) fun s' hs' => ?_)
    · rw [CheckpointDisk.effect, hfile, Option.isSome_some, if_pos rfl]
      refine ⟨hremovedInv, Wp.mono (syncDirectory_reads (s := s.remove pendingFile) hdirectory clean)
        ?_⟩
      rintro clean' r s' - ⟨rfl, ⟨rfl, rfl⟩ | ⟨rfl, e, rfl⟩⟩
      · exact Wp.pure_alone fun _ => ⟨hremoved, fun _ => ⟨rfl, s.lookup_remove_self pendingFile⟩⟩
      · exact hlast e false _ hremoved (by rintro ⟨⟩)
    · have hstate : s'.Inv storedByteLimit ∧ s.Steady s' := by
        cases hs' with
        | before => exact ⟨hinv, .refl s⟩
        | after =>
          rw [CheckpointDisk.effect, hfile, Option.isSome_some, if_pos rfl]
          exact ⟨hremovedInv, hremoved⟩
      exact ⟨hstate.1, fun e => hlast e false s' hstate.2 (by rintro ⟨⟩)⟩

/-- The pending file with some of a payload. -/
theorem CheckpointDisk.Inv.addPending (h : s.Inv storedByteLimit) {bytes : List Byte}
    (hfits : bytes.length ≤ runCheckpointPayloadByteLimit storedByteLimit)
    (hfree : s.lookup pendingFile = none) (hdirectory : s.directory = true) :
    (s.add ⟨pendingFile, true, 1, 0o600, bytes⟩).Inv storedByteLimit ∧
      s.Steady (s.add ⟨pendingFile, true, 1, 0o600, bytes⟩) := by
  refine ⟨h.add ⟨.inl rfl, ⟨rfl, rfl, rfl⟩, hfits, fun hne => absurd rfl hne⟩ hfree hdirectory
    (slotFile_ne_pending _).symm, rfl, fun name hne => ?_, id⟩
  rw [lookup_add hfree, if_neg hne]

theorem writePending_runs (hinv : s.Inv storedByteLimit) {payload : List Byte}
    (hfits : payload.length ≤ runCheckpointPayloadByteLimit storedByteLimit) (clean : Bool) :
    Runs storedByteLimit (writePending payload) clean (fun clean' r s' => s.Steady s' ∧
      (r = .ok () → ∃ file, s'.lookup pendingFile = some file ∧ file.content = payload) ∧
      (clean' = true → s.lookup pendingFile = none → s.directory = true → r = .ok ())) s := by
  have heffect : ∀ bytes : List Byte, bytes.length ≤ payload.length →
      (s.effect 0 (.writeFile pendingFile bytes)).1.Inv storedByteLimit ∧
        s.Steady (s.effect 0 (.writeFile pendingFile bytes)).1 := by
    intro bytes hbytes
    rw [CheckpointDisk.effect]
    split
    · exact ⟨hinv, .refl s⟩
    · rename_i hfree
      split
      · rename_i hdirectory
        rw [Bool.not_eq_true, Option.isSome_eq_false_iff, Option.isNone_iff_eq_none] at hfree
        exact hinv.addPending (Nat.le_trans hbytes hfits) hfree hdirectory
      · exact ⟨hinv, .refl s⟩
  refine Wp.bind hinv (perform_runs (fun count => ⟨(heffect payload (Nat.le_refl _)).1, ?_⟩)
    fun s' hs' => ?_)
  · by_cases hfree : s.lookup pendingFile = none
    · cases hdirectory : s.directory with
      | true =>
        have hwritten : s.effect count (.writeFile pendingFile payload) =
            (s.add ⟨pendingFile, true, 1, 0o600, payload⟩, .ok ()) := by
          rw [CheckpointDisk.effect, hfree, hdirectory]
          rfl
        obtain ⟨haddedInv, hadded⟩ := hinv.addPending hfits hfree hdirectory
        have hfile : (s.add ⟨pendingFile, true, 1, 0o600, payload⟩).lookup pendingFile =
            some ⟨pendingFile, true, 1, 0o600, payload⟩ := by
          rw [CheckpointDisk.lookup_add hfree, if_pos rfl]
        have hsync : Reads storedByteLimit (withFile pendingFile (perform (.sync pendingFile)))
            (.ok ()) (s.add ⟨pendingFile, true, 1, 0o600, payload⟩) :=
          withFile_reads haddedInv hfile (perform_reads (fun _ => rfl) nofun)
        rw [hwritten]
        refine Wp.mono (hsync clean) ?_
        rintro clean' r s' - ⟨rfl, ⟨rfl, rfl⟩ | ⟨rfl, e, rfl⟩⟩
        · exact ⟨hadded, fun _ => ⟨_, hfile, rfl⟩, fun _ _ _ => rfl⟩
        · exact ⟨hadded, nofun, nofun⟩
      | false =>
        have hmissing : s.effect count (.writeFile pendingFile payload) =
            (s, .error CheckpointDisk.missing) := by
          rw [CheckpointDisk.effect, hfree, hdirectory]
          rfl
        rw [hmissing]
        exact ⟨.refl s, nofun, fun _ _ => nofun⟩
    · have hexists : s.effect count (.writeFile pendingFile payload) =
          (s, .error CheckpointDisk.existing) := by
        rw [CheckpointDisk.effect, if_pos (Option.isSome_iff_ne_none.mpr hfree)]
      rw [hexists]
      exact ⟨.refl s, nofun, fun _ hnone => absurd hnone hfree⟩
  · have hstate : s'.Inv storedByteLimit ∧ s.Steady s' := by
      cases hs' with
      | before => exact ⟨hinv, .refl s⟩
      | after => exact heffect payload (Nat.le_refl _)
      | torn name bytes count => exact heffect (payload.take count) (List.length_take_le' _ _)
    exact ⟨hstate.1, fun e => ⟨hstate.2, nofun, nofun⟩⟩

/-- The pending file becomes the slot of the next checkpoint. -/
theorem CheckpointDisk.Inv.rename (h : s.Inv storedByteLimit)
    (hpending : s.lookup pendingFile = some file) (hlength : 1 ≤ file.content.length) :
    (((s.remove pendingFile).remove (slotFile (s.journal.length + 1))).add
        { file with name := slotFile (s.journal.length + 1) }).Inv storedByteLimit ∧
      (((s.remove pendingFile).remove (slotFile (s.journal.length + 1))).add
        { file with name := slotFile (s.journal.length + 1) }).lookup
          (slotFile (s.journal.length + 1)) =
        some { file with name := slotFile (s.journal.length + 1) } := by
  obtain ⟨hmem, -⟩ := (lookup_eq_some_iff h).mp hpending
  have hbounded := h.file file hmem
  have hremoved := h.removePending.1.remove (slotFile_succ_ne s.journal.length)
  have hfree : ((s.remove pendingFile).remove (slotFile (s.journal.length + 1))).lookup
      (slotFile (s.journal.length + 1)) = none := lookup_remove_self _ _
  refine ⟨hremoved.add ⟨.inr (isSlot_slotFile _), hbounded.canonical, hbounded.length,
    fun _ => hlength⟩ hfree (h.directory (List.ne_nil_of_mem hmem)) (slotFile_succ_ne _), ?_⟩
  rw [lookup_add hfree, if_pos rfl]

theorem referenceValid_reference {payload : List Byte} (hsequence : 1 ≤ sequence)
    (hsafe : sequence ≤ maxSafeInteger) (hpayload : 1 ≤ payload.length)
    (hfits : payload.length ≤ runCheckpointPayloadByteLimit storedByteLimit) :
    referenceValid storedByteLimit (reference sequence payload) = true := by
  have hhash : isHash (sha256Bytes payload) = true := isHash_hexDigest payload
  have hid : isPrefixedHash (js "ctx_") (js "ctx_" ++ sha256Bytes payload) = true := by
    rw [isPrefixedHash, List.drop_left, hhash, Bool.and_true, List.isPrefixOf_iff_prefix]
    exact List.prefix_append _ _
  rw [referenceValid, reference, hid, hhash, decide_eq_true hsequence, decide_eq_true hsafe,
    decide_eq_true hpayload, decide_eq_true hfits]
  simp

-- ============================================================================
-- Publication
-- ============================================================================

/-- Without a pending file there is room for another payload. -/
theorem CheckpointDisk.Inv.room (h : s.Inv storedByteLimit) (hpending : s.lookup pendingFile = none)
    {payload : List Byte}
    (hfits : payload.length ≤ runCheckpointPayloadByteLimit storedByteLimit) :
    ¬(runCheckpointRetainedSlots < s.files.length ∨
      runCheckpointAggregateByteLimit storedByteLimit <
        (s.files.map fun file => file.content.length).sum + payload.length) := by
  -- the directory with the pending file added keeps the bounds
  have hnone : ({ s with directory := true } : CheckpointDisk).lookup pendingFile = none := hpending
  have hadded := (h.makeDirectory.addPending hfits hnone rfl).1
  have hlength := hadded.length_le
  have hbytes := hadded.bytes_le
  simp only [CheckpointDisk.add, List.length_append, List.length_singleton, List.map_append, List.map_cons,
    List.map_nil, List.sum_append, List.sum_cons, List.sum_nil, Nat.add_zero] at hlength hbytes
  rw [runCheckpointMaxPhysicalEntries] at hlength
  rw [runCheckpointRetainedSlots]
  omega

/-- What a publication of the next checkpoint leaves. -/
structure Published (storedByteLimit : Nat) (payload : List Byte) (s : CheckpointDisk)
    (clean : Bool) (r : Except CheckpointError (Option RunCheckpointContentReference))
    (s' : CheckpointDisk) : Prop where
  journal : s'.journal = s.journal
  held : ∀ published, r = .ok (some published) →
    published.checkpointSequence = s.journal.length + 1 ∧
      referenceValid storedByteLimit published = true ∧ s'.Holds published
  clean : clean = true → s.journal.length < maxSafeInteger →
    r = .ok (some (reference (s.journal.length + 1) payload))

theorem Published.raised {payload : List Byte} {e : CheckpointError}
    (hjournal : s'.journal = s.journal) :
    Published storedByteLimit payload s false (.error e) s' :=
  ⟨hjournal, nofun, nofun⟩

/-- What follows the rename: the payload is in its slot. -/
theorem published_runs (hinv : s'.Inv storedByteLimit) (hdirectory : s'.directory = true)
    (hjournal : s'.journal = s.journal) {payload : List Byte} (hpayload : 1 ≤ payload.length)
    (hfits : payload.length ≤ runCheckpointPayloadByteLimit storedByteLimit)
    (hfile : s'.lookup (slotFile (s.journal.length + 1)) = some file)
    (hcontent : file.content = payload) (clean : Bool) :
    Runs storedByteLimit (do
      perform .syncDirectory
      let final ← RunCheckpointStore.read storedByteLimit
        (reference (s.journal.length + 1) payload)
      if final.length ≠ payload.length then .raise storeError
      else
        let _ ← inspectEntries storedByteLimit
        pure (some (reference (s.journal.length + 1) payload))) clean
      (Published storedByteLimit payload s) s' := by
  refine (syncDirectory_reads hdirectory).wp_bind hinv ?_ fun e => .raised hjournal
  by_cases hsafe : s.journal.length + 1 ≤ maxSafeInteger
  · have hvalid : referenceValid storedByteLimit (reference (s.journal.length + 1) payload) = true :=
      referenceValid_reference (Nat.succ_pos s.journal.length) hsafe hpayload hfits
    have hread := read_reads hinv hdirectory hvalid hfile (by rw [hcontent]; rfl)
      (by rw [hcontent]; rfl)
    refine hread.wp_bind hinv ?_ fun e => .raised hjournal
    rw [if_neg (by rw [hcontent]; exact fun h => h rfl)]
    refine (inspectEntries_reads hinv hdirectory).wp_bind hinv ?_ fun e => .raised hjournal
    refine Wp.pure_alone fun _ => ⟨hjournal, fun published hpublished => ?_, fun _ _ => rfl⟩
    obtain rfl := Option.some.inj (Except.ok.inj hpublished)
    exact ⟨rfl, hvalid, file, hfile, by rw [hcontent]; rfl, by rw [hcontent]; rfl⟩
  · -- such a sequence number is not read
    have hinvalid : referenceValid storedByteLimit
        (reference (s.journal.length + 1) payload) = false := by
      rw [referenceValid, reference, decide_eq_false hsafe]
      rfl
    have hread : Reads storedByteLimit (RunCheckpointStore.read storedByteLimit
        (reference (s.journal.length + 1) payload)) (.error storeError) s' := by
      rw [RunCheckpointStore.read, hinvalid]
      exact .raise
    refine Wp.bind hinv (Wp.mono (hread clean) ?_)
    rintro clean' r t - ⟨rfl, ⟨rfl, rfl⟩ | ⟨rfl, e, rfl⟩⟩
    · exact ⟨hjournal, nofun, fun _ hlt => absurd hlt hsafe⟩
    · exact .raised hjournal

theorem publishPayload_runs (hinv : s.Inv storedByteLimit) {payload : List Byte}
    (hpayload : 1 ≤ payload.length)
    (hfits : payload.length ≤ runCheckpointPayloadByteLimit storedByteLimit) (clean : Bool) :
    Runs storedByteLimit (publishPayload storedByteLimit (s.journal.length + 1) payload) clean
      (Published storedByteLimit payload s) s := by
  refine Wp.bind hinv ((ensureDirectory_runs hinv clean).mono ?_)
  rintro c₁ r₁ s₁ hinv₁ ⟨hsteady₁, hdirectory₁, hclean₁⟩
  cases r₁ with
  | error e => exact ⟨hsteady₁.journal, nofun, fun h => absurd (hclean₁ h) nofun⟩
  | ok u =>
  refine Wp.bind hinv₁ ((removePending_runs hinv₁ c₁).mono ?_)
  rintro c₂ r₂ s₂ hinv₂ ⟨hsteady₂, hclean₂⟩
  cases r₂ with
  | error e =>
    exact ⟨(hsteady₁.trans hsteady₂).journal, nofun, fun h => absurd (hclean₂ h).1 nofun⟩
  | ok u =>
  have hdirectory₂ := hsteady₂.directory (hdirectory₁ rfl)
  have hjournal₂ := (hsteady₁.trans hsteady₂).journal
  refine (inspectEntries_reads hinv₂ hdirectory₂).wp_bind hinv₂ ?_ fun e => .raised hjournal₂
  split
  · -- there is room when nothing has failed
    rename_i hfull
    exact Wp.pure_alone fun _ => ⟨hjournal₂, nofun, fun h =>
      absurd hfull (hinv₂.room (hclean₂ h).2 hfits)⟩
  · refine Wp.bind hinv₂ ((writePending_runs hinv₂ hfits c₂).since.mono ?_)
    rintro c₃ r₃ s₃ hinv₃ ⟨hsince, hsteady₃, hwritten, hclean₃⟩
    have hjournal₃ := hsteady₃.journal.trans hjournal₂
    cases r₃ with
    | error e =>
      exact ⟨hjournal₃, nofun, fun h =>
        absurd (hclean₃ h (hclean₂ (hsince h)).2 hdirectory₂) nofun⟩
    | ok u =>
    obtain ⟨file, hfile, hcontent⟩ := hwritten rfl
    have hdirectory₃ := hsteady₃.directory hdirectory₂
    have hsize : Reads storedByteLimit (privateFileSize storedByteLimit pendingFile false)
        (.ok payload.length) s₃ :=
      hcontent ▸ privateFileSize_reads hinv₃ hfile (.inr (hcontent ▸ hpayload))
    refine hsize.wp_bind hinv₃ ?_ fun e => .raised hjournal₃
    rw [if_neg (fun h => h rfl)]
    refine checkpoint_reads.wp_bind hinv₃ ?_ fun e => .raised hjournal₃
    obtain ⟨hinv₄, hslot⟩ := hinv₃.rename hfile (hcontent ▸ hpayload)
    rw [hjournal₃] at hinv₄ hslot
    have heffect : ∀ count,
        s₃.effect count (.rename pendingFile (slotFile (s.journal.length + 1))) =
          (((s₃.remove pendingFile).remove (slotFile (s.journal.length + 1))).add
            { file with name := slotFile (s.journal.length + 1) }, .ok ()) := by
      intro count
      rw [CheckpointDisk.effect, hfile]
    refine Wp.bind hinv₃ (perform_runs (fun count => ?_) fun s' hs' => ?_)
    · rw [heffect]
      exact ⟨hinv₄, published_runs hinv₄ hdirectory₃ hjournal₃ hpayload hfits hslot hcontent c₃⟩
    · cases hs' with
      | before => exact ⟨hinv₃, fun e => .raised hjournal₃⟩
      | after =>
        rw [heffect]
        exact ⟨hinv₄, fun e => .raised hjournal₃⟩

/-- A publication that has failed declines or raises. -/
theorem declineFailure_runs (error : CheckpointError) (cleanup : Except CheckpointError Unit)
    (clean : Bool) :
    Runs storedByteLimit (declineFailure error cleanup) clean (fun clean' r s' => s' = s ∧
      clean' = clean ∧ ∀ published, r ≠ .ok (some published)) s := by
  have hnone : Runs storedByteLimit (pure none : Io (Option RunCheckpointContentReference)) clean
      (fun clean' r s' => s' = s ∧ clean' = clean ∧ ∀ published, r ≠ .ok (some published)) s :=
    Wp.pure_alone fun _ => ⟨rfl, rfl, fun _ => nofun⟩
  have hraise : ∀ e, Runs storedByteLimit (.raise e : Io (Option RunCheckpointContentReference)) clean
      (fun clean' r s' => s' = s ∧ clean' = clean ∧ ∀ published, r ≠ .ok (some published)) s :=
    fun e => Wp.raise_alone fun _ => ⟨rfl, rfl, fun _ => nofun⟩
  cases cleanup with
  | ok u =>
    simp only [declineFailure]
    split
    · exact hraise _
    · split
      · exact hnone
      · exact hraise _
  | error e =>
    simp only [declineFailure]
    split
    · exact hraise _
    · split
      · exact hnone
      · exact hraise _

theorem publish_runs (hinv : s.Inv storedByteLimit) (payload : List Byte) (clean : Bool) :
    Runs storedByteLimit (publish storedByteLimit (s.journal.length + 1) payload) clean
      (fun clean' r s' => s'.journal = s.journal ∧
        (∀ published, r = .ok (some published) →
          published.checkpointSequence = s.journal.length + 1 ∧
            referenceValid storedByteLimit published = true ∧ s'.Holds published) ∧
        (clean' = true → s.journal.length < maxSafeInteger → 1 ≤ payload.length →
          payload.length ≤ runCheckpointPayloadByteLimit storedByteLimit →
          r = .ok (some (reference (s.journal.length + 1) payload)))) s := by
  rw [publish]
  split
  · exact Wp.pure_alone fun _ => ⟨rfl, nofun, fun _ _ _ _ => by omega⟩
  · rename_i hsize
    refine checkpoint_reads.wp_bind hinv ?_ fun e => ⟨rfl, nofun, nofun⟩
    refine Wp.bind hinv (Wp.attempt ((publishPayload_runs hinv (by omega) (by omega) clean).mono ?_))
    rintro c₁ r₁ s₁ hinv₁ hpublished
    cases r₁ with
    | ok published =>
      exact Wp.pure_alone fun _ => ⟨hpublished.journal, hpublished.held,
        fun hclean hlt _ _ => hpublished.clean hclean hlt⟩
    | error error =>
      -- without a failure of the environment there is no error
      have hfailed : c₁ = true → ¬s.journal.length < maxSafeInteger := fun hclean hlt =>
        absurd (hpublished.clean hclean hlt) nofun
      refine Wp.bind hinv₁ (Wp.attempt ((removePending_runs hinv₁ c₁).since.mono ?_))
      rintro c₂ r₂ s₂ hinv₂ ⟨hsince, hsteady, -⟩
      have hjournal := hsteady.journal.trans hpublished.journal
      refine checkpoint_reads.wp_bind hinv₂ ?_ fun e => ⟨hjournal, nofun, nofun⟩
      refine (declineFailure_runs error r₂ c₂).mono ?_
      rintro c₃ r₃ s₃ - ⟨rfl, rfl, hnone⟩
      exact ⟨hjournal, fun published heq => absurd heq (hnone published),
        fun hclean hlt _ _ => absurd hlt (hfailed (hsince hclean))⟩

theorem classify_runs (error : CheckpointError) {clean : Bool}
    {Q : Bool → Except CheckpointError Bool → CheckpointDisk → Prop} (hQ : ∀ r, Q clean r s) :
    Runs storedByteLimit (classifyCheckpointJournalFailure error) clean Q s := by
  unfold classifyCheckpointJournalFailure
  cases checkpointControlFailure error with
  | some control => exact Wp.raise_alone fun _ => hQ _
  | none =>
    cases error with
    | append eventDurable cause =>
      show Runs storedByteLimit (if eventDurable then _ else _) clean Q s
      split
      · exact Wp.pure_alone fun _ => hQ _
      · split
        · exact Wp.pure_alone fun _ => hQ _
        · exact Wp.raise_alone fun _ => hQ _
    | _ => exact Wp.raise_alone fun _ => hQ _

/-- A commit keeps the journaled checkpoint at each of its operations, and appends the next
    reference when none fails. -/
theorem commitCheckpoint_runs (hinv : s.Inv storedByteLimit) (payload : List Byte) :
    Runs storedByteLimit (commitCheckpoint storedByteLimit payload) true (fun clean r s' =>
      clean = true → s.journal.length < maxSafeInteger → 1 ≤ payload.length →
        payload.length ≤ runCheckpointPayloadByteLimit storedByteLimit →
        r = .ok true ∧
          s'.journal = s.journal ++ [reference (s.journal.length + 1) payload]) s := by
  have hsnapshot : Reads storedByteLimit (perform .authoritySnapshot) (.ok s.journal.length) s :=
    perform_reads (fun _ => rfl) nofun
  refine hsnapshot.wp_bind hinv ?_ fun e => nofun
  refine Wp.bind hinv ((publish_runs hinv payload true).mono ?_)
  rintro c₁ r₁ s₁ hinv₁ ⟨hjournal, hheld, hclean⟩
  cases r₁ with
  | error e => exact fun h hsafe hpayload hfits => absurd (hclean h hsafe hpayload hfits) nofun
  | ok published =>
    cases published with
    | none =>
      exact Wp.pure_alone fun _ h hsafe hpayload hfits =>
        absurd (hclean h hsafe hpayload hfits) nofun
    | some published =>
      obtain ⟨hsequence, hvalid, hholds⟩ := hheld published rfl
      have happended := hinv₁.append (hjournal ▸ hsequence) hvalid hholds
      refine checkpoint_reads.wp_bind hinv₁ ?_ fun e => nofun
      refine Wp.bind hinv₁ (Wp.attempt (perform_runs (fun count => ?_) fun s' hs' => ?_))
      · refine ⟨happended, Wp.pure_alone fun _ h hsafe hpayload hfits => ⟨rfl, ?_⟩⟩
        obtain rfl := Option.some.inj (Except.ok.inj (hclean h hsafe hpayload hfits))
        exact congrArg (· ++ [_]) hjournal
      · cases hs' with
        | before => exact ⟨hinv₁, fun e => classify_runs e fun _ => nofun⟩
        | after => exact ⟨happended, fun e => classify_runs e fun _ => nofun⟩

-- ============================================================================
-- Runs
-- ============================================================================

theorem runCheckpoints_inv (hinv : s.Inv storedByteLimit)
    (commits : List (List Byte × List CheckpointLabel)) :
    (runCheckpoints storedByteLimit s commits).Inv storedByteLimit := by
  induction commits generalizing s with
  | nil => exact hinv
  | cons commit commits ih =>
    exact ih ((commitCheckpoint_runs hinv commit.1).exec hinv commit.2).1

/-- No label of a stream is a failure. -/
def Undisturbed (labels : ℕ → CheckpointLabel) : Prop :=
  ∀ n, checkpointDevice.fault (labels n) = false

/-- After every run the last journaled checkpoint is in its slot and is read, the directory
    is bounded, and the next checkpoint can be published and committed. -/
theorem runCheckpoints_readable (storedByteLimit : Nat)
    (commits : List (List Byte × List CheckpointLabel)) :
    let s := runCheckpoints storedByteLimit noCheckpoint commits
    (∀ reference, s.journal.getLast? = some reference →
      reference.checkpointSequence = s.journal.length ∧
      ∃ file, s.lookup (slotFile reference.checkpointSequence) = some file ∧
        file.content.length = reference.bytes ∧ sha256Bytes file.content = reference.sha256 ∧
        ∀ labels, Undisturbed labels → ∃ n, ((RunCheckpointStore.read storedByteLimit
          reference).exec checkpointDevice ((List.range n).map labels) s).2 =
            some (.ok file.content)) ∧
    ((∀ file ∈ s.files, file.name = pendingFile ∨ isSlot file.name = true) ∧
      (s.files.map (·.name)).Nodup ∧ s.files.length ≤ runCheckpointMaxPhysicalEntries ∧
      (s.files.map fun file => file.content.length).sum ≤
        runCheckpointAggregateByteLimit storedByteLimit) ∧
    ∀ payload labels, Undisturbed labels → s.journal.length < maxSafeInteger →
      1 ≤ payload.length → payload.length ≤ runCheckpointPayloadByteLimit storedByteLimit →
      (∃ n, ((publish storedByteLimit (s.journal.length + 1) payload).exec checkpointDevice
        ((List.range n).map labels) s).2 =
          some (.ok (some (reference (s.journal.length + 1) payload)))) ∧
      ∃ n, ((commitCheckpoint storedByteLimit payload).exec checkpointDevice
          ((List.range n).map labels) s).2 = some (.ok true) ∧
        ((commitCheckpoint storedByteLimit payload).exec checkpointDevice
          ((List.range n).map labels) s).1.journal =
            s.journal ++ [reference (s.journal.length + 1) payload] := by
  intro s
  have hinv : s.Inv storedByteLimit := runCheckpoints_inv CheckpointDisk.inv_noCheckpoint commits
  refine ⟨fun reference hlast => ?_, ⟨fun file hmem => (hinv.file file hmem).name, hinv.names,
    hinv.length_le, hinv.bytes_le⟩, fun payload labels hlabels hsafe hpayload hfits => ?_⟩
  · obtain ⟨hsequence, hvalid, file, hfile, hlength, hhash⟩ := hinv.journal reference hlast
    refine ⟨hsequence, file, hfile, hlength, hhash, fun labels hlabels => ?_⟩
    have hdirectory := hinv.directory
      (List.ne_nil_of_mem ((CheckpointDisk.lookup_eq_some_iff hinv).mp hfile).1)
    obtain ⟨n, r, hr, -, ⟨rfl, -⟩ | ⟨hfalse, -⟩⟩ :=
      (read_reads hinv hdirectory hvalid hfile hlength hhash true).exec_clean hinv labels hlabels
    · exact ⟨n, hr⟩
    · exact absurd hfalse nofun
  · obtain ⟨n, r, hr, -, -, hclean⟩ :=
      (publish_runs hinv payload true).exec_clean hinv labels hlabels
    rw [hclean rfl hsafe hpayload hfits] at hr
    refine ⟨⟨n, hr⟩, ?_⟩
    obtain ⟨n, r, hr, hcommitted⟩ :=
      (commitCheckpoint_runs hinv payload).exec_clean hinv labels hlabels
    obtain ⟨rfl, hjournal⟩ := hcommitted rfl hsafe hpayload hfits
    exact ⟨n, hr, hjournal⟩

end PiRlm.Runtime

/-
  PiRlm.Runtime.RunWriterQuarantineSound

  What interrupted and concurrent removals leave, and when a later pass removes the rest.

  No program adds a path, so that what is under a name is always a part of what was there.
  A pass reads the arbitration directory of a quarantine before it removes anything of it:
  it ends well on what an earlier one has left when the files that decide the inspection
  are still there.
-/
import Mathlib
import PiRlm.Runtime.ArbitrationResidual

namespace PiRlm.Runtime

open PiRlm.Lib PiRlm.Core PiRlm.Shell

-- ============================================================================
-- Parts of a root
-- ============================================================================

/-- A part of a tree. -/
structure RunTree.Residual (tree original : RunTree) : Prop where
  name : tree.name = original.name
  dev : tree.dev = original.dev
  ino : tree.ino = original.ino
  isDirectory : tree.isDirectory = original.isDirectory
  arbitration : ∀ directory, tree.arbitration = some directory →
    ∃ whole, original.arbitration = some whole ∧ directory.mode = whole.mode ∧
      directory.files.Sublist whole.files
  others : tree.others.Sublist original.others

theorem RunTree.Residual.refl (tree : RunTree) : tree.Residual tree :=
  ⟨rfl, rfl, rfl, rfl, fun directory h => ⟨directory, h, rfl, .refl _⟩, .refl _⟩

theorem RunTree.Residual.trans {tree middle original : RunTree} (h : tree.Residual middle)
    (h' : middle.Residual original) : tree.Residual original where
  name := h.name.trans h'.name
  dev := h.dev.trans h'.dev
  ino := h.ino.trans h'.ino
  isDirectory := h.isDirectory.trans h'.isDirectory
  arbitration := by
    intro directory hdirectory
    obtain ⟨part, hpart, hmode, hsub⟩ := h.arbitration directory hdirectory
    obtain ⟨whole, hwhole, hmode', hsub'⟩ := h'.arbitration part hpart
    exact ⟨whole, hwhole, hmode.trans hmode', hsub.trans hsub'⟩
  others := h.others.trans h'.others

theorem RunTree.Residual.size_le {tree original : RunTree} (h : tree.Residual original) :
    tree.size ≤ original.size := by
  have hothers := h.others.length_le
  rw [RunTree.size, RunTree.size]
  cases harbitration : tree.arbitration with
  | none => rw [Option.elim_none]; omega
  | some directory =>
    obtain ⟨whole, hwhole, -, hsub⟩ := h.arbitration directory harbitration
    have hfiles := hsub.length_le
    rw [hwhole, Option.elim_some, Option.elim_some]
    omega

theorem RunTree.unlink_residual {tree tree' : RunTree} {target : RemovalTarget}
    (h : tree.unlink target = some tree') : tree'.Residual tree := by
  cases target with
  | file name =>
    obtain rfl := Option.some.inj h
    refine ⟨rfl, rfl, rfl, rfl, fun directory hdirectory => ?_, .refl _⟩
    obtain ⟨whole, hwhole, rfl⟩ := Option.map_eq_some_iff.mp hdirectory
    exact ⟨whole, hwhole, rfl, List.filter_sublist⟩
  | arbitration =>
    obtain rfl := Option.some.inj h
    exact ⟨rfl, rfl, rfl, rfl, nofun, .refl _⟩
  | other path =>
    obtain rfl := Option.some.inj h
    exact ⟨rfl, rfl, rfl, rfl, fun directory h => ⟨directory, h, rfl, .refl _⟩, List.filter_sublist⟩
  | run => exact absurd h nofun

/-- Something of a tree can always be removed. -/
theorem RunTree.targets_ne_nil (tree : RunTree) : tree.targets ≠ [] := by
  unfold RunTree.targets
  split
  · cases hothers : tree.others with
    | nil => exact List.cons_ne_nil _ _
    | cons path paths => exact List.cons_ne_nil _ _
  · rename_i directory hdirectory
    cases hfiles : directory.files with
    | nil => exact List.cons_ne_nil _ _
    | cons file files => exact List.cons_ne_nil _ _

theorem filter_ne_length {α κ : Type} [DecidableEq κ] (key : α → κ) {xs : List α} {x : α}
    (hmem : x ∈ xs) :
    (xs.filter fun y => decide (key y ≠ key x)).length < xs.length := by
  rw [List.length_filter_lt_length_iff_exists]
  exact ⟨x, hmem, by simp⟩

theorem RunTree.size_unlink {tree tree' : RunTree} {target : RemovalTarget}
    (htarget : target ∈ tree.targets) (h : tree.unlink target = some tree') :
    tree'.size < tree.size := by
  unfold RunTree.targets at htarget
  rcases List.mem_append.mp htarget with htarget | htarget
  · split at htarget
    · rename_i hnone
      split at htarget
      · obtain rfl := List.mem_singleton.mp htarget
        exact absurd h nofun
      · exact absurd htarget List.not_mem_nil
    · rename_i directory hdirectory
      split at htarget
      · obtain rfl := List.mem_singleton.mp htarget
        obtain rfl := Option.some.inj h
        simp only [RunTree.size, hdirectory, Option.elim_some, Option.elim_none]
        omega
      · obtain ⟨file, hfile, rfl⟩ := List.mem_map.mp htarget
        obtain rfl := Option.some.inj h
        have hlt := filter_ne_length ArbitrationFile.name hfile
        simp only [RunTree.size, hdirectory, Option.map_some, Option.elim_some]
        omega
  · obtain ⟨path, hpath, rfl⟩ := List.mem_map.mp htarget
    obtain rfl := Option.some.inj h
    have hlt := filter_ne_length id hpath
    simp only [id] at hlt
    simp only [RunTree.size]
    omega

namespace ManagedRoot

variable {s s' s'' root : ManagedRoot} {name other : JsString} {tree tree' : RunTree}

theorem name_of_find (h : s.find name = some tree) : tree.name = name := key_of_find h

theorem mem_of_find (h : s.find name = some tree) : tree ∈ s.entries :=
  List.mem_of_find?_eq_some h

theorem find_set_ne (hne : other ≠ name) {left : Option RunTree}
    (hleft : ∀ tree, left = some tree → tree.name = name) :
    (s.set name left).find other = s.find other := by
  unfold ManagedRoot.find ManagedRoot.set
  induction s.entries with
  | nil => rfl
  | cons entry entries ih =>
    by_cases hentry : entry.name = name
    · have hskip : ¬entry.name = other := fun heq => hne (heq.symm.trans hentry)
      rw [List.find?_cons_of_neg (by rw [decide_eq_true_eq]; exact hskip)]
      cases left with
      | none =>
        rw [List.filterMap_cons_none (by rw [if_pos hentry])]
        exact ih
      | some tree =>
        rw [List.filterMap_cons_some (by rw [if_pos hentry]),
          List.find?_cons_of_neg (by rw [decide_eq_true_eq, hleft tree rfl]; exact Ne.symm hne)]
        exact ih
    · rw [List.filterMap_cons_some (by rw [if_neg hentry]), List.find?_cons, List.find?_cons, ih]

theorem find_set_self {left : Option RunTree} (hleft : ∀ tree, left = some tree → tree.name = name) :
    (s.set name left).find name = (s.find name).bind fun _ => left := by
  unfold ManagedRoot.find ManagedRoot.set
  induction s.entries with
  | nil => rfl
  | cons entry entries ih =>
    by_cases hentry : entry.name = name
    · rw [List.find?_cons_of_pos (by rw [decide_eq_true_eq]; exact hentry)]
      cases left with
      | none =>
        rw [List.filterMap_cons_none (by rw [if_pos hentry]), ih]
        cases entries.find? fun tree => decide (tree.name = name) <;> rfl
      | some tree =>
        rw [List.filterMap_cons_some (by rw [if_pos hentry]),
          List.find?_cons_of_pos (by rw [decide_eq_true_eq, hleft tree rfl])]
        rfl
    · rw [List.filterMap_cons_some (by rw [if_neg hentry]),
        List.find?_cons_of_neg (by rw [decide_eq_true_eq]; exact hentry),
        List.find?_cons_of_neg (by rw [decide_eq_true_eq]; exact hentry)]
      exact ih

theorem names_set {left : Option RunTree} (hleft : ∀ tree, left = some tree → tree.name = name) :
    ((s.set name left).entries.map (·.name)).Sublist (s.entries.map (·.name)) := by
  unfold ManagedRoot.set
  induction s.entries with
  | nil => exact .refl _
  | cons entry entries ih =>
    by_cases hentry : entry.name = name
    · cases left with
      | none =>
        rw [List.filterMap_cons_none (by rw [if_pos hentry]), List.map_cons]
        exact ih.cons _
      | some tree =>
        rw [List.filterMap_cons_some (by rw [if_pos hentry]), List.map_cons, List.map_cons,
          hleft tree rfl, hentry]
        exact ih.cons_cons _
    · rw [List.filterMap_cons_some (by rw [if_neg hentry]), List.map_cons, List.map_cons]
      exact ih.cons_cons _

/-- A part of a root; a private root stays private. -/
structure Residual (s root : ManagedRoot) : Prop where
  dev : s.dev = root.dev
  ino : s.ino = root.ino
  mode : root.mode = 0o700 → s.mode = 0o700
  names : (s.entries.map (·.name)).Sublist (root.entries.map (·.name))
  find : ∀ name tree, s.find name = some tree →
    ∃ original, root.find name = some original ∧ tree.Residual original

theorem Residual.refl (s : ManagedRoot) : s.Residual s :=
  ⟨rfl, rfl, id, .refl _, fun _ tree h => ⟨tree, h, .refl tree⟩⟩

theorem Residual.trans (h : s.Residual s') (h' : s'.Residual s'') : s.Residual s'' where
  dev := h.dev.trans h'.dev
  ino := h.ino.trans h'.ino
  mode := fun hmode => h.mode (h'.mode hmode)
  names := h.names.trans h'.names
  find := by
    intro name tree hfind
    obtain ⟨middle, hmiddle, hresidual⟩ := h.find name tree hfind
    obtain ⟨original, horiginal, hresidual'⟩ := h'.find name middle hmiddle
    exact ⟨original, horiginal, hresidual.trans hresidual'⟩

/-- Only what is under one name may have changed. -/
structure Frame (name : JsString) (s s' : ManagedRoot) : Prop where
  residual : s'.Residual s
  mode : s'.mode = s.mode
  other : ∀ other, other ≠ name → s'.find other = s.find other

theorem Frame.refl (name : JsString) (s : ManagedRoot) : Frame name s s :=
  ⟨.refl s, rfl, fun _ _ => rfl⟩

theorem Frame.trans (h : Frame name s s') (h' : Frame name s' s'') : Frame name s s'' :=
  ⟨h'.residual.trans h.residual, h'.mode.trans h.mode,
    fun other hne => (h'.other other hne).trans (h.other other hne)⟩

theorem set_unlink_frame (hfind : s.find name = some tree) (target : RemovalTarget) :
    Frame name s (s.set name (tree.unlink target)) := by
  have hname : ∀ tree', tree.unlink target = some tree' → tree'.name = name :=
    fun tree' h => (RunTree.unlink_residual h).name.trans (name_of_find hfind)
  refine ⟨⟨rfl, rfl, id, names_set hname, fun other tree' hfind' => ?_⟩, rfl,
    fun other hne => find_set_ne hne hname⟩
  by_cases hother : other = name
  · subst hother
    rw [find_set_self hname, hfind, Option.bind_some] at hfind'
    exact ⟨tree, hfind, RunTree.unlink_residual hfind'⟩
  · rw [find_set_ne hother hname] at hfind'
    exact ⟨tree', hfind', .refl tree'⟩

/-- `rm` removes one path of the tree, if there is one. -/
theorem removeNext_cases (s : ManagedRoot) (name : JsString) (choice : Nat) :
    (s.find name = none ∧ s.removeNext name choice = s) ∨
      ∃ tree target, s.find name = some tree ∧ target ∈ tree.targets ∧
        s.removeNext name choice = s.set name (tree.unlink target) := by
  unfold removeNext
  cases hfind : s.find name with
  | none => exact .inl ⟨rfl, rfl⟩
  | some tree =>
    have hlt : choice % tree.targets.length < tree.targets.length :=
      Nat.mod_lt _ (List.length_pos_iff.mpr tree.targets_ne_nil)
    refine .inr ⟨tree, tree.targets[choice % tree.targets.length], rfl, List.getElem_mem hlt, ?_⟩
    simp only [List.getElem?_eq_getElem hlt]

theorem removeNext_frame (s : ManagedRoot) (name : JsString) (choice : Nat) :
    Frame name s (s.removeNext name choice) := by
  rcases s.removeNext_cases name choice with ⟨-, heq⟩ | ⟨tree, target, hfind, -, heq⟩
  · rw [heq]
    exact .refl name s
  · rw [heq]
    exact set_unlink_frame hfind target

/-- Every operation leaves a part of the root. -/
theorem perform_residual (o : QuarantineOp) (l : QuarantineLabel) (s : ManagedRoot) :
    (s.perform o l).1.Residual s := by
  have heffect : ∀ choice, (s.effect choice o).1.Residual s := by
    intro choice
    cases o with
    | ensureRoot => exact ⟨rfl, rfl, fun _ => rfl, .refl _, fun _ tree h => ⟨tree, h, .refl tree⟩⟩
    | removeNext name => exact (s.removeNext_frame name choice).residual
    | _ => exact .refl s
  cases l with
  | done choice => exact heffect choice
  | failsBefore => exact .refl s
  | failsAfter choice => exact heffect choice

end ManagedRoot

-- ============================================================================
-- A pass alone
-- ============================================================================

/-- Executions of a scavenger in which no file operation fails. -/
abbrev Scavenges {α : Type} (program : RunQuarantine.Io α)
    (Q : Except ScavengeError α → ManagedRoot → Prop) (s : ManagedRoot) : Prop :=
  program.Ends quarantineDevice Q s

namespace RunQuarantine

variable {s : ManagedRoot} {name : JsString} {tree : RunTree}

/-- An operation of which the environment decides nothing. -/
theorem perform_ends {o : QuarantineOp} {Q : Except ScavengeError o.Reply → ManagedRoot → Prop}
    (h : ∀ choice, Q (s.effect choice o).2 (s.effect choice o).1) : Scavenges (perform o) Q s := by
  refine Program.Ends.perform fun l hl => ?_
  cases l with
  | done choice => exact h choice
  | failsBefore => exact absurd hl nofun
  | failsAfter choice => exact absurd hl nofun

theorem statAttempt_ends {Q : Except ScavengeError (Option RunStat) → ManagedRoot → Prop}
    (h : Q (.ok ((s.find name).map fun tree => ⟨tree.dev, tree.ino, tree.isDirectory⟩)) s) :
    Scavenges (statAttempt name) Q s := by
  refine Program.Ends.bind (Program.Ends.attempt (perform_ends fun choice => ?_))
  simp only [ManagedRoot.effect]
  cases hfind : s.find name with
  | none =>
    rw [hfind] at h
    exact h
  | some tree =>
    rw [hfind] at h
    exact h

theorem valid_self (hmode : s.mode = 0o700) {identity : Nat × Nat} (hdev : s.dev = identity.1)
    (hino : s.ino = identity.2) : valid ⟨s.dev, s.ino, s.mode⟩ (some identity) = true := by
  simp only [valid, hmode, hdev, hino, Option.all_some, decide_true, Bool.and_self]

theorem syncPrivateDirectory_ends {expected : Option (Nat × Nat)}
    {Q : Except ScavengeError Unit → ManagedRoot → Prop} (hmode : s.mode = 0o700)
    (hidentity : ∀ identity, expected = some identity → s.dev = identity.1 ∧ s.ino = identity.2)
    (h : Q (.ok ()) s) : Scavenges (syncPrivateDirectory expected) Q s := by
  have hvalid : valid ⟨s.dev, s.ino, s.mode⟩ (some (expected.getD (s.dev, s.ino))) = true := by
    cases expected with
    | none => exact valid_self hmode rfl rfl
    | some identity => exact valid_self hmode (hidentity _ rfl).1 (hidentity _ rfl).2
  refine Program.Ends.bind (perform_ends fun choice => ?_)
  show Scavenges (if !valid ⟨s.dev, s.ino, s.mode⟩ _ then _ else _) Q s
  rw [hvalid]
  refine Program.Ends.bind (perform_ends fun choice => ?_)
  refine Program.Ends.bind (perform_ends fun choice => ?_)
  show Scavenges (if !valid ⟨s.dev, s.ino, s.mode⟩ _ then _ else _) Q s
  rw [hvalid]
  exact h

-- ============================================================================
-- The inspection
-- ============================================================================

/-- What loading a name of a directory gives. -/
def loadFile (directory : ArbitrationTree) (file : JsString) : ArbitrationDirectoryEntry :=
  ⟨file, (directory.find file).bind (·.load directory.files)⟩

/-- The sorted listing of a directory. -/
def sortedListing (directory : ArbitrationTree) : List ArbitrationDirectoryEntry :=
  ((directory.files.map (·.name)).insertionSort (· ≤ ·)).map (loadFile directory)

theorem loadEntries_ends {directory : ArbitrationTree} (hdirectory : s.directory name = some directory)
    (files : List JsString) (entries : List ArbitrationDirectoryEntry)
    {Q : Except ScavengeError (List ArbitrationDirectoryEntry) → ManagedRoot → Prop}
    (h : Q (.ok (entries ++ files.map (loadFile directory))) s) :
    Scavenges (loadEntries name files entries) Q s := by
  induction files generalizing entries with
  | nil =>
    rw [List.map_nil, List.append_nil] at h
    exact h
  | cons file files ih =>
    refine Program.Ends.bind (Program.Ends.attempt (perform_ends fun choice => ?_))
    refine ih _ ?_
    rw [List.map_cons, ← List.singleton_append, ← List.append_assoc] at h
    simp only [ManagedRoot.effect, hdirectory, Option.bind_some]
    rw [loadFile] at h
    cases hload : (directory.find file).bind (·.load directory.files) with
    | none =>
      rw [hload] at h
      exact h
    | some loaded =>
      rw [hload] at h
      exact h

theorem find_file {directory : ArbitrationTree} (hnames : (directory.files.map (·.name)).Nodup)
    {file : ArbitrationFile} (hfile : file ∈ directory.files) :
    loadFile directory file.name = file.entry directory.files := by
  have hfind : directory.find file.name = some file :=
    (find_eq_some_iff hnames).mpr ⟨hfile, rfl⟩
  rw [loadFile, hfind]
  rfl

theorem sortedListing_perm {directory : ArbitrationTree}
    (hnames : (directory.files.map (·.name)).Nodup) :
    (sortedListing directory).Perm (listing directory.files) := by
  have hsort := (List.perm_insertionSort (· ≤ ·) (directory.files.map (·.name))).map
    (loadFile directory)
  refine hsort.trans (List.Perm.of_eq ?_)
  rw [List.map_map, listing]
  exact List.map_congr_left fun file hfile => find_file hnames hfile

variable {N : Type} [JsonNumber N] {localeCompare : JsString → JsString → Ordering}

variable (N localeCompare) in
/-- The arbitration directory under a name has a chain. -/
def HasChain (s : ManagedRoot) (name : JsString) (chain : ArbitrationChain) : Prop :=
  ∃ directory, s.directory name = some directory ∧ directory.mode % 0o10000 = 0o700 ∧
    directory.files.length ≤ maxArbitrationEntries ∧
    inspectArbitrationDirectory N localeCompare (sortedListing directory) = some (.ok chain)

/-- The inspection ends with the chain of the directory, if there is one. -/
theorem scan_ends {Q : Except ScavengeError ArbitrationChain → ManagedRoot → Prop}
    (hok : ∀ chain, HasChain N localeCompare s name chain → Q (.ok chain) s)
    (herror : (∀ chain, ¬HasChain N localeCompare s name chain) → ∀ error, Q (.error error) s) :
    Scavenges (scanArbitrationDirectory N localeCompare name) Q s := by
  refine Program.Ends.bind (Program.Ends.attempt (perform_ends fun choice => ?_))
  simp only [ManagedRoot.effect]
  cases hdirectory : s.directory name with
  | none =>
    refine herror ?_ _
    rintro chain ⟨directory, hsome, -⟩
    exact absurd (hdirectory.symm.trans hsome) nofun
  | some directory =>
    have hunique : ∀ {directory'}, s.directory name = some directory' → directory' = directory :=
      fun h => Option.some.inj (h.symm.trans hdirectory)
    show Scavenges (if directory.mode % 0o10000 ≠ 0o700 then _ else _) Q s
    split
    · rename_i hmode
      refine herror ?_ _
      rintro chain ⟨directory', hsome, hmode', -⟩
      exact hmode (hunique hsome ▸ hmode')
    · rename_i hmode
      refine Program.Ends.bind (perform_ends fun choice => ?_)
      simp only [ManagedRoot.effect, hdirectory, Option.map_some, ManagedRoot.reply]
      split
      · rename_i hlength
        rw [List.length_map] at hlength
        refine herror ?_ _
        rintro chain ⟨directory', hsome, -, hlength', -⟩
        exact absurd hlength (Nat.not_lt.mpr (hunique hsome ▸ hlength'))
      · rename_i hlength
        rw [List.length_map] at hlength
        refine Program.Ends.bind (loadEntries_ends hdirectory _ _ ?_)
        show Scavenges (inspectLoaded N localeCompare (sortedListing directory)) Q s
        have hnone : (∀ chain, inspectArbitrationDirectory N localeCompare
            (sortedListing directory) ≠ some (.ok chain)) →
              ∀ chain, ¬HasChain N localeCompare s name chain := by
          rintro hne chain ⟨directory', hsome, -, -, hinspect⟩
          exact hne chain (hunique hsome ▸ hinspect)
        rw [inspectLoaded]
        split
        · rename_i chain hinspect
          exact hok chain ⟨directory, hdirectory, not_not.mp hmode, Nat.not_lt.mp hlength, hinspect⟩
        · rename_i error hinspect
          refine herror (hnone fun chain heq => ?_) _
          exact absurd (Option.some.inj (hinspect.symm.trans heq)) nofun
        · rename_i hinspect
          exact herror (hnone fun chain heq => absurd (hinspect.symm.trans heq) nofun) _

-- ============================================================================
-- The removal
-- ============================================================================

/-- `rm` goes on until the tree is gone. -/
theorem removeRest_ends {Q : Except ScavengeError Unit → ManagedRoot → Prop} {paths : Nat}
    (hpaths : 0 < paths) (hsize : ∀ tree, s.find name = some tree → tree.size ≤ paths)
    (h : ∀ s', ManagedRoot.Frame name s s' → s'.find name = none → Q (.ok ()) s') :
    Scavenges (removeRest name paths) Q s := by
  induction paths generalizing s with
  | zero => omega
  | succ paths ih =>
    refine Program.Ends.bind (perform_ends fun choice => ?_)
    have hframe := s.removeNext_frame name choice
    simp only [ManagedRoot.effect]
    cases hfind : (s.removeNext name choice).find name with
    | none => exact h _ hframe hfind
    | some tree' =>
      -- the tree has been there, and has become smaller
      have hsmaller : tree'.size ≤ paths ∧ 0 < tree'.size := by
        refine ⟨?_, by rw [RunTree.size]; omega⟩
        rcases s.removeNext_cases name choice with ⟨hnone, heq⟩ | ⟨tree, target, hsome, hmem, heq⟩
        · rw [heq, hnone] at hfind
          exact absurd hfind nofun
        · have hname : ∀ left, tree.unlink target = some left → left.name = name := fun left hleft =>
            (RunTree.unlink_residual hleft).name.trans (ManagedRoot.name_of_find hsome)
          rw [heq, ManagedRoot.find_set_self hname, hsome, Option.bind_some] at hfind
          have hlt := RunTree.size_unlink hmem hfind
          have hle := hsize tree hsome
          omega
      refine ih (by omega) (fun tree htree => ?_) fun s' hframe' => h s' (hframe.trans hframe')
      rw [hfind] at htree
      exact Option.some.inj htree ▸ hsmaller.1

theorem removeReconciled_ends {Q : Except ScavengeError Unit → ManagedRoot → Prop}
    (hfind : s.find name = some tree)
    (h : ∀ s', ManagedRoot.Frame name s s' → s'.find name = none → Q (.ok ()) s') :
    Scavenges (removeReconciled name) Q s := by
  refine Program.Ends.bind (Program.Ends.attempt (Program.Ends.bind (perform_ends fun choice => ?_)))
  simp only [ManagedRoot.effect, hfind, Option.map_some, ManagedRoot.reply]
  refine removeRest_ends (by rw [RunTree.size]; omega) (fun tree' htree' => ?_) h
  rw [hfind] at htree'
  exact Option.some.inj htree' ▸ Nat.le_refl _

theorem confirmRemoved_ends {Q : Except ScavengeError Unit → ManagedRoot → Prop}
    {tip : GenerationRecord} (hfind : s.find name = none) (hmode : s.mode = 0o700)
    (hdev : s.dev = tip.rootDev) (hino : s.ino = tip.rootIno) (h : Q (.ok ()) s) :
    Scavenges (confirmRemoved name tip) Q s := by
  refine Program.Ends.bind (statAttempt_ends ?_)
  rw [hfind]
  refine syncPrivateDirectory_ends hmode (fun identity heq => ?_) h
  obtain rfl := Option.some.inj heq
  exact ⟨hdev, hino⟩

end RunQuarantine

-- ============================================================================
-- Quarantines
-- ============================================================================

variable (N : Type) [JsonNumber N] (localeCompare : JsString → JsString → Ordering)

open RunQuarantine

/-- A quarantine of a root: its name, its inode and the tip of its chain agree. -/
structure RunTree.QuarantinedAs (root : ManagedRoot) (tree : RunTree) (parts : QuarantineName)
    (whole : ArbitrationTree) (chain : ArbitrationChain) (tip : GenerationRecord) : Prop where
  matched : quarantineMatch tree.name = some parts
  arbitration : tree.arbitration = some whole
  mode : whole.mode % 0o10000 = 0o700
  inspected : inspectArbitrationDirectory N localeCompare (listing whole.files) = some (.ok chain)
  last : chain.tip = some tip
  agree : agrees parts ⟨tree.dev, tree.ino, tree.isDirectory⟩ chain tip = true
  rootDev : root.dev = tip.rootDev
  rootIno : root.ino = tip.rootIno

/-- A root with quarantines that nothing has been removed of. -/
structure ManagedRoot.Quarantined (root : ManagedRoot) : Prop where
  names : (root.entries.map (·.name)).Nodup
  quarantines : ∀ tree ∈ root.entries, isRunQuarantineName tree.name = true →
    ∃ parts whole chain tip, tree.QuarantinedAs N localeCompare root parts whole chain tip

/-- Enough of the arbitration directory of a tree is left. -/
def RunTree.Intact (tree original : RunTree) : Prop :=
  ∃ directory whole, tree.arbitration = some directory ∧ original.arbitration = some whole ∧
    Runtime.Intact whole.files directory.files

/-- What is under a name, if anything, can be inspected. -/
def ManagedRoot.Clear (root s : ManagedRoot) (name : JsString) : Prop :=
  ∀ tree original, s.find name = some tree → root.find name = some original → tree.Intact original

variable {N localeCompare}
variable {root s : ManagedRoot} {name : JsString} {tree original : RunTree}
  {parts : QuarantineName} {whole : ArbitrationTree} {chain : ArbitrationChain}
  {tip : GenerationRecord}

theorem names_of_chain {files : List ArbitrationFile}
    (h : inspectArbitrationDirectory N localeCompare (listing files) = some (.ok chain)) :
    (files.map (·.name)).Nodup ∧ files.length ≤ maxArbitrationEntries := by
  obtain ⟨slots, orphans, generations, hinspected, -⟩ := inspectArbitrationDirectory_eq_ok.mp h
  have hnames := hinspected.names
  have hlength := hinspected.length
  rw [listing_names] at hnames
  rw [listing, List.length_map] at hlength
  exact ⟨hnames, hlength⟩

theorem agrees_token {stat : RunStat} (h : agrees parts stat chain tip = true) :
    tip.token = parts.token ∧ chain.release? tip.token = none := by
  simp only [agrees, Bool.and_eq_true, decide_eq_true_eq, Option.isNone_iff_eq_none] at h
  exact ⟨h.1.1.1.1.1, h.1.1.2⟩

/-- With the same tip and no release of it the names agree as before. -/
theorem agrees_of_chain {stat : RunStat} {chain' : ArbitrationChain}
    (h : agrees parts stat chain tip = true) (hrelease : chain'.release? tip.token = none) :
    agrees parts stat chain' tip = true := by
  rw [agrees, (agrees_token h).2] at h
  rw [agrees, hrelease]
  exact h

theorem hasChain_unique {chain' : ArbitrationChain} (h : HasChain N localeCompare s name chain)
    (h' : HasChain N localeCompare s name chain') : chain = chain' := by
  obtain ⟨directory, hdirectory, -, -, hchain⟩ := h
  obtain ⟨directory', hdirectory', -, -, hchain'⟩ := h'
  obtain rfl := Option.some.inj (hdirectory.symm.trans hdirectory')
  exact Except.ok.inj (Option.some.inj (hchain.symm.trans hchain'))

theorem directory_of_find (hfind : s.find name = some tree) :
    s.directory name = tree.arbitration := by
  rw [ManagedRoot.directory, hfind]
  rfl

/-- The scavenger accepts what is left of a quarantine when enough is left. -/
theorem chain_of_intact (h : original.QuarantinedAs N localeCompare root parts whole chain tip)
    (hfind : s.find name = some tree) (hresidual : tree.Residual original)
    (hintact : tree.Intact original) :
    ∃ chain', HasChain N localeCompare s name chain' ∧ chain'.tip.filter
      (agrees parts ⟨tree.dev, tree.ino, tree.isDirectory⟩ chain') = some tip := by
  have hagrees := h.agree
  rw [← hresidual.dev, ← hresidual.ino, ← hresidual.isDirectory] at hagrees
  have hnames := names_of_chain h.inspected
  obtain ⟨directory, whole', harbitration, hwhole', hfiles⟩ := hintact
  obtain rfl := Option.some.inj (hwhole'.symm.trans h.arbitration)
  obtain ⟨whole'', hwhole'', hmode, hsub⟩ := hresidual.arbitration directory harbitration
  obtain rfl := Option.some.inj (hwhole''.symm.trans h.arbitration)
  obtain ⟨chain', hchain', htip', hrelease⟩ := inspect_of_intact h.inspected hsub hfiles
    (views_listing (sortedListing_perm (hnames.1.sublist (hsub.map _))))
  refine ⟨chain', ⟨directory, (directory_of_find hfind).trans harbitration, hmode ▸ h.mode,
    hsub.length_le.trans hnames.2, hchain'⟩, ?_⟩
  rw [htip', h.last, Option.filter_some,
    if_pos (agrees_of_chain hagrees (hrelease _ (agrees_token h.agree).2))]

/-- It accepts nothing else. -/
theorem intact_of_chain (h : original.QuarantinedAs N localeCompare root parts whole chain tip)
    (hfind : s.find name = some tree) (hresidual : tree.Residual original)
    {chain' : ArbitrationChain} {tip' : GenerationRecord} {stat : RunStat}
    (hchain : HasChain N localeCompare s name chain')
    (htip : chain'.tip.filter (agrees parts stat chain') = some tip') : tree.Intact original := by
  obtain ⟨directory, hsome, -, -, hinspected⟩ := hchain
  have harbitration := (directory_of_find hfind).symm.trans hsome
  obtain ⟨whole', hwhole', -, hsub⟩ := hresidual.arbitration directory harbitration
  obtain rfl := Option.some.inj (hwhole'.symm.trans h.arbitration)
  obtain ⟨hlast, hagrees⟩ := Option.filter_eq_some_iff.mp htip
  exact ⟨directory, whole', harbitration, hwhole', intact_of_inspect h.inspected hsub
    (sortedListing_perm ((names_of_chain h.inspected).1.sublist (hsub.map _))) hinspected h.last
    hlast ((agrees_token hagrees).1.trans (agrees_token h.agree).1.symm)⟩

/-- A pass over one quarantine: it goes when enough of it is left, or nothing. -/
theorem scavengeRunQuarantine_ends (hroot : root.Quarantined N localeCompare)
    (hresidual : s.Residual root) (hmode : s.mode = 0o700)
    (hname : isRunQuarantineName name = true) {Q : Except ScavengeError Unit → ManagedRoot → Prop}
    (hok : ∀ s', ManagedRoot.Frame name s s' → s'.find name = none → root.Clear s name →
      Q (.ok ()) s')
    (herror : ∀ error, ¬root.Clear s name → Q (.error error) s) :
    Scavenges (scavengeRunQuarantine N localeCompare name) Q s := by
  unfold scavengeRunQuarantine
  obtain ⟨parts, hparts⟩ := Option.isSome_iff_exists.mp hname
  rw [hparts]
  refine Program.Ends.bind (statAttempt_ends ?_)
  cases hfind : s.find name with
  | none =>
    refine syncPrivateDirectory_ends hmode (by simp)
      (hok s (.refl name s) hfind fun tree _ hsome => ?_)
    exact absurd (hfind.symm.trans hsome) (by simp)
  | some tree =>
    obtain ⟨original, horiginal, htree⟩ := hresidual.find name tree hfind
    have horiginalName := ManagedRoot.name_of_find horiginal
    obtain ⟨parts', whole, chain, tip, hquarantined⟩ := hroot.quarantines original
      (ManagedRoot.mem_of_find horiginal) (horiginalName ▸ hname)
    have hsame := hquarantined.matched
    rw [horiginalName, hparts] at hsame
    obtain rfl := Option.some.inj hsame
    have hclear : root.Clear s name ↔ tree.Intact original := by
      constructor
      · exact fun hclear => hclear tree original hfind horiginal
      · intro hintact tree' original' htree' horiginal'
        obtain rfl := Option.some.inj (htree'.symm.trans hfind)
        obtain rfl := Option.some.inj (horiginal'.symm.trans horiginal)
        exact hintact
    have hchains := chain_of_intact hquarantined hfind htree
    refine Program.Ends.bind (scan_ends (fun chain' hchain' => ?_) fun hnone error => ?_)
    · have htips : ∀ {tip'}, tree.Intact original → chain'.tip.filter
          (agrees parts ⟨tree.dev, tree.ino, tree.isDirectory⟩ chain') = tip' → tip' = some tip := by
        intro tip' hintact htip'
        obtain ⟨chain'', hchain'', htip⟩ := hchains hintact
        rw [← htip', hasChain_unique hchain' hchain'', htip]
      dsimp only
      split
      · rename_i htip'
        exact herror _ fun hclear' => absurd (htips (hclear.mp hclear') htip') (by simp)
      · rename_i tip' htip'
        have hintact := intact_of_chain hquarantined hfind htree hchain' htip'
        obtain rfl := Option.some.inj (htips hintact htip')
        refine Program.Ends.bind (removeReconciled_ends hfind fun s' hframe hgone => ?_)
        exact confirmRemoved_ends hgone (hframe.mode.trans hmode)
          (hframe.residual.dev.trans (hresidual.dev.trans hquarantined.rootDev))
          (hframe.residual.ino.trans (hresidual.ino.trans hquarantined.rootIno))
          (hok s' hframe hgone (hclear.mpr hintact))
    · refine herror error fun hclear' => ?_
      obtain ⟨chain', hchain', -⟩ := hchains (hclear.mp hclear')
      exact hnone chain' hchain'

theorem clear_congr {s' : ManagedRoot} (h : s'.find name = s.find name) :
    root.Clear s' name ↔ root.Clear s name := by
  rw [ManagedRoot.Clear, ManagedRoot.Clear, h]

/-- The loop removes the quarantines that it comes to, up to the first that it cannot inspect. -/
theorem scavengeEntries_ends (hroot : root.Quarantined N localeCompare) {maxScanEntries : Nat}
    (hresidual : s.Residual root) (hmode : s.mode = 0o700) {names : List JsString}
    (hnames : names.Nodup) {examined : Nat} (hexamined : examined ≤ maxScanEntries)
    {Q : Except ScavengeError Unit → ManagedRoot → Prop}
    (hok : ∀ s', s'.Residual s →
      (∀ name ∈ names, isRunQuarantineName name = true → s'.find name = none) →
      examined + names.length ≤ maxScanEntries →
      (∀ name ∈ names, isRunQuarantineName name = true → root.Clear s name) → Q (.ok ()) s')
    (herror : ∀ error s', ¬(examined + names.length ≤ maxScanEntries ∧
      ∀ name ∈ names, isRunQuarantineName name = true → root.Clear s name) → Q (.error error) s') :
    Scavenges (scavengeEntries N localeCompare maxScanEntries names examined) Q s := by
  induction names generalizing s examined with
  | nil => exact hok s (.refl s) nofun hexamined nofun
  | cons name names ih =>
    obtain ⟨hfresh, hnames⟩ := List.nodup_cons.mp hnames
    rw [scavengeEntries]
    split
    · rename_i hlimit
      refine herror _ s fun h => ?_
      rw [List.length_cons] at h
      omega
    · rename_i hlimit
      split
      · rename_i hname
        refine Program.Ends.bind (Program.Ends.attempt
          (scavengeRunQuarantine_ends hroot hresidual hmode hname (fun s' hframe hgone hclear => ?_)
            fun error hclear => ?_))
        · -- what the rest of the loop comes to is as it was
          have hrest : ∀ other ∈ names, (root.Clear s' other ↔ root.Clear s other) :=
            fun other hother => clear_congr (hframe.other other fun heq => hfresh (heq ▸ hother))
          refine ih (hframe.residual.trans hresidual) (hframe.mode.trans hmode) hnames (by omega)
            (fun s'' hs'' hall hlength hclears => ?_) fun error s'' hbad => ?_
          · refine hok s'' (hs''.trans hframe.residual) ?_ (by rw [List.length_cons]; omega) ?_
            · intro other hother hisName
              rcases List.mem_cons.mp hother with rfl | hother
              · -- nothing comes back under a name
                cases hfind : s''.find other with
                | none => rfl
                | some tree =>
                  obtain ⟨original, horiginal, -⟩ := hs''.find other tree hfind
                  exact absurd (hgone.symm.trans horiginal) nofun
              · exact hall other hother hisName
            · intro other hother hisName
              rcases List.mem_cons.mp hother with rfl | hother
              · exact hclear
              · exact (hrest other hother).mp (hclears other hother hisName)
          · refine herror error s'' fun h => hbad ⟨?_, fun other hother hisName => ?_⟩
            · have := h.1
              rw [List.length_cons] at this
              omega
            · exact (hrest other hother).mpr (h.2 other (List.mem_cons_of_mem _ hother) hisName)
        · exact herror _ s fun h => hclear (h.2 name List.mem_cons_self hname)
      · rename_i hname
        refine ih hresidual hmode hnames (by omega) (fun s' hs' hall hlength hclears => ?_)
          fun error s' hbad => ?_
        · refine hok s' hs' ?_ (by rw [List.length_cons]; omega) ?_
          · intro other hother hisName
            rcases List.mem_cons.mp hother with rfl | hother
            · exact absurd hisName hname
            · exact hall other hother hisName
          · intro other hother hisName
            rcases List.mem_cons.mp hother with rfl | hother
            · exact absurd hisName hname
            · exact hclears other hother hisName
        · refine herror error s' fun h => hbad ⟨?_, fun other hother hisName => ?_⟩
          · have := h.1
            rw [List.length_cons] at this
            omega
          · exact h.2 other (List.mem_cons_of_mem _ hother) hisName

/-- Every quarantine of a root can be inspected, and the root can be scanned. -/
def ManagedRoot.Scannable (root s : ManagedRoot) (maxScanEntries : Nat) : Prop :=
  s.entries.length ≤ maxScanEntries ∧
    ∀ tree ∈ s.entries, isRunQuarantineName tree.name = true → root.Clear s tree.name

/-- No quarantine is left. -/
def ManagedRoot.Scavenged (s : ManagedRoot) : Prop :=
  ∀ tree ∈ s.entries, isRunQuarantineName tree.name = false

/-- A pass without failures removes everything exactly when everything can be inspected. -/
theorem scavengeQuarantines_ends (hroot : root.Quarantined N localeCompare)
    (hresidual : s.Residual root) (maxScanEntries : Nat) :
    Scavenges (scavengeQuarantines N localeCompare maxScanEntries)
      (fun r s' => (r = .ok () ∧ s'.Scavenged) ↔ root.Scannable s maxScanEntries) s := by
  let s₁ : ManagedRoot := { s with mode := 0o700 }
  have hresidual₁ : s₁.Residual root :=
    { hresidual with mode := fun _ => rfl }
  have hlength : (s₁.entries.map (·.name)).length = s.entries.length := List.length_map _
  have hclear : (∀ name ∈ s₁.entries.map (·.name), isRunQuarantineName name = true →
      root.Clear s₁ name) ↔
        ∀ tree ∈ s.entries, isRunQuarantineName tree.name = true → root.Clear s tree.name := by
    rw [List.forall_mem_map]
    exact Iff.rfl
  refine Program.Ends.bind (perform_ends fun choice => ?_)
  refine Program.Ends.bind (perform_ends fun choice' => ?_)
  refine scavengeEntries_ends (s := s₁) hroot hresidual₁ rfl (hroot.names.sublist hresidual₁.names)
    (Nat.zero_le _) (fun s' hs' hall hle hclears => ?_) fun error s' hbad => ?_
  · refine ⟨fun _ => ⟨by omega, hclear.mp hclears⟩, fun _ => ⟨rfl, fun tree htree => ?_⟩⟩
    rw [← Bool.not_eq_true]
    intro hname
    have hmem := hs'.names.subset (List.mem_map_of_mem htree)
    have hnone := find_eq_none_iff.mp (hall tree.name hmem hname)
    exact hnone tree htree rfl
  · refine ⟨fun h => absurd h.1 nofun, fun h => absurd ⟨?_, hclear.mpr h.2⟩ hbad⟩
    rw [hlength, Nat.zero_add]
    exact h.1

end PiRlm.Runtime

/-
  PiRlm.Runtime.RunWriterQuarantineRuns

  Passes of any number of processes over one root, in any interleaving, and with passes
  that stop anywhere.

  Whatever the runs are, they leave a part of the root, and the next pass alone removes the
  rest exactly when what is left of each quarantine can be inspected.  Passes next to each
  other end well as long as none removes what another is inspecting.
-/
import Mathlib
import PiRlm.Runtime.RunWriterQuarantineSound

namespace PiRlm.Runtime

open PiRlm.Lib PiRlm.Core PiRlm.Shell

-- ============================================================================
-- What passes rely on
-- ============================================================================

/-- The files of a quarantine that count are still there. -/
def KeepsEvidence (name : JsString) (s s' : ManagedRoot) : Prop :=
  ∀ directory, s.directory name = some directory → ∃ directory', s'.directory name = some directory' ∧
    ∀ file ∈ directory.files, file.isEvidence directory.files = true → file ∈ directory'.files

/-- The quarantine that an operation reads of while it is inspected. -/
def QuarantineOp.inspects : QuarantineOp → Option JsString
  | .statDirectory name => some name
  | .list name => some name
  | .load name _ => some name
  | _ => none

/-- A pass looks at what is under a name when that can be inspected or is gone. -/
def Looks (root : ManagedRoot) (o : QuarantineOp) (s : ManagedRoot) : Prop :=
  match o with
  | .lstat name => isRunQuarantineName name = true → root.Clear s name
  | _ => True

theorem KeepsEvidence.refl (name : JsString) (s : ManagedRoot) : KeepsEvidence name s s :=
  fun directory h => ⟨directory, h, fun _ hfile _ => hfile⟩

/-- The evidence that is kept is evidence of what is left. -/
theorem isEvidence_of_kept {files left : List ArbitrationFile} {file : ArbitrationFile}
    (hkept : ∀ file ∈ files, file.isEvidence files = true → file ∈ left)
    (hevidence : file.isEvidence files = true) : file.isEvidence left = true := by
  obtain ⟨slot, hmem, hslot, hsame⟩ := ArbitrationFile.isEvidence_iff.mp hevidence
  exact ArbitrationFile.isEvidence_iff.mpr
    ⟨slot, hkept slot hmem (ArbitrationFile.isEvidence_slot hmem hslot), hslot, hsame⟩

/-- What is left keeps enough when it keeps what counts. -/
theorem Intact.keep {original files left : List ArbitrationFile} (h : Intact original files)
    (hsub : left.Sublist files)
    (hkept : ∀ file ∈ files, file.isEvidence files = true → file ∈ left) :
    Intact original left where
  generations slot hslot hgeneration file hfile hsame := by
    have hslotLeft := h.generations slot hslot hgeneration slot hslot slot.sameInode_self
    exact hkept file (h.generations slot hslot hgeneration file hfile hsame)
      (ArbitrationFile.isEvidence_iff.mpr ⟨slot, hslotLeft,
        ArbitrationFile.isSlot_of_generation hgeneration, hsame⟩)
  intents slot hslot hname file hfile hsame :=
    hkept file (h.intents slot (hsub.subset hslot) hname file hfile hsame)
      (ArbitrationFile.isEvidence_iff.mpr ⟨slot, hsub.subset hslot, hname, hsame⟩)
  budget := by
    refine Nat.le_trans ?_ h.budget
    rw [← List.countP_eq_length_filter, ← List.countP_eq_length_filter]
    calc left.countP (fun file => !file.isEvidence left)
        ≤ left.countP fun file => !file.isEvidence files := by
          refine List.countP_mono_left fun file _ hfree => ?_
          rw [Bool.not_eq_true'] at hfree ⊢
          rw [← Bool.not_eq_true] at hfree ⊢
          exact fun hevidence => hfree (isEvidence_of_kept hkept hevidence)
      _ ≤ files.countP fun file => !file.isEvidence files := hsub.countP_le

theorem KeepsEvidence.trans {name : JsString} {s s' s'' : ManagedRoot} (h : KeepsEvidence name s s')
    (h' : KeepsEvidence name s' s'') : KeepsEvidence name s s'' := by
  intro directory hdirectory
  obtain ⟨directory', hdirectory', hkept⟩ := h directory hdirectory
  obtain ⟨directory'', hdirectory'', hkept'⟩ := h' directory' hdirectory'
  exact ⟨directory'', hdirectory'', fun file hfile hevidence =>
    hkept' file (hkept file hfile hevidence) (isEvidence_of_kept hkept hevidence)⟩

/-- What a pass over a root promises the others, and relies on. -/
def quarantineContract (root : ManagedRoot) : Contract Unit QuarantineOp ManagedRoot where
  inv s := s.Residual root
  rely _ o s s' := s'.Residual s ∧ ∀ name, o.inspects = some name → KeepsEvidence name s s'
  ready _ o s := Looks root o s
  guarantee _ s s' := s'.Residual s
  rely_refl _ _ s := ⟨.refl s, fun name _ => .refl name s⟩
  rely_trans _ _ _ _ _ h h' :=
    ⟨h'.1.trans h.1, fun name hname => (h.2 name hname).trans (h'.2 name hname)⟩
  keeps _ _ _ h h' := h'.trans h

/-- A program next to others ends in the postcondition, unless an operation of its own fails. -/
abbrev Passes {α : Type} (root : ManagedRoot) (program : RunQuarantine.Io α)
    (Q : Except ScavengeError α → ManagedRoot → Prop) (s : ManagedRoot) : Prop :=
  Wp quarantineDevice (quarantineContract root) () program true
    (fun clean r s => clean = true → Q r s) s

namespace RunQuarantine

variable {root s : ManagedRoot} {name : JsString} {tree : RunTree}

/-- After a failure nothing is promised. -/
theorem wp_failed {α : Type} (program : Io α) {Q : Bool → Except ScavengeError α → ManagedRoot → Prop} :
    Wp quarantineDevice (quarantineContract root) () program false
      (fun clean r s => clean = true → Q clean r s) s := by
  induction program generalizing s with
  | done a => exact fun _ => nofun
  | raise e => exact fun _ => nofun
  | call o next ih =>
    intro s' _ _ _ l
    exact ⟨s'.perform_residual o l, ih _⟩

theorem Passes.bind {α β : Type} {program : Io α} {f : α → Io β}
    {Q : Except ScavengeError β → ManagedRoot → Prop} (hinv : s.Residual root)
    (h : Passes root program (fun r s => s.Residual root → match r with
      | .ok a => Passes root (f a) Q s
      | .error e => Q (.error e) s) s) : Passes root (program >>= f) Q s := by
  refine Wp.bind hinv (h.mono fun clean r s hinv hnext => ?_)
  cases clean with
  | true =>
    replace hnext := hnext rfl hinv
    cases r with
    | ok a => exact hnext
    | error e => exact fun _ => hnext
  | false =>
    cases r with
    | ok a => exact wp_failed (f a)
    | error e => exact nofun

theorem Passes.attempt {α : Type} {program : Io α}
    {Q : Except ScavengeError (Except ScavengeError α) → ManagedRoot → Prop}
    (h : Passes root program (fun r s => Q (.ok r) s) s) : Passes root program.attempt Q s :=
  Wp.attempt h

/-- An operation, after what the others have done. -/
theorem perform_passes {o : QuarantineOp} {Q : Except ScavengeError o.Reply → ManagedRoot → Prop}
    (h : ∀ s', s'.Residual s → (∀ name, o.inspects = some name → KeepsEvidence name s s') →
      Looks root o s' → ∀ choice, Q (s'.effect choice o).2 (s'.effect choice o).1) :
    Passes root (perform o) Q s := by
  refine Wp.perform fun s' l hrely hinv hready => ⟨s'.perform_residual o l, fun _ => ?_⟩
  cases l with
  | done choice => exact fun _ => h s' hrely.1 hrely.2 hready choice
  | failsBefore => exact nofun
  | failsAfter choice => exact nofun

theorem statAttempt_passes (hinv : s.Residual root)
    {Q : Except ScavengeError (Option RunStat) → ManagedRoot → Prop}
    (h : ∀ s', s'.Residual s → (isRunQuarantineName name = true → root.Clear s' name) →
      Q (.ok ((s'.find name).map fun tree => ⟨tree.dev, tree.ino, tree.isDirectory⟩)) s') :
    Passes root (statAttempt name) Q s := by
  refine Passes.bind hinv (Passes.attempt (perform_passes fun s' hs' _ hlooks choice _ => ?_))
  have hQ := h s' hs' hlooks
  simp only [ManagedRoot.effect]
  cases hfind : s'.find name with
  | none =>
    rw [hfind] at hQ
    exact fun _ _ => hQ
  | some tree =>
    rw [hfind] at hQ
    exact fun _ _ => hQ

theorem syncPrivateDirectory_passes (hinv : s.Residual root) (hmode : s.mode = 0o700)
    {expected : Option (Nat × Nat)} {Q : Except ScavengeError Unit → ManagedRoot → Prop}
    (hidentity : ∀ identity, expected = some identity → s.dev = identity.1 ∧ s.ino = identity.2)
    (h : ∀ s', s'.Residual s → Q (.ok ()) s') :
    Passes root (syncPrivateDirectory expected) Q s := by
  refine Passes.bind hinv (perform_passes fun s₁ h₁ _ _ choice hinv₁ => ?_)
  have hvalid {s' : ManagedRoot} (hs' : s'.Residual s) :
      valid ⟨s'.dev, s'.ino, s'.mode⟩ (some (expected.getD (s₁.dev, s₁.ino))) = true := by
    have hdev : s'.dev = s₁.dev := hs'.dev.trans h₁.dev.symm
    have hino : s'.ino = s₁.ino := hs'.ino.trans h₁.ino.symm
    cases expected with
    | none => exact valid_self (hs'.mode hmode) hdev hino
    | some identity =>
      obtain ⟨hdev', hino'⟩ := hidentity identity rfl
      exact valid_self (hs'.mode hmode) (hs'.dev.trans hdev') (hs'.ino.trans hino')
  show Passes root (if !valid ⟨s₁.dev, s₁.ino, s₁.mode⟩ _ then _ else _) Q s₁
  rw [hvalid h₁]
  refine Passes.bind hinv₁ (perform_passes fun s₂ h₂ _ _ choice hinv₂ => ?_)
  refine Passes.bind hinv₂ (perform_passes fun s₃ h₃ _ _ choice hinv₃ => ?_)
  show Passes root (if !valid ⟨s₃.dev, s₃.ino, s₃.mode⟩ _ then _ else _) Q s₃
  have hall := h₃.trans (h₂.trans h₁)
  rw [hvalid hall]
  exact fun _ _ => h s₃ hall

-- ============================================================================
-- The inspection next to other passes
-- ============================================================================

/-- A directory with files among these, and all of them that count. -/
def Keeps (files : List ArbitrationFile) (s : ManagedRoot) (name : JsString) : Prop :=
  ∃ directory, s.directory name = some directory ∧ directory.files.Sublist files ∧
    ∀ file ∈ files, file.isEvidence files = true → file ∈ directory.files

theorem directory_residual {s' : ManagedRoot} {directory' : ArbitrationTree} (h : s'.Residual s)
    (hdirectory' : s'.directory name = some directory') :
    ∃ directory, s.directory name = some directory ∧ directory'.mode = directory.mode ∧
      directory'.files.Sublist directory.files := by
  obtain ⟨tree', hfind', harbitration'⟩ := Option.bind_eq_some_iff.mp hdirectory'
  obtain ⟨tree, hfind, hresidual⟩ := h.find name tree' hfind'
  obtain ⟨directory, harbitration, hmode, hsub⟩ := hresidual.arbitration directory' harbitration'
  exact ⟨directory, (directory_of_find hfind).trans harbitration, hmode, hsub⟩

theorem Keeps.step {files : List ArbitrationFile} {s' : ManagedRoot} (h : Keeps files s name)
    (hresidual : s'.Residual s) (hkeeps : KeepsEvidence name s s') : Keeps files s' name := by
  obtain ⟨directory, hdirectory, hsub, hkept⟩ := h
  obtain ⟨directory', hdirectory', hkept'⟩ := hkeeps directory hdirectory
  obtain ⟨directory'', hdirectory'', -, hsub'⟩ := directory_residual hresidual hdirectory'
  obtain rfl := Option.some.inj (hdirectory''.symm.trans hdirectory)
  exact ⟨directory', hdirectory', hsub'.trans hsub, fun file hfile hevidence =>
    hkept' file (hkept file hfile hevidence) (isEvidence_of_kept hkept hevidence)⟩

/-- A file that counts is loaded as it was, as long as those that count are there. -/
theorem loadFile_of_kept {files : List ArbitrationFile} {directory : ArbitrationTree}
    (hnames : (files.map (·.name)).Nodup) (hsub : directory.files.Sublist files)
    (hkept : ∀ file ∈ files, file.isEvidence files = true → file ∈ directory.files)
    {file : ArbitrationFile} (hfile : file ∈ files) (hevidence : file.isEvidence files = true) :
    loadFile directory file.name = file.entry files := by
  rw [find_file (hnames.sublist (hsub.map _)) (hkept file hfile hevidence), ArbitrationFile.entry,
    ArbitrationFile.entry, load_eq_of_links hnames hsub]
  intro other hother hsame
  obtain ⟨slot, hslot, hname, hlink⟩ := ArbitrationFile.isEvidence_iff.mp hevidence
  refine hkept other hother (ArbitrationFile.isEvidence_iff.mpr ⟨slot, hslot, hname, ?_⟩)
  rw [ArbitrationFile.sameInode_eq hlink]
  exact hsame

/-- The loop loads the files that count as they were when it began. -/
theorem loadEntries_passes {files : List ArbitrationFile} (hinv : s.Residual root)
    (hnames : (files.map (·.name)).Nodup) (hkept : Keeps files s name) (rest : List JsString)
    (loaded : List ArbitrationDirectoryEntry)
    {Q : Except ScavengeError (List ArbitrationDirectoryEntry) → ManagedRoot → Prop}
    (h : ∀ entries s', s'.Residual s → entries.map (·.name) = loaded.map (·.name) ++ rest →
      (∀ entry ∈ loaded, entry ∈ entries) →
      (∀ file ∈ files, file.isEvidence files = true → file.name ∈ rest →
        file.entry files ∈ entries) → Q (.ok entries) s') :
    Passes root (loadEntries name rest loaded) Q s := by
  induction rest generalizing s loaded with
  | nil => exact fun _ _ => h loaded s (.refl s) (List.append_nil _).symm (fun _ => id) nofun
  | cons file rest ih =>
    refine Passes.bind hinv
      (Passes.attempt (perform_passes fun s' hs' hkeeps _ choice hinv' => ?_))
    have hkept' := hkept.step hs' (hkeeps name rfl)
    obtain ⟨directory, hdirectory, hsub, hfiles⟩ := hkept'
    have hentry : (⟨file, (s'.effect choice (.load name file)).2.toOption⟩ :
        ArbitrationDirectoryEntry) = loadFile directory file := by
      simp only [ManagedRoot.effect, hdirectory, Option.bind_some, loadFile]
      cases (directory.find file).bind (·.load directory.files) <;> rfl
    show Passes root (loadEntries name rest (loaded ++
      [⟨file, (s'.effect choice (.load name file)).2.toOption⟩])) Q s'
    rw [hentry]
    refine ih hinv' ⟨directory, hdirectory, hsub, hfiles⟩ _ fun entries s'' hs'' hmap hall hrest => ?_
    refine h entries s'' (hs''.trans hs') ?_ (fun entry hmem => ?_) fun other hother hevidence hmem => ?_
    · rw [hmap, List.map_append, List.append_assoc]
      rfl
    · exact hall entry (List.mem_append_left _ hmem)
    · rcases List.mem_cons.mp hmem with rfl | hmem
      · refine hall _ (List.mem_append_right _ (List.mem_singleton.mpr ?_))
        exact (loadFile_of_kept hnames hsub hfiles hother hevidence).symm
      · exact hrest other hother hevidence hmem

variable {N : Type} [JsonNumber N] {localeCompare : JsString → JsString → Ordering}
  {whole directory : ArbitrationTree} {chain : ArbitrationChain}

/-- What an inspection starts from: enough of a directory. -/
structure Enough (whole : ArbitrationTree) (s : ManagedRoot) (name : JsString)
    (directory : ArbitrationTree) : Prop where
  found : s.directory name = some directory
  mode : directory.mode = whole.mode
  sublist : directory.files.Sublist whole.files
  intact : Intact whole.files directory.files

theorem Enough.step {s' : ManagedRoot} (h : Enough whole s name directory)
    (hresidual : s'.Residual s) (hkeeps : KeepsEvidence name s s') :
    ∃ directory', Enough whole s' name directory' := by
  obtain ⟨directory', hdirectory', hkept⟩ := hkeeps directory h.found
  obtain ⟨directory'', hdirectory'', hmode, hsub⟩ := directory_residual hresidual hdirectory'
  obtain rfl := Option.some.inj (hdirectory''.symm.trans h.found)
  exact ⟨directory', hdirectory', hmode.trans h.mode, hsub.trans h.sublist,
    h.intact.keep hsub hkept⟩

/-- The inspection finds the tip of the whole. -/
theorem scan_passes (hinv : s.Residual root)
    (hchain : inspectArbitrationDirectory N localeCompare (listing whole.files) = some (.ok chain))
    (hmode : whole.mode % 0o10000 = 0o700) (henough : Enough whole s name directory)
    {Q : Except ScavengeError ArbitrationChain → ManagedRoot → Prop}
    (h : ∀ chain' s', s'.Residual s → chain'.tip = chain.tip →
      (∀ token, chain.release? token = none → chain'.release? token = none) → Q (.ok chain') s') :
    Passes root (scanArbitrationDirectory N localeCompare name) Q s := by
  have hwhole := names_of_chain hchain
  refine Passes.bind hinv (Passes.attempt (perform_passes fun s₁ h₁ hkeeps₁ _ choice hinv₁ => ?_))
  obtain ⟨directory₁, henough₁⟩ := henough.step h₁ (hkeeps₁ name rfl)
  simp only [ManagedRoot.effect, henough₁.found, Option.map_some, ManagedRoot.reply]
  rw [henough₁.mode, if_neg (not_not.mpr hmode)]
  refine Passes.bind hinv₁ (perform_passes fun s₂ h₂ hkeeps₂ _ choice hinv₂ => ?_)
  obtain ⟨directory₂, henough₂⟩ := henough₁.step h₂ (hkeeps₂ name rfl)
  simp only [ManagedRoot.effect, henough₂.found, Option.map_some, ManagedRoot.reply]
  have hlength := henough₂.sublist.length_le.trans hwhole.2
  rw [if_neg (by rw [List.length_map]; exact Nat.not_lt.mpr hlength)]
  have hnames := hwhole.1.sublist (henough₂.sublist.map _)
  refine Passes.bind hinv₂ (loadEntries_passes (s := s₂) hinv₂ hnames
    ⟨directory₂, henough₂.found, .refl _, fun _ hfile _ => hfile⟩ _ _
    fun entries s₃ h₃ hmap _ hloaded _ => ?_)
  have hperm := List.perm_insertionSort (· ≤ ·) (directory₂.files.map (·.name))
  have hviews : Views directory₂.files entries :=
    { names := hmap ▸ hperm
      evidence := fun file hfile hevidence =>
        hloaded file hfile hevidence (hperm.mem_iff.mpr (List.mem_map_of_mem hfile)) }
  obtain ⟨chain', hchain', htip, hrelease⟩ :=
    inspect_of_intact hchain henough₂.sublist henough₂.intact hviews
  show Passes root (inspectLoaded N localeCompare entries) Q s₃
  rw [inspectLoaded, hchain']
  exact fun _ _ => h chain' s₃ (h₃.trans (h₂.trans h₁)) htip hrelease

-- ============================================================================
-- The removal next to other passes
-- ============================================================================

/-- What is gone stays gone. -/
theorem find_none {s' : ManagedRoot} (h : s'.Residual s) (hfind : s.find name = none) :
    s'.find name = none := by
  cases hfind' : s'.find name with
  | none => rfl
  | some tree =>
    obtain ⟨original, horiginal, -⟩ := h.find name tree hfind'
    exact absurd (hfind.symm.trans horiginal) nofun

/-- One path fewer, or none at all. -/
theorem size_removeNext {paths choice : Nat}
    (hsize : ∀ tree, s.find name = some tree → tree.size ≤ paths + 1) {tree : RunTree}
    (hfind : (s.removeNext name choice).find name = some tree) : tree.size ≤ paths := by
  rcases s.removeNext_cases name choice with ⟨hnone, heq⟩ | ⟨tree', target, hsome, hmem, heq⟩
  · rw [heq, hnone] at hfind
    exact absurd hfind nofun
  · have hname : ∀ left, tree'.unlink target = some left → left.name = name := fun left hleft =>
      (RunTree.unlink_residual hleft).name.trans (ManagedRoot.name_of_find hsome)
    rw [heq, ManagedRoot.find_set_self hname, hsome, Option.bind_some] at hfind
    have hlt := RunTree.size_unlink hmem hfind
    have hle := hsize tree' hsome
    omega

theorem removeRest_passes (hinv : s.Residual root) {paths : Nat} (hpaths : 0 < paths)
    (hsize : ∀ tree, s.find name = some tree → tree.size ≤ paths)
    {Q : Except ScavengeError Unit → ManagedRoot → Prop}
    (h : ∀ s', s'.Residual s → s'.find name = none → Q (.ok ()) s') :
    Passes root (removeRest name paths) Q s := by
  induction paths generalizing s with
  | zero => omega
  | succ paths ih =>
    refine Passes.bind hinv (perform_passes fun s' hs' _ _ choice hinv' => ?_)
    have hresidual := (s'.removeNext_frame name choice).residual
    have hsize' : ∀ tree, s'.find name = some tree → tree.size ≤ paths + 1 := by
      intro tree hfind
      obtain ⟨original, horiginal, htree⟩ := hs'.find name tree hfind
      exact htree.size_le.trans (hsize original horiginal)
    simp only [ManagedRoot.effect] at hinv' ⊢
    cases hfind : (s'.removeNext name choice).find name with
    | none => exact fun _ _ => h _ (hresidual.trans hs') hfind
    | some tree =>
      have hle := size_removeNext hsize' hfind
      refine ih hinv' (by rw [RunTree.size] at hle; omega) (fun tree' htree' => ?_)
        fun s'' hs'' => h s'' (hs''.trans (hresidual.trans hs'))
      rw [hfind] at htree'
      exact Option.some.inj htree' ▸ hle

/-- The tree is gone at the end, whoever has removed it. -/
theorem removeReconciled_passes (hinv : s.Residual root)
    {Q : Except ScavengeError Unit → ManagedRoot → Prop}
    (h : ∀ s', s'.Residual s → s'.find name = none → Q (.ok ()) s') :
    Passes root (removeReconciled name) Q s := by
  refine Passes.bind hinv (Passes.attempt (Passes.bind hinv
    (perform_passes fun s₁ h₁ _ _ choice hinv₁ => ?_)))
  simp only [ManagedRoot.effect]
  cases hfind : s₁.find name with
  | some tree =>
    show Passes root (removeRest name tree.size) _ s₁
    refine removeRest_passes hinv₁ (by rw [RunTree.size]; omega) (fun tree' htree' => ?_)
      fun s' hs' hgone _ _ _ => h s' (hs'.trans h₁) hgone
    obtain rfl := Option.some.inj (hfind.symm.trans htree')
    exact Nat.le_refl _
  | none =>
    -- `rm` finds nothing, and neither does the inspection of what it leaves
    intro _
    refine Passes.bind hinv₁ (Passes.attempt
      (statAttempt_passes hinv₁ fun s₂ h₂ _ _ => ?_))
    have hgone := find_none h₂ hfind
    rw [hgone]
    exact fun _ _ => h s₂ (h₂.trans h₁) hgone

theorem confirmRemoved_passes (hinv : s.Residual root) (hfind : s.find name = none)
    (hmode : s.mode = 0o700) {tip : GenerationRecord} (hdev : s.dev = tip.rootDev)
    (hino : s.ino = tip.rootIno) {Q : Except ScavengeError Unit → ManagedRoot → Prop}
    (h : ∀ s', s'.Residual s → Q (.ok ()) s') : Passes root (confirmRemoved name tip) Q s := by
  refine Passes.bind hinv (statAttempt_passes hinv fun s₁ h₁ _ hinv₁ => ?_)
  rw [find_none h₁ hfind]
  refine syncPrivateDirectory_passes hinv₁ (h₁.mode hmode) (fun identity heq => ?_)
    fun s₂ h₂ => h s₂ (h₂.trans h₁)
  obtain rfl := Option.some.inj heq
  exact ⟨h₁.dev.trans hdev, h₁.ino.trans hino⟩

-- ============================================================================
-- Passes next to each other
-- ============================================================================

/-- A pass over one quarantine ends with the quarantine gone. -/
theorem scavengeRunQuarantine_passes (hroot : root.Quarantined N localeCompare)
    (hinv : s.Residual root) (hmode : s.mode = 0o700) (hname : isRunQuarantineName name = true)
    {Q : Except ScavengeError Unit → ManagedRoot → Prop}
    (h : ∀ s', s'.Residual s → s'.find name = none → Q (.ok ()) s') :
    Passes root (scavengeRunQuarantine N localeCompare name) Q s := by
  unfold scavengeRunQuarantine
  obtain ⟨parts, hparts⟩ := Option.isSome_iff_exists.mp hname
  rw [hparts]
  refine Passes.bind hinv (statAttempt_passes hinv fun s₁ h₁ hclear hinv₁ => ?_)
  have hmode₁ := h₁.mode hmode
  cases hfind : s₁.find name with
  | none =>
    refine syncPrivateDirectory_passes hinv₁ hmode₁ (by simp) fun s₂ h₂ => ?_
    exact h s₂ (h₂.trans h₁) (find_none h₂ hfind)
  | some tree =>
    obtain ⟨original, horiginal, htree⟩ := hinv₁.find name tree hfind
    have horiginalName := ManagedRoot.name_of_find horiginal
    obtain ⟨parts', whole, chain, tip, hquarantined⟩ := hroot.quarantines original
      (ManagedRoot.mem_of_find horiginal) (horiginalName ▸ hname)
    have hsame := hquarantined.matched
    rw [horiginalName, hparts] at hsame
    obtain rfl := Option.some.inj hsame
    obtain ⟨directory, whole', harbitration, hwhole', hintact⟩ :=
      hclear hname tree original hfind horiginal
    obtain rfl := Option.some.inj (hwhole'.symm.trans hquarantined.arbitration)
    obtain ⟨whole'', hwhole'', hdirectoryMode, hsub⟩ := htree.arbitration directory harbitration
    obtain rfl := Option.some.inj (hwhole''.symm.trans hquarantined.arbitration)
    have hagrees := hquarantined.agree
    rw [← htree.dev, ← htree.ino, ← htree.isDirectory] at hagrees
    refine Passes.bind hinv₁ (scan_passes hinv₁ hquarantined.inspected hquarantined.mode
      ⟨(directory_of_find hfind).trans harbitration, hdirectoryMode, hsub, hintact⟩
      fun chain' s₂ h₂ htip hrelease hinv₂ => ?_)
    have hfilter : chain'.tip.filter (agrees parts ⟨tree.dev, tree.ino, tree.isDirectory⟩ chain') =
        some tip := by
      rw [htip, hquarantined.last, Option.filter_some,
        if_pos (agrees_of_chain hagrees (hrelease _ (agrees_token hquarantined.agree).2))]
    dsimp only
    rw [hfilter]
    refine Passes.bind hinv₂ (removeReconciled_passes hinv₂ fun s₃ h₃ hgone hinv₃ => ?_)
    have h₃₁ := h₃.trans h₂
    exact confirmRemoved_passes hinv₃ hgone (h₃₁.mode hmode₁)
      (hinv₃.dev.trans hquarantined.rootDev) (hinv₃.ino.trans hquarantined.rootIno)
      fun s₄ h₄ => h s₄ (h₄.trans (h₃₁.trans h₁)) (find_none h₄ hgone)

theorem scavengeEntries_passes (hroot : root.Quarantined N localeCompare) {maxScanEntries : Nat}
    (hinv : s.Residual root) (hmode : s.mode = 0o700) (names : List JsString) {examined : Nat}
    (hlimit : examined + names.length ≤ maxScanEntries)
    {Q : Except ScavengeError Unit → ManagedRoot → Prop}
    (h : ∀ s', s'.Residual s →
      (∀ name ∈ names, isRunQuarantineName name = true → s'.find name = none) → Q (.ok ()) s') :
    Passes root (scavengeEntries N localeCompare maxScanEntries names examined) Q s := by
  induction names generalizing s examined with
  | nil => exact fun _ _ => h s (.refl s) nofun
  | cons name names ih =>
    rw [List.length_cons] at hlimit
    rw [scavengeEntries, if_neg (by omega)]
    split
    · rename_i hname
      refine Passes.bind hinv (Passes.attempt (scavengeRunQuarantine_passes hroot hinv hmode hname
        fun s₁ h₁ hgone hinv₁ => ?_))
      refine ih hinv₁ (h₁.mode hmode) (by omega) fun s₂ h₂ hall => ?_
      refine h s₂ (h₂.trans h₁) fun other hother hisName => ?_
      rcases List.mem_cons.mp hother with rfl | hother
      · exact find_none h₂ hgone
      · exact hall other hother hisName
    · rename_i hname
      refine ih hinv hmode (by omega) fun s₁ h₁ hall => h s₁ h₁ fun other hother hisName => ?_
      rcases List.mem_cons.mp hother with rfl | hother
      · exact absurd hisName hname
      · exact hall other hother hisName

theorem scavengeQuarantines_passes (hroot : root.Quarantined N localeCompare) {maxScanEntries : Nat}
    (hlimit : root.entries.length ≤ maxScanEntries) (hinv : s.Residual root) :
    Passes root (scavengeQuarantines N localeCompare maxScanEntries)
      (fun r s' => r = .ok () ∧ s'.Scavenged) s := by
  refine Passes.bind hinv (perform_passes fun s₁ h₁ _ _ choice hinv₁ => ?_)
  refine Passes.bind hinv₁ (perform_passes fun s₂ h₂ _ _ choice hinv₂ => ?_)
  have hmode₂ : s₂.mode = 0o700 := h₂.mode rfl
  have hlength := hinv₂.names.length_le
  rw [List.length_map, List.length_map] at hlength
  refine scavengeEntries_passes (s := s₂) hroot hinv₂ hmode₂ _ ?_ fun s₃ h₃ hall =>
    ⟨rfl, fun tree htree => ?_⟩
  · rw [List.length_map, Nat.zero_add]
    exact hlength.trans hlimit
  · rw [← Bool.not_eq_true]
    intro hname
    have hmem := h₃.names.subset (List.mem_map_of_mem htree)
    exact find_eq_none_iff.mp (hall tree.name hmem hname) tree htree rfl

-- ============================================================================
-- Runs of passes
-- ============================================================================

theorem Scavenged.residual {s' : ManagedRoot} (h : s.Scavenged) (hs' : s'.Residual s) :
    s'.Scavenged := by
  intro tree htree
  obtain ⟨original, horiginal, hname⟩ :=
    List.mem_map.mp (hs'.names.subset (List.mem_map_of_mem htree))
  exact hname ▸ h original horiginal

variable (N localeCompare) in
/-- A step of any number of processes that scavenge one root. -/
abbrev scavengeStep (maxScanEntries : Nat) :
    Pool QuarantineOp.Reply ScavengeError ManagedRoot Unit Unit → PoolStep Unit QuarantineLabel →
      Option (Pool QuarantineOp.Reply ScavengeError ManagedRoot Unit Unit) :=
  Pool.step quarantineDevice fun _ => scavengeQuarantines N localeCompare maxScanEntries

variable {maxScanEntries : Nat} {es : List (PoolStep Unit QuarantineLabel)}
  {st : Pool QuarantineOp.Reply ScavengeError ManagedRoot Unit Unit}

theorem step_residual {st' : Pool QuarantineOp.Reply ScavengeError ManagedRoot Unit Unit}
    {e : PoolStep Unit QuarantineLabel} (hstep : scavengeStep N localeCompare maxScanEntries st e = some st') :
    st'.shared.Residual st.shared := by
  cases e with
  | start p =>
    obtain rfl := Option.some.inj hstep
    exact .refl _
  | perform c l =>
    rw [scavengeStep, Pool.step] at hstep
    split at hstep
    · rename_i o next hcall
      obtain rfl := Option.some.inj hstep
      exact st.shared.perform_residual o l
    · exact absurd hstep (by simp)
  | crash c =>
    rw [scavengeStep, Pool.step] at hstep
    split at hstep
    · obtain rfl := Option.some.inj hstep
      exact .refl _
    · exact absurd hstep (by simp)

/-- Whatever passes do and wherever they stop, they leave a part of the root. -/
theorem run_residual
    (hrun : Machine.run (scavengeStep N localeCompare maxScanEntries) ⟨root, []⟩ es = some st) :
    st.shared.Residual root :=
  Machine.run_invariant_of_step (I := fun st => st.shared.Residual root)
    (fun _ _ _ hinv hstep => (step_residual hstep).trans hinv) (.refl root) hrun

/-- A pass after interrupted ones removes the rest exactly when it can scan the root and
    inspect what is left of each quarantine; passes next to each other, none of which takes
    away what another inspects, end well; and no pass goes on for ever. -/
theorem scavengeQuarantines_restartable (hroot : root.Quarantined N localeCompare)
    (hrun : Machine.run (scavengeStep N localeCompare maxScanEntries) ⟨root, []⟩ es = some st) :
    (∀ labels : ℕ → QuarantineLabel, (∀ n, quarantineDevice.fault (labels n) = false) →
      ∃ n r, ((scavengeQuarantines N localeCompare maxScanEntries).exec quarantineDevice
          ((List.range n).map labels) st.shared).2 = some r ∧
        ((r = .ok () ∧ ((scavengeQuarantines N localeCompare maxScanEntries).exec quarantineDevice
          ((List.range n).map labels) st.shared).1.Scavenged) ↔
            root.Scannable st.shared maxScanEntries)) ∧
    (root.entries.length ≤ maxScanEntries →
      Machine.Along (scavengeStep N localeCompare maxScanEntries)
        (fun st e => st.Respects quarantineDevice (quarantineContract root) e) ⟨root, []⟩ es →
      ∀ call ∈ st.calls, call.crashed = false → call.clean = true →
        ∀ r, call.program.outcome? = some r → r = .ok () ∧ st.shared.Scavenged) ∧
    ∀ (states : ℕ → Pool QuarantineOp.Reply ScavengeError ManagedRoot Unit Unit)
      (steps : ℕ → PoolStep Unit QuarantineLabel),
      (∀ n, scavengeStep N localeCompare maxScanEntries (states n) (steps n) =
        some (states (n + 1))) →
      ∀ c, ∃ n, ∀ m ≥ n, ∀ l, steps m ≠ .perform c l := by
  refine ⟨fun labels hclean => ?_, fun hlimit halong call hmem hcrashed hclean r houtcome => ?_,
    fun states steps hsteps c => Pool.perform_finite hsteps c⟩
  · exact (scavengeQuarantines_ends hroot (run_residual hrun) maxScanEntries).exec labels hclean
  · have hsound : st.Sound quarantineDevice (quarantineContract root)
        (fun _ _ clean r s => clean = true → r = .ok () ∧ s.Scavenged) := by
      refine Pool.run_sound (.refl root) (fun _ s hinv => ?_)
        (fun _ _ _ _ _ s s' _ hresidual hpost hclean => ?_) hrun halong
      · exact scavengeQuarantines_passes hroot hlimit hinv
      · exact ⟨(hpost hclean).1, Scavenged.residual (hpost hclean).2 hresidual⟩
    exact hsound.ended hmem hcrashed houtcome hclean

-- ============================================================================
-- Passes that take turns
-- ============================================================================

/-- The operation that a call in progress performs next. -/
def pending? (call : PartyCall QuarantineOp.Reply ScavengeError ManagedRoot Unit Unit) :
    Option QuarantineOp :=
  if call.crashed then none
  else
    match call.program with
    | .call o _ => some o
    | _ => none

/-- The quarantine that an operation looks up. -/
def looksUp? : QuarantineOp → Option JsString
  | .lstat name => some name
  | _ => none

/-- While a pass performs an operation no other inspects a quarantine, and a quarantine that
    it looks up is whole or gone. -/
def InTurn (root : ManagedRoot) (st : Pool QuarantineOp.Reply ScavengeError ManagedRoot Unit Unit) :
    PoolStep Unit QuarantineLabel → Bool
  | .perform c _ =>
    (st.calls.zipIdx.all fun p =>
      p.2 == c || ((pending? p.1).bind QuarantineOp.inspects).isNone) &&
    ((st.calls[c]?.bind pending?).bind looksUp?).all fun name =>
      decide (st.shared.find name = root.find name ∨ st.shared.find name = none)
  | _ => true

/-- Passes that take turns do nothing that the others rely on not being done. -/
theorem respects_of_inTurn
    {pool : Pool QuarantineOp.Reply ScavengeError ManagedRoot Unit Unit}
    {e : PoolStep Unit QuarantineLabel}
    (hwhole : ∀ name, isRunQuarantineName name = true → root.Clear root name)
    (h : InTurn root pool e = true) :
    pool.Respects quarantineDevice (quarantineContract root) e := by
  cases e with
  | start p => exact trivial
  | crash c => exact trivial
  | perform c l =>
    rw [InTurn, Bool.and_eq_true, List.all_eq_true] at h
    obtain ⟨hothers, hlooks⟩ := h
    rw [Pool.Respects]
    split
    · rename_i p start clean o next hcall
      rw [hcall] at hlooks
      refine ⟨?_, fun d q start' clean' o' next' hdc hd =>
        ⟨pool.shared.perform_residual o l, fun name hname => ?_⟩⟩
      · cases o with
        | lstat name =>
          intro hquarantine
          have hfind : pool.shared.find name = root.find name ∨ pool.shared.find name = none :=
            of_decide_eq_true hlooks
          rcases hfind with hsame | hgone
          · exact (clear_congr hsame).mpr (hwhole name hquarantine)
          · exact fun tree _ hsome => absurd (hgone.symm.trans hsome) (by simp)
        | _ => exact trivial
      · have hquiet := hothers (_, d) (List.mem_zipIdx_iff_getElem?.mpr hd)
        have hinspects : (pending? (⟨q, start', clean', false, .call o' next'⟩ :
            PartyCall QuarantineOp.Reply ScavengeError ManagedRoot Unit Unit)).bind
              QuarantineOp.inspects = some name := hname
        rw [hinspects, beq_false_of_ne hdc] at hquiet
        exact absurd hquiet (by simp)
    · exact trivial

-- ============================================================================
-- Removals that leave enough, and too little
-- ============================================================================

def retired : GenerationRecord where
  rootDev := 1
  rootIno := 2
  runDev := 1
  runIno := 3
  token := List.replicate 64 0x61
  predecessor := none
  ordinal := 1
  role := .writer
  runName := js "run-" ++ List.replicate 32 0x61
  pid := 1
  processNonce := List.replicate 64 0x62
  osProcessIdentity := none
  createdAtMs := 0

def retiredFile (name : JsString) : ArbitrationFile :=
  ⟨name, 1, 4, 0o600, true, utf8 ((Json.obj (generationWire (N := Int) retired)).render ++ [0x0A]),
    0⟩

/-- The slot and the intent of one generation. -/
def retiredFiles : List ArbitrationFile :=
  [retiredFile (generationIntentFilename retired.token), retiredFile (js "next-root.claim")]

def retiredRoot : ManagedRoot where
  dev := 1
  ino := 2
  mode := 0o700
  entries := [⟨quarantineName retired, 1, 3, true, some ⟨0o700, retiredFiles⟩, [js "events.jsonl"]⟩]

theorem retiredRoot_quarantined : retiredRoot.Quarantined Int decomposingCompare := by
  refine ⟨by decide, fun tree htree _ => ?_⟩
  obtain rfl := List.mem_singleton.mp htree
  refine ⟨⟨retired.token, decimal 1, decimal 3⟩, ⟨0o700, retiredFiles⟩,
    ⟨[retired], [], [], some retired⟩, retired, ?_⟩
  exact
    { matched := by decide +kernel
      arbitration := rfl
      mode := rfl
      inspected := by decide +kernel
      last := rfl
      agree := by decide +kernel
      rootDev := rfl
      rootIno := rfl }

def performs (c n : Nat) : List (PoolStep Unit QuarantineLabel) :=
  List.replicate n (.perform c (.done 0))

/-- A pass that stops after it has removed one file. -/
def interruptedPass : List (PoolStep Unit QuarantineLabel) :=
  [.start ()] ++ performs 0 9 ++ [.crash 0]

/-- What it leaves: a slot without its intent. -/
def interruptedRoot : ManagedRoot where
  dev := 1
  ino := 2
  mode := 0o700
  entries := [⟨quarantineName retired, 1, 3, true, some ⟨0o700, retiredFiles.drop 1⟩,
    [js "events.jsonl"]⟩]

/-- A pass that removes one file while another is about to inspect the quarantine. -/
def overlappingPasses : List (PoolStep Unit QuarantineLabel) :=
  [.start (), .start ()] ++ performs 0 8 ++ performs 1 3 ++ performs 0 1 ++ performs 1 3

/-- A pass that stops when it has removed the journal and nothing else. -/
def harmlessPass : List (PoolStep Unit QuarantineLabel) :=
  [.start ()] ++ List.replicate 9 (.perform 0 (.done 2)) ++ [.crash 0]

/-- What it leaves: the arbitration directory. -/
def harmlessRoot : ManagedRoot where
  dev := 1
  ino := 2
  mode := 0o700
  entries := [⟨quarantineName retired, 1, 3, true, some ⟨0o700, retiredFiles⟩, []⟩]

/-- A pass that does everything while another is about to look the quarantine up. -/
def passesInTurn : List (PoolStep Unit QuarantineLabel) :=
  [.start (), .start ()] ++ performs 0 1 ++ performs 1 2 ++ performs 0 16 ++ performs 1 4

theorem intact_retired {tree : RunTree} (harbitration : tree.arbitration = some ⟨0o700, retiredFiles⟩)
    {original : RunTree} (horiginal : original ∈ retiredRoot.entries) : tree.Intact original := by
  obtain rfl := List.mem_singleton.mp horiginal
  exact ⟨⟨0o700, retiredFiles⟩, ⟨0o700, retiredFiles⟩, harbitration, rfl, by decide +kernel⟩

/-- The pass after the harmless one removes the rest, and passes that take turns end well. -/
theorem scavengeQuarantines_restartable_retired :
    (∃ st, Machine.run (scavengeStep Int decomposingCompare 10) ⟨retiredRoot, []⟩ harmlessPass =
        some st ∧
      ∀ labels : ℕ → QuarantineLabel, (∀ n, quarantineDevice.fault (labels n) = false) →
        ∃ n, ((scavengeQuarantines Int decomposingCompare 10).exec quarantineDevice
            ((List.range n).map labels) st.shared).2 = some (.ok ()) ∧
          ((scavengeQuarantines Int decomposingCompare 10).exec quarantineDevice
            ((List.range n).map labels) st.shared).1.Scavenged) ∧
    ∃ st, Machine.run (scavengeStep Int decomposingCompare 10) ⟨retiredRoot, []⟩ passesInTurn =
        some st ∧
      st.calls.length = 2 ∧ (∀ call ∈ st.calls, call.program.outcome? = some (.ok ())) ∧
      st.shared.Scavenged := by
  have hfind : ∀ {name : JsString} {tree : RunTree}, retiredRoot.find name = some tree →
      tree ∈ retiredRoot.entries := List.mem_of_find?_eq_some
  constructor
  · have hshared : (Machine.run (scavengeStep Int decomposingCompare 10) ⟨retiredRoot, []⟩
        harmlessPass).map (·.shared) = some harmlessRoot := by decide +kernel
    obtain ⟨st, hrun, hleft⟩ := Option.map_eq_some_iff.mp hshared
    refine ⟨st, hrun, fun labels hclean => ?_⟩
    have hscannable : retiredRoot.Scannable st.shared 10 := by
      rw [hleft]
      refine ⟨by decide, fun entry _ _ tree original htree horiginal => ?_⟩
      obtain rfl := List.mem_singleton.mp (List.mem_of_find?_eq_some htree)
      exact intact_retired rfl (hfind horiginal)
    obtain ⟨n, r, hr, hiff⟩ :=
      (scavengeQuarantines_restartable retiredRoot_quarantined hrun).1 labels hclean
    obtain ⟨rfl, hscavenged⟩ := hiff.mpr hscannable
    exact ⟨n, hr, hscavenged⟩
  · have hends : (Machine.run (scavengeStep Int decomposingCompare 10) ⟨retiredRoot, []⟩
        passesInTurn).map (fun st => st.calls.map fun call =>
          (call.crashed, call.clean, call.program.outcome?.isSome)) =
        some [(false, true, true), (false, true, true)] := by decide +kernel
    have hturns : Machine.Along (scavengeStep Int decomposingCompare 10)
        (fun st e => InTurn retiredRoot st e = true) ⟨retiredRoot, []⟩ passesInTurn := by
      decide +kernel
    obtain ⟨st, hrun, hcalls⟩ := Option.map_eq_some_iff.mp hends
    have hpasses := (scavengeQuarantines_restartable retiredRoot_quarantined hrun).2.1 (by decide)
      (hturns.mono fun _ _ => respects_of_inTurn fun name _ tree original htree horiginal => by
        obtain rfl := List.mem_singleton.mp (hfind htree)
        exact intact_retired rfl (hfind horiginal))
    have hcall : ∀ call ∈ st.calls, call.program.outcome? = some (.ok ()) ∧ st.shared.Scavenged := by
      intro call hmem
      have hstate := List.mem_map_of_mem (f := fun call => (call.crashed, call.clean,
        call.program.outcome?.isSome)) hmem
      rw [hcalls] at hstate
      simp only [List.mem_cons, Prod.mk.injEq, List.not_mem_nil, or_false, or_self] at hstate
      obtain ⟨hcrashed, hclean, hended⟩ := hstate
      obtain ⟨r, hr⟩ := Option.isSome_iff_exists.mp hended
      obtain ⟨rfl, hscavenged⟩ := hpasses call hmem hcrashed hclean r hr
      exact ⟨hr, hscavenged⟩
    have hlength : st.calls.length = 2 := by
      rw [← List.length_map, hcalls]
      rfl
    obtain ⟨call, hmem⟩ := List.exists_mem_of_length_pos (by rw [hlength]; exact Nat.two_pos)
    exact ⟨st, hrun, hlength, fun call hmem => (hcall call hmem).1, (hcall call hmem).2⟩

/-- The pass after an interrupted one fails, and so does a pass next to another. -/
theorem scavengeQuarantines_interrupted :
    retiredRoot.Quarantined Int decomposingCompare ∧
    (∃ st, Machine.run (scavengeStep Int decomposingCompare 10) ⟨retiredRoot, []⟩ interruptedPass =
        some st ∧
      ∀ labels : ℕ → QuarantineLabel, (∀ n, quarantineDevice.fault (labels n) = false) →
        ∃ n r, ((scavengeQuarantines Int decomposingCompare 10).exec quarantineDevice
            ((List.range n).map labels) st.shared).2 = some r ∧
          ¬(r = .ok () ∧ ((scavengeQuarantines Int decomposingCompare 10).exec quarantineDevice
            ((List.range n).map labels) st.shared).1.Scavenged)) ∧
    ∃ st, Machine.run (scavengeStep Int decomposingCompare 10) ⟨retiredRoot, []⟩ overlappingPasses =
        some st ∧
      ∃ call ∈ st.calls, call.crashed = false ∧ call.clean = true ∧
        ∃ error, call.program.outcome? = some (.error error) := by
  refine ⟨retiredRoot_quarantined, ?_, ?_⟩
  · have hshared : (Machine.run (scavengeStep Int decomposingCompare 10) ⟨retiredRoot, []⟩
        interruptedPass).map (·.shared) = some interruptedRoot := by decide +kernel
    obtain ⟨st, hrun, hleft⟩ := Option.map_eq_some_iff.mp hshared
    refine ⟨st, hrun, fun labels hclean => ?_⟩
    -- the intent of the generation is gone
    have hbad : ¬retiredRoot.Scannable st.shared 10 := by
      rw [hleft]
      intro h
      obtain ⟨directory, whole, hdirectory, hwhole, hintact⟩ :=
        h.2 _ List.mem_cons_self (by decide +kernel) _ _ rfl rfl
      obtain rfl := Option.some.inj hdirectory
      obtain rfl := Option.some.inj hwhole
      revert hintact
      decide +kernel
    obtain ⟨n, r, hr, hiff⟩ :=
      (scavengeQuarantines_ends retiredRoot_quarantined (run_residual hrun) 10).exec labels hclean
    exact ⟨n, r, hr, fun h => hbad (hiff.mp h)⟩
  · have hfailed : (Machine.run (scavengeStep Int decomposingCompare 10) ⟨retiredRoot, []⟩
        overlappingPasses).any (fun st => st.calls.any fun call =>
          !call.crashed && call.clean && call.program.outcome?.any fun r => !r.isOk) = true := by
      decide +kernel
    obtain ⟨st, hrun, hcalls⟩ := (Option.any_eq_true _ _).mp hfailed
    obtain ⟨call, hmem, hcall⟩ := List.any_eq_true.mp hcalls
    simp only [Bool.and_eq_true, Bool.not_eq_true'] at hcall
    obtain ⟨⟨hcrashed, hclean⟩, houtcome⟩ := hcall
    obtain ⟨r, hr, hisOk⟩ := (Option.any_eq_true _ _).mp houtcome
    cases r with
    | ok u => exact absurd hisOk Bool.false_ne_true
    | error error => exact ⟨st, hrun, call, hmem, hcrashed, hclean, error, hr⟩

end RunQuarantine

end PiRlm.Runtime

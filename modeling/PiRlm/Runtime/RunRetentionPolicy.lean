/-
  PiRlm.Runtime.RunRetentionPolicy

  The selection of managed runs to remove: `runtime/run-retention-policy.ts`.

  Among the removable terminal runs, the three passes of the selection remove the oldest
  ones as long as one is too old, too many are left or too many bytes are left.  The
  cleanup of `runtime/run-retention.ts` selects again after each removal.
-/
import Mathlib
import PiRlm.Lib.OrderedList
import PiRlm.Lib.Utf16

namespace PiRlm.Runtime.RunRetention

open PiRlm.Lib

-- ============================================================================
-- Runs and policies
-- ============================================================================

inductive ManagedRunActivity where
  | owned | live | inactive | stale | ambiguous
  deriving Repr, DecidableEq

inductive RunLifecycleStatus where
  | active | completed | failed | cancelled
  deriving Repr, DecidableEq

/-- The lifecycle of a run, with a terminal time exactly when it is terminal. -/
inductive RunLifecycleMetadata where
  | active (updatedAtMs : Int)
  | terminal (status : RunLifecycleStatus) (updatedAtMs terminalAtMs : Int)
    (isTerminal : status ≠ .active)
  deriving DecidableEq

namespace RunLifecycleMetadata

def status : RunLifecycleMetadata → RunLifecycleStatus
  | .active _ => .active
  | .terminal status .. => status

def updatedAtMs : RunLifecycleMetadata → Int
  | .active updatedAtMs => updatedAtMs
  | .terminal _ updatedAtMs _ _ => updatedAtMs

def terminalAtMs : RunLifecycleMetadata → Option Int
  | .active _ => none
  | .terminal _ _ terminalAtMs _ => some terminalAtMs

end RunLifecycleMetadata

structure RetentionPolicyRun where
  name : JsString
  bytes : Nat
  activity : ManagedRunActivity
  metadata : RunLifecycleMetadata
  deriving DecidableEq

structure RunRetentionPolicy where
  terminalMaxAgeMs : Int
  maxTerminalRuns : Int
  maxTerminalBytes : Int
  abandonedGraceMs : Int
  deriving Repr, DecidableEq

namespace RetentionPolicyRun

variable (run : RetentionPolicyRun)

def removable : Bool := run.activity == .inactive || run.activity == .stale

/-- `run.metadata.status !== "active"`. -/
def isTerminal : Bool := run.metadata.status != .active

/-- `run.metadata.terminalAtMs!`, of a terminal run. -/
def terminalAt : Int := run.metadata.terminalAtMs.getD 0

def updatedAt : Int := run.metadata.updatedAtMs

/-- `run.metadata.terminalAtMs ?? run.metadata.updatedAtMs`. -/
def endedAt : Int := run.metadata.terminalAtMs.getD run.metadata.updatedAtMs

end RetentionPolicyRun

-- ============================================================================
-- The selection
-- ============================================================================

variable (localeCompare : JsString → JsString → Ordering)

/-- The comparison of a sort: by a time, then by name. -/
def ByTime (time : RetentionPolicyRun → Int) (a b : RetentionPolicyRun) : Prop :=
  time a < time b ∨ time a = time b ∧ (localeCompare a.name b.name).isLE = true

instance (time : RetentionPolicyRun → Int) : DecidableRel (ByTime localeCompare time) :=
  fun _ _ => inferInstanceAs (Decidable (_ ∨ _))

/-- The terminal runs, oldest first. -/
def terminalRuns (runs : List RetentionPolicyRun) : List RetentionPolicyRun :=
  (runs.filter (·.isTerminal)).insertionSort (ByTime localeCompare RetentionPolicyRun.terminalAt)

/-- The terminal time has reached the maximum age, or everything goes. -/
def isOld (policy : RunRetentionPolicy) (now : Int) (force : Bool) (run : RetentionPolicyRun) :
    Bool :=
  force || decide (policy.terminalMaxAgeMs ≤ now - run.terminalAt)

/-- `selected.add(name)`. -/
def addName (selected : List JsString) (name : JsString) : List JsString :=
  if name ∈ selected then selected else selected ++ [name]

/-- The pass over the terminal runs that are too old. -/
def selectOld (policy : RunRetentionPolicy) (now : Int) (force : Bool)
    (terminal : List RetentionPolicyRun) : List JsString :=
  terminal.foldl (fun selected run =>
    if run.removable && isOld policy now force run then addName selected run.name else selected) []

/-- A pass that selects further runs while what remains is above a limit. -/
def trim (limit : Int) (cost : RetentionPolicyRun → Int) :
    List RetentionPolicyRun → List JsString → Int → List JsString
  | [], selected, _ => selected
  | run :: rest, selected, remaining =>
    if remaining ≤ limit then selected
    else if !decide (run.name ∈ selected) && run.removable then
      trim limit cost rest (addName selected run.name) (remaining - cost run)
    else trim limit cost rest selected remaining

/-- The bytes of the runs that are not selected. -/
def bytesOutside (selected : List JsString) (terminal : List RetentionPolicyRun) : Int :=
  terminal.foldl (fun sum run => sum + if run.name ∈ selected then 0 else (run.bytes : Int)) 0

/-- The runs without an owner that nobody has touched for long, oldest first. -/
def abandonedRuns (policy : RunRetentionPolicy) (now : Int) (runs : List RetentionPolicyRun) :
    List RetentionPolicyRun :=
  (runs.filter fun run => run.metadata.status == .active && run.removable &&
    decide (policy.abandonedGraceMs ≤ now - run.updatedAt)).insertionSort
      (ByTime localeCompare RetentionPolicyRun.updatedAt)

/-- The names of the runs to remove, in the order in which they are selected. -/
def selectRetentionCandidates (runs : List RetentionPolicyRun) (policy : RunRetentionPolicy)
    (now : Int) (force : Bool) : List JsString :=
  let terminal := terminalRuns localeCompare runs
  let old := selectOld policy now force terminal
  let counted := trim policy.maxTerminalRuns (fun _ => 1) terminal old
    ((terminal.length : Int) - old.length)
  let selected := trim policy.maxTerminalBytes (fun run => run.bytes) terminal counted
    (bytesOutside counted terminal)
  (abandonedRuns localeCompare policy now runs).foldl (fun selected run =>
    addName selected run.name) selected

/-- The order in which the cleanup removes the selected runs. -/
def cleanupOrder (runs : List RetentionPolicyRun) (policy : RunRetentionPolicy) (now : Int)
    (force : Bool) : List RetentionPolicyRun :=
  (runs.filter fun run =>
    decide (run.name ∈ selectRetentionCandidates localeCompare runs policy now force)).insertionSort
      (ByTime localeCompare RetentionPolicyRun.endedAt)

-- ============================================================================
-- What has to go
-- ============================================================================

/-- The number of terminal runs that are left and their bytes. -/
abbrev Remaining := Int × Int

/-- The oldest removable terminal run has to go. -/
def needed (policy : RunRetentionPolicy) (now : Int) (force : Bool) (left : Remaining)
    (run : RetentionPolicyRun) : Bool :=
  isOld policy now force run || decide (policy.maxTerminalRuns < left.1) ||
    decide (policy.maxTerminalBytes < left.2)

def without (left : Remaining) (run : RetentionPolicyRun) : Remaining :=
  (left.1 - 1, left.2 - run.bytes)

def totalBytes (runs : List RetentionPolicyRun) : Int :=
  (runs.map fun run => (run.bytes : Int)).sum

def removableRuns (terminal : List RetentionPolicyRun) : List RetentionPolicyRun :=
  terminal.filter (·.removable)

/-- The terminal runs that have to go: from the oldest on, as long as one is needed. -/
def outdated (policy : RunRetentionPolicy) (now : Int) (force : Bool)
    (terminal : List RetentionPolicyRun) : List RetentionPolicyRun :=
  shed (needed policy now force) without (terminal.length, totalBytes terminal)
    (removableRuns terminal)

theorem foldl_without (left : Remaining) (runs : List RetentionPolicyRun) :
    runs.foldl without left = (left.1 - runs.length, left.2 - totalBytes runs) := by
  induction runs generalizing left with
  | nil =>
    show left = (left.1 - 0, left.2 - 0)
    rw [sub_zero, sub_zero]
  | cons run runs ih =>
    rw [List.foldl_cons, ih]
    refine Prod.ext ?_ ?_
    · show left.1 - 1 - (runs.length : Int) = left.1 - ((run :: runs).length : Int)
      rw [List.length_cons]
      omega
    · show left.2 - run.bytes - totalBytes runs = left.2 - (run.bytes + totalBytes runs)
      omega

theorem totalBytes_append (runs runs' : List RetentionPolicyRun) :
    totalBytes (runs ++ runs') = totalBytes runs + totalBytes runs' := by
  rw [totalBytes, List.map_append, List.sum_append]
  rfl

-- ============================================================================
-- Runs by name
-- ============================================================================

section Names

variable {runs gone : List RetentionPolicyRun}

theorem eq_of_name (hnames : (runs.map (·.name)).Nodup) {a b : RetentionPolicyRun} (ha : a ∈ runs)
    (hb : b ∈ runs) (h : a.name = b.name) : a = b :=
  List.inj_on_of_nodup_map hnames ha hb h

/-- Runs of the list are known by their names. -/
theorem mem_names_iff (hnames : (runs.map (·.name)).Nodup) (hsub : gone ⊆ runs)
    {run : RetentionPolicyRun} (hrun : run ∈ runs) : run.name ∈ gone.map (·.name) ↔ run ∈ gone := by
  constructor
  · intro h
    obtain ⟨run', hgone, hname⟩ := List.mem_map.mp h
    exact eq_of_name hnames (hsub hgone) hrun hname ▸ hgone
  · exact fun h => List.mem_map_of_mem h

/-- Without the names of its front, a list is the rest. -/
theorem filter_not_mem_names {gone stay : List RetentionPolicyRun}
    (hnames : ((gone ++ stay).map (·.name)).Nodup) :
    (gone ++ stay).filter (fun run => decide (run.name ∉ gone.map (·.name))) = stay := by
  rw [List.map_append, List.nodup_append] at hnames
  rw [List.filter_append]
  have hgone : gone.filter (fun run => decide (run.name ∉ gone.map (·.name))) = [] := by
    rw [List.filter_eq_nil_iff]
    intro run hrun h
    exact of_decide_eq_true h (List.mem_map_of_mem hrun)
  have hstay : stay.filter (fun run => decide (run.name ∉ gone.map (·.name))) = stay := by
    rw [List.filter_eq_self]
    intro run hrun
    refine decide_eq_true fun h => ?_
    exact hnames.2.2 run.name h run.name (List.mem_map_of_mem hrun) rfl
  rw [hgone, hstay, List.nil_append]

/-- Only its front has the names of its front. -/
theorem filter_mem_names {gone stay : List RetentionPolicyRun}
    (hnames : ((gone ++ stay).map (·.name)).Nodup) :
    (gone ++ stay).filter (fun run => decide (run.name ∈ gone.map (·.name))) = gone := by
  rw [List.map_append, List.nodup_append] at hnames
  rw [List.filter_append]
  have hgone : gone.filter (fun run => decide (run.name ∈ gone.map (·.name))) = gone := by
    rw [List.filter_eq_self]
    exact fun run hrun => decide_eq_true (List.mem_map_of_mem hrun)
  have hstay : stay.filter (fun run => decide (run.name ∈ gone.map (·.name))) = [] := by
    rw [List.filter_eq_nil_iff]
    intro run hrun h
    exact hnames.2.2 run.name (of_decide_eq_true h) run.name (List.mem_map_of_mem hrun) rfl
  rw [hgone, hstay, List.append_nil]

/-- Taking some of the runs away takes their number and their bytes away. -/
theorem filter_not_mem_sizes (hnames : (runs.map (·.name)).Nodup) (hgone : gone.Nodup)
    (hsub : gone ⊆ runs) :
    let stay := runs.filter fun run => decide (run.name ∉ gone.map (·.name))
    (stay.length : Int) = runs.length - gone.length ∧
      totalBytes stay = totalBytes runs - totalBytes gone := by
  intro stay
  have hperm : (runs.filter fun run => decide (run.name ∈ gone.map (·.name))).Perm gone := by
    refine (List.perm_ext_iff_of_nodup ((List.Nodup.of_map _ hnames).filter _) hgone).mpr ?_
    intro run
    rw [List.mem_filter, decide_eq_true_eq]
    constructor
    · exact fun h => (mem_names_iff hnames hsub h.1).mp h.2
    · exact fun h => ⟨hsub h, List.mem_map_of_mem h⟩
  have hsplit : (stay ++ gone).Perm runs := by
    refine List.Perm.trans ?_ (List.filter_append_perm
      (fun run => decide (run.name ∉ gone.map (·.name))) runs)
    refine List.Perm.append_left stay (hperm.symm.trans (List.Perm.of_eq ?_))
    refine List.filter_congr fun run _ => ?_
    rw [decide_not, Bool.not_not]
  have hlength := hsplit.length_eq
  have hbytes : totalBytes stay + totalBytes gone = totalBytes runs := by
    rw [← totalBytes_append]
    exact (hsplit.map fun run => (run.bytes : Int)).sum_eq
  rw [List.length_append] at hlength
  omega

theorem foldl_addName {names selected : List JsString} (hnodup : (selected ++ names).Nodup) :
    names.foldl addName selected = selected ++ names := by
  induction names generalizing selected with
  | nil => exact (List.append_nil selected).symm
  | cons name names ih =>
    have hnew : name ∉ selected := by
      rw [List.nodup_append] at hnodup
      exact fun h => hnodup.2.2 name h name List.mem_cons_self rfl
    rw [List.foldl_cons, addName, if_neg hnew, ih]
    · rw [List.append_assoc]
      rfl
    · rw [List.append_assoc]
      exact hnodup

end Names

-- ============================================================================
-- The passes
-- ============================================================================

section Passes

variable {policy : RunRetentionPolicy} {now : Int} {force : Bool}

theorem selectOld_eq {terminal : List RetentionPolicyRun} (hnames : (terminal.map (·.name)).Nodup) :
    selectOld policy now force terminal =
      ((removableRuns terminal).filter (isOld policy now force)).map (·.name) := by
  have hold : ((terminal.filter fun run => run.removable && isOld policy now force run).map
      (·.name)).Nodup := hnames.sublist (List.filter_sublist.map _)
  rw [selectOld, ← List.foldl_filter, removableRuns, List.filter_filter]
  rw [← List.foldl_map (f := fun run : RetentionPolicyRun => run.name) (g := addName)]
  rw [foldl_addName (by rwa [List.nil_append]), List.nil_append]
  refine congrArg (List.map _) (List.filter_congr fun run _ => ?_)
  exact Bool.and_comm _ _

/-- What remains is above a limit, whatever the next run is. -/
def above (limit left : Int) (_ : RetentionPolicyRun) : Bool := decide (limit < left)

/-- What remains without a run. -/
def less (cost : RetentionPolicyRun → Int) (left : Int) (run : RetentionPolicyRun) : Int :=
  left - cost run

theorem removableRuns_cons (run : RetentionPolicyRun) (rest : List RetentionPolicyRun) :
    removableRuns (run :: rest) =
      if run.removable then run :: removableRuns rest else removableRuns rest :=
  List.filter_cons

/-- A pass selects from the removable runs that are not selected yet. -/
theorem trim_eq {limit : Int} {cost : RetentionPolicyRun → Int} {terminal : List RetentionPolicyRun}
    (hnames : (terminal.map (·.name)).Nodup) (selected : List JsString) (remaining : Int) :
    trim limit cost terminal selected remaining =
      selected ++ (shed (above limit) (less cost) remaining ((removableRuns terminal).filter fun run =>
        decide (run.name ∉ selected))).map (·.name) := by
  induction terminal generalizing selected remaining with
  | nil => exact (List.append_nil selected).symm
  | cons run rest ih =>
    rw [List.map_cons, List.nodup_cons] at hnames
    rw [trim, removableRuns_cons]
    by_cases hlimit : remaining ≤ limit
    · have hstop : ∀ run, above limit remaining run = false :=
        fun _ => decide_eq_false (not_lt.mpr hlimit)
      rw [if_pos hlimit, shed_eq_nil fun run _ => hstop run]
      exact (List.append_nil selected).symm
    · have habove : above limit remaining run = true := decide_eq_true (not_le.mp hlimit)
      rw [if_neg hlimit]
      by_cases hcandidate : (!decide (run.name ∈ selected) && run.removable) = true
      · -- the run is selected, and no later one has its name
        rw [if_pos hcandidate]
        rw [Bool.and_eq_true, Bool.not_eq_true', decide_eq_false_iff_not] at hcandidate
        obtain ⟨hnew, hremovable⟩ := hcandidate
        have hrest : ((removableRuns rest).filter fun run' =>
            decide (run'.name ∉ selected ++ [run.name])) =
              (removableRuns rest).filter fun run' => decide (run'.name ∉ selected) := by
          refine List.filter_congr fun run' hrun' => ?_
          have hne : run'.name ≠ run.name := fun h =>
            hnames.1 (h ▸ List.mem_map_of_mem (List.mem_filter.mp hrun').1)
          refine decide_eq_decide.mpr (not_congr ?_)
          rw [List.mem_append, List.mem_singleton]
          exact or_iff_left hne
        rw [ih hnames.2, addName, if_neg hnew, hrest, if_pos hremovable,
          List.filter_cons, if_pos (decide_eq_true hnew), shed,
          if_pos habove, List.map_cons, List.append_assoc]
        rfl
      · rw [if_neg hcandidate, ih hnames.2]
        rw [Bool.and_eq_true, Bool.not_eq_true', decide_eq_false_iff_not, not_and] at hcandidate
        by_cases hremovable : run.removable = true
        · have hold : run.name ∈ selected := by
            by_contra hnew
            exact hcandidate hnew hremovable
          rw [if_pos hremovable, List.filter_cons, if_neg (by simp [hold])]
        · rw [if_neg hremovable]

/-- The pass over the counts, and then the pass over the bytes. -/
theorem later_passes_eq {runs : List RetentionPolicyRun}
    (hnone : ∀ run ∈ runs, isOld policy now force run = false) (count bytes : Int) :
    let counted := shed (above policy.maxTerminalRuns) (less fun _ => 1) count runs
    let sized := shed (above policy.maxTerminalBytes) (less fun run => run.bytes)
      (bytes - totalBytes counted) (runs.drop counted.length)
    counted ++ sized = shed (needed policy now force) without (count, bytes) runs := by
  induction runs generalizing count bytes with
  | nil => rfl
  | cons run runs ih =>
    rw [List.forall_mem_cons] at hnone
    specialize ih hnone.2 (count - 1) (bytes - run.bytes)
    have hneeded : needed policy now force (count, bytes) run =
        (decide (policy.maxTerminalRuns < count) || decide (policy.maxTerminalBytes < bytes)) := by
      rw [needed, hnone.1, Bool.false_or]
    rw [shed, shed, hneeded, above]
    by_cases hcount : policy.maxTerminalRuns < count
    · -- too many are left
      have hbytes : ∀ counted, bytes - totalBytes (run :: counted) =
          bytes - run.bytes - totalBytes counted := by
        intro counted
        show bytes - (run.bytes + totalBytes counted) = _
        omega
      rw [if_pos (decide_eq_true hcount), decide_eq_true hcount, Bool.true_or, if_pos rfl]
      intro counted sized
      refine congrArg (List.cons run) (Eq.trans ?_ ih)
      show shed _ _ _ runs ++ shed _ _ (bytes - totalBytes (run :: shed _ _ _ runs)) _ = _
      rw [hbytes]
      rfl
    · rw [if_neg (by rwa [decide_eq_true_eq]), decide_eq_false hcount, Bool.false_or]
      intro counted sized
      show shed _ _ (bytes - 0) (run :: runs) = _
      rw [sub_zero, shed, above]
      by_cases hbytes : policy.maxTerminalBytes < bytes
      · -- only the bytes are too many, so that the first of the passes takes nothing later on
        rw [decide_eq_true hbytes, if_pos rfl, if_pos rfl]
        have hfew : shed (above policy.maxTerminalRuns) (less fun _ => 1) (count - 1) runs = [] :=
          shed_eq_nil fun _ _ => decide_eq_false (by omega)
        rw [hfew] at ih
        refine congrArg (List.cons run) (Eq.trans ?_ ih)
        show _ = shed _ _ (bytes - run.bytes - 0) runs
        rw [sub_zero]
        rfl
      · rw [decide_eq_false hbytes]
        rfl

variable (policy now force) in
/-- The three passes, one after the other, select what has to go. -/
theorem passes_eq {runs : List RetentionPolicyRun}
    (hsorted : runs.Pairwise fun a b => a.terminalAt ≤ b.terminalAt) (count bytes : Int) :
    let old := runs.filter (isOld policy now force)
    let rest := runs.drop old.length
    let counted := shed (above policy.maxTerminalRuns) (less fun _ => 1) (count - old.length) rest
    let sized := shed (above policy.maxTerminalBytes) (less fun run => run.bytes)
      (bytes - totalBytes (old ++ counted)) (rest.drop counted.length)
    old <+: runs ∧
      old ++ counted ++ sized = shed (needed policy now force) without (count, bytes) runs := by
  induction runs generalizing count bytes with
  | nil => exact ⟨List.prefix_rfl, rfl⟩
  | cons run runs ih =>
    rw [List.pairwise_cons] at hsorted
    by_cases hold : isOld policy now force run = true
    · -- too old: the pass over the old runs takes it
      obtain ⟨hinitial, ih⟩ := ih hsorted.2 (count - 1) (bytes - run.bytes)
      have hneeded : needed policy now force (count, bytes) run = true := by
        rw [needed, hold, Bool.true_or, Bool.true_or]
      have hcount : ∀ old : List RetentionPolicyRun, count - ((run :: old).length : Int) =
          count - 1 - (old.length : Int) := by
        intro old
        rw [List.length_cons]
        omega
      have hbytes : ∀ old, bytes - totalBytes (run :: old) = bytes - run.bytes - totalBytes old := by
        intro old
        show bytes - (run.bytes + totalBytes old) = _
        omega
      rw [List.filter_cons_of_pos hold, shed, if_pos hneeded]
      intro old rest counted sized
      refine ⟨(List.prefix_cons_inj run).mpr hinitial, congrArg (List.cons run) (Eq.trans ?_ ih)⟩
      show _ ++ shed _ _ (count - ((run :: _).length : Int)) _ ++
        shed _ _ (bytes - totalBytes (run :: (_ ++ shed _ _ (count - ((run :: _).length : Int)) _)))
          (List.drop (shed _ _ (count - ((run :: _).length : Int)) _).length _) = _
      rw [hcount, hbytes]
      rfl
    · -- no later run is older
      have hnone : ∀ run' ∈ run :: runs, isOld policy now force run' = false := by
        intro run' hrun'
        rw [isOld, Bool.or_eq_true, not_or, Bool.not_eq_true, decide_eq_true_eq] at hold
        have hle : run.terminalAt ≤ run'.terminalAt := by
          rcases List.mem_cons.mp hrun' with rfl | hrun'
          · exact le_refl _
          · exact hsorted.1 run' hrun'
        rw [isOld, hold.1, Bool.false_or]
        exact decide_eq_false (by omega)
      have hnil : (run :: runs).filter (isOld policy now force) = [] :=
        List.filter_eq_nil_iff.mpr fun run' hrun' => by
          rw [hnone run' hrun']
          exact Bool.false_ne_true
      rw [hnil]
      refine ⟨List.nil_prefix, ?_⟩
      simp only [List.length_nil, Nat.cast_zero, sub_zero, List.drop_zero, List.nil_append]
      exact later_passes_eq hnone count bytes

end Passes

-- ============================================================================
-- The selection as runs
-- ============================================================================

section Selection

variable {localeCompare : JsString → JsString → Ordering} [Std.TransCmp localeCompare]

instance byTime_trans (time : RetentionPolicyRun → Int) :
    IsTrans RetentionPolicyRun (ByTime localeCompare time) where
  trans a b c hab hbc := by
    rcases hab with hab | ⟨hab, hname⟩
    · rcases hbc with hbc | ⟨hbc, -⟩
      · exact .inl (hab.trans hbc)
      · exact .inl (hbc ▸ hab)
    · rcases hbc with hbc | ⟨hbc, hname'⟩
      · exact .inl (hab ▸ hbc)
      · exact .inr ⟨hab.trans hbc, Std.TransCmp.isLE_trans hname hname'⟩

instance byTime_total (time : RetentionPolicyRun → Int) :
    Std.Total (ByTime localeCompare time) where
  total a b := by
    rcases lt_trichotomy (time a) (time b) with hlt | heq | hgt
    · exact .inl (.inl hlt)
    · by_cases hname : (localeCompare a.name b.name).isLE = true
      · exact .inl (.inr ⟨heq, hname⟩)
      · refine .inr (.inr ⟨heq.symm, ?_⟩)
        rw [Std.OrientedCmp.lt_of_not_isLE hname]
        rfl
    · exact .inr (.inl hgt)

variable {runs : List RetentionPolicyRun} {policy : RunRetentionPolicy} {now : Int} {force : Bool}

variable (localeCompare runs) in
theorem terminalRuns_sorted :
    (terminalRuns localeCompare runs).Pairwise (ByTime localeCompare RetentionPolicyRun.terminalAt) :=
  List.pairwise_insertionSort _ _

variable (localeCompare runs) in
theorem removableRuns_sorted : (removableRuns (terminalRuns localeCompare runs)).Pairwise
    fun a b => a.terminalAt ≤ b.terminalAt := by
  refine List.Pairwise.sublist List.filter_sublist
    ((terminalRuns_sorted localeCompare runs).imp ?_)
  rintro a b (hlt | ⟨heq, -⟩)
  · exact hlt.le
  · exact heq.le

omit [Std.TransCmp localeCompare] in
variable (localeCompare runs) in
theorem terminalRuns_perm : (terminalRuns localeCompare runs).Perm (runs.filter (·.isTerminal)) :=
  List.perm_insertionSort _ _

theorem terminalRuns_filter (p : RetentionPolicyRun → Bool) :
    terminalRuns localeCompare (runs.filter p) = (terminalRuns localeCompare runs).filter p := by
  rw [terminalRuns, terminalRuns, filter_insertionSort, List.filter_filter, List.filter_filter]
  refine congrArg (List.insertionSort _) (List.filter_congr fun run _ => ?_)
  exact Bool.and_comm _ _

theorem abandonedRuns_filter (p : RetentionPolicyRun → Bool) :
    abandonedRuns localeCompare policy now (runs.filter p) =
      (abandonedRuns localeCompare policy now runs).filter p := by
  rw [abandonedRuns, abandonedRuns, filter_insertionSort, List.filter_filter, List.filter_filter]
  refine congrArg (List.insertionSort _) (List.filter_congr fun run _ => ?_)
  exact Bool.and_comm _ _

omit [Std.TransCmp localeCompare] in
theorem mem_abandonedRuns {run : RetentionPolicyRun}
    (h : run ∈ abandonedRuns localeCompare policy now runs) :
    run ∈ runs ∧ run.isTerminal = false ∧ run.removable = true := by
  have hmem := (List.perm_insertionSort _ _).subset h
  simp only [List.mem_filter, Bool.and_eq_true, decide_eq_true_eq] at hmem
  obtain ⟨hrun, ⟨hactive, hremovable⟩, -⟩ := hmem
  exact ⟨hrun, by rw [RetentionPolicyRun.isTerminal, bne, hactive]; rfl, hremovable⟩

omit [Std.TransCmp localeCompare] in
theorem mem_terminalRuns {run : RetentionPolicyRun} :
    run ∈ terminalRuns localeCompare runs ↔ run ∈ runs ∧ run.isTerminal = true := by
  rw [(terminalRuns_perm localeCompare runs).mem_iff, List.mem_filter]

omit [Std.TransCmp localeCompare] in
theorem terminalRuns_names (hnames : (runs.map (·.name)).Nodup) :
    ((terminalRuns localeCompare runs).map (·.name)).Nodup :=
  ((terminalRuns_perm localeCompare runs).map _).nodup_iff.mpr
    (hnames.sublist (List.filter_sublist.map _))

theorem bytesOutside_eq (selected : List JsString) (terminal : List RetentionPolicyRun) :
    bytesOutside selected terminal =
      totalBytes (terminal.filter fun run => decide (run.name ∉ selected)) := by
  have hfold : ∀ sum : Int, terminal.foldl (fun sum run =>
      sum + if run.name ∈ selected then 0 else (run.bytes : Int)) sum =
        sum + totalBytes (terminal.filter fun run => decide (run.name ∉ selected)) := by
    induction terminal with
    | nil => exact fun sum => (add_zero sum).symm
    | cons run rest ih =>
      intro sum
      rw [List.foldl_cons, ih, List.filter_cons]
      by_cases hmem : run.name ∈ selected
      · rw [if_pos hmem, if_neg (by simp [hmem]), add_zero]
      · rw [if_neg hmem, if_pos (decide_eq_true hmem), add_assoc]
        rfl
  exact (hfold 0).trans (zero_add _)

theorem outdated_initial (terminal : List RetentionPolicyRun) :
    outdated policy now force terminal <+: removableRuns terminal :=
  shed_prefix _ _

theorem outdated_subset (terminal : List RetentionPolicyRun) :
    outdated policy now force terminal ⊆ terminal := fun _ hrun =>
  List.filter_sublist.subset ((outdated_initial terminal).subset hrun)

omit [Std.TransCmp localeCompare] in
variable (runs) in
theorem outdated_append_subset :
    outdated policy now force (terminalRuns localeCompare runs) ++
      abandonedRuns localeCompare policy now runs ⊆ runs := by
  intro run hrun
  rcases List.mem_append.mp hrun with hrun | hrun
  · exact (mem_terminalRuns.mp (outdated_subset _ hrun)).1
  · exact (mem_abandonedRuns hrun).1

/-- A terminal run has ended at its terminal time. -/
theorem endedAt_eq {run : RetentionPolicyRun} (h : run.isTerminal = true) :
    run.endedAt = run.terminalAt := by
  rw [RetentionPolicyRun.isTerminal] at h
  rw [RetentionPolicyRun.endedAt, RetentionPolicyRun.terminalAt]
  cases hmetadata : run.metadata with
  | active => rw [hmetadata] at h; exact absurd h nofun
  | terminal => rfl

/-- The selected names are those of the terminal runs that have to go and of the abandoned
    runs. -/
theorem select_eq (hnames : (runs.map (·.name)).Nodup) :
    selectRetentionCandidates localeCompare runs policy now force =
      (outdated policy now force (terminalRuns localeCompare runs) ++
        abandonedRuns localeCompare policy now runs).map (·.name) := by
  let terminal := terminalRuns localeCompare runs
  have hterminal : (terminal.map (·.name)).Nodup := terminalRuns_names hnames
  have hremovable : ((removableRuns terminal).map (·.name)).Nodup :=
    hterminal.sublist (List.filter_sublist.map _)
  have hsub : removableRuns terminal ⊆ terminal := List.filter_sublist.subset
  have hsorted := removableRuns_sorted localeCompare runs
  have hpasses := passes_eq policy now force hsorted terminal.length (totalBytes terminal)
  let old := (removableRuns terminal).filter (isOld policy now force)
  let counted := shed (above policy.maxTerminalRuns) (less fun _ => 1)
    ((terminal.length : Int) - old.length) ((removableRuns terminal).drop old.length)
  obtain ⟨⟨rest, hrest⟩, hpasses⟩ := hpasses
  have hdrop : (removableRuns terminal).drop old.length = rest := by
    rw [← hrest, List.drop_left]
  obtain ⟨rest', hrest'⟩ : counted <+: rest := hdrop ▸ shed_prefix _ _
  have hold : selectOld policy now force terminal = old.map (·.name) := selectOld_eq hterminal
  have hcounted : trim policy.maxTerminalRuns (fun _ => 1) terminal (old.map (·.name))
      ((terminal.length : Int) - (old.map (·.name)).length) = (old ++ counted).map (·.name) := by
    have hleft : (removableRuns terminal).filter (fun run =>
        decide (run.name ∉ old.map (·.name))) = (removableRuns terminal).drop old.length := by
      rw [hdrop, ← hrest]
      exact filter_not_mem_names (hrest.symm ▸ hremovable)
    rw [trim_eq hterminal, hleft, List.length_map, List.map_append]
  have hfront : old ++ counted ++ rest' = removableRuns terminal := by
    rw [List.append_assoc, hrest', hrest]
  have hbytes : bytesOutside ((old ++ counted).map (·.name)) terminal =
      totalBytes terminal - totalBytes (old ++ counted) := by
    have hfrontSub : old ++ counted ⊆ terminal := fun run hrun =>
      hsub (hfront ▸ List.mem_append_left rest' hrun)
    have hfrontNodup : (old ++ counted).Nodup := by
      have hall := List.Nodup.of_map _ hremovable
      rw [← hfront] at hall
      exact (List.nodup_append.mp hall).1
    rw [bytesOutside_eq]
    exact (filter_not_mem_sizes hterminal hfrontNodup hfrontSub).2
  have hsized : trim policy.maxTerminalBytes (fun run => run.bytes) terminal
      ((old ++ counted).map (·.name)) (bytesOutside ((old ++ counted).map (·.name)) terminal) =
        (outdated policy now force terminal).map (·.name) := by
    have hleft : (removableRuns terminal).filter (fun run =>
        decide (run.name ∉ (old ++ counted).map (·.name))) =
          ((removableRuns terminal).drop old.length).drop counted.length := by
      rw [hdrop, ← hrest', List.drop_left, ← hfront]
      exact filter_not_mem_names (hfront.symm ▸ hremovable)
    rw [trim_eq hterminal, hleft, hbytes, ← List.map_append, outdated, ← hpasses]
  have hall : ((outdated policy now force terminal).map (·.name) ++
      (abandonedRuns localeCompare policy now runs).map (·.name)).Nodup := by
    rw [List.nodup_append]
    refine ⟨?_, ?_, ?_⟩
    · exact hremovable.sublist ((outdated_initial terminal).sublist.map _)
    · refine ((List.perm_insertionSort _ _).map _).nodup_iff.mpr ?_
      exact hnames.sublist (List.filter_sublist.map _)
    · -- a terminal run and an abandoned one have different names
      intro a ha b hb heq
      obtain ⟨run, hrun, rfl⟩ := List.mem_map.mp ha
      obtain ⟨run', hrun', rfl⟩ := List.mem_map.mp hb
      have hmem := mem_terminalRuns.mp (hsub ((outdated_initial terminal).subset hrun))
      obtain ⟨hmem', hactive, -⟩ := mem_abandonedRuns hrun'
      obtain rfl := eq_of_name hnames hmem.1 hmem' heq
      rw [hmem.2] at hactive
      exact absurd hactive nofun
  show (abandonedRuns localeCompare policy now runs).foldl _
    (trim policy.maxTerminalBytes _ terminal (trim policy.maxTerminalRuns _ terminal
      (selectOld policy now force terminal) _) _) = _
  rw [hold, hcounted, hsized, List.map_append, ← foldl_addName hall, List.foldl_map]

/-- A terminal run is selected when it has to go. -/
theorem mem_select_iff (hnames : (runs.map (·.name)).Nodup) {run : RetentionPolicyRun}
    (hrun : run ∈ terminalRuns localeCompare runs) :
    run.name ∈ selectRetentionCandidates localeCompare runs policy now force ↔
      run ∈ outdated policy now force (terminalRuns localeCompare runs) := by
  have hterminal := mem_terminalRuns.mp hrun
  rw [select_eq hnames, mem_names_iff hnames (outdated_append_subset runs) hterminal.1,
    List.mem_append]
  refine or_iff_left fun habandoned => ?_
  have hactive := (mem_abandonedRuns habandoned).2.1
  rw [hterminal.2] at hactive
  exact absurd hactive nofun

/-- The selected terminal runs, oldest first. -/
theorem terminalRuns_selected (hnames : (runs.map (·.name)).Nodup) :
    (terminalRuns localeCompare runs).filter (fun run =>
      decide (run.name ∈ selectRetentionCandidates localeCompare runs policy now force)) =
        outdated policy now force (terminalRuns localeCompare runs) := by
  have hselected : (terminalRuns localeCompare runs).filter (fun run =>
      decide (run.name ∈ selectRetentionCandidates localeCompare runs policy now force)) =
        (removableRuns (terminalRuns localeCompare runs)).filter (fun run => decide (run.name ∈
          (outdated policy now force (terminalRuns localeCompare runs)).map (·.name))) := by
    rw [removableRuns, List.filter_filter]
    refine List.filter_congr fun run hrun => ?_
    rw [Bool.eq_iff_iff, Bool.and_eq_true, decide_eq_true_eq, decide_eq_true_eq,
      mem_select_iff hnames hrun, mem_names_iff (terminalRuns_names hnames)
        (outdated_subset _) hrun]
    constructor
    · exact fun h => ⟨h, (List.mem_filter.mp ((outdated_initial _).subset h)).2⟩
    · exact And.left
  obtain ⟨stay, hsplit⟩ : outdated policy now force (terminalRuns localeCompare runs) <+:
    removableRuns (terminalRuns localeCompare runs) := outdated_initial _
  have hnodup : ((removableRuns (terminalRuns localeCompare runs)).map (·.name)).Nodup :=
    (terminalRuns_names hnames).sublist (List.filter_sublist.map _)
  rw [hselected, ← hsplit]
  exact filter_mem_names (hsplit ▸ hnodup)

/-- The cleanup removes the terminal runs in the order of the selection. -/
theorem cleanupOrder_terminal (hnames : (runs.map (·.name)).Nodup) :
    (cleanupOrder localeCompare runs policy now force).filter (·.isTerminal) =
      outdated policy now force (terminalRuns localeCompare runs) := by
  rw [← terminalRuns_selected hnames, cleanupOrder, terminalRuns, filter_insertionSort,
    filter_insertionSort, List.filter_filter, List.filter_filter]
  have hsame : ∀ chosen : List RetentionPolicyRun, (∀ run ∈ chosen, run.isTerminal = true) →
      chosen.insertionSort (ByTime localeCompare RetentionPolicyRun.endedAt) =
        chosen.insertionSort (ByTime localeCompare RetentionPolicyRun.terminalAt) := by
    intro chosen hchosen
    have hmap := List.map_insertionSort (ByTime localeCompare RetentionPolicyRun.endedAt)
      (ByTime localeCompare RetentionPolicyRun.terminalAt) id chosen fun a ha b hb => by
        rw [ByTime, ByTime, endedAt_eq (hchosen a ha), endedAt_eq (hchosen b hb)]
        rfl
    rwa [List.map_id, List.map_id] at hmap
  have hcomm : runs.filter (fun run => run.isTerminal && decide (run.name ∈
      selectRetentionCandidates localeCompare runs policy now force)) =
        runs.filter fun run => decide (run.name ∈
          selectRetentionCandidates localeCompare runs policy now force) && run.isTerminal :=
    List.filter_congr fun run _ => Bool.and_comm _ _
  rw [hcomm]
  refine hsame _ fun run hrun => ?_
  exact (Bool.and_eq_true_iff.mp (List.mem_filter.mp hrun).2).2

omit [Std.TransCmp localeCompare] in
/-- The terminal runs that are left without some of those that go. -/
theorem terminalRuns_without (hnames : (runs.map (·.name)).Nodup)
    {gone stay : List RetentionPolicyRun}
    (hsplit : gone ++ stay = removableRuns (terminalRuns localeCompare runs)) :
    let left := (terminalRuns localeCompare runs).filter fun run =>
      decide (run.name ∉ gone.map (·.name))
    removableRuns left = stay ∧
      ((left.length : Int), totalBytes left) = gone.foldl without
        ((terminalRuns localeCompare runs).length, totalBytes (terminalRuns localeCompare runs)) := by
  intro left
  have hterminal : ((terminalRuns localeCompare runs).map (·.name)).Nodup :=
    terminalRuns_names hnames
  have hnodup : ((gone ++ stay).map (·.name)).Nodup := by
    rw [hsplit]
    exact hterminal.sublist (List.filter_sublist.map _)
  constructor
  · have hcomm : removableRuns left = (removableRuns (terminalRuns localeCompare runs)).filter
        fun run => decide (run.name ∉ gone.map (·.name)) := by
      rw [removableRuns, removableRuns, List.filter_filter, List.filter_filter]
      exact List.filter_congr fun run _ => Bool.and_comm _ _
    rw [hcomm, ← hsplit]
    exact filter_not_mem_names hnodup
  · have hgone : gone.Nodup :=
      (List.nodup_append.mp (List.Nodup.of_map _ hnodup)).1
    have hsub : gone ⊆ terminalRuns localeCompare runs := fun run hrun =>
      List.filter_sublist.subset (hsplit ▸ List.mem_append_left stay hrun)
    obtain ⟨hlength, hbytes⟩ := filter_not_mem_sizes hterminal hgone hsub
    rw [foldl_without]
    exact Prod.ext hlength hbytes

/-- Removing some of the selected runs, the oldest ones first, leaves the rest to be selected. -/
theorem select_without (hnames : (runs.map (·.name)).Nodup) {removed : List RetentionPolicyRun}
    (hremoved : removed <+: cleanupOrder localeCompare runs policy now force) :
    selectRetentionCandidates localeCompare
        (runs.filter fun run => decide (run.name ∉ removed.map (·.name))) policy now force =
      (selectRetentionCandidates localeCompare runs policy now force).filter fun name =>
        decide (name ∉ removed.map (·.name)) := by
  let terminal := terminalRuns localeCompare runs
  let gone := removed.filter (·.isTerminal)
  let kept : RetentionPolicyRun → Bool := fun run => decide (run.name ∉ removed.map (·.name))
  have hsub : removed ⊆ runs := fun run hrun =>
    List.filter_sublist.subset ((List.perm_insertionSort _ _).subset (hremoved.subset hrun))
  -- the removed terminal runs are the first ones that have to go
  obtain ⟨rest, hrest⟩ : gone <+: outdated policy now force terminal := by
    rw [← cleanupOrder_terminal hnames]
    exact hremoved.filter _
  obtain ⟨stay, hstay⟩ : outdated policy now force terminal <+: removableRuns terminal :=
    outdated_initial terminal
  have hsplit : gone ++ (rest ++ stay) = removableRuns terminal := by
    rw [← List.append_assoc, hrest, hstay]
  have hkept : ∀ run ∈ terminal, kept run = decide (run.name ∉ gone.map (·.name)) := by
    intro run hrun
    obtain ⟨hmem, hterminal⟩ := mem_terminalRuns.mp hrun
    have hgone : gone ⊆ runs := fun run' hrun' => hsub (List.filter_sublist.subset hrun')
    rw [decide_eq_decide, mem_names_iff hnames hsub hmem, mem_names_iff hnames hgone hmem,
      List.mem_filter]
    exact not_congr (and_iff_left hterminal).symm
  obtain ⟨hremovable, hsizes⟩ := terminalRuns_without hnames hsplit
  have hleft : outdated policy now force (terminal.filter kept) = rest := by
    rw [List.filter_congr hkept, outdated, hremovable, hsizes]
    have hdrop : rest ++ stay = (removableRuns terminal).drop gone.length := by
      rw [← hsplit, List.drop_left]
    rw [hdrop]
    exact shed_drop hrest.symm
  have hfiltered : (outdated policy now force terminal).filter kept = rest := by
    have hnodup : ((outdated policy now force terminal).map (·.name)).Nodup :=
      (terminalRuns_names hnames).sublist
        (((outdated_initial terminal).sublist.trans List.filter_sublist).map _)
    have hsame : (outdated policy now force terminal).filter kept =
        (outdated policy now force terminal).filter fun run =>
          decide (run.name ∉ gone.map (·.name)) :=
      List.filter_congr fun run hrun => hkept run (outdated_subset terminal hrun)
    rw [hsame, ← hrest]
    exact filter_not_mem_names (hrest ▸ hnodup)
  have hnames' : ((runs.filter kept).map (·.name)).Nodup :=
    hnames.sublist (List.filter_sublist.map _)
  rw [select_eq hnames', select_eq hnames, terminalRuns_filter, abandonedRuns_filter,
    List.filter_map, List.filter_append]
  refine congrArg (List.map _) (congrArg (· ++ _) ?_)
  exact hleft.trans hfiltered.symm


/-- What the selection leaves has nothing more to go: the first removable run that stays is
    neither too old nor above a limit, and no later one is older. -/
theorem stay_bounded {terminal stay : List RetentionPolicyRun}
    (hsorted : (removableRuns terminal).Pairwise fun a b => a.terminalAt ≤ b.terminalAt)
    (hsplit : outdated policy now force terminal ++ stay = removableRuns terminal) {left : Remaining}
    (hleft : left = (outdated policy now force terminal).foldl without
      (terminal.length, totalBytes terminal)) :
    (∀ run ∈ stay, now - run.terminalAt < policy.terminalMaxAgeMs) ∧
      (left.1 ≤ policy.maxTerminalRuns ∧ left.2 ≤ policy.maxTerminalBytes ∨ stay = []) := by
  cases stay with
  | nil => exact ⟨nofun, .inr rfl⟩
  | cons first stay =>
    have hstop : needed policy now force left first = false := by
      rw [hleft]
      exact shed_stops rfl hsplit.symm
    simp only [needed, isOld, Bool.or_eq_false_iff, decide_eq_false_iff_not] at hstop
    obtain ⟨⟨⟨-, hyoung⟩, hcount⟩, hbytes⟩ := hstop
    have hlater : ∀ run ∈ first :: stay, first.terminalAt ≤ run.terminalAt := by
      rw [← hsplit, List.pairwise_append, List.pairwise_cons] at hsorted
      intro run hrun
      rcases List.mem_cons.mp hrun with rfl | hrun
      · exact le_refl _
      · exact hsorted.2.1.1 run hrun
    refine ⟨fun run hrun => ?_, .inl ⟨not_lt.mp hcount, not_lt.mp hbytes⟩⟩
    have hrun := hlater run hrun
    omega

/-- The selection is a shortest one, oldest first, and it stays the same while it is carried
    out. -/
theorem select_minimal (hnames : (runs.map (·.name)).Nodup) :
    let selected := selectRetentionCandidates localeCompare runs policy now force
    let terminal := terminalRuns localeCompare runs
    let chosen := (removableRuns terminal).filter fun run => decide (run.name ∈ selected)
    let left := terminal.filter fun run => decide (run.name ∉ selected)
    -- only removable runs
    (∀ name ∈ selected, ∃ run ∈ runs, run.name = name ∧ run.removable = true) ∧
    -- the oldest terminal ones
    terminal.Perm (runs.filter (·.isTerminal)) ∧
    terminal.Pairwise (ByTime localeCompare RetentionPolicyRun.terminalAt) ∧
    chosen <+: removableRuns terminal ∧
    -- as many as needed
    (∀ run ∈ removableRuns left, now - run.terminalAt < policy.terminalMaxAgeMs) ∧
    ((left.length : Int) ≤ policy.maxTerminalRuns ∧ totalBytes left ≤ policy.maxTerminalBytes ∨
      removableRuns left = []) ∧
    -- and no more
    (∀ others last, chosen = others ++ [last] →
      let more := terminal.filter fun run => decide (run.name ∉ others.map (·.name))
      force = true ∨ policy.terminalMaxAgeMs ≤ now - last.terminalAt ∨
        policy.maxTerminalRuns < (more.length : Int) ∨ policy.maxTerminalBytes < totalBytes more) ∧
    -- also after a part of the cleanup
    ∀ removed, removed <+: cleanupOrder localeCompare runs policy now force →
      selectRetentionCandidates localeCompare
          (runs.filter fun run => decide (run.name ∉ removed.map (·.name))) policy now force =
        selected.filter fun name => decide (name ∉ removed.map (·.name)) := by
  intro selected terminal chosen left
  obtain ⟨stay, hsplit⟩ : outdated policy now force terminal <+: removableRuns terminal :=
    outdated_initial terminal
  have hchosen : chosen = outdated policy now force terminal := by
    have hterminal : terminal.filter (fun run => decide (run.name ∈ selected)) =
        outdated policy now force terminal := terminalRuns_selected hnames
    have hremovable := congrArg (List.filter (·.removable)) hterminal
    have hself : (outdated policy now force terminal).filter (·.removable) =
        outdated policy now force terminal :=
      List.filter_eq_self.mpr fun run hrun =>
        (List.mem_filter.mp ((outdated_initial terminal).subset hrun)).2
    rw [List.filter_filter] at hremovable
    show (terminal.filter _).filter _ = _
    rw [List.filter_filter, ← hself, ← hremovable]
    exact List.filter_congr fun run _ => Bool.and_comm _ _
  have hleft : left = terminal.filter fun run => decide (run.name ∉
      (outdated policy now force terminal).map (·.name)) := by
    refine List.filter_congr fun run hrun => ?_
    rw [decide_eq_decide, mem_select_iff hnames hrun,
      mem_names_iff (terminalRuns_names hnames) (outdated_subset terminal) hrun]
  obtain ⟨hremovable, hsizes⟩ := terminalRuns_without hnames hsplit
  rw [← hleft] at hremovable hsizes
  have hsorted : (removableRuns terminal).Pairwise fun a b => a.terminalAt ≤ b.terminalAt :=
    removableRuns_sorted localeCompare runs
  obtain ⟨hyoung, hbounds⟩ := stay_bounded hsorted hsplit hsizes
  refine ⟨?_, terminalRuns_perm localeCompare runs, terminalRuns_sorted localeCompare runs, ?_, ?_,
    ?_, ?_, fun removed => select_without hnames⟩
  · intro name hname
    have hselect : selected = _ := select_eq hnames
    rw [hselect] at hname
    obtain ⟨run, hrun, rfl⟩ := List.mem_map.mp hname
    refine ⟨run, outdated_append_subset runs hrun, rfl, ?_⟩
    rcases List.mem_append.mp hrun with hrun | hrun
    · exact (List.mem_filter.mp ((outdated_initial _).subset hrun)).2
    · exact (mem_abandonedRuns hrun).2.2
  · exact hchosen ▸ outdated_initial terminal
  · exact hremovable ▸ hyoung
  · exact hremovable ▸ hbounds
  · intro others last hlast more
    have hgone : outdated policy now force terminal = others ++ [last] := hchosen ▸ hlast
    have hothers : others ++ (last :: stay) = removableRuns terminal := by
      rw [← hsplit, hgone, List.append_assoc]
      rfl
    have hneeded := shed_last hgone
    rw [← (terminalRuns_without hnames hothers).2] at hneeded
    simp only [needed, isOld, Bool.or_eq_true, decide_eq_true_eq] at hneeded
    rcases hneeded with ((hforce | hold) | hcount) | hbytes
    · exact .inl hforce
    · exact .inr (.inl hold)
    · exact .inr (.inr (.inl hcount))
    · exact .inr (.inr (.inr hbytes))

def endedRun (name : String) (activity : ManagedRunActivity) (endedAt : Int) : RetentionPolicyRun where
  name := js name
  bytes := 10
  activity := activity
  metadata := .terminal .completed endedAt endedAt (by decide)

/-- Of four runs that ended two may stay, and the oldest has an owner. -/
def fourRuns : List RetentionPolicyRun :=
  [endedRun "c" .inactive 30, endedRun "a" .owned 10, endedRun "d" .inactive 40,
    endedRun "b" .inactive 20]

/-- The second and the third go; when the second is gone, the third still goes. -/
theorem select_fourRuns :
    let policy : RunRetentionPolicy := ⟨1000, 2, 1000, 1000⟩
    let selected := selectRetentionCandidates (List.compareLex compare) fourRuns policy 100 false
    let terminal := terminalRuns (List.compareLex compare) fourRuns
    let left := terminal.filter fun run => decide (run.name ∉ selected)
    selected = [js "b", js "c"] ∧
      (∀ name ∈ selected, ∃ run ∈ fourRuns, run.name = name ∧ run.removable = true) ∧
      terminal.Pairwise (ByTime (List.compareLex compare) RetentionPolicyRun.terminalAt) ∧
      (left.length : Int) ≤ 2 ∧ totalBytes left ≤ 1000 ∧
      2 < ((terminal.filter fun run => decide (run.name ∉ [js "b"])).length : Int) ∧
      selectRetentionCandidates (List.compareLex compare)
        (fourRuns.filter fun run => decide (run.name ∉ [js "b"])) policy 100 false = [js "c"] := by
  intro policy selected terminal left
  have hselected : selected = [js "b", js "c"] := by decide +kernel
  obtain ⟨hremovable, -, hsorted, -, -, hbounds, hneeded, hresume⟩ :=
    @select_minimal (List.compareLex compare) inferInstance fourRuns policy 100 false (by decide)
  obtain ⟨hruns, hbytes⟩ := hbounds.resolve_right (by decide +kernel)
  refine ⟨hselected, hremovable, hsorted, hruns, hbytes, ?_, ?_⟩
  · -- neither age nor bytes make the third run go
    rcases hneeded [endedRun "b" .inactive 20] (endedRun "c" .inactive 30) (by decide +kernel) with
      hforce | hage | hcount | hsize
    · exact absurd hforce (by decide)
    · exact absurd hage (by decide +kernel)
    · exact hcount
    · exact absurd hsize (by decide +kernel)
  · exact (hresume [endedRun "b" .inactive 20] (by decide +kernel)).trans (by decide +kernel)

end Selection

end PiRlm.Runtime.RunRetention

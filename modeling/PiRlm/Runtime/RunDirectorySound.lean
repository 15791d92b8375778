/-
  PiRlm.Runtime.RunDirectorySound

  What a claim of a run directory writes is read back as the same document.

  An execution in which no operation fails is followed step by step; the number of octets that
  a read gives is the only thing left open in it.
-/
import PiRlm.Lib.JsonLength
import PiRlm.Runtime.RunDirectory
import PiRlm.Runtime.RunManifestSound

namespace PiRlm.Runtime.RunDirectory

open PiRlm.Lib PiRlm.Lib.Json PiRlm.Core PiRlm.Shell PiRlm.Runtime.Manifest

-- ============================================================================
-- Entries
-- ============================================================================

section Entries

variable {s : RunDirectory} {name name' : JsString} {file : RunFile}

theorem lookup_remove : (s.remove name).lookup name = none := by
  simp [lookup, remove]

theorem lookup_remove_ne (h : name' ≠ name) : (s.remove name).lookup name' = s.lookup name' := by
  rw [lookup, lookup, remove, List.find?_filter]
  congr 1
  funext file
  by_cases hfile : file.name = name'
  · simp [hfile, h]
  · simp [hfile]

theorem lookup_add (h : s.lookup file.name = none) :
    (s.add file).lookup file.name = some file := by
  rw [lookup] at h
  rw [lookup, add, List.find?_append, h]
  simp

theorem lookup_add_ne (h : name ≠ file.name) : (s.add file).lookup name = s.lookup name := by
  rw [lookup, lookup, add, List.find?_append]
  simp [h.symm]

end Entries

theorem manifestTempFile_ne_lock (nonce : JsString) : manifestTempFile nonce ≠ runLockFile := by
  intro h
  have htake := congrArg (List.take 2) h
  revert htake
  show ¬(js ".m" = js ".p")
  decide

-- ============================================================================
-- Operations
-- ============================================================================

/-- Every execution without failed operations ends with this outcome in this state. -/
abbrev Yields {α : Type} (program : Io α) (r : Except RunDirectoryFailure α)
    (s s' : RunDirectory) : Prop :=
  program.EndsIn runDirectoryDevice r s s'

section Operations

variable {s s' t : RunDirectory} {name : JsString} {file : RunFile}

attribute [local simp] effect

theorem run_yields {o : RunDirectoryOp} {r : Except RunDirectoryFailure o.Reply}
    (h : ∀ count, s.effect count o = (s', r)) : Yields (run o) r s s' := by
  apply Program.EndsIn.perform
  intro l hl
  cases l with
  | done count => exact h count
  | failsBefore | failsAfter | torn => exact absurd hl nofun

theorem closeAfter_yields {close operation : Io Unit} {r : Except RunDirectoryFailure Unit}
    (hoperation : Yields operation r s s') (hclose : Yields close (.ok ()) s' t) :
    Yields (closeAfter close operation) r s t := by
  refine hoperation.attempt.bind (hclose.attempt.bind ?_)
  cases r with
  | ok => exact .pure
  | error => exact .raise

theorem syncEntries_yields : Yields syncEntries (.ok ()) s s := by
  refine (run_yields fun _ => rfl).bind ?_
  exact closeAfter_yields (run_yields fun _ => rfl) (run_yields fun _ => rfl)

theorem createFile_yields (h : s.lookup name = none) :
    Yields (run (.createFile name)) (.ok ()) s (s.add ⟨name, true, 1, 0o600, []⟩) := by
  apply run_yields
  intro count
  simp [h]

theorem writeFile_yields (h : s.lookup name = some file) (bytes : List Byte) :
    Yields (run (.writeFile name bytes)) (.ok ()) s
      ((s.remove name).add { file with content := bytes }) := by
  apply run_yields
  intro count
  simp [h]

theorem rename_yields {target : JsString} (h : s.lookup name = some file) :
    Yields (run (.rename name target)) (.ok ()) s
      (((s.remove name).remove target).add { file with name := target }) := by
  apply run_yields
  intro count
  simp [h]

theorem unlink_yields (h : s.lookup name = some file) :
    Yields (run (.unlink name)) (.ok ()) s (s.remove name) := by
  apply run_yields
  intro count
  simp [h]

theorem stat_yields (h : s.lookup name = some file) :
    Yields (run (.stat name)) (.ok file) s s := by
  apply run_yields
  intro count
  simp [h]

end Operations

-- ============================================================================
-- The claim
-- ============================================================================

/-- A private file as `open` creates it. -/
def privateFile (name : JsString) (bytes : List Byte) : RunFile := ⟨name, true, 1, 0o600, bytes⟩

/-- A file that has been created and then written. -/
def written (s : RunDirectory) (name : JsString) (bytes : List Byte) : RunDirectory :=
  ((s.add (privateFile name [])).remove name).add (privateFile name bytes)

/-- A file that has been written and then renamed to be the manifest. -/
def published (s : RunDirectory) (temp : JsString) (bytes : List Byte) : RunDirectory :=
  (((s.written temp bytes).remove temp).remove runManifestFile).add
    (privateFile runManifestFile bytes)

section Written

variable {s : RunDirectory} {name name' : JsString} {bytes : List Byte}

theorem lookup_written : (s.written name bytes).lookup name = some (privateFile name bytes) :=
  lookup_add lookup_remove

theorem lookup_written_ne (h : name' ≠ name) : (s.written name bytes).lookup name' = s.lookup name' := by
  rw [written, lookup_add_ne h, lookup_remove_ne h, lookup_add_ne h]

theorem lookup_published {temp : JsString} :
    (s.published temp bytes).lookup runManifestFile = some (privateFile runManifestFile bytes) :=
  lookup_add lookup_remove

theorem remove_add (h : s.lookup name = none) :
    (s.add (privateFile name bytes)).remove name = s := by
  have hkept : s.files.filter (fun file => decide (file.name ≠ name)) = s.files := by
    rw [List.filter_eq_self]
    intro file hfile
    rw [lookup, List.find?_eq_none] at h
    simpa using h file hfile
  simp only [remove, add, List.filter_append, hkept]
  simp [privateFile]

end Written

variable {N : Type} [JsonNumber N] {document : RunManifestDocument N} {allowed : List JsString}
  {s : RunDirectory}

theorem lockText_ok (document : RunManifestDocument N) :
    ∃ text, lockText document = .ok text :=
  ⟨_, Manifest.canonicalText_ok (show 1 ≤ maxJsonDepth by decide)⟩

theorem createLock_yields (h : s.lookup runLockFile = none) :
    Yields createLock (.ok ()) s (s.add (privateFile runLockFile [])) :=
  (createFile_yields h).attempt.bind .pure

/-- The entries that a claim objects to. -/
def strays (s : RunDirectory) (allowed : List JsString) : List JsString :=
  (s.files.map RunFile.name).filter fun name =>
    decide (name ≠ runLockFile) && decide (name ∉ allowed)

theorem strays_add_lock (s : RunDirectory) (allowed : List JsString) :
    (s.add (privateFile runLockFile [])).strays allowed = s.strays allowed := by
  simp [strays, add, privateFile]

/-- The lock is written in a directory without other entries than those allowed. -/
theorem fillLock_yields (hlock : s.lookup runLockFile = some (privateFile runLockFile []))
    (hstrays : s.strays allowed = []) {text : JsString} (htext : lockText document = .ok text) :
    Yields (fillLock document allowed) (.ok ()) s
      ((s.remove runLockFile).add (privateFile runLockFile (utf8 text))) := by
  refine Program.EndsIn.bind (run_yields fun _ => rfl) ?_
  show Yields (if s.strays allowed ≠ [] then _ else _) _ _ _
  rw [if_neg (not_not.mpr hstrays), htext]
  refine Program.EndsIn.bind .pure ?_
  exact (writeFile_yields hlock (utf8 text)).bind (run_yields fun _ => rfl)

/-- An entry that is not allowed makes the claim throw. -/
theorem fillLock_throws (hstrays : s.strays allowed ≠ []) :
    Yields (fillLock document allowed)
      (.error (.directory .notEmpty (js "run directory contains existing state"))) s s := by
  refine Program.EndsIn.bind (run_yields fun _ => rfl) ?_
  show Yields (if s.strays allowed ≠ [] then _ else _) _ _ _
  rw [if_pos hstrays]
  exact .raise

theorem claimLock_yields (hlock : s.lookup runLockFile = none) (hstrays : s.strays allowed = [])
    {text : JsString} (htext : lockText document = .ok text) :
    Yields (claimLock document allowed) (.ok ()) s (s.written runLockFile (utf8 text)) := by
  have hcreated : (s.add (privateFile runLockFile [])).lookup runLockFile =
      some (privateFile runLockFile []) := lookup_add hlock
  refine (createLock_yields hlock).bind ?_
  have hfill := fillLock_yields hcreated ((strays_add_lock s allowed).trans hstrays) htext
  exact (closeAfter_yields hfill (run_yields fun _ => rfl)).attempt.bind .pure

/-- The lock is removed again. -/
theorem claimLock_throws (hlock : s.lookup runLockFile = none) (hstrays : s.strays allowed ≠ []) :
    Yields (claimLock document allowed)
      (.error (.directory .notEmpty (js "run directory contains existing state"))) s s := by
  have hcreated : (s.add (privateFile runLockFile [])).lookup runLockFile =
      some (privateFile runLockFile []) := lookup_add hlock
  refine (createLock_yields hlock).bind ?_
  have hfill : Yields (fillLock document allowed)
      (.error (.directory .notEmpty (js "run directory contains existing state"))) _ _ :=
    fillLock_throws (by rwa [strays_add_lock])
  refine (closeAfter_yields hfill (run_yields fun _ => rfl)).attempt.bind ?_
  have hunlink : Yields (cleanupFile runLockFile) (.ok ()) (s.add (privateFile runLockFile [])) s := by
    refine Program.EndsIn.bind (unlink_yields hcreated).attempt ?_
    rw [remove_add hlock]
    exact .pure
  refine hunlink.attempt.bind (syncEntries_yields.attempt.bind ?_)
  exact .raise

theorem publish_yields {temp serialized : JsString} (htemp : s.lookup temp = none) :
    Yields (publish temp serialized) (.ok ()) s (s.published temp (utf8 serialized)) := by
  refine syncEntries_yields.attempt.bind ((createFile_yields htemp).attempt.bind ?_)
  have hcreated : (s.add (privateFile temp [])).lookup temp = some (privateFile temp []) :=
    lookup_add htemp
  have hwrite : Yields (closeAfter (run (.close temp)) do
      run (.writeFile temp (utf8 serialized))
      run (.sync temp)) (.ok ()) (s.add (privateFile temp []))
        (s.written temp (utf8 serialized)) :=
    closeAfter_yields ((writeFile_yields hcreated _).bind (run_yields fun _ => rfl))
      (run_yields fun _ => rfl)
  have hrename : Yields (run (.rename temp runManifestFile)) (.ok ())
      (s.written temp (utf8 serialized)) (s.published temp (utf8 serialized)) :=
    rename_yields lookup_written
  refine (hwrite.bind hrename).attempt.bind ?_
  exact syncEntries_yields.attempt.bind .pure

/-- A claim of a directory with room for it writes the text of the document. -/
theorem claimRunDirectory_yields {serialized : JsString}
    (hserialized : serializeDocument document = .ok serialized)
    (hsize : (utf8 serialized).length ≤ maxRunManifestBytes)
    (hlock : s.lookup runLockFile = none)
    (htemp : s.lookup (manifestTempFile document.manifest.nonce) = none)
    (hstrays : s.strays allowed = []) :
    ∃ s', Yields (claimRunDirectory document allowed) (.ok ()) s s' ∧
      s'.lookup runManifestFile = some (privateFile runManifestFile (utf8 serialized)) := by
  obtain ⟨text, htext⟩ := lockText_ok document
  refine ⟨(s.written runLockFile (utf8 text)).published
    (manifestTempFile document.manifest.nonce) (utf8 serialized), ?_, lookup_published⟩
  rw [claimRunDirectory, hserialized]
  show Yields (if _ then _ else _) _ _ _
  rw [if_neg (not_lt.mpr hsize)]
  refine (claimLock_yields hlock hstrays htext).bind (publish_yields ?_)
  rw [lookup_written_ne (manifestTempFile_ne_lock _)]
  exact htemp

-- ============================================================================
-- The reader
-- ============================================================================

section Reads

variable {name : JsString} {file : RunFile}

theorem withFile_yields {α : Type} {body : Io α} {r : Except RunDirectoryFailure α}
    (hfile : s.lookup name = some file) (hbody : Yields body r s s) :
    Yields (withFile name body) r s s := by
  have hopen : Yields (run (.openFile name)) (.ok ()) s s := by
    apply run_yields
    intro count
    rw [effect, hfile]
    rfl
  refine hopen.bind (hbody.attempt.bind ?_)
  refine Program.EndsIn.bind (run_yields fun _ => rfl) ?_
  cases r with
  | ok => exact .pure
  | error => exact .raise

/-- A read gives some of the octets that are left. -/
theorem read_ends {offset length : Nat} (hfile : s.lookup name = some file)
    {Q : Except RunDirectoryFailure (List Byte) → RunDirectory → Prop}
    (hQ : ∀ count, 0 < count → Q (.ok ((file.content.drop offset).take (min length count))) s) :
    (run (.read name offset length)).Ends runDirectoryDevice Q s := by
  apply Program.Ends.perform
  intro l hl
  cases l with
  | done count =>
    show Q (effect count s (.read name offset length)).2 (effect count s (.read name offset length)).1
    rw [effect, hfile]
    exact hQ (max 1 count) (Nat.lt_of_lt_of_le Nat.one_pos (le_max_left 1 count))
  | failsBefore | failsAfter | torn => exact absurd hl nofun

/-- The loop reads the whole file, in chunks of any size. -/
theorem readLoop_yields (hfile : s.lookup name = some file) {fuel : Nat} {octets rest : List Byte}
    (hcontent : file.content = octets ++ rest) (hfuel : rest.length ≤ fuel) :
    Yields (readLoop name file.content.length fuel octets) (.ok file.content) s s := by
  induction fuel generalizing octets rest with
  | zero =>
    obtain rfl := List.eq_nil_of_length_eq_zero (Nat.le_zero.mp hfuel)
    rw [hcontent, List.append_nil, readLoop]
    exact .pure
  | succ fuel ih =>
    rw [readLoop]
    have hlength := congrArg List.length hcontent
    rw [List.length_append] at hlength
    by_cases hlt : octets.length < file.content.length
    · rw [if_pos hlt]
      refine Program.EndsIn.bind (run_yields fun _ => rfl) ?_
      apply Program.Ends.bind
      apply read_ends hfile
      intro count hcount
      have hdrop : file.content.drop octets.length = rest := by
        rw [hcontent, List.drop_left]
      rw [hdrop]
      set size := min (min (64 * 1024) (file.content.length - octets.length)) count with hsize
      have hpos : 0 < size := by omega
      have hne : rest.take size ≠ [] := by
        rw [ne_eq, List.take_eq_nil_iff, not_or]
        refine ⟨by omega, ?_⟩
        rintro rfl
        rw [List.length_nil] at hlength
        omega
      show Program.Ends _ (if rest.take size = [] then _ else _) _ _
      rw [if_neg hne]
      have hnext : file.content = octets ++ rest.take size ++ rest.drop size := by
        rw [List.append_assoc, List.take_append_drop]
        exact hcontent
      apply ih hnext
      rw [List.length_drop]
      omega
    · rw [if_neg hlt]
      have hnil : rest = [] := by
        apply List.eq_nil_of_length_eq_zero
        omega
      rw [hcontent, hnil, List.append_nil]
      exact .pure

theorem readBounded_yields {maximum : Nat} (hfile : s.lookup name = some file)
    (hbounded : boundedPrivate file maximum = true) :
    Yields (readBoundedRunDirectoryFile name maximum) (.ok file.content) s s := by
  refine Program.EndsIn.bind (run_yields fun _ => rfl) (withFile_yields hfile ?_)
  refine (stat_yields hfile).bind ?_
  rw [hbounded]
  refine Program.EndsIn.bind (run_yields fun _ => rfl) ?_
  refine (readLoop_yields hfile (List.nil_append _).symm (le_refl _)).bind ?_
  refine (stat_yields hfile).bind ?_
  rw [if_neg (by simp)]
  exact Program.EndsIn.bind (run_yields fun _ => rfl) .pure

end Reads

-- ============================================================================
-- Documents
-- ============================================================================

section Documents

variable {N : Type} [JsonNumber N] {document : RunManifestDocument N} {s : RunDirectory}

/-- The text that a value is stored as. -/
def storedText (v : Json N) : JsString := (canonical v).render ++ [0x0A]

theorem storedText_wellFormed (v : Json N) : WellFormed (storedText v) :=
  (render_wellFormed _).append (by decide)

theorem storedText_octets (v : Json N) : 1 ≤ (utf8 (storedText v)).length := by
  rw [Nat.one_le_iff_ne_zero, ne_eq, List.length_eq_zero_iff]
  intro hnil
  have hdecoded := utf8Decode_utf8 (storedText_wellFormed v)
  rw [hnil] at hdecoded
  have hempty : storedText v = [] := hdecoded.symm
  exact absurd (List.append_eq_nil_iff.mp hempty).2 nofun

/-- The order of the members does not count. -/
theorem lengthBound_canonical {v : Json N} (h : v.Owned) :
    (canonical v).lengthBound = v.lengthBound := by
  induction v using Json.ind with
  | null | bool | num | str => rfl
  | arr items ih =>
    rw [owned_arr] at h
    rw [canonical_arr, lengthBound, lengthBound, lengthBoundItems_eq, lengthBoundItems_eq,
      List.map_map]
    congr 2
    apply List.map_congr_left
    intro v hv
    exact congrArg (· + 1) (ih v hv (h v hv))
  | obj fields ih =>
    rw [owned_obj] at h
    rw [canonical_obj_members, lengthBound, lengthBound, lengthBoundFields_eq,
      lengthBoundFields_eq, ((canonicalMembers_perm h.1.1).map _).sum_eq, List.map_map]
    congr 2
    apply List.map_congr_left
    intro f hf
    simp only [Function.comp, memberBound, ih f hf (h.2 f hf)]

theorem storedText_le {v : Json N} (h : v.Owned) :
    (utf8 (storedText v)).length ≤ v.lengthBound + 1 := by
  have hbound := octetLength_render_le (canonical v)
  rw [lengthBound_canonical h] at hbound
  have hlength : (utf8 (storedText v)).length = octetLength (canonical v).render + 1 :=
    octetLength_append (render_wellFormed _) [0x0A]
  omega

theorem parse_storedText (v : Json N) : Json.parse (storedText v) = some (canonical v) := by
  rw [Json.parse, storedText, parseRaw_render_newline, Option.map_some,
    revive_eq_self (canonical_owned v)]

theorem serializeDocument_eq_ok {serialized : JsString} (howned : document.toJson.Owned) :
    serializeDocument document = .ok serialized ↔
      document.toJson.depth ≤ maxJsonDepth ∧ storedText document.toJson = serialized := by
  constructor
  · intro h
    obtain ⟨plain, hplain, h⟩ := bind_eq_ok.mp h
    obtain ⟨hdepth, rfl⟩ := (plainJson_eq_ok howned).mp hplain
    rw [Manifest.canonicalText_ok hdepth] at h
    exact ⟨hdepth, Except.ok.inj h⟩
  · rintro ⟨hdepth, rfl⟩
    rw [serializeDocument, plainJson_ok howned hdepth]
    refine bind_eq_ok.mpr ⟨_, rfl, ?_⟩
    rw [Manifest.canonicalText_ok hdepth]
    rfl

theorem storedDocument_eq_ok {text : JsString} {v w : Json N} (hv : v.Owned) :
    storedDocument text v = .ok w ↔ v = w ∧ parseManifestDocument v = .ok v ∧
      v.depth ≤ maxJsonDepth ∧ storedText v = text := by
  constructor
  · intro h
    obtain ⟨document, hdocument, h⟩ := bind_eq_ok.mp h
    obtain ⟨plain, hplain, h⟩ := bind_eq_ok.mp h
    obtain ⟨stored, hstored, h⟩ := bind_eq_ok.mp h
    obtain ⟨u, hsame, h⟩ := bind_eq_ok.mp h
    obtain rfl := Except.ok.inj h
    obtain ⟨rfl, -⟩ := parseManifestDocument_eq_ok hv hdocument
    obtain ⟨hdepth, rfl⟩ := (plainJson_eq_ok hv).mp hplain
    obtain ⟨-, rfl⟩ := Manifest.canonicalText_eq_ok.mp hstored
    exact ⟨rfl, hdocument, hdepth, of_decide_eq_true (Manifest.require_eq_ok.mp hsame)⟩
  · rintro ⟨rfl, hdocument, hdepth, htext⟩
    refine bind_eq_ok.mpr ⟨v, hdocument, bind_eq_ok.mpr ⟨v, plainJson_ok hv hdepth _, ?_⟩⟩
    refine bind_eq_ok.mpr ⟨_, Manifest.canonicalText_ok hdepth, ?_⟩
    exact bind_eq_ok.mpr ⟨(), Manifest.require_eq_ok.mpr (decide_eq_true htext), rfl⟩

/-- A text stands for a document that the reader accepts exactly when it is the text that the
    document is stored as. -/
theorem parseDocument_eq_ok {text : JsString} {v : Json N} :
    parseDocument text = .ok v ↔ v = canonical v ∧ parseManifestDocument v = .ok v ∧
      v.depth ≤ maxJsonDepth ∧ storedText v = text := by
  constructor
  · intro h
    rw [parseDocument] at h
    cases hparse : Json.parse (N := N) text with
    | none =>
      rw [hparse] at h
      exact absurd h nofun
    | some parsed =>
      rw [hparse] at h
      dsimp only at h
      cases hstored : storedDocument text parsed with
      | error e =>
        rw [hstored] at h
        exact absurd h nofun
      | ok w =>
        rw [hstored] at h
        obtain rfl := Except.ok.inj h
        obtain ⟨rfl, hdocument, hdepth, htext⟩ :=
          (storedDocument_eq_ok (parse_owned hparse)).mp hstored
        rw [← htext, parse_storedText] at hparse
        exact ⟨(Option.some.inj hparse).symm, hdocument, hdepth, htext⟩
  · rintro ⟨hcanonical, hdocument, hdepth, rfl⟩
    have howned : v.Owned := hcanonical ▸ canonical_owned v
    have hparse : Json.parse (storedText v) = some v :=
      (parse_storedText v).trans (congrArg some hcanonical.symm)
    have hstored := (storedDocument_eq_ok howned).mpr ⟨rfl, hdocument, hdepth, rfl⟩
    rw [parseDocument, hparse]
    show (storedDocument (storedText v) v).mapError _ = _
    rw [hstored]
    rfl

/-- A stored document is read, whatever the sizes of the reads. -/
theorem readRunManifest_yields {v : Json N} (hcanonical : v = canonical v)
    (hdocument : parseManifestDocument v = .ok v) (hdepth : v.depth ≤ maxJsonDepth)
    (hsize : (utf8 (storedText v)).length ≤ maxRunManifestBytes)
    (hfile : s.lookup runManifestFile =
      some (privateFile runManifestFile (utf8 (storedText v)))) :
    Yields (readRunManifest N) (.ok v) s s := by
  have hbounded : boundedPrivate (privateFile runManifestFile (utf8 (storedText v)))
      maxRunManifestBytes = true := by
    have hoctets := storedText_octets v
    simp [boundedPrivate, privateFile, hoctets, hsize]
  have hread : Yields (readDocument N) (.ok v) s s := by
    have hparse : parseDocument (utf8Decode (utf8 (storedText v))) = .ok v := by
      rw [utf8Decode_utf8 (storedText_wellFormed v), parseDocument_eq_ok]
      exact ⟨hcanonical, hdocument, hdepth, rfl⟩
    refine (readBounded_yields hfile hbounded).bind ?_
    dsimp only [privateFile]
    rw [hparse]
    exact .pure
  exact hread.attempt.bind .pure

/-- Whatever a directory holds and whichever operations fail: what is read is a document that
    the parser accepts as it is. -/
theorem readRunManifest_returns : (readRunManifest N).Returns fun v =>
    v = canonical v ∧ parseManifestDocument v = .ok v := by
  have hread : (readDocument N).Returns fun v =>
      v = canonical v ∧ parseManifestDocument v = .ok v := by
    apply (Program.Returns.any _).bind
    intro octets _
    cases hparse : parseDocument (N := N) (utf8Decode octets) with
    | ok document =>
      obtain ⟨hcanonical, hdocument, -⟩ := parseDocument_eq_ok.mp hparse
      exact ⟨hcanonical, hdocument⟩
    | error error => trivial
  apply hread.attempt.bind
  intro result hresult
  cases result with
  | ok document => exact hresult document rfl
  | error error =>
    dsimp only
    cases controlFailure error with
    | some control => trivial
    | none =>
      dsimp only
      split
      · trivial
      · split_ifs
        · trivial
        · trivial

end Documents

end PiRlm.Runtime.RunDirectory

/-
  PiRlm.Runtime.RunInspectionPages

  The pages of an inspection.

  Following the cursors of the pages lists every item of the journal prefix that the first
  page has seen, while the journal grows.  A cursor is only good for its own view, filter
  and run.
-/
import Mathlib
import PiRlm.Runtime.RunInspectionSound

namespace PiRlm.Runtime

open PiRlm.Lib PiRlm.Core PiRlm.Shell

variable {N : Type} [JsonNumber N]

-- ============================================================================
-- The authority of a journal that grows
-- ============================================================================

/-- The journal of a run has grown, within its limit, and nothing else has changed. -/
structure Grown (files files' : ManagedRunFiles) : Prop where
  rest : files' = { files with journal := files'.journal }
  journal : ∃ before after, files.journal = some before ∧
    files'.journal = some { before with bytes := after } ∧ before.bytes <+: after ∧
    after.length ≤ maxRecoveryJournalBytes

section Authority

variable {validation : RunValidation N}

theorem readPrivateFile_eq_ok {name : JsString} {file : Option PrivateFile} {maxBytes : Nat}
    {code : RunRecoveryErrorCode} {prefixBytes : Option Nat} {bytes : List Byte} :
    readPrivateFile name file maxBytes code prefixBytes = .ok bytes ↔
      ∃ stored, file = some stored ∧ stored.isFile = true ∧ stored.nlink = 1 ∧
        stored.mode % 0o100 = 0 ∧ stored.bytes.length ≤ maxBytes ∧
        prefixBytes.getD stored.bytes.length ≤ stored.bytes.length ∧
        bytes = stored.bytes.take (prefixBytes.getD stored.bytes.length) := by
  rcases file with _ | stored
  · exact ⟨nofun, fun ⟨_, h, _⟩ => absurd h nofun⟩
  rw [readPrivateFile]
  constructor
  · intro h
    split at h
    · exact absurd h nofun
    · rename_i hprivate
      simp only [not_or, Bool.not_eq_true', Bool.not_eq_false, not_lt, not_not] at hprivate
      exact ⟨stored, rfl, hprivate.1, hprivate.2.1, hprivate.2.2.1, hprivate.2.2.2.1,
        hprivate.2.2.2.2.1, (Except.ok.inj h).symm⟩
  · rintro ⟨stored', hstored, hfile, hlink, hmode, hlength, hread, rfl⟩
    obtain rfl := Option.some.inj hstored
    refine if_neg ?_
    simp only [not_or, Bool.not_eq_true', Bool.not_eq_false, not_lt, not_not]
    exact ⟨hfile, hlink, hmode, hlength, hread, hread.trans hlength⟩

/-- What `readAuthority` has checked. -/
structure Authority (validation : RunValidation N) (files : ManagedRunFiles)
    (cursor : Option CursorV1) (snapshot : AuthoritySnapshot N) (raw : List Byte)
    (parsed : JournalScan N) : Prop where
  directory : files.isDirectory = true ∧ files.mode % 0o100 = 0
  manifest : readManifest validation files = .ok snapshot.document
  lock : readLock files snapshot.document = .ok ()
  journal : readPrivateFile (js "events.jsonl") files.journal maxRecoveryJournalBytes
    .journalCorrupt (cursor.map (·.prefixBytes)) = .ok raw
  scan : scanJournal raw = .ok parsed
  whole : cursor.isSome → parsed.verifiedBytes = raw.length
  nonempty : parsed.events.length ≠ 0
  bounded : parsed.events.length ≤ maxRunInspectionEvents
  model : validation.validateRecoveryJournal snapshot.document parsed.events = .ok snapshot.model
  verified : snapshot.verified = raw.take parsed.verifiedBytes
  events : snapshot.events = parsed.events

theorem readAuthority_eq_ok {files : ManagedRunFiles} {cursor : Option CursorV1}
    {snapshot : AuthoritySnapshot N} :
    readAuthority validation files cursor = .ok snapshot ↔
      ∃ raw parsed, Authority validation files cursor snapshot raw parsed := by
  constructor
  · intro h
    rw [readAuthority] at h
    split at h
    · exact absurd h nofun
    rename_i hdirectory
    simp only [not_or, Bool.not_eq_true', Bool.not_eq_false, not_not] at hdirectory
    obtain ⟨document, hmanifest, h⟩ := bind_eq_ok.mp h
    obtain ⟨u, hlock, h⟩ := bind_eq_ok.mp h
    obtain ⟨raw, hraw, h⟩ := bind_eq_ok.mp h
    split at h
    · exact absurd h nofun
    rename_i parsed hscan
    split at h
    · exact absurd h nofun
    rename_i hwhole
    split at h
    · exact absurd h nofun
    rename_i hnonempty
    split at h
    · exact absurd h nofun
    rename_i hbounded
    obtain ⟨model, hmodel, h⟩ := bind_eq_ok.mp h
    obtain rfl := Except.ok.inj h
    exact ⟨raw, parsed, hdirectory, hmanifest, hlock, hraw, hscan,
      fun hcursor => not_not.mp fun hne => hwhole ⟨hcursor, hne⟩, hnonempty, not_lt.mp hbounded,
      hmodel, rfl, rfl⟩
  · rintro ⟨raw, parsed, h⟩
    have hdirectory : ¬((!files.isDirectory) = true ∨ files.mode % 0o100 ≠ 0) := by
      rw [h.directory.1, h.directory.2]
      decide
    rw [readAuthority, if_neg hdirectory]
    refine bind_eq_ok.mpr ⟨_, h.manifest, bind_eq_ok.mpr ⟨_, h.lock, bind_eq_ok.mpr
      ⟨_, h.journal, ?_⟩⟩⟩
    rw [h.scan]
    dsimp only
    rw [if_neg fun hcursor => hcursor.2 (h.whole hcursor.1), if_neg h.nonempty,
      if_neg (not_lt.mpr h.bounded), h.model]
    refine congrArg Except.ok ?_
    rw [← h.verified, ← h.events]

namespace Authority

variable {files files' : ManagedRunFiles} {cursor : Option CursorV1}
  {snapshot : AuthoritySnapshot N} {raw : List Byte} {parsed : JournalScan N}

theorem verifiedBytes_eq (h : Authority validation files cursor snapshot raw parsed) :
    parsed.verifiedBytes = (completeOctets raw).length := by
  have hscan := h.scan
  rw [scanJournal_eq] at hscan
  obtain ⟨st, -, rfl⟩ := map_eq_ok.mp hscan
  rfl

/-- The prefix of an authority is the complete lines of what has been read. -/
theorem verified_eq (h : Authority validation files cursor snapshot raw parsed) :
    snapshot.verified = completeOctets raw := by
  rw [h.verified, h.verifiedBytes_eq, length_completeOctets]
  rfl

theorem verified_pos (h : Authority validation files cursor snapshot raw parsed) :
    1 ≤ snapshot.verified.length := by
  have hscan := h.scan
  rw [scanJournal_eq, ← h.verified_eq] at hscan
  rcases hverified : snapshot.verified with _ | ⟨b, rest⟩
  · -- without a complete line there is no event
    rw [hverified] at hscan
    obtain ⟨st, hst, rfl⟩ := map_eq_ok.mp hscan
    obtain rfl := Except.ok.inj hst
    exact absurd rfl h.nonempty
  · exact Nat.succ_le_succ (Nat.zero_le _)

theorem verified_length_le (h : Authority validation files cursor snapshot raw parsed) :
    snapshot.verified.length ≤ maxRecoveryJournalBytes := by
  obtain ⟨stored, -, -, -, -, hlength, -, hraw⟩ := readPrivateFile_eq_ok.mp h.journal
  rw [h.verified, hraw, List.length_take, List.length_take]
  omega

/-- A later request reads the prefix of its cursor from a journal that has grown, and finds
    there what the first request has found. -/
theorem resume (h : Authority validation files none snapshot raw parsed)
    (hgrown : Grown files files') {cursor : CursorV1}
    (hends : cursor.prefixBytes = snapshot.verified.length) :
    Authority validation files' (some cursor) snapshot snapshot.verified parsed := by
  obtain ⟨before, after, hbefore, hafter, hgrows, hlimit⟩ := hgrown.journal
  obtain ⟨stored, hstored, hfile, hlink, hmode, -, -, hraw⟩ := readPrivateFile_eq_ok.mp h.journal
  obtain rfl := Option.some.inj (hbefore.symm.trans hstored)
  replace hraw : raw = before.bytes := hraw.trans List.take_length
  obtain ⟨tail, hsplit, -, hcomplete⟩ := exists_tail raw
  rw [← h.verified_eq] at hsplit hcomplete
  have hverified : snapshot.verified <+: after :=
    (List.prefix_append snapshot.verified tail).trans (hsplit ▸ hraw ▸ hgrows)
  have hscan : scanJournal (N := N) snapshot.verified = scanJournal raw :=
    scanJournal_congr (hcomplete.completeOctets_eq.trans h.verified_eq)
  have hwhole : parsed.verifiedBytes = snapshot.verified.length := by
    rw [h.verifiedBytes_eq, ← h.verified_eq]
  exact
    { directory := by
        rw [hgrown.rest]
        exact h.directory
      manifest := by
        rw [hgrown.rest]
        exact h.manifest
      lock := by
        rw [hgrown.rest]
        exact h.lock
      journal := by
        refine readPrivateFile_eq_ok.mpr
          ⟨_, hafter, hfile, hlink, hmode, hlimit, ?_, ?_⟩
        · exact hends.trans_le hverified.length_le
        · show snapshot.verified = after.take cursor.prefixBytes
          rw [hends]
          exact List.prefix_iff_eq_take.mp hverified
      scan := hscan.trans h.scan
      whole := fun _ => hwhole
      nonempty := h.nonempty
      bounded := h.bounded
      model := h.model
      verified := by
        rw [hwhole, List.take_length]
      events := h.events }

end Authority

end Authority

-- ============================================================================
-- One page
-- ============================================================================

/-- A page within the limit that says how long it is. -/
structure RunInspectionPage.Measured (page : RunInspectionPage N) : Prop where
  serializedBytes : page.encodedBytes = .ok page.serializedBytes
  limit : page.serializedBytes ≤ maxRunInspectionPageBytes

namespace PageContext

/-- The cursor to the items from an offset, when there are any. -/
def cursorFrom (context : PageContext N) (offset : Nat) : Option JsString :=
  if offset < context.items.length then
    some ((context.cursorAt offset).text N context.cursorKey)
  else none

/-- A page before it is measured. -/
def unmeasured (context : PageContext N) (offset count : Nat) : RunInspectionPage N where
  runName := context.runName
  runId := context.snapshot.document.runId
  manifestHash := context.snapshot.document.manifestHash
  journalPrefixSha256 := sha256Bytes context.snapshot.verified
  eventCount := context.snapshot.events.length
  view := context.view
  items := (context.items.drop offset).take count
  serializedBytes := 0
  nextCursor := context.cursorFrom (offset + ((context.items.drop offset).take count).length)

/-- The bounds that an authority and a projection keep. -/
structure Sound (context : PageContext N) : Prop where
  runName : isRunName context.runName = true
  shallow : ∀ item ∈ context.items, item.depth ≤ maxEventDepth
  few : context.items.length ≤ maxRunInspectionAggregateItems
  filterHash : isHash context.filterHash = true
  verified_pos : 1 ≤ context.snapshot.verified.length
  verified_le : context.snapshot.verified.length ≤ maxRecoveryJournalBytes
  events_pos : 1 ≤ context.snapshot.events.length
  events_le : context.snapshot.events.length ≤ maxRunInspectionEvents

/-- No single item is too long for a page. -/
def Singly (context : PageContext N) : Prop :=
  ∀ offset < context.items.length, ∃ page, context.page offset 1 = .ok page ∧
    page.serializedBytes ≤ maxRunInspectionPageBytes

variable {context : PageContext N} {offset count : Nat}

theorem cursorFrom_of_lt (h : offset < context.items.length) :
    context.cursorFrom offset = some ((context.cursorAt offset).text N context.cursorKey) :=
  if_pos h

theorem cursorFrom_of_le (h : context.items.length ≤ offset) : context.cursorFrom offset = none :=
  if_neg (by omega)

theorem page_eq : context.page offset count = (context.unmeasured offset count).measuredPage := by
  have hbind : ∀ (cursor : Option JsString)
      (measure : Option JsString → Except InspectionFailure (RunInspectionPage N)),
      (Except.ok cursor >>= measure) = measure cursor := fun _ _ => rfl
  rw [page, unmeasured]
  dsimp only
  split
  · rename_i hnext
    rw [CursorV1.encodeCursor_eq, cursorFrom_of_lt hnext, Except.map, hbind]
  · rename_i hlast
    rw [cursorFrom_of_le (by omega)]
    exact hbind none _

namespace Sound

theorem cursorAt (h : context.Sound) (hpos : 1 ≤ offset) (hlt : offset < context.items.length) :
    (context.cursorAt offset).Valid where
  runId := context.snapshot.document.runId_hash
  manifestHash := context.snapshot.document.manifestHash_hash
  journalPrefixSha256 := isHash_hexDigest _
  filterHash := h.filterHash
  prefixBytes_pos := h.verified_pos
  prefixBytes_le := h.verified_le
  eventCount_pos := h.events_pos
  eventCount_le := h.events_le
  offset_pos := hpos
  offset_le := hlt.le.trans h.few

theorem shallow_unmeasured (h : context.Sound) : (context.unmeasured offset count).Shallow := by
  intro item hitem
  have hdepth := h.shallow item (List.drop_subset _ _ (List.take_subset _ _ hitem))
  have : maxEventDepth + 2 ≤ maxJsonDepth := by decide
  omega

/-- A page within the limit is measured. -/
theorem page_ok [DecimalNumber N] (h : context.Sound) (offset count : Nat) :
    ∃ bytes, context.page offset count = .ok ((context.unmeasured offset count).sized bytes) ∧
      (bytes ≤ maxRunInspectionPageBytes →
        ((context.unmeasured offset count).sized bytes).Measured) := by
  have hshallow : (context.unmeasured offset count).Shallow := h.shallow_unmeasured
  obtain ⟨bytes, hpage, hbase, hmeasured⟩ := RunInspectionPage.measuredPage_ok hshallow
  exact ⟨bytes, page_eq.trans hpage, fun hlimit =>
    ⟨(hmeasured (hbase.trans_le hlimit)).2, hlimit⟩⟩

/-- The loop stops at a page with an item. -/
theorem largestPage_ok [DecimalNumber N] (h : context.Sound) (hsingly : context.Singly)
    (hlt : offset < context.items.length) (hcount : 1 ≤ count) :
    ∃ kept bytes, 1 ≤ kept ∧ kept ≤ count ∧
      context.largestPage offset count = .ok ((context.unmeasured offset kept).sized bytes) ∧
      ((context.unmeasured offset kept).sized bytes).Measured := by
  induction count with
  | zero => omega
  | succ count ih =>
    obtain ⟨bytes, hpage, hmeasured⟩ := h.page_ok offset (count + 1)
    rw [largestPage, hpage]
    by_cases hlimit : bytes ≤ maxRunInspectionPageBytes
    · exact ⟨count + 1, bytes, hcount, le_rfl, if_pos hlimit, hmeasured hlimit⟩
    · -- a single item fits, so that there is one more item to leave out
      have hmore : 1 ≤ count := by
        by_contra hnone
        obtain rfl : count = 0 := by omega
        obtain ⟨page, hsingle, hfits⟩ := hsingly offset hlt
        obtain rfl := Except.ok.inj (hsingle.symm.trans hpage)
        exact hlimit hfits
      obtain ⟨kept, bytes, hpos, hle, hlargest, hkept⟩ := ih hmore
      exact ⟨kept, bytes, hpos, by omega, (if_neg hlimit).trans hlargest, hkept⟩

/-- The length of a page, without its items and its cursor, is bounded. -/
theorem base_le [DecimalNumber N] (h : context.Sound)
    (hcursor : ∀ encoded ∈ (context.unmeasured offset count).nextCursor,
      encoded.length ≤ maxRunInspectionCursorBytes) :
    (context.unmeasured offset count).base ≤
      32000 + Json.lengthBoundItems (((context.items.drop offset).take count).map canonical) := by
  have hmember (f : JsString × Json N) := Json.memberLength_le (Json.octetLength_render_le f.2)
  have hnumber : ∀ n, n ≤ maxRunInspectionEvents → (number N n).lengthBound ≤ 8 := by
    intro n hn
    have hdigits : n < 10 ^ (7 + 1) := hn.trans_lt (by decide)
    rw [number, Json.lengthBound, DecimalNumber.text_ofNat n (hn.trans (by decide))]
    exact length_decimal_le hdigits
  have hversion := hnumber 1 (by decide)
  have hevents := hnumber _ h.events_le
  have hview := view_length context.view
  have hname : context.runName.length ≤ 68 := by
    have hrun := h.runName
    rw [isRunName, Bool.and_eq_true, Bool.and_eq_true, List.isPrefixOf_iff_prefix,
      decide_eq_true_eq] at hrun
    obtain ⟨⟨⟨rest, hrest⟩, hlength⟩, -⟩ := hrun
    rw [List.length_drop] at hlength
    omega
  have hrunId : context.snapshot.document.runId.length = 68 := by
    obtain ⟨hash, hsplit, hvalid⟩ := isPrefixedHash_split context.snapshot.document.runId_hash
    rw [hsplit, List.length_append, isHash_length hvalid]
    rfl
  have hmanifest := isHash_length context.snapshot.document.manifestHash_hash
  have hjournal : (sha256Bytes context.snapshot.verified).length = 64 :=
    isHash_length (isHash_hexDigest _)
  have h1 := hmember (js "version", number N 1)
  have h2 := hmember (js "runName", .str context.runName)
  have h3 := hmember (js "runId", .str context.snapshot.document.runId)
  have h4 := hmember (js "manifestHash", .str context.snapshot.document.manifestHash)
  have h5 := hmember (js "journalPrefixSha256", .str (sha256Bytes context.snapshot.verified))
  have h6 := hmember (js "eventCount", number N context.snapshot.events.length)
  have h7 := hmember (js "view", .str context.view.text)
  have h8 := hmember (js "items", .arr (((context.items.drop offset).take count).map canonical))
  have h9 : octetLength (quote (js "serializedBytes")) = 17 := by decide
  have hkeys : (js "version").length = 7 ∧ (js "runName").length = 7 ∧ (js "runId").length = 5 ∧
      (js "manifestHash").length = 12 ∧ (js "journalPrefixSha256").length = 19 ∧
      (js "eventCount").length = 10 ∧ (js "view").length = 4 ∧ (js "items").length = 5 ∧
      (js "nextCursor").length = 10 := by
    decide
  have hlimit : maxRunInspectionCursorBytes = 4096 := rfl
  have hlast : (((present (N := N) (js "nextCursor")
      ((context.unmeasured offset count).nextCursor.map .str))).map fun f =>
        Json.memberLength (f.1, canonical f.2)).sum ≤ 25000 := by
    rcases hnext : (context.unmeasured offset count).nextCursor with _ | encoded
    · exact Nat.zero_le _
    · have hencoded := hcursor encoded hnext
      have h10 := hmember (js "nextCursor", .str encoded)
      simp only [Json.memberBound, Json.lengthBound] at h10
      show Json.memberLength (N := N) (js "nextCursor", .str encoded) + 0 ≤ 25000
      omega
  rw [RunInspectionPage.base, h9, RunInspectionPage.members, List.map_append, List.sum_append]
  show Json.memberLength (js "version", number N 1) +
    (Json.memberLength (N := N) (js "runName", .str context.runName) +
    (Json.memberLength (N := N) (js "runId", .str context.snapshot.document.runId) +
    (Json.memberLength (N := N) (js "manifestHash", .str context.snapshot.document.manifestHash) +
    (Json.memberLength (N := N)
      (js "journalPrefixSha256", .str (sha256Bytes context.snapshot.verified)) +
    (Json.memberLength (js "eventCount", number N context.snapshot.events.length) +
    (Json.memberLength (N := N) (js "view", .str context.view.text) +
    (Json.memberLength (N := N) (js "items",
      canonical (.arr ((context.items.drop offset).take count))) + 0))))))) + _ + 17 + 3 ≤ _
  rw [canonical_arr]
  simp only [Json.memberBound, Json.lengthBound] at h1 h2 h3 h4 h5 h6 h7 h8
  omega

/-- Items that are short enough fit, each on a page of its own. -/
theorem singly_of_lengthBound [DecimalNumber N] (h : context.Sound)
    (hitems : ∀ item ∈ context.items, (canonical item).lengthBound ≤ 200000) :
    context.Singly := by
  intro offset hlt
  have hlimit : maxRunInspectionPageBytes = 262144 := by decide
  have hshallow : (context.unmeasured offset 1).Shallow := h.shallow_unmeasured
  obtain ⟨bytes, hpage, -, hmeasured⟩ := RunInspectionPage.measuredPage_ok hshallow
  have hdrop : (context.items.drop offset).take 1 = [context.items[offset]] := by
    rw [List.drop_eq_getElem_cons hlt]
    rfl
  have hcursor : ∀ encoded ∈ (context.unmeasured offset 1).nextCursor,
      encoded.length ≤ maxRunInspectionCursorBytes := by
    intro encoded hencoded
    have hnext : (context.unmeasured offset 1).nextCursor = context.cursorFrom (offset + 1) :=
      congrArg (fun items : List (Json N) => context.cursorFrom (offset + items.length)) hdrop
    by_cases hmore : offset + 1 < context.items.length
    · rw [hnext, cursorFrom_of_lt hmore] at hencoded
      obtain rfl := Option.some.inj hencoded
      rw [← CursorV1.octetLength_text]
      exact (h.cursorAt (by omega) hmore).length_text N _
    · rw [hnext, cursorFrom_of_le (Nat.not_lt.mp hmore)] at hencoded
      exact absurd hencoded nofun
  have hbase := h.base_le hcursor
  rw [hdrop, List.map_singleton, Json.lengthBoundItems, Json.lengthBoundItems] at hbase
  have hitem := hitems _ (List.getElem_mem hlt)
  obtain ⟨hbytes, -⟩ := hmeasured (by omega)
  refine ⟨_, page_eq.trans hpage, ?_⟩
  show bytes ≤ _
  omega

/-- A view without items is one page without items. -/
theorem largestPage_empty [DecimalNumber N] (h : context.Sound) (hitems : context.items = []) :
    ∃ bytes, context.largestPage 0 0 = .ok ((context.unmeasured 0 0).sized bytes) ∧
      ((context.unmeasured 0 0).sized bytes).Measured := by
  have hcursor : (context.unmeasured 0 0).nextCursor = none :=
    cursorFrom_of_le (hitems ▸ Nat.zero_le _)
  have hbase : (context.unmeasured 0 0).base ≤ _ := h.base_le (hcursor ▸ nofun)
  rw [List.take_zero, List.map_nil, Json.lengthBoundItems] at hbase
  have hlimit : maxRunInspectionPageBytes = 262144 := by decide
  have hshallow : (context.unmeasured 0 0).Shallow := h.shallow_unmeasured
  obtain ⟨bytes, hpage, -, hmeasured⟩ := RunInspectionPage.measuredPage_ok hshallow
  obtain ⟨hbytes, hencoded⟩ := hmeasured (by omega)
  have hfits : bytes ≤ maxRunInspectionPageBytes := by omega
  refine ⟨bytes, ?_, hencoded, hfits⟩
  rw [largestPage, if_pos (List.length_eq_zero_iff.mpr hitems), page_eq, hpage]
  exact if_pos hfits

end Sound

end PageContext

end PiRlm.Runtime

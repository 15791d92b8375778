/-
  PiRlm.Runtime.RunInspectionRuns

  Following the cursors of an inspection.

  From a request without a cursor, the cursors of the pages lead through every item of the
  journal prefix that the first page has seen, while the journal grows.  A cursor is only
  accepted as it was issued, for its own view, filter and run.
-/
import Mathlib
import PiRlm.Runtime.RunInspectionPages

namespace PiRlm.Runtime

open PiRlm.Lib PiRlm.Core PiRlm.Shell

variable {N : Type} [JsonNumber N]

-- ============================================================================
-- Filters
-- ============================================================================

variable (N) in
/-- The text whose hash stands for a filter. -/
def filterText (frameId : Option JsString) : JsString :=
  (canonical (.obj [(js "frameId", nullable (N := N) frameId)])).render

theorem filterHash_eq (frameId : Option JsString) :
    filterHash N frameId = .ok (sha256 (filterText N frameId)) := by
  have hdepth : (Json.obj [(js "frameId", nullable (N := N) frameId)]).depth ≤ maxJsonDepth := by
    cases frameId <;> exact (by decide : 0 + 1 ≤ maxJsonDepth)
  rw [filterHash, stringify_ok hdepth]
  rfl

omit [JsonNumber N] in
theorem canonical_nullable (value : Option JsString) :
    canonical (nullable (N := N) value) = nullable value := by
  cases value <;> rfl

theorem filterText_injective {frameId frameId' : Option JsString}
    (h : filterText N frameId = filterText N frameId') : frameId = frameId' := by
  have hsingle : ∀ frameId : Option JsString,
      canonical (.obj [(js "frameId", nullable (N := N) frameId)]) =
        .obj [(js "frameId", nullable frameId)] := by
    intro frameId
    have hkeys : ∀ k ∈ [js "frameId"], isArrayIndex k = false := by decide
    have hsorted := canonical_obj_of_sorted (List.Perm.refl [(js "frameId", nullable (N := N) frameId)])
      (by decide : [js "frameId"].Nodup) (by decide : [js "frameId"].Pairwise (· ≤ ·)) hkeys
    rw [hsorted]
    simp only [List.map_cons, List.map_nil, canonical_nullable]
  have hobj := Json.render_injective h
  rw [hsingle, hsingle] at hobj
  simp only [Json.obj.injEq, List.cons.injEq, Prod.mk.injEq, true_and, and_true] at hobj
  rcases frameId with _ | s <;> rcases frameId' with _ | s'
  · rfl
  · exact absurd hobj nofun
  · exact absurd hobj nofun
  · exact congrArg some (Json.str.inj hobj)

-- ============================================================================
-- One request
-- ============================================================================

section Request

variable [JsonArithmetic N] {validation : RunValidation N} {key : List Byte}
  {runs : JsString → Option ManagedRunFiles} {request : RunInspectionRequest}

variable (N) in
/-- The cursor of a request, decoded. -/
def requestCursor (request : RunInspectionRequest) (key : List Byte) :
    Except InspectionFailure (Option CursorV1) :=
  match request.cursor with
  | none => pure none
  | some encoded => (decodeCursor N encoded key).map some

/-- What a request has to find before it lists a page. -/
structure Found (validation : RunValidation N) (key : List Byte)
    (runs : JsString → Option ManagedRunFiles) (request : RunInspectionRequest)
    (cursor : Option CursorV1) (files : ManagedRunFiles) (snapshot : AuthoritySnapshot N)
    (items : List (Json N)) : Prop where
  valid : validRequest request = true
  longKey : 32 ≤ key.length
  decoded : requestCursor N request key = .ok cursor
  managed : runs request.runName = some files
  authority : readAuthority validation files cursor = .ok snapshot
  current : ∀ c ∈ cursor,
    cursorMatches c request snapshot (sha256 (filterText N request.frameId)) = true
  listed : project request.view snapshot.events snapshot.model snapshot.document.limits
    request.frameId = .ok items
  offset : items.length ≤ cursor.elim 0 (·.offset) → items = []

variable (key request) in
/-- The context of the pages of a request. -/
def pageContext (snapshot : AuthoritySnapshot N) (items : List (Json N)) : PageContext N where
  snapshot := snapshot
  runName := request.runName
  view := request.view
  filterHash := sha256 (filterText N request.frameId)
  cursorKey := key
  items := items

theorem inspectManagedRunPage_eq_ok {page : RunInspectionPage N} :
    inspectManagedRunPage validation key runs request = .ok page ↔
      ∃ cursor files snapshot items,
        Found validation key runs request cursor files snapshot items ∧
        (pageContext key request snapshot items).largestPage (cursor.elim 0 (·.offset))
          (min (request.pageSize.getD defaultRunInspectionPageSize)
            (items.length - cursor.elim 0 (·.offset))) = .ok page := by
  have hform : inspectManagedRunPage validation key runs request =
      if !validRequest request then
        .error (.inspection .invalidRequest (js "invalid managed run inspection request"))
      else if key.length < 32 then
        .error (.inspection .invalidRequest
          (js "inspection cursor key must contain at least 32 bytes"))
      else requestCursor N request key >>= fun cursor =>
        (runs request.runName).elim
          (.error (.inspection .runNotFound (js "managed run was not found or is not valid")))
          fun files =>
          readAuthority validation files cursor >>= fun snapshot =>
          filterHash N request.frameId >>= fun hash =>
          if cursor.any fun cursor => !cursorMatches cursor request snapshot hash then
            invalidCursor (js "inspection cursor is invalid or stale")
          else
            project request.view snapshot.events snapshot.model snapshot.document.limits
              request.frameId >>= fun items =>
            if items.length ≤ cursor.elim 0 (·.offset) ∧ 0 < items.length then
              invalidCursor (js "inspection cursor offset is stale")
            else
              PageContext.largestPage ⟨snapshot, request.runName, request.view, hash, key, items⟩
                (cursor.elim 0 (·.offset))
                (min (request.pageSize.getD defaultRunInspectionPageSize)
                  (items.length - cursor.elim 0 (·.offset))) := by
    rw [inspectManagedRunPage, requestCursor]
    cases request.cursor with
    | none => cases runs request.runName <;> rfl
    | some encoded => cases runs request.runName <;> rfl
  rw [hform]
  constructor
  · intro h
    split at h
    · exact absurd h (by simp)
    rename_i hvalid
    split at h
    · exact absurd h (by simp)
    rename_i hkey
    obtain ⟨cursor, hcursor, h⟩ := bind_eq_ok.mp h
    rcases hfiles : runs request.runName with _ | files
    · rw [hfiles] at h
      cases h
    rw [hfiles] at h
    obtain ⟨snapshot, hsnapshot, h⟩ := bind_eq_ok.mp h
    obtain ⟨hash, hhash, h⟩ := bind_eq_ok.mp h
    obtain rfl := Except.ok.inj ((filterHash_eq request.frameId).symm.trans hhash)
    split at h
    · exact absurd h (by simp [invalidCursor])
    rename_i hcurrent
    obtain ⟨items, hitems, h⟩ := bind_eq_ok.mp h
    split at h
    · exact absurd h (by simp [invalidCursor])
    rename_i hoffset
    refine ⟨cursor, files, snapshot, items, ⟨?_, by omega, hcursor, hfiles, hsnapshot, ?_, hitems,
      ?_⟩, h⟩
    · rwa [Bool.not_eq_true', Bool.not_eq_false] at hvalid
    · rintro c rfl
      rwa [Option.any_some, Bool.not_eq_true', Bool.not_eq_false] at hcurrent
    · exact fun hle => List.length_eq_zero_iff.mp (by omega)
  · rintro ⟨cursor, files, snapshot, items, h, hpage⟩
    have hvalid : ¬(!validRequest request) = true := by simp only [h.valid, Bool.not_true,
      Bool.false_eq_true, not_false_eq_true]
    have hcurrent : ¬(cursor.any fun cursor => !cursorMatches cursor request snapshot
        (sha256 (filterText N request.frameId))) = true := by
      rcases hcursor : cursor with _ | c
      · simp
      · rw [Option.any_some, h.current c hcursor]
        simp
    have hkey := h.longKey
    rw [if_neg hvalid, if_neg (by omega)]
    refine bind_eq_ok.mpr ⟨_, h.decoded, ?_⟩
    rw [h.managed]
    refine bind_eq_ok.mpr ⟨_, h.authority, bind_eq_ok.mpr ⟨_, filterHash_eq _, ?_⟩⟩
    rw [if_neg hcurrent]
    refine bind_eq_ok.mpr ⟨_, h.listed, ?_⟩
    rw [if_neg]
    · exact hpage
    · rintro ⟨hle, hpos⟩
      rw [h.offset hle] at hpos
      exact absurd hpos (Nat.lt_irrefl 0)

/-- What a request finds decides its answer. -/
theorem Found.answer {cursor : Option CursorV1} {files : ManagedRunFiles}
    {snapshot : AuthoritySnapshot N} {items : List (Json N)}
    (h : Found validation key runs request cursor files snapshot items)
    (page : RunInspectionPage N) :
    inspectManagedRunPage validation key runs request = .ok page ↔
      (pageContext key request snapshot items).largestPage (cursor.elim 0 (·.offset))
        (min (request.pageSize.getD defaultRunInspectionPageSize)
          (items.length - cursor.elim 0 (·.offset))) = .ok page := by
  rw [inspectManagedRunPage_eq_ok]
  constructor
  · rintro ⟨cursor', files', snapshot', items', h', hpage⟩
    obtain rfl := Except.ok.inj (h.decoded.symm.trans h'.decoded)
    obtain rfl := Option.some.inj (h.managed.symm.trans h'.managed)
    obtain rfl := Except.ok.inj (h.authority.symm.trans h'.authority)
    obtain rfl := Except.ok.inj (h.listed.symm.trans h'.listed)
    exact hpage
  · exact fun hpage => ⟨cursor, files, snapshot, items, h, hpage⟩

theorem Found.sound {raw : List Byte} {parsed : JournalScan N} {cursor : Option CursorV1}
    {files : ManagedRunFiles} {snapshot : AuthoritySnapshot N} {items : List (Json N)}
    (h : Found validation key runs request cursor files snapshot items)
    (hauthority : Authority validation files cursor snapshot raw parsed) :
    (pageContext key request snapshot items).Sound := by
  have hrunName : isRunName request.runName = true := by
    have hvalid := h.valid
    simp only [validRequest, Bool.and_eq_true] at hvalid
    exact hvalid.1.1.1.2
  have hbounds := project_bounds snapshot.document.limits_depth h.listed
  have hevents := hauthority.events
  exact
    { runName := hrunName
      shallow := hbounds.1
      few := hbounds.2
      filterHash := isHash_sha256 _
      verified_pos := hauthority.verified_pos
      verified_le := hauthority.verified_length_le
      events_pos := by
        have := hauthority.nonempty
        show 1 ≤ snapshot.events.length
        rw [hevents]
        omega
      events_le := by
        show snapshot.events.length ≤ _
        rw [hevents]
        exact hauthority.bounded }

/-- The page size of a valid request. -/
theorem pageSize_pos (h : validRequest request = true) :
    1 ≤ request.pageSize.getD defaultRunInspectionPageSize := by
  simp only [validRequest, Bool.and_eq_true] at h
  rcases hsize : request.pageSize with _ | pageSize
  · decide
  · have hpageSize := h.2
    rw [hsize, Option.all_some, Bool.and_eq_true, decide_eq_true_eq] at hpageSize
    exact hpageSize.1

/-- The other checks of a request do not depend on its cursor. -/
theorem validRequest_cursor (h : validRequest request = true) {cursor : JsString}
    (hlength : (utf8 cursor).length ≤ maxRunInspectionCursorBytes) :
    validRequest { request with cursor := some cursor } = true := by
  simp only [validRequest, Bool.and_eq_true] at h ⊢
  exact ⟨⟨h.1.1, decide_eq_true hlength⟩, h.2⟩

end Request

-- ============================================================================
-- Following the cursors
-- ============================================================================

/-- The pages that are answered, each request with the cursor of the page before it. -/
inductive Follows
    (inspect : Nat → Option JsString → Except InspectionFailure (RunInspectionPage N)) :
    Nat → Option JsString → List (RunInspectionPage N) → Prop where
  | last {n : Nat} {cursor : Option JsString} {page : RunInspectionPage N} :
      inspect n cursor = .ok page → page.nextCursor = none → Follows inspect n cursor [page]
  | next {n : Nat} {cursor : Option JsString} {page : RunInspectionPage N} {encoded : JsString}
      {pages : List (RunInspectionPage N)} :
      inspect n cursor = .ok page → page.nextCursor = some encoded →
      Follows inspect (n + 1) (some encoded) pages → Follows inspect n cursor (page :: pages)

omit [JsonNumber N] in
theorem Follows.unique
    {inspect : Nat → Option JsString → Except InspectionFailure (RunInspectionPage N)} {n : Nat} {cursor : Option JsString} {pages pages' : List (RunInspectionPage N)}
    (h : Follows inspect n cursor pages) (h' : Follows inspect n cursor pages') :
    pages' = pages := by
  induction h generalizing pages' with
  | last hpage hlast =>
    cases h' with
    | last hpage' hlast' => rw [Except.ok.inj (hpage'.symm.trans hpage)]
    | next hpage' hnext' hfollows' =>
      obtain rfl := Except.ok.inj (hpage'.symm.trans hpage)
      rw [hlast] at hnext'
      exact absurd hnext' nofun
  | next hpage hnext hfollows ih =>
    cases h' with
    | last hpage' hlast' =>
      obtain rfl := Except.ok.inj (hpage'.symm.trans hpage)
      rw [hnext] at hlast'
      exact absurd hlast' nofun
    | next hpage' hnext' hfollows' =>
      obtain rfl := Except.ok.inj (hpage'.symm.trans hpage)
      obtain rfl := Option.some.inj (hnext'.symm.trans hnext)
      rw [ih hfollows']

/-- A cursor that has been issued for a filter. -/
structure Issued (N : Type) [JsonNumber N] where
  frameId : Option JsString
  cursor : CursorV1
  valid : cursor.Valid
  filter : cursor.filterHash = sha256 (filterText N frameId)

/-- An inspection of a run whose journal only grows, with any sequence of page sizes. -/
structure Inspection [JsonArithmetic N] (validation : RunValidation N) where
  key : List Byte
  runs : Nat → JsString → Option ManagedRunFiles
  request : RunInspectionRequest
  pageSize : Nat → Option Nat
  files : Nat → ManagedRunFiles
  snapshot : AuthoritySnapshot N
  items : List (Json N)
  first : request.cursor = none
  longKey : 32 ≤ key.length
  valid : ∀ n, validRequest { request with pageSize := pageSize n } = true
  managed : ∀ n, runs n request.runName = some (files n)
  grown : ∀ n, Grown (files n) (files (n + 1))
  authority : readAuthority validation (files 0) none = .ok snapshot
  listed : project request.view snapshot.events snapshot.model snapshot.document.limits
    request.frameId = .ok items
  singly : (pageContext key request snapshot items).Singly

theorem Grown.trans {files files' files'' : ManagedRunFiles} (h : Grown files files')
    (h' : Grown files' files'') : Grown files files'' := by
  obtain ⟨before, after, hbefore, hafter, hgrows, -⟩ := h.journal
  obtain ⟨between, last, hbetween, hlast, hgrows', hlimit⟩ := h'.journal
  obtain rfl := Option.some.inj (hafter.symm.trans hbetween)
  refine ⟨?_, before, last, hbefore, hlast, hgrows.trans hgrows', hlimit⟩
  rw [h'.rest, h.rest]

namespace Inspection

variable [JsonArithmetic N] {validation : RunValidation N} (inspection : Inspection validation)

/-- The n-th request, with the cursor of the page before it. -/
def ask (n : Nat) (cursor : Option JsString) : Except InspectionFailure (RunInspectionPage N) :=
  inspectManagedRunPage validation inspection.key (inspection.runs n)
    { inspection.request with cursor, pageSize := inspection.pageSize n }

abbrev context : PageContext N :=
  pageContext inspection.key inspection.request inspection.snapshot inspection.items

/-- The size of the n-th page. -/
abbrev size (n : Nat) : Nat :=
  (inspection.pageSize n).getD defaultRunInspectionPageSize

theorem size_pos (n : Nat) : 1 ≤ inspection.size n :=
  pageSize_pos (inspection.valid n)

theorem grown_first (n : Nat) : Grown (inspection.files 0) (inspection.files (n + 1)) := by
  induction n with
  | zero => exact inspection.grown 0
  | succ n ih => exact ih.trans (inspection.grown (n + 1))

/-- The n-th request lists the items from an offset. -/
def Answers (n : Nat) (cursor : Option JsString) (offset : Nat) : Prop :=
  ∀ page, inspection.ask n cursor = .ok page ↔ inspection.context.largestPage offset
    (min (inspection.size n) (inspection.items.length - offset)) = .ok page

theorem found_first : Found validation inspection.key (inspection.runs 0)
    { inspection.request with cursor := none, pageSize := inspection.pageSize 0 } none
    (inspection.files 0) inspection.snapshot inspection.items where
  valid := by
    rw [← inspection.first]
    exact inspection.valid 0
  longKey := inspection.longKey
  decoded := rfl
  managed := inspection.managed 0
  authority := inspection.authority
  current := nofun
  listed := inspection.listed
  offset := fun h => List.length_eq_zero_iff.mp (Nat.le_zero.mp h)

theorem sound : inspection.context.Sound := by
  obtain ⟨raw, parsed, hauthority⟩ := readAuthority_eq_ok.mp inspection.authority
  exact inspection.found_first.sound hauthority

/-- The cursor of a page is accepted by the next request. -/
theorem found_next [DecimalNumber N] (n : Nat) {offset : Nat} (hpos : 1 ≤ offset)
    (hlt : offset < inspection.items.length) :
    Found validation inspection.key (inspection.runs (n + 1))
      { inspection.request with
        cursor := some ((inspection.context.cursorAt offset).text N inspection.key)
        pageSize := inspection.pageSize (n + 1) }
      (some (inspection.context.cursorAt offset)) (inspection.files (n + 1)) inspection.snapshot
      inspection.items := by
  have hcursor := inspection.sound.cursorAt hpos hlt
  obtain ⟨raw, parsed, hauthority⟩ := readAuthority_eq_ok.mp inspection.authority
  have hresumed : Authority validation (inspection.files (n + 1))
      (some (inspection.context.cursorAt offset)) inspection.snapshot inspection.snapshot.verified
      parsed := hauthority.resume (inspection.grown_first n) rfl
  exact
    { valid := validRequest_cursor (inspection.valid (n + 1)) (hcursor.length_text N inspection.key)
      longKey := inspection.longKey
      decoded := by
        show (decodeCursor N _ inspection.key).map some = _
        rw [hcursor.decodeCursor_text inspection.key]
        rfl
      managed := inspection.managed (n + 1)
      authority := readAuthority_eq_ok.mpr ⟨_, _, hresumed⟩
      current := by
        rintro c hc
        obtain rfl := Option.some.inj hc
        simp only [cursorMatches, PageContext.cursorAt, context, pageContext, decide_true,
          Bool.and_self]
      listed := inspection.listed
      offset := fun hle => absurd hle (Nat.not_le.mpr hlt) }

theorem answers_first : inspection.Answers 0 none 0 :=
  inspection.found_first.answer

theorem answers_next [DecimalNumber N] (n : Nat) {offset : Nat} (hpos : 1 ≤ offset)
    (hlt : offset < inspection.items.length) :
    inspection.Answers (n + 1) (inspection.context.cursorFrom offset) offset := by
  rw [PageContext.cursorFrom_of_lt hlt]
  exact (inspection.found_next n hpos hlt).answer

/-- What the pages of a part of an inspection have in common. -/
structure Lists (pages : List (RunInspectionPage N)) (items : List (Json N)) : Prop where
  items : pages.flatMap (·.items) = items
  nonempty : ∀ page ∈ pages, page.items ≠ []
  measured : ∀ page ∈ pages, page.Measured
  cursors : ∀ page ∈ pages, ∀ encoded ∈ page.nextCursor, ∃ offset,
    (inspection.context.cursorAt offset).Valid ∧
    encoded = (inspection.context.cursorAt offset).text N inspection.key

/-- From an offset, the pages list what remains. -/
theorem exists_follows [DecimalNumber N] (remaining : Nat) :
    ∀ n offset cursor, inspection.items.length - offset ≤ remaining →
      offset < inspection.items.length → inspection.Answers n cursor offset →
      ∃ pages, Follows inspection.ask n cursor pages ∧
        inspection.Lists pages (inspection.items.drop offset) := by
  induction remaining with
  | zero =>
    intro n offset cursor hremaining hlt
    omega
  | succ remaining ih =>
    intro n offset cursor hremaining hlt hanswers
    have hsize := inspection.size_pos n
    have hcount : 1 ≤ min (inspection.size n) (inspection.items.length - offset) := by omega
    obtain ⟨kept, bytes, hpos, hle, hlargest, hmeasured⟩ :=
      inspection.sound.largestPage_ok inspection.singly hlt hcount
    have hpage := (hanswers _).mpr hlargest
    have hlength : ((inspection.items.drop offset).take kept).length = kept := by
      rw [List.length_take, List.length_drop]
      omega
    have hne : ((inspection.items.drop offset).take kept) ≠ [] :=
      List.ne_nil_of_length_pos (by omega)
    have hnext : ((inspection.context.unmeasured offset kept).sized bytes).nextCursor =
        inspection.context.cursorFrom (offset + kept) :=
      congrArg (fun length => inspection.context.cursorFrom (offset + length)) hlength
    by_cases hmore : offset + kept < inspection.items.length
    · have hanswers' := inspection.answers_next n (by omega : 1 ≤ offset + kept) hmore
      obtain ⟨pages, hfollows, hlists⟩ :=
        ih (n + 1) (offset + kept) _ (by omega) hmore hanswers'
      have hcursor : inspection.context.cursorFrom (offset + kept) =
          some ((inspection.context.cursorAt (offset + kept)).text N inspection.key) :=
        PageContext.cursorFrom_of_lt hmore
      refine ⟨_, .next hpage (hnext.trans hcursor) (hcursor ▸ hfollows), ?_, ?_, ?_, ?_⟩
      · rw [List.flatMap_cons, hlists.items, ← List.drop_drop]
        exact List.take_append_drop _ _
      · exact List.forall_mem_cons.mpr ⟨hne, hlists.nonempty⟩
      · exact List.forall_mem_cons.mpr ⟨hmeasured, hlists.measured⟩
      · refine List.forall_mem_cons.mpr ⟨?_, hlists.cursors⟩
        intro encoded hencoded
        rw [hnext, hcursor] at hencoded
        exact ⟨offset + kept, inspection.sound.cursorAt (by omega) hmore,
          (Option.some.inj hencoded).symm⟩
    · have hcursor : inspection.context.cursorFrom (offset + kept) = none :=
        PageContext.cursorFrom_of_le (Nat.not_lt.mp hmore)
      refine ⟨_, .last hpage (hnext.trans hcursor), ?_, ?_, ?_, ?_⟩
      · rw [List.flatMap_cons, List.flatMap_nil, List.append_nil]
        have hall : (inspection.items.drop offset).length ≤ kept := by
          rw [List.length_drop]
          omega
        exact List.take_of_length_le hall
      · exact List.forall_mem_cons.mpr ⟨hne, nofun⟩
      · exact List.forall_mem_cons.mpr ⟨hmeasured, nofun⟩
      · refine List.forall_mem_cons.mpr ⟨?_, nofun⟩
        intro encoded hencoded
        rw [hnext, hcursor] at hencoded
        exact absurd hencoded nofun

/-- A whole inspection lists every item. -/
theorem exists_pages [DecimalNumber N] :
    ∃ pages, Follows inspection.ask 0 none pages ∧
      pages.flatMap (·.items) = inspection.items ∧
      (inspection.items ≠ [] → ∀ page ∈ pages, page.items ≠ []) ∧
      (inspection.items = [] → pages.length = 1) ∧
      (∀ page ∈ pages, page.Measured) ∧
      ∀ page ∈ pages, ∀ encoded ∈ page.nextCursor, ∃ issued : Issued N,
        encoded = issued.cursor.text N inspection.key ∧
        issued.cursor.view = inspection.request.view ∧
        issued.frameId = inspection.request.frameId ∧
        issued.cursor.runId = inspection.snapshot.document.runId := by
  by_cases hempty : inspection.items = []
  · obtain ⟨bytes, hlargest, hmeasured⟩ := inspection.sound.largestPage_empty hempty
    have hcount : min (inspection.size 0) (inspection.items.length - 0) = 0 := by
      rw [hempty]
      exact Nat.min_zero _
    have hpage := (inspection.answers_first _).mpr
      ((congrArg (inspection.context.largestPage 0) hcount).trans hlargest)
    have hcursor : inspection.context.cursorFrom 0 = none :=
      PageContext.cursorFrom_of_le (Nat.le_zero.mpr (List.length_eq_zero_iff.mpr hempty))
    refine ⟨_, .last hpage hcursor, ?_, fun hne => absurd hempty hne, fun _ => rfl, ?_, ?_⟩
    · exact hempty.symm
    · exact List.forall_mem_singleton.mpr hmeasured
    · rw [List.forall_mem_singleton]
      intro encoded hencoded
      exact absurd (hcursor.symm.trans hencoded) nofun
  · have hpos : 0 < inspection.items.length := List.length_pos_iff.mpr hempty
    obtain ⟨pages, hfollows, hlists⟩ := inspection.exists_follows inspection.items.length 0 0 none
      (Nat.sub_le _ _) hpos inspection.answers_first
    refine ⟨pages, hfollows, hlists.items, fun _ => hlists.nonempty, fun h => absurd h hempty,
      hlists.measured, ?_⟩
    intro page hpage encoded hencoded
    obtain ⟨offset, hvalid, rfl⟩ := hlists.cursors page hpage encoded hencoded
    exact ⟨⟨inspection.request.frameId, inspection.context.cursorAt offset, hvalid, rfl⟩, rfl, rfl,
      rfl, rfl⟩

end Inspection

-- ============================================================================
-- Cursors that are accepted
-- ============================================================================

/-- A text carries the payload of an issued cursor, with its keyed hash. -/
def Issued.CarriedBy (issued : Issued N) (key : List Byte) (encoded : JsString) : Prop :=
  ∃ payload, cursorContent (N := N) encoded = some (payload, issued.cursor.mac N key) ∧
    canonical (.obj payload) = .obj (issued.cursor.members N)

/-- Two texts with one hash are one text. -/
def CollisionFreeTexts (text text' : JsString) : Prop :=
  sha256 text = sha256 text' → text = text'

/-- A keyed hash that verifies belongs to a payload that has been issued. -/
def Unforgeable (key : List Byte) (issued : Issued N → Prop) (encoded : JsString) : Prop :=
  ∀ payload mac, cursorContent (N := N) encoded = some (payload, mac) →
    cursorMac (.obj payload) key = .ok mac →
    ∃ cursor, issued cursor ∧ canonical (.obj payload) = .obj (cursor.cursor.members N)

/-- The members of a payload have distinct keys. -/
theorem cursorContent_nodup {encoded : JsString} {payload : RecordValue N} {mac : JsString}
    (h : cursorContent encoded = some (payload, mac)) : (payload.map Prod.fst).Nodup := by
  simp only [cursorContent, Option.bind_eq_bind, Option.bind_eq_some_iff, Option.pure_def] at h
  obtain ⟨-, -, -, -, text, -, ⟨v, howned⟩, -, value, hvalue, envelope, henvelope, -, -, mac', -,
    payload', hpayload, h⟩ := h
  obtain ⟨rfl, -⟩ := Prod.mk.inj (Option.some.inj h)
  obtain rfl : value = v := by
    rcases Nat.lt_or_ge maxJsonDepth v.depth with hdeep | hdepth
    · obtain ⟨e, he⟩ := parseJsonValue_error hdeep
      rw [he] at hvalue
      cases hvalue
    · rw [parseJsonValue_ok howned hdepth] at hvalue
      exact (Option.some.inj hvalue).symm
  cases value with
  | obj fields =>
    obtain rfl := Option.some.inj henvelope
    rcases hget : get fields (js "payload") with _ | member
    · rw [hget] at hpayload
      cases hpayload
    · rw [hget] at hpayload
      cases member with
      | obj members =>
        obtain rfl := Option.some.inj hpayload
        have hmember := (Json.owned_obj.mp howned).2 _ (Json.mem_of_lookupField hget)
        exact (Json.owned_obj.mp hmember).1.1
      | _ => cases hpayload
  | _ => cases henvelope

omit [JsonNumber N] in
/-- The members of an object are those of its canonical form. -/
theorem get_canonical {payload members : RecordValue N} (hnodup : (payload.map Prod.fst).Nodup)
    (h : canonical (.obj payload) = .obj members) (key : JsString) :
    get members key = (get payload key).map canonical := by
  rw [canonical_obj_of_nodup hnodup] at h
  obtain rfl := Json.obj.inj h
  have hperm : (ownOrder Prod.fst (sortBy Prod.fst payload)).Perm payload :=
    (ownOrder_perm _).trans (sortBy_perm payload)
  exact (Json.lookupField_map canonical _ key).trans
    (congrArg (Option.map canonical) (Json.lookupField_perm hperm hnodup key))

omit [JsonNumber N] in
theorem canonical_eq_str {v : Json N} {s : JsString} (h : canonical v = .str s) : v = .str s := by
  cases v with
  | str => exact h
  | obj fields =>
    rw [canonical_obj] at h
    exact absurd h nofun
  | arr items =>
    rw [canonical_arr] at h
    exact absurd h nofun
  | _ => exact absurd h nofun

omit [JsonNumber N] in
theorem canonical_eq_num {v : Json N} {n : N} (h : canonical v = .num n) : v = .num n := by
  cases v with
  | num => exact h
  | obj fields =>
    rw [canonical_obj] at h
    exact absurd h nofun
  | arr items =>
    rw [canonical_arr] at h
    exact absurd h nofun
  | _ => exact absurd h nofun

/-- A payload with the members of a cursor is read as that cursor. -/
theorem parsePayload_canonical {payload : RecordValue N} {issued cursor : CursorV1}
    (hvalid : issued.Valid) (hnodup : (payload.map Prod.fst).Nodup)
    (hcanonical : canonical (.obj payload) = .obj (issued.members N))
    (hparsed : parsePayload payload = some cursor) : cursor = issued := by
  have hget := get_canonical hnodup hcanonical
  have htext : ∀ key s check, get (issued.members N) key = some (.str s) →
      textMember payload key check = textMember (issued.members N) key check := by
    intro key s check hmember
    obtain ⟨v, hv, hs⟩ := Option.map_eq_some_iff.mp ((hget key).symm.trans hmember)
    rw [textMember, textMember, hmember, hv, canonical_eq_str hs]
  have hnumber : ∀ key n minimum maximum, get (issued.members N) key = some (.num n) →
      integerMember payload key minimum maximum =
        integerMember (issued.members N) key minimum maximum := by
    intro key n minimum maximum hmember
    obtain ⟨v, hv, hn⟩ := Option.map_eq_some_iff.mp ((hget key).symm.trans hmember)
    rw [integerMember, integerMember, hmember, hv, canonical_eq_num hn]
  have hissued := hvalid.parsePayload_members N
  rw [parsePayload] at hparsed hissued
  -- past the checks of the keys and the version, both are read by the same members
  obtain ⟨-, -, hparsed⟩ := Option.bind_eq_some_iff.mp hparsed
  obtain ⟨-, -, hparsed⟩ := Option.bind_eq_some_iff.mp hparsed
  obtain ⟨-, -, hissued⟩ := Option.bind_eq_some_iff.mp hissued
  obtain ⟨-, -, hissued⟩ := Option.bind_eq_some_iff.mp hissued
  rw [htext (js "runId") issued.runId _ rfl, htext (js "manifestHash") issued.manifestHash _ rfl,
    htext (js "journalPrefixSha256") issued.journalPrefixSha256 _ rfl,
    htext (js "filterHash") issued.filterHash _ rfl,
    htext (js "view") issued.view.text _ rfl,
    hnumber (js "prefixBytes") (JsonNumber.ofNat issued.prefixBytes) _ _ rfl,
    hnumber (js "eventCount") (JsonNumber.ofNat issued.eventCount) _ _ rfl,
    hnumber (js "offset") (JsonNumber.ofNat issued.offset) _ _ rfl] at hparsed
  exact Option.some.inj (hparsed.symm.trans hissued)

section Accepted

variable [JsonArithmetic N] {validation : RunValidation N}

/-- A cursor that is accepted is one that has been issued, for the view, the filter and the
    run of the request. -/
theorem exists_issued {key : List Byte} {runs : JsString → Option ManagedRunFiles}
    {request : RunInspectionRequest} {encoded : JsString} {issued : Issued N → Prop}
    {page : RunInspectionPage N} (hencoded : request.cursor = some encoded)
    (hunforgeable : Unforgeable key issued encoded)
    (h : inspectManagedRunPage validation key runs request = .ok page) :
    ∃ cursor, issued cursor ∧ cursor.CarriedBy key encoded ∧ cursor.cursor.view = request.view ∧
      sha256 (filterText N cursor.frameId) = sha256 (filterText N request.frameId) ∧
      ∃ files snapshot, runs request.runName = some files ∧
        readAuthority validation files (some cursor.cursor) = .ok snapshot ∧
        cursor.cursor.runId = snapshot.document.runId := by
  obtain ⟨decoded, files, snapshot, items, hfound, -⟩ := inspectManagedRunPage_eq_ok.mp h
  have hdecoded := hfound.decoded
  rw [requestCursor, hencoded] at hdecoded
  obtain ⟨cursor, hcursor, rfl⟩ := map_eq_ok.mp hdecoded
  obtain ⟨payload, mac, hcontent, hparsed, hmac⟩ := decodeCursor_eq_ok.mp hcursor
  obtain ⟨known, hknown, hcanonical⟩ := hunforgeable payload mac hcontent hmac
  obtain rfl := parsePayload_canonical known.valid (cursorContent_nodup hcontent) hcanonical hparsed
  have hcarried : mac = known.cursor.mac N key := by
    obtain ⟨text, htext, rfl⟩ := map_eq_ok.mp hmac
    rw [stringify] at htext
    split at htext
    · rename_i canonicalText htext'
      obtain rfl := Except.ok.inj htext
      obtain ⟨-, rfl⟩ := canonicalStringify_eq_ok_iff.mp htext'
      rw [hcanonical]
      rfl
    · exact absurd htext (by simp)
  have hmatches := hfound.current _ rfl
  simp only [cursorMatches, Bool.and_eq_true, decide_eq_true_eq] at hmatches
  refine ⟨known, hknown, ⟨payload, hcarried ▸ hcontent, hcanonical⟩, ?_, ?_, files, snapshot,
    hfound.managed, hfound.authority, hmatches.1.1.1.1.1.1⟩
  · exact hmatches.1.1.1.1.2
  · exact known.filter.symm.trans hmatches.1.1.1.2

end Accepted

end PiRlm.Runtime

/-
  PiRlm.Shell.ContextChunks

  The chunks of a context tile its bytes.

  One round of the loop in `chunks` from a boundary ends at a later boundary and goes on at one
  that is no later than that.  From this follow the tiling of a whole run, and what it takes for
  the run to throw.  Chunks that do not overlap join to the source again.
-/
import PiRlm.Shell.ContextLines

namespace PiRlm.Shell

open PiRlm.Lib PiRlm.Core ContextStore

-- ============================================================================
-- Boundaries of the store
-- ============================================================================

section Boundaries

variable {cs : List Nat} {i j : Nat}

theorem backwardBoundary_boundary (h : ∀ c ∈ cs, IsScalar c) (i : Nat) :
    Boundary cs (backwardBoundary (encode cs) i) :=
  scanBack_boundary h (min_le_right _ _)

theorem backwardBoundary_le (bytes : List Byte) (i : Nat) :
    backwardBoundary bytes i ≤ i ∧ backwardBoundary bytes i ≤ bytes.length :=
  ⟨(scanBack_le _ _).trans (min_le_left _ _), (scanBack_le _ _).trans (min_le_right _ _)⟩

theorem le_backwardBoundary (h : ∀ c ∈ cs, IsScalar c) (hj : Boundary cs j) (hle : j ≤ i) :
    j ≤ backwardBoundary (encode cs) i :=
  hj.le_scanBack h (le_min hle hj.le)

theorem lt_backwardBoundary_add (h : ∀ c ∈ cs, IsScalar c) (hi : i ≤ (encode cs).length) :
    i < backwardBoundary (encode cs) i + 4 := by
  rw [backwardBoundary, min_eq_left hi]
  exact lt_scanBack_add h hi

theorem forwardBoundary_boundary (h : ∀ c ∈ cs, IsScalar c) (i : Nat) :
    Boundary cs (forwardBoundary (encode cs) i) :=
  scanAhead_boundary h (min_le_right _ _)

theorem le_forwardBoundary {bytes : List Byte} (hi : i ≤ bytes.length) :
    i ≤ forwardBoundary bytes i := by
  rw [forwardBoundary, min_eq_left hi]
  exact le_scanAhead _ i

theorem forwardBoundary_le (h : ∀ c ∈ cs, IsScalar c) (hj : Boundary cs j) (hle : i ≤ j) :
    forwardBoundary (encode cs) i ≤ j :=
  hj.scanAhead_le h ((min_le_left _ _).trans hle)

end Boundaries

-- ============================================================================
-- One round
-- ============================================================================

theorem findFrom_eq_some {value : Byte} {bytes : List Byte} {i j : Nat}
    (h : findFrom value bytes i = some j) : i ≤ j ∧ bytes[j - i]? = some value := by
  induction bytes generalizing i with
  | nil => exact absurd h nofun
  | cons b bytes ih =>
    rw [findFrom] at h
    split at h
    · rename_i hb
      obtain rfl := Option.some.inj h
      rw [Nat.sub_self, hb]
      exact ⟨le_refl i, rfl⟩
    · obtain ⟨hle, hget⟩ := ih h
      refine ⟨Nat.le_of_succ_le hle, ?_⟩
      obtain ⟨k, rfl⟩ := Nat.exists_eq_add_of_le hle
      rw [Nat.add_sub_cancel_left] at hget
      rw [Nat.add_assoc, Nat.add_sub_cancel_left, Nat.add_comm, List.getElem?_cons_succ]
      exact hget

/-- Where a byte is found, it is. -/
theorem findByte_eq_some {value : Byte} {bytes : List Byte} {start stop j : Nat}
    (h : findByte bytes value start stop = some j) :
    start ≤ j ∧ j < stop ∧ bytes[j]? = some value := by
  obtain ⟨hle, hget⟩ := findFrom_eq_some h
  rw [List.getElem?_drop, Nat.add_sub_cancel' hle, List.getElem?_take] at hget
  split at hget
  · rename_i hlt
    exact ⟨hle, hlt, hget⟩
  · exact absurd hget nofun

/-- The options that the checks let through. -/
structure ContextStore.ChunkBytes.Valid (limits : ContextStoreLimits) (options : ChunkBytes) : Prop where
  four_le : 4 ≤ options.targetBytes
  targetBytes_le : options.targetBytes ≤ limits.maxReadBytes
  overlapBytes_le : options.overlapBytes + 4 ≤ options.targetBytes

section Round

variable {cs : List Nat} {limits : ContextStoreLimits} {options : ChunkBytes} {start : Nat}

theorem chunkEnd_cases (bytes : List Byte) (options : ChunkBytes) (start : Nat) :
    let base := backwardBoundary bytes (min bytes.length (start + options.targetBytes))
    chunkEnd bytes options start = base ∨ ∃ newline, options.line = true ∧
      chunkEnd bytes options start = newline + 1 ∧ base ≤ newline ∧
        bytes[newline]? = some newlineByte := by
  intro base
  generalize hstop : chunkEnd bytes options start = stop
  rw [chunkEnd] at hstop
  split at hstop
  · rename_i hline
    rw [Bool.and_eq_true] at hline
    split at hstop
    · exact .inl hstop.symm
    · rename_i newline hfind
      obtain ⟨hle, -, hget⟩ := findByte_eq_some hfind
      exact .inr ⟨newline, hline.1, hstop.symm, hle, hget⟩
  · exact .inl hstop.symm

/-- A chunk ends at a later boundary, within the target or behind a line feed. -/
theorem chunkEnd_spec (h : ∀ c ∈ cs, IsScalar c) (hvalid : options.Valid limits)
    (hstart : Boundary cs start) (hlt : start < (encode cs).length) :
    let stop := chunkEnd (encode cs) options start
    start < stop ∧ Boundary cs stop ∧
      backwardBoundary (encode cs) (min (encode cs).length (start + options.targetBytes)) ≤ stop ∧
      (stop ≤ start + options.targetBytes ∨
        options.line = true ∧ (encode cs)[stop - 1]? = some newlineByte) := by
  intro stop
  have hfour := hvalid.four_le
  obtain ⟨next, hnext, hnextLe, hboundary⟩ := hstart.next hlt
  have hbase : start <
      backwardBoundary (encode cs) (min (encode cs).length (start + options.targetBytes)) :=
    hnext.trans_le (le_backwardBoundary h hboundary (le_min hboundary.le (by omega)))
  have hcases : stop = _ ∨ ∃ newline, _ ∧ stop = newline + 1 ∧ _ ∧ _ :=
    chunkEnd_cases (encode cs) options start
  rcases hcases with hstop | ⟨newline, hline, hstop, hle, hget⟩
  · rw [hstop]
    refine ⟨hbase, backwardBoundary_boundary h _, le_refl _, .inl ?_⟩
    exact (backwardBoundary_le _ _).1.trans (min_le_right _ _)
  · rw [hstop]
    refine ⟨by omega, boundary_succ h hget (by decide), by omega, .inr ⟨hline, ?_⟩⟩
    rwa [Nat.add_sub_cancel]

/-- The next chunk starts at a later boundary, at the end of this one or before it, and reaches
    past this end. -/
theorem nextChunkStart_spec (h : ∀ c ∈ cs, IsScalar c) (hvalid : options.Valid limits)
    (hlt : start < (encode cs).length) {stop : Nat}
    (hstop : start < stop) (hboundary : Boundary cs stop) :
    let nextStart := nextChunkStart (encode cs) options start stop
    start < nextStart ∧ nextStart ≤ stop ∧ Boundary cs nextStart ∧
      (options.overlapBytes = 0 → nextStart = stop) ∧ stop < nextStart + options.targetBytes := by
  intro nextStart
  have hfour := hvalid.four_le
  have hoverlap := hvalid.overlapBytes_le
  by_cases hzero : options.overlapBytes = 0
  · have hnext : nextStart = stop := by
      show nextChunkStart _ _ _ _ = stop
      rw [nextChunkStart, if_pos hzero, if_neg (not_le.mpr hstop)]
    rw [hnext]
    exact ⟨hstop, le_refl stop, hboundary, fun _ => rfl, by omega⟩
  · have hback := lt_backwardBoundary_add h ((Nat.sub_le stop options.overlapBytes).trans hboundary.le)
    have hbackLe := (backwardBoundary_le (encode cs) (stop - options.overlapBytes)).1
    by_cases hless : backwardBoundary (encode cs) (stop - options.overlapBytes) ≤ start
    · -- the overlap goes back too far: one character on from the start
      have hnext : nextStart = forwardBoundary (encode cs) (start + 1) := by
        show nextChunkStart _ _ _ _ = _
        rw [nextChunkStart, if_neg hzero, if_pos hless]
      have hle := le_forwardBoundary (i := start + 1) hlt
      have hge := forwardBoundary_le h hboundary (i := start + 1) hstop
      rw [hnext]
      refine ⟨hle, hge, forwardBoundary_boundary h _, fun h' => absurd h' hzero, by omega⟩
    · have hnext : nextStart = backwardBoundary (encode cs) (stop - options.overlapBytes) := by
        show nextChunkStart _ _ _ _ = _
        rw [nextChunkStart, if_neg hzero, if_neg hless]
      rw [hnext]
      refine ⟨not_le.mp hless, by omega, backwardBoundary_boundary h _, fun h' => absurd h' hzero, ?_⟩
      omega

/-- One round of the loop: too long a chunk, the last one, or one of several. -/
theorem chunkRanges_round (h : ∀ c ∈ cs, IsScalar c) (hvalid : options.Valid limits)
    (hstart : Boundary cs start) (hlt : start < (encode cs).length) (remaining : Nat) :
    let stop := chunkEnd (encode cs) options start
    let ranges := chunkRanges limits (encode cs) options (remaining + 1) start
    (limits.maxReadBytes < stop - start ∧ ranges = .error (oversizedChunk limits)) ∨
    (stop - start ≤ limits.maxReadBytes ∧ stop = (encode cs).length ∧ ranges = .ok [⟨start, stop⟩]) ∨
    (stop - start ≤ limits.maxReadBytes ∧ stop < (encode cs).length ∧
      ranges = (chunkRanges limits (encode cs) options remaining
        (nextChunkStart (encode cs) options start stop)).map (⟨start, stop⟩ :: ·)) := by
  intro stop ranges
  obtain ⟨hstop, hboundary, -, -⟩ := chunkEnd_spec h hvalid hstart hlt
  obtain ⟨hnext, hnextLe, -⟩ := nextChunkStart_spec h hvalid hlt hstop hboundary
  have hround : ranges = if limits.maxReadBytes < stop - start then .error (oversizedChunk limits)
      else if (encode cs).length ≤ stop then .ok [⟨start, stop⟩]
      else (chunkRanges limits (encode cs) options remaining
        (nextChunkStart (encode cs) options start stop)).map (⟨start, stop⟩ :: ·) := by
    show chunkRanges limits (encode cs) options (remaining + 1) start = _
    rw [chunkRanges, if_pos hlt, if_neg (not_le.mpr hstop),
      if_neg (not_or.mpr ⟨not_le.mpr hnext, not_lt.mpr hnextLe⟩)]
  rw [hround]
  by_cases hlong : limits.maxReadBytes < stop - start
  · exact .inl ⟨hlong, if_pos hlong⟩
  · rw [if_neg hlong]
    by_cases hlast : (encode cs).length ≤ stop
    · exact .inr (.inl ⟨not_lt.mp hlong, le_antisymm hboundary.le hlast, if_pos hlast⟩)
    · exact .inr (.inr ⟨not_lt.mp hlong, not_le.mp hlast, if_neg hlast⟩)

end Round

-- ============================================================================
-- The run
-- ============================================================================

/-- Ranges that cover the bytes from `start` on. -/
structure Tiling (cs : List Nat) (maxReadBytes overlapBytes start : Nat) (ranges : List Range) :
    Prop where
  starts : ∀ range ∈ ranges.head?, range.start = start
  ends : ∀ range ∈ ranges.getLast?, range.stop = (encode cs).length
  empty : ranges = [] → start = (encode cs).length
  boundaries : ∀ range ∈ ranges, Boundary cs range.start ∧ Boundary cs range.stop
  sized : ∀ range ∈ ranges, range.start < range.stop ∧ range.stop - range.start ≤ maxReadBytes
  advancing : ranges.Pairwise fun a b => a.start < b.start ∧ a.stop ≤ b.stop
  gapless : ranges.IsChain fun a b => b.start ≤ a.stop
  adjacent : overlapBytes = 0 → ranges.IsChain fun a b => b.start = a.stop

/-- The ranges that the loop makes before it comes to another start inside the bytes. -/
inductive ChunkPath (bytes : List Byte) (options : ChunkBytes) : Nat → List Range → Nat → Prop where
  | nil {start : Nat} : start < bytes.length → ChunkPath bytes options start [] start
  | cons {start next : Nat} {ranges : List Range} : chunkEnd bytes options start < bytes.length →
    ChunkPath bytes options
      (nextChunkStart bytes options start (chunkEnd bytes options start)) ranges next →
    ChunkPath bytes options start (⟨start, chunkEnd bytes options start⟩ :: ranges) next

section Run

variable {cs : List Nat} {limits : ContextStoreLimits} {options : ChunkBytes} {start remaining : Nat}
  {ranges : List Range}

theorem tiling_nil (hstart : Boundary cs start) (hge : ¬ start < (encode cs).length)
    (maxReadBytes overlapBytes : Nat) : Tiling cs maxReadBytes overlapBytes start [] where
  starts := nofun
  ends := nofun
  empty _ := le_antisymm hstart.le (not_lt.mp hge)
  boundaries := nofun
  sized := nofun
  advancing := .nil
  gapless := .nil
  adjacent _ := .nil

theorem tiling_last {maxReadBytes : Nat} (hstart : Boundary cs start)
    (hlt : start < (encode cs).length) (hsize : (encode cs).length - start ≤ maxReadBytes)
    (overlapBytes : Nat) :
    Tiling cs maxReadBytes overlapBytes start [⟨start, (encode cs).length⟩] where
  starts := by rintro range ⟨⟩; rfl
  ends := by rintro range ⟨⟩; rfl
  empty := nofun
  boundaries := by
    intro range hrange
    obtain rfl := List.mem_singleton.mp hrange
    exact ⟨hstart, boundary_length cs⟩
  sized := by
    intro range hrange
    obtain rfl := List.mem_singleton.mp hrange
    exact ⟨hlt, hsize⟩
  advancing := List.pairwise_singleton _ _
  gapless := .singleton _
  adjacent _ := .singleton _

/-- A range in front of a tiling of the bytes from its end, or from before it, on. -/
theorem Tiling.cons {maxReadBytes overlapBytes stop next : Nat}
    (hrest : Tiling cs maxReadBytes overlapBytes next ranges) (hstart : Boundary cs start)
    (hboundary : Boundary cs stop) (hstop : start < stop) (hsize : stop - start ≤ maxReadBytes)
    (hmore : stop < (encode cs).length) (hnext : start < next) (hnextLe : next ≤ stop)
    (hadjacent : overlapBytes = 0 → next = stop) (hreach : ∀ range ∈ ranges.head?, stop ≤ range.stop) :
    Tiling cs maxReadBytes overlapBytes start (⟨start, stop⟩ :: ranges) := by
  obtain ⟨head, tail, rfl⟩ : ∃ head tail, ranges = head :: tail := by
    cases ranges with
    | nil =>
      have := hrest.empty rfl
      omega
    | cons head tail => exact ⟨head, tail, rfl⟩
  have hhead := hrest.starts head rfl
  have hheadStop := hreach head rfl
  exact
    { starts := by rintro range ⟨⟩; rfl
      ends := hrest.ends
      empty := nofun
      boundaries := List.forall_mem_cons.mpr ⟨⟨hstart, hboundary⟩, hrest.boundaries⟩
      sized := List.forall_mem_cons.mpr ⟨⟨hstop, hsize⟩, hrest.sized⟩
      advancing := by
        have hpairs := hrest.advancing
        refine List.pairwise_cons.mpr ⟨fun range hrange => ?_, hpairs⟩
        rcases List.mem_cons.mp hrange with rfl | hrange
        · exact ⟨hhead.symm ▸ hnext, hheadStop⟩
        · obtain ⟨hlater, hend⟩ := (List.pairwise_cons.mp hpairs).1 range hrange
          exact ⟨(hhead.symm ▸ hnext).trans hlater, hheadStop.trans hend⟩
      gapless := .cons_cons (hhead.symm ▸ hnextLe) hrest.gapless
      adjacent := fun hzero => .cons_cons (hhead.trans (hadjacent hzero)) (hrest.adjacent hzero) }

theorem chunkRanges_done (hge : ¬ start < (encode cs).length) :
    chunkRanges limits (encode cs) options remaining start = .ok [] := by
  cases remaining <;> exact if_neg hge

theorem chunkRanges_exhausted (hlt : start < (encode cs).length) :
    chunkRanges limits (encode cs) options 0 start =
      .error (.chunkOverflow (options.maxChunks + 1) options.maxChunks) :=
  if_pos hlt

/-- The first range starts where the loop does. -/
theorem chunkRanges_head {range : Range} (h : ∀ c ∈ cs, IsScalar c) (hvalid : options.Valid limits)
    (hstart : Boundary cs start)
    (hranges : chunkRanges limits (encode cs) options remaining start = .ok (range :: ranges)) :
    start < (encode cs).length ∧ range = ⟨start, chunkEnd (encode cs) options start⟩ := by
  by_cases hlt : start < (encode cs).length
  · refine ⟨hlt, ?_⟩
    cases remaining with
    | zero =>
      rw [chunkRanges_exhausted hlt] at hranges
      exact absurd hranges nofun
    | succ remaining =>
      rcases chunkRanges_round h hvalid hstart hlt remaining with
        ⟨-, heq⟩ | ⟨-, -, heq⟩ | ⟨-, -, heq⟩
      · exact absurd (heq.symm.trans hranges) nofun
      · exact (List.cons.inj (Except.ok.inj (hranges.symm.trans heq))).1
      · rw [heq] at hranges
        cases hrest : chunkRanges limits (encode cs) options remaining _ with
        | error => rw [hrest] at hranges; exact absurd hranges nofun
        | ok rest =>
          rw [hrest] at hranges
          exact (List.cons.inj (Except.ok.inj hranges)).1.symm
  · rw [chunkRanges_done hlt] at hranges
    exact absurd hranges nofun

/-- A run that does not throw tiles the bytes. -/
theorem chunkRanges_tiling (h : ∀ c ∈ cs, IsScalar c) (hvalid : options.Valid limits)
    (hstart : Boundary cs start)
    (hranges : chunkRanges limits (encode cs) options remaining start = .ok ranges) :
    Tiling cs limits.maxReadBytes options.overlapBytes start ranges ∧
      ranges.length ≤ remaining := by
  induction remaining generalizing start ranges with
  | zero =>
    have hge : ¬ start < (encode cs).length := by
      intro hlt
      rw [chunkRanges_exhausted hlt] at hranges
      exact absurd hranges nofun
    rw [chunkRanges_done hge] at hranges
    obtain rfl := Except.ok.inj hranges
    exact ⟨tiling_nil hstart hge _ _, le_refl 0⟩
  | succ remaining ih =>
    by_cases hlt : start < (encode cs).length
    · obtain ⟨hstop, hboundary, -, -⟩ := chunkEnd_spec h hvalid hstart hlt
      obtain ⟨hnext, hnextLe, hnextBoundary, hadjacent, hreach⟩ :=
        nextChunkStart_spec h hvalid hlt hstop hboundary
      rcases chunkRanges_round h hvalid hstart hlt remaining with
        ⟨-, heq⟩ | ⟨hsize, hlast, heq⟩ | ⟨hsize, hmore, heq⟩
      · exact absurd (heq.symm.trans hranges) nofun
      · obtain rfl := Except.ok.inj (hranges.symm.trans heq)
        rw [hlast] at hsize ⊢
        exact ⟨tiling_last hstart hlt hsize _, Nat.succ_le_succ (Nat.zero_le remaining)⟩
      · rw [heq] at hranges
        cases hrest : chunkRanges limits (encode cs) options remaining
            (nextChunkStart (encode cs) options start (chunkEnd (encode cs) options start)) with
        | error => rw [hrest] at hranges; exact absurd hranges nofun
        | ok rest =>
          rw [hrest] at hranges
          obtain rfl := Except.ok.inj hranges
          obtain ⟨htiling, hlength⟩ := ih hnextBoundary hrest
          refine ⟨htiling.cons hstart hboundary hstop hsize hmore hnext hnextLe hadjacent ?_,
            Nat.succ_le_succ hlength⟩
          -- the chunk from the next start on reaches at least as far
          intro range hrange
          obtain ⟨tail, rfl⟩ := List.head?_eq_some_iff.mp hrange
          obtain ⟨hnextLt, rfl⟩ := chunkRanges_head h hvalid hnextBoundary hrest
          refine le_trans ?_ (chunkEnd_spec h hvalid hnextBoundary hnextLt).2.2.1
          exact le_backwardBoundary h hboundary (le_min hboundary.le hreach.le)
    · rw [chunkRanges_done hlt] at hranges
      obtain rfl := Except.ok.inj hranges
      exact ⟨tiling_nil hstart hlt _ _, Nat.zero_le _⟩

/-- A run throws when a chunk that ends behind a line feed is too long, or when the chunks it may
    make leave some of the bytes. -/
theorem chunkRanges_error (h : ∀ c ∈ cs, IsScalar c) (hvalid : options.Valid limits)
    (hstart : Boundary cs start) {error : ContextError}
    (herror : chunkRanges limits (encode cs) options remaining start = .error error) :
    ∃ ranges next, ChunkPath (encode cs) options start ranges next ∧
      (error = .chunkOverflow (options.maxChunks + 1) options.maxChunks ∧ ranges.length = remaining ∨
        error = oversizedChunk limits ∧ ranges.length < remaining ∧ options.line = true ∧
          limits.maxReadBytes < chunkEnd (encode cs) options next - next ∧
          (encode cs)[chunkEnd (encode cs) options next - 1]? = some newlineByte) := by
  have hinside : start < (encode cs).length := by
    by_contra hge
    rw [chunkRanges_done hge] at herror
    exact absurd herror nofun
  induction remaining generalizing start with
  | zero =>
    rw [chunkRanges_exhausted hinside] at herror
    exact ⟨[], start, .nil hinside, .inl ⟨(Except.error.inj herror).symm, rfl⟩⟩
  | succ remaining ih =>
    obtain ⟨hstop, hboundary, -, hextended⟩ := chunkEnd_spec h hvalid hstart hinside
    obtain ⟨hnext, hnextLe, hnextBoundary, -⟩ :=
      nextChunkStart_spec h hvalid hinside hstop hboundary
    rcases chunkRanges_round h hvalid hstart hinside remaining with
      ⟨hlong, heq⟩ | ⟨-, -, heq⟩ | ⟨-, hmore, heq⟩
    · refine ⟨[], start, .nil hinside, .inr ⟨?_, Nat.succ_pos remaining, ?_⟩⟩
      · exact Except.error.inj (herror.symm.trans heq)
      · have htarget := hvalid.targetBytes_le
        rcases hextended with hshort | ⟨hline, hfeed⟩
        · omega
        · exact ⟨hline, hlong, hfeed⟩
    · exact absurd (heq.symm.trans herror) nofun
    · rw [heq] at herror
      cases hrest : chunkRanges limits (encode cs) options remaining
          (nextChunkStart (encode cs) options start (chunkEnd (encode cs) options start)) with
      | ok rest => rw [hrest] at herror; exact absurd herror nofun
      | error error' =>
        rw [hrest] at herror
        obtain rfl : error' = error := Except.error.inj herror
        obtain ⟨ranges, next, hpath, hcases⟩ := ih hnextBoundary hrest (hnextLe.trans_lt hmore)
        refine ⟨_, next, .cons hmore hpath, ?_⟩
        rw [List.length_cons]
        exact hcases.imp (fun hover => ⟨hover.1, congrArg Nat.succ hover.2⟩)
          fun hlong => ⟨hlong.1, Nat.succ_lt_succ hlong.2.1, hlong.2.2⟩

/-- Chunks without overlap are the bytes from the start on. -/
theorem chunkRanges_flatMap (h : ∀ c ∈ cs, IsScalar c) (hvalid : options.Valid limits)
    (hzero : options.overlapBytes = 0) (hstart : Boundary cs start)
    (hranges : chunkRanges limits (encode cs) options remaining start = .ok ranges) :
    ranges.flatMap (fun range => subarray (encode cs) range.start range.stop) =
      (encode cs).drop start := by
  by_cases hlt : start < (encode cs).length
  · induction remaining generalizing start ranges with
    | zero =>
      rw [chunkRanges_exhausted hlt] at hranges
      exact absurd hranges (by simp)
    | succ remaining ih =>
      obtain ⟨hstop, hboundary, -, -⟩ := chunkEnd_spec h hvalid hstart hlt
      obtain ⟨-, -, hnextBoundary, hadjacent, -⟩ :=
        nextChunkStart_spec h hvalid hlt hstop hboundary
      rcases chunkRanges_round h hvalid hstart hlt remaining with
        ⟨-, heq⟩ | ⟨-, hlast, heq⟩ | ⟨-, hmore, heq⟩
      · exact absurd (heq.symm.trans hranges) (by simp)
      · obtain rfl := Except.ok.inj (hranges.symm.trans heq)
        rw [List.flatMap_singleton, subarray, hlast, List.take_length]
      · rw [heq] at hranges
        cases hrest : chunkRanges limits (encode cs) options remaining
            (nextChunkStart (encode cs) options start (chunkEnd (encode cs) options start)) with
        | error => rw [hrest] at hranges; cases hranges
        | ok rest =>
          rw [hrest] at hranges
          obtain rfl := Except.ok.inj hranges
          rw [hadjacent hzero] at hrest
          rw [List.flatMap_cons, ih hboundary hrest hmore, subarray]
          rw [← List.drop_append_of_le_length, List.take_append_drop]
          rw [List.length_take]
          exact le_min hstop.le hlt.le
  · rw [chunkRanges_done hlt] at hranges
    obtain rfl := Except.ok.inj hranges
    rw [List.drop_eq_nil_of_le (not_lt.mp hlt)]
    rfl

end Run

-- ============================================================================
-- Commits
-- ============================================================================

/-- Different contents have different addresses. -/
def NoCollision (contents : List (List Byte)) : Prop :=
  ∀ a ∈ contents, ∀ b ∈ contents, sha256Bytes a = sha256Bytes b → a = b

theorem noCollision_of_nodup {contents : List (List Byte)}
    (h : (contents.map sha256Bytes).Nodup) : NoCollision contents :=
  fun _ ha _ hb hsame => List.inj_on_of_nodup_map h ha hb hsame

section Commit

theorem find_id {known : List Entry} {id : JsString} {existing : Entry}
    (h : known.find? (fun entry => entry.descriptor.id == id) = some existing) :
    existing ∈ known ∧ existing.descriptor.id = id := by
  refine ⟨List.mem_of_find?_eq_some h, ?_⟩
  have hid := List.find?_some h
  exact beq_iff_eq.mp hid

section Stage

variable {known rest : List Entry} {candidate : Entry}

theorem stage_known {existing : Entry}
    (h : known.find? (fun entry => entry.descriptor.id == candidate.descriptor.id) =
      some existing) :
    stage known (candidate :: rest) =
      (existing.descriptor :: (stage known rest).1, (stage known rest).2) := by
  rw [stage, h]

theorem stage_new
    (h : known.find? (fun entry => entry.descriptor.id == candidate.descriptor.id) = none) :
    stage known (candidate :: rest) =
      (candidate.descriptor :: (stage (known ++ [candidate]) rest).1,
        candidate :: (stage (known ++ [candidate]) rest).2) := by
  rw [stage, h]

end Stage

theorem stage_ids (known prepared : List Entry) :
    (stage known prepared).1.map (·.id) = prepared.map (·.descriptor.id) := by
  induction prepared generalizing known with
  | nil => rfl
  | cons candidate rest ih =>
    cases hfind : known.find? fun entry => entry.descriptor.id == candidate.descriptor.id with
    | some existing =>
      rw [stage_known hfind, List.map_cons, List.map_cons, ← (find_id hfind).2, ih]
    | none =>
      rw [stage_new hfind, List.map_cons, List.map_cons, ih]

/-- Each prepared entry is found by its address afterwards. -/
theorem stage_mem {known prepared : List Entry} {candidate : Entry} (h : candidate ∈ prepared) :
    ∃ entry ∈ known ++ (stage known prepared).2,
      entry.descriptor.id = candidate.descriptor.id := by
  induction prepared generalizing known with
  | nil => exact absurd h List.not_mem_nil
  | cons first rest ih =>
    cases hfind : known.find? fun entry => entry.descriptor.id == first.descriptor.id with
    | some existing =>
      rw [stage_known hfind]
      rcases List.mem_cons.mp h with rfl | h
      · exact ⟨existing, List.mem_append_left _ (find_id hfind).1, (find_id hfind).2⟩
      · exact ih h
    | none =>
      have hadded : known ++ first :: (stage (known ++ [first]) rest).2 =
          known ++ [first] ++ (stage (known ++ [first]) rest).2 := by
        rw [List.append_assoc]
        rfl
      rw [stage_new hfind]
      dsimp only
      rw [hadded]
      rcases List.mem_cons.mp h with rfl | h
      · exact ⟨candidate, List.mem_append_left _ (List.mem_append_right _ List.mem_cons_self), rfl⟩
      · exact ih h

theorem stage_sublist (known prepared : List Entry) :
    (stage known prepared).2.Sublist prepared := by
  induction prepared generalizing known with
  | nil => exact List.Sublist.refl []
  | cons candidate rest ih =>
    cases hfind : known.find? fun entry => entry.descriptor.id == candidate.descriptor.id with
    | some existing =>
      rw [stage_known hfind]
      exact (ih known).cons candidate
    | none =>
      rw [stage_new hfind]
      exact (ih (known ++ [candidate])).cons_cons candidate

variable {store : ContextStore} {control : ContextOperationControl} {prepared : List Entry}

theorem commitPrepared_eq_ok {result : ContextStore × List ContextDescriptor}
    (h : store.commitPrepared control prepared = .ok result) :
    result = ({ store with entries := store.entries ++ (stage store.entries prepared).2 },
      (stage store.entries prepared).1) := by
  rw [commitPrepared] at h
  split at h
  · exact absurd h nofun
  · cases hlimit : outputLimit control with
    | error => rw [hlimit] at h; exact absurd h nofun
    | ok maxOutputBytes =>
      rw [hlimit, Except.bind] at h
      split at h
      · exact absurd h nofun
      · split at h
        · exact absurd h nofun
        · exact (Except.ok.inj h).symm

/-- Entries that fit the limit are committed when they are published. -/
theorem commitPrepared_ok {limit : Nat} (hlimit : outputLimit control = .ok limit)
    (hsafe : limit ≤ maxSafeInteger)
    (hsize : (prepared.map fun entry => entry.descriptor.bytes).sum ≤ limit)
    (hpublish : ∀ entries, control.publish entries = none) :
    ∃ result, store.commitPrepared control prepared = .ok result := by
  have hdelta : ((stage store.entries prepared).2.map fun entry => entry.descriptor.bytes).sum ≤
      limit :=
    (((stage_sublist store.entries prepared).map _).sum_le_sum fun _ _ => Nat.zero_le _).trans hsize
  rw [commitPrepared, if_neg (by omega), hlimit, Except.bind, if_neg (by omega), hpublish, ite_self]
  exact ⟨_, rfl⟩

/-- Entries that are known already are committed without any effect. -/
theorem commitPrepared_known {candidate existing : Entry}
    (hfind : store.entries.find? (fun entry => entry.descriptor.id == candidate.descriptor.id) =
      some existing)
    {limit : Nat} (hlimit : outputLimit control = .ok limit) :
    store.commitPrepared control [candidate] = .ok (store, [existing.descriptor]) := by
  have hstage : stage store.entries [candidate] = ([existing.descriptor], []) :=
    stage_known hfind
  rw [commitPrepared, hstage]
  show (if maxSafeInteger < 0 then _ else _) = _
  rw [if_neg (Nat.not_lt_zero _), hlimit, Except.bind]
  show (if limit < 0 then _ else _) = _
  rw [if_neg (Nat.not_lt_zero _)]
  show Except.ok ({ store with entries := store.entries ++ [] }, [existing.descriptor]) = _
  rw [List.append_nil]

/-- A prepared entry is found under its address, with its own bytes. -/
theorem entryOrThrow_commit (hcollision : NoCollision ((store.entries ++ prepared).map (·.bytesArray)))
    {candidate : Entry} (h : candidate ∈ prepared) :
    (({ store with entries := store.entries ++ (stage store.entries prepared).2 } :
        ContextStore).entryOrThrow candidate.descriptor.id).map Entry.bytesArray =
      .ok candidate.bytesArray := by
  obtain ⟨entry, hentry, hid⟩ := @stage_mem store.entries _ _ h
  rw [entryOrThrow]
  cases hfind : (store.entries ++ (stage store.entries prepared).2).find?
      fun entry => entry.descriptor.id == candidate.descriptor.id with
  | none => exact absurd (beq_iff_eq.mpr hid) (List.find?_eq_none.mp hfind entry hentry)
  | some found =>
    obtain ⟨hmem, hsame⟩ := find_id hfind
    rw [found.id_eq, candidate.id_eq] at hsame
    have hhash : sha256Bytes found.bytesArray = sha256Bytes candidate.bytesArray :=
      List.append_cancel_left hsame
    have hfound : found ∈ store.entries ++ prepared := by
      rcases List.mem_append.mp hmem with hold | hnew
      · exact List.mem_append_left _ hold
      · exact List.mem_append_right _ ((stage_sublist _ _).subset hnew)
    exact congrArg Except.ok (hcollision _ (List.mem_map_of_mem hfound) _
      (List.mem_map_of_mem (List.mem_append_right _ h)) hhash)

theorem mapM_eq_ok {α β ε : Type} {f : α → Except ε β} {g : α → β} {xs : List α}
    (h : ∀ x ∈ xs, f x = .ok (g x)) : xs.mapM f = .ok (xs.map g) := by
  induction xs with
  | nil => rfl
  | cons x xs ih =>
    rw [List.forall_mem_cons] at h
    rw [List.mapM_cons, h.1, ih h.2]
    rfl

theorem joinParts_nil (parts : List (List Byte)) : joinParts [] parts = parts.flatten := by
  induction parts with
  | nil => rfl
  | cons part rest ih =>
    cases rest with
    | nil => exact (List.append_nil part).symm
    | cons next rest =>
      show part ++ [] ++ joinParts [] (next :: rest) = _
      rw [ih, List.append_nil]
      rfl

theorem chunkEntries_bytes (entry : Entry) (ranges : List Range) (index : Nat) :
    (chunkEntries entry ranges index).map (·.bytesArray) =
      ranges.map fun range => subarray entry.bytesArray range.start range.stop := by
  induction ranges generalizing index with
  | nil => rfl
  | cons range rest ih =>
    rw [chunkEntries, List.map_cons, ih]
    rfl

end Commit

-- ============================================================================
-- Chunks and their concatenation
-- ============================================================================

section Chunks

variable {store : ContextStore} {id : JsString} {entry : Entry} {control : ContextOperationControl}

theorem find_of_entryOrThrow (h : store.entryOrThrow id = .ok entry) :
    store.entries.find? (fun entry => entry.descriptor.id == id) = some entry := by
  rw [entryOrThrow] at h
  split at h
  · exact absurd h (by simp)
  · rename_i hfind
    obtain rfl := Except.ok.inj h
    exact hfind

/-- Parts that join to a stored content give the descriptor that is stored. -/
theorem concat_stored {refs : List JsString} {parts : List (List Byte)} {limit : Nat}
    (hfind : store.entries.find? (fun entry => entry.descriptor.id == id) = some entry)
    (hparts : refs.mapM (fun ref => (store.entryOrThrow ref).map Entry.bytesArray) = .ok parts)
    (hjoin : parts.flatten = entry.bytesArray) (hlimit : outputLimit control = .ok limit)
    (key : JsString) (label : Option JsString) :
    store.concat control ⟨key, refs, some [], label⟩ = .ok (store, entry.descriptor) := by
  obtain ⟨hmem, hid⟩ := find_id hfind
  have hbytes : joinParts [] parts = entry.bytesArray := (joinParts_nil parts).trans hjoin
  have hknown : store.entries.find? (fun entry =>
      entry.descriptor.id == makeId (sha256Bytes (joinParts [] parts))) = some entry := by
    rw [hbytes, ← entry.id_eq, hid]
    exact hfind
  have hstored : store.entries.all
      (fun entry => entry.descriptor.bytes != (joinParts [] parts).length) = false := by
    rw [List.all_eq_false]
    refine ⟨entry, hmem, ?_⟩
    rw [hbytes, entry.bytes_eq, bne_self_eq_false]
    exact nofun
  have hlength : (joinParts [] parts).length ≤ maxSafeInteger := hbytes ▸ entry.length_le
  rw [concat, hparts]
  show (if h : (joinParts [] parts).length ≤ maxSafeInteger then _ else _) = _
  rw [dif_pos hlength, if_neg fun h => ne_true_of_eq_false hstored h.2]
  show (store.commitPrepared control
    [prepareBytes _ (js "text/plain") (joinParts [] parts) hlength]).bind _ = _
  rw [commitPrepared_known hknown hlimit]
  rfl

/-- What the checks of the options let through. -/
theorem chunkBytes_valid {limits : ContextStoreLimits} {options : ChunkOptions} {b : ChunkBytes}
    (h : chunkBytes limits options = .ok b) :
    b.Valid limits ∧ (options.overlapTokens = none → b.overlapBytes = 0) := by
  rw [chunkBytes] at h
  cases htarget : boundedInteger options.targetTokens (js "targetTokens") 1
      (limits.maxReadBytes / 4) with
  | error => rw [htarget] at h; exact absurd h nofun
  | ok targetTokens =>
    rw [htarget, Except.bind] at h
    cases hoverlap : overlapOf targetTokens options.overlapTokens with
    | error => rw [hoverlap] at h; exact absurd h nofun
    | ok overlapTokens =>
      rw [hoverlap, Except.bind] at h
      cases hmax : boundedInteger options.maxChunks (js "maxChunks") 1 limits.maxChunks with
      | error => rw [hmax] at h; exact absurd h nofun
      | ok maxChunks =>
        rw [hmax, Except.bind] at h
        split at h
        · exact absurd h nofun
        · obtain rfl := Except.ok.inj h
          obtain ⟨-, hpos, hle⟩ := boundedInteger_eq_ok htarget
          have hless : overlapTokens + 1 ≤ targetTokens := by
            cases htokens : options.overlapTokens with
            | none =>
              rw [htokens] at hoverlap
              obtain rfl := Except.ok.inj hoverlap
              omega
            | some tokens =>
              rw [htokens] at hoverlap
              have := (boundedInteger_eq_ok hoverlap).2
              omega
          refine ⟨⟨?_, ?_, ?_⟩, fun hnone => ?_⟩
          · show 4 ≤ targetTokens * 4
            omega
          · show targetTokens * 4 ≤ limits.maxReadBytes
            omega
          · show overlapTokens * 4 + 4 ≤ targetTokens * 4
            omega
          · rw [hnone] at hoverlap
            obtain rfl := Except.ok.inj hoverlap
            rfl

/-- How a call of `chunks` comes out: the ranges it commits tile the text, or it throws since
    there would be too many of them or one would be too long. -/
inductive ChunksOf (store : ContextStore) (control : ContextOperationControl) (id : JsString)
    (options : ChunkOptions) (text : JsString) (entry : Entry) (b : ChunkBytes) : Prop where
  | tiled (ranges : List Range) :
    chunkRanges store.limits (utf8 text) b b.maxChunks 0 = .ok ranges →
    store.chunks control id options = store.commitPrepared control (chunkEntries entry ranges 0) →
    (chunkEntries entry ranges 0).map (·.bytesArray) =
      ranges.map (fun range => subarray (utf8 text) range.start range.stop) →
    Tiling (scalars text) store.limits.maxReadBytes b.overlapBytes 0 ranges →
    ranges.length ≤ b.maxChunks →
    -- without overlap the ranges are adjacent, and what is committed joins to the source
    (options.overlapTokens = none → ranges.IsChain (fun a b => b.start = a.stop) ∧
      ∀ store' descriptors, store.chunks control id options = .ok (store', descriptors) →
      NoCollision ((store.entries ++ chunkEntries entry ranges 0).map (·.bytesArray)) →
      ∀ control' limit key label, outputLimit control' = .ok limit →
        ∃ store'' descriptor, store'.concat control' ⟨key, descriptors.map (·.id), some [], label⟩ =
          .ok (store'', descriptor) ∧ descriptor.id = id) →
    ChunksOf store control id options text entry b
  | tooMany (ranges : List Range) (next : Nat) :
    store.chunks control id options = .error (.chunkOverflow (b.maxChunks + 1) b.maxChunks) →
    ChunkPath (utf8 text) b 0 ranges next → ranges.length = b.maxChunks →
    ChunksOf store control id options text entry b
  | tooLong (ranges : List Range) (next : Nat) :
    store.chunks control id options = .error (oversizedChunk store.limits) →
    ChunkPath (utf8 text) b 0 ranges next → b.line = true →
    store.limits.maxReadBytes < chunkEnd (utf8 text) b next - next →
    (utf8 text)[chunkEnd (utf8 text) b next - 1]? = some newlineByte →
    ChunksOf store control id options text entry b

theorem chunks_eq {text : JsString} {options : ChunkOptions} {b : ChunkBytes}
    (hentry : store.entryOrThrow id = .ok entry) (htext : entry.bytesArray = utf8 text)
    (hoptions : chunkBytes store.limits options = .ok b) (control : ContextOperationControl) :
    store.chunks control id options =
      (chunkRanges store.limits (utf8 text) b b.maxChunks 0).bind fun ranges =>
        store.commitPrepared control (chunkEntries entry ranges 0) := by
  rw [chunks, hentry, Except.bind, hoptions, htext]
  rfl

/-- Chunks tile the text they are made of. -/
theorem chunks_tile {text : JsString} {options : ChunkOptions} {b : ChunkBytes}
    (hentry : store.entryOrThrow id = .ok entry) (htext : entry.bytesArray = utf8 text)
    (hoptions : chunkBytes store.limits options = .ok b) (control : ContextOperationControl) :
    ChunksOf store control id options text entry b := by
  have hscalars := isScalar_scalars text
  obtain ⟨hvalid, hoverlap⟩ := chunkBytes_valid hoptions
  have hencode : utf8 text = encode (scalars text) := utf8_eq_encode text
  have hchunks := chunks_eq hentry htext hoptions control
  cases hranges : chunkRanges store.limits (utf8 text) b b.maxChunks 0 with
  | error error =>
    rw [hranges] at hchunks
    rw [hencode] at hranges
    obtain ⟨ranges, next, hpath, hcases⟩ :=
      chunkRanges_error hscalars hvalid (boundary_zero _) hranges
    rw [← hencode] at hpath hcases
    rcases hcases with ⟨rfl, hlength⟩ | ⟨rfl, -, hline, hlong, hfeed⟩
    · exact .tooMany ranges next hchunks hpath hlength
    · exact .tooLong ranges next hchunks hpath hline hlong hfeed
  | ok ranges =>
    rw [hranges] at hchunks
    have hfound := hranges
    rw [hencode] at hranges
    obtain ⟨htiling, hlength⟩ := chunkRanges_tiling hscalars hvalid (boundary_zero _) hranges
    have hbytes := chunkEntries_bytes entry ranges 0
    rw [htext] at hbytes
    refine .tiled ranges hfound hchunks hbytes htiling hlength fun hnone => ?_
    refine ⟨htiling.adjacent (hoverlap hnone), ?_⟩
    intro store' descriptors hok hcollision control' limit key label hlimit
    have hcommit := commitPrepared_eq_ok (hchunks.symm.trans hok)
    obtain ⟨rfl, rfl⟩ := Prod.mk.inj hcommit
    -- the source is still stored, and the parts are its chunks
    have hfind := find_of_entryOrThrow hentry
    have hparts : ((stage store.entries (chunkEntries entry ranges 0)).1.map (·.id)).mapM
        (fun ref => (({ store with entries := store.entries ++
          (stage store.entries (chunkEntries entry ranges 0)).2 } : ContextStore).entryOrThrow
            ref).map Entry.bytesArray) = .ok ((chunkEntries entry ranges 0).map (·.bytesArray)) := by
      rw [stage_ids, List.mapM_map]
      exact mapM_eq_ok fun candidate hmem => entryOrThrow_commit hcollision hmem
    have hjoin : ((chunkEntries entry ranges 0).map (·.bytesArray)).flatten = entry.bytesArray := by
      rw [hbytes, ← List.flatMap_def, htext, hencode,
        chunkRanges_flatMap hscalars hvalid (hoverlap hnone) (boundary_zero _) hranges]
      rfl
    have hfind' : (store.entries ++ (stage store.entries (chunkEntries entry ranges 0)).2).find?
        (fun entry => entry.descriptor.id == id) = some entry := by
      rw [List.find?_append, hfind]
      rfl
    exact ⟨_, entry.descriptor, concat_stored hfind' hparts hjoin hlimit key label,
      (find_id hfind).2⟩

/-- Three chunks of at most four bytes, none of which splits a code point, are joined to the
    text they are made of. -/
theorem chunks_emoji :
    let text := fromScalars [0x61, 0xE9, 0x1F600, 0x62]
    let store := textStore text (by decide +kernel)
    let id := makeId (sha256Bytes (utf8 text))
    let options : ChunkOptions :=
      { targetTokens := 1, overlapTokens := none, maxChunks := 3, boundary := none }
    let b : ChunkBytes := { targetBytes := 4, overlapBytes := 0, maxChunks := 3, line := false }
    let control : ContextOperationControl := ⟨some 8, fun _ => none⟩
    chunkRanges store.limits (utf8 text) b 3 0 = .ok [⟨0, 3⟩, ⟨3, 7⟩, ⟨7, 8⟩] ∧
      ∃ chunked descriptors joined descriptor,
        store.chunks control id options = .ok (chunked, descriptors) ∧
        chunked.concat control ⟨js "joined", descriptors.map (·.id), some [], none⟩ =
          .ok (joined, descriptor) ∧ descriptor.id = id := by
  intro text store id options b control
  have hranges : chunkRanges store.limits (utf8 text) b 3 0 =
      .ok [⟨0, 3⟩, ⟨3, 7⟩, ⟨7, 8⟩] := by decide +kernel
  have hoptions : chunkBytes store.limits options = .ok b := by decide +kernel
  let entry := prepareBytes (js "text") (js "text/plain") (utf8 text) (by decide +kernel)
  have hentry : store.entryOrThrow id = .ok entry := textStore_entry text (by decide +kernel)
  have hlimit : outputLimit control = .ok 8 := by decide
  have hchunks := chunks_eq hentry rfl hoptions control
  rw [hranges, Except.bind] at hchunks
  obtain ⟨⟨chunked, descriptors⟩, hcommit⟩ := @commitPrepared_ok store control
    (chunkEntries entry [⟨0, 3⟩, ⟨3, 7⟩, ⟨7, 8⟩] 0) 8 hlimit (by decide +kernel)
    (by decide +kernel) fun _ => rfl
  have hok := hchunks.trans hcommit
  refine ⟨hranges, chunked, descriptors, ?_⟩
  cases chunks_tile hentry rfl hoptions control with
  | tiled ranges hfound _ hbytes _ _ hjoined =>
    obtain rfl := Except.ok.inj (hranges.symm.trans hfound)
    have hcollision : NoCollision
        ((store.entries ++ chunkEntries entry [⟨0, 3⟩, ⟨3, 7⟩, ⟨7, 8⟩] 0).map (·.bytesArray)) := by
      rw [List.map_append, hbytes]
      exact noCollision_of_nodup (by decide +kernel)
    obtain ⟨joined, descriptor, hconcat, hid⟩ :=
      (hjoined rfl).2 chunked descriptors hok hcollision control 8 (js "joined") none hlimit
    exact ⟨joined, descriptor, hok, hconcat, hid⟩
  | tooMany ranges next herror => exact absurd (hok.symm.trans herror) (by simp)
  | tooLong ranges next herror => exact absurd (hok.symm.trans herror) (by simp)

end Chunks

end PiRlm.Shell

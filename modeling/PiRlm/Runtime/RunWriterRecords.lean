/-
  PiRlm.Runtime.RunWriterRecords

  The record codec of `runtime/run-writer-protocol.ts` is exact: an input decodes to a
  record exactly when it is what that record is encoded to.
-/
import Mathlib
import PiRlm.Runtime.RunWriterProtocol

namespace PiRlm.Runtime

open PiRlm.Lib PiRlm.Lib.Json PiRlm.Core PiRlm.Shell

variable {N : Type} [JsonNumber N]

-- ============================================================================
-- Checks that pass
-- ============================================================================

theorem bind_eq_ok {E α β : Type} {x : Except E α} {f : α → Except E β} {b : β} :
    (x >>= f) = .ok b ↔ ∃ a, x = .ok a ∧ f a = .ok b := by
  cases x with
  | error e => exact ⟨nofun, fun ⟨_, h, _⟩ => absurd h nofun⟩
  | ok a => exact ⟨fun h => ⟨a, rfl, h⟩, fun ⟨_, h, hf⟩ => Except.ok.inj h ▸ hf⟩

theorem map_eq_ok {E α β : Type} {x : Except E α} {f : α → β} {b : β} :
    x.map f = .ok b ↔ ∃ a, x = .ok a ∧ f a = b := by
  cases x with
  | error e => exact ⟨nofun, fun ⟨_, h, _⟩ => absurd h nofun⟩
  | ok a =>
    exact ⟨fun h => ⟨a, rfl, Except.ok.inj h⟩, fun ⟨_, h, hf⟩ => Except.ok.inj h ▸ congrArg _ hf⟩

theorem require_eq_ok {passed : Bool} {message : JsString} {u : Unit} :
    require passed message = .ok u ↔ passed = true := by
  cases passed with
  | true => exact ⟨fun _ => rfl, fun _ => rfl⟩
  | false => exact ⟨nofun, nofun⟩

omit [JsonNumber N] in
theorem stringField_eq_ok {value : Option (Json N)} {pattern : JsString → Bool}
    {label s : JsString} :
    stringField value pattern label = .ok s ↔ value = some (.str s) ∧ pattern s = true := by
  unfold stringField
  split
  · rename_i s'
    rw [map_eq_ok]
    constructor
    · rintro ⟨u, hpattern, rfl⟩
      exact ⟨rfl, require_eq_ok.mp hpattern⟩
    · rintro ⟨hvalue, hpattern⟩
      obtain rfl := Json.str.inj (Option.some.inj hvalue)
      exact ⟨(), require_eq_ok.mpr hpattern, rfl⟩
  · rename_i hne
    exact ⟨nofun, fun h => absurd h.1 (hne s)⟩

omit [JsonNumber N] in
theorem nullableField_nullable {s : Option JsString} {pattern : JsString → Bool}
    {label : JsString} {r : Option JsString} :
    nullableField (N := N) (some (nullable s)) pattern label = .ok r ↔
      r = s ∧ s.all pattern = true := by
  cases s with
  | none =>
    refine ⟨fun h => ⟨(Except.ok.inj h).symm, rfl⟩, ?_⟩
    rintro ⟨rfl, -⟩
    rfl
  | some s =>
    show (stringField (N := N) (some (.str s)) pattern label).map some = .ok r ↔ _
    rw [map_eq_ok]
    constructor
    · rintro ⟨t, ht, rfl⟩
      obtain ⟨hvalue, hpattern⟩ := stringField_eq_ok.mp ht
      obtain rfl := Json.str.inj (Option.some.inj hvalue)
      exact ⟨rfl, hpattern⟩
    · rintro ⟨rfl, hpattern⟩
      exact ⟨s, stringField_eq_ok.mpr ⟨rfl, hpattern⟩, rfl⟩

theorem isSafeInteger_ofNat {n : Nat} (h : n ≤ maxSafeInteger) :
    isSafeInteger (JsonNumber.ofNat n : N) = true := by
  rw [isSafeInteger, JsonNumber.value_ofNat n h, decide_eq_true_eq]
  refine ⟨Rat.den_natCast n, ?_⟩
  rw [Rat.num_natCast, Nat.abs_cast]
  exact_mod_cast h

theorem safeInteger_number {n minimum : Nat} {label : JsString} (h : n ≤ maxSafeInteger)
    (hmin : minimum ≤ n) : safeInteger (some (number N n)) label minimum = .ok n := by
  have hvalue : (JsonNumber.value (JsonNumber.ofNat n : N)) = n := JsonNumber.value_ofNat n h
  have hle : ((minimum : ℚ) ≤ JsonNumber.value (JsonNumber.ofNat n : N)) := by
    rw [hvalue]
    exact_mod_cast hmin
  show (require (isSafeInteger (JsonNumber.ofNat n : N) && decide _) _).map _ = _
  rw [isSafeInteger_ofNat h, decide_eq_true hle, hvalue]
  rfl

theorem safeInteger_checkedNumber {n minimum k : Nat} {label : JsString} :
    safeInteger (N := N) (checkedNumber n) label minimum = .ok k ↔
      k = n ∧ n ≤ maxSafeInteger ∧ minimum ≤ n := by
  unfold checkedNumber
  split
  · rename_i hle
    by_cases hmin : minimum ≤ n
    · rw [safeInteger_number hle hmin, Except.ok.injEq]
      exact ⟨fun h => ⟨h.symm, hle, hmin⟩, fun h => h.1.symm⟩
    · -- the check against the minimum fails
      have hvalue : (JsonNumber.value (JsonNumber.ofNat n : N)) = n := JsonNumber.value_ofNat n hle
      have hlt : ¬((minimum : ℚ) ≤ JsonNumber.value (JsonNumber.ofNat n : N)) := by
        rw [hvalue]
        exact_mod_cast hmin
      refine ⟨fun h => ?_, fun h => absurd h.2.2 hmin⟩
      obtain ⟨u, hpassed, -⟩ := map_eq_ok.mp h
      rw [require_eq_ok, decide_eq_false hlt, Bool.and_false] at hpassed
      exact absurd hpassed nofun
  · rename_i hgt
    exact ⟨nofun, fun h => absurd h.2.1 hgt⟩

theorem isDecimal_decimal (n : Nat) : isDecimal (decimal n) = true := by
  by_cases h : n = 0
  · subst h
    rfl
  · rw [isDecimal, isOrdinal_decimal (Nat.pos_of_ne_zero h), Bool.or_true]

omit [JsonNumber N] in
theorem decimalField_decimal (n : Nat) (label : JsString) :
    decimalField (N := N) (some (.str (decimal n))) label = .ok n := by
  have hstring : stringField (N := N) (some (.str (decimal n))) isDecimal label =
      .ok (decimal n) := stringField_eq_ok.mpr ⟨rfl, isDecimal_decimal n⟩
  rw [decimalField, hstring]
  show (require (decimal (digitsValue (decimal n)) == decimal n) _).map _ = _
  rw [digitsValue_decimal, beq_self_eq_true]
  rfl

omit [JsonNumber N] in
theorem roleField_text (role : ArbitrationRole) :
    roleField (N := N) (some (.str role.text)) = .ok role := by
  cases role <;> rfl

theorem isVersionOne_number : isVersionOne (some (number N 1)) = true := by
  have hvalue : JsonNumber.value (JsonNumber.ofNat 1 : N) = ((1 : Nat) : ℚ) :=
    JsonNumber.value_ofNat 1 (by decide)
  show decide (JsonNumber.value (JsonNumber.ofNat 1 : N) = 1) = true
  rw [hvalue, Nat.cast_one]
  exact decide_eq_true rfl

-- ============================================================================
-- Valid records
-- ============================================================================

/-- What `validateGeneration` demands of a typed record. -/
structure GenerationRecord.Valid (record : GenerationRecord) : Prop where
  token : isHash record.token = true
  predecessor : record.predecessor.all isHash = true
  ordinal_pos : 1 ≤ record.ordinal
  ordinal_le : record.ordinal ≤ maxArbitrationOrdinal
  ordinal_one : record.ordinal = 1 ↔ record.predecessor = none
  retirement : record.ordinal = maxArbitrationOrdinal ↔ record.role = .retirement
  runName : isRunName record.runName = true
  pid_pos : 1 ≤ record.pid
  pid_le : record.pid ≤ 0x7fffffff
  processNonce : isHash record.processNonce = true
  osProcessIdentity : record.osProcessIdentity.all isOsIdentity = true
  createdAtMs : record.createdAtMs ≤ maxSafeInteger

structure ReleaseRecord.Valid (record : ReleaseRecord) : Prop where
  token : isHash record.token = true
  generation : isHash record.generation = true
  processNonce : isHash record.processNonce = true
  releasedAtMs : record.releasedAtMs ≤ maxSafeInteger

theorem validateGeneration_fields {record r : GenerationRecord} :
    validateGeneration (N := N) record.fields = .ok r ↔ r = record ∧ record.Valid := by
  simp only [validateGeneration, GenerationRecord.fields, bind_eq_ok, require_eq_ok,
    stringField_eq_ok, nullableField_nullable, safeInteger_checkedNumber, roleField_text,
    isVersionOne_number, isText, beq_self_eq_true, Bool.and_true, Bool.and_eq_true,
    decide_eq_true_eq, beq_iff_eq, Except.ok.injEq]
  constructor
  · rintro ⟨-, -, -, htoken, -, hpredecessor, -, ⟨hpos, -⟩, -, hle, -, hone, role, rfl, -, hretirement,
      runName, ⟨hname, hrunName⟩, pid, ⟨rfl, -, hpid⟩, -, hpidle, processNonce, ⟨hnonce, hprocess⟩,
      osProcessIdentity, ⟨rfl, hos⟩, createdAtMs, ⟨rfl, hcreated, -⟩, hrecord⟩
    obtain rfl := Json.str.inj (Option.some.inj hname)
    obtain rfl := Json.str.inj (Option.some.inj hnonce)
    obtain rfl := Except.ok.inj hrecord
    refine ⟨rfl, htoken, hpredecessor, of_decide_eq_true hpos, of_decide_eq_true hle, ?_,
      decide_eq_decide.mp hretirement, hrunName, hpid, hpidle, hprocess, hos, hcreated⟩
    rw [← Option.isNone_iff_eq_none, ← hone]
    exact (decide_eq_true_iff (p := record.ordinal = 1)).symm
  · rintro ⟨rfl, h⟩
    have hsafe : r.ordinal ≤ maxSafeInteger := h.ordinal_le.trans (by decide)
    have hpid : r.pid ≤ maxSafeInteger := h.pid_le.trans (by decide)
    have hone : decide (r.ordinal = 1) = r.predecessor.isNone := by
      rw [Bool.eq_iff_iff, decide_eq_true_eq, Option.isNone_iff_eq_none]
      exact h.ordinal_one
    exact ⟨(), trivial, (), h.token, (), h.predecessor, (),
      ⟨decide_eq_true h.ordinal_pos, decide_eq_true hsafe⟩, (), decide_eq_true h.ordinal_le, (),
      hone, r.role, rfl, (), decide_eq_decide.mpr h.retirement, r.runName, ⟨rfl, h.runName⟩, r.pid,
      ⟨rfl, hpid, h.pid_pos⟩, (), h.pid_le, r.processNonce, ⟨rfl, h.processNonce⟩,
      r.osProcessIdentity, ⟨rfl, h.osProcessIdentity⟩, r.createdAtMs,
      ⟨rfl, h.createdAtMs, Nat.zero_le _⟩, rfl⟩

theorem validateRelease_fields {record r : ReleaseRecord} :
    validateRelease (N := N) record.fields = .ok r ↔ r = record ∧ record.Valid := by
  simp only [validateRelease, ReleaseRecord.fields, bind_eq_ok, require_eq_ok, isVersionOne_number,
    isText, beq_self_eq_true, Bool.and_true]
  constructor
  · rintro ⟨-, -, -, htoken, -, hgeneration, -, hnonce, -, hreleased, hrecord⟩
    obtain rfl := Except.ok.inj hrecord
    exact ⟨rfl, htoken, hgeneration, hnonce, of_decide_eq_true hreleased⟩
  · rintro ⟨rfl, h⟩
    exact ⟨(), trivial, (), h.token, (), h.generation, (), h.processNonce, (),
      decide_eq_true h.releasedAtMs, rfl⟩

-- ============================================================================
-- The text of a record
-- ============================================================================

/-- The members of a wire object: no array index among the keys, each key once, and no
    container among the values. -/
def isWire (wire : RecordValue N) : Bool :=
  decide (wire.map Prod.fst).Nodup && (wire.map Prod.fst).all (fun key => !isArrayIndex key) &&
    wire.all fun field => match field.2 with
      | .arr _ => false
      | .obj _ => false
      | _ => true

omit [JsonNumber N] in
theorem isWire_owned {wire : RecordValue N} (h : isWire wire = true) : (Json.obj wire).Owned := by
  simp only [isWire, Bool.and_eq_true, decide_eq_true_eq, List.all_eq_true] at h
  obtain ⟨⟨hnodup, hkeys⟩, hvalues⟩ := h
  rw [owned_obj]
  refine ⟨⟨hnodup, ownOrder_eq_self fun field hmem => ?_⟩, fun field hmem => ?_⟩
  · have hkey := hkeys field.1 (List.mem_map_of_mem hmem)
    rwa [Bool.not_eq_true'] at hkey
  · have hvalue := hvalues field hmem
    cases hfield : field.2 with
    | arr items => rw [hfield] at hvalue; exact absurd hvalue nofun
    | obj fields => rw [hfield] at hvalue; exact absurd hvalue nofun
    | null | bool | num | str => rfl

/-- The text of an object and a newline is read back. -/
theorem parseRaw_render_newline (v : Json N) : parseRaw (v.render ++ [0x0A]) = some v := by
  have hlength : v.render.length < (v.render ++ [0x0A]).length + 1 := by
    rw [List.length_append]
    omega
  have h := reads v _ [0x0A] hlength (numberStop_cons (by decide) [])
  rw [parseRaw, h]
  rfl

/-- The encoding of a wire object is parsed to its members. -/
theorem parseWire_bytes {wire : RecordValue N} {keys : List JsString} {label : JsString}
    {input : List Byte} (hbytes : recordBytes wire = .ok input) (hwire : isWire wire = true)
    (hkeys : wire.map Prod.fst = keys) : parseWire N input keys label = .ok wire := by
  obtain ⟨u, hlimit, rfl⟩ := map_eq_ok.mp hbytes
  rw [require_eq_ok, decide_eq_true_eq] at hlimit
  have hformed : WellFormed ((Json.obj wire).render ++ [0x0A]) :=
    (render_wellFormed _).append (by decide)
  obtain ⟨v, rest, hrender, -, -, hascii⟩ := render_head (Json.obj wire)
  have hnonempty : (utf8 ((Json.obj wire).render ++ [0x0A])).length ≠ 0 := by
    intro hzero
    have hdecoded := utf8DecodeFatal_utf8 hformed
    rw [List.length_eq_zero_iff.mp hzero] at hdecoded
    have hempty : (Json.obj wire).render ++ [0x0A] = [] := (Option.some.inj hdecoded).symm
    exact absurd (List.append_eq_nil_iff.mp hempty).2 nofun
  have htext : textDecode (utf8 ((Json.obj wire).render ++ [0x0A])) =
      some ((Json.obj wire).render ++ [0x0A]) := by
    rw [textDecode, utf8DecodeFatal_utf8 hformed, Option.map_some, hrender]
    refine congrArg some (if_neg ?_)
    rintro rfl
    exact absurd hascii (by decide)
  have hnewline : [0x0A] <:+ (Json.obj wire).render ++ [0x0A] ∧
      ¬[0x0A, 0x0A] <:+ (Json.obj wire).render ++ [0x0A] := by
    refine ⟨List.suffix_append _ _, ?_⟩
    rintro ⟨t, ht⟩
    -- no unit of the object's own text is a newline
    have hsplit : t ++ [0x0A] ++ [0x0A] = (Json.obj wire).render ++ [0x0A] := by
      rw [← ht, List.append_assoc]
      rfl
    have hown := List.append_cancel_right hsplit
    have hunit := render_units (Json.obj wire) 0x0A (hown ▸ List.mem_concat_self)
    exact absurd hunit (by decide)
  have hparse : parseJson ((Json.obj wire).render ++ [0x0A]) =
      some ⟨Json.obj wire, isWire_owned hwire⟩ := by
    rw [parseJson, parseRaw_render_newline, Option.map_some]
    congr 1
    exact Subtype.ext (Json.revive_eq_self (isWire_owned hwire))
  rw [parseWire, if_neg (by omega), htext]
  show (if _ then _ else _) = _
  rw [if_pos hnewline, hparse]
  show (require _ _).map _ = _
  rw [← hkeys, List.length_map, decide_eq_true rfl, Bool.true_and, List.all_eq_true.mpr]
  · rfl
  · intro field hmem
    exact decide_eq_true (List.mem_map_of_mem hmem)

-- ============================================================================
-- Encoding and decoding
-- ============================================================================

theorem encodeGenerationRecord_eq_ok {record : GenerationRecord} {input : List Byte} :
    encodeGenerationRecord N record = .ok input ↔
      record.Valid ∧ recordBytes (N := N) (generationWire record) = .ok input := by
  rw [encodeGenerationRecord]
  show (_ >>= _) = Except.ok input ↔ _
  rw [bind_eq_ok]
  constructor
  · rintro ⟨r, hvalid, hbytes⟩
    exact ⟨(validateGeneration_fields.mp hvalid).2, hbytes⟩
  · rintro ⟨hvalid, hbytes⟩
    exact ⟨record, validateGeneration_fields.mpr ⟨rfl, hvalid⟩, hbytes⟩

theorem encodeReleaseRecord_eq_ok {record : ReleaseRecord} {input : List Byte} :
    encodeReleaseRecord N record = .ok input ↔
      record.Valid ∧ recordBytes (N := N) (releaseWire record) = .ok input := by
  rw [encodeReleaseRecord]
  show (_ >>= _) = Except.ok input ↔ _
  rw [bind_eq_ok]
  constructor
  · rintro ⟨r, hvalid, hbytes⟩
    exact ⟨(validateRelease_fields.mp hvalid).2, hbytes⟩
  · rintro ⟨hvalid, hbytes⟩
    exact ⟨record, validateRelease_fields.mpr ⟨rfl, hvalid⟩, hbytes⟩

theorem isWire_generationWire (record : GenerationRecord) :
    isWire (N := N) (generationWire record) = true := by
  cases hpredecessor : record.predecessor <;> cases hos : record.osProcessIdentity <;>
    (rw [generationWire, hpredecessor, hos]; rfl)

theorem isWire_releaseWire (record : ReleaseRecord) :
    isWire (N := N) (releaseWire record) = true := rfl

/-- The fields that a decoder reads of a generation are those of the record. -/
theorem generationFields_wire (record : GenerationRecord) (h : record.Valid) :
    validateGeneration (N := N)
      { record.toArbitrationIdentity with
        token := record.token
        predecessor := record.predecessor
        ordinal := record.ordinal
        schemaVersion := get (generationWire record) (js "schemaVersion")
        type := get (generationWire record) (js "type")
        role := get (generationWire record) (js "role")
        runName := get (generationWire record) (js "runName")
        pid := get (generationWire record) (js "pid")
        processNonce := get (generationWire record) (js "processNonce")
        osProcessIdentity := get (generationWire record) (js "osProcessIdentity")
        createdAtMs := get (generationWire record) (js "createdAtMs") } = .ok record := by
  have hpid : checkedNumber (N := N) record.pid = some (number N record.pid) :=
    if_pos (h.pid_le.trans (by decide))
  have hcreated : checkedNumber (N := N) record.createdAtMs = some (number N record.createdAtMs) :=
    if_pos h.createdAtMs
  have hvalid := (validateGeneration_fields (N := N)).mpr ⟨rfl, h⟩
  rw [GenerationRecord.fields, hpid, hcreated] at hvalid
  exact hvalid

theorem decodeGenerationRecord_encode {record : GenerationRecord} {input : List Byte}
    (h : encodeGenerationRecord N record = .ok input) :
    decodeGenerationRecord N input = .ok record := by
  obtain ⟨hvalid, hbytes⟩ := encodeGenerationRecord_eq_ok.mp h
  have hwire : parseWire N input generationKeys (js "generation") = .ok (generationWire record) :=
    parseWire_bytes hbytes (isWire_generationWire record) rfl
  simp only [decodeGenerationRecord, bind_eq_ok]
  refine ⟨_, hwire, record.token, stringField_eq_ok.mpr ⟨rfl, hvalid.token⟩, record.predecessor,
    nullableField_nullable.mpr ⟨rfl, hvalid.predecessor⟩, record.ordinal,
    safeInteger_number (hvalid.ordinal_le.trans (by decide)) hvalid.ordinal_pos,
    record.rootDev, decimalField_decimal _ _, record.rootIno, decimalField_decimal _ _,
    record.runDev, decimalField_decimal _ _, record.runIno, decimalField_decimal _ _,
    record, generationFields_wire record hvalid, input, h, (), ?_, rfl⟩
  exact require_eq_ok.mpr (decide_eq_true rfl)

theorem decodeReleaseRecord_encode {record : ReleaseRecord} {input : List Byte}
    (h : encodeReleaseRecord N record = .ok input) : decodeReleaseRecord N input = .ok record := by
  obtain ⟨hvalid, hbytes⟩ := encodeReleaseRecord_eq_ok.mp h
  have hwire : parseWire N input releaseKeys (js "release") = .ok (releaseWire record) :=
    parseWire_bytes hbytes (isWire_releaseWire record) rfl
  simp only [decodeReleaseRecord, bind_eq_ok]
  refine ⟨_, hwire, record.token, stringField_eq_ok.mpr ⟨rfl, hvalid.token⟩, record.generation,
    stringField_eq_ok.mpr ⟨rfl, hvalid.generation⟩, record.processNonce,
    stringField_eq_ok.mpr ⟨rfl, hvalid.processNonce⟩,
    record.rootDev, decimalField_decimal _ _, record.rootIno, decimalField_decimal _ _,
    record.runDev, decimalField_decimal _ _, record.runIno, decimalField_decimal _ _,
    record.releasedAtMs, safeInteger_number hvalid.releasedAtMs (Nat.zero_le _),
    record, validateRelease_fields.mpr ⟨rfl, hvalid⟩, input, h, (), ?_, rfl⟩
  exact require_eq_ok.mpr (decide_eq_true rfl)

/-- The decoder accepts what the encoder writes, and nothing else. -/
theorem decodeGenerationRecord_eq_ok {record : GenerationRecord} {input : List Byte} :
    decodeGenerationRecord N input = .ok record ↔ encodeGenerationRecord N record = .ok input := by
  refine ⟨fun h => ?_, decodeGenerationRecord_encode⟩
  simp only [decodeGenerationRecord, bind_eq_ok] at h
  obtain ⟨-, -, -, -, -, -, -, -, -, -, -, -, -, -, -, -, r, -, encoded, hencoded, u, hsame, hr⟩ := h
  obtain rfl := Except.ok.inj hr
  rw [hencoded, of_decide_eq_true (require_eq_ok.mp hsame)]

theorem decodeReleaseRecord_eq_ok {record : ReleaseRecord} {input : List Byte} :
    decodeReleaseRecord N input = .ok record ↔ encodeReleaseRecord N record = .ok input := by
  refine ⟨fun h => ?_, decodeReleaseRecord_encode⟩
  simp only [decodeReleaseRecord, bind_eq_ok] at h
  obtain ⟨-, -, -, -, -, -, -, -, -, -, -, -, -, -, -, -, -, -, r, -, encoded, hencoded, u, hsame,
    hr⟩ := h
  obtain rfl := Except.ok.inj hr
  rw [hencoded, of_decide_eq_true (require_eq_ok.mp hsame)]

theorem recordBytes_of_le {wire : RecordValue N}
    (h : (utf8 ((Json.obj wire).render ++ [0x0A])).length ≤ maxArbitrationRecordBytes) :
    recordBytes wire = .ok (utf8 ((Json.obj wire).render ++ [0x0A])) := by
  rw [recordBytes, decide_eq_true h]
  rfl

/-- The codec is a bijection between the valid records that fit and the octets that decode. -/
theorem recordCodec_bijective :
    ((∀ record : GenerationRecord, validateGeneration (N := N) record.fields = .ok record →
        (utf8 ((Json.obj (generationWire (N := N) record)).render ++ [0x0A])).length ≤
          maxArbitrationRecordBytes →
        ∃ input, encodeGenerationRecord N record = .ok input ∧
          decodeGenerationRecord N input = .ok record) ∧
      (∀ input record, decodeGenerationRecord N input = .ok record →
        encodeGenerationRecord N record = .ok input) ∧
      ∀ input input' record, decodeGenerationRecord N input = .ok record →
        decodeGenerationRecord N input' = .ok record → input = input') ∧
    (∀ record : ReleaseRecord, validateRelease (N := N) record.fields = .ok record →
        (utf8 ((Json.obj (releaseWire (N := N) record)).render ++ [0x0A])).length ≤
          maxArbitrationRecordBytes →
        ∃ input, encodeReleaseRecord N record = .ok input ∧
          decodeReleaseRecord N input = .ok record) ∧
      (∀ input record, decodeReleaseRecord N input = .ok record →
        encodeReleaseRecord N record = .ok input) ∧
      ∀ input input' record, decodeReleaseRecord N input = .ok record →
        decodeReleaseRecord N input' = .ok record → input = input' := by
  refine ⟨⟨fun record hvalid hfits => ?_, fun input record => decodeGenerationRecord_eq_ok.mp,
    fun input input' record h h' => ?_⟩, fun record hvalid hfits => ?_,
    fun input record => decodeReleaseRecord_eq_ok.mp, fun input input' record h h' => ?_⟩
  · have hencode := encodeGenerationRecord_eq_ok.mpr
      ⟨(validateGeneration_fields.mp hvalid).2, recordBytes_of_le hfits⟩
    exact ⟨_, hencode, decodeGenerationRecord_encode hencode⟩
  · -- both inputs are the encoding of the record
    rw [decodeGenerationRecord_eq_ok] at h h'
    exact Except.ok.inj (h.symm.trans h')
  · have hencode := encodeReleaseRecord_eq_ok.mpr
      ⟨(validateRelease_fields.mp hvalid).2, recordBytes_of_le hfits⟩
    exact ⟨_, hencode, decodeReleaseRecord_encode hencode⟩
  · rw [decodeReleaseRecord_eq_ok] at h h'
    exact Except.ok.inj (h.symm.trans h')

/-- A generation that succeeds another, with the identity of its process. -/
def successorGeneration : GenerationRecord where
  rootDev := 1
  rootIno := 2
  runDev := 1
  runIno := 3
  token := List.replicate 64 0x63
  predecessor := some (List.replicate 64 0x61)
  ordinal := 2
  role := .writer
  runName := js "run-" ++ List.replicate 32 0x61
  pid := 4711
  processNonce := List.replicate 64 0x62
  osProcessIdentity := some (js "linux:1.5")
  createdAtMs := 1700000000000

/-- The release of its predecessor. -/
def predecessorRelease : ReleaseRecord where
  rootDev := 1
  rootIno := 2
  runDev := 1
  runIno := 3
  token := List.replicate 64 0x64
  generation := List.replicate 64 0x61
  processNonce := List.replicate 64 0x62
  releasedAtMs := 1700000000000

theorem recordCodec_bijective_successor :
    (∃ input, encodeGenerationRecord Int successorGeneration = .ok input ∧
      ∀ input', decodeGenerationRecord Int input' = .ok successorGeneration ↔ input' = input) ∧
    ∃ input, encodeReleaseRecord Int predecessorRelease = .ok input ∧
      ∀ input', decodeReleaseRecord Int input' = .ok predecessorRelease ↔ input' = input := by
  obtain ⟨⟨hgeneration, -, hunique⟩, hrelease, -, huniqueRelease⟩ := @recordCodec_bijective Int _
  obtain ⟨input, hencode, hdecode⟩ := hgeneration successorGeneration (by decide +kernel)
    (by decide +kernel)
  obtain ⟨release, hencodeRelease, hdecodeRelease⟩ := hrelease predecessorRelease
    (by decide +kernel) (by decide +kernel)
  refine ⟨⟨input, hencode, fun input' => ⟨fun h => hunique _ _ _ h hdecode, ?_⟩⟩, release,
    hencodeRelease, fun release' => ⟨fun h => huniqueRelease _ _ _ h hdecodeRelease, ?_⟩⟩
  · rintro rfl
    exact hdecode
  · rintro rfl
    exact hdecodeRelease

end PiRlm.Runtime

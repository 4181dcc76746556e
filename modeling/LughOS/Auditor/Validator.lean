import LughOS.Auditor.Framing

/-!
# The validator

`main` of `scripts/validate_telemetry.py`, from the bytes of the capture on. It refuses an empty
file and one that ends within a record, looks at the magic, the version and the type of every
record, and asks that seven of the types occur.

`validate_accepts_iff` is the language it accepts: the captures that consist of records of the
current version with known types, all required ones among them.
-/

namespace LughOS.Auditor

open Bytes Framing

/-- `VERSION` of the script. -/
def scriptVersion : Nat := 2

/-- The keys of `REC_TYPE_NAME`. -/
def recTypeName : Nat → Option RecordType
  | 0 => some .msg
  | 1 => some .overflow
  | 2 => some .heartbeat
  | 3 => some .deny
  | 4 => some .taskCreate
  | 5 => some .chanCreate
  | 6 => some .chanConnect
  | 7 => some .taskExit
  | 8 => some .domainEdge
  | 9 => some .fault
  | 10 => some .workflow
  | _ => none

/-- `REQUIRED`, sorted by name. -/
def requiredTypes : List RecordType :=
  [.chanConnect, .chanCreate, .deny, .domainEdge, .msg, .overflow, .taskCreate]

/-- A line of the list `failures`. -/
inductive Failure where
  | badMagic (i magic : Nat)
  | badVersion (i version : Nat)
  | unknownType (i type : Nat)
  | missing (types : List RecordType)
  deriving DecidableEq

/-- A key of the histogram: a name of the table, or `UNKNOWN(n)`. -/
inductive Category where
  | known (type : RecordType)
  | unknown (type : Nat)
  deriving DecidableEq

/-- The variables of the loop. The histogram is kept as the list of what was counted. -/
structure Tally where
  failures : List Failure
  counter : List Category

/-- One pass of the loop. -/
def checkRecord (t : Tally) (i : Nat) (r : Parsed) : Tally where
  failures := t.failures ++
    (if r.magic ≠ scriptMagic then [.badMagic i r.magic] else []) ++
    (if r.version ≠ scriptVersion then [.badVersion i r.version] else []) ++
    (if recTypeName r.type = none then [.unknownType i r.type] else [])
  counter := t.counter ++ [(recTypeName r.type).elim (.unknown r.type) .known]

/-- The loop over the slices; `struct.unpack` would raise on one of another length. -/
def checkLoop : Nat → List (List Byte) → Tally → Option Tally
  | _, [], t => some t
  | i, chunk :: chunks, t => do
      let r ← parseRecord chunk
      checkLoop (i + 1) chunks (checkRecord t i r)

/-- The check behind the loop. -/
def missingTypes (t : Tally) : List RecordType :=
  requiredTypes.filter fun type => !t.counter.contains (.known type)

inductive Verdict where
  | emptyFile
  | torn (length : Nat)
  | judged (records : Nat) (t : Tally)

def validate (blob : List Byte) : Option Verdict :=
  if blob.length = 0 then some .emptyFile
  else
    match sliceRecords blob with
    | none => some (.torn blob.length)
    | some chunks => do
        let t ← checkLoop 0 chunks ⟨[], []⟩
        let missing := missingTypes t
        some (.judged (blob.length / recordSize)
          { t with failures := t.failures ++ if missing ≠ [] then [.missing missing] else [] })

/-- The result of `main`. -/
def exitCode (blob : List Byte) : Nat :=
  match validate blob with
  | some (.judged _ t) => if t.failures = [] then 0 else 1
  | _ => 1

/-! ## Records from bytes -/

theorem wordBytes_ofBytes {w : Nat} (bs : List Byte) (fits : 8 * bs.length ≤ w) :
    wordBytes bs.length (BitVec.ofNat w (ofBytes bs)) = bs := by
  have bound (bs : List Byte) : ofBytes bs < 256 ^ bs.length := by
    induction bs with
    | nil => exact Nat.one_pos
    | cons b bs ih =>
        have low := b.isLt
        rw [ofBytes, List.length_cons, pow_succ]
        omega
  induction bs with
  | nil => rfl
  | cons b bs ih =>
      have whole := bound (b :: bs)
      have wide : 256 ^ (b :: bs).length ≤ 2 ^ w := by
        rw [show 256 = 2 ^ 8 from rfl, ← pow_mul]
        exact Nat.pow_le_pow_right (by decide) fits
      have value : (BitVec.ofNat w (ofBytes (b :: bs))).toNat = b.toNat + 256 * ofBytes bs := by
        rw [BitVec.toNat_ofNat, Nat.mod_eq_of_lt (whole.trans_le wide), ofBytes]
      have low := b.isLt
      rw [List.length_cons, wordBytes_succ]
      refine congrArg₂ List.cons ?_ ?_
      · apply BitVec.eq_of_toNat_eq
        rw [BitVec.toNat_setWidth, value]
        omega
      · have rest : BitVec.ofNat w (ofBytes (b :: bs)) >>> 8 = BitVec.ofNat w (ofBytes bs) := by
          have small : ofBytes bs < 2 ^ w := by
            rw [ofBytes] at whole
            omega
          apply BitVec.eq_of_toNat_eq
          rw [BitVec.toNat_ushiftRight, value, BitVec.toNat_ofNat, Nat.mod_eq_of_lt small,
            Nat.shiftRight_eq_div_pow]
          omega
        rw [rest]
        exact ih (by simp at fits; omega)

theorem wordBytes_slice {w n : Nat} {raw : List Byte} (offset : Nat) (fits : 8 * n ≤ w)
    (inside : offset + n ≤ raw.length) :
    wordBytes n (BitVec.ofNat w (ofBytes ((raw.drop offset).take n))) =
      (raw.drop offset).take n := by
  have length : ((raw.drop offset).take n).length = n := by simp; omega
  have bytes := wordBytes_ofBytes (w := w) ((raw.drop offset).take n) (by rw [length]; exact fits)
  rwa [length] at bytes

/-- Any 44 bytes are those of some record. -/
theorem exists_toBytes {raw : List Byte} (length : raw.length = recordSize) :
    ∃ r : AuditorRecord, r.toBytes = raw := by
  have field (w n offset : Nat) (fits : 8 * n ≤ w) (inside : offset + n ≤ raw.length) :=
    wordBytes_slice offset fits inside
  simp only [recordSize] at length
  refine ⟨⟨BitVec.ofNat 32 (ofBytes ((raw.drop 0).take 4)),
    BitVec.ofNat 16 (ofBytes ((raw.drop 4).take 2)),
    BitVec.ofNat 16 (ofBytes ((raw.drop 6).take 2)),
    BitVec.ofNat 64 (ofBytes ((raw.drop 8).take 8)),
    BitVec.ofNat 8 (ofBytes ((raw.drop 16).take 1)),
    BitVec.ofNat 8 (ofBytes ((raw.drop 17).take 1)),
    BitVec.ofNat 8 (ofBytes ((raw.drop 18).take 1)),
    BitVec.ofNat 8 (ofBytes ((raw.drop 19).take 1)),
    BitVec.ofNat 32 (ofBytes ((raw.drop 20).take 4)),
    BitVec.ofNat 32 (ofBytes ((raw.drop 24).take 4)),
    ⟨raw.drop 28, by simp; omega⟩⟩, ?_⟩
  rw [AuditorRecord.toBytes, field 32 4 0 (by decide) (by omega),
    field 16 2 4 (by decide) (by omega), field 16 2 6 (by decide) (by omega),
    field 64 8 8 (by decide) (by omega), field 8 1 16 (by decide) (by omega),
    field 8 1 17 (by decide) (by omega), field 8 1 18 (by decide) (by omega),
    field 8 1 19 (by decide) (by omega), field 32 4 20 (by decide) (by omega),
    field 32 4 24 (by decide) (by omega)]
  simp only [← List.take_add, List.drop_zero, List.take_append_drop]

/-- A capture that is not torn is a sequence of records. -/
theorem exists_records {blob : List Byte} (whole : blob.length % recordSize = 0) :
    ∃ records : List AuditorRecord, blob = records.flatMap AuditorRecord.toBytes := by
  induction count : blob.length / recordSize generalizing blob with
  | zero =>
      have empty : blob.length = 0 := by
        simp only [recordSize] at count whole
        omega
      exact ⟨[], by simpa using empty⟩
  | succ n ih =>
      have full : recordSize ≤ blob.length := by
        simp only [recordSize] at count ⊢
        omega
      have rest : (blob.drop recordSize).length = blob.length - recordSize := List.length_drop
      have whole' : (blob.drop recordSize).length % recordSize = 0 := by
        rw [rest]
        simp only [recordSize] at whole full ⊢
        omega
      have front_length : (blob.take recordSize).length = recordSize := by
        rw [List.length_take, Nat.min_eq_left full]
      obtain ⟨records, behind⟩ := ih whole'
        (by rw [rest]; simp only [recordSize] at count full ⊢; omega)
      obtain ⟨r, front⟩ := exists_toBytes front_length
      refine ⟨r :: records, ?_⟩
      rw [List.flatMap_cons, front, ← behind, List.take_append_drop]

/-! ## What is accepted -/

theorem recTypeName_eq_some {code : Nat} {type : RecordType} :
    recTypeName code = some type ↔ code = type.code := by
  constructor
  · intro named
    unfold recTypeName at named
    split at named
    all_goals first | cases named; rfl | cases named
  · rintro rfl
    cases type <;> rfl

/-- A record that the loop has nothing against. -/
structure AuditorRecord.Current (r : AuditorRecord) : Prop where
  magic : r.magic = auditorMagic
  version : r.version = auditorTelemetryVersion
  known : ∃ type, r.Is type

theorem Is_iff_parsed {r : AuditorRecord} {type : RecordType} :
    r.Is type ↔ r.parsed.type = type.code := by
  refine ⟨fun is => is.type, fun code => ?_⟩
  apply BitVec.eq_of_toNat_eq
  refine code.trans ?_
  cases type <;> rfl

/-- The failures that the loop reports of a list of records. -/
theorem checkLoop_records (records : List AuditorRecord) (i : Nat) (t : Tally) :
    ∃ t', checkLoop i (records.map AuditorRecord.toBytes) t = some t' ∧
      (t'.failures = [] ↔ t.failures = [] ∧ ∀ r ∈ records, r.Current) ∧
      t'.counter = t.counter ++ records.map fun r =>
        (recTypeName r.parsed.type).elim (.unknown r.parsed.type) .known := by
  induction records generalizing i t with
  | nil => exact ⟨t, rfl, by simp, by simp⟩
  | cons r records ih =>
      obtain ⟨t', run, failures, counter⟩ := ih (i + 1) (checkRecord t i r.parsed)
      refine ⟨t', ?_, ?_, ?_⟩
      · rw [List.map_cons, checkLoop, parseRecord_toBytes]
        exact run
      · rw [failures, List.forall_mem_cons, ← and_assoc]
        refine and_congr_left fun _ => ?_
        have magic : r.parsed.magic = scriptMagic ↔ r.magic = auditorMagic :=
          ⟨fun eq => BitVec.eq_of_toNat_eq eq, fun eq => congrArg BitVec.toNat eq⟩
        have version : r.parsed.version = scriptVersion ↔ r.version = auditorTelemetryVersion :=
          ⟨fun eq => BitVec.eq_of_toNat_eq eq, fun eq => congrArg BitVec.toNat eq⟩
        have known : recTypeName r.parsed.type ≠ none ↔ ∃ type, r.Is type := by
          rw [Option.ne_none_iff_exists']
          exact exists_congr fun type => recTypeName_eq_some.trans Is_iff_parsed.symm
        have current : r.Current ↔ r.parsed.magic = scriptMagic ∧
            r.parsed.version = scriptVersion ∧ recTypeName r.parsed.type ≠ none := by
          rw [magic, version, known]
          exact ⟨fun c => ⟨c.magic, c.version, c.known⟩, fun ⟨m, v, k⟩ => ⟨m, v, k⟩⟩
        rw [current]
        simp only [checkRecord, List.append_eq_nil_iff, ite_eq_right_iff, List.cons_ne_nil,
          imp_false, not_not, and_assoc, ne_eq]
      · rw [counter, checkRecord, List.map_cons, List.append_assoc]
        rfl

theorem mem_counter {records : List AuditorRecord} {type : RecordType} :
    Category.known type ∈ (records.map fun r =>
        (recTypeName r.parsed.type).elim (.unknown r.parsed.type) .known) ↔
      ∃ r ∈ records, r.Is type := by
  rw [List.mem_map]
  refine exists_congr fun r => and_congr_right fun _ => ?_
  rw [Is_iff_parsed, ← recTypeName_eq_some]
  cases recTypeName r.parsed.type <;> simp

/-- The verdict on a sequence of records. -/
theorem exitCode_records (records : List AuditorRecord) :
    exitCode (records.flatMap AuditorRecord.toBytes) = 0 ↔
      (∀ r ∈ records, r.Current) ∧ ∀ type ∈ requiredTypes, ∃ r ∈ records, r.Is type := by
  have size : (records.flatMap AuditorRecord.toBytes).length = recordSize * records.length := by
    simp [List.length_flatMap, length_toBytes, recordSize, Nat.mul_comm]
  cases records with
  | nil =>
      refine iff_of_false (by simp [exitCode, validate]) fun valid => ?_
      obtain ⟨r, member, -⟩ := valid.2 .msg (by decide)
      cases member
  | cons first rest =>
      have some_ : (List.flatMap AuditorRecord.toBytes (first :: rest)).length ≠ 0 := by
        rw [size]
        simp [recordSize]
      have cut : sliceRecords ((first :: rest).flatMap AuditorRecord.toBytes) =
          some ((first :: rest).map AuditorRecord.toBytes) := by
        rw [sliceRecords_eq (by rw [size, Nat.mul_mod_right])]
        simpa using @blocks_emitted (first :: rest) [] recordSize_pos
      obtain ⟨t, run, failures, counter⟩ := checkLoop_records (first :: rest) 0 ⟨[], []⟩
      have missing : missingTypes t = [] ↔
          ∀ type ∈ requiredTypes, ∃ r ∈ first :: rest, r.Is type := by
        rw [missingTypes, List.filter_eq_nil_iff]
        refine forall₂_congr fun type _ => ?_
        rw [← mem_counter, counter, List.nil_append, Bool.not_eq_true', Bool.not_eq_false,
          List.contains_iff_mem]
      have clean : t.failures = [] ↔ ∀ r ∈ first :: rest, r.Current :=
        failures.trans (and_iff_right rfl)
      rw [exitCode, validate, if_neg some_, cut, ← missing, ← clean]
      simp only [run, Option.bind_eq_bind, Option.bind_some]
      by_cases all : missingTypes t = []
      · simp [all]
      · simp [all]

theorem exitCode_torn {blob : List Byte} (torn : blob.length % recordSize ≠ 0) :
    exitCode blob = 1 := by
  have some_ : blob.length ≠ 0 := fun empty => torn (by rw [empty]; rfl)
  rw [exitCode, validate, if_neg some_, sliceRecords, if_pos torn]

/-- The validator exits with 0 just on the captures that consist of records with the magic, the
current version and known types, such that all required types occur. -/
theorem validate_accepts_iff (blob : List Byte) :
    exitCode blob = 0 ↔ ∃ records : List AuditorRecord,
      blob = records.flatMap AuditorRecord.toBytes ∧ (∀ r ∈ records, r.Current) ∧
        ∀ type ∈ requiredTypes, ∃ r ∈ records, r.Is type := by
  constructor
  · intro accepted
    have whole : blob.length % recordSize = 0 := by
      by_contra torn
      rw [exitCode_torn torn] at accepted
      cases accepted
    obtain ⟨records, rfl⟩ := exists_records whole
    exact ⟨records, rfl, (exitCode_records records).mp accepted⟩
  · rintro ⟨records, rfl, valid⟩
    exact (exitCode_records records).mpr valid

end LughOS.Auditor

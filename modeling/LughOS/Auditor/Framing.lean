import LughOS.Library.Framing
import LughOS.Auditor.Replay

/-!
# Cutting the telemetry stream into records

`tail_records` of `scripts/read_telemetry.py` reads the capture in pieces whose sizes it does not
control, and yields records of 44 bytes. `reconstruct_graph.py` has the whole file and slices it.
Both get the same records, whatever pieces the file delivers.

The generator is modelled with the number of its reads. Its result says which records it has
yielded and whether it has returned, so that a generator that goes on reading is not mistaken for
one that has come to its end.
-/

namespace LughOS.Auditor

open Bytes Framing

/-- `RECORD_SIZE` -/
def recordSize : Nat := 44

theorem recordSize_pos : 0 < recordSize := by decide

/-! ## The file -/

/-- An open file: what has not been read yet, and the number of reads so far. -/
structure OpenFile where
  left : List Byte
  reads : Nat

namespace OpenFile

variable (d : Delivery Byte) {f : OpenFile} {count : Int}

/-- `f.read(count)`, which reads everything if the count is negative. -/
def read (f : OpenFile) (count : Int) : List Byte × OpenFile :=
  let chunk := if count < 0 then f.left else d.piece f.reads count.toNat f.left
  (chunk, { left := f.left.drop chunk.length, reads := f.reads + 1 })

/-- A read takes its bytes from the front of the file. -/
theorem read_append (f : OpenFile) (count : Int) :
    (f.read d count).1 ++ (f.read d count).2.left = f.left := by
  unfold read
  split
  · simp
  · exact List.prefix_iff_eq_append.mp (List.take_prefix _ _)

/-- It is empty at the end of the file only. -/
theorem read_eq_nil (asked : 0 < count) : (f.read d count).1 = [] ↔ f.left = [] := by
  have chunk : (f.read d count).1 = d.piece f.reads count.toNat f.left := if_neg (by omega)
  rw [chunk]
  exact d.piece_eq_nil (by omega)

end OpenFile

/-! ## The generator -/

/-- `while len(buf) >= RECORD_SIZE`: the records that are yielded and the buffer behind them. Every
round takes something from the buffer, so that its length bounds the rounds. -/
def splitLoop : Nat → List Byte → List (List Byte) × List Byte
  | 0, buf => ([], buf)
  | rounds + 1, buf =>
      if recordSize ≤ buf.length then
        let later := splitLoop rounds (buf.drop recordSize)
        (buf.take recordSize :: later.1, later.2)
      else ([], buf)

/-- What a generator has done: the records it has yielded, and whether it has returned. -/
structure Tail where
  yielded : List (List Byte)
  returned : Bool

/-- `while True`, with the number of rounds it is followed for. -/
def tailLoop (d : Delivery Byte) (follow : Bool) : Nat → OpenFile → List Byte → Tail
  | 0, _, _ => ⟨[], false⟩
  | rounds + 1, f, buf =>
      let (chunk, f) := f.read d (recordSize - buf.length)
      if chunk ≠ [] then
        let (records, buf) := splitLoop (buf ++ chunk).length (buf ++ chunk)
        let later := tailLoop d follow rounds f buf
        ⟨records ++ later.yielded, later.returned⟩
      else if follow then tailLoop d follow rounds f buf
      else ⟨[], true⟩

def tailRecords (d : Delivery Byte) (follow : Bool) (rounds : Nat) (stream : List Byte) : Tail :=
  tailLoop d follow rounds { left := stream, reads := 0 } []

/-! ## One round -/

theorem splitLoop_short {rounds : Nat} {buf : List Byte} (enough : buf.length ≤ rounds) :
    (splitLoop rounds buf).2.length < recordSize := by
  induction rounds generalizing buf with
  | zero => exact (Nat.le_zero.mp enough).trans_lt recordSize_pos
  | succ rounds ih =>
      rw [splitLoop]
      split
      · next full =>
          apply ih
          have := recordSize_pos
          rw [List.length_drop]
          omega
      · next short => exact not_le.mp short

/-- Yielding records from the buffer does not change the blocks of the stream. -/
theorem splitLoop_blocks (rounds : Nat) (buf later : List Byte) :
    (splitLoop rounds buf).1 ++ blocks recordSize ((splitLoop rounds buf).2 ++ later) =
      blocks recordSize (buf ++ later) := by
  induction rounds generalizing buf with
  | zero => rfl
  | succ rounds ih =>
      rw [splitLoop]
      split
      · next full =>
          have longer : recordSize ≤ (buf ++ later).length := by
            rw [List.length_append]
            omega
          rw [blocks_of_full recordSize_pos longer, List.take_append_of_le_length full,
            List.drop_append_of_le_length full, ← ih (buf.drop recordSize)]
          rfl
      · rfl

section Rounds

variable (d : Delivery Byte) (follow : Bool) {f : OpenFile} {buf : List Byte}

/-- A round with something left in the file. The records that are yielded belong in front of those
of the buffer and the file behind it, and the file gets shorter. -/
theorem tailLoop_chunk (short : buf.length < recordSize) (more : f.left ≠ []) :
    ∃ (records : List (List Byte)) (f' : OpenFile) (buf' : List Byte),
      buf'.length < recordSize ∧ f'.left.length < f.left.length ∧
        records ++ blocks recordSize (buf' ++ f'.left) = blocks recordSize (buf ++ f.left) ∧
          ∀ rounds, tailLoop d follow (rounds + 1) f buf =
            ⟨records ++ (tailLoop d follow rounds f' buf').yielded,
              (tailLoop d follow rounds f' buf').returned⟩ := by
  have asked : (0 : Int) < recordSize - buf.length := by omega
  have whole := f.read_append d (recordSize - buf.length)
  have nonempty := mt (OpenFile.read_eq_nil d asked).mp more
  rcases read : f.read d (recordSize - buf.length) with ⟨chunk, f'⟩
  simp only [read] at whole nonempty
  have blocks_eq := splitLoop_blocks (buf ++ chunk).length (buf ++ chunk) f'.left
  have short' := splitLoop_short (le_refl (buf ++ chunk).length)
  rcases split : splitLoop (buf ++ chunk).length (buf ++ chunk) with ⟨records, buf'⟩
  rw [split] at blocks_eq short'
  refine ⟨records, f', buf', short', ?_, ?_, fun rounds => ?_⟩
  · have positive := List.length_pos_iff.mpr nonempty
    rw [← whole, List.length_append]
    omega
  · rw [blocks_eq, List.append_assoc, whole]
  · rw [tailLoop, read]
    refine (if_pos nonempty).trans ?_
    rw [split]

/-- A round at the end of the file. -/
theorem tailLoop_end (short : buf.length < recordSize) (atEnd : f.left = []) (rounds : Nat) :
    tailLoop d follow (rounds + 1) f buf =
      if follow then tailLoop d follow rounds { left := [], reads := f.reads + 1 } buf
      else ⟨[], true⟩ := by
  have asked : (0 : Int) < recordSize - buf.length := by omega
  have nothing := (OpenFile.read_eq_nil d asked).mpr atEnd
  have file : (f.read d (recordSize - buf.length)).2 = { left := [], reads := f.reads + 1 } := by
    simp [OpenFile.read, atEnd]
  rcases read : f.read d (recordSize - buf.length) with ⟨chunk, f'⟩
  rw [read] at nothing file
  subst nothing file
  rw [tailLoop, read]
  rfl

/-! ## Whole runs -/

/-- The generator yields the blocks of the buffer and the rest of the file. -/
theorem tailLoop_yielded {rounds : Nat} (short : buf.length < recordSize)
    (enough : f.left.length ≤ rounds) :
    (tailLoop d follow rounds f buf).yielded = blocks recordSize (buf ++ f.left) := by
  induction rounds generalizing f buf with
  | zero =>
      have atEnd : f.left = [] := List.length_eq_zero_iff.mp (Nat.le_zero.mp enough)
      rw [atEnd, List.append_nil, blocks_of_short short]
      rfl
  | succ rounds ih =>
      by_cases atEnd : f.left = []
      · rw [tailLoop_end d follow short atEnd, atEnd]
        split
        · exact ih (f := { left := [], reads := f.reads + 1 }) short (Nat.zero_le rounds)
        · rw [List.append_nil, blocks_of_short short]
      · -- every read takes a byte at least, so one round less is enough for what is left
        obtain ⟨records, f', buf', short', shorter, same, round⟩ :=
          tailLoop_chunk d follow short atEnd
        rw [round, ← same, ← ih short' (by omega)]

/-- Without `follow`, the generator returns behind the last byte. -/
theorem tailLoop_returned {rounds : Nat} (short : buf.length < recordSize)
    (enough : f.left.length < rounds) : (tailLoop d false rounds f buf).returned = true := by
  induction rounds generalizing f buf with
  | zero => omega
  | succ rounds ih =>
      by_cases atEnd : f.left = []
      · rw [tailLoop_end d false short atEnd]
        rfl
      · obtain ⟨records, f', buf', short', shorter, -, round⟩ :=
          tailLoop_chunk d false short atEnd
        rw [round]
        exact ih short' (by omega)

/-- With `follow`, it never does. -/
theorem tailLoop_follows (rounds : Nat) (f : OpenFile) (buf : List Byte) :
    (tailLoop d true rounds f buf).returned = false := by
  induction rounds generalizing f buf with
  | zero => rfl
  | succ rounds ih =>
      rcases read : f.read d (recordSize - buf.length) with ⟨chunk, f'⟩
      rw [tailLoop, read]
      by_cases more : chunk ≠ []
      · simpa [more] using ih f' _
      · simpa [more] using ih f' buf

end Rounds

theorem tailRecords_yielded (d : Delivery Byte) (follow : Bool) {stream : List Byte} {rounds : Nat}
    (enough : stream.length ≤ rounds) :
    (tailRecords d follow rounds stream).yielded = blocks recordSize stream :=
  tailLoop_yielded d follow recordSize_pos enough

/-- The records do not depend on the pieces in which the file delivers the stream. One read more
than there are bytes is enough to come to the end, and only a part of a record is left out. -/
theorem tailRecords_framing (d : Delivery Byte) (stream : List Byte) {rounds : Nat}
    (enough : stream.length < rounds) :
    tailRecords d false rounds stream = ⟨blocks recordSize stream, true⟩ ∧
      ∃ rest, rest.length < recordSize ∧
        (tailRecords d false rounds stream).yielded.flatten ++ rest = stream := by
  have records := tailRecords_yielded d false enough.le
  have returned : (tailRecords d false rounds stream).returned = true :=
    tailLoop_returned d recordSize_pos enough
  refine ⟨?_, stream.drop (recordSize * (stream.length / recordSize)), ?_, ?_⟩
  · rw [← records, ← returned]
  · rw [List.length_drop, ← Nat.mod_eq_sub_mul_div]
    exact Nat.mod_lt _ recordSize_pos
  · rw [records, flatten_blocks recordSize_pos]

/-- A file that hands out one byte at a time. -/
def singleBytes : Delivery Byte where
  size _ count _ := min 1 count
  nonempty _ _ _ asked _ := Nat.lt_min.mpr ⟨Nat.one_pos, asked⟩
  size_le _ _ _ := Nat.min_le_right _ _

theorem tailRecords_framing_singleBytes :
    tailRecords singleBytes false 46 (List.replicate 45 1) = ⟨[List.replicate 44 1], true⟩ :=
  (tailRecords_framing singleBytes (List.replicate 45 1) (by decide)).1

/-! ## Emitted records -/

theorem length_of_mem_toBytes {records : List AuditorRecord} {part : List Byte}
    (member : part ∈ records.map AuditorRecord.toBytes) : part.length = recordSize := by
  obtain ⟨r, -, rfl⟩ := List.mem_map.mp member
  exact length_toBytes r

/-- The blocks of a capture that ends within a record are the records before it. -/
theorem blocks_emitted (records : List AuditorRecord) {torn : List Byte}
    (short : torn.length < recordSize) :
    blocks recordSize (records.flatMap AuditorRecord.toBytes ++ torn) =
      records.map AuditorRecord.toBytes := by
  rw [List.flatMap_def]
  exact blocks_flatten recordSize_pos (fun _ => length_of_mem_toBytes) short

/-- The reader gets back what was emitted. -/
theorem tailRecords_emitted (d : Delivery Byte) (follow : Bool) (records : List AuditorRecord)
    {torn : List Byte} (short : torn.length < recordSize) {rounds : Nat}
    (enough : (records.flatMap AuditorRecord.toBytes ++ torn).length ≤ rounds) :
    (tailRecords d follow rounds (records.flatMap AuditorRecord.toBytes ++ torn)).yielded.map
        parseRecord =
      records.map fun r => some r.parsed := by
  rw [tailRecords_yielded d follow enough, blocks_emitted records short, List.map_map]
  simp only [Function.comp_def, parseRecord_toBytes]

/-- One record, byte by byte, with the first byte of another behind it. -/
example :
    (tailRecords singleBytes true 45 ([initRecord 0 .heartbeat].flatMap AuditorRecord.toBytes ++
      [0x49])).yielded.map parseRecord = [some (initRecord 0 .heartbeat).parsed] :=
  tailRecords_emitted singleBytes true [initRecord 0 .heartbeat] (by decide) (by decide)

/-! ## The file as a whole -/

/-- `MAGIC` of the scripts. -/
def scriptMagic : Nat := 0x4C474849

/-- The slices that `reconstruct_graph.py` makes of a file; it refuses one that ends within a
record. -/
def sliceRecords (blob : List Byte) : Option (List (List Byte)) :=
  if blob.length % recordSize ≠ 0 then none
  else some ((List.range (blob.length / recordSize)).map fun i =>
    (blob.take ((i + 1) * recordSize)).drop (i * recordSize))

/-- The loop of `main` over the slices, with the bound of `--at`. A slice that cannot be unpacked
would end the script. -/
def rebuildLoop (limit : Option Nat) : List (List Byte) → GraphState → Option GraphState
  | [], state => some state
  | chunk :: chunks, state => do
      let parsed ← parseRecord chunk
      if parsed.magic ≠ scriptMagic then rebuildLoop limit chunks state
      else if limit.any (· < parsed.jiffies) then some state
      else rebuildLoop limit chunks (applyRecord state parsed)

def rebuild (limit : Option Nat) (blob : List Byte) : Option GraphState :=
  (sliceRecords blob).bind fun chunks => rebuildLoop limit chunks GraphState.empty

/-- Both scripts cut a file that is not torn in the same way. -/
theorem sliceRecords_eq {blob : List Byte} (whole : blob.length % recordSize = 0) :
    sliceRecords blob = some (blocks recordSize blob) := by
  rw [sliceRecords, if_neg (not_not.mpr whole), blocks]
  refine congrArg some (List.map_congr_left fun i _ => ?_)
  rw [List.drop_take, Nat.succ_mul, Nat.add_sub_cancel_left, Nat.mul_comm]

/-- The records before the first one that is later than the limit. -/
def upTo (limit : Option Nat) (records : List AuditorRecord) : List AuditorRecord :=
  records.takeWhile fun r => !limit.any (· < r.jiffies.toNat)

theorem rebuildLoop_toBytes (limit : Option Nat) {records : List AuditorRecord}
    (emitted : ∀ r ∈ records, r.magic = auditorMagic) (state : GraphState) :
    rebuildLoop limit (records.map AuditorRecord.toBytes) state =
      some (((upTo limit records).map AuditorRecord.parsed).foldl applyRecord state) := by
  induction records generalizing state with
  | nil => rfl
  | cons r records ih =>
      have rest := ih fun other member => emitted other (List.mem_cons_of_mem r member)
      have magic : r.parsed.magic = scriptMagic :=
        congrArg BitVec.toNat (emitted r List.mem_cons_self)
      rw [List.map_cons, rebuildLoop, parseRecord_toBytes, Option.bind_eq_bind, Option.bind_some,
        if_neg (not_not.mpr magic), upTo, List.takeWhile_cons]
      cases late : limit.any (· < r.jiffies.toNat) with
      | true => exact if_pos late
      | false =>
          refine (if_neg (Bool.eq_false_iff.mp late)).trans ?_
          rw [rest]
          rfl

/-- The graph of a whole file is the replay of the emitted records up to the limit. -/
theorem rebuild_emitted (limit : Option Nat) {records : List AuditorRecord}
    (emitted : ∀ r ∈ records, r.magic = auditorMagic) :
    rebuild limit (records.flatMap AuditorRecord.toBytes) =
      some (replay (upTo limit records)) := by
  have whole : (records.flatMap AuditorRecord.toBytes).length % recordSize = 0 := by
    simp [List.length_flatMap, length_toBytes, recordSize]
  have cut : blocks recordSize (records.flatMap AuditorRecord.toBytes) =
      records.map AuditorRecord.toBytes := by
    simpa using @blocks_emitted records [] recordSize_pos
  rw [rebuild, sliceRecords_eq whole, cut, Option.bind_some, rebuildLoop_toBytes limit emitted,
    replay, ← List.filterMap_eq_map]
  simp only [Function.comp_def, parseRecord_toBytes]

end LughOS.Auditor

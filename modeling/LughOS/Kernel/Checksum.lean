import LughOS.Kernel.MemoryGate
import LughOS.Kernel.Messages
import LughOS.Library.Digest

/-!
# The checksum of a message

`crc32_table` is a static array that `nng_init` fills; `calculate_checksum` looks a word up in
it for every byte. The reference is the reflected CRC-32 one bit at a time: the bit is added
to the low end of the remainder, and the remainder is shifted. The table holds eight shifts of
every byte, and since a shift is linear the lookup is eight single bits.
-/

namespace LughOS.Kernel

open Bytes

/-! ## The table and the loop over the bytes -/

/-- `crc32_table`. -/
abbrev CrcTable := Fin 256 → BitVec 32

/-- `init_crc32_table`, over whatever the table held before. -/
def initCrc32Table (table : CrcTable) : CrcTable :=
  (List.finRange 256).foldl
    (fun table i => Function.update table i (crc32Shift^[8] (BitVec.ofNat 32 i.val))) table

namespace CrcTable

theorem lowByte_lt (c : BitVec 32) : (c &&& 0xFF#32).toNat < 256 := by
  rw [BitVec.toNat_and]
  exact Nat.lt_of_le_of_lt Nat.and_le_right (by decide)

/-- One round of the loop of `calculate_checksum`. -/
def step (table : CrcTable) (crc : BitVec 32) (b : Byte) : BitVec 32 :=
  table ⟨((crc ^^^ b.setWidth 32) &&& 0xFF#32).toNat, lowByte_lt _⟩ ^^^ (crc >>> 8)

/-- The loop of `calculate_checksum` from a running value. -/
def process (table : CrcTable) (crc : BitVec 32) (data : List Byte) : BitVec 32 :=
  data.foldl table.step crc

/-- `calculate_checksum` with the table as it is. -/
def checksumAt (table : CrcTable) (h : Heap) (address len : Nat) : BitVec 32 :=
  if securityValidateMemoryAccess h.regions address len false then
    table.process 0xFFFFFFFF#32 (h.mem.read address len) ^^^ 0xFFFFFFFF#32
  else 0

end CrcTable

/-- CRC-32 bit by bit, the lowest bit of every byte first. -/
def crc32Bitwise (data : List Byte) : BitVec 32 :=
  ~~~((data.flatMap Digest.bits).foldl (Digest.feed 0xEDB88320#32) 0xFFFFFFFF#32)

/-! ## What the table holds -/

theorem foldl_update {ι α : Type*} [DecidableEq ι] (f : ι → α) (indices : List ι) (g : ι → α)
    (i : ι) :
    indices.foldl (fun g j => Function.update g j (f j)) g i =
      if i ∈ indices then f i else g i := by
  induction indices generalizing g with
  | nil => simp
  | cons j rest ih =>
      rw [List.foldl_cons, ih]
      by_cases later : i ∈ rest
      · simp [later]
      · by_cases now : i = j
        · subst now
          simp [later]
        · simp [later, now]

theorem initCrc32Table_apply (table : CrcTable) (i : Fin 256) :
    initCrc32Table table i = crc32Table (BitVec.ofNat 32 i.val) := by
  rw [initCrc32Table, foldl_update fun i : Fin 256 => crc32Shift^[8] (BitVec.ofNat 32 i.val)]
  simp [crc32Table]

/-- After `nng_init` the loop is the one that the rest of the model runs. -/
theorem initCrc32Table_step (table : CrcTable) (crc : BitVec 32) (b : Byte) :
    (initCrc32Table table).step crc b = crc32Step crc b := by
  rw [CrcTable.step, initCrc32Table_apply, BitVec.ofNat_toNat, BitVec.setWidth_eq, crc32Step]

theorem initCrc32Table_process (table : CrcTable) (crc : BitVec 32) (data : List Byte) :
    (initCrc32Table table).process crc data = data.foldl crc32Step crc := by
  refine congrArg (fun f => List.foldl f crc data) ?_
  funext crc b
  exact initCrc32Table_step table crc b

theorem initCrc32Table_checksumAt (table : CrcTable) (h : Heap) (address len : Nat) :
    (initCrc32Table table).checksumAt h address len = checksumAt h address len := by
  simp only [CrcTable.checksumAt, checksumAt, calculateChecksum, initCrc32Table_process]

/-! ## Lookups are eight single bits -/

theorem crc32Shift_eq (c : BitVec 32) : crc32Shift c = Digest.shift crc32Poly c := by
  have bit : c &&& 1#32 ≠ 0#32 ↔ c.getLsbD 0 = true := by
    rw [BitVec.and_one_eq_setWidth_ofBool_getLsbD]
    cases c.getLsbD 0 <;> decide
  simp only [crc32Shift, Digest.shift, bit]

theorem crc32Step_eq (crc : BitVec 32) (b : Byte) :
    crc32Step crc b = Digest.absorb crc32Poly crc b := by
  have shifts : crc32Shift = Digest.shift crc32Poly := funext crc32Shift_eq
  have masked (x : BitVec 32) : x &&& 0xFF#32 = (x.setWidth 8).setWidth 32 := by
    have mask : (0xFF#32 : BitVec 32) = (BitVec.allOnes 8).setWidth 32 := by decide
    refine BitVec.eq_of_getLsbD_eq fun i inside => ?_
    simp only [mask, BitVec.getLsbD_and, BitVec.getLsbD_setWidth, BitVec.getLsbD_allOnes, inside,
      decide_true, Bool.true_and]
    exact Bool.and_comm _ _
  have high : (crc ^^^ b.setWidth 32) >>> 8 = crc >>> 8 := by
    rw [BitVec.ushiftRight_xor_distrib]
    have none : (b.setWidth 32) >>> 8 = 0#32 := by
      refine BitVec.eq_of_getLsbD_eq fun i _ => ?_
      simp
    rw [none, BitVec.xor_zero]
  rw [Digest.absorb, Digest.iterate_shift_split, ← masked, high, crc32Step, crc32Table, shifts]

theorem foldl_crc32Step (crc : BitVec 32) (data : List Byte) :
    data.foldl crc32Step crc =
      (data.flatMap Digest.bits).foldl (Digest.feed crc32Poly) crc := by
  induction data generalizing crc with
  | nil => rfl
  | cons b rest ih =>
      rw [List.foldl_cons, ih, List.flatMap_cons, List.foldl_append, crc32Step_eq, Digest.absorb,
        Digest.foldl_feed_bits crc32Poly (by decide)]

theorem calculateChecksum_eq (data : List Byte) : calculateChecksum data = crc32Bitwise data := by
  rw [calculateChecksum, foldl_crc32Step, crc32Bitwise, crc32Poly]
  exact BitVec.xor_allOnes

/-- After `nng_init` the checksum of a readable range is its CRC-32, and it can be taken in
two parts: the second one continues from where the first one stopped. -/
theorem checksum_bitwise (earlier : CrcTable) (h : Heap) (address len : Nat)
    (readable : securityValidateMemoryAccess h.regions address len false = true) :
    let table := initCrc32Table earlier
    table.checksumAt h address len = crc32Bitwise (h.mem.read address len) ∧
      (∀ crc a b, table.process crc (a ++ b) = table.process (table.process crc a) b) ∧
      ∀ k ≤ len,
        table.checksumAt h address len =
          ~~~table.process (~~~table.checksumAt h address k)
            (h.mem.read (address + k) (len - k)) := by
  intro table
  have whole (k : Nat) (front : k ≤ len) : table.checksumAt h address k =
      ~~~table.process 0xFFFFFFFF#32 (h.mem.read address k) := by
    rw [CrcTable.checksumAt, if_pos (validate_front readable front)]
    exact BitVec.xor_allOnes
  have parts (crc : BitVec 32) (a b : List Byte) :
      table.process crc (a ++ b) = table.process (table.process crc a) b := List.foldl_append
  refine ⟨?_, parts, fun k front => ?_⟩
  · rw [initCrc32Table_checksumAt, checksumAt, if_pos readable, calculateChecksum_eq]
  · rw [whole len le_rfl, whole k front, BitVec.not_not, ← parts, ← Mem.read_append,
      Nat.add_sub_cancel' front]

theorem checksum_bitwise_check :
    let h : Heap := ⟨fun x => BitVec.ofNat 8 x, memoryInit, []⟩
    (initCrc32Table fun _ => 0).checksumAt h 0x31 9 = 0xCBF43926#32 := by
  intro h
  rw [(checksum_bitwise (fun _ => 0) h 0x31 9 rfl).1]
  decide +kernel

end LughOS.Kernel

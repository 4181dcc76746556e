import LughOS.Kernel.PriorityQueue
import LughOS.Update.Signature

/-!
# Single changed bytes

Both digests of the system tell strings apart that differ in one byte. A step of FNV-1a adds the
byte and multiplies by an odd number, a step of CRC-32 adds the byte and shifts eight times, and
neither loses the state or the byte. So an update image with one byte changed does not have the
hash of the original, and a queued message with one character changed does not have the checksum
it was queued with.

The checksum covers the characters in front of the terminating NUL. A pop looks at the first
message only, so a changed message is reported when those in front of it have left, and from then
on it stays in front.
-/

namespace LughOS.Update

open Bytes Kernel Digest

/-! ## The digests -/

section Digests

variable {xs ys : List Byte}

theorem fnvPrime_unit : 16777619#32 * 899433627#32 = 1#32 := by decide

theorem fnv1a_ne (d : DifferOnce xs ys) (seed : BitVec 32) : fnv1a seed xs ≠ fnv1a seed ys :=
  d.foldl_ne (mix_state_injective fnvPrime_unit) (mix_letter_injective fnvPrime_unit (by decide))
    seed

theorem checksum_ne (earlier : CrcTable) (d : DifferOnce xs ys) :
    (initCrc32Table earlier).checksum xs ≠ (initCrc32Table earlier).checksum ys := by
  have top : crc32Poly.msb = true := by decide
  have step : crc32Step = absorb crc32Poly := by
    funext crc b
    exact crc32Step_eq crc b
  simp only [CrcTable.checksum, initCrc32Table_process, step]
  intro same
  exact d.foldl_ne (absorb_state_injective top) (absorb_letter_injective top (by decide)) _
    ((BitVec.xor_left_inj _).mp same)

end Digests

/-! ## The queue -/

/-- The return values of `queue_pop` for a list of destinations. -/
def popCodes (table : CrcTable) (q : Nat) (h : Heap) (msgs : List Nat) : List Int :=
  Runs.outputs (fun h msg => (queuePop table h q msg).2) (fun h msg => [(queuePop table h q msg).1])
    h msgs

/-- One character of the payload is another one and the checksum is the same. -/
structure Altered (m m' : Message) : Prop where
  payload : DifferOnce (cString m.payload) (cString m'.payload)
  checksum : m'.checksum = m.checksum

/-- Character `j` of message `k` may be replaced by `b`. -/
structure Replaceable (mem : Mem) (q k j : Nat) (b : Byte) : Prop where
  slot : k < (queueCount mem q).toNat
  character : j < (cString (messageAt mem (slotAddress q k)).payload).length
  nonzero : b ≠ 0
  other : mem (slotAddress q k + 16 + j) ≠ b

/-- The memory with that character replaced. -/
def tamper (mem : Mem) (q k j : Nat) (b : Byte) : Mem :=
  Function.update mem (slotAddress q k + 16 + j) b

section Queue

variable {table : CrcTable} {h : Heap} {q n : Nat}

theorem Altered.terminated {m m' : Message} (altered : Altered m m')
    (terminated : NulTerminated m) : NulTerminated m' := by
  rwa [NulTerminated, ← altered.payload.1]

theorem Altered.checksum_ne {earlier : CrcTable} {m m' : Message} (altered : Altered m m')
    (valid : ChecksumValid (initCrc32Table earlier) m) :
    (initCrc32Table earlier).checksum (cString m'.payload) ≠ m'.checksum := by
  rw [altered.checksum, ← valid.2]
  exact (Update.checksum_ne earlier altered.payload).symm

theorem slotMessages_eq_cons {mem : Mem} {m : Message} {rest : List Message}
    (slots : slotMessages mem q n = m :: rest) : ∃ k, n = k + 1 ∧ messageAt mem q = m := by
  cases n with
  | zero => cases slots
  | succ k =>
      rw [slotMessages_succ] at slots
      exact ⟨k, rfl, (List.cons.inj slots).1⟩

/-- The messages in front of the first one with a wrong checksum leave, and that one does not. -/
theorem popCodes_stops {front back : List Message} {bad : Message} {msgs : List Nat}
    (admitted : securityValidateMemoryAccess h.regions q queueSize false = true)
    (count : queueCount h.mem q = n) (bound : n ≤ 1024)
    (slots : slotMessages h.mem q n = front ++ bad :: back)
    (valid : ∀ m ∈ front, ChecksumValid table m) (terminated : NulTerminated bad)
    (invalid : table.checksum (cString bad.payload) ≠ bad.checksum)
    (length : msgs.length = front.length + 1) (placed : ∀ msg ∈ msgs, Placed h q msg) :
    popCodes table q h msgs = List.replicate front.length 0 ++ [-2] := by
  induction front generalizing h n msgs with
  | nil =>
      obtain ⟨msg, rfl⟩ := List.length_eq_one_iff.mp length
      obtain ⟨k, rfl, rfl⟩ := slotMessages_eq_cons slots
      have code := queuePop_eval table admitted (placed msg (by simp)) terminated count
        (by omega)
      rw [if_neg invalid] at code
      simp [popCodes, Runs.outputs, code]
  | cons m front ih =>
      obtain ⟨msg, rest, rfl⟩ := List.exists_cons_of_length_eq_add_one length
      obtain ⟨k, rfl, rfl⟩ := slotMessages_eq_cons slots
      have here := placed msg (by simp)
      obtain ⟨string, sum⟩ := valid _ List.mem_cons_self
      have code := queuePop_eval table admitted here string count (by omega)
      rw [if_pos sum] at code
      obtain ⟨count', -, moved⟩ := popMemory_spec h.mem here.apart (n := k) (by omega)
      rw [moved] at slots
      have later : popCodes table q (h.withMem (popMemory h.mem q msg k)) rest =
          List.replicate front.length 0 ++ [-2] := by
        refine ih (n := k) ?_ ?_ (by omega) ?_ (fun m member => ?_) ?_ fun msg member => ?_
        · rw [Heap.withMem_regions]
          exact admitted
        · rw [Heap.withMem_mem]
          exact count'
        · rw [Heap.withMem_mem]
          exact (List.cons.inj slots).2
        · exact valid m (List.mem_cons_of_mem _ member)
        · simpa using length
        · exact (placed msg (List.mem_cons_of_mem _ member)).withMem _
      rw [popCodes] at later
      rw [popCodes, Runs.outputs, code, later]
      rfl

/-- Only the character is different. -/
theorem slotMessages_tamper {mem : Mem} {k j : Nat} {b : Byte} (count : queueCount mem q = n)
    (bound : n ≤ 1024) (replaceable : Replaceable mem q k j b)
    (terminated : NulTerminated (messageAt mem (slotAddress q k))) :
    queueCount (tamper mem q k j b) q = n ∧ ∃ bad back,
      slotMessages (tamper mem q k j b) q n = (slotMessages mem q n).take k ++ bad :: back ∧
      Altered (messageAt mem (slotAddress q k)) bad := by
  obtain ⟨slot, character, nonzero, differ⟩ := replaceable
  have short : (cString (messageAt mem (slotAddress q k)).payload).length ≤ 127 := terminated
  rw [count, Int.toNat_natCast] at slot
  rw [slotAddress_natCast] at character short differ ⊢
  have same {a l : Nat} (outside : a + l ≤ q + 144 * k + 16 + j ∨ q + 144 * k + 17 + j ≤ a) :
      Mem.EqOn (tamper mem q k j b) mem a l := by
    intro x low high
    rw [tamper, slotAddress_natCast, Function.update_of_ne (by omega)]
  refine ⟨?_, messageAt (tamper mem q k j b) (q + 144 * k),
    (slotMessages (tamper mem q k j b) q n).drop (k + 1), ?_, ?_, ?_⟩
  · rw [queueCount_eqOn (same (by simp only [countAddress]; omega)), count]
  · have part (mem : Mem) : (slotMessages mem q n).take k = slotMessages mem q k := by
      rw [slotMessages, ← List.map_take, List.take_range, Nat.min_eq_left slot.le, slotMessages]
    have front : (slotMessages mem q n).take k =
        (slotMessages (tamper mem q k j b) q n).take k := by
      rw [part, part, slotMessages_eqOn (same (by omega))]
    have here : k < (slotMessages (tamper mem q k j b) q n).length := by
      rwa [length_slotMessages]
    rw [front, ← getElem_slotMessages here, List.getElem_cons_drop, List.take_append_drop]
  · have string : cString (messageAt (tamper mem q k j b) (q + 144 * k)).payload =
        (cString (messageAt mem (q + 144 * k)).payload).set j b := by
      refine cString_set character (by omega) nonzero ?_ fun i other => ?_
      · simp only [messageAt, tamper, slotAddress_natCast, Function.update_self]
      · exact same (a := q + 144 * k + 16 + i) (l := 1) (by omega) _ le_rfl (by omega)
    rw [string]
    refine .set character ?_
    rw [cString_getElem]
    exact differ
  · exact wordAt_congr (same (by omega))

/-- The message of a queue that one of its characters is replaced in is not handed out. -/
theorem popCodes_tamper {earlier : CrcTable} {s : QueueRun} {k j : Nat} {b : Byte} {msgs : List Nat}
    (sound : s.Sound (initCrc32Table earlier) q) (replaceable : Replaceable s.heap.mem q k j b)
    (length : msgs.length = k + 1) (placed : ∀ msg ∈ msgs, Placed s.heap q msg) :
    popCodes (initCrc32Table earlier) q (s.heap.withMem (tamper s.heap.mem q k j b)) msgs =
      List.replicate k 0 ++ [-2] := by
  have slot := replaceable.slot
  rw [sound.count, Int.toNat_natCast] at slot
  have member : messageAt s.heap.mem (slotAddress q k) ∈ storedMessages s.heap.mem q := by
    rw [sound.stored]
    exact List.mem_map.mpr ⟨k, List.mem_range.mpr slot, rfl⟩
  have valid := sound.valid_stored member
  obtain ⟨count, bad, back, slots, altered⟩ :=
    slotMessages_tamper sound.count sound.bound replaceable valid.1
  have front : ((slotMessages s.heap.mem q s.waiting.length).take k).length = k := by
    rw [List.length_take, length_slotMessages, Nat.min_eq_left slot.le]
  have others (m : Message) (member : m ∈ (slotMessages s.heap.mem q s.waiting.length).take k) :
      ChecksumValid (initCrc32Table earlier) m := by
    refine sound.valid_stored ?_
    rw [sound.stored]
    exact List.mem_of_mem_take member
  rw [← front] at length
  have codes := popCodes_stops (h := s.heap.withMem (tamper s.heap.mem q k j b)) sound.admitted
    count sound.bound slots others (altered.terminated valid.1) (altered.checksum_ne valid) length
    fun msg member => (placed msg member).withMem _
  rwa [front] at codes

/-- Whatever else is in the queue, an altered message in front is not handed out. -/
theorem queuePop_altered {earlier : CrcTable} {msg : Nat} {m : Message}
    (admitted : securityValidateMemoryAccess h.regions q queueSize false = true)
    (placed : Placed h q msg) (count : queueCount h.mem q = (n + 1 : Nat)) (bound : n < 1024)
    (valid : ChecksumValid (initCrc32Table earlier) m) (altered : Altered m (messageAt h.mem q)) :
    (queuePop (initCrc32Table earlier) h q msg).1 = -2 := by
  rw [queuePop_eval _ admitted placed (altered.terminated valid.1) count bound,
    if_neg (altered.checksum_ne valid)]

end Queue

/-- Strings that differ in one byte have different hashes and different checksums. An image with
one byte changed does not pass with the hash of the original. A queued message with one character
changed is refused when it is in front, and in a run in which one character of the queue was
replaced the pops return 0 up to that message and then -2. -/
theorem tampering_caught (earlier : CrcTable) :
    let table := initCrc32Table earlier
    (∀ (h h' : Heap) (a a' len : Nat),
      securityValidateMemoryAccess h.regions a len false = true →
      securityValidateMemoryAccess h'.regions a' len false = true →
      DifferOnce (h.mem.read a len) (h'.mem.read a' len) →
      computeSha256 h a len ≠ computeSha256 h' a' len ∧
        verifySignature h' a' len (computeSha256 h a len) = false ∧
        table.checksumAt h a len ≠ table.checksumAt h' a' len) ∧
      (∀ (h : Heap) (q msg n : Nat) (m : Message),
        securityValidateMemoryAccess h.regions q queueSize false = true → Placed h q msg →
        queueCount h.mem q = (n + 1 : Nat) → n < 1024 →
        ChecksumValid table m → Altered m (messageAt h.mem q) →
        (queuePop table h q msg).1 = -2) ∧
      ∀ (h : Heap) (q : Nat) (calls : List QueueCall),
        securityValidateMemoryAccess h.regions q queueSize false = true →
        Runs.Meets (QueueRun.step table q) (QueueRun.Allowed q) (QueueRun.start h q) calls →
        let s := Runs.after (QueueRun.step table q) (QueueRun.start h q) calls
        ∀ (k j : Nat) (b : Byte) (msgs : List Nat), Replaceable s.heap.mem q k j b →
          msgs.length = k + 1 → (∀ msg ∈ msgs, Placed s.heap q msg) →
          popCodes table q (s.heap.withMem (tamper s.heap.mem q k j b)) msgs =
            List.replicate k 0 ++ [-2] := by
  intro table
  refine ⟨?_, fun h q msg n m => queuePop_altered, ?_⟩
  · intro h h' a a' len readable readable' differ
    have pos : 1 ≤ len := by
      obtain ⟨before, x, y, after, -, split, -⟩ := differ.split
      have := congrArg List.length split
      simp at this
      omega
    have hashes : computeSha256 h a len ≠ computeSha256 h' a' len := by
      rw [computeSha256_readable pos readable, computeSha256_readable pos readable']
      exact fnv1a_ne differ _
    refine ⟨hashes, ?_, ?_⟩
    · rw [Bool.eq_false_iff, Ne, verifySignature_readable pos readable']
      rintro ⟨-, same⟩
      exact hashes (by rw [computeSha256_readable pos readable', same])
    · rw [CrcTable.checksumAt, CrcTable.checksumAt, if_pos readable, if_pos readable']
      exact checksum_ne earlier differ
  · intro h q calls admitted run s k j b msgs replaceable length placed
    have sound : s.Sound table q :=
      Runs.run_invariant (QueueRun.sound_start admitted) QueueRun.step_sound run
    exact popCodes_tamper sound replaceable length placed

/-- A cleared machine without regions. -/
def clearedHeap : Heap := ⟨fun _ => 0, memoryInit, []⟩

/-- A message with the payload `A` at `0x1000`. -/
def letterHeap : Heap := ⟨fun x => if x = 0x1010 then 0x41 else 0, memoryInit, []⟩

/-- The message is in a queue at `0x10000`. -/
def letterQueue : QueueRun :=
  Runs.after (QueueRun.step (initCrc32Table fun _ => 0) 0x10000) (QueueRun.start letterHeap 0x10000)
    [.push 0x1000]

theorem tampering_caught_letter :
    verifySignature clearedHeap 0x1010 1 (computeSha256 letterHeap 0x1010 1) = false ∧
      popCodes (initCrc32Table fun _ => 0) 0x10000
        (letterQueue.heap.withMem (tamper letterQueue.heap.mem 0x10000 0 0 0x42)) [0x1000] =
          [-2] := by
  obtain ⟨digests, -, queue⟩ := tampering_caught fun _ => 0
  have differ : DifferOnce [(0x41 : Byte)] ([0x41].set 0 0) := .set (by decide) (by decide)
  have string : NulTerminated
      (messageAt (QueueRun.start letterHeap 0x10000).heap.mem 0x1000) := by decide +kernel
  have replaceable : Replaceable letterQueue.heap.mem 0x10000 0 0 0x42 :=
    ⟨by decide +kernel, by decide +kernel, by decide, by decide +kernel⟩
  have placed (msg : Nat) (member : msg ∈ [0x1000]) : Placed letterQueue.heap 0x10000 msg := by
    rw [List.mem_singleton.mp member]
    exact ⟨by decide +kernel, by decide⟩
  have codes := queue letterHeap 0x10000 [.push 0x1000] (by decide)
    ⟨⟨⟨by decide, by decide⟩, string⟩, trivial⟩ 0 0 0x42 [0x1000] replaceable rfl placed
  exact ⟨(digests letterHeap clearedHeap 0x1010 0x1010 1 (by decide) (by decide) differ).2.1, codes⟩

end LughOS.Update

import LughOS.Kernel.Checksum
import LughOS.Kernel.Syscalls
import LughOS.Library.Runs
import LughOS.Library.StableQueue

/-!
# The priority queue

`queue_init`, `queue_push` and `queue_pop` of `services/scheduler/utils.c`. The queue is an array
of 1024 messages of 144 bytes with a count behind it, and both the queue and the caller's message
are where the pointers say, in one memory. A push moves the messages of larger priority values up
by one slot, a pop moves all messages down by one.

Both calls recompute the checksum of a payload. They read it through `strlen` and
`calculate_checksum`, which ask the access gate; everything else is plain loads and stores. What
the checksum is depends on `crc32_table`, and nothing here depends on what the table holds, as
long as it stays.

The specification is a stable priority queue of the accepted messages in order of arrival, and a
run of calls keeps the stored messages a representation of it.
-/

namespace LughOS.Kernel

open Bytes

/-! ## The queue in memory -/

/-- `sizeof(priority_queue_t)`. -/
def queueSize : Nat := 147460

def slotAddress (q : Nat) (i : Int) : Nat := (q + 144 * i).toNat

def countAddress (q : Nat) : Nat := q + 147456

def queueCount (mem : Mem) (q : Nat) : Int := (wordAt mem (countAddress q)).toInt

def setQueueCount (mem : Mem) (q : Nat) (count : Int) : Mem :=
  mem.write (countAddress q) (wordBytes 4 (BitVec.ofInt 32 count))

/-- The checksum of the payload of the message at an address. -/
def payloadChecksum (table : CrcTable) (h : Heap) (address : Nat) : BitVec 32 :=
  table.checksumAt h (address + 16) (strlen h (address + 16)).1

def Heap.withMem (h : Heap) (mem : Mem) : Heap := { h with mem := mem }

def queueInit (h : Heap) (q : Nat) : Heap :=
  if q = 0 then h else h.withMem (setQueueCount h.mem q 0)

/-- The loop of `queue_push` from position `i` down: the memory and the position it stops at. -/
def shiftUp (mem : Mem) (q msg : Nat) : Nat → Mem × Nat
  | 0 => (mem, 0)
  | i + 1 =>
      if wordAt mem msg < wordAt mem (slotAddress q i) then
        shiftUp (mem.copy (slotAddress q (i + 1)) (slotAddress q i) messageSize) q msg i
      else (mem, i + 1)

def queuePush (table : CrcTable) (h : Heap) (q msg : Nat) : Int × Heap :=
  if q = 0 ∨ msg = 0 then (-1, h)
  else if 1024 ≤ queueCount h.mem q then (-1, h)
  else if queueCount h.mem q = 2 ^ 31 - 1 then (-1, h)
  else
    let h := h.withMem (h.mem.write (msg + 8) (wordBytes 4 (payloadChecksum table h msg)))
    let count := queueCount h.mem q
    let shifted := shiftUp (setQueueCount h.mem q (count + 1)) q msg count.toNat
    let i : Int := if 0 < count then shifted.2 else count
    let h := h.withMem (shifted.1.copy (slotAddress q i) msg messageSize)
    if payloadChecksum table h (slotAddress q i) ≠ wordAt h.mem (slotAddress q i + 8) then (-2, h)
    else (0, h)

/-- The loop of `queue_pop`: the `n` messages behind the first one move down. -/
def shiftDown (mem : Mem) (q n : Nat) : Mem :=
  (List.range n).foldl
    (fun mem i => mem.copy (slotAddress q i) (slotAddress q (i + 1)) messageSize) mem

def queuePop (table : CrcTable) (h : Heap) (q msg : Nat) : Int × Heap :=
  if q = 0 ∨ msg = 0 then (-1, h)
  else if queueCount h.mem q = 0 then (-1, h)
  else
    let h := h.withMem (h.mem.copy msg (slotAddress q 0) messageSize)
    if payloadChecksum table h msg ≠ wordAt h.mem (msg + 8) then (-2, h)
    else
      let mem := shiftDown h.mem q (min (queueCount h.mem q) 1024 - 1).toNat
      (0, h.withMem (setQueueCount mem q (queueCount mem q - 1)))

/-- The first `n` messages. -/
def slotMessages (mem : Mem) (q n : Nat) : List Message :=
  (List.range n).map fun i : Nat => messageAt mem (slotAddress q i)

/-- What the queue holds. -/
def storedMessages (mem : Mem) (q : Nat) : List Message :=
  slotMessages mem q (queueCount mem q).toNat

/-- The order in which messages leave: smaller values first. -/
def urgency (m : Message) : Nat := m.priority.toNat

/-! ## Messages in memory -/

section Memory

variable {mem mem' : Mem} {q a b n : Nat}

@[simp] theorem slotAddress_natCast (q i : Nat) : slotAddress q i = q + 144 * i := by
  simp only [slotAddress]
  omega

@[simp] theorem slotAddress_succ (q i : Nat) : slotAddress q (i + 1) = q + 144 * i + 144 := by
  simp only [slotAddress]
  omega

@[simp] theorem slotAddress_zero (q : Nat) : slotAddress q 0 = q := by simp [slotAddress]

theorem messageAt_copy (mem : Mem) (apart : a + 144 ≤ b ∨ b + 144 ≤ a) :
    messageAt (mem.copy b a 144) b = messageAt mem a :=
  messageAt_congr fun _ below => Mem.copy_inside mem b a (by omega) below

theorem length_slotMessages (mem : Mem) (q n : Nat) : (slotMessages mem q n).length = n := by
  simp [slotMessages]

theorem getElem_slotMessages {i : Nat} (inside : i < (slotMessages mem q n).length) :
    (slotMessages mem q n)[i] = messageAt mem (q + 144 * i) := by
  simp [slotMessages]

theorem slotMessages_eqOn (same : Mem.EqOn mem' mem q (144 * n)) :
    slotMessages mem' q n = slotMessages mem q n := by
  refine List.map_congr_left fun i member => ?_
  have below := List.mem_range.mp member
  rw [slotAddress_natCast]
  exact messageAt_eqOn (same.mono (by omega) (by omega))

end Memory

/-! ## The loops -/

/-- What the loop of `queue_push` has done: the messages from its position on are one slot higher,
all of them leave after the new one, and the message below does not. -/
structure ShiftedUp (mem : Mem) (q msg n : Nat) (mem' : Mem) (i : Nat) : Prop where
  bound : i ≤ n
  moved : ∀ j, i ≤ j → j < n → messageAt mem' (q + 144 * (j + 1)) = messageAt mem (q + 144 * j)
  later : ∀ j, i ≤ j → j < n → wordAt mem msg < wordAt mem (q + 144 * j)
  stop : ∀ j, i = j + 1 → ¬wordAt mem msg < wordAt mem (q + 144 * j)
  frame : ∀ {a k}, a + k ≤ q + 144 * (i + 1) ∨ q + 144 * (n + 1) ≤ a → Mem.EqOn mem' mem a k

theorem shiftUp_spec (mem : Mem) (q msg n : Nat)
    (apart : msg + 144 ≤ q ∨ q + 144 * (n + 1) ≤ msg) :
    ShiftedUp mem q msg n (shiftUp mem q msg n).1 (shiftUp mem q msg n).2 := by
  induction n generalizing mem with
  | zero =>
      refine ⟨le_rfl, fun j _ below => ?_, fun j _ below => ?_, fun j none => ?_, fun _ => .refl⟩
      · omega
      · omega
      · cases none
  | succ n ih =>
      rw [shiftUp, slotAddress_natCast, slotAddress_succ, messageSize]
      by_cases later : wordAt mem msg < wordAt mem (q + 144 * n)
      · rw [if_pos later]
        have before {a k : Nat} (outside : a + k ≤ q + 144 * n + 144 ∨ q + 144 * n + 288 ≤ a) :
            Mem.EqOn (mem.copy (q + 144 * n + 144) (q + 144 * n) 144) mem a k :=
          Mem.copy_eqOn mem _ (by omega)
        have ih := ih (mem.copy (q + 144 * n + 144) (q + 144 * n) 144) (by omega)
        have bound := ih.bound
        have new : wordAt (mem.copy (q + 144 * n + 144) (q + 144 * n) 144) msg =
            wordAt mem msg := wordAt_congr (before (by omega))
        constructor
        · omega
        · intro j low high
          rcases Nat.lt_succ_iff_lt_or_eq.mp high with below | rfl
          · rw [ih.moved j low below]
            exact messageAt_eqOn (before (by omega))
          · rw [messageAt_eqOn (ih.frame (by omega))]
            exact messageAt_copy mem (by omega)
        · intro j low high
          rcases Nat.lt_succ_iff_lt_or_eq.mp high with below | rfl
          · have := ih.later j low below
            rwa [new, wordAt_congr (before (by omega))] at this
          · exact later
        · intro j here
          have := ih.stop j here
          rwa [new, wordAt_congr (before (by omega))] at this
        · intro a k outside
          exact (ih.frame (by omega)).trans (before (by omega))
      · rw [if_neg later]
        refine ⟨le_rfl, fun j _ below => ?_, fun j _ below => ?_, fun j here => ?_, fun _ => .refl⟩
        · omega
        · omega
        · obtain rfl : n = j := by omega
          exact later

/-- The messages behind the first one are one slot lower. -/
theorem shiftDown_spec (mem : Mem) (q n : Nat) :
    slotMessages (shiftDown mem q n) q n = (slotMessages mem q (n + 1)).tail ∧
      ∀ {a k}, a + k ≤ q ∨ q + 144 * n ≤ a → Mem.EqOn (shiftDown mem q n) mem a k := by
  induction n with
  | zero => exact ⟨rfl, fun _ => .refl⟩
  | succ n ih =>
      obtain ⟨moved, frame⟩ := ih
      have step : shiftDown mem q (n + 1) =
          (shiftDown mem q n).copy (q + 144 * n) (q + 144 * n + 144) 144 := by
        simp [shiftDown, List.range_succ, List.foldl_append, messageSize]
      have last {a k : Nat} (outside : a + k ≤ q + 144 * n ∨ q + 144 * (n + 1) ≤ a) :
          Mem.EqOn (shiftDown mem q (n + 1)) (shiftDown mem q n) a k := by
        rw [step]
        exact Mem.copy_eqOn _ _ (by omega)
      refine ⟨?_, fun outside => (last (by omega)).trans (frame (by omega))⟩
      have top : messageAt (shiftDown mem q (n + 1)) (q + 144 * n) =
          messageAt mem (q + 144 * (n + 1)) := by
        rw [step, messageAt_copy _ (by omega)]
        exact messageAt_eqOn (frame (by omega))
      have split (mem : Mem) (k : Nat) :
          slotMessages mem q (k + 1) = slotMessages mem q k ++ [messageAt mem (q + 144 * k)] := by
        simp [slotMessages, List.range_succ]
      rw [split, slotMessages_eqOn (last (by omega)), moved, top, split mem (n + 1),
        List.tail_append_of_ne_nil]
      rw [← List.length_pos_iff, length_slotMessages]
      omega

/-- The message of the caller takes the slot at which the loop stopped. -/
theorem ShiftedUp.messages_copy {mem mem' : Mem} {q msg n i : Nat}
    (up : ShiftedUp mem q msg n mem' i) (apart : msg + 144 ≤ q ∨ q + 144 * (n + 1) ≤ msg) :
    slotMessages (mem'.copy (q + 144 * i) msg 144) q (n + 1) =
      (slotMessages mem q n).take i ++ messageAt mem msg :: (slotMessages mem q n).drop i := by
  have bound := up.bound
  have other {a k : Nat} (outside : a + k ≤ q + 144 * i ∨ q + 144 * i + 144 ≤ a) :
      Mem.EqOn (mem'.copy (q + 144 * i) msg 144) mem' a k := Mem.copy_eqOn mem' _ outside
  refine List.ext_getElem ?_ fun j inside _ => ?_
  · simp only [List.length_append, List.length_cons, List.length_take, List.length_drop,
      length_slotMessages]
    omega
  rw [length_slotMessages] at inside
  rw [getElem_slotMessages]
  rcases Nat.lt_trichotomy j i with below | rfl | above
  · rw [List.getElem_append_left (by simp [length_slotMessages]; omega), List.getElem_take,
      getElem_slotMessages, messageAt_eqOn (other (by omega)), messageAt_eqOn (up.frame (by omega))]
  · rw [List.getElem_append_right (by simp), messageAt_copy mem' (by omega),
      messageAt_eqOn (up.frame (by omega))]
    simp [length_slotMessages, bound]
  · obtain ⟨k, rfl⟩ : ∃ k, j = k + 1 := ⟨j - 1, by omega⟩
    rw [messageAt_eqOn (other (by omega)), up.moved k (by omega) (by omega),
      List.getElem_append_right (by simp; omega)]
    simp only [List.length_take, length_slotMessages, Nat.min_eq_left bound]
    obtain ⟨d, rfl⟩ := Nat.exists_eq_add_of_le (Nat.lt_succ_iff.mp above)
    simp only [Nat.add_sub_cancel_left, Nat.add_assoc, List.getElem_cons_succ, List.getElem_drop,
      getElem_slotMessages]

/-! ## Checksums of payloads -/

/-- The checksum of a string. -/
def CrcTable.checksum (table : CrcTable) (data : List Byte) : BitVec 32 :=
  table.process 0xFFFFFFFF#32 data ^^^ 0xFFFFFFFF#32

/-- The message with the checksum of its payload. -/
def withChecksum (table : CrcTable) (m : Message) : Message :=
  { m with checksum := table.checksum (cString m.payload) }

/-- The checksum of the message is that of its payload. -/
def ChecksumValid (table : CrcTable) (m : Message) : Prop :=
  NulTerminated m ∧ table.checksum (cString m.payload) = m.checksum

section Checksums

variable {table : CrcTable} {h : Heap} {mem : Mem} {a q : Nat}

/-- The gate lets both functions see the whole payload. -/
theorem payloadChecksum_eq (readable : securityValidateMemoryAccess h.regions a 144 false = true)
    (terminated : NulTerminated (messageAt h.mem a)) :
    payloadChecksum table h a = table.checksum (cString (messageAt h.mem a).payload) := by
  have short : (cString (messageAt h.mem a).payload).length ≤ 127 := terminated
  have payload : securityValidateMemoryAccess h.regions (a + 16) 128 false = true :=
    validate_part readable (by omega) (by omega) (by omega)
  have length : (strlen h (a + 16)).1 = (cString (messageAt h.mem a).payload).length :=
    strlen_eq (payload_character h.mem a) (payload_nul (by omega)) (by omega)
      (validate_front payload (by omega))
  rw [payloadChecksum, length, CrcTable.checksumAt, if_pos (validate_front payload (by omega)),
    payload_read, CrcTable.checksum]

/-- A message with the right checksum passes the comparison of both calls. -/
theorem payloadChecksum_valid
    (readable : securityValidateMemoryAccess h.regions a 144 false = true)
    (valid : ChecksumValid table (messageAt h.mem a)) :
    payloadChecksum table h a = wordAt h.mem (a + 8) := by
  rw [payloadChecksum_eq readable valid.1, valid.2]
  rfl

theorem wordAt_write (mem : Mem) (a : Nat) (v : BitVec 32) :
    wordAt (mem.write a (wordBytes 4 v)) a = v := by
  rw [wordAt, Mem.readWord, Mem.read_write_of_eq mem a _ (wordBytes_length 4 v),
    ofBytes_wordBytes_of_le 4 v (by decide), BitVec.ofNat_toNat, BitVec.setWidth_eq]

theorem messageAt_write_checksum (mem : Mem) (a : Nat) (v : BitVec 32) :
    messageAt (mem.write (a + 8) (wordBytes 4 v)) a = { messageAt mem a with checksum := v } := by
  have other {b k : Nat} (outside : b + k ≤ a + 8 ∨ a + 12 ≤ b) :
      Mem.EqOn (mem.write (a + 8) (wordBytes 4 v)) mem b k :=
    Mem.write_eqOn mem _ (by simpa using outside)
  simp only [messageAt, Message.mk.injEq]
  refine ⟨wordAt_congr (other (by omega)), wordAt_congr (other (by omega)),
    wordAt_write mem (a + 8) v, wordAt_congr (other (by omega)), ?_⟩
  · funext i
    exact other (b := a + 16 + i) (k := 1) (by omega) _ le_rfl (by omega)

theorem queueCount_eqOn {mem' : Mem} (same : Mem.EqOn mem' mem (countAddress q) 4) :
    queueCount mem' q = queueCount mem q := by
  rw [queueCount, queueCount, wordAt_congr same]

theorem setQueueCount_eqOn {c : Int} {b k : Nat}
    (outside : b + k ≤ q + 147456 ∨ q + 147460 ≤ b) :
    Mem.EqOn (setQueueCount mem q c) mem b k :=
  Mem.write_eqOn mem _ (by simpa [countAddress] using outside)

theorem queueCount_set (mem : Mem) (q : Nat) {n : Nat} (small : n ≤ 1024) :
    queueCount (setQueueCount mem q n) q = n := by
  rw [queueCount, setQueueCount, wordAt_write, BitVec.toInt_ofInt]
  exact Int.bmod_eq_of_le (by omega) (by omega)

end Checksums

/-! ## One call -/

/-- The gate lets the message be read, and it is not in the queue. -/
structure Placed (h : Heap) (q msg : Nat) : Prop where
  readable : securityValidateMemoryAccess h.regions msg 144 false = true
  apart : msg + 144 ≤ q ∨ q + queueSize ≤ msg

@[simp] theorem Heap.withMem_mem (h : Heap) (mem : Mem) : (h.withMem mem).mem = mem := rfl

@[simp] theorem Heap.withMem_regions (h : Heap) (mem : Mem) :
    (h.withMem mem).regions = h.regions := rfl

section Calls

variable {table : CrcTable} {h : Heap} {q msg n : Nat}

theorem Placed.withMem (placed : Placed h q msg) (mem : Mem) : Placed (h.withMem mem) q msg :=
  ⟨placed.readable, placed.apart⟩

theorem storedMessages_eq {mem : Mem} (count : queueCount mem q = n) :
    storedMessages mem q = slotMessages mem q n := by
  rw [storedMessages, count, Int.toNat_natCast]

/-- What a push that finds room does. -/
structure Pushed (table : CrcTable) (mem : Mem) (q msg n : Nat) (mem' : Mem)
    (before after : List Message) : Prop where
  count : queueCount mem' q = (n + 1 : Nat)
  old : slotMessages mem q n = before ++ after
  new : slotMessages mem' q (n + 1) = before ++ withChecksum table (messageAt mem msg) :: after
  later : ∀ m ∈ after, urgency (messageAt mem msg) < urgency m
  last : ∀ m ∈ before.getLast?, urgency m ≤ urgency (messageAt mem msg)

/-- The checks of both calls pass for pointers the gate admits. -/
theorem Placed.nonnull (placed : Placed h q msg)
    (admitted : securityValidateMemoryAccess h.regions q queueSize false = true) :
    ¬(q = 0 ∨ msg = 0) := by
  have queue := ((validate_iff (by decide)).mp admitted).1
  have message := ((validate_iff (by decide)).mp placed.readable).1
  omega

/-- The messages that the loop of a push has passed leave later than the new one, and the one in
front of them does not. -/
theorem ShiftedUp.order {mem mem' : Mem} {i : Nat} (up : ShiftedUp mem q msg n mem' i) :
    (∀ m ∈ (slotMessages mem q n).drop i, urgency (messageAt mem msg) < urgency m) ∧
      ∀ m ∈ ((slotMessages mem q n).take i).getLast?, urgency m ≤ urgency (messageAt mem msg) := by
  constructor
  · intro m member
    obtain ⟨k, inside, rfl⟩ := List.mem_iff_getElem.mp member
    rw [List.length_drop, length_slotMessages] at inside
    rw [List.getElem_drop, getElem_slotMessages]
    exact up.later (i + k) (by omega) (by omega)
  · intro m last
    rw [List.getLast?_eq_getElem?, List.length_take, length_slotMessages, Nat.min_eq_left up.bound]
      at last
    obtain ⟨inside, rfl⟩ := List.getElem?_eq_some_iff.mp last
    rw [List.length_take, length_slotMessages] at inside
    rw [List.getElem_take, getElem_slotMessages]
    exact Nat.le_of_not_lt (up.stop (i - 1) (by omega))

/-- The run of a push up to its last check, which passes. -/
theorem queuePush_eval {mem₁ mem₃ : Mem} {i : Nat} (nonnull : ¬(q = 0 ∨ msg = 0))
    (count : queueCount h.mem q = n) (room : n < 1024)
    (summed : h.mem.write (msg + 8) (wordBytes 4 (payloadChecksum table h msg)) = mem₁)
    (count₁ : queueCount mem₁ q = n)
    (shifted : shiftUp (setQueueCount mem₁ q (n + 1)) q msg n = (mem₃, i)) (bound : i ≤ n)
    (checked : payloadChecksum table (h.withMem (mem₃.copy (q + 144 * i) msg 144)) (q + 144 * i) =
      wordAt (mem₃.copy (q + 144 * i) msg 144) (q + 144 * i + 8)) :
    queuePush table h q msg = (0, h.withMem (mem₃.copy (q + 144 * i) msg 144)) := by
  have index : (if 0 < (n : Int) then (i : Int) else n) = i := by
    split <;> omega
  rw [queuePush, if_neg nonnull, if_neg (by omega), if_neg (by omega)]
  simp only [Heap.withMem] at checked ⊢
  simp only [summed, count₁, Int.toNat_natCast, shifted, index, slotAddress_natCast, messageSize,
    checked, ne_eq, not_true_eq_false, if_false]

theorem queuePush_room
    (admitted : securityValidateMemoryAccess h.regions q queueSize false = true)
    (placed : Placed h q msg) (terminated : NulTerminated (messageAt h.mem msg))
    (count : queueCount h.mem q = n) (room : n < 1024) :
    ∃ mem' before after, queuePush table h q msg = (0, h.withMem mem') ∧
      Pushed table h.mem q msg n mem' before after := by
  have apart := placed.apart
  simp only [queueSize] at apart
  let mem₁ := h.mem.write (msg + 8) (wordBytes 4 (payloadChecksum table h msg))
  have same₁ {a k : Nat} (outside : a + k ≤ msg + 8 ∨ msg + 12 ≤ a) : Mem.EqOn mem₁ h.mem a k :=
    Mem.write_eqOn h.mem _ (by simpa using outside)
  have count₁ : queueCount mem₁ q = n :=
    (queueCount_eqOn (same₁ (by simp only [countAddress]; omega))).trans count
  let mem₂ := setQueueCount mem₁ q (n + 1)
  have same₂ {a k : Nat} (outside : a + k ≤ q + 147456 ∨ q + 147460 ≤ a) :
      Mem.EqOn mem₂ mem₁ a k := setQueueCount_eqOn outside
  have message₂ : messageAt mem₂ msg = withChecksum table (messageAt h.mem msg) := by
    rw [messageAt_eqOn (same₂ (by omega)), messageAt_write_checksum,
      payloadChecksum_eq placed.readable terminated, withChecksum]
  have old₂ : slotMessages mem₂ q n = slotMessages h.mem q n :=
    slotMessages_eqOn ((same₂ (by omega)).trans (same₁ (by omega)))
  have up : ShiftedUp mem₂ q msg n (shiftUp mem₂ q msg n).1 (shiftUp mem₂ q msg n).2 :=
    shiftUp_spec mem₂ q msg n (by omega)
  generalize shifted : shiftUp mem₂ q msg n = result at up
  obtain ⟨mem₃, i⟩ := result
  dsimp only at up
  have bound := up.bound
  let mem₄ := mem₃.copy (q + 144 * i) msg 144
  have same₄ {a k : Nat} (outside : a + k ≤ q + 144 * i ∨ q + 144 * i + 144 ≤ a) :
      Mem.EqOn mem₄ mem₃ a k := Mem.copy_eqOn mem₃ _ outside
  have inserted := up.messages_copy (by omega)
  have order := up.order
  rw [message₂, old₂] at inserted order
  have slot : messageAt mem₄ (q + 144 * i) = withChecksum table (messageAt h.mem msg) := by
    rw [messageAt_copy mem₃ (by omega), messageAt_eqOn (up.frame (by omega)), message₂]
  have checked : payloadChecksum table (h.withMem mem₄) (q + 144 * i) =
      wordAt mem₄ (q + 144 * i + 8) := by
    have readable : securityValidateMemoryAccess h.regions (q + 144 * i) 144 false = true :=
      validate_part admitted (by decide) (by omega) (by simp only [queueSize]; omega)
    have valid : ChecksumValid table (messageAt mem₄ (q + 144 * i)) := by
      rw [slot]
      exact ⟨terminated, rfl⟩
    exact payloadChecksum_valid (h := h.withMem mem₄) readable valid
  refine ⟨mem₄, _, _, ?_, ?_, (List.take_append_drop i _).symm, inserted, order.1, order.2⟩
  · exact queuePush_eval (placed.nonnull admitted) count room rfl count₁ shifted bound checked
  · rw [queueCount_eqOn ((same₄ (by simp only [countAddress]; omega)).trans
      (up.frame (by simp only [countAddress]; omega)))]
    exact queueCount_set mem₁ q (n := n + 1) (by omega)

/-- A full queue refuses the message. -/
theorem queuePush_full (count : queueCount h.mem q = 1024) : queuePush table h q msg = (-1, h) := by
  rw [queuePush, if_pos (by omega : 1024 ≤ queueCount h.mem q), ite_self]

theorem queuePop_empty (count : queueCount h.mem q = 0) : queuePop table h q msg = (-1, h) := by
  rw [queuePop, if_pos count, ite_self]

/-- What a pop that finds a message does with the memory if the checksum is right. -/
def popMemory (mem : Mem) (q msg n : Nat) : Mem :=
  setQueueCount (shiftDown (mem.copy msg q 144) q n) q n

theorem slotMessages_succ (mem : Mem) (q n : Nat) :
    slotMessages mem q (n + 1) = messageAt mem q :: (slotMessages mem q (n + 1)).tail := by
  simp [slotMessages, List.range_succ_eq_map]

/-- The first message is with the caller and the others are what the queue holds. -/
theorem popMemory_spec (mem : Mem) (apart : msg + 144 ≤ q ∨ q + queueSize ≤ msg)
    (bound : n < 1024) :
    queueCount (popMemory mem q msg n) q = n ∧ messageAt (popMemory mem q msg n) msg =
        messageAt mem q ∧
      slotMessages mem q (n + 1) = messageAt mem q :: slotMessages (popMemory mem q msg n) q n := by
  simp only [queueSize] at apart
  obtain ⟨moved, frame⟩ := shiftDown_spec (mem.copy msg q 144) q n
  refine ⟨queueCount_set _ q bound.le, ?_, ?_⟩
  · rw [popMemory, messageAt_eqOn (setQueueCount_eqOn (by omega)),
      messageAt_eqOn (frame (by omega)), messageAt_copy mem (by omega)]
  · have same : slotMessages (mem.copy msg q 144) q (n + 1) = slotMessages mem q (n + 1) :=
      slotMessages_eqOn (Mem.copy_eqOn mem _ (by omega))
    rw [popMemory, slotMessages_eqOn (setQueueCount_eqOn (by omega)), moved, same]
    exact slotMessages_succ mem q n

/-- A pop compares the checksum of the first message with that of its payload, after it has copied
the message out. -/
theorem queuePop_eval (table : CrcTable)
    (admitted : securityValidateMemoryAccess h.regions q queueSize false = true)
    (placed : Placed h q msg) (terminated : NulTerminated (messageAt h.mem q))
    (count : queueCount h.mem q = (n + 1 : Nat)) (bound : n < 1024) :
    queuePop table h q msg =
      if table.checksum (cString (messageAt h.mem q).payload) = (messageAt h.mem q).checksum then
        (0, h.withMem (popMemory h.mem q msg n))
      else (-2, h.withMem (h.mem.copy msg q 144)) := by
  have apart := placed.apart
  simp only [queueSize] at apart
  have copied : messageAt (h.mem.copy msg q 144) msg = messageAt h.mem q :=
    messageAt_copy h.mem (by omega)
  have sum : payloadChecksum table (h.withMem (h.mem.copy msg q 144)) msg =
      table.checksum (cString (messageAt h.mem q).payload) := by
    rw [← copied]
    exact payloadChecksum_eq placed.readable (copied.symm ▸ terminated)
  have field : wordAt (h.mem.copy msg q 144) (msg + 8) = (messageAt h.mem q).checksum := by
    rw [← copied]
    rfl
  have count₁ : queueCount (h.mem.copy msg q 144) q = (n + 1 : Nat) :=
    (queueCount_eqOn (Mem.copy_eqOn h.mem _ (by simp only [countAddress]; omega))).trans count
  have rounds : (min ((n + 1 : Nat) : Int) 1024 - 1).toNat = n := by omega
  have count₂ : queueCount (shiftDown (h.mem.copy msg q 144) q n) q - 1 = n := by
    rw [queueCount_eqOn ((shiftDown_spec _ q n).2 (by simp only [countAddress]; omega)), count₁]
    omega
  rw [queuePop, if_neg (placed.nonnull admitted), if_neg (by omega)]
  simp only [Heap.withMem, slotAddress_zero, messageSize] at sum ⊢
  simp only [sum, field, count₁, rounds, count₂, popMemory, ite_not]

end Calls

/-! ## Runs -/

open StableQueue (Represents takeEarliest)

inductive QueueCall where
  | push (msg : Nat)
  | pop (msg : Nat)
  /-- Whatever else the machine does between two calls. -/
  | other (h : Heap)

/-- The machine, and besides it the accepted messages that have not left, in order of arrival. -/
structure QueueRun where
  heap : Heap
  waiting : List Message

namespace QueueRun

/-- The abstract queue takes 1024 messages and gives the earliest of the most urgent ones. -/
def step (table : CrcTable) (q : Nat) (s : QueueRun) : QueueCall → QueueRun
  | .push msg =>
      ⟨(queuePush table s.heap q msg).2, if s.waiting.length < 1024 then
        s.waiting ++ [withChecksum table (messageAt s.heap.mem msg)] else s.waiting⟩
  | .pop msg => ⟨(queuePop table s.heap q msg).2, (takeEarliest urgency s.waiting).elim [] Prod.snd⟩
  | .other h => ⟨h, s.waiting⟩

/-- The messages that go in are strings, the gate admits the pointers, and nothing else writes to
the queue. -/
def Allowed (q : Nat) (s : QueueRun) : QueueCall → Prop
  | .push msg => Placed s.heap q msg ∧ NulTerminated (messageAt s.heap.mem msg)
  | .pop msg => Placed s.heap q msg
  | .other h => Mem.EqOn h.mem s.heap.mem q queueSize ∧
      securityValidateMemoryAccess h.regions q queueSize false = true

def start (h : Heap) (q : Nat) : QueueRun := ⟨queueInit h q, []⟩

/-- The queue in memory represents what waits. -/
structure Sound (table : CrcTable) (q : Nat) (s : QueueRun) : Prop where
  admitted : securityValidateMemoryAccess s.heap.regions q queueSize false = true
  count : queueCount s.heap.mem q = s.waiting.length
  bound : s.waiting.length ≤ 1024
  represents : Represents urgency (slotMessages s.heap.mem q s.waiting.length) s.waiting
  valid : ∀ m ∈ s.waiting, ChecksumValid table m

variable {table : CrcTable} {q msg : Nat} {s : QueueRun}

/-- The conditions for a queue of `n` messages. -/
theorem Sound.of_length {h : Heap} {mem : Mem} {waiting : List Message} {n : Nat}
    (length : waiting.length = n)
    (admitted : securityValidateMemoryAccess h.regions q queueSize false = true)
    (count : queueCount mem q = n) (bound : n ≤ 1024)
    (represents : Represents urgency (slotMessages mem q n) waiting)
    (valid : ∀ m ∈ waiting, ChecksumValid table m) : Sound table q ⟨h.withMem mem, waiting⟩ := by
  subst length
  exact ⟨admitted, count, bound, represents, valid⟩

theorem sound_start {h : Heap}
    (admitted : securityValidateMemoryAccess h.regions q queueSize false = true) :
    (start h q).Sound table q := by
  have nonnull : q ≠ 0 := ((validate_iff (by decide)).mp admitted).1
  rw [start, queueInit, if_neg nonnull]
  exact .of_length rfl admitted (queueCount_set h.mem q (Nat.zero_le 1024)) (Nat.zero_le 1024) .nil
    (by simp)

/-- What `queue_push` is to do. -/
structure PushSpec (table : CrcTable) (q : Nat) (s : QueueRun) (msg : Nat) : Prop where
  accepts : (queuePush table s.heap q msg).1 = 0 ↔ queueCount s.heap.mem q < 1024
  /-- An accepted message has its checksum and stands where it keeps the order. -/
  inserts : (queuePush table s.heap q msg).1 = 0 → ∃ before after,
    storedMessages s.heap.mem q = before ++ after ∧
    storedMessages (queuePush table s.heap q msg).2.mem q =
      before ++ withChecksum table (messageAt s.heap.mem msg) :: after ∧
    Represents urgency (storedMessages (queuePush table s.heap q msg).2.mem q)
      (s.waiting ++ [withChecksum table (messageAt s.heap.mem msg)])
  refuses : (queuePush table s.heap q msg).1 ≠ 0 →
    Mem.EqOn (queuePush table s.heap q msg).2.mem s.heap.mem q queueSize

/-- What `queue_pop` is to do. -/
structure PopSpec (table : CrcTable) (q : Nat) (s : QueueRun) (msg : Nat) : Prop where
  accepts : (queuePop table s.heap q msg).1 = 0 ↔ storedMessages s.heap.mem q ≠ []
  /-- The message with the caller came before all of its priority and none is more urgent. -/
  removes : (queuePop table s.heap q msg).1 = 0 → ∃ m before after,
    s.waiting = before ++ m :: after ∧ (∀ x ∈ before, urgency m < urgency x) ∧
    (∀ x ∈ after, urgency m ≤ urgency x) ∧ messageAt (queuePop table s.heap q msg).2.mem msg = m ∧
    storedMessages s.heap.mem q = m :: storedMessages (queuePop table s.heap q msg).2.mem q
  refuses : (queuePop table s.heap q msg).1 ≠ 0 →
    Mem.EqOn (queuePop table s.heap q msg).2.mem s.heap.mem q queueSize

theorem Sound.stored (sound : s.Sound table q) :
    storedMessages s.heap.mem q = slotMessages s.heap.mem q s.waiting.length :=
  storedMessages_eq sound.count

theorem Sound.push_cases (sound : s.Sound table q) (allowed : s.Allowed q (.push msg)) :
    (s.waiting.length = 1024 ∧ queuePush table s.heap q msg = (-1, s.heap)) ∨
      s.waiting.length < 1024 ∧ ∃ mem' before after,
        queuePush table s.heap q msg = (0, s.heap.withMem mem') ∧
          Pushed table s.heap.mem q msg s.waiting.length mem' before after := by
  rcases sound.bound.eq_or_lt with full | room
  · exact .inl ⟨full, queuePush_full (by rw [sound.count, full]; rfl)⟩
  · exact .inr ⟨room, queuePush_room sound.admitted allowed.1 allowed.2 sound.count room⟩

theorem Sound.pushed {mem' : Mem} {before after : List Message} (sound : s.Sound table q)
    (pushed : Pushed table s.heap.mem q msg s.waiting.length mem' before after) :
    Represents urgency (slotMessages mem' q (s.waiting.length + 1))
      (s.waiting ++ [withChecksum table (messageAt s.heap.mem msg)]) := by
  have stored := sound.represents
  rw [pushed.old] at stored
  rw [pushed.new]
  exact stored.insert pushed.last pushed.later

theorem Sound.push (sound : s.Sound table q) (allowed : s.Allowed q (.push msg)) :
    (s.step table q (.push msg)).Sound table q := by
  obtain ⟨full, refused⟩ | ⟨room, mem', before, after, accepted, pushed⟩ := sound.push_cases allowed
  · have same : s.step table q (.push msg) = s := by
      rw [step, refused, if_neg (by omega)]
    rwa [same]
  · have next : s.step table q (.push msg) =
        ⟨s.heap.withMem mem', s.waiting ++ [withChecksum table (messageAt s.heap.mem msg)]⟩ := by
      rw [step, accepted, if_pos room]
    rw [next]
    refine .of_length (by simp) sound.admitted pushed.count room (sound.pushed pushed) ?_
    intro m member
    rcases List.mem_append.mp member with old | new
    · exact sound.valid m old
    · rw [List.mem_singleton.mp new]
      exact ⟨allowed.2, rfl⟩

theorem Sound.pushSpec (sound : s.Sound table q) (allowed : s.Allowed q (.push msg)) :
    s.PushSpec table q msg := by
  have count := sound.count
  obtain ⟨full, refused⟩ | ⟨room, mem', before, after, accepted, pushed⟩ := sound.push_cases allowed
  · refine ⟨?_, fun zero => ?_, fun _ => ?_⟩
    · exact iff_of_false (by simp [refused]) (by omega)
    · rw [refused] at zero
      cases zero
    · rw [refused]
      exact .refl
  · have stored : storedMessages (s.heap.withMem mem').mem q =
        slotMessages mem' q (s.waiting.length + 1) := storedMessages_eq pushed.count
    refine ⟨?_, fun _ => ⟨before, after, ?_⟩, fun nonzero => ?_⟩
    · exact iff_of_true (by rw [accepted]) (by omega)
    · rw [accepted, sound.stored, stored]
      exact ⟨pushed.old, pushed.new, sound.pushed pushed⟩
    · rw [accepted] at nonzero
      exact absurd rfl nonzero

/-- What is stored has been pushed, so its checksum is right. -/
theorem Sound.valid_stored (sound : s.Sound table q) {m : Message}
    (member : m ∈ storedMessages s.heap.mem q) : ChecksumValid table m := by
  rw [sound.stored] at member
  exact sound.valid m (sound.represents.perm.mem_iff.mp member)

/-- A pop from a non-empty queue finds the checksum right. -/
theorem Sound.pop_cases (sound : s.Sound table q) (placed : Placed s.heap q msg) :
    (s.waiting = [] ∧ queuePop table s.heap q msg = (-1, s.heap)) ∨
      ∃ n, s.waiting.length = n + 1 ∧
        queuePop table s.heap q msg = (0, s.heap.withMem (popMemory s.heap.mem q msg n)) := by
  have count := sound.count
  have bound := sound.bound
  generalize length : s.waiting.length = n at count bound
  cases n with
  | zero => exact .inl ⟨List.length_eq_zero_iff.mp length, queuePop_empty count⟩
  | succ n =>
      have first : messageAt s.heap.mem q ∈ storedMessages s.heap.mem q := by
        rw [storedMessages_eq count, slotMessages_succ]
        exact List.mem_cons_self
      obtain ⟨terminated, valid⟩ := sound.valid_stored first
      refine .inr ⟨n, rfl, ?_⟩
      rw [queuePop_eval table sound.admitted placed terminated count (by omega),
        if_pos valid]

/-- The message in the first slot is the one that is to leave. -/
theorem Sound.popped {n : Nat} (sound : s.Sound table q) (placed : Placed s.heap q msg)
    (length : s.waiting.length = n + 1) :
    ∃ before after, s.waiting = before ++ messageAt s.heap.mem q :: after ∧
      (∀ x ∈ before, urgency (messageAt s.heap.mem q) < urgency x) ∧
      (∀ x ∈ after, urgency (messageAt s.heap.mem q) ≤ urgency x) ∧
      Represents urgency (slotMessages (popMemory s.heap.mem q msg n) q n) (before ++ after) := by
  have bound := sound.bound
  have stored := sound.represents
  rw [length, (popMemory_spec s.heap.mem placed.apart (by omega)).2.2] at stored
  exact stored.front

theorem Sound.pop (sound : s.Sound table q) (placed : Placed s.heap q msg) :
    (s.step table q (.pop msg)).Sound table q := by
  have bound := sound.bound
  obtain ⟨none, refused⟩ | ⟨n, length, taken⟩ := sound.pop_cases placed
  · have same : s.step table q (.pop msg) = s := by
      obtain ⟨heap, waiting⟩ := s
      subst none
      rw [step, refused]
      rfl
    rwa [same]
  · obtain ⟨count, -, -⟩ := popMemory_spec s.heap.mem placed.apart (n := n) (by omega)
    obtain ⟨before, after, split, front, behind, represents⟩ := sound.popped placed length
    have next : s.step table q (.pop msg) =
        ⟨s.heap.withMem (popMemory s.heap.mem q msg n), before ++ after⟩ := by
      rw [step, taken, split, StableQueue.takeEarliest_of_split front behind]
      rfl
    rw [next]
    refine .of_length ?_ sound.admitted count (by omega) represents fun m member => ?_
    · simp only [split, List.length_append, List.length_cons] at length ⊢
      omega
    · refine sound.valid m ?_
      rw [split]
      simpa using (List.mem_append.mp member).imp_right .inr

theorem Sound.popSpec (sound : s.Sound table q) (placed : Placed s.heap q msg) :
    s.PopSpec table q msg := by
  have bound := sound.bound
  have stored := sound.stored
  obtain ⟨none, refused⟩ | ⟨n, length, taken⟩ := sound.pop_cases placed
  · refine ⟨?_, fun zero => ?_, fun _ => ?_⟩
    · rw [none] at stored
      exact iff_of_false (by simp [refused]) (not_not.mpr stored)
    · rw [refused] at zero
      cases zero
    · rw [refused]
      exact .refl
  · obtain ⟨count, message, slots⟩ := popMemory_spec s.heap.mem placed.apart (n := n) (by omega)
    rw [length, slots] at stored
    refine ⟨?_, fun _ => ?_, fun nonzero => ?_⟩
    · exact iff_of_true (by rw [taken]) (by simp [stored])
    · obtain ⟨before, after, split, front, behind, -⟩ := sound.popped placed length
      rw [taken, stored]
      exact ⟨_, before, after, split, front, behind, message,
        congrArg _ (storedMessages_eq count).symm⟩
    · rw [taken] at nonzero
      exact absurd rfl nonzero

theorem Sound.other {h : Heap} (sound : s.Sound table q) (allowed : s.Allowed q (.other h)) :
    (s.step table q (.other h)).Sound table q := by
  obtain ⟨same, admitted⟩ := allowed
  have bound := sound.bound
  simp only [queueSize] at same
  refine ⟨admitted, ?_, bound, ?_, sound.valid⟩
  · have count : queueCount h.mem q = queueCount s.heap.mem q :=
      queueCount_eqOn (same.mono (by simp [countAddress]) (by simp [countAddress]))
    exact count.trans sound.count
  · have slots : slotMessages h.mem q s.waiting.length =
        slotMessages s.heap.mem q s.waiting.length :=
      slotMessages_eqOn (same.mono le_rfl (by omega))
    rw [step, slots]
    exact sound.represents

theorem step_sound (s : QueueRun) (call : QueueCall) (sound : s.Sound table q)
    (allowed : s.Allowed q call) : (s.step table q call).Sound table q := by
  cases call with
  | push msg => exact sound.push allowed
  | pop msg => exact sound.pop allowed
  | other h => exact sound.other allowed

end QueueRun

/-- In every sequence of calls the queue holds what waits, by priority value and within one value
by arrival, and both calls do what they are to do. -/
theorem priorityQueue_stable {table : CrcTable} {h : Heap} {q : Nat}
    (admitted : securityValidateMemoryAccess h.regions q queueSize false = true)
    {calls : List QueueCall}
    (run : Runs.Meets (QueueRun.step table q) (QueueRun.Allowed q) (QueueRun.start h q) calls) :
    let s := Runs.after (QueueRun.step table q) (QueueRun.start h q) calls
    Represents urgency (storedMessages s.heap.mem q) s.waiting ∧
      (∀ msg, s.Allowed q (.push msg) → s.PushSpec table q msg) ∧
      ∀ msg, s.Allowed q (.pop msg) → s.PopSpec table q msg := by
  intro s
  have sound : s.Sound table q :=
    Runs.run_invariant (QueueRun.sound_start admitted) QueueRun.step_sound run
  refine ⟨?_, fun msg => sound.pushSpec, fun msg => sound.popSpec⟩
  rw [sound.stored]
  exact sound.represents

/-- Three messages: priorities 2, 1 and 2, operations 5, 6 and 7, payloads "a", "" and "b". -/
def threeMessages : Heap :=
  ⟨fun x =>
    if x = 0x1000 then 2 else if x = 0x1004 then 5 else if x = 0x1010 then 0x61
    else if x = 0x1100 then 1 else if x = 0x1104 then 6
    else if x = 0x1200 then 2 else if x = 0x1204 then 7 else if x = 0x1210 then 0x62
    else 0, memoryInit, []⟩

theorem priorityQueue_stable_three :
    let table := initCrc32Table fun _ => 0
    let s := Runs.after (QueueRun.step table 0x10000) (QueueRun.start threeMessages 0x10000)
      [.push 0x1000, .push 0x1100, .push 0x1200, .pop 0x2000]
    (messageAt s.heap.mem 0x2000).operation = 6 ∧ s.waiting.map Message.operation = [5, 7] ∧
      Represents urgency (storedMessages s.heap.mem 0x10000) s.waiting ∧
      s.PopSpec table 0x10000 0x2000 := by
  intro table s
  have run : Runs.Meets (QueueRun.step table 0x10000) (QueueRun.Allowed 0x10000)
      (QueueRun.start threeMessages 0x10000)
      [.push 0x1000, .push 0x1100, .push 0x1200, .pop 0x2000] :=
    ⟨⟨⟨by decide, by decide⟩, by decide +kernel⟩,
      ⟨⟨by decide +kernel, by decide⟩, by decide +kernel⟩,
      ⟨⟨by decide +kernel, by decide⟩, by decide +kernel⟩, ⟨by decide +kernel, by decide⟩, trivial⟩
  obtain ⟨sorted, -, pops⟩ := priorityQueue_stable (by decide) run
  exact ⟨by decide +kernel, by decide +kernel, sorted, pops 0x2000 ⟨by decide +kernel, by decide⟩⟩

end LughOS.Kernel

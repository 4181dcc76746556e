import LughOS.Kernel.Syscalls
import LughOS.Library.BoundedMap
import LughOS.Library.CString
import LughOS.Workflow.Engine

/-!
# Checkpoints of registered buffers

`services/storage/transactions.c` over the memory of the machine. The two tables are static
arrays; their `key` and `data` fields are ranges of memory at the addresses in `Layout`, and
the other fields are records. Keys, buffers and table fields are all passed by address, as in
the source, so that a call may be given any pointers.

The copies go through `memcpy` of `memory_utils.c`, which asks the access gate for both ranges and
copies nothing if it refuses one of them. `strcpy` is built on it. `key_equal` reads memory
directly. A call that would need a transaction id after the last one halts the machine; its
result is then `none`.
-/

namespace LughOS.Storage

open Bytes Kernel

/-! ## Strings and copies -/

/-- `memcpy`: a copy the gate refuses leaves the memory alone. -/
def memcpy (h : Heap) (dest src n : Nat) : Mem :=
  if securityValidateMemoryAccess h.regions dest n true &&
      securityValidateMemoryAccess h.regions src n false then
    h.mem.copy dest src n
  else h.mem

def strcpy (h : Heap) (dest src : Nat) : Mem := memcpy h dest src ((strlen h src).1 + 1)

/-- The loop of `key_equal`, with the characters left to compare. -/
def keyEqualLoop (mem : Mem) (a b : Nat) : Nat → Bool
  | 0 => true
  | left + 1 =>
      if mem a ≠ mem b then false
      else if mem a = 0 then true
      else keyEqualLoop mem (a + 1) (b + 1) left

def keySize : Nat := 64

def keyEqual (mem : Mem) (a b : Nat) : Bool := keyEqualLoop mem a b keySize

/-! ## The tables -/

abbrev TableIndex := Fin 16

def checkpointSize : Nat := 4096

/-- Where the linker puts the two tables, of 76 and 4168 bytes an entry. -/
structure Layout where
  registeredBuffers : Nat
  checkpointSlots : Nat
  apart : registeredBuffers + 1216 ≤ checkpointSlots ∨ checkpointSlots + 66688 ≤ registeredBuffers

/-- `registered_buffer_t` without its key. -/
structure RegisteredBuffer where
  data : Nat
  size : Nat
  inUse : Bool
  deriving DecidableEq

/-- `checkpoint_slot_t` without its key and its data. -/
structure CheckpointSlot where
  size : Nat
  inUse : Bool
  deriving DecidableEq

/-- The statics of `transactions.c`, in their machine. -/
structure Store where
  machine : Machine
  layout : Layout
  registeredBuffers : TableIndex → RegisteredBuffer
  checkpointSlots : TableIndex → CheckpointSlot
  nextId : BitVec 64

namespace Store

def heap (s : Store) : Heap := s.machine.heap

def mem (s : Store) : Mem := s.heap.mem

def regions (s : Store) : List MemRegion := s.heap.regions

def withMem (s : Store) (mem : Mem) : Store :=
  { s with machine := s.machine.setPool (s.machine.kernel.nng.pool.withMem mem) }

/-- The address of `registered_buffers[i].key`. -/
def bufferKey (s : Store) (i : TableIndex) : Nat := s.layout.registeredBuffers + 76 * i

/-- The address of `checkpoint_slots[i].key`. -/
def slotKey (s : Store) (i : TableIndex) : Nat := s.layout.checkpointSlots + 4168 * i

/-- The address of `checkpoint_slots[i].data`. -/
def slotData (s : Store) (i : TableIndex) : Nat := s.slotKey i + 64

def setBuffer (s : Store) (i : TableIndex) (buffer : RegisteredBuffer) : Store :=
  { s with registeredBuffers := Function.update s.registeredBuffers i buffer }

def setSlot (s : Store) (i : TableIndex) (slot : CheckpointSlot) : Store :=
  { s with checkpointSlots := Function.update s.checkpointSlots i slot }

def findRegistered (s : Store) (key : Nat) : Option TableIndex :=
  Table.first? fun i => (s.registeredBuffers i).inUse && keyEqual s.mem (s.bufferKey i) key

def storageRegisterBuffer (s : Store) (key data size : Nat) : Int × Store :=
  if key = 0 ∨ data = 0 ∨ size = 0 ∨ checkpointSize < size then (-1, s)
  else if keySize ≤ (strlen s.heap key).1 then (-1, s)
  else
    match s.findRegistered key with
    | some i => (0, s.setBuffer i { s.registeredBuffers i with data := data, size := size })
    | none =>
        match Table.first? fun i => !(s.registeredBuffers i).inUse with
        | none => (-1, s)
        | some i =>
            (0, (s.withMem (strcpy s.heap (s.bufferKey i) key)).setBuffer i
              ⟨data, size, true⟩)

def findSlot (s : Store) (key : Nat) : Option TableIndex :=
  Table.first? fun i => (s.checkpointSlots i).inUse && keyEqual s.mem (s.slotKey i) key

def acquireSlot (s : Store) (key : Nat) : Option TableIndex × Store :=
  match s.findSlot key with
  | some i => (some i, s)
  | none =>
      match Table.first? fun i => !(s.checkpointSlots i).inUse with
      | none => (none, s)
      | some i =>
          if keySize ≤ (strlen s.heap key).1 then (none, s)
          else
            (some i, (s.withMem (strcpy s.heap (s.slotKey i) key)).setSlot i
              { s.checkpointSlots i with inUse := true })

def opWrite : BitVec 32 := 0x200#32
def opDelete : BitVec 32 := 0x201#32

/-- The log entry of `emit_txn`. The characters behind a text, which the source leaves as they
are on the stack, are zero here. -/
def txnEntry (id : BitVec 64) (op : BitVec 32) (key value : List Byte) : TxnLogEntry where
  txnId := id
  taskId := 0
  operation := op
  key := fun i => key.getD i 0
  value := fun i => value.getD i 0
  checksum := 0

/-- `emit_txn` with the id that its caller generates. -/
def emitTxn (s : Store) (op : BitVec 32) (key value : List Byte) : Option Store :=
  (Workflow.generateTransactionId s.nextId).map fun (id, next) =>
    { s with
      nextId := next
      machine := (s.machine.logTransaction (some (txnEntry id op key value))).2.2 }

def createCheckpoint (s : Store) (src dst : Nat) : Option (Int × Store) :=
  if src = 0 ∨ dst = 0 then some (-1, s)
  else
    match s.findRegistered src with
    | none => some (-1, s)
    | some b =>
        match s.acquireSlot dst with
        | (none, s) => some (-1, s)
        | (some i, s) =>
            let buffer := s.registeredBuffers b
            let s := s.withMem (memcpy s.heap (s.slotData i) buffer.data buffer.size)
            let s := s.setSlot i { s.checkpointSlots i with size := buffer.size }
            (s.emitTxn opWrite (s.mem.text src 63) (s.mem.text dst 255)).map fun s => (0, s)

def restoreCheckpoint (s : Store) (src dst : Nat) : Option (Int × Store) :=
  if src = 0 ∨ dst = 0 then some (-1, s)
  else
    match s.findSlot src with
    | none => some (-1, s)
    | some i =>
        match s.findRegistered dst with
        | none => some (-1, s)
        | some b =>
            if (s.registeredBuffers b).size < (s.checkpointSlots i).size then some (-1, s)
            else
              let s := s.withMem (memcpy s.heap (s.registeredBuffers b).data (s.slotData i)
                (s.checkpointSlots i).size)
              (s.emitTxn opWrite (s.mem.text src 63) (s.mem.text dst 255)).map fun s => (0, s)

def removeCheckpoint (s : Store) (checkpoint : Nat) : Option (Int × Store) :=
  if checkpoint = 0 then some (-1, s)
  else
    match s.findSlot checkpoint with
    | none => some (-1, s)
    | some i =>
        let s := s.setSlot i ⟨0, false⟩
        (s.emitTxn opDelete (s.mem.text checkpoint 63) []).map fun s => (0, s)

end Store

/-! ## Strings -/

theorem keyEqualLoop_iff {m : Mem} {a b n : Nat} :
    keyEqualLoop m a b n = true ↔ m.text a n = m.text b n := by
  induction n generalizing a b with
  | zero => simp [keyEqualLoop, Mem.text]
  | succ n ih =>
      rw [keyEqualLoop]
      by_cases same : m a = m b
      · by_cases nul : m a = 0
        · simp [nul, same ▸ nul, Mem.text_nul nul, Mem.text_nul (same ▸ nul)]
        · rw [if_neg (by simpa using same), if_neg nul, ih, Mem.text_char nul,
            Mem.text_char (same ▸ nul), same, List.cons.injEq]
          exact (and_iff_right rfl).symm
      · rw [if_pos same]
        refine iff_of_false Bool.false_ne_true fun texts => same ?_
        by_cases nul : m a = 0 <;> by_cases nul' : m b = 0
        · rw [nul, nul']
        · rw [Mem.text_nul nul, Mem.text_char nul'] at texts
          cases texts
        · rw [Mem.text_char nul, Mem.text_nul nul'] at texts
          cases texts
        · rw [Mem.text_char nul, Mem.text_char nul'] at texts
          exact (List.cons.inj texts).1

section Copies

variable {h : Heap} {a n : Nat}

theorem memcpy_eq {dest src : Nat}
    (writable : 0 < n → securityValidateMemoryAccess h.regions dest n true = true)
    (readable : 0 < n → securityValidateMemoryAccess h.regions src n false = true) :
    memcpy h dest src n = h.mem.copy dest src n := by
  rcases Nat.eq_zero_or_pos n with rfl | pos
  · exact ite_self _
  · rw [memcpy, writable pos, readable pos]
    rfl

/-- The copy of a string of fewer than 64 characters. -/
theorem strcpy_eq {dest : Nat} (short : (h.mem.text a 64).length < 64)
    (readable :
      securityValidateMemoryAccess h.regions a ((h.mem.text a 64).length + 1) false = true)
    (writable : securityValidateMemoryAccess h.regions dest 64 true = true) :
    strcpy h dest a = h.mem.copy dest a ((h.mem.text a 64).length + 1) := by
  have length : (strlen h a).1 = (h.mem.text a 64).length :=
    strlen_eq (fun i inside => (Mem.text_getElem inside).2) (Mem.text_end short) (by omega) readable
  have room := validate_part (k := (h.mem.text a 64).length + 1) writable (by omega) le_rfl
    (by omega)
  rw [strcpy, length]
  exact memcpy_eq (fun _ => room) fun _ => readable

end Copies

end LughOS.Storage

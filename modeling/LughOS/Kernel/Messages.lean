import LughOS.Kernel.Heap

/-!
# Message pool

The message half of `nngcompat.c`: `nng_msg_t` values in kernel heap memory, the slot
table that remembers which of them are live, and the two conversions between a
`message_t` and the body of an `nng_msg_t`.

An `nng_msg_t` is 24 bytes in the heap and its fields are read and written there, so
a body that outgrows its block really lands in the block behind it. `nng_msg_alloc`
takes a body of eight bytes for the size zero its callers pass, which the allocator
rounds up to a block of 64, while `nng_msg_append` accepts up to `MSG_BUFFER_SIZE`
bytes.

Objects outside the heap (locals, the caller's `message_t`) are values here; the
access gate is evaluated on heap addresses, where its answer can matter.
-/

namespace LughOS.Kernel

open Bytes

/-! ## Checksums and the IPC message -/

def crc32Poly : BitVec 32 := 0xEDB88320#32

def crc32Shift (c : BitVec 32) : BitVec 32 :=
  if c &&& 1#32 ≠ 0#32 then crc32Poly ^^^ (c >>> 1) else c >>> 1

/-- An entry of `crc32_table`, as `init_crc32_table` computes it. -/
def crc32Table (i : BitVec 32) : BitVec 32 := crc32Shift^[8] i

def crc32Step (crc : BitVec 32) (b : Byte) : BitVec 32 :=
  crc32Table ((crc ^^^ b.setWidth 32) &&& 0xFF#32) ^^^ (crc >>> 8)

/-- `calculate_checksum` on bytes the gate lets it read. -/
def calculateChecksum (data : List Byte) : BitVec 32 :=
  data.foldl crc32Step 0xFFFFFFFF#32 ^^^ 0xFFFFFFFF#32

def maxMsgSize : Nat := 128

/-- `message_t`; `priority` is the C enum, held in a word. -/
structure Message where
  priority : BitVec 32
  operation : BitVec 32
  checksum : BitVec 32
  padding1 : BitVec 32
  payload : Fin 128 → Byte

/-! ## The pool -/

/-- The codes of `nngcompat.h`. -/
inductive Rv where
  | ok | enomem | einval | eclosed | etimedout | enotsup | enoent | eaccess
  deriving DecidableEq, Repr

def Rv.code : Rv → Int
  | .ok => 0
  | .enomem => 1
  | .einval => 2
  | .eclosed => 3
  | .etimedout => 4
  | .enotsup => 5
  | .enoent => 6
  | .eaccess => 7

def msgBufferSize : Nat := 256

/-- `sizeof(nng_msg_t)`: six words, in the order the accessors below have them. -/
def nngMsgSize : Nat := 24

abbrev SlotIndex := Fin 64

/-- `msg_slot_t`; the null pointer is `0`. -/
structure MsgSlot where
  msg : Nat
  buffer : Nat
  inUse : Bool
  deriving DecidableEq

/-- The heap together with the slot table of the message pool. -/
structure Pool where
  heap : Heap
  msgSlots : SlotIndex → MsgSlot

namespace Pool

def withMem (p : Pool) (mem : Mem) : Pool := { p with heap := { p.heap with mem := mem } }

def body (p : Pool) (msg : Nat) : Nat := p.heap.mem.readWord msg

def bodyLen (p : Pool) (msg : Nat) : Nat := p.heap.mem.readWord (msg + 4)

/-- The bytes from `body`, `body_len` many. -/
def bodyBytes (p : Pool) (msg : Nat) : List Byte := p.heap.mem.read (p.body msg) (p.bodyLen msg)

end Pool

/-- The stores with which `nng_msg_alloc` fills in a new `nng_msg_t`. -/
def initNngMsg (mem : Mem) (msg buf : Nat) : Mem :=
  (((((mem.writeWord msg buf).writeWord (msg + 4) 0).writeWord (msg + 8) 0).writeWord
    (msg + 12) 0).writeWord (msg + 16) 0).writeWord (msg + 20) 0

theorem initNngMsg_eqOn (mem : Mem) (msg buf : Nat) {b n : Nat}
    (apart : b + n ≤ msg ∨ msg + 24 ≤ b) : Mem.EqOn (initNngMsg mem msg buf) mem b n := by
  unfold initNngMsg
  refine (Mem.writeWord_eqOn _ _ (by omega)).trans ?_
  refine (Mem.writeWord_eqOn _ _ (by omega)).trans ?_
  refine (Mem.writeWord_eqOn _ _ (by omega)).trans ?_
  refine (Mem.writeWord_eqOn _ _ (by omega)).trans ?_
  exact (Mem.writeWord_eqOn _ _ (by omega)).trans (Mem.writeWord_eqOn _ _ (by omega))

theorem initNngMsg_body (mem : Mem) (msg : Nat) {buf : Nat} (fit : buf < 2 ^ 32) :
    (initNngMsg mem msg buf).readWord msg = buf := by
  have kept : Mem.EqOn (initNngMsg mem msg buf) (mem.writeWord msg buf) msg 4 := by
    unfold initNngMsg
    refine (Mem.writeWord_eqOn _ _ (by omega)).trans ?_
    refine (Mem.writeWord_eqOn _ _ (by omega)).trans ?_
    refine (Mem.writeWord_eqOn _ _ (by omega)).trans ?_
    exact (Mem.writeWord_eqOn _ _ (by omega)).trans (Mem.writeWord_eqOn _ _ (by omega))
  rw [kept.readWord_eq, Mem.readWord_writeWord _ _ _ fit]

theorem initNngMsg_bodyLen (mem : Mem) (msg buf : Nat) :
    (initNngMsg mem msg buf).readWord (msg + 4) = 0 := by
  have kept : Mem.EqOn (initNngMsg mem msg buf) ((mem.writeWord msg buf).writeWord (msg + 4) 0)
      (msg + 4) 4 := by
    unfold initNngMsg
    refine (Mem.writeWord_eqOn _ _ (by omega)).trans ?_
    refine (Mem.writeWord_eqOn _ _ (by omega)).trans ?_
    exact (Mem.writeWord_eqOn _ _ (by omega)).trans (Mem.writeWord_eqOn _ _ (by omega))
  rw [kept.readWord_eq, Mem.readWord_writeWord _ _ _ (by omega)]

def nngMsgAlloc (p : Pool) (size : Nat) : Except Rv Nat × Pool :=
  match Table.first? fun i => !(p.msgSlots i).inUse with
  | none => (.error .enomem, p)
  | some slot =>
      if msgBufferSize < size then (.error .einval, p)
      else
        match allocMemory p.heap nngMsgSize with
        | (none, h) => (.error .enomem, { p with heap := h })
        | (some msg, h) =>
            match allocMemory h (if 0 < size then size else 8) with
            | (none, h) => (.error .enomem, { p with heap := freeMemory h msg })
            | (some buf, h) =>
                (.ok msg,
                  { heap := { h with mem := initNngMsg h.mem msg buf }
                    msgSlots := Function.update p.msgSlots slot ⟨msg, buf, true⟩ })

def nngMsgFree (p : Pool) (msg : Nat) : Rv × Pool :=
  if msg = 0 then (.einval, p)
  else
    match Table.first? fun i => (p.msgSlots i).inUse && decide ((p.msgSlots i).msg = msg) with
    | none => (.einval, p)
    | some slot =>
        (.ok,
          { heap := freeMemory (freeMemory p.heap (p.msgSlots slot).buffer) msg
            msgSlots := Function.update p.msgSlots slot ⟨0, 0, false⟩ })

/-- What `nng_msg_append` copies from: bytes of an object outside the heap, or a heap
range. -/
inductive Data where
  | object (bytes : List Byte)
  | range (address size : Nat)

def Data.size : Data → Nat
  | .object bytes => bytes.length
  | .range _ size => size

def Data.readable (regions : List MemRegion) : Data → Bool
  | .object _ => true
  | .range address size =>
      decide (address ≠ 0) && securityValidateMemoryAccess regions address size false

/-- `plain_copy` into the heap. -/
def Data.copyTo (mem : Mem) (dst : Nat) : Data → Mem
  | .object bytes => mem.write dst bytes
  | .range address size => mem.copy dst address size

/-- `calculate_checksum` on a heap range. -/
def checksumAt (h : Heap) (address len : Nat) : BitVec 32 :=
  if securityValidateMemoryAccess h.regions address len false then
    calculateChecksum (h.mem.read address len)
  else 0

def nngMsgAppend (p : Pool) (msg : Nat) (data : Data) : Rv × Pool :=
  if msg = 0 then (.einval, p)
  else if securityValidateMemoryAccess p.heap.regions msg nngMsgSize true = false ∨
      data.readable p.heap.regions = false then (.einval, p)
  else if msgBufferSize < (p.bodyLen msg + data.size) % 2 ^ 32 then (.enomem, p)
  else
    let copied := p.withMem (data.copyTo p.heap.mem (p.body msg + p.bodyLen msg))
    let grown := copied.withMem
      (copied.heap.mem.writeWord (msg + 4) (copied.bodyLen msg + data.size))
    let summed := grown.withMem
      (grown.heap.mem.writeWord (msg + 20)
        (checksumAt grown.heap (grown.body msg) (grown.bodyLen msg)).toNat)
    (.ok, summed)

theorem Data.copyTo_eqOn (data : Data) (mem : Mem) {dst a n : Nat}
    (apart : a + n ≤ dst ∨ dst + data.size ≤ a) : Mem.EqOn (data.copyTo mem dst) mem a n := by
  cases data with
  | object bytes => exact Mem.write_eqOn mem bytes apart
  | range address size => exact Mem.copy_eqOn mem address apart

theorem nngMsgAppend_readable {p p' : Pool} {x : Nat} {data : Data}
    (ok : nngMsgAppend p x data = (.ok, p')) : data.readable p.heap.regions = true := by
  unfold nngMsgAppend at ok
  split at ok
  · cases ok
  split at ok
  · cases ok
  · rename_i admitted
    simpa using (not_or.mp admitted).2

theorem nngMsgAppend_accepted {p : Pool} {x : Nat} {data : Data} (nonnull : x ≠ 0)
    (header : securityValidateMemoryAccess p.heap.regions x nngMsgSize true = true)
    (readable : data.readable p.heap.regions = true)
    (fits : p.bodyLen x + data.size ≤ msgBufferSize) : (nngMsgAppend p x data).1 = .ok := by
  have short : ¬msgBufferSize < (p.bodyLen x + data.size) % 2 ^ 32 := by
    simp only [msgBufferSize] at fits ⊢
    omega
  unfold nngMsgAppend
  rw [if_neg nonnull, if_neg (by simp [header, readable]), if_neg short]

/-- An append is refused without a trace, or it writes the data behind the body, the new length
and the checksum. -/
theorem nngMsgAppend_writes {p : Pool} {x y len : Nat} (data : Data) (nonnull : x ≠ 0)
    (body : p.body x = y) (bodyLen : p.bodyLen x = len)
    (apart : x + 8 ≤ y + len ∨ y + len + data.size ≤ x + 4) :
    (∃ rv, rv ≠ .ok ∧ nngMsgAppend p x data = (rv, p)) ∨
      ∃ checksum, nngMsgAppend p x data =
        (.ok, p.withMem (((data.copyTo p.heap.mem (y + len)).writeWord (x + 4)
          (len + data.size)).writeWord (x + 20) checksum)) := by
  subst body bodyLen
  unfold nngMsgAppend
  rw [if_neg nonnull]
  split
  · exact .inl ⟨.einval, by decide, rfl⟩
  split
  · exact .inl ⟨.enomem, by decide, rfl⟩
  -- the copy does not reach the `nng_msg_t`, so `body_len` is read back unchanged
  have reread : (data.copyTo p.heap.mem (p.body x + p.bodyLen x)).readWord (x + 4) =
      p.bodyLen x := (data.copyTo_eqOn _ (by omega)).readWord_eq
  simp only [Pool.withMem, Pool.bodyLen] at reread ⊢
  simp only [reread]
  exact .inr ⟨_, rfl⟩

/-! ## Conversions -/

/-- The rest of `lugh_message_to_nng` once the message is allocated: append, and stop at
the first failure. -/
def appendAll (p : Pool) (msg : Nat) : List Data → Rv × Pool
  | [] => (.ok, p)
  | d :: rest =>
      match nngMsgAppend p msg d with
      | (.ok, p) => appendAll p msg rest
      | (rv, p) => (rv, p)

/-- Priority byte, operation word, payload with its NUL. -/
def encodedFields (m : Message) : List Data :=
  [.object (wordBytes 1 (m.priority.setWidth 8)), .object (wordBytes 4 m.operation),
    .object (cString m.payload ++ [0])]

def lughMessageToNng (p : Pool) (m : Message) : Except Rv Nat × Pool :=
  match nngMsgAlloc p 0 with
  | (.error rv, p) => (.error rv, p)
  | (.ok msg, p) =>
      match appendAll p msg (encodedFields m) with
      | (.ok, p) => (.ok msg, p)
      | (rv, p) => (.error rv, (nngMsgFree p msg).2)

/-- `nng_message_to_lugh`. The fields it does not assign keep the caller's values. -/
def nngMessageToLugh (p : Pool) (msg : Nat) (out : Message) : Rv × Message :=
  let body := p.body msg
  if msg = 0 ∨ body = 0 ∨ p.bodyLen msg < 5 then (.einval, out)
  else
    let len := p.bodyLen msg - 5
    let plen := if maxMsgSize ≤ len then maxMsgSize - 1 else len
    (.ok,
      { out with
        priority := (p.heap.mem body).setWidth 32
        operation := BitVec.ofNat 32 (p.heap.mem.readWord (body + 1))
        payload := fun j =>
          if j.val < plen then p.heap.mem (body + 5 + j)
          else if j.val = plen then 0
          else out.payload j })

end LughOS.Kernel

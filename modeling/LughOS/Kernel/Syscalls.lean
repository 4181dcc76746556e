import LughOS.Kernel.Exporter
import LughOS.Kernel.MemoryGate

/-!
# System calls

`syscall_handler` of `syscall.c`. The calls of `ipc.c` were modelled on message values; here
the message is where the caller says it is, and every function works on the bytes at that
address, which may be any bytes of the same memory that the kernel heap is in. Each function
returns besides its result the spans it reads or writes through the caller's address, in the
order of the source.

The constants are those of the 32-bit builds. `task_t` ends behind `parent_task_id` on
`i386`, where a 64-bit field is aligned to four bytes, and is padded to eight on `arm`.
-/

namespace LughOS.Kernel

open Auditor Bytes

/-! ## Objects in memory -/

def mmUserLoadBase : Nat := 0x400000
def mmUserRegionEnd : Nat := 0x800000

def wordAt (mem : Mem) (address : Nat) : BitVec 32 := BitVec.ofNat 32 (mem.readWord address)

/-- The `message_t` at an address. -/
def messageAt (mem : Mem) (address : Nat) : Message where
  priority := wordAt mem address
  operation := wordAt mem (address + 4)
  checksum := wordAt mem (address + 8)
  padding1 := wordAt mem (address + 12)
  payload := fun i => mem (address + 16 + i)

def messageSize : Nat := 144

inductive Arch where
  | i386 | arm
  deriving DecidableEq

def Arch.taskSize : Arch → Nat
  | .i386 => 44
  | .arm => 48

/-- The `task_t` at an address. `create_task` does not read the state of its argument. -/
def taskAt (mem : Mem) (address : Nat) : Task where
  taskId := wordAt mem address
  priority := wordAt mem (address + 4)
  capMask := wordAt mem (address + 8)
  domain := wordAt mem (address + 12)
  state := .ready
  deadline := wordAt mem (address + 28) ++ wordAt mem (address + 24)
  kernelStackTop := wordAt mem (address + 32)
  savedSp := wordAt mem (address + 36)
  parentTaskId := wordAt mem (address + 40)

/-- The loop of `strlen` at length `len`, with the rounds until it gives up: the result and
the bytes it read. -/
def strlenLoop (h : Heap) (s : Nat) : Nat → Nat → Nat × Span
  | 0, len => (0, ⟨s, len⟩)
  | rounds + 1, len =>
      if securityValidateMemoryAccess h.regions (s + len) 1 false then
        if h.mem (s + len) = 0 then (len, ⟨s, len + 1⟩) else strlenLoop h s rounds (len + 1)
      else (len, ⟨s, len⟩)

/-- `strlen` of `memory_utils.c`, which refuses strings of more than 10000 characters. -/
def strlen (h : Heap) (s : Nat) : Nat × Span :=
  if securityValidateMemoryAccess h.regions s 1 false then strlenLoop h s 10001 0 else (0, ⟨s, 0⟩)

/-- `lugh_message_to_nng` on a message in memory. The payload is copied just if all parts are
accepted. -/
def lughMessageToNngAt (p : Pool) (address : Nat) : Except Rv Nat × List Span × Pool :=
  match nngMsgAlloc p 0 with
  | (.error rv, p) => (.error rv, [], p)
  | (.ok msg, p) =>
      let priority : BitVec 8 := (wordAt p.heap.mem address).setWidth 8
      let operation := wordAt p.heap.mem (address + 4)
      let (plen, scanned) := strlen p.heap (address + 16)
      let touched : List Span := [⟨address, 4⟩, ⟨address + 4, 4⟩, scanned]
      match appendAll p msg [.object (wordBytes 1 priority), .object (wordBytes 4 operation),
          .range (address + 16) (plen + 1)] with
      | (.ok, p) => (.ok msg, touched ++ [⟨address + 16, plen + 1⟩], p)
      | (rv, p) => (.error rv, touched, (nngMsgFree p msg).2)

/-! ## Sending a message in memory -/

namespace Machine

def heap (m : Machine) : Heap := m.kernel.nng.pool.heap

def setNng (m : Machine) (nng : Nng) : Machine :=
  { m with kernel := { m.kernel with nng := nng }, mirrors := m.mirrors }

def setPool (m : Machine) (pool : Pool) : Machine := m.setNng { m.kernel.nng with pool := pool }

def store (m : Machine) (address : Nat) (bytes : List Byte) : Machine :=
  m.setPool (m.kernel.nng.pool.withMem (m.heap.mem.write address bytes))

def push (m : Machine) (msg : Message) : Machine :=
  { m with
    kernel := { m.kernel with auditor := ringPush m.kernel.auditor msg }
    ipcRing := (m.ipcRing.push msg).2
    mirrors := m.mirrors.push msg }

def emitDeny (m : Machine) (src : ChannelId) (dst : Option ChannelId) (op : BitVec 32)
    (reason priority : BitVec 8) : Machine :=
  { m with
    kernel := m.kernel.emitDeny src dst op reason priority
    mirrors := by unfold System.emitDeny; rw [System.emit_auditor]; exact m.mirrors.emit _ }

/-- `msg->payload[MAX_MSG_SIZE - 1] = '\0'` and the checksum of what is left. -/
def sealAt (m : Machine) (address : Nat) : List Span × Machine :=
  let m := m.store (address + 143) [0]
  let (len, scanned) := strlen m.heap (address + 16)
  let summed : List Span :=
    if securityValidateMemoryAccess m.heap.regions (address + 16) len false then
      [⟨address + 16, len⟩]
    else []
  ([⟨address + 143, 1⟩, scanned] ++ summed ++ [⟨address + 8, 4⟩],
    m.store (address + 8) (wordBytes 4 (checksumAt m.heap (address + 16) len)))

/-- The channel context in `_padding1` and the copy of the message into `ipc_ring`, which a
full ring does not take. -/
def auditAt (m : Machine) (c : ChannelId) (address : Nat) : List Span × Machine :=
  if m.kernel.auditor.enabled then
    let stamp := (stampMessage c (m.kernel.channels c) (messageAt m.heap.mem address)).padding1
    let m := m.store (address + 12) (wordBytes 4 stamp)
    let msg := messageAt m.heap.mem address
    let copied : List Span := if (m.ipcRing.push msg).1 then [⟨address, messageSize⟩] else []
    (⟨address + 12, 4⟩ :: copied, m.push msg)
  else ([], m)

/-- The part of `ipc_send` behind its capability check. -/
def transmitAt (m : Machine) (c : ChannelId) (address : Nat) : Int × List Span × Machine :=
  let (sealed, m) := m.sealAt address
  match lughMessageToNngAt m.kernel.nng.pool address with
  | (.error _, converted, pool) => (-3, sealed ++ converted, m.setPool pool)
  | (.ok nngMsg, converted, pool) =>
      let (audited, m) := (m.setPool pool).auditAt c address
      let touched := sealed ++ converted ++ audited
      match nngSend m.kernel.nng m.kernel.jiffies (m.kernel.channels c).socket nngMsg with
      | (.ok, nng) => (0, touched, m.setNng nng)
      | (_, nng) => (-4, touched, m.setNng nng)

/-- `ipc_send` on the message at an address. -/
def ipcSendAt (m : Machine) (id : Int) (address : Nat) : Int × List Span × Machine :=
  if address = 0 then (-1, [], m)
  else
    match openChannel? m.kernel id with
    | none => (-2, [], m)
    | some c =>
        let operation := wordAt m.heap.mem (address + 4)
        let req := requiredCapsForOp operation
        if ¬Grants (m.kernel.channels c).capMask req then
          let reason : BitVec 8 := if req &&& capPrivilegedOp ≠ 0#32 then 3 else 1
          let priority : BitVec 8 := (wordAt m.heap.mem address).setWidth 8
          (-7, [⟨address + 4, 4⟩, ⟨address, 4⟩], m.emitDeny c none operation reason priority)
        else
          let (rv, touched, m) := m.transmitAt c address
          (rv, ⟨address + 4, 4⟩ :: touched, m)

/-! ## The handler -/

/-- The check that each call makes on its pointer: where the object starts, not where it
ends. -/
def AcceptsPointer (pointer : BitVec 32) : Prop :=
  pointer ≠ 0 ∧ ¬(pointer.toNat < 0x400000 ∨ 0x7FFFFFFF < pointer.toNat)

instance (pointer : BitVec 32) : Decidable (AcceptsPointer pointer) :=
  inferInstanceAs (Decidable (_ ∧ _))

/-- The length of a write after its truncation. -/
def writeLength (len : BitVec 32) : Nat := if 1024 < len.toNat then 1024 else len.toNat

def sysWrite (m : Machine) (buffer len : BitVec 32) : List Span × Machine :=
  if AcceptsPointer buffer then ([⟨buffer.toNat, writeLength len⟩], m) else ([], m)

/-- The branch `SYS_IPC_SEND`, with the channel that `main.c` opened for it. -/
def sysIpcSend (m : Machine) (userBootstrapChannel : Int) (operation pointer : BitVec 32) :
    List Span × Machine :=
  if ¬AcceptsPointer pointer then ([], m)
  else if userBootstrapChannel < 0 then ([], m)
  else
    let address := pointer.toNat
    let m := (m.store (address + 4) (wordBytes 4 operation)).store (address + 143) [0]
    let (_, touched, m) := m.ipcSendAt userBootstrapChannel address
    (⟨address + 4, 4⟩ :: ⟨address + 143, 1⟩ :: touched, m.auditorTick)

def sysCreateTask (m : Machine) (arch : Arch) (pointer : BitVec 32) : List Span × Machine :=
  if AcceptsPointer pointer then
    ([⟨pointer.toNat, arch.taskSize⟩],
      m.perform (.createTask (some (taskAt m.heap.mem pointer.toNat))))
  else ([], m)

def syscallHandler (m : Machine) (arch : Arch) (userBootstrapChannel : Int)
    (num arg1 arg2 _arg3 : BitVec 32) : List Span × Machine :=
  match num.toNat with
  | 1 => m.sysWrite arg1 arg2
  | 2 => m.sysIpcSend userBootstrapChannel arg1 arg2
  | 3 => ([], m.sysExit arg1)
  | 4 => m.sysCreateTask arch arg1
  | 5 => ([], m.sysYield)
  | _ => ([], m)

end Machine

/-! ## The length of a string the gate lets the kernel read -/

section Strings

variable {h : Heap} {a n : Nat}

/-- The loop stops at the NUL or at a byte it may not read. -/
theorem strlenLoop_stops (chars : ∀ i < n, h.mem (a + i) ≠ 0) (nul : h.mem (a + n) = 0)
    {rounds len : Nat} (before : len ≤ n) (enough : n < len + rounds) :
    (strlenLoop h a rounds len).1 ≤ n ∧ ((strlenLoop h a rounds len).1 = n ∨
      securityValidateMemoryAccess h.regions (a + (strlenLoop h a rounds len).1) 1 false =
        false) := by
  induction rounds generalizing len with
  | zero => omega
  | succ rounds ih =>
      rw [strlenLoop]
      split
      · rcases before.lt_or_eq with inside | rfl
        · rw [if_neg (chars len inside)]
          exact ih inside (by omega)
        · rw [if_pos nul]
          exact ⟨le_rfl, .inl rfl⟩
      · rename_i refused
        exact ⟨before, .inr (Bool.eq_false_iff.mpr refused)⟩

theorem strlen_stops (chars : ∀ i < n, h.mem (a + i) ≠ 0) (nul : h.mem (a + n) = 0)
    (short : n ≤ 10000) :
    (strlen h a).1 ≤ n ∧ ((strlen h a).1 = n ∨
      securityValidateMemoryAccess h.regions (a + (strlen h a).1) 1 false = false) := by
  rw [strlen]
  split
  · exact strlenLoop_stops chars nul (Nat.zero_le n) (by omega)
  · rename_i refused
    exact ⟨Nat.zero_le n, .inr (Bool.eq_false_iff.mpr refused)⟩

/-- The length is right if the gate lets the byte behind it be read. -/
theorem strlen_of_accepted (chars : ∀ i < n, h.mem (a + i) ≠ 0) (nul : h.mem (a + n) = 0)
    (short : n ≤ 10000) {k : Nat} (behind : (strlen h a).1 < k)
    (readable : securityValidateMemoryAccess h.regions a k false = true) : (strlen h a).1 = n := by
  obtain ⟨-, exact | refused⟩ := strlen_stops chars nul short
  · exact exact
  · have byte := validate_part (b := a + (strlen h a).1) readable Nat.one_pos (by omega) (by omega)
    rw [byte] at refused
    cases refused

theorem strlen_eq (chars : ∀ i < n, h.mem (a + i) ≠ 0) (nul : h.mem (a + n) = 0)
    (short : n ≤ 10000)
    (readable : securityValidateMemoryAccess h.regions a (n + 1) false = true) :
    (strlen h a).1 = n :=
  strlen_of_accepted chars nul short (Nat.lt_succ_of_le (strlen_stops chars nul short).1) readable

end Strings

/-! ## Messages in memory -/

/-- The payload has at most 127 characters. -/
def NulTerminated (m : Message) : Prop := (cString m.payload).length ≤ 127

instance (m : Message) : Decidable (NulTerminated m) := Nat.decLe (cString m.payload).length 127

section Messages

variable {mem mem' : Mem} {a b : Nat}

theorem wordAt_congr (same : Mem.EqOn mem' mem a 4) : wordAt mem' a = wordAt mem a := by
  rw [wordAt, wordAt, same.readWord_eq]

theorem messageAt_congr (same : ∀ k < 144, mem' (b + k) = mem (a + k)) :
    messageAt mem' b = messageAt mem a := by
  have word (k : Nat) (inside : k + 4 ≤ 144) : wordAt mem' (b + k) = wordAt mem (a + k) := by
    have bytes : mem'.read (b + k) 4 = mem.read (a + k) 4 := by
      refine List.map_congr_left fun i member => ?_
      have below := List.mem_range.mp member
      rw [Nat.add_assoc, Nat.add_assoc]
      exact same (k + i) (by omega)
    rw [wordAt, wordAt, Mem.readWord, Mem.readWord, bytes]
  simp only [messageAt, Message.mk.injEq]
  refine ⟨word 0 (by omega), word 4 (by omega), word 8 (by omega), word 12 (by omega), ?_⟩
  · funext i
    have below : 16 + i.val < 144 := by omega
    rw [Nat.add_assoc, Nat.add_assoc]
    exact same (16 + i) below

theorem messageAt_eqOn (same : Mem.EqOn mem' mem a 144) : messageAt mem' a = messageAt mem a :=
  messageAt_congr fun i below => same (a + i) (by omega) (by omega)

theorem payload_read (mem : Mem) (a : Nat) :
    mem.read (a + 16) (cString (messageAt mem a).payload).length =
      cString (messageAt mem a).payload := by
  refine List.ext_getElem (by simp) fun i inside inside' => ?_
  rw [Mem.read_getElem, cString_getElem inside']
  rfl

theorem payload_character (mem : Mem) (a i : Nat)
    (inside : i < (cString (messageAt mem a).payload).length) : mem (a + 16 + i) ≠ 0 := by
  have character := cString_ne_zero (List.getElem_mem inside)
  rwa [cString_getElem inside] at character

theorem payload_nul (short : (cString (messageAt mem a).payload).length < 128) :
    mem (a + 16 + (cString (messageAt mem a).payload).length) = 0 :=
  cString_nul (f := (messageAt mem a).payload) short

end Messages

end LughOS.Kernel

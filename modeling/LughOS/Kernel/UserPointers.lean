import LughOS.Kernel.PoolInvariant
import LughOS.Kernel.Syscalls

/-!
# Where a system call follows the caller's pointers

The pointer checks of `syscall_handler` look at the first byte of an object only and admit
every address up to `0x7FFFFFFF`, far beyond the user region: the kernel heap starts right
behind it. `user_pointers_confined_iff` says for every state of every run exactly which
arguments keep a call inside the region.

Inside the object the calls behave. The send scans the payload twice with `strlen`, the
second time after it allocated a message, and the NUL that ends both scans is still there
because the allocator only writes to its own blocks.
-/

namespace LughOS.Kernel

open Auditor Bytes Machine

/-! ## The block table

Sending a message in memory keeps the layout as the other calls do. -/

theorem lughMessageToNngAt_laidOut {p : Pool} (laid : p.heap.LaidOut) (address : Nat) :
    (lughMessageToNngAt p address).2.2.heap.LaidOut := by
  unfold lughMessageToNngAt
  split
  · rename_i alloc
    exact nngMsgAlloc_laidOut laid alloc
  · rename_i alloc
    have begun := nngMsgAlloc_laidOut laid alloc
    dsimp only
    split <;> rename_i appended
    · exact laidOut_invariant.appendAll begun appended
    · exact laidOut_invariant.free _ (laidOut_invariant.appendAll begun appended)

namespace Machine

variable {m : Machine}

theorem store_laidOut (laid : m.heap.LaidOut) (address : Nat) (bytes : List Byte) :
    (m.store address bytes).heap.LaidOut := laid

theorem sealAt_laidOut (laid : m.heap.LaidOut) (address : Nat) :
    (m.sealAt address).2.heap.LaidOut := store_laidOut (store_laidOut laid _ _) _ _

theorem auditAt_laidOut (laid : m.heap.LaidOut) (c : ChannelId) (address : Nat) :
    (m.auditAt c address).2.heap.LaidOut := by
  unfold auditAt
  split <;> exact laid

theorem transmitAt_laidOut (laid : m.heap.LaidOut) (c : ChannelId) (address : Nat) :
    (m.transmitAt c address).2.2.heap.LaidOut := by
  have converted := lughMessageToNngAt_laidOut (sealAt_laidOut laid address) address
  unfold transmitAt
  dsimp only
  split
  · rename_i pool result
    rw [result] at converted
    exact converted
  · rename_i nngMsg _ pool result
    rw [result] at converted
    have audited : (((m.sealAt address).2.setPool pool).auditAt c address).2.heap.LaidOut :=
      auditAt_laidOut (m := (m.sealAt address).2.setPool pool) converted c address
    split <;> rename_i sent <;> exact laidOut_invariant.nngSend audited sent

theorem ipcSendAt_laidOut (laid : m.heap.LaidOut) (id : Int) (address : Nat) :
    (m.ipcSendAt id address).2.2.heap.LaidOut := by
  unfold ipcSendAt
  split
  · exact laid
  split
  · exact laid
  dsimp only
  split
  · simp only [emitDeny, heap, System.emitDeny, System.emit_nng]
    exact laid
  · exact transmitAt_laidOut laid _ address

theorem auditorTick_heap (m : Machine) : m.auditorTick.heap = m.heap := by
  rw [heap, m.auditorTick_frame.2.1]
  rfl

theorem sysIpcSend_laidOut (laid : m.heap.LaidOut) (channel : Int)
    (operation pointer : BitVec 32) : (m.sysIpcSend channel operation pointer).2.heap.LaidOut := by
  unfold sysIpcSend
  split
  · exact laid
  split
  · exact laid
  · rw [auditorTick_heap]
    exact ipcSendAt_laidOut (store_laidOut (store_laidOut laid _ _) _ _) channel _

theorem syscallHandler_laidOut (laid : m.heap.LaidOut) (arch : Arch) (channel : Int)
    (num arg1 arg2 arg3 : BitVec 32) :
    (m.syscallHandler arch channel num arg1 arg2 arg3).2.heap.LaidOut := by
  unfold syscallHandler
  split
  · unfold sysWrite
    split <;> exact laid
  · exact sysIpcSend_laidOut laid channel arg1 arg2
  · rw [heap, (m.sysExit_frame arg1).2.2.1]
    exact laid
  · unfold sysCreateTask
    split
    · exact laidOut_invariant.step laid _
    · exact laid
  · exact laid
  · exact laid

end Machine

/-! ## Scanning the payload -/

section Scan

variable {h : Heap} {s k : Nat}

/-- The loop stops at a NUL at the latest. -/
theorem strlenLoop_spec (nul : h.mem (s + k) = 0) {rounds len : Nat} (before : len ≤ k)
    (enough : k < len + rounds) :
    (strlenLoop h s rounds len).1 ≤ k ∧ (strlenLoop h s rounds len).2.address = s ∧
      (strlenLoop h s rounds len).2.size ≤ k + 1 := by
  induction rounds generalizing len with
  | zero => omega
  | succ rounds ih =>
      unfold strlenLoop
      split
      · split
        · exact ⟨before, rfl, Nat.succ_le_succ before⟩
        · rename_i character
          have other : len ≠ k := fun same => character (by rw [same]; exact nul)
          exact ih (by omega) (by omega)
      · exact ⟨before, rfl, Nat.le_succ_of_le before⟩

theorem strlen_spec (nul : h.mem (s + k) = 0) (short : k ≤ 10000) :
    (strlen h s).1 ≤ k ∧ (strlen h s).2.address = s ∧ (strlen h s).2.size ≤ k + 1 := by
  unfold strlen
  split
  · exact strlenLoop_spec nul (Nat.zero_le k) (by omega)
  · exact ⟨Nat.zero_le k, rfl, Nat.zero_le _⟩

end Scan

/-! ## Inside the message -/

/-- The payload ends with a NUL. -/
def Terminated (h : Heap) (address : Nat) : Prop := h.mem (address + 143) = 0

variable {address : Nat}

theorem Terminated.of_eqOn {h h' : Heap} (nul : Terminated h address)
    (same : Mem.EqOn h'.mem h.mem (address + 143) 1) : Terminated h' address :=
  (same (address + 143) (Nat.le_refl _) (Nat.lt_succ_self _)).trans nul

/-- The blocks of a new message are above the user region. -/
theorem Terminated.alloc {p p' : Pool} {msg : Nat} (nul : Terminated p.heap address)
    (laid : p.heap.LaidOut) (below : address + messageSize ≤ heapStart)
    (alloc : nngMsgAlloc p 0 = (.ok msg, p')) : Terminated p'.heap address := by
  simp only [messageSize] at below
  obtain ⟨rv, _, failed, -⟩ | ⟨s, m, b, _, ok, gains, -⟩ := nngMsgAlloc_ownership laid 0
  · rw [failed] at alloc
    cases alloc
  · rw [ok] at alloc
    cases alloc
    have msgAbove := m.inside
    have bufferAbove := b.inside
    exact nul.of_eqOn (gains.mem (by omega) (by omega))

theorem Terminated.strlen {h : Heap} (nul : Terminated h address) :
    (strlen h (address + 16)).1 ≤ 127 ∧ (Kernel.strlen h (address + 16)).2.address = address + 16 ∧
      (Kernel.strlen h (address + 16)).2.size ≤ 128 :=
  strlen_spec nul (by decide)

theorem lughMessageToNngAt_confined {p : Pool} (laid : p.heap.LaidOut)
    (below : address + messageSize ≤ heapStart) (nul : Terminated p.heap address) :
    Confined address (address + messageSize) (lughMessageToNngAt p address).2.1 := by
  unfold lughMessageToNngAt
  split
  · exact .nil
  · rename_i msg p' alloc
    obtain ⟨short, start, size⟩ := (nul.alloc laid below alloc).strlen
    have scanned : Confined address (address + messageSize)
        [⟨address, 4⟩, ⟨address + 4, 4⟩, (strlen p'.heap (address + 16)).2] := by
      refine .cons ?_ (.cons ?_ (.cons ?_ .nil)) <;> simp only [messageSize] <;> omega
    dsimp only
    split
    · exact scanned.append (.cons (by simp only [messageSize]; omega) .nil)
    · exact scanned

namespace Machine

variable {m : Machine}

theorem store_terminated (m : Machine) (address : Nat) :
    Terminated (m.store (address + 143) [0]).heap address := by
  simp [Terminated, store, setPool, setNng, heap, Pool.withMem, Mem.write]

theorem sealAt_terminated (m : Machine) (address : Nat) :
    Terminated (m.sealAt address).2.heap address :=
  (m.store_terminated address).of_eqOn (Mem.write_eqOn _ _ (by simp))

theorem sealAt_confined (m : Machine) (address : Nat) :
    Confined address (address + messageSize) (m.sealAt address).1 := by
  obtain ⟨short, start, size⟩ := (m.store_terminated address).strlen
  unfold sealAt
  dsimp only
  refine .append (.append (.cons ?_ (.cons ?_ .nil)) ?_) (.cons ?_ .nil)
  · simp only [messageSize]
    omega
  · simp only [messageSize]
    omega
  · split
    · exact .cons (by simp only [messageSize]; omega) .nil
    · exact .nil
  · simp only [messageSize]
    omega

theorem auditAt_confined (m : Machine) (c : ChannelId) (address : Nat) :
    Confined address (address + messageSize) (m.auditAt c address).1 := by
  unfold auditAt
  split
  · refine .cons (by simp only [messageSize]; omega) ?_
    split
    · exact .cons (by simp) .nil
    · exact .nil
  · exact .nil

theorem transmitAt_confined (laid : m.heap.LaidOut) (c : ChannelId)
    (below : address + messageSize ≤ heapStart) :
    Confined address (address + messageSize) (m.transmitAt c address).2.1 := by
  have converted := lughMessageToNngAt_confined (sealAt_laidOut laid address) below
    (m.sealAt_terminated address)
  have sealed := m.sealAt_confined address
  unfold transmitAt
  dsimp only
  split
  · rename_i result
    rw [result] at converted
    exact sealed.append converted
  · rename_i result
    rw [result] at converted
    split <;> exact (sealed.append converted).append (auditAt_confined _ c address)

theorem ipcSendAt_confined (laid : m.heap.LaidOut) (id : Int)
    (below : address + messageSize ≤ heapStart) :
    Confined address (address + messageSize) (m.ipcSendAt id address).2.1 := by
  unfold ipcSendAt
  split
  · exact .nil
  split
  · exact .nil
  dsimp only
  split
  · exact .cons (by simp only [messageSize]; omega) (.cons (by simp only [messageSize]; omega) .nil)
  · exact .cons (by simp only [messageSize]; omega) (transmitAt_confined laid _ below)

/-! ## Which arguments keep a call inside the region -/

theorem AcceptsPointer.base_le {pointer : BitVec 32} (accepted : AcceptsPointer pointer) :
    mmUserLoadBase ≤ pointer.toNat :=
  Nat.le_of_not_lt fun low => accepted.2 (.inl low)

/-- An object of known size behind an accepted pointer. -/
theorem object_confined_iff {pointer : BitVec 32} {size : Nat} (accepted : AcceptsPointer pointer) :
    Confined mmUserLoadBase mmUserRegionEnd [⟨pointer.toNat, size⟩] ↔
      size = 0 ∨ pointer.toNat + size ≤ mmUserRegionEnd := by
  have base := accepted.base_le
  constructor
  · intro confined
    rcases Nat.eq_zero_or_pos size with none | some
    · exact .inl none
    · exact .inr (confined.ends (List.mem_singleton.mpr rfl) some).2
  · rintro (rfl | fits)
    · intro span member x above below
      cases List.mem_singleton.mp member
      dsimp only at above below
      omega
    · exact .cons ⟨base, fits⟩ .nil

theorem sysWrite_confined_iff (m : Machine) (buffer len : BitVec 32) :
    Confined mmUserLoadBase mmUserRegionEnd (m.sysWrite buffer len).1 ↔
      (AcceptsPointer buffer →
        writeLength len = 0 ∨ buffer.toNat + writeLength len ≤ mmUserRegionEnd) := by
  unfold sysWrite
  split
  · rename_i accepted
    exact (object_confined_iff accepted).trans ⟨fun fits _ => fits, fun fits => fits accepted⟩
  · rename_i refused
    exact ⟨fun _ accepted => absurd accepted refused, fun _ => .nil⟩

theorem sysCreateTask_confined_iff (m : Machine) (arch : Arch) (pointer : BitVec 32) :
    Confined mmUserLoadBase mmUserRegionEnd (m.sysCreateTask arch pointer).1 ↔
      (AcceptsPointer pointer → pointer.toNat + arch.taskSize ≤ mmUserRegionEnd) := by
  have occupied : arch.taskSize ≠ 0 := by cases arch <;> decide
  unfold sysCreateTask
  split
  · rename_i accepted
    refine (object_confined_iff accepted).trans ⟨fun fits _ => ?_, fun fits => .inr (fits accepted)⟩
    exact fits.resolve_left occupied
  · rename_i refused
    exact ⟨fun _ accepted => absurd accepted refused, fun _ => .nil⟩

theorem sysIpcSend_confined_iff (laid : m.heap.LaidOut) (channel : Int)
    (operation pointer : BitVec 32) :
    Confined mmUserLoadBase mmUserRegionEnd (m.sysIpcSend channel operation pointer).1 ↔
      (AcceptsPointer pointer → 0 ≤ channel →
        pointer.toNat + messageSize ≤ mmUserRegionEnd) := by
  unfold sysIpcSend
  split
  · rename_i refused
    exact ⟨fun _ accepted => absurd accepted refused, fun _ => .nil⟩
  rename_i accepted
  have accepted := not_not.mp accepted
  split
  · rename_i missing
    exact ⟨fun _ _ created => absurd created (Int.not_le.mpr missing), fun _ => .nil⟩
  rename_i created
  dsimp only
  constructor
  · intro confined _ _
    -- the handler itself writes the last byte of the payload
    have last := confined.ends (List.mem_cons_of_mem _ List.mem_cons_self) Nat.zero_lt_one
    exact last.2
  · intro fits
    have fits := fits accepted (Int.not_lt.mp created)
    have base := accepted.base_le
    have inside : Confined pointer.toNat (pointer.toNat + messageSize) _ :=
      ipcSendAt_confined (store_laidOut (store_laidOut laid (pointer.toNat + 4)
        (wordBytes 4 operation)) (pointer.toNat + 143) [0]) channel fits
    have rest := inside.mono base fits
    simp only [messageSize] at fits
    exact .cons (by dsimp only; omega) (.cons (by dsimp only; omega) rest)

end Machine

/-- Behind an accepted pointer, the object that the call uses ends inside the user region. -/
def ArgumentsFit (arch : Arch) (userBootstrapChannel : Int) (num arg1 arg2 : BitVec 32) : Prop :=
  match num.toNat with
  | 1 => AcceptsPointer arg1 →
      writeLength arg2 = 0 ∨ arg1.toNat + writeLength arg2 ≤ mmUserRegionEnd
  | 2 => AcceptsPointer arg2 → 0 ≤ userBootstrapChannel →
      arg2.toNat + messageSize ≤ mmUserRegionEnd
  | 4 => AcceptsPointer arg1 → arg1.toNat + arch.taskSize ≤ mmUserRegionEnd
  | _ => True

theorem syscallHandler_confined_iff {m : Machine} (laid : m.heap.LaidOut) (arch : Arch)
    (channel : Int) (num arg1 arg2 arg3 : BitVec 32) :
    Confined mmUserLoadBase mmUserRegionEnd
        (m.syscallHandler arch channel num arg1 arg2 arg3).1 ↔
      ArgumentsFit arch channel num arg1 arg2 := by
  have nothing : Confined mmUserLoadBase mmUserRegionEnd [] ↔ True := iff_true_intro .nil
  unfold syscallHandler ArgumentsFit
  generalize num.toNat = number
  match number with
  | 1 => exact m.sysWrite_confined_iff arg1 arg2
  | 2 => exact sysIpcSend_confined_iff laid channel arg1 arg2
  | 4 => exact m.sysCreateTask_confined_iff arch arg1
  | 0 | 3 | 5 | _ + 6 => exact nothing

/-! ## Runs -/

/-- What a machine in operation does next: an event of the kernel, or a system call with
whatever the caller left in its registers. -/
inductive UserEvent where
  | kernel (e : Event)
  | syscall (num arg1 arg2 arg3 : BitVec 32)

def userStep (arch : Arch) (userBootstrapChannel : Int) (m : Machine) : UserEvent → Machine
  | .kernel e => eventStep m e
  | .syscall num arg1 arg2 arg3 =>
      (m.syscallHandler arch userBootstrapChannel num arg1 arg2 arg3).2

theorem eventStep_laidOut {m : Machine} (laid : m.heap.LaidOut) (e : Event) :
    (eventStep m e).heap.LaidOut := by
  cases e with
  | call op => exact laidOut_invariant.step laid op
  | sysExit code => rw [eventStep, heap, (m.sysExit_frame code).2.2.1]; exact laid
  | sysYield => exact laid
  | logTransaction entry =>
      rw [eventStep, heap, (m.logTransaction_frame entry).2.2.1]
      exact laid
  | fault a => rw [eventStep, heap, (m.auditorFault_reported a).nng]; exact laid
  | workflow owner a => rw [eventStep, heap, (m.auditorWorkflow_reported owner a).nng]; exact laid
  | auditorTick => rw [eventStep, auditorTick_heap]; exact laid

theorem userStep_laidOut {arch : Arch} {channel : Int} (m : Machine) (e : UserEvent)
    (laid : m.heap.LaidOut) : (userStep arch channel m e).heap.LaidOut := by
  cases e with
  | kernel e => exact eventStep_laidOut laid e
  | syscall num arg1 arg2 arg3 => exact syscallHandler_laidOut laid arch channel num arg1 arg2 arg3

/-- After any run of events and system calls from boot, a system call stays inside the user
region with the addresses its caller supplied if and only if the objects at the addresses it
accepts end there. -/
theorem user_pointers_confined_iff (arch : Arch) (userBootstrapChannel : Int) (image : BootImage)
    (statics : Statics) (run : List UserEvent) (num arg1 arg2 arg3 : BitVec 32) :
    Confined mmUserLoadBase mmUserRegionEnd
        ((Runs.after (userStep arch userBootstrapChannel) (auditorInit (boot image) statics)
          run).syscallHandler arch userBootstrapChannel num arg1 arg2 arg3).1 ↔
      ArgumentsFit arch userBootstrapChannel num arg1 arg2 := by
  have booted : (auditorInit (boot image) statics).heap.LaidOut :=
    memoryInit_laidOut image.mem image.regions
  have laid : (Runs.after (userStep arch userBootstrapChannel) (auditorInit (boot image) statics)
      run).heap.LaidOut :=
    Runs.invariant_after (I := fun m : Machine => m.heap.LaidOut) booted userStep_laidOut run
  exact syscallHandler_confined_iff laid arch userBootstrapChannel num arg1 arg2 arg3

/-- A write of the first byte of the kernel heap to the console. -/
theorem write_reads_kernel_heap :
    ¬Confined mmUserLoadBase mmUserRegionEnd
      ((auditorInit (boot sampleImage) zeroStatics).syscallHandler .arm 0 1 0x800000 1 0).1 := by
  intro confined
  have touched : (⟨heapStart, 1⟩ : Span) ∈
      ((auditorInit (boot sampleImage) zeroStatics).syscallHandler .arm 0 1 0x800000 1 0).1 := by
    decide +kernel
  exact absurd (confined.ends touched Nat.zero_lt_one).2 (by decide)

end LughOS.Kernel

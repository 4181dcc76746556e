import LughOS.Storage.Checkpoints

/-!
# Success without a copy

`create_checkpoint` and `restore_checkpoint` return 0 once the slot and the buffer are found. The
bytes between them are moved by `memcpy`, which returns silently when the gate refuses one of the
two ranges. `success_moves_iff` is about any region table and any memory: behind a successful call
the snapshot and the buffer hold the same bytes just if the gate admits the copy, or they did so
before.
-/

namespace LughOS.Storage

open Bytes Kernel

/-- The gate admits both ranges of a copy. -/
def CopyAdmitted (regions : List MemRegion) (dest src n : Nat) : Prop :=
  securityValidateMemoryAccess regions dest n true = true ∧
    securityValidateMemoryAccess regions src n false = true

/-- The two ranges hold the same bytes. -/
def SameBytes (mem : Mem) (a b n : Nat) : Prop := mem.read a n = mem.read b n

/-- A copy between disjoint ranges makes them equal just if the gate lets it happen. -/
theorem memcpy_same_iff {h : Heap} {dest src n : Nat} (apart : src + n ≤ dest ∨ dest + n ≤ src) :
    SameBytes (memcpy h dest src n) dest src n ↔
      CopyAdmitted h.regions dest src n ∨ SameBytes h.mem dest src n := by
  by_cases admitted : CopyAdmitted h.regions dest src n
  · have copies : memcpy h dest src n = h.mem.copy dest src n :=
      memcpy_eq (fun _ => admitted.1) fun _ => admitted.2
    have source : Mem.EqOn (h.mem.copy dest src n) h.mem src n :=
      Mem.copy_eqOn h.mem src (by omega)
    refine iff_of_true ?_ (.inl admitted)
    rw [copies, SameBytes, Mem.read_copy h.mem dest src (by omega), source.read_eq]
  · have refused : memcpy h dest src n = h.mem := by
      rw [memcpy, if_neg]
      simpa [CopyAdmitted] using admitted
    rw [refused]
    exact ⟨.inr, fun either => either.resolve_left admitted⟩

theorem memcpy_eqOn {h : Heap} {dest src k a n : Nat} (apart : a + n ≤ dest ∨ dest + k ≤ a) :
    Mem.EqOn (memcpy h dest src k) h.mem a n := by
  unfold memcpy
  split
  · exact Mem.copy_eqOn h.mem src (by omega)
  · exact Mem.EqOn.refl

namespace Store

variable {s s' : Store} {i b : TableIndex} {src dst : Nat}

theorem emitTxn_frame {o : BitVec 32} {key value : List Byte}
    (emitted : s.emitTxn o key value = some s') :
    s'.mem = s.mem ∧ s'.layout = s.layout ∧ s'.registeredBuffers = s.registeredBuffers := by
  rcases s.emitTxn_cases o key value with ⟨halted, -⟩ | ⟨machine, same, -, logged⟩
  · rw [emitted] at halted
    cases halted
  · rw [emitted, Option.some.injEq] at logged
    subst logged
    exact ⟨congrArg Heap.mem same, rfl, rfl⟩

/-- Acquiring a slot writes to its key field only. -/
theorem acquireSlot_frame (acquired : s.acquireSlot dst = (some i, s')) :
    s'.layout = s.layout ∧ s'.regions = s.regions ∧ s'.registeredBuffers = s.registeredBuffers ∧
      ∀ a n, a + n ≤ s.slotKey i ∨ s.slotKey i + 64 ≤ a → Mem.EqOn s'.mem s.mem a n := by
  unfold acquireSlot at acquired
  cases found : s.findSlot dst with
  | some j =>
      simp only [found, Prod.mk.injEq] at acquired
      obtain ⟨-, rfl⟩ := acquired
      exact ⟨rfl, rfl, rfl, fun _ _ _ => Mem.EqOn.refl⟩
  | none =>
      cases free : Table.first? fun i => !(s.checkpointSlots i).inUse with
      | none => simp [found, free] at acquired
      | some j =>
          by_cases long : keySize ≤ (strlen s.heap dst).1
          · simp [found, free, long] at acquired
          · simp only [found, free, if_neg long, Prod.mk.injEq, Option.some.injEq] at acquired
            obtain ⟨rfl, rfl⟩ := acquired
            refine ⟨rfl, rfl, rfl, fun a n apart => ?_⟩
            change Mem.EqOn (strcpy s.heap (s.slotKey j) dst) s.mem a n
            unfold keySize at long
            exact memcpy_eqOn (by omega)

theorem acquireSlot_refused (refused : s.acquireSlot dst = (none, s')) : s' = s := by
  unfold acquireSlot at refused
  split at refused
  · cases refused
  · split at refused
    · exact (Prod.mk.inj refused).2.symm
    · split at refused
      · exact (Prod.mk.inj refused).2.symm
      · cases refused

theorem create_memcpy (found : s.findRegistered src = some b)
    (acquired : s.acquireSlot dst = (some i, s₁))
    (created : s.createCheckpoint src dst = some (0, s')) :
    s'.mem = memcpy s₁.heap (s₁.slotData i) (s₁.registeredBuffers b).data
      (s₁.registeredBuffers b).size := by
  unfold createCheckpoint at created
  split at created
  · cases created
  · simp only [found, acquired, Option.map_eq_some_iff, Prod.mk.injEq, true_and] at created
    obtain ⟨t, emitted, rfl⟩ := created
    exact (emitTxn_frame emitted).1

theorem restore_memcpy (slot : s.findSlot src = some i) (found : s.findRegistered dst = some b)
    (restored : s.restoreCheckpoint src dst = some (0, s')) :
    (s.checkpointSlots i).size ≤ (s.registeredBuffers b).size ∧
      s'.mem = memcpy s.heap (s.registeredBuffers b).data (s.slotData i)
        (s.checkpointSlots i).size := by
  unfold restoreCheckpoint at restored
  split at restored
  · cases restored
  · simp only [slot, found] at restored
    split at restored
    · cases restored
    · simp only [Option.map_eq_some_iff, Prod.mk.injEq, true_and] at restored
      obtain ⟨t, emitted, rfl⟩ := restored
      exact ⟨by omega, (emitTxn_frame emitted).1⟩

/-- The memory outside the tables and the bindings are as before. -/
structure Frames (s s' : Store) : Prop where
  layout : s'.layout = s.layout
  buffers : s'.registeredBuffers = s.registeredBuffers
  memory : ∀ a n, s.layout.Outside a n → Mem.EqOn s'.mem s.mem a n

theorem Frames.refl (s : Store) : s.Frames s := ⟨rfl, rfl, fun _ _ _ => Mem.EqOn.refl⟩

/-- A snapshot stays within its slot. -/
theorem create_frames (fits : ∀ b, (s.registeredBuffers b).size ≤ checkpointSize) {rv : Int}
    (created : s.createCheckpoint src dst = some (rv, s')) : s.Frames s' := by
  unfold createCheckpoint at created
  split at created
  · cases created
    exact .refl s
  · cases found : s.findRegistered src with
    | none =>
        simp only [found] at created
        cases created
        exact .refl s
    | some b =>
        obtain ⟨slot, s₁, acquired⟩ : ∃ slot s₁, s.acquireSlot dst = (slot, s₁) := ⟨_, _, rfl⟩
        cases slot with
        | none =>
            simp only [found, acquired] at created
            cases created
            rw [acquireSlot_refused acquired]
            exact .refl s
        | some i =>
            simp only [found, acquired, Option.map_eq_some_iff, Prod.mk.injEq] at created
            obtain ⟨t, emitted, -, rfl⟩ := created
            obtain ⟨layout, -, buffers, kept⟩ := acquireSlot_frame acquired
            obtain ⟨mem, layout', buffers'⟩ := emitTxn_frame emitted
            refine ⟨layout'.trans layout, buffers'.trans buffers, fun a n outside => ?_⟩
            have bounds := s.slotKey_bounds i
            have away := outside.2
            have size := fits b
            have key : s₁.slotKey i = s.slotKey i := by simp only [slotKey, layout]
            rw [mem]
            change Mem.EqOn (memcpy s₁.heap (s₁.slotData i) (s₁.registeredBuffers b).data
              (s₁.registeredBuffers b).size) s.mem a n
            rw [buffers, slotData, key]
            unfold checkpointSize at size
            exact (memcpy_eqOn (by omega)).trans (kept a n (by omega))

theorem remove_frames {rv : Int} (removed : s.removeCheckpoint src = some (rv, s')) :
    s.Frames s' := by
  unfold removeCheckpoint at removed
  split at removed
  · cases removed
    exact .refl s
  · cases found : s.findSlot src with
    | none =>
        simp only [found] at removed
        cases removed
        exact .refl s
    | some i =>
        simp only [found, Option.map_eq_some_iff, Prod.mk.injEq] at removed
        obtain ⟨t, emitted, -, rfl⟩ := removed
        obtain ⟨mem, layout, buffers⟩ := emitTxn_frame emitted
        exact ⟨layout, buffers, fun a n _ => mem ▸ Mem.EqOn.refl⟩

end Store

/-- What a successful call says about the bytes: for every region table, memory and caller's
buffer, the snapshot and the buffer are equal behind it just if the gate admitted the copy or they
were equal before. -/
theorem success_moves_iff (s s' : Store) (src dst : Nat) (i b : TableIndex)
    (outside : s.layout.Outside (s.registeredBuffers b).data (s.registeredBuffers b).size)
    (fits : (s.registeredBuffers b).size ≤ checkpointSize) :
    (s.findRegistered src = some b → (s.acquireSlot dst).1 = some i →
      s.createCheckpoint src dst = some (0, s') →
      (SameBytes s'.mem (s.slotData i) (s.registeredBuffers b).data (s.registeredBuffers b).size ↔
        CopyAdmitted s.regions (s.slotData i) (s.registeredBuffers b).data
            (s.registeredBuffers b).size ∨
          SameBytes s.mem (s.slotData i) (s.registeredBuffers b).data
            (s.registeredBuffers b).size)) ∧
    (s.findSlot src = some i → s.findRegistered dst = some b →
      s.restoreCheckpoint src dst = some (0, s') →
      (SameBytes s'.mem (s.registeredBuffers b).data (s.slotData i) (s.checkpointSlots i).size ↔
        CopyAdmitted s.regions (s.registeredBuffers b).data (s.slotData i)
            (s.checkpointSlots i).size ∨
          SameBytes s.mem (s.registeredBuffers b).data (s.slotData i)
            (s.checkpointSlots i).size)) := by
  have bounds := s.slotKey_bounds i
  have away := outside.2
  have data : s.slotData i = s.slotKey i + 64 := rfl
  unfold checkpointSize at fits
  constructor
  · intro found acquired created
    obtain ⟨s₁, acquired⟩ : ∃ s₁, s.acquireSlot dst = (some i, s₁) := ⟨_, Prod.ext acquired rfl⟩
    obtain ⟨layout, regions, table, kept⟩ := Store.acquireSlot_frame acquired
    have slot : s₁.slotData i = s.slotData i := by
      simp only [Store.slotData, Store.slotKey, layout]
    have moved := Store.create_memcpy found acquired created
    rw [slot, table] at moved
    have before : SameBytes s₁.mem (s.slotData i) (s.registeredBuffers b).data
          (s.registeredBuffers b).size ↔
        SameBytes s.mem (s.slotData i) (s.registeredBuffers b).data
          (s.registeredBuffers b).size := by
      rw [SameBytes, SameBytes, (kept _ _ (by omega)).read_eq, (kept _ _ (by omega)).read_eq]
    rw [moved, memcpy_same_iff (by omega), ← before, ← regions]
    rfl
  · intro slot found restored
    obtain ⟨large, moved⟩ := Store.restore_memcpy slot found restored
    rw [moved, memcpy_same_iff (by omega)]
    rfl

/-- A machine whose region table protects the kernel's code, as `security_regions_init` does. -/
def guardedMachine : Machine :=
  auditorInit (boot { sampleImage with
    regions := [⟨0, 0xFFF, false, false⟩, ⟨0x10000, 0x1FFFF, true, false⟩,
      ⟨0x800000, 0x8FFFFF, true, true⟩] }) zeroStatics

/-- A store with the one buffer `a`, of the bytes 7 and 8. -/
def oneBuffer : Store :=
  ((((Store.powerOn guardedMachine sampleLayout).withMem
    (Mem.write (Mem.write (fun _ => 0) 0x800000 [0x61]) 0x800020 [7, 8])
    ).storageRegisterBuffer 0x800000 0x800020 2)).2

/-- The store with a checkpoint of the buffer, and other bytes in the buffer since then. -/
def overwrittenBuffer : Store :=
  match oneBuffer.createCheckpoint 0x800000 0x800000 with
  | some (_, s) => s.withMem (s.mem.write 0x800020 [9, 9])
  | none => oneBuffer

theorem success_moves_iff_oneBuffer :
    (oneBuffer.mem.read (oneBuffer.slotData 0) 2 = [0, 0] ∧
      ∃ s', oneBuffer.createCheckpoint 0x800000 0x800000 = some (0, s') ∧
        SameBytes s'.mem (oneBuffer.slotData 0) 0x800020 2) ∧
    overwrittenBuffer.mem.read (overwrittenBuffer.slotData 0) 2 = [7, 8] ∧
      ∃ s', overwrittenBuffer.restoreCheckpoint 0x800000 0x800000 = some (0, s') ∧
        SameBytes s'.mem 0x800020 (overwrittenBuffer.slotData 0) 2 := by
  have creates : (oneBuffer.createCheckpoint 0x800000 0x800000).map Prod.fst = some 0 := by
    decide +kernel
  have restores : (overwrittenBuffer.restoreCheckpoint 0x800000 0x800000).map Prod.fst =
      some 0 := by
    decide +kernel
  obtain ⟨⟨rv, s₁⟩, created, rfl⟩ := Option.map_eq_some_iff.mp creates
  obtain ⟨⟨rv, s₂⟩, restored, rfl⟩ := Option.map_eq_some_iff.mp restores
  have create := (success_moves_iff oneBuffer s₁ 0x800000 0x800000 0 0 (by decide +kernel)
    (by decide +kernel)).1 (by decide +kernel) (by decide +kernel) created
  have restore := (success_moves_iff overwrittenBuffer s₂ 0x800000 0x800000 0 0 (by decide +kernel)
    (by decide +kernel)).2 (by decide +kernel) (by decide +kernel) restored
  exact ⟨⟨by decide +kernel, s₁, created, create.mpr (.inl ⟨by decide +kernel, by decide +kernel⟩)⟩,
    by decide +kernel, s₂, restored, restore.mpr (.inl ⟨by decide +kernel, by decide +kernel⟩)⟩

/-- Two buffers, `a` in the heap and `b` among the constants of the kernel, and a checkpoint of
`a` under the name `a`. -/
def heapCheckpoint : List Op :=
  [.write 0x800000 [0x61], .write 0x800010 [0x62], .write 0x800020 [7, 8],
    .register 0x800000 0x800020 2, .register 0x800010 0x10000 2, .create 0x800000 0x800000]

/-- The bytes of the constants and of the snapshot in a slot, once it is restored to the
constants. -/
def restoredConstants (slot : TableIndex) : Option (Int × List Byte × List Byte) :=
  (Runs.after next (some (.powerOn guardedMachine sampleLayout)) heapCheckpoint).bind fun s =>
    (s.restoreCheckpoint 0x800000 0x800010).map fun result =>
      (result.1, result.2.mem.read 0x10000 2, result.2.mem.read (result.2.slotData slot) 2)

theorem restore_to_constants_moves_nothing :
    restoredConstants 0 = some (0, [0, 0], [7, 8]) := by
  decide +kernel

end LughOS.Storage

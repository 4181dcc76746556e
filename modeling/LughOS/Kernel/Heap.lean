import LughOS.Library.Memory
import LughOS.Library.Table

/-!
# Kernel heap

The block allocator of `memory.c` over a flat byte memory, and the access gate of
`security.c` in front of `memset`. Four size classes of thirty-two blocks each lie
back to back from `MEMORY_REGION_HEAP_START`; the in-use flags live outside the heap,
so a stray store can damage the bytes of a block but not the allocator itself.

The protected region table is a parameter of the heap: `security_regions_init` fills
it from the link layout, and before that call it is empty and the gate admits every
access. Nothing below fixes which regions there are.
-/

namespace LughOS.Kernel

open Bytes

/-! ## The access gate -/

/-- `mem_region_t`, without the fields that no check reads. -/
structure MemRegion where
  startAddr : Nat
  endAddr : Nat
  readAllowed : Bool
  writeAllowed : Bool
  deriving DecidableEq

def sizeMax : Nat := 2 ^ 32 - 1

def MemRegion.forbids (r : MemRegion) (address endAddress : Nat) (write : Bool) : Bool :=
  decide (address ≤ r.endAddr ∧ r.startAddr ≤ endAddress) &&
    (!r.readAllowed || (write && !r.writeAllowed))

def securityValidateMemoryAccess (regions : List MemRegion) (address size : Nat)
    (write : Bool) : Bool :=
  if address = 0 ∧ 0 < size then false
  else if 0 < size ∧ sizeMax - size < address then false
  else
    let endAddress := address + size - (if 0 < size then 1 else 0)
    regions.all fun r => !r.forbids address endAddress write

/-! ## Blocks -/

abbrev SizeClass := Fin 4
abbrev BlockIndex := Fin 32

def heapStart : Nat := 0x800000
def heapEnd : Nat := 0x900000
def memMaxAllocSize : Nat := 4096

def blockSizes : SizeClass → Nat
  | 0 => 64
  | 1 => 256
  | 2 => 1024
  | 3 => 4096

/-- `mem_block_t`. -/
structure MemBlock where
  address : Nat
  inUse : Bool
  size : Nat
  deriving DecidableEq

abbrev BlockTable := SizeClass → BlockIndex → MemBlock

def BlockTable.set (blocks : BlockTable) (c : SizeClass) (i : BlockIndex) (b : MemBlock) :
    BlockTable :=
  fun c' i' => if c' = c ∧ i' = i then b else blocks c' i'

/-- The order in which the nested loops of `memory.c` visit the blocks. -/
def allBlocks : List (SizeClass × BlockIndex) :=
  (List.finRange 4).flatMap fun c => (List.finRange 32).map fun i => (c, i)

def memoryInitLoop (blocks : BlockTable) (currentHeapPtr remainingHeap : Nat) :
    List (SizeClass × BlockIndex) → BlockTable
  | [] => blocks
  | (c, i) :: rest =>
      if remainingHeap < blockSizes c then blocks
      else
        memoryInitLoop (blocks.set c i ⟨currentHeapPtr, false, blockSizes c⟩)
          (currentHeapPtr + blockSizes c) (remainingHeap - blockSizes c) rest

def memoryInit : BlockTable :=
  memoryInitLoop (fun _ _ => ⟨0, false, 0⟩) heapStart (heapEnd - heapStart) allBlocks

/-! ## Allocation -/

structure Heap where
  mem : Mem
  blocks : BlockTable
  regions : List MemRegion

/-- `memset`: a store the gate refuses leaves the memory alone. -/
def Heap.memset (h : Heap) (ptr : Nat) (value : Byte) (n : Nat) : Heap :=
  if securityValidateMemoryAccess h.regions ptr n true then
    { h with mem := h.mem.fill ptr n value }
  else h

def Heap.setInUse (h : Heap) (c : SizeClass) (i : BlockIndex) (inUse : Bool) : Heap :=
  { h with blocks := h.blocks.set c i { h.blocks c i with inUse := inUse } }

def findSizeClass (size : Nat) : Option SizeClass :=
  Table.first? fun c => decide (size ≤ blockSizes c)

/-- `alloc_memory`; `none` is the null pointer. -/
def allocMemory (h : Heap) (size : Nat) : Option Nat × Heap :=
  if size = 0 then (none, h)
  else if memMaxAllocSize < size then (none, h)
  else
    match findSizeClass size with
    | none => (none, h)
    | some c =>
        match Table.first? fun i => !(h.blocks c i).inUse with
        | none => (none, h)
        | some i =>
            (some (h.blocks c i).address,
              (h.setInUse c i true).memset (h.blocks c i).address 0 (h.blocks c i).size)

/-- `free_memory`. -/
def freeMemory (h : Heap) (ptr : Nat) : Heap :=
  if ptr = 0 then h
  else if ptr < heapStart ∨ heapEnd ≤ ptr then h
  else
    match allBlocks.find? fun b =>
        decide ((h.blocks b.1 b.2).address = ptr) && (h.blocks b.1 b.2).inUse with
    | none => h
    | some (c, i) => (h.memset ptr 0 (h.blocks c i).size).setInUse c i false

/-! ## What the two calls do to a well laid out heap -/

/-- Where `memory_init` puts the blocks. -/
def blockAddress (c : SizeClass) (i : BlockIndex) : Nat :=
  match c with
  | 0 => heapStart + 64 * i
  | 1 => heapStart + 2048 + 256 * i
  | 2 => heapStart + 10240 + 1024 * i
  | 3 => heapStart + 43008 + 4096 * i

/-- The addresses and sizes of the block table are the ones of `memory_init`. -/
def Heap.LaidOut (h : Heap) : Prop :=
  ∀ c i, (h.blocks c i).address = blockAddress c i ∧ (h.blocks c i).size = blockSizes c

theorem memoryInit_eq (c : SizeClass) (i : BlockIndex) :
    memoryInit c i = ⟨blockAddress c i, false, blockSizes c⟩ := by
  revert c i
  decide +kernel

theorem memoryInit_laidOut (mem : Mem) (regions : List MemRegion) :
    (Heap.mk mem memoryInit regions).LaidOut := fun c i => by
  simp [memoryInit_eq]

variable {h : Heap} {c : SizeClass} {i : BlockIndex}

@[simp] theorem BlockTable.set_self (blocks : BlockTable) (b : MemBlock) :
    blocks.set c i b c i = b := by
  simp [BlockTable.set]

theorem BlockTable.set_other (blocks : BlockTable) (b : MemBlock) {c' : SizeClass}
    {i' : BlockIndex} (other : ¬(c' = c ∧ i' = i)) : blocks.set c i b c' i' = blocks c' i' := by
  simp [BlockTable.set, other]

@[simp] theorem Heap.memset_blocks (h : Heap) (ptr : Nat) (v : Byte) (n : Nat) :
    (h.memset ptr v n).blocks = h.blocks := by
  unfold Heap.memset; split <;> rfl

@[simp] theorem Heap.memset_regions (h : Heap) (ptr : Nat) (v : Byte) (n : Nat) :
    (h.memset ptr v n).regions = h.regions := by
  unfold Heap.memset; split <;> rfl

@[simp] theorem Heap.setInUse_regions (b : Bool) : (h.setInUse c i b).regions = h.regions := rfl

@[simp] theorem Heap.setInUse_self (b : Bool) :
    ((h.setInUse c i b).blocks c i).inUse = b := by
  simp [Heap.setInUse]

theorem Heap.setInUse_other (b : Bool) {c' : SizeClass} {i' : BlockIndex}
    (other : ¬(c' = c ∧ i' = i)) : (h.setInUse c i b).blocks c' i' = h.blocks c' i' :=
  BlockTable.set_other _ _ other

theorem Heap.memset_eqOn (h : Heap) (ptr : Nat) (v : Byte) (n : Nat) {a k : Nat}
    (apart : a + k ≤ ptr ∨ ptr + n ≤ a) : Mem.EqOn (h.memset ptr v n).mem h.mem a k := by
  unfold Heap.memset
  split
  · exact Mem.fill_eqOn h.mem v apart
  · exact Mem.EqOn.refl

theorem Heap.LaidOut.setInUse (laid : h.LaidOut) (b : Bool) : (h.setInUse c i b).LaidOut := by
  intro c' i'
  by_cases same : c' = c ∧ i' = i
  · obtain ⟨rfl, rfl⟩ := same
    simpa [Heap.setInUse] using laid c' i'
  · rw [Heap.setInUse_other b same]
    exact laid c' i'

theorem Heap.LaidOut.memset (laid : h.LaidOut) (ptr : Nat) (v : Byte) (n : Nat) :
    (h.memset ptr v n).LaidOut := by
  intro c' i'
  rw [Heap.memset_blocks]
  exact laid c' i'

/-- A request of at most 64 bytes is served by the first free block of the first class. -/
theorem allocMemory_small {n : Nat} (laid : h.LaidOut) (pos : 0 < n) (small : n ≤ 64) :
    allocMemory h n =
      match Table.first? fun i => !(h.blocks 0 i).inUse with
      | none => (none, h)
      | some i =>
          (some (blockAddress 0 i), (h.setInUse 0 i true).memset (blockAddress 0 i) 0 64) := by
  have nonzero : n ≠ 0 := by omega
  have bounded : ¬memMaxAllocSize < n := by simp only [memMaxAllocSize]; omega
  have first : findSizeClass n = some 0 :=
    Table.first?_eq_some_iff.mpr ⟨decide_eq_true small, fun j hj => by omega⟩
  simp only [allocMemory, nonzero, bounded, first, if_false, (laid 0 _).1, (laid 0 _).2]
  rfl

theorem blockAddress_inj {c c' : SizeClass} {i i' : BlockIndex}
    (same : blockAddress c i = blockAddress c' i') : c = c' ∧ i = i' := by
  have hi := i.isLt
  have hi' := i'.isLt
  fin_cases c <;> fin_cases c' <;> simp only [blockAddress] at same <;>
    first
    | exact ⟨rfl, Fin.ext (by omega)⟩
    | omega

theorem blockAddress_inside (c : SizeClass) (i : BlockIndex) :
    heapStart ≤ blockAddress c i ∧ blockAddress c i < heapEnd := by
  have hi := i.isLt
  fin_cases c <;> simp only [blockAddress, heapStart, heapEnd] <;> omega

/-- Freeing the start of a block in use clears that block and no other. -/
theorem freeMemory_block (laid : h.LaidOut) (used : (h.blocks c i).inUse = true) :
    freeMemory h (blockAddress c i) =
      (h.memset (blockAddress c i) 0 (blockSizes c)).setInUse c i false := by
  have inside := blockAddress_inside c i
  have nonzero : blockAddress c i ≠ 0 := by simp only [heapStart] at inside; omega
  have within : ¬(blockAddress c i < heapStart ∨ heapEnd ≤ blockAddress c i) := by omega
  have found : (allBlocks.find? fun b => decide ((h.blocks b.1 b.2).address = blockAddress c i) &&
      (h.blocks b.1 b.2).inUse) = some (c, i) := by
    cases search : allBlocks.find? _ with
    | none =>
        have := List.find?_eq_none.mp search (c, i) (by simp [allBlocks])
        simp [(laid c i).1, used] at this
    | some b =>
        have hit := List.find?_some search
        simp only [(laid b.1 b.2).1, Bool.and_eq_true, decide_eq_true_eq] at hit
        obtain ⟨hc, hi⟩ := blockAddress_inj hit.1
        rw [← hc, ← hi]
  simp only [freeMemory, nonzero, within, found, if_false, (laid c i).2]

end LughOS.Kernel

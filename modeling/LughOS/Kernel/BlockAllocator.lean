import LughOS.Kernel.MemoryGate
import LughOS.Kernel.Ownership
import LughOS.Kernel.Syscalls
import LughOS.Library.Runs

/-!
# The block allocator

Runs of `alloc_memory` and `free_memory` after `memory_init`, with any sizes and any pointers. In
between the owners of the blocks may store what they like, and at some point
`security_regions_init` fills the region table from the link layout. A run notes which pointers
are outstanding: returned, and not given back since.

Both calls clear blocks through `memset`, which asks the access gate. The heap may be written
before the table is filled and after, because the only region without write permission that the
linker places is that of the code, and it is apart from the heap.
-/

namespace LughOS.Kernel

/-! ## The regions of the link layout -/

/-- The linker symbols that `security_regions_init` reads. -/
structure LinkLayout where
  textStart : BitVec 32
  rodataEnd : BitVec 32
  dataStart : BitVec 32
  bssEnd : BitVec 32
  code : textStart < rodataEnd
  apart : rodataEnd.toNat ≤ heapStart ∨ heapEnd ≤ textStart.toNat

/-- A kernel that starts where the ARM build puts it. -/
example : Nonempty LinkLayout := ⟨⟨0x10000, 0x60000, 0x60000, 0x80000, by decide, by decide⟩⟩

namespace LinkLayout

/-- The `region_add` calls of `security_regions_init`. -/
def regionCalls (l : LinkLayout) : List (ProtectedRegion 32) :=
  [⟨0x0, 0xFFF, false, false, false⟩,
    ⟨l.textStart, l.rodataEnd - 1, true, false, true⟩,
    ⟨l.dataStart, l.bssEnd - 1, true, true, false⟩,
    ⟨BitVec.ofNat 32 heapStart, BitVec.ofNat 32 heapEnd - 1, true, true, false⟩,
    ⟨BitVec.ofNat 32 mmUserLoadBase, BitVec.ofNat 32 mmUserRegionEnd - 1, true, true, true⟩]

/-- `security_regions_init`. -/
def securityRegionsInit (l : LinkLayout) : RegionTable 32 := RegionTable.ofCalls l.regionCalls

/-- The table as the gate on numbers reads it. -/
def regions (l : LinkLayout) : List MemRegion :=
  l.securityRegionsInit.stored.map ProtectedRegion.toMemRegion

end LinkLayout

/-- A region is in the table only if a call added it. -/
theorem RegionTable.mem_ofCalls {N : Nat} {calls : List (ProtectedRegion N)}
    {r : ProtectedRegion N} (member : r ∈ (ofCalls calls).stored) : r ∈ calls := by
  induction calls using List.reverseRecOn with
  | nil => exact member
  | append_singleton calls last ih =>
      rw [ofCalls, List.foldl_append, List.foldl_cons, List.foldl_nil] at member
      change r ∈ ((ofCalls calls).regionAdd last).stored at member
      rw [List.mem_append]
      unfold regionAdd at member
      split at member
      · exact .inl (ih member)
      split at member
      · exact .inl (ih member)
      · exact (List.mem_append.mp member).imp_left ih

theorem LinkLayout.admits (l : LinkLayout) : Admits l.regions := by
  intro r member
  obtain ⟨region, stored, rfl⟩ := List.mem_map.mp member
  have called := RegionTable.mem_ofCalls stored
  have code := l.code
  have apart := l.apart
  simp only [regionCalls, List.mem_cons, List.not_mem_nil, or_false] at called
  simp only [ProtectedRegion.toMemRegion, heapStart, heapEnd] at apart ⊢
  rcases called with rfl | rfl | rfl | rfl | rfl
  · exact .inl (by decide)
  · have last : (l.rodataEnd - 1).toNat = l.rodataEnd.toNat - 1 := by bv_omega
    simp only [last]
    bv_omega
  · exact .inr (.inr ⟨rfl, rfl⟩)
  · exact .inr (.inr ⟨rfl, rfl⟩)
  · exact .inr (.inr ⟨rfl, rfl⟩)

/-! ## One call -/

/-- The bytes of a block, as the table has it. -/
def Heap.range (h : Heap) (b : Block) : Set Nat :=
  Set.Ico (h.blocks b.1 b.2).address ((h.blocks b.1 b.2).address + (h.blocks b.1 b.2).size)

/-- The bytes of the allocation at a pointer. -/
def Heap.extent (h : Heap) (ptr : Nat) : Set Nat :=
  {x | ∃ b : Block, (h.blocks b.1 b.2).address = ptr ∧ x ∈ h.range b}

/-- The smallest class whose blocks have room for a request. -/
def SmallestFit (size : Nat) (c : SizeClass) : Prop :=
  size ≤ blockSizes c ∧ ∀ c' < c, blockSizes c' < size

section Calls

variable {h : Heap} {b b' : Block}

theorem smallestFit_iff {size : Nat} {c : SizeClass} :
    findSizeClass size = some c ↔ SmallestFit size c := by
  rw [findSizeClass, Table.first?_eq_some_iff, SmallestFit]
  simp only [decide_eq_true_eq, decide_eq_false_iff_not, Nat.not_le]

theorem Heap.LaidOut.range_eq (laid : h.LaidOut) (b : Block) :
    h.range b = Set.Ico b.address (b.address + b.size) := by
  rw [Heap.range, (laid b.1 b.2).1, (laid b.1 b.2).2]
  rfl

theorem Heap.LaidOut.range_inside (laid : h.LaidOut) (b : Block) :
    h.range b ⊆ Set.Ico heapStart heapEnd := by
  rw [laid.range_eq]
  have inside := b.inside
  exact Set.Ico_subset_Ico inside.1 inside.2

theorem Heap.LaidOut.range_disjoint (laid : h.LaidOut) (other : b ≠ b') :
    Disjoint (h.range b) (h.range b') := by
  rw [laid.range_eq, laid.range_eq, Set.disjoint_left]
  intro x inside inside'
  rw [Set.mem_Ico] at inside inside'
  have apart := Block.apart other
  omega

/-- A block that `alloc_memory` returns is clear, since the gate lets `memset` have it. -/
theorem memset_clears (admits : Admits h.regions) (b : Block) (x : Nat)
    (inside : x ∈ Set.Ico b.address (b.address + b.size)) :
    (h.memset b.address 0 b.size).mem x = 0 := by
  have place := b.inside
  have large := b.size_ge
  have writable : securityValidateMemoryAccess h.regions b.address b.size true = true :=
    admits.validate place.1 (by omega) place.2 true
  rw [Heap.memset, if_pos writable]
  exact if_pos inside

theorem freeMemory_other {ptr : Nat} (laid : h.LaidOut)
    (other : ¬∃ b : Block, h.Used b ∧ ptr = b.address) : freeMemory h ptr = h := by
  unfold freeMemory
  split
  · rfl
  split
  · rfl
  split
  · rfl
  rename_i c i found
  have hit := List.find?_some found
  simp only [Bool.and_eq_true, decide_eq_true_eq] at hit
  exact absurd ⟨(c, i), hit.2, by rw [← hit.1, (laid c i).1]; rfl⟩ other

theorem freeMemory_ne_iff {ptr : Nat} (laid : h.LaidOut) :
    freeMemory h ptr ≠ h ↔ ∃ b : Block, h.Used b ∧ ptr = b.address := by
  constructor
  · intro changed
    by_contra other
    exact changed (freeMemory_other laid other)
  · rintro ⟨b, used, rfl⟩ same
    exact (freeMemory_spec laid used).1 (same.symm ▸ used)

end Calls

/-! ## Runs -/

inductive HeapCall where
  | allocMemory (size : Nat)
  | freeMemory (ptr : Nat)
  /-- Whatever is stored between two calls. -/
  | store (mem : Mem)
  | securityRegionsInit

/-- The allocator and the pointers it has returned that were not given back. -/
structure HeapRun where
  heap : Heap
  outstanding : Finset Nat

namespace HeapRun

/-- After `memory_init`, with an empty region table. -/
def start (mem : Mem) : HeapRun := ⟨⟨mem, memoryInit, []⟩, ∅⟩

def step (link : LinkLayout) (s : HeapRun) : HeapCall → HeapRun
  | .allocMemory size =>
      { heap := (allocMemory s.heap size).2
        outstanding := (allocMemory s.heap size).1.elim s.outstanding (insert · s.outstanding) }
  | .freeMemory ptr =>
      { heap := freeMemory s.heap ptr, outstanding := s.outstanding.erase ptr }
  | .store mem => { s with heap := { s.heap with mem := mem } }
  | .securityRegionsInit => { s with heap := { s.heap with regions := link.regions } }

/-- The table is as `memory_init` made it, the gate lets the heap be written, and the blocks in use
are the outstanding ones. -/
structure Sound (s : HeapRun) : Prop where
  laid : s.heap.LaidOut
  admits : Admits s.heap.regions
  outstanding : ∀ ptr, ptr ∈ s.outstanding ↔ ∃ b : Block, s.heap.Used b ∧ ptr = b.address

variable {link : LinkLayout} {s : HeapRun}

theorem sound_start (mem : Mem) : (start mem).Sound where
  laid := memoryInit_laidOut mem []
  admits := fun _ member => by cases member
  outstanding ptr := by simp [start, Heap.Used, memoryInit_eq]

theorem Sound.allocMemory (sound : s.Sound) (size : Nat) :
    (s.step link (.allocMemory size)).Sound := by
  obtain failed | ⟨b, h', taken, -, free, used, touches⟩ := allocMemory_spec sound.laid size
  · have same : s.step link (.allocMemory size) = s := by simp [step, failed]
    rwa [same]
  · have after : s.step link (.allocMemory size) = ⟨h', insert b.address s.outstanding⟩ := by
      simp [step, taken]
    rw [after]
    refine ⟨touches.laid, by rw [touches.regions]; exact sound.admits, fun ptr => ?_⟩
    rw [Finset.mem_insert, sound.outstanding]
    constructor
    · rintro (rfl | ⟨b', before, rfl⟩)
      · exact ⟨b, used, rfl⟩
      · have other : b' ≠ b := by
          rintro rfl
          exact free before
        exact ⟨b', (touches.others b' other).mpr before, rfl⟩
    · rintro ⟨b', now, rfl⟩
      by_cases same : b' = b
      · exact .inl (by rw [same])
      · exact .inr ⟨b', (touches.others b' same).mp now, rfl⟩

theorem Sound.freeMemory (sound : s.Sound) (ptr : Nat) :
    (s.step link (.freeMemory ptr)).Sound := by
  by_cases member : ptr ∈ s.outstanding
  · obtain ⟨b, used, rfl⟩ := (sound.outstanding ptr).mp member
    obtain ⟨freed, touches⟩ := freeMemory_spec sound.laid used
    refine ⟨touches.laid, ?_, fun ptr => ?_⟩
    · rw [show (s.step link (.freeMemory b.address)).heap.regions = s.heap.regions from
        touches.regions]
      exact sound.admits
    · simp only [step, Finset.mem_erase, sound.outstanding]
      constructor
      · rintro ⟨different, b', before, rfl⟩
        have other : b' ≠ b := fun same => different (same ▸ rfl)
        exact ⟨b', (touches.others b' other).mpr before, rfl⟩
      · rintro ⟨b', now, rfl⟩
        have other : b' ≠ b := by
          rintro rfl
          exact freed now
        have before := (touches.others b' other).mp now
        exact ⟨fun same => other (Block.address_inj same), b', before, rfl⟩
  · have same : s.step link (.freeMemory ptr) = s := by
      simp only [step, Finset.erase_eq_of_notMem member,
        freeMemory_other sound.laid (mt (sound.outstanding ptr).mpr member)]
    rwa [same]

/-- The memory and the region table do not concern the allocator, as long as the heap is open. -/
theorem Sound.replace (sound : s.Sound) (mem : Mem) {regions : List MemRegion}
    (admits : Admits regions) : Sound ⟨⟨mem, s.heap.blocks, regions⟩, s.outstanding⟩ :=
  ⟨sound.laid, admits, sound.outstanding⟩

theorem step_sound (link : LinkLayout) (s : HeapRun) (call : HeapCall) (sound : s.Sound) :
    (s.step link call).Sound := by
  cases call with
  | allocMemory size => exact sound.allocMemory size
  | freeMemory ptr => exact sound.freeMemory ptr
  | store mem => exact sound.replace mem sound.admits
  | securityRegionsInit => exact sound.replace s.heap.mem link.admits

/-- What `alloc_memory` is to do. -/
structure AllocSpec (s : HeapRun) (size : Nat) : Prop where
  /-- It fails for a size it does not serve and for want of a free block. -/
  fails : (Kernel.allocMemory s.heap size).1 = none ↔
    size = 0 ∨ 4096 < size ∨ ∃ c, SmallestFit size c ∧ ∀ i, s.heap.Used (c, i)
  /-- Otherwise it returns a free block that is large enough and all zero. -/
  succeeds : ∀ ptr, (Kernel.allocMemory s.heap size).1 = some ptr →
    ∃ b : Block, ptr = (s.heap.blocks b.1 b.2).address ∧ ¬s.heap.Used b ∧ SmallestFit size b.1 ∧
      size ≤ (s.heap.blocks b.1 b.2).size ∧
      ∀ x ∈ s.heap.range b, (Kernel.allocMemory s.heap size).2.mem x = 0

theorem Sound.allocSpec (sound : s.Sound) (size : Nat) : s.AllocSpec size := by
  obtain ⟨failed, why⟩ | ⟨b, nonzero, bounded, fits, free, taken⟩ :=
    allocMemory_cases sound.laid size
  · simp only [smallestFit_iff, memMaxAllocSize] at why
    refine ⟨iff_of_true (by rw [failed]) why, fun ptr some => ?_⟩
    rw [failed] at some
    cases some
  · have fit := smallestFit_iff.mp fits
    constructor
    · refine iff_of_false (by simp [taken]) ?_
      rintro (zero | large | ⟨c, smallest, full⟩)
      · exact nonzero zero
      · exact absurd large (Nat.not_lt.mpr bounded)
      · have same : some b.1 = some c := fits.symm.trans (smallestFit_iff.mpr smallest)
        obtain rfl := Option.some.inj same
        exact free (full b.2)
    · intro ptr returned
      rw [taken] at returned
      obtain rfl := Option.some.inj returned
      refine ⟨b, (sound.laid b.1 b.2).1.symm, free, fit, ?_, fun x inside => ?_⟩
      · rw [(sound.laid b.1 b.2).2]
        exact fit.1
      · rw [sound.laid.range_eq] at inside
        rw [taken]
        exact memset_clears (by simpa using sound.admits) b x inside

/-- What `free_memory` is to do. -/
structure FreeSpec (s : HeapRun) (ptr : Nat) : Prop where
  /-- It does something just for the start of a block in use. -/
  acts : Kernel.freeMemory s.heap ptr ≠ s.heap ↔
    ∃ b : Block, s.heap.Used b ∧ ptr = (s.heap.blocks b.1 b.2).address
  /-- Then it frees that block and leaves the rest of the heap alone. -/
  frees : ∀ b : Block, s.heap.Used b → ptr = (s.heap.blocks b.1 b.2).address →
    (∀ b' : Block, (Kernel.freeMemory s.heap ptr).Used b' ↔ s.heap.Used b' ∧ b' ≠ b) ∧
      ∀ x, x ∉ s.heap.range b → (Kernel.freeMemory s.heap ptr).mem x = s.heap.mem x

theorem Sound.freeSpec (sound : s.Sound) (ptr : Nat) : s.FreeSpec ptr := by
  have address (b : Block) : (s.heap.blocks b.1 b.2).address = b.address := (sound.laid b.1 b.2).1
  constructor
  · simp only [address]
    exact freeMemory_ne_iff sound.laid
  · intro b used start
    rw [address] at start
    subst start
    obtain ⟨freed, touches⟩ := freeMemory_spec sound.laid used
    refine ⟨fun b' => ?_, fun x outside => ?_⟩
    · by_cases same : b' = b
      · subst same
        exact iff_of_false freed fun both => both.2 rfl
      · rw [touches.others b' same]
        exact (and_iff_left same).symm
    · rw [sound.laid.range_eq, Set.mem_Ico] at outside
      exact touches.mem (n := 1) (by omega) x le_rfl (by omega)

theorem Sound.disjoint (sound : s.Sound) :
    (s.outstanding : Set Nat).PairwiseDisjoint s.heap.extent := by
  intro ptr _ ptr' _ different
  refine Set.disjoint_left.mpr ?_
  rintro x ⟨b, rfl, inside⟩ ⟨b', rfl, inside'⟩
  have other : b ≠ b' := fun same => different (by rw [same])
  exact Set.disjoint_left.mp (sound.laid.range_disjoint other) inside inside'

end HeapRun

/-- After every sequence of calls the blocks are apart and inside the heap, both calls do what
they are to do, and the outstanding allocations do not overlap. -/
theorem blockAllocator_correct (link : LinkLayout) (mem : Mem) (calls : List HeapCall) :
    let s := Runs.after (HeapRun.step link) (HeapRun.start mem) calls
    (∀ b, s.heap.range b ⊆ Set.Ico heapStart heapEnd) ∧
      (∀ b b' : Block, b ≠ b' → Disjoint (s.heap.range b) (s.heap.range b')) ∧
      (∀ size, s.AllocSpec size) ∧ (∀ ptr, s.FreeSpec ptr) ∧
      (∀ ptr ∈ s.outstanding, ∃ b : Block, s.heap.Used b ∧
        ptr = (s.heap.blocks b.1 b.2).address) ∧
      (s.outstanding : Set Nat).PairwiseDisjoint s.heap.extent := by
  intro s
  have sound : s.Sound :=
    Runs.invariant_after (HeapRun.sound_start mem) (HeapRun.step_sound link) calls
  refine ⟨sound.laid.range_inside, fun b b' => sound.laid.range_disjoint, sound.allocSpec,
    sound.freeSpec, fun ptr member => ?_, sound.disjoint⟩
  obtain ⟨b, used, start⟩ := (sound.outstanding ptr).mp member
  exact ⟨b, used, start.trans (sound.laid b.1 b.2).1.symm⟩

end LughOS.Kernel

import LughOS.Kernel.PoolInvariant
import LughOS.Kernel.Syscalls

/-!
# The memory map

The page frame allocator of `frames.c` next to the block allocator of `memory.c`. The heap of
the latter starts where the user region ends. The pool of the former has 1024 frames from
`0x200000` on, and the upper half of it is in the user region: frame 512 is the page at which
user programs are loaded.

`alloc_frame` takes the lowest free frame. So it stays below the user region as long as one of
the lower 512 frames is free, and that is the exact condition.
-/

namespace LughOS.Kernel

/-! ## The frame allocator -/

def framePoolBase : BitVec 32 := 0x200000
def mmFrameSize : BitVec 32 := 4096

def framePoolFrames : Nat := 1024

abbrev FrameIndex := Fin framePoolFrames

theorem bitmapWord_lt (i : FrameIndex) : i.val / 32 < 32 := by
  have small : i.val < 1024 := i.isLt
  omega

/-- The word of the bitmap that holds the bit of a frame. -/
def bitmapWord (i : FrameIndex) : Fin 32 := ⟨i.val / 32, bitmapWord_lt i⟩

def bitmapBit (i : FrameIndex) : BitVec 32 := 1#32 <<< (i.val % 32)

/-- The statics of `frames.c`. -/
structure Frames where
  frameBitmap : Fin 32 → BitVec 32
  framesFree : BitVec 32

namespace Frames

def frameAllocatorInit : Frames := ⟨fun _ => 0, 1024⟩

def Used (f : Frames) (i : FrameIndex) : Prop := f.frameBitmap (bitmapWord i) &&& bitmapBit i ≠ 0#32

instance (f : Frames) (i : FrameIndex) : Decidable (f.Used i) := inferInstanceAs (Decidable (_ ≠ _))

/-- The scan of `alloc_frame`. It is irreducible because the unfolded scan has 1024 rounds. -/
@[irreducible] def firstFree (f : Frames) : Option FrameIndex :=
  Table.first? fun i => !decide (f.Used i)

/-- `alloc_frame`; 0 is its failure. -/
def allocFrame (f : Frames) : BitVec 32 × Frames :=
  match f.firstFree with
  | none => (0, f)
  | some i =>
      (framePoolBase + BitVec.ofNat 32 i.val * mmFrameSize,
        { frameBitmap := Function.update f.frameBitmap (bitmapWord i)
            (f.frameBitmap (bitmapWord i) ||| bitmapBit i)
          framesFree := f.framesFree - 1 })

/-- The frame that `free_frame` accepts an address for. -/
def frameOf? (physAddr : BitVec 32) : Option FrameIndex :=
  if physAddr < framePoolBase then none
  else if physAddr &&& (mmFrameSize - 1) ≠ 0 then none
  else
    let idx := (physAddr - framePoolBase).toNat / 4096
    if h : idx < framePoolFrames then some ⟨idx, h⟩ else none

def freeFrame (f : Frames) (physAddr : BitVec 32) : Frames :=
  match frameOf? physAddr with
  | none => f
  | some i =>
      if f.Used i then
        { frameBitmap := Function.update f.frameBitmap (bitmapWord i)
            (f.frameBitmap (bitmapWord i) &&& ~~~bitmapBit i)
          framesFree := f.framesFree + 1 }
      else f

end Frames

/-! ## Runs -/

structure Allocators where
  frames : Frames
  heap : Heap

inductive AllocatorCall where
  | allocFrame
  | freeFrame (physAddr : BitVec 32)
  | allocMemory (size : Nat)
  | freeMemory (ptr : Nat)

def allocatorStep (s : Allocators) : AllocatorCall → Allocators
  | .allocFrame => { s with frames := s.frames.allocFrame.2 }
  | .freeFrame physAddr => { s with frames := s.frames.freeFrame physAddr }
  | .allocMemory size => { s with heap := (allocMemory s.heap size).2 }
  | .freeMemory ptr => { s with heap := freeMemory s.heap ptr }

/-- What an allocator hands out. -/
inductive Grant where
  | frame (address : Nat)
  | block (address size : Nat)
  deriving DecidableEq

def Grant.bytes : Grant → Set Nat
  | .frame address => Set.Ico address (address + 4096)
  | .block address size => Set.Ico address (address + size)

/-- What a call returns, as memory. -/
def granted (s : Allocators) : AllocatorCall → List Grant
  | .allocFrame =>
      if s.frames.allocFrame.1 = 0 then [] else [.frame s.frames.allocFrame.1.toNat]
  | .allocMemory size =>
      (allocMemory s.heap size).1.toList.map fun address =>
        .block address ((findSizeClass size).elim 0 blockSizes)
  | _ => []

def userRegion : Set Nat := Set.Ico mmUserLoadBase mmUserRegionEnd

/-- Nothing that was handed out is user memory, and no frame overlaps a block. -/
structure Apart (grants : List Grant) : Prop where
  user : ∀ g ∈ grants, Disjoint g.bytes userRegion
  frames_blocks : ∀ address address' size, .frame address ∈ grants →
    .block address' size ∈ grants →
      Disjoint (Grant.frame address).bytes (Grant.block address' size).bytes

/-- After `frame_allocator_init` and `memory_init`. -/
def Allocators.start (mem : Mem) (regions : List MemRegion) : Allocators where
  frames := .frameAllocatorInit
  heap := ⟨mem, memoryInit, regions⟩

/-- A frame is taken while one of the lower 512 is free, or fails. -/
def TakesLowFrame (s : Allocators) : AllocatorCall → Prop
  | .allocFrame => (∃ i : FrameIndex, i.val < 512 ∧ ¬s.frames.Used i) ∨ ∀ i, s.frames.Used i
  | _ => True

/-! ## What the calls hand out -/

/-- What `alloc_frame` does: it fails if all frames are in use, and otherwise takes the lowest
one that is not. -/
theorem Frames.allocFrame_cases (f : Frames) :
    (f.allocFrame = (0, f) ∧ ∀ i, f.Used i) ∨
      ∃ i : FrameIndex, f.allocFrame.1.toNat = 0x200000 + 4096 * i.val ∧ ¬f.Used i ∧
        (∀ j < i, f.Used j) ∧ f.allocFrame.2.frameBitmap =
          Function.update f.frameBitmap (bitmapWord i)
            (f.frameBitmap (bitmapWord i) ||| bitmapBit i) ∧
        f.allocFrame.2.framesFree = f.framesFree - 1 := by
  cases search : f.firstFree with
  | none =>
      refine .inl ⟨by simp only [allocFrame, search], fun i => ?_⟩
      unfold firstFree at search
      simpa using Table.first?_eq_none_iff.mp search i
  | some i =>
      have found := search
      unfold firstFree at found
      obtain ⟨free, least⟩ := Table.first?_eq_some_iff.mp found
      refine .inr ⟨i, ?_, by simpa using free, fun j below => by simpa using least j below, ?_⟩
      · have small : i.val < 1024 := i.isLt
        simp only [allocFrame, search, framePoolBase, mmFrameSize]
        bv_omega
      · simp only [allocFrame, search, and_self]

theorem mem_granted_allocFrame {s : Allocators} {g : Grant} :
    g ∈ granted s .allocFrame ↔
      s.frames.allocFrame.1 ≠ 0 ∧ g = .frame s.frames.allocFrame.1.toNat := by
  by_cases failed : s.frames.allocFrame.1 = 0 <;> simp [granted, failed]

theorem mem_granted_allocMemory {s : Allocators} (laid : s.heap.LaidOut) {size : Nat} {g : Grant}
    (member : g ∈ granted s (.allocMemory size)) :
    ∃ b : Block, g = .block b.address b.size := by
  obtain failed | ⟨b, h', taken, fits, -⟩ := allocMemory_spec laid size
  · simp [granted, failed] at member
  · refine ⟨b, ?_⟩
    simpa [granted, taken, fits, Block.size] using member

theorem allocatorStep_laidOut {s : Allocators} (laid : s.heap.LaidOut) (call : AllocatorCall) :
    (allocatorStep s call).heap.LaidOut := by
  cases call with
  | allocFrame => exact laid
  | freeFrame physAddr => exact laid
  | allocMemory size =>
      obtain failed | ⟨b, h', taken, -, -, -, touches⟩ := allocMemory_spec laid size
      · simpa [allocatorStep, failed] using laid
      · simpa [allocatorStep, taken] using touches.laid
  | freeMemory ptr => exact freeMemory_laidOut laid ptr

/-- Where each allocator has its memory. -/
def Grant.InPlace : Grant → Prop
  | .frame address => address + 4096 ≤ 0x600000
  | .block address _ => heapStart ≤ address

theorem granted_inPlace {s : Allocators} (laid : s.heap.LaidOut) (call : AllocatorCall) :
    ∀ g ∈ granted s call, g.InPlace := by
  intro g member
  cases call with
  | allocFrame =>
      obtain ⟨nonzero, rfl⟩ := mem_granted_allocFrame.mp member
      obtain ⟨failed, -⟩ | ⟨i, address, -⟩ := s.frames.allocFrame_cases
      · exact absurd (congrArg Prod.fst failed) nonzero
      · have small : i.val < 1024 := i.isLt
        rw [Grant.InPlace, address]
        omega
  | allocMemory size =>
      obtain ⟨b, rfl⟩ := mem_granted_allocMemory laid member
      exact (blockAddress_inside b.1 b.2).1
  | freeFrame | freeMemory => cases member

theorem block_disjoint_user (b : Block) :
    Disjoint (Grant.block b.address b.size).bytes userRegion := by
  have above : heapStart ≤ b.address := (blockAddress_inside b.1 b.2).1
  rw [Set.disjoint_left]
  intro x inside user
  simp only [Grant.bytes, userRegion, mmUserLoadBase, mmUserRegionEnd, heapStart, Set.mem_Ico]
    at above inside user
  omega

theorem frame_disjoint_user_iff (i : FrameIndex) :
    Disjoint (Grant.frame (0x200000 + 4096 * i.val)).bytes userRegion ↔ i.val < 512 := by
  have small : i.val < 1024 := i.isLt
  simp only [Grant.bytes, userRegion, mmUserLoadBase, mmUserRegionEnd, Set.disjoint_left,
    Set.mem_Ico]
  constructor
  · intro apart
    have := apart (a := 0x200000 + 4096 * i.val) ⟨le_rfl, by omega⟩
    omega
  · intro low x inside
    omega

/-- What a call hands out is outside the user region just if it takes a low frame. -/
theorem granted_user_iff {s : Allocators} (laid : s.heap.LaidOut) (call : AllocatorCall) :
    (∀ g ∈ granted s call, Disjoint g.bytes userRegion) ↔ TakesLowFrame s call := by
  cases call with
  | allocFrame =>
      simp only [mem_granted_allocFrame, and_imp, forall_eq_apply_imp_iff, TakesLowFrame]
      obtain ⟨failed, full⟩ | ⟨i, address, free, below, -⟩ := s.frames.allocFrame_cases
      · exact iff_of_true (fun nonzero => absurd (congrArg Prod.fst failed) nonzero) (.inr full)
      · have nonzero : s.frames.allocFrame.1 ≠ 0 := by
          intro zero
          rw [zero] at address
          simp only [BitVec.ofNat_eq_ofNat, BitVec.toNat_ofNat] at address
          omega
        rw [address, frame_disjoint_user_iff]
        simp only [ne_eq, nonzero, not_false_eq_true, forall_const]
        constructor
        · exact fun low => .inl ⟨i, low, free⟩
        · rintro (⟨j, low, free'⟩ | full)
          · by_contra high
            exact free' (below j (Fin.lt_def.mpr (by omega)))
          · exact absurd (full i) free
  | allocMemory size =>
      refine iff_of_true (fun g member => ?_) trivial
      obtain ⟨b, rfl⟩ := mem_granted_allocMemory laid member
      exact block_disjoint_user b
  | freeFrame | freeMemory => exact iff_of_true (fun g member => by cases member) trivial

/-- The allocators keep apart from user memory, and from each other, just if every frame is
taken while one of the lower 512 frames is free. -/
theorem allocators_apart_iff (mem : Mem) (regions : List MemRegion) (calls : List AllocatorCall) :
    Apart (Runs.outputs allocatorStep granted (.start mem regions) calls) ↔
      Runs.Meets allocatorStep TakesLowFrame (.start mem regions) calls := by
  let LaidOut (s : Allocators) : Prop := s.heap.LaidOut
  have laid : LaidOut (.start mem regions) := memoryInit_laidOut mem regions
  have keeps : ∀ s call, LaidOut s → True → LaidOut (allocatorStep s call) :=
    fun s call laid _ => allocatorStep_laidOut laid call
  have run : Runs.Meets allocatorStep (fun _ _ => True) (.start mem regions) calls :=
    Runs.meets_true _ _
  have low := Runs.meets_congr laid keeps (fun s call laid _ => granted_user_iff laid call) run
  have inPlace := (Runs.forall_outputs_iff _ _ _ _).mpr ((Runs.meets_congr laid keeps
    (fun s call laid _ => iff_of_true trivial (granted_inPlace laid call)) run).mp run)
  rw [← low, ← Runs.forall_outputs_iff]
  refine ⟨Apart.user, fun user => ⟨user, fun address address' size frame block => ?_⟩⟩
  have first : address + 4096 ≤ 0x600000 := inPlace _ frame
  have second : heapStart ≤ address' := inPlace _ block
  rw [Set.disjoint_left]
  intro x inside inside'
  simp only [Grant.bytes, heapStart, Set.mem_Ico] at second inside inside'
  omega

/-! ## The upper half of the pool -/

namespace Frames

theorem used_iff (f : Frames) (i : FrameIndex) :
    f.Used i ↔ (f.frameBitmap (bitmapWord i)).getLsbD (i.val % 32) = true :=
  and_bit_ne_zero _ (Nat.mod_lt _ (by decide))

theorem getLsbD_bitmapBit (i j : FrameIndex) :
    (bitmapBit i).getLsbD (j.val % 32) = decide (j.val % 32 = i.val % 32) := by
  have small : j.val % 32 < 32 := Nat.mod_lt _ (by decide)
  rw [bitmapBit, BitVec.getLsbD_shiftLeft, BitVec.getLsbD_one, Bool.eq_iff_iff]
  simp only [Bool.and_eq_true, decide_eq_true_eq, Bool.not_eq_true', decide_eq_false_iff_not]
  omega

theorem bitmap_position {i j : FrameIndex} (word : bitmapWord j = bitmapWord i) :
    j.val % 32 = i.val % 32 ↔ j = i := by
  have : j.val / 32 = i.val / 32 := congrArg Fin.val word
  rw [Fin.ext_iff]
  omega

theorem used_set {f f' : Frames} {i : FrameIndex} (set : f'.frameBitmap =
      Function.update f.frameBitmap (bitmapWord i) (f.frameBitmap (bitmapWord i) ||| bitmapBit i))
    (j : FrameIndex) : f'.Used j ↔ j = i ∨ f.Used j := by
  rw [used_iff, used_iff, set]
  by_cases word : bitmapWord j = bitmapWord i
  · rw [word, Function.update_self, BitVec.getLsbD_or, getLsbD_bitmapBit, Bool.or_eq_true,
      decide_eq_true_eq, bitmap_position word, or_comm]
  · rw [Function.update_of_ne word]
    refine (or_iff_right ?_).symm
    rintro rfl
    exact word rfl

/-- Just the first `k` frames are in use. -/
def FilledTo (k : Nat) (f : Frames) : Prop := ∀ i, f.Used i ↔ i.val < k

theorem FilledTo.allocFrame {k : Nat} {f : Frames} (filled : f.FilledTo k) (room : k < 1024) :
    f.allocFrame.1.toNat = 0x200000 + 4096 * k ∧ f.allocFrame.2.FilledTo (k + 1) := by
  obtain ⟨-, full⟩ | ⟨i, address, free, below, set, -⟩ := f.allocFrame_cases
  · have := (filled ⟨k, room⟩).mp (full _)
    exact absurd this (Nat.lt_irrefl k)
  · have lower : ¬i.val < k := mt (filled i).mpr free
    have upper : ¬k < i.val := fun above =>
      Nat.lt_irrefl k ((filled ⟨k, room⟩).mp (below _ (Fin.lt_def.mpr above)))
    obtain rfl : i.val = k := by omega
    refine ⟨address, fun j => ?_⟩
    rw [used_set set, filled j, Fin.ext_iff]
    omega

end Frames

theorem filled_after (mem : Mem) (regions : List MemRegion) {k : Nat} (room : k ≤ 1024) :
    (Runs.after allocatorStep (.start mem regions)
      (List.replicate k .allocFrame)).frames.FilledTo k := by
  induction k with
  | zero =>
      intro i
      simp [Frames.used_iff, Allocators.start, Frames.frameAllocatorInit]
  | succ k ih =>
      rw [List.replicate_succ', Runs.after_concat]
      exact ((ih (by omega)).allocFrame room).2

/-- The frames from 512 on are handed out like the others. -/
theorem allocFrame_granted (mem : Mem) (regions : List MemRegion) {k : Nat} (room : k < 1024) :
    .frame (0x200000 + 4096 * k) ∈ Runs.outputs allocatorStep granted (.start mem regions)
      (List.replicate (k + 1) .allocFrame) := by
  have address := ((filled_after mem regions room.le).allocFrame room).1
  rw [List.replicate_succ', Runs.outputs_concat, List.mem_append, mem_granted_allocFrame, address]
  refine .inr ⟨fun zero => ?_, rfl⟩
  rw [zero] at address
  simp only [BitVec.ofNat_eq_ofNat, BitVec.toNat_ofNat] at address
  omega

/-- The 513th frame is the page at which the user program is loaded. -/
theorem frame_at_user_load_base :
    .frame mmUserLoadBase ∈ Runs.outputs allocatorStep granted (.start (fun _ => 0) [])
        (List.replicate 513 .allocFrame) ∧
      ¬Apart (Runs.outputs allocatorStep granted (.start (fun _ => 0) [])
        (List.replicate 513 .allocFrame)) := by
  have frame := allocFrame_granted (fun _ => 0) [] (k := 512) (by decide)
  refine ⟨frame, fun apart => ?_⟩
  have low := (frame_disjoint_user_iff ⟨512, by decide⟩).mp (apart.user _ frame)
  exact absurd low (by decide)

end LughOS.Kernel

import LughOS.Kernel.MemoryMap

/-!
# The page frame allocator

Runs of `alloc_frame` and `free_frame` on the bitmap of `frames.c`. A run notes which addresses
are outstanding: an address becomes so when it is returned, and ceases to be so when it is given
back. The bitmap is a finite set of frames, and the outstanding addresses are theirs.
-/

namespace LughOS.Kernel

/-! ## Addresses of frames -/

def poolFrameAddress (i : FrameIndex) : BitVec 32 :=
  framePoolBase + BitVec.ofNat 32 i.val * mmFrameSize

theorem poolFrameAddress_toNat (i : FrameIndex) :
    (poolFrameAddress i).toNat = 0x200000 + 4096 * i.val := by
  have small : i.val < 1024 := i.isLt
  simp only [poolFrameAddress, framePoolBase, mmFrameSize]
  bv_omega

theorem poolFrameAddress_injective : Function.Injective poolFrameAddress := by
  intro i j same
  have numbers := congrArg BitVec.toNat same
  rw [poolFrameAddress_toNat, poolFrameAddress_toNat] at numbers
  exact Fin.ext (by omega)

theorem poolFrameAddress_ne_zero (i : FrameIndex) : poolFrameAddress i ≠ 0 := by
  intro zero
  have number := congrArg BitVec.toNat zero
  rw [poolFrameAddress_toNat] at number
  simp at number

namespace Frames

variable {f : Frames} {i : FrameIndex}

/-- `free_frame` accepts the addresses of frames and no others. -/
theorem frameOf?_eq_some_iff {address : BitVec 32} :
    frameOf? address = some i ↔ address = poolFrameAddress i := by
  have small : i.val < 1024 := i.isLt
  have aligned : address &&& (mmFrameSize - 1) = 0 ↔ address.toNat % 4096 = 0 := by
    rw [← BitVec.toNat_inj, BitVec.toNat_and]
    exact Eq.congr (Nat.and_two_pow_sub_one_eq_mod _ 12) rfl
  have below : address < framePoolBase ↔ address.toNat < 0x200000 := BitVec.lt_def
  rw [← BitVec.toNat_inj, poolFrameAddress_toNat]
  unfold frameOf?
  split
  · rename_i low
    exact iff_of_false (by simp) fun same => by
      have := below.mp low
      omega
  · rename_i high
    have base : framePoolBase ≤ address := BitVec.not_lt.mp high
    have offset : (address - framePoolBase).toNat = address.toNat - 0x200000 :=
      BitVec.toNat_sub_of_le base
    have above : 0x200000 ≤ address.toNat := Nat.not_lt.mp (mt below.mpr high)
    split
    · rename_i misaligned
      exact iff_of_false (by simp) fun same => by
        have := mt aligned.mpr misaligned
        omega
    · rename_i unit
      have whole := aligned.mp (not_not.mp unit)
      dsimp only
      simp only [offset]
      split
      · simp only [Option.some.injEq, Fin.ext_iff]
        omega
      · rename_i outside
        exact iff_of_false (by simp) fun same => outside (by
          simp only [framePoolFrames]
          omega)

theorem used_clear {f' : Frames} (clear : f'.frameBitmap = Function.update f.frameBitmap
      (bitmapWord i) (f.frameBitmap (bitmapWord i) &&& ~~~bitmapBit i))
    (j : FrameIndex) : f'.Used j ↔ j ≠ i ∧ f.Used j := by
  rw [used_iff, used_iff, clear]
  by_cases word : bitmapWord j = bitmapWord i
  · have small : j.val % 32 < 32 := Nat.mod_lt _ (by decide)
    rw [word, Function.update_self, BitVec.getLsbD_and, BitVec.getLsbD_not, getLsbD_bitmapBit,
      ne_eq, ← bitmap_position word]
    simp [small, and_comm]
  · rw [Function.update_of_ne word]
    refine (and_iff_right ?_).symm
    rintro rfl
    exact word rfl

/-- A frame that is not in use has a clear bit, and setting and clearing it changes nothing. -/
theorem set_clear (free : ¬f.Used i) :
    (f.frameBitmap (bitmapWord i) ||| bitmapBit i) &&& ~~~bitmapBit i =
      f.frameBitmap (bitmapWord i) := by
  have disjoint : f.frameBitmap (bitmapWord i) &&& bitmapBit i = 0#32 := not_not.mp free
  refine BitVec.eq_of_getLsbD_eq fun k inside => ?_
  have bit := congrArg (·.getLsbD k) disjoint
  simp only [BitVec.getLsbD_and, BitVec.getLsbD_or, BitVec.getLsbD_not, inside, decide_true,
    Bool.true_and, BitVec.getLsbD_zero] at bit ⊢
  revert bit
  cases (f.frameBitmap (bitmapWord i)).getLsbD k <;> cases (bitmapBit i).getLsbD k <;> decide

/-- `free_frame` on the address of a frame in use. -/
theorem freeFrame_used (used : f.Used i) :
    f.freeFrame (poolFrameAddress i) =
      { frameBitmap := Function.update f.frameBitmap (bitmapWord i)
          (f.frameBitmap (bitmapWord i) &&& ~~~bitmapBit i)
        framesFree := f.framesFree + 1 } := by
  simp only [freeFrame, frameOf?_eq_some_iff.mpr rfl, used, if_true]

/-- Any other call leaves the allocator alone. -/
theorem freeFrame_other {address : BitVec 32}
    (other : ¬∃ i, f.Used i ∧ address = poolFrameAddress i) :
    f.freeFrame address = f := by
  unfold freeFrame
  split
  · rfl
  · rename_i i found
    rw [if_neg]
    exact fun used => other ⟨i, used, frameOf?_eq_some_iff.mp found⟩

theorem freeFrame_ne_iff {address : BitVec 32} :
    f.freeFrame address ≠ f ↔ ∃ i, f.Used i ∧ address = poolFrameAddress i := by
  constructor
  · intro changed
    by_contra other
    exact changed (freeFrame_other other)
  · rintro ⟨i, used, rfl⟩ same
    rw [freeFrame_used used] at same
    have counter : f.framesFree + 1 = f.framesFree := congrArg framesFree same
    bv_omega

theorem allocFrame_spec (f : Frames) :
    (f.allocFrame = (0, f) ∧ ∀ i, f.Used i) ∨
      ∃ i, ¬f.Used i ∧ (∀ j < i, f.Used j) ∧ f.allocFrame =
        (poolFrameAddress i,
          { frameBitmap := Function.update f.frameBitmap (bitmapWord i)
              (f.frameBitmap (bitmapWord i) ||| bitmapBit i)
            framesFree := f.framesFree - 1 }) := by
  obtain failed | ⟨i, address, free, below, set, counter⟩ := f.allocFrame_cases
  · exact .inl failed
  · refine .inr ⟨i, free, below, Prod.ext (BitVec.eq_of_toNat_eq ?_) ?_⟩
    · rw [address, poolFrameAddress_toNat]
    · cases taken : f.allocFrame.2
      rw [taken] at set counter
      exact congrArg₂ Frames.mk set counter

/-- Giving back what was just taken restores the allocator. -/
theorem freeFrame_allocFrame (f : Frames) : f.allocFrame.2.freeFrame f.allocFrame.1 = f := by
  obtain ⟨failed, -⟩ | ⟨i, free, -, taken⟩ := f.allocFrame_spec
  · rw [failed]
    refine freeFrame_other ?_
    rintro ⟨i, -, null⟩
    exact poolFrameAddress_ne_zero i null.symm
  · have used : f.allocFrame.2.Used i := (used_set (by rw [taken]) i).mpr (.inl rfl)
    have address : f.allocFrame.1 = poolFrameAddress i := by rw [taken]
    rw [address, freeFrame_used used, taken]
    simp only [Function.update_self, Function.update_idem, set_clear free, Function.update_eq_self]
    cases f
    simp

end Frames

/-! ## Runs -/

inductive FrameCall where
  | allocFrame
  | freeFrame (physAddr : BitVec 32)

/-- The allocator and the addresses it has returned that were not given back. -/
structure FrameRun where
  frames : Frames
  outstanding : Finset (BitVec 32)

namespace FrameRun

/-- After `frame_allocator_init`. -/
def start : FrameRun := ⟨.frameAllocatorInit, ∅⟩

def step (s : FrameRun) : FrameCall → FrameRun
  | .allocFrame =>
      { frames := s.frames.allocFrame.2
        outstanding :=
          if s.frames.allocFrame.1 = 0 then s.outstanding
          else insert s.frames.allocFrame.1 s.outstanding }
  | .freeFrame physAddr =>
      { frames := s.frames.freeFrame physAddr, outstanding := s.outstanding.erase physAddr }

/-- The frames in use are the outstanding ones, and the counter counts the others. -/
structure Accounted (s : FrameRun) : Prop where
  outstanding : ∀ a, a ∈ s.outstanding ↔ ∃ i, s.frames.Used i ∧ a = poolFrameAddress i
  counter : s.frames.framesFree.toNat + s.outstanding.card = 1024

variable {s : FrameRun}

theorem accounted_start : start.Accounted where
  outstanding a := by simp [start, Frames.frameAllocatorInit, Frames.Used]
  counter := rfl

namespace Accounted

/-- Outstanding addresses and frames in use correspond one to one. -/
theorem card_outstanding (s_ok : s.Accounted) :
    s.outstanding.card = (Finset.univ.filter fun i : FrameIndex => s.frames.Used i).card := by
  have image : s.outstanding =
      (Finset.univ.filter fun i : FrameIndex => s.frames.Used i).image poolFrameAddress := by
    ext a
    simp only [s_ok.outstanding, Finset.mem_image, Finset.mem_filter, Finset.mem_univ, true_and]
    exact exists_congr fun i => and_congr_right fun _ => eq_comm
  rw [image, Finset.card_image_of_injective _ poolFrameAddress_injective]

theorem card_free (s_ok : s.Accounted) :
    s.frames.framesFree.toNat =
      (Finset.univ.filter fun i : FrameIndex => ¬s.frames.Used i).card := by
  have total := Finset.card_filter_add_card_filter_not (s := (Finset.univ : Finset FrameIndex))
    (fun i => s.frames.Used i)
  have frames : (Finset.univ : Finset FrameIndex).card = 1024 := by
    rw [Finset.card_univ, Fintype.card_fin, framePoolFrames]
  have used := s_ok.card_outstanding
  have counter := s_ok.counter
  omega

theorem notMem_of_free (s_ok : s.Accounted) {i : FrameIndex} (free : ¬s.frames.Used i) :
    poolFrameAddress i ∉ s.outstanding := by
  intro member
  obtain ⟨j, used, same⟩ := (s_ok.outstanding _).mp member
  exact free (poolFrameAddress_injective same ▸ used)

theorem allocFrame (s_ok : s.Accounted) : (s.step .allocFrame).Accounted := by
  obtain ⟨failed, -⟩ | ⟨i, free, -, taken⟩ := s.frames.allocFrame_spec
  · have same : s.step .allocFrame = s := by simp [step, failed]
    rwa [same]
  · have address : s.frames.allocFrame.1 = poolFrameAddress i := by rw [taken]
    have after : (s.step .allocFrame).outstanding = insert (poolFrameAddress i) s.outstanding := by
      simp only [step, address, poolFrameAddress_ne_zero i, if_false]
    have used (j : FrameIndex) : (s.step .allocFrame).frames.Used j ↔ j = i ∨ s.frames.Used j :=
      Frames.used_set (by simp only [step, taken]) j
    constructor
    · intro a
      rw [after, Finset.mem_insert, s_ok.outstanding]
      simp only [used, or_and_right, exists_or, exists_eq_left]
    · have some : 0 < s.frames.framesFree.toNat := by
        rw [s_ok.card_free]
        exact Finset.card_pos.mpr ⟨i, by simpa using free⟩
      have counter : (s.step .allocFrame).frames.framesFree = s.frames.framesFree - 1 := by
        simp only [step, taken]
      have before := s_ok.counter
      rw [after, Finset.card_insert_of_notMem (s_ok.notMem_of_free free), counter]
      bv_omega

theorem freeFrame (s_ok : s.Accounted) (address : BitVec 32) :
    (s.step (.freeFrame address)).Accounted := by
  by_cases member : address ∈ s.outstanding
  · obtain ⟨i, here, rfl⟩ := (s_ok.outstanding address).mp member
    have freed := Frames.freeFrame_used here
    have used (j : FrameIndex) :
        (s.step (.freeFrame (poolFrameAddress i))).frames.Used j ↔ j ≠ i ∧ s.frames.Used j :=
      Frames.used_clear (by simp only [step, freed]) j
    constructor
    · intro a
      have after : (s.step (.freeFrame (poolFrameAddress i))).outstanding =
          s.outstanding.erase (poolFrameAddress i) := rfl
      simp only [used, after, Finset.mem_erase, s_ok.outstanding]
      constructor
      · rintro ⟨other, j, busy, rfl⟩
        exact ⟨j, ⟨fun same => other (same ▸ rfl), busy⟩, rfl⟩
      · rintro ⟨j, ⟨other, busy⟩, rfl⟩
        exact ⟨fun same => other (poolFrameAddress_injective same), j, busy, rfl⟩
    · have counter : (s.step (.freeFrame (poolFrameAddress i))).frames.framesFree =
          s.frames.framesFree + 1 := by simp only [step, freed]
      have card := Finset.card_erase_add_one member
      have before := s_ok.counter
      rw [counter]
      simp only [step]
      bv_omega
  · have same : s.step (.freeFrame address) = s := by
      simp only [step, Finset.erase_eq_of_notMem member,
        Frames.freeFrame_other (mt (s_ok.outstanding address).mpr member)]
    rwa [same]

end Accounted

theorem step_accounted (s : FrameRun) (call : FrameCall) (s_ok : s.Accounted) :
    (s.step call).Accounted := by
  cases call with
  | allocFrame => exact s_ok.allocFrame
  | freeFrame address => exact s_ok.freeFrame address

end FrameRun

/-- After every sequence of calls the counter is that of the clear bits, `alloc_frame` takes the
lowest free frame if there is one, and `free_frame` takes the address of an outstanding frame and
nothing else. -/
theorem frameAllocator_correct (calls : List FrameCall) :
    let s := Runs.after FrameRun.step FrameRun.start calls
    (s.frames.framesFree.toNat =
        (Finset.univ.filter fun i : FrameIndex => ¬s.frames.Used i).card ∧
      s.frames.framesFree.toNat + s.outstanding.card = 1024) ∧
    (s.frames.allocFrame.1 = 0 ↔ ∀ i, s.frames.Used i) ∧
    (s.frames.allocFrame.1 ≠ 0 →
      (∃ i : FrameIndex, s.frames.allocFrame.1.toNat = 0x200000 + 4096 * i.val ∧
        ¬s.frames.Used i ∧ ∀ j < i, s.frames.Used j) ∧
      4096 ∣ s.frames.allocFrame.1.toNat ∧
      0x200000 ≤ s.frames.allocFrame.1.toNat ∧ s.frames.allocFrame.1.toNat + 4096 ≤ 0x600000 ∧
      s.frames.allocFrame.1 ∉ s.outstanding) ∧
    (∀ address, s.frames.freeFrame address ≠ s.frames ↔ address ∈ s.outstanding) ∧
    s.frames.allocFrame.2.freeFrame s.frames.allocFrame.1 = s.frames := by
  intro s
  have s_ok : s.Accounted :=
    Runs.invariant_after FrameRun.accounted_start FrameRun.step_accounted calls
  refine ⟨⟨s_ok.card_free, s_ok.counter⟩, ?_, ?_, ?_, s.frames.freeFrame_allocFrame⟩
  · obtain ⟨failed, full⟩ | ⟨i, free, -, taken⟩ := s.frames.allocFrame_spec
    · exact iff_of_true (by rw [failed]) full
    · refine iff_of_false ?_ fun full => free (full i)
      rw [taken]
      exact poolFrameAddress_ne_zero i
  · intro success
    obtain ⟨failed, -⟩ | ⟨i, free, below, taken⟩ := s.frames.allocFrame_spec
    · exact absurd (by rw [failed]) success
    · have address : s.frames.allocFrame.1 = poolFrameAddress i := by rw [taken]
      have small : i.val < 1024 := i.isLt
      have number := poolFrameAddress_toNat i
      rw [address]
      exact ⟨⟨i, number, free, below⟩, by omega, by omega, by omega, s_ok.notMem_of_free free⟩
  · intro address
    rw [s_ok.outstanding, Frames.freeFrame_ne_iff]

end LughOS.Kernel

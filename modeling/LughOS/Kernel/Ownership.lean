import LughOS.Kernel.Sockets

/-!
# Who owns which block

The allocator hands out blocks of four sizes, and a pool message takes two of them. This
module describes the pool by ownership alone: `Ownership foreign p` says that the slots
in use hold pairwise different blocks, two each, and that every other block in use was
taken by somebody else before. It does not look at the bytes inside the blocks, so it
survives whatever is written there, and it holds for requests of every size.

`Gains` and `Loses` are the two ways in which an operation changes the slots. Each also
says which memory the operation leaves alone.
-/

namespace LughOS.Kernel

open Bytes

/-! ## Blocks of every class -/

abbrev Block := SizeClass × BlockIndex

/-- The class of the blocks of 64 bytes. -/
abbrev smallClass : SizeClass := 0

namespace Block

def address (b : Block) : Nat := blockAddress b.1 b.2

def size (b : Block) : Nat := blockSizes b.1

theorem address_inj {a b : Block} (same : a.address = b.address) : a = b := by
  obtain ⟨hc, hi⟩ := blockAddress_inj same
  exact Prod.ext hc hi

theorem address_ne_zero (b : Block) : b.address ≠ 0 := by
  have := (blockAddress_inside b.1 b.2).1
  simp only [heapStart] at this
  simp only [address]
  omega

theorem size_ge (b : Block) : 64 ≤ b.size := by
  obtain ⟨c, i⟩ := b
  fin_cases c <;> simp [size, blockSizes]

theorem inside (b : Block) : heapStart ≤ b.address ∧ b.address + b.size ≤ heapEnd := by
  obtain ⟨c, i⟩ := b
  have := i.isLt
  fin_cases c <;> simp only [address, size, blockAddress, blockSizes, heapStart, heapEnd] <;> omega

/-- From every block on, the heap has room for the longest body. -/
theorem inside_buffer (b : Block) : heapStart ≤ b.address ∧ b.address + 256 ≤ heapEnd := by
  obtain ⟨c, i⟩ := b
  have := i.isLt
  fin_cases c <;> simp only [address, blockAddress, heapStart, heapEnd] <;> omega

/-- Two blocks do not overlap. -/
theorem apart {a b : Block} (other : a ≠ b) :
    a.address + a.size ≤ b.address ∨ b.address + b.size ≤ a.address := by
  obtain ⟨c, i⟩ := a
  obtain ⟨c', j⟩ := b
  have hi := i.isLt
  have hj := j.isLt
  have different : c = c' → i.val ≠ j.val := by
    rintro rfl same
    exact other (Prod.ext rfl (Fin.ext same))
  fin_cases c <;> fin_cases c' <;>
    simp only [Fin.isValue, Fin.zero_eta, Fin.mk_one, Fin.reduceFinMk, Fin.reduceEq, ne_eq,
      forall_const, IsEmpty.forall_iff] at different <;>
    simp only [address, size, blockAddress, blockSizes] <;> omega

end Block

/-- The block is allocated. -/
def Heap.Used (h : Heap) (b : Block) : Prop := (h.blocks b.1 b.2).inUse = true

instance (h : Heap) (b : Block) : Decidable (h.Used b) := inferInstanceAs (Decidable (_ = _))

/-- From `h` to `h'` only block `b` changed: its flag, and bytes inside it. -/
structure Touches (b : Block) (h h' : Heap) : Prop where
  laid : h'.LaidOut
  regions : h'.regions = h.regions
  others : ∀ b', b' ≠ b → (h'.Used b' ↔ h.Used b')
  mem : ∀ {a n}, a + n ≤ b.address ∨ b.address + b.size ≤ a → Mem.EqOn h'.mem h.mem a n

theorem Touches.other_block {b b' : Block} {h h' : Heap} (touches : Touches b h h')
    (other : b' ≠ b) : Mem.EqOn h'.mem h.mem b'.address b'.size :=
  touches.mem (Block.apart other)

variable {h : Heap} {b : Block}

theorem Heap.setInUse_used (h : Heap) (b : Block) (flag : Bool) :
    (h.setInUse b.1 b.2 flag).Used b ↔ flag = true := by
  simp [Heap.Used]

theorem Heap.setInUse_used_other (h : Heap) {b b' : Block} (flag : Bool) (other : b' ≠ b) :
    (h.setInUse b.1 b.2 flag).Used b' ↔ h.Used b' := by
  have apart : ¬(b'.1 = b.1 ∧ b'.2 = b.2) := fun same => other (Prod.ext same.1 same.2)
  simp only [Heap.Used, Heap.setInUse_other flag apart]

/-- What `alloc_memory` does: it refuses the size, or finds no free block in the smallest class
that is large enough, or takes a free block of that class and clears it. -/
theorem allocMemory_cases (laid : h.LaidOut) (size : Nat) :
    (allocMemory h size = (none, h) ∧
        (size = 0 ∨ memMaxAllocSize < size ∨
          ∃ c, findSizeClass size = some c ∧ ∀ i, h.Used (c, i))) ∨
      ∃ b : Block, size ≠ 0 ∧ size ≤ memMaxAllocSize ∧ findSizeClass size = some b.1 ∧
        ¬h.Used b ∧ allocMemory h size =
          (some b.address, (h.setInUse b.1 b.2 true).memset b.address 0 b.size) := by
  unfold allocMemory
  split
  · exact .inl ⟨rfl, .inl ‹_›⟩
  split
  · exact .inl ⟨rfl, .inr (.inl ‹_›)⟩
  rename_i nonzero bounded
  split
  · rename_i none
    have unfit : ¬size ≤ blockSizes 3 := of_decide_eq_false (Table.first?_eq_none_iff.mp none 3)
    exact absurd (Nat.le_of_not_lt bounded) unfit
  rename_i c fits
  split
  · rename_i full
    refine .inl ⟨rfl, .inr (.inr ⟨c, fits, fun i => ?_⟩)⟩
    simpa [Heap.Used] using Table.first?_eq_none_iff.mp full i
  rename_i i free
  have unused : ¬h.Used (c, i) := by simpa [Heap.Used] using Table.first?_holds free
  refine .inr ⟨(c, i), nonzero, Nat.le_of_not_lt bounded, fits, unused, ?_⟩
  rw [(laid c i).1, (laid c i).2]
  rfl

/-- Allocation fails without a trace or takes a free block of the smallest class that is
large enough. -/
theorem allocMemory_spec (laid : h.LaidOut) (size : Nat) :
    allocMemory h size = (none, h) ∨
      ∃ b h', allocMemory h size = (some b.address, h') ∧ findSizeClass size = some b.1 ∧
        ¬h.Used b ∧ h'.Used b ∧ Touches b h h' := by
  obtain ⟨failed, -⟩ | ⟨b, -, -, fits, unused, taken⟩ := allocMemory_cases laid size
  · exact .inl failed
  refine .inr ⟨b, _, taken, fits, unused, ?_, ?_, ?_, ?_, ?_⟩
  · simp only [Heap.Used, Heap.memset_blocks, Heap.setInUse_self]
  · exact (laid.setInUse true).memset _ _ _
  · simp
  · intro b' other
    simp only [Heap.Used, Heap.memset_blocks]
    exact h.setInUse_used_other true other
  · intro a n outside
    exact Heap.memset_eqOn _ _ _ _ outside

theorem freeMemory_spec (laid : h.LaidOut) (used : h.Used b) :
    ¬(freeMemory h b.address).Used b ∧ Touches b h (freeMemory h b.address) := by
  rw [Block.address, freeMemory_block laid used]
  refine ⟨by simp [Heap.setInUse_used], (laid.memset _ _ _).setInUse false, by simp,
    fun b' other => ?_, fun outside => Heap.memset_eqOn h _ _ _ outside⟩
  rw [Heap.setInUse_used_other _ false other]
  simp [Heap.Used]

/-! ## Slots -/

/-- The two pointers of a slot: the `nng_msg_t` and its buffer. -/
def MsgSlot.pointer (slot : MsgSlot) : Bool → Nat
  | false => slot.msg
  | true => slot.buffer

def Pool.SlotUsed (p : Pool) (s : SlotIndex) : Prop := (p.msgSlots s).inUse = true

instance (p : Pool) (s : SlotIndex) : Decidable (p.SlotUsed s) :=
  inferInstanceAs (Decidable (_ = _))

/-- Each slot in use owns two blocks, no block is owned twice, and a block in use without an
owner is one of the `foreign` ones. -/
structure Ownership (foreign : Finset Block) (p : Pool) : Prop where
  laid : p.heap.LaidOut
  backed : ∀ s side, p.SlotUsed s →
    ∃ b, (p.msgSlots s).pointer side = b.address ∧ p.heap.Used b ∧ b ∉ foreign
  distinct : ∀ s s' side side', p.SlotUsed s → p.SlotUsed s' →
    (p.msgSlots s).pointer side = (p.msgSlots s').pointer side' → s = s' ∧ side = side'
  accounted : ∀ b, p.heap.Used b →
    b ∈ foreign ∨ ∃ s side, p.SlotUsed s ∧ (p.msgSlots s).pointer side = b.address
  kept : ∀ b ∈ foreign, p.heap.Used b

variable {foreign : Finset Block} {p p' : Pool} {s : SlotIndex} {m : Block}

/-- The bytes of `p` are unchanged in `p'` outside the blocks `m` and `b`. -/
def OnlyBlocks (m b : Block) (p p' : Pool) : Prop :=
  ∀ {a n}, (a + n ≤ m.address ∨ m.address + m.size ≤ a) →
    (a + n ≤ b.address ∨ b.address + b.size ≤ a) → Mem.EqOn p'.heap.mem p.heap.mem a n

/-- Slot `s` and the blocks `m` and `b` are taken for a new message. -/
structure Gains (p p' : Pool) (s : SlotIndex) (m b : Block) : Prop where
  laid : p'.heap.LaidOut
  regions : p'.heap.regions = p.heap.regions
  freeSlot : ¬p.SlotUsed s
  freeMsg : ¬p.heap.Used m
  freeBuffer : ¬p.heap.Used b
  different : m ≠ b
  slots : p'.msgSlots = Function.update p.msgSlots s ⟨m.address, b.address, true⟩
  used : ∀ b', p'.heap.Used b' ↔ b' = m ∨ b' = b ∨ p.heap.Used b'
  mem : OnlyBlocks m b p p'

/-- Slot `s` with its blocks `m` and `b` is given back. -/
structure Loses (p p' : Pool) (s : SlotIndex) (m b : Block) : Prop where
  laid : p'.heap.LaidOut
  regions : p'.heap.regions = p.heap.regions
  usedSlot : p.SlotUsed s
  msg : (p.msgSlots s).msg = m.address
  buffer : (p.msgSlots s).buffer = b.address
  slots : p'.msgSlots = Function.update p.msgSlots s ⟨0, 0, false⟩
  used : ∀ b', p'.heap.Used b' ↔ b' ≠ m ∧ b' ≠ b ∧ p.heap.Used b'
  mem : OnlyBlocks m b p p'

theorem Gains.slotUsed (gains : Gains p p' s m b) (s' : SlotIndex) :
    p'.SlotUsed s' ↔ s' = s ∨ p.SlotUsed s' := by
  by_cases new : s' = s
  · subst new
    simp [Pool.SlotUsed, gains.slots]
  · simp [Pool.SlotUsed, gains.slots, new]

theorem Gains.old_slot (gains : Gains p p' s m b) {s' : SlotIndex} (used : p.SlotUsed s') :
    p'.msgSlots s' = p.msgSlots s' := by
  have other : s' ≠ s := by
    rintro rfl
    exact gains.freeSlot used
  rw [gains.slots, Function.update_of_ne other]

theorem Gains.new_slot (gains : Gains p p' s m b) :
    p'.msgSlots s = ⟨m.address, b.address, true⟩ := by
  rw [gains.slots, Function.update_self]

/-- The block behind a pointer of the new slot. -/
theorem Gains.new_pointer (gains : Gains p p' s m b) (side : Bool) :
    (p'.msgSlots s).pointer side = (bif side then b else m).address := by
  rw [gains.new_slot]
  cases side <;> rfl

theorem Ownership.gain (owned : Ownership foreign p) (gains : Gains p p' s m b) :
    Ownership foreign p' := by
  have unowned : ∀ side, ¬p.heap.Used (bif side then b else m) := by
    intro side
    cases side
    · exact gains.freeMsg
    · exact gains.freeBuffer
  have strange : ∀ {s' side side'}, p.SlotUsed s' →
      (p.msgSlots s').pointer side' ≠ (bif side then b else m).address := by
    intro s' side side' used same
    obtain ⟨b', pointer, usedBlock, -⟩ := owned.backed s' side' used
    exact unowned side (Block.address_inj (pointer.symm.trans same) ▸ usedBlock)
  constructor
  · exact gains.laid
  · intro s' side used
    rcases (gains.slotUsed s').mp used with rfl | before
    · refine ⟨bif side then b else m, gains.new_pointer side, ?_, fun taken => ?_⟩
      · rw [gains.used]
        cases side <;> simp
      · exact unowned side (owned.kept _ taken)
    · obtain ⟨b', pointer, usedBlock, notForeign⟩ := owned.backed s' side before
      exact ⟨b', by rw [gains.old_slot before, pointer],
        (gains.used b').mpr (.inr (.inr usedBlock)), notForeign⟩
  · intro s₁ s₂ side₁ side₂ used₁ used₂ same
    rcases (gains.slotUsed s₁).mp used₁ with rfl | before₁ <;>
      rcases (gains.slotUsed s₂).mp used₂ with rfl | before₂
    · rw [gains.new_pointer, gains.new_pointer] at same
      have blocks := Block.address_inj same
      have different := gains.different
      cases side₁ <;> cases side₂ <;> simp_all
    · rw [gains.new_pointer, gains.old_slot before₂] at same
      exact absurd same.symm (strange before₂)
    · rw [gains.new_pointer, gains.old_slot before₁] at same
      exact absurd same (strange before₁)
    · rw [gains.old_slot before₁, gains.old_slot before₂] at same
      exact owned.distinct s₁ s₂ side₁ side₂ before₁ before₂ same
  · intro b' used
    rcases (gains.used b').mp used with rfl | rfl | before
    · exact .inr ⟨s, false, (gains.slotUsed s).mpr (.inl rfl), gains.new_pointer false⟩
    · exact .inr ⟨s, true, (gains.slotUsed s).mpr (.inl rfl), gains.new_pointer true⟩
    · refine (owned.accounted b' before).imp_right ?_
      rintro ⟨s', side, usedSlot, pointer⟩
      exact ⟨s', side, (gains.slotUsed s').mpr (.inr usedSlot), by rwa [gains.old_slot usedSlot]⟩
  · exact fun b' taken => (gains.used b').mpr (.inr (.inr (owned.kept b' taken)))

theorem Loses.slotUsed (loses : Loses p p' s m b) (s' : SlotIndex) :
    p'.SlotUsed s' ↔ s' ≠ s ∧ p.SlotUsed s' := by
  by_cases it : s' = s
  · subst it
    simp [Pool.SlotUsed, loses.slots]
  · simp [Pool.SlotUsed, loses.slots, it]

theorem Loses.other_slot (loses : Loses p p' s m b) {s' : SlotIndex} (other : s' ≠ s) :
    p'.msgSlots s' = p.msgSlots s' := by
  rw [loses.slots, Function.update_of_ne other]

theorem Loses.pointer (loses : Loses p p' s m b) (side : Bool) :
    (p.msgSlots s).pointer side = (bif side then b else m).address := by
  cases side
  · exact loses.msg
  · exact loses.buffer

/-- The blocks of another slot are not the ones given back. -/
theorem Loses.other_block (loses : Loses p p' s m b) (owned : Ownership foreign p)
    {s' : SlotIndex} {side : Bool} {b' : Block} (other : s' ≠ s) (used : p.SlotUsed s')
    (pointer : (p.msgSlots s').pointer side = b'.address) : b' ≠ m ∧ b' ≠ b := by
  constructor
  · rintro rfl
    exact other (owned.distinct s' s side false used loses.usedSlot
      (pointer.trans (loses.pointer false).symm)).1
  · rintro rfl
    exact other (owned.distinct s' s side true used loses.usedSlot
      (pointer.trans (loses.pointer true).symm)).1

theorem Ownership.lose (owned : Ownership foreign p) (loses : Loses p p' s m b) :
    Ownership foreign p' := by
  have notForeign : m ∉ foreign ∧ b ∉ foreign := by
    obtain ⟨m', msg, -, strange⟩ := owned.backed s false loses.usedSlot
    obtain ⟨b', buffer, -, strange'⟩ := owned.backed s true loses.usedSlot
    have sameMsg : m = m' := Block.address_inj (loses.msg.symm.trans msg)
    have sameBuffer : b = b' := Block.address_inj (loses.buffer.symm.trans buffer)
    rw [sameMsg, sameBuffer]
    exact ⟨strange, strange'⟩
  constructor
  · exact loses.laid
  · intro s' side used
    obtain ⟨other, before⟩ := (loses.slotUsed s').mp used
    obtain ⟨b', pointer, usedBlock, strange⟩ := owned.backed s' side before
    obtain ⟨notMsg, notBuffer⟩ := loses.other_block owned other before pointer
    exact ⟨b', by rw [loses.other_slot other, pointer],
      (loses.used b').mpr ⟨notMsg, notBuffer, usedBlock⟩, strange⟩
  · intro s₁ s₂ side₁ side₂ used₁ used₂ same
    obtain ⟨other₁, before₁⟩ := (loses.slotUsed s₁).mp used₁
    obtain ⟨other₂, before₂⟩ := (loses.slotUsed s₂).mp used₂
    rw [loses.other_slot other₁, loses.other_slot other₂] at same
    exact owned.distinct s₁ s₂ side₁ side₂ before₁ before₂ same
  · intro b' used
    obtain ⟨notMsg, notBuffer, before⟩ := (loses.used b').mp used
    refine (owned.accounted b' before).imp_right ?_
    rintro ⟨s', side, usedSlot, pointer⟩
    have other : s' ≠ s := by
      rintro rfl
      rw [loses.pointer] at pointer
      have := Block.address_inj pointer
      cases side <;> simp_all
    exact ⟨s', side, (loses.slotUsed s').mpr ⟨other, usedSlot⟩,
      by rwa [loses.other_slot other]⟩
  · intro b' taken
    refine (loses.used b').mpr ⟨?_, ?_, owned.kept b' taken⟩
    · rintro rfl; exact notForeign.1 taken
    · rintro rfl; exact notForeign.2 taken

/-! ## The operations of the pool -/

/-- Nothing that is in use changed. -/
structure Unchanged (p p' : Pool) : Prop where
  laid : p'.heap.LaidOut
  regions : p'.heap.regions = p.heap.regions
  slots : p'.msgSlots = p.msgSlots
  used : ∀ b, p'.heap.Used b ↔ p.heap.Used b
  mem : ∀ b, p.heap.Used b → Mem.EqOn p'.heap.mem p.heap.mem b.address b.size
  outside : ∀ {a n}, a + n ≤ heapStart ∨ heapEnd ≤ a → Mem.EqOn p'.heap.mem p.heap.mem a n

theorem Unchanged.refl (laid : p.heap.LaidOut) : Unchanged p p :=
  ⟨laid, rfl, rfl, fun _ => Iff.rfl, fun _ _ => Mem.EqOn.refl, fun _ => Mem.EqOn.refl⟩

theorem Ownership.unchanged (owned : Ownership foreign p) (same : Unchanged p p') :
    Ownership foreign p' := by
  have slotUsed : ∀ s, p'.SlotUsed s ↔ p.SlotUsed s := by simp [Pool.SlotUsed, same.slots]
  constructor
  · exact same.laid
  · simpa only [slotUsed, same.slots, same.used] using owned.backed
  · simpa only [slotUsed, same.slots] using owned.distinct
  · simpa only [slotUsed, same.slots, same.used] using owned.accounted
  · simpa only [same.used] using owned.kept

/-- The class from which `nng_msg_alloc` takes the body. -/
def bodyRequest (size : Nat) : Nat := if 0 < size then size else 8

theorem nngMsgAlloc_ownership (laid : p.heap.LaidOut) (size : Nat) :
    (∃ rv p', nngMsgAlloc p size = (.error rv, p') ∧ Unchanged p p') ∨
      ∃ s m b p' , nngMsgAlloc p size = (.ok m.address, p') ∧ Gains p p' s m b ∧
        (m.1 = smallClass ∧ findSizeClass (bodyRequest size) = some b.1) ∧
        ∃ mem, p'.heap.mem = initNngMsg mem m.address b.address := by
  unfold nngMsgAlloc
  split
  · exact .inl ⟨_, _, rfl, .refl laid⟩
  rename_i slot freeSlot
  split
  · exact .inl ⟨_, _, rfl, .refl laid⟩
  obtain failed | ⟨m, h₁, taken, small, free, used, touches⟩ := allocMemory_spec laid nngMsgSize
  · rw [failed]
    exact .inl ⟨_, _, rfl, .refl laid⟩
  rw [taken]
  obtain failed | ⟨b, h₂, taken', fits, free', used', touches'⟩ :=
    allocMemory_spec touches.laid (bodyRequest size)
  · rw [bodyRequest] at failed
    simp only [failed]
    obtain ⟨freed, released⟩ := freeMemory_spec touches.laid used
    refine .inl ⟨_, _, rfl, released.laid, released.regions.trans touches.regions, rfl,
      fun b' => ?_, fun b' used' => ?_, fun outside => ?_⟩
    · by_cases it : b' = m
      · subst it
        exact iff_of_false freed free
      · exact (released.others b' it).trans (touches.others b' it)
    · have other : b' ≠ m := by
        rintro rfl
        exact free used'
      exact (released.other_block other).trans (touches.other_block other)
    · have := m.inside
      exact (released.mem (by omega)).trans (touches.mem (by omega))
  · rw [bodyRequest] at taken'
    simp only [taken']
    have different : m ≠ b := by
      rintro rfl
      exact free' used
    refine .inr ⟨slot, m, b, _, rfl, ⟨touches'.laid, touches'.regions.trans touches.regions, ?_,
      free, ?_, different, rfl, fun b' => ?_, ?_⟩, ⟨(Option.some.inj small).symm, fits⟩, h₂.mem,
      rfl⟩
    · simpa [Pool.SlotUsed] using Table.first?_holds freeSlot
    · rwa [← touches.others b different.symm]
    · by_cases isBuffer : b' = b
      · subst isBuffer
        exact iff_of_true used' (.inr (.inl rfl))
      · have outer := touches'.others b' isBuffer
        by_cases isMsg : b' = m
        · subst isMsg
          exact iff_of_true (outer.mpr used) (.inl rfl)
        · refine (outer.trans (touches.others b' isMsg)).trans ?_
          simp [isBuffer, isMsg]
    · intro a n apartMsg apartBuffer
      have := m.size_ge
      have header := initNngMsg_eqOn h₂.mem m.address b.address (b := a) (n := n) (by omega)
      exact header.trans ((touches'.mem apartBuffer).trans (touches.mem apartMsg))

/-- Freeing an address that is no live message does nothing. -/
theorem nngMsgFree_of_not_live {p : Pool} {x : Nat}
    (dead : ¬∃ s, p.SlotUsed s ∧ (p.msgSlots s).msg = x) : (nngMsgFree p x).2 = p := by
  have none : (Table.first? fun i => (p.msgSlots i).inUse &&
      decide ((p.msgSlots i).msg = x)) = none := by
    rw [Table.first?_eq_none_iff]
    intro s
    by_contra hit
    simp only [Bool.not_eq_false, Bool.and_eq_true, decide_eq_true_eq] at hit
    exact dead ⟨s, hit⟩
  simp only [nngMsgFree, none]
  split <;> rfl

/-- If the address is a live message, its slot is lost. -/
theorem nngMsgFree_ownership (owned : Ownership foreign p) (x : Nat) :
    ((∀ s, p.SlotUsed s → (p.msgSlots s).msg ≠ x) ∧ (nngMsgFree p x).2 = p) ∨
      ∃ s m b, (p.msgSlots s).msg = x ∧ Loses p (nngMsgFree p x).2 s m b := by
  by_cases live : ∃ s, p.SlotUsed s ∧ (p.msgSlots s).msg = x
  · obtain ⟨s, used, rfl⟩ := live
    obtain ⟨m, msg, usedMsg, -⟩ := owned.backed s false used
    obtain ⟨b, buffer, usedBuffer, -⟩ := owned.backed s true used
    replace msg : (p.msgSlots s).msg = m.address := msg
    replace buffer : (p.msgSlots s).buffer = b.address := buffer
    have different : m ≠ b := by
      rintro rfl
      have := (owned.distinct s s false true used used (msg.trans buffer.symm)).2
      cases this
    have found : (Table.first? fun i => (p.msgSlots i).inUse &&
        decide ((p.msgSlots i).msg = (p.msgSlots s).msg)) = some s := by
      rw [Table.first?_eq_some_iff]
      refine ⟨by simpa [Pool.SlotUsed] using used, fun s' earlier => ?_⟩
      by_contra hit
      simp only [Bool.not_eq_false, Bool.and_eq_true, decide_eq_true_eq] at hit
      have := (owned.distinct s' s false false hit.1 used hit.2).1
      exact absurd earlier (by simp [this])
    have nonzero : (p.msgSlots s).msg ≠ 0 := by rw [msg]; exact m.address_ne_zero
    obtain ⟨freed, released⟩ := freeMemory_spec owned.laid usedBuffer
    obtain ⟨freed', released'⟩ :=
      freeMemory_spec released.laid ((released.others m different).mpr usedMsg)
    have result : (nngMsgFree p (p.msgSlots s).msg).2 =
        ⟨freeMemory (freeMemory p.heap b.address) m.address,
          Function.update p.msgSlots s ⟨0, 0, false⟩⟩ := by
      simp only [nngMsgFree, if_neg nonzero, found]
      rw [buffer, msg]
    refine .inr ⟨s, m, b, rfl, ?_⟩
    rw [result]
    refine ⟨released'.laid, released'.regions.trans released.regions, used, msg, buffer, rfl,
      fun b' => ?_, fun apartMsg apartBuffer =>
        (released'.mem apartMsg).trans (released.mem apartBuffer)⟩
    by_cases isMsg : b' = m
    · subst isMsg
      simp [freed']
    · rw [released'.others b' isMsg]
      by_cases isBuffer : b' = b
      · subst isBuffer
        simp [freed]
      · simp [released.others b' isBuffer, isMsg, isBuffer]
  · exact .inl ⟨fun s used same => live ⟨s, used, same⟩, nngMsgFree_of_not_live live⟩

/-- Stores into memory do not concern ownership. -/
theorem Ownership.withMem (owned : Ownership foreign p) (mem : Mem) :
    Ownership foreign (p.withMem mem) :=
  ⟨owned.laid, owned.backed, owned.distinct, owned.accounted, owned.kept⟩

/-- An append is refused without a trace, or it only writes into memory. -/
theorem nngMsgAppend_cases (p : Pool) (x : Nat) (data : Data) :
    (∃ rv, rv ≠ .ok ∧ nngMsgAppend p x data = (rv, p)) ∨
      ∃ mem, nngMsgAppend p x data = (.ok, p.withMem mem) := by
  unfold nngMsgAppend
  split
  · exact .inl ⟨.einval, by decide, rfl⟩
  split
  · exact .inl ⟨.einval, by decide, rfl⟩
  split
  · exact .inl ⟨.enomem, by decide, rfl⟩
  · exact .inr ⟨_, rfl⟩

theorem nngMsgAppend_withMem (p : Pool) (x : Nat) (data : Data) :
    ∃ mem, (nngMsgAppend p x data).2 = p.withMem mem := by
  obtain ⟨rv, -, refused⟩ | ⟨mem, written⟩ := nngMsgAppend_cases p x data
  · exact ⟨p.heap.mem, by rw [refused]; rfl⟩
  · exact ⟨mem, by rw [written]⟩

/-! ## The start -/

def usedBlocks (h : Heap) : Finset Block := Finset.univ.filter h.Used

/-- After `nng_init` the pool owns nothing, and what is in use belongs to somebody else. -/
theorem nngInit_ownership (n : Nng) (laid : n.pool.heap.LaidOut) :
    Ownership (usedBlocks n.pool.heap) (nngInit n).pool where
  laid := laid
  backed := fun s _ used => by simp [Pool.SlotUsed, nngInit] at used
  distinct := fun s _ _ _ used => by simp [Pool.SlotUsed, nngInit] at used
  accounted := fun b used => .inl (Finset.mem_filter.mpr ⟨Finset.mem_univ b, used⟩)
  kept := fun b taken => (Finset.mem_filter.mp taken).2

end LughOS.Kernel

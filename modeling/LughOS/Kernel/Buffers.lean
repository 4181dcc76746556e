import LughOS.Kernel.Connections
import LughOS.Kernel.Ownership

/-!
# Bodies inside their blocks

`Ownership` knows which blocks a message owns; this module adds what is inside them.
`Stored p s m b` says that the header in block `m` points to block `b` and that the body
fits there, for blocks of every size. As long as no append goes past the end of its block
the operations of the pool keep every other message with its bytes (`Keeps`), a message
under construction holds exactly what was appended to it (`Begun`), a send adds messages
with the bytes of the one sent (`Copies`), and what is not freed stays (`Freed`).

`nng_msg_append` compares with `MSG_BUFFER_SIZE` and not with the block, so room in the
block is a hypothesis throughout.
-/

namespace LughOS.Kernel

open Bytes

variable {foreign : Finset Block} {p p' p'' : Pool} {s s' : SlotIndex} {m b m' b' : Block}

/-! ## Messages in their blocks -/

/-- Slot `s` has its header in block `m` and a body that fits into block `b`. -/
structure Stored (p : Pool) (s : SlotIndex) (m b : Block) : Prop where
  slot : p.msgSlots s = ⟨m.address, b.address, true⟩
  body : p.body m.address = b.address
  fits : p.bodyLen m.address ≤ b.size

/-- Every message is stored in blocks of its own. -/
structure Sound (foreign : Finset Block) (p : Pool) : Prop where
  owned : Ownership foreign p
  stored : ∀ s, p.SlotUsed s → ∃ m b, Stored p s m b

/-- The messages of `p` are the same in `p'`, apart from the slots in `gone`. -/
def KeepsOutside (gone : Set SlotIndex) (p p' : Pool) : Prop :=
  ∀ s m b, s ∉ gone → Stored p s m b →
    Stored p' s m b ∧ p'.bodyBytes m.address = p.bodyBytes m.address

abbrev Keeps (p p' : Pool) : Prop := KeepsOutside ∅ p p'

theorem Stored.used (stored : Stored p s m b) : p.SlotUsed s := by
  rw [Pool.SlotUsed, stored.slot]

theorem Pool.bodyBytes_length (p : Pool) (x : Nat) : (p.bodyBytes x).length = p.bodyLen x := by
  simp [Pool.bodyBytes]

theorem Keeps.refl (p : Pool) : Keeps p p := fun _ _ _ _ stored => ⟨stored, rfl⟩

theorem KeepsOutside.trans {gone gone' : Set SlotIndex} (h : KeepsOutside gone p p')
    (h' : KeepsOutside gone' p' p'') : KeepsOutside (gone ∪ gone') p p'' := by
  intro s m b stays stored
  rw [Set.mem_union, not_or] at stays
  obtain ⟨stored', same⟩ := h s m b stays.1 stored
  obtain ⟨stored'', same'⟩ := h' s m b stays.2 stored'
  exact ⟨stored'', same'.trans same⟩

theorem Keeps.trans (h : Keeps p p') (h' : Keeps p' p'') : Keeps p p'' := by
  have both := KeepsOutside.trans h h'
  rwa [Set.empty_union] at both

/-- A slot that was free does not count. -/
theorem KeepsOutside.keeps (h : KeepsOutside {s} p p') (free : ¬p.SlotUsed s) : Keeps p p' := by
  intro s' m b _ stored
  refine h s' m b ?_ stored
  rintro rfl
  exact free stored.used

/-- A message whose slot and blocks are untouched is the same message. -/
theorem Stored.untouched (stored : Stored p s m b) (slot : p'.msgSlots s = p.msgSlots s)
    (header : Mem.EqOn p'.heap.mem p.heap.mem m.address m.size)
    (buffer : Mem.EqOn p'.heap.mem p.heap.mem b.address b.size) :
    Stored p' s m b ∧ p'.bodyBytes m.address = p.bodyBytes m.address := by
  have large := m.size_ge
  have body : p'.body m.address = p.body m.address :=
    (header.mono (le_refl _) (by omega)).readWord_eq
  have bodyLen : p'.bodyLen m.address = p.bodyLen m.address :=
    (header.mono (Nat.le_add_right _ _) (by omega)).readWord_eq
  have fits := stored.fits
  refine ⟨⟨slot.trans stored.slot, body.trans stored.body, by rw [bodyLen]; exact fits⟩, ?_⟩
  rw [Pool.bodyBytes, Pool.bodyBytes, body, bodyLen, stored.body]
  exact (buffer.mono (le_refl _) (by omega)).read_eq

theorem OnlyBlocks.block (only : OnlyBlocks m b p p') {c : Block} (notMsg : c ≠ m)
    (notBuffer : c ≠ b) : Mem.EqOn p'.heap.mem p.heap.mem c.address c.size :=
  only (Block.apart notMsg) (Block.apart notBuffer)

/-- The blocks of a stored message are allocated. -/
theorem Ownership.blocks_used (owned : Ownership foreign p) (stored : Stored p s m b) :
    p.heap.Used m ∧ p.heap.Used b := by
  obtain ⟨m', msg, usedMsg, -⟩ := owned.backed s false stored.used
  obtain ⟨b', buffer, usedBuffer, -⟩ := owned.backed s true stored.used
  rw [stored.slot] at msg buffer
  rw [Block.address_inj msg, Block.address_inj buffer]
  exact ⟨usedMsg, usedBuffer⟩

/-- Two messages share no block. -/
theorem Ownership.blocks_apart (owned : Ownership foreign p) (stored : Stored p s m b)
    (stored' : Stored p s' m' b') (other : s ≠ s') :
    m ≠ m' ∧ m ≠ b' ∧ b ≠ m' ∧ b ≠ b' := by
  have clash : ∀ side side' : Bool, (bif side then b else m) ≠ (bif side' then b' else m') := by
    intro side side' same
    refine other (owned.distinct s s' side side' stored.used stored'.used ?_).1
    rw [stored.slot, stored'.slot]
    cases side <;> cases side' <;> exact congrArg Block.address same
  exact ⟨clash false false, clash false true, clash true false, clash true true⟩

theorem Ownership.header_ne_buffer (owned : Ownership foreign p) (stored : Stored p s m b) :
    m ≠ b := by
  rintro rfl
  have same := (owned.distinct s s false true stored.used stored.used (by rw [stored.slot]; rfl)).2
  cases same

/-- Stores inside the blocks of one message leave the others alone. -/
theorem Ownership.keeps_others (owned : Ownership foreign p) (stored : Stored p s m b)
    (slots : p'.msgSlots = p.msgSlots) (only : OnlyBlocks m b p p') : KeepsOutside {s} p p' := by
  intro s' m' b' other stored'
  obtain ⟨h₁, h₂, h₃, h₄⟩ := owned.blocks_apart stored' stored other
  exact stored'.untouched (by rw [slots]) (only.block h₁ h₂) (only.block h₃ h₄)

/-! ## Allocation and release -/

theorem Block.address_lt (b : Block) : b.address < 2 ^ 32 := by
  have := b.inside
  have := b.size_ge
  simp only [heapEnd] at *
  omega

/-- A message under construction in slot `s`, next to the messages of `p`. -/
structure Begun (foreign : Finset Block) (p p' : Pool) (s : SlotIndex) (m b : Block)
    (bytes : List Byte) : Prop where
  owned : Ownership foreign p'
  free : ¬p.SlotUsed s
  slots : ∀ s', p'.SlotUsed s' ↔ s' = s ∨ p.SlotUsed s'
  blocks : ∀ c, p'.heap.Used c ↔ c = m ∨ c = b ∨ p.heap.Used c
  regions : p'.heap.regions = p.heap.regions
  stored : Stored p' s m b
  bytes : p'.bodyBytes m.address = bytes
  keeps : Keeps p p'

/-- Messages that are kept, and new ones that are stored, make a sound pool. -/
theorem Sound.kept (sound : Sound foreign p) (owned : Ownership foreign p') (keeps : Keeps p p')
    (slots : ∀ s, p'.SlotUsed s → p.SlotUsed s ∨ ∃ m b, Stored p' s m b) : Sound foreign p' := by
  refine ⟨owned, fun s used => ?_⟩
  rcases slots s used with before | new
  · obtain ⟨m, b, stored⟩ := sound.stored s before
    exact ⟨m, b, (keeps s m b (Set.notMem_empty _) stored).1⟩
  · exact new

theorem Begun.sound {bytes : List Byte} (begun : Begun foreign p p' s m b bytes)
    (sound : Sound foreign p) : Sound foreign p' := by
  refine sound.kept begun.owned begun.keeps fun s' used => ?_
  rcases (begun.slots s').mp used with rfl | before
  · exact .inr ⟨m, b, begun.stored⟩
  · exact .inl before

theorem Gains.keeps (gains : Gains p p' s m b) (owned : Ownership foreign p) : Keeps p p' := by
  intro s' m' b' _ stored
  obtain ⟨usedMsg, usedBuffer⟩ := owned.blocks_used stored
  have apart : ∀ {c}, p.heap.Used c → c ≠ m ∧ c ≠ b := by
    refine fun used => ⟨?_, ?_⟩
    · rintro rfl; exact gains.freeMsg used
    · rintro rfl; exact gains.freeBuffer used
  have only : OnlyBlocks m b p p' := gains.mem
  exact stored.untouched (gains.old_slot stored.used)
    (only.block (apart usedMsg).1 (apart usedMsg).2)
    (only.block (apart usedBuffer).1 (apart usedBuffer).2)

theorem Gains.begun (gains : Gains p p' s m b) (owned : Ownership foreign p)
    (init : ∃ mem, p'.heap.mem = initNngMsg mem m.address b.address) :
    Begun foreign p p' s m b [] := by
  obtain ⟨mem, init⟩ := init
  have body : p'.body m.address = b.address := by
    rw [Pool.body, init, initNngMsg_body _ _ b.address_lt]
  have empty : p'.bodyLen m.address = 0 := by rw [Pool.bodyLen, init, initNngMsg_bodyLen]
  exact ⟨owned.gain gains, gains.freeSlot, gains.slotUsed, gains.used, gains.regions,
    ⟨gains.new_slot, body, by omega⟩, by rw [Pool.bodyBytes, empty]; rfl, gains.keeps owned⟩

theorem Ownership.alloc (owned : Ownership foreign p) (size : Nat) :
    (∃ rv p', nngMsgAlloc p size = (.error rv, p') ∧ Unchanged p p') ∨
      ∃ s m b p', nngMsgAlloc p size = (.ok m.address, p') ∧ Begun foreign p p' s m b [] := by
  obtain failed | ⟨s, m, b, p', result, gains, -, init⟩ := nngMsgAlloc_ownership owned.laid size
  · exact .inl failed
  · exact .inr ⟨s, m, b, p', result, gains.begun owned init⟩

theorem Loses.keeps (loses : Loses p p' s m b) (owned : Ownership foreign p) :
    KeepsOutside {s} p p' := by
  intro s' m' b' other stored'
  have slot : (p.msgSlots s').pointer false = m'.address := by rw [stored'.slot]; rfl
  have buffer : (p.msgSlots s').pointer true = b'.address := by rw [stored'.slot]; rfl
  obtain ⟨h₁, h₂⟩ := loses.other_block owned other stored'.used slot
  obtain ⟨h₃, h₄⟩ := loses.other_block owned other stored'.used buffer
  have only : OnlyBlocks m b p p' := loses.mem
  exact stored'.untouched (loses.other_slot other) (only.block h₁ h₂) (only.block h₃ h₄)

theorem Sound.lose (sound : Sound foreign p) (loses : Loses p p' s m b) : Sound foreign p' := by
  refine ⟨sound.owned.lose loses, fun s' used => ?_⟩
  obtain ⟨other, before⟩ := (loses.slotUsed s').mp used
  obtain ⟨m', b', stored⟩ := sound.stored s' before
  exact ⟨m', b', (loses.keeps sound.owned s' m' b' other stored).1⟩

/-- Messages of `p` were freed, and the others are the same in `p'`. -/
structure Freed (foreign : Finset Block) (p p' : Pool) : Prop where
  sound : Sound foreign p'
  slots : ∀ s, p'.SlotUsed s → p.SlotUsed s
  kept : KeepsOutside {s | ¬p'.SlotUsed s} p p'

theorem Sound.freed (sound : Sound foreign p) (x : Nat) : Freed foreign p (nngMsgFree p x).2 := by
  obtain ⟨-, same⟩ | ⟨s, m, b, -, loses⟩ := nngMsgFree_ownership sound.owned x
  · rw [same]
    exact ⟨sound, fun _ used => used, fun _ _ _ _ stored => ⟨stored, rfl⟩⟩
  · refine ⟨sound.lose loses, fun s' used => ((loses.slotUsed s').mp used).2, ?_⟩
    intro s' m' b' used stored
    refine loses.keeps sound.owned s' m' b' ?_ stored
    exact ((loses.slotUsed s').mp (not_not.mp used)).1

theorem Sound.freeAll (sound : Sound foreign p) (msgs : List Nat) :
    Freed foreign p (freeAll p msgs) := by
  induction msgs generalizing p with
  | nil => exact ⟨sound, fun _ used => used, fun _ _ _ _ stored => ⟨stored, rfl⟩⟩
  | cons x msgs ih =>
      have first := sound.freed x
      have rest := ih first.sound
      refine ⟨rest.sound, fun s used => first.slots s (rest.slots s used), ?_⟩
      intro s m b used stored
      have between := not_not.mpr (rest.slots s (not_not.mp used))
      obtain ⟨stored', same⟩ := first.kept s m b between stored
      obtain ⟨stored'', same'⟩ := rest.kept s m b used stored'
      exact ⟨stored'', same'.trans same⟩

/-- Freeing a message loses exactly its slot and its two blocks. -/
theorem Ownership.free_stored (owned : Ownership foreign p) (stored : Stored p s m b) :
    Loses p (nngMsgFree p m.address).2 s m b := by
  have mine : (p.msgSlots s).msg = m.address := by rw [stored.slot]
  obtain ⟨dead, -⟩ | ⟨s', m', b', msg, loses⟩ := nngMsgFree_ownership owned m.address
  · exact absurd mine (dead s stored.used)
  · obtain ⟨rfl, -⟩ := owned.distinct s' s false false loses.usedSlot stored.used
      (msg.trans mine.symm)
    have sameMsg : m' = m := Block.address_inj (loses.msg.symm.trans mine)
    have sameBuffer : b' = b :=
      Block.address_inj (loses.buffer.symm.trans (by rw [stored.slot]))
    rwa [sameMsg, sameBuffer] at loses

/-- What is left when a message under construction is given up. -/
structure GivenUp (foreign : Finset Block) (p p' : Pool) : Prop where
  owned : Ownership foreign p'
  slots : ∀ s, p'.SlotUsed s ↔ p.SlotUsed s
  blocks : ∀ c, p'.heap.Used c → p.heap.Used c
  regions : p'.heap.regions = p.heap.regions
  keeps : Keeps p p'

theorem GivenUp.sound (givenUp : GivenUp foreign p p') (sound : Sound foreign p) :
    Sound foreign p' :=
  sound.kept givenUp.owned givenUp.keeps fun s used => .inl ((givenUp.slots s).mp used)

theorem Unchanged.givenUp (same : Unchanged p p') (owned : Ownership foreign p) :
    GivenUp foreign p p' := by
  refine ⟨owned.unchanged same, fun s => by simp [Pool.SlotUsed, same.slots],
    fun c used => (same.used c).mp used, same.regions, fun s m b _ stored => ?_⟩
  obtain ⟨usedMsg, usedBuffer⟩ := owned.blocks_used stored
  exact stored.untouched (by rw [same.slots]) (same.mem m usedMsg) (same.mem b usedBuffer)

theorem Begun.freed {bytes : List Byte} (begun : Begun foreign p p' s m b bytes) :
    GivenUp foreign p (nngMsgFree p' m.address).2 := by
  have loses := begun.owned.free_stored begun.stored
  refine ⟨begun.owned.lose loses, fun s' => ?_, fun c used => ?_,
    loses.regions.trans begun.regions, ?_⟩
  · rw [loses.slotUsed, begun.slots]
    constructor
    · rintro ⟨other, rfl | used⟩
      · exact absurd rfl other
      · exact used
    · intro used
      refine ⟨?_, .inr used⟩
      rintro rfl
      exact begun.free used
  · obtain ⟨notMsg, notBuffer, used⟩ := (loses.used c).mp used
    rcases (begun.blocks c).mp used with rfl | rfl | before
    · exact absurd rfl notMsg
    · exact absurd rfl notBuffer
    · exact before
  · have kept := KeepsOutside.trans begun.keeps (loses.keeps begun.owned)
    rw [Set.empty_union] at kept
    exact kept.keeps begun.free

/-! ## Appending -/

/-- The memory after an append: the data behind the body, the new length, the checksum. -/
def appendedMem (p : Pool) (m b : Block) (data : Data) (checksum : Nat) : Mem :=
  ((data.copyTo p.heap.mem (b.address + p.bodyLen m.address)).writeWord (m.address + 4)
    (p.bodyLen m.address + data.size)).writeWord (m.address + 20) checksum

variable {data : Data}

theorem appendedMem_eqOn (checksum : Nat) (room : p.bodyLen m.address + data.size ≤ b.size)
    {a n : Nat}
    (header : a + n ≤ m.address + 4 ∨ m.address + 24 ≤ a)
    (buffer : a + n ≤ b.address + p.bodyLen m.address ∨ b.address + b.size ≤ a) :
    Mem.EqOn (appendedMem p m b data checksum) p.heap.mem a n := by
  refine (Mem.writeWord_eqOn _ _ (by omega)).trans ?_
  refine (Mem.writeWord_eqOn _ _ (by omega)).trans ?_
  exact data.copyTo_eqOn _ (by omega)

theorem appendedMem_stored (checksum : Nat) (stored : Stored p s m b) (different : m ≠ b)
    (room : p.bodyLen m.address + data.size ≤ b.size) :
    Stored (p.withMem (appendedMem p m b data checksum)) s m b ∧
      (p.withMem (appendedMem p m b data checksum)).bodyBytes m.address =
        p.bodyBytes m.address ++
          (data.copyTo p.heap.mem (b.address + p.bodyLen m.address)).read
            (b.address + p.bodyLen m.address) data.size := by
  have apart := Block.apart different
  have large := m.size_ge
  have sizes := b.inside
  simp only [heapEnd] at sizes
  set mem := appendedMem p m b data checksum with mem_eq
  have body : (p.withMem mem).body m.address = b.address := by
    rw [← stored.body]
    exact (appendedMem_eqOn checksum room (by omega) (by omega)).readWord_eq
  have bodyLen : (p.withMem mem).bodyLen m.address = p.bodyLen m.address + data.size := by
    have kept : Mem.EqOn mem ((data.copyTo p.heap.mem (b.address + p.bodyLen m.address)).writeWord
        (m.address + 4) (p.bodyLen m.address + data.size)) (m.address + 4) 4 :=
      Mem.writeWord_eqOn _ _ (by omega)
    exact kept.readWord_eq.trans (Mem.readWord_writeWord _ _ _ (by omega))
  refine ⟨⟨stored.slot, body, by rw [bodyLen]; exact room⟩, ?_⟩
  have front : Mem.EqOn mem p.heap.mem b.address (p.bodyLen m.address) :=
    appendedMem_eqOn checksum room (by omega) (by omega)
  have back : Mem.EqOn mem (data.copyTo p.heap.mem (b.address + p.bodyLen m.address))
      (b.address + p.bodyLen m.address) data.size :=
    (Mem.writeWord_eqOn _ _ (by omega)).trans (Mem.writeWord_eqOn _ _ (by omega))
  rw [Pool.bodyBytes, body, bodyLen, Pool.bodyBytes, stored.body, Mem.read_append]
  exact congrArg₂ (· ++ ·) front.read_eq back.read_eq

/-- An append that succeeds extends the body in place. -/
theorem nngMsgAppend_stored (stored : Stored p s m b) (different : m ≠ b)
    (room : p.bodyLen m.address + data.size ≤ b.size) :
    (∃ rv, rv ≠ .ok ∧ nngMsgAppend p m.address data = (rv, p)) ∨
      ∃ checksum, nngMsgAppend p m.address data =
        (.ok, p.withMem (appendedMem p m b data checksum)) := by
  have apart := Block.apart different
  have large := m.size_ge
  exact nngMsgAppend_writes data m.address_ne_zero stored.body rfl (by omega)

theorem Ownership.append (owned : Ownership foreign p) (stored : Stored p s m b)
    (room : p.bodyLen m.address + data.size ≤ b.size) :
    (∃ rv, rv ≠ .ok ∧ nngMsgAppend p m.address data = (rv, p)) ∨
      ∃ mem, nngMsgAppend p m.address data = (.ok, p.withMem mem) ∧
        Stored (p.withMem mem) s m b ∧ KeepsOutside {s} p (p.withMem mem) ∧
        (p.withMem mem).bodyBytes m.address = p.bodyBytes m.address ++
          (data.copyTo p.heap.mem (b.address + p.bodyLen m.address)).read
            (b.address + p.bodyLen m.address) data.size := by
  have different := owned.header_ne_buffer stored
  obtain failed | ⟨checksum, result⟩ := nngMsgAppend_stored stored different room
  · exact .inl failed
  have large := m.size_ge
  have only : OnlyBlocks m b p (p.withMem (appendedMem p m b data checksum)) := by
    intro a n header buffer
    exact appendedMem_eqOn checksum room (by omega) (by omega)
  obtain ⟨stored', bytes⟩ := appendedMem_stored checksum stored different room
  exact .inr ⟨_, result, stored', owned.keeps_others stored rfl only, bytes⟩

/-- The bytes that `data` provides, wherever they are copied in the block `b`. -/
def Data.Provides (data : Data) (mem : Mem) (b : Block) (bytes : List Byte) : Prop :=
  match data with
  | .object content => content = bytes
  | .range address size => mem.read address size = bytes ∧
      (address + size ≤ b.address ∨ b.address + b.size ≤ address)

theorem Data.Provides.size_eq {mem : Mem} {bytes : List Byte} (h : data.Provides mem b bytes) :
    data.size = bytes.length := by
  cases data with
  | object content => exact congrArg List.length h
  | range address size =>
      rw [← h.1]
      simp [Data.size]

theorem Data.Provides.read {mem : Mem} {bytes : List Byte} (h : data.Provides mem b bytes)
    {offset : Nat} (room : offset + data.size ≤ b.size) :
    (data.copyTo mem (b.address + offset)).read (b.address + offset) data.size = bytes := by
  cases data with
  | object content =>
      obtain rfl : content = bytes := h
      exact Mem.read_write mem _ content
  | range address size =>
      obtain ⟨read, apart⟩ := h
      simp only [Data.size] at room
      exact (Mem.read_copy mem _ _ (by omega)).trans read

/-- Construction goes on by an append, which fails without a trace or adds its bytes. -/
theorem Begun.append {old bytes : List Byte} (begun : Begun foreign p p' s m b old)
    (provides : data.Provides p'.heap.mem b bytes) (room : old.length + bytes.length ≤ 64) :
    (∃ rv, rv ≠ .ok ∧ nngMsgAppend p' m.address data = (rv, p')) ∨
      ∃ p'', nngMsgAppend p' m.address data = (.ok, p'') ∧
        Begun foreign p p'' s m b (old ++ bytes) := by
  have large := b.size_ge
  have length : p'.bodyLen m.address = old.length := by
    rw [← begun.bytes, Pool.bodyBytes_length]
  have size := provides.size_eq
  have fits : p'.bodyLen m.address + data.size ≤ b.size := by omega
  obtain failed | ⟨mem, result, stored, keeps, grown⟩ := begun.owned.append begun.stored fits
  · exact .inl failed
  refine .inr ⟨_, result, begun.owned.withMem mem, begun.free, begun.slots, begun.blocks,
    begun.regions, stored, ?_, ?_⟩
  · rw [grown, begun.bytes, provides.read fits]
  · have kept := KeepsOutside.trans begun.keeps keeps
    rw [Set.empty_union] at kept
    exact kept.keeps begun.free

/-! ## Conversion and delivery -/

/-- What `lugh_message_to_nng` puts into the body. -/
def encodedBytes (m : Message) : List Byte :=
  wordBytes 1 (m.priority.setWidth 8) ++ wordBytes 4 m.operation ++ (cString m.payload ++ [0])

/-- The encoding fits into one block of the first size class. -/
def Short (m : Message) : Prop := (cString m.payload).length ≤ 58

instance (m : Message) : Decidable (Short m) := inferInstanceAs (Decidable (_ ≤ _))

theorem encodedBytes_length (m : Message) :
    (encodedBytes m).length = (cString m.payload).length + 6 := by
  simp only [encodedBytes, List.length_append, wordBytes_length, List.length_singleton]
  omega

theorem Begun.appendAll {old : List Byte} (begun : Begun foreign p p' s m b old)
    (parts : List (List Byte)) (room : old.length + parts.flatten.length ≤ 64) :
    (∃ rv p'' bytes, rv ≠ .ok ∧ appendAll p' m.address (parts.map Data.object) = (rv, p'') ∧
        Begun foreign p p'' s m b bytes) ∨
      ∃ p'', appendAll p' m.address (parts.map Data.object) = (.ok, p'') ∧
        Begun foreign p p'' s m b (old ++ parts.flatten) := by
  induction parts generalizing p' old with
  | nil => exact .inr ⟨p', rfl, by simpa using begun⟩
  | cons part parts ih =>
      rw [List.flatten_cons, List.length_append] at room
      have provides : (Data.object part).Provides p'.heap.mem b part := rfl
      obtain ⟨rv, failed, result⟩ | ⟨p'', result, grown⟩ := begun.append provides (by omega)
      · refine .inl ⟨rv, p', old, failed, ?_, begun⟩
        simp only [List.map_cons, Kernel.appendAll, result]
      · have rest := ih grown (by rw [List.length_append]; omega)
        simpa only [List.map_cons, Kernel.appendAll, result, List.flatten_cons, List.append_assoc]
          using rest

/-- The conversion of a short message fails without a trace or builds its encoding. -/
theorem Ownership.lughMessageToNng (owned : Ownership foreign p) {msg : Message}
    (short : Short msg) :
    (∃ rv p', lughMessageToNng p msg = (.error rv, p') ∧ GivenUp foreign p p') ∨
      ∃ s m b p', lughMessageToNng p msg = (.ok m.address, p') ∧
        Begun foreign p p' s m b (encodedBytes msg) := by
  unfold Kernel.lughMessageToNng
  obtain ⟨rv, p', failed, same⟩ | ⟨s, m, b, p', result, begun⟩ := owned.alloc 0
  · rw [failed]
    exact .inl ⟨rv, p', rfl, same.givenUp owned⟩
  rw [result]
  have fields : encodedFields msg =
      [wordBytes 1 (msg.priority.setWidth 8), wordBytes 4 msg.operation,
        cString msg.payload ++ [0]].map Data.object := rfl
  have room : ([] : List Byte).length + [wordBytes 1 (msg.priority.setWidth 8),
      wordBytes 4 msg.operation, cString msg.payload ++ [0]].flatten.length ≤ 64 := by
    simp only [Short] at short
    simp
    omega
  dsimp only
  rw [fields]
  obtain ⟨rv, p'', bytes, failed, result, built⟩ | ⟨p'', result, built⟩ := begun.appendAll _ room
  · refine .inl ⟨rv, _, ?_, built.freed⟩
    rw [result]
    split
    · rename_i h; exact absurd (Prod.mk.inj h).1 failed
    · rename_i h; cases h; rfl
  · rw [result]
    exact .inr ⟨s, m, b, p'', rfl, by simpa [encodedBytes] using built⟩

/-- The copy of a body of at most 64 bytes into a new message. -/
theorem Begun.copyBody {t : SlotIndex} {n c : Block} (begun : Begun foreign p p' t n c [])
    (stored : Stored p s m b) (small : p.bodyLen m.address ≤ 64) :
    (∃ rv, rv ≠ .ok ∧ copyBody p' n.address m.address = (rv, p')) ∨
      ∃ p'', copyBody p' n.address m.address = (.ok, p'') ∧
        Begun foreign p p'' t n c (p.bodyBytes m.address) := by
  obtain ⟨stored', same⟩ := begun.keeps s m b (Set.notMem_empty _) stored
  have length : p'.bodyLen m.address = p.bodyLen m.address := by
    rw [← Pool.bodyBytes_length, same, Pool.bodyBytes_length]
  unfold Kernel.copyBody
  split
  · have other : s ≠ t := by
      rintro rfl
      exact begun.free stored.used
    have apart := Block.apart (begun.owned.blocks_apart stored' begun.stored other).2.2.2
    have fits := stored'.fits
    refine begun.append ⟨same, ?_⟩ (by simpa [Pool.bodyBytes_length] using small)
    rw [stored'.body]
    omega
  · have empty : p.bodyBytes m.address = [] :=
      List.length_eq_zero_iff.mp (by rw [Pool.bodyBytes_length]; omega)
    exact .inr ⟨p', rfl, by rw [empty]; exact begun⟩

/-- What a delivery of the message in block `m` to socket `d` leaves: a failure without a
trace, or a new message with the same bytes at the end of the queue. -/
inductive Delivered (foreign : Finset Block) (n : Nng) (d : SocketId) (m : Block) :
    Rv × Nng → Prop where
  | failed {rv n'} (failed : rv ≠ .ok) (queues : n'.recvQueues = n.recvQueues)
      (givenUp : GivenUp foreign n.pool n'.pool) : Delivered foreign n d m (rv, n')
  | copied {n' s c b} (begun : Begun foreign n.pool n'.pool s c b (n.pool.bodyBytes m.address))
      (room : (n.recvQueues d).length < maxQueuedMsgs)
      (queues : n'.recvQueues =
        Function.update n.recvQueues d (n.recvQueues d ++ [c.address])) :
      Delivered foreign n d m (.ok, n')

theorem Ownership.deliverCopy {n : Nng} (owned : Ownership foreign n.pool) (d : SocketId)
    (stored : Stored n.pool s m b) (small : n.pool.bodyLen m.address ≤ 64) :
    Delivered foreign n d m (deliverCopy n d m.address) := by
  -- every case after the allocation builds a copy in some free slot
  have copying : ∀ {copy p rv p'}, nngMsgAlloc n.pool 0 = (.ok copy, p) →
      copyBody p copy m.address = (rv, p') → ∃ t c e bytes, copy = c.address ∧
        Begun foreign n.pool p' t c e bytes ∧ (rv = .ok → bytes = n.pool.bodyBytes m.address) := by
    intro copy p rv p' alloc copied
    obtain ⟨_, _, failed, -⟩ | ⟨t, c, e, p₁, result, begun⟩ := owned.alloc 0
    · rw [failed] at alloc
      cases alloc
    rw [result] at alloc
    cases alloc
    obtain ⟨rv', failed, result'⟩ | ⟨p'', result', built⟩ := begun.copyBody stored small
    · rw [result'] at copied
      cases copied
      exact ⟨t, c, e, [], rfl, begun, fun h => absurd h failed⟩
    · rw [result'] at copied
      cases copied
      exact ⟨t, c, e, _, rfl, built, fun _ => rfl⟩
  have delivery := deliverCopy_delivery n d m.address
  generalize Kernel.deliverCopy n d m.address = result at delivery
  cases delivery with
  | noMessage alloc =>
      obtain ⟨rv, p', failed, same⟩ | ⟨_, _, _, _, result, -⟩ := owned.alloc 0
      · have nok := nngMsgAlloc_error alloc
        rw [failed] at alloc
        cases alloc
        exact .failed nok rfl (same.givenUp owned)
      · rw [result] at alloc
        cases alloc
  | notCopied alloc copied failed =>
      obtain ⟨t, c, e, bytes, rfl, begun, -⟩ := copying alloc copied
      exact .failed failed rfl begun.freed
  | queueFull alloc copied full =>
      obtain ⟨t, c, e, bytes, rfl, begun, -⟩ := copying alloc copied
      exact .failed (by decide) rfl begun.freed
  | enqueued alloc copied room =>
      obtain ⟨t, c, e, bytes, rfl, begun, same⟩ := copying alloc copied
      obtain rfl := same rfl
      exact .copied begun room rfl

theorem Delivered.sound {n : Nng} {d : SocketId} {result : Rv × Nng}
    (delivered : Delivered foreign n d m result) (sound : Sound foreign n.pool) :
    Sound foreign result.2.pool ∧ Keeps n.pool result.2.pool := by
  cases delivered with
  | failed _ _ givenUp => exact ⟨givenUp.sound sound, givenUp.keeps⟩
  | copied begun _ _ => exact ⟨begun.sound sound, begun.keeps⟩

/-- Message `y` of `p'` is not one of `p`, and it holds `bytes`. -/
def NewMessage (p p' : Pool) (bytes : List Byte) (y : Nat) : Prop :=
  ∃ s c e, ¬p.SlotUsed s ∧ Stored p' s c e ∧ c.address = y ∧ p'.bodyBytes y = bytes

theorem NewMessage.kept {bytes : List Byte} {y : Nat} {gone : Set SlotIndex}
    (new : NewMessage p p' bytes y) (keeps : KeepsOutside gone p' p'')
    (before : ∀ s ∈ gone, p.SlotUsed s) : NewMessage p p'' bytes y := by
  obtain ⟨s, c, e, free, stored, rfl, held⟩ := new
  obtain ⟨stored', same⟩ := keeps s c e (fun member => free (before s member)) stored
  exact ⟨s, c, e, free, stored', rfl, same.trans held⟩

/-- What a send of a message with these bytes does to the messages and the queues. -/
structure Copies (foreign : Finset Block) (n n' : Nng) (bytes : List Byte) : Prop where
  sound : Sound foreign n'.pool
  keeps : Keeps n.pool n'.pool
  added : ∀ e y, y ∈ n'.recvQueues e →
    y ∈ n.recvQueues e ∨ NewMessage n.pool n'.pool bytes y

theorem Keeps.slotUsed (keeps : Keeps p p') (sound : Sound foreign p) (used : p.SlotUsed s) :
    p'.SlotUsed s := by
  obtain ⟨m, b, stored⟩ := sound.stored s used
  exact (keeps s m b (Set.notMem_empty _) stored).1.used

theorem Copies.deliver {n n' : Nng} {d : SocketId} {result : Rv × Nng}
    (copies : Copies foreign n n' (n.pool.bodyBytes m.address)) (sound : Sound foreign n.pool)
    (same : n'.pool.bodyBytes m.address = n.pool.bodyBytes m.address)
    (delivered : Delivered foreign n' d m result) :
    Copies foreign n result.2 (n.pool.bodyBytes m.address) := by
  obtain ⟨sound', keeps⟩ := delivered.sound copies.sound
  have older : ∀ e y, y ∈ n'.recvQueues e → y ∈ n.recvQueues e ∨
      NewMessage n.pool result.2.pool (n.pool.bodyBytes m.address) y := fun e y member =>
    (copies.added e y member).imp_right fun new =>
      new.kept keeps fun _ absurdity => absurdity.elim
  refine ⟨sound', copies.keeps.trans keeps, fun e y member => ?_⟩
  cases delivered with
  | failed _ queues _ =>
      rw [queues] at member
      exact older e y member
  | @copied n'' t c b begun _ queues =>
      rw [queues] at member
      by_cases here : e = d
      · subst here
        rw [Function.update_self, List.mem_append, List.mem_singleton] at member
        obtain old | rfl := member
        · exact older e y old
        · exact .inr ⟨t, c, b, fun used => begun.free (copies.keeps.slotUsed sound used),
            begun.stored, rfl, begun.bytes.trans same⟩
      · rw [Function.update_of_ne here] at member
        exact older e y member

/-- A send keeps every message as it is and queues copies of the one sent. -/
theorem Routes.copies {n n' : Nng} {id : SocketId} (routes : Routes n id m.address n')
    (sound : Sound foreign n.pool) (stored : Stored n.pool s m b)
    (small : n.pool.bodyLen m.address ≤ 64) :
    Copies foreign n n' (n.pool.bodyBytes m.address) := by
  induction routes with
  | start => exact ⟨sound, Keeps.refl _, fun _ _ member => .inl member⟩
  | @deliver n' d before target ih =>
      obtain ⟨stored', same⟩ := ih.keeps s m b (Set.notMem_empty _) stored
      have small' : n'.pool.bodyLen m.address ≤ 64 := by
        rwa [← Pool.bodyBytes_length, same, Pool.bodyBytes_length]
      exact ih.deliver sound same (ih.sound.owned.deliverCopy d stored' small')
  | readdress _ _ ih => exact ⟨ih.sound, ih.keeps, ih.added⟩

end LughOS.Kernel

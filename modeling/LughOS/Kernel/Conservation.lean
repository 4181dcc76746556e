import LughOS.Kernel.Connections
import LughOS.Kernel.Ownership

/-!
# The message pool does not leak

A message is allocated, converted, copied once per receiver, queued, received and freed,
with an error exit at almost every step. `Balanced foreign n hand` is the conservation law
behind these moves: as multisets, the handles of the live messages are the queued ones
together with those a running call still holds in its `hand`. Every pool and queue
operation moves handles between the three, and every exit of a call empties the hand.

`pool_does_not_leak` states the law between calls, where nobody holds anything.
-/

namespace LughOS.Kernel

/-! ## Handles -/

def liveSlots (p : Pool) : Finset SlotIndex := Finset.univ.filter p.SlotUsed

def liveHandles (p : Pool) : Multiset Nat := (liveSlots p).val.map fun s => (p.msgSlots s).msg

def queuedHandles (queues : SocketId → List Nat) : Multiset Nat :=
  ∑ d, (queues d : Multiset Nat)

/-- The handles of the live messages are those in the queues and those in hand. -/
structure Balanced (foreign : Finset Block) (n : Nng) (hand : Multiset Nat) : Prop where
  owned : Ownership foreign n.pool
  balance : liveHandles n.pool = queuedHandles n.recvQueues + hand

@[simp] theorem mem_liveSlots {p : Pool} {s : SlotIndex} : s ∈ liveSlots p ↔ p.SlotUsed s := by
  simp [liveSlots]

variable {foreign : Finset Block} {p p' : Pool} {s : SlotIndex} {m b : Block}

theorem liveHandles_congr {slots : Finset SlotIndex}
    (same : ∀ s ∈ slots, p'.msgSlots s = p.msgSlots s) :
    slots.val.map (fun s => (p'.msgSlots s).msg) = slots.val.map fun s => (p.msgSlots s).msg :=
  Multiset.map_congr rfl fun s member => by rw [same s member]

theorem Gains.liveSlots_eq (gains : Gains p p' s m b) :
    liveSlots p' = insert s (liveSlots p) := by
  ext s'
  simp [gains.slotUsed]

theorem Gains.liveHandles_eq (gains : Gains p p' s m b) :
    liveHandles p' = m.address ::ₘ liveHandles p := by
  have new : s ∉ liveSlots p := by simpa using gains.freeSlot
  rw [liveHandles, gains.liveSlots_eq, Finset.insert_val_of_notMem new, Multiset.map_cons,
    gains.new_slot, liveHandles_congr fun s' member => gains.old_slot (mem_liveSlots.mp member)]
  rfl

theorem Loses.liveSlots_eq (loses : Loses p p' s m b) :
    liveSlots p = insert s (liveSlots p') ∧ s ∉ liveSlots p' := by
  constructor
  · ext s'
    by_cases it : s' = s
    · simp [it, loses.usedSlot]
    · simp [loses.slotUsed, it]
  · simp [loses.slotUsed]

theorem Loses.liveHandles_eq (loses : Loses p p' s m b) :
    liveHandles p = (p.msgSlots s).msg ::ₘ liveHandles p' := by
  obtain ⟨split, gone⟩ := loses.liveSlots_eq
  rw [liveHandles, split, Finset.insert_val_of_notMem gone, Multiset.map_cons]
  congr 1
  refine (liveHandles_congr fun s' member => loses.other_slot ?_).symm
  rintro rfl
  exact gone member

theorem Unchanged.liveHandles_eq (same : Unchanged p p') : liveHandles p' = liveHandles p := by
  have slots : liveSlots p' = liveSlots p := by
    ext s
    simp [Pool.SlotUsed, same.slots]
  rw [liveHandles, slots, same.slots, liveHandles]

theorem queuedHandles_update (queues : SocketId → List Nat) (d : SocketId) (queue : List Nat) :
    queuedHandles (Function.update queues d queue) + queues d = queuedHandles queues + queue := by
  have others : ∑ e ∈ Finset.univ.erase d, (Function.update queues d queue e : Multiset Nat) =
      ∑ e ∈ Finset.univ.erase d, (queues e : Multiset Nat) :=
    Finset.sum_congr rfl fun e member => by
      rw [Function.update_of_ne (Finset.ne_of_mem_erase member)]
  rw [queuedHandles, queuedHandles, ← Finset.add_sum_erase _ _ (Finset.mem_univ d), others,
    ← Finset.add_sum_erase _ (fun e => (queues e : Multiset Nat)) (Finset.mem_univ d),
    Function.update_self]
  abel

/-! ## The moves -/

variable {n n' : Nng} {hand : Multiset Nat} {x : Nat}

theorem Balanced.alloc (balanced : Balanced foreign n hand) {size : Nat}
    (alloc : nngMsgAlloc n.pool size = (.ok x, p')) :
    Balanced foreign { n with pool := p' } (x ::ₘ hand) := by
  obtain ⟨rv, p'', failed, -⟩ | ⟨s, m, b, p'', ok, gains, -⟩ :=
    nngMsgAlloc_ownership balanced.owned.laid size
  · rw [failed] at alloc
    cases alloc
  · rw [ok] at alloc
    cases alloc
    refine ⟨balanced.owned.gain gains, ?_⟩
    rw [gains.liveHandles_eq, balanced.balance, Multiset.add_cons]

theorem Balanced.allocFailed (balanced : Balanced foreign n hand) {size : Nat} {rv : Rv}
    (alloc : nngMsgAlloc n.pool size = (.error rv, p')) :
    Balanced foreign { n with pool := p' } hand := by
  obtain ⟨rv, p'', failed, same⟩ | ⟨s, m, b, p'', ok, -⟩ :=
    nngMsgAlloc_ownership balanced.owned.laid size
  · rw [failed] at alloc
    cases alloc
    refine ⟨balanced.owned.unchanged same, ?_⟩
    rw [same.liveHandles_eq]
    exact balanced.balance
  · rw [ok] at alloc
    cases alloc

/-- What is written into the heap does not matter. -/
theorem Balanced.withMem (balanced : Balanced foreign n hand) (mem : Mem) :
    Balanced foreign { n with pool := n.pool.withMem mem } hand :=
  ⟨balanced.owned.withMem mem, balanced.balance⟩

theorem Balanced.freeMsg (balanced : Balanced foreign n (x ::ₘ hand)) :
    Balanced foreign (n.freeMsg x) hand := by
  have live : x ∈ liveHandles n.pool := by
    rw [balanced.balance]
    exact Multiset.mem_add.mpr (.inr (Multiset.mem_cons_self x hand))
  obtain ⟨s, used, msg⟩ := Multiset.mem_map.mp live
  obtain ⟨dead, -⟩ | ⟨s', m, b, rfl, loses⟩ := nngMsgFree_ownership balanced.owned x
  · exact absurd msg (dead s (mem_liveSlots.mp used))
  · refine ⟨balanced.owned.lose loses, ?_⟩
    have before := balanced.balance
    rw [loses.liveHandles_eq, Multiset.add_cons] at before
    exact (Multiset.cons_inj_right _).mp before

theorem Balanced.enqueue (balanced : Balanced foreign n (x ::ₘ hand)) (d : SocketId) :
    Balanced foreign { n with recvQueues := Function.update n.recvQueues d (n.recvQueues d ++ [x]) }
      hand := by
  refine ⟨balanced.owned, ?_⟩
  have grown := queuedHandles_update n.recvQueues d (n.recvQueues d ++ [x])
  rw [← Multiset.coe_add, ← add_assoc, add_right_comm, add_left_inj] at grown
  rw [balanced.balance, grown, ← Multiset.singleton_add, Multiset.coe_singleton, add_assoc]

/-- The first message of a queue goes into the receiver's hand. -/
theorem Balanced.dequeue (balanced : Balanced foreign n hand) {d : SocketId} {rest : List Nat}
    (queue : n.recvQueues d = x :: rest) :
    Balanced foreign { n with recvQueues := Function.update n.recvQueues d rest }
      (x ::ₘ hand) := by
  refine ⟨balanced.owned, ?_⟩
  have shrunk := queuedHandles_update n.recvQueues d rest
  rw [queue, ← Multiset.cons_coe, ← Multiset.singleton_add, ← add_assoc, add_left_inj] at shrunk
  rw [balanced.balance, ← shrunk, ← Multiset.singleton_add, add_assoc]

/-! ## The calls -/

theorem copyBody_withMem (p : Pool) (copy src : Nat) :
    ∃ mem, (copyBody p copy src).2 = p.withMem mem := by
  unfold copyBody
  split
  · exact nngMsgAppend_withMem _ _ _
  · exact ⟨p.heap.mem, rfl⟩

theorem appendAll_withMem (p : Pool) (x : Nat) (parts : List Data) :
    ∃ mem, (appendAll p x parts).2 = p.withMem mem := by
  induction parts generalizing p with
  | nil => exact ⟨p.heap.mem, rfl⟩
  | cons part parts ih =>
      obtain ⟨mem, appended⟩ := nngMsgAppend_withMem p x part
      unfold appendAll
      split
      · rename_i p' ok
        rw [ok] at appended
        obtain ⟨mem', rest⟩ := ih p'
        exact ⟨mem', by rw [rest, show p' = _ from appended]; rfl⟩
      · rename_i failed
        rw [failed] at appended
        exact ⟨mem, appended⟩

theorem Balanced.deliverCopy (balanced : Balanced foreign n hand) (d : SocketId) (src : Nat) :
    Balanced foreign (deliverCopy n d src).2 hand := by
  have copied : ∀ {copy p rv p'}, nngMsgAlloc n.pool 0 = (.ok copy, p) →
      copyBody p copy src = (rv, p') →
      Balanced foreign { n with pool := p' } (copy ::ₘ hand) := by
    intro copy p rv p' alloc copied
    obtain ⟨mem, written⟩ := copyBody_withMem p copy src
    rw [copied] at written
    rw [show p' = _ from written]
    exact (balanced.alloc alloc).withMem mem
  have delivery := deliverCopy_delivery n d src
  generalize Kernel.deliverCopy n d src = result at delivery
  cases delivery with
  | noMessage alloc => exact balanced.allocFailed alloc
  | notCopied alloc body _ => exact (copied alloc body).freeMsg
  | queueFull alloc body full => exact (copied alloc body).freeMsg
  | enqueued alloc body _ => exact (copied alloc body).enqueue d

theorem Balanced.routes {id : SocketId} {src : Nat} (balanced : Balanced foreign n hand)
    (routes : Routes n id src n') : Balanced foreign n' hand := by
  induction routes with
  | start => exact balanced
  | deliver _ _ ih => exact ih.deliverCopy _ src
  | readdress _ _ ih => exact ⟨ih.owned, ih.balance⟩

/-- A conversion that fails frees what it allocated. -/
theorem Balanced.lughMessageToNng (balanced : Balanced foreign n hand) (msg : Message) :
    (∃ rv p', lughMessageToNng n.pool msg = (.error rv, p') ∧
        Balanced foreign { n with pool := p' } hand) ∨
      ∃ x p', lughMessageToNng n.pool msg = (.ok x, p') ∧ x ≠ 0 ∧
        Balanced foreign { n with pool := p' } (x ::ₘ hand) := by
  unfold Kernel.lughMessageToNng
  rcases alloc : nngMsgAlloc n.pool 0 with ⟨rv | x, p⟩
  · exact .inl ⟨rv, p, rfl, balanced.allocFailed alloc⟩
  · obtain ⟨mem, written⟩ := appendAll_withMem p x (encodedFields msg)
    have built : Balanced foreign { n with pool := (appendAll p x (encodedFields msg)).2 }
        (x ::ₘ hand) := by
      rw [written]
      exact (balanced.alloc alloc).withMem mem
    have nonzero : x ≠ 0 := by
      obtain ⟨rv, p'', failed, -⟩ | ⟨s, m, b, p'', ok, -⟩ :=
        nngMsgAlloc_ownership balanced.owned.laid 0
      · rw [failed] at alloc
        cases alloc
      · rw [ok] at alloc
        cases alloc
        exact m.address_ne_zero
    dsimp only
    split
    · rename_i p' ok
      rw [ok] at built
      exact .inr ⟨x, p', rfl, nonzero, built⟩
    · rename_i rv p' _ failed
      rw [failed] at built
      exact .inl ⟨rv, _, rfl, built.freeMsg⟩

theorem Balanced.freeAll (msgs : List Nat)
    (balanced : Balanced foreign n (msgs + hand)) :
    Balanced foreign { n with pool := freeAll n.pool msgs } hand := by
  induction msgs generalizing n with
  | nil => simpa [Kernel.freeAll] using balanced
  | cons x msgs ih =>
      rw [← Multiset.cons_coe, Multiset.cons_add] at balanced
      exact ih balanced.freeMsg

theorem Balanced.closeSocket (balanced : Balanced foreign n 0) (d : SocketId) :
    Balanced foreign (closeSocket n d) 0 := by
  have emptied : Balanced foreign { n with recvQueues := Function.update n.recvQueues d [] }
      (n.recvQueues d + 0) := by
    refine ⟨balanced.owned, ?_⟩
    have moved := queuedHandles_update n.recvQueues d []
    rw [balanced.balance, Multiset.coe_nil] at *
    rw [add_zero, add_zero, moved, add_zero]
  have freed := emptied.freeAll
  rw [closeSocket_eq]
  exact ⟨freed.owned, freed.balance⟩

theorem Balanced.step {s : System} (wired : Wired s) (balanced : Balanced foreign s.nng 0)
    (op : Op) : Balanced foreign (step s op).nng 0 := by
  cases step_moved s op with
  | still pool queues kept =>
      exact ⟨by rw [pool]; exact balanced.owned, by rw [pool, queues]; exact balanced.balance⟩
  | sent id msg ring call sent =>
      generalize (Kernel.step s op).nng = n' at sent
      cases sent with
      | refused => exact balanced
      | unconverted ok converted =>
          obtain ⟨rv, p', failed, kept⟩ | ⟨x, p', built, -⟩ :=
            balanced.lughMessageToNng (sealMessage _)
          · rw [failed] at converted
            cases converted
            exact kept
          · rw [built] at converted
            cases converted
      | unsent ok converted closed =>
          -- the socket of an open channel is open, so the message is always taken over
          obtain ⟨rv, p', failed, -⟩ | ⟨x, p', built, nonzero, -⟩ :=
            balanced.lughMessageToNng (sealMessage _)
          · rw [failed] at converted
            cases converted
          · rw [built] at converted
            cases converted
            obtain ⟨-, used⟩ := openChannel?_eq_some.mp ok.channel
            obtain ⟨d, socket, isOpen, -⟩ := wired.socket _ used
            have valid := Nng.valid?_eq_some.mpr ⟨socket, socketValid_iff.mpr isOpen⟩
            rcases closed with zero | closed
            · exact absurd zero nonzero
            · rw [valid] at closed
              cases closed
      | routed ok converted socket valid routes =>
          obtain ⟨rv, p', failed, -⟩ | ⟨x, p', built, -, held⟩ :=
            balanced.lughMessageToNng (sealMessage _)
          · rw [failed] at converted
            cases converted
          · rw [built] at converted
            cases converted
            exact (held.routes routes).freeMsg
  | received id received =>
      generalize (Kernel.step s op).nng = n' at received
      cases received with
      | refused => exact balanced
      | empty d =>
          exact ⟨by rw [expireSurvey_pool]; exact balanced.owned, by
            rw [expireSurvey_pool, expireSurvey_recvQueues]; exact balanced.balance⟩
      | taken channel socket queue =>
          have taken := balanced.dequeue queue
          refine Balanced.freeMsg ⟨?_, ?_⟩
          · rw [expireSurvey_pool]; exact taken.owned
          · rw [expireSurvey_pool]; exact taken.balance
  | closed c d used socket closed =>
      rw [closed]
      exact balanced.closeSocket d

/-! ## Between calls -/

/-- No message is lost or shared, and each one has two blocks of its own. -/
structure NoLeak (foreign : Finset Block) (n : Nng) : Prop where
  /-- As many slots are in use as messages are queued. -/
  slots : (liveSlots n.pool).card = ∑ d, (n.recvQueues d).length
  /-- The message of a slot in use stands at exactly one queue position. -/
  once : ∀ s, n.pool.SlotUsed s → ∑ d, (n.recvQueues d).count (n.pool.msgSlots s).msg = 1
  /-- What is queued is the message of a slot in use. -/
  live : ∀ d x, x ∈ n.recvQueues d → ∃ s, n.pool.SlotUsed s ∧ (n.pool.msgSlots s).msg = x
  /-- A slot in use has two blocks of its own. -/
  backed : ∀ s, n.pool.SlotUsed s → ∃ m b : Block, m ≠ b ∧ m ∉ foreign ∧ b ∉ foreign ∧
    (n.pool.msgSlots s).msg = m.address ∧ (n.pool.msgSlots s).buffer = b.address ∧
    n.pool.heap.Used m ∧ n.pool.heap.Used b
  /-- Besides the blocks of others there are exactly two blocks for each slot in use. -/
  blocks : (usedBlocks n.pool.heap).card = foreign.card + 2 * (liveSlots n.pool).card

/-- The block behind one of the two pointers of a slot in use. -/
theorem Ownership.usedBlocks_eq (owned : Ownership foreign p) :
    (usedBlocks p.heap).card = foreign.card + 2 * (liveSlots p).card := by
  classical
  -- the blocks of the slots in use, counted through the two pointers of each slot
  let pointers := liveSlots p ×ˢ (Finset.univ : Finset Bool)
  let pointer : SlotIndex × Bool → Nat := fun x => (p.msgSlots x.1).pointer x.2
  have mine : (usedBlocks p.heap \ foreign).image Block.address = pointers.image pointer := by
    ext a
    simp only [Finset.mem_image, Finset.mem_sdiff, usedBlocks, Finset.mem_filter,
      Finset.mem_univ, true_and, pointers, pointer, Finset.mem_product, mem_liveSlots, and_true,
      Prod.exists]
    constructor
    · rintro ⟨c, i, ⟨used, strange⟩, rfl⟩
      obtain taken | ⟨s, side, slot, at_b⟩ := owned.accounted (c, i) used
      · exact absurd taken strange
      · exact ⟨s, side, slot, at_b⟩
    · rintro ⟨s, side, slot, rfl⟩
      obtain ⟨⟨c, i⟩, at_b, used, strange⟩ := owned.backed s side slot
      exact ⟨c, i, ⟨used, strange⟩, at_b.symm⟩
  have injective : Set.InjOn pointer pointers := by
    rintro ⟨s, side⟩ member ⟨s', side'⟩ member' same
    simp only [pointers, Finset.coe_product, Set.mem_prod, Finset.mem_coe, mem_liveSlots]
      at member member'
    obtain ⟨rfl, rfl⟩ := owned.distinct s s' side side' member.1 member'.1 same
    rfl
  have own : (usedBlocks p.heap \ foreign).card = 2 * (liveSlots p).card := by
    rw [← Finset.card_image_of_injective _ fun _ _ same => Block.address_inj same, mine,
      Finset.card_image_of_injOn injective, Finset.card_product, Finset.card_univ,
      Fintype.card_bool, Nat.mul_comm]
  have strangers : foreign ⊆ usedBlocks p.heap := fun b taken => by
    simpa [usedBlocks] using owned.kept b taken
  rw [← own, ← Finset.card_sdiff_add_card_eq_card strangers, Nat.add_comm]

theorem Balanced.noLeak (balanced : Balanced foreign n 0) : NoLeak foreign n := by
  have balance : liveHandles n.pool = queuedHandles n.recvQueues := by
    rw [balanced.balance, add_zero]
  have owned := balanced.owned
  constructor
  · have := congrArg Multiset.card balance
    simpa [liveHandles, queuedHandles, map_sum] using this
  · intro s used
    have counted := congrArg (Multiset.count (n.pool.msgSlots s).msg) balance
    have unique : (liveHandles n.pool).Nodup := by
      refine Multiset.Nodup.map_on (fun s₁ used₁ s₂ used₂ same => ?_) (liveSlots n.pool).nodup
      exact (owned.distinct s₁ s₂ false false (mem_liveSlots.mp used₁) (mem_liveSlots.mp used₂)
        same).1
    rw [Multiset.count_eq_one_of_mem unique (Multiset.mem_map.mpr
      ⟨s, mem_liveSlots.mpr used, rfl⟩)] at counted
    rw [queuedHandles, Multiset.count_sum'] at counted
    simpa using counted.symm
  · intro d x member
    have : x ∈ queuedHandles n.recvQueues :=
      Multiset.mem_sum.mpr ⟨d, Finset.mem_univ d, by simpa using member⟩
    rw [← balance] at this
    obtain ⟨s, used, msg⟩ := Multiset.mem_map.mp this
    exact ⟨s, mem_liveSlots.mp used, msg⟩
  · intro s used
    obtain ⟨m, msg, usedMsg, strange⟩ := owned.backed s false used
    obtain ⟨b, buffer, usedBuffer, strange'⟩ := owned.backed s true used
    refine ⟨m, b, ?_, strange, strange', msg, buffer, usedMsg, usedBuffer⟩
    rintro rfl
    have := (owned.distinct s s false true used used (msg.trans buffer.symm)).2
    cases this
  · exact owned.usedBlocks_eq

theorem initIpc_balanced (k : System) (laid : k.nng.pool.heap.LaidOut) :
    Balanced (usedBlocks k.nng.pool.heap) (initIpc k).nng 0 where
  owned := nngInit_ownership k.nng laid
  balance := by
    have none : liveSlots (initIpc k).nng.pool = ∅ := by
      ext s
      simp [Pool.SlotUsed, initIpc, nngInit]
    rw [liveHandles, none]
    simp [queuedHandles, initIpc, nngInit]

/-- Between the calls of every run from `init_ipc`, whatever failed in between, the message
slots in use are the queued messages, and the heap holds two blocks for each of them on top
of the blocks that were in use at the start. -/
theorem pool_does_not_leak (k : System) (laid : k.nng.pool.heap.LaidOut) (ops : List Op) :
    NoLeak (usedBlocks k.nng.pool.heap) (Runs.after step (initIpc k) ops).nng := by
  have invariant := Runs.invariant_after
    (I := fun s => Wired s ∧ Balanced (usedBlocks k.nng.pool.heap) s.nng 0)
    ⟨initIpc_wired k, initIpc_balanced k laid⟩
    (fun s op h => ⟨h.1.rewired (step_rewired s op), h.2.step h.1 op⟩) ops
  exact invariant.2.noLeak

theorem pool_does_not_leak_request :
    let n := (Runs.after step (initIpc (boot sampleImage))
      (requestReply ++ [.ipcSend 0 (some (sampleMessage 1 []))])).nng
    (n.recvQueues 1).length = 1 ∧ NoLeak (usedBlocks (boot sampleImage).nng.pool.heap) n :=
  ⟨by decide +kernel, pool_does_not_leak (boot sampleImage) (memoryInit_laidOut _ _) _⟩

end LughOS.Kernel

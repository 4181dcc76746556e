import LughOS.Kernel.Conservation

/-!
# What every use of the pool keeps

The calls change the message pool in three ways only: they allocate a message, free one, or
write into memory. A property that survives these three, a `PoolInvariant`, therefore
survives every call, and this module says so once for all of them. None of it depends on
what the messages contain, so it also covers bodies that overrun their blocks.

The instances are the layout of the block table and the ownership of blocks by slots, together
with a region table that nothing changes.
-/

namespace LughOS.Kernel

open Bytes

/-- A property of the pool that its three primitive operations keep. -/
structure PoolInvariant (I : Pool → Prop) : Prop where
  alloc : ∀ {p p' result}, I p → nngMsgAlloc p 0 = (result, p') → I p'
  free : ∀ {p} (msg : Nat), I p → I (nngMsgFree p msg).2
  withMem : ∀ {p} (mem : Mem), I p → I (p.withMem mem)

namespace PoolInvariant

variable {I : Pool → Prop} {p p' : Pool} {n n' : Nng} {rv : Rv} {msg : Nat}

theorem freeAll (inv : PoolInvariant I) (holds : I p) (msgs : List Nat) : I (freeAll p msgs) := by
  induction msgs generalizing p with
  | nil => exact holds
  | cons msg msgs ih => exact ih (inv.free msg holds)

theorem appendAll (inv : PoolInvariant I) {parts : List Data} (holds : I p)
    (appended : appendAll p msg parts = (rv, p')) : I p' := by
  obtain ⟨mem, written⟩ := appendAll_withMem p msg parts
  rw [appended] at written
  cases written
  exact inv.withMem mem holds

theorem copyBody (inv : PoolInvariant I) {src : Nat} (holds : I p)
    (copied : copyBody p msg src = (rv, p')) : I p' := by
  obtain ⟨mem, written⟩ := copyBody_withMem p msg src
  rw [copied] at written
  cases written
  exact inv.withMem mem holds

theorem deliverCopy (inv : PoolInvariant I) (holds : I n.pool) (d : SocketId) (src : Nat) :
    I (deliverCopy n d src).2.pool := by
  have delivery := deliverCopy_delivery n d src
  generalize Kernel.deliverCopy n d src = result at delivery
  cases delivery with
  | noMessage alloc => exact inv.alloc holds alloc
  | notCopied alloc copied _ => exact inv.free _ (inv.copyBody (inv.alloc holds alloc) copied)
  | queueFull alloc copied _ => exact inv.free _ (inv.copyBody (inv.alloc holds alloc) copied)
  | enqueued alloc copied _ => exact inv.copyBody (inv.alloc holds alloc) copied

theorem routes (inv : PoolInvariant I) {id : SocketId} {src : Nat} (holds : I n.pool)
    (routes : Routes n id src n') : I n'.pool := by
  induction routes with
  | start => exact holds
  | deliver _ _ ih => exact inv.deliverCopy ih _ src
  | readdress _ _ ih => exact ih

theorem nngSend (inv : PoolInvariant I) {now : BitVec 64} {sock : NngSocket} (holds : I n.pool)
    (sent : nngSend n now sock msg = (rv, n')) : I n'.pool := by
  unfold Kernel.nngSend at sent
  split at sent
  · cases sent
    exact holds
  split at sent
  · cases sent
    exact holds
  · cases sent
    exact inv.free msg (inv.routes holds (route_routes n now _ msg))

theorem lughMessageToNng (inv : PoolInvariant I) {m : Message} {result : Except Rv Nat}
    (holds : I p) (converted : lughMessageToNng p m = (result, p')) : I p' := by
  unfold Kernel.lughMessageToNng at converted
  split at converted
  · rename_i alloc
    cases converted
    exact inv.alloc holds alloc
  · rename_i alloc
    split at converted <;> rename_i appended <;> cases converted
    · exact inv.appendAll (inv.alloc holds alloc) appended
    · exact inv.free _ (inv.appendAll (inv.alloc holds alloc) appended)

theorem step (inv : PoolInvariant I) {s : System} (holds : I s.nng.pool) (op : Op) :
    I (step s op).nng.pool := by
  cases step_moved s op with
  | still pool => rw [pool]; exact holds
  | sent id msg ring call sent =>
      generalize (Kernel.step s op).nng = n' at sent
      cases sent with
      | refused => exact holds
      | unconverted ok converted => exact inv.lughMessageToNng holds converted
      | unsent ok converted closed => exact inv.lughMessageToNng holds converted
      | routed ok converted socket valid routes =>
          exact inv.free _ (inv.routes (inv.lughMessageToNng holds converted) routes)
  | received id received =>
      generalize (Kernel.step s op).nng = n' at received
      cases received with
      | refused => exact holds
      | empty d => rw [expireSurvey_pool]; exact holds
      | taken channel socket queue =>
          apply inv.free
          rw [expireSurvey_pool]
          exact holds
  | closed c d used socket closed =>
      rw [closed, closeSocket_eq]
      exact inv.freeAll holds _

/-- The property in every state of a run. -/
theorem after (inv : PoolInvariant I) {s : System} (holds : I s.nng.pool) (ops : List Op) :
    I (Runs.after Kernel.step s ops).nng.pool :=
  Runs.invariant_after (I := fun s : System => I s.nng.pool) holds
    (fun _ op holds => inv.step holds op) ops

end PoolInvariant

/-! ## The block table

Which addresses the blocks have is never changed after `memory_init`. -/

theorem freeMemory_laidOut {h : Heap} (laid : h.LaidOut) (ptr : Nat) :
    (freeMemory h ptr).LaidOut := by
  unfold freeMemory
  split
  · exact laid
  split
  · exact laid
  split
  · exact laid
  · exact (laid.memset _ _ _).setInUse false

theorem nngMsgAlloc_laidOut {p p' : Pool} {size : Nat} {result : Except Rv Nat}
    (laid : p.heap.LaidOut) (alloc : nngMsgAlloc p size = (result, p')) : p'.heap.LaidOut := by
  obtain ⟨rv, _, failed, same⟩ | ⟨s, m, b, _, ok, gains, -⟩ := nngMsgAlloc_ownership laid size
  · rw [failed] at alloc
    cases alloc
    exact same.laid
  · rw [ok] at alloc
    cases alloc
    exact gains.laid

theorem laidOut_invariant : PoolInvariant fun p => p.heap.LaidOut where
  alloc := nngMsgAlloc_laidOut
  free := by
    intro p msg laid
    unfold nngMsgFree
    split
    · exact laid
    split
    · exact laid
    · exact freeMemory_laidOut (freeMemory_laidOut laid _) msg
  withMem := fun _ laid => laid

/-! ## The region table -/

theorem freeMemory_regions (h : Heap) (ptr : Nat) : (freeMemory h ptr).regions = h.regions := by
  unfold freeMemory
  split
  · rfl
  split
  · rfl
  split
  · rfl
  · simp

theorem allocMemory_regions (h : Heap) (size : Nat) :
    (allocMemory h size).2.regions = h.regions := by
  unfold allocMemory
  split
  · rfl
  split
  · rfl
  split
  · rfl
  split
  · rfl
  · simp

theorem regions_invariant (regions : List MemRegion) :
    PoolInvariant fun p => p.heap.regions = regions where
  alloc := by
    intro p p' result same alloc
    unfold nngMsgAlloc at alloc
    split at alloc
    · cases alloc
      exact same
    split at alloc
    · cases alloc
      exact same
    split at alloc
    · rename_i first
      cases alloc
      exact (congrArg (fun r => r.2.regions) first).symm.trans
        ((allocMemory_regions _ _).trans same)
    · rename_i first
      have kept := (congrArg (fun r => r.2.regions) first).symm.trans
        ((allocMemory_regions _ _).trans same)
      split at alloc <;> rename_i second <;> cases alloc
      all_goals
        have kept' := (congrArg (fun r => r.2.regions) second).symm.trans
          ((allocMemory_regions _ _).trans kept)
      · exact (freeMemory_regions _ _).trans kept'
      · exact kept'
  free := by
    intro p msg same
    unfold nngMsgFree
    split
    · exact same
    split
    · exact same
    · exact (freeMemory_regions _ _).trans ((freeMemory_regions _ _).trans same)
  withMem := fun _ same => same

/-! ## Owners -/

theorem ownership_invariant (foreign : Finset Block) : PoolInvariant (Ownership foreign) where
  alloc := by
    intro p p' result owned alloc
    obtain ⟨rv, _, failed, same⟩ | ⟨s, m, b, _, ok, gains, -⟩ :=
      nngMsgAlloc_ownership owned.laid 0
    · rw [failed] at alloc
      cases alloc
      exact owned.unchanged same
    · rw [ok] at alloc
      cases alloc
      exact owned.gain gains
  free := by
    intro p msg owned
    obtain ⟨-, same⟩ | ⟨s, m, b, -, loses⟩ := nngMsgFree_ownership owned msg
    · rwa [same]
    · exact owned.lose loses
  withMem := fun mem owned => owned.withMem mem

end LughOS.Kernel

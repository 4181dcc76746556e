import LughOS.Kernel.PoolInvariant
import LughOS.Kernel.Direct
import LughOS.Library.CountedQueue

/-!
# Receive queues as arrays

`nngcompat.c` keeps each receive queue in an array of sixteen pointers with a head, a tail and a
count; elsewhere in this development it is the list of its messages. Here the calls are written
with the arrays, together with `nng_init` and `nng_shutdown`, and `tableStep_view` shows that
on the lists (`NngTables.view`) they are the calls of `Sockets`.

The two differ in one more place. `nng_socket_close` frees the messages of a queue in the order of
the array, which is not the order of the queue. It does not matter: frees commute
(`nngMsgFree_comm`).
-/

namespace LughOS.Kernel

open Bytes

instance : NeZero maxQueuedMsgs := ⟨by decide⟩

/-- `incoming_queue_t`; a null pointer is `0`. -/
abbrev IncomingQueue := CountedQueue maxQueuedMsgs Nat

/-- The tables of `nngcompat.c`. The last two fields are a record of what happened: the
messages that were put into each queue since the socket was created, and those taken from it. -/
structure NngTables where
  pool : Pool
  recvQueues : SocketId → IncomingQueue
  sockState : SocketId → SocketState
  socketPool : SocketId → NngSocket
  pipes : PipeIndex → Pipe
  enqueued : SocketId → List Nat
  received : SocketId → List Nat

namespace NngTables

/-- The same tables with the queues as lists. -/
def view (t : NngTables) : Nng where
  pool := t.pool
  recvQueues := fun id => (t.recvQueues id).contents
  sockState := t.sockState
  socketPool := t.socketPool
  pipes := t.pipes

/-- The tables after a call that does not look at the queues. -/
def put (t : NngTables) (n : Nng) : NngTables :=
  { t with pool := n.pool, sockState := n.sockState, socketPool := n.socketPool, pipes := n.pipes }

def setState (t : NngTables) (id : SocketId) (f : SocketState → SocketState) : NngTables :=
  { t with sockState := Function.update t.sockState id (f (t.sockState id)) }

def freeMsg (t : NngTables) (msg : Nat) : NngTables :=
  { t with pool := (nngMsgFree t.pool msg).2 }

def enqueueIncoming (t : NngTables) (id : SocketId) (msg : Nat) : Rv × NngTables :=
  match (t.recvQueues id).enqueue msg with
  | none => (.enomem, t)
  | some q =>
      (.ok,
        { t with
          recvQueues := Function.update t.recvQueues id q
          enqueued := Function.update t.enqueued id (t.enqueued id ++ [msg]) })

def deliverCopy (t : NngTables) (id : SocketId) (srcMsg : Nat) : Rv × NngTables :=
  match nngMsgAlloc t.pool 0 with
  | (.error rv, p) => (rv, { t with pool := p })
  | (.ok copy, p) =>
      match copyBody p copy srcMsg with
      | (.ok, p) =>
          match enqueueIncoming { t with pool := p } id copy with
          | (.ok, t) => (.ok, t)
          | (rv, t) => (rv, t.freeMsg copy)
      | (rv, p) => (rv, freeMsg { t with pool := p } copy)

/-! ## Lifecycle -/

def nngInit (t : NngTables) : NngTables :=
  { t.put (Kernel.nngInit t.view) with recvQueues := fun _ => .empty }

/-- The messages in the array, in the order of the array. -/
def messages (q : IncomingQueue) : List Nat := (List.ofFn q.slots).filter (· ≠ 0)

/-- One round of the first loop of `nng_shutdown`. -/
def releaseSlot (p : Pool) (i : SlotIndex) : Pool :=
  if (p.msgSlots i).inUse then
    let heap :=
      if (p.msgSlots i).buffer ≠ 0 then freeMemory p.heap (p.msgSlots i).buffer else p.heap
    { heap := if (p.msgSlots i).msg ≠ 0 then freeMemory heap (p.msgSlots i).msg else heap
      msgSlots := Function.update p.msgSlots i { p.msgSlots i with inUse := false } }
  else p

/-- `nng_shutdown`. It clears the arrays and leaves the heads, tails and counts. -/
def nngShutdown (t : NngTables) : NngTables :=
  let pool := (List.finRange 64).foldl releaseSlot t.pool
  { t with
    pool := (List.finRange 16).foldl (fun p id => freeAll p (messages (t.recvQueues id))) pool
    recvQueues := fun id => (t.recvQueues id).erase
    socketPool := fun id => { t.socketPool id with id := none }
    pipes := fun i => { t.pipes i with inUse := false } }

/-- `nng_socket_create`. It does not touch the queue of the id it takes. -/
def nngSocketCreate (t : NngTables) (protocol : Int) : NngTables :=
  match freeSocket? t.view with
  | none => t
  | some id =>
      { t.put (Kernel.nngSocketCreate t.view protocol).2 with
        enqueued := Function.update t.enqueued id []
        received := Function.update t.received id [] }

/-- `nng_socket_close`. -/
def nngSocketClose (t : NngTables) (sock : NngSocket) : NngTables :=
  match t.view.valid? sock.id with
  | none => t
  | some id =>
      { t with
        pool := freeAll t.pool (messages (t.recvQueues id))
        recvQueues := Function.update t.recvQueues id .empty
        pipes := fun i =>
          if (t.pipes i).inUse = true ∧ ((t.pipes i).src = id ∨ (t.pipes i).dst = id) then
            { t.pipes i with inUse := false }
          else t.pipes i
        socketPool := Function.update t.socketPool id { t.socketPool id with id := none } }

/-! ## Sending -/

def sendPub (t : NngTables) (id : SocketId) (msg : Nat) : Rv × NngTables :=
  (.ok, (collectPeers t.view id .sub0).foldl
    (fun t peer => if subAccepts t.view peer msg then (t.deliverCopy peer msg).2 else t) t)

def sendPush (t : NngTables) (id : SocketId) (msg : Nat) : Rv × NngTables :=
  let peers := collectPeers t.view id .pull0
  let idx := cursor t.view id peers
  match peers[idx]? with
  | none => (.enotsup, t)
  | some peer =>
      let (rv, t) := t.deliverCopy peer msg
      (rv, t.setState id fun st => { st with rrIdx := advance idx peers.length })

def sendReq (t : NngTables) (id : SocketId) (msg : Nat) : Rv × NngTables :=
  let peers := collectPeers t.view id .rep0
  let idx := cursor t.view id peers
  match peers[idx]? with
  | none => (.enotsup, t)
  | some rep =>
      match t.deliverCopy rep msg with
      | (.ok, t) =>
          (.ok, (t.setState rep fun st => { st with replySrc := some id }).setState id fun st =>
            { st with rrIdx := advance idx peers.length })
      | (rv, t) => (rv, t)

def sendRep (t : NngTables) (id : SocketId) (msg : Nat) : Rv × NngTables :=
  match t.view.valid? (t.sockState id).replySrc with
  | none => (.enotsup, t)
  | some req =>
      let (rv, t) := t.deliverCopy req msg
      (rv, t.setState id fun st => { st with replySrc := none })

def sendBus (t : NngTables) (id : SocketId) (msg : Nat) : Rv × NngTables :=
  (.ok, (collectPeers t.view id .bus0).foldl (fun t peer => (t.deliverCopy peer msg).2) t)

def survey (id : SocketId) (msg : Nat) (t : NngTables) (peer : SocketId) : NngTables :=
  match t.deliverCopy peer msg with
  | (.ok, t) => t.setState peer fun st => { st with respondentSrc := some id }
  | (_, t) => t

def sendSurveyor (t : NngTables) (now : BitVec 64) (id : SocketId) (msg : Nat) : Rv × NngTables :=
  match collectPeers t.view id .respondent0 with
  | [] => (.enotsup, t)
  | peers =>
      (.ok, (peers.foldl (survey id msg) t).setState id fun st =>
        { st with surveyActive := true, surveyDeadline := now + surveyorTimeoutTicks })

def sendRespondent (t : NngTables) (now : BitVec 64) (id : SocketId) (msg : Nat) :
    Rv × NngTables :=
  match t.view.valid? (t.sockState id).respondentSrc with
  | none => (.enotsup, t)
  | some surveyor =>
      if (t.sockState surveyor).surveyActive = false ∨
          now > (t.sockState surveyor).surveyDeadline then
        (.etimedout, t.setState id fun st => { st with respondentSrc := none })
      else
        let (rv, t) := t.deliverCopy surveyor msg
        (rv, t.setState id fun st => { st with respondentSrc := none })

def sendPair (t : NngTables) (id : SocketId) (msg : Nat) : Rv × NngTables :=
  match (collectPeers t.view id .pair1).head? with
  | none => (.enotsup, t)
  | some peer => t.deliverCopy peer msg

def route (t : NngTables) (now : BitVec 64) (id : SocketId) (msg : Nat) : Rv × NngTables :=
  let proto := (t.socketPool id).protocol
  if proto = Protocol.pub0.code then t.sendPub id msg
  else if proto = Protocol.push0.code then t.sendPush id msg
  else if proto = Protocol.req0.code then t.sendReq id msg
  else if proto = Protocol.rep0.code then t.sendRep id msg
  else if proto = Protocol.bus0.code then t.sendBus id msg
  else if proto = Protocol.surveyor0.code then t.sendSurveyor now id msg
  else if proto = Protocol.respondent0.code then t.sendRespondent now id msg
  else if proto = Protocol.pair1.code then t.sendPair id msg
  else (.enotsup, t)

def nngSend (t : NngTables) (now : BitVec 64) (sock : NngSocket) (msg : Nat) : Rv × NngTables :=
  if msg = 0 then (.einval, t)
  else
    match t.view.valid? sock.id with
    | none => (.einval, t)
    | some id =>
        let (rv, t) := t.route now id msg
        (rv, t.freeMsg msg)

/-- `nng_recv`; the message it returns may be null. -/
def nngRecv (t : NngTables) (now : BitVec 64) (sock : NngSocket) : Except Rv Nat × NngTables :=
  match t.view.valid? sock.id with
  | none => (.error .einval, t)
  | some id =>
      let t := t.put (expireSurvey t.view now id)
      match (t.recvQueues id).dequeue with
      | none => (.error .etimedout, t)
      | some (msg, q) =>
          (.ok msg,
            { t with
              recvQueues := Function.update t.recvQueues id q
              received := Function.update t.received id (t.received id ++ [msg]) })

end NngTables

/-- The calls of `nngcompat.h`, with those that start and stop the layer. -/
inductive TableCall where
  | init
  | shutdown
  | call (op : NngOp)

def tableStep (t : NngTables) : TableCall → NngTables
  | .init => t.nngInit
  | .shutdown => t.nngShutdown
  | .call (.socketCreate protocol) => t.nngSocketCreate protocol
  | .call (.socketClose sock) => t.nngSocketClose sock
  | .call (.send now sock msg) => (t.nngSend now sock msg).2
  | .call (.recv now sock) => (t.nngRecv now sock).2
  | .call (.msgAlloc size) => { t with pool := (nngMsgAlloc t.pool size).2 }
  | .call (.msgAppend msg data) => { t with pool := (nngMsgAppend t.pool msg data).2 }
  | .call (.msgFree msg) => t.freeMsg msg
  | .call (.connect src dst) => t.put (nngConnect t.view src dst).2
  | .call (.subSubscribe sock topic) => t.put (nngSubSubscribe t.view sock topic).2
  | .call (.subUnsubscribe sock topic row) => t.put (nngSubUnsubscribe t.view sock topic row).2

/-! ## Frees commute -/

variable {h : Heap} {a b : Nat} {c c' : SizeClass} {i i' : BlockIndex}

theorem Heap.memset_memset (h : Heap) (a n b k : Nat) (v : Byte) :
    (h.memset a v n).memset b v k = (h.memset b v k).memset a v n := by
  unfold Heap.memset
  by_cases first : securityValidateMemoryAccess h.regions a n true = true <;>
    by_cases second : securityValidateMemoryAccess h.regions b k true = true <;>
    simp [first, second, Mem.fill_comm h.mem a n b k v]

theorem Heap.setInUse_memset (h : Heap) (flag : Bool) (a n : Nat) (v : Byte) :
    (h.setInUse c i flag).memset a v n = (h.memset a v n).setInUse c i flag := by
  unfold Heap.memset Heap.setInUse
  dsimp only
  split <;> rfl

theorem Heap.setInUse_setInUse (h : Heap) (flag : Bool) (other : ¬(c' = c ∧ i' = i)) :
    (h.setInUse c i flag).setInUse c' i' flag = (h.setInUse c' i' flag).setInUse c i flag := by
  have other' : ¬(c = c' ∧ i = i') := fun same => other ⟨same.1.symm, same.2.symm⟩
  have kept := Heap.setInUse_other (h := h) flag other
  have kept' := Heap.setInUse_other (h := h) flag other'
  rw [Heap.setInUse, kept, Heap.setInUse.eq_def (h.setInUse c' i' flag), kept']
  simp only [Heap.setInUse]
  congr 1
  funext x y
  simp only [BlockTable.set]
  grind

/-- The block that `free_memory` finds. -/
def freeTarget (blocks : BlockTable) (ptr : Nat) : Option (SizeClass × BlockIndex) :=
  if ptr = 0 ∨ ptr < heapStart ∨ heapEnd ≤ ptr then none
  else allBlocks.find? fun b =>
    decide ((blocks b.1 b.2).address = ptr) && (blocks b.1 b.2).inUse

theorem freeMemory_none (none : freeTarget h.blocks a = none) : freeMemory h a = h := by
  unfold freeTarget at none
  unfold freeMemory
  split at none
  · grind
  · rename_i inside
    push Not at inside
    rw [if_neg inside.1, if_neg (by omega), none]

theorem freeMemory_some (found : freeTarget h.blocks a = some (c, i)) :
    (h.blocks c i).address = a ∧
      freeMemory h a = (h.memset a 0 (h.blocks c i).size).setInUse c i false := by
  unfold freeTarget at found
  unfold freeMemory
  split at found
  · cases found
  · rename_i inside
    push Not at inside
    have hit := List.find?_some found
    simp only [Bool.and_eq_true, decide_eq_true_eq] at hit
    rw [if_neg inside.1, if_neg (by omega), found]
    exact ⟨hit.1, rfl⟩

/-- Freeing one block does not change which block another pointer means. -/
theorem freeTarget_freeMemory (h : Heap) (other : a ≠ b) :
    freeTarget (freeMemory h a).blocks b = freeTarget h.blocks b := by
  cases found : freeTarget h.blocks a with
  | none => rw [freeMemory_none found]
  | some block =>
      obtain ⟨address, freed⟩ := freeMemory_some found
      rw [freed]
      unfold freeTarget
      congr 2
      funext x
      by_cases same : x.1 = block.1 ∧ x.2 = block.2
      · rw [same.1, same.2]
        simp [Heap.setInUse, address, other]
      · rw [Heap.setInUse_other false same, Heap.memset_blocks]

theorem freeMemory_comm (h : Heap) (a b : Nat) :
    freeMemory (freeMemory h a) b = freeMemory (freeMemory h b) a := by
  by_cases same : a = b
  · rw [same]
  have keptA := freeTarget_freeMemory h same
  have keptB := freeTarget_freeMemory h (Ne.symm same)
  cases foundA : freeTarget h.blocks a with
  | none => rw [freeMemory_none foundA, freeMemory_none (keptB.trans foundA)]
  | some blockA =>
      cases foundB : freeTarget h.blocks b with
      | none => rw [freeMemory_none foundB, freeMemory_none (keptA.trans foundB)]
      | some blockB =>
          obtain ⟨addressA, freedA⟩ := freeMemory_some foundA
          obtain ⟨addressB, freedB⟩ := freeMemory_some foundB
          have other : ¬(blockB.1 = blockA.1 ∧ blockB.2 = blockA.2) := by
            rintro ⟨hc, hi⟩
            rw [hc, hi, addressA] at addressB
            exact same addressB
          have other' : ¬(blockA.1 = blockB.1 ∧ blockA.2 = blockB.2) := fun same =>
            other ⟨same.1.symm, same.2.symm⟩
          rw [(freeMemory_some (keptA.trans foundB)).2, (freeMemory_some (keptB.trans foundA)).2,
            freedA, freedB, Heap.setInUse_other false other, Heap.setInUse_other false other',
            Heap.memset_blocks, Heap.memset_blocks, Heap.setInUse_memset, Heap.setInUse_memset,
            Heap.memset_memset, Heap.setInUse_setInUse _ false other]

/-- The slot that `nng_msg_free` finds. -/
def slotOf (p : Pool) (msg : Nat) : Option SlotIndex :=
  if msg = 0 then none
  else Table.first? fun i => (p.msgSlots i).inUse && decide ((p.msgSlots i).msg = msg)

variable {p : Pool} {x y : Nat} {s : SlotIndex}

theorem nngMsgFree_none (none : slotOf p x = none) : (nngMsgFree p x).2 = p := by
  unfold slotOf at none
  unfold nngMsgFree
  split at none
  · rw [if_pos ‹_›]
  · rw [if_neg ‹_›, none]

theorem nngMsgFree_some (found : slotOf p x = some s) :
    (p.msgSlots s).msg = x ∧ (nngMsgFree p x).2 =
      { heap := freeMemory (freeMemory p.heap (p.msgSlots s).buffer) x
        msgSlots := Function.update p.msgSlots s ⟨0, 0, false⟩ } := by
  unfold slotOf at found
  unfold nngMsgFree
  split at found
  · cases found
  · have hit := Table.first?_holds found
    simp only [Bool.and_eq_true, decide_eq_true_eq] at hit
    rw [if_neg ‹_›, found]
    exact ⟨hit.2, rfl⟩

theorem slotOf_nngMsgFree (p : Pool) (other : x ≠ y) :
    slotOf (nngMsgFree p x).2 y = slotOf p y := by
  cases found : slotOf p x with
  | none => rw [nngMsgFree_none found]
  | some s =>
      obtain ⟨msg, freed⟩ := nngMsgFree_some found
      rw [freed]
      unfold slotOf
      congr 2
      funext i
      by_cases same : i = s
      · subst same
        simp [msg, other]
      · simp [same]

theorem nngMsgFree_comm (p : Pool) (x y : Nat) :
    (nngMsgFree (nngMsgFree p x).2 y).2 = (nngMsgFree (nngMsgFree p y).2 x).2 := by
  by_cases same : x = y
  · rw [same]
  have keptX := slotOf_nngMsgFree p same
  have keptY := slotOf_nngMsgFree p (Ne.symm same)
  cases foundX : slotOf p x with
  | none => rw [nngMsgFree_none foundX, nngMsgFree_none (keptY.trans foundX)]
  | some s =>
      cases foundY : slotOf p y with
      | none => rw [nngMsgFree_none foundY, nngMsgFree_none (keptX.trans foundY)]
      | some s' =>
          obtain ⟨msgX, freedX⟩ := nngMsgFree_some foundX
          obtain ⟨msgY, freedY⟩ := nngMsgFree_some foundY
          have other : s' ≠ s := by
            rintro rfl
            exact same (msgX.symm.trans msgY)
          rw [(nngMsgFree_some (keptX.trans foundY)).2, (nngMsgFree_some (keptY.trans foundX)).2,
            freedX, freedY]
          simp only [Function.update_of_ne other, Function.update_of_ne other.symm,
            Function.update_comm other]
          congr 1
          generalize (p.msgSlots s).buffer = b
          generalize (p.msgSlots s').buffer = b'
          rw [freeMemory_comm (freeMemory p.heap b) x b', freeMemory_comm p.heap b b',
            freeMemory_comm _ x y, freeMemory_comm (freeMemory p.heap b') b y]

theorem freeAll_perm {msgs msgs' : List Nat} (perm : msgs.Perm msgs') (p : Pool) :
    freeAll p msgs = freeAll p msgs' :=
  perm.foldl_eq' (fun x _ y _ p => nngMsgFree_comm p x y) p

theorem freeAll_filter (p : Pool) (msgs : List Nat) :
    freeAll p (msgs.filter (· ≠ 0)) = freeAll p msgs := by
  induction msgs generalizing p with
  | nil => rfl
  | cons msg msgs ih =>
      by_cases null : msg = 0
      · subst null
        exact ih p
      · rw [List.filter_cons_of_pos (by simpa using null)]
        exact ih _

/-! ## The calls on the lists -/

namespace NngTables

variable {t : NngTables}

/-- What a call returns, on the lists. -/
def seen {α : Type} (result : α × NngTables) : α × Nng := (result.1, result.2.view)

theorem put_view {n : Nng} (same : n.recvQueues = t.view.recvQueues) : (t.put n).view = n := by
  cases n
  subst same
  rfl

theorem contents_update (queues : SocketId → IncomingQueue) (id : SocketId) (q : IncomingQueue) :
    (fun d => (Function.update queues id q d).contents) =
      Function.update (fun d => (queues d).contents) id q.contents := by
  funext d
  by_cases here : d = id
  · subst here
    simp
  · simp [here]

theorem enqueueIncoming_view (t : NngTables) (id : SocketId) (msg : Nat) :
    seen (t.enqueueIncoming id msg) = Kernel.enqueueIncoming t.view id msg := by
  have refused : (t.recvQueues id).enqueue msg = none ↔
      maxQueuedMsgs ≤ (t.view.recvQueues id).length := CountedQueue.enqueue_eq_none
  unfold enqueueIncoming Kernel.enqueueIncoming
  cases enqueued : (t.recvQueues id).enqueue msg with
  | none =>
      rw [if_pos (refused.mp enqueued)]
      rfl
  | some q =>
      rw [if_neg (fun full => by simp [refused.mpr full] at enqueued)]
      simp only [seen, view, contents_update, CountedQueue.contents_enqueue enqueued]

theorem deliverCopy_view (t : NngTables) (id : SocketId) (srcMsg : Nat) :
    seen (t.deliverCopy id srcMsg) = Kernel.deliverCopy t.view id srcMsg := by
  unfold deliverCopy Kernel.deliverCopy
  simp only [show t.view.pool = t.pool from rfl]
  rcases nngMsgAlloc t.pool 0 with ⟨rv | copy, p⟩
  · rfl
  dsimp only
  rcases copyBody p copy srcMsg with ⟨rv, p'⟩
  have enqueue := enqueueIncoming_view { t with pool := p' } id copy
  dsimp only [view] at enqueue ⊢
  cases rv <;> try rfl
  dsimp only
  rw [← enqueue]
  rcases enqueueIncoming { t with pool := p' } id copy with ⟨rv', t'⟩
  cases rv' <;> rfl

theorem foldl_view {round : NngTables → SocketId → NngTables} {round' : Nng → SocketId → Nng}
    (rounds : ∀ t peer, (round t peer).view = round' t.view peer) (peers : List SocketId)
    (t : NngTables) : (peers.foldl round t).view = peers.foldl round' t.view :=
  (List.foldl_hom view (fun t peer => (rounds t peer).symm)).symm

theorem sendPub_view (t : NngTables) (id : SocketId) (msg : Nat) :
    seen (t.sendPub id msg) = Kernel.sendPub t.view id msg := by
  refine Prod.ext rfl (foldl_view (fun t peer => ?_) _ t)
  split
  · exact congrArg Prod.snd (deliverCopy_view t peer msg)
  · rfl

theorem sendBus_view (t : NngTables) (id : SocketId) (msg : Nat) :
    seen (t.sendBus id msg) = Kernel.sendBus t.view id msg := by
  refine Prod.ext rfl (foldl_view (fun t peer => ?_) _ t)
  exact congrArg Prod.snd (deliverCopy_view t peer msg)

theorem sendPush_view (t : NngTables) (id : SocketId) (msg : Nat) :
    seen (t.sendPush id msg) = Kernel.sendPush t.view id msg := by
  unfold sendPush Kernel.sendPush
  dsimp only
  rcases (collectPeers t.view id .pull0)[cursor t.view id _]? with _ | peer
  · rfl
  · dsimp only
    rw [← deliverCopy_view]
    rfl

theorem sendReq_view (t : NngTables) (id : SocketId) (msg : Nat) :
    seen (t.sendReq id msg) = Kernel.sendReq t.view id msg := by
  unfold sendReq Kernel.sendReq
  dsimp only
  rcases (collectPeers t.view id .rep0)[cursor t.view id _]? with _ | rep
  · rfl
  · dsimp only
    rw [← deliverCopy_view]
    rcases t.deliverCopy rep msg with ⟨rv, t'⟩
    cases rv <;> rfl

theorem sendRep_view (t : NngTables) (id : SocketId) (msg : Nat) :
    seen (t.sendRep id msg) = Kernel.sendRep t.view id msg := by
  unfold sendRep Kernel.sendRep
  rw [show t.view.sockState = t.sockState from rfl]
  rcases t.view.valid? (t.sockState id).replySrc with _ | req
  · rfl
  · dsimp only
    rw [← deliverCopy_view]
    rfl

theorem survey_view (id : SocketId) (msg : Nat) (t : NngTables) (peer : SocketId) :
    (survey id msg t peer).view = Kernel.survey id msg t.view peer := by
  unfold survey Kernel.survey
  rw [← deliverCopy_view]
  rcases t.deliverCopy peer msg with ⟨rv, t'⟩
  cases rv <;> rfl

theorem sendSurveyor_view (t : NngTables) (now : BitVec 64) (id : SocketId) (msg : Nat) :
    seen (t.sendSurveyor now id msg) = Kernel.sendSurveyor t.view now id msg := by
  unfold sendSurveyor Kernel.sendSurveyor
  rcases collectPeers t.view id .respondent0 with _ | ⟨peer, peers⟩
  · rfl
  · dsimp only
    rw [← foldl_view (survey_view id msg)]
    rfl

theorem sendRespondent_view (t : NngTables) (now : BitVec 64) (id : SocketId) (msg : Nat) :
    seen (t.sendRespondent now id msg) = Kernel.sendRespondent t.view now id msg := by
  unfold sendRespondent Kernel.sendRespondent
  rw [show t.view.sockState = t.sockState from rfl]
  rcases t.view.valid? (t.sockState id).respondentSrc with _ | surveyor
  · rfl
  dsimp only
  rw [← deliverCopy_view]
  split <;> rfl

theorem sendPair_view (t : NngTables) (id : SocketId) (msg : Nat) :
    seen (t.sendPair id msg) = Kernel.sendPair t.view id msg := by
  unfold sendPair Kernel.sendPair
  rcases (collectPeers t.view id .pair1).head? with _ | peer
  · rfl
  · exact deliverCopy_view t peer msg

theorem route_view (t : NngTables) (now : BitVec 64) (id : SocketId) (msg : Nat) :
    seen (t.route now id msg) = Kernel.route t.view now id msg := by
  unfold route Kernel.route
  rw [← sendPub_view, ← sendPush_view, ← sendReq_view, ← sendRep_view, ← sendBus_view,
    ← sendSurveyor_view, ← sendRespondent_view, ← sendPair_view]
  simp only [apply_ite seen]
  rfl

theorem nngSend_view (t : NngTables) (now : BitVec 64) (sock : NngSocket) (msg : Nat) :
    seen (t.nngSend now sock msg) = Kernel.nngSend t.view now sock msg := by
  unfold nngSend Kernel.nngSend
  split
  · rfl
  rcases t.view.valid? sock.id with _ | id
  · rfl
  · dsimp only
    rw [← route_view]
    rfl

theorem nngRecv_view (t : NngTables) (now : BitVec 64) (sock : NngSocket) :
    seen (t.nngRecv now sock) = Kernel.nngRecv t.view now sock := by
  unfold nngRecv Kernel.nngRecv
  rcases t.view.valid? sock.id with _ | id
  · rfl
  dsimp only
  have queues := expireSurvey_recvQueues t.view now id
  rw [show (t.put (expireSurvey t.view now id)).recvQueues = t.recvQueues from rfl, queues]
  cases dequeued : (t.recvQueues id).dequeue with
  | none =>
      rw [show t.view.recvQueues id = [] from CountedQueue.contents_of_dequeue_none dequeued]
      exact Prod.ext rfl (put_view queues)
  | some entry =>
      rw [show t.view.recvQueues id = _ from CountedQueue.contents_of_dequeue dequeued]
      simp only [seen, view, put, contents_update]

theorem freeAll_messages (p : Pool) (q : IncomingQueue) :
    freeAll p (messages q) = freeAll p q.contents := by
  have zeros : (List.replicate (maxQueuedMsgs - q.count) 0).filter (· ≠ 0) = [] := by simp
  rw [messages, freeAll_filter, freeAll_perm q.slots_perm, ← freeAll_filter, List.filter_append,
    zeros, List.append_nil, freeAll_filter]

theorem nngSocketClose_view (t : NngTables) (sock : NngSocket) :
    (t.nngSocketClose sock).view = (Kernel.nngSocketClose t.view sock).2.2 := by
  unfold nngSocketClose Kernel.nngSocketClose
  rcases t.view.valid? sock.id with _ | id
  · rfl
  dsimp only
  rw [closeSocket_eq, freeAll_messages]
  simp only [view, contents_update, CountedQueue.contents_empty]
  rfl

end NngTables

/-- The calls with arrays are the calls with lists. -/
theorem tableStep_view (t : NngTables) (op : NngOp) :
    (tableStep t (.call op)).view = nngStep t.view op := by
  cases op with
  | msgAlloc size => rfl
  | msgAppend msg data => rfl
  | msgFree msg => rfl
  | socketCreate protocol =>
      simp only [tableStep, nngStep, NngTables.nngSocketCreate, nngSocketCreate]
      rcases freeSocket? t.view with _ | id <;> rfl
  | socketClose sock => exact t.nngSocketClose_view sock
  | connect src dst =>
      obtain ⟨pipes, same⟩ := nngConnect_eq t.view src dst
      exact NngTables.put_view (by rw [same])
  | subSubscribe sock topic =>
      obtain ⟨state, same, -⟩ := nngSubSubscribe_eq t.view sock topic
      exact NngTables.put_view (by rw [same])
  | subUnsubscribe sock topic row =>
      obtain ⟨state, same, -⟩ := nngSubUnsubscribe_eq t.view sock topic row
      exact NngTables.put_view (by rw [same])
  | send now sock msg => exact congrArg Prod.snd (t.nngSend_view now sock msg)
  | recv now sock => exact congrArg Prod.snd (t.nngRecv_view now sock)

/-- From any tables, over any calls: the arrays with their heads, tails and counts hold what the
lists hold, and sending and receiving then return the same as on the lists. -/
theorem queue_arrays_refine (t : NngTables) (ops : List NngOp) (now : BitVec 64)
    (sock : NngSocket) (msg : Nat) :
    let t' := Runs.after (fun t op => tableStep t (.call op)) t ops
    let lists := Runs.after nngStep t.view ops
    t'.view = lists ∧ (t'.nngSend now sock msg).1 = (nngSend lists now sock msg).1 ∧
      (t'.nngRecv now sock).1 = (nngRecv lists now sock).1 := by
  intro t' lists
  have same : t'.view = lists := Runs.after_project tableStep_view t ops
  refine ⟨same, ?_, ?_⟩
  · rw [← same]
    exact congrArg Prod.fst (t'.nngSend_view now sock msg)
  · rw [← same]
    exact congrArg Prod.fst (t'.nngRecv_view now sock)

end LughOS.Kernel

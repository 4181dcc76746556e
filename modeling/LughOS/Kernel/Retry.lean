import LughOS.Kernel.PoolInvariant
import LughOS.Kernel.RoundRobin

/-!
# Sends that are refused

`nng_send` returns `NNG_ENOMEM` where the one delivery of a PUSH, REQ, REP, RESPONDENT or PAIR
fails. Such a call frees the sender's message and gives back whatever `deliver_copy` had taken,
and it leaves queues and pipes as they were.

Not so the routing state. A REQ looks at the result before it moves on; a PUSH moves its cursor,
and a REP or RESPONDENT drops its return address, without looking. `refused_send_retryable_iff`
tells the sends that can be repeated from the others.
-/

namespace LughOS.Kernel

open Bytes

variable {foreign : Finset Block} {n n' : Nng} {p p' p'' : Pool} {id d : SocketId} {msg : Nat}

/-! ## What is in use -/

/-- The same slots and blocks are in use, the slots by the same messages. -/
structure SameUse (p p' : Pool) : Prop where
  slotUsed : ∀ s, p'.SlotUsed s ↔ p.SlotUsed s
  slots : ∀ s, p.SlotUsed s → p'.msgSlots s = p.msgSlots s
  blocks : ∀ b, p'.heap.Used b ↔ p.heap.Used b

/-- The message at `msg` is no longer in use, and everything else is. -/
structure OnlyReleased (p p' : Pool) (msg : Nat) : Prop where
  slotUsed : ∀ s, p'.SlotUsed s ↔ p.SlotUsed s ∧ (p.msgSlots s).msg ≠ msg
  slots : ∀ s, p'.SlotUsed s → p'.msgSlots s = p.msgSlots s
  blocks : ∀ b, p'.heap.Used b ↔ p.heap.Used b ∧
    ∀ s side, p.SlotUsed s → (p.msgSlots s).msg = msg → (p.msgSlots s).pointer side ≠ b.address

theorem Unchanged.sameUse (same : Unchanged p p') : SameUse p p' :=
  ⟨fun s => by simp [Pool.SlotUsed, same.slots], fun s _ => by rw [same.slots], same.used⟩

/-- A message that is allocated, written to and freed leaves no trace in the tables. -/
theorem sameUse_given_back (owned : Ownership foreign p) {copy : Nat}
    (alloc : nngMsgAlloc p 0 = (.ok copy, p')) (mem : Mem) :
    SameUse p (nngMsgFree (p'.withMem mem) copy).2 := by
  obtain ⟨rv, _, failed, -⟩ | ⟨s, m, b, p₁, ok, gains, -⟩ := nngMsgAlloc_ownership owned.laid 0
  · rw [failed] at alloc
    cases alloc
  rw [ok] at alloc
  cases alloc
  have owned' := (owned.gain gains).withMem mem
  have used : (p'.withMem mem).SlotUsed s := (gains.slotUsed s).mpr (.inl rfl)
  have new : ((p'.withMem mem).msgSlots s) = ⟨m.address, b.address, true⟩ := gains.new_slot
  obtain ⟨dead, -⟩ | ⟨s', m', b', msg, loses⟩ := nngMsgFree_ownership owned' m.address
  · exact absurd (by rw [new]) (dead s used)
  obtain rfl : s' = s := (owned'.distinct s' s false false loses.usedSlot used
    (by rw [new]; exact msg)).1
  obtain rfl : m' = m := Block.address_inj (loses.msg.symm.trans msg)
  obtain rfl : b' = b := Block.address_inj (loses.buffer.symm.trans (by rw [new]))
  have other : ∀ {t}, p.SlotUsed t → t ≠ s' := by
    rintro t before rfl
    exact gains.freeSlot before
  refine ⟨fun t => ?_, fun t before => ?_, fun c => ?_⟩
  · rw [loses.slotUsed t]
    change t ≠ s' ∧ p'.SlotUsed t ↔ _
    rw [gains.slotUsed t]
    exact ⟨fun ⟨apart, before⟩ => before.resolve_left apart, fun before =>
      ⟨other before, .inr before⟩⟩
  · rw [loses.other_slot (other before)]
    exact gains.old_slot before
  · rw [loses.used c]
    change c ≠ m' ∧ c ≠ b' ∧ p'.heap.Used c ↔ _
    rw [gains.used c]
    constructor
    · rintro ⟨notMsg, notBuffer, used⟩
      exact (used.resolve_left notMsg).resolve_left notBuffer
    · intro before
      refine ⟨?_, ?_, .inr (.inr before)⟩
      · rintro rfl
        exact gains.freeMsg before
      · rintro rfl
        exact gains.freeBuffer before

theorem deliverCopy_failed (owned : Ownership foreign n.pool)
    (failed : (deliverCopy n d msg).1 ≠ .ok) :
    SameUse n.pool (deliverCopy n d msg).2.pool := by
  have back : ∀ {copy p rv p'}, nngMsgAlloc n.pool 0 = (.ok copy, p) →
      copyBody p copy msg = (rv, p') → SameUse n.pool (nngMsgFree p' copy).2 := by
    intro copy p rv p' alloc copied
    obtain ⟨mem, written⟩ := copyBody_withMem p copy msg
    rw [copied] at written
    rw [show p' = _ from written]
    exact sameUse_given_back owned alloc mem
  have delivery := deliverCopy_delivery n d msg
  generalize deliverCopy n d msg = result at delivery failed
  cases delivery with
  | noMessage alloc =>
      obtain ⟨rv, _, failed, same⟩ | ⟨s, m, b, _, ok, -⟩ := nngMsgAlloc_ownership owned.laid 0
      · rw [failed] at alloc
        cases alloc
        exact same.sameUse
      · rw [ok] at alloc
        cases alloc
  | notCopied alloc copied _ => exact back alloc copied
  | queueFull alloc copied _ => exact back alloc copied
  | enqueued => exact absurd rfl failed

theorem onlyReleased_free (owned : Ownership foreign p) (msg : Nat) :
    OnlyReleased p (nngMsgFree p msg).2 msg := by
  obtain ⟨dead, same⟩ | ⟨s, m, b, rfl, loses⟩ := nngMsgFree_ownership owned msg
  · rw [same]
    refine ⟨fun s => ?_, fun s _ => rfl, fun b => ?_⟩
    · exact ⟨fun used => ⟨used, dead s used⟩, And.left⟩
    · exact ⟨fun used => ⟨used, fun s _ live it => absurd it (dead s live)⟩, And.left⟩
  -- the slot of a live message is the only one with its address
  have only : ∀ {t}, p.SlotUsed t → (p.msgSlots t).msg = (p.msgSlots s).msg → t = s :=
    fun used same => (owned.distinct _ s false false used loses.usedSlot same).1
  refine ⟨fun t => ?_, fun t used => ?_, fun c => ?_⟩
  · rw [loses.slotUsed t]
    constructor
    · rintro ⟨apart, used⟩
      exact ⟨used, fun same => apart (only used same)⟩
    · rintro ⟨used, apart⟩
      refine ⟨?_, used⟩
      rintro rfl
      exact apart rfl
  · exact loses.other_slot ((loses.slotUsed t).mp used).1
  · rw [loses.used c]
    constructor
    · rintro ⟨notMsg, notBuffer, used⟩
      refine ⟨used, fun t side live same pointer => ?_⟩
      obtain rfl := only live same
      rw [loses.pointer] at pointer
      have := Block.address_inj pointer
      cases side <;> simp_all
    · rintro ⟨used, apart⟩
      refine ⟨?_, ?_, used⟩
      · rintro rfl
        exact apart s false loses.usedSlot rfl loses.msg
      · rintro rfl
        exact apart s true loses.usedSlot rfl loses.buffer

theorem SameUse.onlyReleased (same : SameUse p p') (released : OnlyReleased p' p'' msg) :
    OnlyReleased p p'' msg := by
  have slots : ∀ s, p.SlotUsed s → p'.msgSlots s = p.msgSlots s := same.slots
  refine ⟨fun s => ?_, fun s used => ?_, fun b => ?_⟩
  · rw [released.slotUsed s, same.slotUsed s]
    refine and_congr_right fun used => ?_
    rw [slots s used]
  · have before := (same.slotUsed s).mp ((released.slotUsed s).mp used).1
    rw [released.slots s used, slots s before]
  · rw [released.blocks b, same.blocks b]
    refine and_congr_right fun _ => forall₂_congr fun s side => ?_
    rw [same.slotUsed s]
    refine forall_congr' fun used => ?_
    rw [slots s used]

/-! ## What a refused send does to the routing state -/

/-- The sends that look at the result of their delivery, and a PUSH whose cursor has nowhere else
to go. -/
def KeepsTurn (n : Nng) (id : SocketId) : Prop :=
  (n.socketPool id).protocol ≠ Protocol.rep0.code ∧
    (n.socketPool id).protocol ≠ Protocol.respondent0.code ∧
    ((n.socketPool id).protocol = Protocol.push0.code →
      (collectPeers n id .pull0).length = 1 ∧ (n.sockState id).rrIdx = 0)

/-- What a PUSH does to its routing state. -/
def moveOn (n : Nng) (id : SocketId) (st : SocketState) : SocketState :=
  { st with rrIdx := advance (turn n id) (collectPeers n id .pull0).length }

theorem moveOn_eq_iff (peered : collectPeers n id .pull0 ≠ []) :
    moveOn n id (n.sockState id) = n.sockState id ↔
      (collectPeers n id .pull0).length = 1 ∧ (n.sockState id).rrIdx = 0 := by
  have stays : moveOn n id (n.sockState id) = n.sockState id ↔
      (advance (turn n id) (collectPeers n id .pull0).length : Int) = (n.sockState id).rrIdx :=
    ⟨congrArg SocketState.rrIdx, fun same => by rw [moveOn, same]⟩
  have := List.length_pos_iff.mpr peered
  rw [stays]
  unfold advance turn cursor
  dsimp only
  split <;> split <;> omega

/-- A delivery to `d` that fails for want of memory, after which the routing state of the sender
changes by `f`. -/
structure RefusedBy (n : Nng) (id d : SocketId) (msg : Nat) (f : SocketState → SocketState)
    (n' : Nng) : Prop where
  refused : (deliverCopy n d msg).1 = .enomem
  result : n' = (deliverCopy n d msg).2.setState id f

theorem setState_id (n : Nng) (id : SocketId) : n.setState id (fun st => st) = n := by
  simp [Nng.setState]

theorem sendPush_refused (refused : (sendPush n id msg).1 = .enomem) :
    collectPeers n id .pull0 ≠ [] ∧
      ∃ d, RefusedBy n id d msg (moveOn n id) (sendPush n id msg).2 := by
  unfold sendPush at refused ⊢
  dsimp only at refused ⊢
  split at refused
  · cases refused
  · rename_i d chosen
    exact ⟨fun none => by simp [none] at chosen, d, refused, rfl⟩

theorem sendReq_refused (refused : (sendReq n id msg).1 = .enomem) :
    ∃ d, RefusedBy n id d msg (fun st => st) (sendReq n id msg).2 := by
  unfold sendReq at refused ⊢
  dsimp only at refused ⊢
  split at refused
  · cases refused
  · rename_i d chosen
    refine ⟨d, ?_⟩
    split at refused
    · cases refused
    · rename_i rv n' failed outcome
      cases refused
      exact ⟨by rw [outcome], by rw [outcome, setState_id]⟩

theorem sendRep_refused (refused : (sendRep n id msg).1 = .enomem) :
    ∃ d, (n.sockState id).replySrc = some d ∧
      RefusedBy n id d msg (fun st => { st with replySrc := none }) (sendRep n id msg).2 := by
  unfold sendRep at refused ⊢
  split at refused
  · cases refused
  · rename_i d found
    exact ⟨d, (Nng.valid?_eq_some.mp found).1, refused, rfl⟩

theorem sendRespondent_refused {now : BitVec 64}
    (refused : (sendRespondent n now id msg).1 = .enomem) :
    ∃ d, (n.sockState id).respondentSrc = some d ∧
      RefusedBy n id d msg (fun st => { st with respondentSrc := none })
        (sendRespondent n now id msg).2 := by
  unfold sendRespondent at refused ⊢
  split at refused
  · cases refused
  rename_i d found
  split at refused
  · cases refused
  · rename_i inTime
    dsimp only
    rw [if_neg inTime]
    exact ⟨d, (Nng.valid?_eq_some.mp found).1, refused, rfl⟩

theorem sendPair_refused (refused : (sendPair n id msg).1 = .enomem) :
    ∃ d, RefusedBy n id d msg (fun st => st) (sendPair n id msg).2 := by
  unfold sendPair at refused ⊢
  split at refused
  · cases refused
  · rename_i d found
    exact ⟨d, refused, (setState_id _ _).symm⟩

theorem route_refused {now : BitVec 64} (refused : (route n now id msg).1 = .enomem) :
    ∃ d f, RefusedBy n id d msg f (route n now id msg).2 ∧
      (f (n.sockState id) = n.sockState id ↔ KeepsTurn n id) := by
  rcases route_cases n now id msg with ⟨proto, mine⟩ | none
  case inr =>
    rw [none] at refused
    cases refused
  have code : ∀ {other : Protocol}, (n.socketPool id).protocol = other.code ↔ proto = other :=
    ⟨fun same => Protocol.code_inj (mine.symm.trans same), fun same => same ▸ mine⟩
  rw [route_of_protocol mine] at refused ⊢
  simp only [KeepsTurn, ne_eq, code]
  cases proto with
  | push0 =>
      obtain ⟨peered, d, by_d⟩ := sendPush_refused refused
      refine ⟨d, _, by_d, ?_⟩
      rw [moveOn_eq_iff peered]
      simp
  | req0 =>
      obtain ⟨d, by_d⟩ := sendReq_refused refused
      exact ⟨d, _, by_d, by simp⟩
  | rep0 =>
      obtain ⟨d, address, by_d⟩ := sendRep_refused refused
      refine ⟨d, _, by_d, iff_of_false (fun same => ?_) (by simp)⟩
      exact absurd ((congrArg SocketState.replySrc same).trans address) (by simp)
  | respondent0 =>
      obtain ⟨d, address, by_d⟩ := sendRespondent_refused refused
      refine ⟨d, _, by_d, iff_of_false (fun same => ?_) (by simp)⟩
      exact absurd ((congrArg SocketState.respondentSrc same).trans address) (by simp)
  | pair1 =>
      obtain ⟨d, by_d⟩ := sendPair_refused refused
      exact ⟨d, _, by_d, by simp⟩
  | surveyor0 =>
      simp only [sendAs, sendSurveyor] at refused
      split at refused <;> cases refused
  | pub0 => cases refused
  | bus0 => cases refused
  | sub0 => cases refused
  | pull0 => cases refused

/-! ## Reachable states -/

theorem Ownership.callStep {s : System} (owned : Ownership foreign s.nng.pool) (call : Call) :
    Ownership foreign (callStep s call).nng.pool := by
  cases call with
  | ipc op => exact (ownership_invariant foreign).step owned op
  | nng op => exact owned.nngStep op

/-- In every state reached by calls of either interface, a send that returns `NNG_ENOMEM` leaves
queues and pipes alone and releases the sender's message and nothing else. It leaves the routing
state alone as well just if its protocol looks at the result, or has nowhere to move. -/
theorem refused_send_retryable_iff (k : System) (laid : k.nng.pool.heap.LaidOut)
    (calls : List Call) (now : BitVec 64) (sock : NngSocket) (msg : Nat) :
    let n := (Runs.after callStep (initIpc k) calls).nng
    let n' := (nngSend n now sock msg).2
    (nngSend n now sock msg).1 = .enomem →
      (n'.recvQueues = n.recvQueues ∧ n'.pipes = n.pipes ∧ OnlyReleased n.pool n'.pool msg) ∧
      (n'.sockState = n.sockState ↔ ∀ id, n.valid? sock.id = some id → KeepsTurn n id) := by
  intro n n' refused
  have owned : Ownership (usedBlocks k.nng.pool.heap) n.pool :=
    Runs.invariant_after (I := fun s : System => Ownership _ s.nng.pool)
      (nngInit_ownership k.nng laid) (fun _ call owned => owned.callStep call) calls
  unfold nngSend at refused
  split at refused
  · cases refused
  rename_i given
  split at refused
  · cases refused
  rename_i id valid
  obtain ⟨d, f, by_d, turn⟩ := route_refused refused
  have failed : (deliverCopy n d msg).1 ≠ .ok := by rw [by_d.refused]; decide
  have result : n' = ((deliverCopy n d msg).2.setState id f).freeMsg msg := by
    simp only [n', nngSend, if_neg given, valid, by_d.result]
  have wiring := deliverCopy_sameWiring n d msg
  obtain ⟨-, queues⟩ | ⟨ok, -⟩ := deliverCopy_outcome n d msg
  case inr => exact absurd ok failed
  rw [result]
  refine ⟨⟨queues, wiring.pipes, ?_⟩, ?_⟩
  · exact (deliverCopy_failed owned failed).onlyReleased
      (onlyReleased_free ((ownership_invariant _).deliverCopy owned d msg) msg)
  · have state : (((deliverCopy n d msg).2.setState id f).freeMsg msg).sockState =
        Function.update n.sockState id (f (n.sockState id)) := by
      simp only [Nng.freeMsg, Nng.setState, deliverCopy_sockState]
    rw [state, Function.update_eq_self_iff, turn]
    simp [valid]

/-- A client and a server, with all message blocks in use. -/
def exhausted : List Call :=
  [Call.nng (.socketCreate Protocol.req0.code), Call.nng (.socketCreate Protocol.rep0.code),
    Call.nng (.connect (socketAt 0) (socketAt 1))] ++
      List.replicate 16 (Call.nng (.msgAlloc 0))

theorem refused_send_retryable_iff_exhausted :
    let n := (Runs.after callStep (initIpc (boot sampleImage)) exhausted).nng
    let n' := (nngSend n 0 (socketAt 0) 0x800000).2
    (nngSend n 0 (socketAt 0) 0x800000).1 = .enomem ∧ n'.recvQueues = n.recvQueues ∧
      n'.sockState = n.sockState := by
  have law := refused_send_retryable_iff (boot sampleImage) (memoryInit_laidOut _ _) exhausted 0
    (socketAt 0) 0x800000
  revert law
  generalize state : (Runs.after callStep (initIpc (boot sampleImage)) exhausted).nng = n
  intro law
  have refused : (nngSend n 0 (socketAt 0) 0x800000).1 = .enomem := by
    rw [← state]
    decide +kernel
  have found : n.valid? (socketAt 0).id = some 0 := by
    rw [← state]
    decide +kernel
  have client : (n.socketPool 0).protocol = Protocol.req0.code := by
    rw [← state]
    decide +kernel
  obtain ⟨⟨queues, -⟩, routing⟩ := law refused
  refine ⟨refused, queues, routing.mpr fun id valid => ?_⟩
  obtain rfl : id = 0 := Option.some.inj (valid.symm.trans found)
  rw [KeepsTurn, client]
  exact ⟨by decide, by decide, fun push => absurd push (by decide)⟩

/-- A server has a request at hand when the blocks run out. -/
def owedReply : List Call :=
  [Call.nng (.socketCreate Protocol.req0.code), Call.nng (.socketCreate Protocol.rep0.code),
    Call.nng (.connect (socketAt 0) (socketAt 1)), Call.nng (.msgAlloc 0),
    Call.nng (.send 0 (socketAt 0) 0x800000)] ++ List.replicate 15 (Call.nng (.msgAlloc 0))

/-- The refused reply forgets the client. When memory is free again, the server is told that there
is nobody to reply to. -/
theorem refused_reply_lost :
    let n := (Runs.after callStep (initIpc (boot sampleImage)) owedReply).nng
    let n' := (nngSend n 0 (socketAt 1) 0x800000).2
    (nngSend n 0 (socketAt 1) 0x800000).1 = .enomem ∧
      (n.sockState 1).replySrc = some 0 ∧ (n'.sockState 1).replySrc = none ∧
      (nngSend n' 0 (socketAt 1) 0x800100).1 = .enotsup := by
  decide +kernel

end LughOS.Kernel

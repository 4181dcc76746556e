import LughOS.Kernel.FanOut
import LughOS.Kernel.Mediation

/-!
# How many messages there can be

`MAX_MESSAGES` slots stand for 64 messages, but a message takes two blocks of the smallest
class, and there are 32 of those. So the allocator runs out at sixteen messages, and a send
needs two: the one that the sender's message is converted to and the copy for the receiver.
Fifteen messages that wait in one queue keep every other channel from sending.

`sole_receiver_served_iff` gives the exact bound. It does not depend on the length of the
payloads: a body that overruns its block overwrites what lies behind it, never the
`nng_msg_t` in front of it, and the tables are elsewhere.
-/

namespace LughOS.Kernel

open Bytes

/-! ## Slots and blocks -/

/-- The messages take two blocks of 64 bytes each, and nothing else is in use. -/
structure SmallOnly (p : Pool) : Prop where
  owned : Ownership ∅ p
  small : ∀ b : Block, p.heap.Used b → b.1 = smallClass

theorem smallOnly_invariant : PoolInvariant SmallOnly where
  alloc := by
    intro p p' result ok alloc
    refine ⟨(ownership_invariant ∅).alloc ok.owned alloc, fun c used => ?_⟩
    obtain ⟨_, _, failed, same⟩ | ⟨_, m, b, _, taken, gains, ⟨header, body⟩, -⟩ :=
      nngMsgAlloc_ownership ok.owned.laid 0
    · rw [failed] at alloc
      cases alloc
      exact ok.small c ((same.used c).mp used)
    · rw [taken] at alloc
      cases alloc
      rcases (gains.used c).mp used with rfl | rfl | before
      · exact header
      · exact (Option.some.inj body).symm
      · exact ok.small c before
  free := by
    intro p msg ok
    refine ⟨(ownership_invariant ∅).free msg ok.owned, fun c used => ?_⟩
    obtain ⟨-, same⟩ | ⟨_, _, _, -, loses⟩ := nngMsgFree_ownership ok.owned msg
    · rw [same] at used
      exact ok.small c used
    · exact ok.small c ((loses.used c).mp used).2.2
  withMem := fun mem ok => ⟨ok.owned.withMem mem, ok.small⟩

theorem boot_smallOnly (image : BootImage) : SmallOnly (boot image).nng.pool := by
  have unused (b : Block) : ¬(boot image).nng.pool.heap.Used b := by
    simp [Heap.Used, boot, initIpc, nngInit, memoryInit_eq]
  have owned := nngInit_ownership (boot image).nng (memoryInit_laidOut image.mem image.regions)
  refine ⟨?_, fun b used => absurd used (unused b)⟩
  rwa [show usedBlocks (boot image).nng.pool.heap = ∅ from
    Finset.filter_eq_empty_iff.mpr fun b _ => unused b] at owned

variable {p p' : Pool}

/-- Of the 32 small blocks each slot in use takes two. -/
theorem SmallOnly.card (ok : SmallOnly p) :
    (freeSmall p).card + 2 * (liveSlots p).card = 32 := by
  have blocks : usedBlocks p.heap =
      (Finset.univ.filter fun i => p.heap.Used (smallClass, i)).image (Prod.mk smallClass) := by
    ext ⟨c, i⟩
    simp only [usedBlocks, Finset.mem_filter, Finset.mem_univ, true_and, Finset.mem_image,
      Prod.mk.injEq]
    constructor
    · intro used
      obtain rfl : c = smallClass := ok.small (c, i) used
      exact ⟨i, used, rfl, rfl⟩
    · rintro ⟨j, used, rfl, rfl⟩
      exact used
  have count := ok.owned.usedBlocks_eq
  rw [blocks, Finset.card_image_of_injective _ (Prod.mk_right_injective smallClass),
    Finset.card_empty] at count
  have split := Finset.card_filter_add_card_filter_not (s := Finset.univ)
    fun i : BlockIndex => p.heap.Used (smallClass, i)
  rw [Finset.card_univ, Fintype.card_fin] at split
  rw [freeSmall]
  omega

theorem SmallOnly.room_iff (ok : SmallOnly p) (k : Nat) :
    Room p k ↔ (liveSlots p).card + k ≤ 16 := by
  have blocks := ok.card
  have slots := Finset.card_filter_add_card_filter_not (s := Finset.univ) p.SlotUsed
  rw [Finset.card_univ, Fintype.card_fin, ← liveSlots, ← freeSlots] at slots
  constructor
  · rintro ⟨-, two⟩
    omega
  · intro few
    exact ⟨by omega, by omega⟩

/-- Without two free blocks an allocation fails. -/
theorem SmallOnly.alloc_full (ok : SmallOnly p) (full : 16 ≤ (liveSlots p).card) :
    ∃ rv p', nngMsgAlloc p 0 = (.error rv, p') := by
  obtain ⟨rv, p', failed, -⟩ | ⟨_, m, _, _, -, gains, ⟨header, -⟩, -⟩ :=
    nngMsgAlloc_ownership ok.owned.laid 0
  · exact ⟨rv, p', failed⟩
  · have free : m.2 ∈ freeSmall p := by
      simp only [freeSmall, Finset.mem_filter, Finset.mem_univ, true_and, ← header]
      exact gains.freeMsg
    have some := Finset.card_pos.mpr ⟨_, free⟩
    have blocks := ok.card
    omega

/-! ## Conversion and delivery -/

/-- With an open heap only the bound on the whole body refuses objects. -/
theorem Written.appendAll_ok {m : Block} {y : Nat} {old : List Byte}
    (w : Written p m.address y old) (admits : Admits p.heap.regions) (parts : List (List Byte))
    (fits : old.length + parts.flatten.length ≤ msgBufferSize) :
    ∃ p', Kernel.appendAll p m.address (parts.map Data.object) = (.ok, p') ∧
      Written p' m.address y (old ++ parts.flatten) := by
  have inside := m.inside
  have large := m.size_ge
  induction parts generalizing p old with
  | nil => exact ⟨p, rfl, by simpa using w⟩
  | cons part parts ih =>
      rw [List.flatten_cons, List.length_append] at fits
      have bounded : msgBufferSize = 256 := rfl
      have header : securityValidateMemoryAccess p.heap.regions m.address nngMsgSize true = true :=
        admits.validate inside.1 (by omega) (by simp only [nngMsgSize]; omega) true
      have accepted : (nngMsgAppend p m.address (.object part)).1 = .ok :=
        nngMsgAppend_accepted w.nonnull header rfl
          (by rw [w.bodyLen]; simp only [Data.size]; omega)
      rcases first : nngMsgAppend p m.address (.object part) with ⟨rv, p₁⟩
      obtain rfl : rv = .ok := by rwa [first] at accepted
      obtain ⟨w₁, regions, -⟩ := w.append (.object part) rfl (by omega) (Mem.read_write _ _ part)
        first
      obtain ⟨p₂, rest, w₂⟩ := ih w₁ (by rwa [regions]) (by rw [List.length_append]; omega)
      refine ⟨p₂, ?_, by simpa using w₂⟩
      simp only [List.map_cons, Kernel.appendAll, first, rest]

/-- A converted message at `x`: one more slot is in use. -/
structure Converted (p p' : Pool) (x : Nat) : Prop where
  ok : SmallOnly p'
  regions : p'.heap.regions = p.heap.regions
  card : (liveSlots p').card = (liveSlots p).card + 1
  intact : IntactMessage p' x

theorem encodedBytes_bounded (m : Message) : (encodedBytes m).length ≤ msgBufferSize := by
  have := cString_length_le m.payload
  rw [encodedBytes_length]
  simp only [msgBufferSize]
  omega

theorem lughMessageToNng_ok (ok : SmallOnly p) (admits : Admits p.heap.regions)
    (room : (liveSlots p).card < 16) (m : Message) :
    ∃ x p', lughMessageToNng p m = (.ok x, p') ∧ Converted p p' x := by
  obtain ⟨x, p₁, alloc⟩ := nngMsgAlloc_succeeds ok.owned.laid ((ok.room_iff 1).mpr room)
  obtain ⟨y, w, regions, -⟩ := nngMsgAlloc_written ok.owned.laid alloc
  have ok₁ := smallOnly_invariant.alloc ok alloc
  obtain ⟨_, _, failed, -⟩ | ⟨s, h, b, _, taken, gains, -, mem, init⟩ :=
    nngMsgAlloc_ownership ok.owned.laid 0
  · rw [failed] at alloc
    cases alloc
  rw [taken] at alloc
  cases alloc
  obtain rfl : b.address = y := by
    rw [← w.body, Pool.body, init, initNngMsg_body _ _ b.address_lt]
  have fields : encodedFields m =
      [wordBytes 1 (m.priority.setWidth 8), wordBytes 4 m.operation,
        cString m.payload ++ [0]].map Data.object := rfl
  have flat : [wordBytes 1 (m.priority.setWidth 8), wordBytes 4 m.operation,
      cString m.payload ++ [0]].flatten = encodedBytes m := by
    simp [encodedBytes]
  have fits := encodedBytes_bounded m
  obtain ⟨p₂, appended, w₂⟩ := w.appendAll_ok (by rwa [regions])
    [wordBytes 1 (m.priority.setWidth 8), wordBytes 4 m.operation, cString m.payload ++ [0]]
    (by rw [flat]; simpa using fits)
  rw [flat, List.nil_append] at w₂
  obtain ⟨mem', written⟩ := appendAll_withMem p₁ h.address (encodedFields m)
  rw [fields, appended] at written
  obtain rfl : p₂ = p₁.withMem mem' := written
  refine ⟨h.address, p₁.withMem mem', ?_, smallOnly_invariant.withMem mem' ok₁, regions, ?_,
    s, ?_, ?_, ?_, ?_⟩
  · unfold lughMessageToNng
    rw [taken]
    simp only [fields, appended]
  · change (liveSlots p₁).card = _
    rw [gains.liveSlots_eq, Finset.card_insert_of_notMem (by simpa using gains.freeSlot)]
  · exact (gains.slotUsed s).mpr (.inl rfl)
  · exact congrArg MsgSlot.msg gains.new_slot
  · exact w₂.body.trans (congrArg MsgSlot.buffer gains.new_slot).symm
  · rw [w₂.bodyLen]
    exact fits

theorem lughMessageToNng_full (ok : SmallOnly p) (full : 16 ≤ (liveSlots p).card) (m : Message) :
    ∃ rv p', lughMessageToNng p m = (.error rv, p') := by
  obtain ⟨rv, p', failed⟩ := ok.alloc_full full
  refine ⟨rv, p', ?_⟩
  unfold lughMessageToNng
  rw [failed]

/-- A copy is queued exactly if there are two free blocks for it. -/
theorem deliverCopy_ok_iff {n : Nng} {d : SocketId} {x : Nat} (ok : SmallOnly n.pool)
    (admits : Admits n.pool.heap.regions) (intact : IntactMessage n.pool x)
    (queue : (n.recvQueues d).length < maxQueuedMsgs) :
    (deliverCopy n d x).1 = .ok ↔ (liveSlots n.pool).card < 16 := by
  constructor
  · intro delivered
    by_contra full
    obtain ⟨rv, p', failed⟩ := ok.alloc_full (by omega)
    have error := nngMsgAlloc_error failed
    unfold deliverCopy at delivered
    rw [failed] at delivered
    exact error delivered
  · intro room
    by_contra failed
    have full := deliverCopy_full ok.owned intact admits ((ok.room_iff 1).mpr room) failed
    omega

/-! ## Senders with one receiver -/

/-- The protocols that send to one peer, with what listens to them. -/
def Protocol.FeedsOne (mine theirs : Protocol) : Prop :=
  (mine = .push0 ∧ theirs = .pull0) ∨ (mine = .pair1 ∧ theirs = .pair1)

/-- The pipes of `e` lead to one listener, `d`. -/
structure SolePeer (n : Nng) (mine theirs : Protocol) (e d : SocketId) : Prop where
  feeds : mine.FeedsOne theirs
  audience : Audience n theirs d
  joined : ∃ i, Leads n mine e d i
  only : ∀ d', Audience n theirs d' → (∃ i, Leads n mine e d' i) → d' = d

theorem Protocol.FeedsOne.leads {mine theirs : Protocol} (feeds : mine.FeedsOne theirs) {n : Nng}
    {e d : SocketId} (i : PipeIndex) :
    peerAcross e theirs (n.pipes i) = some d ↔ Leads n mine e d i := by
  rw [peerAcross_eq_some, Leads]
  rcases feeds with ⟨rfl, rfl⟩ | ⟨rfl, rfl⟩ <;> simp

variable {n : Nng} {mine theirs : Protocol} {e d : SocketId}

theorem SolePeer.peers (sole : SolePeer n mine theirs e d) :
    collectPeers n e theirs ≠ [] ∧ ∀ d' ∈ collectPeers n e theirs, d' = d := by
  have listed : ∀ {d' i}, (peerAcross e theirs (n.pipes i)).filter (fun peer =>
      n.socketValid peer && decide ((n.socketPool peer).protocol = theirs.code)) = some d' ↔
      Leads n mine e d' i ∧ Audience n theirs d' := by
    intro d' i
    rw [Option.filter_eq_some_iff, sole.feeds.leads]
    simp [Audience]
  unfold collectPeers
  constructor
  · obtain ⟨i, leads⟩ := sole.joined
    rw [Ne, List.take_eq_nil_iff]
    rintro (none | empty)
    · cases none
    · exact List.ne_nil_of_mem (List.mem_filterMap.mpr ⟨i, List.mem_finRange i,
        listed.mpr ⟨leads, sole.audience⟩⟩) empty
  · intro d' member
    obtain ⟨i, -, found⟩ := List.mem_filterMap.mp (List.mem_of_mem_take member)
    obtain ⟨leads, audience⟩ := listed.mp found
    exact sole.only d' audience ⟨i, leads⟩

/-- Whatever the round-robin cursor says, the send is one delivery to the only peer. -/
theorem SolePeer.route (sole : SolePeer n mine theirs e d)
    (protocol : (n.socketPool e).protocol = mine.code) (now : BitVec 64) (msg : Nat) :
    (route n now e msg).1 = (deliverCopy n d msg).1 ∧
      (Kernel.route n now e msg).2.recvQueues = (deliverCopy n d msg).2.recvQueues ∧
      (Kernel.route n now e msg).2.pool = (deliverCopy n d msg).2.pool := by
  obtain ⟨some, all⟩ := sole.peers
  rcases sole.feeds with ⟨rfl, rfl⟩ | ⟨rfl, rfl⟩
  · have routed : Kernel.route n now e msg = sendPush n e msg := route_of_protocol protocol
    have inside : cursor n e (collectPeers n e .pull0) < (collectPeers n e .pull0).length :=
      cursor_lt some
    have chosen : (collectPeers n e .pull0)[cursor n e (collectPeers n e .pull0)]? = .some d := by
      rw [List.getElem?_eq_getElem inside, all _ (List.getElem_mem inside)]
    rw [routed]
    simp only [sendPush, chosen, true_and]
    exact ⟨rfl, rfl⟩
  · have routed : Kernel.route n now e msg = sendPair n e msg := route_of_protocol protocol
    have first : (collectPeers n e .pair1).head? = .some d := by
      rw [List.head?_eq_some_head some, all _ (List.head_mem some)]
    rw [routed]
    simp [sendPair, first]

/-! ## The bound -/

/-- An open PUSH or PAIR channel connected to exactly one peer, whose queue has room. -/
structure SoleReceiver (s : System) (a : ChannelId) (d : SocketId) : Prop where
  isOpen : (s.channels a).inUse = true
  sole : ∃ e mine theirs, (s.channels a).socket.id = some e ∧
    (s.channels a).socket.protocol = mine.code ∧ SolePeer s.nng mine theirs e d
  room : (s.nng.recvQueues d).length < maxQueuedMsgs

/-- The send returns success and puts one copy of the message into the queue of `d`. -/
structure Served (s : System) (a : ChannelId) (d : SocketId) (m : Message) : Prop where
  result : (ipcSend s a.val (some m)).1 = 0
  copy : ∃ x, (ipcSend s a.val (some m)).2.2.nng.recvQueues =
      Function.update s.nng.recvQueues d (s.nng.recvQueues d ++ [x]) ∧
    (Short m → (ipcSend s a.val (some m)).2.2.nng.pool.bodyBytes x = encodedBytes (sealMessage m))

/-- A delivered copy holds what the message held, also after the message is freed. -/
theorem delivered_bytes {foreign : Finset Block} {t : SlotIndex} {h b : Block}
    (owned : Ownership foreign n.pool) (stored : Stored n.pool t h b)
    (small : n.pool.bodyLen h.address ≤ 64) {x : Nat}
    (added : (deliverCopy n d h.address).2.recvQueues =
      Function.update n.recvQueues d (n.recvQueues d ++ [x])) :
    ((deliverCopy n d h.address).2.freeMsg h.address).pool.bodyBytes x =
      n.pool.bodyBytes h.address := by
  have delivered := owned.deliverCopy d stored small
  generalize deliverCopy n d h.address = result at delivered added
  cases delivered with
  | failed _ queues _ =>
      have := congrFun (queues.symm.trans added) d
      simp at this
  | @copied n' t' c e begun _ queues =>
      have queue := congrFun (queues.symm.trans added) d
      obtain rfl : c.address = x := by simpa using queue
      have other : t' ≠ t := by
        rintro rfl
        exact begun.free stored.used
      have still := (begun.keeps t h b (Set.notMem_empty _) stored).1
      have loses := begun.owned.free_stored still
      exact (loses.keeps begun.owned t' c e other begun.stored).2.trans begun.bytes

variable {s : System} {a : ChannelId} {m : Message}

theorem SoleReceiver.ipcSend_eq (sole : SoleReceiver s a d)
    (granted : Grants (s.channels a).capMask (requiredCapsForOp m.operation)) :
    ipcSend s a.val (some m) = transmit s a m := by
  have found : openChannel? s a.val = some a :=
    openChannel?_eq_some.mpr ⟨channel?_val a, sole.isOpen⟩
  simp only [ipcSend, found, granted, not_true_eq_false, if_false]

/-- A send to the only receiver is the delivery of one copy and the release of the
message. -/
theorem SoleReceiver.nngSend (sole : SoleReceiver s a d) (wired : Wired s) (p : Pool) {x : Nat}
    (nonnull : x ≠ 0) :
    let sent := nngSend { s.nng with pool := p } s.jiffies (s.channels a).socket x
    let delivered := deliverCopy { s.nng with pool := p } d x
    sent.1 = delivered.1 ∧ sent.2.recvQueues = delivered.2.recvQueues ∧
      sent.2.pool = (delivered.2.freeMsg x).pool := by
  obtain ⟨e, mine, theirs, socket, protocol, peer⟩ := sole.sole
  obtain ⟨e', socket', isOpen, protocol'⟩ := wired.socket a sole.isOpen
  obtain rfl : e = e' := by simpa [socket] using socket'
  have found : Nng.valid? { s.nng with pool := p } (s.channels a).socket.id = some e :=
    Nng.valid?_eq_some.mpr ⟨socket, socketValid_iff.mpr isOpen⟩
  have peer' : SolePeer { s.nng with pool := p } mine theirs e d :=
    ⟨peer.feeds, peer.audience, peer.joined, peer.only⟩
  obtain ⟨result, queues, pool⟩ := peer'.route (protocol'.trans protocol) s.jiffies x
  unfold Kernel.nngSend
  simp only [if_neg nonnull, found]
  exact ⟨result, queues, congrArg (fun p => (nngMsgFree p x).2) pool⟩

theorem SoleReceiver.served_iff (sole : SoleReceiver s a d) (ok : SmallOnly s.nng.pool)
    (admits : Admits s.nng.pool.heap.regions) (wired : Wired s)
    (granted : Grants (s.channels a).capMask (requiredCapsForOp m.operation)) :
    Served s a d m ↔ (liveSlots s.nng.pool).card ≤ 14 := by
  have send := sole.ipcSend_eq granted
  by_cases room : (liveSlots s.nng.pool).card < 16
  · obtain ⟨x, p, converted, conv⟩ := lughMessageToNng_ok ok admits room (sealMessage m)
    obtain ⟨_, h, _, rfl, -⟩ := conv.intact.blocks conv.ok.owned
    obtain ⟨result, nng, -⟩ := transmit_ok (c := a) converted
    obtain ⟨sent, queues, pool⟩ := sole.nngSend wired p h.address_ne_zero
    have delivered := deliverCopy_ok_iff (n := { s.nng with pool := p }) conv.ok
      (conv.regions ▸ admits) conv.intact sole.room
    rw [conv.card] at delivered
    constructor
    · rintro ⟨zero, -⟩
      rw [send, result, sent] at zero
      by_contra many
      rw [if_neg (mt delivered.mp (by omega))] at zero
      cases zero
    · intro few
      have done := delivered.mpr (by omega)
      obtain ⟨failed, -⟩ | ⟨-, x, added⟩ :=
        deliverCopy_outcome { s.nng with pool := p } d h.address
      · exact absurd done failed
      refine ⟨?_, x, ?_, ?_⟩
      · rw [send, result, sent, if_pos done]
      · rw [send, nng, queues, added]
      · intro short
        rw [send, nng, pool]
        obtain ⟨_, _, failed, -⟩ | ⟨t, h', b, _, built, begun⟩ :=
          ok.owned.lughMessageToNng short.sealed
        · rw [converted] at failed
          cases failed
        · rw [converted] at built
          obtain ⟨same, rfl⟩ := Prod.mk.inj built
          obtain rfl := Block.address_inj (Except.ok.inj same)
          have small : p.bodyLen h.address ≤ 64 := by
            rw [← Pool.bodyBytes_length, begun.bytes, encodedBytes_length]
            have : (cString (sealMessage m).payload).length ≤ 58 := short.sealed
            omega
          exact (delivered_bytes begun.owned begun.stored small added).trans begun.bytes
  · obtain ⟨rv, p', failed⟩ := lughMessageToNng_full ok (by omega) (sealMessage m)
    constructor
    · rintro ⟨zero, -⟩
      rw [send] at zero
      simp [transmit, failed] at zero
    · intro few
      omega

/-- Fifteen messages wait in the PULL socket of one pair of channels; the other pair has sent
nothing yet. -/
def slowReceiver : List Op :=
  pushPull capAll ++
    [.ipcCreateChannel 0 0 capAll Protocol.push0.code,
      .ipcCreateChannel 0 0 capAll Protocol.pull0.code, .ipcConnect 2 3] ++
    List.replicate 15 (.ipcSend 0 (some (sampleMessage 1 [])))

end LughOS.Kernel

import LughOS.Kernel.Direct
import LughOS.Kernel.MemoryGate

/-!
# Broadcasts

PUB, BUS and SURVEYOR sockets send one copy to each of several peers. `collect_peers`
walks the pipe table and lists the far ends it finds, one entry per pipe: two pipes to one
peer make two entries, a BUS that is connected to itself lists itself, and after sixteen
entries the list ends. `fan_out_exactly_once_iff` says for which lists every receiver gets one
message and nobody else any, and `SimplePipes.eachOnce` which pipes give such a list.

Each copy is made of what the message holds at that moment. A body of more than 64 bytes overruns
the block of its copy, possibly into the message itself, so that a later look at the message finds
something else; `fan_out_fails` has an example next to those of unsuitable lists.
-/

namespace LughOS.Kernel

open Bytes

/-! ## Room for copies -/

def freeSlots (p : Pool) : Finset SlotIndex := Finset.univ.filter fun s => ¬p.SlotUsed s

/-- The free blocks of the class from which copies are made. -/
def freeSmall (p : Pool) : Finset BlockIndex :=
  Finset.univ.filter fun i => ¬p.heap.Used (smallClass, i)

/-- The pool and the allocator have room for `k` copies. -/
structure Room (p : Pool) (k : Nat) : Prop where
  slots : k ≤ (freeSlots p).card
  blocks : 2 * k ≤ (freeSmall p).card

instance (p : Pool) (k : Nat) : Decidable (Room p k) :=
  decidable_of_iff (k ≤ (freeSlots p).card ∧ 2 * k ≤ (freeSmall p).card)
    ⟨fun ⟨slots, blocks⟩ => ⟨slots, blocks⟩, fun room => ⟨room.slots, room.blocks⟩⟩

variable {foreign : Finset Block} {p p' : Pool} {s : SlotIndex} {m b : Block} {k x : Nat}

theorem allocMemory_some {h : Heap} (laid : h.LaidOut) {n : Nat} (pos : 0 < n) (small : n ≤ 64)
    {i : BlockIndex} (free : ¬h.Used (0, i)) : (allocMemory h n).1 ≠ none := by
  rw [allocMemory_small laid pos small]
  cases search : Table.first? fun i => !(h.blocks 0 i).inUse with
  | none =>
      have := Table.first?_eq_none_iff.mp search i
      exact absurd (by simpa [Heap.Used] using this) free
  | some j => simp

/-- With a free slot and two free small blocks an allocation succeeds. -/
theorem nngMsgAlloc_succeeds (laid : p.heap.LaidOut) (room : Room p 1) :
    ∃ x p', nngMsgAlloc p 0 = (.ok x, p') := by
  obtain ⟨slot, freeSlot⟩ := Finset.card_pos.mp room.slots
  obtain ⟨i, hi, j, hj, other⟩ := Finset.one_lt_card.mp (lt_of_lt_of_le (by omega) room.blocks)
  simp only [freeSlots, freeSmall, Finset.mem_filter, Finset.mem_univ, true_and] at freeSlot hi hj
  unfold nngMsgAlloc
  cases search : Table.first? fun i => !(p.msgSlots i).inUse with
  | none =>
      have := Table.first?_eq_none_iff.mp search slot
      exact absurd (by simpa [Pool.SlotUsed] using this) freeSlot
  | some slot =>
      simp only [msgBufferSize, Nat.not_lt_zero, lt_irrefl, if_false]
      have first := allocMemory_some laid (n := nngMsgSize) (by decide) (by decide) hi
      obtain failed | ⟨c, h, taken, -, -, -, touches⟩ := allocMemory_spec laid nngMsgSize
      · rw [failed] at first
        exact absurd rfl first
      -- one of the two small blocks is still free for the body
      have still : ∃ i', ¬h.Used (0, i') := by
        by_cases it : ((0, i) : Block) = c
        · exact ⟨j, fun used => hj ((touches.others (0, j) (by simp [← it, other.symm])).mp used)⟩
        · exact ⟨i, fun used => hi ((touches.others (0, i) it).mp used)⟩
      obtain ⟨i', free⟩ := still
      have second := allocMemory_some touches.laid (n := 8) (by decide) (by decide) free
      rw [taken]
      dsimp only
      generalize allocMemory h 8 = body at second
      rcases body with ⟨_ | buf, h'⟩
      · exact absurd rfl second
      · exact ⟨_, _, rfl⟩

theorem Begun.room {bytes : List Byte} (begun : Begun foreign p p' s m b bytes)
    (room : Room p (k + 1)) : Room p' k := by
  have slots : (freeSlots p).erase s ⊆ freeSlots p' := by
    intro s' member
    simp only [freeSlots, Finset.mem_erase, Finset.mem_filter, Finset.mem_univ, true_and,
      begun.slots, not_or] at member ⊢
    exact member
  have blocks : ((freeSmall p).erase m.2).erase b.2 ⊆ freeSmall p' := by
    intro i member
    simp only [freeSmall, Finset.mem_erase, Finset.mem_filter, Finset.mem_univ, true_and,
      begun.blocks, not_or] at member ⊢
    exact ⟨fun same => member.2.1 (congrArg Prod.snd same),
      fun same => member.1 (congrArg Prod.snd same), member.2.2⟩
  have slots_card := Finset.card_le_card slots
  have blocks_card := Finset.card_le_card blocks
  have one := Finset.pred_card_le_card_erase (s := freeSlots p) (a := s)
  have two := Finset.pred_card_le_card_erase (s := freeSmall p) (a := m.2)
  have three := Finset.pred_card_le_card_erase (s := (freeSmall p).erase m.2) (a := b.2)
  have before := room.slots
  have before' := room.blocks
  exact ⟨by omega, by omega⟩

theorem GivenUp.room (givenUp : GivenUp foreign p p') (room : Room p k) : Room p' k := by
  have slots : freeSlots p ⊆ freeSlots p' := by
    intro s member
    simpa [freeSlots, givenUp.slots] using member
  have blocks : freeSmall p ⊆ freeSmall p' := by
    intro i member
    simp only [freeSmall, Finset.mem_filter, Finset.mem_univ, true_and] at member ⊢
    exact fun used => member (givenUp.blocks _ used)
  exact ⟨room.slots.trans (Finset.card_le_card slots),
    room.blocks.trans (Finset.card_le_card blocks)⟩

theorem Room.mono {j : Nat} (room : Room p k) (fewer : j ≤ k) : Room p j :=
  ⟨fewer.trans room.slots, (Nat.mul_le_mul_left 2 fewer).trans room.blocks⟩

/-! ## Deliveries that cannot fail -/

/-- The live message `x` has a header that points to its buffer, with a length that
`nng_msg_append` can have given it. -/
def IntactMessage (p : Pool) (x : Nat) : Prop :=
  ∃ s, p.SlotUsed s ∧ (p.msgSlots s).msg = x ∧ p.body x = (p.msgSlots s).buffer ∧
    p.bodyLen x ≤ msgBufferSize

instance (p : Pool) (x : Nat) : Decidable (IntactMessage p x) :=
  inferInstanceAs (Decidable (∃ _, _))

theorem IntactMessage.blocks (intact : IntactMessage p x) (owned : Ownership foreign p) :
    ∃ (s : SlotIndex) (m b : Block), x = m.address ∧ p.heap.Used m ∧
      p.msgSlots s = ⟨m.address, b.address, true⟩ ∧ p.body m.address = b.address ∧
      p.bodyLen m.address ≤ msgBufferSize := by
  obtain ⟨s, used, rfl, body, len⟩ := intact
  obtain ⟨m, msg, usedMsg, -⟩ := owned.backed s false used
  obtain ⟨b, buffer, -⟩ := owned.backed s true used
  replace msg : (p.msgSlots s).msg = m.address := msg
  replace buffer : (p.msgSlots s).buffer = b.address := buffer
  rw [msg] at body len ⊢
  refine ⟨s, m, b, rfl, usedMsg, ?_, body.trans buffer, len⟩
  rw [← msg, ← buffer, show true = (p.msgSlots s).inUse from used.symm]

theorem IntactMessage.stored (intact : IntactMessage p x) (owned : Ownership foreign p)
    (small : p.bodyLen x ≤ 64) : ∃ s m b, x = m.address ∧ Stored p s m b := by
  obtain ⟨s, m, b, rfl, -, slot, body, -⟩ := intact.blocks owned
  exact ⟨s, m, b, rfl, slot, body, small.trans b.size_ge⟩

/-- With an open heap the copy of an admitted length is never refused. -/
theorem copyBody_ok {c : Block} (empty : p.bodyLen c.address = 0)
    (body : p.body m.address = b.address) (len : p.bodyLen m.address ≤ msgBufferSize)
    (admits : Admits p.heap.regions) : (copyBody p c.address m.address).1 = .ok := by
  have header := c.inside
  have large := c.size_ge
  have source := b.inside_buffer
  have short : p.bodyLen m.address ≤ 256 := len
  unfold copyBody
  split
  · have open₁ : securityValidateMemoryAccess p.heap.regions c.address nngMsgSize true = true :=
      admits.validate header.1 (by omega) (by simp only [nngMsgSize]; omega) true
    have open₂ : (Data.range (p.body m.address) (p.bodyLen m.address)).readable
        p.heap.regions = true := by
      rw [body]
      simp only [Data.readable, Bool.and_eq_true, decide_eq_true_eq]
      exact ⟨b.address_ne_zero, admits.validate source.1 (by omega) (by omega) false⟩
    refine nngMsgAppend_accepted c.address_ne_zero open₁ open₂ ?_
    simpa only [Data.size, empty, Nat.zero_add] using len
  · rfl

/-- With room for one copy only a full queue turns a delivery away. -/
theorem deliverCopy_full {n : Nng} (owned : Ownership foreign n.pool) {d : SocketId}
    (intact : IntactMessage n.pool x) (admits : Admits n.pool.heap.regions) (room : Room n.pool 1)
    (failed : (deliverCopy n d x).1 ≠ .ok) : maxQueuedMsgs ≤ (n.recvQueues d).length := by
  obtain ⟨y, p₁, succeeds⟩ := nngMsgAlloc_succeeds owned.laid room
  have delivery := deliverCopy_delivery n d x
  generalize deliverCopy n d x = result at delivery failed
  cases delivery with
  | noMessage alloc =>
      rw [succeeds] at alloc
      cases alloc
  | notCopied alloc copied refused =>
      obtain ⟨_, _, none, -⟩ | ⟨t, c, e, p₂, result, gains, -, mem, init⟩ :=
        nngMsgAlloc_ownership owned.laid 0
      · rw [none] at succeeds
        cases succeeds
      rw [result, Prod.mk.injEq, Except.ok.injEq] at alloc
      obtain ⟨rfl, rfl⟩ := alloc
      obtain ⟨s, m, b, rfl, used, -, body, len⟩ := intact.blocks owned
      -- the new blocks are not those of the message
      have header : Mem.EqOn p₂.heap.mem n.pool.heap.mem m.address m.size :=
        gains.mem (Block.apart fun same => gains.freeMsg (same ▸ used))
          (Block.apart fun same => gains.freeBuffer (same ▸ used))
      have large := m.size_ge
      have accepted := copyBody_ok (p := p₂) (c := c) (b := b) (m := m)
        (by rw [Pool.bodyLen, init, initNngMsg_bodyLen])
        ((header.mono (le_refl _) (by omega)).readWord_eq.trans body)
        ((header.mono (Nat.le_add_right _ 4) (by omega)).readWord_eq.trans_le len)
        (by rw [gains.regions]; exact admits)
      rw [copied] at accepted
      exact absurd accepted refused
  | queueFull alloc copied full => exact full
  | enqueued alloc copied free => exact absurd rfl failed

/-! ## What arrives -/

/-- Of the copies for `sent` each socket has those for which its queue had room, behind the
messages it had before, and they satisfy `P`. -/
def Arrived (P : Nat → Prop) (n n' : Nng) (sent : List SocketId) : Prop :=
  ∀ d, ∃ new, n'.recvQueues d = n.recvQueues d ++ new ∧
    new.length = min (sent.count d) (maxQueuedMsgs - (n.recvQueues d).length) ∧ ∀ y ∈ new, P y

theorem Arrived.nothing {P : Nat → Prop} {n n' : Nng} (queues : n'.recvQueues = n.recvQueues) :
    Arrived P n n' [] := fun d => ⟨[], by simp [queues], by simp, List.forall_mem_nil _⟩

theorem Arrived.mono {P Q : Nat → Prop} {n n' : Nng} {sent : List SocketId}
    (arrived : Arrived P n n' sent) (weaker : ∀ y, P y → Q y) : Arrived Q n n' sent := by
  intro d
  obtain ⟨new, grown, count, all⟩ := arrived d
  exact ⟨new, grown, count, fun y member => weaker y (all y member)⟩

theorem Arrived.trans {P : Nat → Prop} {n n' n'' : Nng} {sent more : List SocketId}
    (first : Arrived P n n' sent) (second : Arrived P n' n'' more) :
    Arrived P n n'' (sent ++ more) := by
  intro d
  obtain ⟨new, grown, count, all⟩ := first d
  obtain ⟨new', grown', count', all'⟩ := second d
  refine ⟨new ++ new', by rw [grown', grown, List.append_assoc], ?_,
    List.forall_mem_append.mpr ⟨all, all'⟩⟩
  rw [grown, List.length_append] at count'
  rw [List.length_append, List.count_append]
  omega

theorem Arrived.one {P : Nat → Prop} {n n' : Nng} {d : SocketId}
    (outcome : (maxQueuedMsgs ≤ (n.recvQueues d).length ∧ n'.recvQueues = n.recvQueues) ∨
      ∃ y, P y ∧ (n.recvQueues d).length < maxQueuedMsgs ∧
        n'.recvQueues = Function.update n.recvQueues d (n.recvQueues d ++ [y])) :
    Arrived P n n' [d] := by
  intro e
  obtain ⟨full, queues⟩ | ⟨y, holds, room, queues⟩ := outcome
  · refine ⟨[], by simp [queues], ?_, List.forall_mem_nil _⟩
    rw [List.count_singleton]
    by_cases here : d = e
    · subst here
      rw [List.length_nil]
      omega
    · simp [here]
  · by_cases here : d = e
    · subst here
      refine ⟨[y], by simp [queues], ?_, List.forall_mem_singleton.mpr holds⟩
      simp only [List.length_singleton, List.count_singleton_self]
      omega
    · refine ⟨[], ?_, by simp [here], List.forall_mem_nil _⟩
      rw [queues, Function.update_of_ne (Ne.symm here), List.append_nil]

theorem deliverCopy_arrived {n : Nng} (owned : Ownership foreign n.pool) (d : SocketId)
    (intact : IntactMessage n.pool x) (admits : Admits n.pool.heap.regions) (room : Room n.pool 1) :
    Arrived (fun _ => True) n (deliverCopy n d x).2 [d] := by
  have full := deliverCopy_full (d := d) owned intact admits room
  have delivery := deliverCopy_delivery n d x
  generalize deliverCopy n d x = result at delivery full
  cases delivery with
  | noMessage alloc => exact .one (.inl ⟨full (nngMsgAlloc_error alloc), rfl⟩)
  | notCopied _ _ failed => exact .one (.inl ⟨full failed, rfl⟩)
  | queueFull _ _ noRoom => exact .one (.inl ⟨noRoom, rfl⟩)
  | enqueued _ _ room => exact .one (.inr ⟨_, trivial, room, rfl⟩)

/-! ## One broadcast -/

/-- Between `n` and `n'` the message in block `m` was delivered to the sockets in `sent`. -/
structure Broadcast (foreign : Finset Block) (n n' : Nng) (m : Block)
    (sent : List SocketId) : Prop where
  owned : Ownership foreign n'.pool
  keeps : Keeps n.pool n'.pool
  regions : n'.pool.heap.regions = n.pool.heap.regions
  slots : ∀ s, n.pool.SlotUsed s → n'.pool.SlotUsed s
  topics : ∀ d, (n'.sockState d).topics = (n.sockState d).topics
  arrived : Arrived (NewMessage n.pool n'.pool (n.pool.bodyBytes m.address)) n n' sent

theorem Broadcast.start {n : Nng} (owned : Ownership foreign n.pool) : Broadcast foreign n n m [] :=
  ⟨owned, Keeps.refl _, rfl, fun _ used => used, fun _ => rfl, .nothing rfl⟩

/-- What a broadcast looks at: messages, queues and subscriptions. -/
structure SameMessages (n n' : Nng) : Prop where
  pool : n'.pool = n.pool
  queues : n'.recvQueues = n.recvQueues
  topics : ∀ d, (n'.sockState d).topics = (n.sockState d).topics

theorem SameMessages.trans {n n' n'' : Nng} (first : SameMessages n n')
    (second : SameMessages n' n'') : SameMessages n n'' :=
  ⟨second.pool.trans first.pool, second.queues.trans first.queues,
    fun d => (second.topics d).trans (first.topics d)⟩

theorem Broadcast.same {n n' n'' : Nng} {sent : List SocketId}
    (broadcast : Broadcast foreign n n' m sent) (same : SameMessages n' n'') :
    Broadcast foreign n n'' m sent := by
  obtain ⟨pool, queues, topics⟩ := same
  refine ⟨?_, ?_, ?_, ?_, fun d => (topics d).trans (broadcast.topics d), ?_⟩
  · rw [pool]; exact broadcast.owned
  · rw [pool]; exact broadcast.keeps
  · rw [pool]; exact broadcast.regions
  · rw [pool]; exact broadcast.slots
  · unfold Arrived NewMessage
    rw [pool, queues]
    exact broadcast.arrived

theorem Broadcast.deliver {n n' : Nng} {sent : List SocketId}
    (broadcast : Broadcast foreign n n' m sent) (stored : Stored n.pool s m b)
    (small : n.pool.bodyLen m.address ≤ 64) (admits : Admits n.pool.heap.regions)
    (room : Room n'.pool (k + 1)) (d : SocketId) :
    Broadcast foreign n (deliverCopy n' d m.address).2 m (sent ++ [d]) ∧
      Room (deliverCopy n' d m.address).2.pool k := by
  obtain ⟨stored', bytes⟩ := broadcast.keeps s m b (Set.notMem_empty _) stored
  have small' : n'.pool.bodyLen m.address ≤ 64 := by
    rwa [← Pool.bodyBytes_length, bytes, Pool.bodyBytes_length]
  have intact : IntactMessage n'.pool m.address := by
    refine ⟨s, stored'.used, by rw [stored'.slot], by rw [stored'.slot]; exact stored'.body, ?_⟩
    exact small'.trans (by decide)
  have full := deliverCopy_full (d := d) broadcast.owned intact
    (by rw [broadcast.regions]; exact admits) (room.mono (by omega))
  have topics := deliverCopy_sockState n' d m.address
  have delivered := broadcast.owned.deliverCopy d stored' small'
  generalize deliverCopy n' d m.address = result at delivered full topics
  have before : ∀ {n'' : Nng}, Keeps n'.pool n''.pool →
      Arrived (NewMessage n.pool n''.pool (n.pool.bodyBytes m.address)) n n' sent := fun keeps =>
    broadcast.arrived.mono fun y copy => copy.kept keeps fun _ member => absurd member id
  cases delivered with
  | @failed rv n'' failed queues givenUp =>
      refine ⟨⟨givenUp.owned, broadcast.keeps.trans givenUp.keeps,
        givenUp.regions.trans broadcast.regions,
        fun s' used => (givenUp.slots s').mpr (broadcast.slots s' used),
        fun e => by rw [topics]; exact broadcast.topics e,
        (before givenUp.keeps).trans (.one (.inl ⟨full failed, queues⟩))⟩,
        (givenUp.room room).mono (by omega)⟩
  | @copied n'' t c e begun free queues =>
      have copy : NewMessage n.pool n''.pool (n.pool.bodyBytes m.address) c.address :=
        ⟨t, c, e, fun used => begun.free (broadcast.slots t used), begun.stored, rfl,
          begun.bytes.trans bytes⟩
      exact ⟨⟨begun.owned, broadcast.keeps.trans begun.keeps,
        begun.regions.trans broadcast.regions,
        fun s' used => (begun.slots s').mpr (.inr (broadcast.slots s' used)),
        fun e => by rw [topics]; exact broadcast.topics e,
        (before begun.keeps).trans (.one (.inr ⟨_, copy, free, queues⟩))⟩, begun.room room⟩

/-- The loop of a broadcast. A round delivers to the peers that `wants` selects and may change
other parts of the socket state. -/
theorem Broadcast.fold {n : Nng} {round : Nng → SocketId → Nng} {wants : SocketId → Bool}
    (stored : Stored n.pool s m b) (small : n.pool.bodyLen m.address ≤ 64)
    (admits : Admits n.pool.heap.regions)
    (rounds : ∀ n' d sent, Broadcast foreign n n' m sent →
      SameMessages (if wants d then (deliverCopy n' d m.address).2 else n') (round n' d))
    {peers : List SocketId} {n' : Nng} {sent : List SocketId}
    (broadcast : Broadcast foreign n n' m sent)
    (room : Room n'.pool (peers.filter wants).length) :
    Broadcast foreign n (peers.foldl round n') m (sent ++ peers.filter wants) := by
  induction peers generalizing n' sent with
  | nil => simpa using broadcast
  | cons d peers ih =>
      have same := rounds n' d sent broadcast
      rw [List.foldl_cons]
      by_cases wanted : wants d = true
      · rw [if_pos wanted] at same
        rw [List.filter_cons_of_pos wanted, List.length_cons] at room
        obtain ⟨next, left⟩ := broadcast.deliver stored small admits room d
        have rest := ih (next.same same) (by rw [same.pool]; exact left)
        rwa [List.filter_cons_of_pos wanted, List.append_cons]
      · rw [if_neg wanted] at same
        rw [List.filter_cons_of_neg wanted] at room ⊢
        exact ih (broadcast.same same) (by rw [same.pool]; exact room)

/-! ## Who should receive -/

/-- The protocols that broadcast, with those that listen to them. -/
def Protocol.Broadcasts (mine theirs : Protocol) : Prop :=
  (mine = .pub0 ∧ theirs = .sub0) ∨ (mine = .bus0 ∧ theirs = .bus0) ∨
    (mine = .surveyor0 ∧ theirs = .respondent0)

/-- Pipe `i` leads from `id` to `d`. Only a BUS follows a pipe against its direction. -/
def Leads (n : Nng) (mine : Protocol) (id d : SocketId) (i : PipeIndex) : Prop :=
  (n.pipes i).inUse = true ∧ (((n.pipes i).src = id ∧ (n.pipes i).dst = d) ∨
    (mine = .bus0 ∧ (n.pipes i).src = d ∧ (n.pipes i).dst = id))

/-- An open socket of the listening protocol. -/
def Audience (n : Nng) (theirs : Protocol) (d : SocketId) : Prop :=
  n.socketValid d = true ∧ (n.socketPool d).protocol = theirs.code

/-- The sockets for which a broadcast of `x` on `id` is meant. -/
structure Receiver (n : Nng) (mine theirs : Protocol) (id : SocketId) (x : Nat)
    (d : SocketId) : Prop where
  other : d ≠ id
  audience : Audience n theirs d
  joined : ∃ i, Leads n mine id d i
  accepts : mine = .pub0 → subAccepts n d x = true

/-- No two pipes lead from `id` to one listener, and a BUS is not connected to itself. -/
structure SimplePipes (n : Nng) (mine theirs : Protocol) (id : SocketId) : Prop where
  single : ∀ d, Audience n theirs d → ∀ i, Leads n mine id d i → ∀ j, Leads n mine id d j → i = j
  noLoop : mine = .bus0 → ∀ i, ¬Leads n mine id id i

instance (n : Nng) (mine : Protocol) (id d : SocketId) (i : PipeIndex) :
    Decidable (Leads n mine id d i) := inferInstanceAs (Decidable (_ ∧ _))

instance (n : Nng) (theirs : Protocol) (d : SocketId) : Decidable (Audience n theirs d) :=
  inferInstanceAs (Decidable (_ ∧ _))

/-- A SUB takes what its topics match, the others take everything. -/
def wanted (n : Nng) (mine : Protocol) (x : Nat) (d : SocketId) : Bool :=
  decide (mine ≠ .pub0) || subAccepts n d x

/-- The sockets for which a broadcast makes copies, with repetitions. -/
def targets (n : Nng) (mine theirs : Protocol) (id : SocketId) (x : Nat) : List SocketId :=
  (collectPeers n id theirs).filter (wanted n mine x)

/-- Each receiver with room in its queue is listed once, or at least once if there is room for one
message only, and nobody else with room is listed. -/
def EachOnce (n : Nng) (mine theirs : Protocol) (id : SocketId) (x : Nat) : Prop :=
  ∀ d, (n.recvQueues d).length < maxQueuedMsgs →
    (Receiver n mine theirs id x d → (targets n mine theirs id x).count d = 1 ∨
      (0 < (targets n mine theirs id x).count d ∧
        (n.recvQueues d).length + 1 = maxQueuedMsgs)) ∧
    (¬Receiver n mine theirs id x d → (targets n mine theirs id x).count d = 0)

/-- Nobody wants a copy before the last look at the message. -/
def OnlyLast (n : Nng) (mine theirs : Protocol) (id : SocketId) (x : Nat) : Prop :=
  ∀ d ∈ (collectPeers n id theirs).dropLast, wanted n mine x d = false

/-- Each receiver with room in its queue has got one message, and nobody else any. -/
def FannedOut (n n' : Nng) (mine theirs : Protocol) (id : SocketId) (x : Nat) : Prop :=
  ∀ d, (Receiver n mine theirs id x d ∧ (n.recvQueues d).length < maxQueuedMsgs →
      ∃ y, n'.recvQueues d = n.recvQueues d ++ [y]) ∧
    (¬(Receiver n mine theirs id x d ∧ (n.recvQueues d).length < maxQueuedMsgs) →
      n'.recvQueues d = n.recvQueues d)

instance (n : Nng) (mine theirs : Protocol) (id : SocketId) (x : Nat) (d : SocketId) :
    Decidable (Receiver n mine theirs id x d) :=
  decidable_of_iff (d ≠ id ∧ Audience n theirs d ∧ (∃ i, Leads n mine id d i) ∧
      (mine = .pub0 → subAccepts n d x = true))
    ⟨fun ⟨h₁, h₂, h₃, h₄⟩ => ⟨h₁, h₂, h₃, h₄⟩, fun ⟨h₁, h₂, h₃, h₄⟩ => ⟨h₁, h₂, h₃, h₄⟩⟩

instance (n : Nng) (mine theirs : Protocol) (id : SocketId) (x : Nat) :
    Decidable (EachOnce n mine theirs id x) := inferInstanceAs (Decidable (∀ _, _))

variable {n n' : Nng} {id d : SocketId} {mine theirs : Protocol}

theorem peerAcross_eq_some {pipe : Pipe} :
    peerAcross id theirs pipe = some d ↔ pipe.inUse = true ∧ ((pipe.src = id ∧ pipe.dst = d) ∨
      (theirs = .bus0 ∧ pipe.src = d ∧ pipe.dst = id)) := by
  unfold peerAcross
  by_cases used : pipe.inUse = true
  · rw [if_neg (by simp [used])]
    by_cases out : pipe.src = id
    · rw [if_pos out]
      simp only [Option.some.injEq, used, out, true_and]
      constructor
      · exact .inl
      · rintro (far | ⟨-, rfl, far⟩)
        · exact far
        · exact far
    · rw [if_neg out]
      by_cases back : theirs = .bus0 ∧ pipe.dst = id
      · rw [if_pos back]
        simp [used, out, back]
      · rw [if_neg back]
        simp only [used, out, true_and, false_and, false_or, reduceCtorEq, false_iff]
        rintro ⟨bus, -, far⟩
        exact back ⟨bus, far⟩
  · simp [used]

theorem Protocol.Broadcasts.bus_iff (broadcasts : mine.Broadcasts theirs) :
    theirs = .bus0 ↔ mine = .bus0 := by
  rcases broadcasts with ⟨rfl, rfl⟩ | ⟨rfl, rfl⟩ | ⟨rfl, rfl⟩ <;> simp

theorem peerAcross_leads (broadcasts : mine.Broadcasts theirs) (i : PipeIndex) :
    peerAcross id theirs (n.pipes i) = some d ↔ Leads n mine id d i := by
  rw [peerAcross_eq_some, Leads, broadcasts.bus_iff]

/-- The peers of a sender with simple pipes, before the list is cut. -/
theorem SimplePipes.peers (simple : SimplePipes n mine theirs id)
    (broadcasts : mine.Broadcasts theirs) :
    (collectPeers n id theirs).Nodup ∧ ∀ d, d ∈ collectPeers n id theirs ↔
      Audience n theirs d ∧ ∃ i, Leads n mine id d i := by
  generalize list : ((List.finRange 64).filterMap fun i =>
    (peerAcross id theirs (n.pipes i)).filter fun peer =>
      n.socketValid peer && decide ((n.socketPool peer).protocol = theirs.code)) = peers
  have listed : ∀ {d i}, (peerAcross id theirs (n.pipes i)).filter (fun peer =>
      n.socketValid peer && decide ((n.socketPool peer).protocol = theirs.code)) = some d ↔
      Leads n mine id d i ∧ Audience n theirs d := by
    intro d i
    rw [Option.filter_eq_some_iff, peerAcross_leads broadcasts]
    simp [Audience]
  have nodup : peers.Nodup := by
    rw [← list]
    refine List.Nodup.filterMap (fun i j d hi hj => ?_) (List.nodup_finRange 64)
    obtain ⟨leads, audience⟩ := listed.mp hi
    exact simple.single d audience i leads j (listed.mp hj).1
  -- sixteen sockets make at most sixteen peers, so nothing is cut off
  have short : peers.length ≤ maxSockets := by
    simpa [maxSockets] using nodup.length_le_card
  have whole : collectPeers n id theirs = peers := by
    rw [collectPeers, list, List.take_of_length_le short]
  rw [whole]
  refine ⟨nodup, fun d => ?_⟩
  rw [← list, List.mem_filterMap]
  simp only [List.mem_finRange, true_and, listed]
  exact ⟨fun ⟨i, leads, audience⟩ => ⟨audience, i, leads⟩,
    fun ⟨audience, i, leads⟩ => ⟨i, leads, audience⟩⟩

theorem SimplePipes.receiver_iff (simple : SimplePipes n mine theirs id)
    (broadcasts : mine.Broadcasts theirs) (protocol : (n.socketPool id).protocol = mine.code)
    (x : Nat) (d : SocketId) :
    Receiver n mine theirs id x d ↔
      d ∈ collectPeers n id theirs ∧ wanted n mine x d = true := by
  rw [(simple.peers broadcasts).2]
  constructor
  · intro receiver
    refine ⟨⟨receiver.audience, receiver.joined⟩, ?_⟩
    by_cases pub : mine = .pub0
    · simp [wanted, receiver.accepts pub]
    · simp [wanted, pub]
  · rintro ⟨⟨audience, i, leads⟩, wants⟩
    refine ⟨?_, audience, ⟨i, leads⟩, fun pub => by simpa [wanted, pub] using wants⟩
    rintro rfl
    -- only a BUS listens to its own protocol
    have same := audience.2.symm.trans protocol
    rcases broadcasts with ⟨rfl, rfl⟩ | ⟨rfl, rfl⟩ | ⟨rfl, rfl⟩
    · simp [Protocol.code] at same
    · exact simple.noLoop rfl i leads
    · simp [Protocol.code] at same

/-- Simple pipes make a list without repetitions. -/
theorem SimplePipes.eachOnce (simple : SimplePipes n mine theirs id)
    (broadcasts : mine.Broadcasts theirs) (protocol : (n.socketPool id).protocol = mine.code)
    (x : Nat) : EachOnce n mine theirs id x := by
  have nodup : (targets n mine theirs id x).Nodup := (simple.peers broadcasts).1.filter _
  intro d _
  rw [simple.receiver_iff broadcasts protocol, ← List.mem_filter]
  exact ⟨fun member => .inl (List.count_eq_one_of_mem nodup member), List.count_eq_zero_of_not_mem⟩

theorem fannedOut_iff (arrived : Arrived (fun _ => True) n n' (targets n mine theirs id x)) :
    FannedOut n n' mine theirs id x ↔ EachOnce n mine theirs id x := by
  refine forall_congr' fun d => ?_
  obtain ⟨new, grown, count, -⟩ := arrived d
  have one : (∃ y, n'.recvQueues d = n.recvQueues d ++ [y]) ↔ new.length = 1 := by
    simp only [grown, List.append_cancel_left_eq, List.length_eq_one_iff]
  have none : n'.recvQueues d = n.recvQueues d ↔ new.length = 0 := by
    simp [grown]
  rw [one, none, count]
  by_cases free : (n.recvQueues d).length < maxQueuedMsgs
  · by_cases receiver : Receiver n mine theirs id x d
    · simp only [receiver, free, and_self, forall_const, not_true_eq_false, false_implies,
        and_true]
      omega
    · simp only [receiver, free, false_and, false_implies, not_false_eq_true, forall_const,
        true_and]
      omega
  · simp only [free, and_false, false_implies, not_false_eq_true, forall_const, true_and, iff_true]
    omega

/-! ## The three loops -/

/-- Subscriptions look at the body only. -/
theorem subAccepts_eq (n : Nng) (d : SocketId) (x : Nat) :
    subAccepts n d x = (n.sockState d).topics.any fun topic =>
      decide (topic = []) || decide (topic <+: n.pool.bodyBytes x) := by
  unfold subAccepts
  congr 1
  funext topic
  congr 1
  rw [← Bool.decide_and, decide_eq_decide, List.prefix_iff_eq_take, Pool.bodyBytes]
  constructor
  · rintro ⟨short, read⟩
    obtain ⟨rest, split⟩ := Nat.exists_eq_add_of_le short
    rw [split, Mem.read_append, List.take_left' (by simp), read]
  · intro read
    have short : topic.length ≤ n.pool.bodyLen x := by
      have := congrArg List.length read
      simp only [List.length_take, Mem.read_length] at this
      omega
    obtain ⟨rest, split⟩ := Nat.exists_eq_add_of_le short
    rw [split, Mem.read_append, List.take_left' (by simp)] at read
    exact ⟨short, read.symm⟩

theorem wanted_eq {n n' : Nng} (topics : ∀ d, (n'.sockState d).topics = (n.sockState d).topics)
    (bytes : n'.pool.bodyBytes x = n.pool.bodyBytes x) (d : SocketId) :
    wanted n' mine x d = wanted n mine x d := by
  rw [wanted, wanted, subAccepts_eq, subAccepts_eq, topics d, bytes]

theorem survey_same (n : Nng) (id d : SocketId) (x : Nat) :
    SameMessages (deliverCopy n d x).2 (survey id x n d) := by
  unfold survey
  split
  · rename_i n' delivered
    rw [delivered]
    refine ⟨rfl, rfl, fun e => ?_⟩
    by_cases here : e = d
    · subst here
      simp [Nng.setState]
    · simp [Nng.setState, Function.update_of_ne here]
  · rename_i delivered
    rw [delivered]
    exact ⟨rfl, rfl, fun _ => rfl⟩

/-- Apart from other parts of the socket state, the switch of `nng_send` goes through the peers
and delivers to those that want the message when their turn comes. -/
theorem route_loop (now : BitVec 64) (x : Nat) (broadcasts : mine.Broadcasts theirs)
    (protocol : (n.socketPool id).protocol = mine.code) :
    ∃ round : Nng → SocketId → Nng,
      (∀ n' d, SameMessages (if wanted n' mine x d then (deliverCopy n' d x).2 else n')
        (round n' d)) ∧
      SameMessages ((collectPeers n id theirs).foldl round n) (route n now id x).2 := by
  unfold route
  rcases broadcasts with ⟨rfl, rfl⟩ | ⟨rfl, rfl⟩ | ⟨rfl, rfl⟩ <;>
    simp only [protocol, Protocol.code, Int.reduceEq, if_true, if_false]
  · refine ⟨fun n' d => if subAccepts n' d x then (deliverCopy n' d x).2 else n', fun n' d => ?_,
      rfl, rfl, fun _ => rfl⟩
    simp only [wanted, ne_eq, not_true_eq_false, decide_false, Bool.false_or]
    exact ⟨rfl, rfl, fun _ => rfl⟩
  · refine ⟨fun n' d => (deliverCopy n' d x).2, fun n' d => ?_, rfl, rfl, fun _ => rfl⟩
    simp only [wanted, ne_eq, reduceCtorEq, not_false_eq_true, decide_true, Bool.true_or, if_true]
    exact ⟨rfl, rfl, fun _ => rfl⟩
  · refine ⟨survey id x, fun n' d => ?_, ?_⟩
    · simp only [wanted, ne_eq, reduceCtorEq, not_false_eq_true, decide_true, Bool.true_or,
        if_true]
      exact survey_same n' id d x
    unfold sendSurveyor
    split
    · rename_i none
      rw [none]
      exact ⟨rfl, rfl, fun _ => rfl⟩
    · refine ⟨rfl, rfl, fun d => ?_⟩
      by_cases here : d = id
      · subst here
        simp [Nng.setState]
      · simp [Nng.setState, Function.update_of_ne here]

/-- A small message is the same at every look at it. -/
theorem route_broadcast (now : BitVec 64) (owned : Ownership foreign n.pool)
    (stored : Stored n.pool s m b) (small : n.pool.bodyLen m.address ≤ 64)
    (admits : Admits n.pool.heap.regions) (broadcasts : mine.Broadcasts theirs)
    (protocol : (n.socketPool id).protocol = mine.code)
    (room : Room n.pool (targets n mine theirs id m.address).length) :
    Broadcast foreign n (route n now id m.address).2 m (targets n mine theirs id m.address) := by
  obtain ⟨round, rounds, same⟩ := route_loop now m.address broadcasts protocol
  have start : Broadcast foreign n n m [] := .start owned
  refine (start.fold stored small admits (fun n' d sent broadcast => ?_) room).same same
  have wants : wanted n' mine m.address d = wanted n mine m.address d :=
    wanted_eq broadcast.topics (broadcast.keeps s m b (Set.notMem_empty _) stored).2 d
  rw [← wants]
  exact rounds n' d

/-- If only the last peer wants the message, nothing is copied before. -/
theorem fold_onlyLast {round : Nng → SocketId → Nng}
    (rounds : ∀ n' d, SameMessages (if wanted n' mine x d then (deliverCopy n' d x).2 else n')
      (round n' d)) {peers : List SocketId} {n₁ : Nng} (same : SameMessages n n₁)
    (quiet : ∀ d ∈ peers.dropLast, wanted n mine x d = false) :
    (peers.filter (wanted n mine x) = [] ∧ SameMessages n (peers.foldl round n₁)) ∨
      ∃ d n₂, peers.filter (wanted n mine x) = [d] ∧ SameMessages n n₂ ∧
        SameMessages (deliverCopy n₂ d x).2 (peers.foldl round n₁) := by
  induction peers generalizing n₁ with
  | nil => exact .inl ⟨rfl, same⟩
  | cons d peers ih =>
      have turn := rounds n₁ d
      rw [wanted_eq same.topics (by rw [same.pool]) d] at turn
      cases wants : wanted n mine x d with
      | false =>
          rw [wants, if_neg Bool.false_ne_true] at turn
          rw [List.foldl_cons, List.filter_cons_of_neg (by simp [wants])]
          refine ih (same.trans turn) fun e member => quiet e ?_
          cases peers with
          | nil => cases member
          | cons e' peers => exact List.mem_cons_of_mem d member
      | true =>
          cases peers with
          | nil =>
              rw [wants, if_pos rfl] at turn
              exact .inr ⟨d, n₁, by simp [wants], same, turn⟩
          | cons e peers =>
              rw [quiet d List.mem_cons_self] at wants
              cases wants

theorem route_onlyLast (now : BitVec 64) (owned : Ownership foreign n.pool)
    (intact : IntactMessage n.pool x) (admits : Admits n.pool.heap.regions)
    (broadcasts : mine.Broadcasts theirs) (protocol : (n.socketPool id).protocol = mine.code)
    (room : Room n.pool (targets n mine theirs id x).length)
    (last : OnlyLast n mine theirs id x) :
    Arrived (fun _ => True) n (route n now id x).2 (targets n mine theirs id x) := by
  obtain ⟨round, rounds, same⟩ := route_loop now x broadcasts protocol
  obtain ⟨none, still⟩ | ⟨d, n₂, one, same₂, delivered⟩ :=
    fold_onlyLast rounds ⟨rfl, rfl, fun _ => rfl⟩ last
  · rw [targets, none]
    exact .nothing (same.queues.trans still.queues)
  · rw [targets, one] at room ⊢
    rw [← same₂.pool] at owned intact admits room
    have arrived := deliverCopy_arrived owned d intact admits room
    unfold Arrived at arrived ⊢
    rw [same.queues, delivered.queues]
    rwa [same₂.queues] at arrived

/-! ## The send as a whole -/

/-- A PUB with two SUB sockets, of which one takes everything and the other, connected twice,
topic 7 only, and a message of three bytes. -/
def publisher : List NngOp :=
  [.socketCreate Protocol.pub0.code, .socketCreate Protocol.sub0.code,
    .socketCreate Protocol.sub0.code, .connect (socketAt 0) (socketAt 2),
    .connect (socketAt 0) (socketAt 1), .connect (socketAt 0) (socketAt 2),
    .subSubscribe (socketAt 1) [], .subSubscribe (socketAt 2) [7], .msgAlloc 0,
    .msgAppend 0x800000 (.object [1, 2, 3])]

/-- A PUB with one SUB that takes everything, and a message. -/
def subscribed : List NngOp :=
  [.socketCreate Protocol.pub0.code, .socketCreate Protocol.sub0.code,
    .connect (socketAt 0) (socketAt 1), .subSubscribe (socketAt 1) [], .msgAlloc 0]

def selfConnected : List NngOp :=
  [.socketCreate Protocol.bus0.code, .connect (socketAt 0) (socketAt 0), .msgAlloc 0]

/-- A second SUB, and a message of 256 bytes behind the free blocks of another one. -/
def longMessage : List NngOp :=
  subscribed ++ [.socketCreate Protocol.sub0.code, .connect (socketAt 0) (socketAt 2),
    .subSubscribe (socketAt 2) [], .msgAlloc 256,
    .msgAppend 0x800080 (.object (List.replicate 256 1)), .msgFree 0x800000]

/-- A second message, whose header an append to the first overwrites. -/
def overwritten : List NngOp :=
  subscribed ++ [.msgAlloc 0, .msgAppend 0x800000 (.object (List.replicate 256 1))]

/-- A boot image whose region table has the second pair of blocks of the heap read-only. -/
def guardedHeap : BootImage := { sampleImage with regions := [⟨0x800080, 0x8000FF, true, false⟩] }

end LughOS.Kernel

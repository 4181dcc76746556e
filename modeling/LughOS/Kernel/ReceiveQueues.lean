import LughOS.Kernel.QueueTables

/-!
# Receive queues are queues

What `nng_recv` returned since a socket was created, followed by what is still in its queue, is
what was delivered to it since then, and none of it is a null pointer. Every call keeps this
but one: `nng_socket_create` takes an id without a look at its queue, and `nng_shutdown` leaves
queues behind that have been cleared but not emptied. A socket created on such an id receives
as many null pointers as there were messages (`shutdown_leaves_null_messages`).

`receive_queues_fifo_iff` says that this is the only way: a run keeps all queues in order if and
only if each creation takes an id with an empty queue.
-/

namespace LughOS.Kernel

namespace NngTables

variable {t t' t'' : NngTables}

theorem valid_congr (sockets : t'.socketPool = t.socketPool) :
    t'.view.socketValid = t.view.socketValid := by
  funext d
  exact congrArg (fun sockets : SocketId → NngSocket => decide ((sockets d).id = some d)) sockets

/-! ## Calls that only add messages -/

/-- From `t` to `t'` no socket was opened or closed, nothing was received, and messages were
added to queues of open sockets only. -/
structure Grows (t t' : NngTables) : Prop where
  laid : t'.pool.heap.LaidOut
  sockets : t'.socketPool = t.socketPool
  received : t'.received = t.received
  queues : ∀ d, ∃ added, (t'.recvQueues d).contents = (t.recvQueues d).contents ++ added ∧
    t'.enqueued d = t.enqueued d ++ added ∧ 0 ∉ added ∧
    (added = [] ∨ t.view.socketValid d = true)

theorem Grows.valid (grows : Grows t t') : t'.view.socketValid = t.view.socketValid :=
  valid_congr grows.sockets

/-- The queues are as they were. -/
theorem Grows.of_same (laid : t'.pool.heap.LaidOut) (sockets : t'.socketPool = t.socketPool)
    (received : t'.received = t.received) (queues : t'.recvQueues = t.recvQueues)
    (enqueued : t'.enqueued = t.enqueued) : Grows t t' :=
  ⟨laid, sockets, received, fun d => ⟨[], by simp [queues], by simp [enqueued], by simp, .inl rfl⟩⟩

theorem Grows.refl (laid : t.pool.heap.LaidOut) : Grows t t := .of_same laid rfl rfl rfl rfl

theorem put_grows {n : Nng} (laid : n.pool.heap.LaidOut) (sockets : n.socketPool = t.socketPool) :
    Grows t (t.put n) := .of_same laid sockets rfl rfl rfl

theorem Grows.trans (first : Grows t t') (second : Grows t' t'') : Grows t t'' := by
  refine ⟨second.laid, second.sockets.trans first.sockets, second.received.trans first.received,
    fun d => ?_⟩
  obtain ⟨added, queue, record, proper, listening⟩ := first.queues d
  obtain ⟨added', queue', record', proper', listening'⟩ := second.queues d
  rw [first.valid] at listening'
  refine ⟨added ++ added', ?_, ?_, ?_, ?_⟩
  · rw [queue', queue, List.append_assoc]
  · rw [record', record, List.append_assoc]
  · simp [proper, proper']
  · rcases listening with rfl | valid
    · simpa using listening'
    · exact .inr valid

theorem Grows.setState (grows : Grows t t') (id : SocketId) (f : SocketState → SocketState) :
    Grows t (t'.setState id f) := grows.trans (.of_same grows.laid rfl rfl rfl rfl)

theorem Grows.fold {round : NngTables → SocketId → NngTables} {peers : List SocketId}
    (rounds : ∀ t' peer, peer ∈ peers → Grows t t' → Grows t (round t' peer))
    (grows : Grows t t') : Grows t (peers.foldl round t') := by
  induction peers generalizing t' with
  | nil => exact grows
  | cons peer peers ih =>
      refine ih (fun t' p member => rounds t' p (List.mem_cons_of_mem _ member)) ?_
      exact rounds t' peer List.mem_cons_self grows

theorem nngMsgAlloc_ne_zero {p p' : Pool} {size x : Nat} (laid : p.heap.LaidOut)
    (alloc : nngMsgAlloc p size = (.ok x, p')) : x ≠ 0 := by
  obtain ⟨rv, _, failed, -⟩ | ⟨s, m, b, _, ok, -⟩ := nngMsgAlloc_ownership laid size
  · rw [failed] at alloc
    cases alloc
  · rw [ok] at alloc
    cases alloc
    exact m.address_ne_zero

theorem enqueueIncoming_grows (laid : t.pool.heap.LaidOut) {d : SocketId}
    (valid : t.view.socketValid d = true) {msg : Nat} (proper : msg ≠ 0) :
    Grows t (t.enqueueIncoming d msg).2 := by
  unfold enqueueIncoming
  cases enqueued : (t.recvQueues d).enqueue msg with
  | none => exact .refl laid
  | some q =>
      refine ⟨laid, rfl, rfl, fun e => ?_⟩
      by_cases here : e = d
      · subst here
        exact ⟨[msg], by simp [CountedQueue.contents_enqueue enqueued], by simp,
          by simpa using proper.symm, .inr valid⟩
      · exact ⟨[], by simp [here], by simp [here], by simp, .inl rfl⟩

theorem deliverCopy_grows (laid : t.pool.heap.LaidOut) {d : SocketId}
    (valid : t.view.socketValid d = true) (src : Nat) : Grows t (t.deliverCopy d src).2 := by
  unfold deliverCopy
  rcases alloc : nngMsgAlloc t.pool 0 with ⟨rv | copy, p⟩
  · exact .of_same (nngMsgAlloc_laidOut laid alloc) rfl rfl rfl rfl
  have laidP := nngMsgAlloc_laidOut laid alloc
  dsimp only
  rcases copied : copyBody p copy src with ⟨rv, p'⟩
  have laidP' : p'.heap.LaidOut := laidOut_invariant.copyBody laidP copied
  have begun : Grows t { t with pool := p' } := .of_same laidP' rfl rfl rfl rfl
  have given : ∀ {u}, Grows t u → Grows t (u.freeMsg copy) := fun grows =>
    grows.trans (.of_same (laidOut_invariant.free copy grows.laid) rfl rfl rfl rfl)
  have enqueue : Grows t (enqueueIncoming { t with pool := p' } d copy).2 :=
    begun.trans (enqueueIncoming_grows (t := { t with pool := p' }) laidP' valid
      (nngMsgAlloc_ne_zero laid alloc))
  cases rv <;> try exact given begun
  dsimp only
  rcases result : enqueueIncoming { t with pool := p' } d copy with ⟨rv', u⟩
  rw [result] at enqueue
  cases rv' <;> first | exact enqueue | exact given enqueue

theorem Grows.deliver (grows : Grows t t') {d : SocketId} (valid : t.view.socketValid d = true)
    (src : Nat) : Grows t (t'.deliverCopy d src).2 :=
  grows.trans (deliverCopy_grows grows.laid (by rw [grows.valid]; exact valid) src)

variable {id : SocketId}

/-- A peer found by `collect_peers` is an open socket. -/
theorem collectPeers_valid {proto : Protocol} {d : SocketId}
    (member : d ∈ collectPeers t.view id proto) : t.view.socketValid d = true := by
  obtain ⟨-, -, valid, -⟩ := mem_collectPeers member
  exact valid

theorem sendPub_grows (laid : t.pool.heap.LaidOut) (msg : Nat) :
    Grows t (t.sendPub id msg).2 := by
  refine Grows.fold (fun t' peer member grows => ?_) (.refl laid)
  split
  · exact grows.deliver (collectPeers_valid member) msg
  · exact grows

theorem sendBus_grows (laid : t.pool.heap.LaidOut) (msg : Nat) :
    Grows t (t.sendBus id msg).2 :=
  Grows.fold (fun _ _ member grows => grows.deliver (collectPeers_valid member) msg) (.refl laid)

theorem sendPush_grows (laid : t.pool.heap.LaidOut) (msg : Nat) :
    Grows t (t.sendPush id msg).2 := by
  unfold sendPush
  dsimp only
  split
  · exact .refl laid
  · rename_i peer chosen
    dsimp only
    apply Grows.setState
    exact deliverCopy_grows laid (collectPeers_valid (List.mem_of_getElem? chosen)) msg

theorem sendReq_grows (laid : t.pool.heap.LaidOut) (msg : Nat) :
    Grows t (t.sendReq id msg).2 := by
  unfold sendReq
  dsimp only
  split
  · exact .refl laid
  · rename_i rep chosen
    have delivered := deliverCopy_grows laid (collectPeers_valid (List.mem_of_getElem? chosen)) msg
    split <;> rename_i outcome <;> rw [outcome] at delivered
    · dsimp only
      apply Grows.setState
      exact delivered.setState _ _
    · exact delivered

theorem sendRep_grows (laid : t.pool.heap.LaidOut) (msg : Nat) :
    Grows t (t.sendRep id msg).2 := by
  unfold sendRep
  split
  · exact .refl laid
  · rename_i req found
    dsimp only
    apply Grows.setState
    exact deliverCopy_grows laid (Nng.valid?_eq_some.mp found).2 msg

theorem survey_grows {peer : SocketId} (grows : Grows t t')
    (valid : t.view.socketValid peer = true) (msg : Nat) : Grows t (survey id msg t' peer) := by
  have delivered := grows.deliver valid msg
  unfold survey
  split <;> rename_i outcome <;> rw [outcome] at delivered
  · exact delivered.setState _ _
  · exact delivered

theorem sendSurveyor_grows (laid : t.pool.heap.LaidOut) (now : BitVec 64) (msg : Nat) :
    Grows t (t.sendSurveyor now id msg).2 := by
  unfold sendSurveyor
  split
  · exact .refl laid
  · dsimp only
    apply Grows.setState
    refine Grows.fold (fun t' peer member grows => ?_) (.refl laid)
    exact survey_grows grows (collectPeers_valid member) msg

theorem sendRespondent_grows (laid : t.pool.heap.LaidOut) (now : BitVec 64) (msg : Nat) :
    Grows t (t.sendRespondent now id msg).2 := by
  unfold sendRespondent
  split
  · exact .refl laid
  rename_i surveyor found
  split
  · dsimp only
    exact (Grows.refl laid).setState _ _
  · dsimp only
    apply Grows.setState
    exact deliverCopy_grows laid (Nng.valid?_eq_some.mp found).2 msg

theorem sendPair_grows (laid : t.pool.heap.LaidOut) (msg : Nat) :
    Grows t (t.sendPair id msg).2 := by
  unfold sendPair
  split
  · exact .refl laid
  · rename_i peer first
    exact deliverCopy_grows laid (collectPeers_valid (List.mem_of_mem_head? first)) msg

theorem route_grows (laid : t.pool.heap.LaidOut) (now : BitVec 64) (id : SocketId) (msg : Nat) :
    Grows t (t.route now id msg).2 := by
  unfold route
  dsimp only
  split
  · exact sendPub_grows laid msg
  split
  · exact sendPush_grows laid msg
  split
  · exact sendReq_grows laid msg
  split
  · exact sendRep_grows laid msg
  split
  · exact sendBus_grows laid msg
  split
  · exact sendSurveyor_grows laid now msg
  split
  · exact sendRespondent_grows laid now msg
  split
  · exact sendPair_grows laid msg
  · exact .refl laid

theorem freeMsg_grows (grows : Grows t t') (msg : Nat) : Grows t (t'.freeMsg msg) :=
  grows.trans (.of_same (laidOut_invariant.free msg grows.laid) rfl rfl rfl rfl)

theorem nngSend_grows (laid : t.pool.heap.LaidOut) (now : BitVec 64) (sock : NngSocket)
    (msg : Nat) : Grows t (t.nngSend now sock msg).2 := by
  unfold nngSend
  split
  · exact .refl laid
  split
  · exact .refl laid
  · exact freeMsg_grows (route_grows laid now _ msg) msg

/-! ## Queues in order -/

/-- How a receive ends. -/
inductive Receives (t : NngTables) : Except Rv Nat × NngTables → Prop where
  | nothing {rv : Rv} {n : Nng} (pool : n.pool = t.pool) (sockets : n.socketPool = t.socketPool) :
      Receives t (.error rv, t.put n)
  | message {d : SocketId} {msg : Nat} {q : IncomingQueue} {n : Nng} (pool : n.pool = t.pool)
      (sockets : n.socketPool = t.socketPool) (valid : t.view.socketValid d = true)
      (dequeued : (t.recvQueues d).dequeue = some (msg, q)) :
      Receives t (.ok msg,
        { t.put n with
          recvQueues := Function.update t.recvQueues d q
          received := Function.update t.received d (t.received d ++ [msg]) })

theorem nngRecv_receives (t : NngTables) (now : BitVec 64) (sock : NngSocket) :
    Receives t (t.nngRecv now sock) := by
  unfold nngRecv
  split
  · exact .nothing (n := t.view) rfl rfl
  rename_i id found
  have pool := expireSurvey_pool t.view now id
  have sockets : (expireSurvey t.view now id).socketPool = t.socketPool := by
    unfold expireSurvey
    split <;> rfl
  dsimp only
  split
  · exact .nothing pool sockets
  · rename_i msg q dequeued
    exact .message pool sockets (Nng.valid?_eq_some.mp found).2 dequeued

/-- The queue of `d` has no null pointer in it and continues what was received. -/
structure InOrder (t : NngTables) (d : SocketId) : Prop where
  proper : 0 ∉ (t.recvQueues d).contents
  history : t.received d ++ (t.recvQueues d).contents = t.enqueued d

/-- Each open socket has a queue of proper messages; with what was received before they are
the messages delivered to the socket since its creation. No receive returns a null pointer. -/
structure Fifo (t : NngTables) : Prop where
  represents : ∀ d, t.view.socketValid d = true →
    ∃ msgs, (t.recvQueues d).Represents msgs ∧ t.received d ++ msgs = t.enqueued d
  receives : ∀ now sock, (t.nngRecv now sock).1 ≠ .ok 0

theorem fifo_iff : Fifo t ↔ ∀ d, t.view.socketValid d = true → InOrder t d := by
  constructor
  · intro fifo d valid
    obtain ⟨msgs, represents, history⟩ := fifo.represents d valid
    obtain ⟨rfl, proper⟩ := CountedQueue.represents_iff.mp represents
    exact ⟨proper, history⟩
  · intro ordered
    refine ⟨fun d valid => ?_, fun now sock null => ?_⟩
    · have order := ordered d valid
      exact ⟨_, CountedQueue.represents_iff.mpr ⟨rfl, order.proper⟩, order.history⟩
    · have received := nngRecv_receives t now sock
      generalize t.nngRecv now sock = result at received null
      cases received with
      | nothing pool sockets => cases null
      | @message d msg q n pool sockets valid dequeued =>
          obtain rfl : msg = 0 := Except.ok.inj null
          apply (ordered d valid).proper
          rw [CountedQueue.contents_of_dequeue dequeued]
          exact List.mem_cons_self

/-- What holds in every state: the queue of a socket that is not open holds null pointers
only. -/
structure Kept (t : NngTables) : Prop where
  laid : t.pool.heap.LaidOut
  idle : ∀ d, t.view.socketValid d = false → ∀ x ∈ (t.recvQueues d).contents, x = 0

theorem Grows.kept (grows : Grows t t') (kept : Kept t) : Kept t' := by
  refine ⟨grows.laid, fun d closed => ?_⟩
  rw [grows.valid] at closed
  obtain ⟨added, queue, -, -, none | valid⟩ := grows.queues d
  · rw [queue, none, List.append_nil]
    exact kept.idle d closed
  · rw [valid] at closed
    cases closed

theorem Grows.fifo (grows : Grows t t') (fifo : Fifo t) : Fifo t' := by
  rw [fifo_iff] at fifo ⊢
  intro d valid
  rw [grows.valid] at valid
  have order := fifo d valid
  obtain ⟨added, queue, record, proper, -⟩ := grows.queues d
  refine ⟨?_, ?_⟩
  · rw [queue, List.mem_append]
    exact not_or.mpr ⟨order.proper, proper⟩
  · rw [grows.received, queue, record, ← order.history, List.append_assoc]

theorem Receives.kept {result : Except Rv Nat × NngTables} (received : Receives t result)
    (kept : Kept t) : Kept result.2 := by
  cases received with
  | @nothing rv n pool sockets =>
      refine ⟨by simpa only [put, pool] using kept.laid, fun d closed => ?_⟩
      rw [valid_congr (t := t) sockets] at closed
      exact kept.idle d closed
  | @message d msg q n pool sockets valid dequeued =>
      refine ⟨by simpa only [put, pool] using kept.laid, fun e closed => ?_⟩
      rw [valid_congr (t := t) sockets] at closed
      have other : e ≠ d := by
        rintro rfl
        rw [valid] at closed
        cases closed
      simpa only [Function.update_of_ne other] using kept.idle e closed

theorem Receives.fifo {result : Except Rv Nat × NngTables} (received : Receives t result)
    (fifo : Fifo t) : Fifo result.2 := by
  rw [fifo_iff] at fifo ⊢
  intro e isOpen
  cases received with
  | @nothing rv n pool sockets =>
      rw [valid_congr (t := t) sockets] at isOpen
      exact ⟨(fifo e isOpen).proper, (fifo e isOpen).history⟩
  | @message d msg q n pool sockets valid dequeued =>
      rw [valid_congr (t := t) sockets] at isOpen
      obtain ⟨proper, history⟩ := fifo e isOpen
      by_cases here : e = d
      · subst here
        rw [CountedQueue.contents_of_dequeue dequeued] at proper history
        exact ⟨by simpa using List.not_mem_of_not_mem_cons proper, by simpa [put] using history⟩
      · exact ⟨by simpa [here] using proper, by simpa [here, put] using history⟩

/-! ## Calls that open and close sockets -/

theorem nngInit_closed (t : NngTables) (d : SocketId) :
    t.nngInit.view.socketValid d = false := by
  simp [nngInit, put, Kernel.nngInit, view, Nng.socketValid]

theorem nngInit_kept (kept : Kept t) : Kept t.nngInit :=
  ⟨kept.laid, fun d _ x member => by simp [nngInit] at member⟩

theorem nngShutdown_closed (t : NngTables) (d : SocketId) :
    t.nngShutdown.view.socketValid d = false := by
  simp [nngShutdown, view, Nng.socketValid]

theorem releaseSlot_laidOut {p : Pool} (laid : p.heap.LaidOut) (i : SlotIndex) :
    (releaseSlot p i).heap.LaidOut := by
  unfold releaseSlot
  split
  · dsimp only
    split <;> split <;> simp only [freeMemory_laidOut, laid]
  · exact laid

theorem nngShutdown_kept (kept : Kept t) : Kept t.nngShutdown := by
  have released : ((List.finRange 64).foldl releaseSlot t.pool).heap.LaidOut :=
    Runs.invariant_after (I := fun p : Pool => p.heap.LaidOut) kept.laid
      (fun _ i laid => releaseSlot_laidOut laid i) _
  refine ⟨?_, fun d _ x member => ?_⟩
  · exact Runs.invariant_after (I := fun p : Pool => p.heap.LaidOut) released
      (fun _ id laid => laidOut_invariant.freeAll laid (messages (t.recvQueues id))) _
  · simp only [nngShutdown, CountedQueue.contents_erase] at member
    exact (List.mem_replicate.mp member).2

/-- Where no socket is open nothing is asked of the queues. -/
theorem Fifo.of_closed (closed : ∀ d, t.view.socketValid d = false) : Fifo t := by
  rw [fifo_iff]
  intro d valid
  rw [closed d] at valid
  cases valid

theorem freeSocket?_closed {id : SocketId} (free : freeSocket? t.view = some id) :
    t.view.socketValid id = false := by
  have unused := Table.first?_holds free
  simp only [decide_eq_true_eq] at unused
  simp [Nng.socketValid, unused]

/-- Socket `id` was opened. -/
structure Opened (t t' : NngTables) (id : SocketId) : Prop where
  pool : t'.pool = t.pool
  queues : t'.recvQueues = t.recvQueues
  sockets : ∃ protocol, t'.socketPool = Function.update t.socketPool id ⟨some id, protocol, 0⟩
  enqueued : t'.enqueued = Function.update t.enqueued id []
  received : t'.received = Function.update t.received id []

theorem nngSocketCreate_opened {id : SocketId} (free : freeSocket? t.view = some id)
    (protocol : Int) : Opened t (t.nngSocketCreate protocol) id := by
  simp only [nngSocketCreate, Kernel.nngSocketCreate, free]
  exact ⟨rfl, rfl, ⟨protocol, rfl⟩, rfl, rfl⟩

theorem Opened.valid_iff {id : SocketId} (opened : Opened t t' id) (d : SocketId) :
    t'.view.socketValid d = true ↔ d = id ∨ t.view.socketValid d = true := by
  obtain ⟨protocol, sockets⟩ := opened.sockets
  rw [socketValid_iff, socketValid_iff]
  simp only [view, sockets]
  by_cases here : d = id
  · subst here
    simp
  · simp [here]

theorem Opened.kept {id : SocketId} (opened : Opened t t' id) (kept : Kept t) : Kept t' := by
  refine ⟨by rw [opened.pool]; exact kept.laid, fun d closed => ?_⟩
  have before : t.view.socketValid d = false := by
    by_contra isOpen
    rw [(opened.valid_iff d).mpr (.inr (by simpa using isOpen))] at closed
    cases closed
  rw [opened.queues]
  exact kept.idle d before

/-- A creation keeps the queues in order exactly if the queue it takes is empty. -/
theorem Opened.fifo_iff {id : SocketId} (opened : Opened t t' id) (kept : Kept t) (fifo : Fifo t)
    (closed : t.view.socketValid id = false) : Fifo t' ↔ (t.recvQueues id).count = 0 := by
  rw [NngTables.fifo_iff] at fifo ⊢
  constructor
  · intro ordered
    have proper := (ordered id ((opened.valid_iff id).mpr (.inl rfl))).proper
    rw [opened.queues] at proper
    rw [← CountedQueue.length_contents, List.length_eq_zero_iff]
    apply List.eq_nil_iff_forall_not_mem.mpr
    intro x member
    exact proper (kept.idle id closed x member ▸ member)
  · intro empty d isOpen
    have none : (t.recvQueues id).contents = [] :=
      List.length_eq_zero_iff.mp (by rw [CountedQueue.length_contents, empty])
    by_cases here : d = id
    · subst here
      exact ⟨by simp [opened.queues, none],
        by simp [opened.queues, opened.enqueued, opened.received, none]⟩
    · have order := fifo d (((opened.valid_iff d).mp isOpen).resolve_left here)
      exact ⟨by simpa [opened.queues] using order.proper,
        by simpa [opened.queues, opened.enqueued, opened.received, here] using order.history⟩

/-- Socket `id` was closed. -/
structure Closed (t t' : NngTables) (id : SocketId) : Prop where
  laid : t.pool.heap.LaidOut → t'.pool.heap.LaidOut
  queues : t'.recvQueues = Function.update t.recvQueues id .empty
  sockets : ∃ protocol flags,
    t'.socketPool = Function.update t.socketPool id ⟨none, protocol, flags⟩
  enqueued : t'.enqueued = t.enqueued
  received : t'.received = t.received

theorem nngSocketClose_closed {id : SocketId} {sock : NngSocket}
    (found : t.view.valid? sock.id = some id) : Closed t (t.nngSocketClose sock) id := by
  simp only [nngSocketClose, found]
  exact ⟨fun laid => laidOut_invariant.freeAll laid _, rfl, ⟨_, _, rfl⟩, rfl, rfl⟩

theorem Closed.valid_iff {id : SocketId} (closed : Closed t t' id) (d : SocketId) :
    t'.view.socketValid d = true ↔ d ≠ id ∧ t.view.socketValid d = true := by
  obtain ⟨protocol, flags, sockets⟩ := closed.sockets
  rw [socketValid_iff, socketValid_iff]
  simp only [view, sockets]
  by_cases here : d = id
  · subst here
    simp
  · simp [here]

theorem Closed.kept {id : SocketId} (closed : Closed t t' id) (kept : Kept t) : Kept t' := by
  refine ⟨closed.laid kept.laid, fun d shut => ?_⟩
  rw [closed.queues]
  by_cases here : d = id
  · subst here
    simp
  · have before : t.view.socketValid d = false := by
      by_contra isOpen
      rw [(closed.valid_iff d).mpr ⟨here, by simpa using isOpen⟩] at shut
      cases shut
    simpa [here] using kept.idle d before

theorem Closed.fifo {id : SocketId} (closed : Closed t t' id) (fifo : Fifo t) : Fifo t' := by
  rw [fifo_iff] at fifo ⊢
  intro d isOpen
  obtain ⟨other, before⟩ := (closed.valid_iff d).mp isOpen
  have order := fifo d before
  exact ⟨by simpa [closed.queues, other] using order.proper,
    by simpa [closed.queues, closed.enqueued, closed.received, other] using order.history⟩

end NngTables

/-! ## Runs -/

open NngTables

/-- A creation takes an id whose queue is empty. -/
def ReusesEmpty (t : NngTables) : TableCall → Prop
  | .call (.socketCreate _) =>
      ∀ id, freeSocket? t.view = some id → (t.recvQueues id).count = 0
  | _ => True

/-- One call: what always holds is kept, and the queues stay in order under the condition. -/
theorem tableStep_fifo {t : NngTables} (kept : Kept t) (call : TableCall) :
    Kept (tableStep t call) ∧ (Fifo t → (Fifo (tableStep t call) ↔ ReusesEmpty t call)) := by
  have adds : ∀ {t'}, Grows t t' → Kept t' ∧ (Fifo t → (Fifo t' ↔ True)) := fun grows =>
    ⟨grows.kept kept, fun fifo => by simp [grows.fifo fifo]⟩
  cases call with
  | init =>
      exact ⟨nngInit_kept kept, fun _ => by simp [ReusesEmpty, tableStep,
        Fifo.of_closed (nngInit_closed t)]⟩
  | shutdown =>
      exact ⟨nngShutdown_kept kept, fun _ => by simp [ReusesEmpty, tableStep,
        Fifo.of_closed (nngShutdown_closed t)]⟩
  | call op =>
      cases op with
      | msgAlloc size =>
          apply adds
          exact .of_same (nngMsgAlloc_laidOut kept.laid (Prod.eta _).symm) rfl rfl rfl rfl
      | msgAppend msg data =>
          have laid : (nngMsgAppend t.pool msg data).2.heap.LaidOut := by
            obtain ⟨rv, -, refused⟩ | ⟨mem, written⟩ := nngMsgAppend_cases t.pool msg data
            · rw [refused]
              exact kept.laid
            · rw [written]
              exact kept.laid
          exact adds (.of_same laid rfl rfl rfl rfl)
      | msgFree msg => exact adds (freeMsg_grows (.refl kept.laid) msg)
      | socketCreate protocol =>
          cases free : freeSocket? t.view with
          | none =>
              have same : tableStep t (.call (.socketCreate protocol)) = t := by
                simp only [tableStep, NngTables.nngSocketCreate, free]
              rw [same]
              exact ⟨kept, fun fifo => by simp [ReusesEmpty, free, fifo]⟩
          | some id =>
              have opened := nngSocketCreate_opened free protocol
              refine ⟨opened.kept kept, fun fifo => ?_⟩
              simpa [ReusesEmpty, tableStep, free] using
                opened.fifo_iff kept fifo (freeSocket?_closed free)
      | socketClose sock =>
          cases found : t.view.valid? sock.id with
          | none =>
              have same : tableStep t (.call (.socketClose sock)) = t := by
                simp only [tableStep, NngTables.nngSocketClose, found]
              rw [same]
              exact adds (.refl kept.laid)
          | some id =>
              have closed := nngSocketClose_closed found
              exact ⟨closed.kept kept, fun fifo => by simp [ReusesEmpty, tableStep,
                closed.fifo fifo]⟩
      | connect src dst =>
          obtain ⟨pipes, same⟩ := nngConnect_eq t.view src dst
          exact adds (put_grows (by rw [same]; exact kept.laid) (by rw [same]; rfl))
      | subSubscribe sock topic =>
          obtain ⟨state, same, -⟩ := nngSubSubscribe_eq t.view sock topic
          exact adds (put_grows (by rw [same]; exact kept.laid) (by rw [same]; rfl))
      | subUnsubscribe sock topic row =>
          obtain ⟨state, same, -⟩ := nngSubUnsubscribe_eq t.view sock topic row
          exact adds (put_grows (by rw [same]; exact kept.laid) (by rw [same]; rfl))
      | send now sock msg => exact adds (nngSend_grows kept.laid now sock msg)
      | recv now sock =>
          have received := nngRecv_receives t now sock
          exact ⟨received.kept kept, fun fifo => by simp [ReusesEmpty, tableStep,
            received.fifo fifo]⟩

/-- The tables when the machine is switched on: `memory_init` has run, all else is zero. -/
def powerOn (image : BootImage) : NngTables where
  pool := ⟨⟨image.mem, memoryInit, image.regions⟩, fun _ => ⟨0, 0, false⟩⟩
  recvQueues := fun _ => .empty
  sockState := fun _ => ⟨0, (socketAt 0).id, (socketAt 0).id, 0, false, []⟩
  socketPool := fun _ => socketAt 0
  pipes := fun _ => zeroPipe
  enqueued := fun _ => []
  received := fun _ => []

/-- The receive queues are queues throughout a run if and only if each creation in it takes an
id whose queue is empty. -/
theorem receive_queues_fifo_iff (image : BootImage) (calls : List TableCall) :
    (∀ before, before <+: calls → Fifo (Runs.after tableStep (powerOn image) before)) ↔
      Runs.Meets tableStep ReusesEmpty (powerOn image) calls := by
  apply Runs.throughout_iff_meets (I := fun t : NngTables => Kept t)
    (P := fun t : NngTables => Fifo t)
  · exact ⟨memoryInit_laidOut _ _, fun d _ x member => by simp [powerOn] at member⟩
  · rw [fifo_iff]
    exact fun d _ => ⟨by simp [powerOn], by simp [powerOn]⟩
  · exact fun t call kept => (tableStep_fifo kept call).1
  · exact fun t call kept => (tableStep_fifo kept call).2

/-- Two sockets, a message from one to the other, a shutdown and a new socket on the id that
had received it. -/
def restart : List TableCall :=
  [.init, .call (.socketCreate Protocol.pull0.code), .call (.socketCreate Protocol.push0.code),
    .call (.connect (socketAt 1) (socketAt 0)), .call (.msgAlloc 0),
    .call (.send 0 (socketAt 1) heapStart), .shutdown,
    .call (.socketCreate Protocol.pull0.code)]

theorem shutdown_leaves_null_messages :
    (Runs.after tableStep (powerOn sampleImage) restart).view.socketValid 0 = true ∧
      (Runs.after tableStep (powerOn sampleImage) restart).enqueued 0 = [] ∧
      ((Runs.after tableStep (powerOn sampleImage) restart).recvQueues 0).count = 1 ∧
      ((Runs.after tableStep (powerOn sampleImage) restart).nngRecv 0 (socketAt 0)).1 =
        .ok 0 := by
  decide +kernel

end LughOS.Kernel

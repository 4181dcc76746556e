import LughOS.Kernel.FanOut

/-!
# Requests and replies

A REP socket has one register for the address of its client, and `nng_send` on a REQ sets
it when the request is delivered, not when it is received. With several clients the
register names the last one whose request arrived, while the server may be working on an
earlier one.

To say which client a received request came from, the runs here carry two notes beside
the state of the sockets: the senders of the queued messages, in queue order, and the
senders of the messages a socket has received since its last send. Neither note influences
the sockets (`traced_after`). `reply_reaches_requester` holds as long as a server never
has requests of two clients at hand, and `reply_reaches_later_client` is the smallest run in
which it has.
-/

namespace LughOS.Kernel

open Bytes

/-! ## Who sent what -/

/-- The sockets with the sender of each queued message, and of each message received since
the last send. -/
structure Traced where
  nng : Nng
  senders : SocketId → List SocketId
  unanswered : SocketId → List SocketId

/-- The messages that a call adds to the queue of `d`. -/
def added (n n' : Nng) (d : SocketId) : Nat :=
  (n'.recvQueues d).length - (n.recvQueues d).length

def tracedStep (t : Traced) (op : NngOp) : Traced :=
  let n' := nngStep t.nng op
  match op with
  | .send _ sock _ =>
      match t.nng.valid? sock.id with
      | none => { t with nng := n' }
      | some id =>
          { nng := n'
            senders := fun d => t.senders d ++ List.replicate (added t.nng n' d) id
            unanswered := Function.update t.unanswered id [] }
  | .recv _ sock =>
      match t.nng.valid? sock.id with
      | none => { t with nng := n' }
      | some id =>
          match t.senders id with
          | [] => { t with nng := n' }
          | q :: rest =>
              { nng := n'
                senders := Function.update t.senders id rest
                unanswered := Function.update t.unanswered id (t.unanswered id ++ [q]) }
  | _ => { t with nng := n' }

def traceStart (n : Nng) : Traced := ⟨nngInit n, fun _ => [], fun _ => []⟩

theorem tracedStep_nng (t : Traced) (op : NngOp) : (tracedStep t op).nng = nngStep t.nng op := by
  cases op with
  | send now sock msg =>
      unfold tracedStep
      dsimp only
      split <;> rfl
  | recv now sock =>
      unfold tracedStep
      dsimp only
      split
      · rfl
      · split <;> rfl
  | _ => rfl

theorem traced_after (t : Traced) (ops : List NngOp) :
    (Runs.after tracedStep t ops).nng = Runs.after nngStep t.nng ops :=
  Runs.after_project tracedStep_nng t ops

/-- The REP socket to which the next request of `q` goes. -/
def requestTarget (n : Nng) (q : SocketId) : Option SocketId :=
  (collectPeers n q .rep0)[cursor n q (collectPeers n q .rep0)]?

/-- No socket is closed, and a client sends a request only to a server that has no request
of another client at hand, neither queued nor received since its last send. -/
def OneClient (t : Traced) : NngOp → Prop
  | .socketClose _ => False
  | .send _ sock _ => ∀ q, t.nng.valid? sock.id = some q →
      (t.nng.socketPool q).protocol = Protocol.req0.code →
      ∀ r, requestTarget t.nng q = some r → ∀ y ∈ t.senders r ++ t.unanswered r, y = q
  | _ => True

instance (t : Traced) (op : NngOp) : Decidable (OneClient t op) :=
  match op with
  | .socketClose _ => .isFalse id
  | .send _ sock _ =>
      inferInstanceAs (Decidable (∀ q, t.nng.valid? sock.id = some q →
        (t.nng.socketPool q).protocol = Protocol.req0.code →
        ∀ r, requestTarget t.nng q = some r → ∀ y ∈ t.senders r ++ t.unanswered r, y = q))
  | .msgAlloc _ | .msgAppend _ _ | .msgFree _ | .socketCreate _ | .connect _ _
  | .subSubscribe _ _ | .subUnsubscribe _ _ _ | .recv _ _ => .isTrue trivial

/-! ## The invariant -/

/-- The register of a server names the one client it has requests of. -/
structure Dialogue (t : Traced) : Prop where
  lengths : ∀ d, (t.senders d).length = (t.nng.recvQueues d).length
  reply : ∀ r y, (t.nng.sockState r).replySrc = some y →
    Audience t.nng .rep0 r ∧ Audience t.nng .req0 y
  answer : ∀ r y, (t.nng.sockState r).respondentSrc = some y → Audience t.nng .surveyor0 y
  agreed : ∀ r y, (t.nng.sockState r).replySrc = some y →
    ∀ q ∈ t.senders r ++ t.unanswered r, q = y

theorem traceStart_dialogue (n : Nng) : Dialogue (traceStart n) where
  lengths := fun _ => rfl
  reply := fun r y address => by simp [traceStart, nngInit] at address
  answer := fun r y address => by simp [traceStart, nngInit] at address
  agreed := fun r y address => by simp [traceStart, nngInit] at address

theorem Audience.congr {n n' : Nng} {theirs : Protocol} {d : SocketId}
    (same : n'.socketPool = n.socketPool) : Audience n' theirs d ↔ Audience n theirs d := by
  simp only [Audience, Nng.socketValid, same]

variable {t : Traced} {n n' : Nng} {id r : SocketId}

/-- A call that leaves sockets, queues and return addresses alone. -/
theorem Dialogue.same (dialogue : Dialogue t) (socketPool : n'.socketPool = t.nng.socketPool)
    (reply : ∀ d, (n'.sockState d).replySrc = (t.nng.sockState d).replySrc)
    (answer : ∀ d, (n'.sockState d).respondentSrc = (t.nng.sockState d).respondentSrc)
    (queues : n'.recvQueues = t.nng.recvQueues) : Dialogue { t with nng := n' } where
  lengths := fun d => by rw [queues]; exact dialogue.lengths d
  reply := fun r y address => by
    simpa only [Audience.congr socketPool] using dialogue.reply r y ((reply r).symm.trans address)
  answer := fun r y address => by
    simpa only [Audience.congr socketPool] using dialogue.answer r y ((answer r).symm.trans address)
  agreed := fun r y address => dialogue.agreed r y ((reply r).symm.trans address)

theorem Dialogue.socketCreate (dialogue : Dialogue t) (protocol : Int) :
    Dialogue { t with nng := (nngSocketCreate t.nng protocol).2 } := by
  unfold nngSocketCreate
  split
  · exact dialogue
  rename_i e free
  have fresh := freeSocket?_free free
  -- the new socket was closed, so it is neither a server nor a client so far
  have kept : ∀ {theirs d}, Audience t.nng theirs d → d ≠ e := by
    rintro theirs d ⟨valid, -⟩ rfl
    rw [socketValid_iff, fresh] at valid
    cases valid
  have still : ∀ {theirs d}, Audience t.nng theirs d → ∀ {st},
      Audience { t.nng with
        socketPool := Function.update t.nng.socketPool e ⟨some e, protocol, 0⟩
        sockState := st } theirs d := by
    intro theirs d audience st
    simpa only [Audience, Nng.socketValid, Function.update_of_ne (kept audience)] using audience
  have old : ∀ {r y} {f : SocketState → Option SocketId} {st : SocketState}, f st = none →
      f (Function.update t.nng.sockState e st r) = some y →
      f (t.nng.sockState r) = some y := by
    intro r y f st cleared address
    by_cases here : r = e
    · subst here
      rw [Function.update_self, cleared] at address
      cases address
    · rwa [Function.update_of_ne here] at address
  refine ⟨dialogue.lengths, fun r y address => ?_, fun r y address => ?_, fun r y address => ?_⟩
  · obtain ⟨server, client⟩ := dialogue.reply r y (old (f := SocketState.replySrc) rfl address)
    exact ⟨still server, still client⟩
  · exact still (dialogue.answer r y (old (f := SocketState.respondentSrc) rfl address))
  · exact dialogue.agreed r y (old (f := SocketState.replySrc) rfl address)

/-! ## Sending -/

theorem Protocol.code_inj {a b : Protocol} (same : a.code = b.code) : a = b := by
  cases a <;> cases b <;> simp_all [Protocol.code]

/-- Only a client adds to the queue of a server. -/
theorem Dialogue.server_queue (dialogue : Dialogue t)
    (server : (t.nng.socketPool r).protocol = Protocol.rep0.code)
    (notClient : (t.nng.socketPool id).protocol ≠ Protocol.req0.code) {x : Nat}
    (routes : Routes t.nng id x n') : n'.recvQueues r = t.nng.recvQueues r := by
  have clash : ∀ {a : Protocol}, (t.nng.socketPool r).protocol = a.code → a = .rep0 :=
    fun mine => Protocol.code_inj (mine.symm.trans server)
  by_contra grown
  cases (routes.queues r).2 grown with
  | pipe i used src dst speaks =>
      obtain ⟨mine, theirs, peer, protocol, listens⟩ := speaks
      obtain rfl := clash listens
      cases mine <;> simp [Protocol.peer] at peer
      exact notClient protocol
  | bus i used src dst mine theirs => exact absurd (clash theirs) (by decide)
  | reply mine address valid =>
      exact absurd (clash (dialogue.reply id r address).2.2) (by decide)
  | answer mine address valid =>
      exact absurd (clash (dialogue.answer id r address).2) (by decide)

/-- A request fails without a trace, or it is queued at the server, which notes the client. -/
theorem sendReq_cases (n : Nng) (id : SocketId) (x : Nat) :
    ((sendReq n id x).2.recvQueues = n.recvQueues ∧
        ∀ d, ((sendReq n id x).2.sockState d).replySrc = (n.sockState d).replySrc) ∨
      ∃ rep copy, requestTarget n id = some rep ∧ Audience n .rep0 rep ∧
        (sendReq n id x).2.recvQueues =
          Function.update n.recvQueues rep (n.recvQueues rep ++ [copy]) ∧
        ((sendReq n id x).2.sockState rep).replySrc = some id ∧
        ∀ d, d ≠ rep → ((sendReq n id x).2.sockState d).replySrc = (n.sockState d).replySrc := by
  unfold sendReq
  dsimp only
  split
  · exact .inl ⟨rfl, fun _ => rfl⟩
  rename_i rep chosen
  obtain ⟨-, -, valid, protocol⟩ := mem_collectPeers (List.mem_of_getElem? chosen)
  have outcome := deliverCopy_outcome n rep x
  have state := deliverCopy_sockState n rep x
  generalize deliverCopy n rep x = result at outcome state
  obtain ⟨rv, n₁⟩ := result
  dsimp only at outcome state
  obtain ⟨failed, same⟩ | ⟨rfl, copy, grown⟩ := outcome
  · split
    · rename_i ok
      exact absurd (Prod.mk.inj ok).1 failed
    · rename_i eq
      cases eq
      exact .inl ⟨same, fun d => by rw [state]⟩
  · refine .inr ⟨rep, copy, chosen, ⟨valid, protocol⟩, grown, ?_, fun d other => ?_⟩
    · by_cases self : rep = id
      · subst self
        simp [Nng.setState]
      · simp [Nng.setState, Function.update_of_ne self]
    · by_cases self : d = id
      · subst self
        simp [Nng.setState, Function.update_of_ne other, state]
      · simp [Nng.setState, Function.update_of_ne other, Function.update_of_ne self, state]

/-- A reply that succeeds is queued at the client in the register. -/
theorem sendRep_ok {x : Nat} (ok : (sendRep n id x).1 = .ok) :
    ∃ req copy, (n.sockState id).replySrc = some req ∧
      (sendRep n id x).2.recvQueues =
        Function.update n.recvQueues req (n.recvQueues req ++ [copy]) := by
  unfold sendRep at ok ⊢
  split at ok
  · cases ok
  · rename_i req found
    obtain ⟨address, -⟩ := Nng.valid?_eq_some.mp found
    dsimp only at ok
    obtain ⟨failed, -⟩ | ⟨-, copy, grown⟩ := deliverCopy_outcome n req x
    · exact absurd ok failed
    · exact ⟨req, copy, address, grown⟩

theorem route_of_req {now : BitVec 64} {x : Nat}
    (client : (n.socketPool id).protocol = Protocol.req0.code) :
    route n now id x = sendReq n id x := route_of_protocol client

theorem route_of_rep {now : BitVec 64} {x : Nat}
    (server : (n.socketPool id).protocol = Protocol.rep0.code) :
    route n now id x = sendRep n id x := route_of_protocol server

/-- The notes after a send on `id`. -/
def Traced.sent (t : Traced) (id : SocketId) (n' : Nng) : Traced where
  nng := n'
  senders := fun d => t.senders d ++ List.replicate (added t.nng n' d) id
  unanswered := Function.update t.unanswered id []

theorem Traced.sent_senders {d : SocketId} (same : n'.recvQueues d = t.nng.recvQueues d) :
    (t.sent id n').senders d = t.senders d := by
  simp [Traced.sent, added, same]

theorem Traced.mem_sent_unanswered {d q : SocketId}
    (member : q ∈ (t.sent id n').unanswered d) : q ∈ t.unanswered d := by
  by_cases here : d = id
  · subst here
    simp [Traced.sent] at member
  · simpa [Traced.sent, Function.update_of_ne here] using member

/-- The agreement about a server whose register and queue did not change. -/
theorem Dialogue.agreed_sent (dialogue : Dialogue t) {y : SocketId}
    (address : (t.nng.sockState r).replySrc = some y)
    (queue : n'.recvQueues r = t.nng.recvQueues r) :
    ∀ q ∈ (t.sent id n').senders r ++ (t.sent id n').unanswered r, q = y := by
  intro q member
  refine dialogue.agreed r y address q ?_
  rw [Traced.sent_senders queue, List.mem_append] at member
  exact List.mem_append.mpr (member.imp_right Traced.mem_sent_unanswered)

/-- A call of `nng_send` without a message. -/
theorem Dialogue.unsent (dialogue : Dialogue t) : Dialogue (t.sent id t.nng) where
  lengths := fun d => by
    rw [Traced.sent_senders rfl]
    exact dialogue.lengths d
  reply := dialogue.reply
  answer := dialogue.answer
  agreed := fun _ _ address => dialogue.agreed_sent address rfl

theorem Dialogue.route (dialogue : Dialogue t) (now : BitVec 64) (x : Nat)
    (valid : t.nng.socketValid id = true)
    (one : (t.nng.socketPool id).protocol = Protocol.req0.code →
      ∀ r, requestTarget t.nng id = some r → ∀ y ∈ t.senders r ++ t.unanswered r, y = id) :
    Dialogue (t.sent id (route t.nng now id x).2) := by
  have routes := route_routes t.nng now id x
  have request := sendReq_cases t.nng id x
  have asClient := @route_of_req t.nng id now x
  generalize Kernel.route t.nng now id x = result at routes asClient
  have audience : ∀ {theirs d}, Audience t.nng theirs d → Audience result.2 theirs d :=
    fun h => (Audience.congr routes.socketPool).mpr h
  have address : ∀ r y, (result.2.sockState r).replySrc = some y →
      (t.nng.sockState r).replySrc = some y ∨
        (y = id ∧ PipeAs t.nng .req0 .rep0 id r) := by
    intro r y address
    rcases (routes.readdressed r).reply with old | none | ⟨new, pipe⟩
    · exact .inl (old ▸ address)
    · rw [none] at address
      cases address
    · rw [new] at address
      exact .inr ⟨(Option.some.inj address).symm, pipe⟩
  have answer : ∀ r y, (result.2.sockState r).respondentSrc = some y →
      Audience result.2 .surveyor0 y := by
    intro r y address
    rcases (routes.readdressed r).answer with old | none | ⟨new, -, mine, -⟩
    · exact audience (dialogue.answer r y (old ▸ address))
    · rw [none] at address
      cases address
    · rw [new] at address
      cases address
      exact audience ⟨valid, mine⟩
  have lengths : ∀ d, ((t.sent id result.2).senders d).length =
      (result.2.recvQueues d).length := by
    intro d
    have longer := (routes.queues d).1.length_le
    simp only [Traced.sent, List.length_append, List.length_replicate, dialogue.lengths d, added]
    omega
  by_cases client : (t.nng.socketPool id).protocol = Protocol.req0.code
  · rw [asClient client] at audience answer lengths ⊢
    obtain ⟨queues, replies⟩ | ⟨rep, copy, target, server, queues, register, others⟩ := request
    · refine ⟨lengths, fun r y address => ?_, answer, fun r y address => ?_⟩
      · obtain ⟨server, client⟩ := dialogue.reply r y ((replies r).symm.trans address)
        exact ⟨audience server, audience client⟩
      · exact dialogue.agreed_sent ((replies r).symm.trans address) (congrFun queues r)
    · refine ⟨lengths, fun r y address => ?_, answer, fun r y address => ?_⟩ <;>
        by_cases it : r = rep
      · subst it
        obtain rfl : id = y := Option.some.inj (register.symm.trans address)
        exact ⟨audience server, audience ⟨valid, client⟩⟩
      · obtain ⟨server, client⟩ := dialogue.reply r y ((others r it).symm.trans address)
        exact ⟨audience server, audience client⟩
      · subst it
        obtain rfl : id = y := Option.some.inj (register.symm.trans address)
        intro q member
        rcases List.mem_append.mp member with queued | received
        · rcases List.mem_append.mp queued with old | new
          · exact one client r target q (List.mem_append_left _ old)
          · exact List.eq_of_mem_replicate new
        · exact one client r target q
            (List.mem_append_right _ (Traced.mem_sent_unanswered received))
      · refine dialogue.agreed_sent ((others r it).symm.trans address) ?_
        rw [queues, Function.update_of_ne it]
  · have old : ∀ r y, (result.2.sockState r).replySrc = some y →
        (t.nng.sockState r).replySrc = some y := by
      intro r y new
      rcases address r y new with old | ⟨-, -, mine, -⟩
      · exact old
      · exact absurd mine client
    refine ⟨lengths, fun r y new => ?_, answer, fun r y new => ?_⟩
    · obtain ⟨server, client⟩ := dialogue.reply r y (old r y new)
      exact ⟨audience server, audience client⟩
    · have server := (dialogue.reply r y (old r y new)).1.2
      exact dialogue.agreed_sent (old r y new) (dialogue.server_queue server client routes)

/-! ## Receiving -/

theorem Dialogue.recv (dialogue : Dialogue t) {now : BitVec 64} {q : SocketId}
    {rest : List SocketId} {x : Nat} {msgs : List Nat} (senders : t.senders id = q :: rest)
    (queue : t.nng.recvQueues id = x :: msgs) :
    Dialogue
      { nng := { expireSurvey t.nng now id with
          recvQueues := Function.update t.nng.recvQueues id msgs }
        senders := Function.update t.senders id rest
        unanswered := Function.update t.unanswered id (t.unanswered id ++ [q]) } := by
  have same := expireSurvey_sameWiring t.nng now id
  refine ⟨fun d => ?_, fun r y address => ?_, fun r y address => ?_, fun r y address => ?_⟩
  · by_cases here : d = id
    · subst here
      have := dialogue.lengths d
      rw [senders, queue] at this
      simpa using this
    · simpa [Function.update_of_ne here] using dialogue.lengths d
  · have before := dialogue.reply r y ((same.reply r).symm.trans address)
    simpa only [Audience.congr same.socketPool, Audience, Nng.socketValid, same.socketPool]
      using before
  · have before := dialogue.answer r y ((same.answer r).symm.trans address)
    simpa only [Audience, Nng.socketValid, same.socketPool] using before
  · have before := dialogue.agreed r y ((same.reply r).symm.trans address)
    intro p member
    refine before p ?_
    by_cases here : r = id
    · subst here
      simp only [Function.update_self] at member
      rw [senders]
      simp only [List.mem_append, List.mem_cons, List.not_mem_nil, or_false] at member ⊢
      tauto
    · simpa only [Function.update_of_ne here] using member

/-! ## Runs -/

theorem Dialogue.step (dialogue : Dialogue t) {op : NngOp} (one : OneClient t op) :
    Dialogue (tracedStep t op) := by
  have reply : ∀ d, (t.nng.sockState d).replySrc = (t.nng.sockState d).replySrc := fun _ => rfl
  have answer : ∀ d, (t.nng.sockState d).respondentSrc = (t.nng.sockState d).respondentSrc :=
    fun _ => rfl
  cases op with
  | msgAlloc size => exact dialogue.same rfl reply answer rfl
  | msgAppend msg data => exact dialogue.same rfl reply answer rfl
  | msgFree msg => exact dialogue.same rfl reply answer rfl
  | socketCreate protocol => exact dialogue.socketCreate protocol
  | socketClose sock => exact absurd one id
  | connect src dst =>
      obtain ⟨pipes, eq⟩ := nngConnect_eq t.nng src dst
      simp only [tracedStep, nngStep, eq]
      exact dialogue.same rfl reply answer rfl
  | subSubscribe sock topic =>
      obtain ⟨state, eq, kept⟩ := nngSubSubscribe_eq t.nng sock topic
      simp only [tracedStep, nngStep, eq]
      exact dialogue.same rfl (fun d => (kept d).1) (fun d => (kept d).2) rfl
  | subUnsubscribe sock topic row =>
      obtain ⟨state, eq, kept⟩ := nngSubUnsubscribe_eq t.nng sock topic row
      simp only [tracedStep, nngStep, eq]
      exact dialogue.same rfl (fun d => (kept d).1) (fun d => (kept d).2) rfl
  | send now sock msg =>
      unfold tracedStep nngStep nngSend
      dsimp only
      cases found : t.nng.valid? sock.id with
      | none => simpa only [ite_self] using dialogue
      | some id =>
          dsimp only
          by_cases null : msg = 0
          · rw [if_pos null]
            exact dialogue.unsent
          · rw [if_neg null]
            have sent := dialogue.route now msg (Nng.valid?_eq_some.mp found).2 (one id found)
            exact sent.same rfl (fun _ => rfl) (fun _ => rfl) rfl
  | recv now sock =>
      unfold tracedStep nngStep nngRecv
      dsimp only
      cases found : t.nng.valid? sock.id with
      | none => exact dialogue
      | some id =>
          dsimp only
          rw [expireSurvey_recvQueues]
          have length := dialogue.lengths id
          cases queue : t.nng.recvQueues id with
          | nil =>
              rw [queue] at length
              rw [List.length_eq_zero_iff.mp length]
              have same := expireSurvey_sameWiring t.nng now id
              exact dialogue.same same.socketPool same.reply same.answer
                (expireSurvey_recvQueues t.nng now id)
          | cons x msgs =>
              rw [queue] at length
              cases senders : t.senders id with
              | nil =>
                  rw [senders] at length
                  cases length
              | cons q rest => exact dialogue.recv senders queue

/-- A reply that succeeds is enqueued at the client of every request received since the last
send, and nowhere else, in every run in which servers have one client at a time. -/
theorem reply_reaches_requester (start : Nng) (ops : List NngOp)
    (run : Runs.Meets tracedStep OneClient (traceStart start) ops) (now : BitVec 64)
    (sock : NngSocket) (reply : Nat) (r q : SocketId) :
    let t := Runs.after tracedStep (traceStart start) ops
    t.nng.valid? sock.id = some r → (t.nng.socketPool r).protocol = Protocol.rep0.code →
      q ∈ t.unanswered r → (nngSend t.nng now sock reply).1 = .ok →
      ∃ copy, (nngSend t.nng now sock reply).2.recvQueues =
        Function.update t.nng.recvQueues q (t.nng.recvQueues q ++ [copy]) := by
  intro t valid server received ok
  have dialogue : Dialogue t :=
    Runs.run_invariant (traceStart_dialogue start) (fun _ _ dialogue one => dialogue.step one) run
  unfold nngSend at ok ⊢
  split at ok
  · cases ok
  rename_i nonnull
  rw [valid] at ok
  dsimp only at ok
  rw [route_of_rep server] at ok
  obtain ⟨req, copy, address, grown⟩ := sendRep_ok ok
  obtain rfl := dialogue.agreed r req address q (List.mem_append_right _ received)
  refine ⟨copy, ?_⟩
  rw [if_neg nonnull, valid]
  dsimp only
  rw [route_of_rep server]
  exact grown

/-- A server, two clients, and a request of the first client. -/
def firstRequest : List NngOp :=
  [.socketCreate Protocol.rep0.code, .socketCreate Protocol.req0.code,
    .socketCreate Protocol.req0.code, .connect (socketAt 1) (socketAt 0),
    .connect (socketAt 2) (socketAt 0), .msgAlloc 0, .send 0 (socketAt 1) 0x800000]

def firstReceived : List NngOp := firstRequest ++ [.recv 0 (socketAt 0), .msgAlloc 0]

theorem reply_reaches_requester_first :
    let t := Runs.after tracedStep (traceStart (boot sampleImage).nng) firstReceived
    t.unanswered 0 = [1] ∧ (nngSend t.nng 0 (socketAt 0) 0x800000).1 = .ok ∧
      ∃ copy, (nngSend t.nng 0 (socketAt 0) 0x800000).2.recvQueues =
        Function.update t.nng.recvQueues 1 (t.nng.recvQueues 1 ++ [copy]) := by
  have reply := reply_reaches_requester (boot sampleImage).nng firstReceived (by decide +kernel) 0
    (socketAt 0) 0x800000 0 1 (by decide +kernel) (by decide +kernel) (by decide +kernel)
    (by decide +kernel)
  exact ⟨by decide +kernel, by decide +kernel, reply⟩

/-- A second client sends its request before the server has received the first one. The
server receives the request of client 1, and its reply is enqueued at client 2. -/
theorem reply_reaches_later_client :
    let t := Runs.after tracedStep (traceStart (boot sampleImage).nng)
      (firstRequest ++ [.msgAlloc 0, .send 0 (socketAt 2) 0x800000, .recv 0 (socketAt 0),
        .msgAlloc 0])
    let sent := nngSend t.nng 0 (socketAt 0) 0x800000
    t.unanswered 0 = [1] ∧ sent.1 = .ok ∧ t.nng.recvQueues 1 = [] ∧ sent.2.recvQueues 1 = [] ∧
      t.nng.recvQueues 2 = [] ∧ (sent.2.recvQueues 2).length = 1 := by
  decide +kernel

end LughOS.Kernel

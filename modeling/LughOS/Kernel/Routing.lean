import LughOS.Kernel.Confinement

/-!
# What a send can reach

`Target n id d` lists the ways in which a send on socket `id` can deliver to socket
`d`: along a pipe from `id`, against a pipe between two BUS sockets, or to a recorded
return address. `Routes` describes a whole send as deliveries to such targets mixed
with updates of return addresses, and `route_routes` shows that every protocol of
`nng_send` has this shape. Facts about sends are then inductions over `Routes` and do
not look at the protocols again.

The second half restates the calls of `ipc.c` in these terms, one inversion lemma per
call.
-/

namespace LughOS.Kernel

open Bytes

variable {n n' : Nng} {id d : SocketId} {msg : Nat}

theorem Nng.valid?_eq_some {n : Nng} {x : Option SocketId} {d : SocketId} :
    n.valid? x = some d ↔ x = some d ∧ n.socketValid d = true := by
  simp [Nng.valid?, Option.filter_eq_some_iff]

/-! ## Deliveries -/

/-- The wiring of two states is the same: sockets, pipes and return addresses. -/
structure SameWiring (n n' : Nng) : Prop where
  socketPool : n'.socketPool = n.socketPool
  pipes : n'.pipes = n.pipes
  reply : ∀ d, (n'.sockState d).replySrc = (n.sockState d).replySrc
  answer : ∀ d, (n'.sockState d).respondentSrc = (n.sockState d).respondentSrc

theorem SameWiring.of_pool (n : Nng) (p : Pool) : SameWiring n { n with pool := p } :=
  ⟨rfl, rfl, fun _ => rfl, fun _ => rfl⟩

/-- The four ways a delivery ends. -/
inductive Delivery (n : Nng) (d : SocketId) (src : Nat) : Rv × Nng → Prop where
  | noMessage {rv p} (alloc : nngMsgAlloc n.pool 0 = (.error rv, p)) :
      Delivery n d src (rv, { n with pool := p })
  | notCopied {copy p rv p'} (alloc : nngMsgAlloc n.pool 0 = (.ok copy, p))
      (copied : copyBody p copy src = (rv, p')) (failed : rv ≠ .ok) :
      Delivery n d src (rv, Nng.freeMsg { n with pool := p' } copy)
  | queueFull {copy p p'} (alloc : nngMsgAlloc n.pool 0 = (.ok copy, p))
      (copied : copyBody p copy src = (.ok, p'))
      (full : maxQueuedMsgs ≤ (n.recvQueues d).length) :
      Delivery n d src (.enomem, Nng.freeMsg { n with pool := p' } copy)
  | enqueued {copy p p'} (alloc : nngMsgAlloc n.pool 0 = (.ok copy, p))
      (copied : copyBody p copy src = (.ok, p'))
      (room : (n.recvQueues d).length < maxQueuedMsgs) :
      Delivery n d src (.ok,
        { n with
          pool := p'
          recvQueues := Function.update n.recvQueues d (n.recvQueues d ++ [copy]) })

theorem deliverCopy_delivery (n : Nng) (d : SocketId) (src : Nat) :
    Delivery n d src (deliverCopy n d src) := by
  unfold deliverCopy
  split
  · exact .noMessage ‹_›
  · rename_i copy p alloc
    split
    · rename_i p' copied
      unfold enqueueIncoming
      by_cases full : maxQueuedMsgs ≤ (n.recvQueues d).length
      · simpa only [if_pos full] using .queueFull alloc copied full
      · simpa only [if_neg full] using .enqueued alloc copied (by omega)
    · rename_i rv p' failed copied
      exact .notCopied alloc copied fun ok => failed ok

theorem nngMsgAlloc_error {p p' : Pool} {size : Nat} {rv : Rv}
    (failed : nngMsgAlloc p size = (.error rv, p')) : rv ≠ .ok := by
  unfold nngMsgAlloc at failed
  split at failed
  · cases failed; decide
  · split at failed
    · cases failed; decide
    · split at failed
      · cases failed; decide
      · split at failed
        · cases failed; decide
        · cases failed

theorem deliverCopy_sameWiring (n : Nng) (d : SocketId) (src : Nat) :
    SameWiring n (deliverCopy n d src).2 := by
  have delivery := deliverCopy_delivery n d src
  generalize deliverCopy n d src = result at delivery
  cases delivery <;> exact ⟨rfl, rfl, fun _ => rfl, fun _ => rfl⟩

/-- A delivery that succeeds appends one message to the queue it is for; one that fails
leaves the queues alone. -/
theorem deliverCopy_outcome (n : Nng) (d : SocketId) (src : Nat) :
    ((deliverCopy n d src).1 ≠ .ok ∧ (deliverCopy n d src).2.recvQueues = n.recvQueues) ∨
      ((deliverCopy n d src).1 = .ok ∧ ∃ copy, (deliverCopy n d src).2.recvQueues =
        Function.update n.recvQueues d (n.recvQueues d ++ [copy])) := by
  have delivery := deliverCopy_delivery n d src
  generalize deliverCopy n d src = result at delivery
  cases delivery with
  | noMessage alloc => exact .inl ⟨nngMsgAlloc_error alloc, rfl⟩
  | notCopied _ _ failed => exact .inl ⟨failed, rfl⟩
  | queueFull _ _ _ => exact .inl ⟨by simp, rfl⟩
  | enqueued _ _ _ => exact .inr ⟨rfl, _, rfl⟩

theorem deliverCopy_sockState (n : Nng) (d : SocketId) (src : Nat) :
    (deliverCopy n d src).2.sockState = n.sockState := by
  have delivery := deliverCopy_delivery n d src
  generalize deliverCopy n d src = result at delivery
  cases delivery <;> rfl

/-! ## Connections and subscriptions -/

/-- A connection only touches the pipes. -/
theorem nngConnect_eq (n : Nng) (src dst : NngSocket) :
    ∃ pipes, (nngConnect n src dst).2 = { n with pipes := pipes } := by
  unfold nngConnect
  split
  · split
    · exact ⟨n.pipes, rfl⟩
    · exact ⟨_, rfl⟩
  · exact ⟨n.pipes, rfl⟩

/-- Only the topics of one socket may differ. -/
def Retopiced (n n' : Nng) : Prop :=
  ∃ state, n' = { n with sockState := state } ∧
    ∀ d, (state d).replySrc = (n.sockState d).replySrc ∧
      (state d).respondentSrc = (n.sockState d).respondentSrc

theorem Retopiced.refl (n : Nng) : Retopiced n n := ⟨n.sockState, rfl, fun _ => ⟨rfl, rfl⟩⟩

theorem setState_retopiced (n : Nng) (id : SocketId) (topics : SocketState → List (List Byte)) :
    Retopiced n (n.setState id fun st => { st with topics := topics st }) := by
  refine ⟨_, rfl, fun d => ?_⟩
  by_cases here : d = id
  · subst here
    simp
  · simp [Function.update_of_ne here]

theorem nngSubSubscribe_eq (n : Nng) (sock : NngSocket) (topic : List Byte) :
    Retopiced n (nngSubSubscribe n sock topic).2 := by
  unfold nngSubSubscribe
  split
  · exact .refl n
  split
  · exact .refl n
  split
  · exact .refl n
  split
  · exact .refl n
  · exact setState_retopiced n _ fun st => st.topics ++ [topic]

theorem nngSubUnsubscribe_eq (n : Nng) (sock : NngSocket) (topic : List Byte) (row : Option Nat) :
    Retopiced n (nngSubUnsubscribe n sock topic row).2 := by
  unfold nngSubUnsubscribe
  split
  · exact .refl n
  split
  · exact .refl n
  split
  · exact .refl n
  · exact setState_retopiced n _ fun st => (st.topics.set _ (st.topics.getLastD [])).dropLast

/-! ## The shape of a send -/

/-- The protocol that listens to this one along a pipe. -/
def Protocol.peer : Protocol → Option Protocol
  | .pair1 => some .pair1
  | .pub0 => some .sub0
  | .req0 => some .rep0
  | .push0 => some .pull0
  | .bus0 => some .bus0
  | .surveyor0 => some .respondent0
  | .sub0 | .rep0 | .pull0 | .respondent0 => none

/-- Socket `d` listens to the protocol of socket `id`. -/
def Speaks (n : Nng) (id d : SocketId) : Prop :=
  ∃ mine theirs : Protocol, mine.peer = some theirs ∧
    (n.socketPool id).protocol = mine.code ∧ (n.socketPool d).protocol = theirs.code

/-- How a send on `id` can reach `d`. -/
inductive Target (n : Nng) (id d : SocketId) : Prop where
  | pipe (i : PipeIndex) (used : (n.pipes i).inUse = true) (src : (n.pipes i).src = id)
      (dst : (n.pipes i).dst = d) (speaks : Speaks n id d)
  | bus (i : PipeIndex) (used : (n.pipes i).inUse = true) (src : (n.pipes i).src = d)
      (dst : (n.pipes i).dst = id) (mine : (n.socketPool id).protocol = Protocol.bus0.code)
      (theirs : (n.socketPool d).protocol = Protocol.bus0.code)
  | reply (mine : (n.socketPool id).protocol = Protocol.rep0.code)
      (address : (n.sockState id).replySrc = some d) (valid : n.socketValid d = true)
  | answer (mine : (n.socketPool id).protocol = Protocol.respondent0.code)
      (address : (n.sockState id).respondentSrc = some d) (valid : n.socketValid d = true)

/-- A pipe in use from one socket to another. -/
def PipeTo (n : Nng) (src dst : SocketId) : Prop :=
  ∃ i, (n.pipes i).inUse = true ∧ (n.pipes i).src = src ∧ (n.pipes i).dst = dst

/-- A pipe in use along which `id` speaks the protocol `mine`. -/
def PipeAs (n : Nng) (mine theirs : Protocol) (id d : SocketId) : Prop :=
  PipeTo n id d ∧ (n.socketPool id).protocol = mine.code ∧
    (n.socketPool d).protocol = theirs.code

/-- The return addresses a send on `id` leaves at `d`: the old ones, none, or its own
where it has a pipe to `d`. -/
structure Readdressed (n : Nng) (id d : SocketId) (old new : SocketState) : Prop where
  reply : new.replySrc = old.replySrc ∨ new.replySrc = none ∨
    (new.replySrc = some id ∧ PipeAs n .req0 .rep0 id d)
  answer : new.respondentSrc = old.respondentSrc ∨ new.respondentSrc = none ∨
    (new.respondentSrc = some id ∧ PipeAs n .surveyor0 .respondent0 id d)

/-- The states a send on `id` of the message `src` goes through from `n`. -/
inductive Routes (n : Nng) (id : SocketId) (src : Nat) : Nng → Prop where
  | start : Routes n id src n
  | deliver {n' : Nng} {d : SocketId} (before : Routes n id src n') (target : Target n id d) :
      Routes n id src (deliverCopy n' d src).2
  | readdress {n' : Nng} {d : SocketId} {f : SocketState → SocketState}
      (before : Routes n id src n')
      (same : Readdressed n id d (n'.sockState d) (f (n'.sockState d))) :
      Routes n id src (n'.setState d f)

/-- What membership in `collect_peers` says. -/
theorem mem_collectPeers {proto : Protocol} (member : d ∈ collectPeers n id proto) :
    ∃ i, peerAcross id proto (n.pipes i) = some d ∧ n.socketValid d = true ∧
      (n.socketPool d).protocol = proto.code := by
  have listed := List.mem_of_mem_take member
  simp only [List.mem_filterMap, List.mem_finRange, true_and, Option.filter_eq_some_iff,
    Bool.and_eq_true, decide_eq_true_eq] at listed
  obtain ⟨i, across, valid, protocol⟩ := listed
  exact ⟨i, across, valid, protocol⟩

/-- With peers at all, the round-robin cursor points to one of them. -/
theorem cursor_lt {peers : List SocketId} (some : peers ≠ []) :
    cursor n id peers < peers.length := by
  have := List.length_pos_iff.mpr some
  unfold cursor
  dsimp only
  split <;> omega

theorem pipeTo_of_mem {proto : Protocol} (oneWay : proto ≠ .bus0)
    (member : d ∈ collectPeers n id proto) : PipeTo n id d := by
  obtain ⟨i, across, -, -⟩ := mem_collectPeers member
  simp only [peerAcross, oneWay, false_and, if_false] at across
  split at across
  · cases across
  · rename_i used
    split at across
    · rename_i src
      exact ⟨i, by simpa using used, src, by simpa using across⟩
    · cases across

theorem pipeAs_of_mem {mine theirs : Protocol} (oneWay : theirs ≠ .bus0)
    (protocol : (n.socketPool id).protocol = mine.code)
    (member : d ∈ collectPeers n id theirs) : PipeAs n mine theirs id d := by
  obtain ⟨-, -, -, listens⟩ := mem_collectPeers member
  exact ⟨pipeTo_of_mem oneWay member, protocol, listens⟩

theorem PipeAs.target {mine theirs : Protocol} (h : PipeAs n mine theirs id d)
    (speaks : mine.peer = some theirs) : Target n id d := by
  obtain ⟨⟨i, used, src, dst⟩, protocol, listens⟩ := h
  exact .pipe i used src dst ⟨mine, theirs, speaks, protocol, listens⟩

/-- A target does not depend on the message pool. -/
theorem Target.of_pool {p : Pool} (target : Target { n with pool := p } id d) :
    Target n id d := by
  cases target with
  | pipe i used src dst speaks => exact .pipe i used src dst speaks
  | bus i used src dst mine theirs => exact .bus i used src dst mine theirs
  | reply mine address valid => exact .reply mine address valid
  | answer mine address valid => exact .answer mine address valid

theorem target_of_bus (mine : (n.socketPool id).protocol = Protocol.bus0.code)
    (member : d ∈ collectPeers n id .bus0) : Target n id d := by
  obtain ⟨i, across, -, theirs⟩ := mem_collectPeers member
  simp only [peerAcross, true_and] at across
  split at across
  · cases across
  · rename_i used
    split at across
    · rename_i src
      exact .pipe i (by simpa using used) src (by simpa using across)
        ⟨.bus0, .bus0, rfl, mine, theirs⟩
    · split at across
      · rename_i dst
        exact .bus i (by simpa using used) (by simpa using across) dst mine theirs
      · cases across

/-- A change that keeps the return addresses or clears them needs no target. -/
theorem Readdressed.of_kept {old new : SocketState}
    (reply : new.replySrc = old.replySrc ∨ new.replySrc = none)
    (answer : new.respondentSrc = old.respondentSrc ∨ new.respondentSrc = none) :
    Readdressed n id d old new :=
  ⟨reply.imp_right .inl, answer.imp_right .inl⟩

/-- A broadcast routes if each round of its loop does. -/
theorem Routes.fold {round : Nng → SocketId → Nng} {peers : List SocketId}
    (rounds : ∀ n' peer, peer ∈ peers → Routes n id msg n' → Routes n id msg (round n' peer))
    {n' : Nng} (before : Routes n id msg n') : Routes n id msg (peers.foldl round n') := by
  induction peers generalizing n' with
  | nil => exact before
  | cons peer peers ih =>
      refine ih (fun n' p member => rounds n' p (List.mem_cons_of_mem _ member)) ?_
      exact rounds n' peer List.mem_cons_self before

theorem sendPub_routes (mine : (n.socketPool id).protocol = Protocol.pub0.code) :
    Routes n id msg (sendPub n id msg).2 := by
  refine Routes.fold (fun n' peer member before => ?_) .start
  split
  · exact .deliver before ((pipeAs_of_mem (by decide) mine member).target rfl)
  · exact before

theorem sendPush_routes (mine : (n.socketPool id).protocol = Protocol.push0.code) :
    Routes n id msg (sendPush n id msg).2 := by
  unfold sendPush
  dsimp only
  split
  · exact .start
  · rename_i peer chosen
    dsimp only
    apply Routes.readdress
    · have pipe := pipeAs_of_mem (by decide) mine (List.mem_of_getElem? chosen)
      exact .deliver .start (pipe.target rfl)
    · exact .of_kept (.inl rfl) (.inl rfl)

theorem sendReq_routes (mine : (n.socketPool id).protocol = Protocol.req0.code) :
    Routes n id msg (sendReq n id msg).2 := by
  unfold sendReq
  dsimp only
  split
  · exact .start
  · rename_i rep chosen
    have pipe := pipeAs_of_mem (by decide) mine (List.mem_of_getElem? chosen)
    have delivered : Routes n id msg (deliverCopy n rep msg).2 :=
      .deliver .start (pipe.target rfl)
    split <;> rename_i outcome <;> rw [outcome] at delivered
    · dsimp only
      apply Routes.readdress
      · exact .readdress delivered ⟨.inr (.inr ⟨rfl, pipe⟩), .inl rfl⟩
      · exact .of_kept (.inl rfl) (.inl rfl)
    · exact delivered

theorem sendRep_routes (mine : (n.socketPool id).protocol = Protocol.rep0.code) :
    Routes n id msg (sendRep n id msg).2 := by
  unfold sendRep
  split
  · exact .start
  · rename_i req found
    obtain ⟨address, valid⟩ := Nng.valid?_eq_some.mp found
    dsimp only
    apply Routes.readdress
    · exact .deliver .start (.reply mine address valid)
    · exact .of_kept (.inr rfl) (.inl rfl)

theorem sendBus_routes (mine : (n.socketPool id).protocol = Protocol.bus0.code) :
    Routes n id msg (sendBus n id msg).2 :=
  Routes.fold (fun _ _ member before => .deliver before (target_of_bus mine member)) .start

theorem survey_routes (pipe : PipeAs n .surveyor0 .respondent0 id d)
    (before : Routes n id msg n') : Routes n id msg (survey id msg n' d) := by
  have delivered : Routes n id msg (deliverCopy n' d msg).2 := .deliver before (pipe.target rfl)
  unfold survey
  split <;> rename_i outcome <;> rw [outcome] at delivered
  · exact .readdress delivered ⟨.inl rfl, .inr (.inr ⟨rfl, pipe⟩)⟩
  · exact delivered

theorem sendSurveyor_routes (now : BitVec 64)
    (mine : (n.socketPool id).protocol = Protocol.surveyor0.code) :
    Routes n id msg (sendSurveyor n now id msg).2 := by
  unfold sendSurveyor
  split
  · exact .start
  · rename_i peers _
    dsimp only
    apply Routes.readdress
    · refine Routes.fold (fun n' peer member before => ?_) .start
      exact survey_routes (pipeAs_of_mem (by decide) mine member) before
    · exact .of_kept (.inl rfl) (.inl rfl)

theorem sendRespondent_routes (now : BitVec 64)
    (mine : (n.socketPool id).protocol = Protocol.respondent0.code) :
    Routes n id msg (sendRespondent n now id msg).2 := by
  unfold sendRespondent
  split
  · exact .start
  · rename_i surveyor found
    obtain ⟨address, valid⟩ := Nng.valid?_eq_some.mp found
    split
    · dsimp only
      apply Routes.readdress .start
      exact .of_kept (.inl rfl) (.inr rfl)
    · dsimp only
      apply Routes.readdress
      · exact .deliver .start (.answer mine address valid)
      · exact .of_kept (.inl rfl) (.inr rfl)

theorem sendPair_routes (mine : (n.socketPool id).protocol = Protocol.pair1.code) :
    Routes n id msg (sendPair n id msg).2 := by
  unfold sendPair
  split
  · exact .start
  · rename_i peer first
    have pipe := pipeAs_of_mem (by decide) mine (List.mem_of_head? first)
    exact .deliver .start (pipe.target rfl)

/-- The case of the switch for one protocol. -/
def sendAs (n : Nng) (now : BitVec 64) (id : SocketId) (msg : Nat) : Protocol → Rv × Nng
  | .pub0 => sendPub n id msg
  | .push0 => sendPush n id msg
  | .req0 => sendReq n id msg
  | .rep0 => sendRep n id msg
  | .bus0 => sendBus n id msg
  | .surveyor0 => sendSurveyor n now id msg
  | .respondent0 => sendRespondent n now id msg
  | .pair1 => sendPair n id msg
  | .sub0 | .pull0 => (.enotsup, n)

theorem route_of_protocol {now : BitVec 64} {proto : Protocol}
    (mine : (n.socketPool id).protocol = proto.code) :
    route n now id msg = sendAs n now id msg proto := by
  cases proto <;> simp [route, mine, Protocol.code, sendAs]

/-- A socket has one of the protocols, or the switch takes its default case. -/
theorem route_cases (n : Nng) (now : BitVec 64) (id : SocketId) (msg : Nat) :
    (∃ proto : Protocol, (n.socketPool id).protocol = proto.code) ∨
      route n now id msg = (.enotsup, n) := by
  by_cases known : ∃ proto : Protocol, (n.socketPool id).protocol = proto.code
  · exact .inl known
  · rw [not_exists] at known
    exact .inr (by simp only [route, known, if_false])

theorem route_routes (n : Nng) (now : BitVec 64) (id : SocketId) (msg : Nat) :
    Routes n id msg (route n now id msg).2 := by
  rcases route_cases n now id msg with ⟨proto, mine⟩ | none
  case inr =>
    rw [none]
    exact .start
  rw [route_of_protocol mine]
  cases proto with
  | pub0 => exact sendPub_routes mine
  | push0 => exact sendPush_routes mine
  | req0 => exact sendReq_routes mine
  | rep0 => exact sendRep_routes mine
  | bus0 => exact sendBus_routes mine
  | surveyor0 => exact sendSurveyor_routes now mine
  | respondent0 => exact sendRespondent_routes now mine
  | pair1 => exact sendPair_routes mine
  | sub0 => exact .start
  | pull0 => exact .start

/-! ## Consequences of the shape -/

theorem Routes.pipes (h : Routes n id msg n') : n'.pipes = n.pipes := by
  induction h with
  | start => rfl
  | deliver _ _ ih => exact (deliverCopy_sameWiring _ _ _).pipes.trans ih
  | readdress _ _ ih => exact ih

theorem Routes.socketPool (h : Routes n id msg n') : n'.socketPool = n.socketPool := by
  induction h with
  | start => rfl
  | deliver _ _ ih => exact (deliverCopy_sameWiring _ _ _).socketPool.trans ih
  | readdress _ _ ih => exact ih

/-- Only the queues of targets grow, and no queue loses a message. -/
theorem Routes.queues (h : Routes n id msg n') (e : SocketId) :
    n.recvQueues e <+: n'.recvQueues e ∧
      (n'.recvQueues e ≠ n.recvQueues e → Target n id e) := by
  induction h with
  | start => exact ⟨List.prefix_refl _, fun h => absurd rfl h⟩
  | @deliver n' d before target ih =>
      obtain ⟨-, same⟩ | ⟨-, copy, grown⟩ := deliverCopy_outcome n' d msg
      · rwa [same]
      · rw [grown]
        by_cases here : e = d
        · subst here
          rw [Function.update_self]
          exact ⟨ih.1.trans (List.prefix_append _ _), fun _ => target⟩
        · rwa [Function.update_of_ne here]
  | readdress _ _ ih => exact ih

/-- Return addresses after a send are old ones or belong to its own pipes. -/
theorem Routes.readdressed (h : Routes n id msg n') (e : SocketId) :
    Readdressed n id e (n.sockState e) (n'.sockState e) := by
  induction h with
  | start => exact .of_kept (.inl rfl) (.inl rfl)
  | @deliver n' d before target ih =>
      have same := deliverCopy_sameWiring n' d msg
      exact ⟨by rw [same.reply]; exact ih.reply, by rw [same.answer]; exact ih.answer⟩
  | @readdress n' d f before same ih =>
      by_cases here : e = d
      · subst here
        simp only [Nng.setState, Function.update_self]
        refine ⟨?_, ?_⟩
        · rcases same.reply with kept | cleared
          · rw [kept]; exact ih.reply
          · exact .inr cleared
        · rcases same.answer with kept | cleared
          · rw [kept]; exact ih.answer
          · exact .inr cleared
      · simpa only [Nng.setState, Function.update_of_ne here] using ih

/-! ## The calls on channels -/

theorem openChannel?_eq_some {s : System} {id : Int} {c : ChannelId} :
    openChannel? s id = some c ↔ channel? id = some c ∧ (s.channels c).inUse = true := by
  simp [openChannel?, Option.filter_eq_some_iff]

theorem channel?_val (c : ChannelId) : channel? c.val = some c := by
  have := c.isLt
  simp [channel?]

theorem channel?_eq_some {id : Int} {c : ChannelId} (h : channel? id = some c) : id = c.val := by
  unfold channel? at h
  split at h
  · cases h
    simp only
    omega
  · cases h

/-- What `ipc_connect` does: nothing to the wiring, or one new pipe between the sockets of
two open channels that passed the domain check. -/
theorem ipcConnect_cases (s : System) (srcId dstId : Int) :
    ((ipcConnect s srcId dstId).1 ≠ 0 ∧ (ipcConnect s srcId dstId).2.nng = s.nng) ∨
      ∃ src dst sId dId i, openChannel? s srcId = some src ∧ openChannel? s dstId = some dst ∧
        FlowAllowed s.domains (s.channels src).capMask (s.channels src).domain
          (s.channels dst).domain ∧
        s.nng.valid? (s.channels src).socket.id = some sId ∧
        s.nng.valid? (s.channels dst).socket.id = some dId ∧ (s.nng.pipes i).inUse = false ∧
        (ipcConnect s srcId dstId).1 = 0 ∧
        (ipcConnect s srcId dstId).2.nng =
          { s.nng with pipes := Function.update s.nng.pipes i ⟨sId, dId, true⟩ } := by
  unfold ipcConnect
  split
  · rename_i src dst openSrc openDst
    split
    · exact .inl ⟨by simp [Rv.code], by simp [System.emitDeny]⟩
    · rename_i flow
      unfold nngConnect
      cases validSrc : s.nng.valid? (s.channels src).socket.id with
      | none => exact .inl ⟨by simp [Rv.code], rfl⟩
      | some sId =>
          cases validDst : s.nng.valid? (s.channels dst).socket.id with
          | none => exact .inl ⟨by simp [Rv.code], rfl⟩
          | some dId =>
              cases free : Table.first? fun i => !(s.nng.pipes i).inUse with
              | none => exact .inl ⟨by simp [Rv.code], rfl⟩
              | some i =>
                  have unused := Table.first?_holds free
                  exact .inr ⟨src, dst, sId, dId, i, openSrc, openDst, by simpa using flow,
                    validSrc, validDst, by simpa using unused, by simp, by simp⟩
  · exact .inl ⟨by simp, rfl⟩

/-- A send that passed the checks of `ipc_send`. -/
structure Admitted (s : System) (id : Int) (msg : Option Message) (c : ChannelId)
    (m : Message) : Prop where
  message : msg = some m
  channel : openChannel? s id = some c
  granted : Grants (s.channels c).capMask (requiredCapsForOp m.operation)

/-- The ring after the mirror of an admitted message. -/
def auditedRing (s : System) (c : ChannelId) (m : Message) : List Message :=
  (auditMessage s c (sealMessage m)).2.auditor.ring

/-- How an `ipc_send` ends, as the sockets and the ring show it. -/
inductive Sent (s : System) (id : Int) (msg : Option Message) : Nng → List Message → Prop where
  | refused : Sent s id msg s.nng s.auditor.ring
  | unconverted {c m rv p} (ok : Admitted s id msg c m)
      (converted : lughMessageToNng s.nng.pool (sealMessage m) = (.error rv, p)) :
      Sent s id msg { s.nng with pool := p } s.auditor.ring
  | unsent {c m src p} (ok : Admitted s id msg c m)
      (converted : lughMessageToNng s.nng.pool (sealMessage m) = (.ok src, p))
      (closed : src = 0 ∨ s.nng.valid? (s.channels c).socket.id = none) :
      Sent s id msg { s.nng with pool := p } (auditedRing s c m)
  | routed {c m src p d n'} (ok : Admitted s id msg c m)
      (converted : lughMessageToNng s.nng.pool (sealMessage m) = (.ok src, p))
      (socket : (s.channels c).socket.id = some d) (valid : s.nng.socketValid d = true)
      (routes : Routes { s.nng with pool := p } d src n') :
      Sent s id msg (n'.freeMsg src) (auditedRing s c m)

theorem auditMessage_nng (s : System) (c : ChannelId) (m : Message) :
    (auditMessage s c m).2.nng = s.nng := by
  unfold auditMessage; split <;> rfl

theorem auditMessage_channels (s : System) (c : ChannelId) (m : Message) :
    (auditMessage s c m).2.channels = s.channels := by
  unfold auditMessage; split <;> rfl

theorem auditMessage_jiffies (s : System) (c : ChannelId) (m : Message) :
    (auditMessage s c m).2.jiffies = s.jiffies := by
  unfold auditMessage; split <;> rfl

theorem auditMessage_ring (s : System) (n : Nng) (c : ChannelId) (m : Message) :
    (auditMessage { s with nng := n } c m).2.auditor.ring =
      (auditMessage s c m).2.auditor.ring := by
  unfold auditMessage
  dsimp only
  split <;> rfl

/-- `transmit` with its intermediate values named. -/
theorem transmit_ok {s : System} {c : ChannelId} {m : Message} {src : Nat} {p : Pool}
    (converted : lughMessageToNng s.nng.pool (sealMessage m) = (.ok src, p)) :
    (transmit s c m).1 =
        (if (nngSend { s.nng with pool := p } s.jiffies (s.channels c).socket src).1 = .ok then 0
          else -4) ∧
      (transmit s c m).2.2.nng =
        (nngSend { s.nng with pool := p } s.jiffies (s.channels c).socket src).2 ∧
      (transmit s c m).2.2.auditor.ring = auditedRing s c m := by
  unfold transmit
  simp only [converted, auditMessage_nng, auditMessage_channels, auditMessage_jiffies]
  split
  · rename_i sent
    simp [sent, auditMessage_ring, auditedRing]
  · rename_i rv nng failed sent
    have : rv ≠ .ok := fun ok => failed ok
    simp [sent, auditMessage_ring, auditedRing, this]

theorem ipcSend_sent (s : System) (id : Int) (msg : Option Message) :
    Sent s id msg (ipcSend s id msg).2.2.nng (ipcSend s id msg).2.2.auditor.ring := by
  unfold ipcSend
  split
  · exact .refused
  · rename_i m
    split
    · exact .refused
    · rename_i c channel
      dsimp only
      split
      · simpa [System.emitDeny] using Sent.refused
      · rename_i granted
        have ok : Admitted s id (some m) c m := ⟨rfl, channel, by simpa using granted⟩
        rcases converted : lughMessageToNng s.nng.pool (sealMessage m) with ⟨rv | src, p⟩
        · simpa [transmit, converted] using Sent.unconverted ok converted
        · obtain ⟨-, nng, ring⟩ := transmit_ok (c := c) converted
          rw [nng, ring]
          unfold nngSend
          by_cases null : src = 0
          · rw [if_pos null]
            exact .unsent ok converted (.inl null)
          · rw [if_neg null]
            split
            · rename_i invalid
              exact .unsent ok converted (.inr invalid)
            · rename_i d found
              obtain ⟨socket, valid⟩ := Nng.valid?_eq_some.mp found
              exact .routed ok converted socket valid (route_routes _ s.jiffies d src)

/-- How an `ipc_recv` ends, as the sockets show it. -/
inductive Received (s : System) (id : Int) : Nng → Prop where
  | refused : Received s id s.nng
  | empty (d : SocketId) : Received s id (expireSurvey s.nng s.jiffies d)
  | taken {c d src rest} (channel : openChannel? s id = some c)
      (socket : (s.channels c).socket.id = some d)
      (queue : s.nng.recvQueues d = src :: rest) :
      Received s id
        (Nng.freeMsg
          { expireSurvey s.nng s.jiffies d with
            recvQueues := Function.update s.nng.recvQueues d rest } src)

theorem expireSurvey_recvQueues (n : Nng) (now : BitVec 64) (d : SocketId) :
    (expireSurvey n now d).recvQueues = n.recvQueues := by
  unfold expireSurvey; split <;> rfl

theorem expireSurvey_pool (n : Nng) (now : BitVec 64) (d : SocketId) :
    (expireSurvey n now d).pool = n.pool := by
  unfold expireSurvey; split <;> rfl

theorem expireSurvey_sameWiring (n : Nng) (now : BitVec 64) (d : SocketId) :
    SameWiring n (expireSurvey n now d) := by
  unfold expireSurvey
  split
  · refine ⟨rfl, rfl, fun e => ?_, fun e => ?_⟩ <;> by_cases here : e = d
    all_goals simp [Nng.setState, Function.update_of_ne, here]
  · exact SameWiring.of_pool n n.pool

theorem unpack_nng (s : System) (src : Nat) (out : Message) :
    (unpack s src out).2.2.nng = s.nng.freeMsg src := by
  unfold unpack
  split
  · dsimp only
    split <;> rfl
  · rfl

theorem ipcRecv_received (s : System) (id : Int) (out : Option Message) (nonblock : Bool) :
    Received s id (ipcRecv s id out nonblock).2.2.nng := by
  unfold ipcRecv
  split
  · exact .refused
  · split
    · exact .refused
    · rename_i c channel
      split
      · simpa [System.emitDeny] using Received.refused
      · unfold nngRecv
        cases found : s.nng.valid? (s.channels c).socket.id with
        | none => exact .refused
        | some d =>
            dsimp only
            rw [expireSurvey_recvQueues]
            cases queue : s.nng.recvQueues d with
            | nil => exact .empty d
            | cons src rest =>
                dsimp only
                rw [unpack_nng]
                exact .taken channel (Nng.valid?_eq_some.mp found).1 queue

end LughOS.Kernel

import LughOS.Kernel.Messages

/-!
# Sockets, pipes and routing

The socket half of `nngcompat.c`. A socket is an index into `socket_pool`; the entry
carries its own index while the socket is open and `-1` (here `none`) otherwise, and
the index is handed out again after a close. Pipes and the two return addresses
`reply_src` and `respondent_src` name sockets by that index.

`nng_send` routes by the sender's protocol. `route` is its switch, one definition per
case; every case delivers by `deliverCopy`, which copies the sender's body into a
fresh pool message and appends it to the receiver's queue.
-/

namespace LughOS.Kernel

open Bytes

abbrev SocketId := Fin 16
abbrev PipeIndex := Fin 64

inductive Protocol where
  | pair1 | pub0 | sub0 | req0 | rep0 | push0 | pull0 | bus0 | surveyor0 | respondent0
  deriving DecidableEq, Repr

/-- The `NNG_PROTO_*` values. -/
def Protocol.code : Protocol → Int
  | .pair1 => 1
  | .pub0 => 2
  | .sub0 => 3
  | .req0 => 4
  | .rep0 => 5
  | .push0 => 6
  | .pull0 => 7
  | .bus0 => 8
  | .surveyor0 => 9
  | .respondent0 => 10

/-- `nng_socket_t`; `none` stands for the id `-1`. -/
structure NngSocket where
  id : Option SocketId
  protocol : Int
  flags : Int
  deriving DecidableEq

/-- `socket_state_t`. The topic arrays are the list of the `num_topics` prefixes. -/
structure SocketState where
  rrIdx : Int
  replySrc : Option SocketId
  respondentSrc : Option SocketId
  surveyDeadline : BitVec 64
  surveyActive : Bool
  topics : List (List Byte)
  deriving DecidableEq

/-- `pipe_t`. -/
structure Pipe where
  src : SocketId
  dst : SocketId
  inUse : Bool
  deriving DecidableEq

/-- The tables of `nngcompat.c`. A receive queue is the list of its messages, oldest
first. -/
structure Nng where
  pool : Pool
  recvQueues : SocketId → List Nat
  sockState : SocketId → SocketState
  socketPool : SocketId → NngSocket
  pipes : PipeIndex → Pipe

namespace Nng

def socketValid (n : Nng) (id : SocketId) : Bool := decide ((n.socketPool id).id = some id)

/-- `socket_valid` on an id that may be `-1`. -/
def valid? (n : Nng) (id : Option SocketId) : Option SocketId := id.filter n.socketValid

def setState (n : Nng) (id : SocketId) (f : SocketState → SocketState) : Nng :=
  { n with sockState := Function.update n.sockState id (f (n.sockState id)) }

def freeMsg (n : Nng) (msg : Nat) : Nng := { n with pool := (nngMsgFree n.pool msg).2 }

end Nng

def maxQueuedMsgs : Nat := 16
def surveyorTimeoutTicks : BitVec 64 := 100#64

def enqueueIncoming (n : Nng) (id : SocketId) (msg : Nat) : Rv × Nng :=
  if maxQueuedMsgs ≤ (n.recvQueues id).length then (.enomem, n)
  else (.ok, { n with recvQueues := Function.update n.recvQueues id (n.recvQueues id ++ [msg]) })

/-- The append of `deliver_copy`, skipped for an empty body. -/
def copyBody (p : Pool) (copy srcMsg : Nat) : Rv × Pool :=
  if 0 < p.bodyLen srcMsg then nngMsgAppend p copy (.range (p.body srcMsg) (p.bodyLen srcMsg))
  else (.ok, p)

def deliverCopy (n : Nng) (id : SocketId) (srcMsg : Nat) : Rv × Nng :=
  match nngMsgAlloc n.pool 0 with
  | (.error rv, p) => (rv, { n with pool := p })
  | (.ok copy, p) =>
      match copyBody p copy srcMsg with
      | (.ok, p) =>
          match enqueueIncoming { n with pool := p } id copy with
          | (.ok, n) => (.ok, n)
          | (rv, n) => (rv, n.freeMsg copy)
      | (rv, p) => (rv, Nng.freeMsg { n with pool := p } copy)

/-- `sub_accepts`: the empty topic matches everything, no topic matches nothing. -/
def subAccepts (n : Nng) (id : SocketId) (msg : Nat) : Bool :=
  (n.sockState id).topics.any fun topic =>
    decide (topic = []) ||
      (decide (topic.length ≤ n.pool.bodyLen msg) &&
        decide (n.pool.heap.mem.read (n.pool.body msg) topic.length = topic))

/-- The far end of a pipe at `id`; only a BUS looks at both ends. -/
def peerAcross (id : SocketId) (proto : Protocol) (pipe : Pipe) : Option SocketId :=
  if pipe.inUse = false then none
  else if pipe.src = id then some pipe.dst
  else if proto = .bus0 ∧ pipe.dst = id then some pipe.src
  else none

def maxSockets : Nat := 16

def collectPeers (n : Nng) (id : SocketId) (proto : Protocol) : List SocketId :=
  ((List.finRange 64).filterMap fun i =>
    (peerAcross id proto (n.pipes i)).filter fun peer =>
      n.socketValid peer && decide ((n.socketPool peer).protocol = proto.code)).take maxSockets

/-! ## Lifecycle -/

/-- `nng_init`. The survey deadline of each socket and the ends of the pipes are not
touched. -/
def nngInit (n : Nng) : Nng where
  pool := { n.pool with msgSlots := fun _ => ⟨0, 0, false⟩ }
  recvQueues := fun _ => []
  sockState := fun id =>
    { n.sockState id with
      rrIdx := 0
      replySrc := none
      respondentSrc := none
      surveyActive := false
      topics := [] }
  socketPool := fun id => { n.socketPool id with id := none }
  pipes := fun i => { n.pipes i with inUse := false }

/-- The socket that the next creation takes. -/
def freeSocket? (n : Nng) : Option SocketId :=
  Table.first? fun i => decide ((n.socketPool i).id = none)

def nngSocketCreate (n : Nng) (protocol : Int) : Except Rv NngSocket × Nng :=
  match freeSocket? n with
  | none => (.error .enomem, n)
  | some id =>
      let sock : NngSocket := ⟨some id, protocol, 0⟩
      (.ok sock,
        { n with
          socketPool := Function.update n.socketPool id sock
          sockState := Function.update n.sockState id
            { n.sockState id with
              rrIdx := 0
              replySrc := none
              respondentSrc := none
              surveyActive := false
              topics := [] } })

/-- The body of `nng_socket_close`: the queued messages are freed, the pipes at the socket
are released and the pool entry is free again. Return addresses that other sockets keep
are not touched. -/
def closeSocket (n : Nng) (id : SocketId) : Nng :=
  let n := (n.recvQueues id).foldl Nng.freeMsg n
  { n with
    recvQueues := Function.update n.recvQueues id []
    pipes := fun i =>
      if (n.pipes i).inUse = true ∧ ((n.pipes i).src = id ∨ (n.pipes i).dst = id) then
        { n.pipes i with inUse := false }
      else n.pipes i
    socketPool := Function.update n.socketPool id { n.socketPool id with id := none } }

/-- `nng_socket_close`, with the caller's socket after the call. -/
def nngSocketClose (n : Nng) (sock : NngSocket) : Rv × NngSocket × Nng :=
  match n.valid? sock.id with
  | none => (.einval, sock, n)
  | some id => (.ok, { sock with id := none }, closeSocket n id)

def nngConnect (n : Nng) (src dst : NngSocket) : Rv × Nng :=
  match n.valid? src.id, n.valid? dst.id with
  | some s, some d =>
      match Table.first? fun i => !(n.pipes i).inUse with
      | none => (.enomem, n)
      | some i => (.ok, { n with pipes := Function.update n.pipes i ⟨s, d, true⟩ })
  | _, _ => (.einval, n)

/-! ## Subscriptions -/

def maxSubs : Nat := 8
def maxTopicLen : Nat := 32

/-- `nng_sub_subscribe`; the topic is the `topic_len` bytes behind the caller's pointer. -/
def nngSubSubscribe (n : Nng) (sock : NngSocket) (topic : List Byte) : Rv × Nng :=
  match n.valid? sock.id with
  | none => (.einval, n)
  | some id =>
      if (n.socketPool id).protocol ≠ Protocol.sub0.code then (.einval, n)
      else if maxTopicLen < topic.length then (.einval, n)
      else if maxSubs ≤ (n.sockState id).topics.length then (.enomem, n)
      else (.ok, n.setState id fun st => { st with topics := st.topics ++ [topic] })

/-- The row that `nng_sub_unsubscribe` takes out. Below 256 the given length agrees with the length
of the same topic only. Of a longer one just the low byte is compared, and the bytes compared are
also those behind the row, which are not in the state; `row` is the one that agrees, if any. -/
def removedRow (topics : List (List Byte)) (topic : List Byte) (row : Option Nat) : Option Nat :=
  if topic.length < 256 then topics.findIdx? fun held => decide (held = topic)
  else row.filter fun i => decide (topics[i]?.map List.length = some (topic.length % 256))

/-- `nng_sub_unsubscribe`: the last topic moves to the place of the removed one. -/
def nngSubUnsubscribe (n : Nng) (sock : NngSocket) (topic : List Byte) (row : Option Nat) :
    Rv × Nng :=
  match n.valid? sock.id with
  | none => (.einval, n)
  | some id =>
      if (n.socketPool id).protocol ≠ Protocol.sub0.code then (.einval, n)
      else
        match removedRow (n.sockState id).topics topic row with
        | none => (.enoent, n)
        | some i => (.ok, n.setState id fun st =>
            { st with topics := (st.topics.set i (st.topics.getLastD [])).dropLast })

/-! ## Sending -/

/-- The round-robin cursor, reset when it does not point to one of the peers there are now. -/
def cursor (n : Nng) (id : SocketId) (peers : List SocketId) : Nat :=
  let idx := (n.sockState id).rrIdx
  if idx < 0 ∨ peers.length ≤ idx then 0 else idx.toNat

def advance (idx count : Nat) : Nat := if count ≤ idx + 1 then 0 else idx + 1

def sendPub (n : Nng) (id : SocketId) (msg : Nat) : Rv × Nng :=
  (.ok, (collectPeers n id .sub0).foldl
    (fun n peer => if subAccepts n peer msg then (deliverCopy n peer msg).2 else n) n)

def sendPush (n : Nng) (id : SocketId) (msg : Nat) : Rv × Nng :=
  let peers := collectPeers n id .pull0
  let idx := cursor n id peers
  match peers[idx]? with
  | none => (.enotsup, n)
  | some peer =>
      let (rv, n) := deliverCopy n peer msg
      (rv, n.setState id fun st => { st with rrIdx := advance idx peers.length })

def sendReq (n : Nng) (id : SocketId) (msg : Nat) : Rv × Nng :=
  let peers := collectPeers n id .rep0
  let idx := cursor n id peers
  match peers[idx]? with
  | none => (.enotsup, n)
  | some rep =>
      match deliverCopy n rep msg with
      | (.ok, n) =>
          (.ok, (n.setState rep fun st => { st with replySrc := some id }).setState id fun st =>
            { st with rrIdx := advance idx peers.length })
      | (rv, n) => (rv, n)

def sendRep (n : Nng) (id : SocketId) (msg : Nat) : Rv × Nng :=
  match n.valid? (n.sockState id).replySrc with
  | none => (.enotsup, n)
  | some req =>
      let (rv, n) := deliverCopy n req msg
      (rv, n.setState id fun st => { st with replySrc := none })

def sendBus (n : Nng) (id : SocketId) (msg : Nat) : Rv × Nng :=
  (.ok, (collectPeers n id .bus0).foldl (fun n peer => (deliverCopy n peer msg).2) n)

/-- One round of the loop that broadcasts a survey. -/
def survey (id : SocketId) (msg : Nat) (n : Nng) (peer : SocketId) : Nng :=
  match deliverCopy n peer msg with
  | (.ok, n) => n.setState peer fun st => { st with respondentSrc := some id }
  | (_, n) => n

def sendSurveyor (n : Nng) (now : BitVec 64) (id : SocketId) (msg : Nat) : Rv × Nng :=
  match collectPeers n id .respondent0 with
  | [] => (.enotsup, n)
  | peers =>
      (.ok, (peers.foldl (survey id msg) n).setState id fun st =>
        { st with surveyActive := true, surveyDeadline := now + surveyorTimeoutTicks })

def sendRespondent (n : Nng) (now : BitVec 64) (id : SocketId) (msg : Nat) : Rv × Nng :=
  match n.valid? (n.sockState id).respondentSrc with
  | none => (.enotsup, n)
  | some surveyor =>
      if (n.sockState surveyor).surveyActive = false ∨
          now > (n.sockState surveyor).surveyDeadline then
        (.etimedout, n.setState id fun st => { st with respondentSrc := none })
      else
        let (rv, n) := deliverCopy n surveyor msg
        (rv, n.setState id fun st => { st with respondentSrc := none })

def sendPair (n : Nng) (id : SocketId) (msg : Nat) : Rv × Nng :=
  match (collectPeers n id .pair1).head? with
  | none => (.enotsup, n)
  | some peer => deliverCopy n peer msg

/-- The switch of `nng_send`. -/
def route (n : Nng) (now : BitVec 64) (id : SocketId) (msg : Nat) : Rv × Nng :=
  let proto := (n.socketPool id).protocol
  if proto = Protocol.pub0.code then sendPub n id msg
  else if proto = Protocol.push0.code then sendPush n id msg
  else if proto = Protocol.req0.code then sendReq n id msg
  else if proto = Protocol.rep0.code then sendRep n id msg
  else if proto = Protocol.bus0.code then sendBus n id msg
  else if proto = Protocol.surveyor0.code then sendSurveyor n now id msg
  else if proto = Protocol.respondent0.code then sendRespondent n now id msg
  else if proto = Protocol.pair1.code then sendPair n id msg
  else (.enotsup, n)

/-- `nng_send`. The message is consumed except when the socket is not open. -/
def nngSend (n : Nng) (now : BitVec 64) (sock : NngSocket) (msg : Nat) : Rv × Nng :=
  if msg = 0 then (.einval, n)
  else
    match n.valid? sock.id with
    | none => (.einval, n)
    | some id =>
        let (rv, n) := route n now id msg
        (rv, n.freeMsg msg)

/-! ## Receiving -/

/-- The survey window of a SURVEYOR closes when it looks for answers too late. -/
def expireSurvey (n : Nng) (now : BitVec 64) (id : SocketId) : Nng :=
  if (n.socketPool id).protocol = Protocol.surveyor0.code ∧
      (n.sockState id).surveyActive = true ∧ now > (n.sockState id).surveyDeadline then
    n.setState id fun st => { st with surveyActive := false }
  else n

def nngRecv (n : Nng) (now : BitVec 64) (sock : NngSocket) : Except Rv Nat × Nng :=
  match n.valid? sock.id with
  | none => (.error .einval, n)
  | some id =>
      let n := expireSurvey n now id
      match n.recvQueues id with
      | [] => (.error .etimedout, n)
      | msg :: rest => (.ok msg, { n with recvQueues := Function.update n.recvQueues id rest })

end LughOS.Kernel

import LughOS.Kernel.Mediation

/-!
# From sender to receiver

What does a receiver get of a message pushed to it? The encoding of the transport has a
priority, an operation and a payload, and no checksum: `nng_message_to_lugh` leaves the
checksum of the caller's buffer as it is, and `ipc_recv` then compares it with the
payload it has just unpacked. So no send makes every receive succeed, and
`push_pull_delivery` says what a receive does instead: with a short payload it always
unpacks the message, and it returns success exactly if the buffer happened to contain
the right checksum before the call.
-/

namespace LughOS.Kernel

open Bytes

/-! ## Unpacking -/

/-- The checksum of the caller's buffer is read and never written. -/
theorem nngMessageToLugh_checksum (p : Pool) (msg : Nat) (out : Message) :
    (nngMessageToLugh p msg out).2.checksum = out.checksum := by
  unfold nngMessageToLugh
  dsimp only
  split <;> rfl

theorem unpack_message (s : System) (msg : Nat) (out : Message) :
    (unpack s msg out).2.1 = some (nngMessageToLugh s.nng.pool msg out).2 := by
  unfold unpack
  split
  · rename_i h
    dsimp only
    split <;> rw [h]
  · rename_i h
    rw [h]

theorem ipcRecv_checksum (s : System) (id : Int) (out : Message) (nonblock : Bool) {m : Message}
    (result : (ipcRecv s id (some out) nonblock).2.1 = some m) : m.checksum = out.checksum := by
  unfold ipcRecv at result
  dsimp only at result
  split at result
  · cases result; rfl
  split at result
  · cases result; rfl
  split at result
  · cases result; rfl
  rw [unpack_message] at result
  cases result
  exact nngMessageToLugh_checksum _ _ out

/-! ## The receive after a send -/

/-- Every receive on `b` returns the message, whatever the caller's buffer contains. -/
def Delivers (s : System) (b : ChannelId) (m : Message) : Prop :=
  ∀ out nonblock, (ipcRecv s b.val (some out) nonblock).1 = 0 ∧
    ∃ m', (ipcRecv s b.val (some out) nonblock).2.1 = some m' ∧ m'.priority = m.priority ∧
      m'.operation = m.operation ∧ cString m'.payload = cString m.payload ∧
      m'.checksum = calculateChecksum (cString m.payload)

/-- An open PUSH channel and its only PULL peer, ready for the message. -/
structure Ready (s : System) (a b : ChannelId) (m : Message) : Prop where
  openA : (s.channels a).inUse = true
  openB : (s.channels b).inUse = true
  push : (s.channels a).socket.protocol = Protocol.push0.code
  pull : (s.channels b).socket.protocol = Protocol.pull0.code
  peer : ∀ e d, (s.channels a).socket.id = some e → d ∈ collectPeers s.nng e .pull0 →
    (s.channels b).socket.id = some d
  mayReceive : (s.channels b).capMask &&& capIpcRecv ≠ 0#32
  empty : ∀ d, (s.channels b).socket.id = some d → s.nng.recvQueues d = []
  priority : m.priority.toNat ≤ 2
  terminated : (cString m.payload).length < 128

theorem not_delivers (s : System) (b : ChannelId) (m : Message) : ¬Delivers s b m := by
  intro delivers
  have stale : ∀ checksum : BitVec 32, checksum = calculateChecksum (cString m.payload) := by
    intro checksum
    obtain ⟨-, m', result, -, -, -, sum⟩ := delivers ⟨0, 0, checksum, 0, fun _ => 0⟩ false
    rw [← sum]
    exact (ipcRecv_checksum s b.val _ false result).symm
  have : (0#32) = 1#32 := (stale 0).trans (stale 1).symm
  exact absurd this (by decide)

/-- A PUSH that succeeds has enqueued one message at one of its peers. -/
theorem sendPush_ok {n : Nng} {id : SocketId} {msg : Nat} (ok : (sendPush n id msg).1 = .ok) :
    ∃ d ∈ collectPeers n id .pull0, ∃ copy, (sendPush n id msg).2.recvQueues =
      Function.update n.recvQueues d (n.recvQueues d ++ [copy]) := by
  unfold sendPush at ok ⊢
  dsimp only at ok ⊢
  split at ok
  · cases ok
  · rename_i d chosen
    refine ⟨d, List.mem_of_getElem? chosen, ?_⟩
    have delivery := deliverCopy_delivery n d msg
    dsimp only at ok ⊢
    generalize deliverCopy n d msg = result at delivery ok
    cases delivery with
    | noMessage alloc => exact absurd ok (nngMsgAlloc_error alloc)
    | notCopied _ _ failed => exact absurd ok failed
    | queueFull _ _ => cases ok
    | enqueued _ _ _ => exact ⟨_, rfl⟩

/-- A send on a PUSH channel that returns success has passed the check, converted the message
and left a copy in the queue of its only peer. -/
theorem ipcSend_push {s : System} {a b : ChannelId} {m : Message} (wired : Wired s)
    (ready : Ready s a b m) (sent : (ipcSend s a.val (some m)).1 = 0) {d : SocketId}
    (socketB : (s.channels b).socket.id = some d) :
    ∃ x, (ipcSend s a.val (some m)).2.2.nng.recvQueues d = [x] := by
  have openA : openChannel? s a.val = some a :=
    openChannel?_eq_some.mpr ⟨channel?_val a, ready.openA⟩
  obtain ⟨e, socketA, isOpen, protocol⟩ := wired.socket a ready.openA
  unfold ipcSend at sent ⊢
  simp only [openA] at sent ⊢
  split at sent
  · cases sent
  rename_i granted
  rw [if_neg granted]
  rcases converted : lughMessageToNng s.nng.pool (sealMessage m) with ⟨rv | src, p⟩
  · simp [transmit, converted] at sent
  obtain ⟨result, nng, -⟩ := transmit_ok (c := a) converted
  rw [nng]
  rw [result] at sent
  have found : Nng.valid? { s.nng with pool := p } (s.channels a).socket.id = some e :=
    Nng.valid?_eq_some.mpr ⟨socketA, socketValid_iff.mpr isOpen⟩
  have push : (s.nng.socketPool e).protocol = Protocol.push0.code := protocol.trans ready.push
  have routed : route { s.nng with pool := p } s.jiffies e src =
      sendPush { s.nng with pool := p } e src :=
    route_of_protocol (n := { s.nng with pool := p }) push
  unfold nngSend at sent ⊢
  by_cases null : src = 0
  · simp [null] at sent
  simp only [if_neg null, found, routed] at sent ⊢
  obtain ⟨d', member, copy, grown⟩ := sendPush_ok (by
    by_contra failed
    rw [if_neg failed] at sent
    cases sent)
  have peer : (s.channels b).socket.id = some d' := ready.peer e d' socketA member
  obtain rfl : d = d' := by simpa [socketB] using peer
  refine ⟨copy, ?_⟩
  rw [show (Nng.freeMsg (sendPush { s.nng with pool := p } e src).2 src).recvQueues = _ from grown,
    Function.update_self, show (s.nng.recvQueues d) = [] from ready.empty d socketB]
  rfl

theorem unpack_result {s : System} {msg : Nat} {out m : Message}
    (unpacked : nngMessageToLugh s.nng.pool msg out = (.ok, m)) :
    (unpack s msg out).1 = 0 ↔ calculateChecksum (cString m.payload) = m.checksum := by
  unfold unpack
  rw [unpacked]
  dsimp only
  split
  · rename_i differs
    simp [differs]
  · rename_i same
    simpa using same

/-- A receive on an open channel whose queue holds one message. -/
theorem ipcRecv_one {s : System} {b : ChannelId} {d : SocketId} {x : Nat} (wired : Wired s)
    (isOpen : (s.channels b).inUse = true) (socket : (s.channels b).socket.id = some d)
    (mayReceive : (s.channels b).capMask &&& capIpcRecv ≠ 0#32) (queue : s.nng.recvQueues d = [x])
    (out : Message) (nonblock : Bool) :
    ∃ n', n'.pool = s.nng.pool ∧
      ipcRecv s b.val (some out) nonblock = unpack { s with nng := n' } x out := by
  have found : s.nng.valid? (s.channels b).socket.id = some d := by
    obtain ⟨d', socket', valid, -⟩ := wired.socket b isOpen
    obtain rfl : d = d' := by simpa [socket] using socket'
    exact Nng.valid?_eq_some.mpr ⟨socket, socketValid_iff.mpr valid⟩
  unfold ipcRecv
  simp only [openChannel?_eq_some.mpr ⟨channel?_val b, isOpen⟩, if_neg mayReceive, nngRecv, found,
    expireSurvey_recvQueues, queue]
  refine ⟨{ expireSurvey s.nng s.jiffies d with
    recvQueues := Function.update s.nng.recvQueues d [] }, ?_, rfl⟩
  exact expireSurvey_pool s.nng s.jiffies d

/-- A state after calls from boot in which every payload sent was short. -/
def AfterShortSends (s : System) : Prop :=
  ∃ image ops, Runs.Meets step SendsShort (boot image) ops ∧ Runs.after step (boot image) ops = s

theorem AfterShortSends.inOrder {s : System} (h : AfterShortSends s) :
    ∃ foreign, InOrder foreign s := by
  obtain ⟨image, ops, run, rfl⟩ := h
  exact (queueHistory_after image run).ok

/-- No send makes every receive of its message succeed. After a run of short sends, a PUSH
of a short message that returns success lets its peer unpack the same priority, operation
and payload, and the receive returns success exactly if the caller's buffer already
contained the checksum of that payload. -/
theorem push_pull_delivery (s : System) (a b : ChannelId) (m : Message) :
    ¬Delivers (ipcSend s a.val (some m)).2.2 b m ∧
    (AfterShortSends s → Short m → Ready s a b m → (ipcSend s a.val (some m)).1 = 0 →
      ∀ (out : Message) (nonblock : Bool), ∃ m',
        (ipcRecv (ipcSend s a.val (some m)).2.2 b.val (some out) nonblock).2.1 = some m' ∧
        m'.priority = m.priority ∧ m'.operation = m.operation ∧
        cString m'.payload = cString m.payload ∧
        ((ipcRecv (ipcSend s a.val (some m)).2.2 b.val (some out) nonblock).1 = 0 ↔
          out.checksum = calculateChecksum (cString m.payload))) := by
  refine ⟨not_delivers _ b m, ?_⟩
  intro reached short ready sent out nonblock
  obtain ⟨foreign, ok⟩ := reached.inOrder
  have wired := ok.wired
  have sealed : cString (sealMessage m).payload = cString m.payload :=
    sealMessage_cString ready.terminated
  have short' : SendsShort s (.ipcSend a.val (some m)) := short
  obtain ⟨d, socketB, -, -⟩ := wired.socket b ready.openB
  obtain ⟨x, queue⟩ := ipcSend_push wired ready sent socketB
  have okSent : InOrder foreign (ipcSend s a.val (some m)).2.2 := ok.step short'
  have accounted := ((ipcSend_sent s a.val (some m)).copies ok.sound (by
    rintro _ ⟨⟩
    exact short.sealed)).accounted ok
  have rights := ipcSend_sameRights s a.val (some m)
  generalize (ipcSend s a.val (some m)).2.2 = s' at queue okSent accounted rights
  have member : x ∈ s'.nng.recvQueues d := by rw [queue]; exact List.mem_cons_self
  -- the peer's queue was empty, so what is in it now is the message just sent
  have bytes : s'.nng.pool.bodyBytes x = encodedBytes (sealMessage m) := by
    rcases accounted d x member with ⟨old, -⟩ | ⟨-, _, _, admitted, bytes⟩
    · rw [ready.empty d socketB] at old
      cases old
    · cases admitted.message
      exact bytes
  obtain ⟨t, h, buffer, rfl, stored⟩ := okSent.queued member
  obtain ⟨m', unpacked, same⟩ := unpacked_of_bytes
    ⟨h.address_ne_zero, by rw [stored.body]; exact buffer.address_ne_zero⟩ bytes
    (by rw [sealed]; exact ready.terminated) out
  obtain ⟨n', pool, receive⟩ := ipcRecv_one (b := b) okSent.wired
    (by rw [rights.channels]; exact ready.openB) (by rw [rights.channels]; exact socketB)
    (by rw [rights.channels]; exact ready.mayReceive) queue out nonblock
  have here : nngMessageToLugh ({ s' with nng := n' } : System).nng.pool h.address out =
      (.ok, m') := by rw [pool]; exact unpacked
  rw [receive, unpack_message, here]
  refine ⟨m', rfl, ?_, same.operation, same.payload.trans sealed, ?_⟩
  · rw [same.priority]
    have low := ready.priority
    apply BitVec.eq_of_toNat_eq
    simp only [sealMessage, BitVec.toNat_setWidth]
    omega
  · rw [unpack_result here, same.payload, sealed, same.checksum]
    exact eq_comm

/-- The system in which the root task has opened and connected a PUSH and a PULL channel. -/
def pushPullSystem : System := Runs.after step (boot sampleImage) (pushPull capAll)

theorem pushPullSystem_ready : Ready pushPullSystem 0 1 (sampleMessage 1 [0x68, 0x69]) := by
  have sockets : (pushPullSystem.channels 0).socket.id = some 0 ∧
      (pushPullSystem.channels 1).socket.id = some 1 ∧
      (∀ d ∈ collectPeers pushPullSystem.nng 0 .pull0, d = 1) ∧
      pushPullSystem.nng.recvQueues 1 = [] := by decide +kernel
  obtain ⟨socketA, socketB, peers, empty⟩ := sockets
  refine ⟨by decide +kernel, by decide +kernel, by decide +kernel, by decide +kernel, ?_,
    by decide +kernel, ?_, by decide +kernel, by decide +kernel⟩
  · intro e d socket member
    rw [socketA] at socket
    cases socket
    rw [socketB, peers d member]
  · intro d socket
    rw [socketB] at socket
    cases socket
    exact empty

/-- A receive buffer with zeroed fields and the given checksum. -/
def zeroedBuffer (checksum : BitVec 32) : Message := ⟨0, 0, checksum, 0, fun _ => 0⟩

theorem push_pull_delivery_hi :
    ∃ m', (ipcRecv (ipcSend pushPullSystem (0 : ChannelId).val
          (some (sampleMessage 1 [0x68, 0x69]))).2.2 (1 : ChannelId).val
        (some (zeroedBuffer (calculateChecksum [0x68, 0x69]))) true).2.1 = some m' ∧
      m'.operation = (sampleMessage 1 [0x68, 0x69]).operation ∧
      (ipcRecv (ipcSend pushPullSystem (0 : ChannelId).val
          (some (sampleMessage 1 [0x68, 0x69]))).2.2 (1 : ChannelId).val
        (some (zeroedBuffer (calculateChecksum [0x68, 0x69]))) true).1 = 0 := by
  have reached : AfterShortSends pushPullSystem :=
    ⟨sampleImage, pushPull capAll, by decide +kernel, rfl⟩
  obtain ⟨m', received, -, operation, -, result⟩ :=
    (push_pull_delivery pushPullSystem 0 1 (sampleMessage 1 [0x68, 0x69])).2 reached
      (by decide +kernel) pushPullSystem_ready (by decide +kernel)
      (zeroedBuffer (calculateChecksum [0x68, 0x69])) true
  exact ⟨m', received, operation, result.mpr (by decide +kernel)⟩

/-- With a zeroed buffer the receive of the same message fails its checksum test. -/
theorem receive_rejects_stale_checksum :
    (ipcSend pushPullSystem 0 (some (sampleMessage 1 [0x68, 0x69]))).1 = 0 ∧
      (ipcRecv (ipcSend pushPullSystem 0 (some (sampleMessage 1 [0x68, 0x69]))).2.2 1
        (some (zeroedBuffer 0)) true).1 = -6 := by
  decide +kernel

end LughOS.Kernel

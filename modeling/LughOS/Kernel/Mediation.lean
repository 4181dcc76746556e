import LughOS.Kernel.Audit
import LughOS.Kernel.Conversion
import LughOS.Kernel.Transport

/-!
# Mediation of privileged operations

`ipc_send` asks for `CAP_PRIVILEGED_OP` before it accepts an update, a write or a
delete, and a channel cannot hold more than the task that created it. For this to say
something about what receivers see, the operation code must survive the transport.
With short payloads it does: `complete_mediation` traces every privileged operation in
a receive queue or in the audit ring back to the send that put it there, to a channel
that held both capabilities and to an owner whose whole lineage holds them.

Longer payloads overrun the 64-byte buffer of a pool message. `overrun_forges_write`
is a run without any privileged channel in which the tail of one payload redirects the
body pointer of an earlier, still queued message, so that its operation reads as
`OP_WRITE`.
-/

namespace LughOS.Kernel

open Bytes

/-- The operation that `nng_message_to_lugh` finds in a message. -/
def queuedOperation (p : Pool) (msg : Nat) : BitVec 32 :=
  BitVec.ofNat 32 (p.heap.mem.readWord (p.body msg + 1))

def privilegedCaps : BitVec 32 := capIpcSend ||| capPrivilegedOp

/-! ## The property -/

/-- The handle `x` in the queue of `d` was put there by the send of `m` on channel `c` after
the calls `before`, and has been queued since. -/
structure PutBy (start : System) (ops : List Op) (d : SocketId) (x : Nat) (before : List Op)
    (id : Int) (m : Message) (c : ChannelId) : Prop where
  admitted : Admitted (Runs.after step start before) id (some m) c m
  new : ∀ e, x ∉ (Runs.after step start before).nng.recvQueues e
  since : ∃ rest, ops = before ++ .ipcSend id (some m) :: rest ∧ ∀ between, between <+: rest →
    x ∈ (Runs.after step start (before ++ .ipcSend id (some m) :: between)).nng.recvQueues d

/-- The entry `e` at position `k` of `ipc_ring` was pushed by such a send. -/
structure PushedBy (start : System) (ops : List Op) (k : Nat) (e : Message) (before : List Op)
    (id : Int) (m : Message) (c : ChannelId) : Prop where
  admitted : Admitted (Runs.after step start before) id (some m) c m
  operation : e.operation = m.operation
  pushed : (Runs.after step start before).auditor.ring.length = k ∧
    (Runs.after step start (before ++ [.ipcSend id (some m)])).auditor.ring[k]? = some e
  since : ∃ rest, ops = before ++ .ipcSend id (some m) :: rest

/-- Channel `c`, as it was in `sending`, held both capabilities, and so do the task that
created it and all ancestors of that task. -/
structure Authorised (sending now : System) (c : ChannelId) : Prop where
  channel : Grants (sending.channels c).capMask privilegedCaps
  owner : ∃ t, taskFind now.table.tasks (sending.channels c).ownerTaskId = some t ∧
    Grants t.capMask privilegedCaps ∧
    ∀ a, Ancestor now.table.tasks a t → Grants a.capMask privilegedCaps

/-- Every privileged operation in flight after the run comes from an authorised send. -/
structure Mediated (start : System) (ops : List Op) : Prop where
  queues : ∀ d x, x ∈ (Runs.after step start ops).nng.recvQueues d →
    Privileged (queuedOperation (Runs.after step start ops).nng.pool x) →
    ∃ before id m c, PutBy start ops d x before id m c ∧
      Authorised (Runs.after step start before) (Runs.after step start ops) c
  ring : ∀ k e, (Runs.after step start ops).auditor.ring[k]? = some e → Privileged e.operation →
    ∃ before id m c, PushedBy start ops k e before id m c ∧
      Authorised (Runs.after step start before) (Runs.after step start ops) c

/-! ## Queues along a run -/

variable {start : System} {ops : List Op} {op : Op} {d : SocketId} {x : Nat} {before : List Op}
  {id : Int} {m : Message} {c : ChannelId}

theorem PutBy.concat (h : PutBy start ops d x before id m c)
    (still : x ∈ (step (Runs.after step start ops) op).nng.recvQueues d) :
    PutBy start (ops ++ [op]) d x before id m c := by
  obtain ⟨rest, rfl, queued⟩ := h.since
  refine ⟨h.admitted, h.new, rest ++ [op], by simp, fun between pre => ?_⟩
  rcases List.prefix_concat_iff.mp pre with rfl | earlier
  · have now : Runs.after step start (before ++ .ipcSend id (some m) :: (rest ++ [op])) =
        step (Runs.after step start (before ++ .ipcSend id (some m) :: rest)) op := by
      simp [Runs.after]
    rw [now]
    exact still
  · exact queued between earlier

/-- Every queued handle holds the encoding of the message of the send that put it there. -/
structure QueueHistory (start : System) (ops : List Op) (s : System) : Prop where
  ok : ∃ foreign, InOrder foreign s
  origin : ∀ d x, x ∈ s.nng.recvQueues d → ∃ before id m c, PutBy start ops d x before id m c ∧
    s.nng.pool.bodyBytes x = encodedBytes (sealMessage m)

theorem QueueHistory.concat (h : QueueHistory start ops (Runs.after step start ops))
    (short : SendsShort (Runs.after step start ops) op) :
    QueueHistory start (ops ++ [op]) (step (Runs.after step start ops) op) := by
  obtain ⟨foreign, ok⟩ := h.ok
  have ok' := ok.step short
  refine ⟨⟨foreign, ok'⟩, fun d x member => ?_⟩
  have kept : x ∈ (Runs.after step start ops).nng.recvQueues d →
      (step (Runs.after step start ops) op).nng.pool.bodyBytes x =
        (Runs.after step start ops).nng.pool.bodyBytes x →
      ∃ before id m c, PutBy start (ops ++ [op]) d x before id m c ∧
        (step (Runs.after step start ops) op).nng.pool.bodyBytes x =
          encodedBytes (sealMessage m) := by
    intro old sameBytes
    obtain ⟨before, id, m, c, put, bytes⟩ := h.origin d x old
    exact ⟨before, id, m, c, put.concat member, sameBytes.trans bytes⟩
  obtain discards | ⟨id, m, rfl, copies⟩ := step_messages ok.sound short
  · obtain ⟨old, sameBytes⟩ := discards.remaining ok ok' d x member
    exact kept old sameBytes
  · rcases copies.accounted ok d x member with ⟨old, sameBytes⟩ | ⟨new, c, m', admitted, bytes⟩
    · exact kept old sameBytes
    · cases admitted.message
      refine ⟨ops, id, m, c, ⟨admitted, new, [], rfl, fun between pre => ?_⟩, bytes⟩
      obtain rfl := List.prefix_nil.mp pre
      rw [Runs.after_concat]
      exact member

theorem queueHistory_after (image : BootImage) {ops : List Op}
    (run : Runs.Meets step SendsShort (boot image) ops) :
    QueueHistory (boot image) ops (Runs.after step (boot image) ops) :=
  Runs.run_history (P := QueueHistory (boot image))
    ⟨⟨_, initIpc_inOrder _ (memoryInit_laidOut _ _)⟩,
      fun d x member => by simp [boot, initIpc, nngInit] at member⟩
    (fun _ _ h short => h.concat short) run

/-! ## The ring along a run -/

/-- A call leaves the ring alone, or it is an admitted send that pushes one message. -/
theorem step_ring (s : System) (op : Op) :
    (step s op).auditor.ring = s.auditor.ring ∨
      ∃ id m c e, op = .ipcSend id (some m) ∧ Admitted s id (some m) c m ∧
        e.operation = m.operation ∧ (step s op).auditor.ring = s.auditor.ring ++ [e] := by
  have emitted : ∀ {record}, (step s op).auditor = s.auditor.emit record →
      (step s op).auditor.ring = s.auditor.ring :=
    fun auditor => by rw [auditor, (s.auditor.emit_ring _).1]
  cases step_audited s op with
  | silent auditor =>
      rw [auditor]
      cases offer : offered s op with
      | none => exact .inl rfl
      | some sending =>
          obtain ⟨id, m, call, admitted, stamped⟩ := offered_eq_some offer
          simp only [pushOffered, ringPush]
          split
          · exact .inl rfl
          · exact .inr ⟨id, m, sending.1, sending.2, call, admitted, by rw [stamped]; rfl, rfl⟩
  | denied _ _ auditor => exact .inl (emitted auditor)
  | channelCreated _ _ _ _ _ auditor => exact .inl (emitted auditor)
  | connected _ _ _ _ auditor => exact .inl (emitted auditor)
  | taskCreated _ _ _ _ auditor => exact .inl (emitted auditor)
  | edgeAdded _ _ _ auditor => exact .inl (emitted auditor)

/-- Every entry of the ring was pushed by an admitted send of its operation. -/
def RingHistory (start : System) (ops : List Op) (s : System) : Prop :=
  ∀ k e, s.auditor.ring[k]? = some e →
    ∃ before id m c, PushedBy start ops k e before id m c

theorem RingHistory.concat (h : RingHistory start ops (Runs.after step start ops)) :
    RingHistory start (ops ++ [op]) (step (Runs.after step start ops) op) := by
  have older : ∀ k e, (Runs.after step start ops).auditor.ring[k]? = some e →
      ∃ before id m c, PushedBy start (ops ++ [op]) k e before id m c := by
    intro k e at_k
    obtain ⟨before, id, m, c, put⟩ := h k e at_k
    obtain ⟨rest, split⟩ := put.since
    exact ⟨before, id, m, c, put.admitted, put.operation, put.pushed, rest ++ [op], by simp [split]⟩
  intro k e at_k
  obtain same | ⟨id, m, c, new, rfl, admitted, operation, grown⟩ :=
    step_ring (Runs.after step start ops) op
  · rw [same] at at_k
    exact older k e at_k
  · rw [grown] at at_k
    obtain old | ⟨rfl, rfl⟩ := getElem?_concat_cases at_k
    · exact older k e old
    · refine ⟨ops, id, m, c, admitted, operation, ⟨rfl, ?_⟩, [], rfl⟩
      rw [Runs.after_concat, grown]
      simp

theorem ringHistory_after (image : BootImage) (ops : List Op) :
    RingHistory (boot image) ops (Runs.after step (boot image) ops) :=
  Runs.run_history (P := RingHistory (boot image))
    (fun k e at_k => by simp [boot, initIpc] at at_k) (fun _ _ h _ => h.concat)
    (Runs.meets_true (boot image) ops)

/-! ## Authority -/

theorem step_tasks (s : System) (op : Op) : s.table.tasks <+: (step s op).table.tasks := by
  cases step_audited s op with
  | silent _ plain => rw [plain.tasks]
  | denied _ _ _ _ plain => rw [plain.tasks]
  | channelCreated _ _ _ _ _ _ _ _ _ _ table => rw [table]
  | connected _ _ _ _ _ rights => rw [rights.table]
  | taskCreated _ _ child _ _ _ _ _ _ _ tasks =>
      rw [tasks]
      exact List.prefix_append _ [child]
  | edgeAdded _ _ _ _ _ _ table => rw [table]

theorem tasks_after (s : System) (ops : List Op) :
    s.table.tasks <+: (Runs.after step s ops).table.tasks :=
  Runs.invariant_after (I := fun s' => s.table.tasks <+: s'.table.tasks) (List.prefix_refl _)
    (fun s' op h => h.trans (step_tasks s' op)) ops

/-- An admitted send of a privileged operation is authorised, then and later. -/
theorem Admitted.authorised (image : BootImage) {before rest : List Op}
    (admitted : Admitted (Runs.after step (boot image) before) id (some m) c m)
    (privileged : Privileged m.operation) :
    Authorised (Runs.after step (boot image) before)
      (Runs.after step (boot image) (before ++ rest)) c := by
  have granted := admitted.granted
  rw [requiredCapsForOp, if_pos privileged] at granted
  obtain ⟨-, used⟩ := openChannel?_eq_some.mp admitted.channel
  obtain ⟨i, owner, at_i, rights⟩ := (reachable_owned image before).channels c used
  have lineage := (reachable_owned image (before ++ rest)).lineage
  have later : (Runs.after step (boot image) (before ++ rest)).table.tasks[i]? = some owner := by
    obtain ⟨more, grown⟩ := tasks_after (Runs.after step (boot image) before) rest
    have append : Runs.after step (boot image) (before ++ rest) =
        Runs.after step (Runs.after step (boot image) before) rest := by simp [Runs.after]
    rw [append, ← grown, getElem?_append_of_some at_i]
  have holds : Grants owner.capMask privilegedCaps := rights.caps.trans granted
  refine ⟨granted, owner, ?_, holds, fun a above => ?_⟩
  · rw [rights.owner_id, lineage.find later]
  · exact (lineage.ancestor_grants above).trans holds

/-- In every run from boot whose sends carry at most 58 characters, each privileged operation
in a receive queue or in the audit ring was put there by a send on a channel that held
`CAP_IPC_SEND` and `CAP_PRIVILEGED_OP`, as its creator and all ancestors do. -/
theorem complete_mediation (image : BootImage) (ops : List Op)
    (run : Runs.Meets step SendsShort (boot image) ops) : Mediated (boot image) ops := by
  have history := queueHistory_after image run
  constructor
  · intro d x member privileged
    obtain ⟨before, id, m, c, put, bytes⟩ := history.origin d x member
    rw [queuedOperation, operation_of_bytes bytes] at privileged
    obtain ⟨rest, split, -⟩ := put.since
    refine ⟨before, id, m, c, put, ?_⟩
    rw [split]
    exact put.admitted.authorised image privileged
  · intro k e at_k privileged
    obtain ⟨before, id, m, c, put⟩ := ringHistory_after image ops k e at_k
    rw [put.operation] at privileged
    obtain ⟨rest, split⟩ := put.since
    refine ⟨before, id, m, c, put, ?_⟩
    rw [split]
    exact put.admitted.authorised image privileged

/-- A PUSH channel connected to a PULL channel, both with the given capabilities. -/
def pushPull (caps : BitVec 32) : List Op :=
  [.ipcCreateChannel 0 0 caps Protocol.push0.code, .ipcCreateChannel 0 0 caps Protocol.pull0.code,
    .ipcConnect 0 1]

theorem complete_mediation_write :
    let ops := pushPull capAll ++ [.ipcSend 0 (some (sampleMessage 0x200 [0x68, 0x69]))]
    (∃ x ∈ (Runs.after step (boot sampleImage) ops).nng.recvQueues 1,
        Privileged (queuedOperation (Runs.after step (boot sampleImage) ops).nng.pool x)) ∧
      Mediated (boot sampleImage) ops :=
  ⟨by decide +kernel, complete_mediation sampleImage _ (by decide +kernel)⟩

/-- Two sends without privileges: an empty payload, and one of sixty characters. -/
def overrun : List Op :=
  pushPull (capIpcSend ||| capIpcRecv) ++
    [.ipcSend 0 (some (sampleMessage 0x20000 [])),
      .ipcSend 0 (some (sampleMessage 1 (List.replicate 59 0x41 ++ [0xC1])))]

/-- The second message is built in front of the queued copy of the first. Its last two bytes
land on that copy's body pointer, which then leads one byte past the start of its buffer. -/
theorem overrun_forges_write : ¬Mediated (boot sampleImage) overrun := by
  intro mediated
  have queued : 0x800080 ∈ (Runs.after step (boot sampleImage) overrun).nng.recvQueues 1 := by
    decide +kernel
  have forged : queuedOperation (Runs.after step (boot sampleImage) overrun).nng.pool 0x800080 =
      0x200#32 := by decide +kernel
  have powerless : Runs.Meets step (fun s _ => ∀ c, ¬Grants (s.channels c).capMask privilegedCaps)
      (boot sampleImage) overrun := by decide +kernel
  obtain ⟨before, id, m, c, put, authorised⟩ :=
    mediated.queues 1 0x800080 queued (by rw [forged]; decide)
  obtain ⟨rest, split, -⟩ := put.since
  rw [split] at powerless
  exact Runs.meets_at powerless c authorised.channel

end LughOS.Kernel

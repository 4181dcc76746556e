import LughOS.Kernel.Audit
import LughOS.Kernel.Scheduler
import LughOS.Library.RingBuffer

/-!
# The exporter and the machine around the calls

`exporter.c` drains `ipc_ring` into message records, a batch at every `auditor_tick`, and
reports the drops counted since the last one. The counter has two writers: `ring_push` on
a full ring, and `log_transaction` of `storage.c` when it gives up its oldest entry.

A `Machine` is the system of the calls together with the statics of these files and of
the scheduler. The ring of `ring_buffer.c` is an array with two positions here, while the
calls work on the list of its messages; the field `mirrors` keeps the two together. An
event is a call, a system call that ends or yields the current task, a logged transaction,
the report of a fault or of a workflow, or a tick, and each of them runs to its end before
the next one.
-/

namespace LughOS.Kernel

open Auditor Bytes

/-! ## The ring -/

/-- `ipc_ring_t`. -/
structure IpcRing where
  buffer : RingBuffer 256 Message
  overflow : BitVec 32

namespace IpcRing

/-- The messages from the tail to the head. -/
def contents (r : IpcRing) : List Message := r.buffer.contents

/-- `ring_init`. The messages in the buffer keep their bytes. -/
def init (r : IpcRing) : IpcRing := ⟨r.buffer.clear, 0⟩

/-- `ring_push`, with its result. -/
def push (r : IpcRing) (m : Message) : Bool × IpcRing :=
  match r.buffer.push m with
  | none => (false, { r with overflow := r.overflow + 1 })
  | some buffer => (true, { r with buffer := buffer })

/-- `ring_pop`. -/
def pop (r : IpcRing) : Option (Message × IpcRing) :=
  r.buffer.pop.map fun (m, buffer) => (m, { r with buffer := buffer })

/-- The ring after the push a call makes, if it makes one. -/
def offer (r : IpcRing) : Option (ChannelId × Message) → IpcRing
  | some (_, m) => (r.push m).2
  | none => r

end IpcRing

/-- The list of the calls is the contents of the ring. -/
structure Mirrors (a : AuditorState) (r : IpcRing) : Prop where
  ring : a.ring = r.contents
  overflow : a.overflow = r.overflow

/-- What `ring_push` does, in terms of the contents. -/
theorem IpcRing.push_cases (r : IpcRing) (m : Message) :
    (r.contents.length + 1 = 256 ∧
        r.push m = (false, { r with overflow := r.overflow + 1 })) ∨
      (r.contents.length + 1 < 256 ∧ (r.push m).1 = true ∧
        (r.push m).2.contents = r.contents ++ [m] ∧ (r.push m).2.overflow = r.overflow) := by
  cases pushed : r.buffer.push m with
  | none => exact .inl ⟨RingBuffer.push_eq_none.mp pushed, by simp [push, pushed]⟩
  | some buffer =>
      have room : r.contents.length + 1 ≠ 256 := fun full => by
        rw [RingBuffer.push_eq_none.mpr full] at pushed
        cases pushed
      have bound : r.contents.length < 256 := by
        rw [contents, RingBuffer.length_contents]
        exact Fin.isLt _
      refine .inr ⟨by omega, by simp [push, pushed], ?_, by simp [push, pushed]⟩
      simp only [push, pushed]
      exact RingBuffer.contents_push pushed

theorem Mirrors.push {a : AuditorState} {r : IpcRing} (h : Mirrors a r) (m : Message) :
    Mirrors (ringPush a m) (r.push m).2 := by
  unfold ringPush ipcRingCapacity
  rcases r.push_cases m with ⟨full, refused⟩ | ⟨room, -, contents, overflow⟩
  · rw [if_pos (by rw [h.ring, full]), refused]
    exact ⟨h.ring, by rw [h.overflow]⟩
  · rw [if_neg (by rw [h.ring]; omega)]
    exact ⟨by rw [contents, h.ring], by rw [overflow, h.overflow]⟩

theorem Mirrors.offer {a : AuditorState} {r : IpcRing} (h : Mirrors a r) :
    ∀ offer, Mirrors (pushOffered a offer) (r.offer offer)
  | some (_, m) => h.push m
  | none => h

theorem Mirrors.emit {a : AuditorState} {r : IpcRing} (h : Mirrors a r) (record : AuditorRecord) :
    Mirrors (a.emit record) r := by
  obtain ⟨ring, overflow, -⟩ := a.emit_ring record
  exact ⟨ring.trans h.ring, overflow.trans h.overflow⟩

theorem Audited.mirrors {s s' : System} {op : Op} {r : IpcRing} (audited : Audited s op s')
    (h : Mirrors s.auditor r) : Mirrors s'.auditor (r.offer (offered s op)) := by
  have told : ∀ {record}, s'.auditor = s.auditor.emit record → offered s op = none →
      Mirrors s'.auditor (r.offer (offered s op)) := by
    intro record auditor unoffered
    rw [auditor, unoffered]
    exact h.emit record
  cases audited with
  | silent auditor => rw [auditor]; exact h.offer _
  | denied _ unoffered auditor => exact told auditor unoffered
  | channelCreated _ _ _ _ unoffered auditor => exact told auditor unoffered
  | connected _ _ _ unoffered auditor => exact told auditor unoffered
  | taskCreated _ _ _ call auditor => exact told auditor (by rw [call]; rfl)
  | edgeAdded _ _ call auditor => exact told auditor (by rw [call]; rfl)

/-! ## The transaction log -/

/-- `txn_log_entry_t`. -/
structure TxnLogEntry where
  txnId : BitVec 64
  taskId : BitVec 32
  operation : BitVec 32
  key : Fin 64 → Byte
  value : Fin 256 → Byte
  checksum : BitVec 32

/-- The statics of `storage.c`. -/
structure TxnLog where
  txnLog : Fin 256 → TxnLogEntry
  head : BitVec 32
  tail : BitVec 32
  overflow : BitVec 32

namespace TxnLog

/-- All entries are live, so that the next one displaces the oldest. -/
def Full (log : TxnLog) : Prop := 256 ≤ (log.head - log.tail).toNat

instance (log : TxnLog) : Decidable log.Full := inferInstanceAs (Decidable (_ ≤ _))

/-- The entry that is displaced next. -/
def oldest (log : TxnLog) : TxnLogEntry := log.txnLog (Fin.ofNat 256 log.tail.toNat)

def dropOldest (log : TxnLog) : TxnLog :=
  { log with tail := log.tail + 1, overflow := log.overflow + 1 }

def append (log : TxnLog) (entry : TxnLogEntry) : TxnLog :=
  { log with
    txnLog := Function.update log.txnLog (Fin.ofNat 256 log.head.toNat) entry
    head := log.head + 1 }

end TxnLog

/-- The owner an entry is stored with. -/
def stampOwner (current : Option Task) (entry : TxnLogEntry) : TxnLogEntry :=
  match current with
  | some task => if entry.taskId = 0 then { entry with taskId := task.taskId } else entry
  | none => entry

/-! ## The records of the exporter -/

def fnv1a (seed : BitVec 32) (data : List Byte) : BitVec 32 :=
  data.foldl (fun h b => (h ^^^ b.setWidth 32) * 16777619#32) seed

/-- `payload_fingerprint`. -/
def payloadFingerprint (payload : Fin 128 → Byte) : PayloadHash :=
  let data := cString payload
  packWords (fnv1a 2166136261#32 data) (fnv1a 0xD3F81F4A#32 data) (fnv1a 0xA9035421#32 data)
    (fnv1a 0x5FA31B02#32 data)

def emitMsgRecord (jiffies : BitVec 64) (m : Message) : AuditorRecord :=
  { initRecord jiffies .msg with
    priority := m.priority.setWidth 8
    channelId := (m.padding1 &&& 0xFF#32).setWidth 8
    srcDomain := ((m.padding1 >>> 8) &&& 0xFF#32).setWidth 8
    protocol := ((m.padding1 >>> 16) &&& 0xFF#32).setWidth 8
    operation := m.operation
    checksum := m.checksum
    payloadHash := payloadFingerprint m.payload }

def emitOverflowRecord (jiffies : BitVec 64) (dropped : BitVec 32) : AuditorRecord :=
  { initRecord jiffies .overflow with
    priority := 0
    srcDomain := 0
    protocol := 0
    channelId := 0
    operation := dropped
    checksum := 0
    payloadHash := packWords 0 0 0 0 }

def emitHeartbeatRecord (jiffies : BitVec 64) : AuditorRecord :=
  { initRecord jiffies .heartbeat with
    priority := 0
    srcDomain := 0
    protocol := 0
    channelId := 0
    operation := 0
    checksum := 0
    payloadHash := packWords 0 0 0 0 }

def drainBatch : Nat := 32

/-- The loop of `auditor_tick`, with the rounds that are left. -/
def drain (jiffies : BitVec 64) : Nat → IpcRing → List AuditorRecord × IpcRing
  | 0, r => ([], r)
  | rounds + 1, r =>
      match r.pop with
      | none => ([], r)
      | some (m, r) =>
          let (records, r) := drain jiffies rounds r
          (emitMsgRecord jiffies m :: records, r)

theorem drain_spec (jiffies : BitVec 64) (rounds : Nat) (r : IpcRing) :
    (drain jiffies rounds r).1 = (r.contents.take rounds).map (emitMsgRecord jiffies) ∧
      (drain jiffies rounds r).2.contents = r.contents.drop rounds ∧
      (drain jiffies rounds r).2.overflow = r.overflow := by
  induction rounds generalizing r with
  | zero => simp [drain]
  | succ rounds ih =>
      cases popped : r.buffer.pop with
      | none =>
          have empty : r.contents = [] := RingBuffer.contents_of_pop_none popped
          simp [drain, IpcRing.pop, popped, empty]
      | some front =>
          obtain ⟨m, buffer⟩ := front
          have contents : r.contents = m :: { r with buffer := buffer }.contents :=
            RingBuffer.contents_of_pop popped
          obtain ⟨records, rest, overflow⟩ := ih { r with buffer := buffer }
          simp [drain, IpcRing.pop, popped, contents, records, rest, overflow]

/-! ## The machine -/

/-- The statics of the exporter, of `storage.c` and of the scheduler. -/
structure Statics where
  ipcRing : IpcRing
  txnLog : TxnLog
  tickCount : BitVec 64
  heartbeatCounter : BitVec 32
  rrCursor : Int

def blankMessage : Message := ⟨0, 0, 0, 0, fun _ => 0⟩

def blankEntry : TxnLogEntry := ⟨0, 0, 0, fun _ => 0, fun _ => 0, 0⟩

/-- The statics as the loader leaves them. -/
def zeroStatics : Statics where
  ipcRing := ⟨⟨fun _ => blankMessage, 0, 0⟩, 0⟩
  txnLog := ⟨fun _ => blankEntry, 0, 0, 0⟩
  tickCount := 0
  heartbeatCounter := 0
  rrCursor := 0

structure Machine extends Statics where
  kernel : System
  mirrors : Mirrors kernel.auditor ipcRing

/-- `auditor_init`, on whatever the statics hold. The stream starts here. -/
def auditorInit (kernel : System) (statics : Statics) : Machine where
  ipcRing := statics.ipcRing.init
  txnLog := statics.txnLog
  tickCount := statics.tickCount
  heartbeatCounter := statics.heartbeatCounter
  rrCursor := statics.rrCursor
  kernel := { kernel with auditor := ⟨true, [], 0, []⟩ }
  mirrors := ⟨(RingBuffer.contents_clear statics.ipcRing.buffer).symm, rfl⟩

namespace Machine

def perform (m : Machine) (op : Op) : Machine :=
  { m with
    kernel := step m.kernel op
    ipcRing := m.ipcRing.offer (offered m.kernel op)
    mirrors := (step_audited m.kernel op).mirrors m.mirrors }

def emit (m : Machine) (record : AuditorRecord) : Machine :=
  { m with
    kernel := m.kernel.emit record
    mirrors := by rw [System.emit_auditor]; exact m.mirrors.emit record }

def setTable (m : Machine) (table : TaskTable) : Machine :=
  { m with kernel := { m.kernel with table := table }, mirrors := m.mirrors }

/-- A drop of the transaction log counts in `ipc_ring.overflow` too. -/
def dropOldest (m : Machine) : Machine :=
  { m with
    txnLog := m.txnLog.dropOldest
    ipcRing := { m.ipcRing with overflow := m.ipcRing.overflow + 1 }
    kernel :=
      { m.kernel with
        auditor := { m.kernel.auditor with overflow := m.kernel.auditor.overflow + 1 } }
    mirrors := ⟨m.mirrors.ring, by rw [m.mirrors.overflow]⟩ }

/-- `log_transaction`, with the caller's entry after the call. -/
def logTransaction (m : Machine) (entry : Option TxnLogEntry) :
    Int × Option TxnLogEntry × Machine :=
  match entry with
  | none => (-1, none, m)
  | some entry =>
      let m := if m.txnLog.Full then m.dropOldest else m
      let entry := stampOwner m.kernel.currentTask entry
      (0, some entry, { m with txnLog := m.txnLog.append entry })

/-- The record of the drops since the last tick. -/
def overflowRecords (m : Machine) : List AuditorRecord :=
  if 0 < m.ipcRing.overflow.toNat then [emitOverflowRecord m.kernel.jiffies m.ipcRing.overflow]
  else []

/-- The message records of one tick and the ring behind them. -/
def drained (m : Machine) : List AuditorRecord × IpcRing :=
  drain m.kernel.jiffies drainBatch { m.ipcRing with overflow := 0 }

def heartbeatDue (m : Machine) : Bool := 100#32 ≤ m.heartbeatCounter + 1

def heartbeatRecords (m : Machine) : List AuditorRecord :=
  if m.heartbeatDue then [emitHeartbeatRecord m.kernel.jiffies] else []

def auditorTick (m : Machine) : Machine :=
  if m.kernel.auditor.enabled then
    { m with
      ipcRing := m.drained.2
      tickCount := m.tickCount + 1
      heartbeatCounter := if m.heartbeatDue then 0 else m.heartbeatCounter + 1
      kernel :=
        { m.kernel with
          auditor :=
            { m.kernel.auditor with
              ring := m.drained.2.contents
              overflow := m.drained.2.overflow
              stream := m.kernel.auditor.stream ++
                (m.overflowRecords ++ m.drained.1 ++ m.heartbeatRecords) } }
      mirrors := ⟨rfl, rfl⟩ }
  else m

/-- The branch `SYS_EXIT` of `syscall_handler`: the record first, then the end of the task,
once through the caller and once through the scheduler. -/
def sysExit (m : Machine) (code : BitVec 32) : Machine :=
  match m.kernel.currentTask with
  | none => m
  | some caller =>
      let m := m.emit (emitTaskExitRecord m.kernel.jiffies ⟨caller.taskId, code⟩)
      let table := setTaskState m.kernel.table (m.kernel.table.current.getD 0) .terminated
      let (_, table, cursor) := rrRemoveTask table m.rrCursor caller.taskId
      { m.setTable table with rrCursor := cursor }

/-- The branch `SYS_YIELD`. Nothing acts on the scheduler's choice yet. -/
def sysYield (m : Machine) : Machine :=
  let table :=
    match m.kernel.currentTask with
    | some caller =>
        if caller.state = .running then
          setTaskState m.kernel.table (m.kernel.table.current.getD 0) .ready
        else m.kernel.table
    | none => m.kernel.table
  let (_, table, cursor) := rrSchedule table m.rrCursor
  { m.setTable table with rrCursor := cursor }

/-- What the emitters take of `current_task`. -/
def currentIdentity (m : Machine) : Option TaskIdentity :=
  m.kernel.currentTask.map fun task => ⟨task.taskId, task.domain⟩

/-- `auditor_fault`, which the abort handlers call. -/
def auditorFault (m : Machine) (a : Fault) : Machine :=
  m.emit (emitFaultRecord m.kernel.jiffies m.currentIdentity a)

/-- `auditor_workflow`, which `wf_emit` calls. `workflow_begin` notes the current task as the
owner. There is one from `task_init` on, and so before the auditor, and tasks stay in the
table: the owner is given by its place there. -/
def auditorWorkflow (m : Machine) (owner : Nat) (a : WorkflowStep) : Machine :=
  match m.kernel.table.tasks[owner]? with
  | some task =>
      m.emit (emitWorkflowRecord m.kernel.jiffies m.currentIdentity
        { a with ownerTaskId := task.taskId })
  | none => m

end Machine

/-- `task_emit_kernel_create_event`: the record of the root task, which `task_init` created
before there was an auditor. -/
def taskEmitKernelCreateEvent (m : Machine) : Machine :=
  match m.kernel.table.tasks, m.kernel.currentTask with
  | root :: _, some _ => m.emit (emitTaskCreateRecord m.kernel.jiffies (taskCreateEvent root))
  | _, _ => m

inductive Event where
  | call (op : Op)
  | sysExit (code : BitVec 32)
  | sysYield
  | logTransaction (entry : Option TxnLogEntry)
  | fault (a : Fault)
  | workflow (owner : Nat) (a : WorkflowStep)
  | auditorTick

def eventStep (m : Machine) : Event → Machine
  | .call op => m.perform op
  | .sysExit code => m.sysExit code
  | .sysYield => m.sysYield
  | .logTransaction entry => (m.logTransaction entry).2.2
  | .fault a => m.auditorFault a
  | .workflow owner a => m.auditorWorkflow owner a
  | .auditorTick => m.auditorTick

/-! ## What an event writes

All records but those of a tick are written while the event that they report happens. -/

/-- The types a tick writes. -/
def ticked : RecordType → Bool
  | .msg | .overflow | .heartbeat => true
  | .deny | .taskCreate | .chanCreate | .chanConnect | .taskExit | .domainEdge | .fault
  | .workflow => false

/-- The auditor with synchronous records added to its stream, and nothing else about its
stream or its state of operation changed. -/
def Told (a a' : AuditorState) : Prop :=
  a'.enabled = a.enabled ∧ ∃ records, a'.stream = a.stream ++ records ∧
    ∀ r ∈ records, ∃ type, r.Is type ∧ ticked type = false

theorem emit_eq_append {a a' : AuditorState} {record : AuditorRecord} (enabled : a.enabled = true)
    (auditor : a' = a.emit record) :
    a'.enabled = a.enabled ∧ a'.stream = a.stream ++ [record] := by
  rw [auditor, AuditorState.emit, if_pos enabled]
  exact ⟨rfl, rfl⟩

theorem Told.of_eq {a a' : AuditorState} (enabled : a'.enabled = a.enabled)
    (stream : a'.stream = a.stream) : Told a a' :=
  ⟨enabled, [], by rw [stream, List.append_nil], by simp⟩

theorem Told.emit (a : AuditorState) (type : RecordType) {record : AuditorRecord}
    (is : record.Is type) (direct : ticked type = false) : Told a (a.emit record) := by
  refine ⟨(a.emit_ring record).2.2, ?_⟩
  unfold AuditorState.emit
  split
  · exact ⟨[record], rfl, by simpa using ⟨type, is, direct⟩⟩
  · exact ⟨[], by simp, by simp⟩

theorem pushOffered_told (a : AuditorState) : ∀ offer, Told a (pushOffered a offer)
  | some (_, m) => by
      unfold pushOffered ringPush
      dsimp only
      split <;> exact .of_eq rfl rfl
  | none => .of_eq rfl rfl

theorem Audited.told {s s' : System} {op : Op} (audited : Audited s op s') :
    Told s.auditor s'.auditor := by
  cases audited with
  | silent auditor => rw [auditor]; exact pushOffered_told _ _
  | denied info _ auditor => rw [auditor]; exact .emit _ .deny rfl rfl
  | channelCreated _ _ _ _ _ auditor => rw [auditor]; exact .emit _ .chanCreate rfl rfl
  | connected _ _ _ _ auditor => rw [auditor]; exact .emit _ .chanConnect rfl rfl
  | taskCreated _ _ _ _ auditor => rw [auditor]; exact .emit _ .taskCreate rfl rfl
  | edgeAdded _ _ _ auditor => rw [auditor]; exact .emit _ .domainEdge rfl rfl

namespace Machine

/-- What `SYS_EXIT` does: nothing without a current task, otherwise the record and the end of
the task. -/
theorem sysExit_cases (m : Machine) (code : BitVec 32) :
    (m.kernel.currentTask = none ∧ m.sysExit code = m) ∨
      ∃ caller, m.kernel.currentTask = some caller ∧
        (m.sysExit code).kernel.auditor =
          m.kernel.auditor.emit (emitTaskExitRecord m.kernel.jiffies ⟨caller.taskId, code⟩) ∧
        (m.sysExit code).kernel.table =
          (rrRemoveTask (setTaskState m.kernel.table (m.kernel.table.current.getD 0) .terminated)
            m.rrCursor caller.taskId).2.1 := by
  unfold sysExit
  cases current : m.kernel.currentTask with
  | none => exact .inl ⟨rfl, rfl⟩
  | some caller =>
      refine .inr ⟨caller, rfl, System.emit_auditor _ _, ?_⟩
      simp only [setTable, emit, System.emit_table]

theorem sysExit_frame (m : Machine) (code : BitVec 32) :
    (m.sysExit code).ipcRing = m.ipcRing ∧ (m.sysExit code).kernel.channels = m.kernel.channels ∧
      (m.sysExit code).kernel.nng = m.kernel.nng ∧
      (m.sysExit code).kernel.domains = m.kernel.domains ∧
      Told m.kernel.auditor (m.sysExit code).kernel.auditor := by
  refine ⟨?_, ?_, ?_, ?_, ?_⟩
  case refine_5 =>
    obtain ⟨-, same⟩ | ⟨caller, -, auditor, -⟩ := m.sysExit_cases code
    · rw [same]
      exact .of_eq rfl rfl
    · rw [auditor]
      exact .emit _ .taskExit rfl rfl
  all_goals
    unfold sysExit
    split
    · rfl
    · simp [setTable, emit]

theorem sysYield_frame (m : Machine) :
    m.sysYield.ipcRing = m.ipcRing ∧ m.sysYield.kernel.channels = m.kernel.channels ∧
      m.sysYield.kernel.nng = m.kernel.nng ∧ m.sysYield.kernel.domains = m.kernel.domains ∧
      m.sysYield.kernel.auditor = m.kernel.auditor :=
  ⟨rfl, rfl, rfl, rfl, rfl⟩

/-- What `log_transaction` does to the ring and to the system: it may count one drop. -/
theorem logTransaction_frame (m : Machine) (entry : Option TxnLogEntry) :
    (m.logTransaction entry).2.2.ipcRing.buffer = m.ipcRing.buffer ∧
      (m.logTransaction entry).2.2.kernel.channels = m.kernel.channels ∧
      (m.logTransaction entry).2.2.kernel.nng = m.kernel.nng ∧
      (m.logTransaction entry).2.2.kernel.domains = m.kernel.domains ∧
      (m.logTransaction entry).2.2.kernel.table = m.kernel.table ∧
      (m.logTransaction entry).2.2.kernel.auditor.enabled = m.kernel.auditor.enabled ∧
      (m.logTransaction entry).2.2.kernel.auditor.stream = m.kernel.auditor.stream := by
  unfold logTransaction
  split
  · exact ⟨rfl, rfl, rfl, rfl, rfl, rfl, rfl⟩
  · dsimp only
    split <;> exact ⟨rfl, rfl, rfl, rfl, rfl, rfl, rfl⟩

/-- What a tick of an enabled auditor writes. -/
theorem auditorTick_enabled {m : Machine} (enabled : m.kernel.auditor.enabled = true) :
    m.auditorTick.ipcRing.contents = m.ipcRing.contents.drop drainBatch ∧
      m.auditorTick.ipcRing.overflow = 0 ∧
      m.auditorTick.kernel.auditor.stream = m.kernel.auditor.stream ++
        (m.overflowRecords ++
          (m.ipcRing.contents.take drainBatch).map (emitMsgRecord m.kernel.jiffies) ++
          m.heartbeatRecords) := by
  obtain ⟨records, rest, overflow⟩ :=
    drain_spec m.kernel.jiffies drainBatch { m.ipcRing with overflow := 0 }
  unfold auditorTick
  rw [if_pos enabled]
  refine ⟨rest, overflow, ?_⟩
  simp only [drained, records]
  rfl

theorem auditorTick_frame (m : Machine) :
    m.auditorTick.kernel.channels = m.kernel.channels ∧
      m.auditorTick.kernel.nng = m.kernel.nng ∧
      m.auditorTick.kernel.domains = m.kernel.domains ∧
      m.auditorTick.kernel.table = m.kernel.table ∧
      m.auditorTick.kernel.auditor.enabled = m.kernel.auditor.enabled := by
  unfold auditorTick
  split <;> exact ⟨rfl, rfl, rfl, rfl, rfl⟩

/-- The records of faults and workflows. -/
inductive Reports (m : Machine) : AuditorRecord → Prop
  | fault (current : Option TaskIdentity) (a : Fault) :
      Reports m (emitFaultRecord m.kernel.jiffies current a)
  | workflow (current : Option TaskIdentity) (a : WorkflowStep) {owner : Task}
      (member : owner ∈ m.kernel.table.tasks) (owns : a.ownerTaskId = owner.taskId) :
      Reports m (emitWorkflowRecord m.kernel.jiffies current a)

theorem Reports.is {m : Machine} {r : AuditorRecord} :
    Reports m r → r.Is .fault ∨ r.Is .workflow
  | .fault .. => .inl rfl
  | .workflow .. => .inr rfl

/-- Reports were added to the stream, and nothing else has changed. -/
structure Reported (m m' : Machine) : Prop where
  ipcRing : m'.ipcRing = m.ipcRing
  channels : m'.kernel.channels = m.kernel.channels
  nng : m'.kernel.nng = m.kernel.nng
  domains : m'.kernel.domains = m.kernel.domains
  table : m'.kernel.table = m.kernel.table
  jiffies : m'.kernel.jiffies = m.kernel.jiffies
  enabled : m'.kernel.auditor.enabled = m.kernel.auditor.enabled
  records : ∃ records, m'.kernel.auditor.stream = m.kernel.auditor.stream ++ records ∧
    ∀ r ∈ records, Reports m r

theorem Reports.emit {m : Machine} {r : AuditorRecord} (reports : Reports m r) :
    Reported m (m.emit r) := by
  have auditor : (m.emit r).kernel.auditor = m.kernel.auditor.emit r := System.emit_auditor ..
  refine ⟨rfl, System.emit_channels .., System.emit_nng .., System.emit_domains ..,
    System.emit_table .., System.emit_jiffies .., ?_, ?_⟩
  · rw [auditor]
    exact (m.kernel.auditor.emit_ring r).2.2
  · rw [auditor, AuditorState.emit]
    split
    · exact ⟨[r], rfl, List.forall_mem_singleton.mpr reports⟩
    · exact ⟨[], (List.append_nil _).symm, List.forall_mem_nil _⟩

theorem auditorFault_reported (m : Machine) (a : Fault) : Reported m (m.auditorFault a) :=
  (Reports.fault _ a).emit

theorem auditorWorkflow_reported (m : Machine) (owner : Nat) (a : WorkflowStep) :
    Reported m (m.auditorWorkflow owner a) := by
  unfold auditorWorkflow
  split
  · rename_i task here
    exact (Reports.workflow _ _ (List.mem_of_getElem? here) rfl).emit
  · exact ⟨rfl, rfl, rfl, rfl, rfl, rfl, rfl, [], (List.append_nil _).symm, List.forall_mem_nil _⟩

theorem Reported.told {m m' : Machine} (reported : Reported m m') :
    Told m.kernel.auditor m'.kernel.auditor := by
  obtain ⟨records, stream, reports⟩ := reported.records
  refine ⟨reported.enabled, records, stream, fun r member => ?_⟩
  obtain is | is := (reports r member).is
  · exact ⟨.fault, is, rfl⟩
  · exact ⟨.workflow, is, rfl⟩

end Machine

theorem eventStep_enabled (m : Machine) (e : Event) :
    (eventStep m e).kernel.auditor.enabled = m.kernel.auditor.enabled := by
  cases e with
  | call op => exact (step_audited m.kernel op).told.1
  | sysExit code => exact (m.sysExit_frame code).2.2.2.2.1
  | sysYield => rfl
  | logTransaction entry => exact (m.logTransaction_frame entry).2.2.2.2.2.1
  | fault a => exact (m.auditorFault_reported a).enabled
  | workflow owner a => exact (m.auditorWorkflow_reported owner a).enabled
  | auditorTick => exact m.auditorTick_frame.2.2.2.2

/-- The auditor stays armed. -/
theorem enabled_after (kernel : System) (statics : Statics) (events : List Event) :
    (Runs.after eventStep (auditorInit kernel statics) events).kernel.auditor.enabled = true :=
  Runs.invariant_after (I := fun m => m.kernel.auditor.enabled = true) rfl
    (fun m e enabled => (eventStep_enabled m e).trans enabled) events

/-! ## The rebuilt graph -/

/-- The fold of `reconstruct_graph.py` over the records written so far. -/
def Machine.graph (m : Machine) : GraphState := replay m.kernel.auditor.stream

theorem emit_stream {a a' : AuditorState} {record : AuditorRecord} (enabled : a.enabled = true)
    (auditor : a' = a.emit record) :
    replay a'.stream = applyRecord (replay a.stream) record.parsed := by
  rw [(emit_eq_append enabled auditor).2]
  exact replay_concat a.stream record

theorem pushOffered_stream (a : AuditorState) : ∀ offer, (pushOffered a offer).stream = a.stream
  | some (_, m) => by
      unfold pushOffered ringPush
      dsimp only
      split <;> rfl
  | none => rfl

theorem toNat_channelId (c : ChannelId) : (BitVec.ofNat 32 c.val).toNat = c.val := by
  rw [BitVec.toNat_ofNat]
  exact Nat.mod_eq_of_lt (c.isLt.trans (by decide))

theorem applyRecord_channelCreated (g : GraphState) (jiffies : BitVec 64) (c : ChannelId)
    (ch : IpcChannel) :
    applyRecord g (emitChanCreateRecord jiffies (chanCreateEvent c ch)).parsed =
      { g with
        channels := Function.update g.channels c.val
          (some ⟨c.val, ch.ownerTaskId.toNat, ch.capMask.toNat, ch.domain.toNat⟩) } := by
  have id_eq : (chanCreateEvent c ch).channelId.toNat = c.val := toNat_channelId c
  rw [applyRecord_chanCreate _ _ _ (by rw [id_eq]; omega), id_eq]
  rfl

theorem applyRecord_connected (g : GraphState) (jiffies : BitVec 64) (s : System)
    (a b : ChannelId) :
    applyRecord g (emitChanConnectRecord jiffies (chanConnectEvent s a b)).parsed =
      { g with chanEdges := insert (a.val, b.val) g.chanEdges } := by
  have src_eq : (chanConnectEvent s a b).srcChannelId.toNat = a.val := toNat_channelId a
  have dst_eq : (chanConnectEvent s a b).dstChannelId.toNat = b.val := toNat_channelId b
  rw [applyRecord_chanConnect _ _ _ (by rw [src_eq]; omega), src_eq, dst_eq]

theorem tick_types (m : Machine) (messages : List Message) :
    ∀ r ∈ m.overflowRecords ++ messages.map (emitMsgRecord m.kernel.jiffies) ++ m.heartbeatRecords,
      ∃ type, r.Is type ∧ ticked type = true := by
  intro r member
  simp only [List.mem_append] at member
  rcases member with (overflow | carried) | heartbeat
  · unfold Machine.overflowRecords at overflow
    split at overflow
    · rw [List.mem_singleton.mp overflow]
      exact ⟨.overflow, rfl, rfl⟩
    · cases overflow
  · obtain ⟨msg, -, rfl⟩ := List.mem_map.mp carried
    exact ⟨.msg, rfl, rfl⟩
  · unfold Machine.heartbeatRecords at heartbeat
    split at heartbeat
    · rw [List.mem_singleton.mp heartbeat]
      exact ⟨.heartbeat, rfl, rfl⟩
    · cases heartbeat

theorem auditorTick_graph {m : Machine} (enabled : m.kernel.auditor.enabled = true) :
    m.auditorTick.graph = m.graph := by
  rw [Machine.graph, (m.auditorTick_enabled enabled).2.2]
  refine replay_inert _ fun r member => ?_
  obtain ⟨type, is, onTick⟩ := tick_types m _ r member
  refine ⟨type, is, ?_⟩
  cases type <;> first | exact id | cases onTick

theorem Machine.Reported.graph {m m' : Machine} (reported : m.Reported m') :
    m'.graph = m.graph := by
  obtain ⟨records, stream, reports⟩ := reported.records
  rw [Machine.graph, stream]
  refine replay_inert _ fun r member => ?_
  obtain is | is := (reports r member).is
  · exact ⟨.fault, is, id⟩
  · exact ⟨.workflow, is, id⟩

end LughOS.Kernel

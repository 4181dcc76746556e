import LughOS.Kernel.Sockets
import LughOS.Kernel.Tasks

/-!
# Channels

`ipc.c` over the sockets and the task table, and the calls as steps of one system. A
channel owns a socket and the capability word and domain fixed at its creation; every
call checks them before it touches the sockets below.

Each call returns its C result together with the new system. `step` performs one call
and forgets the result, so that a run is a list of calls and any task of the table may
be made current between two of them.
-/

namespace LughOS.Kernel

open Auditor Bytes

abbrev ChannelId := Fin 16

/-- `ipc_channel_t`. -/
structure IpcChannel where
  id : Int
  inUse : Bool
  socket : NngSocket
  securityLevel : BitVec 32
  domain : BitVec 32
  capMask : BitVec 32
  ownerTaskId : BitVec 32
  deriving DecidableEq

def ipcRingCapacity : Nat := 256

/-- The part of the auditor the calls write to: `ipc_ring`, as the messages between its
tail and its head, and the records already emitted. -/
structure AuditorState where
  enabled : Bool
  ring : List Message
  overflow : BitVec 32
  stream : List AuditorRecord

/-- `ring_push`: one slot always stays empty, and a full ring drops the new message. -/
def ringPush (a : AuditorState) (m : Message) : AuditorState :=
  if ipcRingCapacity ≤ a.ring.length + 1 then { a with overflow := a.overflow + 1 }
  else { a with ring := a.ring ++ [m] }

structure System where
  nng : Nng
  channels : ChannelId → IpcChannel
  table : TaskTable
  domains : DomainGraph
  auditor : AuditorState
  jiffies : BitVec 64

/-! ## Telemetry -/

namespace System

def currentTask (s : System) : Option Task := s.table.currentTask

def emit (s : System) (record : AuditorRecord) : System :=
  if s.auditor.enabled then
    { s with auditor := { s.auditor with stream := s.auditor.stream ++ [record] } }
  else s

def byte (v : BitVec 32) : BitVec 8 := (v &&& 0xFF#32).setWidth 8

/-- `emit_create_deny`: there is no channel yet, so both channel bytes are `0xFF`. -/
def emitCreateDeny (s : System) (task : Task) (requestedCaps targetDomain : BitVec 32)
    (reason : BitVec 8) (protocol : Int) : System :=
  s.emit (emitDenyRecord s.jiffies
    { srcDomain := byte task.domain
      dstDomain := byte targetDomain
      srcChannel := 0xFF#8
      dstChannel := 0xFF#8
      protocol := byte (BitVec.ofInt 32 protocol)
      reason := reason
      priority := 0
      operation := 0
      grantedCaps := task.capMask
      requiredCaps := requestedCaps
      parentTaskId := task.parentTaskId
      lineageDepth := lineageDepthOf s.table.tasks task
      siblingCount := siblingCountOf s.table.tasks (s.table.current.getD 0) task })

/-- `emit_deny`; `dst` is `none` for the calls that pass `-1`. -/
def emitDeny (s : System) (src : ChannelId) (dst : Option ChannelId) (op : BitVec 32)
    (reason priority : BitVec 8) : System :=
  s.emit (emitDenyRecord s.jiffies
    { srcDomain := byte (s.channels src).domain
      dstDomain := match dst with
        | some d => byte (s.channels d).domain
        | none => 0xFF#8
      srcChannel := BitVec.ofNat 8 src.val
      dstChannel := match dst with
        | some d => BitVec.ofNat 8 d.val
        | none => 0xFF#8
      protocol := byte (BitVec.ofInt 32 (s.channels src).socket.protocol)
      reason := reason
      priority := priority
      operation := op
      grantedCaps := (s.channels src).capMask
      requiredCaps := requiredCapsForOp op
      parentTaskId := match s.currentTask with
        | some t => t.parentTaskId
        | none => taskParentNone
      lineageDepth := match s.currentTask with
        | some t => lineageDepthOf s.table.tasks t
        | none => 0
      siblingCount := match s.currentTask with
        | some t => siblingCountOf s.table.tasks (s.table.current.getD 0) t
        | none => 0 })

end System

/-! ## The calls -/

/-- The range check on a channel number. -/
def channel? (id : Int) : Option ChannelId :=
  if h : 0 ≤ id ∧ id < 16 then some ⟨id.toNat, by omega⟩ else none

/-- The channel behind a number, if it is open. -/
def openChannel? (s : System) (id : Int) : Option ChannelId :=
  (channel? id).filter fun c => (s.channels c).inUse

/-- `init_ipc`. The sockets inside the channels keep their bytes. -/
def initIpc (s : System) : System :=
  { s with
    nng := nngInit s.nng
    channels := fun c =>
      { id := c.val
        inUse := false
        socket := (s.channels c).socket
        securityLevel := 0
        domain := 0
        capMask := 0
        ownerTaskId := 0 } }

/-- Whether a flow from one domain to another is authorised for a holder of `capMask`:
the condition of the cross-domain checks, with the equal-domain case in front. -/
def FlowAllowed (g : DomainGraph) (capMask src dst : BitVec 32) : Prop :=
  src = dst ∨ domainEdgeAllowed g src dst = true ∨ CrossesDomains capMask

instance (g : DomainGraph) (capMask src dst : BitVec 32) :
    Decidable (FlowAllowed g capMask src dst) :=
  inferInstanceAs (Decidable (_ ∨ _ ∨ _))

def chanCreateEvent (c : ChannelId) (ch : IpcChannel) : ChanCreate where
  channelId := BitVec.ofNat 32 c.val
  ownerTaskId := ch.ownerTaskId
  capMask := ch.capMask
  domain := ch.domain
  securityLevel := ch.securityLevel
  protocol := BitVec.ofInt 32 ch.socket.protocol

/-- The part of `ipc_create_channel` behind its two gates. -/
def openNewChannel (s : System) (task : Task) (securityLevel domain capMask : BitVec 32)
    (protocol : Int) : Int × System :=
  match Table.first? fun c => !(s.channels c).inUse with
  | none => (-1, s)
  | some c =>
      match nngSocketCreate s.nng protocol with
      | (.error _, nng) => (-2, { s with nng := nng })
      | (.ok sock, nng) =>
          let ch : IpcChannel :=
            { s.channels c with
              inUse := true
              socket := sock
              securityLevel := securityLevel
              domain := domain
              capMask := capMask
              ownerTaskId := task.taskId }
          (c.val,
            System.emit { s with nng := nng, channels := Function.update s.channels c ch }
              (emitChanCreateRecord s.jiffies (chanCreateEvent c ch)))

def ipcCreateChannel (s : System) (securityLevel domain capMask : BitVec 32) (protocol : Int) :
    Int × System :=
  match s.currentTask with
  | none => (-3, s)
  | some task =>
      if ¬Grants task.capMask capMask then
        (-4, s.emitCreateDeny task capMask domain 5 protocol)
      else if ¬FlowAllowed s.domains task.capMask task.domain domain then
        (-5, s.emitCreateDeny task capMask domain 6 protocol)
      else openNewChannel s task securityLevel domain capMask protocol

def ipcCloseChannel (s : System) (id : Int) : Int × System :=
  match channel? id with
  | none => (-1, s)
  | some c =>
      if (s.channels c).inUse = false then (-2, s)
      else
        match nngSocketClose s.nng (s.channels c).socket with
        | (.ok, sock, nng) =>
            (0, { s with
                  nng := nng
                  channels := Function.update s.channels c
                    { s.channels c with socket := sock, inUse := false } })
        | (_, sock, nng) =>
            (-3, { s with
                   nng := nng
                   channels := Function.update s.channels c { s.channels c with socket := sock } })

def chanConnectEvent (s : System) (src dst : ChannelId) : ChanConnect where
  srcChannelId := BitVec.ofNat 32 src.val
  srcDomain := (s.channels src).domain
  srcCapMask := (s.channels src).capMask
  srcProtocol := BitVec.ofInt 32 (s.channels src).socket.protocol
  dstChannelId := BitVec.ofNat 32 dst.val
  dstDomain := (s.channels dst).domain
  dstCapMask := (s.channels dst).capMask

def ipcConnect (s : System) (srcId dstId : Int) : Int × System :=
  match openChannel? s srcId, openChannel? s dstId with
  | some src, some dst =>
      if ¬FlowAllowed s.domains (s.channels src).capMask (s.channels src).domain
          (s.channels dst).domain then
        (Rv.eaccess.code, s.emitDeny src (some dst) 0 4 0)
      else
        match nngConnect s.nng (s.channels src).socket (s.channels dst).socket with
        | (.ok, nng) =>
            (0, System.emit { s with nng := nng }
              (emitChanConnectRecord s.jiffies (chanConnectEvent s src dst)))
        | (rv, nng) => (rv.code, { s with nng := nng })
  | _, _ => (-1, s)

/-- `msg->payload[MAX_MSG_SIZE - 1] = '\0'` and the checksum of what is left. -/
def sealMessage (m : Message) : Message :=
  let payload := Function.update m.payload 127 0
  { m with payload := payload, checksum := calculateChecksum (cString payload) }

/-- The channel context in `_padding1`. -/
def stampMessage (c : ChannelId) (ch : IpcChannel) (m : Message) : Message :=
  { m with
    padding1 := BitVec.ofNat 32 c.val ||| ((ch.domain &&& 0xFF#32) <<< 8) |||
      ((BitVec.ofInt 32 ch.socket.protocol &&& 0xFF#32) <<< 16) }

/-- The mirror of an outgoing message into `ipc_ring`. -/
def auditMessage (s : System) (c : ChannelId) (m : Message) : Message × System :=
  if s.auditor.enabled then
    let stamped := stampMessage c (s.channels c) m
    (stamped, { s with auditor := ringPush s.auditor stamped })
  else (m, s)

/-- The part of `ipc_send` behind its capability check. -/
def transmit (s : System) (c : ChannelId) (m : Message) : Int × Option Message × System :=
  let m := sealMessage m
  match lughMessageToNng s.nng.pool m with
  | (.error _, pool) => (-3, some m, { s with nng := { s.nng with pool := pool } })
  | (.ok nngMsg, pool) =>
      let (m, s) := auditMessage { s with nng := { s.nng with pool := pool } } c m
      match nngSend s.nng s.jiffies (s.channels c).socket nngMsg with
      | (.ok, nng) => (0, some m, { s with nng := nng })
      | (_, nng) => (-4, some m, { s with nng := nng })

/-- `ipc_send`, with the caller's message after the call. -/
def ipcSend (s : System) (id : Int) (msg : Option Message) : Int × Option Message × System :=
  match msg with
  | none => (-1, none, s)
  | some m =>
      match openChannel? s id with
      | none => (-2, some m, s)
      | some c =>
          let req := requiredCapsForOp m.operation
          if ¬Grants (s.channels c).capMask req then
            let reason : BitVec 8 := if req &&& capPrivilegedOp ≠ 0#32 then 3 else 1
            (-7, some m, s.emitDeny c none m.operation reason (m.priority.setWidth 8))
          else transmit s c m

/-- The part of `ipc_recv` behind the dequeue. -/
def unpack (s : System) (nngMsg : Nat) (out : Message) : Int × Option Message × System :=
  match nngMessageToLugh s.nng.pool nngMsg out with
  | (.ok, m) =>
      let s := { s with nng := s.nng.freeMsg nngMsg }
      if calculateChecksum (cString m.payload) ≠ m.checksum then (-6, some m, s)
      else (0, some m, s)
  | (_, m) => (-5, some m, { s with nng := s.nng.freeMsg nngMsg })

/-- `ipc_recv`, with the caller's buffer after the call. -/
def ipcRecv (s : System) (id : Int) (out : Option Message) (nonblock : Bool) :
    Int × Option Message × System :=
  match out with
  | none => (-1, none, s)
  | some out =>
      match openChannel? s id with
      | none => (-2, some out, s)
      | some c =>
          if (s.channels c).capMask &&& capIpcRecv = 0#32 then
            (-7, some out, s.emitDeny c none 0 2 0)
          else
            match nngRecv s.nng s.jiffies (s.channels c).socket with
            | (.error rv, nng) =>
                (if rv = .etimedout ∧ nonblock = true then -3 else -4, some out,
                  { s with nng := nng })
            | (.ok nngMsg, nng) => unpack { s with nng := nng } nngMsg out

/-- `create_task` with its telemetry. -/
def createTask (s : System) (spec : Option Task) : Int × Option Task × System :=
  match createTaskEntry s.table spec with
  | (rv, spec, none, table) => (rv, spec, { s with table := table })
  | (rv, spec, some child, table) =>
      (rv, spec, System.emit { s with table := table }
        (emitTaskCreateRecord s.jiffies (taskCreateEvent child)))

/-- `domain_edge_set` with its telemetry. -/
def setDomainEdge (s : System) (src dst : BitVec 32) : Int × System :=
  match domainEdgeSet s.domains src dst with
  | (0, g) =>
      (0, System.emit { s with domains := g } (emitDomainEdgeRecord s.jiffies ⟨src, dst, 1⟩))
  | (rv, g) => (rv, { s with domains := g })

/-! ## Runs -/

/-- The calls a run is made of. `switch` makes a table entry current, and `tick` lets time
pass. -/
inductive Op where
  | switch (position : Nat)
  | tick (ticks : BitVec 64)
  | createTask (spec : Option Task)
  | domainEdgeSet (src dst : BitVec 32)
  | domainEdgesSeal
  | ipcCreateChannel (securityLevel domain capMask : BitVec 32) (protocol : Int)
  | ipcCloseChannel (id : Int)
  | ipcConnect (src dst : Int)
  | ipcSend (id : Int) (msg : Option Message)
  | ipcRecv (id : Int) (out : Option Message) (nonblock : Bool)

def switchTo (s : System) (position : Nat) : System :=
  if position < s.table.tasks.length then
    { s with table := { s.table with current := some position } }
  else s

def step (s : System) : Op → System
  | .switch position => switchTo s position
  | .tick ticks => { s with jiffies := s.jiffies + ticks }
  | .createTask spec => (createTask s spec).2.2
  | .domainEdgeSet src dst => (setDomainEdge s src dst).2
  | .domainEdgesSeal => { s with domains := domainEdgesSeal s.domains }
  | .ipcCreateChannel level domain caps protocol =>
      (ipcCreateChannel s level domain caps protocol).2
  | .ipcCloseChannel id => (ipcCloseChannel s id).2
  | .ipcConnect src dst => (ipcConnect s src dst).2
  | .ipcSend id msg => (ipcSend s id msg).2.2
  | .ipcRecv id out nonblock => (ipcRecv s id out nonblock).2.2

/-- What the link layout, the memory contents and the boot choices leave open. -/
structure BootImage where
  mem : Mem
  regions : List MemRegion
  kernelStacks : BitVec 32
  auditorEnabled : Bool
  jiffies : BitVec 64

/-- The system after `memory_init`, `domain_edges_init`, `task_init` and `init_ipc` on
zeroed statics. -/
def boot (image : BootImage) : System :=
  initIpc
    { nng :=
        { pool :=
            { heap := ⟨image.mem, memoryInit, image.regions⟩
              msgSlots := fun _ => ⟨0, 0, false⟩ }
          recvQueues := fun _ => []
          sockState := fun _ => ⟨0, some 0, some 0, 0, false, []⟩
          socketPool := fun _ => ⟨some 0, 0, 0⟩
          pipes := fun _ => ⟨0, 0, false⟩ }
      channels := fun _ => ⟨0, false, ⟨some 0, 0, 0⟩, 0, 0, 0, 0⟩
      table := taskInit ⟨[], none, 1, image.kernelStacks⟩
      domains := domainEdgesInit
      auditor := ⟨image.auditorEnabled, [], 0, []⟩
      jiffies := image.jiffies }

/-- The handle of the socket at a position of the pool, as its creator holds it. -/
def socketAt (position : Nat) : NngSocket := ⟨some (Fin.ofNat 16 position), 0, 0⟩

/-- An entry of the zeroed pipe table. -/
def zeroPipe : Pipe := ⟨0, 0, false⟩

end LughOS.Kernel

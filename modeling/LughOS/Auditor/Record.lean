import LughOS.Library.Bytes

/-!
# Telemetry records

The fixed 44-byte record of `auditor.h` and the emitters of `exporter.c` for the
synchronous events. One layout serves all record types: each emitter reuses the
fields for its own arguments, and packs what is left into `payload_hash`, four
little-endian words at a time. An emitter is a function of the time stamp and of
its C arguments; the two that read `current_task` take it as an argument.

`toBytes` is the packed struct as it leaves for the serial port.
-/

namespace LughOS.Auditor

open Bytes

/-- The sixteen bytes of `payload_hash`. -/
structure PayloadHash where
  bytes : List Byte
  length_eq : bytes.length = 16

/-- `auditor_record_t`. -/
structure AuditorRecord where
  magic : BitVec 32
  version : BitVec 16
  recordType : BitVec 16
  jiffies : BitVec 64
  priority : BitVec 8
  srcDomain : BitVec 8
  protocol : BitVec 8
  channelId : BitVec 8
  operation : BitVec 32
  checksum : BitVec 32
  payloadHash : PayloadHash

/-- The packed struct, field by field. -/
def AuditorRecord.toBytes (r : AuditorRecord) : List Byte :=
  wordBytes 4 r.magic ++ wordBytes 2 r.version ++ wordBytes 2 r.recordType ++
    wordBytes 8 r.jiffies ++ wordBytes 1 r.priority ++ wordBytes 1 r.srcDomain ++
    wordBytes 1 r.protocol ++ wordBytes 1 r.channelId ++ wordBytes 4 r.operation ++
    wordBytes 4 r.checksum ++ r.payloadHash.bytes

def auditorMagic : BitVec 32 := 0x4C474849#32
def auditorTelemetryVersion : BitVec 16 := 2#16

inductive RecordType where
  | msg | overflow | heartbeat | deny | taskCreate | chanCreate | chanConnect | taskExit
  | domainEdge | fault | workflow
  deriving DecidableEq, Repr

/-- The `AUDITOR_REC_*` tags. -/
def RecordType.code : RecordType → Nat
  | .msg => 0
  | .overflow => 1
  | .heartbeat => 2
  | .deny => 3
  | .taskCreate => 4
  | .chanCreate => 5
  | .chanConnect => 6
  | .taskExit => 7
  | .domainEdge => 8
  | .fault => 9
  | .workflow => 10

/-- Four words, each written byte by byte with its low byte first. -/
def packWords (v₀ v₁ v₂ v₃ : BitVec 32) : PayloadHash where
  bytes := wordBytes 4 v₀ ++ wordBytes 4 v₁ ++ wordBytes 4 v₂ ++ wordBytes 4 v₃
  length_eq := by simp

/-- `init_record`. The fields it leaves alone are set by every emitter. -/
def initRecord (jiffies : BitVec 64) (type : RecordType) : AuditorRecord where
  magic := auditorMagic
  version := auditorTelemetryVersion
  recordType := BitVec.ofNat 16 type.code
  jiffies := jiffies
  priority := 0
  srcDomain := 0
  protocol := 0
  channelId := 0
  operation := 0
  checksum := 0
  payloadHash := packWords 0 0 0 0

/-- What the emitters read of `current_task`. -/
structure TaskIdentity where
  taskId : BitVec 32
  domain : BitVec 32
  deriving DecidableEq

/-! ## The emitters -/

structure ChanCreate where
  channelId : BitVec 32
  ownerTaskId : BitVec 32
  capMask : BitVec 32
  domain : BitVec 32
  securityLevel : BitVec 32
  protocol : BitVec 32
  deriving DecidableEq

def emitChanCreateRecord (jiffies : BitVec 64) (a : ChanCreate) : AuditorRecord :=
  { initRecord jiffies .chanCreate with
    priority := 0
    srcDomain := (a.domain &&& 0xFF#32).setWidth 8
    protocol := (a.protocol &&& 0xFF#32).setWidth 8
    channelId := (a.channelId &&& 0xFF#32).setWidth 8
    operation := a.capMask
    checksum := a.ownerTaskId
    payloadHash := packWords a.domain a.securityLevel 0 0 }

structure ChanConnect where
  srcChannelId : BitVec 32
  srcDomain : BitVec 32
  srcCapMask : BitVec 32
  srcProtocol : BitVec 32
  dstChannelId : BitVec 32
  dstDomain : BitVec 32
  dstCapMask : BitVec 32
  deriving DecidableEq

def emitChanConnectRecord (jiffies : BitVec 64) (a : ChanConnect) : AuditorRecord :=
  { initRecord jiffies .chanConnect with
    priority := 0
    srcDomain := (a.srcDomain &&& 0xFF#32).setWidth 8
    protocol := (a.srcProtocol &&& 0xFF#32).setWidth 8
    channelId := (a.srcChannelId &&& 0xFF#32).setWidth 8
    operation := a.dstChannelId
    checksum := a.dstDomain
    payloadHash := packWords a.srcCapMask a.dstCapMask 0 0 }

structure DomainEdge where
  srcDomain : BitVec 32
  dstDomain : BitVec 32
  added : BitVec 32
  deriving DecidableEq

def emitDomainEdgeRecord (jiffies : BitVec 64) (a : DomainEdge) : AuditorRecord :=
  { initRecord jiffies .domainEdge with
    priority := 0
    srcDomain := (a.srcDomain &&& 0xFF#32).setWidth 8
    protocol := 0
    channelId := (a.dstDomain &&& 0xFF#32).setWidth 8
    operation := a.srcDomain
    checksum := a.dstDomain
    payloadHash := packWords a.added 0 0 0 }

/-- The C argument `priority` is an `int`. -/
structure TaskCreate where
  taskId : BitVec 32
  parentTaskId : BitVec 32
  capMask : BitVec 32
  domain : BitVec 32
  priority : BitVec 32
  kernelStackTop : BitVec 32
  deriving DecidableEq

/-- A C `int` clamped into a byte. -/
def clampPriority (p : BitVec 32) : BitVec 8 :=
  if p.toInt < 0 then 0
  else if p.toInt > 255 then 255
  else p.setWidth 8

def emitTaskCreateRecord (jiffies : BitVec 64) (a : TaskCreate) : AuditorRecord :=
  { initRecord jiffies .taskCreate with
    priority := clampPriority a.priority
    srcDomain := (a.domain &&& 0xFF#32).setWidth 8
    protocol := 0
    channelId := 0
    operation := a.taskId
    checksum := a.parentTaskId
    payloadHash := packWords a.capMask a.domain a.kernelStackTop 0 }

structure TaskExit where
  taskId : BitVec 32
  exitCode : BitVec 32
  deriving DecidableEq

def emitTaskExitRecord (jiffies : BitVec 64) (a : TaskExit) : AuditorRecord :=
  { initRecord jiffies .taskExit with
    priority := 0
    srcDomain := 0
    protocol := 0
    channelId := 0
    operation := a.taskId
    checksum := a.exitCode
    payloadHash := packWords 0 0 0 0 }

structure Fault where
  faultPc : BitVec 32
  dfar : BitVec 32
  dfsr : BitVec 32
  spsr : BitVec 32
  faultType : BitVec 8
  deriving DecidableEq

/-- The identifier and domain byte stamped when there may be no current task. -/
def currentTaskId (current : Option TaskIdentity) : BitVec 32 :=
  match current with
  | some task => task.taskId
  | none => 0

def currentDomain (current : Option TaskIdentity) : BitVec 8 :=
  match current with
  | some task => (task.domain &&& 0xFF#32).setWidth 8
  | none => 0

def emitFaultRecord (jiffies : BitVec 64) (current : Option TaskIdentity) (a : Fault) :
    AuditorRecord :=
  { initRecord jiffies .fault with
    priority := 0
    srcDomain := currentDomain current
    protocol := a.faultType
    channelId := 0
    operation := a.faultPc
    checksum := a.dfar
    payloadHash := packWords a.dfsr a.spsr (currentTaskId current) 0 }

structure WorkflowStep where
  workflowId : BitVec 64
  ownerTaskId : BitVec 32
  stepIndex : BitVec 32
  status : BitVec 32
  doneCount : BitVec 32
  stepRv : BitVec 32
  event : BitVec 8
  deriving DecidableEq

def emitWorkflowRecord (jiffies : BitVec 64) (current : Option TaskIdentity) (a : WorkflowStep) :
    AuditorRecord :=
  { initRecord jiffies .workflow with
    priority := 0
    srcDomain := currentDomain current
    protocol := a.event
    channelId := (a.stepIndex &&& 0xFF#32).setWidth 8
    operation := (a.workflowId &&& 0xFFFFFFFF#64).setWidth 32
    checksum := ((a.workflowId >>> 32) &&& 0xFFFFFFFF#64).setWidth 32
    payloadHash := packWords a.ownerTaskId a.status a.doneCount a.stepRv }

/-- `auditor_deny_info_t` without its padding. -/
structure DenyInfo where
  srcDomain : BitVec 8
  dstDomain : BitVec 8
  srcChannel : BitVec 8
  dstChannel : BitVec 8
  protocol : BitVec 8
  reason : BitVec 8
  priority : BitVec 8
  operation : BitVec 32
  grantedCaps : BitVec 32
  requiredCaps : BitVec 32
  parentTaskId : BitVec 32
  lineageDepth : BitVec 8
  siblingCount : BitVec 8
  deriving DecidableEq

def taskParentNone : BitVec 32 := 0xFFFFFFFF#32

/-- The diagnostics a denial packs into `payload_hash`. -/
def denyPayload (info : DenyInfo) : PayloadHash where
  bytes :=
    let dst : BitVec 32 :=
      if info.dstChannel = 0xFF#8 then 0xFFFFFFFF#32 else info.dstChannel.setWidth 32
    let parent24 := info.parentTaskId &&& 0x00FFFFFF#32
    let depth := info.lineageDepth &&& 0x0F#8
    let sibs := info.siblingCount &&& 0x0F#8
    wordBytes 4 info.grantedCaps ++ wordBytes 4 info.requiredCaps ++ wordBytes 4 dst ++
      wordBytes 3 parent24 ++ [(depth <<< 4) ||| sibs]
  length_eq := by simp

/-- The record `auditor_deny` writes. -/
def emitDenyRecord (jiffies : BitVec 64) (info : DenyInfo) : AuditorRecord :=
  { initRecord jiffies .deny with
    priority := info.priority
    srcDomain := info.srcDomain
    protocol := info.protocol
    channelId := info.srcChannel
    operation := info.operation
    checksum := info.reason.setWidth 32 ||| (info.dstDomain.setWidth 32 <<< 8) |||
      (info.dstChannel.setWidth 32 <<< 16)
    payloadHash := denyPayload info }

end LughOS.Auditor

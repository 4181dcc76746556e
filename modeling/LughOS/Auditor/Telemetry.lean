import LughOS.Auditor.Record

/-!
# Reading telemetry back

The decoder of `scripts/read_telemetry.py`, over unbounded numbers as Python has
them. `parseRecord` is `struct.unpack` with the format `<IHHQBBBBII16s`, followed
by the rendering of the last field as hexadecimal text; the decoders turn the text
back into bytes and extract the fields of one record type.

Packing and unpacking are written independently of each other. Each round trip
says what a decoder returns on the bytes of an emitter, for every argument.
-/

namespace LughOS.Auditor

open Bytes

/-- The dictionary `parse_record` returns. -/
structure Parsed where
  magic : Nat
  version : Nat
  type : Nat
  jiffies : Nat
  priority : Nat
  srcDomain : Nat
  protocol : Nat
  channelId : Nat
  operation : Nat
  checksum : Nat
  payloadHash : List Char

/-- `parse_record`; `struct.unpack` refuses any other length. -/
def parseRecord (raw : List Byte) : Option Parsed :=
  if raw.length = 44 then
    some
      { magic := ofBytes (raw.take 4)
        version := ofBytes ((raw.drop 4).take 2)
        type := ofBytes ((raw.drop 6).take 2)
        jiffies := ofBytes ((raw.drop 8).take 8)
        priority := ofBytes ((raw.drop 16).take 1)
        srcDomain := ofBytes ((raw.drop 17).take 1)
        protocol := ofBytes ((raw.drop 18).take 1)
        channelId := ofBytes ((raw.drop 19).take 1)
        operation := ofBytes ((raw.drop 20).take 4)
        checksum := ofBytes ((raw.drop 24).take 4)
        payloadHash := toHex (raw.drop 28) }
  else none

/-- `_unpack_le32`. -/
def unpackLe32 (data : List Byte) (offset : Nat) : Nat := ofBytes ((data.drop offset).take 4)

/-- `_unpack_le32` on the payload of a parsed record. -/
def Parsed.word (r : Parsed) (offset : Nat) : Nat := unpackLe32 (ofHex r.payloadHash) offset

/-! ## Field extraction

One reader for each branch of `format_record` that concerns a synchronous event.
`FAULT` has no branch there; its words are read with the same helpers. -/

structure TaskCreateFields where
  taskId : Nat
  parentId : Nat
  capMask : Nat
  fullDomain : Nat
  priority : Nat
  stackTop : Nat

def readTaskCreate (r : Parsed) : Option TaskCreateFields :=
  if r.type = 4 then
    some
      { capMask := r.word 0
        fullDomain := r.word 4
        stackTop := r.word 8
        taskId := r.operation
        parentId := r.checksum
        priority := r.priority }
  else none

structure TaskExitFields where
  taskId : Nat
  exitCode : Int

def readTaskExit (r : Parsed) : Option TaskExitFields :=
  if r.type = 7 then
    some
      { taskId := r.operation
        exitCode :=
          if r.checksum &&& 0x80000000 ≠ 0 then (r.checksum : Int) - 0x100000000 else r.checksum }
  else none

structure ChanCreateFields where
  channelId : Nat
  ownerTask : Nat
  capMask : Nat
  fullDomain : Nat
  secLevel : Nat
  protocol : Nat

def readChanCreate (r : Parsed) : Option ChanCreateFields :=
  if r.type = 5 then
    some
      { fullDomain := r.word 0
        secLevel := r.word 4
        ownerTask := r.checksum
        capMask := r.operation
        channelId := r.channelId
        protocol := r.protocol }
  else none

structure ChanConnectFields where
  srcChannel : Nat
  srcDomain : Nat
  srcProtocol : Nat
  srcCaps : Nat
  dstChannel : Nat
  dstDomain : Nat
  dstCaps : Nat

def readChanConnect (r : Parsed) : Option ChanConnectFields :=
  if r.type = 6 then
    some
      { srcCaps := r.word 0
        dstCaps := r.word 4
        dstChannel := r.operation
        dstDomain := r.checksum
        srcChannel := r.channelId
        srcDomain := r.srcDomain
        srcProtocol := r.protocol }
  else none

structure DomainEdgeFields where
  srcDomain : Nat
  dstDomain : Nat
  added : Nat

def readDomainEdge (r : Parsed) : Option DomainEdgeFields :=
  if r.type = 8 then
    some { added := r.word 0, srcDomain := r.operation, dstDomain := r.checksum }
  else none

structure FaultFields where
  faultPc : Nat
  dfar : Nat
  dfsr : Nat
  spsr : Nat
  taskId : Nat
  faultType : Nat

def readFault (r : Parsed) : Option FaultFields :=
  if r.type = 9 then
    some
      { dfsr := r.word 0
        spsr := r.word 4
        taskId := r.word 8
        faultPc := r.operation
        dfar := r.checksum
        faultType := r.protocol }
  else none

structure WorkflowFields where
  workflowId : Nat
  owner : Nat
  step : Nat
  status : Nat
  done : Nat
  rv : Int
  event : Nat

def readWorkflow (r : Parsed) : Option WorkflowFields :=
  if r.type = 10 then
    some
      { workflowId := (r.checksum <<< 32) ||| r.operation
        owner := r.word 0
        status := r.word 4
        done := r.word 8
        rv := if r.word 12 ≥ 2 ^ 31 then (r.word 12 : Int) - 2 ^ 32 else r.word 12
        event := r.protocol
        step := r.channelId }
  else none

structure DenyFields where
  priority : Nat
  srcDomain : Nat
  protocol : Nat
  channelId : Nat
  operation : Nat
  reason : Nat
  dstDomain : Nat
  dstChannel : Option Nat
  granted : Nat
  required : Nat
  parentId : Nat
  lineageDepth : Nat
  siblingCount : Nat

/-- One byte of the payload. -/
def Parsed.payloadByte (r : Parsed) (i : Nat) : Nat := ((ofHex r.payloadHash).getD i 0).toNat

def readDeny (r : Parsed) : Option DenyFields :=
  if r.type = 3 then
    let dstCh32 := r.word 8
    let parent24 := r.payloadByte 12 ||| (r.payloadByte 13 <<< 8) ||| (r.payloadByte 14 <<< 16)
    let depthByte := r.payloadByte 15
    some
      { priority := r.priority
        srcDomain := r.srcDomain
        protocol := r.protocol
        channelId := r.channelId
        operation := r.operation
        reason := r.checksum &&& 0xFF
        dstDomain := (r.checksum >>> 8) &&& 0xFF
        dstChannel := if dstCh32 = 0xFFFFFFFF then none else some dstCh32
        granted := r.word 0
        required := r.word 4
        parentId := if parent24 = 0xFFFFFF then taskParentNone.toNat else parent24
        lineageDepth := (depthByte >>> 4) &&& 0x0F
        siblingCount := depthByte &&& 0x0F }
  else none

/-! ## Parsing a packed record -/

theorem length_toBytes (r : AuditorRecord) : r.toBytes.length = 44 := by
  simp [AuditorRecord.toBytes, r.payloadHash.length_eq]

/-- What parsing should return for a record. -/
def AuditorRecord.parsed (r : AuditorRecord) : Parsed where
  magic := r.magic.toNat
  version := r.version.toNat
  type := r.recordType.toNat
  jiffies := r.jiffies.toNat
  priority := r.priority.toNat
  srcDomain := r.srcDomain.toNat
  protocol := r.protocol.toNat
  channelId := r.channelId.toNat
  operation := r.operation.toNat
  checksum := r.checksum.toNat
  payloadHash := toHex r.payloadHash.bytes

/-- Parsing the packed struct returns every field. -/
theorem parseRecord_toBytes (r : AuditorRecord) : parseRecord r.toBytes = some r.parsed := by
  rw [parseRecord, if_pos (length_toBytes r)]
  simp [AuditorRecord.toBytes, AuditorRecord.parsed, List.drop_append, ofBytes_wordBytes_of_le]

theorem word_parsed (r : AuditorRecord) (offset : Nat) :
    r.parsed.word offset = unpackLe32 r.payloadHash.bytes offset := by
  simp [Parsed.word, AuditorRecord.parsed]

/-- The words of a packed payload, as the decoder finds them. -/
theorem unpackLe32_packWords (v₀ v₁ v₂ v₃ : BitVec 32) :
    unpackLe32 (packWords v₀ v₁ v₂ v₃).bytes 0 = v₀.toNat ∧
      unpackLe32 (packWords v₀ v₁ v₂ v₃).bytes 4 = v₁.toNat ∧
      unpackLe32 (packWords v₀ v₁ v₂ v₃).bytes 8 = v₂.toNat ∧
      unpackLe32 (packWords v₀ v₁ v₂ v₃).bytes 12 = v₃.toNat := by
  simp [unpackLe32, packWords, List.drop_append, List.take_of_length_le, ofBytes_wordBytes_of_le]

/-- The low byte an emitter keeps of a word. -/
theorem toNat_lowByte (v : BitVec 32) :
    ((v &&& 0xFF#32).setWidth 8).toNat = v.toNat % 256 := by
  have mask : v.toNat &&& 255 = v.toNat % 256 := Nat.and_two_pow_sub_one_eq_mod v.toNat 8
  rw [BitVec.toNat_setWidth, BitVec.toNat_and]
  change (v.toNat &&& 255) % 256 = _
  rw [mask, Nat.mod_mod]

theorem signBit_iff {n : Nat} (small : n < 2 ^ 32) : n &&& 0x80000000 ≠ 0 ↔ n ≥ 2 ^ 31 := by
  have bit : n &&& 0x80000000 = (n.testBit 31).toNat * 2 ^ 31 := Nat.and_two_pow n 31
  have high : n.testBit 31 = decide (n / 2 ^ 31 % 2 = 1) := Nat.testBit_eq_decide_div_mod_eq
  rw [bit, high]
  by_cases set : n / 2 ^ 31 % 2 = 1
  · simp only [set, decide_true, Bool.toNat_true]
    omega
  · simp only [set, decide_false, Bool.toNat_false]
    omega

/-- The unsigned word of a C `int`, read as a signed number. -/
theorem signed_toNat (v : BitVec 32) :
    (if v.toNat ≥ 2 ^ 31 then (v.toNat : Int) - 2 ^ 32 else (v.toNat : Int)) = v.toInt := by
  have := v.isLt
  rw [BitVec.toInt_eq_toNat_cond]
  split <;> split <;> omega

/-! ## Round trips -/

/-- Reading the bytes of an emitter returns the view of its arguments. -/
def RoundTrips {α β : Type} (emit : BitVec 64 → α → AuditorRecord) (inRange : α → Prop)
    (read : Parsed → Option β) (view : α → β) : Prop :=
  ∀ jiffies a, inRange a → (parseRecord (emit jiffies a).toBytes).bind read = some (view a)

/-- Arguments in range with different keys never give the same bytes at one time. -/
def Distinct {α κ : Type} (emit : BitVec 64 → α → AuditorRecord) (inRange : α → Prop)
    (key : α → κ) : Prop :=
  ∀ jiffies a b, inRange a → inRange b →
    (emit jiffies a).toBytes = (emit jiffies b).toBytes → key a = key b

theorem RoundTrips.distinct {α β κ : Type} {emit : BitVec 64 → α → AuditorRecord}
    {inRange : α → Prop} {read : Parsed → Option β} {view : α → β} {key : α → κ}
    (roundTrips : RoundTrips emit inRange read view)
    (view_key : ∀ a b, inRange a → inRange b → view a = view b → key a = key b) :
    Distinct emit inRange key := by
  intro jiffies a b ha hb same
  have read_a := roundTrips jiffies a ha
  rw [same, roundTrips jiffies b hb] at read_a
  exact view_key a b ha hb (Option.some.inj read_a).symm

def TaskCreate.view (a : TaskCreate) : TaskCreateFields where
  taskId := a.taskId.toNat
  parentId := a.parentTaskId.toNat
  capMask := a.capMask.toNat
  fullDomain := a.domain.toNat
  priority := (max 0 (min a.priority.toInt 255)).toNat
  stackTop := a.kernelStackTop.toNat

theorem toNat_clampPriority (p : BitVec 32) :
    (clampPriority p).toNat = (max 0 (min p.toInt 255)).toNat := by
  have int_eq := BitVec.toInt_eq_toNat_cond p
  have bound := p.isLt
  unfold clampPriority
  split
  · have : (0 : BitVec 8).toNat = 0 := rfl
    omega
  · split
    · have : (255 : BitVec 8).toNat = 255 := rfl
      omega
    · rw [BitVec.toNat_setWidth]
      split at int_eq <;> omega

theorem taskCreate_roundTrips :
    RoundTrips emitTaskCreateRecord (fun _ => True) readTaskCreate TaskCreate.view := by
  intro jiffies a _
  obtain ⟨w₀, w₁, w₂, -⟩ := unpackLe32_packWords a.capMask a.domain a.kernelStackTop 0
  rw [parseRecord_toBytes, Option.bind_some, readTaskCreate, if_pos (by rfl)]
  simp only [word_parsed, TaskCreate.view, Option.some.injEq, TaskCreateFields.mk.injEq]
  exact ⟨rfl, rfl, w₀, w₁, toNat_clampPriority a.priority, w₂⟩

theorem TaskCreate.view_inj {a b : TaskCreate} (ha : 0 ≤ a.priority.toInt ∧ a.priority.toInt ≤ 255)
    (hb : 0 ≤ b.priority.toInt ∧ b.priority.toInt ≤ 255) (same : a.view = b.view) : a = b := by
  cases a
  cases b
  simp only [TaskCreate.view, TaskCreateFields.mk.injEq, BitVec.toNat_inj] at same ha hb ⊢
  obtain ⟨rfl, rfl, rfl, rfl, prio, rfl⟩ := same
  simp only [TaskCreate.mk.injEq, true_and, and_true]
  exact BitVec.eq_of_toInt_eq (by omega)

def TaskExit.view (a : TaskExit) : TaskExitFields where
  taskId := a.taskId.toNat
  exitCode := a.exitCode.toInt

theorem taskExit_roundTrips :
    RoundTrips emitTaskExitRecord (fun _ => True) readTaskExit TaskExit.view := by
  intro jiffies a _
  rw [parseRecord_toBytes, Option.bind_some, readTaskExit, if_pos (by rfl)]
  simp only [TaskExit.view, Option.some.injEq, TaskExitFields.mk.injEq]
  refine ⟨rfl, ?_⟩
  change (if a.exitCode.toNat &&& 0x80000000 ≠ 0 then (a.exitCode.toNat : Int) - 0x100000000
    else (a.exitCode.toNat : Int)) = _
  simp only [signBit_iff a.exitCode.isLt]
  exact signed_toNat a.exitCode

theorem TaskExit.view_inj {a b : TaskExit} (same : a.view = b.view) : a = b := by
  cases a
  cases b
  simp only [TaskExit.view, TaskExitFields.mk.injEq, BitVec.toNat_inj, BitVec.toInt_inj] at same
  rw [same.1, same.2]

/-- The channel and the protocol of a new channel fit into a byte. -/
def ChanCreate.InRange (a : ChanCreate) : Prop :=
  a.channelId.toNat < 256 ∧ a.protocol.toNat < 256

def ChanCreate.view (a : ChanCreate) : ChanCreateFields where
  channelId := a.channelId.toNat
  ownerTask := a.ownerTaskId.toNat
  capMask := a.capMask.toNat
  fullDomain := a.domain.toNat
  secLevel := a.securityLevel.toNat
  protocol := a.protocol.toNat

theorem chanCreate_roundTrips :
    RoundTrips emitChanCreateRecord ChanCreate.InRange readChanCreate ChanCreate.view := by
  intro jiffies a ⟨channel, protocol⟩
  obtain ⟨w₀, w₁, -, -⟩ := unpackLe32_packWords a.domain a.securityLevel 0 0
  rw [parseRecord_toBytes, Option.bind_some, readChanCreate, if_pos (by rfl)]
  simp only [word_parsed, ChanCreate.view, Option.some.injEq, ChanCreateFields.mk.injEq]
  exact ⟨(toNat_lowByte a.channelId).trans (Nat.mod_eq_of_lt channel), rfl, rfl, w₀, w₁,
    (toNat_lowByte a.protocol).trans (Nat.mod_eq_of_lt protocol)⟩

theorem ChanCreate.view_inj {a b : ChanCreate} (same : a.view = b.view) : a = b := by
  cases a
  cases b
  simp only [ChanCreate.view, ChanCreateFields.mk.injEq, BitVec.toNat_inj] at same
  obtain ⟨rfl, rfl, rfl, rfl, rfl, rfl⟩ := same
  rfl

/-- The source domain and protocol keep their low byte only. -/
def ChanConnect.view (a : ChanConnect) : ChanConnectFields where
  srcChannel := a.srcChannelId.toNat
  srcDomain := a.srcDomain.toNat % 256
  srcProtocol := a.srcProtocol.toNat % 256
  srcCaps := a.srcCapMask.toNat
  dstChannel := a.dstChannelId.toNat
  dstDomain := a.dstDomain.toNat
  dstCaps := a.dstCapMask.toNat

theorem chanConnect_roundTrips :
    RoundTrips emitChanConnectRecord (fun a => a.srcChannelId.toNat < 256) readChanConnect
      ChanConnect.view := by
  intro jiffies a source
  obtain ⟨w₀, w₁, -, -⟩ := unpackLe32_packWords a.srcCapMask a.dstCapMask 0 0
  rw [parseRecord_toBytes, Option.bind_some, readChanConnect, if_pos (by rfl)]
  simp only [word_parsed, ChanConnect.view, Option.some.injEq, ChanConnectFields.mk.injEq]
  exact ⟨(toNat_lowByte a.srcChannelId).trans (Nat.mod_eq_of_lt source),
    toNat_lowByte a.srcDomain, toNat_lowByte a.srcProtocol, w₀, rfl, rfl, w₁⟩

/-- What two connections must share to be told apart by nothing. -/
def ChanConnect.key (a : ChanConnect) : List (BitVec 32) :=
  [a.srcChannelId, a.dstChannelId, a.dstDomain, a.srcCapMask, a.dstCapMask]

theorem ChanConnect.key_eq {a b : ChanConnect} (same : a.view = b.view) : a.key = b.key := by
  simp only [ChanConnect.view, ChanConnectFields.mk.injEq, BitVec.toNat_inj] at same
  obtain ⟨src, -, -, src_caps, dst, dst_domain, dst_caps⟩ := same
  rw [ChanConnect.key, src, dst, dst_domain, src_caps, dst_caps, ChanConnect.key]

def DomainEdge.view (a : DomainEdge) : DomainEdgeFields where
  srcDomain := a.srcDomain.toNat
  dstDomain := a.dstDomain.toNat
  added := a.added.toNat

theorem domainEdge_roundTrips :
    RoundTrips emitDomainEdgeRecord (fun _ => True) readDomainEdge DomainEdge.view := by
  intro jiffies a _
  obtain ⟨w₀, -⟩ := unpackLe32_packWords a.added 0 0 0
  rw [parseRecord_toBytes, Option.bind_some, readDomainEdge, if_pos (by rfl)]
  simp only [word_parsed, DomainEdge.view, Option.some.injEq, DomainEdgeFields.mk.injEq]
  exact ⟨rfl, rfl, w₀⟩

theorem DomainEdge.view_inj {a b : DomainEdge} (same : a.view = b.view) : a = b := by
  cases a
  cases b
  simp only [DomainEdge.view, DomainEdgeFields.mk.injEq, BitVec.toNat_inj] at same
  obtain ⟨rfl, rfl, rfl⟩ := same
  rfl

/-- A fault with the task that was current. -/
def Fault.view (a : Option TaskIdentity × Fault) : FaultFields where
  faultPc := a.2.faultPc.toNat
  dfar := a.2.dfar.toNat
  dfsr := a.2.dfsr.toNat
  spsr := a.2.spsr.toNat
  taskId := (currentTaskId a.1).toNat
  faultType := a.2.faultType.toNat

theorem fault_roundTrips :
    RoundTrips (fun j a => emitFaultRecord j a.1 a.2) (fun _ => True) readFault Fault.view := by
  intro jiffies a _
  obtain ⟨w₀, w₁, w₂, -⟩ := unpackLe32_packWords a.2.dfsr a.2.spsr (currentTaskId a.1) 0
  rw [parseRecord_toBytes, Option.bind_some, readFault, if_pos (by rfl)]
  simp only [word_parsed, Fault.view, Option.some.injEq, FaultFields.mk.injEq]
  exact ⟨rfl, rfl, w₀, w₁, w₂, rfl⟩

theorem Fault.view_inj {a b : Option TaskIdentity × Fault} (same : Fault.view a = Fault.view b) :
    (currentTaskId a.1, a.2) = (currentTaskId b.1, b.2) := by
  obtain ⟨current, fault⟩ := a
  obtain ⟨current', fault'⟩ := b
  cases fault
  cases fault'
  simp only [Fault.view, FaultFields.mk.injEq, BitVec.toNat_inj] at same
  obtain ⟨rfl, rfl, rfl, rfl, task, rfl⟩ := same
  rw [task]

def WorkflowStep.view (a : Option TaskIdentity × WorkflowStep) : WorkflowFields where
  workflowId := a.2.workflowId.toNat
  owner := a.2.ownerTaskId.toNat
  step := a.2.stepIndex.toNat
  status := a.2.status.toNat
  done := a.2.doneCount.toNat
  rv := a.2.stepRv.toInt
  event := a.2.event.toNat

/-- The two halves of a 64-bit identifier, put together again. -/
theorem join_halves (v : BitVec 64) :
    (((v >>> 32) &&& 0xFFFFFFFF#64).setWidth 32).toNat <<< 32 |||
      ((v &&& 0xFFFFFFFF#64).setWidth 32).toNat = v.toNat := by
  have bound := v.isLt
  have mask (n : Nat) : n &&& 4294967295 = n % 4294967296 := Nat.and_two_pow_sub_one_eq_mod n 32
  have low : ((v &&& 0xFFFFFFFF#64).setWidth 32).toNat = v.toNat % 4294967296 := by
    rw [BitVec.toNat_setWidth, BitVec.toNat_and]
    change (v.toNat &&& 4294967295) % 4294967296 = _
    rw [mask, Nat.mod_mod]
  have high : (((v >>> 32) &&& 0xFFFFFFFF#64).setWidth 32).toNat = v.toNat / 4294967296 := by
    rw [BitVec.toNat_setWidth, BitVec.toNat_and, BitVec.toNat_ushiftRight]
    change (v.toNat >>> 32 &&& 4294967295) % 4294967296 = _
    rw [mask, Nat.shiftRight_eq_div_pow]
    omega
  rw [low, high, Nat.lor_comm, or_shiftLeft (by omega)]
  omega

theorem workflow_roundTrips :
    RoundTrips (fun j a => emitWorkflowRecord j a.1 a.2) (fun a => a.2.stepIndex.toNat < 256)
      readWorkflow WorkflowStep.view := by
  intro jiffies a step
  obtain ⟨w₀, w₁, w₂, w₃⟩ :=
    unpackLe32_packWords a.2.ownerTaskId a.2.status a.2.doneCount a.2.stepRv
  rw [parseRecord_toBytes, Option.bind_some, readWorkflow, if_pos (by rfl)]
  simp only [word_parsed, WorkflowStep.view, Option.some.injEq, WorkflowFields.mk.injEq]
  refine ⟨join_halves a.2.workflowId, w₀,
    (toNat_lowByte a.2.stepIndex).trans (Nat.mod_eq_of_lt step), w₁, w₂, ?_, rfl⟩
  have rv_eq : unpackLe32 (emitWorkflowRecord jiffies a.1 a.2).payloadHash.bytes 12 =
    a.2.stepRv.toNat := w₃
  rw [rv_eq]
  exact signed_toNat a.2.stepRv

theorem WorkflowStep.view_inj {a b : Option TaskIdentity × WorkflowStep}
    (same : WorkflowStep.view a = WorkflowStep.view b) : a.2 = b.2 := by
  obtain ⟨current, step⟩ := a
  obtain ⟨current', step'⟩ := b
  cases step
  cases step'
  simp only [WorkflowStep.view, WorkflowFields.mk.injEq, BitVec.toNat_inj, BitVec.toInt_inj] at same
  obtain ⟨rfl, rfl, rfl, rfl, rfl, rfl, rfl⟩ := same
  rfl

/-! ## Denials -/

/-- The lineage of a denial survives its packing. -/
structure DenyInfo.InRange (info : DenyInfo) : Prop where
  parent : info.parentTaskId.toNat < 2 ^ 24 - 1 ∨ info.parentTaskId = taskParentNone
  depth : info.lineageDepth.toNat ≤ 15
  siblings : info.siblingCount.toNat ≤ 15

def DenyInfo.view (info : DenyInfo) : DenyFields where
  priority := info.priority.toNat
  srcDomain := info.srcDomain.toNat
  protocol := info.protocol.toNat
  channelId := info.srcChannel.toNat
  operation := info.operation.toNat
  reason := info.reason.toNat
  dstDomain := info.dstDomain.toNat
  dstChannel := if info.dstChannel = 0xFF#8 then none else some info.dstChannel.toNat
  granted := info.grantedCaps.toNat
  required := info.requiredCaps.toNat
  parentId := info.parentTaskId.toNat
  lineageDepth := info.lineageDepth.toNat
  siblingCount := info.siblingCount.toNat

/-- The deny context, as a number with one digit per byte. -/
theorem toNat_denyChecksum (reason domain channel : BitVec 8) :
    (reason.setWidth 32 ||| (domain.setWidth 32 <<< 8) ||| (channel.setWidth 32 <<< 16)).toNat =
      reason.toNat + 256 * domain.toNat + 65536 * channel.toNat := by
  have hr := reason.isLt
  have hd := domain.isLt
  have hc := channel.isLt
  have mid : (domain.setWidth 32 <<< 8).toNat = domain.toNat <<< 8 := by
    rw [BitVec.toNat_shiftLeft, BitVec.toNat_setWidth, Nat.shiftLeft_eq]
    omega
  have top : (channel.setWidth 32 <<< 16).toNat = channel.toNat <<< 16 := by
    rw [BitVec.toNat_shiftLeft, BitVec.toNat_setWidth, Nat.shiftLeft_eq]
    omega
  rw [BitVec.toNat_or, BitVec.toNat_or, BitVec.toNat_setWidth, mid, top,
    Nat.mod_eq_of_lt (by omega), or_shiftLeft hr, or_shiftLeft (by omega)]
  norm_num

/-- The three words of a denial's payload. -/
theorem unpackLe32_denyPayload (info : DenyInfo) :
    unpackLe32 (denyPayload info).bytes 0 = info.grantedCaps.toNat ∧
      unpackLe32 (denyPayload info).bytes 4 = info.requiredCaps.toNat ∧
      unpackLe32 (denyPayload info).bytes 8 = (if info.dstChannel = 0xFF#8 then 0xFFFFFFFF#32
        else info.dstChannel.setWidth 32).toNat := by
  simp [unpackLe32, denyPayload, List.drop_append, ofBytes_wordBytes_of_le]

/-- Its last four bytes: the parent in three, the two nibbles in one. -/
theorem getD_denyPayload (info : DenyInfo) :
    let parent24 := info.parentTaskId &&& 0x00FFFFFF#32
    (denyPayload info).bytes.getD 12 0 = parent24.setWidth 8 ∧
      (denyPayload info).bytes.getD 13 0 = (parent24 >>> 8).setWidth 8 ∧
      (denyPayload info).bytes.getD 14 0 = (parent24 >>> 16).setWidth 8 ∧
      (denyPayload info).bytes.getD 15 0 =
        ((info.lineageDepth &&& 0x0F#8) <<< 4) ||| (info.siblingCount &&& 0x0F#8) := by
  refine ⟨?_, ?_, ?_, ?_⟩ <;> rfl

theorem and_255 (n : Nat) : n &&& 0xFF = n % 256 := Nat.and_two_pow_sub_one_eq_mod n 8

theorem and_15 (n : Nat) : n &&& 0x0F = n % 16 := Nat.and_two_pow_sub_one_eq_mod n 4

/-- The 24 bits kept of the parent, and the sentinel lifted again. -/
theorem parent_roundTrips (parent : BitVec 32)
    (fits : parent.toNat < 2 ^ 24 - 1 ∨ parent = taskParentNone) :
    let parent24 := parent &&& 0x00FFFFFF#32
    let read := (parent24.setWidth 8).toNat ||| (((parent24 >>> 8).setWidth 8).toNat <<< 8) |||
      (((parent24 >>> 16).setWidth 8).toNat <<< 16)
    (if read = 0xFFFFFF then taskParentNone.toNat else read) = parent.toNat := by
  intro parent24 read
  have kept : parent24.toNat = parent.toNat % 2 ^ 24 :=
    (BitVec.toNat_and ..).trans (Nat.and_two_pow_sub_one_eq_mod parent.toNat 24)
  have read_eq : read = parent.toNat % 2 ^ 24 := by
    simp only [read, BitVec.toNat_setWidth, BitVec.toNat_ushiftRight, Nat.shiftRight_eq_div_pow,
      kept]
    have inner := or_shiftLeft (i := 8) (Nat.mod_lt (parent.toNat % 2 ^ 24) (by decide))
      (parent.toNat % 2 ^ 24 / 2 ^ 8 % 2 ^ 8)
    rw [inner, or_shiftLeft (by omega)]
    omega
  rcases fits with small | rfl
  · rw [read_eq, Nat.mod_eq_of_lt (by omega), if_neg (by omega)]
  · rw [read_eq]
    rfl

/-- Two nibbles in one byte. -/
theorem lineage_roundTrips {depth sibs : BitVec 8} (depth_le : depth.toNat ≤ 15)
    (sibs_le : sibs.toNat ≤ 15) :
    let byte := ((depth &&& 0x0F#8) <<< 4) ||| (sibs &&& 0x0F#8)
    (byte.toNat >>> 4) &&& 0x0F = depth.toNat ∧ byte.toNat &&& 0x0F = sibs.toNat := by
  intro byte
  have depth_eq : (depth &&& 0x0F#8).toNat = depth.toNat :=
    ((BitVec.toNat_and ..).trans (and_15 _)).trans (Nat.mod_eq_of_lt (by omega))
  have sibs_eq : (sibs &&& 0x0F#8).toNat = sibs.toNat :=
    ((BitVec.toNat_and ..).trans (and_15 _)).trans (Nat.mod_eq_of_lt (by omega))
  have byte_eq : byte.toNat = sibs.toNat + 16 * depth.toNat := by
    have high : ((depth &&& 0x0F#8) <<< 4).toNat = depth.toNat <<< 4 := by
      rw [BitVec.toNat_shiftLeft, depth_eq, Nat.shiftLeft_eq]
      omega
    simp only [byte, BitVec.toNat_or, high, sibs_eq]
    rw [Nat.lor_comm, or_shiftLeft (by omega)]
    norm_num
  rw [byte_eq, and_15, and_15, Nat.shiftRight_eq_div_pow]
  omega

theorem dstChannel_roundTrips (channel : BitVec 8) :
    let word := (if channel = 0xFF#8 then 0xFFFFFFFF#32 else channel.setWidth 32).toNat
    (if word = 0xFFFFFFFF then none else some word) =
      if channel = 0xFF#8 then none else some channel.toNat := by
  intro word
  have bound := channel.isLt
  by_cases absent : channel = 0xFF#8
  · simp [word, absent]
  · have word_eq : word = channel.toNat := by
      simp only [word, if_neg absent, BitVec.toNat_setWidth]
      omega
    rw [word_eq, if_neg (by omega), if_neg absent]

theorem payloadByte_emitDeny (jiffies : BitVec 64) (info : DenyInfo) (i : Nat) :
    (emitDenyRecord jiffies info).parsed.payloadByte i =
      ((denyPayload info).bytes.getD i 0).toNat := by
  simp [Parsed.payloadByte, AuditorRecord.parsed, emitDenyRecord]

/-- The parent of a denial is read back whatever else it reports. -/
theorem denyParent_roundTrips (jiffies : BitVec 64) (info : DenyInfo)
    (fits : info.parentTaskId.toNat < 2 ^ 24 - 1 ∨ info.parentTaskId = taskParentNone) :
    (readDeny (emitDenyRecord jiffies info).parsed).map DenyFields.parentId =
      some info.parentTaskId.toNat := by
  obtain ⟨b₀, b₁, b₂, -⟩ := getD_denyPayload info
  rw [readDeny, if_pos (by rfl)]
  simp only [Option.map_some, payloadByte_emitDeny, b₀, b₁, b₂]
  exact congrArg some (parent_roundTrips info.parentTaskId fits)

theorem denyReason_eq (jiffies : BitVec 64) (info : DenyInfo) :
    (emitDenyRecord jiffies info).parsed.checksum &&& 0xFF = info.reason.toNat := by
  have reason_lt := info.reason.isLt
  have checksum_eq : (emitDenyRecord jiffies info).parsed.checksum = _ :=
    toNat_denyChecksum info.reason info.dstDomain info.dstChannel
  rw [checksum_eq, and_255]
  omega

/-- The reason of a denial and its two words are read back whatever else it reports. -/
theorem denyWords_roundTrip (jiffies : BitVec 64) (info : DenyInfo) :
    ∃ d, readDeny (emitDenyRecord jiffies info).parsed = some d ∧ d.reason = info.reason.toNat ∧
      d.granted = info.grantedCaps.toNat ∧ d.required = info.requiredCaps.toNat := by
  obtain ⟨w₀, w₁, -⟩ := unpackLe32_denyPayload info
  rw [readDeny, if_pos (by rfl)]
  refine ⟨_, rfl, denyReason_eq jiffies info, ?_, ?_⟩
  · exact (word_parsed _ 0).trans w₀
  · exact (word_parsed _ 4).trans w₁

theorem deny_roundTrips :
    RoundTrips emitDenyRecord DenyInfo.InRange readDeny DenyInfo.view := by
  intro jiffies info fits
  obtain ⟨w₀, w₁, w₂⟩ := unpackLe32_denyPayload info
  obtain ⟨b₀, b₁, b₂, b₃⟩ := getD_denyPayload info
  obtain ⟨depth_eq, sibs_eq⟩ := lineage_roundTrips fits.depth fits.siblings
  have reason_lt := info.reason.isLt
  have domain_lt := info.dstDomain.isLt
  have checksum_eq : (emitDenyRecord jiffies info).parsed.checksum = _ :=
    toNat_denyChecksum info.reason info.dstDomain info.dstChannel
  have domain_eq : ((emitDenyRecord jiffies info).parsed.checksum >>> 8) &&& 0xFF =
      info.dstDomain.toNat := by
    rw [checksum_eq, and_255, Nat.shiftRight_eq_div_pow]
    omega
  have dst_eq : unpackLe32 (emitDenyRecord jiffies info).payloadHash.bytes 8 = _ := w₂
  rw [parseRecord_toBytes, Option.bind_some, readDeny, if_pos (by rfl)]
  simp only [word_parsed, payloadByte_emitDeny, b₀, b₁, b₂, b₃, dst_eq, DenyInfo.view,
    Option.some.injEq, DenyFields.mk.injEq]
  exact ⟨rfl, rfl, rfl, rfl, rfl, denyReason_eq jiffies info, domain_eq,
    dstChannel_roundTrips info.dstChannel, w₀, w₁, parent_roundTrips info.parentTaskId fits.parent,
    depth_eq, sibs_eq⟩

theorem DenyInfo.view_inj {a b : DenyInfo} (same : a.view = b.view) : a = b := by
  have dst : a.dstChannel = b.dstChannel := by
    have read := congrArg DenyFields.dstChannel same
    simp only [DenyInfo.view] at read
    by_cases ha : a.dstChannel = 0xFF#8
    · by_cases hb : b.dstChannel = 0xFF#8
      · rw [ha, hb]
      · simp [ha, hb] at read
    · by_cases hb : b.dstChannel = 0xFF#8
      · simp [ha, hb] at read
      · simpa [ha, hb, BitVec.toNat_inj] using read
  cases a
  cases b
  simp only [DenyInfo.view, DenyFields.mk.injEq, BitVec.toNat_inj] at same dst
  obtain ⟨rfl, rfl, rfl, rfl, rfl, rfl, rfl, -, rfl, rfl, rfl, rfl, rfl⟩ := same
  rw [dst]

/-! ## The codec -/

/-- Each synchronous record type decodes to what was emitted, for all arguments
in range, and so no two of them share their bytes. -/
theorem telemetry_codec :
    (RoundTrips emitTaskCreateRecord (fun _ => True) readTaskCreate TaskCreate.view ∧
      RoundTrips emitTaskExitRecord (fun _ => True) readTaskExit TaskExit.view ∧
      RoundTrips emitChanCreateRecord ChanCreate.InRange readChanCreate ChanCreate.view ∧
      RoundTrips emitChanConnectRecord (fun a => a.srcChannelId.toNat < 256) readChanConnect
        ChanConnect.view ∧
      RoundTrips emitDomainEdgeRecord (fun _ => True) readDomainEdge DomainEdge.view ∧
      RoundTrips (fun j a => emitFaultRecord j a.1 a.2) (fun _ => True) readFault Fault.view ∧
      RoundTrips (fun j a => emitWorkflowRecord j a.1 a.2) (fun a => a.2.stepIndex.toNat < 256)
        readWorkflow WorkflowStep.view ∧
      RoundTrips emitDenyRecord DenyInfo.InRange readDeny DenyInfo.view) ∧
    Distinct emitTaskCreateRecord (fun a => 0 ≤ a.priority.toInt ∧ a.priority.toInt ≤ 255) id ∧
      Distinct emitTaskExitRecord (fun _ => True) id ∧
      Distinct emitChanCreateRecord ChanCreate.InRange id ∧
      Distinct emitChanConnectRecord (fun a => a.srcChannelId.toNat < 256) ChanConnect.key ∧
      Distinct emitDomainEdgeRecord (fun _ => True) id ∧
      Distinct (fun j (a : Option TaskIdentity × Fault) => emitFaultRecord j a.1 a.2)
        (fun _ => True) (fun a => (currentTaskId a.1, a.2)) ∧
      Distinct (fun j (a : Option TaskIdentity × WorkflowStep) => emitWorkflowRecord j a.1 a.2)
        (fun a => a.2.stepIndex.toNat < 256) Prod.snd ∧
      Distinct emitDenyRecord DenyInfo.InRange id := by
  refine ⟨⟨taskCreate_roundTrips, taskExit_roundTrips, chanCreate_roundTrips,
    chanConnect_roundTrips, domainEdge_roundTrips, fault_roundTrips, workflow_roundTrips,
    deny_roundTrips⟩, ?_, ?_, ?_, ?_, ?_, ?_, ?_, ?_⟩
  · have clamped : RoundTrips emitTaskCreateRecord
        (fun a => 0 ≤ a.priority.toInt ∧ a.priority.toInt ≤ 255) readTaskCreate TaskCreate.view :=
      fun jiffies a _ => taskCreate_roundTrips jiffies a trivial
    exact clamped.distinct fun a b ha hb => TaskCreate.view_inj ha hb
  · exact taskExit_roundTrips.distinct fun a b _ _ => TaskExit.view_inj
  · exact chanCreate_roundTrips.distinct fun a b _ _ => ChanCreate.view_inj
  · exact chanConnect_roundTrips.distinct fun a b _ _ => ChanConnect.key_eq
  · exact domainEdge_roundTrips.distinct fun a b _ _ => DomainEdge.view_inj
  · exact fault_roundTrips.distinct fun a b _ _ => Fault.view_inj
  · exact workflow_roundTrips.distinct fun a b _ _ => WorkflowStep.view_inj
  · exact deny_roundTrips.distinct fun a b _ _ => DenyInfo.view_inj

end LughOS.Auditor

import LughOS.Auditor.Telemetry

/-!
# Rebuilding the graph from the records

`reconstruct_graph.py` folds the telemetry stream into a graph of tasks, channels and
domain edges. `applyRecord` is its `apply_record`; a dictionary is a partial function on
the keys, and the two sets of pairs are finite sets. `replay` parses each record from its
packed bytes and applies it, starting from the empty graph.

The lemmas say what each emitter of a structural event adds to the graph. All other
records are inert.
-/

namespace LughOS.Auditor

/-- The class `Task` of the script. -/
structure GraphTask where
  taskId : Nat
  parentTaskId : Nat
  capMask : Nat
  domain : Nat
  alive : Bool
  deriving DecidableEq

/-- The class `Channel` of the script. -/
structure GraphChannel where
  channelId : Nat
  ownerTaskId : Nat
  capMask : Nat
  domain : Nat
  deriving DecidableEq

structure GraphState where
  tasks : Nat → Option GraphTask
  channels : Nat → Option GraphChannel
  chanEdges : Finset (Nat × Nat)
  domainEdges : Finset (Nat × Nat)

def GraphState.empty : GraphState := ⟨fun _ => none, fun _ => none, ∅, ∅⟩

def applyRecord (g : GraphState) (r : Parsed) : GraphState :=
  if r.type = RecordType.taskCreate.code then
    { g with
      tasks := Function.update g.tasks r.operation
        (some ⟨r.operation, r.checksum, r.word 0, r.word 4, true⟩) }
  else if r.type = RecordType.taskExit.code then
    -- an identifier that is not in the dictionary is ignored
    { g with
      tasks := Function.update g.tasks r.operation
        ((g.tasks r.operation).map fun task => { task with alive := false }) }
  else if r.type = RecordType.chanCreate.code then
    { g with
      channels := Function.update g.channels r.channelId
        (some ⟨r.channelId, r.checksum, r.operation, r.word 0⟩) }
  else if r.type = RecordType.chanConnect.code then
    { g with chanEdges := insert (r.channelId, r.operation) g.chanEdges }
  else if r.type = RecordType.domainEdge.code then
    { g with domainEdges := insert (r.operation, r.checksum) g.domainEdges }
  else g

/-- The fold over the emitted records. -/
def replay (stream : List AuditorRecord) : GraphState :=
  (stream.filterMap fun r => parseRecord r.toBytes).foldl applyRecord GraphState.empty

theorem replay_concat (stream : List AuditorRecord) (r : AuditorRecord) :
    replay (stream ++ [r]) = applyRecord (replay stream) r.parsed := by
  simp [replay, parseRecord_toBytes]

/-! ## Record types -/

def AuditorRecord.Is (r : AuditorRecord) (type : RecordType) : Prop :=
  r.recordType = BitVec.ofNat 16 type.code

instance (r : AuditorRecord) (type : RecordType) : Decidable (r.Is type) :=
  inferInstanceAs (Decidable (_ = _))

theorem AuditorRecord.Is.type {r : AuditorRecord} {type : RecordType} (is : r.Is type) :
    r.parsed.type = type.code := by
  rw [AuditorRecord.parsed, is]
  cases type <;> rfl

theorem AuditorRecord.Is.type_ne {r : AuditorRecord} {type other : RecordType} (is : r.Is type)
    (differ : type ≠ other) : r.parsed.type ≠ other.code := by
  rw [is.type]
  revert differ
  cases type <;> cases other <;> decide

theorem AuditorRecord.Is.not {r : AuditorRecord} {type other : RecordType} (is : r.Is type)
    (differ : type ≠ other) : ¬r.Is other :=
  fun is' => is.type_ne differ is'.type

/-- The types that change the graph. -/
def RecordType.Structural : RecordType → Prop
  | .taskCreate | .taskExit | .chanCreate | .chanConnect | .domainEdge => True
  | .msg | .overflow | .heartbeat | .deny | .fault | .workflow => False

def AuditorRecord.Inert (r : AuditorRecord) : Prop := ∃ type, r.Is type ∧ ¬type.Structural

theorem applyRecord_inert (g : GraphState) {r : AuditorRecord} (inert : r.Inert) :
    applyRecord g r.parsed = g := by
  obtain ⟨type, is, plain⟩ := inert
  unfold applyRecord
  rw [is.type]
  cases type <;> first | rfl | exact absurd trivial plain

theorem replay_inert (stream : List AuditorRecord) {records : List AuditorRecord}
    (inert : ∀ r ∈ records, r.Inert) : replay (stream ++ records) = replay stream := by
  induction records using List.reverseRecOn with
  | nil => rw [List.append_nil]
  | append_singleton records r ih =>
      rw [← List.append_assoc, replay_concat, applyRecord_inert _ (inert r (by simp))]
      exact ih fun r' member => inert r' (by simp [member])

theorem emitDenyRecord_inert (jiffies : BitVec 64) (info : DenyInfo) :
    (emitDenyRecord jiffies info).Inert :=
  ⟨.deny, rfl, id⟩

/-! ## Structural events -/

section Emitters

variable (g : GraphState) (jiffies : BitVec 64)

theorem applyRecord_taskCreate (a : TaskCreate) :
    applyRecord g (emitTaskCreateRecord jiffies a).parsed =
      { g with
        tasks := Function.update g.tasks a.taskId.toNat
          (some
            ⟨a.taskId.toNat, a.parentTaskId.toNat, a.capMask.toNat, a.domain.toNat, true⟩) } := by
  obtain ⟨w₀, w₁, -⟩ := unpackLe32_packWords a.capMask a.domain a.kernelStackTop 0
  have is : (emitTaskCreateRecord jiffies a).Is .taskCreate := rfl
  rw [applyRecord, if_pos is.type, word_parsed, word_parsed, ← w₀, ← w₁]
  rfl

theorem applyRecord_taskExit (a : TaskExit) :
    applyRecord g (emitTaskExitRecord jiffies a).parsed =
      { g with
        tasks := Function.update g.tasks a.taskId.toNat
          ((g.tasks a.taskId.toNat).map fun task => { task with alive := false }) } := by
  have is : (emitTaskExitRecord jiffies a).Is .taskExit := rfl
  rw [applyRecord, if_neg (is.type_ne (by decide)), if_pos is.type]
  rfl

theorem applyRecord_chanCreate (a : ChanCreate) (small : a.channelId.toNat < 256) :
    applyRecord g (emitChanCreateRecord jiffies a).parsed =
      { g with
        channels := Function.update g.channels a.channelId.toNat
          (some ⟨a.channelId.toNat, a.ownerTaskId.toNat, a.capMask.toNat, a.domain.toNat⟩) } := by
  obtain ⟨w₀, -⟩ := unpackLe32_packWords a.domain a.securityLevel 0 0
  have id_eq : (emitChanCreateRecord jiffies a).parsed.channelId = a.channelId.toNat :=
    (toNat_lowByte a.channelId).trans (Nat.mod_eq_of_lt small)
  have is : (emitChanCreateRecord jiffies a).Is .chanCreate := rfl
  rw [applyRecord, if_neg (is.type_ne (by decide)), if_neg (is.type_ne (by decide)),
    if_pos is.type, word_parsed, id_eq, ← w₀]
  rfl

theorem applyRecord_chanConnect (a : ChanConnect) (small : a.srcChannelId.toNat < 256) :
    applyRecord g (emitChanConnectRecord jiffies a).parsed =
      { g with
        chanEdges := insert (a.srcChannelId.toNat, a.dstChannelId.toNat) g.chanEdges } := by
  have id_eq : (emitChanConnectRecord jiffies a).parsed.channelId = a.srcChannelId.toNat :=
    (toNat_lowByte a.srcChannelId).trans (Nat.mod_eq_of_lt small)
  have is : (emitChanConnectRecord jiffies a).Is .chanConnect := rfl
  rw [applyRecord, if_neg (is.type_ne (by decide)), if_neg (is.type_ne (by decide)),
    if_neg (is.type_ne (by decide)), if_pos is.type, id_eq]
  rfl

theorem applyRecord_domainEdge (a : DomainEdge) :
    applyRecord g (emitDomainEdgeRecord jiffies a).parsed =
      { g with domainEdges := insert (a.srcDomain.toNat, a.dstDomain.toNat) g.domainEdges } := by
  have is : (emitDomainEdgeRecord jiffies a).Is .domainEdge := rfl
  rw [applyRecord, if_neg (is.type_ne (by decide)), if_neg (is.type_ne (by decide)),
    if_neg (is.type_ne (by decide)), if_neg (is.type_ne (by decide)), if_pos is.type]
  rfl

end Emitters

end LughOS.Auditor

import LughOS.Auditor.Validator
import LughOS.Kernel.Accounting

/-!
# Captures of the kernel's stream

What arrives at the other end of the serial port. Every record of a run carries the magic, the
current version and a known type, so that the validator can have nothing against a capture but that
it is torn or that a required type has not occurred (`capture_validates`). And no message stays
in the ring for long: the ticks of `process_events` take it out after eight of them at the latest,
whatever happens in between (`exported_within_eight_ticks`).
-/

namespace LughOS.Kernel

open Auditor Bytes Runs

/-! ## The main loop -/

/-- `process_events`, which the main loop calls for ever: a tick, and a turn of the scheduler whose
choice nothing acts on. -/
def processEvents (m : Machine) : Machine :=
  let m := m.auditorTick
  let (_, table, cursor) := rrSchedule m.kernel.table m.rrCursor
  { m.setTable table with rrCursor := cursor }

inductive LoopEvent where
  | other (e : Event)
  | processEvents

def loopStep (m : Machine) : LoopEvent → Machine
  | .other e => eventStep m e
  | .processEvents => processEvents m

theorem loopStep_enabled (m : Machine) (e : LoopEvent) :
    (loopStep m e).kernel.auditor.enabled = m.kernel.auditor.enabled := by
  cases e with
  | other e => exact eventStep_enabled m e
  | processEvents => exact m.auditorTick_frame.2.2.2.2

/-! ## Every record is current -/

/-- Records were added to the stream, all of them current and with the same time. -/
def StreamGrows (time : BitVec 64) (a a' : AuditorState) : Prop :=
  ∃ records, a'.stream = a.stream ++ records ∧ ∀ r ∈ records, r.Current ∧ r.jiffies = time

theorem StreamGrows.of_eq {time : BitVec 64} {a a' : AuditorState} (stream : a'.stream = a.stream) :
    StreamGrows time a a' :=
  ⟨[], by rw [stream, List.append_nil], List.forall_mem_nil _⟩

theorem StreamGrows.emit (a : AuditorState) {record : AuditorRecord} (current : record.Current) :
    StreamGrows record.jiffies a (a.emit record) := by
  unfold AuditorState.emit
  split
  · exact ⟨[record], rfl, List.forall_mem_singleton.mpr ⟨current, rfl⟩⟩
  · exact .of_eq rfl

theorem Audited.grows {s s' : System} {op : Op} (audited : Audited s op s') :
    StreamGrows s.jiffies s.auditor s'.auditor := by
  cases audited with
  | silent auditor =>
      rw [auditor]
      exact .of_eq (pushOffered_stream _ _)
  | denied info _ auditor =>
      rw [auditor]
      exact .emit _ ⟨rfl, rfl, .deny, rfl⟩
  | channelCreated _ _ _ _ _ auditor =>
      rw [auditor]
      exact .emit _ ⟨rfl, rfl, .chanCreate, rfl⟩
  | connected _ _ _ _ auditor =>
      rw [auditor]
      exact .emit _ ⟨rfl, rfl, .chanConnect, rfl⟩
  | taskCreated _ _ _ _ auditor =>
      rw [auditor]
      exact .emit _ ⟨rfl, rfl, .taskCreate, rfl⟩
  | edgeAdded _ _ _ auditor =>
      rw [auditor]
      exact .emit _ ⟨rfl, rfl, .domainEdge, rfl⟩

theorem tick_current (m : Machine) (messages : List Message) :
    ∀ r ∈ m.overflowRecords ++ messages.map (emitMsgRecord m.kernel.jiffies) ++ m.heartbeatRecords,
      r.Current ∧ r.jiffies = m.kernel.jiffies := by
  intro r member
  simp only [List.mem_append] at member
  rcases member with (overflow | carried) | heartbeat
  · unfold Machine.overflowRecords at overflow
    split at overflow
    · rw [List.mem_singleton.mp overflow]
      exact ⟨⟨rfl, rfl, .overflow, rfl⟩, rfl⟩
    · cases overflow
  · obtain ⟨msg, -, rfl⟩ := List.mem_map.mp carried
    exact ⟨⟨rfl, rfl, .msg, rfl⟩, rfl⟩
  · unfold Machine.heartbeatRecords at heartbeat
    split at heartbeat
    · rw [List.mem_singleton.mp heartbeat]
      exact ⟨⟨rfl, rfl, .heartbeat, rfl⟩, rfl⟩
    · cases heartbeat

theorem auditorTick_grows {m : Machine} (enabled : m.kernel.auditor.enabled = true) :
    StreamGrows m.kernel.jiffies m.kernel.auditor m.auditorTick.kernel.auditor :=
  ⟨_, (m.auditorTick_enabled enabled).2.2, tick_current m _⟩

theorem Machine.Reported.grows {m m' : Machine} (reported : m.Reported m') :
    StreamGrows m.kernel.jiffies m.kernel.auditor m'.kernel.auditor := by
  obtain ⟨records, stream, reports⟩ := reported.records
  refine ⟨records, stream, fun r member => ?_⟩
  cases reports r member with
  | fault => exact ⟨⟨rfl, rfl, .fault, rfl⟩, rfl⟩
  | workflow => exact ⟨⟨rfl, rfl, .workflow, rfl⟩, rfl⟩

theorem eventStep_grows {m : Machine} (enabled : m.kernel.auditor.enabled = true) (e : Event) :
    StreamGrows m.kernel.jiffies m.kernel.auditor (eventStep m e).kernel.auditor := by
  cases e with
  | call op => exact (step_audited m.kernel op).grows
  | sysExit code =>
      obtain ⟨-, same⟩ | ⟨caller, -, auditor, -⟩ := m.sysExit_cases code
      · rw [eventStep, same]
        exact .of_eq rfl
      · rw [eventStep, auditor]
        exact .emit _ ⟨rfl, rfl, .taskExit, rfl⟩
  | sysYield => exact .of_eq rfl
  | logTransaction entry => exact .of_eq (m.logTransaction_frame entry).2.2.2.2.2.2
  | fault a => exact (m.auditorFault_reported a).grows
  | workflow owner a => exact (m.auditorWorkflow_reported owner a).grows
  | auditorTick => exact auditorTick_grows enabled

theorem stream_current (kernel : System) (statics : Statics) (events : List LoopEvent) :
    ∀ r ∈ (after loopStep (auditorInit kernel statics) events).kernel.auditor.stream,
      r.Current := by
  refine (invariant_after (I := fun m : Machine => m.kernel.auditor.enabled = true ∧
    ∀ r ∈ m.kernel.auditor.stream, r.Current) ⟨rfl, List.forall_mem_nil _⟩ ?_ events).2
  rintro m e ⟨enabled, current⟩
  have grown : StreamGrows m.kernel.jiffies m.kernel.auditor (loopStep m e).kernel.auditor := by
    cases e with
    | other e => exact eventStep_grows enabled e
    | processEvents => exact auditorTick_grows enabled
  obtain ⟨records, stream, added⟩ := grown
  refine ⟨(loopStep_enabled m e).trans enabled, ?_⟩
  rw [stream]
  exact List.forall_mem_append.mpr ⟨current, fun r member => (added r member).1⟩

theorem take_flatMap_toBytes (stream : List AuditorRecord) (count : Nat) :
    (stream.flatMap AuditorRecord.toBytes).take (recordSize * count) =
      (stream.take count).flatMap AuditorRecord.toBytes := by
  induction stream generalizing count with
  | nil => simp
  | cons r stream ih =>
      cases count with
      | zero => rfl
      | succ count =>
          have step : recordSize * (count + 1) = r.toBytes.length + recordSize * count := by
            rw [length_toBytes, recordSize]
            omega
          rw [List.flatMap_cons, step, List.take_length_add_append, ih]
          rfl

/-- The first bytes of what a run has written pass the validator just if they end with a record
and all required types have occurred in them. -/
theorem capture_validates (kernel : System) (statics : Statics) (events : List LoopEvent)
    (captured : Nat) :
    let stream := (after loopStep (auditorInit kernel statics) events).kernel.auditor.stream
    let bytes := stream.flatMap AuditorRecord.toBytes
    exitCode (bytes.take captured) = 0 ↔
      (captured % recordSize = 0 ∨ bytes.length ≤ captured) ∧
        ∀ type ∈ requiredTypes, ∃ r ∈ stream.take (captured / recordSize), r.Is type := by
  intro stream bytes
  have size : bytes.length = recordSize * stream.length := by
    simp [bytes, List.length_flatMap, length_toBytes, recordSize, Nat.mul_comm]
  by_cases whole : captured % recordSize = 0 ∨ bytes.length ≤ captured
  · have cut : bytes.take captured =
        (stream.take (captured / recordSize)).flatMap AuditorRecord.toBytes := by
      rcases whole with even | all
      · obtain ⟨k, rfl⟩ := Nat.dvd_of_mod_eq_zero even
        rw [Nat.mul_div_cancel_left k recordSize_pos]
        exact take_flatMap_toBytes stream k
      · rw [List.take_of_length_le all, List.take_of_length_le]
        rw [size, Nat.mul_comm] at all
        exact (Nat.le_div_iff_mul_le recordSize_pos).mpr all
    rw [cut, exitCode_records]
    have current : ∀ r ∈ stream.take (captured / recordSize), r.Current := fun r member =>
      stream_current kernel statics events r (List.mem_of_mem_take member)
    exact and_congr (iff_of_true current whole) Iff.rfl
  · have torn : (bytes.take captured).length % recordSize ≠ 0 := by
      rw [List.length_take, Nat.min_eq_left (by omega)]
      exact fun even => whole (.inl even)
    rw [exitCode_torn torn]
    exact iff_of_false (by decide) fun valid => whole valid.1

/-! ## No message stays in the ring -/

/-- The messages that `ring_push` accepts in an event. -/
def takenIn (m : Machine) : LoopEvent → List Message
  | .other e => accepted m [e]
  | .processEvents => []

def LoopEvent.ticks : LoopEvent → Bool
  | .other .auditorTick | .processEvents => true
  | .other _ => false

/-- What an event does to the messages: some leave the ring at its front for the stream, and some
enter it at its back. A tick takes out all that one batch can. -/
structure Moves (m : Machine) (e : LoopEvent) (m' : Machine) : Prop where
  enabled : m'.kernel.auditor.enabled = true
  messages : ∃ sent, (∃ jiffies, msgRecords m'.kernel.auditor.stream =
      msgRecords m.kernel.auditor.stream ++ sent.map (emitMsgRecord jiffies)) ∧
    sent ++ m'.ipcRing.contents = m.ipcRing.contents ++ takenIn m e ∧
    (e.ticks = true → sent = m.ipcRing.contents.take drainBatch)

theorem auditorTick_moves {m : Machine} (enabled : m.kernel.auditor.enabled = true) :
    ∃ sent, (∃ jiffies, msgRecords m.auditorTick.kernel.auditor.stream =
        msgRecords m.kernel.auditor.stream ++ sent.map (emitMsgRecord jiffies)) ∧
      sent ++ m.auditorTick.ipcRing.contents = m.ipcRing.contents ++ [] ∧
      sent = m.ipcRing.contents.take drainBatch := by
  obtain ⟨contents, -, stream⟩ := m.auditorTick_enabled enabled
  refine ⟨_, ⟨m.kernel.jiffies, ?_⟩, ?_, rfl⟩
  · rw [stream, msgRecords_append, (tick_records m _).1]
  · rw [contents, List.take_append_drop, List.append_nil]

theorem loopStep_moves {m : Machine} (enabled : m.kernel.auditor.enabled = true) (e : LoopEvent) :
    Moves m e (loopStep m e) := by
  cases e with
  | processEvents =>
      obtain ⟨sent, records, ring, batch⟩ := auditorTick_moves enabled
      exact ⟨(loopStep_enabled m _).trans enabled, sent, records, ring, fun _ => batch⟩
  | other e =>
      refine ⟨(loopStep_enabled m _).trans enabled, ?_⟩
      by_cases tick : LoopEvent.ticks (.other e) = true
      · cases e with
        | auditorTick =>
            obtain ⟨sent, records, ring, batch⟩ := auditorTick_moves enabled
            exact ⟨sent, records, ring, fun _ => batch⟩
        | _ => cases tick
      · obtain ⟨sent, jiffies, records, ring⟩ := (eventStep_balance enabled e).messages
        exact ⟨sent, ⟨jiffies, records⟩, ring, fun wrong => absurd wrong tick⟩

/-- All messages that `ring_push` accepted in a run. -/
def acceptedIn (start : Machine) (events : List LoopEvent) : List Message :=
  outputs loopStep takenIn start events

/-- The messages of the stream and of the ring are those accepted, in order. -/
structure Carried (start : Machine) (events : List LoopEvent) (m : Machine) : Prop where
  enabled : m.kernel.auditor.enabled = true
  messages : ∃ carried, List.Forall₂ Carries (msgRecords m.kernel.auditor.stream) carried ∧
    carried ++ m.ipcRing.contents = acceptedIn start events

theorem Carried.step {start m' : Machine} {events : List LoopEvent} {e : LoopEvent}
    (carried : Carried start events (after loopStep start events))
    (moves : Moves (after loopStep start events) e m') : Carried start (events ++ [e]) m' := by
  obtain ⟨before, records, all⟩ := carried.messages
  obtain ⟨sent, ⟨jiffies, stream⟩, ring, -⟩ := moves.messages
  refine ⟨moves.enabled, before ++ sent, ?_, ?_⟩
  · rw [stream]
    refine List.rel_append records (List.forall₂_map_left_iff.mpr ?_)
    exact List.forall₂_same.mpr fun msg _ => ⟨jiffies, rfl⟩
  · rw [List.append_assoc, ring, ← List.append_assoc, all, acceptedIn, acceptedIn, outputs_concat]

theorem carried_after (kernel : System) (statics : Statics) (events : List LoopEvent) :
    Carried (auditorInit kernel statics) events
      (after loopStep (auditorInit kernel statics) events) := by
  refine run_history (P := Carried (auditorInit kernel statics)) ?_ ?_ (meets_true _ events)
  · exact ⟨rfl, [], .nil, RingBuffer.contents_clear statics.ipcRing.buffer⟩
  · intro events e carried _
    exact carried.step (loopStep_moves carried.enabled e)

/-- How many messages have left through the stream. -/
def exported (m : Machine) : Nat := (msgRecords m.kernel.auditor.stream).length

theorem Moves.exported {m m' : Machine} {e : LoopEvent} (moves : Moves m e m') :
    exported m ≤ exported m' ∧ (e.ticks = true →
      exported m' = exported m + min drainBatch m.ipcRing.contents.length) := by
  obtain ⟨sent, ⟨jiffies, stream⟩, -, batch⟩ := moves.messages
  have count : Kernel.exported m' = Kernel.exported m + sent.length := by
    rw [Kernel.exported, stream, List.length_append, List.length_map]
    rfl
  refine ⟨by omega, fun tick => ?_⟩
  rw [count, batch tick, List.length_take]

theorem Carried.count {start m : Machine} {events : List LoopEvent}
    (carried : Carried start events m) :
    exported m + m.ipcRing.contents.length = (acceptedIn start events).length := by
  obtain ⟨messages, records, all⟩ := carried.messages
  rw [← all, List.length_append, exported, records.length_eq]

theorem acceptedIn_initial (start : Machine) (before later : List LoopEvent) :
    acceptedIn start before <+: acceptedIn start (before ++ later) := by
  induction later using List.reverseRecOn with
  | nil => rw [List.append_nil]
  | append_singleton later e ih =>
      rw [← List.append_assoc, acceptedIn, acceptedIn, outputs_concat]
      exact ih.trans (List.prefix_append _ _)

/-- Each tick brings a batch closer to the end of what was accepted before. -/
theorem exported_ge (kernel : System) (statics : Statics) (before later : List LoopEvent) :
    min (acceptedIn (auditorInit kernel statics) before).length
        (exported (after loopStep (auditorInit kernel statics) before) +
          drainBatch * later.countP LoopEvent.ticks) ≤
      exported (after loopStep (auditorInit kernel statics) (before ++ later)) := by
  induction later using List.reverseRecOn with
  | nil => simp
  | append_singleton later e ih =>
      have carried := carried_after kernel statics (before ++ later)
      obtain ⟨kept, batch⟩ := (loopStep_moves carried.enabled e).exported
      have waiting := carried.count
      have longer := (acceptedIn_initial (auditorInit kernel statics) before later).length_le
      rw [← List.append_assoc, after_concat, List.countP_append, List.countP_singleton]
      by_cases tick : e.ticks = true
      · rw [if_pos tick, batch tick]
        simp only [drainBatch] at ih ⊢
        omega
      · rw [if_neg tick]
        simp only [drainBatch] at ih ⊢
        omega

/-- Whatever happens in between, with eight ticks every message that `ring_push` accepted before
has a record in the stream, in the order in which they were accepted. -/
theorem exported_within_eight_ticks (kernel : System) (statics : Statics)
    (before later : List LoopEvent) (ticks : 8 ≤ later.countP LoopEvent.ticks) :
    ∃ carried, List.Forall₂ Carries
        (msgRecords (after loopStep (auditorInit kernel statics)
          (before ++ later)).kernel.auditor.stream) carried ∧
      acceptedIn (auditorInit kernel statics) before <+: carried := by
  have start := carried_after kernel statics before
  have final := carried_after kernel statics (before ++ later)
  obtain ⟨carried, records, all⟩ := final.messages
  refine ⟨carried, records, ?_⟩
  have bound : (after loopStep (auditorInit kernel statics) before).ipcRing.contents.length <
      256 := by
    rw [IpcRing.contents, RingBuffer.length_contents]
    exact Fin.isLt _
  have enough := exported_ge kernel statics before later
  have waiting := start.count
  have length : (acceptedIn (auditorInit kernel statics) before).length ≤ carried.length := by
    have total : exported (after loopStep (auditorInit kernel statics) (before ++ later)) =
        carried.length := records.length_eq
    simp only [drainBatch, total] at enough
    omega
  refine List.prefix_of_prefix_length_le (acceptedIn_initial _ before later) ?_ length
  rw [← all]
  exact List.prefix_append _ _

/-- A message is accepted, and the main loop runs eight times. -/
theorem exported_within_eight_ticks_pressed :
    acceptedIn (auditorInit (boot sampleImage) zeroStatics) (pressed.map .other) ≠ [] ∧
    ∃ carried, List.Forall₂ Carries
        (msgRecords (after loopStep (auditorInit (boot sampleImage) zeroStatics)
          (pressed.map .other ++ List.replicate 8 .processEvents)).kernel.auditor.stream) carried ∧
      acceptedIn (auditorInit (boot sampleImage) zeroStatics) (pressed.map .other) <+: carried :=
  ⟨by decide +kernel, exported_within_eight_ticks _ _ _ _ (by decide)⟩

end LughOS.Kernel

import LughOS.Kernel.Exporter

/-!
# No audit record is lost unaccounted

Messages leave `ipc_ring` in the order in which `ring_push` accepted them, so the message
records of the stream followed by what is still in the ring are the accepted messages.
Whatever is not accepted is counted: a refused push and a displaced entry of the
transaction log both add one to `ipc_ring.overflow`, and each tick moves the counter into
an `OVERFLOW` record. The sum survives as long as the 32-bit counter does not wrap around
between two ticks.

`Balance` is the effect of one event on these quantities, and `audit_accounted` adds it up
along a run.
-/

namespace LughOS.Kernel

open Auditor

/-! ## What a run pushes and drops -/

/-- The `ring_push` an event makes, with its result. -/
def pushes (m : Machine) : Event → List (Message × Bool)
  | .call op => ((offered m.kernel op).map fun (_, msg) => (msg, (m.ipcRing.push msg).1)).toList
  | _ => []

/-- The entry of the transaction log an event displaces. -/
def displaced (m : Machine) : Event → List TxnLogEntry
  | .logTransaction (some _) =>
      if m.txnLog.Full then [m.txnLog.oldest] else []
  | _ => []

section Run

variable (start : Machine) (events : List Event)

/-- The messages `ring_push` accepted, in order. -/
def accepted : List Message :=
  ((Runs.outputs eventStep pushes start events).filter Prod.snd).map Prod.fst

/-- How many calls of `ring_push` found the ring full. -/
def refusals : Nat := (Runs.outputs eventStep pushes start events).countP fun call => !call.2

/-- How many calls of `log_transaction` dropped their oldest entry. -/
def displacements : Nat := (Runs.outputs eventStep displaced start events).length

def drops : Nat := refusals start events + displacements start events

/-- Fewer than `2 ^ 32` drops between ticks. -/
def FewDrops : Prop :=
  ∀ before window rest, events = before ++ window ++ rest → (∀ e ∈ window, e ≠ .auditorTick) →
    drops (Runs.after eventStep start before) window < 2 ^ 32

end Run

def msgRecords (stream : List AuditorRecord) : List AuditorRecord :=
  stream.filter fun r => decide (r.Is .msg)

/-- The sum of the operation fields of all `OVERFLOW` records. -/
def reportedDrops (stream : List AuditorRecord) : Nat :=
  ((stream.filter fun r => decide (r.Is .overflow)).map fun r => r.operation.toNat).sum

/-- The record was written for the message. -/
def Carries (r : AuditorRecord) (m : Message) : Prop := ∃ jiffies, r = emitMsgRecord jiffies m

/-- After the run, every accepted message is in the stream or in the ring, in order, and
every drop is in an `OVERFLOW` record or in the counter. -/
structure AuditAccount (start : Machine) (events : List Event) : Prop where
  messages : ∃ carried,
    List.Forall₂ Carries
      (msgRecords (Runs.after eventStep start events).kernel.auditor.stream) carried ∧
    carried ++ (Runs.after eventStep start events).ipcRing.contents = accepted start events
  dropped : reportedDrops (Runs.after eventStep start events).kernel.auditor.stream +
      (Runs.after eventStep start events).ipcRing.overflow.toNat =
    refusals start events + displacements start events

/-! ## One event -/

theorem msgRecords_append (stream records : List AuditorRecord) :
    msgRecords (stream ++ records) = msgRecords stream ++ msgRecords records :=
  List.filter_append ..

theorem reportedDrops_append (stream records : List AuditorRecord) :
    reportedDrops (stream ++ records) = reportedDrops stream + reportedDrops records := by
  simp [reportedDrops]

theorem Told.msgRecords {a a' : AuditorState} (told : Told a a') :
    msgRecords a'.stream = msgRecords a.stream ∧
      reportedDrops a'.stream = reportedDrops a.stream := by
  obtain ⟨-, records, stream, direct⟩ := told
  have none : ∀ type, ticked type = true → (records.filter fun r => decide (r.Is type)) = [] := by
    intro type onTick
    refine List.filter_eq_nil_iff.mpr fun r member => ?_
    obtain ⟨type', is, sync⟩ := direct r member
    refine fun wrong => is.not ?_ (of_decide_eq_true wrong)
    rintro rfl
    rw [sync] at onTick
    cases onTick
  rw [stream, msgRecords_append, reportedDrops_append]
  exact ⟨by simp [Kernel.msgRecords, none .msg rfl], by simp [reportedDrops, none .overflow rfl]⟩

/-- The effect of one event: the messages it takes from the ring into the stream, those it
adds to the ring, and where it accounts for drops. -/
structure Balance (m : Machine) (e : Event) (m' : Machine) : Prop where
  messages : ∃ sent jiffies,
    msgRecords m'.kernel.auditor.stream =
      msgRecords m.kernel.auditor.stream ++ sent.map (emitMsgRecord jiffies) ∧
    sent ++ m'.ipcRing.contents = m.ipcRing.contents ++ accepted m [e]
  /-- A tick reports the counter; any other event adds its drops to it. -/
  counted : (e = .auditorTick ∧ m'.ipcRing.overflow = 0 ∧ drops m [e] = 0 ∧
      reportedDrops m'.kernel.auditor.stream =
        reportedDrops m.kernel.auditor.stream + m.ipcRing.overflow.toNat) ∨
    (e ≠ .auditorTick ∧ m'.ipcRing.overflow = m.ipcRing.overflow + BitVec.ofNat 32 (drops m [e]) ∧
      reportedDrops m'.kernel.auditor.stream = reportedDrops m.kernel.auditor.stream)

/-- An event that writes nothing on behalf of the ring. -/
theorem Balance.of_told {m m' : Machine} {e : Event} (other : e ≠ .auditorTick)
    (told : Told m.kernel.auditor m'.kernel.auditor)
    (contents : m'.ipcRing.contents = m.ipcRing.contents ++ accepted m [e])
    (overflow : m'.ipcRing.overflow = m.ipcRing.overflow + BitVec.ofNat 32 (drops m [e])) :
    Balance m e m' := by
  obtain ⟨messages, reported⟩ := told.msgRecords
  refine ⟨⟨[], 0, ?_, ?_⟩, .inr ⟨other, overflow, reported⟩⟩
  · simpa using messages
  · simpa using contents

/-- An event that has nothing to do with the ring at all. -/
theorem Balance.of_idle {m m' : Machine} {e : Event} (other : e ≠ .auditorTick)
    (told : Told m.kernel.auditor m'.kernel.auditor) (ring : m'.ipcRing = m.ipcRing)
    (unpushed : pushes m e = []) (kept : displaced m e = []) : Balance m e m' := by
  refine .of_told other told ?_ ?_ <;> rw [ring]
  · simp [accepted, Runs.outputs, unpushed]
  · simp [drops, refusals, displacements, Runs.outputs, unpushed, kept]

theorem perform_balance (m : Machine) (op : Op) : Balance m (.call op) (m.perform op) := by
  have told : Told m.kernel.auditor (m.perform op).kernel.auditor := (step_audited m.kernel op).told
  have ring : (m.perform op).ipcRing = m.ipcRing.offer (offered m.kernel op) := rfl
  refine .of_told (by simp) told ?_ ?_ <;> rw [ring]
  all_goals
    simp only [accepted, drops, refusals, displacements, Runs.outputs, pushes, displaced,
      List.append_nil, List.length_nil, Nat.add_zero]
    cases offered m.kernel op with
    | none => simp [IpcRing.offer]
    | some offer =>
        obtain ⟨c, msg⟩ := offer
        rcases m.ipcRing.push_cases msg with ⟨-, refused⟩ | ⟨-, ok, grown, overflow⟩
        · simp [IpcRing.offer, refused, IpcRing.contents]
        · simp [IpcRing.offer, ok, grown, overflow]

theorem logTransaction_balance (m : Machine) (entry : Option TxnLogEntry) :
    Balance m (.logTransaction entry) (m.logTransaction entry).2.2 := by
  obtain ⟨buffer, -, -, -, -, enabled, stream⟩ := m.logTransaction_frame entry
  refine .of_told (by simp) (.of_eq enabled stream) ?_ ?_
  · rw [IpcRing.contents, buffer]
    simp [accepted, Runs.outputs, pushes, IpcRing.contents]
  · simp only [drops, refusals, displacements, Runs.outputs, pushes, displaced]
    cases entry with
    | none => simp [Machine.logTransaction]
    | some entry =>
        simp only [Machine.logTransaction]
        split <;> simp [Machine.dropOldest]

/-- The records of a tick: one for the counter, one for each message it drains. -/
theorem tick_records (m : Machine) (messages : List Message) :
    msgRecords (m.overflowRecords ++ messages.map (emitMsgRecord m.kernel.jiffies) ++
        m.heartbeatRecords) = messages.map (emitMsgRecord m.kernel.jiffies) ∧
      reportedDrops (m.overflowRecords ++ messages.map (emitMsgRecord m.kernel.jiffies) ++
        m.heartbeatRecords) = m.ipcRing.overflow.toNat := by
  have overflow : msgRecords m.overflowRecords = [] ∧
      reportedDrops m.overflowRecords = m.ipcRing.overflow.toNat := by
    unfold Machine.overflowRecords
    split
    · have is : (emitOverflowRecord m.kernel.jiffies m.ipcRing.overflow).Is .overflow := rfl
      exact ⟨by simp [msgRecords, is.not], by simp [reportedDrops, is]; rfl⟩
    · exact ⟨rfl, by simp only [reportedDrops, List.filter_nil, List.map_nil, List.sum_nil]; omega⟩
  have heartbeat : msgRecords m.heartbeatRecords = [] ∧ reportedDrops m.heartbeatRecords = 0 := by
    unfold Machine.heartbeatRecords
    split
    · have is : (emitHeartbeatRecord m.kernel.jiffies).Is .heartbeat := rfl
      exact ⟨by simp [msgRecords, is.not], by simp [reportedDrops, is.not]⟩
    · exact ⟨rfl, rfl⟩
  have carried : msgRecords (messages.map (emitMsgRecord m.kernel.jiffies)) =
        messages.map (emitMsgRecord m.kernel.jiffies) ∧
      reportedDrops (messages.map (emitMsgRecord m.kernel.jiffies)) = 0 := by
    have is : ∀ msg, (emitMsgRecord m.kernel.jiffies msg).Is .msg := fun _ => rfl
    refine ⟨List.filter_eq_self.mpr ?_, ?_⟩
    · simp [is]
    · have none : ∀ r ∈ messages.map (emitMsgRecord m.kernel.jiffies), ¬r.Is .overflow := by
        intro r member
        obtain ⟨msg, -, rfl⟩ := List.mem_map.mp member
        exact (is msg).not (by decide)
      rw [reportedDrops, List.filter_eq_nil_iff.mpr fun r member => by simpa using none r member]
      rfl
  simp only [msgRecords_append, reportedDrops_append, overflow, heartbeat, carried]
  simp

theorem auditorTick_balance {m : Machine} (enabled : m.kernel.auditor.enabled = true) :
    Balance m .auditorTick m.auditorTick := by
  obtain ⟨contents, overflow, stream⟩ := m.auditorTick_enabled enabled
  obtain ⟨messages, reported⟩ := tick_records m (m.ipcRing.contents.take drainBatch)
  constructor
  · refine ⟨m.ipcRing.contents.take drainBatch, m.kernel.jiffies, ?_, ?_⟩
    · rw [stream, msgRecords_append, messages]
    · rw [contents, List.take_append_drop]
      simp [accepted, Runs.outputs, pushes]
  · refine .inl ⟨rfl, overflow, rfl, ?_⟩
    rw [stream, reportedDrops_append, reported]

theorem eventStep_balance {m : Machine} (enabled : m.kernel.auditor.enabled = true) (e : Event) :
    Balance m e (eventStep m e) := by
  cases e with
  | call op => exact perform_balance m op
  | sysExit code =>
      obtain ⟨ring, -, -, -, told⟩ := m.sysExit_frame code
      exact .of_idle (by simp) told ring rfl rfl
  | sysYield => exact .of_idle (by simp) (.of_eq rfl rfl) m.sysYield_frame.1 rfl rfl
  | logTransaction entry => exact logTransaction_balance m entry
  | fault a =>
      have reported := m.auditorFault_reported a
      exact .of_idle (by simp) reported.told reported.ipcRing rfl rfl
  | workflow owner a =>
      have reported := m.auditorWorkflow_reported owner a
      exact .of_idle (by simp) reported.told reported.ipcRing rfl rfl
  | auditorTick => exact auditorTick_balance enabled

/-! ## A run -/

theorem accepted_concat (start : Machine) (events : List Event) (e : Event) :
    accepted start (events ++ [e]) =
      accepted start events ++ accepted (Runs.after eventStep start events) [e] := by
  simp [accepted, Runs.outputs_concat, Runs.outputs]

theorem drops_concat (start : Machine) (events : List Event) (e : Event) :
    drops start (events ++ [e]) =
      drops start events + drops (Runs.after eventStep start events) [e] := by
  simp only [drops, refusals, displacements, Runs.outputs_concat, Runs.outputs, List.countP_append,
    List.length_append, List.append_nil]
  omega

theorem FewDrops.before {start : Machine} {events : List Event} {e : Event}
    (few : FewDrops start (events ++ [e])) : FewDrops start events := by
  intro before window rest split quiet
  exact few before window (rest ++ [e]) (by simp [split]) quiet

/-- The account after a run, with the drops since the last tick in the counter. -/
structure Books (start : Machine) (events : List Event) (m : Machine) : Prop where
  messages : ∃ carried, List.Forall₂ Carries (msgRecords m.kernel.auditor.stream) carried ∧
    carried ++ m.ipcRing.contents = accepted start events
  total : reportedDrops m.kernel.auditor.stream + m.ipcRing.overflow.toNat = drops start events
  sinceTick : ∃ before window, events = before ++ window ∧ (∀ e ∈ window, e ≠ .auditorTick) ∧
    m.ipcRing.overflow.toNat = drops (Runs.after eventStep start before) window

theorem Books.step {start : Machine} {events : List Event} {e : Event} {m' : Machine}
    (books : Books start events (Runs.after eventStep start events))
    (few : FewDrops start (events ++ [e]))
    (balance : Balance (Runs.after eventStep start events) e m') :
    Books start (events ++ [e]) m' := by
  obtain ⟨carried, records, all⟩ := books.messages
  obtain ⟨sent, jiffies, stream, ring⟩ := balance.messages
  have messages : ∃ carried, List.Forall₂ Carries (msgRecords m'.kernel.auditor.stream) carried ∧
      carried ++ m'.ipcRing.contents = accepted start (events ++ [e]) := by
    refine ⟨carried ++ sent, ?_, ?_⟩
    · rw [stream]
      refine List.rel_append records (List.forall₂_map_left_iff.mpr ?_)
      exact List.forall₂_same.mpr fun msg _ => ⟨jiffies, rfl⟩
    · rw [List.append_assoc, ring, ← List.append_assoc, all, accepted_concat]
  obtain ⟨before, window, split, quiet, counter⟩ := books.sinceTick
  have total := books.total
  rcases balance.counted with ⟨rfl, zero, none, reported⟩ | ⟨other, overflow, reported⟩
  · refine ⟨messages, ?_, events ++ [.auditorTick], [], by simp, by simp, ?_⟩
    · rw [drops_concat, none, reported, zero]
      simpa using total
    · rw [zero]
      rfl
  · -- the window since the last tick grows by this event, and its drops still fit
    have quiet' : ∀ e' ∈ window ++ [e], e' ≠ .auditorTick := by
      intro e' member
      rcases List.mem_append.mp member with old | new
      · exact quiet e' old
      · rw [List.mem_singleton.mp new]
        exact other
    have window_drops : drops (Runs.after eventStep start before) (window ++ [e]) =
        (Runs.after eventStep start events).ipcRing.overflow.toNat +
          drops (Runs.after eventStep start events) [e] := by
      have here : Runs.after eventStep (Runs.after eventStep start before) window =
          Runs.after eventStep start events := by
        rw [split]
        simp [Runs.after]
      rw [drops_concat, here, ← counter]
    have fits := few before (window ++ [e]) [] (by simp [split]) quiet'
    have counter' : m'.ipcRing.overflow.toNat =
        (Runs.after eventStep start events).ipcRing.overflow.toNat +
          drops (Runs.after eventStep start events) [e] := by
      rw [overflow, BitVec.toNat_add, BitVec.toNat_ofNat, Nat.add_mod_mod,
        Nat.mod_eq_of_lt (window_drops ▸ fits)]
    refine ⟨messages, ?_, before, window ++ [e], by simp [split], quiet', ?_⟩
    · rw [drops_concat, reported, counter', ← Nat.add_assoc, total]
    · rw [window_drops, counter']

/-- In every interleaving of events after `auditor_init` with fewer than `2 ^ 32` drops between
ticks, the message records and the ring together hold the accepted messages in order, and the
reported and the pending drops add up to the refused pushes and the displaced entries. -/
theorem audit_accounted (kernel : System) (statics : Statics) (events : List Event)
    (few : FewDrops (auditorInit kernel statics) events) :
    AuditAccount (auditorInit kernel statics) events := by
  have books : FewDrops (auditorInit kernel statics) events →
      Books (auditorInit kernel statics) events
        (Runs.after eventStep (auditorInit kernel statics) events) := by
    refine Runs.run_history
      (P := fun events m => FewDrops (auditorInit kernel statics) events →
        Books (auditorInit kernel statics) events m)
      ?_ ?_ (Runs.meets_true (auditorInit kernel statics) events)
    · intro _
      refine ⟨⟨[], .nil, ?_⟩, rfl, [], [], rfl, by simp, rfl⟩
      exact RingBuffer.contents_clear statics.ipcRing.buffer
    · intro events e books _ few
      exact (books few.before).step few
        (eventStep_balance (enabled_after kernel statics events) e)
  exact ⟨(books few).messages, (books few).total⟩

/-- No event drops more than one message or entry. -/
theorem fewDrops_of_length {start : Machine} {events : List Event}
    (short : events.length < 2 ^ 32) : FewDrops start events := by
  have single : ∀ m e, drops m [e] ≤ 1 := by
    intro m e
    simp only [drops, refusals, displacements, Runs.outputs, List.append_nil]
    cases e with
    | call op =>
        simp only [pushes, displaced, List.length_nil, Nat.add_zero]
        exact List.countP_le_length.trans (Option.length_toList_le)
    | logTransaction entry =>
        cases entry with
        | none => exact Nat.zero_le 1
        | some entry =>
            simp only [pushes, displaced, List.countP_nil]
            split <;> simp
    | sysExit code => exact Nat.zero_le 1
    | sysYield => exact Nat.zero_le 1
    | fault a => exact Nat.zero_le 1
    | workflow owner a => exact Nat.zero_le 1
    | auditorTick => exact Nat.zero_le 1
  have bound : ∀ m window, drops m window ≤ window.length := by
    intro m window
    induction window using List.reverseRecOn with
    | nil => exact Nat.le_refl 0
    | append_singleton window e ih =>
        have last := single (Runs.after eventStep m window) e
        rw [drops_concat, List.length_append, List.length_singleton]
        omega
  rintro before window rest rfl -
  have := bound (Runs.after eventStep start before) window
  simp only [List.length_append] at short
  omega

/-- A message is sent, the transaction log runs over once, and the exporter is run. -/
def pressed : List Event :=
  [.call (.ipcCreateChannel 0 0 capAll Protocol.push0.code),
      .call (.ipcSend 0 (some (sampleMessage 1 [0x68, 0x69])))] ++
    List.replicate 257 (.logTransaction (some blankEntry)) ++ [.auditorTick]

theorem audit_accounted_pressed :
    accepted (auditorInit (boot sampleImage) zeroStatics) pressed ≠ [] ∧
      displacements (auditorInit (boot sampleImage) zeroStatics) pressed = 1 ∧
      AuditAccount (auditorInit (boot sampleImage) zeroStatics) pressed := by
  have account := audit_accounted (boot sampleImage) zeroStatics pressed
    (fewDrops_of_length (by simp only [pressed, List.length_append, List.length_replicate,
      List.length_cons, List.length_nil]; decide))
  exact ⟨by decide +kernel, by decide +kernel, account⟩

end LughOS.Kernel

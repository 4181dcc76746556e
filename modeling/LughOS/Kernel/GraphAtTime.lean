import LughOS.Kernel.Captures
import LughOS.Kernel.TaskGraph

/-!
# The graph at a time

`reconstruct_graph.py --at` stops at the first record that is later than the given time. A record
carries the time at which it was written, and the time only grows, so what the script has read by
then is the stream as it was at that time: it shows the tasks and the domain edges of the kernel as
they were, whatever happened afterwards.
-/

namespace LughOS.Kernel

open Auditor Runs

/-! ## Time -/

/-- The ticks that pass in an event. -/
def Event.ticks : Event → BitVec 64
  | .call (.tick ticks) => ticks
  | _ => 0

/-- The ticks that pass in a run. -/
def elapsed (events : List Event) : Nat := (events.map fun e => e.ticks.toNat).sum

/-- Time stands still in the other calls. -/
theorem step_jiffies {op : Op} (still : ∀ ticks, op ≠ .tick ticks) (s : System) :
    (step s op).jiffies = s.jiffies := by
  cases op with
  | tick ticks => exact absurd rfl (still ticks)
  | switch position =>
      rw [step, switchTo]
      split <;> rfl
  | createTask spec =>
      rw [step, createTask]
      split <;> simp
  | domainEdgeSet src dst =>
      rw [step, setDomainEdge]
      split <;> simp
  | domainEdgesSeal => rfl
  | ipcCreateChannel level domain caps protocol =>
      rw [step, ipcCreateChannel]
      simp only [openNewChannel, System.emitCreateDeny]
      repeat' split
      all_goals simp
  | ipcCloseChannel id =>
      rw [step, ipcCloseChannel]
      repeat' split
      all_goals rfl
  | ipcConnect src dst =>
      rw [step, ipcConnect]
      simp only [System.emitDeny]
      repeat' split
      all_goals simp
  | ipcSend id msg =>
      rw [step, ipcSend.eq_def]
      simp only [transmit, auditMessage, System.emitDeny]
      repeat' split
      all_goals simp_all
  | ipcRecv id out nonblock =>
      rw [step, ipcRecv.eq_def]
      simp only [unpack, System.emitDeny]
      repeat' split
      all_goals simp

theorem eventStep_jiffies (m : Machine) (e : Event) :
    (eventStep m e).kernel.jiffies = m.kernel.jiffies + e.ticks := by
  cases e with
  | call op =>
      by_cases passes : ∃ ticks, op = .tick ticks
      · obtain ⟨ticks, rfl⟩ := passes
        rfl
      · push Not at passes
        have none : Event.ticks (.call op) = 0 := by
          cases op with
          | tick ticks => exact absurd rfl (passes ticks)
          | _ => rfl
        rw [none]
        exact (step_jiffies passes m.kernel).trans (BitVec.add_zero _).symm
  | sysExit code =>
      refine Eq.trans ?_ (BitVec.add_zero _).symm
      rw [eventStep, Machine.sysExit]
      split <;> simp [Machine.setTable, Machine.emit]
  | sysYield => exact (BitVec.add_zero _).symm
  | logTransaction entry =>
      refine Eq.trans ?_ (BitVec.add_zero _).symm
      rw [eventStep, Machine.logTransaction.eq_def]
      split
      · rfl
      · dsimp only
        split <;> rfl
  | fault a => exact (m.auditorFault_reported a).jiffies.trans (BitVec.add_zero _).symm
  | workflow owner a =>
      exact (m.auditorWorkflow_reported owner a).jiffies.trans (BitVec.add_zero _).symm
  | auditorTick =>
      refine Eq.trans ?_ (BitVec.add_zero _).symm
      rw [eventStep, Machine.auditorTick]
      split <;> rfl

/-- A run adds records to the stream, with times from its start to its end. -/
structure Logged (m m' : Machine) : Prop where
  enabled : m'.kernel.auditor.enabled = true
  records : ∃ records, m'.kernel.auditor.stream = m.kernel.auditor.stream ++ records ∧
    ∀ r ∈ records, r.Current ∧ m.kernel.jiffies.toNat ≤ r.jiffies.toNat ∧
      r.jiffies.toNat ≤ m'.kernel.jiffies.toNat

theorem after_logged {m : Machine} (enabled : m.kernel.auditor.enabled = true)
    {events : List Event} (fits : m.kernel.jiffies.toNat + elapsed events < 2 ^ 64) :
    Logged m (after eventStep m events) ∧
      (after eventStep m events).kernel.jiffies.toNat =
        m.kernel.jiffies.toNat + elapsed events := by
  induction events using List.reverseRecOn with
  | nil => exact ⟨⟨enabled, [], (List.append_nil _).symm, List.forall_mem_nil _⟩, rfl⟩
  | append_singleton events e ih =>
      have total : elapsed (events ++ [e]) = elapsed events + e.ticks.toNat := by
        simp [elapsed]
      obtain ⟨⟨on, records, stream, times⟩, time⟩ := ih (by omega)
      have next : (eventStep (after eventStep m events) e).kernel.jiffies.toNat =
          (after eventStep m events).kernel.jiffies.toNat + e.ticks.toNat := by
        rw [eventStep_jiffies, BitVec.toNat_add]
        omega
      obtain ⟨added, grown, stamped⟩ := eventStep_grows on e
      rw [after_concat]
      have enabled' := (eventStep_enabled (after eventStep m events) e).trans on
      refine ⟨⟨enabled', records ++ added, ?_, fun r member => ?_⟩, by omega⟩
      · rw [grown, stream, List.append_assoc]
      · rcases List.mem_append.mp member with earlier | new
        · obtain ⟨current, low, high⟩ := times r earlier
          exact ⟨current, low, by omega⟩
        · obtain ⟨current, at_time⟩ := stamped r new
          exact ⟨current, by rw [at_time]; omega, by rw [at_time]; omega⟩

/-! ## What the script shows -/

/-- The machine when the main loop starts: the root task has a record. -/
def booted (image : BootImage) (statics : Statics) : Machine :=
  taskEmitKernelCreateEvent (auditorInit (boot image) statics)

theorem kernelCreate_grows (m : Machine) :
    StreamGrows m.kernel.jiffies m.kernel.auditor (taskEmitKernelCreateEvent m).kernel.auditor := by
  unfold taskEmitKernelCreateEvent
  split
  · rw [Machine.emit, System.emit_auditor]
    exact .emit _ ⟨rfl, rfl, .taskCreate, rfl⟩
  · exact .of_eq rfl

theorem booted_jiffies (image : BootImage) (statics : Statics) :
    (booted image statics).kernel.jiffies = image.jiffies := by
  unfold booted taskEmitKernelCreateEvent
  split
  · exact System.emit_jiffies _ _
  · rfl

theorem upTo_append {limit : Nat} {early late : List AuditorRecord}
    (before : ∀ r ∈ early, r.jiffies.toNat ≤ limit) (behind : ∀ r ∈ late, limit < r.jiffies.toNat) :
    upTo (some limit) (early ++ late) = early := by
  have nothing : late.takeWhile (fun r => !(some limit).any (· < r.jiffies.toNat)) = [] := by
    cases late with
    | nil => rfl
    | cons r late => simp [behind r List.mem_cons_self]
  rw [upTo, List.takeWhile_append_of_pos, nothing, List.append_nil]
  intro r member
  simpa using before r member

/-- With a time from the end of one part of a run up to the next tick, the script rebuilds the graph
that the records of this part describe, and this is the one of the tasks and domain edges that the
kernel had then. -/
theorem graph_at_time (image : BootImage) (statics : Statics) (before later : List Event)
    (ticks : BitVec 64) (limit : Nat)
    (fits : image.jiffies.toNat + elapsed (before ++ .call (.tick ticks) :: later) < 2 ^ 64) :
    let m := after eventStep (booted image statics) before
    let final := after eventStep m (.call (.tick ticks) :: later)
    m.kernel.jiffies.toNat ≤ limit → limit < m.kernel.jiffies.toNat + ticks.toNat →
      rebuild (some limit) (final.kernel.auditor.stream.flatMap AuditorRecord.toBytes) =
          some m.graph ∧
        TaskGraphExact m.kernel m.graph := by
  intro m final low high
  have total : elapsed (before ++ .call (.tick ticks) :: later) =
      elapsed before + (ticks.toNat + elapsed later) := by
    simp [elapsed, Event.ticks]
  have boot_known : Known (booted image statics) := boot_known image statics
  have known : Known m := invariant_after boot_known (fun _ e h => h.step e) before
  -- the records up to the tick, the one of the root task among them
  have start := booted_jiffies image statics
  obtain ⟨root, first, rooted⟩ := kernelCreate_grows (auditorInit (boot image) statics)
  obtain ⟨⟨-, records, stream, times⟩, time⟩ :
      Logged (booted image statics) m ∧ m.kernel.jiffies.toNat = _ :=
    after_logged boot_known.enabled (by rw [start]; omega)
  rw [start] at time
  have early : ∀ r ∈ m.kernel.auditor.stream, r.Current ∧ r.jiffies.toNat ≤ limit := by
    rw [stream]
    refine List.forall_mem_append.mpr ⟨fun r member => ?_, fun r member => ?_⟩
    · rw [booted, first] at member
      obtain ⟨current, at_time⟩ := rooted r member
      have boot_time : r.jiffies = image.jiffies := at_time
      exact ⟨current, by rw [boot_time]; omega⟩
    · obtain ⟨current, -, high⟩ := times r member
      exact ⟨current, by omega⟩
  -- the records behind the tick
  have later_start : (eventStep m (.call (.tick ticks))).kernel.jiffies.toNat =
      m.kernel.jiffies.toNat + ticks.toNat := by
    rw [eventStep_jiffies, BitVec.toNat_add]
    change (m.kernel.jiffies.toNat + ticks.toNat) % 2 ^ 64 = _
    omega
  have on : (eventStep m (.call (.tick ticks))).kernel.auditor.enabled = true := known.enabled
  obtain ⟨⟨-, added, stream', times'⟩, -⟩ : Logged (eventStep m (.call (.tick ticks))) final ∧ _ :=
    after_logged on (by rw [later_start]; omega)
  have late : ∀ r ∈ added, r.Current ∧ limit < r.jiffies.toNat := by
    intro r member
    obtain ⟨current, low, -⟩ := times' r member
    exact ⟨current, by omega⟩
  have whole : final.kernel.auditor.stream = m.kernel.auditor.stream ++ added := stream'
  refine ⟨?_, known.exact⟩
  rw [whole, rebuild_emitted, upTo_append (fun r member => (early r member).2)
    fun r member => (late r member).2]
  · rfl
  · exact List.forall_mem_append.mpr
      ⟨fun r member => (early r member).1.magic, fun r member => (late r member).1.magic⟩

/-- A domain edge at time 0, and another one three ticks later. -/
theorem graph_at_time_edges :
    let m := after eventStep (booted sampleImage zeroStatics) [.call (.domainEdgeSet 1 2)]
    rebuild (some 2) ((after eventStep m [.call (.tick 3),
      .call (.domainEdgeSet 2 1)]).kernel.auditor.stream.flatMap AuditorRecord.toBytes) =
        some m.graph :=
  (graph_at_time sampleImage zeroStatics [.call (.domainEdgeSet 1 2)]
    [.call (.domainEdgeSet 2 1)] 3 2 (by decide) (by decide +kernel) (by decide +kernel)).1

end LughOS.Kernel

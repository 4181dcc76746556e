import LughOS.Kernel.Scheduler

/-!
# The cursor of the scheduler

`round_robin.c` keeps one `int` from call to call. The same cursor serves the kernel table and the
arrays of callers, whatever their lengths; `rr_remove_task` moves it, and `rr_set_state` loads it
from a buffer without a look at its value.

An `Access` is what a call of `rr_schedule` does that has a meaning for some cursors only: the use
of an entry, and the increment. With a cursor of at least -1 below the largest `int` a call does
nothing undefined and leaves a cursor of this kind (`rrScheduleAccesses_iff`, `rrSchedule_fits`); of
all calls only `rr_set_state` can bring another.
-/

namespace LughOS.Kernel

open Bytes

/-! ## The calls -/

/-- The kernel table and `rr_cursor`. -/
structure SchedulerState where
  table : TaskTable
  rrCursor : Int

/-- The first two arguments of `schedule`: the null pointer and 0, or an array and its length,
which is an `int`. -/
inductive ScheduleArgs where
  | null
  | array (tasks : List Task) (int : tasks.length < 2 ^ 31)

/-- The array of the caller, where `rr_schedule` uses it. -/
def ScheduleArgs.own? : ScheduleArgs → Option (List Task)
  | .null => none
  | .array tasks _ => if 0 < tasks.length then some tasks else none

def rrMaxTasks : Nat := 64

namespace SchedulerState

def rrInit (s : SchedulerState) : Int × SchedulerState := (0, { s with rrCursor := 0 })

/-- `rr_schedule`; an array of the caller is returned to it and not kept. -/
def rrSchedule (s : SchedulerState) (args : ScheduleArgs) : Option (BitVec 32) × SchedulerState :=
  match args.own? with
  | none =>
      let (id, table, cursor) := Kernel.rrSchedule s.table s.rrCursor
      (id, ⟨table, cursor⟩)
  | some tasks =>
      let (id, _, cursor) := Kernel.rrSchedule { s.table with tasks := tasks } s.rrCursor
      (id, { s with rrCursor := cursor })

def rrAddTask (s : SchedulerState) (task : Option Task) : Int :=
  match task with
  | none => -1
  | some _ => if rrMaxTasks < s.table.tasks.length then -1 else 0

def rrRemoveTask (s : SchedulerState) (id : BitVec 32) : Int × SchedulerState :=
  let (result, table, cursor) := Kernel.rrRemoveTask s.table s.rrCursor id
  (result, ⟨table, cursor⟩)

/-- `rr_get_state` with a buffer of `size` bytes: the bytes it stores, and the size it reports. -/
def rrGetState (s : SchedulerState) (size : Nat) : Int × List Byte × Nat :=
  if size < 4 then (-1, [], 4) else (0, wordBytes 4 (BitVec.ofInt 32 s.rrCursor), 4)

end SchedulerState

/-- The `int` in the first bytes of a buffer. -/
def loadedInt (buf : List Byte) : Int := (BitVec.ofNat 32 (ofBytes (buf.take 4))).toInt

def SchedulerState.rrSetState (s : SchedulerState) (buf : List Byte) : Int × SchedulerState :=
  if buf.length < 4 then (-1, s) else (0, { s with rrCursor := loadedInt buf })

/-- The calls of the scheduler, and the one that makes its table longer. -/
inductive SchedulerCall where
  | init
  | schedule (args : ScheduleArgs)
  | addTask (task : Option Task)
  | removeTask (id : BitVec 32)
  | getState (size : Nat)
  | setState (buf : List Byte)
  | createTask (spec : Option Task)

def schedulerStep (s : SchedulerState) : SchedulerCall → SchedulerState
  | .init => s.rrInit.2
  | .schedule args => (s.rrSchedule args).2
  | .addTask _ => s
  | .removeTask id => (s.rrRemoveTask id).2
  | .getState _ => s
  | .setState buf => (s.rrSetState buf).2
  | .createTask spec => { s with table := (createTaskEntry s.table spec).2.2.2 }

/-! ## Accesses -/

/-- The use of entry `i` of a table of `n` entries, or `rr_cursor + 1`. -/
inductive Access where
  | entry (i : Int) (n : Nat)
  | increment (cursor : Int)
  deriving DecidableEq

/-- The entry exists; the sum is an `int`. -/
def Access.Defined : Access → Prop
  | .entry i n => 0 ≤ i ∧ i < n
  | .increment cursor => -2 ^ 31 ≤ cursor + 1 ∧ cursor + 1 < 2 ^ 31

instance : DecidablePred Access.Defined
  | .entry i n => inferInstanceAs (Decidable (0 ≤ i ∧ i < n))
  | .increment cursor => inferInstanceAs (Decidable (-2 ^ 31 ≤ cursor + 1 ∧ cursor + 1 < 2 ^ 31))

/-- The accesses of the scan, in step with `rrScan`. -/
def rrScanAccesses (tasks : List Task) : Nat → Int → List Access
  | 0, _ => []
  | checked + 1, cursor =>
      let next := rrAdvance tasks.length cursor
      .increment cursor :: .entry next tasks.length ::
        -- The task that is found is marked, and its identifier is read.
        if (entryAt? tasks next).map Task.state = some .ready then [.entry next tasks.length]
        else rrScanAccesses tasks checked next

/-- The accesses of `rr_schedule`: those of its first loop, and those of the scan. -/
def rrScheduleAccesses (tasks : List Task) (cursor : Int) : List Access :=
  if tasks = [] then []
  else
    (List.range tasks.length).map (fun i => .entry i tasks.length) ++
      rrScanAccesses (tasks.map requeue) tasks.length cursor

/-- The entries that a call of `rr_schedule` works on. -/
def SchedulerState.scheduled (s : SchedulerState) (args : ScheduleArgs) : List Task :=
  args.own?.getD s.table.tasks

def schedulerAccesses (s : SchedulerState) : SchedulerCall → List Access
  | .schedule args => rrScheduleAccesses (s.scheduled args) s.rrCursor
  | _ => []

/-! ## One call -/

/-- A cursor whose successor is an `int` and no negative one. -/
def CursorFits (cursor : Int) : Prop := -1 ≤ cursor ∧ cursor + 1 < 2 ^ 31

instance (cursor : Int) : Decidable (CursorFits cursor) := inferInstanceAs (Decidable (_ ∧ _))

section Scan

variable {tasks : List Task} {cursor : Int}

theorem rrAdvance_inside {n : Nat} (some : 0 < n) (low : -1 ≤ cursor) :
    0 ≤ rrAdvance n cursor ∧ rrAdvance n cursor < n := by
  unfold rrAdvance
  split <;> omega

/-- A cursor within a table fits. -/
theorem cursorFits_inside {n : Nat} (int : n < 2 ^ 31) (inside : 0 ≤ cursor ∧ cursor < n) :
    CursorFits cursor := by
  unfold CursorFits
  omega

theorem rrScanAccesses_defined (some : 0 < tasks.length) (int : tasks.length < 2 ^ 31)
    (checked : Nat) (fits : CursorFits cursor) :
    ∀ access ∈ rrScanAccesses tasks checked cursor, access.Defined := by
  induction checked generalizing cursor with
  | zero => simp [rrScanAccesses]
  | succ checked ih =>
      have next := rrAdvance_inside some fits.1
      rw [rrScanAccesses]
      refine List.forall_mem_cons.mpr ⟨⟨by have := fits.1; omega, fits.2⟩, ?_⟩
      refine List.forall_mem_cons.mpr ⟨next, ?_⟩
      split
      · exact List.forall_mem_singleton.mpr next
      · exact ih (cursorFits_inside int next)

theorem rrScan_fits (some : 0 < tasks.length) (int : tasks.length < 2 ^ 31) (checked : Nat)
    (fits : CursorFits cursor) : CursorFits (rrScan tasks checked cursor).2 := by
  induction checked generalizing cursor with
  | zero => exact fits
  | succ checked ih =>
      have next := cursorFits_inside int (rrAdvance_inside some fits.1)
      rw [rrScan]
      split
      · exact next
      · exact ih next

/-- A call does something undefined just if it finds tasks and its cursor does not fit. -/
theorem rrScheduleAccesses_iff (int : tasks.length < 2 ^ 31) :
    (∀ access ∈ rrScheduleAccesses tasks cursor, access.Defined) ↔
      tasks = [] ∨ CursorFits cursor := by
  by_cases empty : tasks = []
  · simp [rrScheduleAccesses, empty]
  have some : 0 < tasks.length := List.length_pos_iff.mpr empty
  rw [rrScheduleAccesses, if_neg empty, List.forall_mem_append]
  simp only [empty, false_or]
  constructor
  · rintro ⟨-, scan⟩
    obtain ⟨rounds, length⟩ := Nat.exists_eq_succ_of_ne_zero some.ne'
    rw [length, rrScanAccesses, List.forall_mem_cons, List.forall_mem_cons] at scan
    obtain ⟨sum, ⟨low, -⟩, -⟩ := scan
    refine ⟨?_, sum.2⟩
    unfold rrAdvance at low
    split at low <;> omega
  · intro fits
    constructor
    · intro access member
      obtain ⟨i, inside, rfl⟩ := List.mem_map.mp member
      have := List.mem_range.mp inside
      exact ⟨by omega, by omega⟩
    · have length : (tasks.map requeue).length = tasks.length := List.length_map _
      exact rrScanAccesses_defined (by rwa [length]) (by rwa [length]) _ fits

theorem rrSchedule_fits (t : TaskTable) (int : t.tasks.length < 2 ^ 31)
    (fits : CursorFits cursor) : CursorFits (rrSchedule t cursor).2.2 := by
  unfold rrSchedule
  split
  · exact fits
  · rename_i found
    have length : (t.tasks.map requeue).length = t.tasks.length := List.length_map _
    have some : 0 < t.tasks.length := List.length_pos_iff.mpr found
    have scan := rrScan_fits (by rwa [length]) (by rwa [length]) (t.tasks.map requeue).length fits
    dsimp only
    split <;> rename_i stop <;> rw [stop] at scan <;> exact scan

end Scan

/-! ## Runs -/

/-- The call, if it schedules, finds no tasks or a cursor that fits. -/
def SchedulesFitting (s : SchedulerState) : SchedulerCall → Prop
  | .schedule args => s.scheduled args = [] ∨ CursorFits s.rrCursor
  | _ => True

/-- The call, if it loads a cursor, loads one that fits. -/
def LoadsFitting : SchedulerCall → Prop
  | .setState buf => buf.length < 4 ∨ CursorFits (loadedInt buf)
  | _ => True

namespace SchedulerState

variable {s : SchedulerState}

/-- `task.c` has room for `MAX_TASKS` entries. -/
def Bounded (s : SchedulerState) : Prop := s.table.tasks.length ≤ maxTasks

theorem Bounded.int (bounded : s.Bounded) : s.table.tasks.length < 2 ^ 31 :=
  Nat.lt_of_le_of_lt bounded (by decide)

theorem Bounded.scheduled_int (bounded : s.Bounded) (args : ScheduleArgs) :
    (s.scheduled args).length < 2 ^ 31 := by
  unfold scheduled
  cases args with
  | null => exact bounded.int
  | array tasks int =>
      unfold ScheduleArgs.own?
      dsimp only
      split
      · exact int
      · exact bounded.int

/-- The table after a call of `rr_schedule`, and the cursor in terms of the entries it used. -/
theorem rrSchedule_cases (s : SchedulerState) (args : ScheduleArgs) :
    (s.rrSchedule args).2.table.tasks.length = s.table.tasks.length ∧
      (s.rrSchedule args).2.rrCursor =
        (Kernel.rrSchedule { s.table with tasks := s.scheduled args } s.rrCursor).2.2 := by
  have length := congrArg List.length
    (rrSchedule_map (f := Task.taskId) (fun _ _ _ _ => rfl) s.table s.rrCursor)
  rw [List.length_map, List.length_map] at length
  unfold rrSchedule scheduled
  split
  · rename_i own
    rw [own]
    exact ⟨length, rfl⟩
  · rename_i tasks own
    rw [own]
    exact ⟨rfl, rfl⟩

theorem Bounded.step (bounded : s.Bounded) (call : SchedulerCall) :
    (schedulerStep s call).Bounded := by
  cases call with
  | init => exact bounded
  | schedule args => exact (rrSchedule_cases s args).1.trans_le bounded
  | addTask task => exact bounded
  | removeTask id =>
      simp only [schedulerStep, rrRemoveTask, Kernel.rrRemoveTask]
      split
      · exact bounded
      · exact (List.length_modify _ _ _).trans_le bounded
  | getState size => exact bounded
  | setState buf =>
      simp only [schedulerStep, rrSetState]
      split <;> exact bounded
  | createTask spec =>
      obtain ⟨-, -, same⟩ | ⟨_, child, -, -, -, room, -, new⟩ := createTaskEntry_cases s.table spec
      · exact (congrArg (fun t : TaskTable => t.tasks.length) same).trans_le bounded
      · refine (congrArg (fun t : TaskTable => t.tasks.length) new).trans_le ?_
        simpa using room

/-- Only a load can bring a cursor that does not fit. -/
theorem cursorFits_step (bounded : s.Bounded) (fits : CursorFits s.rrCursor) {call : SchedulerCall}
    (loads : LoadsFitting call) : CursorFits (schedulerStep s call).rrCursor := by
  cases call with
  | init => exact (by decide : CursorFits 0)
  | schedule args =>
      rw [schedulerStep, (rrSchedule_cases s args).2]
      exact rrSchedule_fits _ (bounded.scheduled_int args) fits
  | addTask task => exact fits
  | removeTask id =>
      simp only [schedulerStep, rrRemoveTask, Kernel.rrRemoveTask]
      split
      · exact fits
      · have int := bounded.int
        dsimp only
        split
        · exact cursorFits_inside int ⟨by omega, by omega⟩
        · exact fits
  | getState size => exact fits
  | setState buf =>
      simp only [schedulerStep, rrSetState]
      split
      · exact fits
      · rename_i long
        exact loads.resolve_left long
  | createTask spec => exact fits

theorem Bounded.accesses_iff (bounded : s.Bounded) (call : SchedulerCall) :
    (∀ access ∈ schedulerAccesses s call, access.Defined) ↔ SchedulesFitting s call := by
  cases call with
  | schedule args => exact rrScheduleAccesses_iff (bounded.scheduled_int args)
  | _ => exact iff_of_true (fun _ member => by cases member) trivial

theorem meets_of_loadsFitting (bounded : s.Bounded) (fits : CursorFits s.rrCursor)
    {calls : List SchedulerCall} (loads : ∀ call ∈ calls, LoadsFitting call) :
    Runs.Meets schedulerStep SchedulesFitting s calls := by
  induction calls generalizing s with
  | nil => trivial
  | cons call calls ih =>
      obtain ⟨now, later⟩ := List.forall_mem_cons.mp loads
      refine ⟨?_, ih (bounded.step call) (cursorFits_step bounded fits now) later⟩
      cases call with
      | schedule args => exact .inr fits
      | _ => trivial

end SchedulerState

/-- The calls of a run use entries of their tables only, and never leave the range of an `int`, just
if each call of `rr_schedule` that finds tasks has a cursor of at least -1 below the largest `int`.
It is enough that no buffer brings another cursor. -/
theorem scheduler_accesses_iff (t : TaskTable) (bounded : t.tasks.length ≤ maxTasks)
    (calls : List SchedulerCall) :
    ((∀ access ∈ Runs.outputs schedulerStep schedulerAccesses ⟨t, 0⟩ calls, access.Defined) ↔
      Runs.Meets schedulerStep SchedulesFitting ⟨t, 0⟩ calls) ∧
    ((∀ call ∈ calls, LoadsFitting call) →
      ∀ access ∈ Runs.outputs schedulerStep schedulerAccesses ⟨t, 0⟩ calls, access.Defined) := by
  have start : SchedulerState.Bounded ⟨t, 0⟩ := bounded
  have condition : (∀ access ∈ Runs.outputs schedulerStep schedulerAccesses ⟨t, 0⟩ calls,
      access.Defined) ↔ Runs.Meets schedulerStep SchedulesFitting ⟨t, 0⟩ calls := by
    rw [Runs.forall_outputs_iff]
    exact Runs.meets_congr start (fun _ call inside _ => inside.step call)
      (fun _ call inside _ => inside.accesses_iff call) (Runs.meets_true _ _)
  refine ⟨condition, fun loads => condition.mpr ?_⟩
  exact SchedulerState.meets_of_loadsFitting start (by decide : CursorFits 0) loads

/-- A cursor of -1 is loaded in front of a call for the kernel table. -/
theorem scheduler_accesses_iff_minusOne :
    CursorFits (loadedInt [0xFF, 0xFF, 0xFF, 0xFF]) ∧
      ∀ access ∈ Runs.outputs schedulerStep schedulerAccesses
        ⟨taskInit ⟨[], none, 1, 0x1000⟩, 0⟩ [.setState [0xFF, 0xFF, 0xFF, 0xFF], .schedule .null],
        access.Defined := by
  have fits : CursorFits (loadedInt [0xFF, 0xFF, 0xFF, 0xFF]) := by decide
  refine ⟨fits, (scheduler_accesses_iff _ (by decide) _).2 ?_⟩
  simp only [List.forall_mem_cons, LoadsFitting]
  exact ⟨.inr fits, trivial, by simp⟩

/-- A buffer with -5 leads to entry -4 of the kernel table, and one with the largest `int` to a sum
that is none. -/
theorem loaded_cursor_leaves_table :
    Access.entry (-4) 1 ∈ Runs.outputs schedulerStep schedulerAccesses
      ⟨taskInit ⟨[], none, 1, 0x1000⟩, 0⟩ [.setState [0xFB, 0xFF, 0xFF, 0xFF], .schedule .null] ∧
    Access.increment (2 ^ 31 - 1) ∈ Runs.outputs schedulerStep schedulerAccesses
      ⟨taskInit ⟨[], none, 1, 0x1000⟩, 0⟩ [.setState [0xFF, 0xFF, 0xFF, 0x7F], .schedule .null] ∧
    ¬(Access.entry (-4) 1).Defined ∧ ¬(Access.increment (2 ^ 31 - 1)).Defined := by
  decide

end LughOS.Kernel

import LughOS.Kernel.Syscalls
import LughOS.Kernel.TaskGraph

/-!
# The running task

`rr_schedule` marks the task it picks as running, and it is the caller that has to act on
the choice. `task_yield` switches to that task, unless the task has no saved frame to switch
to; `SYS_YIELD` never does. In both cases the mark stays where it is, on a task that does
not run.

`OnlyCurrentRuns` says that the mark is nowhere but on the current task. One call establishes
or keeps it just if it acts on the choice of its scheduler, which is `Dispatched`; so a run
keeps it throughout just if each of its calls does.
-/

namespace LughOS.Kernel

/-! ## Yielding -/

/-- `arm_context_switch` and `x86_context_switch`; `sp` is the stack pointer of the task that
is left. -/
def contextSwitch (t : TaskTable) (prev next : Nat) (sp : BitVec 32) : TaskTable :=
  { t with
    tasks := t.tasks.modify prev fun task => { task with savedSp := sp }
    current := some next }

/-- Whether `task_find` knows a task of this identifier with a frame to return to. -/
def HasFrame (tasks : List Task) (id : BitVec 32) : Prop :=
  ∃ task, taskFind tasks id = some task ∧ task.savedSp ≠ 0

instance (tasks : List Task) (id : BitVec 32) : Decidable (HasFrame tasks id) :=
  decidable_of_iff ((taskFind tasks id).any fun task => decide (task.savedSp ≠ 0)) (by
    cases h : taskFind tasks id <;> simp [HasFrame, h])

/-- What `task_yield` does with the choice of the scheduler. -/
def actOn (t : TaskTable) (prev : Task) (sp : BitVec 32) : Option (BitVec 32) → TaskTable
  | none => t
  | some nextId =>
      if nextId = prev.taskId then t
      else
        match taskPosition? t.tasks nextId with
        | none => t
        | some next =>
            if HasFrame t.tasks nextId then contextSwitch t (t.current.getD 0) next sp else t

def Machine.taskYield (m : Machine) (sp : BitVec 32) : Machine :=
  match m.kernel.currentTask with
  | none => m
  | some prev =>
      let (nextId, table, cursor) := rrSchedule m.kernel.table m.rrCursor
      { m.setTable (actOn table prev sp nextId) with rrCursor := cursor }

/-- The calls that create, schedule and end tasks. -/
inductive TaskCall where
  | createTask (spec : Option Task)
  | taskYield (sp : BitVec 32)
  | sysCreateTask (arch : Arch) (pointer : BitVec 32)
  | sysYield
  | sysExit (code : BitVec 32)

def taskStep (m : Machine) : TaskCall → Machine
  | .createTask spec => m.perform (.createTask spec)
  | .taskYield sp => m.taskYield sp
  | .sysCreateTask arch pointer => (m.sysCreateTask arch pointer).2
  | .sysYield => m.sysYield
  | .sysExit code => m.sysExit code

/-- A machine on which `task_init` was called. -/
def Machine.withRootTask (m : Machine) (kernelStacks : BitVec 32) : Machine :=
  m.setTable (taskInit ⟨[], none, 1, kernelStacks⟩)

/-! ## The mark of the scheduler -/

/-- No task but the current one is marked as running. -/
def OnlyCurrentRuns (t : TaskTable) : Prop :=
  ∀ (i : Nat) (task : Task), t.tasks[i]? = some task → task.state = .running → t.current = some i

/-- The task that the scheduler would pick now. -/
def Machine.nextTask (m : Machine) : Option (BitVec 32) :=
  (rrSchedule m.kernel.table m.rrCursor).1

def Machine.IsCurrent (m : Machine) (id : BitVec 32) : Prop :=
  m.kernel.currentTask.map Task.taskId = some id

/-- The call goes on in the task that its scheduler picks. -/
def Dispatched (m : Machine) : TaskCall → Prop
  | .taskYield _ => ∀ id, m.nextTask = some id → m.IsCurrent id ∨ HasFrame m.kernel.table.tasks id
  | .sysYield => ∀ id, m.nextTask = some id → m.IsCurrent id
  | _ => True

theorem requeue_not_running (task : Task) : (requeue task).state ≠ .running := by
  unfold requeue
  split
  · simp
  · assumption

theorem requeued_not_running {tasks : List Task} {i : Nat} {task : Task}
    (at_i : (tasks.map requeue)[i]? = some task) : task.state ≠ .running := by
  rw [List.getElem?_map] at at_i
  obtain ⟨old, -, rfl⟩ := Option.map_eq_some_iff.mp at_i
  exact requeue_not_running old

/-- Entry `i` is the only one that is marked, and it has the identifier `id`. -/
structure Marked (t : TaskTable) (i : Nat) (id : BitVec 32) : Prop where
  entry : ∃ task, t.tasks[i]? = some task ∧ task.state = .running ∧ task.taskId = id
  only : ∀ (j : Nat) (other : Task), t.tasks[j]? = some other → other.state = .running → j = i

/-- The scheduler leaves the mark on its choice, or nowhere. -/
theorem rrSchedule_marks (t : TaskTable) (cursor : Int) :
    ((rrSchedule t cursor).1 = none ∧
        ∀ (i : Nat) (task : Task), (rrSchedule t cursor).2.1.tasks[i]? = some task →
          task.state ≠ .running) ∨
      ∃ i id, (rrSchedule t cursor).1 = some id ∧ Marked (rrSchedule t cursor).2.1 i id := by
  unfold rrSchedule
  split
  · rename_i empty
    exact .inl ⟨rfl, by simp [empty]⟩
  dsimp only
  split
  · exact .inl ⟨rfl, fun i task at_i => requeued_not_running at_i⟩
  · rename_i stop found
    obtain ⟨task, picked, -⟩ := rrScan_ready found
    have at_stop := entryAt?_eq_some picked
    refine .inr ⟨stop.toNat, task.taskId, by rw [picked]; rfl,
      ⟨{ task with state := .running }, ?_, rfl, rfl⟩, ?_⟩
    · simp [setTaskState, at_stop]
    · intro j other at_j running
      by_contra elsewhere
      have before : (t.tasks.map requeue)[j]? = some other := by
        simpa [setTaskState, List.getElem?_modify, Ne.symm elsewhere] using at_j
      exact requeued_not_running before running

theorem rrSchedule_current (t : TaskTable) (cursor : Int) :
    (rrSchedule t cursor).2.1.current = t.current := by
  unfold rrSchedule
  split
  · rfl
  · dsimp only
    split <;> rfl

/-- A task that runs is put back into the rotation before the scan. -/
theorem rrSchedule_requeued (t : TaskTable) {tasks : List Task} (cursor : Int)
    (same : tasks.map requeue = t.tasks.map requeue) :
    rrSchedule { t with tasks := tasks } cursor = rrSchedule t cursor := by
  have empty : tasks = [] ↔ t.tasks = [] := by
    rw [← List.map_eq_nil_iff (f := requeue), same, List.map_eq_nil_iff]
  unfold rrSchedule
  by_cases none : t.tasks = []
  · rw [if_pos none, if_pos (empty.mpr none), empty.mpr none, ← none]
  · rw [if_neg none, if_neg (mt empty.mp none)]
    simp only [same]

/-! ## One call -/

/-- The table of a machine after `task_init`: its lineage, and a current task. -/
structure Rooted (t : TaskTable) : Prop where
  lineage : Lineage t
  current : ∃ i task, t.current = some i ∧ t.tasks[i]? = some task

theorem taskInit_rooted (kernelStacks : BitVec 32) :
    Rooted (taskInit ⟨[], none, 1, kernelStacks⟩) :=
  ⟨taskInit_lineage kernelStacks, 0, _, rfl, rfl⟩

theorem Rooted.of_kinship {t t' : TaskTable} (rooted : Rooted t)
    (tasks : t'.tasks.map kinship = t.tasks.map kinship) (next : t'.nextTaskId = t.nextTaskId)
    (current : t'.current = t.current) : Rooted t' := by
  obtain ⟨i, task, position, at_i⟩ := rooted.current
  refine ⟨rooted.lineage.of_kinship tasks next, i, ?_⟩
  obtain ⟨task', at_i', -⟩ := getElem?_of_map_eq tasks at_i
  exact ⟨task', current.trans position, at_i'⟩

theorem Rooted.current_iff {t : TaskTable} (rooted : Rooted t) {i : Nat} {id : BitVec 32}
    (marked : Marked t i id) : t.currentTask.map Task.taskId = some id ↔ t.current = some i := by
  obtain ⟨k, caller, position, at_k⟩ := rooted.current
  obtain ⟨task, at_i, -, rfl⟩ := marked.entry
  simp only [TaskTable.currentTask, position, Option.bind_some, at_k, Option.map_some,
    Option.some.injEq]
  constructor
  · exact rooted.lineage.same_position at_k at_i
  · rintro rfl
    rw [at_k] at at_i
    rw [Option.some.inj at_i]

theorem Marked.onlyCurrentRuns_iff {t : TaskTable} {i : Nat} {id : BitVec 32}
    (marked : Marked t i id) : OnlyCurrentRuns t ↔ t.current = some i := by
  constructor
  · intro only
    obtain ⟨task, at_i, running, -⟩ := marked.entry
    exact only i task at_i running
  · intro current j other at_j running
    rw [marked.only j other at_j running]
    exact current

theorem taskFind_stateless (tasks : List Task) (id : BitVec 32) :
    taskFind (tasks.map stateless) id = (taskFind tasks id).map stateless := by
  unfold taskFind
  split
  · rfl
  · rw [List.find?_map]
    rfl

theorem HasFrame.of_stateless {tasks tasks' : List Task} {id : BitVec 32}
    (same : tasks'.map stateless = tasks.map stateless) (frame : HasFrame tasks id) :
    HasFrame tasks' id := by
  obtain ⟨task, found, saved⟩ := frame
  have known := taskFind_stateless tasks' id
  rw [same, taskFind_stateless, found] at known
  obtain ⟨task', found', eq⟩ := Option.map_eq_some_iff.mp known.symm
  have sp : (stateless task').savedSp = (stateless task).savedSp := congrArg Task.savedSp eq
  exact ⟨task', found', sp.trans_ne saved⟩

theorem TaskTable.currentId_eq (t : TaskTable) :
    t.currentTask.map Task.taskId = t.current.bind fun i => (t.tasks.map Task.taskId)[i]? := by
  cases current : t.current <;> simp [TaskTable.currentTask, current]

theorem Rooted.scheduled {t : TaskTable} (rooted : Rooted t) (cursor : Int) :
    Rooted (rrSchedule t cursor).2.1 :=
  rooted.of_kinship (rrSchedule_map (fun _ _ _ _ => rfl) t cursor)
    (rrSchedule_nextTaskId t cursor) (rrSchedule_current t cursor)

namespace Machine

/-- The choice of the scheduler and the table it leaves, in terms of the machine before. -/
theorem nextTask_marks {m : Machine} (rooted : Rooted m.kernel.table) :
    (m.nextTask = none ∧ OnlyCurrentRuns (rrSchedule m.kernel.table m.rrCursor).2.1) ∨
      ∃ i id, m.nextTask = some id ∧ Marked (rrSchedule m.kernel.table m.rrCursor).2.1 i id ∧
        (m.IsCurrent id ↔ (rrSchedule m.kernel.table m.rrCursor).2.1.current = some i) := by
  obtain ⟨idle, unmarked⟩ | ⟨i, id, choice, marked⟩ := rrSchedule_marks m.kernel.table m.rrCursor
  · exact .inl ⟨idle, fun i task at_i running => absurd running (unmarked i task at_i)⟩
  · refine .inr ⟨i, id, choice, marked, ?_⟩
    rw [← (rooted.scheduled m.rrCursor).current_iff marked, TaskTable.currentId_eq,
      rrSchedule_map (fun _ _ _ _ => rfl), rrSchedule_current, ← TaskTable.currentId_eq]
    rfl

theorem sysYield_table (m : Machine) :
    m.sysYield.kernel.table = (rrSchedule m.kernel.table m.rrCursor).2.1 := by
  unfold sysYield
  dsimp only [setTable]
  congr 2
  apply congrArg Prod.snd
  split
  · rename_i caller current
    split
    · rename_i running
      obtain ⟨i, position, at_i⟩ := Option.bind_eq_some_iff.mp current
      refine rrSchedule_requeued m.kernel.table m.rrCursor (modify_map fun task here => ?_)
      rw [position, Option.getD_some, at_i] at here
      cases here
      simp [requeue, running]
    · rfl
  · rfl

theorem sysYield_iff {m : Machine} (rooted : Rooted m.kernel.table) :
    OnlyCurrentRuns m.sysYield.kernel.table ↔ Dispatched m .sysYield := by
  rw [sysYield_table]
  obtain ⟨idle, only⟩ | ⟨i, id, choice, marked, current⟩ := nextTask_marks rooted
  · simp [Dispatched, idle, only]
  · simp [Dispatched, choice, marked.onlyCurrentRuns_iff, current]

theorem taskYield_table {m : Machine} {prev : Task} (current : m.kernel.currentTask = some prev)
    (sp : BitVec 32) :
    (m.taskYield sp).kernel.table =
      actOn (rrSchedule m.kernel.table m.rrCursor).2.1 prev sp m.nextTask := by
  simp only [taskYield, current]
  rfl

end Machine

/-- After a switch the mark is on the current task, as it was on the one switched to. -/
theorem Marked.contextSwitch {t : TaskTable} {i : Nat} {id : BitVec 32} (marked : Marked t i id)
    (prev : Nat) (sp : BitVec 32) : OnlyCurrentRuns (contextSwitch t prev i sp) := by
  intro j other at_j running
  obtain ⟨old, at_old, rfl⟩ := Option.map_eq_some_iff.mp
    ((List.getElem?_modify _ _ t.tasks j).symm.trans at_j)
  have still : old.state = .running := by
    split at running <;> exact running
  rw [marked.only j old at_old still]
  rfl

namespace Machine

theorem taskYield_iff {m : Machine} (rooted : Rooted m.kernel.table) (sp : BitVec 32) :
    OnlyCurrentRuns (m.taskYield sp).kernel.table ↔ Dispatched m (.taskYield sp) := by
  obtain ⟨k, prev, position, at_k⟩ := rooted.current
  have caller : m.kernel.currentTask = some prev := Option.bind_eq_some_iff.mpr ⟨k, position, at_k⟩
  have states : (rrSchedule m.kernel.table m.rrCursor).2.1.tasks.map stateless =
      m.kernel.table.tasks.map stateless := rrSchedule_map (fun _ _ _ _ => rfl) _ _
  rw [taskYield_table caller]
  obtain ⟨idle, only⟩ | ⟨i, id, choice, marked, current⟩ := nextTask_marks rooted
  · simp [Dispatched, idle, actOn, only]
  have isCurrent : m.IsCurrent id ↔ id = prev.taskId := by
    simp [IsCurrent, caller, eq_comm]
  simp only [Dispatched, choice, Option.some.injEq, forall_eq', actOn]
  by_cases same : id = prev.taskId
  · rw [if_pos same, marked.onlyCurrentRuns_iff, ← current]
    simp only [isCurrent.mpr same, true_or]
  rw [if_neg same]
  obtain ⟨task, at_i, -, rfl⟩ := marked.entry
  rw [(rooted.scheduled m.rrCursor).lineage.position_of at_i]
  dsimp only
  by_cases frame : HasFrame m.kernel.table.tasks task.taskId
  · rw [if_pos (frame.of_stateless states)]
    simp [frame, marked.contextSwitch]
  · rw [if_neg (mt (HasFrame.of_stateless states.symm) frame), marked.onlyCurrentRuns_iff,
      ← current]
    simp [frame]

end Machine

/-- `create_task` adds ready tasks only, and the caller stays current. -/
theorem createTaskEntry_added (t : TaskTable) (spec : Option Task) :
    (createTaskEntry t spec).2.2.2.current = t.current ∧
      ∃ added : List Task, (createTaskEntry t spec).2.2.2.tasks = t.tasks ++ added ∧
        ∀ task ∈ added, task.state = .ready := by
  unfold createTaskEntry
  split
  · exact ⟨rfl, [], by simp⟩
  · rename_i spec
    split
    · exact ⟨rfl, [], by simp⟩
    · rename_i parent current
      split
      · exact ⟨rfl, [], by simp⟩
      · split
        · exact ⟨rfl, [], by simp⟩
        · refine ⟨rfl, [childTask t spec parent], rfl, ?_⟩
          simp [childTask]

namespace Machine

theorem createTask_table (m : Machine) (spec : Option Task) :
    (m.perform (.createTask spec)).kernel.table = (createTaskEntry m.kernel.table spec).2.2.2 :=
  Kernel.createTask_table m.kernel spec

theorem createTask_rooted {m : Machine} (rooted : Rooted m.kernel.table) (spec : Option Task) :
    Rooted (m.perform (.createTask spec)).kernel.table := by
  obtain ⟨i, task, position, at_i⟩ := rooted.current
  obtain ⟨current, added, tasks, -⟩ := createTaskEntry_added m.kernel.table spec
  rw [createTask_table]
  refine ⟨rooted.lineage.createTaskEntry spec, i, task, current.trans position, ?_⟩
  rw [tasks, getElem?_append_of_some at_i]

theorem createTask_onlyCurrentRuns {m : Machine} (only : OnlyCurrentRuns m.kernel.table)
    (spec : Option Task) : OnlyCurrentRuns (m.perform (.createTask spec)).kernel.table := by
  obtain ⟨current, added, tasks, ready⟩ := createTaskEntry_added m.kernel.table spec
  rw [createTask_table]
  intro i task at_i running
  rw [tasks, List.getElem?_append] at at_i
  split at at_i
  · exact current.trans (only i task at_i running)
  · have := ready task (List.mem_of_getElem? at_i)
    rw [running] at this
    cases this

/-- What `SYS_EXIT` leaves of the table. -/
theorem sysExit_table {m : Machine} (rooted : Rooted m.kernel.table) (code : BitVec 32) :
    ∃ i, m.kernel.table.current = some i ∧
      (m.sysExit code).kernel.table = setTaskState m.kernel.table i .terminated := by
  obtain ⟨i, caller, position, at_i⟩ := rooted.current
  have current : m.kernel.currentTask = some caller :=
    Option.bind_eq_some_iff.mpr ⟨i, position, at_i⟩
  obtain ⟨idle, -⟩ | ⟨caller', current', -, table⟩ := m.sysExit_cases code
  · rw [current] at idle
    cases idle
  · rw [current] at current'
    cases current'
    rw [position, Option.getD_some, rooted.lineage.removed at_i] at table
    exact ⟨i, position, table⟩

theorem sysExit_onlyCurrentRuns {m : Machine} (rooted : Rooted m.kernel.table)
    (only : OnlyCurrentRuns m.kernel.table) (code : BitVec 32) :
    OnlyCurrentRuns (m.sysExit code).kernel.table := by
  obtain ⟨i, position, table⟩ := sysExit_table rooted code
  rw [table]
  intro j task at_j running
  by_cases here : i = j
  · exact here ▸ position
  · refine only j task ?_ running
    simpa [setTaskState, List.getElem?_modify, here] using at_j

end Machine

/-! ## Every call, and a run -/

theorem taskPosition?_lt {tasks : List Task} {id : BitVec 32} {i : Nat}
    (found : taskPosition? tasks id = some i) : i < tasks.length := by
  unfold taskPosition? at found
  split at found
  · cases found
  · exact (List.findIdx?_eq_some_iff_getElem.mp found).1

theorem actOn_rooted {t : TaskTable} (rooted : Rooted t) (prev : Task) (sp : BitVec 32)
    (choice : Option (BitVec 32)) : Rooted (actOn t prev sp choice) := by
  unfold actOn
  split
  · exact rooted
  split
  · exact rooted
  split
  · exact rooted
  rename_i next found
  split
  · have kin : (contextSwitch t (t.current.getD 0) next sp).tasks.map kinship =
        t.tasks.map kinship := modify_map fun _ _ => rfl
    have inside : next < (contextSwitch t (t.current.getD 0) next sp).tasks.length := by
      simpa [contextSwitch] using taskPosition?_lt found
    exact ⟨rooted.lineage.of_kinship kin rfl, next, _, rfl, List.getElem?_eq_getElem inside⟩
  · exact rooted

theorem taskStep_rooted {m : Machine} (rooted : Rooted m.kernel.table) (call : TaskCall) :
    Rooted (taskStep m call).kernel.table := by
  cases call with
  | createTask spec => exact Machine.createTask_rooted rooted spec
  | taskYield sp =>
      obtain ⟨i, prev, position, at_i⟩ := rooted.current
      have caller : m.kernel.currentTask = some prev :=
        Option.bind_eq_some_iff.mpr ⟨i, position, at_i⟩
      rw [taskStep, Machine.taskYield_table caller]
      exact actOn_rooted (rooted.scheduled m.rrCursor) prev sp m.nextTask
  | sysCreateTask arch pointer =>
      simp only [taskStep, Machine.sysCreateTask]
      split
      · exact Machine.createTask_rooted rooted _
      · exact rooted
  | sysYield =>
      rw [taskStep, Machine.sysYield_table]
      exact rooted.scheduled m.rrCursor
  | sysExit code =>
      obtain ⟨i, -, table⟩ := Machine.sysExit_table rooted code
      rw [taskStep, table]
      exact rooted.of_kinship (modify_map fun _ _ => rfl) rfl rfl

theorem taskStep_onlyCurrentRuns_iff {m : Machine} (rooted : Rooted m.kernel.table)
    (only : OnlyCurrentRuns m.kernel.table) (call : TaskCall) :
    OnlyCurrentRuns (taskStep m call).kernel.table ↔ Dispatched m call := by
  cases call with
  | createTask spec => exact iff_of_true (Machine.createTask_onlyCurrentRuns only spec) trivial
  | taskYield sp => exact Machine.taskYield_iff rooted sp
  | sysCreateTask arch pointer =>
      refine iff_of_true ?_ trivial
      simp only [taskStep, Machine.sysCreateTask]
      split
      · exact Machine.createTask_onlyCurrentRuns only _
      · exact only
  | sysYield => exact Machine.sysYield_iff rooted
  | sysExit code => exact iff_of_true (Machine.sysExit_onlyCurrentRuns rooted only code) trivial

/-- From `task_init` on, the current task is the only one marked as running in every state of
a run just if each call goes on in the task that its scheduler picks. -/
theorem only_current_runs_iff (m : Machine) (kernelStacks : BitVec 32) (calls : List TaskCall) :
    (∀ before, before <+: calls →
        OnlyCurrentRuns (Runs.after taskStep (m.withRootTask kernelStacks) before).kernel.table) ↔
      Runs.Meets taskStep Dispatched (m.withRootTask kernelStacks) calls := by
  apply Runs.throughout_iff_meets (I := fun m : Machine => Rooted m.kernel.table)
    (P := fun m : Machine => OnlyCurrentRuns m.kernel.table)
  · exact taskInit_rooted kernelStacks
  · intro i task at_i _
    have first : i = 0 := by
      have := (List.getElem?_eq_some_iff.mp at_i).1
      simpa [Machine.withRootTask, Machine.setTable, taskInit] using this
    rw [first]
    rfl
  · exact fun m call rooted => taskStep_rooted rooted call
  · exact fun m call rooted only => taskStep_onlyCurrentRuns_iff rooted only call

/-- With a second task, `SYS_YIELD` marks it and returns to the first one. -/
theorem yield_marks_idle_task :
    ¬OnlyCurrentRuns (Runs.after taskStep
      ((auditorInit (boot sampleImage) zeroStatics).withRootTask 0x100000#32)
      [.createTask (some ⟨0, 0, 0, 0, .ready, 0, 0, 0, 0⟩), .sysYield]).kernel.table := by
  intro only
  have := only 1 _ rfl rfl
  revert this
  decide +kernel

end LughOS.Kernel

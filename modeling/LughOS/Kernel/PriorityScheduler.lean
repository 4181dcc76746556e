import LughOS.Kernel.SchedulerState

/-!
# The priority scheduler

`priority.c` offers a second scheduler behind the same record of functions; all but `schedule` are
those of the round-robin scheduler. A smaller number is a higher priority, and the search starts
from 11 as if it were the priority of a task already found. The two schedulers differ in what they
take the null pointer for: `rr_schedule` goes to the kernel table then, `priority_schedule` has
nothing to search.

`bestReady` is what a priority scheduler is for: the first of the ready tasks of smallest number.
-/

namespace LughOS.Kernel

open Bytes

/-! ## The record of a scheduler -/

/-- `scheduler_ops_t` without the two hooks of a swap, which do nothing. -/
structure SchedulerOps where
  name : String
  init : SchedulerState → Int × SchedulerState
  schedule : SchedulerState → ScheduleArgs → Option (BitVec 32) × SchedulerState
  addTask : SchedulerState → Option Task → Int
  removeTask : SchedulerState → BitVec 32 → Int × SchedulerState
  getState : SchedulerState → Nat → Int × List Byte × Nat
  setState : SchedulerState → List Byte → Int × SchedulerState

def rrScheduler : SchedulerOps where
  name := "Round Robin"
  init := SchedulerState.rrInit
  schedule := SchedulerState.rrSchedule
  addTask := SchedulerState.rrAddTask
  removeTask := SchedulerState.rrRemoveTask
  getState := SchedulerState.rrGetState
  setState := SchedulerState.rrSetState

/-- The loop of `priority_schedule` from entry `i` on. `best_idx` is `none` for -1. -/
def priorityLoop : List Task → Nat → Option Nat → Int → Option Nat
  | [], _, bestIdx, _ => bestIdx
  | task :: rest, i, bestIdx, bestPriority =>
      if task.state = .ready ∧ task.priority.toInt < bestPriority then
        priorityLoop rest (i + 1) (some i) task.priority.toInt
      else priorityLoop rest (i + 1) bestIdx bestPriority

/-- The entries in front of `num_tasks`, behind the pointer. -/
def ScheduleArgs.entries : ScheduleArgs → List Task
  | .null => []
  | .array tasks _ => tasks

/-- `priority_schedule`, with a place for the identifier; `none` where the code returns -1. -/
def prioritySchedule (s : SchedulerState) (args : ScheduleArgs) :
    Option (BitVec 32) × SchedulerState :=
  match priorityLoop args.entries 0 none 11 with
  | none => (none, s)
  | some best => ((args.entries[best]?).map Task.taskId, s)

/-- The record that `priority_scheduler_init` fills. -/
def priorityScheduler : SchedulerOps where
  name := "priority"
  init := rrScheduler.init
  schedule := prioritySchedule
  addTask := rrScheduler.addTask
  removeTask := rrScheduler.removeTask
  getState := rrScheduler.getState
  setState := rrScheduler.setState

/-! ## The choice -/

def readyTasks (tasks : List Task) : List Task := tasks.filter fun task => task.state = .ready

/-- The first ready task among those of smallest priority value. -/
noncomputable def bestTask (tasks : List Task) : Option Task :=
  (readyTasks tasks).argmin fun task => task.priority.toInt

noncomputable def bestReady (tasks : List Task) : Option (BitVec 32) :=
  (bestTask tasks).map Task.taskId

theorem bestTask_concat_ready (tasks : List Task) {task : Task} (ready : task.state = .ready) :
    bestTask (tasks ++ [task]) =
      match bestTask tasks with
      | none => some task
      | some best =>
          if task.priority.toInt < best.priority.toInt then some task else some best := by
  have added : readyTasks (tasks ++ [task]) = readyTasks tasks ++ [task] := by
    simp [readyTasks, ready]
  unfold bestTask
  rw [added, List.argmin_concat]
  cases (readyTasks tasks).argmin fun task => task.priority.toInt <;> rfl

theorem bestTask_concat_other (tasks : List Task) {task : Task} (other : task.state ≠ .ready) :
    bestTask (tasks ++ [task]) = bestTask tasks := by
  have same : readyTasks (tasks ++ [task]) = readyTasks tasks := by simp [readyTasks, other]
  rw [bestTask, same, bestTask]

theorem bestTask_mem {tasks : List Task} {task : Task} (best : bestTask tasks = some task) :
    task ∈ tasks ∧ task.state = .ready := by
  have member := List.argmin_mem best
  simpa [readyTasks] using member

theorem bestTask_eq_none {tasks : List Task} :
    bestTask tasks = none ↔ ∀ task ∈ tasks, task.state ≠ .ready := by
  rw [bestTask, List.argmin_eq_none, readyTasks, List.filter_eq_nil_iff]
  simp

/-- What the loop knows of the entries it has seen. -/
def BestSoFar (front : List Task) : Option Nat → Int → Prop
  | none, priority =>
      priority = 11 ∧ ∀ task ∈ front, task.state = .ready → 11 ≤ task.priority.toInt
  | some i, priority =>
      ∃ task, front[i]? = some task ∧ bestTask front = some task ∧
        priority = task.priority.toInt ∧ priority < 11

section Loop

variable {front : List Task} {best : Option Nat} {priority : Int} {task : Task}

/-- An entry that beats the best one is the new best one. -/
theorem BestSoFar.better (soFar : BestSoFar front best priority) (ready : task.state = .ready)
    (better : task.priority.toInt < priority) :
    BestSoFar (front ++ [task]) (some front.length) task.priority.toInt := by
  refine ⟨task, by simp, ?_, rfl, ?_⟩
  · rw [bestTask_concat_ready front ready]
    cases before : bestTask front with
    | none => rfl
    | some old =>
        refine if_pos ?_
        cases best with
        | none =>
            obtain ⟨rfl, high⟩ := soFar
            exact better.trans_le (high old (bestTask_mem before).1 (bestTask_mem before).2)
        | some i =>
            obtain ⟨first, -, found, rfl, -⟩ := soFar
            obtain rfl := Option.some.inj (before.symm.trans found)
            exact better
  · cases best with
    | none => exact soFar.1 ▸ better
    | some i =>
        obtain ⟨_, -, -, -, low⟩ := soFar
        exact better.trans low

theorem BestSoFar.worse (soFar : BestSoFar front best priority)
    (worse : ¬(task.state = .ready ∧ task.priority.toInt < priority)) :
    BestSoFar (front ++ [task]) best priority := by
  cases best with
  | none =>
      obtain ⟨rfl, high⟩ := soFar
      refine ⟨rfl, fun other member ready => ?_⟩
      rcases List.mem_append.mp member with old | new
      · exact high other old ready
      · obtain rfl := List.mem_singleton.mp new
        exact not_lt.mp fun low => worse ⟨ready, low⟩
  | some i =>
      obtain ⟨first, at_i, found, rfl, low⟩ := soFar
      refine ⟨first, ?_, ?_, rfl, low⟩
      · exact getElem?_append_of_some at_i _
      · by_cases ready : task.state = .ready
        · rw [bestTask_concat_ready front ready, found]
          exact if_neg fun better => worse ⟨ready, better⟩
        · rw [bestTask_concat_other front ready, found]

theorem priorityLoop_best (rest : List Task) (soFar : BestSoFar front best priority) :
    ∃ priority', BestSoFar (front ++ rest) (priorityLoop rest front.length best priority)
      priority' := by
  induction rest generalizing front best priority with
  | nil => exact ⟨priority, by rwa [List.append_nil]⟩
  | cons task rest ih =>
      have length : front.length + 1 = (front ++ [task]).length := by simp
      rw [priorityLoop, length, List.append_cons]
      split
      · rename_i both
        exact ih (soFar.better both.1 both.2)
      · rename_i worse
        exact ih (soFar.worse worse)

end Loop

/-! ## The scheduler -/

/-- The table that the arguments stand for in the interface: the kernel table for the null
pointer. -/
def ScheduleArgs.meant (kernel : List Task) : ScheduleArgs → List Task
  | .null => kernel
  | .array tasks _ => tasks

/-- The result on entries: the best task, unless the number of every ready one is too large. -/
theorem prioritySchedule_eq (s : SchedulerState) (args : ScheduleArgs) :
    (prioritySchedule s args).1 =
      if ∃ task ∈ args.entries, task.state = .ready ∧ task.priority.toInt < 11 then
        bestReady args.entries
      else none := by
  have start : BestSoFar [] none 11 := ⟨rfl, fun _ member => by cases member⟩
  obtain ⟨priority, soFar⟩ := priorityLoop_best args.entries start
  rw [List.nil_append, List.length_nil] at soFar
  unfold prioritySchedule
  cases loop : priorityLoop args.entries 0 none 11 with
  | none =>
      rw [loop] at soFar
      rw [if_neg]
      rintro ⟨task, member, ready, low⟩
      exact absurd (soFar.2 task member ready) (not_le.mpr low)
  | some best =>
      rw [loop] at soFar
      obtain ⟨task, at_best, found, rfl, low⟩ := soFar
      rw [if_pos ⟨task, (bestTask_mem found).1, (bestTask_mem found).2, low⟩, bestReady, found]
      dsimp only
      rw [at_best]

/-- The priority scheduler picks the best ready task of the table that is meant just if there is
none, or the table is given as an array and one of its ready tasks has a number below 11. -/
theorem priority_schedule_iff (s : SchedulerState) (args : ScheduleArgs) :
    (priorityScheduler.schedule s args).1 = bestReady (args.meant s.table.tasks) ↔
      (∀ task ∈ args.meant s.table.tasks, task.state ≠ .ready) ∨
        args ≠ .null ∧
          ∃ task ∈ args.meant s.table.tasks, task.state = .ready ∧ task.priority.toInt < 11 := by
  have none_iff (tasks : List Task) :
      none = bestReady tasks ↔ ∀ task ∈ tasks, task.state ≠ .ready := by
    rw [eq_comm, bestReady, Option.map_eq_none_iff, bestTask_eq_none]
  change (prioritySchedule s args).1 = _ ↔ _
  rw [prioritySchedule_eq]
  cases args with
  | null =>
      rw [if_neg (by rintro ⟨_, member, -⟩; cases member)]
      simpa [ScheduleArgs.meant] using none_iff s.table.tasks
  | array tasks int =>
      change _ = bestReady tasks ↔ (∀ task ∈ tasks, task.state ≠ .ready) ∨
        ScheduleArgs.array tasks int ≠ .null ∧ ∃ task ∈ tasks, _
      by_cases low : ∃ task ∈ tasks, task.state = .ready ∧ task.priority.toInt < 11
      · exact iff_of_true (if_pos low) (.inr ⟨by simp, low⟩)
      · rw [if_neg (by exact low), none_iff]
        exact (or_iff_left fun given => low given.2).symm

/-- A ready task of priority 11. -/
def idleTask : Task where
  taskId := 2
  priority := 11
  capMask := 0
  domain := 0
  state := .ready
  deadline := 0
  kernelStackTop := 0
  savedSp := 0
  parentTaskId := 1

/-- It is not picked from an array, and no task is picked from the kernel table. -/
theorem ready_task_not_picked :
    (priorityScheduler.schedule ⟨⟨[], none, 1, 0⟩, 0⟩ (.array [idleTask] (by decide))).1 = none ∧
      bestReady [idleTask] = some 2 ∧
      (priorityScheduler.schedule ⟨⟨[{ idleTask with priority := 0 }], none, 3, 0⟩, 0⟩ .null).1 =
        none ∧
      bestReady [{ idleTask with priority := 0 }] = some 2 := by
  decide

end LughOS.Kernel

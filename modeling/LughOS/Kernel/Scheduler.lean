import LughOS.Kernel.Confinement

/-!
# The round-robin scheduler

`round_robin.c` works on the task table of `task.c` and keeps only a cursor of its own.
It changes nothing but the state of tasks, and it neither ends a task nor brings one
back: `rr_remove_task` alone writes `TASK_TERMINATED`.

The facts about the table that do not mention states therefore survive it. `stateless`
is what is left of a task without its state.
-/

namespace LughOS.Kernel

def setTaskState (t : TaskTable) (position : Nat) (state : TaskState) : TaskTable :=
  { t with tasks := t.tasks.modify position fun task => { task with state := state } }

/-- The table entry `task_find` returns a pointer to. -/
def taskPosition? (tasks : List Task) (id : BitVec 32) : Option Nat :=
  if id = 0 then none else tasks.findIdx? fun t => decide (t.taskId = id)

/-- The entry under a cursor; a cursor outside the table has none. -/
def entryAt? (tasks : List Task) (cursor : Int) : Option Task :=
  if 0 ≤ cursor then tasks[cursor.toNat]? else none

def rrAdvance (n : Nat) (cursor : Int) : Int := if n ≤ cursor + 1 then 0 else cursor + 1

/-- The scan of `rr_schedule` over at most `checked` entries: the cursor after it, and
whether it stopped at a task that is ready. -/
def rrScan (tasks : List Task) : Nat → Int → Bool × Int
  | 0, cursor => (false, cursor)
  | checked + 1, cursor =>
      let cursor := rrAdvance tasks.length cursor
      if (entryAt? tasks cursor).map Task.state = some .ready then (true, cursor)
      else rrScan tasks checked cursor

/-- A running task goes back into the rotation. -/
def requeue (task : Task) : Task :=
  if task.state = .running then { task with state := .ready } else task

/-- `rr_schedule` on the kernel table: the identifier of the next task, `none` where the
code returns `-1`, and the table and the cursor after the call. -/
def rrSchedule (t : TaskTable) (cursor : Int) : Option (BitVec 32) × TaskTable × Int :=
  if t.tasks = [] then (none, t, cursor)
  else
    let t := { t with tasks := t.tasks.map requeue }
    match rrScan t.tasks t.tasks.length cursor with
    | (false, cursor) => (none, t, cursor)
    | (true, cursor) =>
        ((entryAt? t.tasks cursor).map Task.taskId, setTaskState t cursor.toNat .running, cursor)

def rrRemoveTask (t : TaskTable) (cursor : Int) (id : BitVec 32) : Int × TaskTable × Int :=
  match taskPosition? t.tasks id with
  | none => (-1, t, cursor)
  | some i =>
      let n : Int := t.tasks.length
      (0, setTaskState t i .terminated, if 0 < n ∧ n ≤ cursor then n - 1 else cursor)

/-! ## What scheduling leaves alone -/

theorem modify_map {α β : Type} {f : α → β} {g : α → α} {l : List α} {i : Nat}
    (same : ∀ a, l[i]? = some a → f (g a) = f a) : (l.modify i g).map f = l.map f := by
  refine List.ext_getElem? fun j => ?_
  simp only [List.getElem?_map, List.getElem?_modify]
  by_cases here : i = j
  · subst here
    cases at_i : l[i]? with
    | none => simp
    | some a => simp [same a at_i]
  · simp [here]

/-- Lists with one image have entries with one image. -/
theorem getElem?_of_map_eq {α β : Type} {f : α → β} {l l' : List α} (same : l'.map f = l.map f)
    {i : Nat} {a : α} (at_i : l[i]? = some a) : ∃ a', l'[i]? = some a' ∧ f a' = f a := by
  have entry := congrArg (·[i]?) same
  simp only [List.getElem?_map, at_i, Option.map_some] at entry
  exact Option.map_eq_some_iff.mp entry

theorem entryAt?_eq_some {tasks : List Task} {cursor : Int} {task : Task}
    (entry : entryAt? tasks cursor = some task) : tasks[cursor.toNat]? = some task := by
  unfold entryAt? at entry
  split at entry
  · exact entry
  · cases entry

theorem rrScan_ready {tasks : List Task} {checked : Nat} {cursor stop : Int}
    (found : rrScan tasks checked cursor = (true, stop)) :
    ∃ task, entryAt? tasks stop = some task ∧ task.state = .ready := by
  induction checked generalizing cursor with
  | zero => cases found
  | succ checked ih =>
      unfold rrScan at found
      dsimp only at found
      split at found
      · rename_i ready
        obtain rfl := (Prod.mk.inj found).2
        exact Option.map_eq_some_iff.mp ready
      · exact ih found

/-- `rr_schedule` only moves tasks between states other than terminated. -/
theorem rrSchedule_map {β : Type} {f : Task → β}
    (ignores : ∀ task state, task.state ≠ .terminated → state ≠ TaskState.terminated →
      f { task with state := state } = f task) (t : TaskTable) (cursor : Int) :
    (rrSchedule t cursor).2.1.tasks.map f = t.tasks.map f := by
  have requeued : (t.tasks.map requeue).map f = t.tasks.map f := by
    rw [List.map_map]
    refine List.map_congr_left fun task _ => ?_
    simp only [Function.comp_apply, requeue]
    split
    · rename_i running
      exact ignores task .ready (by simp [running]) (by decide)
    · rfl
  unfold rrSchedule
  split
  · rfl
  dsimp only
  split
  · exact requeued
  · rename_i found
    obtain ⟨_, at_stop, ready⟩ := rrScan_ready found
    rw [← requeued]
    refine modify_map fun task at_i => ignores task .running ?_ (by decide)
    rw [entryAt?_eq_some at_stop] at at_i
    cases at_i
    simp [ready]

theorem rrSchedule_nextTaskId (t : TaskTable) (cursor : Int) :
    (rrSchedule t cursor).2.1.nextTaskId = t.nextTaskId := by
  unfold rrSchedule
  split
  · rfl
  · dsimp only
    split <;> rfl

/-- A task without its state. -/
def stateless (task : Task) : Task := { task with state := .ready }

theorem setTaskState_stateless (t : TaskTable) (position : Nat) (state : TaskState) :
    (setTaskState t position state).tasks.map stateless = t.tasks.map stateless :=
  modify_map fun _ _ => rfl

/-- What the lineage depends on. -/
def kinship (task : Task) : BitVec 32 × BitVec 32 × BitVec 32 × BitVec 32 :=
  (task.taskId, task.parentTaskId, task.capMask, task.domain)

theorem Narrows.of_kinship {p p' task task' : Task} (narrows : Narrows p task)
    (parent : kinship p' = kinship p) (child : kinship task' = kinship task) :
    Narrows p' task' := by
  simp only [kinship, Prod.mk.injEq] at parent child
  obtain ⟨parentId, -, parentCaps, parentDomain⟩ := parent
  obtain ⟨-, lineage, caps, domain⟩ := child
  constructor
  · rw [lineage, parentId, narrows.parent_id]
  · rw [parentCaps, caps]
    exact narrows.caps
  · rw [domain, parentDomain, parentCaps]
    exact narrows.domain

theorem Lineage.of_kinship {t t' : TaskTable} (lineage : Lineage t)
    (tasks : t'.tasks.map kinship = t.tasks.map kinship)
    (next : t'.nextTaskId = t.nextTaskId) : Lineage t' := by
  have length : t'.tasks.length = t.tasks.length := by simpa using congrArg List.length tasks
  have entry : ∀ {i : Nat} {task : Task}, t'.tasks[i]? = some task →
      ∃ old, t.tasks[i]? = some old ∧ kinship old = kinship task :=
    fun at_i => getElem?_of_map_eq tasks.symm at_i
  refine ⟨by rw [length]; exact lineage.bounded, by rw [next, length]; exact lineage.next_id,
    ?_, ?_, ?_⟩
  · intro i task at_i
    obtain ⟨old, at_old, same⟩ := entry at_i
    exact (Prod.mk.inj same).1.symm.trans (lineage.id_eq i old at_old)
  · intro task at_0
    obtain ⟨old, at_old, same⟩ := entry at_0
    exact (Prod.mk.inj (Prod.mk.inj same).2).1.symm.trans (lineage.root old at_old)
  · intro i task at_i nonroot
    obtain ⟨old, at_old, same⟩ := entry at_i
    obtain ⟨j, p, below, at_j, narrows⟩ := lineage.parent i old at_old nonroot
    have bound : j < t'.tasks.length := by
      rw [length]
      exact (List.getElem?_eq_some_iff.mp at_j).1
    have at_j' := List.getElem?_eq_getElem bound
    obtain ⟨p', at_p', parent⟩ := entry at_j'
    rw [at_j] at at_p'
    cases at_p'
    exact ⟨j, _, below, at_j', narrows.of_kinship parent.symm same.symm⟩

/-- The lineage does not depend on the states of the tasks. -/
theorem Lineage.of_stateless {t t' : TaskTable} (lineage : Lineage t)
    (tasks : t'.tasks.map stateless = t.tasks.map stateless)
    (next : t'.nextTaskId = t.nextTaskId) : Lineage t' := by
  refine lineage.of_kinship ?_ next
  have same := congrArg (List.map kinship) tasks
  rwa [List.map_map, List.map_map] at same

/-- Looking an entry up by its identifier finds its position. -/
theorem Lineage.position_of {t : TaskTable} (lineage : Lineage t) {i : Nat} {task : Task}
    (at_i : t.tasks[i]? = some task) : taskPosition? t.tasks task.taskId = some i := by
  rw [taskPosition?, if_neg (lineage.id_ne_zero at_i), List.findIdx?_eq_some_iff_getElem]
  obtain ⟨bound, at_eq⟩ := List.getElem?_eq_some_iff.mp at_i
  refine ⟨bound, by simp [at_eq], fun j earlier => ?_⟩
  have at_j : t.tasks[j]? = some t.tasks[j] := List.getElem?_eq_getElem (earlier.trans bound)
  rw [decide_eq_true_eq]
  exact fun same => earlier.ne (lineage.same_position at_j at_i same)

end LughOS.Kernel

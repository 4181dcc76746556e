import LughOS.Kernel.Dispatch

/-!
# The task table over a run

Four files write the task table. Only `create_task` lets it grow, at its end; every other
call amends entries in place, and of an entry it writes no more than the state and the saved
stack pointer. `Amends` is that relation, and `lifetimeStep_cases` says that each call amends
the table or is a `create_task`. What holds of the table over a whole run follows from it.

The state is written by several calls, but none of them takes a task out of
`TASK_TERMINATED`: the scheduler moves tasks between the other states, and only a running
task is set back to ready.
-/

namespace LughOS.Kernel

open Auditor

/-! ## The calls -/

namespace Machine

/-- `rr_schedule` on the kernel table, as a call of its own. -/
def schedule (m : Machine) : Machine :=
  let (_, table, cursor) := rrSchedule m.kernel.table m.rrCursor
  { m.setTable table with rrCursor := cursor }

def removeTask (m : Machine) (id : BitVec 32) : Machine :=
  let (_, table, cursor) := rrRemoveTask m.kernel.table m.rrCursor id
  { m.setTable table with rrCursor := cursor }

end Machine

/-- The calls that reach the task table. -/
inductive LifetimeCall where
  | createTask (spec : Option Task)
  | rrSchedule
  | rrRemoveTask (id : BitVec 32)
  | taskYield (sp : BitVec 32)
  | syscall (arch : Arch) (userBootstrapChannel : Int) (num arg1 arg2 arg3 : BitVec 32)

def lifetimeStep (m : Machine) : LifetimeCall → Machine
  | .createTask spec => m.perform (.createTask spec)
  | .rrSchedule => m.schedule
  | .rrRemoveTask id => m.removeTask id
  | .taskYield sp => m.taskYield sp
  | .syscall arch channel num arg1 arg2 arg3 =>
      (m.syscallHandler arch channel num arg1 arg2 arg3).2

/-! ## Entries that stay -/

/-- What no call changes in an entry. -/
structure SameTask (task task' : Task) : Prop where
  taskId : task'.taskId = task.taskId
  capMask : task'.capMask = task.capMask
  domain : task'.domain = task.domain
  parentTaskId : task'.parentTaskId = task.parentTaskId
  kernelStackTop : task'.kernelStackTop = task.kernelStackTop
  terminated : task.state = .terminated → task'.state = .terminated

theorem SameTask.refl (task : Task) : SameTask task task := ⟨rfl, rfl, rfl, rfl, rfl, id⟩

theorem SameTask.trans {a b c : Task} (ab : SameTask a b) (bc : SameTask b c) : SameTask a c where
  taskId := bc.taskId.trans ab.taskId
  capMask := bc.capMask.trans ab.capMask
  domain := bc.domain.trans ab.domain
  parentTaskId := bc.parentTaskId.trans ab.parentTaskId
  kernelStackTop := bc.kernelStackTop.trans ab.kernelStackTop
  terminated := fun ended => bc.terminated (ab.terminated ended)

/-- Every entry is still at its place. -/
def Extends (t t' : TaskTable) : Prop :=
  ∀ (i : Nat) (task : Task), t.tasks[i]? = some task →
    ∃ task', t'.tasks[i]? = some task' ∧ SameTask task task'

theorem Extends.refl (t : TaskTable) : Extends t t := fun _ task at_i => ⟨task, at_i, .refl task⟩

theorem Extends.trans {a b c : TaskTable} (ab : Extends a b) (bc : Extends b c) :
    Extends a c := by
  intro i task at_i
  obtain ⟨task', at_i', same⟩ := ab i task at_i
  obtain ⟨task'', at_i'', same'⟩ := bc i task' at_i'
  exact ⟨task'', at_i'', same.trans same'⟩

/-- The table has the same entries, up to what calls may write in them. -/
structure Amends (t t' : TaskTable) : Prop where
  kernelStacks : t'.kernelStacks = t.kernelStacks
  nextTaskId : t'.nextTaskId = t.nextTaskId
  length : t'.tasks.length = t.tasks.length
  entries : Extends t t'

namespace Amends

variable {t t' t'' : TaskTable}

theorem refl (t : TaskTable) : Amends t t := ⟨rfl, rfl, rfl, .refl t⟩

theorem trans (h : Amends t t') (h' : Amends t' t'') : Amends t t'' where
  kernelStacks := h'.kernelStacks.trans h.kernelStacks
  nextTaskId := h'.nextTaskId.trans h.nextTaskId
  length := h'.length.trans h.length
  entries := h.entries.trans h'.entries

/-- The entry that became this one. -/
theorem before (amends : Amends t t') {i : Nat} {task' : Task} (at_i : t'.tasks[i]? = some task') :
    ∃ task, t.tasks[i]? = some task ∧ SameTask task task' := by
  have inside : i < t.tasks.length := amends.length ▸ (List.getElem?_eq_some_iff.mp at_i).1
  have at_old := List.getElem?_eq_getElem inside
  obtain ⟨task'', at_i'', same⟩ := amends.entries i _ at_old
  rw [at_i] at at_i''
  cases at_i''
  exact ⟨_, at_old, same⟩

theorem kinship_eq (amends : Amends t t') : t'.tasks.map kinship = t.tasks.map kinship := by
  refine List.ext_getElem? fun i => ?_
  simp only [List.getElem?_map]
  cases at_i : t'.tasks[i]? with
  | none =>
      have outside := List.getElem?_eq_none_iff.mp at_i
      rw [amends.length] at outside
      rw [List.getElem?_eq_none outside]
  | some task' =>
      obtain ⟨task, at_old, same⟩ := amends.before at_i
      rw [at_old]
      simp only [Option.map_some, kinship, same.taskId, same.parentTaskId, same.capMask,
        same.domain]

/-- Amending one entry. -/
theorem modify (t : TaskTable) (current : Option Nat) (i : Nat) {f : Task → Task}
    (same : ∀ task, SameTask task (f task)) :
    Amends t { t with tasks := t.tasks.modify i f, current := current } where
  kernelStacks := rfl
  nextTaskId := rfl
  length := List.length_modify ..
  entries := by
    intro j task at_j
    refine ⟨if i = j then f task else task, ?_, ?_⟩
    · simp [List.getElem?_modify, at_j]
    · split
      · exact same task
      · exact .refl task

end Amends

/-! ## What each call does to the table -/

theorem setTaskState_terminated_amends (t : TaskTable) (i : Nat) :
    Amends t (setTaskState t i .terminated) :=
  .modify t t.current i fun _ => ⟨rfl, rfl, rfl, rfl, rfl, fun _ => rfl⟩

theorem rrSchedule_kernelStacks (t : TaskTable) (cursor : Int) :
    (rrSchedule t cursor).2.1.kernelStacks = t.kernelStacks := by
  unfold rrSchedule
  split
  · rfl
  · dsimp only
    split <;> rfl

/-- What the scheduler keeps of a task: all but the state, and whether it is terminated. -/
def permanent (task : Task) : Task × Bool := (stateless task, decide (task.state = .terminated))

theorem SameTask.of_permanent {task task' : Task} (same : permanent task' = permanent task) :
    SameTask task task' := by
  obtain ⟨fields, ended⟩ := Prod.mk.inj same
  simp only [stateless, Task.mk.injEq] at fields
  obtain ⟨id, -, caps, domain, -, -, stack, -, parent⟩ := fields
  exact ⟨id, caps, domain, parent, stack, (decide_eq_decide.mp ended).mpr⟩

theorem rrSchedule_amends (t : TaskTable) (cursor : Int) :
    Amends t (rrSchedule t cursor).2.1 := by
  have same : (rrSchedule t cursor).2.1.tasks.map permanent = t.tasks.map permanent :=
    rrSchedule_map (fun task state active other => by simp [permanent, stateless, active, other])
      t cursor
  refine ⟨rrSchedule_kernelStacks t cursor, rrSchedule_nextTaskId t cursor,
    by simpa using congrArg List.length same, fun i task at_i => ?_⟩
  obtain ⟨task', at_i', eq⟩ := getElem?_of_map_eq same at_i
  exact ⟨task', at_i', .of_permanent eq⟩

theorem rrRemoveTask_amends (t : TaskTable) (cursor : Int) (id : BitVec 32) :
    Amends t (rrRemoveTask t cursor id).2.1 := by
  unfold rrRemoveTask
  split
  · exact .refl t
  · exact setTaskState_terminated_amends t _

theorem actOn_amends (t : TaskTable) (prev : Task) (sp : BitVec 32)
    (choice : Option (BitVec 32)) : Amends t (actOn t prev sp choice) := by
  unfold actOn
  split
  · exact .refl t
  split
  · exact .refl t
  split
  · exact .refl t
  split
  · exact .modify t _ _ fun _ => ⟨rfl, rfl, rfl, rfl, rfl, id⟩
  · exact .refl t

namespace Machine

theorem taskYield_amends (m : Machine) (sp : BitVec 32) :
    Amends m.kernel.table (m.taskYield sp).kernel.table := by
  cases current : m.kernel.currentTask with
  | none =>
      simp only [taskYield, current]
      exact .refl _
  | some prev =>
      rw [taskYield_table current]
      exact (rrSchedule_amends _ _).trans (actOn_amends _ prev sp _)

theorem sysExit_amends (m : Machine) (code : BitVec 32) :
    Amends m.kernel.table (m.sysExit code).kernel.table := by
  obtain ⟨-, same⟩ | ⟨caller, -, -, table⟩ := m.sysExit_cases code
  · rw [same]
    exact .refl _
  · rw [table]
    exact (setTaskState_terminated_amends _ _).trans (rrRemoveTask_amends _ _ _)

theorem auditAt_table (m : Machine) (c : ChannelId) (address : Nat) :
    (m.auditAt c address).2.kernel.table = m.kernel.table := by
  unfold auditAt
  split <;> rfl

theorem transmitAt_table (m : Machine) (c : ChannelId) (address : Nat) :
    (m.transmitAt c address).2.2.kernel.table = m.kernel.table := by
  unfold transmitAt
  dsimp only
  split
  · rfl
  · split <;> exact auditAt_table _ c address

theorem ipcSendAt_table (m : Machine) (id : Int) (address : Nat) :
    (m.ipcSendAt id address).2.2.kernel.table = m.kernel.table := by
  unfold ipcSendAt
  split
  · rfl
  split
  · rfl
  dsimp only
  split
  · simp only [emitDeny, System.emitDeny, System.emit_table]
  · exact transmitAt_table m _ address

/-- A message in user memory does not reach the table. -/
theorem sysIpcSend_table (m : Machine) (channel : Int) (operation pointer : BitVec 32) :
    (m.sysIpcSend channel operation pointer).2.kernel.table = m.kernel.table := by
  unfold sysIpcSend
  split
  · rfl
  split
  · rfl
  · dsimp only
    rw [(auditorTick_frame _).2.2.2.1, ipcSendAt_table]
    rfl

end Machine

/-- Each call amends the table, or it is a `create_task`. -/
theorem lifetimeStep_cases (m : Machine) (call : LifetimeCall) :
    Amends m.kernel.table (lifetimeStep m call).kernel.table ∨
      ∃ spec, (lifetimeStep m call).kernel.table = (createTaskEntry m.kernel.table spec).2.2.2 := by
  cases call with
  | createTask spec => exact .inr ⟨spec, Machine.createTask_table m spec⟩
  | rrSchedule => exact .inl (rrSchedule_amends _ _)
  | rrRemoveTask id => exact .inl (rrRemoveTask_amends _ _ _)
  | taskYield sp => exact .inl (m.taskYield_amends sp)
  | syscall arch channel num arg1 arg2 arg3 =>
      simp only [lifetimeStep, Machine.syscallHandler]
      split
      · left
        unfold Machine.sysWrite
        split <;> exact .refl _
      · rw [Machine.sysIpcSend_table]
        exact .inl (.refl _)
      · exact .inl (m.sysExit_amends arg1)
      · unfold Machine.sysCreateTask
        split
        · exact .inr ⟨_, Machine.createTask_table m _⟩
        · exact .inl (.refl _)
      · rw [Machine.sysYield_table]
        exact .inl (rrSchedule_amends _ _)
      · exact .inl (.refl _)

/-! ## Kernel stacks -/

/-- The addresses of the kernel stack that ends at `top`. -/
def stackBelow (top : BitVec 32) : Set (BitVec 32) :=
  { a | (a - (top - kernelStackSize)).toNat < kernelStackSize.toNat }

/-- Each entry has the stack of its slot. -/
def Stacked (t : TaskTable) : Prop :=
  ∀ (i : Nat) (task : Task), t.tasks[i]? = some task → task.kernelStackTop = assignKernelStack t i

theorem Stacked.amended {t t' : TaskTable} (stacked : Stacked t) (amends : Amends t t') :
    Stacked t' := by
  intro i task' at_i
  obtain ⟨task, at_old, same⟩ := amends.before at_i
  rw [same.kernelStackTop, stacked i task at_old, assignKernelStack, assignKernelStack,
    amends.kernelStacks]

/-- `create_task` leaves the table, or appends the child with the stack of its slot. -/
theorem createTaskEntry_appends (t : TaskTable) (spec : Option Task) :
    (createTaskEntry t spec).2.2.2 = t ∨
      ∃ child : Task, (createTaskEntry t spec).2.2.2 =
          { t with tasks := t.tasks ++ [child], nextTaskId := followingTaskId t.nextTaskId } ∧
        child.kernelStackTop = assignKernelStack t t.tasks.length ∧
        child.savedSp = child.kernelStackTop := by
  unfold createTaskEntry
  split
  · exact .inl rfl
  split
  · exact .inl rfl
  split
  · exact .inl rfl
  split
  · exact .inl rfl
  · exact .inr ⟨childTask t _ _, rfl, rfl, rfl⟩

theorem createTaskEntry_stacked {t : TaskTable} (stacked : Stacked t) (spec : Option Task) :
    Stacked (createTaskEntry t spec).2.2.2 := by
  obtain same | ⟨child, new, top, -⟩ := createTaskEntry_appends t spec
  · rwa [same]
  · rw [new]
    intro i task at_i
    obtain old | ⟨rfl, rfl⟩ := getElem?_concat_cases at_i
    · exact stacked i task old
    · exact top

/-- Two slots of the array of stacks have no address in common. -/
theorem assignKernelStack_disjoint (t : TaskTable) {i j : Nat} (apart : i ≠ j)
    (has : assignKernelStack t i ≠ 0) (has' : assignKernelStack t j ≠ 0) :
    Disjoint (stackBelow (assignKernelStack t i)) (stackBelow (assignKernelStack t j)) := by
  unfold assignKernelStack at has has' ⊢
  split at has
  · exact absurd rfl has
  split at has'
  · exact absurd rfl has'
  rename_i low low'
  simp only [maxRunnable] at low low'
  rw [if_neg (by simpa [maxRunnable] using low), if_neg (by simpa [maxRunnable] using low'),
    Set.disjoint_left]
  intro a inside inside'
  simp only [stackBelow, kernelStackSize, Set.mem_ofPred_eq] at inside inside'
  bv_omega

/-! ## The table in every state -/

/-- A table that is well founded: identifiers are distinct, parents come first, stacks are
apart. -/
structure Founded (t : TaskTable) : Prop where
  nonzero : ∀ task ∈ t.tasks, task.taskId ≠ 0
  distinct : ∀ (i j : Nat) (task other : Task), t.tasks[i]? = some task →
    t.tasks[j]? = some other → task.taskId = other.taskId → i = j
  found : ∀ (id : BitVec 32) (task : Task),
    taskFind t.tasks id = some task ↔ task ∈ t.tasks ∧ task.taskId = id
  parent : ∀ (i : Nat) (task : Task), t.tasks[i]? = some task → i ≠ 0 →
    ∃ j p, j < i ∧ t.tasks[j]? = some p ∧ task.parentTaskId = p.taskId
  root : ∃ r, t.tasks[0]? = some r ∧ r.parentTaskId = taskParentNone ∧
    ∀ task ∈ t.tasks, Relation.ReflTransGen (ParentOf t.tasks) r task
  apart : ∀ (i j : Nat) (task other : Task), t.tasks[i]? = some task →
    t.tasks[j]? = some other → i ≠ j → task.kernelStackTop ≠ 0 → other.kernelStackTop ≠ 0 →
      Disjoint (stackBelow task.kernelStackTop) (stackBelow other.kernelStackTop)

theorem Lineage.find_iff {t : TaskTable} (lineage : Lineage t) (id : BitVec 32) (task : Task) :
    taskFind t.tasks id = some task ↔ task ∈ t.tasks ∧ task.taskId = id := by
  constructor
  · intro found
    unfold taskFind at found
    split at found
    · cases found
    · exact ⟨List.mem_of_find?_eq_some found, by simpa using List.find?_some found⟩
  · rintro ⟨member, rfl⟩
    obtain ⟨i, at_i⟩ := List.mem_iff_getElem?.mp member
    exact lineage.find at_i

/-- Parents have smaller positions, so the parent fields lead to the root. -/
theorem Lineage.descends {t : TaskTable} (lineage : Lineage t) {r : Task}
    (at_0 : t.tasks[0]? = some r) (i : Nat) (task : Task) (at_i : t.tasks[i]? = some task) :
    Relation.ReflTransGen (ParentOf t.tasks) r task := by
  induction i using Nat.strong_induction_on generalizing task with
  | h i ih =>
      by_cases first : i = 0
      · subst first
        rw [at_0] at at_i
        cases at_i
        exact .refl
      · obtain ⟨j, p, below, at_j, narrows⟩ := lineage.parent i task at_i first
        refine (ih j below p at_j).tail ⟨List.mem_of_getElem? at_i, ?_⟩
        rw [narrows.parent_id]
        exact lineage.find at_j

/-- What every call keeps. -/
structure WellKept (t : TaskTable) : Prop where
  lineage : Lineage t
  stacked : Stacked t
  nonempty : t.tasks ≠ []

theorem WellKept.founded {t : TaskTable} (kept : WellKept t) : Founded t := by
  obtain ⟨lineage, stacked, nonempty⟩ := kept
  refine ⟨?_, ?_, lineage.find_iff, ?_, ?_, ?_⟩
  · intro task member
    obtain ⟨i, at_i⟩ := List.mem_iff_getElem?.mp member
    exact lineage.id_ne_zero at_i
  · intro i j task other at_i at_j
    exact lineage.same_position at_i at_j
  · intro i task at_i nonroot
    obtain ⟨j, p, below, at_j, narrows⟩ := lineage.parent i task at_i nonroot
    exact ⟨j, p, below, at_j, narrows.parent_id⟩
  · have at_0 := List.getElem?_eq_getElem (List.length_pos_iff.mpr nonempty)
    refine ⟨_, at_0, lineage.root _ at_0, fun task member => ?_⟩
    obtain ⟨i, at_i⟩ := List.mem_iff_getElem?.mp member
    exact lineage.descends at_0 i task at_i
  · intro i j task other at_i at_j apart has has'
    rw [stacked i task at_i] at has ⊢
    rw [stacked j other at_j] at has' ⊢
    exact assignKernelStack_disjoint t apart has has'

theorem taskInit_kept (kernelStacks : BitVec 32) :
    WellKept (taskInit ⟨[], none, 1, kernelStacks⟩) where
  lineage := taskInit_lineage kernelStacks
  stacked := by
    intro i task at_i
    obtain ⟨rfl, rfl⟩ : i = 0 ∧ _ = task := by simpa [taskInit, List.getElem?_singleton] using at_i
    rfl
  nonempty := by simp [taskInit]

theorem createTaskEntry_extends (t : TaskTable) (spec : Option Task) :
    Extends t (createTaskEntry t spec).2.2.2 := by
  obtain ⟨-, added, tasks, -⟩ := createTaskEntry_added t spec
  intro i task at_i
  refine ⟨task, ?_, .refl task⟩
  rw [tasks, getElem?_append_of_some at_i]

theorem lifetimeStep_extends (m : Machine) (call : LifetimeCall) :
    Extends m.kernel.table (lifetimeStep m call).kernel.table := by
  obtain amends | ⟨spec, table⟩ := lifetimeStep_cases m call
  · exact amends.entries
  · rw [table]
    exact createTaskEntry_extends _ spec

theorem Extends.nonempty {t t' : TaskTable} (ext : Extends t t') (nonempty : t.tasks ≠ []) :
    t'.tasks ≠ [] := by
  obtain ⟨_, at_0, -⟩ := ext 0 _ (List.getElem?_eq_getElem (List.length_pos_iff.mpr nonempty))
  exact List.ne_nil_of_mem (List.mem_of_getElem? at_0)

theorem WellKept.amended {t t' : TaskTable} (kept : WellKept t) (amends : Amends t t') :
    WellKept t' where
  lineage := kept.lineage.of_kinship amends.kinship_eq amends.nextTaskId
  stacked := kept.stacked.amended amends
  nonempty := amends.entries.nonempty kept.nonempty

theorem WellKept.created {t : TaskTable} (kept : WellKept t) (spec : Option Task) :
    WellKept (createTaskEntry t spec).2.2.2 where
  lineage := kept.lineage.createTaskEntry spec
  stacked := createTaskEntry_stacked kept.stacked spec
  nonempty := (createTaskEntry_extends t spec).nonempty kept.nonempty

theorem lifetimeStep_kept {m : Machine} (kept : WellKept m.kernel.table) (call : LifetimeCall) :
    WellKept (lifetimeStep m call).kernel.table := by
  obtain amends | ⟨spec, table⟩ := lifetimeStep_cases m call
  · exact kept.amended amends
  · rw [table]
    exact kept.created spec

/-- The scheduler picks a task that was ready or running. -/
theorem rrSchedule_active {t : TaskTable} {cursor : Int} {id : BitVec 32}
    (choice : (rrSchedule t cursor).1 = some id) :
    ∃ (i : Nat) (task : Task), t.tasks[i]? = some task ∧ task.taskId = id ∧
      task.state ≠ .terminated := by
  unfold rrSchedule at choice
  split at choice
  · cases choice
  dsimp only at choice
  split at choice
  · cases choice
  · rename_i stop found
    obtain ⟨task, picked, ready⟩ := rrScan_ready found
    rw [picked] at choice
    have at_stop := entryAt?_eq_some picked
    rw [List.getElem?_map] at at_stop
    obtain ⟨old, at_old, rfl⟩ := Option.map_eq_some_iff.mp at_stop
    refine ⟨stop.toNat, old, at_old, ?_, ?_⟩
    · rw [← Option.some.inj choice]
      unfold requeue
      split <;> rfl
    · intro ended
      simp [requeue, ended] at ready

/-- From `task_init` on the table is well founded in every state, the entries of a state stay
in every later one, and the scheduler never returns a task that has ended. -/
theorem task_table_append_only (m : Machine) (kernelStacks : BitVec 32)
    (before rest : List LifetimeCall) :
    let s := Runs.after lifetimeStep (m.withRootTask kernelStacks) before
    let s' := Runs.after lifetimeStep (m.withRootTask kernelStacks) (before ++ rest)
    Founded s.kernel.table ∧ Extends s.kernel.table s'.kernel.table ∧
      ∀ task ∈ s.kernel.table.tasks, task.state = .terminated →
        s.nextTask ≠ some task.taskId := by
  have kept : WellKept
      (Runs.after lifetimeStep (m.withRootTask kernelStacks) before).kernel.table :=
    Runs.invariant_after (I := fun m : Machine => WellKept m.kernel.table)
      (taskInit_kept kernelStacks) (fun _ call kept => lifetimeStep_kept kept call) before
  refine ⟨kept.founded, ?_, ?_⟩
  · simp only [Runs.after, List.foldl_append]
    exact Runs.invariant_after (I := fun m' : Machine => Extends _ m'.kernel.table) (.refl _)
      (fun m' call ext => ext.trans (lifetimeStep_extends m' call)) rest
  · intro task member ended choice
    obtain ⟨i, at_i⟩ := List.mem_iff_getElem?.mp member
    obtain ⟨j, other, at_j, same, active⟩ := rrSchedule_active choice
    obtain rfl := kept.lineage.same_position at_j at_i same
    rw [at_i] at at_j
    cases at_j
    exact active ended

end LughOS.Kernel

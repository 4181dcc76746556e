import LughOS.Kernel.ContextSwitch

/-!
# What a task is resumed with

The stacks of different tasks have no address in common, so what a task finds on its stack
when it is switched to is what was there when it was left, as long as every task keeps to its
own stack. `OnOwnStack` is that assumption on the running task, for what it writes itself and
for the words that a call of the switch pushes.

Besides the processor a run keeps, for each task, the context that it should go on with:
the one at its last call of the switch, or the one that `task_setup_initial_frame` prepared.
`Intact` says that the frame of that context is in memory at `saved_sp` for every task that
is not running.

A task that was only created has `saved_sp` at the top of an empty stack, and there is no
such context. `task_yield` takes any `saved_sp` other than zero for that of a frame.
-/

namespace LughOS.Kernel

open Words

/-! ## Stack regions -/

/-- Where the stacks are: the array of `task.c`, and the stack on which the kernel boots. -/
structure Layout where
  kernelStacks : BitVec 32
  bootStack : Set (BitVec 32)
  apart : Disjoint bootStack { a | (a - kernelStacks).toNat < 131072 }

namespace Layout

variable (l : Layout)

/-- The table that `task_init` makes. -/
def initial : TaskTable := taskInit ⟨[], none, 1, l.kernelStacks⟩

/-- The addresses of the stacks of a task. The root task also has the boot stack. -/
def region (i : Nat) : Set (BitVec 32) :=
  { a | assignKernelStack l.initial i ≠ 0 ∧ a ∈ stackBelow (assignKernelStack l.initial i) ∨
    i = 0 ∧ a ∈ l.bootStack }

theorem region_of_ne_zero {i : Nat} (nonroot : i ≠ 0) :
    l.region i ⊆ stackBelow (assignKernelStack l.initial i) := by
  rintro a (⟨-, inside⟩ | ⟨rfl, -⟩)
  · exact inside
  · exact absurd rfl nonroot

theorem stackBelow_subset {i : Nat} (has : assignKernelStack l.initial i ≠ 0) :
    stackBelow (assignKernelStack l.initial i) ⊆ { a | (a - l.kernelStacks).toNat < 131072 } := by
  intro a inside
  unfold assignKernelStack at has inside
  split at has
  · exact absurd rfl has
  · rename_i low
    rw [if_neg low] at inside
    simp only [maxRunnable] at low
    simp only [stackBelow, kernelStackSize, initial, taskInit, Set.mem_ofPred_eq] at inside ⊢
    bv_omega

theorem region_disjoint {i j : Nat} (different : i ≠ j) :
    Disjoint (l.region i) (l.region j) := by
  rw [Set.disjoint_left]
  rintro a (⟨has, inside⟩ | ⟨rfl, boot⟩) (⟨has', inside'⟩ | ⟨rfl, boot'⟩)
  · exact Set.disjoint_left.mp (assignKernelStack_disjoint l.initial different has has')
      inside inside'
  · exact Set.disjoint_left.mp l.apart boot' (l.stackBelow_subset has inside)
  · exact Set.disjoint_left.mp l.apart boot (l.stackBelow_subset has' inside')
  · exact absurd rfl different

end Layout

/-! ## Runs -/

inductive CoreOp where
  | createTask (spec : Option Task)
  | setupInitialFrame (task : Option Nat) (entry : BitVec 32)
  | taskYield (ra : BitVec 32)
  /-- A direct call of the switch to some entry. -/
  | switchTo (next : Nat) (ra : BitVec 32)
  /-- Whatever the running task does in between. -/
  | work (regs : Reg → BitVec 32) (stack : WordStack)

/-- The entry of the running task. -/
def Core.position (s : Core) : Nat := s.table.current.getD 0

def coreStep (arch : Arch) (s : Core) : CoreOp → Core
  | .createTask spec => { s with table := (createTaskEntry s.table spec).2.2.2 }
  | .setupInitialFrame task entry => s.taskSetupInitialFrame arch task entry
  | .taskYield ra => s.taskYield arch ra
  | .switchTo next ra => s.switchTo arch s.position next ra
  | .work regs stack => { s with regs := regs, toWordStack := stack }

/-- The switch that an operation makes: from where, and to where. -/
def switchOf (s : Core) : CoreOp → Option (Nat × Nat)
  | .taskYield _ => s.yieldSwitch
  | .switchTo next _ => some (s.position, next)
  | _ => none

/-- A processor, and the context that each task should go on with. -/
structure Monitored where
  core : Core
  expected : Nat → Option Context

def expect (arch : Arch) (s : Monitored) : CoreOp → Nat → Option Context
  | .setupInitialFrame task entry =>
      match s.core.setupTarget task entry with
      | none => s.expected
      | some (i, top) => Function.update s.expected i (some (initialContext top entry))
  | .taskYield ra =>
      match s.core.yieldSwitch with
      | none => s.expected
      | some (prev, next) => Function.update s.expected prev
          (some (s.core.scheduled.contextAt arch prev next ra))
  | .switchTo next ra => Function.update s.expected s.core.position
      (some (s.core.contextAt arch s.core.position next ra))
  | _ => s.expected

def monitoredStep (arch : Arch) (s : Monitored) (op : CoreOp) : Monitored :=
  ⟨coreStep arch s.core op, expect arch s op⟩

/-- A processor on which `task_init` was called. -/
def Monitored.start (l : Layout) (s : Core) : Monitored :=
  ⟨{ s with table := l.initial }, fun _ => none⟩

/-- The words that a call of the switch pushes: the frame, and on `i386` two arguments. -/
def pushedWords : Arch → Nat
  | .arm => 9
  | .i386 => 7

/-- The running task keeps to its own stack, also when it calls the switch. -/
def OnOwnStack (arch : Arch) (l : Layout) (s : Monitored) : CoreOp → Prop
  | .taskYield ra => ∀ prev next, s.core.yieldSwitch = some (prev, next) →
      bytesFrom (frameAddress arch (s.core.scheduled.contextAt arch prev next ra))
        (pushedWords arch) ⊆ l.region prev
  | .switchTo next ra => next < s.core.table.tasks.length ∧ s.core.position ≠ next ∧
      bytesFrom (frameAddress arch (s.core.contextAt arch s.core.position next ra))
        (pushedWords arch) ⊆ l.region s.core.position
  | .work _ stack => ∀ x, ¬bytesFrom x 1 ⊆ l.region s.core.position → stack.mem x = s.core.mem x
  | _ => True

/-! ## Frames of the tasks that are not running -/

/-- The frame of a context is on the stack of a task, and `saved_sp` is its address. -/
structure Parked (arch : Arch) (l : Layout) (s : Core) (i : Nat) (c : Context) : Prop where
  entry : ∃ task, s.table.tasks[i]? = some task ∧ task.savedSp = frameAddress arch c
  stored : readAll s.mem (frameAddress arch c) (frameWords arch) = frame arch c
  inside : bytesFrom (frameAddress arch c) (frameWords arch) ⊆ l.region i

structure Intact (arch : Arch) (l : Layout) (s : Monitored) : Prop where
  kept : WellKept s.core.table
  kernelStacks : s.core.table.kernelStacks = l.kernelStacks
  current : ∃ task, s.core.table.current = some s.core.position ∧
    s.core.table.tasks[s.core.position]? = some task
  parked : ∀ i c, s.expected i = some c → i ≠ s.core.position → Parked arch l s.core i c
  unprepared : ∀ i task, s.core.table.tasks[i]? = some task → s.expected i = none →
    i ≠ s.core.position → i ≠ 0 ∧ task.savedSp = task.kernelStackTop

theorem frameWords_fits (arch : Arch) : 4 * frameWords arch ≤ 2 ^ 32 := by cases arch <;> decide

theorem frameWords_pos (arch : Arch) : 0 < frameWords arch := by cases arch <;> decide

/-- Writing elsewhere leaves a parked frame. -/
theorem Parked.of_outside {arch : Arch} {l : Layout} {s s' : Core} {i : Nat} {c : Context}
    (parked : Parked arch l s i c)
    (entry : ∀ task, s.table.tasks[i]? = some task →
      ∃ task', s'.table.tasks[i]? = some task' ∧ task'.savedSp = task.savedSp)
    (mem : ∀ x ∈ l.region i, s'.mem x = s.mem x) : Parked arch l s' i c := by
  obtain ⟨task, at_i, saved⟩ := parked.entry
  obtain ⟨task', at_i', same⟩ := entry task at_i
  refine ⟨⟨task', at_i', same.trans saved⟩, ?_, parked.inside⟩
  rw [readAll_congr (frameWords_fits arch) fun x within => mem x (parked.inside within)]
  exact parked.stored

/-! ## One operation -/

section Steps

variable {arch : Arch} {l : Layout} {s : Monitored}

theorem start_intact (arch : Arch) (l : Layout) (s : Core) : Intact arch l (.start l s) where
  kept := taskInit_kept l.kernelStacks
  kernelStacks := rfl
  current := ⟨_, rfl, rfl⟩
  parked := by
    intro i c none
    cases none
  unprepared := by
    intro i task at_i _ elsewhere
    have only : i < 1 := (List.getElem?_eq_some_iff.mp at_i).1
    exact absurd (Nat.lt_one_iff.mp only) elsewhere

theorem Intact.createTask (intact : Intact arch l s) (spec : Option Task) :
    Intact arch l (monitoredStep arch s (.createTask spec)) := by
  obtain same | ⟨child, new, -, empty⟩ := createTaskEntry_appends s.core.table spec
  · have step : monitoredStep arch s (.createTask spec) = s := by
      simp only [monitoredStep, coreStep, same, expect]
    rwa [step]
  have earlier : ∀ {i : Nat} {task : Task}, s.core.table.tasks[i]? = some task →
      (s.core.table.tasks ++ [child])[i]? = some task := fun at_i => by
    exact getElem?_append_of_some at_i _
  obtain ⟨running, current, at_current⟩ := intact.current
  have kept := intact.kept.created spec
  rw [new] at kept
  refine ⟨?_, ?_, ?_, ?_, ?_⟩ <;> simp only [monitoredStep, coreStep, new, expect, Core.position]
  · exact kept
  · exact intact.kernelStacks
  · exact ⟨running, current, earlier at_current⟩
  · intro i c context elsewhere
    exact (intact.parked i c context elsewhere).of_outside
      (fun task at_i => ⟨task, earlier at_i, rfl⟩) fun _ _ => rfl
  · intro i task at_i none elsewhere
    obtain old | ⟨rfl, rfl⟩ := getElem?_concat_cases at_i
    · exact intact.unprepared i task old none elsewhere
    · exact ⟨mt List.length_eq_zero_iff.mp intact.kept.nonempty, empty⟩

theorem Intact.work (intact : Intact arch l s) {regs : Reg → BitVec 32} {stack : WordStack}
    (confined : OnOwnStack arch l s (.work regs stack)) :
    Intact arch l (monitoredStep arch s (.work regs stack)) where
  kept := intact.kept
  kernelStacks := intact.kernelStacks
  current := intact.current
  parked := by
    intro i c context elsewhere
    refine (intact.parked i c context elsewhere).of_outside (fun task at_i => ⟨task, at_i, rfl⟩)
      fun x inside => confined x fun own => ?_
    exact Set.disjoint_left.mp (l.region_disjoint elsewhere) inside
      (own (start_mem_bytesFrom Nat.one_pos))
  unprepared := intact.unprepared

/-- The scheduler leaves the stack pointers. -/
theorem stateless_stack {task task' : Task} (same : stateless task' = stateless task) :
    task'.savedSp = task.savedSp ∧ task'.kernelStackTop = task.kernelStackTop := by
  have saved := congrArg Task.savedSp same
  have top := congrArg Task.kernelStackTop same
  exact ⟨saved, top⟩

theorem scheduled_stateless (s : Core) :
    s.scheduled.table.tasks.map stateless = s.table.tasks.map stateless :=
  rrSchedule_map (fun _ _ _ _ => rfl) _ _

theorem Core.scheduled_position (s : Core) : s.scheduled.position = s.position := by
  rw [position, scheduled, rrSchedule_current, position]

theorem Intact.scheduled (intact : Intact arch l s) :
    Intact arch l ⟨s.core.scheduled, s.expected⟩ := by
  have amends := rrSchedule_amends s.core.table s.core.rrCursor
  have entries := scheduled_stateless s.core
  obtain ⟨running, current, at_current⟩ := intact.current
  refine ⟨intact.kept.amended amends, amends.kernelStacks.trans intact.kernelStacks, ?_, ?_, ?_⟩
    <;> simp only [Core.scheduled_position]
  · obtain ⟨running', at_current', -⟩ := getElem?_of_map_eq entries at_current
    exact ⟨running', (rrSchedule_current _ _).trans current, at_current'⟩
  · intro i c context elsewhere
    refine (intact.parked i c context elsewhere).of_outside (fun task at_i => ?_) fun _ _ => rfl
    obtain ⟨task', at_i', same⟩ := getElem?_of_map_eq entries at_i
    exact ⟨task', at_i', (stateless_stack same).1⟩
  · intro i task' at_i' none elsewhere
    obtain ⟨task, at_i, same⟩ := getElem?_of_map_eq entries.symm at_i'
    obtain ⟨nonroot, empty⟩ := intact.unprepared i task at_i none elsewhere
    obtain ⟨saved, top⟩ := stateless_stack same
    exact ⟨nonroot, by rw [← saved, ← top, empty]⟩

theorem setSavedSp_entry {t : TaskTable} {i j : Nat} (apart : i ≠ j) (sp : BitVec 32) :
    (setSavedSp t i sp).tasks[j]? = t.tasks[j]? := by
  simp [setSavedSp, apart]

theorem setSavedSp_self {t : TaskTable} {i : Nat} {task : Task} (at_i : t.tasks[i]? = some task)
    (sp : BitVec 32) :
    (setSavedSp t i sp).tasks[i]? = some { task with savedSp := sp } := by
  simp [setSavedSp, at_i]

/-- A frame is written on the stack of a task and its address in `saved_sp`, by the setup or
by the switch that leaves the task; nothing else is written outside its stack. -/
theorem Intact.parks (intact : Intact arch l s) {core : Core} {i : Nat} {c : Context} {t : Task}
    (at_i : s.core.table.tasks[i]? = some t)
    (table : core.table =
      { setSavedSp s.core.table i (frameAddress arch c) with current := core.table.current })
    (current : core.table.current = some core.position)
    (inTable : core.position < s.core.table.tasks.length)
    (left : core.position = s.core.position ∨ i = s.core.position)
    (stored : readAll core.mem (frameAddress arch c) (frameWords arch) = frame arch c)
    (inside : bytesFrom (frameAddress arch c) (frameWords arch) ⊆ l.region i)
    (mem : ∀ x, x ∉ l.region i → core.mem x = s.core.mem x) :
    Intact arch l ⟨core, Function.update s.expected i (some c)⟩ := by
  have amends : Amends s.core.table core.table := by
    rw [table]
    exact .modify _ _ i fun _ => ⟨rfl, rfl, rfl, rfl, rfl, id⟩
  have entries : core.table.tasks = (setSavedSp s.core.table i (frameAddress arch c)).tasks :=
    by rw [table]
  refine ⟨intact.kept.amended amends, amends.kernelStacks.trans intact.kernelStacks, ?_, ?_, ?_⟩
    <;> dsimp only
  · obtain ⟨running, at_current, -⟩ := amends.entries _ _ (List.getElem?_eq_getElem inTable)
    exact ⟨running, current, at_current⟩
  · intro j c' context elsewhere
    by_cases here : j = i
    · subst here
      rw [Function.update_self] at context
      cases context
      exact ⟨⟨_, by rw [entries, setSavedSp_self at_i], rfl⟩, stored, inside⟩
    · rw [Function.update_of_ne here] at context
      have before : j ≠ s.core.position := by
        rcases left with same | same
        · rwa [← same]
        · rwa [← same]
      refine (intact.parked j c' context before).of_outside (fun task at_j => ?_)
        fun x within => mem x (Set.disjoint_left.mp (l.region_disjoint here) within)
      exact ⟨task, by rw [entries, setSavedSp_entry (Ne.symm here), at_j], rfl⟩
  · intro j task at_j none elsewhere
    have here : j ≠ i := by
      rintro rfl
      rw [Function.update_self] at none
      cases none
    rw [Function.update_of_ne here] at none
    rw [entries, setSavedSp_entry (Ne.symm here)] at at_j
    refine intact.unprepared j task at_j none ?_
    rcases left with same | same
    · rwa [← same]
    · rwa [← same]

theorem Core.setupTarget_spec {s : Core} {task : Option Nat} {entry top : BitVec 32} {i : Nat}
    (target : s.setupTarget task entry = some (i, top)) :
    ∃ t, s.table.tasks[i]? = some t ∧ t.kernelStackTop = top ∧ top ≠ 0 := by
  obtain ⟨i', -, rest⟩ := Option.bind_eq_some_iff.mp target
  obtain ⟨t, at_i, result⟩ := Option.bind_eq_some_iff.mp rest
  split at result
  · cases result
  · rename_i accepted
    cases result
    exact ⟨t, at_i, rfl, fun zero => accepted (.inl zero)⟩

/-- `task_setup_initial_frame` writes the frame of the initial context below the stack top. -/
theorem Core.taskSetupInitialFrame_eq (arch : Arch) {s : Core} {task : Option Nat}
    {entry top : BitVec 32} {i : Nat} (target : s.setupTarget task entry = some (i, top)) :
    s.taskSetupInitialFrame arch task entry =
      { s with
        mem := storeAll s.mem (frameAddress arch (initialContext top entry))
          (frame arch (initialContext top entry))
        table := setSavedSp s.table i (frameAddress arch (initialContext top entry)) } := by
  have words : (initialPushes arch entry).length = frameWords arch := by cases arch <;> rfl
  simp only [taskSetupInitialFrame, target, WordStack.pushAll_eq, words,
    initialPushes_eq arch top entry]
  rfl

/-- The frame of a stack that is empty otherwise. -/
theorem initial_inside (arch : Arch) (top entry : BitVec 32) :
    bytesFrom (frameAddress arch (initialContext top entry)) (frameWords arch) ⊆
      stackBelow top := by
  intro x inside
  cases arch <;>
  · simp only [mem_bytesFrom, frameAddress, initialContext, frameWords, stackBelow,
      kernelStackSize, Set.mem_ofPred_eq] at inside ⊢
    bv_omega

theorem Intact.stackTop (intact : Intact arch l s) {i : Nat} {task : Task}
    (at_i : s.core.table.tasks[i]? = some task) :
    task.kernelStackTop = assignKernelStack l.initial i := by
  rw [intact.kept.stacked i task at_i, assignKernelStack, assignKernelStack, intact.kernelStacks]
  rfl

theorem Intact.setupInitialFrame (intact : Intact arch l s) (task : Option Nat)
    (entry : BitVec 32) :
    Intact arch l (monitoredStep arch s (.setupInitialFrame task entry)) := by
  cases target : s.core.setupTarget task entry with
  | none =>
      simp only [monitoredStep, coreStep, Core.taskSetupInitialFrame, target, expect]
      exact intact
  | some found =>
      obtain ⟨i, top⟩ := found
      obtain ⟨t, at_i, rfl, has⟩ := Core.setupTarget_spec target
      let c := initialContext t.kernelStackTop entry
      obtain ⟨running, current, at_current⟩ := intact.current
      have inside : bytesFrom (frameAddress arch c) (frameWords arch) ⊆ l.region i := by
        intro x within
        rw [intact.stackTop at_i] at has
        refine .inl ⟨has, ?_⟩
        rw [← intact.stackTop at_i]
        exact initial_inside arch _ entry within
      have fits : 4 * (frame arch c).length ≤ 2 ^ 32 := by
        rw [length_frame]
        exact frameWords_fits arch
      simp only [monitoredStep, coreStep, Core.taskSetupInitialFrame_eq arch target, expect, target]
      refine intact.parks at_i rfl current (List.getElem?_eq_some_iff.mp at_current).1 (.inl rfl)
        ?_ inside fun x outside => storeAll_outside fits ?_
      · rw [← length_frame arch c]
        exact readAll_storeAll _ _ fits
      · rw [length_frame]
        exact fun written => outside (inside written)

theorem Core.passArguments_outside (arch : Arch) (s : Core) (prev next : Nat) (ra : BitVec 32)
    {x : BitVec 32} (outside : x ∉ bytesFrom (frameAddress arch (s.contextAt arch prev next ra))
      (pushedWords arch)) : (s.passArguments arch prev next).mem x = s.mem x := by
  cases arch with
  | arm => rfl
  | i386 =>
      rw [passArguments, WordStack.pushAll_eq]
      refine storeAll_outside (by simp) fun written => outside ?_
      -- the two arguments are above the five words of the frame
      have arguments : frameAddress .i386 (s.contextAt .i386 prev next ra) + 4 * 5#32 =
          s.sp - 4 * 2#32 := by
        change s.sp - 4 - 4 - 4 * 5#32 + 4 * 5#32 = _
        bv_omega
      have skip := bytesFrom_skip (a := frameAddress .i386 (s.contextAt .i386 prev next ra))
        (n := 2) (k := 5)
      rw [arguments] at skip
      exact skip written

/-- The switch writes the words it pushes, and no others. -/
theorem Core.switchTo_outside (arch : Arch) (s : Core) {prev next : Nat} (low : prev < 1024)
    (low' : next < 1024) (apart : prev ≠ next) (ra : BitVec 32) {x : BitVec 32}
    (outside : x ∉ bytesFrom (frameAddress arch (s.contextAt arch prev next ra))
      (pushedWords arch)) : (s.switchTo arch prev next ra).mem x = s.mem x := by
  have within : frameWords arch ≤ pushedWords arch := by cases arch <;> decide
  rw [(s.switchTo_spec arch low low' apart ra).1, storeAll_outside]
  · exact s.passArguments_outside arch prev next ra outside
  · rw [length_frame]
    exact frameWords_fits arch
  · rw [length_frame]
    exact fun written => outside (bytesFrom_mono within written)

theorem Intact.switchTo (intact : Intact arch l s) {next : Nat} {ra : BitVec 32}
    (confined : OnOwnStack arch l s (.switchTo next ra)) :
    Intact arch l (monitoredStep arch s (.switchTo next ra)) := by
  obtain ⟨inTable, apart, pushes⟩ := confined
  obtain ⟨running, current, at_current⟩ := intact.current
  have low := intact.kept.lineage.position at_current
  have low' := intact.kept.lineage.position (List.getElem?_eq_getElem inTable)
  have within : frameWords arch ≤ pushedWords arch := by cases arch <;> decide
  obtain ⟨mem, table, -, -⟩ := s.core.switchTo_spec arch low low' apart ra
  have position : (s.core.switchTo arch s.core.position next ra).position = next := by
    rw [Core.position, table]
    rfl
  simp only [monitoredStep, coreStep, expect]
  refine intact.parks at_current ?_ ?_ ?_ (.inr rfl) ?_
    ((bytesFrom_mono within).trans pushes) fun x outside =>
      s.core.switchTo_outside arch low low' apart ra fun written => outside (pushes written)
  · rw [table]
    rfl
  · rw [position, table]
    rfl
  · rwa [position]
  · rw [mem, ← length_frame arch (s.core.contextAt arch s.core.position next ra)]
    exact readAll_storeAll _ _ (by rw [length_frame]; exact frameWords_fits arch)

/-- `task_yield` switches from the running task to another one that is in the table. -/
theorem Intact.yieldSwitch_spec (intact : Intact arch l s) {prev next : Nat}
    (switches : s.core.yieldSwitch = some (prev, next)) :
    prev = s.core.position ∧ next < s.core.scheduled.table.tasks.length ∧ prev ≠ next := by
  obtain ⟨running, current, at_current⟩ := intact.current
  obtain ⟨position, current', rest⟩ := Option.bind_eq_some_iff.mp switches
  rw [current] at current'
  cases current'
  rw [at_current, Option.bind_some] at rest
  obtain ⟨target, result, pair⟩ := Option.map_eq_some_iff.mp rest
  cases pair
  refine ⟨rfl, ?_⟩
  unfold yieldTarget at result
  split at result
  · cases result
  split at result
  · cases result
  rename_i nextId _ other
  split at result
  · cases result
  rename_i found
  split at result
  · cases result
    refine ⟨taskPosition?_lt found, ?_⟩
    rintro rfl
    obtain ⟨running', at_current', same⟩ :=
      getElem?_of_map_eq (scheduled_stateless s.core) at_current
    have id : running'.taskId = running.taskId := (congrArg Task.taskId same : _)
    unfold taskPosition? at found
    split at found
    · cases found
    · obtain ⟨bound, matches_id, -⟩ := List.findIdx?_eq_some_iff_getElem.mp found
      rw [List.getElem?_eq_getElem bound] at at_current'
      cases at_current'
      exact other ((of_decide_eq_true matches_id).symm.trans id)
  · cases result

theorem Intact.taskYield_step (intact : Intact arch l s) (ra : BitVec 32) :
    (s.core.yieldSwitch = none ∧
        monitoredStep arch s (.taskYield ra) = ⟨s.core.scheduled, s.expected⟩) ∨
      ∃ next, s.core.yieldSwitch = some (s.core.position, next) ∧
        monitoredStep arch s (.taskYield ra) =
          monitoredStep arch ⟨s.core.scheduled, s.expected⟩ (.switchTo next ra) := by
  obtain ⟨running, current, at_current⟩ := intact.current
  have active : s.core.table.currentTask ≠ none := by
    simp [TaskTable.currentTask, current, at_current]
  cases switches : s.core.yieldSwitch with
  | none =>
      refine .inl ⟨rfl, ?_⟩
      simp only [monitoredStep, coreStep, Core.taskYield, if_neg active, switches, expect]
  | some pair =>
      obtain ⟨prev, next⟩ := pair
      obtain ⟨rfl, -, -⟩ := intact.yieldSwitch_spec switches
      refine .inr ⟨next, rfl, ?_⟩
      simp only [monitoredStep, coreStep, Core.taskYield, if_neg active, switches, expect,
        Core.scheduled_position]

/-- The switch of a `task_yield` is confined as a switch. -/
theorem Intact.confined_switch (intact : Intact arch l s) {next : Nat} {ra : BitVec 32}
    (switches : s.core.yieldSwitch = some (s.core.position, next))
    (confined : OnOwnStack arch l s (.taskYield ra)) :
    OnOwnStack arch l ⟨s.core.scheduled, s.expected⟩ (.switchTo next ra) := by
  obtain ⟨-, inTable, apart⟩ := intact.yieldSwitch_spec switches
  have pushes := confined _ _ switches
  simp only [OnOwnStack, Core.scheduled_position]
  exact ⟨inTable, apart, pushes⟩

theorem Intact.step (intact : Intact arch l s) (op : CoreOp) (confined : OnOwnStack arch l s op) :
    Intact arch l (monitoredStep arch s op) := by
  cases op with
  | createTask spec => exact intact.createTask spec
  | setupInitialFrame task entry => exact intact.setupInitialFrame task entry
  | taskYield ra =>
      obtain ⟨-, step⟩ | ⟨next, switches, step⟩ := intact.taskYield_step ra
      · rw [step]
        exact intact.scheduled
      · rw [step]
        exact intact.scheduled.switchTo (intact.confined_switch switches confined)
  | switchTo next ra => exact intact.switchTo confined
  | work regs stack => exact intact.work confined

end Steps

/-! ## A run on a concrete layout -/

def sampleLayout : Layout where
  kernelStacks := 0x100000
  bootStack := bytesFrom 0x8000 1024
  apart := by
    rw [Set.disjoint_left]
    intro a boot stacks'
    simp only [mem_bytesFrom, Set.mem_ofPred_eq] at boot stacks'
    bv_omega

/-- A processor on the boot stack, with a memory of zeros. -/
def sampleCore : Core where
  mem := fun _ => 0
  sp := 0x9000
  regs := fun _ => 7
  pc := 0x5000
  table := sampleLayout.initial
  rrCursor := 0
  tasksAt := 0x20000

def sampleSpec : Task where
  taskId := 0
  priority := 5
  capMask := capIpcSend
  domain := 0
  state := .ready
  deadline := 0
  kernelStackTop := 0
  savedSp := 0
  parentTaskId := 0

theorem onOwnStack_taskYield {arch : Arch} {l : Layout} {s : Monitored} {ra : BitVec 32}
    (prev next : Nat) (a : BitVec 32) (target : s.core.yieldSwitch = some (prev, next))
    (address : frameAddress arch (s.core.scheduled.contextAt arch prev next ra) = a)
    (inside : bytesFrom a (pushedWords arch) ⊆ l.region prev) :
    OnOwnStack arch l s (.taskYield ra) := by
  intro prev' next' switches
  rw [target] at switches
  cases switches
  rw [address]
  exact inside

theorem sample_boot_region {a : BitVec 32} {n : Nat} (low : 0x8000 ≤ a.toNat)
    (high : a.toNat + 4 * n ≤ 0x9000) : bytesFrom a n ⊆ sampleLayout.region 0 := by
  intro x inside
  refine .inr ⟨rfl, ?_⟩
  simp only [sampleLayout, mem_bytesFrom] at inside ⊢
  bv_omega

theorem sample_second_region {a : BitVec 32} {n : Nat} (low : 0x104000 ≤ a.toNat)
    (high : a.toNat + 4 * n ≤ 0x108000) : bytesFrom a n ⊆ sampleLayout.region 1 := by
  intro x inside
  have top : assignKernelStack sampleLayout.initial 1 = 0x108000 := by decide
  refine .inl ?_
  rw [top]
  simp only [stackBelow, kernelStackSize, mem_bytesFrom, Set.mem_ofPred_eq] at inside ⊢
  bv_omega

/-! ## Contexts are restored -/

/-- A switch of the operation makes the task it switches to the current one, and goes on with
the context that is expected of that task. -/
def Restores (arch : Arch) (s : Monitored) (op : CoreOp) : Prop :=
  ∀ prev next, switchOf s.core op = some (prev, next) →
    (coreStep arch s.core op).table.current = some next ∧
      ∀ c, s.expected next = some c → Resumes arch (coreStep arch s.core op) c

theorem Intact.switchTo_restores {arch : Arch} {l : Layout} {s : Monitored}
    (intact : Intact arch l s) {next : Nat} {ra : BitVec 32}
    (confined : OnOwnStack arch l s (.switchTo next ra)) :
    Restores arch s (.switchTo next ra) := by
  intro prev next' switches
  cases switches
  obtain ⟨inTable, apart, pushes⟩ := confined
  obtain ⟨running, -, at_current⟩ := intact.current
  have low := intact.kept.lineage.position at_current
  have low' := intact.kept.lineage.position (List.getElem?_eq_getElem inTable)
  refine ⟨?_, fun c context => ?_⟩
  · rw [coreStep, (s.core.switchTo_spec arch low low' apart ra).2.1]
    rfl
  · have parked := intact.parked next c context (Ne.symm apart)
    obtain ⟨task, at_next, saved⟩ := parked.entry
    refine s.core.switchTo_resumes arch low low' apart ra ?_ ?_
    · simp [savedSpOf, at_next, saved]
    · rw [readAll_congr (frameWords_fits arch) fun x within =>
        s.core.switchTo_outside arch low low' apart ra fun written =>
          Set.disjoint_left.mp (l.region_disjoint (Ne.symm apart)) (parked.inside within)
            (pushes written)]
      exact parked.stored

theorem Intact.restores {arch : Arch} {l : Layout} {s : Monitored} (intact : Intact arch l s)
    (op : CoreOp) (confined : OnOwnStack arch l s op) : Restores arch s op := by
  cases op with
  | taskYield ra =>
      intro prev next switches
      obtain ⟨idle, -⟩ | ⟨target, switches', step⟩ := intact.taskYield_step ra
      · rw [switchOf, idle] at switches
        cases switches
      · rw [switchOf, switches'] at switches
        cases switches
        have restored := intact.scheduled.switchTo_restores
          (intact.confined_switch switches' confined) _ _ rfl
        have core : coreStep arch s.core (.taskYield ra) =
            coreStep arch s.core.scheduled (.switchTo next ra) := congrArg Monitored.core step
        rw [core]
        exact restored
  | switchTo next ra => exact intact.switchTo_restores confined
  | createTask | setupInitialFrame | work =>
      intro prev next switches
      cases switches

/-- In a run in which every task keeps to its own stack, each switch goes on with what the
task that it switches to was left with, or was prepared with. -/
theorem context_switches_restore (arch : Arch) (l : Layout) (s : Core) (ops : List CoreOp)
    (confined : Runs.Meets (monitoredStep arch) (OnOwnStack arch l) (.start l s) ops) :
    Runs.Meets (monitoredStep arch) (Restores arch) (.start l s) ops :=
  (Runs.meets_congr (start_intact arch l s) (fun _ op intact ok => intact.step op ok)
    (fun _ op intact ok => iff_of_true trivial (intact.restores op ok)) confined).mp
      (Runs.meets_true _ ops)

/-- The root task prepares a new task and switches to it. -/
def firstSwitch : List CoreOp :=
  [.createTask (some sampleSpec), .setupInitialFrame (some 1) 0x5000, .taskYield 0x6000]

/-- The new task changes the registers and switches back. -/
def switchBack : List CoreOp :=
  firstSwitch ++
    [.work (fun _ => 9) (Runs.after (coreStep .arm) sampleCore firstSwitch).toWordStack,
      .switchTo 0 0x5004]

theorem switchBack_confined : Runs.Meets (monitoredStep .arm) (OnOwnStack .arm sampleLayout)
    (.start sampleLayout sampleCore) switchBack := by
  refine ⟨trivial, trivial, onOwnStack_taskYield 0 1 0x8FDC (by decide +kernel) (by decide +kernel)
    (sample_boot_region (by decide) (by decide)), fun _ _ => rfl, ⟨by decide +kernel,
      by decide +kernel, ?_⟩, trivial⟩
  -- nine words below the top of the second stack
  have address : frameAddress .arm ((Runs.after (coreStep .arm) sampleCore
      (switchBack.take 4)).contextAt .arm 1 0 0x5004) = 0x107FDC := by
    decide +kernel
  change bytesFrom (frameAddress .arm ((Runs.after (coreStep .arm) sampleCore
    (switchBack.take 4)).contextAt .arm 1 0 0x5004)) 9 ⊆ sampleLayout.region 1
  rw [address]
  exact sample_second_region (by decide) (by decide)

theorem context_switches_restore_switchBack :
    Runs.Meets (monitoredStep .arm) (Restores .arm) (.start sampleLayout sampleCore) switchBack ∧
      let s := Runs.after (coreStep .arm) sampleCore switchBack
      s.pc = 0x6000 ∧ s.sp = 0x9000 ∧ s.regs .r4 = 7 :=
  ⟨context_switches_restore .arm sampleLayout sampleCore _ switchBack_confined, by decide +kernel⟩

/-! ## Frames that were never written -/

/-- `saved_sp` of an entry is the address of a whole frame that the setup or the last switch
away from the task wrote, on its own stack unless it is the root task. -/
def RealFrame (arch : Arch) (s : Monitored) (i : Nat) : Prop :=
  ∃ c task, s.expected i = some c ∧ s.core.table.tasks[i]? = some task ∧
    task.savedSp = frameAddress arch c ∧
    readAll s.core.mem task.savedSp (frameWords arch) = frame arch c ∧
    (i ≠ 0 → bytesFrom task.savedSp (frameWords arch) ⊆ stackBelow task.kernelStackTop)

/-- A `task_yield` only switches to such frames. -/
def YieldsToFrame (arch : Arch) (s : Monitored) : CoreOp → Prop
  | .taskYield _ => ∀ prev next, s.core.yieldSwitch = some (prev, next) → RealFrame arch s next
  | _ => True

/-- A `task_yield` does not switch to an empty stack. -/
def YieldsToPrepared (s : Monitored) : CoreOp → Prop
  | .taskYield _ => ∀ prev next, s.core.yieldSwitch = some (prev, next) →
      ∀ task, s.core.table.tasks[next]? = some task → next ≠ 0 →
        task.savedSp ≠ task.kernelStackTop
  | _ => True

theorem top_not_mem_stackBelow (top : BitVec 32) : top ∉ stackBelow top := by
  simp only [stackBelow, kernelStackSize, Set.mem_ofPred_eq]
  bv_omega

theorem RealFrame.prepared {arch : Arch} {s : Monitored} {i : Nat} (real : RealFrame arch s i)
    {task : Task} (at_i : s.core.table.tasks[i]? = some task) (nonroot : i ≠ 0) :
    task.savedSp ≠ task.kernelStackTop := by
  obtain ⟨c, task', -, at_i', -, -, inside⟩ := real
  rw [at_i] at at_i'
  cases at_i'
  intro empty
  have lowest := inside nonroot (start_mem_bytesFrom (frameWords_pos arch))
  rw [empty] at lowest
  exact top_not_mem_stackBelow _ lowest

theorem Intact.realFrame {arch : Arch} {l : Layout} {s : Monitored} (intact : Intact arch l s)
    {i : Nat} {task : Task} (at_i : s.core.table.tasks[i]? = some task)
    (elsewhere : i ≠ s.core.position) (prepared : i ≠ 0 → task.savedSp ≠ task.kernelStackTop) :
    RealFrame arch s i := by
  cases context : s.expected i with
  | none =>
      obtain ⟨nonroot, empty⟩ := intact.unprepared i task at_i context elsewhere
      exact absurd empty (prepared nonroot)
  | some c =>
      have parked := intact.parked i c context elsewhere
      obtain ⟨task', at_i', saved⟩ := parked.entry
      rw [at_i] at at_i'
      cases at_i'
      refine ⟨c, task, context, at_i, saved, by rw [saved]; exact parked.stored, fun nonroot => ?_⟩
      rw [saved, intact.stackTop at_i]
      exact parked.inside.trans (l.region_of_ne_zero nonroot)

theorem Intact.yieldsToFrame_iff {arch : Arch} {l : Layout} {s : Monitored}
    (intact : Intact arch l s) (op : CoreOp) :
    YieldsToFrame arch s op ↔ YieldsToPrepared s op := by
  cases op with
  | taskYield ra =>
      refine forall₂_congr fun prev next => forall_congr' fun switches => ?_
      obtain ⟨rfl, inTable, apart⟩ := intact.yieldSwitch_spec switches
      constructor
      · intro real task at_next nonroot
        exact real.prepared at_next nonroot
      · intro prepared
        rw [Core.scheduled, (rrSchedule_amends _ _).length] at inTable
        have at_next := List.getElem?_eq_getElem inTable
        exact intact.realFrame at_next (Ne.symm apart) (prepared _ at_next)
  | createTask | setupInitialFrame | switchTo | work => exact Iff.rfl

/-- In a run in which every task keeps to its own stack, `task_yield` only switches to frames
that were written for the task just if it never switches to a task that was created but not
prepared. -/
theorem resumed_frames_real_iff (arch : Arch) (l : Layout) (s : Core) (ops : List CoreOp)
    (confined : Runs.Meets (monitoredStep arch) (OnOwnStack arch l) (.start l s) ops) :
    Runs.Meets (monitoredStep arch) (YieldsToFrame arch) (.start l s) ops ↔
      Runs.Meets (monitoredStep arch) YieldsToPrepared (.start l s) ops :=
  Runs.meets_congr (start_intact arch l s) (fun _ op intact ok => intact.step op ok)
    (fun _ op intact _ => intact.yieldsToFrame_iff op) confined

theorem resumed_frames_real_iff_switchBack :
    Runs.Meets (monitoredStep .arm) (YieldsToFrame .arm) (.start sampleLayout sampleCore)
        switchBack ↔
      Runs.Meets (monitoredStep .arm) YieldsToPrepared (.start sampleLayout sampleCore)
        switchBack :=
  resumed_frames_real_iff .arm sampleLayout sampleCore _ switchBack_confined

/-- The run of a `create_task` and a `task_yield`. -/
def unpreparedRun : List CoreOp := [.createTask (some sampleSpec), .taskYield 0x6000]

theorem unpreparedRun_confined : ∀ arch, Runs.Meets (monitoredStep arch)
    (OnOwnStack arch sampleLayout) (.start sampleLayout sampleCore) unpreparedRun
  | .arm => ⟨trivial, onOwnStack_taskYield 0 1 0x8FDC (by decide +kernel) (by decide +kernel)
      (sample_boot_region (by decide) (by decide)), trivial⟩
  | .i386 => ⟨trivial, onOwnStack_taskYield 0 1 0x8FE4 (by decide +kernel) (by decide +kernel)
      (sample_boot_region (by decide) (by decide)), trivial⟩

theorem unpreparedRun_switches (arch : Arch) :
    ¬Runs.Meets (monitoredStep arch) (YieldsToFrame arch) (.start sampleLayout sampleCore)
      unpreparedRun := by
  rintro ⟨-, real, -⟩
  obtain ⟨c, -, context, -⟩ := real 0 1 (by cases arch <;> decide +kernel)
  cases context

/-- The new task is resumed with the words above its stack: on a memory of zeros, at
address 0. -/
theorem unprepared_task_resumed :
    (∀ arch, Runs.Meets (monitoredStep arch) (OnOwnStack arch sampleLayout)
        (.start sampleLayout sampleCore) unpreparedRun) ∧
      ¬Runs.Meets (monitoredStep .arm) (YieldsToFrame .arm) (.start sampleLayout sampleCore)
        unpreparedRun ∧
      ¬Runs.Meets (monitoredStep .i386) (YieldsToFrame .i386) (.start sampleLayout sampleCore)
        unpreparedRun ∧
      (Runs.after (coreStep .arm) sampleCore unpreparedRun).sp = 0x108000 + 36 ∧
      (Runs.after (coreStep .i386) sampleCore unpreparedRun).sp = 0x108000 + 20 ∧
      (Runs.after (coreStep .arm) sampleCore unpreparedRun).pc = 0 := by
  refine ⟨unpreparedRun_confined, unpreparedRun_switches .arm, unpreparedRun_switches .i386,
    ?_, ?_, ?_⟩ <;> decide +kernel

end LughOS.Kernel

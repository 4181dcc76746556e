import LughOS.Auditor.Telemetry
import LughOS.Kernel.Scheduler
import LughOS.Library.Ancestry

/-!
# The lineage in a denial

`lineage_depth_of` follows the parent fields of the task table, and `sibling_count_of` goes through
the table once; both stop at fifteen. In a table that `create_task` built a parent is an earlier
entry, so the walk of the first meets every ancestor once and ends at the root: neither its guard
nor a parent that is missing cuts it short.

The calls here are those that build a table, made by any of its tasks, with the states of tasks
changed at will in between.
-/

namespace LughOS.Kernel

open Auditor Ancestry

/-! ## Depth -/

/-- Parents are unique, and they have smaller identifiers. -/
theorem Lineage.ranked {t : TaskTable} (lineage : Lineage t) :
    Ranked (ParentOf t.tasks) fun task => task.taskId.toNat where
  unique := by
    intro p q task parent other
    exact Option.some.inj (parent.2.symm.trans other.2)
  below := by
    intro p task parent
    obtain ⟨i, j, below, at_i, at_j, -⟩ := lineage.parentOf_earlier parent
    rw [lineage.toNat_id at_i, lineage.toNat_id at_j]
    omega

theorem Lineage.root_ancestors {t : TaskTable} (lineage : Lineage t) {task : Task}
    (root : task.parentTaskId = taskParentNone) : ancestors (ParentOf t.tasks) task = ∅ := by
  refine ancestors_root fun p parent => ?_
  have found := parent.2
  rw [root, lineage.find_none] at found
  cases found

/-- The loop from a task of the table, with rounds left for all it can still count. -/
theorem Lineage.depthLoop {t : TaskTable} (lineage : Lineage t) (guard depth : Nat) {i : Nat}
    {task : Task} (at_i : t.tasks[i]? = some task) (low : depth < lineageNibbleMax)
    (rounds : lineageNibbleMax ≤ guard + depth) :
    lineageDepthLoop t.tasks guard depth task.parentTaskId =
      min lineageNibbleMax (depth + (ancestors (ParentOf t.tasks) task).ncard) := by
  induction guard generalizing depth i task with
  | zero => omega
  | succ guard ih =>
      unfold lineageDepthLoop
      by_cases root : task.parentTaskId = taskParentNone
      · rw [if_pos root, lineage.root_ancestors root, Set.ncard_empty]
        omega
      · rw [if_neg root]
        have nonroot : i ≠ 0 := by
          rintro rfl
          exact root (lineage.root task at_i)
        obtain ⟨j, p, -, at_j, narrows⟩ := lineage.parent i task at_i nonroot
        have found : taskFind t.tasks task.parentTaskId = some p := by
          rw [narrows.parent_id]
          exact lineage.find at_j
        have more := lineage.ranked.ncard_child ⟨List.mem_of_getElem? at_i, found⟩
        split
        · omega
        · rw [found]
          dsimp only
          rw [ih (depth + 1) at_j (by omega) (by omega), more, Nat.add_assoc, Nat.add_comm 1]

theorem Lineage.depth {t : TaskTable} (lineage : Lineage t) {i : Nat} {task : Task}
    (at_i : t.tasks[i]? = some task) :
    (lineageDepthOf t.tasks task).toNat =
      min lineageNibbleMax (ancestors (ParentOf t.tasks) task).ncard := by
  have walk := lineage.depthLoop maxTasks 0 at_i (by decide) (by decide)
  rw [lineageDepthOf, walk, Nat.zero_add, BitVec.toNat_ofNat]
  exact Nat.mod_eq_of_lt (by simp only [lineageNibbleMax]; omega)

/-! ## Siblings -/

/-- The positions other than `i` of tasks with this parent, whatever their states. -/
def otherChildren (tasks : List Task) (i : Nat) (parent : BitVec 32) : Set Nat :=
  {j | j ≠ i ∧ (tasks[j]?).map Task.parentTaskId = some parent}

instance (tasks : List Task) (i : Nat) (parent : BitVec 32) :
    DecidablePred (· ∈ otherChildren tasks i parent) :=
  fun j => inferInstanceAs (Decidable (j ≠ i ∧ (tasks[j]?).map Task.parentTaskId = some parent))

/-- How many of them stand in front of position `n`. -/
def childrenBefore (tasks : List Task) (i : Nat) (parent : BitVec 32) (n : Nat) : Nat :=
  Nat.count (· ∈ otherChildren tasks i parent) n

theorem childrenBefore_succ (front : List Task) (other : Task) (rest : List Task) (i : Nat)
    (parent : BitVec 32) :
    childrenBefore (front ++ other :: rest) i parent (front.length + 1) =
      childrenBefore (front ++ other :: rest) i parent front.length +
        if front.length ≠ i ∧ other.parentTaskId = parent then 1 else 0 := by
  have member : front.length ∈ otherChildren (front ++ other :: rest) i parent ↔
      front.length ≠ i ∧ other.parentTaskId = parent := by
    simp [otherChildren]
  simp only [childrenBefore, Nat.count_succ, member]

theorem childrenBefore_mono (tasks : List Task) (i : Nat) (parent : BitVec 32) {n k : Nat}
    (le : n ≤ k) : childrenBefore tasks i parent n ≤ childrenBefore tasks i parent k :=
  Nat.count_monotone _ le

/-- The loop from an entry on, with what is counted in front of it. -/
theorem siblingCountLoop_eq (i : Nat) (parent : BitVec 32) (front rest : List Task)
    (low : childrenBefore (front ++ rest) i parent front.length < lineageNibbleMax) :
    siblingCountLoop i parent rest front.length
        (childrenBefore (front ++ rest) i parent front.length) =
      min lineageNibbleMax (childrenBefore (front ++ rest) i parent (front ++ rest).length) := by
  induction rest generalizing front with
  | nil =>
      simp only [List.append_nil] at low ⊢
      rw [siblingCountLoop]
      omega
  | cons other rest ih =>
      have next := ih (front ++ [other])
      have length : (front ++ [other]).length = front.length + 1 := by simp
      have counted := childrenBefore_succ front other rest i parent
      rw [length, ← List.append_cons, counted] at next
      unfold siblingCountLoop
      by_cases here : front.length = i
      · rw [if_pos here]
        rw [if_neg fun both => both.1 here] at next
        exact next low
      · rw [if_neg here]
        by_cases sibling : other.parentTaskId = parent
        · rw [if_pos sibling]
          rw [if_pos ⟨here, sibling⟩] at next counted
          split
          · -- What is counted later only adds to the fifteen.
            have later := childrenBefore_mono (front ++ other :: rest) i parent
              (show front.length + 1 ≤ (front ++ other :: rest).length by simp)
            omega
          · exact next (by omega)
        · rw [if_neg sibling]
          rw [if_neg fun both => sibling both.2] at next
          exact next low

theorem ncard_otherChildren (tasks : List Task) (i : Nat) (parent : BitVec 32) :
    (otherChildren tasks i parent).ncard = childrenBefore tasks i parent tasks.length := by
  have bounded : otherChildren tasks i parent =
      ((Finset.range tasks.length).filter (· ∈ otherChildren tasks i parent) : Finset Nat) := by
    ext j
    rw [Finset.mem_coe, Finset.mem_filter, Finset.mem_range]
    refine ⟨fun member => ⟨?_, member⟩, fun both => both.2⟩
    obtain ⟨other, at_j, -⟩ := Option.map_eq_some_iff.mp member.2
    exact (List.getElem?_eq_some_iff.mp at_j).1
  rw [childrenBefore, Nat.count_eq_card_filter_range, ← Set.ncard_coe_finset, ← bounded]

theorem siblingCountOf_toNat (tasks : List Task) (i : Nat) (task : Task) :
    (siblingCountOf tasks i task).toNat =
      min lineageNibbleMax (otherChildren tasks i task.parentTaskId).ncard := by
  have loop := siblingCountLoop_eq i task.parentTaskId [] tasks
    (by simp [childrenBefore, lineageNibbleMax])
  simp only [List.length_nil, childrenBefore, Nat.count_zero, List.nil_append] at loop
  rw [siblingCountOf, loop, ncard_otherChildren, BitVec.toNat_ofNat]
  exact Nat.mod_eq_of_lt (by simp only [lineageNibbleMax]; omega)

/-! ## The record -/

/-- The lineage of a denial is read back whatever else it reports. -/
theorem denyLineage_roundTrips (jiffies : BitVec 64) (info : DenyInfo)
    (depth : info.lineageDepth.toNat ≤ 15) (siblings : info.siblingCount.toNat ≤ 15) :
    ∃ d, (parseRecord (emitDenyRecord jiffies info).toBytes).bind readDeny = some d ∧
      d.lineageDepth = info.lineageDepth.toNat ∧ d.siblingCount = info.siblingCount.toNat := by
  obtain ⟨-, -, -, last⟩ := getD_denyPayload info
  obtain ⟨depth_eq, siblings_eq⟩ := lineage_roundTrips depth siblings
  rw [parseRecord_toBytes, Option.bind_some, readDeny, if_pos (by rfl)]
  refine ⟨_, rfl, ?_, ?_⟩
  · simp only [payloadByte_emitDeny, last]
    exact depth_eq
  · simp only [payloadByte_emitDeny, last]
    exact siblings_eq

/-- The second system has one more record, in which the reader finds this lineage. -/
def Reports (s s' : System) (depth siblings : Nat) : Prop :=
  ∃ record d, s'.auditor.stream = s.auditor.stream ++ [record] ∧
    (parseRecord record.toBytes).bind readDeny = some d ∧
    d.lineageDepth = depth ∧ d.siblingCount = siblings

theorem emit_reports {s : System} (enabled : s.auditor.enabled = true) (info : DenyInfo)
    (depth : info.lineageDepth.toNat ≤ 15) (siblings : info.siblingCount.toNat ≤ 15) :
    Reports s (s.emit (emitDenyRecord s.jiffies info)) info.lineageDepth.toNat
      info.siblingCount.toNat := by
  obtain ⟨d, read, depth_eq, siblings_eq⟩ := denyLineage_roundTrips s.jiffies info depth siblings
  refine ⟨emitDenyRecord s.jiffies info, d, ?_, read, depth_eq, siblings_eq⟩
  rw [System.emit, if_pos enabled]

/-! ## Tables -/

/-- A call of `create_task`, and what may happen between two of them. -/
inductive BuildCall where
  | createTask (spec : Option Task)
  | makeCurrent (position : Nat)
  | setState (position : Nat) (state : TaskState)

def buildStep (t : TaskTable) : BuildCall → TaskTable
  | .createTask spec => (createTaskEntry t spec).2.2.2
  | .makeCurrent position =>
      if position < t.tasks.length then { t with current := some position } else t
  | .setState position state => setTaskState t position state

def tableAfter (kernelStacks : BitVec 32) (calls : List BuildCall) : TaskTable :=
  Runs.after buildStep (taskInit ⟨[], none, 1, kernelStacks⟩) calls

theorem Lineage.buildStep {t : TaskTable} (lineage : Lineage t) (call : BuildCall) :
    Lineage (buildStep t call) := by
  cases call with
  | createTask spec => exact lineage.createTaskEntry spec
  | makeCurrent position =>
      unfold Kernel.buildStep
      dsimp only
      split
      · exact lineage.of_kinship rfl rfl
      · exact lineage
  | setState position state =>
      exact lineage.of_stateless (setTaskState_stateless t position state) rfl

theorem tableAfter_lineage (kernelStacks : BitVec 32) (calls : List BuildCall) :
    Lineage (tableAfter kernelStacks calls) :=
  Runs.invariant_after (taskInit_lineage kernelStacks)
    (fun _ call lineage => lineage.buildStep call) calls

/-- In every table that calls build, the depth of a task is the number of its ancestors and its
siblings are the other tasks with its parent, both up to fifteen, and a denial that the task causes
reports these two numbers. -/
theorem lineage_summary_exact (kernelStacks : BitVec 32) (calls : List BuildCall) (i : Nat)
    (task : Task) (at_i : (tableAfter kernelStacks calls).tasks[i]? = some task) :
    let t := tableAfter kernelStacks calls
    let depth := min 15 (ancestors (ParentOf t.tasks) task).ncard
    let siblings := min 15 (otherChildren t.tasks i task.parentTaskId).ncard
    (lineageDepthOf t.tasks task).toNat = depth ∧
      (siblingCountOf t.tasks i task).toNat = siblings ∧
      ∀ s : System, s.table = { t with current := some i } → s.auditor.enabled = true →
        (∀ src dst op reason priority,
          Reports s (s.emitDeny src dst op reason priority) depth siblings) ∧
        ∀ caps domain reason protocol,
          Reports s (s.emitCreateDeny task caps domain reason protocol) depth siblings := by
  intro t depth siblings
  have depth_eq : (lineageDepthOf t.tasks task).toNat = depth :=
    (tableAfter_lineage kernelStacks calls).depth at_i
  have siblings_eq : (siblingCountOf t.tasks i task).toNat = siblings :=
    siblingCountOf_toNat t.tasks i task
  refine ⟨depth_eq, siblings_eq, fun s table enabled => ?_⟩
  have current : s.currentTask = some task := by
    rw [System.currentTask, table]
    exact at_i
  have depth_le : (lineageDepthOf t.tasks task).toNat ≤ 15 := depth_eq.trans_le (min_le_left _ _)
  have siblings_le : (siblingCountOf t.tasks i task).toNat ≤ 15 :=
    siblings_eq.trans_le (min_le_left _ _)
  rw [← depth_eq, ← siblings_eq]
  constructor
  · intro src dst op reason priority
    unfold System.emitDeny
    simp only [current, table, Option.getD_some]
    exact emit_reports enabled _ depth_le siblings_le
  · intro caps domain reason protocol
    unfold System.emitCreateDeny
    simp only [table, Option.getD_some]
    exact emit_reports enabled _ depth_le siblings_le

/-- The entry of a second child of the root. -/
def youngerChild : Task where
  taskId := 3
  priority := 5
  capMask := capIpcSend
  domain := 0
  state := .ready
  deadline := 0
  kernelStackTop := 0xD000
  savedSp := 0xD000
  parentTaskId := 1

/-- Two children of the root, of which the first has ended. -/
def twoChildren : List BuildCall :=
  [.createTask (some youngerChild), .createTask (some youngerChild), .setState 1 .terminated]

theorem lineage_summary_exact_younger :
    let t := tableAfter 0x1000 twoChildren
    min 15 (ancestors (ParentOf t.tasks) youngerChild).ncard = 1 ∧
      min 15 (otherChildren t.tasks 2 youngerChild.parentTaskId).ncard = 1 := by
  have summary := lineage_summary_exact 0x1000 twoChildren 2 youngerChild (by decide)
  exact ⟨summary.1.symm.trans (by decide), summary.2.1.symm.trans (by decide)⟩

end LughOS.Kernel

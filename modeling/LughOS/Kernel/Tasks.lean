import LughOS.Auditor.Record

/-!
# Tasks, capabilities and domains

The task table of `task.c`, the capability words of `capabilities.h` and the domain
transition matrix of `domain_graph.c`. Tasks are appended and never removed, so the
table is the list of its used entries and `current_task` is a position in it.
-/

namespace LughOS.Kernel

open Auditor

/-! ## Capabilities -/

def capIpcSend : BitVec 32 := 1#32
def capIpcRecv : BitVec 32 := 2#32
def capCrossDomain : BitVec 32 := 4#32
def capPrivilegedOp : BitVec 32 := 8#32
def capAll : BitVec 32 := 0x0F#32

/-- The operations `OP_UPDATE`, `OP_WRITE` and `OP_DELETE`. -/
def Privileged (op : BitVec 32) : Prop := op = 0x102#32 ∨ op = 0x200#32 ∨ op = 0x201#32

instance (op : BitVec 32) : Decidable (Privileged op) :=
  inferInstanceAs (Decidable (_ ∨ _))

def requiredCapsForOp (op : BitVec 32) : BitVec 32 :=
  if Privileged op then capIpcSend ||| capPrivilegedOp else capIpcSend

/-- `(granted & required) == required`. -/
def Grants (granted required : BitVec 32) : Prop := granted &&& required = required

instance (granted required : BitVec 32) : Decidable (Grants granted required) :=
  inferInstanceAs (Decidable (_ = _))

theorem Grants.trans {a b c : BitVec 32} (ab : Grants a b) (bc : Grants b c) : Grants a c := by
  unfold Grants at *
  rw [← bc, ← BitVec.and_assoc, ab]

/-- The test `cap_mask & CAP_CROSS_DOMAIN` of the cross-domain checks. -/
def CrossesDomains (capMask : BitVec 32) : Prop := capMask &&& capCrossDomain ≠ 0#32

instance (capMask : BitVec 32) : Decidable (CrossesDomains capMask) :=
  inferInstanceAs (Decidable (_ ≠ _))

theorem CrossesDomains.of_grants {a b : BitVec 32} (sub : Grants a b) (h : CrossesDomains b) :
    CrossesDomains a := by
  intro none
  apply h
  rw [← sub, BitVec.and_comm a b, BitVec.and_assoc, none, BitVec.and_zero]

/-! ## The domain transition matrix -/

def maxDomains : Nat := 8

structure DomainGraph where
  domainEdges : Fin 8 → BitVec 32
  edgesSealed : Bool

/-- `domain_edges_init`: the identity matrix, open for changes. -/
def domainEdgesInit : DomainGraph where
  domainEdges := fun i => 1#32 <<< i.val
  edgesSealed := false

/-- The row of a domain, `none` for a domain out of range. -/
def domainRow? (d : BitVec 32) : Option (Fin 8) :=
  if h : d.toNat < 8 then some ⟨d.toNat, h⟩ else none

def domainEdgeAllowed (g : DomainGraph) (src dst : BitVec 32) : Bool :=
  match domainRow? src, domainRow? dst with
  | some s, some d => decide (g.domainEdges s &&& (1#32 <<< d.val) ≠ 0#32)
  | _, _ => false

/-- `domain_edge_set` without its telemetry. -/
def domainEdgeSet (g : DomainGraph) (src dst : BitVec 32) : Int × DomainGraph :=
  match domainRow? src, domainRow? dst with
  | some s, some d =>
      if g.edgesSealed then (-2, g)
      else
        (0, { g with
              domainEdges := Function.update g.domainEdges s
                (g.domainEdges s ||| (1#32 <<< d.val)) })
  | _, _ => (-1, g)

def domainEdgesSeal (g : DomainGraph) : DomainGraph := { g with edgesSealed := true }

theorem domainRow?_eq_some {d : BitVec 32} {r : Fin 8} :
    domainRow? d = some r ↔ d.toNat = r.val := by
  unfold domainRow?
  split
  · simp [Fin.ext_iff]
  · rename_i out
    have := r.isLt
    simp only [reduceCtorEq, false_iff]
    omega

/-- The test of one bit of a row. -/
theorem and_bit_ne_zero (row : BitVec 32) {k : Nat} (small : k < 32) :
    row &&& (1#32 <<< k) ≠ 0#32 ↔ row.getLsbD k = true := by
  have bit : BitVec.twoPow 32 k ≠ 0#32 := by
    intro zero
    have value := congrArg BitVec.toNat zero
    rw [BitVec.toNat_twoPow_of_lt small] at value
    exact absurd value (Nat.two_pow_pos k).ne'
  rw [show 1#32 <<< k = BitVec.twoPow 32 k from rfl, BitVec.and_twoPow]
  by_cases set : row.getLsbD k = true
  · simp [set, bit]
  · simp [set]

/-- A successful `domain_edge_set` adds its edge and no other. -/
theorem domainEdgeSet_allowed {g g' : DomainGraph} {src dst : BitVec 32}
    (added : domainEdgeSet g src dst = (0, g')) (a b : BitVec 32) :
    domainEdgeAllowed g' a b = true ↔ domainEdgeAllowed g a b = true ∨ a = src ∧ b = dst := by
  unfold domainEdgeSet at added
  split at added
  case h_2 => cases (Prod.mk.inj added).1
  rename_i s d rowSrc rowDst
  split at added
  · cases (Prod.mk.inj added).1
  obtain rfl := (Prod.mk.inj added).2
  rw [domainRow?_eq_some] at rowSrc rowDst
  unfold domainEdgeAllowed
  split
  · rename_i ra rb rowA rowB
    rw [domainRow?_eq_some] at rowA rowB
    have sameA : a = src ↔ ra = s := by
      rw [← BitVec.toNat_inj, rowA, rowSrc, Fin.ext_iff]
    have sameB : b = dst ↔ d.val = rb.val := by
      rw [← BitVec.toNat_inj, rowB, rowDst, eq_comm]
    have smallB : rb.val < 32 := rb.isLt.trans (by decide)
    have smallD : d.val < 32 := d.isLt.trans (by decide)
    simp only [decide_eq_true_eq, and_bit_ne_zero _ smallB, sameA, sameB]
    by_cases row : ra = s
    · subst row
      simp only [Function.update_self, BitVec.getLsbD_or, Bool.or_eq_true, true_and]
      refine or_congr_right ?_
      rw [BitVec.getLsbD_shiftLeft, BitVec.getLsbD_one]
      simp only [Bool.and_eq_true, Bool.not_eq_true', decide_eq_true_eq, decide_eq_false_iff_not]
      omega
    · simp [row]
  · rename_i out
    simp only [Bool.false_eq_true, false_or, false_iff]
    rintro ⟨rfl, rfl⟩
    exact out s d (domainRow?_eq_some.mpr rowSrc) (domainRow?_eq_some.mpr rowDst)

/-- Edges are only ever added. -/
theorem domainEdgeSet_grows (g : DomainGraph) (src dst : BitVec 32) {a b : BitVec 32}
    (allowed : domainEdgeAllowed g a b = true) :
    domainEdgeAllowed (domainEdgeSet g src dst).2 a b = true := by
  by_cases added : (domainEdgeSet g src dst).1 = 0
  · exact (domainEdgeSet_allowed (Prod.ext added rfl) a b).mpr (.inl allowed)
  · unfold domainEdgeSet at added ⊢
    split
    · split
      · exact allowed
      · simp_all
    · exact allowed

/-! ## The task table -/

def maxTasks : Nat := 1024
def maxRunnable : Nat := 8
def kernelStackSize : BitVec 32 := 16384#32

inductive TaskState where
  | ready | running | blocked | terminated
  deriving DecidableEq, Repr

/-- `task_t`; `priority` is the C `int` held in a word. -/
structure Task where
  taskId : BitVec 32
  priority : BitVec 32
  capMask : BitVec 32
  domain : BitVec 32
  state : TaskState
  deadline : BitVec 64
  kernelStackTop : BitVec 32
  savedSp : BitVec 32
  parentTaskId : BitVec 32
  deriving DecidableEq

/-- The statics of `task.c`; `kernelStacks` is the address the linker gives the stacks. -/
structure TaskTable where
  tasks : List Task
  current : Option Nat
  nextTaskId : BitVec 32
  kernelStacks : BitVec 32

def TaskTable.currentTask (t : TaskTable) : Option Task := t.current.bind fun i => t.tasks[i]?

def assignKernelStack (t : TaskTable) (slot : Nat) : BitVec 32 :=
  if maxRunnable ≤ slot then 0#32
  else t.kernelStacks + kernelStackSize * BitVec.ofNat 32 (slot + 1)

/-- The identifier `allocate_task_id` stores for the next call. -/
def followingTaskId (id : BitVec 32) : BitVec 32 :=
  if id = 0xFFFFFFFF#32 then 1#32 else id + 1#32

/-- `task_init`: the root task alone, and running. -/
def taskInit (t : TaskTable) : TaskTable :=
  { t with
    tasks :=
      [{ taskId := t.nextTaskId
         priority := 0
         capMask := capAll
         domain := 0
         state := .running
         deadline := 0
         kernelStackTop := assignKernelStack t 0
         savedSp := 0
         parentTaskId := taskParentNone }]
    current := some 0
    nextTaskId := followingTaskId t.nextTaskId }

/-- The entry `create_task` installs on behalf of `parent`. -/
def childTask (t : TaskTable) (spec parent : Task) : Task :=
  { taskId := t.nextTaskId
    priority := spec.priority
    capMask := spec.capMask &&& parent.capMask
    domain := spec.domain
    state := .ready
    deadline := spec.deadline
    kernelStackTop := assignKernelStack t t.tasks.length
    savedSp := assignKernelStack t t.tasks.length
    parentTaskId := parent.taskId }

/-- The values `create_task` mirrors into its argument. -/
def mirrorSpec (spec child : Task) : Task :=
  { spec with
    taskId := child.taskId
    capMask := child.capMask
    state := child.state
    kernelStackTop := child.kernelStackTop
    parentTaskId := child.parentTaskId }

/-- The record of a successful creation. -/
def taskCreateEvent (child : Task) : TaskCreate where
  taskId := child.taskId
  parentTaskId := child.parentTaskId
  capMask := child.capMask
  domain := child.domain
  priority := child.priority
  kernelStackTop := child.kernelStackTop

/-- `create_task` on the table: the result code, the argument after the call, the entry
that was installed, and the new table. -/
def createTaskEntry (t : TaskTable) (spec : Option Task) :
    Int × Option Task × Option Task × TaskTable :=
  match spec with
  | none => (-1, none, none, t)
  | some spec =>
      match t.currentTask with
      | none => (-2, some spec, none, t)
      | some parent =>
          if maxTasks ≤ t.tasks.length then (-3, some spec, none, t)
          else if spec.domain ≠ parent.domain ∧ ¬CrossesDomains parent.capMask then
            (-4, some spec, none, t)
          else
            let child := childTask t spec parent
            (0, some (mirrorSpec spec child), some child,
              { t with
                tasks := t.tasks ++ [child]
                nextTaskId := followingTaskId t.nextTaskId })

def taskFind (tasks : List Task) (id : BitVec 32) : Option Task :=
  if id = 0 then none else tasks.find? fun t => decide (t.taskId = id)

/-! ## Lineage, as a denial reports it -/

def lineageNibbleMax : Nat := 15

/-- The loop of `lineage_depth_of`, with the remaining rounds of its guard. -/
def lineageDepthLoop (tasks : List Task) : Nat → Nat → BitVec 32 → Nat
  | 0, _, _ => lineageNibbleMax
  | guard + 1, depth, pid =>
      if pid = taskParentNone then depth
      else if lineageNibbleMax ≤ depth + 1 then lineageNibbleMax
      else
        match taskFind tasks pid with
        | none => depth + 1
        | some parent => lineageDepthLoop tasks guard (depth + 1) parent.parentTaskId

def lineageDepthOf (tasks : List Task) (t : Task) : BitVec 8 :=
  BitVec.ofNat 8 (lineageDepthLoop tasks maxTasks 0 t.parentTaskId)

/-- The loop of `sibling_count_of` from entry `i` on, which passes over the entry at `position`. -/
def siblingCountLoop (position : Nat) (targetParent : BitVec 32) : List Task → Nat → Nat → Nat
  | [], _, count => count
  | other :: rest, i, count =>
      if i = position then siblingCountLoop position targetParent rest (i + 1) count
      else if other.parentTaskId = targetParent then
        if lineageNibbleMax ≤ count + 1 then lineageNibbleMax
        else siblingCountLoop position targetParent rest (i + 1) (count + 1)
      else siblingCountLoop position targetParent rest (i + 1) count

/-- `sibling_count_of` for the task `t` at `position` of the table. -/
def siblingCountOf (tasks : List Task) (position : Nat) (t : Task) : BitVec 8 :=
  BitVec.ofNat 8 (siblingCountLoop position t.parentTaskId tasks 0 0)

end LughOS.Kernel

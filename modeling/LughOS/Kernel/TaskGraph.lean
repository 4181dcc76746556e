import LughOS.Kernel.Exporter

/-!
# Replaying tasks, lineage and policy

From boot on, the fold of `reconstruct_graph.py` agrees with the task table and with the
domain matrix. Each task enters the table together with its `TASK_CREATE` record, the root
task through the record that `task_emit_kernel_create_event` writes for it afterwards; a
task ends with its `TASK_EXIT` record and never comes back; and each edge beyond the
identity matrix has a `DOMAIN_EDGE` record. Since tasks are numbered by position, the
rebuilt dictionary at `n` is entry `n - 1` of the table.

The records are also in order: whatever task a record names was introduced before it.
-/

namespace LughOS.Kernel

open Auditor

/-! ## The graph in the kernel -/

/-- A table entry as the graph shows it. -/
def taskNode (t : Task) : GraphTask :=
  ⟨t.taskId.toNat, t.parentTaskId.toNat, t.capMask.toNat, t.domain.toNat,
    decide (t.state ≠ .terminated)⟩

/-- The rebuilt graph has exactly the tasks of the table and the edges of the matrix. -/
structure TaskGraphExact (s : System) (g : GraphState) : Prop where
  tasks : ∀ n node, g.tasks n = some node ↔
    ∃ t ∈ s.table.tasks, t.taskId.toNat = n ∧ node = taskNode t
  edges : ∀ a b, domainEdgeAllowed s.domains a b = true ↔
    (a = b ∧ a.toNat < maxDomains) ∨ (a.toNat, b.toNat) ∈ g.domainEdges

/-- The tasks a record names as a parent, as an owner or as the task that ends. The mark of
a missing parent names no task. -/
def namedTasks (r : Parsed) : List Nat :=
  let parents := (((readTaskCreate r).map TaskCreateFields.parentId).toList ++
    ((readDeny r).map DenyFields.parentId).toList).filter fun n => n ≠ taskParentNone.toNat
  let owners := ((readChanCreate r).map ChanCreateFields.ownerTask).toList ++
    ((readWorkflow r).map WorkflowFields.owner).toList
  parents ++ owners ++ ((readTaskExit r).map TaskExitFields.taskId).toList

/-- The record is the `TASK_CREATE` record of task `n`. -/
def Introduces (r : AuditorRecord) (n : Nat) : Prop := r.Is .taskCreate ∧ r.operation.toNat = n

/-- Every record comes after the `TASK_CREATE` records of the tasks it names. -/
def Announced (stream : List AuditorRecord) : Prop :=
  ∀ before r rest, stream = before ++ r :: rest → ∀ n ∈ namedTasks r.parsed,
    ∃ q ∈ before, Introduces q n

theorem Announced.concat {stream : List AuditorRecord} {r : AuditorRecord}
    (announced : Announced stream)
    (known : ∀ n ∈ namedTasks r.parsed, ∃ q ∈ stream, Introduces q n) :
    Announced (stream ++ [r]) := by
  intro before r' rest split n named
  rcases List.eq_nil_or_concat rest with rfl | ⟨rest, last, rfl⟩
  · obtain ⟨rfl, same⟩ := List.append_inj' split rfl
    cases same
    exact known n named
  · have longer : stream ++ [r] = (before ++ r' :: rest) ++ [last] := by simpa using split
    obtain ⟨rfl, -⟩ := List.append_inj' longer rfl
    exact announced before r' rest rfl n named

/-! ## The tasks that a record names -/

section Named

variable (jiffies : BitVec 64)

/-- A record names something only if its type has a reader. -/
theorem namedTasks_none (r : AuditorRecord) (type : RecordType) (is : r.Is type)
    (silent : type ∉ [RecordType.taskCreate, .deny, .chanCreate, .workflow, .taskExit]) :
    namedTasks r.parsed = [] := by
  simp only [List.mem_cons, List.not_mem_nil, or_false, not_or] at silent
  obtain ⟨create, deny, chan, workflow, exit⟩ := silent
  have types : r.parsed.type ≠ 4 ∧ r.parsed.type ≠ 3 ∧ r.parsed.type ≠ 5 ∧ r.parsed.type ≠ 10 ∧
      r.parsed.type ≠ 7 :=
    ⟨is.type_ne create, is.type_ne deny, is.type_ne chan, is.type_ne workflow, is.type_ne exit⟩
  simp [namedTasks, readTaskCreate, readDeny, readChanCreate, readWorkflow, readTaskExit, types]

theorem namedTasks_taskCreate (a : TaskCreate) :
    namedTasks (emitTaskCreateRecord jiffies a).parsed =
      [a.parentTaskId.toNat].filter fun n => n ≠ taskParentNone.toNat := by
  have type : (emitTaskCreateRecord jiffies a).parsed.type = 4 := rfl
  have parent : (emitTaskCreateRecord jiffies a).parsed.checksum = a.parentTaskId.toNat := rfl
  simp [namedTasks, readTaskCreate, readDeny, readChanCreate, readWorkflow, readTaskExit, type,
    parent]

theorem namedTasks_taskExit (a : TaskExit) :
    namedTasks (emitTaskExitRecord jiffies a).parsed = [a.taskId.toNat] := by
  have type : (emitTaskExitRecord jiffies a).parsed.type = 7 := rfl
  have id : (emitTaskExitRecord jiffies a).parsed.operation = a.taskId.toNat := rfl
  simp [namedTasks, readTaskCreate, readDeny, readChanCreate, readWorkflow, readTaskExit, type, id]

theorem namedTasks_chanCreate (a : ChanCreate) :
    namedTasks (emitChanCreateRecord jiffies a).parsed = [a.ownerTaskId.toNat] := by
  have type : (emitChanCreateRecord jiffies a).parsed.type = 5 := rfl
  have owner : (emitChanCreateRecord jiffies a).parsed.checksum = a.ownerTaskId.toNat := rfl
  simp [namedTasks, readTaskCreate, readDeny, readChanCreate, readWorkflow, readTaskExit, type,
    owner]

theorem namedTasks_workflow (current : Option TaskIdentity) (a : WorkflowStep) :
    namedTasks (emitWorkflowRecord jiffies current a).parsed = [a.ownerTaskId.toNat] := by
  have type : (emitWorkflowRecord jiffies current a).parsed.type = 10 := rfl
  have owner : (emitWorkflowRecord jiffies current a).parsed.word 0 = a.ownerTaskId.toNat := by
    rw [word_parsed]
    exact (unpackLe32_packWords a.ownerTaskId a.status a.doneCount a.stepRv).1
  simp [namedTasks, readTaskCreate, readDeny, readChanCreate, readWorkflow, readTaskExit, type,
    owner]

theorem namedTasks_deny (info : DenyInfo)
    (fits : info.parentTaskId.toNat < 2 ^ 24 - 1 ∨ info.parentTaskId = taskParentNone) :
    namedTasks (emitDenyRecord jiffies info).parsed =
      [info.parentTaskId.toNat].filter fun n => n ≠ taskParentNone.toNat := by
  have type : (emitDenyRecord jiffies info).parsed.type = 3 := rfl
  rw [namedTasks, denyParent_roundTrips jiffies info fits]
  simp [readTaskCreate, readChanCreate, readWorkflow, readTaskExit, type]

end Named

/-! ## The invariant -/

/-- Entry `n - 1` of the table, as the dictionary of the script has it at `n`. -/
def nodeAt (tasks : List Task) (n : Nat) : Option GraphTask :=
  if n = 0 then none else (tasks.map taskNode)[n - 1]?

theorem nodeAt_concat (tasks : List Task) (child : Task) :
    nodeAt (tasks ++ [child]) =
      Function.update (nodeAt tasks) (tasks.length + 1) (some (taskNode child)) := by
  funext n
  unfold nodeAt
  by_cases new : n = tasks.length + 1
  · subst new
    simp
  · rw [Function.update_of_ne new]
    split
    · rfl
    · rename_i nonzero
      rw [List.map_append, List.getElem?_append]
      split
      · rfl
      · rename_i past
        rw [List.length_map] at past
        rw [List.getElem?_eq_none (by simp; omega), List.getElem?_eq_none (by simpa using past)]

/-- The dictionary after a change of one table entry. -/
theorem nodeAt_modify {tasks tasks' : List Task} {i : Nat} {f : GraphTask → GraphTask}
    (changed : tasks'.map taskNode = (tasks.map taskNode).modify i f) :
    nodeAt tasks' = Function.update (nodeAt tasks) (i + 1) ((nodeAt tasks (i + 1)).map f) := by
  funext n
  unfold nodeAt
  rw [changed]
  by_cases here : n = i + 1
  · subst here
    simp
  · rw [Function.update_of_ne here]
    split
    · rfl
    · rw [List.getElem?_modify_ne _ _ (by omega)]

structure Known (m : Machine) : Prop where
  enabled : m.kernel.auditor.enabled = true
  lineage : Lineage m.kernel.table
  tasks : m.graph.tasks = nodeAt m.kernel.table.tasks
  edges : ∀ a b, domainEdgeAllowed m.kernel.domains a b = true ↔
    (a = b ∧ a.toNat < maxDomains) ∨ (a.toNat, b.toNat) ∈ m.graph.domainEdges
  introduced : ∀ t ∈ m.kernel.table.tasks, ∃ q ∈ m.kernel.auditor.stream,
    Introduces q t.taskId.toNat
  announced : Announced m.kernel.auditor.stream

theorem Known.exact {m : Machine} (known : Known m) : TaskGraphExact m.kernel m.graph := by
  refine ⟨fun n node => ?_, known.edges⟩
  rw [known.tasks, nodeAt]
  constructor
  · intro here
    split at here
    · cases here
    · rename_i nonzero
      rw [List.getElem?_map, Option.map_eq_some_iff] at here
      obtain ⟨t, at_n, rfl⟩ := here
      refine ⟨t, List.mem_of_getElem? at_n, ?_, rfl⟩
      rw [known.lineage.toNat_id at_n]
      omega
  · rintro ⟨t, member, rfl, rfl⟩
    obtain ⟨i, at_i⟩ := List.mem_iff_getElem?.mp member
    rw [known.lineage.toNat_id at_i, if_neg (by omega)]
    simp [at_i]

/-- The current task was introduced, and so was its parent. -/
theorem Known.current {m : Machine} (known : Known m) {task : Task}
    (current : m.kernel.currentTask = some task) :
    (∃ q ∈ m.kernel.auditor.stream, Introduces q task.taskId.toNat) ∧
      (task.parentTaskId = taskParentNone ∨ task.parentTaskId.toNat < 2 ^ 24 - 1 ∧
        ∃ q ∈ m.kernel.auditor.stream, Introduces q task.parentTaskId.toNat) := by
  obtain ⟨i, at_i⟩ := TaskTable.currentTask_position current
  refine ⟨known.introduced task (List.mem_of_getElem? at_i), ?_⟩
  by_cases first : i = 0
  · subst first
    exact .inl (known.lineage.root task at_i)
  · obtain ⟨j, p, -, at_j, narrows⟩ := known.lineage.parent i task at_i first
    rw [narrows.parent_id]
    refine .inr ⟨?_, known.introduced p (List.mem_of_getElem? at_j)⟩
    have low := known.lineage.position at_j
    rw [known.lineage.toNat_id at_j]
    omega

theorem domainEdgeAllowed_congr {g g' : DomainGraph} (same : g'.domainEdges = g.domainEdges)
    (a b : BitVec 32) : domainEdgeAllowed g' a b = domainEdgeAllowed g a b := by
  unfold domainEdgeAllowed
  rw [same]

theorem Announced.append {stream records : List AuditorRecord} (announced : Announced stream)
    (known : ∀ r ∈ records, ∀ n ∈ namedTasks r.parsed, ∃ q ∈ stream, Introduces q n) :
    Announced (stream ++ records) := by
  induction records using List.reverseRecOn with
  | nil => rwa [List.append_nil]
  | append_singleton records r ih =>
      rw [← List.append_assoc]
      refine (ih fun r' member => known r' (by simp [member])).concat fun n named => ?_
      obtain ⟨q, member, introduces⟩ := known r (by simp) n named
      exact ⟨q, List.mem_append_left _ member, introduces⟩

/-- Whoever is in a table with the same tasks was introduced. -/
theorem Known.introduced_of_stateless {m : Machine} (known : Known m) {tasks : List Task}
    (states : tasks.map stateless = m.kernel.table.tasks.map stateless) :
    ∀ t ∈ tasks, ∃ q ∈ m.kernel.auditor.stream, Introduces q t.taskId.toNat := by
  intro t member
  have image : stateless t ∈ m.kernel.table.tasks.map stateless := by
    rw [← states]
    exact List.mem_map_of_mem member
  obtain ⟨old, here, same⟩ := List.mem_map.mp image
  have id : old.taskId = t.taskId := (Task.mk.inj same).1
  rw [← id]
  exact known.introduced old here

/-- An event that neither adds nor ends a task, nor adds an edge. -/
theorem Known.extend {m m' : Machine} {records : List AuditorRecord} (known : Known m)
    (enabled : m'.kernel.auditor.enabled = m.kernel.auditor.enabled)
    (stream : m'.kernel.auditor.stream = m.kernel.auditor.stream ++ records)
    (named : ∀ r ∈ records, ∀ n ∈ namedTasks r.parsed,
      ∃ q ∈ m.kernel.auditor.stream, Introduces q n)
    (graph : m'.graph.tasks = m.graph.tasks ∧ m'.graph.domainEdges = m.graph.domainEdges)
    (nodes : m'.kernel.table.tasks.map taskNode = m.kernel.table.tasks.map taskNode)
    (states : m'.kernel.table.tasks.map stateless = m.kernel.table.tasks.map stateless)
    (next : m'.kernel.table.nextTaskId = m.kernel.table.nextTaskId)
    (edges : m'.kernel.domains.domainEdges = m.kernel.domains.domainEdges) : Known m' := by
  have lineage := known.lineage.of_stateless states next
  refine ⟨enabled.trans known.enabled, lineage, ?_, ?_, ?_, ?_⟩
  · rw [graph.1, known.tasks]
    unfold nodeAt
    rw [nodes]
  · intro a b
    rw [graph.2, domainEdgeAllowed_congr edges]
    exact known.edges a b
  · intro t member
    obtain ⟨q, here, introduces⟩ := known.introduced_of_stateless states t member
    exact ⟨q, by rw [stream]; exact List.mem_append_left _ here, introduces⟩
  · rw [stream]
    exact known.announced.append named

/-- A new task gets the next number and is introduced by its own record. -/
theorem Known.taskCreated {m m' : Machine} {child : Task} (known : Known m)
    (auditor : m'.kernel.auditor =
      m.kernel.auditor.emit (emitTaskCreateRecord m.kernel.jiffies (taskCreateEvent child)))
    (lineage : Lineage m'.kernel.table) (ready : child.state = .ready)
    (parent : child.parentTaskId = taskParentNone ∨
      ∃ q ∈ m.kernel.auditor.stream, Introduces q child.parentTaskId.toNat)
    (tasks : m'.kernel.table.tasks = m.kernel.table.tasks ++ [child])
    (domains : m'.kernel.domains = m.kernel.domains) : Known m' := by
  obtain ⟨enabled, stream⟩ := emit_eq_append known.enabled auditor
  have graph : m'.graph = _ := emit_stream known.enabled auditor
  have id_eq : child.taskId.toNat = m.kernel.table.tasks.length + 1 :=
    lineage.toNat_id (by rw [tasks]; simp)
  rw [applyRecord_taskCreate] at graph
  refine ⟨enabled.trans known.enabled, lineage, ?_, ?_, ?_, ?_⟩
  · have node : taskNode child = ⟨child.taskId.toNat, child.parentTaskId.toNat,
        child.capMask.toNat, child.domain.toNat, true⟩ := by simp [taskNode, ready]
    have old : (replay m.kernel.auditor.stream).tasks = nodeAt m.kernel.table.tasks := known.tasks
    rw [graph, tasks, nodeAt_concat, node, ← old, ← id_eq]
    rfl
  · intro a b
    rw [domains, graph]
    exact known.edges a b
  · intro t member
    rw [tasks] at member
    rw [stream]
    rcases List.mem_append.mp member with old | new
    · obtain ⟨q, here, introduces⟩ := known.introduced t old
      exact ⟨q, List.mem_append_left _ here, introduces⟩
    · rw [List.mem_singleton.mp new]
      exact ⟨_, List.mem_append_right _ (List.mem_singleton_self _), rfl, rfl⟩
  · rw [stream]
    refine known.announced.concat fun n named => ?_
    rw [namedTasks_taskCreate] at named
    obtain ⟨member, other⟩ := List.mem_filter.mp named
    obtain rfl := List.mem_singleton.mp member
    refine parent.resolve_left fun none => ?_
    simp [taskCreateEvent, none] at other

theorem Lineage.audited {s s' : System} {op : Op} (lineage : Lineage s.table)
    (audited : Audited s op s') : Lineage s'.table := by
  cases audited with
  | silent _ plain => exact lineage.of_stateless (by rw [plain.tasks]) plain.nextTaskId
  | denied _ _ _ _ plain => exact lineage.of_stateless (by rw [plain.tasks]) plain.nextTaskId
  | channelCreated _ _ _ _ _ _ _ _ _ _ table => rwa [table]
  | connected _ _ _ _ _ rights => rw [rights.table]; exact lineage
  | taskCreated spec _ _ _ _ _ _ _ _ table => rw [table]; exact lineage.createTaskEntry spec
  | edgeAdded _ _ _ _ _ _ table => rwa [table]

/-- A new edge enters the matrix and the rebuilt graph together. -/
theorem Known.edgeAdded {m m' : Machine} {src dst : BitVec 32} (known : Known m)
    (auditor : m'.kernel.auditor =
      m.kernel.auditor.emit (emitDomainEdgeRecord m.kernel.jiffies ⟨src, dst, 1⟩))
    (added : domainEdgeSet m.kernel.domains src dst = (0, m'.kernel.domains))
    (table : m'.kernel.table = m.kernel.table) : Known m' := by
  obtain ⟨enabled, stream⟩ := emit_eq_append known.enabled auditor
  have graph : m'.graph = _ := emit_stream known.enabled auditor
  rw [applyRecord_domainEdge] at graph
  refine ⟨enabled.trans known.enabled, by rw [table]; exact known.lineage, ?_, ?_, ?_, ?_⟩
  · rw [graph, table]
    exact known.tasks
  · intro a b
    have old : domainEdgeAllowed m.kernel.domains a b = true ↔ (a = b ∧ a.toNat < maxDomains) ∨
        (a.toNat, b.toNat) ∈ (replay m.kernel.auditor.stream).domainEdges := known.edges a b
    rw [domainEdgeSet_allowed added, graph, old, Finset.mem_insert, Prod.mk.injEq,
      BitVec.toNat_inj, BitVec.toNat_inj]
    exact or_assoc.trans (or_congr_right or_comm)
  · intro t member
    rw [table] at member
    obtain ⟨q, here, introduces⟩ := known.introduced t member
    exact ⟨q, by rw [stream]; exact List.mem_append_left _ here, introduces⟩
  · rw [stream]
    refine known.announced.concat fun n named => ?_
    rw [namedTasks_none _ .domainEdge (by rfl) (by decide)] at named
    cases named

theorem Known.perform {m : Machine} (known : Known m) (op : Op) : Known (m.perform op) := by
  have audited : Audited m.kernel op (m.perform op).kernel := step_audited m.kernel op
  have lineage := known.lineage.audited audited
  generalize m.perform op = m' at audited lineage
  have single : ∀ {r : AuditorRecord} {P : AuditorRecord → Prop}, P r → ∀ r' ∈ [r], P r' := by
    intro r P holds r' member
    rwa [List.mem_singleton.mp member]
  cases audited with
  | silent auditor plain =>
      obtain ⟨enabled, -⟩ := pushOffered_told m.kernel.auditor (offered m.kernel op)
      have stream : m'.kernel.auditor.stream = m.kernel.auditor.stream := by
        rw [auditor, pushOffered_stream]
      have graph : m'.graph = m.graph := congrArg replay stream
      exact known.extend (by rw [auditor]; exact enabled) (by rw [stream, List.append_nil])
        (fun _ member => by cases member) (by rw [graph]; exact ⟨rfl, rfl⟩) (by rw [plain.tasks])
        (by rw [plain.tasks]) plain.nextTaskId plain.edges
  | denied info _ auditor parent plain =>
      obtain ⟨enabled, stream⟩ := emit_eq_append known.enabled auditor
      have graph : m'.graph = m.graph :=
        (emit_stream known.enabled auditor).trans (applyRecord_inert _ (emitDenyRecord_inert _ _))
      have fits : info.parentTaskId = taskParentNone ∨ info.parentTaskId.toNat < 2 ^ 24 - 1 ∧
          ∃ q ∈ m.kernel.auditor.stream, Introduces q info.parentTaskId.toNat := by
        rcases parent with none | ⟨task, current, eq⟩
        · exact .inl none
        · rw [eq]
          exact (known.current current).2
      refine known.extend enabled stream (single fun n named => ?_)
        (by rw [graph]; exact ⟨rfl, rfl⟩)
        (by rw [plain.tasks]) (by rw [plain.tasks]) plain.nextTaskId plain.edges
      rw [namedTasks_deny _ _ (fits.symm.imp_left And.left)] at named
      obtain ⟨member, other⟩ := List.mem_filter.mp named
      obtain rfl := List.mem_singleton.mp member
      refine (fits.resolve_left fun none => ?_).2
      simp [none] at other
  | channelCreated c ch task _ _ auditor _ current owner _ table domains =>
      obtain ⟨enabled, stream⟩ := emit_eq_append known.enabled auditor
      have graph : m'.graph = _ := emit_stream known.enabled auditor
      rw [applyRecord_channelCreated] at graph
      refine known.extend enabled stream (single fun n named => ?_)
        (by rw [graph]; exact ⟨rfl, rfl⟩)
        (by rw [table]) (by rw [table]) (by rw [table]) (by rw [domains])
      rw [namedTasks_chanCreate] at named
      obtain rfl := List.mem_singleton.mp named
      rw [show (chanCreateEvent c ch).ownerTaskId = task.taskId from owner]
      exact (known.current current).1
  | connected a b _ _ auditor rights =>
      obtain ⟨enabled, stream⟩ := emit_eq_append known.enabled auditor
      have graph : m'.graph = _ := emit_stream known.enabled auditor
      rw [applyRecord_connected] at graph
      refine known.extend enabled stream (single fun n named => ?_)
        (by rw [graph]; exact ⟨rfl, rfl⟩)
        (by rw [rights.table]) (by rw [rights.table]) (by rw [rights.table])
        (by rw [rights.domains])
      rw [namedTasks_none _ .chanConnect (by rfl) (by decide)] at named
      cases named
  | taskCreated spec parent child _ auditor current eq _ ready _ tasks _ domains =>
      refine known.taskCreated auditor lineage ready (.inr ?_) tasks domains
      rw [eq]
      exact (known.current current).1
  | edgeAdded src dst _ auditor added _ table => exact known.edgeAdded auditor added table

/-- The table after `SYS_EXIT`: the caller is terminated, wherever it is looked up. -/
theorem Lineage.removed {t : TaskTable} (lineage : Lineage t) {i : Nat} {caller : Task}
    (at_i : t.tasks[i]? = some caller) (cursor : Int) :
    (rrRemoveTask (setTaskState t i .terminated) cursor caller.taskId).2.1 =
      setTaskState t i .terminated := by
  have ended := lineage.of_stateless (setTaskState_stateless t i .terminated) rfl
  have at_i' : (setTaskState t i .terminated).tasks[i]? =
      some { caller with state := .terminated } := by
    simp [setTaskState, at_i]
  have found := ended.position_of at_i'
  unfold rrRemoveTask
  rw [found]
  simp only [setTaskState, List.modify_modify_eq]
  rfl

theorem setTaskState_nodes (t : TaskTable) (i : Nat) :
    (setTaskState t i .terminated).tasks.map taskNode =
      (t.tasks.map taskNode).modify i fun node => { node with alive := false } := by
  refine List.ext_getElem? fun j => ?_
  simp only [setTaskState, List.getElem?_map, List.getElem?_modify]
  by_cases here : i = j
  · cases t.tasks[j]? <;> simp [here, taskNode]
  · simp [here]

theorem Known.sysExit {m : Machine} (known : Known m) (code : BitVec 32) :
    Known (m.sysExit code) := by
  obtain ⟨-, same⟩ | ⟨caller, current, auditor, table⟩ := m.sysExit_cases code
  · rwa [same]
  obtain ⟨-, -, -, domains, -⟩ := m.sysExit_frame code
  generalize m.sysExit code = m' at auditor table domains
  obtain ⟨i, position, at_i⟩ := Option.bind_eq_some_iff.mp current
  rw [position, Option.getD_some, known.lineage.removed at_i] at table
  obtain ⟨enabled, stream⟩ := emit_eq_append known.enabled auditor
  have graph : m'.graph = _ := emit_stream known.enabled auditor
  rw [applyRecord_taskExit] at graph
  have states : m'.kernel.table.tasks.map stateless = m.kernel.table.tasks.map stateless := by
    rw [table, setTaskState_stateless]
  have lineage := known.lineage.of_stateless states (by rw [table]; rfl)
  refine ⟨enabled.trans known.enabled, lineage, ?_, ?_, ?_, ?_⟩
  · have old : (replay m.kernel.auditor.stream).tasks = nodeAt m.kernel.table.tasks := known.tasks
    have ended : nodeAt m'.kernel.table.tasks = _ :=
      nodeAt_modify (by rw [table]; exact setTaskState_nodes m.kernel.table i)
    rw [graph, ended, ← old, ← known.lineage.toNat_id at_i]
  · intro a b
    rw [graph, domains]
    exact known.edges a b
  · intro t member
    obtain ⟨q, here, introduces⟩ := known.introduced_of_stateless states t member
    exact ⟨q, by rw [stream]; exact List.mem_append_left _ here, introduces⟩
  · rw [stream]
    refine known.announced.concat fun n named => ?_
    rw [namedTasks_taskExit] at named
    obtain rfl := List.mem_singleton.mp named
    exact (known.current current).1

theorem Known.sysYield {m : Machine} (known : Known m) : Known m.sysYield := by
  -- yielding moves tasks between states other than terminated
  have moved : ∀ {β : Type} (f : Task → β),
      (∀ task state, task.state ≠ .terminated → state ≠ TaskState.terminated →
        f { task with state := state } = f task) →
      m.sysYield.kernel.table.tasks.map f = m.kernel.table.tasks.map f := by
    intro β f ignores
    refine (rrSchedule_map ignores _ m.rrCursor).trans ?_
    split
    · rename_i caller current
      split
      · rename_i running
        obtain ⟨i, position, at_i⟩ := Option.bind_eq_some_iff.mp current
        rw [position, Option.getD_some]
        refine modify_map fun task here => ignores task .ready ?_ (by decide)
        rw [at_i] at here
        cases here
        simp [running]
      · rfl
    · rfl
  have stream : m.sysYield.kernel.auditor.stream = m.kernel.auditor.stream ++ [] := by
    simp [m.sysYield_frame.2.2.2.2]
  refine known.extend rfl stream (by simp) ⟨rfl, rfl⟩
    (moved taskNode fun task state live live' => ?_) (moved stateless fun _ _ _ _ => rfl) ?_ rfl
  · simp [taskNode, live, live']
  · refine (rrSchedule_nextTaskId _ m.rrCursor).trans ?_
    split
    · split <;> rfl
    · rfl

/-- A workflow is reported for a task of the table. -/
theorem Known.reported {m m' : Machine} (known : Known m) (reported : m.Reported m') :
    Known m' := by
  obtain ⟨records, stream, reports⟩ := reported.records
  have table := reported.table
  refine known.extend reported.enabled stream (fun r written n named => ?_)
    (by rw [reported.graph]; exact ⟨rfl, rfl⟩) (congrArg (fun t => t.tasks.map taskNode) table)
    (congrArg (fun t => t.tasks.map stateless) table) (congrArg TaskTable.nextTaskId table)
    (congrArg DomainGraph.domainEdges reported.domains)
  cases reports r written with
  | fault current a =>
      rw [namedTasks_none (emitFaultRecord _ current a) .fault rfl (by decide)] at named
      cases named
  | workflow current a member owns =>
      rw [namedTasks_workflow, owns] at named
      obtain rfl := List.mem_singleton.mp named
      exact known.introduced _ member

theorem Known.step {m : Machine} (known : Known m) (e : Event) : Known (eventStep m e) := by
  cases e with
  | call op => exact known.perform op
  | sysExit code => exact known.sysExit code
  | sysYield => exact known.sysYield
  | logTransaction entry =>
      obtain ⟨-, -, -, domains, table, enabled, stream⟩ := m.logTransaction_frame entry
      have graph : (eventStep m (.logTransaction entry)).graph = m.graph := congrArg replay stream
      exact known.extend enabled (stream.trans (List.append_nil _).symm)
        (fun _ member => by cases member) (by rw [graph]; exact ⟨rfl, rfl⟩)
        (congrArg (fun t => t.tasks.map taskNode) table)
        (congrArg (fun t => t.tasks.map stateless) table) (congrArg TaskTable.nextTaskId table)
        (congrArg DomainGraph.domainEdges domains)
  | fault a => exact known.reported (m.auditorFault_reported a)
  | workflow owner a => exact known.reported (m.auditorWorkflow_reported owner a)
  | auditorTick =>
      obtain ⟨-, -, domains, table, enabled⟩ := m.auditorTick_frame
      obtain ⟨-, -, stream⟩ := m.auditorTick_enabled known.enabled
      have graph : (eventStep m .auditorTick).graph = m.graph := auditorTick_graph known.enabled
      refine known.extend enabled stream (fun r member n named => ?_)
        (by rw [graph]; exact ⟨rfl, rfl⟩) (congrArg (fun t => t.tasks.map taskNode) table)
        (congrArg (fun t => t.tasks.map stateless) table) (congrArg TaskTable.nextTaskId table)
        (congrArg DomainGraph.domainEdges domains)
      obtain ⟨type, is, onTick⟩ := tick_types m _ r member
      rw [namedTasks_none r type is (by revert onTick; cases type <;> decide)] at named
      cases named

/-! ## From boot -/

/-- At first only the flows within a domain are allowed. -/
theorem domainEdgesInit_allowed (a b : BitVec 32) :
    domainEdgeAllowed domainEdgesInit a b = true ↔
      (a = b ∧ a.toNat < maxDomains) ∨ (a.toNat, b.toNat) ∈ GraphState.empty.domainEdges := by
  have identity : ∀ r r' : Fin 8,
      decide (domainEdgesInit.domainEdges r &&& (1#32 <<< r'.val) ≠ 0#32) = true ↔ r = r' := by
    decide
  unfold domainEdgeAllowed
  split
  · rename_i ra rb rowA rowB
    rw [domainRow?_eq_some] at rowA rowB
    have bound := ra.isLt
    rw [identity, ← BitVec.toNat_inj, rowA, rowB, Fin.ext_iff]
    simp only [GraphState.empty, Finset.notMem_empty, or_false, maxDomains]
    omega
  · rename_i out
    simp only [Bool.false_eq_true, GraphState.empty, Finset.notMem_empty, or_false, false_iff]
    rintro ⟨rfl, small⟩
    exact out ⟨a.toNat, small⟩ ⟨a.toNat, small⟩ (domainRow?_eq_some.mpr rfl)
      (domainRow?_eq_some.mpr rfl)

theorem boot_known (image : BootImage) (statics : Statics) :
    Known (taskEmitKernelCreateEvent (auditorInit (boot image) statics)) := by
  obtain ⟨root, tasks, id, parent, state⟩ : ∃ root : Task, (boot image).table.tasks = [root] ∧
      root.taskId = 1 ∧ root.parentTaskId = taskParentNone ∧ root.state = .running :=
    ⟨_, rfl, rfl, rfl, rfl⟩
  have current : (boot image).table.currentTask = some root := by
    rw [TaskTable.currentTask, tasks]
    rfl
  have booted : taskEmitKernelCreateEvent (auditorInit (boot image) statics) =
      (auditorInit (boot image) statics).emit
        (emitTaskCreateRecord (boot image).jiffies (taskCreateEvent root)) := by
    simp only [taskEmitKernelCreateEvent, auditorInit, System.currentTask, tasks, current]
  have auditor : (taskEmitKernelCreateEvent (auditorInit (boot image) statics)).kernel.auditor =
      (auditorInit (boot image) statics).kernel.auditor.emit
        (emitTaskCreateRecord (boot image).jiffies (taskCreateEvent root)) := by
    rw [booted]
    exact System.emit_auditor _ _
  have table : (taskEmitKernelCreateEvent (auditorInit (boot image) statics)).kernel.table =
      (boot image).table := by
    rw [booted]
    exact System.emit_table _ _
  have domains : (taskEmitKernelCreateEvent (auditorInit (boot image) statics)).kernel.domains =
      domainEdgesInit := by
    rw [booted]
    exact System.emit_domains _ _
  generalize taskEmitKernelCreateEvent (auditorInit (boot image) statics) = m
    at auditor table domains
  obtain ⟨enabled, stream⟩ := emit_eq_append rfl auditor
  have graph : m.graph = _ := emit_stream rfl auditor
  rw [applyRecord_taskCreate] at graph
  refine ⟨enabled, by rw [table]; exact taskInit_lineage image.kernelStacks, ?_, ?_, ?_, ?_⟩
  · have node : taskNode root = ⟨root.taskId.toNat, root.parentTaskId.toNat, root.capMask.toNat,
        root.domain.toNat, true⟩ := by simp [taskNode, state]
    have first : nodeAt [root] = _ := nodeAt_concat [] root
    have blank : (replay (auditorInit (boot image) statics).kernel.auditor.stream).tasks =
        nodeAt [] := by
      funext n
      simp [replay, auditorInit, GraphState.empty, nodeAt]
    rw [graph, table, tasks, first, node, blank]
    simp only [taskCreateEvent, id]
    rfl
  · intro a b
    rw [domains, graph]
    exact domainEdgesInit_allowed a b
  · intro t member
    rw [table, tasks] at member
    rw [stream, List.mem_singleton.mp member]
    exact ⟨_, List.mem_append_right _ (List.mem_singleton_self _), rfl, rfl⟩
  · rw [stream]
    refine Announced.concat (fun before r rest split => ?_) fun n named => ?_
    · exact absurd split.symm (by simp [auditorInit])
    · rw [namedTasks_taskCreate] at named
      simp [taskCreateEvent, parent] at named

/-- In every run from boot, whoever is current and whatever is created, ended or allowed in
between, folding the records gives the tasks of the table with their lineage, rights and life,
and the edges of the domain matrix; and no record names a task that was not introduced before
it. -/
theorem replay_tasks_exact (image : BootImage) (statics : Statics) (events : List Event) :
    let m := Runs.after eventStep
      (taskEmitKernelCreateEvent (auditorInit (boot image) statics)) events
    TaskGraphExact m.kernel (replay m.kernel.auditor.stream) ∧
      Announced m.kernel.auditor.stream := by
  have known : Known (Runs.after eventStep
      (taskEmitKernelCreateEvent (auditorInit (boot image) statics)) events) :=
    Runs.invariant_after (boot_known image statics) (fun _ e h => h.step e) events
  exact ⟨known.exact, known.announced⟩

end LughOS.Kernel

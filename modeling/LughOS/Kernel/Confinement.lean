import LughOS.Kernel.Ipc
import LughOS.Library.Runs

/-!
# Capability confinement

Capabilities only shrink on the way from the root task to a channel. `Lineage` is the
invariant of the task table: entries are numbered in the order of their creation, and
each entry but the first narrows the capabilities of an earlier one, in its domain
unless that one may cross domains. `Owned` adds that each open channel is within the
rights of its owner. Both survive every call, since the task table only grows, the
domain matrix only gains edges and the rights of an open channel never change.

`capability_confinement` reads off the four consequences for every reachable state.
-/

namespace LughOS.Kernel

open Auditor

/-! ## What the calls leave alone -/

section Frames

variable (s : System) (record : AuditorRecord)

@[simp] theorem System.emit_nng : (s.emit record).nng = s.nng := by
  unfold System.emit; split <;> rfl

@[simp] theorem System.emit_channels : (s.emit record).channels = s.channels := by
  unfold System.emit; split <;> rfl

@[simp] theorem System.emit_table : (s.emit record).table = s.table := by
  unfold System.emit; split <;> rfl

@[simp] theorem System.emit_domains : (s.emit record).domains = s.domains := by
  unfold System.emit; split <;> rfl

@[simp] theorem System.emit_jiffies : (s.emit record).jiffies = s.jiffies := by
  unfold System.emit; split <;> rfl

@[simp] theorem System.emit_ring : (s.emit record).auditor.ring = s.auditor.ring := by
  unfold System.emit; split <;> rfl

end Frames

/-- The tables that decide about rights are the same. -/
structure SameRights (s s' : System) : Prop where
  channels : s'.channels = s.channels
  table : s'.table = s.table
  domains : s'.domains = s.domains

theorem SameRights.refl (s : System) : SameRights s s := ⟨rfl, rfl, rfl⟩

theorem ipcConnect_sameRights (s : System) (src dst : Int) :
    SameRights s (ipcConnect s src dst).2 := by
  unfold ipcConnect
  split
  · split
    · constructor <;> simp [System.emitDeny]
    · split <;> constructor <;> simp
  · exact SameRights.refl s

theorem transmit_sameRights (s : System) (c : ChannelId) (m : Message) :
    SameRights s (transmit s c m).2.2 := by
  unfold transmit auditMessage
  dsimp only
  split
  · exact ⟨rfl, rfl, rfl⟩
  · split <;> dsimp only <;> split <;> exact ⟨rfl, rfl, rfl⟩

theorem ipcSend_sameRights (s : System) (id : Int) (msg : Option Message) :
    SameRights s (ipcSend s id msg).2.2 := by
  unfold ipcSend
  split
  · exact SameRights.refl s
  · split
    · exact SameRights.refl s
    · dsimp only
      split
      · constructor <;> simp [System.emitDeny]
      · exact transmit_sameRights s _ _

theorem ipcRecv_sameRights (s : System) (id : Int) (out : Option Message) (nonblock : Bool) :
    SameRights s (ipcRecv s id out nonblock).2.2 := by
  unfold ipcRecv
  split
  · exact SameRights.refl s
  · split
    · exact SameRights.refl s
    · split
      · constructor <;> simp [System.emitDeny]
      · split
        · exact ⟨rfl, rfl, rfl⟩
        · unfold unpack
          dsimp only
          split
          · split <;> exact ⟨rfl, rfl, rfl⟩
          · exact ⟨rfl, rfl, rfl⟩

/-! ## Lists that grow -/

section Grows

variable {α : Type*} {l : List α} {i : Nat} {a b : α}

theorem getElem?_append_of_some (at_i : l[i]? = some a) (more : List α) :
    (l ++ more)[i]? = some a := by
  rw [List.getElem?_append_left (List.getElem?_eq_some_iff.mp at_i).1, at_i]

/-- An entry of a list with one more entry. -/
theorem getElem?_concat_cases (at_i : (l ++ [b])[i]? = some a) :
    l[i]? = some a ∨ i = l.length ∧ a = b := by
  rw [List.getElem?_append] at at_i
  split at at_i
  · exact .inl at_i
  · obtain ⟨here, rfl⟩ : i - l.length = 0 ∧ b = a := by
      simpa [List.getElem?_singleton] using at_i
    exact .inr ⟨by omega, rfl⟩

end Grows

/-! ## The task table -/

/-- How a table entry relates to the one that created it. -/
structure Narrows (parent child : Task) : Prop where
  parent_id : child.parentTaskId = parent.taskId
  caps : Grants parent.capMask child.capMask
  domain : child.domain = parent.domain ∨ CrossesDomains parent.capMask

/-- Entries are numbered by position, and each one but the first narrows an earlier one. -/
structure Lineage (t : TaskTable) : Prop where
  bounded : t.tasks.length ≤ maxTasks
  next_id : t.nextTaskId = BitVec.ofNat 32 (t.tasks.length + 1)
  id_eq : ∀ i task, t.tasks[i]? = some task → task.taskId = BitVec.ofNat 32 (i + 1)
  root : ∀ task, t.tasks[0]? = some task → task.parentTaskId = taskParentNone
  parent : ∀ i task, t.tasks[i]? = some task → i ≠ 0 →
    ∃ j p, j < i ∧ t.tasks[j]? = some p ∧ Narrows p task

theorem taskInit_lineage (kernelStacks : BitVec 32) :
    Lineage (taskInit ⟨[], none, 1, kernelStacks⟩) where
  bounded := by simp [taskInit, maxTasks]
  next_id := by simp [taskInit, followingTaskId]
  id_eq := by
    intro i task at_i
    obtain ⟨rfl, rfl⟩ : i = 0 ∧ _ = task := by simpa [taskInit, List.getElem?_singleton] using at_i
    rfl
  root := by
    intro task at_0
    obtain rfl : _ = task := by simpa [taskInit] using at_0
    rfl
  parent := by
    intro i task at_i nonroot
    have : i = 0 := by
      have := (List.getElem?_eq_some_iff.mp at_i).1
      simpa [taskInit] using this
    exact absurd this nonroot

theorem Lineage.position {t : TaskTable} (lineage : Lineage t) {i : Nat} {task : Task}
    (at_i : t.tasks[i]? = some task) : i < 1024 := by
  have := (List.getElem?_eq_some_iff.mp at_i).1
  have := lineage.bounded
  simp only [maxTasks] at this
  omega

theorem Lineage.toNat_id {t : TaskTable} (lineage : Lineage t) {i : Nat} {task : Task}
    (at_i : t.tasks[i]? = some task) : task.taskId.toNat = i + 1 := by
  have low := lineage.position at_i
  rw [lineage.id_eq i task at_i, BitVec.toNat_ofNat]
  omega

theorem Lineage.id_ne_zero {t : TaskTable} (lineage : Lineage t) {i : Nat} {task : Task}
    (at_i : t.tasks[i]? = some task) : task.taskId ≠ 0 := by
  intro zero
  have positive := lineage.toNat_id at_i
  rw [zero] at positive
  cases positive

/-- Identifiers are distinct. -/
theorem Lineage.same_position {t : TaskTable} (lineage : Lineage t) {i j : Nat}
    {task other : Task} (at_i : t.tasks[i]? = some task) (at_j : t.tasks[j]? = some other)
    (same : task.taskId = other.taskId) : i = j := by
  have numbers := lineage.toNat_id at_i
  rw [same, lineage.toNat_id at_j] at numbers
  omega

/-- Looking an entry up by its identifier finds that entry. -/
theorem Lineage.find {t : TaskTable} (lineage : Lineage t) {i : Nat} {task : Task}
    (at_i : t.tasks[i]? = some task) : taskFind t.tasks task.taskId = some task := by
  unfold taskFind
  rw [if_neg (lineage.id_ne_zero at_i)]
  cases search : t.tasks.find? fun other => decide (other.taskId = task.taskId) with
  | none =>
      have := List.find?_eq_none.mp search task (List.mem_of_getElem? at_i)
      simp at this
  | some other =>
      have same : other.taskId = task.taskId := by simpa using List.find?_some search
      obtain ⟨j, at_j⟩ := List.mem_iff_getElem?.mp (List.mem_of_find?_eq_some search)
      obtain rfl := lineage.same_position at_j at_i same
      rw [← at_i, at_j]

/-- What `create_task` does to the table: nothing, or one narrower entry at its end. -/
theorem createTaskEntry_cases (t : TaskTable) (spec : Option Task) :
    ((createTaskEntry t spec).1 < 0 ∧ (createTaskEntry t spec).2.2.1 = none ∧
        (createTaskEntry t spec).2.2.2 = t) ∨
      ∃ parent child, t.currentTask = some parent ∧ Narrows parent child ∧
        child.taskId = t.nextTaskId ∧ t.tasks.length < maxTasks ∧
        (createTaskEntry t spec).1 = 0 ∧ (createTaskEntry t spec).2.2.2 =
          { t with tasks := t.tasks ++ [child], nextTaskId := followingTaskId t.nextTaskId } := by
  unfold createTaskEntry
  split
  · exact .inl ⟨by simp, rfl, rfl⟩
  · rename_i spec
    split
    · exact .inl ⟨by simp, rfl, rfl⟩
    · rename_i parent current
      split
      · exact .inl ⟨by simp, rfl, rfl⟩
      · rename_i room
        split
        · exact .inl ⟨by simp, rfl, rfl⟩
        · rename_i home
          refine .inr ⟨parent, childTask t spec parent, current, ⟨rfl, ?_, ?_⟩, rfl, by omega,
            rfl, rfl⟩
          · simp only [childTask, Grants]
            rw [BitVec.and_comm spec.capMask, ← BitVec.and_assoc, BitVec.and_self]
          · simp only [childTask]
            tauto

theorem createTask_table (s : System) (spec : Option Task) :
    (createTask s spec).2.2.table = (createTaskEntry s.table spec).2.2.2 := by
  unfold createTask
  split <;> rename_i h <;> simp [h]

theorem createTask_channels (s : System) (spec : Option Task) :
    (createTask s spec).2.2.channels = s.channels := by
  unfold createTask
  split <;> simp

theorem createTask_result (s : System) (spec : Option Task) :
    (createTask s spec).1 = (createTaskEntry s.table spec).1 := by
  unfold createTask
  split <;> rename_i h <;> simp [h]

theorem TaskTable.currentTask_position {t : TaskTable} {task : Task}
    (current : t.currentTask = some task) : ∃ i : Nat, t.tasks[i]? = some task := by
  obtain ⟨i, -, at_i⟩ := Option.bind_eq_some_iff.mp current
  exact ⟨i, at_i⟩

theorem Lineage.createTaskEntry {t : TaskTable} (lineage : Lineage t) (spec : Option Task) :
    Lineage (createTaskEntry t spec).2.2.2 := by
  obtain ⟨-, -, same⟩ | ⟨parent, child, current, narrows, child_id, room, -, new⟩ :=
    createTaskEntry_cases t spec
  · rwa [same]
  rw [new]
  simp only [maxTasks] at room
  constructor
  · simp only [List.length_append, List.length_singleton, maxTasks]
    omega
  · have small : t.nextTaskId ≠ 0xFFFFFFFF#32 := by
      rw [lineage.next_id]
      intro wrap
      have := congrArg BitVec.toNat wrap
      simp only [BitVec.toNat_ofNat] at this
      omega
    simp only [followingTaskId, if_neg small, List.length_append, List.length_singleton]
    rw [lineage.next_id, ← BitVec.ofNat_add]
  · intro i task at_i
    obtain old | ⟨rfl, rfl⟩ := getElem?_concat_cases at_i
    · exact lineage.id_eq i task old
    · rw [child_id, lineage.next_id]
  · intro task at_0
    obtain old | ⟨empty, -⟩ := getElem?_concat_cases at_0
    · exact lineage.root task old
    · -- the caller is in the table, so the table is not empty
      obtain ⟨j, at_j⟩ := TaskTable.currentTask_position current
      have := (List.getElem?_eq_some_iff.mp at_j).1
      omega
  · intro i task at_i nonroot
    obtain old | ⟨rfl, rfl⟩ := getElem?_concat_cases at_i
    · obtain ⟨j, p, lt, at_j, h⟩ := lineage.parent i task old nonroot
      exact ⟨j, p, lt, getElem?_append_of_some at_j _, h⟩
    · obtain ⟨j, at_j⟩ := TaskTable.currentTask_position current
      have below := (List.getElem?_eq_some_iff.mp at_j).1
      exact ⟨j, parent, below, getElem?_append_of_some at_j _, narrows⟩

/-! ## Channels and their owners -/

/-- An open channel is within the rights of the task that created it. -/
structure WithinRights (s : System) (ch : IpcChannel) (owner : Task) : Prop where
  owner_id : ch.ownerTaskId = owner.taskId
  caps : Grants owner.capMask ch.capMask
  domain : FlowAllowed s.domains owner.capMask owner.domain ch.domain

structure Owned (s : System) : Prop where
  lineage : Lineage s.table
  channels : ∀ c, (s.channels c).inUse = true →
    ∃ (i : Nat) (owner : Task), s.table.tasks[i]? = some owner ∧ WithinRights s (s.channels c) owner

theorem boot_owned (image : BootImage) : Owned (boot image) where
  lineage := taskInit_lineage image.kernelStacks
  channels := fun c used => by simp [boot, initIpc] at used

/-- The owners of the channels are found again in a table with more tasks and a matrix
with more edges. -/
theorem Owned.extend {s s' : System} (owned : Owned s) (lineage : Lineage s'.table)
    (tasks : s.table.tasks <+: s'.table.tasks)
    (edges : ∀ a b, domainEdgeAllowed s.domains a b = true →
      domainEdgeAllowed s'.domains a b = true)
    (channels : ∀ c, (s'.channels c).inUse = true →
      (s.channels c).inUse = true ∧ s'.channels c = s.channels c) : Owned s' where
  lineage := lineage
  channels := by
    intro c used
    obtain ⟨before, same⟩ := channels c used
    obtain ⟨i, owner, at_i, rights⟩ := owned.channels c before
    refine ⟨i, owner, ?_, ?_⟩
    · obtain ⟨more, eq⟩ := tasks
      rw [← eq, getElem?_append_of_some at_i]
    · rw [same]
      exact ⟨rights.owner_id, rights.caps, rights.domain.imp_right (Or.imp_left (edges _ _))⟩

theorem Owned.sameRights {s s' : System} (owned : Owned s) (same : SameRights s s') : Owned s' :=
  owned.extend (by rw [same.table]; exact owned.lineage) (by rw [same.table])
    (fun a b h => by rw [same.domains]; exact h)
    (fun c used => by rw [same.channels] at used ⊢; exact ⟨used, rfl⟩)

/-- What `ipc_create_channel` does to the rights: nothing, or one channel of the current
task behind both gates. -/
theorem ipcCreateChannel_cases (s : System) (level domain caps : BitVec 32) (protocol : Int) :
    ((ipcCreateChannel s level domain caps protocol).1 < 0 ∧
        SameRights s (ipcCreateChannel s level domain caps protocol).2 ∧
        (ipcCreateChannel s level domain caps protocol).2.nng = s.nng) ∨
      ∃ task c sock nng, s.currentTask = some task ∧ Grants task.capMask caps ∧
        FlowAllowed s.domains task.capMask task.domain domain ∧
        (s.channels c).inUse = false ∧ nngSocketCreate s.nng protocol = (.ok sock, nng) ∧
        (ipcCreateChannel s level domain caps protocol).1 = c.val ∧
        (ipcCreateChannel s level domain caps protocol).2.nng = nng ∧
        (ipcCreateChannel s level domain caps protocol).2.channels =
          Function.update s.channels c
            { s.channels c with
              inUse := true
              socket := sock
              securityLevel := level
              domain := domain
              capMask := caps
              ownerTaskId := task.taskId } ∧
        (ipcCreateChannel s level domain caps protocol).2.table = s.table ∧
        (ipcCreateChannel s level domain caps protocol).2.domains = s.domains := by
  unfold ipcCreateChannel
  split
  · exact .inl ⟨by simp, SameRights.refl s, rfl⟩
  · rename_i task current
    split
    · refine .inl ⟨by simp, ?_, by simp [System.emitCreateDeny]⟩
      constructor <;> simp [System.emitCreateDeny]
    · rename_i grants
      split
      · refine .inl ⟨by simp, ?_, by simp [System.emitCreateDeny]⟩
        constructor <;> simp [System.emitCreateDeny]
      · rename_i flow
        unfold openNewChannel
        split
        · exact .inl ⟨by simp, SameRights.refl s, rfl⟩
        · rename_i c free
          split
          · rename_i rv nng failed
            have : nng = s.nng := by
              unfold nngSocketCreate at failed
              split at failed
              · exact (Prod.mk.inj failed).2.symm
              · cases (Prod.mk.inj failed).1
            subst this
            exact .inl ⟨by simp, ⟨rfl, rfl, rfl⟩, rfl⟩
          · rename_i sock nng created
            have unused := Table.first?_holds free
            refine .inr ⟨task, c, sock, nng, current, by simpa using grants, by simpa using flow,
              by simpa using unused, created, ?_⟩
            simp

theorem Owned.ipcCreateChannel {s : System} (owned : Owned s) (level domain caps : BitVec 32)
    (protocol : Int) : Owned (ipcCreateChannel s level domain caps protocol).2 := by
  obtain ⟨-, same, -⟩ | ⟨task, c, sock, nng, current, grants, flow, -, -, -, -, channels, table,
    domains⟩ := ipcCreateChannel_cases s level domain caps protocol
  · exact owned.sameRights same
  refine ⟨by rw [table]; exact owned.lineage, fun c' used => ?_⟩
  rw [table, channels]
  by_cases new : c' = c
  · subst new
    obtain ⟨i, at_i⟩ := TaskTable.currentTask_position current
    refine ⟨i, task, at_i, ?_⟩
    rw [Function.update_self]
    exact ⟨rfl, grants, by rw [domains]; exact flow⟩
  · rw [channels, Function.update_of_ne new] at used
    rw [Function.update_of_ne new]
    obtain ⟨i, owner, at_i, rights⟩ := owned.channels c' used
    exact ⟨i, owner, at_i, rights.owner_id, rights.caps, by rw [domains]; exact rights.domain⟩

/-- What `ipc_close_channel` does: nothing, or it closes an open channel with its socket. -/
theorem ipcCloseChannel_cases (s : System) (id : Int) :
    (ipcCloseChannel s id).2 = s ∨
      ∃ c d, (s.channels c).inUse = true ∧ s.nng.valid? (s.channels c).socket.id = some d ∧
        (ipcCloseChannel s id).2 =
          { s with
            nng := closeSocket s.nng d
            channels := Function.update s.channels c
              { s.channels c with
                socket := { (s.channels c).socket with id := none }
                inUse := false } } := by
  unfold ipcCloseChannel
  split
  · exact .inl rfl
  · rename_i c _
    split
    · exact .inl rfl
    · rename_i used
      unfold nngSocketClose
      cases valid : s.nng.valid? (s.channels c).socket.id with
      | none => exact .inl (by simp)
      | some d => exact .inr ⟨c, d, by simpa using used, valid, rfl⟩

theorem Owned.ipcCloseChannel {s : System} (owned : Owned s) (id : Int) :
    Owned (ipcCloseChannel s id).2 := by
  obtain same | ⟨c, d, -, -, closed⟩ := ipcCloseChannel_cases s id
  · rwa [same]
  rw [closed]
  refine owned.extend owned.lineage (List.prefix_refl _) (fun _ _ h => h) fun c' used => ?_
  by_cases it : c' = c
  · subst it
    simp at used
  · simp only [Function.update_of_ne it] at used ⊢
    exact ⟨used, trivial⟩

theorem setDomainEdge_sameTables (s : System) (src dst : BitVec 32) :
    (setDomainEdge s src dst).2.channels = s.channels ∧
      (setDomainEdge s src dst).2.table = s.table ∧
      (setDomainEdge s src dst).2.nng = s.nng ∧
      (setDomainEdge s src dst).2.domains = (domainEdgeSet s.domains src dst).2 := by
  unfold setDomainEdge
  split <;> rename_i h <;> simp [h]

theorem createTask_domains (s : System) (spec : Option Task) :
    (createTask s spec).2.2.domains = s.domains := by
  unfold createTask
  split <;> simp

theorem createTask_tasks (s : System) (spec : Option Task) :
    s.table.tasks <+: (createTask s spec).2.2.table.tasks := by
  rw [createTask_table]
  obtain ⟨-, -, same⟩ | ⟨_, child, -, -, -, -, -, new⟩ := createTaskEntry_cases s.table spec
  · rw [same]
  · rw [new]
    exact List.prefix_append _ _

theorem Owned.step {s : System} (owned : Owned s) (op : Op) : Owned (step s op) := by
  cases op with
  | switch position =>
      refine owned.extend ?_ ?_ ?_ ?_ <;> simp only [Kernel.step, switchTo] <;> split
      · exact ⟨owned.lineage.bounded, owned.lineage.next_id, owned.lineage.id_eq,
          owned.lineage.root, owned.lineage.parent⟩
      · exact owned.lineage
      all_goals simp
  | tick ticks => exact owned.sameRights ⟨rfl, rfl, rfl⟩
  | createTask spec =>
      refine owned.extend ?_ (createTask_tasks s spec) ?_ ?_
      · rw [show (Kernel.step s (.createTask spec)).table = _ from createTask_table s spec]
        exact owned.lineage.createTaskEntry spec
      · intro a b h
        rwa [show (Kernel.step s (.createTask spec)).domains = _ from createTask_domains s spec]
      · intro c used
        rw [show (Kernel.step s (.createTask spec)).channels = _ from
          createTask_channels s spec] at used ⊢
        exact ⟨used, rfl⟩
  | domainEdgeSet src dst =>
      obtain ⟨channels, table, -, domains⟩ := setDomainEdge_sameTables s src dst
      refine owned.extend ?_ ?_ ?_ ?_ <;> simp only [Kernel.step, channels, table, domains]
      · exact owned.lineage
      · exact List.prefix_refl _
      · exact fun a b h => domainEdgeSet_grows s.domains src dst h
      · exact fun c used => ⟨used, trivial⟩
  | domainEdgesSeal =>
      exact owned.extend owned.lineage (List.prefix_refl _) (fun _ _ h => h)
        (fun c used => ⟨used, rfl⟩)
  | ipcCreateChannel level domain caps protocol =>
      exact owned.ipcCreateChannel level domain caps protocol
  | ipcCloseChannel id => exact owned.ipcCloseChannel id
  | ipcConnect src dst => exact owned.sameRights (ipcConnect_sameRights s src dst)
  | ipcSend id msg => exact owned.sameRights (ipcSend_sameRights s id msg)
  | ipcRecv id out nonblock => exact owned.sameRights (ipcRecv_sameRights s id out nonblock)

theorem reachable_owned (image : BootImage) (ops : List Op) :
    Owned (Runs.after step (boot image) ops) :=
  Runs.invariant_after (boot_owned image) (fun _ op owned => owned.step op) ops

/-! ## Consequences -/

/-- `p` is the entry that the parent field of `t` leads to. -/
def ParentOf (tasks : List Task) (p t : Task) : Prop :=
  t ∈ tasks ∧ taskFind tasks t.parentTaskId = some p

/-- Strict ancestors along the parent fields. -/
abbrev Ancestor (tasks : List Task) : Task → Task → Prop := Relation.TransGen (ParentOf tasks)

/-- No identifier in the table is the mark of the root's missing parent. -/
theorem Lineage.find_none {t : TaskTable} (lineage : Lineage t) :
    taskFind t.tasks taskParentNone = none := by
  unfold taskFind
  rw [if_neg (by decide), List.find?_eq_none]
  intro task member
  obtain ⟨i, at_i⟩ := List.mem_iff_getElem?.mp member
  have low := lineage.position at_i
  intro same
  have number := lineage.toNat_id at_i
  rw [of_decide_eq_true same] at number
  simp only [taskParentNone, BitVec.toNat_ofNat] at number
  omega

/-- A parent is an earlier entry. -/
theorem Lineage.parentOf_earlier {t : TaskTable} (lineage : Lineage t) {p child : Task}
    (rel : ParentOf t.tasks p child) :
    ∃ i j : Nat, j < i ∧ t.tasks[i]? = some child ∧ t.tasks[j]? = some p ∧ Narrows p child := by
  obtain ⟨i, at_i⟩ := List.mem_iff_getElem?.mp rel.1
  have found := rel.2
  by_cases first : i = 0
  · subst first
    rw [lineage.root child at_i, lineage.find_none] at found
    cases found
  · obtain ⟨j, q, below, at_j, narrows⟩ := lineage.parent i child at_i first
    rw [narrows.parent_id, lineage.find at_j] at found
    cases found
    exact ⟨i, j, below, at_i, at_j, narrows⟩

theorem Lineage.parentOf_narrows {t : TaskTable} (lineage : Lineage t) {p child : Task}
    (rel : ParentOf t.tasks p child) : Narrows p child := by
  obtain ⟨-, -, -, -, -, narrows⟩ := lineage.parentOf_earlier rel
  exact narrows

theorem Lineage.ancestor_grants {t : TaskTable} (lineage : Lineage t) {a d : Task}
    (rel : Ancestor t.tasks a d) : Grants a.capMask d.capMask := by
  induction rel with
  | single h => exact (lineage.parentOf_narrows h).caps
  | tail _ h ih => exact ih.trans (lineage.parentOf_narrows h).caps

/-- Below a task that may not cross domains nobody leaves its domain. -/
theorem Lineage.ancestor_domain {t : TaskTable} (lineage : Lineage t) {a d : Task}
    (rel : Ancestor t.tasks a d) (home : ¬CrossesDomains a.capMask) : d.domain = a.domain := by
  induction rel with
  | single h => exact (lineage.parentOf_narrows h).domain.resolve_right home
  | tail above h ih =>
      have stays := fun crosses =>
        home (CrossesDomains.of_grants (lineage.ancestor_grants above) crosses)
      exact ((lineage.parentOf_narrows h).domain.resolve_right stays).trans ih

theorem createTask_failed (s : System) (spec : Option Task) (failed : (createTask s spec).1 < 0) :
    (createTask s spec).2.2.table = s.table ∧ (createTask s spec).2.2.channels = s.channels := by
  rw [createTask_result] at failed
  rw [createTask_table, createTask_channels]
  obtain ⟨-, -, same⟩ | ⟨_, _, -, -, -, -, ok, -⟩ := createTaskEntry_cases s.table spec
  · exact ⟨same, rfl⟩
  · omega

theorem ipcCreateChannel_failed (s : System) (level domain caps : BitVec 32) (protocol : Int)
    (failed : (ipcCreateChannel s level domain caps protocol).1 < 0) :
    SameRights s (ipcCreateChannel s level domain caps protocol).2 := by
  obtain ⟨-, same, -⟩ | ⟨_, c, _, _, -, -, -, -, -, ok, -⟩ :=
    ipcCreateChannel_cases s level domain caps protocol
  · exact same
  · omega

/-- Capsicum-style confinement of a system. -/
structure Confinement (s : System) : Prop where
  /-- Every task but the first entry holds a subset of its parent's capabilities. -/
  narrowed : ∀ i t, s.table.tasks[i]? = some t → i ≠ 0 →
    ∃ p, ParentOf s.table.tasks p t ∧ Grants p.capMask t.capMask
  ancestors : ∀ a t, Ancestor s.table.tasks a t → Grants a.capMask t.capMask
  /-- An open channel holds a subset of what the task named by its owner field holds. -/
  channels : ∀ c, (s.channels c).inUse = true →
    ∃ t, taskFind s.table.tasks (s.channels c).ownerTaskId = some t ∧
      Grants t.capMask (s.channels c).capMask
  /-- Below a task without `CAP_CROSS_DOMAIN` all tasks are in its domain. -/
  domains : ∀ a t, Ancestor s.table.tasks a t → ¬CrossesDomains a.capMask → t.domain = a.domain
  /-- Its own channels and those of its descendants are in that domain or one edge away. -/
  reach : ∀ a t, a ∈ s.table.tasks → (t = a ∨ Ancestor s.table.tasks a t) →
    ¬CrossesDomains a.capMask → ∀ c, (s.channels c).inUse = true →
      (s.channels c).ownerTaskId = t.taskId →
      (s.channels c).domain = a.domain ∨
        domainEdgeAllowed s.domains a.domain (s.channels c).domain = true
  /-- A creation that fails changes neither table. -/
  failedTask : ∀ spec, (createTask s spec).1 < 0 →
    (createTask s spec).2.2.table = s.table ∧ (createTask s spec).2.2.channels = s.channels
  failedChannel : ∀ level domain caps protocol,
    (ipcCreateChannel s level domain caps protocol).1 < 0 →
      (ipcCreateChannel s level domain caps protocol).2.table = s.table ∧
        (ipcCreateChannel s level domain caps protocol).2.channels = s.channels

theorem Owned.reach {s : System} (owned : Owned s) {a t : Task}
    (below : t = a ∨ Ancestor s.table.tasks a t) (member : t ∈ s.table.tasks)
    (home : ¬CrossesDomains a.capMask) {c : ChannelId} (used : (s.channels c).inUse = true)
    (owns : (s.channels c).ownerTaskId = t.taskId) :
    (s.channels c).domain = a.domain ∨
      domainEdgeAllowed s.domains a.domain (s.channels c).domain = true := by
  obtain ⟨i, owner, at_i, rights⟩ := owned.channels c used
  obtain ⟨j, at_j⟩ := List.mem_iff_getElem?.mp member
  have same : owner = t := by
    have found := owned.lineage.find at_i
    rw [← rights.owner_id, owns, owned.lineage.find at_j] at found
    cases found
    rfl
  subst same
  obtain ⟨domain, stays⟩ : owner.domain = a.domain ∧ ¬CrossesDomains owner.capMask := by
    rcases below with rfl | below
    · exact ⟨rfl, home⟩
    · exact ⟨owned.lineage.ancestor_domain below home, fun crosses =>
        home (CrossesDomains.of_grants (owned.lineage.ancestor_grants below) crosses)⟩
  rcases rights.domain with equal | edge | crosses
  · exact .inl (by rw [← equal, domain])
  · exact .inr (by rw [← domain]; exact edge)
  · exact absurd crosses stays

theorem Ancestor.mem {tasks : List Task} {a t : Task} (rel : Ancestor tasks a t) : t ∈ tasks := by
  cases rel with
  | single h => exact h.1
  | tail _ h => exact h.1

/-- In every state that calls lead to from boot, whoever is made current in between, rights
only shrink down the lineage and a failed creation leaves no trace. -/
theorem capability_confinement (image : BootImage) (ops : List Op) :
    Confinement (Runs.after step (boot image) ops) := by
  have owned := reachable_owned image ops
  generalize Runs.after step (boot image) ops = s at owned
  constructor
  · intro i t at_i nonroot
    obtain ⟨j, p, -, at_j, narrows⟩ := owned.lineage.parent i t at_i nonroot
    refine ⟨p, ⟨List.mem_of_getElem? at_i, ?_⟩, narrows.caps⟩
    rw [narrows.parent_id, owned.lineage.find at_j]
  · exact fun a t rel => owned.lineage.ancestor_grants rel
  · intro c used
    obtain ⟨i, owner, at_i, rights⟩ := owned.channels c used
    exact ⟨owner, by rw [rights.owner_id, owned.lineage.find at_i], rights.caps⟩
  · exact fun a t rel home => owned.lineage.ancestor_domain rel home
  · intro a t member below home c used owns
    refine owned.reach below ?_ home used owns
    rcases below with rfl | below
    · exact member
    · exact below.mem
  · exact createTask_failed s
  · intro level domain caps protocol failed
    have same := ipcCreateChannel_failed s level domain caps protocol failed
    exact ⟨same.table, same.channels⟩

end LughOS.Kernel

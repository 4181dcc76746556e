import LughOS.Auditor.Replay
import LughOS.Kernel.Connections

/-!
# What a call tells the auditor

A call reports to the auditor in two ways. Structural events and denials are written to
the stream at once; a sent message is offered to `ipc_ring` and written later. `Audited`
says once, for every call, which record it writes, what it offers and how the tables that
the records describe change with it.
-/

namespace LughOS.Kernel

open Auditor

def AuditorState.emit (a : AuditorState) (record : AuditorRecord) : AuditorState :=
  if a.enabled then { a with stream := a.stream ++ [record] } else a

theorem System.emit_eq (s : System) (record : AuditorRecord) :
    s.emit record = { s with auditor := s.auditor.emit record } := by
  unfold System.emit AuditorState.emit
  split <;> rfl

@[simp] theorem System.emit_auditor (s : System) (record : AuditorRecord) :
    (s.emit record).auditor = s.auditor.emit record := by
  rw [System.emit_eq]

theorem AuditorState.emit_ring (a : AuditorState) (record : AuditorRecord) :
    (a.emit record).ring = a.ring ∧ (a.emit record).overflow = a.overflow ∧
      (a.emit record).enabled = a.enabled := by
  unfold AuditorState.emit
  split <;> exact ⟨rfl, rfl, rfl⟩

/-- The channel and the message of the `ring_push` a call makes, if it makes one. -/
def offered (s : System) : Op → Option (ChannelId × Message)
  | .ipcSend id (some m) =>
      match openChannel? s id, (lughMessageToNng s.nng.pool (sealMessage m)).1 with
      | some c, .ok _ =>
          if s.auditor.enabled = true ∧
              Grants (s.channels c).capMask (requiredCapsForOp m.operation) then
            some (c, stampMessage c (s.channels c) (sealMessage m))
          else none
      | _, _ => none
  | _ => none

def pushOffered (a : AuditorState) : Option (ChannelId × Message) → AuditorState
  | some (_, m) => ringPush a m
  | none => a

/-- Only an admitted send offers a message, its own with the channel context in it. -/
theorem offered_eq_some {s : System} {op : Op} {c : ChannelId} {msg : Message}
    (offer : offered s op = some (c, msg)) :
    ∃ id m, op = .ipcSend id (some m) ∧ Admitted s id (some m) c m ∧
      msg = stampMessage c (s.channels c) (sealMessage m) := by
  unfold offered at offer
  split at offer
  case h_2 => cases offer
  case h_1 id m =>
    split at offer
    case h_2 => cases offer
    case h_1 c' _ found _ =>
      split at offer
      · rename_i admitted
        cases offer
        exact ⟨id, m, rfl, ⟨rfl, found, admitted.2⟩, rfl⟩
      · cases offer

/-- The call connects channel `a` to channel `b`. -/
def Connects (s : System) (op : Op) (a b : ChannelId) : Prop :=
  op = .ipcConnect a.val b.val ∧ (ipcConnect s a.val b.val).1 = 0

/-- The call changes nothing a record would tell: it may end a channel, but it starts
none and leaves tasks, domain edges and the remaining channels as they are. -/
structure Unstructured (s : System) (op : Op) (s' : System) : Prop where
  tasks : s'.table.tasks = s.table.tasks
  nextTaskId : s'.table.nextTaskId = s.table.nextTaskId
  edges : s'.domains.domainEdges = s.domains.domainEdges
  channels : ∀ c, (s'.channels c).inUse = true → s'.channels c = s.channels c
  creates : ∀ c, ¬Creates s op c
  connects : ∀ a b, ¬Connects s op a b

/-- The report of one call to the auditor, with the change that it reports. -/
inductive Audited (s : System) (op : Op) (s' : System) : Prop where
  | silent (auditor : s'.auditor = pushOffered s.auditor (offered s op))
      (unstructured : Unstructured s op s')
  | denied (info : DenyInfo) (unoffered : offered s op = none)
      (auditor : s'.auditor = s.auditor.emit (emitDenyRecord s.jiffies info))
      (parent : info.parentTaskId = taskParentNone ∨
        ∃ task, s.currentTask = some task ∧ info.parentTaskId = task.parentTaskId)
      (unstructured : Unstructured s op s')
  | channelCreated (c : ChannelId) (ch : IpcChannel) (task : Task) (creates : Creates s op c)
      (unoffered : offered s op = none)
      (auditor : s'.auditor =
        s.auditor.emit (emitChanCreateRecord s.jiffies (chanCreateEvent c ch)))
      (used : ch.inUse = true) (current : s.currentTask = some task)
      (owner : ch.ownerTaskId = task.taskId)
      (channels : s'.channels = Function.update s.channels c ch)
      (table : s'.table = s.table) (domains : s'.domains = s.domains)
  | connected (a b : ChannelId) (connects : Connects s op a b) (unoffered : offered s op = none)
      (auditor : s'.auditor =
        s.auditor.emit (emitChanConnectRecord s.jiffies (chanConnectEvent s a b)))
      (rights : SameRights s s')
  | taskCreated (spec : Option Task) (parent child : Task) (call : op = .createTask spec)
      (auditor : s'.auditor =
        s.auditor.emit (emitTaskCreateRecord s.jiffies (taskCreateEvent child)))
      (current : s.currentTask = some parent) (lineage : child.parentTaskId = parent.taskId)
      (id : child.taskId = s.table.nextTaskId) (ready : child.state = .ready)
      (table : s'.table = (createTaskEntry s.table spec).2.2.2)
      (tasks : s'.table.tasks = s.table.tasks ++ [child])
      (channels : s'.channels = s.channels) (domains : s'.domains = s.domains)
  | edgeAdded (src dst : BitVec 32) (call : op = .domainEdgeSet src dst)
      (auditor : s'.auditor = s.auditor.emit (emitDomainEdgeRecord s.jiffies ⟨src, dst, 1⟩))
      (added : domainEdgeSet s.domains src dst = (0, s'.domains))
      (channels : s'.channels = s.channels) (table : s'.table = s.table)

section Calls

variable {s s' : System} {op : Op}

theorem SameRights.unstructured (rights : SameRights s s') (creates : ∀ c, ¬Creates s op c)
    (connects : ∀ a b, ¬Connects s op a b) : Unstructured s op s' :=
  ⟨by rw [rights.table], by rw [rights.table], by rw [rights.domains],
    fun c _ => by rw [rights.channels], creates, connects⟩

theorem not_creates (other : ∀ level domain caps protocol,
    op ≠ .ipcCreateChannel level domain caps protocol) (c : ChannelId) : ¬Creates s op c := by
  rintro ⟨level, domain, caps, protocol, call, -⟩
  exact other level domain caps protocol call

theorem not_connects (other : ∀ src dst, op ≠ .ipcConnect src dst) (a b : ChannelId) :
    ¬Connects s op a b :=
  fun connects => other _ _ connects.1

/-- A call that neither creates nor connects channels and only denies something. -/
theorem Audited.emitDeny {src : ChannelId} {dst : Option ChannelId} {code : BitVec 32}
    {reason priority : BitVec 8} (unoffered : offered s op = none)
    (creates : ∀ c, ¬Creates s op c) (connects : ∀ a b, ¬Connects s op a b) :
    Audited s op (s.emitDeny src dst code reason priority) := by
  refine .denied _ unoffered (System.emit_auditor s _) ?_
    (SameRights.unstructured ?_ creates connects)
  · dsimp only
    cases s.currentTask with
    | none => exact .inl rfl
    | some task => exact .inr ⟨task, rfl, rfl⟩
  · constructor <;> simp [System.emitDeny]

end Calls

theorem ipcCreateChannel_audited (s : System) (level domain caps : BitVec 32) (protocol : Int) :
    Audited s (.ipcCreateChannel level domain caps protocol)
      (ipcCreateChannel s level domain caps protocol).2 := by
  have connects : ∀ a b, ¬Connects s (.ipcCreateChannel level domain caps protocol) a b :=
    not_connects (by simp)
  -- a refused call returns a negative number, which is no channel
  have refused : (ipcCreateChannel s level domain caps protocol).1 < 0 →
      ∀ c, ¬Creates s (.ipcCreateChannel level domain caps protocol) c := by
    rintro negative c ⟨_, _, _, _, ⟨⟩, result⟩
    omega
  have denied : ∀ task reason, SameRights s (s.emitCreateDeny task caps domain reason protocol) :=
    fun task reason => by constructor <;> simp [System.emitCreateDeny]
  cases current : s.currentTask with
  | none =>
      simp only [ipcCreateChannel, current] at refused ⊢
      exact .silent rfl ((SameRights.refl s).unstructured (refused (by simp)) connects)
  | some task =>
      by_cases granted : Grants task.capMask caps
      · by_cases flow : FlowAllowed s.domains task.capMask task.domain domain
        · have opened : ipcCreateChannel s level domain caps protocol =
              openNewChannel s task level domain caps protocol := by
            simp [ipcCreateChannel, current, granted, flow]
          rw [opened] at refused
          cases free : Table.first? fun c => !(s.channels c).inUse with
          | none =>
              simp only [opened, openNewChannel, free] at refused ⊢
              exact .silent rfl ((SameRights.refl s).unstructured (refused (by simp)) connects)
          | some c =>
              rcases create : nngSocketCreate s.nng protocol with ⟨rv | sock, nng⟩
              · simp only [opened, openNewChannel, free, create] at refused ⊢
                exact .silent rfl
                  (SameRights.unstructured ⟨rfl, rfl, rfl⟩ (refused (by simp)) connects)
              · let ch : IpcChannel :=
                  { s.channels c with
                    inUse := true
                    socket := sock
                    securityLevel := level
                    domain := domain
                    capMask := caps
                    ownerTaskId := task.taskId }
                have outcome : ipcCreateChannel s level domain caps protocol =
                    ((c.val : Int), System.emit
                      { s with nng := nng, channels := Function.update s.channels c ch }
                      (emitChanCreateRecord s.jiffies (chanCreateEvent c ch))) := by
                  simp only [opened, openNewChannel, free, create, ch]
                rw [outcome]
                refine .channelCreated c ch task ⟨level, domain, caps, protocol, rfl, ?_⟩ rfl
                  (System.emit_auditor _ _) rfl current rfl (System.emit_channels _ _)
                  (System.emit_table _ _) (System.emit_domains _ _)
                rw [outcome]
        · simp only [ipcCreateChannel, current, granted, flow, not_true_eq_false, if_false,
            not_false_eq_true, if_true] at refused ⊢
          exact .denied _ rfl (System.emit_auditor s _) (.inr ⟨task, current, rfl⟩)
            ((denied task 6).unstructured (refused (by simp)) connects)
      · simp only [ipcCreateChannel, current, granted, not_false_eq_true, if_true] at refused ⊢
        exact .denied _ rfl (System.emit_auditor s _) (.inr ⟨task, current, rfl⟩)
          ((denied task 5).unstructured (refused (by simp)) connects)

theorem ipcCloseChannel_audited (s : System) (id : Int) :
    Audited s (.ipcCloseChannel id) (ipcCloseChannel s id).2 := by
  have creates : ∀ c, ¬Creates s (.ipcCloseChannel id) c := not_creates (by simp)
  have connects : ∀ a b, ¬Connects s (.ipcCloseChannel id) a b := not_connects (by simp)
  obtain same | ⟨c, d, -, -, closed⟩ := ipcCloseChannel_cases s id
  · rw [same]
    exact .silent rfl ((SameRights.refl s).unstructured creates connects)
  · rw [closed]
    refine .silent rfl ⟨rfl, rfl, rfl, fun c' used => ?_, creates, connects⟩
    by_cases it : c' = c
    · subst it
      simp at used
    · simp only [Function.update_of_ne it]

theorem ipcConnect_audited (s : System) (srcId dstId : Int) :
    Audited s (.ipcConnect srcId dstId) (ipcConnect s srcId dstId).2 := by
  have creates : ∀ c, ¬Creates s (.ipcConnect srcId dstId) c := not_creates (by simp)
  have rights := ipcConnect_sameRights s srcId dstId
  have refused : ∀ {rv s'}, ipcConnect s srcId dstId = (rv, s') → rv ≠ 0 →
      ∀ a b, ¬Connects s (.ipcConnect srcId dstId) a b := by
    rintro rv s' outcome failed a b ⟨⟨⟩, ok⟩
    rw [outcome] at ok
    exact failed ok
  cases openSrc : openChannel? s srcId with
  | none =>
      have outcome : ipcConnect s srcId dstId = (-1, s) := by simp [ipcConnect, openSrc]
      rw [outcome]
      exact .silent rfl ((SameRights.refl s).unstructured creates (refused outcome (by decide)))
  | some src =>
      cases openDst : openChannel? s dstId with
      | none =>
          have outcome : ipcConnect s srcId dstId = (-1, s) := by
            simp [ipcConnect, openSrc, openDst]
          rw [outcome]
          exact .silent rfl ((SameRights.refl s).unstructured creates (refused outcome (by decide)))
      | some dst =>
          by_cases flow : FlowAllowed s.domains (s.channels src).capMask (s.channels src).domain
              (s.channels dst).domain
          · rcases join : nngConnect s.nng (s.channels src).socket (s.channels dst).socket with
              ⟨rv, nng⟩
            by_cases ok : rv = .ok
            · subst ok
              have outcome : ipcConnect s srcId dstId =
                  (0, System.emit { s with nng := nng }
                    (emitChanConnectRecord s.jiffies (chanConnectEvent s src dst))) := by
                simp [ipcConnect, openSrc, openDst, flow, join]
              obtain rfl := channel?_eq_some (openChannel?_eq_some.mp openSrc).1
              obtain rfl := channel?_eq_some (openChannel?_eq_some.mp openDst).1
              rw [outcome] at rights ⊢
              exact .connected src dst ⟨rfl, by rw [outcome]⟩ rfl (System.emit_auditor _ _) rights
            · have outcome : ipcConnect s srcId dstId = (rv.code, { s with nng := nng }) := by
                cases rv <;> first
                  | exact absurd rfl ok
                  | simp [ipcConnect, openSrc, openDst, flow, join]
              rw [outcome] at rights ⊢
              refine .silent rfl (rights.unstructured creates (refused outcome ?_))
              revert ok
              cases rv <;> decide
          · have outcome : ipcConnect s srcId dstId =
                (Rv.eaccess.code, s.emitDeny src (some dst) 0 4 0) := by
              simp [ipcConnect, openSrc, openDst, flow]
            have connects := refused outcome (by decide)
            rw [outcome]
            dsimp only
            exact .emitDeny rfl creates connects

theorem ipcSend_audited (s : System) (id : Int) (msg : Option Message) :
    Audited s (.ipcSend id msg) (ipcSend s id msg).2.2 := by
  have creates : ∀ c, ¬Creates s (.ipcSend id msg) c := not_creates (by simp)
  have connects : ∀ a b, ¬Connects s (.ipcSend id msg) a b := not_connects (by simp)
  have unstructured := (ipcSend_sameRights s id msg).unstructured creates connects
  cases msg with
  | none => exact .silent rfl unstructured
  | some m =>
      cases channel : openChannel? s id with
      | none =>
          refine .silent ?_ unstructured
          simp [ipcSend, channel, offered, pushOffered]
      | some c =>
          by_cases granted : Grants (s.channels c).capMask (requiredCapsForOp m.operation)
          · refine .silent ?_ unstructured
            have sent : ipcSend s id (some m) = transmit s c m := by
              simp [ipcSend, channel, granted]
            rcases converted : lughMessageToNng s.nng.pool (sealMessage m) with ⟨rv | src, p⟩
            · simp [sent, transmit, converted, offered, channel, pushOffered]
            · by_cases enabled : s.auditor.enabled = true
              · simp only [sent, transmit, converted, offered, channel, pushOffered, granted,
                  enabled, and_self, if_true, auditMessage]
                split <;> rfl
              · simp only [sent, transmit, converted, offered, channel, pushOffered, granted,
                  enabled, auditMessage]
                split <;> simp
          · have unoffered : offered s (.ipcSend id (some m)) = none := by
              rcases converted : lughMessageToNng s.nng.pool (sealMessage m) with ⟨rv | src, p⟩ <;>
                simp [offered, channel, granted, converted]
            have denied : (ipcSend s id (some m)).2.2 =
                s.emitDeny c none m.operation
                  (if requiredCapsForOp m.operation &&& capPrivilegedOp ≠ 0#32 then 3 else 1)
                  (m.priority.setWidth 8) := by
              simp only [ipcSend, channel, granted, not_false_eq_true, if_true]
            rw [denied]
            exact .emitDeny unoffered creates connects

theorem ipcRecv_audited (s : System) (id : Int) (out : Option Message) (nonblock : Bool) :
    Audited s (.ipcRecv id out nonblock) (ipcRecv s id out nonblock).2.2 := by
  have creates : ∀ c, ¬Creates s (.ipcRecv id out nonblock) c := not_creates (by simp)
  have connects : ∀ a b, ¬Connects s (.ipcRecv id out nonblock) a b := not_connects (by simp)
  have unstructured := (ipcRecv_sameRights s id out nonblock).unstructured creates connects
  cases out with
  | none => exact .silent rfl unstructured
  | some m =>
      cases channel : openChannel? s id with
      | none =>
          refine .silent ?_ unstructured
          simp [ipcRecv, channel, offered, pushOffered]
      | some c =>
          by_cases powerless : (s.channels c).capMask &&& capIpcRecv = 0#32
          · have denied : (ipcRecv s id (some m) nonblock).2.2 = s.emitDeny c none 0 2 0 := by
              simp [ipcRecv, channel, powerless]
            rw [denied]
            exact .emitDeny rfl creates connects
          · refine .silent ?_ unstructured
            rcases received : nngRecv s.nng s.jiffies (s.channels c).socket with ⟨rv | src, nng⟩
            · simp [ipcRecv, channel, powerless, received, offered, pushOffered]
            · simp only [ipcRecv, channel, powerless, received, offered, pushOffered, unpack,
                if_false]
              split
              · split <;> rfl
              · rfl

theorem createTask_audited (s : System) (spec : Option Task) :
    Audited s (.createTask spec) (createTask s spec).2.2 := by
  have creates : ∀ c, ¬Creates s (.createTask spec) c := not_creates (by simp)
  have connects : ∀ a b, ¬Connects s (.createTask spec) a b := not_connects (by simp)
  have unstructured := (SameRights.refl s).unstructured creates connects
  cases spec with
  | none => exact .silent rfl unstructured
  | some spec =>
      cases current : s.table.currentTask with
      | none =>
          simp only [createTask, createTaskEntry, current]
          exact .silent rfl unstructured
      | some parent =>
          by_cases full : maxTasks ≤ s.table.tasks.length
          · simp only [createTask, createTaskEntry, current, if_pos full]
            exact .silent rfl unstructured
          by_cases crossing : spec.domain ≠ parent.domain ∧ ¬CrossesDomains parent.capMask
          · simp only [createTask, createTaskEntry, current, if_neg full, if_pos crossing]
            exact .silent rfl unstructured
          · have table := createTask_table s (some spec)
            simp only [createTask, createTaskEntry, current, if_neg full, if_neg crossing]
              at table ⊢
            refine .taskCreated _ parent (childTask s.table spec parent) rfl
              (System.emit_auditor _ _) current rfl rfl rfl ?_ ?_ (System.emit_channels _ _)
              (System.emit_domains _ _)
            · rw [table]
              simp only [createTaskEntry, current, if_neg full, if_neg crossing]
            · rw [table]

theorem setDomainEdge_audited (s : System) (src dst : BitVec 32) :
    Audited s (.domainEdgeSet src dst) (setDomainEdge s src dst).2 := by
  have creates : ∀ c, ¬Creates s (.domainEdgeSet src dst) c := not_creates (by simp)
  have connects : ∀ a b, ¬Connects s (.domainEdgeSet src dst) a b := not_connects (by simp)
  unfold setDomainEdge
  split
  · rename_i g added
    refine .edgeAdded src dst rfl (System.emit_auditor _ _) ?_ (System.emit_channels _ _)
      (System.emit_table _ _)
    rw [System.emit_domains, added]
  · rename_i rv g failed outcome
    have same : g = s.domains := by
      unfold domainEdgeSet at outcome
      split at outcome
      · split at outcome
        · exact (Prod.mk.inj outcome).2.symm
        · exact absurd (Prod.mk.inj outcome).1.symm failed
      · exact (Prod.mk.inj outcome).2.symm
    subst same
    exact .silent rfl ((SameRights.refl s).unstructured creates connects)

theorem step_audited (s : System) (op : Op) : Audited s op (step s op) := by
  have silent : ∀ {op s'}, offered s op = none → s'.auditor = s.auditor →
      Unstructured s op s' → Audited s op s' := by
    intro op s' unoffered auditor unstructured
    exact .silent (by rw [unoffered, auditor]; rfl) unstructured
  cases op with
  | switch position =>
      have creates : ∀ c, ¬Creates s (.switch position) c := not_creates (by simp)
      have connects : ∀ a b, ¬Connects s (.switch position) a b := not_connects (by simp)
      refine silent rfl ?_ ⟨?_, ?_, ?_, ?_, creates, connects⟩
      all_goals
        simp only [step, switchTo]
        split <;> simp
  | tick ticks =>
      exact silent rfl rfl
        ⟨rfl, rfl, rfl, fun _ _ => rfl, not_creates (by simp), not_connects (by simp)⟩
  | createTask spec => exact createTask_audited s spec
  | domainEdgeSet src dst => exact setDomainEdge_audited s src dst
  | domainEdgesSeal =>
      exact silent rfl rfl
        ⟨rfl, rfl, rfl, fun _ _ => rfl, not_creates (by simp), not_connects (by simp)⟩
  | ipcCreateChannel level domain caps protocol =>
      exact ipcCreateChannel_audited s level domain caps protocol
  | ipcCloseChannel id => exact ipcCloseChannel_audited s id
  | ipcConnect src dst => exact ipcConnect_audited s src dst
  | ipcSend id msg => exact ipcSend_audited s id msg
  | ipcRecv id out nonblock => exact ipcRecv_audited s id out nonblock

end LughOS.Kernel

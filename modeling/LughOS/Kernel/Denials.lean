import LughOS.Auditor.Replay
import LughOS.Kernel.Exporter

/-!
# Refused calls

Four calls of `ipc.c` check capabilities or domains before they act. A refusal returns a code
that no other outcome of the call has, changes nothing and emits one record that says why.

`Denial` lists the reasons, with the words that the record carries: the capabilities that were
granted, and those that were required. `gated_cases` says that a call is refused for one of
them or emits no denial. The record of a refused `ipc_recv` shows the capabilities of a send,
and the one of a privileged `ipc_send` always blames the privilege; `Misnames` is where this
makes the record wrong.
-/

namespace LughOS.Kernel

open Auditor

/-! ## The gated calls -/

inductive GatedCall where
  | createChannel (securityLevel domain capMask : BitVec 32) (protocol : Int)
  | connect (src dst : Int)
  | send (id : Int) (msg : Option Message)
  | recv (id : Int) (out : Option Message) (nonblock : Bool)

/-- The caller's message, before the call. -/
def GatedCall.message : GatedCall → Option Message
  | .createChannel .. => none
  | .connect .. => none
  | .send _ msg => msg
  | .recv _ out _ => out

/-- The result of a call, the caller's message after it, and the system. -/
def gated (s : System) : GatedCall → Int × Option Message × System
  | .createChannel level domain caps protocol =>
      let (rv, s) := ipcCreateChannel s level domain caps protocol
      (rv, none, s)
  | .connect src dst =>
      let (rv, s) := ipcConnect s src dst
      (rv, none, s)
  | .send id msg => ipcSend s id msg
  | .recv id out nonblock => ipcRecv s id out nonblock

/-- The codes of a policy refusal. -/
def GatedCall.Refusal : GatedCall → Int → Prop
  | .createChannel .., rv => rv = -4 ∨ rv = -5
  | .connect .., rv => rv = Rv.eaccess.code
  | .send .., rv => rv = -7
  | .recv .., rv => rv = -7

/-- The records that a call adds to the stream. -/
def GatedCall.emitted (s : System) (call : GatedCall) : List AuditorRecord :=
  (gated s call).2.2.auditor.stream.drop s.auditor.stream.length

@[simp] def denyCapSend : BitVec 8 := 1
@[simp] def denyCapRecv : BitVec 8 := 2
@[simp] def denyCapPriv : BitVec 8 := 3
@[simp] def denyDomain : BitVec 8 := 4
@[simp] def denyCapEscalation : BitVec 8 := 5
@[simp] def denyDomainCreate : BitVec 8 := 6

/-- What a refusal reports: the reason, and the capabilities granted and required. -/
inductive Denial (s : System) : GatedCall → DenyInfo → Prop where
  | escalation {level domain caps protocol info} (task : Task) (current : s.currentTask = some task)
      (missing : ¬Grants task.capMask caps) (reason : info.reason = denyCapEscalation)
      (granted : info.grantedCaps = task.capMask) (required : info.requiredCaps = caps) :
      Denial s (.createChannel level domain caps protocol) info
  | domainCreate {level domain caps protocol info} (task : Task)
      (current : s.currentTask = some task)
      (crossing : ¬FlowAllowed s.domains task.capMask task.domain domain)
      (reason : info.reason = denyDomainCreate) (granted : info.grantedCaps = task.capMask) :
      Denial s (.createChannel level domain caps protocol) info
  | domain {srcId dstId info} (src dst : ChannelId) (found : openChannel? s srcId = some src)
      (crossing : ¬FlowAllowed s.domains (s.channels src).capMask (s.channels src).domain
        (s.channels dst).domain)
      (reason : info.reason = denyDomain) (granted : info.grantedCaps = (s.channels src).capMask) :
      Denial s (.connect srcId dstId) info
  | send {id info} (msg : Message) (c : ChannelId) (found : openChannel? s id = some c)
      (missing : ¬Grants (s.channels c).capMask (requiredCapsForOp msg.operation))
      (reason : info.reason = if Privileged msg.operation then denyCapPriv else denyCapSend)
      (granted : info.grantedCaps = (s.channels c).capMask)
      (required : info.requiredCaps = requiredCapsForOp msg.operation) :
      Denial s (.send id (some msg)) info
  | recv {id out nonblock info} (c : ChannelId) (found : openChannel? s id = some c)
      (missing : (s.channels c).capMask &&& capIpcRecv = 0#32)
      (reason : info.reason = denyCapRecv) (granted : info.grantedCaps = (s.channels c).capMask)
      (required : info.requiredCaps = capIpcSend) :
      Denial s (.recv id (some out) nonblock) info

/-- The call was refused: one denial is emitted, and nothing else happens. -/
structure RefusedWith (s : System) (call : GatedCall) (info : DenyInfo) : Prop where
  denial : Denial s call info
  code : call.Refusal (gated s call).1
  message : (gated s call).2.1 = call.message
  system : (gated s call).2.2 = s.emit (emitDenyRecord s.jiffies info)

/-- The call was not refused, and emits no denial. -/
structure NotRefused (s : System) (call : GatedCall) : Prop where
  code : ¬call.Refusal (gated s call).1
  stream : ∃ records, (gated s call).2.2.auditor.stream = s.auditor.stream ++ records ∧
    ∀ r ∈ records, ¬r.Is .deny

/-! ## What the calls can do -/

section Cases

variable {s s' : System} {call : GatedCall} {rv : Int} {msg : Option Message} {info : DenyInfo}

theorem RefusedWith.of_outcome
    (outcome : gated s call = (rv, call.message, s.emit (emitDenyRecord s.jiffies info)))
    (denial : Denial s call info) (code : call.Refusal rv) : RefusedWith s call info := by
  constructor
  · exact denial
  all_goals rw [outcome]
  exact code

/-- The outcomes that leave the stream alone. -/
theorem NotRefused.silent (outcome : gated s call = (rv, msg, s')) (code : ¬call.Refusal rv)
    (stream : s'.auditor.stream = s.auditor.stream) : NotRefused s call := by
  constructor
  · rwa [outcome]
  · rw [outcome]
    exact ⟨[], by rw [stream, List.append_nil], by simp⟩

/-- The outcomes that emit a record of another type. -/
theorem NotRefused.emits {record : AuditorRecord} (type : RecordType)
    (outcome : gated s call = (rv, msg, s'.emit record)) (code : ¬call.Refusal rv)
    (same : s'.auditor = s.auditor) (is : record.Is type) (other : type ≠ .deny) :
    NotRefused s call := by
  constructor
  · rwa [outcome]
  rw [outcome]
  unfold System.emit
  split
  · refine ⟨[record], by rw [same], fun r member => ?_⟩
    rw [List.mem_singleton.mp member]
    exact is.not other
  · exact ⟨[], by rw [same, List.append_nil], by simp⟩

end Cases

theorem openNewChannel_cases {s : System} {task : Task} (current : s.currentTask = some task)
    {level domain caps : BitVec 32} {protocol : Int} (rights : Grants task.capMask caps)
    (flow : FlowAllowed s.domains task.capMask task.domain domain) :
    NotRefused s (.createChannel level domain caps protocol) := by
  have outcome : gated s (.createChannel level domain caps protocol) =
      ((openNewChannel s task level domain caps protocol).1, none,
        (openNewChannel s task level domain caps protocol).2) := by
    simp [gated, ipcCreateChannel, current, rights, flow]
  unfold openNewChannel at outcome
  split at outcome
  · exact .silent outcome (by simp [GatedCall.Refusal]) rfl
  · rename_i c _
    split at outcome
    · exact .silent outcome (by simp [GatedCall.Refusal]) rfl
    · refine .emits .chanCreate outcome ?_ rfl rfl (by decide)
      simp only [GatedCall.Refusal]
      omega

theorem createChannel_cases (s : System) (level domain caps : BitVec 32) (protocol : Int) :
    (∃ info, RefusedWith s (.createChannel level domain caps protocol) info) ∨
      NotRefused s (.createChannel level domain caps protocol) := by
  cases current : s.currentTask with
  | none =>
      have outcome : gated s (.createChannel level domain caps protocol) = (-3, none, s) := by
        simp [gated, ipcCreateChannel, current]
      exact .inr (.silent outcome (by simp [GatedCall.Refusal]) rfl)
  | some task =>
      by_cases rights : Grants task.capMask caps
      · by_cases flow : FlowAllowed s.domains task.capMask task.domain domain
        · exact .inr (openNewChannel_cases current rights flow)
        · have outcome : gated s (.createChannel level domain caps protocol) =
              (-5, none, s.emitCreateDeny task caps domain 6 protocol) := by
            simp [gated, ipcCreateChannel, current, rights, flow]
          exact .inl ⟨_, .of_outcome outcome (.domainCreate task current flow rfl rfl) (.inr rfl)⟩
      · have outcome : gated s (.createChannel level domain caps protocol) =
            (-4, none, s.emitCreateDeny task caps domain 5 protocol) := by
          simp [gated, ipcCreateChannel, current, rights]
        exact .inl ⟨_, .of_outcome outcome (.escalation task current rights rfl rfl rfl)
          (.inl rfl)⟩

/-- Connecting sockets fails for want of pipes or of sockets, never for want of access. -/
theorem nngConnect_access (n : Nng) (src dst : NngSocket) :
    (nngConnect n src dst).1 ≠ .eaccess := by
  unfold nngConnect
  split
  · split <;> simp
  · simp

theorem connect_cases (s : System) (srcId dstId : Int) :
    (∃ info, RefusedWith s (.connect srcId dstId) info) ∨ NotRefused s (.connect srcId dstId) := by
  cases foundSrc : openChannel? s srcId with
  | none =>
      have outcome : gated s (.connect srcId dstId) = (-1, none, s) := by
        simp [gated, ipcConnect, foundSrc]
      exact .inr (.silent outcome (by simp [GatedCall.Refusal, Rv.code]) rfl)
  | some src =>
      cases foundDst : openChannel? s dstId with
      | none =>
          have outcome : gated s (.connect srcId dstId) = (-1, none, s) := by
            simp [gated, ipcConnect, foundSrc, foundDst]
          exact .inr (.silent outcome (by simp [GatedCall.Refusal, Rv.code]) rfl)
      | some dst =>
          by_cases flow : FlowAllowed s.domains (s.channels src).capMask (s.channels src).domain
              (s.channels dst).domain
          · have access := nngConnect_access s.nng (s.channels src).socket (s.channels dst).socket
            rcases wired : nngConnect s.nng (s.channels src).socket (s.channels dst).socket
              with ⟨rv, nng⟩
            rw [wired] at access
            by_cases ok : rv = .ok
            · subst ok
              have outcome : gated s (.connect srcId dstId) =
                  (0, none, System.emit { s with nng := nng }
                    (emitChanConnectRecord s.jiffies (chanConnectEvent s src dst))) := by
                simp [gated, ipcConnect, foundSrc, foundDst, flow, wired]
              exact .inr (.emits .chanConnect outcome
                (by simp [GatedCall.Refusal, Rv.code]) rfl rfl (by decide))
            · have outcome : gated s (.connect srcId dstId) =
                  (rv.code, none, { s with nng := nng }) := by
                cases rv <;> simp_all [gated, ipcConnect]
              refine .inr (.silent outcome ?_ rfl)
              cases rv <;> simp_all [GatedCall.Refusal, Rv.code]
          · have outcome : gated s (.connect srcId dstId) =
                (Rv.eaccess.code, none, s.emitDeny src (some dst) 0 4 0) := by
              simp [gated, ipcConnect, foundSrc, foundDst, flow]
            exact .inl ⟨_, .of_outcome outcome (.domain src dst foundSrc flow rfl rfl) rfl⟩

theorem auditMessage_stream (s : System) (c : ChannelId) (m : Message) :
    (auditMessage s c m).2.auditor.stream = s.auditor.stream := by
  unfold auditMessage ringPush
  split
  · dsimp only
    split <;> rfl
  · rfl

theorem transmit_stream (s : System) (c : ChannelId) (m : Message) :
    (transmit s c m).2.2.auditor.stream = s.auditor.stream ∧ (transmit s c m).1 ≠ -7 := by
  unfold transmit
  dsimp only
  split
  · exact ⟨rfl, by simp⟩
  · split
    all_goals exact ⟨auditMessage_stream _ _ _, by simp⟩

theorem requiredCapsForOp_privileged (op : BitVec 32) :
    requiredCapsForOp op &&& capPrivilegedOp ≠ 0#32 ↔ Privileged op := by
  unfold requiredCapsForOp
  split
  · simp_all [capIpcSend, capPrivilegedOp]
  · simp_all [capIpcSend, capPrivilegedOp]

theorem send_cases (s : System) (id : Int) (msg : Option Message) :
    (∃ info, RefusedWith s (.send id msg) info) ∨ NotRefused s (.send id msg) := by
  cases msg with
  | none => exact .inr (.silent rfl (by simp [GatedCall.Refusal]) rfl)
  | some m =>
      cases found : openChannel? s id with
      | none =>
          have outcome : gated s (.send id (some m)) = (-2, some m, s) := by
            simp [gated, ipcSend, found]
          exact .inr (.silent outcome (by simp [GatedCall.Refusal]) rfl)
      | some c =>
          by_cases rights : Grants (s.channels c).capMask (requiredCapsForOp m.operation)
          · obtain ⟨stream, code⟩ := transmit_stream s c m
            have outcome : gated s (.send id (some m)) = transmit s c m := by
              simp [gated, ipcSend, found, rights]
            exact .inr (.silent outcome code stream)
          · have outcome : gated s (.send id (some m)) =
                (-7, some m, s.emitDeny c none m.operation
                  (if Privileged m.operation then denyCapPriv else denyCapSend)
                  (m.priority.setWidth 8)) := by
              simp [gated, ipcSend, found, rights, ← requiredCapsForOp_privileged, denyCapPriv,
                denyCapSend]
            exact .inl ⟨_, .of_outcome outcome (.send m c found rights rfl rfl rfl) rfl⟩

theorem unpack_stream (s : System) (nngMsg : Nat) (out : Message) :
    (unpack s nngMsg out).2.2.auditor.stream = s.auditor.stream ∧ (unpack s nngMsg out).1 ≠ -7 := by
  unfold unpack
  split
  · dsimp only
    split <;> exact ⟨rfl, by simp⟩
  · exact ⟨rfl, by simp⟩

theorem recv_cases (s : System) (id : Int) (out : Option Message) (nonblock : Bool) :
    (∃ info, RefusedWith s (.recv id out nonblock) info) ∨
      NotRefused s (.recv id out nonblock) := by
  cases out with
  | none => exact .inr (.silent rfl (by simp [GatedCall.Refusal]) rfl)
  | some out =>
      cases found : openChannel? s id with
      | none =>
          have outcome : gated s (.recv id (some out) nonblock) = (-2, some out, s) := by
            simp [gated, ipcRecv, found]
          exact .inr (.silent outcome (by simp [GatedCall.Refusal]) rfl)
      | some c =>
          by_cases missing : (s.channels c).capMask &&& capIpcRecv = 0#32
          · have outcome : gated s (.recv id (some out) nonblock) =
                (-7, some out, s.emitDeny c none 0 2 0) := by
              simp [gated, ipcRecv, found, missing]
            exact .inl ⟨_, .of_outcome outcome (.recv c found missing rfl rfl rfl) rfl⟩
          · rcases taken : nngRecv s.nng s.jiffies (s.channels c).socket with ⟨result, nng⟩
            cases result with
            | error rv =>
                have outcome : gated s (.recv id (some out) nonblock) =
                    (if rv = .etimedout ∧ nonblock = true then -3 else -4, some out,
                      { s with nng := nng }) := by
                  simp [gated, ipcRecv, found, missing, taken]
                refine .inr (.silent outcome ?_ rfl)
                simp only [GatedCall.Refusal]
                split <;> simp
            | ok nngMsg =>
                have outcome : gated s (.recv id (some out) nonblock) =
                    unpack { s with nng := nng } nngMsg out := by
                  simp [gated, ipcRecv, found, missing, taken]
                obtain ⟨stream, code⟩ := unpack_stream { s with nng := nng } nngMsg out
                exact .inr (.silent outcome code stream)

theorem gated_cases (s : System) (call : GatedCall) :
    (∃ info, RefusedWith s call info) ∨ NotRefused s call := by
  cases call with
  | createChannel level domain caps protocol =>
      exact createChannel_cases s level domain caps protocol
  | connect src dst => exact connect_cases s src dst
  | send id msg => exact send_cases s id msg
  | recv id out nonblock => exact recv_cases s id out nonblock

/-! ## Refusals have no effect -/

/-- Nothing is different but one more denial in the stream. -/
structure OneDenial (s s' : System) : Prop where
  channels : s'.channels = s.channels
  nng : s'.nng = s.nng
  ring : s'.auditor.ring = s.auditor.ring
  overflow : s'.auditor.overflow = s.auditor.overflow
  stream : ∃ record : AuditorRecord, record.Is .deny ∧
    s'.auditor.stream = s.auditor.stream ++ [record]

theorem OneDenial.emit {s : System} (enabled : s.auditor.enabled = true) (info : DenyInfo) :
    OneDenial s (s.emit (emitDenyRecord s.jiffies info)) := by
  rw [System.emit, if_pos enabled]
  exact ⟨rfl, rfl, rfl, rfl, emitDenyRecord s.jiffies info, rfl, rfl⟩

/-- A call that is refused has no effect but one denial in the stream, and a call that is not
refused puts no denial there. -/
theorem refusals_have_one_trace (s : System) (enabled : s.auditor.enabled = true)
    (call : GatedCall) :
    (call.Refusal (gated s call).1 →
        (gated s call).2.1 = call.message ∧ OneDenial s (gated s call).2.2) ∧
      (¬call.Refusal (gated s call).1 →
        ∃ records, (gated s call).2.2.auditor.stream = s.auditor.stream ++ records ∧
          ∀ r ∈ records, ¬r.Is .deny) := by
  obtain ⟨info, refused⟩ | passed := gated_cases s call
  · refine ⟨fun _ => ⟨refused.message, ?_⟩, fun other => absurd refused.code other⟩
    rw [refused.system]
    exact .emit enabled info
  · exact ⟨fun code => absurd code passed.code, fun _ => passed.stream⟩

/-- The root task does not have the capability `0x10`. -/
def escalation : GatedCall := .createChannel 0 0 0x10#32 (Protocol.pull0.code)

theorem refusals_have_one_trace_escalation :
    escalation.Refusal (gated (boot sampleImage) escalation).1 ∧
      OneDenial (boot sampleImage) (gated (boot sampleImage) escalation).2.2 := by
  have refused : escalation.Refusal (gated (boot sampleImage) escalation).1 := .inl (by decide)
  exact ⟨refused, ((refusals_have_one_trace (boot sampleImage) rfl escalation).1 refused).2⟩

/-! ## What the denials say -/

/-- The granted word does not have the capability. -/
def Lacks (granted : Nat) (cap : BitVec 32) : Prop := granted &&& cap.toNat = 0

instance (granted : Nat) (cap : BitVec 32) : Decidable (Lacks granted cap) :=
  inferInstanceAs (Decidable (_ = _))

/-- What a denial says about the capabilities in it. -/
@[mk_iff]
structure Truthful (d : DenyFields) : Prop where
  send : d.reason = denyCapSend.toNat → Lacks d.granted capIpcSend
  priv : d.reason = denyCapPriv.toNat → Lacks d.granted capPrivilegedOp
  recv : d.reason = denyCapRecv.toNat → Lacks d.granted capIpcRecv
  domain : d.reason = denyDomain.toNat ∨ d.reason = denyDomainCreate.toNat →
    Lacks d.granted capCrossDomain
  required : d.reason = denyCapSend.toNat ∨ d.reason = denyCapRecv.toNat ∨
      d.reason = denyCapPriv.toNat ∨ d.reason = denyCapEscalation.toNat →
    ∃ k, d.required.testBit k = true ∧ d.granted.testBit k = false

/-- The refusals whose record is wrong: a receive on a channel that may send, and a
privileged send on a channel that has the privilege, so that it may not send at all. -/
def Misnames (s : System) : GatedCall → Prop
  | .send id (some msg) => Privileged msg.operation ∧
      ∃ c, openChannel? s id = some c ∧ ¬Lacks (s.channels c).capMask.toNat capPrivilegedOp
  | .recv id _ _ => ∃ c, openChannel? s id = some c ∧ ¬Lacks (s.channels c).capMask.toNat capIpcSend
  | _ => False

/-! ### Missing bits -/

theorem not_grants_iff {granted required : BitVec 32} :
    ¬Grants granted required ↔
      ∃ k, required.toNat.testBit k = true ∧ granted.toNat.testBit k = false := by
  constructor
  · intro missing
    by_contra none
    apply missing
    apply BitVec.eq_of_getLsbD_eq
    intro k _
    have held : required.getLsbD k = true → granted.getLsbD k = true := fun set => by
      by_contra unset
      exact none ⟨k, set, Bool.eq_false_of_not_eq_true unset⟩
    rw [BitVec.getLsbD_and]
    cases set : required.getLsbD k with
    | false => rw [Bool.and_false]
    | true => rw [held set, Bool.and_true]
  · rintro ⟨k, set, unset⟩ grants
    have bits := congrArg (BitVec.getLsbD · k) grants
    rw [BitVec.testBit_toNat] at set unset
    simp [set, unset] at bits

theorem lacks_iff {granted cap : BitVec 32} : Lacks granted.toNat cap ↔ granted &&& cap = 0#32 := by
  rw [Lacks, ← BitVec.toNat_and, ← BitVec.toNat_inj]
  rfl

theorem not_grants_send_iff {granted : BitVec 32} :
    ¬Grants granted capIpcSend ↔ Lacks granted.toNat capIpcSend := by
  have bit : granted &&& capIpcSend = if granted.getLsbD 0 then capIpcSend else 0#32 :=
    BitVec.and_twoPow granted 0
  rw [lacks_iff, Grants, bit]
  split <;> simp [capIpcSend]

theorem not_crosses_lacks {granted : BitVec 32} (none : ¬CrossesDomains granted) :
    Lacks granted.toNat capCrossDomain :=
  lacks_iff.mpr (not_not.mp none)

/-! ### The reasons -/

theorem Denial.truthful_iff {s : System} {call : GatedCall} {info : DenyInfo} {d : DenyFields}
    (denial : Denial s call info) (reason : d.reason = info.reason.toNat)
    (granted : d.granted = info.grantedCaps.toNat)
    (required : d.required = info.requiredCaps.toNat) : Truthful d ↔ ¬Misnames s call := by
  cases denial with
  | escalation task _ missing code caps requested =>
      rw [code] at reason
      rw [caps] at granted
      rw [requested] at required
      simpa [Kernel.truthful_iff, Misnames, reason, granted, required] using
        not_grants_iff.mp missing
  | domainCreate task _ crossing code caps =>
      rw [code] at reason
      rw [caps] at granted
      simpa [Kernel.truthful_iff, Misnames, reason, granted] using
        not_crosses_lacks fun crosses => crossing (.inr (.inr crosses))
  | domain src dst found crossing code caps =>
      rw [code] at reason
      rw [caps] at granted
      simpa [Kernel.truthful_iff, Misnames, reason, granted] using
        not_crosses_lacks fun crosses => crossing (.inr (.inr crosses))
  | send msg c found missing code caps requested =>
      rw [code] at reason
      rw [caps] at granted
      rw [requested] at required
      have bit := not_grants_iff.mp missing
      by_cases privileged : Privileged msg.operation
      · rw [if_pos privileged] at reason
        simp [Kernel.truthful_iff, Misnames, reason, granted, required, found, privileged, bit]
      · rw [if_neg privileged] at reason
        rw [requiredCapsForOp, if_neg privileged] at missing
        simp [Kernel.truthful_iff, Misnames, reason, granted, required, privileged, bit,
          not_grants_send_iff.mp missing]
  | recv c found missing code caps requested =>
      rw [code] at reason
      rw [caps] at granted
      rw [requested] at required
      have bit : Lacks (s.channels c).capMask.toNat capIpcSend ↔ _ :=
        not_grants_send_iff.symm.trans not_grants_iff
      simp [Kernel.truthful_iff, Misnames, reason, granted, required, found, ← bit,
        lacks_iff.mpr missing]

theorem GatedCall.emitted_eq {s : System} {call : GatedCall} {records : List AuditorRecord}
    (stream : (gated s call).2.2.auditor.stream = s.auditor.stream ++ records) :
    call.emitted s = records := by
  rw [GatedCall.emitted, stream, List.drop_left]

theorem RefusedWith.emitted {s : System} {call : GatedCall} {info : DenyInfo}
    (refused : RefusedWith s call info) :
    call.emitted s = if s.auditor.enabled then [emitDenyRecord s.jiffies info] else [] := by
  apply GatedCall.emitted_eq
  rw [refused.system, System.emit]
  split <;> simp

/-- The denials of a call are read back, and they are right unless the call is one of those
that name the wrong capability. -/
theorem denial_truthful_iff (s : System) (call : GatedCall) (record : AuditorRecord)
    (emitted : record ∈ call.emitted s) (deny : record.Is .deny) :
    ∃ d, readDeny record.parsed = some d ∧ (Truthful d ↔ ¬Misnames s call) := by
  obtain ⟨info, refused⟩ | passed := gated_cases s call
  · have only : record = emitDenyRecord s.jiffies info := by
      rw [refused.emitted] at emitted
      split at emitted
      · exact List.mem_singleton.mp emitted
      · cases emitted
    obtain ⟨d, read, reason, granted, required⟩ := denyWords_roundTrip s.jiffies info
    rw [only]
    exact ⟨d, read, refused.denial.truthful_iff reason granted required⟩
  · obtain ⟨records, stream, others⟩ := passed.stream
    rw [GatedCall.emitted_eq stream] at emitted
    exact absurd deny (others record emitted)

/-- The root task opens a channel with the given capabilities. -/
def oneChannel (caps : BitVec 32) : System :=
  Runs.after step (boot sampleImage) [.ipcCreateChannel 0 0 caps Protocol.pull0.code]

def receiveOnIt : GatedCall := .recv 0 (some blankMessage) false

theorem denial_truthful_without_rights :
    ∃ record ∈ receiveOnIt.emitted (oneChannel 0), ∃ d, readDeny record.parsed = some d ∧
      Truthful d := by
  obtain ⟨record, emitted, deny⟩ :
      ∃ record ∈ receiveOnIt.emitted (oneChannel 0), record.Is .deny := by decide +kernel
  obtain ⟨d, read, truthful⟩ := denial_truthful_iff (oneChannel 0) receiveOnIt record emitted deny
  have powerless : ∀ c, Lacks ((oneChannel 0).channels c).capMask.toNat capIpcSend := by
    decide +kernel
  refine ⟨record, emitted, d, read, truthful.mpr ?_⟩
  rintro ⟨c, -, sends⟩
  exact sends (powerless c)

/-- A channel that may send but not receive: the denial of a receive shows the capability to
send as the one that is required. -/
theorem receive_denial_asks_for_send :
    ∃ record ∈ receiveOnIt.emitted (oneChannel capIpcSend), record.Is .deny ∧
      ∃ d, readDeny record.parsed = some d ∧ d.granted = capIpcSend.toNat ∧ ¬Truthful d := by
  obtain ⟨record, emitted, deny, read⟩ : ∃ record ∈ receiveOnIt.emitted (oneChannel capIpcSend),
      record.Is .deny ∧ (readDeny record.parsed).map (fun d => (d.reason, d.granted, d.required)) =
        some (denyCapRecv.toNat, capIpcSend.toNat, capIpcSend.toNat) := by decide +kernel
  obtain ⟨d, read, words⟩ := Option.map_eq_some_iff.mp read
  simp only [Prod.mk.injEq] at words
  obtain ⟨reason, granted, required⟩ := words
  refine ⟨record, emitted, deny, d, read, granted, fun truthful => ?_⟩
  obtain ⟨k, set, unset⟩ := truthful.required (.inr (.inl reason))
  rw [required] at set
  rw [granted, set] at unset
  cases unset

end LughOS.Kernel

import LughOS.Kernel.Connections

/-!
# Domain isolation

`ipc_connect` checks a flow between two domains once, in the direction of the new
pipe. `Policed` records what that check leaves behind: along every pipe in use the
flow is allowed, for as long as the pipe exists, since the domains and capabilities of
open channels do not change and the matrix only gains edges. Forward routing needs no
more than this.

A BUS socket also sends against its pipes, and no check looks at that direction.
`directed_isolation` therefore asks that a connection between two BUS channels would
have passed the check the other way round as well; `bus_sends_against_edge` is a run
where it would not.
-/

namespace LughOS.Kernel

/-- The flow from channel `a` to channel `b` is allowed. -/
def MayFlow (s : System) (a b : ChannelId) : Prop :=
  FlowAllowed s.domains (s.channels a).capMask (s.channels a).domain (s.channels b).domain

instance (s : System) (a b : ChannelId) : Decidable (MayFlow s a b) :=
  inferInstanceAs (Decidable (FlowAllowed _ _ _ _))

def IsBus (s : System) (c : ChannelId) : Prop :=
  (s.channels c).socket.protocol = Protocol.bus0.code

instance (s : System) (c : ChannelId) : Decidable (IsBus s c) :=
  inferInstanceAs (Decidable (_ = _))

/-- Two BUS channels are connected only if the flow is allowed in both directions. -/
def ChecksBothWays (s : System) : Op → Prop
  | .ipcConnect src dst => ∀ a b, openChannel? s src = some a → openChannel? s dst = some b →
      IsBus s a → IsBus s b → MayFlow s b a
  | _ => True

instance (s : System) (op : Op) : Decidable (ChecksBothWays s op) :=
  match op with
  | .ipcConnect _ _ => inferInstanceAs (Decidable (∀ _ _, _ → _ → _ → _ → _))
  | .switch _ | .tick _ | .createTask _ | .domainEdgeSet _ _ | .domainEdgesSeal
  | .ipcCreateChannel _ _ _ _ | .ipcCloseChannel _ | .ipcSend _ _ | .ipcRecv _ _ _ =>
      .isTrue trivial

/-- Along a pipe in use the flow is allowed, and between BUS channels also against it. -/
def Policed (s : System) : Prop :=
  ∀ i, (s.nng.pipes i).inUse = true → ∀ a b, (s.channels a).inUse = true →
    (s.channels b).inUse = true → (s.channels a).socket.id = some (s.nng.pipes i).src →
    (s.channels b).socket.id = some (s.nng.pipes i).dst →
    MayFlow s a b ∧ (IsBus s a → IsBus s b → MayFlow s b a)

theorem step_domains_grow (s : System) (op : Op) {x y : BitVec 32}
    (allowed : domainEdgeAllowed s.domains x y = true) :
    domainEdgeAllowed (step s op).domains x y = true := by
  cases op with
  | switch position => unfold step switchTo; dsimp only; split <;> exact allowed
  | tick ticks => exact allowed
  | createTask spec =>
      rw [show (step s (.createTask spec)).domains = _ from createTask_domains s spec]
      exact allowed
  | domainEdgeSet src dst =>
      rw [show (step s (.domainEdgeSet src dst)).domains = _ from
        (setDomainEdge_sameTables s src dst).2.2.2]
      exact domainEdgeSet_grows s.domains src dst allowed
  | domainEdgesSeal => exact allowed
  | ipcCreateChannel level domain caps protocol =>
      obtain ⟨-, same, -⟩ | ⟨_, _, _, _, -, -, -, -, -, -, -, -, -, domains⟩ :=
        ipcCreateChannel_cases s level domain caps protocol
      · exact same.domains.symm ▸ allowed
      · exact domains.symm ▸ allowed
  | ipcCloseChannel id =>
      obtain same | ⟨c, d, -, -, closed⟩ := ipcCloseChannel_cases s id
      · rw [show step s (.ipcCloseChannel id) = _ from same]
        exact allowed
      · rw [show step s (.ipcCloseChannel id) = _ from closed]
        exact allowed
  | ipcConnect src dst => exact (ipcConnect_sameRights s src dst).domains.symm ▸ allowed
  | ipcSend id msg => exact (ipcSend_sameRights s id msg).domains.symm ▸ allowed
  | ipcRecv id out nonblock =>
      exact (ipcRecv_sameRights s id out nonblock).domains.symm ▸ allowed

theorem MayFlow.step {s : System} {op : Op} {a b : ChannelId}
    (sameA : (step s op).channels a = s.channels a)
    (sameB : (step s op).channels b = s.channels b) (flow : MayFlow s a b) :
    MayFlow (step s op) a b := by
  unfold MayFlow
  rw [sameA, sameB]
  exact flow.imp_right (Or.imp_left (step_domains_grow s op))

theorem policed_step {s : System} {op : Op} (wired : Wired s) (policed : Policed s)
    (checks : ChecksBothWays s op) : Policed (step s op) := by
  intro i usedPipe a b usedA usedB socketA socketB
  obtain ⟨before, samePipe, sameA, sameB⟩ | ⟨rfl, -, wasA, wasB, flow, channels⟩ :=
    pipe_origin wired op usedPipe usedA usedB socketA socketB
  · rw [sameA] at usedA
    rw [sameB] at usedB
    rw [samePipe, sameA] at socketA
    rw [samePipe, sameB] at socketB
    obtain ⟨forward, backward⟩ := policed i before a b usedA usedB socketA socketB
    refine ⟨forward.step sameA sameB, fun busA busB => (backward ?_ ?_).step sameB sameA⟩
    · rwa [IsBus, ← sameA]
    · rwa [IsBus, ← sameB]
  · have same : ∀ c, (step s (.ipcConnect a.val b.val)).channels c = s.channels c := by
      simp [channels]
    refine ⟨MayFlow.step (same a) (same b) flow, fun busA busB => ?_⟩
    refine MayFlow.step (same b) (same a) (checks a b ?_ ?_ ?_ ?_)
    · exact openChannel?_eq_some.mpr ⟨channel?_val a, wasA⟩
    · exact openChannel?_eq_some.mpr ⟨channel?_val b, wasB⟩
    · rwa [IsBus, ← same a]
    · rwa [IsBus, ← same b]

/-- The system after `domain_edges_init` and `init_ipc`. -/
def initIsolation (k : System) : System := initIpc { k with domains := domainEdgesInit }

theorem policed_after (k : System) {ops : List Op}
    (run : Runs.Meets step ChecksBothWays (initIsolation k) ops) :
    Wired (Runs.after step (initIsolation k) ops) ∧
      Policed (Runs.after step (initIsolation k) ops) := by
  refine Runs.run_invariant (I := fun s => Wired s ∧ Policed s) ?_ (fun s op h checks => ?_) run
  · exact ⟨initIpc_wired _, fun i used => by simp [initIsolation, initIpc, nngInit] at used⟩
  · exact ⟨h.1.rewired (step_rewired s op), policed_step h.1 h.2 checks⟩

/-- A send on `a` answers a request or a survey. -/
def IsReply (s : System) (a : ChannelId) : Prop :=
  (s.channels a).socket.protocol = Protocol.rep0.code ∨
    (s.channels a).socket.protocol = Protocol.respondent0.code

instance (s : System) (a : ChannelId) : Decidable (IsReply s a) :=
  inferInstanceAs (Decidable (_ ∨ _))

/-- In a run in which BUS connections would pass the domain check both ways, a send that is
not an answer reaches only channels to which the flow is allowed. -/
theorem directed_isolation (k : System) (ops : List Op)
    (run : Runs.Meets step ChecksBothWays (initIsolation k) ops) (a b : ChannelId)
    (msg : Option Message) (d : SocketId)
    (notReply : ¬IsReply (Runs.after step (initIsolation k) ops) a)
    (used : ((Runs.after step (initIsolation k) ops).channels b).inUse = true)
    (socket : ((Runs.after step (initIsolation k) ops).channels b).socket.id = some d)
    (enqueues : Enqueues (Runs.after step (initIsolation k) ops) (.ipcSend a.val msg) d) :
    MayFlow (Runs.after step (initIsolation k) ops) a b := by
  obtain ⟨wired, policed⟩ := policed_after k run
  generalize Runs.after step (initIsolation k) ops = s at *
  obtain ⟨a', e, number, usedA, socketA, -, target⟩ := enqueues.target
  obtain rfl : a = a' := Fin.ext (by omega)
  obtain ⟨e', socketA', -, protocolA⟩ := wired.socket a usedA
  obtain rfl : e = e' := by simpa [socketA] using socketA'
  obtain ⟨d', socketB', -, protocolB⟩ := wired.socket b used
  obtain rfl : d = d' := by simpa [socket] using socketB'
  cases target with
  | pipe i usedPipe src dst speaks =>
      exact (policed i usedPipe a b usedA used (by rw [src]; exact socketA)
        (by rw [dst]; exact socket)).1
  | bus i usedPipe src dst mine theirs =>
      exact (policed i usedPipe b a used usedA (by rw [src]; exact socket)
        (by rw [dst]; exact socketA)).2 (protocolB.symm.trans theirs) (protocolA.symm.trans mine)
  | reply mine address valid => exact absurd (.inl (protocolA.symm.trans mine)) notReply
  | answer mine address valid => exact absurd (.inr (protocolA.symm.trans mine)) notReply

/-- The root task allows flows from domain 1 to domain 0 and connects a channel of the one
to a channel of the other. -/
def crossDomain (protocol peer : Protocol) : List Op :=
  [.domainEdgeSet 1 0, .domainEdgesSeal,
    .ipcCreateChannel 0 1 (capIpcSend ||| capIpcRecv) protocol.code,
    .ipcCreateChannel 0 0 (capIpcSend ||| capIpcRecv) peer.code, .ipcConnect 0 1]

theorem directed_isolation_push :
    Enqueues (Runs.after step (boot sampleImage) (crossDomain .push0 .pull0))
        (.ipcSend 0 (some (sampleMessage 1 []))) 1 ∧
      MayFlow (Runs.after step (boot sampleImage) (crossDomain .push0 .pull0)) 0 1 := by
  have enqueues : Enqueues (Runs.after step (boot sampleImage) (crossDomain .push0 .pull0))
      (.ipcSend 0 (some (sampleMessage 1 []))) 1 := by decide +kernel
  exact ⟨enqueues, directed_isolation (boot sampleImage) (crossDomain .push0 .pull0)
    (by decide +kernel) 0 1 (some (sampleMessage 1 [])) 1 (by decide +kernel) (by decide +kernel)
    (by decide +kernel) enqueues⟩

/-- The same connection between two BUS channels carries a message back from domain 0 to
domain 1, for which there is neither an edge nor a capability. -/
theorem bus_sends_against_edge :
    let s := Runs.after step (boot sampleImage) (crossDomain .bus0 .bus0)
    (s.channels 0).inUse = true ∧ (s.channels 0).socket.id = some 0 ∧ ¬IsReply s 1 ∧
      Enqueues s (.ipcSend 1 (some (sampleMessage 1 []))) 0 ∧
      (s.channels 1).domain ≠ (s.channels 0).domain ∧
      domainEdgeAllowed s.domains (s.channels 1).domain (s.channels 0).domain = false ∧
      ¬CrossesDomains (s.channels 1).capMask := by
  decide +kernel

end LughOS.Kernel

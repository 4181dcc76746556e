import LughOS.Kernel.Routing

/-!
# Deliveries and connections

Which channels can a send reach? `Rewired` says once what a call can do to channels,
sockets, pipes and return addresses, and three facts are carried along every run on
top of it: open channels own distinct open sockets and pipes join open sockets
(`Wired`), a pipe comes from a successful `ipc_connect` younger than both of its
channels (`Linked`), and a return address leads along a pipe (`Addressed`).

The last one needs an assumption. A socket id is handed out again after a close, and
`nng_socket_close` leaves the return addresses kept by other sockets alone; a REP or
RESPONDENT that answers late then answers whoever has the id now. `delivery_along_connection`
assumes that no channel is created on an id that is still remembered in this way, and
`reply_reaches_recycled_socket` shows what happens otherwise.
-/

namespace LughOS.Kernel

/-! ## What a call does to the wiring -/

/-- The call opens channel `c`. -/
def Creates (s : System) (op : Op) (c : ChannelId) : Prop :=
  ∃ level domain caps protocol, op = .ipcCreateChannel level domain caps protocol ∧
    (ipcCreateChannel s level domain caps protocol).1 = c.val

/-- The effect of one call on channels, sockets, pipes and return addresses. -/
inductive Rewired (s : System) (op : Op) (s' : System) : Prop where
  | kept (id : SocketId) (channels : s'.channels = s.channels)
      (socketPool : s'.nng.socketPool = s.nng.socketPool) (pipes : s'.nng.pipes = s.nng.pipes)
      (addresses : ∀ d, Readdressed s.nng id d (s.nng.sockState d) (s'.nng.sockState d))
  | created (c : ChannelId) (e : SocketId) (ch : IpcChannel) (creates : Creates s op c)
      (unused : (s.channels c).inUse = false) (free : freeSocket? s.nng = some e)
      (used : ch.inUse = true) (socket : ch.socket.id = some e)
      (channels : s'.channels = Function.update s.channels c ch)
      (socketPool : s'.nng.socketPool = Function.update s.nng.socketPool e ch.socket)
      (pipes : s'.nng.pipes = s.nng.pipes)
      (cleared : (s'.nng.sockState e).replySrc = none ∧ (s'.nng.sockState e).respondentSrc = none)
      (others : ∀ d, d ≠ e → s'.nng.sockState d = s.nng.sockState d)
  | closed (c : ChannelId) (e : SocketId) (used : (s.channels c).inUse = true)
      (socket : (s.channels c).socket.id = some e)
      (channel : (s'.channels c).inUse = false)
      (channels : ∀ c', c' ≠ c → s'.channels c' = s.channels c')
      (freed : (s'.nng.socketPool e).id = none)
      (socketPool : ∀ d, d ≠ e → s'.nng.socketPool d = s.nng.socketPool d)
      (pipes : ∀ i, (s'.nng.pipes i).inUse = true ↔
        (s.nng.pipes i).inUse = true ∧ (s.nng.pipes i).src ≠ e ∧ (s.nng.pipes i).dst ≠ e)
      (ends : ∀ i, (s'.nng.pipes i).src = (s.nng.pipes i).src ∧
        (s'.nng.pipes i).dst = (s.nng.pipes i).dst)
      (sockState : s'.nng.sockState = s.nng.sockState)
  | connected (src dst : ChannelId) (sId dId : SocketId) (i : PipeIndex)
      (call : op = .ipcConnect src.val dst.val) (result : (ipcConnect s src.val dst.val).1 = 0)
      (usedSrc : (s.channels src).inUse = true) (usedDst : (s.channels dst).inUse = true)
      (flow : FlowAllowed s.domains (s.channels src).capMask (s.channels src).domain
        (s.channels dst).domain)
      (socketSrc : (s.channels src).socket.id = some sId)
      (socketDst : (s.channels dst).socket.id = some dId)
      (validSrc : s.nng.socketValid sId = true) (validDst : s.nng.socketValid dId = true)
      (free : (s.nng.pipes i).inUse = false)
      (channels : s'.channels = s.channels)
      (socketPool : s'.nng.socketPool = s.nng.socketPool)
      (pipes : s'.nng.pipes = Function.update s.nng.pipes i ⟨sId, dId, true⟩)
      (sockState : s'.nng.sockState = s.nng.sockState)

/-- A call that does not touch the sockets. -/
theorem Rewired.of_same {s s' : System} {op : Op} (channels : s'.channels = s.channels)
    (nng : s'.nng = s.nng) : Rewired s op s' :=
  .kept 0 channels (by rw [nng]) (by rw [nng])
    (fun d => by rw [nng]; exact .of_kept (.inl rfl) (.inl rfl))

theorem ipcCreateChannel_rewired (s : System) (level domain caps : BitVec 32) (protocol : Int) :
    Rewired s (.ipcCreateChannel level domain caps protocol)
      (ipcCreateChannel s level domain caps protocol).2 := by
  obtain ⟨-, same, nng⟩ | ⟨task, c, sock, nng, -, -, -, unused, created, result, nng_eq, channels,
    -, -⟩ := ipcCreateChannel_cases s level domain caps protocol
  · exact .of_same same.channels nng
  unfold nngSocketCreate at created
  cases free : freeSocket? s.nng with
  | none => rw [free] at created; cases created
  | some e =>
      rw [free] at created
      cases created
      refine .created c e _ ⟨level, domain, caps, protocol, rfl, result⟩ unused free ?_ ?_
        channels ?_ ?_ ?_ ?_
      · rfl
      · rfl
      all_goals rw [nng_eq]
      · simp
      · intro d other
        simp [Function.update_of_ne other]

/-- The pool after a list of messages was freed. -/
def freeAll (p : Pool) (msgs : List Nat) : Pool := msgs.foldl (fun p msg => (nngMsgFree p msg).2) p

theorem foldl_freeMsg (n : Nng) (msgs : List Nat) :
    msgs.foldl Nng.freeMsg n = { n with pool := freeAll n.pool msgs } := by
  induction msgs generalizing n with
  | nil => rfl
  | cons msg msgs ih => exact ih (n.freeMsg msg)

theorem closeSocket_eq (n : Nng) (e : SocketId) :
    closeSocket n e =
      { n with
        pool := freeAll n.pool (n.recvQueues e)
        recvQueues := Function.update n.recvQueues e []
        pipes := fun i =>
          if (n.pipes i).inUse = true ∧ ((n.pipes i).src = e ∨ (n.pipes i).dst = e) then
            { n.pipes i with inUse := false }
          else n.pipes i
        socketPool := Function.update n.socketPool e { n.socketPool e with id := none } } := by
  simp only [closeSocket, foldl_freeMsg]

theorem ipcCloseChannel_rewired (s : System) (op : Op) (id : Int) :
    Rewired s op (ipcCloseChannel s id).2 := by
  obtain same | ⟨c, e, used, valid, closed⟩ := ipcCloseChannel_cases s id
  · rw [same]
    exact .of_same rfl rfl
  rw [closed]
  obtain ⟨socket, -⟩ := Nng.valid?_eq_some.mp valid
  refine .closed c e used socket ?_ ?_ ?_ ?_ ?_ ?_ ?_ <;> simp only [closeSocket_eq]
  · simp
  · intro c' other
    simp [Function.update_of_ne other]
  · simp
  · intro d other
    simp [Function.update_of_ne other]
  · intro i
    split
    · rename_i touched
      simp only [Bool.false_eq_true, false_iff]
      tauto
    · rename_i untouched
      tauto
  · intro i
    split <;> exact ⟨rfl, rfl⟩

theorem ipcConnect_rewired (s : System) (srcId dstId : Int) :
    Rewired s (.ipcConnect srcId dstId) (ipcConnect s srcId dstId).2 := by
  have rights := ipcConnect_sameRights s srcId dstId
  obtain ⟨-, nng⟩ | ⟨src, dst, sId, dId, i, openSrc, openDst, flow, validSrc, validDst, free,
    result, nng⟩ := ipcConnect_cases s srcId dstId
  · exact .of_same rights.channels nng
  obtain ⟨numSrc, usedSrc⟩ := openChannel?_eq_some.mp openSrc
  obtain ⟨numDst, usedDst⟩ := openChannel?_eq_some.mp openDst
  obtain rfl := channel?_eq_some numSrc
  obtain rfl := channel?_eq_some numDst
  obtain ⟨socketSrc, okSrc⟩ := Nng.valid?_eq_some.mp validSrc
  obtain ⟨socketDst, okDst⟩ := Nng.valid?_eq_some.mp validDst
  exact .connected src dst sId dId i rfl result usedSrc usedDst flow socketSrc socketDst okSrc okDst
    free rights.channels (by rw [nng]) (by rw [nng]) (by rw [nng])

theorem ipcSend_rewired (s : System) (op : Op) (id : Int) (msg : Option Message) :
    Rewired s op (ipcSend s id msg).2.2 := by
  have channels := (ipcSend_sameRights s id msg).channels
  have sent := ipcSend_sent s id msg
  generalize (ipcSend s id msg).2.2 = s' at channels sent
  generalize nng : s'.nng = n' at sent
  generalize s'.auditor.ring = ring at sent
  cases sent with
  | refused => exact .of_same channels nng
  | unconverted ok converted =>
      refine .kept 0 channels ?_ ?_ ?_ <;> rw [nng]
      exact fun d => .of_kept (.inl rfl) (.inl rfl)
  | unsent ok converted closed =>
      refine .kept 0 channels ?_ ?_ ?_ <;> rw [nng]
      exact fun d => .of_kept (.inl rfl) (.inl rfl)
  | @routed c m src p d n'' ok converted socket valid routes =>
      refine .kept d channels ?_ ?_ ?_ <;> rw [nng]
      · exact routes.socketPool
      · exact routes.pipes
      · exact fun e => ⟨(routes.readdressed e).reply, (routes.readdressed e).answer⟩

theorem ipcRecv_rewired (s : System) (op : Op) (id : Int) (out : Option Message)
    (nonblock : Bool) : Rewired s op (ipcRecv s id out nonblock).2.2 := by
  have channels := (ipcRecv_sameRights s id out nonblock).channels
  have received := ipcRecv_received s id out nonblock
  generalize (ipcRecv s id out nonblock).2.2 = s' at channels received
  generalize nng : s'.nng = n' at received
  have kept : ∀ d, SameWiring (expireSurvey s.nng s.jiffies d) s'.nng → Rewired s op s' := by
    intro d same
    have expired := expireSurvey_sameWiring s.nng s.jiffies d
    refine .kept 0 channels (same.socketPool.trans expired.socketPool)
      (same.pipes.trans expired.pipes) fun e => .of_kept (.inl ?_) (.inl ?_)
    · exact (same.reply e).trans (expired.reply e)
    · exact (same.answer e).trans (expired.answer e)
  cases received with
  | refused => exact .of_same channels nng
  | empty d => exact kept d (by rw [nng]; exact .of_pool _ _)
  | @taken c d src rest channel socket queue =>
      exact kept d (by rw [nng]; exact ⟨rfl, rfl, fun _ => rfl, fun _ => rfl⟩)

theorem step_rewired (s : System) (op : Op) : Rewired s op (step s op) := by
  cases op with
  | switch position =>
      unfold step switchTo
      dsimp only
      split <;> exact .of_same rfl rfl
  | tick ticks => exact .of_same rfl rfl
  | createTask spec =>
      refine .of_same (createTask_channels s spec) ?_
      unfold step createTask
      dsimp only
      split <;> simp
  | domainEdgeSet src dst =>
      obtain ⟨channels, -, nng, -⟩ := setDomainEdge_sameTables s src dst
      exact .of_same channels nng
  | domainEdgesSeal => exact .of_same rfl rfl
  | ipcCreateChannel level domain caps protocol =>
      exact ipcCreateChannel_rewired s level domain caps protocol
  | ipcCloseChannel id => exact ipcCloseChannel_rewired s _ id
  | ipcConnect src dst => exact ipcConnect_rewired s src dst
  | ipcSend id msg => exact ipcSend_rewired s _ id msg
  | ipcRecv id out nonblock => exact ipcRecv_rewired s _ id out nonblock

/-! ## What a call does to the messages -/

theorem freeSocket?_free {n : Nng} {e : SocketId} (free : freeSocket? n = some e) :
    (n.socketPool e).id = none := by
  simpa using Table.first?_holds free

/-- The effect of one call on the message pool and the receive queues. -/
inductive Moved (s : System) (op : Op) (n' : Nng) : Prop where
  | still (pool : n'.pool = s.nng.pool) (queues : n'.recvQueues = s.nng.recvQueues)
      (kept : ∀ d, (s.nng.socketPool d).id = some d → (n'.socketPool d).id = some d)
  | sent (id : Int) (msg : Option Message) (ring : List Message) (call : op = .ipcSend id msg)
      (sent : Sent s id msg n' ring)
  | received (id : Int) (received : Received s id n')
  | closed (c : ChannelId) (d : SocketId) (used : (s.channels c).inUse = true)
      (socket : (s.channels c).socket.id = some d) (closed : n' = closeSocket s.nng d)

theorem step_moved (s : System) (op : Op) : Moved s op (step s op).nng := by
  have same : ∀ {n'}, n' = s.nng → Moved s op n' := by
    rintro n' rfl
    exact .still rfl rfl fun _ isOpen => isOpen
  cases op with
  | switch position =>
      unfold step switchTo
      dsimp only
      split <;> exact same rfl
  | tick ticks => exact same rfl
  | createTask spec =>
      unfold step createTask
      dsimp only
      split <;> exact same (by simp)
  | domainEdgeSet src dst => exact same (setDomainEdge_sameTables s src dst).2.2.1
  | domainEdgesSeal => exact same rfl
  | ipcCreateChannel level domain caps protocol =>
      obtain ⟨-, -, nng⟩ | ⟨_, _, _, nng, -, -, -, -, created, -, nng_eq, -⟩ :=
        ipcCreateChannel_cases s level domain caps protocol
      · exact same nng
      · unfold nngSocketCreate at created
        split at created <;> cases created
        rename_i e free
        simp only [step, nng_eq]
        refine .still rfl rfl fun d isOpen => ?_
        have apart : d ≠ e := by
          rintro rfl
          rw [freeSocket?_free free] at isOpen
          cases isOpen
        simpa only [Function.update_of_ne apart] using isOpen
  | ipcCloseChannel id =>
      obtain unchanged | ⟨c, d, used, valid, closed⟩ := ipcCloseChannel_cases s id
      · exact same (congrArg System.nng unchanged)
      · exact .closed c d used (Nng.valid?_eq_some.mp valid).1 (congrArg System.nng closed)
  | ipcConnect src dst =>
      obtain ⟨-, nng⟩ | ⟨_, _, _, _, _, -, -, -, -, -, -, -, nng⟩ := ipcConnect_cases s src dst
      · exact same nng
      · simp only [step, nng]
        exact .still rfl rfl fun _ isOpen => isOpen
  | ipcSend id msg => exact .sent id msg _ rfl (ipcSend_sent s id msg)
  | ipcRecv id out nonblock => exact .received id (ipcRecv_received s id out nonblock)

/-! ## Open channels and pipes -/

theorem socketValid_iff {n : Nng} {d : SocketId} :
    n.socketValid d = true ↔ (n.socketPool d).id = some d := by
  simp [Nng.socketValid]

/-- The sockets of a system are in order: each open channel has an open socket of its own,
and a pipe in use joins open sockets. -/
structure Wired (s : System) : Prop where
  socket : ∀ c, (s.channels c).inUse = true → ∃ d, (s.channels c).socket.id = some d ∧
    (s.nng.socketPool d).id = some d ∧
    (s.nng.socketPool d).protocol = (s.channels c).socket.protocol
  unique : ∀ c c', (s.channels c).inUse = true → (s.channels c').inUse = true →
    (s.channels c).socket.id = (s.channels c').socket.id → c = c'
  pipe : ∀ i, (s.nng.pipes i).inUse = true →
    (s.nng.socketPool (s.nng.pipes i).src).id = some (s.nng.pipes i).src ∧
      (s.nng.socketPool (s.nng.pipes i).dst).id = some (s.nng.pipes i).dst

theorem initIpc_wired (s : System) : Wired (initIpc s) where
  socket := fun c used => by simp [initIpc] at used
  unique := fun c _ used => by simp [initIpc] at used
  pipe := fun i used => by simp [initIpc, nngInit] at used

/-- The socket of an open channel is not the free one. -/
theorem Wired.not_free {s : System} (wired : Wired s) {c : ChannelId} {e : SocketId}
    (used : (s.channels c).inUse = true) (free : (s.nng.socketPool e).id = none) :
    (s.channels c).socket.id ≠ some e := by
  obtain ⟨d, socket, isOpen, -⟩ := wired.socket c used
  rw [socket]
  rintro ⟨⟩
  rw [free] at isOpen
  cases isOpen

theorem Wired.rewired {s s' : System} {op : Op} (wired : Wired s) (rewired : Rewired s op s') :
    Wired s' := by
  cases rewired with
  | kept id channels socketPool pipes addresses =>
      exact ⟨by rw [channels, socketPool]; exact wired.socket, by rw [channels]; exact wired.unique,
        by rw [socketPool, pipes]; exact wired.pipe⟩
  | created c e ch creates unused free used socket channels socketPool pipes cleared others =>
      have fresh := freeSocket?_free free
      have others : ∀ c', c' ≠ c → s'.channels c' = s.channels c' := fun c' other => by
        rw [channels, Function.update_of_ne other]
      have kept : ∀ d, (s.nng.socketPool d).id = some d →
          s'.nng.socketPool d = s.nng.socketPool d := by
        intro d isOpen
        rw [socketPool, Function.update_of_ne]
        rintro rfl
        rw [fresh] at isOpen
        cases isOpen
      have new : s'.channels c = ch := by rw [channels, Function.update_self]
      constructor
      · intro c' used'
        by_cases it : c' = c
        · subst it
          rw [new]
          exact ⟨e, socket, by rw [socketPool, Function.update_self, socket],
            by rw [socketPool, Function.update_self]⟩
        · rw [others c' it] at used' ⊢
          obtain ⟨d, socket', isOpen, protocol⟩ := wired.socket c' used'
          exact ⟨d, socket', by rw [kept d isOpen, isOpen], by rw [kept d isOpen, protocol]⟩
      · intro c₁ c₂ used₁ used₂ same
        by_cases first : c₁ = c <;> by_cases second : c₂ = c
        · rw [first, second]
        · subst first
          rw [new, others c₂ second, socket] at same
          rw [others c₂ second] at used₂
          exact absurd same.symm (wired.not_free used₂ fresh)
        · subst second
          rw [new, others c₁ first, socket] at same
          rw [others c₁ first] at used₁
          exact absurd same (wired.not_free used₁ fresh)
        · rw [others c₁ first, others c₂ second] at same
          rw [others c₁ first] at used₁
          rw [others c₂ second] at used₂
          exact wired.unique c₁ c₂ used₁ used₂ same
      · intro i usedPipe
        rw [pipes] at usedPipe ⊢
        obtain ⟨src, dst⟩ := wired.pipe i usedPipe
        exact ⟨by rw [kept _ src, src], by rw [kept _ dst, dst]⟩
  | closed c e used socket channel channels freed socketPool pipes ends sockState =>
      have still : ∀ c', (s'.channels c').inUse = true → c' ≠ c ∧ (s.channels c').inUse = true := by
        intro c' used'
        have other : c' ≠ c := by
          rintro rfl
          rw [channel] at used'
          cases used'
        rw [channels c' other] at used'
        exact ⟨other, used'⟩
      constructor
      · intro c' used'
        obtain ⟨other, used'⟩ := still c' used'
        rw [channels c' other]
        obtain ⟨d, socket', isOpen, protocol⟩ := wired.socket c' used'
        have apart : d ≠ e := by
          rintro rfl
          exact other (wired.unique c' c used' used (socket'.trans socket.symm))
        exact ⟨d, socket', by rw [socketPool d apart, isOpen],
          by rw [socketPool d apart, protocol]⟩
      · intro c₁ c₂ used₁ used₂ same
        obtain ⟨other₁, used₁⟩ := still c₁ used₁
        obtain ⟨other₂, used₂⟩ := still c₂ used₂
        rw [channels c₁ other₁, channels c₂ other₂] at same
        exact wired.unique c₁ c₂ used₁ used₂ same
      · intro i usedPipe
        obtain ⟨before, src, dst⟩ := (pipes i).mp usedPipe
        rw [(ends i).1, (ends i).2, socketPool _ src, socketPool _ dst]
        exact wired.pipe i before
  | connected src dst sId dId i call result usedSrc usedDst flow socketSrc socketDst validSrc
      validDst free channels socketPool pipes sockState =>
      refine ⟨by rw [channels, socketPool]; exact wired.socket,
        by rw [channels]; exact wired.unique, fun j usedPipe => ?_⟩
      rw [pipes] at usedPipe ⊢
      rw [socketPool]
      by_cases new : j = i
      · subst new
        rw [Function.update_self]
        exact ⟨socketValid_iff.mp validSrc, socketValid_iff.mp validDst⟩
      · rw [Function.update_of_ne new] at usedPipe ⊢
        exact wired.pipe j usedPipe

theorem wired_after (s : System) (ops : List Op) : Wired (Runs.after step (initIpc s) ops) :=
  Runs.invariant_after (initIpc_wired s) (fun s op wired => wired.rewired (step_rewired s op)) ops

/-! ## Connections behind pipes -/

/-- Some `ipc_connect` between `a` and `b` succeeded in the run, and neither channel was
created afterwards. -/
def LinkedSince (start : System) (ops : List Op) (a b : ChannelId) : Prop :=
  ∃ (before : List Op) (src dst : Int) (rest : List Op),
    ops = before ++ .ipcConnect src dst :: rest ∧
    ((src = a.val ∧ dst = b.val) ∨ (src = b.val ∧ dst = a.val)) ∧
    (ipcConnect (Runs.after step start before) src dst).1 = 0 ∧
    Runs.Meets step (fun s op => ¬Creates s op a ∧ ¬Creates s op b)
      (Runs.after step start (before ++ [.ipcConnect src dst])) rest

variable {start : System} {ops : List Op} {op : Op} {a b : ChannelId}

theorem LinkedSince.symm (h : LinkedSince start ops a b) : LinkedSince start ops b a := by
  obtain ⟨before, src, dst, rest, split, ends, ok, quiet⟩ := h
  refine ⟨before, src, dst, rest, split, ends.symm, ok, ?_⟩
  simpa only [and_comm] using quiet

theorem LinkedSince.concat (h : LinkedSince start ops a b)
    (notA : ¬Creates (Runs.after step start ops) op a)
    (notB : ¬Creates (Runs.after step start ops) op b) :
    LinkedSince start (ops ++ [op]) a b := by
  obtain ⟨before, src, dst, rest, split, ends, ok, quiet⟩ := h
  refine ⟨before, src, dst, rest ++ [op], by simp [split], ends, ok,
    Runs.meets_concat.mpr ⟨quiet, ?_⟩⟩
  have now : Runs.after step (Runs.after step start (before ++ [.ipcConnect src dst])) rest =
      Runs.after step start ops := by simp [split, Runs.after]
  rw [now]
  exact ⟨notA, notB⟩

theorem LinkedSince.connect
    (result : (ipcConnect (Runs.after step start ops) a.val b.val).1 = 0) :
    LinkedSince start (ops ++ [.ipcConnect a.val b.val]) a b :=
  ⟨ops, a.val, b.val, [], rfl, .inl ⟨rfl, rfl⟩, result, trivial⟩

/-- Every pipe in use between two open channels has such a connection behind it. -/
def Linked (start : System) (ops : List Op) (s : System) : Prop :=
  ∀ i, (s.nng.pipes i).inUse = true → ∀ a b, (s.channels a).inUse = true →
    (s.channels b).inUse = true → (s.channels a).socket.id = some (s.nng.pipes i).src →
    (s.channels b).socket.id = some (s.nng.pipes i).dst → LinkedSince start ops a b

/-- Only the creation of a closed channel creates it. -/
theorem Creates.unused {s : System} (h : Creates s op a) : (s.channels a).inUse = false := by
  obtain ⟨level, domain, caps, protocol, rfl, result⟩ := h
  obtain ⟨negative, -, -⟩ | ⟨_, c, _, _, -, -, -, unused, -, result', -⟩ :=
    ipcCreateChannel_cases s level domain caps protocol
  · omega
  · obtain rfl : a = c := Fin.ext (by omega)
    exact unused

/-- Where a pipe in use between two open channels comes from: it was there before the call,
between the same channels, or the call is the `ipc_connect` that made it. -/
theorem pipe_origin {s : System} (wired : Wired s) (op : Op) {i : PipeIndex}
    (usedPipe : ((step s op).nng.pipes i).inUse = true)
    (usedA : ((step s op).channels a).inUse = true)
    (usedB : ((step s op).channels b).inUse = true)
    (socketA : ((step s op).channels a).socket.id = some ((step s op).nng.pipes i).src)
    (socketB : ((step s op).channels b).socket.id = some ((step s op).nng.pipes i).dst) :
    ((s.nng.pipes i).inUse = true ∧ (step s op).nng.pipes i = s.nng.pipes i ∧
        (step s op).channels a = s.channels a ∧ (step s op).channels b = s.channels b) ∨
      (op = .ipcConnect a.val b.val ∧ (ipcConnect s a.val b.val).1 = 0 ∧
        (s.channels a).inUse = true ∧ (s.channels b).inUse = true ∧
        FlowAllowed s.domains (s.channels a).capMask (s.channels a).domain (s.channels b).domain ∧
        (step s op).channels = s.channels) := by
  cases step_rewired s op with
  | kept id channels socketPool pipes addresses =>
      rw [channels, pipes]
      exact .inl ⟨by rwa [pipes] at usedPipe, rfl, rfl, rfl⟩
  | created c e ch creates unused free used socket channels socketPool pipes cleared others =>
      -- a pipe in use has open sockets at both ends, so the new channel is at neither
      rw [pipes] at usedPipe socketA socketB ⊢
      have fresh := freeSocket?_free free
      obtain ⟨openSrc, openDst⟩ := wired.pipe i usedPipe
      have old : ∀ {c' d}, ((step s op).channels c').socket.id = some d →
          (s.nng.socketPool d).id = some d → (step s op).channels c' = s.channels c' := by
        intro c' d socket' isOpen
        rw [channels] at socket' ⊢
        by_cases it : c' = c
        · subst it
          rw [Function.update_self, socket] at socket'
          cases socket'
          rw [fresh] at isOpen
          cases isOpen
        · rw [Function.update_of_ne it]
      exact .inl ⟨usedPipe, rfl, old socketA openSrc, old socketB openDst⟩
  | closed c e used socket channel channels freed socketPool pipes ends sockState =>
      have other : ∀ {c'}, ((step s op).channels c').inUse = true → c' ≠ c := by
        rintro c' used' rfl
        rw [channel] at used'
        cases used'
      have before := ((pipes i).mp usedPipe).1
      have same : (step s op).nng.pipes i = s.nng.pipes i := by
        have := ends i
        revert this before usedPipe
        cases (step s op).nng.pipes i
        cases s.nng.pipes i
        simp_all
      exact .inl ⟨before, same, channels a (other usedA), channels b (other usedB)⟩
  | connected src dst sId dId j call result usedSrc usedDst flow socketSrc socketDst validSrc
      validDst free channels socketPool pipes sockState =>
      rw [channels] at usedA usedB socketA socketB
      rw [pipes] at usedPipe socketA socketB
      by_cases new : i = j
      · subst new
        rw [Function.update_self] at socketA socketB
        obtain rfl := wired.unique a src usedA usedSrc (socketA.trans socketSrc.symm)
        obtain rfl := wired.unique b dst usedB usedDst (socketB.trans socketDst.symm)
        exact .inr ⟨call, result, usedSrc, usedDst, flow, channels⟩
      · rw [Function.update_of_ne new] at usedPipe
        rw [channels, pipes, Function.update_of_ne new]
        exact .inl ⟨usedPipe, rfl, rfl, rfl⟩

theorem linked_step (wired : Wired (Runs.after step start ops))
    (linked : Linked start ops (Runs.after step start ops)) :
    Linked start (ops ++ [op]) (step (Runs.after step start ops) op) := by
  generalize now : Runs.after step start ops = s at wired linked
  intro i usedPipe a b usedA usedB socketA socketB
  obtain ⟨before, samePipe, sameA, sameB⟩ | ⟨rfl, result, -⟩ :=
    pipe_origin wired op usedPipe usedA usedB socketA socketB
  · rw [sameA] at usedA
    rw [sameB] at usedB
    rw [samePipe, sameA] at socketA
    rw [samePipe, sameB] at socketB
    refine (linked i before a b usedA usedB socketA socketB).concat ?_ ?_ <;> rw [now]
    · intro creates
      rw [creates.unused] at usedA
      cases usedA
    · intro creates
      rw [creates.unused] at usedB
      cases usedB
  · exact LinkedSince.connect (by rw [now]; exact result)

/-! ## Return addresses -/

/-- Where a send on `d` would answer to. -/
def returnAddress (n : Nng) (d : SocketId) : Option SocketId :=
  if (n.socketPool d).protocol = Protocol.rep0.code then (n.sockState d).replySrc
  else if (n.socketPool d).protocol = Protocol.respondent0.code then
    (n.sockState d).respondentSrc
  else none

/-- Some open REP or RESPONDENT socket still remembers `e` as the place to answer to. -/
def Remembered (n : Nng) (e : SocketId) : Prop :=
  ∃ d, n.socketValid d = true ∧ returnAddress n d = some e

instance (n : Nng) (e : SocketId) : Decidable (Remembered n e) :=
  inferInstanceAs (Decidable (∃ _, _))

/-- A channel is not created on a socket id that is still remembered. -/
def KeepsAddresses (s : System) : Op → Prop
  | .ipcCreateChannel _ _ _ _ => ∀ e, freeSocket? s.nng = some e → ¬Remembered s.nng e
  | _ => True

instance (s : System) (op : Op) : Decidable (KeepsAddresses s op) :=
  match op with
  | .ipcCreateChannel _ _ _ _ => inferInstanceAs (Decidable (∀ _, _ → _))
  | .switch _ | .tick _ | .createTask _ | .domainEdgeSet _ _ | .domainEdgesSeal
  | .ipcCloseChannel _ | .ipcConnect _ _ | .ipcSend _ _ | .ipcRecv _ _ _ => .isTrue trivial

/-- Return addresses lead against pipes. -/
def Addressed (n : Nng) : Prop :=
  ∀ d r, n.socketValid d = true → n.socketValid r = true → returnAddress n d = some r →
    PipeTo n r d

theorem initIpc_addressed (s : System) : Addressed (initIpc s).nng := by
  intro d r _ _ address
  have forgotten : returnAddress (initIpc s).nng d = none := by
    unfold returnAddress
    split
    · rfl
    · split <;> rfl
  rw [forgotten] at address
  cases address

theorem Readdressed.returnAddress {n n' : Nng} {id d : SocketId}
    (h : Readdressed n id d (n.sockState d) (n'.sockState d))
    (socketPool : n'.socketPool = n.socketPool) :
    returnAddress n' d = returnAddress n d ∨ returnAddress n' d = none ∨
      (returnAddress n' d = some id ∧ PipeTo n id d) := by
  unfold Kernel.returnAddress
  rw [socketPool]
  split
  · exact h.reply.imp_right (.imp_right fun mine => ⟨mine.1, mine.2.1⟩)
  · split
    · exact h.answer.imp_right (.imp_right fun mine => ⟨mine.1, mine.2.1⟩)
    · exact .inl rfl

theorem Addressed.rewired {s s' : System} {op : Op} (addressed : Addressed s.nng)
    (keeps : KeepsAddresses s op) (rewired : Rewired s op s') : Addressed s'.nng := by
  intro d r validD validR address
  rw [socketValid_iff] at validD validR
  cases rewired with
  | kept id channels socketPool pipes addresses =>
      rw [socketPool] at validD validR
      have same : ∀ {x y}, PipeTo s.nng x y → PipeTo s'.nng x y := by
        intro x y pipe
        simpa only [PipeTo, pipes] using pipe
      obtain old | none | ⟨mine, pipe⟩ := (addresses d).returnAddress socketPool
      · rw [old] at address
        exact same (addressed d r (socketValid_iff.mpr validD) (socketValid_iff.mpr validR) address)
      · rw [none] at address
        cases address
      · rw [mine] at address
        cases address
        exact same pipe
  | created c e ch creates unused free used socket channels socketPool pipes cleared others =>
      have other : d ≠ e := by
        rintro rfl
        simp [returnAddress, cleared] at address
      have sameD : s'.nng.socketPool d = s.nng.socketPool d := by
        rw [socketPool, Function.update_of_ne other]
      have old : returnAddress s.nng d = some r := by
        rw [← address]
        simp only [returnAddress, sameD, others d other]
      rw [sameD] at validD
      have notNew : r ≠ e := by
        rintro rfl
        obtain ⟨_, _, _, _, rfl, -⟩ := creates
        exact keeps r free ⟨d, socketValid_iff.mpr validD, old⟩
      rw [socketPool, Function.update_of_ne notNew] at validR
      have pipe := addressed d r (socketValid_iff.mpr validD) (socketValid_iff.mpr validR) old
      simpa only [PipeTo, pipes] using pipe
  | closed c e used socket channel channels freed socketPool pipes ends sockState =>
      have stays : ∀ {x}, (s'.nng.socketPool x).id = some x → x ≠ e := by
        rintro x isOpen rfl
        rw [freed] at isOpen
        cases isOpen
      have sameD := socketPool d (stays validD)
      have sameR := socketPool r (stays validR)
      have old : returnAddress s.nng d = some r := by
        rw [← address]
        simp only [returnAddress, sameD, sockState]
      obtain ⟨i, usedPipe, src, dst⟩ := addressed d r
        (socketValid_iff.mpr (by rw [← sameD]; exact validD))
        (socketValid_iff.mpr (by rw [← sameR]; exact validR)) old
      refine ⟨i, (pipes i).mpr ⟨usedPipe, ?_, ?_⟩, (ends i).1.trans src, (ends i).2.trans dst⟩
      · rw [src]; exact stays validR
      · rw [dst]; exact stays validD
  | connected src dst sId dId i call result usedSrc usedDst flow socketSrc socketDst validSrc
      validDst free channels socketPool pipes sockState =>
      rw [socketPool] at validD validR
      have old : returnAddress s.nng d = some r := by
        rw [← address]
        simp only [returnAddress, socketPool, sockState]
      obtain ⟨j, usedPipe, atSrc, atDst⟩ :=
        addressed d r (socketValid_iff.mpr validD) (socketValid_iff.mpr validR) old
      have apart : j ≠ i := by
        rintro rfl
        rw [free] at usedPipe
        cases usedPipe
      exact ⟨j, by rw [pipes, Function.update_of_ne apart]; exact ⟨usedPipe, atSrc, atDst⟩⟩

/-! ## Deliveries -/

/-- The call makes the receive queue of `d` longer. -/
def Enqueues (s : System) (op : Op) (d : SocketId) : Prop :=
  (s.nng.recvQueues d).length < ((step s op).nng.recvQueues d).length

instance (s : System) (op : Op) (d : SocketId) : Decidable (Enqueues s op d) :=
  inferInstanceAs (Decidable (_ < _))

/-- A send that enqueues anything comes from an open channel, and what it enqueues goes to
a target of that channel's socket. -/
theorem Enqueues.target {s : System} {id : Int} {msg : Option Message} {d : SocketId}
    (enqueues : Enqueues s (.ipcSend id msg) d) :
    ∃ a e, id = a.val ∧ (s.channels a).inUse = true ∧ (s.channels a).socket.id = some e ∧
      s.nng.socketValid e = true ∧ Target s.nng e d := by
  unfold Enqueues at enqueues
  have sent := ipcSend_sent s id msg
  rw [show step s (.ipcSend id msg) = (ipcSend s id msg).2.2 from rfl] at enqueues
  generalize (ipcSend s id msg).2.2 = s' at sent enqueues
  generalize s'.nng = n' at sent enqueues
  generalize s'.auditor.ring = ring at sent
  cases sent with
  | refused => exact absurd enqueues (lt_irrefl _)
  | unconverted _ _ => exact absurd enqueues (lt_irrefl _)
  | unsent _ _ _ => exact absurd enqueues (lt_irrefl _)
  | @routed c m src p e n'' ok converted socket valid routes =>
      obtain ⟨number, used⟩ := openChannel?_eq_some.mp ok.channel
      refine ⟨c, e, channel?_eq_some number, used, socket, valid, ?_⟩
      have target := (routes.queues d).2 (fun same => by
        rw [show (n''.freeMsg src).recvQueues = n''.recvQueues from rfl, same] at enqueues
        exact absurd enqueues (lt_irrefl _))
      exact target.of_pool

/-- The history that a run without recycled addresses carries. -/
structure Connected (start : System) (ops : List Op) (s : System) : Prop where
  wired : Wired s
  linked : Linked start ops s
  addressed : Addressed s.nng

theorem connected_after (k : System) {ops : List Op}
    (run : Runs.Meets step KeepsAddresses (initIpc k) ops) :
    Connected (initIpc k) ops (Runs.after step (initIpc k) ops) := by
  refine Runs.run_history (P := Connected (initIpc k)) ?_ (fun ops op h keeps => ?_) run
  · exact ⟨initIpc_wired k, fun i used => by simp [initIpc, nngInit] at used, initIpc_addressed k⟩
  · have rewired := step_rewired (Runs.after step (initIpc k) ops) op
    exact ⟨h.wired.rewired rewired, linked_step h.wired h.linked,
      h.addressed.rewired keeps rewired⟩

/-- In a run in which no channel is created on a remembered socket id, a send reaches only
channels it is connected to by a pipe in use, and that pipe is younger than both channels. -/
theorem delivery_along_connection (k : System) (ops : List Op)
    (run : Runs.Meets step KeepsAddresses (initIpc k) ops) (id : Int) (msg : Option Message)
    (b : ChannelId) (d : SocketId)
    (used : ((Runs.after step (initIpc k) ops).channels b).inUse = true)
    (socket : ((Runs.after step (initIpc k) ops).channels b).socket.id = some d)
    (enqueues : Enqueues (Runs.after step (initIpc k) ops) (.ipcSend id msg) d) :
    ∃ a e, id = a.val ∧ ((Runs.after step (initIpc k) ops).channels a).inUse = true ∧
      ((Runs.after step (initIpc k) ops).channels a).socket.id = some e ∧
      (PipeTo (Runs.after step (initIpc k) ops).nng e d ∨
        PipeTo (Runs.after step (initIpc k) ops).nng d e) ∧
      LinkedSince (initIpc k) ops a b := by
  have h := connected_after k run
  generalize Runs.after step (initIpc k) ops = s at h used socket enqueues
  obtain ⟨a, e, rfl, usedA, socketA, valid, target⟩ := enqueues.target
  have joined : PipeTo s.nng e d ∨ PipeTo s.nng d e := by
    cases target with
    | pipe i usedPipe src dst speaks => exact .inl ⟨i, usedPipe, src, dst⟩
    | bus i usedPipe src dst mine theirs => exact .inr ⟨i, usedPipe, src, dst⟩
    | reply mine address valid' =>
        exact .inr (h.addressed e d valid valid' (by simp [returnAddress, mine, address]))
    | answer mine address valid' =>
        refine .inr (h.addressed e d valid valid' ?_)
        simp [returnAddress, mine, address, Protocol.code]
  refine ⟨a, e, rfl, usedA, socketA, joined, ?_⟩
  rcases joined with ⟨i, usedPipe, rfl, rfl⟩ | ⟨i, usedPipe, rfl, rfl⟩
  · exact h.linked i usedPipe a b usedA used socketA socket
  · exact (h.linked i usedPipe b a used usedA socket socketA).symm

/-- A machine with an open heap behind a guard page, for examples. -/
def sampleImage : BootImage where
  mem := fun _ => 0
  regions := [⟨0, 0xFFF, false, false⟩, ⟨0x800000, 0x8FFFFF, true, true⟩]
  kernelStacks := 0x10000
  auditorEnabled := true
  jiffies := 0

def sampleMessage (op : BitVec 32) (text : List Bytes.Byte) : Message :=
  ⟨0, op, 0, 0, fun i => text.getD i.val 0⟩

/-- The root task opens a REQ and a REP channel and connects them. -/
def requestReply : List Op :=
  [.ipcCreateChannel 0 0 capAll Protocol.req0.code,
    .ipcCreateChannel 0 0 capAll Protocol.rep0.code, .ipcConnect 0 1]

theorem delivery_along_connection_request :
    Enqueues (Runs.after step (boot sampleImage) requestReply)
        (.ipcSend 0 (some (sampleMessage 1 []))) 1 ∧
      LinkedSince (boot sampleImage) requestReply 0 1 := by
  have enqueues : Enqueues (Runs.after step (boot sampleImage) requestReply)
      (.ipcSend 0 (some (sampleMessage 1 []))) 1 := by decide +kernel
  obtain ⟨a, e, number, -, -, -, linked⟩ :=
    delivery_along_connection _ requestReply (by decide +kernel) 0 (some (sampleMessage 1 [])) 1 1
      (by decide +kernel) (by decide +kernel) enqueues
  obtain rfl : a = 0 := Fin.ext (by simpa using number.symm)
  exact ⟨enqueues, linked⟩

/-- A request is answered after its sender was closed and its socket id reused: the answer
arrives at the new owner although no pipe is in use at all. -/
theorem reply_reaches_recycled_socket :
    let s := Runs.after step (boot sampleImage)
      (requestReply ++ [.ipcSend 0 (some (sampleMessage 1 [])), .ipcCloseChannel 0,
        .ipcCreateChannel 0 0 capAll Protocol.pull0.code])
    (s.channels 0).inUse = true ∧ (s.channels 0).socket.id = some 0 ∧
      Enqueues s (.ipcSend 1 (some (sampleMessage 2 []))) 0 ∧
      ∀ i, (s.nng.pipes i).inUse = false := by
  decide +kernel

end LughOS.Kernel

import LughOS.Kernel.Exporter

/-!
# Replaying the channel graph

The fold of `reconstruct_graph.py` over the records of a run, compared with the channel
table and the pipes. A successful creation and a successful connection each write one
record, so the rebuilt graph contains what was ever created and connected. But
`ipc_close_channel` writes none: a closed channel and the pipes that went with it stay in
the rebuilt graph.

The graph is therefore exact just if everything that a run ended was started again in the
same run. `replay_exact_iff` says so for every run, through the switches of
`Library.Runs`: creation switches a channel on, connection switches a pair of channels on.
-/

namespace LughOS.Kernel

open Auditor

/-! ## The graph in the kernel -/

/-- An in-use pipe leads from channel `a` to channel `b`. -/
def Joined (s : System) (a b : ChannelId) : Prop :=
  (s.channels a).inUse = true ∧ (s.channels b).inUse = true ∧
    ∃ i, (s.nng.pipes i).inUse = true ∧ (s.channels a).socket.id = some (s.nng.pipes i).src ∧
      (s.channels b).socket.id = some (s.nng.pipes i).dst

/-- An open channel as the graph shows it. -/
def channelNode (c : ChannelId) (ch : IpcChannel) : GraphChannel :=
  ⟨c.val, ch.ownerTaskId.toNat, ch.capMask.toNat, ch.domain.toNat⟩

/-- The rebuilt graph has exactly the open channels and the pairs joined by a pipe. -/
structure ChannelGraphExact (s : System) (g : GraphState) : Prop where
  channels : ∀ n node, g.channels n = some node ↔
    ∃ c : ChannelId, c.val = n ∧ (s.channels c).inUse = true ∧ node = channelNode c (s.channels c)
  edges : ∀ a b, (a, b) ∈ g.chanEdges ↔ ∃ c d : ChannelId, c.val = a ∧ d.val = b ∧ Joined s c d

/-! ## Starting channels and connections -/

/-- The event opens channel `c`. -/
def CreatesChannel (c : ChannelId) (m : Machine) (e : Event) : Prop :=
  ∃ op, e = .call op ∧ Creates m.kernel op c

/-- The event connects channel `a` to channel `b`. -/
def ConnectsChannels (a b : ChannelId) (m : Machine) (e : Event) : Prop :=
  ∃ op, e = .call op ∧ Connects m.kernel op a b

/-- Every channel that an event of the run closes is created again later in the run, and
every pair of channels that it separates is connected again. -/
def Restored (start : Machine) (events : List Event) : Prop :=
  (∀ c, Runs.Resumes eventStep (fun m => (m.kernel.channels c).inUse = true) (CreatesChannel c)
      start events) ∧
    ∀ a b, Runs.Resumes eventStep (fun m => Joined m.kernel a b) (ConnectsChannels a b) start events

/-! ## What an event adds to the rebuilt graph -/

inductive ChannelNews (m : Machine) (e : Event) (m' : Machine) : Prop where
  | none (creates : ∀ c, ¬CreatesChannel c m e) (connects : ∀ a b, ¬ConnectsChannels a b m e)
      (nodes : m'.graph.channels = m.graph.channels)
      (edges : m'.graph.chanEdges = m.graph.chanEdges)
      (kept : ∀ c, (m'.kernel.channels c).inUse = true → m'.kernel.channels c = m.kernel.channels c)
  | created (c : ChannelId) (creates : ∀ c', CreatesChannel c' m e ↔ c' = c)
      (connects : ∀ a b, ¬ConnectsChannels a b m e) (used : (m'.kernel.channels c).inUse = true)
      (nodes : m'.graph.channels = Function.update m.graph.channels c.val
        (some (channelNode c (m'.kernel.channels c))))
      (edges : m'.graph.chanEdges = m.graph.chanEdges)
      (kept : ∀ c', c' ≠ c → m'.kernel.channels c' = m.kernel.channels c')
  | connected (a b : ChannelId) (creates : ∀ c, ¬CreatesChannel c m e)
      (connects : ∀ a' b', ConnectsChannels a' b' m e ↔ a' = a ∧ b' = b)
      (nodes : m'.graph.channels = m.graph.channels)
      (edges : m'.graph.chanEdges = insert (a.val, b.val) m.graph.chanEdges)
      (kept : m'.kernel.channels = m.kernel.channels)

theorem not_call {e : Event} (other : ∀ op, e ≠ .call op) {m : Machine} :
    (∀ c, ¬CreatesChannel c m e) ∧ ∀ a b, ¬ConnectsChannels a b m e :=
  ⟨fun _ ⟨op, call, _⟩ => other op call, fun _ _ ⟨op, call, _⟩ => other op call⟩

theorem perform_channelNews {m : Machine} (enabled : m.kernel.auditor.enabled = true) (op : Op) :
    ChannelNews m (.call op) (m.perform op) := by
  have creates_iff : ∀ c, CreatesChannel c m (.call op) ↔ Creates m.kernel op c := by
    intro c
    exact ⟨fun ⟨_, call, h⟩ => by cases call; exact h, fun h => ⟨op, rfl, h⟩⟩
  have connects_iff : ∀ a b, ConnectsChannels a b m (.call op) ↔ Connects m.kernel op a b := by
    intro a b
    exact ⟨fun ⟨_, call, h⟩ => by cases call; exact h, fun h => ⟨op, rfl, h⟩⟩
  have audited : Audited m.kernel op (m.perform op).kernel := step_audited m.kernel op
  have graph : ∀ {record}, (m.perform op).kernel.auditor = m.kernel.auditor.emit record →
      (m.perform op).graph = applyRecord m.graph record.parsed := emit_stream enabled
  generalize m.perform op = m' at audited graph
  cases audited with
  | silent auditor plain =>
      have same : m'.graph = m.graph := by
        rw [Machine.graph, auditor, pushOffered_stream]
        rfl
      exact .none (fun c => by rw [creates_iff]; exact plain.creates c)
        (fun a b => by rw [connects_iff]; exact plain.connects a b) (by rw [same]) (by rw [same])
        plain.channels
  | denied info _ auditor _ plain =>
      have same : m'.graph = m.graph := by
        rw [graph auditor, applyRecord_inert _ (emitDenyRecord_inert _ _)]
      exact .none (fun c => by rw [creates_iff]; exact plain.creates c)
        (fun a b => by rw [connects_iff]; exact plain.connects a b) (by rw [same]) (by rw [same])
        plain.channels
  | channelCreated c ch task creates _ auditor used _ _ channels =>
      have news := graph auditor
      rw [applyRecord_channelCreated] at news
      have new : m'.kernel.channels c = ch := by rw [channels, Function.update_self]
      refine .created c (fun c' => ?_) (fun a b => ?_) (by rw [new]; exact used) ?_ (by rw [news])
        (fun c' other => by rw [channels, Function.update_of_ne other])
      · rw [creates_iff]
        obtain ⟨level, domain, caps, protocol, rfl, result⟩ := creates
        constructor
        · rintro ⟨_, _, _, _, ⟨⟩, result'⟩
          have same : (c'.val : Int) = c.val := result'.symm.trans result
          exact Fin.ext (by omega)
        · rintro rfl
          exact ⟨level, domain, caps, protocol, rfl, result⟩
      · rw [connects_iff]
        obtain ⟨level, domain, caps, protocol, rfl, -⟩ := creates
        exact not_connects (by simp) a b
      · rw [news, new]
        rfl
  | connected a b connects _ auditor rights =>
      have news := graph auditor
      rw [applyRecord_connected] at news
      obtain ⟨rfl, result⟩ := connects
      refine .connected a b (fun c => ?_) (fun a' b' => ?_) (by rw [news]) (by rw [news])
        rights.channels
      · rw [creates_iff]
        exact not_creates (by simp) c
      · rw [connects_iff]
        constructor
        · rintro ⟨call, -⟩
          obtain ⟨srcs, dsts⟩ := Op.ipcConnect.inj call
          exact ⟨Fin.ext (by omega), Fin.ext (by omega)⟩
        · rintro ⟨rfl, rfl⟩
          exact ⟨rfl, result⟩
  | taskCreated spec parent child call auditor _ _ _ _ _ _ channels _ =>
      have news := graph auditor
      rw [applyRecord_taskCreate] at news
      subst call
      exact .none (fun c => by rw [creates_iff]; exact not_creates (by simp) c)
        (fun a b => by rw [connects_iff]; exact not_connects (by simp) a b) (by rw [news])
        (by rw [news]) (fun c _ => by rw [channels])
  | edgeAdded src dst call auditor _ channels _ =>
      have news := graph auditor
      rw [applyRecord_domainEdge] at news
      subst call
      exact .none (fun c => by rw [creates_iff]; exact not_creates (by simp) c)
        (fun a b => by rw [connects_iff]; exact not_connects (by simp) a b) (by rw [news])
        (by rw [news]) (fun c _ => by rw [channels])

theorem Machine.Reported.channelNews {m m' : Machine} {e : Event} (reported : m.Reported m')
    (other : ∀ op, e ≠ .call op) : ChannelNews m e m' := by
  obtain ⟨creates, connects⟩ := not_call other (m := m)
  exact .none creates connects (by rw [reported.graph]) (by rw [reported.graph])
    fun c _ => congrFun reported.channels c

theorem eventStep_channelNews {m : Machine} (enabled : m.kernel.auditor.enabled = true)
    (e : Event) :
    ChannelNews m e (eventStep m e) := by
  cases e with
  | call op => exact perform_channelNews enabled op
  | sysExit code =>
      obtain ⟨creates, connects⟩ := not_call (e := .sysExit code) (by simp) (m := m)
      obtain ⟨-, channels, -⟩ := m.sysExit_frame code
      have graph : (eventStep m (.sysExit code)).graph.channels = m.graph.channels ∧
          (eventStep m (.sysExit code)).graph.chanEdges = m.graph.chanEdges := by
        obtain ⟨-, same⟩ | ⟨caller, -, auditor, -⟩ := m.sysExit_cases code
        · rw [eventStep, same]
          exact ⟨rfl, rfl⟩
        · rw [eventStep, Machine.graph, emit_stream enabled auditor, applyRecord_taskExit]
          exact ⟨rfl, rfl⟩
      exact .none creates connects graph.1 graph.2 (fun c _ => congrFun channels c)
  | sysYield =>
      obtain ⟨creates, connects⟩ := not_call (e := .sysYield) (by simp) (m := m)
      exact .none creates connects rfl rfl (fun _ _ => rfl)
  | logTransaction entry =>
      obtain ⟨creates, connects⟩ := not_call (e := .logTransaction entry) (by simp) (m := m)
      obtain ⟨-, channels, -, -, -, -, stream⟩ := m.logTransaction_frame entry
      have graph : (eventStep m (.logTransaction entry)).graph = m.graph := congrArg replay stream
      exact .none creates connects (by rw [graph]) (by rw [graph]) (fun c _ => congrFun channels c)
  | fault a => exact (m.auditorFault_reported a).channelNews (by simp)
  | workflow owner a => exact (m.auditorWorkflow_reported owner a).channelNews (by simp)
  | auditorTick =>
      obtain ⟨creates, connects⟩ := not_call (e := .auditorTick) (by simp) (m := m)
      have graph : (eventStep m .auditorTick).graph = m.graph := auditorTick_graph enabled
      exact .none creates connects (by rw [graph]) (by rw [graph])
        (fun c _ => congrFun m.auditorTick_frame.1 c)

/-! ## Channels and pairs as switches -/

theorem Wired.of_same {s s' : System} (wired : Wired s) (channels : s'.channels = s.channels)
    (nng : s'.nng = s.nng) : Wired s' :=
  ⟨by rw [channels, nng]; exact wired.socket, by rw [channels]; exact wired.unique,
    by rw [nng]; exact wired.pipe⟩

/-- What the switches rely on. -/
structure Audible (m : Machine) : Prop where
  enabled : m.kernel.auditor.enabled = true
  wired : Wired m.kernel

theorem eventStep_wired {m : Machine} (wired : Wired m.kernel) (e : Event) :
    Wired (eventStep m e).kernel := by
  cases e with
  | call op => exact wired.rewired (step_rewired m.kernel op)
  | sysExit code =>
      obtain ⟨-, channels, nng, -⟩ := m.sysExit_frame code
      exact wired.of_same channels nng
  | sysYield => exact wired.of_same rfl rfl
  | logTransaction entry =>
      obtain ⟨-, channels, nng, -⟩ := m.logTransaction_frame entry
      exact wired.of_same channels nng
  | fault a =>
      have reported := m.auditorFault_reported a
      exact wired.of_same reported.channels reported.nng
  | workflow owner a =>
      have reported := m.auditorWorkflow_reported owner a
      exact wired.of_same reported.channels reported.nng
  | auditorTick => exact wired.of_same m.auditorTick_frame.1 m.auditorTick_frame.2.1

theorem eventStep_audible (m : Machine) (e : Event) (audible : Audible m) :
    Audible (eventStep m e) :=
  ⟨(eventStep_enabled m e).trans audible.enabled, eventStep_wired audible.wired e⟩

/-- Only a creation turns a channel on. -/
theorem channel_switch (c : ChannelId) :
    Runs.Switch eventStep Audible (fun m => (m.kernel.channels c).inUse = true)
      (CreatesChannel c) where
  keeps := eventStep_audible
  sets := by
    intro m e audible on
    cases eventStep_channelNews audible.enabled e with
    | none creates => exact absurd on (creates c)
    | created c' creates _ used =>
        obtain rfl := (creates c).mp on
        exact used
    | connected a b creates => exact absurd on (creates c)
  only := by
    intro m e audible used
    cases eventStep_channelNews audible.enabled e with
    | none _ _ _ _ kept => exact .inl (by rw [← kept c used]; exact used)
    | created c' creates _ _ _ _ kept =>
        by_cases it : c = c'
        · exact .inr ((creates c).mpr it)
        · exact .inl (by rw [← kept c it]; exact used)
    | connected a b _ _ _ _ kept => exact .inl (by rw [← kept]; exact used)

/-- A successful connection joins its channels. -/
theorem Connects.joined {s : System} {op : Op} {a b : ChannelId} (connects : Connects s op a b) :
    Joined (step s op) a b := by
  obtain ⟨rfl, result⟩ := connects
  have rights := ipcConnect_sameRights s a.val b.val
  obtain ⟨failed, -⟩ | ⟨src, dst, sId, dId, i, openSrc, openDst, -, validSrc, validDst, -, -,
    nng⟩ := ipcConnect_cases s a.val b.val
  · exact absurd result failed
  obtain ⟨numSrc, usedSrc⟩ := openChannel?_eq_some.mp openSrc
  obtain ⟨numDst, usedDst⟩ := openChannel?_eq_some.mp openDst
  rw [channel?_val] at numSrc numDst
  cases numSrc
  cases numDst
  simp only [step, Joined, rights.channels, nng]
  refine ⟨usedSrc, usedDst, i, ?_⟩
  rw [Function.update_self]
  exact ⟨rfl, (Nng.valid?_eq_some.mp validSrc).1, (Nng.valid?_eq_some.mp validDst).1⟩

/-- Channels are joined by a connection only, not by a recycled socket. -/
theorem Joined.of_rewired {s s' : System} {op : Op} {a b : ChannelId} (wired : Wired s)
    (rewired : Rewired s op s') (joined : Joined s' a b) : Joined s a b ∨ Connects s op a b := by
  obtain ⟨usedA, usedB, i, piped, socketA, socketB⟩ := joined
  cases rewired with
  | kept id channels socketPool pipes addresses =>
      rw [channels] at usedA usedB socketA socketB
      rw [pipes] at piped socketA socketB
      exact .inl ⟨usedA, usedB, i, piped, socketA, socketB⟩
  | created c e ch creates unused free used socket channels socketPool pipes cleared others =>
      rw [pipes] at piped socketA socketB
      -- no pipe leads from or to the socket that was free
      have fresh := freeSocket?_free free
      obtain ⟨srcOpen, dstOpen⟩ := wired.pipe i piped
      have new : s'.channels c = ch := by rw [channels, Function.update_self]
      have notA : a ≠ c := by
        rintro rfl
        rw [new, socket] at socketA
        cases socketA
        rw [fresh] at srcOpen
        cases srcOpen
      have notB : b ≠ c := by
        rintro rfl
        rw [new, socket] at socketB
        cases socketB
        rw [fresh] at dstOpen
        cases dstOpen
      rw [channels, Function.update_of_ne notA] at usedA socketA
      rw [channels, Function.update_of_ne notB] at usedB socketB
      exact .inl ⟨usedA, usedB, i, piped, socketA, socketB⟩
  | closed c e used socket channel channels freed socketPool pipes ends sockState =>
      have notA : a ≠ c := by
        rintro rfl
        rw [channel] at usedA
        cases usedA
      have notB : b ≠ c := by
        rintro rfl
        rw [channel] at usedB
        cases usedB
      rw [channels a notA, (ends i).1] at *
      rw [channels b notB, (ends i).2] at *
      exact .inl ⟨usedA, usedB, i, ((pipes i).mp piped).1, socketA, socketB⟩
  | connected src dst sId dId j call result usedSrc usedDst flow socketSrc socketDst validSrc
      validDst free channels socketPool pipes sockState =>
      rw [channels] at usedA usedB socketA socketB
      rw [pipes] at piped socketA socketB
      by_cases it : i = j
      · subst it
        rw [Function.update_self] at socketA socketB
        obtain rfl := wired.unique a src usedA usedSrc (socketA.trans socketSrc.symm)
        obtain rfl := wired.unique b dst usedB usedDst (socketB.trans socketDst.symm)
        exact .inr ⟨call, result⟩
      · rw [Function.update_of_ne it] at piped socketA socketB
        exact .inl ⟨usedA, usedB, i, piped, socketA, socketB⟩

/-- Only a connection turns a pair on. -/
theorem joined_switch (a b : ChannelId) :
    Runs.Switch eventStep Audible (fun m => Joined m.kernel a b) (ConnectsChannels a b) where
  keeps := eventStep_audible
  sets := by
    rintro m e - ⟨op, rfl, connects⟩
    exact connects.joined
  only := by
    intro m e audible joined
    have same : (eventStep m e).kernel.channels = m.kernel.channels →
        (eventStep m e).kernel.nng = m.kernel.nng → Joined m.kernel a b := by
      intro channels nng
      unfold Joined at joined ⊢
      rwa [channels, nng] at joined
    cases e with
    | call op =>
        exact (joined.of_rewired audible.wired (step_rewired m.kernel op)).imp_right
          fun connects => ⟨op, rfl, connects⟩
    | sysExit code =>
        obtain ⟨-, channels, nng, -⟩ := m.sysExit_frame code
        exact .inl (same channels nng)
    | sysYield => exact .inl joined
    | logTransaction entry =>
        obtain ⟨-, channels, nng, -⟩ := m.logTransaction_frame entry
        exact .inl (same channels nng)
    | fault a =>
        have reported := m.auditorFault_reported a
        exact .inl (same reported.channels reported.nng)
    | workflow owner a =>
        have reported := m.auditorWorkflow_reported owner a
        exact .inl (same reported.channels reported.nng)
    | auditorTick => exact .inl (same m.auditorTick_frame.1 m.auditorTick_frame.2.1)

/-! ## The rebuilt graph along a run -/

/-- The rebuilt graph contains what the run created and connected, each channel with the data
of its last creation. -/
structure Rebuilt (start : Machine) (events : List Event) (m : Machine) : Prop where
  audible : Audible m
  nodes : ∀ n node, m.graph.channels n = some node → ∃ c : ChannelId, c.val = n ∧
    Runs.Happens eventStep (CreatesChannel c) start events
  created : ∀ c : ChannelId, Runs.Happens eventStep (CreatesChannel c) start events →
    (m.graph.channels c.val).isSome = true
  current : ∀ c : ChannelId, (m.kernel.channels c).inUse = true →
    m.graph.channels c.val = some (channelNode c (m.kernel.channels c))
  edges : ∀ a b, (a, b) ∈ m.graph.chanEdges ↔ ∃ c d : ChannelId, c.val = a ∧ d.val = b ∧
    Runs.Happens eventStep (ConnectsChannels c d) start events

section Kept

variable {start m m' : Machine} {events : List Event} {e : Event}

/-- An event that leaves the nodes alone. -/
theorem Rebuilt.nodes_kept (h : Rebuilt start events m)
    (nodes : m'.graph.channels = m.graph.channels) (n : Nat) (node : GraphChannel)
    (here : m'.graph.channels n = some node) :
    ∃ c : ChannelId, c.val = n ∧
      Runs.Happens eventStep (CreatesChannel c) start (events ++ [e]) := by
  rw [nodes] at here
  obtain ⟨c, eq, happened⟩ := h.nodes n node here
  exact ⟨c, eq, Runs.happens_concat.mpr (.inl happened)⟩

theorem Rebuilt.created_kept (h : Rebuilt start events m)
    (creates : ∀ c, ¬CreatesChannel c (Runs.after eventStep start events) e)
    (nodes : m'.graph.channels = m.graph.channels) (c : ChannelId)
    (happened : Runs.Happens eventStep (CreatesChannel c) start (events ++ [e])) :
    (m'.graph.channels c.val).isSome = true := by
  rw [nodes]
  exact h.created c ((Runs.happens_concat.mp happened).resolve_right (creates c))

end Kept

theorem Rebuilt.concat {start : Machine} {events : List Event} {e : Event}
    (h : Rebuilt start events (Runs.after eventStep start events)) :
    Rebuilt start (events ++ [e]) (eventStep (Runs.after eventStep start events) e) := by
  have news := eventStep_channelNews h.audible.enabled e
  have audible := eventStep_audible _ e h.audible
  generalize eventStep (Runs.after eventStep start events) e = m' at news audible
  cases news with
  | none creates connects nodes edges kept =>
      refine ⟨audible, h.nodes_kept nodes, h.created_kept creates nodes, ?_, ?_⟩
      · intro c used
        rw [nodes, kept c used]
        exact h.current c (by rw [← kept c used]; exact used)
      · intro a b
        simp only [edges, h.edges, Runs.happens_concat, connects, or_false]
  | created c creates connects used nodes edges kept =>
      refine ⟨audible, ?_, ?_, ?_, ?_⟩
      · intro n node here
        rw [nodes] at here
        by_cases it : n = c.val
        · exact ⟨c, it.symm, Runs.happens_concat.mpr (.inr ((creates c).mpr rfl))⟩
        · rw [Function.update_of_ne it] at here
          obtain ⟨c', eq, happened⟩ := h.nodes n node here
          exact ⟨c', eq, Runs.happens_concat.mpr (.inl happened)⟩
      · intro c' happened
        rw [nodes]
        by_cases it : c' = c
        · rw [it, Function.update_self]
          rfl
        · rw [Function.update_of_ne (fun same => it (Fin.ext same))]
          exact h.created c' ((Runs.happens_concat.mp happened).resolve_right
            fun now => it ((creates c').mp now))
      · intro c' used'
        rw [nodes]
        by_cases it : c' = c
        · rw [it, Function.update_self]
        · rw [Function.update_of_ne (fun same => it (Fin.ext same)), kept c' it]
          exact h.current c' (by rw [← kept c' it]; exact used')
      · intro a b
        simp only [edges, h.edges, Runs.happens_concat, connects, or_false]
  | connected a b creates connects nodes edges kept =>
      refine ⟨audible, h.nodes_kept nodes, h.created_kept creates nodes, ?_, ?_⟩
      · intro c used
        rw [kept] at used
        rw [nodes, kept]
        exact h.current c used
      · intro a' b'
        rw [edges, Finset.mem_insert, Prod.mk.injEq, h.edges]
        simp only [Runs.happens_concat, connects]
        constructor
        · rintro (⟨rfl, rfl⟩ | ⟨c, d, eq, eq', happened⟩)
          · exact ⟨a, b, rfl, rfl, .inr ⟨rfl, rfl⟩⟩
          · exact ⟨c, d, eq, eq', .inl happened⟩
        · rintro ⟨c, d, eq, eq', happened | ⟨rfl, rfl⟩⟩
          · exact .inr ⟨c, d, eq, eq', happened⟩
          · exact .inl ⟨eq.symm, eq'.symm⟩

theorem auditorInit_audible (k : System) (statics : Statics) :
    Audible (auditorInit (initIpc k) statics) :=
  ⟨rfl, (initIpc_wired k).of_same rfl rfl⟩

theorem rebuilt_after (k : System) (statics : Statics) (events : List Event) :
    Rebuilt (auditorInit (initIpc k) statics) events
      (Runs.after eventStep (auditorInit (initIpc k) statics) events) := by
  refine Runs.run_history (P := Rebuilt (auditorInit (initIpc k) statics)) ?_
    (fun _ _ h _ => h.concat) (Runs.meets_true _ events)
  refine ⟨auditorInit_audible k statics, ?_, ?_, ?_, ?_⟩
  · intro n node here
    cases here
  · intro c happened
    cases happened
  · intro c used
    simp [auditorInit, initIpc] at used
  · intro a b
    constructor
    · intro member
      exact absurd member (Finset.notMem_empty _)
    · rintro ⟨_, _, _, _, happened⟩
      exact happened.elim

/-- In every run after `auditor_init` that starts without channels, folding the records gives
exactly the open channels and the joined pairs if and only if each channel the run closed and
each pair it separated came back later. -/
theorem replay_exact_iff (k : System) (statics : Statics) (events : List Event) :
    ChannelGraphExact (Runs.after eventStep (auditorInit (initIpc k) statics) events).kernel
        (replay
          (Runs.after eventStep (auditorInit (initIpc k) statics) events).kernel.auditor.stream) ↔
      Restored (auditorInit (initIpc k) statics) events := by
  have rebuilt := rebuilt_after k statics events
  have audible := auditorInit_audible k statics
  have closed : ∀ c, ¬((auditorInit (initIpc k) statics).kernel.channels c).inUse = true := by
    simp [auditorInit, initIpc]
  have apart : ∀ a b, ¬Joined (auditorInit (initIpc k) statics).kernel a b :=
    fun a b joined => closed a joined.1
  simp only [Restored, ← (channel_switch _).resumes_iff audible,
    ← (joined_switch _ _).resumes_iff audible, closed, apart, Bool.false_eq_true, false_or]
  constructor
  · intro same
    refine ⟨fun c happened => ?_, fun a b happened => ?_⟩
    · obtain ⟨node, here⟩ := Option.isSome_iff_exists.mp (rebuilt.created c happened)
      obtain ⟨c', eq, used, -⟩ := (same.channels c.val node).mp here
      obtain rfl := Fin.ext eq
      exact used
    · obtain ⟨c, d, eq, eq', joined⟩ :=
        (same.edges a.val b.val).mp ((rebuilt.edges _ _).mpr ⟨a, b, rfl, rfl, happened⟩)
      obtain rfl := Fin.ext eq
      obtain rfl := Fin.ext eq'
      exact joined
  · rintro ⟨stillOpen, stillJoined⟩
    refine ⟨fun n node => ⟨fun here => ?_, ?_⟩, fun a b => ?_⟩
    · obtain ⟨c, rfl, happened⟩ := rebuilt.nodes n node here
      have current := rebuilt.current c (stillOpen c happened)
      exact ⟨c, rfl, stillOpen c happened, Option.some.inj (here.symm.trans current)⟩
    · rintro ⟨c, rfl, used, rfl⟩
      exact rebuilt.current c used
    · refine (rebuilt.edges a b).trans ⟨?_, ?_⟩
      · rintro ⟨c, d, eq, eq', happened⟩
        exact ⟨c, d, eq, eq', stillJoined c d happened⟩
      · rintro ⟨c, d, eq, eq', joined⟩
        have happened := (joined_switch c d).happened audible joined
        exact ⟨c, d, eq, eq', happened.resolve_left (apart c d)⟩

/-- A channel is created and closed again. -/
def openedAndClosed : List Event :=
  [.call (.ipcCreateChannel 0 0 capAll Protocol.push0.code), .call (.ipcCloseChannel 0)]

/-- The rebuilt graph still has the channel. -/
theorem replay_keeps_closed_channel :
    ¬ChannelGraphExact
      (Runs.after eventStep (auditorInit (boot sampleImage) zeroStatics) openedAndClosed).kernel
      (replay (Runs.after eventStep (auditorInit (boot sampleImage) zeroStatics)
        openedAndClosed).kernel.auditor.stream) := by
  intro same
  have closed : ∀ c, ((Runs.after eventStep (auditorInit (boot sampleImage) zeroStatics)
      openedAndClosed).kernel.channels c).inUse = false := by decide +kernel
  have kept : (replay (Runs.after eventStep (auditorInit (boot sampleImage) zeroStatics)
      openedAndClosed).kernel.auditor.stream).channels 0 = some ⟨0, 1, 15, 0⟩ := by decide +kernel
  obtain ⟨c, -, used, -⟩ := (same.channels 0 _).mp kept
  rw [closed c] at used
  cases used

end LughOS.Kernel

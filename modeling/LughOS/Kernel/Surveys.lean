import LughOS.Kernel.RequestReply

/-!
# Surveys and their answers

A survey has no identity of its own. Whether one is open is a flag and a deadline of the
SURVEYOR, and where the answer of a RESPONDENT goes is a register that a delivery sets, not the
reception. Which survey an answer is meant for is therefore written down beside the sockets: the
surveys of a surveyor are numbered, each queued message has a note, and a respondent remembers
the survey that it received last. A note of a queued survey names it; a note of a queued answer
names the survey that its sender had received last, and when it was sent.

An answer is fresh if it is meant for the most recent survey of the surveyor and was in time for
it. `survey_answers_fresh_iff` gives the calls after which a surveyor can receive another one.
-/

namespace LughOS.Kernel

open Bytes

/-! ## Runs -/

structure Survey where
  surveyor : SocketId
  round : Nat
  deriving DecidableEq

structure Note where
  survey : Option Survey
  sentAt : BitVec 64
  deriving DecidableEq

/-- The sockets and the clock, with the number and the time of the last survey of each surveyor,
the notes of the queued messages and the survey each respondent received last. -/
structure Panel where
  nng : Nng
  now : BitVec 64
  rounds : SocketId → Nat
  begun : SocketId → BitVec 64
  notes : SocketId → List Note
  latest : SocketId → Option Survey

inductive PanelOp where
  /-- `nng_send` on a SURVEYOR. -/
  | survey (v : SocketId) (msg : Nat)
  /-- `nng_send` on a RESPONDENT. -/
  | answer (r : SocketId) (msg : Nat)
  /-- `nng_recv` on a socket of either kind. -/
  | recv (d : SocketId)
  | tick (jiffies : BitVec 64)
  | msgAlloc (size : Nat)
  | msgAppend (msg : Nat) (data : Data)
  | msgFree (msg : Nat)

/-- A handle of the socket with this index; nothing but the index is read from it. -/
def handleOf (id : SocketId) : NngSocket := ⟨some id, 0, 0⟩

namespace Panel

variable (t : Panel)

def send (id : SocketId) (msg : Nat) : Rv × Nng := nngSend t.nng t.now (handleOf id) msg

/-- The notes after a call that leads to `n'`; what it queues gets this note. -/
def noted (n' : Nng) (note : Note) (d : SocketId) : List Note :=
  t.notes d ++ List.replicate (added t.nng n' d) note

def surveyed (v : SocketId) (msg : Nat) : Panel :=
  let (rv, n') := t.send v msg
  if rv = .ok then
    { t with
      nng := n'
      rounds := Function.update t.rounds v (t.rounds v + 1)
      begun := Function.update t.begun v t.now
      notes := t.noted n' ⟨some ⟨v, t.rounds v + 1⟩, t.now⟩ }
  else { t with nng := n' }

def answered (r : SocketId) (msg : Nat) : Panel :=
  let (_, n') := t.send r msg
  { t with nng := n', notes := t.noted n' ⟨t.latest r, t.now⟩ }

def received (d : SocketId) : Panel :=
  let (result, n') := nngRecv t.nng t.now (handleOf d)
  match result, t.notes d with
  | .ok _, note :: rest =>
      { t with
        nng := n'
        notes := Function.update t.notes d rest
        latest := Function.update t.latest d note.survey }
  | _, _ => { t with nng := n' }

end Panel

/-- One call. The runs consist of sends on surveyors and respondents; a send on another socket is
not one of their calls. -/
def panelStep (t : Panel) : PanelOp → Panel
  | .survey v msg => if Audience t.nng .surveyor0 v then t.surveyed v msg else t
  | .answer r msg => if Audience t.nng .respondent0 r then t.answered r msg else t
  | .recv d => t.received d
  | .tick jiffies => { t with now := t.now + jiffies }
  | .msgAlloc size => { t with nng := nngStep t.nng (.msgAlloc size) }
  | .msgAppend msg data => { t with nng := nngStep t.nng (.msgAppend msg data) }
  | .msgFree msg => { t with nng := nngStep t.nng (.msgFree msg) }

/-- Sockets with any wiring, before anything has been sent. -/
def Panel.start (n : Nng) (now : BitVec 64) : Panel where
  nng := { n with
    recvQueues := fun _ => []
    sockState := fun d => { n.sockState d with respondentSrc := none, surveyActive := false } }
  now := now
  rounds := fun _ => 0
  begun := fun _ => now
  notes := fun _ => []
  latest := fun _ => none

/-! ## Freshness -/

/-- The answer is meant for the most recent survey of `v`, and was sent no later than at its
deadline. -/
def FreshAnswer (t : Panel) (v : SocketId) (note : Note) : Prop :=
  note.survey = some ⟨v, t.rounds v⟩ ∧ note.sentAt ≤ t.begun v + surveyorTimeoutTicks

/-- What `nng_recv` returns on a surveyor is fresh. -/
def ReceivesFresh (t : Panel) (v : SocketId) : Prop :=
  Audience t.nng .surveyor0 v → ∀ msg n',
    nngRecv t.nng t.now (handleOf v) = (.ok msg, n') →
      ∃ note ∈ (t.notes v).head?, FreshAnswer t v note

/-- A survey is sent when all answers have been received, and an answer is delivered while its
sender has received the most recent survey last. -/
def Current (t : Panel) : PanelOp → Prop
  | .survey v msg => Audience t.nng .surveyor0 v → (t.send v msg).1 = .ok →
      t.nng.recvQueues v = []
  | .answer r msg => Audience t.nng .respondent0 r → (t.send r msg).1 = .ok →
      ∀ y, (t.nng.sockState r).respondentSrc = some y → t.latest r = some ⟨y, t.rounds y⟩
  | _ => True

/-- All queued answers are fresh. -/
def AnswersFresh (t : Panel) : Prop :=
  ∀ v, Audience t.nng .surveyor0 v → ∀ note ∈ t.notes v, FreshAnswer t v note

/-! ## The invariant -/

/-- Every queued message has its note, return addresses are those of surveyors, and the deadline
of an open survey is that of the most recent one. -/
structure Panel.Kept (t : Panel) : Prop where
  lengths : ∀ d, (t.notes d).length = (t.nng.recvQueues d).length
  source : ∀ r y, (t.nng.sockState r).respondentSrc = some y → Audience t.nng .surveyor0 y
  window : ∀ y, (t.nng.sockState y).surveyActive = true →
    (t.nng.sockState y).surveyDeadline = t.begun y + surveyorTimeoutTicks

theorem kept_start (n : Nng) (now : BitVec 64) : (Panel.start n now).Kept where
  lengths := fun _ => rfl
  source := by simp [Panel.start]
  window := by simp [Panel.start]

/-! ## What the sends do -/

variable {n n' : Nng} {id : SocketId} {msg : Nat} {now : BitVec 64} {t : Panel}

/-- The survey window of a socket. -/
def SocketState.window (st : SocketState) : Bool × BitVec 64 := (st.surveyActive, st.surveyDeadline)

theorem nngSend_handle (n : Nng) (now : BitVec 64) (id : SocketId) (msg : Nat) :
    nngSend n now (handleOf id) msg = (.einval, n) ∨
      nngSend n now (handleOf id) msg =
        ((route n now id msg).1, (route n now id msg).2.freeMsg msg) := by
  unfold nngSend
  split
  · exact .inl rfl
  split
  · exact .inl rfl
  · rename_i d found
    obtain ⟨same, -⟩ := Nng.valid?_eq_some.mp found
    obtain rfl : id = d := Option.some.inj same
    exact .inr rfl

/-- A call without effect on queues and routing. -/
structure Idle (n n' : Nng) : Prop where
  socketPool : n'.socketPool = n.socketPool
  recvQueues : n'.recvQueues = n.recvQueues
  sockState : n'.sockState = n.sockState

/-- A survey of `v` that has been sent: only queues of other sockets grow, only `v` becomes a
return address, and only its window opens. -/
structure SurveySent (v : SocketId) (now : BitVec 64) (n n' : Nng) : Prop where
  socketPool : n'.socketPool = n.socketPool
  grown : ∀ d, n.recvQueues d <+: n'.recvQueues d
  surveyors : ∀ d, Audience n .surveyor0 d → n'.recvQueues d = n.recvQueues d
  source : ∀ r y, (n'.sockState r).respondentSrc = some y →
    (n.sockState r).respondentSrc = some y ∨ y = v
  opened : (n'.sockState v).window = (true, now + surveyorTimeoutTicks)
  others : ∀ d, d ≠ v → (n'.sockState d).window = (n.sockState d).window

/-- A call of a respondent: the windows stay, and return addresses can only be cleared. -/
structure AnswerSent (n n' : Nng) : Prop where
  socketPool : n'.socketPool = n.socketPool
  source : ∀ r y, (n'.sockState r).respondentSrc = some y →
    (n.sockState r).respondentSrc = some y
  windows : ∀ d, (n'.sockState d).window = (n.sockState d).window

theorem survey_window (id : SocketId) (msg : Nat) (n : Nng) (peer d : SocketId) :
    ((survey id msg n peer).sockState d).window = (n.sockState d).window := by
  have state := deliverCopy_sockState n peer msg
  unfold survey
  split
  · rename_i n' delivered
    rw [delivered] at state
    rw [← state]
    by_cases here : d = peer
    · subst here
      simp [Nng.setState, SocketState.window]
    · simp [Nng.setState, here]
  · rename_i delivered
    rw [delivered] at state
    rw [← state]

theorem surveys_window (id : SocketId) (msg : Nat) (peers : List SocketId) (n : Nng)
    (d : SocketId) :
    ((peers.foldl (survey id msg) n).sockState d).window = (n.sockState d).window := by
  induction peers generalizing n with
  | nil => rfl
  | cons peer peers ih => exact (ih _).trans (survey_window id msg n peer d)

/-- A surveyor reaches respondents only. -/
theorem target_of_surveyor {d : SocketId} (mine : Audience n .surveyor0 id)
    (target : Target n id d) : (n.socketPool d).protocol = Protocol.respondent0.code := by
  cases target with
  | pipe i used src dst speaks =>
      obtain ⟨mine', theirs, peer, protocol, listens⟩ := speaks
      obtain rfl := Protocol.code_inj (protocol.symm.trans mine.2)
      obtain rfl : .respondent0 = theirs := Option.some.inj peer
      exact listens
  | bus i used src dst mine' theirs =>
      exact absurd (Protocol.code_inj (mine'.symm.trans mine.2)) (by decide)
  | reply mine' address valid =>
      exact absurd (Protocol.code_inj (mine'.symm.trans mine.2)) (by decide)
  | answer mine' address valid =>
      exact absurd (Protocol.code_inj (mine'.symm.trans mine.2)) (by decide)

theorem Panel.send_surveyor (mine : Audience t.nng .surveyor0 id) (msg : Nat) :
    ((t.send id msg).1 ≠ .ok ∧ Idle t.nng (t.send id msg).2) ∨
      ((t.send id msg).1 = .ok ∧ SurveySent id t.now t.nng (t.send id msg).2) := by
  unfold Panel.send
  rcases nngSend_handle t.nng t.now id msg with refused | sent
  · rw [refused]
    exact .inl ⟨by simp, rfl, rfl, rfl⟩
  have routes := route_routes t.nng t.now id msg
  rw [sent]
  rw [route_of_protocol mine.2] at routes ⊢
  cases peers : collectPeers t.nng id .respondent0 with
  | nil =>
      have none : sendAs t.nng t.now id msg .surveyor0 = (.enotsup, t.nng) := by
        simp only [sendAs, sendSurveyor, peers]
      rw [none]
      exact .inl ⟨by simp, rfl, rfl, rfl⟩
  | cons first rest =>
      have broadcast : sendAs t.nng t.now id msg .surveyor0 =
          (.ok, ((first :: rest).foldl (survey id msg) t.nng).setState id fun st =>
            { st with surveyActive := true, surveyDeadline := t.now + surveyorTimeoutTicks }) := by
        simp only [sendAs, sendSurveyor, peers]
      rw [broadcast] at routes ⊢
      refine .inr ⟨rfl, routes.socketPool, fun d => (routes.queues d).1, fun d surveyor => ?_,
        fun r y address => ?_, ?_, fun d other => ?_⟩
      · by_contra grown
        have respondent := target_of_surveyor mine ((routes.queues d).2 grown)
        exact absurd (Protocol.code_inj (surveyor.2.symm.trans respondent)) (by decide)
      · rcases (routes.readdressed r).answer with old | none | ⟨new, -⟩
        · exact .inl (old.symm.trans address)
        · exact absurd (none.symm.trans address) (by simp)
        · exact .inr (Option.some.inj (address.symm.trans new))
      · simp [Nng.freeMsg, Nng.setState, SocketState.window]
      · have same := surveys_window id msg (first :: rest) t.nng d
        simpa [Nng.freeMsg, Nng.setState, other] using same

/-- An answer that is not refused is delivered to the surveyor whose window is open. -/
def ReachesSource (t : Panel) (r : SocketId) (n' : Nng) : Prop :=
  ∃ y copy, (t.nng.sockState r).respondentSrc = some y ∧
    (t.nng.sockState y).surveyActive = true ∧ t.now ≤ (t.nng.sockState y).surveyDeadline ∧
    n'.recvQueues = Function.update t.nng.recvQueues y (t.nng.recvQueues y ++ [copy])

theorem Panel.send_respondent (mine : Audience t.nng .respondent0 id) (msg : Nat) :
    AnswerSent t.nng (t.send id msg).2 ∧
      (((t.send id msg).1 ≠ .ok ∧ (t.send id msg).2.recvQueues = t.nng.recvQueues) ∨
        ((t.send id msg).1 = .ok ∧ ReachesSource t id (t.send id msg).2)) := by
  unfold Panel.send
  rcases nngSend_handle t.nng t.now id msg with refused | sent
  · rw [refused]
    exact ⟨⟨rfl, fun _ _ old => old, fun _ => rfl⟩, .inl ⟨by simp, rfl⟩⟩
  -- the return address of the sender is cleared, and nothing else of the routing state changes
  have cleared : ∀ {n' : Nng}, n'.socketPool = t.nng.socketPool →
      n'.sockState = t.nng.sockState → AnswerSent t.nng
        ((n'.setState id fun st => { st with respondentSrc := none }).freeMsg msg) := by
    intro n' sockets state
    refine ⟨sockets, fun r y address => ?_, fun d => ?_⟩
    · by_cases here : r = id
      · subst here
        simp [Nng.freeMsg, Nng.setState] at address
      · simpa [Nng.freeMsg, Nng.setState, here, state] using address
    · by_cases here : d = id
      · subst here
        simp [Nng.freeMsg, Nng.setState, state, SocketState.window]
      · simp [Nng.freeMsg, Nng.setState, here, state]
  have routed : route t.nng t.now id msg = sendRespondent t.nng t.now id msg :=
    route_of_protocol mine.2
  rw [sent, routed]
  unfold sendRespondent
  split
  · exact ⟨⟨rfl, fun _ _ old => old, fun _ => rfl⟩, .inl ⟨by simp, rfl⟩⟩
  rename_i y found
  obtain ⟨address, -⟩ := Nng.valid?_eq_some.mp found
  split
  · exact ⟨cleared rfl rfl, .inl ⟨by simp, rfl⟩⟩
  rename_i inTime
  rw [not_or, Bool.not_eq_false, gt_iff_lt, BitVec.not_lt] at inTime
  refine ⟨cleared (deliverCopy_sameWiring t.nng y msg).socketPool
    (deliverCopy_sockState t.nng y msg), ?_⟩
  rcases deliverCopy_outcome t.nng y msg with ⟨failed, queues⟩ | ⟨ok, copy, queues⟩
  · exact .inl ⟨failed, queues⟩
  · exact .inr ⟨ok, y, copy, address, inTime.1, inTime.2, queues⟩

/-- What a reception can do to the routing state: an open window closes. -/
structure Expires (n n' : Nng) : Prop where
  socketPool : n'.socketPool = n.socketPool
  source : ∀ r, (n'.sockState r).respondentSrc = (n.sockState r).respondentSrc
  window : ∀ y, (n'.sockState y).surveyActive = true →
    (n'.sockState y).window = (n.sockState y).window

theorem expireSurvey_expires (n : Nng) (now : BitVec 64) (d : SocketId) :
    Expires n (expireSurvey n now d) := by
  have wiring := expireSurvey_sameWiring n now d
  refine ⟨wiring.socketPool, wiring.answer, fun y active => ?_⟩
  unfold expireSurvey at active ⊢
  split
  · rename_i late
    by_cases here : y = d
    · subst here
      simp [Nng.setState, late] at active
    · simp [Nng.setState, here]
  · rfl

theorem nngRecv_handle (n : Nng) (now : BitVec 64) (d : SocketId) :
    (∃ rv n', nngRecv n now (handleOf d) = (.error rv, n') ∧
        (n.socketValid d = false ∨ n.recvQueues d = []) ∧ n'.recvQueues = n.recvQueues ∧
        Expires n n') ∨
      ∃ msg rest n', nngRecv n now (handleOf d) = (.ok msg, n') ∧
        n.recvQueues d = msg :: rest ∧
        n'.recvQueues = Function.update n.recvQueues d rest ∧ Expires n n' := by
  unfold nngRecv
  split
  · rename_i closed
    refine .inl ⟨_, _, rfl, .inl ?_, rfl, rfl, fun _ => rfl, fun _ _ => rfl⟩
    simpa [Nng.valid?, handleOf, Option.filter] using closed
  rename_i e found
  obtain ⟨same, -⟩ := Nng.valid?_eq_some.mp found
  obtain rfl : d = e := Option.some.inj same
  have expires := expireSurvey_expires n now d
  have queues := expireSurvey_recvQueues n now d
  dsimp only
  split
  · rename_i empty
    exact .inl ⟨_, _, rfl, .inr (by rw [← queues, empty]), queues, expires⟩
  · rename_i msg rest queue
    refine .inr ⟨msg, rest, _, rfl, by rw [← queues, queue], ?_, expires.socketPool,
      expires.source, expires.window⟩
    rw [queues]

/-! ## The steps -/

theorem surveyed_of_failed {v : SocketId} (failed : (t.send v msg).1 ≠ .ok) :
    t.surveyed v msg = { t with nng := (t.send v msg).2 } := by
  simp only [Panel.surveyed, failed, if_false]

theorem surveyed_of_ok {v : SocketId} (ok : (t.send v msg).1 = .ok) :
    t.surveyed v msg =
      { t with
        nng := (t.send v msg).2
        rounds := Function.update t.rounds v (t.rounds v + 1)
        begun := Function.update t.begun v t.now
        notes := t.noted (t.send v msg).2 ⟨some ⟨v, t.rounds v + 1⟩, t.now⟩ } := by
  simp only [Panel.surveyed, ok, if_true]

theorem answered_eq (t : Panel) (r : SocketId) (msg : Nat) :
    t.answered r msg =
      { t with
        nng := (t.send r msg).2
        notes := t.noted (t.send r msg).2 ⟨t.latest r, t.now⟩ } := rfl

namespace Panel

/-- A call that queues nothing leaves the notes alone. -/
theorem noted_same {note : Note} {d : SocketId} (same : n'.recvQueues d = t.nng.recvQueues d) :
    t.noted n' note d = t.notes d := by
  simp [noted, added, same]

theorem noted_append {note : Note} {d : SocketId} {copy : Nat}
    (grown : n'.recvQueues d = t.nng.recvQueues d ++ [copy]) :
    t.noted n' note d = t.notes d ++ [note] := by
  simp [noted, added, grown]

theorem Kept.noted_length (kept : t.Kept) {note : Note} {d : SocketId}
    (grown : t.nng.recvQueues d <+: n'.recvQueues d) :
    (t.noted n' note d).length = (n'.recvQueues d).length := by
  have longer := grown.length_le
  simp only [noted, List.length_append, List.length_replicate, kept.lengths d, added]
  omega

/-- A window that stays as it is still closes when the invariant says. -/
theorem Kept.deadline (kept : t.Kept) {y : SocketId}
    (same : (n'.sockState y).window = (t.nng.sockState y).window)
    (active : (n'.sockState y).surveyActive = true) :
    (n'.sockState y).surveyDeadline = t.begun y + surveyorTimeoutTicks := by
  obtain ⟨still, deadline⟩ := Prod.mk.inj same
  rw [deadline]
  exact kept.window y (still.symm.trans active)

/-- What the windows and return addresses of the invariant are is not changed by a call that
keeps both. -/
theorem Kept.of_expires (kept : t.Kept) {notes : SocketId → List Note}
    {latest : SocketId → Option Survey} {now : BitVec 64} (expires : Expires t.nng n')
    (lengths : ∀ d, (notes d).length = (n'.recvQueues d).length) :
    Kept { t with nng := n', notes, latest, now } where
  lengths := lengths
  source := fun r y address => by
    have old := kept.source r y ((expires.source r).symm.trans address)
    exact (Audience.congr expires.socketPool).mpr old
  window := fun y active => kept.deadline (expires.window y active) active

theorem Kept.surveyed (kept : t.Kept) {v : SocketId} (mine : Audience t.nng .surveyor0 v)
    (msg : Nat) : (t.surveyed v msg).Kept := by
  rcases send_surveyor mine msg with ⟨failed, idle⟩ | ⟨ok, sent⟩
  · rw [surveyed_of_failed failed]
    refine kept.of_expires ⟨idle.socketPool, fun r => ?_, fun y _ => ?_⟩ fun d => ?_
    · rw [idle.sockState]
    · rw [idle.sockState]
    · rw [idle.recvQueues]
      exact kept.lengths d
  · rw [surveyed_of_ok ok]
    refine ⟨fun d => kept.noted_length (sent.grown d), fun r y address => ?_,
      fun y active => ?_⟩
    · have surveyor : Audience t.nng .surveyor0 y := by
        rcases sent.source r y address with old | rfl
        · exact kept.source r y old
        · exact mine
      exact (Audience.congr sent.socketPool).mpr surveyor
    · by_cases here : y = v
      · subst here
        simpa only [Function.update_self] using (Prod.mk.inj sent.opened).2
      · simpa only [Function.update_of_ne here] using kept.deadline (sent.others y here) active

theorem Kept.answered (kept : t.Kept) {r : SocketId} (mine : Audience t.nng .respondent0 r)
    (msg : Nat) : (t.answered r msg).Kept := by
  obtain ⟨sent, outcome⟩ := send_respondent mine msg
  rw [answered_eq]
  refine ⟨fun d => kept.noted_length ?_, fun r y address => ?_, fun y active => ?_⟩
  · rcases outcome with ⟨-, queues⟩ | ⟨-, y, copy, -, -, -, queues⟩
    · rw [queues]
    · rw [queues]
      by_cases here : d = y
      · subst here
        simp
      · simp [here]
  · have surveyor := kept.source r y (sent.source r y address)
    exact (Audience.congr sent.socketPool).mpr surveyor
  · exact kept.deadline (sent.windows y) active

/-- A reception takes the first message together with its note, or nothing. -/
theorem Kept.received_cases (kept : t.Kept) (d : SocketId) :
    (∃ rv n', nngRecv t.nng t.now (handleOf d) = (.error rv, n') ∧
        (t.nng.socketValid d = false ∨ t.notes d = []) ∧
        t.received d = { t with nng := n' } ∧ n'.recvQueues = t.nng.recvQueues ∧
        Expires t.nng n') ∨
      ∃ msg rest note notes n', nngRecv t.nng t.now (handleOf d) = (.ok msg, n') ∧
        t.notes d = note :: notes ∧
        t.received d = { t with
          nng := n'
          notes := Function.update t.notes d notes
          latest := Function.update t.latest d note.survey } ∧
        t.nng.recvQueues d = msg :: rest ∧
        n'.recvQueues = Function.update t.nng.recvQueues d rest ∧ Expires t.nng n' := by
  rcases nngRecv_handle t.nng t.now d with
    ⟨rv, n', result, nothing, queues, expires⟩ |
    ⟨msg, rest, n', result, queue, queues, expires⟩
  · refine .inl ⟨rv, n', result, nothing.imp_right fun empty => ?_,
      by simp only [received, result], queues, expires⟩
    rw [← List.length_eq_zero_iff, kept.lengths, empty, List.length_nil]
  · have length := kept.lengths d
    rw [queue] at length
    obtain ⟨note, notes, here⟩ := List.exists_cons_of_length_eq_add_one length
    exact .inr ⟨msg, rest, note, notes, n', result, here, by simp only [received, result, here],
      queue, queues, expires⟩

theorem Kept.received (kept : t.Kept) (d : SocketId) : (t.received d).Kept := by
  rcases kept.received_cases d with
    ⟨rv, n', -, -, eq, queues, expires⟩ |
    ⟨msg, rest, note, notes, n', -, here, eq, queue, queues, expires⟩
  · rw [eq]
    exact kept.of_expires expires fun d => by rw [queues]; exact kept.lengths d
  · rw [eq]
    refine kept.of_expires expires fun e => ?_
    rw [queues]
    by_cases it : e = d
    · subst it
      have length := kept.lengths e
      rw [here, queue] at length
      simpa using length
    · simpa only [Function.update_of_ne it] using kept.lengths e

theorem Kept.step (t : Panel) (op : PanelOp) (kept : t.Kept) : (panelStep t op).Kept := by
  have pool : ∀ (p : Pool), Kept { t with nng := { t.nng with pool := p } } := fun p =>
    ⟨kept.lengths, kept.source, kept.window⟩
  cases op with
  | survey v msg =>
      rw [panelStep]
      split
      · exact kept.surveyed ‹_› msg
      · exact kept
  | answer r msg =>
      rw [panelStep]
      split
      · exact kept.answered ‹_› msg
      · exact kept
  | recv d => exact kept.received d
  | tick jiffies => exact ⟨kept.lengths, kept.source, kept.window⟩
  | msgAlloc size => exact pool _
  | msgAppend msg data => exact pool _
  | msgFree msg => exact pool _

end Panel

/-! ## Freshness along a run -/

/-- A call that neither starts a survey nor queues an answer. -/
theorem AnswersFresh.of_fewer {t' : Panel} (fresh : AnswersFresh t)
    (sockets : t'.nng.socketPool = t.nng.socketPool) (rounds : t'.rounds = t.rounds)
    (begun : t'.begun = t.begun) (notes : ∀ v, t'.notes v ⊆ t.notes v) : AnswersFresh t' := by
  intro v surveyor note here
  rw [Audience.congr sockets] at surveyor
  have before := fresh v surveyor note (notes v here)
  simpa only [FreshAnswer, rounds, begun] using before

/-- A new survey makes every answer that is still queued stale. -/
theorem answersFresh_surveyed_iff (kept : t.Kept) (fresh : AnswersFresh t) {v : SocketId}
    (mine : Audience t.nng .surveyor0 v) :
    AnswersFresh (t.surveyed v msg) ↔ ((t.send v msg).1 = .ok → t.nng.recvQueues v = []) := by
  rcases Panel.send_surveyor mine msg with ⟨failed, idle⟩ | ⟨ok, sent⟩
  · refine iff_of_true ?_ fun ok => absurd ok failed
    rw [surveyed_of_failed failed]
    exact fresh.of_fewer idle.socketPool rfl rfl fun v => List.Subset.refl _
  have empty : t.nng.recvQueues v = [] ↔ t.notes v = [] := by
    rw [← List.length_eq_zero_iff, ← kept.lengths, List.length_eq_zero_iff]
  have same : ∀ d, Audience t.nng .surveyor0 d →
      t.noted (t.send v msg).2 ⟨some ⟨v, t.rounds v + 1⟩, t.now⟩ d = t.notes d :=
    fun d surveyor => Panel.noted_same (sent.surveyors d surveyor)
  rw [surveyed_of_ok ok, empty]
  simp only [ok, forall_const, AnswersFresh, Audience.congr sent.socketPool]
  constructor
  · intro all
    by_contra some
    obtain ⟨note, here⟩ := List.exists_mem_of_ne_nil _ some
    have old := (fresh v mine note here).1
    have new := (all v mine note (by rw [same v mine]; exact here)).1
    dsimp only at new
    rw [Function.update_self, old] at new
    have := congrArg Survey.round (Option.some.inj new)
    simp at this
  · intro none d surveyor note here
    rw [same d surveyor] at here
    by_cases it : d = v
    · subst it
      rw [none] at here
      cases here
    · simpa only [FreshAnswer, Function.update_of_ne it] using fresh d surveyor note here

/-- An answer that is delivered is in time, so it is fresh just if it is meant for the most recent
survey. -/
theorem answersFresh_answered_iff (kept : t.Kept) (fresh : AnswersFresh t) {r : SocketId}
    (mine : Audience t.nng .respondent0 r) :
    AnswersFresh (t.answered r msg) ↔ ((t.send r msg).1 = .ok →
      ∀ y, (t.nng.sockState r).respondentSrc = some y →
        t.latest r = some ⟨y, t.rounds y⟩) := by
  obtain ⟨sent, outcome⟩ := Panel.send_respondent mine msg
  rw [answered_eq]
  rcases outcome with ⟨failed, queues⟩ | ⟨ok, y, copy, address, active, inTime, queues⟩
  · refine iff_of_true ?_ fun ok => absurd ok failed
    refine fresh.of_fewer sent.socketPool rfl rfl fun v => ?_
    dsimp only
    rw [Panel.noted_same (congrFun queues v)]
    exact List.Subset.refl _
  have surveyor := kept.source r y address
  have time : t.now ≤ t.begun y + surveyorTimeoutTicks := kept.window y active ▸ inTime
  have grown : (t.send r msg).2.recvQueues y = t.nng.recvQueues y ++ [copy] := by
    rw [queues, Function.update_self]
  have here : t.noted (t.send r msg).2 ⟨t.latest r, t.now⟩ y =
      t.notes y ++ [⟨t.latest r, t.now⟩] := Panel.noted_append grown
  have other : ∀ d, d ≠ y → t.noted (t.send r msg).2 ⟨t.latest r, t.now⟩ d = t.notes d :=
    fun d apart => Panel.noted_same (by rw [queues, Function.update_of_ne apart])
  simp only [ok, forall_const, address, Option.some.injEq, forall_eq', AnswersFresh,
    Audience.congr sent.socketPool]
  constructor
  · intro all
    exact (all y surveyor ⟨t.latest r, t.now⟩ (by rw [here]; simp)).1
  · intro latest d listens note queued
    by_cases it : d = y
    · subst it
      rw [here, List.mem_append, List.mem_singleton] at queued
      rcases queued with old | rfl
      · exact fresh d listens note old
      · exact ⟨latest, time⟩
    · rw [other d it] at queued
      exact fresh d listens note queued

theorem AnswersFresh.received (kept : t.Kept) (fresh : AnswersFresh t) (d : SocketId) :
    AnswersFresh (t.received d) := by
  rcases kept.received_cases d with
    ⟨rv, n', -, -, eq, -, expires⟩ | ⟨msg, rest, note, notes, n', -, here, eq, -, -, expires⟩
  · rw [eq]
    exact fresh.of_fewer expires.socketPool rfl rfl fun v => List.Subset.refl _
  · rw [eq]
    refine fresh.of_fewer expires.socketPool rfl rfl fun v => ?_
    dsimp only
    by_cases it : v = d
    · subst it
      rw [here, Function.update_self]
      exact List.subset_cons_self _ _
    · rw [Function.update_of_ne it]
      exact List.Subset.refl _

theorem answersFresh_step_iff (t : Panel) (op : PanelOp) (kept : t.Kept)
    (fresh : AnswersFresh t) : AnswersFresh (panelStep t op) ↔ Current t op := by
  cases op with
  | survey v msg =>
      by_cases mine : Audience t.nng .surveyor0 v
      · simpa only [panelStep, Current, mine, if_true, forall_const] using
          answersFresh_surveyed_iff kept fresh mine
      · simpa only [panelStep, Current, mine, if_false, false_imp_iff, iff_true] using fresh
  | answer r msg =>
      by_cases mine : Audience t.nng .respondent0 r
      · simpa only [panelStep, Current, mine, if_true, forall_const] using
          answersFresh_answered_iff kept fresh mine
      · simpa only [panelStep, Current, mine, if_false, false_imp_iff, iff_true] using fresh
  | recv d => exact iff_of_true (fresh.received kept d) trivial
  | tick jiffies => exact iff_of_true fresh trivial
  | msgAlloc size => exact iff_of_true fresh trivial
  | msgAppend msg data => exact iff_of_true fresh trivial
  | msgFree msg => exact iff_of_true fresh trivial

/-! ## What is received -/

/-- Receive on `v` so many times. -/
def receptions (v : SocketId) (k : Nat) : List PanelOp := List.replicate k (.recv v)

theorem AnswersFresh.receivesFresh (fresh : AnswersFresh t) (kept : t.Kept) (v : SocketId) :
    ReceivesFresh t v := by
  intro surveyor msg n' result
  rcases kept.received_cases v with
    ⟨rv, n'', failed, -⟩ | ⟨msg', rest, note, notes, n'', -, here, -⟩
  · rw [failed] at result
    cases result
  · refine ⟨note, by simp [here], fresh v surveyor note (by simp [here])⟩

theorem AnswersFresh.drained (fresh : AnswersFresh t) (kept : t.Kept) (v : SocketId) (k : Nat) :
    ReceivesFresh (Runs.after panelStep t (receptions v k)) v := by
  induction k generalizing t with
  | zero => exact fresh.receivesFresh kept v
  | succ k ih => exact ih (fresh.received kept v) (kept.received v)

/-- The note at place `k` is that of the message received after `k` others. -/
theorem Panel.Kept.fresh_of_received (kept : t.Kept) {v : SocketId}
    (surveyor : Audience t.nng .surveyor0 v) {k : Nat} {note : Note}
    (at_k : (t.notes v)[k]? = some note)
    (received : ReceivesFresh (Runs.after panelStep t (receptions v k)) v) :
    FreshAnswer t v note := by
  induction k generalizing t with
  | zero =>
      rcases kept.received_cases v with
        ⟨rv, n', -, nothing, -⟩ | ⟨msg, rest, note', notes, n', result, here, -⟩
      · have closed := nothing.resolve_right fun empty => by simp [empty] at at_k
        exact absurd (closed.symm.trans surveyor.1) (by decide)
      · obtain ⟨first, at_head, fresh⟩ := received surveyor msg n' result
        obtain rfl : first = note := by
          rw [← List.head?_eq_getElem?] at at_k
          exact Option.some.inj (at_head.symm.trans at_k)
        exact fresh
  | succ k ih =>
      rcases kept.received_cases v with ⟨rv, n', -, nothing, -⟩ |
        ⟨msg, rest, note', notes, n', -, here, eq, -, -, expires⟩
      · have closed := nothing.resolve_right fun empty => by simp [empty] at at_k
        exact absurd (closed.symm.trans surveyor.1) (by decide)
      · have still : Audience (t.received v).nng .surveyor0 v := by
          rw [eq]
          exact (Audience.congr expires.socketPool).mpr surveyor
        have next : ((t.received v).notes v)[k]? = some note := by
          rw [eq]
          simpa [here] using at_k
        have fresh := ih (kept.received v) still next received
        rw [eq] at fresh
        exact fresh

/-- The answers in the queues are those that are received if nothing else happens. -/
theorem answersFresh_iff_received (kept : t.Kept) :
    AnswersFresh t ↔ ∀ v k, ReceivesFresh (Runs.after panelStep t (receptions v k)) v := by
  constructor
  · exact fun fresh v k => fresh.drained kept v k
  · intro all v surveyor note here
    obtain ⟨k, at_k⟩ := List.mem_iff_getElem?.mp here
    exact kept.fresh_of_received surveyor at_k (all v k)

/-- Along a run and after it, whatever a surveyor receives is fresh, just if each survey is sent
when the answers to the one before have been received, and each answer is delivered while its
sender has received the most recent survey last. -/
theorem survey_answers_fresh_iff (n : Nng) (now : BitVec 64) (ops : List PanelOp) :
    (∀ before, before <+: ops → ∀ v k,
      ReceivesFresh (Runs.after panelStep (Panel.start n now) (before ++ receptions v k)) v) ↔
    Runs.Meets panelStep Current (Panel.start n now) ops := by
  have start : AnswersFresh (Panel.start n now) := by
    intro v _ note here
    cases here
  rw [← Runs.throughout_iff_meets (kept_start n now) start Panel.Kept.step answersFresh_step_iff]
  refine forall₂_congr fun before _ => ?_
  have kept : (Runs.after panelStep (Panel.start n now) before).Kept :=
    Runs.invariant_after (kept_start n now) Panel.Kept.step before
  rw [answersFresh_iff_received kept]
  simp only [Runs.after, List.foldl_append]

/-- A surveyor that is connected to a respondent, and a message for each call. -/
def panelSetup : List NngOp :=
  [.socketCreate Protocol.surveyor0.code, .socketCreate Protocol.respondent0.code,
    .connect (socketAt 0) (socketAt 1), .msgAlloc 0, .msgAlloc 0, .msgAlloc 0]

theorem socketNumber_lt (k : Nat) : k % 16 < 16 := Nat.mod_lt k (by decide)

def socketNumber (k : Nat) : SocketId := ⟨k % 16, socketNumber_lt k⟩

/-- The answer to the first survey is received after the second one. -/
def lateReception : List PanelOp :=
  let surveyor : SocketId := socketNumber 0
  let respondent : SocketId := socketNumber 1
  [.survey surveyor 0x800000, .recv respondent, .answer respondent 0x800080,
    .survey surveyor 0x800100]

theorem stale_answer_received :
    let t := Runs.after panelStep
      (Panel.start (Runs.after nngStep (nngInit (boot sampleImage).nng) panelSetup) 0)
      lateReception
    t.rounds 0 = 2 ∧ t.notes 0 = [⟨some ⟨0, 1⟩, 0⟩] ∧
      (nngRecv t.nng t.now (handleOf 0)).1.isOk = true := by
  decide +kernel

end LughOS.Kernel

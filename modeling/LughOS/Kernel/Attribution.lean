import LughOS.Kernel.Accounting

/-!
# Which channel a message record belongs to

A channel number is used again after a close, so a message record says on which channel a
message was sent only together with the last `CHAN_CREATE` record for that number in front
of it. The creation is written at once, while the message waits in `ipc_ring` for a tick:
when a number is recycled while a message for it is still in the ring, the record of that
message ends up behind the `CHAN_CREATE` record of the wrong channel.

`Tracked` runs the machine with a history of creations and of accepted messages.
`message_attribution` assumes that no channel is created on a number for which the ring
still holds a message, and `recycled_channel_misattributed` shows what happens otherwise.
-/

namespace LughOS.Kernel

open Auditor

/-! ## The history -/

/-- An accepted message with the channel it was sent on: its number, and the position in the
stream of the `CHAN_CREATE` record that the call creating it wrote. -/
structure Sending where
  message : Message
  channel : ChannelId
  born : Nat

/-- A machine with its history: for each number the position of the record of its last
creation, and the messages `ring_push` accepted, in order. -/
structure Tracked where
  machine : Machine
  born : ChannelId → Nat
  sent : List Sending

def track (start : Machine) : Tracked := ⟨start, fun _ => 0, []⟩

/-- The channel an event creates. -/
def created? (m : Machine) : Event → Option ChannelId
  | .call (.ipcCreateChannel level domain caps protocol) =>
      channel? (ipcCreateChannel m.kernel level domain caps protocol).1
  | _ => none

/-- The channel and the message of the `ring_push` an event makes, if the ring has room. -/
def sent? (m : Machine) : Event → Option (ChannelId × Message)
  | .call op => (offered m.kernel op).filter fun (_, msg) => (m.ipcRing.push msg).1
  | _ => none

def trackedStep (t : Tracked) (e : Event) : Tracked where
  machine := eventStep t.machine e
  born := fun c =>
    if created? t.machine e = some c then t.machine.kernel.auditor.stream.length else t.born c
  sent := t.sent ++ ((sent? t.machine e).map fun (c, msg) => ⟨msg, c, t.born c⟩).toList

/-- The accepted messages of a run. -/
def sendings (start : Machine) (events : List Event) : List Sending :=
  (Runs.after trackedStep (track start) events).sent

/-! ## The property -/

def CreateRecord (c : Nat) (r : AuditorRecord) : Prop := r.Is .chanCreate ∧ r.channelId.toNat = c

/-- The last `CHAN_CREATE` record for number `c` is at position `p`. -/
def LastCreate (stream : List AuditorRecord) (c p : Nat) : Prop :=
  (∃ r, stream[p]? = some r ∧ CreateRecord c r) ∧
    ∀ q r, p < q → stream[q]? = some r → ¬CreateRecord c r

/-- Each message record was written for the accepted message of the same rank and carries the
number of its channel, and in front of it the last `CHAN_CREATE` record for this number is
the one of the channel on which the message was sent. -/
def Attributed (stream : List AuditorRecord) (sent : List Sending) : Prop :=
  ∀ before r rest, stream = before ++ r :: rest → r.Is .msg →
    ∃ on, sent[(msgRecords before).length]? = some on ∧ Carries r on.message ∧
      r.channelId.toNat = on.channel.val ∧ LastCreate before on.channel.val on.born

/-- The number in the record of a message. -/
def sourceChannel (m : Message) : BitVec 8 := (m.padding1 &&& 0xFF#32).setWidth 8

/-- No channel is created on a number for which the ring holds a message. -/
def ReusesDrained (m : Machine) (e : Event) : Prop :=
  ∀ c, created? m e = some c → ∀ msg ∈ m.ipcRing.contents, (sourceChannel msg).toNat ≠ c.val

instance (m : Machine) (e : Event) : Decidable (ReusesDrained m e) :=
  inferInstanceAs (Decidable (∀ c, created? m e = some c → ∀ msg ∈ m.ipcRing.contents,
    (sourceChannel msg).toNat ≠ c.val))

/-! ## Streams that grow -/

section Streams

variable {stream records : List AuditorRecord} {sent : List Sending} {c p : Nat}

theorem LastCreate.append (last : LastCreate stream c p)
    (others : ∀ r ∈ records, ¬CreateRecord c r) : LastCreate (stream ++ records) c p := by
  obtain ⟨⟨r, at_p, creates⟩, none⟩ := last
  refine ⟨⟨r, ?_, creates⟩, fun q r' later at_q => ?_⟩
  · exact getElem?_append_of_some at_p _
  · rw [List.getElem?_append] at at_q
    split at at_q
    · exact none q r' later at_q
    · exact others r' (List.mem_of_getElem? at_q)

theorem LastCreate.new {r : AuditorRecord} (creates : CreateRecord c r) :
    LastCreate (stream ++ [r]) c stream.length := by
  refine ⟨⟨r, by simp, creates⟩, fun q r' later at_q => ?_⟩
  have bound := (List.getElem?_eq_some_iff.mp at_q).1
  rw [List.length_append, List.length_singleton] at bound
  omega

theorem Attributed.more (h : Attributed stream sent) (more : List Sending) :
    Attributed stream (sent ++ more) := by
  intro before r rest split is
  obtain ⟨on, rank, right⟩ := h before r rest split is
  refine ⟨on, ?_, right⟩
  exact getElem?_append_of_some rank _

/-- Only the last record is to be looked at. -/
theorem Attributed.concat {r : AuditorRecord} (h : Attributed stream sent)
    (last : r.Is .msg → ∃ on, sent[(msgRecords stream).length]? = some on ∧
      Carries r on.message ∧ r.channelId.toNat = on.channel.val ∧
      LastCreate stream on.channel.val on.born) :
    Attributed (stream ++ [r]) sent := by
  intro before r' rest split is
  rcases List.eq_nil_or_concat rest with rfl | ⟨rest, final, rfl⟩
  · obtain ⟨rfl, same⟩ := List.append_inj' split rfl
    cases same
    exact last is
  · have longer : stream ++ [r] = (before ++ r' :: rest) ++ [final] := by simpa using split
    obtain ⟨rfl, -⟩ := List.append_inj' longer rfl
    exact h before r' rest rfl is

theorem Attributed.append (h : Attributed stream sent) (others : ∀ r ∈ records, ¬r.Is .msg) :
    Attributed (stream ++ records) sent := by
  induction records using List.reverseRecOn with
  | nil => rwa [List.append_nil]
  | append_singleton records r ih =>
      rw [← List.append_assoc]
      exact (ih fun r' member => others r' (by simp [member])).concat
        fun is => absurd is (others r (by simp))

end Streams

theorem not_createRecord {r : AuditorRecord} {type : RecordType} (is : r.Is type)
    (other : type ≠ .chanCreate) (c : Nat) : ¬CreateRecord c r :=
  fun creates => is.not other creates.1

/-- Records that say nothing about messages or new channels. -/
def Neutral (records : List AuditorRecord) : Prop :=
  ∀ r ∈ records, ∃ type, r.Is type ∧ type ≠ .msg ∧ type ≠ .chanCreate

namespace Neutral

variable {records : List AuditorRecord}

theorem nil : Neutral [] := fun _ member => by cases member

theorem single {r : AuditorRecord} (type : RecordType) (is : r.Is type) (message : type ≠ .msg)
    (create : type ≠ .chanCreate) : Neutral [r] := by
  intro r' member
  rw [List.mem_singleton.mp member]
  exact ⟨type, is, message, create⟩

theorem not_msg (neutral : Neutral records) : ∀ r ∈ records, ¬r.Is .msg := by
  intro r member
  obtain ⟨type, is, other, -⟩ := neutral r member
  exact is.not other

theorem not_create (neutral : Neutral records) (c : Nat) : ∀ r ∈ records, ¬CreateRecord c r := by
  intro r member
  obtain ⟨type, is, -, other⟩ := neutral r member
  exact not_createRecord is other c

end Neutral

theorem msgRecords_of_not_msg {stream records : List AuditorRecord}
    (others : ∀ r ∈ records, ¬r.Is .msg) : msgRecords (stream ++ records) = msgRecords stream := by
  have none : msgRecords records = [] :=
    List.filter_eq_nil_iff.mpr fun r member => by simpa using others r member
  rw [msgRecords_append, none, List.append_nil]

/-! ## The invariant -/

/-- A message in the ring whose record would be attributed to the channel it was sent on. -/
structure Waiting (stream : List AuditorRecord) (msg : Message) (on : Sending) : Prop where
  message : on.message = msg
  number : (sourceChannel msg).toNat = on.channel.val
  last : LastCreate stream on.channel.val on.born

/-- The creation of each open channel is the last one of its number, and the ring holds the
accepted messages that are not written yet, each ready to be. -/
structure Ledger (used : ChannelId → Bool) (born : ChannelId → Nat) (stream : List AuditorRecord)
    (ring : List Message) (sent : List Sending) : Prop where
  created : ∀ c, used c = true → LastCreate stream c.val (born c)
  queue : ∃ out waiting, sent = out ++ waiting ∧ out.length = (msgRecords stream).length ∧
    List.Forall₂ (Waiting stream) ring waiting
  attributed : Attributed stream sent

namespace Ledger

variable {used : ChannelId → Bool} {born : ChannelId → Nat} {stream records : List AuditorRecord}
  {ring : List Message} {sent : List Sending}

theorem close {used' : ChannelId → Bool} (h : Ledger used born stream ring sent)
    (fewer : ∀ c, used' c = true → used c = true) : Ledger used' born stream ring sent :=
  ⟨fun c isUsed => h.created c (fewer c isUsed), h.queue, h.attributed⟩

theorem neutral (h : Ledger used born stream ring sent) (neutral : Neutral records) :
    Ledger used born (stream ++ records) ring sent := by
  obtain ⟨out, waiting, split, count, ready⟩ := h.queue
  refine ⟨fun c isUsed => (h.created c isUsed).append (neutral.not_create _),
    ⟨out, waiting, split, ?_, ?_⟩, h.attributed.append neutral.not_msg⟩
  · rw [msgRecords_of_not_msg neutral.not_msg, count]
  · exact ready.imp fun _ _ wait =>
      ⟨wait.message, wait.number, wait.last.append (neutral.not_create _)⟩

/-- A message joins the queue behind the channel it was sent on. -/
theorem push {c : ChannelId} {msg : Message} (h : Ledger used born stream ring sent)
    (isUsed : used c = true) (number : (sourceChannel msg).toNat = c.val) :
    Ledger used born stream (ring ++ [msg]) (sent ++ [⟨msg, c, born c⟩]) := by
  obtain ⟨out, waiting, split, count, ready⟩ := h.queue
  refine ⟨h.created, ⟨out, waiting ++ [⟨msg, c, born c⟩], ?_, count, ?_⟩, h.attributed.more _⟩
  · rw [split, List.append_assoc]
  · exact List.rel_append ready (.cons ⟨rfl, number, h.created c isUsed⟩ .nil)

/-- The first message of the queue is written. -/
theorem write {msg : Message} (h : Ledger used born stream (msg :: ring) sent)
    (jiffies : BitVec 64) :
    Ledger used born (stream ++ [emitMsgRecord jiffies msg]) ring sent := by
  obtain ⟨out, waiting, split, count, ready⟩ := h.queue
  obtain ⟨on, waiting, here, later, rfl⟩ := List.forall₂_cons_left_iff.mp ready
  have is : (emitMsgRecord jiffies msg).Is .msg := rfl
  have others : ∀ c, ∀ r ∈ [emitMsgRecord jiffies msg], ¬CreateRecord c r := by
    intro c r member
    rw [List.mem_singleton.mp member]
    exact not_createRecord is (by decide) c
  refine ⟨fun c isUsed => (h.created c isUsed).append (others _),
    ⟨out ++ [on], waiting, ?_, ?_, ?_⟩, h.attributed.concat fun _ => ⟨on, ?_, ?_, ?_⟩⟩
  · rw [split, List.append_cons]
  · rw [msgRecords_append]
    simp [count, msgRecords, is]
  · exact later.imp fun _ _ wait => ⟨wait.message, wait.number, wait.last.append (others _)⟩
  · rw [split, ← count]
    simp
  · exact ⟨jiffies, by rw [here.message]⟩
  · exact ⟨here.number, here.last⟩

theorem drain {messages rest : List Message} (jiffies : BitVec 64)
    (h : Ledger used born stream (messages ++ rest) sent) :
    Ledger used born (stream ++ messages.map (emitMsgRecord jiffies)) rest sent := by
  induction messages generalizing stream with
  | nil => simpa using h
  | cons msg messages ih =>
      rw [List.map_cons, List.append_cons]
      exact ih (h.write jiffies)

/-- A channel is created on a number the ring holds no message for. -/
theorem create {c : ChannelId} {r : AuditorRecord} (h : Ledger used born stream ring sent)
    (here : CreateRecord c.val r) (drained : ∀ msg ∈ ring, (sourceChannel msg).toNat ≠ c.val) :
    Ledger (Function.update used c true) (Function.update born c stream.length) (stream ++ [r]) ring
      sent := by
  have others : ∀ c' : Nat, c' ≠ c.val → ∀ r' ∈ [r], ¬CreateRecord c' r' := by
    intro c' other r' member creates
    rw [List.mem_singleton.mp member] at creates
    exact other (creates.2.symm.trans here.2)
  have not_msg : ∀ r' ∈ [r], ¬r'.Is .msg := by
    intro r' member
    rw [List.mem_singleton.mp member]
    exact here.1.not (by decide)
  obtain ⟨out, waiting, split, count, ready⟩ := h.queue
  refine ⟨fun c' isUsed => ?_, ⟨out, waiting, split, ?_, ?_⟩, h.attributed.append not_msg⟩
  · by_cases it : c' = c
    · subst it
      rw [Function.update_self]
      exact .new here
    · rw [Function.update_of_ne it] at isUsed ⊢
      exact (h.created c' isUsed).append (others _ fun same => it (Fin.ext same))
  · rw [msgRecords_of_not_msg not_msg, count]
  · -- no message in the ring carries the number that is used again
    refine ((List.forall₂_and_left _ _).mpr ⟨drained, ready⟩).imp fun msg on both => ?_
    obtain ⟨apart, wait⟩ := both
    rw [wait.number] at apart
    exact ⟨wait.message, wait.number, wait.last.append (others _ apart)⟩

end Ledger

/-- The ledger of a machine whose auditor is armed. -/
structure Traceable (t : Tracked) : Prop where
  enabled : t.machine.kernel.auditor.enabled = true
  ledger : Ledger (fun c => (t.machine.kernel.channels c).inUse) t.born
    t.machine.kernel.auditor.stream t.machine.ipcRing.contents t.sent

/-- An event that leaves the ring alone and starts no channel. -/
theorem Traceable.neutral {t : Tracked} {e : Event} {records : List AuditorRecord}
    (h : Traceable t)
    (stream : (eventStep t.machine e).kernel.auditor.stream =
      t.machine.kernel.auditor.stream ++ records)
    (neutral : Neutral records)
    (ring : (eventStep t.machine e).ipcRing.contents = t.machine.ipcRing.contents)
    (channels : ∀ c, ((eventStep t.machine e).kernel.channels c).inUse = true →
      (t.machine.kernel.channels c).inUse = true)
    (uncreated : ∀ c, created? t.machine e ≠ some c) (unsent : sent? t.machine e = none) :
    Traceable (trackedStep t e) := by
  have born : (trackedStep t e).born = t.born := funext fun c => if_neg (uncreated c)
  have sent : (trackedStep t e).sent = t.sent := by simp [trackedStep, unsent]
  refine ⟨(eventStep_enabled _ _).trans h.enabled, ?_⟩
  rw [born, sent]
  simp only [trackedStep, stream, ring]
  exact (h.ledger.neutral neutral).close channels

/-! ## The calls -/

theorem created?_eq_some {m : Machine} {op : Op} {c : ChannelId} :
    created? m (.call op) = some c ↔ Creates m.kernel op c := by
  constructor
  · intro found
    cases op with
    | ipcCreateChannel level domain caps protocol =>
        exact ⟨level, domain, caps, protocol, rfl, channel?_eq_some found⟩
    | _ => cases found
  · rintro ⟨level, domain, caps, protocol, rfl, result⟩
    rw [created?, result, channel?_val]

theorem toNat_lowByte_channelId (c : ChannelId) :
    ((BitVec.ofNat 32 c.val &&& 0xFF#32).setWidth 8).toNat = c.val := by
  rw [toNat_lowByte, toNat_channelId]
  exact Nat.mod_eq_of_lt (c.isLt.trans (by decide))

theorem createRecord_channelCreated (jiffies : BitVec 64) (c : ChannelId) (ch : IpcChannel) :
    CreateRecord c.val (emitChanCreateRecord jiffies (chanCreateEvent c ch)) :=
  ⟨rfl, toNat_lowByte_channelId c⟩

theorem sourceChannel_stampMessage (c : ChannelId) (ch : IpcChannel) (m : Message) :
    (sourceChannel (stampMessage c ch m)).toNat = c.val := by
  -- the domain and the protocol are above the low byte
  have low : ∀ x y z : BitVec 32, ((x ||| (y <<< 8) ||| (z <<< 16)) &&& 0xFF#32).setWidth 8 =
      (x &&& 0xFF#32).setWidth 8 := by
    intro x y z
    ext i bit
    have below : i < 16 := by omega
    simp
  rw [sourceChannel, stampMessage, low, toNat_lowByte_channelId]

/-- A call offers messages of open channels only, with their number in them. -/
theorem offered_channel {s : System} {op : Op} {c : ChannelId} {msg : Message}
    (offer : offered s op = some (c, msg)) :
    (s.channels c).inUse = true ∧ (sourceChannel msg).toNat = c.val := by
  obtain ⟨id, m, -, admitted, rfl⟩ := offered_eq_some offer
  exact ⟨(openChannel?_eq_some.mp admitted.channel).2, sourceChannel_stampMessage _ _ _⟩

/-- A call that may offer a message and writes nothing. -/
theorem Traceable.offered {t : Tracked} {op : Op} (h : Traceable t)
    (auditor : (step t.machine.kernel op).auditor =
      pushOffered t.machine.kernel.auditor (offered t.machine.kernel op))
    (plain : Unstructured t.machine.kernel op (step t.machine.kernel op)) :
    Traceable (trackedStep t (.call op)) := by
  have stream : (eventStep t.machine (.call op)).kernel.auditor.stream =
      t.machine.kernel.auditor.stream :=
    (congrArg AuditorState.stream auditor).trans (pushOffered_stream _ _)
  have ring : (eventStep t.machine (.call op)).ipcRing =
      t.machine.ipcRing.offer (Kernel.offered t.machine.kernel op) := rfl
  have channels : ∀ c, ((step t.machine.kernel op).channels c).inUse = true →
      (t.machine.kernel.channels c).inUse = true :=
    fun c used => by rw [← plain.channels c used]; exact used
  have uncreated : ∀ c, created? t.machine (.call op) ≠ some c :=
    fun c found => plain.creates c (created?_eq_some.mp found)
  have idle : (eventStep t.machine (.call op)).ipcRing.contents = t.machine.ipcRing.contents →
      sent? t.machine (.call op) = none → Traceable (trackedStep t (.call op)) :=
    fun contents =>
      h.neutral (stream.trans (List.append_nil _).symm) .nil contents channels uncreated
  cases offer : Kernel.offered t.machine.kernel op with
  | none =>
      rw [offer] at ring
      exact idle (congrArg IpcRing.contents ring) (by simp [sent?, offer])
  | some sending =>
      obtain ⟨c, msg⟩ := sending
      rw [offer] at ring
      rcases t.machine.ipcRing.push_cases msg with ⟨-, refused⟩ | ⟨-, ok, grown, -⟩
      · exact idle (by rw [ring, IpcRing.offer, refused]; rfl) (by simp [sent?, offer, refused])
      · have born : (trackedStep t (.call op)).born = t.born :=
          funext fun c => if_neg (uncreated c)
        have sent : (trackedStep t (.call op)).sent = t.sent ++ [⟨msg, c, t.born c⟩] := by
          simp [trackedStep, sent?, offer, ok]
        obtain ⟨used, number⟩ := offered_channel offer
        refine ⟨(eventStep_enabled _ _).trans h.enabled, ?_⟩
        rw [born, sent]
        simp only [trackedStep, stream, ring, IpcRing.offer, grown]
        exact (h.ledger.push used number).close channels

/-- A call that creates a channel. -/
theorem Traceable.created {t : Tracked} {op : Op} {c : ChannelId} {ch : IpcChannel}
    (h : Traceable t) (drained : ReusesDrained t.machine (.call op))
    (creates : Creates t.machine.kernel op c)
    (unoffered : Kernel.offered t.machine.kernel op = none)
    (auditor : (step t.machine.kernel op).auditor = t.machine.kernel.auditor.emit
      (emitChanCreateRecord t.machine.kernel.jiffies (chanCreateEvent c ch)))
    (channels : (step t.machine.kernel op).channels =
      Function.update t.machine.kernel.channels c ch) :
    Traceable (trackedStep t (.call op)) := by
  have found := created?_eq_some.mpr creates
  have stream : (eventStep t.machine (.call op)).kernel.auditor.stream = _ :=
    (emit_eq_append h.enabled auditor).2
  have ring : (eventStep t.machine (.call op)).ipcRing = t.machine.ipcRing :=
    congrArg t.machine.ipcRing.offer unoffered
  have sent : (trackedStep t (.call op)).sent = t.sent := by
    simp [trackedStep, sent?, unoffered]
  have born : (trackedStep t (.call op)).born =
      Function.update t.born c t.machine.kernel.auditor.stream.length := by
    funext c'
    simp only [trackedStep, found, Option.some.injEq, Function.update_apply, eq_comm]
  refine ⟨(eventStep_enabled _ _).trans h.enabled, ?_⟩
  rw [born, sent]
  simp only [trackedStep, stream, ring]
  refine (h.ledger.create (createRecord_channelCreated _ c ch) (drained c found)).close ?_
  intro c' used
  by_cases it : c' = c
  · rw [it, Function.update_self]
  · rw [Function.update_of_ne it]
    have old : (step t.machine.kernel op).channels c' = t.machine.kernel.channels c' := by
      rw [channels, Function.update_of_ne it]
    rw [← old]
    exact used

/-- A call that writes one record about something else. -/
theorem Traceable.reported {t : Tracked} {op : Op} {record : AuditorRecord} (h : Traceable t)
    (unoffered : Kernel.offered t.machine.kernel op = none)
    (auditor : (step t.machine.kernel op).auditor = t.machine.kernel.auditor.emit record)
    (neutral : Neutral [record]) (creates : ∀ c, ¬Creates t.machine.kernel op c)
    (channels : ∀ c, ((step t.machine.kernel op).channels c).inUse = true →
      (step t.machine.kernel op).channels c = t.machine.kernel.channels c) :
    Traceable (trackedStep t (.call op)) := by
  refine h.neutral (emit_eq_append h.enabled auditor).2 neutral ?_ (fun c used => ?_) ?_ ?_
  · exact congrArg (fun offer => (t.machine.ipcRing.offer offer).contents) unoffered
  · rw [← channels c used]
    exact used
  · exact fun c found => creates c (created?_eq_some.mp found)
  · simp [sent?, unoffered]

theorem Traceable.call {t : Tracked} (h : Traceable t) (op : Op)
    (drained : ReusesDrained t.machine (.call op)) : Traceable (trackedStep t (.call op)) := by
  cases step_audited t.machine.kernel op with
  | silent auditor plain => exact h.offered auditor plain
  | denied info unoffered auditor _ plain =>
      exact h.reported unoffered auditor (.single .deny rfl (by decide) (by decide)) plain.creates
        plain.channels
  | channelCreated c ch task creates unoffered auditor _ _ _ channels =>
      exact h.created drained creates unoffered auditor channels
  | connected a b connects unoffered auditor rights =>
      refine h.reported unoffered auditor (.single .chanConnect rfl (by decide) (by decide)) ?_
        fun c _ => by rw [rights.channels]
      rw [connects.1]
      exact not_creates (by simp)
  | taskCreated spec parent child call auditor _ _ _ _ _ _ channels =>
      subst call
      exact h.reported rfl auditor (.single .taskCreate rfl (by decide) (by decide))
        (not_creates (by simp)) fun c _ => by rw [channels]
  | edgeAdded src dst call auditor _ channels =>
      subst call
      exact h.reported rfl auditor (.single .domainEdge rfl (by decide) (by decide))
        (not_creates (by simp)) fun c _ => by rw [channels]

/-! ## The other events -/

theorem Traceable.sysExit {t : Tracked} (h : Traceable t) (code : BitVec 32) :
    Traceable (trackedStep t (.sysExit code)) := by
  obtain ⟨ring, channels, -⟩ := t.machine.sysExit_frame code
  have quiet : ∀ records, Neutral records →
      (eventStep t.machine (.sysExit code)).kernel.auditor.stream =
        t.machine.kernel.auditor.stream ++ records →
      Traceable (trackedStep t (.sysExit code)) :=
    fun records neutral stream => h.neutral stream neutral (congrArg IpcRing.contents ring)
      (fun c used => by rw [← channels]; exact used) (by simp [created?]) rfl
  obtain ⟨-, same⟩ | ⟨caller, -, auditor, -⟩ := t.machine.sysExit_cases code
  · exact quiet [] .nil (by rw [eventStep, same, List.append_nil])
  · refine quiet _ ?_ (emit_eq_append h.enabled auditor).2
    exact .single .taskExit rfl (by decide) (by decide)

theorem Traceable.report {t : Tracked} (h : Traceable t) {e : Event} (other : ∀ op, e ≠ .call op)
    (reported : t.machine.Reported (eventStep t.machine e)) : Traceable (trackedStep t e) := by
  obtain ⟨records, stream, reports⟩ := reported.records
  refine h.neutral stream (fun r member => ?_) (congrArg IpcRing.contents reported.ipcRing)
    (fun c used => by rw [← reported.channels]; exact used) ?_ ?_
  · obtain is | is := (reports r member).is
    · exact ⟨.fault, is, by decide, by decide⟩
    · exact ⟨.workflow, is, by decide, by decide⟩
  · cases e with
    | call op => exact absurd rfl (other op)
    | _ => simp [created?]
  · cases e with
    | call op => exact absurd rfl (other op)
    | _ => rfl

theorem overflowRecords_neutral (m : Machine) : Neutral m.overflowRecords := by
  unfold Machine.overflowRecords
  split
  · exact .single .overflow rfl (by decide) (by decide)
  · exact .nil

theorem heartbeatRecords_neutral (m : Machine) : Neutral m.heartbeatRecords := by
  unfold Machine.heartbeatRecords
  split
  · exact .single .heartbeat rfl (by decide) (by decide)
  · exact .nil

/-- A tick writes the front of the queue. -/
theorem Traceable.tick {t : Tracked} (h : Traceable t) :
    Traceable (trackedStep t .auditorTick) := by
  obtain ⟨contents, -, stream⟩ := t.machine.auditorTick_enabled h.enabled
  have sent : (trackedStep t .auditorTick).sent = t.sent := List.append_nil _
  refine ⟨(eventStep_enabled _ _).trans h.enabled, ?_⟩
  rw [sent]
  simp only [trackedStep, eventStep, stream, contents, ← List.append_assoc,
    t.machine.auditorTick_frame.1]
  refine Ledger.neutral ?_ (heartbeatRecords_neutral t.machine)
  refine Ledger.drain _ ?_
  rw [List.take_append_drop]
  exact h.ledger.neutral (overflowRecords_neutral t.machine)

theorem Traceable.step {t : Tracked} (h : Traceable t) (e : Event)
    (drained : ReusesDrained t.machine e) : Traceable (trackedStep t e) := by
  cases e with
  | call op => exact h.call op drained
  | sysExit code => exact h.sysExit code
  | sysYield =>
      exact h.neutral (List.append_nil _).symm .nil rfl (fun _ used => used) (by simp [created?])
        rfl
  | logTransaction entry =>
      obtain ⟨buffer, channels, -, -, -, -, stream⟩ := t.machine.logTransaction_frame entry
      exact h.neutral (stream.trans (List.append_nil _).symm) .nil
        (congrArg RingBuffer.contents buffer) (fun c used => by rw [← channels]; exact used)
        (by simp [created?]) rfl
  | fault a => exact h.report (by simp) (t.machine.auditorFault_reported a)
  | workflow owner a => exact h.report (by simp) (t.machine.auditorWorkflow_reported owner a)
  | auditorTick => exact h.tick

/-! ## A run -/

theorem track_traceable (k : System) (statics : Statics) :
    Traceable (track (auditorInit (initIpc k) statics)) := by
  refine ⟨rfl, ⟨fun c used => ?_, ⟨[], [], rfl, rfl, ?_⟩, ?_⟩⟩
  · simp [track, auditorInit, initIpc] at used
  · have empty : (auditorInit (initIpc k) statics).ipcRing.contents = [] :=
      RingBuffer.contents_clear statics.ipcRing.buffer
    simp only [track, empty]
    exact .nil
  · intro before r rest split
    simp [track, auditorInit] at split

/-- In every run after `auditor_init` that creates no channel on a number for which the ring
holds a message, each message record is attributed to the channel on which its message was
sent. -/
theorem message_attribution (k : System) (statics : Statics) (events : List Event)
    (run : Runs.Meets eventStep ReusesDrained (auditorInit (initIpc k) statics) events) :
    Attributed (Runs.after eventStep (auditorInit (initIpc k) statics) events).kernel.auditor.stream
      (sendings (auditorInit (initIpc k) statics) events) := by
  have commutes : ∀ t e, (trackedStep t e).machine = eventStep t.machine e := fun _ _ => rfl
  have traceable : Traceable
      (Runs.after trackedStep (track (auditorInit (initIpc k) statics)) events) :=
    Runs.run_invariant (track_traceable k statics) (fun t e h => h.step e)
      (Runs.meets_project commutes run)
  have attributed := traceable.ledger.attributed
  rw [Runs.after_project commutes] at attributed
  exact attributed

/-- A channel is created, used, closed and created again, with or without a tick in front of
the second creation. -/
def recycled (drained : Bool) : List Event :=
  [.call (.ipcCreateChannel 0 0 capAll Protocol.push0.code),
      .call (.ipcSend 0 (some (sampleMessage 1 [0x68, 0x69]))), .call (.ipcCloseChannel 0)] ++
    (if drained then [.auditorTick] else []) ++
    [.call (.ipcCreateChannel 0 0 capAll Protocol.push0.code), .auditorTick]

theorem message_attribution_drained :
    Runs.Meets eventStep ReusesDrained (auditorInit (boot sampleImage) zeroStatics)
        (recycled true) ∧
      Attributed (Runs.after eventStep (auditorInit (boot sampleImage) zeroStatics)
        (recycled true)).kernel.auditor.stream
        (sendings (auditorInit (boot sampleImage) zeroStatics) (recycled true)) := by
  have run : Runs.Meets eventStep ReusesDrained (auditorInit (boot sampleImage) zeroStatics)
      (recycled true) := by decide +kernel
  obtain ⟨k, booted⟩ : ∃ k, boot sampleImage = initIpc k := ⟨_, rfl⟩
  rw [booted] at run ⊢
  exact ⟨run, message_attribution k zeroStatics _ run⟩

/-- The message was sent on the first channel, and its record follows the creation of the
second one. -/
theorem recycled_channel_misattributed :
    ¬Attributed (Runs.after eventStep (auditorInit (boot sampleImage) zeroStatics)
      (recycled false)).kernel.auditor.stream
      (sendings (auditorInit (boot sampleImage) zeroStatics) (recycled false)) := by
  have kinds : (Runs.after eventStep (auditorInit (boot sampleImage) zeroStatics)
      (recycled false)).kernel.auditor.stream.map
        (fun r => (decide (r.Is .chanCreate), decide (r.Is .msg), r.channelId.toNat)) =
      [(true, false, 0), (true, false, 0), (false, true, 0)] := by decide +kernel
  have sent : (sendings (auditorInit (boot sampleImage) zeroStatics) (recycled false)).map
      (fun on => (on.channel, on.born)) = [(0, 0)] := by decide +kernel
  intro attributed
  simp only [List.map_eq_cons_iff, List.map_eq_nil_iff, Prod.mk.injEq, decide_eq_true_eq,
    decide_eq_false_iff_not] at kinds sent
  obtain ⟨first, _, stream, created, second, _, rfl, again, message, _, rfl, carried, rfl⟩ := kinds
  obtain ⟨on, _, single, ⟨channel, born⟩, rfl⟩ := sent
  rw [stream, single] at attributed
  obtain ⟨on', rank, -, -, last⟩ := attributed [first, second] message [] rfl carried.2.1
  have none : msgRecords [first, second] = [] := by simp [msgRecords, created, again]
  rw [none] at rank
  cases rank
  rw [channel, born] at last
  exact last.2 1 second Nat.zero_lt_one rfl ⟨again.1, again.2.2⟩

end LughOS.Kernel

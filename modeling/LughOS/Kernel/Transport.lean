import LughOS.Kernel.Buffers
import LughOS.Kernel.Conservation

/-!
# Messages in flight

The transport of a message, from `lugh_message_to_nng` through `nng_send` to the receive
queues and out of them again. In a run of short payloads the state is `InOrder` between the
calls: the queued handles are the live messages, one handle each, and every message is whole
in its own blocks. A send then adds handles that hold the encoding of the message sent
(`Accounted`), and no call changes the bytes behind a handle that stays queued (`Remaining`).
-/

namespace LughOS.Kernel

open Bytes

/-! ## Payloads -/

/-- Writing the last NUL does not change a payload that has one already. -/
theorem sealMessage_cString {m : Message} (terminated : (cString m.payload).length < 128) :
    cString (sealMessage m).payload = cString m.payload := by
  have payload : (sealMessage m).payload = Function.update m.payload 127 0 := rfl
  rw [payload]
  refine cString_eq terminated (fun b member => cString_ne_zero member) (fun j h => ?_) ?_
  · have apart : (⟨j, lt_trans h terminated⟩ : Fin 128) ≠ 127 := by
      intro same
      have := congrArg Fin.val same
      simp only [Fin.isValue] at this
      omega
    rw [Function.update_of_ne apart, cString_getElem h]
  · by_cases last : (⟨(cString m.payload).length, terminated⟩ : Fin 128) = 127
    · rw [last, Function.update_self]
    · rw [Function.update_of_ne last, cString_nul terminated]

theorem Short.sealed {m : Message} (short : Short m) : Short (sealMessage m) := by
  have terminated : (cString m.payload).length < 128 := lt_of_le_of_lt short (by decide)
  rwa [Short, sealMessage_cString terminated]

/-- The payload of a send fits into the buffer of a pool message. -/
def SendsShort (_ : System) : Op → Prop
  | .ipcSend _ (some m) => Short m
  | _ => True

instance (s : System) (op : Op) : Decidable (SendsShort s op) :=
  match op with
  | .ipcSend _ (some m) => inferInstanceAs (Decidable (Short m))
  | .ipcSend _ none | .switch _ | .tick _ | .createTask _ | .domainEdgeSet _ _ | .domainEdgesSeal
  | .ipcCreateChannel _ _ _ _ | .ipcCloseChannel _ | .ipcConnect _ _ | .ipcRecv _ _ _ =>
      .isTrue trivial

/-! ## What a call does to the messages -/

variable {foreign : Finset Block} {s : System} {op : Op} {id : Int} {msg : Option Message}
  {n' : Nng}

/-- A send keeps all messages; what it queues is new and holds the encoding of an admitted
message. -/
structure SendsCopies (foreign : Finset Block) (s : System) (id : Int) (msg : Option Message)
    (n' : Nng) : Prop where
  sound : Sound foreign n'.pool
  keeps : Keeps s.nng.pool n'.pool
  added : ∀ e y, y ∈ n'.recvQueues e → y ∈ s.nng.recvQueues e ∨
    ∃ c m, Admitted s id msg c m ∧
      NewMessage s.nng.pool n'.pool (encodedBytes (sealMessage m)) y

/-- Every other call at most frees messages and takes handles out of the queues. -/
structure Discards (foreign : Finset Block) (n n' : Nng) : Prop where
  freed : Freed foreign n.pool n'.pool
  fewer : ∀ e, n'.recvQueues e ⊆ n.recvQueues e

theorem Sent.copies {ring : List Message} (sent : Sent s id msg n' ring)
    (sound : Sound foreign s.nng.pool) (short : ∀ m, msg = some m → Short (sealMessage m)) :
    SendsCopies foreign s id msg n' := by
  have conversion {c m} (ok : Admitted s id msg c m) :=
    sound.owned.lughMessageToNng (short m ok.message)
  cases sent with
  | refused => exact ⟨sound, Keeps.refl _, fun _ _ member => .inl member⟩
  | unconverted ok converted =>
      obtain ⟨_, _, failed, givenUp⟩ | ⟨_, _, _, _, built, -⟩ := conversion ok
      · rw [failed] at converted
        cases converted
        exact ⟨givenUp.sound sound, givenUp.keeps, fun _ _ member => .inl member⟩
      · rw [built] at converted
        cases converted
  | unsent ok converted closed =>
      obtain ⟨_, _, failed, -⟩ | ⟨_, _, _, _, built, begun⟩ := conversion ok
      · rw [failed] at converted
        cases converted
      · rw [built] at converted
        cases converted
        exact ⟨begun.sound sound, begun.keeps, fun _ _ member => .inl member⟩
  | @routed c m src p d n'' ok converted socket valid routes =>
      obtain ⟨_, _, failed, -⟩ | ⟨t, h, b, _, built, begun⟩ := conversion ok
      · rw [failed] at converted
        cases converted
      rw [built] at converted
      cases converted
      have small : p.bodyLen h.address ≤ 64 := by
        rw [← Pool.bodyBytes_length, begun.bytes, encodedBytes_length]
        have : (cString (sealMessage m).payload).length ≤ 58 := short m ok.message
        omega
      have copies := routes.copies (begun.sound sound) begun.stored small
      dsimp only at copies
      rw [begun.bytes] at copies
      -- the message of the sender is the only one that goes, and it is not an old one
      obtain ⟨stored, -⟩ := copies.keeps t h b (Set.notMem_empty _) begun.stored
      have loses := copies.sound.owned.free_stored stored
      have gone := loses.keeps copies.sound.owned
      have keeps := KeepsOutside.trans (begun.keeps.trans copies.keeps) gone
      rw [Set.empty_union] at keeps
      refine ⟨copies.sound.lose loses, keeps.keeps begun.free, fun e y member => ?_⟩
      refine (copies.added e y member).imp_right fun new => ⟨c, m, ok, ?_⟩
      obtain ⟨s', c', e', free, rest⟩ := new.kept gone (by
        rintro _ rfl
        exact begun.stored.used)
      exact ⟨s', c', e', fun used => free ((begun.slots s').mpr (.inr used)), rest⟩

theorem Received.discards (received : Received s id n') (sound : Sound foreign s.nng.pool) :
    Discards foreign s.nng n' := by
  cases received with
  | refused => exact ⟨sound.freeAll [], fun _ => List.Subset.refl _⟩
  | empty d =>
      refine ⟨?_, fun e => by rw [expireSurvey_recvQueues]; exact List.Subset.refl _⟩
      rw [expireSurvey_pool]
      exact sound.freeAll []
  | @taken c d src rest channel socket queue =>
      refine ⟨?_, fun e x member => ?_⟩
      · simp only [Nng.freeMsg, expireSurvey_pool]
        exact sound.freed src
      · change x ∈ Function.update s.nng.recvQueues d rest e at member
        by_cases here : e = d
        · subst here
          rw [Function.update_self] at member
          rw [queue]
          exact List.mem_cons_of_mem _ member
        · rwa [Function.update_of_ne here] at member

theorem closeSocket_discards {n : Nng} (sound : Sound foreign n.pool) (d : SocketId) :
    Discards foreign n (closeSocket n d) := by
  rw [closeSocket_eq]
  refine ⟨sound.freeAll _, fun e x member => ?_⟩
  by_cases here : e = d
  · subst here
    simp at member
  · simpa [Function.update_of_ne here] using member

/-- The calls, with short payloads. -/
theorem step_messages (sound : Sound foreign s.nng.pool) (short : SendsShort s op) :
    Discards foreign s.nng (step s op).nng ∨
      ∃ id m, op = .ipcSend id (some m) ∧ SendsCopies foreign s id (some m) (step s op).nng := by
  cases step_moved s op with
  | still pool queues kept =>
      refine .inl ⟨?_, fun e => by rw [queues]; exact List.Subset.refl _⟩
      rw [pool]
      exact sound.freeAll []
  | sent id msg ring call sent =>
      subst call
      cases msg with
      | none => exact .inl ⟨sound.freeAll [], fun _ => List.Subset.refl _⟩
      | some m =>
          refine .inr ⟨id, m, rfl, sent.copies sound ?_⟩
          rintro _ ⟨⟩
          exact Short.sealed short
  | received id received => exact .inl (received.discards sound)
  | closed c d used socket closed =>
      rw [closed]
      exact .inl (closeSocket_discards sound d)

theorem step_sound (sound : Sound foreign s.nng.pool) (short : SendsShort s op) :
    Sound foreign (step s op).nng.pool := by
  obtain discards | ⟨_, _, _, copies⟩ := step_messages sound short
  · exact discards.freed.sound
  · exact copies.sound

/-! ## Queues -/

/-- Each live message is whole and stands once in the queues. -/
structure InOrder (foreign : Finset Block) (s : System) : Prop where
  wired : Wired s
  sound : Sound foreign s.nng.pool
  balanced : Balanced foreign s.nng 0

/-- After `nng_init` no message is live. -/
theorem nngInit_sound (n : Nng) (laid : n.pool.heap.LaidOut) :
    Sound (usedBlocks n.pool.heap) (nngInit n).pool where
  owned := nngInit_ownership n laid
  stored := fun s used => by simp [Pool.SlotUsed, nngInit] at used

theorem initIpc_inOrder (k : System) (laid : k.nng.pool.heap.LaidOut) :
    InOrder (usedBlocks k.nng.pool.heap) (initIpc k) :=
  ⟨initIpc_wired k, nngInit_sound k.nng laid, initIpc_balanced k laid⟩

theorem InOrder.step (ok : InOrder foreign s) (short : SendsShort s op) :
    InOrder foreign (step s op) :=
  ⟨ok.wired.rewired (step_rewired s op), step_sound ok.sound short, ok.balanced.step ok.wired op⟩

/-- A queued handle is a message. -/
theorem InOrder.queued (ok : InOrder foreign s) {e : SocketId} {x : Nat}
    (member : x ∈ s.nng.recvQueues e) : ∃ t m b, x = m.address ∧ Stored s.nng.pool t m b := by
  obtain ⟨t, used, rfl⟩ := ok.balanced.noLeak.live e x member
  obtain ⟨m, b, stored⟩ := ok.sound.stored t used
  exact ⟨t, m, b, by rw [stored.slot], stored⟩

/-- The handles queued in `n'` were queued in `n`, with the same bytes. -/
def Remaining (n n' : Nng) : Prop :=
  ∀ e x, x ∈ n'.recvQueues e → x ∈ n.recvQueues e ∧ n'.pool.bodyBytes x = n.pool.bodyBytes x

/-- Each handle queued in `n'` was queued before with the same bytes, or is new and holds
the encoding of an admitted message. -/
def Accounted (s : System) (id : Int) (msg : Option Message) (n' : Nng) : Prop :=
  ∀ e x, x ∈ n'.recvQueues e →
    (x ∈ s.nng.recvQueues e ∧ n'.pool.bodyBytes x = s.nng.pool.bodyBytes x) ∨
      ((∀ e', x ∉ s.nng.recvQueues e') ∧ ∃ c m, Admitted s id msg c m ∧
        n'.pool.bodyBytes x = encodedBytes (sealMessage m))

/-- What is queued after the call is live then, so it is not among the messages freed. -/
theorem Discards.remaining {s' : System} (discards : Discards foreign s.nng s'.nng)
    (ok : InOrder foreign s) (ok' : InOrder foreign s') : Remaining s.nng s'.nng := by
  intro e x member
  refine ⟨discards.fewer e member, ?_⟩
  obtain ⟨t, m, b, rfl, stored⟩ := ok'.queued member
  obtain ⟨m', b', before⟩ := ok.sound.stored t (discards.freed.slots t stored.used)
  obtain ⟨after, same⟩ := discards.freed.kept t m' b' (not_not.mpr stored.used) before
  have slot := stored.slot.symm.trans after.slot
  simp only [MsgSlot.mk.injEq, and_true] at slot
  rw [slot.1]
  exact same

theorem SendsCopies.accounted (copies : SendsCopies foreign s id msg n') (ok : InOrder foreign s) :
    Accounted s id msg n' := by
  intro e x member
  have older : ∀ {e'}, x ∈ s.nng.recvQueues e' → ∃ t m b, x = m.address ∧
      Stored s.nng.pool t m b ∧ Stored n'.pool t m b ∧
      n'.pool.bodyBytes x = s.nng.pool.bodyBytes x := by
    intro e' before
    obtain ⟨t, m, b, rfl, stored⟩ := ok.queued before
    exact ⟨t, m, b, rfl, stored, copies.keeps t m b (Set.notMem_empty _) stored⟩
  obtain before | ⟨c, m, admitted, t, h, b, free, stored, rfl, bytes⟩ := copies.added e x member
  · obtain ⟨-, -, -, -, -, -, same⟩ := older before
    exact .inl ⟨before, same⟩
  · refine .inr ⟨fun e' before => ?_, c, m, admitted, bytes⟩
    obtain ⟨t', m', b', same, was, stored', -⟩ := older before
    have slots : t = t' := (copies.sound.owned.distinct t t' false false stored.used
      stored'.used (by rw [stored.slot, stored'.slot]; exact same)).1
    exact free (slots ▸ was.used)

end LughOS.Kernel

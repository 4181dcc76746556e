import LughOS.Kernel.RequestReply

/-!
# Turns of a PUSH socket

`nng_send` on a PUSH delivers to one PULL socket and moves `rr_idx` on, whether or not the
delivery succeeds. A cursor that points to no peer, because peers have gone or because nothing
meaningful was stored, counts as 0.

A send does not change which peers there are, so the turns of consecutive sends are consecutive
numbers modulo the number of pipes, and every pipe gets its share of them up to one.
-/

namespace LughOS.Kernel

variable {n : Nng} {sock : NngSocket} {id : SocketId}

/-- The live PULL sockets at the far ends of the pipes from `id`, in table order. -/
def pullPipes (n : Nng) (id : SocketId) : List SocketId :=
  (List.finRange 64).filterMap fun i =>
    if (n.pipes i).inUse = true ∧ (n.pipes i).src = id ∧ n.socketValid (n.pipes i).dst = true ∧
        (n.socketPool (n.pipes i).dst).protocol = Protocol.pull0.code then
      some (n.pipes i).dst
    else none

/-- An open PUSH socket with between 1 and 16 such pipes. -/
structure Pushes (n : Nng) (sock : NngSocket) (id : SocketId) : Prop where
  socket : n.valid? sock.id = some id
  protocol : (n.socketPool id).protocol = Protocol.push0.code
  peered : pullPipes n id ≠ []
  few : (pullPipes n id).length ≤ maxSockets

/-- The turn that a stored cursor stands for. -/
def startTurn (rrIdx : Int) (count : Nat) : Nat :=
  if 0 ≤ rrIdx ∧ rrIdx < count then rrIdx.toNat else 0

/-- The index of the peer whose turn it is. -/
def turn (n : Nng) (id : SocketId) : Nat := cursor n id (collectPeers n id .pull0)

/-- The send is one call of `deliver_copy`, for socket `d`; besides, it moves the cursor and frees
the sender's message. -/
def Attempts (n : Nng) (now : BitVec 64) (sock : NngSocket) (id : SocketId) (msg : Nat)
    (d : SocketId) : Prop :=
  ∃ next : Int, nngSend n now sock msg = ((deliverCopy n d msg).1,
    ((deliverCopy n d msg).2.setState id fun st => { st with rrIdx := next }).freeMsg msg)

/-- The copies that a call enqueues. -/
def enqueued (n n' : Nng) : Nat := ∑ d, added n n' d

/-! ## One send -/

theorem collectPeers_eq_pullPipes (few : (pullPipes n id).length ≤ maxSockets) :
    collectPeers n id .pull0 = pullPipes n id := by
  have same : pullPipes n id = (List.finRange 64).filterMap fun i =>
      (peerAcross id .pull0 (n.pipes i)).filter fun peer =>
        n.socketValid peer && decide ((n.socketPool peer).protocol = Protocol.pull0.code) := by
    refine List.filterMap_congr fun i _ => ?_
    cases used : (n.pipes i).inUse with
    | false => simp [peerAcross, used]
    | true =>
        by_cases src : (n.pipes i).src = id
        · simp [peerAcross, used, src, Option.filter]
        · simp [peerAcross, used, src]
  rw [collectPeers, ← same, List.take_of_length_le few]

theorem turn_eq_startTurn (few : (pullPipes n id).length ≤ maxSockets) :
    turn n id = startTurn (n.sockState id).rrIdx (pullPipes n id).length := by
  simp only [turn, cursor, collectPeers_eq_pullPipes few, startTurn]
  split <;> split <;> omega

theorem advance_eq_mod {idx count : Nat} (inside : idx < count) :
    advance idx count = (idx + 1) % count := by
  unfold advance
  split
  · have last : idx + 1 = count := by omega
    rw [last, Nat.mod_self]
  · exact (Nat.mod_eq_of_lt (by omega)).symm

/-- The state after a send that has attempted `d` at the turn `idx`. -/
def afterPush (n : Nng) (id d : SocketId) (msg idx : Nat) : Nng :=
  ((deliverCopy n d msg).2.setState id fun st =>
    { st with rrIdx := advance idx (pullPipes n id).length }).freeMsg msg

theorem Pushes.turn_lt (pushes : Pushes n sock id) : turn n id < (pullPipes n id).length := by
  rw [turn, collectPeers_eq_pullPipes pushes.few]
  exact cursor_lt pushes.peered

theorem Pushes.nngSend (pushes : Pushes n sock id) (now : BitVec 64) {msg : Nat}
    (given : msg ≠ 0) :
    ∃ d, (pullPipes n id)[turn n id]? = some d ∧
      nngSend n now sock msg = ((deliverCopy n d msg).1, afterPush n id d msg (turn n id)) := by
  have peers := collectPeers_eq_pullPipes pushes.few
  have turned : cursor n id (pullPipes n id) = turn n id := by rw [turn, peers]
  have routed : route n now id msg = sendPush n id msg := route_of_protocol pushes.protocol
  obtain ⟨d, chosen⟩ : ∃ d, (pullPipes n id)[turn n id]? = some d :=
    ⟨_, List.getElem?_eq_getElem pushes.turn_lt⟩
  refine ⟨d, chosen, ?_⟩
  simp only [Kernel.nngSend, given, if_false, pushes.socket, routed, sendPush, peers, turned,
    chosen]
  rfl

section After

variable (n id) (d : SocketId) (msg idx : Nat)

/-- A send leaves sockets and pipes alone. -/
theorem afterPush_wiring : (afterPush n id d msg idx).socketPool = n.socketPool ∧
    (afterPush n id d msg idx).pipes = n.pipes :=
  ⟨(deliverCopy_sameWiring n d msg).socketPool, (deliverCopy_sameWiring n d msg).pipes⟩

theorem afterPush_pullPipes : pullPipes (afterPush n id d msg idx) id = pullPipes n id := by
  obtain ⟨sockets, pipes⟩ := afterPush_wiring n id d msg idx
  simp only [pullPipes, Nng.socketValid, sockets, pipes]
  rfl

end After

theorem Pushes.after (pushes : Pushes n sock id) (d : SocketId) (msg idx : Nat) :
    Pushes (afterPush n id d msg idx) sock id := by
  obtain ⟨sockets, -⟩ := afterPush_wiring n id d msg idx
  have peers := afterPush_pullPipes n id d msg idx
  have valid : (afterPush n id d msg idx).socketValid = n.socketValid := by
    funext e
    simp only [Nng.socketValid, sockets]
  refine ⟨?_, ?_, ?_, ?_⟩
  · rw [Nng.valid?, valid]
    exact pushes.socket
  · rw [sockets]
    exact pushes.protocol
  · rw [peers]
    exact pushes.peered
  · rw [peers]
    exact pushes.few

/-- The next send takes the next turn. -/
theorem Pushes.turn_after (pushes : Pushes n sock id) (d : SocketId) (msg : Nat) :
    turn (afterPush n id d msg (turn n id)) id = (turn n id + 1) % (pullPipes n id).length := by
  have inside := pushes.turn_lt
  have stored : ((afterPush n id d msg (turn n id)).sockState id).rrIdx =
      (advance (turn n id) (pullPipes n id).length : Nat) := by
    simp [afterPush, Nng.freeMsg, Nng.setState]
  have below : (turn n id + 1) % (pullPipes n id).length < (pullPipes n id).length :=
    Nat.mod_lt _ (by omega)
  rw [turn_eq_startTurn (pushes.after d msg _).few, stored, afterPush_pullPipes,
    advance_eq_mod inside, startTurn, if_pos ⟨Int.natCast_nonneg _, by omega⟩, Int.toNat_natCast]

/-- A delivery enqueues one copy, or it fails and enqueues none. -/
theorem enqueued_deliverCopy (n : Nng) (d : SocketId) (msg : Nat) :
    (deliverCopy n d msg).1 = .ok ↔ enqueued n (deliverCopy n d msg).2 = 1 := by
  rcases deliverCopy_outcome n d msg with ⟨failed, queues⟩ | ⟨ok, copy, queues⟩
  · refine iff_of_false failed ?_
    simp [enqueued, added, queues]
  · refine iff_of_true ok ?_
    have one : ∀ e, added n (deliverCopy n d msg).2 e = if e = d then 1 else 0 := by
      intro e
      rw [added, queues]
      by_cases here : e = d
      · subst here
        simp
      · simp [here]
    simp [enqueued, one]

/-! ## Consecutive sends -/

/-- Sends on one socket, each with its time and its message. -/
def pushCalls (sock : NngSocket) (sends : List (BitVec 64 × Nat)) : List NngOp :=
  sends.map fun send => .send send.1 sock send.2

theorem Pushes.after_sends (pushes : Pushes n sock id) (sends : List (BitVec 64 × Nat))
    (given : ∀ send ∈ sends, send.2 ≠ 0) :
    let n' := Runs.after nngStep n (pushCalls sock sends)
    Pushes n' sock id ∧ pullPipes n' id = pullPipes n id ∧
      turn n' id = (turn n id + sends.length) % (pullPipes n id).length := by
  induction sends generalizing n with
  | nil =>
      exact ⟨pushes, rfl, (Nat.mod_eq_of_lt pushes.turn_lt).symm⟩
  | cons send sends ih =>
      obtain ⟨first, given⟩ := List.forall_mem_cons.mp given
      obtain ⟨d, -, sent⟩ := pushes.nngSend send.1 first
      have step : nngStep n (.send send.1 sock send.2) = afterPush n id d send.2 (turn n id) := by
        rw [nngStep, sent]
      obtain ⟨later, peers, turns⟩ := ih (pushes.after d send.2 (turn n id)) given
      rw [← step] at later peers turns
      refine ⟨later, ?_, ?_⟩
      · rw [← afterPush_pullPipes n id d send.2 (turn n id), ← step]
        exact peers
      · refine turns.trans ?_
        rw [step, afterPush_pullPipes, pushes.turn_after, Nat.mod_add_mod, List.length_cons,
          Nat.add_right_comm, Nat.add_assoc (turn n id)]

/-- In `k` consecutive turns modulo `count` each index has its share, rounded down or up. -/
theorem count_turns {count j : Nat} (inside : j < count) (s k : Nat) :
    let turns := (List.range k).countP fun i => decide ((s + i) % count = j)
    turns = k / count ∨ turns = (k + count - 1) / count := by
  have pos : 0 < count := by omega
  -- the turn of `j` comes at the numbers congruent to `v`
  have shifted : ∃ v, ∀ i, (s + i) % count = j ↔ i ≡ v [MOD count] := by
    refine ⟨j + (count - 1) * s, fun i => ?_⟩
    have whole : s + (j + (count - 1) * s) = j + count * s := by
      obtain ⟨c, rfl⟩ := Nat.exists_eq_add_of_le' pos
      rw [Nat.add_sub_cancel]
      ring
    rw [← Nat.ModEq.add_iff_left (Nat.ModEq.refl s), whole, Nat.ModEq, Nat.add_mul_mod_self_left,
      Nat.mod_eq_of_lt inside]
  obtain ⟨v, shifted⟩ := shifted
  have counted := Nat.count_modEq_card k pos v
  rw [Nat.count_eq_card_filter_range] at counted
  have same : (List.range k).countP (fun i => decide ((s + i) % count = j)) =
      k / count + if v % count < k % count then 1 else 0 := by
    rw [← counted, List.countP_eq_length_filter]
    simp only [shifted]
    rfl
  have split := Nat.div_add_mod k count
  dsimp only
  rw [same]
  by_cases more : v % count < k % count
  · refine .inr ?_
    rw [if_pos more]
    symm
    apply Nat.div_eq_of_lt_le
    · rw [Nat.add_mul, Nat.mul_comm]
      omega
    · have := Nat.mod_lt k pos
      rw [Nat.add_mul, Nat.add_mul, Nat.mul_comm]
      omega
  · exact .inl (by rw [if_neg more, Nat.add_zero])

/-- The turns of the sends of a run. -/
def turns (n : Nng) (id : SocketId) (calls : List NngOp) : List Nat :=
  Runs.outputs nngStep (fun n _ => [turn n id]) n calls

theorem Pushes.turns_eq (pushes : Pushes n sock id) (sends : List (BitVec 64 × Nat))
    (given : ∀ send ∈ sends, send.2 ≠ 0) :
    turns n id (pushCalls sock sends) =
      (List.range sends.length).map fun i => (turn n id + i) % (pullPipes n id).length := by
  induction sends using List.reverseRecOn with
  | nil => rfl
  | append_singleton sends send ih =>
      have earlier := fun send here => given send (List.mem_append_left _ here)
      obtain ⟨-, -, now⟩ := pushes.after_sends sends earlier
      rw [pushCalls, List.map_append, List.map_singleton, turns, Runs.outputs_concat, ← turns,
        ← pushCalls, ih earlier, now, List.length_append, List.length_singleton,
        List.range_succ, List.map_append, List.map_singleton]

/-- PUSH is a fair round robin, from any state of the sockets and any stored cursor. The `i`-th of
consecutive sends attempts the pipe `i` places behind the first one and no other, each of the
pipes has its share of the turns, and a send succeeds just if it enqueues one copy. -/
theorem push_round_robin (n : Nng) (sock : NngSocket) (id : SocketId) (pushes : Pushes n sock id)
    (sends : List (BitVec 64 × Nat)) (given : ∀ send ∈ sends, send.2 ≠ 0) :
    let count := (pullPipes n id).length
    let s := startTurn (n.sockState id).rrIdx count
    (∀ i now msg, sends[i]? = some (now, msg) →
      let n' := Runs.after nngStep n (pushCalls sock (sends.take i))
      turn n' id = (s + i) % count ∧
        (∃ d, (pullPipes n id)[(s + i) % count]? = some d ∧ Attempts n' now sock id msg d) ∧
        ((nngSend n' now sock msg).1 = .ok ↔ enqueued n' (nngSend n' now sock msg).2 = 1)) ∧
    ∀ j < count, let share := (turns n id (pushCalls sock sends)).count j
      share = sends.length / count ∨ share = (sends.length + count - 1) / count := by
  have start := turn_eq_startTurn pushes.few
  refine ⟨fun i now msg at_i => ?_, fun j inside => ?_⟩
  · have earlier : ∀ send ∈ sends.take i, send.2 ≠ 0 := fun send here =>
      given send (List.mem_of_mem_take here)
    have length : (sends.take i).length = i :=
      List.length_take_of_le (List.getElem?_eq_some_iff.mp at_i).1.le
    obtain ⟨still, peers, turned⟩ := pushes.after_sends (sends.take i) earlier
    rw [length, start] at turned
    obtain ⟨d, chosen, sent⟩ := still.nngSend now (given _ (List.mem_of_getElem? at_i))
    rw [peers, turned] at chosen
    refine ⟨turned, ⟨d, chosen, _, sent⟩, ?_⟩
    rw [sent]
    exact enqueued_deliverCopy _ d msg
  · rw [pushes.turns_eq sends given, start, List.count, List.countP_map]
    exact count_turns inside _ sends.length

/-- A PUSH socket with pipes to two PULL sockets, and three messages. -/
def distributor : List NngOp :=
  [.socketCreate Protocol.push0.code, .socketCreate Protocol.pull0.code,
    .socketCreate Protocol.pull0.code, .connect (socketAt 0) (socketAt 1),
    .connect (socketAt 0) (socketAt 2), .msgAlloc 0, .msgAlloc 0, .msgAlloc 0]

/-- The distributor with a cursor that points to no peer. -/
def distributing : Nng :=
  (Runs.after nngStep (nngInit (boot sampleImage).nng) distributor).setState ⟨0, by decide⟩
    fun st => { st with rrIdx := -7 }

theorem push_round_robin_distributing :
    let sends := [(0, 0x800000), (0, 0x800080), (0, 0x800100)]
    let share := (turns distributing 0 (pushCalls (socketAt 0) sends)).count 0
    Pushes distributing (socketAt 0) 0 ∧ pullPipes distributing 0 = [1, 2] ∧
      turns distributing 0 (pushCalls (socketAt 0) sends) = [0, 1, 0] ∧
      (share = 1 ∨ share = 2) := by
  intro sends share
  have pipes : pullPipes distributing 0 = [1, 2] := by decide +kernel
  have pushes : Pushes distributing (socketAt 0) 0 := by
    constructor <;> decide +kernel
  obtain ⟨-, shares⟩ := push_round_robin distributing (socketAt 0) 0 pushes sends (by decide)
  rw [pipes] at shares
  refine ⟨pushes, pipes, by decide +kernel, ?_⟩
  simpa [share, sends] using shares 0 (by decide)

end LughOS.Kernel

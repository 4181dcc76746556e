import LughOS.Kernel.PoolInvariant
import LughOS.Kernel.Transport

/-!
# Calls on messages and sockets

The interface of `nngcompat.h` used directly, next to the calls of `ipc.h`. A caller may
allocate messages of any size up to `MSG_BUFFER_SIZE`, append to them and send them, so the
sizes that `ipc_send` produces are not the only ones.

The body of a message lives in a block of the size class of the allocation request, while
`nng_msg_append` admits 256 bytes whatever was requested, and `deliver_copy` requests the
smallest class for every copy. `bodies_fit_their_blocks` says which callers are safe, and
`append_overruns_block` is the simplest one that is not.
-/

namespace LughOS.Kernel

open Bytes

/-- The calls of `nngcompat.h`. A message is passed by its address. The `row` of an unsubscription
is the one that a topic of 256 bytes or more agrees with. -/
inductive NngOp where
  | msgAlloc (size : Nat)
  | msgAppend (msg : Nat) (data : Data)
  | msgFree (msg : Nat)
  | socketCreate (protocol : Int)
  | socketClose (sock : NngSocket)
  | connect (src dst : NngSocket)
  | subSubscribe (sock : NngSocket) (topic : List Byte)
  | subUnsubscribe (sock : NngSocket) (topic : List Byte) (row : Option Nat)
  | send (now : BitVec 64) (sock : NngSocket) (msg : Nat)
  | recv (now : BitVec 64) (sock : NngSocket)

def nngStep (n : Nng) : NngOp → Nng
  | .msgAlloc size => { n with pool := (nngMsgAlloc n.pool size).2 }
  | .msgAppend msg data => { n with pool := (nngMsgAppend n.pool msg data).2 }
  | .msgFree msg => n.freeMsg msg
  | .socketCreate protocol => (nngSocketCreate n protocol).2
  | .socketClose sock => (nngSocketClose n sock).2.2
  | .connect src dst => (nngConnect n src dst).2
  | .subSubscribe sock topic => (nngSubSubscribe n sock topic).2
  | .subUnsubscribe sock topic row => (nngSubUnsubscribe n sock topic row).2
  | .send now sock msg => (nngSend n now sock msg).2
  | .recv now sock => (nngRecv n now sock).2

/-- What a call does to the pool: three calls work on a message, the others only free some. -/
inductive PoolStep (n : Nng) : NngOp → Pool → Prop where
  | alloc (size : Nat) : PoolStep n (.msgAlloc size) (nngMsgAlloc n.pool size).2
  | append (msg : Nat) (data : Data) :
      PoolStep n (.msgAppend msg data) (nngMsgAppend n.pool msg data).2
  | send (now : BitVec 64) (sock : NngSocket) (msg : Nat) :
      PoolStep n (.send now sock msg) (nngSend n now sock msg).2.pool
  | free (op : NngOp) (msgs : List Nat) : PoolStep n op (freeAll n.pool msgs)

theorem nngStep_poolStep (n : Nng) (op : NngOp) : PoolStep n op (nngStep n op).pool := by
  cases op with
  | msgAlloc size => exact .alloc size
  | msgAppend msg data => exact .append msg data
  | send now sock msg => exact .send now sock msg
  | msgFree msg => exact .free _ [msg]
  | socketCreate protocol =>
      unfold nngStep nngSocketCreate
      dsimp only
      split <;> exact .free _ []
  | socketClose sock =>
      unfold nngStep nngSocketClose
      dsimp only
      split
      · exact .free _ []
      · rw [closeSocket_eq]
        exact .free _ _
  | connect src dst =>
      obtain ⟨pipes, eq⟩ := nngConnect_eq n src dst
      rw [nngStep, eq]
      exact .free _ []
  | subSubscribe sock topic =>
      obtain ⟨state, eq, -⟩ := nngSubSubscribe_eq n sock topic
      rw [nngStep, eq]
      exact .free _ []
  | subUnsubscribe sock topic row =>
      obtain ⟨state, eq, -⟩ := nngSubUnsubscribe_eq n sock topic row
      rw [nngStep, eq]
      exact .free _ []
  | recv now sock =>
      unfold nngStep nngRecv
      dsimp only
      split
      · exact .free _ []
      split
      · rw [expireSurvey_pool]
        exact .free _ []
      · dsimp only
        rw [expireSurvey_pool]
        exact .free _ []

/-- A call of either interface. -/
inductive Call where
  | ipc (op : Op)
  | nng (op : NngOp)

def callStep (s : System) : Call → System
  | .ipc op => step s op
  | .nng op => { s with nng := nngStep s.nng op }

/-! ## Callers that respect the blocks -/

/-- Address `x` is a live message whose block holds `size` more bytes. -/
def RoomFor (p : Pool) (x size : Nat) : Prop :=
  ∃ s, p.SlotUsed s ∧ (p.msgSlots s).msg = x ∧
    ∃ b : Block, (p.msgSlots s).buffer = b.address ∧ p.bodyLen x + size ≤ b.size

/-- Address `x` is a live message with at most 64 bytes. -/
def SmallMessage (p : Pool) (x : Nat) : Prop :=
  ∃ s, p.SlotUsed s ∧ (p.msgSlots s).msg = x ∧ p.bodyLen x ≤ 64

/-- An append that is accepted stays inside the block, and what is sent fits into the blocks
of its copies. -/
def NngFits (n : Nng) : NngOp → Prop
  | .msgAppend x data => (nngMsgAppend n.pool x data).1 = .ok → RoomFor n.pool x data.size
  | .send _ sock x => (n.valid? sock.id).isSome → x ≠ 0 → SmallMessage n.pool x
  | _ => True

def FitsBlock (s : System) : Call → Prop
  | .ipc op => SendsShort s op
  | .nng op => NngFits s.nng op

instance (p : Pool) (x size : Nat) : Decidable (RoomFor p x size) :=
  inferInstanceAs (Decidable (∃ _, _))

instance (p : Pool) (x : Nat) : Decidable (SmallMessage p x) :=
  inferInstanceAs (Decidable (∃ _, _))

instance (n : Nng) (op : NngOp) : Decidable (NngFits n op) :=
  match op with
  | .msgAppend x data =>
      inferInstanceAs (Decidable ((nngMsgAppend n.pool x data).1 = .ok →
        RoomFor n.pool x data.size))
  | .send _ sock x =>
      inferInstanceAs (Decidable ((n.valid? sock.id).isSome → x ≠ 0 → SmallMessage n.pool x))
  | .msgAlloc _ | .msgFree _ | .socketCreate _ | .socketClose _ | .connect _ _
  | .subSubscribe _ _ | .subUnsubscribe _ _ _ | .recv _ _ => .isTrue trivial

instance (s : System) (call : Call) : Decidable (FitsBlock s call) :=
  match call with
  | .ipc op => inferInstanceAs (Decidable (SendsShort s op))
  | .nng op => inferInstanceAs (Decidable (NngFits s.nng op))

/-! ## The pool stays sound -/

variable {foreign : Finset Block} {p : Pool} {x : Nat}

/-- Slots own their blocks whatever is called, and wherever an append writes. -/
theorem Ownership.nngStep {n : Nng} (owned : Ownership foreign n.pool) (op : NngOp) :
    Ownership foreign (nngStep n op).pool := by
  have inv := ownership_invariant foreign
  have moved := nngStep_poolStep n op
  generalize (Kernel.nngStep n op).pool = p' at moved ⊢
  cases moved with
  | alloc size =>
      obtain ⟨rv, p', failed, same⟩ | ⟨s, m, b, p', result, gains, -⟩ :=
        nngMsgAlloc_ownership owned.laid size
      · rw [failed]
        exact owned.unchanged same
      · rw [result]
        exact owned.gain gains
  | append msg data =>
      obtain ⟨mem, written⟩ := nngMsgAppend_withMem n.pool msg data
      rw [written]
      exact owned.withMem mem
  | send now sock msg => exact inv.nngSend owned rfl
  | free op msgs => exact inv.freeAll owned msgs

theorem Sound.stored_at (sound : Sound foreign p) {s : SlotIndex} (used : p.SlotUsed s) :
    ∃ m b, (p.msgSlots s).msg = m.address ∧ (p.msgSlots s).buffer = b.address ∧
      Stored p s m b := by
  obtain ⟨m, b, stored⟩ := sound.stored s used
  exact ⟨m, b, by rw [stored.slot], by rw [stored.slot], stored⟩

theorem Sound.nngMsgAppend (sound : Sound foreign p) {data : Data}
    (room : (nngMsgAppend p x data).1 = .ok → RoomFor p x data.size) :
    Sound foreign (nngMsgAppend p x data).2 := by
  obtain ⟨rv, -, refused⟩ | ⟨mem, written⟩ := nngMsgAppend_cases p x data
  · rwa [refused]
  · obtain ⟨s, used, rfl, b', buffer', room⟩ := room (by rw [written])
    obtain ⟨m, b, msg, buffer, stored⟩ := sound.stored_at used
    obtain rfl : b = b' := Block.address_inj (buffer.symm.trans buffer')
    rw [msg] at room ⊢
    obtain ⟨rv, -, failed⟩ | ⟨mem, result, stored', keeps, -⟩ := sound.owned.append stored room
    · rwa [failed]
    rw [result]
    refine ⟨sound.owned.withMem mem, fun s' used' => ?_⟩
    by_cases it : s' = s
    · subst it
      exact ⟨m, b, stored'⟩
    · obtain ⟨m', b', before⟩ := sound.stored s' used'
      exact ⟨m', b', (keeps s' m' b' it before).1⟩

theorem Sound.nngSend {n : Nng} (sound : Sound foreign n.pool) {now : BitVec 64}
    {sock : NngSocket} (fits : (n.valid? sock.id).isSome → x ≠ 0 → SmallMessage n.pool x) :
    Sound foreign (nngSend n now sock x).2.pool := by
  unfold Kernel.nngSend
  split
  · exact sound
  rename_i nonzero
  split
  · exact sound
  rename_i id valid
  obtain ⟨s, used, msg, small⟩ := fits (by rw [valid]; rfl) nonzero
  obtain ⟨m, b, msg', -, stored⟩ := sound.stored_at used
  rw [← msg, msg'] at small ⊢
  exact (((route_routes n now id m.address).copies sound stored small).sound.freed _).sound

theorem nngStep_sound {n : Nng} (sound : Sound foreign n.pool) {op : NngOp}
    (fits : NngFits n op) : Sound foreign (nngStep n op).pool := by
  have moved := nngStep_poolStep n op
  generalize (nngStep n op).pool = p' at moved ⊢
  cases moved with
  | alloc size =>
      obtain ⟨rv, p', failed, same⟩ | ⟨s, m, b, p', result, begun⟩ := sound.owned.alloc size
      · rw [failed]
        exact (same.givenUp sound.owned).sound sound
      · rw [result]
        exact begun.sound sound
  | append msg data => exact sound.nngMsgAppend fits
  | send now sock msg => exact sound.nngSend fits
  | free op msgs => exact (sound.freeAll msgs).sound

theorem callStep_sound {s : System} (sound : Sound foreign s.nng.pool) {call : Call}
    (fits : FitsBlock s call) : Sound foreign (callStep s call).nng.pool := by
  cases call with
  | ipc op => exact step_sound sound fits
  | nng op => exact nngStep_sound sound fits

/-- In a run from `init_ipc` whose calls respect the blocks, every live message has its body
in the block its slot names, and fits there. -/
theorem bodies_fit_their_blocks (k : System) (laid : k.nng.pool.heap.LaidOut)
    (calls : List Call) (fit : Runs.Meets callStep FitsBlock (initIpc k) calls) :
    let p := (Runs.after callStep (initIpc k) calls).nng.pool
    ∀ s, p.SlotUsed s → ∃ b : Block, (p.msgSlots s).buffer = b.address ∧ p.heap.Used b ∧
      p.body (p.msgSlots s).msg = b.address ∧ p.bodyLen (p.msgSlots s).msg ≤ b.size := by
  intro p s used
  have sound : Sound (usedBlocks k.nng.pool.heap) p :=
    Runs.run_invariant (I := fun s => Sound _ s.nng.pool) (nngInit_sound k.nng laid)
      (fun _ _ sound fits => callStep_sound sound fits) fit
  obtain ⟨m, b, stored⟩ := sound.stored s used
  refine ⟨b, by rw [stored.slot], (sound.owned.blocks_used stored).2, ?_, ?_⟩
  · rw [stored.slot]
    exact stored.body
  · rw [stored.slot]
    exact stored.fits

/-- A message of 100 bytes in a block of 256. -/
def hundredBytes : List Call :=
  [.nng (.msgAlloc 100), .nng (.msgAppend 0x800000 (.object (List.replicate 100 1)))]

theorem bodies_fit_their_blocks_hundred :
    let p := (Runs.after callStep (initIpc (boot sampleImage)) hundredBytes).nng.pool
    p.SlotUsed 0 ∧ p.bodyLen 0x800000 = 100 ∧
      ∃ b : Block, (p.msgSlots 0).buffer = b.address ∧ p.heap.Used b ∧
        p.body (p.msgSlots 0).msg = b.address ∧ p.bodyLen (p.msgSlots 0).msg ≤ b.size := by
  refine ⟨?_, ?_, bodies_fit_their_blocks (boot sampleImage) (memoryInit_laidOut _ _)
    hundredBytes ?_ 0 ?_⟩ <;> decide +kernel

/-- `nng_msg_alloc(0)` takes a block of 64 bytes for the body, and 65 bytes are appended. -/
theorem append_overruns_block :
    let s := Runs.after callStep (boot sampleImage) [.nng (.msgAlloc 0),
      .nng (.msgAppend 0x800000 (.object (List.replicate 65 1)))]
    s.nng.pool.SlotUsed 0 ∧ (s.nng.pool.msgSlots 0).msg = 0x800000 ∧
      (s.nng.pool.msgSlots 0).buffer = Block.address (0, 1) ∧ Block.size (0, 1) = 64 ∧
      s.nng.pool.body 0x800000 = Block.address (0, 1) ∧ s.nng.pool.bodyLen 0x800000 = 65 := by
  decide +kernel

end LughOS.Kernel

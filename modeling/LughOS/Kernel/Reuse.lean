import LughOS.Kernel.Connections

/-!
# A reused channel starts clean

Channels and sockets are handed out again after a close, by two different numberings.
`nng_socket_create` clears the subscriptions, the return addresses and the cursor of the
socket it takes, and leaves the receive queue and the pipes as they are: those were emptied
when the socket was closed, and nothing may have reached them since.

`Tidy` is the invariant that makes this work. It refines `Wired` by the two directions that
concern sockets nobody owns. Subscriptions are made on the socket of a channel behind the
back of `ipc.c`, so the runs here interleave `nng_sub_subscribe` with the calls on channels.
-/

namespace LughOS.Kernel

open Bytes

/-- Open sockets belong to open channels, and nothing waits at a closed socket. -/
structure Tidy (s : System) : Prop where
  wired : Wired s
  owner : ∀ d, (s.nng.socketPool d).id = some d →
    ∃ c, (s.channels c).inUse = true ∧ (s.channels c).socket.id = some d
  quiet : ∀ d, (s.nng.socketPool d).id ≠ some d → s.nng.recvQueues d = []

theorem initIpc_tidy (k : System) : Tidy (initIpc k) where
  wired := initIpc_wired k
  owner := fun d isOpen => by simp [initIpc, nngInit] at isOpen
  quiet := fun d _ => rfl

variable {s s' : System} {op : Op}

theorem Tidy.owner_rewired (tidy : Tidy s) (rewired : Rewired s op s') (d : SocketId)
    (isOpen : (s'.nng.socketPool d).id = some d) :
    ∃ c, (s'.channels c).inUse = true ∧ (s'.channels c).socket.id = some d := by
  cases rewired with
  | kept id channels socketPool pipes addresses =>
      rw [socketPool] at isOpen
      rw [channels]
      exact tidy.owner d isOpen
  | created c e ch creates unused free used socket channels socketPool pipes cleared others =>
      rw [channels]
      by_cases new : d = e
      · subst new
        exact ⟨c, by rw [Function.update_self]; exact used,
          by rw [Function.update_self]; exact socket⟩
      · rw [socketPool, Function.update_of_ne new] at isOpen
        obtain ⟨c', used', socket'⟩ := tidy.owner d isOpen
        have other : c' ≠ c := by
          rintro rfl
          rw [unused] at used'
          cases used'
        exact ⟨c', by rwa [Function.update_of_ne other], by rwa [Function.update_of_ne other]⟩
  | closed c e used socket channel channels freed socketPool pipes ends sockState =>
      have apart : d ≠ e := by
        rintro rfl
        rw [freed] at isOpen
        cases isOpen
      rw [socketPool d apart] at isOpen
      obtain ⟨c', used', socket'⟩ := tidy.owner d isOpen
      have other : c' ≠ c := by
        rintro rfl
        rw [socket] at socket'
        exact apart (Option.some.inj socket').symm
      exact ⟨c', by rwa [channels c' other], by rwa [channels c' other]⟩
  | connected src dst sId dId i call result usedSrc usedDst flow socketSrc socketDst validSrc
      validDst free channels socketPool pipes sockState =>
      rw [socketPool] at isOpen
      rw [channels]
      exact tidy.owner d isOpen

/-- Whatever a send can reach is open. -/
theorem Wired.target_open (wired : Wired s) {id d : SocketId} (target : Target s.nng id d) :
    (s.nng.socketPool d).id = some d := by
  cases target with
  | pipe i used src dst speaks =>
      rw [← dst]
      exact (wired.pipe i used).2
  | bus i used src dst mine theirs =>
      rw [← src]
      exact (wired.pipe i used).1
  | reply mine address valid => exact socketValid_iff.mp valid
  | answer mine address valid => exact socketValid_iff.mp valid

theorem Tidy.quiet_moved (tidy : Tidy s) {n' : Nng} (moved : Moved s op n') (d : SocketId)
    (closed : (n'.socketPool d).id ≠ some d) : n'.recvQueues d = [] := by
  cases moved with
  | still pool queues kept =>
      rw [queues]
      exact tidy.quiet d fun isOpen => closed (kept d isOpen)
  | sent id msg ring call sent =>
      cases sent with
      | refused => exact tidy.quiet d closed
      | unconverted ok converted => exact tidy.quiet d closed
      | unsent ok converted _ => exact tidy.quiet d closed
      | @routed c m src p e n'' ok converted socket valid routes =>
          have before : (s.nng.socketPool d).id ≠ some d := by
            simpa only [Nng.freeMsg, routes.socketPool] using closed
          by_contra nonempty
          -- the queue was empty before, so the send reached a closed socket
          have grown : n''.recvQueues d ≠ s.nng.recvQueues d := by
            rw [tidy.quiet d before]
            exact nonempty
          exact before (tidy.wired.target_open ((routes.queues d).2 grown).of_pool)
  | received id received =>
      cases received with
      | refused => exact tidy.quiet d closed
      | empty e =>
          rw [(expireSurvey_sameWiring s.nng s.jiffies e).socketPool] at closed
          rw [expireSurvey_recvQueues]
          exact tidy.quiet d closed
      | @taken c e src rest channel socket queue =>
          simp only [Nng.freeMsg, (expireSurvey_sameWiring s.nng s.jiffies e).socketPool] at closed
          have empty := tidy.quiet d closed
          have other : d ≠ e := by
            rintro rfl
            rw [queue] at empty
            cases empty
          simpa only [Nng.freeMsg, Function.update_of_ne other] using empty
  | closed c e used socket eq =>
      rw [eq, closeSocket_eq] at closed ⊢
      by_cases here : d = e
      · subst here
        simp
      · simp only [Function.update_of_ne here] at closed ⊢
        exact tidy.quiet d closed

/-! ## Runs -/

/-- A call on channels, or one on the subscriptions of their sockets. -/
inductive ChannelCall where
  | ipc (op : Op)
  | subscribe (sock : NngSocket) (topic : List Byte)
  | unsubscribe (sock : NngSocket) (topic : List Byte) (row : Option Nat)

def channelStep (s : System) : ChannelCall → System
  | .ipc op => step s op
  | .subscribe sock topic => { s with nng := (nngSubSubscribe s.nng sock topic).2 }
  | .unsubscribe sock topic row => { s with nng := (nngSubUnsubscribe s.nng sock topic row).2 }

theorem Tidy.channelStep (tidy : Tidy s) (call : ChannelCall) : Tidy (channelStep s call) := by
  cases call with
  | ipc op =>
      exact ⟨tidy.wired.rewired (step_rewired s op), tidy.owner_rewired (step_rewired s op),
        tidy.quiet_moved (step_moved s op)⟩
  | subscribe sock topic =>
      obtain ⟨state, eq, -⟩ := nngSubSubscribe_eq s.nng sock topic
      simp only [Kernel.channelStep, eq]
      exact ⟨⟨tidy.wired.socket, tidy.wired.unique, tidy.wired.pipe⟩, tidy.owner, tidy.quiet⟩
  | unsubscribe sock topic row =>
      obtain ⟨state, eq, -⟩ := nngSubUnsubscribe_eq s.nng sock topic row
      simp only [Kernel.channelStep, eq]
      exact ⟨⟨tidy.wired.socket, tidy.wired.unique, tidy.wired.pipe⟩, tidy.owner, tidy.quiet⟩

theorem tidy_after (k : System) (calls : List ChannelCall) :
    Tidy (Runs.after Kernel.channelStep (initIpc k) calls) :=
  Runs.invariant_after (initIpc_tidy k) (fun _ call tidy => tidy.channelStep call) calls

/-! ## What a new channel starts with -/

/-- Channel `c` has nothing queued, no pipe and no subscription. -/
def Fresh (s : System) (c : ChannelId) : Prop :=
  ∃ d, (s.channels c).socket.id = some d ∧ s.nng.recvQueues d = [] ∧
    (∀ i, (s.nng.pipes i).inUse = true → (s.nng.pipes i).src ≠ d ∧ (s.nng.pipes i).dst ≠ d) ∧
    (s.nng.sockState d).topics = []

theorem Tidy.fresh (tidy : Tidy s) {level domain caps : BitVec 32} {protocol : Int}
    {c : ChannelId} (created : (ipcCreateChannel s level domain caps protocol).1 = c.val) :
    Fresh (ipcCreateChannel s level domain caps protocol).2 c := by
  obtain ⟨failed, -⟩ | ⟨task, c', sock, nng, -, -, -, -, socket, result, nng_eq, channels, -⟩ :=
    ipcCreateChannel_cases s level domain caps protocol
  · omega
  obtain rfl : c' = c := Fin.ext (by exact_mod_cast result.symm.trans created)
  unfold nngSocketCreate at socket
  split at socket <;> cases socket
  rename_i e free
  have unowned : (s.nng.socketPool e).id ≠ some e := by
    rw [freeSocket?_free free]
    simp
  refine ⟨e, by rw [channels, Function.update_self], ?_, fun i used => ?_, ?_⟩ <;>
    rw [nng_eq] at *
  · exact tidy.quiet e unowned
  · -- a pipe at the new socket would join a closed one
    obtain ⟨src, dst⟩ := tidy.wired.pipe i used
    exact ⟨fun here => unowned (here ▸ src), fun here => unowned (here ▸ dst)⟩
  · simp

/-- In every state reachable from `init_ipc` the channel, socket, pipe and queue tables agree,
and a channel created there starts without residue. -/
theorem no_residue_on_reuse (k : System) (calls : List ChannelCall) :
    let s := Runs.after channelStep (initIpc k) calls
    (∀ c, (s.channels c).inUse = true → ∃ d, (s.channels c).socket.id = some d ∧
        (s.nng.socketPool d).id = some d ∧
        (s.nng.socketPool d).protocol = (s.channels c).socket.protocol) ∧
      (∀ c c', (s.channels c).inUse = true → (s.channels c').inUse = true →
        (s.channels c).socket.id = (s.channels c').socket.id → c = c') ∧
      (∀ i, (s.nng.pipes i).inUse = true →
        s.nng.socketValid (s.nng.pipes i).src = true ∧
          s.nng.socketValid (s.nng.pipes i).dst = true) ∧
      (∀ d, (∀ c, (s.channels c).inUse = true → (s.channels c).socket.id ≠ some d) →
        s.nng.recvQueues d = []) ∧
      ∀ level domain caps protocol, ∀ c : ChannelId,
        (ipcCreateChannel s level domain caps protocol).1 = c.val →
          Fresh (ipcCreateChannel s level domain caps protocol).2 c := by
  intro s
  have tidy : Tidy s := tidy_after k calls
  refine ⟨tidy.wired.socket, tidy.wired.unique, fun i used => ?_, fun d unowned => ?_,
    fun _ _ _ _ _ created => tidy.fresh created⟩
  · simp only [socketValid_iff]
    exact tidy.wired.pipe i used
  · refine tidy.quiet d fun isOpen => ?_
    obtain ⟨c, used, socket⟩ := tidy.owner d isOpen
    exact unowned c used socket

end LughOS.Kernel

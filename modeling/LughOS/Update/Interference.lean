import LughOS.Storage.Copies
import LughOS.Update.Initialisation

/-!
# Transactions that share a name buffer

`init_update_transaction` builds the name of the checkpoint in a static buffer and leaves the
address of the buffer in the state. An update that is executed later hands that address to the
store, so that its key is whatever name was built last. `transactions_apart_iff` is about every
order of initialisations and executions on any number of states: each execution uses the name of
its own transaction, and different transactions use different names, just if at each execution the
name built last is the own one, and no two of the transactions agree in the first 200 characters of
the path and in the low word of the id.
-/

namespace LughOS.Update

open Bytes Kernel Storage Workflow

/-! ## What an execution leaves alone -/

/-- The name buffer lies apart from the tables of the store and from the stage of the sandbox, and
the only backend is the one in memory. -/
@[mk_iff]
structure NameApart (u : Updater) : Prop where
  backend : u.backend = none ∨ u.backend = some memoryStorageOps
  fits : ∀ b, (u.store.registeredBuffers b).size ≤ checkpointSize
  outside : u.store.layout.Outside u.checkpoint 256
  stage : u.checkpoint + 256 ≤ u.sandboxStage ∨ u.sandboxStage + sandboxStageSize ≤ u.checkpoint

/-- The statics and the bindings are as before, and so is the name buffer. -/
structure Updater.Keeps (u u' : Updater) : Prop where
  backend : u'.backend = u.backend
  checkpoint : u'.checkpoint = u.checkpoint
  stage : u'.sandboxStage = u.sandboxStage
  layout : u'.store.layout = u.store.layout
  buffers : u'.store.registeredBuffers = u.store.registeredBuffers
  name : Mem.EqOn u'.mem u.mem u.checkpoint 256

theorem Updater.Keeps.refl (u : Updater) : u.Keeps u := ⟨rfl, rfl, rfl, rfl, rfl, Mem.EqOn.refl⟩

theorem Updater.Keeps.trans {u v w : Updater} (first : u.Keeps v) (second : v.Keeps w) :
    u.Keeps w where
  backend := second.backend.trans first.backend
  checkpoint := second.checkpoint.trans first.checkpoint
  stage := second.stage.trans first.stage
  layout := second.layout.trans first.layout
  buffers := second.buffers.trans first.buffers
  name := by
    have name := second.name
    rw [first.checkpoint] at name
    exact name.trans first.name

theorem NameApart.keeps {u u' : Updater} (apart : NameApart u) (keeps : u.Keeps u') :
    NameApart u' := by
  refine ⟨?_, ?_, ?_, ?_⟩
  · rw [keeps.backend]
    exact apart.backend
  · rw [keeps.buffers]
    exact apart.fits
  · rw [keeps.layout, keeps.checkpoint]
    exact apart.outside
  · rw [keeps.checkpoint, keeps.stage]
    exact apart.stage

namespace Session

/-- The session is about the same transaction, and the service is kept. -/
structure Keeps (x y : Session) : Prop where
  tx : y.state.tx = x.state.tx
  updater : x.updater.Keeps y.updater

theorem Keeps.refl (x : Session) : x.Keeps x := ⟨rfl, .refl _⟩

theorem Keeps.trans {x y z : Session} (first : x.Keeps y) (second : y.Keeps z) : x.Keeps z :=
  ⟨second.tx.trans first.tx, first.updater.trans second.updater⟩

variable {x : Session} {s : Store}

theorem keeps_setStatus (x : Session) (status : UpdateStatus) : x.Keeps (x.setStatus status) :=
  ⟨rfl, .refl _⟩

theorem keeps_setStore (apart : NameApart x.updater) (frames : x.updater.store.Frames s) :
    x.Keeps (x.setStore s) :=
  ⟨rfl, rfl, rfl, rfl, frames.layout, frames.buffers, frames.memory _ _ apart.outside⟩

end Session

/-- A callback keeps what the others rely on. -/
def Respects (f : Session → Option (Int × Session)) : Prop :=
  ∀ x rv y, NameApart x.updater → f x = some (rv, y) → x.Keeps y

theorem stepCheckpoint_respects : Respects stepCheckpoint := by
  intro x rv y apart returns
  rcases apart.backend with backend | backend
  · have fails : stepCheckpoint x = some (-1, x.setStatus .checkpoint) := by
      simp only [stepCheckpoint, Session.setStatus, backend]
    rw [fails] at returns
    cases returns
    exact x.keeps_setStatus .checkpoint
  · simp only [stepCheckpoint, Session.setStatus, backend, Option.map_eq_some_iff,
      Prod.mk.injEq] at returns
    obtain ⟨⟨code, s⟩, created, -, rfl⟩ := returns
    exact (x.keeps_setStatus .checkpoint).trans
      (Session.keeps_setStore apart (Store.create_frames apart.fits created))

theorem undoRemoveCheckpoint_respects : Respects undoRemoveCheckpoint := by
  intro x rv y apart returns
  rcases apart.backend with backend | backend
  · simp only [undoRemoveCheckpoint, backend] at returns
    cases returns
    exact .refl x
  · simp only [undoRemoveCheckpoint, backend, Option.map_eq_some_iff, Prod.mk.injEq] at returns
    obtain ⟨⟨code, s⟩, removed, -, rfl⟩ := returns
    exact Session.keeps_setStore apart (Store.remove_frames removed)

theorem stepVerify_respects : Respects stepVerify := by
  intro x rv y _ returns
  cases returns
  exact x.keeps_setStatus .verify

/-- The stage has room for what is copied to it. -/
theorem sandboxApply_keeps {x : Session} {image size : Nat} {ok : Bool} {store : Store}
    (apart : NameApart x.updater)
    (applies : sandboxApply x.updater.store x.updater.sandboxStage image size = (ok, store)) :
    x.Keeps (x.setStore store) := by
  have stage := apart.stage
  unfold sandboxApply at applies
  split_ifs at applies
  · cases applies
    exact .refl x
  · cases applies
    exact .refl x
  · cases applies
    exact .refl x
  · cases applies
    exact ⟨rfl, rfl, rfl, rfl, rfl, rfl, Mem.copy_eqOn _ _ (by omega)⟩

theorem stepSandbox_respects : Respects stepSandbox := by
  intro x rv y apart returns
  obtain ⟨ok, store, applies⟩ : ∃ ok store, sandboxApply x.updater.store x.updater.sandboxStage
      x.state.tx.image x.state.tx.size = (ok, store) := ⟨_, _, rfl⟩
  rw [stepSandbox_eq applies] at returns
  cases returns
  have kept := x.keeps_setStatus .sandbox
  exact kept.trans (sandboxApply_keeps (x := x.setStatus .sandbox) apart applies)

theorem stepTest_respects : Respects stepTest := by
  intro x rv y _ returns
  cases returns
  exact x.keeps_setStatus .test

theorem stepInstall_respects : Respects stepInstall := by
  intro x rv y _ returns
  obtain ⟨code, -, same⟩ := Option.map_eq_some_iff.mp returns
  cases same
  exact x.keeps_setStatus .commit

/-- A context object of a run that began with `x`. -/
def Reached (x : Session) (z : Option Session) : Prop := ∀ y, z = some y → x.Keeps y

section Run

variable {x : Session} {z : Option Session}

theorem Respects.reached {f : Session → Option (Int × Session)} (respects : Respects f)
    (apart : NameApart x.updater) (reached : Reached x z) : Reached x (callback f z).2 := by
  intro y returns
  cases z with
  | none => cases returns
  | some z =>
      have before := reached z rfl
      cases called : f z with
      | none =>
          rw [callback_halts called] at returns
          cases returns
      | some result =>
          obtain ⟨rv, z'⟩ := result
          rw [callback_returns called] at returns
          cases returns
          exact before.trans (respects z rv y (apart.keeps before.updater) called)

theorem Reached.step (apart : NameApart x.updater) (reached : Reached x z) :
    ∀ i, Reached x ((updateSteps i).call z).2
  | 0 => stepCheckpoint_respects.reached apart reached
  | 1 => stepVerify_respects.reached apart reached
  | 2 => stepSandbox_respects.reached apart reached
  | 3 => stepTest_respects.reached apart reached
  | 4 => stepInstall_respects.reached apart reached
  | _ + 5 => reached

theorem reached_stateAfter (apart : NameApart x.updater) (i : Nat) :
    Reached x (stateAfter updateSteps (some x) i) := by
  induction i with
  | zero =>
      intro y same
      cases same
      exact .refl x
  | succ i ih => exact ih.step apart i

theorem Reached.undone (apart : NameApart x.updater) (reached : Reached x z) (k : Nat) :
    Reached x (undone k z).2 := by
  unfold Update.undone
  split
  · exact reached
  · exact undoRemoveCheckpoint_respects.reached apart reached

end Run

theorem discardCheckpoint_keeps {x : Session} {store : Store} (apart : NameApart x.updater)
    (discards : discardCheckpoint x = some store) : x.Keeps (x.setStore store) := by
  rcases apart.backend with backend | backend
  · simp only [discardCheckpoint, backend] at discards
    cases discards
    exact .refl x
  · simp only [discardCheckpoint, backend, Option.map_eq_some_iff] at discards
    obtain ⟨⟨code, s⟩, removed, rfl⟩ := discards
    exact Session.keeps_setStore apart (Store.remove_frames removed)

section Execution

variable {w w' : World} {st st' : UpdateState} {rv : Int} {slot : SlotId}

theorem finishUpdate_keeps {e : Engine (Option Session)} {x : Session} {code : Int}
    (apart : NameApart x.updater)
    (finishes : finishUpdate slot code e x = some (rv, st', w')) :
    x.Keeps ⟨st', w'.updater⟩ := by
  unfold finishUpdate at finishes
  split_ifs at finishes
  · obtain ⟨store, discards, same⟩ := Option.map_eq_some_iff.mp finishes
    cases same
    exact (discardCheckpoint_keeps apart discards).trans (Session.keeps_setStatus _ .complete)
  · cases finishes
    exact ⟨rfl, .refl _⟩
  · cases finishes
    exact ⟨rfl, .refl _⟩

/-- Whatever becomes of an update, the transaction, the statics and the name buffer are kept. -/
theorem applyUpdate_keeps (apart : NameApart w.updater)
    (applied : applyUpdate w st = some (rv, st', w')) :
    st'.tx = st.tx ∧ w.updater.Keeps w'.updater := by
  rcases applyUpdate_cases w st with ⟨-, halted⟩ | ⟨-, refused⟩ | ⟨slot, begins⟩
  · rw [halted] at applied
    cases applied
  · rw [refused] at applied
    cases applied
    exact ⟨rfl, .refl _⟩
  · have begun : w.updater.Keeps (w.begun st).updater := ⟨rfl, rfl, rfl, rfl, rfl, Mem.EqOn.refl⟩
    have apart' := apart.keeps begun
    have start : (w.started st slot).store 0 = some (w.begun st) := rfl
    have fresh := w.started_fresh st slot
    -- The run ends with a context object that the callbacks have reached.
    have ran : ∃ code status done z t, (workflowRun (some slot)).exec (w.started st slot) =
        (code, (w.started st slot).put slot status done z t) ∧ Reached (w.begun st) z := by
      obtain ⟨k, stops⟩ := exists_stopsAt updateSteps updateStepCount ((w.started st slot).store 0)
      rcases Nat.lt_or_eq_of_le stops.le with early | rfl
      · have exec := fresh.exec_unwound stops early
        dsimp only at exec
        rw [(unwind_update fresh early _).1] at exec
        refine ⟨_, _, _, _, _, exec, .undone apart' ?_ k⟩
        rw [start]
        exact reached_stateAfter apart' (k + 1)
      · refine ⟨_, _, _, _, _, fresh.exec_committed stops, ?_⟩
        rw [start]
        exact reached_stateAfter apart' updateStepCount
    obtain ⟨code, status, done, z, t, exec, reached⟩ := ran
    rw [begins.applyUpdate_eq, exec, World.store_put] at applied
    obtain ⟨x, rfl, finishes⟩ := Option.bind_eq_some_iff.mp applied
    have kept := reached x rfl
    have finished := kept.trans (finishUpdate_keeps (apart'.keeps kept.updater) finishes)
    exact ⟨finished.tx, begun.trans finished.updater⟩

end Execution

theorem NameApart.init {u u' : Updater} {type : UpdateType} {path image size : Nat}
    {hash : BitVec 32} {st : UpdateState} (apart : NameApart u)
    (built : initUpdateTransaction u type path image size hash = some (st, u')) :
    NameApart u' := by
  obtain ⟨-, -, -, -, backend, checkpoint, stage, next, store⟩ := init_eq built
  refine ⟨?_, ?_, ?_, ?_⟩
  · rw [backend]
    exact apart.backend
  · rw [store]
    exact apart.fits
  · rw [checkpoint, store]
    exact apart.outside
  · rw [checkpoint, stage]
    exact apart.stage

/-! ## Orders of initialisations and executions -/

/-- What an initialisation builds a name from, with its place among the initialisations. -/
structure Build where
  number : Nat
  path : List Byte
  id : BitVec 64
  deriving DecidableEq

def Build.name (b : Build) : Key := checkpointName b.path b.id

/-- A key that an execution uses: the transaction it executes, the one initialised last, and the
key. -/
structure Use where
  own : Build
  latest : Build
  key : Key
  deriving DecidableEq

/-- The key that `step_checkpoint` hands to the backend and with which the checkpoint is removed
again, if the execution gets that far. -/
def checkpointKey (w : World) (st : UpdateState) : Option Key :=
  if st.tx.path = 0 ∨ st.tx.image = 0 ∨ maxUpdateSize < st.tx.size then none
  else
    match workflowBegin (w.engine st) (some updateSteps) updateStepCount 0 with
    | some (some _, _) => w.updater.backend.map fun _ => w.updater.mem.text st.tx.checkpoint 256
    | _ => none

/-- `step_checkpoint` is the first callback of the update's workflow, and hands the text to the
backend as the key. -/
def HandsKey (w : World) (st : UpdateState) (key : Key) : Prop :=
  ∃ (slot : SlotId) (ops : StorageOps), Begins w st slot ∧ w.updater.backend = some ops ∧
    (updateSteps 0).call ((w.started st slot).store 0) =
      callback stepCheckpoint (some (w.begun st)) ∧
    stepCheckpoint (w.begun st) =
      (ops.createCheckpoint (w.begun st).updater.store st.tx.path st.tx.checkpoint).map
        (fun (rv, store) =>
          (if rv ≠ 0 then -1 else 0, ((w.begun st).setStatus .checkpoint).setStore store)) ∧
    (w.begun st).updater.mem.text st.tx.checkpoint 256 = key

theorem checkpointKey_eq_some_iff {w : World} {st : UpdateState} {key : Key} :
    checkpointKey w st = some key ↔ HandsKey w st key := by
  constructor
  · intro used
    unfold checkpointKey at used
    split at used
    · cases used
    rename_i checked
    simp only [not_or, Nat.not_lt] at checked
    split at used
    · rename_i slot e begun
      obtain ⟨ops, backend, text⟩ := Option.map_eq_some_iff.mp used
      obtain ⟨free, id⟩ := idle_of_workflowBegin begun
      refine ⟨slot, ops, ⟨checked.1, checked.2.1, checked.2.2, free, id⟩, backend, rfl, ?_, text⟩
      simp only [stepCheckpoint, Session.setStatus, World.begun, backend]
    · cases used
  · rintro ⟨slot, ops, begins, backend, -, -, rfl⟩
    have checked : ¬(st.tx.path = 0 ∨ st.tx.image = 0 ∨ maxUpdateSize < st.tx.size) := by
      simp only [not_or, Nat.not_lt]
      exact ⟨begins.path, begins.image, begins.small⟩
    rw [checkpointKey, if_neg checked, begins.workflowBegin_eq]
    simp only [backend]
    rfl

/-- A caller with many `update_state` objects. The world is `none` once the machine has halted;
`latest` and `uses` record what has happened. -/
structure Caller where
  world : Option World
  states : Nat → Option (Build × UpdateState)
  latest : Build
  uses : List Use

inductive Call where
  | init (state : Nat) (type : UpdateType) (path image size : Nat) (hash : BitVec 32)
  | execute (state : Nat)

namespace Caller

def start (w : World) : Caller := ⟨some w, fun _ => none, ⟨0, [], 0⟩, []⟩

/-- `init_update_transaction` on the object `k`. -/
def init (d : Caller) (w : World) (k : Nat) (type : UpdateType) (path image size : Nat)
    (hash : BitVec 32) : Caller :=
  match initUpdateTransaction w.updater type path image size hash with
  | none => { d with world := none }
  | some (st, u) =>
      let build : Build := ⟨d.latest.number + 1, w.updater.mem.text path 200, st.transactionId⟩
      { d with
        world := some { w with updater := u }
        states := Function.update d.states k (some (build, st))
        latest := build }

/-- `execute_update` on the object `k`, which the transaction `own` has initialised. -/
def execute (d : Caller) (w : World) (k : Nat) (own : Build) (st : UpdateState) : Caller :=
  let d := { d with
    uses := d.uses ++ ((checkpointKey w st).map (Use.mk own d.latest)).toList }
  match executeUpdate w st with
  | none => { d with world := none }
  | some (_, st', w') =>
      { d with world := some w', states := Function.update d.states k (some (own, st')) }

/-- An object is executed only once it has been initialised. -/
def step (d : Caller) (call : Call) : Caller :=
  match d.world, call with
  | none, _ => d
  | some w, .init k type path image size hash => d.init w k type path image size hash
  | some w, .execute k =>
      match d.states k with
      | none => d
      | some (own, st) => d.execute w k own st

/-- Every state points to the name buffer, which holds the name built last. -/
structure Shares (d : Caller) (w : World) : Prop where
  apart : NameApart w.updater
  states : ∀ k own st, d.states k = some (own, st) →
    st.tx.checkpoint = w.updater.checkpoint ∧
      w.updater.mem.text w.updater.checkpoint 256 = d.latest.name

structure Consistent (d : Caller) : Prop where
  world : ∀ w, d.world = some w → d.Shares w
  uses : ∀ use ∈ d.uses, use.key = use.latest.name

variable {d : Caller} {w : World} {own : Build} {st : UpdateState} {k : Nat}

theorem start_consistent (apart : NameApart w.updater) : (start w).Consistent where
  world := by
    intro w' same
    cases same
    exact ⟨apart, fun _ _ _ none => nomatch none⟩
  uses := fun _ none => nomatch none

theorem Shares.checkpointKey_eq (shares : d.Shares w) (here : d.states k = some (own, st))
    {key : Key} (used : checkpointKey w st = some key) : key = d.latest.name := by
  obtain ⟨pointer, name⟩ := shares.states k own st here
  obtain ⟨-, -, -, -, -, -, text⟩ := checkpointKey_eq_some_iff.mp used
  rw [← text, pointer]
  exact name

theorem update_some {α : Type*} {f : Nat → Option α} {k j : Nat} {x y : α}
    (here : Function.update f k (some x) j = some y) : y = x ∨ f j = some y := by
  by_cases same : j = k
  · subst same
    rw [Function.update_self] at here
    exact .inl (Option.some.inj here).symm
  · rw [Function.update_of_ne same] at here
    exact .inr here

theorem Consistent.init (consistent : d.Consistent) (running : d.world = some w)
    (type : UpdateType) (path image size : Nat) (hash : BitVec 32) :
    (d.init w k type path image size hash).Consistent := by
  unfold Caller.init
  cases built : initUpdateTransaction w.updater type path image size hash with
  | none => exact ⟨fun _ halted => (nomatch halted), consistent.uses⟩
  | some result =>
      obtain ⟨st, u⟩ := result
      have shares := consistent.world w running
      obtain ⟨-, -, tx, -, -, checkpoint, -⟩ := init_eq built
      refine ⟨?_, consistent.uses⟩
      rintro w' same
      cases same
      refine ⟨shares.apart.init built, fun j own st' here => ⟨?_, ?_⟩⟩
      · rw [checkpoint]
        rcases update_some here with same | before
        · cases same
          rw [tx]
        · exact (shares.states j own st' before).1
      · rw [checkpoint]
        exact init_name built

theorem Consistent.execute (consistent : d.Consistent) (running : d.world = some w)
    (here : d.states k = some (own, st)) : (d.execute w k own st).Consistent := by
  have shares := consistent.world w running
  have uses : ∀ use ∈ d.uses ++ ((checkpointKey w st).map (Use.mk own d.latest)).toList,
      use.key = use.latest.name := by
    intro use member
    rcases List.mem_append.mp member with before | now
    · exact consistent.uses use before
    · obtain ⟨key, used, rfl⟩ := Option.map_eq_some_iff.mp (Option.mem_toList.mp now)
      exact shares.checkpointKey_eq here used
  unfold Caller.execute
  cases executed : executeUpdate w st with
  | none => exact ⟨fun _ halted => (nomatch halted), uses⟩
  | some result =>
      obtain ⟨rv, st', w'⟩ := result
      obtain ⟨tx, keeps⟩ := applyUpdate_keeps shares.apart executed
      refine ⟨?_, uses⟩
      rintro w'' same
      cases same
      refine ⟨shares.apart.keeps keeps, fun j own' st'' there => ?_⟩
      have name : w'.updater.mem.text w'.updater.checkpoint 256 =
          w.updater.mem.text w.updater.checkpoint 256 := by
        rw [keeps.checkpoint]
        exact keeps.name.text_eq
      rw [name, keeps.checkpoint]
      rcases update_some there with same | before
      · cases same
        rw [tx]
        exact shares.states k own st here
      · exact shares.states j own' st'' before

theorem Consistent.step (consistent : d.Consistent) (call : Call) : (d.step call).Consistent := by
  unfold Caller.step
  cases running : d.world with
  | none => exact consistent
  | some w =>
      cases call with
      | init k type path image size hash =>
          exact consistent.init running type path image size hash
      | execute k =>
          cases here : d.states k with
          | none => simpa only [here] using consistent
          | some result =>
              obtain ⟨own, st⟩ := result
              simpa only [here] using consistent.execute running here

end Caller

/-- When transactions do not interfere. For every order of calls on any number of states: each
execution uses the name of its own transaction, and no two transactions use the same name, just if
the name built last is the own one whenever a key is used, and no two transactions that use a key
agree in the path, as far as it goes into the name, and in the low word of the id. -/
theorem transactions_apart_iff (w : World) (calls : List Call) (d : Caller)
    (apart : NameApart w.updater) (reached : Runs.after Caller.step (.start w) calls = d) :
    ((∀ use ∈ d.uses, use.key = use.own.name) ∧
        ∀ a ∈ d.uses, ∀ b ∈ d.uses, a.own.number ≠ b.own.number → a.key ≠ b.key) ↔
      (∀ use ∈ d.uses, use.latest.name = use.own.name) ∧
        ∀ a ∈ d.uses, ∀ b ∈ d.uses, a.own.number ≠ b.own.number →
          ¬(a.own.path = b.own.path ∧ a.own.id.toNat % 2 ^ 32 = b.own.id.toNat % 2 ^ 32) := by
  have consistent : d.Consistent := by
    rw [← reached]
    exact Runs.invariant_after (Caller.start_consistent apart) (fun _ call ok => ok.step call) calls
  have own : (∀ use ∈ d.uses, use.key = use.own.name) ↔
      ∀ use ∈ d.uses, use.latest.name = use.own.name := by
    refine forall₂_congr fun use member => ?_
    rw [consistent.uses use member]
  rw [← own]
  refine and_congr_right fun names => ?_
  refine forall₂_congr fun a first => forall₂_congr fun b second => forall_congr' fun _ => ?_
  rw [names a first, names b second]
  exact not_congr checkpointName_inj

/-- Two transactions on the same path, with a good image. -/
def sampleCalls (calls : List Call) : Caller :=
  Runs.after Caller.step (.start ⟨sampleUpdater [0x61], fun _ => idleSlot⟩) calls

def sampleInit (k : Nat) : Call := .init k .driver 0x800100 0x800200 64 sampleHash

/-- Each one is executed before the next is initialised. -/
def inTurn : List Call := [sampleInit 0, .execute 0, sampleInit 1, .execute 1]

theorem transactions_apart_iff_inTurn :
    (sampleCalls inTurn).uses.length = 2 ∧
      (∀ use ∈ (sampleCalls inTurn).uses, use.key = use.own.name) ∧
      ∀ a ∈ (sampleCalls inTurn).uses, ∀ b ∈ (sampleCalls inTurn).uses,
        a.own.number ≠ b.own.number → a.key ≠ b.key := by
  have apart : NameApart (sampleUpdater [0x61]) :=
    (nameApart_iff ..).mpr ⟨.inr rfl, by decide +kernel⟩
  have law := transactions_apart_iff ⟨sampleUpdater [0x61], fun _ => idleSlot⟩ inTurn
    (sampleCalls inTurn) apart rfl
  exact ⟨by decide +kernel, law.mpr (by decide +kernel)⟩

/-- Both are initialised before the first is executed. -/
def overlapping : List Call := [sampleInit 0, sampleInit 1, .execute 0, .execute 1]

/-- They use one key, the name of the second. -/
theorem overlapping_transactions_share_key :
    ∃ a ∈ (sampleCalls overlapping).uses, ∃ b ∈ (sampleCalls overlapping).uses,
      a.own.number ≠ b.own.number ∧ a.key = b.key ∧ a.key ≠ a.own.name := by
  decide +kernel

end LughOS.Update

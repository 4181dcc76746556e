import LughOS.Storage.Transactions
import LughOS.Workflow.Engine

/-!
# Updates

`services/update/update.c` and `sandbox.c` over the checkpoint store and the workflow engine. An
update is a workflow of five steps on an `update_state`: checkpoint, verify, sandbox, test and
install. Its context object is a `Session`, the `update_state` with everything that its callbacks
reach: the store and the statics of the service.

The name of the checkpoint is a string in a static buffer that all transactions share;
`init_update_transaction` writes it there and leaves its address in the state. The steps reach the
store through the installed backend, a table of functions, which is NULL before `storage_init`.

`assert` and the allocator of transaction ids may halt the machine. The result of such a call is
`none`, and a context object that a callback does not return from is `none` from there on. The
records of the engine stay in its trace: nothing here reads the transaction log.
-/

namespace LughOS.Update

open Bytes Kernel Storage Workflow

/-! ## State -/

/-- `storage_ops_t`, the functions that an update calls. -/
structure StorageOps where
  createCheckpoint : Store → Nat → Nat → Option (Int × Store)
  restoreCheckpoint : Store → Nat → Nat → Option (Int × Store)
  removeCheckpoint : Store → Nat → Option (Int × Store)

def memoryStorageOps : StorageOps :=
  ⟨Store.createCheckpoint, Store.restoreCheckpoint, Store.removeCheckpoint⟩

inductive UpdateType where
  | driver | service | kernel | user
  deriving DecidableEq

inductive UpdateStatus where
  | init | checkpoint | verify | sandbox | test | commit | complete | rollback | error
  deriving DecidableEq

/-- `struct update_tx`, with its pointers as addresses. -/
structure UpdateTx where
  path : Nat
  checkpoint : Nat
  image : Nat
  size : Nat
  hash : BitVec 32
  deriving DecidableEq

/-- `struct update_state`. -/
structure UpdateState where
  tx : UpdateTx
  type : UpdateType
  status : UpdateStatus
  transactionId : BitVec 64
  logPath : Fin 256 → Byte
  errorCount : BitVec 32
  requiresReboot : Bool
  deriving DecidableEq

/-- The store, the statics of the service and the installed backend. `checkpoint` and
`sandboxStage` are the addresses of two static arrays. -/
structure Updater where
  store : Store
  backend : Option StorageOps
  checkpoint : Nat
  sandboxStage : Nat
  logPath : Fin 256 → Byte

def Updater.mem (u : Updater) : Mem := u.store.mem

/-- The context object of an update. -/
structure Session where
  state : UpdateState
  updater : Updater

namespace Session

def setStatus (x : Session) (status : UpdateStatus) : Session :=
  { x with state := { x.state with status := status } }

def setStore (x : Session) (store : Store) : Session :=
  { x with updater := { x.updater with store := store } }

end Session

/-! ## Initialisation -/

def digitChar (d : Nat) : Byte := BitVec.ofNat 8 (48 + d)

/-- The loop that writes an id to `tidbuf`, with the rounds left. The digits are produced from
the last one on, and copied in the opposite order. -/
def tidLoop : Nat → Nat → List Byte → List Byte
  | 0, _, digits => digits
  | rounds + 1, tid, digits =>
      let digits := digitChar (tid % 10) :: digits
      if tid / 10 = 0 then digits else tidLoop rounds (tid / 10) digits

/-- The low word of a transaction id in decimal. -/
def tidText (id : BitVec 64) : List Byte := tidLoop 10 (id.toNat % 2 ^ 32) []

/-- `".checkpoint-"` -/
def suffix : List Byte :=
  [0x2E, 0x63, 0x68, 0x65, 0x63, 0x6B, 0x70, 0x6F, 0x69, 0x6E, 0x74, 0x2D]

/-- `"/var/log/lughos/update-"` -/
def logPrefix : List Byte :=
  [0x2F, 0x76, 0x61, 0x72, 0x2F, 0x6C, 0x6F, 0x67, 0x2F, 0x6C, 0x75, 0x67, 0x68, 0x6F, 0x73, 0x2F,
    0x75, 0x70, 0x64, 0x61, 0x74, 0x65, 0x2D]

/-- What `init_update_transaction` builds in the static buffer. At most 200 characters of the
path, twelve of the suffix and ten digits fit into its 256 bytes. -/
def checkpointName (path : List Byte) (id : BitVec 64) : List Byte := path ++ suffix ++ tidText id

/-- A text with its NUL at the start of a buffer. -/
def putText (buffer : Fin 256 → Byte) (text : List Byte) : Fin 256 → Byte :=
  fun i => ((text ++ [0])[i.val]?).getD (buffer i)

/-- `".log"` -/
def logSuffix : List Byte := [0x2E, 0x6C, 0x6F, 0x67]

def initUpdateTransaction (u : Updater) (type : UpdateType) (path image size : Nat)
    (hash : BitVec 32) : Option (UpdateState × Updater) :=
  if path = 0 ∨ image = 0 then none
  else
    (generateTransactionId u.store.nextId).map fun (id, next) =>
      let name := checkpointName (u.mem.text path 200) id
      let logPath := putText u.logPath (logPrefix ++ tidText id ++ logSuffix)
      let store := { u.store with nextId := next }
      ({ tx := ⟨path, u.checkpoint, image, size, hash⟩
         type := type
         status := .init
         transactionId := id
         logPath := logPath
         errorCount := 0
         requiresReboot := decide (type = .kernel) },
        { u with
          store := store.withMem (store.mem.write u.checkpoint (name ++ [0]))
          logPath := logPath })

/-! ## The steps -/

def stepCheckpoint (x : Session) : Option (Int × Session) :=
  let x := x.setStatus .checkpoint
  match x.updater.backend with
  | none => some (-1, x)
  | some ops =>
      (ops.createCheckpoint x.updater.store x.state.tx.path x.state.tx.checkpoint).map
        fun (rv, store) => (if rv ≠ 0 then -1 else 0, x.setStore store)

def undoRemoveCheckpoint (x : Session) : Option (Int × Session) :=
  match x.updater.backend with
  | none => some (-1, x)
  | some ops =>
      (ops.removeCheckpoint x.updater.store x.state.tx.checkpoint).map
        fun (rv, store) => (rv, x.setStore store)

/-- `compute_sha256`, which is FNV-1a. -/
def computeSha256 (h : Heap) (data len : Nat) : BitVec 32 :=
  if data = 0 ∨ len = 0 then 0
  else if securityValidateMemoryAccess h.regions data len false = false then 0
  else fnv1a 2166136261#32 (h.mem.read data len)

def verifySignature (h : Heap) (image size : Nat) (expectedHash : BitVec 32) : Bool :=
  if image = 0 ∨ size = 0 then false else decide (computeSha256 h image size = expectedHash)

def stepVerify (x : Session) : Option (Int × Session) :=
  let x := x.setStatus .verify
  let tx := x.state.tx
  some (if verifySignature x.updater.store.heap tx.image tx.size tx.hash then 0 else -1, x)

def sandboxStageSize : Nat := 65536

/-- The format check of `sandbox_apply`. -/
def validFormat (mem : Mem) (image size : Nat) : Bool :=
  decide (64 ≤ size ∧ mem image = 0x7F ∧ mem (image + 1) = 0x45 ∧ mem (image + 2) = 0x4C ∧
    mem (image + 3) = 0x46)

/-- `sandbox_apply`. The copy to the stage does not go through the gate. -/
def sandboxApply (s : Store) (stage image size : Nat) : Bool × Store :=
  if image = 0 ∨ size = 0 then (false, s)
  else if sandboxStageSize < size then (false, s)
  else if validFormat s.mem image size = false then (false, s)
  else (true, s.withMem (s.mem.copy stage image size))

def stepSandbox (x : Session) : Option (Int × Session) :=
  let x := x.setStatus .sandbox
  let (ok, store) := sandboxApply x.updater.store x.updater.sandboxStage x.state.tx.image
    x.state.tx.size
  some (if ok then 0 else -1, x.setStore store)

/-- `run_tests`. The tests of the three kinds of components all pass. -/
def runTests (path : Nat) : Bool := decide (path ≠ 0)

def stepTest (x : Session) : Option (Int × Session) :=
  let x := x.setStatus .test
  some (if runTests x.state.tx.path then 0 else -1, x)

/-- `install_update`, which has an assertion and no effect. -/
def installUpdate (path image size : Nat) : Option Int :=
  if path = 0 ∨ image = 0 ∨ size = 0 then none else some 0

def stepInstall (x : Session) : Option (Int × Session) :=
  let x := x.setStatus .commit
  (installUpdate x.state.tx.path x.state.tx.image x.state.tx.size).map fun rv => (rv, x)

def undoRestoreCheckpoint (x : Session) : Option (Int × Session) :=
  match x.updater.backend with
  | none => some (-1, x)
  | some ops =>
      (ops.restoreCheckpoint x.updater.store x.state.tx.checkpoint x.state.tx.path).map
        fun (rv, store) => (if rv ≠ 0 then -1 else 0, x.setStore store)

/-- A callback on a context object that is gone once the machine has halted. -/
def callback (f : Session → Option (Int × Session)) : WorkflowFn (Option Session) := fun x =>
  match x.bind f with
  | none => (0, none)
  | some (rv, x) => (BitVec.ofInt 32 rv, some x)

/-- `update_steps` -/
def updateSteps : Nat → Step (Option Session)
  | 0 => ⟨some "checkpoint", some (callback stepCheckpoint), some (callback undoRemoveCheckpoint)⟩
  | 1 => ⟨some "verify", some (callback stepVerify), none⟩
  | 2 => ⟨some "sandbox", some (callback stepSandbox), none⟩
  | 3 => ⟨some "test", some (callback stepTest), none⟩
  | 4 => ⟨some "install", some (callback stepInstall), some (callback undoRestoreCheckpoint)⟩
  | _ => ⟨none, none, none⟩

def updateStepCount : Nat := 5

/-! ## The update -/

/-- The service with the table of the workflow engine. -/
structure World where
  updater : Updater
  workflows : SlotId → Slot (Option Session)

/-- `workflow_active_count` -/
def World.workflowActiveCount (w : World) : Nat :=
  (Finset.univ.filter fun i => (w.workflows i).status ≠ .idle).card

/-- The engine with the session as the context object. -/
def World.engine (w : World) (st : UpdateState) : Engine (Option Session) where
  workflows := w.workflows
  store := fun _ => some ⟨st, w.updater⟩
  nextTxnId := w.updater.store.nextId
  currentTask := w.updater.store.machine.kernel.currentTask.map Task.taskId
  trace := []

/-- Both read the one counter of transaction ids, which `workflow_begin` has just advanced. -/
def shareId (e : Engine (Option Session)) : Engine (Option Session) :=
  { e with
    store := fun a => (e.store a).map fun x =>
      x.setStore { x.updater.store with nextId := e.nextTxnId } }

def maxUpdateSize : Nat := 1048576

/-- The store once the checkpoint of a committed update is removed. -/
def discardCheckpoint (x : Session) : Option Store :=
  match x.updater.backend with
  | none => some x.updater.store
  | some ops => (ops.removeCheckpoint x.updater.store x.state.tx.checkpoint).map Prod.snd

/-- The end of `apply_update` once the workflow has run. -/
def finishUpdate (slot : SlotId) (rv : Int) (e : Engine (Option Session)) (x : Session) :
    Option (Int × UpdateState × World) :=
  if rv = 0 then
    (discardCheckpoint x).map fun store =>
      let x := (x.setStore store).setStatus .complete
      (0, x.state, ⟨x.updater, ((workflowRelease slot).exec e).2.workflows⟩)
  else if (e.workflows slot).status = .failed then
    let x := x.setStatus .error
    some (-1, { x.state with errorCount := x.state.errorCount + 1 }, ⟨x.updater, e.workflows⟩)
  else
    let x := x.setStatus .rollback
    some (-1, x.state, ⟨x.updater, ((workflowRelease slot).exec e).2.workflows⟩)

def applyUpdate (w : World) (st : UpdateState) : Option (Int × UpdateState × World) :=
  if st.tx.path = 0 ∨ st.tx.image = 0 then none
  else if maxUpdateSize < st.tx.size then some (-1, { st with status := .error }, w)
  else
    match workflowBegin (w.engine st) (some updateSteps) updateStepCount 0 with
    | none => none
    | some (none, _) => some (-1, { st with status := .error }, w)
    | some (some slot, e) =>
        let (rv, e) := (workflowRun (some slot)).exec (shareId e)
        (e.store 0).bind (finishUpdate slot rv e)

/-- `execute_update`, whose other effects are messages. -/
def executeUpdate (w : World) (st : UpdateState) : Option (Int × UpdateState × World) :=
  applyUpdate w st

end LughOS.Update

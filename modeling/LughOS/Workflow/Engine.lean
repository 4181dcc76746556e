import LughOS.Library.Interruptible
import LughOS.Library.Table

/-!
# The durable workflow engine

The slot table, the transaction identifiers and the step callbacks of
`services/workflow/workflow.c`. A callback is an arbitrary function of the
context object its slot points to; contexts live in `store`, one object per
address, and two workflows share state only when they share an address.

Every store to `status` or `done_count`, every callback and every `wf_emit` is
one action of an interruptible program, and appends itself to `trace`. A fault
that abandons the engine between two actions is then a cut of that program, and
the records and callbacks of a run are read off the trace. One `wf_emit` hands
the same fact to the transaction log and to the auditor; the trace keeps both
the log entry and the arguments of the auditor call.
-/

namespace LughOS.Workflow

open Interruptible

def maxSteps : Nat := 8
abbrev maxActive : Nat := 4

instance : NeZero maxActive := ⟨by decide⟩

abbrev SlotId := Fin maxActive

inductive Status where
  | idle | running | committed | rollingBack | rolledBack | failed
  deriving DecidableEq, Repr

inductive Event where
  | begin | stepOk | stepFail | undoOk | undoFail | commit | rolledBack | failed
  deriving DecidableEq, Repr

/-- `wf_event_name`. -/
def wfEventName : Event → String
  | .begin => "BEGIN"
  | .stepOk => "STEP_OK"
  | .stepFail => "STEP_FAIL"
  | .undoOk => "UNDO_OK"
  | .undoFail => "UNDO_FAIL"
  | .commit => "COMMIT"
  | .rolledBack => "ROLLED_BACK"
  | .failed => "FAILED"

/-- A callback returns a C `int` and may change its context object. -/
abbrev WorkflowFn (σ : Type) := σ → BitVec 32 × σ

/-- `workflow_step_t`; `none` is a NULL pointer. -/
structure Step (σ : Type) where
  name : Option String
  run : Option (WorkflowFn σ)
  undo : Option (WorkflowFn σ)

/-- `workflow_t`. The step table is a pointer to caller-owned entries. -/
structure Slot (σ : Type) where
  workflowId : BitVec 64
  ownerTaskId : BitVec 32
  status : Status
  stepCount : Nat
  doneCount : Nat
  ctx : Nat
  steps : Option (Nat → Step σ)

/-- The fields `wf_emit` fills in a `txn_log_entry_t`. -/
structure TxnEntry where
  txnId : BitVec 64
  taskId : BitVec 32
  operation : BitVec 32
  key : String
  value : String
  checksum : BitVec 32
  deriving DecidableEq

/-- The arguments of one `auditor_workflow` call. -/
structure Record where
  workflowId : BitVec 64
  ownerTaskId : BitVec 32
  stepIndex : Nat
  status : Status
  doneCount : Nat
  stepRv : BitVec 32
  event : Event
  deriving DecidableEq

inductive Callback where
  | run | undo
  deriving DecidableEq, Repr

inductive Action where
  | emit (entry : TxnEntry) (record : Record)
  | call (slot : SlotId) (callback : Callback) (step : Nat) (rv : BitVec 32)
  | setStatus (slot : SlotId) (status : Status)
  | setDone (slot : SlotId) (count : Nat)
  | release (slot : SlotId)
  deriving DecidableEq

structure Engine (σ : Type) where
  workflows : SlotId → Slot σ
  store : Nat → σ
  nextTxnId : BitVec 64
  currentTask : Option (BitVec 32)
  trace : List Action

variable {σ : Type}

abbrev Prog (σ α : Type) := Program (Engine σ) α

def opWorkflow : BitVec 32 := 0x202#32

/-- `wf_copy_field`: a bounded, always terminated copy of a label. -/
def wfCopyField (size : Nat) (src : Option String) : String :=
  String.ofList ((src.getD "").toList.take (size - 1))

/-- The label of a record: the step's own name inside the table. -/
def labelOf (wf : Slot σ) (stepIndex : Nat) : Option String :=
  match wf.steps with
  | some steps => if stepIndex < wf.stepCount then (steps stepIndex).name else some "workflow"
  | none => some "workflow"

/-- What one `wf_emit` on a slot hands to the transaction log and the auditor. -/
def wfRecord (wf : Slot σ) (stepIndex : Nat) (event : Event) (rv : BitVec 32) : Action :=
  .emit
    { txnId := wf.workflowId
      taskId := 0
      operation := opWorkflow
      key := wfCopyField 64 (labelOf wf stepIndex)
      value := wfCopyField 256 (some (wfEventName event))
      checksum := 0 }
    { workflowId := wf.workflowId
      ownerTaskId := wf.ownerTaskId
      stepIndex
      status := wf.status
      doneCount := wf.doneCount
      stepRv := rv
      event }

def Engine.log (w : Engine σ) (action : Action) : Engine σ :=
  { w with trace := w.trace ++ [action] }

def Engine.setSlot (w : Engine σ) (slot : SlotId) (wf : Slot σ) : Engine σ :=
  { w with workflows := Function.update w.workflows slot wf }

def wfEmit (slot : SlotId) (stepIndex : Nat) (event : Event) (rv : BitVec 32) : Prog σ Unit :=
  .modify fun w => w.log (wfRecord (w.workflows slot) stepIndex event rv)

def setStatus (slot : SlotId) (status : Status) : Prog σ Unit :=
  .modify fun w =>
    (w.setSlot slot { w.workflows slot with status }).log (.setStatus slot status)

def setDone (slot : SlotId) (count : Nat) : Prog σ Unit :=
  .modify fun w =>
    (w.setSlot slot { w.workflows slot with doneCount := count }).log (.setDone slot count)

/-- Call one callback on the context object of its slot. -/
def invoke (slot : SlotId) (callback : Callback) (step : Nat) (fn : WorkflowFn σ) :
    Prog σ (BitVec 32) :=
  .perform fun w =>
    let ctx := (w.workflows slot).ctx
    let result := fn (w.store ctx)
    (result.1,
      { w with store := Function.update w.store ctx result.2 }.log
        (.call slot callback step result.1))

def undoOf (wf : Slot σ) (i : Nat) : Option (WorkflowFn σ) :=
  wf.steps.bind fun steps => (steps i).undo

/-- A table entry without `run` is refused by `workflow_begin`, so the fallback
is never called; it stands for the NULL call. -/
def runOf (wf : Slot σ) (i : Nat) : WorkflowFn σ :=
  (wf.steps.bind fun steps => (steps i).run).getD fun s => (-1, s)

/-- The loop of `wf_unwind`. The first argument is the compile-time bound that
is left, the second the number of steps still to be reversed. -/
def wfUnwindLoop (slot : SlotId) : Nat → Nat → Bool → Prog σ Bool
  | 0, _, undoFailed => pure undoFailed
  | _ + 1, 0, undoFailed => pure undoFailed
  | bound + 1, remaining + 1, undoFailed => do
      let w ← Program.get
      match undoOf (w.workflows slot) remaining with
      | none => wfUnwindLoop slot bound remaining undoFailed
      | some undo => do
          let rv ← invoke slot .undo remaining undo
          if rv ≠ 0 then do
            wfEmit slot remaining .undoFail rv
            wfUnwindLoop slot bound remaining true
          else do
            wfEmit slot remaining .undoOk 0
            wfUnwindLoop slot bound remaining undoFailed

/-- What `wf_unwind` does once every undo has been attempted. -/
def wfUnwindFinish (slot : SlotId) (undoFailed : Bool) : Prog σ Int := do
  setDone slot 0
  if undoFailed then do
    setStatus slot .failed
    let w ← Program.get
    wfEmit slot (w.workflows slot).stepCount .failed (-1)
    pure (-1)
  else do
    setStatus slot .rolledBack
    let w ← Program.get
    wfEmit slot (w.workflows slot).stepCount .rolledBack 0
    pure 0

def wfUnwind (slot : SlotId) : Prog σ Int := do
  let w ← Program.get
  setStatus slot .rollingBack
  let undoFailed ← wfUnwindLoop slot maxSteps (w.workflows slot).doneCount false
  wfUnwindFinish slot undoFailed

/-- The loop of `workflow_run` from step `i`, with `left` steps to go. Callbacks
do not re-enter the engine, so `step_count` is the same at every test. -/
def workflowRunLoop (slot : SlotId) : Nat → Nat → Prog σ Int
  | 0, _ => do
      setStatus slot .committed
      let w ← Program.get
      wfEmit slot (w.workflows slot).stepCount .commit 0
      pure 0
  | left + 1, i => do
      wfEmit slot i .begin 0
      let w ← Program.get
      let rv ← invoke slot .run i (runOf (w.workflows slot) i)
      if rv ≠ 0 then do
        wfEmit slot i .stepFail rv
        let _ ← wfUnwind slot
        pure (-1)
      else do
        wfEmit slot i .stepOk 0
        let w ← Program.get
        setDone slot (((w.workflows slot).doneCount + 1) % 2 ^ 32)
        workflowRunLoop slot left (i + 1)

/-- `workflow_run`; `none` is a NULL handle. -/
def workflowRun (wf : Option SlotId) : Prog σ Int :=
  match wf with
  | none => pure (-1)
  | some slot => do
      let w ← Program.get
      if (w.workflows slot).steps.isNone ∨ (w.workflows slot).status ≠ .running then pure (-1)
      else do
        wfEmit slot (w.workflows slot).stepCount .begin 0
        workflowRunLoop slot (w.workflows slot).stepCount 0

/-- The zeroed slot `workflow_release` leaves. -/
def idleSlot : Slot σ :=
  { workflowId := 0, ownerTaskId := 0, status := .idle, stepCount := 0, doneCount := 0,
    ctx := 0, steps := none }

def workflowRelease (slot : SlotId) : Prog σ Unit :=
  .modify fun w => (w.setSlot slot idleSlot).log (.release slot)

/-- One iteration of the scan in `workflow_recover`. -/
def workflowRecoverSlot (slot : SlotId) (result : Int) : Prog σ Int := do
  let w ← Program.get
  if (w.workflows slot).status ≠ .running ∧ (w.workflows slot).status ≠ .rollingBack then
    pure result
  else if (w.workflows slot).steps.isNone then do
    setStatus slot .failed
    pure (-1)
  else do
    let rv ← wfUnwind slot
    if rv ≠ 0 then pure (-1)
    else do
      workflowRelease slot
      pure result

def workflowRecoverLoop : List SlotId → Int → Prog σ Int
  | [], result => pure result
  | slot :: rest, result => do
      let result ← workflowRecoverSlot slot result
      workflowRecoverLoop rest result

def workflowRecover : Prog σ Int := workflowRecoverLoop (List.finRange maxActive) 0

/-- `generate_transaction_id`; `none` is the halt at the last identifier. -/
def generateTransactionId (next : BitVec 64) : Option (BitVec 64 × BitVec 64) :=
  if next = BitVec.allOnes 64 then none else some (next, next + 1)

/-- The argument checks of `workflow_begin`. -/
def accepts (steps : Nat → Step σ) (count : Nat) : Bool :=
  count ≠ 0 && count ≤ maxSteps && (List.range count).all fun i => (steps i).run.isSome

/-- The slot `workflow_begin` fills in. -/
def freshSlot (w : Engine σ) (id : BitVec 64) (steps : Nat → Step σ) (count ctx : Nat) : Slot σ :=
  { workflowId := id, ownerTaskId := w.currentTask.getD 0, status := .running,
    stepCount := count, doneCount := 0, ctx, steps := some steps }

/-- `workflow_begin`. The result is `none` when the identifier allocator halts,
and otherwise the returned handle, `none` again standing for NULL. -/
def workflowBegin (w : Engine σ) (steps : Option (Nat → Step σ)) (count ctx : Nat) :
    Option (Option SlotId × Engine σ) :=
  match steps with
  | none => some (none, w)
  | some steps =>
      if ¬accepts steps count then some (none, w)
      else match Table.first? fun i => (w.workflows i).status = .idle with
        | none => some (none, w)
        | some slot =>
            (generateTransactionId w.nextTxnId).map fun (id, next) =>
              (some slot,
                { w with nextTxnId := next }.setSlot slot (freshSlot w id steps count ctx))

end LughOS.Workflow

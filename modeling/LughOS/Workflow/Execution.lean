import LughOS.Workflow.Engine

/-!
# Executing the engine on one slot

All actions of `workflow_run` and `wf_unwind` touch one slot, its context object
and the trace. `Engine.put` is the state in which exactly these have moved away
from a base state, and each primitive action maps such a state to another one.
The loops are then described by ordinary recursive functions of the step table
and the context: the states the callbacks pass through, and the actions logged.

`exec_wfUnwind` and the two `exec_workflowRun` lemmas give complete executions.
The `cut` lemmas give the states a fault can leave behind.
-/

namespace LughOS.Workflow

open Interruptible

variable {σ : Type}

/-- The base state with a new status, cursor, context object and further trace. -/
def Engine.put (w : Engine σ) (slot : SlotId) (status : Status) (done : Nat) (s : σ)
    (t : List Action) : Engine σ :=
  { w with
    workflows := Function.update w.workflows slot
      { w.workflows slot with status, doneCount := done }
    store := Function.update w.store (w.workflows slot).ctx s
    trace := w.trace ++ t }

section Put

variable (w : Engine σ) (slot : SlotId) (st : Status) (d : Nat) (s : σ) (t : List Action)

@[simp] theorem put_slot : (w.put slot st d s t).workflows slot =
    { w.workflows slot with status := st, doneCount := d } := by
  simp [Engine.put]

@[simp] theorem put_trace : (w.put slot st d s t).trace = w.trace ++ t := rfl

theorem put_other {other : SlotId} (h : other ≠ slot) :
    (w.put slot st d s t).workflows other = w.workflows other := by
  simp [Engine.put, h]

theorem put_store_ctx : (w.put slot st d s t).store (w.workflows slot).ctx = s := by
  simp [Engine.put]

theorem put_store_other {c : Nat} (h : c ≠ (w.workflows slot).ctx) :
    (w.put slot st d s t).store c = w.store c := by
  simp [Engine.put, h]

/-- Every state is reached from itself by moving nothing. -/
theorem put_self : w.put slot (w.workflows slot).status (w.workflows slot).doneCount
    (w.store (w.workflows slot).ctx) [] = w := by
  simp [Engine.put]

@[simp] theorem exec_wfEmit (i : Nat) (ev : Event) (rv : BitVec 32) :
    (wfEmit slot i ev rv).exec (w.put slot st d s t) =
      ((), w.put slot st d s
        (t ++ [wfRecord { w.workflows slot with status := st, doneCount := d } i ev rv])) := by
  simp [wfEmit, Engine.log, Engine.put]

@[simp] theorem exec_setStatus (st' : Status) :
    (setStatus slot st').exec (w.put slot st d s t) =
      ((), w.put slot st' d s (t ++ [Action.setStatus slot st'])) := by
  simp [setStatus, Engine.log, Engine.setSlot, Engine.put]

@[simp] theorem exec_setDone (d' : Nat) :
    (setDone slot d').exec (w.put slot st d s t) =
      ((), w.put slot st d' s (t ++ [Action.setDone slot d'])) := by
  simp [setDone, Engine.log, Engine.setSlot, Engine.put]

@[simp] theorem exec_invoke (cb : Callback) (i : Nat) (fn : WorkflowFn σ) :
    (invoke slot cb i fn).exec (w.put slot st d s t) =
      ((fn s).1, w.put slot st d (fn s).2 (t ++ [Action.call slot cb i (fn s).1])) := by
  simp [invoke, Engine.log, Engine.put]

end Put

section Cuts

variable {α : Type} (w : Engine σ) (slot : SlotId) (n : Nat)

@[simp] theorem cut_wfEmit_bind (i : Nat) (ev : Event) (rv : BitVec 32) (q : Unit → Prog σ α) :
    (wfEmit slot i ev rv >>= q).cut (n + 1) w =
      (q ()).cut n ((wfEmit slot i ev rv).exec w).2 :=
  Program.cut_bind_succ q n rfl

@[simp] theorem cut_setStatus_bind (st : Status) (q : Unit → Prog σ α) :
    (setStatus slot st >>= q).cut (n + 1) w = (q ()).cut n ((setStatus slot st).exec w).2 :=
  Program.cut_bind_succ q n rfl

@[simp] theorem cut_setDone_bind (d : Nat) (q : Unit → Prog σ α) :
    (setDone slot d >>= q).cut (n + 1) w = (q ()).cut n ((setDone slot d).exec w).2 :=
  Program.cut_bind_succ q n rfl

@[simp] theorem cut_invoke_bind (cb : Callback) (i : Nat) (fn : WorkflowFn σ)
    (q : BitVec 32 → Prog σ α) :
    (invoke slot cb i fn >>= q).cut (n + 1) w =
      (q ((invoke slot cb i fn).exec w).1).cut n ((invoke slot cb i fn).exec w).2 :=
  Program.cut_bind_succ q n rfl

end Cuts

@[simp] theorem actions_wfEmit (w : Engine σ) (slot : SlotId) (i : Nat) (ev : Event)
    (rv : BitVec 32) : (wfEmit slot i ev rv).actions w = 1 := rfl

@[simp] theorem actions_invoke (w : Engine σ) (slot : SlotId) (cb : Callback) (i : Nat)
    (fn : WorkflowFn σ) : (invoke slot cb i fn).actions w = 1 := rfl

@[simp] theorem actions_setDone (w : Engine σ) (slot : SlotId) (d : Nat) :
    (setDone slot d).actions w = 1 := rfl

@[simp] theorem actions_setStatus (w : Engine σ) (slot : SlotId) (st : Status) :
    (setStatus slot st).actions w = 1 := rfl

/-! ## The undo chain -/

/-- The actions logged by the undo loop: a call and a record for each step below
the cursor that has an undo. The cursor and status in the records do not move. -/
def unwindTrace (slot : SlotId) (wf : Slot σ) : Nat → Nat → σ → List Action
  | 0, _, _ => []
  | _ + 1, 0, _ => []
  | bound + 1, r + 1, s =>
      match undoOf wf r with
      | none => unwindTrace slot wf bound r s
      | some undo =>
          .call slot .undo r (undo s).1 ::
            wfRecord wf r (if (undo s).1 ≠ 0 then .undoFail else .undoOk) (undo s).1 ::
            unwindTrace slot wf bound r (undo s).2

/-- The context object after the undo loop. -/
def unwindState (wf : Slot σ) : Nat → Nat → σ → σ
  | 0, _, s => s
  | _ + 1, 0, s => s
  | bound + 1, r + 1, s =>
      match undoOf wf r with
      | none => unwindState wf bound r s
      | some undo => unwindState wf bound r (undo s).2

/-- Whether some undo of the loop failed. -/
def unwindFailed (wf : Slot σ) : Nat → Nat → σ → Bool
  | 0, _, _ => false
  | _ + 1, 0, _ => false
  | bound + 1, r + 1, s =>
      match undoOf wf r with
      | none => unwindFailed wf bound r s
      | some undo => (undo s).1 ≠ 0 || unwindFailed wf bound r (undo s).2

/-- Which callbacks exist is not changed by moving the status or the cursor. -/
@[simp] theorem undoOf_with (wf : Slot σ) (st : Status) (d i : Nat) :
    undoOf { wf with status := st, doneCount := d } i = undoOf wf i := rfl

@[simp] theorem runOf_with (wf : Slot σ) (st : Status) (d i : Nat) :
    runOf { wf with status := st, doneCount := d } i = runOf wf i := rfl

theorem exec_wfUnwindLoop (w : Engine σ) (slot : SlotId) (st : Status) (d bound r : Nat)
    (failed : Bool) (s : σ) (t : List Action) :
    (wfUnwindLoop slot bound r failed).exec (w.put slot st d s t) =
      (failed || unwindFailed (w.workflows slot) bound r s,
        w.put slot st d (unwindState (w.workflows slot) bound r s)
          (t ++ unwindTrace slot { w.workflows slot with status := st, doneCount := d }
            bound r s)) := by
  induction bound generalizing r failed s t with
  | zero => simp [wfUnwindLoop, unwindFailed, unwindState, unwindTrace]
  | succ bound ih =>
      cases r with
      | zero => simp [wfUnwindLoop, unwindFailed, unwindState, unwindTrace]
      | succ r =>
          cases hundo : undoOf (w.workflows slot) r with
          | none => simp [wfUnwindLoop, unwindFailed, unwindState, unwindTrace, hundo, ih]
          | some undo =>
              by_cases hrv : (undo s).1 = 0#32
              · simp [wfUnwindLoop, unwindFailed, unwindState, unwindTrace, hundo, hrv, ih]
              · simp [wfUnwindLoop, unwindFailed, unwindState, unwindTrace, hundo, hrv, ih]

/-- The actions after the undo loop, up to the terminal record. -/
def unwindEnd (slot : SlotId) (wf : Slot σ) (failed : Bool) : List Action :=
  if failed then
    [.setDone slot 0, .setStatus slot .failed,
      wfRecord { wf with status := .failed, doneCount := 0 } wf.stepCount .failed (-1)]
  else
    [.setDone slot 0, .setStatus slot .rolledBack,
      wfRecord { wf with status := .rolledBack, doneCount := 0 } wf.stepCount .rolledBack 0]

def unwindStatus (failed : Bool) : Status := if failed then .failed else .rolledBack

theorem exec_wfUnwindFinish (w : Engine σ) (slot : SlotId) (st : Status) (d : Nat)
    (failed : Bool) (s : σ) (t : List Action) :
    (wfUnwindFinish slot failed).exec (w.put slot st d s t) =
      (if failed then -1 else 0,
        w.put slot (unwindStatus failed) 0 s
          (t ++ unwindEnd slot (w.workflows slot) failed)) := by
  cases failed <;> simp [wfUnwindFinish, unwindStatus, unwindEnd]

theorem exec_wfUnwind (w : Engine σ) (slot : SlotId) (st : Status) (d : Nat) (s : σ)
    (t : List Action) :
    (wfUnwind slot).exec (w.put slot st d s t) =
      let wf := w.workflows slot
      let failed := unwindFailed wf maxSteps d s
      (if failed then -1 else 0,
        w.put slot (unwindStatus failed) 0 (unwindState wf maxSteps d s)
          (t ++ .setStatus slot .rollingBack ::
            (unwindTrace slot { wf with status := .rollingBack, doneCount := d } maxSteps d s ++
              unwindEnd slot wf failed))) := by
  simp [wfUnwind, exec_wfUnwindLoop, exec_wfUnwindFinish]

/-! ## The forward loop -/

/-- The actions of one step that succeeds. -/
def stepTrace (slot : SlotId) (wf : Slot σ) (i : Nat) : List Action :=
  [wfRecord { wf with status := .running, doneCount := i } i .begin 0,
    .call slot .run i 0,
    wfRecord { wf with status := .running, doneCount := i } i .stepOk 0,
    .setDone slot (i + 1)]

/-- The actions of a step that fails, before its undo chain. -/
def failTrace (slot : SlotId) (wf : Slot σ) (i : Nat) (rv : BitVec 32) : List Action :=
  [wfRecord { wf with status := .running, doneCount := i } i .begin 0,
    .call slot .run i rv,
    wfRecord { wf with status := .running, doneCount := i } i .stepFail rv]

section Forward

variable (w : Engine σ) (slot : SlotId) (left i : Nat) (s : σ) (t : List Action)

theorem exec_workflowRunLoop_done (d : Nat) :
    (workflowRunLoop slot 0 i).exec (w.put slot .running d s t) =
      (0, w.put slot .committed d s (t ++ [Action.setStatus slot .committed,
        wfRecord { w.workflows slot with status := .committed, doneCount := d }
          (w.workflows slot).stepCount .commit 0])) := by
  simp [workflowRunLoop]

/-- The loop past a step that succeeds, for complete executions. -/
theorem exec_workflowRunLoop_ok (small : i < maxSteps)
    (ok : (runOf (w.workflows slot) i s).1 = 0#32) :
    (workflowRunLoop slot (left + 1) i).exec (w.put slot .running i s t) =
      (workflowRunLoop slot left (i + 1)).exec
        (w.put slot .running (i + 1) (runOf (w.workflows slot) i s).2
          (t ++ stepTrace slot (w.workflows slot) i)) := by
  have fits : (i + 1) % 4294967296 = i + 1 := Nat.mod_eq_of_lt (by unfold maxSteps at small; omega)
  simp [workflowRunLoop, ok, stepTrace, fits]

/-- The loop past a step that succeeds, when the cut comes later. -/
theorem cut_workflowRunLoop_ok (r : Nat) (small : i < maxSteps)
    (ok : (runOf (w.workflows slot) i s).1 = 0#32) :
    (workflowRunLoop slot (left + 1) i).cut (r + 4) (w.put slot .running i s t) =
      (workflowRunLoop slot left (i + 1)).cut r
        (w.put slot .running (i + 1) (runOf (w.workflows slot) i s).2
          (t ++ stepTrace slot (w.workflows slot) i)) := by
  have fits : (i + 1) % 4294967296 = i + 1 := Nat.mod_eq_of_lt (by unfold maxSteps at small; omega)
  simp [workflowRunLoop, ok, stepTrace, fits]

theorem actions_workflowRunLoop_ok (small : i < maxSteps)
    (ok : (runOf (w.workflows slot) i s).1 = 0#32) :
    (workflowRunLoop slot (left + 1) i).actions (w.put slot .running i s t) =
      (workflowRunLoop slot left (i + 1)).actions
        (w.put slot .running (i + 1) (runOf (w.workflows slot) i s).2
          (t ++ stepTrace slot (w.workflows slot) i)) + 4 := by
  have fits : (i + 1) % 4294967296 = i + 1 := Nat.mod_eq_of_lt (by unfold maxSteps at small; omega)
  simp [workflowRunLoop, ok, stepTrace, fits]
  omega

theorem exec_workflowRunLoop_fail (bad : (runOf (w.workflows slot) i s).1 ≠ 0#32) :
    (workflowRunLoop slot (left + 1) i).exec (w.put slot .running i s t) =
      (-1, ((wfUnwind slot).exec
        (w.put slot .running i (runOf (w.workflows slot) i s).2
          (t ++ failTrace slot (w.workflows slot) i (runOf (w.workflows slot) i s).1))).2) := by
  simp [workflowRunLoop, bad, failTrace]

/-- A cut inside a step that succeeds. -/
theorem cut_workflowRunLoop_step {r : Nat} (inside : r < 4)
    (ok : (runOf (w.workflows slot) i s).1 = 0#32) :
    ∃ s', (workflowRunLoop slot (left + 1) i).cut r (w.put slot .running i s t) =
      w.put slot .running i s' (t ++ (stepTrace slot (w.workflows slot) i).take r) := by
  match r with
  | 0 => exact ⟨s, by simp⟩
  | 1 => exact ⟨s, by simp [workflowRunLoop, stepTrace]⟩
  | 2 => exact ⟨_, by simp [workflowRunLoop, stepTrace, ok]; rfl⟩
  | 3 => exact ⟨_, by simp [workflowRunLoop, stepTrace, ok]; rfl⟩

/-- A cut inside a step, before the outcome of its callback is acted upon. -/
theorem cut_workflowRunLoop_fail {r : Nat} (inside : r < 3) :
    ∃ s', (workflowRunLoop slot (left + 1) i).cut r (w.put slot .running i s t) =
      w.put slot .running i s'
        (t ++ (failTrace slot (w.workflows slot) i (runOf (w.workflows slot) i s).1).take r) := by
  match r with
  | 0 => exact ⟨s, by simp⟩
  | 1 => exact ⟨s, by simp [workflowRunLoop, failTrace]⟩
  | 2 => exact ⟨_, by simp [workflowRunLoop, failTrace]; rfl⟩

theorem cut_workflowRunLoop_unwind (r : Nat) (bad : (runOf (w.workflows slot) i s).1 ≠ 0#32) :
    (workflowRunLoop slot (left + 1) i).cut (r + 3) (w.put slot .running i s t) =
      (wfUnwind slot).cut r (w.put slot .running i (runOf (w.workflows slot) i s).2
        (t ++ failTrace slot (w.workflows slot) i (runOf (w.workflows slot) i s).1)) := by
  simp [workflowRunLoop, bad, failTrace, Program.cut_bind_pure]

/-- A cut at the commit point. -/
theorem cut_workflowRunLoop_commit (d : Nat) :
    (workflowRunLoop slot 0 i).cut 1 (w.put slot .running d s t) =
      w.put slot .committed d s (t ++ [Action.setStatus slot .committed]) := by
  simp [workflowRunLoop]

end Forward

end LughOS.Workflow

import LughOS.Workflow.Execution

/-!
# What a complete run does

The forward loop is a fold of the run callbacks over the context object. The
fold has one index of interest, where it stops: the first step whose callback
fails, or the end of the table. `StopsAt` names it, every table has one, and
the two `exec_workflowRun` lemmas give the run's result in terms of it.

The callbacks a run invokes are read off the trace in order, each with the value
it returned. The run law says which ones they are and how the run ends.
-/

namespace LughOS.Workflow

open Interruptible

variable {σ : Type}

/-! ## The forward fold -/

/-- The run callback of a step, total as in `runOf`. -/
def Step.call (step : Step σ) : WorkflowFn σ := step.run.getD fun s => (-1, s)

/-- The context object once the first `i` run callbacks have been applied. -/
def stateAfter (steps : Nat → Step σ) (s : σ) : Nat → σ
  | 0 => s
  | i + 1 => ((steps i).call (stateAfter steps s i)).2

/-- What the run callback of step `i` returns when all earlier ones have run. -/
def runCode (steps : Nat → Step σ) (s : σ) (i : Nat) : BitVec 32 :=
  ((steps i).call (stateAfter steps s i)).1

/-- The forward loop over `count` steps stops at `k`. -/
structure StopsAt (steps : Nat → Step σ) (count : Nat) (s : σ) (k : Nat) : Prop where
  le : k ≤ count
  ok : ∀ i < k, runCode steps s i = 0
  fails : k < count → runCode steps s k ≠ 0

theorem exists_stopsAt (steps : Nat → Step σ) (count : Nat) (s : σ) :
    ∃ k, StopsAt steps count s k := by
  induction count with
  | zero => exact ⟨0, le_rfl, by omega, by omega⟩
  | succ count ih =>
      obtain ⟨k, stops⟩ := ih
      by_cases early : k < count
      · exact ⟨k, by omega, stops.ok, fun _ => stops.fails early⟩
      · obtain rfl : k = count := by have := stops.le; omega
        by_cases last : runCode steps s k = 0
        · refine ⟨k + 1, le_rfl, fun i hi => ?_, by omega⟩
          rcases Nat.lt_succ_iff_lt_or_eq.mp hi with lt | rfl
          · exact stops.ok i lt
          · exact last
        · exact ⟨k, by omega, stops.ok, fun _ => last⟩

/-- The steps below `k` that have an undo, last step first. -/
def undoSteps (steps : Nat → Step σ) (k : Nat) : List Nat :=
  (List.range k).reverse.filter fun j => (steps j).undo.isSome

theorem undoSteps_succ (steps : Nat → Step σ) (k : Nat) :
    undoSteps steps (k + 1) =
      (if (steps k).undo.isSome then [k] else []) ++ undoSteps steps k := by
  simp only [undoSteps, List.range_succ, List.reverse_append, List.reverse_singleton,
    List.singleton_append, List.filter_cons]
  split <;> rfl

/-! ## A slot that has just been started -/

/-- The slot `workflow_begin` hands out, in a state where no step has run. -/
structure Fresh (w : Engine σ) (slot : SlotId) (steps : Nat → Step σ) (count : Nat) (ctx : Nat) :
    Prop where
  steps_eq : (w.workflows slot).steps = some steps
  count_eq : (w.workflows slot).stepCount = count
  ctx_eq : (w.workflows slot).ctx = ctx
  status_eq : (w.workflows slot).status = .running
  done_eq : (w.workflows slot).doneCount = 0
  count_le : count ≤ maxSteps

theorem workflowBegin_eq_some {w w₁ : Engine σ} {steps : Nat → Step σ} {count ctx : Nat}
    {slot : SlotId} (started : workflowBegin w (some steps) count ctx = some (some slot, w₁)) :
    accepts steps count ∧ ∃ id next,
      w₁ = { w with nextTxnId := next }.setSlot slot (freshSlot w id steps count ctx) := by
  simp only [workflowBegin] at started
  split at started
  · simp at started
  · next acc =>
      refine ⟨by simpa using acc, ?_⟩
      split at started
      · simp at started
      · simp only [Option.map_eq_some_iff, Prod.mk.injEq, Option.some.injEq] at started
        obtain ⟨⟨id, next⟩, -, rfl, rfl⟩ := started
        exact ⟨id, next, rfl⟩

section Started

variable {w w₁ : Engine σ} {steps : Nat → Step σ} {count ctx : Nat} {slot : SlotId}

theorem workflowBegin_fresh
    (started : workflowBegin w (some steps) count ctx = some (some slot, w₁)) :
    Fresh w₁ slot steps count ctx ∧ w₁.store = w.store ∧ w₁.trace = w.trace := by
  obtain ⟨acc, id, next, rfl⟩ := workflowBegin_eq_some started
  refine ⟨?_, rfl, rfl⟩
  constructor <;> simp_all [Engine.setSlot, freshSlot, accepts]

theorem Fresh.runOf_eq (fresh : Fresh w slot steps count ctx) (i : Nat) :
    runOf (w.workflows slot) i = (steps i).call := by
  simp [runOf, fresh.steps_eq, Step.call]

/-- The state a run has reached when `i` steps have completed. -/
def Engine.reached (w : Engine σ) (slot : SlotId) (steps : Nat → Step σ) (i : Nat) : Engine σ :=
  w.put slot .running i (stateAfter steps (w.store (w.workflows slot).ctx) i)
    (wfRecord { w.workflows slot with status := .running, doneCount := 0 }
        (w.workflows slot).stepCount .begin 0 ::
      (List.range i).flatMap (stepTrace slot (w.workflows slot)))

/-- The entry checks pass on a fresh slot, and the loop starts. -/
theorem Fresh.exec_enter (fresh : Fresh w slot steps count ctx) :
    (workflowRun (some slot)).exec w =
      (workflowRunLoop slot count 0).exec (w.reached slot steps 0) := by
  have base := put_self w slot
  rw [fresh.status_eq, fresh.done_eq] at base
  conv_lhs => rw [← base]
  simp [workflowRun, fresh.steps_eq, fresh.count_eq, Engine.reached, stateAfter]

theorem Fresh.reached_succ (fresh : Fresh w slot steps count ctx) (i : Nat) :
    w.reached slot steps (i + 1) = w.put slot .running (i + 1)
      (runOf (w.workflows slot) i (stateAfter steps (w.store (w.workflows slot).ctx) i)).2
      (wfRecord { w.workflows slot with status := .running, doneCount := 0 }
          (w.workflows slot).stepCount .begin 0 ::
        (List.range i).flatMap (stepTrace slot (w.workflows slot)) ++
          stepTrace slot (w.workflows slot) i) := by
  rw [fresh.runOf_eq]
  simp [Engine.reached, stateAfter, List.range_succ]

theorem Fresh.run_ok (fresh : Fresh w slot steps count ctx) {i : Nat}
    (ok : runCode steps (w.store ctx) i = 0) :
    (runOf (w.workflows slot) i
      (stateAfter steps (w.store (w.workflows slot).ctx) i)).1 = 0#32 := by
  rw [fresh.runOf_eq, fresh.ctx_eq]
  exact ok

/-- The loop passes over the steps that succeed. -/
theorem Fresh.exec_prefix (fresh : Fresh w slot steps count ctx) (k left : Nat)
    (small : k + left ≤ maxSteps) (ok : ∀ i < k, runCode steps (w.store ctx) i = 0) :
    (workflowRunLoop slot (k + left) 0).exec (w.reached slot steps 0) =
      (workflowRunLoop slot left k).exec (w.reached slot steps k) := by
  induction k generalizing left with
  | zero => rw [Nat.zero_add]
  | succ k ih =>
      have earlier := ih (left + 1) (by omega) fun i hi => ok i (by omega)
      rw [show k + 1 + left = k + (left + 1) by omega, earlier, fresh.reached_succ]
      exact exec_workflowRunLoop_ok _ _ _ _ _ _ (by omega) (fresh.run_ok (ok k (by omega)))

theorem Fresh.exec_committed (fresh : Fresh w slot steps count ctx)
    (stops : StopsAt steps count (w.store ctx) count) :
    (workflowRun (some slot)).exec w =
      (0, w.put slot .committed count (stateAfter steps (w.store ctx) count)
        (wfRecord { w.workflows slot with status := .running, doneCount := 0 } count .begin 0 ::
          ((List.range count).flatMap (stepTrace slot (w.workflows slot)) ++
            [.setStatus slot .committed,
              wfRecord { w.workflows slot with status := .committed, doneCount := count }
                count .commit 0]))) := by
  have loop := fresh.exec_prefix count 0 fresh.count_le stops.ok
  rw [fresh.exec_enter]
  rw [Nat.add_zero] at loop
  rw [loop, Engine.reached, exec_workflowRunLoop_done, fresh.ctx_eq, fresh.count_eq]
  simp

theorem Fresh.exec_unwound (fresh : Fresh w slot steps count ctx) {k : Nat}
    (stops : StopsAt steps count (w.store ctx) k) (early : k < count) :
    (workflowRun (some slot)).exec w =
      let wf := w.workflows slot
      let s := stateAfter steps (w.store ctx) (k + 1)
      let failed := unwindFailed wf maxSteps k s
      (-1, w.put slot (unwindStatus failed) 0 (unwindState wf maxSteps k s)
        (wfRecord { wf with status := .running, doneCount := 0 } count .begin 0 ::
          ((List.range k).flatMap (stepTrace slot wf) ++
            failTrace slot wf k (runCode steps (w.store ctx) k) ++
            .setStatus slot .rollingBack ::
              (unwindTrace slot { wf with status := .rollingBack, doneCount := k } maxSteps k s ++
                unwindEnd slot wf failed)))) := by
  have bad : (runOf (w.workflows slot) k (stateAfter steps (w.store ctx) k)).1 ≠ 0#32 := by
    rw [fresh.runOf_eq]
    exact stops.fails early
  have loop := fresh.exec_prefix k (count - k) (by have := fresh.count_le; omega) stops.ok
  rw [fresh.exec_enter]
  rw [Nat.add_sub_cancel' stops.le] at loop
  rw [loop, show count - k = count - k - 1 + 1 by omega, Engine.reached, fresh.ctx_eq,
    exec_workflowRunLoop_fail _ _ _ _ _ _ bad, exec_wfUnwind, fresh.count_eq, fresh.runOf_eq]
  simp [stateAfter, runCode]

end Started

/-! ## The callbacks of a run -/

/-- One callback invocation and the value it returned. -/
structure Call where
  slot : SlotId
  callback : Callback
  step : Nat
  rv : BitVec 32
  deriving DecidableEq

def Action.call? : Action → Option Call
  | .call slot callback step rv => some ⟨slot, callback, step, rv⟩
  | _ => none

/-- The callbacks of a trace, in the order of their invocation. -/
def callsOf (t : List Action) : List Call := t.filterMap Action.call?

@[simp] theorem callsOf_nil : callsOf [] = [] := rfl

@[simp] theorem callsOf_append (t t' : List Action) :
    callsOf (t ++ t') = callsOf t ++ callsOf t' :=
  List.filterMap_append

@[simp] theorem callsOf_wfRecord (wf : Slot σ) (i : Nat) (ev : Event) (rv : BitVec 32)
    (t : List Action) : callsOf (wfRecord wf i ev rv :: t) = callsOf t := rfl

@[simp] theorem callsOf_call (slot : SlotId) (cb : Callback) (i : Nat) (rv : BitVec 32)
    (t : List Action) :
    callsOf (.call slot cb i rv :: t) = ⟨slot, cb, i, rv⟩ :: callsOf t := rfl

@[simp] theorem callsOf_setStatus (slot : SlotId) (st : Status) (t : List Action) :
    callsOf (.setStatus slot st :: t) = callsOf t := rfl

@[simp] theorem callsOf_setDone (slot : SlotId) (d : Nat) (t : List Action) :
    callsOf (.setDone slot d :: t) = callsOf t := rfl

@[simp] theorem callsOf_steps (slot : SlotId) (wf : Slot σ) (k : Nat) :
    callsOf ((List.range k).flatMap (stepTrace slot wf)) =
      (List.range k).map fun i => ⟨slot, .run, i, 0⟩ := by
  induction k with
  | zero => rfl
  | succ k ih => simp [List.range_succ, ih, stepTrace]

@[simp] theorem callsOf_failTrace (slot : SlotId) (wf : Slot σ) (i : Nat) (rv : BitVec 32) :
    callsOf (failTrace slot wf i rv) = [⟨slot, .run, i, rv⟩] := rfl

@[simp] theorem callsOf_unwindEnd (slot : SlotId) (wf : Slot σ) (failed : Bool) :
    callsOf (unwindEnd slot wf failed) = [] := by
  cases failed <;> rfl

/-- The undo loop calls the undos below the cursor, each once, downwards. -/
theorem callsOf_unwindTrace (slot : SlotId) (wf : Slot σ) (st : Status) (d : Nat)
    {steps : Nat → Step σ} (table : wf.steps = some steps) {bound r : Nat} (small : r ≤ bound)
    (s : σ) :
    (callsOf (unwindTrace slot { wf with status := st, doneCount := d } bound r s)).map
        (fun c => (c.slot, c.callback, c.step)) =
      (undoSteps steps r).map fun j => (slot, .undo, j) := by
  induction bound generalizing r s with
  | zero =>
      obtain rfl : r = 0 := by omega
      rfl
  | succ bound ih =>
      cases r with
      | zero => rfl
      | succ r =>
          have rest := ih (Nat.le_of_succ_le_succ small)
          have undo_eq : undoOf wf r = (steps r).undo := by simp [undoOf, table]
          cases hundo : (steps r).undo with
          | none => simp [unwindTrace, undo_eq, hundo, undoSteps_succ, rest]
          | some undo => simp [unwindTrace, undo_eq, hundo, undoSteps_succ, rest]

theorem mem_callsOf_unwindTrace {slot : SlotId} {wf : Slot σ} {bound r : Nat} {s : σ} {c : Call}
    (mem : c ∈ callsOf (unwindTrace slot wf bound r s)) : c.slot = slot ∧ c.callback = .undo := by
  induction bound generalizing r s with
  | zero => simp [unwindTrace] at mem
  | succ bound ih =>
      cases r with
      | zero => simp [unwindTrace] at mem
      | succ r =>
          cases hundo : undoOf wf r with
          | none => exact ih (by simpa [unwindTrace, hundo] using mem)
          | some undo =>
              simp only [unwindTrace, hundo, callsOf_call, callsOf_wfRecord, List.mem_cons] at mem
              rcases mem with rfl | later
              · exact ⟨rfl, rfl⟩
              · exact ih later

/-- The loop reports a failure exactly when one of its calls returned non-zero. -/
theorem unwindFailed_eq (slot : SlotId) (wf : Slot σ) (st : Status) (d bound r : Nat) (s : σ) :
    unwindFailed wf bound r s =
      (callsOf (unwindTrace slot { wf with status := st, doneCount := d } bound r s)).any
        fun c => c.rv ≠ 0 := by
  induction bound generalizing r s with
  | zero => rfl
  | succ bound ih =>
      cases r with
      | zero => rfl
      | succ r =>
          cases hundo : undoOf wf r with
          | none => simp [unwindFailed, unwindTrace, hundo, ih]
          | some undo => simp [unwindFailed, unwindTrace, hundo, ih]

/-! ## The run law -/

/-- The law of one run: over which steps it went, which callbacks it invoked,
what it returned and how it left the slot. -/
def RunLaw (steps : Nat → Step σ) (count : Nat) (s : σ) (slot : SlotId) (t : List Action)
    (rv : Int) (wf : Slot σ) : Prop :=
  ∃ k undos, StopsAt steps count s k ∧
    callsOf t = (List.range k).map (fun i => ⟨slot, .run, i, 0⟩) ++
      (if k < count then ⟨slot, .run, k, runCode steps s k⟩ :: undos else []) ∧
    (k < count → undos.map (fun c => (c.slot, c.callback, c.step)) =
      (undoSteps steps k).map fun j => (slot, .undo, j)) ∧
    (k = count ↔ rv = 0 ∧ wf.status = .committed ∧ wf.doneCount = count) ∧
    (k < count → rv = -1 ∧ wf.doneCount = 0 ∧
      (wf.status = .rolledBack ↔ ∀ c ∈ undos, c.rv = 0) ∧
      (wf.status = .failed ↔ ∃ c ∈ undos, c.rv ≠ 0))

theorem Fresh.runLaw_unwound {w : Engine σ} {slot : SlotId} {steps : Nat → Step σ}
    {count ctx k : Nat} (fresh : Fresh w slot steps count ctx)
    (stops : StopsAt steps count (w.store ctx) k) (early : k < count) :
    let out := (workflowRun (some slot)).exec w
    ∃ t, out.2.trace = w.trace ++ t ∧
      RunLaw steps count (w.store ctx) slot t out.1 (out.2.workflows slot) := by
  intro out
  have run : out = _ := fresh.exec_unwound stops early
  let undos := callsOf (unwindTrace slot
    { w.workflows slot with status := .rollingBack, doneCount := k } maxSteps k
    (stateAfter steps (w.store ctx) (k + 1)))
  have failed_eq : unwindFailed (w.workflows slot) maxSteps k
      (stateAfter steps (w.store ctx) (k + 1)) = undos.any fun c => c.rv ≠ 0 :=
    unwindFailed_eq slot _ _ _ _ _ _
  have k_le : k ≤ maxSteps := early.le.trans fresh.count_le
  refine ⟨_, by rw [run, put_trace], k, undos, stops, ?_, fun _ => ?_, ?_, fun _ => ?_⟩
  · simp [early, undos]
  · exact callsOf_unwindTrace slot _ _ _ fresh.steps_eq k_le _
  · have rv_ne : out.1 ≠ 0 := by simp [run]
    simp [early.ne, rv_ne]
  · have status_eq : (out.2.workflows slot).status =
        unwindStatus (undos.any fun c => c.rv ≠ 0) := by rw [run, put_slot, failed_eq]
    refine ⟨by rw [run], by rw [run, put_slot], ?_, ?_⟩
    all_goals
      rw [status_eq]
      cases any_eq : undos.any fun c => c.rv ≠ 0 <;> simp_all [unwindStatus]

/-- `workflow_run` on a slot that `workflow_begin` has just handed out obeys the
run law, whatever the callbacks do to the context object. -/
theorem workflowRun_law (w w₁ : Engine σ) (steps : Nat → Step σ) (count ctx : Nat) (slot : SlotId)
    (started : workflowBegin w (some steps) count ctx = some (some slot, w₁)) :
    let out := (workflowRun (some slot)).exec w₁
    ∃ t, out.2.trace = w.trace ++ t ∧
      RunLaw steps count (w.store ctx) slot t out.1 (out.2.workflows slot) := by
  obtain ⟨fresh, store_eq, trace_eq⟩ := workflowBegin_fresh started
  rw [← store_eq, ← trace_eq]
  obtain ⟨k, stops⟩ := exists_stopsAt steps count (w₁.store ctx)
  rcases Nat.lt_or_eq_of_le stops.le with early | rfl
  · exact fresh.runLaw_unwound stops early
  · rw [fresh.exec_committed stops]
    refine ⟨_, rfl, k, [], stops, ?_, by omega, ?_, by omega⟩
    · simp
    · simp

/-- The engine after boot: every slot free, and 0 reserved as "no transaction". -/
def Engine.boot (s : σ) : Engine σ :=
  { workflows := fun _ => idleSlot, store := fun _ => s, nextTxnId := 1, currentTask := none,
    trace := [] }

/-- A table over a counter: each step adds one, except for one step that fails. -/
def tallySteps (failing : Nat) (i : Nat) : Step Nat :=
  { name := none
    run := some fun s => if i = failing then (1, s) else (0, s + 1)
    undo := some fun s => (0, s - 1) }

/-- The counter table begun on a booted engine. -/
def tallyBegun (failing count : Nat) : Engine Nat :=
  { Engine.boot 0 with nextTxnId := 2 }.setSlot 0
    (freshSlot (Engine.boot 0) 1 (tallySteps failing) count 0)

theorem workflowRun_law_tally :
    workflowBegin (Engine.boot 0) (some (tallySteps 2)) 3 0 = some (some 0, tallyBegun 2 3) ∧
      let out := (workflowRun (some 0)).exec (tallyBegun 2 3)
      ∃ t, out.2.trace = [] ++ t ∧
        RunLaw (tallySteps 2) 3 0 0 t out.1 (out.2.workflows 0) :=
  ⟨rfl, workflowRun_law (Engine.boot 0) (tallyBegun 2 3) (tallySteps 2) 3 0 0 rfl⟩

end LughOS.Workflow

import LughOS.Update.Pipeline
import LughOS.Workflow.RunLaw

/-!
# The workflow of an update

How the engine runs the five steps of `update_steps`. The forward callbacks give a sequence of
context objects; `Begins.commits` says how `apply_update` ends if all of them succeed, and
`Begins.unwinds` how it ends if one before the last fails and the undo of the checkpoint succeeds.
The other steps before the last have no undo, and nothing can fail once the last one has run.
-/

namespace LughOS.Update

open Storage Workflow

/-! ## The engine -/

section Run

variable {e : Engine (Option Session)} {slot : SlotId} {y : Nat → Option Session} {k : Nat}

theorem callback_returns {f : Session → Option (Int × Session)} {rv : Int} {x y : Session}
    (returns : f x = some (rv, y)) : callback f (some x) = (BitVec.ofInt 32 rv, some y) := by
  simp [callback, returns]

theorem callback_halts {f : Session → Option (Int × Session)} {x : Session} (halts : f x = none) :
    callback f (some x) = (0, none) := by
  simp [callback, halts]

/-- The context objects of the forward run, where the first `k` callbacks succeed. -/
structure Advances (y : Nat → Option Session) (k : Nat) : Prop where
  next : ∀ i < k, (updateSteps i).call (y i) = (0, y (i + 1))

theorem Advances.stateAfter_eq (advances : Advances y k) :
    ∀ i ≤ k, stateAfter updateSteps (y 0) i = y i := by
  intro i
  induction i with
  | zero => intro _; rfl
  | succ i ih =>
      intro within
      rw [stateAfter, ih (by omega), advances.next i within]

theorem Advances.runCode_eq (advances : Advances y k) :
    ∀ i < k, runCode updateSteps (y 0) i = 0 := by
  intro i within
  rw [runCode, advances.stateAfter_eq i within.le, advances.next i within]

theorem run_commits (fresh : Fresh e slot updateSteps updateStepCount 0)
    (advances : Advances y updateStepCount) (start : e.store 0 = y 0) :
    ∃ t, (workflowRun (some slot)).exec e =
      (0, e.put slot .committed updateStepCount (y updateStepCount) t) := by
  have stops : StopsAt updateSteps updateStepCount (e.store 0) updateStepCount := by
    refine ⟨le_rfl, ?_, fun none => absurd none (lt_irrefl _)⟩
    rw [start]
    exact advances.runCode_eq
  have ran := fresh.exec_committed stops
  rw [start, advances.stateAfter_eq _ le_rfl] at ran
  exact ⟨_, ran⟩

/-- What the undo chain makes of the context object, and whether it fails, if the first `k` steps
have completed: only the first of the steps before the last has an undo. -/
def undone (k : Nat) (z : Option Session) : BitVec 32 × Option Session :=
  if k = 0 then (0, z) else callback undoRemoveCheckpoint z

theorem unwind_update (fresh : Fresh e slot updateSteps updateStepCount 0) (early : k < 5)
    (z : Option Session) :
    unwindState (e.workflows slot) maxSteps k z = (undone k z).2 ∧
      unwindFailed (e.workflows slot) maxSteps k z = decide ((undone k z).1 ≠ 0) := by
  have steps : ∀ i, undoOf (e.workflows slot) i = (updateSteps i).undo := by
    intro i
    rw [undoOf, fresh.steps_eq]
    rfl
  interval_cases k <;>
    simp [maxSteps, unwindState, unwindFailed, undone, steps, updateSteps]

theorem run_unwinds (fresh : Fresh e slot updateSteps updateStepCount 0) (advances : Advances y k)
    (early : k < 5) (start : e.store 0 = y 0) {rv : BitVec 32} {z : Option Session}
    (fails : (updateSteps k).call (y k) = (rv, z)) (bad : rv ≠ 0) :
    ∃ t, (workflowRun (some slot)).exec e =
      (-1, e.put slot (unwindStatus (decide ((undone k z).1 ≠ 0))) 0 (undone k z).2 t) := by
  have stops : StopsAt updateSteps updateStepCount (e.store 0) k := by
    refine ⟨early.le, ?_, fun _ => ?_⟩
    · rw [start]
      exact advances.runCode_eq
    · rw [start, runCode, advances.stateAfter_eq _ le_rfl, fails]
      exact bad
  have reached : stateAfter updateSteps (e.store 0) (k + 1) = z := by
    rw [start, stateAfter, advances.stateAfter_eq _ le_rfl, fails]
  obtain ⟨state, failed⟩ := unwind_update fresh early z
  have ran := fresh.exec_unwound stops early
  dsimp only at ran
  rw [reached, state, failed] at ran
  exact ⟨_, ran⟩

end Run

/-! ## The ends of an update -/

section Ends

variable {w : World} {st : UpdateState} {slot : SlotId} {y : Nat → Option Session} {k : Nat}

/-- The session as the first step finds it, once `workflow_begin` has taken an id. -/
def World.begun (w : World) (st : UpdateState) : Session :=
  ⟨st, { w.updater with
    store := { w.updater.store with nextId := w.updater.store.nextId + 1 } }⟩

/-- The engine in which the workflow runs. -/
def World.started (w : World) (st : UpdateState) (slot : SlotId) : Engine (Option Session) :=
  shareId ({ w.engine st with nextTxnId := w.updater.store.nextId + 1 }.setSlot slot
    (freshSlot (w.engine st) w.updater.store.nextId updateSteps updateStepCount 0))

/-- The call gets past its checks and a slot is free. -/
structure Begins (w : World) (st : UpdateState) (slot : SlotId) : Prop where
  path : st.tx.path ≠ 0
  image : st.tx.image ≠ 0
  small : st.tx.size ≤ maxUpdateSize
  free : (Table.first? fun i => decide ((w.workflows i).status = .idle)) = some slot
  id : w.updater.store.nextId ≠ BitVec.allOnes 64

theorem World.started_fresh (w : World) (st : UpdateState) (slot : SlotId) :
    Fresh (w.started st slot) slot updateSteps updateStepCount 0 := by
  constructor <;>
    simp [started, shareId, Engine.setSlot, freshSlot, updateStepCount, maxSteps]

theorem Begins.workflowBegin_eq (begins : Begins w st slot) :
    workflowBegin (w.engine st) (some updateSteps) updateStepCount 0 =
      some (some slot, { w.engine st with nextTxnId := w.updater.store.nextId + 1 }.setSlot slot
        (freshSlot (w.engine st) w.updater.store.nextId updateSteps updateStepCount 0)) := by
  have accepted : accepts updateSteps updateStepCount = true := by decide
  have free : (Table.first? fun i => decide (((w.engine st).workflows i).status = .idle)) =
      some slot := begins.free
  have id : generateTransactionId (w.engine st).nextTxnId =
      some (w.updater.store.nextId, w.updater.store.nextId + 1) := if_neg begins.id
  simp only [workflowBegin, accepted, not_true_eq_false, if_false, free, id, Option.map_some]

/-- A workflow begins in the first idle slot, with a transaction id. -/
theorem idle_of_workflowBegin {e : Engine (Option Session)}
    (begun : workflowBegin (w.engine st) (some updateSteps) updateStepCount 0 =
      some (some slot, e)) :
    (Table.first? fun i => decide ((w.workflows i).status = .idle)) = some slot ∧
      w.updater.store.nextId ≠ BitVec.allOnes 64 := by
  have accepted : accepts updateSteps updateStepCount = true := by decide
  simp only [workflowBegin, accepted, not_true_eq_false, if_false] at begun
  split at begun
  · cases begun
  · rename_i found free
    obtain ⟨⟨id, next⟩, generated, same⟩ := Option.map_eq_some_iff.mp begun
    obtain ⟨here, -⟩ := Prod.mk.inj same
    refine ⟨free.trans here, fun last => ?_⟩
    have none : generateTransactionId (w.engine st).nextTxnId = none := if_pos last
    rw [none] at generated
    cases generated

theorem Begins.applyUpdate_eq (begins : Begins w st slot) :
    applyUpdate w st =
      (((workflowRun (some slot)).exec (w.started st slot)).2.store 0).bind
        (finishUpdate slot ((workflowRun (some slot)).exec (w.started st slot)).1
          ((workflowRun (some slot)).exec (w.started st slot)).2) := by
  rw [applyUpdate, if_neg (not_or.mpr ⟨begins.path, begins.image⟩),
    if_neg (Nat.not_lt.mpr begins.small), begins.workflowBegin_eq]
  rfl

/-- A call that does not begin a workflow: it fails an assertion, finds no transaction id, or
returns -1 at once. -/
theorem applyUpdate_cases (w : World) (st : UpdateState) :
    ((st.tx.path = 0 ∨ st.tx.image = 0 ∨ w.updater.store.nextId = BitVec.allOnes 64) ∧
        applyUpdate w st = none) ∨
      ((maxUpdateSize < st.tx.size ∨ ¬∃ i, (w.workflows i).status = .idle) ∧
        applyUpdate w st = some (-1, { st with status := .error }, w)) ∨
      ∃ slot, Begins w st slot := by
  by_cases null : st.tx.path = 0 ∨ st.tx.image = 0
  · refine .inl ⟨by tauto, ?_⟩
    rw [applyUpdate, if_pos null]
  by_cases large : maxUpdateSize < st.tx.size
  · refine .inr (.inl ⟨.inl large, ?_⟩)
    rw [applyUpdate, if_neg null, if_pos large]
  have accepted : accepts updateSteps updateStepCount = true := by decide
  have same : (Table.first? fun i => decide (((w.engine st).workflows i).status = .idle)) =
      Table.first? fun i => decide ((w.workflows i).status = .idle) := rfl
  cases free : Table.first? fun i => decide ((w.workflows i).status = .idle) with
  | none =>
      refine .inr (.inl ⟨.inr ?_, ?_⟩)
      · rintro ⟨i, idle⟩
        simpa [idle] using Table.first?_eq_none_iff.mp free i
      · rw [applyUpdate, if_neg null, if_neg large]
        simp only [workflowBegin, accepted, not_true_eq_false, if_false, same, free]
  | some slot =>
      by_cases last : w.updater.store.nextId = BitVec.allOnes 64
      · have none : generateTransactionId (w.engine st).nextTxnId = none := if_pos last
        refine .inl ⟨.inr (.inr last), ?_⟩
        rw [applyUpdate, if_neg null, if_neg large]
        simp only [workflowBegin, accepted, not_true_eq_false, if_false, same, free, none,
          Option.map_none]
      · rw [not_or] at null
        exact .inr (.inr ⟨slot, null.1, null.2, Nat.le_of_not_lt large, free, last⟩)

/-- The table once the slot is released. -/
def World.released (w : World) (slot : SlotId) : SlotId → Slot (Option Session) :=
  Function.update w.workflows slot idleSlot

theorem World.release_put (w : World) (st : UpdateState) (slot : SlotId) (status : Status)
    (done : Nat) (z : Option Session) (t : List Workflow.Action) :
    ((workflowRelease slot).exec ((w.started st slot).put slot status done z t)).2.workflows =
      w.released slot := by
  funext i
  by_cases here : i = slot
  · subst here
    simp [workflowRelease, released, Engine.setSlot, Engine.log]
  · simp [workflowRelease, released, Engine.setSlot, Engine.log, Engine.put, started, shareId,
      World.engine, here]

theorem World.store_put (w : World) (st : UpdateState) (slot : SlotId) (status : Status)
    (done : Nat) (z : Option Session) (t : List Workflow.Action) :
    ((w.started st slot).put slot status done z t).store 0 = z := by
  have ctx := (w.started_fresh st slot).ctx_eq
  rw [← ctx]
  exact put_store_ctx ..

/-- Every step succeeds. -/
theorem Begins.commits (begins : Begins w st slot) (advances : Advances y updateStepCount)
    (start : y 0 = some (w.begun st)) :
    applyUpdate w st = (y updateStepCount).bind fun x =>
      (discardCheckpoint x).map fun store =>
        (0, ((x.setStore store).setStatus .complete).state,
          ⟨(x.setStore store).updater, w.released slot⟩) := by
  obtain ⟨t, ran⟩ := run_commits (w.started_fresh st slot) advances start.symm
  rw [begins.applyUpdate_eq, ran, World.store_put]
  congr 1
  funext x
  rw [finishUpdate, if_pos rfl]
  simp only [World.release_put]
  rfl

/-- A step fails, and the steps before it are undone. -/
theorem Begins.unwinds (begins : Begins w st slot) (advances : Advances y k) (early : k < 5)
    (start : y 0 = some (w.begun st)) {rv : BitVec 32} {z : Option Session}
    (fails : (updateSteps k).call (y k) = (rv, z)) (bad : rv ≠ 0) (undo : (undone k z).1 = 0) :
    applyUpdate w st = (undone k z).2.map fun x =>
      (-1, (x.setStatus .rollback).state, ⟨x.updater, w.released slot⟩) := by
  obtain ⟨t, ran⟩ := run_unwinds (w.started_fresh st slot) advances early start.symm fails bad
  rw [begins.applyUpdate_eq, ran, World.store_put]
  cases (undone k z).2 with
  | none => rfl
  | some x =>
      have status : (((w.started st slot).put slot
          (unwindStatus (decide ((undone k z).1 ≠ 0))) 0 (some x) t).workflows slot).status ≠
            .failed := by
        rw [put_slot, undo]
        exact Status.noConfusion
      have failed : ¬(-1 : Int) = 0 := by decide
      rw [Option.bind_some, finishUpdate, if_neg failed, if_neg status]
      simp only [World.release_put]
      rfl

end Ends

end LughOS.Update

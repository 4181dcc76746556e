import LughOS.Workflow.RunLaw

/-!
# Recovery

`workflow_recover` visits the four slots in order and unwinds those a fault has
abandoned. The visit of one slot changes no other slot, calls no other slot's
callbacks, and touches the context object of an abandoned slot only. So what
recovery does to one slot is what its own visit does to it.

With callbacks whose undo takes back a successful run, unwinding from any cursor
restores the context object, and a workflow either commits or looks as if it had
never started.
-/

namespace LughOS.Workflow

open Interruptible

variable {σ : Type}

/-- A slot in one of the two statuses `workflow_recover` looks for. -/
def Slot.Abandoned (wf : Slot σ) : Prop := wf.status = .running ∨ wf.status = .rollingBack

instance (wf : Slot σ) : Decidable wf.Abandoned := by
  unfold Slot.Abandoned
  infer_instance

/-! ## The visit of one slot -/

/-- The actions of unwinding a slot from its current cursor. -/
def recoverTrace (slot : SlotId) (wf : Slot σ) (s : σ) : List Action :=
  .setStatus slot .rollingBack ::
    (unwindTrace slot { wf with status := .rollingBack } maxSteps wf.doneCount s ++
      unwindEnd slot wf (unwindFailed wf maxSteps wf.doneCount s))

section Visit

variable (w : Engine σ) (slot : SlotId) (result : Int)

theorem exec_recoverSlot_skip (live : ¬(w.workflows slot).Abandoned) :
    (workflowRecoverSlot slot result).exec w = (result, w) := by
  have skip : (w.workflows slot).status ≠ .running ∧ (w.workflows slot).status ≠ .rollingBack := by
    simpa [Slot.Abandoned] using live
  simp [workflowRecoverSlot, skip]

theorem exec_recoverSlot_no_table (lost : (w.workflows slot).Abandoned)
    (table : (w.workflows slot).steps = none) :
    (workflowRecoverSlot slot result).exec w =
      (-1, w.put slot .failed (w.workflows slot).doneCount (w.store (w.workflows slot).ctx)
        [.setStatus slot .failed]) := by
  have found : ¬((w.workflows slot).status ≠ .running ∧
      (w.workflows slot).status ≠ .rollingBack) := by
    simp only [Slot.Abandoned] at lost
    tauto
  have marked := exec_setStatus w slot (w.workflows slot).status (w.workflows slot).doneCount
    (w.store (w.workflows slot).ctx) [] .failed
  rw [put_self] at marked
  simp [workflowRecoverSlot, found, table, marked]

theorem exec_recoverSlot_unwind (lost : (w.workflows slot).Abandoned) {steps : Nat → Step σ}
    (table : (w.workflows slot).steps = some steps) :
    (workflowRecoverSlot slot result).exec w =
      let wf := w.workflows slot
      let s := w.store wf.ctx
      let failed := unwindFailed wf maxSteps wf.doneCount s
      let w' := w.put slot (unwindStatus failed) 0 (unwindState wf maxSteps wf.doneCount s)
        (recoverTrace slot wf s)
      if failed then (-1, w') else (result, (w'.setSlot slot idleSlot).log (.release slot)) := by
  have found : ¬((w.workflows slot).status ≠ .running ∧
      (w.workflows slot).status ≠ .rollingBack) := by
    simp only [Slot.Abandoned] at lost
    tauto
  have unwound := exec_wfUnwind w slot (w.workflows slot).status (w.workflows slot).doneCount
    (w.store (w.workflows slot).ctx) []
  rw [put_self] at unwound
  cases failed_eq : unwindFailed (w.workflows slot) maxSteps (w.workflows slot).doneCount
      (w.store (w.workflows slot).ctx)
  all_goals
    simp [workflowRecoverSlot, found, table, unwound, failed_eq, recoverTrace, workflowRelease]

end Visit

/-- Visiting some slots leaves alone everything that is not theirs. -/
structure Frame (visited : List SlotId) (w w' : Engine σ) : Prop where
  slots : ∀ x ∉ visited, w'.workflows x = w.workflows x
  store : ∀ c, (∀ x ∈ visited, (w.workflows x).Abandoned → (w.workflows x).ctx ≠ c) →
    w'.store c = w.store c
  trace : ∃ t, w'.trace = w.trace ++ t ∧ ∀ call ∈ callsOf t, call.slot ∈ visited

theorem Frame.refl (visited : List SlotId) (w : Engine σ) : Frame visited w w :=
  ⟨fun _ _ => rfl, fun _ _ => rfl, [], by simp, by simp⟩

theorem Frame.trans {l l' : List SlotId} {w w₁ w₂ : Engine σ} (first : Frame l w w₁)
    (second : Frame l' w₁ w₂) (disjoint : ∀ x ∈ l', x ∉ l) : Frame (l ++ l') w w₂ where
  slots x hx := by
    rw [List.mem_append, not_or] at hx
    exact (second.slots x hx.2).trans (first.slots x hx.1)
  store c apart := by
    have later : w₂.store c = w₁.store c := by
      refine second.store c fun x hx lost => ?_
      rw [first.slots x (disjoint x hx)] at lost ⊢
      exact apart x (List.mem_append_right _ hx) lost
    exact later.trans (first.store c fun x hx => apart x (List.mem_append_left _ hx))
  trace := by
    obtain ⟨t, eq, calls⟩ := first.trace
    obtain ⟨t', eq', calls'⟩ := second.trace
    refine ⟨t ++ t', by rw [eq', eq, List.append_assoc], fun call mem => ?_⟩
    rw [callsOf_append, List.mem_append] at mem
    exact List.mem_append.mpr (mem.imp (calls call) (calls' call))

theorem frame_put (w : Engine σ) (slot : SlotId) (lost : (w.workflows slot).Abandoned)
    (st : Status) (d : Nat) (s : σ) {t : List Action}
    (calls : ∀ call ∈ callsOf t, call.slot = slot) :
    Frame [slot] w (w.put slot st d s t) where
  slots x hx := put_other w slot st d s t (by simpa using hx)
  store c apart := put_store_other w slot st d s t (apart slot (by simp) lost).symm
  trace := ⟨t, rfl, fun call mem => by simp [calls call mem]⟩

/-- Releasing a visited slot touches neither the other slots nor any object. -/
theorem frame_release {w w' : Engine σ} {slot : SlotId} (frame : Frame [slot] w w') :
    Frame [slot] w ((w'.setSlot slot idleSlot).log (.release slot)) where
  slots x hx := by
    have other : x ≠ slot := by simpa using hx
    simpa [Engine.setSlot, Engine.log, other] using frame.slots x hx
  store := frame.store
  trace := by
    obtain ⟨t, eq, calls⟩ := frame.trace
    refine ⟨t ++ [Action.release slot], ?_, ?_⟩
    · change w'.trace ++ [_] = _
      rw [eq, List.append_assoc]
    · have silent : callsOf [Action.release slot] = [] := rfl
      rwa [callsOf_append, silent, List.append_nil]

theorem callsOf_recoverTrace (slot : SlotId) (wf : Slot σ) (s : σ) :
    callsOf (recoverTrace slot wf s) =
      callsOf (unwindTrace slot { wf with status := .rollingBack } maxSteps wf.doneCount s) := by
  simp [recoverTrace]

theorem frame_recoverSlot (w : Engine σ) (slot : SlotId) (result : Int) :
    Frame [slot] w ((workflowRecoverSlot slot result).exec w).2 := by
  by_cases lost : (w.workflows slot).Abandoned
  · cases table : (w.workflows slot).steps with
    | none =>
        rw [exec_recoverSlot_no_table w slot result lost table]
        exact frame_put w slot lost _ _ _ (by simp)
    | some steps =>
        have calls : ∀ call ∈ callsOf (recoverTrace slot (w.workflows slot)
            (w.store (w.workflows slot).ctx)), call.slot = slot := by
          intro call mem
          rw [callsOf_recoverTrace] at mem
          exact (mem_callsOf_unwindTrace mem).1
        rw [exec_recoverSlot_unwind w slot result lost table]
        dsimp only
        split
        · exact frame_put w slot lost _ _ _ calls
        · exact frame_release (frame_put w slot lost _ _ _ calls)
  · rw [exec_recoverSlot_skip w slot result lost]
    exact Frame.refl _ _

/-! ## The scan -/

theorem exec_recoverLoop_append (l l' : List SlotId) (result : Int) (w : Engine σ) :
    (workflowRecoverLoop (l ++ l') result).exec w =
      (workflowRecoverLoop l' ((workflowRecoverLoop l result).exec w).1).exec
        ((workflowRecoverLoop l result).exec w).2 := by
  induction l generalizing result w with
  | nil => simp [workflowRecoverLoop]
  | cons slot l ih => simp [workflowRecoverLoop, ih]

theorem frame_recoverLoop (l : List SlotId) (distinct : l.Nodup) (result : Int) (w : Engine σ) :
    Frame l w ((workflowRecoverLoop l result).exec w).2 := by
  induction l generalizing result w with
  | nil => exact Frame.refl _ _
  | cons slot l ih =>
      obtain ⟨new, distinct⟩ := List.nodup_cons.mp distinct
      have head := frame_recoverSlot w slot result
      have tail := ih distinct ((workflowRecoverSlot slot result).exec w).1
        ((workflowRecoverSlot slot result).exec w).2
      have both := head.trans tail fun x hx same => new (List.mem_singleton.mp same ▸ hx)
      simpa [workflowRecoverLoop] using both

/-- The scan around the visit of one slot: other slots before it, other slots
after it, and none of them twice. -/
theorem workflowRecover_around (w : Engine σ) (slot : SlotId) :
    ∃ (before after : List SlotId) (w₁ : Engine σ) (result : Int),
      slot ∉ before ∧ slot ∉ after ∧ Frame before w w₁ ∧
      Frame after ((workflowRecoverSlot slot result).exec w₁).2 (workflowRecover.exec w).2 ∧
      ∀ x ∈ after, ((workflowRecoverSlot slot result).exec w₁).2.workflows x = w.workflows x := by
  obtain ⟨before, after, order⟩ := List.mem_iff_append.mp (List.mem_finRange slot)
  have distinct : (before ++ slot :: after).Nodup := order ▸ List.nodup_finRange maxActive
  obtain ⟨nodup_before, nodup_rest, apart⟩ := List.nodup_append.mp distinct
  obtain ⟨slot_after, nodup_after⟩ := List.nodup_cons.mp nodup_rest
  have first := frame_recoverLoop before nodup_before 0 w
  refine ⟨before, after, ((workflowRecoverLoop before 0).exec w).2,
    ((workflowRecoverLoop before 0).exec w).1, ?_, slot_after, first, ?_, fun x hx => ?_⟩
  · exact fun mem => apart slot mem slot (List.mem_cons_self ..) rfl
  · have rest := frame_recoverLoop after nodup_after
      ((workflowRecoverSlot slot ((workflowRecoverLoop before 0).exec w).1).exec
        ((workflowRecoverLoop before 0).exec w).2).1
      ((workflowRecoverSlot slot ((workflowRecoverLoop before 0).exec w).1).exec
        ((workflowRecoverLoop before 0).exec w).2).2
    have whole := exec_recoverLoop_append before (slot :: after) 0 w
    rw [← order] at whole
    rw [workflowRecover, whole]
    simpa [workflowRecoverLoop] using rest
  · have other : x ≠ slot := fun eq => slot_after (eq ▸ hx)
    have earlier : x ∉ before := fun mem => apart x mem x (List.mem_cons_of_mem _ hx) rfl
    rw [(frame_recoverSlot _ slot _).slots x (by simpa using other), first.slots x earlier]

/-! ## Atomicity -/

/-- Callbacks whose undo takes back a successful run, whose runs need no undo
where there is none, and whose failing runs have no effect. -/
structure Reversible (steps : Nat → Step σ) (count : Nat) : Prop where
  undo : ∀ i < count, ∀ undo, (steps i).undo = some undo →
    ∀ s, ((steps i).call s).1 = 0 → undo ((steps i).call s).2 = (0, s)
  keep : ∀ i < count, (steps i).undo = none →
    ∀ s, ((steps i).call s).1 = 0 → ((steps i).call s).2 = s
  fail : ∀ i < count, ∀ s, ((steps i).call s).1 ≠ 0 → ((steps i).call s).2 = s

/-- The reverse loop undoes the forward loop, step by step from the cursor. -/
theorem Reversible.unwind {steps : Nat → Step σ} {count : Nat} (rev : Reversible steps count)
    {wf : Slot σ} (table : wf.steps = some steps) {bound k : Nat} (k_le : k ≤ bound)
    (k_count : k ≤ count) {s : σ} (ok : ∀ i < k, runCode steps s i = 0) :
    unwindState wf bound k (stateAfter steps s k) = s ∧
      unwindFailed wf bound k (stateAfter steps s k) = false := by
  induction bound generalizing k with
  | zero =>
      obtain rfl : k = 0 := by omega
      exact ⟨rfl, rfl⟩
  | succ bound ih =>
      cases k with
      | zero => exact ⟨rfl, rfl⟩
      | succ k =>
          have earlier := ih (Nat.le_of_succ_le_succ k_le) (by omega) fun i hi => ok i (by omega)
          have undo_eq : undoOf wf k = (steps k).undo := by simp [undoOf, table]
          cases hundo : (steps k).undo with
          | none =>
              have same : stateAfter steps s (k + 1) = stateAfter steps s k :=
                rev.keep k (by omega) hundo _ (ok k (by omega))
              simpa [unwindState, unwindFailed, undo_eq, hundo, same] using earlier
          | some undo =>
              have back : undo (stateAfter steps s (k + 1)) = (0, stateAfter steps s k) :=
                rev.undo k (by omega) undo hundo _ (ok k (by omega))
              simpa [unwindState, unwindFailed, undo_eq, hundo, back] using earlier

/-- A run commits the composition of its steps, or leaves the object as it was. -/
def CommitsOrRestores (steps : Nat → Step σ) (count ctx : Nat) (s : σ) (slot : SlotId)
    (out : Int × Engine σ) : Prop :=
  (out.1 = 0 ∧ (out.2.workflows slot).status = .committed ∧
      out.2.store ctx = stateAfter steps s count) ∨
    (out.1 = -1 ∧ (out.2.workflows slot).status = .rolledBack ∧ out.2.store ctx = s)

/-- Recovery from any state in which the slot `begun` is left running behind `j`
completed steps, and in which no other abandoned slot works on its object. -/
def RecoversFromSteps (steps : Nat → Step σ) (count ctx : Nat) (s : σ) (slot : SlotId)
    (begun : Slot σ) : Prop :=
  ∀ j < count, (∀ i < j, runCode steps s i = 0) → ∀ w : Engine σ,
    w.workflows slot = { begun with status := .running, doneCount := j } →
    w.store ctx = stateAfter steps s j →
    (∀ other ≠ slot, (w.workflows other).Abandoned → (w.workflows other).ctx ≠ ctx) →
    (workflowRecover.exec w).2.store ctx = s ∧
      (workflowRecover.exec w).2.workflows slot = idleSlot

section Atomic

variable {w : Engine σ} {slot : SlotId} {steps : Nat → Step σ} {count ctx : Nat}

theorem Fresh.commitsOrRestores (fresh : Fresh w slot steps count ctx)
    (rev : Reversible steps count) :
    CommitsOrRestores steps count ctx (w.store ctx) slot ((workflowRun (some slot)).exec w) := by
  obtain ⟨k, stops⟩ := exists_stopsAt steps count (w.store ctx)
  have object := fun st d s t => put_store_ctx w slot st d s t
  simp only [fresh.ctx_eq] at object
  rcases Nat.lt_or_eq_of_le stops.le with early | rfl
  · have unchanged : stateAfter steps (w.store ctx) (k + 1) = stateAfter steps (w.store ctx) k :=
      rev.fail k early _ (stops.fails early)
    obtain ⟨restored, clean⟩ := rev.unwind fresh.steps_eq (early.le.trans fresh.count_le)
      early.le stops.ok
    rw [fresh.exec_unwound stops early]
    simp [CommitsOrRestores, unchanged, clean, restored, unwindStatus, object]
  · rw [fresh.exec_committed stops]
    simp [CommitsOrRestores, object]

/-- Recovery of a slot abandoned with its cursor right behind `j` completed
steps, when no other abandoned slot works on the same object. -/
theorem workflowRecover_restores (rev : Reversible steps count) {j : Nat} (j_le : j ≤ count)
    (count_le : count ≤ maxSteps) {s : σ} (ok : ∀ i < j, runCode steps s i = 0)
    (table : (w.workflows slot).steps = some steps) (lost : (w.workflows slot).Abandoned)
    (cursor : (w.workflows slot).doneCount = j) (at_ctx : (w.workflows slot).ctx = ctx)
    (object : w.store ctx = stateAfter steps s j)
    (apart : ∀ other ≠ slot, (w.workflows other).Abandoned → (w.workflows other).ctx ≠ ctx) :
    (workflowRecover.exec w).2.store ctx = s ∧
      (workflowRecover.exec w).2.workflows slot = idleSlot := by
  obtain ⟨before, after, w₁, result, new, later, first, rest, kept⟩ :=
    workflowRecover_around w slot
  have slot_eq : w₁.workflows slot = w.workflows slot := first.slots slot new
  have object₁ : w₁.store ctx = stateAfter steps s j := by
    rw [← object]
    exact first.store ctx fun x hx => apart x fun same => new (same ▸ hx)
  have visit := exec_recoverSlot_unwind w₁ slot result (slot_eq ▸ lost) (slot_eq ▸ table)
  obtain ⟨restored, clean⟩ := rev.unwind (slot_eq ▸ table : (w₁.workflows slot).steps = some steps)
    (j_le.trans count_le) j_le ok
  simp only [slot_eq, at_ctx, object₁, cursor] at visit clean restored
  simp only [clean, restored, Bool.false_eq_true, if_false] at visit
  have object₂ : ((workflowRecoverSlot slot result).exec w₁).2.store ctx = s := by
    have same_ctx : (w₁.workflows slot).ctx = ctx := by rw [slot_eq, at_ctx]
    simp [visit, Engine.setSlot, Engine.log, Engine.put, same_ctx]
  have slot₂ : ((workflowRecoverSlot slot result).exec w₁).2.workflows slot = idleSlot := by
    simp [visit, Engine.setSlot, Engine.log]
  constructor
  · rw [rest.store ctx fun x hx => ?_, object₂]
    rw [kept x hx]
    exact apart x fun same => later (same ▸ hx)
  · rw [rest.slots slot later, slot₂]

end Atomic

/-- A workflow of reversible callbacks commits or looks as if it had never
started, and so does one that recovery finds abandoned between two steps. -/
theorem workflow_atomic (w w₁ : Engine σ) (steps : Nat → Step σ) (count ctx : Nat) (slot : SlotId)
    (started : workflowBegin w (some steps) count ctx = some (some slot, w₁))
    (rev : Reversible steps count) :
    CommitsOrRestores steps count ctx (w.store ctx) slot ((workflowRun (some slot)).exec w₁) ∧
      RecoversFromSteps steps count ctx (w.store ctx) slot (w₁.workflows slot) := by
  obtain ⟨fresh, store_eq, -⟩ := workflowBegin_fresh started
  constructor
  · rw [← store_eq]
    exact fresh.commitsOrRestores rev
  · intro j j_lt ok w₂ left object apart
    refine workflowRecover_restores rev j_lt.le fresh.count_le ok ?_ ?_ ?_ ?_ object apart
    · rw [left]
      exact fresh.steps_eq
    · rw [left]
      exact Or.inl rfl
    · rw [left]
    · rw [left]
      exact fresh.ctx_eq

theorem tallySteps_reversible (failing count : Nat) : Reversible (tallySteps failing) count where
  undo i _ undo hundo s ok := by
    cases hundo
    by_cases here : i = failing <;> simp_all [tallySteps, Step.call]
  keep _ _ none := by simp [tallySteps] at none
  fail i _ s bad := by
    by_cases here : i = failing <;> simp_all [tallySteps, Step.call]

theorem workflow_atomic_tally :
    CommitsOrRestores (tallySteps 2) 3 0 0 0 ((workflowRun (some 0)).exec (tallyBegun 2 3)) ∧
      RecoversFromSteps (tallySteps 2) 3 0 0 0 ((tallyBegun 2 3).workflows 0) :=
  workflow_atomic (Engine.boot 0) (tallyBegun 2 3) (tallySteps 2) 3 0 0 rfl
    (tallySteps_reversible 2 3)

end LughOS.Workflow

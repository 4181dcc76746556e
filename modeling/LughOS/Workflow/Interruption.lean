import LughOS.Workflow.Recovery

/-!
# Interrupted runs

A fault abandons `workflow_run` after some number of actions, and recovery runs
later. What matters of the state left behind is its status, its cursor, and which
callbacks have been invoked so far; recovery adds the undos below the cursor when
the status is one it looks for.

The bookkeeping lags behind the effects at three places. The cursor moves two
actions after the run callback returns; during the undo chain it does not move at
all; and the status becomes terminal before the last record is written. A fault
inside one of these windows makes recovery skip an undo or invoke it again.
-/

namespace LughOS.Workflow

open Interruptible

variable {σ : Type}

/-! ## What a history must look like -/

def completedCall (slot : SlotId) (c : Call) : Option Nat :=
  if c.slot = slot ∧ c.callback = .run ∧ c.rv = 0 then some c.step else none

/-- The steps of a slot whose run callback returned 0. -/
def completedSteps (slot : SlotId) (t : List Action) : List Nat :=
  (callsOf t).filterMap (completedCall slot)

def undoneCall (slot : SlotId) (c : SlotId × Callback × Nat) : Option Nat :=
  if c.1 = slot ∧ c.2.1 = .undo then some c.2.2 else none

/-- The steps of a slot whose undo was invoked, in the order of invocation. -/
def undoneSteps (slot : SlotId) (t : List Action) : List Nat :=
  ((callsOf t).map fun c => (c.slot, c.callback, c.step)).filterMap (undoneCall slot)

/-- Every completed step with an undo is undone exactly once and in decreasing
order, and no other step is. -/
def UndoneExactlyOnce (steps : Nat → Step σ) (completed undone : List Nat) : Prop :=
  undone.Pairwise (· > ·) ∧ ∀ j, j ∈ undone ↔ j ∈ completed ∧ (steps j).undo.isSome

theorem mem_undoSteps {steps : Nat → Step σ} {k j : Nat} :
    j ∈ undoSteps steps k ↔ j < k ∧ (steps j).undo.isSome := by
  simp [undoSteps]

theorem undoSteps_exactlyOnce (steps : Nat → Step σ) (k : Nat) :
    UndoneExactlyOnce steps (List.range k) (undoSteps steps k) := by
  refine ⟨?_, fun j => by rw [mem_undoSteps, List.mem_range]⟩
  exact (List.pairwise_reverse.mpr List.pairwise_lt_range).filter _

/-- A step that completed above the cursor is missed, if it has an undo. -/
theorem missed_exactlyOnce_iff (steps : Nat → Step σ) (i : Nat) :
    UndoneExactlyOnce steps (List.range (i + 1)) (undoSteps steps i) ↔
      ¬(steps i).undo.isSome := by
  constructor
  · rintro ⟨-, each⟩ has
    have missed := (each i).mpr ⟨by simp, has⟩
    rw [mem_undoSteps] at missed
    omega
  · intro no_undo
    have exact_once := undoSteps_exactlyOnce steps (i + 1)
    simpa [undoSteps_succ, no_undo] using exact_once

/-- An undo invoked before the whole chain is invoked again is repeated. -/
theorem repeated_not_exactlyOnce {steps : Nat → Step σ} {k : Nat} {u : List Nat}
    {completed : List Nat} (some_undo : u ≠ []) (below : ∀ j ∈ u, j ∈ undoSteps steps k) :
    ¬UndoneExactlyOnce steps completed (u ++ undoSteps steps k) := by
  rintro ⟨sorted, -⟩
  obtain ⟨j, mem⟩ := List.exists_mem_of_ne_nil u some_undo
  exact Nat.lt_irrefl j ((List.pairwise_append.mp sorted).2.2 j mem j (below j mem))

theorem none_exactlyOnce_iff (steps : Nat → Step σ) (k : Nat) :
    UndoneExactlyOnce steps (List.range k) [] ↔ ¬∃ i < k, (steps i).undo.isSome := by
  simp [UndoneExactlyOnce]

/-! ## The state a fault leaves behind -/

@[simp] theorem completedSteps_append (slot : SlotId) (t t' : List Action) :
    completedSteps slot (t ++ t') = completedSteps slot t ++ completedSteps slot t' := by
  simp [completedSteps]

@[simp] theorem undoneSteps_append (slot : SlotId) (t t' : List Action) :
    undoneSteps slot (t ++ t') = undoneSteps slot t ++ undoneSteps slot t' := by
  simp [undoneSteps]

@[simp] theorem completedSteps_wfRecord (slot : SlotId) (wf : Slot σ) (i : Nat) (ev : Event)
    (rv : BitVec 32) (t : List Action) :
    completedSteps slot (wfRecord wf i ev rv :: t) = completedSteps slot t := rfl

@[simp] theorem undoneSteps_wfRecord (slot : SlotId) (wf : Slot σ) (i : Nat) (ev : Event)
    (rv : BitVec 32) (t : List Action) :
    undoneSteps slot (wfRecord wf i ev rv :: t) = undoneSteps slot t := rfl

theorem steps_of_no_calls (slot : SlotId) {t : List Action} (quiet : callsOf t = []) :
    completedSteps slot t = [] ∧ undoneSteps slot t = [] := by
  simp [completedSteps, undoneSteps, quiet]

@[simp] theorem completedSteps_setStatus (slot other : SlotId) (st : Status) :
    completedSteps slot [.setStatus other st] = [] := rfl

@[simp] theorem undoneSteps_setStatus (slot other : SlotId) (st : Status) :
    undoneSteps slot [.setStatus other st] = [] := rfl

@[simp] theorem completedSteps_steps (slot : SlotId) (wf : Slot σ) (k : Nat) :
    completedSteps slot ((List.range k).flatMap (stepTrace slot wf)) = List.range k := by
  simp [completedSteps, List.filterMap_map, Function.comp_def, completedCall]

@[simp] theorem undoneSteps_steps (slot : SlotId) (wf : Slot σ) (k : Nat) :
    undoneSteps slot ((List.range k).flatMap (stepTrace slot wf)) = [] := by
  simp [undoneSteps, undoneCall]

theorem steps_of_stepTrace_take (slot : SlotId) (wf : Slot σ) (i : Nat) {r : Nat} (inside : r < 4) :
    completedSteps slot ((stepTrace slot wf i).take r) = (if r < 2 then [] else [i]) ∧
      undoneSteps slot ((stepTrace slot wf i).take r) = [] := by
  interval_cases r
  all_goals simp [stepTrace, completedSteps, undoneSteps, completedCall, undoneCall]

theorem steps_of_failTrace_take (slot : SlotId) (wf : Slot σ) (i : Nat) {rv : BitVec 32}
    (bad : rv ≠ 0) (r : Nat) :
    completedSteps slot ((failTrace slot wf i rv).take r) = [] ∧
      undoneSteps slot ((failTrace slot wf i rv).take r) = [] := by
  have calls : callsOf ((failTrace slot wf i rv).take r) <+: [⟨slot, .run, i, rv⟩] :=
    (List.take_prefix r _).filterMap Action.call?
  constructor
  · refine List.prefix_nil.mp ((calls.filterMap (completedCall slot)).trans ?_)
    simpa [completedCall] using bad
  · refine List.prefix_nil.mp (((calls.map _).filterMap (undoneCall slot)).trans ?_)
    simp [undoneCall]

theorem completedSteps_unwindTrace (slot : SlotId) (wf : Slot σ) (bound r : Nat) (s : σ) :
    completedSteps slot (unwindTrace slot wf bound r s) = [] := by
  rw [completedSteps, List.filterMap_eq_nil_iff]
  intro c mem
  simp [completedCall, (mem_callsOf_unwindTrace mem).2]

theorem undoneSteps_unwindTrace (slot : SlotId) (wf : Slot σ) (st : Status) (d : Nat)
    {steps : Nat → Step σ} (table : wf.steps = some steps) {bound r : Nat} (small : r ≤ bound)
    (s : σ) :
    undoneSteps slot (unwindTrace slot { wf with status := st, doneCount := d } bound r s) =
      undoSteps steps r := by
  rw [undoneSteps, callsOf_unwindTrace slot wf st d table small]
  simp [List.filterMap_map, Function.comp_def, undoneCall]

/-- A state reached from `w` in which the slot has this status and cursor, and
its callbacks have completed and undone these steps. -/
def LeftBehind (w : Engine σ) (slot : SlotId) (st : Status) (d : Nat) (completed undone : List Nat)
    (w' : Engine σ) : Prop :=
  ∃ s t, w' = w.put slot st d s t ∧ completedSteps slot t = completed ∧
    undoneSteps slot t = undone

theorem steps_of_other_calls {slot : SlotId} {l : List SlotId} (new : slot ∉ l) {t : List Action}
    (calls : ∀ call ∈ callsOf t, call.slot ∈ l) :
    completedSteps slot t = [] ∧ undoneSteps slot t = [] := by
  have other : ∀ call ∈ callsOf t, call.slot ≠ slot := fun call mem same =>
    new (same ▸ calls call mem)
  constructor
  · rw [completedSteps, List.filterMap_eq_nil_iff]
    intro call mem
    simp [completedCall, other call mem]
  · rw [undoneSteps, List.filterMap_map, List.filterMap_eq_nil_iff]
    intro call mem
    simp [undoneCall, other call mem]

theorem recoverSlot_steps (w : Engine σ) (slot : SlotId) (result : Int) {steps : Nat → Step σ}
    (table : (w.workflows slot).steps = some steps)
    (d_le : (w.workflows slot).doneCount ≤ maxSteps) :
    ∃ t, ((workflowRecoverSlot slot result).exec w).2.trace = w.trace ++ t ∧
      completedSteps slot t = [] ∧
      undoneSteps slot t =
        if (w.workflows slot).Abandoned then undoSteps steps (w.workflows slot).doneCount
        else [] := by
  by_cases lost : (w.workflows slot).Abandoned
  · let chain := recoverTrace slot (w.workflows slot) (w.store (w.workflows slot).ctx)
    have completed : completedSteps slot chain = [] := by
      rw [completedSteps, callsOf_recoverTrace]
      exact completedSteps_unwindTrace slot _ _ _ _
    have undone : undoneSteps slot chain = undoSteps steps (w.workflows slot).doneCount := by
      rw [undoneSteps, callsOf_recoverTrace]
      exact undoneSteps_unwindTrace slot _ _ _ table d_le _
    rw [exec_recoverSlot_unwind w slot result lost table, if_pos lost]
    dsimp only
    split
    · exact ⟨chain, rfl, completed, undone⟩
    · refine ⟨chain ++ [Action.release slot], ?_, ?_, ?_⟩
      · rw [← List.append_assoc]
        rfl
      · rw [completedSteps_append, completed]
        rfl
      · rw [undoneSteps_append, undone]
        exact List.append_nil _
  · rw [exec_recoverSlot_skip w slot result lost, if_neg lost]
    exact ⟨[], by simp, rfl, rfl⟩

/-- Recovery adds the undos below the cursor of an abandoned slot. -/
theorem recover_leftBehind {w w' : Engine σ} {slot : SlotId} {steps : Nat → Step σ}
    (table : (w.workflows slot).steps = some steps) {st : Status} {d : Nat} (d_le : d ≤ maxSteps)
    {completed undone : List Nat} (left : LeftBehind w slot st d completed undone w') :
    ∃ t, (workflowRecover.exec w').2.trace = w.trace ++ t ∧
      completedSteps slot t = completed ∧
      undoneSteps slot t = undone ++
        (if st = .running ∨ st = .rollingBack then undoSteps steps d else []) := by
  obtain ⟨s, t, rfl, rfl, rfl⟩ := left
  obtain ⟨before, after, w₁, result, new, later, first, rest, -⟩ :=
    workflowRecover_around (w.put slot st d s t) slot
  have slot_eq := first.slots slot new
  rw [put_slot] at slot_eq
  obtain ⟨t₁, trace₁, calls₁⟩ := first.trace
  have table₁ : (w₁.workflows slot).steps = some steps := by rw [slot_eq, ← table]
  obtain ⟨t₂, trace₂, completed₂, undone₂⟩ :=
    recoverSlot_steps w₁ slot result table₁ (by rw [slot_eq]; exact d_le)
  obtain ⟨t₃, trace₃, calls₃⟩ := rest.trace
  obtain ⟨completed₁, undone₁⟩ := steps_of_other_calls new calls₁
  obtain ⟨completed₃, undone₃⟩ := steps_of_other_calls later calls₃
  refine ⟨t ++ t₁ ++ t₂ ++ t₃, ?_, ?_, ?_⟩
  · rw [trace₃, trace₂, trace₁, put_trace]
    simp only [List.append_assoc]
  · simp [completed₁, completed₂, completed₃]
  · simp [undone₁, undone₂, undone₃, slot_eq, Slot.Abandoned]

/-! ## Where a fault can fall -/

section Cuts

variable {w : Engine σ} {slot : SlotId} {steps : Nat → Step σ} {count ctx : Nat}

theorem Fresh.cut_enter (fresh : Fresh w slot steps count ctx) (p : Nat) :
    (workflowRun (some slot)).cut (p + 1) w =
      (workflowRunLoop slot count 0).cut p (w.reached slot steps 0) := by
  have base := put_self w slot
  rw [fresh.status_eq, fresh.done_eq] at base
  conv_lhs => rw [← base]
  simp [workflowRun, fresh.steps_eq, fresh.count_eq, Engine.reached, stateAfter]

theorem Fresh.cut_prefix (fresh : Fresh w slot steps count ctx) (k left r : Nat)
    (small : k + left ≤ maxSteps) (ok : ∀ i < k, runCode steps (w.store ctx) i = 0) :
    (workflowRunLoop slot (k + left) 0).cut (r + 4 * k) (w.reached slot steps 0) =
      (workflowRunLoop slot left k).cut r (w.reached slot steps k) := by
  induction k generalizing left r with
  | zero => rw [Nat.zero_add, Nat.mul_zero, Nat.add_zero]
  | succ k ih =>
      have earlier := ih (left + 1) (r + 4) (by omega) fun i hi => ok i (by omega)
      rw [show k + 1 + left = k + (left + 1) by omega,
        show r + 4 * (k + 1) = r + 4 + 4 * k by omega, earlier, fresh.reached_succ]
      exact cut_workflowRunLoop_ok _ _ _ _ _ _ _ (by omega) (fresh.run_ok (ok k (by omega)))

/-- The actions of a run that commits: the two opening and closing records, the
status, and four for each step. -/
theorem Fresh.actions_committed (fresh : Fresh w slot steps count ctx)
    (stops : StopsAt steps count (w.store ctx) count) :
    (workflowRun (some slot)).actions w = 4 * count + 3 := by
  have base := put_self w slot
  rw [fresh.status_eq, fresh.done_eq] at base
  have loop : ∀ k left, k + left = count →
      (workflowRunLoop slot left k).actions (w.reached slot steps k) = 4 * left + 2 := by
    intro k left
    induction left generalizing k with
    | zero => simp [workflowRunLoop, Engine.reached]
    | succ left ih =>
        intro total
        have rest := ih (k + 1) (by omega)
        rw [fresh.reached_succ] at rest
        rw [Engine.reached, actions_workflowRunLoop_ok _ _ _ _ _ _
          (by have := fresh.count_le; omega) (fresh.run_ok (stops.ok k (by omega))), rest]
        omega
  have enter : (workflowRun (some slot)).actions w =
      (workflowRunLoop slot count 0).actions (w.reached slot steps 0) + 1 := by
    conv_lhs => rw [← base]
    simp [workflowRun, fresh.steps_eq, fresh.count_eq, Engine.reached, stateAfter, Nat.add_comm]
  rw [enter, loop 0 count (by omega)]

end Cuts

theorem length_unwindTrace (slot : SlotId) (wf : Slot σ) (st : Status) (d : Nat)
    {steps : Nat → Step σ} (table : wf.steps = some steps) {bound r : Nat} (small : r ≤ bound)
    (s : σ) :
    (unwindTrace slot { wf with status := st, doneCount := d } bound r s).length =
      2 * (undoSteps steps r).length := by
  induction bound generalizing r s with
  | zero =>
      obtain rfl : r = 0 := by omega
      rfl
  | succ bound ih =>
      cases r with
      | zero => rfl
      | succ r =>
          have rest := ih (Nat.le_of_succ_le_succ small)
          have undo_eq : undoOf wf r = (steps r).undo := by simp [undoOf, table]
          cases hundo : (steps r).undo with
          | none => simp [unwindTrace, undo_eq, hundo, undoSteps_succ, rest]
          | some undo =>
              simp [unwindTrace, undo_eq, hundo, undoSteps_succ, rest]
              omega

/-- The undo loop performs as many actions as it logs. -/
theorem actions_wfUnwindLoop (w : Engine σ) (slot : SlotId) (st : Status) (d bound r : Nat)
    (failed : Bool) (s : σ) (t : List Action) :
    (wfUnwindLoop slot bound r failed).actions (w.put slot st d s t) =
      (unwindTrace slot { w.workflows slot with status := st, doneCount := d }
        bound r s).length := by
  induction bound generalizing r failed s t with
  | zero => simp [wfUnwindLoop, unwindTrace]
  | succ bound ih =>
      cases r with
      | zero => simp [wfUnwindLoop, unwindTrace]
      | succ r =>
          cases hundo : undoOf (w.workflows slot) r with
          | none => simp [wfUnwindLoop, unwindTrace, hundo, ih]
          | some undo =>
              by_cases hrv : (undo s).1 = 0#32
              all_goals
                simp [wfUnwindLoop, unwindTrace, hundo, hrv, ih]
                omega

/-- Inside the undo loop neither the status nor the cursor has moved. -/
theorem cut_wfUnwindLoop (w : Engine σ) (slot : SlotId) (st : Status) (d bound r : Nat)
    (failed : Bool) (s : σ) (t : List Action) (q : Nat) :
    ∃ s', (wfUnwindLoop slot bound r failed).cut q (w.put slot st d s t) =
      w.put slot st d s' (t ++ (unwindTrace slot
        { w.workflows slot with status := st, doneCount := d } bound r s).take q) := by
  induction bound generalizing r failed s t q with
  | zero => exact ⟨s, by simp [wfUnwindLoop, unwindTrace]⟩
  | succ bound ih =>
      cases r with
      | zero => exact ⟨s, by simp [wfUnwindLoop, unwindTrace]⟩
      | succ r =>
          cases hundo : undoOf (w.workflows slot) r with
          | none =>
              obtain ⟨s', eq⟩ := ih r failed s t q
              exact ⟨s', by simp [wfUnwindLoop, unwindTrace, hundo, eq]⟩
          | some undo =>
              -- One iteration is two actions, the call and its record.
              have iteration := fun bad => ih r bad (undo s).2
                (t ++ [Action.call slot .undo r (undo s).1,
                  wfRecord { w.workflows slot with status := st, doneCount := d } r
                    (if (undo s).1 ≠ 0 then .undoFail else .undoOk) (undo s).1])
              rcases q with _ | _ | q
              · exact ⟨s, by simp⟩
              · exact ⟨(undo s).2, by simp [wfUnwindLoop, unwindTrace, hundo]⟩
              · by_cases hrv : (undo s).1 = 0#32
                · obtain ⟨s', eq⟩ := iteration failed q
                  exact ⟨s', by simpa [wfUnwindLoop, unwindTrace, hundo, hrv] using eq⟩
                · obtain ⟨s', eq⟩ := iteration true q
                  exact ⟨s', by simpa [wfUnwindLoop, unwindTrace, hundo, hrv] using eq⟩

/-- Behind the undo loop the cursor goes to zero first, and nothing is called. -/
theorem cut_wfUnwindFinish (w : Engine σ) (slot : SlotId) (st : Status) (d : Nat) (failed : Bool)
    (s : σ) (t : List Action) (r : Nat) :
    ∃ st' t', (wfUnwindFinish slot failed).cut (r + 1) (w.put slot st d s t) =
      w.put slot st' 0 s (t ++ t') ∧ callsOf t' = [] := by
  match r with
  | 0 => exact ⟨st, [.setDone slot 0], by simp [wfUnwindFinish], rfl⟩
  | 1 =>
      refine ⟨unwindStatus failed, [.setDone slot 0, .setStatus slot (unwindStatus failed)], ?_,
        rfl⟩
      cases failed <;> simp [wfUnwindFinish, unwindStatus]
  | r + 2 =>
      refine ⟨unwindStatus failed, unwindEnd slot (w.workflows slot) failed, ?_, by simp⟩
      cases failed <;> simp [wfUnwindFinish, unwindStatus, unwindEnd]

theorem unwindTrace_starts_with_call (slot : SlotId) (wf : Slot σ) (bound r : Nat) (s : σ) :
    unwindTrace slot wf bound r s = [] ∨
      ∃ j rv rest, unwindTrace slot wf bound r s = .call slot .undo j rv :: rest := by
  induction bound generalizing r s with
  | zero => exact Or.inl rfl
  | succ bound ih =>
      cases r with
      | zero => exact Or.inl rfl
      | succ r =>
          cases hundo : undoOf wf r with
          | none => simpa only [unwindTrace, hundo] using ih r s
          | some undo => exact Or.inr ⟨r, _, _, by simp only [unwindTrace, hundo]; rfl⟩

/-- The part of the undo chain that a fault after `q` of its actions leaves. -/
theorem undoChain_take (slot : SlotId) (wf : Slot σ) (st : Status) (d : Nat)
    {steps : Nat → Step σ} (table : wf.steps = some steps) {bound r : Nat} (small : r ≤ bound)
    (s : σ) {q : Nat} (inside : q ≤ 2 * (undoSteps steps r).length) :
    let chain := (unwindTrace slot { wf with status := st, doneCount := d } bound r s).take q
    completedSteps slot chain = [] ∧ (∀ j ∈ undoneSteps slot chain, j ∈ undoSteps steps r) ∧
      (undoneSteps slot chain = [] ↔ q = 0) := by
  intro chain
  have calls : callsOf chain <+: _ := (List.take_prefix q _).filterMap Action.call?
  have undone_le : undoneSteps slot chain <+: undoSteps steps r := by
    rw [← undoneSteps_unwindTrace slot wf st d table small s]
    exact (calls.map _).filterMap _
  have completed_le : completedSteps slot chain <+: [] := by
    rw [← completedSteps_unwindTrace slot _ bound r s]
    exact calls.filterMap _
  refine ⟨List.prefix_nil.mp completed_le, fun j mem => undone_le.subset mem, ?_⟩
  cases q with
  | zero => simp [chain, undoneSteps]
  | succ q =>
      have length_eq := length_unwindTrace slot wf st d table small s
      rcases unwindTrace_starts_with_call slot { wf with status := st, doneCount := d } bound r s
        with empty | ⟨j, rv, rest, starts⟩
      · rw [empty, List.length_nil] at length_eq
        omega
      · simp [chain, starts, undoneSteps, undoneCall]

section Windows

variable {w : Engine σ} {slot : SlotId} {steps : Nat → Step σ} {count ctx k : Nat}

theorem cut_wfUnwind_enter (w : Engine σ) (slot : SlotId) (st : Status) (k : Nat) (s : σ)
    (t : List Action) (q : Nat) :
    (wfUnwind slot).cut (q + 1) (w.put slot st k s t) =
      (wfUnwindLoop slot maxSteps k false >>= wfUnwindFinish slot).cut q
        (w.put slot .rollingBack k s (t ++ [Action.setStatus slot .rollingBack])) := by
  simp [wfUnwind]

/-- A fault inside the undo chain: the cursor still covers every undo, those
already invoked included. -/
theorem cut_wfUnwind_inside (table : (w.workflows slot).steps = some steps) (k_le : k ≤ maxSteps)
    (st : Status) (s : σ) (t : List Action) {q : Nat}
    (inside : q ≤ 2 * (undoSteps steps k).length) :
    ∃ undone, LeftBehind w slot .rollingBack k (completedSteps slot t)
        (undoneSteps slot t ++ undone) ((wfUnwind slot).cut (q + 1) (w.put slot st k s t)) ∧
      (∀ j ∈ undone, j ∈ undoSteps steps k) ∧ (undone = [] ↔ q = 0) := by
  obtain ⟨s', cut_eq⟩ := cut_wfUnwindLoop w slot .rollingBack k maxSteps k false s
    (t ++ [Action.setStatus slot .rollingBack]) q
  obtain ⟨completed, below, start⟩ := undoChain_take slot _ .rollingBack k table k_le s inside
  have actions_eq := actions_wfUnwindLoop w slot .rollingBack k maxSteps k false s
    (t ++ [Action.setStatus slot .rollingBack])
  rw [length_unwindTrace slot _ _ _ table k_le] at actions_eq
  rw [cut_wfUnwind_enter, Program.cut_bind_inside _ (by omega), cut_eq]
  refine ⟨_, ⟨s', _, rfl, ?_, ?_⟩, below, start⟩
  · simp only [completedSteps_append, completedSteps_setStatus, completed, List.append_nil]
  · simp only [undoneSteps_append, undoneSteps_setStatus, List.append_nil]

/-- A fault behind the undo chain: every undo was invoked, the cursor is zero. -/
theorem cut_wfUnwind_behind (table : (w.workflows slot).steps = some steps) (k_le : k ≤ maxSteps)
    (st : Status) (s : σ) (t : List Action) {q : Nat}
    (behind : 2 * (undoSteps steps k).length < q) :
    ∃ st', LeftBehind w slot st' 0 (completedSteps slot t)
      (undoneSteps slot t ++ undoSteps steps k)
      ((wfUnwind slot).cut (q + 1) (w.put slot st k s t)) := by
  have actions_eq := actions_wfUnwindLoop w slot .rollingBack k maxSteps k false s
    (t ++ [Action.setStatus slot .rollingBack])
  rw [length_unwindTrace slot _ _ _ table k_le] at actions_eq
  rw [cut_wfUnwind_enter, Program.cut_bind_behind _ (by omega), actions_eq, exec_wfUnwindLoop]
  obtain ⟨r, r_eq⟩ : ∃ r, q - 2 * (undoSteps steps k).length = r + 1 :=
    ⟨q - 2 * (undoSteps steps k).length - 1, by omega⟩
  rw [r_eq]
  obtain ⟨st', t', cut_eq, quiet⟩ := cut_wfUnwindFinish w slot .rollingBack k
    (false || unwindFailed (w.workflows slot) maxSteps k s)
    (unwindState (w.workflows slot) maxSteps k s)
    (t ++ [Action.setStatus slot .rollingBack] ++ unwindTrace slot
      { w.workflows slot with status := .rollingBack, doneCount := k } maxSteps k s) r
  obtain ⟨completed_end, undone_end⟩ := steps_of_no_calls slot quiet
  refine ⟨st', _, _, cut_eq, ?_, ?_⟩
  · simp only [completedSteps_append, completedSteps_setStatus, completedSteps_unwindTrace,
      completed_end, List.append_nil]
  · simp only [undoneSteps_append, undoneSteps_setStatus, undone_end, List.append_nil]
    rw [undoneSteps_unwindTrace slot _ _ _ table k_le]

/-- A fault while step `i` runs and succeeds. From the return of the callback on
the step has completed, but the cursor still stands below it. -/
theorem Fresh.cut_step (fresh : Fresh w slot steps count ctx) (left : Nat) {i r : Nat}
    (inside : r < 4)
    (ok : runCode steps (w.store ctx) i = 0) :
    LeftBehind w slot .running i (List.range (if r < 2 then i else i + 1)) []
      ((workflowRunLoop slot (left + 1) i).cut r (w.reached slot steps i)) := by
  rw [Engine.reached]
  obtain ⟨s', cut_eq⟩ := cut_workflowRunLoop_step w slot left i _ _ inside (fresh.run_ok ok)
  obtain ⟨completed, undone⟩ := steps_of_stepTrace_take slot (w.workflows slot) i inside
  refine ⟨s', _, cut_eq, ?_, ?_⟩
  · rw [completedSteps_append, completed, completedSteps_wfRecord, completedSteps_steps]
    split
    · exact List.append_nil _
    · exact List.range_succ.symm
  · rw [undoneSteps_append, undone, undoneSteps_wfRecord, undoneSteps_steps]
    rfl

/-- A fault while step `k` fails, up to the start of its undo chain. -/
theorem Fresh.cut_fail (fresh : Fresh w slot steps count ctx) (left : Nat) {r : Nat}
    (inside : r < 3)
    (bad : runCode steps (w.store ctx) k ≠ 0) :
    LeftBehind w slot .running k (List.range k) []
      ((workflowRunLoop slot (left + 1) k).cut r (w.reached slot steps k)) := by
  rw [Engine.reached, fresh.ctx_eq]
  obtain ⟨s', cut_eq⟩ := cut_workflowRunLoop_fail w slot left k
    (stateAfter steps (w.store ctx) k) _ inside
  rw [fresh.runOf_eq] at cut_eq
  obtain ⟨completed, undone⟩ := steps_of_failTrace_take slot (w.workflows slot) k bad r
  refine ⟨s', _, cut_eq, ?_, ?_⟩
  · rw [completedSteps_append, completedSteps_wfRecord, completedSteps_steps]
    exact (congrArg _ completed).trans (List.append_nil _)
  · rw [undoneSteps_append, undoneSteps_wfRecord, undoneSteps_steps]
    exact undone

/-- The state in which the undo chain of a failing step `k` starts. -/
theorem Fresh.cut_unwind (fresh : Fresh w slot steps count ctx) (left r : Nat)
    (bad : runCode steps (w.store ctx) k ≠ 0) :
    ∃ s t, (workflowRunLoop slot (left + 1) k).cut (r + 3) (w.reached slot steps k) =
        (wfUnwind slot).cut r (w.put slot .running k s t) ∧
      completedSteps slot t = List.range k ∧ undoneSteps slot t = [] := by
  rw [Engine.reached, fresh.ctx_eq]
  have step_bad : (runOf (w.workflows slot) k (stateAfter steps (w.store ctx) k)).1 ≠ 0#32 := by
    rw [fresh.runOf_eq]
    exact bad
  obtain ⟨completed, undone⟩ := steps_of_failTrace_take slot (w.workflows slot) k step_bad 3
  refine ⟨_, _, cut_workflowRunLoop_unwind w slot left k _ _ r step_bad, ?_, ?_⟩
  · rw [completedSteps_append, completedSteps_wfRecord, completedSteps_steps]
    exact (congrArg _ completed).trans (List.append_nil _)
  · rw [undoneSteps_append, undoneSteps_wfRecord, undoneSteps_steps]
    exact undone

end Windows

/-! ## The windows -/

/-- The numbers of actions after which a run that stops at `k` must not be
abandoned: a step with an undo has returned and the cursor has not moved; some
undo has been invoked and the cursor has not been cleared; or the workflow is
committed with an undo in its table, and its last record is missing. -/
def Exposed (steps : Nat → Step σ) (count k p : Nat) : Prop :=
  (∃ i < k, (p = 4 * i + 3 ∨ p = 4 * i + 4) ∧ (steps i).undo.isSome) ∨
    (k < count ∧ 4 * k + 6 ≤ p ∧ p ≤ 4 * k + 5 + 2 * (undoSteps steps k).length) ∨
    (k = count ∧ p = 4 * k + 2 ∧ ∃ i < k, (steps i).undo.isSome)

theorem exposed_step_iff (steps : Nat → Step σ) (count : Nat) {k i r : Nat} (i_lt : i < k)
    (r_lt : r < 4) :
    Exposed steps count k (r + 4 * i + 1) ↔ ¬r < 2 ∧ (steps i).undo.isSome := by
  constructor
  · rintro (⟨j, -, place, has⟩ | ⟨-, late, -⟩ | ⟨-, late, -⟩)
    · obtain rfl : j = i := by omega
      exact ⟨by omega, has⟩
    · omega
    · omega
  · rintro ⟨late, has⟩
    exact Or.inl ⟨i, i_lt, by omega, has⟩

theorem exposed_fail_iff (steps : Nat → Step σ) {count k : Nat} (r : Nat) (early : k < count) :
    Exposed steps count k (r + 4 * k + 1) ↔
      5 ≤ r ∧ r ≤ 4 + 2 * (undoSteps steps k).length := by
  constructor
  · rintro (⟨j, j_lt, place, -⟩ | ⟨-, late, soon⟩ | ⟨same, -⟩)
    · omega
    · omega
    · omega
  · rintro ⟨late, soon⟩
    exact Or.inr (Or.inl ⟨early, by omega, by omega⟩)

theorem exposed_commit_iff (steps : Nat → Step σ) (k r : Nat) :
    Exposed steps k k (r + 4 * k + 1) ↔ r = 1 ∧ ∃ i < k, (steps i).undo.isSome := by
  constructor
  · rintro (⟨j, j_lt, place, -⟩ | ⟨same, -⟩ | ⟨-, here, has⟩)
    · omega
    · omega
    · exact ⟨by omega, has⟩
  · rintro ⟨here, has⟩
    exact Or.inr (Or.inr ⟨rfl, by omega, has⟩)

/-- Whether the run and the recovery together keep the promise. -/
def RecoveredExactlyOnce (w₁ : Engine σ) (slot : SlotId) (steps : Nat → Step σ) (p : Nat) : Prop :=
  ∃ t, (workflowRecover.exec ((workflowRun (some slot)).cut p w₁)).2.trace = w₁.trace ++ t ∧
    UndoneExactlyOnce steps (completedSteps slot t) (undoneSteps slot t)

theorem recoveredExactlyOnce_iff {w : Engine σ} {slot : SlotId} {steps : Nat → Step σ} {p : Nat}
    (table : (w.workflows slot).steps = some steps) {st : Status} {d : Nat} (d_le : d ≤ maxSteps)
    {completed undone : List Nat}
    (left : LeftBehind w slot st d completed undone ((workflowRun (some slot)).cut p w)) :
    RecoveredExactlyOnce w slot steps p ↔ UndoneExactlyOnce steps completed
      (undone ++ (if st = .running ∨ st = .rollingBack then undoSteps steps d else [])) := by
  obtain ⟨t, trace, rfl, undone_eq⟩ := recover_leftBehind table d_le left
  rw [← undone_eq]
  constructor
  · rintro ⟨t', trace', once⟩
    obtain rfl := List.append_cancel_left (trace.symm.trans trace')
    exact once
  · exact fun once => ⟨t, trace, once⟩

section Verdicts

variable {w : Engine σ} {slot : SlotId} {steps : Nat → Step σ} {count ctx k : Nat}

theorem Fresh.verdict_step (fresh : Fresh w slot steps count ctx)
    (stops : StopsAt steps count (w.store ctx) k) {i r : Nat} (i_lt : i < k) (r_lt : r < 4) :
    RecoveredExactlyOnce w slot steps (r + 4 * i + 1) ↔
      ¬Exposed steps count k (r + 4 * i + 1) := by
  have k_le := stops.le
  have count_le := fresh.count_le
  have loop := fresh.cut_prefix i (count - i) r (by omega) fun j hj => stops.ok j (by omega)
  have left := fresh.cut_step (count - i - 1) r_lt (stops.ok i i_lt)
  rw [show count - i - 1 + 1 = count - i by omega, ← loop,
    show i + (count - i) = count by omega, ← fresh.cut_enter] at left
  rw [recoveredExactlyOnce_iff fresh.steps_eq (by omega) left,
    exposed_step_iff steps count i_lt r_lt]
  by_cases soon : r < 2
  · simp [soon, undoSteps_exactlyOnce]
  · simp [soon, missed_exactlyOnce_iff]

theorem Fresh.verdict_commit (fresh : Fresh w slot steps count ctx)
    (stops : StopsAt steps count (w.store ctx) count) {r : Nat} (r_lt : r < 2) :
    RecoveredExactlyOnce w slot steps (r + 4 * count + 1) ↔
      ¬Exposed steps count count (r + 4 * count + 1) := by
  have loop := fresh.cut_prefix count 0 r fresh.count_le stops.ok
  rw [Nat.add_zero, ← fresh.cut_enter] at loop
  rw [exposed_commit_iff]
  obtain rfl | rfl : r = 0 ∨ r = 1 := by omega
  · have left : LeftBehind w slot .running count (List.range count) []
        ((workflowRun (some slot)).cut (0 + 4 * count + 1) w) :=
      ⟨_, _, by rw [loop, Program.cut_zero, Engine.reached], by simp, by simp⟩
    rw [recoveredExactlyOnce_iff fresh.steps_eq fresh.count_le left]
    simp [undoSteps_exactlyOnce]
  · have left : LeftBehind w slot .committed count (List.range count) []
        ((workflowRun (some slot)).cut (1 + 4 * count + 1) w) :=
      ⟨_, _, by rw [loop, Engine.reached, cut_workflowRunLoop_commit], by simp, by simp⟩
    rw [recoveredExactlyOnce_iff fresh.steps_eq fresh.count_le left]
    simp [none_exactlyOnce_iff]

/-- The chain of a failing step repeats undos exactly between its first call and
the store that clears the cursor. -/
theorem Fresh.verdict_chain (fresh : Fresh w slot steps count ctx) (k_le : k ≤ maxSteps)
    {s : σ} {t : List Action} {p q : Nat}
    (chain : (workflowRun (some slot)).cut p w =
      (wfUnwind slot).cut (q + 1) (w.put slot .running k s t))
    (completed : completedSteps slot t = List.range k) (undone : undoneSteps slot t = []) :
    RecoveredExactlyOnce w slot steps p ↔ ¬(q ≠ 0 ∧ q ≤ 2 * (undoSteps steps k).length) := by
  rcases Nat.lt_or_ge (2 * (undoSteps steps k).length) q with behind | inside
  · obtain ⟨st, left⟩ := cut_wfUnwind_behind fresh.steps_eq k_le .running s t behind
    rw [← chain, completed, undone] at left
    rw [recoveredExactlyOnce_iff fresh.steps_eq (Nat.zero_le _) left]
    refine iff_of_true ?_ (by omega)
    have nothing : undoSteps steps 0 = [] := rfl
    simpa [nothing] using undoSteps_exactlyOnce steps k
  · obtain ⟨again, left, below, none_iff⟩ :=
      cut_wfUnwind_inside fresh.steps_eq k_le .running s t inside
    rw [← chain, completed, undone] at left
    rw [recoveredExactlyOnce_iff fresh.steps_eq k_le left]
    by_cases start : q = 0
    · refine iff_of_true ?_ (by omega)
      simpa [none_iff.mpr start] using undoSteps_exactlyOnce steps k
    · refine iff_of_false ?_ (by omega)
      simpa using repeated_not_exactlyOnce (mt none_iff.mp start) below

theorem Fresh.verdict_fail (fresh : Fresh w slot steps count ctx)
    (stops : StopsAt steps count (w.store ctx) k) (early : k < count) (r : Nat) :
    RecoveredExactlyOnce w slot steps (r + 4 * k + 1) ↔
      ¬Exposed steps count k (r + 4 * k + 1) := by
  have k_le : k ≤ maxSteps := early.le.trans fresh.count_le
  have loop := fresh.cut_prefix k (count - k - 1 + 1) r
    (by have := fresh.count_le; omega) stops.ok
  rw [show k + (count - k - 1 + 1) = count by omega, ← fresh.cut_enter] at loop
  rw [exposed_fail_iff steps r early]
  rcases Nat.lt_or_ge r 3 with before | later
  · have left := fresh.cut_fail (count - k - 1) before (stops.fails early)
    rw [← loop] at left
    rw [recoveredExactlyOnce_iff fresh.steps_eq k_le left]
    exact iff_of_true (by simpa using undoSteps_exactlyOnce steps k) (by omega)
  · obtain ⟨n, rfl⟩ : ∃ n, r = n + 3 := ⟨r - 3, by omega⟩
    obtain ⟨s, t, chain, completed, undone⟩ :=
      fresh.cut_unwind (count - k - 1) n (stops.fails early)
    rw [chain] at loop
    cases n with
    | zero =>
        have left : LeftBehind w slot .running k (List.range k) []
            ((workflowRun (some slot)).cut (0 + 3 + 4 * k + 1) w) :=
          ⟨s, t, by rw [loop, Program.cut_zero], completed, undone⟩
        rw [recoveredExactlyOnce_iff fresh.steps_eq k_le left]
        exact iff_of_true (by simpa using undoSteps_exactlyOnce steps k) (by omega)
    | succ q =>
        rw [fresh.verdict_chain k_le loop completed undone]
        omega

end Verdicts

/-- Recovery after a fault undoes every completed step exactly once, in reverse
order, when and only when the fault falls outside the exposed windows. -/
theorem recoveredExactlyOnce_iff_not_exposed (w w₁ : Engine σ) (steps : Nat → Step σ)
    (count ctx : Nat) (slot : SlotId) (p : Nat)
    (started : workflowBegin w (some steps) count ctx = some (some slot, w₁))
    (abandoned : p < (workflowRun (some slot)).actions w₁) :
    ∃ k, StopsAt steps count (w.store ctx) k ∧
      (RecoveredExactlyOnce w₁ slot steps p ↔ ¬Exposed steps count k p) := by
  obtain ⟨fresh, store_eq, -⟩ := workflowBegin_fresh started
  rw [← store_eq]
  obtain ⟨k, stops⟩ := exists_stopsAt steps count (w₁.store ctx)
  refine ⟨k, stops, ?_⟩
  cases p with
  | zero =>
      have left : LeftBehind w₁ slot .running 0 [] []
          ((workflowRun (some slot)).cut 0 w₁) :=
        ⟨_, [], by rw [Program.cut_zero, ← fresh.status_eq, ← fresh.done_eq, put_self], rfl, rfl⟩
      rw [recoveredExactlyOnce_iff fresh.steps_eq (Nat.zero_le _) left]
      exact iff_of_true (by simpa using undoSteps_exactlyOnce steps 0) (by simp [Exposed])
  | succ p =>
      rcases Nat.lt_or_ge p (4 * k) with before | later
      · have place : p % 4 + 4 * (p / 4) = p := Nat.mod_add_div p 4
        have verdict := fresh.verdict_step stops (i := p / 4) (r := p % 4) (by omega) (by omega)
        rwa [place] at verdict
      · have place : p - 4 * k + 4 * k = p := by omega
        rcases Nat.lt_or_eq_of_le stops.le with early | rfl
        · have verdict := fresh.verdict_fail stops early (p - 4 * k)
          rwa [place] at verdict
        · rw [fresh.actions_committed stops] at abandoned
          have verdict := fresh.verdict_commit stops (r := p - 4 * k) (by omega)
          rwa [place] at verdict

theorem recoveredExactlyOnce_iff_not_exposed_tally :
    ∃ k, StopsAt (tallySteps 2) 3 0 k ∧
      (RecoveredExactlyOnce (tallyBegun 2 3) 0 (tallySteps 2) 5 ↔
        ¬Exposed (tallySteps 2) 3 k 5) :=
  recoveredExactlyOnce_iff_not_exposed (Engine.boot 0) (tallyBegun 2 3) (tallySteps 2) 3 0 0 5
    rfl (by decide)

/-- The whole history of three steps of which the last fails, when a fault comes
after `p` actions and recovery follows. -/
def tallyHistory (p : Nat) : List Action :=
  (workflowRecover.exec ((workflowRun (some 0)).cut p (tallyBegun 2 3))).2.trace

/-- After three actions the first run callback has returned, and recovery undoes
nothing. After fourteen the undo of the second step has been invoked, and recovery
invokes it again. -/
theorem recovery_misses_and_repeats :
    workflowBegin (Engine.boot 0) (some (tallySteps 2)) 3 0 = some (some 0, tallyBegun 2 3) ∧
      completedSteps 0 (tallyHistory 3) = [0] ∧ undoneSteps 0 (tallyHistory 3) = [] ∧
      completedSteps 0 (tallyHistory 14) = [0, 1] ∧ undoneSteps 0 (tallyHistory 14) = [1, 1, 0] ∧
      ¬RecoveredExactlyOnce (tallyBegun 2 3) 0 (tallySteps 2) 3 ∧
      ¬RecoveredExactlyOnce (tallyBegun 2 3) 0 (tallySteps 2) 14 := by
  refine ⟨rfl, by decide, by decide, by decide, by decide, ?_, ?_⟩
  · rintro ⟨t, trace, -, each⟩
    obtain rfl : tallyHistory 3 = t := trace
    exact absurd ((each 0).mpr ⟨by decide, rfl⟩) (by decide)
  · rintro ⟨t, trace, sorted, -⟩
    obtain rfl : tallyHistory 14 = t := trace
    exact absurd sorted (by decide)

end LughOS.Workflow

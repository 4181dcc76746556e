import LughOS.Workflow.Accounting
import LughOS.Workflow.Interruption

/-!
# The undo cursor

`done_count` is raised by each step of a run that succeeds, consumed by `wf_unwind` and left as
it is where a run is abandoned. A slot that is still running can be run again, and the second
run starts from step 0 without resetting the cursor. So the cursor of a run is its own count of
completed steps on top of what an abandoned run left.

A run may be abandoned after each of its actions, and the states it passes are therefore states
of the system. The cursor stays inside the step table through all of them just if no run
completes more steps than the cursor has room for.
-/

namespace LughOS.Workflow

open Interruptible Program

variable {σ : Type}

/-- The cursor points into the step table, and the table fits the bound of the undo loop. -/
def InRange (w : Engine σ) : Prop :=
  ∀ x, (w.workflows x).doneCount ≤ (w.workflows x).stepCount ∧
    (w.workflows x).stepCount ≤ maxSteps

/-- The undo chain of a slot, begun here, calls the undo of every step below the cursor and
none outside the table. -/
def UnwindsInside (w : Engine σ) : Prop :=
  ∀ slot steps, (w.workflows slot).steps = some steps →
    ∃ t, ((wfUnwind slot).exec w).2.trace = w.trace ++ t ∧
      undoneSteps slot t = undoSteps steps (w.workflows slot).doneCount ∧
      ∀ i ∈ undoneSteps slot t, i < (w.workflows slot).stepCount

/-- The states in which a call can be abandoned, and the one in which it ends. -/
def Passes (w : Engine σ) : Op σ → Engine σ → Prop
  | .begin steps count ctx, w' => w' = opStep w (.begin steps count ctx)
  | .run slot cut, w' => ∃ q, (∀ n, cut = some n → q ≤ n) ∧
      w' = (workflowRun (some slot)).cut q w
  | .recover, w' => ∃ q, w' = workflowRecover.cut q w
  | .release slot, w' => w' = opStep w (.release slot)

theorem passes_opStep (w : Engine σ) (op : Op σ) : Passes w op (opStep w op) := by
  cases op with
  | begin steps count ctx => exact rfl
  | run slot cut =>
      cases cut with
      | none => exact ⟨_, by simp, (cut_of_actions_le le_rfl).symm⟩
      | some n => exact ⟨n, by simp, rfl⟩
  | recover => exact ⟨_, (cut_of_actions_le le_rfl).symm⟩
  | release slot => exact rfl

/-! ## Unwinding and recovery -/

theorem trace_wfUnwind (w : Engine σ) (slot : SlotId) :
    ((wfUnwind slot).exec w).2.trace =
      w.trace ++ recoverTrace slot (w.workflows slot) (w.store (w.workflows slot).ctx) := by
  have run := exec_wfUnwind w slot (w.workflows slot).status (w.workflows slot).doneCount
    (w.store (w.workflows slot).ctx) []
  rw [put_self] at run
  rw [run]
  rfl

theorem InRange.unwindsInside {w : Engine σ} (range : InRange w) : UnwindsInside w := by
  intro slot steps table
  have small := range slot
  have undone : undoneSteps slot (recoverTrace slot (w.workflows slot)
      (w.store (w.workflows slot).ctx)) = undoSteps steps (w.workflows slot).doneCount := by
    rw [undoneSteps, callsOf_recoverTrace, ← undoneSteps]
    exact undoneSteps_unwindTrace slot (w.workflows slot) .rollingBack
      (w.workflows slot).doneCount table (small.1.trans small.2) _
  refine ⟨_, trace_wfUnwind w slot, undone, fun i below => ?_⟩
  rw [undone, mem_undoSteps] at below
  exact below.1.trans_le small.1

def KeepsRange (w w' : Engine σ) : Prop := InRange w → InRange w'

theorem inRange_setSlot {w : Engine σ} {slot : SlotId} {wf : Slot σ} (range : InRange w)
    (done : wf.doneCount ≤ wf.stepCount) (count : wf.stepCount ≤ maxSteps) :
    InRange (w.setSlot slot wf) := by
  intro x
  rcases eq_or_ne x slot with rfl | other
  · simpa [Engine.setSlot] using ⟨done, count⟩
  · simpa [Engine.setSlot, other] using range x

/-- No action of an undo chain moves the cursor out of the table. -/
theorem unwindsWithin_keepsRange (slot : SlotId) :
    UnwindsWithin (KeepsRange : Engine σ → Engine σ → Prop) slot where
  emit := fun _ _ _ => within_perform fun _ range => range
  invoke := fun _ _ _ => within_perform fun _ range => range
  setStatus := fun _ _ => within_perform fun _ range =>
    inRange_setSlot range (range slot).1 (range slot).2
  clear := within_perform fun _ range => inRange_setSlot range (Nat.zero_le _) (range slot).2

theorem workflowRelease_keepsRange (slot : SlotId) :
    Within KeepsRange (workflowRelease slot : Prog σ Unit) :=
  within_perform fun _ range => inRange_setSlot range le_rfl (Nat.zero_le _)

theorem workflowRecoverLoop_keepsRange (l : List SlotId) (result : Int) :
    Within KeepsRange (workflowRecoverLoop l result : Prog σ Int) := by
  induction l generalizing result with
  | nil => exact within_pure _
  | cons slot l ih =>
      have actions := unwindsWithin_keepsRange (σ := σ) slot
      refine within_bind (within_bind within_get fun w => ?_) ih
      split
      · exact within_pure _
      split
      · exact within_bind (actions.setStatus _ (by decide)) fun _ => within_pure _
      · refine within_bind actions.wfUnwind fun rv => ?_
        split
        · exact within_pure _
        · exact within_bind (workflowRelease_keepsRange slot) fun _ => within_pure _

theorem inRange_cut {α : Type} {p : Prog σ α} (within : Within KeepsRange p) {w : Engine σ}
    (range : InRange w) (n : Nat) : InRange (p.cut n w) :=
  within.cut (fun _ => id) (fun _ _ _ ab bc range => bc (ab range)) n w range

theorem inRange_begin {w : Engine σ} (range : InRange w) (steps : Option (Nat → Step σ))
    (count ctx : Nat) : InRange (opStep w (.begin steps count ctx)) := by
  cases begun : workflowBegin w steps count ctx with
  | none => simpa [opStep, begun] using range
  | some out =>
      obtain ⟨handle, w'⟩ := out
      simp only [opStep, begun, Option.elim_some]
      cases handle with
      | none =>
          rcases workflowBegin_cases w steps count ctx with
            ⟨-, eq⟩ | ⟨-, -, eq⟩ | ⟨-, -, slot, table, -, eq⟩
          all_goals simp_all
      | some slot =>
          cases steps with
          | none => simp [workflowBegin] at begun
          | some table =>
              obtain ⟨valid, id, next, rfl⟩ := workflowBegin_eq_some begun
              have small : count ≤ maxSteps := by
                simp only [accepts, Bool.and_eq_true, decide_eq_true_eq] at valid
                exact valid.1.2
              exact inRange_setSlot (w := { w with nextTxnId := next }) range (Nat.zero_le _) small

/-! ## How far a run moves the cursor -/

/-- The steps that succeed before one fails, of the `left` steps from step `i` on. -/
def successes (wf : Slot σ) : Nat → Nat → σ → Nat
  | 0, _, _ => 0
  | left + 1, i, s =>
      if (runOf wf i s).1 = 0#32 then successes wf left (i + 1) (runOf wf i s).2 + 1 else 0

theorem successes_le (wf : Slot σ) (left i : Nat) (s : σ) : successes wf left i s ≤ left := by
  induction left generalizing i s with
  | zero => exact le_rfl
  | succ left ih =>
      rw [successes]
      split
      · exact Nat.succ_le_succ (ih _ _)
      · exact Nat.zero_le _

/-- The steps that a run completes: all that succeed, or those it has counted where it is
abandoned, four actions for each one behind the opening record. -/
def completes (w : Engine σ) (slot : SlotId) (cut : Option Nat) : Nat :=
  let wf := w.workflows slot
  let all := successes wf wf.stepCount 0 (w.store wf.ctx)
  cut.elim all fun n => min all ((n - 1) / 4)

section Loop

variable (w : Engine σ) (slot : SlotId) (left i d : Nat) (s : σ) (t : List Action)

/-- The loop past a step that succeeds, from any cursor. -/
theorem cut_workflowRunLoop_past (r : Nat) (ok : (runOf (w.workflows slot) i s).1 = 0#32) :
    ∃ t', (workflowRunLoop slot (left + 1) i).cut (r + 4) (w.put slot .running d s t) =
      (workflowRunLoop slot left (i + 1)).cut r
        (w.put slot .running ((d + 1) % 2 ^ 32) (runOf (w.workflows slot) i s).2 t') :=
  ⟨_, by simp [workflowRunLoop, ok]; rfl⟩

/-- Inside a step the cursor does not move. -/
theorem doneCount_cut_step {r : Nat} (inside : r < 4)
    (ok : r < 3 ∨ (runOf (w.workflows slot) i s).1 = 0#32) :
    (((workflowRunLoop slot (left + 1) i).cut r
      (w.put slot .running d s t)).workflows slot).doneCount = d := by
  match r with
  | 0 => simp
  | 1 => simp [workflowRunLoop]
  | 2 => simp [workflowRunLoop]
  | 3 =>
      have ok := ok.resolve_left (by decide)
      simp [workflowRunLoop, ok]

theorem doneCount_cut_commit (q : Nat) :
    (((workflowRunLoop slot 0 i).cut q (w.put slot .running d s t)).workflows slot).doneCount =
      d := by
  match q with
  | 0 => simp
  | 1 => simp [workflowRunLoop]
  | q + 2 => simp [workflowRunLoop]

/-- A chain only resets the cursor. -/
theorem doneCount_cut_wfUnwind_le (w : Engine σ) (slot : SlotId) (q : Nat) :
    (((wfUnwind slot).cut q w).workflows slot).doneCount ≤ (w.workflows slot).doneCount := by
  let R : Engine σ → Engine σ → Prop := fun w w' =>
    (w'.workflows slot).doneCount ≤ (w.workflows slot).doneCount
  have actions : UnwindsWithin R slot := by
    refine ⟨fun _ _ _ => within_perform fun _ => le_rfl,
      fun _ _ _ => within_perform fun _ => le_rfl, fun _ _ => within_perform fun w => ?_,
      within_perform fun w => ?_⟩
    · simp [R, Engine.log, Engine.setSlot]
    · simp [R, Engine.log, Engine.setSlot]
  exact actions.wfUnwind.cut (fun _ => le_rfl) (fun _ _ _ ab bc => bc.trans ab) q w

theorem doneCount_cut_workflowRunLoop_le (q : Nat) :
    (((workflowRunLoop slot left i).cut q (w.put slot .running d s t)).workflows slot).doneCount ≤
      d + min (successes (w.workflows slot) left i s) (q / 4) := by
  induction left generalizing i d s t q with
  | zero => exact (doneCount_cut_commit w slot i d s t q).le.trans (Nat.le_add_right _ _)
  | succ left ih =>
      by_cases ok : (runOf (w.workflows slot) i s).1 = 0#32
      · rcases Nat.lt_or_ge q 4 with inside | behind
        · rw [doneCount_cut_step w slot left i d s t inside (.inr ok)]
          exact Nat.le_add_right _ _
        · obtain ⟨r, rfl⟩ := Nat.exists_eq_add_of_le' behind
          obtain ⟨t', later⟩ := cut_workflowRunLoop_past w slot left i d s t r ok
          have rest := ih (i + 1) ((d + 1) % 2 ^ 32) (runOf (w.workflows slot) i s).2 t' r
          have wrap := Nat.mod_le (d + 1) (2 ^ 32)
          rw [later, successes, if_pos ok]
          omega
      · rcases Nat.lt_or_ge q 3 with inside | behind
        · rw [doneCount_cut_step w slot left i d s t (by omega) (.inl inside)]
          exact Nat.le_add_right _ _
        · obtain ⟨r, rfl⟩ := Nat.exists_eq_add_of_le' behind
          have chain := doneCount_cut_wfUnwind_le (w.put slot .running d
            (runOf (w.workflows slot) i s).2 (t ++
              [wfRecord { w.workflows slot with status := .running, doneCount := d } i .begin 0,
                .call slot .run i (runOf (w.workflows slot) i s).1,
                wfRecord { w.workflows slot with status := .running, doneCount := d } i .stepFail
                  (runOf (w.workflows slot) i s).1])) slot r
          refine le_trans ?_ (Nat.le_add_right _ _)
          simpa [workflowRunLoop, ok, cut_bind_pure] using chain

/-- Behind each step that succeeds the cursor is one higher. -/
theorem doneCount_cut_workflowRunLoop {j : Nat}
    (some_left : j ≤ successes (w.workflows slot) left i s) (small : d + j < 2 ^ 32) :
    (((workflowRunLoop slot left i).cut (4 * j)
      (w.put slot .running d s t)).workflows slot).doneCount = d + j := by
  induction j generalizing left i d s t with
  | zero => simp
  | succ j ih =>
      cases left with
      | zero => exact absurd some_left (Nat.not_succ_le_zero j)
      | succ left =>
          rw [successes] at some_left
          split at some_left
          case isFalse => exact absurd some_left (Nat.not_succ_le_zero j)
          case isTrue ok =>
            obtain ⟨t', later⟩ := cut_workflowRunLoop_past w slot left i d s t (4 * j) ok
            have next : (d + 1) % 2 ^ 32 = d + 1 := Nat.mod_eq_of_lt (by omega)
            rw [Nat.mul_succ, later, next,
              ih _ _ _ _ _ (Nat.le_of_succ_le_succ some_left) (by omega)]
            omega

end Loop

/-! ## One run -/

section Run

variable {w : Engine σ} {slot : SlotId}

/-- A slot on which `workflow_run` gets past its checks. -/
def Runnable (w : Engine σ) (slot : SlotId) : Prop :=
  (w.workflows slot).steps.isSome ∧ (w.workflows slot).status = .running

theorem cut_workflowRun_refused (refused : ¬Runnable w slot) (q : Nat) :
    (workflowRun (some slot)).cut q w = w := by
  have check : (w.workflows slot).steps = none ∨ (w.workflows slot).status ≠ .running := by
    by_contra passed
    rw [not_or] at passed
    exact refused ⟨Option.isSome_iff_ne_none.mpr passed.1, not_not.mp passed.2⟩
  simp [workflowRun, check]

theorem cut_workflowRun_enter (runnable : Runnable w slot) (q : Nat) :
    ∃ t, (workflowRun (some slot)).cut (q + 1) w =
      (workflowRunLoop slot (w.workflows slot).stepCount 0).cut q
        (w.put slot .running (w.workflows slot).doneCount
          (w.store (w.workflows slot).ctx) t) := by
  have base := put_self w slot
  rw [runnable.2] at base
  have table : (w.workflows slot).steps ≠ none := Option.isSome_iff_ne_none.mp runnable.1
  refine ⟨[wfRecord { w.workflows slot with status := .running } (w.workflows slot).stepCount
    .begin 0], ?_⟩
  conv_lhs => rw [← base]
  simp [workflowRun, table]

theorem doneCount_cut_workflowRun_le (runnable : Runnable w slot) (q : Nat) :
    (((workflowRun (some slot)).cut q w).workflows slot).doneCount ≤
      (w.workflows slot).doneCount + completes w slot (some q) := by
  cases q with
  | zero => simp
  | succ q =>
      obtain ⟨t, enter⟩ := cut_workflowRun_enter runnable q
      rw [enter]
      exact doneCount_cut_workflowRunLoop_le ..

theorem completes_mono {cut : Option Nat} {q : Nat} (inside : ∀ n, cut = some n → q ≤ n) :
    completes w slot (some q) ≤ completes w slot cut := by
  cases cut with
  | none => exact min_le_left _ _
  | some n =>
      have less := inside n rfl
      exact min_le_min_left _ (Nat.div_le_div_right (Nat.sub_le_sub_right less 1))

/-- Every count of completed steps is reached by the cursor at some action of the run. -/
theorem exists_cut_completes (range : InRange w) (runnable : Runnable w slot)
    (cut : Option Nat) :
    ∃ q, (∀ n, cut = some n → q ≤ n) ∧
      (((workflowRun (some slot)).cut q w).workflows slot).doneCount =
        (w.workflows slot).doneCount + completes w slot cut := by
  set j := completes w slot cut with hj
  have few : j ≤ successes (w.workflows slot) (w.workflows slot).stepCount 0
      (w.store (w.workflows slot).ctx) := by
    cases cut with
    | none => exact le_rfl
    | some n => exact min_le_left _ _
  rcases Nat.eq_zero_or_pos j with none | some_done
  · exact ⟨0, fun _ _ => Nat.zero_le _, by simp [none]⟩
  · have bound := range slot
    have most := successes_le (w.workflows slot) (w.workflows slot).stepCount 0
      (w.store (w.workflows slot).ctx)
    obtain ⟨t, enter⟩ := cut_workflowRun_enter runnable (4 * j)
    refine ⟨4 * j + 1, ?_, ?_⟩
    · rintro n rfl
      have late : j ≤ (n - 1) / 4 := min_le_right _ _
      omega
    · rw [enter]
      refine doneCount_cut_workflowRunLoop w slot _ 0 _ _ t few ?_
      unfold maxSteps at bound
      omega

theorem run_inRange_iff (range : InRange w) (cut : Option Nat) :
    (∀ w', Passes w (.run slot cut) w' → InRange w') ↔
      (Runnable w slot →
        (w.workflows slot).doneCount + completes w slot cut ≤ (w.workflows slot).stepCount) := by
  have own : ∀ q, OwnSlot slot w ((workflowRun (some slot)).cut q w) := fun q =>
    afterRun_ownSlot slot w (some q)
  constructor
  · intro all runnable
    obtain ⟨q, inside, reached⟩ := exists_cut_completes range runnable cut
    rw [← reached, ← (own q).stepCount]
    exact (all _ ⟨q, inside, rfl⟩ slot).1
  · rintro fits _ ⟨q, inside, rfl⟩
    by_cases runnable : Runnable w slot
    case neg =>
      rw [cut_workflowRun_refused runnable]
      exact range
    intro x
    rcases eq_or_ne x slot with rfl | other
    · rw [(own q).stepCount]
      refine ⟨?_, (range x).2⟩
      calc _ ≤ (w.workflows x).doneCount + completes w x (some q) :=
              doneCount_cut_workflowRun_le runnable q
        _ ≤ (w.workflows x).doneCount + completes w x cut :=
              Nat.add_le_add_left (completes_mono inside) _
        _ ≤ (w.workflows x).stepCount := fits runnable
    · rw [(own q).others x other]
      exact range x

end Run

/-! ## Whole runs -/

/-- A run completes no more steps than the cursor has room for. -/
def CursorFits (w : Engine σ) : Op σ → Prop
  | .run slot cut => Runnable w slot →
      (w.workflows slot).doneCount + completes w slot cut ≤ (w.workflows slot).stepCount
  | _ => True

theorem passes_inRange_iff {w : Engine σ} (range : InRange w) (op : Op σ) :
    (∀ w', Passes w op w' → InRange w' ∧ UnwindsInside w') ↔ CursorFits w op := by
  have split : (∀ w', Passes w op w' → InRange w' ∧ UnwindsInside w') ↔
      ∀ w', Passes w op w' → InRange w' :=
    forall₂_congr fun _ _ => and_iff_left_of_imp InRange.unwindsInside
  rw [split]
  cases op with
  | begin steps count ctx =>
      refine iff_of_true ?_ trivial
      rintro _ rfl
      exact inRange_begin range steps count ctx
  | run slot cut => exact run_inRange_iff range cut
  | recover =>
      refine iff_of_true ?_ trivial
      rintro _ ⟨q, rfl⟩
      exact inRange_cut (workflowRecoverLoop_keepsRange _ _) range q
  | release slot =>
      refine iff_of_true ?_ trivial
      rintro _ rfl
      exact inRange_setSlot range le_rfl (Nat.zero_le _)

/-- From an engine with free slots, the cursor stays in range through all states of a run of the
system, and every undo chain inside the table, just if no `workflow_run` adds more steps to the
cursor than it has room for. -/
theorem cursor_in_range_iff (w : Engine σ) (ops : List (Op σ)) :
    Runs.Meets opStep (fun w op => ∀ w', Passes w op w' → InRange w' ∧ UnwindsInside w')
        (Ledger.start w).engine ops ↔
      Runs.Meets opStep CursorFits (Ledger.start w).engine ops := by
  have start : InRange (Ledger.start w).engine := fun _ => ⟨le_rfl, Nat.zero_le _⟩
  have agree : ∀ (w : Engine σ) (op : Op σ), InRange w →
      ((∀ w', Passes w op w' → InRange w' ∧ UnwindsInside w') ↔ CursorFits w op) :=
    fun _ op range => passes_inRange_iff range op
  constructor
  · intro run
    exact (Runs.meets_congr start (fun w op _ all => (all _ (passes_opStep w op)).1)
      (fun w op range _ => agree w op range) run).mp run
  · intro run
    refine (Runs.meets_congr start (fun w op range fits => ?_)
      (fun w op range _ => agree w op range) run).mpr run
    exact ((agree w op range).mpr fits _ (passes_opStep w op)).1

/-- Steps over a counter that succeed three times and fail from then on. -/
def thriceSteps (_ : Nat) : Step Nat :=
  { name := none
    run := some fun s => if s = 3 then (1, s) else (0, s + 1)
    undo := some fun s => (0, s - 1) }

/-- Two steps have been counted when the run is abandoned in front of its commit. The second run
counts a third one and fails; its undo chain starts at index 2 of a table of two. -/
theorem second_run_overruns :
    let w := Runs.after opStep (Ledger.start (Engine.boot 0)).engine
      [.begin (some thriceSteps) 2 0, .run 0 (some 9)]
    let w' := (workflowRun (some 0)).cut 5 w
    Passes w (.run 0 none) w' ∧
      (w'.workflows 0).doneCount = 3 ∧ (w'.workflows 0).stepCount = 2 ∧
      undoneSteps 0 (opStep w (.run 0 none)).trace = [2, 1, 0] := by
  refine ⟨⟨5, by simp, rfl⟩, ?_⟩
  decide +kernel

end LughOS.Workflow

import LughOS.Workflow.RunLaw

/-!
# The story the log tells

Each `wf_emit` leaves one record, and a run of the engine leaves a sequence of
them. Only the event and the step index of a record are looked at here. `Story`
is the grammar of such sequences for a table of `n` steps; `n` itself stands for
the whole workflow, so that one event code opens both the workflow and a step.

A reader off the box has the records and not the callbacks. `replayCalls` and
`replayStatus` are what it computes: the callbacks that were invoked, whether
each one succeeded, and the status the run ended in.
-/

namespace LughOS.Workflow

open Interruptible

variable {σ : Type}

def Action.event? : Action → Option (Event × Nat)
  | .emit _ record => some (record.event, record.stepIndex)
  | _ => none

/-- The records of a trace, as pairs of an event and a step index. -/
def storyOf (t : List Action) : List (Event × Nat) := t.filterMap Action.event?

/-! ## The grammar -/

def completedStory (k : Nat) : List (Event × Nat) :=
  (List.range k).flatMap fun i => [(.begin, i), (.stepOk, i)]

def undoStory (undos : List (Nat × Bool)) : List (Event × Nat) :=
  undos.map fun undo => (if undo.2 then .undoOk else .undoFail, undo.1)

/-- The words a run over `n` steps may write. -/
inductive Story (steps : Nat → Step σ) (n : Nat) : List (Event × Nat) → Prop
  | commit : Story steps n ((.begin, n) :: (completedStory n ++ [(.commit, n)]))
  | unwind (k : Nat) (undos : List (Nat × Bool)) (early : k < n)
      (each : undos.map Prod.fst = undoSteps steps k) :
      Story steps n ((.begin, n) :: (completedStory k ++ [(.begin, k), (.stepFail, k)] ++
        undoStory undos ++ [(if undos.all Prod.snd then .rolledBack else .failed, n)]))

/-- Every run callback comes right after the record that announces it. -/
def Announced (t : List Action) : Prop :=
  ∀ before after slot i rv, t = before ++ .call slot .run i rv :: after →
    ∃ earlier entry record, before = earlier ++ [.emit entry record] ∧
      record.event = .begin ∧ record.stepIndex = i

/-! ## The reader -/

def replayCall : Event × Nat → Option (Callback × Nat × Bool)
  | (.stepOk, i) => some (.run, i, true)
  | (.stepFail, i) => some (.run, i, false)
  | (.undoOk, i) => some (.undo, i, true)
  | (.undoFail, i) => some (.undo, i, false)
  | _ => none

/-- The callbacks behind a story, in order, with their success. -/
def replayCalls (story : List (Event × Nat)) : List (Callback × Nat × Bool) :=
  story.filterMap replayCall

/-- The terminal status a story reports. -/
def replayStatus (story : List (Event × Nat)) : Option Status :=
  story.findSome? fun
    | (.commit, _) => some .committed
    | (.rolledBack, _) => some .rolledBack
    | (.failed, _) => some .failed
    | _ => none

/-! ## The pieces of a run's trace -/

@[simp] theorem storyOf_nil : storyOf [] = [] := rfl

@[simp] theorem storyOf_append (t t' : List Action) :
    storyOf (t ++ t') = storyOf t ++ storyOf t' :=
  List.filterMap_append

@[simp] theorem storyOf_wfRecord (wf : Slot σ) (i : Nat) (ev : Event) (rv : BitVec 32)
    (t : List Action) : storyOf (wfRecord wf i ev rv :: t) = (ev, i) :: storyOf t := rfl

@[simp] theorem storyOf_setStatus (slot : SlotId) (st : Status) (t : List Action) :
    storyOf (.setStatus slot st :: t) = storyOf t := rfl

@[simp] theorem storyOf_call (slot : SlotId) (cb : Callback) (i : Nat) (rv : BitVec 32)
    (t : List Action) : storyOf (.call slot cb i rv :: t) = storyOf t := rfl

@[simp] theorem storyOf_steps (slot : SlotId) (wf : Slot σ) (k : Nat) :
    storyOf ((List.range k).flatMap (stepTrace slot wf)) = completedStory k := by
  induction k with
  | zero => rfl
  | succ k ih =>
      simp only [completedStory, List.range_succ, List.flatMap_append, storyOf_append] at ih ⊢
      rw [ih]
      rfl

@[simp] theorem storyOf_failTrace (slot : SlotId) (wf : Slot σ) (i : Nat) (rv : BitVec 32) :
    storyOf (failTrace slot wf i rv) = [(.begin, i), (.stepFail, i)] := rfl

@[simp] theorem storyOf_unwindEnd (slot : SlotId) (wf : Slot σ) (failed : Bool) :
    storyOf (unwindEnd slot wf failed) =
      [(if failed then .failed else .rolledBack, wf.stepCount)] := by
  cases failed <;> rfl

/-- The undo loop writes one record per call, with the call's outcome. -/
theorem storyOf_unwindTrace (slot : SlotId) (wf : Slot σ) (bound r : Nat) (s : σ) :
    storyOf (unwindTrace slot wf bound r s) =
      undoStory ((callsOf (unwindTrace slot wf bound r s)).map fun c => (c.step, c.rv == 0)) := by
  induction bound generalizing r s with
  | zero => rfl
  | succ bound ih =>
      cases r with
      | zero => rfl
      | succ r =>
          cases hundo : undoOf wf r with
          | none => simp only [unwindTrace, hundo, ih]
          | some undo =>
              by_cases rv_eq : (undo s).1 = 0#32
              · simp [unwindTrace, hundo, ih, undoStory, rv_eq]
              · simp [unwindTrace, hundo, ih, undoStory, rv_eq]

/-! ## Announcements -/

theorem announced_append {t t' : List Action} (h : Announced t) (h' : Announced t') :
    Announced (t ++ t') := by
  intro before after slot i rv whole
  rcases List.append_eq_append_iff.mp whole with ⟨mid, rfl, rest⟩ | ⟨mid, eq, rest⟩
  · -- The call lies in the second part.
    obtain ⟨earlier, entry, record, rfl, announced⟩ := h' mid after slot i rv rest
    exact ⟨t ++ earlier, entry, record, by simp, announced⟩
  · cases mid with
    | nil =>
        obtain ⟨earlier, _, _, empty, _⟩ := h' [] after slot i rv rest.symm
        simp at empty
    | cons head mid =>
        obtain ⟨rfl, -⟩ := List.cons_eq_cons.mp rest
        exact h before mid slot i rv eq

/-- A piece without run callbacks announces all of them. -/
theorem announced_of_no_run {t : List Action}
    (none_run : ∀ c ∈ callsOf t, c.callback ≠ .run) : Announced t := by
  rintro before after slot i rv rfl
  exact absurd rfl (none_run ⟨slot, .run, i, rv⟩ (by simp))

/-- One record and the call it announces. -/
theorem announced_step (slot : SlotId) (wf : Slot σ) (i : Nat) (rv : BitVec 32) :
    Announced [wfRecord wf i .begin 0, .call slot .run i rv] := by
  intro before after slot' i' rv' whole
  cases before with
  | nil => simp [wfRecord] at whole
  | cons first before =>
      obtain ⟨rfl, rest⟩ := List.cons_eq_cons.mp whole
      cases before with
      | nil =>
          obtain ⟨same, -⟩ := List.cons_eq_cons.mp rest
          obtain ⟨-, -, rfl, -⟩ := Action.call.inj same
          exact ⟨[], _, _, rfl, rfl, rfl⟩
      | cons second before => simp at rest

theorem announced_steps (slot : SlotId) (wf : Slot σ) (k : Nat) :
    Announced ((List.range k).flatMap (stepTrace slot wf)) := by
  induction k with
  | zero => exact announced_of_no_run (by simp)
  | succ k ih =>
      rw [List.range_succ, List.flatMap_append, List.flatMap_singleton]
      refine announced_append ih (announced_append (announced_step slot _ k 0)
        (announced_of_no_run ?_))
      simp

theorem announced_failTrace (slot : SlotId) (wf : Slot σ) (i : Nat) (rv : BitVec 32) :
    Announced (failTrace slot wf i rv) :=
  announced_append (announced_step slot _ i rv) (announced_of_no_run (by simp))

/-! ## The reader recovers the run -/

/-- The reader of the records sees the calls of this piece. -/
def Told (t : List Action) : Prop :=
  replayCalls (storyOf t) = (callsOf t).map fun c => (c.callback, c.step, c.rv == 0)

theorem told_append {t t' : List Action} (h : Told t) (h' : Told t') : Told (t ++ t') := by
  simp only [Told, storyOf_append, callsOf_append, List.map_append] at h h' ⊢
  rw [← h, ← h']
  exact List.filterMap_append

theorem told_steps (slot : SlotId) (wf : Slot σ) (k : Nat) :
    Told ((List.range k).flatMap (stepTrace slot wf)) := by
  induction k with
  | zero => rfl
  | succ k ih =>
      rw [List.range_succ, List.flatMap_append, List.flatMap_singleton]
      exact told_append ih rfl

theorem told_failTrace (slot : SlotId) (wf : Slot σ) (i : Nat) {rv : BitVec 32} (bad : rv ≠ 0) :
    Told (failTrace slot wf i rv) := by
  have flag : (rv == 0) = false := beq_eq_false_iff_ne.mpr bad
  simp only [Told, storyOf_failTrace, callsOf_failTrace, List.map_cons, List.map_nil, flag]
  rfl

theorem told_unwindTrace (slot : SlotId) (wf : Slot σ) (bound r : Nat) (s : σ) :
    Told (unwindTrace slot wf bound r s) := by
  induction bound generalizing r s with
  | zero => rfl
  | succ bound ih =>
      cases r with
      | zero => rfl
      | succ r =>
          cases hundo : undoOf wf r with
          | none => simpa only [unwindTrace, hundo] using ih r s
          | some undo =>
              simp only [unwindTrace, hundo]
              refine told_append (t := [_, _]) ?_ (ih r _)
              by_cases rv_eq : (undo s).1 = 0#32
              · simp [Told, replayCalls, replayCall, rv_eq]
              · simp [Told, replayCalls, replayCall, rv_eq]

theorem told_unwindEnd (slot : SlotId) (wf : Slot σ) (failed : Bool) :
    Told (unwindEnd slot wf failed) := by
  cases failed <;> rfl

@[simp] theorem replayStatus_append (story story' : List (Event × Nat)) :
    replayStatus (story ++ story') = (replayStatus story).or (replayStatus story') :=
  List.findSome?_append

@[simp] theorem replayStatus_begin (i : Nat) (story : List (Event × Nat)) :
    replayStatus ((.begin, i) :: story) = replayStatus story := rfl

@[simp] theorem replayStatus_completedStory (k : Nat) : replayStatus (completedStory k) = none := by
  induction k with
  | zero => rfl
  | succ k ih =>
      simp only [completedStory, List.range_succ, List.flatMap_append, replayStatus_append] at ih ⊢
      rw [ih]
      rfl

@[simp] theorem replayStatus_undoStory (undos : List (Nat × Bool)) :
    replayStatus (undoStory undos) = none := by
  simp only [replayStatus, undoStory, List.findSome?_map, List.findSome?_eq_none_iff]
  rintro ⟨j, ok⟩ -
  cases ok <;> rfl

/-! ## The whole story of a run -/

/-- What the records of one run over `count` steps, ending in `status`, tell. -/
structure WholeStory (steps : Nat → Step σ) (count : Nat) (t : List Action) (status : Status) :
    Prop where
  word : Story steps count (storyOf t)
  announced : Announced t
  calls : replayCalls (storyOf t) = (callsOf t).map fun c => (c.callback, c.step, c.rv == 0)
  status : replayStatus (storyOf t) = some status

section Runs

variable {w : Engine σ} {slot : SlotId} {steps : Nat → Step σ} {count ctx k : Nat}

theorem Fresh.wholeStory_committed (fresh : Fresh w slot steps count ctx)
    (stops : StopsAt steps count (w.store ctx) count) :
    let out := (workflowRun (some slot)).exec w
    ∃ t, out.2.trace = w.trace ++ t ∧
      WholeStory steps count t (out.2.workflows slot).status := by
  rw [fresh.exec_committed stops]
  refine ⟨_, rfl, ?_, ?_, ?_, ?_⟩
  · simpa using Story.commit
  · exact announced_append (t := [_]) (announced_of_no_run (by simp))
      (announced_append (announced_steps slot _ count) (announced_of_no_run (by simp)))
  · exact told_append (t := [_]) rfl (told_append (told_steps slot _ count) rfl)
  · simp only [storyOf_wfRecord, storyOf_append, storyOf_steps, replayStatus_begin,
      replayStatus_append, replayStatus_completedStory, put_slot]
    rfl

theorem Fresh.wholeStory_unwound (fresh : Fresh w slot steps count ctx)
    (stops : StopsAt steps count (w.store ctx) k) (early : k < count) :
    let out := (workflowRun (some slot)).exec w
    ∃ t, out.2.trace = w.trace ++ t ∧
      WholeStory steps count t (out.2.workflows slot).status := by
  have k_le : k ≤ maxSteps := early.le.trans fresh.count_le
  intro out
  have run : out = _ := fresh.exec_unwound stops early
  let undone := unwindTrace slot { w.workflows slot with status := .rollingBack, doneCount := k }
    maxSteps k (stateAfter steps (w.store ctx) (k + 1))
  let undos := (callsOf undone).map fun c => (c.step, c.rv == 0)
  have terminal : unwindFailed (w.workflows slot) maxSteps k
      (stateAfter steps (w.store ctx) (k + 1)) = !undos.all Prod.snd := by
    rw [unwindFailed_eq slot _ .rollingBack k]
    simp only [undos, undone, List.all_map, List.any_eq_not_all_not, Function.comp_def]
    simp [beq_eq_decide]
  have each : undos.map Prod.fst = undoSteps steps k := by
    have steps_eq := congrArg (List.map fun c : SlotId × Callback × Nat => c.2.2)
      (callsOf_unwindTrace slot (w.workflows slot) .rollingBack k fresh.steps_eq k_le
        (stateAfter steps (w.store ctx) (k + 1)))
    simpa [undos, undone, Function.comp_def] using steps_eq
  have no_run : ∀ c ∈ callsOf (.setStatus slot .rollingBack :: (undone ++
      unwindEnd slot (w.workflows slot) (unwindFailed (w.workflows slot) maxSteps k
        (stateAfter steps (w.store ctx) (k + 1))))), c.callback ≠ .run := by
    intro c mem
    rw [(mem_callsOf_unwindTrace (by simpa using mem)).2]
    decide
  refine ⟨_, by rw [run, put_trace], ?_, ?_, ?_, ?_⟩
  · have word := Story.unwind k undos early each
    rw [← storyOf_unwindTrace slot _ maxSteps k] at word
    simp only [terminal]
    cases all_ok : undos.all Prod.snd
    all_goals simpa [fresh.count_eq, undone, all_ok] using word
  · exact announced_append (t := [_]) (announced_of_no_run (by simp))
      (announced_append (announced_append (announced_steps slot _ k)
        (announced_failTrace slot _ k _)) (announced_of_no_run no_run))
  · exact told_append (t := [_]) rfl (told_append (told_append (told_steps slot _ k)
      (told_failTrace slot _ k (stops.fails early))) (told_append (t := [_]) rfl
        (told_append (told_unwindTrace slot _ _ _ _) (told_unwindEnd slot _ _))))
  · simp only [storyOf_wfRecord, storyOf_append, storyOf_steps, storyOf_failTrace,
      storyOf_setStatus, storyOf_unwindTrace, storyOf_unwindEnd, replayStatus_begin,
      replayStatus_append, replayStatus_completedStory, replayStatus_undoStory, run, put_slot]
    cases unwindFailed (w.workflows slot) maxSteps k (stateAfter steps (w.store ctx) (k + 1)) <;>
      rfl

end Runs

/-- The records of `workflow_begin` and `workflow_run` tell the whole story of
the run, whatever its callbacks do. -/
theorem workflowRun_wholeStory (w w₁ : Engine σ) (steps : Nat → Step σ) (count ctx : Nat)
    (slot : SlotId) (started : workflowBegin w (some steps) count ctx = some (some slot, w₁)) :
    let out := (workflowRun (some slot)).exec w₁
    ∃ t, out.2.trace = w.trace ++ t ∧
      WholeStory steps count t (out.2.workflows slot).status := by
  obtain ⟨fresh, -, trace_eq⟩ := workflowBegin_fresh started
  rw [← trace_eq]
  obtain ⟨k, stops⟩ := exists_stopsAt steps count (w₁.store ctx)
  rcases Nat.lt_or_eq_of_le stops.le with early | rfl
  · exact fresh.wholeStory_unwound stops early
  · exact fresh.wholeStory_committed stops

theorem workflowRun_wholeStory_tally :
    workflowBegin (Engine.boot 0) (some (tallySteps 2)) 3 0 = some (some 0, tallyBegun 2 3) ∧
      let out := (workflowRun (some 0)).exec (tallyBegun 2 3)
      ∃ t, out.2.trace = [] ++ t ∧
        WholeStory (tallySteps 2) 3 t (out.2.workflows 0).status :=
  ⟨rfl, workflowRun_wholeStory (Engine.boot 0) (tallyBegun 2 3) (tallySteps 2) 3 0 0 rfl⟩

end LughOS.Workflow

import LughOS.Library.Runs
import LughOS.Workflow.Recovery

/-!
# Slot accounting

`status` is the only mark of a free slot, and four calls write it. A run keeps, besides the
engine, the handles that are live and the identifiers that were given out: `workflow_begin`
makes a handle live, `workflow_release` ends it, and `workflow_recover` ends those whose slot
it releases. The releases of a recovery are read off its trace.

The account is that a slot is claimed just if a live handle denotes it. A run may be abandoned
after any of its actions; it keeps its slot claimed all the same, since none of the statuses
that it writes is `WF_STATUS_IDLE`.
-/

namespace LughOS.Workflow

open Interruptible Program

variable {σ : Type}

/-! ## The calls -/

/-- `workflow_active_count`. -/
def workflowActiveCount (w : Engine σ) : Nat :=
  (List.finRange maxActive).countP fun i => decide ((w.workflows i).status ≠ .idle)

inductive Op (σ : Type) where
  | begin (steps : Option (Nat → Step σ)) (count ctx : Nat)
  /-- A run, abandoned after so many actions if a number is given. -/
  | run (slot : SlotId) (cut : Option Nat)
  | recover
  | release (slot : SlotId)

/-- The state after a run, or where it is abandoned. -/
def afterRun (w : Engine σ) (slot : SlotId) : Option Nat → Engine σ
  | none => ((workflowRun (some slot)).exec w).2
  | some n => (workflowRun (some slot)).cut n w

/-- The engine after a call; it stays where it is if the identifier allocator halts. -/
def opStep (w : Engine σ) : Op σ → Engine σ
  | .begin steps count ctx => (workflowBegin w steps count ctx).elim w Prod.snd
  | .run slot cut => afterRun w slot cut
  | .recover => (workflowRecover.exec w).2
  | .release slot => ((workflowRelease slot).exec w).2

/-! ## Handles -/

def Action.release? : Action → Option SlotId
  | .release slot => some slot
  | _ => none

/-- The slots that are released in a trace. -/
def releasesOf (t : List Action) : List SlotId := t.filterMap Action.release?

/-- The engine, the live handles, and the identifiers given out so far. -/
structure Ledger (σ : Type) where
  engine : Engine σ
  live : Finset SlotId
  issued : List (BitVec 64)

def ledgerStep (l : Ledger σ) (op : Op σ) : Ledger σ :=
  let engine := opStep l.engine op
  match op with
  | .begin steps count ctx =>
      match (workflowBegin l.engine steps count ctx).bind Prod.fst with
      | none => { l with engine }
      | some slot =>
          { engine
            live := insert slot l.live
            issued := (engine.workflows slot).workflowId :: l.issued }
  | .run _ _ => { l with engine }
  | .recover =>
      { l with
        engine
        live := l.live \ (releasesOf (engine.trace.drop l.engine.trace.length)).toFinset }
  | .release slot => { l with engine, live := l.live.erase slot }

/-- Calls on a handle are made while it is live. -/
def OnLiveHandle (l : Ledger σ) : Op σ → Prop
  | .run slot _ => slot ∈ l.live
  | .release slot => slot ∈ l.live
  | _ => True

instance (l : Ledger σ) : ∀ op, Decidable (OnLiveHandle l op)
  | .begin _ _ _ => isTrue trivial
  | .run slot _ => inferInstanceAs (Decidable (slot ∈ l.live))
  | .recover => isTrue trivial
  | .release slot => inferInstanceAs (Decidable (slot ∈ l.live))

/-- An engine none of whose slots is claimed. -/
def Ledger.start (w : Engine σ) : Ledger σ := ⟨{ w with workflows := fun _ => idleSlot }, ∅, []⟩

/-! ## The actions of an undo chain -/

/-- The actions that an undo chain is made of are in the relation `R`. -/
structure UnwindsWithin (R : Engine σ → Engine σ → Prop) (slot : SlotId) : Prop where
  emit : ∀ i ev rv, Within R (wfEmit slot i ev rv : Prog σ Unit)
  invoke : ∀ cb i fn, Within R (invoke slot cb i fn)
  setStatus : ∀ status, status ≠ .idle → Within R (setStatus slot status : Prog σ Unit)
  clear : Within R (setDone slot 0 : Prog σ Unit)

namespace UnwindsWithin

variable {R : Engine σ → Engine σ → Prop} {slot : SlotId} (actions : UnwindsWithin R slot)
include actions

theorem wfUnwindLoop (bound r : Nat) (failed : Bool) :
    Within R (wfUnwindLoop slot bound r failed : Prog σ Bool) := by
  induction bound generalizing r failed with
  | zero => exact within_pure _
  | succ bound ih =>
      cases r with
      | zero => exact within_pure _
      | succ r =>
          refine within_bind within_get fun w => ?_
          split
          · exact ih r failed
          · refine within_bind (actions.invoke _ _ _) fun rv => ?_
            split
            · exact within_bind (actions.emit _ _ _) fun _ => ih r true
            · exact within_bind (actions.emit _ _ _) fun _ => ih r failed

theorem wfUnwindFinish (failed : Bool) :
    Within R (wfUnwindFinish slot failed : Prog σ Int) := by
  refine within_bind actions.clear fun _ => ?_
  split
  · exact within_bind (actions.setStatus _ (by decide)) fun _ => within_bind within_get fun _ =>
      within_bind (actions.emit _ _ _) fun _ => within_pure _
  · exact within_bind (actions.setStatus _ (by decide)) fun _ => within_bind within_get fun _ =>
      within_bind (actions.emit _ _ _) fun _ => within_pure _

theorem wfUnwind : Within R (wfUnwind slot : Prog σ Int) :=
  within_bind within_get fun _ => within_bind (actions.setStatus _ (by decide)) fun _ =>
    within_bind (actions.wfUnwindLoop _ _ _) fun _ => actions.wfUnwindFinish _

end UnwindsWithin

/-! ## A run and its slot -/

/-- What an action of a run may change: nothing of the other slots, and of its own slot neither
the identifier nor the number of steps, nor that it is claimed. -/
structure OwnSlot (slot : SlotId) (w w' : Engine σ) : Prop where
  others : ∀ x, x ≠ slot → w'.workflows x = w.workflows x
  nextTxnId : w'.nextTxnId = w.nextTxnId
  workflowId : (w'.workflows slot).workflowId = (w.workflows slot).workflowId
  stepCount : (w'.workflows slot).stepCount = (w.workflows slot).stepCount
  claimed : (w.workflows slot).status ≠ .idle → (w'.workflows slot).status ≠ .idle

theorem OwnSlot.refl (slot : SlotId) (w : Engine σ) : OwnSlot slot w w :=
  ⟨fun _ _ => rfl, rfl, rfl, rfl, id⟩

theorem OwnSlot.trans {slot : SlotId} {a b c : Engine σ} (ab : OwnSlot slot a b)
    (bc : OwnSlot slot b c) : OwnSlot slot a c where
  others := fun x other => (bc.others x other).trans (ab.others x other)
  nextTxnId := bc.nextTxnId.trans ab.nextTxnId
  workflowId := bc.workflowId.trans ab.workflowId
  stepCount := bc.stepCount.trans ab.stepCount
  claimed := fun claimed => bc.claimed (ab.claimed claimed)

section OwnSlot

variable (slot : SlotId)

theorem wfEmit_ownSlot (i : Nat) (ev : Event) (rv : BitVec 32) :
    Within (OwnSlot slot) (wfEmit slot i ev rv : Prog σ Unit) :=
  within_perform fun _ => ⟨fun _ _ => rfl, rfl, rfl, rfl, id⟩

theorem setDone_ownSlot (count : Nat) : Within (OwnSlot slot) (setDone slot count : Prog σ Unit) :=
  within_perform fun w => by
    constructor <;> simp +contextual [Engine.setSlot, Engine.log]

theorem setStatus_ownSlot {status : Status} (claims : status ≠ .idle) :
    Within (OwnSlot slot) (setStatus slot status : Prog σ Unit) :=
  within_perform fun w => by
    constructor <;> simp +contextual [Engine.setSlot, Engine.log, claims]

theorem invoke_ownSlot (cb : Callback) (i : Nat) (fn : WorkflowFn σ) :
    Within (OwnSlot slot) (invoke slot cb i fn) :=
  within_perform fun _ => ⟨fun _ _ => rfl, rfl, rfl, rfl, id⟩

theorem unwindsWithin_ownSlot : UnwindsWithin (OwnSlot slot : Engine σ → Engine σ → Prop) slot where
  emit := wfEmit_ownSlot slot
  invoke := invoke_ownSlot slot
  setStatus := fun _ => setStatus_ownSlot slot
  clear := setDone_ownSlot slot 0

theorem workflowRunLoop_ownSlot (left i : Nat) :
    Within (OwnSlot slot) (workflowRunLoop slot left i : Prog σ Int) := by
  induction left generalizing i with
  | zero =>
      exact within_bind (setStatus_ownSlot slot (by decide)) fun _ =>
        within_bind within_get fun _ => within_bind (wfEmit_ownSlot slot _ _ _) fun _ =>
          within_pure _
  | succ left ih =>
      refine within_bind (wfEmit_ownSlot slot _ _ _) fun _ => within_bind within_get fun w =>
        within_bind (invoke_ownSlot slot _ _ _) fun rv => ?_
      split
      · exact within_bind (wfEmit_ownSlot slot _ _ _) fun _ =>
          within_bind (unwindsWithin_ownSlot slot).wfUnwind fun _ => within_pure _
      · exact within_bind (wfEmit_ownSlot slot _ _ _) fun _ => within_bind within_get fun w =>
          within_bind (setDone_ownSlot slot _) fun _ => ih (i + 1)

theorem workflowRun_ownSlot : Within (OwnSlot slot) (workflowRun (some slot) : Prog σ Int) := by
  refine within_bind within_get fun w => ?_
  split
  · exact within_pure _
  · exact within_bind (wfEmit_ownSlot slot _ _ _) fun _ => workflowRunLoop_ownSlot slot _ _

theorem afterRun_ownSlot (w : Engine σ) (cut : Option Nat) :
    OwnSlot slot w (afterRun w slot cut) := by
  cases cut with
  | none => exact (workflowRun_ownSlot slot).exec (.refl slot) (fun _ _ _ => .trans) w
  | some n => exact (workflowRun_ownSlot slot).cut (.refl slot) (fun _ _ _ => .trans) n w

/-- A run on a slot that is not running does nothing. -/
theorem afterRun_refused {w : Engine σ} (refused : (w.workflows slot).status ≠ .running)
    (cut : Option Nat) : afterRun w slot cut = w := by
  cases cut <;> simp [afterRun, workflowRun, refused]

end OwnSlot

/-! ## Recovery -/

@[simp] theorem releasesOf_append (t t' : List Action) :
    releasesOf (t ++ t') = releasesOf t ++ releasesOf t' :=
  List.filterMap_append

theorem releasesOf_unwindTrace (slot : SlotId) (wf : Slot σ) (bound r : Nat) (s : σ) :
    releasesOf (unwindTrace slot wf bound r s) = [] := by
  induction bound generalizing r s with
  | zero => rfl
  | succ bound ih =>
      cases r with
      | zero => rfl
      | succ r =>
          cases hundo : undoOf wf r with
          | none => simpa [unwindTrace, hundo] using ih r s
          | some undo =>
              simpa [unwindTrace, hundo, releasesOf, Action.release?, wfRecord] using
                ih r (undo s).2

theorem releasesOf_recoverTrace (slot : SlotId) (wf : Slot σ) (s : σ) :
    releasesOf (recoverTrace slot wf s) = [] := by
  have ending : releasesOf (unwindEnd slot wf (unwindFailed wf maxSteps wf.doneCount s)) = [] := by
    unfold unwindEnd
    split <;> rfl
  have chain := releasesOf_unwindTrace slot { wf with status := .rollingBack } maxSteps
    wf.doneCount s
  rw [recoverTrace, releasesOf, List.filterMap_cons]
  simp only [Action.release?]
  rw [← releasesOf, releasesOf_append, chain, ending, List.nil_append]

/-- The visits of some slots: what becomes of each, what is released, and what the scan
returns. -/
structure Recovered (visited : List SlotId) (result : Int) (w : Engine σ)
    (out : Int × Engine σ) : Prop where
  others : ∀ x ∉ visited, out.2.workflows x = w.workflows x
  nextTxnId : out.2.nextTxnId = w.nextTxnId
  live : ∀ x, ¬(w.workflows x).Abandoned → out.2.workflows x = w.workflows x
  ended : ∀ x ∈ visited, (w.workflows x).Abandoned →
    (out.2.workflows x).status = .failed ∨ (out.2.workflows x).status = .idle
  trace : ∃ t, out.2.trace = w.trace ++ t ∧ ∀ x, x ∈ releasesOf t ↔
    x ∈ visited ∧ (w.workflows x).Abandoned ∧ (out.2.workflows x).status = .idle
  result : out.1 = 0 ↔ result = 0 ∧ ∀ x ∈ visited, (w.workflows x).Abandoned →
    (out.2.workflows x).status ≠ .failed

theorem recovered_nil (result : Int) (w : Engine σ) : Recovered [] result w (result, w) where
  others := fun _ _ => rfl
  nextTxnId := rfl
  live := fun _ _ => rfl
  ended := by simp
  trace := ⟨[], by simp [releasesOf]⟩
  result := by simp

theorem recovered_recoverSlot (w : Engine σ) (slot : SlotId) (result : Int) :
    Recovered [slot] result w ((workflowRecoverSlot slot result).exec w) := by
  by_cases lost : (w.workflows slot).Abandoned
  case neg =>
    rw [exec_recoverSlot_skip w slot result lost]
    have idle : ∀ x ∈ [slot], ¬(w.workflows x).Abandoned := by simpa using lost
    refine ⟨fun _ _ => rfl, rfl, fun _ _ => rfl, fun x here gone => absurd gone (idle x here),
      ⟨[], by simp, fun x => ?_⟩, ?_⟩
    · refine iff_of_false (by simp [releasesOf]) fun ⟨here, gone, _⟩ => idle x here gone
    · exact ⟨fun zero => ⟨zero, fun x here gone => absurd gone (idle x here)⟩, And.left⟩
  have kept : ∀ {w' : Engine σ}, (∀ x, x ≠ slot → w'.workflows x = w.workflows x) →
      ∀ x, ¬(w.workflows x).Abandoned → w'.workflows x = w.workflows x := by
    intro w' others x live
    refine others x ?_
    rintro rfl
    exact live lost
  cases table : (w.workflows slot).steps with
  | none =>
      rw [exec_recoverSlot_no_table w slot result lost table]
      have others : ∀ x, x ≠ slot → (w.put slot .failed (w.workflows slot).doneCount
          (w.store (w.workflows slot).ctx) [.setStatus slot .failed]).workflows x =
            w.workflows x := fun x other => put_other _ _ _ _ _ _ other
      refine ⟨fun x other => others x (by simpa using other), rfl, kept others, ?_,
        ⟨_, rfl, fun x => ?_⟩, ?_⟩
      · simp
      · simp +contextual [releasesOf, Action.release?]
      · simp [lost]
  | some steps =>
      rw [exec_recoverSlot_unwind w slot result lost table]
      dsimp only
      have others : ∀ x, x ≠ slot → ∀ st d s t,
          (w.put slot st d s t).workflows x = w.workflows x :=
        fun x other st d s t => put_other _ _ _ _ _ _ other
      split
      · rename_i failed
        refine ⟨fun x other => others x (by simpa using other) .., rfl,
          kept fun x other => others x other .., ?_, ⟨_, rfl, fun x => ?_⟩, ?_⟩
        · simp [failed, unwindStatus]
        · rw [releasesOf_recoverTrace]
          simp +contextual [failed, unwindStatus]
        · simp [lost, failed, unwindStatus]
      · have others' : ∀ x, x ≠ slot → ∀ st d s t,
            (((w.put slot st d s t).setSlot slot idleSlot).log (.release slot)).workflows x =
              w.workflows x := by
          intro x other st d s t
          simpa [Engine.log, Engine.setSlot, other] using others x other st d s t
        refine ⟨fun x other => others' x (by simpa using other) .., rfl,
          kept fun x other => others' x other .., ?_,
          ⟨_, List.append_assoc .., fun x => ?_⟩, ?_⟩
        · simp [Engine.log, Engine.setSlot, idleSlot]
        · rw [releasesOf_append, releasesOf_recoverTrace]
          simp +contextual [releasesOf, Action.release?, Engine.log, Engine.setSlot, idleSlot, lost]
        · simp [Engine.log, Engine.setSlot, idleSlot]

theorem Recovered.trans {l l' : List SlotId} {result : Int} {w : Engine σ}
    {out out' : Int × Engine σ} (first : Recovered l result w out)
    (second : Recovered l' out.1 out.2 out') (disjoint : ∀ x ∈ l', x ∉ l) :
    Recovered (l ++ l') result w out' := by
  -- a slot of the second part is as it was, and one of the first part stays as it is now
  have before : ∀ x ∈ l', out.2.workflows x = w.workflows x := fun x here =>
    first.others x (disjoint x here)
  have after : ∀ x ∈ l, out'.2.workflows x = out.2.workflows x := fun x here =>
    second.others x fun later => disjoint x later here
  obtain ⟨t, trace, released⟩ := first.trace
  obtain ⟨t', trace', released'⟩ := second.trace
  refine ⟨?_, second.nextTxnId.trans first.nextTxnId, ?_, ?_, ⟨t ++ t', ?_, ?_⟩, ?_⟩
  · intro x new
    rw [List.mem_append, not_or] at new
    exact (second.others x new.2).trans (first.others x new.1)
  · intro x live
    have same := first.live x live
    rw [second.live x (by rwa [same]), same]
  · intro x here lost
    rcases List.mem_append.mp here with here | here
    · rw [after x here]
      exact first.ended x here lost
    · rw [← before x here] at lost
      exact second.ended x here lost
  · rw [trace', trace, List.append_assoc]
  · intro x
    rw [releasesOf_append, List.mem_append, released, released', List.mem_append, or_and_right]
    refine or_congr (and_congr_right fun here => ?_) (and_congr_right fun here => ?_)
    · rw [after x here]
    · rw [before x here]
  · rw [second.result, first.result, and_assoc]
    refine and_congr_right fun _ => ?_
    rw [List.forall_mem_append]
    refine and_congr (forall₂_congr fun x here => ?_) (forall₂_congr fun x here => ?_)
    · rw [after x here]
    · rw [before x here]

theorem recovered_recoverLoop (l : List SlotId) (distinct : l.Nodup) (result : Int)
    (w : Engine σ) : Recovered l result w ((workflowRecoverLoop l result).exec w) := by
  induction l generalizing result w with
  | nil => exact recovered_nil result w
  | cons slot l ih =>
      obtain ⟨new, distinct⟩ := List.nodup_cons.mp distinct
      have head := recovered_recoverSlot w slot result
      have tail := ih distinct ((workflowRecoverSlot slot result).exec w).1
        ((workflowRecoverSlot slot result).exec w).2
      have both := head.trans tail fun x here same => new (List.mem_singleton.mp same ▸ here)
      simpa [workflowRecoverLoop] using both

theorem recovered_recover (w : Engine σ) :
    Recovered (List.finRange maxActive) 0 w (workflowRecover.exec w) :=
  recovered_recoverLoop _ (List.nodup_finRange _) 0 w

/-! ## Beginning a workflow -/

/-- The table is refused, or all slots are claimed. -/
def Refused (w : Engine σ) (steps : Option (Nat → Step σ)) (count : Nat) : Prop :=
  (∀ table, steps = some table → accepts table count = false) ∨
    ∀ x, (w.workflows x).status ≠ .idle

/-- The engine in which `slot` has been claimed for a workflow. -/
def Engine.begun (w : Engine σ) (slot : SlotId) (table : Nat → Step σ) (count ctx : Nat) :
    Engine σ :=
  { w with nextTxnId := w.nextTxnId + 1 }.setSlot slot
    (freshSlot w w.nextTxnId table count ctx)

/-- The three outcomes of `workflow_begin`: NULL, the halt of the allocator, a slot. -/
theorem workflowBegin_cases (w : Engine σ) (steps : Option (Nat → Step σ)) (count ctx : Nat) :
    (Refused w steps count ∧ workflowBegin w steps count ctx = some (none, w)) ∨
    (¬Refused w steps count ∧ w.nextTxnId = BitVec.allOnes 64 ∧
      workflowBegin w steps count ctx = none) ∨
    (¬Refused w steps count ∧ w.nextTxnId ≠ BitVec.allOnes 64 ∧
      ∃ slot table, (w.workflows slot).status = .idle ∧
        workflowBegin w steps count ctx = some (some slot, w.begun slot table count ctx)) := by
  cases steps with
  | none => exact .inl ⟨.inl (by simp), rfl⟩
  | some table =>
      by_cases valid : accepts table count = true
      case neg => exact .inl ⟨.inl (by simpa using valid), by simp [workflowBegin, valid]⟩
      cases scan : Table.first? fun i => decide ((w.workflows i).status = .idle) with
      | none =>
          have full : ∀ x, (w.workflows x).status ≠ .idle := by
            simpa using Table.first?_eq_none_iff.mp scan
          exact .inl ⟨.inr full, by simp [workflowBegin, valid, scan]⟩
      | some slot =>
          have free : (w.workflows slot).status = .idle := by
            simpa using Table.first?_holds scan
          have admitted : ¬Refused w (some table) count := by
            rintro (invalid | full)
            · exact absurd valid (by simp [invalid table rfl])
            · exact full slot free
          by_cases last : w.nextTxnId = BitVec.allOnes 64
          · refine .inr (.inl ⟨admitted, last, ?_⟩)
            simp [workflowBegin, valid, scan, generateTransactionId, last]
          · refine .inr (.inr ⟨admitted, last, slot, table, free, ?_⟩)
            have id : generateTransactionId w.nextTxnId = some (w.nextTxnId, w.nextTxnId + 1) :=
              if_neg last
            simp [workflowBegin, valid, scan, id, Engine.begun]

/-! ## The account -/

/-- The live handles are the claimed slots, and the identifiers given out are the ones between
the first and the next. -/
structure Ledger.Balanced (first : BitVec 64) (l : Ledger σ) : Prop where
  claimed : ∀ x, x ∈ l.live ↔ (l.engine.workflows x).status ≠ .idle
  below : ∀ id ∈ l.issued, id.toNat < l.engine.nextTxnId.toNat
  given : first.toNat + l.issued.length = l.engine.nextTxnId.toNat

theorem balanced_start (w : Engine σ) : (Ledger.start w).Balanced w.nextTxnId := by
  constructor <;> simp [Ledger.start, idleSlot]

theorem toNat_succ_of_ne_allOnes {id : BitVec 64} (more : id ≠ BitVec.allOnes 64) :
    (id + 1).toNat = id.toNat + 1 := by
  have small : id.toNat ≠ 2 ^ 64 - 1 := fun last =>
    more (BitVec.eq_of_toNat_eq (by rw [last, BitVec.toNat_allOnes]))
  have one : (1 : BitVec 64).toNat = 1 := rfl
  rw [BitVec.toNat_add, one]
  omega

theorem Ledger.Balanced.begin {first : BitVec 64} {l : Ledger σ} (balanced : l.Balanced first)
    (steps : Option (Nat → Step σ)) (count ctx : Nat) :
    (ledgerStep l (.begin steps count ctx)).Balanced first := by
  rcases workflowBegin_cases l.engine steps count ctx with
    ⟨-, out⟩ | ⟨-, -, out⟩ | ⟨-, more, slot, table, -, out⟩
  · simpa [ledgerStep, opStep, out] using balanced
  · simpa [ledgerStep, opStep, out] using balanced
  have next := toNat_succ_of_ne_allOnes more
  simp only [ledgerStep, opStep, out, Option.elim_some, Option.bind_some]
  constructor
  · intro x
    rcases eq_or_ne x slot with rfl | other
    · simp [Engine.begun, Engine.setSlot, freshSlot]
    · simpa [Engine.begun, Engine.setSlot, other] using balanced.claimed x
  · simp only [Engine.begun, Engine.setSlot, Function.update_self, freshSlot, List.mem_cons,
      forall_eq_or_imp, next]
    exact ⟨Nat.lt_succ_self _, fun id here => Nat.lt_succ_of_lt (balanced.below id here)⟩
  · simp only [Engine.begun, Engine.setSlot, List.length_cons, next, ← balanced.given,
      Nat.add_assoc]

theorem Ledger.Balanced.run {first : BitVec 64} {l : Ledger σ} (balanced : l.Balanced first)
    {slot : SlotId} (live : slot ∈ l.live) (cut : Option Nat) :
    (ledgerStep l (.run slot cut)).Balanced first := by
  have own := afterRun_ownSlot slot l.engine cut
  refine ⟨fun x => ?_, ?_, ?_⟩
  · rcases eq_or_ne x slot with rfl | other
    · exact iff_of_true live (own.claimed ((balanced.claimed x).mp live))
    · change x ∈ l.live ↔ ((afterRun l.engine slot cut).workflows x).status ≠ .idle
      rw [own.others x other]
      exact balanced.claimed x
  · exact fun id here => own.nextTxnId ▸ balanced.below id here
  · exact own.nextTxnId ▸ balanced.given

theorem Ledger.Balanced.recover {first : BitVec 64} {l : Ledger σ}
    (balanced : l.Balanced first) : (ledgerStep l .recover).Balanced first := by
  have visits := recovered_recover l.engine
  obtain ⟨t, trace, released⟩ := visits.trace
  have dropped : (workflowRecover.exec l.engine).2.trace.drop l.engine.trace.length = t := by
    rw [trace, List.drop_left]
  refine ⟨fun x => ?_, ?_, ?_⟩
  · simp only [ledgerStep, opStep, dropped, Finset.mem_sdiff, List.mem_toFinset, released,
      List.mem_finRange, true_and, balanced.claimed x]
    by_cases lost : (l.engine.workflows x).Abandoned
    · have claimed : (l.engine.workflows x).status ≠ .idle := by
        rcases lost with running | rolling <;> simp [*]
      simp [lost, claimed]
    · simp [lost, visits.live x lost]
  · exact fun id here => visits.nextTxnId ▸ balanced.below id here
  · exact visits.nextTxnId ▸ balanced.given

theorem Ledger.Balanced.release {first : BitVec 64} {l : Ledger σ} (balanced : l.Balanced first)
    (slot : SlotId) : (ledgerStep l (.release slot)).Balanced first := by
  refine ⟨fun x => ?_, balanced.below, balanced.given⟩
  rcases eq_or_ne x slot with rfl | other
  · simp [ledgerStep, opStep, workflowRelease, Engine.setSlot, Engine.log, idleSlot]
  · simpa [ledgerStep, opStep, workflowRelease, Engine.setSlot, Engine.log, other] using
      balanced.claimed x

theorem Ledger.Balanced.step {first : BitVec 64} (l : Ledger σ) (op : Op σ)
    (balanced : l.Balanced first) (legal : OnLiveHandle l op) :
    (ledgerStep l op).Balanced first := by
  cases op with
  | begin steps count ctx => exact balanced.begin steps count ctx
  | run slot cut => exact balanced.run legal cut
  | recover => exact balanced.recover
  | release slot => exact balanced.release slot

theorem workflowActiveCount_eq_card {first : BitVec 64} {l : Ledger σ}
    (balanced : l.Balanced first) : workflowActiveCount l.engine = l.live.card := by
  have live : l.live = Finset.univ.filter fun i => (l.engine.workflows i).status ≠ .idle := by
    ext x
    simp [balanced.claimed x]
  rw [live, workflowActiveCount, List.countP_eq_length_filter]
  rfl

/-! ## The laws -/

/-- What `workflow_begin` does, of the identifiers from `first` on. -/
structure BeginLaw (first : BitVec 64) (l : Ledger σ) (steps : Option (Nat → Step σ))
    (count ctx : Nat) : Prop where
  /-- NULL leaves slots and identifiers alone. -/
  refused : Refused l.engine steps count →
    workflowBegin l.engine steps count ctx = some (none, l.engine)
  /-- Only an exhausted allocator keeps a call that is not refused from returning. -/
  halts : workflowBegin l.engine steps count ctx = none ↔
    ¬Refused l.engine steps count ∧ first.toNat + l.issued.length = 2 ^ 64 - 1
  returns : ∀ handle w, workflowBegin l.engine steps count ctx = some (handle, w) →
    (handle = none ↔ Refused l.engine steps count)
  new : ∀ slot w, workflowBegin l.engine steps count ctx = some (some slot, w) →
    slot ∉ l.live ∧ (w.workflows slot).workflowId ∉ l.issued

/-- What `workflow_recover` leaves and returns. -/
structure RecoverLaw (w : Engine σ) : Prop where
  ended : ∀ x, ¬((workflowRecover.exec w).2.workflows x).Abandoned
  result : (workflowRecover.exec w).1 = 0 ↔ ¬∃ x, (w.workflows x).status ≠ .failed ∧
    ((workflowRecover.exec w).2.workflows x).status = .failed

theorem Ledger.Balanced.beginLaw {first : BitVec 64} {l : Ledger σ}
    (balanced : l.Balanced first) (steps : Option (Nat → Step σ)) (count ctx : Nat) :
    BeginLaw first l steps count ctx := by
  have exhausted : l.engine.nextTxnId = BitVec.allOnes 64 ↔
      first.toNat + l.issued.length = 2 ^ 64 - 1 := by
    rw [balanced.given, ← BitVec.toNat_inj, BitVec.toNat_allOnes]
  rcases workflowBegin_cases l.engine steps count ctx with
    ⟨refused, out⟩ | ⟨admitted, last, out⟩ | ⟨admitted, more, slot, table, free, out⟩
  · refine ⟨fun _ => out, ?_, ?_, ?_⟩ <;> simp [out, refused]
  · refine ⟨fun refused => absurd refused admitted, ?_, ?_, ?_⟩
    · exact iff_of_true out ⟨admitted, exhausted.mp last⟩
    · simp [out]
    · simp [out]
  · refine ⟨fun refused => absurd refused admitted, ?_, ?_, ?_⟩
    · exact iff_of_false (by simp [out]) fun ⟨_, last⟩ => more (exhausted.mpr last)
    · rintro handle w eq
      obtain ⟨rfl, -⟩ := Prod.mk.inj (Option.some.inj (out.symm.trans eq))
      simp [admitted]
    · rintro slot' w eq
      obtain ⟨same, rfl⟩ := Prod.mk.inj (Option.some.inj (out.symm.trans eq))
      obtain rfl := Option.some.inj same
      refine ⟨fun live => (balanced.claimed slot).mp live free, fun earlier => ?_⟩
      have below := balanced.below _ earlier
      simp [Engine.begun, Engine.setSlot, freshSlot] at below

theorem recoverLaw (w : Engine σ) : RecoverLaw w := by
  have visits := recovered_recover w
  constructor
  · intro x lost
    by_cases before : (w.workflows x).Abandoned
    · rcases visits.ended x (List.mem_finRange x) before with failed | idle
      · simp [Slot.Abandoned, failed] at lost
      · simp [Slot.Abandoned, idle] at lost
    · exact before (visits.live x before ▸ lost)
  · simp only [visits.result, true_and, List.mem_finRange, forall_const, not_exists, not_and]
    refine forall_congr' fun x => ⟨fun spared alive => ?_, fun spared lost => spared ?_⟩
    · by_cases lost : (w.workflows x).Abandoned
      · exact spared lost
      · rwa [visits.live x lost]
    · rcases lost with running | rolling <;> simp [*]

/-- A failed slot is left alone by every call but its own release. -/
theorem opStep_failed {w : Engine σ} {x : SlotId} (failed : (w.workflows x).status = .failed)
    {op : Op σ} (kept : op ≠ .release x) : (opStep w op).workflows x = w.workflows x := by
  cases op with
  | begin steps count ctx =>
      rcases workflowBegin_cases w steps count ctx with
        ⟨-, out⟩ | ⟨-, -, out⟩ | ⟨-, -, slot, table, free, out⟩
      · simp [opStep, out]
      · simp [opStep, out]
      · have other : x ≠ slot := by
          rintro rfl
          simp [failed] at free
        simp [opStep, out, Engine.begun, Engine.setSlot, other]
  | run slot cut =>
      rcases eq_or_ne x slot with rfl | other
      · rw [opStep, afterRun_refused x (by simp [failed])]
      · exact (afterRun_ownSlot slot w cut).others x other
  | recover =>
      refine (recovered_recover w).live x ?_
      simp [Slot.Abandoned, failed]
  | release slot =>
      have other : x ≠ slot := by
        rintro rfl
        exact kept rfl
      simp [opStep, workflowRelease, Engine.setSlot, Engine.log, other]

theorem failed_until_release {w : Engine σ} {x : SlotId}
    (failed : (w.workflows x).status = .failed) {later : List (Op σ)}
    (kept : .release x ∉ later) : (Runs.after opStep w later).workflows x = w.workflows x := by
  induction later generalizing w with
  | nil => rfl
  | cons op later ih =>
      rw [List.mem_cons, not_or] at kept
      obtain ⟨other, kept⟩ := kept
      have same := opStep_failed failed (Ne.symm other)
      rw [← same] at failed
      exact (ih failed kept).trans same

/-- The account of the slots, after any calls that are made on live handles: each slot is
claimed for one live handle, a failed one until it is released. -/
theorem slots_accounted (w : Engine σ) (ops : List (Op σ))
    (legal : Runs.Meets ledgerStep OnLiveHandle (Ledger.start w) ops) :
    let l := Runs.after ledgerStep (Ledger.start w) ops
    workflowActiveCount l.engine = l.live.card ∧
      (∀ steps count ctx, BeginLaw w.nextTxnId l steps count ctx) ∧
      (∀ x later, (l.engine.workflows x).status = .failed → .release x ∉ later →
        (Runs.after opStep l.engine later).workflows x = l.engine.workflows x) ∧
      RecoverLaw l.engine := by
  have balanced : (Runs.after ledgerStep (Ledger.start w) ops).Balanced w.nextTxnId :=
    Runs.run_invariant (balanced_start w) Ledger.Balanced.step legal
  exact ⟨workflowActiveCount_eq_card balanced, balanced.beginLaw, 
    fun _ _ failed kept => failed_until_release failed kept, recoverLaw _⟩

/-- The counter table with an undo that fails. -/
def stuckSteps (i : Nat) : Step Nat := { tallySteps 1 i with undo := some fun s => (1, s) }

/-- One workflow commits and is released, one ends failed, one is abandoned and recovered. -/
def accountedCalls : List (Op Nat) :=
  [.begin (some (tallySteps 5)) 2 0, .run 0 none, .begin (some stuckSteps) 2 1, .run 1 none,
    .begin (some (tallySteps 5)) 2 2, .run 2 (some 6), .release 0, .recover]

theorem slots_accounted_calls :
    let l := Runs.after ledgerStep (Ledger.start (Engine.boot 0)) accountedCalls
    Runs.Meets ledgerStep OnLiveHandle (Ledger.start (Engine.boot 0)) accountedCalls ∧
      l.live = {1} ∧ workflowActiveCount l.engine = l.live.card ∧
      (l.engine.workflows 1).status = .failed ∧ RecoverLaw l.engine := by
  have legal :
      Runs.Meets ledgerStep OnLiveHandle (Ledger.start (Engine.boot 0)) accountedCalls := by
    decide +kernel
  obtain ⟨count, -, -, recovery⟩ := slots_accounted (Engine.boot 0) accountedCalls legal
  exact ⟨legal, by decide +kernel, count, by decide +kernel, recovery⟩

end LughOS.Workflow

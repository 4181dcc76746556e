import LughOS.Storage.LongNames
import LughOS.Update.Running
import LughOS.Update.Signature

/-!
# The outcome of an update

An update that is `Ready` ends in one of three ways: it finds no transaction id and halts the
machine, it returns 0, or it returns -1. `Ready.outcome` says which, from the state in which
`apply_update` is called: the update succeeds just if each of its steps can, and however it ends
the checkpoint it made is gone, the buffers are bound as before and the workflow slot is free
again.
-/

namespace LughOS.Update

open Bytes Kernel Storage Workflow

/-! ## The setting -/

/-- The memory backend is installed, and the strings, the image and the static arrays that the
update reaches are apart from the tables of the store and admitted by the gate. -/
structure Ready (u : Updater) (tx : UpdateTx) : Prop where
  backend : u.backend = some memoryStorageOps
  wellFormed : u.store.WellFormed
  path : tx.path ≠ 0
  pathOk : (keyAt u.mem tx.path).length < keySize → u.store.KeyOk tx.path
  image : tx.image ≠ 0
  imageGate : 0 < tx.size →
    securityValidateMemoryAccess u.store.regions tx.image tx.size false = true
  imageOutside : u.store.layout.Outside tx.image tx.size
  name : u.store.NameOk tx.checkpoint
  stageOutside : u.store.layout.Outside u.sandboxStage sandboxStageSize
  stageApart : tx.checkpoint + 256 ≤ u.sandboxStage ∨
    u.sandboxStage + sandboxStageSize ≤ tx.checkpoint

/-- The hash of the image is the expected one. -/
def HashMatches (u : Updater) (tx : UpdateTx) : Prop :=
  fnv1a 2166136261#32 (u.mem.read tx.image tx.size) = tx.hash

/-- What the update needs to succeed. -/
structure Succeeds (w : World) (st : UpdateState) : Prop where
  small : st.tx.size ≤ maxUpdateSize
  slot : ∃ i, (w.workflows i).status = .idle
  checkpoint : w.updater.store.CanCheckpoint st.tx.path st.tx.checkpoint
  hash : HashMatches w.updater st.tx
  fits : st.tx.size ≤ sandboxStageSize
  format : validFormat w.updater.mem st.tx.image st.tx.size = true

/-- How an update leaves the system. -/
structure Outcome (w : World) (st : UpdateState) (rv : Int) (st' : UpdateState) (w' : World) :
    Prop where
  code : rv = 0 ∨ rv = -1
  succeeds : rv = 0 ↔ Succeeds w st
  snapshots : w'.updater.store.snapshots = w.updater.store.snapshots ∨
    w'.updater.store.snapshots =
      Function.update w.updater.store.snapshots (keyAt w.updater.mem st.tx.checkpoint) none
  bindings : w'.updater.store.bindings = w.updater.store.bindings
  active : w'.workflowActiveCount = w.workflowActiveCount
  buffers : rv = -1 → ∀ k b, w.updater.store.bindings k = some b →
    w'.updater.mem.read b.data b.size = w.updater.mem.read b.data b.size
  status : rv = -1 → st'.status = .rollback ∨ st'.status = .error

section Steps

variable {w : World} {st : UpdateState} {slot : SlotId} {s : Store}

/-- Releasing the slot that `workflow_begin` took leaves the count as it was. -/
theorem World.released_active (w : World) (u : Updater)
    (free : (w.workflows slot).status = .idle) :
    (World.mk u (w.released slot)).workflowActiveCount = w.workflowActiveCount := by
  unfold workflowActiveCount
  congr 1
  apply Finset.filter_congr
  intro i _
  by_cases here : i = slot
  · subst here
    simp [released, idleSlot, free]
  · simp [released, here]

theorem verifySignature_iff {h : Heap} {image size : Nat} {hash : BitVec 32}
    (gate : 0 < size → securityValidateMemoryAccess h.regions image size false = true) :
    verifySignature h image size hash = true ↔
      0 < size ∧ fnv1a 2166136261#32 (h.mem.read image size) = hash := by
  rcases Nat.eq_zero_or_pos size with rfl | pos
  · simp [verifySignature]
  · rw [verifySignature_readable pos (gate pos), Genuine, and_iff_right (gate pos),
      and_iff_right pos]

theorem validFormat_pos {mem : Mem} {image size : Nat}
    (format : validFormat mem image size = true) : 0 < size := by
  have large : 64 ≤ size := (of_decide_eq_true format).1
  omega

theorem validFormat_congr {mem mem' : Mem} {image size : Nat}
    (same : Mem.EqOn mem' mem image size) :
    validFormat mem' image size = validFormat mem image size := by
  unfold validFormat
  by_cases large : 64 ≤ size
  · rw [same image le_rfl (by omega), same (image + 1) (by omega) (by omega),
      same (image + 2) (by omega) (by omega), same (image + 3) (by omega) (by omega)]
  · simp [large]

theorem sandboxApply_eq {stage image size : Nat} (nonnull : image ≠ 0) :
    sandboxApply s stage image size =
      if size ≤ sandboxStageSize ∧ validFormat s.mem image size = true then
        (true, s.withMem (s.mem.copy stage image size))
      else (false, s) := by
  unfold sandboxApply
  by_cases none : size = 0
  · subst none
    rw [if_pos (.inr rfl), if_neg]
    simp [validFormat]
  · by_cases large : sandboxStageSize < size
    · simp [nonnull, none, large]
    · by_cases format : validFormat s.mem image size = true
      · simp [nonnull, none, large, format, Nat.le_of_not_lt large]
      · simp [nonnull, none, large, format]

theorem stepSandbox_eq {x : Session} {ok : Bool} {store : Store}
    (applies : sandboxApply x.updater.store x.updater.sandboxStage x.state.tx.image
      x.state.tx.size = (ok, store)) :
    stepSandbox x = some (if ok then 0 else -1, (x.setStatus .sandbox).setStore store) := by
  simp only [stepSandbox, Session.setStatus, applies]

/-- The store holds the checkpoint of the update, beside what it held before. -/
structure Holds (w : World) (st : UpdateState) (s : Store) : Prop where
  wellFormed : s.WellFormed
  bindings : s.bindings = w.updater.store.bindings
  snapshots : ∃ bytes, s.snapshots = Function.update w.updater.store.snapshots
    (keyAt w.updater.mem st.tx.checkpoint) (some bytes)
  name : s.KeyOk st.tx.checkpoint
  nameText : keyAt s.mem st.tx.checkpoint = keyAt w.updater.mem st.tx.checkpoint
  layout : s.layout = w.updater.store.layout
  ids : s.nextId.toNat ≤ w.updater.store.nextId.toNat + 2

/-- The store no longer holds it. -/
structure Removed (w : World) (st : UpdateState) (s s' : Store) : Prop where
  bindings : s'.bindings = w.updater.store.bindings
  snapshots : s'.snapshots = Function.update w.updater.store.snapshots
    (keyAt w.updater.mem st.tx.checkpoint) none
  layout : s'.layout = w.updater.store.layout
  contents : s'.contents = s.contents

theorem Holds.remove (holds : Holds w st s) :
    (s.removeCheckpoint st.tx.checkpoint = none ∧ 2 ^ 64 ≤ w.updater.store.nextId.toNat + 3) ∨
      ∃ s', s.removeCheckpoint st.tx.checkpoint = some (0, s') ∧ Removed w st s s' := by
  obtain ⟨bytes, snapshots⟩ := holds.snapshots
  have live : s.snapshots (keyAt s.mem st.tx.checkpoint) ≠ none := by
    rw [snapshots, holds.nameText, Function.update_self]
    exact Option.some_ne_none _
  rcases Store.remove_succeeds holds.wellFormed holds.name live with
    ⟨halted, last⟩ | ⟨s', removed, keeps, erased⟩
  · have ids := holds.ids
    rw [last, BitVec.toNat_allOnes] at ids
    exact .inl ⟨halted, by omega⟩
  · refine .inr ⟨s', removed, keeps.bindings.trans holds.bindings, ?_,
      keeps.fixed.1.trans holds.layout, keeps.contents⟩
    rw [erased, snapshots, holds.nameText, Function.update_idem]

theorem begun_nextId (begins : Begins w st slot) :
    (w.begun st).updater.store.nextId.toNat = w.updater.store.nextId.toNat + 1 := by
  have bound := w.updater.store.nextId.isLt
  have last : w.updater.store.nextId.toNat ≠ 2 ^ 64 - 1 := by
    intro same
    apply begins.id
    apply BitVec.eq_of_toNat_eq
    rw [same, BitVec.toNat_allOnes]
  have one : (w.updater.store.nextId + 1).toNat = (w.updater.store.nextId.toNat + 1) % 2 ^ 64 :=
    BitVec.toNat_add ..
  exact one.trans (Nat.mod_eq_of_lt (by omega))

/-- The first step: what `create_checkpoint` does to the store with the next id. -/
theorem Ready.checkpoint (ready : Ready w.updater st.tx) (begins : Begins w st slot) :
    (¬w.updater.store.CanCheckpoint st.tx.path st.tx.checkpoint ∧
        stepCheckpoint (w.begun st) = some (-1, (w.begun st).setStatus .checkpoint)) ∨
      w.updater.store.CanCheckpoint st.tx.path st.tx.checkpoint ∧
        ((stepCheckpoint (w.begun st) = none ∧ 2 ^ 64 ≤ w.updater.store.nextId.toNat + 3) ∨
          ∃ s, stepCheckpoint (w.begun st) =
              some (0, ((w.begun st).setStatus .checkpoint).setStore s) ∧
            Holds w st s ∧ s.contents = w.updater.store.contents ∧
            s.regions = w.updater.store.regions) := by
  have backend : ((w.begun st).setStatus .checkpoint).updater.backend = some memoryStorageOps :=
    ready.backend
  set s₀ := (w.begun st).updater.store with start
  have wf : s₀.WellFormed := ready.wellFormed.advance _
  have name : s₀.NameOk st.tx.checkpoint :=
    ⟨ready.name.gate, ready.name.outside, ready.name.terminated⟩
  have path : (keyAt s₀.mem st.tx.path).length < keySize → s₀.KeyOk st.tx.path := fun short =>
    have ok := ready.pathOk short
    ⟨ok.nonnull, ok.short, ok.gate, ok.outside⟩
  by_cases can : w.updater.store.CanCheckpoint st.tx.path st.tx.checkpoint
  · have can₀ : s₀.CanCheckpoint st.tx.path st.tx.checkpoint :=
      ⟨can.registered, can.short, can.room⟩
    refine .inr ⟨can, ?_⟩
    rcases Store.create_succeeds wf path name can₀ with
      ⟨halted, last⟩ | ⟨s, bytes, created, keeps, snapshots⟩
    · have ids := begun_nextId begins
      rw [← start, last, BitVec.toNat_allOnes] at ids
      refine .inl ⟨?_, by omega⟩
      simp only [stepCheckpoint, backend]
      exact Option.map_eq_none_iff.mpr halted
    · refine .inr ⟨s, ?_, ⟨keeps.wellFormed, keeps.bindings, ⟨bytes, snapshots⟩, ?_, ?_,
        keeps.fixed.1, ?_⟩, keeps.contents, keeps.fixed.2⟩
      · simp only [stepCheckpoint, backend]
        exact Option.map_eq_some_iff.mpr ⟨_, created, rfl⟩
      · obtain ⟨ok, text⟩ := keeps.nameOk name
        apply ok.keyOk
        rw [text]
        exact can.short
      · have same := Store.eqOn_of_contents keeps.fixed.1 keeps.contents name.outside
        exact (same.mono le_rfl (by unfold keySize; omega)).text_eq
      · have ids := keeps.ids
        rw [start, begun_nextId begins] at ids
        exact ids
  · have cannot₀ : ¬s₀.CanCheckpoint st.tx.path st.tx.checkpoint := fun can₀ =>
      can ⟨can₀.registered, can₀.short, can₀.room⟩
    refine .inl ⟨can, ?_⟩
    have refused := Store.create_refused wf ready.path name cannot₀
    simp only [stepCheckpoint, backend]
    exact Option.map_eq_some_iff.mpr ⟨_, refused, rfl⟩

variable {x : Session} {y : Nat → Option Session} {k : Nat}

theorem minus_one_ne_zero : BitVec.ofInt 32 (-1) ≠ 0 := by decide

/-- A step after the first one fails: the checkpoint is removed again. -/
theorem Holds.unwinds (holds : Holds w st x.updater.store)
    (backend : x.updater.backend = some memoryStorageOps) (tx : x.state.tx = st.tx)
    (begins : Begins w st slot) (advances : Advances y k) (later : 0 < k) (early : k < 5)
    (start : y 0 = some (w.begun st))
    (fails : (updateSteps k).call (y k) = (BitVec.ofInt 32 (-1), some x)) :
    (applyUpdate w st = none ∧ 2 ^ 64 ≤ w.updater.store.nextId.toNat + 3) ∨
      ∃ s', Removed w st x.updater.store s' ∧
        applyUpdate w st = some (-1, (x.setStatus .rollback).state,
          ⟨(x.setStore s').updater, w.released slot⟩) := by
  have undo : undone k (some x) = callback undoRemoveCheckpoint (some x) := if_neg later.ne'
  rcases holds.remove with ⟨halted, last⟩ | ⟨s', removed, gone⟩
  · have halts : undoRemoveCheckpoint x = none := by
      simp only [undoRemoveCheckpoint, backend, tx]
      exact Option.map_eq_none_iff.mpr halted
    rw [callback_halts halts] at undo
    refine .inl ⟨?_, last⟩
    rw [begins.unwinds advances early start fails minus_one_ne_zero (by rw [undo]), undo]
    rfl
  · have returns : undoRemoveCheckpoint x = some (0, x.setStore s') := by
      simp only [undoRemoveCheckpoint, backend, tx]
      exact Option.map_eq_some_iff.mpr ⟨_, removed, rfl⟩
    rw [callback_returns returns] at undo
    refine .inr ⟨s', gone, ?_⟩
    rw [begins.unwinds advances early start fails minus_one_ne_zero (by rw [undo]; rfl), undo]
    rfl

/-- All steps succeed: the checkpoint is removed at the end. -/
theorem Holds.commits (holds : Holds w st x.updater.store)
    (backend : x.updater.backend = some memoryStorageOps) (tx : x.state.tx = st.tx)
    (begins : Begins w st slot) (advances : Advances y updateStepCount)
    (start : y 0 = some (w.begun st)) (ended : y updateStepCount = some x) :
    (applyUpdate w st = none ∧ 2 ^ 64 ≤ w.updater.store.nextId.toNat + 3) ∨
      ∃ s', Removed w st x.updater.store s' ∧
        applyUpdate w st = some (0, (x.setStatus .complete).state,
          ⟨(x.setStore s').updater, w.released slot⟩) := by
  have discard : discardCheckpoint x =
      (x.updater.store.removeCheckpoint st.tx.checkpoint).map Prod.snd := by
    simp only [discardCheckpoint, backend, tx]
    rfl
  have applied := begins.commits advances start
  rw [ended, Option.bind_some, discard] at applied
  rcases holds.remove with ⟨halted, last⟩ | ⟨s', removed, gone⟩
  · refine .inl ⟨?_, last⟩
    rw [applied, halted]
    rfl
  · refine .inr ⟨s', gone, ?_⟩
    rw [applied, removed]
    rfl

/-- Staging the image keeps the checkpoint. -/
theorem Holds.stage (holds : Holds w st s) (ready : Ready w.updater st.tx)
    (fits : st.tx.size ≤ sandboxStageSize) :
    Holds w st (s.withMem (s.mem.copy w.updater.sandboxStage st.tx.image st.tx.size)) := by
  have outside := ready.stageOutside
  have apart := ready.stageApart
  rw [← holds.layout] at outside
  have buffers := outside.1
  have slots := outside.2
  unfold sandboxStageSize at *
  have inBuffers : Mem.EqOn (s.mem.copy w.updater.sandboxStage st.tx.image st.tx.size) s.mem
      s.layout.registeredBuffers 1216 := Mem.copy_eqOn _ _ (by omega)
  have inSlots : Mem.EqOn (s.mem.copy w.updater.sandboxStage st.tx.image st.tx.size) s.mem
      s.layout.checkpointSlots 66688 := Mem.copy_eqOn _ _ (by omega)
  obtain ⟨wf, bindings, snapshots⟩ := holds.wellFormed.withMem inBuffers inSlots
  have text : keyAt (s.mem.copy w.updater.sandboxStage st.tx.image st.tx.size) st.tx.checkpoint =
      keyAt s.mem st.tx.checkpoint :=
    Mem.EqOn.text_eq (Mem.copy_eqOn _ _ (by unfold keySize; omega))
  have name := holds.name
  refine ⟨wf, bindings.trans holds.bindings, ?_, ⟨name.nonnull, ?_, ?_, ?_⟩,
    text.trans holds.nameText, holds.layout, holds.ids⟩
  · rw [snapshots]
    exact holds.snapshots
  · exact text.symm ▸ name.short
  · exact text.symm ▸ name.gate
  · exact text.symm ▸ name.outside

/-- An update that does not get as far as the workflow. -/
theorem Outcome.refused (w : World) (fails : ¬Succeeds w st) :
    Outcome w st (-1) { st with status := .error } w where
  code := .inr rfl
  succeeds := iff_of_false (by decide) fails
  snapshots := .inl rfl
  bindings := rfl
  active := rfl
  buffers := fun _ _ _ _ => rfl
  status := fun _ => .inr rfl

theorem Outcome.rolledBack (wf : w.updater.store.WellFormed) (fails : ¬Succeeds w st)
    (free : (w.workflows slot).status = .idle) {u : Updater} {st' : UpdateState}
    (status : st'.status = .rollback)
    (bindings : u.store.bindings = w.updater.store.bindings)
    (snapshots : u.store.snapshots = w.updater.store.snapshots ∨
      u.store.snapshots =
        Function.update w.updater.store.snapshots (keyAt w.updater.mem st.tx.checkpoint) none)
    (layout : u.store.layout = w.updater.store.layout)
    (contents : u.store.contents = w.updater.store.contents) :
    Outcome w st (-1) st' ⟨u, w.released slot⟩ where
  code := .inr rfl
  succeeds := iff_of_false (by decide) fails
  snapshots := snapshots
  bindings := bindings
  active := w.released_active u free
  buffers := fun _ _ _ bound =>
    (Store.eqOn_of_contents layout contents (wf.admits bound).outside).read_eq
  status := fun _ => .inl status

theorem Outcome.removed (wf : w.updater.store.WellFormed) (fails : ¬Succeeds w st)
    (free : (w.workflows slot).status = .idle) {s' : Store} (gone : Removed w st s s')
    (contents : s.contents = w.updater.store.contents) {u : Updater} (store : u.store = s')
    {st' : UpdateState} (status : st'.status = .rollback) :
    Outcome w st (-1) st' ⟨u, w.released slot⟩ := by
  subst store
  exact .rolledBack wf fails free status gone.bindings (.inr gone.snapshots) gone.layout
    (gone.contents.trans contents)

theorem Outcome.committed (succeeds : Succeeds w st) (free : (w.workflows slot).status = .idle)
    {s' : Store} (gone : Removed w st s s') {u : Updater} (store : u.store = s')
    {st' : UpdateState} : Outcome w st 0 st' ⟨u, w.released slot⟩ where
  code := .inl rfl
  succeeds := iff_of_true rfl succeeds
  snapshots := .inr (store ▸ gone.snapshots)
  bindings := store ▸ gone.bindings
  active := w.released_active u free
  buffers := fun failed => absurd failed (by decide)
  status := fun failed => absurd failed (by decide)

/-- How an update ends whose checkpoint has been made. -/
theorem Ready.checkpointed (ready : Ready w.updater st.tx) (begins : Begins w st slot)
    (can : w.updater.store.CanCheckpoint st.tx.path st.tx.checkpoint)
    (holds : Holds w st s) (contents : s.contents = w.updater.store.contents)
    (regions : s.regions = w.updater.store.regions)
    (ok : stepCheckpoint (w.begun st) =
      some (0, ((w.begun st).setStatus .checkpoint).setStore s)) :
    (applyUpdate w st = none ∧ 2 ^ 64 ≤ w.updater.store.nextId.toNat + 3) ∨
      ∃ rv st' w', applyUpdate w st = some (rv, st', w') ∧ Outcome w st rv st' w' := by
  have free : (w.workflows slot).status = .idle := by
    simpa using Table.first?_holds begins.free
  have image : Mem.EqOn s.mem w.updater.mem st.tx.image st.tx.size :=
    Store.eqOn_of_contents holds.layout contents ready.imageOutside
  -- The context objects behind the first two steps.
  set x₀ := w.begun st with start
  set x₁ := (x₀.setStatus .checkpoint).setStore s with first
  set x₂ := x₁.setStatus .verify with second
  have checkpoint : (updateSteps 0).call (some x₀) = (0, some x₁) := callback_returns ok
  have verifies : stepVerify x₁ =
      some (if verifySignature s.heap st.tx.image st.tx.size st.tx.hash then 0 else -1, x₂) := rfl
  have signature : verifySignature s.heap st.tx.image st.tx.size st.tx.hash = true ↔
      0 < st.tx.size ∧ HashMatches w.updater st.tx := by
    rw [HashMatches, ← image.read_eq]
    apply verifySignature_iff
    intro pos
    have gate := ready.imageGate pos
    rwa [← regions] at gate
  by_cases verified : verifySignature s.heap st.tx.image st.tx.size st.tx.hash = true
  · rw [if_pos verified] at verifies
    have verify : (updateSteps 1).call (some x₁) = (0, some x₂) := callback_returns verifies
    by_cases staged : st.tx.size ≤ sandboxStageSize ∧
        validFormat w.updater.mem st.tx.image st.tx.size = true
    · set s₃ := s.withMem (s.mem.copy w.updater.sandboxStage st.tx.image st.tx.size) with staging
      set x₃ := (x₂.setStatus .sandbox).setStore s₃ with third
      set x₄ := x₃.setStatus .test with fourth
      have applies : sandboxApply s w.updater.sandboxStage st.tx.image st.tx.size = (true, s₃) :=
        (sandboxApply_eq ready.image).trans
          (if_pos ⟨staged.1, (validFormat_congr image).trans staged.2⟩)
      have sandbox : stepSandbox x₂ = some (0, x₃) := stepSandbox_eq (x := x₂) applies
      have test : stepTest x₃ = some (0, x₄) := by
        have passes : runTests st.tx.path = true := decide_eq_true ready.path
        exact congrArg (fun b => some (if b = true then (0 : Int) else -1, x₄)) passes
      have install : stepInstall x₄ = some (0, x₄.setStatus .commit) := by
        have installs : installUpdate st.tx.path st.tx.image st.tx.size = some 0 := by
          have := validFormat_pos staged.2
          exact if_neg (by have := ready.path; have := ready.image; omega)
        exact congrArg (Option.map fun rv => (rv, x₄.setStatus .commit)) installs
      have advances : Advances (fun i => [x₀, x₁, x₂, x₃, x₄, x₄.setStatus .commit][i]?)
          updateStepCount := by
        refine ⟨fun i within => ?_⟩
        unfold updateStepCount at within
        interval_cases i
        · exact checkpoint
        · exact verify
        · exact callback_returns sandbox
        · exact callback_returns test
        · exact callback_returns install
      have succeeds : Succeeds w st := ⟨begins.small, ⟨slot, free⟩, can,
        (signature.mp verified).2, staged.1, staged.2⟩
      rcases Holds.commits (x := x₄.setStatus .commit) (holds.stage ready staged.1) ready.backend
        rfl begins advances rfl rfl with halted | ⟨s', gone, applied⟩
      · exact .inl halted
      · exact .inr ⟨_, _, _, applied, .committed succeeds free gone rfl⟩
    · have applies : sandboxApply s w.updater.sandboxStage st.tx.image st.tx.size = (false, s) :=
        (sandboxApply_eq ready.image).trans (if_neg fun both =>
          staged ⟨both.1, (validFormat_congr image).symm.trans both.2⟩)
      have sandbox : stepSandbox x₂ = some (-1, (x₂.setStatus .sandbox).setStore s) :=
        stepSandbox_eq (x := x₂) applies
      have advances : Advances (fun i => [x₀, x₁, x₂][i]?) 2 := by
        refine ⟨fun i within => ?_⟩
        interval_cases i
        · exact checkpoint
        · exact verify
      have fails : ¬Succeeds w st := fun ok => staged ⟨ok.fits, ok.format⟩
      rcases Holds.unwinds (x := (x₂.setStatus .sandbox).setStore s) holds ready.backend rfl begins
        advances (by decide) (by decide) rfl (callback_returns sandbox) with
        halted | ⟨s', gone, applied⟩
      · exact .inl halted
      · exact .inr ⟨_, _, _, applied, .removed ready.wellFormed fails free gone contents rfl rfl⟩
  · rw [if_neg verified] at verifies
    have advances : Advances (fun i => [x₀, x₁][i]?) 1 := by
      refine ⟨fun i within => ?_⟩
      interval_cases i
      exact checkpoint
    have fails : ¬Succeeds w st := fun ok =>
      verified (signature.mpr ⟨validFormat_pos ok.format, ok.hash⟩)
    rcases Holds.unwinds (x := x₂) holds ready.backend rfl begins advances (by decide) (by decide)
      rfl (callback_returns verifies) with halted | ⟨s', gone, applied⟩
    · exact .inl halted
    · exact .inr ⟨_, _, _, applied, .removed ready.wellFormed fails free gone contents rfl rfl⟩

/-- How an update ends that gets as far as the workflow. -/
theorem Ready.run (ready : Ready w.updater st.tx) (begins : Begins w st slot) :
    (applyUpdate w st = none ∧ 2 ^ 64 ≤ w.updater.store.nextId.toNat + 3) ∨
      ∃ rv st' w', applyUpdate w st = some (rv, st', w') ∧ Outcome w st rv st' w' := by
  have free : (w.workflows slot).status = .idle := by
    simpa using Table.first?_holds begins.free
  set x₀ := w.begun st with start
  rcases ready.checkpoint begins with
    ⟨cannot, fails⟩ | ⟨can, ⟨halts, last⟩ | ⟨s, ok, holds, contents, regions⟩⟩
  · -- no checkpoint: nothing to undo
    have advances : Advances (fun _ => some x₀) 0 := ⟨fun i none => absurd none (Nat.not_lt_zero i)⟩
    have applied := begins.unwinds advances (by decide) rfl (callback_returns fails)
      minus_one_ne_zero rfl
    refine .inr ⟨_, _, _, applied, ?_⟩
    exact .rolledBack ready.wellFormed (fun ok => cannot ok.checkpoint) free rfl rfl (.inl rfl) rfl
      rfl
  · -- the machine halts in the first step
    have advances : Advances (fun i => if i = 0 then some x₀ else none) updateStepCount := by
      refine ⟨fun i within => ?_⟩
      unfold updateStepCount at within
      interval_cases i
      · exact callback_halts halts
      all_goals rfl
    refine .inl ⟨?_, last⟩
    rw [begins.commits advances rfl]
    rfl
  · exact ready.checkpointed begins can holds contents regions ok

theorem Ready.outcome (ready : Ready w.updater st.tx) :
    (applyUpdate w st = none ∧ 2 ^ 64 ≤ w.updater.store.nextId.toNat + 3) ∨
      ∃ rv st' w', applyUpdate w st = some (rv, st', w') ∧ Outcome w st rv st' w' := by
  rcases applyUpdate_cases w st with ⟨why, halted⟩ | ⟨why, refused⟩ | ⟨slot, begins⟩
  · rcases why with null | null | last
    · exact absurd null ready.path
    · exact absurd null ready.image
    · exact .inl ⟨halted, by rw [last, BitVec.toNat_allOnes]; omega⟩
  · refine .inr ⟨_, _, _, refused, .refused w fun ok => ?_⟩
    rcases why with large | full
    · exact absurd ok.small (Nat.not_le.mpr large)
    · exact full ok.slot
  · exact ready.run begins

end Steps

end LughOS.Update

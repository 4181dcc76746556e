import LughOS.Update.Names
import LughOS.Update.Outcome

/-!
# Updates from their initialisation on

An update whose state `init_update_transaction` has just built is ready, so that its outcome can be
read off from what it was built from. The name of its checkpoint is the path with a suffix and the
transaction id, and it has to fit into a key of the store: with a path that is registered and an
image that is good, the update succeeds just if it does.
-/

namespace LughOS.Update

open Bytes Kernel Storage Workflow

/-- What the caller of `init_update_transaction` provides: the memory backend is installed, the
gate admits the path, the image and the buffer for the name, and they lie apart from the tables of
the store and from each other. -/
@[mk_iff]
structure Prepared (u : Updater) (path image size : Nat) : Prop where
  backend : u.backend = some memoryStorageOps
  wellFormed : u.store.WellFormed
  pathOk : (keyAt u.mem path).length < keySize → u.store.KeyOk path
  pathApart : path + ((u.mem.text path 200).length + 1) ≤ u.checkpoint ∨ u.checkpoint + 256 ≤ path
  imageGate : 0 < size → securityValidateMemoryAccess u.store.regions image size false = true
  imageOutside : u.store.layout.Outside image size
  nameGate : securityValidateMemoryAccess u.store.regions u.checkpoint 256 false = true
  nameOutside : u.store.layout.Outside u.checkpoint 256
  stageOutside : u.store.layout.Outside u.sandboxStage sandboxStageSize
  stageApart : u.checkpoint + 256 ≤ u.sandboxStage ∨
    u.sandboxStage + sandboxStageSize ≤ u.checkpoint

section Init

variable {u u' : Updater} {type : UpdateType} {path image size : Nat} {hash : BitVec 32}
  {st : UpdateState}

/-- What `init_update_transaction` leaves in the state and in memory. -/
theorem init_eq (built : initUpdateTransaction u type path image size hash = some (st, u')) :
    path ≠ 0 ∧ image ≠ 0 ∧ st.tx = ⟨path, u.checkpoint, image, size, hash⟩ ∧
      st.transactionId = u.store.nextId ∧ u'.backend = u.backend ∧ u'.checkpoint = u.checkpoint ∧
      u'.sandboxStage = u.sandboxStage ∧ ∃ next, u'.store = { u.store with nextId := next }.withMem
        (u.mem.write u.checkpoint
          (checkpointName (u.mem.text path 200) u.store.nextId ++ [0])) := by
  unfold initUpdateTransaction at built
  split at built
  · cases built
  · next nonnull =>
      obtain ⟨⟨id, next⟩, generated, same⟩ := Option.map_eq_some_iff.mp built
      have taken : id = u.store.nextId := by
        unfold Workflow.generateTransactionId at generated
        split at generated
        · cases generated
        · exact (Prod.mk.inj (Option.some.inj generated)).1.symm
      simp only [Prod.mk.injEq] at same
      obtain ⟨rfl, rfl⟩ := same
      subst taken
      exact ⟨fun null => nonnull (.inl null), fun null => nonnull (.inr null), rfl, rfl, rfl, rfl,
        rfl, next, rfl⟩

/-- The buffer then holds the name. -/
theorem init_name (built : initUpdateTransaction u type path image size hash = some (st, u')) :
    u'.mem.text u.checkpoint 256 = checkpointName (u.mem.text path 200) st.transactionId := by
  obtain ⟨-, -, -, id, -, -, -, next, store⟩ := init_eq built
  have short := checkpointName_fits u.store.nextId (u.mem.text_length_le path 200)
  have nonzero : ∀ c ∈ u.mem.text path 200, c ≠ 0 := by
    intro c member
    obtain ⟨i, inside, rfl⟩ := List.mem_iff_getElem.mp member
    rw [(Mem.text_getElem inside).1]
    exact (Mem.text_getElem inside).2
  rw [Updater.mem, store, id]
  exact Mem.text_write u.mem u.checkpoint (checkpointName_nonzero nonzero) (by omega)

/-- Initialisation writes to its buffer only. -/
theorem init_eqOn (built : initUpdateTransaction u type path image size hash = some (st, u'))
    {a n : Nat} (apart : a + n ≤ u.checkpoint ∨ u.checkpoint + 256 ≤ a) :
    Mem.EqOn u'.mem u.mem a n := by
  obtain ⟨-, -, -, -, -, -, -, next, store⟩ := init_eq built
  have short := checkpointName_fits u.store.nextId (u.mem.text_length_le path 200)
  rw [Updater.mem, store]
  refine Mem.write_eqOn u.mem _ ?_
  rw [List.length_append, List.length_singleton]
  omega

theorem Prepared.keyAt_eq (prepared : Prepared u path image size)
    (built : initUpdateTransaction u type path image size hash = some (st, u')) :
    keyAt u'.mem path = keyAt u.mem path := by
  have text : u'.mem.text path 200 = u.mem.text path 200 := by
    apply Mem.text_congr
    intro i within _
    exact init_eqOn built prepared.pathApart (path + i) (by omega) (by omega)
  rw [keyAt, keyAt, Mem.text_take u'.mem path (n := 200) (by decide), text,
    ← Mem.text_take u.mem path (by decide)]

/-- The tables do not change. -/
theorem Prepared.store_kept (prepared : Prepared u path image size)
    (built : initUpdateTransaction u type path image size hash = some (st, u')) :
    u'.store.WellFormed ∧ u'.store.bindings = u.store.bindings ∧
      u'.store.snapshots = u.store.snapshots ∧
      u'.store.checkpointSlots = u.store.checkpointSlots ∧ u'.store.layout = u.store.layout ∧
      u'.store.regions = u.store.regions := by
  obtain ⟨-, -, -, -, -, -, -, next, store⟩ := init_eq built
  have short := checkpointName_fits u.store.nextId (u.mem.text_length_le path 200)
  have outside : u.store.layout.Outside u.checkpoint
      (checkpointName (u.mem.text path 200) u.store.nextId ++ [0]).length := by
    have buffers := prepared.nameOutside.1
    have slots := prepared.nameOutside.2
    rw [List.length_append, List.length_singleton]
    exact ⟨by omega, by omega⟩
  obtain ⟨wf, bindings, snapshots⟩ := (prepared.wellFormed.advance next).withMem
    (Store.EqOn_write_outside outside).1 (Store.EqOn_write_outside outside).2
  rw [store]
  exact ⟨wf, bindings, snapshots, rfl, rfl, rfl⟩

theorem Prepared.ready (prepared : Prepared u path image size)
    (built : initUpdateTransaction u type path image size hash = some (st, u')) :
    Ready u' st.tx := by
  obtain ⟨pathNonnull, imageNonnull, tx, -, backend, -, stage, -, -⟩ := init_eq built
  obtain ⟨wellFormed, -, -, -, layout, regions⟩ := prepared.store_kept built
  have key := prepared.keyAt_eq built
  have name := init_name built
  rw [tx]
  refine ⟨backend.trans prepared.backend, wellFormed, pathNonnull, ?_, imageNonnull, ?_, ?_,
    ⟨?_, ?_, ?_⟩, ?_, ?_⟩
  · intro length
    obtain ⟨nonnull, short, gate, outside⟩ := prepared.pathOk (key ▸ length)
    rw [Updater.mem, Updater.mem] at key
    rw [← key] at short gate outside
    exact ⟨nonnull, short, regions ▸ gate, layout ▸ outside⟩
  · rw [regions]
    exact prepared.imageGate
  · rw [layout]
    exact prepared.imageOutside
  · rw [regions]
    exact prepared.nameGate
  · rw [layout]
    exact prepared.nameOutside
  · have length := checkpointName_fits st.transactionId (u.mem.text_length_le path 200)
    rw [← Updater.mem, name]
    omega
  · rw [layout, stage]
    exact prepared.stageOutside
  · rw [stage]
    exact prepared.stageApart

/-- A name that is too long for a slot is cut where it is compared, and no slot has it. -/
theorem Prepared.snapshots_name (prepared : Prepared u path image size)
    (built : initUpdateTransaction u type path image size hash = some (st, u'))
    (unused : u'.store.snapshots
      (checkpointName (u.mem.text path 200) st.transactionId) = none) :
    u'.store.snapshots (keyAt u'.mem st.tx.checkpoint) = none := by
  have ready := prepared.ready built
  have name := init_name built
  obtain ⟨-, -, tx, -⟩ := init_eq built
  rw [tx, keyAt]
  by_cases short : (u'.mem.text u.checkpoint 256).length < keySize
  · rwa [Mem.text_take u'.mem u.checkpoint (n := 256) (by decide), List.take_of_length_le short.le,
      name]
  · by_contra live
    obtain ⟨bytes, live⟩ := Option.ne_none_iff_exists'.mp live
    obtain ⟨i, here, -⟩ := ready.wellFormed.slots.distinct.lookup_eq_some_iff.mp live
    have cut := ready.wellFormed.slots.short i _ here
    rw [Mem.text_take u'.mem u.checkpoint (n := 256) (by decide), List.length_take] at cut
    omega

theorem validFormat_iff {mem : Mem} :
    validFormat mem image size = true ↔
      64 ≤ size ∧ mem.read image 4 = [0x7F, 0x45, 0x4C, 0x46] := by
  simp [validFormat, Mem.read, List.range_succ]

/-- What the update needs, in terms of what it was built from. -/
theorem succeeds_iff
    (built : initUpdateTransaction u type path image size hash = some (st, u'))
    (workflows : SlotId → Slot (Option Session)) :
    Succeeds ⟨u', workflows⟩ st ↔
      size ≤ maxUpdateSize ∧ (∃ i, (workflows i).status = .idle) ∧
        u'.store.bindings (keyAt u'.mem path) ≠ none ∧
        (checkpointName (u.mem.text path 200) st.transactionId).length ≤ 63 ∧
        (u'.store.snapshots (keyAt u'.mem st.tx.checkpoint) ≠ none ∨
          ∃ i, (u'.store.checkpointSlots i).inUse = false) ∧
        fnv1a 2166136261#32 (u'.mem.read image size) = hash ∧ 64 ≤ size ∧
        size ≤ sandboxStageSize ∧ u'.mem.read image 4 = [0x7F, 0x45, 0x4C, 0x46] := by
  have name := init_name built
  obtain ⟨-, -, tx, -⟩ := init_eq built
  have free : (∃ i, u'.store.slotKeys i = none) ↔
      ∃ i, (u'.store.checkpointSlots i).inUse = false :=
    exists_congr fun i => keysIn_eq_none_iff
  rw [← name]
  constructor
  · rintro ⟨small, slot, ⟨registered, short, room⟩, hashed, fits, format⟩
    simp only [tx, validFormat_iff] at *
    exact ⟨small, slot, registered, Nat.le_of_lt_succ short, room.imp_right free.mp, hashed,
      format.1, fits, format.2⟩
  · rintro ⟨small, slot, registered, short, room, hashed, large, fits, magic⟩
    refine ⟨?_, slot, ⟨?_, ?_, room.imp_right free.mpr⟩, ?_, ?_, ?_⟩
    all_goals simp only [tx, HashMatches, validFormat_iff]
    · exact small
    · exact registered
    · exact Nat.lt_succ_of_le short
    · exact hashed
    · exact fits
    · exact ⟨large, magic⟩

end Init

/-- A good image for a registered path, with room for the checkpoint and for the workflow. -/
@[mk_iff]
structure Updatable (u : Updater) (workflows : SlotId → Slot (Option Session))
    (path image size : Nat) (hash : BitVec 32) : Prop where
  prepared : Prepared u path image size
  length : (u.mem.text path 200).length ≤ 63
  registered : u.store.bindings (keyAt u.mem path) ≠ none
  imageApart : image + size ≤ u.checkpoint ∨ u.checkpoint + 256 ≤ image
  hash : fnv1a 2166136261#32 (u.mem.read image size) = hash
  large : 64 ≤ size
  fits : size ≤ 65536
  magic : u.mem.read image 4 = [0x7F, 0x45, 0x4C, 0x46]
  checkpointSlot : ∃ i, (u.store.checkpointSlots i).inUse = false
  workflowSlot : ∃ i, (workflows i).status = .idle

namespace Updatable

variable {u : Updater} {workflows : SlotId → Slot (Option Session)} {path image size : Nat}
  {hash : BitVec 32}

theorem path_ne_zero (ok : Updatable u workflows path image size hash) : path ≠ 0 := by
  apply (ok.prepared.pathOk _).nonnull
  have length := ok.length
  rw [keyAt, Mem.text_take u.mem path (n := 200) (by decide), List.length_take, keySize]
  omega

theorem image_ne_zero (ok : Updatable u workflows path image size hash) : image ≠ 0 := by
  have pos : 0 < size := by
    have := ok.large
    omega
  exact ((validate_iff pos).mp (ok.prepared.imageGate pos)).1

end Updatable

/-- An image of 64 bytes with the magic number. -/
def sampleElf : List Byte := [0x7F, 0x45, 0x4C, 0x46] ++ List.replicate 60 0

/-- The calls that register a buffer of two bytes under a path, which is at `0x800100`. -/
def registers (path : List Byte) : List Storage.Op :=
  [.write 0x800100 path, .write 0x800200 sampleElf, .register 0x800100 0x800020 2]

/-- A service with that buffer, and its two static arrays behind the tables of the store. -/
def sampleUpdater (path : List Byte) : Updater where
  store := (Runs.after Storage.next (some (.powerOn sampleMachine sampleLayout))
    (registers path)).getD (.powerOn sampleMachine sampleLayout)
  backend := some memoryStorageOps
  checkpoint := 0x50000
  sandboxStage := 0x60000
  logPath := fun _ => 0

def sampleHash : BitVec 32 := fnv1a 2166136261#32 sampleElf

theorem sampleUpdater_wellFormed (path : List Byte)
    (allowed : Runs.Meets Storage.next AllowedNext (some (.powerOn sampleMachine sampleLayout))
      (registers path)) : (sampleUpdater path).store.WellFormed := by
  have start : (Store.powerOn sampleMachine sampleLayout).WellFormed :=
    Store.powerOn_wellFormed (by decide +kernel)
  rw [sampleUpdater]
  cases ended : Runs.after Storage.next (some (.powerOn sampleMachine sampleLayout))
      (registers path) with
  | none => exact start
  | some s =>
      exact (run_represents (P := fun _ => True) (fun ok => ok) (fun _ _ _ => trivial) start
        (Store.powerOn_represents sampleMachine sampleLayout) trivial allowed ended).1

theorem sampleUpdater_updatable :
    Updatable (sampleUpdater [0x61]) (fun _ => idleSlot) 0x800100 0x800200 64 sampleHash := by
  have prepared : Prepared (sampleUpdater [0x61]) 0x800100 0x800200 64 :=
    (prepared_iff ..).mpr
      ⟨rfl, sampleUpdater_wellFormed [0x61] (by decide +kernel), by decide +kernel⟩
  exact (updatable_iff ..).mpr ⟨prepared, by decide +kernel⟩

/-- The outcome of an update whose state has just been built. It halts the machine if it needs one
of the last transaction ids. Otherwise it returns 0 just if every step can be done, and -1 if not;
the checkpoints, the bindings and the number of active workflows are as before, and an update that
returns -1 has changed no buffer. -/
theorem update_pipeline_outcome (u u' : Updater) (workflows : SlotId → Slot (Option Session))
    (type : UpdateType) (path image size : Nat) (hash : BitVec 32) (st : UpdateState)
    (prepared : Prepared u path image size)
    (built : initUpdateTransaction u type path image size hash = some (st, u'))
    (unused : u'.store.snapshots
      (checkpointName (u.mem.text path 200) st.transactionId) = none) :
    (applyUpdate ⟨u', workflows⟩ st = none ∧ 2 ^ 64 ≤ u'.store.nextId.toNat + 3) ∨
      ∃ rv st' w', applyUpdate ⟨u', workflows⟩ st = some (rv, st', w') ∧
        (rv = 0 ∨ rv = -1) ∧
        (rv = 0 ↔ size ≤ 2 ^ 20 ∧ (∃ i, (workflows i).status = .idle) ∧
          u'.store.bindings (keyAt u'.mem path) ≠ none ∧
          (checkpointName (u.mem.text path 200) st.transactionId).length ≤ 63 ∧
          (∃ i, (u'.store.checkpointSlots i).inUse = false) ∧
          fnv1a 2166136261#32 (u'.mem.read image size) = hash ∧ 64 ≤ size ∧ size ≤ 65536 ∧
          u'.mem.read image 4 = [0x7F, 0x45, 0x4C, 0x46]) ∧
        w'.updater.store.snapshots = u'.store.snapshots ∧
        w'.updater.store.bindings = u'.store.bindings ∧
        w'.workflowActiveCount = (World.mk u' workflows).workflowActiveCount ∧
        (rv = -1 →
          (∀ k b, u'.store.bindings k = some b →
            w'.updater.mem.read b.data b.size = u'.mem.read b.data b.size) ∧
          (st'.status = .rollback ∨ st'.status = .error)) := by
  have gone := prepared.snapshots_name built unused
  rcases (prepared.ready built).outcome (w := ⟨u', workflows⟩) with
    halted | ⟨rv, st', w', applied, outcome⟩
  · exact .inl halted
  · refine .inr ⟨rv, st', w', applied, outcome.code, outcome.succeeds.trans ?_, ?_,
      outcome.bindings, outcome.active, fun failed =>
        ⟨outcome.buffers failed, outcome.status failed⟩⟩
    · rw [succeeds_iff built]
      simp only [gone, ne_eq, not_true_eq_false, false_or]
      rfl
    · rcases outcome.snapshots with same | erased
      · exact same
      · rw [erased, Function.update_eq_self_iff]
        exact gone.symm

theorem update_pipeline_outcome_commits :
    ∃ st u' st' w',
      initUpdateTransaction (sampleUpdater [0x61]) .driver 0x800100 0x800200 64 sampleHash =
          some (st, u') ∧
        applyUpdate ⟨u', fun _ => idleSlot⟩ st = some (0, st', w') ∧
        w'.updater.store.snapshots = u'.store.snapshots := by
  have builds : (initUpdateTransaction (sampleUpdater [0x61]) .driver 0x800100 0x800200 64
      sampleHash).map (fun result => decide (result.2.store.nextId.toNat = 2 ∧
        result.2.store.snapshots (checkpointName ((sampleUpdater [0x61]).mem.text 0x800100 200)
          result.1.transactionId) = none ∧
        result.2.store.bindings (keyAt result.2.mem 0x800100) ≠ none ∧
        (checkpointName ((sampleUpdater [0x61]).mem.text 0x800100 200)
          result.1.transactionId).length ≤ 63 ∧
        (∃ i, (result.2.store.checkpointSlots i).inUse = false) ∧
        fnv1a 2166136261#32 (result.2.mem.read 0x800200 64) = sampleHash ∧
        result.2.mem.read 0x800200 4 = [0x7F, 0x45, 0x4C, 0x46])) = some true := by
    decide +kernel
  obtain ⟨⟨st, u'⟩, built, facts⟩ := Option.map_eq_some_iff.mp builds
  obtain ⟨next, unused, registered, short, free, hashed, magic⟩ := of_decide_eq_true facts
  rcases update_pipeline_outcome _ u' (fun _ => idleSlot) _ _ _ _ _ st
    sampleUpdater_updatable.prepared built unused with
    ⟨-, last⟩ | ⟨rv, st', w', applied, -, succeeds, snapshots, -⟩
  · rw [next] at last
    omega
  · obtain rfl := succeeds.mpr ⟨by decide, ⟨0, rfl⟩, registered, short, free, hashed, by decide,
      by decide, magic⟩
    exact ⟨st, u', st', w', built, applied, snapshots⟩

/-- The updates that succeed. As long as there are transaction ids, the name of the checkpoint
alone decides: the path, the twelve characters of the suffix and the decimal digits of the id have
to be at most 63 characters. -/
theorem path_updatable_iff (u : Updater) (workflows : SlotId → Slot (Option Session))
    (type : UpdateType) (path image size : Nat) (hash : BitVec 32)
    (ok : Updatable u workflows path image size hash) :
    (initUpdateTransaction u type path image size hash = none ∧
        u.store.nextId = BitVec.allOnes 64) ∨
      ∃ st u', initUpdateTransaction u type path image size hash = some (st, u') ∧
        st.transactionId = u.store.nextId ∧
        ((executeUpdate ⟨u', workflows⟩ st = none ∧ 2 ^ 64 ≤ u'.store.nextId.toNat + 3) ∨
          ∃ rv st' w', executeUpdate ⟨u', workflows⟩ st = some (rv, st', w') ∧
            (rv = 0 ↔ (u.mem.text path 200).length + 12 +
              (Nat.log 10 (st.transactionId.toNat % 2 ^ 32) + 1) ≤ 63)) := by
  cases built : initUpdateTransaction u type path image size hash with
  | none =>
      refine .inl ⟨rfl, ?_⟩
      simpa [initUpdateTransaction, ok.path_ne_zero, ok.image_ne_zero,
        Workflow.generateTransactionId] using built
  | some result =>
      obtain ⟨st, u'⟩ := result
      obtain ⟨-, -, -, id, -⟩ := init_eq built
      refine .inr ⟨st, u', rfl, id, ?_⟩
      rcases (ok.prepared.ready built).outcome (w := ⟨u', workflows⟩) with
        halted | ⟨rv, st', w', applied, outcome⟩
      · exact .inl halted
      · refine .inr ⟨rv, st', w', applied, outcome.succeeds.trans ((succeeds_iff built _).trans ?_)⟩
        obtain ⟨-, bindings, -, slots, -, -⟩ := ok.prepared.store_kept built
        have key := ok.prepared.keyAt_eq built
        have same := init_eqOn built ok.imageApart
        have large := ok.large
        have magic : u'.mem.read image 4 = u.mem.read image 4 :=
          (same.mono le_rfl (by omega)).read_eq
        have length := checkpointName_length (u.mem.text path 200) st.transactionId
        rw [bindings, key, slots, same.read_eq, magic]
        constructor
        · rintro ⟨-, -, -, short, -⟩
          omega
        · intro short
          exact ⟨ok.fits.trans (by decide), ok.workflowSlot, ok.registered, by omega,
            .inr ok.checkpointSlot, ok.hash, ok.large, ok.fits, ok.magic⟩

theorem path_updatable_iff_oneCharacter :
    ∃ st u' st' w',
      initUpdateTransaction (sampleUpdater [0x61]) .driver 0x800100 0x800200 64 sampleHash =
          some (st, u') ∧
        executeUpdate ⟨u', fun _ => idleSlot⟩ st = some (0, st', w') := by
  have builds : (initUpdateTransaction (sampleUpdater [0x61]) .driver 0x800100 0x800200 64
      sampleHash).map (fun result => decide (result.2.store.nextId.toNat = 2 ∧
        (result.1.transactionId = 1))) = some true := by
    decide +kernel
  obtain ⟨⟨st, u'⟩, built, facts⟩ := Option.map_eq_some_iff.mp builds
  obtain ⟨next, id⟩ := of_decide_eq_true facts
  rcases path_updatable_iff _ _ .driver _ _ _ _ sampleUpdater_updatable with
    ⟨none, -⟩ | ⟨st₁, u₁, built₁, -, ⟨-, last⟩ | ⟨rv, st', w', executed, succeeds⟩⟩
  · rw [built] at none
    cases none
  · cases built.symm.trans built₁
    rw [next] at last
    omega
  · cases built.symm.trans built₁
    have length : ((sampleUpdater [0x61]).mem.text 0x800100 200).length = 1 := by decide +kernel
    obtain rfl := succeeds.mpr (by rw [length, id]; decide)
    exact ⟨st, u', st', w', built, executed⟩

/-- A path of 51 characters. -/
def longPath : List Byte := List.replicate 51 0x61

/-- What an update of the registered path returns. -/
def updateSample (path : List Byte) : Option Int :=
  (initUpdateTransaction (sampleUpdater path) .driver 0x800100 0x800200 64 sampleHash).bind
    fun result => (executeUpdate ⟨result.2, fun _ => idleSlot⟩ result.1).map Prod.fst

/-- The first update of the path fails: the name of its checkpoint would have 64 characters. -/
theorem path_of_51_characters_fails :
    Updatable (sampleUpdater longPath) (fun _ => idleSlot) 0x800100 0x800200 64 sampleHash ∧
      updateSample longPath = some (-1) := by
  have prepared : Prepared (sampleUpdater longPath) 0x800100 0x800200 64 :=
    (prepared_iff ..).mpr
      ⟨rfl, sampleUpdater_wellFormed longPath (by decide +kernel), by decide +kernel⟩
  exact ⟨(updatable_iff ..).mpr ⟨prepared, by decide +kernel⟩, by decide +kernel⟩

end LughOS.Update

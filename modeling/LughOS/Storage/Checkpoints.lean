import LughOS.Kernel.Connections
import LughOS.Library.Runs
import LughOS.Storage.Tables

/-!
# The checkpoint store is two finite maps

`Catalogue` says what the module is for: a map from names to buffers and a map from names to
snapshots, both of at most sixteen entries, beside the memory of the callers. Its operations are
the calls of `transactions.c` and the stores of the callers to their own memory, in the terms of
these maps.

A store `Represents` a catalogue if its tables hold the two maps and the memory outside the tables
is the catalogue's. `perform_simulates` is the simulation of one call, for keys of at most 63
characters and memory that the gate admits: the call returns the catalogue's answer and the stores
still correspond, a refused call changes nothing, and the only other outcome is the halt of a call
that finds no transaction id left. A snapshot then survives every call that does not name it.
-/

namespace LughOS.Storage

open Bytes Kernel

/-! ## The catalogue -/

structure Catalogue where
  buffers : BoundedMap 16 Key Buffer
  snapshots : BoundedMap 16 Key (List Byte)
  mem : Mem

/-- A call of the module, or a store of a caller to its own memory. -/
inductive Op where
  | register (key data size : Nat)
  | create (src dst : Nat)
  | restore (src dst : Nat)
  | remove (checkpoint : Nat)
  | write (address : Nat) (bytes : List Byte)

open Classical in
/-- What the call returns and does. -/
noncomputable def Catalogue.step (c : Catalogue) : Op → Int × Catalogue
  | .register key data size =>
      if data = 0 ∨ size = 0 ∨ checkpointSize < size then (-1, c)
      else if room : c.buffers.HasRoom (keyAt c.mem key) then
        (0, { c with buffers := c.buffers.insert (keyAt c.mem key) ⟨data, size⟩ room })
      else (-1, c)
  | .create src dst =>
      match c.buffers.get (keyAt c.mem src) with
      | none => (-1, c)
      | some buffer =>
          if room : c.snapshots.HasRoom (keyAt c.mem dst) then
            let bytes := c.mem.read buffer.data buffer.size
            (0, { c with snapshots := c.snapshots.insert (keyAt c.mem dst) bytes room })
          else (-1, c)
  | .restore src dst =>
      match c.snapshots.get (keyAt c.mem src) with
      | none => (-1, c)
      | some bytes =>
          match c.buffers.get (keyAt c.mem dst) with
          | none => (-1, c)
          | some buffer =>
              if buffer.size < bytes.length then (-1, c)
              else (0, { c with mem := c.mem.write buffer.data bytes })
  | .remove checkpoint =>
      match c.snapshots.get (keyAt c.mem checkpoint) with
      | none => (-1, c)
      | some _ => (0, { c with snapshots := c.snapshots.erase (keyAt c.mem checkpoint) })
  | .write address bytes => (0, { c with mem := c.mem.write address bytes })

namespace Store

structure Represents (s : Store) (c : Catalogue) : Prop where
  buffers : c.buffers.get = s.bindings
  snapshots : c.snapshots.get = s.snapshots
  mem : c.mem = s.contents

/-! ## Calls -/

/-- The calls in question: keys that are such strings, buffers that the gate admits, and stores
to memory outside the tables. -/
def Allowed (s : Store) : Op → Prop
  | .register key data size =>
      s.KeyOk key ∧
        (data ≠ 0 → size ≠ 0 → size ≤ checkpointSize → s.layout.Admits s.regions ⟨data, size⟩)
  | .create src dst => s.KeyOk src ∧ s.KeyOk dst
  | .restore src dst => s.KeyOk src ∧ s.KeyOk dst
  | .remove checkpoint => s.KeyOk checkpoint
  | .write address bytes => s.layout.Outside address bytes.length

instance (s : Store) : (op : Op) → Decidable (s.Allowed op)
  | .register _ _ _ => inferInstanceAs (Decidable (_ ∧ _))
  | .create _ _ => inferInstanceAs (Decidable (_ ∧ _))
  | .restore _ _ => inferInstanceAs (Decidable (_ ∧ _))
  | .remove checkpoint => inferInstanceAs (Decidable (s.KeyOk checkpoint))
  | .write address bytes => inferInstanceAs (Decidable (s.layout.Outside address bytes.length))

/-- What an operation returns, and the store behind it; `none` is the halt of
`generate_transaction_id`. -/
def perform (s : Store) : Op → Option (Int × Store)
  | .register key data size => some (s.storageRegisterBuffer key data size)
  | .create src dst => s.createCheckpoint src dst
  | .restore src dst => s.restoreCheckpoint src dst
  | .remove checkpoint => s.removeCheckpoint checkpoint
  | .write address bytes => some (0, s.withMem (s.mem.write address bytes))

/-- The store behind a call and the catalogue behind it. -/
structure Follows (s : Store) (c : Catalogue) (op : Op) (rv : Int) (s' : Store) : Prop where
  reply : rv = (c.step op).1
  wellFormed : s'.WellFormed
  represents : s'.Represents (c.step op).2
  unchanged : rv = -1 → s' = s
  fixed : s'.layout = s.layout ∧ s'.regions = s.regions
  ids : s'.nextId.toNat ≤ s.nextId.toNat + 1

/-- The call does what the catalogue does, or finds no transaction id for it and halts. -/
def Simulates (s : Store) (c : Catalogue) (op : Op) : Prop :=
  (s.perform op = none ∧ s.nextId = BitVec.allOnes 64 ∧ (c.step op).1 = 0) ∨
    ∃ rv s', s.perform op = some (rv, s') ∧ s.Follows c op rv s'

end Store

namespace Store

variable {s s' : Store} {c : Catalogue} {i j : TableIndex} {key data size : Nat}

/-! ## The record of a call -/

section Records

variable {op : Op}

theorem emitTxn_cases (s : Store) (o : BitVec 32) (key value : List Byte) :
    (s.emitTxn o key value = none ∧ s.nextId = BitVec.allOnes 64) ∨
      ∃ machine, machine.heap = s.heap ∧ s.nextId ≠ BitVec.allOnes 64 ∧
        s.emitTxn o key value =
          some { s with machine := machine, nextId := s.nextId + 1 } := by
  unfold emitTxn Workflow.generateTransactionId
  by_cases last : s.nextId = BitVec.allOnes 64
  · rw [if_pos last]
    exact .inl ⟨rfl, last⟩
  · rw [if_neg last]
    refine .inr ⟨_, ?_, last, rfl⟩
    exact congrArg (·.pool.heap) (s.machine.logTransaction_frame _).2.2.1

/-- A record leaves the maps alone. -/
theorem WellFormed.relog (wf : s.WellFormed) (rep : s.Represents c) {machine : Machine}
    (same : machine.heap = s.heap) (next : BitVec 64) :
    ({ s with machine := machine, nextId := next } : Store).WellFormed ∧
      ({ s with machine := machine, nextId := next } : Store).Represents c := by
  set s' : Store := { s with machine := machine, nextId := next } with changed
  have mem : s'.mem = s.mem := congrArg Heap.mem same
  have regions : s'.regions = s.regions := congrArg Heap.regions same
  have bufferKeys : s'.bufferKeys = s.bufferKeys := by
    rw [Store.bufferKeys, mem]
    rfl
  have slotKeys : s'.slotKeys = s.slotKeys := by
    rw [Store.slotKeys, mem]
    rfl
  have snapshotAt : s'.snapshotAt = s.snapshotAt := by
    funext i
    rw [Store.snapshotAt, mem]
    rfl
  refine ⟨⟨regions ▸ wf.writable, bufferKeys ▸ wf.buffers, slotKeys ▸ wf.slots,
    regions ▸ wf.admitted, wf.fits⟩, ⟨?_, ?_, ?_⟩⟩
  · rw [rep.buffers, bindings, bindings, bufferKeys]
    rfl
  · rw [rep.snapshots, snapshots, snapshots, slotKeys, snapshotAt]
  · rw [rep.mem]
    funext x
    rw [contents, contents, mem]

theorem Simulates.refused (wf : s.WellFormed) (rep : s.Represents c)
    (performs : s.perform op = some (-1, s)) (spec : c.step op = (-1, c)) : s.Simulates c op :=
  .inr ⟨-1, s, performs, by rw [spec], wf, by rwa [spec], fun _ => rfl, ⟨rfl, rfl⟩, by omega⟩

theorem Simulates.quiet {d : Catalogue} (wf : s'.WellFormed) (rep : s'.Represents d)
    (performs : s.perform op = some (0, s')) (spec : c.step op = (0, d))
    (fixed : s'.layout = s.layout ∧ s'.regions = s.regions) (id : s'.nextId = s.nextId) :
    s.Simulates c op :=
  .inr ⟨0, s', performs, by rw [spec], wf, by rwa [spec], fun failed => by omega, fixed,
    by rw [id]; omega⟩

/-- A call that writes its record last. -/
theorem Simulates.logged {d : Catalogue} (wf : s'.WellFormed) (rep : s'.Represents d)
    (performs : ∃ o key value, s.perform op = (s'.emitTxn o key value).map fun s => (0, s))
    (spec : c.step op = (0, d)) (fixed : s'.layout = s.layout ∧ s'.regions = s.regions)
    (id : s'.nextId = s.nextId) : s.Simulates c op := by
  obtain ⟨o, key, value, performs⟩ := performs
  rcases emitTxn_cases s' o key value with ⟨halted, last⟩ | ⟨machine, same, more, emitted⟩
  · refine .inl ⟨?_, id ▸ last, by rw [spec]⟩
    rw [performs, halted]
    rfl
  · rw [emitted] at performs
    obtain ⟨wf', rep'⟩ := wf.relog rep same (s'.nextId + 1)
    refine .inr ⟨0, _, performs, by rw [spec], wf', by rwa [spec], fun failed => by omega,
      ⟨fixed.1, (congrArg Heap.regions same).trans fixed.2⟩, ?_⟩
    rw [← id]
    have one : (s'.nextId + 1).toNat = (s'.nextId.toNat + 1) % 2 ^ 64 := BitVec.toNat_add ..
    exact one.trans_le (Nat.mod_le _ _)

end Records

/-! ## One call -/

section Calls

variable {src dst : Nat}

theorem Represents.hasRoom_buffers (rep : s.Represents c) (wf : s.WellFormed) {k : Key} :
    c.buffers.HasRoom k ↔ Table.find? s.bufferKeys k ≠ none ∨ ∃ i, s.bufferKeys i = none := by
  have table : c.buffers = BoundedMap.ofTable wf.buffers.distinct s.bufferAt :=
    BoundedMap.ext (congrFun rep.buffers)
  rw [table]
  exact wf.buffers.distinct.hasRoom_iff

theorem Represents.hasRoom_snapshots (rep : s.Represents c) (wf : s.WellFormed) {k : Key} :
    c.snapshots.HasRoom k ↔ Table.find? s.slotKeys k ≠ none ∨ ∃ i, s.slotKeys i = none := by
  have table : c.snapshots = BoundedMap.ofTable wf.slots.distinct s.snapshotAt :=
    BoundedMap.ext (congrFun rep.snapshots)
  rw [table]
  exact wf.slots.distinct.hasRoom_iff

theorem Represents.keyAt_eq (rep : s.Represents c) (ok : s.KeyOk key) :
    keyAt c.mem key = keyAt s.mem key := by
  rw [rep.mem, ok.keyAt_eq]

theorem register_simulates (wf : s.WellFormed) (rep : s.Represents c)
    (allowed : s.Allowed (.register key data size)) : s.Simulates c (.register key data size) := by
  obtain ⟨ok, gate⟩ := allowed
  have text := rep.keyAt_eq ok
  by_cases invalid : data = 0 ∨ size = 0 ∨ checkpointSize < size
  · refine Simulates.refused wf rep ?_ ?_
    · rw [perform, storageRegisterBuffer, if_pos (.inr invalid)]
    · rw [Catalogue.step, if_pos invalid]
  have admitted := gate (fun null => invalid (.inl null)) (fun none => invalid (.inr (.inl none)))
    (by omega)
  have valid : ¬(key = 0 ∨ data = 0 ∨ size = 0 ∨ checkpointSize < size) :=
    not_or.mpr ⟨ok.nonnull, invalid⟩
  have fits : ¬keySize ≤ (strlen s.heap key).1 := by
    rw [ok.strlen_eq]
    exact Nat.not_le.mpr ok.short
  -- The search for the key, and for a new key the search for a free entry.
  cases found : s.findRegistered key with
  | some i =>
      have search := findRegistered_eq.symm.trans found
      have room : c.buffers.HasRoom (keyAt c.mem key) := by
        rw [text, rep.hasRoom_buffers wf, search]
        exact .inl (Option.some_ne_none i)
      obtain ⟨wf', bound⟩ := wf.rebind (Table.find?_holds search) admitted
      refine Simulates.quiet (d := { c with buffers := c.buffers.insert _ ⟨data, size⟩ room }) wf'
        ⟨?_, rep.snapshots, rep.mem⟩ ?_ ?_ ⟨rfl, rfl⟩ rfl
      · rw [bound, BoundedMap.get_insert, rep.buffers, text]
      · simp only [perform, storageRegisterBuffer, if_neg valid, if_neg fits, found]
      · rw [Catalogue.step, if_neg invalid, dif_pos room]
  | none =>
      have absent := findRegistered_eq.symm.trans found
      cases free : Table.first? fun i => !(s.registeredBuffers i).inUse with
      | none =>
          have full : ¬c.buffers.HasRoom (keyAt c.mem key) := by
            rw [text, rep.hasRoom_buffers wf, absent]
            exact not_or.mpr ⟨fun present => present rfl, first?_free_eq_none_iff.mp free⟩
          refine Simulates.refused wf rep ?_ ?_
          · simp only [perform, storageRegisterBuffer, if_neg valid, if_neg fits, found, free]
          · rw [Catalogue.step, if_neg invalid, dif_neg full]
      | some i =>
          have unused : s.bufferKeys i = none :=
            keysIn_eq_none_iff.mpr (by simpa using Table.first?_holds free)
          have room : c.buffers.HasRoom (keyAt c.mem key) := by
            rw [text, rep.hasRoom_buffers wf]
            exact .inr ⟨i, unused⟩
          obtain ⟨wf', bound, snapshots, contents⟩ := wf.register ok unused absent admitted
          refine Simulates.quiet (d := { c with buffers := c.buffers.insert _ ⟨data, size⟩ room })
            wf' ⟨?_, rep.snapshots.trans snapshots.symm, rep.mem.trans contents.symm⟩ ?_ ?_
            ⟨rfl, rfl⟩ rfl
          · rw [bound, BoundedMap.get_insert, rep.buffers, text]
          · simp only [perform, storageRegisterBuffer, if_neg valid, if_neg fits, found, free]
          · rw [Catalogue.step, if_neg invalid, dif_pos room]

/-- What `acquire_slot` hands out: a slot with the key, whose contents are still to come. -/
structure Acquired (s : Store) (key : Nat) (i : TableIndex) (s' : Store) : Prop where
  wellFormed : s'.WellFormed
  slot : s'.slotKeys i = some (keyAt s.mem key)
  bindings : s'.bindings = s.bindings
  registeredBuffers : s'.registeredBuffers = s.registeredBuffers
  contents : s'.contents = s.contents
  fixed : s'.layout = s.layout ∧ s'.regions = s.regions
  nextId : s'.nextId = s.nextId
  snapshots : ∀ bytes : List Byte,
    Function.update s'.snapshots (keyAt s.mem key) (some bytes) =
      Function.update s.snapshots (keyAt s.mem key) (some bytes)

theorem acquireSlot_some (wf : s.WellFormed) (ok : s.KeyOk key)
    (acquired : s.acquireSlot key = (some i, s')) :
    s.Acquired key i s' ∧
      (Table.find? s.slotKeys (keyAt s.mem key) ≠ none ∨ ∃ i, s.slotKeys i = none) := by
  unfold acquireSlot at acquired
  cases found : s.findSlot key with
  | some j =>
      simp only [found, Prod.mk.injEq, Option.some.injEq] at acquired
      obtain ⟨rfl, rfl⟩ := acquired
      have search := findSlot_eq.symm.trans found
      refine ⟨⟨wf, Table.find?_holds search, rfl, rfl, rfl, ⟨rfl, rfl⟩, rfl, fun _ => rfl⟩, .inl ?_⟩
      rw [search]
      exact Option.some_ne_none _
  | none =>
      have absent := findSlot_eq.symm.trans found
      cases free : Table.first? fun i => !(s.checkpointSlots i).inUse with
      | none => simp [found, free] at acquired
      | some j =>
          have fits : ¬keySize ≤ (strlen s.heap key).1 := by
            rw [ok.strlen_eq]
            exact Nat.not_le.mpr ok.short
          simp only [found, free, if_neg fits, Prod.mk.injEq, Option.some.injEq] at acquired
          obtain ⟨rfl, rfl⟩ := acquired
          have unused : s.slotKeys j = none :=
            keysIn_eq_none_iff.mpr (by simpa using Table.first?_holds free)
          obtain ⟨wf', keys, snapshotAt, bufferKeys, contents⟩ := wf.acquire (i := j) ok absent
          refine ⟨⟨wf', ?_, ?_, rfl, contents, ⟨rfl, rfl⟩, rfl, fun bytes => ?_⟩, .inr ⟨j, unused⟩⟩
          · rw [keys, Function.update_self]
          · rw [Store.bindings, bufferKeys]
            rfl
          · rw [Store.snapshots, keys, snapshotAt,
              ← Function.update_eq_self j s.snapshotAt,
              wf.slots.distinct.lookup_claim unused absent, Function.update_idem]
            rfl

theorem acquireSlot_none (ok : s.KeyOk key) (refused : s.acquireSlot key = (none, s')) :
    s' = s ∧ ¬(Table.find? s.slotKeys (keyAt s.mem key) ≠ none ∨ ∃ i, s.slotKeys i = none) := by
  unfold acquireSlot at refused
  cases found : s.findSlot key with
  | some j => simp [found] at refused
  | none =>
      have absent := findSlot_eq.symm.trans found
      cases free : Table.first? fun i => !(s.checkpointSlots i).inUse with
      | none =>
          simp only [found, free, Prod.mk.injEq, true_and] at refused
          rw [absent]
          exact ⟨refused.symm,
            not_or.mpr ⟨fun present => present rfl, first?_free_eq_none_iff.mp free⟩⟩
      | some j =>
          have fits : ¬keySize ≤ (strlen s.heap key).1 := by
            rw [ok.strlen_eq]
            exact Nat.not_le.mpr ok.short
          simp [found, free, if_neg fits] at refused

theorem create_simulates (wf : s.WellFormed) (rep : s.Represents c)
    (allowed : s.Allowed (.create src dst)) : s.Simulates c (.create src dst) := by
  obtain ⟨okSrc, okDst⟩ := allowed
  have source := rep.keyAt_eq okSrc
  have target := rep.keyAt_eq okDst
  have nonnull : ¬(src = 0 ∨ dst = 0) := not_or.mpr ⟨okSrc.nonnull, okDst.nonnull⟩
  have lookup : c.buffers.get (keyAt c.mem src) = (s.findRegistered src).map s.bufferAt := by
    rw [rep.buffers, source, findRegistered_eq]
    rfl
  cases found : s.findRegistered src with
  | none =>
      rw [found] at lookup
      refine Simulates.refused wf rep ?_ ?_
      · simp only [perform, createCheckpoint, if_neg nonnull, found]
      · rw [Catalogue.step, lookup]
        rfl
  | some b =>
      rw [found] at lookup
      have used : (s.registeredBuffers b).inUse = true := by
        have := Table.first?_holds found
        simp only [Bool.and_eq_true] at this
        exact this.1
      obtain ⟨slot, s₁, acquired⟩ : ∃ slot s₁, s.acquireSlot dst = (slot, s₁) := ⟨_, _, rfl⟩
      cases slot with
      | none =>
          obtain ⟨rfl, full⟩ := acquireSlot_none okDst acquired
          rw [← rep.hasRoom_snapshots wf, ← target] at full
          refine Simulates.refused wf rep ?_ ?_
          · simp only [perform, createCheckpoint, if_neg nonnull, found, acquired]
          · rw [Catalogue.step, lookup]
            exact dif_neg full
      | some i =>
          obtain ⟨got, free⟩ := acquireSlot_some wf okDst acquired
          have room : c.snapshots.HasRoom (keyAt c.mem dst) := by
            rw [target]
            exact (rep.hasRoom_snapshots wf).mpr free
          have buffer : s₁.bufferAt b = s.bufferAt b := by
            rw [bufferAt, bufferAt, got.registeredBuffers]
          have admitted := got.wellFormed.admitted b (got.registeredBuffers ▸ used)
          obtain ⟨wf', bindings, snapshots, contents⟩ := got.wellFormed.fill got.slot admitted
          have bytes : s₁.mem.read (s₁.bufferAt b).data (s₁.bufferAt b).size =
              c.mem.read (s.bufferAt b).data (s.bufferAt b).size := by
            rw [← (contents_eqOn admitted.outside).read_eq, got.contents, rep.mem, buffer]
          let taken := c.mem.read (s.bufferAt b).data (s.bufferAt b).size
          refine Simulates.logged (d := { c with snapshots := c.snapshots.insert _ taken room }) wf'
            ⟨?_, ?_, ?_⟩ ?_ ?_ got.fixed got.nextId
          · rw [bindings, got.bindings]
            exact rep.buffers
          · rw [snapshots, got.snapshots, BoundedMap.get_insert, rep.snapshots, target, bytes]
          · rw [contents, got.contents]
            exact rep.mem
          · simp only [perform, createCheckpoint, if_neg nonnull, found, acquired]
            exact ⟨_, _, _, rfl⟩
          · rw [Catalogue.step, lookup]
            exact dif_pos room

theorem restore_simulates (wf : s.WellFormed) (rep : s.Represents c)
    (allowed : s.Allowed (.restore src dst)) : s.Simulates c (.restore src dst) := by
  obtain ⟨okSrc, okDst⟩ := allowed
  have nonnull : ¬(src = 0 ∨ dst = 0) := not_or.mpr ⟨okSrc.nonnull, okDst.nonnull⟩
  have snapshot : c.snapshots.get (keyAt c.mem src) = (s.findSlot src).map s.snapshotAt := by
    rw [rep.snapshots, rep.keyAt_eq okSrc, findSlot_eq]
    rfl
  have lookup : c.buffers.get (keyAt c.mem dst) = (s.findRegistered dst).map s.bufferAt := by
    rw [rep.buffers, rep.keyAt_eq okDst, findRegistered_eq]
    rfl
  cases slot : s.findSlot src with
  | none =>
      rw [slot] at snapshot
      refine Simulates.refused wf rep ?_ ?_
      · simp only [perform, restoreCheckpoint, if_neg nonnull, slot]
      · rw [Catalogue.step, snapshot]
        rfl
  | some i =>
      rw [slot] at snapshot
      cases found : s.findRegistered dst with
      | none =>
          rw [found] at lookup
          refine Simulates.refused wf rep ?_ ?_
          · simp only [perform, restoreCheckpoint, if_neg nonnull, slot, found]
          · rw [Catalogue.step, snapshot, lookup]
            rfl
      | some b =>
          rw [found] at lookup
          have length : (s.snapshotAt i).length = (s.checkpointSlots i).size := by simp [snapshotAt]
          by_cases large : (s.registeredBuffers b).size < (s.checkpointSlots i).size
          · refine Simulates.refused wf rep ?_ ?_
            · simp only [perform, restoreCheckpoint, if_neg nonnull, slot, found, if_pos large]
            · rw [Catalogue.step, snapshot, lookup]
              exact if_pos (length ▸ large)
          · have used : (s.registeredBuffers b).inUse = true := by
              have := Table.first?_holds found
              simp only [Bool.and_eq_true] at this
              exact this.1
            have admitted := wf.admitted b used
            have bounds := s.slotKey_bounds i
            have fits := wf.fits i
            have outside := admitted.outside
            have data : s.slotData i = s.slotKey i + 64 := rfl
            simp only [checkpointSize, Layout.Outside, bufferAt] at fits outside
            have part : s.layout.Outside (s.registeredBuffers b).data (s.snapshotAt i).length := by
              rw [length]
              exact ⟨by omega, by omega⟩
            have copies : memcpy s.heap (s.registeredBuffers b).data (s.slotData i)
                (s.checkpointSlots i).size =
                  s.mem.write (s.registeredBuffers b).data (s.snapshotAt i) := by
              refine (memcpy_eq (fun pos => ?_) fun pos => ?_).trans
                (Mem.copy_eq_write s.mem _ _ (by omega))
              · exact validate_part admitted.gate pos le_rfl (by simp only [bufferAt]; omega)
              · exact validate_read (wf.slot_writable (i := i) pos (by omega) (by omega)) pos
            obtain ⟨wf', bindings, snapshots⟩ :=
              wf.withMem (EqOn_write_outside part).1 (EqOn_write_outside part).2
            refine Simulates.logged
              (d := { c with mem := c.mem.write (s.bufferAt b).data (s.snapshotAt i) })
              wf'
              ⟨rep.buffers.trans bindings.symm, rep.snapshots.trans snapshots.symm, ?_⟩
              ?_ ?_ ⟨rfl, rfl⟩ rfl
            · rw [contents_write part, ← rep.mem]
              rfl
            · simp only [perform, restoreCheckpoint, if_neg nonnull, slot, found, if_neg large,
                copies]
              exact ⟨_, _, _, rfl⟩
            · rw [Catalogue.step, snapshot, lookup]
              exact if_neg (length ▸ large)

theorem remove_simulates (wf : s.WellFormed) (rep : s.Represents c)
    (allowed : s.Allowed (.remove key)) : s.Simulates c (.remove key) := by
  have ok : s.KeyOk key := allowed
  have snapshot : c.snapshots.get (keyAt c.mem key) = (s.findSlot key).map s.snapshotAt := by
    rw [rep.snapshots, rep.keyAt_eq ok, findSlot_eq]
    rfl
  cases slot : s.findSlot key with
  | none =>
      rw [slot] at snapshot
      refine Simulates.refused wf rep ?_ ?_
      · simp only [perform, removeCheckpoint, if_neg ok.nonnull, slot]
      · rw [Catalogue.step, snapshot]
        rfl
  | some i =>
      rw [slot] at snapshot
      obtain ⟨wf', snapshots⟩ := wf.release (Table.find?_holds (findSlot_eq.symm.trans slot))
      refine Simulates.logged
        (d := { c with snapshots := c.snapshots.erase (keyAt c.mem key) }) wf'
        ⟨rep.buffers, ?_, rep.mem⟩ ?_ ?_ ⟨rfl, rfl⟩ rfl
      · rw [snapshots, BoundedMap.get_erase, rep.snapshots, rep.keyAt_eq ok]
      · simp only [perform, removeCheckpoint, if_neg ok.nonnull, slot]
        exact ⟨_, _, _, rfl⟩
      · rw [Catalogue.step, snapshot]
        rfl

/-- One operation of the store is one of the catalogue. -/
theorem perform_simulates (wf : s.WellFormed) (rep : s.Represents c) {op : Op}
    (allowed : s.Allowed op) : s.Simulates c op := by
  cases op with
  | register key data size => exact register_simulates wf rep allowed
  | create src dst => exact create_simulates wf rep allowed
  | restore src dst => exact restore_simulates wf rep allowed
  | remove checkpoint => exact remove_simulates wf rep allowed
  | write address bytes =>
      have outside : s.layout.Outside address bytes.length := allowed
      obtain ⟨wf', bindings, snapshots⟩ :=
        wf.withMem (EqOn_write_outside outside).1 (EqOn_write_outside outside).2
      refine Simulates.quiet (d := { c with mem := c.mem.write address bytes }) wf'
        ⟨rep.buffers.trans bindings.symm, rep.snapshots.trans snapshots.symm, ?_⟩ rfl rfl ⟨rfl, rfl⟩
        rfl
      rw [contents_write outside, ← rep.mem]

end Calls

end Store

/-! ## Runs -/

/-- One operation after the others; after a halt there is none. -/
def next (s : Option Store) (op : Op) : Option Store :=
  s.bind fun s => (s.perform op).map Prod.snd

/-- The operation is allowed where it is performed. -/
def AllowedNext : Option Store → Op → Prop
  | none, _ => True
  | some s, op => s.Allowed op

instance : (s : Option Store) → (op : Op) → Decidable (AllowedNext s op)
  | none, _ => isTrue trivial
  | some s, op => inferInstanceAs (Decidable (s.Allowed op))

/-- The call makes or removes the checkpoint `d`. -/
def Op.Touches (mem : Mem) (d : Key) : Op → Prop
  | .create _ dst => keyAt mem dst = d
  | .remove checkpoint => keyAt mem checkpoint = d
  | _ => False

/-- The operation is allowed, and does not make or remove the checkpoint `d`. -/
def Spares (d : Key) : Option Store → Op → Prop
  | none, _ => True
  | some s, op => s.Allowed op ∧ ¬op.Touches s.mem d

/-- The statics as the loader leaves them. -/
def Store.powerOn (machine : Machine) (layout : Layout) : Store where
  machine := machine
  layout := layout
  registeredBuffers := fun _ => ⟨0, 0, false⟩
  checkpointSlots := fun _ => ⟨0, false⟩
  nextId := 1

def Catalogue.initial (mem : Mem) : Catalogue := ⟨.empty, .empty, mem⟩

noncomputable def Catalogue.next (c : Catalogue) (op : Op) : Catalogue := (c.step op).2

variable {s t : Store} {c : Catalogue} {ops : List Op}

theorem Store.powerOn_wellFormed {machine : Machine} {layout : Layout}
    (writable : layout.Writable machine.heap.regions) : (powerOn machine layout).WellFormed where
  writable := writable
  buffers := ⟨fun _ _ _ here => (nomatch here), fun _ _ here => (nomatch here)⟩
  slots := ⟨fun _ _ _ here => (nomatch here), fun _ _ here => (nomatch here)⟩
  admitted := fun _ used => nomatch used
  fits := fun _ => Nat.zero_le _

theorem Store.powerOn_represents (machine : Machine) (layout : Layout) :
    (powerOn machine layout).Represents (.initial (powerOn machine layout).contents) where
  buffers := by
    funext k
    have : Table.find? (powerOn machine layout).bufferKeys k = none := by
      apply Table.find?_eq_none_iff.mpr
      intro i here
      cases here
    rw [bindings, Table.lookup, this]
    rfl
  snapshots := by
    funext k
    have : Table.find? (powerOn machine layout).slotKeys k = none := by
      apply Table.find?_eq_none_iff.mpr
      intro i here
      cases here
    rw [snapshots, Table.lookup, this]
    rfl
  mem := rfl

theorem after_halt (ops : List Op) : Runs.after next none ops = none := by
  induction ops with
  | nil => rfl
  | cons op ops ih => exact ih

/-- A run of the store is a run of the catalogue, with whatever its operations keep of the
catalogue. -/
theorem run_represents {ok : Option Store → Op → Prop} {P : Catalogue → Prop}
    (allowed : ∀ {s op}, ok (some s) op → s.Allowed op)
    (keeps : ∀ {s c op}, Store.Represents s c → ok (some s) op → P c → P (c.step op).2)
    (wf : s.WellFormed) (rep : s.Represents c) (holds : P c)
    (run : Runs.Meets next ok (some s) ops) (ended : Runs.after next (some s) ops = some t) :
    t.WellFormed ∧ t.Represents (Runs.after Catalogue.next c ops) ∧
      P (Runs.after Catalogue.next c ops) := by
  induction ops generalizing s c with
  | nil =>
      cases ended
      exact ⟨wf, rep, holds⟩
  | cons op ops ih =>
      obtain ⟨first, rest⟩ := run
      rcases Store.perform_simulates wf rep (allowed first) with
        ⟨halted, -, -⟩ | ⟨rv, s', performs, follows⟩
      · have stops : next (some s) op = none := by simp [next, halted]
        rw [Runs.after, List.foldl_cons, stops, ← Runs.after, after_halt] at ended
        cases ended
      · have goes : next (some s) op = some s' := by simp [next, performs]
        rw [goes] at rest
        rw [Runs.after, List.foldl_cons, goes] at ended
        exact ih follows.wellFormed follows.represents (keeps rep first holds) rest ended

/-- Only a call that names a snapshot changes it. -/
theorem Catalogue.step_snapshot {d : Key} {op : Op} (untouched : ¬op.Touches c.mem d) :
    (c.step op).2.snapshots.get d = c.snapshots.get d := by
  cases op with
  | register key data size =>
      simp only [step]
      split
      · rfl
      · split <;> rfl
  | create src dst =>
      simp only [step]
      split
      · rfl
      · split
        · rw [BoundedMap.get_insert]
          exact Function.update_of_ne (Ne.symm untouched) ..
        · rfl
  | restore src dst =>
      simp only [step]
      split
      · rfl
      · split
        · rfl
        · split <;> rfl
  | remove checkpoint =>
      simp only [step]
      split
      · rfl
      · rw [BoundedMap.get_erase]
        exact Function.update_of_ne (Ne.symm untouched) ..
  | write address bytes => rfl

theorem Catalogue.create_ok {src dst : Nat} (ok : (c.step (.create src dst)).1 = 0) :
    ∃ b, c.buffers.get (keyAt c.mem src) = some b ∧
      (c.step (.create src dst)).2.snapshots.get (keyAt c.mem dst) =
        some (c.mem.read b.data b.size) := by
  simp only [step] at ok ⊢
  cases bound : c.buffers.get (keyAt c.mem src) with
  | none => simp [bound] at ok
  | some b =>
      refine ⟨b, rfl, ?_⟩
      by_cases room : c.snapshots.HasRoom (keyAt c.mem dst)
      · simp only [dif_pos room, BoundedMap.get_insert, Function.update_self]
      · simp [bound, room] at ok

/-- A live checkpoint is restored to every buffer that is large enough. -/
theorem Catalogue.restore_live {src : Nat} (dst : Nat) {bytes : List Byte}
    (live : c.snapshots.get (keyAt c.mem src) = some bytes) :
    ((c.step (.restore src dst)).1 = 0 ↔
        ∃ b, c.buffers.get (keyAt c.mem dst) = some b ∧ bytes.length ≤ b.size) ∧
      ∀ b, (c.step (.restore src dst)).1 = 0 → c.buffers.get (keyAt c.mem dst) = some b →
        (c.step (.restore src dst)).2 = { c with mem := c.mem.write b.data bytes } := by
  simp only [step, live]
  cases bound : c.buffers.get (keyAt c.mem dst) with
  | none => simp
  | some b =>
      by_cases small : b.size < bytes.length
      · simp [small]
      · simp [small, Nat.le_of_not_lt small]

theorem Store.WellFormed.admits (wf : s.WellFormed) {k : Key} {b : Buffer}
    (bound : s.bindings k = some b) : s.layout.Admits s.regions b := by
  obtain ⟨i, here, rfl⟩ := wf.buffers.distinct.lookup_eq_some_iff.mp bound
  apply wf.admitted
  by_contra unused
  rw [Store.bufferKeys, keysIn, if_neg unused] at here
  cases here

/-- An operation that spares a checkpoint keeps its snapshot. -/
theorem Spares.keeps {d : Key} {op : Op} {v : Option (List Byte)} (rep : s.Represents c)
    (spares : Spares d (some s) op) (holds : c.snapshots.get d = v) :
    (c.step op).2.snapshots.get d = v := by
  obtain ⟨allowed, untouched⟩ := spares
  refine (Catalogue.step_snapshot fun touches => untouched ?_).trans holds
  -- The catalogue reads the key of the call as the store does.
  cases op with
  | create src dst => exact (rep.keyAt_eq allowed.2).symm.trans touches
  | remove checkpoint => exact (rep.keyAt_eq allowed).symm.trans touches
  | register key data size => exact touches
  | restore src dst => exact touches
  | write address bytes => exact touches

/-- A checkpoint that `create_checkpoint` has just made keeps the bytes of its buffer through all
operations that spare it, and `restore_checkpoint` brings them back to every buffer that is large
enough for them. -/
def KeepsSnapshots (s : Store) : Prop :=
  ∀ src dst s₁, s.Allowed (.create src dst) → s.createCheckpoint src dst = some (0, s₁) →
    ∃ b, s.bindings (keyAt s.mem src) = some b ∧
      ∀ later s₂, Runs.Meets next (Spares (keyAt s.mem dst)) (some s₁) later →
        Runs.after next (some s₁) later = some s₂ →
        ∀ src' dst' rv s₃, s₂.Allowed (.restore src' dst') →
          keyAt s₂.mem src' = keyAt s.mem dst →
          s₂.restoreCheckpoint src' dst' = some (rv, s₃) →
          (rv = 0 ↔ ∃ b', s₂.bindings (keyAt s₂.mem dst') = some b' ∧ b.size ≤ b'.size) ∧
            ∀ b', rv = 0 → s₂.bindings (keyAt s₂.mem dst') = some b' →
              s₃.mem.read b'.data b.size = s.mem.read b.data b.size

theorem Store.Simulates.follows {op : Op} {rv : Int} {s' : Store} (simulates : s.Simulates c op)
    (returned : s.perform op = some (rv, s')) : s.Follows c op rv s' := by
  rcases simulates with ⟨halted, -, -⟩ | ⟨rv', s'', performs, follows⟩
  · rw [returned] at halted
    cases halted
  · rw [returned, Option.some.injEq, Prod.mk.injEq] at performs
    obtain ⟨rfl, rfl⟩ := performs
    exact follows

/-- What `restore_checkpoint` does with a live checkpoint. -/
theorem restore_live {src dst : Nat} {rv : Int} {s' : Store} {bytes : List Byte}
    (wf : s.WellFormed) (rep : s.Represents c) (allowed : s.Allowed (.restore src dst))
    (live : c.snapshots.get (keyAt s.mem src) = some bytes)
    (returned : s.restoreCheckpoint src dst = some (rv, s')) :
    (rv = 0 ↔ ∃ b, s.bindings (keyAt s.mem dst) = some b ∧ bytes.length ≤ b.size) ∧
      ∀ b, rv = 0 → s.bindings (keyAt s.mem dst) = some b →
        s'.mem.read b.data bytes.length = bytes := by
  have follows := (Store.perform_simulates wf rep allowed).follows returned
  rw [← rep.keyAt_eq allowed.1] at live
  obtain ⟨reply, writes⟩ := Catalogue.restore_live dst live
  have buffer : c.buffers.get (keyAt c.mem dst) = s.bindings (keyAt s.mem dst) := by
    rw [rep.keyAt_eq allowed.2, rep.buffers]
  rw [← follows.reply, buffer] at reply writes
  refine ⟨reply, fun b ok bound => ?_⟩
  have after := writes b ok bound
  have represents := follows.represents
  rw [after] at represents
  -- The binding is still there, so the bytes lie outside the tables of the new store too.
  have admits : s'.layout.Admits s'.regions b := by
    apply follows.wellFormed.admits (k := keyAt c.mem dst)
    rw [← represents.buffers, buffer]
    exact bound
  obtain ⟨b', bound', large⟩ := reply.mp ok
  obtain rfl : b = b' := Option.some.inj (bound.symm.trans bound')
  have visible := (Store.contents_eqOn admits.outside).mono le_rfl (Nat.add_le_add_left large _)
  rw [← visible.read_eq, ← represents.mem]
  exact Mem.read_write c.mem b.data bytes

theorem keepsSnapshots (wf : s.WellFormed) (rep : s.Represents c) : KeepsSnapshots s := by
  intro src dst s₁ allowed created
  have follows := (Store.perform_simulates wf rep allowed).follows created
  obtain ⟨b, bound, taken⟩ := Catalogue.create_ok follows.reply.symm
  rw [rep.keyAt_eq allowed.1, rep.buffers] at bound
  rw [rep.keyAt_eq allowed.2] at taken
  have bytes : c.mem.read b.data b.size = s.mem.read b.data b.size := by
    rw [rep.mem]
    exact (Store.contents_eqOn (wf.admits bound).outside).read_eq
  refine ⟨b, bound, ?_⟩
  intro later s₂ run ended src' dst' rv s₃ allowed' same restored
  obtain ⟨wf₂, rep₂, live⟩ := run_represents (P := fun c => c.snapshots.get _ = _) (fun ok => ok.1)
    Spares.keeps follows.wellFormed follows.represents taken run ended
  rw [← same, bytes] at live
  have restores := restore_live wf₂ rep₂ allowed' live restored
  rwa [Mem.read_length] at restores

/-- The checkpoint store is two finite maps of capacity 16. After every run of allowed calls and
stores from power-on, the store holds the catalogue that the same run leads to, its keys are
distinct, the next call does what it does in the catalogue, and checkpoints keep their bytes. -/
theorem checkpoint_store_refines (machine : Machine) (layout : Layout) (ops : List Op) (s : Store)
    (writable : layout.Writable machine.heap.regions)
    (allowed : Runs.Meets next AllowedNext (some (.powerOn machine layout)) ops)
    (reached : Runs.after next (some (.powerOn machine layout)) ops = some s) :
    ∃ c, c = Runs.after Catalogue.next (.initial (Store.powerOn machine layout).contents) ops ∧
      s.Represents c ∧ Table.Distinct s.bufferKeys ∧ Table.Distinct s.slotKeys ∧
      (∀ op, s.Allowed op → s.Simulates c op) ∧ KeepsSnapshots s := by
  obtain ⟨wf, rep, -⟩ := run_represents (P := fun _ => True) (fun ok => ok) (fun _ _ _ => trivial)
    (Store.powerOn_wellFormed writable) (Store.powerOn_represents machine layout) trivial allowed
    reached
  exact ⟨_, rfl, rep, wf.buffers.distinct, wf.slots.distinct,
    fun op ok => Store.perform_simulates wf rep ok, keepsSnapshots wf rep⟩

/-- Tables behind the kernel's code, for examples. -/
def sampleLayout : Layout := ⟨0x20000, 0x30000, by decide⟩

def sampleMachine : Machine := auditorInit (boot sampleImage) zeroStatics

/-- A caller names a buffer of two bytes, takes a checkpoint, changes the buffer and restores it. -/
def roundTrip : List Op :=
  [.write 0x800000 [0x61], .write 0x800010 [0x62], .register 0x800000 0x800020 2,
    .create 0x800000 0x800010, .write 0x800020 [7, 8], .restore 0x800010 0x800000]

theorem checkpoint_store_refines_roundTrip :
    ∃ s, Runs.after next (some (.powerOn sampleMachine sampleLayout)) roundTrip = some s ∧
      s.mem.read 0x800020 2 = [0, 0] ∧ Table.Distinct s.slotKeys ∧ KeepsSnapshots s := by
  have ends : (Runs.after next (some (.powerOn sampleMachine sampleLayout)) roundTrip).map
      (fun s => s.mem.read 0x800020 2) = some [0, 0] := by decide +kernel
  obtain ⟨s, reached, bytes⟩ := Option.map_eq_some_iff.mp ends
  obtain ⟨c, -, -, -, slots, -, keeps⟩ := checkpoint_store_refines sampleMachine sampleLayout
    roundTrip s (by decide +kernel) (by decide +kernel) reached
  exact ⟨s, reached, bytes, slots, keeps⟩

end LughOS.Storage

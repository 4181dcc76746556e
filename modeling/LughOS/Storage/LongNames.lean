import LughOS.Storage.Checkpoints

/-!
# Checkpoints with names of any length

A caller may build the name of a checkpoint in a buffer of its own, with more characters than a
key field holds. `create_checkpoint` then refuses it. For a name in a buffer of 256 bytes,
`create_refused` and `create_succeeds` say exactly when a checkpoint is made, and
`remove_succeeds` that it can be removed again.
-/

namespace LughOS.Storage

open Bytes Kernel

namespace Store

variable {s s' : Store} {path name : Nat}

theorem WellFormed.exists_catalogue (wf : s.WellFormed) : ∃ c : Catalogue, s.Represents c :=
  ⟨⟨.ofTable wf.buffers.distinct s.bufferAt, .ofTable wf.slots.distinct s.snapshotAt, s.contents⟩,
    rfl, rfl, rfl⟩

theorem WellFormed.advance (wf : s.WellFormed) (next : BitVec 64) :
    ({ s with nextId := next } : Store).WellFormed :=
  have ⟨_, rep⟩ := wf.exists_catalogue
  (wf.relog rep rfl next).1

/-- A checkpoint can be made: there is a buffer of that name, and room for the snapshot. -/
structure CanCheckpoint (s : Store) (path name : Nat) : Prop where
  registered : s.bindings (keyAt s.mem path) ≠ none
  short : (s.mem.text name 256).length < keySize
  room : s.snapshots (keyAt s.mem name) ≠ none ∨ ∃ i, s.slotKeys i = none

/-- A terminated string in a caller's buffer of 256 bytes. -/
structure NameOk (s : Store) (name : Nat) : Prop where
  gate : securityValidateMemoryAccess s.regions name 256 false = true
  outside : s.layout.Outside name 256
  terminated : (s.mem.text name 256).length < 256

theorem NameOk.nonnull (ok : s.NameOk name) : name ≠ 0 :=
  ((validate_iff (by decide)).mp ok.gate).1

theorem NameOk.keyAt_eq (short : (s.mem.text name 256).length < keySize) :
    keyAt s.mem name = s.mem.text name 256 := by
  rw [keyAt, Mem.text_take s.mem name (n := 256) (by decide)]
  exact List.take_of_length_le short.le

theorem NameOk.keyOk (ok : s.NameOk name) (short : (s.mem.text name 256).length < keySize) :
    s.KeyOk name := by
  have text := NameOk.keyAt_eq short
  unfold keySize at short
  refine ⟨ok.nonnull, by rw [text]; exact short, ?_, ?_⟩
  · rw [text]
    exact validate_part ok.gate (by omega) le_rfl (by omega)
  · rw [text]
    exact ⟨by have := ok.outside.1; omega, by have := ok.outside.2; omega⟩

/-- A name that does not fit is refused. -/
theorem NameOk.acquireSlot_long (ok : s.NameOk name) (wf : s.WellFormed)
    (long : keySize ≤ (s.mem.text name 256).length) : s.acquireSlot name = (none, s) := by
  have cut : (keyAt s.mem name).length = keySize := by
    rw [keyAt, Mem.text_take s.mem name (n := 256) (by decide), List.length_take]
    exact min_eq_left long
  have absent : s.findSlot name = none := by
    rw [findSlot_eq, Table.find?_eq_none_iff]
    intro i here
    exact absurd cut (wf.slots.short i _ here).ne
  have terminated := ok.terminated
  have length : (strlen s.heap name).1 = (s.mem.text name 256).length :=
    strlen_eq (fun i inside => (Mem.text_getElem inside).2) (Mem.text_end terminated) (by omega)
      (validate_part ok.gate (by omega) le_rfl (by omega))
  rw [acquireSlot, absent]
  dsimp only
  split
  · rfl
  · rw [length, if_pos long]

theorem create_refused (wf : s.WellFormed) (pathNonnull : path ≠ 0) (nameOk : s.NameOk name)
    (cannot : ¬s.CanCheckpoint path name) : s.createCheckpoint path name = some (-1, s) := by
  have nonnull : ¬(path = 0 ∨ name = 0) := not_or.mpr ⟨pathNonnull, nameOk.nonnull⟩
  cases found : s.findRegistered path with
  | none => simp only [createCheckpoint, if_neg nonnull, found]
  | some b =>
      have registered : s.bindings (keyAt s.mem path) ≠ none := by
        rw [bindings, Table.lookup, ← findRegistered_eq, found]
        exact Option.some_ne_none _
      by_cases short : (s.mem.text name 256).length < keySize
      · obtain ⟨slot, s₁, acquired⟩ : ∃ slot s₁, s.acquireSlot name = (slot, s₁) := ⟨_, _, rfl⟩
        cases slot with
        | none =>
            obtain ⟨rfl, -⟩ := acquireSlot_none (nameOk.keyOk short) acquired
            simp only [createCheckpoint, if_neg nonnull, found, acquired]
        | some i =>
            obtain ⟨-, room⟩ := acquireSlot_some wf (nameOk.keyOk short) acquired
            refine absurd ⟨registered, short, room.imp_left fun present => ?_⟩ cannot
            rw [snapshots, Table.lookup]
            simpa using present
      · have refused := nameOk.acquireSlot_long wf (Nat.le_of_not_lt short)
        simp only [createCheckpoint, if_neg nonnull, found, refused]

/-- What a call leaves as it is, apart from the snapshots. -/
structure Keeps (s s' : Store) : Prop where
  wellFormed : s'.WellFormed
  bindings : s'.bindings = s.bindings
  contents : s'.contents = s.contents
  fixed : s'.layout = s.layout ∧ s'.regions = s.regions
  ids : s'.nextId.toNat ≤ s.nextId.toNat + 1

theorem eqOn_of_contents {a n : Nat} (layout : s'.layout = s.layout)
    (contents : s'.contents = s.contents) (outside : s.layout.Outside a n) :
    Mem.EqOn s'.mem s.mem a n := by
  intro x low high
  have before := contents_eqOn outside x low high
  have after := contents_eqOn (layout ▸ outside) (s := s') x low high
  rw [← after, ← before, contents]

theorem Keeps.nameOk (keeps : s.Keeps s') (ok : s.NameOk name) :
    s'.NameOk name ∧ s'.mem.text name 256 = s.mem.text name 256 := by
  have same := (eqOn_of_contents keeps.fixed.1 keeps.contents ok.outside).text_eq
  refine ⟨⟨?_, ?_, ?_⟩, same⟩
  · rw [keeps.fixed.2]
    exact ok.gate
  · rw [keeps.fixed.1]
    exact ok.outside
  · rw [same]
    exact ok.terminated

theorem create_succeeds (wf : s.WellFormed)
    (pathOk : (keyAt s.mem path).length < keySize → s.KeyOk path) (nameOk : s.NameOk name)
    (can : s.CanCheckpoint path name) :
    (s.createCheckpoint path name = none ∧ s.nextId = BitVec.allOnes 64) ∨
      ∃ s' bytes, s.createCheckpoint path name = some (0, s') ∧ s.Keeps s' ∧
        s'.snapshots = Function.update s.snapshots (keyAt s.mem name) (some bytes) := by
  obtain ⟨c, rep⟩ := wf.exists_catalogue
  obtain ⟨b, bound⟩ := Option.ne_none_iff_exists'.mp can.registered
  obtain ⟨i, here, -⟩ := wf.buffers.distinct.lookup_eq_some_iff.mp bound
  have okPath := pathOk (wf.buffers.short i _ here)
  have okName := nameOk.keyOk can.short
  have room : c.snapshots.HasRoom (keyAt c.mem name) := by
    rw [rep.keyAt_eq okName, rep.hasRoom_snapshots wf]
    refine can.room.imp_left fun live => ?_
    rw [snapshots, Table.lookup] at live
    simpa using live
  have step : c.step (.create path name) = (0, { c with
      snapshots := c.snapshots.insert (keyAt c.mem name) (c.mem.read b.data b.size) room }) := by
    have lookup : c.buffers.get (keyAt c.mem path) = some b := by
      rw [rep.buffers, rep.keyAt_eq okPath]
      exact bound
    rw [Catalogue.step, lookup]
    exact dif_pos room
  rcases create_simulates wf rep ⟨okPath, okName⟩ with
    ⟨halted, last, -⟩ | ⟨rv, s', performs, follows⟩
  · exact .inl ⟨halted, last⟩
  · obtain ⟨reply, wf', rep', -, fixed, ids⟩ := follows
    rw [step] at reply rep'
    dsimp only at reply
    subst reply
    refine .inr ⟨s', c.mem.read b.data b.size, performs, ⟨wf', ?_, ?_, fixed, ids⟩, ?_⟩
    · rw [← rep'.buffers, ← rep.buffers]
    · rw [← rep'.mem, ← rep.mem]
    · rw [← rep'.snapshots, ← rep.snapshots, BoundedMap.get_insert, rep.keyAt_eq okName]

theorem remove_succeeds (wf : s.WellFormed) (ok : s.KeyOk name)
    (live : s.snapshots (keyAt s.mem name) ≠ none) :
    (s.removeCheckpoint name = none ∧ s.nextId = BitVec.allOnes 64) ∨
      ∃ s', s.removeCheckpoint name = some (0, s') ∧ s.Keeps s' ∧
        s'.snapshots = Function.update s.snapshots (keyAt s.mem name) none := by
  obtain ⟨c, rep⟩ := wf.exists_catalogue
  obtain ⟨bytes, held⟩ := Option.ne_none_iff_exists'.mp live
  have step : c.step (.remove name) =
      (0, { c with snapshots := c.snapshots.erase (keyAt c.mem name) }) := by
    have lookup : c.snapshots.get (keyAt c.mem name) = some bytes := by
      rw [rep.snapshots, rep.keyAt_eq ok]
      exact held
    rw [Catalogue.step, lookup]
  rcases remove_simulates wf rep ok with ⟨halted, last, -⟩ | ⟨rv, s', performs, follows⟩
  · exact .inl ⟨halted, last⟩
  · obtain ⟨reply, wf', rep', -, fixed, ids⟩ := follows
    rw [step] at reply rep'
    dsimp only at reply
    subst reply
    refine .inr ⟨s', performs, ⟨wf', ?_, ?_, fixed, ids⟩, ?_⟩
    · rw [← rep'.buffers, ← rep.buffers]
    · rw [← rep'.mem, ← rep.mem]
    · rw [← rep'.snapshots, ← rep.snapshots, BoundedMap.get_erase, rep.keyAt_eq ok]

end Store

end LughOS.Storage

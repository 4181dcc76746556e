import LughOS.Storage.Transactions

/-!
# The tables of the checkpoint store

The two tables hold maps: from names to buffers, and from names to snapshots. A name is the text
in the key field of an entry in use, and a store is `WellFormed` if no two entries of a table have
one name, every name is terminated in its field, and the registered buffers are admitted by the
gate and lie outside the tables. The lemmas say what each change of the tables does to the maps
and to the memory of the callers.
-/

namespace LughOS.Storage

open Bytes Kernel

/-! ## The maps in the tables -/

abbrev Key := List Byte

/-- Where a registered buffer lies. -/
structure Buffer where
  data : Nat
  size : Nat
  deriving DecidableEq

/-- The text of a key argument. -/
def keyAt (mem : Mem) (a : Nat) : Key := mem.text a keySize

namespace Layout

/-- The address belongs to one of the tables. -/
def Static (l : Layout) (x : Nat) : Prop :=
  (l.registeredBuffers ≤ x ∧ x < l.registeredBuffers + 1216) ∨
    (l.checkpointSlots ≤ x ∧ x < l.checkpointSlots + 66688)

instance (l : Layout) (x : Nat) : Decidable (l.Static x) := inferInstanceAs (Decidable (_ ∨ _))

/-- The range belongs to a caller. -/
def Outside (l : Layout) (a n : Nat) : Prop :=
  (a + n ≤ l.registeredBuffers ∨ l.registeredBuffers + 1216 ≤ a) ∧
    (a + n ≤ l.checkpointSlots ∨ l.checkpointSlots + 66688 ≤ a)

instance (l : Layout) (a n : Nat) : Decidable (l.Outside a n) := inferInstanceAs (Decidable (_ ∧ _))

/-- The gate lets the module write its tables. -/
def Writable (l : Layout) (regions : List MemRegion) : Prop :=
  securityValidateMemoryAccess regions l.registeredBuffers 1216 true = true ∧
    securityValidateMemoryAccess regions l.checkpointSlots 66688 true = true

instance (l : Layout) (regions : List MemRegion) : Decidable (l.Writable regions) :=
  inferInstanceAs (Decidable (_ ∧ _))

/-- The gate admits the buffer, and it does not lie in the tables. -/
@[mk_iff]
structure Admits (l : Layout) (regions : List MemRegion) (buffer : Buffer) : Prop where
  pos : 0 < buffer.size
  fits : buffer.size ≤ checkpointSize
  gate : securityValidateMemoryAccess regions buffer.data buffer.size true = true
  outside : l.Outside buffer.data buffer.size

instance (l : Layout) (regions : List MemRegion) (buffer : Buffer) :
    Decidable (l.Admits regions buffer) := decidable_of_iff' _ (admits_iff l regions buffer)

end Layout

/-- The keys of the entries in use. -/
def keysIn (mem : Mem) (address : TableIndex → Nat) (inUse : TableIndex → Bool) :
    TableIndex → Option Key :=
  fun i => if inUse i then some (keyAt mem (address i)) else none

/-- Different texts, all of them with a NUL in their field. -/
structure Keyed (entries : TableIndex → Option Key) : Prop where
  distinct : Table.Distinct entries
  short : ∀ i k, entries i = some k → k.length < keySize

namespace Store

def bufferKeys (s : Store) : TableIndex → Option Key :=
  keysIn s.mem s.bufferKey fun i => (s.registeredBuffers i).inUse

def slotKeys (s : Store) : TableIndex → Option Key :=
  keysIn s.mem s.slotKey fun i => (s.checkpointSlots i).inUse

def bufferAt (s : Store) (i : TableIndex) : Buffer :=
  ⟨(s.registeredBuffers i).data, (s.registeredBuffers i).size⟩

def snapshotAt (s : Store) (i : TableIndex) : List Byte :=
  s.mem.read (s.slotData i) (s.checkpointSlots i).size

/-- The registered buffers by name. -/
def bindings (s : Store) : Key → Option Buffer := Table.lookup s.bufferKeys s.bufferAt

/-- The live checkpoints by name. -/
def snapshots (s : Store) : Key → Option (List Byte) := Table.lookup s.slotKeys s.snapshotAt

/-- The memory of the callers. -/
def contents (s : Store) : Mem := fun x => if s.layout.Static x then 0 else s.mem x

structure WellFormed (s : Store) : Prop where
  writable : s.layout.Writable s.regions
  buffers : Keyed s.bufferKeys
  slots : Keyed s.slotKeys
  admitted : ∀ i, (s.registeredBuffers i).inUse = true → s.layout.Admits s.regions (s.bufferAt i)
  fits : ∀ i, (s.checkpointSlots i).size ≤ checkpointSize

/-- A string of at most 63 characters that the gate lets the module read. -/
@[mk_iff]
structure KeyOk (s : Store) (a : Nat) : Prop where
  nonnull : a ≠ 0
  short : (keyAt s.mem a).length < keySize
  gate : securityValidateMemoryAccess s.regions a ((keyAt s.mem a).length + 1) false = true
  outside : s.layout.Outside a ((keyAt s.mem a).length + 1)

instance (s : Store) (a : Nat) : Decidable (s.KeyOk a) := decidable_of_iff' _ (keyOk_iff s a)

end Store

/-! ## Keys in a table -/

section Keys

variable {mem mem' : Mem} {address : TableIndex → Nat} {inUse inUse' : TableIndex → Bool}
  {entries : TableIndex → Option Key} {i : TableIndex} {k : Key}

theorem keysIn_congr (same : ∀ i, Mem.EqOn mem' mem (address i) keySize) :
    keysIn mem' address inUse = keysIn mem address inUse := by
  funext i
  rw [keysIn, keysIn, keyAt, keyAt, (same i).text_eq]

/-- An entry comes into use with another key. -/
theorem keysIn_claim (others : ∀ j ≠ i, Mem.EqOn mem' mem (address j) keySize)
    (used : inUse' i = true) (rest : ∀ j ≠ i, inUse' j = inUse j) :
    keysIn mem' address inUse' =
      Function.update (keysIn mem address inUse) i (some (keyAt mem' (address i))) := by
  funext j
  by_cases here : j = i
  · subst here
    rw [Function.update_self, keysIn, if_pos used]
  · rw [Function.update_of_ne here, keysIn, keysIn, rest j here, keyAt, keyAt,
      (others j here).text_eq]

theorem first?_keyEqual (key : Nat) :
    (Table.first? fun i => inUse i && keyEqual mem (address i) key) =
      Table.find? (keysIn mem address inUse) (keyAt mem key) := by
  unfold Table.find?
  congr 1
  funext i
  cases used : inUse i with
  | false => simp [keysIn, used]
  | true =>
      rw [Bool.true_and, Bool.eq_iff_iff, decide_eq_true_iff, keysIn, if_pos used, keyEqual,
        keyEqualLoop_iff, Option.some.injEq]
      rfl

theorem keysIn_eq_none_iff : keysIn mem address inUse i = none ↔ inUse i = false := by
  cases used : inUse i <;> simp [keysIn, used]

theorem first?_free_eq_none_iff :
    (Table.first? fun i => !inUse i) = none ↔ ¬∃ i, keysIn mem address inUse i = none := by
  simp [Table.first?_eq_none_iff, keysIn_eq_none_iff]

theorem Keyed.claim (keyed : Keyed entries) (absent : Table.find? entries k = none)
    (short : k.length < keySize) : Keyed (Function.update entries i (some k)) where
  distinct := keyed.distinct.claim absent
  short := (Function.forall_update_iff entries fun _ e => ∀ x, e = some x → x.length < keySize).mpr
    ⟨fun _ new => Option.some.inj new ▸ short, fun j _ => keyed.short j⟩

theorem Keyed.release (keyed : Keyed entries) (i : TableIndex) :
    Keyed (Function.update entries i none) where
  distinct := keyed.distinct.release i
  short := (Function.forall_update_iff entries fun _ e => ∀ x, e = some x → x.length < keySize).mpr
    ⟨fun _ new => absurd new (by simp), fun j _ => keyed.short j⟩

end Keys

namespace Store

variable {s s' : Store} {i j : TableIndex} {key data size : Nat}

theorem findRegistered_eq : s.findRegistered key = Table.find? s.bufferKeys (keyAt s.mem key) :=
  first?_keyEqual key

theorem findSlot_eq : s.findSlot key = Table.find? s.slotKeys (keyAt s.mem key) :=
  first?_keyEqual key

/-! ## The parts of the store -/

@[simp] theorem withMem_mem (mem : Mem) : (s.withMem mem).mem = mem := rfl
@[simp] theorem withMem_regions (mem : Mem) : (s.withMem mem).regions = s.regions := rfl

/-- A table entry lies in its table. -/
theorem bufferKey_bounds (s : Store) (i : TableIndex) :
    s.layout.registeredBuffers ≤ s.bufferKey i ∧
      s.bufferKey i + 76 ≤ s.layout.registeredBuffers + 1216 := by
  have := i.isLt
  unfold bufferKey
  omega

theorem slotKey_bounds (s : Store) (i : TableIndex) :
    s.layout.checkpointSlots ≤ s.slotKey i ∧
      s.slotKey i + 4168 ≤ s.layout.checkpointSlots + 66688 := by
  have := i.isLt
  unfold slotKey
  omega

theorem bufferKey_apart (s : Store) (other : j ≠ i) :
    s.bufferKey j + 76 ≤ s.bufferKey i ∨ s.bufferKey i + 76 ≤ s.bufferKey j := by
  have : j.val ≠ i.val := fun same => other (Fin.ext same)
  unfold bufferKey
  omega

theorem slotKey_apart (s : Store) (other : j ≠ i) :
    s.slotKey j + 4168 ≤ s.slotKey i ∨ s.slotKey i + 4168 ≤ s.slotKey j := by
  have : j.val ≠ i.val := fun same => other (Fin.ext same)
  unfold slotKey
  omega

/-- A copy into the tables is not seen by the callers. -/
theorem contents_copy {dst src n : Nat}
    (inside : ∀ x, dst ≤ x → x < dst + n → s.layout.Static x) :
    (s.withMem (s.mem.copy dst src n)).contents = s.contents := by
  funext x
  by_cases static : s.layout.Static x
  · exact (if_pos static).trans (if_pos static).symm
  · have apart : x + 1 ≤ dst ∨ dst + n ≤ x := by
      by_contra within
      exact static (inside x (by omega) (by omega))
    have kept := Mem.copy_eqOn (b := x) (n := 1) s.mem src apart x le_rfl (by omega)
    exact (if_neg static).trans (kept.trans (if_neg static).symm)

theorem contents_eqOn {a n : Nat} (outside : s.layout.Outside a n) :
    Mem.EqOn s.contents s.mem a n := by
  intro x low high
  refine if_neg fun static => ?_
  unfold Layout.Outside at outside
  unfold Layout.Static at static
  omega

theorem contents_write {a : Nat} {bytes : List Byte} (outside : s.layout.Outside a bytes.length) :
    (s.withMem (s.mem.write a bytes)).contents = s.contents.write a bytes := by
  funext x
  by_cases static : s.layout.Static x
  · have apart : x + 1 ≤ a ∨ a + bytes.length ≤ x := by
      unfold Layout.Outside at outside
      unfold Layout.Static at static
      omega
    have kept := Mem.write_eqOn (b := x) (n := 1) s.contents bytes apart x le_rfl (by omega)
    rw [kept]
    exact (if_pos static).trans (if_pos static).symm
  · have caller : s.contents x = s.mem x := if_neg static
    refine (if_neg static).trans ?_
    simp only [withMem_mem, Mem.write, caller]

/-- The catalogue reads a key as the module does. -/
theorem KeyOk.keyAt_eq (ok : s.KeyOk key) : keyAt s.contents key = keyAt s.mem key := by
  apply Mem.text_congr
  intro i within _
  exact contents_eqOn ok.outside (key + i) (by omega) (by unfold keyAt at *; omega)

/-! ## What the changes do to the maps -/

section Changes

variable {a dest src n : Nat} {mem : Mem}

theorem bufferKeys_withMem (same : ∀ i, Mem.EqOn mem s.mem (s.bufferKey i) 64) :
    (s.withMem mem).bufferKeys = s.bufferKeys := keysIn_congr same

theorem slotKeys_withMem (same : ∀ i, Mem.EqOn mem s.mem (s.slotKey i) 64) :
    (s.withMem mem).slotKeys = s.slotKeys := keysIn_congr same

theorem WellFormed.snapshotAt_withMem (wf : s.WellFormed)
    (same : Mem.EqOn mem s.mem (s.slotData i) 4096) :
    (s.withMem mem).snapshotAt i = s.snapshotAt i :=
  (same.mono le_rfl (Nat.add_le_add_left (wf.fits i) _)).read_eq

/-- Memory that agrees on both tables leaves the maps alone. -/
theorem WellFormed.withMem (wf : s.WellFormed)
    (buffers : Mem.EqOn mem s.mem s.layout.registeredBuffers 1216)
    (slots : Mem.EqOn mem s.mem s.layout.checkpointSlots 66688) :
    (s.withMem mem).WellFormed ∧ (s.withMem mem).bindings = s.bindings ∧
      (s.withMem mem).snapshots = s.snapshots := by
  have bufferKeys : (s.withMem mem).bufferKeys = s.bufferKeys := bufferKeys_withMem fun i => by
    have := s.bufferKey_bounds i
    exact buffers.mono (by omega) (by omega)
  have slotKeys : (s.withMem mem).slotKeys = s.slotKeys := slotKeys_withMem fun i => by
    have := s.slotKey_bounds i
    exact slots.mono (by omega) (by omega)
  have snapshotAt : (s.withMem mem).snapshotAt = s.snapshotAt := funext fun i => by
    have := s.slotKey_bounds i
    exact wf.snapshotAt_withMem (slots.mono (by unfold slotData; omega) (by unfold slotData; omega))
  refine ⟨?_, ?_, ?_⟩
  · exact
      { writable := wf.writable
        buffers := bufferKeys ▸ wf.buffers
        slots := slotKeys ▸ wf.slots
        admitted := wf.admitted
        fits := wf.fits }
  · rw [bindings, bindings, bufferKeys]
    rfl
  · rw [snapshots, snapshots, slotKeys, snapshotAt]

theorem EqOn_write_outside {bytes : List Byte} (outside : s.layout.Outside a bytes.length) :
    Mem.EqOn (s.mem.write a bytes) s.mem s.layout.registeredBuffers 1216 ∧
      Mem.EqOn (s.mem.write a bytes) s.mem s.layout.checkpointSlots 66688 :=
  ⟨Mem.write_eqOn _ _ (by have := outside.1; omega),
    Mem.write_eqOn _ _ (by have := outside.2; omega)⟩

/-- The key that a table entry receives. -/
theorem KeyOk.keyAt_copy (ok : s.KeyOk key)
    (apart : key + ((keyAt s.mem key).length + 1) ≤ dest ∨ dest + 64 ≤ key) :
    keyAt (s.mem.copy dest key ((keyAt s.mem key).length + 1)) dest = keyAt s.mem key := by
  have short := ok.short
  unfold keySize at short
  apply Mem.text_congr
  intro i within _
  exact Mem.copy_inside s.mem dest key (by omega) (Nat.lt_succ_of_le within)

theorem KeyOk.strlen_eq (ok : s.KeyOk key) : (strlen s.heap key).1 = (keyAt s.mem key).length := by
  have short := ok.short
  unfold keySize at short
  exact Kernel.strlen_eq (fun i inside => (Mem.text_getElem inside).2) (Mem.text_end short)
    (by omega) ok.gate

theorem KeyOk.strcpy_eq (ok : s.KeyOk key)
    (writable : securityValidateMemoryAccess s.regions dest 64 true = true) :
    strcpy s.heap dest key = s.mem.copy dest key ((keyAt s.mem key).length + 1) :=
  Storage.strcpy_eq ok.short ok.gate writable

theorem bufferKey_writable (writable : s.layout.Writable s.regions) (i : TableIndex) :
    securityValidateMemoryAccess s.regions (s.bufferKey i) 64 true = true := by
  have := s.bufferKey_bounds i
  exact validate_part writable.1 (by omega) (by omega) (by omega)

theorem WellFormed.slot_writable (wf : s.WellFormed) {i : TableIndex} (pos : 0 < n)
    (low : s.slotKey i ≤ dest) (high : dest + n ≤ s.slotKey i + 4168) :
    securityValidateMemoryAccess s.regions dest n true = true := by
  have := s.slotKey_bounds i
  exact validate_part wf.writable.2 pos (by omega) (by omega)

/-- A field with the same value in the new entry is the same in all entries. -/
theorem field_update {α β : Type*} (field : α → β) {table : TableIndex → α} {entry : α}
    (same : field entry = field (table i)) (j : TableIndex) :
    field (Function.update table i entry j) = field (table j) := by
  rcases eq_or_ne j i with rfl | other
  · rw [Function.update_self, same]
  · rw [Function.update_of_ne other]

theorem bufferAt_setBuffer (s : Store) (i : TableIndex) (buffer : RegisteredBuffer) :
    (s.setBuffer i buffer).bufferAt = Function.update s.bufferAt i ⟨buffer.data, buffer.size⟩ :=
  funext fun j => Function.apply_update (fun _ (b : RegisteredBuffer) => Buffer.mk b.data b.size)
    s.registeredBuffers i buffer j

/-- The buffers of a table with a new entry are admitted. -/
theorem WellFormed.admitted_setBuffer (wf : s.WellFormed) (buffer : RegisteredBuffer)
    (admitted : s.layout.Admits s.regions ⟨buffer.data, buffer.size⟩) (j : TableIndex)
    (used : ((s.setBuffer i buffer).registeredBuffers j).inUse = true) :
    s.layout.Admits s.regions ((s.setBuffer i buffer).bufferAt j) := by
  rw [bufferAt_setBuffer]
  rcases eq_or_ne j i with rfl | other
  · rwa [Function.update_self]
  · simp only [setBuffer, Function.update_of_ne other] at used
    rw [Function.update_of_ne other]
    exact wf.admitted j used

theorem WellFormed.fits_setSlot (wf : s.WellFormed) {slot : CheckpointSlot}
    (fits : slot.size ≤ checkpointSize) :
    ∀ j, ((s.setSlot i slot).checkpointSlots j).size ≤ checkpointSize :=
  (Function.forall_update_iff s.checkpointSlots fun _ slot => slot.size ≤ checkpointSize).mpr
    ⟨fits, fun j _ => wf.fits j⟩

/-- Another buffer for an entry leaves its key alone. -/
theorem bufferKeys_rebind (s : Store) (i : TableIndex) (data size : Nat) :
    (s.setBuffer i { s.registeredBuffers i with data := data, size := size }).bufferKeys =
      s.bufferKeys := by
  set s' := s.setBuffer i { s.registeredBuffers i with data := data, size := size }
  have uses : ∀ j, (s'.registeredBuffers j).inUse = (s.registeredBuffers j).inUse :=
    field_update RegisteredBuffer.inUse rfl
  funext j
  simp only [bufferKeys, keysIn, uses]
  rfl

/-- Registering a key that is in the table. -/
theorem WellFormed.rebind (wf : s.WellFormed) {k : Key} (here : s.bufferKeys i = some k)
    (admitted : s.layout.Admits s.regions ⟨data, size⟩) :
    (s.setBuffer i { s.registeredBuffers i with data := data, size := size }).WellFormed ∧
      (s.setBuffer i { s.registeredBuffers i with data := data, size := size }).bindings =
        Function.update s.bindings k (some ⟨data, size⟩) := by
  have keys := s.bufferKeys_rebind i data size
  constructor
  · exact ⟨wf.writable, keys ▸ wf.buffers, wf.slots, wf.admitted_setBuffer _ admitted, wf.fits⟩
  · rw [bindings, keys, bufferAt_setBuffer]
    exact wf.buffers.distinct.lookup_overwrite here

/-- A free entry receives a new key. -/
theorem KeyOk.bufferKeys_register (ok : s.KeyOk key) (writable : s.layout.Writable s.regions)
    (i : TableIndex) (data size : Nat) :
    ((s.withMem (strcpy s.heap (s.bufferKey i) key)).setBuffer i ⟨data, size, true⟩).bufferKeys =
      Function.update s.bufferKeys i (some (keyAt s.mem key)) := by
  have short := ok.short
  have bounds := s.bufferKey_bounds i
  unfold keySize at short
  rw [ok.strcpy_eq (bufferKey_writable writable i)]
  set mem' := s.mem.copy (s.bufferKey i) key ((keyAt s.mem key).length + 1) with copied
  have received : keyAt mem' (s.bufferKey i) = keyAt s.mem key := ok.keyAt_copy (by
    have := ok.outside.1
    omega)
  rw [← received]
  apply keysIn_claim
  · intro j other
    have := s.bufferKey_apart other
    have kept : Mem.EqOn mem' s.mem (s.bufferKey j) 64 := Mem.copy_eqOn s.mem key (by omega)
    exact kept
  · simp [setBuffer]
  · intro j other
    simp [setBuffer, withMem, other]

/-- Registering a new key. -/
theorem WellFormed.register (wf : s.WellFormed) (ok : s.KeyOk key) (free : s.bufferKeys i = none)
    (absent : Table.find? s.bufferKeys (keyAt s.mem key) = none)
    (admitted : s.layout.Admits s.regions ⟨data, size⟩) :
    let s' := (s.withMem (strcpy s.heap (s.bufferKey i) key)).setBuffer i ⟨data, size, true⟩
    s'.WellFormed ∧
      s'.bindings = Function.update s.bindings (keyAt s.mem key) (some ⟨data, size⟩) ∧
      s'.snapshots = s.snapshots ∧ s'.contents = s.contents := by
  have short := ok.short
  have bounds := s.bufferKey_bounds i
  have apart := s.layout.apart
  have keys := ok.bufferKeys_register wf.writable i data size
  unfold keySize at short
  rw [ok.strcpy_eq (bufferKey_writable wf.writable i)] at keys ⊢
  set mem' := s.mem.copy (s.bufferKey i) key ((keyAt s.mem key).length + 1) with copied
  intro s'
  have buffers : s'.bufferAt = Function.update s.bufferAt i ⟨data, size⟩ :=
    bufferAt_setBuffer (s.withMem mem') i ⟨data, size, true⟩
  have slots : Mem.EqOn mem' s.mem s.layout.checkpointSlots 66688 :=
    Mem.copy_eqOn s.mem key (by omega)
  have slotKeys : s'.slotKeys = s.slotKeys := slotKeys_withMem fun j => by
    have := s.slotKey_bounds j
    exact slots.mono (by omega) (by omega)
  have snapshotAt : s'.snapshotAt = s.snapshotAt := funext fun j => by
    have := s.slotKey_bounds j
    exact wf.snapshotAt_withMem (slots.mono (by unfold slotData; omega) (by unfold slotData; omega))
  refine ⟨⟨wf.writable, ?_, slotKeys ▸ wf.slots,
    wf.admitted_setBuffer ⟨data, size, true⟩ admitted, wf.fits⟩, ?_, ?_, ?_⟩
  · rw [keys]
    exact wf.buffers.claim absent ok.short
  · rw [bindings, keys, buffers]
    exact wf.buffers.distinct.lookup_claim free absent
  · rw [snapshots, slotKeys, snapshotAt]
    rfl
  · exact contents_copy (s := s) fun x low high => .inl ⟨by omega, by omega⟩

/-- Taking a slot for a new checkpoint. -/
theorem WellFormed.acquire (wf : s.WellFormed) (ok : s.KeyOk key)
    (absent : Table.find? s.slotKeys (keyAt s.mem key) = none) :
    let s' := (s.withMem (strcpy s.heap (s.slotKey i) key)).setSlot i
      { s.checkpointSlots i with inUse := true }
    s'.WellFormed ∧ s'.slotKeys = Function.update s.slotKeys i (some (keyAt s.mem key)) ∧
      s'.snapshotAt = s.snapshotAt ∧ s'.bufferKeys = s.bufferKeys ∧ s'.contents = s.contents := by
  have short := ok.short
  have bounds := s.slotKey_bounds i
  have apart := s.layout.apart
  unfold keySize at short
  rw [ok.strcpy_eq (wf.slot_writable (by omega) le_rfl (by omega))]
  set mem' := s.mem.copy (s.slotKey i) key ((keyAt s.mem key).length + 1) with copied
  intro s'
  have table : s'.checkpointSlots =
      Function.update s.checkpointSlots i { s.checkpointSlots i with inUse := true } := rfl
  have sizes : ∀ j, (s'.checkpointSlots j).size = (s.checkpointSlots j).size :=
    field_update CheckpointSlot.size rfl
  have received : keyAt mem' (s.slotKey i) = keyAt s.mem key := ok.keyAt_copy (by
    have := ok.outside.2
    omega)
  have keys : s'.slotKeys = Function.update s.slotKeys i (some (keyAt s.mem key)) := by
    rw [← received]
    apply keysIn_claim
    · intro j other
      have := s.slotKey_apart other
      have kept : Mem.EqOn mem' s.mem (s.slotKey j) 64 := Mem.copy_eqOn s.mem key (by omega)
      exact kept
    · rw [table, Function.update_self]
    · intro j other
      rw [table, Function.update_of_ne other]
  have snapshotAt : s'.snapshotAt = s.snapshotAt := by
    funext j
    have fits := wf.fits j
    have same : Mem.EqOn mem' s.mem (s.slotData j) (s.checkpointSlots j).size := by
      apply Mem.copy_eqOn
      unfold slotData checkpointSize at *
      by_cases at_i : j = i
      · subst at_i
        omega
      · have := s.slotKey_apart at_i
        omega
    rw [Store.snapshotAt, sizes j]
    exact same.read_eq
  have bufferKeys : s'.bufferKeys = s.bufferKeys := bufferKeys_withMem fun j => by
    have := s.bufferKey_bounds j
    exact Mem.copy_eqOn s.mem key (by omega)
  refine ⟨⟨wf.writable, bufferKeys ▸ wf.buffers, ?_, wf.admitted, wf.fits_setSlot (wf.fits i)⟩,
    keys, snapshotAt, bufferKeys, ?_⟩
  · rw [keys]
    exact wf.slots.claim absent ok.short
  · exact contents_copy (s := s) fun x low high => .inr ⟨by omega, by omega⟩

/-- Filling a slot in use from a caller's buffer. -/
theorem WellFormed.fill (wf : s.WellFormed) {k : Key} {buffer : Buffer}
    (here : s.slotKeys i = some k) (admitted : s.layout.Admits s.regions buffer) :
    let s' := (s.withMem (memcpy s.heap (s.slotData i) buffer.data buffer.size)).setSlot i
      { s.checkpointSlots i with size := buffer.size }
    s'.WellFormed ∧ s'.bindings = s.bindings ∧
      s'.snapshots = Function.update s.snapshots k (some (s.mem.read buffer.data buffer.size)) ∧
      s'.contents = s.contents := by
  have bounds := s.slotKey_bounds i
  have apart := s.layout.apart
  have fits := admitted.fits
  have outside := admitted.outside.2
  have data : s.slotData i = s.slotKey i + 64 := rfl
  unfold checkpointSize at fits
  have copies : memcpy s.heap (s.slotData i) buffer.data buffer.size =
      s.mem.copy (s.slotData i) buffer.data buffer.size :=
    memcpy_eq (fun pos => wf.slot_writable (i := i) pos (by omega) (by omega))
      fun pos => validate_read admitted.gate pos
  rw [copies]
  intro s'
  have table : s'.checkpointSlots = Function.update s.checkpointSlots i
      { s.checkpointSlots i with size := buffer.size } := rfl
  have uses : ∀ j, (s'.checkpointSlots j).inUse = (s.checkpointSlots j).inUse :=
    field_update CheckpointSlot.inUse rfl
  have bufferKeys : s'.bufferKeys = s.bufferKeys := bufferKeys_withMem fun j => by
    have := s.bufferKey_bounds j
    exact Mem.copy_eqOn s.mem buffer.data (by omega)
  have slotKeys : s'.slotKeys = s.slotKeys := by
    have kept : (s.withMem (s.mem.copy (s.slotData i) buffer.data buffer.size)).slotKeys =
        s.slotKeys := slotKeys_withMem fun j => by
      by_cases at_i : j = i
      · subst at_i
        exact Mem.copy_eqOn s.mem buffer.data (by omega)
      · have := s.slotKey_apart at_i
        exact Mem.copy_eqOn s.mem buffer.data (by omega)
    rw [← kept]
    funext j
    simp only [Store.slotKeys, keysIn, uses]
    rfl
  have snapshotAt : s'.snapshotAt =
      Function.update s.snapshotAt i (s.mem.read buffer.data buffer.size) := by
    funext j
    by_cases at_i : j = i
    · subst at_i
      rw [Function.update_self, Store.snapshotAt, table, Function.update_self]
      exact Mem.read_copy s.mem _ _ (by omega)
    · rw [Function.update_of_ne at_i, Store.snapshotAt, table, Function.update_of_ne at_i]
      have := s.slotKey_apart at_i
      have other : s.slotData j = s.slotKey j + 64 := rfl
      have small := wf.fits j
      unfold checkpointSize at small
      have kept : Mem.EqOn (s.mem.copy (s.slotData i) buffer.data buffer.size) s.mem (s.slotData j)
          (s.checkpointSlots j).size := Mem.copy_eqOn s.mem buffer.data (by omega)
      exact kept.read_eq
  refine ⟨⟨wf.writable, bufferKeys ▸ wf.buffers, slotKeys ▸ wf.slots, wf.admitted,
    wf.fits_setSlot admitted.fits⟩, ?_, ?_, ?_⟩
  · rw [bindings, bufferKeys]
    rfl
  · rw [snapshots, slotKeys, snapshotAt]
    exact wf.slots.distinct.lookup_overwrite here
  · exact contents_copy (s := s) fun x low high => .inr ⟨by omega, by omega⟩

/-- Giving up a slot. -/
theorem WellFormed.release (wf : s.WellFormed) {k : Key} (here : s.slotKeys i = some k) :
    (s.setSlot i ⟨0, false⟩).WellFormed ∧
      (s.setSlot i ⟨0, false⟩).snapshots = Function.update s.snapshots k none := by
  set s' := s.setSlot i ⟨0, false⟩ with changed
  have table : s'.checkpointSlots = Function.update s.checkpointSlots i ⟨0, false⟩ := rfl
  have keys : s'.slotKeys = Function.update s.slotKeys i none := by
    funext j
    by_cases at_i : j = i
    · subst at_i
      simp [slotKeys, keysIn, table]
    · rw [Function.update_of_ne at_i, slotKeys, slotKeys, keysIn, keysIn, table,
        Function.update_of_ne at_i]
      rfl
  refine ⟨⟨wf.writable, wf.buffers, ?_, wf.admitted, wf.fits_setSlot (Nat.zero_le _)⟩, ?_⟩
  · rw [keys]
    exact wf.slots.release i
  · rw [snapshots, keys]
    refine wf.slots.distinct.lookup_release here fun j other => ?_
    rw [snapshotAt, snapshotAt, table, Function.update_of_ne other]
    rfl

end Changes

end Store

end LughOS.Storage

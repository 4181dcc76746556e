import LughOS.Kernel.MemoryUtils
import LughOS.Storage.Checkpoints

/-!
# Keys of any length

`storage_register_buffer` refuses a key that does not fit into the key field. It asks `strlen` for
the length, and `strlen` answers 0 for a string of more than 10000 characters: such a key is
accepted, and `strcpy`, which asks again, stores its first character.

`KeyEnforced` is what the check is there for. Up to 10000 characters it holds of every table,
whatever the keys in it are, because the search stops at the first entry with the right text.
-/

namespace LughOS.Storage

open Bytes Kernel

namespace Store

/-- A caller's string that the gate admits, a valid buffer, and an entry that is free. -/
structure Registrable (s : Store) (key data size : Nat) (chars : List Byte) : Prop where
  string : s.mem.StringAt key chars
  readable : securityValidateMemoryAccess s.regions key (chars.length + 1) false = true
  outside : s.layout.Outside key (chars.length + 1)
  writable : s.layout.Writable s.regions
  nonnull : data ≠ 0
  sized : 0 < size ∧ size ≤ checkpointSize
  free : ∃ i, (s.registeredBuffers i).inUse = false

/-- Entry `i` has the buffer and a terminated key, and it is found by the name `chars` alone. -/
structure BoundAt (s : Store) (i : TableIndex) (buffer : Buffer) (chars : List Byte) : Prop where
  used : (s.registeredBuffers i).inUse = true
  buffer : s.bufferAt i = buffer
  terminated : ∃ n < keySize, s.mem (s.bufferKey i + n) = 0
  found : ∀ k name, s.mem.StringAt k name → (s.findRegistered k = some i ↔ name = chars)

/-- Just the keys that fit are accepted, and an accepted key names its buffer. -/
structure KeyEnforced (s : Store) (key data size : Nat) (chars : List Byte) : Prop where
  code : (s.storageRegisterBuffer key data size).1 = 0 ↔ chars.length ≤ 63
  binding : (s.storageRegisterBuffer key data size).1 = 0 →
    ∃ i, (s.storageRegisterBuffer key data size).2.BoundAt i ⟨data, size⟩ chars

variable {s s' : Store} {key data size : Nat} {chars name : List Byte} {i : TableIndex}

/-! ## Keys as strings -/

/-- A key field holds a string just if it has room for it. -/
theorem keyAt_eq_iff {mem : Mem} {a : Nat} (string : mem.StringAt a name)
    (short : chars.length < keySize) : keyAt mem a = chars ↔ name = chars := by
  rw [keyAt, string.text_eq]
  constructor
  · intro cut
    have length := congrArg List.length cut
    rw [List.length_take] at length
    rwa [List.take_of_length_le (by omega)] at cut
  · rintro rfl
    exact List.take_of_length_le short.le

/-- An entry with a key that fits is terminated. -/
theorem terminated_of_key (used : s.bufferKeys i = some chars) (short : chars.length < keySize) :
    ∃ n < keySize, s.mem (s.bufferKey i + n) = 0 := by
  unfold bufferKeys keysIn at used
  split at used
  · obtain rfl := Option.some.inj used
    exact ⟨_, short, Mem.text_end short⟩
  · cases used

namespace Registrable

variable (ok : s.Registrable key data size chars)
include ok

theorem valid : ¬(key = 0 ∨ data = 0 ∨ size = 0 ∨ checkpointSize < size) := by
  have nonnull := ((validate_iff (Nat.succ_pos _)).mp ok.readable).1
  have pointer := ok.nonnull
  have sized := ok.sized
  omega

theorem bytes : Readable s.heap key chars := fun i inside =>
  validate_part ok.readable Nat.one_pos (by omega) (by omega)

theorem keyOk (short : chars.length < keySize) : s.KeyOk key := by
  have text : keyAt s.mem key = chars := (keyAt_eq_iff ok.string short).mpr rfl
  refine ⟨fun null => ok.valid (.inl null), ?_, ?_, ?_⟩ <;> rw [text]
  · exact short
  · exact ok.readable
  · exact ok.outside

/-- With a free entry there is nothing but the length that can be wrong. -/
theorem code_eq : (s.storageRegisterBuffer key data size).1 =
    if keySize ≤ (strlen s.heap key).1 then -1 else 0 := by
  rw [storageRegisterBuffer, if_neg ok.valid]
  split
  · rfl
  · cases s.findRegistered key with
    | some i => rfl
    | none =>
        cases none : Table.first? fun i => !(s.registeredBuffers i).inUse with
        | some i => rfl
        | none =>
            obtain ⟨i, unused⟩ := ok.free
            simpa [unused] using Table.first?_eq_none_iff.mp none i

/-- A key of the table is bound to another buffer. -/
theorem boundAt_existing (short : chars.length < keySize) (found : s.findRegistered key = some i) :
    (s.setBuffer i { s.registeredBuffers i with data := data, size := size }).BoundAt i
      ⟨data, size⟩ chars := by
  have keys := s.bufferKeys_rebind i data size
  have used : (s.registeredBuffers i).inUse = true :=
    (Bool.and_eq_true_iff.mp (Table.first?_holds found)).1
  have search := findRegistered_eq.symm.trans found
  rw [(keyAt_eq_iff ok.string short).mpr rfl] at search
  have here := Table.find?_holds search
  refine ⟨?_, ?_, terminated_of_key (keys ▸ here) short, fun k name string => ?_⟩
  · simpa [setBuffer] using used
  · rw [bufferAt_setBuffer, Function.update_self]
  · rw [findRegistered_eq, keys, ← keyAt_eq_iff string short]
    constructor
    · intro match_
      exact Option.some.inj ((Table.find?_holds match_).symm.trans here)
    · intro text
      rw [text]
      exact search

/-- A new key gets a free entry. -/
theorem boundAt_new (short : chars.length < keySize) (absent : s.findRegistered key = none) :
    ((s.withMem (strcpy s.heap (s.bufferKey i) key)).setBuffer i ⟨data, size, true⟩).BoundAt i
      ⟨data, size⟩ chars := by
  have text : keyAt s.mem key = chars := (keyAt_eq_iff ok.string short).mpr rfl
  have keys := (ok.keyOk short).bufferKeys_register ok.writable i data size
  have missing := findRegistered_eq.symm.trans absent
  rw [text] at keys missing
  have here := congrFun keys i
  rw [Function.update_self] at here
  refine ⟨?_, ?_, terminated_of_key here short, fun k name string => ?_⟩
  · simp [setBuffer]
  · rw [bufferAt_setBuffer, Function.update_self]
  · rw [findRegistered_eq, keys, Table.find?_claim_eq_some_iff missing]
    exact keyAt_eq_iff string short

theorem keyEnforced (length : chars.length ≤ 10000) : s.KeyEnforced key data size chars := by
  have counted := strlen_short ok.string ok.bytes length
  have code := ok.code_eq
  rw [counted] at code
  have field : keySize = 64 := rfl
  by_cases long : keySize ≤ chars.length
  · rw [if_pos long] at code
    have refused : ¬(s.storageRegisterBuffer key data size).1 = 0 := by
      rw [code]
      decide
    exact ⟨iff_of_false refused (by omega), fun accepted => absurd accepted refused⟩
  · rw [if_neg long] at code
    refine ⟨iff_of_true code (by omega), fun _ => ?_⟩
    have fits : chars.length < keySize := Nat.lt_of_not_le long
    rw [storageRegisterBuffer, if_neg ok.valid, counted, if_neg long]
    cases found : s.findRegistered key with
    | some i => exact ⟨i, ok.boundAt_existing fits found⟩
    | none =>
        cases free : Table.first? fun i => !(s.registeredBuffers i).inUse with
        | some i => exact ⟨i, ok.boundAt_new fits found⟩
        | none =>
            obtain ⟨i, unused⟩ := ok.free
            simpa [unused] using Table.first?_eq_none_iff.mp free i

/-- `strlen` takes a very long key for an empty one. -/
theorem accepted_of_long (long : 10000 < chars.length) :
    (s.storageRegisterBuffer key data size).1 = 0 := by
  rw [ok.code_eq, strlen_long ok.string ok.bytes long]
  exact if_neg (by decide)

end Registrable

end Store

/-- The length of a key is enforced just up to the 10000 characters that `strlen` counts. -/
theorem key_length_enforced_iff (s : Store) (key data size : Nat) (chars : List Byte)
    (ok : s.Registrable key data size chars) :
    s.KeyEnforced key data size chars ↔ chars.length ≤ 10000 := by
  refine ⟨fun enforced => ?_, ok.keyEnforced⟩
  by_contra long
  have fits := enforced.code.mp (ok.accepted_of_long (Nat.lt_of_not_le long))
  omega

/-- The store behind power-on, with a string of `n` characters at `0x2000`. -/
def namedStore (n : Nat) : Store :=
  (Store.powerOn sampleMachine sampleLayout).withMem (longString n).mem

theorem namedStore_registrable {n : Nat} (fits : n < 0x10000) :
    (namedStore n).Registrable 0x2000 0x800020 2 (List.replicate n 0x61) := by
  have length : (List.replicate n (0x61 : Byte)).length = n := List.length_replicate
  have regions : (namedStore n).regions = sampleImage.regions := rfl
  refine ⟨longString_at n, ?_, ?_, ?_, by decide, by decide, 0, rfl⟩
  · rw [length, regions]
    refine (validate_iff (Nat.succ_pos n)).mpr ⟨by decide, by unfold sizeMax; omega,
      List.forall_mem_cons.mpr ⟨?_, by simp [MemRegion.forbids]⟩⟩
    simp [MemRegion.forbids]
  · rw [length]
    exact ⟨.inl (by change _ ≤ 0x20000; omega), .inl (by change _ ≤ 0x30000; omega)⟩
  · rw [regions]
    change sampleLayout.Writable sampleImage.regions
    decide

theorem key_length_enforced_iff_short :
    (namedStore 63).KeyEnforced 0x2000 0x800020 2 (List.replicate 63 0x61) :=
  (key_length_enforced_iff _ _ _ _ _ (namedStore_registrable (by decide))).mpr (by decide)

/-- A key of 10001 characters is accepted. -/
theorem long_key_accepted :
    (namedStore 10001).Registrable 0x2000 0x800020 2 (List.replicate 10001 0x61) ∧
      ((namedStore 10001).storageRegisterBuffer 0x2000 0x800020 2).1 = 0 := by
  have ok : (namedStore 10001).Registrable 0x2000 0x800020 2 (List.replicate 10001 0x61) :=
    namedStore_registrable (by decide)
  exact ⟨ok, ok.accepted_of_long (by rw [List.length_replicate]; decide)⟩

end LughOS.Storage

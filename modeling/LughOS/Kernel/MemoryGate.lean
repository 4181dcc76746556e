import LughOS.Kernel.Heap

/-!
# The access gate

`security_validate_memory_access` of `security.c` on addresses of any width, with the table
that `region_add` fills. A table carries what `region_add` checks: it has at most eight
regions, and no region ends before it starts. The second is what makes the comparison of end
points in the gate a test for a common byte.

On 32-bit addresses this is the gate that the rest of the model consults
(`securityValidate_eq`).
-/

namespace LughOS.Kernel

/-! ## The region table -/

def maxProtectedRegions : Nat := 8

/-- `mem_region_t`; both ends belong to the region. -/
structure ProtectedRegion (N : Nat) where
  startAddr : BitVec N
  endAddr : BitVec N
  readAllowed : Bool
  writeAllowed : Bool
  execAllowed : Bool
  deriving DecidableEq

/-- `protected_regions` up to `protected_region_count`. -/
structure RegionTable (N : Nat) where
  stored : List (ProtectedRegion N)
  room : stored.length ≤ maxProtectedRegions
  ordered : ∀ r ∈ stored, r.startAddr ≤ r.endAddr

namespace RegionTable

variable {N : Nat}

theorem room_empty : ([] : List (ProtectedRegion N)).length ≤ maxProtectedRegions := Nat.zero_le _

theorem ordered_empty : ∀ r ∈ ([] : List (ProtectedRegion N)), r.startAddr ≤ r.endAddr :=
  fun _ member => by cases member

def empty : RegionTable N := ⟨[], room_empty, ordered_empty⟩

theorem room_append {t : RegionTable N} (r : ProtectedRegion N)
    (free : ¬maxProtectedRegions ≤ t.stored.length) :
    (t.stored ++ [r]).length ≤ maxProtectedRegions := by
  rw [List.length_append, List.length_singleton]
  omega

theorem ordered_append (t : RegionTable N) {r : ProtectedRegion N}
    (sane : ¬r.endAddr < r.startAddr) :
    ∀ x ∈ t.stored ++ [r], x.startAddr ≤ x.endAddr := by
  intro x member
  rcases List.mem_append.mp member with old | new
  · exact t.ordered x old
  · rw [List.mem_singleton.mp new]
    exact BitVec.not_lt.mp sane

/-- `region_add`. A full table and an inverted range drop the region; its name is only logged. -/
def regionAdd (t : RegionTable N) (r : ProtectedRegion N) : RegionTable N :=
  if full : maxProtectedRegions ≤ t.stored.length then t
  else if inverted : r.endAddr < r.startAddr then t
  else ⟨t.stored ++ [r], room_append r full, ordered_append t inverted⟩

/-- The table after a sequence of `region_add` calls. -/
def ofCalls (calls : List (ProtectedRegion N)) : RegionTable N := calls.foldl regionAdd empty

end RegionTable

/-! ## The check -/

variable {N : Nat}

/-- The body of the loop over the table, which refuses the access or goes on. -/
def ProtectedRegion.refuses (r : ProtectedRegion N) (address endAddress : BitVec N)
    (write : Bool) : Bool :=
  if address ≤ r.endAddr ∧ r.startAddr ≤ endAddress then
    !r.readAllowed || (write && !r.writeAllowed)
  else false

def RegionTable.securityValidate (t : RegionTable N) (address size : BitVec N) (write : Bool) :
    Bool :=
  if address = 0#N ∧ 0#N < size then false
  else if 0#N < size ∧ BitVec.allOnes N - size < address then false
  else
    let endAddress := address + size - (if 0#N < size then 1#N else 0#N)
    t.stored.all fun r => !r.refuses address endAddress write

/-! ## Bytes of regions and accesses -/

def ProtectedRegion.bytes (r : ProtectedRegion N) : Set (BitVec N) :=
  {x | r.startAddr ≤ x ∧ x ≤ r.endAddr}

/-- The bytes from `address` on, `size` many. -/
def accessed (address size : BitVec N) : Set (BitVec N) :=
  {x | address.toNat ≤ x.toNat ∧ x.toNat < address.toNat + size.toNat}

def ProtectedRegion.Permits (r : ProtectedRegion N) (write : Bool) : Prop :=
  r.readAllowed = true ∧ (write = true → r.writeAllowed = true)

section Bounds

variable {address size : BitVec N}

theorem not_wraps_iff : ¬BitVec.allOnes N - size < address ↔
    address.toNat + size.toNat < 2 ^ N := by
  have bound := size.isLt
  have room : (BitVec.allOnes N - size).toNat = 2 ^ N - 1 - size.toNat := by
    rw [BitVec.toNat_sub_of_le (by rw [BitVec.le_def, BitVec.toNat_allOnes]; omega),
      BitVec.toNat_allOnes]
  rw [BitVec.lt_def, room]
  omega

/-- The last byte of an access that does not wrap. -/
theorem toNat_last (pos : 0#N < size) (fits : address.toNat + size.toNat < 2 ^ N) :
    (address + size - (if 0#N < size then 1#N else 0#N)).toNat =
      address.toNat + size.toNat - 1 := by
  have sized : 0 < size.toNat := by simpa [BitVec.lt_def] using pos
  have wide : 1 < 2 ^ N := by have := size.isLt; omega
  have one : (1#N).toNat = 1 := by rw [BitVec.toNat_ofNat, Nat.mod_eq_of_lt wide]
  have sum : (address + size).toNat = address.toNat + size.toNat := by
    rw [BitVec.toNat_add, Nat.mod_eq_of_lt fits]
  rw [if_pos pos, BitVec.toNat_sub_of_le (by rw [BitVec.le_def, sum, one]; omega), sum, one]

/-- The comparison of end points says whether there is a common byte. -/
theorem ProtectedRegion.overlap_iff {r : ProtectedRegion N} (ordered : r.startAddr ≤ r.endAddr)
    (pos : 0#N < size) (fits : address.toNat + size.toNat < 2 ^ N) :
    (address ≤ r.endAddr ∧ r.startAddr ≤ address + size - (if 0#N < size then 1#N else 0#N)) ↔
      (r.bytes ∩ accessed address size).Nonempty := by
  have sized : 0 < size.toNat := by simpa [BitVec.lt_def] using pos
  simp only [BitVec.le_def, toNat_last pos fits] at ordered ⊢
  constructor
  · rintro ⟨before, behind⟩
    rcases Nat.le_total r.startAddr.toNat address.toNat with inside | outside
    · refine ⟨address, ⟨?_, ?_⟩, le_rfl, by omega⟩ <;> simpa only [BitVec.le_def]
    · refine ⟨r.startAddr, ⟨?_, ?_⟩, outside, by omega⟩ <;> simp only [BitVec.le_def] <;> omega
  · rintro ⟨x, ⟨above, below⟩, low, high⟩
    simp only [BitVec.le_def] at above below
    omega

theorem ProtectedRegion.refuses_eq_false_iff {r : ProtectedRegion N} {write : Bool}
    {endAddress : BitVec N} :
    r.refuses address endAddress write = false ↔
      (address ≤ r.endAddr ∧ r.startAddr ≤ endAddress → r.Permits write) := by
  unfold refuses Permits
  split
  · rename_i meets
    cases r.readAllowed <;> cases r.writeAllowed <;> cases write <;> simp [meets]
  · rename_i apart
    simp [apart]

/-- What the gate admits, in terms of bytes. -/
theorem RegionTable.securityValidate_iff (t : RegionTable N) {write : Bool} (pos : 0#N < size) :
    t.securityValidate address size write = true ↔
      address ≠ 0#N ∧ address.toNat + size.toNat < 2 ^ N ∧
        ∀ r ∈ t.stored, (r.bytes ∩ accessed address size).Nonempty → r.Permits write := by
  unfold securityValidate
  by_cases null : address = 0#N
  · rw [if_pos ⟨null, pos⟩]
    simp [null]
  · rw [if_neg fun both => null both.1]
    by_cases fits : address.toNat + size.toNat < 2 ^ N
    · rw [if_neg fun both => not_wraps_iff.mpr fits both.2]
      simp only [List.all_eq_true, Bool.not_eq_true', ProtectedRegion.refuses_eq_false_iff]
      simp only [null, fits, ne_eq, not_false_eq_true, true_and]
      refine forall₂_congr fun r member => ?_
      rw [ProtectedRegion.overlap_iff (t.ordered r member) pos fits]
    · have wraps : BitVec.allOnes N - size < address := not_not.mp fun below =>
        fits (not_wraps_iff.mp below)
      rw [if_pos ⟨pos, wraps⟩]
      simp [fits]

end Bounds

/-- The gate admits an access just if it does not start at the null pointer, does not reach the
end of the address space, and every region it has a byte in permits it. So it admits every
non-empty part of an access it admits. -/
theorem memoryGate_iff (calls : List (ProtectedRegion N)) (address size : BitVec N)
    (pos : 0#N < size) (write : Bool) :
    let table := RegionTable.ofCalls calls
    (table.securityValidate address size write = true ↔
      address ≠ 0#N ∧ address.toNat + size.toNat < 2 ^ N ∧
        ∀ r ∈ table.stored, (r.bytes ∩ accessed address size).Nonempty →
          r.readAllowed = true ∧ (write = true → r.writeAllowed = true)) ∧
      (table.securityValidate address size write = true →
        ∀ a n : BitVec N, 0#N < n → address.toNat ≤ a.toNat →
          a.toNat + n.toNat ≤ address.toNat + size.toNat →
          table.securityValidate a n write = true) := by
  intro table
  refine ⟨table.securityValidate_iff pos, fun admitted a n some low high => ?_⟩
  obtain ⟨nonnull, fits, permitted⟩ := (table.securityValidate_iff pos).mp admitted
  refine (table.securityValidate_iff some).mpr ⟨?_, by omega, fun r member => ?_⟩
  · intro null
    rw [null, BitVec.toNat_zero] at low
    exact nonnull (BitVec.eq_of_toNat_eq (by simpa using low))
  · rintro ⟨x, region, above, below⟩
    exact permitted r member ⟨x, region, by omega, by omega⟩

/-- A guard page and a page that is read only. -/
def guardedPages : List (ProtectedRegion 32) :=
  [⟨0x0, 0xFFF, false, false, false⟩, ⟨0x1000, 0x1FFF, true, false, true⟩]

theorem memoryGate_iff_readOnly :
    let table := RegionTable.ofCalls guardedPages
    table.securityValidate 0x1800 16 false = true ∧
      ∀ a n : BitVec 32, 0#32 < n → 0x1800 ≤ a.toNat → a.toNat + n.toNat ≤ 0x1800 + 16 →
        table.securityValidate a n false = true :=
  ⟨by decide, (memoryGate_iff guardedPages 0x1800 16 (by decide) false).2 (by decide)⟩

/-! ## The gate on numbers -/

section Gate

variable {regions : List MemRegion} {a b n k : Nat} {write : Bool}

theorem validate_iff (pos : 0 < n) :
    securityValidateMemoryAccess regions a n write = true ↔
      a ≠ 0 ∧ a + n ≤ sizeMax ∧ ∀ r ∈ regions, r.forbids a (a + n - 1) write = false := by
  unfold securityValidateMemoryAccess
  by_cases null : a = 0
  · simp [null, pos]
  · by_cases wraps : sizeMax - n < a
    · have : ¬a + n ≤ sizeMax := by omega
      simp [null, pos, wraps, this]
    · have : a + n ≤ sizeMax := by omega
      simp [null, pos, wraps, this]

/-- The gate admits every part of a range it admits. -/
theorem validate_part (admitted : securityValidateMemoryAccess regions a n write = true)
    (pos : 0 < k) (low : a ≤ b) (high : b + k ≤ a + n) :
    securityValidateMemoryAccess regions b k write = true := by
  obtain ⟨nonnull, fits, allowed⟩ := (validate_iff (by omega)).mp admitted
  refine (validate_iff pos).mpr ⟨by omega, by omega, fun r member => ?_⟩
  have whole := allowed r member
  simp only [MemRegion.forbids, Bool.and_eq_false_iff, decide_eq_false_iff_not] at whole ⊢
  exact whole.imp_left fun apart => by omega

/-- The gate admits what is in front of a byte of a range it admits, the empty part too. -/
theorem validate_front (admitted : securityValidateMemoryAccess regions a n write = true)
    (front : k ≤ n) : securityValidateMemoryAccess regions a k write = true := by
  rcases Nat.eq_zero_or_pos k with rfl | some
  · rcases Nat.eq_zero_or_pos n with rfl | pos
    · exact admitted
    · obtain ⟨-, -, allowed⟩ := (validate_iff pos).mp admitted
      unfold securityValidateMemoryAccess
      simp only [lt_irrefl, and_false, false_and, if_false, List.all_eq_true, Bool.not_eq_true']
      intro r member
      have whole := allowed r member
      simp only [MemRegion.forbids, Bool.and_eq_false_iff, decide_eq_false_iff_not] at whole ⊢
      exact whole.imp_left fun apart => by omega
  · exact validate_part admitted some le_rfl (by omega)

theorem validate_read (admitted : securityValidateMemoryAccess regions a n true = true)
    (pos : 0 < n) : securityValidateMemoryAccess regions a n false = true := by
  obtain ⟨nonnull, fits, allowed⟩ := (validate_iff pos).mp admitted
  refine (validate_iff pos).mpr ⟨nonnull, fits, fun r member => ?_⟩
  have written := allowed r member
  simp only [MemRegion.forbids, Bool.and_eq_false_iff, Bool.or_eq_false_iff] at written ⊢
  exact written.imp_right fun both => ⟨both.1, .inl trivial⟩

end Gate

/-- Every region that meets the heap may be read and written. -/
def Admits (regions : List MemRegion) : Prop :=
  ∀ r ∈ regions, r.endAddr < heapStart ∨ heapEnd ≤ r.startAddr ∨
    (r.readAllowed = true ∧ r.writeAllowed = true)

instance (regions : List MemRegion) : Decidable (Admits regions) :=
  inferInstanceAs (Decidable (∀ r ∈ regions, _))

theorem Admits.validate {regions : List MemRegion} (admits : Admits regions) {a n : Nat}
    (low : heapStart ≤ a) (inside : a < heapEnd) (high : a + n ≤ heapEnd) (write : Bool) :
    securityValidateMemoryAccess regions a n write = true := by
  simp only [heapStart, heapEnd] at low inside high
  unfold securityValidateMemoryAccess
  rw [if_neg (by omega), if_neg (by simp only [sizeMax]; omega)]
  simp only [List.all_eq_true, Bool.not_eq_true']
  intro r member
  unfold MemRegion.forbids
  rcases admits r member with below | above | ⟨read, write⟩
  · simp only [heapStart] at below
    rw [decide_eq_false (by omega), Bool.false_and]
  · simp only [heapEnd] at above
    rw [decide_eq_false (by split <;> omega), Bool.false_and]
  · simp [read, write]

def ProtectedRegion.toMemRegion (r : ProtectedRegion 32) : MemRegion :=
  ⟨r.startAddr.toNat, r.endAddr.toNat, r.readAllowed, r.writeAllowed⟩

theorem ProtectedRegion.forbids_toMemRegion (r : ProtectedRegion 32)
    (address endAddress : BitVec 32) (write : Bool) :
    r.toMemRegion.forbids address.toNat endAddress.toNat write =
      r.refuses address endAddress write := by
  unfold MemRegion.forbids refuses toMemRegion
  simp only [BitVec.le_def]
  split <;> simp_all

/-- The gate on 32-bit words is the one on numbers. -/
theorem RegionTable.securityValidate_eq (t : RegionTable 32) (address size : BitVec 32)
    (write : Bool) :
    securityValidateMemoryAccess (t.stored.map ProtectedRegion.toMemRegion) address.toNat
      size.toNat write = t.securityValidate address size write := by
  have null : address.toNat = 0 ↔ address = 0#32 := by
    rw [← BitVec.toNat_inj]
    rfl
  have pos : 0 < size.toNat ↔ 0#32 < size := by simp [BitVec.lt_def]
  have wraps : sizeMax - size.toNat < address.toNat ↔ BitVec.allOnes 32 - size < address := by
    rw [← not_iff_not, not_wraps_iff]
    have := size.isLt
    simp only [sizeMax]
    omega
  unfold securityValidateMemoryAccess securityValidate
  simp only [null, pos, wraps]
  split
  · rfl
  · split
    · rfl
    · rename_i fits
      have last : address.toNat + size.toNat - (if 0#32 < size then 1 else 0) =
          (address + size - (if 0#32 < size then 1#32 else 0#32)).toNat := by
        by_cases some : 0#32 < size
        · rw [toNat_last some (not_wraps_iff.mp fun past => fits ⟨some, past⟩), if_pos some]
        · have none : size = 0#32 := by simpa using some
          simp [none]
      simp only [last, List.all_map, Function.comp_def, ProtectedRegion.forbids_toMemRegion]

end LughOS.Kernel

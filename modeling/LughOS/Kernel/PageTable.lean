import LughOS.Kernel.Heap
import LughOS.Library.Runs

/-!
# Section permissions

The first-level page table of `arm_mmu.c`. An entry is 0 or maps one megabyte to itself, with two
bits for the access permission; `arm_section_set_ap` replaces these bits and nothing else.

`withAp` is that replacement. Two of them in a row are the second, so the entry after any sequence
of calls is the one after `arm_mmu_init` with the permission of the last call that succeeded.
-/

namespace LughOS.Kernel

/-! ## Descriptors -/

def apKernelOnly : BitVec 32 := 1
def apUserRw : BitVec 32 := 3

/-- `SECTION_DESCRIPTOR`. -/
def sectionDescriptor (addr ap : BitVec 32) : BitVec 32 :=
  (addr &&& 0xFFF00000#32) ||| (ap <<< 10) ||| (0#32 <<< 5) ||| 0x2#32

abbrev PageTable := Fin 4096 → BitVec 32

namespace PageTable

def setEntry (t : PageTable) (i : Nat) (descriptor : BitVec 32) : PageTable :=
  fun j => if j.val = i then descriptor else t j

/-- One of the loops that map sections to themselves. -/
def mapSections (t : PageTable) (first last : Nat) (ap : BitVec 32) : PageTable :=
  (List.range' first (last - first)).foldl
    (fun t i => t.setEntry i (sectionDescriptor (BitVec.ofNat 32 i * 0x100000#32) ap)) t

/-- The table that `arm_mmu_init` builds. -/
def armMmuInit : PageTable :=
  let t : PageTable := fun _ => 0
  let t := t.mapSections 0 4 apKernelOnly
  let t := t.mapSections 4 8 apUserRw
  let t := t.mapSections (heapStart >>> 20) ((heapEnd + 0xFFFFF) >>> 20) apKernelOnly
  t.setEntry 0x101 (sectionDescriptor 0x10100000#32 apKernelOnly)

def armSectionGetAp (t : PageTable) (va : BitVec 32) : Int :=
  if h : (va >>> 20).toNat < 4096 then
    let entry := t ⟨(va >>> 20).toNat, h⟩
    if entry = 0#32 then -1
    else if entry &&& 0x3#32 ≠ 0x2#32 then -1
    else ((entry >>> 10) &&& 0x3#32).toNat
  else -1

def armSectionSetAp (t : PageTable) (va ap : BitVec 32) : Int × PageTable :=
  if h : (va >>> 20).toNat < 4096 then
    let entry := t ⟨(va >>> 20).toNat, h⟩
    if entry = 0#32 then (-1, t)
    else if entry &&& 0x3#32 ≠ 0x2#32 then (-1, t)
    else
      (0, t.setEntry (va >>> 20).toNat
        ((entry &&& ~~~(0x3#32 <<< 10)) ||| ((ap &&& 0x3#32) <<< 10)))
  else (-1, t)

/-! ## The field of the permission -/

/-- The permission in an entry. -/
def apOf (entry : BitVec 32) : BitVec 32 := (entry >>> 10) &&& 0x3#32

/-- An entry with another permission. -/
def withAp (entry ap : BitVec 32) : BitVec 32 :=
  (entry &&& ~~~(0x3#32 <<< 10)) ||| ((ap &&& 0x3#32) <<< 10)

/-- The bits of an entry under a mask, from its old bits and from the permission. -/
theorem withAp_and (entry ap mask : BitVec 32) :
    withAp entry ap &&& mask =
      (entry &&& (0xFFFFF3FF#32 &&& mask)) ||| (ap <<< 10 &&& (0xC00#32 &&& mask)) := by
  rw [withAp, BitVec.and_or_distrib_right, BitVec.and_assoc, BitVec.shiftLeft_and_distrib,
    BitVec.and_assoc]
  rfl

theorem withAp_others (entry ap : BitVec 32) :
    withAp entry ap &&& 0xFFFFF3FF#32 = entry &&& 0xFFFFF3FF#32 := by
  rw [withAp_and, show 0xC00#32 &&& 0xFFFFF3FF#32 = 0#32 by decide, BitVec.and_zero, BitVec.or_zero,
    BitVec.and_self]

/-- A mask without the field sees no difference. -/
theorem withAp_and_of_others {mask : BitVec 32} (entry ap : BitVec 32)
    (others : 0xFFFFF3FF#32 &&& mask = mask) : withAp entry ap &&& mask = entry &&& mask := by
  have same := congrArg (· &&& mask) (withAp_others entry ap)
  simpa only [BitVec.and_assoc, others] using same

theorem shifted_back {field : BitVec 32} (small : field.toNat < 4) :
    (field <<< 10) >>> 10 = field := by
  refine BitVec.eq_of_toNat_eq ?_
  rw [BitVec.toNat_ushiftRight, BitVec.toNat_shiftLeft, Nat.shiftLeft_eq, Nat.shiftRight_eq_div_pow,
    Nat.mod_eq_of_lt (by omega), Nat.mul_div_cancel _ (by decide)]

theorem and_three_lt (ap : BitVec 32) : (ap &&& 0x3#32).toNat < 4 := by
  rw [BitVec.toNat_and]
  exact Nat.lt_succ_of_le Nat.and_le_right

theorem apOf_withAp (entry ap : BitVec 32) : apOf (withAp entry ap) = ap &&& 0x3#32 := by
  have field : withAp entry ap &&& 0xC00#32 = (ap &&& 0x3#32) <<< 10 := by
    rw [withAp_and, show 0xFFFFF3FF#32 &&& 0xC00#32 = 0#32 by decide, BitVec.and_zero,
      BitVec.zero_or, BitVec.and_self, BitVec.shiftLeft_and_distrib]
    rfl
  have shifted := congrArg (fun bits : BitVec 32 => bits >>> 10) field
  simp only [BitVec.ushiftRight_and_distrib, shifted_back (and_three_lt ap)] at shifted
  exact shifted

theorem withAp_withAp (entry ap ap' : BitVec 32) :
    withAp (withAp entry ap) ap' = withAp entry ap' := by
  change (withAp entry ap &&& 0xFFFFF3FF#32) ||| _ = _
  rw [withAp_others]
  rfl

theorem withAp_apOf (entry : BitVec 32) : withAp entry (apOf entry) = entry := by
  have field : (apOf entry &&& 0x3#32) <<< 10 = entry &&& 0xC00#32 := by
    rw [apOf, BitVec.and_assoc, BitVec.and_self, BitVec.shiftLeft_and_distrib,
      BitVec.shiftLeft_ushiftRight, BitVec.and_assoc]
    rfl
  rw [withAp, field, ← BitVec.and_or_distrib_left]
  exact BitVec.and_allOnes

/-! ## Entries that map a section to itself -/

theorem sectionIndex_lt (va : BitVec 32) : (va >>> 20).toNat < 4096 := by
  have bound := va.isLt
  rw [BitVec.toNat_ushiftRight, Nat.shiftRight_eq_div_pow]
  omega

/-- The entry of an address. -/
def sectionIndex (va : BitVec 32) : Fin 4096 := ⟨(va >>> 20).toNat, sectionIndex_lt va⟩

structure IdentitySection (i : Fin 4096) (entry : BitVec 32) : Prop where
  base : entry &&& 0xFFF00000#32 = BitVec.ofNat 32 i.val <<< 20
  type : entry &&& 0x3#32 = 0x2#32

theorem IdentitySection.ne_zero {i : Fin 4096} {entry : BitVec 32}
    (identity : IdentitySection i entry) : entry ≠ 0#32 := by
  rintro rfl
  simpa using identity.type

theorem IdentitySection.withAp {i : Fin 4096} {entry : BitVec 32}
    (identity : IdentitySection i entry) (ap : BitVec 32) :
    IdentitySection i (withAp entry ap) := by
  constructor
  · rw [withAp_and_of_others entry ap (by decide)]
    exact identity.base
  · rw [withAp_and_of_others entry ap (by decide)]
    exact identity.type

/-- An address at a multiple of a megabyte has no other bits. -/
theorem megabytes_and (x : BitVec 32) : x <<< 20 &&& 0xFFF00000#32 = x <<< 20 := by
  rw [show 0xFFF00000#32 = BitVec.allOnes 32 <<< 20 by decide, ← BitVec.shiftLeft_and_distrib,
    BitVec.and_allOnes]

theorem sectionDescriptor_and (addr ap mask : BitVec 32) :
    sectionDescriptor addr ap &&& mask =
      (addr &&& (0xFFF00000#32 &&& mask)) ||| ((ap <<< 10 ||| 0x2#32) &&& mask) := by
  rw [sectionDescriptor, BitVec.zero_shiftLeft, BitVec.or_zero, BitVec.or_assoc,
    BitVec.and_or_distrib_right, BitVec.and_assoc]

theorem sectionDescriptor_identity (i : Fin 4096) {ap : BitVec 32}
    (used : ap = apKernelOnly ∨ ap = apUserRw) :
    IdentitySection i (sectionDescriptor (BitVec.ofNat 32 i.val <<< 20) ap) := by
  have base : (ap <<< 10 ||| 0x2#32) &&& 0xFFF00000#32 = 0#32 := by
    rcases used with rfl | rfl <;> decide
  have type : (ap <<< 10 ||| 0x2#32) &&& 0x3#32 = 0x2#32 := by
    rcases used with rfl | rfl <;> decide
  constructor
  · rw [sectionDescriptor_and, base, BitVec.or_zero, BitVec.and_self, megabytes_and]
  · rw [sectionDescriptor_and, type, show 0xFFF00000#32 &&& 0x3#32 = 0#32 by decide,
      BitVec.and_zero, BitVec.zero_or]

/-- Every entry is 0 or maps its section to itself. -/
def Identity (t : PageTable) : Prop := ∀ i, t i = 0#32 ∨ IdentitySection i (t i)

variable {t : PageTable}

theorem Identity.setEntry (identity : t.Identity) (i : Nat) {descriptor : BitVec 32}
    (new : ∀ j : Fin 4096, j.val = i → IdentitySection j descriptor) :
    (t.setEntry i descriptor).Identity := by
  intro j
  unfold PageTable.setEntry
  split
  · rename_i here
    exact .inr (new j here)
  · exact identity j

theorem Identity.mapSections (identity : t.Identity) (first last : Nat) {ap : BitVec 32}
    (used : ap = apKernelOnly ∨ ap = apUserRw) : (t.mapSections first last ap).Identity := by
  unfold PageTable.mapSections
  induction List.range' first (last - first) generalizing t with
  | nil => exact identity
  | cons i rest ih =>
      refine ih (identity.setEntry i ?_)
      rintro j rfl
      have shifted : BitVec.ofNat 32 j.val * 0x100000#32 = BitVec.ofNat 32 j.val <<< 20 :=
        (BitVec.shiftLeft_eq_mul_twoPow _ 20).symm
      rw [shifted]
      exact sectionDescriptor_identity j used

theorem armMmuInit_identity : armMmuInit.Identity := by
  have zero : Identity fun _ => 0 := fun _ => .inl rfl
  unfold armMmuInit
  refine Identity.setEntry ?_ 0x101 ?_
  · exact ((zero.mapSections 0 4 (.inl rfl)).mapSections 4 8 (.inr rfl)).mapSections _ _ (.inl rfl)
  · intro j here
    have device := sectionDescriptor_identity j (.inl rfl)
    rwa [here] at device

/-! ## One call -/

/-- The test of the entry's type never refuses what the test for zero accepts. -/
theorem Identity.checked {α : Type} (identity : t.Identity) (va : BitVec 32) (refused done : α) :
    (if t (sectionIndex va) = 0#32 then refused
      else if t (sectionIndex va) &&& 0x3#32 ≠ 0x2#32 then refused else done) =
      if t (sectionIndex va) = 0#32 then refused else done := by
  rcases identity (sectionIndex va) with zero | mapped
  · rw [if_pos zero, if_pos zero]
  · rw [if_neg mapped.ne_zero, if_neg mapped.ne_zero, if_neg (not_not.mpr mapped.type)]

theorem armSectionGetAp_eq (identity : t.Identity) (va : BitVec 32) :
    t.armSectionGetAp va =
      if t (sectionIndex va) = 0#32 then -1 else ((apOf (t (sectionIndex va))).toNat : Int) := by
  rw [armSectionGetAp, dif_pos (sectionIndex_lt va)]
  exact identity.checked va _ _

theorem armSectionSetAp_eq (identity : t.Identity) (va ap : BitVec 32) :
    t.armSectionSetAp va ap =
      if t (sectionIndex va) = 0#32 then (-1, t)
      else (0, t.setEntry (va >>> 20).toNat (withAp (t (sectionIndex va)) ap)) := by
  rw [armSectionSetAp, dif_pos (sectionIndex_lt va)]
  exact identity.checked va _ _

/-! ## Runs -/

/-- A call of `arm_section_set_ap`. -/
structure ApCall where
  va : BitVec 32
  ap : BitVec 32

def apStep (t : PageTable) (call : ApCall) : PageTable := (t.armSectionSetAp call.va call.ap).2

theorem apStep_eq (identity : t.Identity) (call : ApCall) :
    apStep t call =
      if t (sectionIndex call.va) = 0#32 then t
      else t.setEntry (call.va >>> 20).toNat (withAp (t (sectionIndex call.va)) call.ap) := by
  rw [apStep, armSectionSetAp_eq identity]
  split <;> rfl

/-- The calls that succeeded, from the first to the last. -/
def successes (calls : List ApCall) : List ApCall :=
  Runs.outputs apStep
    (fun t call => if (t.armSectionSetAp call.va call.ap).1 = 0 then [call] else [])
    armMmuInit calls

/-- The permission of the last successful call for an entry, or that of the boot. -/
def currentAp (calls : List ApCall) (i : Fin 4096) : BitVec 32 :=
  (((successes calls).filter fun call => decide (sectionIndex call.va = i)).getLast?).elim
    (apOf (armMmuInit i)) fun call => call.ap &&& 0x3#32

/-- The table after the calls: the one of the boot, with the current permissions. -/
structure Permitted (calls : List ApCall) (t : PageTable) : Prop where
  unmapped : ∀ i, armMmuInit i = 0#32 → t i = 0#32
  mapped : ∀ i, armMmuInit i ≠ 0#32 → t i = withAp (armMmuInit i) (currentAp calls i)

theorem Permitted.identity {calls : List ApCall} (permitted : Permitted calls t) :
    t.Identity := by
  intro i
  rcases armMmuInit_identity i with zero | mapped
  · exact .inl (permitted.unmapped i zero)
  · rw [permitted.mapped i mapped.ne_zero]
    exact .inr (mapped.withAp _)

theorem Permitted.zero_iff {calls : List ApCall} (permitted : Permitted calls t) (i : Fin 4096) :
    t i = 0#32 ↔ armMmuInit i = 0#32 := by
  refine ⟨fun zero => ?_, permitted.unmapped i⟩
  rcases armMmuInit_identity i with unmapped | mapped
  · exact unmapped
  · have still := mapped.withAp (currentAp calls i)
    rw [← permitted.mapped i mapped.ne_zero] at still
    exact absurd zero still.ne_zero

theorem permitted_start : Permitted [] armMmuInit :=
  ⟨fun _ zero => zero, fun i _ => (withAp_apOf (armMmuInit i)).symm⟩

theorem successes_concat {calls : List ApCall} (call : ApCall)
    (permitted : Permitted calls (Runs.after apStep armMmuInit calls)) :
    successes (calls ++ [call]) =
      successes calls ++
        if armMmuInit (sectionIndex call.va) = 0#32 then [] else [call] := by
  rw [successes, Runs.outputs_concat, armSectionSetAp_eq permitted.identity]
  simp only [permitted.zero_iff]
  split <;> rfl

theorem currentAp_concat {calls : List ApCall} (call : ApCall) (i : Fin 4096)
    (permitted : Permitted calls (Runs.after apStep armMmuInit calls)) :
    currentAp (calls ++ [call]) i =
      if sectionIndex call.va = i ∧ armMmuInit i ≠ 0#32 then call.ap &&& 0x3#32
      else currentAp calls i := by
  unfold currentAp
  rw [successes_concat call permitted, List.filter_append]
  by_cases here : sectionIndex call.va = i
  · subst here
    by_cases zero : armMmuInit (sectionIndex call.va) = 0#32
    · simp [zero]
    · simp [zero]
  · have refused : (if armMmuInit (sectionIndex call.va) = 0#32 then [] else [call]).filter
        (fun call => decide (sectionIndex call.va = i)) = [] := by
      split <;> simp [here]
    rw [refused, List.append_nil, if_neg (fun both => here both.1)]

theorem currentAp_and (calls : List ApCall) (i : Fin 4096) :
    currentAp calls i &&& 0x3#32 = currentAp calls i := by
  unfold currentAp
  cases ((successes calls).filter fun call => decide (sectionIndex call.va = i)).getLast? with
  | none => exact (BitVec.and_assoc _ _ _).trans (congrArg _ (BitVec.and_self))
  | some call => exact (BitVec.and_assoc _ _ _).trans (congrArg _ (BitVec.and_self))

theorem permitted_step (calls : List ApCall) (call : ApCall)
    (permitted : Permitted calls (Runs.after apStep armMmuInit calls)) :
    Permitted (calls ++ [call]) (apStep (Runs.after apStep armMmuInit calls) call) := by
  rw [apStep_eq permitted.identity]
  simp only [permitted.zero_iff]
  by_cases zero : armMmuInit (sectionIndex call.va) = 0#32
  · rw [if_pos zero]
    refine ⟨permitted.unmapped, fun i mapped => ?_⟩
    -- The call is refused, so it is not among those whose permission is current.
    rw [currentAp_concat call i permitted, if_neg, permitted.mapped i mapped]
    rintro ⟨rfl, -⟩
    exact mapped zero
  · rw [if_neg zero]
    constructor
    · intro i unmapped
      have other : ¬i.val = (call.va >>> 20).toNat := by
        intro here
        have same : i = sectionIndex call.va := Fin.ext here
        exact zero (same ▸ unmapped)
      exact (if_neg other).trans (permitted.unmapped i unmapped)
    · intro i mapped
      rw [currentAp_concat call i permitted]
      by_cases here : sectionIndex call.va = i
      · subst here
        rw [if_pos ⟨rfl, zero⟩, permitted.mapped _ zero, withAp_withAp]
        refine (if_pos rfl).trans ?_
        rw [withAp, withAp, BitVec.and_assoc, BitVec.and_self]
      · rw [if_neg fun both => here both.1]
        have other : ¬i.val = (call.va >>> 20).toNat := fun same => here (Fin.ext same.symm)
        exact (if_neg other).trans (permitted.mapped i mapped)

theorem permitted_after (calls : List ApCall) :
    Permitted calls (Runs.after apStep armMmuInit calls) :=
  Runs.run_history permitted_start
    (fun calls call permitted _ => permitted_step calls call permitted) (Runs.meets_true _ _)

/-- After any calls an entry is 0 as after the boot, or it maps its section to itself with all bits
as after the boot but for the current permission. The permission can be read just where the entry
is not 0, and a call is refused just where it is. -/
theorem section_calls_change_permissions_only (calls : List ApCall) :
    let t := Runs.after apStep armMmuInit calls
    (∀ i, (armMmuInit i = 0#32 ∧ t i = 0#32) ∨
      (IdentitySection i (t i) ∧ t i &&& 0xFFFFF3FF#32 = armMmuInit i &&& 0xFFFFF3FF#32 ∧
        apOf (t i) = currentAp calls i)) ∧
    (∀ va, (t.armSectionGetAp va = -1 ↔ t (sectionIndex va) = 0#32) ∧
      (t (sectionIndex va) ≠ 0#32 →
        t.armSectionGetAp va = (currentAp calls (sectionIndex va)).toNat)) ∧
    ∀ va ap, (t.armSectionSetAp va ap = (-1, t) ↔ t (sectionIndex va) = 0#32) ∧
      (t (sectionIndex va) ≠ 0#32 → (t.armSectionSetAp va ap).1 = 0) := by
  intro t
  have permitted : Permitted calls t := permitted_after calls
  have field (i : Fin 4096) (mapped : t i ≠ 0#32) : apOf (t i) = currentAp calls i := by
    rw [permitted.mapped i (mt (permitted.zero_iff i).mpr mapped), apOf_withAp, currentAp_and]
  refine ⟨fun i => ?_, fun va => ?_, fun va ap => ?_⟩
  · rcases permitted.identity i with zero | mapped
    · exact .inl ⟨(permitted.zero_iff i).mp zero, zero⟩
    · refine .inr ⟨mapped, ?_, field i mapped.ne_zero⟩
      rw [permitted.mapped i (mt (permitted.zero_iff i).mpr mapped.ne_zero), withAp_others]
  · rw [armSectionGetAp_eq permitted.identity]
    by_cases zero : t (sectionIndex va) = 0#32
    · simp [zero]
    · rw [if_neg zero, field _ zero]
      have read : ((currentAp calls (sectionIndex va)).toNat : Int) ≠ -1 := by omega
      exact ⟨iff_of_false read zero, fun _ => rfl⟩
  · rw [armSectionSetAp_eq permitted.identity]
    by_cases zero : t (sectionIndex va) = 0#32
    · simp [zero]
    · simp [zero]

end PageTable

end LughOS.Kernel

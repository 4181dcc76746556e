import LughOS.Kernel.PageTable

/-!
# The MMU

The page table as the processor uses it: through a TLB, which may keep an entry for as long as it
likes and forget it at any time, and under the domains of `DACR`. `arm_section_set_ap` invalidates
the TLB behind each change of the table. So an access is decided by the permission that was set
last, whatever the TLB has kept, and one that is let through reaches the address it names.
-/

namespace LughOS.Kernel

open PageTable

/-- The table, `DACR`, and the entries that the TLB has kept. -/
structure Mmu where
  l1 : PageTable
  dacr : BitVec 32
  tlb : Fin 4096 → Option (BitVec 32)

/-- The permissions of ARMv5 with the bits S and R clear. -/
def apPermits (ap : BitVec 32) (user write : Bool) : Bool :=
  if ap = 0 then false
  else if ap = 1 then !user
  else if ap = 2 then !(user && write)
  else true

namespace Mmu

def armMmuInit : Mmu := ⟨PageTable.armMmuInit, 0x55555555, fun _ => none⟩

def armTlbInvalidateAll (m : Mmu) : Mmu := { m with tlb := fun _ => none }

def armSectionSetAp (m : Mmu) (va ap : BitVec 32) : Int × Mmu :=
  let (rv, l1) := m.l1.armSectionSetAp va ap
  (rv, if rv = 0 then { m with l1 := l1 }.armTlbInvalidateAll else m)

/-- The entry of a section, from the TLB or from the table. -/
def lookup (m : Mmu) (i : Fin 4096) : BitVec 32 := (m.tlb i).getD (m.l1 i)

/-- A client of a domain is subject to the permission, a manager is not. -/
def admits (m : Mmu) (entry : BitVec 32) (user write : Bool) : Bool :=
  let domain := ((entry >>> 5) &&& 0xF#32).toNat
  let mode := (m.dacr >>> (2 * domain)) &&& 0x3#32
  if mode = 1 then apPermits (apOf entry) user write else mode = 3

/-- An access: the physical address, or none for a fault. -/
def access (m : Mmu) (va : BitVec 32) (user write : Bool) : Option (BitVec 32) × Mmu :=
  let entry := m.lookup (sectionIndex va)
  if entry &&& 0x3#32 ≠ 0x2#32 then (none, m)
  else
    (if m.admits entry user write then
        some ((entry &&& 0xFFF00000#32) ||| (va &&& 0x000FFFFF#32))
      else none,
      { m with tlb := Function.update m.tlb (sectionIndex va) (some entry) })

end Mmu

inductive MmuEvent where
  | access (va : BitVec 32) (user write : Bool)
  | setAp (call : ApCall)
  /-- The TLB drops an entry. -/
  | forget (i : Fin 4096)

def mmuStep (m : Mmu) : MmuEvent → Mmu
  | .access va user write => (m.access va user write).2
  | .setAp call => (m.armSectionSetAp call.va call.ap).2
  | .forget i => { m with tlb := Function.update m.tlb i none }

def MmuEvent.call? : MmuEvent → Option ApCall
  | .setAp call => some call
  | _ => none

/-! ## The TLB holds nothing old -/

/-- The table is the one after the calls, and the TLB agrees with it. -/
structure Mmu.Tracks (calls : List ApCall) (m : Mmu) : Prop where
  l1 : m.l1 = Runs.after apStep PageTable.armMmuInit calls
  dacr : m.dacr = 0x55555555
  tlb : ∀ i entry, m.tlb i = some entry → entry = m.l1 i

namespace Mmu.Tracks

variable {m : Mmu} {calls : List ApCall}

theorem lookup_eq (tracks : Tracks calls m) (i : Fin 4096) : m.lookup i = m.l1 i := by
  rw [lookup]
  cases kept : m.tlb i with
  | none => rfl
  | some entry => exact tracks.tlb i entry kept

theorem access (tracks : Tracks calls m) (va : BitVec 32) (user write : Bool) :
    Tracks calls (m.access va user write).2 := by
  unfold Mmu.access
  dsimp only
  split
  · exact tracks
  · refine ⟨tracks.l1, tracks.dacr, fun i entry kept => ?_⟩
    change Function.update m.tlb _ (some (m.lookup (sectionIndex va))) i = some entry at kept
    by_cases here : i = sectionIndex va
    · rw [here, Function.update_self] at kept
      rw [here]
      exact (Option.some.inj kept).symm.trans (tracks.lookup_eq _)
    · rw [Function.update_of_ne here] at kept
      exact tracks.tlb i entry kept

theorem permitted (tracks : Tracks calls m) : Permitted calls m.l1 := by
  rw [tracks.l1]
  exact permitted_after calls

theorem setAp (tracks : Tracks calls m) (call : ApCall) :
    Tracks (calls ++ [call]) (m.armSectionSetAp call.va call.ap).2 := by
  have table : (m.l1.armSectionSetAp call.va call.ap).2 =
      Runs.after apStep PageTable.armMmuInit (calls ++ [call]) := by
    rw [Runs.after_concat, ← tracks.l1]
    rfl
  have outcome := armSectionSetAp_eq tracks.permitted.identity call.va call.ap
  rw [Mmu.armSectionSetAp]
  by_cases unmapped : m.l1 (sectionIndex call.va) = 0#32
  · rw [if_pos unmapped] at outcome
    rw [outcome] at table ⊢
    exact ⟨table, tracks.dacr, tracks.tlb⟩
  · rw [if_neg unmapped] at outcome
    rw [outcome] at table ⊢
    exact ⟨table, tracks.dacr, fun i entry kept => by cases kept⟩

theorem forget (tracks : Tracks calls m) (i : Fin 4096) :
    Tracks calls (mmuStep m (.forget i)) := by
  refine ⟨tracks.l1, tracks.dacr, fun j entry kept => tracks.tlb j entry ?_⟩
  change Function.update m.tlb i none j = some entry at kept
  by_cases here : j = i
  · rw [here, Function.update_self] at kept
    cases kept
  · rwa [Function.update_of_ne here] at kept

theorem after (events : List MmuEvent) :
    Tracks (events.filterMap MmuEvent.call?) (Runs.after mmuStep Mmu.armMmuInit events) := by
  induction events using List.reverseRecOn with
  | nil => exact ⟨rfl, rfl, fun i entry kept => by cases kept⟩
  | append_singleton events e ih =>
      rw [Runs.after_concat, List.filterMap_append]
      cases e with
      | access va user write =>
          rw [List.filterMap_cons_none rfl, List.filterMap_nil, List.append_nil]
          exact ih.access va user write
      | setAp call => exact ih.setAp call
      | forget i =>
          rw [List.filterMap_cons_none rfl, List.filterMap_nil, List.append_nil]
          exact ih.forget i

end Mmu.Tracks

/-- All domains are clients. -/
theorem Mmu.admits_eq {m : Mmu} (dacr : m.dacr = 0x55555555) (entry : BitVec 32)
    (user write : Bool) : m.admits entry user write = apPermits (apOf entry) user write := by
  have clients : ∀ domain < 16, (0x55555555#32 >>> (2 * domain)) &&& 0x3#32 = 1#32 := by decide
  have small : ((entry >>> 5) &&& 0xF#32).toNat < 16 := by
    rw [BitVec.toNat_and]
    exact Nat.lt_succ_of_le Nat.and_le_right
  rw [admits, dacr]
  exact if_pos (clients _ small)

/-- A section that is mapped to itself. -/
theorem PageTable.IdentitySection.translate {va entry : BitVec 32}
    (identity : IdentitySection (sectionIndex va) entry) :
    (entry &&& 0xFFF00000#32) ||| (va &&& 0x000FFFFF#32) = va := by
  have index : BitVec.ofNat 32 (sectionIndex va).val = va >>> 20 := by
    change BitVec.ofNat 32 (va >>> 20).toNat = va >>> 20
    rw [BitVec.ofNat_toNat, BitVec.setWidth_eq]
  have high : (va >>> 20) <<< 20 = va &&& 0xFFF00000#32 := BitVec.shiftLeft_ushiftRight
  rw [identity.base, index, high, ← BitVec.and_or_distrib_left]
  exact BitVec.and_allOnes

/-- Over any run of accesses, changes of permissions and losses of the TLB: an access reaches the
address it names just if the boot mapped its section and the permission that was set last for it
allows the access, and faults otherwise. -/
theorem accesses_follow_permissions (events : List MmuEvent) (va : BitVec 32) (user write : Bool) :
    ((Runs.after mmuStep Mmu.armMmuInit events).access va user write).1 =
      if PageTable.armMmuInit (sectionIndex va) ≠ 0 ∧
          apPermits (currentAp (events.filterMap MmuEvent.call?) (sectionIndex va)) user write then
        some va
      else none := by
  have tracks := Mmu.Tracks.after events
  generalize events.filterMap MmuEvent.call? = calls at tracks ⊢
  generalize Runs.after mmuStep Mmu.armMmuInit events = m at tracks ⊢
  have entry_eq := tracks.lookup_eq (sectionIndex va)
  unfold Mmu.access
  dsimp only
  rcases tracks.permitted.identity (sectionIndex va) with unmapped | mapped
  · rw [entry_eq, unmapped, if_pos (by decide), if_neg]
    exact fun allowed => allowed.1 ((tracks.permitted.zero_iff _).mp unmapped)
  · have boot := mt (tracks.permitted.zero_iff (sectionIndex va)).mpr mapped.ne_zero
    have field : apOf (m.l1 (sectionIndex va)) = currentAp calls (sectionIndex va) := by
      rw [tracks.permitted.mapped _ boot, apOf_withAp, currentAp_and]
    rw [entry_eq, if_neg (not_not.mpr mapped.type), mapped.translate, Mmu.admits_eq tracks.dacr,
      field]
    by_cases allowed : apPermits (currentAp calls (sectionIndex va)) user write = true
    · rw [if_pos allowed, if_pos ⟨boot, allowed⟩]
    · rw [if_neg allowed, if_neg fun both => allowed both.2]

end LughOS.Kernel

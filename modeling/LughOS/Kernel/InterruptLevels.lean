import LughOS.Library.Sections

/-!
# Interrupt priority levels

The level calls of `arch/x86/pic.c`. A level is a set of interrupts that are masked besides those
that were never enabled, and the two interrupt controllers are always given the union.

`splraise` compares sets as numbers. That is right for the four sets of `ipl_to_mask`, of which
each contains the ones before it, and as long as every section restores what it found no other set
is ever in force. The sections are those of `Sections`: `splraise` promises its set and what was
masked before, `spl0` promises nothing.
-/

namespace LughOS.Kernel

open Sections

/-! ## The controllers -/

/-- The statics of `pic.c`, and the byte that was written last to each port. -/
structure Pic where
  enabledMask : BitVec 16
  iplMask : BitVec 16
  ports : BitVec 16 → BitVec 8

def pic1Cmd : BitVec 16 := 0x20
def pic1Data : BitVec 16 := 0x21
def pic2Cmd : BitVec 16 := 0xA0
def pic2Data : BitVec 16 := 0xA1

/-- `ipl_to_mask`, indexed by `IPL_NONE`, `IPL_TTY`, `IPL_CLOCK` and `IPL_HIGH`. -/
def iplToMask (ipl : Fin 4) : BitVec 16 :=
  match ipl.val with
  | 0 => 0x0000
  | 1 => 0x00F0
  | 2 => 0xFFFE
  | _ => 0xFFFF

theorem iplNone_lt : 0 < 4 := by decide
theorem iplClock_lt : 2 < 4 := by decide
theorem iplHigh_lt : 3 < 4 := by decide

def iplNone : Fin 4 := ⟨0, iplNone_lt⟩
def iplClock : Fin 4 := ⟨2, iplClock_lt⟩
def iplHigh : Fin 4 := ⟨3, iplHigh_lt⟩

namespace Pic

def outb (p : Pic) (port : BitVec 16) (value : BitVec 8) : Pic :=
  { p with ports := Function.update p.ports port value }

def ioWait (p : Pic) : Pic := p.outb 0x80 0

def applyMask (p : Pic) : Pic :=
  let m := p.enabledMask ||| p.iplMask
  (p.outb pic1Data (m.setWidth 8)).outb pic2Data ((m >>> 8).setWidth 8)

/-- The statics as the loader leaves them. -/
def powerOn (ports : BitVec 16 → BitVec 8) : Pic := ⟨0xFFFB, 0xFFFF, ports⟩

/-- The initialisation words of `pic_remap`, each followed by the write of `io_wait`. -/
def remapWords : List (BitVec 16 × BitVec 8) :=
  [(pic1Cmd, 0x11), (pic2Cmd, 0x11), (pic1Data, 0x20), (pic2Data, 0x28), (pic1Data, 0x04),
    (pic2Data, 0x02), (pic1Data, 0x01), (pic2Data, 0x01)]

/-- It is irreducible because every write copies the record. -/
@[irreducible] def picRemap (p : Pic) : Pic :=
  (remapWords.foldl (fun p word => (p.outb word.1 word.2).ioWait) p).applyMask

def picUnmask (p : Pic) (irq : BitVec 8) : Pic :=
  if 16 ≤ irq.toNat then p
  else { p with enabledMask := p.enabledMask &&& ~~~(1#16 <<< irq.toNat) }.applyMask

/-! ## Levels -/

def splraise (p : Pic) (ipl : BitVec 32) : BitVec 16 × Pic :=
  (p.iplMask,
    if h : ipl.toNat < 4 then
      let want := iplToMask ⟨ipl.toNat, h⟩
      if p.iplMask < want then { p with iplMask := want }.applyMask else p
    else p)

def splx (p : Pic) (prev : BitVec 16) : Pic := { p with iplMask := prev }.applyMask

def splhigh (p : Pic) : BitVec 16 × Pic := p.splraise 3

def splclock (p : Pic) : BitVec 16 × Pic := p.splraise 2

def spl0 (p : Pic) : BitVec 16 × Pic :=
  (p.iplMask, { p with iplMask := iplToMask iplNone }.applyMask)

/-- The masks that the two controllers were given last, as one set. -/
def written (p : Pic) : BitVec 16 := p.ports pic2Data ++ p.ports pic1Data

end Pic

/-- The calls that open a critical section. -/
inductive Opener where
  | splraise (ipl : BitVec 32)
  | splhigh
  | splclock
  | spl0
  deriving DecidableEq

def Opener.perform (p : Pic) : Opener → BitVec 16 × Pic
  | .splraise ipl => p.splraise ipl
  | .splhigh => p.splhigh
  | .splclock => p.splclock
  | .spl0 => p.spl0

/-! ## The mask of the controllers -/

namespace Pic

variable {p : Pic}

@[simp] theorem outb_iplMask (port : BitVec 16) (value : BitVec 8) :
    (p.outb port value).iplMask = p.iplMask := rfl

@[simp] theorem outb_enabledMask (port : BitVec 16) (value : BitVec 8) :
    (p.outb port value).enabledMask = p.enabledMask := rfl

@[simp] theorem applyMask_iplMask : p.applyMask.iplMask = p.iplMask := rfl

theorem sent_iplMask (words : List (BitVec 16 × BitVec 8)) (p : Pic) :
    (words.foldl (fun p word => (p.outb word.1 word.2).ioWait) p).iplMask = p.iplMask := by
  induction words generalizing p with
  | nil => rfl
  | cons word words ih => exact ih _

theorem picRemap_iplMask (p : Pic) : p.picRemap.iplMask = p.iplMask := by
  rw [picRemap, applyMask_iplMask, sent_iplMask]

theorem bytes_append (m : BitVec 16) : (m >>> 8).setWidth 8 ++ m.setWidth 8 = m := by
  refine BitVec.eq_of_getLsbD_eq fun i below => ?_
  rw [BitVec.getLsbD_append]
  split
  · rename_i low
    simp [low]
  · rename_i high
    have inside : i - 8 < 8 := by omega
    have back : 8 + (i - 8) = i := by omega
    simp [inside, back]

/-- The controllers have the union of the two masks. -/
def Applied (p : Pic) : Prop := p.written = p.enabledMask ||| p.iplMask

theorem applyMask_applied (p : Pic) : p.applyMask.Applied := by
  have other : pic1Data ≠ pic2Data := by decide
  simp only [Applied, written, applyMask, outb, Function.update_self,
    Function.update_of_ne other]
  exact bytes_append _

theorem picRemap_applied (p : Pic) : p.picRemap.Applied := by
  rw [picRemap]
  exact applyMask_applied _

theorem splraise_applied (applied : p.Applied) (ipl : BitVec 32) :
    (p.splraise ipl).2.Applied := by
  unfold splraise
  dsimp only
  split
  · split
    · exact applyMask_applied _
    · exact applied
  · exact applied

end Pic

/-- The level calls save and restore the mask of the level. -/
def levels : Saving Pic Opener (BitVec 8) (BitVec 16) where
  value := Pic.iplMask
  enter := fun o p => o.perform p
  leave := fun prev p => p.splx prev
  other := fun irq p => p.picUnmask irq
  saves := fun o _ => by cases o <;> rfl
  restores := fun _ _ => rfl
  keeps := fun irq p => by
    unfold Pic.picUnmask
    split <;> rfl

/-- A controller with the open sections. -/
abbrev Leveled := Pic × List (Frame Opener (BitVec 16))

theorem levels_step_applied (x : Leveled) (call : Call Opener (BitVec 8))
    (applied : x.1.Applied) : (levels.step x call).1.Applied := by
  cases call with
  | enter o =>
      cases o with
      | splraise ipl => exact Pic.splraise_applied applied ipl
      | splhigh => exact Pic.splraise_applied applied 3
      | splclock => exact Pic.splraise_applied applied 2
      | spl0 => exact Pic.applyMask_applied _
  | leave =>
      obtain ⟨p, frames⟩ := x
      cases frames with
      | nil => exact applied
      | cons f rest => exact Pic.applyMask_applied _
  | other irq =>
      change (x.1.picUnmask irq).Applied
      unfold Pic.picUnmask
      split
      · exact applied
      · exact Pic.applyMask_applied _

/-! ## Levels as sets -/

/-- Every interrupt of the one set is in the other. -/
def Within (a b : BitVec 16) : Prop := ∀ irq, a.getLsbD irq = true → b.getLsbD irq = true

theorem Within.trans {a b c : BitVec 16} (ab : Within a b) (bc : Within b c) : Within a c :=
  fun irq set => bc irq (ab irq set)

theorem within_of_and {a b : BitVec 16} (same : a &&& b = a) : Within a b := by
  intro irq set
  rw [← same, BitVec.getLsbD_and, Bool.and_eq_true] at set
  exact set.2

theorem within_or_right (a b : BitVec 16) : Within b (a ||| b) := by
  intro irq set
  rw [BitVec.getLsbD_or, set, Bool.or_true]

def IsLevel (mask : BitVec 16) : Prop := ∃ l, mask = iplToMask l

/-- Raising a level covers both sets, since the sets of the levels are nested. -/
theorem raised_covers (old new : Fin 4) :
    let raised := if iplToMask old < iplToMask new then iplToMask new else iplToMask old
    Within (iplToMask new) raised ∧ Within (iplToMask old) raised := by
  have both : ∀ old new : Fin 4,
      let raised := if iplToMask old < iplToMask new then iplToMask new else iplToMask old
      iplToMask new &&& raised = iplToMask new ∧ iplToMask old &&& raised = iplToMask old := by
    decide
  exact ⟨within_of_and (both old new).1, within_of_and (both old new).2⟩

/-- What an opener promises to keep masked. -/
def Opener.promise : Opener → BitVec 16 → Option (BitVec 16)
  | .splraise ipl, found => some (if h : ipl.toNat < 4 then iplToMask ⟨ipl.toNat, h⟩ else found)
  | .splhigh, _ => some (iplToMask iplHigh)
  | .splclock, _ => some (iplToMask iplClock)
  | .spl0, _ => none

theorem Opener.promise_eq_none_iff (o : Opener) (found : BitVec 16) :
    o.promise found = none ↔ o = .spl0 := by
  cases o <;> simp [promise]

section Raise

variable {p : Pic}

/-- The level that `splraise` leaves. -/
theorem splraise_iplMask {ipl : BitVec 32} (small : ipl.toNat < 4) :
    (p.splraise ipl).2.iplMask =
      if p.iplMask < iplToMask ⟨ipl.toNat, small⟩ then iplToMask ⟨ipl.toNat, small⟩
      else p.iplMask := by
  rw [Pic.splraise, dif_pos small]
  dsimp only
  split <;> rfl

theorem splraise_covers (level : IsLevel p.iplMask) (ipl : BitVec 32) :
    IsLevel (p.splraise ipl).2.iplMask ∧
      (∀ small : ipl.toNat < 4,
        Within (iplToMask ⟨ipl.toNat, small⟩) (p.splraise ipl).2.iplMask) ∧
      Within p.iplMask (p.splraise ipl).2.iplMask := by
  obtain ⟨old, is_old⟩ := level
  by_cases small : ipl.toNat < 4
  · have covers := raised_covers old ⟨ipl.toNat, small⟩
    rw [splraise_iplMask small, is_old]
    refine ⟨?_, fun _ => covers.1, covers.2⟩
    split
    · exact ⟨_, rfl⟩
    · exact ⟨old, rfl⟩
  · have same : (p.splraise ipl).2 = p := dif_neg small
    rw [same]
    exact ⟨⟨old, is_old⟩, fun yes => absurd yes small, fun _ set => set⟩

end Raise

theorem levels_promises : Promises levels IsLevel Within Opener.promise where
  trans := fun _ _ _ => Within.trans
  valid := by
    intro o p level
    cases o with
    | splraise ipl => exact (splraise_covers level ipl).1
    | splhigh => exact (splraise_covers level 3).1
    | splclock => exact (splraise_covers level 2).1
    | spl0 => exact ⟨iplNone, rfl⟩
  kept := by
    intro o p w level promised
    cases o with
    | splraise ipl =>
        obtain ⟨-, new, old⟩ := splraise_covers level ipl
        obtain rfl := Option.some.inj promised
        refine ⟨?_, old⟩
        split
        · rename_i small
          exact new small
        · exact old
    | splhigh =>
        obtain ⟨-, new, old⟩ := splraise_covers level 3
        obtain rfl := Option.some.inj promised
        exact ⟨new (by decide), old⟩
    | splclock =>
        obtain ⟨-, new, old⟩ := splraise_covers level 2
        obtain rfl := Option.some.inj promised
        exact ⟨new (by decide), old⟩
    | spl0 => cases promised

/-! ## Runs -/

/-- The controllers behind `pic_remap`, with no section open. -/
def remapped (ports : BitVec 16 → BitVec 8) : Leveled := ((Pic.powerOn ports).picRemap, [])

variable {ports : BitVec 16 → BitVec 8}

theorem remapped_applied : (remapped ports).1.Applied := by
  rw [remapped]
  exact Pic.picRemap_applied (Pic.powerOn ports)

theorem run_applied (calls : List (Call Opener (BitVec 8))) :
    (Runs.after levels.step (remapped ports) calls).1.Applied := by
  refine Runs.invariant_after (I := fun x : Leveled => x.1.Applied) ?_ ?_ calls
  · exact remapped_applied
  · exact levels_step_applied

theorem run_guard (calls : List (Call Opener (BitVec 8))) :
    Guard IsLevel Within Opener.promise (Runs.after levels.step (remapped ports) calls).2
      (Runs.after levels.step (remapped ports) calls).1.iplMask := by
  refine Runs.invariant_after
    (I := fun x : Leveled => Guard IsLevel Within Opener.promise x.2 x.1.iplMask) ?_ ?_ calls
  · exact ⟨iplHigh, Pic.picRemap_iplMask _⟩
  · exact fun x call => Guard.step levels_promises x call

/-- What an open section keeps masked. -/
theorem section_masks {calls : List (Call Opener (BitVec 8))}
    {inner outer : List (Frame Opener (BitVec 16))} {ipl : BitVec 32} {found : BitVec 16}
    (small : ipl.toNat < 4)
    (frames : (Runs.after levels.step (remapped ports) calls).2 =
      inner ++ ⟨.splraise ipl, found⟩ :: outer)
    (raised : ∀ f ∈ inner, f.opener ≠ .spl0) :
    Within (iplToMask ⟨ipl.toNat, small⟩)
        (Runs.after levels.step (remapped ports) calls).1.written ∧
      Within found (Runs.after levels.step (remapped ports) calls).1.written := by
  have guard := (run_guard calls : Guard _ _ _ (Runs.after levels.step (remapped ports) calls).2 _)
  rw [frames] at guard
  have promise : Opener.promise (.splraise ipl) found =
      some (iplToMask ⟨ipl.toNat, small⟩) := by
    rw [Opener.promise, dif_pos small]
  have promising (g : Frame Opener (BitVec 16)) (member : g ∈ inner) :
      g.opener.promise g.saved ≠ none := fun none =>
    raised g member ((g.opener.promise_eq_none_iff g.saved).mp none)
  obtain ⟨wanted, kept⟩ := guard.promised levels_promises promising promise
  rw [run_applied calls]
  exact ⟨wanted.trans (within_or_right _ _), kept.trans (within_or_right _ _)⟩

/-- A section keeps what it masks, and what was masked when it was opened, until a `spl0` section
is opened in it; the controllers always have the mask in force; and a sequence of whole sections
leaves the level as it was. -/
theorem interrupt_sections_nest (ports : BitVec 16 → BitVec 8) :
    let after := Runs.after levels.step (remapped ports)
    (∀ before calls, WellBracketed calls →
        (after (before ++ calls)).1.iplMask = (after before).1.iplMask) ∧
      (∀ calls, (after calls).1.written =
        (after calls).1.enabledMask ||| (after calls).1.iplMask) ∧
      ∀ before ipl inside inner, ∀ small : ipl.toNat < 4,
        (after (before ++ .enter (.splraise ipl) :: inside)).2 =
          inner ++ ⟨.splraise ipl, (after before).1.iplMask⟩ :: (after before).2 →
        (∀ f ∈ inner, f.opener ≠ .spl0) →
        Within (iplToMask ⟨ipl.toNat, small⟩)
            (after (before ++ .enter (.splraise ipl) :: inside)).1.written ∧
          Within (after before).1.iplMask
            (after (before ++ .enter (.splraise ipl) :: inside)).1.written := by
  refine ⟨fun before calls bracketed => ?_, run_applied, ?_⟩
  · have joined : Runs.after levels.step (remapped ports) (before ++ calls) =
        Runs.after levels.step (Runs.after levels.step (remapped ports) before) calls :=
      List.foldl_append
    rw [joined]
    exact (levels.restored bracketed _).1
  · intro before ipl inside inner small frames raised
    exact section_masks small frames raised

end LughOS.Kernel

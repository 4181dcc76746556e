import LughOS.Kernel.Log
import LughOS.Library.Runs

/-!
# The screen

The part of `kputchar` for the VGA buffer of x86. The position runs through the 2000 cells and then
rests one behind the last: the character that finds it there moves it back to the first cell, and
is not shown.
-/

namespace LughOS.Kernel

open Bytes Runs

/-- The statics of `kputchar`. -/
structure Vga where
  buffer : Nat → BitVec 16
  position : Nat

namespace Vga

def kputchar (v : Vga) (c : Byte) : Vga :=
  if c = ascii '\n' then
    let position := (v.position / 80 + 1) * 80
    { v with position := if 80 * 25 ≤ position then 0 else position }
  else if v.position < 80 * 25 then
    { buffer := Function.update v.buffer v.position (c.setWidth 16 ||| 0x0700)
      position := v.position + 1 }
  else { v with position := 0 }

/-- The characters that are not shown. -/
def lost (v : Vga) (c : Byte) : List Byte :=
  if c ≠ ascii '\n' ∧ 80 * 25 ≤ v.position then [c] else []

theorem kputchar_position (v : Vga) {c : Byte} (shown : c ≠ ascii '\n') :
    (v.kputchar c).position = if v.position < 2000 then v.position + 1 else 0 := by
  rw [kputchar, if_neg shown]
  split <;> rfl

theorem kputchar_bounds {v : Vga} (inside : v.position ≤ 2000) (c : Byte) :
    (v.kputchar c).position ≤ 2000 ∧ ∀ i, 2000 ≤ i → (v.kputchar c).buffer i = v.buffer i := by
  unfold kputchar
  split
  · refine ⟨?_, fun _ _ => rfl⟩
    dsimp only
    split <;> omega
  · split
    case isTrue room =>
      exact ⟨room, fun i beyond => Function.update_of_ne (by omega) _ _⟩
    case isFalse => exact ⟨Nat.zero_le _, fun _ _ => rfl⟩

/-- A text without line ends goes round the 2001 positions. -/
theorem run_position {v : Vga} (start : v.position = 0) {text : List Byte}
    (plain : ascii '\n' ∉ text) :
    (after kputchar v text).position = text.length % 2001 ∧
      (outputs kputchar lost v text).length = text.length / 2001 := by
  induction text using List.reverseRecOn with
  | nil => exact ⟨start, rfl⟩
  | append_singleton text c ih =>
      simp only [List.mem_append, List.mem_singleton, not_or] at plain
      obtain ⟨position, losses⟩ := ih plain.1
      have shown : c ≠ ascii '\n' := fun same => plain.2 same.symm
      rw [after_concat, outputs_concat, kputchar_position _ shown, List.length_append,
        List.length_append, List.length_singleton, losses, lost, position]
      simp only [shown, ne_eq, not_false_eq_true, true_and]
      constructor
      · split <;> omega
      · split <;> simp only [List.length_singleton, List.length_nil] <;> omega

end Vga

end LughOS.Kernel

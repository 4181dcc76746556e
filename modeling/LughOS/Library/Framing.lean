import Mathlib

/-!
# Blocks of fixed size in a stream

`blocks n xs` are the consecutive full blocks of `n` entries of a list; a shorter rest at the end
is no block. A program that cuts a stream step by step is proved against it by `blocks_of_full`
and `blocks_of_short`, one for each thing that it can find in its buffer.

A `Delivery` says how a source hands a stream on: the size of every piece is its own choice, except
that a piece is not empty while something is left and has no more entries than were asked for.
-/

namespace Framing

variable {α : Type*} {n : Nat} {xs : List α}

/-! ## Blocks -/

def blocks (n : Nat) (xs : List α) : List (List α) :=
  (List.range (xs.length / n)).map fun i => (xs.drop (n * i)).take n

theorem blocks_of_short (short : xs.length < n) : blocks n xs = [] := by
  rw [blocks, Nat.div_eq_of_lt short, List.range_zero, List.map_nil]

theorem div_length_of_full (pos : 0 < n) (full : n ≤ xs.length) :
    xs.length / n = (xs.drop n).length / n + 1 := by
  rw [List.length_drop, ← Nat.add_div_right _ pos, Nat.sub_add_cancel full]

theorem blocks_of_full (pos : 0 < n) (full : n ≤ xs.length) :
    blocks n xs = xs.take n :: blocks n (xs.drop n) := by
  rw [blocks, div_length_of_full pos full, List.range_succ_eq_map, List.map_cons, List.map_map,
    blocks]
  simp only [Nat.mul_zero, List.drop_zero, Function.comp_def, List.drop_drop, Nat.mul_succ,
    Nat.add_comm n]

/-- Nothing is lost between the blocks: together they are the stream without its rest. -/
theorem flatten_blocks (pos : 0 < n) (xs : List α) :
    (blocks n xs).flatten ++ xs.drop (n * (xs.length / n)) = xs := by
  induction count : xs.length / n generalizing xs with
  | zero =>
      have short : xs.length < n := (Nat.div_eq_zero_iff_lt pos).mp count
      rw [blocks_of_short short]
      rfl
  | succ k ih =>
      have full : n ≤ xs.length := by
        by_contra short
        rw [Nat.div_eq_of_lt (not_le.mp short)] at count
        exact absurd count (Nat.zero_ne_add_one k)
      have rest : (xs.drop n).length / n = k := by
        rw [div_length_of_full pos full] at count
        omega
      rw [blocks_of_full pos full, List.flatten_cons, List.append_assoc, Nat.mul_succ,
        Nat.add_comm, ← List.drop_drop, ih (xs.drop n) rest, List.take_append_drop]

/-- The blocks of a stream that was put together from blocks. -/
theorem blocks_flatten (pos : 0 < n) {parts : List (List α)} {rest : List α}
    (full : ∀ part ∈ parts, part.length = n) (short : rest.length < n) :
    blocks n (parts.flatten ++ rest) = parts := by
  induction parts with
  | nil => exact blocks_of_short short
  | cons part parts ih =>
      have length : part.length = n := full part List.mem_cons_self
      have others := ih fun other member => full other (List.mem_cons_of_mem part member)
      rw [List.flatten_cons, List.append_assoc, blocks_of_full pos (by simp [length]),
        List.take_left' length, List.drop_left' length, others]

/-! ## Delivery in pieces -/

/-- The size of a piece may depend on how many pieces were delivered before it, on what was asked
for and on what is left. -/
structure Delivery (α : Type*) where
  size : Nat → Nat → List α → Nat
  nonempty : ∀ before count left, 0 < count → left ≠ [] → 0 < size before count left
  size_le : ∀ before count left, size before count left ≤ count

namespace Delivery

variable (d : Delivery α) {before count : Nat} {left : List α}

def piece (before count : Nat) (left : List α) : List α := left.take (d.size before count left)

theorem piece_eq_nil (asked : 0 < count) : d.piece before count left = [] ↔ left = [] := by
  constructor
  · intro none
    by_contra some
    have positive := d.nonempty before count left asked some
    rcases List.take_eq_nil_iff.mp none with zero | empty
    · omega
    · exact some empty
  · rintro rfl
    exact List.take_nil

end Delivery

end Framing

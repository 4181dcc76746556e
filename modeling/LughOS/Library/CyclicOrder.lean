import Mathlib

/-!
# Cyclic order from a cursor

A cursor on a table of `n` entries moves to the next entry and from the last one to the first.
`positions n c` lists the entries in the order in which a cursor at `c` comes to them, so the
entry it is on is the last one. `turns p n c` keeps those with a property. A cursor that stops
at the first of its turns has the same turns from there, with that one moved to the end.
-/

namespace Cyclic

variable {n c : Nat} {p : Nat → Bool}

def positions (n c : Nat) : List Nat := (List.range n).map fun k => (c + 1 + k) % n

def turns (p : Nat → Bool) (n c : Nat) : List Nat := (positions n c).filter p

@[simp] theorem length_positions : (positions n c).length = n := by simp [positions]

theorem getElem_positions {k : Nat} (inside : k < (positions n c).length) :
    (positions n c)[k] = (c + 1 + k) % n := by
  simp [positions]

theorem mem_positions (inside : c < n) {i : Nat} : i ∈ positions n c ↔ i < n := by
  simp only [positions, List.mem_map, List.mem_range]
  constructor
  · rintro ⟨k, -, rfl⟩
    exact Nat.mod_lt _ (by omega)
  · intro below
    refine ⟨(i + (n - (c + 1))) % n, Nat.mod_lt _ (by omega), ?_⟩
    rw [Nat.add_mod_mod, show c + 1 + (i + (n - (c + 1))) = i + n by omega, Nat.add_mod_right,
      Nat.mod_eq_of_lt below]

theorem nodup_positions (n c : Nat) : (positions n c).Nodup := by
  refine List.Nodup.map_on (fun k inside j inside' same => ?_) List.nodup_range
  have congruent : k ≡ j [MOD n] := Nat.ModEq.add_left_cancel' (c + 1) same
  rwa [Nat.ModEq, Nat.mod_eq_of_lt (List.mem_range.mp inside),
    Nat.mod_eq_of_lt (List.mem_range.mp inside')] at congruent

/-- From an entry on the list goes on behind it, and what was in front of it comes last. -/
theorem positions_of_split {before after : List Nat} {i : Nat}
    (split : positions n c = before ++ i :: after) :
    positions n i = after ++ (before ++ [i]) := by
  have bound : before.length < (positions n c).length := by
    rw [split, List.length_append, List.length_cons]
    omega
  have stop : i = (c + 1 + before.length) % n := by
    rw [← getElem_positions bound]
    simp [split]
  have turned : positions n i = (positions n c).rotate (before ++ [i]).length := by
    refine List.ext_getElem (by simp) fun k inside _ => ?_
    rw [List.getElem_rotate, getElem_positions, getElem_positions, length_positions, stop,
      List.length_append, List.length_singleton, Nat.add_mod_mod, Nat.add_assoc _ 1 k,
      Nat.mod_add_mod]
    congr 1
    omega
  have whole : positions n c = (before ++ [i]) ++ after := by simp [split]
  rw [turned, whole, List.rotate_append_length_eq]

theorem mem_turns (inside : c < n) {i : Nat} : i ∈ turns p n c ↔ i < n ∧ p i = true := by
  rw [turns, List.mem_filter, mem_positions inside]

theorem nodup_turns (p : Nat → Bool) (n c : Nat) : (turns p n c).Nodup :=
  (nodup_positions n c).filter p

theorem turns_of_cons {i : Nat} {rest : List Nat} (first : turns p n c = i :: rest) :
    turns p n i = rest ++ [i] := by
  obtain ⟨before, after, split, skipped, here, rfl⟩ := List.filter_eq_cons_iff.mp first
  have none : before.filter p = [] :=
    List.filter_eq_nil_iff.mpr fun x member => skipped x member
  rw [turns, positions_of_split split, List.filter_append, List.filter_append, none,
    List.filter_singleton, here, cond_true, List.nil_append]

end Cyclic

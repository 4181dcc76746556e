import Mathlib

/-!
# Logs of the newest entries

An array of `c` slots with two counters of `w` bits that are only ever incremented. An entry is
written at the slot of `head` modulo `c`; when `c` entries are live, `tail` is advanced first and
the oldest one is given up. The number of live entries is the difference of the counters.

The counters may wrap any number of times. Nothing is lost by it as long as `c` divides `2 ^ w`,
since then a counter and the number of increments it stands for have the same slot.
-/

structure NewestLog (c w : Nat) (α : Type*) where
  slots : Fin c → α
  head : BitVec w
  tail : BitVec w

namespace NewestLog

variable {α : Type*}

/-- The last `c` entries of a list. -/
def newest (c : Nat) (xs : List α) : List α := xs.drop (xs.length - c)

theorem newest_concat {c : Nat} (pos : 0 < c) (xs : List α) (a : α) :
    newest c (xs ++ [a]) =
      (if c ≤ (newest c xs).length then (newest c xs).tail else newest c xs) ++ [a] := by
  have length : (newest c xs).length = min xs.length c := by
    rw [newest, List.length_drop]
    omega
  rw [newest, List.length_append, List.length_singleton]
  by_cases full : c ≤ (newest c xs).length
  · rw [if_pos full, newest, List.tail_drop, List.drop_append_of_le_length (by omega)]
    congr 2
    omega
  · rw [if_neg full, newest, List.drop_append_of_le_length (by omega)]
    congr 2
    omega

variable {c w : Nat}

def depth (l : NewestLog c w α) : Nat := (l.head - l.tail).toNat

def dropOldest (l : NewestLog c w α) : NewestLog c w α := { l with tail := l.tail + 1#w }

theorem depth_dropOldest {l : NewestLog c w α} (some : 0 < l.depth) :
    l.dropOldest.depth = l.depth - 1 := by
  have wide : l.depth < 2 ^ w := BitVec.isLt _
  have one : (1#w).toNat = 1 := by rw [BitVec.toNat_ofNat, Nat.mod_eq_of_lt (by omega)]
  have previous : l.dropOldest.head - l.dropOldest.tail = (l.head - l.tail) - 1#w := by
    simp only [dropOldest]
    exact (sub_sub _ _ _).symm
  have positive : 1#w ≤ l.head - l.tail := by
    rw [BitVec.le_def, one]
    exact some
  rw [depth, previous, BitVec.toNat_sub_of_le positive, one]
  rfl

variable [NeZero c]

/-- The live entries, oldest first. -/
def contents (l : NewestLog c w α) : List α :=
  (List.range l.depth).map fun i => l.slots (Fin.ofNat c (l.tail.toNat + i))

def write (l : NewestLog c w α) (a : α) : NewestLog c w α :=
  { l with slots := Function.update l.slots (Fin.ofNat c l.head.toNat) a, head := l.head + 1#w }

def push (l : NewestLog c w α) (a : α) : NewestLog c w α :=
  (if c ≤ l.depth then l.dropOldest else l).write a

@[simp] theorem length_contents (l : NewestLog c w α) : l.contents.length = l.depth := by
  simp [contents]

theorem slot_eq_iff {x y : Nat} : Fin.ofNat c x = Fin.ofNat c y ↔ x % c = y % c := Fin.ext_iff

/-- The head is `depth` slots behind the tail, whatever the counters have done. -/
theorem slot_head (divides : c ∣ 2 ^ w) (l : NewestLog c w α) :
    Fin.ofNat c l.head.toNat = Fin.ofNat c (l.tail.toNat + l.depth) := by
  rw [slot_eq_iff]
  have sum : l.head = l.tail + (l.head - l.tail) := by
    rw [BitVec.add_comm, BitVec.sub_add_cancel]
  conv_lhs => rw [sum, BitVec.toNat_add, Nat.mod_mod_of_dvd _ divides]
  rfl

section Steps

variable {l : NewestLog c w α}

theorem depth_write (room : l.depth + 1 < 2 ^ w) (a : α) : (l.write a).depth = l.depth + 1 := by
  have one : (1#w).toNat = 1 := by rw [BitVec.toNat_ofNat, Nat.mod_eq_of_lt (by omega)]
  have next : (l.write a).head - (l.write a).tail = (l.head - l.tail) + 1#w := by
    simp only [write, BitVec.sub_eq_add_neg]
    ac_rfl
  rw [depth, next, BitVec.toNat_add, one]
  exact Nat.mod_eq_of_lt room

/-- While a slot is free, a write adds the entry at the end. -/
theorem contents_write (divides : c ∣ 2 ^ w) (room : l.depth + 1 < 2 ^ w) (free : l.depth < c)
    (a : α) : (l.write a).contents = l.contents ++ [a] := by
  have tail : (l.write a).tail = l.tail := rfl
  have slots (i : Nat) : (l.write a).slots (Fin.ofNat c (l.tail.toNat + i)) =
      if Fin.ofNat c (l.tail.toNat + i) = Fin.ofNat c (l.tail.toNat + l.depth) then a
      else l.slots (Fin.ofNat c (l.tail.toNat + i)) := by
    rw [← slot_head divides l]
    exact Function.update_apply _ _ _ _
  rw [contents, depth_write room, List.range_succ, List.map_append, List.map_singleton, tail,
    slots, if_pos rfl, contents]
  congr 1
  refine List.map_congr_left fun i live => ?_
  rw [slots, if_neg]
  intro same
  have congruent : i ≡ l.depth [MOD c] :=
    Nat.ModEq.add_left_cancel' l.tail.toNat (slot_eq_iff.mp same)
  have below := List.mem_range.mp live
  rw [Nat.ModEq, Nat.mod_eq_of_lt (by omega), Nat.mod_eq_of_lt free] at congruent
  omega

theorem contents_dropOldest (divides : c ∣ 2 ^ w) (some : 0 < l.depth) :
    l.dropOldest.contents = l.contents.tail := by
  refine List.ext_getElem (by simp [depth_dropOldest some]) fun i live _ => ?_
  have one : (1#w).toNat = 1 := by
    have wide : l.depth < 2 ^ w := BitVec.isLt _
    rw [BitVec.toNat_ofNat, Nat.mod_eq_of_lt (by omega)]
  have slot : Fin.ofNat c (l.dropOldest.tail.toNat + i) = Fin.ofNat c (l.tail.toNat + (i + 1)) := by
    rw [slot_eq_iff, dropOldest, BitVec.toNat_add, one, ← Nat.mod_add_mod,
      Nat.mod_mod_of_dvd _ divides, Nat.mod_add_mod, Nat.add_assoc, Nat.add_comm 1 i]
  have slots : l.dropOldest.slots = l.slots := rfl
  simp only [contents, List.getElem_tail, List.getElem_map, List.getElem_range, slot, slots]

end Steps

/-- What a push does to the live entries. -/
theorem contents_push (divides : c ∣ 2 ^ w) (room : c < 2 ^ w) {l : NewestLog c w α}
    {xs : List α} (holds : l.contents = newest c xs) (a : α) :
    (l.push a).contents = newest c (xs ++ [a]) := by
  have pos : 0 < c := Nat.pos_of_neZero c
  have depth : l.depth = (newest c xs).length := by rw [← holds, length_contents]
  have bound : l.depth ≤ c := by
    rw [depth, newest, List.length_drop]
    omega
  rw [newest_concat pos, ← depth, push]
  by_cases full : c ≤ l.depth
  · have dropped := depth_dropOldest (l := l) (by omega)
    rw [if_pos full, if_pos full, contents_write divides (by omega) (by omega),
      contents_dropOldest divides (by omega), holds]
  · rw [if_neg full, if_neg full, contents_write divides (by omega) (by omega), holds]

/-- A log that starts empty holds the newest entries after any number of pushes. -/
theorem contents_foldl_push (divides : c ∣ 2 ^ w) (room : c < 2 ^ w) {l : NewestLog c w α}
    (fresh : l.depth = 0) (xs : List α) : (xs.foldl push l).contents = newest c xs := by
  induction xs using List.reverseRecOn with
  | nil => simp [contents, fresh, newest]
  | append_singleton xs a ih =>
      rw [List.foldl_append, List.foldl_cons, List.foldl_nil]
      exact contents_push divides room ih a

end NewestLog

import Mathlib

/-!
# Ring buffers with one free slot

A bounded queue in an array of `n` slots. `head` is the next slot to write and `tail`
the next one to read; equal positions mean an empty queue, so one slot always stays
free. `contents` walks from the tail to the head, and on it the two operations are those
of a list: `push` appends at the end, `pop` removes the front.
-/

structure RingBuffer (n : Nat) (α : Type*) where
  slots : Fin n → α
  head : Fin n
  tail : Fin n

namespace RingBuffer

variable {n : Nat} [NeZero n] {α : Type*}

def length (r : RingBuffer n α) : Nat := (r.head - r.tail).val

/-- The occupied slots, oldest first. -/
def contents (r : RingBuffer n α) : List α :=
  (List.range r.length).map fun i => r.slots (r.tail + Fin.ofNat n i)

def clear (r : RingBuffer n α) : RingBuffer n α := { r with head := 0, tail := 0 }

/-- The buffer with one more element, `none` if there is no room. -/
def push (r : RingBuffer n α) (a : α) : Option (RingBuffer n α) :=
  if r.head + 1 = r.tail then none
  else some { r with slots := Function.update r.slots r.head a, head := r.head + 1 }

/-- The oldest element and the buffer without it, `none` if there is none. -/
def pop (r : RingBuffer n α) : Option (α × RingBuffer n α) :=
  if r.head = r.tail then none
  else some (r.slots r.tail, { r with tail := r.tail + 1 })

@[simp] theorem length_contents (r : RingBuffer n α) : r.contents.length = r.length := by
  simp [contents]

@[simp] theorem contents_clear (r : RingBuffer n α) : r.clear.contents = [] := by
  simp [contents, clear, length]

/-! ## Positions -/

theorem val_add_one {d : Fin n} (inside : d + 1 ≠ 0) : (d + 1).val = d.val + 1 := by
  have bound := d.isLt
  rw [Fin.val_add, Fin.val_one', Nat.add_mod_mod]
  rcases Nat.lt_or_eq_of_le (Nat.succ_le_of_lt bound) with below | last
  · exact Nat.mod_eq_of_lt below
  · refine absurd (Fin.ext ?_) inside
    rw [Fin.val_add, Fin.val_one', Nat.add_mod_mod, show d.val + 1 = n from last, Nat.mod_self]
    rfl

theorem ofNat_succ (i : Nat) : Fin.ofNat n (i + 1) = 1 + Fin.ofNat n i := by
  ext
  simp [Fin.val_add, Fin.ofNat, Nat.add_comm]

/-- The slots between the tail and the head are not the head. -/
theorem occupied_ne_head {r : RingBuffer n α} {i : Nat} (inside : i < r.length) :
    r.tail + Fin.ofNat n i ≠ r.head := by
  intro same
  have distance : r.head - r.tail = Fin.ofNat n i := by rw [← same, add_sub_cancel_left]
  have here : r.length = i := by
    have bound : i < n := inside.trans (r.head - r.tail).isLt
    rw [length, distance]
    exact Nat.mod_eq_of_lt bound
  omega

/-- Moving the head past one slot does not run into the tail while there is room. -/
theorem length_succ {r : RingBuffer n α} (room : r.head + 1 ≠ r.tail) :
    (r.head + 1 - r.tail).val = r.length + 1 := by
  have inside : r.head - r.tail + 1 ≠ 0 := by
    intro wraps
    apply room
    calc r.head + 1 = r.head - r.tail + 1 + r.tail := by abel
      _ = r.tail := by rw [wraps, zero_add]
  rw [show r.head + 1 - r.tail = r.head - r.tail + 1 by abel]
  exact val_add_one inside

/-! ## The operations on the contents -/

/-- A push is refused exactly when all slots but one are taken. -/
theorem push_eq_none {r : RingBuffer n α} {a : α} :
    r.push a = none ↔ r.contents.length + 1 = n := by
  rw [length_contents, push]
  split
  · rename_i full
    have zero : (r.head - r.tail + 1).val = 0 := by
      rw [← full, show r.head - (r.head + 1) + 1 = 0 by abel, Fin.val_zero]
    rw [Fin.val_add, Fin.val_one', Nat.add_mod_mod] at zero
    have divides := Nat.dvd_of_mod_eq_zero zero
    simp only [true_iff]
    exact Nat.le_antisymm (r.head - r.tail).isLt (Nat.le_of_dvd (Nat.succ_pos _) divides)
  · rename_i room
    have longer := length_succ room
    have below := (r.head + 1 - r.tail).isLt
    simp only [reduceCtorEq, false_iff]
    omega

theorem contents_push {r r' : RingBuffer n α} {a : α} (pushed : r.push a = some r') :
    r'.contents = r.contents ++ [a] := by
  unfold push at pushed
  split at pushed
  · cases pushed
  rename_i room
  obtain rfl := Option.some.inj pushed
  have last : r.tail + Fin.ofNat n (r.head - r.tail).val = r.head := by
    have distance : Fin.ofNat n (r.head - r.tail).val = r.head - r.tail :=
      Fin.ext (Nat.mod_eq_of_lt (Fin.isLt _))
    rw [distance]
    abel
  simp only [contents, length, length_succ room, List.range_succ, List.map_append, List.map_cons,
    List.map_nil]
  congr 1
  · refine List.map_congr_left fun i member => ?_
    exact Function.update_of_ne (occupied_ne_head (List.mem_range.mp member)) a r.slots
  · rw [last, Function.update_self]

theorem contents_of_pop_none {r : RingBuffer n α} (empty : r.pop = none) : r.contents = [] := by
  unfold pop at empty
  split at empty
  · rename_i same
    simp [contents, length, same]
  · cases empty

theorem contents_of_pop {r r' : RingBuffer n α} {a : α} (popped : r.pop = some (a, r')) :
    r.contents = a :: r'.contents := by
  unfold pop at popped
  split at popped
  · cases popped
  rename_i nonempty
  cases popped
  have shorter : r.length = (r.head - (r.tail + 1)).val + 1 := by
    have inside : r.head - (r.tail + 1) + 1 ≠ 0 := by
      intro wraps
      apply nonempty
      calc r.head = r.head - (r.tail + 1) + 1 + r.tail := by abel
        _ = r.tail := by rw [wraps, zero_add]
    rw [← val_add_one inside, length]
    congr 1
    abel
  rw [contents, shorter, List.range_succ_eq_map, List.map_cons, List.map_map]
  congr 1
  · simp [Fin.ofNat]
  · refine List.map_congr_left fun i _ => ?_
    simp only [Function.comp_apply, Nat.succ_eq_add_one, ofNat_succ, add_assoc]

end RingBuffer

import LughOS.Library.RingBuffer

/-!
# Circular queues with a count

A bounded queue in an array of `n` slots that stores three numbers about itself: `head`, the
next slot to read, `tail`, the next slot to write, and `count`. One of them is redundant, and
the fields `count_le` and `tail_eq` say how they are related; `vacant` adds that `0` marks the
slots outside the queue. All `n` slots can be used.

`contents` lists the slots from the head on. `enqueue` appends to it and `dequeue` removes its
front, but nothing makes the entries differ from `0`: `erase` clears the slots and keeps the
numbers, which leaves a queue of as many zeros. `Represents` is a queue of proper entries.
-/

structure CountedQueue (n : Nat) (α : Type*) [NeZero n] [Zero α] where
  slots : Fin n → α
  head : Fin n
  tail : Fin n
  count : Nat
  count_le : count ≤ n
  tail_eq : tail = head + Fin.ofNat n count
  vacant : ∀ i, count ≤ i → i < n → slots (head + Fin.ofNat n i) = 0

namespace CountedQueue

variable {n : Nat} [NeZero n] {α : Type*} [Zero α] {q : CountedQueue n α} {x : α}

/-! ## Positions -/

theorem position_inj {head : Fin n} {i j : Nat} (hi : i < n) (hj : j < n)
    (same : head + Fin.ofNat n i = head + Fin.ofNat n j) : i = j := by
  have := congrArg Fin.val (add_left_cancel same)
  simpa [Fin.ofNat, Nat.mod_eq_of_lt hi, Nat.mod_eq_of_lt hj] using this

theorem position_succ (head : Fin n) (i : Nat) :
    head + 1 + Fin.ofNat n i = head + Fin.ofNat n (i + 1) := by
  rw [RingBuffer.ofNat_succ, add_assoc]

theorem position_zero (head : Fin n) : head + Fin.ofNat n 0 = head := by
  simp [Fin.ofNat]

theorem position_ne_head (head : Fin n) {i : Nat} (inside : i + 1 < n) :
    head + Fin.ofNat n (i + 1) ≠ head := by
  intro same
  have := position_inj inside (NeZero.pos n) (same.trans (position_zero head).symm)
  omega

/-- The position before the head is also the last one behind it. -/
theorem position_last (head : Fin n) {i : Nat} (last : i + 1 = n) :
    head + 1 + Fin.ofNat n i = head := by
  rw [position_succ, last]
  simp [Fin.ofNat]

theorem positions_perm (head : Fin n) :
    ((List.range n).map fun i => head + Fin.ofNat n i).Perm (List.finRange n) := by
  rw [List.perm_ext_iff_of_nodup]
  · intro x
    simp only [List.mem_map, List.mem_range, List.mem_finRange, iff_true]
    refine ⟨(x - head).val, (x - head).isLt, ?_⟩
    rw [Fin.ofNat_val_eq_self, add_sub_cancel]
  · refine List.Nodup.map_on (fun i hi j hj same => ?_) List.nodup_range
    exact position_inj (List.mem_range.mp hi) (List.mem_range.mp hj) same
  · exact List.nodup_finRange n

/-! ## Operations -/

def empty : CountedQueue n α where
  slots := fun _ => 0
  head := 0
  tail := 0
  count := 0
  count_le := Nat.zero_le n
  tail_eq := (position_zero 0).symm
  vacant := fun _ _ _ => rfl

/-- The queue with one more entry, `none` if there is no room. -/
def enqueue (q : CountedQueue n α) (x : α) : Option (CountedQueue n α) :=
  if room : q.count < n then
    some
      { slots := Function.update q.slots q.tail x
        head := q.head
        tail := q.tail + 1
        count := q.count + 1
        count_le := room
        tail_eq := by rw [q.tail_eq, RingBuffer.ofNat_succ, add_comm 1, add_assoc]
        vacant := fun i above below => by
          have other : q.head + Fin.ofNat n i ≠ q.tail := by
            rw [q.tail_eq]
            intro same
            have := position_inj below room same
            omega
          rw [Function.update_of_ne other]
          exact q.vacant i (by omega) below }
  else none

/-- The entry at the head and the queue without it, `none` if there is none. -/
def dequeue (q : CountedQueue n α) : Option (α × CountedQueue n α) :=
  if some : 0 < q.count then
    .some (q.slots q.head,
      { slots := Function.update q.slots q.head 0
        head := q.head + 1
        tail := q.tail
        count := q.count - 1
        count_le := by have := q.count_le; omega
        tail_eq := by rw [position_succ, Nat.sub_add_cancel some, q.tail_eq]
        vacant := fun i above below => by
          rcases Nat.lt_or_eq_of_le (Nat.succ_le_of_lt below) with inside | last
          · rw [position_succ, Function.update_of_ne (position_ne_head q.head inside)]
            exact q.vacant (i + 1) (by omega) inside
          · rw [position_last q.head last, Function.update_self] })
  else none

/-- The slots are cleared, the three numbers are not. -/
def erase (q : CountedQueue n α) : CountedQueue n α where
  slots := fun _ => 0
  head := q.head
  tail := q.tail
  count := q.count
  count_le := q.count_le
  tail_eq := q.tail_eq
  vacant := fun _ _ _ => rfl

/-- The entries from the head on. -/
def contents (q : CountedQueue n α) : List α :=
  (List.range q.count).map fun i => q.slots (q.head + Fin.ofNat n i)

@[simp] theorem length_contents (q : CountedQueue n α) : q.contents.length = q.count := by
  simp [contents]

@[simp] theorem contents_empty : (empty : CountedQueue n α).contents = [] := rfl

@[simp] theorem contents_erase (q : CountedQueue n α) :
    q.erase.contents = List.replicate q.count 0 := by
  simp [contents, erase, List.map_const']

theorem enqueue_eq_none : q.enqueue x = none ↔ n ≤ q.contents.length := by
  simp [enqueue]

theorem contents_enqueue {q' : CountedQueue n α} (enqueued : q.enqueue x = some q') :
    q'.contents = q.contents ++ [x] := by
  unfold enqueue at enqueued
  split at enqueued
  · rename_i room
    obtain rfl := Option.some.inj enqueued
    simp only [contents, List.range_succ, List.map_append, List.map_cons, List.map_nil]
    congr 1
    · refine List.map_congr_left fun i member => ?_
      have inside := List.mem_range.mp member
      apply Function.update_of_ne
      rw [q.tail_eq]
      intro same
      have := position_inj (inside.trans room) room same
      omega
    · rw [← q.tail_eq, Function.update_self]
  · cases enqueued

theorem contents_of_dequeue_none (none : q.dequeue = none) : q.contents = [] := by
  unfold dequeue at none
  split at none
  · cases none
  · exact List.length_eq_zero_iff.mp (by rw [length_contents]; omega)

theorem contents_of_dequeue {q' : CountedQueue n α} (dequeued : q.dequeue = some (x, q')) :
    q.contents = x :: q'.contents := by
  unfold dequeue at dequeued
  split at dequeued
  · rename_i some
    cases dequeued
    obtain ⟨k, count⟩ : ∃ k, q.count = k + 1 := ⟨q.count - 1, by omega⟩
    have bound := q.count_le
    simp only [contents, count, List.range_succ_eq_map, List.map_cons, List.map_map,
      position_zero, Nat.add_sub_cancel]
    congr 1
    refine List.map_congr_left fun i member => ?_
    have inside := List.mem_range.mp member
    simp only [Function.comp_apply, Nat.succ_eq_add_one, position_succ,
      Function.update_of_ne (position_ne_head q.head (i := i) (by omega))]
  · cases dequeued

/-- The slots hold the entries, in another order, and zeros. -/
theorem slots_perm (q : CountedQueue n α) :
    (List.ofFn q.slots).Perm (q.contents ++ List.replicate (n - q.count) 0) := by
  have all : List.range n =
      List.range q.count ++ (List.range (n - q.count)).map (q.count + ·) := by
    rw [← List.range_add, Nat.add_sub_cancel' q.count_le]
  have vacant : (List.range (n - q.count)).map
      (fun i => q.slots (q.head + Fin.ofNat n (q.count + i))) =
      List.replicate (n - q.count) 0 := by
    refine List.eq_replicate_iff.mpr ⟨by simp, ?_⟩
    simp only [List.mem_map, List.mem_range, forall_exists_index, and_imp]
    rintro x i below rfl
    exact q.vacant (q.count + i) (by omega) (by omega)
  calc List.ofFn q.slots = (List.finRange n).map q.slots := List.ofFn_eq_map
    List.Perm _ (((List.range n).map fun i => q.head + Fin.ofNat n i).map q.slots) :=
        ((positions_perm q.head).map q.slots).symm
    _ = q.contents ++ List.replicate (n - q.count) 0 := by
        rw [List.map_map, all, List.map_append, List.map_map, ← vacant]
        rfl

/-! ## Queues of proper entries -/

/-- The slots from `head` on are the entries of the list, in order and none of them `0`; all
other slots are `0`, and the three numbers fit the list. -/
structure Represents (q : CountedQueue n α) (entries : List α) : Prop where
  count : q.count = entries.length
  bounded : entries.length ≤ n
  tail : q.tail = q.head + Fin.ofNat n entries.length
  inside : ∀ (i : Nat) (h : i < entries.length), q.slots (q.head + Fin.ofNat n i) = entries[i]
  outside : ∀ i, entries.length ≤ i → i < n → q.slots (q.head + Fin.ofNat n i) = 0
  proper : 0 ∉ entries

theorem represents_iff {entries : List α} :
    q.Represents entries ↔ q.contents = entries ∧ 0 ∉ entries := by
  constructor
  · intro rep
    refine ⟨List.ext_getElem (by rw [length_contents, rep.count]) fun i _ inside => ?_, rep.proper⟩
    simp only [contents, List.getElem_map, List.getElem_range]
    exact rep.inside i inside
  · rintro ⟨rfl, proper⟩
    refine ⟨by simp, by simpa using q.count_le, by simpa using q.tail_eq, ?_, ?_, proper⟩
    · intro i inside
      simp [contents]
    · intro i above below
      exact q.vacant i (by simpa using above) below

end CountedQueue

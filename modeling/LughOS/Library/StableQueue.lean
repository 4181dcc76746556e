import Mathlib

/-!
# Stable priority queues

The elements that wait are listed in the order in which they came. The next one to leave is the
earliest among those with the smallest key.

An implementation may keep them in another order. `Represents key stored waiting` says that the
stored list is sorted by key and that the elements of each key are stored as they came. Inserting
behind the last element whose key is not larger keeps this, and so does removing the front, which
is the element that is next to leave.
-/

namespace StableQueue

variable {α K : Type*} [LinearOrder K] {key : α → K}

/-- The earliest element with the smallest key, and the others. -/
def takeEarliest (key : α → K) : List α → Option (α × List α)
  | [] => none
  | x :: xs =>
      match takeEarliest key xs with
      | none => some (x, [])
      | some (m, rest) => if key m < key x then some (m, x :: rest) else some (x, xs)

/-- `stored` holds what waits, sorted by key and within one key by arrival. -/
structure Represents (key : α → K) (stored waiting : List α) : Prop where
  sorted : stored.Pairwise fun x y => key x ≤ key y
  arrival : ∀ k, stored.filter (fun x => decide (key x = k)) =
    waiting.filter fun x => decide (key x = k)

theorem takeEarliest_eq_none {l : List α} : takeEarliest key l = none ↔ l = [] := by
  cases l with
  | nil => simp [takeEarliest]
  | cons x xs =>
      refine iff_of_false ?_ (by simp)
      rw [takeEarliest]
      split
      · simp
      · split <;> simp

theorem takeEarliest_mem {l rest : List α} {m : α} (taken : takeEarliest key l = some (m, rest)) :
    m ∈ l := by
  induction l generalizing m rest with
  | nil => cases taken
  | cons x xs ih =>
      rw [takeEarliest] at taken
      split at taken
      · cases taken
        exact List.mem_cons_self
      · rename_i later
        split at taken
        · cases taken
          exact List.mem_cons_of_mem x (ih later)
        · cases taken
          exact List.mem_cons_self

theorem takeEarliest_smallest {m : α} {after : List α} (behind : ∀ x ∈ after, key m ≤ key x) :
    takeEarliest key (m :: after) = some (m, after) := by
  rw [takeEarliest]
  split
  · rename_i none
    rw [takeEarliest_eq_none.mp none]
  · rename_i x rest later
    exact if_neg (behind x (takeEarliest_mem later)).not_gt

/-- An element with larger keys in front of it and no smaller ones behind it is the next to
leave. -/
theorem takeEarliest_of_split {m : α} {before after : List α}
    (front : ∀ x ∈ before, key m < key x) (behind : ∀ x ∈ after, key m ≤ key x) :
    takeEarliest key (before ++ m :: after) = some (m, before ++ after) := by
  induction before with
  | nil => exact takeEarliest_smallest behind
  | cons x before ih =>
      have rest := ih fun y member => front y (List.mem_cons_of_mem x member)
      rw [List.cons_append, takeEarliest, rest]
      exact if_pos (front x List.mem_cons_self)

namespace Represents

variable {stored waiting before after : List α} {m : α}

theorem nil : Represents key [] [] := ⟨List.Pairwise.nil, fun _ => rfl⟩

/-- Nothing is lost and nothing is stored twice. -/
theorem perm (r : Represents key stored waiting) : stored.Perm waiting := by
  classical
  refine List.perm_iff_count.mpr fun a => ?_
  have of_key (l : List α) : (l.filter fun x => decide (key x = key a)).count a = l.count a :=
    List.count_filter (by simp)
  rw [← of_key stored, r.arrival, of_key waiting]

/-- The last of a sorted list bounds the others. -/
theorem le_of_getLast (low : before.Pairwise fun x y => key x ≤ key y)
    (last : ∀ x ∈ before.getLast?, key x ≤ key m) : ∀ x ∈ before, key x ≤ key m := by
  induction before using List.reverseRecOn with
  | nil => simp
  | append_singleton before y _ =>
      have top : key y ≤ key m := last y (by simp)
      intro x member
      rcases List.mem_append.mp member with earlier | here
      · exact ((List.pairwise_append.mp low).2.2 x earlier y (by simp)).trans top
      · rwa [List.mem_singleton.mp here]

/-- An element goes behind the last one whose key is not larger. -/
theorem insert (r : Represents key (before ++ after) waiting)
    (last : ∀ x ∈ before.getLast?, key x ≤ key m) (behind : ∀ x ∈ after, key m < key x) :
    Represents key (before ++ m :: after) (waiting ++ [m]) := by
  obtain ⟨low, high, across⟩ := List.pairwise_append.mp r.sorted
  have front := le_of_getLast low last
  constructor
  · refine List.pairwise_append.mpr ⟨low, List.pairwise_cons.mpr
      ⟨fun x member => (behind x member).le, high⟩, fun x inFront y member => ?_⟩
    rcases List.mem_cons.mp member with rfl | inBack
    · exact front x inFront
    · exact across x inFront y inBack
  · intro k
    have order := r.arrival k
    rw [List.filter_append] at order
    rw [List.filter_append, List.filter_append, ← order, List.filter_cons]
    by_cases same : key m = k
    · have none : after.filter (fun x => decide (key x = k)) = [] := by
        refine List.filter_eq_nil_iff.mpr fun x member equal => ?_
        exact absurd (of_decide_eq_true equal) (same ▸ (behind x member).ne')
      simp [same, none]
    · simp [same]

/-- The front is the earliest of the smallest key, and the others represent the rest. -/
theorem front (r : Represents key (m :: stored) waiting) :
    ∃ before after, waiting = before ++ m :: after ∧ (∀ x ∈ before, key m < key x) ∧
      (∀ x ∈ after, key m ≤ key x) ∧ Represents key stored (before ++ after) := by
  obtain ⟨least, sorted⟩ := List.pairwise_cons.mp r.sorted
  have first := r.arrival (key m)
  rw [List.filter_cons_of_pos (by simp)] at first
  obtain ⟨before, after, split, other, -, rest⟩ := List.filter_eq_cons_iff.mp first.symm
  have smallest (x : α) (member : x ∈ waiting) : key m ≤ key x := by
    rcases List.mem_cons.mp (r.perm.mem_iff.mpr member) with rfl | later
    · exact le_rfl
    · exact least x later
  refine ⟨before, after, split, fun x member => ?_, fun x member => ?_, sorted, fun k => ?_⟩
  · have different : key x ≠ key m := by simpa using other x member
    exact lt_of_le_of_ne (smallest x (by simp [split, member])) different.symm
  · exact smallest x (by simp [split, member])
  · have order := r.arrival k
    rw [split, List.filter_append, List.filter_cons, List.filter_cons] at order
    rw [List.filter_append]
    by_cases same : key m = k
    · subst same
      have none : before.filter (fun x => decide (key x = key m)) = [] :=
        List.filter_eq_nil_iff.mpr other
      rw [none, List.nil_append, rest]
    · simpa [same] using order

end Represents

end StableQueue

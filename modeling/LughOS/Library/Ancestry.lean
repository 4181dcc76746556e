import Mathlib

/-!
# Ancestors along a parent relation

`parent p t` says that `p` is the parent of `t`. In a `Ranked` relation an element has at most one
parent, and the parent has a smaller rank. Such a relation has no cycles: the ancestors of an
element are finitely many, and they are its parent and the ancestors of the parent, which are one
fewer (`Ranked.ncard_child`). A walk along the parents can count them by that equation.
-/

namespace Ancestry

variable {α : Type*} {parent : α → α → Prop} {rank : α → Nat} {p t : α}

/-- The proper ancestors of an element. -/
def ancestors (parent : α → α → Prop) (t : α) : Set α := {a | Relation.TransGen parent a t}

structure Ranked (parent : α → α → Prop) (rank : α → Nat) : Prop where
  unique : ∀ p q t, parent p t → parent q t → p = q
  below : ∀ p t, parent p t → rank p < rank t

theorem ancestors_root (root : ∀ p, ¬parent p t) : ancestors parent t = ∅ := by
  refine Set.eq_empty_of_forall_notMem fun a above => ?_
  obtain ⟨p, -, last⟩ := Relation.TransGen.tail'_iff.mp above
  exact root p last

namespace Ranked

theorem ancestors_child (ranked : Ranked parent rank) (child : parent p t) :
    ancestors parent t = insert p (ancestors parent p) := by
  ext a
  constructor
  · intro above
    obtain ⟨q, path, last⟩ := Relation.TransGen.tail'_iff.mp above
    obtain rfl := ranked.unique q p t last child
    exact (Relation.reflTransGen_iff_eq_or_transGen.mp path).imp_left Eq.symm
  · rintro (rfl | above)
    · exact .single child
    · exact .tail above child

theorem rank_lt (ranked : Ranked parent rank) {a : α} (above : a ∈ ancestors parent t) :
    rank a < rank t := by
  induction above with
  | single child => exact ranked.below _ _ child
  | tail _ child ih => exact ih.trans (ranked.below _ _ child)

theorem finite (ranked : Ranked parent rank) (t : α) : (ancestors parent t).Finite := by
  induction level : rank t using Nat.strong_induction_on generalizing t with
  | _ level ih =>
      by_cases root : ∀ p, ¬parent p t
      · rw [ancestors_root root]
        exact Set.finite_empty
      · obtain ⟨p, child⟩ := not_forall_not.mp root
        rw [ranked.ancestors_child child]
        exact (ih (rank p) (level ▸ ranked.below p t child) p rfl).insert p

theorem ncard_child (ranked : Ranked parent rank) (child : parent p t) :
    (ancestors parent t).ncard = (ancestors parent p).ncard + 1 := by
  have new : p ∉ ancestors parent p := fun above => (ranked.rank_lt above).ne rfl
  rw [ranked.ancestors_child child, Set.ncard_insert_of_notMem new (ranked.finite p)]

end Ranked

end Ancestry

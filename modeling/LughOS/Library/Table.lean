import Mathlib

/-!
# First-match search in a fixed-size table

A bounded scan `for (i = 0; i < n; i++) if (p(i)) { ...; break; }` over a table
with `n` entries. The result is the least index satisfying the test, so a scan
that succeeds is characterised by `first?_eq_some_iff` and one that runs to the
end by `first?_eq_none_iff`.
-/

namespace Table

variable {n : Nat} {p q : Fin n → Bool} {i : Fin n}

def first? (p : Fin n → Bool) : Option (Fin n) := (List.finRange n).find? p

theorem first?_eq_none_iff : first? p = none ↔ ∀ i, p i = false := by
  simp [first?]

theorem first?_holds (h : first? p = some i) : p i = true := List.find?_some h

theorem first?_least (h : first? p = some i) {j : Fin n} (hj : j < i) : p j = false := by
  obtain ⟨_, k, hk, hki, before⟩ := List.find?_eq_some_iff_getElem.mp h
  have position : k = i.val := by simpa using congrArg Fin.val hki
  have earlier : j.val < k := by rw [position]; exact hj
  simpa using before j.val earlier

theorem first?_eq_some_iff : first? p = some i ↔ p i = true ∧ ∀ j < i, p j = false := by
  constructor
  · intro h
    exact ⟨first?_holds h, fun j hj => first?_least h hj⟩
  · rintro ⟨holds, least⟩
    cases h : first? p with
    | none => rw [first?_eq_none_iff.mp h i] at holds; cases holds
    | some k =>
        congr 1
        rcases lt_trichotomy k i with lt | eq | gt
        · have := least k lt
          rw [first?_holds h] at this
          cases this
        · exact eq
        · have := first?_least h gt
          rw [holds] at this
          cases this

end Table

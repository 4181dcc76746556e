import Mathlib

/-!
# The first occurrence of a list in another one

A needle occurs at `i` if it is a prefix of what is left of the text behind `i` entries.
`FirstOccurrence needle text` is a relation: it holds of `some i` if the needle occurs at `i` and
nowhere before, and of `none` if it does not occur at all. Programs that search step by step are
proved against it by `here`, `step` and `exhausted`, one for each thing that a step can find.
-/

namespace Search

variable {α : Type*} {needle text : List α}

def FirstOccurrence (needle text : List α) : Option Nat → Prop
  | some i => needle <+: text.drop i ∧ ∀ j < i, ¬needle <+: text.drop j
  | none => ¬needle <:+: text

namespace FirstOccurrence

theorem here (found : needle <+: text) : FirstOccurrence needle text (some 0) :=
  ⟨found, fun _ before => absurd before (Nat.not_lt_zero _)⟩

theorem exhausted (nonempty : needle ≠ []) : FirstOccurrence needle ([] : List α) none := by
  intro inside
  exact nonempty (List.infix_nil.mp inside)

/-- A text that does not start with the needle is searched from its second entry on. -/
theorem step {a : α} {result : Option Nat} (differs : ¬needle <+: a :: text)
    (rest : FirstOccurrence needle text result) :
    FirstOccurrence needle (a :: text) (result.map (· + 1)) := by
  cases result with
  | none =>
      intro inside
      rcases List.infix_cons_iff.mp inside with start | later
      · exact differs start
      · exact rest later
  | some i =>
      refine ⟨rest.1, fun j before => ?_⟩
      cases j with
      | zero => exact differs
      | succ j => exact rest.2 j (Nat.lt_of_succ_lt_succ before)

theorem unique {result result' : Option Nat} (first : FirstOccurrence needle text result)
    (first' : FirstOccurrence needle text result') : result = result' := by
  have infix_of {i : Nat} (found : needle <+: text.drop i) : needle <:+: text :=
    found.isInfix.trans (List.drop_suffix i text).isInfix
  cases result with
  | none =>
      cases result' with
      | none => rfl
      | some i => exact absurd (infix_of first'.1) first
  | some i =>
      cases result' with
      | none => exact absurd (infix_of first.1) first'
      | some j =>
          rcases lt_trichotomy i j with before | rfl | after
          · exact absurd first.1 (first'.2 i before)
          · rfl
          · exact absurd first'.1 (first.2 j after)

end FirstOccurrence

end Search

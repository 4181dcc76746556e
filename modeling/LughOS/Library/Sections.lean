import LughOS.Library.Runs

/-!
# Nested sections that save and restore a value

A section is entered by a call that returns the value it found, and left by a call that is given
this value back. Other calls in between leave the value alone. A run keeps the frames of the
sections that are open, innermost first, so that every moment of every nesting is the end of some
run.

`restored` says that a well-bracketed sequence leaves the value as it found it. `Guard` follows
the value through the open sections: if the opener of a section promises that inside the value is
at least something, then it is so as long as no section in it has an opener that promises nothing
(`Guard.promised`).
-/

namespace Sections

variable {S O U α : Type*}

/-- A section that is open, with the value it found. -/
structure Frame (O α : Type*) where
  opener : O
  saved : α

inductive Call (O U : Type*) where
  | enter (opener : O)
  | leave
  | other (call : U)

/-- A system with a value that its sections save and restore. -/
structure Saving (S O U α : Type*) where
  value : S → α
  enter : O → S → α × S
  leave : α → S → S
  other : U → S → S
  saves : ∀ o s, (enter o s).1 = value s
  restores : ∀ v s, value (leave v s) = v
  keeps : ∀ u s, value (other u s) = value s

/-- A state with the frames of its open sections. A section is left with the value that the call
which entered it returned. -/
def Saving.step (sys : Saving S O U α) (x : S × List (Frame O α)) :
    Call O U → S × List (Frame O α)
  | .enter o => ((sys.enter o x.1).2, ⟨o, (sys.enter o x.1).1⟩ :: x.2)
  | .leave =>
      match x.2 with
      | [] => x
      | f :: rest => (sys.leave f.saved x.1, rest)
  | .other u => (sys.other u x.1, x.2)

theorem Saving.step_leave (sys : Saving S O U α) {x : S × List (Frame O α)} {f : Frame O α}
    {rest : List (Frame O α)} (top : x.2 = f :: rest) :
    sys.step x .leave = (sys.leave f.saved x.1, rest) := by
  rw [step, top]

inductive WellBracketed : List (Call O U) → Prop
  | nil : WellBracketed []
  | other (u : U) {calls : List (Call O U)} (rest : WellBracketed calls) :
      WellBracketed (.other u :: calls)
  | nest (o : O) {inside calls : List (Call O U)} (body : WellBracketed inside)
      (rest : WellBracketed calls) : WellBracketed (.enter o :: (inside ++ .leave :: calls))

theorem Saving.restored (sys : Saving S O U α) {calls : List (Call O U)}
    (bracketed : WellBracketed calls) (x : S × List (Frame O α)) :
    sys.value (Runs.after sys.step x calls).1 = sys.value x.1 ∧
      (Runs.after sys.step x calls).2 = x.2 := by
  induction bracketed generalizing x with
  | nil => exact ⟨rfl, rfl⟩
  | other u _ ih =>
      obtain ⟨value, frames⟩ := ih (sys.step x (.other u))
      exact ⟨value.trans (sys.keeps u x.1), frames⟩
  | @nest o inside calls _ _ body rest =>
      simp only [Runs.after, List.foldl_cons, List.foldl_append]
      obtain ⟨-, frames⟩ := body (sys.step x (.enter o))
      have left := sys.step_leave frames
      obtain ⟨value', frames'⟩ :=
        rest (sys.step (Runs.after sys.step (sys.step x (.enter o)) inside) .leave)
      constructor
      · refine value'.trans ?_
        rw [left, sys.restores]
        exact sys.saves o x.1
      · exact frames'.trans (by rw [left])

/-! ## Promises of the openers -/

/-- What the openers promise about the values inside their sections: with `promise o v = some w`
a section that finds `v` has at least `w` in it. -/
structure Promises (sys : Saving S O U α) (I : α → Prop) (le : α → α → Prop)
    (promise : O → α → Option α) : Prop where
  trans : ∀ a b c, le a b → le b c → le a c
  valid : ∀ o s, I (sys.value s) → I (sys.value (sys.enter o s).2)
  kept : ∀ o s w, I (sys.value s) → promise o (sys.value s) = some w →
    le w (sys.value (sys.enter o s).2) ∧ le (sys.value s) (sys.value (sys.enter o s).2)

/-- The value through the open sections, the innermost first. -/
def Guard (I : α → Prop) (le : α → α → Prop) (promise : O → α → Option α) :
    List (Frame O α) → α → Prop
  | [], v => I v
  | f :: rest, v =>
      I v ∧ (∀ w, promise f.opener f.saved = some w → le w v ∧ le f.saved v) ∧
        Guard I le promise rest f.saved

namespace Guard

variable {sys : Saving S O U α} {I : α → Prop} {le : α → α → Prop} {promise : O → α → Option α}

theorem valid {frames : List (Frame O α)} {v : α} (guard : Guard I le promise frames v) : I v := by
  cases frames with
  | nil => exact guard
  | cons f rest => exact guard.1

theorem step (promises : Promises sys I le promise) (x : S × List (Frame O α)) (call : Call O U)
    (guard : Guard I le promise x.2 (sys.value x.1)) :
    Guard I le promise (sys.step x call).2 (sys.value (sys.step x call).1) := by
  cases call with
  | enter o =>
      refine ⟨promises.valid o x.1 guard.valid, fun w promised => ?_, ?_⟩
      · rw [sys.saves] at promised ⊢
        exact promises.kept o x.1 w guard.valid promised
      · rw [sys.saves]
        exact guard
  | leave =>
      obtain ⟨s, frames⟩ := x
      cases frames with
      | nil => exact guard
      | cons f rest =>
          change Guard I le promise rest (sys.value (sys.leave f.saved s))
          rw [sys.restores]
          exact guard.2.2
  | other u =>
      change Guard I le promise x.2 (sys.value (sys.other u x.1))
      rw [sys.keeps]
      exact guard

/-- A promise holds while the sections inside make promises too. -/
theorem promised (promises : Promises sys I le promise)
    {inner outer : List (Frame O α)} {o : O} {found v w : α}
    (guard : Guard I le promise (inner ++ ⟨o, found⟩ :: outer) v)
    (promising : ∀ g ∈ inner, promise g.opener g.saved ≠ none)
    (promise_eq : promise o found = some w) : le w v ∧ le found v := by
  induction inner generalizing v with
  | nil => exact guard.2.1 w promise_eq
  | cons g inner ih =>
      obtain ⟨-, here, below⟩ := guard
      obtain ⟨w', promised⟩ := Option.ne_none_iff_exists'.mp (promising g (by simp))
      obtain ⟨kept, saved⟩ := ih below fun g' member => promising g' (by simp [member])
      exact ⟨promises.trans _ _ _ kept (here w' promised).2,
        promises.trans _ _ _ saved (here w' promised).2⟩

end Guard

end Sections

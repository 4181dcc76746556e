import Mathlib

/-!
# Runs of a deterministic transition system

A run is the list of operations performed from a start state; `after step s ops`
is the state it ends in. Since every prefix of a run is a run, a statement about
every state of every run is a statement about `after` for every list.

`Meets step ok s ops` says that each operation of the run satisfies a condition
on the state in front of it. `run_history` is the induction rule: it carries a
relation between the operations performed so far and the state they lead to, so
that a conclusion may speak about earlier operations. `run_invariant` is its
special case for a property of states alone, and `throughout_iff_meets` gives the exact
condition under which a run keeps a property.

`after_project` and `meets_project` relate a run to one of a system that keeps a
history besides. `outputs` collects what the operations of a run produce, and `Happens` says that
some operation of it is of a certain kind. A `Switch` is a property that only
operations of one kind turn on; `resumes_iff` says when having been on means
being on at the end.
-/

namespace Runs

variable {S O : Type*} (step : S → O → S)

abbrev after (s : S) (ops : List O) : S := ops.foldl step s

/-- Each operation satisfies `ok` in the state in which it is performed. -/
def Meets (ok : S → O → Prop) : S → List O → Prop
  | _, [] => True
  | s, op :: ops => ok s op ∧ Meets ok (step s op) ops

instance decidableMeets (ok : S → O → Prop) [∀ s op, Decidable (ok s op)] :
    ∀ s ops, Decidable (Meets step ok s ops)
  | _, [] => isTrue trivial
  | s, op :: ops =>
      have := decidableMeets ok (step s op) ops
      inferInstanceAs (Decidable (ok s op ∧ Meets step ok (step s op) ops))

variable {step} {ok : S → O → Prop} {s : S} {ops : List O}

theorem after_concat (s : S) (ops : List O) (op : O) :
    after step s (ops ++ [op]) = step (after step s ops) op := by
  simp [after]

theorem meets_concat {op : O} :
    Meets step ok s (ops ++ [op]) ↔ Meets step ok s ops ∧ ok (after step s ops) op := by
  induction ops generalizing s with
  | nil => simp [Meets, after]
  | cons first rest ih =>
      simp only [List.cons_append, Meets, ih, and_assoc, after, List.foldl_cons]

/-- What a run says about one of its operations. -/
theorem meets_at {before rest : List O} {op : O} (run : Meets step ok s (before ++ op :: rest)) :
    ok (after step s before) op := by
  induction before generalizing s with
  | nil => exact run.1
  | cons first before ih => exact ih run.2

theorem meets_true (s : S) (ops : List O) : Meets step (fun _ _ => True) s ops := by
  induction ops generalizing s with
  | nil => trivial
  | cons op ops ih => exact ⟨trivial, ih _⟩

/-- Induction on a run from its start, one operation appended at a time. -/
theorem run_history {P : List O → S → Prop} (start : P [] s)
    (next : ∀ ops op, P ops (after step s ops) → ok (after step s ops) op →
      P (ops ++ [op]) (step (after step s ops) op))
    (run : Meets step ok s ops) : P ops (after step s ops) := by
  induction ops using List.reverseRecOn with
  | nil => exact start
  | append_singleton ops op ih =>
      obtain ⟨before, last⟩ := meets_concat.mp run
      rw [after_concat]
      exact next ops op (ih before) last

theorem run_invariant {I : S → Prop} (start : I s)
    (next : ∀ s op, I s → ok s op → I (step s op))
    (run : Meets step ok s ops) : I (after step s ops) :=
  run_history (P := fun _ s => I s) start (fun _ _ h => next _ _ h) run

/-- The unconditional form of `run_invariant`. -/
theorem invariant_after {I : S → Prop} (start : I s) (next : ∀ s op, I s → I (step s op))
    (ops : List O) : I (after step s ops) :=
  run_invariant start (fun s op h _ => next s op h) (meets_true s ops)

/-- Conditions that agree in the states of a run agree on the run. -/
theorem meets_congr {I : S → Prop} {P Q : S → O → Prop} (start : I s)
    (next : ∀ s op, I s → ok s op → I (step s op))
    (agree : ∀ s op, I s → ok s op → (P s op ↔ Q s op))
    (run : Meets step ok s ops) : Meets step P s ops ↔ Meets step Q s ops := by
  induction ops generalizing s with
  | nil => exact Iff.rfl
  | cons op ops ih =>
      exact and_congr (agree s op start run.1) (ih (next s op start run.1) run.2)

/-- Where one operation keeps `P` exactly under a condition, a run keeps it throughout
exactly under that condition on each of its operations. -/
theorem throughout_iff_meets {I P : S → Prop} (inv : I s) (start : P s)
    (keeps : ∀ s op, I s → I (step s op))
    (next : ∀ s op, I s → P s → (P (step s op) ↔ ok s op)) :
    (∀ before, before <+: ops → P (after step s before)) ↔ Meets step ok s ops := by
  induction ops generalizing s with
  | nil =>
      refine ⟨fun _ => trivial, fun _ before within => ?_⟩
      rw [List.prefix_nil.mp within]
      exact start
  | cons op ops ih =>
      constructor
      · intro throughout
        have first : P (step s op) := throughout [op] (by simp)
        refine ⟨(next s op inv start).mp first, ?_⟩
        apply (ih (keeps s op inv) first).mp
        intro before within
        exact throughout (op :: before) (by simpa using within)
      · rintro ⟨now, later⟩ before within
        cases before with
        | nil => exact start
        | cons op' before =>
            obtain ⟨rfl, rest⟩ := List.cons_prefix_cons.mp within
            exact (ih (keeps s _ inv) ((next s _ inv start).mpr now)).mpr later before rest

/-! ## Runs with a history

A system that records more than another one runs in step with it. -/

section Project

variable {T : Type*} {step' : T → O → T} {f : T → S}

theorem after_project (commutes : ∀ t op, f (step' t op) = step (f t) op) (t : T)
    (ops : List O) : f (after step' t ops) = after step (f t) ops := by
  induction ops generalizing t with
  | nil => rfl
  | cons op ops ih => exact (ih (step' t op)).trans (congrArg (after step · ops) (commutes t op))

theorem meets_project (commutes : ∀ t op, f (step' t op) = step (f t) op) {t : T}
    (run : Meets step ok (f t) ops) : Meets step' (fun t op => ok (f t) op) t ops := by
  induction ops generalizing t with
  | nil => trivial
  | cons op ops ih => exact ⟨run.1, ih (by rw [commutes]; exact run.2)⟩

end Project

/-! ## Outputs -/

section Outputs

variable {E : Type*} (step) (out : S → O → List E)

/-- What the operations of the run produce, in order. -/
def outputs : S → List O → List E
  | _, [] => []
  | s, op :: ops => out s op ++ outputs (step s op) ops

theorem outputs_concat (s : S) (ops : List O) (op : O) :
    outputs step out s (ops ++ [op]) = outputs step out s ops ++ out (after step s ops) op := by
  induction ops generalizing s with
  | nil => simp [outputs, after]
  | cons first rest ih => simp only [List.cons_append, outputs, ih, List.append_assoc, after,
      List.foldl_cons]

theorem forall_outputs_iff {P : E → Prop} (s : S) (ops : List O) :
    (∀ e ∈ outputs step out s ops, P e) ↔
      Meets step (fun s op => ∀ e ∈ out s op, P e) s ops := by
  induction ops generalizing s with
  | nil => simp [outputs, Meets]
  | cons op ops ih => simp only [outputs, List.forall_mem_append, ih, Meets]

end Outputs

/-! ## Events -/

variable (step) in
/-- Some operation of the run satisfies `event` in the state in which it is performed. -/
def Happens (event : S → O → Prop) : S → List O → Prop
  | _, [] => False
  | s, op :: ops => event s op ∨ Happens event (step s op) ops

theorem happens_concat {event : S → O → Prop} {op : O} :
    Happens step event s (ops ++ [op]) ↔
      Happens step event s ops ∨ event (after step s ops) op := by
  induction ops generalizing s with
  | nil => simp [Happens, after]
  | cons first rest ih => simp only [List.cons_append, Happens, ih, or_assoc, after,
      List.foldl_cons]

variable (step) in
/-- Whenever an operation of the run ends `P`, a later one satisfies `on`. -/
def Resumes (P : S → Prop) (on : S → O → Prop) : S → List O → Prop
  | _, [] => True
  | s, op :: ops =>
      (P s → ¬P (step s op) → Happens step on (step s op) ops) ∧ Resumes P on (step s op) ops

variable (step) in
/-- In the states that satisfy `I`, the operations that satisfy `on` turn `P` on, and no
others do. -/
structure Switch (I P : S → Prop) (on : S → O → Prop) : Prop where
  keeps : ∀ s op, I s → I (step s op)
  sets : ∀ s op, I s → on s op → P (step s op)
  only : ∀ s op, I s → P (step s op) → P s ∨ on s op

namespace Switch

variable {I P : S → Prop} {on : S → O → Prop}

theorem happened (switch : Switch step I P on) (inv : I s) (holds : P (after step s ops)) :
    P s ∨ Happens step on s ops := by
  induction ops generalizing s with
  | nil => exact .inl holds
  | cons op ops ih =>
      rcases ih (switch.keeps s op inv) holds with now | later
      · exact (switch.only s op inv now).imp_right .inl
      · exact .inr (.inr later)

/-- To have been on is to be on in the end just if `P` was resumed each time it ended. -/
theorem resumes_iff (switch : Switch step I P on) (inv : I s) :
    (P s ∨ Happens step on s ops → P (after step s ops)) ↔ Resumes step P on s ops := by
  induction ops generalizing s with
  | nil => simp [Happens, Resumes]
  | cons op ops ih =>
      have next := switch.keeps s op inv
      simp only [Resumes, ← ih next]
      constructor
      · intro final
        refine ⟨fun held ended => ?_, fun earlier => final ?_⟩
        · exact (switch.happened next (final (.inl held))).resolve_left ended
        · rcases earlier with held | later
          · exact (switch.only s op inv held).imp_right .inl
          · exact .inr (.inr later)
      · rintro ⟨resumed, final⟩ earlier
        refine final ?_
        rcases earlier with held | now | later
        · by_cases still : P (step s op)
          · exact .inl still
          · exact .inr (resumed held still)
        · exact .inl (switch.sets s op inv now)
        · exact .inr later

end Switch

end Runs

import Mathlib

/-!
# Programs that may be abandoned between two actions

A `Program S α` looks at a state, performs atomic actions on it and returns a
value. `exec` runs it to its end. `cut p n s` is the state left behind when the
program is abandoned after `n` actions, or its final state when it has fewer;
looking at the state takes no action, so there is one cut per action performed.

`exec_bind`, `cut_bind_inside` and `cut_bind_behind` are the composition rules: a
cut of `p >>= q` falls into `p` up to its last action, and into `q` from there on.
`Within R p` says that each action of `p` is in a relation; a relation that composes then
holds between the start and every cut.
-/

namespace Interruptible

inductive Program (S α : Type) : Type 1 where
  | ret (a : α)
  | look (k : S → Program S α)
  | act {β : Type} (f : S → β × S) (k : β → Program S α)

namespace Program

variable {S α β : Type}

def bind : Program S α → (α → Program S β) → Program S β
  | ret a, q => q a
  | look k, q => look fun s => (k s).bind q
  | act f k, q => act f fun b => (k b).bind q

instance : Monad (Program S) where
  pure := ret
  bind := bind

/-- Read the state. -/
def get : Program S S := look ret

/-- One atomic action with a result. -/
def perform (f : S → β × S) : Program S β := act f ret

/-- One atomic action without a result. -/
def modify (f : S → S) : Program S Unit := perform fun s => ((), f s)

def exec : Program S α → S → α × S
  | ret a, s => (a, s)
  | look k, s => (k s).exec s
  | act f k, s => (k (f s).1).exec (f s).2

/-- The number of actions of the complete execution. -/
def actions : Program S α → S → Nat
  | ret _, _ => 0
  | look k, s => (k s).actions s
  | act f k, s => (k (f s).1).actions (f s).2 + 1

/-- The state after the first `n` actions. -/
def cut : Program S α → Nat → S → S
  | ret _, _, s => s
  | look k, n, s => (k s).cut n s
  | act _ _, 0, s => s
  | act f k, n + 1, s => (k (f s).1).cut n (f s).2

@[simp] theorem exec_pure (a : α) (s : S) : exec (pure a : Program S α) s = (a, s) := rfl
@[simp] theorem cut_pure (a : α) (n : Nat) (s : S) : cut (pure a : Program S α) n s = s := rfl
@[simp] theorem actions_pure (a : α) (s : S) : actions (pure a : Program S α) s = 0 := rfl

@[simp] theorem exec_get (s : S) : exec (get : Program S S) s = (s, s) := rfl
@[simp] theorem exec_perform (f : S → β × S) (s : S) : (perform f).exec s = f s := rfl
@[simp] theorem exec_modify (f : S → S) (s : S) : (modify f).exec s = ((), f s) := rfl

@[simp] theorem exec_bind (p : Program S α) (q : α → Program S β) (s : S) :
    (p >>= q).exec s = (q (p.exec s).1).exec (p.exec s).2 := by
  change (p.bind q).exec s = _
  induction p generalizing s with
  | ret a => rfl
  | look k ih => exact ih s s
  | act f k ih => exact ih _ _

@[simp] theorem actions_bind (p : Program S α) (q : α → Program S β) (s : S) :
    (p >>= q).actions s = p.actions s + (q (p.exec s).1).actions (p.exec s).2 := by
  change (p.bind q).actions s = _
  induction p generalizing s with
  | ret a => simp [bind, actions, exec]
  | look k ih => exact ih s s
  | act f k ih =>
      have rest := ih (f s).1 (f s).2
      simp only [bind, actions, exec]
      omega

theorem cut_of_actions_le {p : Program S α} {n : Nat} {s : S} (h : p.actions s ≤ n) :
    p.cut n s = (p.exec s).2 := by
  induction p generalizing n s with
  | ret a => rfl
  | look k ih => exact ih s h
  | act f k ih =>
      cases n with
      | zero => simp [actions] at h
      | succ n => exact ih _ (by simpa [actions] using h)

@[simp] theorem cut_zero (p : Program S α) (s : S) : p.cut 0 s = s := by
  induction p with
  | ret a => rfl
  | look k ih => exact ih s
  | act f k _ => rfl

/-- A cut up to the last action of `p` stays inside `p`. -/
theorem cut_bind_inside {p : Program S α} (q : α → Program S β) {n : Nat} {s : S}
    (h : n ≤ p.actions s) : (p >>= q).cut n s = p.cut n s := by
  change (p.bind q).cut n s = _
  induction p generalizing n s with
  | ret a =>
      obtain rfl : n = 0 := by simpa [actions] using h
      exact cut_zero (q a) s
  | look k ih => exact ih s h
  | act f k ih =>
      cases n with
      | zero => rfl
      | succ n => exact ih _ (by simpa [actions] using h)

/-- A cut after the last action of `p` falls into the continuation. -/
theorem cut_bind_behind {p : Program S α} (q : α → Program S β) {n : Nat} {s : S}
    (h : p.actions s ≤ n) :
    (p >>= q).cut n s = (q (p.exec s).1).cut (n - p.actions s) (p.exec s).2 := by
  change (p.bind q).cut n s = _
  induction p generalizing n s with
  | ret a => rfl
  | look k ih => exact ih s h
  | act f k ih =>
      cases n with
      | zero => simp [actions] at h
      | succ n =>
          have rest := ih (f s).1 (n := n) (s := (f s).2) (by simpa [actions] using h)
          simpa [bind, cut, exec, actions] using rest

/-- A continuation without actions of its own has no cuts of its own. -/
theorem cut_bind_pure (p : Program S α) (b : α → β) (n : Nat) (s : S) :
    (p >>= fun a => pure (b a)).cut n s = p.cut n s := by
  rcases Nat.le_total n (p.actions s) with inside | behind
  · exact cut_bind_inside _ inside
  · rw [cut_bind_behind _ behind, cut_of_actions_le behind, cut_pure]

@[simp] theorem cut_get_bind (q : S → Program S β) (n : Nat) (s : S) :
    (get >>= q).cut n s = (q s).cut n s := rfl

@[simp] theorem actions_get (s : S) : actions (get : Program S S) s = 0 := rfl
@[simp] theorem actions_perform (f : S → β × S) (s : S) : (perform f).actions s = 1 := rfl
@[simp] theorem actions_modify (f : S → S) (s : S) : (modify f).actions s = 1 := rfl

/-- A cut past a single action continues behind it. -/
theorem cut_bind_succ {p : Program S α} (q : α → Program S β) (n : Nat) {s : S}
    (single : p.actions s = 1) :
    (p >>= q).cut (n + 1) s = (q (p.exec s).1).cut n (p.exec s).2 := by
  rw [cut_bind_behind q (by omega), single, Nat.add_sub_cancel]

/-! ## What every action does -/

/-- Every action of the program is in the relation `R`, from whatever state. -/
def Within (R : S → S → Prop) : Program S α → Prop
  | ret _ => True
  | look k => ∀ s, Within R (k s)
  | act f k => (∀ s, R s (f s).2) ∧ ∀ b, Within R (k b)

section Within

variable {R : S → S → Prop}

theorem within_pure (a : α) : Within R (pure a : Program S α) := trivial

theorem within_get : Within R (get : Program S S) := fun _ => trivial

theorem within_perform {f : S → β × S} (rel : ∀ s, R s (f s).2) : Within R (perform f) :=
  ⟨rel, fun _ => trivial⟩

theorem within_bind {p : Program S α} {q : α → Program S β} (first : Within R p)
    (rest : ∀ a, Within R (q a)) : Within R (p >>= q) := by
  change Within R (p.bind q)
  induction p with
  | ret a => exact rest a
  | look k ih => exact fun s => ih s (first s)
  | act f k ih => exact ⟨first.1, fun b => ih b (first.2 b)⟩

/-- A relation that composes holds between the start and any later state. -/
theorem Within.cut {p : Program S α} (within : Within R p) (refl : ∀ s, R s s)
    (trans : ∀ a b c, R a b → R b c → R a c) (n : Nat) (s : S) : R s (p.cut n s) := by
  induction p generalizing n s with
  | ret a => exact refl s
  | look k ih => exact ih s (within s) n s
  | act f k ih =>
      cases n with
      | zero => exact refl s
      | succ n => exact trans _ _ _ (within.1 s) (ih _ (within.2 _) n _)

theorem Within.exec {p : Program S α} (within : Within R p) (refl : ∀ s, R s s)
    (trans : ∀ a b c, R a b → R b c → R a c) (s : S) : R s (p.exec s).2 := by
  rw [← cut_of_actions_le le_rfl]
  exact within.cut refl trans _ s

end Within

end Program

end Interruptible

import LughOS.Kernel.Dispatch
import LughOS.Library.CyclicOrder

/-!
# Turns of the round robin

A task that is ready or running has a turn; the others are passed over. From a cursor the turns
come in cyclic order, and `rr_schedule` stops at the first of them. It leaves every task with or
without a turn as it found it, so the next call sees the same turns from the new cursor on, and
as many calls as there are turns serve each of them once.
-/

namespace LughOS.Kernel

/-! ## Turns -/

def HasTurn (task : Task) : Prop := task.state = .ready ∨ task.state = .running

instance (task : Task) : Decidable (HasTurn task) := inferInstanceAs (Decidable (_ ∨ _))

def hasTurnAt (tasks : List Task) (i : Nat) : Bool :=
  (tasks[i]?).any fun task => decide (HasTurn task)

/-- The entries with a turn, in cyclic order behind the cursor. -/
def turnOrder (tasks : List Task) (cursor : Nat) : List Nat :=
  Cyclic.turns (hasTurnAt tasks) tasks.length cursor

/-- The table and the cursor after one call of `rr_schedule`. -/
def rrCall (s : TaskTable × Int) : TaskTable × Int := (rrSchedule s.1 s.2).2

/-- What a call does that serves the task at `i`. -/
structure Serves (t : TaskTable) (i : Nat) (answer : Option (BitVec 32)) (t' : TaskTable) :
    Prop where
  answer : ∃ task, t.tasks[i]? = some task ∧ answer = some task.taskId
  running : ∀ j : Nat, (∃ task, t'.tasks[j]? = some task ∧ task.state = .running) ↔ j = i
  waiting : ∀ (j : Nat) task, t.tasks[j]? = some task →
    task.state = .blocked ∨ task.state = .terminated → t'.tasks[j]? = some task
  others : t'.tasks.map stateless = t.tasks.map stateless

variable {t : TaskTable} {cursor i : Nat}

theorem requeue_ready_iff (task : Task) : (requeue task).state = .ready ↔ HasTurn task := by
  unfold requeue HasTurn
  split <;> simp_all

theorem hasTurnAt_requeue (tasks : List Task) (i : Nat) :
    hasTurnAt tasks i = decide (((tasks.map requeue)[i]?).map Task.state = some .ready) := by
  rw [hasTurnAt, List.getElem?_map]
  cases tasks[i]? with
  | none => simp
  | some task => simp [requeue_ready_iff]

theorem rrAdvance_eq {n : Nat} (inside : cursor < n) :
    rrAdvance n cursor = ((cursor + 1) % n : Nat) := by
  unfold rrAdvance
  split
  · have last : cursor + 1 = n := by omega
    rw [last, Nat.mod_self]
    rfl
  · rw [Nat.mod_eq_of_lt (by omega)]
    push_cast
    rfl

/-- The scan stops at the first ready entry among those it comes to. -/
theorem rrScan_eq {tasks : List Task} (inside : cursor < tasks.length) (checked : Nat) :
    rrScan tasks checked cursor =
      (((List.range checked).map fun k => (cursor + 1 + k) % tasks.length).find? fun i =>
        decide ((tasks[i]?).map Task.state = some .ready)).elim
          (false, (((cursor + checked) % tasks.length : Nat) : Int))
          fun i => (true, (i : Int)) := by
  induction checked generalizing cursor with
  | zero => simp [rrScan, Nat.mod_eq_of_lt inside]
  | succ checked ih =>
      have next : (cursor + 1) % tasks.length < tasks.length := Nat.mod_lt _ (by omega)
      have rest : ((List.range checked).map fun k => (cursor + 1 + (k + 1)) % tasks.length) =
          (List.range checked).map
            fun k => ((cursor + 1) % tasks.length + 1 + k) % tasks.length := by
        refine List.map_congr_left fun k _ => ?_
        rw [Nat.add_assoc (_ % _), Nat.mod_add_mod, Nat.add_comm k 1]
      rw [rrScan, rrAdvance_eq inside, List.range_succ_eq_map, List.map_cons, List.map_map]
      simp only [Function.comp_def, Nat.succ_eq_add_one, rest, Nat.add_zero]
      have entry : entryAt? tasks ((cursor + 1) % tasks.length : Nat) =
          tasks[(cursor + 1) % tasks.length]? := if_pos (Int.natCast_nonneg _)
      rw [entry]
      by_cases ready : (tasks[(cursor + 1) % tasks.length]?).map Task.state = some .ready
      · rw [if_pos ready, List.find?_cons_of_pos (by simpa using ready), Option.elim_some]
      · rw [if_neg ready, ih next, List.find?_cons_of_neg (by simpa using ready),
          Nat.mod_add_mod, Nat.add_assoc, Nat.add_comm 1 checked]

/-- Over the whole table that is the first turn. -/
theorem rrScan_turn (inside : cursor < t.tasks.length) :
    rrScan (t.tasks.map requeue) (t.tasks.map requeue).length cursor =
      (turnOrder t.tasks cursor).head?.elim (false, (cursor : Int)) fun i => (true, (i : Int)) := by
  have length : (t.tasks.map requeue).length = t.tasks.length := List.length_map _
  rw [rrScan_eq (by rwa [length]), length, turnOrder, Cyclic.turns, List.head?_filter,
    Nat.add_mod_right, Nat.mod_eq_of_lt inside, Cyclic.positions]
  congr 2
  funext i
  exact (hasTurnAt_requeue t.tasks i).symm

/-! ## One call -/

theorem rrSchedule_nobody (inside : cursor < t.tasks.length)
    (nobody : turnOrder t.tasks cursor = []) : (rrSchedule t cursor).1 = none := by
  have scan := rrScan_turn inside
  rw [nobody, List.head?_nil, Option.elim_none] at scan
  have present : t.tasks ≠ [] := List.ne_nil_of_length_pos (by omega)
  simp only [rrSchedule, present, if_false, scan]

/-- With a turn to give, the call serves its first one and leaves the cursor there. -/
theorem rrSchedule_first (inside : cursor < t.tasks.length) {rest : List Nat}
    (first : turnOrder t.tasks cursor = i :: rest) :
    ∃ task, t.tasks[i]? = some task ∧ HasTurn task ∧
      rrSchedule t cursor =
        (some task.taskId, setTaskState { t with tasks := t.tasks.map requeue } i .running,
          (i : Int)) := by
  have member : i ∈ turnOrder t.tasks cursor := by simp [first]
  obtain ⟨bound, turn⟩ := (Cyclic.mem_turns inside).mp member
  obtain ⟨task, entry⟩ : ∃ task, t.tasks[i]? = some task := ⟨_, List.getElem?_eq_getElem bound⟩
  refine ⟨task, entry, by simpa [hasTurnAt, entry] using turn, ?_⟩
  have scan := rrScan_turn inside
  rw [first, List.head?_cons, Option.elim_some] at scan
  have present : t.tasks ≠ [] := List.ne_nil_of_length_pos (by omega)
  have found : entryAt? (t.tasks.map requeue) (i : Int) = some (requeue task) := by
    rw [entryAt?, if_pos (Int.natCast_nonneg i), Int.toNat_natCast, List.getElem?_map, entry]
    rfl
  have same : (requeue task).taskId = task.taskId := by
    unfold requeue
    split <;> rfl
  simp only [rrSchedule, present, if_false, scan, found, Option.map_some, same, Int.toNat_natCast]

theorem rrSchedule_serves (inside : cursor < t.tasks.length) {rest : List Nat}
    (first : turnOrder t.tasks cursor = i :: rest) :
    Serves t i (rrSchedule t cursor).1 (rrSchedule t cursor).2.1 := by
  obtain ⟨chosen, entry, turn, outcome⟩ := rrSchedule_first inside first
  rw [outcome]
  refine ⟨⟨chosen, entry, rfl⟩, fun j => ⟨?_, ?_⟩, fun j task here waits => ?_, ?_⟩
  · rintro ⟨task, here, running⟩
    by_contra other
    have before : (t.tasks.map requeue)[j]? = some task := by
      simpa [setTaskState, List.getElem?_modify, Ne.symm other] using here
    exact requeued_not_running before running
  · rintro rfl
    exact ⟨{ requeue chosen with state := .running }, by simp [setTaskState, entry], rfl⟩
  · have other : i ≠ j := by
      rintro rfl
      rw [entry] at here
      cases here
      rcases turn with ready | running <;> rcases waits with blocked | ended <;> simp_all
    have kept : requeue task = task := by
      unfold requeue
      rw [if_neg (by rcases waits with blocked | ended <;> simp [*])]
    simp [setTaskState, other, here, kept]
  · rw [setTaskState_stateless, List.map_map]
    refine List.map_congr_left fun task _ => ?_
    simp only [Function.comp_apply, requeue]
    split <;> rfl

/-! ## Call after call -/

theorem requeue_requeue (task : Task) : requeue (requeue task) = requeue task := by
  rw [requeue, if_neg (requeue_not_running task)]

/-- A call leaves the table to the next one as it was, up to who is running. -/
theorem rrSchedule_again (t : TaskTable) (cursor cursor' : Int) :
    rrSchedule (rrSchedule t cursor).2.1 cursor' = rrSchedule t cursor' := by
  have requeued : (t.tasks.map requeue).map requeue = t.tasks.map requeue := by
    rw [List.map_map]
    exact List.map_congr_left fun task _ => requeue_requeue task
  have split : (rrSchedule t cursor).2.1 = { t with tasks := (rrSchedule t cursor).2.1.tasks } := by
    unfold rrSchedule
    split
    · rfl
    · dsimp only
      split <;> rfl
  have same : (rrSchedule t cursor).2.1.tasks.map requeue = t.tasks.map requeue := by
    unfold rrSchedule
    split
    · rfl
    dsimp only
    split
    · exact requeued
    · rename_i found
      obtain ⟨task, at_stop, ready⟩ := rrScan_ready found
      refine (modify_map fun other at_i => ?_).trans requeued
      rw [entryAt?_eq_some at_stop] at at_i
      cases at_i
      rw [requeue, requeue, if_pos rfl, if_neg (by simp [ready]), ← ready]
  rw [split, rrSchedule_requeued t cursor' same]

/-- After `k` calls the turns are those of the first call, rotated by `k`. -/
theorem rrCall_iterate (inside : cursor < t.tasks.length) (somebody : turnOrder t.tasks cursor ≠ [])
    (k : Nat) :
    ∃ c < t.tasks.length, turnOrder t.tasks c = (turnOrder t.tasks cursor).rotate k ∧
      rrSchedule (rrCall^[k] (t, (cursor : Int))).1 (rrCall^[k] (t, (cursor : Int))).2 =
        rrSchedule t c := by
  induction k with
  | zero => exact ⟨cursor, inside, by simp, rfl⟩
  | succ k ih =>
      obtain ⟨c, below, order, call⟩ := ih
      have waiting : turnOrder t.tasks c ≠ [] := by simpa [order] using somebody
      obtain ⟨i, rest, first⟩ := List.exists_cons_of_ne_nil waiting
      have bound : i < t.tasks.length :=
        ((Cyclic.mem_turns below).mp (first ▸ List.mem_cons_self : i ∈ turnOrder t.tasks c)).1
      obtain ⟨_, -, -, outcome⟩ := rrSchedule_first below first
      refine ⟨i, bound, ?_, ?_⟩
      · rw [turnOrder, Cyclic.turns_of_cons first, ← List.rotate_rotate, ← order, first,
          List.rotate_cons_succ, List.rotate_zero]
      · rw [Function.iterate_succ_apply', rrCall, call, rrSchedule_again, outcome]

/-- As many calls as there are tasks with a turn serve each of them once, in cyclic order behind
the cursor. -/
theorem rrSchedule_fair (t : TaskTable) (cursor : Nat) (inside : cursor < t.tasks.length) :
    let order := turnOrder t.tasks cursor
    (order.Nodup ∧ ∀ i, i ∈ order ↔ ∃ task, t.tasks[i]? = some task ∧
        (task.state = .ready ∨ task.state = .running)) ∧
      (∀ k i, order[k]? = some i →
        Serves t i
          (rrSchedule (rrCall^[k] (t, (cursor : Int))).1 (rrCall^[k] (t, (cursor : Int))).2).1
          (rrCall^[k + 1] (t, (cursor : Int))).1) ∧
      (order = [] → (rrSchedule t cursor).1 = none) := by
  intro order
  refine ⟨⟨Cyclic.nodup_turns _ _ _, fun i => ?_⟩, fun k i at_k => ?_, rrSchedule_nobody inside⟩
  · refine (Cyclic.mem_turns inside).trans ?_
    rw [hasTurnAt, Option.any_eq_true]
    constructor
    · rintro ⟨-, task, entry, turn⟩
      exact ⟨task, entry, of_decide_eq_true turn⟩
    · rintro ⟨task, entry, turn⟩
      exact ⟨(List.getElem?_eq_some_iff.mp entry).1, task, entry, decide_eq_true turn⟩
  · have bound : k < order.length := (List.getElem?_eq_some_iff.mp at_k).1
    have somebody : order ≠ [] := List.ne_nil_of_length_pos (by omega)
    obtain ⟨c, below, rotated, call⟩ := rrCall_iterate inside somebody k
    have head : (turnOrder t.tasks c).head? = some i := by
      rw [rotated, List.head?_rotate bound]
      exact at_k
    obtain ⟨rest, first⟩ := List.head?_eq_some_iff.mp head
    have served := rrSchedule_serves below first
    rw [Function.iterate_succ_apply', rrCall, call]
    exact served

/-- A ready, a blocked and a running task. -/
def threeTasks : TaskTable :=
  let root : Task := ⟨1, 0, 0, 0, .ready, 0, 0, 0, 0⟩
  ⟨[root, { root with taskId := 2, state := .blocked },
    { root with taskId := 3, state := .running }], some 2, 4, 0⟩

theorem rrSchedule_fair_threeTasks :
    turnOrder threeTasks.tasks 0 = [2, 0] ∧
      Serves threeTasks 0
        (rrSchedule (rrCall^[1] (threeTasks, 0)).1 (rrCall^[1] (threeTasks, 0)).2).1
        (rrCall^[2] (threeTasks, 0)).1 :=
  ⟨by decide, (rrSchedule_fair threeTasks 0 (by decide)).2.1 1 0 (by decide)⟩

end LughOS.Kernel

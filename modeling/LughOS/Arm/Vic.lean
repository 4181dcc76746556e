import LughOS.Library.Runs

/-!
# The vectored interrupt controller

`vic.c`: the table of handlers and the enable register of the controller, which the two
registration calls change together, and `arm_irq_dispatch`, which runs the handlers of the sources
that are pending.

A handler is any value of a type `H`, and `code` is the C function behind it, as a tree of the
registration calls that it makes and of its accesses to the devices. `armIrqDispatch_eq` replaces
the loop over the status word by a fold over the pending sources, and `vic_serves_registered` puts
it together with the invariant of the table.
-/

namespace LughOS.Arm

variable {H D : Type*}

/-! ## The controller -/

def vicNumIrqs : Nat := 32

/-- The statics of `vic.c` and the registers of the controller that it uses. The cells of the
arrays are numbered from 0, and none from `vicNumIrqs` on is used. -/
structure Vic (H : Type*) where
  handlers : Nat → Option H
  cookies : Nat → BitVec 32
  intEnable : BitVec 32
  intSelect : BitVec 32

namespace Vic

variable (v : Vic H)

/-- A write to `VIC_INTENABLE`. -/
def enable (bits : BitVec 32) : Vic H := { v with intEnable := v.intEnable ||| bits }

/-- A write to `VIC_INTENCLEAR`. -/
def disable (bits : BitVec 32) : Vic H := { v with intEnable := v.intEnable &&& ~~~bits }

def vicInit : Vic H :=
  { v.disable 0xFFFFFFFF with
    intSelect := 0
    handlers := fun i => if i < vicNumIrqs then none else v.handlers i
    cookies := fun i => if i < vicNumIrqs then 0 else v.cookies i }

def irqRegisterHandler (irq : BitVec 32) (fn : Option H) (cookie : BitVec 32) : Int × Vic H :=
  if vicNumIrqs ≤ irq.toNat ∨ fn.isNone then (-1, v)
  else
    (0, { v with
      handlers := Function.update v.handlers irq.toNat fn
      cookies := Function.update v.cookies irq.toNat cookie }.enable (1#32 <<< irq.toNat))

def irqUnregisterHandler (irq : BitVec 32) : Int × Vic H :=
  if vicNumIrqs ≤ irq.toNat then (-1, v)
  else
    (0, { v.disable (1#32 <<< irq.toNat) with
      handlers := Function.update v.handlers irq.toNat none
      cookies := Function.update v.cookies irq.toNat 0 })

/-- `VIC_IRQSTATUS`, given the lines of the devices. -/
def irqStatus (lines : BitVec 32) : BitVec 32 := lines &&& v.intEnable &&& ~~~v.intSelect

end Vic

/-- The controller with the devices behind it. -/
structure Board (H D : Type*) where
  vic : Vic H
  devices : D

/-- What a handler does next, given what the calls before have returned. -/
inductive HandlerCode (H D : Type*) where
  | done
  | register (irq : BitVec 32) (fn : Option H) (cookie : BitVec 32) (next : Int → HandlerCode H D)
  | unregister (irq : BitVec 32) (next : Int → HandlerCode H D)
  /-- An access to the devices, after which it knows their state. -/
  | device (change : D → D) (next : D → HandlerCode H D)

def HandlerCode.run : HandlerCode H D → Board H D → Board H D
  | .done, b => b
  | .register irq fn cookie next, b =>
      let (rv, vic) := b.vic.irqRegisterHandler irq fn cookie
      (next rv).run { b with vic := vic }
  | .unregister irq next, b =>
      let (rv, vic) := b.vic.irqUnregisterHandler irq
      (next rv).run { b with vic := vic }
  | .device change next, b =>
      (next (change b.devices)).run { b with devices := change b.devices }

section Dispatch

variable (code : H → BitVec 32 → BitVec 32 → HandlerCode H D)

/-- The handler of a source, if there is one. -/
def callHandler (b : Board H D) (i : Nat) : Board H D :=
  match b.vic.handlers i with
  | some fn => (code fn (BitVec.ofNat 32 i) (b.vic.cookies i)).run b
  | none => b

/-- The loop of `arm_irq_dispatch` at source `i`, with the rounds that are left. -/
def dispatchLoop : Nat → Nat → BitVec 32 → Board H D → Board H D
  | 0, _, _, b => b
  | rounds + 1, i, status, b =>
      if status = 0 then b
      else if status &&& 1#32 <<< i ≠ 0 then
        dispatchLoop rounds (i + 1) (status &&& ~~~(1#32 <<< i)) (callHandler code b i)
      else dispatchLoop rounds (i + 1) status b

variable (lines : D → BitVec 32)

def armIrqDispatch (b : Board H D) : Board H D :=
  dispatchLoop code vicNumIrqs 0 (b.vic.irqStatus (lines b.devices)) b

/-! ## The loop -/

theorem getLsbD_bit (i j : Nat) : (1#32 <<< i).getLsbD j = (decide (i < 32) && decide (i = j)) := by
  rw [← BitVec.twoPow_eq, BitVec.getLsbD_twoPow]

theorem and_bit_ne_zero_iff (status : BitVec 32) {i : Nat} (small : i < 32) :
    status &&& 1#32 <<< i ≠ 0 ↔ status.getLsbD i = true := by
  rw [← BitVec.twoPow_eq, BitVec.and_twoPow]
  split
  case isTrue set =>
    have bit : BitVec.twoPow 32 i ≠ 0 := fun zero => by
      have := congrArg (·.getLsbD i) zero
      simp [small] at this
    exact ⟨fun _ => set, fun _ => bit⟩
  case isFalse clear => simp [clear]

/-- The sources of a status word from `i` on, in ascending order. -/
def pendingFrom (status : BitVec 32) (i rounds : Nat) : List Nat :=
  (List.range' i rounds).filter fun j => status.getLsbD j

theorem pendingFrom_succ (status : BitVec 32) (i rounds : Nat) :
    pendingFrom status i (rounds + 1) =
      if status.getLsbD i then i :: pendingFrom status (i + 1) rounds
      else pendingFrom status (i + 1) rounds := by
  rw [pendingFrom, List.range'_succ, List.filter_cons, pendingFrom]

/-- Clearing the bit of a source that is done does not change the ones behind it. -/
theorem pendingFrom_clear (status : BitVec 32) (i rounds : Nat) :
    pendingFrom (status &&& ~~~(1#32 <<< i)) (i + 1) rounds =
      pendingFrom status (i + 1) rounds := by
  refine List.filter_congr fun j member => ?_
  have behind : i ≠ j := by
    have := (List.mem_range'_1.mp member).1
    omega
  simp only [BitVec.getLsbD_and, BitVec.getLsbD_not, getLsbD_bit, behind, decide_false,
    Bool.and_false, Bool.not_false, Bool.and_true]
  by_cases small : j < 32
  · simp [small]
  · simp [BitVec.getLsbD_of_ge _ _ (Nat.le_of_not_lt small)]

/-- The loop calls the handlers of the sources of the status word, each once and in ascending
order. -/
theorem dispatchLoop_eq {rounds i : Nat} (within : i + rounds ≤ 32) (status : BitVec 32)
    (b : Board H D) :
    dispatchLoop code rounds i status b =
      (pendingFrom status i rounds).foldl (callHandler code) b := by
  induction rounds generalizing i status b with
  | zero => rfl
  | succ rounds ih =>
      rw [dispatchLoop, pendingFrom_succ]
      by_cases zero : status = 0
      · have nothing : pendingFrom status (i + 1) rounds = [] := by
          simp [pendingFrom, zero]
        rw [if_pos zero, zero, ← zero, nothing]
        simp [zero]
      · rw [if_neg zero]
        by_cases set : status.getLsbD i = true
        · rw [if_pos ((and_bit_ne_zero_iff status (by omega)).mpr set), if_pos set,
            ih (by omega), pendingFrom_clear, List.foldl_cons]
        · rw [if_neg fun some_bit => set ((and_bit_ne_zero_iff status (by omega)).mp some_bit),
            if_neg set, ih (by omega)]

theorem armIrqDispatch_eq (b : Board H D) :
    armIrqDispatch code lines b =
      (pendingFrom (b.vic.irqStatus (lines b.devices)) 0 32).foldl (callHandler code) b :=
  dispatchLoop_eq code (Nat.le_refl 32) _ b

end Dispatch

/-! ## The table -/

namespace Vic

/-- The sources that are enabled are those with a handler, and all of them raise ordinary
interrupts. -/
structure Consistent (v : Vic H) : Prop where
  select : v.intSelect = 0
  enabled : ∀ i, i < vicNumIrqs → v.intEnable.getLsbD i = (v.handlers i).isSome

variable {v : Vic H}

theorem vicInit_consistent (v : Vic H) : v.vicInit.Consistent := by
  refine ⟨rfl, fun i small => ?_⟩
  have none : v.vicInit.handlers i = none := if_pos small
  rw [none]
  simp [vicInit, disable]

theorem irqRegisterHandler_consistent (good : v.Consistent) (irq : BitVec 32) (fn : Option H)
    (cookie : BitVec 32) : (v.irqRegisterHandler irq fn cookie).2.Consistent := by
  unfold irqRegisterHandler
  split
  · exact good
  case isFalse accepted =>
    rw [not_or, Nat.not_le] at accepted
    refine ⟨good.select, fun i small => ?_⟩
    simp only [enable, BitVec.getLsbD_or, getLsbD_bit]
    by_cases here : irq.toNat = i
    · subst here
      have given : fn.isSome = true := Option.isSome_iff_ne_none.mpr (by simpa using accepted.2)
      have bound : irq.toNat < 32 := small
      simp [given, bound]
    · rw [Function.update_of_ne (Ne.symm here), ← good.enabled i small]
      simp [here]

theorem irqUnregisterHandler_consistent (good : v.Consistent) (irq : BitVec 32) :
    (v.irqUnregisterHandler irq).2.Consistent := by
  unfold irqUnregisterHandler
  split
  · exact good
  case isFalse accepted =>
    refine ⟨good.select, fun i small => ?_⟩
    have bound : i < 32 := small
    simp only [disable, BitVec.getLsbD_and, BitVec.getLsbD_not, getLsbD_bit]
    by_cases here : irq.toNat = i
    · subst here
      simp [bound]
    · rw [Function.update_of_ne (Ne.symm here), ← good.enabled i small]
      simp [here, bound]

theorem Consistent.getLsbD_irqStatus (good : v.Consistent) (lines : BitVec 32) {i : Nat}
    (small : i < vicNumIrqs) :
    (v.irqStatus lines).getLsbD i = (lines.getLsbD i && (v.handlers i).isSome) := by
  have bound : i < 32 := small
  rw [irqStatus, good.select, BitVec.getLsbD_and, BitVec.getLsbD_and, good.enabled i small,
    BitVec.getLsbD_not]
  simp [bound]

end Vic

/-! ## Runs -/

inductive VicCall (H D : Type*) where
  | register (irq : BitVec 32) (fn : Option H) (cookie : BitVec 32)
  | unregister (irq : BitVec 32)
  /-- The devices change by themselves. -/
  | device (change : D → D)
  | interrupt

theorem HandlerCode.run_consistent (h : HandlerCode H D) {b : Board H D} (good : b.vic.Consistent) :
    (h.run b).vic.Consistent := by
  induction h generalizing b with
  | done => exact good
  | register irq fn cookie next ih =>
      exact ih _ (Vic.irqRegisterHandler_consistent good irq fn cookie)
  | unregister irq next ih => exact ih _ (Vic.irqUnregisterHandler_consistent good irq)
  | device change next ih => exact ih _ good

section Runs

variable (code : H → BitVec 32 → BitVec 32 → HandlerCode H D) (lines : D → BitVec 32)

def vicStep (b : Board H D) : VicCall H D → Board H D
  | .register irq fn cookie => { b with vic := (b.vic.irqRegisterHandler irq fn cookie).2 }
  | .unregister irq => { b with vic := (b.vic.irqUnregisterHandler irq).2 }
  | .device change => { b with devices := change b.devices }
  | .interrupt => armIrqDispatch code lines b

theorem callHandler_consistent {b : Board H D} (good : b.vic.Consistent) (i : Nat) :
    (callHandler code b i).vic.Consistent := by
  unfold callHandler
  split
  · exact HandlerCode.run_consistent _ good
  · exact good

theorem vicStep_consistent (b : Board H D) (call : VicCall H D) (good : b.vic.Consistent) :
    (vicStep code lines b call).vic.Consistent := by
  cases call with
  | register irq fn cookie => exact Vic.irqRegisterHandler_consistent good irq fn cookie
  | unregister irq => exact Vic.irqUnregisterHandler_consistent good irq
  | device change => exact good
  | interrupt =>
      rw [vicStep, armIrqDispatch_eq]
      exact Runs.invariant_after (I := fun b : Board H D => b.vic.Consistent) good
        (fun b i inside => callHandler_consistent code inside i) _

/-- After `vic_init`, whatever is registered and unregistered, also by handlers while they run: the
sources that are enabled are those that have a handler, and an interrupt runs the handlers of the
registered sources whose line is up, each once and in ascending order, and nothing else. -/
theorem vic_serves_registered (v : Vic H) (d : D) (calls : List (VicCall H D)) :
    let b := Runs.after (vicStep code lines) ⟨v.vicInit, d⟩ calls
    (∀ i, i < vicNumIrqs → b.vic.intEnable.getLsbD i = (b.vic.handlers i).isSome) ∧
      armIrqDispatch code lines b =
        ((List.range vicNumIrqs).filter fun i =>
          (lines b.devices).getLsbD i && (b.vic.handlers i).isSome).foldl (callHandler code) b := by
  intro b
  have good : b.vic.Consistent :=
    Runs.invariant_after (I := fun b : Board H D => b.vic.Consistent) (Vic.vicInit_consistent v)
      (vicStep_consistent code lines) calls
  refine ⟨good.enabled, ?_⟩
  rw [armIrqDispatch_eq, pendingFrom, ← List.range_eq_range']
  refine congrArg (List.foldl (callHandler code) b) (List.filter_congr fun i member => ?_)
  exact good.getLsbD_irqStatus _ (List.mem_range.mp member)

end Runs

/-- A handler that takes all lines down and leaves its place to source 6. -/
def handOver (_ : Unit) (irq cookie : BitVec 32) : HandlerCode Unit (BitVec 32) :=
  .device (fun _ => 0) fun _ => .unregister irq fun _ => .register 6 (some ()) cookie fun _ => .done

theorem vic_serves_registered_handOver :
    let b := armIrqDispatch handOver id (Runs.after (vicStep handOver id)
      ⟨Vic.vicInit ⟨fun _ => none, fun _ => 0, 0, 0⟩, 0x30⟩ [.register 4 (some ()) 9])
    b.devices = 0 ∧ b.vic.intEnable = 0x40 ∧ b.vic.handlers 4 = none ∧ b.vic.cookies 6 = 9 := by
  have served := (vic_serves_registered handOver id ⟨fun _ => none, fun _ => 0, 0, 0⟩ 0x30
    [.register 4 (some ()) 9]).2
  rw [served]
  decide

end LughOS.Arm

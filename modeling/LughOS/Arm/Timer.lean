import LughOS.Arm.Vic
import LughOS.Kernel.InterruptLevels

/-!
# The system tick on ARM

The dual timer of `timer.c` behind the controller, and the level calls of `vic.c`, which mask all
interrupts at the processor. Both timers share one line of the controller. The line stays up until
each timer that raised it is acknowledged, and a timer that expires again before that leaves no
further trace.

A run is any sequence of timers expiring, other lines going up and down, moments at which the
processor takes an interrupt if it may, and level calls. `ticks_accounted` is the bookkeeping of
the tick counter over such runs, `section_defers_ticks` what a critical section does to it.
-/

namespace LughOS.Arm

open Sections Kernel

/-! ## The timers -/

/-- The registers of one timer that `timer.c` uses; `ris` is its raw interrupt. -/
structure TimerUnit where
  load : BitVec 32
  control : BitVec 32
  ris : Bool

namespace TimerUnit

/-- `T_CTRL_ENABLE`. -/
def counts (t : TimerUnit) : Bool := t.control.getLsbD 7

/-- The interrupt output: the raw interrupt, if `T_CTRL_INTEN` is set. -/
def line (t : TimerUnit) : Bool := t.ris && t.control.getLsbD 5

def expire (t : TimerUnit) : TimerUnit := if t.counts then { t with ris := true } else t

/-- A write to `T_INTCLR`. -/
def intClr (t : TimerUnit) : TimerUnit := { t with ris := false }

end TimerUnit

/-- The timers, the counters of `timer.c` and `log.c`, and the lines of the other devices. -/
structure Devices where
  timer0 : TimerUnit
  timer1 : TimerUnit
  armJiffies : BitVec 64
  logTicks : BitVec 32
  otherLines : BitVec 32

def timerVicIrq : Nat := 4

/-- The lines as the controller sees them. -/
def Devices.lines (d : Devices) : BitVec 32 :=
  if d.timer0.line || d.timer1.line then d.otherLines ||| 1#32 <<< timerVicIrq
  else d.otherLines &&& ~~~(1#32 <<< timerVicIrq)

namespace Devices

/-- `timer_isr`. -/
def timerIsr (d : Devices) : Devices :=
  let d :=
    if d.timer0.ris then
      { d with
        armJiffies := d.armJiffies + 1
        logTicks := d.logTicks + 1
        timer0 := d.timer0.intClr }
    else d
  if d.timer1.ris then { d with timer1 := d.timer1.intClr } else d

end Devices

/-- The handlers of this build. -/
inductive Handler where
  | timerIsr
  deriving DecidableEq

def Handler.code (fn : Handler) (_ _ : BitVec 32) : HandlerCode Handler Devices :=
  match fn with
  | .timerIsr => .device Devices.timerIsr fun _ => .done

def armTimerInit (b : Board Handler Devices) : Board Handler Devices :=
  { vic := (b.vic.irqRegisterHandler (BitVec.ofNat 32 timerVicIrq) (some .timerIsr) 0).2
    devices :=
      { b.devices with
        timer0 := { b.devices.timer0 with load := 10000, control := 0xE2 } } }

/-! ## Level calls -/

section Levels

variable (cpsr : BitVec 32)

/-- `msr cpsr_c`. -/
def cpsrWriteC (v : BitVec 32) : BitVec 32 := cpsr &&& ~~~0xFF ||| v &&& 0xFF

def splraise (ipl : BitVec 32) : BitVec 16 × BitVec 32 :=
  ((cpsr >>> 7 &&& 1).setWidth 16, if ipl ≠ 0 then cpsrWriteC cpsr (cpsr ||| 0x80) else cpsr)

def splx (prev : BitVec 16) : BitVec 32 :=
  cpsrWriteC cpsr (if prev ≠ 0 then cpsr ||| 0x80 else cpsr &&& ~~~0x80)

def splhigh : BitVec 16 × BitVec 32 := splraise cpsr 3

def splclock : BitVec 16 × BitVec 32 := splraise cpsr 2

def spl0 : BitVec 16 × BitVec 32 :=
  ((cpsr >>> 7 &&& 1).setWidth 16, cpsrWriteC cpsr (cpsr &&& ~~~0x80))

def openSection : Opener → BitVec 16 × BitVec 32
  | .splraise ipl => splraise cpsr ipl
  | .splhigh => splhigh cpsr
  | .splclock => splclock cpsr
  | .spl0 => spl0 cpsr

/-- The processor takes no interrupts. -/
def masked : Bool := cpsr.getLsbD 7

theorem masked_raise : masked (cpsrWriteC cpsr (cpsr ||| 0x80)) = true := by
  simp [masked, cpsrWriteC]

theorem masked_lower : masked (cpsrWriteC cpsr (cpsr &&& ~~~0x80)) = false := by
  simp [masked, cpsrWriteC]

theorem saved_eq : (cpsr >>> 7 &&& 1).setWidth 16 = if masked cpsr then 1#16 else 0#16 := by
  refine BitVec.eq_of_getLsbD_eq fun i below => ?_
  cases bit : cpsr.getLsbD 7 <;> simp only [masked, bit] <;> interval_cases i <;> simp_all

/-- The result of a level call is the mask it found. -/
theorem openSection_saves (o : Opener) : (openSection cpsr o).1 ≠ 0 ↔ masked cpsr = true := by
  have saved : (openSection cpsr o).1 = if masked cpsr then 1#16 else 0#16 := by
    cases o <;> exact saved_eq cpsr
  rw [saved]
  cases masked cpsr <;> decide

theorem masked_splx (prev : BitVec 16) : masked (splx cpsr prev) = true ↔ prev ≠ 0 := by
  unfold splx
  split
  case isTrue was => exact ⟨fun _ => was, fun _ => masked_raise cpsr⟩
  case isFalse was =>
    rw [masked_lower]
    exact ⟨fun yes => absurd yes (by decide), fun yes => absurd yes was⟩

/-- An opener other than `spl0` never unmasks. -/
theorem openSection_keeps_masked {o : Opener} (raises : o ≠ .spl0) (already : masked cpsr = true) :
    masked (openSection cpsr o).2 = true := by
  cases o with
  | splraise ipl =>
      simp only [openSection, splraise]
      split
      · exact masked_raise cpsr
      · exact already
  | splhigh => exact masked_raise cpsr
  | splclock => exact masked_raise cpsr
  | spl0 => exact absurd rfl raises

end Levels

/-! ## The machine -/

structure TimerMachine where
  cpsr : BitVec 32
  board : Board Handler Devices

inductive TimerEvent where
  | expire0
  | expire1
  | otherLines (lines : BitVec 32)
  /-- The processor looks for an interrupt, as it does between any two instructions. -/
  | look
  deriving DecidableEq

namespace TimerMachine

def withDevices (m : TimerMachine) (d : Devices) : TimerMachine :=
  { m with board := { m.board with devices := d } }

def event (m : TimerMachine) : TimerEvent → TimerMachine
  | .expire0 => m.withDevices { m.board.devices with timer0 := m.board.devices.timer0.expire }
  | .expire1 => m.withDevices { m.board.devices with timer1 := m.board.devices.timer1.expire }
  | .otherLines lines => m.withDevices { m.board.devices with otherLines := lines }
  | .look =>
      if masked m.cpsr then m
      else { m with board := armIrqDispatch Handler.code Devices.lines m.board }

end TimerMachine

theorem event_cpsr (m : TimerMachine) (e : TimerEvent) : (m.event e).cpsr = m.cpsr := by
  cases e with
  | look =>
      rw [TimerMachine.event]
      split <;> rfl
  | expire0 => rfl
  | expire1 => rfl
  | otherLines lines => rfl

/-- `spl_t` as the bit that it stands for. -/
def splValue (prev : BitVec 16) : Bool := decide (prev ≠ 0)

def splOf (value : Bool) : BitVec 16 := if value then 1 else 0

theorem splValue_openSection (cpsr : BitVec 32) (o : Opener) :
    splValue (openSection cpsr o).1 = masked cpsr := by
  rw [splValue, Bool.eq_iff_iff, decide_eq_true_iff]
  exact openSection_saves cpsr o

theorem masked_splx_splOf (cpsr : BitVec 32) (value : Bool) :
    masked (splx cpsr (splOf value)) = value := by
  rw [Bool.eq_iff_iff, masked_splx]
  cases value <;> decide

theorem masked_event (e : TimerEvent) (m : TimerMachine) :
    masked (m.event e).cpsr = masked m.cpsr := by rw [event_cpsr]

/-- The level calls save and restore the mask of the processor. -/
def timerSections : Saving TimerMachine Opener TimerEvent Bool where
  value := fun m => masked m.cpsr
  enter := fun o m =>
    (splValue (openSection m.cpsr o).1, { m with cpsr := (openSection m.cpsr o).2 })
  leave := fun prev m => { m with cpsr := splx m.cpsr (splOf prev) }
  other := fun e m => m.event e
  saves := fun o m => splValue_openSection m.cpsr o
  restores := fun prev m => masked_splx_splOf m.cpsr prev
  keeps := masked_event

/-! ## Interrupts -/

/-- The controller behind `arm_timer_init`: one handler, and its source alone is enabled. -/
def TimerVic (v : Vic Handler) : Prop :=
  v.intEnable = 1#32 <<< timerVicIrq ∧ v.intSelect = 0 ∧
    v.handlers timerVicIrq = some .timerIsr

theorem armTimerInit_timerVic (v : Vic Handler) (d : Devices) :
    TimerVic (armTimerInit ⟨v.vicInit, d⟩).vic := by
  have accepted : v.vicInit.irqRegisterHandler (BitVec.ofNat 32 timerVicIrq) (some .timerIsr) 0 =
      (0, { v.vicInit with
        handlers := Function.update v.vicInit.handlers timerVicIrq (some .timerIsr)
        cookies := Function.update v.vicInit.cookies timerVicIrq 0 }.enable
          (1#32 <<< timerVicIrq)) := by
    rw [Vic.irqRegisterHandler, if_neg (by decide)]
    rfl
  rw [armTimerInit]
  dsimp only
  rw [accepted]
  refine ⟨?_, rfl, ?_⟩
  · simp [Vic.vicInit, Vic.disable, Vic.enable]
  · simp [Vic.enable]

theorem lines_timer (d : Devices) :
    d.lines.getLsbD timerVicIrq = (d.timer0.line || d.timer1.line) := by
  rw [Devices.lines]
  split
  case isTrue up => simp [up, timerVicIrq]
  case isFalse down => simp [Bool.not_eq_true _ ▸ down, timerVicIrq]

/-- With this controller an interrupt is one call of `timer_isr`, if a timer asks for it. -/
theorem armIrqDispatch_timer {b : Board Handler Devices} (good : TimerVic b.vic) :
    armIrqDispatch Handler.code Devices.lines b =
      if b.devices.timer0.line || b.devices.timer1.line then
        { b with devices := b.devices.timerIsr }
      else b := by
  obtain ⟨enable, select, handler⟩ := good
  have status : b.vic.irqStatus b.devices.lines =
      if b.devices.timer0.line || b.devices.timer1.line then 1#32 <<< timerVicIrq else 0 := by
    rw [Vic.irqStatus, enable, select, ← BitVec.twoPow_eq, BitVec.and_twoPow, lines_timer]
    split <;> rfl
  rw [armIrqDispatch_eq, status]
  split
  · have one : pendingFrom (1#32 <<< timerVicIrq) 0 32 = [timerVicIrq] := by decide
    rw [one, List.foldl_cons, List.foldl_nil, callHandler, handler]
    rfl
  · have nothing : pendingFrom 0 0 32 = [] := by decide
    rw [nothing, List.foldl_nil]

/-! ## The tick counter -/

/-- The tick that a timer holds back. -/
def TimerUnit.pending (t : TimerUnit) : BitVec 64 := if t.ris then 1 else 0

namespace Devices

variable (d : Devices)

theorem timerIsr_ris : d.timerIsr.timer0.ris = false ∧ d.timerIsr.timer1.ris = false := by
  unfold timerIsr TimerUnit.intClr
  constructor <;> (dsimp only; split_ifs <;> simp_all)

theorem timerIsr_control : d.timerIsr.timer0.control = d.timer0.control := by
  unfold timerIsr TimerUnit.intClr
  dsimp only
  split_ifs <;> rfl

/-- Acknowledging the tick moves it from the timer to the counters. -/
theorem timerIsr_ticks :
    d.timerIsr.armJiffies = d.armJiffies + d.timer0.pending ∧
      d.timerIsr.logTicks = d.logTicks + d.timer0.pending.setWidth 32 := by
  unfold timerIsr TimerUnit.pending
  dsimp only
  split_ifs <;> simp

end Devices

/-- What stays true of the machine behind `arm_timer_init`. -/
structure Ready (m : TimerMachine) : Prop where
  vic : TimerVic m.board.vic
  control : m.board.devices.timer0.control = 0xE2

theorem Ready.counts {m : TimerMachine} (ready : Ready m) :
    m.board.devices.timer0.counts = true := by
  rw [TimerUnit.counts, ready.control]
  decide

/-- What the processor does when it looks for an interrupt. -/
theorem Ready.look_eq {m : TimerMachine} (ready : Ready m) :
    m.event .look =
      if !masked m.cpsr && (m.board.devices.timer0.line || m.board.devices.timer1.line) then
        m.withDevices m.board.devices.timerIsr
      else m := by
  rw [TimerMachine.event, armIrqDispatch_timer ready.vic]
  cases masked m.cpsr
  · cases m.board.devices.timer0.line || m.board.devices.timer1.line <;> rfl
  · rfl

theorem event_ready {m : TimerMachine} (ready : Ready m) (e : TimerEvent) : Ready (m.event e) := by
  cases e with
  | expire0 =>
      refine ⟨ready.vic, Eq.trans ?_ ready.control⟩
      change m.board.devices.timer0.expire.control = _
      unfold TimerUnit.expire
      split <;> rfl
  | expire1 => exact ⟨ready.vic, ready.control⟩
  | otherLines lines => exact ⟨ready.vic, ready.control⟩
  | look =>
      rw [ready.look_eq]
      split
      · exact ⟨ready.vic, (Devices.timerIsr_control _).trans ready.control⟩
      · exact ready

/-- The machine with the open sections. -/
abbrev Sectioned := TimerMachine × List (Frame Opener Bool)

theorem step_ready {x : Sectioned} (ready : Ready x.1) (call : Call Opener TimerEvent) :
    Ready (timerSections.step x call).1 := by
  cases call with
  | enter o => exact ⟨ready.vic, ready.control⟩
  | leave =>
      obtain ⟨m, frames⟩ := x
      cases frames with
      | nil => exact ready
      | cons f rest => exact ⟨ready.vic, ready.control⟩
  | other e => exact event_ready ready e

/-- The expiries of the tick timer in a call; each is `true` if the tick before it was still
held back, so that it leaves no trace. -/
def expiries (x : Sectioned) : Call Opener TimerEvent → List Bool
  | .other .expire0 => [x.1.board.devices.timer0.ris]
  | _ => []

/-- The ticks that were counted or are held back. -/
def ticks (d : Devices) : BitVec 64 := d.armJiffies + d.timer0.pending

theorem event_ticks {m : TimerMachine} (ready : Ready m) {e : TimerEvent}
    (kept : e ≠ .expire0) : ticks (m.event e).board.devices = ticks m.board.devices := by
  cases e with
  | expire0 => exact absurd rfl kept
  | expire1 => rfl
  | otherLines lines => rfl
  | look =>
      rw [ready.look_eq]
      split
      · have quiet : m.board.devices.timerIsr.timer0.pending = 0 := by
          rw [TimerUnit.pending, (m.board.devices.timerIsr_ris).1]
          rfl
        change ticks m.board.devices.timerIsr = ticks m.board.devices
        rw [ticks, (m.board.devices.timerIsr_ticks).1, quiet, add_zero, ticks]
      · rfl

theorem expire_ticks {m : TimerMachine} (ready : Ready m) :
    ticks (m.event .expire0).board.devices +
        BitVec.ofNat 64 ([m.board.devices.timer0.ris].count true) =
      ticks m.board.devices + 1 := by
  have expired : (m.event .expire0).board.devices.timer0.ris = true := by
    change m.board.devices.timer0.expire.ris = true
    rw [TimerUnit.expire, if_pos ready.counts]
  have jiffies : (m.event .expire0).board.devices.armJiffies = m.board.devices.armJiffies := rfl
  rw [ticks, ticks, TimerUnit.pending, TimerUnit.pending, expired, jiffies]
  cases m.board.devices.timer0.ris <;> simp

theorem step_ticks {x : Sectioned} (ready : Ready x.1) (call : Call Opener TimerEvent) :
    ticks (timerSections.step x call).1.board.devices +
        BitVec.ofNat 64 ((expiries x call).count true) =
      ticks x.1.board.devices + BitVec.ofNat 64 (expiries x call).length := by
  cases call with
  | enter o => rfl
  | leave =>
      obtain ⟨m, frames⟩ := x
      cases frames <;> rfl
  | other e =>
      cases e with
      | expire0 => exact expire_ticks ready
      | expire1 => rfl
      | otherLines lines => rfl
      | look => exact congrArg (· + 0) (event_ticks ready (by decide))

/-- The counter of the log is the low word of the other one. -/
theorem step_logTicks {x : Sectioned} (ready : Ready x.1) (call : Call Opener TimerEvent)
    (same : x.1.board.devices.logTicks = x.1.board.devices.armJiffies.setWidth 32) :
    (timerSections.step x call).1.board.devices.logTicks =
      (timerSections.step x call).1.board.devices.armJiffies.setWidth 32 := by
  cases call with
  | enter o => exact same
  | leave =>
      obtain ⟨m, frames⟩ := x
      cases frames <;> exact same
  | other e =>
      cases e with
      | look =>
          change ((x.1.event .look).board.devices).logTicks =
            ((x.1.event .look).board.devices).armJiffies.setWidth 32
          rw [ready.look_eq]
          split
          · change x.1.board.devices.timerIsr.logTicks =
              x.1.board.devices.timerIsr.armJiffies.setWidth 32
            rw [(x.1.board.devices.timerIsr_ticks).1, (x.1.board.devices.timerIsr_ticks).2, same,
              BitVec.setWidth_add _ _ (by decide)]
          · exact same
      | expire0 => exact same
      | expire1 => exact same
      | otherLines lines => exact same

/-! ## Runs -/

/-- The machine behind `vic_init` and `arm_timer_init`. The counters start at 0, and no tick is
held back yet. -/
def timerStarted (cpsr : BitVec 32) (v : Vic Handler) (load control : BitVec 32)
    (timer1 : TimerUnit) (otherLines : BitVec 32) : Sectioned :=
  (⟨cpsr, armTimerInit ⟨v.vicInit, ⟨⟨load, control, false⟩, timer1, 0, 0, otherLines⟩⟩⟩, [])

section Started

variable (cpsr : BitVec 32) (v : Vic Handler) (load control : BitVec 32) (timer1 : TimerUnit)
  (otherLines : BitVec 32)

theorem timerStarted_ready : Ready (timerStarted cpsr v load control timer1 otherLines).1 :=
  ⟨armTimerInit_timerVic v _, rfl⟩

theorem run_ready (calls : List (Call Opener TimerEvent)) :
    Ready (Runs.after timerSections.step
      (timerStarted cpsr v load control timer1 otherLines) calls).1 :=
  Runs.invariant_after (I := fun x : Sectioned => Ready x.1)
    (timerStarted_ready cpsr v load control timer1 otherLines)
    (fun _ call ready => step_ready ready call) calls

theorem run_ticks (calls : List (Call Opener TimerEvent)) :
    let start := timerStarted cpsr v load control timer1 otherLines
    let expired := Runs.outputs timerSections.step expiries start calls
    ticks (Runs.after timerSections.step start calls).1.board.devices +
        BitVec.ofNat 64 (expired.count true) =
      BitVec.ofNat 64 expired.length := by
  intro start expired
  induction calls using List.reverseRecOn with
  | nil => rfl
  | append_singleton calls call ih =>
      have ready := run_ready cpsr v load control timer1 otherLines calls
      have step := step_ticks ready call
      simp only [expired, Runs.after_concat, Runs.outputs_concat, List.count_append,
        List.length_append, BitVec.ofNat_add]
      linear_combination step + ih

theorem run_logTicks (calls : List (Call Opener TimerEvent)) :
    let final := (Runs.after timerSections.step
      (timerStarted cpsr v load control timer1 otherLines) calls).1.board.devices
    final.logTicks = final.armJiffies.setWidth 32 := by
  intro final
  induction calls using List.reverseRecOn with
  | nil => rfl
  | append_singleton calls call ih =>
      simp only [final, Runs.after_concat]
      exact step_logTicks (run_ready cpsr v load control timer1 otherLines calls) call ih

/-- No timer asks for an interrupt when one was just served. -/
theorem look_quiet {m : TimerMachine} (ready : Ready m) (unmasked : masked m.cpsr = false) :
    (m.event .look).board.devices.lines.getLsbD timerVicIrq = false := by
  rw [lines_timer, ready.look_eq, unmasked]
  cases asks : m.board.devices.timer0.line || m.board.devices.timer1.line with
  | false => exact asks
  | true =>
      obtain ⟨quiet0, quiet1⟩ := m.board.devices.timerIsr_ris
      change (m.board.devices.timerIsr.timer0.line || m.board.devices.timerIsr.timer1.line) = false
      rw [TimerUnit.line, TimerUnit.line, quiet0, quiet1]
      rfl

/-- Over every run, each expiry of the tick timer has been counted, is held back by the timer, or
came while the one before it was held back. The counter of the log goes along. Whenever the
processor looks for an interrupt and is not masked, both timers are quiet afterwards, so that
the handler is not entered again for the same tick. -/
theorem ticks_accounted (calls : List (Call Opener TimerEvent)) :
    let start := timerStarted cpsr v load control timer1 otherLines
    let final := (Runs.after timerSections.step start calls).1
    let expired := Runs.outputs timerSections.step expiries start calls
    final.board.devices.armJiffies + final.board.devices.timer0.pending +
          BitVec.ofNat 64 (expired.count true) =
        BitVec.ofNat 64 expired.length ∧
      final.board.devices.logTicks = final.board.devices.armJiffies.setWidth 32 ∧
      (masked final.cpsr = false →
        (final.event .look).board.devices.lines.getLsbD timerVicIrq = false) :=
  ⟨run_ticks cpsr v load control timer1 otherLines calls,
    run_logTicks cpsr v load control timer1 otherLines calls,
    look_quiet (run_ready cpsr v load control timer1 otherLines calls)⟩

end Started

/-! ## Critical sections -/

/-- The openers that mask interrupts. -/
def Masks : Opener → Prop
  | .splraise ipl => ipl ≠ 0
  | .splhigh => True
  | .splclock => True
  | .spl0 => False

theorem openSection_masks (cpsr : BitVec 32) {o : Opener} (masks : Masks o) :
    masked (openSection cpsr o).2 = true := by
  cases o with
  | splraise ipl =>
      have raised : ipl ≠ 0 := masks
      rw [openSection, splraise, if_pos raised]
      exact masked_raise cpsr
  | splhigh => exact masked_raise cpsr
  | splclock => exact masked_raise cpsr
  | spl0 => exact masks.elim

/-- Nothing happens to the counter between `x` and `y`, but a tick may have come to be held back:
`expired` says if the timer expired in between. -/
structure Deferred (expired : Prop) (x y : TimerMachine) : Prop where
  jiffies : y.board.devices.armJiffies = x.board.devices.armJiffies
  held : y.board.devices.timer0.ris = true ↔ x.board.devices.timer0.ris = true ∨ expired

theorem Deferred.trans {p q : Prop} {x y z : TimerMachine} (first : Deferred p x y)
    (second : Deferred q y z) : Deferred (p ∨ q) x z where
  jiffies := second.jiffies.trans first.jiffies
  held := by rw [second.held, first.held, or_assoc]

theorem Deferred.congr {p q : Prop} {x y : TimerMachine} (deferred : Deferred p x y)
    (same : p ↔ q) : Deferred q x y := propext same ▸ deferred

theorem Deferred.refl (x : TimerMachine) : Deferred False x x := ⟨rfl, by rw [or_false]⟩

theorem event_deferred {m : TimerMachine} (ready : Ready m) (is_masked : masked m.cpsr = true)
    (e : TimerEvent) : Deferred (e = .expire0) m (m.event e) := by
  cases e with
  | expire0 =>
      refine ⟨rfl, ⟨fun _ => .inr rfl, fun _ => ?_⟩⟩
      change m.board.devices.timer0.expire.ris = true
      rw [TimerUnit.expire, if_pos ready.counts]
  | expire1 => exact ⟨rfl, by simp [TimerMachine.event, TimerMachine.withDevices]⟩
  | otherLines lines => exact ⟨rfl, by simp [TimerMachine.event, TimerMachine.withDevices]⟩
  | look =>
      have nothing : m.event .look = m := if_pos is_masked
      rw [nothing]
      exact (Deferred.refl m).congr (by simp)

/-- One section, given what happens inside. -/
theorem section_deferred {inside : List (Call Opener TimerEvent)} (bracketed : WellBracketed inside)
    {x : Sectioned} {o : Opener} {expired : Prop}
    (ready : Ready (Runs.after timerSections.step (timerSections.step x (.enter o)) inside).1)
    (deferred : Deferred expired (timerSections.step x (.enter o)).1
      (Runs.after timerSections.step (timerSections.step x (.enter o)) inside).1) :
    let left := timerSections.step
      (Runs.after timerSections.step (timerSections.step x (.enter o)) inside) .leave
    Ready left.1 ∧ Deferred expired x.1 left.1 ∧ masked left.1.cpsr = masked x.1.cpsr := by
  intro left
  obtain ⟨-, frames⟩ := timerSections.restored bracketed (timerSections.step x (.enter o))
  have leave_eq : left = _ := timerSections.step_leave frames
  refine ⟨step_ready ready .leave, ⟨?_, ?_⟩, ?_⟩
  · rw [leave_eq]
    exact deferred.jiffies
  · rw [leave_eq]
    exact deferred.held
  · rw [leave_eq]
    exact (timerSections.restores _ _).trans (timerSections.saves o x.1)

/-- While the processor is masked and no `spl0` unmasks it, whole sections hold ticks back. -/
theorem bracketed_deferred {calls : List (Call Opener TimerEvent)} (bracketed : WellBracketed calls)
    (raises : .enter .spl0 ∉ calls) {x : Sectioned} (ready : Ready x.1)
    (is_masked : masked x.1.cpsr = true) :
    Ready (Runs.after timerSections.step x calls).1 ∧
      Deferred (.other .expire0 ∈ calls) x.1 (Runs.after timerSections.step x calls).1 := by
  induction bracketed generalizing x with
  | nil => exact ⟨ready, rfl, by simp⟩
  | @other e calls _ ih =>
      rw [List.mem_cons, not_or] at raises
      have cons : Runs.after timerSections.step x (.other e :: calls) =
          Runs.after timerSections.step (timerSections.step x (.other e)) calls := rfl
      have step : Deferred (e = .expire0) x.1 (timerSections.step x (.other e)).1 :=
        event_deferred ready is_masked e
      have still : masked (timerSections.step x (.other e)).1.cpsr = true :=
        (masked_event e x.1).trans is_masked
      obtain ⟨ready', rest⟩ := ih raises.2 (step_ready ready (.other e)) still
      rw [cons]
      refine ⟨ready', (step.trans rest).congr ?_⟩
      rw [List.mem_cons, Call.other.injEq, eq_comm]
  | @nest o inside calls inside_bracketed _ body rest =>
      have raises_inside : .enter .spl0 ∉ inside := fun member => raises (by simp [member])
      have raises_rest : .enter .spl0 ∉ calls := fun member => raises (by simp [member])
      have raising : o ≠ .spl0 := fun same => raises (by simp [same])
      have entered : masked (timerSections.step x (.enter o)).1.cpsr = true :=
        openSection_keeps_masked x.1.cpsr raising is_masked
      obtain ⟨ready_inside, held_inside⟩ := body raises_inside (step_ready ready (.enter o)) entered
      obtain ⟨ready_left, held_left, restored⟩ :=
        section_deferred inside_bracketed ready_inside held_inside
      obtain ⟨ready', held⟩ := rest raises_rest ready_left (restored.trans is_masked)
      have split : Runs.after timerSections.step x (.enter o :: (inside ++ .leave :: calls)) =
          Runs.after timerSections.step (timerSections.step (Runs.after timerSections.step
            (timerSections.step x (.enter o)) inside) .leave) calls := by
        simp only [Runs.after, List.foldl_cons, List.foldl_append]
      rw [split]
      exact ⟨ready', (held_left.trans held).congr (by simp)⟩

/-- A critical section in which no `spl0` unmasks the processor leaves the tick counter alone, and
the mask as it found it. A tick that is held back, or that expires in the section, is held back at
its end, so that it is counted as soon as the processor may take interrupts. -/
theorem section_defers_ticks (cpsr : BitVec 32) (v : Vic Handler) (load control : BitVec 32)
    (timer1 : TimerUnit) (otherLines : BitVec 32) (before inside : List (Call Opener TimerEvent))
    {o : Opener} (masks : Masks o) (bracketed : WellBracketed inside)
    (raises : .enter .spl0 ∉ inside) :
    let start := timerStarted cpsr v load control timer1 otherLines
    let found := (Runs.after timerSections.step start before).1
    let final := (Runs.after timerSections.step start
      (before ++ .enter o :: (inside ++ [.leave]))).1
    final.board.devices.armJiffies = found.board.devices.armJiffies ∧
      masked final.cpsr = masked found.cpsr ∧
      (final.board.devices.timer0.ris = true ↔
        found.board.devices.timer0.ris = true ∨ .other .expire0 ∈ inside) := by
  intro start found final
  have ready := run_ready cpsr v load control timer1 otherLines before
  have entered : masked (timerSections.step (Runs.after timerSections.step start before)
      (.enter o)).1.cpsr = true := openSection_masks found.cpsr masks
  obtain ⟨ready_inside, held_inside⟩ :=
    bracketed_deferred bracketed raises (step_ready ready (.enter o)) entered
  obtain ⟨-, held, restored⟩ := section_deferred bracketed ready_inside held_inside
  have split : final = (timerSections.step (Runs.after timerSections.step (timerSections.step
      (Runs.after timerSections.step start before) (.enter o)) inside) .leave).1 := by
    simp only [final, Runs.after, List.foldl_append, List.foldl_cons, List.foldl_nil]
  rw [split]
  exact ⟨held.jiffies, restored, held.held⟩

theorem section_defers_ticks_splhigh :
    let start := timerStarted 0x13 ⟨fun _ => none, fun _ => 0, 0, 0⟩ 0 0 ⟨0, 0, false⟩ 0
    let final := (Runs.after timerSections.step start
      [.enter .splhigh, .other .expire0, .other .look, .leave]).1
    final.board.devices.armJiffies = 0 ∧ final.board.devices.timer0.ris = true := by
  obtain ⟨jiffies, -, held⟩ := section_defers_ticks 0x13 ⟨fun _ => none, fun _ => 0, 0, 0⟩ 0 0
    ⟨0, 0, false⟩ 0 [] [.other .expire0, .other .look] (o := .splhigh) trivial
    (.other _ (.other _ .nil)) (by simp)
  exact ⟨jiffies, held.mpr (.inr (by simp))⟩

end LughOS.Arm

import LughOS.Library.Runs

/-!
# Serving interrupts on x86

`do_irq` and the table of handlers of `isr.c`, with `irq_eoi` of `pic.c`, against a model of the
two interrupt controllers. When the processor acknowledges an interrupt, a controller moves the
request to its in-service register, and an end-of-interrupt command takes the most urgent one out
again. A request may be gone by the time it is acknowledged: then the controller answers with its
last line and nothing is in service. On the second controller this leaves the line of the cascade
in service on the first.

So the code owes each controller exactly as many end-of-interrupt commands as it has requests in
service. `interrupts_balanced` says that it pays them, over any run.
-/

namespace LughOS.X86

/-! ## The controllers -/

/-- The number of the lowest bit that is set. -/
def lowest (bits : BitVec 8) : Option Nat := (List.range 8).find? fun i => bits.getLsbD i

/-- One controller: requests, masks and what is in service. `readsIsr` says which register a read
of the command port gives. -/
structure Chip where
  irr : BitVec 8
  imr : BitVec 8
  isr : BitVec 8
  readsIsr : Bool

namespace Chip

variable (c : Chip)

/-- A non-specific end of interrupt. -/
def eoi : Chip :=
  match lowest c.isr with
  | some i => { c with isr := c.isr &&& ~~~(1#8 <<< i) }
  | none => c

/-- The most urgent request, if nothing in service is as urgent. -/
def request : Option Nat :=
  match lowest (c.irr &&& ~~~c.imr) with
  | none => none
  | some i =>
      match lowest c.isr with
      | none => some i
      | some j => if i < j then some i else none

def accept (i : Nat) : Chip :=
  { c with irr := c.irr &&& ~~~(1#8 <<< i), isr := c.isr ||| 1#8 <<< i }

/-- A write to the command port. -/
def command (value : BitVec 8) : Chip :=
  if value = 0x20 then c.eoi
  else if value = 0x0B then { c with readsIsr := true }
  else if value = 0x0A then { c with readsIsr := false }
  else c

/-- A read of the command port. -/
def read : BitVec 8 := if c.readsIsr then c.isr else c.irr

end Chip

structure PicPair where
  master : Chip
  slave : Chip

namespace PicPair

variable (p : PicPair)

def outb (port : BitVec 16) (value : BitVec 8) : PicPair :=
  if port = 0x20 then { p with master := p.master.command value }
  else if port = 0xA0 then { p with slave := p.slave.command value }
  else if port = 0x21 then { p with master := { p.master with imr := value } }
  else if port = 0xA1 then { p with slave := { p.slave with imr := value } }
  else p

def inb (port : BitVec 16) : BitVec 8 :=
  if port = 0x20 then p.master.read
  else if port = 0xA0 then p.slave.read
  else 0

/-- The line of the first controller that the second one is connected to. -/
def cascade : Nat := 2

/-- The interrupt that is acknowledged, if there is one at all. -/
def source : Option Nat :=
  match p.master.request with
  | none => none
  | some i => if i = cascade then p.slave.request.map (8 + ·) else some i

/-- The processor acknowledges an interrupt: the line that the controllers answer with, and what
is in service then. -/
def acknowledge : Nat × PicPair :=
  match p.master.request with
  | none => (7, p)
  | some i =>
      if i = cascade then
        match p.slave.request with
        | none => (15, { p with master := p.master.accept cascade })
        | some j => (8 + j, ⟨p.master.accept cascade, p.slave.accept j⟩)
      else (i, { p with master := p.master.accept i })

def irqEoi (irq : Nat) : PicPair :=
  (if 8 ≤ irq then p.outb 0xA0 0x20 else p).outb 0x20 0x20

end PicPair

/-! ## The handlers -/

/-- The controllers, the table `irq_handlers`, and the rest of the machine. -/
structure IrqState (F W : Type*) where
  pics : PicPair
  fns : Nat → Option F
  cookies : Nat → BitVec 32
  world : W

variable {F W : Type*}

namespace IrqState

variable (s : IrqState F W)

def irqRegisterHandler (irq : BitVec 32) (fn : Option F) (cookie : BitVec 32) :
    Int × IrqState F W :=
  if 16 ≤ irq.toNat then (-1, s)
  else
    (0, { s with
      fns := Function.update s.fns irq.toNat fn
      cookies := Function.update s.cookies irq.toNat cookie })

def irqUnregisterHandler (irq : BitVec 32) : Int × IrqState F W :=
  if 16 ≤ irq.toNat then (-1, s)
  else
    (0, { s with
      fns := Function.update s.fns irq.toNat none
      cookies := Function.update s.cookies irq.toNat 0 })

def outb (port : BitVec 16) (value : BitVec 8) : IrqState F W :=
  { s with pics := s.pics.outb port value }

def isSpuriousIrq7 : Bool × IrqState F W :=
  let s := s.outb 0x20 0x0B
  (s.pics.inb 0x20 &&& 0x80 = 0, s)

def isSpuriousIrq15 : Bool × IrqState F W :=
  let s := s.outb 0xA0 0x0B
  (s.pics.inb 0xA0 &&& 0x80 = 0, s)

variable (act : F → BitVec 32 → BitVec 32 → IrqState F W → IrqState F W)

/-- The handler of a line, if there is one. -/
def callHandler (irq : Nat) : IrqState F W :=
  if irq < 16 then
    match s.fns irq with
    | some fn => act fn (BitVec.ofNat 32 irq) (s.cookies irq) s
    | none => s
  else s

/-- The part of `do_irq` behind the checks for spurious interrupts. -/
def handleIrq (irq : Nat) : IrqState F W :=
  let s := s.callHandler act irq
  { s with pics := s.pics.irqEoi irq }

def doIrq (irq : Nat) : IrqState F W :=
  if irq = 7 then
    let (spurious, s) := s.isSpuriousIrq7
    if spurious then s else s.handleIrq act irq
  else if irq = 15 then
    let (spurious, s) := s.isSpuriousIrq15
    if spurious then s.outb 0x20 0x20 else s.handleIrq act irq
  else s.handleIrq act irq

/-- The processor takes an interrupt: it acknowledges it, and the stub of the line it is given
calls `do_irq`. -/
def interrupt : IrqState F W :=
  let (irq, pics) := s.pics.acknowledge
  { s with pics := pics }.doIrq act irq

/-- The state in which the handler of a line is called: the check for a spurious interrupt leaves
the controller set to give its in-service register. -/
def checked (irq : Nat) : IrqState F W :=
  if irq = 7 then s.outb 0x20 0x0B
  else if irq = 15 then s.outb 0xA0 0x0B
  else s

end IrqState

/-! ## What is in service -/

theorem lowest_lt {bits : BitVec 8} {i : Nat} (found : lowest bits = some i) : i < 8 :=
  List.mem_range.mp (List.mem_of_find?_eq_some found)

theorem lowest_bit {i : Nat} (small : i < 8) : lowest (1#8 <<< i) = some i := by
  interval_cases i <;> decide

namespace Chip

variable {c : Chip} {i : Nat}

theorem request_lt (found : c.request = some i) : i < 8 := by
  unfold request at found
  split at found
  · cases found
  case h_2 j urgent =>
    have bound := lowest_lt urgent
    split at found
    · cases found
      exact bound
    · split at found
      · cases found
        exact bound
      · cases found

theorem accept_isr (idle : c.isr = 0) : (c.accept i).isr = 1#8 <<< i := by
  simp [accept, idle]

/-- One request in service and one end of interrupt. -/
theorem command_eoi_isr (small : i < 8) (serving : c.isr = 1#8 <<< i) :
    (c.command 0x20).isr = 0 := by
  have cleared : (1#8 <<< i) &&& ~~~(1#8 <<< i) = 0 := by simp
  rw [command, if_pos rfl, eoi, serving, lowest_bit small]
  exact cleared

end Chip

/-- No request is in service. -/
structure Idle (p : PicPair) : Prop where
  master : p.master.isr = 0
  slave : p.slave.isr = 0

/-- What the controllers have in service behind an acknowledgement, for each of the answers. -/
inductive Serving (p : PicPair) : Nat → PicPair → Prop
  | nothing (none : p.source = none) {q : PicPair} (idle : Idle q) : Serving p 7 q
  | cascadeOnly (none : p.source = none) {q : PicPair} (master : q.master.isr = 1#8 <<< 2)
      (slave : q.slave.isr = 0) : Serving p 15 q
  | fromMaster {i : Nat} (small : i < 8) (real : p.source = some i) {q : PicPair}
      (master : q.master.isr = 1#8 <<< i) (slave : q.slave.isr = 0) : Serving p i q
  | fromSlave {j : Nat} (small : j < 8) (real : p.source = some (8 + j)) {q : PicPair}
      (master : q.master.isr = 1#8 <<< 2) (slave : q.slave.isr = 1#8 <<< j) : Serving p (8 + j) q

theorem Idle.acknowledge {p : PicPair} (idle : Idle p) :
    Serving p p.acknowledge.1 p.acknowledge.2 := by
  unfold PicPair.acknowledge
  cases master : p.master.request with
  | none => exact .nothing (by rw [PicPair.source, master]) idle
  | some i =>
      dsimp only
      have real : p.source =
          if i = PicPair.cascade then p.slave.request.map (8 + ·) else some i := by
        rw [PicPair.source, master]
      by_cases cascaded : i = PicPair.cascade
      · rw [if_pos cascaded] at real ⊢
        cases slave : p.slave.request with
        | none =>
            rw [slave] at real
            exact .cascadeOnly real (Chip.accept_isr idle.master) idle.slave
        | some j =>
            rw [slave] at real
            exact .fromSlave (Chip.request_lt slave) real (Chip.accept_isr idle.master)
              (Chip.accept_isr idle.slave)
      · rw [if_neg cascaded] at real ⊢
        exact .fromMaster (Chip.request_lt master) real (Chip.accept_isr idle.master) idle.slave

/-! ## One interrupt -/

/-- The handlers leave what is in service alone. -/
def Polite (act : F → BitVec 32 → BitVec 32 → IrqState F W → IrqState F W) : Prop :=
  ∀ fn irq cookie s,
    (act fn irq cookie s).pics.master.isr = s.pics.master.isr ∧
      (act fn irq cookie s).pics.slave.isr = s.pics.slave.isr

namespace IrqState

variable {s : IrqState F W} {act : F → BitVec 32 → BitVec 32 → IrqState F W → IrqState F W}

theorem callHandler_isr (polite : Polite act) (irq : Nat) :
    (s.callHandler act irq).pics.master.isr = s.pics.master.isr ∧
      (s.callHandler act irq).pics.slave.isr = s.pics.slave.isr := by
  unfold callHandler
  split
  · split
    · exact polite _ _ _ s
    · exact ⟨rfl, rfl⟩
  · exact ⟨rfl, rfl⟩

theorem checked_isr (irq : Nat) :
    (s.checked irq).pics.master.isr = s.pics.master.isr ∧
      (s.checked irq).pics.slave.isr = s.pics.slave.isr := by
  unfold checked
  split
  · exact ⟨rfl, rfl⟩
  · split <;> exact ⟨rfl, rfl⟩

/-- An interrupt that is in service passes the checks. -/
theorem doIrq_real {irq : Nat} (seven : irq = 7 → s.pics.master.isr &&& 0x80 ≠ 0)
    (fifteen : irq = 15 → s.pics.slave.isr &&& 0x80 ≠ 0) :
    s.doIrq act irq = (s.checked irq).handleIrq act irq := by
  unfold doIrq checked
  split
  case isTrue is_seven =>
    have real : (s.isSpuriousIrq7).1 = false := decide_eq_false (seven is_seven)
    simp only [real]
    rfl
  case isFalse =>
    split
    case isTrue is_fifteen =>
      have real : (s.isSpuriousIrq15).1 = false := decide_eq_false (fifteen is_fifteen)
      simp only [real]
      rfl
    case isFalse => rfl

theorem handleIrq_idle_master (polite : Polite act) {i : Nat} (small : i < 8)
    (master : s.pics.master.isr = 1#8 <<< i) (slave : s.pics.slave.isr = 0) :
    Idle (s.handleIrq act i).pics := by
  obtain ⟨kept_master, kept_slave⟩ := callHandler_isr (s := s) polite i
  have eoi : (s.handleIrq act i).pics = (s.callHandler act i).pics.outb 0x20 0x20 := by
    rw [handleIrq, PicPair.irqEoi, if_neg (by omega)]
  rw [eoi]
  exact ⟨Chip.command_eoi_isr small (kept_master.trans master), kept_slave.trans slave⟩

theorem handleIrq_idle_slave (polite : Polite act) {j : Nat} (small : j < 8)
    (master : s.pics.master.isr = 1#8 <<< 2) (slave : s.pics.slave.isr = 1#8 <<< j) :
    Idle (s.handleIrq act (8 + j)).pics := by
  obtain ⟨kept_master, kept_slave⟩ := callHandler_isr (s := s) polite (8 + j)
  have eoi : (s.handleIrq act (8 + j)).pics =
      ((s.callHandler act (8 + j)).pics.outb 0xA0 0x20).outb 0x20 0x20 := by
    rw [handleIrq, PicPair.irqEoi, if_pos (by omega)]
  rw [eoi]
  exact ⟨Chip.command_eoi_isr (by decide) (kept_master.trans master),
    Chip.command_eoi_isr small (kept_slave.trans slave)⟩

/-- The table and the rest of the machine. -/
def rest (s : IrqState F W) : (Nat → Option F) × (Nat → BitVec 32) × W :=
  (s.fns, s.cookies, s.world)

/-- What an interrupt does to the rest of the machine: the handler of its source is called, if it
has a source. -/
def served (s : IrqState F W) (act : F → BitVec 32 → BitVec 32 → IrqState F W → IrqState F W) :
    IrqState F W :=
  match s.pics.source with
  | none => s
  | some irq => ({ s with pics := s.pics.acknowledge.2 }.checked irq).callHandler act irq

theorem interrupt_spec (polite : Polite act) (idle : Idle s.pics) :
    Idle (s.interrupt act).pics ∧ (s.interrupt act).rest = (s.served act).rest := by
  have serving := idle.acknowledge
  have code : s.interrupt act =
      { s with pics := s.pics.acknowledge.2 }.doIrq act s.pics.acknowledge.1 := rfl
  rw [code, served]
  generalize s.pics.acknowledge = ack at serving ⊢
  obtain ⟨irq, q⟩ := ack
  dsimp only at serving ⊢
  cases serving with
  | nothing none idle =>
      have spurious : (isSpuriousIrq7 { s with pics := q }).1 = true := by
        refine decide_eq_true ?_
        change q.master.isr &&& 0x80 = 0
        rw [idle.master]
        rfl
      have returns : doIrq { s with pics := q } act 7 = outb { s with pics := q } 0x20 0x0B := by
        rw [doIrq, if_pos rfl]
        simp only [spurious]
        rfl
      rw [returns, none]
      exact ⟨⟨idle.master, idle.slave⟩, rfl⟩
  | cascadeOnly none master slave =>
      have spurious : (isSpuriousIrq15 { s with pics := q }).1 = true := by
        refine decide_eq_true ?_
        change q.slave.isr &&& 0x80 = 0
        rw [slave]
        rfl
      have returns : doIrq { s with pics := q } act 15 =
          (outb { s with pics := q } 0xA0 0x0B).outb 0x20 0x20 := by
        rw [doIrq, if_neg (by decide), if_pos rfl]
        simp only [spurious]
        rfl
      rw [returns, none]
      exact ⟨⟨Chip.command_eoi_isr (by decide) master, slave⟩, rfl⟩
  | fromMaster small real master slave =>
      have kept := checked_isr (s := { s with pics := q }) irq
      rw [doIrq_real, real]
      · exact ⟨handleIrq_idle_master polite small (kept.1.trans master) (kept.2.trans slave), rfl⟩
      · rintro rfl
        change q.master.isr &&& 0x80 ≠ 0
        rw [master]
        decide
      · omega
  | @fromSlave j small real _ master slave =>
      have kept := checked_isr (s := { s with pics := q }) (8 + j)
      rw [doIrq_real, real]
      · exact ⟨handleIrq_idle_slave polite small (kept.1.trans master) (kept.2.trans slave), rfl⟩
      · omega
      · intro last
        obtain rfl : j = 7 := by omega
        change q.slave.isr &&& 0x80 ≠ 0
        rw [slave]
        decide

end IrqState

/-! ## Runs -/

/-- What happens between and around interrupts. -/
inductive IrqEvent (F : Type*) where
  /-- The lines of the devices. -/
  | requests (master slave : BitVec 8)
  /-- The masks, as `apply_mask` sends them. -/
  | masks (master slave : BitVec 8)
  | register (irq : BitVec 32) (fn : Option F) (cookie : BitVec 32)
  | unregister (irq : BitVec 32)
  | interrupt

section Runs

variable (act : F → BitVec 32 → BitVec 32 → IrqState F W → IrqState F W)

def irqStep (s : IrqState F W) : IrqEvent F → IrqState F W
  | .requests master slave =>
      { s with
        pics := ⟨{ s.pics.master with irr := master }, { s.pics.slave with irr := slave }⟩ }
  | .masks master slave => (s.outb 0x21 master).outb 0xA1 slave
  | .register irq fn cookie => (s.irqRegisterHandler irq fn cookie).2
  | .unregister irq => (s.irqUnregisterHandler irq).2
  | .interrupt => s.interrupt act

theorem irqStep_idle (polite : Polite act) (s : IrqState F W) (event : IrqEvent F)
    (idle : Idle s.pics) : Idle (irqStep act s event).pics := by
  cases event with
  | requests master slave => exact ⟨idle.master, idle.slave⟩
  | masks master slave => exact ⟨idle.master, idle.slave⟩
  | register irq fn cookie =>
      rw [irqStep, IrqState.irqRegisterHandler]
      split <;> exact idle
  | unregister irq =>
      rw [irqStep, IrqState.irqUnregisterHandler]
      split <;> exact idle
  | interrupt => exact (IrqState.interrupt_spec polite idle).1

/-- From controllers with nothing in service, over any run: nothing is in service between two
interrupts, so that no line is ever blocked by an interrupt that was served; and an interrupt calls
the handler of the line whose request was acknowledged, once, or no handler if the request was
gone. -/
theorem interrupts_balanced (polite : Polite act) (s : IrqState F W) (idle : Idle s.pics)
    (events : List (IrqEvent F)) :
    let s' := Runs.after (irqStep act) s events
    s'.pics.master.isr = 0 ∧ s'.pics.slave.isr = 0 ∧
      (s'.interrupt act).rest = (s'.served act).rest := by
  intro s'
  have idle' : Idle s'.pics :=
    Runs.invariant_after (I := fun s : IrqState F W => Idle s.pics) idle
      (irqStep_idle act polite) events
  exact ⟨idle'.master, idle'.slave, (IrqState.interrupt_spec polite idle').2⟩

/-- A handler that counts its calls. -/
def countIrq (_ : Unit) (_ _ : BitVec 32) (s : IrqState Unit Nat) : IrqState Unit Nat :=
  { s with world := s.world + 1 }

theorem interrupts_balanced_countIrq :
    let start : IrqState Unit Nat :=
      ⟨⟨⟨0, 0, 0, false⟩, ⟨0, 0, 0, false⟩⟩, fun _ => none, fun _ => 0, 0⟩
    let s := Runs.after (irqStep countIrq) start
      [.register 12 (some ()) 0, .requests 0x04 0x10, .interrupt, .interrupt]
    s.pics.master.isr = 0 ∧ s.pics.slave.isr = 0 := by
  obtain ⟨master, slave, -⟩ := interrupts_balanced countIrq (fun _ _ _ _ => ⟨rfl, rfl⟩)
    ⟨⟨⟨0, 0, 0, false⟩, ⟨0, 0, 0, false⟩⟩, fun _ => none, fun _ => 0, 0⟩ ⟨rfl, rfl⟩
    [.register 12 (some ()) 0, .requests 0x04 0x10, .interrupt, .interrupt]
  exact ⟨master, slave⟩

end Runs

end LughOS.X86

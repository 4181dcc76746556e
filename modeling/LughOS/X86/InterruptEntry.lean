import LughOS.Library.WordStack
import LughOS.X86.InterruptService

/-!
# Interrupt entry on x86

The gates of `idt.c`, and the stubs and `irq_common` of `isr_stubs.S` as lists of instructions of a
processor in ring 0. The C function they call is any one that keeps to the calling convention.

The stub and `irq_common` push twelve registers, a number and a dummy below what the processor
has pushed, and pass the stack pointer on as a pointer to `struct regs`. The stack is then the
list `frame`, read from its end; that is where `do_irq` finds `int_no` and where the way
back finds everything else.
-/

namespace LughOS.X86

open Words

variable {K : Type*}

/-! ## The processor -/

abbrev Word := BitVec 32

inductive Reg where
  | eax | ecx | edx | ebx | esp | ebp | esi | edi
  deriving DecidableEq

inductive Seg where
  | ds | es | fs | gs
  deriving DecidableEq

/-- A processor in ring 0 with flat segments, and the state `K` behind the C functions. -/
@[ext] structure Core (K : Type*) where
  regs : Reg → Word
  segs : Seg → BitVec 16
  cs : BitVec 16
  eflags : Word
  eip : Word
  mem : Words
  world : K

inductive Instr (K : Type*) where
  | cli
  | pushImm (w : Word)
  | pushReg (r : Reg)
  | pushSeg (s : Seg)
  | pusha
  | movImm (r : Reg) (w : Word)
  | movSeg (s : Seg) (r : Reg)
  | add (r : Reg) (w : Word)
  /-- The address is the one behind the instruction. -/
  | call (ret : Word) (f : Core K → Core K)
  | popSeg (s : Seg)
  | popa
  | iret

namespace Core

def stack (c : Core K) : WordStack := ⟨c.mem, c.regs .esp⟩

def withStack (c : Core K) (s : WordStack) : Core K :=
  { c with mem := s.mem, regs := Function.update c.regs .esp s.sp }

def setReg (c : Core K) (r : Reg) (w : Word) : Core K :=
  { c with regs := Function.update c.regs r w }

/-- The `i`-th word from the stack pointer. -/
def word (c : Core K) (i : Nat) : Word := c.mem (c.regs .esp + 4 * BitVec.ofNat 32 i)

/-- The order of `pusha`; the stack pointer is the one in front of the instruction. -/
def pushaOrder : List Reg := [.eax, .ecx, .edx, .ebx, .esp, .ebp, .esi, .edi]

/-- `popa`, which leaves out the stack pointer. -/
def popped (c : Core K) : Reg → Word
  | .edi => c.word 0
  | .esi => c.word 1
  | .ebp => c.word 2
  | .esp => c.regs .esp + 32
  | .ebx => c.word 4
  | .edx => c.word 5
  | .ecx => c.word 6
  | .eax => c.word 7

def exec (c : Core K) : Instr K → Core K
  | .cli => { c with eflags := c.eflags &&& ~~~0x200 }
  | .pushImm w => c.withStack (c.stack.push w)
  | .pushReg r => c.withStack (c.stack.push (c.regs r))
  | .pushSeg s => c.withStack (c.stack.push ((c.segs s).setWidth 32))
  | .pusha => c.withStack (c.stack.pushAll (pushaOrder.map c.regs))
  | .movImm r w => c.setReg r w
  | .movSeg s r => { c with segs := Function.update c.segs s ((c.regs r).setWidth 16) }
  | .add r w => c.setReg r (c.regs r + w)
  | .call ret f => f (c.withStack (c.stack.push ret))
  | .popSeg s =>
      { c.setReg .esp (c.regs .esp + 4) with
        segs := Function.update c.segs s ((c.word 0).setWidth 16) }
  | .popa => { c with regs := c.popped }
  | .iret =>
      { c.setReg .esp (c.regs .esp + 12) with
        eip := c.word 0, cs := (c.word 1).setWidth 16, eflags := c.word 2 }

def run (c : Core K) (code : List (Instr K)) : Core K := code.foldl exec c

end Core

/-! ## The gates -/

/-- `struct idt_entry`. -/
structure IdtEntry where
  baseLo : BitVec 16
  sel : BitVec 16
  always0 : BitVec 8
  flags : BitVec 8
  baseHi : BitVec 16
  deriving DecidableEq

abbrev IdtEntries := BitVec 8 → IdtEntry

def idtSetGate (idt : IdtEntries) (num : BitVec 8) (base : Word) (sel : BitVec 16)
    (flags : BitVec 8) : IdtEntries :=
  Function.update idt num
    { baseLo := (base &&& 0xFFFF).setWidth 16
      baseHi := ((base >>> 16) &&& 0xFFFF).setWidth 16
      sel := sel
      always0 := 0
      flags := flags }

/-- The entry points in `isr_stubs.S` and `syscall.S`. -/
structure EntryPoints where
  isr : Nat → Word
  irq : Nat → Word
  syscallEntry : Word

def idtInit (e : EntryPoints) : IdtEntries :=
  let cleared : IdtEntries := fun _ => ⟨0, 0, 0, 0, 0⟩
  let exceptions := (List.range 32).foldl
    (fun idt n => idtSetGate idt (BitVec.ofNat 8 n) (e.isr n) 0x08 0x8E) cleared
  let irqs := (List.range 16).foldl
    (fun idt n => idtSetGate idt (BitVec.ofNat 8 (0x20 + n)) (e.irq n) 0x08 0x8E) exceptions
  idtSetGate irqs 0x80 e.syscallEntry 0x08 0xEE

def IdtEntry.target (g : IdtEntry) : Word := g.baseHi ++ g.baseLo

/-- The processor takes an interrupt through a 32-bit interrupt gate, without a change of ring. -/
def Core.deliver (c : Core K) (g : IdtEntry) : Core K :=
  { c.withStack (c.stack.pushAll [c.eflags, c.cs.setWidth 32, c.eip]) with
    eflags := c.eflags &&& ~~~0x200, cs := g.sel, eip := g.target }

/-! ## The stubs -/

def irqStub (n : Nat) : List (Instr K) := [.cli, .pushImm 0, .pushImm (BitVec.ofNat 32 n)]

/-- `irq_common` up to the argument of `do_irq`. -/
def irqSave : List (Instr K) :=
  [.pusha, .pushSeg .ds, .pushSeg .es, .pushSeg .fs, .pushSeg .gs,
    .movImm .eax 0x10, .movSeg .ds .eax, .movSeg .es .eax, .movSeg .fs .eax, .movSeg .gs .eax,
    .pushReg .esp]

/-- `irq_common` behind the call. -/
def irqReturn : List (Instr K) :=
  [.add .esp 4, .popSeg .gs, .popSeg .fs, .popSeg .es, .popSeg .ds, .popa, .add .esp 8, .iret]

def irqCommon (ret : Word) (doIrq : Core K → Core K) : List (Instr K) :=
  irqSave ++ [.call ret doIrq] ++ irqReturn

/-! ## Linked images -/

/-- The stack of the kernel, by its ends. -/
structure StackArea where
  limit : Nat
  top : Nat

def StackArea.bytes (a : StackArea) : Set Word := { x | a.limit ≤ x.toNat ∧ x.toNat < a.top }

/-- A C function with one argument, a pointer to `struct regs`. On a stack with room for it the
function returns to its caller; it writes to the memory it owns, to `depth` words of stack and to
the words of its call; and all that it reads of the structure is `int_no`. -/
structure Cdecl (own : Set Word) (area : StackArea) (depth : Nat) (effect : Word → K → K)
    (f : Core K → Core K) : Prop where
  returns : ∀ c, below (c.regs .esp) depth ∪ bytesFrom (c.regs .esp) 2 ⊆ area.bytes →
    (f c).regs .esp = c.regs .esp + 4
  writes : ∀ c, below (c.regs .esp) depth ∪ bytesFrom (c.regs .esp) 2 ⊆ area.bytes →
    ∀ x, x ∉ own → x ∉ below (c.regs .esp) depth ∪ bytesFrom (c.regs .esp) 2 →
      (f c).mem x = c.mem x
  acts : ∀ c, below (c.regs .esp) depth ∪ bytesFrom (c.regs .esp) 2 ⊆ area.bytes →
    (f c).world = effect (c.mem (c.mem (c.regs .esp + 4) + 48)) c.world

/-- What is at the entry points: the stubs, each of which goes on in `irq_common`. -/
structure Image (K : Type*) (effect : Word → K → K) extends EntryPoints where
  code : Word → List (Instr K)
  ret : Word
  doIrq : Core K → Core K
  linked : ∀ n < 16, code (irq n) = irqStub n ++ irqCommon ret doIrq
  /-- The memory that `do_irq` owns. -/
  own : Set Word
  area : StackArea
  depth : Nat
  apart : Disjoint own area.bytes
  cdecl : Cdecl own area depth effect doIrq

/-- An interrupt on a line, from the gate to the `iret`. -/
def Image.takeIrq {effect : Word → K → K} (img : Image K effect) (c : Core K) (n : Nat) : Core K :=
  let entered := c.deliver (idtInit img.toEntryPoints (BitVec.ofNat 8 (0x20 + n)))
  entered.run (img.code entered.eip)

/-! ## Stack and registers -/

namespace Core

variable (c : Core K) {r : Reg} {s : Seg}

@[simp] theorem stack_withStack (st : WordStack) : (c.withStack st).stack = st := by
  simp [stack, withStack]

theorem regs_withStack_of_ne (other : r ≠ .esp) (st : WordStack) :
    (c.withStack st).regs r = c.regs r := Function.update_of_ne other _ _

theorem esp_eq : c.regs .esp = c.stack.sp := rfl

/-! What the instructions of the way in do to the stack and to the other registers. -/

@[simp] theorem stack_cli : (c.exec .cli).stack = c.stack := rfl
@[simp] theorem stack_pushImm (w : Word) : (c.exec (.pushImm w)).stack = c.stack.push w :=
  c.stack_withStack _
@[simp] theorem stack_pushReg : (c.exec (.pushReg r)).stack = c.stack.push (c.regs r) :=
  c.stack_withStack _
@[simp] theorem stack_pushSeg :
    (c.exec (.pushSeg s)).stack = c.stack.push ((c.segs s).setWidth 32) := c.stack_withStack _
@[simp] theorem stack_pusha :
    (c.exec .pusha).stack = c.stack.pushAll (pushaOrder.map c.regs) := c.stack_withStack _
@[simp] theorem stack_movSeg : (c.exec (.movSeg s r)).stack = c.stack := rfl
@[simp] theorem stack_movImm (w : Word) (other : .esp ≠ r) :
    (c.exec (.movImm r w)).stack = c.stack := by
  simp [stack, exec, setReg, other]

theorem regs_cli : (c.exec .cli).regs = c.regs := rfl
theorem regs_pushImm (w : Word) (other : r ≠ .esp) : (c.exec (.pushImm w)).regs r = c.regs r :=
  c.regs_withStack_of_ne other _

theorem segs_cli : (c.exec .cli).segs = c.segs := rfl
theorem segs_pushImm (w : Word) : (c.exec (.pushImm w)).segs = c.segs := rfl
theorem segs_pushSeg : (c.exec (.pushSeg s)).segs = c.segs := rfl
theorem segs_pusha : (c.exec .pusha).segs = c.segs := rfl

end Core

/-- What an interrupt of a line has pushed when `do_irq` gets its argument: `struct regs` from its
last field to its first. -/
def frame (c : Core K) (n : Nat) : List Word :=
  [c.eflags, c.cs.setWidth 32, c.eip, 0, BitVec.ofNat 32 n,
    c.regs .eax, c.regs .ecx, c.regs .edx, c.regs .ebx, c.regs .esp - 20, c.regs .ebp,
    c.regs .esi, c.regs .edi,
    (c.segs .ds).setWidth 32, (c.segs .es).setWidth 32, (c.segs .fs).setWidth 32,
    (c.segs .gs).setWidth 32]

/-- In front of `irq_common`. -/
def stubbed (c : Core K) (g : IdtEntry) (n : Nat) : Core K := (c.deliver g).run (irqStub n)

theorem stack_stubbed (c : Core K) (g : IdtEntry) (n : Nat) :
    (stubbed c g n).stack =
      c.stack.pushAll [c.eflags, c.cs.setWidth 32, c.eip, 0, BitVec.ofNat 32 n] := by
  have delivered : (c.deliver g).stack =
      c.stack.pushAll [c.eflags, c.cs.setWidth 32, c.eip] := c.stack_withStack _
  simp only [stubbed, Core.run, irqStub, List.foldl_cons, List.foldl_nil, Core.stack_pushImm,
    Core.stack_cli, delivered]
  rfl

theorem regs_stubbed (c : Core K) (g : IdtEntry) (n : Nat) {r : Reg} (other : r ≠ .esp) :
    (stubbed c g n).regs r = c.regs r := by
  simp only [stubbed, Core.run, irqStub, List.foldl_cons, List.foldl_nil,
    Core.regs_pushImm _ _ other, Core.regs_cli]
  exact c.regs_withStack_of_ne other _

theorem segs_stubbed (c : Core K) (g : IdtEntry) (n : Nat) : (stubbed c g n).segs = c.segs := rfl

theorem esp_stubbed (c : Core K) (g : IdtEntry) (n : Nat) :
    (stubbed c g n).regs .esp = c.regs .esp - 20 := by
  rw [Core.esp_eq, stack_stubbed, WordStack.pushAll_eq]
  rfl

/-- The state in which `do_irq` is called. -/
def calling (c : Core K) (g : IdtEntry) (n : Nat) : Core K := (stubbed c g n).run irqSave

theorem stack_calling (c : Core K) (g : IdtEntry) (n : Nat) :
    (calling c g n).stack = c.stack.pushAll (frame c n ++ [c.regs .esp - 68]) := by
  have regs (r : Reg) (other : r ≠ .esp) := regs_stubbed c g n other
  have order : Core.pushaOrder.map (stubbed c g n).regs =
      [c.regs .eax, c.regs .ecx, c.regs .edx, c.regs .ebx, c.regs .esp - 20, c.regs .ebp,
        c.regs .esi, c.regs .edi] := by
    simp only [Core.pushaOrder, List.map_cons, List.map_nil, esp_stubbed,
      regs .eax (by decide), regs .ecx (by decide), regs .edx (by decide), regs .ebx (by decide),
      regs .ebp (by decide), regs .esi (by decide), regs .edi (by decide)]
  have saved : ((stubbed c g n).run (irqSave.take 10)).stack = c.stack.pushAll (frame c n) := by
    simp only [irqSave, List.take, Core.run, List.foldl_cons, List.foldl_nil, Core.stack_movSeg]
    rw [Core.stack_movImm _ _ (by decide)]
    simp only [Core.stack_pushSeg, Core.segs_pushSeg, Core.segs_pusha, segs_stubbed,
      Core.stack_pusha, order, stack_stubbed]
    rfl
  have code : calling c g n = ((stubbed c g n).run (irqSave.take 10)).exec (.pushReg .esp) := rfl
  have sp : (c.stack.pushAll (frame c n)).sp = c.regs .esp - 68 := by
    rw [WordStack.pushAll_eq]
    rfl
  rw [code, Core.stack_pushReg, Core.esp_eq, saved, sp, WordStack.pushAll, WordStack.pushAll,
    List.foldl_concat]

theorem world_calling (c : Core K) (g : IdtEntry) (n : Nat) :
    (calling c g n).world = c.world := rfl

/-! ## The gates of the lines -/

/-- The entry that `idt_set_gate` writes. -/
def gate (base : Word) (sel : BitVec 16) (flags : BitVec 8) : IdtEntry where
  baseLo := (base &&& 0xFFFF).setWidth 16
  baseHi := ((base >>> 16) &&& 0xFFFF).setWidth 16
  sel := sel
  always0 := 0
  flags := flags

theorem target_gate (base : Word) (sel : BitVec 16) (flags : BitVec 8) :
    (gate base sel flags).target = base := by
  have ones (i : Nat) (small : i < 16) : (65535#16)[i] = true := by
    change (BitVec.allOnes 16)[i] = true
    exact BitVec.getElem_allOnes i small
  rw [gate, IdtEntry.target]
  ext i small
  rw [BitVec.getElem_append]
  split
  case isTrue low => simp [ones i low, BitVec.getLsbD_eq_getElem small]
  case isFalse high =>
    have whole : 16 + (i - 16) = i := by omega
    simp [ones (i - 16) (by omega), whole, BitVec.getLsbD_eq_getElem small]

/-- A block of consecutive vectors. -/
theorem foldl_idtSetGate (idt : IdtEntries) (k m : Nat) (base : Nat → Word) (sel : BitVec 16)
    (flags : BitVec 8) (fits : k + m ≤ 256) (v : BitVec 8) :
    (List.range m).foldl (fun idt n => idtSetGate idt (BitVec.ofNat 8 (k + n)) (base n) sel flags)
        idt v =
      if k ≤ v.toNat ∧ v.toNat < k + m then gate (base (v.toNat - k)) sel flags else idt v := by
  induction m with
  | zero => simp
  | succ m ih =>
      rw [List.range_succ, List.foldl_concat, idtSetGate]
      by_cases last : v = BitVec.ofNat 8 (k + m)
      · have number : v.toNat = k + m := by
          rw [last, BitVec.toNat_ofNat]
          omega
        rw [last, Function.update_self, ← last, number, if_pos (by omega), Nat.add_sub_cancel_left]
        rfl
      · have number : v.toNat ≠ k + m := by
          intro same
          exact last (by rw [← same]; simp)
        rw [Function.update_of_ne last, ih (by omega)]
        simp only [show v.toNat < k + (m + 1) ↔ v.toNat < k + m by omega]

/-- The gate of each vector. -/
theorem idtInit_apply (e : EntryPoints) (v : BitVec 8) :
    idtInit e v =
      if v = 0x80 then gate e.syscallEntry 0x08 0xEE
      else if v.toNat < 0x20 then gate (e.isr v.toNat) 0x08 0x8E
      else if v.toNat < 0x30 then gate (e.irq (v.toNat - 0x20)) 0x08 0x8E
      else ⟨0, 0, 0, 0, 0⟩ := by
  have exceptions := foldl_idtSetGate (fun _ => ⟨0, 0, 0, 0, 0⟩) 0 32 e.isr 0x08 0x8E (by decide) v
  simp only [Nat.zero_add, Nat.zero_le, true_and, Nat.sub_zero] at exceptions
  by_cases call : v = 0x80
  · rw [if_pos call, call, idtInit, idtSetGate, Function.update_self]
    rfl
  · rw [if_neg call, idtInit, idtSetGate, Function.update_of_ne call,
      foldl_idtSetGate _ 0x20 16 e.irq 0x08 0x8E (by decide), exceptions]
    split_ifs <;> first | rfl | omega

theorem idtInit_irq (e : EntryPoints) {n : Nat} (line : n < 16) :
    (idtInit e (BitVec.ofNat 8 (0x20 + n))).target = e.irq n := by
  have number : (BitVec.ofNat 8 (0x20 + n)).toNat = 0x20 + n := by
    rw [BitVec.toNat_ofNat]
    omega
  have other : BitVec.ofNat 8 (0x20 + n) ≠ 0x80 := by
    intro same
    have equal := congrArg BitVec.toNat same
    rw [number] at equal
    have large : (0x80 : BitVec 8).toNat = 0x80 := rfl
    omega
  rw [idtInit_apply, if_neg other, number, if_neg (by omega), if_pos (by omega),
    Nat.add_sub_cancel_left, target_gate]

/-! ## The way back -/

namespace Core

variable (c : Core K)

/-- The state behind the `iret`, from the words above the argument of `do_irq`. -/
def unwound : Core K :=
  { c with
    regs := fun
      | .eax => c.word 12
      | .ecx => c.word 11
      | .edx => c.word 10
      | .ebx => c.word 9
      | .esp => c.regs .esp + 72
      | .ebp => c.word 7
      | .esi => c.word 6
      | .edi => c.word 5
    segs := fun
      | .ds => (c.word 4).setWidth 16
      | .es => (c.word 3).setWidth 16
      | .fs => (c.word 2).setWidth 16
      | .gs => (c.word 1).setWidth 16
    eip := c.word 15
    cs := (c.word 16).setWidth 16
    eflags := c.word 17 }

theorem run_irqReturn : c.run irqReturn = c.unwound := by
  have code : c.run irqReturn =
      ((((((((c.exec (.add .esp 4)).exec (.popSeg .gs)).exec (.popSeg .fs)).exec
        (.popSeg .es)).exec (.popSeg .ds)).exec .popa).exec (.add .esp 8)).exec .iret) := rfl
  rw [code]
  apply Core.ext
  case regs =>
    funext r
    cases r <;> simp [exec, setReg, word, popped, unwound, BitVec.add_assoc]
  case segs =>
    funext s
    cases s <;> simp [exec, setReg, word, popped, unwound, BitVec.add_assoc]
  all_goals simp [exec, setReg, word, popped, unwound, BitVec.add_assoc]

end Core

/-! ## One interrupt -/

/-- The interrupted code finds everything as it was. -/
structure Resumed (touched : Set Word) (c c' : Core K) : Prop where
  regs : c'.regs = c.regs
  segs : c'.segs = c.segs
  cs : c'.cs = c.cs
  eflags : c'.eflags = c.eflags
  eip : c'.eip = c.eip
  mem : ∀ x, x ∉ touched → c'.mem x = c.mem x

namespace Resumed

variable {touched : Set Word} {c c' c'' : Core K}

theorem refl (c : Core K) : Resumed touched c c := ⟨rfl, rfl, rfl, rfl, rfl, fun _ _ => rfl⟩

theorem trans (first : Resumed touched c c') (second : Resumed touched c' c'') :
    Resumed touched c c'' where
  regs := second.regs.trans first.regs
  segs := second.segs.trans first.segs
  cs := second.cs.trans first.cs
  eflags := second.eflags.trans first.eflags
  eip := second.eip.trans first.eip
  mem x outside := (second.mem x outside).trans (first.mem x outside)

end Resumed

section Interrupt

variable {effect : Word → K → K} (img : Image K effect) (c : Core K) (g : IdtEntry) (n : Nat)

/-- The first instruction of `do_irq`. -/
def called : Core K := (calling c g n).withStack ((calling c g n).stack.push img.ret)

def returned : Core K := img.doIrq (called img c g n)

/-- The stack pointer is on the stack of the kernel, with room for an interrupt below it. -/
structure OnStack : Prop where
  room : img.area.limit + 4 * (19 + img.depth) ≤ (c.regs .esp).toNat
  inside : (c.regs .esp).toNat ≤ img.area.top

theorem stack_called :
    (called img c g n).stack =
      c.stack.pushAll (frame c n ++ [c.regs .esp - 68, img.ret]) := by
  rw [called, Core.stack_withStack, stack_calling, WordStack.pushAll, WordStack.pushAll,
    List.foldl_append, List.foldl_append]
  rfl

theorem esp_called : (called img c g n).regs .esp = c.regs .esp - 76 := by
  rw [Core.esp_eq, stack_called, WordStack.pushAll_eq]
  rfl

theorem mem_called :
    (called img c g n).mem =
      storeAll c.mem (c.regs .esp - 76)
        (img.ret :: (c.regs .esp - 68) :: (frame c n).reverse) := by
  have stack := congrArg WordStack.mem (stack_called img c g n)
  rw [WordStack.pushAll_eq] at stack
  exact stack

/-- The words on the stack of `do_irq`. -/
theorem word_called {i : Nat} {w : Word}
    (at_i : (img.ret :: (c.regs .esp - 68) :: (frame c n).reverse)[i]? = some w) :
    (called img c g n).mem (c.regs .esp - 76 + 4 * BitVec.ofNat 32 i) = w := by
  obtain ⟨inside, rfl⟩ := List.getElem?_eq_some_iff.mp at_i
  refine mem_of_readAll ?_ inside
  rw [mem_called]
  exact readAll_storeAll _ _ (by simp [frame])

variable {img c}

theorem OnStack.callable (on : OnStack img c) :
    below ((called img c g n).regs .esp) img.depth ∪ bytesFrom ((called img c g n).regs .esp) 2 ⊆
      img.area.bytes := by
  obtain ⟨room, inside⟩ := on
  rw [esp_called]
  rintro x (deep | call)
  · rw [below, mem_bytesFrom] at deep
    change img.area.limit ≤ x.toNat ∧ x.toNat < img.area.top
    bv_omega
  · rw [mem_bytesFrom] at call
    change img.area.limit ≤ x.toNat ∧ x.toNat < img.area.top
    bv_omega

theorem OnStack.frame_inside (on : OnStack img c) :
    bytesFrom (c.regs .esp - 68) 17 ⊆ img.area.bytes := by
  obtain ⟨room, inside⟩ := on
  intro x within
  rw [mem_bytesFrom] at within
  change img.area.limit ≤ x.toNat ∧ x.toNat < img.area.top
  bv_omega

theorem OnStack.esp_returned (on : OnStack img c) :
    (returned img c g n).regs .esp = c.regs .esp - 72 := by
  rw [returned, img.cdecl.returns _ (on.callable g n), esp_called]
  bv_omega

theorem OnStack.world_returned (on : OnStack img c) :
    (returned img c g n).world = effect (BitVec.ofNat 32 n) c.world := by
  have argument : (called img c g n).mem (c.regs .esp - 76 + 4) = c.regs .esp - 68 :=
    word_called img c g n (i := 1) rfl
  have int_no : (called img c g n).mem (c.regs .esp - 68 + 48) = BitVec.ofNat 32 n := by
    have held := word_called img c g n (i := 14) rfl
    have address : c.regs .esp - 76 + 4 * BitVec.ofNat 32 14 = c.regs .esp - 68 + 48 := by
      bv_omega
    rw [address] at held
    exact held
  rw [returned, img.cdecl.acts _ (on.callable g n), esp_called, argument, int_no]
  rfl

/-- The frame is still there when `do_irq` returns. -/
theorem OnStack.word_returned (on : OnStack img c) {i : Nat} {w : Word}
    (at_i : (frame c n).reverse[i]? = some w) :
    (returned img c g n).word (i + 1) = w := by
  obtain ⟨inside, -⟩ := List.getElem?_eq_some_iff.mp at_i
  have short : i < 17 := inside
  have held := word_called img c g n (i := i + 2) at_i
  have address : c.regs .esp - 72 + 4 * BitVec.ofNat 32 (i + 1) =
      c.regs .esp - 76 + 4 * BitVec.ofNat 32 (i + 2) := by
    rw [BitVec.ofNat_add, BitVec.ofNat_add]
    bv_omega
  rw [Core.word, on.esp_returned g n, address, ← held]
  have within : c.regs .esp - 76 + 4 * BitVec.ofNat 32 (i + 2) ∈
      bytesFrom (c.regs .esp - 68) 17 := by
    rw [mem_bytesFrom]
    bv_omega
  refine img.cdecl.writes _ (on.callable g n) _ ?_ ?_
  · exact fun owned => Set.disjoint_left.mp img.apart owned (on.frame_inside within)
  · obtain ⟨room, -⟩ := on
    rw [esp_called, Set.mem_union, not_or, below, mem_bytesFrom, mem_bytesFrom]
    constructor <;> bv_omega

theorem OnStack.mem_returned (on : OnStack img c) {x : Word}
    (outside : x ∉ img.own ∪ below (c.regs .esp) (19 + img.depth)) :
    (returned img c g n).mem x = c.mem x := by
  rw [Set.mem_union, not_or] at outside
  obtain ⟨free, unused⟩ := outside
  have pushed : (called img c g n).mem x = c.mem x := by
    rw [mem_called]
    refine storeAll_outside (by simp [frame]) fun inside => unused ?_
    exact bytesFrom_subset_below (k := 19) inside
  rw [← pushed]
  refine img.cdecl.writes _ (on.callable g n) x free ?_
  rw [esp_called, Set.mem_union, not_or]
  constructor
  · exact fun deep => unused (below_below (k := 19) deep)
  · intro call
    apply unused
    have inside : x ∈ bytesFrom (c.regs .esp - 4 * BitVec.ofNat 32 19) 19 :=
      bytesFrom_mono (by decide) call
    exact bytesFrom_subset_below inside

theorem OnStack.resumed (on : OnStack img c) :
    Resumed (img.own ∪ below (c.regs .esp) (19 + img.depth)) c
      (returned img c g n).unwound := by
  have narrow (w : BitVec 16) : (w.setWidth 32).setWidth 16 = w := by simp
  refine ⟨?_, ?_, ?_, on.word_returned g n (i := 16) rfl, on.word_returned g n (i := 14) rfl,
    fun x outside => on.mem_returned g n outside⟩
  · funext r
    cases r with
    | eax => exact on.word_returned g n (i := 11) rfl
    | ecx => exact on.word_returned g n (i := 10) rfl
    | edx => exact on.word_returned g n (i := 9) rfl
    | ebx => exact on.word_returned g n (i := 8) rfl
    | esp =>
        change (returned img c g n).regs .esp + 72 = c.regs .esp
        rw [on.esp_returned, BitVec.sub_add_cancel]
    | ebp => exact on.word_returned g n (i := 6) rfl
    | esi => exact on.word_returned g n (i := 5) rfl
    | edi => exact on.word_returned g n (i := 4) rfl
  · funext s
    cases s with
    | ds => exact (congrArg _ (on.word_returned g n (i := 3) rfl)).trans (narrow _)
    | es => exact (congrArg _ (on.word_returned g n (i := 2) rfl)).trans (narrow _)
    | fs => exact (congrArg _ (on.word_returned g n (i := 1) rfl)).trans (narrow _)
    | gs => exact (congrArg _ (on.word_returned g n (i := 0) rfl)).trans (narrow _)
  · exact (congrArg _ (on.word_returned g n (i := 15) rfl)).trans (narrow _)

theorem takeIrq_eq (line : n < 16) :
    img.takeIrq c n =
      (returned img c (idtInit img.toEntryPoints (BitVec.ofNat 8 (0x20 + n))) n).unwound := by
  have target := idtInit_irq img.toEntryPoints line
  generalize gate_eq : idtInit img.toEntryPoints (BitVec.ofNat 8 (0x20 + n)) = g at target ⊢
  have eip : (c.deliver g).eip = img.irq n := target
  rw [Image.takeIrq, gate_eq]
  simp only [eip, img.linked n line, irqCommon, Core.run, List.foldl_append, List.foldl_cons,
    List.foldl_nil]
  exact Core.run_irqReturn _

theorem OnStack.takeIrq_resumed (on : OnStack img c) {n : Nat} (line : n < 16) :
    Resumed (img.own ∪ below (c.regs .esp) (19 + img.depth)) c (img.takeIrq c n) := by
  rw [takeIrq_eq n line]
  exact on.resumed _ n

theorem OnStack.takeIrq_world (on : OnStack img c) {n : Nat} (line : n < 16) :
    (img.takeIrq c n).world = effect (BitVec.ofNat 32 n) c.world := by
  rw [takeIrq_eq n line]
  exact on.world_returned _ n

end Interrupt

/-! ## Kernel code with interrupts -/

theorem acknowledge_lt (p : PicPair) : p.acknowledge.1 < 16 := by
  unfold PicPair.acknowledge
  cases master : p.master.request with
  | none =>
      change 7 < 16
      decide
  | some i =>
      have small := Chip.request_lt master
      dsimp only
      split
      · cases slave : p.slave.request with
        | none =>
            change 15 < 16
            decide
        | some j =>
            have small := Chip.request_lt slave
            change 8 + j < 16
            omega
      · change i < 16
        omega

section Runs

variable {F W : Type*} (act : F → BitVec 32 → BitVec 32 → IrqState F W → IrqState F W)

/-- What `do_irq` does with `int_no`. -/
def irqEffect (int_no : Word) (s : IrqState F W) : IrqState F W := s.doIrq act int_no.toNat

variable {act} (img : Image (IrqState F W) (irqEffect act))

/-- What kernel code leaves alone: the memory of `do_irq`, and the stack below its stack pointer. -/
def Image.hidden (esp : Word) : Set Word :=
  img.own ∪ { x | img.area.limit ≤ x.toNat ∧ x.toNat < esp.toNat }

/-- The two states are the same for kernel code. -/
def SameView (c c' : Core (IrqState F W)) : Prop := Resumed (img.hidden (c.regs .esp)) c c'

/-- Code of the kernel, one instruction at a time, that stays on its stack. -/
structure KernelCode where
  step : Core (IrqState F W) → Core (IrqState F W)
  sees : ∀ c c', SameView img c c' → SameView img (step c) (step c')
  onStack : ∀ c, OnStack img c → OnStack img (step c)
  world : ∀ c, (step c).world = c.world

inductive Event (F : Type*) where
  | step
  | outside (event : IrqEvent F)

def Event.isStep : Event F → Bool
  | .step => true
  | .outside _ => false

/-- The interrupt flag. -/
def Core.interruptible (c : Core K) : Bool := c.eflags.getLsbD 9

/-- An interrupt has to wait while the interrupt flag is clear. -/
def reached (c : Core (IrqState F W)) : Event F → List (IrqEvent F)
  | .step => []
  | .outside .interrupt => if c.interruptible then [.interrupt] else []
  | .outside event => [event]

/-- The processor acknowledges an interrupt and takes it. -/
def Image.interrupt (c : Core (IrqState F W)) : Core (IrqState F W) :=
  let (irq, pics) := c.world.pics.acknowledge
  img.takeIrq { c with world := { c.world with pics := pics } } irq

def perform (p : KernelCode img) (c : Core (IrqState F W)) :
    Event F → Core (IrqState F W)
  | .step => p.step c
  | .outside .interrupt => if c.interruptible then img.interrupt c else c
  | .outside event => { c with world := irqStep act c.world event }

variable {img} {c : Core (IrqState F W)}

theorem SameView.trans {c c' c'' : Core (IrqState F W)} (first : SameView img c c')
    (second : SameView img c' c'') : SameView img c c'' := by
  rw [SameView, first.regs] at second
  exact Resumed.trans first second

theorem SameView.onStack {c' : Core (IrqState F W)} (same : SameView img c c')
    (on : OnStack img c) : OnStack img c' :=
  ⟨same.regs ▸ on.room, same.regs ▸ on.inside⟩

/-- What an interrupt writes is hidden. -/
theorem OnStack.hidden (on : OnStack img c) :
    img.own ∪ below (c.regs .esp) (19 + img.depth) ⊆ img.hidden (c.regs .esp) := by
  refine Set.union_subset_union_right _ fun x deep => ?_
  obtain ⟨room, -⟩ := on
  rw [below, mem_bytesFrom] at deep
  change img.area.limit ≤ x.toNat ∧ x.toNat < (c.regs .esp).toNat
  bv_omega

theorem OnStack.interrupt_sameView (on : OnStack img c) : SameView img c (img.interrupt c) := by
  have on' : OnStack img { c with world := { c.world with pics := c.world.pics.acknowledge.2 } } :=
    ⟨on.room, on.inside⟩
  obtain ⟨regs, segs, cs, eflags, eip, mem⟩ := on'.takeIrq_resumed (acknowledge_lt c.world.pics)
  exact ⟨regs, segs, cs, eflags, eip, fun x outside => mem x fun touched =>
    outside (on.hidden touched)⟩

theorem OnStack.interrupt_world (on : OnStack img c) :
    (img.interrupt c).world = irqStep act c.world .interrupt := by
  have line := acknowledge_lt c.world.pics
  have on' : OnStack img { c with world := { c.world with pics := c.world.pics.acknowledge.2 } } :=
    ⟨on.room, on.inside⟩
  have number :
      (BitVec.ofNat 32 c.world.pics.acknowledge.1).toNat = c.world.pics.acknowledge.1 := by
    rw [BitVec.toNat_ofNat]
    omega
  refine (on'.takeIrq_world line).trans ?_
  rw [irqEffect, number]
  rfl

/-- An event other than a step of the code: the code sees nothing of it. -/
theorem perform_outside (p : KernelCode img) (on : OnStack img c) (event : IrqEvent F) :
    SameView img c (perform img p c (.outside event)) ∧
      (perform img p c (.outside event)).world =
        (reached c (.outside event)).foldl (irqStep act) c.world := by
  cases event with
  | interrupt =>
      rw [perform, reached]
      by_cases enabled : c.interruptible
      · rw [if_pos enabled, if_pos enabled]
        exact ⟨on.interrupt_sameView, on.interrupt_world⟩
      · rw [if_neg enabled, if_neg enabled]
        exact ⟨Resumed.refl c, rfl⟩
  | _ => exact ⟨⟨rfl, rfl, rfl, rfl, rfl, fun _ _ => rfl⟩, rfl⟩

/-- The stack pointer is the one of the run without interrupts, so it stays on the stack. -/
theorem run_undisturbed (p : KernelCode img) (on : OnStack img c) (events : List (Event F)) :
    OnStack img (Runs.after (perform img p) c events) ∧
      SameView img (p.step^[events.countP Event.isStep] c)
        (Runs.after (perform img p) c events) ∧
      (Runs.after (perform img p) c events).world =
        (Runs.outputs (perform img p) reached c events).foldl (irqStep act) c.world := by
  induction events using List.reverseRecOn with
  | nil => exact ⟨on, Resumed.refl c, rfl⟩
  | append_singleton events event ih =>
      obtain ⟨on', same, world⟩ := ih
      rw [Runs.after_concat, Runs.outputs_concat, List.foldl_append, ← world, List.countP_append]
      cases event with
      | step =>
          refine ⟨p.onStack _ on', ?_, p.world _⟩
          have steps : List.countP Event.isStep [Event.step (F := F)] = 1 := rfl
          rw [steps, Function.iterate_succ_apply']
          exact p.sees _ _ same
      | outside event =>
          obtain ⟨unseen, world'⟩ := perform_outside p on' event
          have steps : List.countP Event.isStep [Event.outside event] = 0 := rfl
          rw [steps]
          exact ⟨unseen.onStack on', same.trans unseen, world'⟩

end Runs

/-! ## An image that counts -/

/-- `do_irq` for handlers that count, without any memory of its own. -/
def countingDoIrq (c : Core (IrqState Unit Nat)) : Core (IrqState Unit Nat) :=
  { c.setReg .esp (c.regs .esp + 4) with
    world := irqEffect countIrq (c.mem (c.mem (c.regs .esp + 4) + 48)) c.world }

theorem countingDoIrq_cdecl (area : StackArea) :
    Cdecl ∅ area 0 (irqEffect countIrq) countingDoIrq where
  returns c _ := by simp [countingDoIrq, Core.setReg]
  writes _ _ _ _ _ := rfl
  acts _ _ := rfl

/-- The stubs in a row. -/
def countingEntryPoints : EntryPoints := ⟨fun n => BitVec.ofNat 32 n, fun n => BitVec.ofNat 32 n, 0⟩

def countingCode (w : Word) : List (Instr (IrqState Unit Nat)) :=
  irqStub w.toNat ++ irqCommon 0 countingDoIrq

theorem countingCode_linked : ∀ n < 16,
    countingCode (countingEntryPoints.irq n) = irqStub n ++ irqCommon 0 countingDoIrq := by
  intro n small
  have number : (BitVec.ofNat 32 n).toNat = n := by
    rw [BitVec.toNat_ofNat]
    omega
  change irqStub (BitVec.ofNat 32 n).toNat ++ irqCommon 0 countingDoIrq = _
  rw [number]

def countingImage : Image (IrqState Unit Nat) (irqEffect countIrq) where
  toEntryPoints := countingEntryPoints
  code := countingCode
  ret := 0
  doIrq := countingDoIrq
  linked := countingCode_linked
  own := ∅
  area := ⟨0x1000, 0x2000⟩
  depth := 0
  apart := Set.empty_disjoint _
  cdecl := countingDoIrq_cdecl _

/-- `inc %eax`, without its flags. -/
def incEax (c : Core (IrqState Unit Nat)) : Core (IrqState Unit Nat) :=
  { c with regs := Function.update c.regs .eax (c.regs .eax + 1), eip := c.eip + 1 }

theorem incEax_sees (c c' : Core (IrqState Unit Nat)) (same : SameView countingImage c c') :
    SameView countingImage (incEax c) (incEax c') where
  regs := by simp only [incEax, same.regs]
  segs := same.segs
  cs := same.cs
  eflags := same.eflags
  eip := by simp only [incEax, same.eip]
  mem := same.mem

theorem incEax_onStack (c : Core (IrqState Unit Nat)) (on : OnStack countingImage c) :
    OnStack countingImage (incEax c) := ⟨on.room, on.inside⟩

theorem incEax_world (c : Core (IrqState Unit Nat)) : (incEax c).world = c.world := rfl

def incrementing : KernelCode countingImage := ⟨incEax, incEax_sees, incEax_onStack, incEax_world⟩

/-- A processor with interrupts on and nothing requested. -/
def countingCore : Core (IrqState Unit Nat) :=
  ⟨fun _ => 0x2000, fun _ => 0x10, 0x08, 0x200, 0, fun _ => 0,
    ⟨⟨⟨0, 0, 0, false⟩, ⟨0, 0, 0, false⟩⟩, fun _ => none, fun _ => 0, 0⟩⟩

end LughOS.X86

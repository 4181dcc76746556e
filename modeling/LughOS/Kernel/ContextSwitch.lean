import LughOS.Kernel.Lifetime
import LughOS.Library.WordStack

/-!
# Context switches

`arm_context_switch` and `x86_context_switch` as lists of instructions, `task_yield` that
calls them and `task_setup_initial_frame` that builds the frame a new task is resumed from.

A processor state has the registers that the two routines name, a memory of words with the
stacks in it, and the task table. The routines get pointers to table entries, in registers on
`arm` and on the stack on `i386`; the field `saved_sp` behind such a pointer and the variable
`current_task` are those of the table.

A frame is the list of the callee-saved registers and the return address, at ascending
addresses. `switchTo_spec` says for both architectures what a switch does in these terms: it
writes the frame of the caller and reads the frame of the next task.
-/

namespace LughOS.Kernel

open Words

inductive Reg where
  | r0 | r1 | r4 | r5 | r6 | r7 | r8 | r9 | r10 | r11 | lr
  | eax | edx | ebx | esi | edi | ebp
  deriving DecidableEq

/-- A processor with the memory and the task table; `tasksAt` is the address of `tasks[]`. -/
structure Core extends WordStack where
  regs : Reg → BitVec 32
  pc : BitVec 32
  table : TaskTable
  rrCursor : Int
  tasksAt : BitVec 32

/-! ## Instructions -/

inductive Instr where
  /-- `movl offset(%esp), r` -/
  | load (r : Reg) (offset : BitVec 32)
  /-- The first register is stored lowest. -/
  | push (rs : List Reg)
  /-- `saved_sp` of the entry that `r` points to is set to the stack pointer. -/
  | storeSp (r : Reg)
  | setCurrent (r : Reg)
  | loadSp (r : Reg)
  | pop (rs : List Reg)
  | bx (r : Reg)
  | ret

def taskPointer (arch : Arch) (tasksAt : BitVec 32) (i : Nat) : BitVec 32 :=
  tasksAt + BitVec.ofNat 32 (arch.taskSize * i)

/-- The entry that a pointer points to. -/
def entryOf (arch : Arch) (tasksAt pointer : BitVec 32) : Nat :=
  (pointer - tasksAt).toNat / arch.taskSize

def setSavedSp (t : TaskTable) (i : Nat) (sp : BitVec 32) : TaskTable :=
  { t with tasks := t.tasks.modify i fun task => { task with savedSp := sp } }

def savedSpOf (t : TaskTable) (i : Nat) : BitVec 32 := (t.tasks[i]?.map Task.savedSp).getD 0

namespace Core

def pushReg (s : Core) (r : Reg) : Core := { s with toWordStack := s.toWordStack.push (s.regs r) }

def popReg (s : Core) (r : Reg) : Core :=
  { s with regs := Function.update s.regs r (s.mem s.sp), sp := s.sp + 4 }

def exec (arch : Arch) (s : Core) : Instr → Core
  | .load r offset => { s with regs := Function.update s.regs r (s.mem (s.sp + offset)) }
  | .push rs => rs.reverse.foldl pushReg s
  | .storeSp r => { s with table := setSavedSp s.table (entryOf arch s.tasksAt (s.regs r)) s.sp }
  | .setCurrent r =>
      { s with table := { s.table with current := some (entryOf arch s.tasksAt (s.regs r)) } }
  | .loadSp r => { s with sp := savedSpOf s.table (entryOf arch s.tasksAt (s.regs r)) }
  | .pop rs => rs.foldl popReg s
  | .bx r => { s with pc := s.regs r }
  | .ret => { s with pc := s.mem s.sp, sp := s.sp + 4 }

end Core

def armContextSwitch : List Instr :=
  [.push [.r4, .r5, .r6, .r7, .r8, .r9, .r10, .r11, .lr],
    .storeSp .r0,
    .setCurrent .r1,
    .loadSp .r1,
    .pop [.r4, .r5, .r6, .r7, .r8, .r9, .r10, .r11, .lr],
    .bx .lr]

def x86ContextSwitch : List Instr :=
  [.load .eax 4, .load .edx 8,
    .push [.ebx], .push [.esi], .push [.edi], .push [.ebp],
    .storeSp .eax,
    .setCurrent .edx,
    .loadSp .edx,
    .pop [.ebp], .pop [.edi], .pop [.esi], .pop [.ebx],
    .ret]

/-- The code of the switch. -/
def switchCode : Arch → List Instr
  | .arm => armContextSwitch
  | .i386 => x86ContextSwitch

/-! ## The callers in C -/

namespace Core

/-- The caller passes its arguments. -/
def passArguments (arch : Arch) (s : Core) (prev next : Nat) : Core :=
  match arch with
  | .arm =>
      { s with
        regs := Function.update (Function.update s.regs .r0 (taskPointer arch s.tasksAt prev)) .r1
          (taskPointer arch s.tasksAt next) }
  | .i386 =>
      { s with
        toWordStack := s.toWordStack.pushAll
          [taskPointer arch s.tasksAt next, taskPointer arch s.tasksAt prev] }

/-- The call instruction: the return address is in the link register, or on the stack. -/
def call (arch : Arch) (s : Core) (ra : BitVec 32) : Core :=
  match arch with
  | .arm => { s with regs := Function.update s.regs .lr ra }
  | .i386 => { s with toWordStack := s.toWordStack.push ra }

/-- `arch_context_switch(prev, next)`, called so that it returns to `ra`. -/
def switchTo (arch : Arch) (s : Core) (prev next : Nat) (ra : BitVec 32) : Core :=
  (switchCode arch).foldl (exec arch) ((s.passArguments arch prev next).call arch ra)

/-- The words that `task_setup_initial_frame` stores, in its order. -/
def initialPushes (arch : Arch) (entry : BitVec 32) : List (BitVec 32) :=
  match arch with
  | .arm => [entry, 0, 0, 0, 0, 0, 0, 0, 0]
  | .i386 => [entry, 0, 0, 0, 0]

/-- The entry and the stack top that `task_setup_initial_frame` works on, if it does not
return at once. -/
def setupTarget (s : Core) (task : Option Nat) (entry : BitVec 32) : Option (Nat × BitVec 32) :=
  task.bind fun i => s.table.tasks[i]?.bind fun t =>
    if t.kernelStackTop = 0 ∨ entry = 0 then none else some (i, t.kernelStackTop)

/-- `task_setup_initial_frame` on an entry of the table. -/
def taskSetupInitialFrame (arch : Arch) (s : Core) (task : Option Nat) (entry : BitVec 32) :
    Core :=
  match s.setupTarget task entry with
  | none => s
  | some (i, top) =>
      let stack := WordStack.pushAll ⟨s.mem, top⟩ (initialPushes arch entry)
      { s with mem := stack.mem, table := setSavedSp s.table i stack.sp }

/-- The state after `rr_schedule`. -/
def scheduled (s : Core) : Core :=
  { s with
    table := (rrSchedule s.table s.rrCursor).2.1
    rrCursor := (rrSchedule s.table s.rrCursor).2.2 }

end Core

/-- The entry that `task_yield` switches to, given the choice of the scheduler. -/
def yieldTarget (t : TaskTable) (prev : Task) : Option (BitVec 32) → Option Nat
  | none => none
  | some nextId =>
      if nextId = prev.taskId then none
      else
        match taskPosition? t.tasks nextId with
        | none => none
        | some next => if HasFrame t.tasks nextId then some next else none

namespace Core

/-- The switch that a `task_yield` makes in this state: from where, and to where. -/
def yieldSwitch (s : Core) : Option (Nat × Nat) :=
  s.table.current.bind fun position => s.table.tasks[position]?.bind fun prev =>
    (yieldTarget s.scheduled.table prev (rrSchedule s.table s.rrCursor).1).map fun next =>
      (position, next)

def taskYield (arch : Arch) (s : Core) (ra : BitVec 32) : Core :=
  if s.table.currentTask = none then s
  else
    match s.yieldSwitch with
    | none => s.scheduled
    | some (prev, next) => s.scheduled.switchTo arch prev next ra

end Core

/-- On the table this is the `task_yield` of the other calls. -/
theorem actOn_eq_yieldTarget (t : TaskTable) (prev : Task) (sp : BitVec 32)
    (choice : Option (BitVec 32)) :
    actOn t prev sp choice =
      (yieldTarget t prev choice).elim t fun next =>
        contextSwitch t (t.current.getD 0) next sp := by
  cases choice with
  | none => rfl
  | some nextId =>
      simp only [actOn, yieldTarget]
      split
      · rfl
      cases found : taskPosition? t.tasks nextId with
      | none => rfl
      | some next =>
          dsimp only
          split <;> rfl

/-! ## Frames -/

/-- What a task goes on with. -/
structure Context where
  regs : Reg → BitVec 32
  sp : BitVec 32
  pc : BitVec 32

/-- The callee-saved registers in the order of the frame. -/
def calleeSaved : Arch → List Reg
  | .arm => [.r4, .r5, .r6, .r7, .r8, .r9, .r10, .r11]
  | .i386 => [.ebp, .edi, .esi, .ebx]

/-- The words of a frame: nine on `arm`, five on `i386`. -/
def frameWords : Arch → Nat
  | .arm => 9
  | .i386 => 5

def frame (arch : Arch) (c : Context) : List (BitVec 32) :=
  (calleeSaved arch).map c.regs ++ [c.pc]

/-- The address of the frame of a context. -/
def frameAddress (arch : Arch) (c : Context) : BitVec 32 :=
  c.sp - 4 * BitVec.ofNat 32 (frameWords arch)

@[simp] theorem length_frame (arch : Arch) (c : Context) :
    (frame arch c).length = frameWords arch := by
  cases arch <;> rfl

/-- A processor goes on with this context. -/
structure Resumes (arch : Arch) (s : Core) (c : Context) : Prop where
  regs : ∀ r ∈ calleeSaved arch, s.regs r = c.regs r
  sp : s.sp = c.sp
  pc : s.pc = c.pc

/-- The context that a call of the switch leaves. -/
def Core.contextAt (arch : Arch) (s : Core) (prev next : Nat) (ra : BitVec 32) : Context :=
  ⟨s.regs, (s.passArguments arch prev next).sp, ra⟩

/-- The context that `task_setup_initial_frame` prepares. -/
def initialContext (top entry : BitVec 32) : Context := ⟨fun _ => 0, top, entry⟩

theorem initialPushes_eq (arch : Arch) (top entry : BitVec 32) :
    (Core.initialPushes arch entry).reverse = frame arch (initialContext top entry) := by
  cases arch <;> rfl

/-! ## Pushing and popping registers -/

namespace Core

theorem foldl_pushReg (s : Core) (rs : List Reg) :
    rs.foldl pushReg s = { s with toWordStack := s.toWordStack.pushAll (rs.map s.regs) } := by
  induction rs generalizing s with
  | nil => rfl
  | cons r rs ih =>
      rw [List.foldl_cons, ih]
      rfl

theorem foldl_popReg_frame (s : Core) (rs : List Reg) :
    (rs.foldl popReg s).mem = s.mem ∧ (rs.foldl popReg s).table = s.table ∧
      (rs.foldl popReg s).tasksAt = s.tasksAt ∧ (rs.foldl popReg s).rrCursor = s.rrCursor ∧
      (rs.foldl popReg s).sp = s.sp + 4 * BitVec.ofNat 32 rs.length := by
  induction rs generalizing s with
  | nil => simp
  | cons r rs ih =>
      obtain ⟨mem, table, tasksAt, cursor, sp⟩ := ih (s.popReg r)
      refine ⟨mem, table, tasksAt, cursor, ?_⟩
      rw [List.foldl_cons, sp, popReg, List.length_cons, BitVec.ofNat_add]
      bv_omega

theorem foldl_popReg_other (s : Core) {rs : List Reg} {r : Reg} (other : r ∉ rs) :
    (rs.foldl popReg s).regs r = s.regs r := by
  induction rs generalizing s with
  | nil => rfl
  | cons first rs ih =>
      rw [List.foldl_cons, ih _ fun later => other (.tail _ later)]
      refine Function.update_of_ne ?_ _ _
      rintro rfl
      exact other (.head _)

/-- Popping reads the registers off the memory. -/
theorem foldl_popReg_regs (s : Core) {rs : List Reg} (distinct : rs.Nodup) :
    rs.map (rs.foldl popReg s).regs = readAll s.mem s.sp rs.length := by
  induction rs generalizing s with
  | nil => rfl
  | cons r rs ih =>
      obtain ⟨fresh, rest⟩ := List.nodup_cons.mp distinct
      have first : (s.popReg r).regs r = s.mem s.sp := Function.update_self ..
      rw [List.map_cons, List.foldl_cons, ih _ rest, foldl_popReg_other _ fresh, first]
      rfl

end Core

theorem entryOf_taskPointer (arch : Arch) (tasksAt : BitVec 32) {i : Nat} (inTable : i < 1024) :
    entryOf arch tasksAt (taskPointer arch tasksAt i) = i := by
  have small : arch.taskSize * i < 2 ^ 32 := by
    cases arch <;> simp only [Arch.taskSize] <;> omega
  have positive : 0 < arch.taskSize := by cases arch <;> decide
  rw [entryOf, taskPointer, BitVec.add_comm, BitVec.add_sub_cancel, BitVec.toNat_ofNat,
    Nat.mod_eq_of_lt small, Nat.mul_div_cancel_left i positive]

theorem savedSpOf_contextSwitch (t : TaskTable) {prev next : Nat} (apart : prev ≠ next)
    (sp : BitVec 32) : savedSpOf (contextSwitch t prev next sp) next = savedSpOf t next := by
  simp [savedSpOf, contextSwitch, apart]

/-! ## The two routines -/

namespace Core

/-- The middle of both routines, with pointers to the two entries in registers. -/
theorem exec_swap (arch : Arch) (s : Core) {a b : Reg} {prev next : Nat} (low : prev < 1024)
    (low' : next < 1024) (apart : prev ≠ next) (atPrev : s.regs a = taskPointer arch s.tasksAt prev)
    (atNext : s.regs b = taskPointer arch s.tasksAt next) :
    [Instr.storeSp a, .setCurrent b, .loadSp b].foldl (exec arch) s =
      { s with
        table := contextSwitch s.table prev next s.sp
        sp := savedSpOf s.table next } := by
  have saved := savedSpOf_contextSwitch s.table apart s.sp
  simp only [List.foldl_cons, List.foldl_nil, exec, atPrev, atNext, entryOf_taskPointer arch _ low,
    entryOf_taskPointer arch _ low']
  simp only [contextSwitch] at saved
  simp only [setSavedSp, saved, contextSwitch]

/-- The state of the switch when the frame of the caller is written, the stack is that of the
next task, and its frame is still on it. -/
def midway (arch : Arch) (s : Core) (prev next : Nat) (ra : BitVec 32) (regs : Reg → BitVec 32) :
    Core :=
  let c := s.contextAt arch prev next ra
  { s with
    mem := storeAll (s.passArguments arch prev next).mem (frameAddress arch c) (frame arch c)
    sp := savedSpOf s.table next
    regs := regs
    table := contextSwitch s.table prev next (frameAddress arch c) }

theorem switchTo_arm (s : Core) {prev next : Nat} (low : prev < 1024) (low' : next < 1024)
    (apart : prev ≠ next) (ra : BitVec 32) :
    ∃ regs, s.switchTo .arm prev next ra =
      ((calleeSaved .arm ++ [Reg.lr]).foldl popReg (s.midway .arm prev next ra regs)).exec .arm
        (.bx .lr) := by
  let c := s.contextAt .arm prev next ra
  let entered := (s.passArguments .arm prev next).call .arm ra
  have pushed : entered.exec .arm (.push (calleeSaved .arm ++ [Reg.lr])) = { entered with
      mem := storeAll (s.passArguments .arm prev next).mem (frameAddress .arm c) (frame .arm c)
      sp := frameAddress .arm c } := by
    simp only [exec, foldl_pushReg, WordStack.pushAll_eq, List.map_reverse, List.reverse_reverse]
    rfl
  have atPrev : entered.regs .r0 = taskPointer .arm s.tasksAt prev := by
    simp [entered, passArguments, call]
  have atNext : entered.regs .r1 = taskPointer .arm s.tasksAt next := by
    simp [entered, passArguments, call]
  refine ⟨entered.regs, ?_⟩
  have code : armContextSwitch = Instr.push (calleeSaved .arm ++ [Reg.lr]) ::
      ([Instr.storeSp .r0, Instr.setCurrent .r1, Instr.loadSp .r1] ++
        [Instr.pop (calleeSaved .arm ++ [Reg.lr]), Instr.bx .lr]) := rfl
  have mid : [Instr.storeSp .r0, .setCurrent .r1, .loadSp .r1].foldl (exec .arm)
      { entered with
        mem := storeAll (s.passArguments .arm prev next).mem (frameAddress .arm c) (frame .arm c)
        sp := frameAddress .arm c } = s.midway .arm prev next ra entered.regs :=
    exec_swap .arm _ low low' apart atPrev atNext
  rw [switchTo, switchCode, code, List.foldl_cons, List.foldl_append, pushed, mid]
  simp only [List.foldl_cons, List.foldl_nil, exec]

theorem switchTo_i386 (s : Core) {prev next : Nat} (low : prev < 1024) (low' : next < 1024)
    (apart : prev ≠ next) (ra : BitVec 32) :
    ∃ regs, s.switchTo .i386 prev next ra =
      ((calleeSaved .i386).foldl popReg (s.midway .i386 prev next ra regs)).exec .i386 .ret := by
  let c := s.contextAt .i386 prev next ra
  let passed := s.passArguments .i386 prev next
  let entered := passed.call .i386 ra
  let loaded := (entered.exec .i386 (.load .eax 4)).exec .i386 (.load .edx 8)
  have pushed : [Instr.push [.ebx], .push [.esi], .push [.edi], .push [.ebp]].foldl (exec .i386)
      loaded = { loaded with
        mem := storeAll passed.mem (frameAddress .i386 c) (frame .i386 c)
        sp := frameAddress .i386 c } := by
    -- the return address is the first of the five words
    have top : loaded.toWordStack = passed.toWordStack.push ra := rfl
    have saved : [Reg.ebx, .esi, .edi, .ebp].map loaded.regs =
        [s.regs .ebx, s.regs .esi, s.regs .edi, s.regs .ebp] := rfl
    have words : loaded.toWordStack.pushAll ([Reg.ebx, .esi, .edi, .ebp].map loaded.regs) =
        passed.toWordStack.pushAll
          [ra, s.regs .ebx, s.regs .esi, s.regs .edi, s.regs .ebp] := by
      rw [top, saved, ← WordStack.pushAll_cons]
    have all := foldl_pushReg loaded [.ebx, .esi, .edi, .ebp]
    rw [words, WordStack.pushAll_eq] at all
    exact all
  have atPrev : loaded.regs .eax = taskPointer .i386 s.tasksAt prev := by
    change entered.mem (entered.sp + 4) = _
    have apart' : s.sp - 4 - 4 ≠ s.sp - 4 - 4 - 4 := by bv_omega
    simp only [entered, passed, passArguments, call, WordStack.push, WordStack.pushAll,
      List.foldl_cons, List.foldl_nil, BitVec.sub_add_cancel]
    rw [Function.update_of_ne apart', Function.update_self]
  have atNext : loaded.regs .edx = taskPointer .i386 s.tasksAt next := by
    change entered.mem (entered.sp + 8) = _
    have second : s.sp - 4 - 4 - 4 + 8 = s.sp - 4 := by bv_omega
    have apart' : s.sp - 4 ≠ s.sp - 4 - 4 - 4 := by bv_omega
    have apart'' : s.sp - 4 ≠ s.sp - 4 - 4 := by bv_omega
    simp only [entered, passed, passArguments, call, WordStack.push, WordStack.pushAll,
      List.foldl_cons, List.foldl_nil, second]
    rw [Function.update_of_ne apart', Function.update_of_ne apart'', Function.update_self]
  refine ⟨loaded.regs, ?_⟩
  have code : x86ContextSwitch = Instr.load .eax 4 :: Instr.load .edx 8 ::
      ([Instr.push [.ebx], .push [.esi], .push [.edi], .push [.ebp]] ++
        ([Instr.storeSp .eax, .setCurrent .edx, .loadSp .edx] ++
          [Instr.pop [.ebp], .pop [.edi], .pop [.esi], .pop [.ebx], .ret])) := rfl
  have mid : [Instr.storeSp .eax, .setCurrent .edx, .loadSp .edx].foldl (exec .i386)
      { loaded with
        mem := storeAll passed.mem (frameAddress .i386 c) (frame .i386 c)
        sp := frameAddress .i386 c } = s.midway .i386 prev next ra loaded.regs :=
    exec_swap .i386 _ low low' apart atPrev atNext
  rw [switchTo, switchCode, code, List.foldl_cons, List.foldl_cons, List.foldl_append,
    List.foldl_append, pushed, mid]
  simp only [List.foldl_cons, List.foldl_nil, exec, calleeSaved]

theorem resume_arm (s : Core) :
    let s' := ((calleeSaved .arm ++ [Reg.lr]).foldl popReg s).exec .arm (.bx .lr)
    s'.mem = s.mem ∧ s'.table = s.table ∧ s'.sp = s.sp + 4 * BitVec.ofNat 32 (frameWords .arm) ∧
      (calleeSaved .arm).map s'.regs ++ [s'.pc] = readAll s.mem s.sp (frameWords .arm) := by
  have distinct : (calleeSaved .arm ++ [Reg.lr]).Nodup := by decide
  have popped := foldl_popReg_regs s distinct
  obtain ⟨mem, table, -, -, sp⟩ := foldl_popReg_frame s (calleeSaved .arm ++ [Reg.lr])
  generalize (calleeSaved .arm ++ [Reg.lr]).foldl popReg s = s' at *
  rw [List.map_append] at popped
  exact ⟨mem, table, sp, popped⟩

theorem resume_i386 (s : Core) :
    let s' := ((calleeSaved .i386).foldl popReg s).exec .i386 .ret
    s'.mem = s.mem ∧ s'.table = s.table ∧ s'.sp = s.sp + 4 * BitVec.ofNat 32 (frameWords .i386) ∧
      (calleeSaved .i386).map s'.regs ++ [s'.pc] = readAll s.mem s.sp (frameWords .i386) := by
  have distinct : (calleeSaved .i386).Nodup := by decide
  have popped := foldl_popReg_regs s distinct
  obtain ⟨mem, table, -, -, sp⟩ := foldl_popReg_frame s (calleeSaved .i386)
  generalize (calleeSaved .i386).foldl popReg s = s' at *
  refine ⟨mem, table, ?_, ?_⟩
  · simp only [exec, sp, calleeSaved, frameWords, List.length_cons, List.length_nil]
    bv_omega
  · rw [frameWords, readAll_concat, ← mem]
    simp only [exec]
    rw [popped, mem, sp]
    rfl

/-- What a switch does: it writes the frame of the caller and reads the frame at the stack
pointer of the next task. -/
theorem switchTo_spec (arch : Arch) (s : Core) {prev next : Nat} (low : prev < 1024)
    (low' : next < 1024) (apart : prev ≠ next) (ra : BitVec 32) :
    let c := s.contextAt arch prev next ra
    let s' := s.switchTo arch prev next ra
    s'.mem = storeAll (s.passArguments arch prev next).mem (frameAddress arch c) (frame arch c) ∧
      s'.table = contextSwitch s.table prev next (frameAddress arch c) ∧
      s'.sp = savedSpOf s.table next + 4 * BitVec.ofNat 32 (frameWords arch) ∧
      (calleeSaved arch).map s'.regs ++ [s'.pc] =
        readAll s'.mem (savedSpOf s.table next) (frameWords arch) := by
  cases arch with
  | arm =>
      obtain ⟨regs, eq⟩ := s.switchTo_arm low low' apart ra
      have resumed := resume_arm (s.midway .arm prev next ra regs)
      dsimp only at resumed ⊢
      rw [← eq] at resumed
      obtain ⟨mem, table, sp, words⟩ := resumed
      exact ⟨mem, table, sp, by rw [mem]; exact words⟩
  | i386 =>
      obtain ⟨regs, eq⟩ := s.switchTo_i386 low low' apart ra
      have resumed := resume_i386 (s.midway .i386 prev next ra regs)
      dsimp only at resumed ⊢
      rw [← eq] at resumed
      obtain ⟨mem, table, sp, words⟩ := resumed
      exact ⟨mem, table, sp, by rw [mem]; exact words⟩

/-- A frame at the saved stack pointer is what the switch goes on with. -/
theorem switchTo_resumes (arch : Arch) (s : Core) {prev next : Nat} (low : prev < 1024)
    (low' : next < 1024) (apart : prev ≠ next) (ra : BitVec 32) {c : Context}
    (saved : savedSpOf s.table next = frameAddress arch c)
    (stored : readAll (s.switchTo arch prev next ra).mem (frameAddress arch c) (frameWords arch) =
      frame arch c) : Resumes arch (s.switchTo arch prev next ra) c := by
  obtain ⟨-, -, sp, words⟩ := s.switchTo_spec arch low low' apart ra
  rw [saved, stored, frame] at words
  obtain ⟨callee, control⟩ := List.append_inj' words rfl
  refine ⟨List.map_inj_left.mp callee, ?_, (List.cons.inj control).1⟩
  rw [sp, saved, frameAddress, BitVec.sub_add_cancel]

end Core

end LughOS.Kernel

import LughOS.Kernel.Exporter
import LughOS.Library.NewestLog

/-!
# The transaction log

`log_transaction` of `storage.c`, call after call. Between two calls the kernel may do anything
else, so every call comes with the machine that it is made on; only the log, which is static in
`storage.c`, is what the calls before it have left. The log is a `NewestLog` of 256 slots with
counters of 32 bits, and the number of calls has no bound.
-/

namespace LughOS.Kernel

namespace TxnLog

def txnLogGetDepth (log : TxnLog) : BitVec 32 := log.head - log.tail

def txnLogGetOverflow (log : TxnLog) : BitVec 32 := log.overflow

/-- The initial values of the counters. -/
def fresh (entries : Fin 256 → TxnLogEntry) : TxnLog := ⟨entries, 0, 0, 0⟩

theorem position_lt (k : Nat) : k % 256 < 256 := Nat.mod_lt k (by decide)

/-- The entry `i` places behind the oldest one. -/
def entryAt (log : TxnLog) (i : Nat) : TxnLogEntry :=
  log.txnLog ⟨(log.tail.toNat + i) % 256, position_lt _⟩

/-- The log without its drop counter. -/
def newestLog (log : TxnLog) : NewestLog 256 32 TxnLogEntry := ⟨log.txnLog, log.head, log.tail⟩

end TxnLog

/-- A call of `log_transaction` with an entry, and the kernel it is made on. -/
structure LogCall where
  machine : Machine
  entry : TxnLogEntry

namespace LogCall

/-- The log after the call. -/
def perform (log : TxnLog) (call : LogCall) : TxnLog :=
  ({ call.machine with txnLog := log }.logTransaction (some call.entry)).2.2.txnLog

/-- The entry that is to be stored: one without an owner belongs to the current task. -/
def owned (call : LogCall) : TxnLogEntry :=
  { call.entry with
    taskId :=
      if call.entry.taskId = 0 then call.machine.kernel.currentTask.elim 0 Task.taskId
      else call.entry.taskId }

theorem stampOwner_eq (call : LogCall) :
    stampOwner call.machine.kernel.currentTask call.entry = call.owned := by
  unfold stampOwner owned
  by_cases unowned : call.entry.taskId = 0
  · rw [if_pos unowned]
    cases call.machine.kernel.currentTask with
    | none => rw [Option.elim_none, ← unowned]
    | some task => exact if_pos unowned
  · rw [if_neg unowned]
    cases call.machine.kernel.currentTask with
    | none => rfl
    | some task => exact if_neg unowned

/-- What a call does to the log. -/
theorem perform_eq (log : TxnLog) (call : LogCall) :
    perform log call = (if log.Full then log.dropOldest else log).append call.owned := by
  rw [← stampOwner_eq, perform, Machine.logTransaction]
  dsimp only
  by_cases full : log.Full
  · rw [if_pos full, if_pos full]
    rfl
  · rw [if_neg full, if_neg full]

theorem newestLog_perform (log : TxnLog) (call : LogCall) :
    (perform log call).newestLog = log.newestLog.push call.owned := by
  rw [perform_eq, NewestLog.push]
  by_cases full : log.Full
  · rw [if_pos full, if_pos (show 256 ≤ log.newestLog.depth from full)]
    rfl
  · rw [if_neg full, if_neg (show ¬256 ≤ log.newestLog.depth from full)]
    rfl

theorem overflow_perform (log : TxnLog) (call : LogCall) :
    (perform log call).overflow =
      if 256 ≤ log.newestLog.depth then log.overflow + 1 else log.overflow := by
  rw [perform_eq]
  by_cases full : log.Full
  · rw [if_pos full, if_pos (show 256 ≤ log.newestLog.depth from full)]
    rfl
  · rw [if_neg full, if_neg (show ¬256 ≤ log.newestLog.depth from full)]
    rfl

variable (entries : Fin 256 → TxnLogEntry) (calls : List LogCall)

/-- The calls push their entries, one after the other. -/
theorem newestLog_foldl (log : TxnLog) :
    (calls.foldl perform log).newestLog = (calls.map owned).foldl NewestLog.push log.newestLog := by
  induction calls generalizing log with
  | nil => rfl
  | cons call calls ih =>
      rw [List.foldl_cons, ih, newestLog_perform, List.map_cons, List.foldl_cons]

theorem contents_foldl :
    (calls.foldl perform (.fresh entries)).newestLog.contents =
      NewestLog.newest 256 (calls.map owned) := by
  have empty : (TxnLog.fresh entries).newestLog.depth = 0 := by
    simp [TxnLog.fresh, TxnLog.newestLog, NewestLog.depth]
  rw [newestLog_foldl]
  exact NewestLog.contents_foldl_push (by decide) (by decide) empty _

theorem depth_foldl :
    (calls.foldl perform (.fresh entries)).newestLog.depth = min calls.length 256 := by
  rw [← NewestLog.length_contents, contents_foldl, NewestLog.newest, List.length_drop,
    List.length_map]
  omega

theorem overflow_foldl :
    (calls.foldl perform (.fresh entries)).overflow = BitVec.ofNat 32 (calls.length - 256) := by
  induction calls using List.reverseRecOn with
  | nil => rfl
  | append_singleton calls call ih =>
      rw [List.foldl_append, List.foldl_cons, List.foldl_nil, overflow_perform, depth_foldl, ih,
        List.length_append, List.length_singleton]
      by_cases full : 256 ≤ min calls.length 256
      · rw [if_pos full, show calls.length + 1 - 256 = calls.length - 256 + 1 by omega,
          BitVec.ofNat_add]
        rfl
      · rw [if_neg full, show calls.length + 1 - 256 = calls.length - 256 by omega]

end LogCall

/-- However many calls there have been, the log counts the entries it has given up modulo
`2 ^ 32` and holds the newest 256 in the order of the calls. -/
theorem txnLog_keeps_newest (entries : Fin 256 → TxnLogEntry) (calls : List LogCall) :
    let log := calls.foldl LogCall.perform (TxnLog.fresh entries)
    log.txnLogGetDepth.toNat = min calls.length 256 ∧
      log.txnLogGetOverflow.toNat = (calls.length - 256) % 2 ^ 32 ∧
      (List.range log.txnLogGetDepth.toNat).map log.entryAt =
        (calls.map LogCall.owned).drop (calls.length - min calls.length 256) := by
  intro log
  refine ⟨LogCall.depth_foldl entries calls, ?_, ?_⟩
  · rw [TxnLog.txnLogGetOverflow, LogCall.overflow_foldl, BitVec.toNat_ofNat]
  · refine (LogCall.contents_foldl entries calls).trans ?_
    rw [NewestLog.newest, List.length_map,
      show calls.length - min calls.length 256 = calls.length - 256 by omega]

end LughOS.Kernel

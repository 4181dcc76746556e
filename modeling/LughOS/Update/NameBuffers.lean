import LughOS.Update.Names

/-!
# How the names are built

`init_update_transaction` builds the name of the checkpoint and the path of the log one character
after the other, each in a static buffer of 256 bytes and with its own bound on every loop. The
bounds of 255 are never reached: 200 characters of the path, twelve of the suffix and ten digits
leave room, so that the loops store what `checkpointName` says.

The path is read while the name is written. A path that starts in the buffer or behind it is read
before it is overwritten, and one in front of it must end there.
-/

namespace LughOS.Update

open Bytes Storage

/-! ## The loops -/

/-- `while (*src && n < 200) { buffer[n++] = *src++; }`, with the rounds left. -/
def copyPath (path buffer : Nat) : Nat → Mem → Nat → Mem × Nat
  | 0, mem, n => (mem, n)
  | rounds + 1, mem, n =>
      if mem (path + n) = 0 then (mem, n)
      else copyPath path buffer rounds (mem.write (buffer + n) [mem (path + n)]) (n + 1)

/-- The loops that append a constant or the digits of `tidbuf`. -/
def appendText (buffer : Nat) : List Byte → Mem → Nat → Mem × Nat
  | [], mem, n => (mem, n)
  | c :: text, mem, n =>
      if n < 255 then appendText buffer text (mem.write (buffer + n) [c]) (n + 1) else (mem, n)

def buildCheckpoint (mem : Mem) (path checkpoint : Nat) (id : BitVec 64) : Mem :=
  let (mem, n) := copyPath path checkpoint 200 mem 0
  let (mem, n) := appendText checkpoint suffix mem n
  let (mem, n) := appendText checkpoint (tidText id) mem n
  mem.write (checkpoint + n) [0]

def buildLogPath (mem : Mem) (logPath : Nat) (id : BitVec 64) : Mem :=
  let (mem, n) := appendText logPath logPrefix mem 0
  let (mem, n) := appendText logPath (tidText id) mem n
  let (mem, n) := if n < 252 then (mem.write (logPath + n) logSuffix, n + 4) else (mem, n)
  mem.write (logPath + n) [0]

/-- What the log path is to be. -/
def logName (id : BitVec 64) : List Byte := logPrefix ++ tidText id ++ logSuffix

section Loops

variable {mem : Mem} {path buffer n : Nat} {chars : List Byte}

/-- The text so far is at the start of the buffer, and a loop extends it. -/
theorem appendText_eq (mem : Mem) (front : List Byte) {text : List Byte}
    (fits : front.length + text.length ≤ 255) :
    appendText buffer text (mem.write buffer front) front.length =
      (mem.write buffer (front ++ text), (front ++ text).length) := by
  induction text generalizing front with
  | nil => rw [appendText, List.append_nil]
  | cons c text ih =>
      rw [List.length_cons] at fits
      have length : (front ++ [c]).length = front.length + 1 := by simp
      rw [appendText, if_pos (by omega), ← Mem.write_append, ← length, ih _ (by omega),
        List.append_assoc, List.singleton_append]

/-- The path is where it was as long as it has not been read. -/
theorem path_unread (mem : Mem) (apart : buffer ≤ path ∨ path + chars.length < buffer)
    (within : n ≤ chars.length) :
    mem.write buffer (chars.take n) (path + n) = mem (path + n) := by
  have outside : path + n + 1 ≤ buffer ∨ buffer + (chars.take n).length ≤ path + n := by
    rw [List.length_take]
    omega
  exact Mem.write_eqOn mem _ outside (path + n) le_rfl (by omega)

theorem copyPath_eq (string : mem.StringAt path chars)
    (apart : buffer ≤ path ∨ path + chars.length < buffer) (rounds : Nat)
    (within : n ≤ chars.length) :
    copyPath path buffer rounds (mem.write buffer (chars.take n)) n =
      (mem.write buffer (chars.take (n + rounds)), (chars.take (n + rounds)).length) := by
  induction rounds generalizing n with
  | zero => rw [copyPath, Nat.add_zero, List.length_take_of_le within]
  | succ rounds ih =>
      rw [copyPath, path_unread mem apart within]
      rcases within.lt_or_eq with inside | rfl
      · have taken : chars.take n ++ [mem (path + n)] = chars.take (n + 1) := by
          rw [string.char inside, List.take_append_getElem]
        have next := Mem.write_append mem buffer (chars.take n) [mem (path + n)]
        rw [taken, List.length_take_of_le within] at next
        rw [if_neg (string.char_ne_zero inside), ← next, ih (n := n + 1) inside, Nat.add_assoc,
          Nat.add_comm 1]
      · rw [if_pos string.nul, List.take_length, List.take_of_length_le (by omega)]

theorem buildCheckpoint_eq (string : mem.StringAt path chars)
    (apart : buffer ≤ path ∨ path + chars.length < buffer) (id : BitVec 64) :
    buildCheckpoint mem path buffer id =
      mem.write buffer (checkpointName (chars.take 200) id ++ [0]) := by
  have copied := copyPath_eq (n := 0) string apart 200 (Nat.zero_le _)
  rw [List.take_zero, Mem.write_nil, Nat.zero_add] at copied
  have path_le : (chars.take 200).length ≤ 200 := List.length_take_le 200 chars
  have suffixed : (chars.take 200 ++ suffix).length ≤ 212 := by
    rw [List.length_append]
    exact Nat.add_le_add_right path_le 12
  have digits := tidText_length_le id
  simp only [buildCheckpoint, copied]
  rw [appendText_eq mem _ (show _ + 12 ≤ 255 by omega)]
  dsimp only
  rw [appendText_eq mem _ (by omega)]
  dsimp only
  rw [← Mem.write_append, checkpointName]

theorem buildLogPath_eq (mem : Mem) (buffer : Nat) (id : BitVec 64) :
    buildLogPath mem buffer id = mem.write buffer (logName id ++ [0]) := by
  have digits := tidText_length_le id
  have numbered : (logPrefix ++ tidText id).length < 252 := by
    rw [List.length_append]
    exact Nat.lt_of_le_of_lt (Nat.add_le_add_left digits 23) (by decide)
  have first : appendText buffer logPrefix (mem.write buffer []) ([] : List Byte).length = _ :=
    appendText_eq mem [] (by decide)
  rw [Mem.write_nil, List.nil_append, List.length_nil] at first
  simp only [buildLogPath, first]
  rw [appendText_eq mem _ (show 23 + _ ≤ 255 by omega)]
  dsimp only
  rw [if_pos numbered]
  dsimp only
  have length : (logPrefix ++ tidText id ++ logSuffix).length =
      (logPrefix ++ tidText id).length + 4 := List.length_append
  rw [← Mem.write_append, ← length, ← Mem.write_append, logName]

end Loops

/-! ## The call -/

/-- The buffer of the log as a piece of memory. -/
def logMemory (logPath : Fin 256 → Byte) : Mem :=
  fun x => if h : x < 256 then logPath ⟨x, h⟩ else 0

theorem initUpdateTransaction_builds {u u' : Updater} {type : UpdateType} {path image size : Nat}
    {hash : BitVec 32} {st : UpdateState} {chars : List Byte}
    (string : u.mem.StringAt path chars)
    (apart : u.checkpoint ≤ path ∨ path + chars.length < u.checkpoint)
    (call : initUpdateTransaction u type path image size hash = some (st, u')) :
    u'.mem = buildCheckpoint u.mem path u.checkpoint st.transactionId ∧
      ∀ i, st.logPath i = buildLogPath (logMemory u.logPath) 0 st.transactionId i := by
  unfold initUpdateTransaction at call
  split at call
  · cases call
  · obtain ⟨⟨id, next⟩, -, result⟩ := Option.map_eq_some_iff.mp call
    obtain ⟨rfl, rfl⟩ := Prod.mk.inj result
    rw [buildCheckpoint_eq string apart]
    refine ⟨?_, fun i => ?_⟩
    · rw [← string.text_eq 200]
      rfl
    · rw [buildLogPath_eq]
      simp [putText, logMemory, logName, Mem.write]

/-! ## What the names say -/

theorem logName_inj {id id' : BitVec 64} :
    logName id = logName id' ↔ id.toNat % 2 ^ 32 = id'.toNat % 2 ^ 32 := by
  rw [logName, logName, List.append_left_inj, List.append_right_inj, tidText_inj]

theorem logName_nonzero (id : BitVec 64) : ∀ c ∈ logName id, c ≠ 0 := by
  intro c member
  rcases List.mem_append.mp member with member | member
  · rcases List.mem_append.mp member with member | member
    · have nonzero : ∀ c ∈ logPrefix, c ≠ 0 := by decide
      exact nonzero c member
    · intro zero
      have := tidText_toNat member
      simp [zero] at this
  · have nonzero : ∀ c ∈ logSuffix, c ≠ 0 := by decide
    exact nonzero c member

theorem logName_fits (id : BitVec 64) : (logName id).length < 256 := by
  have digits := tidText_length_le id
  rw [logName, List.length_append, List.length_append]
  simp only [logPrefix, logSuffix, List.length_cons, List.length_nil]
  omega

/-- A string that was built in a buffer of 256 bytes. -/
structure BuiltAt (mem mem' : Mem) (buffer : Nat) (chars : List Byte) : Prop where
  string : mem'.StringAt buffer chars
  fits : chars.length < 256
  others : ∀ x, x < buffer ∨ buffer + 256 ≤ x → mem' x = mem x

theorem BuiltAt.of_write (mem : Mem) (buffer : Nat) {chars : List Byte}
    (nonzero : ∀ c ∈ chars, c ≠ 0) (fits : chars.length < 256) :
    BuiltAt mem (mem.write buffer (chars ++ [0])) buffer chars := by
  refine ⟨.of_write mem buffer nonzero, fits, fun x outside => ?_⟩
  have apart : x + 1 ≤ buffer ∨ buffer + (chars ++ [0]).length ≤ x := by
    rw [List.length_append, List.length_singleton]
    omega
  exact Mem.write_eqOn mem _ apart x le_rfl (by omega)

/-- The texts in two buffers are the strings that were built there. -/
theorem BuiltAt.text_eq_iff {mem mem' mem₁ mem₁' : Mem} {buffer buffer' : Nat}
    {chars chars' : List Byte} (built : BuiltAt mem mem₁ buffer chars)
    (built' : BuiltAt mem' mem₁' buffer' chars') :
    mem₁.text buffer 256 = mem₁'.text buffer' 256 ↔ chars = chars' := by
  rw [built.string.text_eq, built'.string.text_eq, List.take_of_length_le built.fits.le,
    List.take_of_length_le built'.fits.le]

/-- The strings that two calls build for the checkpoint and for the log. Each is in its buffer,
and they are equal just if the calls agree in what is kept of the path and of the id. -/
theorem names_identify (mem mem' : Mem) (path path' checkpoint logPath : Nat)
    (chars chars' : List Byte) (id id' : BitVec 64)
    (string : mem.StringAt path chars) (string' : mem'.StringAt path' chars')
    (apart : checkpoint ≤ path ∨ path + chars.length < checkpoint)
    (apart' : checkpoint ≤ path' ∨ path' + chars'.length < checkpoint) :
    BuiltAt mem (buildCheckpoint mem path checkpoint id) checkpoint
        (chars.take 200 ++ suffix ++ (decimal (id.toNat % 2 ^ 32)).map digitChar) ∧
      ((buildCheckpoint mem path checkpoint id).text checkpoint 256 =
          (buildCheckpoint mem' path' checkpoint id').text checkpoint 256 ↔
        chars.take 200 = chars'.take 200 ∧ id.toNat % 2 ^ 32 = id'.toNat % 2 ^ 32) ∧
      BuiltAt mem (buildLogPath mem logPath id) logPath (logName id) ∧
      ((buildLogPath mem logPath id).text logPath 256 =
          (buildLogPath mem' logPath id').text logPath 256 ↔
        id.toNat % 2 ^ 32 = id'.toNat % 2 ^ 32) := by
  have named {mem : Mem} {path : Nat} {chars : List Byte} (string : mem.StringAt path chars)
      (apart : checkpoint ≤ path ∨ path + chars.length < checkpoint) (id : BitVec 64) :
      BuiltAt mem (buildCheckpoint mem path checkpoint id) checkpoint
        (checkpointName (chars.take 200) id) := by
    rw [buildCheckpoint_eq string apart]
    apply BuiltAt.of_write
    · exact checkpointName_nonzero fun c member => string.nonzero c (List.mem_of_mem_take member)
    · have := checkpointName_fits id (List.length_take_le 200 chars)
      omega
  have logged (mem : Mem) (id : BitVec 64) :
      BuiltAt mem (buildLogPath mem logPath id) logPath (logName id) := by
    rw [buildLogPath_eq]
    exact .of_write mem logPath (logName_nonzero id) (logName_fits id)
  refine ⟨?_, ?_, logged mem id, ?_⟩
  · rw [← tidText_eq]
    exact named string apart id
  · rw [(named string apart id).text_eq_iff (named string' apart' id'), checkpointName_inj]
  · rw [(logged mem id).text_eq_iff (logged mem' id'), logName_inj]

/-- The path `"a"`. -/
def pathMemory : Mem := fun x => if x = 0x1000 then 0x61 else 0

/-- Ids that differ by `2 ^ 32` have one name. -/
theorem names_identify_wrapped :
    (buildCheckpoint pathMemory 0x1000 0x2000 7).text 0x2000 256 =
      (buildCheckpoint pathMemory 0x1000 0x2000 0x100000007).text 0x2000 256 := by
  have string : pathMemory.StringAt 0x1000 [0x61] := ⟨by decide, by decide, by decide⟩
  have apart : 0x2000 ≤ 0x1000 ∨ 0x1000 + [(0x61 : Byte)].length < 0x2000 := by decide
  exact (names_identify pathMemory pathMemory 0x1000 0x1000 0x2000 0x3000 [0x61] [0x61] 7
    0x100000007 string string apart apart).2.1.mpr ⟨rfl, by decide⟩

end LughOS.Update

import LughOS.Kernel.Buffers
import LughOS.Kernel.Syscalls

/-!
# Messages of the kernel as messages of the transport

`lugh_message_to_nng` appends the low byte of the priority, the operation and the payload with its
NUL to a new message, `nng_message_to_lugh` takes a body apart again.

The encoding has up to 133 bytes and the block for the body has 64, so a long payload runs out of
the block. What it runs over is behind the body. The allocator takes the first free block for the
`nng_msg_t` and the next one for the body, so the `nng_msg_t` itself is in front, and the message
comes back whole; what the blocks behind it contained does not.
-/

namespace LughOS.Kernel

open Bytes

/-! ## Decoding -/

/-- What `nng_message_to_lugh` makes of the encoding of a message. -/
structure Unpacked (m out m' : Message) : Prop where
  priority : m'.priority = (m.priority.setWidth 8).setWidth 32
  operation : m'.operation = m.operation
  payload : cString m'.payload = cString m.payload
  checksum : m'.checksum = out.checksum

/-- The message at `x` has its body at `y`, behind its header, and the body is `bytes`. -/
structure Written (p : Pool) (x y : Nat) (bytes : List Byte) : Prop where
  nonnull : x ≠ 0
  behind : x + nngMsgSize ≤ y
  body : p.body x = y
  bodyLen : p.bodyLen x = bytes.length
  read : p.heap.mem.read y bytes.length = bytes

theorem Written.bodyBytes {p : Pool} {x y : Nat} {bytes : List Byte} (w : Written p x y bytes) :
    p.bodyBytes x = bytes := by
  rw [Pool.bodyBytes, w.body, w.bodyLen, w.read]

section Decode

variable {p : Pool} {x : Nat} {m : Message}

theorem encodedBytes_priority (m : Message) :
    (encodedBytes m)[0]? = some (m.priority.setWidth 8) := by
  simp [encodedBytes, wordBytes]

theorem encodedBytes_payload (m : Message) (j : Nat) :
    (encodedBytes m)[5 + j]? = (cString m.payload ++ [0])[j]? := by
  rw [encodedBytes, List.getElem?_append_right (by simp)]
  simp

theorem operation_of_bytes (bytes : p.bodyBytes x = encodedBytes m) :
    BitVec.ofNat 32 (p.heap.mem.readWord (p.body x + 1)) = m.operation := by
  have length : p.bodyLen x = 1 + 4 + ((cString m.payload).length + 1) := by
    rw [← Pool.bodyBytes_length, bytes, encodedBytes_length]
    omega
  rw [Pool.bodyBytes, length, Mem.read_append, Mem.read_append] at bytes
  have front := (List.append_inj bytes (by simp)).1
  have word := (List.append_inj front (by simp)).2
  rw [Mem.readWord, word, ofBytes_wordBytes_of_le 4 _ (by decide)]
  simp

/-- At most 127 characters are taken over, and a NUL follows them. -/
theorem nngMessageToLugh_ok (out : Message) (nonnull : x ≠ 0 ∧ p.body x ≠ 0)
    (fields : 5 ≤ p.bodyLen x) :
    nngMessageToLugh p x out =
      (.ok,
        { out with
          priority := (p.heap.mem (p.body x)).setWidth 32
          operation := BitVec.ofNat 32 (p.heap.mem.readWord (p.body x + 1))
          payload := fun j =>
            if j.val < min (p.bodyLen x - 5) 127 then p.heap.mem (p.body x + 5 + j)
            else if j.val = min (p.bodyLen x - 5) 127 then 0
            else out.payload j }) := by
  have plen : (if maxMsgSize ≤ p.bodyLen x - 5 then maxMsgSize - 1 else p.bodyLen x - 5) =
      min (p.bodyLen x - 5) 127 := by
    rw [maxMsgSize]
    split <;> omega
  rw [nngMessageToLugh, if_neg (by omega)]
  simp only [plen]

theorem nngMessageToLugh_refused (out : Message)
    (bad : x = 0 ∨ p.body x = 0 ∨ p.bodyLen x < 5) :
    nngMessageToLugh p x out = (.einval, out) :=
  if_pos bad

/-- With 127 characters the decoder drops the NUL of the encoding and writes its own. -/
theorem unpacked_of_bytes (nonnull : x ≠ 0 ∧ p.body x ≠ 0)
    (bytes : p.bodyBytes x = encodedBytes m) (terminated : (cString m.payload).length < 128)
    (out : Message) : ∃ m', nngMessageToLugh p x out = (.ok, m') ∧ Unpacked m out m' := by
  have length : p.bodyLen x = (cString m.payload).length + 6 := by
    rw [← Pool.bodyBytes_length, bytes, encodedBytes_length]
  have byte {k : Nat} {b : Byte} (at_k : (encodedBytes m)[k]? = some b) :
      p.heap.mem (p.body x + k) = b := by
    rw [← bytes] at at_k
    obtain ⟨bound, rfl⟩ := List.getElem?_eq_some_iff.mp at_k
    exact (Mem.read_getElem k bound).symm
  have character {j : Nat} {b : Byte} (at_j : (cString m.payload ++ [0])[j]? = some b) :
      p.heap.mem (p.body x + 5 + j) = b := by
    rw [Nat.add_assoc]
    exact byte ((encodedBytes_payload m j).trans at_j)
  rw [nngMessageToLugh_ok out nonnull (by omega), length]
  refine ⟨_, rfl, ?_, operation_of_bytes bytes, ?_, rfl⟩
  · exact congrArg (BitVec.setWidth 32) (byte (encodedBytes_priority m))
  · refine cString_eq terminated (fun b member => cString_ne_zero member) (fun j low => ?_) ?_
    · dsimp only
      rw [if_pos (by omega)]
      apply character
      rw [List.getElem?_append_left low, List.getElem?_eq_getElem low]
    · dsimp only
      split
      · exact character (by simp)
      · rw [if_pos (by omega)]

/-- A decoded payload is a string, whatever was decoded. -/
theorem nngMessageToLugh_cases (p : Pool) (x : Nat) (out : Message) :
    ((x = 0 ∨ p.body x = 0 ∨ p.bodyLen x < 5) ∧ nngMessageToLugh p x out = (.einval, out)) ∨
      (x ≠ 0 ∧ p.body x ≠ 0 ∧ 5 ≤ p.bodyLen x) ∧ ∃ m', nngMessageToLugh p x out = (.ok, m') ∧
        ∃ i : Fin 128, m'.payload i = 0 ∧ (cString m'.payload).length = i := by
  by_cases bad : x = 0 ∨ p.body x = 0 ∨ p.bodyLen x < 5
  · exact .inl ⟨bad, nngMessageToLugh_refused out bad⟩
  · have last : min (p.bodyLen x - 5) 127 < 128 := by omega
    obtain ⟨m', decoded, nul⟩ : ∃ m', nngMessageToLugh p x out = (.ok, m') ∧
        m'.payload ⟨min (p.bodyLen x - 5) 127, last⟩ = 0 :=
      ⟨_, nngMessageToLugh_ok out (by omega) (by omega), by simp⟩
    have short := cString_length_le_of_nul nul
    exact .inr ⟨by omega, m', decoded, ⟨_, by omega⟩, cString_nul (by omega), rfl⟩

end Decode

/-! ## Encoding -/

/-- No byte of the range is in a free block of the heap. -/
def Heap.OutsideFree (h : Heap) (a n : Nat) : Prop :=
  ∀ b : Block, ¬h.Used b → a + n ≤ b.address ∨ b.address + b.size ≤ a

section Encode

variable {p p' : Pool} {x y : Nat}

/-- The second of two allocations of small blocks gets a block behind the first one. -/
theorem first?_after {h : Heap} {i j : BlockIndex}
    (first : Table.first? (fun i => !(h.blocks 0 i).inUse) = some i)
    (second : Table.first? (fun j => !((h.setInUse 0 i true).blocks 0 j).inUse) = some j) :
    i < j ∧ ¬h.Used (0, i) ∧ ¬h.Used (0, j) := by
  have free := Table.first?_holds second
  have other : j ≠ i := by
    rintro rfl
    simp at free
  rw [Heap.setInUse_other true (fun same => other same.2)] at free
  refine ⟨lt_of_le_of_ne (not_lt.mp fun before => ?_) other.symm, ?_, ?_⟩
  · have used := Table.first?_least first before
    rw [used] at free
    cases free
  · simpa [Heap.Used] using Table.first?_holds first
  · simpa [Heap.Used] using free

/-- The new message is in the first free block, and its empty body in the next one. -/
theorem nngMsgAlloc_written (laid : p.heap.LaidOut) (ok : nngMsgAlloc p 0 = (.ok x, p')) :
    ∃ y, Written p' x y [] ∧ p'.heap.regions = p.heap.regions ∧
      ∀ {a n}, p.heap.OutsideFree a n →
        Mem.EqOn p'.heap.mem p.heap.mem a n ∧ (a + n ≤ x ∨ x + 64 ≤ a) ∧
          (a + n ≤ y ∨ y + 64 ≤ a) := by
  rw [nngMsgAlloc] at ok
  split at ok
  · cases ok
  rw [if_neg (by decide), allocMemory_small laid (by decide) (by decide)] at ok
  cases first : Table.first? fun i => !(p.heap.blocks 0 i).inUse with
  | none =>
      rw [first] at ok
      cases ok
  | some i =>
      rw [first] at ok
      dsimp only at ok
      rw [allocMemory_small ((laid.setInUse true).memset _ 0 64) (by decide) (by decide)] at ok
      simp only [Heap.memset_blocks] at ok
      cases second : Table.first? fun j => !((p.heap.setInUse 0 i true).blocks 0 j).inUse with
      | none =>
          rw [second] at ok
          cases ok
      | some j =>
          rw [second] at ok
          cases ok
          obtain ⟨order, freeI, freeJ⟩ := first?_after first second
          have inside := blockAddress_inside 0 j
          have before : blockAddress 0 i + 64 ≤ blockAddress 0 j := by
            have := Fin.lt_def.mp order
            simp only [blockAddress]
            omega
          refine ⟨blockAddress 0 j, ⟨?_, ?_, ?_, ?_, rfl⟩, ?_, fun outside => ?_⟩
          · exact Block.address_ne_zero (0, i)
          · simp only [nngMsgSize]
            omega
          · exact initNngMsg_body _ _ (by simp only [heapEnd] at inside; omega)
          · exact initNngMsg_bodyLen _ _ _
          · simp
          · have apartI := outside (0, i) freeI
            have apartJ := outside (0, j) freeJ
            simp only [Block.address, Block.size, blockSizes] at apartI apartJ
            refine ⟨?_, apartI, apartJ⟩
            refine (initNngMsg_eqOn _ _ _ (by omega)).trans ?_
            exact (Heap.memset_eqOn _ _ _ _ apartJ).trans (Heap.memset_eqOn _ _ _ _ apartI)

/-- An append that succeeds puts its bytes behind the body and writes to the header, and to
nothing else. -/
theorem Written.append {old bytes : List Byte} (data : Data) (w : Written p x y old)
    (size : data.size = bytes.length) (small : old.length + bytes.length < 2 ^ 32)
    (copied : (data.copyTo p.heap.mem (y + old.length)).read (y + old.length) bytes.length = bytes)
    (ok : nngMsgAppend p x data = (.ok, p')) :
    Written p' x y (old ++ bytes) ∧ p'.heap.regions = p.heap.regions ∧
      ∀ {a n}, a + n ≤ x ∨ x + nngMsgSize ≤ a →
        a + n ≤ y + old.length ∨ y + old.length + bytes.length ≤ a →
        Mem.EqOn p'.heap.mem p.heap.mem a n := by
  have behind := w.behind
  simp only [nngMsgSize] at behind ⊢
  obtain ⟨rv, failed, refused⟩ | ⟨checksum, written⟩ :=
    nngMsgAppend_writes data w.nonnull w.body w.bodyLen (by omega)
  · rw [refused] at ok
    exact absurd (congrArg Prod.fst ok) failed
  obtain rfl : _ = p' := congrArg Prod.snd (written.symm.trans ok)
  rw [size]
  have frame {a n : Nat} (header : a + n ≤ x + 4 ∨ x + 24 ≤ a)
      (body : a + n ≤ y + old.length ∨ y + old.length + bytes.length ≤ a) :
      Mem.EqOn (((data.copyTo p.heap.mem (y + old.length)).writeWord (x + 4)
        (old.length + bytes.length)).writeWord (x + 20) checksum) p.heap.mem a n := by
    refine (Mem.writeWord_eqOn _ _ (by omega)).trans ?_
    refine (Mem.writeWord_eqOn _ _ (by omega)).trans ?_
    exact data.copyTo_eqOn _ (by omega)
  refine ⟨⟨w.nonnull, w.behind, ?_, ?_, ?_⟩, rfl, fun header body => ?_⟩
  · exact (frame (by omega) (by omega)).readWord_eq.trans w.body
  · rw [List.length_append]
    refine (Mem.writeWord_eqOn _ _ (by omega)).readWord_eq.trans ?_
    exact Mem.readWord_writeWord _ _ _ small
  · have front := (frame (a := y) (n := old.length) (by omega) (by omega)).read_eq.trans w.read
    have back : Mem.EqOn (((data.copyTo p.heap.mem (y + old.length)).writeWord (x + 4)
        (old.length + bytes.length)).writeWord (x + 20) checksum)
        (data.copyTo p.heap.mem (y + old.length)) (y + old.length) bytes.length :=
      (Mem.writeWord_eqOn _ _ (by omega)).trans (Mem.writeWord_eqOn _ _ (by omega))
    rw [List.length_append, Mem.read_append]
    exact congrArg₂ (· ++ ·) front (back.read_eq.trans copied)
  · exact frame (by omega) body

theorem appendAll_cons {d : Data} {rest : List Data}
    (ok : appendAll p x (d :: rest) = (.ok, p')) :
    ∃ p₁, nngMsgAppend p x d = (.ok, p₁) ∧ appendAll p₁ x rest = (.ok, p') := by
  rw [appendAll] at ok
  split at ok
  · rename_i p₁ first
    exact ⟨p₁, first, ok⟩
  · rename_i failed first
    cases ok
    exact (failed rfl).elim

/-- Objects outside the heap are appended as they are. -/
theorem Written.appendAll {old : List Byte} (w : Written p x y old) (parts : List (List Byte))
    {rest : List Data} (small : old.length + parts.flatten.length < 2 ^ 32)
    (ok : appendAll p x (parts.map Data.object ++ rest) = (.ok, p')) :
    ∃ p₁, Kernel.appendAll p₁ x rest = (.ok, p') ∧ Written p₁ x y (old ++ parts.flatten) ∧
      p₁.heap.regions = p.heap.regions ∧
      ∀ {a n}, a + n ≤ x ∨ x + nngMsgSize ≤ a →
        a + n ≤ y ∨ y + old.length + parts.flatten.length ≤ a →
        Mem.EqOn p₁.heap.mem p.heap.mem a n := by
  induction parts generalizing p old with
  | nil => exact ⟨p, ok, by simpa using w, rfl, fun _ _ => .refl⟩
  | cons part parts ih =>
      rw [List.flatten_cons, List.length_append] at small ⊢
      obtain ⟨p₁, first, later⟩ := appendAll_cons ok
      obtain ⟨w₁, regions₁, frame₁⟩ := w.append (.object part) rfl (by omega)
        (Mem.read_write _ _ part) first
      obtain ⟨p₂, last, w₂, regions₂, frame₂⟩ := ih w₁ (by rw [List.length_append]; omega) later
      refine ⟨p₂, last, by simpa using w₂, regions₂.trans regions₁, fun header body => ?_⟩
      rw [List.length_append] at frame₂
      exact (frame₂ header (by omega)).trans (frame₁ header (by omega))

/-- The conversion of a message outside the heap. -/
theorem lughMessageToNng_written {m : Message} (laid : p.heap.LaidOut)
    (terminated : NulTerminated m) (ok : lughMessageToNng p m = (.ok x, p')) :
    ∃ y, Written p' x y (encodedBytes m) := by
  have short : (cString m.payload).length ≤ 127 := terminated
  rw [lughMessageToNng] at ok
  split at ok
  · cases ok
  rename_i x₁ p₁ alloc
  split at ok
  · rename_i p₂ appended
    cases ok
    obtain ⟨y, w, -, -⟩ := nngMsgAlloc_written laid alloc
    have fields : encodedFields m = [wordBytes 1 (m.priority.setWidth 8), wordBytes 4 m.operation,
        cString m.payload ++ [0]].map Data.object ++ [] := rfl
    rw [fields] at appended
    obtain ⟨p₃, done, w', -, -⟩ := w.appendAll _ (by simp; omega) appended
    cases done
    exact ⟨y, by simpa [encodedBytes] using w'⟩
  · cases ok

theorem payload_read_nul {mem : Mem} {a : Nat} (terminated : NulTerminated (messageAt mem a)) :
    mem.read (a + 16) ((cString (messageAt mem a).payload).length + 1) =
      cString (messageAt mem a).payload ++ [0] := by
  have nul := payload_nul (Nat.lt_succ_of_le terminated)
  rw [Mem.read_append, payload_read]
  simp [Mem.read, nul]

/-- The conversion of a message in memory. The payload is copied upwards, so it arrives whole even
if its end is overwritten by its front. -/
theorem lughMessageToNngAt_written {address : Nat} {touched : List Span} (laid : p.heap.LaidOut)
    (outside : p.heap.OutsideFree address 144)
    (terminated : NulTerminated (messageAt p.heap.mem address))
    (ok : lughMessageToNngAt p address = (.ok x, touched, p')) :
    ∃ y, Written p' x y (encodedBytes (messageAt p.heap.mem address)) := by
  rw [lughMessageToNngAt] at ok
  split at ok
  · cases ok
  rename_i x₁ p₁ alloc
  dsimp only at ok
  split at ok
  · rename_i p₂ appended
    cases ok
    obtain ⟨y, w, regions, kept⟩ := nngMsgAlloc_written laid alloc
    obtain ⟨same, apartX, apartY⟩ := kept outside
    have message₁ : messageAt p₁.heap.mem address = messageAt p.heap.mem address :=
      messageAt_eqOn same
    rw [← message₁] at terminated ⊢
    have short : (cString (messageAt p₁.heap.mem address).payload).length ≤ 127 := terminated
    obtain ⟨p₃, last, w₃, regions₃, frame₃⟩ := w.appendAll
      [wordBytes 1 ((wordAt p₁.heap.mem address).setWidth 8),
        wordBytes 4 (wordAt p₁.heap.mem (address + 4))] (by simp) appended
    obtain ⟨p₄, third, done⟩ := appendAll_cons last
    cases done
    have same₃ : Mem.EqOn p₃.heap.mem p₁.heap.mem address 144 :=
      frame₃ (by simp only [nngMsgSize]; omega) (by simp; omega)
    have message₃ := messageAt_eqOn same₃
    -- the gate has seen the byte behind the string, so `strlen` did not stop at it
    have readable := nngMsgAppend_readable third
    simp only [Data.readable, Bool.and_eq_true, regions₃] at readable
    have plen := strlen_of_accepted (payload_character p₁.heap.mem address)
      (payload_nul (by omega)) (by omega) (Nat.lt_succ_self _) readable.2
    rw [plen] at third
    have payload := payload_read_nul (message₃.symm ▸ terminated)
    rw [message₃] at payload
    have copied : ((Data.range (address + 16)
        ((cString (messageAt p₁.heap.mem address).payload).length + 1)).copyTo p₃.heap.mem
          (y + 5)).read (y + 5) (cString (messageAt p₁.heap.mem address).payload ++ [0]).length =
        cString (messageAt p₁.heap.mem address).payload ++ [0] := by
      rw [List.length_append, List.length_singleton, Data.copyTo, Mem.read_copy _ _ _ (by omega),
        payload]
    obtain ⟨w₄, -, -⟩ := w₃.append _ (by simp [Data.size]) (by simp; omega) copied third
    exact ⟨y, by simpa [encodedBytes, messageAt] using w₄⟩
  · cases ok

end Encode

/-! ## The round trip -/

/-- The decoder returns the message, with the low byte of its priority. -/
def Returns (p : Pool) (x : Nat) (m out : Message) : Prop :=
  ∃ m', nngMessageToLugh p x out = (.ok, m') ∧ m'.priority.toNat = m.priority.toNat % 256 ∧
    m'.operation = m.operation ∧ cString m'.payload = cString m.payload

theorem Written.returns {p : Pool} {x y : Nat} {m : Message} (w : Written p x y (encodedBytes m))
    (terminated : NulTerminated m) (out : Message) : Returns p x m out := by
  have nonnull : x ≠ 0 ∧ p.body x ≠ 0 := by
    have behind := w.behind
    rw [w.body]
    simp only [nngMsgSize] at behind
    exact ⟨w.nonnull, by omega⟩
  obtain ⟨m', decoded, unpacked⟩ :=
    unpacked_of_bytes nonnull w.bodyBytes (Nat.lt_succ_of_le terminated) out
  refine ⟨m', decoded, ?_, unpacked.operation, unpacked.payload⟩
  have low : m.priority.toNat % 256 < 2 ^ 32 := by omega
  rw [unpacked.priority, BitVec.toNat_setWidth, BitVec.toNat_setWidth]
  exact Nat.mod_eq_of_lt low

/-- A converted message comes back with its low priority byte, its operation and its string, be it
in memory or handed over by value. Decoding fails on fewer than five bytes and changes nothing
then, and otherwise leaves a payload with a NUL. -/
theorem conversion_roundTrip :
    (∀ (p p' : Pool) (address x : Nat) (touched : List Span) (out : Message),
      p.heap.LaidOut → p.heap.OutsideFree address messageSize →
      NulTerminated (messageAt p.heap.mem address) →
      lughMessageToNngAt p address = (.ok x, touched, p') →
      Returns p' x (messageAt p.heap.mem address) out) ∧
    (∀ (p p' : Pool) (m : Message) (x : Nat) (out : Message),
      p.heap.LaidOut → NulTerminated m → lughMessageToNng p m = (.ok x, p') →
      Returns p' x m out) ∧
    ∀ (p : Pool) (x : Nat) (out : Message), x ≠ 0 → p.body x ≠ 0 →
      (p.bodyLen x < 5 ∧ nngMessageToLugh p x out = (.einval, out)) ∨
        5 ≤ p.bodyLen x ∧ ∃ m', nngMessageToLugh p x out = (.ok, m') ∧
          ∃ i : Fin 128, m'.payload i = 0 ∧ (cString m'.payload).length = i := by
  refine ⟨?_, ?_, ?_⟩
  · intro p p' address x touched out laid outside terminated ok
    obtain ⟨y, w⟩ := lughMessageToNngAt_written laid outside terminated ok
    exact w.returns terminated out
  · intro p p' m x out laid terminated ok
    obtain ⟨y, w⟩ := lughMessageToNng_written laid terminated ok
    exact w.returns terminated out
  · intro p x out message body
    obtain ⟨bad, refused⟩ | ⟨good, decoded⟩ := nngMessageToLugh_cases p x out
    · exact .inl ⟨by omega, refused⟩
    · exact .inr ⟨good.2.2, decoded⟩

/-- A message of 127 characters at `0x1000`. -/
def longPayload : Pool :=
  { heap := ⟨fun x => if 0x1010 ≤ x ∧ x < 0x108F then 0x41 else 0, memoryInit, []⟩
    msgSlots := fun _ => ⟨0, 0, false⟩ }

theorem conversion_roundTrip_long :
    ∃ x touched p', lughMessageToNngAt longPayload 0x1000 = (.ok x, touched, p') ∧
      Returns p' x (messageAt longPayload.heap.mem 0x1000) ⟨0, 0, 0, 0, fun _ => 0⟩ := by
  have converts : (lughMessageToNngAt longPayload 0x1000).1 = .ok heapStart := by decide +kernel
  generalize ok : lughMessageToNngAt longPayload 0x1000 = result at converts
  obtain ⟨x, touched, p'⟩ := result
  have outside : longPayload.heap.OutsideFree 0x1000 messageSize := by
    intro b _
    exact .inl (Nat.le_trans (by decide) b.inside.1)
  refine ⟨heapStart, touched, p', by rw [← converts], conversion_roundTrip.1 _ _ _ _ touched _
    (memoryInit_laidOut _ _) outside (by decide +kernel) (by rw [ok, ← converts])⟩

end LughOS.Kernel

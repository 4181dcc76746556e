import LughOS.Kernel.MemoryGate

/-!
# Encryption

`crypto_encrypt` and `crypto_decrypt` of `crypto.c`, with the generator that fills the header. Both
functions run one loop: a byte is combined with a byte of the key and one of the header, and the
header stands in front of the encrypted bytes in either direction. Where the loop overwrites none
of the bytes it reads, the second run undoes the first (`cryptLoop_inside`, `masked_twice`).

The preconditions do not match: `crypto_encrypt` accepts an empty plaintext, and `crypto_decrypt`
refuses the bare header it makes of it.
-/

open Bytes

namespace LughOS.Kernel

/-! ## The generator -/

/-- The loop of `security_generate_random`: the bytes it stores and the seed it leaves. -/
def randomBytes (next : BitVec 32) : Nat → List Byte × BitVec 32
  | 0 => ([], next)
  | n + 1 =>
      let next := next * 1103515245#32 + 12345#32
      let (bytes, last) := randomBytes next n
      (((next >>> 16) &&& 0xFF#32).setWidth 8 :: bytes, last)

theorem randomBytes_length (next : BitVec 32) (n : Nat) : (randomBytes next n).1.length = n := by
  induction n generalizing next with
  | zero => rfl
  | succ n ih => exact congrArg (· + 1) (ih _)

/-- The memory, `system_key`, the seed of the generator and the table of the gate. -/
structure CryptoState where
  mem : Mem
  systemKey : Fin 32 → Byte
  next : BitVec 32
  regions : List MemRegion

namespace CryptoState

def securityGenerateRandom (s : CryptoState) (buffer size : Nat) : Bool × CryptoState :=
  if buffer = 0 ∨ size = 0 then (false, s)
  else
    let (bytes, next) := randomBytes s.next size
    (true, { s with mem := s.mem.write buffer bytes, next := next })

theorem securityGenerateRandom_eqOn (s : CryptoState) {buffer size a n : Nat}
    (apart : a + n ≤ buffer ∨ buffer + size ≤ a) :
    (s.securityGenerateRandom buffer size).2.mem.EqOn s.mem a n := by
  unfold securityGenerateRandom
  split
  · exact Mem.EqOn.refl
  · exact Mem.write_eqOn _ _ (by rw [randomBytes_length]; exact apart)

theorem securityGenerateRandom_rest (s : CryptoState) (buffer size : Nat) :
    let s' := (s.securityGenerateRandom buffer size).2
    s'.systemKey = s.systemKey ∧ s'.regions = s.regions := by
  unfold securityGenerateRandom
  split <;> exact ⟨rfl, rfl⟩

end CryptoState

/-! ## The loop -/

theorem keyIndex_lt (i : Nat) : i % 32 < 32 := Nat.mod_lt i (by decide)

/-- A byte combined with those of the key and of the header for its position. -/
def masked (key : Fin 32 → Byte) (header : Nat → Byte) (i : Nat) (byte : Byte) : Byte :=
  byte ^^^ key ⟨i % 32, keyIndex_lt i⟩ ^^^ header (i % 16)

/-- `for (i = 0; i < n; i++) d[i] = s[i] ^ system_key[i % 32] ^ h[i % 16]`, the loop of both
functions, on one memory. -/
def cryptLoop (m : Mem) (key : Fin 32 → Byte) (dst src header : Nat) : Nat → Mem
  | 0 => m
  | n + 1 =>
      let m := cryptLoop m key dst src header n
      fun x => if x = dst + n then masked key (fun j => m (header + j)) n (m (src + n)) else m x

theorem masked_twice (key : Fin 32 → Byte) (header : Nat → Byte) (i : Nat) (byte : Byte) :
    masked key header i (masked key header i byte) = byte := by
  unfold masked
  generalize key ⟨i % 32, keyIndex_lt i⟩ = k
  generalize header (i % 16) = h
  calc byte ^^^ k ^^^ h ^^^ k ^^^ h = byte ^^^ k ^^^ (k ^^^ h) ^^^ h := by
        rw [BitVec.xor_assoc (byte ^^^ k) h k, BitVec.xor_comm h k]
    _ = byte ^^^ (k ^^^ k) ^^^ (h ^^^ h) := by simp only [BitVec.xor_assoc]
    _ = byte := by simp only [BitVec.xor_self, BitVec.xor_zero]

theorem masked_congr {key : Fin 32 → Byte} {header header' : Nat → Byte} {i : Nat} {byte : Byte}
    (same : ∀ j < 16, header j = header' j) :
    masked key header i byte = masked key header' i byte := by
  rw [masked, masked, same (i % 16) (Nat.mod_lt i (by decide))]

section Loop

variable {m : Mem} {key : Fin 32 → Byte} {dst src header n : Nat}

theorem cryptLoop_eqOn {a k : Nat} (apart : a + k ≤ dst ∨ dst + n ≤ a) :
    (cryptLoop m key dst src header n).EqOn m a k := by
  induction n with
  | zero => exact Mem.EqOn.refl
  | succ n ih =>
      intro x low high
      have other : x ≠ dst + n := by omega
      simp only [cryptLoop, other, if_false]
      exact ih (by omega) x low high

/-- A loop that overwrites neither its source nor the header stores what it would read at the
start. -/
theorem cryptLoop_inside (source : src + n ≤ dst ∨ dst + n ≤ src)
    (front : header + 16 ≤ dst ∨ dst + n ≤ header) {i : Nat} (inside : i < n) :
    cryptLoop m key dst src header n (dst + i) =
      masked key (fun j => m (header + j)) i (m (src + i)) := by
  induction n with
  | zero => omega
  | succ n ih =>
      rw [cryptLoop]
      rcases Nat.lt_succ_iff_lt_or_eq.mp inside with earlier | rfl
      · have other : dst + i ≠ dst + n := by omega
        simp only [other, if_false]
        exact ih (by omega) (by omega) earlier
      · have read : cryptLoop m key dst src header i (src + i) = m (src + i) :=
          cryptLoop_eqOn (k := 1) (by omega) _ le_rfl (by omega)
        have start : cryptLoop m key dst src header i (header + i % 16) = m (header + i % 16) :=
          cryptLoop_eqOn (k := 1) (by omega) _ le_rfl (by omega)
        simp only [if_true, masked, read, start]

/-! Both functions report the length behind the loop. -/

theorem cryptLoop_reported_eqOn {a k cell : Nat} (length : Nat)
    (apart : a + k ≤ dst ∨ dst + n ≤ a) (report : a + k ≤ cell ∨ cell + 4 ≤ a) :
    ((cryptLoop m key dst src header n).writeWord cell length).EqOn m a k :=
  (Mem.writeWord_eqOn _ length report).trans (cryptLoop_eqOn apart)

theorem cryptLoop_reported_inside (source : src + n ≤ dst ∨ dst + n ≤ src)
    (front : header + 16 ≤ dst ∨ dst + n ≤ header) {cell : Nat} (length : Nat)
    (report : dst + n ≤ cell ∨ cell + 4 ≤ dst) {i : Nat} (inside : i < n) :
    (cryptLoop m key dst src header n).writeWord cell length (dst + i) =
      masked key (fun j => m (header + j)) i (m (src + i)) := by
  have kept := Mem.writeWord_eqOn (cryptLoop m key dst src header n) length report
  rw [kept (dst + i) (by omega) (by omega), cryptLoop_inside source front inside]

end Loop

/-! ## The two functions -/

namespace CryptoState

/-- `crypto_encrypt`. The sum of a length and the header's is one of 32-bit words. -/
def cryptoEncrypt (s : CryptoState) (data dataLen output outputLen actualLen : Nat) :
    Bool × CryptoState :=
  if data = 0 ∨ output = 0 ∨ outputLen < (dataLen + 16) % 2 ^ 32 then (false, s)
  else if !securityValidateMemoryAccess s.regions data dataLen false ||
      !securityValidateMemoryAccess s.regions output outputLen true then (false, s)
  else
    let s := (s.securityGenerateRandom output 16).2
    let mem := cryptLoop s.mem s.systemKey (output + 16) data output dataLen
    (true, { s with mem := mem.writeWord actualLen ((dataLen + 16) % 2 ^ 32) })

/-- `crypto_decrypt`. -/
def cryptoDecrypt (s : CryptoState) (data dataLen output outputLen actualLen : Nat) :
    Bool × CryptoState :=
  if data = 0 ∨ output = 0 ∨ dataLen ≤ 16 ∨ outputLen < dataLen - 16 then (false, s)
  else if !securityValidateMemoryAccess s.regions data dataLen false ||
      !securityValidateMemoryAccess s.regions output outputLen true then (false, s)
  else
    let mem := cryptLoop s.mem s.systemKey output (data + 16) data (dataLen - 16)
    (true, { s with mem := mem.writeWord actualLen (dataLen - 16) })

section Accepted

variable {s : CryptoState} {data output : Nat} {dataLen outputLen : Nat}

theorem cryptoEncrypt_accepts (data_ne : data ≠ 0) (output_ne : output ≠ 0)
    (room : dataLen + 16 ≤ outputLen) (word : outputLen < 2 ^ 32)
    (read : securityValidateMemoryAccess s.regions data dataLen false = true)
    (write : securityValidateMemoryAccess s.regions output outputLen true = true)
    (actualLen : Nat) :
    s.cryptoEncrypt data dataLen output outputLen actualLen =
      (true, { (s.securityGenerateRandom output 16).2 with
        mem := (cryptLoop (s.securityGenerateRandom output 16).2.mem s.systemKey (output + 16) data
          output dataLen).writeWord actualLen (dataLen + 16) }) := by
  have sum : (dataLen + 16) % 2 ^ 32 = dataLen + 16 := Nat.mod_eq_of_lt (by omega)
  obtain ⟨key, -⟩ := s.securityGenerateRandom_rest output 16
  rw [cryptoEncrypt, sum, if_neg, if_neg]
  · simp only [key]
  · simp [read, write]
  · simp only [data_ne, output_ne, false_or]
    omega

theorem cryptoDecrypt_accepts (data_ne : data ≠ 0) (output_ne : output ≠ 0) (some : 0 < dataLen)
    (room : dataLen ≤ outputLen)
    (read : securityValidateMemoryAccess s.regions data (dataLen + 16) false = true)
    (write : securityValidateMemoryAccess s.regions output outputLen true = true)
    (actualLen : Nat) :
    s.cryptoDecrypt data (dataLen + 16) output outputLen actualLen =
      (true, { s with
        mem := (cryptLoop s.mem s.systemKey output (data + 16) data dataLen).writeWord actualLen
          dataLen }) := by
  rw [cryptoDecrypt, Nat.add_sub_cancel, if_neg, if_neg]
  · simp [read, write]
  · simp only [data_ne, output_ne, false_or]
    omega

end Accepted

end CryptoState

/-! ## Round trips -/

/-- The buffers of an encryption and of the decryption of its output. -/
structure CryptoBuffers where
  plaintext : Span
  ciphertext : Span
  decrypted : Span
  cipherLen : Nat
  plainLen : Nat

namespace CryptoBuffers

def spans (b : CryptoBuffers) : List Span :=
  [b.plaintext, b.ciphertext, b.decrypted, ⟨b.cipherLen, 4⟩, ⟨b.plainLen, 4⟩]

/-- Large enough, disjoint and admitted by the gate. -/
structure Usable (b : CryptoBuffers) (regions : List MemRegion) : Prop where
  cipherRoom : b.plaintext.size + 16 ≤ b.ciphertext.size
  plainRoom : b.plaintext.size ≤ b.decrypted.size
  word : b.ciphertext.size < 2 ^ 32
  apart : b.spans.Pairwise Span.Apart
  plaintext_ne : b.plaintext.address ≠ 0
  decrypted_ne : b.decrypted.address ≠ 0
  plaintextRead :
    securityValidateMemoryAccess regions b.plaintext.address b.plaintext.size false = true
  ciphertextWrite :
    securityValidateMemoryAccess regions b.ciphertext.address b.ciphertext.size true = true
  decryptedWrite :
    securityValidateMemoryAccess regions b.decrypted.address b.decrypted.size true = true

/-- The encryption of the plaintext. -/
def encrypt (b : CryptoBuffers) (s : CryptoState) : Bool × CryptoState :=
  s.cryptoEncrypt b.plaintext.address b.plaintext.size b.ciphertext.address b.ciphertext.size
    b.cipherLen

/-- The decryption of as many bytes as the encryption has reported. -/
def decrypt (b : CryptoBuffers) (s : CryptoState) : Bool × CryptoState :=
  s.cryptoDecrypt b.ciphertext.address (s.mem.readWord b.cipherLen) b.decrypted.address
    b.decrypted.size b.plainLen

/-- Both calls succeed and report their lengths, and the second returns the plaintext. -/
structure RoundTrip (b : CryptoBuffers) (s : CryptoState) : Prop where
  encrypted : (b.encrypt s).1 = true
  cipherLen : (b.encrypt s).2.mem.readWord b.cipherLen = b.plaintext.size + 16
  decrypted : (b.decrypt (b.encrypt s).2).1 = true
  plainLen : (b.decrypt (b.encrypt s).2).2.mem.readWord b.plainLen = b.plaintext.size
  text : (b.decrypt (b.encrypt s).2).2.mem.read b.decrypted.address b.plaintext.size =
    s.mem.read b.plaintext.address b.plaintext.size

variable {b : CryptoBuffers} {s : CryptoState}

/-- The encrypted bytes and their header. -/
structure Encrypted (b : CryptoBuffers) (s s' : CryptoState) : Prop where
  length : s'.mem.readWord b.cipherLen = b.plaintext.size + 16
  key : s'.systemKey = s.systemKey
  gate : s'.regions = s.regions
  bytes : ∀ i < b.plaintext.size, s'.mem (b.ciphertext.address + 16 + i) =
    masked s.systemKey (fun j => s'.mem (b.ciphertext.address + j)) i
      (s.mem (b.plaintext.address + i))

/-- The pairs of buffers of which one call writes one and reads the other. -/
theorem Usable.pairs {regions : List MemRegion} (usable : b.Usable regions) :
    b.plaintext.Apart b.ciphertext ∧ b.ciphertext.Apart b.decrypted ∧
      b.ciphertext.Apart ⟨b.cipherLen, 4⟩ ∧ b.decrypted.Apart ⟨b.plainLen, 4⟩ := by
  have apart := usable.apart
  simp only [spans, List.pairwise_cons, List.forall_mem_cons] at apart
  obtain ⟨⟨plain, -⟩, ⟨cipher, cipherLen, -⟩, ⟨-, plainLen, -⟩, -⟩ := apart
  exact ⟨plain, cipher, cipherLen, plainLen⟩

theorem Usable.ciphertext_ne {regions : List MemRegion} (usable : b.Usable regions) :
    b.ciphertext.address ≠ 0 := by
  have room := usable.cipherRoom
  exact ((validate_iff (by omega)).mp usable.ciphertextWrite).1

theorem Usable.encrypts (usable : b.Usable s.regions) :
    (b.encrypt s).1 = true ∧ b.Encrypted s (b.encrypt s).2 := by
  obtain ⟨plain, -, cell, -⟩ := usable.pairs
  simp only [Span.Apart] at plain cell
  have room := usable.cipherRoom
  have word := usable.word
  obtain ⟨key, gate⟩ := s.securityGenerateRandom_rest b.ciphertext.address 16
  rw [encrypt, CryptoState.cryptoEncrypt_accepts usable.plaintext_ne usable.ciphertext_ne room word
    usable.plaintextRead usable.ciphertextWrite]
  refine ⟨rfl, Mem.readWord_writeWord _ _ _ (by omega), key, gate, fun i inside => ?_⟩
  have source : (s.securityGenerateRandom b.ciphertext.address 16).2.mem.EqOn s.mem
      b.plaintext.address b.plaintext.size := s.securityGenerateRandom_eqOn (by omega)
  refine (cryptLoop_reported_inside (by omega) (by omega) _ (by omega) inside).trans ?_
  rw [source _ (by omega) (by omega)]
  -- The header, of which a byte was used, is still the one that was drawn.
  refine masked_congr fun j small => (Eq.symm ?_)
  exact cryptLoop_reported_eqOn (a := b.ciphertext.address) (k := 16) _ (by omega) (by omega) _
    (by omega) (by omega)

theorem Usable.decrypts {s' : CryptoState} (usable : b.Usable s.regions)
    (encrypted : b.Encrypted s s') (some : 0 < b.plaintext.size) :
    (b.decrypt s').1 = true ∧
      (b.decrypt s').2.mem.readWord b.plainLen = b.plaintext.size ∧
      (b.decrypt s').2.mem.read b.decrypted.address b.plaintext.size =
        s.mem.read b.plaintext.address b.plaintext.size := by
  obtain ⟨-, cipher, -, cell⟩ := usable.pairs
  simp only [Span.Apart] at cipher cell
  have room := usable.cipherRoom
  have plainRoom := usable.plainRoom
  have word := usable.word
  have readable := validate_read (validate_front usable.ciphertextWrite room) (by omega)
  have writable := usable.decryptedWrite
  rw [← encrypted.gate] at readable writable
  rw [decrypt, encrypted.length, CryptoState.cryptoDecrypt_accepts usable.ciphertext_ne
    usable.decrypted_ne some plainRoom readable writable]
  refine ⟨rfl, Mem.readWord_writeWord _ _ _ (by omega), ?_⟩
  refine List.map_congr_left fun i member => ?_
  have inside : i < b.plaintext.size := List.mem_range.mp member
  refine (cryptLoop_reported_inside (by omega) (by omega) _ (by omega) inside).trans ?_
  rw [encrypted.key, encrypted.bytes i inside, masked_twice]

theorem decrypt_refuses {s' : CryptoState} (short : s'.mem.readWord b.cipherLen ≤ 16) :
    (b.decrypt s').1 = false := by
  rw [decrypt, CryptoState.cryptoDecrypt, if_pos (.inr (.inr (.inl short)))]

/-- With buffers that are large enough, disjoint and admitted, an encryption and the decryption of
its output return the plaintext just if it is not empty. -/
theorem round_trip_iff (b : CryptoBuffers) (s : CryptoState) (usable : b.Usable s.regions) :
    b.RoundTrip s ↔ 0 < b.plaintext.size := by
  obtain ⟨accepted, encrypted⟩ := usable.encrypts
  constructor
  · intro trip
    by_contra empty
    -- The reported length is that of the header, which `crypto_decrypt` refuses.
    have short : (b.encrypt s).2.mem.readWord b.cipherLen ≤ 16 := by
      rw [encrypted.length]
      omega
    exact Bool.false_ne_true ((decrypt_refuses short).symm.trans trip.decrypted)
  · intro some
    obtain ⟨decrypted, length, text⟩ := usable.decrypts encrypted some
    exact ⟨accepted, encrypted.length, decrypted, length, text⟩

/-- A plaintext in the heap, with the other buffers behind it. -/
def textBuffers (size : Nat) : CryptoBuffers :=
  ⟨⟨0x800000, size⟩, ⟨0x810000, size + 16⟩, ⟨0x820000, size⟩, 0x830000, 0x830004⟩

/-- The seed is the one the generator starts with, and the table of the gate is empty. -/
def zeroState : CryptoState := ⟨fun _ => 0, fun _ => 0, 123456789, []⟩

theorem textBuffers_usable (size : Nat) (small : size < 0x1000) :
    (textBuffers size).Usable zeroState.regions := by
  have admits : Admits zeroState.regions := fun _ member => by cases member
  have gate (a n : Nat) (low : 0x800000 ≤ a) (high : a + n ≤ 0x900000) (inside : a < 0x900000)
      (write : Bool) : securityValidateMemoryAccess zeroState.regions a n write = true :=
    admits.validate low inside high write
  refine ⟨le_rfl, le_rfl, ?_, ?_, ?_, ?_, gate _ _ ?_ ?_ ?_ _, gate _ _ ?_ ?_ ?_ _,
    gate _ _ ?_ ?_ ?_ _⟩ <;>
    simp [textBuffers, spans, Span.Apart] <;> omega

theorem round_trip_iff_text : (textBuffers 5).RoundTrip zeroState :=
  (round_trip_iff (textBuffers 5) zeroState (textBuffers_usable 5 (by decide))).mpr (by decide)

/-- An empty plaintext is encrypted, and its encryption is refused. -/
theorem empty_text_not_decrypted :
    ∃ (b : CryptoBuffers) (s : CryptoState), b.Usable s.regions ∧ (b.encrypt s).1 = true ∧
      (b.encrypt s).2.mem.readWord b.cipherLen = b.plaintext.size + 16 ∧
      (b.decrypt (b.encrypt s).2).1 = false := by
  have usable := textBuffers_usable 0 (by decide)
  obtain ⟨accepted, encrypted⟩ := usable.encrypts
  refine ⟨textBuffers 0, zeroState, usable, accepted, encrypted.length, ?_⟩
  have short : ((textBuffers 0).encrypt zeroState).2.mem.readWord (textBuffers 0).cipherLen ≤ 16 :=
    encrypted.length.le
  exact decrypt_refuses short

end CryptoBuffers

end LughOS.Kernel

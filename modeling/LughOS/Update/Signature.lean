import LughOS.Update.Pipeline

/-!
# Signatures of update images

`verify_signature` compares the hash of an image with the expected one. `compute_sha256`, which is
FNV-1a on 32 bits, returns 0 for an image the access gate does not let it read, and its caller
cannot tell this from a hash. So the answer is the right one except for an unreadable image whose
expected hash is 0.
-/

namespace LughOS.Update

open Bytes Kernel

/-! ## What the check decides -/

section Check

variable {h : Heap} {image size : Nat} {expected : BitVec 32}

/-- The image may be read, and its bytes have the expected hash. -/
def Genuine (h : Heap) (image size : Nat) (expected : BitVec 32) : Prop :=
  securityValidateMemoryAccess h.regions image size false = true ∧
    fnv1a 2166136261#32 (h.mem.read image size) = expected

theorem computeSha256_readable (pos : 1 ≤ size)
    (readable : securityValidateMemoryAccess h.regions image size false = true) :
    computeSha256 h image size = fnv1a 2166136261#32 (h.mem.read image size) := by
  have nonnull : image ≠ 0 := ((validate_iff pos).mp readable).1
  have arguments : ¬(image = 0 ∨ size = 0) := by omega
  rw [computeSha256, if_neg arguments, if_neg (by simp [readable])]

theorem computeSha256_refused
    (refused : securityValidateMemoryAccess h.regions image size false = false) :
    computeSha256 h image size = 0 := by
  rw [computeSha256, if_pos refused, ite_self]

theorem verifySignature_readable (pos : 1 ≤ size)
    (readable : securityValidateMemoryAccess h.regions image size false = true) :
    verifySignature h image size expected = true ↔ Genuine h image size expected := by
  have nonnull : image ≠ 0 := ((validate_iff pos).mp readable).1
  have arguments : ¬(image = 0 ∨ size = 0) := by omega
  rw [verifySignature, if_neg arguments, computeSha256_readable pos readable, decide_eq_true_iff,
    Genuine, and_iff_right readable]

/-- A refused read takes part in the comparison as the hash 0. -/
theorem verifySignature_refused (pos : 1 ≤ size)
    (refused : securityValidateMemoryAccess h.regions image size false = false) :
    verifySignature h image size expected = true ↔ image ≠ 0 ∧ expected = 0 := by
  by_cases null : image = 0
  · simp [verifySignature, null]
  · have arguments : ¬(image = 0 ∨ size = 0) := by omega
    rw [verifySignature, if_neg arguments, computeSha256_refused refused, decide_eq_true_iff,
      and_iff_right null, eq_comm]

/-- The check is exact just if the image may be read, or the expected hash is not 0, or the image
is the null pointer. -/
theorem verifySignature_exact_iff (h : Heap) (image size : Nat) (expected : BitVec 32)
    (pos : 1 ≤ size) :
    (verifySignature h image size expected = true ↔
        securityValidateMemoryAccess h.regions image size false = true ∧
          fnv1a 2166136261#32 (h.mem.read image size) = expected) ↔
      securityValidateMemoryAccess h.regions image size false = true ∨ expected ≠ 0 ∨
        image = 0 := by
  cases gate : securityValidateMemoryAccess h.regions image size false with
  | true =>
      have exact : verifySignature h image size expected = true ↔ Genuine h image size expected :=
        verifySignature_readable pos gate
      rw [Genuine, gate] at exact
      exact iff_of_true exact (.inl rfl)
  | false =>
      rw [verifySignature_refused pos gate]
      simp only [Bool.false_eq_true, false_and, iff_false, not_and_or, not_not, false_or]
      exact or_comm

/-- A memory whose first page is guarded, as `security_regions_init` leaves it. -/
def guardedMemory : Heap := ⟨fun _ => 0, memoryInit, [⟨0, 0xFFF, false, false⟩]⟩

theorem verifySignature_exact_readable :
    verifySignature guardedMemory 0x1000 1 0 = true ↔
      securityValidateMemoryAccess guardedMemory.regions 0x1000 1 false = true ∧
        fnv1a 2166136261#32 (guardedMemory.mem.read 0x1000 1) = 0 :=
  (verifySignature_exact_iff guardedMemory 0x1000 1 0 le_rfl).mpr (.inl (by decide))

theorem guarded_image_passes :
    verifySignature guardedMemory 0x10 1 0 = true ∧
      securityValidateMemoryAccess guardedMemory.regions 0x10 1 false = false := by
  decide

end Check
end LughOS.Update

import LughOS.Library.Numeral
import LughOS.Update.Pipeline

/-!
# The names of checkpoints

A checkpoint is named by the path of the update, a fixed suffix and the low word of the transaction
id in decimal. The name has no NUL in it and always fits into the static buffer, and it determines
the path and the word.
-/

namespace LughOS.Update

open Bytes Numeral Storage

/-! ## Decimal numbers -/

theorem tidLoop_eq (rounds n : Nat) (digits : List Byte) :
    tidLoop rounds n digits = (lastDigits 10 rounds n).reverse.map digitChar ++ digits := by
  induction rounds generalizing n digits with
  | zero => rfl
  | succ rounds ih =>
      rw [tidLoop, lastDigits]
      split
      · rfl
      · rw [ih]
        simp

/-- The decimal digits of a number, from the first to the last; the digit of zero is 0. -/
def decimal (n : Nat) : List Nat := if n = 0 then [0] else (Nat.digits 10 n).reverse

theorem decimal_eq_numeral (n : Nat) : decimal n = numeral 10 n := rfl

theorem decimal_lt {n d : Nat} (member : d ∈ decimal n) : d < 10 :=
  numeral_lt (by decide) (decimal_eq_numeral n ▸ member)

theorem decimal_injective : Function.Injective decimal := numeral_injective 10

theorem decimal_length (n : Nat) : (decimal n).length = Nat.log 10 n + 1 := by
  rw [decimal_eq_numeral, numeral_length (by decide)]

theorem tidText_eq (id : BitVec 64) :
    tidText id = (decimal (id.toNat % 2 ^ 32)).map digitChar := by
  have fits : id.toNat % 2 ^ 32 < 10 ^ 10 := by omega
  rw [tidText, tidLoop_eq, lastDigits_reverse (by decide) (by decide) fits, List.append_nil,
    decimal_eq_numeral]

theorem digitChar_toNat {d : Nat} (digit : d < 10) : (digitChar d).toNat = 48 + d := by
  rw [digitChar, BitVec.toNat_ofNat]
  omega

theorem tidText_toNat {id : BitVec 64} {c : Byte} (member : c ∈ tidText id) : 48 ≤ c.toNat := by
  rw [tidText_eq, List.mem_map] at member
  obtain ⟨d, digit, rfl⟩ := member
  rw [digitChar_toNat (decimal_lt digit)]
  omega

theorem tidText_length (id : BitVec 64) :
    (tidText id).length = Nat.log 10 (id.toNat % 2 ^ 32) + 1 := by
  rw [tidText_eq, List.length_map, decimal_length]

theorem tidText_length_le (id : BitVec 64) : (tidText id).length ≤ 10 := by
  have word : id.toNat % 2 ^ 32 < 10 ^ 10 := by omega
  have := Nat.log_lt_of_lt_pow' (by decide) word
  rw [tidText_length]
  omega

/-- The digits can be read back. -/
theorem tidText_digits (id : BitVec 64) :
    (tidText id).map (fun c => c.toNat - 48) = decimal (id.toNat % 2 ^ 32) := by
  rw [tidText_eq, List.map_map]
  refine (List.map_congr_left fun d member => ?_).trans (List.map_id _)
  simp [digitChar_toNat (decimal_lt member)]

theorem tidText_inj {id id' : BitVec 64} :
    tidText id = tidText id' ↔ id.toNat % 2 ^ 32 = id'.toNat % 2 ^ 32 := by
  constructor
  · intro same
    apply decimal_injective
    rw [← tidText_digits, ← tidText_digits, same]
  · intro same
    rw [tidText_eq, tidText_eq, same]

/-! ## Names -/

variable {path path' : List Byte} {id id' : BitVec 64}

theorem checkpointName_length (path : List Byte) (id : BitVec 64) :
    (checkpointName path id).length = path.length + Nat.log 10 (id.toNat % 2 ^ 32) + 13 := by
  rw [checkpointName, List.length_append, List.length_append, tidText_length]
  simp only [suffix, List.length_cons, List.length_nil]
  omega

/-- A name of a path of at most 200 characters is in the buffer with its NUL. -/
theorem checkpointName_fits (id : BitVec 64) (short : path.length ≤ 200) :
    (checkpointName path id).length ≤ 222 := by
  have := tidText_length_le id
  rw [checkpointName, List.length_append, List.length_append]
  simp only [suffix, List.length_cons, List.length_nil]
  omega

theorem checkpointName_nonzero (nonzero : ∀ c ∈ path, c ≠ 0) :
    ∀ c ∈ checkpointName path id, c ≠ 0 := by
  intro c member
  rcases List.mem_append.mp member with member | member
  · rcases List.mem_append.mp member with member | member
    · exact nonzero c member
    · have nonzero : ∀ c ∈ suffix, c ≠ 0 := by decide
      exact nonzero c member
  · intro zero
    have := tidText_toNat member
    simp [zero] at this

/-- What stands behind the last `-` of a name is its number. -/
theorem checkpointName_number (path : List Byte) (id : BitVec 64) :
    (checkpointName path id).reverse.takeWhile (· ≠ 0x2D) = (tidText id).reverse := by
  have digits : ∀ c ∈ (tidText id).reverse, decide (c ≠ (0x2D : Byte)) = true := by
    intro c member
    have := tidText_toNat (List.mem_reverse.mp member)
    apply decide_eq_true
    rintro rfl
    simp at this
  rw [checkpointName, List.reverse_append, List.reverse_append, List.takeWhile_append_of_pos digits]
  simp [suffix]

theorem checkpointName_inj :
    checkpointName path id = checkpointName path' id' ↔
      path = path' ∧ id.toNat % 2 ^ 32 = id'.toNat % 2 ^ 32 := by
  constructor
  · intro same
    have number := congrArg (fun name => name.reverse.takeWhile (· ≠ 0x2D)) same
    simp only [checkpointName_number] at number
    have numbers : tidText id = tidText id' := List.reverse_injective number
    rw [checkpointName, checkpointName, numbers] at same
    refine ⟨List.append_cancel_right (List.append_cancel_right same), tidText_inj.mp numbers⟩
  · rintro ⟨rfl, same⟩
    rw [checkpointName, checkpointName, tidText_inj.mpr same]

end LughOS.Update

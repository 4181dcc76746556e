import Mathlib

/-!
# Positional numerals

`numeral b n` is the standard numeral of `n` in base `b`, from the first digit to the last: it has
no leading zero, and the numeral of zero is a single 0. `value b` is what a digit list denotes.
Programs produce digits in the opposite order, by repeated division. `lastDigits` does so until
nothing is left and `lowDigits` a fixed number of times; both are bounded by a number of rounds.

`parse` reads a text with one character for each digit. It refuses the empty text and every
character that is no digit.
-/

namespace Numeral

variable {b n rounds : Nat}

/-! ## Numerals and their values -/

def numeral (b n : Nat) : List Nat := if n = 0 then [0] else (Nat.digits b n).reverse

def value (b : Nat) (digits : List Nat) : Nat := digits.foldl (fun v d => d + b * v) 0

theorem value_reverse (b : Nat) (digits : List Nat) :
    value b digits.reverse = Nat.ofDigits b digits := by
  rw [value, List.foldl_reverse, Nat.ofDigits_eq_foldr]
  rfl

@[simp] theorem value_numeral (b n : Nat) : value b (numeral b n) = n := by
  unfold numeral
  split
  · next zero => simp [value, zero]
  · rw [value_reverse, Nat.ofDigits_digits]

theorem numeral_injective (b : Nat) : Function.Injective (numeral b) := by
  intro n m same
  rw [← value_numeral b n, same, value_numeral]

theorem numeral_ne_nil (b n : Nat) : numeral b n ≠ [] := by
  unfold numeral
  split
  · exact List.cons_ne_nil 0 []
  · next pos => exact mt List.reverse_eq_nil_iff.mp (Nat.digits_ne_nil_iff_ne_zero.mpr pos)

theorem numeral_lt (base : 1 < b) {d : Nat} (member : d ∈ numeral b n) : d < b := by
  unfold numeral at member
  split at member
  · rw [List.mem_singleton.mp member]
    omega
  · exact Nat.digits_lt_base base (List.mem_reverse.mp member)

theorem numeral_length (base : 1 < b) (n : Nat) : (numeral b n).length = Nat.log b n + 1 := by
  unfold numeral
  split
  · next zero => simp [zero]
  · next pos => rw [List.length_reverse, Nat.length_digits b n base pos]

/-! ## Repeated division -/

/-- The digits that come off the end until the quotient is zero. -/
def lastDigits (b : Nat) : Nat → Nat → List Nat
  | 0, _ => []
  | rounds + 1, n => n % b :: if n / b = 0 then [] else lastDigits b rounds (n / b)

theorem lastDigits_of_pos (base : 1 < b) (pos : 0 < n) (fits : n < b ^ rounds) :
    lastDigits b rounds n = Nat.digits b n := by
  induction rounds generalizing n with
  | zero => exact absurd fits (Nat.not_lt.mpr pos)
  | succ rounds ih =>
      rw [lastDigits, Nat.digits_def' base pos]
      split
      · next last => rw [last, Nat.digits_zero]
      · next more =>
          have smaller : n / b < b ^ rounds := by
            apply Nat.div_lt_of_lt_mul
            rwa [← Nat.pow_succ']
          rw [ih (Nat.pos_of_ne_zero more) smaller]

/-- Enough rounds give the whole numeral. -/
theorem lastDigits_reverse (base : 1 < b) (started : 0 < rounds) (fits : n < b ^ rounds) :
    (lastDigits b rounds n).reverse = numeral b n := by
  unfold numeral
  split
  · next zero =>
      obtain ⟨more, rfl⟩ := Nat.exists_eq_add_one.mpr started
      simp [zero, lastDigits]
  · next nonzero => rw [lastDigits_of_pos base (Nat.pos_of_ne_zero nonzero) fits]

/-- A fixed number of digits, the last one first. -/
def lowDigits (b : Nat) : Nat → Nat → List Nat
  | 0, _ => []
  | rounds + 1, n => n % b :: lowDigits b rounds (n / b)

theorem length_lowDigits (b rounds n : Nat) : (lowDigits b rounds n).length = rounds := by
  induction rounds generalizing n with
  | zero => rfl
  | succ rounds ih => rw [lowDigits, List.length_cons, ih]

theorem lowDigits_lt (pos : 0 < b) {d : Nat} (member : d ∈ lowDigits b rounds n) : d < b := by
  induction rounds generalizing n with
  | zero => exact absurd member List.not_mem_nil
  | succ rounds ih =>
      rcases List.mem_cons.mp member with rfl | later
      · exact Nat.mod_lt n pos
      · exact ih later

theorem value_lowDigits (b rounds n : Nat) :
    value b (lowDigits b rounds n).reverse = n % b ^ rounds := by
  rw [value_reverse]
  induction rounds generalizing n with
  | zero => rw [pow_zero, Nat.mod_one]; rfl
  | succ rounds ih =>
      rw [lowDigits, Nat.ofDigits_cons, ih, Nat.pow_succ', Nat.mod_mul]

/-! ## Text -/

variable {C : Type*} (digit : C → Option Nat)

def parse (b : Nat) (text : List C) : Option Nat :=
  if text = [] then none else (text.mapM digit).map (value b)

variable {digit} {char : Nat → C} {digits : List Nat}

theorem parse_map (reads : ∀ d < b, digit (char d) = some d) (nonempty : digits ≠ [])
    (inBase : ∀ d ∈ digits, d < b) : parse digit b (digits.map char) = some (value b digits) := by
  have all : (digits.map char).mapM digit = some digits := by
    clear nonempty
    induction digits with
    | nil => rfl
    | cons d digits ih =>
        have rest := ih fun other member => inBase other (List.mem_cons_of_mem d member)
        rw [List.map_cons, List.mapM_cons, reads d (inBase d List.mem_cons_self), rest]
        rfl
  rw [parse, if_neg (mt List.map_eq_nil_iff.mp nonempty), all]
  rfl

end Numeral

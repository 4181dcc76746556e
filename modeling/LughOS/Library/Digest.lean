import Mathlib

/-!
# Running digests

A digest reads a string letter by letter and carries a state. If one letter can be told
from the state before and after it, and the state before from the state after, then two
strings that differ in one position have different digests, however long they are.

Two families of steps are covered. A cyclic redundancy check in reflected form adds a
letter to the low end of the remainder and shifts the remainder once per bit; the shift
is linear in exclusive or, which is why a table of the shifted letters can replace the
shifts. A multiplicative hash adds the letter and multiplies by a fixed unit.
-/

namespace Digest

/-! ## One changed letter -/

section Fold

variable {S A : Type*} {step : S → A → S} {xs ys : List A}

/-- Strings of one length that differ in exactly one position. -/
def DifferOnce (xs ys : List A) : Prop :=
  xs.length = ys.length ∧ ∃! i : Nat, xs[i]? ≠ ys[i]?

theorem DifferOnce.split (d : DifferOnce xs ys) :
    ∃ before a b after, a ≠ b ∧ xs = before ++ a :: after ∧ ys = before ++ b :: after := by
  obtain ⟨len, i, here, only⟩ := d
  have inside : i < xs.length := by
    by_contra outside
    exact here (by rw [List.getElem?_eq_none (by omega), List.getElem?_eq_none (by omega)])
  have elsewhere (j : Nat) (other : j ≠ i) : xs[j]? = ys[j]? :=
    not_not.mp fun differ => other (only j differ)
  refine ⟨xs.take i, xs[i], ys[i], xs.drop (i + 1), ?_, ?_, ?_⟩
  · intro same
    exact here (by rw [List.getElem?_eq_getElem inside, List.getElem?_eq_getElem (len ▸ inside),
      same])
  · rw [List.getElem_cons_drop, List.take_append_drop]
  · have front : xs.take i = ys.take i := by
      refine List.ext_getElem? fun j => ?_
      by_cases below : j < i
      · simp only [List.getElem?_take, below, if_true, elsewhere j (by omega)]
      · simp only [List.getElem?_take, below, if_false]
    have back : xs.drop (i + 1) = ys.drop (i + 1) := by
      refine List.ext_getElem? fun j => ?_
      simp only [List.getElem?_drop, elsewhere (i + 1 + j) (by omega)]
    rw [front, back, List.getElem_cons_drop, List.take_append_drop]

theorem DifferOnce.set {i : Nat} {a : A} (inside : i < xs.length) (differ : xs[i] ≠ a) :
    DifferOnce xs (xs.set i a) := by
  refine ⟨List.length_set.symm, i, ?_, fun j elsewhere => ?_⟩
  · simpa [inside] using differ
  · by_contra other
    exact elsewhere (List.getElem?_set_ne (Ne.symm other)).symm

theorem foldl_injective (state : ∀ a, Function.Injective (step · a)) (xs : List A) :
    Function.Injective (xs.foldl step) := by
  induction xs with
  | nil => exact fun _ _ same => same
  | cons a xs ih => exact fun s t same => state a (ih same)

/-- The changed letter gives two states, and no later letter brings them together. -/
theorem DifferOnce.foldl_ne (d : DifferOnce xs ys) (state : ∀ a, Function.Injective (step · a))
    (letter : ∀ s, Function.Injective (step s)) (s : S) : xs.foldl step s ≠ ys.foldl step s := by
  obtain ⟨before, a, b, after, differ, rfl, rfl⟩ := d.split
  simp only [List.foldl_append, List.foldl_cons]
  intro same
  exact differ (letter _ (foldl_injective state after same))

end Fold

/-- A letter is not cut by a state that is at least as wide. -/
theorem setWidth_injective {n w : Nat} (fits : n ≤ w) :
    Function.Injective (BitVec.setWidth w : BitVec n → BitVec w) := by
  intro a b same
  refine BitVec.eq_of_getLsbD_eq fun i inside => ?_
  have bit := congrArg (·.getLsbD i) same
  simpa [show i < w by omega] using bit

/-! ## Reflected cyclic redundancy checks -/

section Crc

variable {w : Nat} (poly : BitVec w)

/-- One shift of the remainder: the bit that falls out decides whether the polynomial is
subtracted. -/
def shift (c : BitVec w) : BitVec w :=
  if c.getLsbD 0 then poly ^^^ (c >>> 1) else c >>> 1

/-- One bit of the data, added to the low end of the remainder before the shift. -/
def feed (c : BitVec w) (bit : Bool) : BitVec w := shift poly (c ^^^ (BitVec.ofBool bit).setWidth w)

/-- The bits of a letter, least significant first. -/
def bits {n : Nat} (a : BitVec n) : List Bool := (List.range n).map a.getLsbD

theorem shift_xor (a b : BitVec w) : shift poly (a ^^^ b) = shift poly a ^^^ shift poly b := by
  refine BitVec.eq_of_getLsbD_eq fun i _ => ?_
  simp only [shift, BitVec.getLsbD_xor, BitVec.ushiftRight_xor_distrib]
  cases a.getLsbD 0 <;> cases b.getLsbD 0 <;> simp [Bool.xor_comm, Bool.xor_left_comm]

theorem iterate_shift_xor (k : Nat) (a b : BitVec w) :
    (shift poly)^[k] (a ^^^ b) = (shift poly)^[k] a ^^^ (shift poly)^[k] b := by
  induction k with
  | zero => rfl
  | succ k ih => simp only [Function.iterate_succ_apply', ih, shift_xor]

/-- As long as the bits that fall out are clear, shifting only moves the remainder. -/
theorem iterate_shift_of_clear {k : Nat} {c : BitVec w}
    (clear : ∀ i < k, c.getLsbD i = false) : (shift poly)^[k] c = c >>> k := by
  induction k with
  | zero => simp
  | succ k ih =>
      have low : (c >>> k).getLsbD 0 = false := by
        simpa using clear k (Nat.lt_succ_self k)
      rw [Function.iterate_succ_apply', ih fun i below => clear i (by omega), shift, low,
        if_neg Bool.false_ne_true, BitVec.shiftRight_add]

/-- Shifting `k` times is a function of the low `k` bits, next to a plain move of the rest. -/
theorem iterate_shift_split (k : Nat) (c : BitVec w) :
    (shift poly)^[k] c = (shift poly)^[k] ((c.setWidth k).setWidth w) ^^^ (c >>> k) := by
  have parts : c = (c.setWidth k).setWidth w ^^^ (c >>> k) <<< k := by
    refine BitVec.eq_of_getLsbD_eq fun i inside => ?_
    by_cases low : i < k
    · simp [inside, low]
    · simp [inside, low, Nat.add_sub_cancel' (Nat.le_of_not_lt low)]
  have moved : ((c >>> k) <<< k) >>> k = c >>> k := by
    refine BitVec.eq_of_getLsbD_eq fun i inside => ?_
    by_cases fits : k + i < w
    · simp [fits]
    · simp [fits, BitVec.getLsbD_of_ge c (k + i) (by omega)]
  conv_lhs => rw [parts]
  rw [iterate_shift_xor, iterate_shift_of_clear poly (c := (c >>> k) <<< k), moved]
  intro i below
  simp [below]

/-- Adding a letter as a whole and shifting once per bit is feeding its bits one by one. -/
theorem foldl_feed_bits {n : Nat} (fits : n ≤ w) (c : BitVec w) (a : BitVec n) :
    (bits a).foldl (feed poly) c = (shift poly)^[n] (c ^^^ a.setWidth w) := by
  induction n with
  | zero => simp [bits, BitVec.of_length_zero]
  | succ n ih =>
      have lower : bits a = bits (a.setWidth n) ++ [a.getLsbD n] := by
        rw [bits, List.range_succ, List.map_append, List.map_singleton, bits]
        congr 1
        refine List.map_congr_left fun i inside => ?_
        simp [List.mem_range.mp inside]
      have parts : c ^^^ a.setWidth w =
          (c ^^^ (a.setWidth n).setWidth w) ^^^
            ((BitVec.ofBool (a.getLsbD n)).setWidth w) <<< n := by
        refine BitVec.eq_of_getLsbD_eq fun i inside => ?_
        rcases Nat.lt_trichotomy i n with below | rfl | above
        · simp [inside, below]
        · simp [inside]
        · have beyond : a.getLsbD i = false := BitVec.getLsbD_of_ge a i above
          have other : ¬ i - n = 0 := by omega
          simp [inside, beyond, other, Nat.not_lt_of_gt above]
      have top : (shift poly)^[n] (((BitVec.ofBool (a.getLsbD n)).setWidth w) <<< n) =
          (BitVec.ofBool (a.getLsbD n)).setWidth w := by
        rw [iterate_shift_of_clear poly (fun i below => by simp [below])]
        refine BitVec.eq_of_getLsbD_eq fun i inside => ?_
        by_cases first : i = 0
        · simp [first]; omega
        · simp [first]
      rw [lower, List.foldl_append, ih (by omega), parts, Function.iterate_succ_apply',
        iterate_shift_xor poly n (c ^^^ _), top]
      rfl

/-- No shift loses the remainder when the polynomial reaches the highest bit. -/
theorem shift_injective {poly : BitVec w} (top : poly.msb = true) :
    Function.Injective (shift poly) := by
  intro a b same
  have zero : shift poly (a ^^^ b) = 0#w := by rw [shift_xor, same, BitVec.xor_self]
  refine BitVec.xor_eq_zero_iff.mp (BitVec.eq_of_getLsbD_eq fun i inside => ?_)
  cases low : (a ^^^ b).getLsbD 0 with
  | true =>
      rw [shift, low, if_pos rfl] at zero
      have highest : poly.msb = ((a ^^^ b) >>> 1).msb := by rw [BitVec.xor_eq_zero_iff.mp zero]
      simp [top] at highest
  | false =>
      rw [shift, low, if_neg Bool.false_ne_true] at zero
      cases i with
      | zero => simpa using low
      | succ i => simpa [Nat.add_comm] using congrArg (·.getLsbD i) zero

/-- A letter of `n` bits: added to the remainder, which is then shifted once per bit. -/
def absorb {n : Nat} (c : BitVec w) (a : BitVec n) : BitVec w :=
  (shift poly)^[n] (c ^^^ a.setWidth w)

theorem absorb_state_injective {poly : BitVec w} (top : poly.msb = true) {n : Nat} (a : BitVec n) :
    Function.Injective (absorb poly · a) := by
  intro c d same
  exact (BitVec.xor_left_inj _).mp ((shift_injective top).iterate n same)

theorem absorb_letter_injective {poly : BitVec w} (top : poly.msb = true) {n : Nat} (fits : n ≤ w)
    (c : BitVec w) : Function.Injective (absorb (n := n) poly c) := by
  intro a b same
  exact setWidth_injective fits ((BitVec.xor_right_inj _).mp ((shift_injective top).iterate n same))

end Crc

/-! ## Multiplicative hashes -/

section Multiplicative

variable {w n : Nat}

/-- One letter of a hash that adds the letter and multiplies by a constant. -/
def mix (p : BitVec w) (h : BitVec w) (a : BitVec n) : BitVec w := (h ^^^ a.setWidth w) * p

theorem mul_injective {p q : BitVec w} (unit : p * q = 1#w) :
    Function.Injective (fun x : BitVec w => x * p) := by
  intro x y same
  have cancel := congrArg (· * q) same
  simpa [BitVec.mul_assoc, unit] using cancel

theorem mix_state_injective {p q : BitVec w} (unit : p * q = 1#w) (a : BitVec n) :
    Function.Injective (mix p · a) :=
  fun _ _ same => (BitVec.xor_left_inj _).mp (mul_injective unit same)

theorem mix_letter_injective {p q : BitVec w} (unit : p * q = 1#w) (fits : n ≤ w)
    (h : BitVec w) : Function.Injective (mix (n := n) p h) := by
  intro a b same
  exact setWidth_injective fits ((BitVec.xor_right_inj _).mp (mul_injective unit same))

end Multiplicative

end Digest

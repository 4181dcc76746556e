import LughOS.Library.Memory

/-!
# Terminated strings in memory

`m.text a n` is what a program reads as the string at `a` when it looks at no more than `n`
characters. Behind a text of fewer than `n` characters there is a NUL, and a memory with the same
characters and the NUL in another place holds the same text there.

`m.StringAt a chars` says that the string at `a` is `chars`, whatever its length.
-/

namespace Mem

open Bytes

/-- The characters at an address up to the NUL, at most `n` of them. -/
def text (m : Mem) (a : Nat) : Nat → List Byte
  | 0 => []
  | n + 1 => if m a = 0 then [] else m a :: text m (a + 1) n

variable {m m' : Mem} {a b n k : Nat}

theorem text_nul (nul : m a = 0) : m.text a (n + 1) = [] := if_pos nul

theorem text_char (char : m a ≠ 0) : m.text a (n + 1) = m a :: m.text (a + 1) n := if_neg char

theorem text_length_le (m : Mem) (a n : Nat) : (m.text a n).length ≤ n := by
  induction n generalizing a with
  | zero => exact le_rfl
  | succ n ih =>
      rw [text]
      split
      · exact Nat.zero_le _
      · exact Nat.succ_le_succ (ih (a + 1))

/-- The characters of a text are in memory, and none of them is NUL. -/
theorem text_getElem {i : Nat} (inside : i < (m.text a n).length) :
    (m.text a n)[i] = m (a + i) ∧ m (a + i) ≠ 0 := by
  induction n generalizing a i with
  | zero => exact absurd inside (Nat.not_lt_zero _)
  | succ n ih =>
      by_cases nul : m a = 0
      · simp [text_nul nul] at inside
      · simp only [text_char nul] at inside ⊢
        cases i with
        | zero => exact ⟨rfl, nul⟩
        | succ i =>
            have := ih (a := a + 1) (Nat.lt_of_succ_lt_succ inside)
            rwa [Nat.add_right_comm, Nat.add_assoc] at this

theorem text_end (short : (m.text a n).length < n) : m (a + (m.text a n).length) = 0 := by
  induction n generalizing a with
  | zero => exact absurd short (Nat.not_lt_zero _)
  | succ n ih =>
      by_cases nul : m a = 0
      · simpa [text_nul nul] using nul
      · rw [text_char nul, List.length_cons] at short ⊢
        have := ih (a := a + 1) (Nat.lt_of_succ_lt_succ short)
        rwa [Nat.add_right_comm, Nat.add_assoc] at this

/-- A text is determined by its characters and its NUL. -/
theorem text_congr (same : ∀ i ≤ (m.text a n).length, i < n → m' (b + i) = m (a + i)) :
    m'.text b n = m.text a n := by
  induction n generalizing a b with
  | zero => rfl
  | succ n ih =>
      have first : m' b = m a := same 0 (Nat.zero_le _) (Nat.succ_pos n)
      by_cases nul : m a = 0
      · rw [text_nul nul, text_nul (first.trans nul)]
      · have rest : m'.text (b + 1) n = m.text (a + 1) n := by
          refine ih fun i within below => ?_
          rw [text_char nul, List.length_cons] at same
          have := same (i + 1) (by omega) (by omega)
          rwa [show b + (i + 1) = b + 1 + i by omega, show a + (i + 1) = a + 1 + i by omega]
            at this
        rw [text_char nul, text_char (first ▸ nul), first, rest]

theorem EqOn.text_eq (same : EqOn m m' a n) : m.text a n = m'.text a n :=
  text_congr fun i _ below => same (a + i) (by omega) (by omega)

/-- A smaller bound cuts the text off. -/
theorem text_take (m : Mem) (a : Nat) (smaller : k ≤ n) : m.text a k = (m.text a n).take k := by
  induction n generalizing a k with
  | zero =>
      obtain rfl : k = 0 := by omega
      rfl
  | succ n ih =>
      cases k with
      | zero => rfl
      | succ k =>
          by_cases nul : m a = 0
          · rw [text_nul nul, text_nul nul, List.take_nil]
          · rw [text_char nul, text_char nul, List.take_succ_cons, ih (a + 1) (by omega)]

/-- Characters in memory with a NUL behind them are a text. -/
theorem text_eq {chars : List Byte} (nonzero : ∀ c ∈ chars, c ≠ 0) (short : chars.length < n)
    (nul : m (a + chars.length) = 0) (same : ∀ i (h : i < chars.length), m (a + i) = chars[i]) :
    m.text a n = chars := by
  induction chars generalizing a n with
  | nil =>
      obtain ⟨n, rfl⟩ : ∃ k, n = k + 1 := ⟨n - 1, by simp at short; omega⟩
      exact text_nul nul
  | cons c chars ih =>
      obtain ⟨n, rfl⟩ : ∃ k, n = k + 1 := ⟨n - 1, by simp at short; omega⟩
      have first : m a = c := same 0 (by simp)
      have char : m a ≠ 0 := by
        rw [first]
        exact nonzero c (by simp)
      have rest : m.text (a + 1) n = chars := by
        refine ih (fun x member => nonzero x (by simp [member])) (by simpa using short) ?_ ?_
        · rw [List.length_cons] at nul
          rwa [Nat.add_right_comm, Nat.add_assoc]
        · intro i inside
          have := same (i + 1) (by simpa using inside)
          rwa [show a + (i + 1) = a + 1 + i by omega] at this
      rw [text_char char, first, rest]

theorem text_write (m : Mem) (a : Nat) {chars : List Byte} (nonzero : ∀ c ∈ chars, c ≠ 0)
    (short : chars.length < n) : (m.write a (chars ++ [0])).text a n = chars := by
  refine text_eq nonzero short ?_ fun i inside => ?_
  · rw [write_inside m a _ chars.length (by simp)]
    simp
  · rw [write_inside m a _ i (by simp; omega), List.getElem_append_left inside]

/-! ## Strings of any length -/

/-- The characters are in memory from `a` on, with a NUL behind them. -/
structure StringAt (m : Mem) (a : Nat) (chars : List Byte) : Prop where
  nonzero : ∀ c ∈ chars, c ≠ 0
  held : m.read a chars.length = chars
  nul : m (a + chars.length) = 0

namespace StringAt

variable {c : Byte} {chars : List Byte}

theorem char (s : m.StringAt a chars) {i : Nat} (inside : i < chars.length) :
    m (a + i) = chars[i] := by
  have at_i := congrArg (·[i]?) s.held
  simpa [read, inside] using at_i

theorem char_ne_zero (s : m.StringAt a chars) {i : Nat} (inside : i < chars.length) :
    m (a + i) ≠ 0 := by
  rw [s.char inside]
  exact s.nonzero _ (List.getElem_mem inside)

theorem head (s : m.StringAt a (c :: chars)) : m a = c := s.char (i := 0) (by simp)

theorem tail (s : m.StringAt a (c :: chars)) : m.StringAt (a + 1) chars := by
  refine ⟨fun x member => s.nonzero x (by simp [member]), ?_, ?_⟩
  · have bytes : m.read a 1 ++ m.read (a + 1) chars.length = [c] ++ chars := by
      rw [← read_append, Nat.add_comm 1]
      exact s.held
    exact (List.append_inj bytes (by simp)).2
  · have nul := s.nul
    rwa [List.length_cons, Nat.add_comm chars.length, ← Nat.add_assoc] at nul

theorem zero_iff (s : m.StringAt a chars) : m a = 0 ↔ chars = [] := by
  constructor
  · intro zero
    by_contra some
    exact s.char_ne_zero (i := 0) (List.length_pos_iff.mpr some) zero
  · rintro rfl
    exact s.nul

theorem of_write (m : Mem) (a : Nat) (nonzero : ∀ c ∈ chars, c ≠ 0) :
    (m.write a (chars ++ [0])).StringAt a chars := by
  rw [write_append]
  refine ⟨nonzero, ?_, write_inside _ _ [0] 0 (by simp)⟩
  have kept : EqOn ((m.write a chars).write (a + chars.length) [0]) (m.write a chars) a
      chars.length := write_eqOn _ _ (.inl le_rfl)
  rw [kept.read_eq, read_write]

/-- What a bounded program reads of the string. -/
theorem text_eq (s : m.StringAt a chars) (n : Nat) : m.text a n = chars.take n := by
  induction chars generalizing a n with
  | nil =>
      cases n with
      | zero => rfl
      | succ n => exact text_nul s.nul
  | cons c chars ih =>
      cases n with
      | zero => rfl
      | succ n =>
          have char : m a ≠ 0 := fun zero => by simpa using s.zero_iff.mp zero
          rw [text_char char, s.head, ih s.tail, List.take_succ_cons]

end StringAt

end Mem

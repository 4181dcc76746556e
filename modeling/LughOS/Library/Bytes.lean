import Mathlib

/-!
# Little-endian bytes of machine words

`wordBytes n v` is the byte list a packer obtains by shifting a word right eight
bits at a time and truncating to one byte. `ofBytes` is the positional value an
unpacker computes from the same bytes, over unbounded numbers. The two are
written independently; `ofBytes_wordBytes` is the only bridge between them.

Hexadecimal text is included because byte strings are sometimes handed on as
text: `ofHex (toHex bytes)` recovers every byte string. `cString` is the string in a
byte array under the NUL convention.
-/

namespace Bytes

abbrev Byte := BitVec 8

/-- The lowest `n` bytes of a word, least significant first. -/
def wordBytes (n : Nat) (v : BitVec w) : List Byte :=
  (List.range n).map fun i => (v >>> (8 * i)).setWidth 8

/-- Positional value of a little-endian byte list. -/
def ofBytes : List Byte → Nat
  | [] => 0
  | b :: bs => b.toNat + 256 * ofBytes bs

@[simp] theorem wordBytes_length (n : Nat) (v : BitVec w) : (wordBytes n v).length = n := by
  simp [wordBytes]

@[simp] theorem drop_wordBytes {n k : Nat} (v : BitVec w) (past : n ≤ k) :
    (wordBytes n v).drop k = [] :=
  List.drop_eq_nil_of_le (by simpa using past)

@[simp] theorem wordBytes_zero (v : BitVec w) : wordBytes 0 v = [] := rfl

theorem wordBytes_succ (n : Nat) (v : BitVec w) :
    wordBytes (n + 1) v = v.setWidth 8 :: wordBytes n (v >>> 8) := by
  simp only [wordBytes, List.range_succ_eq_map, List.map_cons, List.map_map,
    Nat.mul_zero, BitVec.ushiftRight_zero]
  congr 2
  funext i
  simp only [Function.comp_apply, Nat.succ_eq_add_one, ← BitVec.shiftRight_add]
  congr 2
  omega

/-- Unpacking the shifted bytes gives the word back, reduced to the packed width. -/
theorem ofBytes_wordBytes (n : Nat) (v : BitVec w) :
    ofBytes (wordBytes n v) = v.toNat % 256 ^ n := by
  induction n generalizing v with
  | zero => simp [ofBytes, Nat.mod_one]
  | succ n ih =>
      rw [wordBytes_succ, ofBytes, ih, BitVec.toNat_setWidth, BitVec.toNat_ushiftRight,
        Nat.shiftRight_eq_div_pow, pow_succ' 256 n, Nat.mod_mul]

theorem ofBytes_wordBytes_of_le (n : Nat) (v : BitVec w) (fit : w ≤ 8 * n) :
    ofBytes (wordBytes n v) = v.toNat := by
  rw [ofBytes_wordBytes, Nat.mod_eq_of_lt]
  calc v.toNat < 2 ^ w := v.isLt
    _ ≤ 2 ^ (8 * n) := Nat.pow_le_pow_right (by decide) fit
    _ = 256 ^ n := by rw [pow_mul]; norm_num

/-- Bits put above a number that does not reach them are added to it. -/
theorem or_shiftLeft {lo i : Nat} (below : lo < 2 ^ i) (hi : Nat) :
    lo ||| (hi <<< i) = lo + 2 ^ i * hi := by
  rw [Nat.lor_comm, Nat.shiftLeft_eq, Nat.mul_comm hi, ← Nat.two_pow_add_eq_or_of_lt below hi,
    Nat.add_comm]

/-- The digit alphabet of lower-case hexadecimal text. -/
def hexDigit (n : Nat) : Char := if n < 10 then Char.ofNat (48 + n) else Char.ofNat (87 + n)

def hexValue (c : Char) : Nat := if c.toNat < 58 then c.toNat - 48 else c.toNat - 87

/-- Two digits per byte, high nibble first. -/
def toHex (bs : List Byte) : List Char :=
  bs.flatMap fun b => [hexDigit (b.toNat / 16), hexDigit (b.toNat % 16)]

def ofHex : List Char → List Byte
  | hi :: lo :: rest => BitVec.ofNat 8 (16 * hexValue hi + hexValue lo) :: ofHex rest
  | _ => []

private theorem hexValue_hexDigit : ∀ n < 16, hexValue (hexDigit n) = n := by decide

@[simp] theorem ofHex_toHex (bs : List Byte) : ofHex (toHex bs) = bs := by
  induction bs with
  | nil => rfl
  | cons b bs ih =>
      have hb : b.toNat < 256 := b.isLt
      have high := hexValue_hexDigit (b.toNat / 16) (by omega)
      have low := hexValue_hexDigit (b.toNat % 16) (by omega)
      change BitVec.ofNat 8 _ :: ofHex (toHex bs) = b :: bs
      rw [high, low, ih, Nat.div_add_mod, BitVec.ofNat_toNat, BitVec.setWidth_eq]

/-! ## NUL-terminated strings -/

section CString

variable {n : Nat} {f : Fin n → Byte}

/-- The characters in front of the first NUL of an array. -/
def cString (f : Fin n → Byte) : List Byte := (List.ofFn f).takeWhile fun b => decide (b ≠ 0)

theorem cString_length_le (f : Fin n → Byte) : (cString f).length ≤ n := by
  have := (List.takeWhile_prefix (fun b : Byte => decide (b ≠ 0)) (l := List.ofFn f)).length_le
  simpa [cString] using this

theorem cString_ne_zero {b : Byte} (member : b ∈ cString f) : b ≠ 0 := by
  simpa using List.mem_takeWhile_imp member

theorem cString_getElem {j : Nat} (h : j < (cString f).length) :
    (cString f)[j] = f ⟨j, lt_of_lt_of_le h (cString_length_le f)⟩ := by
  have front := List.takeWhile_prefix (fun b : Byte => decide (b ≠ 0)) (l := List.ofFn f)
  simpa [cString] using front.getElem h

/-- A string ends at the first NUL at the latest. -/
theorem cString_length_le_of_nul {i : Fin n} (nul : f i = 0) : (cString f).length ≤ i := by
  by_contra beyond
  have inside : i.val < (cString f).length := Nat.lt_of_not_le beyond
  have char := cString_ne_zero (List.getElem_mem inside)
  rw [cString_getElem inside] at char
  exact char nul

/-- A string shorter than its array ends at a NUL. -/
theorem cString_nul (h : (cString f).length < n) : f ⟨(cString f).length, h⟩ = 0 := by
  have split := List.takeWhile_append_dropWhile (p := fun b : Byte => decide (b ≠ 0))
    (l := List.ofFn f)
  cases rest : (List.ofFn f).dropWhile fun b : Byte => decide (b ≠ 0) with
  | nil =>
      have := congrArg List.length split
      rw [rest] at this
      simp only [List.append_nil, List.length_ofFn] at this
      exact absurd this (by simp only [cString] at h; omega)
  | cons b bs =>
      have stop := List.head?_dropWhile_not (fun b : Byte => decide (b ≠ 0)) (List.ofFn f)
      rw [rest] at split stop
      have here : (List.ofFn f)[(cString f).length]? = some b := by
        rw [← split]
        simp [cString]
      have : f ⟨(cString f).length, h⟩ = b := by simpa [h] using here
      simpa [this] using stop

/-- An array that starts with a NUL-free text and a NUL holds that text. -/
theorem cString_eq {text : List Byte} (short : text.length < n) (nonzero : ∀ b ∈ text, b ≠ 0)
    (front : ∀ j (h : j < text.length), f ⟨j, lt_trans h short⟩ = text[j])
    (nul : f ⟨text.length, short⟩ = 0) : cString f = text := by
  have taken : (List.ofFn f).take text.length = text := by
    refine List.ext_getElem (by simp; omega) fun j h h' => ?_
    simpa using front j h'
  have dropped : (List.ofFn f).drop text.length = 0 :: (List.ofFn f).drop (text.length + 1) := by
    rw [List.drop_eq_getElem_cons (by simpa using short)]
    simp [nul]
  rw [cString, ← List.take_append_drop text.length (List.ofFn f), taken, dropped,
    List.takeWhile_append_of_pos (by simpa using nonzero)]
  simp

/-- Another character in place of one of the string leaves the rest of the string. -/
theorem cString_set {g : Fin n → Byte} {b : Byte} {j : Nat} (inside : j < (cString f).length)
    (short : (cString f).length < n) (nonzero : b ≠ 0) (here : g ⟨j, lt_trans inside short⟩ = b)
    (other : ∀ i : Fin n, i.val ≠ j → g i = f i) : cString g = (cString f).set j b := by
  have length : ((cString f).set j b).length = (cString f).length := List.length_set
  refine cString_eq (by omega) (fun c member => ?_) (fun i below => ?_) ?_
  · rcases List.mem_or_eq_of_mem_set member with old | rfl
    · exact cString_ne_zero old
    · exact nonzero
  · by_cases same : j = i
    · subst same
      rw [List.getElem_set_self]
      exact here
    · rw [List.getElem_set_ne same, cString_getElem (by omega)]
      exact other _ (Ne.symm same)
  · simp only [length]
    rw [other _ (by simp only; omega)]
    exact cString_nul short

end CString

end Bytes

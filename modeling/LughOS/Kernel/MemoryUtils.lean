import LughOS.Library.Search
import LughOS.Storage.Transactions

/-!
# Moves and searches

`memmove` and `strstr` of `memory_utils.c`, and the `k_strstr` that `sandbox.c` has for itself.

A copy reads bytes that it may have overwritten before. `memmove` chooses its direction so that it
never does; `memcpy` always goes forward, which is right unless the destination starts inside the
source.

The two searches walk over the haystack in the same way and differ in how they compare. `strstr`
asks `strlen` for the length of the needle and gets 0 for a needle of more than 10000 characters,
so that it finds such a needle at the start of every haystack.
-/

namespace LughOS.Kernel

open Bytes Search Storage

/-! ## Moving bytes -/

/-- `memmove`: a move the gate refuses leaves the memory alone. -/
def memmove (h : Heap) (dest src n : Nat) : Mem :=
  if securityValidateMemoryAccess h.regions dest n true &&
      securityValidateMemoryAccess h.regions src n false then
    if dest < src then h.mem.copy dest src n
    else if src < dest then h.mem.copyBack dest src n
    else h.mem
  else h.mem

section Moves

variable {h : Heap} {dest src n : Nat}
  (writable : securityValidateMemoryAccess h.regions dest n true = true)
  (readable : securityValidateMemoryAccess h.regions src n false = true)
include writable readable

theorem memmove_eq_write : memmove h dest src n = h.mem.write dest (h.mem.read src n) := by
  rw [memmove, writable, readable, Bool.and_self, if_pos rfl]
  split
  · rename_i down
    exact Mem.copy_eq_write h.mem dest src (.inr down.le)
  · split
    · rename_i up
      exact Mem.copyBack_eq_write h.mem up.le
    · obtain rfl : dest = src := by omega
      rw [← Mem.copy_eq_write h.mem dest dest (.inr le_rfl), Mem.copy_self]

theorem memcpy_eq_write (apart : ¬(src < dest ∧ dest < src + n)) :
    memcpy h dest src n = h.mem.write dest (h.mem.read src n) := by
  rw [memcpy_eq (fun _ => writable) fun _ => readable]
  exact Mem.copy_eq_write h.mem dest src (by omega)

end Moves

/-- The destination holds the bytes of the source as they were, and nothing else changes. -/
theorem memmove_moves (h : Heap) (dest src n : Nat)
    (writable : securityValidateMemoryAccess h.regions dest n true = true)
    (readable : securityValidateMemoryAccess h.regions src n false = true) :
    (∀ i < n, memmove h dest src n (dest + i) = h.mem (src + i)) ∧
      (∀ x, x < dest ∨ dest + n ≤ x → memmove h dest src n x = h.mem x) ∧
      (¬(src < dest ∧ dest < src + n) → memcpy h dest src n = memmove h dest src n) := by
  rw [memmove_eq_write writable readable]
  refine ⟨fun i inside => ?_, fun x outside => ?_, memcpy_eq_write writable readable⟩
  · rw [Mem.write_inside h.mem dest _ i (by simpa using inside), Mem.read_getElem]
  · have apart : x + 1 ≤ dest ∨ dest + (h.mem.read src n).length ≤ x := by
      rw [Mem.read_length]
      omega
    exact Mem.write_eqOn h.mem _ apart x le_rfl (by omega)

/-- A move by one byte upwards, where a forward copy would repeat the first byte. -/
theorem memmove_moves_up :
    let h : Heap := ⟨fun x => BitVec.ofNat 8 x, memoryInit, []⟩
    (memmove h 0x1001 0x1000 3 0x1001 = 0 ∧ memmove h 0x1001 0x1000 3 0x1003 = 2) ∧
      memmove h 0x1001 0x1000 3 0x1000 = 0 := by
  have moved := memmove_moves ⟨fun x => BitVec.ofNat 8 x, memoryInit, []⟩ 0x1001 0x1000 3
    (by decide) (by decide)
  exact ⟨⟨moved.1 0 (by decide), moved.1 2 (by decide)⟩, moved.2.1 0x1000 (by decide)⟩

/-! ## Searching a string -/

/-- No string is longer than this. -/
def addressSpace : Nat := 2 ^ 32

/-- The walk over the haystack: it stops at the NUL, where the needle is found, or at an address
that may not be read. -/
def searchLoop (mem : Mem) (found goOn : Nat → Bool) : Nat → Nat → Option Nat
  | 0, _ => none
  | rounds + 1, haystack =>
      if mem haystack = 0 then none
      else if found haystack then some haystack
      else if goOn (haystack + 1) then searchLoop mem found goOn rounds (haystack + 1)
      else none

/-- The inner loop of `strstr` from character `i` on: where it stops. -/
def matchLoop (mem : Mem) (haystack needle : Nat) : Nat → Nat → Nat
  | 0, i => i
  | left + 1, i =>
      if mem (haystack + i) = 0 ∨ mem (haystack + i) ≠ mem (needle + i) then i
      else matchLoop mem haystack needle left (i + 1)

/-- `strstr`; `none` is the null pointer. -/
def strstr (h : Heap) (haystack needle : Nat) : Option Nat :=
  if !securityValidateMemoryAccess h.regions haystack 1 false ||
      !securityValidateMemoryAccess h.regions needle 1 false then none
  else
    let needleLen := (strlen h needle).1
    if needleLen = 0 then some haystack
    else
      searchLoop h.mem
        (fun a => decide (h.mem a = h.mem needle) &&
          decide (matchLoop h.mem a needle needleLen 0 = needleLen))
        (fun a => securityValidateMemoryAccess h.regions a 1 false) addressSpace haystack

/-- The inner loop of `k_strstr`: whether it comes to the end of the needle. -/
def kMatchLoop (mem : Mem) : Nat → Nat → Nat → Bool
  | 0, _, _ => false
  | rounds + 1, haystack, needle =>
      if mem haystack ≠ 0 ∧ mem needle ≠ 0 ∧ mem haystack = mem needle then
        kMatchLoop mem rounds (haystack + 1) (needle + 1)
      else decide (mem needle = 0)

def kStrstr (mem : Mem) (haystack needle : Nat) : Option Nat :=
  if mem needle = 0 then some haystack
  else searchLoop mem (fun a => kMatchLoop mem addressSpace a needle) (fun _ => true) addressSpace
    haystack

section Searches

variable {h : Heap} {mem : Mem} {a b : Nat} {hay needle : List Byte}

/-- A walk that recognises the needle finds its first occurrence. -/
theorem searchLoop_first {found goOn : Nat → Bool} (nonempty : needle ≠ [])
    (recognises : ∀ {a hay}, mem.StringAt a hay → (found a = true ↔ needle <+: hay))
    (hayAt : mem.StringAt a hay) (goes : ∀ i ≤ hay.length, goOn (a + i) = true) {rounds : Nat}
    (enough : hay.length < rounds) :
    ∃ result, FirstOccurrence needle hay result ∧
      searchLoop mem found goOn rounds a = result.map (a + ·) := by
  induction hay generalizing a rounds with
  | nil =>
      obtain ⟨rounds, rfl⟩ := Nat.exists_eq_add_of_lt enough
      refine ⟨none, .exhausted nonempty, ?_⟩
      rw [searchLoop, if_pos (hayAt.zero_iff.mpr rfl), Option.map_none]
  | cons c hay ih =>
      obtain ⟨rounds, rfl⟩ : ∃ k, rounds = k + 1 := ⟨rounds - 1, by omega⟩
      rw [searchLoop, if_neg fun zero => List.cons_ne_nil c hay (hayAt.zero_iff.mp zero)]
      by_cases start : needle <+: c :: hay
      · rw [if_pos ((recognises hayAt).mpr start)]
        exact ⟨some 0, .here start, rfl⟩
      · have next (i : Nat) (inside : i ≤ hay.length) : goOn (a + 1 + i) = true := by
          rw [Nat.add_assoc, Nat.add_comm 1]
          exact goes (i + 1) (Nat.succ_le_succ inside)
        obtain ⟨result, first, rest⟩ := ih hayAt.tail next (by simpa using enough)
        refine ⟨result.map (· + 1), first.step start, ?_⟩
        rw [if_neg fun here => start ((recognises hayAt).mp here), if_pos (next 0 (Nat.zero_le _)),
          rest, Option.map_map]
        congr 1
        funext i
        simp only [Function.comp_apply]
        omega

theorem matchLoop_eq_iff {i : Nat} (hayAt : mem.StringAt (a + i) hay)
    (needleAt : mem.StringAt (b + i) needle) :
    matchLoop mem a b needle.length i = i + needle.length ↔ needle <+: hay := by
  induction needle generalizing hay i with
  | nil => simp [matchLoop]
  | cons c needle ih =>
      rw [List.length_cons, matchLoop]
      cases hay with
      | nil =>
          rw [if_pos (.inl (hayAt.zero_iff.mpr rfl))]
          simp
      | cons d hay =>
          have nonzero : mem (a + i) ≠ 0 := fun zero => by simpa using hayAt.zero_iff.mp zero
          rw [hayAt.head, needleAt.head, List.cons_prefix_cons]
          rw [hayAt.head] at nonzero
          by_cases same : d = c
          · have rest := ih (i := i + 1) hayAt.tail needleAt.tail
            rw [if_neg (not_or.mpr ⟨nonzero, not_not.mpr same⟩), Nat.add_comm needle.length,
              ← Nat.add_assoc, rest]
            exact (and_iff_right same.symm).symm
          · rw [if_pos (.inr same)]
            refine iff_of_false (by omega) fun both => same both.1.symm

theorem kMatchLoop_iff (hayAt : mem.StringAt a hay) (needleAt : mem.StringAt b needle)
    {rounds : Nat} (enough : needle.length < rounds) :
    kMatchLoop mem rounds a b = true ↔ needle <+: hay := by
  induction needle generalizing hay a b rounds with
  | nil =>
      obtain ⟨rounds, rfl⟩ := Nat.exists_eq_add_of_lt enough
      have nul := needleAt.zero_iff.mpr rfl
      rw [kMatchLoop, if_neg fun all => all.2.1 nul]
      simp [nul]
  | cons c needle ih =>
      obtain ⟨rounds, rfl⟩ : ∃ k, rounds = k + 1 := ⟨rounds - 1, by omega⟩
      have char : mem b ≠ 0 := fun zero => by simpa using needleAt.zero_iff.mp zero
      rw [kMatchLoop]
      cases hay with
      | nil =>
          rw [if_neg fun all => all.1 (hayAt.zero_iff.mpr rfl), decide_eq_true_iff]
          exact iff_of_false char (by simp)
      | cons d hay =>
          have char' : mem a ≠ 0 := fun zero => by simpa using hayAt.zero_iff.mp zero
          rw [List.cons_prefix_cons, ← hayAt.head, ← needleAt.head]
          by_cases same : mem a = mem b
          · rw [if_pos ⟨char', char, same⟩, ih hayAt.tail needleAt.tail (by simpa using enough)]
            exact (and_iff_right same.symm).symm
          · rw [if_neg fun all => same all.2.2]
            exact iff_of_false (by simpa using char) fun both => same both.1.symm

/-- Every byte of the string may be read. -/
def Readable (h : Heap) (a : Nat) (chars : List Byte) : Prop :=
  ∀ i ≤ chars.length, securityValidateMemoryAccess h.regions (a + i) 1 false = true

theorem Readable.start (readable : Readable h a hay) :
    securityValidateMemoryAccess h.regions a 1 false = true := readable 0 (Nat.zero_le _)

theorem Readable.length_lt (readable : Readable h a hay) : hay.length < addressSpace := by
  have last := ((validate_iff Nat.one_pos).mp (readable hay.length le_rfl)).2.1
  unfold sizeMax at last
  unfold addressSpace
  omega

theorem strlen_short (needleAt : h.mem.StringAt b needle) (readable : Readable h b needle)
    (short : needle.length ≤ 10000) : (strlen h b).1 = needle.length := by
  obtain ⟨within, exact | refused⟩ :=
    strlen_stops (fun i => needleAt.char_ne_zero) needleAt.nul short
  · exact exact
  · rw [readable _ within] at refused
    cases refused

theorem strlenLoop_long (needleAt : h.mem.StringAt b needle) (readable : Readable h b needle)
    {rounds len : Nat} (long : len + rounds ≤ needle.length) :
    (strlenLoop h b rounds len).1 = 0 := by
  induction rounds generalizing len with
  | zero => rfl
  | succ rounds ih =>
      rw [strlenLoop, if_pos (readable len (by omega)), if_neg (needleAt.char_ne_zero (by omega))]
      exact ih (by omega)

theorem strlen_long (needleAt : h.mem.StringAt b needle) (readable : Readable h b needle)
    (long : 10000 < needle.length) : (strlen h b).1 = 0 := by
  rw [strlen, if_pos readable.start]
  exact strlenLoop_long needleAt readable (by omega)

theorem strstr_first (hayAt : h.mem.StringAt a hay) (needleAt : h.mem.StringAt b needle)
    (hayReadable : Readable h a hay) (needleReadable : Readable h b needle)
    (short : needle.length ≤ 10000) :
    ∃ result, FirstOccurrence needle hay result ∧ strstr h a b = result.map (a + ·) := by
  have starts : (!securityValidateMemoryAccess h.regions a 1 false ||
      !securityValidateMemoryAccess h.regions b 1 false) = false := by
    rw [hayReadable.start, needleReadable.start]
    rfl
  simp only [strstr, starts, Bool.false_eq_true, if_false,
    strlen_short needleAt needleReadable short]
  by_cases empty : needle = []
  · rw [if_pos (by simp [empty])]
    exact ⟨some 0, .here (by simp [empty]), rfl⟩
  · rw [if_neg (by simpa using empty)]
    refine searchLoop_first empty (fun {a hay} hayAt => ?_) hayAt (fun i => hayReadable i)
      hayReadable.length_lt
    have whole := matchLoop_eq_iff (i := 0) hayAt needleAt
    rw [Nat.zero_add] at whole
    rw [Bool.and_eq_true, decide_eq_true_iff, decide_eq_true_iff, whole]
    refine and_iff_right_of_imp fun start => ?_
    obtain ⟨c, rest, rfl⟩ := List.exists_cons_of_ne_nil empty
    obtain ⟨more, rfl⟩ := start
    rw [needleAt.head]
    exact hayAt.head

theorem strstr_long (needleAt : h.mem.StringAt b needle) (hayReadable : Readable h a hay)
    (needleReadable : Readable h b needle) (long : 10000 < needle.length) :
    strstr h a b = some a := by
  simp [strstr, hayReadable.start, needleReadable.start, strlen_long needleAt needleReadable long]

theorem kStrstr_first (hayAt : h.mem.StringAt a hay) (needleAt : h.mem.StringAt b needle)
    (hayReadable : Readable h a hay) (needleReadable : Readable h b needle) :
    ∃ result, FirstOccurrence needle hay result ∧ kStrstr h.mem a b = result.map (a + ·) := by
  rw [kStrstr]
  by_cases empty : needle = []
  · rw [if_pos (needleAt.zero_iff.mpr empty)]
    exact ⟨some 0, .here (by simp [empty]), rfl⟩
  · rw [if_neg fun zero => empty (needleAt.zero_iff.mp zero)]
    exact searchLoop_first empty
      (fun hayAt => kMatchLoop_iff hayAt needleAt needleReadable.length_lt) hayAt
      (fun _ _ => rfl) hayReadable.length_lt

end Searches

/-- Both searches return the first occurrence of the needle, unless the needle is too long for
`strlen` and does not stand at the start of the haystack. -/
theorem searches_agree_iff (h : Heap) (a b : Nat) (hay needle : List Byte)
    (hayAt : h.mem.StringAt a hay) (needleAt : h.mem.StringAt b needle)
    (hayReadable : Readable h a hay) (needleReadable : Readable h b needle) :
    (∃ result, FirstOccurrence needle hay result ∧ strstr h a b = result.map (a + ·) ∧
        kStrstr h.mem a b = result.map (a + ·)) ↔
      needle.length ≤ 10000 ∨ needle <+: hay := by
  obtain ⟨result, first, answer⟩ := kStrstr_first hayAt needleAt hayReadable needleReadable
  by_cases short : needle.length ≤ 10000
  · obtain ⟨result', first', answer'⟩ :=
      strstr_first hayAt needleAt hayReadable needleReadable short
    obtain rfl := first.unique first'
    exact iff_of_true ⟨result, first, answer', answer⟩ (.inl short)
  · have start := strstr_long needleAt hayReadable needleReadable (Nat.lt_of_not_le short)
    rw [or_iff_right short, start]
    constructor
    · rintro ⟨result', first', here, -⟩
      obtain ⟨i, rfl, at_a⟩ := Option.map_eq_some_iff.mp here.symm
      obtain rfl : i = 0 := by omega
      exact first'.1
    · intro start
      have here : FirstOccurrence needle hay (some 0) := .here start
      obtain rfl := first.unique here
      exact ⟨some 0, here, rfl, answer⟩

/-- The strings `"aab"` and `"ab"`. -/
def twoStrings : Heap :=
  ⟨fun x =>
    if x = 0x1000 ∨ x = 0x1001 ∨ x = 0x2000 then 0x61
    else if x = 0x1002 ∨ x = 0x2001 then 0x62 else 0, memoryInit, []⟩

theorem searches_agree_iff_overlap :
    ∃ result, FirstOccurrence ([0x61, 0x62] : List Byte) [0x61, 0x61, 0x62] result ∧
      strstr twoStrings 0x1000 0x2000 = result.map (0x1000 + ·) ∧
      kStrstr twoStrings.mem 0x1000 0x2000 = result.map (0x1000 + ·) :=
  (searches_agree_iff twoStrings 0x1000 0x2000 [0x61, 0x61, 0x62] [0x61, 0x62]
    ⟨by decide, by decide, by decide⟩ ⟨by decide, by decide, by decide⟩
    (by unfold Readable; decide) (by unfold Readable; decide)).mpr (.inl (by decide))

/-- A string of `n` characters. -/
def longString (n : Nat) : Heap :=
  ⟨fun x => if 0x2000 ≤ x ∧ x < 0x2000 + n then 0x61 else 0, memoryInit, []⟩

theorem longString_at (n : Nat) :
    (longString n).mem.StringAt 0x2000 (List.replicate n 0x61) := by
  refine ⟨fun c member => ?_, ?_, ?_⟩
  · rw [List.eq_of_mem_replicate member]
    decide
  · refine List.ext_getElem (by simp) fun i inside inside' => ?_
    have below : i < n := by simpa using inside'
    rw [Mem.read_getElem, List.getElem_replicate]
    exact if_pos ⟨by omega, by omega⟩
  · rw [List.length_replicate]
    refine if_neg ?_
    omega

theorem readable_of_no_regions {mem : Mem} {blocks : BlockTable} {a : Nat} {chars : List Byte}
    (nonnull : a ≠ 0) (fits : a + chars.length < sizeMax) : Readable ⟨mem, blocks, []⟩ a chars :=
  fun _ _ => (validate_iff Nat.one_pos).mpr ⟨by omega, by omega, by simp⟩

/-- `strstr` finds a long string in the empty one. -/
theorem long_needle_found_anywhere :
    let h := longString 10001
    let needle : List Byte := List.replicate 10001 0x61
    h.mem.StringAt 0x1000 [] ∧ h.mem.StringAt 0x2000 needle ∧
      Readable h 0x1000 [] ∧ Readable h 0x2000 needle ∧ ¬needle <:+: [] ∧
      strstr h 0x1000 0x2000 = some 0x1000 ∧ kStrstr h.mem 0x1000 0x2000 = none := by
  intro h needle
  have length : needle.length = 10001 := List.length_replicate
  have readable : Readable h 0x1000 [] := readable_of_no_regions (by decide) (by decide)
  have readable' : Readable h 0x2000 needle :=
    readable_of_no_regions (by decide) (by rw [length]; decide)
  refine ⟨⟨by simp, rfl, by decide⟩, longString_at 10001, readable, readable', ?_, ?_, ?_⟩
  · rw [List.infix_nil, ← List.length_eq_zero_iff, length]
    decide
  · exact strstr_long (longString_at 10001) readable readable' (by rw [length]; decide)
  · decide +kernel

end LughOS.Kernel

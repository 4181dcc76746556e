import Mathlib

/-!
# Stacks of 32-bit words

A memory of words, each at the address of its first byte, and a stack in it that grows
downwards. `storeAll` is a list of words at ascending addresses, so a stack that has taken a
list of words holds the reversed list; `pushAll_eq` is that statement, and the push and the
pop of several registers are read off it.

A word occupies four addresses. `bytesFrom a n` is the footprint of `n` words from `a`, given
by the offset from `a`, which makes sense at either end of the address space.
-/

abbrev Words := BitVec 32 → BitVec 32

namespace Words

/-- Consecutive words from an address. -/
def storeAll (mem : Words) (a : BitVec 32) : List (BitVec 32) → Words
  | [] => mem
  | w :: ws => Function.update (storeAll mem (a + 4) ws) a w

def readAll (mem : Words) (a : BitVec 32) : Nat → List (BitVec 32)
  | 0 => []
  | n + 1 => mem a :: readAll mem (a + 4) n

/-- The addresses of `n` words from `a`. -/
def bytesFrom (a : BitVec 32) (n : Nat) : Set (BitVec 32) := { x | (x - a).toNat < 4 * n }

variable {mem mem' : Words} {a x : BitVec 32} {n : Nat} {ws : List (BitVec 32)}

theorem mem_bytesFrom : x ∈ bytesFrom a n ↔ (x - a).toNat < 4 * n := Iff.rfl

theorem start_mem_bytesFrom (positive : 0 < n) : a ∈ bytesFrom a n := by
  simpa [mem_bytesFrom] using positive

theorem bytesFrom_tail :
    bytesFrom (a + 4) n ⊆ bytesFrom a (n + 1) := by
  intro x inside
  rw [mem_bytesFrom] at inside ⊢
  bv_omega

/-- The first words of a longer run of words. -/
theorem bytesFrom_skip {k : Nat} :
    bytesFrom (a + 4 * BitVec.ofNat 32 k) n ⊆ bytesFrom a (k + n) := by
  intro x inside
  rw [mem_bytesFrom] at inside ⊢
  bv_omega

theorem bytesFrom_mono {k : Nat} (le : n ≤ k) : bytesFrom a n ⊆ bytesFrom a k := by
  intro x inside
  rw [mem_bytesFrom] at inside ⊢
  omega

theorem start_not_mem_tail (fits : 4 * (n + 1) ≤ 2 ^ 32) : a ∉ bytesFrom (a + 4) n := by
  rw [mem_bytesFrom]
  bv_omega

theorem readAll_concat (mem : Words) (a : BitVec 32) (n : Nat) :
    readAll mem a (n + 1) = readAll mem a n ++ [mem (a + 4 * BitVec.ofNat 32 n)] := by
  induction n generalizing a with
  | zero => simp [readAll]
  | succ n ih =>
      have next : a + 4 + 4 * BitVec.ofNat 32 n = a + 4 * BitVec.ofNat 32 (n + 1) := by
        rw [BitVec.ofNat_add]
        bv_omega
      rw [readAll, ih, next]
      rfl

theorem storeAll_outside (fits : 4 * ws.length ≤ 2 ^ 32) (outside : x ∉ bytesFrom a ws.length) :
    storeAll mem a ws x = mem x := by
  induction ws generalizing a with
  | nil => rfl
  | cons w ws ih =>
      have elsewhere : x ≠ a := by
        rintro rfl
        exact outside (start_mem_bytesFrom (by simp))
      rw [storeAll, Function.update_of_ne elsewhere]
      rw [List.length_cons] at fits outside
      exact ih (by omega) fun inside => outside (bytesFrom_tail inside)

theorem readAll_congr (fits : 4 * n ≤ 2 ^ 32) (same : ∀ x ∈ bytesFrom a n, mem' x = mem x) :
    readAll mem' a n = readAll mem a n := by
  induction n generalizing a with
  | zero => rfl
  | succ n ih =>
      rw [readAll, readAll, same a (start_mem_bytesFrom (by omega)),
        ih (by omega) fun x inside => same x (bytesFrom_tail inside)]

@[simp] theorem readAll_storeAll (mem : Words) (a : BitVec 32) (fits : 4 * ws.length ≤ 2 ^ 32) :
    readAll (storeAll mem a ws) a ws.length = ws := by
  induction ws generalizing a with
  | nil => rfl
  | cons w ws ih =>
      rw [List.length_cons] at fits
      have tail : readAll (storeAll mem a (w :: ws)) (a + 4) ws.length =
          readAll (storeAll mem (a + 4) ws) (a + 4) ws.length := by
        refine readAll_congr (by omega) fun x inside => Function.update_of_ne ?_ _ _
        rintro rfl
        exact start_not_mem_tail fits inside
      rw [List.length_cons, readAll, tail, ih _ (by omega), storeAll, Function.update_self]

/-- Each word of a run of words. -/
theorem mem_of_readAll (held : readAll mem a ws.length = ws) {i : Nat} (inside : i < ws.length) :
    mem (a + 4 * BitVec.ofNat 32 i) = ws[i] := by
  induction ws generalizing a i with
  | nil => simp at inside
  | cons w ws ih =>
      rw [List.length_cons, readAll] at held
      obtain ⟨first, rest⟩ := List.cons.inj held
      cases i with
      | zero => simpa using first
      | succ i =>
          have next : a + 4 * BitVec.ofNat 32 (i + 1) = a + 4 + 4 * BitVec.ofNat 32 i := by
            rw [BitVec.ofNat_add]
            bv_omega
          rw [next]
          exact ih rest (Nat.lt_of_succ_lt_succ inside)

/-! ## Stretches of stack -/

/-- The `n` words below an address. -/
def below (a : BitVec 32) (n : Nat) : Set (BitVec 32) := bytesFrom (a - 4 * BitVec.ofNat 32 n) n

variable {k : Nat}

theorem below_below :
    below (a - 4 * BitVec.ofNat 32 k) n ⊆ below a (k + n) := by
  intro x inside
  rw [below, mem_bytesFrom] at inside ⊢
  bv_omega

theorem bytesFrom_subset_below :
    bytesFrom (a - 4 * BitVec.ofNat 32 k) k ⊆ below a (k + n) := by
  intro x inside
  rw [below, mem_bytesFrom]
  rw [mem_bytesFrom] at inside
  bv_omega

end Words

/-! ## The stack -/

structure WordStack where
  mem : Words
  sp : BitVec 32

namespace WordStack

open Words

/-- `*--sp = w`. -/
def push (s : WordStack) (w : BitVec 32) : WordStack :=
  ⟨Function.update s.mem (s.sp - 4) w, s.sp - 4⟩

def pushAll (s : WordStack) (ws : List (BitVec 32)) : WordStack := ws.foldl push s

theorem pushAll_cons (s : WordStack) (w : BitVec 32) (ws : List (BitVec 32)) :
    s.pushAll (w :: ws) = (s.push w).pushAll ws := rfl

/-- The words are in memory in the reverse order, with the last one lowest. -/
theorem pushAll_eq (s : WordStack) (ws : List (BitVec 32)) :
    s.pushAll ws = ⟨storeAll s.mem (s.sp - 4 * BitVec.ofNat 32 ws.length) ws.reverse,
      s.sp - 4 * BitVec.ofNat 32 ws.length⟩ := by
  induction ws using List.reverseRecOn with
  | nil => simp [pushAll, storeAll]
  | append_singleton ws w ih =>
      have below : s.sp - 4 * BitVec.ofNat 32 (ws ++ [w]).length =
          s.sp - 4 * BitVec.ofNat 32 ws.length - 4 := by
        rw [List.length_append, List.length_singleton, BitVec.ofNat_add]
        bv_omega
      rw [pushAll, List.foldl_concat, ← pushAll, ih, below, List.reverse_append,
        List.reverse_singleton, List.singleton_append, storeAll, BitVec.sub_add_cancel]
      rfl

end WordStack

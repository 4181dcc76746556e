import LughOS.Library.Bytes

/-!
# Flat byte memory

A memory is a total map from addresses to bytes. The operations are the ones a
freestanding program performs: storing a byte list, clearing a range, and a
byte-by-byte copy inside the same memory, forward or backward. The copies are defined by
their loops, so overlapping ranges have the meaning the loop gives them; the lemmas that
a copy transfers the source bytes ask for ranges that its direction is safe for.

`EqOn m m' a n` says that two memories agree on `n` bytes from `a`. Every
operation has one frame lemma in this form, and proofs about a whole sequence of
stores chain them instead of unfolding the stores.

A `Span` is a run of bytes that a program reads or writes; two are `Apart` if no byte is in
both. A program that returns the spans it touched is `Confined` to a region if all their bytes
lie in it.
-/

open Bytes

abbrev Mem := Nat → Byte

namespace Mem

def write (m : Mem) (a : Nat) (bs : List Byte) : Mem :=
  fun x => if a ≤ x then (bs[x - a]?).getD (m x) else m x

def read (m : Mem) (a n : Nat) : List Byte := (List.range n).map fun i => m (a + i)

def fill (m : Mem) (a n : Nat) (b : Byte) : Mem :=
  fun x => if a ≤ x ∧ x < a + n then b else m x

/-- `for (i = 0; i < n; i++) d[i] = s[i]` with both ranges in one memory. -/
def copy (m : Mem) (dst src : Nat) : Nat → Mem
  | 0 => m
  | n + 1 => fun x =>
      if x = dst + n then copy m dst src n (src + n) else copy m dst src n x

/-- `for (i = n; i > 0; i--) d[i - 1] = s[i - 1]` with both ranges in one memory. -/
def copyBack (m : Mem) (dst src : Nat) : Nat → Mem
  | 0 => m
  | n + 1 => copyBack (fun x => if x = dst + n then m (src + n) else m x) dst src n

/-- A little-endian 32-bit word at an address. -/
def readWord (m : Mem) (a : Nat) : Nat := ofBytes (m.read a 4)

def writeWord (m : Mem) (a v : Nat) : Mem := m.write a (wordBytes 4 (BitVec.ofNat 32 v))

/-- Agreement on the `n` bytes from `a`. -/
def EqOn (m m' : Mem) (a n : Nat) : Prop := ∀ x, a ≤ x → x < a + n → m x = m' x

variable {m m' m'' : Mem} {a b n k : Nat} {bs : List Byte}

theorem EqOn.refl : EqOn m m a n := fun _ _ _ => rfl

theorem EqOn.trans (h : EqOn m m' a n) (h' : EqOn m' m'' a n) : EqOn m m'' a n :=
  fun x hl hu => (h x hl hu).trans (h' x hl hu)

theorem EqOn.mono (h : EqOn m m' a n) (lower : a ≤ b) (upper : b + k ≤ a + n) :
    EqOn m m' b k := fun x hl hu => h x (by omega) (by omega)

theorem EqOn.read_eq (h : EqOn m m' a n) : m.read a n = m'.read a n := by
  refine List.map_congr_left fun i hi => ?_
  have := List.mem_range.mp hi
  exact h (a + i) (by omega) (by omega)

theorem EqOn.readWord_eq (h : EqOn m m' a 4) : m.readWord a = m'.readWord a := by
  rw [readWord, readWord, h.read_eq]

theorem fill_comm (m : Mem) (a n b k : Nat) (v : Byte) :
    (m.fill a n v).fill b k v = (m.fill b k v).fill a n v := by
  funext x
  simp only [fill]
  split <;> split <;> rfl

@[simp] theorem read_length (m : Mem) (a n : Nat) : (m.read a n).length = n := by simp [read]

theorem read_getElem (i : Nat) (hi : i < (m.read a n).length) : (m.read a n)[i] = m (a + i) := by
  simp [read]

theorem read_append (m : Mem) (a n k : Nat) :
    m.read a (n + k) = m.read a n ++ m.read (a + n) k := by
  simp only [read, List.range_add, List.map_append, List.map_map]
  congr 1
  refine List.map_congr_left fun i _ => ?_
  simp [Nat.add_assoc]

theorem write_inside (m : Mem) (a : Nat) (bs : List Byte) (i : Nat) (hi : i < bs.length) :
    m.write a bs (a + i) = bs[i] := by
  simp [write, hi]

theorem write_eqOn (m : Mem) (bs : List Byte) (apart : b + n ≤ a ∨ a + bs.length ≤ b) :
    EqOn (m.write a bs) m b n := by
  intro x hl hu
  by_cases below : a ≤ x
  · have outside : bs.length ≤ x - a := by omega
    simp [write, below, outside]
  · simp [write, below]

@[simp] theorem write_nil (m : Mem) (a : Nat) : m.write a [] = m := by
  funext x
  simp [write]

/-- A list is stored from its front to its back. -/
theorem write_append (m : Mem) (a : Nat) (bs cs : List Byte) :
    m.write a (bs ++ cs) = (m.write a bs).write (a + bs.length) cs := by
  funext x
  by_cases front : x < a + bs.length
  · have behind : ¬a + bs.length ≤ x := by omega
    by_cases below : a ≤ x
    · have inside : x - a < bs.length := by omega
      simp [write, behind, below, List.getElem?_append_left inside]
    · simp [write, behind, below]
  · have back : bs.length ≤ x - a := by omega
    have below : a ≤ x := by omega
    have behind : a + bs.length ≤ x := by omega
    simp [write, below, behind, List.getElem?_append_right back, List.getElem?_eq_none back,
      Nat.sub_sub]

@[simp] theorem read_write (m : Mem) (a : Nat) (bs : List Byte) :
    (m.write a bs).read a bs.length = bs := by
  refine List.ext_getElem (by simp) fun i hi hi' => ?_
  rw [read_getElem, write_inside m a bs i hi']

theorem read_write_of_eq (m : Mem) (a : Nat) (bs : List Byte) (hn : bs.length = n) :
    (m.write a bs).read a n = bs := by
  subst hn
  exact read_write m a bs

theorem readWord_writeWord (m : Mem) (a v : Nat) (fit : v < 2 ^ 32) :
    (m.writeWord a v).readWord a = v := by
  rw [readWord, writeWord, read_write_of_eq m a _ (wordBytes_length 4 _),
    ofBytes_wordBytes_of_le 4 _ (by decide), BitVec.toNat_ofNat, Nat.mod_eq_of_lt fit]

theorem writeWord_eqOn (m : Mem) (v : Nat) (apart : b + n ≤ a ∨ a + 4 ≤ b) :
    EqOn (m.writeWord a v) m b n :=
  write_eqOn m _ (by simpa using apart)

theorem fill_eqOn (m : Mem) (c : Byte) (apart : b + n ≤ a ∨ a + k ≤ b) :
    EqOn (m.fill a k c) m b n := by
  intro x hl hu
  have outside : ¬(a ≤ x ∧ x < a + k) := by omega
  simp [fill, outside]

theorem copy_eqOn (m : Mem) (src : Nat) (apart : b + n ≤ a ∨ a + k ≤ b) :
    EqOn (m.copy a src k) m b n := by
  induction k with
  | zero => exact EqOn.refl
  | succ k ih =>
      intro x hl hu
      have other : x ≠ a + k := by omega
      simp only [copy, other, if_false]
      exact ih (by omega) x hl hu

/-- A copy between disjoint ranges delivers the source bytes, and so does a copy
downwards. Otherwise the loop may read bytes it has already overwritten. -/
theorem read_copy (m : Mem) (dst src : Nat) (apart : src + n ≤ dst ∨ dst ≤ src) :
    (m.copy dst src n).read dst n = m.read src n := by
  induction n with
  | zero => rfl
  | succ n ih =>
      have front : (m.copy dst src (n + 1)).read dst n = m.read src n := by
        have same : EqOn (m.copy dst src (n + 1)) (m.copy dst src n) dst n := by
          intro x hl hu
          have other : x ≠ dst + n := by omega
          simp [copy, other]
        rw [same.read_eq, ih (by omega)]
      have last : m.copy dst src (n + 1) (dst + n) = m (src + n) := by
        have kept := copy_eqOn (a := dst) (b := src + n) (n := 1) (k := n) m src (by omega)
        simpa [copy] using kept (src + n) (by omega) (by omega)
      rw [read_append, read_append, front]
      simp [read, last]

theorem copy_inside (m : Mem) (dst src : Nat) (apart : src + n ≤ dst ∨ dst ≤ src) {i : Nat}
    (inside : i < n) : m.copy dst src n (dst + i) = m (src + i) := by
  have copied := congrArg (·[i]?) (read_copy m dst src apart)
  simpa [read, inside] using copied

theorem copy_eq_write (m : Mem) (dst src : Nat) (apart : src + n ≤ dst ∨ dst ≤ src) :
    m.copy dst src n = m.write dst (m.read src n) := by
  funext x
  by_cases inside : dst ≤ x ∧ x < dst + n
  · obtain ⟨i, rfl⟩ := Nat.exists_eq_add_of_le inside.1
    rw [copy_inside m dst src apart (by omega), write_inside m dst _ i (by simp; omega),
      read_getElem]
  · have kept : EqOn (m.copy dst src n) m x 1 := copy_eqOn m src (by omega)
    have written : EqOn (m.write dst (m.read src n)) m x 1 := write_eqOn m _ (by simp; omega)
    rw [kept x le_rfl (by omega), written x le_rfl (by omega)]

theorem copy_self (m : Mem) (a n : Nat) : m.copy a a n = m := by
  induction n with
  | zero => rfl
  | succ n ih =>
      funext x
      simp only [copy, ih]
      split
      · rename_i here
        rw [here]
      · rfl

theorem copyBack_eqOn (m : Mem) (src : Nat) (apart : b + n ≤ a ∨ a + k ≤ b) :
    EqOn (m.copyBack a src k) m b n := by
  induction k generalizing m with
  | zero => exact EqOn.refl
  | succ k ih =>
      intro x hl hu
      have other : x ≠ a + k := by omega
      rw [copyBack, ih _ (by omega) x hl hu]
      exact if_neg other

/-- A copy upwards from the last byte on reads every byte before it overwrites it. -/
theorem copyBack_inside (m : Mem) {dst src : Nat} (upwards : src ≤ dst) {i : Nat}
    (inside : i < n) : m.copyBack dst src n (dst + i) = m (src + i) := by
  induction n generalizing m with
  | zero => omega
  | succ n ih =>
      rw [copyBack]
      rcases Nat.lt_succ_iff_lt_or_eq.mp inside with front | rfl
      · have unread : src + i ≠ dst + n := by omega
        rw [ih _ front]
        exact if_neg unread
      · rw [copyBack_eqOn (b := dst + i) (n := 1) _ src (by omega) (dst + i) le_rfl (by omega)]
        exact if_pos rfl

theorem copyBack_eq_write (m : Mem) {dst src : Nat} (upwards : src ≤ dst) :
    m.copyBack dst src n = m.write dst (m.read src n) := by
  funext x
  by_cases inside : dst ≤ x ∧ x < dst + n
  · obtain ⟨i, rfl⟩ := Nat.exists_eq_add_of_le inside.1
    rw [copyBack_inside m upwards (by omega), write_inside m dst _ i (by simp; omega),
      read_getElem]
  · have kept : EqOn (m.copyBack dst src n) m x 1 := copyBack_eqOn m src (by omega)
    have written : EqOn (m.write dst (m.read src n)) m x 1 := write_eqOn m _ (by simp; omega)
    rw [kept x le_rfl (by omega), written x le_rfl (by omega)]

end Mem

/-! ## Touched bytes -/

structure Span where
  address : Nat
  size : Nat
  deriving DecidableEq

def Span.Apart (s t : Span) : Prop :=
  s.address + s.size ≤ t.address ∨ t.address + t.size ≤ s.address

/-- Every byte of the spans is at least `lower` and below `upper`. -/
def Confined (lower upper : Nat) (spans : List Span) : Prop :=
  ∀ span ∈ spans, ∀ x, span.address ≤ x → x < span.address + span.size → lower ≤ x ∧ x < upper

namespace Confined

variable {lower upper lower' upper' : Nat} {span : Span} {spans spans' : List Span}

theorem nil : Confined lower upper [] := fun _ member => by cases member

theorem append (h : Confined lower upper spans) (h' : Confined lower upper spans') :
    Confined lower upper (spans ++ spans') := fun span member =>
  (List.mem_append.mp member).elim (h span) (h' span)

theorem cons (inside : lower ≤ span.address ∧ span.address + span.size ≤ upper)
    (h : Confined lower upper spans) : Confined lower upper (span :: spans) := by
  intro span' member x above below
  rcases List.mem_cons.mp member with rfl | member
  · exact ⟨by omega, by omega⟩
  · exact h span' member x above below

theorem mono (h : Confined lower upper spans) (below : lower' ≤ lower) (above : upper ≤ upper') :
    Confined lower' upper' spans := fun span member x hl hu =>
  ⟨below.trans (h span member x hl hu).1, (h span member x hl hu).2.trans_le above⟩

/-- A span with a byte in it shows both of its ends. -/
theorem ends (h : Confined lower upper spans) (member : span ∈ spans) (some : 0 < span.size) :
    lower ≤ span.address ∧ span.address + span.size ≤ upper := by
  have first := h span member span.address (by omega) (by omega)
  have last := h span member (span.address + span.size - 1) (by omega) (by omega)
  omega

end Confined

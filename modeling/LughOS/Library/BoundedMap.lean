import LughOS.Library.Table

/-!
# Finite maps in tables

`BoundedMap n κ β` is a map from keys to values with at most `n` keys. An insertion needs room
only for a key that is not there yet.

A program keeps such a map in a table of `n` entries, some of them free, and searches it for the
first entry with a given key. `entries` gives the key of each entry, `none` for a free one, and
the values are kept beside it. If the keys are `Distinct` then the table is a map
(`BoundedMap.ofTable`); the lemmas say which changes of the table are an insertion or a removal,
and that there is a free entry as long as the map has room.
-/

/-- A map with at most `n` keys. -/
structure BoundedMap (n : Nat) (κ β : Type*) where
  get : κ → Option β
  bounded : {k | get k ≠ none}.encard ≤ n

namespace BoundedMap

variable {n : Nat} {κ β : Type*} {m m' : BoundedMap n κ β} {k k' : κ} {v : β}

@[ext] theorem ext (same : ∀ k, m.get k = m'.get k) : m = m' := by
  cases m
  cases m'
  congr
  funext k
  exact same k

/-- The map without entries. -/
def empty : BoundedMap n κ β where
  get := fun _ => none
  bounded := by simp

/-- There is an entry for `k`, or room for one more. -/
def HasRoom (m : BoundedMap n κ β) (k : κ) : Prop :=
  m.get k ≠ none ∨ {k | m.get k ≠ none}.encard < n

section Classical

open Classical

theorem keys_update_subset (m : BoundedMap n κ β) (k : κ) (v : Option β) :
    {k' | Function.update m.get k v k' ≠ none} ⊆ insert k {k' | m.get k' ≠ none} := by
  intro k' member
  by_cases here : k' = k
  · exact .inl here
  · exact .inr (by simpa [here] using member)

/-- The map with `v` at `k`. -/
noncomputable def insert (m : BoundedMap n κ β) (k : κ) (v : β) (room : m.HasRoom k) :
    BoundedMap n κ β where
  get := Function.update m.get k (some v)
  bounded := by
    refine (Set.encard_le_encard (m.keys_update_subset k (some v))).trans ?_
    rcases room with present | more
    · rw [Set.insert_eq_of_mem present]
      exact m.bounded
    · exact (Set.encard_insert_le _ k).trans (Order.add_one_le_of_lt more)

noncomputable def erase (m : BoundedMap n κ β) (k : κ) : BoundedMap n κ β where
  get := Function.update m.get k none
  bounded := by
    refine (Set.encard_le_encard fun k' member => ?_).trans m.bounded
    have other : k' ≠ k := by
      rintro rfl
      simp at member
    simpa [other] using member

end Classical

variable [DecidableEq κ]

theorem get_insert {room : m.HasRoom k} :
    (m.insert k v room).get = Function.update m.get k (some v) := by
  funext k'
  by_cases here : k' = k
  · subst here
    simp [insert]
  · simp [insert, here]

theorem get_erase : (m.erase k).get = Function.update m.get k none := by
  funext k'
  by_cases here : k' = k
  · subst here
    simp [erase]
  · simp [erase, here]

end BoundedMap

namespace Table

variable {n : Nat} {κ β : Type*} {entries : Fin n → Option κ} {vals : Fin n → β} {i j : Fin n}
  {k k' : κ} {v : β}

/-- No key stands in two entries. -/
def Distinct (entries : Fin n → Option κ) : Prop :=
  ∀ i j k, entries i = some k → entries j = some k → i = j

theorem encard_used_le (entries : Fin n → Option κ) : {i | entries i ≠ none}.encard ≤ n := by
  refine (Set.encard_le_encard (Set.subset_univ _)).trans ?_
  rw [Set.encard_univ, ENat.card_eq_coe_fintype_card, Fintype.card_fin]

theorem encard_used_lt_iff : {i | entries i ≠ none}.encard < n ↔ ∃ i, entries i = none := by
  constructor
  · intro fewer
    by_contra all
    push Not at all
    have : {i | entries i ≠ none} = Set.univ := Set.eq_univ_of_forall all
    rw [this, Set.encard_univ, ENat.card_eq_coe_fintype_card, Fintype.card_fin] at fewer
    exact lt_irrefl _ fewer
  · rintro ⟨i, free⟩
    have proper : {i | entries i ≠ none} ⊂ Set.univ :=
      ⟨Set.subset_univ _, fun all => all (Set.mem_univ i) free⟩
    have := (Set.toFinite _).encard_lt_encard proper
    rwa [Set.encard_univ, ENat.card_eq_coe_fintype_card, Fintype.card_fin] at this

theorem Distinct.release (distinct : Distinct entries) (i : Fin n) :
    Distinct (Function.update entries i none) := by
  have kept : ∀ {j x}, Function.update entries i none j = some x → entries j = some x := by
    intro j x here
    by_cases at_i : j = i
    · subst at_i
      simp at here
    · rwa [Function.update_of_ne at_i] at here
  intro a b x hereA hereB
  exact distinct a b x (kept hereA) (kept hereB)

variable [DecidableEq κ]

def find? (entries : Fin n → Option κ) (k : κ) : Option (Fin n) :=
  first? fun i => decide (entries i = some k)

/-- The map in the table. -/
def lookup (entries : Fin n → Option κ) (vals : Fin n → β) (k : κ) : Option β :=
  (find? entries k).map vals

theorem find?_holds (found : find? entries k = some i) : entries i = some k := by
  simpa using first?_holds found

theorem find?_eq_none_iff : find? entries k = none ↔ ∀ i, entries i ≠ some k := by
  simp [find?, first?_eq_none_iff]

/-- A key that was absent is found in the entry that receives it, and no other key is. -/
theorem find?_claim_eq_some_iff {k' : κ} (absent : find? entries k = none) :
    find? (Function.update entries i (some k)) k' = some i ↔ k' = k := by
  constructor
  · intro found
    have here := find?_holds found
    rw [Function.update_self] at here
    exact (Option.some.inj here).symm
  · rintro rfl
    refine first?_eq_some_iff.mpr ⟨by simp, fun j before => ?_⟩
    rw [Function.update_of_ne before.ne]
    exact decide_eq_false (find?_eq_none_iff.mp absent j)

theorem Distinct.find?_eq_some_iff (distinct : Distinct entries) :
    find? entries k = some i ↔ entries i = some k := by
  refine ⟨find?_holds, fun here => ?_⟩
  cases found : find? entries k with
  | none => exact absurd here (find?_eq_none_iff.mp found i)
  | some j => rw [distinct j i k (find?_holds found) here]

theorem lookup_ne_none_iff : lookup entries vals k ≠ none ↔ ∃ i, entries i = some k := by
  rw [lookup, Ne, Option.map_eq_none_iff, find?_eq_none_iff]
  push Not
  rfl

/-- The keys of the map are as many as the entries in use. -/
theorem Distinct.encard_keys (distinct : Distinct entries) (vals : Fin n → β) :
    {k | lookup entries vals k ≠ none}.encard = {i | entries i ≠ none}.encard := by
  have image : some '' {k | lookup entries vals k ≠ none} = entries '' {i | entries i ≠ none} := by
    ext x
    constructor
    · rintro ⟨k, present, rfl⟩
      obtain ⟨i, here⟩ := lookup_ne_none_iff.mp present
      exact ⟨i, by simp [here], here⟩
    · rintro ⟨i, used, rfl⟩
      obtain ⟨k, here⟩ := Option.ne_none_iff_exists'.mp used
      exact ⟨k, lookup_ne_none_iff.mpr ⟨i, here⟩, here.symm⟩
  have injective : Set.InjOn entries {i | entries i ≠ none} := by
    intro i used j _ same
    obtain ⟨k, here⟩ := Option.ne_none_iff_exists'.mp used
    exact distinct i j k here (same ▸ here)
  rw [← (Option.some_injective κ).encard_image, image, injective.encard_image]

end Table

/-- The map in a table with distinct keys. -/
def BoundedMap.ofTable {n : Nat} {κ β : Type*} [DecidableEq κ] {entries : Fin n → Option κ}
    (distinct : Table.Distinct entries) (vals : Fin n → β) : BoundedMap n κ β where
  get := Table.lookup entries vals
  bounded := by
    rw [distinct.encard_keys vals]
    exact Table.encard_used_le entries

namespace Table

variable {n : Nat} {κ β : Type*} [DecidableEq κ] {entries : Fin n → Option κ} {vals : Fin n → β}
  {i : Fin n} {k : κ} {v : β}

theorem Distinct.hasRoom_iff (distinct : Distinct entries) :
    (BoundedMap.ofTable distinct vals).HasRoom k ↔
      find? entries k ≠ none ∨ ∃ i, entries i = none := by
  have present : (BoundedMap.ofTable distinct vals).get k ≠ none ↔ find? entries k ≠ none := by
    simp [BoundedMap.ofTable, lookup]
  have fewer : {k | (BoundedMap.ofTable distinct vals).get k ≠ none}.encard < n ↔
      ∃ i, entries i = none := by
    rw [← encard_used_lt_iff, ← distinct.encard_keys vals]
    rfl
  rw [BoundedMap.HasRoom, present, fewer]

theorem Distinct.lookup_eq_some_iff (distinct : Distinct entries) :
    lookup entries vals k = some v ↔ ∃ i, entries i = some k ∧ vals i = v := by
  simp only [lookup, Option.map_eq_some_iff, distinct.find?_eq_some_iff]

/-- Writing a new value into the entry of `k`. -/
theorem Distinct.lookup_overwrite (distinct : Distinct entries) (here : entries i = some k) :
    lookup entries (Function.update vals i v) =
      Function.update (lookup entries vals) k (some v) := by
  funext k'
  ext v'
  rw [distinct.lookup_eq_some_iff]
  by_cases same : k' = k
  · subst same
    rw [Function.update_self]
    constructor
    · rintro ⟨j, there, rfl⟩
      rw [distinct j i k' there here, Function.update_self]
    · rintro ⟨⟩
      exact ⟨i, here, Function.update_self ..⟩
  · rw [Function.update_of_ne same, distinct.lookup_eq_some_iff]
    refine exists_congr fun j => and_congr_right fun there => ?_
    have other : j ≠ i := by
      rintro rfl
      exact same (Option.some.inj (there.symm.trans here))
    rw [Function.update_of_ne other]

/-- Taking a free entry for a key that is not in the table. -/
theorem Distinct.claim (distinct : Distinct entries) (absent : find? entries k = none) :
    Distinct (Function.update entries i (some k)) := by
  have missing := find?_eq_none_iff.mp absent
  intro a b x hereA hereB
  by_cases atA : a = i <;> by_cases atB : b = i
  · rw [atA, atB]
  · subst atA
    rw [Function.update_self] at hereA
    rw [Function.update_of_ne atB] at hereB
    exact absurd (hereB.trans hereA.symm) (missing b)
  · subst atB
    rw [Function.update_self] at hereB
    rw [Function.update_of_ne atA] at hereA
    exact absurd (hereA.trans hereB.symm) (missing a)
  · rw [Function.update_of_ne atA] at hereA
    rw [Function.update_of_ne atB] at hereB
    exact distinct a b x hereA hereB

theorem Distinct.lookup_claim (distinct : Distinct entries) (free : entries i = none)
    (absent : find? entries k = none) :
    lookup (Function.update entries i (some k)) (Function.update vals i v) =
      Function.update (lookup entries vals) k (some v) := by
  have claimed := distinct.claim (i := i) absent
  have missing := find?_eq_none_iff.mp absent
  funext k'
  ext v'
  rw [claimed.lookup_eq_some_iff]
  by_cases same : k' = k
  · subst same
    rw [Function.update_self]
    constructor
    · rintro ⟨j, there, rfl⟩
      have at_i : j = i := claimed j i k' there (Function.update_self ..)
      rw [at_i, Function.update_self]
    · rintro ⟨⟩
      exact ⟨i, Function.update_self .., Function.update_self ..⟩
  · rw [Function.update_of_ne same, distinct.lookup_eq_some_iff]
    refine exists_congr fun j => ?_
    by_cases at_i : j = i
    · subst at_i
      simp [free, Ne.symm same]
    · rw [Function.update_of_ne at_i, Function.update_of_ne at_i]

/-- Giving up the entry of `k`, whatever value it is left with. -/
theorem Distinct.lookup_release {vals' : Fin n → β} (distinct : Distinct entries)
    (here : entries i = some k) (others : ∀ j ≠ i, vals' j = vals j) :
    lookup (Function.update entries i none) vals' =
      Function.update (lookup entries vals) k none := by
  funext k'
  ext v'
  rw [(distinct.release i).lookup_eq_some_iff]
  by_cases same : k' = k
  · subst same
    rw [Function.update_self]
    simp only [reduceCtorEq, iff_false, not_exists, not_and]
    intro j there
    by_cases at_i : j = i
    · subst at_i
      simp at there
    · rw [Function.update_of_ne at_i] at there
      exact absurd (distinct j i k' there here) at_i
  · rw [Function.update_of_ne same, distinct.lookup_eq_some_iff]
    refine exists_congr fun j => ?_
    by_cases at_i : j = i
    · subst at_i
      simp [here, Ne.symm same]
    · rw [Function.update_of_ne at_i, others j at_i]

end Table

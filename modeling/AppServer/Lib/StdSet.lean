import Mathlib.Order.Lattice
import Mathlib.Data.List.Perm.Basic
import Mathlib.Data.List.Nodup
import Mathlib.Order.Lex

/-!
# Ordered sets

`StdSet key` is the C++ `std::set` whose comparison orders its elements by
`key`: the elements in strictly increasing order of key, so that no two of
them are equivalent. `insert` leaves the set as it was where an equivalent
element is present, `erase` removes by equivalence, and `first?` is
`begin()`.
-/

namespace AppServer

namespace Lib

/-- A set ordered by a key, its elements listed from the least key up. -/
structure StdSet {α κ : Type*} [LinearOrder κ] (key : α → κ) where
  /-- The elements, in the order an iterator meets them. -/
  toList : List α
  /-- No two elements are equivalent, and they are met in order. -/
  sorted : toList.Pairwise fun a b => key a < key b
  deriving DecidableEq

namespace StdSet

variable {α κ : Type*} [LinearOrder κ] {key : α → κ}

/-- The insertion on the list of elements. -/
def insertList (key : α → κ) (a : α) : List α → List α
  | [] => [a]
  | b :: l =>
    if key a < key b then a :: b :: l
    else if key b < key a then b :: insertList key a l
    else b :: l

variable {a b : α} {l : List α}

theorem mem_of_mem_insertList (h : b ∈ insertList key a l) : b = a ∨ b ∈ l := by
  induction l with
  | nil => exact Or.inl (List.mem_singleton.1 h)
  | cons c l ih =>
    rw [insertList] at h
    split at h
    · exact List.mem_cons.1 h
    · split at h
      · rcases List.mem_cons.1 h with rfl | h
        · exact Or.inr List.mem_cons_self
        · exact (ih h).imp_right (List.mem_cons_of_mem c)
      · exact Or.inr h

theorem pairwise_insertList (h : l.Pairwise fun a b => key a < key b) :
    (insertList key a l).Pairwise fun a b => key a < key b := by
  induction l with
  | nil => exact List.pairwise_singleton _ _
  | cons c l ih =>
    obtain ⟨hc, hl⟩ := List.pairwise_cons.1 h
    rw [insertList]
    split
    · rename_i hac
      refine List.pairwise_cons.2 ⟨fun b hb => ?_, h⟩
      rcases List.mem_cons.1 hb with rfl | hb
      · exact hac
      · exact hac.trans (hc b hb)
    · split
      · rename_i hca
        refine List.pairwise_cons.2 ⟨fun b hb => ?_, ih hl⟩
        rcases mem_of_mem_insertList hb with rfl | hb
        · exact hca
        · exact hc b hb
      · exact h

/-- Where nothing equivalent is present the insertion adds its element. -/
theorem perm_insertList (h : ∀ b ∈ l, key b ≠ key a) :
    (insertList key a l).Perm (a :: l) := by
  induction l with
  | nil => exact List.Perm.refl _
  | cons c l ih =>
    have hl : ∀ b ∈ l, key b ≠ key a := fun b hb => h b (List.mem_cons_of_mem c hb)
    rw [insertList]
    split
    · exact List.Perm.refl _
    · rename_i hac
      have hca : key c < key a :=
        lt_of_le_of_ne (not_lt.1 hac) (h c List.mem_cons_self)
      rw [if_pos hca]
      exact ((ih hl).cons c).trans (List.Perm.swap a c l)

/-- It adds one element at most. -/
theorem length_insertList_le : (insertList key a l).length ≤ l.length + 1 := by
  induction l with
  | nil => exact Nat.le_refl 1
  | cons c l ih =>
    rw [insertList]
    split
    · exact Nat.le_refl _
    · split
      · simpa using ih
      · exact Nat.le_succ _

/-- An element that is present is not added again. -/
theorem insertList_of_mem (h : a ∈ l) (hl : l.Pairwise fun a b => key a < key b) :
    insertList key a l = l := by
  induction l with
  | nil => cases h
  | cons c l ih =>
    obtain ⟨hc, hl⟩ := List.pairwise_cons.1 hl
    rcases List.mem_cons.1 h with rfl | h
    · simp [insertList]
    · have hca := hc a h
      rw [insertList, if_neg (not_lt.2 hca.le), if_pos hca, ih h hl]

/-- The empty set. -/
def empty : StdSet key := ⟨[], List.Pairwise.nil⟩

/-- `insert`. -/
def insert (s : StdSet key) (a : α) : StdSet key :=
  ⟨insertList key a s.toList, pairwise_insertList s.sorted⟩

/-- `erase`, by equivalence. -/
def erase (s : StdSet key) (a : α) : StdSet key :=
  ⟨s.toList.filter fun b => key b ≠ key a, s.sorted.filter _⟩

/-- `*begin()`, where the set is not empty. -/
def first? (s : StdSet key) : Option α := s.toList.head?

variable {s : StdSet key}

@[simp] theorem toList_empty : (empty : StdSet key).toList = [] := rfl

theorem first?_eq_none : s.first? = none ↔ s.toList = [] := List.head?_eq_none_iff

theorem mem_of_first? (h : s.first? = some a) : a ∈ s.toList := List.mem_of_mem_head? h

/-- `begin()` has the least key. -/
theorem first?_le (h : s.first? = some a) (hb : b ∈ s.toList) : key a ≤ key b := by
  obtain ⟨l, hl⟩ := List.head?_eq_some_iff.1 h
  have hsorted := s.sorted
  rw [hl] at hsorted hb
  rcases List.mem_cons.1 hb with rfl | hb
  · exact le_rfl
  · exact ((List.pairwise_cons.1 hsorted).1 b hb).le

/-- Elements with one key are one element. -/
theorem eq_of_key_eq (ha : a ∈ s.toList) (hb : b ∈ s.toList) (h : key a = key b) : a = b := by
  have hs : (s.toList.map key).Nodup := List.pairwise_map.2 (s.sorted.imp fun h => ne_of_lt h)
  exact List.inj_on_of_nodup_map hs ha hb h

/-- It is the one element no other has a lesser key than. -/
theorem first?_eq_some_iff :
    s.first? = some a ↔ a ∈ s.toList ∧ ∀ b ∈ s.toList, key a ≤ key b := by
  constructor
  · exact fun h => ⟨mem_of_first? h, fun b hb => first?_le h hb⟩
  · rintro ⟨ha, hle⟩
    cases hf : s.first? with
    | none => simp [first?_eq_none.1 hf] at ha
    | some c =>
      have hc := mem_of_first? hf
      rw [eq_of_key_eq hc ha (le_antisymm (first?_le hf ha) (hle c hc))]

theorem nodup (s : StdSet key) : s.toList.Nodup :=
  s.sorted.imp fun {a b} (h : key a < key b) (he : a = b) => absurd h (he ▸ lt_irrefl _)

theorem mem_of_mem_insert (h : b ∈ (s.insert a).toList) : b = a ∨ b ∈ s.toList :=
  mem_of_mem_insertList h

theorem length_insert_le : (s.insert a).toList.length ≤ s.toList.length + 1 :=
  length_insertList_le

theorem perm_insert (h : ∀ b ∈ s.toList, key b ≠ key a) :
    (s.insert a).toList.Perm (a :: s.toList) :=
  perm_insertList h

theorem toList_insert_of_empty (h : s.toList = []) : (s.insert a).toList = [a] := by
  show insertList key a s.toList = [a]
  rw [h]
  rfl

/-- Membership after an insertion, for a key that tells all elements apart. -/
theorem mem_insert_of_injective (hinj : Function.Injective key) :
    b ∈ (s.insert a).toList ↔ b = a ∨ b ∈ s.toList := by
  by_cases ha : a ∈ s.toList
  · show b ∈ insertList key a s.toList ↔ _
    rw [insertList_of_mem ha s.sorted]
    constructor
    · exact Or.inr
    · rintro (rfl | h)
      · exact ha
      · exact h
  · have hne : ∀ c ∈ s.toList, key c ≠ key a := fun c hc he => ha (hinj he ▸ hc)
    rw [(perm_insert hne).mem_iff, List.mem_cons]

@[simp] theorem mem_erase : b ∈ (s.erase a).toList ↔ b ∈ s.toList ∧ key b ≠ key a := by
  simp [erase]

/-- Erasing an element takes out that element and nothing else. -/
theorem perm_erase (h : a ∈ s.toList) : s.toList.Perm (a :: (s.erase a).toList) := by
  refine (List.perm_ext_iff_of_nodup s.nodup (List.nodup_cons.2 ⟨?_, (s.erase a).nodup⟩)).2
    fun b => ?_
  · simp
  · rw [List.mem_cons, mem_erase]
    constructor
    · intro hb
      by_cases hk : key b = key a
      · exact Or.inl (eq_of_key_eq hb h hk)
      · exact Or.inr ⟨hb, hk⟩
    · rintro (rfl | hb)
      · exact h
      · exact hb.1

end StdSet

end Lib

end AppServer

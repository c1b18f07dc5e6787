import Mathlib.Data.List.Basic
import Mathlib.Order.Lattice

-- When sorting by two orders gives the same list, and comparisons by one key after another.
namespace Sorting
variable {α : Type u} {le le' : α → α → Bool} {l : List α}

-- Of two members of a list with all pairs related, one is related to the other.
theorem related_either {R : α → α → Prop} {l : List α} (pairwise : l.Pairwise R) {a b : α} (first : a ∈ l) (second : b ∈ l)
    (different : a ≠ b) : R a b ∨ R b a := by
  induction pairwise with
  | nil => cases first
  | @cons x rest related _ ih =>
      rcases List.mem_cons.mp first with head | later
      · exact .inl (head ▸ related b ((List.mem_cons.mp second).resolve_left (head ▸ Ne.symm different)))
      · rcases List.mem_cons.mp second with head | later'
        · exact .inr (head ▸ related a later)
        · exact ih later later'

structure Orders (le : α → α → Bool) (l : List α) : Prop where
  trans : ∀ a b c, le a b = true → le b c = true → le a c = true
  total : ∀ a b, (le a b || le b a) = true
  antisymm : ∀ a ∈ l, ∀ b ∈ l, le a b = true → le b a = true → a = b

theorem sorted (orders : Orders le l) : (l.mergeSort le).Pairwise (fun a b => le a b = true) :=
  List.pairwise_mergeSort orders.trans orders.total l

theorem same_sort_iff (orders : Orders le l) (orders' : Orders le' l) :
    l.mergeSort le = l.mergeSort le' ↔ ∀ a ∈ l, ∀ b ∈ l, le a b = true → le' a b = true := by
  constructor
  · intro same a first b second before
    by_cases equal : a = b
    · subst equal
      simpa using orders'.total a a
    · have both : (l.mergeSort le).Pairwise (fun a b => le a b = true ∧ le' a b = true) :=
        (sorted orders).and (by rw [same]; exact sorted orders')
      rcases related_either both (List.mem_mergeSort.mpr first) (List.mem_mergeSort.mpr second) equal with forward | backward
      · exact forward.2
      · exact absurd (orders.antisymm a first b second before backward.1) equal
  · intro stronger
    refine @List.Perm.eq_of_pairwise α (fun a b => le' a b = true) _ _ ?_ ?_ (sorted orders')
      ((List.mergeSort_perm l le).trans (List.mergeSort_perm l le').symm)
    · intro a b first second
      exact orders'.antisymm a (List.mem_mergeSort.mp first) b (List.mem_mergeSort.mp second)
    · refine (sorted orders).imp_of_mem fun first second before => ?_
      exact stronger _ (List.mem_mergeSort.mp first) _ (List.mem_mergeSort.mp second) before

-- What sorting asks of a comparison.
structure Ranks (le : α → α → Bool) : Prop where
  trans : ∀ a b c, le a b = true → le b c = true → le a c = true
  total : ∀ a b, (le a b || le b a) = true

section
variable {κ : Type v} [LinearOrder κ] (key : α → κ)

def by_key (a b : α) : Bool := decide (key a ≤ key b)

-- A key is compared first, and the rest where the keys agree.
def first_by (rest : α → α → Bool) (a b : α) : Bool := if key a ≠ key b then decide (key a ≤ key b) else rest a b

theorem first_by_iff (rest : α → α → Bool) (a b : α) :
    first_by key rest a b = true ↔ key a < key b ∨ key a = key b ∧ rest a b = true := by
  unfold first_by
  by_cases same : key a = key b
  · simp [same]
  · rw [if_pos same,decide_eq_true_eq]
    exact ⟨fun below => .inl (lt_of_le_of_ne below same),fun h => h.elim le_of_lt fun both => absurd both.1 same⟩

theorem by_key_ranks : Ranks (by_key key) where
  trans a b c := by simpa [by_key] using le_trans
  total a b := by simpa [by_key] using le_total (key a) (key b)

theorem first_by_ranks {rest : α → α → Bool} (ranks : Ranks rest) : Ranks (first_by key rest) where
  trans a b c := by
    rw [first_by_iff,first_by_iff,first_by_iff]
    rintro (lower | ⟨same,before⟩) (lower' | ⟨same',before'⟩)
    · exact .inl (lt_trans lower lower')
    · exact .inl (same' ▸ lower)
    · exact .inl (same ▸ lower')
    · exact .inr ⟨same.trans same',ranks.trans a b c before before'⟩
  total a b := by
    rw [Bool.or_eq_true,first_by_iff,first_by_iff]
    rcases lt_trichotomy (key a) (key b) with lower | same | higher
    · exact .inl (.inl lower)
    · rcases Bool.or_eq_true _ _ ▸ ranks.total a b with before | after
      · exact .inl (.inr ⟨same,before⟩)
      · exact .inr (.inr ⟨same.symm,after⟩)
    · exact .inr (.inl higher)

end

theorem Ranks.sorted {le : α → α → Bool} (ranks : Ranks le) (l : List α) :
    (l.mergeSort le).Pairwise (fun a b => le a b = true) := List.pairwise_mergeSort ranks.trans ranks.total l

end Sorting

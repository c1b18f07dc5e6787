import Mathlib.Data.List.Basic
import Mathlib.Data.List.TakeDrop

-- Cutting a range of rows into consecutive intervals.
namespace Cuts
variable {α : Type u}

abbrev Cut := Nat × Nat

-- The intervals follow each other from `a` to `b`, without gap or overlap, none empty.
inductive Consecutive : Nat → List Cut → Nat → Prop where
  | nil (a) : Consecutive a [] a
  | cons {a e b rest} : a < e → Consecutive e rest b → Consecutive a ((a,e) :: rest) b

def slice (cut : Cut) (xs : List α) : List α := (xs.drop cut.1).take (cut.2 - cut.1)

theorem Consecutive.le {cuts : List Cut} (run : Consecutive a cuts b) : a ≤ b := by
  induction run with
  | nil => exact Nat.le_refl _
  | cons grows _ ih => omega

theorem Consecutive.bounds {cuts : List Cut} (run : Consecutive a cuts b) (member : cut ∈ cuts) :
    a ≤ cut.1 ∧ cut.1 < cut.2 ∧ cut.2 ≤ b := by
  induction run with
  | nil => cases member
  | cons grows rest ih =>
      rcases List.mem_cons.mp member with rfl | later
      · exact ⟨Nat.le_refl _,grows,rest.le⟩
      · obtain ⟨low,inner,high⟩ := ih later
        exact ⟨by omega,inner,high⟩

theorem Consecutive.covers {cuts : List Cut} (run : Consecutive a cuts b) (low : a ≤ j) (high : j < b) :
    ∃ cut ∈ cuts, cut.1 ≤ j ∧ j < cut.2 := by
  induction run with
  | nil => omega
  | @cons a e b rest grows _ ih =>
      by_cases first : j < e
      · exact ⟨(a,e),List.mem_cons_self,low,first⟩
      · obtain ⟨cut,member,inside⟩ := ih (by omega) high
        exact ⟨cut,List.mem_cons_of_mem _ member,inside⟩

theorem Consecutive.last {cuts : List Cut} (run : Consecutive a cuts b) (filled : cuts ≠ []) :
    (cuts.getLast filled).2 = b := by
  induction run with
  | nil => exact absurd rfl filled
  | @cons a e b rest grows tail ih =>
      cases rest with
      | nil => cases tail; rfl
      | cons next rest =>
          rw [List.getLast_cons (by simp)]
          exact ih (by simp)

theorem Consecutive.single {cut : Cut} (run : Consecutive a [cut] b) : cut = (a,b) := by
  cases run with
  | cons _ rest => cases rest; rfl

theorem getElem?_slice {cut : Cut} {xs : List α} (inside : j < cut.2 - cut.1) :
    (slice cut xs)[j]? = xs[cut.1 + j]? := by
  simp [slice,inside]

end Cuts

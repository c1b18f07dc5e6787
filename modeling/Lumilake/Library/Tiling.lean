import Mathlib.Data.List.Basic
import Mathlib.Data.List.Perm.Basic

-- Runs of values placed at offsets of one fixed range. Written over a blank
-- range in any order, pieces that tile it leave their concatenation by offset.
namespace Tiling
variable {α : Type u}

structure Piece (α : Type u) where
  start : Nat
  values : List α

def Piece.stop (p : Piece α) : Nat := p.start + p.values.length

def Piece.Covers (p : Piece α) (i : Nat) : Prop := p.start ≤ i ∧ i < p.stop

def Piece.at (p : Piece α) (i : Nat) : Option α := if p.start ≤ i then p.values[i - p.start]? else none

def Apart (p q : Piece α) : Prop := ∀ i, ¬ (p.Covers i ∧ q.Covers i)

-- for idx, value in enumerate(values, start): target[idx] = value
def write : List α → Nat → List α → List α
  | target,_,[] => target
  | target,idx,value :: rest => write (target.set idx value) (idx + 1) rest

-- The range with the pieces on it, and a blank wherever there is none.
def paint (blank : α) (total : Nat) (pieces : List (Piece α)) : List α :=
  (List.range total).map (fun i => (pieces.findSome? (·.at i)).getD blank)

structure Tiles (total : Nat) (pieces : List (Piece α)) : Prop where
  fits : ∀ p ∈ pieces, p.stop ≤ total
  apart : pieces.Pairwise Apart
  full : ∀ i < total, ∃ p ∈ pieces, p.Covers i

theorem Apart.symm {p q : Piece α} (apart : Apart p q) : Apart q p := fun i both => apart i ⟨both.2,both.1⟩

theorem Piece.covers_congr {p : Piece α} {q : Piece γ} (start : p.start = q.start)
    (length : p.values.length = q.values.length) (i : Nat) : p.Covers i ↔ q.Covers i := by
  simp only [Piece.Covers,Piece.stop,start,length]

-- Only the offsets and the lengths count.
theorem Tiles.congr {items : List δ} {f : δ → Piece α} {h : δ → Piece γ}
    (same : ∀ x ∈ items, (f x).start = (h x).start ∧ (f x).values.length = (h x).values.length)
    (tiles : Tiles total (items.map f)) : Tiles total (items.map h) := by
  have covers : ∀ x ∈ items, ∀ i, (f x).Covers i ↔ (h x).Covers i :=
    fun x member => Piece.covers_congr (same x member).1 (same x member).2
  refine ⟨?_,?_,?_⟩
  · intro p member
    obtain ⟨x,inside,rfl⟩ := List.mem_map.mp member
    have fits := tiles.fits (f x) (List.mem_map_of_mem inside)
    simpa only [Piece.stop,(same x inside).1,(same x inside).2] using fits
  · rw [List.pairwise_map] at *
    refine (List.pairwise_map.mp tiles.apart).imp_of_mem ?_
    intro x y left right apart i both
    exact apart i ⟨(covers x left i).mpr both.1,(covers y right i).mpr both.2⟩
  · intro i inside
    obtain ⟨p,member,hit⟩ := tiles.full i inside
    obtain ⟨x,present,rfl⟩ := List.mem_map.mp member
    exact ⟨h x,List.mem_map_of_mem present,(covers x present i).mp hit⟩

theorem length_write (target : List α) (start : Nat) (values : List α) :
    (write target start values).length = target.length := by
  induction values generalizing target start with
  | nil => rfl
  | cons value rest ih => rw [write,ih,List.length_set]

theorem getElem?_write (target : List α) (start : Nat) (values : List α) (i : Nat) :
    (write target start values)[i]? =
      if start ≤ i ∧ i < start + values.length ∧ i < target.length then values[i - start]? else target[i]? := by
  induction values generalizing target start with
  | nil =>
      have outside : ¬ (start ≤ i ∧ i < start + ([] : List α).length ∧ i < target.length) := by
        intro bounds
        have short := bounds.2.1
        simp only [List.length_nil] at short
        omega
      rw [if_neg outside]; rfl
  | cons value rest ih =>
      rw [write,ih,List.length_set,List.getElem?_set]
      by_cases first : start = i
      · subst i
        have passed : ¬ (start + 1 ≤ start ∧ start < start + 1 + rest.length ∧ start < target.length) := by omega
        rw [if_neg passed,if_pos rfl]
        by_cases inside : start < target.length
        · simp [inside]
        · simp [inside]
      · rw [if_neg first]
        by_cases later : start + 1 ≤ i ∧ i < start + 1 + rest.length ∧ i < target.length
        · have whole : start ≤ i ∧ i < start + (value :: rest).length ∧ i < target.length := by
            simp only [List.length_cons]; omega
          have shift : i - start = (i - (start + 1)) + 1 := by omega
          rw [if_pos later,if_pos whole,shift,List.getElem?_cons_succ]
        · have missed : ¬ (start ≤ i ∧ i < start + (value :: rest).length ∧ i < target.length) := by
            simp only [List.length_cons]; omega
          rw [if_neg later,if_neg missed]

end Tiling

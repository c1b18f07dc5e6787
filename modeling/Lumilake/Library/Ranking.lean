import Mathlib.Data.Finset.Card
import Mathlib.Data.Finset.Filter
import Mathlib.Logic.Relation

-- A relation without a cycle between finitely many things is one that follows a rank.
namespace Ranking
open Relation
variable {α : Type u} {r : α → α → Prop}

theorem acyclic_of_rank (rank : α → Nat) (ranked : ∀ a b, r a b → rank a < rank b) (a : α) : ¬ TransGen r a a := by
  intro cycle
  have grows : ∀ b, TransGen r a b → rank a < rank b := by
    intro b path
    induction path with
    | single step => exact ranked _ _ step
    | tail _ step ih => exact ih.trans (ranked _ _ step)
  exact Nat.lt_irrefl _ (grows a cycle)

theorem rank_of_acyclic {nodes : List α} (inside : ∀ a b, r a b → a ∈ nodes) (acyclic : ∀ a, ¬ TransGen r a a) :
    ∃ rank : α → Nat, ∀ a b, r a b → rank a < rank b := by
  classical
  refine ⟨fun b => (nodes.toFinset.filter fun a => TransGen r a b).card,fun a b step => Finset.card_lt_card ?_⟩
  refine Finset.ssubset_iff_of_subset (fun c member => ?_) |>.mpr ⟨a,?_,?_⟩
  · rw [Finset.mem_filter] at member ⊢
    exact ⟨member.1,member.2.tail step⟩
  · exact Finset.mem_filter.mpr ⟨List.mem_toFinset.mpr (inside a b step),.single step⟩
  · exact fun member => acyclic a (Finset.mem_filter.mp member).2

end Ranking

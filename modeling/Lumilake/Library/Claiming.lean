import Mathlib.Data.List.Nodup
import Mathlib.Data.List.Perm.Subperm
import Lumilake.Library.Fallible

-- Loops that give keys away one after the other and stop at a key given before.
namespace Claiming
open Fallible
variable {ε : Type u} {σ ι κ : Type v} {f : σ → ι → Except ε σ} {held : σ → κ → Prop} {fit : ι → Prop} {keys : ι → List κ}

-- A turn goes through when its item fits and none of its keys is held, twice counted as held.
structure Claims (f : σ → ι → Except ε σ) (held : σ → κ → Prop) (fit : ι → Prop) (keys : ι → List κ) : Prop where
  accepts : ∀ s i, (∃ after, f s i = .ok after) ↔ fit i ∧ (keys i).Nodup ∧ ∀ k ∈ keys i, ¬held s k
  grows : ∀ s i after, f s i = .ok after → ∀ k, held after k ↔ held s k ∨ k ∈ keys i

namespace Claims
variable (claims : Claims f held fit keys)
include claims

theorem loop_grows (items : List ι) (s after : σ) (done : items.foldlM f s = .ok after) (k : κ) :
    held after k ↔ held s k ∨ k ∈ items.flatMap keys := by
  induction items generalizing s with
  | nil => cases done; simp
  | cons i rest ih =>
      rw [List.foldlM_cons] at done
      obtain ⟨next,turn,later⟩ := bind_ok done
      rw [ih next later,claims.grows s i next turn,List.flatMap_cons,List.mem_append,or_assoc]

theorem loop_accepts (items : List ι) (s : σ) : (∃ after, items.foldlM f s = .ok after) ↔
    (∀ i ∈ items, fit i) ∧ (items.flatMap keys).Nodup ∧ ∀ k ∈ items.flatMap keys, ¬held s k := by
  induction items generalizing s with
  | nil => simp [pure,Except.pure]
  | cons i rest ih =>
      rw [List.foldlM_cons,List.flatMap_cons,List.nodup_append]
      constructor
      · rintro ⟨after,done⟩
        obtain ⟨next,turn,later⟩ := bind_ok done
        obtain ⟨fits,distinct,free⟩ := (claims.accepts s i).mp ⟨next,turn⟩
        obtain ⟨others,apart,unheld⟩ := (ih next).mp ⟨after,later⟩
        have grown := claims.grows s i next turn
        refine ⟨List.forall_mem_cons.mpr ⟨fits,others⟩,⟨distinct,apart,?_⟩,?_⟩
        · rintro k here _ there rfl
          exact unheld k there ((grown k).mpr (.inr here))
        · intro k member
          rcases List.mem_append.mp member with here | there
          · exact free k here
          · exact fun holds => unheld k there ((grown k).mpr (.inl holds))
      · rintro ⟨fits,⟨distinct,apart,different⟩,free⟩
        obtain ⟨next,turn⟩ := (claims.accepts s i).mpr
          ⟨fits i List.mem_cons_self,distinct,fun k here => free k (List.mem_append_left _ here)⟩
        have unheld : ∀ k ∈ rest.flatMap keys, ¬held next k := by
          intro k there holds
          rcases (claims.grows s i next turn k).mp holds with old | here
          · exact free k (List.mem_append_right _ there) old
          · exact different k here k there rfl
        obtain ⟨after,later⟩ := (ih next).mpr ⟨fun j member => fits j (List.mem_cons_of_mem _ member),apart,unheld⟩
        rw [turn]
        exact ⟨after,later⟩

-- A loop of claiming turns is itself one.
theorem loop : Claims (fun s (items : List ι) => items.foldlM f s) held (fun items => ∀ i ∈ items, fit i)
    (fun items => items.flatMap keys) where
  accepts s items := claims.loop_accepts items s
  grows s items after done := claims.loop_grows items s after done

end Claims

theorem flatMap_subperm {f g : ι → List κ} (items : List ι) (each : ∀ i ∈ items, (f i).Subperm (g i)) :
    (items.flatMap f).Subperm (items.flatMap g) := by
  induction items with
  | nil => exact List.Subperm.refl _
  | cons i rest ih =>
      rw [List.flatMap_cons,List.flatMap_cons]
      exact (each i List.mem_cons_self).append (ih fun j member => each j (List.mem_cons_of_mem _ member))

-- Whoever claims fewer keys where less is held also goes through.
theorem claims_fewer {few many : List κ} {less more : κ → Prop} (fewer : few.Subperm many) (inside : ∀ k, less k → more k)
    (free : many.Nodup ∧ ∀ k ∈ many, ¬more k) : few.Nodup ∧ ∀ k ∈ few, ¬less k := by
  obtain ⟨l,perm,sub⟩ := fewer
  refine ⟨perm.nodup_iff.mp (free.1.sublist sub),fun k member holds => ?_⟩
  exact free.2 k (sub.subset (perm.mem_iff.mpr member)) (inside k holds)

end Claiming

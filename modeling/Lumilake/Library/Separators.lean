import Mathlib.Data.List.Basic
import Mathlib.Data.List.Infix

-- Lists that are joined by a separator, and where they come apart again.
namespace Separators
variable {α : Type u} {c : α} {front front' back back' more more' : List α}

-- A front without the separator ends where the separator first stands.
theorem front_of (clean : c ∉ front) (clean' : c ∉ front') (same : front ++ c :: more = front' ++ c :: more') :
    front = front' ∧ more = more' := by
  induction front generalizing front' with
  | nil =>
      cases front' with
      | nil => exact ⟨rfl,(List.cons.inj same).2⟩
      | cons d ds => exact absurd ((List.cons.inj same).1 ▸ List.mem_cons_self) clean'
  | cons d ds ih =>
      cases front' with
      | nil => exact absurd ((List.cons.inj same).1 ▸ List.mem_cons_self) clean
      | cons e es =>
          obtain ⟨heads,tails⟩ := List.cons.inj same
          obtain ⟨fronts,rests⟩ := ih (fun inside => clean (List.mem_cons_of_mem _ inside))
            (fun inside => clean' (List.mem_cons_of_mem _ inside)) tails
          exact ⟨by rw [heads,fronts],rests⟩

theorem back_of (clean : c ∉ back) (clean' : c ∉ back') (same : front ++ c :: back = front' ++ c :: back') :
    front = front' ∧ back = back' := by
  have flipped : back.reverse ++ c :: front.reverse = back'.reverse ++ c :: front'.reverse := by
    simpa using congrArg List.reverse same
  obtain ⟨backs,fronts⟩ := front_of (by simpa using clean) (by simpa using clean') flipped
  exact ⟨List.reverse_injective fronts,List.reverse_injective backs⟩

-- A doubled separator is found again behind a front that holds none and does not end in half of one.
theorem doubled_of (clean : ¬ [c,c] <:+: front ++ [c]) (clean' : ¬ [c,c] <:+: front' ++ [c])
    (same : front ++ c :: c :: more = front' ++ c :: c :: more') : front = front' ∧ more = more' := by
  have begins : ∀ {tail rest rest' : List α}, ¬ [c,c] <:+: tail ++ [c] → tail ≠ [] → c :: c :: rest ≠ tail ++ c :: c :: rest' := by
    intro tail rest rest' clean some_tail same
    match tail with
    | [] => exact some_tail rfl
    | [d] =>
        obtain ⟨rfl,_⟩ := List.cons.inj same
        exact clean ⟨[],[],rfl⟩
    | d :: e :: es =>
        obtain ⟨rfl,inner⟩ := List.cons.inj same
        obtain ⟨rfl,_⟩ := List.cons.inj inner
        exact clean ⟨[],es ++ [c],by simp⟩
  induction front generalizing front' with
  | nil =>
      cases front' with
      | nil => simpa using same
      | cons d ds => exact absurd same (begins clean' (List.cons_ne_nil _ _))
  | cons d ds ih =>
      cases front' with
      | nil => exact absurd same.symm (begins clean (List.cons_ne_nil _ _))
      | cons e es =>
          obtain ⟨heads,tails⟩ := List.cons.inj same
          obtain ⟨fronts,rests⟩ := ih (fun inside => clean (inside.trans (List.suffix_cons d _).isInfix))
            (fun inside => clean' (inside.trans (List.suffix_cons e _).isInfix)) tails
          exact ⟨by rw [heads,fronts],rests⟩

end Separators

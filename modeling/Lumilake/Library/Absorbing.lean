import Mathlib.Data.List.Basic

-- A store of objects that are only ever added and rewritten in place. An object
-- is final by what is seen of it, and a final one must be seen the same for good.
namespace Absorbing
variable {α : Type u} {β : Type v} {Final : β → Prop} {seen : α → β}

def Kept (Final : β → Prop) (seen : α → β) (before after : List α) : Prop :=
  ∀ (r : Nat) (a : α), before[r]? = some a → Final (seen a) → ∃ b, after[r]? = some b ∧ seen b = seen a

theorem Kept.refl (store : List α) : Kept Final seen store store :=
  fun _ a found _ => ⟨a,found,rfl⟩

theorem Kept.trans (first : Kept Final seen s t) (second : Kept Final seen t u) : Kept Final seen s u := by
  intro r a found final
  obtain ⟨b,middle,same⟩ := first r a found final
  obtain ⟨c,last,equal⟩ := second r b middle (same ▸ final)
  exact ⟨c,last,equal.trans same⟩

theorem Kept.append (first : Kept Final seen s t) (more : List α) : Kept Final seen s (t ++ more) := by
  intro r a found final
  obtain ⟨b,last,same⟩ := first r a found final
  have inside : r < t.length := (List.getElem?_eq_some_iff.mp last).1
  exact ⟨b,by rw [List.getElem?_append_left inside]; exact last,same⟩

-- The one obligation of a writer: what it finds final it leaves as seen.
theorem kept_modify (store : List α) (r : Nat) (write : α → α)
    (harmless : ∀ a, store[r]? = some a → Final (seen a) → seen (write a) = seen a) :
    Kept Final seen store (store.modify r write) := by
  intro k a found final
  by_cases hit : r = k
  · subst k
    exact ⟨write a,by simp [found],harmless a found final⟩
  · exact ⟨a,by simp [hit,found],rfl⟩

theorem kept_foldl {γ : Type w} {S : Type x} (store : S → List α) (apply : S → γ → S)
    (each : ∀ s label, Kept Final seen (store s) (store (apply s label))) (labels : List γ) (s : S) :
    Kept Final seen (store s) (store (labels.foldl apply s)) := by
  induction labels generalizing s with
  | nil => exact .refl _
  | cons label rest ih => exact (each s label).trans (ih (apply s label))

end Absorbing

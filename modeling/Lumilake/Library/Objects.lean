import Mathlib.Data.List.Basic

-- A store of objects that are added and rewritten in place, and a relation between
-- what an object was and what it is: every object of the one store has become one of the other.
namespace Objects
variable {α : Type u} {R : Nat → α → α → Prop}

def Tracks (R : Nat → α → α → Prop) (before after : List α) : Prop :=
  ∀ (r : Nat) (a : α), before[r]? = some a → ∃ b, after[r]? = some b ∧ R r a b

theorem Tracks.refl (same : ∀ r a, R r a a) (store : List α) : Tracks R store store :=
  fun r a found => ⟨a,found,same r a⟩

theorem Tracks.trans (chain : ∀ r a b c, R r a b → R r b c → R r a c) (first : Tracks R s t) (second : Tracks R t u) :
    Tracks R s u := by
  intro r a found
  obtain ⟨b,middle,one⟩ := first r a found
  obtain ⟨c,last,two⟩ := second r b middle
  exact ⟨c,last,chain r a b c one two⟩

theorem Tracks.mono {R' : Nat → α → α → Prop} (weaker : ∀ r a b, R r a b → R' r a b) (first : Tracks R s t) :
    Tracks R' s t := by
  intro r a found
  obtain ⟨b,last,one⟩ := first r a found
  exact ⟨b,last,weaker r a b one⟩

theorem Tracks.append (first : Tracks R s t) (more : List α) : Tracks R s (t ++ more) := by
  intro r a found
  obtain ⟨b,last,one⟩ := first r a found
  have inside : r < t.length := (List.getElem?_eq_some_iff.mp last).1
  exact ⟨b,by rw [List.getElem?_append_left inside]; exact last,one⟩

-- A writer answers for the one object it writes.
theorem tracks_modify (same : ∀ r a, R r a a) (store : List α) (r : Nat) (write : α → α)
    (own : ∀ a, store[r]? = some a → R r a (write a)) : Tracks R store (store.modify r write) := by
  intro k a found
  by_cases hit : r = k
  · subst k
    exact ⟨write a,by simp [found],own a found⟩
  · exact ⟨a,by simp [hit,found],same k a⟩

end Objects

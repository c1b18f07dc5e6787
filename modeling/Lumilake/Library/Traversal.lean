import Mathlib.Data.List.Basic

-- Fallible computations on a state that keeps what was done to it until an error.
namespace Traversal
variable {α : Type u} {β : Type v} {σ : Type w} {ε : Type x} {ι : Type y}

-- The answer passed on through a function.
def answer (g : α → β) (r : Except ε α × σ) : Except ε β × σ :=
  match r with
  | (.error message,s) => (.error message,s)
  | (.ok a,s) => (.ok (g a),s)

-- A list taken item by item, up to the first error.
def each (f : α → σ → Except ε β × σ) : List α → σ → Except ε (List β) × σ
  | [],s => (.ok [],s)
  | a :: rest,s =>
    match f a s with
    | (.error message,s) => (.error message,s)
    | (.ok b,s) => answer (b :: ·) (each f rest s)

-- What a computation keeps whether it fails or not, and what it answers when it does not:
-- the expected value, with every one of `names` seen.
structure Passes (Holds : σ → Prop) (Seen : ι → σ → Prop) (expected : β) (names : List ι) (s : σ) (r : Except ε β × σ) : Prop where
  kept : Holds r.2
  grows : ∀ name, Seen name s → Seen name r.2
  done : ∀ b, r.1 = .ok b → b = expected ∧ ∀ name ∈ names, Seen name r.2

variable {Holds : σ → Prop} {Seen : ι → σ → Prop} {s : σ}

theorem Passes.pure (holds : Holds s) (b : β) : Passes Holds Seen b [] s ((Except.ok b : Except ε β),s) :=
  ⟨holds,fun _ seen => seen,fun _ same => ⟨(Except.ok.inj same).symm,fun _ member => nomatch member⟩⟩

theorem Passes.answer {r : Except ε α × σ} {names : List ι} (first : Passes Holds Seen a names s r) (g : α → β) :
    Passes Holds Seen (g a) names s (answer g r) := by
  obtain ⟨kept,grows,done⟩ := first
  obtain ⟨result,t⟩ := r
  cases result with
  | error message => exact ⟨kept,grows,fun _ same => nomatch same⟩
  | ok b =>
      obtain ⟨rfl,seen⟩ := done b rfl
      exact ⟨kept,grows,fun _ same => ⟨(Except.ok.inj same).symm,seen⟩⟩

theorem passes_each {f : α → σ → Except ε β × σ} {g : α → β} {names : α → List ι} {items : List α}
    (turn : ∀ a ∈ items, ∀ s, Holds s → Passes Holds Seen (g a) (names a) s (f a s)) :
    ∀ s, Holds s → Passes Holds Seen (items.map g) (items.flatMap names) s (each f items s) := by
  induction items with
  | nil => exact fun s holds => .pure holds []
  | cons a rest ih =>
      intro s holds
      have first := turn a List.mem_cons_self s holds
      unfold each
      cases taken : f a s with
      | mk result middle =>
          rw [taken] at first
          cases result with
          | error message => exact ⟨first.kept,first.grows,fun _ same => nomatch same⟩
          | ok b =>
              obtain ⟨rfl,seen⟩ := first.done b rfl
              have later := (ih (fun a member => turn a (List.mem_cons_of_mem _ member)) middle first.kept).answer (g a :: ·)
              refine ⟨later.kept,fun name known => later.grows name (first.grows name known),fun bs same => ?_⟩
              obtain ⟨whole,rest_seen⟩ := later.done bs same
              refine ⟨whole,fun name member => ?_⟩
              rcases List.mem_append.mp member with here | there
              · exact later.grows name (seen name here)
              · exact rest_seen name there

end Traversal

import Mathlib.Data.List.Basic

-- Computations on a state that serve requests one after another and stop at the first
-- one that is not available. What was served stays served.
namespace Serving
variable {S ι ε : Type u} {α β : Type u}

structure Desk (S ι : Type u) where
  good : S → Prop
  available : ι → Prop
  served : ι → S → Prop

-- The computation asks for these requests and returns this value.
structure Answers (desk : Desk S ι) (c : StateT S (Except ε) α) (asked : List ι) (value : α) : Prop where
  ok : ∀ s, desk.good s → (∀ r ∈ asked, desk.available r) →
    ∃ s', c s = .ok (value,s') ∧ desk.good s' ∧ (∀ r ∈ asked, desk.served r s') ∧ ∀ r, desk.served r s → desk.served r s'
  stop : ∀ s, desk.good s → (∃ r ∈ asked, ¬desk.available r) → ∃ e, c s = .error e

variable {desk : Desk S ι}

theorem answers_pure (value : α) : Answers desk (pure value : StateT S (Except ε) α) [] value := by
  refine ⟨fun s good _ => ⟨s,rfl,good,by simp,fun _ h => h⟩,fun s _ h => ?_⟩
  obtain ⟨r,member,_⟩ := h
  cases member

theorem Answers.bind {c : StateT S (Except ε) α} {f : α → StateT S (Except ε) β} {asked more : List ι} {v : α} {w : β}
    (first : Answers desk c asked v) (next : Answers desk (f v) more w) : Answers desk (c >>= f) (asked ++ more) w := by
  have run : ∀ s s', c s = .ok (v,s') → (c >>= f) s = f v s' := by
    intro s s' here
    change Except.bind (c s) _ = _
    rw [here]
    rfl
  constructor
  · intro s good available
    obtain ⟨middle,here,good',served,kept⟩ := first.ok s good fun r member => available r (List.mem_append_left _ member)
    obtain ⟨after,there,good'',served',kept'⟩ := next.ok middle good' fun r member => available r (List.mem_append_right _ member)
    refine ⟨after,(run s middle here).trans there,good'',fun r member => ?_,fun r old => kept' r (kept r old)⟩
    rcases List.mem_append.mp member with early | late
    · exact kept' r (served r early)
    · exact served' r late
  · intro s good missing
    by_cases early : ∀ r ∈ asked, desk.available r
    · obtain ⟨middle,here,good',_,_⟩ := first.ok s good early
      have late : ∃ r ∈ more, ¬desk.available r := by
        obtain ⟨r,member,absent⟩ := missing
        rcases List.mem_append.mp member with old | new
        · exact absurd (early r old) absent
        · exact ⟨r,new,absent⟩
      obtain ⟨e,there⟩ := next.stop middle good' late
      exact ⟨e,(run s middle here).trans there⟩
    · simp only [not_forall] at early
      obtain ⟨r,member,absent⟩ := early
      obtain ⟨e,here⟩ := first.stop s good ⟨r,member,absent⟩
      refine ⟨e,?_⟩
      change Except.bind (c s) _ = _
      rw [here]
      rfl

theorem Answers.map {c : StateT S (Except ε) α} {asked : List ι} {v : α} (answers : Answers desk c asked v) (f : α → β) :
    Answers desk (f <$> c) asked (f v) := by
  have whole := answers.bind (f := fun a => pure (f a)) (answers_pure (f v))
  rw [List.append_nil] at whole
  rwa [← bind_pure_comp]

-- A loop over a list asks what its turns ask, in their order.
theorem answers_mapM {f : β → StateT S (Except ε) α} {asked : β → List ι} {value : β → α} (items : List β)
    (each : ∀ item ∈ items, Answers desk (f item) (asked item) (value item)) :
    Answers desk (items.mapM f) (items.flatMap asked) (items.map value) := by
  induction items with
  | nil => exact answers_pure []
  | cons item rest ih =>
      rw [List.mapM_cons,List.flatMap_cons,List.map_cons]
      have later := ih fun i member => each i (List.mem_cons_of_mem _ member)
      refine (each item List.mem_cons_self).bind ?_
      have tail := later.bind (f := fun values => pure (value item :: values)) (answers_pure (value item :: rest.map value))
      rwa [List.append_nil] at tail

end Serving

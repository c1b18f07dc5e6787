import Mathlib.Data.List.Basic
import Mathlib.Logic.Relation

-- Workers that take things from the fronts of their own lists, each thing once those it
-- needs are done.
namespace Queues
open Relation
variable {α : Type u} {needs : α → α → Prop}

structure State (α : Type u) where
  queues : List (List α)
  finished : List α

inductive Step (needs : α → α → Prop) : State α → State α → Prop where
  | take (before after : List (List α)) (x : α) (rest finished : List α) (ready : ∀ y, needs x y → y ∈ finished) :
      Step needs ⟨before ++ (x :: rest) :: after,finished⟩ ⟨before ++ rest :: after,finished ++ [x]⟩

-- An order in which everything comes after what it needs.
def Follows (needs : α → α → Prop) (order : List α) : Prop :=
  ∀ front x back, order = front ++ x :: back → ∀ y, needs x y → y ∈ front

theorem follows_append {order : List α} {x : α} (follows : Follows needs order) (ready : ∀ y, needs x y → y ∈ order) :
    Follows needs (order ++ [x]) := by
  intro front z back split y needed
  rcases List.eq_nil_or_concat back with rfl | ⟨middle,last,rfl⟩
  · obtain ⟨rfl,same⟩ := List.append_inj' split rfl
    cases same
    exact ready y needed
  · have whole : order ++ [x] = (front ++ z :: middle) ++ [last] := by simpa using split
    exact follows front z middle (List.append_inj' whole rfl).1 y needed

-- What holds of every state that is reached.
structure Along (needs : α → α → Prop) (order : List α) (s : State α) : Prop where
  sublists : ∀ queue ∈ s.queues, queue.Sublist order
  shared : (s.finished ++ s.queues.flatten).Perm order
  safe : Follows needs s.finished

theorem along_step {order : List α} {s t : State α} (along : Along needs order s) (step : Step needs s t) : Along needs order t := by
  cases step with
  | take before after x rest finished ready =>
      constructor
      · intro queue member
        rcases List.mem_append.mp member with early | late
        · exact along.sublists queue (List.mem_append_left _ early)
        · rcases List.mem_cons.mp late with rfl | later
          · have whole := along.sublists (x :: queue) (List.mem_append_right _ List.mem_cons_self)
            exact (List.sublist_cons_self x queue).trans whole
          · exact along.sublists queue (List.mem_append_right _ (List.mem_cons_of_mem _ later))
      · refine List.Perm.trans ?_ along.shared
        simp only [List.flatten_append,List.flatten_cons,List.append_assoc,List.cons_append,List.nil_append]
        exact (List.perm_middle.symm).append_left finished
      · exact follows_append along.safe ready

theorem along_run {order : List α} {s t : State α} (along : Along needs order s) (run : ReflTransGen (Step needs) s t) :
    Along needs order t := by
  induction run with
  | refl => exact along
  | tail _ step ih => exact along_step ih step

-- The first thing of the order that is left stands at the front of its list.
theorem first_left {order : List α} {queues : List (List α)} (distinct : order.Nodup)
    (sublists : ∀ queue ∈ queues, queue.Sublist order) (some_left : queues.flatten ≠ []) :
    ∃ front x back before rest after, order = front ++ x :: back ∧ queues = before ++ (x :: rest) :: after ∧
      ∀ y ∈ front, y ∉ queues.flatten := by
  classical
  have inside : ∃ x ∈ order, x ∈ queues.flatten := by
    obtain ⟨x,left⟩ := List.exists_mem_of_ne_nil _ some_left
    obtain ⟨queue,member,here⟩ := List.mem_flatten.mp left
    exact ⟨x,(sublists queue member).mem here,left⟩
  have kept : order.filter (fun x => decide (x ∈ queues.flatten)) ≠ [] := by
    obtain ⟨x,member,left⟩ := inside
    exact List.ne_nil_of_mem (List.mem_filter.mpr ⟨member,decide_eq_true left⟩)
  obtain ⟨x,more,first⟩ := List.exists_cons_of_ne_nil kept
  obtain ⟨front,back,split,skipped,left,_⟩ := List.filter_eq_cons_iff.mp first
  obtain ⟨queue,member,here⟩ := List.mem_flatten.mp (of_decide_eq_true left)
  have absent : ∀ y ∈ front, y ∉ queues.flatten := fun y early there => skipped y early (decide_eq_true there)
  have sub := sublists queue member
  rw [split] at sub distinct
  obtain ⟨early,late,same,early_sub,late_sub⟩ := List.sublist_append_iff.mp sub
  have none_early : early = [] := by
    apply List.eq_nil_iff_forall_not_mem.mpr
    intro y there
    exact absent y (early_sub.mem there) (List.mem_flatten.mpr ⟨queue,member,same ▸ List.mem_append_left _ there⟩)
  rw [none_early,List.nil_append] at same
  subst same
  have fresh : x ∉ back := (List.nodup_cons.mp (List.nodup_append.mp distinct).2.1).1
  obtain ⟨before,after,whole⟩ := List.append_of_mem member
  cases late_sub with
  | cons _ tail => exact absurd (tail.mem here) fresh
  | cons_cons _ tail => exact ⟨front,x,back,before,_,after,split,whole,absent⟩

-- No state that is reached is stuck before everything is done.
theorem along_progress {order : List α} (distinct : order.Nodup) (follows : Follows needs order) {s : State α}
    (along : Along needs order s) (some_left : s.queues.flatten ≠ []) : ∃ t, Step needs s t := by
  obtain ⟨front,x,back,before,rest,after,split,whole,absent⟩ := first_left distinct along.sublists some_left
  obtain ⟨queues,finished⟩ := s
  dsimp only at whole
  subst whole
  refine ⟨_,.take before after x rest finished fun y needed => ?_⟩
  have early := follows front x back split y needed
  have known : y ∈ order := split ▸ List.mem_append_left _ early
  rcases List.mem_append.mp (along.shared.mem_iff.mpr known) with finished_first | left
  · exact finished_first
  · exact absurd left (absent y early)

-- Lists cut from one order that follows the needs: whatever the interleaving, things are
-- done after what they need, a state that is left has a next one, and each step does one.
theorem run_complete {order : List α} {queues : List (List α)} (distinct : order.Nodup) (follows : Follows needs order)
    (sublists : ∀ queue ∈ queues, queue.Sublist order) (shared : queues.flatten.Perm order) {s : State α}
    (run : ReflTransGen (Step needs) ⟨queues,[]⟩ s) :
    Follows needs s.finished ∧ (s.finished ++ s.queues.flatten).Perm order ∧ ((∃ t, Step needs s t) ∨ s.finished.Perm order) := by
  have start : Along needs order ⟨queues,[]⟩ :=
    ⟨sublists,shared,fun front x back split => absurd split (by simp)⟩
  have along := along_run start run
  refine ⟨along.safe,along.shared,?_⟩
  by_cases left : s.queues.flatten = []
  · have all := along.shared
    rw [left,List.append_nil] at all
    exact .inr all
  · exact .inl (along_progress distinct follows along left)

end Queues

import Lumilake.Optimizer.HaloPlans
import Mathlib.Algebra.Order.Monoid.Unbundled.Basic
import Mathlib.Order.Defs.LinearOrder

-- Without batch-shape pruning the search finds a run of the least cost.
namespace Lumilake.Optimizer.Halo
namespace DPSolver
variable {K : Type} [Add K] [Mul K] [Div K] [Zero K] [One K] [NatCast K] [LinearOrder K]
  {solver : DPSolver K} {done : Finset String}

-- A run takes one candidate an epoch until all nodes are done.
inductive Run (solver : DPSolver K) : Finset String → List WorkerState → Nat → Found K → Prop where
  | finished (states : List WorkerState) (epoch_idx : Nat) : Run solver solver.all_mask states epoch_idx ⟨0,[],Dict.empty⟩
  | epoch {done : Finset String} {states : List WorkerState} {epoch_idx : Nat} {candidates : List (Candidate K)}
      {candidate : Candidate K} {found : Found K} (left : done ≠ solver.all_mask)
      (listed : solver.candidates false done states epoch_idx = .ok candidates) (member : candidate ∈ candidates)
      (rest : Run solver candidate.done candidate.states (epoch_idx + 1) found) :
      Run solver done states epoch_idx (before candidate found)

structure Cheapest (solver : DPSolver K) (done : Finset String) (states : List WorkerState) (epoch_idx : Nat)
    (found : Found K) : Prop where
  run : Run solver done states epoch_idx found
  least : ∀ other, Run solver done states epoch_idx other → found.cost ≤ other.cost

-- The bound is never above the cost of a run.
def Admissible (solver : DPSolver K) : Prop :=
  ∀ done states epoch_idx found, Run solver done states epoch_idx found → solver.lower_bound_remaining done epoch_idx ≤ found.cost

theorem cheapest_all (states : List WorkerState) (epoch_idx : Nat) :
    Cheapest solver solver.all_mask states epoch_idx ⟨0,[],Dict.empty⟩ := by
  refine ⟨.finished states epoch_idx,fun other run => ?_⟩
  generalize whole : solver.all_mask = done at run
  cases run with
  | finished => exact le_rfl
  | epoch left => exact absurd whole.symm left

-- The best of the candidates that were seen.
structure Best (solver : DPSolver K) (done : Finset String) (states : List WorkerState) (epoch_idx : Nat)
    (seen : List (Candidate K)) (best : Found K) : Prop where
  run : best.cost = solver.inf ∨ Run solver done states epoch_idx best
  least : ∀ candidate ∈ seen, ∀ rest, Run solver candidate.done candidate.states (epoch_idx + 1) rest →
    best.cost ≤ candidate.epoch_cost + rest.cost

variable [AddLeftMono K]

theorem Best.consider {sub : Search K} (sound : Sound (Cheapest solver) sub)
    (admissible : solver.tuning.enable_lower_bound_pruning = true → Admissible solver) {states : List WorkerState} {epoch_idx : Nat}
    {candidates seen : List (Candidate K)} {candidate : Candidate K} (left : done ≠ solver.all_mask)
    (listed : solver.candidates false done states epoch_idx = .ok candidates) (member : candidate ∈ candidates)
    {s after : Found K × Memo K} (best : Best solver done states epoch_idx seen s.1) (kept : Kept (Cheapest solver) s.2)
    (considered : solver.consider sub epoch_idx s candidate = .ok after) :
    Best solver done states epoch_idx (seen ++ [candidate]) after.1 ∧ Kept (Cheapest solver) after.2 := by
  have extend : ∀ {found : Found K}, found.cost = solver.inf ∨ Run solver done states epoch_idx found → found.cost ≤ s.1.cost →
      (∀ rest, Run solver candidate.done candidate.states (epoch_idx + 1) rest → found.cost ≤ candidate.epoch_cost + rest.cost) →
      Best solver done states epoch_idx (seen ++ [candidate]) found := by
    intro found run lower own
    refine ⟨run,fun other inside rest later => ?_⟩
    rcases List.mem_append.mp inside with old | new
    · exact lower.trans (best.least other old rest later)
    · rw [List.mem_singleton.mp new] at later ⊢
      exact own rest later
  unfold DPSolver.consider at considered
  split at considered
  · rename_i pruned
    cases considered
    refine ⟨extend best.run le_rfl fun rest later => ?_,kept⟩
    have bound := admissible pruned.1 _ _ _ _ later
    calc s.1.cost ≤ candidate.epoch_cost + solver.lower_bound_remaining candidate.done (epoch_idx + 1) := pruned.2.2
      _ ≤ candidate.epoch_cost + rest.cost := by gcongr
  · obtain ⟨⟨found,memo⟩,searched,rest⟩ := Fallible.bind_ok considered
    obtain ⟨cheapest,kept'⟩ := sound _ _ _ _ _ _ kept searched
    have own : ∀ rest, Run solver candidate.done candidate.states (epoch_idx + 1) rest →
        candidate.epoch_cost + found.cost ≤ candidate.epoch_cost + rest.cost := by
      intro rest later
      have lower := cheapest.least rest later
      gcongr
    dsimp only at rest
    split at rest
    · rename_i better
      cases rest
      exact ⟨extend (.inr (.epoch left listed member cheapest.run)) better.le own,kept'⟩
    · rename_i worse
      cases rest
      exact ⟨extend best.run le_rfl fun other later => (not_lt.mp worse).trans (own other later),kept'⟩

theorem Best.loop {sub : Search K} (sound : Sound (Cheapest solver) sub)
    (admissible : solver.tuning.enable_lower_bound_pruning = true → Admissible solver) {states : List WorkerState} {epoch_idx : Nat}
    {candidates : List (Candidate K)} (left : done ≠ solver.all_mask)
    (listed : solver.candidates false done states epoch_idx = .ok candidates) {seen rest : List (Candidate K)}
    (split : candidates = seen ++ rest) {s after : Found K × Memo K} (best : Best solver done states epoch_idx seen s.1)
    (kept : Kept (Cheapest solver) s.2) (looped : rest.foldlM (solver.consider sub epoch_idx) s = .ok after) :
    Best solver done states epoch_idx candidates after.1 ∧ Kept (Cheapest solver) after.2 := by
  induction rest generalizing seen s with
  | nil =>
      cases looped
      rw [split,List.append_nil]
      exact ⟨best,kept⟩
  | cons candidate rest ih =>
      rw [List.foldlM_cons] at looped
      obtain ⟨next,considered,later⟩ := Fallible.bind_ok looped
      have member : candidate ∈ candidates := split ▸ List.mem_append_right _ List.mem_cons_self
      obtain ⟨best',kept'⟩ := best.consider sound admissible left listed member kept considered
      exact ih (by rw [split,List.append_assoc]; rfl) best' kept' later

-- One call hands on the cheapest.
theorem explore_cheapest {sub : Search K} (sound : Sound (Cheapest solver) sub)
    (admissible : solver.tuning.enable_lower_bound_pruning = true → Admissible solver) :
    Sound (Cheapest solver) (solver.explore false sub dp_failed) := by
  intro memo done states epoch_idx found memo' kept explored
  unfold explore at explored
  split at explored
  · rename_i all
    cases explored
    exact ⟨all ▸ cheapest_all states epoch_idx,kept⟩
  · rename_i left
    split at explored
    · rename_i known
      cases explored
      exact ⟨kept _ _ known,kept⟩
    · obtain ⟨candidates,listed,rest⟩ := Fallible.bind_ok explored
      obtain ⟨⟨best,searched⟩,loop,rest⟩ := Fallible.bind_ok rest
      have nothing_seen : Best solver done states epoch_idx [] (⟨solver.inf,[],Dict.empty⟩ : Found K) :=
        ⟨.inl rfl,fun candidate member => absurd member List.not_mem_nil⟩
      obtain ⟨all_seen,kept'⟩ := Best.loop sound admissible left listed (List.nil_append candidates).symm nothing_seen kept loop
      dsimp only at rest
      split at rest
      · cases rest
      · rename_i finite
        cases rest
        have cheapest : Cheapest solver done states epoch_idx found := by
          refine ⟨all_seen.run.resolve_left finite,fun other run => ?_⟩
          cases run with
          | finished => exact absurd rfl left
          | epoch _ listed' member later =>
              rw [listed] at listed'
              cases listed'
              exact all_seen.least _ member _ later
        exact ⟨cheapest,kept'.set cheapest⟩

theorem solve_from_cheapest (unpruned : solver.tuning.enable_batch_shape_pruning = false)
    (admissible : solver.tuning.enable_lower_bound_pruning = true → Admissible solver) (depth : Nat) :
    Sound (Cheapest solver) (solver.solve_from depth) := by
  induction depth with
  | zero =>
      unfold solve_from
      rw [unpruned]
      exact explore_cheapest dp_failed_sound admissible
  | succ depth ih =>
      unfold solve_from
      rw [unpruned]
      exact explore_cheapest ih admissible

-- What is found is a run, and none is cheaper.
theorem solve_cheapest (unpruned : solver.tuning.enable_batch_shape_pruning = false)
    (admissible : solver.tuning.enable_lower_bound_pruning = true → Admissible solver) {found : Found K}
    (solved : solver.solve = .ok found) : Cheapest solver ∅ solver.initial_states 0 found := by
  obtain ⟨⟨result,memo⟩,searched,rest⟩ := Fallible.bind_ok solved
  cases rest
  exact (solve_from_cheapest unpruned admissible _ _ _ _ _ _ _ kept_empty searched).1

end DPSolver
end Lumilake.Optimizer.Halo

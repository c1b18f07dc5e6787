import Lumilake.Optimizer.HaloEpochs

-- What the search returns is a schedule of all the nodes, whatever the costs are.
namespace Lumilake.Optimizer.Halo
variable {K : Type}

namespace DPSolver

-- A schedule of the nodes that are not done: each once, on a worker that may run it, not
-- before its parents, and no two GPU nodes on one worker in one epoch.
structure Valid (solver : DPSolver K) (done : Finset String) (schedule : List Placement) : Prop where
  nodes : (schedule.map fun p => p.2.2).Perm (solver.node_ids.filter (· ∉ done))
  able : ∀ p ∈ schedule, p.2.1 ∈ solver.options p.2.2
  ordered : ∀ p ∈ schedule, ∀ u ∈ solver.parents_mask p.2.2, u ∈ done ∨ ∃ q ∈ schedule, q.2.2 = u ∧ q.1 ≤ p.1
  apart : ∀ p ∈ schedule, ∀ q ∈ schedule, solver.is_gpu_node p.2.2 = true → solver.is_gpu_node q.2.2 = true → p.1 = q.1 →
    p.2.1 = q.2.1 → p.2.2 = q.2.2

variable {solver : DPSolver K} {done : Finset String}

theorem valid_all : Valid solver solver.all_mask [] := by
  constructor
  · have none_left : solver.node_ids.filter (· ∉ solver.all_mask) = [] := by
      apply List.filter_eq_nil_iff.mpr
      intro nid member
      unfold all_mask
      simpa using member
    rw [none_left]
    exact .refl _
  · exact fun p member => absurd member List.not_mem_nil
  · exact fun p member => absurd member List.not_mem_nil
  · exact fun p member => absurd member List.not_mem_nil

-- The epoch before a schedule of what is left.
def first_epoch (assigned : List (String × String)) : List Placement := assigned.map fun pair => (0,pair)

theorem mem_epoch_schedule {assigned : List (String × String)} {schedule : List Placement} {p : Placement} :
    p ∈ first_epoch assigned ++ schedule.map next_epoch ↔
      (∃ pair ∈ assigned, p = (0,pair)) ∨ ∃ q ∈ schedule, p = next_epoch q := by
  unfold first_epoch
  rw [List.mem_append,List.mem_map,List.mem_map]
  simp only [eq_comm]

theorem Takes.nodes {candidate : Candidate K} (takes : Takes solver done candidate) (distinct : solver.node_ids.Nodup) :
    (candidate.assigned.map Prod.snd ++ solver.node_ids.filter (· ∉ candidate.done)).Perm (solver.node_ids.filter (· ∉ done)) := by
  have inside : ∀ nid, nid ∈ candidate.done ↔ nid ∈ done ∨ nid ∈ candidate.assigned.map Prod.snd := fun nid => by
    rw [takes.after,Finset.mem_union,List.mem_toFinset]
  apply (List.perm_ext_iff_of_nodup ?_ (distinct.filter _)).mpr
  · intro nid
    rw [List.mem_append,List.mem_filter,List.mem_filter,decide_eq_true_eq,decide_eq_true_eq,inside]
    constructor
    · intro member
      rcases member with taken | ⟨known,left⟩
      · obtain ⟨pair,there,same⟩ := List.mem_map.mp taken
        exact same ▸ takes.pending pair there
      · exact ⟨known,fun old => left (.inl old)⟩
    · intro ⟨known,fresh⟩
      by_cases taken : nid ∈ candidate.assigned.map Prod.snd
      · exact .inl taken
      · exact .inr ⟨known,fun either => either.elim fresh taken⟩
  · apply List.nodup_append.mpr
    refine ⟨takes.distinct,distinct.filter _,fun a taken b left same => ?_⟩
    have absent := of_decide_eq_true (List.mem_filter.mp left).2
    exact absent ((inside b).mpr (.inr (same ▸ taken)))

-- One step: an epoch and what follows it.
theorem Valid.step {candidate : Candidate K} (takes : Takes solver done candidate) (distinct : solver.node_ids.Nodup)
    {schedule : List Placement} (valid : Valid solver candidate.done schedule) :
    Valid solver done (first_epoch candidate.assigned ++ schedule.map next_epoch) := by
  have listed : (first_epoch candidate.assigned ++ schedule.map next_epoch).map (fun p => p.2.2) =
      candidate.assigned.map Prod.snd ++ schedule.map fun p => p.2.2 := by
    rw [List.map_append,first_epoch,List.map_map,List.map_map]
    rfl
  constructor
  · rw [listed]
    exact (valid.nodes.append_left _).trans (takes.nodes distinct)
  · intro p member
    rcases mem_epoch_schedule.mp member with ⟨pair,there,rfl⟩ | ⟨q,there,rfl⟩
    · exact takes.able pair there
    · exact valid.able q there
  · intro p member u parent
    rcases mem_epoch_schedule.mp member with ⟨pair,there,rfl⟩ | ⟨q,there,rfl⟩
    · rcases takes.ready pair there u parent with old | taken
      · exact .inl old
      · obtain ⟨other,inside,same⟩ := List.mem_map.mp taken
        exact .inr ⟨(0,other),mem_epoch_schedule.mpr (.inl ⟨other,inside,rfl⟩),same,Nat.le_refl 0⟩
    · rcases valid.ordered q there u parent with old | ⟨earlier,inside,same,before⟩
      · rw [takes.after,Finset.mem_union,List.mem_toFinset] at old
        rcases old with older | taken
        · exact .inl older
        · obtain ⟨other,inside,same⟩ := List.mem_map.mp taken
          exact .inr ⟨(0,other),mem_epoch_schedule.mpr (.inl ⟨other,inside,rfl⟩),same,Nat.zero_le _⟩
      · exact .inr ⟨next_epoch earlier,mem_epoch_schedule.mpr (.inr ⟨earlier,inside,rfl⟩),same,Nat.succ_le_succ before⟩
  · intro p member q member' gpu gpu' together worker
    rcases mem_epoch_schedule.mp member with ⟨pair,there,rfl⟩ | ⟨p',there,rfl⟩
    · rcases mem_epoch_schedule.mp member' with ⟨pair',there',rfl⟩ | ⟨q',there',rfl⟩
      · have one : pair ∈ candidate.assigned.filter fun pair => solver.is_gpu_node pair.2 := List.mem_filter.mpr ⟨there,gpu⟩
        have other : pair' ∈ candidate.assigned.filter fun pair => solver.is_gpu_node pair.2 := List.mem_filter.mpr ⟨there',gpu'⟩
        exact congrArg Prod.snd (List.inj_on_of_nodup_map takes.apart one other worker)
      · exact absurd together.symm (Nat.succ_ne_zero _)
    · rcases mem_epoch_schedule.mp member' with ⟨pair',there',rfl⟩ | ⟨q',there',rfl⟩
      · exact absurd together (Nat.succ_ne_zero _)
      · exact valid.apart p' there q' there' gpu gpu' (Nat.succ.inj together) worker

-- What is kept of a result from any state, and of every memo entry.
abbrev Good (K : Type) := Finset String → List WorkerState → Nat → Found K → Prop

def Kept (good : Good K) (memo : Memo K) : Prop :=
  ∀ key found, memo.get? key = some found → good key.1 key.2.1 key.2.2 found

variable {good : Good K}

theorem kept_empty : Kept good (Dict.empty : Memo K) := fun key found same => by cases same

theorem Kept.set {memo : Memo K} {states : List WorkerState} {epoch_idx : Nat} {found : Found K} (kept : Kept good memo)
    (fine : good done states epoch_idx found) : Kept good (memo.set (done,states,epoch_idx) found) := by
  intro key other same
  by_cases own : key = (done,states,epoch_idx)
  · subst own
    rw [Dict.get?_set_self] at same
    cases same
    exact fine
  · rw [Dict.get?_set_ne _ _ own] at same
    exact kept key other same

def Sound (good : Good K) (search : Search K) : Prop := ∀ memo done states epoch_idx found memo', Kept good memo →
  search memo done states epoch_idx = .ok (found,memo') → good done states epoch_idx found ∧ Kept good memo'

theorem dp_failed_sound : Sound good (dp_failed : Search K) := fun _ _ _ _ _ _ _ failed => by cases failed

section
variable [Add K] [Mul K] [Div K] [Zero K] [One K] [NatCast K] [LT K] [DecidableLT K] [LE K] [DecidableLE K] [DecidableEq K]

-- A candidate before what was found after it.
def before (candidate : Candidate K) (found : Found K) : Found K :=
  ⟨candidate.epoch_cost + found.cost,first_epoch candidate.assigned ++ found.schedule.map next_epoch,
    updated found.plans candidate.plans⟩

-- A property of results that one epoch hands on.
structure Inductive (solver : DPSolver K) (good : Good K) : Prop where
  finished : ∀ states epoch_idx, good solver.all_mask states epoch_idx ⟨0,[],Dict.empty⟩
  step : ∀ prune done states epoch_idx candidates, solver.candidates prune done states epoch_idx = .ok candidates →
    ∀ candidate ∈ candidates, ∀ found, good candidate.done candidate.states (epoch_idx + 1) found →
      good done states epoch_idx (before candidate found)

-- The best so far is none or one of those searched.
theorem consider_keeps {sub : Search K} (sound : Sound good sub) {states : List WorkerState} {epoch_idx : Nat}
    {candidate : Candidate K} (hands : ∀ found, good candidate.done candidate.states (epoch_idx + 1) found →
      good done states epoch_idx (before candidate found)) {s after : Found K × Memo K}
    (keeps : (s.1.cost = solver.inf ∨ good done states epoch_idx s.1) ∧ Kept good s.2)
    (considered : solver.consider sub epoch_idx s candidate = .ok after) :
    (after.1.cost = solver.inf ∨ good done states epoch_idx after.1) ∧ Kept good after.2 := by
  unfold consider at considered
  split at considered
  · cases considered
    exact keeps
  · obtain ⟨⟨found,memo⟩,searched,rest⟩ := Fallible.bind_ok considered
    obtain ⟨fine,kept⟩ := sound _ _ _ _ _ _ keeps.2 searched
    dsimp only at rest
    split at rest
    · cases rest
      exact ⟨.inr (hands found fine),kept⟩
    · cases rest
      exact ⟨keeps.1,kept⟩

theorem explore_sound (inductive_good : Inductive solver good) {prune : Bool} {sub retry : Search K} (sound : Sound good sub)
    (again : Sound good retry) : Sound good (solver.explore prune sub retry) := by
  intro memo done states epoch_idx found memo' kept explored
  unfold explore at explored
  split at explored
  · rename_i all
    cases explored
    exact ⟨all ▸ inductive_good.finished states epoch_idx,kept⟩
  · split at explored
    · rename_i known
      cases explored
      exact ⟨kept _ _ known,kept⟩
    · obtain ⟨candidates,listed,rest⟩ := Fallible.bind_ok explored
      obtain ⟨⟨best,searched⟩,loop,rest⟩ := Fallible.bind_ok rest
      have keeps := Fallible.foldlM_keeps_on (fun s : Found K × Memo K =>
          (s.1.cost = solver.inf ∨ good done states epoch_idx s.1) ∧ Kept good s.2)
        (fun s candidate member after keeps considered => consider_keeps sound
          (inductive_good.step prune done states epoch_idx candidates listed candidate member) keeps considered)
        ⟨.inl rfl,kept⟩ loop
      dsimp only at rest
      split at rest
      · exact again _ _ _ _ _ _ keeps.2 rest
      · rename_i finite
        cases rest
        have fine := keeps.1.resolve_left finite
        exact ⟨fine,keeps.2.set fine⟩

theorem solve_unpruned_sound (inductive_good : Inductive solver good) (depth : Nat) : Sound good (solver.solve_unpruned depth) := by
  induction depth with
  | zero => exact explore_sound inductive_good dp_failed_sound dp_failed_sound
  | succ depth ih => exact explore_sound inductive_good ih dp_failed_sound

theorem solve_from_sound (inductive_good : Inductive solver good) (depth : Nat) : Sound good (solver.solve_from depth) := by
  have retry : ∀ depth, Sound good (if solver.tuning.enable_batch_shape_pruning then solver.solve_unpruned depth else dp_failed) := by
    intro depth
    split
    · exact solve_unpruned_sound inductive_good depth
    · exact dp_failed_sound
  induction depth with
  | zero => exact explore_sound inductive_good dp_failed_sound (retry 0)
  | succ depth ih => exact explore_sound inductive_good ih (retry (depth + 1))

theorem solve_good (inductive_good : Inductive solver good) {found : Found K} (solved : solver.solve = .ok found) :
    good ∅ solver.initial_states 0 found := by
  obtain ⟨⟨result,memo⟩,searched,rest⟩ := Fallible.bind_ok solved
  cases rest
  exact (solve_from_sound inductive_good _ _ _ _ _ _ _ kept_empty searched).1

theorem valid_inductive (distinct : solver.node_ids.Nodup) (hosted : Hosted solver) :
    Inductive solver fun done _ _ found => Valid solver done found.schedule := by
  constructor
  · exact fun _ _ => valid_all
  · intro prune done states epoch_idx candidates listed candidate member found valid
    exact Valid.step (takes_candidate distinct hosted listed member) distinct valid

-- Whatever the costs, a schedule that is returned runs every node once where it may run.
theorem solve_valid (distinct : solver.node_ids.Nodup) (hosted : Hosted solver) {found : Found K}
    (solved : solver.solve = .ok found) : Valid solver ∅ found.schedule :=
  solve_good (valid_inductive distinct hosted) solved

end

end DPSolver
end Lumilake.Optimizer.Halo

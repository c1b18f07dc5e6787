import Lumilake.Optimizer.HaloChoices

-- What one epoch takes, and who runs it.
namespace Lumilake.Optimizer.Halo
variable {K : Type}

namespace DPSolver
variable {solver : DPSolver K} {done : Finset String}

-- Orders of a batch.
theorem by_depth_perm (depths : Dict String Nat) (gpu_nodes : List String) : (by_depth depths gpu_nodes).Perm gpu_nodes :=
  List.perm_insertionSort _ _

theorem order_cpu_perm (cpu_nodes : List String) (depths : Dict String Nat) :
    (solver.order_cpu_nodes_by_parent_depth cpu_nodes depths).Perm cpu_nodes := by
  unfold order_cpu_nodes_by_parent_depth
  split
  · exact .refl _
  · exact List.perm_insertionSort _ _

-- Who runs the nodes of a batch.
theorem mem_assign_gpu {nodes used : List String} {current assign : List (String × String)}
    (member : assign ∈ solver.assign_gpu nodes used current) :
    ∃ more, assign = current ++ more ∧ more.map Prod.snd = nodes ∧ (more.map Prod.fst).Nodup ∧
      ∀ pair ∈ more, pair.1 ∉ used ∧ pair.1 ∈ solver.gpu_worker_ids ∧ pair.1 ∈ solver.gpu_options pair.2 := by
  induction nodes generalizing used current with
  | nil =>
      rw [assign_gpu] at member
      exact ⟨[],by rw [List.mem_singleton.mp member,List.append_nil],rfl,List.nodup_nil,fun pair inside => absurd inside List.not_mem_nil⟩
  | cons node_id rest ih =>
      rw [assign_gpu] at member
      obtain ⟨wid,free,inside⟩ := List.mem_flatMap.mp member
      obtain ⟨hosted,allowed⟩ := List.mem_filter.mp free
      obtain ⟨listed,unused⟩ := of_decide_eq_true allowed
      obtain ⟨more,same,nodes,apart,each⟩ := ih inside
      refine ⟨(wid,node_id) :: more,by rw [same,List.append_assoc]; rfl,by rw [List.map_cons,nodes],?_,?_⟩
      · rw [List.map_cons]
        refine List.nodup_cons.mpr ⟨fun again => ?_,apart⟩
        obtain ⟨pair,there,alike⟩ := List.mem_map.mp again
        exact (each pair there).1 (List.mem_cons.mpr (.inl alike))
      · exact List.forall_mem_cons.mpr ⟨⟨unused,hosted,listed⟩,fun pair there =>
          ⟨fun old => (each pair there).1 (List.mem_cons_of_mem _ old),(each pair there).2⟩⟩

theorem mem_gpu_assignments {gpu_nodes : List String} {assign : List (String × String)}
    (member : assign ∈ solver.gpu_assignments gpu_nodes) :
    assign.map Prod.snd = gpu_nodes ∧ (assign.map Prod.fst).Nodup ∧
      ∀ pair ∈ assign, pair.1 ∈ solver.gpu_worker_ids ∧ pair.1 ∈ solver.gpu_options pair.2 := by
  obtain ⟨more,same,nodes,apart,each⟩ := mem_assign_gpu member
  rw [List.nil_append] at same
  subst same
  exact ⟨nodes,apart,fun pair there => (each pair there).2⟩

theorem gpu_options_eq {nid : String} (hosted : solver.options nid ≠ []) : solver.gpu_options nid = solver.options nid := by
  unfold gpu_options options at *
  cases found : solver.node_worker_options.get? nid with
  | none => rw [found] at hosted; exact absurd rfl hosted
  | some workers => rfl

theorem cpu_pool_options {nid : String} (hosted : solver.options nid ≠ []) :
    solver.cpu_pool nid ≠ [] ∧ ∀ wid ∈ solver.cpu_pool nid, wid ∈ solver.options nid := by
  unfold cpu_pool
  generalize (if solver.cpu_worker_ids = [] then solver.worker_ids else solver.cpu_worker_ids) = workers
  dsimp only
  split
  · rename_i some_there
    exact ⟨some_there,fun wid member => of_decide_eq_true (List.mem_filter.mp member).2⟩
  · exact ⟨hosted,fun wid member => member⟩

theorem cpu_assignments_nodes (staffed : solver.worker_ids ≠ []) (cpu_nodes : List String) :
    (solver.cpu_assignments cpu_nodes).map Prod.snd = cpu_nodes := by
  unfold cpu_assignments
  rw [if_neg fun none_there => staffed none_there.2,List.map_map]
  exact List.zipIdx_map_fst 0 cpu_nodes

theorem mem_cpu_assignments {cpu_nodes : List String} (hosted : ∀ nid ∈ cpu_nodes, solver.options nid ≠ [])
    {pair : String × String} (member : pair ∈ solver.cpu_assignments cpu_nodes) : pair.1 ∈ solver.options pair.2 := by
  unfold cpu_assignments at member
  split at member
  · cases member
  · obtain ⟨e,there,same⟩ := List.mem_map.mp member
    have inside : e.1 ∈ cpu_nodes := List.fst_mem_of_mem_zipIdx there
    obtain ⟨some_there,allowed⟩ := cpu_pool_options (hosted e.1 inside)
    have short : e.2 % (solver.cpu_pool e.1).length < (solver.cpu_pool e.1).length :=
      Nat.mod_lt _ (List.length_pos_of_ne_nil some_there)
    subst same
    apply allowed
    dsimp only
    rw [List.getD_eq_getElem?_getD,List.getElem?_eq_getElem short]
    exact List.getElem_mem short

-- One of each kind is left.
section
variable [DecidableEq K]

theorem dedup_fold {keep : List (List (String × String)) → List (String × String) → Bool}
    {assignments uniq : List (List (String × String))} {assign : List (String × String)}
    (member : assign ∈ assignments.foldl (fun uniq assign => if keep uniq assign then uniq else uniq ++ [assign]) uniq) :
    assign ∈ uniq ∨ assign ∈ assignments := by
  induction assignments generalizing uniq with
  | nil => exact .inl member
  | cons first rest ih =>
      rw [List.foldl_cons] at member
      rcases ih member with old | later
      · split at old
        · exact .inl old
        · exact (List.mem_append.mp old).imp_right fun new => List.mem_cons.mpr (.inl (List.mem_singleton.mp new))
      · exact .inr (List.mem_cons_of_mem _ later)

theorem mem_dedup {states : List WorkerState} {assignments : List (List (String × String))} {assign : List (String × String)}
    (member : assign ∈ solver.dedup_worker_assignments assignments states) : assign ∈ assignments := by
  rcases @dedup_fold (fun uniq assign => uniq.any (solver.same_signature states assign)) _ _ _ member with old | there
  · cases old
  · exact there

theorem dedup_fold_grows {keep : List (List (String × String)) → List (String × String) → Bool}
    {assignments uniq : List (List (String × String))} {assign : List (String × String)} (member : assign ∈ uniq) :
    assign ∈ assignments.foldl (fun uniq assign => if keep uniq assign then uniq else uniq ++ [assign]) uniq := by
  induction assignments generalizing uniq with
  | nil => exact member
  | cons first rest ih =>
      rw [List.foldl_cons]
      apply ih
      split
      · exact member
      · exact List.mem_append_left _ member

theorem dedup_ne_nil {states : List WorkerState} {assignments : List (List (String × String))} (some_there : assignments ≠ []) :
    solver.dedup_worker_assignments assignments states ≠ [] := by
  cases assignments with
  | nil => exact absurd rfl some_there
  | cons first rest =>
      have kept : first ∈ solver.dedup_worker_assignments (first :: rest) states := by
        unfold dedup_worker_assignments
        rw [List.foldl_cons]
        exact @dedup_fold_grows (fun uniq assign => uniq.any (solver.same_signature states assign)) _ _ _ List.mem_cons_self
      exact List.ne_nil_of_mem kept

end

-- Every node has a worker that may run it.
structure Hosted (solver : DPSolver K) : Prop where
  staffed : solver.worker_ids ≠ []
  hosted : ∀ nid ∈ solver.node_ids, solver.options nid ≠ []

-- An epoch takes nodes that are to be done, each once and with or after its parents, to
-- workers that may run them, and no two GPU nodes to one worker.
structure Takes (solver : DPSolver K) (done : Finset String) (candidate : Candidate K) : Prop where
  distinct : (candidate.assigned.map Prod.snd).Nodup
  pending : ∀ pair ∈ candidate.assigned, pair.2 ∈ solver.node_ids ∧ pair.2 ∉ done
  able : ∀ pair ∈ candidate.assigned, pair.1 ∈ solver.options pair.2
  ready : ∀ pair ∈ candidate.assigned, ∀ p ∈ solver.parents_mask pair.2, p ∈ done ∨ p ∈ candidate.assigned.map Prod.snd
  apart : ((candidate.assigned.filter fun pair => solver.is_gpu_node pair.2).map Prod.fst).Nodup
  gpu : ∀ pair ∈ candidate.assigned, solver.is_gpu_node pair.2 = true → pair.1 ∈ solver.gpu_worker_ids
  after : candidate.done = done ∪ (candidate.assigned.map Prod.snd).toFinset
  busy : candidate.assigned ≠ []

theorem batch_feasible_iff {nodes : List String} : solver.batch_feasible nodes done = true ↔
    ∀ nid ∈ nodes, ∀ p ∈ solver.parents_mask nid, p ∈ done ∨ p ∈ nodes := by
  unfold batch_feasible
  simp only [List.all_eq_true,decide_eq_true_eq]

-- How many GPU nodes a batch holds.
def gpu_target (solver : DPSolver K) (done : Finset String) : Nat :=
  min (max 1 solver.gpu_worker_ids.length) (solver.pending_gpu done).length

def gpu_least (solver : DPSolver K) (prune : Bool) (done : Finset String) : Nat :=
  if prune then max 1 (gpu_target solver done - solver.tuning.gpu_batch_slack) else 1

def gpu_choices (solver : DPSolver K) (prune : Bool) (done : Finset String) : List (List String) :=
  solver.select_gpu done (gpu_least solver prune done) (gpu_target solver done) (solver.gpu_topo (solver.pending_gpu done)) []

theorem enumerate_gpu_batches_eq (prune : Bool) : solver.enumerate_gpu_batches prune done =
    if solver.pending_gpu done = [] then .ok [[]]
    else if [] :: gpu_choices solver prune done = [[]] then
      .error "DP GPU batch enumeration produced no executable GPU batch despite pending nodes"
    else .ok ([] :: gpu_choices solver prune done) := rfl

-- A batch is some of the pending GPU nodes.
theorem mem_enumerated (distinct : solver.node_ids.Nodup) {prune : Bool} {batches : List (List String)} {batch : List String}
    (enumerated : solver.enumerate_gpu_batches prune done = .ok batches) (member : batch ∈ batches) :
    batch.Nodup ∧ ∀ nid ∈ batch, nid ∈ solver.pending_gpu done := by
  have pending : (solver.pending_gpu done).Nodup := distinct.sublist pending_gpu_sublist
  have topo := @gpu_topo_perm _ solver _ pending
  have empty : ([] : List String).Nodup ∧ ∀ nid ∈ ([] : List String), nid ∈ solver.pending_gpu done :=
    ⟨List.nodup_nil,fun nid inside => absurd inside List.not_mem_nil⟩
  rw [enumerate_gpu_batches_eq] at enumerated
  split at enumerated
  · cases enumerated
    rwa [List.mem_singleton.mp member]
  · split at enumerated
    · cases enumerated
    · cases enumerated
      rcases List.mem_cons.mp member with rfl | selected
      · exact empty
      · obtain ⟨more,sub,same⟩ := select_gpu_sublist selected
        rw [List.nil_append] at same
        subst same
        exact ⟨(topo.nodup_iff.mpr pending).sublist sub,fun nid inside => topo.mem_iff.mp (sub.mem inside)⟩

-- The nodes of an epoch, and how its GPU nodes may be shared out.
def epoch_gpu (solver : DPSolver K) (batch : List String) : List String := by_depth (solver.batch_gpu_depths batch) batch

def epoch_cpu (solver : DPSolver K) (done : Finset String) (batch : List String) : List String :=
  solver.order_cpu_nodes_by_parent_depth (solver.auto_cpu_batch done (epoch_gpu solver batch)) (solver.batch_gpu_depths batch)

def epoch_assigned (solver : DPSolver K) (done : Finset String) (batch : List String) (g_assign : List (String × String)) :
    List (String × String) := g_assign ++ solver.cpu_assignments (epoch_cpu solver done batch)

theorem epoch_gpu_perm (batch : List String) : (epoch_gpu solver batch).Perm batch := by_depth_perm _ _

theorem epoch_cpu_perm (batch : List String) :
    (epoch_cpu solver done batch).Perm (solver.auto_cpu_batch done (epoch_gpu solver batch)) := order_cpu_perm _ _

theorem mem_epoch_cpu {batch : List String} {nid : String}
    (member : nid ∈ epoch_cpu solver done batch) : (nid ∈ solver.node_ids ∧ solver.is_gpu_node nid = false) ∧ nid ∉ done :=
  mem_auto_cpu_batch ((epoch_cpu_perm batch).mem_iff.mp member)

section
variable {batch : List String} {g_assign : List (String × String)}

theorem epoch_assigned_nodes (staffed : solver.worker_ids ≠ []) (assigned : g_assign ∈ solver.gpu_assignments (epoch_gpu solver batch)) :
    (epoch_assigned solver done batch g_assign).map Prod.snd = epoch_gpu solver batch ++ epoch_cpu solver done batch := by
  unfold epoch_assigned
  rw [List.map_append,(mem_gpu_assignments assigned).1,cpu_assignments_nodes staffed]

theorem epoch_nodes_distinct (apart : batch.Nodup)
    (pending : ∀ nid ∈ batch, nid ∈ solver.pending_gpu done) :
    (epoch_gpu solver batch ++ epoch_cpu solver done batch).Nodup := by
  apply List.nodup_append.mpr
  refine ⟨(epoch_gpu_perm batch).nodup_iff.mpr apart,(epoch_cpu_perm batch).nodup_iff.mpr (auto_cpu_batch_nodup _),?_⟩
  intro a gpu b cpu same
  have runs := (mem_pending_gpu.mp (pending a ((epoch_gpu_perm batch).mem_iff.mp gpu))).1.2
  have plain := (mem_epoch_cpu cpu).1.2
  rw [same,plain] at runs
  cases runs

theorem mem_cpu_assignments_node {cpu_nodes : List String} {pair : String × String}
    (member : pair ∈ solver.cpu_assignments cpu_nodes) : pair.2 ∈ cpu_nodes := by
  unfold cpu_assignments at member
  split at member
  · cases member
  · obtain ⟨e,there,same⟩ := List.mem_map.mp member
    subst same
    exact List.fst_mem_of_mem_zipIdx there

theorem epoch_assigned_gpu (assigned : g_assign ∈ solver.gpu_assignments (epoch_gpu solver batch))
    (pending : ∀ nid ∈ batch, nid ∈ solver.pending_gpu done) :
    (epoch_assigned solver done batch g_assign).filter (fun pair => solver.is_gpu_node pair.2) = g_assign := by
  unfold epoch_assigned
  rw [List.filter_append]
  have all : g_assign.filter (fun pair => solver.is_gpu_node pair.2) = g_assign := by
    apply List.filter_eq_self.mpr
    intro pair member
    have there : pair.2 ∈ epoch_gpu solver batch := (mem_gpu_assignments assigned).1 ▸ List.mem_map_of_mem member
    exact (mem_pending_gpu.mp (pending pair.2 ((epoch_gpu_perm batch).mem_iff.mp there))).1.2
  have none_there : (solver.cpu_assignments (epoch_cpu solver done batch)).filter (fun pair => solver.is_gpu_node pair.2) = [] := by
    apply List.filter_eq_nil_iff.mpr
    intro pair member
    rw [(mem_epoch_cpu (mem_cpu_assignments_node member)).1.2]
    exact Bool.false_ne_true
  rw [all,none_there,List.append_nil]

-- What any candidate takes.
theorem takes_epoch (hosted : Hosted solver) (apart : batch.Nodup)
    (pending : ∀ nid ∈ batch, nid ∈ solver.pending_gpu done)
    (feasible : solver.batch_feasible (epoch_gpu solver batch ++ epoch_cpu solver done batch) done = true)
    (assigned : g_assign ∈ solver.gpu_assignments (epoch_gpu solver batch)) (busy : epoch_assigned solver done batch g_assign ≠ [])
    (cost : K) (states : List WorkerState) (plans : Plans K) :
    Takes solver done ⟨cost,done ∪ (epoch_gpu solver batch ++ epoch_cpu solver done batch).toFinset,states,
      epoch_assigned solver done batch g_assign,plans⟩ := by
  have nodes := @epoch_assigned_nodes _ solver done batch g_assign hosted.staffed assigned
  obtain ⟨gpu_nodes,workers,each⟩ := mem_gpu_assignments assigned
  have gpu_known : ∀ pair ∈ g_assign, pair.2 ∈ solver.pending_gpu done := fun pair member =>
    pending pair.2 ((epoch_gpu_perm batch).mem_iff.mp (gpu_nodes ▸ List.mem_map_of_mem member))
  constructor
  · dsimp only
    rw [nodes]
    exact epoch_nodes_distinct apart pending
  · intro pair member
    rcases List.mem_append.mp member with gpu | cpu
    · obtain ⟨known,fresh⟩ := mem_pending_gpu.mp (gpu_known pair gpu)
      exact ⟨known.1,fresh⟩
    · obtain ⟨known,fresh⟩ := mem_epoch_cpu (mem_cpu_assignments_node cpu)
      exact ⟨known.1,fresh⟩
  · intro pair member
    rcases List.mem_append.mp member with gpu | cpu
    · have known := (mem_pending_gpu.mp (gpu_known pair gpu)).1.1
      have listed := (each pair gpu).2
      rwa [gpu_options_eq (hosted.hosted pair.2 known)] at listed
    · exact mem_cpu_assignments (fun nid there => hosted.hosted nid (mem_epoch_cpu there).1.1) cpu
  · intro pair member p parent
    have there : pair.2 ∈ epoch_gpu solver batch ++ epoch_cpu solver done batch := nodes ▸ List.mem_map_of_mem member
    dsimp only
    rw [nodes]
    exact batch_feasible_iff.mp feasible pair.2 there p parent
  · dsimp only
    rw [epoch_assigned_gpu assigned pending]
    exact workers
  · intro pair member runs
    have inside : pair ∈ (epoch_assigned solver done batch g_assign).filter fun pair => solver.is_gpu_node pair.2 :=
      List.mem_filter.mpr ⟨member,runs⟩
    rw [epoch_assigned_gpu assigned pending] at inside
    exact (each pair inside).1
  · dsimp only
    rw [nodes]
  · exact busy

end

section
variable [DecidableEq K]

def epoch_assignments (solver : DPSolver K) (states : List WorkerState) (batch : List String) : List (List (String × String)) :=
  if solver.tuning.enable_worker_symmetry then
    solver.dedup_worker_assignments (solver.gpu_assignments (epoch_gpu solver batch)) states
  else solver.gpu_assignments (epoch_gpu solver batch)

theorem mem_epoch_assignments {states : List WorkerState} {batch : List String} {assign : List (String × String)}
    (member : assign ∈ epoch_assignments solver states batch) : assign ∈ solver.gpu_assignments (epoch_gpu solver batch) := by
  unfold epoch_assignments at member
  split at member
  · exact mem_dedup member
  · exact member

end

section
variable [Add K] [Mul K] [Div K] [Zero K] [One K] [NatCast K] [LT K] [DecidableLT K] [LE K] [DecidableLE K] [DecidableEq K]

def epoch_candidate (solver : DPSolver K) (done : Finset String) (epoch_idx : Nat) (batch : List String)
    (g_assign : List (String × String)) (outcome : Outcome K) : Candidate K :=
  ⟨solver.epoch_cost epoch_idx (epoch_gpu solver batch) (solver.batch_gpu_depths batch) outcome,
    done ∪ (epoch_gpu solver batch ++ epoch_cpu solver done batch).toFinset,outcome.next_states,
    epoch_assigned solver done batch g_assign,outcome.batch_plans⟩

theorem batch_candidates_eq (states : List WorkerState) (epoch_idx : Nat) (batch : List String) :
    solver.batch_candidates done states epoch_idx batch =
      if epoch_gpu solver batch ++ epoch_cpu solver done batch = [] then []
      else if solver.batch_feasible (epoch_gpu solver batch ++ epoch_cpu solver done batch) done = false then []
      else (epoch_assignments solver states batch).flatMap fun g_assign =>
        if g_assign = [] ∧ solver.cpu_assignments (epoch_cpu solver done batch) = [] then []
        else (solver.assignment_outcomes g_assign (epoch_cpu solver done batch) states).map
          (epoch_candidate solver done epoch_idx batch g_assign) := rfl

-- What a candidate is made from: a batch, who runs it, and one way it can go.
theorem candidate_epoch (distinct : solver.node_ids.Nodup) {prune : Bool} {states : List WorkerState} {epoch_idx : Nat}
    {candidates : List (Candidate K)} {candidate : Candidate K}
    (listed : solver.candidates prune done states epoch_idx = .ok candidates) (member : candidate ∈ candidates) :
    ∃ batch g_assign outcome, (batch.Nodup ∧ ∀ nid ∈ batch, nid ∈ solver.pending_gpu done) ∧
      solver.batch_feasible (epoch_gpu solver batch ++ epoch_cpu solver done batch) done = true ∧
      g_assign ∈ solver.gpu_assignments (epoch_gpu solver batch) ∧
      ¬ (g_assign = [] ∧ solver.cpu_assignments (epoch_cpu solver done batch) = []) ∧
      outcome ∈ solver.assignment_outcomes g_assign (epoch_cpu solver done batch) states ∧
      candidate = epoch_candidate solver done epoch_idx batch g_assign outcome := by
  obtain ⟨batches,enumerated,same⟩ := Fallible.bind_ok listed
  cases same
  obtain ⟨batch,there,inside⟩ := List.mem_flatMap.mp member
  rw [batch_candidates_eq] at inside
  split at inside
  · cases inside
  · split at inside
    · cases inside
    · rename_i feasible
      obtain ⟨g_assign,assigned,taken⟩ := List.mem_flatMap.mp inside
      split at taken
      · cases taken
      · rename_i busy
        obtain ⟨outcome,run,same⟩ := List.mem_map.mp taken
        exact ⟨batch,g_assign,outcome,mem_enumerated distinct enumerated there,Bool.eq_true_of_not_eq_false feasible,
          mem_epoch_assignments assigned,busy,run,same.symm⟩

theorem takes_candidate (distinct : solver.node_ids.Nodup) (hosted : Hosted solver) {prune : Bool} {states : List WorkerState}
    {epoch_idx : Nat} {candidates : List (Candidate K)} {candidate : Candidate K}
    (listed : solver.candidates prune done states epoch_idx = .ok candidates) (member : candidate ∈ candidates) :
    Takes solver done candidate := by
  obtain ⟨batch,g_assign,outcome,⟨apart,pending⟩,feasible,assigned,busy,_,rfl⟩ := candidate_epoch distinct listed member
  exact takes_epoch hosted apart pending feasible assigned (fun empty => busy (List.append_eq_nil_iff.mp empty)) _ _ _

end

end DPSolver
end Lumilake.Optimizer.Halo

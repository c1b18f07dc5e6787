import Lumilake.Optimizer.HaloPlans

-- From every state the search reaches there is a way on.
namespace Lumilake.Optimizer.Halo
variable {K : Type}

namespace DPSolver
variable {solver : DPSolver K} {done : Finset String}

-- Each GPU node has a GPU worker that may run it.
def Gpu_hosted (solver : DPSolver K) : Prop :=
  ∀ nid ∈ solver.node_ids, solver.is_gpu_node nid = true → ∃ wid ∈ solver.gpu_worker_ids, wid ∈ solver.options nid

-- What is done holds the parents of its nodes.
structure Closed (solver : DPSolver K) (done : Finset String) : Prop where
  known : ∀ nid ∈ done, nid ∈ solver.node_ids
  parents : ∀ nid ∈ done, ∀ p ∈ solver.parents_mask nid, p ∈ done

theorem closed_empty : Closed solver ∅ :=
  ⟨fun nid member => absurd member (Finset.notMem_empty nid),fun nid member => absurd member (Finset.notMem_empty nid)⟩

theorem Closed.step {candidate : Candidate K} (closed : Closed solver done) (takes : Takes solver done candidate) :
    Closed solver candidate.done := by
  have inside : ∀ nid, nid ∈ candidate.done ↔ nid ∈ done ∨ nid ∈ candidate.assigned.map Prod.snd := fun nid => by
    rw [takes.after,Finset.mem_union,List.mem_toFinset]
  constructor
  · intro nid member
    rcases (inside nid).mp member with old | taken
    · exact closed.known nid old
    · obtain ⟨pair,there,same⟩ := List.mem_map.mp taken
      exact same ▸ (takes.pending pair there).1
  · intro nid member p parent
    rcases (inside nid).mp member with old | taken
    · exact (inside p).mpr (.inl (closed.parents nid old p parent))
    · obtain ⟨pair,there,same⟩ := List.mem_map.mp taken
      exact (inside p).mpr (takes.ready pair there p (same ▸ parent))

-- How much is left.
def remaining (solver : DPSolver K) (done : Finset String) : Nat := (solver.node_ids.filter (· ∉ done)).length

theorem Takes.less {candidate : Candidate K} (takes : Takes solver done candidate) (distinct : solver.node_ids.Nodup) :
    remaining solver candidate.done < remaining solver done := by
  have shared := (takes.nodes distinct).length_eq
  rw [List.length_append,List.length_map] at shared
  have some_there := List.length_pos_of_ne_nil takes.busy
  unfold remaining
  omega

theorem all_done (closed : Closed solver done) (none_left : remaining solver done = 0) : done = solver.all_mask := by
  have empty := List.length_eq_zero_iff.mp none_left
  ext nid
  unfold all_mask
  rw [List.mem_toFinset]
  constructor
  · exact closed.known nid
  · intro member
    by_contra fresh
    exact List.filter_eq_nil_iff.mp empty nid member (decide_eq_true fresh)

theorem Ordered.parent_before (ordered : Ordered solver) {front back : List String} {nid p : String}
    (split : solver.node_ids = front ++ nid :: back) (parent : p ∈ solver.parents_mask nid) : p ∈ front := by
  obtain ⟨waits,known⟩ := mem_parents_mask.mp parent
  have forward := ordered.forward
  have here : nid ∈ solver.node_ids := split ▸ List.mem_append_right _ List.mem_cons_self
  rw [split] at known forward
  rcases List.mem_append.mp known with earlier | later
  · exact earlier
  · rcases List.mem_cons.mp later with rfl | after
    · exact absurd waits (ordered.loopless p here)
    · exact absurd waits ((List.pairwise_cons.mp (List.pairwise_append.mp forward).2.1).1 p after)

-- Up to the first GPU node that is left out, the CPU nodes are all filled in.
theorem front_filled (ordered : Ordered solver) {gpu_nodes front back : List String} (split : solver.node_ids = front ++ back)
    (covered : ∀ nid ∈ front, solver.is_gpu_node nid = true → nid ∈ done ∨ nid ∈ gpu_nodes) :
    ∀ nid ∈ front, nid ∈ done ∨ nid ∈ gpu_nodes ∨ nid ∈ solver.auto_cpu_batch done gpu_nodes := by
  induction front using List.reverseRecOn generalizing back with
  | nil => exact fun nid member => absurd member List.not_mem_nil
  | append_singleton front last ih =>
      rw [List.append_assoc] at split
      have earlier := ih split fun nid member => covered nid (List.mem_append_left _ member)
      intro nid member
      rcases List.mem_append.mp member with old | new
      · exact earlier nid old
      · rw [List.mem_singleton] at new
        subst new
        have here : nid ∈ solver.node_ids := split ▸ List.mem_append_right _ List.mem_cons_self
        cases gpu : solver.is_gpu_node nid with
        | true => exact (covered nid member gpu).imp_right .inl
        | false =>
            by_cases old : nid ∈ done
            · exact .inl old
            · refine .inr (.inr (auto_cpu_batch_full gpu_nodes here gpu old fun p parent => ?_))
              exact earlier p (ordered.parent_before split parent)

-- A batch whose GPU nodes wait for nothing else is feasible once it is filled up.
theorem epoch_feasible {batch : List String}
    (ready : ∀ nid ∈ batch, ∀ p ∈ solver.parents_mask nid,
      p ∈ done ∨ p ∈ batch ∨ p ∈ solver.auto_cpu_batch done (epoch_gpu solver batch)) :
    solver.batch_feasible (epoch_gpu solver batch ++ epoch_cpu solver done batch) done = true := by
  have gpu : ∀ p, p ∈ epoch_gpu solver batch ↔ p ∈ batch := fun p => (epoch_gpu_perm batch).mem_iff
  have cpu : ∀ p, p ∈ epoch_cpu solver done batch ↔ p ∈ solver.auto_cpu_batch done (epoch_gpu solver batch) := fun p =>
    (epoch_cpu_perm batch).mem_iff
  apply batch_feasible_iff.mpr
  intro nid member p parent
  rw [List.mem_append,gpu,cpu] at member ⊢
  rcases member with chosen | filled
  · exact ready nid chosen p parent
  · have known := auto_cpu_batch_ready filled parent
    rwa [gpu] at known

-- The first pending GPU node, and those before it in the list of the nodes.
theorem first_pending {g : String} {rest : List String} (pending : solver.pending_gpu done = g :: rest) :
    ∃ front back, solver.node_ids = front ++ g :: back ∧ ∀ nid ∈ front, solver.is_gpu_node nid = true → nid ∈ done := by
  unfold pending_gpu gpu_node_ids at pending
  rw [List.filter_filter] at pending
  obtain ⟨front,back,split,free,_,_⟩ := List.filter_eq_cons_iff.mp pending
  refine ⟨front,back,split,fun nid member gpu => ?_⟩
  by_contra fresh
  refine free nid member ?_
  rw [gpu,Bool.and_true]
  exact decide_eq_true fresh

theorem single_feasible (ordered : Ordered solver) {g : String} {rest : List String} (pending : solver.pending_gpu done = g :: rest) :
    solver.batch_feasible (epoch_gpu solver [g] ++ epoch_cpu solver done [g]) done = true := by
  obtain ⟨front,back,split,free⟩ := first_pending pending
  have single : epoch_gpu solver [g] = [g] := List.perm_singleton.mp (epoch_gpu_perm [g])
  have filled := @front_filled _ solver done ordered [g] front (g :: back) split fun nid member gpu => .inl (free nid member gpu)
  apply epoch_feasible
  intro nid member p parent
  rw [single]
  rw [List.mem_singleton] at member
  subst member
  exact filled p (ordered.parent_before split parent)

theorem rest_feasible : solver.batch_feasible (epoch_gpu solver [] ++ epoch_cpu solver done []) done = true :=
  epoch_feasible fun _ member => absurd member List.not_mem_nil

-- Where no GPU node is left, every node that is left is filled in.
theorem rest_busy (ordered : Ordered solver) (pending : solver.pending_gpu done = []) {nid : String} (known : nid ∈ solver.node_ids)
    (fresh : nid ∉ done) : epoch_gpu solver [] ++ epoch_cpu solver done [] ≠ [] := by
  have covered : ∀ nid ∈ solver.node_ids, solver.is_gpu_node nid = true → nid ∈ done ∨ nid ∈ epoch_gpu solver [] := by
    intro other member gpu
    by_contra outside
    have inside : other ∈ solver.pending_gpu done := mem_pending_gpu.mpr ⟨⟨member,gpu⟩,fun old => outside (.inl old)⟩
    rw [pending] at inside
    cases inside
  have empty : epoch_gpu solver [] = [] := List.perm_nil.mp (epoch_gpu_perm [])
  rcases front_filled ordered (List.append_nil _).symm covered nid known with old | chosen | filled
  · exact absurd old fresh
  · rw [empty] at chosen
    cases chosen
  · exact List.ne_nil_of_mem (List.mem_append_right _ ((epoch_cpu_perm []).mem_iff.mpr filled))

theorem single_assignments {g : String} (shared : Gpu_hosted solver) (hosted : Hosted solver) (known : g ∈ solver.node_ids)
    (gpu : solver.is_gpu_node g = true) : solver.gpu_assignments [g] ≠ [] := by
  obtain ⟨wid,listed,allowed⟩ := shared g known gpu
  have free : wid ∈ solver.gpu_worker_ids.filter fun wid => decide (wid ∈ solver.gpu_options g ∧ wid ∉ []) := by
    apply List.mem_filter.mpr
    rw [gpu_options_eq (hosted.hosted g known)]
    exact ⟨listed,decide_eq_true ⟨allowed,List.not_mem_nil⟩⟩
  unfold gpu_assignments
  rw [assign_gpu]
  intro empty
  have none_there := List.flatMap_eq_nil_iff.mp empty wid free
  rw [assign_gpu] at none_there
  cases none_there

-- Each way of running a node leaves some way on.
theorem choices_ne_nil [One K] (node : Node) (query : DBQuery) : solver.choices_of node query ≠ [] := by
  unfold choices_of
  split
  · exact List.cons_ne_nil _ _
  · exact List.cons_ne_nil _ _

section
variable [Add K] [Mul K] [Zero K] [One K] [LT K] [DecidableLT K]

theorem plan_options_ne_nil (node : Node) (window : Window) : solver.query_plan_options node window ≠ [] := by
  unfold query_plan_options
  have kept : ∀ (queries : List DBQuery) (outcomes : List (K × Window × List (String × QueryPlanChoice K))), outcomes ≠ [] →
      queries.foldl (solver.add_query node) outcomes ≠ [] := by
    intro queries
    induction queries with
    | nil => exact fun outcomes some_there => some_there
    | cons query rest ih =>
        intro outcomes some_there
        rw [List.foldl_cons]
        apply ih
        intro empty
        obtain ⟨first,inside⟩ := List.exists_mem_of_ne_nil _ some_there
        exact choices_ne_nil node query (List.map_eq_nil_iff.mp (List.flatMap_eq_nil_iff.mp empty first inside))
  exact kept node.db_queries _ (List.cons_ne_nil _ _)

variable [LE K] [DecidableLE K]

theorem execute_ne_nil (node_id : String) (state : WorkerState) (window : Window) : solver.execute_node node_id state window ≠ [] := by
  unfold execute_node
  dsimp only
  split
  · split
    · exact List.cons_ne_nil _ _
    · exact fun empty => plan_options_ne_nil _ _ (List.map_eq_nil_iff.mp empty)
  · exact List.cons_ne_nil _ _

variable [DecidableEq K]

theorem run_ne_nil (cpu_nodes : List String) (assign : List (String × String)) (states : List WorkerState) (costs : List K)
    (plans : Plans K) (load : K) (window : Window) : solver.run_assignment cpu_nodes assign states costs plans load window ≠ [] := by
  induction assign generalizing states costs plans load window with
  | nil =>
      rw [run_assignment]
      exact List.cons_ne_nil _ _
  | cons pair rest ih =>
      intro empty
      rw [run_assignment] at empty
      have ways : solver.execute_node pair.2 (solver.state_of states pair.1) window ≠ [] := execute_ne_nil _ _ _
      obtain ⟨run,inside⟩ := List.exists_mem_of_ne_nil _ ways
      exact ih _ _ _ _ _ (List.flatMap_eq_nil_iff.mp empty run inside)

end

section
variable [Add K] [Mul K] [Div K] [Zero K] [One K] [NatCast K] [LT K] [DecidableLT K] [LE K] [DecidableLE K] [DecidableEq K]

theorem batch_has_candidate (staffed : solver.worker_ids ≠ []) {states : List WorkerState} {epoch_idx : Nat} {batch : List String}
    (busy : epoch_gpu solver batch ++ epoch_cpu solver done batch ≠ [])
    (feasible : solver.batch_feasible (epoch_gpu solver batch ++ epoch_cpu solver done batch) done = true)
    (shared : solver.gpu_assignments (epoch_gpu solver batch) ≠ []) : solver.batch_candidates done states epoch_idx batch ≠ [] := by
  rw [batch_candidates_eq,if_neg busy,if_neg (by rw [feasible]; decide)]
  have some_there : epoch_assignments solver states batch ≠ [] := by
    unfold epoch_assignments
    split
    · exact dedup_ne_nil shared
    · exact shared
  obtain ⟨g_assign,member⟩ := List.exists_mem_of_ne_nil _ some_there
  have nodes := @epoch_assigned_nodes _ solver done batch g_assign staffed (mem_epoch_assignments member)
  have taken : ¬ (g_assign = [] ∧ solver.cpu_assignments (epoch_cpu solver done batch) = []) := by
    intro both
    obtain ⟨empty,none_there⟩ := both
    unfold epoch_assigned at nodes
    rw [empty,none_there] at nodes
    exact busy nodes.symm
  intro empty
  have nothing := List.flatMap_eq_nil_iff.mp empty g_assign member
  rw [if_neg taken] at nothing
  exact run_ne_nil _ _ _ _ _ _ _ (List.map_eq_nil_iff.mp nothing)

-- Without pruning there is always a candidate.
theorem unpruned_candidates (ordered : Ordered solver) (hosted : Hosted solver) (shared : Gpu_hosted solver)
    (closed : Closed solver done) (unfinished : done ≠ solver.all_mask) (states : List WorkerState) (epoch_idx : Nat) :
    ∃ candidates, solver.candidates false done states epoch_idx = .ok candidates ∧ candidates ≠ [] := by
  unfold candidates
  rw [enumerate_gpu_batches_eq]
  by_cases pending : solver.pending_gpu done = []
  · rw [if_pos pending]
    refine ⟨_,rfl,?_⟩
    rw [List.flatMap_singleton]
    obtain ⟨nid,left⟩ := List.exists_mem_of_length_pos (Nat.pos_of_ne_zero fun none_left => unfinished (all_done closed none_left))
    obtain ⟨known,fresh⟩ := List.mem_filter.mp left
    apply batch_has_candidate hosted.staffed (rest_busy ordered pending known (of_decide_eq_true fresh)) rest_feasible
    have empty : epoch_gpu solver [] = [] := List.perm_nil.mp (epoch_gpu_perm [])
    rw [empty]
    exact List.cons_ne_nil _ _
  · rw [if_neg pending]
    obtain ⟨g,rest,first⟩ := List.exists_cons_of_ne_nil pending
    have inside : g ∈ solver.pending_gpu done := first ▸ List.mem_cons_self
    obtain ⟨⟨known,gpu⟩,fresh⟩ := mem_pending_gpu.mp inside
    have distinct : (solver.pending_gpu done).Nodup := ordered.distinct.sublist pending_gpu_sublist
    have chosen : [g] ∈ gpu_choices solver false done := by
      have listed : g ∈ solver.gpu_topo (solver.pending_gpu done) := (gpu_topo_perm distinct).mem_iff.mpr inside
      have room : 1 ≤ gpu_target solver done := by
        unfold gpu_target
        rw [first,List.length_cons]
        omega
      refine mem_select_gpu (List.singleton_sublist.mpr listed) (fun front nid back split p waits => ?_) (le_refl 1) room
      obtain ⟨rfl,rfl,rfl⟩ : front = [] ∧ nid = g ∧ back = [] := by
        cases front with
        | nil => cases split; exact ⟨rfl,rfl,rfl⟩
        | cons x xs => cases xs <;> cases split
      obtain ⟨parent,runs⟩ := List.mem_filter.mp waits
      obtain ⟨front,back,split,free⟩ := first_pending first
      exact .inl (free p (ordered.parent_before split parent) runs)
    have some_chosen : [] :: gpu_choices solver false done ≠ [[]] := fun alone =>
      List.ne_nil_of_mem chosen (List.cons.inj alone).2
    rw [if_neg some_chosen]
    refine ⟨_,rfl,fun empty => ?_⟩
    have nothing := List.flatMap_eq_nil_iff.mp empty [g] (List.mem_cons_of_mem _ chosen)
    have single : epoch_gpu solver [g] = [g] := List.perm_singleton.mp (epoch_gpu_perm [g])
    refine batch_has_candidate hosted.staffed ?_ (single_feasible ordered first) ?_ nothing
    · rw [single]
      exact List.cons_ne_nil _ _
    · rw [single]
      exact single_assignments shared hosted known gpu

-- With pruning the first GPU nodes of the order are a batch, so the candidates are listed.
theorem pruned_candidates (ordered : Ordered solver) (prune : Bool) (states : List WorkerState) (epoch_idx : Nat) :
    ∃ candidates, solver.candidates prune done states epoch_idx = .ok candidates := by
  unfold candidates
  rw [enumerate_gpu_batches_eq]
  by_cases pending : solver.pending_gpu done = []
  · rw [if_pos pending]
    exact ⟨_,rfl⟩
  · have distinct : (solver.pending_gpu done).Nodup := ordered.distinct.sublist pending_gpu_sublist
    have perm := @gpu_topo_perm _ solver _ distinct
    have size : ((solver.gpu_topo (solver.pending_gpu done)).take (gpu_target solver done)).length = gpu_target solver done := by
      rw [List.length_take,perm.length_eq]
      unfold gpu_target
      omega
    have some_there := List.length_pos_of_ne_nil pending
    have chosen : (solver.gpu_topo (solver.pending_gpu done)).take (gpu_target solver done) ∈ gpu_choices solver prune done := by
      refine mem_select_gpu (List.take_sublist _ _) (fun front nid back split p waits => ?_) ?_ size.le
      · obtain ⟨parent,runs⟩ := List.mem_filter.mp waits
        obtain ⟨listed,known⟩ := mem_parents_mask.mp parent
        by_cases old : p ∈ done
        · exact .inl old
        · right
          have whole : solver.gpu_topo (solver.pending_gpu done) =
              front ++ nid :: (back ++ (solver.gpu_topo (solver.pending_gpu done)).drop (gpu_target solver done)) := by
            conv_lhs => rw [← List.take_append_drop (gpu_target solver done) (solver.gpu_topo (solver.pending_gpu done)),split]
            rw [List.append_assoc]
            rfl
          refine gpu_topo_waits distinct (ordered.forward.sublist pending_gpu_sublist) (fun x inside => ?_) whole listed
            (mem_pending_gpu.mpr ⟨⟨known,runs⟩,old⟩)
          exact ordered.loopless x (mem_pending_gpu.mp inside).1.1
      · rw [List.nil_append,size]
        unfold gpu_least gpu_target
        split <;> omega
    have some_chosen : [] :: gpu_choices solver prune done ≠ [[]] := fun alone =>
      List.ne_nil_of_mem chosen (List.cons.inj alone).2
    rw [if_neg pending,if_neg some_chosen]
    exact ⟨_,rfl⟩

end

end DPSolver
end Lumilake.Optimizer.Halo

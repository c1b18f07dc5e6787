import Lumilake.Optimizer.HaloSchedule

-- The optimizer as a whole: what it returns is a plan, and where it returns.
namespace Lumilake.Optimizer.Halo
open WorkerCapability

-- The order of the worker lists.
section
variable {order_index : String → Nat}

instance (order_index : String → Nat) : IsTrans Placement (placed_before order_index) where
  trans a b c := by
    intro first second
    unfold placed_before at first second ⊢
    rcases first with low | ⟨same,low | ⟨tied,low⟩⟩
    · rcases second with high | ⟨same',_⟩
      · exact .inl (low.trans high)
      · exact .inl (same' ▸ low)
    · rcases second with high | ⟨same',high | ⟨tied',_⟩⟩
      · exact .inl (same ▸ high)
      · exact .inr ⟨same.trans same',.inl (low.trans high)⟩
      · exact .inr ⟨same.trans same',.inl (tied' ▸ low)⟩
    · rcases second with high | ⟨same',high | ⟨tied',high⟩⟩
      · exact .inl (same ▸ high)
      · exact .inr ⟨same.trans same',.inl (tied ▸ high)⟩
      · exact .inr ⟨same.trans same',.inr ⟨tied.trans tied',String.le_trans low high⟩⟩

instance (order_index : String → Nat) : Std.Total (placed_before order_index) where
  total a b := by
    unfold placed_before
    rcases Nat.lt_trichotomy a.1 b.1 with low | same | high
    · exact .inl (.inl low)
    · rcases Nat.lt_trichotomy (order_index a.2.2) (order_index b.2.2) with low | tied | high
      · exact .inl (.inr ⟨same,.inl low⟩)
      · rcases String.le_total a.2.1 b.2.1 with low | high
        · exact .inl (.inr ⟨same,.inr ⟨tied,low⟩⟩)
        · exact .inr (.inr ⟨same.symm,.inr ⟨tied.symm,high⟩⟩)
      · exact .inr (.inr ⟨same.symm,.inl high⟩)
    · exact .inr (.inl high)

end

def placed_index (node_order : List String) (node_id : String) : Nat :=
  ((RuntimeGraph.order_index node_order).get? node_id).getD (10 ^ 9)

theorem placed_index_mem {node_order : List String} {node_id : String} (distinct : node_order.Nodup) (member : node_id ∈ node_order) :
    placed_index node_order node_id = node_order.idxOf node_id := by
  unfold placed_index
  rw [RuntimeGraph.get?_order_index distinct member,Option.getD_some]

def placed_order (schedule : List Placement) (node_order : List String) : List Placement :=
  schedule.insertionSort (placed_before (placed_index node_order))

theorem group_schedule_eq (schedule : List Placement) (worker_ids node_order : List String) :
    group_schedule_by_worker schedule worker_ids node_order =
      handed_out worker_ids ((placed_order schedule node_order).map Prod.snd) := by
  unfold handed_out
  rw [List.foldl_map]
  rfl

-- Between two epochs the earlier comes first, inside one the node order decides.
theorem placed_follows {K : Type} {solver : DPSolver K} {schedule : List Placement} (ordered : DPSolver.Ordered solver)
    (valid : DPSolver.Valid solver ∅ schedule) {front back : List Placement} {p : Placement}
    (split : placed_order schedule solver.node_ids = front ++ p :: back) {u : String} (waits : u ∈ solver.parents_mask p.2.2) :
    u ∈ front.map fun q => q.2.2 := by
  have perm : (placed_order schedule solver.node_ids).Perm schedule := List.perm_insertionSort _ _
  have sorted : (placed_order schedule solver.node_ids).Pairwise (placed_before (placed_index solver.node_ids)) :=
    List.pairwise_insertionSort _ _
  have here : p ∈ schedule := perm.mem_iff.mp (split ▸ List.mem_append_right _ List.mem_cons_self)
  have known : p.2.2 ∈ solver.node_ids := List.mem_of_mem_filter (valid.nodes.mem_iff.mp (List.mem_map_of_mem here))
  obtain ⟨listed,present⟩ := DPSolver.mem_parents_mask.mp waits
  obtain ⟨before,after,whole⟩ := List.append_of_mem known
  have early := DPSolver.Ordered.parent_before ordered whole waits
  have sooner := idxOf_before ordered.distinct whole early
  rcases valid.ordered p here u waits with none_done | ⟨q,member,same,low⟩
  · exact absurd none_done (Finset.notMem_empty u)
  · have inside := perm.mem_iff.mpr member
    rw [split] at inside
    rcases List.mem_append.mp inside with first | rest
    · exact List.mem_map.mpr ⟨q,first,same⟩
    · rcases List.mem_cons.mp rest with itself | later
      · rw [itself] at same
        exact absurd (same ▸ listed) (ordered.loopless p.2.2 known)
      · rw [split] at sorted
        have behind := (List.pairwise_cons.mp (List.pairwise_append.mp sorted).2.1).1 q later
        unfold placed_before at behind
        rw [same,placed_index_mem ordered.distinct known,placed_index_mem ordered.distinct present] at behind
        rcases behind with high | ⟨_,high | ⟨tied,_⟩⟩
        · omega
        · omega
        · omega

section
variable {repr : String → String} {K : Type} [One K] {names : List String} {worker_profiles : Profiles} {graph : RuntimeGraph}
  {nodes : Dict String Node} {workers : Dict String (Worker K)} {options : Dict String (List String)}
  {inf : K} {plan_choices : Dict (String × String) (List (QueryPlanChoice K))} {costs : Costs K} {tuning : Tuning K}

-- A valid schedule of the solver makes a plan.
theorem Tables.planned (tables : Tables repr names worker_profiles graph nodes workers options) {schedule : List Placement}
    (valid : DPSolver.Valid (solver_of inf graph nodes workers options plan_choices costs tuning) ∅ schedule) :
    Planned graph (suits repr worker_profiles) workers.keys (group_schedule_by_worker schedule workers.keys graph.node_order) := by
  have perm : (placed_order schedule graph.node_order).Perm schedule := List.perm_insertionSort _ _
  have listed : (schedule.map fun p => p.2.2).Perm graph.node_order := by
    have all : graph.node_order.filter (fun nid => decide (nid ∉ (∅ : Finset String))) = graph.node_order :=
      List.filter_eq_self.mpr fun nid _ => decide_eq_true (Finset.notMem_empty nid)
    have whole := valid.nodes
    unfold solver_of make_solver at whole
    dsimp only at whole
    rwa [all] at whole
  have same_nodes : ((placed_order schedule graph.node_order).map Prod.snd).map Prod.snd =
      (placed_order schedule graph.node_order).map fun p => p.2.2 := List.map_map
  have known : ∀ p ∈ schedule, p.2.2 ∈ graph.node_order := fun p member => listed.mem_iff.mp (List.mem_map_of_mem member)
  have offered : ∀ p ∈ schedule, ∃ op, graph.nodes.get? p.2.2 = some op ∧ p.2.1 ∈ names ∧ suits repr worker_profiles p.2.1 op := by
    intro p member
    obtain ⟨op,_,found,_,_,_,_,each⟩ := @Tables.reads _ _ _ _ _ _ _ _ _ inf plan_choices costs tuning tables p.2.2 (known p member)
    exact ⟨op,found,(each p.2.1).mp (valid.able p member)⟩
  rw [group_schedule_eq]
  apply planned_handed_out
  · intro item member
    obtain ⟨p,there,rfl⟩ := List.mem_map.mp member
    obtain ⟨_,_,named,_⟩ := offered p (perm.mem_iff.mp there)
    exact (mem_worker_keys tables.staffed _).mpr named
  · rw [same_nodes]
    exact (perm.map _).trans (listed.trans ((List.perm_ext_iff_of_nodup tables.aligned.distinct graph.nodes.keys_nodup).mpr
      tables.aligned.members))
  · intro item member op node
    obtain ⟨p,there,rfl⟩ := List.mem_map.mp member
    obtain ⟨op',found,_,fits⟩ := offered p (perm.mem_iff.mp there)
    rw [node] at found
    cases found
    exact fits
  · rw [same_nodes]
    intro front x back split y ⟨op,node,needed,present⟩
    obtain ⟨before,rest,whole,rfl,tail⟩ := List.map_eq_append_iff.mp split
    obtain ⟨p,after,rfl,rfl,rfl⟩ := List.map_eq_cons_iff.mp tail
    have here : p ∈ schedule := perm.mem_iff.mp (whole ▸ List.mem_append_right _ List.mem_cons_self)
    obtain ⟨op',_,found,_,_,parents,_⟩ := @Tables.reads _ _ _ _ _ _ _ _ _ inf plan_choices costs tuning tables p.2.2 (known p here)
    rw [node] at found
    cases found
    refine placed_follows tables.ordered valid whole (DPSolver.mem_parents_mask.mpr ⟨?_,(tables.aligned.members y).mpr present⟩)
    rw [parents]
    exact needed

end

-- The check of the schedule passes on every plan.
theorem validate_planned {repr : String → String} {graph : RuntimeGraph} {fits : String → RuntimeOp → Prop} {worker_ids : List String}
    {worker_assignment : Dict String (List String)} (distinct : worker_ids.Nodup)
    (planned : Planned graph fits worker_ids worker_assignment) :
    validate_schedule repr worker_assignment graph worker_ids = .ok () := by
  have keys : worker_ids.Perm worker_assignment.keys :=
    (List.perm_ext_iff_of_nodup distinct worker_assignment.keys_nodup).mpr fun w => (planned.workers w).symm
  have flattened : (worker_ids.flatMap fun w => (worker_assignment.get? w).getD []).Perm graph.nodes.keys := by
    refine (keys.flatMap_right _).trans ?_
    rw [Dict.flatMap_keys]
    exact planned.nodes
  unfold validate_schedule
  dsimp only
  rw [if_neg (not_not.mpr ⟨keys.subset,keys.symm.subset⟩),
    if_neg (not_not.mpr (flattened.nodup_iff.mpr graph.nodes.keys_nodup)),
    if_neg (not_not.mpr ⟨flattened.subset,flattened.symm.subset⟩)]

end Lumilake.Optimizer.Halo

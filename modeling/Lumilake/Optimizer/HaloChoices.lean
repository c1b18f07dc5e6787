import Mathlib.Data.List.Sort
import Lumilake.Optimizer.HaloSolve

-- What the choices of one epoch are made of: batches of GPU nodes, and the CPU nodes that
-- fill them up.
namespace Lumilake.Optimizer.Halo
variable {K : Type}

namespace DPSolver
variable {solver : DPSolver K} {done : Finset String}

theorem mem_gpu_node_ids {nid : String} : nid ∈ solver.gpu_node_ids ↔ nid ∈ solver.node_ids ∧ solver.is_gpu_node nid = true :=
  List.mem_filter

theorem mem_pending_gpu {nid : String} :
    nid ∈ solver.pending_gpu done ↔ (nid ∈ solver.node_ids ∧ solver.is_gpu_node nid = true) ∧ nid ∉ done := by
  rw [pending_gpu,List.mem_filter,mem_gpu_node_ids,decide_eq_true_eq]

theorem mem_parents_mask {nid p : String} : p ∈ solver.parents_mask nid ↔ p ∈ solver.parents nid ∧ p ∈ solver.node_ids := by
  rw [parents_mask,List.mem_filter,decide_eq_true_eq]

-- A batch adds to what was selected a part of the list it was selected from.
theorem select_gpu_sublist {min_r max_r : Nat} {topo selected batch : List String}
    (member : batch ∈ solver.select_gpu done min_r max_r topo selected) :
    ∃ more, more.Sublist topo ∧ batch = selected ++ more := by
  induction topo generalizing selected with
  | nil =>
      rw [select_gpu] at member
      split at member
      · exact ⟨[],.slnil,by rw [List.mem_singleton.mp member,List.append_nil]⟩
      · cases member
  | cons node_id rest ih =>
      rw [select_gpu] at member
      rcases List.mem_append.mp member with skipped | taken
      · obtain ⟨more,sub,same⟩ := ih skipped
        exact ⟨more,sub.cons node_id,same⟩
      · split at taken
        · cases taken
        · split at taken
          · obtain ⟨more,sub,same⟩ := ih taken
            exact ⟨more,sub.cons node_id,same⟩
          · obtain ⟨more,sub,same⟩ := ih taken
            exact ⟨node_id :: more,sub.cons_cons node_id,by rw [same,List.append_assoc]; rfl⟩

-- Every part of the list is a batch whose members wait for no GPU node but done ones and
-- those before them.
theorem mem_select_gpu {min_r max_r : Nat} {topo selected more : List String} (sub : more.Sublist topo)
    (ready : ∀ front nid back, more = front ++ nid :: back → ∀ p ∈ solver.gpu_parents_mask nid, p ∈ done ∨ p ∈ selected ++ front)
    (enough : min_r ≤ (selected ++ more).length) (few : (selected ++ more).length ≤ max_r) :
    selected ++ more ∈ solver.select_gpu done min_r max_r topo selected := by
  induction sub generalizing selected with
  | slnil =>
      rw [List.append_nil] at enough few ⊢
      rw [select_gpu,if_pos ⟨enough,few⟩]
      exact List.mem_singleton_self _
  | cons node_id _ ih =>
      rw [select_gpu]
      exact List.mem_append_left _ (ih ready enough few)
  | @cons_cons more rest node_id _ ih =>
      rw [select_gpu]
      apply List.mem_append_right
      have first := ready [] node_id more rfl
      rw [List.append_nil] at first
      have free : ((solver.gpu_parents_mask node_id).any fun p => decide (p ∉ done ∧ p ∉ selected)) ≠ true := by
        intro blocked
        obtain ⟨p,waits,absent⟩ := List.any_eq_true.mp blocked
        rw [decide_eq_true_eq] at absent
        exact (first p waits).elim absent.1 absent.2
      rw [List.length_append,List.length_cons] at few
      rw [if_neg (by omega),if_neg free]
      have whole : selected ++ node_id :: more = (selected ++ [node_id]) ++ more := by simp
      rw [whole] at enough ⊢
      refine ih (fun front nid back split p waits => ?_) enough (by rw [← whole,List.length_append,List.length_cons]; exact few)
      have known := ready (node_id :: front) nid back (by rw [split]; rfl) p waits
      rwa [List.append_assoc]

-- The nodes are listed once, each after its parents.
structure Ordered (solver : DPSolver K) : Prop where
  distinct : solver.node_ids.Nodup
  forward : solver.node_ids.Pairwise fun a b => b ∉ solver.parents a
  loopless : ∀ nid ∈ solver.node_ids, nid ∉ solver.parents nid

theorem pending_gpu_sublist : (solver.pending_gpu done).Sublist solver.node_ids :=
  List.filter_sublist.trans List.filter_sublist

-- The sort of the pending GPU nodes.
section
variable {pending : List String}

def gpu_children (solver : DPSolver K) (pending : List String) : Adjacency String :=
  pending.foldl (fun d nid => d.set nid (pending.filter fun child => decide (nid ∈ solver.parents child))) Dict.empty

def gpu_in_degree (solver : DPSolver K) (pending : List String) : Dict String Int :=
  pending.foldl (fun d nid => d.set nid ((solver.parents nid).filter (· ∈ pending)).length) Dict.empty

def gpu_drained (solver : DPSolver K) (pending : List String) : List String × Frontier String :=
  drain_heap (fun queue child => queue ++ [child]) (gpu_children solver pending) pending.length []
    ⟨gpu_in_degree solver pending,pending.filter fun nid => degree (gpu_in_degree solver pending) nid = 0⟩

theorem gpu_topo_eq : solver.gpu_topo pending =
    if (gpu_drained solver pending).1.length ≠ pending.length then pending else (gpu_drained solver pending).1 := rfl

theorem neighbors_gpu_children (u : String) : neighbors (gpu_children solver pending) u =
    if u ∈ pending then pending.filter fun child => decide (u ∈ solver.parents child) else [] := by
  unfold neighbors gpu_children
  rw [Dict.get?_foldl_set_each (fun nid => pending.filter fun child => decide (nid ∈ solver.parents child))]
  split
  · rfl
  · rfl

theorem degree_gpu {nid : String} (member : nid ∈ pending) :
    degree (gpu_in_degree solver pending) nid = ((solver.parents nid).filter (· ∈ pending)).length := by
  unfold degree gpu_in_degree
  rw [Dict.get?_foldl_set_each (fun nid => (((solver.parents nid).filter (· ∈ pending)).length : Int)),if_pos member]
  rfl

theorem gpu_drained_start (distinct : pending.Nodup) : Drained (gpu_children solver pending)
    (degree (gpu_in_degree solver pending)) pending (gpu_drained solver pending).1 (gpu_drained solver pending).2 := by
  apply drain_drained (fun _ _ => .refl _)
  · intro u x member
    rw [neighbors_gpu_children] at member
    split at member
    · exact List.mem_of_mem_filter member
    · cases member
  · constructor
    · exact distinct.filter _
    · exact fun x member => List.mem_of_mem_filter member
    · intro x member
      have zero := (List.mem_filter.mp member).2
      rw [decide_eq_true_eq] at zero
      exact zero.le
    · intro x
      simp
    · intro front x back split
      exact absurd split (by simp)

theorem gpu_topo_perm (distinct : pending.Nodup) : (solver.gpu_topo pending).Perm pending := by
  rw [gpu_topo_eq]
  split
  · exact .refl _
  · rename_i all
    exact (gpu_drained_start distinct).whole (not_not.mp all)

-- The edges released by the nodes of a front are those of the parents among them.
theorem count_gpu_children (distinct : pending.Nodup) {nid : String} (member : nid ∈ pending) {front : List String}
    (inside : ∀ u ∈ front, u ∈ pending) :
    (front.flatMap (neighbors (gpu_children solver pending))).count nid = (front.filter (· ∈ solver.parents nid)).length := by
  induction front with
  | nil => rfl
  | cons u rest ih =>
      rw [List.flatMap_cons,List.count_append,ih fun v later => inside v (List.mem_cons_of_mem _ later),neighbors_gpu_children,
        if_pos (inside u List.mem_cons_self),List.filter_cons]
      by_cases edge : u ∈ solver.parents nid
      · have one : (pending.filter fun child => decide (u ∈ solver.parents child)).count nid = 1 :=
          List.count_eq_one_of_mem (distinct.filter _) (List.mem_filter.mpr ⟨member,by simpa using edge⟩)
        rw [one,if_pos (by simpa using edge),List.length_cons]
        omega
      · have none_there : (pending.filter fun child => decide (u ∈ solver.parents child)).count nid = 0 :=
          List.count_eq_zero_of_not_mem fun inside => edge (by simpa using (List.mem_filter.mp inside).2)
        rw [none_there,if_neg (by simpa using edge)]
        omega

-- Where as many parents are released as are listed, all of them are.
theorem all_released {parents front pending : List String} (apart : front.Nodup) (inside : ∀ u ∈ front, u ∈ pending)
    (enough : (parents.filter (· ∈ pending)).length ≤ (front.filter (· ∈ parents)).length) {p : String} (waits : p ∈ parents)
    (known : p ∈ pending) : p ∈ front := by
  have sub : (front.filter (· ∈ parents)).Subperm (parents.filter (· ∈ pending)).dedup := by
    refine (apart.filter _).subperm fun u member => ?_
    obtain ⟨here,listed⟩ := List.mem_filter.mp member
    exact List.mem_dedup.mpr (List.mem_filter.mpr ⟨by simpa using listed,by simpa using inside u here⟩)
  have short := (List.dedup_sublist (parents.filter (· ∈ pending))).length_le
  have same := sub.perm_of_length_le (short.trans enough)
  have there : p ∈ (parents.filter (· ∈ pending)).dedup := List.mem_dedup.mpr (List.mem_filter.mpr ⟨waits,by simpa using known⟩)
  exact List.mem_of_mem_filter (same.mem_iff.mpr there)

theorem gpu_topo_waits (distinct : pending.Nodup) (forward : pending.Pairwise fun a b => b ∉ solver.parents a)
    (loopless : ∀ nid ∈ pending, nid ∉ solver.parents nid) {front back : List String} {nid p : String}
    (split : solver.gpu_topo pending = front ++ nid :: back) (waits : p ∈ solver.parents nid) (known : p ∈ pending) : p ∈ front := by
  have member : nid ∈ pending := (gpu_topo_perm distinct).mem_iff.mp (split ▸ List.mem_append_right _ List.mem_cons_self)
  rw [gpu_topo_eq] at split
  split at split
  · subst split
    rcases List.mem_append.mp known with before | after
    · exact before
    · rcases List.mem_cons.mp after with rfl | later
      · exact absurd waits (loopless p member)
      · exact absurd waits ((List.pairwise_cons.mp (List.pairwise_append.mp forward).2.1).1 p later)
  · have drained := @gpu_drained_start _ solver _ distinct
    have inside : ∀ u ∈ front, u ∈ pending := fun u here =>
      drained.known u (List.mem_append_left _ (split ▸ List.mem_append_left _ here))
    have apart : front.Nodup := by
      have whole := (List.nodup_append.mp drained.distinct).1
      rw [split] at whole
      exact (List.nodup_append.mp whole).1
    have enough := drained.waited front nid back split
    rw [degree_gpu member,count_gpu_children distinct member inside] at enough
    exact all_released apart inside (by exact_mod_cast enough) waits known

end

-- The order of the nodes that run no model.
theorem name_push_perm (heap : List String) (name : String) : (name_push heap name).Perm (heap ++ [name]) := by
  unfold name_push
  exact (List.perm_orderedInsert _ _ _).trans (List.perm_append_singleton name heap).symm

theorem pushed_perm (names heap : List String) : (names.foldl name_push heap).Perm (heap ++ names) := by
  induction names generalizing heap with
  | nil => rw [List.append_nil]; exact .refl _
  | cons name rest ih =>
      rw [List.foldl_cons]
      refine (ih _).trans (((name_push_perm heap name).append_right rest).trans ?_)
      rw [List.append_assoc]
      exact .refl _

theorem mem_keys_children_of {nid : String} : nid ∈ solver.children_of.keys ↔ nid ∈ solver.node_ids := by
  unfold children_of
  rw [Dict.mem_keys_foldl_set (fun nid : String => nid)]
  simp

theorem mem_neighbors_children_of {u nid : String} (edge : nid ∈ neighbors solver.children_of u) : nid ∈ solver.node_ids := by
  unfold neighbors children_of at edge
  rw [Dict.get?_foldl_set_each (fun parent => solver.node_ids.flatMap fun nid =>
    List.replicate ((solver.parents nid).count parent) nid)] at edge
  split at edge
  · obtain ⟨child,member,inside⟩ := List.mem_flatMap.mp edge
    rw [List.eq_of_mem_replicate inside]
    exact member
  · cases edge

theorem topological_start : Drained solver.children_of (degree (count_in_degree solver.children_of)) solver.node_ids []
    ⟨count_in_degree solver.children_of,
      (((count_in_degree solver.children_of).entries.filter fun e => e.2 = 0).map Prod.fst).foldl name_push []⟩ := by
  have start := settled_start solver.children_of
  have ready := pushed_perm (((count_in_degree solver.children_of).entries.filter fun e => e.2 = 0).map Prod.fst) []
  constructor
  · exact ready.nodup_iff.mpr start.distinct
  · intro x member
    rcases mem_count_in_degree.mp (start.known x (ready.mem_iff.mp member)) with key | edge
    · exact mem_keys_children_of.mp key
    · obtain ⟨u,_,inside⟩ := List.mem_flatMap.mp edge
      exact mem_neighbors_children_of inside
  · exact fun x member => start.spent x (ready.mem_iff.mp member)
  · intro x
    simp
  · intro front x back split
    exact absurd split (by simp)

theorem topological_order_perm {order : List String} (sorted : solver.topological_order = .ok order) :
    order.Perm solver.node_ids := by
  unfold topological_order at sorted
  dsimp only at sorted
  split at sorted
  · cases sorted
  · rename_i all
    cases sorted
    have drained := drain_drained name_push_perm (fun u x edge => mem_neighbors_children_of edge) solver.node_ids.length
      (@topological_start _ solver)
    exact drained.whole (not_not.mp all)

theorem mem_db_topo_order {nid : String} :
    nid ∈ solver.db_topo_order ↔ nid ∈ solver.node_ids ∧ solver.is_gpu_node nid = false := by
  unfold db_topo_order
  dsimp only
  rw [List.mem_filter,Bool.not_eq_true']
  cases sorted : solver.topological_order with
  | error message => exact Iff.rfl
  | ok order => rw [(topological_order_perm sorted).mem_iff]

-- The nodes that fill an epoch up.
structure Filled (solver : DPSolver K) (done base : Finset String) (s : Filling) : Prop where
  batch : s.batch = base ∪ s.selected.toFinset
  distinct : s.selected.Nodup
  known : ∀ nid ∈ s.selected, nid ∈ solver.db_topo_order
  fresh : ∀ nid ∈ s.selected, nid ∉ done
  waited : ∀ nid ∈ s.selected, ∀ p ∈ solver.parents_mask nid, p ∈ s.batch

section
variable {base : Finset String} {s : Filling}

theorem Filled.node (filled : Filled solver done base s) {nid : String} (known : nid ∈ solver.db_topo_order) :
    Filled solver done base (solver.fill_node done s nid) := by
  unfold fill_node
  split
  · exact filled
  · rename_i free
    obtain ⟨pending,unselected⟩ := not_or.mp free
    split
    · exact filled
    · rename_i ready
      constructor
      · rw [List.toFinset_append,← Finset.union_assoc,← filled.batch,Finset.union_comm]
        rfl
      · exact List.nodup_append.mpr ⟨filled.distinct,List.nodup_singleton nid,fun x old y new same =>
          unselected (List.mem_singleton.mp new ▸ same ▸ old)⟩
      · intro x member
        rcases List.mem_append.mp member with old | new
        · exact filled.known x old
        · exact List.mem_singleton.mp new ▸ known
      · intro x member
        rcases List.mem_append.mp member with old | new
        · exact filled.fresh x old
        · exact List.mem_singleton.mp new ▸ pending
      · intro x member p parent
        apply Finset.mem_insert_of_mem
        rcases List.mem_append.mp member with old | new
        · exact filled.waited x old p parent
        · by_contra outside
          rw [List.mem_singleton.mp new] at parent
          exact ready (List.any_eq_true.mpr ⟨p,parent,decide_eq_true outside⟩)

theorem Filled.nodes (filled : Filled solver done base s) {nids : List String} (known : ∀ nid ∈ nids, nid ∈ solver.db_topo_order) :
    Filled solver done base (nids.foldl (solver.fill_node done) s) := by
  induction nids generalizing s with
  | nil => exact filled
  | cons nid rest ih =>
      exact ih (filled.node (known nid List.mem_cons_self)) fun x later => known x (List.mem_cons_of_mem _ later)

theorem Filled.passes (filled : Filled solver done base s) (turns : Nat) :
    Filled solver done base (solver.fill_passes done turns s) := by
  induction turns generalizing s with
  | zero => exact filled
  | succ turns ih =>
      have after := filled.nodes fun nid member => member
      rw [fill_passes]
      split
      · exact after
      · exact ih after

-- A node that a pass leaves where it was waits for one outside the batch.
def Waits (solver : DPSolver K) (done : Finset String) (s : Filling) (nid : String) : Prop :=
  nid ∈ done ∨ nid ∈ s.selected ∨ ∃ p ∈ solver.parents_mask nid, p ∉ s.batch

theorem fill_node_grows (nid : String) : s.selected.length ≤ (solver.fill_node done s nid).selected.length := by
  unfold fill_node
  split
  · exact le_rfl
  · split
    · exact le_rfl
    · rw [List.length_append]
      exact Nat.le_add_right _ _

theorem fill_nodes_grow (nids : List String) : s.selected.length ≤ (nids.foldl (solver.fill_node done) s).selected.length := by
  induction nids generalizing s with
  | nil => exact le_rfl
  | cons nid rest ih => exact (fill_node_grows nid).trans ih

theorem fill_node_idle {nid : String} (idle : (solver.fill_node done s nid).selected.length = s.selected.length) :
    solver.fill_node done s nid = s ∧ Waits solver done s nid := by
  unfold fill_node at idle ⊢
  split at idle
  · rename_i settled
    rw [if_pos settled]
    exact ⟨rfl,settled.imp_right .inl⟩
  · rename_i free
    rw [if_neg free]
    split at idle
    · rename_i blocked
      rw [if_pos blocked]
      obtain ⟨p,parent,outside⟩ := List.any_eq_true.mp blocked
      exact ⟨rfl,.inr (.inr ⟨p,parent,of_decide_eq_true outside⟩)⟩
    · rw [List.length_append,List.length_singleton] at idle
      omega

theorem fill_pass_idle {nids : List String} (idle : (nids.foldl (solver.fill_node done) s).selected.length = s.selected.length) :
    nids.foldl (solver.fill_node done) s = s ∧ ∀ nid ∈ nids, Waits solver done s nid := by
  induction nids with
  | nil => exact ⟨rfl,fun nid member => absurd member List.not_mem_nil⟩
  | cons nid rest ih =>
      rw [List.foldl_cons] at idle ⊢
      have first := @fill_node_grows _ solver done s nid
      have later := @fill_nodes_grow _ solver done (solver.fill_node done s nid) rest
      obtain ⟨same,waits⟩ := @fill_node_idle _ solver done s nid (by omega)
      rw [same] at idle ⊢
      exact ⟨(ih idle).1,List.forall_mem_cons.mpr ⟨waits,(ih idle).2⟩⟩

-- Every pass but the last selects a node, so the passes end.
theorem fill_passes_full (filled : Filled solver done base s) {turns : Nat}
    (room : solver.db_topo_order.length < s.selected.length + turns) :
    ∀ nid ∈ solver.db_topo_order, Waits solver done (solver.fill_passes done turns s) nid := by
  induction turns generalizing s with
  | zero =>
      have short := (filled.distinct.subperm filled.known).length_le
      omega
  | succ turns ih =>
      rw [fill_passes]
      split
      · rename_i idle
        obtain ⟨same,waits⟩ := fill_pass_idle idle
        rw [same]
        exact waits
      · rename_i busy
        have grown := @fill_nodes_grow _ solver done s solver.db_topo_order
        exact ih (filled.nodes fun nid member => member) (by omega)

end

theorem filled_start (base : Finset String) : Filled solver done base ⟨[],base⟩ := by
  constructor
  · rw [List.toFinset_nil,Finset.union_empty]
  · exact List.nodup_nil
  · exact fun nid member => absurd member List.not_mem_nil
  · exact fun nid member => absurd member List.not_mem_nil
  · exact fun nid member => absurd member List.not_mem_nil

theorem auto_cpu_batch_filled (gpu_nodes : List String) : Filled solver done (done ∪ gpu_nodes.toFinset)
    (solver.fill_passes done (solver.db_topo_order.length + 1) ⟨[],done ∪ gpu_nodes.toFinset⟩) :=
  (filled_start _).passes _

theorem auto_cpu_batch_nodup (gpu_nodes : List String) : (solver.auto_cpu_batch done gpu_nodes).Nodup :=
  (auto_cpu_batch_filled gpu_nodes).distinct

theorem mem_auto_cpu_batch {gpu_nodes : List String} {nid : String}
    (member : nid ∈ solver.auto_cpu_batch done gpu_nodes) :
    (nid ∈ solver.node_ids ∧ solver.is_gpu_node nid = false) ∧ nid ∉ done :=
  ⟨mem_db_topo_order.mp ((auto_cpu_batch_filled gpu_nodes).known nid member),
    (auto_cpu_batch_filled gpu_nodes).fresh nid member⟩

theorem auto_cpu_batch_ready {gpu_nodes : List String} {nid p : String} (member : nid ∈ solver.auto_cpu_batch done gpu_nodes)
    (parent : p ∈ solver.parents_mask nid) : p ∈ done ∨ p ∈ gpu_nodes ∨ p ∈ solver.auto_cpu_batch done gpu_nodes := by
  have filled := @auto_cpu_batch_filled _ solver done gpu_nodes
  have inside := filled.waited nid member p parent
  rwa [filled.batch,Finset.mem_union,Finset.mem_union,List.mem_toFinset,List.mem_toFinset,or_assoc] at inside

-- What is left out waits.
theorem auto_cpu_batch_full (gpu_nodes : List String) {nid : String}
    (member : nid ∈ solver.node_ids) (cpu : solver.is_gpu_node nid = false) (pending : nid ∉ done)
    (ready : ∀ p ∈ solver.parents_mask nid, p ∈ done ∨ p ∈ gpu_nodes ∨ p ∈ solver.auto_cpu_batch done gpu_nodes) :
    nid ∈ solver.auto_cpu_batch done gpu_nodes := by
  have filled := @auto_cpu_batch_filled _ solver done gpu_nodes
  have room : solver.db_topo_order.length < (⟨[],done ∪ gpu_nodes.toFinset⟩ : Filling).selected.length +
      (solver.db_topo_order.length + 1) := by
    change _ < 0 + _
    omega
  have full := @fill_passes_full _ solver done _ _ (filled_start (done ∪ gpu_nodes.toFinset)) _ room nid (mem_db_topo_order.mpr ⟨member,cpu⟩)
  rcases full with settled | selected | ⟨p,parent,outside⟩
  · exact absurd settled pending
  · exact selected
  · refine absurd ?_ outside
    rw [filled.batch,Finset.mem_union,Finset.mem_union,List.mem_toFinset,List.mem_toFinset,or_assoc]
    exact ready p parent

end DPSolver
end Lumilake.Optimizer.Halo

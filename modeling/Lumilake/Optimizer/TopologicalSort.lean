import Lumilake.Capacity
import Lumilake.Library.Ranking
import Lumilake.Optimizer.Halo
import Lumilake.Optimizer.Planned

-- The optimizer that gives every node to the first worker of its kind.
namespace Lumilake.Optimizer.TopologicalSort
open WorkerCapability Halo Relation

def GPU_BACKENDS : List String := ["vllm","transformers","diffusers","omni"]

def gpu_workers (worker_names : List String) (worker_profiles : Profiles) : List String :=
  let named := worker_names.filter fun w => (worker_profiles.get? w).any Profile.has_gpu
  if named = [] then worker_names else named

def cpu_workers (worker_names : List String) (worker_profiles : Profiles) : List String :=
  let named := worker_names.filter fun w => !(worker_profiles.get? w).any Profile.has_gpu
  if named = [] then worker_names else named

def candidates (worker_names : List String) (worker_profiles : Profiles) (task_type : String) : List String :=
  worker_names.filter fun w => !(profile_of worker_profiles w).has_gpu &&
    decide (task_type ∈ advertised_task_types (profile_of worker_profiles w).toWorkerProfile)

-- `workers[0]`
def first_of (workers : List String) : Except String String :=
  match workers with
  | [] => .error "IndexError: list index out of range"
  | w :: _ => .ok w

section
variable (repr : String → String) (worker_names : List String) (worker_profiles : Profiles)

def choose_worker (node_id : String) (op : RuntimeOp) : Except String String :=
  if op.task_type ∈ CAPABILITY_GATED_TASK_TYPES then
    match candidates worker_names worker_profiles op.task_type with
    | [] => .error ("Node '" ++ node_id ++ "' has task type " ++ repr op.task_type ++
        ", but none of the selected CPU workers in " ++ names_text repr worker_names ++ " advertises it.")
    | w :: _ => .ok w
  else if op.backend ∈ GPU_BACKENDS then first_of (gpu_workers worker_names worker_profiles)
  else first_of (cpu_workers worker_names worker_profiles)

def assign_node (graph : RuntimeGraph) (assignment : Dict String (List String)) (node_id : String) :
    Except String (Dict String (List String)) := do
  let op ← op_of repr graph node_id
  let worker ← choose_worker repr worker_names worker_profiles node_id op
  pure (hand_out assignment (worker,node_id))

def generate_schedule (graph : RuntimeGraph) : Except String (Dict String (List String)) := do
  let order ← graph.topological_order
  order.foldlM (assign_node repr worker_names worker_profiles graph) (empty_lists worker_names)

end

-- A gated node goes to a CPU worker that advertises it, any other to a worker of its kind,
-- where there is one.
def suits (worker_names : List String) (worker_profiles : Profiles) (w : String) (op : RuntimeOp) : Prop :=
  if op.task_type ∈ CAPABILITY_GATED_TASK_TYPES then w ∈ candidates worker_names worker_profiles op.task_type
  else if op.backend ∈ GPU_BACKENDS then w ∈ gpu_workers worker_names worker_profiles
  else w ∈ cpu_workers worker_names worker_profiles

section
variable {repr : String → String} {worker_names : List String} {worker_profiles : Profiles}

theorem first_of_ok {workers : List String} {w : String} (chosen : first_of workers = .ok w) : w ∈ workers := by
  cases workers with
  | nil => cases chosen
  | cons first rest =>
      cases chosen
      exact List.mem_cons_self

theorem gpu_workers_subset {w : String} (member : w ∈ gpu_workers worker_names worker_profiles) : w ∈ worker_names := by
  unfold gpu_workers at member
  dsimp only at member
  split at member
  · exact member
  · exact List.mem_of_mem_filter member

theorem cpu_workers_subset {w : String} (member : w ∈ cpu_workers worker_names worker_profiles) : w ∈ worker_names := by
  unfold cpu_workers at member
  dsimp only at member
  split at member
  · exact member
  · exact List.mem_of_mem_filter member

theorem choose_worker_ok {node_id w : String} {op : RuntimeOp}
    (chosen : choose_worker repr worker_names worker_profiles node_id op = .ok w) :
    w ∈ worker_names ∧ suits worker_names worker_profiles w op := by
  unfold choose_worker at chosen
  unfold suits
  split at chosen
  · rename_i gated
    rw [if_pos gated]
    split at chosen
    · cases chosen
    · rename_i first rest listed
      cases chosen
      have inside : w ∈ candidates worker_names worker_profiles op.task_type := listed ▸ List.mem_cons_self
      exact ⟨List.mem_of_mem_filter inside,inside⟩
  · rename_i free
    rw [if_neg free]
    split at chosen
    · rename_i gpu
      rw [if_pos gpu]
      exact ⟨gpu_workers_subset (first_of_ok chosen),first_of_ok chosen⟩
    · rename_i cpu
      rw [if_neg cpu]
      exact ⟨cpu_workers_subset (first_of_ok chosen),first_of_ok chosen⟩

-- The loop hands the order out, one chosen worker a node.
theorem assign_loop {graph : RuntimeGraph} {order : List String} {assignment after : Dict String (List String)}
    (done : order.foldlM (assign_node repr worker_names worker_profiles graph) assignment = .ok after) :
    ∃ items : List (String × String), items.map Prod.snd = order ∧ after = items.foldl hand_out assignment ∧
      ∀ item ∈ items, item.1 ∈ worker_names ∧ ∀ op, graph.nodes.get? item.2 = some op → suits worker_names worker_profiles item.1 op := by
  induction order generalizing assignment with
  | nil =>
      cases done
      exact ⟨[],rfl,rfl,fun item member => absurd member List.not_mem_nil⟩
  | cons node_id rest ih =>
      rw [List.foldlM_cons] at done
      obtain ⟨next,turn,later⟩ := Fallible.bind_ok done
      obtain ⟨op,found,turn⟩ := Fallible.bind_ok turn
      obtain ⟨worker,chosen,same⟩ := Fallible.bind_ok turn
      cases same
      obtain ⟨items,nodes,rfl,each⟩ := ih later
      refine ⟨(worker,node_id) :: items,by rw [List.map_cons,nodes],rfl,List.forall_mem_cons.mpr ⟨?_,each⟩⟩
      obtain ⟨listed,fits⟩ := choose_worker_ok chosen
      refine ⟨listed,fun other node => ?_⟩
      unfold op_of at found
      dsimp only at node
      rw [node] at found
      cases found
      exact fits

-- What is returned is a plan.
theorem topological_schedule_planned {graph : RuntimeGraph} {assignment : Dict String (List String)}
    (done : generate_schedule repr worker_names worker_profiles graph = .ok assignment) :
    Planned graph (suits worker_names worker_profiles) worker_names assignment := by
  obtain ⟨order,sorted,loop⟩ := Fallible.bind_ok done
  obtain ⟨distinct,members,earlier⟩ := RuntimeGraph.topological_order_spec sorted
  obtain ⟨items,nodes,rfl,each⟩ := assign_loop loop
  apply planned_handed_out
  · exact fun item member => (each item member).1
  · rw [nodes]
    exact (List.perm_ext_iff_of_nodup distinct graph.nodes.keys_nodup).mpr members
  · exact fun item member => (each item member).2
  · rw [nodes]
    intro front x back split y ⟨op,node,needed,present⟩
    exact earlier front x back split op node y needed present

theorem topological_schedule_planned_retrieval :
    Planned retrieval_then_prompt (suits ["gpu-0","cpu-0"] gpu_and_cpu) ["gpu-0","cpu-0"] retrieval_on_cpu :=
  @topological_schedule_planned id _ _ _ _ rfl

-- The graph has no cycle of nodes.
def Acyclic (graph : RuntimeGraph) : Prop := ∀ x, ¬ TransGen (waits_for graph) x x

theorem topological_order_returns {graph : RuntimeGraph} (acyclic : Acyclic graph) : ∃ order, graph.topological_order = .ok order := by
  classical
  have inside : ∀ a b, waits_for graph b a → a ∈ graph.nodes.keys := fun a b ⟨_,_,_,present⟩ => present
  have backward : ∀ x, ¬ TransGen (fun a b => waits_for graph b a) x x := fun x cycle => acyclic x (transGen_swap.mp cycle)
  obtain ⟨rank,ranked⟩ := Ranking.rank_of_acyclic inside backward
  have follows : ∀ u x, x ∈ neighbors graph.dependency_edges u →
      (if u ∈ graph.nodes.keys then rank u + 1 else 0) < (if x ∈ graph.nodes.keys then rank x + 1 else 0) := by
    intro u x edge
    rcases (RuntimeGraph.edges_of_entries RuntimeOp.dependencies _ _ _ _).1.mp edge with start | ⟨op,member,needed⟩
    · unfold neighbors at start
      cases found : (graph.nodes.mapValues fun _ _ => ([] : List String)).get? u with
      | none => rw [found] at start; cases start
      | some names =>
          rw [found] at start
          obtain ⟨e,_,same⟩ := List.mem_map.mp (Dict.get?_eq_some.mp found)
          rw [← (Prod.mk.inj same).2] at start
          cases start
    · have node := Dict.get?_eq_some.mpr member
      rw [if_pos (Dict.mem_keys_iff.mpr ⟨op,node⟩)]
      split
      · rename_i present
        exact Nat.succ_lt_succ (ranked u x ⟨op,node,needed,present⟩)
      · exact Nat.succ_pos _
  obtain ⟨sorted,found⟩ := topological_sort_complete (some graph.secondary_key) _ follows
  unfold RuntimeGraph.topological_order
  rw [found]
  exact ⟨_,rfl⟩

theorem acyclic_of_topological_order {graph : RuntimeGraph} {order : List String} (sorted : graph.topological_order = .ok order) :
    Acyclic graph := by
  obtain ⟨distinct,members,earlier⟩ := RuntimeGraph.topological_order_spec sorted
  intro x cycle
  have backward := transGen_swap.mpr cycle
  refine Ranking.acyclic_of_rank order.idxOf (fun a b waits => ?_) x backward
  obtain ⟨op,node,needed,present⟩ := waits
  obtain ⟨front,back,split⟩ := List.append_of_mem ((members b).mpr (Dict.mem_keys_iff.mpr ⟨op,node⟩))
  exact idxOf_before distinct split (earlier front b back split op node a needed present)

theorem gpu_workers_ne_nil (staffed : worker_names ≠ []) : gpu_workers worker_names worker_profiles ≠ [] := by
  unfold gpu_workers
  dsimp only
  split
  · exact staffed
  · assumption

theorem cpu_workers_ne_nil (staffed : worker_names ≠ []) : cpu_workers worker_names worker_profiles ≠ [] := by
  unfold cpu_workers
  dsimp only
  split
  · exact staffed
  · assumption

theorem choose_worker_returns (staffed : worker_names ≠ []) {node_id : String} {op : RuntimeOp}
    (advertised : op.task_type ∈ CAPABILITY_GATED_TASK_TYPES → candidates worker_names worker_profiles op.task_type ≠ []) :
    ∃ w, choose_worker repr worker_names worker_profiles node_id op = .ok w := by
  have first_returns : ∀ {workers : List String}, workers ≠ [] → ∃ w, first_of workers = .ok w := by
    intro workers some_there
    obtain ⟨w,rest,rfl⟩ := List.exists_cons_of_ne_nil some_there
    exact ⟨w,rfl⟩
  unfold choose_worker
  split
  · rename_i gated
    obtain ⟨w,rest,listed⟩ := List.exists_cons_of_ne_nil (advertised gated)
    rw [listed]
    exact ⟨w,rfl⟩
  · split
    · exact first_returns (gpu_workers_ne_nil staffed)
    · exact first_returns (cpu_workers_ne_nil staffed)

-- It returns a plan exactly where the graph is acyclic, there is a worker for its nodes, and
-- every gated node has a CPU worker that advertises it.
theorem topological_schedule_returns_iff (graph : RuntimeGraph) :
    (∃ assignment, generate_schedule repr worker_names worker_profiles graph = .ok assignment) ↔
      Acyclic graph ∧ ∀ nid op, graph.nodes.get? nid = some op → worker_names ≠ [] ∧
        (op.task_type ∈ CAPABILITY_GATED_TASK_TYPES → candidates worker_names worker_profiles op.task_type ≠ []) := by
  constructor
  · intro ⟨assignment,done⟩
    obtain ⟨order,sorted,loop⟩ := Fallible.bind_ok done
    refine ⟨acyclic_of_topological_order sorted,fun nid op node => ?_⟩
    obtain ⟨_,members,_⟩ := RuntimeGraph.topological_order_spec sorted
    have listed : nid ∈ order := (members nid).mpr (Dict.mem_keys_iff.mpr ⟨op,node⟩)
    obtain ⟨items,nodes,_,each⟩ := assign_loop loop
    obtain ⟨item,there,same⟩ := List.mem_map.mp (nodes ▸ listed)
    obtain ⟨named,fits⟩ := each item there
    refine ⟨List.ne_nil_of_mem named,fun gated => ?_⟩
    have served := fits op (same ▸ node)
    unfold suits at served
    rw [if_pos gated] at served
    exact List.ne_nil_of_mem served
  · intro ⟨acyclic,served⟩
    obtain ⟨order,sorted⟩ := topological_order_returns acyclic
    obtain ⟨_,members,_⟩ := RuntimeGraph.topological_order_spec sorted
    have loop : ∀ (rest : List String), (∀ nid ∈ rest, nid ∈ graph.nodes.keys) → ∀ assignment, ∃ after,
        rest.foldlM (assign_node repr worker_names worker_profiles graph) assignment = .ok after := by
      intro rest
      induction rest with
      | nil => exact fun _ assignment => ⟨assignment,rfl⟩
      | cons nid rest ih =>
          intro known assignment
          obtain ⟨op,node⟩ := Dict.mem_keys_iff.mp (known nid List.mem_cons_self)
          obtain ⟨staffed,advertised⟩ := served nid op node
          obtain ⟨w,chosen⟩ := @choose_worker_returns repr _ _ staffed nid op advertised
          obtain ⟨after,later⟩ := ih (fun other member => known other (List.mem_cons_of_mem _ member))
            (hand_out assignment (w,nid))
          refine ⟨after,?_⟩
          rw [List.foldlM_cons]
          unfold assign_node op_of
          rw [node]
          dsimp only
          rw [Fallible.ok_bind,chosen]
          exact later
    obtain ⟨after,done⟩ := loop order (fun nid member => (members nid).mp member) (empty_lists worker_names)
    refine ⟨after,?_⟩
    unfold generate_schedule
    rw [sorted]
    exact done

end
end Lumilake.Optimizer.TopologicalSort

import Lumilake.Optimizer.HaloAccepts

-- The schedule of the search as lists of workers.
namespace Lumilake.Optimizer.Halo
open WorkerCapability

-- Who may run a node: GPU workers those of the GPU engine and no others, and a gated node
-- only workers that advertise its type.
def suits (repr : String → String) (worker_profiles : Profiles) (w : String) (op : RuntimeOp) : Prop :=
  ∃ engine, map_engine repr op.backend op.task_type = .ok engine ∧
    ((profile_of worker_profiles w).has_gpu = true ↔ engine = "vllm") ∧
    (op.task_type ∈ CAPABILITY_GATED_TASK_TYPES →
      op.task_type ∈ advertised_task_types (profile_of worker_profiles w).toWorkerProfile)

section
variable {repr : String → String} {K : Type} {workers : Dict String (Worker K)}

-- The workers a node is offered.
def eligible (workers : Dict String (Worker K)) (node : Node) (tier_names : List String) : List String :=
  if node.type ∈ CAPABILITY_GATED_TASK_TYPES then tier_names.filter (advertises workers node.type) else tier_names

def option_entry (repr : String → String) (workers : Dict String (Worker K)) (nodes : Dict String Node) (nid : String) :
    Except String (List String) :=
  match nodes.get? nid with
  | none => .error ""
  | some node =>
      match tier workers node with
      | none => .error ("Unsupported node for Halo worker assignment: node='" ++ nid ++ "' engine=" ++ repr node.engine ++ " type=" ++
          repr node.type)
      | some tier_names =>
          if eligible workers node tier_names = [] then
            .error ("No compatible workers for node '" ++ nid ++ "' (engine=" ++ node.engine ++ ", type=" ++ node.type ++ ")")
          else .ok ((eligible workers node tier_names).insertionSort (· ≤ ·))

theorem build_options_eq (nodes : Dict String Node) : build_node_worker_options repr nodes workers =
    nodes.keys.foldlM (fun d nid => do let v ← option_entry repr workers nodes nid; pure (d.set nid v)) Dict.empty := by
  unfold build_node_worker_options Dict.keys
  rw [List.foldlM_map]
  have turns : ∀ (entries : List (String × Node)), (∀ e ∈ entries, nodes.get? e.1 = some e.2) → ∀ d : Dict String (List String),
      entries.foldlM (node_options repr workers) d =
        entries.foldlM (fun d e => (option_entry repr workers nodes e.1).bind fun v => pure (d.set e.1 v)) d := by
    intro entries
    induction entries with
    | nil => exact fun _ _ => rfl
    | cons e rest ih =>
        intro known d
        obtain ⟨here,later⟩ := List.forall_mem_cons.mp known
        have turn : node_options repr workers d e = (option_entry repr workers nodes e.1).bind fun v => pure (d.set e.1 v) := by
          unfold node_options option_entry
          rw [here]
          dsimp only
          cases tier workers e.2 with
          | none => rfl
          | some tier_names =>
              change (if eligible workers e.2 tier_names = [] then Except.error _
                else Except.ok (d.set e.1 ((eligible workers e.2 tier_names).insertionSort (· ≤ ·)))) = _
              dsimp only
              by_cases empty : eligible workers e.2 tier_names = []
              · rw [if_pos empty,if_pos empty]
                rfl
              · rw [if_neg empty,if_neg empty]
                rfl
        rw [List.foldlM_cons,List.foldlM_cons,turn]
        exact bind_congr fun next => ih later next
  exact turns nodes.entries (fun e member => Dict.get?_eq_some.mpr member) Dict.empty

-- The tier of a node is of one kind of workers.
theorem tier_of {node : Node} {tier_names : List String} (found : tier workers node = some tier_names) :
    (node.engine = "vllm" ∧ tier_names = workers_of_kind workers true) ∨
      (node.engine ≠ "vllm" ∧ tier_names = workers_of_kind workers false ∧ (node.engine = "db" → node.type = "data_retrieval")) := by
  unfold tier at found
  split at found
  · rename_i gpu
    exact .inl ⟨gpu,(Option.some.inj found).symm⟩
  · rename_i cpu
    right
    split at found
    · rename_i retrieval
      exact ⟨cpu,(Option.some.inj found).symm,fun _ => retrieval.2⟩
    · rename_i other
      have same : tier_names = workers_of_kind workers false ∧ (node.engine = "http" ∨ node.engine = "python") := by
        split at found
        · rename_i http
          exact ⟨(Option.some.inj found).symm,.inl http⟩
        · split at found
          · rename_i python
            exact ⟨(Option.some.inj found).symm,.inr python⟩
          · cases found
      refine ⟨cpu,same.1,fun db => ?_⟩
      rcases same.2 with http | python
      · exact absurd (db.symm.trans http) (by decide)
      · exact absurd (db.symm.trans python) (by decide)

theorem option_entry_ok {nodes : Dict String Node} {nid : String} {options : List String}
    (read : option_entry repr workers nodes nid = .ok options) : ∃ node tier_names, nodes.get? nid = some node ∧
      tier workers node = some tier_names ∧ eligible workers node tier_names ≠ [] ∧
      options = (eligible workers node tier_names).insertionSort (· ≤ ·) := by
  unfold option_entry at read
  split at read
  · cases read
  · rename_i node found
    split at read
    · cases read
    · rename_i tier_names tiered
      split at read
      · cases read
      · rename_i some_there
        cases read
        exact ⟨node,tier_names,found,tiered,some_there,rfl⟩

theorem mem_eligible [One K] {names : List String} {worker_profiles : Profiles} {graph : RuntimeGraph}
    (built : build_workers names worker_profiles graph = .ok workers) {nid : String} {op : RuntimeOp} {engine : String}
    (mapped : map_engine repr op.backend op.task_type = .ok engine) {tier_names : List String}
    (found : tier workers (build_node nid op engine) = some tier_names) (w : String) :
    w ∈ eligible workers (build_node nid op engine) tier_names ↔ w ∈ names ∧ suits repr worker_profiles w op := by
  have tiered : w ∈ tier_names ↔ w ∈ names ∧ ((profile_of worker_profiles w).has_gpu = true ↔ engine = "vllm") := by
    rcases tier_of found with ⟨gpu,same⟩ | ⟨cpu,same,_⟩
    · rw [same,mem_workers_of_kind built]
      exact and_congr_right fun _ => ⟨fun has => ⟨fun _ => gpu,fun _ => has⟩,fun both => both.mpr gpu⟩
    · rw [same,mem_workers_of_kind built]
      refine and_congr_right fun _ => ⟨fun has => ⟨fun yes => ?_,fun vllm => absurd vllm cpu⟩,fun both => ?_⟩
      · rw [has] at yes
        cases yes
      · cases has : (profile_of worker_profiles w).has_gpu with
        | false => rfl
        | true => exact absurd (both.mp has) cpu
  have gate : w ∈ eligible workers (build_node nid op engine) tier_names ↔
      w ∈ tier_names ∧ (op.task_type ∈ CAPABILITY_GATED_TASK_TYPES → advertises workers op.task_type w = true) := by
    unfold eligible
    split
    · rename_i gated
      rw [List.mem_filter]
      exact and_congr_right fun _ => ⟨fun yes _ => yes,fun yes => yes gated⟩
    · rename_i free
      exact ⟨fun member => ⟨member,fun gated => absurd gated free⟩,And.left⟩
  rw [gate,tiered,and_assoc]
  refine and_congr_right fun listed => ?_
  rw [advertises_iff built listed]
  constructor
  · exact fun ⟨kind,advertised⟩ => ⟨engine,mapped,kind,advertised⟩
  · intro ⟨other,mapped',kind,advertised⟩
    rw [mapped] at mapped'
    cases mapped'
    exact ⟨kind,advertised⟩

end

-- What is known of the tables when the solver is made.
structure Tables {K : Type} [One K] (repr : String → String) (names : List String) (worker_profiles : Profiles) (graph : RuntimeGraph)
    (nodes : Dict String Node) (workers : Dict String (Worker K)) (options : Dict String (List String)) : Prop where
  aligned : Aligned graph
  topological : Topological graph
  built : build_nodes repr graph = .ok nodes
  staffed : build_workers names worker_profiles graph = .ok workers
  offered : build_node_worker_options repr nodes workers = .ok options
  some_worker : names ≠ []

section
variable {repr : String → String} {K : Type} [One K] {names : List String} {worker_profiles : Profiles} {graph : RuntimeGraph}
  {nodes : Dict String Node} {workers : Dict String (Worker K)} {options : Dict String (List String)}
  {inf : K} {plan_choices : Dict (String × String) (List (QueryPlanChoice K))} {costs : Costs K} {tuning : Tuning K}

-- The options of a node are the workers that suit it.
theorem Tables.offers (tables : Tables repr names worker_profiles graph nodes workers options) {nid : String}
    (member : nid ∈ graph.node_order) : ∃ op engine offers, graph.nodes.get? nid = some op ∧
      map_engine repr op.backend op.task_type = .ok engine ∧ nodes.get? nid = some (build_node nid op engine) ∧
      options.get? nid = some offers ∧ offers ≠ [] ∧ ∀ w, w ∈ offers ↔ w ∈ names ∧ suits repr worker_profiles w op := by
  obtain ⟨op,engine,known,mapped,found⟩ := build_nodes_ok tables.built member
  have offered := tables.offered
  rw [build_options_eq] at offered
  obtain ⟨offers,read,listed⟩ := (foldlM_table offered nid).1 (Dict.mem_keys_iff.mpr ⟨_,found⟩)
  obtain ⟨node,tier_names,found',tiered,some_there,same⟩ := option_entry_ok read
  rw [found] at found'
  cases found'
  have perm : offers.Perm (eligible workers (build_node nid op engine) tier_names) := same ▸ List.perm_insertionSort _ _
  refine ⟨op,engine,offers,known,mapped,found,listed,fun empty => ?_,fun w => ?_⟩
  · rw [empty] at perm
    exact some_there (List.nil_perm.mp perm)
  · rw [perm.mem_iff]
    exact mem_eligible tables.staffed mapped tiered w

abbrev solver_of (inf : K) (graph : RuntimeGraph) (nodes : Dict String Node) (workers : Dict String (Worker K))
    (options : Dict String (List String)) (plan_choices : Dict (String × String) (List (QueryPlanChoice K))) (costs : Costs K)
    (tuning : Tuning K) : DPSolver K := make_solver inf graph nodes workers options plan_choices costs tuning

-- What the solver reads of a node.
theorem Tables.reads (tables : Tables repr names worker_profiles graph nodes workers options) {nid : String}
    (member : nid ∈ graph.node_order) : ∃ op engine, graph.nodes.get? nid = some op ∧
      map_engine repr op.backend op.task_type = .ok engine ∧
      (solver_of inf graph nodes workers options plan_choices costs tuning).is_gpu_node nid = decide (engine = "vllm") ∧
      (solver_of inf graph nodes workers options plan_choices costs tuning).parents nid = op.dependencies ∧
      (solver_of inf graph nodes workers options plan_choices costs tuning).options nid ≠ [] ∧
      ∀ w, w ∈ (solver_of inf graph nodes workers options plan_choices costs tuning).options nid ↔
        w ∈ names ∧ suits repr worker_profiles w op := by
  obtain ⟨op,engine,offers,known,mapped,found,listed,some_there,each⟩ := tables.offers member
  have offered : (solver_of inf graph nodes workers options plan_choices costs tuning).options nid = offers := by
    unfold DPSolver.options solver_of make_solver
    dsimp only
    rw [Dict.get?_foldl_set_each (fun nid => (options.get? nid).getD workers.keys),if_pos member,listed]
    rfl
  refine ⟨op,engine,known,mapped,?_,?_,offered ▸ some_there,offered ▸ each⟩
  · unfold DPSolver.is_gpu_node DPSolver.node solver_of make_solver
    dsimp only
    rw [found]
    rfl
  · unfold DPSolver.parents solver_of make_solver
    dsimp only
    rw [get?_dependencies_of,if_pos member,known]
    rfl

-- Nodes behind those they wait for are never before them.
theorem pairwise_behind {order : List String} {parents : String → List String} (distinct : order.Nodup)
    (behind : ∀ front x back, order = front ++ x :: back → ∀ p ∈ parents x, p ∈ order → p ∈ front) :
    order.Pairwise (fun a b => b ∉ parents a) ∧ ∀ x ∈ order, x ∉ parents x := by
  have fresh : ∀ front x back, order = front ++ x :: back → x ∉ front ∧ ∀ y ∈ back, y ∉ front := by
    intro front x back split
    rw [split] at distinct
    have apart := (List.nodup_append.mp distinct).2.2
    exact ⟨fun again => apart x again x List.mem_cons_self rfl,fun y later again => apart y again y (List.mem_cons_of_mem _ later) rfl⟩
  constructor
  · have pairs : ∀ back front, order = front ++ back → back.Pairwise fun a b => b ∉ parents a := by
      intro back
      induction back with
      | nil => exact fun _ _ => List.Pairwise.nil
      | cons x rest ih =>
          intro front split
          refine List.pairwise_cons.mpr ⟨fun y later waits => ?_,ih (front ++ [x]) (by rw [split,List.append_assoc]; rfl)⟩
          have known : y ∈ order := split ▸ List.mem_append_right _ (List.mem_cons_of_mem _ later)
          exact (fresh front x rest split).2 y later (behind front x rest split y waits known)
    exact pairs order [] rfl
  · intro x member waits
    obtain ⟨front,back,split⟩ := List.append_of_mem member
    exact (fresh front x back split).1 (behind front x back split x waits member)

theorem Tables.ordered (tables : Tables repr names worker_profiles graph nodes workers options) :
    DPSolver.Ordered (solver_of inf graph nodes workers options plan_choices costs tuning) := by
  have behind : ∀ front x back, graph.node_order = front ++ x :: back →
      ∀ p ∈ (solver_of inf graph nodes workers options plan_choices costs tuning).parents x, p ∈ graph.node_order → p ∈ front := by
    intro front x back split p waits known
    obtain ⟨op,engine,found,_,_,parents,_⟩ := @Tables.reads _ _ _ _ _ _ _ _ _ inf plan_choices costs tuning tables x
      (split ▸ List.mem_append_right _ List.mem_cons_self)
    rw [parents] at waits
    exact tables.topological front x back split op found p waits ((tables.aligned.members p).mp known)
  obtain ⟨forward,loopless⟩ := pairwise_behind tables.aligned.distinct behind
  exact ⟨tables.aligned.distinct,forward,loopless⟩

theorem Tables.hosted (tables : Tables repr names worker_profiles graph nodes workers options) :
    DPSolver.Hosted (solver_of inf graph nodes workers options plan_choices costs tuning) := by
  constructor
  · obtain ⟨name,rest,first⟩ := List.exists_cons_of_ne_nil tables.some_worker
    have listed : name ∈ names := first ▸ List.mem_cons_self
    exact List.ne_nil_of_mem ((mem_worker_keys tables.staffed name).mpr listed)
  · intro nid member
    obtain ⟨_,_,_,_,_,_,some_there,_⟩ := @Tables.reads _ _ _ _ _ _ _ _ _ inf plan_choices costs tuning tables nid member
    exact some_there

theorem Tables.gpu_hosted (tables : Tables repr names worker_profiles graph nodes workers options) :
    DPSolver.Gpu_hosted (solver_of inf graph nodes workers options plan_choices costs tuning) := by
  intro nid member gpu
  obtain ⟨op,engine,_,mapped,runs,_,some_there,each⟩ := @Tables.reads _ _ _ _ _ _ _ _ _ inf plan_choices costs tuning tables nid member
  rw [runs] at gpu
  obtain ⟨w,rest,first⟩ := List.exists_cons_of_ne_nil some_there
  have offered : w ∈ (solver_of inf graph nodes workers options plan_choices costs tuning).options nid := first ▸ List.mem_cons_self
  obtain ⟨listed,engine',mapped',kind,_⟩ := (each w).mp offered
  rw [mapped] at mapped'
  cases mapped'
  exact ⟨w,(mem_workers_of_kind tables.staffed w true).mpr ⟨listed,kind.mpr (of_decide_eq_true gpu)⟩,offered⟩

end
end Lumilake.Optimizer.Halo

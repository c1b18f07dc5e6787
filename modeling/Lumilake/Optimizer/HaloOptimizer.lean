import Lumilake.Optimizer.HaloPlanned
import Mathlib.Data.ENNReal.Inv

-- Where the optimizer returns.
namespace Lumilake.Optimizer.Halo
open WorkerCapability

def selected (worker_names : List String) : List String := (worker_names.map strip).filter (· ≠ "")

-- The graphs that the optimizer accepts for these workers: every node has an engine other
-- than HTTP's, a retrieval is one by its task type too, and there is a worker for each node.
structure Servable (repr : String → String) (graph : RuntimeGraph) (names : List String) (worker_profiles : Profiles) : Prop where
  engine : ∀ nid op, graph.nodes.get? nid = some op → lower (strip op.backend) ≠ "http" ∧
    ∃ engine, map_engine repr op.backend op.task_type = .ok engine ∧ (engine = "db" → op.task_type = "data_retrieval")
  served : ∀ nid op, graph.nodes.get? nid = some op → ∃ w ∈ names, suits repr worker_profiles w op
  gated : ∀ nid op, graph.nodes.get? nid = some op → op.task_type ∈ CAPABILITY_GATED_TASK_TYPES →
    ∃ w ∈ names, (profile_of worker_profiles w).has_gpu = false ∧
      op.task_type ∈ advertised_task_types (profile_of worker_profiles w).toWorkerProfile

section
variable {repr : String → String} {graph : RuntimeGraph} {names : List String} {worker_profiles : Profiles}

theorem cleaned_retrieval : lower (strip "data_retrieval") = "data_retrieval" := by decide

theorem node_of_order (aligned : Aligned graph) {nid : String} (member : nid ∈ graph.node_order) :
    ∃ op, graph.nodes.get? nid = some op := Dict.mem_keys_iff.mp ((aligned.members nid).mp member)

theorem assert_no_http_iff (aligned : Aligned graph) : assert_no_http_nodes repr graph = .ok () ↔
    ∀ nid op, graph.nodes.get? nid = some op → lower (strip op.backend) ≠ "http" := by
  have read : ∀ nid ∈ graph.node_order, ∃ e, (op_of repr graph nid).map (fun op => (nid,op)) = .ok e := by
    intro nid member
    obtain ⟨op,found⟩ := node_of_order aligned member
    rw [op_of_ok.mpr found]
    exact ⟨_,rfl⟩
  obtain ⟨ops,all⟩ := Fallible.mapM_total graph.node_order read
  have each : ∀ nid op, (nid,op) ∈ ops ↔ graph.nodes.get? nid = some op := by
    intro nid op
    constructor
    · intro member
      obtain ⟨nid',_,found⟩ := Fallible.forall₂_right (Fallible.mapM_ok.mp all) member
      obtain ⟨op',here,same⟩ := Fallible.map_ok found
      cases same
      exact op_of_ok.mp here
    · intro node
      have listed := (aligned.members nid).mpr (Dict.mem_keys_iff.mpr ⟨op,node⟩)
      obtain ⟨e,there,found⟩ := Fallible.forall₂_left (Fallible.mapM_ok.mp all) listed
      rw [op_of_ok.mpr node] at found
      cases found
      exact there
  unfold assert_no_http_nodes
  rw [all,Fallible.ok_bind]
  dsimp only
  split
  · rename_i empty
    refine ⟨fun _ nid op node http => ?_,fun _ => rfl⟩
    have inside : nid ∈ (ops.filter fun e => lower (strip e.2.backend) = "http").map Prod.fst :=
      List.mem_map.mpr ⟨(nid,op),List.mem_filter.mpr ⟨(each nid op).mpr node,decide_eq_true http⟩,rfl⟩
    rw [empty] at inside
    cases inside
  · rename_i some_there
    refine ⟨fun done => (by cases done),fun none_http => absurd ?_ some_there⟩
    have none_kept : (ops.filter fun e => lower (strip e.2.backend) = "http") = [] := by
      apply List.filter_eq_nil_iff.mpr
      intro e member http
      exact none_http e.1 e.2 ((each e.1 e.2).mp member) (of_decide_eq_true http)
    rw [none_kept]
    rfl

theorem validate_supported_of (engines : ∀ nid op, graph.nodes.get? nid = some op → ∃ engine,
    map_engine repr op.backend op.task_type = .ok engine ∧ (engine = "db" → op.task_type = "data_retrieval"))
    (aligned : Aligned graph) : validate_supported_runtime_nodes repr graph = .ok ⟨⟩ := by
  apply (Fallible.forM_ok graph.node_order).mpr
  intro nid member
  obtain ⟨op,found⟩ := node_of_order aligned member
  obtain ⟨engine,mapped,retrieval⟩ := engines nid op found
  unfold validate_supported_runtime_node
  rw [op_of_ok.mpr found,Fallible.ok_bind]
  rw [mapped]
  dsimp only
  by_cases db : engine = "db"
  · rw [if_neg (not_not.mpr db),if_neg]
    rintro (backend | task_type)
    · rcases map_engine_cases mapped with vllm | http | python | ⟨_,same⟩
      · exact absurd (db.symm.trans vllm) (by decide)
      · exact absurd (db.symm.trans http) (by decide)
      · exact absurd (db.symm.trans python) (by decide)
      · exact backend same
    · rw [retrieval db] at task_type
      exact task_type cleaned_retrieval
  · rw [if_pos db]

-- Every gated type in the graph is advertised by a CPU worker.
theorem validate_task_type_iff : validate_task_type_workers repr graph names worker_profiles = .ok () ↔
    ∀ nid op, graph.nodes.get? nid = some op → op.task_type ∈ CAPABILITY_GATED_TASK_TYPES →
      ∃ w ∈ names, (profile_of worker_profiles w).has_gpu = false ∧
        op.task_type ∈ advertised_task_types (profile_of worker_profiles w).toWorkerProfile := by
  have empty_iff : validate_task_type_workers repr graph names worker_profiles = .ok () ↔
      unserved graph names worker_profiles = [] := by
    have perm : ((unserved graph names worker_profiles).insertionSort (· ≤ ·)).Perm (unserved graph names worker_profiles) :=
      List.perm_insertionSort _ _
    unfold validate_task_type_workers
    split
    · rename_i empty
      rw [empty] at perm
      exact ⟨fun _ => List.nil_perm.mp perm,fun _ => rfl⟩
    · rename_i first rest sorted
      refine ⟨fun done => (by cases done),fun empty => ?_⟩
      rw [sorted,empty] at perm
      exact absurd (List.perm_nil.mp perm) (List.cons_ne_nil _ _)
  have advertised_iff : ∀ task_type, task_type ∈ ((names.filter fun name => !(profile_of worker_profiles name).has_gpu).flatMap
      fun name => advertised_task_types (profile_of worker_profiles name).toWorkerProfile) ↔
      ∃ w ∈ names, (profile_of worker_profiles w).has_gpu = false ∧
        task_type ∈ advertised_task_types (profile_of worker_profiles w).toWorkerProfile := by
    intro task_type
    rw [List.mem_flatMap]
    constructor
    · intro ⟨w,kept,advertised⟩
      obtain ⟨member,cpu⟩ := List.mem_filter.mp kept
      exact ⟨w,member,by simpa using cpu,advertised⟩
    · intro ⟨w,member,cpu,advertised⟩
      exact ⟨w,List.mem_filter.mpr ⟨member,by simpa using cpu⟩,advertised⟩
  rw [empty_iff]
  unfold unserved required_task_types
  dsimp only
  rw [List.filter_eq_nil_iff]
  constructor
  · intro none_left nid op node gated
    have needed : op.task_type ∈ CAPABILITY_GATED_TASK_TYPES.filter (· ∈ graph.nodes.values.map RuntimeOp.task_type) := by
      apply List.mem_filter.mpr
      refine ⟨gated,decide_eq_true (List.mem_map.mpr ⟨op,?_,rfl⟩)⟩
      exact List.mem_map.mpr ⟨(nid,op),Dict.get?_eq_some.mp node,rfl⟩
    have advertised := none_left op.task_type needed
    rw [decide_eq_true_eq,not_not] at advertised
    exact (advertised_iff op.task_type).mp advertised
  · intro all task_type needed
    obtain ⟨gated,there⟩ := List.mem_filter.mp needed
    obtain ⟨op,member,rfl⟩ := List.mem_map.mp (of_decide_eq_true there)
    obtain ⟨e,entry,rfl⟩ := List.mem_map.mp member
    rw [decide_eq_true_eq,not_not]
    exact (advertised_iff _).mpr (all e.1 e.2 (Dict.get?_eq_some.mpr entry) gated)

end

section
variable {repr : String → String} {K : Type} [One K] {names : List String} {worker_profiles : Profiles} {graph : RuntimeGraph}

theorem build_options_returns {nodes : Dict String Node} {workers : Dict String (Worker K)} (servable : Servable repr graph names worker_profiles)
    (built : build_nodes repr graph = .ok nodes) (staffed : build_workers names worker_profiles graph = .ok workers) :
    ∃ options, build_node_worker_options repr nodes workers = .ok options := by
  rw [build_options_eq]
  apply foldlM_table_total
  intro nid member
  obtain ⟨node,here⟩ := Dict.mem_keys_iff.mp member
  obtain ⟨op,engine,found,mapped,same⟩ := build_nodes_ok built (build_nodes_known built here)
  rw [here] at same
  cases same
  obtain ⟨_,engine',mapped',retrieval⟩ := servable.engine nid op found
  rw [mapped] at mapped'
  cases mapped'
  have tiered : ∃ tier_names, tier workers (build_node nid op engine) = some tier_names := by
    unfold tier
    rcases map_engine_cases mapped with rfl | rfl | rfl | ⟨rfl,_⟩
    · exact ⟨_,rfl⟩
    · exact ⟨_,rfl⟩
    · exact ⟨_,rfl⟩
    · have other : (build_node nid op "db").engine ≠ "vllm" := fun same => absurd same (by decide : "db" ≠ "vllm")
      rw [if_neg other,if_pos ⟨rfl,retrieval rfl⟩]
      exact ⟨_,rfl⟩
  obtain ⟨tier_names,tiered⟩ := tiered
  obtain ⟨w,listed,fits⟩ := servable.served nid op found
  have offered := (mem_eligible staffed mapped tiered w).mpr ⟨listed,fits⟩
  unfold option_entry
  rw [here]
  dsimp only
  rw [tiered]
  dsimp only
  rw [if_neg (List.ne_nil_of_mem offered)]
  exact ⟨_,rfl⟩

-- What the tables say of the graph.
theorem Tables.servable {nodes : Dict String Node} {workers : Dict String (Worker K)} {options : Dict String (List String)}
    (tables : Tables repr names worker_profiles graph nodes workers options)
    (plain : assert_no_http_nodes repr graph = .ok ()) (gated : validate_task_type_workers repr graph names worker_profiles = .ok ()) :
    Servable repr graph names worker_profiles := by
  constructor
  · intro nid op node
    refine ⟨(assert_no_http_iff tables.aligned).mp plain nid op node,?_⟩
    have listed := (tables.aligned.members nid).mpr (Dict.mem_keys_iff.mpr ⟨op,node⟩)
    obtain ⟨op',engine,found,mapped,here⟩ := build_nodes_ok tables.built listed
    rw [node] at found
    cases found
    have offered := tables.offered
    rw [build_options_eq] at offered
    obtain ⟨_,read,_⟩ := (foldlM_table offered nid).1 (Dict.mem_keys_iff.mpr ⟨_,here⟩)
    obtain ⟨node',tier_names,here',tiered,_⟩ := option_entry_ok read
    rw [here] at here'
    cases here'
    refine ⟨engine,mapped,fun db => ?_⟩
    rcases tier_of tiered with ⟨vllm,_⟩ | ⟨_,_,retrieval⟩
    · exact absurd (db.symm.trans vllm) (by decide)
    · exact retrieval db
  · intro nid op node
    have listed := (tables.aligned.members nid).mpr (Dict.mem_keys_iff.mpr ⟨op,node⟩)
    obtain ⟨op',_,offers,found,_,_,_,some_there,each⟩ := tables.offers listed
    rw [node] at found
    cases found
    obtain ⟨w,rest,first⟩ := List.exists_cons_of_ne_nil some_there
    obtain ⟨named,fits⟩ := (each w).mp (first ▸ List.mem_cons_self)
    exact ⟨w,named,fits⟩
  · exact validate_task_type_iff.mp gated

end

section
variable {repr : String → String} {K : Type} [Add K] [Mul K] [Div K] [Zero K] [One K] [NatCast K] [LT K] [DecidableLT K] [LE K]
  [DecidableLE K] [DecidableEq K] {pricing : Pricing K} {inf : K} {graph : RuntimeGraph} {worker_names : List String}
  {worker_profiles : Profiles} {results : ProfileResults K}

-- What the prices are read from.
def priced (repr : String → String) (pricing : Pricing K) (graph : RuntimeGraph) (names : List String) (worker_profiles : Profiles)
    (results : ProfileResults K) : Except String (Costs K × Tuning K) := do
  let nodes ← build_nodes repr graph
  let workers ← build_workers names worker_profiles graph
  pricing nodes workers (build_data_profile_plan_choices repr graph results)

-- At the prices that the graph gets, the finished costs of the solver's runs are finite.
def Affordable (repr : String → String) (pricing : Pricing K) (inf : K) (graph : RuntimeGraph) (names : List String)
    (worker_profiles : Profiles) (results : ProfileResults K) : Prop :=
  ∀ nodes workers options costs tuning, build_nodes repr graph = .ok nodes → build_workers names worker_profiles graph = .ok workers →
    build_node_worker_options repr nodes workers = .ok options →
    pricing nodes workers (build_data_profile_plan_choices repr graph results) = .ok (costs,tuning) →
    DPSolver.Finite (solver_of inf graph nodes workers options (build_data_profile_plan_choices repr graph results) costs tuning)

theorem plan_schedule_ok {names : List String} {worker_assignment : Dict String (List String)} (aligned : Aligned graph)
    (topological : Topological graph) (some_worker : names ≠ [])
    (done : plan_schedule repr pricing inf graph names worker_profiles results = .ok worker_assignment) :
    Planned graph (suits repr worker_profiles) names worker_assignment ∧
      (∃ prices, priced repr pricing graph names worker_profiles results = .ok prices) ∧
      ∃ (nodes : Dict String Node) (workers : Dict String (Worker K)) (options : Dict String (List String)),
        Tables repr names worker_profiles graph nodes workers options := by
  obtain ⟨nodes,built,rest⟩ := Fallible.bind_ok done
  obtain ⟨workers,staffed,rest⟩ := Fallible.bind_ok rest
  obtain ⟨options,offered,rest⟩ := Fallible.bind_ok rest
  obtain ⟨⟨costs,tuning⟩,prices,rest⟩ := Fallible.bind_ok rest
  obtain ⟨found,solved,rest⟩ := Fallible.bind_ok rest
  obtain ⟨_,_,same⟩ := Fallible.bind_ok rest
  cases same
  have tables : Tables repr names worker_profiles graph nodes workers options :=
    ⟨aligned,topological,built,staffed,offered,some_worker⟩
  have valid := DPSolver.solve_valid aligned.distinct tables.hosted solved
  have planned := tables.planned valid
  refine ⟨⟨fun w => (planned.workers w).trans (mem_worker_keys staffed w),planned.suited,planned.nodes,planned.order⟩,
    ⟨(costs,tuning),?_⟩,nodes,workers,options,tables⟩
  unfold priced
  rw [built,Fallible.ok_bind,staffed,Fallible.ok_bind]
  exact prices

theorem plan_schedule_returns {names : List String} (aligned : Aligned graph) (topological : Topological graph)
    (some_worker : names ≠ []) (servable : Servable repr graph names worker_profiles)
    (affordable : Affordable repr pricing inf graph names worker_profiles results)
    {prices : Costs K × Tuning K} (read : priced repr pricing graph names worker_profiles results = .ok prices) :
    ∃ worker_assignment, plan_schedule repr pricing inf graph names worker_profiles results = .ok worker_assignment := by
  obtain ⟨nodes,built,rest⟩ := Fallible.bind_ok read
  obtain ⟨workers,staffed,price⟩ := Fallible.bind_ok rest
  obtain ⟨options,offered⟩ := build_options_returns servable built staffed
  have tables : Tables repr names worker_profiles graph nodes workers options :=
    ⟨aligned,topological,built,staffed,offered,some_worker⟩
  obtain ⟨costs,tuning⟩ := prices
  obtain ⟨found,solved⟩ := DPSolver.solve_returns (affordable nodes workers options costs tuning built staffed offered price) tables.ordered
    tables.hosted tables.gpu_hosted
  have valid := DPSolver.solve_valid aligned.distinct tables.hosted solved
  have checked := @validate_planned repr _ _ _ _ workers.keys_nodup (tables.planned valid)
  refine ⟨group_schedule_by_worker found.schedule workers.keys graph.node_order,?_⟩
  unfold plan_schedule
  rw [built,Fallible.ok_bind,staffed,Fallible.ok_bind,offered,Fallible.ok_bind]
  dsimp only
  rw [price,Fallible.ok_bind]
  dsimp only
  rw [solved,Fallible.ok_bind,checked]
  rfl

theorem empty_planned {fits : String → RuntimeOp → Prop} {names : List String} (empty : graph.nodes.entries = []) :
    Planned graph fits names (names.foldl (fun d worker => d.set worker []) Dict.empty) := by
  have none_there : graph.nodes.keys = [] := by rw [Dict.keys,empty]; rfl
  apply @planned_handed_out graph fits names []
  · exact fun item member => absurd member List.not_mem_nil
  · rw [none_there]
    exact .refl _
  · exact fun item member => absurd member List.not_mem_nil
  · exact fun front x back split => absurd split (by simp)

-- A schedule that is returned is a plan of the graph over the selected workers.
theorem generate_schedule_planned (aligned : Aligned graph) (topological : Topological graph)
    {worker_assignment : Dict String (List String)}
    (done : generate_schedule repr pricing inf graph worker_names worker_profiles results = .ok worker_assignment) :
    Planned graph (suits repr worker_profiles) (selected worker_names) worker_assignment := by
  unfold generate_schedule at done
  dsimp only at done
  split at done
  · cases done
  · rename_i some_worker
    split at done
    · rename_i empty
      cases done
      exact empty_planned empty
    · obtain ⟨_,_,done⟩ := Fallible.bind_ok done
      obtain ⟨_,_,done⟩ := Fallible.bind_ok done
      obtain ⟨_,_,done⟩ := Fallible.bind_ok done
      split at done
      · rename_i planned
        cases done
        exact (plan_schedule_ok aligned topological some_worker planned).1
      · cases done

-- Prices of one a step.
def unit_costs {K : Type} [Zero K] [One K] : Costs K where
  exec_cost := fun _ _ => 1
  cache_multiplier := fun _ _ => 1
  model_init_cost := fun _ _ => 0
  llm_cache_bonus := fun _ _ _ => 1
  epoch_penalty := fun _ => 1
  http_sleep_cost := fun _ => 0

def unit_tuning {K : Type} [Zero K] [One K] : Tuning K where
  window_size := 1
  naive_cpu_cost := false
  cpu_load_cost_weight := 1
  cpu_load_early_weight := 1
  gpu_cost_max_weight := 1
  gpu_cost_sum_weight := 1
  gpu_depth_cost_weight := 1
  lower_bound_cost_factor := 0
  gpu_batch_slack := 1
  enable_batch_shape_pruning := true
  enable_lower_bound_pruning := true
  enable_worker_symmetry := true
  disable_epoch_batch_cost := false
  disable_cpu_load_cost := false

def unit_pricing {K : Type} [Zero K] [One K] : Pricing K := fun _ _ _ => .ok (unit_costs,unit_tuning)

-- An assignment is known by its entries.
theorem ok_of_entries {planned : Except String (Dict String (List String))} {worker_assignment : Dict String (List String)}
    (same : planned.toOption.map Dict.entries = some worker_assignment.entries) : planned = .ok worker_assignment := by
  obtain ⟨found,made,entries⟩ := Option.map_eq_some_iff.mp same
  rw [Fallible.ok_of_toOption made,Dict.ext entries]

theorem generate_schedule_planned_retrieval :
    Planned retrieval_then_prompt (suits id gpu_and_cpu) (selected ["gpu-0","cpu-0"]) retrieval_on_cpu :=
  @generate_schedule_planned id Nat _ _ _ _ _ _ _ _ _ _ _ unit_pricing 1000 retrieval_then_prompt ["gpu-0","cpu-0"] gpu_and_cpu
    Dict.empty retrieval_aligned retrieval_topological retrieval_on_cpu (ok_of_entries (by decide +kernel))

-- It returns exactly for the servable graphs whose nodes can be priced.
theorem generate_schedule_returns_iff (aligned : Aligned graph) (topological : Topological graph)
    (affordable : Affordable repr pricing inf graph (selected worker_names) worker_profiles results) :
    (∃ worker_assignment, generate_schedule repr pricing inf graph worker_names worker_profiles results = .ok worker_assignment) ↔
      selected worker_names ≠ [] ∧ (graph.nodes.entries = [] ∨
        Servable repr graph (selected worker_names) worker_profiles ∧
          ∃ prices, priced repr pricing graph (selected worker_names) worker_profiles results = .ok prices) := by
  unfold generate_schedule
  dsimp only
  change (∃ worker_assignment, (if selected worker_names = [] then _ else _) = Except.ok worker_assignment) ↔ _
  by_cases some_worker : selected worker_names = []
  · rw [if_pos some_worker]
    exact iff_of_false (fun ⟨_,done⟩ => (by cases done)) fun both => both.1 some_worker
  · rw [if_neg some_worker]
    by_cases empty : graph.nodes.entries = []
    · rw [if_pos empty]
      exact iff_of_true ⟨_,rfl⟩ ⟨some_worker,.inl empty⟩
    · rw [if_neg empty]
      constructor
      · intro ⟨worker_assignment,done⟩
        obtain ⟨_,plain,done⟩ := Fallible.bind_ok done
        obtain ⟨_,_,done⟩ := Fallible.bind_ok done
        obtain ⟨_,gated,done⟩ := Fallible.bind_ok done
        split at done
        · rename_i planned
          obtain ⟨_,prices,nodes,workers,options,tables⟩ := plan_schedule_ok aligned topological some_worker planned
          exact ⟨some_worker,.inr ⟨tables.servable plain gated,prices⟩⟩
        · cases done
      · intro ⟨_,either⟩
        obtain ⟨servable,prices,read⟩ := either.resolve_left empty
        have plain := (@assert_no_http_iff repr graph aligned).mpr fun nid op node => (servable.engine nid op node).1
        have supported := validate_supported_of (fun nid op node => (servable.engine nid op node).2) aligned
        have gated := (@validate_task_type_iff repr graph (selected worker_names) worker_profiles).mpr servable.gated
        obtain ⟨worker_assignment,planned⟩ := plan_schedule_returns aligned topological some_worker servable affordable read
        refine ⟨worker_assignment,?_⟩
        rw [plain,Fallible.ok_bind,supported,Fallible.ok_bind]
        unfold selected at gated planned
        rw [gated,Fallible.ok_bind,planned]

theorem unit_affordable : Affordable id unit_pricing (⊤ : ENNReal) retrieval_then_prompt (selected ["gpu-0","cpu-0"]) gpu_and_cpu
    Dict.empty := by
  intro nodes workers options costs tuning _ _ _ priced
  cases priced
  refine DPSolver.Amounts.finite (?_ : DPSolver.Amounts _ (· ≠ ⊤))
  constructor
  · exact fun a below => ⟨lt_top_iff_ne_top.mpr below,below⟩
  · exact lt_irrefl _
  · exact ENNReal.one_ne_top
  · exact ENNReal.natCast_ne_top
  · exact ENNReal.zero_ne_top
  · exact fun a b left right => ENNReal.add_ne_top.mpr ⟨left,right⟩
  · exact fun a b left right => ENNReal.mul_ne_top left right
  · exact fun a n top => ENNReal.div_ne_top top (by simp)
  · exact fun _ _ => ENNReal.one_ne_top
  · exact fun _ _ => ENNReal.one_ne_top
  · exact fun _ _ => ENNReal.zero_ne_top
  · exact fun _ _ _ => ENNReal.one_ne_top
  · exact fun _ => ENNReal.one_ne_top
  · exact fun _ => ENNReal.zero_ne_top
  · intro key choices found
    have none_there : build_data_profile_plan_choices id retrieval_then_prompt (Dict.empty : ProfileResults ENNReal) = Dict.empty := rfl
    change (build_data_profile_plan_choices id retrieval_then_prompt (Dict.empty : ProfileResults ENNReal)).get? key = _ at found
    rw [none_there] at found
    cases found
  · exact ⟨ENNReal.one_ne_top,ENNReal.one_ne_top,ENNReal.one_ne_top,ENNReal.one_ne_top,ENNReal.one_ne_top⟩

theorem generate_schedule_returns_iff_retrieval :
    (∃ worker_assignment, generate_schedule id unit_pricing (⊤ : ENNReal) retrieval_then_prompt ["gpu-0","cpu-0"] gpu_and_cpu
      Dict.empty = .ok worker_assignment) ↔
      selected ["gpu-0","cpu-0"] ≠ [] ∧ (retrieval_then_prompt.nodes.entries = [] ∨
        Servable id retrieval_then_prompt (selected ["gpu-0","cpu-0"]) gpu_and_cpu ∧
          ∃ prices, priced id unit_pricing retrieval_then_prompt (selected ["gpu-0","cpu-0"]) gpu_and_cpu
            (Dict.empty : ProfileResults ENNReal) = .ok prices) :=
  generate_schedule_returns_iff retrieval_aligned retrieval_topological unit_affordable

end
end Lumilake.Optimizer.Halo

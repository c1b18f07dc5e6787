import Lumilake.Optimizer.HaloOptimal
import Mathlib.Algebra.Order.BigOperators.Group.List
import Mathlib.Algebra.Order.Field.Basic
import Mathlib.Algebra.Order.Field.Rat
import Mathlib.Tactic.Linarith
import Mathlib.Tactic.NormNum
import Mathlib.Tactic.Positivity
import Mathlib.Tactic.Ring

-- The bound that prunes is admissible for costs of the shape that the optimizer uses.
namespace Lumilake.Optimizer.Halo
variable {K : Type} [Field K] [LinearOrder K] [IsStrictOrderedRing K]

omit [Field K] [IsStrictOrderedRing K] in
theorem smaller_eq_min (a b : K) : smaller a b = min a b := by
  unfold smaller
  split
  · rename_i less
    exact (min_eq_right less.le).symm
  · rename_i more
    exact (min_eq_left (not_lt.mp more)).symm

omit [LinearOrder K] [IsStrictOrderedRing K] in
theorem total_eq_sum (costs : List K) : total costs = costs.sum := List.sum_eq_foldl.symm

omit [IsStrictOrderedRing K] in
theorem largest_ge {costs : List K} {cost : K} (member : cost ∈ costs) : cost ≤ largest costs := by
  have grows : ∀ (rest : List K) (best : K), best ≤ rest.foldl larger best ∧ ∀ cost ∈ rest, cost ≤ rest.foldl larger best := by
    intro rest
    induction rest with
    | nil => exact fun best => ⟨le_rfl,fun cost inside => absurd inside List.not_mem_nil⟩
    | cons next rest ih =>
        intro best
        have upper : best ≤ larger best next ∧ next ≤ larger best next := by
          unfold larger
          split
          · rename_i less
            exact ⟨less.le,le_rfl⟩
          · rename_i more
            exact ⟨le_rfl,not_lt.mp more⟩
        obtain ⟨start,others⟩ := ih (larger best next)
        rw [List.foldl_cons]
        exact ⟨upper.1.trans start,List.forall_mem_cons.mpr ⟨upper.2.trans start,others⟩⟩
  cases costs with
  | nil => cases member
  | cons first rest =>
      rcases List.mem_cons.mp member with rfl | later
      · exact (grows rest cost).1
      · exact (grows rest first).2 cost later

theorem total_le_largest (costs : List K) : total costs ≤ (costs.length : K) * largest costs := by
  rw [total_eq_sum]
  have each := List.sum_le_card_nsmul costs (largest costs) fun cost member => largest_ge member
  rwa [nsmul_eq_mul] at each

-- The least over a list, read as nothing where it is infinite.
def least_of {α : Type} (inf : K) (cost : α → K) (items : List α) : K :=
  let least := items.foldl (fun least item => smaller least (cost item)) inf
  if least = inf then 0 else least

omit [IsStrictOrderedRing K] in
theorem least_of_le {α : Type} {inf : K} {cost : α → K} {items : List α} {item : α} (nonneg : 0 ≤ cost item) (member : item ∈ items) :
    least_of inf cost items ≤ cost item := by
  have falls : ∀ (items : List α) (start : K), items.foldl (fun least item => smaller least (cost item)) start ≤ start ∧
      ∀ item ∈ items, items.foldl (fun least item => smaller least (cost item)) start ≤ cost item := by
    intro items
    induction items with
    | nil => exact fun start => ⟨le_rfl,fun item inside => absurd inside List.not_mem_nil⟩
    | cons first rest ih =>
        intro start
        obtain ⟨below,others⟩ := ih (smaller start (cost first))
        rw [smaller_eq_min] at below others
        rw [List.foldl_cons,smaller_eq_min]
        exact ⟨below.trans (min_le_left _ _),List.forall_mem_cons.mpr ⟨below.trans (min_le_right _ _),others⟩⟩
  unfold least_of
  dsimp only
  split
  · exact nonneg
  · exact (falls items inf).2 item member

omit [IsStrictOrderedRing K] in
theorem least_of_nonneg {α : Type} {inf : K} {cost : α → K} {items : List α} (nonneg : ∀ item ∈ items, 0 ≤ cost item) :
    0 ≤ least_of inf cost items := by
  have holds : ∀ (items : List α), (∀ item ∈ items, 0 ≤ cost item) →
      items.foldl (fun least item => smaller least (cost item)) inf = inf ∨
        0 ≤ items.foldl (fun least item => smaller least (cost item)) inf := by
    intro items
    induction items using List.reverseRecOn with
    | nil => exact fun _ => .inl rfl
    | append_singleton items item ih =>
        intro nonneg
        rw [List.foldl_append,List.foldl_cons,List.foldl_nil,smaller_eq_min]
        have here := nonneg item (List.mem_append_right _ List.mem_cons_self)
        rcases ih (fun item inside => nonneg item (List.mem_append_left _ inside)) with same | found
        · rw [same]
          rcases min_choice inf (cost item) with left | right
          · exact .inl left
          · exact .inr (by rw [right]; exact here)
        · exact .inr (le_min found here)
  unfold least_of
  dsimp only
  split
  · exact le_rfl
  · rename_i finite
    exact (holds items nonneg).resolve_left finite

namespace DPSolver
variable {solver : DPSolver K} {bonus cache : K}

-- Nothing is negative, a node costs every worker the same, a node that runs after its parent
-- costs at least `bonus` of its price, and a query at least `cache` of its own.
structure Shaped (solver : DPSolver K) (bonus cache : K) : Prop where
  known : ∀ wid ∈ solver.gpu_worker_ids, wid ∈ solver.worker_ids
  exec_cost : ∀ node worker, 0 ≤ solver.costs.exec_cost node worker
  same_cost : ∀ node worker other, solver.costs.exec_cost node worker = solver.costs.exec_cost node other
  model_init_cost : ∀ node last_model, 0 ≤ solver.costs.model_init_cost node last_model
  llm_cache_bonus : ∀ node last_node parents, solver.costs.llm_cache_bonus node last_node parents ≤ 0 ∨
    bonus ≤ solver.costs.llm_cache_bonus node last_node parents
  cache_multiplier : ∀ window choice, cache ≤ solver.costs.cache_multiplier window choice
  epoch_penalty : ∀ epoch_idx, 0 ≤ solver.costs.epoch_penalty epoch_idx
  http_sleep_cost : ∀ node, 0 ≤ solver.costs.http_sleep_cost node
  choices : ∀ key choices, solver.plan_choices.get? key = some choices → ∀ choice ∈ choices, 0 ≤ query_base choice
  weights : 0 ≤ solver.tuning.cpu_load_cost_weight ∧ 0 ≤ solver.tuning.gpu_cost_max_weight ∧ 0 ≤ solver.tuning.gpu_cost_sum_weight
  shares : 0 ≤ bonus ∧ bonus ≤ 1
  factor : 0 ≤ solver.tuning.lower_bound_cost_factor ∧ solver.tuning.lower_bound_cost_factor ≤ cache ∧
    solver.tuning.lower_bound_cost_factor ≤ bonus * (solver.tuning.gpu_cost_max_weight + solver.tuning.gpu_cost_sum_weight)

-- What a node costs at least, of its run and of its queries.
def least_run (solver : DPSolver K) (nid : String) : K :=
  least_of solver.inf (fun wid => solver.costs.exec_cost (solver.node nid) (solver.worker wid)) (solver.options nid)

def least_query (solver : DPSolver K) (node : Node) (query : DBQuery) : K :=
  least_of solver.inf query_base (solver.choices_of node query)

def least_plan (solver : DPSolver K) (node : Node) : K := (node.db_queries.map (least_query solver node)).sum

theorem choices_nonneg (shaped : Shaped solver bonus cache) {node : Node} {query : DBQuery} {choice : QueryPlanChoice K}
    (member : choice ∈ solver.choices_of node query) : 0 ≤ query_base choice := by
  unfold choices_of at member
  split at member
  · rename_i listed
    exact shaped.choices _ _ listed choice member
  · rw [List.mem_singleton.mp member]
    exact zero_le_one

theorem least_query_nonneg (shaped : Shaped solver bonus cache) (node : Node) (query : DBQuery) : 0 ≤ least_query solver node query :=
  least_of_nonneg fun _ member => choices_nonneg shaped member

theorem least_plan_nonneg (shaped : Shaped solver bonus cache) (node : Node) : 0 ≤ least_plan solver node := by
  apply List.sum_nonneg
  intro cost member
  obtain ⟨query,_,rfl⟩ := List.mem_map.mp member
  exact least_query_nonneg shaped node query

omit [IsStrictOrderedRing K] in
theorem least_run_nonneg (shaped : Shaped solver bonus cache) (nid : String) : 0 ≤ least_run solver nid :=
  least_of_nonneg fun _ _ => shaped.exec_cost _ _

omit [IsStrictOrderedRing K] in
theorem least_run_le (shaped : Shaped solver bonus cache) (nid : String) (worker : Worker K) :
    least_run solver nid ≤ solver.costs.exec_cost (solver.node nid) worker := by
  by_cases some_there : solver.options nid = []
  · unfold least_run least_of
    rw [some_there]
    rw [List.foldl_nil]
    dsimp only
    rw [if_pos rfl]
    exact shaped.exec_cost _ _
  · obtain ⟨wid,member⟩ := List.exists_mem_of_ne_nil _ some_there
    have least := @least_of_le K _ _ _ solver.inf (fun wid => solver.costs.exec_cost (solver.node nid) (solver.worker wid)) _ _
      (shaped.exec_cost _ _) member
    rw [shaped.same_cost _ _ worker] at least
    exact least

omit [IsStrictOrderedRing K] in
theorem node_min_cost_eq {nid : String} (gpu : solver.is_gpu_node nid = true) :
    solver.node_min_cost nid = least_run solver nid +
      if solver.tuning.disable_cpu_load_cost ∨ solver.tuning.naive_cpu_cost then 0
      else least_plan solver (solver.node nid) * solver.tuning.cpu_load_cost_weight := by
  unfold node_min_cost
  dsimp only
  rw [if_neg (by rw [gpu]; exact Bool.true_eq_false_eq_False),total_eq_sum]
  rfl

-- What the steps of an epoch add.
theorem query_cost_ge (shaped : Shaped solver bonus cache) (window : Window) {node : Node} {query : DBQuery}
    {choice : QueryPlanChoice K} (member : choice ∈ solver.choices_of node query) :
    cache * least_query solver node query ≤ solver.query_cost window choice := by
  have base := choices_nonneg shaped member
  have least : least_query solver node query ≤ query_base choice := least_of_le base member
  have paged := shaped.cache_multiplier (window.filterMap fun entry => entry) choice
  have share : 0 ≤ cache := shaped.factor.1.trans shaped.factor.2.1
  unfold query_cost
  calc cache * least_query solver node query ≤ cache * query_base choice := by gcongr
    _ = query_base choice * cache := mul_comm _ _
    _ ≤ query_base choice * solver.costs.cache_multiplier (window.filterMap fun entry => entry) choice := by gcongr

theorem query_plans_ge (shaped : Shaped solver bonus cache) (node : Node) (queries : List DBQuery)
    (outcomes : List (K × Window × List (String × QueryPlanChoice K))) :
    ∀ option ∈ queries.foldl (solver.add_query node) outcomes, ∃ start ∈ outcomes,
      start.1 + cache * (queries.map (least_query solver node)).sum ≤ option.1 := by
  induction queries generalizing outcomes with
  | nil =>
      intro option member
      exact ⟨option,member,by simp⟩
  | cons query rest ih =>
      intro option member
      obtain ⟨next,inside,more⟩ := ih _ option member
      obtain ⟨start,there,chosen⟩ := List.mem_flatMap.mp inside
      obtain ⟨choice,listed,rfl⟩ := List.mem_map.mp chosen
      have step := query_cost_ge shaped start.2.1 listed
      refine ⟨start,there,?_⟩
      rw [List.map_cons,List.sum_cons]
      dsimp only at more
      linarith

theorem query_options_ge (shaped : Shaped solver bonus cache) {node : Node} {window : Window} :
    ∀ option ∈ solver.query_plan_options node window, cache * least_plan solver node ≤ option.1 := by
  intro option member
  obtain ⟨start,there,more⟩ := query_plans_ge shaped node node.db_queries _ option member
  rw [List.mem_singleton.mp there] at more
  unfold least_plan
  linarith

theorem execute_ge (shaped : Shaped solver bonus cache) {nid : String} (gpu : solver.is_gpu_node nid = true) {state : WorkerState}
    {window : Window} {run : Execution K} (member : run ∈ solver.execute_node nid state window) :
    bonus * least_run solver nid ≤ run.node_cost ∧ cache * least_plan solver (solver.node nid) ≤ run.node_cpu_cost := by
  have exec := shaped.exec_cost (solver.node nid) (solver.worker (solver.worker_ids.getD state.worker_idx ""))
  have least := least_run_le shaped nid (solver.worker (solver.worker_ids.getD state.worker_idx ""))
  have init := shaped.model_init_cost (solver.node nid) state.last_model
  have share : bonus ≤ if solver.costs.llm_cache_bonus (solver.node nid) state.last_node (solver.parents nid) ≤ 0 then 1
      else solver.costs.llm_cache_bonus (solver.node nid) state.last_node (solver.parents nid) := by
    split
    · exact shaped.shares.2
    · rename_i positive
      exact (shaped.llm_cache_bonus _ _ _).resolve_left positive
  have nonneg := shaped.shares.1
  unfold execute_node at member
  dsimp only at member
  rw [if_pos gpu] at member
  generalize (if solver.costs.llm_cache_bonus (solver.node nid) state.last_node (solver.parents nid) ≤ 0 then (1 : K)
    else solver.costs.llm_cache_bonus (solver.node nid) state.last_node (solver.parents nid)) = multiplier at share member
  generalize solver.costs.exec_cost (solver.node nid) (solver.worker (solver.worker_ids.getD state.worker_idx "")) = cost
    at exec least member
  have cost_ge : bonus * least_run solver nid ≤ cost * multiplier + solver.costs.model_init_cost (solver.node nid) state.last_model :=
    calc bonus * least_run solver nid ≤ bonus * cost := by gcongr
      _ = cost * bonus := mul_comm _ _
      _ ≤ cost * multiplier := by gcongr
      _ ≤ cost * multiplier + solver.costs.model_init_cost (solver.node nid) state.last_model := le_add_of_nonneg_right init
  split at member
  · rename_i plain
    rw [List.mem_singleton.mp member]
    refine ⟨cost_ge,?_⟩
    unfold least_plan
    rw [plain]
    simp
  · obtain ⟨option,listed,rfl⟩ := List.mem_map.mp member
    exact ⟨cost_ge,query_options_ge shaped option listed⟩

theorem best_option_nonneg (shaped : Shaped solver bonus cache) (node : Node) (window : Window) :
    (solver.best_option node window).1 = solver.inf ∨ 0 ≤ (solver.best_option node window).1 := by
  have share : 0 ≤ cache := shaped.factor.1.trans shaped.factor.2.1
  have each : ∀ option ∈ solver.query_plan_options node window, 0 ≤ option.1 := fun option member =>
    (mul_nonneg share (least_plan_nonneg shaped node)).trans (query_options_ge shaped option member)
  unfold best_option
  refine List.foldlRecOn (motive := fun best : K × Window × List (String × QueryPlanChoice K) =>
    best.1 = solver.inf ∨ 0 ≤ best.1) _ _ (.inl rfl) (fun best known option member => ?_)
  split
  · exact .inr (each option member)
  · exact known

theorem apply_cpu_load_nonneg (shaped : Shaped solver bonus cache) (cpu_nodes : List String) (window : Window) :
    0 ≤ (solver.apply_cpu_load cpu_nodes window).1 := by
  refine List.foldlRecOn (motive := fun s : K × Plans K × Window => 0 ≤ s.1) cpu_nodes solver.cpu_load le_rfl
    fun s known nid _ => ?_
  unfold cpu_load
  dsimp only
  split
  · exact add_nonneg known (shaped.http_sleep_cost _)
  · split
    · exact known
    · split
      · exact known
      · rename_i finite
        exact add_nonneg known ((best_option_nonneg shaped _ _).resolve_left finite)

-- What the GPU workers cost together.
def gpu_sum (solver : DPSolver K) (worker_costs : List K) : K :=
  (solver.gpu_worker_ids.map fun wid => worker_costs.getD (solver.worker_ids.idxOf wid) 0).sum

theorem sum_map_grows {α : Type} {items : List α} {before after : α → K} {item : α} {cost : K}
    (each : ∀ other ∈ items, before other ≤ after other) (member : item ∈ items) (own : before item + cost ≤ after item) :
    (items.map before).sum + cost ≤ (items.map after).sum := by
  obtain ⟨front,back,rfl⟩ := List.append_of_mem member
  have early : (front.map before).sum ≤ (front.map after).sum :=
    List.sum_le_sum fun other inside => each other (List.mem_append_left _ inside)
  have late : (back.map before).sum ≤ (back.map after).sum :=
    List.sum_le_sum fun other inside => each other (List.mem_append_right _ (List.mem_cons_of_mem _ inside))
  simp only [List.map_append,List.map_cons,List.sum_append,List.sum_cons]
  linarith

theorem gpu_sum_modify (shaped : Shaped solver bonus cache) {worker_costs : List K} {wid : String}
    (wide : worker_costs.length = solver.worker_ids.length) (member : wid ∈ solver.gpu_worker_ids) {cost : K} (nonneg : 0 ≤ cost) :
    gpu_sum solver worker_costs + cost ≤ gpu_sum solver (worker_costs.modify (solver.worker_ids.idxOf wid) (· + cost)) := by
  have short : solver.worker_ids.idxOf wid < worker_costs.length := wide ▸ List.idxOf_lt_length_of_mem (shaped.known wid member)
  apply sum_map_grows (fun other _ => ?_) member
  · rw [List.getD_eq_getElem?_getD,List.getD_eq_getElem?_getD,List.getElem?_modify_eq]
    rw [List.getElem?_eq_getElem short]
    exact le_rfl
  · rw [List.getD_eq_getElem?_getD,List.getD_eq_getElem?_getD,List.getElem?_modify]
    cases worker_costs[solver.worker_ids.idxOf other]? with
    | none => exact le_rfl
    | some known =>
        dsimp only [Option.map_some,Option.getD_some]
        split
        · exact le_add_of_nonneg_right nonneg
        · exact le_rfl

-- What the assigned nodes cost together, at least.
def least_runs (solver : DPSolver K) (assign : List (String × String)) : K :=
  (assign.map fun pair => least_run solver pair.2).sum

def least_plans (solver : DPSolver K) (assign : List (String × String)) : K :=
  (assign.map fun pair => least_plan solver (solver.node pair.2)).sum

theorem run_assignment_ge (shaped : Shaped solver bonus cache) (cpu_nodes : List String) {assign : List (String × String)}
    (gpu : ∀ pair ∈ assign, pair.1 ∈ solver.gpu_worker_ids ∧ solver.is_gpu_node pair.2 = true) {states : List WorkerState}
    {worker_costs : List K} {plans : Plans K} {load : K} {window : Window} (wide : worker_costs.length = solver.worker_ids.length) :
    ∀ outcome ∈ solver.run_assignment cpu_nodes assign states worker_costs plans load window,
      gpu_sum solver worker_costs + bonus * least_runs solver assign ≤ outcome.gpu_cost_sum ∧
        load + cache * least_plans solver assign ≤ outcome.cpu_load_cost ∧
        outcome.gpu_cost_sum ≤ (max 1 solver.gpu_worker_ids.length : Nat) * outcome.gpu_cost_max := by
  induction assign generalizing states worker_costs plans load window with
  | nil =>
      intro outcome member
      rw [run_assignment] at member
      rw [List.mem_singleton.mp member]
      dsimp only
      refine ⟨?_,?_,?_⟩
      · rw [total_eq_sum]
        unfold gpu_sum least_runs
        simp
      · have extra := apply_cpu_load_nonneg shaped cpu_nodes window
        unfold least_plans
        rw [List.map_nil,List.sum_nil,mul_zero,add_zero]
        exact le_add_of_nonneg_right extra
      · have upper := total_le_largest (solver.gpu_worker_ids.map fun wid => worker_costs.getD (solver.worker_ids.idxOf wid) 0)
        rw [List.length_map] at upper
        cases some_there : solver.gpu_worker_ids with
        | nil =>
            rw [List.map_nil]
            simp [total,largest]
        | cons wid rest =>
            rw [some_there] at upper
            have several : max 1 (wid :: rest).length = (wid :: rest).length := Nat.max_eq_right (Nat.succ_le_succ (Nat.zero_le _))
            rw [several]
            exact upper
  | cons pair rest ih =>
      intro outcome member
      rw [run_assignment] at member
      obtain ⟨run,executed,later⟩ := List.mem_flatMap.mp member
      obtain ⟨⟨hosted,gpu_node⟩,others⟩ := List.forall_mem_cons.mp gpu
      obtain ⟨run_cost,plan_cost⟩ := execute_ge shaped gpu_node executed
      have run_nonneg : 0 ≤ run.node_cost :=
        (mul_nonneg shaped.shares.1 (least_run_nonneg shaped pair.2)).trans run_cost
      obtain ⟨sum_ge,load_ge,spread⟩ := ih others (by rw [List.length_modify]; exact wide) outcome later
      have grown := gpu_sum_modify shaped wide hosted run_nonneg
      refine ⟨?_,?_,spread⟩
      · unfold least_runs at sum_ge ⊢
        rw [List.map_cons,List.sum_cons]
        linarith
      · unfold least_plans at load_ge ⊢
        rw [List.map_cons,List.sum_cons]
        linarith

-- One epoch.
def epoch_price (solver : DPSolver K) (epoch_idx : Nat) : K :=
  if solver.tuning.disable_epoch_batch_cost then 0 else solver.costs.epoch_penalty epoch_idx

def least_nodes (solver : DPSolver K) (nids : List String) : K := total (nids.map solver.node_min_cost)

def max_gpu (solver : DPSolver K) : Nat := max 1 solver.gpu_worker_ids.length

theorem max_gpu_pos : (1 : K) ≤ (max_gpu solver : K) := by
  have more : 1 ≤ max_gpu solver := Nat.le_max_left _ _
  exact_mod_cast more

omit [IsStrictOrderedRing K] in
theorem epoch_price_nonneg (shaped : Shaped solver bonus cache) (epoch_idx : Nat) : 0 ≤ epoch_price solver epoch_idx := by
  unfold epoch_price
  split
  · exact le_rfl
  · exact shaped.epoch_penalty epoch_idx

theorem depth_penalty_nonneg (gpu_nodes : List String) (depths : Dict String Nat) :
    0 ≤ if solver.tuning.disable_epoch_batch_cost then 0 else solver.batch_gpu_depth_penalty gpu_nodes depths := by
  split
  · exact le_rfl
  · unfold batch_gpu_depth_penalty
    split
    · exact le_rfl
    · rename_i positive
      have weight : 0 ≤ solver.tuning.gpu_depth_cost_weight := (not_le.mp fun low => positive (.inl low)).le
      positivity

theorem cpu_load_weight_ge (shaped : Shaped solver bonus cache) (enabled : solver.tuning.disable_cpu_load_cost = false)
    (epoch_idx : Nat) : solver.tuning.cpu_load_cost_weight ≤ solver.cpu_load_weight epoch_idx := by
  have weight := shaped.weights.1
  unfold cpu_load_weight
  dsimp only
  rw [if_neg (by rw [enabled]; exact Bool.false_ne_true)]
  split
  · rename_i early
    have extra : 0 ≤ solver.tuning.cpu_load_early_weight / (1 + (epoch_idx : K)) := by positivity
    nlinarith
  · exact le_rfl

theorem cpu_load_weight_nonneg (shaped : Shaped solver bonus cache) (epoch_idx : Nat) : 0 ≤ solver.cpu_load_weight epoch_idx := by
  cases enabled : solver.tuning.disable_cpu_load_cost with
  | true =>
      unfold cpu_load_weight
      dsimp only
      rw [if_pos enabled]
  | false => exact shaped.weights.1.trans (cpu_load_weight_ge shaped enabled epoch_idx)

theorem least_runs_nonneg (shaped : Shaped solver bonus cache) (assign : List (String × String)) : 0 ≤ least_runs solver assign := by
  apply List.sum_nonneg
  intro cost member
  obtain ⟨pair,_,rfl⟩ := List.mem_map.mp member
  exact least_run_nonneg shaped pair.2

theorem least_plans_nonneg (shaped : Shaped solver bonus cache) (assign : List (String × String)) : 0 ≤ least_plans solver assign := by
  apply List.sum_nonneg
  intro cost member
  obtain ⟨pair,_,rfl⟩ := List.mem_map.mp member
  exact least_plan_nonneg shaped (solver.node pair.2)

omit [IsStrictOrderedRing K] in
theorem least_nodes_eq {assign : List (String × String)} (gpu : ∀ pair ∈ assign, solver.is_gpu_node pair.2 = true) :
    least_nodes solver (assign.map Prod.snd) = least_runs solver assign +
      if solver.tuning.disable_cpu_load_cost ∨ solver.tuning.naive_cpu_cost then 0
      else least_plans solver assign * solver.tuning.cpu_load_cost_weight := by
  unfold least_nodes least_runs least_plans
  rw [total_eq_sum,List.map_map]
  induction assign with
  | nil => simp
  | cons pair rest ih =>
      obtain ⟨here,others⟩ := List.forall_mem_cons.mp gpu
      rw [List.map_cons,List.map_cons,List.map_cons,List.sum_cons,List.sum_cons,List.sum_cons,ih others,Function.comp_apply,
        node_min_cost_eq here]
      split
      · rw [add_zero,add_zero,add_zero]
      · ring

-- The workers share the runs out.
theorem gpu_cost_ge (shaped : Shaped solver bonus cache) {runs gpu_sum gpu_max : K} (nonneg : 0 ≤ runs)
    (each : bonus * runs ≤ gpu_sum) (spread : gpu_sum ≤ (max_gpu solver : K) * gpu_max) :
    solver.tuning.lower_bound_cost_factor * (runs / (max_gpu solver : K)) ≤
      solver.tuning.gpu_cost_max_weight * gpu_max + solver.tuning.gpu_cost_sum_weight * gpu_sum := by
  have several : (1 : K) ≤ (max_gpu solver : K) := max_gpu_pos
  have positive : (0 : K) < (max_gpu solver : K) := zero_lt_one.trans_le several
  obtain ⟨_,max_weight,sum_weight⟩ := shaped.weights
  have sum_nonneg : 0 ≤ gpu_sum := (mul_nonneg shaped.shares.1 nonneg).trans each
  have share_le_max : gpu_sum / (max_gpu solver : K) ≤ gpu_max := (div_le_iff₀' positive).mpr spread
  have share_le_sum : gpu_sum / (max_gpu solver : K) ≤ gpu_sum := div_le_self sum_nonneg several
  have part : 0 ≤ runs / (max_gpu solver : K) := div_nonneg nonneg positive.le
  calc solver.tuning.lower_bound_cost_factor * (runs / (max_gpu solver : K))
      ≤ bonus * (solver.tuning.gpu_cost_max_weight + solver.tuning.gpu_cost_sum_weight) * (runs / (max_gpu solver : K)) := by
        have factor := shaped.factor.2.2
        gcongr
    _ = (solver.tuning.gpu_cost_max_weight + solver.tuning.gpu_cost_sum_weight) * (bonus * runs / (max_gpu solver : K)) := by ring
    _ ≤ (solver.tuning.gpu_cost_max_weight + solver.tuning.gpu_cost_sum_weight) * (gpu_sum / (max_gpu solver : K)) := by gcongr
    _ = solver.tuning.gpu_cost_max_weight * (gpu_sum / (max_gpu solver : K)) +
          solver.tuning.gpu_cost_sum_weight * (gpu_sum / (max_gpu solver : K)) := add_mul _ _ _
    _ ≤ solver.tuning.gpu_cost_max_weight * gpu_max + solver.tuning.gpu_cost_sum_weight * gpu_sum := by gcongr

-- The queries are not shared out.
theorem cpu_cost_ge (shaped : Shaped solver bonus cache) {plans load : K} (nonneg : 0 ≤ plans) (each : cache * plans ≤ load)
    (epoch_idx : Nat) (gpu_nodes : List String) :
    solver.tuning.lower_bound_cost_factor *
        ((if solver.tuning.disable_cpu_load_cost ∨ solver.tuning.naive_cpu_cost then 0
          else plans * solver.tuning.cpu_load_cost_weight) / (max_gpu solver : K)) ≤
      solver.cpu_load_weight epoch_idx * if solver.tuning.naive_cpu_cost then solver.naive_cpu_cost gpu_nodes else load := by
  have share : 0 ≤ cache := shaped.factor.1.trans shaped.factor.2.1
  have load_nonneg : 0 ≤ load := (mul_nonneg share nonneg).trans each
  have weight := cpu_load_weight_nonneg shaped epoch_idx
  split
  · rw [zero_div,mul_zero]
    apply mul_nonneg weight
    split
    · exact Nat.cast_nonneg _
    · exact load_nonneg
  · rename_i counted
    have enabled : solver.tuning.disable_cpu_load_cost = false := Bool.eq_false_of_not_eq_true fun off => counted (.inl off)
    rw [if_neg fun naive => counted (.inr naive)]
    have several : (1 : K) ≤ (max_gpu solver : K) := max_gpu_pos
    have own := shaped.weights.1
    have whole : 0 ≤ plans * solver.tuning.cpu_load_cost_weight := mul_nonneg nonneg own
    calc solver.tuning.lower_bound_cost_factor * (plans * solver.tuning.cpu_load_cost_weight / (max_gpu solver : K))
        ≤ cache * (plans * solver.tuning.cpu_load_cost_weight) :=
          mul_le_mul shaped.factor.2.1 (div_le_self whole several) (div_nonneg whole (zero_le_one.trans several)) share
      _ = solver.tuning.cpu_load_cost_weight * (cache * plans) := by ring
      _ ≤ solver.cpu_load_weight epoch_idx * load :=
          mul_le_mul (cpu_load_weight_ge shaped enabled epoch_idx) each (mul_nonneg share nonneg) weight

-- The nodes of the epoch cost their least, shared out among the workers.
theorem epoch_cost_ge (shaped : Shaped solver bonus cache) {assign : List (String × String)}
    (gpu : ∀ pair ∈ assign, solver.is_gpu_node pair.2 = true) {outcome : Outcome K}
    (runs : bonus * least_runs solver assign ≤ outcome.gpu_cost_sum) (plans : cache * least_plans solver assign ≤ outcome.cpu_load_cost)
    (spread : outcome.gpu_cost_sum ≤ (max_gpu solver : K) * outcome.gpu_cost_max) (epoch_idx : Nat) (gpu_nodes : List String)
    (depths : Dict String Nat) :
    epoch_price solver epoch_idx + solver.tuning.lower_bound_cost_factor *
      (least_nodes solver (assign.map Prod.snd) / (max_gpu solver : K)) ≤ solver.epoch_cost epoch_idx gpu_nodes depths outcome := by
  have gpu_part := gpu_cost_ge shaped (least_runs_nonneg shaped assign) runs spread
  have cpu_part := cpu_cost_ge shaped (least_plans_nonneg shaped assign) plans epoch_idx gpu_nodes
  have depth_part := @depth_penalty_nonneg K _ _ _ solver gpu_nodes depths
  rw [least_nodes_eq gpu,add_div,mul_add]
  unfold epoch_cost epoch_price
  dsimp only
  linarith

section
variable {done : Finset String}

-- What an epoch takes off the pending GPU nodes.
omit [Field K] [LinearOrder K] [IsStrictOrderedRing K] in
theorem pending_epoch (distinct : solver.node_ids.Nodup) {batch : List String} (apart : batch.Nodup)
    (pending : ∀ nid ∈ batch, nid ∈ solver.pending_gpu done) :
    (batch ++ solver.pending_gpu (done ∪ (epoch_gpu solver batch ++ epoch_cpu solver done batch).toFinset)).Perm
      (solver.pending_gpu done) := by
  have inside : ∀ nid, nid ∈ done ∪ (epoch_gpu solver batch ++ epoch_cpu solver done batch).toFinset ↔
      nid ∈ done ∨ nid ∈ batch ∨ nid ∈ epoch_cpu solver done batch := by
    intro nid
    rw [Finset.mem_union,List.mem_toFinset,List.mem_append,(epoch_gpu_perm batch).mem_iff]
  apply (List.perm_ext_iff_of_nodup ?_ (distinct.sublist pending_gpu_sublist)).mpr
  · intro nid
    rw [List.mem_append,mem_pending_gpu,mem_pending_gpu,inside]
    constructor
    · intro member
      rcases member with chosen | ⟨known,left⟩
      · exact mem_pending_gpu.mp (pending nid chosen)
      · exact ⟨known,fun old => left (.inl old)⟩
    · intro ⟨known,fresh⟩
      by_cases chosen : nid ∈ batch
      · exact .inl chosen
      · refine .inr ⟨known,fun either => either.elim fresh fun later => later.elim chosen fun cpu => ?_⟩
        have plain := (mem_epoch_cpu cpu).1.2
        rw [known.2] at plain
        cases plain
  · apply List.nodup_append.mpr
    refine ⟨apart,distinct.sublist pending_gpu_sublist,fun a chosen b left same => ?_⟩
    exact (mem_pending_gpu.mp left).2 ((inside b).mpr (.inr (.inl (same ▸ chosen))))

-- A candidate costs at least what its nodes cost at least.
theorem candidate_ge (shaped : Shaped solver bonus cache) (distinct : solver.node_ids.Nodup) {prune : Bool} {states : List WorkerState}
    {epoch_idx : Nat} {candidates : List (Candidate K)} {candidate : Candidate K}
    (listed : solver.candidates prune done states epoch_idx = .ok candidates) (member : candidate ∈ candidates) :
    ∃ batch : List String, batch.length ≤ max_gpu solver ∧ (batch ++ solver.pending_gpu candidate.done).Perm (solver.pending_gpu done) ∧
      epoch_price solver epoch_idx + solver.tuning.lower_bound_cost_factor * (least_nodes solver batch / (max_gpu solver : K)) ≤
        candidate.epoch_cost := by
  obtain ⟨batch,g_assign,outcome,⟨apart,pending⟩,_,assigned,_,ran,rfl⟩ := candidate_epoch distinct listed member
  obtain ⟨nodes,workers,each⟩ := mem_gpu_assignments assigned
  have gpu : ∀ pair ∈ g_assign, pair.1 ∈ solver.gpu_worker_ids ∧ solver.is_gpu_node pair.2 = true := by
    intro pair inside
    have chosen : pair.2 ∈ epoch_gpu solver batch := nodes ▸ List.mem_map_of_mem inside
    exact ⟨(each pair inside).1,(mem_pending_gpu.mp (pending pair.2 ((epoch_gpu_perm batch).mem_iff.mp chosen))).1.2⟩
  obtain ⟨sum_ge,load_ge,spread⟩ := run_assignment_ge shaped (epoch_cpu solver done batch) gpu
    (List.length_map (fun _ => (0 : K))) outcome ran
  have idle : gpu_sum solver (solver.worker_ids.map fun _ => (0 : K)) = 0 := by
    apply List.sum_eq_zero
    intro cost inside
    obtain ⟨wid,_,rfl⟩ := List.mem_map.mp inside
    rw [List.getD_eq_getElem?_getD,List.getElem?_map]
    cases solver.worker_ids[solver.worker_ids.idxOf wid]? with
    | none => rfl
    | some _ => rfl
  rw [idle,zero_add] at sum_ge
  rw [zero_add] at load_ge
  have short : batch.length ≤ max_gpu solver := by
    have few := (workers.subperm fun wid inside => (by
      obtain ⟨pair,there,rfl⟩ := List.mem_map.mp inside
      exact (gpu pair there).1)).length_le
    have same := congrArg List.length nodes
    rw [List.length_map,(epoch_gpu_perm batch).length_eq] at same
    rw [List.length_map,same] at few
    exact few.trans (Nat.le_max_right _ _)
  refine ⟨batch,short,pending_epoch distinct apart pending,?_⟩
  have costs := epoch_cost_ge shaped (fun pair inside => (gpu pair inside).2) sum_ge load_ge spread epoch_idx (epoch_gpu solver batch)
    (solver.batch_gpu_depths batch)
  have reordered : least_nodes solver (g_assign.map Prod.snd) = least_nodes solver batch := by
    unfold least_nodes
    rw [nodes,total_eq_sum,total_eq_sum]
    exact ((epoch_gpu_perm batch).map _).sum_eq
  rw [reordered] at costs
  exact costs

-- What so many epochs are charged from there on.
def epoch_prices (solver : DPSolver K) (epoch_idx epochs : Nat) : K :=
  ((List.range epochs).map fun i => epoch_price solver (epoch_idx + i)).sum

omit [LinearOrder K] [IsStrictOrderedRing K] in
theorem epoch_prices_succ (epoch_idx epochs : Nat) :
    epoch_prices solver epoch_idx (epochs + 1) = epoch_price solver epoch_idx + epoch_prices solver (epoch_idx + 1) epochs := by
  unfold epoch_prices
  rw [List.range_succ_eq_map,List.map_cons,List.sum_cons,List.map_map]
  congr 3
  funext i
  rw [Function.comp_apply,Nat.add_right_comm,Nat.add_assoc]

theorem epoch_prices_mono (shaped : Shaped solver bonus cache) {epoch_idx few many : Nat} (fewer : few ≤ many) :
    epoch_prices solver epoch_idx few ≤ epoch_prices solver epoch_idx many := by
  obtain ⟨more,rfl⟩ := Nat.exists_eq_add_of_le fewer
  unfold epoch_prices
  rw [List.range_add,List.map_append,List.sum_append]
  apply le_add_of_nonneg_right
  apply List.sum_nonneg
  intro price inside
  obtain ⟨i,_,rfl⟩ := List.mem_map.mp inside
  exact epoch_price_nonneg shaped _

omit [IsStrictOrderedRing K] in
theorem least_nodes_perm {batch later whole : List String} (perm : (batch ++ later).Perm whole) :
    least_nodes solver whole = least_nodes solver batch + least_nodes solver later := by
  unfold least_nodes
  rw [total_eq_sum,total_eq_sum,total_eq_sum,← List.sum_append,← List.map_append]
  exact (perm.map _).sum_eq.symm

theorem least_nodes_nonneg (shaped : Shaped solver bonus cache) (done : Finset String) :
    0 ≤ least_nodes solver (solver.pending_gpu done) := by
  unfold least_nodes
  rw [total_eq_sum]
  apply List.sum_nonneg
  intro cost inside
  obtain ⟨nid,member,rfl⟩ := List.mem_map.mp inside
  rw [node_min_cost_eq (mem_pending_gpu.mp member).1.2]
  apply add_nonneg (least_run_nonneg shaped nid)
  split
  · exact le_rfl
  · exact mul_nonneg (least_plan_nonneg shaped (solver.node nid)) shaped.weights.1

-- A run has the epochs its GPU nodes need, and pays for each of them and for its nodes.
theorem run_ge (shaped : Shaped solver bonus cache) (distinct : solver.node_ids.Nodup) {states : List WorkerState} {epoch_idx : Nat}
    {found : Found K} (run : Run solver done states epoch_idx found) :
    ∃ epochs, (solver.pending_gpu done).length ≤ max_gpu solver * epochs ∧ (done ≠ solver.all_mask → 1 ≤ epochs) ∧
      epoch_prices solver epoch_idx epochs + solver.tuning.lower_bound_cost_factor *
        (least_nodes solver (solver.pending_gpu done) / (max_gpu solver : K)) ≤ found.cost := by
  induction run with
  | finished states epoch_idx =>
      have none_left : solver.pending_gpu solver.all_mask = [] := by
        apply List.filter_eq_nil_iff.mpr
        intro nid member
        have known : nid ∈ solver.all_mask := List.mem_toFinset.mpr (List.mem_of_mem_filter member)
        simpa using known
      refine ⟨0,?_,fun left => absurd rfl left,?_⟩
      · rw [none_left]
        exact Nat.zero_le _
      · rw [none_left]
        simp [epoch_prices,least_nodes,total]
  | epoch left listed member _ ih =>
      obtain ⟨epochs,long,_,rest_ge⟩ := ih
      obtain ⟨batch,short,perm,cost_ge⟩ := candidate_ge shaped distinct listed member
      refine ⟨epochs + 1,?_,fun _ => Nat.le_add_left 1 epochs,?_⟩
      · rw [← perm.length_eq,List.length_append,Nat.mul_add,Nat.mul_one]
        omega
      · rw [epoch_prices_succ,least_nodes_perm perm,add_div,mul_add]
        dsimp only [before]
        linarith

theorem lower_bound_eq (shaped : Shaped solver bonus cache) (epoch_idx : Nat) : solver.lower_bound_remaining done epoch_idx =
    if solver.pending_gpu done = [] ∧ solver.db_node_ids.filter (· ∉ done) = [] then 0
    else epoch_prices solver epoch_idx (max (((solver.pending_gpu done).length + max_gpu solver - 1) / max_gpu solver)
        (if solver.db_node_ids.filter (· ∉ done) = [] then 0 else 1)) +
      solver.tuning.lower_bound_cost_factor * (least_nodes solver (solver.pending_gpu done) / (max_gpu solver : K)) := by
  have load : (if 0 < least_nodes solver (solver.pending_gpu done)
      then least_nodes solver (solver.pending_gpu done) / (max_gpu solver : K) else 0) =
        least_nodes solver (solver.pending_gpu done) / (max_gpu solver : K) := by
    split
    · rfl
    · rename_i nothing
      rw [le_antisymm (not_lt.mp nothing) (least_nodes_nonneg shaped done),zero_div]
  have penalty : ∀ epochs, (if solver.tuning.disable_epoch_batch_cost then (0 : K)
      else total ((List.range epochs).map fun i => solver.costs.epoch_penalty (epoch_idx + i))) = epoch_prices solver epoch_idx epochs := by
    intro epochs
    unfold epoch_prices epoch_price
    rw [total_eq_sum]
    split
    · simp
    · rfl
  unfold lower_bound_remaining
  dsimp only
  rw [penalty]
  unfold least_nodes max_gpu at load
  rw [load]
  rfl

theorem lower_bound_admissible (shaped : Shaped solver bonus cache) (distinct : solver.node_ids.Nodup) : Admissible solver := by
  intro done states epoch_idx found run
  obtain ⟨epochs,long,some_epoch,cost_ge⟩ := run_ge shaped distinct run
  have several : (1 : K) ≤ (max_gpu solver : K) := max_gpu_pos
  have part : 0 ≤ least_nodes solver (solver.pending_gpu done) / (max_gpu solver : K) :=
    div_nonneg (least_nodes_nonneg shaped done) (zero_le_one.trans several)
  have prices : 0 ≤ epoch_prices solver epoch_idx epochs := epoch_prices_mono shaped (Nat.zero_le epochs)
  have factor := shaped.factor.1
  rw [lower_bound_eq shaped]
  split
  · calc (0 : K) ≤ epoch_prices solver epoch_idx epochs + solver.tuning.lower_bound_cost_factor *
        (least_nodes solver (solver.pending_gpu done) / (max_gpu solver : K)) := by positivity
      _ ≤ found.cost := cost_ge
  · rename_i some_left
    have unfinished : solver.db_node_ids.filter (· ∉ done) ≠ [] → done ≠ solver.all_mask := by
      intro cpu_left whole
      apply cpu_left
      apply List.filter_eq_nil_iff.mpr
      intro nid member
      have known : nid ∈ solver.all_mask := List.mem_toFinset.mpr (List.mem_of_mem_filter member)
      simpa [whole] using known
    have enough : max (((solver.pending_gpu done).length + max_gpu solver - 1) / max_gpu solver)
        (if solver.db_node_ids.filter (· ∉ done) = [] then 0 else 1) ≤ epochs := by
      apply Nat.max_le.mpr
      constructor
      · have positive : 0 < max_gpu solver := Nat.lt_of_lt_of_le Nat.zero_lt_one (Nat.le_max_left _ _)
        apply Nat.le_of_lt_succ
        apply (Nat.div_lt_iff_lt_mul positive).mpr
        rw [Nat.succ_mul,Nat.mul_comm epochs]
        omega
      · split
        · exact Nat.zero_le _
        · rename_i cpu_left
          exact some_epoch (unfinished cpu_left)
    have fewer := @epoch_prices_mono K _ _ _ solver bonus cache shaped epoch_idx _ _ enough
    linarith

end

-- The search without the bound.
def unbounded (solver : DPSolver K) : DPSolver K :=
  { solver with tuning := { solver.tuning with enable_lower_bound_pruning := false } }

section
omit [Field K] [LinearOrder K] [IsStrictOrderedRing K]

-- The candidates do not depend on it.
theorem unbounded_assign_gpu (nodes used : List String) (current : List (String × String)) :
    (unbounded solver).assign_gpu nodes used current = solver.assign_gpu nodes used current := by
  induction nodes generalizing used current with
  | nil => rfl
  | cons node_id rest ih =>
      unfold assign_gpu
      simp only [ih]
      rfl

theorem unbounded_select_gpu (done : Finset String) (min_r max_r : Nat) (nodes selected : List String) :
    (unbounded solver).select_gpu done min_r max_r nodes selected = solver.select_gpu done min_r max_r nodes selected := by
  induction nodes generalizing selected with
  | nil => rfl
  | cons node_id rest ih =>
      unfold select_gpu
      simp only [ih]
      rfl

theorem unbounded_fill_passes (done : Finset String) (turns : Nat) (s : Filling) :
    (unbounded solver).fill_passes done turns s = solver.fill_passes done turns s := by
  induction turns generalizing s with
  | zero => rfl
  | succ turns ih =>
      unfold fill_passes
      simp only [ih]
      rfl

theorem unbounded_depth_turns (selected : List String) (turns : Nat) (s : Depths) :
    (unbounded solver).depth_turns selected turns s = solver.depth_turns selected turns s := by
  induction turns generalizing s with
  | zero => rfl
  | succ turns ih =>
      unfold depth_turns
      simp only [ih]
      rfl

theorem unbounded_needed_turns (turns : Nat) (stack visited : List String) (needed : Finset String) :
    (unbounded solver).needed_turns turns stack visited needed = solver.needed_turns turns stack visited needed := by
  induction turns generalizing stack visited needed with
  | zero => rfl
  | succ turns ih =>
      unfold needed_turns
      simp only [ih]
      rfl

end

omit [IsStrictOrderedRing K] in
theorem unbounded_run_assignment (cpu_nodes : List String) (assign : List (String × String)) (states : List WorkerState)
    (costs : List K) (plans : Plans K) (load : K) (window : Window) :
    (unbounded solver).run_assignment cpu_nodes assign states costs plans load window =
      solver.run_assignment cpu_nodes assign states costs plans load window := by
  induction assign generalizing states costs plans load window with
  | nil => rfl
  | cons pair rest ih =>
      unfold run_assignment
      simp only [ih]
      rfl

omit [IsStrictOrderedRing K] in
theorem unbounded_candidates (prune : Bool) (done : Finset String) (states : List WorkerState) (epoch_idx : Nat) :
    (unbounded solver).candidates prune done states epoch_idx = solver.candidates prune done states epoch_idx := by
  have batches : (unbounded solver).enumerate_gpu_batches prune done = solver.enumerate_gpu_batches prune done := by
    unfold enumerate_gpu_batches
    simp only [unbounded_select_gpu]
    rfl
  have filled : ∀ gpu_nodes, (unbounded solver).auto_cpu_batch done gpu_nodes = solver.auto_cpu_batch done gpu_nodes := by
    intro gpu_nodes
    unfold auto_cpu_batch
    rw [unbounded_fill_passes]
    rfl
  have depths : ∀ batch, (unbounded solver).batch_gpu_depths batch = solver.batch_gpu_depths batch := by
    intro batch
    unfold batch_gpu_depths
    simp only [unbounded_depth_turns]
    rfl
  have counted : (unbounded solver).cpu_dep_count = solver.cpu_dep_count := by
    funext nid
    unfold cpu_dep_count
    rw [unbounded_needed_turns]
    rfl
  have priced : ∀ gpu_nodes depths outcome, (unbounded solver).epoch_cost epoch_idx gpu_nodes depths outcome =
      solver.epoch_cost epoch_idx gpu_nodes depths outcome := by
    intro gpu_nodes depths outcome
    unfold epoch_cost naive_cpu_cost
    rw [counted]
    rfl
  have outcomes : ∀ assign cpu_nodes, (unbounded solver).assignment_outcomes assign cpu_nodes states =
      solver.assignment_outcomes assign cpu_nodes states := fun assign cpu_nodes => unbounded_run_assignment _ _ _ _ _ _ _
  have assignments : ∀ gpu_nodes, (unbounded solver).gpu_assignments gpu_nodes = solver.gpu_assignments gpu_nodes :=
    fun gpu_nodes => unbounded_assign_gpu _ _ _
  have each : (unbounded solver).batch_candidates done states epoch_idx = solver.batch_candidates done states epoch_idx := by
    funext batch
    unfold batch_candidates
    simp only [depths,filled,priced,outcomes,assignments]
    rfl
  unfold candidates
  rw [batches,each]

omit [IsStrictOrderedRing K] in
theorem unbounded_run {done : Finset String} {states : List WorkerState} {epoch_idx : Nat} {found : Found K} :
    Run (unbounded solver) done states epoch_idx found ↔ Run solver done states epoch_idx found := by
  constructor
  · intro run
    induction run with
    | finished states epoch_idx => exact .finished states epoch_idx
    | epoch left listed member _ ih => exact .epoch left ((unbounded_candidates _ _ _ _).symm.trans listed) member ih
  · intro run
    induction run with
    | finished states epoch_idx => exact @Run.finished K _ _ _ _ _ _ _ (unbounded solver) states epoch_idx
    | epoch left listed member _ ih => exact .epoch left ((unbounded_candidates _ _ _ _).trans listed) member ih

-- Without batch-shape pruning the schedule that is found is a cheapest one, and the bound
-- that prunes changes nothing of its cost.
theorem solve_least (shaped : Shaped solver bonus cache) (distinct : solver.node_ids.Nodup)
    (unpruned : solver.tuning.enable_batch_shape_pruning = false) {found plain : Found K} (solved : solver.solve = .ok found)
    (solved_plain : (unbounded solver).solve = .ok plain) :
    Cheapest solver ∅ solver.initial_states 0 found ∧ found.cost = plain.cost := by
  have cheapest := solve_cheapest unpruned (fun _ => lower_bound_admissible shaped distinct) solved
  have cheapest_plain := @solve_cheapest K _ _ _ _ _ _ _ (unbounded solver) _ unpruned (fun on => (by cases on)) plain solved_plain
  refine ⟨cheapest,le_antisymm ?_ ?_⟩
  · exact cheapest.least plain (unbounded_run.mp cheapest_plain.run)
  · exact cheapest_plain.least found (unbounded_run.mpr cheapest.run)

-- A prompt after a query, on a worker each.
def query_then_prompt : DPSolver ℚ where
  nodes := (Dict.empty.set "rows" ⟨"rows","data_retrieval","db","",[⟨"rows_query","select 1"⟩],[]⟩).set "answer"
    ⟨"answer","text","vllm","m",[],[]⟩
  dependencies := (Dict.empty.set "rows" []).set "answer" ["rows"]
  workers := (Dict.empty.set "gpu-0" ⟨"gpu-0","gpu",1,[]⟩).set "cpu-0" ⟨"cpu-0","cpu",1,[]⟩
  worker_ids := ["gpu-0","cpu-0"]
  plan_choices := Dict.empty
  node_ids := ["rows","answer"]
  node_worker_options := (Dict.empty.set "rows" ["cpu-0"]).set "answer" ["gpu-0"]
  gpu_worker_ids := ["gpu-0"]
  cpu_worker_ids := ["cpu-0"]
  costs := ⟨fun _ _ => 1,fun _ _ => 1,fun _ _ => 0,fun _ _ _ => 1,fun _ => 1,fun _ => 0⟩
  tuning := ⟨1,false,1,1,1,0,1,1,1,false,true,true,false,false⟩
  inf := 1000

theorem query_then_prompt_shaped : Shaped query_then_prompt 1 1 := by
  constructor
  · exact List.forall_iff_forall_mem.mp (by decide)
  · exact fun _ _ => zero_le_one
  · exact fun _ _ _ => rfl
  · exact fun _ _ => le_rfl
  · exact fun _ _ _ => .inr le_rfl
  · exact fun _ _ => le_rfl
  · exact fun _ => zero_le_one
  · exact fun _ => le_rfl
  · exact fun key choices found => (by cases found)
  · exact ⟨zero_le_one,zero_le_one,le_rfl⟩
  · exact ⟨zero_le_one,le_rfl⟩
  · exact ⟨zero_le_one,le_rfl,by norm_num [query_then_prompt]⟩

theorem solve_least_query : ∃ found plain : Found ℚ,
    Cheapest query_then_prompt ∅ query_then_prompt.initial_states 0 found ∧ found.cost = plain.cost := by
  obtain ⟨found,solved⟩ : ∃ found, query_then_prompt.solve = .ok found := ⟨_,by with_unfolding_all rfl⟩
  obtain ⟨plain,solved_plain⟩ : ∃ plain, (unbounded query_then_prompt).solve = .ok plain := ⟨_,by with_unfolding_all rfl⟩
  exact ⟨found,plain,solve_least query_then_prompt_shaped (by decide) rfl solved solved_plain⟩

end DPSolver
end Lumilake.Optimizer.Halo

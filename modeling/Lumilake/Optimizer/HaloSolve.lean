import Lumilake.Library.Fallible
import Lumilake.Optimizer.HaloBatches

-- What an epoch costs, and the search over epochs.
namespace Lumilake.Optimizer.Halo
variable {K : Type} [Add K] [Mul K] [Div K] [Zero K] [One K] [NatCast K] [LT K] [DecidableLT K] [LE K] [DecidableLE K] [DecidableEq K]

-- max(a,b), min(a,b), sum(..) and max(..)
def larger (a b : K) : K := if a < b then b else a

def smaller (a b : K) : K := if b < a then b else a

def total (costs : List K) : K := costs.foldl (· + ·) 0

def largest : List K → K
  | [] => 0
  | cost :: rest => rest.foldl larger cost

-- `raw_cost` where there is one, else `cost`, else 1.
def query_base (choice : QueryPlanChoice K) : K :=
  match choice.raw_cost,choice.cost with
  | some raw_cost,_ => larger 0 raw_cost
  | none,some cost => cost
  | none,none => 1

def signature (node_id query_name : String) (choice : QueryPlanChoice K) : QuerySignature where
  node_id := node_id
  query_name := query_name
  plan_id := choice.plan_id
  footprints := choice.footprints.insertionSort fun a b => a.1 ≤ b.1

-- What one node costs its worker, where it leaves the worker, and the plans of its queries.
structure Execution (K : Type) where
  node_cost : K
  node_cpu_cost : K
  updated_state : WorkerState
  plan_map : Plans K
  exit_window : Window

structure Outcome (K : Type) where
  gpu_cost_max : K
  gpu_cost_sum : K
  cpu_load_cost : K
  next_states : List WorkerState
  batch_plans : Plans K

-- One way to run the next epoch.
structure Candidate (K : Type) where
  epoch_cost : K
  done : Finset String
  states : List WorkerState
  assigned : List (String × String)
  plans : Plans K

-- An epoch, a worker and a node.
abbrev Placement := Nat × String × String

structure Found (K : Type) where
  cost : K
  schedule : List Placement
  plans : Plans K

abbrev MemoKey := Finset String × List WorkerState × Nat
abbrev Memo (K : Type) := Dict MemoKey (Found K)
abbrev Search (K : Type) := Memo K → Finset String → List WorkerState → Nat → Except String (Found K × Memo K)

def updated (plans later : Plans K) : Plans K := later.entries.foldl (fun d e => d.set e.1 e.2) plans

namespace DPSolver
variable (solver : DPSolver K)

def append_window (window : Window) (node_id query_name : String) (choice : QueryPlanChoice K) : Window :=
  let size := solver.tuning.window_size
  let entry := some (signature node_id query_name choice)
  if size = 0 then window
  else if window = [] then List.replicate (size - 1) none ++ [entry]
  else
    let new_window := window ++ [entry]
    if size < new_window.length then new_window.drop (new_window.length - size) else new_window

def query_cost (window : Window) (choice : QueryPlanChoice K) : K :=
  query_base choice * solver.costs.cache_multiplier (window.filterMap fun entry => entry) choice

def fallback_choice : QueryPlanChoice K := ⟨"default",some 1,none,[]⟩

def choices_of (node : Node) (query : DBQuery) : List (QueryPlanChoice K) :=
  match solver.plan_choices.get? (node.id,query.name) with
  | some (choice :: rest) => choice :: rest
  | _ => [fallback_choice]

def add_query (node : Node) (outcomes : List (K × Window × List (String × QueryPlanChoice K))) (query : DBQuery) :
    List (K × Window × List (String × QueryPlanChoice K)) :=
  outcomes.flatMap fun (base_cost,window,plan_seq) =>
    (solver.choices_of node query).map fun choice =>
      (base_cost + solver.query_cost window choice,solver.append_window window node.id query.name choice,
        plan_seq ++ [(query.name,choice)])

def query_plan_options (node : Node) (enter_window : Window) : List (K × Window × List (String × QueryPlanChoice K)) :=
  node.db_queries.foldl (solver.add_query node) [(0,enter_window,[])]

def plan_map (node : Node) (plan_seq : List (String × QueryPlanChoice K)) : Plans K :=
  plan_seq.foldl (fun d e => d.set (node.id,e.1) e.2) Dict.empty

def after_node (node : Node) (state : WorkerState) : WorkerState where
  worker_idx := state.worker_idx
  last_model := if node.model = "" then state.last_model else some node.model
  last_node := some node.id

def execute_node (node_id : String) (state : WorkerState) (enter_window : Window) : List (Execution K) :=
  let node := solver.node node_id
  let worker_id := solver.worker_ids.getD state.worker_idx ""
  let exec_cost := solver.costs.exec_cost node (solver.worker worker_id)
  let model_cost := solver.costs.model_init_cost node state.last_model
  let bonus := solver.costs.llm_cache_bonus node state.last_node (solver.parents node_id)
  let bonus_multiplier := if bonus ≤ 0 then 1 else bonus
  if solver.is_gpu_node node_id then
    let base_cost := exec_cost * bonus_multiplier + model_cost
    if node.db_queries = [] then [⟨base_cost,0,after_node node state,Dict.empty,enter_window⟩]
    else (solver.query_plan_options node enter_window).map fun (query_cost,exit_window,plan_seq) =>
      ⟨base_cost,query_cost,after_node node state,plan_map node plan_seq,exit_window⟩
  else [⟨0,0,{ state with last_node := some node.id },Dict.empty,enter_window⟩]

-- The first plan of the least cost, as the CPU nodes of the epoch take it.
def best_option (node : Node) (window : Window) : K × Window × List (String × QueryPlanChoice K) :=
  (solver.query_plan_options node window).foldl (fun best option => if option.1 < best.1 then option else best)
    (solver.inf,window,[])

def cpu_load (s : K × Plans K × Window) (node_id : String) : K × Plans K × Window :=
  let node := solver.node node_id
  if node.engine = "http" then (s.1 + solver.costs.http_sleep_cost node,s.2)
  else if node.db_queries = [] then s
  else
    let best := solver.best_option node s.2.2
    if best.1 = solver.inf then s
    else (s.1 + best.1,best.2.2.foldl (fun d e => d.set (node.id,e.1) e.2) s.2.1,best.2.1)

def apply_cpu_load (cpu_nodes : List String) (enter_window : Window) : K × Plans K :=
  let load := cpu_nodes.foldl solver.cpu_load (0,Dict.empty,enter_window)
  (load.1,load.2.1)

-- The assigned nodes run one after the other, in every way their queries allow.
def run_assignment (cpu_nodes : List String) : List (String × String) → List WorkerState → List K → Plans K → K → Window →
    List (Outcome K)
  | [],current_states,worker_costs,acc_plans,cpu_load_cost,window =>
      let (extra,cpu_plans) := solver.apply_cpu_load cpu_nodes window
      let gpu_costs := solver.gpu_worker_ids.map fun wid => worker_costs.getD (solver.worker_ids.idxOf wid) 0
      [⟨largest gpu_costs,total gpu_costs,cpu_load_cost + extra,current_states,updated acc_plans cpu_plans⟩]
  | (worker_id,node_id) :: rest,current_states,worker_costs,acc_plans,cpu_load_cost,window =>
      let worker_idx := solver.worker_ids.idxOf worker_id
      (solver.execute_node node_id (solver.state_of current_states worker_id) window).flatMap fun run =>
        run_assignment cpu_nodes rest (current_states.set worker_idx run.updated_state)
          (worker_costs.modify worker_idx (· + run.node_cost)) (updated acc_plans run.plan_map)
          (cpu_load_cost + run.node_cpu_cost) run.exit_window

def assignment_outcomes (assign : List (String × String)) (cpu_nodes : List String) (states : List WorkerState) : List (Outcome K) :=
  solver.run_assignment cpu_nodes assign states (solver.worker_ids.map fun _ => 0) Dict.empty 0 []

-- CPU nodes that a GPU node waits for, directly or not. A node is expanded once.
def needed_turns : Nat → List String → List String → Finset String → Finset String
  | 0,_,_,needed => needed
  | turns + 1,stack,visited,needed =>
      match stack with
      | [] => needed
      | node_id :: stack =>
          if node_id ∈ visited then needed_turns turns stack visited needed
          else
            let parents := solver.parents node_id
            needed_turns turns ((parents.filter (· ∉ node_id :: visited)).reverse ++ stack) (node_id :: visited)
              (needed ∪ (parents.filter (· ∈ solver.db_node_ids)).toFinset)

def cpu_dep_count (node_id : String) : Nat :=
  (solver.needed_turns (1 + solver.dependencies.values.flatten.length) [node_id] [] ∅).card

def naive_cpu_cost (gpu_nodes : List String) : K := ((gpu_nodes.map solver.cpu_dep_count).foldl (· + ·) 0 : Nat)

def batch_gpu_depth_penalty (gpu_nodes : List String) (depths : Dict String Nat) : K :=
  if solver.tuning.gpu_depth_cost_weight ≤ 0 ∨ gpu_nodes = [] then 0
  else solver.tuning.gpu_depth_cost_weight * ((gpu_nodes.map (depth_of depths)).foldl (· + ·) 0 : Nat)

def cpu_load_weight (epoch_idx : Nat) : K :=
  let tuning := solver.tuning
  if tuning.disable_cpu_load_cost then 0
  else if 0 < tuning.cpu_load_early_weight then
    tuning.cpu_load_cost_weight * (1 + tuning.cpu_load_early_weight / (1 + (epoch_idx : K)))
  else tuning.cpu_load_cost_weight

def epoch_cost (epoch_idx : Nat) (gpu_nodes : List String) (depths : Dict String Nat) (outcome : Outcome K) : K :=
  let tuning := solver.tuning
  let epoch_penalty := if tuning.disable_epoch_batch_cost then 0 else solver.costs.epoch_penalty epoch_idx
  let depth_penalty := if tuning.disable_epoch_batch_cost then 0 else solver.batch_gpu_depth_penalty gpu_nodes depths
  let cpu_load_cost := if tuning.naive_cpu_cost then solver.naive_cpu_cost gpu_nodes else outcome.cpu_load_cost
  let gpu_cost := tuning.gpu_cost_max_weight * outcome.gpu_cost_max + tuning.gpu_cost_sum_weight * outcome.gpu_cost_sum
  epoch_penalty + gpu_cost + solver.cpu_load_weight epoch_idx * cpu_load_cost + depth_penalty

-- The turns of the loops over one batch, those left out by `continue` aside.
def batch_candidates (done : Finset String) (states : List WorkerState) (epoch_idx : Nat) (batch : List String) :
    List (Candidate K) :=
  let depths := solver.batch_gpu_depths batch
  let gpu_nodes := by_depth depths batch
  let cpu_nodes := solver.order_cpu_nodes_by_parent_depth (solver.auto_cpu_batch done gpu_nodes) depths
  let combined := gpu_nodes ++ cpu_nodes
  if combined = [] then []
  else if solver.batch_feasible combined done = false then []
  else
    let gpu_assignments := solver.gpu_assignments gpu_nodes
    let gpu_assignments := if solver.tuning.enable_worker_symmetry then solver.dedup_worker_assignments gpu_assignments states
      else gpu_assignments
    let cpu_assign := solver.cpu_assignments cpu_nodes
    gpu_assignments.flatMap fun g_assign =>
      if g_assign = [] ∧ cpu_assign = [] then []
      else (solver.assignment_outcomes g_assign cpu_nodes states).map fun outcome =>
        ⟨solver.epoch_cost epoch_idx gpu_nodes depths outcome,done ∪ combined.toFinset,outcome.next_states,
          g_assign ++ cpu_assign,outcome.batch_plans⟩

def candidates (prune : Bool) (done : Finset String) (states : List WorkerState) (epoch_idx : Nat) :
    Except String (List (Candidate K)) := do
  let gpu_batches ← solver.enumerate_gpu_batches prune done
  pure (gpu_batches.flatMap (solver.batch_candidates done states epoch_idx))

-- The bound that prunes.
def node_min_cost (node_id : String) : K :=
  let node := solver.node node_id
  if solver.is_gpu_node node_id = false then 0
  else
    let worker_cost := (solver.options node_id).foldl
      (fun least wid => smaller least (solver.costs.exec_cost node (solver.worker wid))) solver.inf
    let plan_cost := total (node.db_queries.map fun query =>
      let best := (solver.choices_of node query).foldl (fun least choice => smaller least (query_base choice)) solver.inf
      if best = solver.inf then 0 else best)
    (if worker_cost = solver.inf then 0 else worker_cost) +
      (if solver.tuning.disable_cpu_load_cost ∨ solver.tuning.naive_cpu_cost then 0
      else plan_cost * solver.tuning.cpu_load_cost_weight)

def lower_bound_remaining (done : Finset String) (epoch_idx : Nat) : K :=
  let remaining_gpu := solver.pending_gpu done
  let remaining_cpu := solver.db_node_ids.filter (· ∉ done)
  if remaining_gpu = [] ∧ remaining_cpu = [] then 0
  else
    let max_gpu := max 1 solver.gpu_worker_ids.length
    let min_epochs := max ((remaining_gpu.length + max_gpu - 1) / max_gpu) (if remaining_cpu = [] then 0 else 1)
    let gpu_min_sum := total (remaining_gpu.map solver.node_min_cost)
    let load_lb := if 0 < gpu_min_sum then gpu_min_sum / (max_gpu : K) else 0
    let penalty_lb := if solver.tuning.disable_epoch_batch_cost then 0
      else total ((List.range min_epochs).map fun i => solver.costs.epoch_penalty (epoch_idx + i))
    penalty_lb + solver.tuning.lower_bound_cost_factor * load_lb

-- The search.
def next_epoch (placement : Placement) : Placement := (placement.1 + 1,placement.2)

def consider (sub : Search K) (epoch_idx : Nat) (s : Found K × Memo K) (candidate : Candidate K) :
    Except String (Found K × Memo K) :=
  if solver.tuning.enable_lower_bound_pruning ∧ s.1.cost < solver.inf ∧
      s.1.cost ≤ candidate.epoch_cost + solver.lower_bound_remaining candidate.done (epoch_idx + 1) then .ok s
  else do
    let (found,memo) ← sub s.2 candidate.done candidate.states (epoch_idx + 1)
    let total_cost := candidate.epoch_cost + found.cost
    if total_cost < s.1.cost then
      pure (⟨total_cost,candidate.assigned.map (fun pair => (0,pair)) ++ found.schedule.map next_epoch,
        updated found.plans candidate.plans⟩,memo)
    else pure (s.1,memo)

-- One call: `retry` is what happens where no candidate was taken.
def explore (prune : Bool) (sub retry : Search K) : Search K := fun memo done states epoch_idx =>
  if done = solver.all_mask then .ok (⟨0,[],Dict.empty⟩,memo)
  else match memo.get? (done,states,epoch_idx) with
    | some found => .ok (found,memo)
    | none => do
        let candidates ← solver.candidates prune done states epoch_idx
        let (best,memo) ← candidates.foldlM (solver.consider sub epoch_idx) (⟨solver.inf,[],Dict.empty⟩,memo)
        if best.cost = solver.inf then retry memo done states epoch_idx
        else pure (best,memo.set (done,states,epoch_idx) best)

def dp_failed : Search K := fun _ _ _ _ => .error "DP failed to find a valid schedule; check DAG dependencies."

-- An epoch takes at least one node, so the nodes bound the depth of the calls.
def solve_unpruned : Nat → Search K
  | 0 => solver.explore false dp_failed dp_failed
  | depth + 1 => solver.explore false (solve_unpruned depth) dp_failed

-- Batch-shape pruning is given up below a state from which it leaves no way on.
def solve_from : Nat → Search K
  | 0 => solver.explore solver.tuning.enable_batch_shape_pruning dp_failed
      (if solver.tuning.enable_batch_shape_pruning then solver.solve_unpruned 0 else dp_failed)
  | depth + 1 => solver.explore solver.tuning.enable_batch_shape_pruning (solve_from depth)
      (if solver.tuning.enable_batch_shape_pruning then solver.solve_unpruned (depth + 1) else dp_failed)

def initial_states : List WorkerState := solver.worker_ids.zipIdx.map fun e => ⟨e.2,none,none⟩

def solve : Except String (Found K) := do
  let (found,_) ← solver.solve_from solver.node_ids.length Dict.empty ∅ solver.initial_states 0
  pure found

end DPSolver
end Lumilake.Optimizer.Halo

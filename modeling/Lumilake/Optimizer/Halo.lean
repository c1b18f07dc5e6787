import Lumilake.Capacity
import Lumilake.Optimizer.HaloReturns
import Lumilake.Optimizer.PrefixMerge

-- The Halo optimizer around its search: what it accepts, what it hands to the solver, and
-- the worker lists it reads off the schedule.
namespace Lumilake.Optimizer.Halo
open WorkerCapability

structure Profile extends WorkerProfile where
  has_gpu : Bool := false
  deriving DecidableEq

abbrev Profiles := Dict String Profile

def profile_of (worker_profiles : Profiles) (name : String) : Profile := (worker_profiles.get? name).getD {}

def gpu_and_cpu : Profiles := (Dict.empty.set "gpu-0" { has_gpu := true }).set "cpu-0" {}

-- One estimate of a data profile; the model of the rows has checked it.
structure CostEstimate (K : Type) where
  plan_id : String
  raw_cost : K
  footprints : List (String × Int) := []

structure ResultRow (K : Type) where
  cost_estimates : List (CostEstimate K)

abbrev ProfileResults (K : Type) := Dict String (List (ResultRow K))

def is_gpu_backend (backend : String) : Bool := decide (lower (strip backend) ∈ ["vllm","transformers","diffusers","omni"])

section
-- `!r`
variable (repr : String → String)

def map_engine (backend task_type : String) : Except String String :=
  let normalized_backend := lower (strip backend)
  if is_gpu_backend normalized_backend then .ok "vllm"
  else if normalized_backend = "http" then .ok "http"
  else if normalized_backend = "api" then .ok "http"
  else if normalized_backend = "data_retrieval" then .ok "db"
  else if normalized_backend = "python" then .ok "python"
  else if normalized_backend = "data_profiling" then
    .error ("Halo optimizer does not support data_profiling nodes in optimized graphs. backend=" ++ repr backend ++
      " task_type=" ++ repr task_type)
  else .error ("Halo optimizer only supports backends in \x7b'vllm','transformers','diffusers','omni','data_retrieval','http'," ++
    "'python'\x7d. Got backend=" ++ repr backend ++ " task_type=" ++ repr (lower (strip task_type)))

def op_of (graph : RuntimeGraph) (node_id : String) : Except String RuntimeOp :=
  match graph.nodes.get? node_id with
  | some op => .ok op
  | none => .error ("KeyError: " ++ repr node_id)

def names_text (names : List String) : String := "[" ++ ", ".intercalate (names.map repr) ++ "]"

def assert_no_http_nodes (graph : RuntimeGraph) : Except String Unit := do
  let ops ← graph.node_order.mapM fun node_id => (op_of repr graph node_id).map fun op => (node_id,op)
  let http_node_ids := (ops.filter fun e => lower (strip e.2.backend) = "http").map Prod.fst
  if http_node_ids = [] then .ok ()
  else .error ("Halo optimizer does not support HTTP nodes by design. Unsupported node_ids=" ++ names_text repr http_node_ids)

def validate_supported_runtime_node (graph : RuntimeGraph) (node_id : String) : Except String PUnit := do
  let op ← op_of repr graph node_id
  match map_engine repr op.backend op.task_type with
  | .error _ => .error ("Halo optimizer encountered unsupported runtime node: node_id=" ++ node_id ++ " task_type=" ++
      repr op.task_type ++ " backend=" ++ repr op.backend)
  | .ok engine =>
      if engine ≠ "db" then .ok ⟨⟩
      else if lower (strip op.backend) ≠ "data_retrieval" ∨ lower (strip op.task_type) ≠ "data_retrieval" then
        .error ("Halo optimizer only supports data_retrieval nodes on CPU. Found node_id=" ++ node_id ++ " task_type=" ++
          repr op.task_type ++ " backend=" ++ repr op.backend)
      else .ok ⟨⟩

def validate_supported_runtime_nodes (graph : RuntimeGraph) : Except String PUnit :=
  graph.node_order.forM (validate_supported_runtime_node repr graph)

-- The gated task types that no selected CPU worker advertises.
def unserved (graph : RuntimeGraph) (worker_names : List String) (worker_profiles : Profiles) : List String :=
  let cpu_names := worker_names.filter fun name => !(profile_of worker_profiles name).has_gpu
  let advertised := cpu_names.flatMap fun name => advertised_task_types (profile_of worker_profiles name).toWorkerProfile
  (required_task_types (graph.nodes.values.map RuntimeOp.task_type)).filter (· ∉ advertised)

def validate_task_type_workers (graph : RuntimeGraph) (worker_names : List String) (worker_profiles : Profiles) : Except String Unit :=
  match (unserved graph worker_names worker_profiles).insertionSort (· ≤ ·) with
  | [] => .ok ()
  | task_type :: _ =>
      let nodes := ((graph.nodes.entries.filter fun e => e.2.task_type = task_type).map Prod.fst).insertionSort (· ≤ ·)
      let cpu_names := worker_names.filter fun name => !(profile_of worker_profiles name).has_gpu
      .error ("Graph has " ++ repr task_type ++ " task node(s) " ++ names_text repr nodes ++
        ", but none of the selected CPU workers " ++ names_text repr cpu_names ++ " advertises the " ++ repr task_type ++ " task type.")

section
variable {K : Type}

-- The plans of a query: of each id the one that scores least, in the order of the scores.
def scores_less [LT K] [DecidableLT K] [DecidableEq K] (a b : CostEstimate K) : Bool :=
  decide (a.raw_cost < b.raw_cost) || decide (a.raw_cost = b.raw_cost ∧ a.plan_id < b.plan_id)

def take_estimate [LT K] [DecidableLT K] [DecidableEq K] (by_plan_id : Dict String (CostEstimate K)) (estimate : CostEstimate K) :
    Dict String (CostEstimate K) :=
  match by_plan_id.get? estimate.plan_id with
  | none => by_plan_id.set estimate.plan_id estimate
  | some existing => if scores_less estimate existing then by_plan_id.set estimate.plan_id estimate else by_plan_id

def build_data_profile_choices [LT K] [DecidableLT K] [DecidableEq K] (estimates : List (CostEstimate K)) : List (QueryPlanChoice K) :=
  ((estimates.foldl take_estimate Dict.empty).values.insertionSort fun a b => !scores_less b a).map fun estimate =>
    ⟨estimate.plan_id,none,some estimate.raw_cost,estimate.footprints⟩

def data_profile_key (node_id query_name : String) : String := "data_profile::" ++ node_id ++ "::" ++ query_name

def query_name (node_id : String) : String := node_id ++ "_query"

def retrieval_is_data_profile_eligible (data_spec : Spec) : Bool :=
  let is_profiled := fun key => decide (Value.get? data_spec key = some (.str "sql") ∨ Value.get? data_spec key = some (.str "s3"))
  is_profiled "type" || (decide (Value.get? data_spec "type" = some (.str "lumid")) && is_profiled "mode")

def is_data_profile_candidate (op : RuntimeOp) : Bool :=
  match map_engine repr op.backend op.task_type with
  | .ok engine => decide (engine = "db") && retrieval_is_data_profile_eligible op.data_spec
  | .error _ => false

def profile_plans [LT K] [DecidableLT K] [DecidableEq K] (graph : RuntimeGraph) (results : ProfileResults K)
    (plan_choices : Dict (String × String) (List (QueryPlanChoice K))) (node_id : String) :
    Dict (String × String) (List (QueryPlanChoice K)) :=
  match graph.nodes.get? node_id with
  | none => plan_choices
  | some op =>
      if is_data_profile_candidate repr op then
        let rows := (results.get? (data_profile_key node_id (query_name node_id))).getD []
        let choices := build_data_profile_choices (rows.flatMap ResultRow.cost_estimates)
        if choices = [] then plan_choices else plan_choices.set (node_id,query_name node_id) choices
      else plan_choices

def build_data_profile_plan_choices [LT K] [DecidableLT K] [DecidableEq K] (graph : RuntimeGraph) (results : ProfileResults K) :
    Dict (String × String) (List (QueryPlanChoice K)) := graph.node_order.foldl (profile_plans repr graph results) Dict.empty

-- The nodes of the solver.
def put (entries : Spec) (key : String) (value : Value) : Spec :=
  if key ∈ entries.map Prod.fst then entries.map fun e => if e.1 = key then (key,value) else e else entries ++ [(key,value)]

def build_node_raw (op : RuntimeOp) (deps : List String) : Spec :=
  let raw := if op.inference_spec = [] then op.data_spec else put op.data_spec "_inference_spec" (.dict op.inference_spec)
  match deps with
  | [] => raw
  | first :: _ => if (Value.get? raw "parent").isSome then raw else put raw "parent" (.str first)

def build_node (node_id : String) (op : RuntimeOp) (engine : String) : Node where
  id := node_id
  type := op.task_type
  engine := engine
  model := op.model
  db_queries :=
    if engine = "db" then
      let sql_template := match Value.get? op.data_spec "template" with
        | some (.str template) => template
        | _ => ""
      [⟨query_name node_id,sql_template⟩]
    else []
  raw := build_node_raw op op.dependencies

def add_node (graph : RuntimeGraph) (halo_nodes : Dict String Node) (node_id : String) : Except String (Dict String Node) := do
  let op ← op_of repr graph node_id
  let engine ← map_engine repr op.backend op.task_type
  pure (halo_nodes.set node_id (build_node node_id op engine))

def build_nodes (graph : RuntimeGraph) : Except String (Dict String Node) := graph.node_order.foldlM (add_node repr graph) Dict.empty

def dependencies_of (graph : RuntimeGraph) : Dict String (List String) :=
  graph.node_order.foldl (fun d node_id => d.set node_id (((graph.nodes.get? node_id).map RuntimeOp.dependencies).getD [])) Dict.empty

-- The workers of the solver, and which of them may run a node.
def build_worker [One K] (worker_profiles : Profiles) (name : String) : Worker K where
  id := name
  kind := if (profile_of worker_profiles name).has_gpu then "gpu" else "cpu"
  capacity := 1
  task_types := advertised_task_types (profile_of worker_profiles name).toWorkerProfile

def build_workers [One K] (worker_names : List String) (worker_profiles : Profiles) (graph : RuntimeGraph) :
    Except String (Dict String (Worker K)) :=
  let workers := worker_names.foldl (fun d name => d.set name (build_worker worker_profiles name)) Dict.empty
  if graph.nodes.values.any (fun op => is_gpu_backend op.backend) ∧ ¬ workers.values.any (fun w => w.kind = "gpu") then
    .error "Halo DP requires at least one GPU worker because the graph contains GPU nodes."
  else .ok workers

def workers_of_kind (workers : Dict String (Worker K)) (gpu : Bool) : List String :=
  (workers.entries.filter fun e => decide (e.2.kind = "gpu") == gpu).map Prod.fst

def tier (workers : Dict String (Worker K)) (node : Node) : Option (List String) :=
  if node.engine = "vllm" then some (workers_of_kind workers true)
  else if node.engine = "db" ∧ node.type = "data_retrieval" then some (workers_of_kind workers false)
  else if node.engine = "http" then some (workers_of_kind workers false)
  else if node.engine = "python" then some (workers_of_kind workers false)
  else none

def advertises (workers : Dict String (Worker K)) (task_type worker_id : String) : Bool :=
  match workers.get? worker_id with
  | some worker => decide (task_type ∈ worker.task_types)
  | none => false

def node_options (workers : Dict String (Worker K)) (options : Dict String (List String)) (e : String × Node) :
    Except String (Dict String (List String)) :=
  match tier workers e.2 with
  | none => .error ("Unsupported node for Halo worker assignment: node='" ++ e.1 ++ "' engine=" ++ repr e.2.engine ++ " type=" ++
      repr e.2.type)
  | some names =>
      let eligible := if e.2.type ∈ CAPABILITY_GATED_TASK_TYPES then names.filter (advertises workers e.2.type) else names
      if eligible = [] then
        .error ("No compatible workers for node '" ++ e.1 ++ "' (engine=" ++ e.2.engine ++ ", type=" ++ e.2.type ++ ")")
      else .ok (options.set e.1 (eligible.insertionSort (· ≤ ·)))

def build_node_worker_options (nodes : Dict String Node) (workers : Dict String (Worker K)) : Except String (Dict String (List String)) :=
  nodes.entries.foldlM (node_options repr workers) Dict.empty

-- The worker lists of a schedule.
def placed_before (order_index : String → Nat) (a b : Placement) : Prop :=
  a.1 < b.1 ∨ a.1 = b.1 ∧ (order_index a.2.2 < order_index b.2.2 ∨ order_index a.2.2 = order_index b.2.2 ∧ a.2.1 ≤ b.2.1)

instance (order_index : String → Nat) : DecidableRel (placed_before order_index) :=
  fun _ _ => inferInstanceAs (Decidable (_ ∨ _ ∧ (_ ∨ _ ∧ _)))

def group_schedule_by_worker (schedule : List Placement) (worker_ids node_order : List String) : Dict String (List String) :=
  let grouped := worker_ids.foldl (fun d worker_id => d.set worker_id []) Dict.empty
  let order_index := fun node_id => ((RuntimeGraph.order_index node_order).get? node_id).getD (10 ^ 9)
  (schedule.insertionSort (placed_before order_index)).foldl
    (fun grouped item => grouped.set item.2.1 ((grouped.get? item.2.1).getD [] ++ [item.2.2])) grouped

def validate_schedule (schedule : Dict String (List String)) (graph : RuntimeGraph) (worker_ids : List String) : Except String Unit :=
  let flattened := worker_ids.flatMap fun worker_id => (schedule.get? worker_id).getD []
  let sorted := fun names : List String => names_text repr (names.dedup.insertionSort (· ≤ ·))
  if ¬ (worker_ids ⊆ schedule.keys ∧ schedule.keys ⊆ worker_ids) then
    .error ("Halo schedule worker mismatch. Missing=" ++ sorted (worker_ids.filter (· ∉ schedule.keys)) ++ ", extra=" ++
      sorted (schedule.keys.filter (· ∉ worker_ids)))
  else if ¬ flattened.Nodup then .error "Halo schedule has duplicate nodes"
  else if ¬ (flattened ⊆ graph.nodes.keys ∧ graph.nodes.keys ⊆ flattened) then
    .error ("Halo schedule mismatch. Missing=" ++ sorted (graph.nodes.keys.filter (· ∉ flattened)) ++ ", extra=" ++
      sorted (flattened.filter (· ∉ graph.nodes.keys)))
  else .ok ()

-- Model sizes, tuning and the cost functions are float arithmetic; here they are read off
-- the graph, the workers and the plans by a function that may fail.
abbrev Pricing (K : Type) :=
  Dict String Node → Dict String (Worker K) → Dict (String × String) (List (QueryPlanChoice K)) → Except String (Costs K × Tuning K)

def make_solver (inf : K) (graph : RuntimeGraph) (nodes : Dict String Node) (workers : Dict String (Worker K))
    (options : Dict String (List String)) (plan_choices : Dict (String × String) (List (QueryPlanChoice K))) (costs : Costs K)
    (tuning : Tuning K) : DPSolver K where
  nodes := nodes
  dependencies := dependencies_of graph
  workers := workers
  worker_ids := workers.keys
  plan_choices := plan_choices
  node_ids := graph.node_order
  node_worker_options :=
    graph.node_order.foldl (fun d node_id => d.set node_id ((options.get? node_id).getD workers.keys)) Dict.empty
  gpu_worker_ids := workers_of_kind workers true
  cpu_worker_ids := if workers_of_kind workers false = [] then workers.keys else workers_of_kind workers false
  costs := costs
  tuning := tuning
  inf := inf

section
variable [Add K] [Mul K] [Div K] [Zero K] [One K] [NatCast K] [LT K] [DecidableLT K] [LE K] [DecidableLE K] [DecidableEq K]

def plan_schedule (pricing : Pricing K) (inf : K) (graph : RuntimeGraph) (workers_input : List String) (worker_profiles : Profiles)
    (results : ProfileResults K) : Except String (Dict String (List String)) := do
  let nodes ← build_nodes repr graph
  let workers ← build_workers workers_input worker_profiles graph
  let options ← build_node_worker_options repr nodes workers
  let plan_choices := build_data_profile_plan_choices repr graph results
  let (costs,tuning) ← pricing nodes workers plan_choices
  let found ← (make_solver inf graph nodes workers options plan_choices costs tuning).solve
  let worker_assignment := group_schedule_by_worker found.schedule workers.keys graph.node_order
  validate_schedule repr worker_assignment graph workers.keys
  pure worker_assignment

-- What is raised inside is the cause of the error that is raised.
def generate_schedule (pricing : Pricing K) (inf : K) (graph : RuntimeGraph) (worker_names : List String) (worker_profiles : Profiles)
    (results : ProfileResults K) : Except String (Dict String (List String)) :=
  let workers_input := (worker_names.map strip).filter (· ≠ "")
  if workers_input = [] then .error "HaloOptimizer requires at least one worker"
  else if graph.nodes.entries = [] then .ok (workers_input.foldl (fun d worker => d.set worker []) Dict.empty)
  else do
    assert_no_http_nodes repr graph
    validate_supported_runtime_nodes repr graph
    validate_task_type_workers repr graph workers_input worker_profiles
    match plan_schedule repr pricing inf graph workers_input worker_profiles results with
    | .ok schedule => .ok schedule
    | .error _ => .error "Halo optimizer failed to generate schedule"

end

end

end
end Lumilake.Optimizer.Halo

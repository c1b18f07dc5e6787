import Mathlib.Data.Finset.Card
import Mathlib.Data.Nat.Cast.Defs
import Lumilake.Utils.HeapOrder
import Lumilake.Value

-- The search of the Halo scheduler. Costs are floats there; here they are elements of any
-- type with the operations the solver uses, and no law of them is assumed.
namespace Lumilake.Optimizer.Halo
variable {K : Type}

structure DBQuery where
  name : String
  sql : String
  deriving DecidableEq

structure QueryPlanChoice (K : Type) where
  plan_id : String
  cost : Option K
  raw_cost : Option K
  footprints : List (String × Int)
  deriving DecidableEq

structure Node where
  id : String
  type : String
  engine : String
  model : String
  db_queries : List DBQuery := []
  raw : Spec := []
  deriving DecidableEq

structure Worker (K : Type) where
  id : String
  kind : String
  capacity : K
  task_types : List String := []
  deriving DecidableEq

structure QuerySignature where
  node_id : String
  query_name : String
  plan_id : String
  footprints : List (String × Int)
  deriving DecidableEq

-- The source numbers models, nodes and signatures and keeps the numbers; here the things
-- themselves are kept, and none where it keeps -1.
structure WorkerState where
  worker_idx : Nat
  last_model : Option String
  last_node : Option String
  deriving DecidableEq

abbrev Window := List (Option QuerySignature)
abbrev Plans (K : Type) := Dict (String × String) (QueryPlanChoice K)

-- The functions of costs that the solver is given.
structure Costs (K : Type) where
  exec_cost : Node → Worker K → K
  cache_multiplier : List QuerySignature → QueryPlanChoice K → K
  model_init_cost : Node → Option String → K
  llm_cache_bonus : Node → Option String → List String → K
  epoch_penalty : Nat → K
  http_sleep_cost : Node → K

-- The options, as `__init__` leaves them.
structure Tuning (K : Type) where
  window_size : Nat
  naive_cpu_cost : Bool
  cpu_load_cost_weight : K
  cpu_load_early_weight : K
  gpu_cost_max_weight : K
  gpu_cost_sum_weight : K
  gpu_depth_cost_weight : K
  lower_bound_cost_factor : K
  gpu_batch_slack : Nat
  enable_batch_shape_pruning : Bool
  enable_lower_bound_pruning : Bool
  enable_worker_symmetry : Bool
  disable_epoch_batch_cost : Bool
  disable_cpu_load_cost : Bool

structure DPSolver (K : Type) where
  nodes : Dict String Node
  dependencies : Dict String (List String)
  workers : Dict String (Worker K)
  worker_ids : List String
  plan_choices : Dict (String × String) (List (QueryPlanChoice K))
  node_ids : List String
  node_worker_options : Dict String (List String)
  gpu_worker_ids : List String
  cpu_worker_ids : List String
  costs : Costs K
  tuning : Tuning K
  -- float("inf")
  inf : K

namespace DPSolver
variable (solver : DPSolver K)

def node (node_id : String) : Node := (solver.nodes.get? node_id).getD ⟨node_id,"","","",[],[]⟩

def worker (worker_id : String) : Worker K := (solver.workers.get? worker_id).getD ⟨worker_id,"",solver.inf,[]⟩

def parents (node_id : String) : List String := (solver.dependencies.get? node_id).getD []

def is_gpu_node (node_id : String) : Bool := decide ((solver.node node_id).engine = "vllm")

def gpu_node_ids : List String := solver.node_ids.filter solver.is_gpu_node

def db_node_ids : List String := solver.node_ids.filter fun nid => !solver.is_gpu_node nid

def all_mask : Finset String := solver.node_ids.toFinset

def parents_mask (node_id : String) : List String := (solver.parents node_id).filter (· ∈ solver.node_ids)

def gpu_parents_mask (node_id : String) : List String := (solver.parents_mask node_id).filter solver.is_gpu_node

-- topo_utils.topological_order over the nodes, the least ready name first.
def name_push (heap : List String) (name : String) : List String := heap.orderedInsert (· ≤ ·) name

def children_of : Adjacency String :=
  solver.node_ids.foldl (fun d parent => d.set parent (solver.node_ids.flatMap fun nid =>
    List.replicate ((solver.parents nid).count parent) nid)) Dict.empty

def topological_order : Except String (List String) :=
  let in_degree := count_in_degree solver.children_of
  let ready := (in_degree.entries.filter fun e => e.2 = 0).map Prod.fst
  let order := (drain_heap name_push solver.children_of solver.node_ids.length [] ⟨in_degree,ready.foldl name_push []⟩).1
  if order.length ≠ solver.node_ids.length then .error "Cycle detected or missing nodes when building topo order"
  else .ok order

def db_topo_order : List String :=
  let topo := match solver.topological_order with
    | .ok order => order
    | .error _ => solver.node_ids
  topo.filter fun nid => !solver.is_gpu_node nid

-- Batches of GPU nodes.
def pending_gpu (done : Finset String) : List String := solver.gpu_node_ids.filter (· ∉ done)

def gpu_topo (pending : List String) : List String :=
  let in_deg : Dict String Int :=
    pending.foldl (fun d nid => d.set nid ((solver.parents nid).filter (· ∈ pending)).length) Dict.empty
  let children : Adjacency String :=
    pending.foldl (fun d nid => d.set nid (pending.filter fun child => decide (nid ∈ solver.parents child))) Dict.empty
  let queue := pending.filter fun nid => degree in_deg nid = 0
  let topo := (drain_heap (fun queue child => queue ++ [child]) children pending.length [] ⟨in_deg,queue⟩).1
  if topo.length ≠ pending.length then pending else topo

-- Skip the next node, then select it where its parents are done or selected.
def select_gpu (done : Finset String) (min_r max_r : Nat) : List String → List String → List (List String)
  | [],selected => if min_r ≤ selected.length ∧ selected.length ≤ max_r then [selected] else []
  | node_id :: rest,selected =>
      select_gpu done min_r max_r rest selected ++
        (if max_r ≤ selected.length then []
        else if (solver.gpu_parents_mask node_id).any (fun p => decide (p ∉ done ∧ p ∉ selected)) then
          select_gpu done min_r max_r rest selected
        else select_gpu done min_r max_r rest (selected ++ [node_id]))

def enumerate_gpu_batches (prune : Bool) (done : Finset String) : Except String (List (List String)) :=
  let max_gpu := max 1 solver.gpu_worker_ids.length
  let pending := solver.pending_gpu done
  if pending = [] then .ok [[]]
  else
    let target := min max_gpu pending.length
    let min_r := if prune then max 1 (target - solver.tuning.gpu_batch_slack) else 1
    let results := [] :: solver.select_gpu done min_r target (solver.gpu_topo pending) []
    if results = [[]] then .error "DP GPU batch enumeration produced no executable GPU batch despite pending nodes"
    else .ok results

-- The CPU nodes of an epoch: passes over the topological order until one selects nothing.
structure Filling where
  selected : List String
  batch : Finset String

def fill_node (done : Finset String) (s : Filling) (nid : String) : Filling :=
  if nid ∈ done ∨ nid ∈ s.selected then s
  else if (solver.parents_mask nid).any (fun p => decide (p ∉ s.batch)) then s
  else ⟨s.selected ++ [nid],insert nid s.batch⟩

def fill_passes (done : Finset String) : Nat → Filling → Filling
  | 0,s => s
  | turns + 1,s =>
      let after := solver.db_topo_order.foldl (solver.fill_node done) s
      if after.selected.length = s.selected.length then after else fill_passes done turns after

-- Every pass but the last selects a node.
def auto_cpu_batch (done : Finset String) (gpu_nodes : List String) : List String :=
  (solver.fill_passes done (solver.db_topo_order.length + 1) ⟨[],done ∪ gpu_nodes.toFinset⟩).selected

-- Depths inside the chosen GPU nodes.
structure Depths where
  indeg : Dict String Int
  queue : List String
  depths : Dict String Nat

def depth_child (base : Nat) (s : Depths) (child : String) : Depths :=
  let depths := s.depths.set child (max ((s.depths.get? child).getD 0) (base + 1))
  let remaining := degree s.indeg child - 1
  ⟨s.indeg.set child remaining,if remaining = 0 then s.queue ++ [child] else s.queue,depths⟩

def depth_turns (selected : List String) : Nat → Depths → Depths
  | 0,s => s
  | turns + 1,s =>
      match s.queue with
      | [] => s
      | nid :: queue =>
          let children := selected.flatMap fun child => List.replicate ((solver.parents child).count nid) child
          depth_turns selected turns (children.foldl (depth_child ((s.depths.get? nid).getD 0)) { s with queue := queue })

-- A node enters the queue once, when its count reaches zero.
def batch_gpu_depths (gpu_nodes : List String) : Dict String Nat :=
  let indeg : Dict String Int :=
    gpu_nodes.foldl (fun d nid => d.set nid ((solver.parents nid).filter (· ∈ gpu_nodes)).length) Dict.empty
  let queue := gpu_nodes.filter fun nid => degree indeg nid = 0
  let start : Dict String Nat := queue.foldl (fun d nid => d.set nid 0) Dict.empty
  let depths := (solver.depth_turns gpu_nodes gpu_nodes.length ⟨indeg,queue,start⟩).depths
  gpu_nodes.foldl (fun d nid => if nid ∈ d then d else d.set nid 0) depths

def depth_of (depths : Dict String Nat) (nid : String) : Nat := (depths.get? nid).getD 0

def by_depth (depths : Dict String Nat) (gpu_nodes : List String) : List String :=
  gpu_nodes.insertionSort fun a b => depth_of depths a ≤ depth_of depths b

def parent_depth (depths : Dict String Nat) (node_id : String) : Option Nat :=
  match Value.get? (solver.node node_id).raw "parent" with
  | some (.str parent) => depths.get? parent
  | _ => none

-- The key (depth is None, depth or 0).
def depth_before : Option Nat → Option Nat → Bool
  | some x,some y => decide (x ≤ y)
  | _,none => true
  | none,some _ => false

def order_cpu_nodes_by_parent_depth (cpu_nodes : List String) (depths : Dict String Nat) : List String :=
  if depths.keys = [] then cpu_nodes
  else cpu_nodes.insertionSort fun a b => depth_before (solver.parent_depth depths a) (solver.parent_depth depths b)

def batch_feasible (nodes : List String) (done : Finset String) : Bool :=
  nodes.all fun node_id => (solver.parents_mask node_id).all fun p => decide (p ∈ done ∨ p ∈ nodes)

-- Who runs the nodes of a batch.
def options (node_id : String) : List String := (solver.node_worker_options.get? node_id).getD []

def gpu_options (node_id : String) : List String := (solver.node_worker_options.get? node_id).getD solver.gpu_worker_ids

def assign_gpu : List String → List String → List (String × String) → List (List (String × String))
  | [],_,current => [current]
  | node_id :: rest,used,current =>
      (solver.gpu_worker_ids.filter fun wid => decide (wid ∈ solver.gpu_options node_id ∧ wid ∉ used)).flatMap fun wid =>
        assign_gpu rest (wid :: used) (current ++ [(wid,node_id)])

def gpu_assignments (gpu_nodes : List String) : List (List (String × String)) := solver.assign_gpu gpu_nodes [] []

def cpu_pool (node_id : String) : List String :=
  let workers := if solver.cpu_worker_ids = [] then solver.worker_ids else solver.cpu_worker_ids
  let allowed := solver.options node_id
  let pool := workers.filter (· ∈ allowed)
  if pool ≠ [] then pool else if allowed ≠ [] then allowed else workers

def cpu_assignments (cpu_nodes : List String) : List (String × String) :=
  if solver.cpu_worker_ids = [] ∧ solver.worker_ids = [] then []
  else cpu_nodes.zipIdx.map fun e =>
    let pool := solver.cpu_pool e.1
    (pool.getD (e.2 % pool.length) "",e.1)

-- Workers of one kind and capacity in one state are alike.
abbrev WorkerSignature (K : Type) := String × K × Option String × Option String

def state_of (states : List WorkerState) (wid : String) : WorkerState :=
  states.getD (solver.worker_ids.idxOf wid) ⟨solver.worker_ids.idxOf wid,none,none⟩

def worker_signature (states : List WorkerState) (wid : String) : WorkerSignature K :=
  ((solver.worker wid).kind,(solver.worker wid).capacity,(solver.state_of states wid).last_model,(solver.state_of states wid).last_node)

section
variable [DecidableEq K]

def assignment_signature (assign : List (String × String)) (states : List WorkerState) :
    Dict (WorkerSignature K) (List String) :=
  let buckets : Dict (WorkerSignature K) (List String) := assign.foldl
    (fun d pair => let sig := solver.worker_signature states pair.1
      d.set sig ((d.get? sig).getD [] ++ [pair.2])) Dict.empty
  buckets.mapValues fun _ nodes => nodes.insertionSort (· ≤ ·)

-- The source sorts the buckets before it compares them.
def same_signature (states : List WorkerState) (a b : List (String × String)) : Bool :=
  decide ((solver.assignment_signature a states).entries.Perm (solver.assignment_signature b states).entries)

def dedup_worker_assignments (assignments : List (List (String × String))) (states : List WorkerState) :
    List (List (String × String)) :=
  assignments.foldl (fun uniq assign => if uniq.any (solver.same_signature states assign) then uniq else uniq ++ [assign]) []

end

end DPSolver
end Lumilake.Optimizer.Halo

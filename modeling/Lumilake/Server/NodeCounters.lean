import Mathlib.Data.Int.Basic
import Lumilake.JobManager.Base

namespace Lumilake.Server

-- The node counters of a request. Each batch in progress has its raw nodes and the
-- share of the optimized ones.
structure NodeCounters where
  pending_runtime_nodes_raw : Int
  processing_runtime_nodes_raw : Int := 0
  processing_runtime_nodes_optimized : Int := 0
  processed_runtime_nodes_raw : Int := 0
  processed_runtime_nodes_optimized : Int := 0
  batch_node_counts : Dict String (Nat × Nat) := Dict.empty

abbrev CounterTable := Dict String NodeCounters

def total (counts : List Nat) : Nat := counts.foldr (· + ·) 0

def request_ids (workflows : List WorkflowItem) : List String := (workflows.map WorkflowItem.request_id).eraseDups

def raw_nodes (workflows : List WorkflowItem) (request_id : String) : Nat :=
  total ((workflows.filter (fun w => decide (w.request_id = request_id))).map (fun w => w.runtime_graph.node_count))

-- The counters as an update leaves them, beside the error it raised.
abbrev Update := NodeCounters → NodeCounters × Option String

-- A loop over requests that an error ends. An unknown request is passed by.
def for_requests (update : String → Update) : List String → CounterTable → CounterTable × Option String
  | [],requests => (requests,none)
  | request_id :: rest,requests =>
    match requests.get? request_id with
    | none => for_requests update rest requests
    | some counters =>
      match update request_id counters with
      | (counters,none) => for_requests update rest (requests.set request_id counters)
      | (counters,some message) => (requests.set request_id counters,some message)

-- `handle_request`: every node of the query is pending.
def new_counters (query : List WorkflowItem) : NodeCounters where
  pending_runtime_nodes_raw := total (query.map (fun w => w.runtime_graph.node_count))

def start_request (batch_id : String) (raw : Nat) (request_id : String) : Update := fun c =>
  if c.pending_runtime_nodes_raw < raw then
    (c,some s!"Pending runtime nodes underflow for request {request_id}: pending={c.pending_runtime_nodes_raw} batch={raw}")
  else
    ({ c with
      pending_runtime_nodes_raw := c.pending_runtime_nodes_raw - raw
      processing_runtime_nodes_raw := c.processing_runtime_nodes_raw + raw
      batch_node_counts := c.batch_node_counts.set batch_id (raw,0) },none)

def start_counters (batch_id : String) (active : List WorkflowItem) (requests : CounterTable) : CounterTable × Option String :=
  for_requests (fun request_id => start_request batch_id (raw_nodes active request_id) request_id) (request_ids active) requests

def request_order (active : List WorkflowItem) : List String := (request_ids active).mergeSort (fun a b => decide (a ≤ b))

-- The optimized nodes by request: in proportion to the raw nodes, rounded down, and
-- what is left one by one in the order of the request ids.
def optimized_nodes (total_nodes : Nat) (active : List WorkflowItem) (request_id : String) : Nat :=
  let total_raw_nodes := total ((request_order active).map (raw_nodes active))
  let share := fun id => if total_raw_nodes = 0 then 0 else total_nodes * raw_nodes active id / total_raw_nodes
  let remainder := total_nodes - total ((request_order active).map share)
  share request_id + (if (request_order active).idxOf request_id < remainder then 1 else 0)

def record_request (batch_id : String) (optimized : Nat) (request_id : String) : Update := fun c =>
  match c.batch_node_counts.get? batch_id with
  | none => (c,some s!"Missing batch node counts for request {request_id} ({batch_id})")
  | some (raw,recorded) =>
    if recorded ≠ 0 then (c,some s!"Batch optimized nodes already recorded for request {request_id} ({batch_id})")
    else
      ({ c with
        processing_runtime_nodes_optimized := c.processing_runtime_nodes_optimized + optimized
        batch_node_counts := c.batch_node_counts.set batch_id (raw,optimized) },none)

def record_counters (batch_id : String) (total_nodes : Nat) (active : List WorkflowItem) (requests : CounterTable) :
    CounterTable × Option String :=
  for_requests (fun request_id => record_request batch_id (optimized_nodes total_nodes active request_id) request_id)
    (request_order active) requests

def process_raw (raw : Nat) (request_id : String) : Update := fun c =>
  if raw = 0 then (c,none)
  else if c.processing_runtime_nodes_raw < raw then
    (c,some s!"Processing runtime raw underflow for request {request_id}: processing={c.processing_runtime_nodes_raw} batch={raw}")
  else
    ({ c with
      processing_runtime_nodes_raw := c.processing_runtime_nodes_raw - raw
      processed_runtime_nodes_raw := c.processed_runtime_nodes_raw + raw },none)

def process_optimized (optimized : Nat) (request_id : String) : Update := fun c =>
  if optimized = 0 then (c,none)
  else if c.processing_runtime_nodes_optimized < optimized then
    (c,some (s!"Processing runtime optimized underflow for request {request_id}: " ++
      s!"processing={c.processing_runtime_nodes_optimized} batch={optimized}"))
  else
    ({ c with
      processing_runtime_nodes_optimized := c.processing_runtime_nodes_optimized - optimized
      processed_runtime_nodes_optimized := c.processed_runtime_nodes_optimized + optimized },none)

-- A batch that is split for a retry hands its nodes back to pending.
def settle_request (batch_id : String) (retry : Bool) (request_id : String) : Update := fun c =>
  match c.batch_node_counts.get? batch_id with
  | none => (c,none)
  | some (raw,optimized) =>
    let c := { c with batch_node_counts := c.batch_node_counts.erase batch_id }
    if retry then
      ({ c with
        processing_runtime_nodes_raw := c.processing_runtime_nodes_raw - raw
        pending_runtime_nodes_raw := c.pending_runtime_nodes_raw + raw
        processing_runtime_nodes_optimized := c.processing_runtime_nodes_optimized - optimized },none)
    else match process_raw raw request_id c with
      | (c,some message) => (c,some message)
      | (c,none) => process_optimized optimized request_id c

def settle_counters (batch_id : String) (retry : Bool) (active : List WorkflowItem) (requests : CounterTable) :
    CounterTable × Option String :=
  for_requests (settle_request batch_id retry) (request_ids active) requests

end Lumilake.Server

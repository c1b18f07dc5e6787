import Lumilake.Capacity

namespace Lumilake

structure WorkflowSliceMeta where
  public_graph_name : String
  slice_index : Nat
  slice_start : Nat
  slice_length : Nat
  total_length : Nat
  template_hash : String
  varying_input_keys : List String := []
  deriving DecidableEq

-- One queued workflow. The slice counters come from list lengths and are never negative.
structure WorkflowItem where
  workflow_id : String
  request_id : String
  graph_name : String
  public_graph_name : String
  slice_index : Nat
  slice_start : Nat
  slice_length : Nat
  total_length : Nat
  template_hash : String
  varying_input_keys : List String
  runtime_graph : RuntimeGraph
  config : LumilakeRequestConfig
  enqueued_at : Time
  dispatch_token : Option String := none
  api_credential_digest : Option String := none
  miss_count : Nat := 0
  requires_gpu : Bool := false

-- The per-graph dicts of a job share their keys, so they are one list here.
structure JobWorkflow where
  graph_name : String
  runtime_graph : RuntimeGraph
  slice : WorkflowSliceMeta
  requires_gpu : Bool := false

structure Job where
  request_id : String
  workflows : List JobWorkflow
  config : LumilakeRequestConfig
  dispatch_token : Option String := none
  api_credential_digest : Option String := none

-- The ordering decisions of a job manager, over whatever state the policy keeps.
-- A policy answers with candidate ids, or fails with its own message.
structure SchedulingPolicy (σ : Type) where
  select_batch : σ → List WorkflowItem → Int → σ × Except String (List String)
  on_commit : σ → List WorkflowItem → σ := fun state _ => state
  observe_free_lanes : σ → Option Nat → σ := fun state _ => state

end Lumilake

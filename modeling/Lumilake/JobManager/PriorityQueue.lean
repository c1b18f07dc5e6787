import Mathlib.Data.Finset.SDiff
import Mathlib.Data.List.Dedup
import Mathlib.Data.List.Sort
import Mathlib.Order.Lex
import Mathlib.Data.String.Basic
import Lumilake.JobManager.Base

namespace Lumilake.PriorityQueue

abbrev HardwareSignature := Option Nat × Option String × Option Nat × Option String × Option String

-- `requires_gpu` is absent from the key while capacity-aware selection is off.
structure PartitionKey where
  principal_id : String
  dispatch_token : Option String
  api_credential_digest : Option String
  optimizer_type : String
  hardware : HardwareSignature
  requires_gpu : Option Bool
  deriving DecidableEq

def hardware_signature : Option HardwareRequirements → HardwareSignature
  | none => (none,none,none,none,none)
  | some hw => (hw.cpu,hw.memory,hw.gpu,hw.gpu_memory,hw.gpu_model)

def hardware_from_signature : HardwareSignature → Option HardwareRequirements
  | (none,none,none,none,none) => none
  | (cpu,memory,gpu,gpu_memory,gpu_model) => some ⟨cpu,memory,gpu,gpu_memory,gpu_model⟩

-- What the constructor fixes. `affinity` is the clustering that fills a batch
-- around pinned ids, over the candidates, the batch size and the pinned ids.
structure Settings where
  quantums : Priority → Int
  starvation_limit : Int
  default_optimizer_type : String
  cpu_worker_group_size : Nat
  gpu_worker_group_size : Nat
  unsatisfiable_dwell_observations : Nat
  unsatisfiable_dwell_seconds : Time
  capacity_aware_selection : Bool
  worker_meets_hardware : FreeCapacity.MeetsHardware
  select_affinity_batch_ids : List WorkflowItem → Int → List String → List String

structure Reservation where
  ident : Nat
  workflows : List WorkflowItem
  config : LumilakeRequestConfig
  selected_workflow_ids : List String
  miss_increment_targets : List String
  rr_partition_to_advance : Option PartitionKey
  user_rr_priorities_to_advance : List Priority

-- The queues of one priority beside the rotation of its users.
structure UserQueues where
  queues : Dict String (List WorkflowItem)
  rr_user_order : List String

structure State (σ : Type) where
  queues : Priority → UserQueues
  rr_partition_order : List PartitionKey
  rr_partition_members : Finset PartitionKey
  items : Dict String WorkflowItem
  not_empty : Bool
  active_reservation : Option Reservation
  next_reservation : Nat
  unsatisfiable_since : Dict PartitionKey Time
  unsatisfiable_count : Dict PartitionKey Nat
  policy : σ

inductive QueueError where
  | outstanding_reservation | not_active_reservation | unknown_workflow | empty_selection
  | policy (message : String)
  deriving DecidableEq

variable {σ : Type}

def State.initial (policy : σ) : State σ where
  queues := fun _ => ⟨Dict.empty,[]⟩
  rr_partition_order := []
  rr_partition_members := ∅
  items := Dict.empty
  not_empty := false
  active_reservation := none
  next_reservation := 0
  unsatisfiable_since := Dict.empty
  unsatisfiable_count := Dict.empty
  policy := policy

def UserQueues.items (q : UserQueues) : List WorkflowItem := q.queues.values.flatten

-- Every queued item, in the order the source walks priorities, users and deques.
def State.queued (s : State σ) : List WorkflowItem := Priority.all.flatMap (fun p => (s.queues p).items)

def partition_of (cfg : Settings) (item : WorkflowItem) : PartitionKey where
  principal_id := item.config.principal_id
  dispatch_token := item.dispatch_token
  api_credential_digest := item.api_credential_digest
  optimizer_type := match item.config.optimizer_type with
    | some name => if name = "" then cfg.default_optimizer_type else name
    | none => cfg.default_optimizer_type
  hardware := hardware_signature item.config.hardware_requirements
  requires_gpu := if cfg.capacity_aware_selection then some item.requires_gpu else none

def partition_group_sizes (cfg : Settings) (partition : PartitionKey) : Nat × Nat :=
  (cfg.cpu_worker_group_size,if partition.requires_gpu.getD false then cfg.gpu_worker_group_size else 0)

def partition_dispatch_count (cfg : Settings) (partition : PartitionKey) (capacity : FreeCapacity)
    (candidates : List WorkflowItem) : Nat :=
  let task_types := candidates.flatMap (fun item => item.runtime_graph.nodes.values.map RuntimeOp.task_type)
  let cpu_group_size := if cfg.cpu_worker_group_size = 0 ∧ WorkerCapability.requires_cpu_worker task_types
    then 1 else cfg.cpu_worker_group_size
  capacity.dispatch_count cpu_group_size (partition_group_sizes cfg partition).2 cfg.worker_meets_hardware
    (hardware_from_signature partition.hardware) (WorkerCapability.required_task_types task_types)

def partition_eligible (cfg : Settings) (partition : PartitionKey) (capacity : FreeCapacity) : Bool :=
  let (cpu_group_size,gpu_group_size) := partition_group_sizes cfg partition
  if !capacity.can_satisfy cpu_group_size gpu_group_size then false
  else if capacity.profiles.entries.isEmpty then true
  else capacity.can_satisfy_hardware cpu_group_size gpu_group_size cfg.worker_meets_hardware
    (hardware_from_signature partition.hardware)

def job_item (job : Job) (now : Time) (workflow_id : String) (w : JobWorkflow) : WorkflowItem where
  workflow_id := workflow_id
  request_id := job.request_id
  graph_name := w.graph_name
  public_graph_name := w.slice.public_graph_name
  slice_index := w.slice.slice_index
  slice_start := w.slice.slice_start
  slice_length := w.slice.slice_length
  total_length := w.slice.total_length
  template_hash := w.slice.template_hash
  varying_input_keys := w.slice.varying_input_keys
  runtime_graph := w.runtime_graph
  config := job.config
  enqueued_at := now
  dispatch_token := job.dispatch_token
  api_credential_digest := job.api_credential_digest
  requires_gpu := w.requires_gpu

def UserQueues.push (q : UserQueues) (owner : String) (item : WorkflowItem) : UserQueues :=
  match q.queues.get? owner with
  | some queue => { q with queues := q.queues.set owner (queue ++ [item]) }
  | none => ⟨q.queues.set owner [item],q.rr_user_order ++ [owner]⟩

-- `add` on the member set and `append` on the deque, both only for a new partition.
def admit_partition (s : State σ) (partition : PartitionKey) : State σ :=
  if partition ∈ s.rr_partition_members then s
  else { s with
    rr_partition_members := insert partition s.rr_partition_members
    rr_partition_order := s.rr_partition_order ++ [partition] }

def push_item (priority : Priority) (s : State σ) (item : WorkflowItem) : State σ :=
  { s with
    queues := Function.update s.queues priority ((s.queues priority).push item.config.user_id item)
    items := s.items.set item.workflow_id item }

def enqueue_item (cfg : Settings) (priority : Priority) (s : State σ) (item : WorkflowItem) : State σ :=
  admit_partition (push_item priority s item) (partition_of cfg item)

-- `ids` are the fresh workflow ids the enqueue draws, one for each graph of the job.
def enqueue (cfg : Settings) (s : State σ) (now : Time) (ids : List String) (job : Job) : State σ :=
  let workflow_items := (ids.zip job.workflows).map (fun row => job_item job now row.1 row.2)
  { workflow_items.foldl (enqueue_item cfg job.config.priority) s with not_empty := true }

def finalize_workflows (s : State σ) (ids : List String) : State σ :=
  { s with items := s.items.filter (fun id _ => decide (id ∉ ids)) }

def prune_empty_user_queues (q : UserQueues) : UserQueues :=
  let queues := q.queues.filter (fun _ queue => !queue.isEmpty)
  ⟨queues,q.rr_user_order.filter (· ∈ queues.keys)⟩

-- Filter every deque of one priority, drop the emptied ones, then prune.
def UserQueues.drop (q : UserQueues) (ids : List String) : UserQueues :=
  if q.queues.entries.isEmpty then q
  else
    let filtered := q.queues.mapValues (fun _ queue => queue.filter (fun item => decide (item.workflow_id ∉ ids)))
    prune_empty_user_queues { q with queues := filtered.filter (fun _ queue => !queue.isEmpty) }

def drop_queued (s : State σ) (ids : List String) : State σ :=
  { s with queues := fun p => (s.queues p).drop ids }

def drop_stale_partitions (cfg : Settings) (s : State σ) : State σ :=
  let remaining := (s.queued.map (partition_of cfg)).toFinset
  let stale := s.rr_partition_members \ remaining
  { s with
    rr_partition_members := s.rr_partition_members \ stale
    rr_partition_order := s.rr_partition_order.filter (· ∉ stale) }

def refresh_not_empty (s : State σ) : State σ :=
  if s.queued.isEmpty then { s with not_empty := false } else s

def remove_workflows (cfg : Settings) (s : State σ) (ids : List String) : State σ :=
  if ids.isEmpty then s
  else
    let s := drop_queued s ids
    let s := { s with items := s.items.filter (fun id _ => decide (id ∉ ids)) }
    refresh_not_empty (drop_stale_partitions cfg s)

-- One observation of the dwell: partitions that left are forgotten, satisfiable
-- ones start over, the others are counted from when their run began.
def permanently_unsatisfiable (cfg : Settings) (s : State σ) (total_capacity : FreeCapacity) (now : Time) :
    State σ × List WorkflowItem :=
  let present := (s.queued.map (partition_of cfg)).dedup
  let since := s.unsatisfiable_since.filter (fun partition _ => decide (partition ∈ present))
  let count := s.unsatisfiable_count.filter (fun partition _ =>
    decide (partition ∈ present ∨ partition ∉ s.unsatisfiable_since.keys))
  let (since,count) := present.foldl (fun (since,count) partition =>
    if partition_eligible cfg partition total_capacity then (since.erase partition,count.erase partition)
    else (if partition ∈ since.keys then since else since.set partition now,
      count.set partition ((count.get? partition).getD 0 + 1))) (since,count)
  let doomed := since.filter (fun partition start =>
    decide (cfg.unsatisfiable_dwell_seconds ≤ now - start) &&
    decide (cfg.unsatisfiable_dwell_observations ≤ (count.get? partition).getD 0))
  ({ s with unsatisfiable_since := since, unsatisfiable_count := count },
    s.queued.filter (fun item => decide (partition_of cfg item ∈ doomed.keys)))

end Lumilake.PriorityQueue

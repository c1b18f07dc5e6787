import Lumilake.JobManager.QueueGuarantees

namespace Lumilake.Server
open PriorityQueue WorkerCapability

-- `isinstance(value, int)`: a bool is an int.
def as_int : Value → Option Int
  | .int i => some i
  | .bool b => some (if b then 1 else 0)
  | _ => none

-- A section of the profile is a dict or absent.
def profile_section (worker_profile : WorkerProfile) (name : String) : Spec :=
  match worker_profile.resources with
  | .dict sections =>
    match sections.lookup name with
    | some (.dict entries) => entries
    | _ => []
  | _ => []

def gpu_devices (worker_profile : WorkerProfile) : List Value :=
  match (profile_section worker_profile "gpu").lookup "devices" with
  | some (.list devices) => devices
  | _ => []

def has_gpu (worker_profile : WorkerProfile) : Bool := !(gpu_devices worker_profile).isEmpty

def memory_units : List (String × Nat) := [("Ki",1024),("Mi",1024^2),("Gi",1024^3),("Ti",1024^4)]

def parse_memory_to_bytes (value : String) : Option Int :=
  memory_units.findSome? (fun unit =>
    let head := value.toList.take (value.length - unit.1.length)
    if value.endsWith unit.1 && !head.isEmpty && head.all Char.isDigit then
      some ((head.foldl (fun n ch => 10 * n + (ch.toNat - '0'.toNat)) 0 * unit.2 : Nat) : Int)
    else none)

-- An unknown amount passes.
def enough (present : Option Value) (needed : Option Int) : Bool :=
  match needed,present.bind as_int with
  | some needed,some amount => decide (needed ≤ amount)
  | _,_ => true

def device_field (key : String) : Value → Option Value
  | .dict entries => entries.lookup key
  | _ => none

def device_name (device : Value) : Option String :=
  match device_field "name" device with
  | some (.str name) => some name
  | _ => none

def text_in (wanted name : String) : Bool := name.toList.tails.any (fun rest => wanted.toList.isPrefixOf rest)

def gpu_model_found (wanted : String) (devices : List Value) : Bool :=
  let names := devices.filterMap device_name
  names.isEmpty || names.any (fun name => text_in (lower wanted) (lower name))

def worker_meets_hardware (worker_profile : WorkerProfile) : Option HardwareRequirements → Bool
  | none => true
  | some hardware =>
    let devices := gpu_devices worker_profile
    enough ((profile_section worker_profile "cpu").lookup "logical_cores") (hardware.cpu.map Int.ofNat) &&
    enough ((profile_section worker_profile "memory").lookup "total_bytes") (hardware.memory.bind parse_memory_to_bytes) &&
    (!has_gpu worker_profile ||
      hardware.gpu.all (fun gpu => decide (gpu ≤ devices.length)) &&
      devices.all (fun device => enough (device_field "memory_total_bytes" device)
        (hardware.gpu_memory.bind parse_memory_to_bytes)) &&
      hardware.gpu_model.all (fun wanted => gpu_model_found wanted devices))

-- The partition keeps the requirements as a signature; a worker cannot tell.
theorem meets_signature (worker_profile : WorkerProfile) (hardware : Option HardwareRequirements) :
    worker_meets_hardware worker_profile (hardware_from_signature (hardware_signature hardware)) =
      worker_meets_hardware worker_profile hardware := by
  cases hardware with
  | none => rfl
  | some hardware =>
    obtain ⟨cpu,memory,gpu,gpu_memory,gpu_model⟩ := hardware
    unfold hardware_signature hardware_from_signature
    split
    · rename_i nothing
      simp only [Prod.mk.injEq] at nothing
      obtain ⟨rfl,rfl,rfl,rfl,rfl⟩ := nothing
      simp [worker_meets_hardware,enough]
    · rename_i same
      simp only [Prod.mk.injEq] at same
      obtain ⟨rfl,rfl,rfl,rfl,rfl⟩ := same
      rfl

def runtime_op_requires_gpu (op : RuntimeOp) : Bool :=
  decide (normalized_task_type op.backend ∈ ["vllm","transformers","diffusers"]) ||
    decide (normalized_task_type op.task_type ∈ ["inference","embedding","diffusion"])

def graph_requires_gpu (graph : RuntimeGraph) : Bool := graph.nodes.values.any runtime_op_requires_gpu

-- The job that a request is queued as.
def request_job (request_id : String) (query : List (String × RuntimeGraph × WorkflowSliceMeta))
    (config : LumilakeRequestConfig) (dispatch_token api_credential_digest : Option String) : Job where
  request_id := request_id
  workflows := query.map (fun row => ⟨row.1,row.2.1,row.2.2,graph_requires_gpu row.2.1⟩)
  config := config
  dispatch_token := dispatch_token
  api_credential_digest := api_credential_digest

def FromRequest (job : Job) : Prop :=
  ∃ request_id query config dispatch_token api_credential_digest,
    job = request_job request_id query config dispatch_token api_credential_digest

def batch_task_types (workflows : List WorkflowItem) : List String :=
  workflows.flatMap (fun w => w.runtime_graph.nodes.values.map RuntimeOp.task_type)

def batch_requires_gpu (workflows : List WorkflowItem) : Bool :=
  workflows.any (fun w => graph_requires_gpu w.runtime_graph)

def batch_requires_cpu (workflows : List WorkflowItem) : Bool := requires_cpu_worker (batch_task_types workflows)

def batch_required_task_types (workflows : List WorkflowItem) : List String :=
  required_task_types (batch_task_types workflows)

def has_cpu_worker_advertising (total : FreeCapacity) (task_types : List String) : Bool :=
  total.cpu_worker_ids.any (total.advertises task_types)

def claim_group_sizes (cfg : Settings) (workflows : List WorkflowItem) : Nat × Nat :=
  (if batch_requires_cpu workflows ∧ cfg.cpu_worker_group_size = 0 then 1 else cfg.cpu_worker_group_size,
    if batch_requires_gpu workflows then cfg.gpu_worker_group_size else 0)

def select_workers (cfg : Settings) (free total : FreeCapacity) (cpu_group_size gpu_group_size : Nat)
    (hardware : Option HardwareRequirements) (required : List String) : Option (List String × List String) :=
  let selected := free.eligible_workers cpu_group_size gpu_group_size cfg.worker_meets_hardware hardware required
  -- no worker of the cluster can ever run the batch: the optimizer is to say so
  if selected = none ∧ required ≠ [] ∧ has_cpu_worker_advertising total required = false then
    free.eligible_workers cpu_group_size gpu_group_size cfg.worker_meets_hardware hardware
  else selected

-- The busy set after the attempt beside the workers it claimed.
def try_claim_workers (cfg : Settings) (busy : Finset String) (batch : Reservation) (free total : FreeCapacity) :
    Finset String × Option (List String) :=
  let (cpu_group_size,gpu_group_size) := claim_group_sizes cfg batch.workflows
  match select_workers cfg free total cpu_group_size gpu_group_size batch.config.hardware_requirements
      (batch_required_task_types batch.workflows) with
  | none => (busy,none)
  | some (selected_cpu,selected_gpu) =>
    let selected_workers := selected_gpu ++ selected_cpu
    if selected_workers = [] ∨ ∃ worker ∈ selected_workers, worker ∈ busy then (busy,none)
    else (busy ∪ selected_workers.toFinset,some selected_workers)

end Lumilake.Server

import Lumilake.Library.Dict
import Lumilake.Library.Fallible
import Lumilake.Value

namespace Lumilake.RuntimeManager

inductive TaskStatus where
  | done
  | failed
  | running (name : String)
  deriving DecidableEq

def TaskStatus.terminal : TaskStatus → Bool
  | .running _ => false
  | _ => true

structure RequestInfo where
  request_id : String
  -- in the order in which the set is walked
  member_request_ids : List String
  task_owner_members : Dict String (List String)

-- What FlowMesh accepted: the task ids and the node that it says each belongs to.
structure Accepted where
  task_ids : List String
  node_names : List String
  graph_node_name : String → Option String
  flowmesh_to_raw : Dict String String

-- The two maps of `_resolve_task_node_maps` as they grow.
def resolve_task (accepted : Accepted) (maps : Dict String String × Dict String String) (task_id : String) :
    Except String (Dict String String × Dict String String) :=
  match accepted.graph_node_name task_id with
  | none => .error s!"Failed to fetch FlowMesh task description for task_id={task_id}"
  | some node_name =>
    if node_name ∉ accepted.node_names then
      .error s!"FlowMesh task description missing valid graph_node_name for task_id={task_id}: value={node_name}"
    else match maps.2.get? node_name with
    | some existing_task =>
      if existing_task ≠ task_id then
        .error s!"Duplicate FlowMesh graph_node_name in task descriptions: node={node_name} task_ids=({existing_task}, {task_id})"
      else .ok (maps.1.set task_id node_name,maps.2.set node_name task_id)
    | none => .ok (maps.1.set task_id node_name,maps.2.set node_name task_id)

def resolve_task_node_maps (accepted : Accepted) : Except String (Dict String String × Dict String String) := do
  let (task_to_node,node_to_task) ← accepted.task_ids.foldlM (resolve_task accepted) (Dict.empty,Dict.empty)
  if ∃ node_name ∈ accepted.node_names, node_name ∉ node_to_task then
    .error "Task/node map is incomplete."
  else pure (task_to_node,node_to_task)

def raw_task_node_map (accepted : Accepted) (task_node_map : Dict String String) : Except String (Dict String String) :=
  task_node_map.entries.foldlM (fun raw e =>
    match accepted.flowmesh_to_raw.get? e.2 with
    | none => .error s!"Missing raw-node mapping for FlowMesh node '{e.2}' (task_id={e.1})"
    | some node => .ok (raw.set e.1 node)) Dict.empty

-- The tasks of a member: those whose canonical node its graphs contributed to.
def member_tasks (info : RequestInfo) (raw : Dict String String) (member_id : String) : List String :=
  (raw.entries.filter (fun e => decide (member_id ∈ (info.task_owner_members.get? e.2).getD []))).map Prod.fst

def member_task_ids (info : RequestInfo) (raw : Dict String String) : List (String × List String) :=
  info.member_request_ids.map (fun member_id => (member_id,member_tasks info raw member_id))

-- `for member_id, task_ids in member_task_ids.items()`: the loop that records the tasks of
-- the members binds `task_ids` anew, and the poll loop reads what it leaves.
def polled_task_ids (accepted : Accepted) (info : RequestInfo) (raw : Dict String String) : List String :=
  (member_task_ids info raw).foldl (fun _ e => e.2) accepted.task_ids

-- What one turn of the poll loop meets.
structure PollRound where
  cancelled : Bool := false
  fetch_task_status : String → Except String TaskStatus
  retrieve : String → Except String Value

structure PollState where
  execution_task_status : Dict String TaskStatus
  downloaded_tasks : List String := []
  -- the responses archived so far, by task
  archived : List (String × Value) := []

def update_task_status (round : PollRound) (task_status : Dict String TaskStatus) : Except String (Dict String TaskStatus) :=
  task_status.entries.foldlM (fun status e =>
    if e.2.terminal then .ok status
    else do
      let fetched ← round.fetch_task_status e.1
      pure (status.set e.1 fetched)) task_status

def archive_task_response (round : PollRound) (redact_sensitive : Value → Value) (tid : String) : Except String (String × Value) := do
  let response_data ← round.retrieve tid
  pure (tid,redact_sensitive response_data)

def download (round : PollRound) (redact_sensitive : Value → Value) (task_node_map : Dict String String) (state : PollState)
    (tid : String) : Except String PollState :=
  match state.execution_task_status.get? tid with
  | none => .error s!"KeyError: {tid}"
  | some status =>
    if status = .done ∧ tid ∉ state.downloaded_tasks then
      match task_node_map.get? tid with
      | none => .error s!"Missing task->node mapping for task {tid}."
      | some _ => do
        let response ← archive_task_response round redact_sensitive tid
        pure { state with
          downloaded_tasks := state.downloaded_tasks ++ [tid]
          archived := state.archived ++ [response] }
    else .ok state

-- The loop over the rounds up to the timeout. The output tasks are all accepted tasks.
def poll (info : RequestInfo) (redact_sensitive : Value → Value) (task_node_map : Dict String String) (task_ids : List String) :
    List PollRound → PollState → Except String PollState
  | [],_ => .error "Timeout waiting for output nodes to complete"
  | round :: later,state =>
    if round.cancelled then .error s!"Request cancelled: {info.request_id}"
    else do
      let status ← update_task_status round state.execution_task_status
      let state ← task_ids.foldlM (download round redact_sensitive task_node_map) { state with execution_task_status := status }
      if state.execution_task_status.values.all TaskStatus.terminal then pure state
      else if .failed ∈ state.execution_task_status.values then .error "Task failed; aborting workflow"
      else poll info redact_sensitive task_node_map task_ids later state

-- `_process_request` from the accepted tasks to the aggregation of the outputs.
def await_tasks (redact_sensitive : Value → Value) (accepted : Accepted) (info : RequestInfo) (rounds : List PollRound) :
    Except String PollState := do
  let (task_node_map,_) ← resolve_task_node_maps accepted
  let raw ← raw_task_node_map accepted task_node_map
  let pending := accepted.task_ids.foldl (fun status tid => status.set tid (.running "PENDING")) Dict.empty
  let state ← poll info redact_sensitive task_node_map (polled_task_ids accepted info raw) rounds ⟨pending,[],[]⟩
  if .failed ∈ state.execution_task_status.values then .error "Output task failed" else pure state

end Lumilake.RuntimeManager

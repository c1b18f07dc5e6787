import Mathlib.Data.Finset.Erase
import Mathlib.Data.Finset.Insert
import Lumilake.JobManager.Base
import Lumilake.Library.Tiling

namespace Lumilake.Server

-- One list of values for every output name, and that for every public graph.
abbrev Payload := Dict String (List Value)
abbrev Buffers := Dict String Payload

-- The part of a request that results touch; `results` is what its handler was
-- given by `put_result`. `_process_batch` has filled `list_lambda_outputs` for a
-- workflow before that workflow's results are handled.
structure RequestState where
  pending_workflows : Finset String
  outputs : Dict String (Dict String Value) := Dict.empty
  chat_histories : Dict String (Dict String Value) := Dict.empty
  output_buffers : Buffers := Dict.empty
  chat_history_buffers : Buffers := Dict.empty
  error_info : Option (List Spec) := none
  completed_input_items_success : Nat := 0
  successful_workflow_ids : Finset String := ∅
  list_lambda_outputs : Dict String (List String) := Dict.empty
  ready : Bool := false
  results : List LumilakeResponse := []

abbrev Requests := Dict String RequestState

-- The arguments of one call: the batch, what it produced, and how it failed.
-- `error` is the text of the exception with its secrets redacted.
structure BatchResults where
  workflows : List WorkflowItem
  batch_outputs : Dict String Payload
  batch_histories : Dict String Payload
  error : Option String := none
  batch_id : Option String := none
  task_node_map : Dict String String := Dict.empty
  cancelled_requests : List String := []
  execution_request_id : Option String := none

def text_or_none : Option String → Value
  | none => .none
  | some text => .str text

def append_error (error_info : Option (List Spec)) (payload : Spec) : Option (List Spec) :=
  some (error_info.getD [] ++ [payload])

def RequestState.add_error (state : RequestState) (payload : Spec) : RequestState :=
  { state with error_info := append_error state.error_info payload }

def mark_successful_input_completion (state : RequestState) (workflow : WorkflowItem) : RequestState :=
  if workflow.workflow_id ∈ state.successful_workflow_ids then state
  else { state with
    successful_workflow_ids := insert workflow.workflow_id state.successful_workflow_ids
    completed_input_items_success := state.completed_input_items_success + workflow.slice_length }

-- The loop over one payload: the errors so far, the buffers of its public graph,
-- and `merged_without_errors`.
structure Merge where
  error_info : Option (List Spec)
  buffers : Payload
  merged_without_errors : Bool := true

def slice_error (workflow : WorkflowItem) (details : Spec) : Spec :=
  [("graph",.str workflow.public_graph_name),("slice_index",.int workflow.slice_index),
    ("workflow_id",.str workflow.workflow_id)] ++ details

def Merge.fail (m : Merge) (workflow : WorkflowItem) (output_name message : String) : Merge :=
  { m with
    error_info := append_error m.error_info (slice_error workflow [("output",.str output_name),("error",.str message)])
    merged_without_errors := false }

def is_set (target : List Value) (idx : Nat) : Bool := decide (target[idx]?.getD .none ≠ .none)

-- A list-Lambda output has one slot for the whole request.
def merge_list_lambda (workflow : WorkflowItem) (m : Merge) (output_name : String) (values : List Value) : Merge :=
  let got := values.length
  match values with
  | [value] =>
    let target := (m.buffers.get? output_name).getD [.none]
    let m := if is_set target 0 then m.fail workflow output_name "overlapping slice assignment" else m
    { m with buffers := m.buffers.set output_name (target.set 0 value) }
  | _ => m.fail workflow output_name s!"list-Lambda output length mismatch: expected=1 got={got}"

def merge_rows (workflow : WorkflowItem) (m : Merge) (output_name : String) (values : List Value) :
    Except String Merge :=
  let expected := workflow.slice_length
  let got := values.length
  if got ≠ expected then
    .ok (m.fail workflow output_name s!"slice payload length mismatch: expected={expected} got={got}")
  else
    let target := (m.buffers.get? output_name).getD (List.replicate workflow.total_length .none)
    let public_name := workflow.public_graph_name
    if target.length ≠ workflow.total_length then
      .error s!"Inconsistent buffer size for {public_name}:{output_name}"
    else
      let overlap := (List.range' workflow.slice_start workflow.slice_length).filter (is_set target)
      let m := if overlap = [] then m
        else m.fail workflow output_name s!"overlapping slice assignment at indices {overlap}"
      .ok { m with buffers := m.buffers.set output_name (Tiling.write target workflow.slice_start values) }

def merge_output (workflow : WorkflowItem) (list_lambda_names : List String) (m : Merge)
    (output : String × List Value) : Except String Merge :=
  if output.1 ∈ list_lambda_names then .ok (merge_list_lambda workflow m output.1 output.2)
  else merge_rows workflow m output.1 output.2

-- The slice counters are never negative, so only the upper bound can be missed.
def merge_slice_payload (list_lambda_names : List String) (error_info : Option (List Spec)) (buffers : Buffers)
    (workflow : WorkflowItem) (payload : Payload) : Except String (Option (List Spec) × Buffers × Bool) :=
  if workflow.total_length = 0 then
    .ok (append_error error_info (slice_error workflow [("error",.str "invalid total slice length")]),buffers,false)
  else if workflow.total_length < workflow.slice_start + workflow.slice_length then
    .ok (append_error error_info (slice_error workflow [("error",.str "slice range out of bounds")]),buffers,false)
  else do
    let m ← payload.entries.foldlM (merge_output workflow list_lambda_names)
      ⟨error_info,(buffers.get? workflow.public_graph_name).getD Dict.empty,true⟩
    pure (m.error_info,buffers.set workflow.public_graph_name m.buffers,m.merged_without_errors)

def list_lambda_names (state : RequestState) (workflow : WorkflowItem) : List String :=
  (state.list_lambda_outputs.get? workflow.workflow_id).getD []

def merge_outputs (state : RequestState) (workflow : WorkflowItem) (payload : Payload) :
    Except String RequestState := do
  let (error_info,buffers,merged) ← merge_slice_payload (list_lambda_names state workflow) state.error_info
    state.output_buffers workflow payload
  let state := { state with error_info := error_info, output_buffers := buffers }
  pure (if merged then mark_successful_input_completion state workflow else state)

def merge_histories (state : RequestState) (workflow : WorkflowItem) (payload : Payload) :
    Except String RequestState := do
  let (error_info,buffers,_) ← merge_slice_payload (list_lambda_names state workflow) state.error_info
    state.chat_history_buffers workflow payload
  pure { state with error_info := error_info, chat_history_buffers := buffers }

def report_batch_error (b : BatchResults) (state : RequestState) (workflow : WorkflowItem) : RequestState :=
  match b.error with
  | none => state
  | some text => state.add_error [("batch_error",.str text),
      ("execution_request_id",text_or_none b.execution_request_id),("graph",.str workflow.public_graph_name),
      ("slice_index",.int workflow.slice_index),("workflow_id",.str workflow.workflow_id)]

def report_missing_output (b : BatchResults) (state : RequestState) (workflow : WorkflowItem) : RequestState :=
  match b.error with
  | some _ => state
  | none => state.add_error [("missing_output",.str workflow.workflow_id),
      ("execution_request_id",text_or_none b.execution_request_id),("graph",.str workflow.public_graph_name),
      ("slice_index",.int workflow.slice_index)]

def take_outputs (b : BatchResults) (state : RequestState) (workflow : WorkflowItem) : Except String RequestState :=
  match b.batch_outputs.get? workflow.workflow_id with
  | some payload => merge_outputs state workflow payload
  | none => .ok (report_missing_output b state workflow)

def take_histories (b : BatchResults) (state : RequestState) (workflow : WorkflowItem) : Except String RequestState :=
  match b.batch_histories.get? workflow.workflow_id with
  | some payload => merge_histories state workflow payload
  | none => .ok state

-- One turn of the loop over the batch, on the state of the workflow's request.
def handle_workflow (b : BatchResults) (state : RequestState) (workflow : WorkflowItem) :
    Except String RequestState :=
  if workflow.request_id ∈ b.cancelled_requests then
    let state := state.add_error [("request_cancelled",.str workflow.request_id),
      ("execution_request_id",text_or_none b.execution_request_id),("graph",.str workflow.public_graph_name),
      ("slice_index",.int workflow.slice_index),("workflow_id",.str workflow.workflow_id)]
    .ok { state with pending_workflows := state.pending_workflows.erase workflow.workflow_id }
  else do
    let state ← take_outputs b (report_batch_error b state workflow) workflow
    let state ← take_histories b state workflow
    pure { state with pending_workflows := state.pending_workflows.erase workflow.workflow_id }

def missing_indices (values : List Value) : List Nat :=
  (List.range values.length).filter (fun idx => decide (values[idx]? = some .none))

def missing_errors (what : String) (buffers : Buffers) : List Spec :=
  buffers.entries.flatMap (fun graph => graph.2.entries.flatMap (fun output =>
    let missing := missing_indices output.2
    if missing = [] then []
    else [[("graph",.str graph.1),("output",.str output.1),("error",.str s!"missing {what} indices {missing}")]]))

-- A graph without an output gets no entry.
def finalize_buffers (item : Value → Value) (buffers : Buffers) : Dict String (Dict String Value) :=
  (buffers.filter (fun _ outputs => !outputs.entries.isEmpty)).mapValues (fun _ outputs =>
    outputs.mapValues (fun _ values => .list (values.map item)))

section
variable (str : Value → String)

def final_output (value : Value) : Value := .str (if value = .none then "" else str value)
def final_history (value : Value) : Value := if value = .none then .list [] else value

def finalize_state (state : RequestState) : RequestState :=
  { state with
    error_info := (missing_errors "output" state.output_buffers ++
      missing_errors "chat history" state.chat_history_buffers).foldl append_error state.error_info
    outputs := finalize_buffers (final_output str) state.output_buffers
    chat_histories := finalize_buffers final_history state.chat_history_buffers }

def put_result (state : RequestState) : RequestState :=
  { state with results := state.results ++ [⟨state.outputs,state.error_info,some state.chat_histories⟩] }

def step_workflow (b : BatchResults) (requests : Requests) (workflow : WorkflowItem) : Except String Requests :=
  match requests.get? workflow.request_id with
  | none => .ok requests
  | some state => do
    let state ← handle_workflow b state workflow
    pure (requests.set workflow.request_id state)

def report_task_nodes (b : BatchResults) (state : RequestState) : RequestState :=
  match b.error with
  | none => state
  | some _ =>
    if b.task_node_map.entries.isEmpty then state
    else state.add_error [("batch_id",text_or_none b.batch_id),
      ("execution_request_id",text_or_none b.execution_request_id),
      ("task_node_map",.dict (b.task_node_map.entries.map (fun e => (e.1,.str e.2))))]

def finish_request (state : RequestState) : RequestState :=
  if state.pending_workflows = ∅ ∧ state.ready = true then put_result (finalize_state str state) else state

def update_request (update : RequestState → RequestState) (requests : Requests) (request_id : String) : Requests :=
  match requests.get? request_id with
  | none => requests
  | some state => requests.set request_id (update state)

def handle_batch_results (requests : Requests) (b : BatchResults) : Except String Requests := do
  let affected_requests := ((b.workflows.map WorkflowItem.request_id).filter (· ∈ requests)).dedup
  let requests ← b.workflows.foldlM (step_workflow b) requests
  let requests := affected_requests.foldl (update_request (report_task_nodes b)) requests
  pure (affected_requests.foldl (update_request (finish_request str)) requests)

end
end Lumilake.Server

import Mathlib.Data.List.Pairwise
import Lumilake.Server.SliceCells
import Lumilake.Server.SliceMerge

namespace Lumilake.Server
open Tiling Fallible

def placement_error (required_cpu required_gpu : Nat) (workflow : WorkflowItem) : Spec :=
  [("placement_failed",.str workflow.workflow_id),("graph",.str workflow.public_graph_name),
    ("slice_index",.int workflow.slice_index),("error",.str (s!"no worker in the cluster can satisfy this request " ++
      s!"(required_cpu={required_cpu} required_gpu={required_gpu})"))]

def mark_unplaceable (required_cpu required_gpu : Nat) (workflow : WorkflowItem) (state : RequestState) : RequestState :=
  let state := state.add_error (placement_error required_cpu required_gpu workflow)
  { state with pending_workflows := state.pending_workflows.erase workflow.workflow_id }

-- The buffers are not finalized here.
def put_placement_failure (state : RequestState) : RequestState :=
  if state.pending_workflows = ∅ ∧ state.ready = true then put_result state else state

-- Two loops over the same workflows: the second answers once for each of them.
def fail_unplaceable_batch (required_cpu required_gpu : Nat) (requests : Requests) (workflows : List WorkflowItem) : Requests :=
  let requests := workflows.foldl (fun requests workflow =>
    update_request (mark_unplaceable required_cpu required_gpu workflow) requests workflow.request_id) requests
  workflows.foldl (fun requests workflow => update_request put_placement_failure requests workflow.request_id) requests

-- How workflows come to an end.
inductive Outcome where
  | results (b : BatchResults)
  | unplaceable (workflows : List WorkflowItem)

def settle (str : Value → String) (required_cpu required_gpu : Nat) (requests : Requests) : Outcome → Except String Requests
  | .results b => handle_batch_results str requests b
  | .unplaceable workflows => .ok (fail_unplaceable_batch required_cpu required_gpu requests workflows)

-- A request whose graphs are cut into slices; those of one public graph tile its rows.
structure CutRequest where
  request_id : String
  slices : List WorkflowItem
  total : String → Nat
  list_lambdas : String → List String
  nonempty : slices ≠ []
  mine : ∀ w ∈ slices, w.request_id = request_id
  distinct : (slices.map WorkflowItem.workflow_id).Nodup
  sized : ∀ w ∈ slices, w.total_length = total w.public_graph_name ∧ 0 < w.total_length
  tiles : ∀ w ∈ slices, Tiles (total w.public_graph_name) ((of_graph slices w.public_graph_name).map row_piece)

-- A workflow of an outcome beside the outputs that came with it.
abbrev Ended := WorkflowItem × Option Payload

def BatchResults.brought (b : BatchResults) (w : WorkflowItem) : Option Payload :=
  if w.request_id ∈ b.cancelled_requests then none else b.batch_outputs.get? w.workflow_id

def Outcome.ended : Outcome → List Ended
  | .results b => b.workflows.map (fun w => (w,b.brought w))
  | .unplaceable workflows => workflows.map (fun w => (w,none))

def workflows_of (request_id : String) (workflows : List WorkflowItem) : List WorkflowItem :=
  workflows.filter (fun w => decide (w.request_id = request_id))

-- The outcomes of one request so far.
def ended_of (request_id : String) (events : List Outcome) : List Ended :=
  (events.flatMap Outcome.ended).filter (fun e => decide (e.1.request_id = request_id))

def ended_ids (got : List Ended) : List String := got.map (fun e => e.1.workflow_id)

-- An output value of a slice that succeeded: its batch brought its outputs, each with a
-- value for every row, or one value of a list-mode Lambda.
def Succeeded (q : CutRequest) (got : List Ended) (w : WorkflowItem) (name : String) (i : Nat) (v : Value) : Prop :=
  ∃ payload values, (w,some payload) ∈ got ∧
    (∀ output values, payload.get? output = some values → values.length = extent (q.list_lambdas w.public_graph_name) w output) ∧
    payload.get? name = some values ∧ values[i]? = some v

-- The value an outcome brings for a list-mode Lambda's output of a graph.
def single_of (g name : String) (e : Ended) : Option Value :=
  if e.1.public_graph_name = g then
    match e.2.bind (Dict.get? · name) with
    | some [v] => some v
    | _ => none
  else none

def last_single (got : List Ended) (g name : String) : Option Value := (got.filterMap (single_of g name)).getLast?

theorem last_single_snoc (got : List Ended) (e : Ended) (g name : String) :
    last_single (got ++ [e]) g name = (single_of g name e).or (last_single got g name) := by
  unfold last_single
  rw [List.filterMap_append]
  cases single : single_of g name e with
  | none => simp [single]
  | some v => simp [single]

theorem single_of_none (w : WorkflowItem) (g name : String) : single_of g name (w,none) = none := by
  unfold single_of
  split <;> rfl

theorem single_of_some {w : WorkflowItem} {payload : Payload} :
    single_of g name (w,some payload) = some v ↔ w.public_graph_name = g ∧ payload.get? name = some [v] := by
  unfold single_of
  rw [Option.bind_some]
  constructor
  · intro single
    split at single
    · rename_i here
      split at single
      · rename_i found
        cases single
        exact ⟨here,found⟩
      · cases single
    · cases single
  · rintro ⟨here,found⟩
    rw [if_pos here,found]

-- Where a request stands when the workflows in `got` have had their outcomes.
structure Holds (size : String → String → Nat) (q : CutRequest) (got : List Ended) (state : RequestState) : Prop where
  pending : ∀ id, id ∈ state.pending_workflows ↔ id ∈ q.slices.map WorkflowItem.workflow_id ∧ id ∉ ended_ids got
  ready : state.ready = true
  lambdas : ∀ w ∈ q.slices, ∀ name, name ∈ list_lambda_names state w ↔ name ∈ q.list_lambdas w.public_graph_name
  sized : Sized size state.output_buffers
  narrow : ∀ w payload, (w,some payload) ∈ got → ∀ name ∈ q.list_lambdas w.public_graph_name, size w.public_graph_name name = 1
  rows : ∀ w payload, (w,some payload) ∈ got → ∀ name values, payload.get? name = some values →
    name ∉ q.list_lambdas w.public_graph_name → values.length = w.slice_length → ∀ i v, values[i]? = some v →
    cell state.output_buffers w.public_graph_name name (w.slice_start + i) = some v
  singles : ∀ g name v, name ∈ q.list_lambdas g → last_single got g name = some v → cell state.output_buffers g name 0 = some v

theorem rows_apart (q : CutRequest) (first : v ∈ q.slices) (second : w ∈ q.slices) (different : v ≠ w)
    (same : v.public_graph_name = w.public_graph_name) {j : Nat} (inside : Within v j) : ¬ Within w j := by
  intro also
  have apart := List.pairwise_map.mp (q.tiles w second).apart
  have symmetric : Std.Symm (fun u w : WorkflowItem => Apart (row_piece u) (row_piece w)) := ⟨fun _ _ h => h.symm⟩
  have clash := apart.forall (mem_of_graph.mpr ⟨first,same⟩) (mem_of_graph.mpr ⟨second,rfl⟩) different
  refine clash j ⟨?_,?_⟩ <;> simpa [Piece.Covers,Piece.stop,row_piece,Within] using ‹_›

theorem rows_bound (q : CutRequest) (member : w ∈ q.slices) : w.slice_start + w.slice_length ≤ w.total_length := by
  have fits := (q.tiles w member).fits (row_piece w) (List.mem_map_of_mem (mem_of_graph.mpr ⟨member,rfl⟩))
  simpa [Piece.stop,row_piece,(q.sized w member).1] using fits

section
variable {size : String → String → Nat} {q : CutRequest} {got : List Ended} {state next : RequestState} {w : WorkflowItem}

-- Errors and chat histories are no part of what `Holds` is about.
theorem Holds.congr (holds : Holds size q got state) (pending : next.pending_workflows = state.pending_workflows)
    (ready : next.ready = state.ready) (lambdas : next.list_lambda_outputs = state.list_lambda_outputs)
    (buffers : next.output_buffers = state.output_buffers) : Holds size q got next where
  pending := pending ▸ holds.pending
  ready := ready ▸ holds.ready
  lambdas := by simpa only [list_lambda_names,lambdas] using holds.lambdas
  sized := buffers ▸ holds.sized
  narrow := holds.narrow
  rows := buffers ▸ holds.rows
  singles := buffers ▸ holds.singles

-- The workflow's outcome is in.
theorem Holds.left (holds : Holds size q got state) {payload : Option Payload}
    (pending : next.pending_workflows = state.pending_workflows.erase w.workflow_id) (id : String) :
    id ∈ next.pending_workflows ↔
      id ∈ q.slices.map WorkflowItem.workflow_id ∧ id ∉ ended_ids (got ++ [(w,payload)]) := by
  have ids : ended_ids (got ++ [(w,payload)]) = ended_ids got ++ [w.workflow_id] := by simp [ended_ids]
  rw [pending,Finset.mem_erase,holds.pending,ids,List.mem_append,List.mem_singleton,not_or]
  exact ⟨fun h => ⟨h.2.1,h.2.2,h.1⟩,fun h => ⟨h.2.2,h.1,h.2.1⟩⟩

-- An outcome without outputs leaves the cells as they are.
theorem Holds.bare (holds : Holds size q got state) (pending : next.pending_workflows = state.pending_workflows.erase w.workflow_id)
    (ready : next.ready = state.ready) (lambdas : next.list_lambda_outputs = state.list_lambda_outputs)
    (buffers : next.output_buffers = state.output_buffers) : Holds size q (got ++ [(w,none)]) next := by
  have earlier : ∀ v payload, (v,some payload) ∈ got ++ [(w,none)] → (v,some payload) ∈ got := by
    intro v payload inside
    simpa using inside
  refine ⟨holds.left pending,ready ▸ holds.ready,?_,buffers ▸ holds.sized,?_,?_,?_⟩
  · simpa only [list_lambda_names,lambdas] using holds.lambdas
  · exact fun v payload inside => holds.narrow v payload (earlier v payload inside)
  · rw [buffers]
    exact fun v payload inside => holds.rows v payload (earlier v payload inside)
  · intro g name v listed last
    rw [last_single_snoc,single_of_none,Option.none_or] at last
    rw [buffers]
    exact holds.singles g name v listed last

end

-- Nothing but the errors and the chat histories differs.
structure Told (state next : RequestState) : Prop where
  pending : next.pending_workflows = state.pending_workflows
  ready : next.ready = state.ready
  lambdas : next.list_lambda_outputs = state.list_lambda_outputs
  buffers : next.output_buffers = state.output_buffers
  outputs : next.outputs = state.outputs
  results : next.results = state.results

section
variable {b : BatchResults} {state next : RequestState} {w : WorkflowItem}

theorem Told.rfl : Told state state := ⟨Eq.refl _,Eq.refl _,Eq.refl _,Eq.refl _,Eq.refl _,Eq.refl _⟩

theorem Told.trans {last : RequestState} (first : Told state next) (second : Told next last) : Told state last :=
  ⟨second.pending.trans first.pending,second.ready.trans first.ready,second.lambdas.trans first.lambdas,
    second.buffers.trans first.buffers,second.outputs.trans first.outputs,second.results.trans first.results⟩

theorem report_batch_error_told : Told state (report_batch_error b state w) := by
  unfold report_batch_error
  split
  · exact Told.rfl
  · exact ⟨rfl,rfl,rfl,rfl,rfl,rfl⟩

theorem report_missing_told : Told state (report_missing_output b state w) := by
  unfold report_missing_output
  split
  · exact Told.rfl
  · exact ⟨rfl,rfl,rfl,rfl,rfl,rfl⟩

theorem report_task_nodes_told : Told state (report_task_nodes b state) := by
  unfold report_task_nodes
  split
  · exact Told.rfl
  · split
    · exact Told.rfl
    · exact ⟨rfl,rfl,rfl,rfl,rfl,rfl⟩

theorem take_histories_told (taken : take_histories b state w = .ok next) : Told state next := by
  unfold take_histories at taken
  split at taken
  · obtain ⟨merged,_,same⟩ := bind_ok taken
    cases same
    exact ⟨rfl,rfl,rfl,rfl,rfl,rfl⟩
  · cases taken
    exact Told.rfl

-- What a payload that was merged leaves of the state.
structure Merged (state : RequestState) (w : WorkflowItem) (payload : Payload) (next : RequestState) : Prop where
  pending : next.pending_workflows = state.pending_workflows
  ready : next.ready = state.ready
  lambdas : next.list_lambda_outputs = state.list_lambda_outputs
  outputs : next.outputs = state.outputs
  results : next.results = state.results
  merge : ∃ errors clean, merge_slice_payload (list_lambda_names state w) state.error_info state.output_buffers w payload =
    .ok (errors,next.output_buffers,clean)

theorem merge_outputs_merged (done : merge_outputs state w payload = .ok next) : Merged state w payload next := by
  unfold merge_outputs at done
  obtain ⟨⟨errors,buffers,clean⟩,payload_merged,same⟩ := bind_ok done
  cases same
  cases clean with
  | false => exact ⟨rfl,rfl,rfl,rfl,rfl,errors,false,payload_merged⟩
  | true =>
      rw [if_pos rfl]
      unfold mark_successful_input_completion
      split <;> exact ⟨rfl,rfl,rfl,rfl,rfl,errors,true,payload_merged⟩

end

section
variable {size : String → String → Nat} {q : CutRequest} {got : List Ended} {b : BatchResults} {state next : RequestState}
  {w : WorkflowItem}

-- An outcome with outputs: their cells are written, and of the earlier ones only a list-mode
-- Lambda's is written again.
theorem Holds.merged (holds : Holds size q got state) (member : w ∈ q.slices) (fresh : w.workflow_id ∉ ended_ids got)
    (known : ∀ e ∈ got, e.1 ∈ q.slices) (fits : Fits size (list_lambda_names state w) w) {payload : Payload}
    {errors : Option (List Spec)} {clean : Bool}
    (done : merge_slice_payload (list_lambda_names state w) state.error_info state.output_buffers w payload =
      .ok (errors,next.output_buffers,clean))
    (pending : next.pending_workflows = state.pending_workflows.erase w.workflow_id)
    (ready : next.ready = state.ready) (lambdas : next.list_lambda_outputs = state.list_lambda_outputs) :
    Holds size q (got ++ [(w,some payload)]) next := by
  have agree := holds.lambdas w member
  obtain ⟨frame,landed⟩ := merge_slice_cells fits holds.sized (q.sized w member).2 (rows_bound q member) done
  obtain ⟨errors',after,clean',done',sized⟩ := merge_slice_sized fits holds.sized state.error_info payload
  obtain rfl : next.output_buffers = after := by
    cases done.symm.trans done'
    rfl
  refine ⟨holds.left pending,ready ▸ holds.ready,?_,sized,?_,?_,?_⟩
  · simpa only [list_lambda_names,lambdas] using holds.lambdas
  · intro v outputs inside name listed
    rcases List.mem_append.mp inside with earlier | last
    · exact holds.narrow v outputs earlier name listed
    · cases List.mem_singleton.mp last
      exact (fits name).trans (if_pos ((agree name).mpr listed))
  · intro v outputs inside name values found rows length i x here
    rcases List.mem_append.mp inside with earlier | last
    · refine frame _ _ _ _ (fun same output merged clash => ?_) (holds.rows v outputs earlier name values found rows length i x here)
      have other : v ≠ w := by
        rintro rfl
        exact fresh (List.mem_map.mpr ⟨_,earlier,rfl⟩)
      have below : i < values.length := (List.getElem?_eq_some_iff.mp here).1
      have within : Within v (v.slice_start + i) := ⟨by omega,by omega⟩
      rw [if_neg (fun listed => rows (same ▸ clash ▸ (agree _).mp listed))]
      exact rows_apart q (known _ earlier) member other same within
    · cases List.mem_singleton.mp last
      have written := landed (name,values) (Dict.get?_eq_some.mp found)
      rw [Landed,if_neg (fun listed => rows ((agree name).mp listed))] at written
      exact written length i x here
  · intro g name v listed last
    rw [last_single_snoc,Option.or_eq_some_iff] at last
    rcases last with own | ⟨none_own,earlier⟩
    · obtain ⟨rfl,found⟩ := single_of_some.mp own
      have written := landed (name,[v]) (Dict.get?_eq_some.mp found)
      rw [Landed,if_pos ((agree name).mpr listed)] at written
      exact written v rfl
    · refine frame _ _ _ _ (fun same output merged clash => ?_) (holds.singles g name v listed earlier)
      rw [if_pos (clash ▸ (agree name).mpr (same ▸ listed))]
      intro x single
      have found : single_of g name (w,some payload) = some x :=
        single_of_some.mpr ⟨same.symm,Dict.get?_eq_some.mpr (by rw [clash,← single]; exact merged)⟩
      rw [none_own] at found
      cases found

-- One outcome of the loop over a batch, on the state of the request it belongs to.
theorem handle_workflow_held (holds : Holds size q got state) (member : w ∈ q.slices) (fresh : w.workflow_id ∉ ended_ids got)
    (known : ∀ e ∈ got, e.1 ∈ q.slices) (fits : Fits size (list_lambda_names state w) w)
    (done : handle_workflow b state w = .ok next) :
    Holds size q (got ++ [(w,b.brought w)]) next ∧ next.outputs = state.outputs ∧ next.results = state.results := by
  unfold handle_workflow at done
  unfold BatchResults.brought
  split at done
  · rename_i cancelled
    cases done
    rw [if_pos cancelled]
    exact ⟨holds.bare rfl rfl rfl rfl,rfl,rfl⟩
  · rename_i live
    rw [if_neg live]
    obtain ⟨middle,taken,rest⟩ := bind_ok done
    obtain ⟨last,told,same⟩ := bind_ok rest
    cases same
    have reported : Told state (report_batch_error b state w) := report_batch_error_told
    have histories := take_histories_told told
    unfold take_outputs at taken
    split at taken
    · rename_i payload found
      rw [found]
      have merged := merge_outputs_merged taken
      obtain ⟨errors,clean,written⟩ := merged.merge
      have names : list_lambda_names (report_batch_error b state w) w = list_lambda_names state w := by
        simp only [list_lambda_names,reported.lambdas]
      have held := holds.congr reported.pending reported.ready reported.lambdas reported.buffers
      have kept : merge_slice_payload (list_lambda_names (report_batch_error b state w) w) (report_batch_error b state w).error_info
          (report_batch_error b state w).output_buffers w payload = .ok (errors,last.output_buffers,clean) := by
        rw [histories.buffers]
        exact written
      refine ⟨held.merged member fresh known (names ▸ fits) kept ?_ ?_ ?_,?_,?_⟩
      · simp only [histories.pending,merged.pending]
      · simp only [histories.ready,merged.ready]
      · simp only [histories.lambdas,merged.lambdas]
      · simp only [histories.outputs,merged.outputs,reported.outputs]
      · simp only [histories.results,merged.results,reported.results]
    · rename_i found
      rw [found]
      cases taken
      have all : Told state last := (reported.trans report_missing_told).trans histories
      exact ⟨holds.bare (by simp only [all.pending]) all.ready all.lambdas all.buffers,all.outputs,all.results⟩

end
end Lumilake.Server

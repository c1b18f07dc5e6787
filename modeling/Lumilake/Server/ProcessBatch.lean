import Lumilake.Server.BatchResults

namespace Lumilake.Server

-- `RequestCancelledError` or any other exception, with its text.
inductive Stop where
  | cancelled (text : String)
  | error (text : String)
  deriving DecidableEq

-- What `_run_batch_inner` tells apart: `RuntimeExecutionError` carries its cause.
inductive Raised where
  | stop (stop : Stop)
  | runtime (cause : String)
  deriving DecidableEq

def Raised.text : Raised → String
  | .stop (.cancelled text) | .stop (.error text) | .runtime text => text

def Raised.is_runtime : Raised → Bool
  | .stop _ => false
  | .runtime _ => true

-- `except RequestCancelledError: raise`, `except Exception as exc: raise RuntimeExecutionError(exc)`.
def in_backend : Stop → Raised
  | .cancelled text => .stop (.cancelled text)
  | .error text => .runtime text

def raising : Option String → Except Raised Unit
  | none => .ok ()
  | some text => .error (.stop (.error text))

def request_workflow_parent_id (workflow : WorkflowItem) : String :=
  "request::" ++ workflow.request_id ++ "::" ++ workflow.public_graph_name ++ "::" ++ workflow.template_hash

-- Tuples of texts and a number compare from the left.
def slice_before (v w : WorkflowItem) : Bool :=
  if v.request_id ≠ w.request_id then decide (v.request_id ≤ w.request_id)
  else if v.public_graph_name ≠ w.public_graph_name then decide (v.public_graph_name ≤ w.public_graph_name)
  else if v.slice_index ≠ w.slice_index then decide (v.slice_index ≤ w.slice_index)
  else decide (v.workflow_id ≤ w.workflow_id)

abbrev Groups := Dict String (List WorkflowItem)

def group_workflows_by_parent_workflow (chunk_within_python_timeouts : List WorkflowItem → List (List WorkflowItem))
    (workflows : List WorkflowItem) : Groups :=
  let by_parent : Groups := workflows.foldl (fun groups workflow =>
    let parent := request_workflow_parent_id workflow
    groups.set parent ((groups.get? parent).getD [] ++ [workflow])) Dict.empty
  by_parent.entries.foldl (fun grouped parent =>
    (chunk_within_python_timeouts (parent.2.mergeSort slice_before)).zipIdx.foldl (fun grouped chunk =>
      grouped.set (if chunk.2 = 0 then parent.1 else parent.1 ++ "::" ++ toString chunk.2) chunk.1) grouped) Dict.empty

-- What `_process_batch` calls on the way, each of which may raise. The schedule comes from
-- the plan cache or from the data profile and the optimizer, which also look for a cancellation.
structure Stages (Compiled Graph Merged Schedule Flat : Type) where
  chunk_within_python_timeouts : List WorkflowItem → List (List WorkflowItem)
  cancelled_text : String
  cancelled_at_start : Bool
  merge_group_compiled_graph : List WorkflowItem → Except String Compiled
  build : Compiled → String → Except String Graph
  optimize_graphs : List (String × Graph) → Except String Merged
  count_optimized_nodes : Merged → Except String Unit
  make_schedule : Groups → Merged → Except Stop Schedule
  cancelled_at_submit : Bool
  process_request : Merged → Schedule → Except Stop Flat
  demux : Groups → Merged → Flat → Except String (Dict String Payload × Dict String Payload)

section
variable {Compiled Graph Merged Schedule Flat : Type}

namespace Stages

def unless_cancelled (stages : Stages Compiled Graph Merged Schedule Flat) : Bool → Except Stop Unit
  | true => .error (.cancelled stages.cancelled_text)
  | false => .ok ()

def build_group (stages : Stages Compiled Graph Merged Schedule Flat) (group : String × List WorkflowItem) :
    Except Stop (String × Graph) := do
  let merged_compiled ← (stages.merge_group_compiled_graph group.2).mapError .error
  let graph ← (stages.build merged_compiled group.1).mapError .error
  pure (group.1,graph)

-- Coalescing, graph build, optimisation and scheduling.
def plan (stages : Stages Compiled Graph Merged Schedule Flat) (workflows : List WorkflowItem) :
    Except Stop (Groups × Merged × Schedule) := do
  if workflows = [] then .error (.error "No workflows in batch")
  stages.unless_cancelled stages.cancelled_at_start
  let grouped := group_workflows_by_parent_workflow stages.chunk_within_python_timeouts workflows
  let runtime_graphs ← grouped.entries.mapM stages.build_group
  let merged_graph ← (stages.optimize_graphs runtime_graphs).mapError .error
  (stages.count_optimized_nodes merged_graph).mapError .error
  let schedule ← stages.make_schedule grouped merged_graph
  stages.unless_cancelled stages.cancelled_at_submit
  pure (grouped,merged_graph,schedule)

def process_batch (stages : Stages Compiled Graph Merged Schedule Flat) (workflows : List WorkflowItem) :
    Except Raised (Dict String Payload × Dict String Payload) := do
  let (grouped,merged_graph,schedule) ← (stages.plan workflows).mapError .stop
  let flat ← (stages.process_request merged_graph schedule).mapError in_backend
  (stages.demux grouped merged_graph flat).mapError (fun text => .stop (.error text))

-- The failure that is told apart is that of the backend, executing the plan.
theorem process_batch_runtime_iff (stages : Stages Compiled Graph Merged Schedule Flat) (workflows : List WorkflowItem) :
    stages.process_batch workflows = .error (.runtime cause) ↔
      ∃ grouped merged_graph schedule, stages.plan workflows = .ok (grouped,merged_graph,schedule) ∧
        stages.process_request merged_graph schedule = .error (.error cause) := by
  unfold process_batch
  cases planned : stages.plan workflows with
  | error stop => simp [Except.mapError,bind,Except.bind]
  | ok answer =>
      obtain ⟨grouped,merged_graph,schedule⟩ := answer
      simp only [Except.mapError,bind,Except.bind,Except.ok.injEq,Prod.mk.injEq]
      cases executed : stages.process_request merged_graph schedule with
      | error stop =>
          cases stop with
          | cancelled text =>
              refine ⟨fun wrong => by simp [in_backend] at wrong,?_⟩
              rintro ⟨_,_,_,⟨rfl,rfl,rfl⟩,failed⟩
              simp [executed] at failed
          | error text =>
              constructor
              · intro same
                exact ⟨grouped,merged_graph,schedule,⟨rfl,rfl,rfl⟩,by simpa [in_backend,executed] using same⟩
              · rintro ⟨_,_,_,⟨rfl,rfl,rfl⟩,failed⟩
                simpa [in_backend,executed] using failed
      | ok flat =>
          refine ⟨fun wrong => ?_,?_⟩
          · cases demuxed : stages.demux grouped merged_graph flat <;> simp [demuxed] at wrong
          · rintro ⟨_,_,_,⟨rfl,rfl,rfl⟩,failed⟩
            simp [executed] at failed

end Stages
end
end Lumilake.Server

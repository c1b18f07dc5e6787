import Mathlib.Data.List.Sort
import Lumilake.JobManager.Base
import Lumilake.ListLambdas

namespace Lumilake.Routes
open Fallible

inductive WorkflowFormat where
  | native
  | n8n
  | yaml
  deriving DecidableEq

-- The key under which a parsed graph is kept: the YAML parser strips the name.
def WorkflowFormat.spec_name : WorkflowFormat → String → String
  | .yaml,graph_name => strip graph_name
  | .native,graph_name | .n8n,graph_name => graph_name

-- Everything a submission can be turned down for before its job exists; all are HTTP 422.
inductive Rejection where
  | no_entries
  | duplicate_workflow (name : String)
  | invalid (text : String)
  | batch_size
  | duplicate_graph (graph_name : String)
  | overlap (key : String)
  | compilation (text : String)
  | not_runnable (text : String)
  | gpu_zero_conflict
  | list_lambda (graph_name output_name : String) (slices : Nat)
  deriving DecidableEq

def Rejection.detail : Rejection → String
  | .no_entries => "data must contain at least one entry"
  | .duplicate_workflow name => "duplicate workflow name: " ++ name
  | .invalid text => text
  | .batch_size => "input_batch_size must be a positive integer"
  | .duplicate_graph graph_name => "duplicate internal graph name: " ++ graph_name
  | .overlap key => "duplicate graph names after parsing: ['" ++ key ++ "']"
  | .compilation text => "Graph compilation failed: " ++ text
  | .not_runnable text => "Workflow is not runnable: " ++ text
  | .gpu_zero_conflict =>
    "hardware.gpu=0 conflicts with workflow: this graph contains ops that require a GPU worker (vLLM / transformers / " ++
      "diffusers / text-to-image). Drop --gpu 0 or remove the GPU op."
  | .list_lambda graph_name output_name slices =>
    "Workflow '" ++ graph_name ++ "' output '" ++ output_name ++ "' is produced by a list-mode Lambda, which runs once " ++
      "over the whole input lists of one run and cannot be split across " ++ toString slices ++ " slice(s). Submit one " ++
      "input value per job, or raise input_batch_size so the whole input set runs in a single slice."

abbrev Inputs := Dict String (List String)

def max_len (inputs : Inputs) : Nat := (inputs.values.map List.length).foldl max 0

def lengths_match (inputs : Inputs) : Bool :=
  inputs.values.all fun vals => decide (vals.length = 1 ∨ vals.length = max_len inputs)

def length_error : String := "workflow inputs list lengths must match or be a single value"

def input_shape (inputs : Inputs) : Except String (Nat × List String) :=
  if lengths_match inputs then
    .ok (max_len inputs,((inputs.entries.filter fun e => decide (1 < e.2.length)).map Prod.fst).insertionSort (· ≤ ·))
  else .error length_error

def batch_from (inputs : Inputs) (start input_batch_size : Nat) : Inputs :=
  inputs.mapValues fun _ vals => if vals.length = 1 then vals else (vals.drop start).take input_batch_size

def chunk_inputs (inputs : Inputs) (input_batch_size : Nat) : Except String (List Inputs) :=
  if lengths_match inputs then
    if max_len inputs ≤ input_batch_size then .ok [inputs]
    else .ok ((List.range ((max_len inputs + input_batch_size - 1) / input_batch_size)).map fun turn =>
      batch_from inputs (turn * input_batch_size) input_batch_size)
  else .error length_error

-- What parsing, compiling and building make of a workflow, each of which may raise.
structure Compiler (Template GraphSpec Compiled : Type) where
  workflow_template_hash : Template → String
  graph_spec : Template → Inputs → String → Nat → String → Except String GraphSpec
  compile : GraphSpec → Except String Compiled
  build : Compiled → String → Except String RuntimeGraph
  requires_gpu : RuntimeOp → Bool

-- One entry, its inputs resolved and its workflow decoded; `null` is no workflow.
structure JobSubmitItem (Template : Type) where
  name : Option String
  inputs : Inputs
  input_batch_size : Option Int
  workflow_payload : Option Template

def JobSubmitItem.public_name {Template : Type} (entry : JobSubmitItem Template) (idx : Nat) : String :=
  match entry.name with
  | some name => if name = "" then "graph_" ++ toString idx else name
  | none => "graph_" ++ toString idx

-- An entry cut into its batches.
structure Cut where
  idx : Nat
  name : String
  input_batches : List Inputs
  total_length : Nat
  varying_input_keys : List String

def cut_entry {Template : Type} (entry : JobSubmitItem Template) (idx : Nat) : Except Rejection Cut :=
  match input_shape entry.inputs with
  | .error text => .error (.invalid text)
  | .ok (total_length,varying_input_keys) =>
    if (entry.input_batch_size.getD 1) ≤ 0 then .error .batch_size
    else match chunk_inputs entry.inputs (entry.input_batch_size.getD 1).toNat with
      | .error text => .error (.invalid text)
      | .ok input_batches => .ok ⟨idx,entry.public_name idx,input_batches,total_length,varying_input_keys⟩

def Cut.graph_name (cut : Cut) (batch_idx : Nat) : String :=
  if cut.input_batches.length = 1 then cut.name else cut.name ++ "__slice_" ++ toString (batch_idx + 1)

structure Slices (GraphSpec : Type) where
  seen_public_names : List String := []
  graph_specs : Dict String GraphSpec := Dict.empty
  workflow_slices : Dict String WorkflowSliceMeta := Dict.empty

structure Submission (Template : Type) where
  format : WorkflowFormat
  entries : List (JobSubmitItem Template)
  gpu_zero : Bool := false

structure Prepared (GraphSpec : Type) where
  slices : Slices GraphSpec
  runtime_graphs : Dict String RuntimeGraph

section
variable {Template GraphSpec Compiled : Type} (compiler : Compiler Template GraphSpec Compiled)

-- One turn of the loop over the batches; the number is `slice_start`.
def add_slice (format : WorkflowFormat) (cut : Cut) (template : Template) (s : Slices GraphSpec × Nat)
    (batch : Inputs × Nat) : Except Rejection (Slices GraphSpec × Nat) :=
  let graph_name := cut.graph_name batch.2
  if graph_name ∈ s.1.graph_specs.keys then .error (.duplicate_graph graph_name)
  else match compiler.graph_spec template batch.1 graph_name cut.idx cut.name with
    | .error text => .error (.invalid text)
    | .ok spec =>
      if format.spec_name graph_name ∈ s.1.graph_specs.keys then .error (.overlap (format.spec_name graph_name))
      else .ok ({ s.1 with
        graph_specs := s.1.graph_specs.set (format.spec_name graph_name) spec
        workflow_slices := s.1.workflow_slices.set graph_name
          ⟨cut.name,batch.2,s.2,max_len batch.1,cut.total_length,compiler.workflow_template_hash template,
            cut.varying_input_keys⟩ },s.2 + max_len batch.1)

def add_entry (format : WorkflowFormat) (s : Slices GraphSpec) (entry : JobSubmitItem Template × Nat) :
    Except Rejection (Slices GraphSpec) :=
  if entry.1.public_name entry.2 ∈ s.seen_public_names then .error (.duplicate_workflow (entry.1.public_name entry.2))
  else do
    let cut ← cut_entry entry.1 entry.2
    let seen : Slices GraphSpec := { s with seen_public_names := s.seen_public_names ++ [cut.name] }
    match entry.1.workflow_payload with
    | none => .ok seen
    | some template => (cut.input_batches.zipIdx.foldlM (add_slice compiler format cut template) (seen,0)).map Prod.fst

def collect {α β : Type} (make : String → α → Except Rejection β) (d : Dict String α) : Except Rejection (Dict String β) :=
  d.entries.foldlM (fun made e => do let b ← make e.1 e.2; pure (made.set e.1 b)) Dict.empty

def prepare (submission : Submission Template) : Except Rejection (Prepared GraphSpec) := do
  if submission.entries = [] then .error .no_entries
  let slices ← submission.entries.zipIdx.foldlM (add_entry compiler submission.format) {}
  let graphs ← collect (fun _ spec => (compiler.compile spec).mapError .compilation) slices.graph_specs
  let runtime_graphs ← collect (fun name compiled => (compiler.build compiled name).mapError .not_runnable) graphs
  if submission.gpu_zero && runtime_graphs.values.any fun graph => graph.nodes.values.any compiler.requires_gpu then
    .error .gpu_zero_conflict
  pure ⟨slices,runtime_graphs⟩

end

-- The slices each graph is asked about: those whose public name is the graph's own name.
def slices_by_name (runtime_graphs : Dict String RuntimeGraph) (workflow_slices : Dict String WorkflowSliceMeta) :
    Dict String (List WorkflowSliceMeta) :=
  runtime_graphs.mapValues fun name _ => workflow_slices.values.filter fun slice => decide (slice.public_graph_name = name)

def span_error (workflow_slices : Dict String (List WorkflowSliceMeta)) (entry : String × RuntimeGraph) : Option Rejection :=
  let list_lambda_dependent := entry.2.list_lambda_cardinality_nodes
  let slices := (workflow_slices.get? entry.1).getD []
  if list_lambda_dependent = [] then none
  else if slices.length ≤ 1 then none
  else (entry.2.output_node_map.entries.find? fun o => decide (o.1 ∈ list_lambda_dependent)).map fun o =>
    .list_lambda entry.1 o.2 slices.length

def validate_list_lambda_slice_span (runtime_graphs : Dict String RuntimeGraph)
    (workflow_slices : Dict String (List WorkflowSliceMeta)) : Except Rejection Unit :=
  match runtime_graphs.entries.findSome? (span_error workflow_slices) with
  | some rejection => .error rejection
  | none => .ok ()

def submit {Template GraphSpec Compiled : Type} (compiler : Compiler Template GraphSpec Compiled)
    (submission : Submission Template) : Except Rejection (Prepared GraphSpec) := do
  let prepared ← prepare compiler submission
  validate_list_lambda_slice_span prepared.runtime_graphs
    (slices_by_name prepared.runtime_graphs prepared.slices.workflow_slices)
  pure prepared

end Lumilake.Routes

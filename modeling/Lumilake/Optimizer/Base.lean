import Mathlib.Data.List.Sort
import Lumilake.NodeRefs
import Lumilake.RuntimeGraph

namespace Lumilake.Optimizer

-- json.dumps(value, sort_keys=True): two values have one text when they differ only in
-- the order of keys and in list against tuple. The value in that form stands for the text.
mutual
def stable_json : Value → Value
  | .list items => .list (stable_items items)
  | .tuple items => .list (stable_items items)
  | .dict entries => .dict ((stable_entries entries).insertionSort fun a b => a.1 ≤ b.1)
  | value => value
def stable_items : List Value → List Value
  | [] => []
  | item :: items => stable_json item :: stable_items items
def stable_entries : Spec → Spec
  | [] => []
  | (key,item) :: entries => (key,stable_json item) :: stable_entries entries
end

mutual
def collect : Value → List String
  | .list items => collect_items items
  | .tuple items => collect_items items
  | .dict entries => collect_entries entries
  | _ => []
def collect_items : List Value → List String
  | [] => []
  | item :: items => collect item ++ collect_items items
def collect_entries : Spec → List String
  | [] => []
  | (key,.str s) :: entries => (if key = "label" then [s] else []) ++ collect_entries entries
  | (_,item) :: entries => collect item ++ collect_entries entries
end

-- The rest of a text after the characters of a replaced occurrence are skipped.
def replace_from (old new : List Char) : Nat → List Char → List Char
  | _,[] => []
  | skip + 1,_ :: cs => replace_from old new skip cs
  | 0,c :: cs =>
      if old.isPrefixOf (c :: cs) then new ++ replace_from old new (old.length - 1) cs
      else c :: replace_from old new 0 cs

-- str.replace: from the left, without overlap; an empty pattern matches between all characters.
def str_replace (text old new : String) : String :=
  if old = "" then String.ofList (new.toList ++ text.toList.flatMap fun c => c :: new.toList)
  else String.ofList (replace_from old.toList new.toList 0 text.toList)

theorem replace_one (old : Char) (new text : List Char) :
    replace_from [old] new 0 text = text.flatMap fun c => if c = old then new else [c] := by
  induction text with
  | nil => rfl
  | cons c cs ih =>
      rw [replace_from,List.flatMap_cons]
      by_cases same : c = old
      · rw [if_pos (by simp [same]),if_pos same]
        exact congrArg (new ++ ·) ih
      · rw [if_neg (by simp [Ne.symm same]),if_neg same,ih]
        rfl

def sorted_labels (value : Value) : List String :=
  (collect value).dedup.insertionSort fun a b => a ≤ b

def label_map (labels : List String) : List (String × String) :=
  labels.zipIdx.map fun (label,idx) => (label,"__lbl" ++ toString idx ++ "__")

def replacement_pairs (labels : List String) : List (String × String) :=
  (label_map labels).insertionSort fun a b => b.1.length ≤ a.1.length

def replace_text (labels : List String) (text : String) : String :=
  (replacement_pairs labels).foldl (fun normalized pair => str_replace normalized pair.1 pair.2) text

mutual
def replace (labels : List String) : Value → Value
  | .str s => .str (replace_text labels s)
  | .list items => .list (replace_items labels items)
  | .tuple items => .tuple (replace_items labels items)
  | .dict entries => .dict (replace_entries labels entries)
  | value => value
def replace_items (labels : List String) : List Value → List Value
  | [] => []
  | item :: items => replace labels item :: replace_items labels items
def replace_entries (labels : List String) : Spec → Spec
  | [] => []
  | (key,.str s) :: entries =>
      (key,if key = "label" then .str (((label_map labels).lookup s).getD s) else .str (replace_text labels s)) ::
        replace_entries labels entries
  | (key,item) :: entries => (key,replace labels item) :: replace_entries labels entries
end

def normalize_label_tokens (value : Value) : Value :=
  let labels := sorted_labels value
  if labels = [] then value else replace labels value

def remap_node_spec (spec : Spec) (mapping : Dict String String) : Spec := remap_entries mapping mapping spec

def normalize_spec_for_signature (spec : Spec) (mapping : Dict String String) : Value :=
  normalize_label_tokens (.dict (remap_node_spec spec mapping))

structure Signature where
  task_type : String
  backend : String
  model : String
  data_spec : Value
  model_spec : Value
  inference_spec : Value
  api_spec : Value
  output_spec : Option Value
  dependencies : List String
  condition : Option Value
  deriving DecidableEq

def runtime_signature (op : RuntimeOp) (mapping : Dict String String) : Signature where
  task_type := op.task_type
  backend := op.backend
  model := op.model
  data_spec := stable_json (normalize_spec_for_signature op.data_spec mapping)
  model_spec := stable_json (normalize_spec_for_signature op.model_spec mapping)
  inference_spec := stable_json (normalize_spec_for_signature op.inference_spec mapping)
  api_spec := stable_json (normalize_spec_for_signature op.api_spec mapping)
  output_spec := op.output_spec.map fun spec => stable_json (normalize_spec_for_signature spec mapping)
  dependencies := op.dependencies.map (mapped mapping)
  condition := op.condition.map fun spec => stable_json (.dict spec)

def dedupe_ordered (items : List String) : List String :=
  items.foldl (fun ordered item => if item ∈ ordered then ordered else ordered ++ [item]) []

structure Dedupe where
  canonical_by_signature : Dict Signature String
  mapping : Dict String String

-- One turn of the loop over the topological order, which holds nodes only.
def dedupe_turn (graph : RuntimeGraph) (s : Dedupe) (node_id : String) : Dedupe :=
  if node_id ∈ graph.output_node_map then ⟨s.canonical_by_signature,s.mapping.set node_id node_id⟩
  else
    match graph.nodes.get? node_id with
    | none => s
    | some op =>
        match s.canonical_by_signature.get? (runtime_signature op s.mapping) with
        | none =>
            ⟨s.canonical_by_signature.set (runtime_signature op s.mapping) node_id,s.mapping.set node_id node_id⟩
        | some canonical => ⟨s.canonical_by_signature,s.mapping.set node_id canonical⟩

def dedupe_start : Dedupe := ⟨Dict.empty,Dict.empty⟩

def remap_op (canonical : String) (op : RuntimeOp) (mapping : Dict String String) : RuntimeOp where
  node_id := canonical
  task_type := op.task_type
  backend := op.backend
  model := op.model
  data_spec := remap_node_spec op.data_spec mapping
  model_spec := remap_node_spec op.model_spec mapping
  inference_spec := remap_node_spec op.inference_spec mapping
  api_spec := remap_node_spec op.api_spec mapping
  dependencies := dedupe_ordered (op.dependencies.map (mapped mapping))
  output_spec := op.output_spec.map fun spec => remap_node_spec spec mapping
  condition := op.condition.map fun spec => remap_node_spec spec mapping

def rebuild_node (graph : RuntimeGraph) (mapping : Dict String String) (built : Dict String RuntimeOp × List String)
    (node_id : String) : Except String (Dict String RuntimeOp × List String) :=
  match mapping.get? node_id with
  | none => .error ("KeyError: " ++ node_id)
  | some canonical =>
      if canonical ∈ built.1 then .ok built
      else
        match graph.nodes.get? canonical with
        | none => .error ("KeyError: " ++ canonical)
        | some op => .ok (built.1.set canonical (remap_op canonical op mapping),built.2 ++ [canonical])

def rekey (mapping : Dict String String) (rekeyed : Dict String String) (entry : String × String) :
    Except String (Dict String String) :=
  match mapping.get? entry.1 with
  | none => .error ("KeyError: " ++ entry.1)
  | some canonical => .ok (rekeyed.set canonical entry.2)

def rebuild (graph : RuntimeGraph) (mapping : Dict String String) : Except String RuntimeGraph := do
  let built ← graph.node_order.foldlM (rebuild_node graph mapping) (Dict.empty,[])
  let output_node_map ← graph.output_node_map.entries.foldlM (rekey mapping) Dict.empty
  let output_paths ← graph.output_paths.entries.foldlM (rekey mapping) Dict.empty
  pure ⟨built.1,built.2,output_node_map,output_paths,
    graph.dsl_to_runtime.mapValues fun _ runtime_ids => dedupe_ordered (runtime_ids.map (mapped mapping))⟩

def dedupe_runtime_graph (graph : RuntimeGraph) : Except String (RuntimeGraph × Dict String String) := do
  let order ← graph.topological_order
  let mapping := (order.foldl (dedupe_turn graph) dedupe_start).mapping
  if mapping.entries.all (fun e => e.1 == e.2) then pure (graph,mapping)
  else
    let deduped ← rebuild graph mapping
    pure (deduped,mapping)

end Lumilake.Optimizer

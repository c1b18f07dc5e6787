import Lumilake.Ops.Base
import Lumilake.RuntimeGraph

namespace Lumilake.Graphs
open Ops

-- A loaded graph: the operations under the keys they were loaded from, the mapping from id to
-- operation in topological order (`_graph`), and the input and output operations by name.
structure Graph where
  ops : Dict String Op
  order : Dict String String
  input_ops : List (Value × String)
  output_ops : List (Value × String)

-- What a value is as a dict key: numbers that compare equal are one key.
def dict_key : Value → Option Value
  | .bool b => some (.int (if b then 1 else 0))
  | .float q => some (if q.den = 1 then .int q.num else .float q)
  | .list _ => none
  | .dict _ => none
  | other => some other

abbrev JsonGraph := Dict String JsonOp

section
variable (python : Python)

def add_name (kind : String) (names : List (Value × String)) (name : Value) (key : String) :
    Except String (List (Value × String)) :=
  match dict_key name with
  | none => .error ("TypeError: unhashable type: '" ++ type_name name ++ "'")
  | some hashed =>
    if hashed ∈ names.filterMap (fun known => dict_key known.1) then
      .error ("Duplicate " ++ kind ++ " name: " ++ python.str name)
    else .ok (names ++ [(name,key)])

def add_interface (names : List (Value × String) × List (Value × String)) (entry : String × Op) :
    Except String (List (Value × String) × List (Value × String)) :=
  match entry.2.body with
  | .input_op name => do
    let input_ops ← add_name python "input" names.1 name entry.1
    pure (input_ops,names.2)
  | .output_op name _ => do
    let output_ops ← add_name python "output" names.2 name entry.1
    pure (names.1,output_ops)
  | _ => pure names

-- `dependencies[dep].add(op)` for every input of every operation, and of nothing else.
def dependencies (ops : Dict String Op) : Adjacency String :=
  ops.entries.foldl
    (fun edges entry => entry.2.inputs.foldl (fun edges dep => RuntimeGraph.add_edge edges dep entry.1) edges)
    Dict.empty

def id_of (ops : Dict String Op) (key : String) : String := ((ops.get? key).map Op.id).getD ""

-- `{op.id: op for op in sorted_ops}`
def by_id (ops : Dict String Op) (sorted_ops : List String) : Dict String String :=
  sorted_ops.foldl (fun graph key => graph.set (id_of ops key) key) Dict.empty

namespace Graph

-- The readers of an operation are a set, which is sorted in whatever order it lists them.
def init (order : SetOrder String) (ops : Dict String Op) : Except String Graph := do
  let names ← ops.entries.foldlM (add_interface python) ([],[])
  let sorted_ops ← topological_sort (order.arrange (dependencies ops)) none
  pure ⟨ops,by_id ops sorted_ops,names.1,names.2⟩

def load_op (ops : Dict String Op) (entry : String × JsonOp) : Except String (Dict String Op) := do
  let op ← op_from_json python ops.keys entry.2
  pure (ops.set entry.1 op)

def from_json (order : SetOrder String) (json_graph : JsonGraph) : Except String Graph := do
  let ops ← json_graph.entries.foldlM (load_op python) Dict.empty
  init python order ops

-- The operation that has an id, its references given as ids.
def serialize_op (graph : Graph) (key : String) : Option JsonOp :=
  (graph.ops.get? key).map (Op.serialize (id_of graph.ops))

def serialize (graph : Graph) : JsonGraph :=
  graph.order.entries.foldl (fun json entry =>
    match graph.serialize_op entry.2 with
    | some data => json.set entry.1 data
    | none => json) Dict.empty

end Graph
end

end Lumilake.Graphs

import Lumilake.RuntimeGraph

namespace Lumilake

-- `python_step.TASK_TYPE`.
def TASK_TYPE : String := "python"

namespace RuntimeOp

-- A list-mode Lambda; any other python step has one value per row again.
def list_lambda (op : RuntimeOp) : Bool :=
  decide (op.task_type = TASK_TYPE) && decide (Value.get? op.data_spec "mode" = some (.str "list"))

def row_step (op : RuntimeOp) : Bool :=
  decide (op.task_type = TASK_TYPE) && !decide (Value.get? op.data_spec "mode" = some (.str "list"))

end RuntimeOp

namespace RuntimeGraph

-- One turn of the walk; the order lists nodes of the graph only.
def list_lambda_turn (graph : RuntimeGraph) (list_lambda_dependent : List String) (node_id : String) : List String :=
  match graph.nodes.get? node_id with
  | none => list_lambda_dependent
  | some node =>
    if node.list_lambda then list_lambda_dependent ++ [node_id]
    else if node.row_step then list_lambda_dependent
    else if node.dependencies.any (fun dep => decide (dep ∈ list_lambda_dependent)) then list_lambda_dependent ++ [node_id]
    else list_lambda_dependent

def list_lambda_cardinality_nodes (graph : RuntimeGraph) : List String :=
  graph.node_order.foldl graph.list_lambda_turn []

-- A node depends on a list-mode Lambda: it is one, or it reads a node that does and is no row step.
inductive DependsOnListLambda (graph : RuntimeGraph) : String → Prop
  | lambda {id : String} {op : RuntimeOp} : graph.nodes.get? id = some op → op.list_lambda = true →
      DependsOnListLambda graph id
  | reads {id dep : String} {op : RuntimeOp} : graph.nodes.get? id = some op → op.row_step = false →
      dep ∈ op.dependencies → DependsOnListLambda graph dep → DependsOnListLambda graph id

variable {graph : RuntimeGraph}

theorem DependsOnListLambda.known {id : String} (depends : graph.DependsOnListLambda id) : id ∈ graph.nodes.keys := by
  cases depends with
  | lambda found _ => exact Dict.mem_keys_iff.mpr ⟨_,found⟩
  | reads found _ _ _ => exact Dict.mem_keys_iff.mpr ⟨_,found⟩

theorem list_lambda_turn_sound {dependent : List String} {node_id x : String}
    (sound : ∀ id ∈ dependent, graph.DependsOnListLambda id) (member : x ∈ graph.list_lambda_turn dependent node_id) :
    graph.DependsOnListLambda x := by
  unfold list_lambda_turn at member
  cases found : graph.nodes.get? node_id with
  | none =>
      rw [found] at member
      exact sound x member
  | some node =>
      simp only [found] at member
      by_cases list : node.list_lambda = true
      · rw [if_pos list] at member
        rcases List.mem_append.mp member with old | new
        · exact sound x old
        · rw [List.mem_singleton.mp new]
          exact .lambda found list
      · rw [if_neg list] at member
        by_cases row : node.row_step = true
        · rw [if_pos row] at member
          exact sound x member
        · rw [if_neg row] at member
          split at member
          · rename_i some_dep
            obtain ⟨dep,reads,inside⟩ := List.any_eq_true.mp some_dep
            rcases List.mem_append.mp member with old | new
            · exact sound x old
            · rw [List.mem_singleton.mp new]
              exact .reads found (by simpa using row) reads (sound dep (of_decide_eq_true inside))
          · exact sound x member

-- The walk adds dependent nodes only, whatever the order.
theorem list_lambda_walk_sound (order : List String) {dependent : List String}
    (sound : ∀ id ∈ dependent, graph.DependsOnListLambda id) :
    ∀ id ∈ order.foldl graph.list_lambda_turn dependent, graph.DependsOnListLambda id := by
  induction order generalizing dependent with
  | nil => exact sound
  | cons node_id rest ih => exact ih fun x member => list_lambda_turn_sound sound member

theorem list_lambda_cardinality_sound {id : String} (member : id ∈ graph.list_lambda_cardinality_nodes) :
    graph.DependsOnListLambda id :=
  list_lambda_walk_sound graph.node_order (fun _ none_yet => by cases none_yet) id member

theorem list_lambda_turn_keeps {dependent : List String} {node_id x : String} (member : x ∈ dependent) :
    x ∈ graph.list_lambda_turn dependent node_id := by
  unfold list_lambda_turn
  repeat' split
  all_goals simp [member]

theorem list_lambda_walk_keeps (order : List String) {dependent : List String} {x : String} (member : x ∈ dependent) :
    x ∈ order.foldl graph.list_lambda_turn dependent := by
  induction order generalizing dependent with
  | nil => exact member
  | cons node_id rest ih => exact ih (list_lambda_turn_keeps member)

-- Where every node comes after the nodes it reads, the walk finds all that depend on a list-mode Lambda.
theorem list_lambda_cardinality_iff {order : List String} (sorted : graph.topological_order = .ok order)
    (walked : graph.node_order = order) (id : String) :
    id ∈ graph.list_lambda_cardinality_nodes ↔ graph.DependsOnListLambda id := by
  obtain ⟨_,members,earlier⟩ := topological_order_spec sorted
  refine ⟨list_lambda_cardinality_sound,fun depends => ?_⟩
  -- A node is found at its own turn, when what it reads has been found.
  have at_turn : ∀ before x after, order = before ++ x :: after → graph.DependsOnListLambda x →
      x ∈ (before ++ [x]).foldl graph.list_lambda_turn [] := by
    intro before x after split depends
    induction depends generalizing before after with
    | @lambda x op found list =>
        rw [List.foldl_append,List.foldl_cons,List.foldl_nil,list_lambda_turn,found]
        simp [list]
    | @reads x dep op found row reads inner ih =>
        obtain ⟨front,back,place⟩ := List.append_of_mem (earlier before x after split op found dep reads inner.known)
        have here := ih front (back ++ x :: after) (by rw [split,place]; simp)
        have kept : dep ∈ before.foldl graph.list_lambda_turn [] := by
          rw [place,show front ++ dep :: back = (front ++ [dep]) ++ back by simp,List.foldl_append]
          exact list_lambda_walk_keeps back here
        rw [List.foldl_append,List.foldl_cons,List.foldl_nil,list_lambda_turn,found]
        have some_dep : op.dependencies.any (fun dep => decide (dep ∈ before.foldl graph.list_lambda_turn [])) = true :=
          List.any_eq_true.mpr ⟨dep,reads,decide_eq_true kept⟩
        by_cases list : op.list_lambda = true <;> simp [list,row,some_dep]
  obtain ⟨before,after,split⟩ := List.append_of_mem ((members id).mpr depends.known)
  have found := at_turn before id after split depends
  rw [list_lambda_cardinality_nodes,walked,split,show before ++ id :: after = (before ++ [id]) ++ after by simp,List.foldl_append]
  exact list_lambda_walk_keeps after found

-- A list-mode Lambda, and a prompt over its value.
def lambda_then_prompt : RuntimeGraph where
  nodes := (Dict.empty.set "total" ⟨"total","python","python","",[("mode",.str "list")],[],[],[],[],none,none⟩).set "answer"
    ⟨"answer","text","vllm","m",[],[],[],[],["total"],none,none⟩
  node_order := ["total","answer"]
  output_node_map := Dict.empty

theorem list_lambda_cardinality_iff_prompt :
    "answer" ∈ lambda_then_prompt.list_lambda_cardinality_nodes ↔ lambda_then_prompt.DependsOnListLambda "answer" :=
  @list_lambda_cardinality_iff lambda_then_prompt ["total","answer"] rfl rfl "answer"

end RuntimeGraph

end Lumilake

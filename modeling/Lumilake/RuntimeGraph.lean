import Lumilake.NodeRefs
import Lumilake.Library.Fallible
import Lumilake.Utils.Graph

namespace Lumilake

-- One compiled task. The node id is also the key it has in its graph.
structure RuntimeOp where
  node_id : String
  task_type : String
  backend : String
  model : String
  data_spec : Spec
  model_spec : Spec
  inference_spec : Spec
  api_spec : Spec := []
  dependencies : List String := []
  output_spec : Option Spec := none
  condition : Option Spec := none
  deriving DecidableEq

structure RuntimeGraph where
  nodes : Dict String RuntimeOp
  node_order : List String
  output_node_map : Dict String String
  output_paths : Dict String String := Dict.empty
  dsl_to_runtime : Dict String (List String) := Dict.empty

namespace RuntimeGraph

def node_count (graph : RuntimeGraph) : Nat := graph.nodes.entries.length

def add_edge (edges : Adjacency String) (dep node_id : String) : Adjacency String :=
  let known := neighbors edges dep
  edges.set dep (if node_id ∈ known then known else known ++ [node_id])

-- A dependency may be the id of an operation that never became a runtime node; it
-- takes part in the sort and is filtered from the result.
def dependency_edges (graph : RuntimeGraph) : Adjacency String :=
  graph.nodes.entries.foldl
    (fun edges entry => entry.2.dependencies.foldl (fun edges dep => add_edge edges dep entry.1) edges)
    (graph.nodes.mapValues fun _ _ => [])

-- A repeated id has its last place.
def order_index (node_order : List String) : Dict String Nat :=
  node_order.zipIdx.foldl (fun d e => d.set e.1 e.2) Dict.empty

theorem get?_order_index {node_order : List String} {node_id : String} (distinct : node_order.Nodup) (member : node_id ∈ node_order) :
    (order_index node_order).get? node_id = some (node_order.idxOf node_id) := by
  have there : (node_id,node_order.idxOf node_id) ∈ node_order.zipIdx :=
    List.mk_mem_zipIdx_iff_getElem?.mpr (List.getElem?_idxOf member)
  apply Dict.get?_foldl_set Prod.fst Prod.snd Dict.empty _ there
  rw [List.zipIdx_map_fst]
  exact distinct

def secondary_key (graph : RuntimeGraph) (node_id : String) : Nat :=
  let order_index := order_index graph.node_order
  (order_index.get? node_id).getD order_index.entries.length

def topological_order (graph : RuntimeGraph) : Except String (List String) := do
  let sorted ← topological_sort graph.dependency_edges (some graph.secondary_key)
  pure (sorted.filter (· ∈ graph.nodes))

def empty : RuntimeGraph := ⟨Dict.empty,[],Dict.empty,Dict.empty,Dict.empty⟩

-- Placeholders are renamed only where they name a dependency.
def rewritable (mapping : Dict String String) (op : RuntimeOp) : Dict String String :=
  op.dependencies.foldl
    (fun found dep => match mapping.get? dep with
      | some renamed => found.set dep renamed
      | none => found) Dict.empty

def prefix_op (mapping : Dict String String) (new_id : String) (op : RuntimeOp) : RuntimeOp where
  node_id := new_id
  task_type := op.task_type
  backend := op.backend
  model := op.model
  data_spec := remap_entries mapping (rewritable mapping op) op.data_spec
  model_spec := remap_entries mapping (rewritable mapping op) op.model_spec
  inference_spec := remap_entries mapping (rewritable mapping op) op.inference_spec
  api_spec := remap_entries mapping (rewritable mapping op) op.api_spec
  dependencies := op.dependencies.map (mapped mapping)
  output_spec := op.output_spec.map (remap_entries mapping (rewritable mapping op))
  condition := op.condition.map (remap_entries mapping (rewritable mapping op))

def prefix_mapping (graph : RuntimeGraph) ( node_prefix separator : String) : Dict String String :=
  graph.nodes.mapValues fun node_id _ => node_prefix ++ separator ++ node_id

def prefix_node (mapping : Dict String String) (nodes : Dict String RuntimeOp) (entry : String × RuntimeOp) :
    Dict String RuntimeOp := nodes.set (mapped mapping entry.1) (prefix_op mapping (mapped mapping entry.1) entry.2)

-- The ids in the order and in the output maps are nodes of the graph.
def with_node_prefix (graph : RuntimeGraph) ( node_prefix : String) (separator : String := "__") : RuntimeGraph :=
  if node_prefix = "" then graph
  else
    let mapping := graph.prefix_mapping node_prefix separator
    ⟨graph.nodes.entries.foldl (prefix_node mapping) Dict.empty,graph.node_order.map (mapped mapping),
      graph.output_node_map.entries.foldl (fun d e => d.set (mapped mapping e.1) e.2) Dict.empty,
      graph.output_paths.entries.foldl (fun d e => d.set (mapped mapping e.1) e.2) Dict.empty,
      graph.dsl_to_runtime.mapValues fun _ ids => ids.map (mapped mapping)⟩

end RuntimeGraph

-- merge_runtime_graphs, one named loop body each.
def merge_node (graph : RuntimeGraph) (merged : RuntimeGraph) (node_id : String) : Except String RuntimeGraph :=
  if node_id ∈ merged.nodes then .error ("Duplicate runtime node id across graphs: " ++ node_id)
  else match graph.nodes.get? node_id with
    | none => .error ("KeyError: " ++ node_id)
    | some op => .ok { merged with nodes := merged.nodes.set node_id op, node_order := merged.node_order ++ [node_id] }

def merge_runtime_ids (merged : Dict String (List String)) (entry : String × List String) : Dict String (List String) :=
  match merged.get? entry.1 with
  | none => merged.set entry.1 entry.2
  | some existing => merged.set entry.1
      (entry.2.foldl (fun ids id => if id ∈ ids then ids else ids ++ [id]) existing)

def merge_outputs (graph merged : RuntimeGraph) : RuntimeGraph :=
  { merged with
    dsl_to_runtime := graph.dsl_to_runtime.entries.foldl merge_runtime_ids merged.dsl_to_runtime,
    output_node_map := graph.output_node_map.entries.foldl (fun d e => d.set e.1 e.2) merged.output_node_map,
    output_paths := graph.output_paths.entries.foldl (fun d e => d.set e.1 e.2) merged.output_paths }

def merge_graph (merged : RuntimeGraph × Dict String (String × String)) (entry : String × RuntimeGraph) :
    Except String (RuntimeGraph × Dict String (String × String)) := do
  let nodes ← entry.2.node_order.foldlM (merge_node entry.2) merged.1
  pure (merge_outputs entry.2 nodes,
    entry.2.output_node_map.entries.foldl (fun d e => d.set e.1 (entry.1,e.2)) merged.2)

def merge_runtime_graphs (graphs : Dict String RuntimeGraph) :
    Except String (RuntimeGraph × Dict String (String × String)) :=
  graphs.entries.foldlM merge_graph (RuntimeGraph.empty,Dict.empty)

namespace RuntimeGraph
variable {graph : RuntimeGraph}

theorem neighbors_add_edge (edges : Adjacency String) (dep node_id u : String) (x : String) :
    x ∈ neighbors (add_edge edges dep node_id) u ↔ x ∈ neighbors edges u ∨ (u = dep ∧ x = node_id) := by
  unfold add_edge
  simp only [neighbors_set]
  by_cases same : u = dep
  · subst same
    rw [if_pos rfl]
    split
    · rename_i present
      constructor
      · exact .inl
      · intro h
        rcases h with old | ⟨_,rfl⟩
        · exact old
        · exact present
    · simp
  · simp [same]

theorem keys_add_edge {edges : Adjacency String} (present : u ∈ edges.keys) :
    u ∈ (add_edge edges dep node_id).keys := Dict.mem_keys_set.mpr (.inl present)

theorem edges_of_dependencies (deps : List String) (edges : Adjacency String) (node_id u x : String) :
    (x ∈ neighbors (deps.foldl (fun edges dep => add_edge edges dep node_id) edges) u ↔
      x ∈ neighbors edges u ∨ (u ∈ deps ∧ x = node_id)) ∧
    (u ∈ edges.keys → u ∈ (deps.foldl (fun edges dep => add_edge edges dep node_id) edges).keys) := by
  induction deps generalizing edges with
  | nil => simp
  | cons dep rest ih =>
      obtain ⟨edge,key⟩ := ih (add_edge edges dep node_id)
      rw [List.foldl_cons]
      refine ⟨?_,fun present => key (keys_add_edge present)⟩
      rw [edge,neighbors_add_edge,List.mem_cons]
      tauto

theorem edges_of_entries {α : Type} (deps : α → List String) (entries : List (String × α)) (edges : Adjacency String) (u x : String) :
    (x ∈ neighbors (entries.foldl (fun edges entry =>
        (deps entry.2).foldl (fun edges dep => add_edge edges dep entry.1) edges) edges) u ↔
      x ∈ neighbors edges u ∨ ∃ op, (x,op) ∈ entries ∧ u ∈ deps op) ∧
    (u ∈ edges.keys → u ∈ (entries.foldl (fun edges entry =>
        (deps entry.2).foldl (fun edges dep => add_edge edges dep entry.1) edges) edges).keys) := by
  induction entries generalizing edges with
  | nil => simp
  | cons entry rest ih =>
      obtain ⟨edge,key⟩ := ih ((deps entry.2).foldl (fun edges dep => add_edge edges dep entry.1) edges)
      obtain ⟨own,kept⟩ := edges_of_dependencies (deps entry.2) edges entry.1 u x
      rw [List.foldl_cons]
      refine ⟨?_,fun present => key (kept present)⟩
      rw [edge,own]
      constructor
      · intro h
        rcases h with (old | ⟨member,rfl⟩) | ⟨op,later,member⟩
        · exact .inl old
        · exact .inr ⟨entry.2,List.mem_cons_self,member⟩
        · exact .inr ⟨op,List.mem_cons_of_mem _ later,member⟩
      · intro h
        rcases h with old | ⟨op,present,member⟩
        · exact .inl (.inl old)
        · rcases List.mem_cons.mp present with rfl | later
          · exact .inl (.inr ⟨member,rfl⟩)
          · exact .inr ⟨op,later,member⟩

theorem mem_dependency_edges {op : RuntimeOp} (node : graph.nodes.get? x = some op) (member : u ∈ op.dependencies) :
    x ∈ neighbors graph.dependency_edges u :=
  (edges_of_entries RuntimeOp.dependencies _ _ _ _).1.mpr (.inr ⟨op,Dict.get?_eq_some.mp node,member⟩)

theorem node_in_edges (node : x ∈ graph.nodes.keys) : x ∈ graph.dependency_edges.keys :=
  (edges_of_entries RuntimeOp.dependencies _ _ _ x).2 (by simpa using node)

-- The order holds every node once, after those of its dependencies that are nodes.
theorem topological_order_spec {order : List String} (ordered : graph.topological_order = .ok order) :
    order.Nodup ∧ (∀ x, x ∈ order ↔ x ∈ graph.nodes.keys) ∧
    ∀ before x after, order = before ++ x :: after → ∀ op, graph.nodes.get? x = some op →
      ∀ dep ∈ op.dependencies, dep ∈ graph.nodes.keys → dep ∈ before := by
  unfold topological_order at ordered
  cases found : topological_sort graph.dependency_edges (some graph.secondary_key) with
  | error message => rw [found] at ordered; cases ordered
  | ok sorted =>
      rw [found] at ordered
      cases ordered
      obtain ⟨perm,earlier⟩ := topological_sort_spec found
      have distinct : sorted.Nodup := perm.nodup_iff.mpr (count_in_degree graph.dependency_edges).keys_nodup
      refine ⟨distinct.filter _,?_,?_⟩
      · intro x
        rw [List.mem_filter]
        constructor
        · intro h; simpa [Dict.mem_def] using h.2
        · intro node
          refine ⟨perm.mem_iff.mpr (mem_count_in_degree.mpr (.inl (node_in_edges node))),?_⟩
          simpa [Dict.mem_def] using node
      · intro before x after split op node dep member present
        obtain ⟨front,back,rfl,rfl,tail⟩ := List.filter_eq_append_iff.mp split
        obtain ⟨skipped,rest,rfl,dropped,_,_⟩ := List.filter_eq_cons_iff.mp tail
        have split : front ++ (skipped ++ x :: rest) = (front ++ skipped) ++ x :: rest := by simp
        rcases List.mem_append.mp (earlier _ _ _ split dep (mem_dependency_edges node member)) with early | late
        · exact List.mem_filter.mpr ⟨early,by simpa [Dict.mem_def] using present⟩
        · exact absurd (by simpa [Dict.mem_def] using present) (dropped dep late)

end RuntimeGraph

theorem merge_node_aligned {graph merged after : RuntimeGraph} (aligned : merged.nodes.keys = merged.node_order)
    (done : merge_node graph merged node_id = .ok after) : after.nodes.keys = after.node_order := by
  unfold merge_node at done
  split at done
  · cases done
  · rename_i fresh
    split at done
    · cases done
    · cases done
      exact (Dict.keys_set_of_not_mem fresh).trans (by rw [aligned])

-- Every node of the merged graph is a node of one of the graphs.
theorem merge_runtime_graphs_node {graphs : Dict String RuntimeGraph} {merged : RuntimeGraph}
    {outputs : Dict String (String × String)} (done : merge_runtime_graphs graphs = .ok (merged,outputs))
    {id : String} {op : RuntimeOp} (found : merged.nodes.get? id = some op) :
    ∃ name graph, graphs.get? name = some graph ∧ graph.nodes.get? id = some op := by
  have nodes : ∀ (graph : RuntimeGraph) (ids : List String) (before after : RuntimeGraph),
      ids.foldlM (merge_node graph) before = .ok after → ∀ id op, after.nodes.get? id = some op →
        before.nodes.get? id = some op ∨ graph.nodes.get? id = some op := by
    intro graph ids before after loop
    refine Fallible.foldlM_keeps (fun state => ∀ id op, state.nodes.get? id = some op →
      before.nodes.get? id = some op ∨ graph.nodes.get? id = some op) ?_ (fun id op here => .inl here) loop
    intro state node_id next kept turn id op here
    unfold merge_node at turn
    split at turn
    · cases turn
    · split at turn
      · cases turn
      · rename_i node_op is_node
        cases turn
        by_cases same : id = node_id
        · subst same
          rw [Dict.get?_set_self] at here
          cases here
          exact .inr is_node
        · rw [Dict.get?_set_ne _ _ same] at here
          exact kept id op here
  have whole : ∀ (entries : List (String × RuntimeGraph)) (before after : RuntimeGraph × Dict String (String × String)),
      entries.foldlM merge_graph before = .ok after → ∀ id op, after.1.nodes.get? id = some op →
        before.1.nodes.get? id = some op ∨ ∃ e ∈ entries, e.2.nodes.get? id = some op := by
    intro entries
    induction entries with
    | nil => intro before after loop id op here; cases loop; exact .inl here
    | cons e rest ih =>
        intro before after loop id op here
        rw [List.foldlM_cons] at loop
        obtain ⟨next,first,later⟩ := Fallible.bind_ok loop
        obtain ⟨merged_nodes,inner,last⟩ := Fallible.bind_ok first
        cases last
        rcases ih _ _ later id op here with early | ⟨e',member,node⟩
        · rcases nodes e.2 _ _ _ inner id op early with old | new
          · exact .inl old
          · exact .inr ⟨e,List.mem_cons_self,new⟩
        · exact .inr ⟨e',List.mem_cons_of_mem _ member,node⟩
  rcases whole _ _ _ done id op found with none_yet | ⟨e,member,node⟩
  · cases none_yet
  · exact ⟨e.1,e.2,Dict.get?_eq_some.mpr member,node⟩

end Lumilake

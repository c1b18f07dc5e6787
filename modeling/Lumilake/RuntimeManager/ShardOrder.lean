import Lumilake.Library.Fallible
import Lumilake.Utils.HeapOrder
import Lumilake.Value

namespace Lumilake.RuntimeManager

-- An exported FlowMesh node. A missing dependsOn is the empty one.
structure FlowmeshNode where
  name : String
  dependsOn : List String := []
  spec : Spec
  deriving DecidableEq

abbrev NodeMap := Dict String FlowmeshNode

structure ShardEdges where
  in_degree : Dict String Int
  children : Adjacency String

def add_child (node_map : NodeMap) (node_id : String) (edges : ShardEdges) (dep : String) : Except String ShardEdges :=
  if dep ∉ node_map then .ok edges
  else if dep = node_id then
    .error ("Invalid shard rewrite dependency graph: self dependency on '" ++ node_id ++ "'")
  else .ok ⟨edges.in_degree.set node_id (degree edges.in_degree node_id + 1),
    edges.children.set dep (neighbors edges.children dep ++ [node_id])⟩

def shard_rewrite_edges (node_map : NodeMap) : Except String ShardEdges :=
  node_map.entries.foldlM (fun edges entry => entry.2.dependsOn.foldlM (add_child node_map entry.1) edges)
    ⟨node_map.mapValues fun _ _ => 0,node_map.mapValues fun _ _ => []⟩

-- The heap of (order_index, node) pairs, held as its sorted list.
def heappush (node_order : List String) (heap : List String) (node_id : String) : List String :=
  heap.orderedInsert (fun a b => node_order.idxOf a ≤ node_order.idxOf b) node_id

def release_child (node_order : List String) (s : Frontier String) (child : String) : Frontier String :=
  let remaining := degree s.in_degree child - 1
  ⟨s.in_degree.set child remaining,if remaining = 0 then heappush node_order s.ready_nodes child else s.ready_nodes⟩

def drain (children : Adjacency String) (node_order : List String) : Nat → List String → Frontier String → List String
  | 0,ordered_nodes,_ => ordered_nodes
  | fuel + 1,ordered_nodes,s =>
      match s.ready_nodes with
      | [] => ordered_nodes
      | node_id :: heap => drain children node_order fuel (ordered_nodes ++ [node_id])
          ((neighbors children node_id).foldl (release_child node_order) ⟨s.in_degree,heap⟩)

-- Each turn of the loop emits one node, so one turn for each node is enough.
def build_shard_rewrite_topological_order (node_map : NodeMap) : Except String (List String) := do
  let edges ← shard_rewrite_edges node_map
  let heap := (node_map.keys.filter fun node_id => degree edges.in_degree node_id = 0).foldl (heappush node_map.keys) []
  let ordered_nodes := drain edges.children node_map.keys node_map.keys.length [] ⟨edges.in_degree,heap⟩
  if ordered_nodes.length ≠ node_map.keys.length then
    .error "Invalid shard rewrite dependency graph: cycle detected in flowmesh nodes"
  else pure ordered_nodes

theorem heap_perm (node_order : List String) (heap : List String) (node_id : String) :
    (heappush node_order heap node_id).Perm (heap ++ [node_id]) :=
  (List.perm_orderedInsert _ _ _).trans (List.perm_append_comm : ([node_id] ++ heap).Perm _)

theorem heap_all_perm (node_order ids heap : List String) :
    (ids.foldl (heappush node_order) heap).Perm (heap ++ ids) := by
  induction ids generalizing heap with
  | nil => simp
  | cons id rest ih =>
      rw [List.foldl_cons]
      refine (ih _).trans (((heap_perm node_order heap id).append_right rest).trans ?_)
      rw [List.append_assoc]
      exact .refl _

theorem drained {children : Adjacency String} (node_order : List String) (fuel : Nat) {ordered : List String}
    {s : Frontier String} (settled : Settled children ordered s) :
    ∃ left, Settled children (drain children node_order fuel ordered s) left := by
  induction fuel generalizing ordered s with
  | zero => exact ⟨s,settled⟩
  | succ fuel ih =>
      unfold drain
      split
      · exact ⟨s,settled⟩
      · rename_i node_id heap ready
        exact ih (settled_pop (heap_perm node_order) settled ready)

-- One more edge into `node_id` under a key that is there.
theorem count_edge {children : Adjacency String} (present : dep ∈ children.keys) (node_id x : String) :
    ((children.set dep (neighbors children dep ++ [node_id])).keys.flatMap
        (neighbors (children.set dep (neighbors children dep ++ [node_id])))).count x =
      (children.keys.flatMap (neighbors children)).count x + if x = node_id then 1 else 0 := by
  rw [Dict.keys_set_of_mem present]
  obtain ⟨before,after,split⟩ := List.append_of_mem present
  have distinct := children.keys_nodup
  rw [split] at distinct ⊢
  have others : ∀ ids : List String, dep ∉ ids →
      ids.flatMap (neighbors (children.set dep (neighbors children dep ++ [node_id]))) =
        ids.flatMap (neighbors children) := by
    intro ids away
    unfold List.flatMap
    refine congrArg List.flatten (List.map_congr_left ?_)
    intro u member
    have other : u ≠ dep := fun same => away (same ▸ member)
    rw [neighbors_set,if_neg other]
  have apart := List.nodup_append.mp distinct
  have early : dep ∉ before := fun member => apart.2.2 dep member dep List.mem_cons_self rfl
  have late : dep ∉ after := (List.nodup_cons.mp apart.2.1).1
  rw [List.flatMap_append,List.flatMap_append,List.flatMap_cons,List.flatMap_cons,others _ early,others _ late,
    neighbors_set,if_pos rfl]
  simp only [List.count_append,List.count_singleton]
  by_cases same : x = node_id
  · subst same; simp; omega
  · simp [same,Ne.symm same]

-- What the edge loop has built when it has read some of the dependencies.
structure EdgesOf (node_map : NodeMap) (edges : ShardEdges) : Prop where
  keys : edges.children.keys = node_map.keys
  counted : ∀ x, degree edges.in_degree x = ((edges.children.keys.flatMap (neighbors edges.children)).count x : Int)
  known : ∀ u x, x ∈ neighbors edges.children u → x ∈ node_map.keys

theorem add_child_edges {node_map : NodeMap} {edges after : ShardEdges} (built : EdgesOf node_map edges)
    (node : node_id ∈ node_map.keys) (done : add_child node_map node_id edges dep = .ok after) :
    EdgesOf node_map after ∧ (∀ u x, x ∈ neighbors edges.children u → x ∈ neighbors after.children u) ∧
      (dep ∈ node_map.keys → node_id ∈ neighbors after.children dep) := by
  unfold add_child at done
  split at done
  · rename_i away
    cases done
    exact ⟨built,fun _ _ old => old,fun present => absurd present away⟩
  · rename_i inside
    split at done
    · cases done
    · cases done
      have present : dep ∈ edges.children.keys := by rw [built.keys]; simpa [Dict.mem_def] using inside
      have grown : ∀ u x, x ∈ neighbors (edges.children.set dep (neighbors edges.children dep ++ [node_id])) u ↔
          x ∈ neighbors edges.children u ∨ (u = dep ∧ x = node_id) := by
        intro u x
        rw [neighbors_set]
        by_cases same : u = dep
        · subst same; simp
        · simp [same]
      refine ⟨⟨?_,?_,?_⟩,fun u x old => (grown u x).mpr (.inl old),fun _ => (grown _ _).mpr (.inr ⟨rfl,rfl⟩)⟩
      · rw [Dict.keys_set_of_mem present]; exact built.keys
      · intro x
        have count := count_edge present node_id x
        rw [degree_set,count,built.counted]
        by_cases same : x = node_id
        · subst same
          simp
        · simp [same,built.counted]
      · intro u x member
        rcases (grown u x).mp member with old | ⟨_,rfl⟩
        · exact built.known u x old
        · exact node

theorem add_children_edges {node_map : NodeMap} {deps : List String} {edges after : ShardEdges}
    (built : EdgesOf node_map edges) (node : node_id ∈ node_map.keys)
    (done : deps.foldlM (add_child node_map node_id) edges = .ok after) :
    EdgesOf node_map after ∧ (∀ u x, x ∈ neighbors edges.children u → x ∈ neighbors after.children u) ∧
      ∀ dep ∈ deps, dep ∈ node_map.keys → node_id ∈ neighbors after.children dep := by
  induction deps generalizing edges with
  | nil => cases done; exact ⟨built,fun _ _ old => old,fun _ member => by cases member⟩
  | cons dep rest ih =>
      rw [List.foldlM_cons] at done
      obtain ⟨next,first,later⟩ := Fallible.bind_ok done
      obtain ⟨step,grown,here⟩ := add_child_edges built node first
      obtain ⟨whole,kept,others⟩ := ih step later
      refine ⟨whole,fun u x old => kept u x (grown u x old),?_⟩
      intro d member present
      rcases List.mem_cons.mp member with rfl | tail
      · exact kept _ _ (here present)
      · exact others d tail present

theorem edges_of_nodes {node_map : NodeMap} {entries : List (String × FlowmeshNode)} {edges after : ShardEdges}
    (built : EdgesOf node_map edges) (nodes : ∀ e ∈ entries, e.1 ∈ node_map.keys)
    (done : entries.foldlM (fun edges entry => entry.2.dependsOn.foldlM (add_child node_map entry.1) edges) edges =
      .ok after) :
    EdgesOf node_map after ∧ (∀ u x, x ∈ neighbors edges.children u → x ∈ neighbors after.children u) ∧
      ∀ e ∈ entries, ∀ dep ∈ e.2.dependsOn, dep ∈ node_map.keys → e.1 ∈ neighbors after.children dep := by
  induction entries generalizing edges with
  | nil => cases done; exact ⟨built,fun _ _ old => old,fun _ member => by cases member⟩
  | cons entry rest ih =>
      rw [List.foldlM_cons] at done
      obtain ⟨next,first,later⟩ := Fallible.bind_ok done
      obtain ⟨step,grown,here⟩ := add_children_edges built (nodes entry List.mem_cons_self) first
      obtain ⟨whole,kept,others⟩ := ih step (fun e member => nodes e (List.mem_cons_of_mem _ member)) later
      refine ⟨whole,fun u x old => kept u x (grown u x old),?_⟩
      intro e member dep needed present
      rcases List.mem_cons.mp member with rfl | tail
      · exact kept _ _ (here dep needed present)
      · exact others e tail dep needed present

theorem no_children (node_map : NodeMap) (u : String) :
    neighbors (node_map.mapValues fun _ _ => ([] : List String)) u = [] := by
  unfold neighbors
  cases found : (node_map.mapValues fun _ _ => ([] : List String)).get? u with
  | none => rfl
  | some ns =>
      obtain ⟨e,_,same⟩ := List.mem_map.mp (Dict.get?_eq_some.mp found)
      cases same; rfl

theorem edges_start (node_map : NodeMap) :
    EdgesOf node_map ⟨node_map.mapValues fun _ _ => 0,node_map.mapValues fun _ _ => []⟩ := by
  refine ⟨Dict.keys_mapValues _ _,?_,?_⟩
  · intro x
    have zero : degree (node_map.mapValues fun _ _ => (0 : Int)) x = 0 := by
      unfold degree
      cases found : (node_map.mapValues fun _ _ => (0 : Int)).get? x with
      | none => rfl
      | some v =>
          obtain ⟨e,_,same⟩ := List.mem_map.mp (Dict.get?_eq_some.mp found)
          cases same; rfl
    have empty : (node_map.mapValues fun _ _ => ([] : List String)).keys.flatMap
        (neighbors (node_map.mapValues fun _ _ => ([] : List String))) = [] :=
      List.flatMap_eq_nil_iff.mpr fun u _ => no_children node_map u
    rw [zero,empty]
    rfl
  · intro u x member
    rw [no_children] at member
    cases member

theorem known_nodes {node_map : NodeMap} {edges : ShardEdges} (spec : EdgesOf node_map edges) (x : String) :
    x ∈ (count_in_degree edges.children).keys ↔ x ∈ node_map.keys := by
  rw [mem_count_in_degree,spec.keys]
  constructor
  · intro h
    rcases h with node | edge
    · exact node
    · obtain ⟨u,_,member⟩ := List.mem_flatMap.mp edge
      exact spec.known u x member
  · exact .inl

-- The nodes without a counted dependency are what the loop may start from.
theorem roots_heaped {node_map : NodeMap} {edges : ShardEdges} (spec : EdgesOf node_map edges) :
    Heaped edges.children [] ⟨edges.in_degree,node_map.keys.filter fun node_id => degree edges.in_degree node_id = 0⟩ := by
  have zero : ∀ x ∈ node_map.keys.filter (fun node_id => degree edges.in_degree node_id = 0),
      x ∈ node_map.keys ∧ degree edges.in_degree x = 0 := by
    intro x member
    obtain ⟨node,empty⟩ := List.mem_filter.mp member
    exact ⟨node,by simpa using empty⟩
  refine ⟨⟨node_map.keys_nodup.filter _,fun x member => (known_nodes spec x).mpr (zero x member).1,
      fun x member => (zero x member).2.le,fun x => by rw [spec.counted]; simp,?_,?_⟩,?_⟩
  · intro x member
    have empty := (zero x member).2
    rw [spec.counted] at empty
    exact predecessors_released List.nodup_nil (by simp only [List.flatMap_nil,List.count_nil]; omega)
  · intro before x after split
    simp at split
  · intro x known spent
    have counted := spec.counted x
    dsimp only at spent
    exact List.mem_filter.mpr ⟨(known_nodes spec x).mp known,by simp only [decide_eq_true_eq]; omega⟩

-- Every node once, each after those of its dependencies that are nodes.
theorem shard_order_spec {node_map : NodeMap} {ordered : List String}
    (done : build_shard_rewrite_topological_order node_map = .ok ordered) :
    ordered.Perm node_map.keys ∧ ∀ before x after, ordered = before ++ x :: after →
      ∀ node, node_map.get? x = some node → ∀ dep ∈ node.dependsOn, dep ∈ node_map.keys → dep ∈ before := by
  obtain ⟨edges,built,rest⟩ := Fallible.bind_ok done
  obtain ⟨spec,_,needed⟩ := edges_of_nodes (edges_start node_map)
    (fun e member => List.mem_map_of_mem member) built
  dsimp only at rest
  split at rest
  · cases rest
  · rename_i complete
    cases rest
    have perm : ((node_map.keys.filter fun node_id => degree edges.in_degree node_id = 0).foldl
        (heappush node_map.keys) []).Perm (node_map.keys.filter fun node_id => degree edges.in_degree node_id = 0) := by
      simpa using heap_all_perm node_map.keys (node_map.keys.filter fun node_id => degree edges.in_degree node_id = 0) []
    have heaped : Settled edges.children [] ⟨edges.in_degree,
        (node_map.keys.filter fun node_id => degree edges.in_degree node_id = 0).foldl (heappush node_map.keys) []⟩ :=
      settled_perm (roots_heaped spec).settled rfl perm
    obtain ⟨left,settled⟩ := drained node_map.keys node_map.keys.length heaped
    refine ⟨?_,?_⟩
    · have distinct := (List.nodup_append.mp settled.distinct).1
      have inside : (drain edges.children node_map.keys node_map.keys.length [] ⟨edges.in_degree,
          (node_map.keys.filter fun node_id => degree edges.in_degree node_id = 0).foldl
            (heappush node_map.keys) []⟩).Subperm node_map.keys :=
        distinct.subperm fun x member => (known_nodes spec x).mp (settled.known x (List.mem_append_left _ member))
      exact inside.perm_of_length_le (not_not.mp complete).ge
    · intro before x after split node found dep member present
      exact settled.sorted before x after split dep (needed (x,node) (Dict.get?_eq_some.mp found) dep member present)

end Lumilake.RuntimeManager

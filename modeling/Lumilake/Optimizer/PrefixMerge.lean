import Mathlib.Data.List.Pairwise
import Lumilake.Optimizer.Base

namespace Lumilake

-- [A-Za-z0-9_-]
def safe_char (c : Char) : Bool := c.isAlphanum || c == '_' || c == '-'

-- Every longest run of other characters becomes one underscore.
def sub_other : Bool → List Char → List Char
  | _,[] => []
  | run,c :: cs =>
      if safe_char c then c :: sub_other false cs
      else if run then sub_other true cs
      else '_' :: sub_other true cs

def strip_underscores (cs : List Char) : List Char :=
  ((cs.dropWhile (· == '_')).reverse.dropWhile (· == '_')).reverse

def sanitize_node_prefix (name : String) : String :=
  let safe := strip_underscores (sub_other false name.toList)
  if safe = [] then "graph" else String.ofList safe

def hex (digits : List (Fin 16)) : String := String.ofList (digits.map fun d : Fin 16 => Nat.digitChar d.val)

-- `digest` gives the first eight hexadecimal digits of a name's SHA-256.
def make_node_prefix (digest : String → List (Fin 16)) (name : String) : String :=
  sanitize_node_prefix name ++ "_" ++ hex (digest name)

theorem sub_other_safe (run : Bool) (cs : List Char) : ∀ c ∈ sub_other run cs, safe_char c = true := by
  induction cs generalizing run with
  | nil => intro c member; cases member
  | cons d cs ih =>
      intro c member
      unfold sub_other at member
      split at member
      · rename_i safe
        rcases List.mem_cons.mp member with rfl | later
        · exact safe
        · exact ih _ c later
      · split at member
        · exact ih _ c member
        · rcases List.mem_cons.mp member with rfl | later
          · decide
          · exact ih _ c later

theorem strip_subset (cs : List Char) : ∀ c ∈ strip_underscores cs, c ∈ cs := by
  intro c member
  unfold strip_underscores at member
  have inner := (List.dropWhile_sublist _).subset (List.mem_reverse.mp member)
  exact (List.dropWhile_sublist _).subset (List.mem_reverse.mp inner)

theorem hex_safe : ∀ d : Fin 16, safe_char (Nat.digitChar d.val) = true := by decide

theorem make_node_prefix_safe (digest : String → List (Fin 16)) (name : String) :
    ∀ c ∈ ( make_node_prefix digest name).toList, safe_char c = true := by
  intro c member
  simp only [ make_node_prefix,String.toList_append,List.mem_append] at member
  rcases member with (front | mid) | back
  · unfold sanitize_node_prefix at front
    dsimp only at front
    split at front
    · have graph : "graph".toList.all safe_char = true := by decide
      exact List.all_eq_true.mp graph c front
    · rw [String.toList_ofList] at front
      exact sub_other_safe _ _ c (strip_subset _ c front)
  · have underscore : "_".toList.all safe_char = true := by decide
    exact List.all_eq_true.mp underscore c mid
  · rw [hex,String.toList_ofList] at back
    obtain ⟨d,_,rfl⟩ := List.mem_map.mp back
    exact hex_safe d

-- The id of a node of the graph `name` in the merged graph.
def placed (digest : String → List (Fin 16)) (name id : String) : String := make_node_prefix digest name ++ "__" ++ id

theorem placed_injective {digest : String → List (Fin 16)} {name a b : String}
    (same : placed digest name a = placed digest name b) : a = b := by
  have lists := congrArg String.toList same
  simp only [placed,String.toList_append] at lists
  exact String.toList_inj.mp (List.append_cancel_left lists)

theorem make_node_prefix_filled (digest : String → List (Fin 16)) (name : String) : make_node_prefix digest name ≠ "" := by
  intro empty
  have lists := congrArg String.toList empty
  simp [ make_node_prefix] at lists

-- What merging needs of a graph: each node once in the order, the outputs are nodes, and
-- only outputs have a path.
structure Aligned (graph : RuntimeGraph) : Prop where
  distinct : graph.node_order.Nodup
  members : ∀ id, id ∈ graph.node_order ↔ id ∈ graph.nodes.keys
  outputs : ∀ id ∈ graph.output_node_map.keys, id ∈ graph.nodes.keys
  paths : ∀ id ∈ graph.output_paths.keys, id ∈ graph.output_node_map.keys

instance (graph : RuntimeGraph) : Decidable (Aligned graph) :=
  decidable_of_iff (graph.node_order.Nodup ∧ (∀ id ∈ graph.node_order, id ∈ graph.nodes.keys) ∧
      (∀ id ∈ graph.nodes.keys, id ∈ graph.node_order) ∧ (∀ id ∈ graph.output_node_map.keys, id ∈ graph.nodes.keys) ∧
      ∀ id ∈ graph.output_paths.keys, id ∈ graph.output_node_map.keys)
    ⟨fun h => ⟨h.1,fun id => ⟨h.2.1 id,h.2.2.1 id⟩,h.2.2.2.1,h.2.2.2.2⟩,
      fun h => ⟨h.distinct,fun id => (h.members id).mp,fun id => (h.members id).mpr,h.outputs,h.paths⟩⟩

-- Every node stands behind the nodes it depends on.
def Topological (graph : RuntimeGraph) : Prop :=
  ∀ before id after, graph.node_order = before ++ id :: after → ∀ op, graph.nodes.get? id = some op →
    ∀ dep ∈ op.dependencies, dep ∈ graph.nodes.keys → dep ∈ before

theorem topological_iff {graph : RuntimeGraph} : Topological graph ↔ ∀ i ∈ List.range graph.node_order.length,
    ∀ id ∈ graph.node_order[i]?, ∀ op ∈ graph.nodes.get? id, ∀ dep ∈ op.dependencies, dep ∈ graph.nodes.keys →
      dep ∈ graph.node_order.take i := by
  constructor
  · intro topological i _ id place op node dep member present
    obtain ⟨short,rfl⟩ := List.getElem?_eq_some_iff.mp place
    have split : graph.node_order = graph.node_order.take i ++ graph.node_order[i] :: graph.node_order.drop (i + 1) := by
      rw [List.getElem_cons_drop,List.take_append_drop]
    exact topological _ _ _ split op node dep member present
  · intro checked before id after split op node dep member present
    have place : graph.node_order[before.length]? = some id := by rw [split]; simp
    have front : graph.node_order.take before.length = before := by rw [split]; simp
    have short : before.length < graph.node_order.length := by rw [split]; simp
    rw [← front]
    exact checked _ (List.mem_range.mpr short) id place op node dep member present

instance (graph : RuntimeGraph) : Decidable (Topological graph) := decidable_of_iff _ topological_iff.symm

def placing (digest : String → List (Fin 16)) (name : String) (graph : RuntimeGraph) : Dict String String :=
  RuntimeGraph.prefix_mapping graph ( make_node_prefix digest name) "__"

def prefixed_graphs (digest : String → List (Fin 16)) (requests : Dict String RuntimeGraph) : Dict String RuntimeGraph :=
  requests.mapValues fun name graph => RuntimeGraph.with_node_prefix graph ( make_node_prefix digest name)

section
variable {digest : String → List (Fin 16)} {name : String} {graph : RuntimeGraph}

theorem placing_node {id : String} (member : id ∈ graph.nodes.keys) : (placing digest name graph).get? id = some (placed digest name id) := by
  obtain ⟨op,found⟩ := Dict.mem_keys_iff.mp member
  exact Dict.get?_mapValues found

theorem placing_other {id : String} (absent : id ∉ graph.nodes.keys) : (placing digest name graph).get? id = none :=
  Dict.get?_eq_none.mpr (by simpa [placing,RuntimeGraph.prefix_mapping] using absent)

theorem placing_mapped {id : String} (member : id ∈ graph.nodes.keys) : mapped (placing digest name graph) id = placed digest name id := by
  rw [mapped,placing_node member]
  rfl

variable (digest name graph) in
-- The graph with its ids renamed.
structure Placed (after : RuntimeGraph) : Prop where
  order : after.node_order = graph.node_order.map (placed digest name)
  keys : ∀ x, x ∈ after.nodes.keys ↔ ∃ id ∈ graph.nodes.keys, placed digest name id = x
  nodes : ∀ id op, graph.nodes.get? id = some op → after.nodes.get? (placed digest name id) =
    some (RuntimeGraph.prefix_op (placing digest name graph) (placed digest name id) op)
  output_keys : ∀ x, x ∈ after.output_node_map.keys ↔ ∃ id ∈ graph.output_node_map.keys, placed digest name id = x
  outputs : ∀ id output_name, graph.output_node_map.get? id = some output_name →
    after.output_node_map.get? (placed digest name id) = some output_name
  path_keys : ∀ x, x ∈ after.output_paths.keys ↔ ∃ id ∈ graph.output_paths.keys, placed digest name id = x
  paths : ∀ id path, graph.output_paths.get? id = some path → after.output_paths.get? (placed digest name id) = some path

-- A dict of the graph's nodes under their new ids.
theorem placed_entries {α : Type u} {β : Type v} {d : Dict String α} (inside : ∀ id ∈ d.keys, id ∈ graph.nodes.keys) (value : String × α → β) :
    (∀ x, x ∈ (d.entries.foldl (fun d e => d.set (mapped (placing digest name graph) e.1) (value e)) Dict.empty).keys ↔
      ∃ id ∈ d.keys, placed digest name id = x) ∧
    ∀ id v, d.get? id = some v →
      (d.entries.foldl (fun d e => d.set (mapped (placing digest name graph) e.1) (value e)) Dict.empty).get?
        (placed digest name id) = some (value (id,v)) := by
  have same : ∀ e ∈ d.entries, mapped (placing digest name graph) e.1 = placed digest name e.1 := fun e member =>
    placing_mapped (inside e.1 (Dict.mem_keys_of_entry member))
  constructor
  · intro x
    rw [Dict.mem_keys_foldl_set (fun e : String × α => mapped (placing digest name graph) e.1) value]
    simp only [Dict.keys_empty,List.not_mem_nil,false_or]
    constructor
    · rintro ⟨e,member,here⟩
      exact ⟨e.1,Dict.mem_keys_of_entry member,(same e member).symm.trans here⟩
    · rintro ⟨id,member,here⟩
      obtain ⟨v,found⟩ := Dict.mem_keys_iff.mp member
      have entry := Dict.get?_eq_some.mp found
      exact ⟨(id,v),entry,(same _ entry).trans here⟩
  · intro id v found
    have entry := Dict.get?_eq_some.mp found
    have distinct : (d.entries.map fun e => mapped (placing digest name graph) e.1).Nodup := by
      have renamed : (d.entries.map fun e => mapped (placing digest name graph) e.1) = d.keys.map (placed digest name) := by
        rw [Dict.keys,List.map_map]
        exact List.map_congr_left same
      rw [renamed]
      exact (List.nodup_map_iff fun _ _ => placed_injective).mpr d.keys_nodup
    have here := Dict.get?_foldl_set (fun e : String × α => mapped (placing digest name graph) e.1) value Dict.empty distinct entry
    rwa [same _ entry] at here

theorem with_node_prefix_placed (aligned : Aligned graph) :
    Placed digest name graph ( RuntimeGraph.with_node_prefix graph ( make_node_prefix digest name)) := by
  have shape : RuntimeGraph.with_node_prefix graph ( make_node_prefix digest name) =
      ⟨graph.nodes.entries.foldl (RuntimeGraph.prefix_node (placing digest name graph)) Dict.empty,
        graph.node_order.map (mapped (placing digest name graph)),
        graph.output_node_map.entries.foldl (fun d e => d.set (mapped (placing digest name graph) e.1) e.2) Dict.empty,
        graph.output_paths.entries.foldl (fun d e => d.set (mapped (placing digest name graph) e.1) e.2) Dict.empty,
        graph.dsl_to_runtime.mapValues fun _ ids => ids.map (mapped (placing digest name graph))⟩ :=
    if_neg ( make_node_prefix_filled digest name)
  have nodes := @placed_entries digest name graph _ _ graph.nodes (fun _ member => member)
    fun e => RuntimeGraph.prefix_op (placing digest name graph) (mapped (placing digest name graph) e.1) e.2
  have outputs := @placed_entries digest name graph _ _ graph.output_node_map aligned.outputs Prod.snd
  have paths := @placed_entries digest name graph _ _ graph.output_paths
    (fun id member => aligned.outputs id (aligned.paths id member)) Prod.snd
  rw [shape]
  refine ⟨?_,nodes.1,fun id op found => ?_,outputs.1,outputs.2,paths.1,paths.2⟩
  · exact List.map_congr_left fun id member => placing_mapped ((aligned.members id).mp member)
  · have here := nodes.2 id op found
    rwa [placing_mapped (Dict.mem_keys_iff.mpr ⟨op,found⟩)] at here

theorem placed_get {α : Type u} {d after : Dict String α}
    (keys : ∀ x, x ∈ after.keys ↔ ∃ id ∈ d.keys, placed digest name id = x)
    (values : ∀ id v, d.get? id = some v → after.get? (placed digest name id) = some v) (id : String) :
    after.get? (placed digest name id) = d.get? id := by
  cases found : d.get? id with
  | some v => exact values id v found
  | none =>
      refine Dict.get?_eq_none.mpr fun member => ?_
      obtain ⟨other,present,same⟩ := (keys _).mp member
      exact Dict.get?_eq_none.mp found (placed_injective same ▸ present)

theorem Placed.aligned {after : RuntimeGraph} (placed_graph : Placed digest name graph after) (aligned : Aligned graph) :
    Aligned after := by
  refine ⟨?_,fun x => ?_,fun x member => ?_,fun x member => ?_⟩
  · rw [placed_graph.order]
    exact (List.nodup_map_iff fun _ _ => placed_injective).mpr aligned.distinct
  · rw [placed_graph.order,List.mem_map,placed_graph.keys]
    exact exists_congr fun id => and_congr_left fun _ => aligned.members id
  · obtain ⟨id,present,same⟩ := (placed_graph.output_keys x).mp member
    exact (placed_graph.keys x).mpr ⟨id,aligned.outputs id present,same⟩
  · obtain ⟨id,present,same⟩ := (placed_graph.path_keys x).mp member
    exact (placed_graph.output_keys x).mpr ⟨id,aligned.paths id present,same⟩

end

-- The nodes of one graph, added in their order.
theorem merge_nodes {graph : RuntimeGraph} (ids : List String) {merged after : RuntimeGraph}
    (done : ids.foldlM (merge_node graph) merged = .ok after) :
    after.node_order = merged.node_order ++ ids ∧ after.output_node_map = merged.output_node_map ∧
      after.output_paths = merged.output_paths ∧
      (∀ id ∈ ids, id ∉ merged.nodes.keys ∧ after.nodes.get? id = graph.nodes.get? id) ∧
      ∀ id ∉ ids, after.nodes.get? id = merged.nodes.get? id := by
  induction ids generalizing merged with
  | nil =>
      cases done
      exact ⟨(List.append_nil _).symm,rfl,rfl,fun _ member => absurd member List.not_mem_nil,fun _ _ => rfl⟩
  | cons id rest ih =>
      rw [List.foldlM_cons] at done
      obtain ⟨next,first,later⟩ := Fallible.bind_ok done
      unfold merge_node at first
      split at first
      · cases first
      · rename_i fresh
        cases found : graph.nodes.get? id with
        | none => rw [found] at first; cases first
        | some op =>
            rw [found] at first
            cases first
            obtain ⟨order,outputs,paths,own,other⟩ := ih later
            have unrepeated : id ∉ rest := fun twice =>
              (own id twice).1 (Dict.mem_keys_set.mpr (.inr rfl))
            refine ⟨by rw [order]; simp,outputs,paths,fun x member => ?_,fun x outside => ?_⟩
            · rcases List.mem_cons.mp member with rfl | inside
              · refine ⟨fresh,?_⟩
                rw [other x unrepeated,found]
                exact Dict.get?_set_self _ _ _
              · exact ⟨fun old => (own x inside).1 (Dict.mem_keys_set.mpr (.inl old)),(own x inside).2⟩
            · rw [List.mem_cons,not_or] at outside
              rw [other x outside.2]
              exact Dict.get?_set_ne _ _ outside.1

-- The graphs merged so far, with the output mapping.
structure MergedFrom (done : List (String × RuntimeGraph)) (m : RuntimeGraph × Dict String (String × String)) : Prop where
  order : m.1.node_order = done.flatMap fun e => e.2.node_order
  keys : m.1.nodes.keys = m.1.node_order
  nodes : ∀ e ∈ done, ∀ id ∈ e.2.node_order, m.1.nodes.get? id = e.2.nodes.get? id
  outputs : ∀ e ∈ done, ∀ id ∈ e.2.node_order, m.1.output_node_map.get? id = e.2.output_node_map.get? id ∧
    m.2.get? id = (e.2.output_node_map.get? id).map (Prod.mk e.1) ∧ m.1.output_paths.get? id = e.2.output_paths.get? id
  outside : ∀ id ∉ m.1.node_order, m.1.output_node_map.get? id = none ∧ m.2.get? id = none ∧ m.1.output_paths.get? id = none

theorem merge_graph_step {done : List (String × RuntimeGraph)} {m after : RuntimeGraph × Dict String (String × String)}
    {e : String × RuntimeGraph} (merged : MergedFrom done m) (aligned : Aligned e.2) (turn : merge_graph m e = .ok after) :
    MergedFrom (done ++ [e]) after := by
  obtain ⟨nodes,loop,last⟩ := Fallible.bind_ok turn
  cases last
  obtain ⟨order,same_outputs,same_paths,own,other⟩ := merge_nodes _ loop
  have keys : nodes.nodes.keys = nodes.node_order :=
    Fallible.foldlM_keeps (fun graph => graph.nodes.keys = graph.node_order) (fun _ _ _ => merge_node_aligned) merged.keys loop
  have apart : ∀ id ∈ m.1.node_order, id ∉ e.2.node_order := fun id old new =>
    (own id new).1 (merged.keys.symm ▸ old)
  have none_elsewhere : ∀ id ∉ e.2.node_order, e.2.output_node_map.get? id = none ∧ e.2.output_paths.get? id = none := by
    intro id away
    have no_output : id ∉ e.2.output_node_map.keys := fun member => away ((aligned.members id).mpr (aligned.outputs id member))
    exact ⟨Dict.get?_eq_none.mpr no_output,Dict.get?_eq_none.mpr fun member => no_output (aligned.paths id member)⟩
  have old_order : ∀ f ∈ done, ∀ id ∈ f.2.node_order, id ∈ m.1.node_order := fun f member id inside =>
    merged.order ▸ List.mem_flatMap.mpr ⟨f,member,inside⟩
  have outputs : ∀ x, (merge_outputs e.2 nodes).output_node_map.get? x =
      (e.2.output_node_map.get? x).or (m.1.output_node_map.get? x) := fun x => by
    have here := @Dict.get?_update _ _ _ _ x (fun v : String => v) e.2.output_node_map m.1.output_node_map
    rw [Option.map_id_fun' ] at here
    rw [← same_outputs] at here ⊢
    exact here
  have paths : ∀ x, (merge_outputs e.2 nodes).output_paths.get? x =
      (e.2.output_paths.get? x).or (m.1.output_paths.get? x) := fun x => by
    have here := @Dict.get?_update _ _ _ _ x (fun v : String => v) e.2.output_paths m.1.output_paths
    rw [Option.map_id_fun'] at here
    rw [← same_paths] at here ⊢
    exact here
  have mapping := fun x => @Dict.get?_update _ _ _ _ x (Prod.mk e.1) e.2.output_node_map m.2
  -- an id of the earlier graphs is none of this one, and the other way round
  have earlier : ∀ x ∉ e.2.node_order, (merge_outputs e.2 nodes).output_node_map.get? x = m.1.output_node_map.get? x ∧
      (e.2.output_node_map.entries.foldl (fun d f => d.set f.1 (e.1,f.2)) m.2).get? x = m.2.get? x ∧
      (merge_outputs e.2 nodes).output_paths.get? x = m.1.output_paths.get? x := by
    intro x away
    obtain ⟨no_output,no_path⟩ := none_elsewhere x away
    rw [outputs,paths,mapping,no_output,no_path]
    exact ⟨rfl,rfl,rfl⟩
  have whole : nodes.node_order = (done ++ [e]).flatMap fun f => f.2.node_order := by
    rw [order,merged.order]
    simp
  refine ⟨whole,keys,fun f member x inside => ?_,fun f member x inside => ?_,fun x away => ?_⟩
  · rcases List.mem_append.mp member with before | last
    · exact (other x (apart x (old_order f before x inside))).trans (merged.nodes f before x inside)
    · cases List.mem_singleton.mp last
      exact (own x inside).2
  · rcases List.mem_append.mp member with before | last
    · obtain ⟨same_output,same_mapping,same_path⟩ := earlier x (apart x (old_order f before x inside))
      obtain ⟨old_output,old_mapping,old_path⟩ := merged.outputs f before x inside
      exact ⟨same_output.trans old_output,same_mapping.trans old_mapping,same_path.trans old_path⟩
    · cases List.mem_singleton.mp last
      have fresh : x ∉ m.1.node_order := fun old => apart x old inside
      obtain ⟨no_output,no_mapping,no_path⟩ := merged.outside x fresh
      rw [outputs,paths,mapping,no_output,no_mapping,no_path]
      simp
  · have split : x ∉ m.1.node_order ∧ x ∉ e.2.node_order := by
      have here : x ∉ nodes.node_order := away
      rw [order,List.mem_append,not_or] at here
      exact here
    obtain ⟨same_output,same_mapping,same_path⟩ := earlier x split.2
    obtain ⟨no_output,no_mapping,no_path⟩ := merged.outside x split.1
    exact ⟨same_output.trans no_output,same_mapping.trans no_mapping,same_path.trans no_path⟩

theorem merge_graphs_merged {entries done : List (String × RuntimeGraph)} {m after : RuntimeGraph × Dict String (String × String)}
    (merged : MergedFrom done m) (aligned : ∀ e ∈ entries, Aligned e.2) (turns : entries.foldlM merge_graph m = .ok after) :
    MergedFrom (done ++ entries) after := by
  induction entries generalizing done m with
  | nil =>
      cases turns
      rw [List.append_nil]
      exact merged
  | cons e rest ih =>
      rw [List.foldlM_cons] at turns
      obtain ⟨next,first,later⟩ := Fallible.bind_ok turns
      have here := ih (merge_graph_step merged (aligned e List.mem_cons_self) first)
        (fun f member => aligned f (List.mem_cons_of_mem _ member)) later
      rwa [List.append_assoc] at here

-- The graphs merged under prefixes: a node is one node of one request, renamed, and what
-- the request declares about it is kept.
structure Gathered (digest : String → List (Fin 16)) (requests : Dict String RuntimeGraph)
    (m : RuntimeGraph × Dict String (String × String)) : Prop where
  order : m.1.node_order = requests.entries.flatMap fun e => e.2.node_order.map (placed digest e.1)
  keys : m.1.nodes.keys = m.1.node_order
  nodes : ∀ name request id op, requests.get? name = some request → request.nodes.get? id = some op →
    m.1.nodes.get? (placed digest name id) =
      some (RuntimeGraph.prefix_op (placing digest name request) (placed digest name id) op)
  only : ∀ x ∈ m.1.nodes.keys, ∃ name request id, requests.get? name = some request ∧ id ∈ request.nodes.keys ∧
    x = placed digest name id
  once : ∀ name request id name' request' id', requests.get? name = some request → id ∈ request.nodes.keys →
    requests.get? name' = some request' → id' ∈ request'.nodes.keys → placed digest name id = placed digest name' id' →
    name = name' ∧ id = id'
  outputs : ∀ name request id, requests.get? name = some request → id ∈ request.nodes.keys →
    m.1.output_node_map.get? (placed digest name id) = request.output_node_map.get? id ∧
    m.2.get? (placed digest name id) = (request.output_node_map.get? id).map (Prod.mk name) ∧
    m.1.output_paths.get? (placed digest name id) = request.output_paths.get? id
  outside : ∀ x ∉ m.1.nodes.keys, m.1.output_node_map.get? x = none ∧ m.2.get? x = none ∧ m.1.output_paths.get? x = none

theorem prefixed_gathered {digest : String → List (Fin 16)} {requests : Dict String RuntimeGraph}
    {m : RuntimeGraph × Dict String (String × String)} (aligned : ∀ name request, requests.get? name = some request → Aligned request)
    (done : merge_runtime_graphs (prefixed_graphs digest requests) = .ok m) : Gathered digest requests m := by
  have every : ∀ e ∈ requests.entries, Placed digest e.1 e.2 ( RuntimeGraph.with_node_prefix e.2 ( make_node_prefix digest e.1)) :=
    fun e member => with_node_prefix_placed (aligned e.1 e.2 (Dict.get?_eq_some.mpr member))
  have entries : (prefixed_graphs digest requests).entries = requests.entries.map fun e =>
      (e.1, RuntimeGraph.with_node_prefix e.2 ( make_node_prefix digest e.1)) := rfl
  have ready : ∀ e ∈ (prefixed_graphs digest requests).entries, Aligned e.2 := by
    intro e member
    rw [entries] at member
    obtain ⟨f,inside,rfl⟩ := List.mem_map.mp member
    exact (every f inside).aligned (aligned f.1 f.2 (Dict.get?_eq_some.mpr inside))
  have start : MergedFrom [] (RuntimeGraph.empty,(Dict.empty : Dict String (String × String))) :=
    ⟨rfl,rfl,by simp,by simp,fun _ _ => ⟨rfl,rfl,rfl⟩⟩
  have merged := merge_graphs_merged start ready done
  rw [List.nil_append] at merged
  have order : m.1.node_order = requests.entries.flatMap fun e => e.2.node_order.map (placed digest e.1) := by
    rw [merged.order,entries,List.flatMap_map]
    exact List.flatMap_congr fun e member => (every e member).order
  have members : ∀ name request, requests.get? name = some request →
      (name, RuntimeGraph.with_node_prefix request ( make_node_prefix digest name)) ∈ (prefixed_graphs digest requests).entries ∧
      Placed digest name request ( RuntimeGraph.with_node_prefix request ( make_node_prefix digest name)) ∧
      ∀ id ∈ request.nodes.keys, placed digest name id ∈
        ( RuntimeGraph.with_node_prefix request ( make_node_prefix digest name)).node_order := by
    intro name request found
    have entry := Dict.get?_eq_some.mp found
    refine ⟨entries ▸ List.mem_map_of_mem (f := fun e : String × RuntimeGraph =>
      (e.1, RuntimeGraph.with_node_prefix e.2 ( make_node_prefix digest e.1))) entry,every _ entry,fun id node => ?_⟩
    rw [(every _ entry).order]
    exact List.mem_map_of_mem (((aligned name request found).members id).mpr node)
  have distinct : m.1.node_order.Nodup := merged.keys ▸ m.1.nodes.keys_nodup
  refine ⟨order,merged.keys,?_,?_,?_,?_,?_⟩
  · intro name request id op found node
    obtain ⟨entry,renamed,inside⟩ := members name request found
    rw [merged.nodes _ entry _ (inside id (Dict.mem_keys_iff.mpr ⟨op,node⟩))]
    exact renamed.nodes id op node
  · intro x member
    rw [merged.keys,order] at member
    obtain ⟨e,entry,inside⟩ := List.mem_flatMap.mp member
    obtain ⟨id,node,same⟩ := List.mem_map.mp inside
    have found := Dict.get?_eq_some.mpr entry
    exact ⟨e.1,e.2,id,found,((aligned e.1 e.2 found).members id).mp node,same.symm⟩
  · intro name request id name' request' id' found node found' node' same
    rw [order] at distinct
    have apart := (List.nodup_flatMap.mp distinct).2
    have symmetric : Std.Symm (Function.onFun List.Disjoint fun e : String × RuntimeGraph =>
        e.2.node_order.map (placed digest e.1)) := ⟨fun _ _ disjoint x here there => disjoint there here⟩
    by_cases one : (name,request) = (name',request')
    · cases one
      exact ⟨rfl,placed_injective same⟩
    · have disjoint := apart.forall (Dict.get?_eq_some.mp found) (Dict.get?_eq_some.mp found') one
      have here := List.mem_map_of_mem (f := placed digest name) (((aligned name request found).members id).mpr node)
      have there := List.mem_map_of_mem (f := placed digest name') (((aligned name' request' found').members id').mpr node')
      exact absurd (same ▸ there) (disjoint here)
  · intro name request id found node
    obtain ⟨entry,renamed,inside⟩ := members name request found
    obtain ⟨output,mapping,path⟩ := merged.outputs _ entry _ (inside id node)
    have same := placed_get renamed.output_keys renamed.outputs id
    refine ⟨output.trans same,?_,path.trans (placed_get renamed.path_keys renamed.paths id)⟩
    rw [mapping,same]
  · intro x away
    exact merged.outside x (merged.keys ▸ away)

theorem Gathered.aligned {digest : String → List (Fin 16)} {requests : Dict String RuntimeGraph}
    {m : RuntimeGraph × Dict String (String × String)} (gathered : Gathered digest requests m)
    (aligned : ∀ name request, requests.get? name = some request → Aligned request) : Aligned m.1 := by
  have inside : ∀ x, m.1.output_node_map.get? x ≠ none ∨ m.1.output_paths.get? x ≠ none → x ∈ m.1.nodes.keys := by
    intro x known
    by_contra away
    obtain ⟨no_output,_,no_path⟩ := gathered.outside x away
    rcases known with output | path
    · exact output no_output
    · exact path no_path
  refine ⟨gathered.keys ▸ m.1.nodes.keys_nodup,fun x => by rw [gathered.keys],fun x member => ?_,fun x member => ?_⟩
  · exact inside x (.inl fun missing => Dict.get?_eq_none.mp missing member)
  · obtain ⟨name,request,id,found,node,rfl⟩ := gathered.only x
      (inside x (.inr fun missing => Dict.get?_eq_none.mp missing member))
    obtain ⟨output,_,path⟩ := gathered.outputs name request id found node
    obtain ⟨v,known⟩ := Dict.mem_keys_iff.mp member
    rw [path] at known
    have out := (aligned name request found).paths id (Dict.mem_keys_iff.mpr ⟨v,known⟩)
    obtain ⟨output_name,is_output⟩ := Dict.mem_keys_iff.mp out
    exact Dict.mem_keys_iff.mpr ⟨output_name,output.trans is_output⟩

-- Spells no node of any of the merged graphs.
def Loose (digest : String → List (Fin 16)) (requests : Dict String RuntimeGraph) (x : String) : Prop :=
  ∀ name request id, requests.get? name = some request → id ∈ request.nodes.keys → x ≠ placed digest name id

theorem flatMap_split {ι : Type u} {α : Type v} {f : ι → List α} {items : List ι} {before after : List α} {x : α}
    (split : items.flatMap f = before ++ x :: after) :
    ∃ earlier item later front back, items = earlier ++ item :: later ∧ f item = front ++ x :: back ∧
      before = earlier.flatMap f ++ front := by
  induction items generalizing before with
  | nil => simp at split
  | cons item rest ih =>
      have deeper : ∀ before', rest.flatMap f = before' ++ x :: after → before = f item ++ before' →
          ∃ earlier item' later front back, item :: rest = earlier ++ item' :: later ∧ f item' = front ++ x :: back ∧
            before = earlier.flatMap f ++ front := by
        intro before' split' same
        obtain ⟨earlier,item',later,front,back,rfl,here,rfl⟩ := ih split'
        exact ⟨item :: earlier,item',later,front,back,rfl,here,by rw [same]; simp⟩
      rw [List.flatMap_cons] at split
      rcases List.append_eq_append_iff.mp split with ⟨middle,same,tail⟩ | ⟨middle,here,tail⟩
      · exact deeper middle tail same
      · cases middle with
        | nil =>
            have same : before = f item ++ [] := by rw [here]; simp
            exact deeper [] (by simpa using tail.symm) same
        | cons y back =>
            obtain ⟨rfl,_⟩ := List.cons.inj tail
            exact ⟨[],item,rest,before,back,rfl,here,rfl⟩

-- Merging keeps the orders of the graphs as long as a dependency that is no node of its
-- own graph is no node of another.
theorem Gathered.topological {digest : String → List (Fin 16)} {requests : Dict String RuntimeGraph}
    {m : RuntimeGraph × Dict String (String × String)} (gathered : Gathered digest requests m)
    (aligned : ∀ name request, requests.get? name = some request → Aligned request)
    (topological : ∀ name request, requests.get? name = some request → Topological request)
    (loose : ∀ name request, requests.get? name = some request → ∀ id op, request.nodes.get? id = some op →
      ∀ dep ∈ op.dependencies, dep ∉ request.nodes.keys → Loose digest requests dep) : Topological m.1 := by
  intro before x after split op node dep member present
  rw [gathered.order] at split
  obtain ⟨earlier,e,later,front,back,parts,here,rfl⟩ := flatMap_split split
  have entry : e ∈ requests.entries := by rw [parts]; simp
  have found : requests.get? e.1 = some e.2 := Dict.get?_eq_some.mpr entry
  obtain ⟨olds,tail,whole,rfl,rest⟩ := List.map_eq_append_iff.mp here
  obtain ⟨id,news,rfl,rfl,_⟩ := List.map_eq_cons_iff.mp rest
  have inside : id ∈ e.2.nodes.keys := ((aligned e.1 e.2 found).members id).mp (by rw [whole]; simp)
  obtain ⟨old_op,old_node⟩ := Dict.mem_keys_iff.mp inside
  rw [gathered.nodes e.1 e.2 id old_op found old_node] at node
  cases node
  obtain ⟨old,used,rfl⟩ := List.mem_map.mp member
  by_cases own : old ∈ e.2.nodes.keys
  · have ahead := topological e.1 e.2 found olds id news whole old_op old_node old used own
    rw [placing_mapped own]
    exact List.mem_append_right _ (List.mem_map_of_mem ahead)
  · have kept : mapped (placing digest e.1 e.2) old = old := by rw [mapped,placing_other own]; rfl
    rw [kept] at present
    obtain ⟨name,request,other,found',node',same⟩ := gathered.only old present
    exact absurd same (loose e.1 e.2 found id old_op old_node old used own name request other found' node')

end Lumilake

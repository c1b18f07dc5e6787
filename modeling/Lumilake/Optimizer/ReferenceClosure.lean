import Lumilake.Optimizer.DedupedGraph

namespace Lumilake.Optimizer
open Placeholder

def optimize_graphs (graphs : Dict String RuntimeGraph) :
    Except String (RuntimeGraph × Dict String (String × String) × Dict String String) := do
  let merged ← merge_runtime_graphs graphs
  let optimized ← dedupe_runtime_graph merged.1
  pure (optimized.1,merged.2,optimized.2)

section
variable (digest : String → List (Fin 16)) (requests : Dict String RuntimeGraph) (mapping : Dict String String)

-- The node that stands for the node `id` of the request `name` in the optimized graph.
def canon (name id : String) : String := mapped mapping (placed digest name id)

-- A placeholder is a reference where it names a dependency, and a literal elsewhere.
def Resolves (request : RuntimeGraph) (op : RuntimeOp) (name : String) : Prop :=
  name ∈ op.dependencies ∧ name ∈ request.nodes.keys

instance (request : RuntimeGraph) (op : RuntimeOp) (name : String) : Decidable (Resolves request op name) :=
  inferInstanceAs (Decidable (_ ∧ _))

variable (name : String) (request : RuntimeGraph) (op : RuntimeOp)

-- A text whose references can still be read after the renaming: the new names have no dot
-- and no brace, and what names no node does not spell a node of the merged graph.
structure Legible (t : Bool × String) : Prop where
  plain : ∀ r ∈ placeholders t.2, Resolves request op r.1 → Plain (canon digest mapping name r.1).toList
  literal : ∀ r ∈ placeholders t.2, ¬Resolves request op r.1 → Loose digest requests r.1
  key : t.1 = true → Loose digest requests
    (remap_placeholder t.2 (RuntimeGraph.rewritable (placing digest name request) op))

-- What became of one text: a node reference names the canonical node, and so does every
-- placeholder of a legible text that named a dependency.
structure Followed (before after : Bool × String) : Prop where
  node : before.1 = true → before.2 ∈ request.nodes.keys → after = (true,canon digest mapping name before.2)
  refs : ¬(before.1 = true ∧ before.2 ∈ request.nodes.keys) →
    Legible digest requests mapping name request op before → placeholders after.2 = (placeholders before.2).map fun r =>
      (if Resolves request op r.1 then canon digest mapping name r.1 else r.1,r.2)

end

-- What holds between the request graphs and the graph optimized from them.
structure ReferencesClosed (digest : String → List (Fin 16)) (requests : Dict String RuntimeGraph) (graph : RuntimeGraph)
    (output_mapping : Dict String (String × String)) (mapping : Dict String String) : Prop where
  canonical : ∀ name request id, requests.get? name = some request → id ∈ request.nodes.keys →
    canon digest mapping name id ∈ graph.nodes.keys
  dependencies : ∀ name request id op, requests.get? name = some request → request.nodes.get? id = some op →
    ∃ new, graph.nodes.get? (canon digest mapping name id) = some new ∧
      ∀ dep ∈ op.dependencies, dep ∈ request.nodes.keys → canon digest mapping name dep ∈ new.dependencies
  texts : ∀ name request id op, requests.get? name = some request → request.nodes.get? id = some op →
    canon digest mapping name id = placed digest name id → ∃ new, graph.nodes.get? (placed digest name id) = some new ∧
      List.Forall₂ (Followed digest requests mapping name request op) (op_texts op) (op_texts new)
  only : ∀ x ∈ graph.nodes.keys, ∃ name request id, requests.get? name = some request ∧ id ∈ request.nodes.keys ∧
    x = placed digest name id ∧ canon digest mapping name id = x
  distinct : graph.node_order.Nodup
  members : ∀ x, x ∈ graph.node_order ↔ x ∈ graph.nodes.keys
  topological : (∀ name request, requests.get? name = some request → Topological request ∧
    ∀ id op, request.nodes.get? id = some op → ∀ dep ∈ op.dependencies, dep ∉ request.nodes.keys →
      Loose digest requests dep) → Topological graph
  outputs : ∀ name request id, requests.get? name = some request → id ∈ request.nodes.keys →
    graph.output_node_map.get? (placed digest name id) = request.output_node_map.get? id ∧
    output_mapping.get? (placed digest name id) = (request.output_node_map.get? id).map (Prod.mk name) ∧
    graph.output_paths.get? (placed digest name id) = request.output_paths.get? id ∧
    (id ∈ request.output_node_map.keys → canon digest mapping name id = placed digest name id)
  no_others : ∀ x, (x ∈ graph.output_node_map.keys ∨ x ∈ output_mapping.keys ∨ x ∈ graph.output_paths.keys) →
    ∃ name request id, requests.get? name = some request ∧ id ∈ request.nodes.keys ∧ x = placed digest name id
  once : ∀ name request id name' request' id', requests.get? name = some request → id ∈ request.nodes.keys →
    requests.get? name' = some request' → id' ∈ request'.nodes.keys → placed digest name id = placed digest name' id' →
    name = name' ∧ id = id'
  idempotent : ∀ x c, mapping.get? x = some c → mapping.get? c = some c

theorem placed_plain {digest : String → List (Fin 16)} {name id : String} (plain : Plain id.toList) :
    Plain (placed digest name id).toList := by
  have safe := make_node_prefix_safe digest name
  have parts : (placed digest name id).toList = ( make_node_prefix digest name).toList ++ "__".toList ++ id.toList := by
    simp [placed]
  have free : ∀ c, safe_char c = false → c ∉ "__".toList → c ∉ id.toList → c ∉ (placed digest name id).toList := by
    intro c rare middle back member
    rw [parts,List.mem_append,List.mem_append] at member
    rcases member with (front | here) | last
    · rw [safe c front] at rare
      cases rare
    · exact middle here
    · exact back last
  refine ⟨?_,free '.' (by decide) (by decide) plain.no_dot,free '}' (by decide) (by decide) plain.no_brace⟩
  rw [parts]
  simp

section
variable {digest : String → List (Fin 16)} {requests : Dict String RuntimeGraph} {m : RuntimeGraph × Dict String (String × String)}
  {graph : RuntimeGraph} {mapping : Dict String String}

theorem loose_unmapped (gathered : Gathered digest requests m) (deduped : Deduped m.1 graph mapping) {x : String}
    (loose : Loose digest requests x) : mapping.get? x = none :=
  deduped.outside x fun member => by
    obtain ⟨name,request,id,found,node,same⟩ := gathered.only x member
    exact loose name request id found node same

variable {name : String} {request : RuntimeGraph} {op : RuntimeOp}

-- Both renamings of one text.
theorem text_followed (gathered : Gathered digest requests m) (deduped : Deduped m.1 graph mapping)
    (found : requests.get? name = some request) (t : Bool × String) :
    Followed digest requests mapping name request op t
      (remap_text mapping mapping (remap_text (placing digest name request) (RuntimeGraph.rewritable (placing digest name request) op) t)) := by
  have known : ∀ x, x ∈ placing digest name request ↔ x ∈ request.nodes.keys := fun x => by
    rw [Dict.mem_def,placing,RuntimeGraph.prefix_mapping,Dict.keys_mapValues]
  constructor
  · intro flag node
    obtain ⟨node_op,is_op⟩ := Dict.mem_keys_iff.mp node
    have merged_node : placed digest name t.2 ∈ m.1.nodes.keys :=
      Dict.mem_keys_iff.mpr ⟨_,gathered.nodes name request t.2 node_op found is_op⟩
    obtain ⟨c,moved,_⟩ := deduped.total _ merged_node
    have in_mapping : placed digest name t.2 ∈ mapping := Dict.mem_keys_iff.mpr ⟨c,moved⟩
    have first : remap_text (placing digest name request) (RuntimeGraph.rewritable (placing digest name request) op) t =
        (true,placed digest name t.2) := by
      unfold remap_text
      rw [if_pos ⟨flag,(known t.2).mpr node⟩,placing_mapped node,flag]
    rw [first]
    unfold remap_text
    rw [if_pos ⟨rfl,in_mapping⟩]
    rfl
  · intro open_text legible
    have first : remap_text (placing digest name request) (RuntimeGraph.rewritable (placing digest name request) op) t =
        (t.1,remap_placeholder t.2 (RuntimeGraph.rewritable (placing digest name request) op)) := by
      unfold remap_text
      rw [if_neg fun h => open_text ⟨h.1,(known t.2).mp h.2⟩]
    have second : ¬(t.1 = true ∧
        remap_placeholder t.2 (RuntimeGraph.rewritable (placing digest name request) op) ∈ mapping) := fun h =>
      Dict.get?_eq_none.mp (loose_unmapped gathered deduped (legible.key h.1)) h.2
    have renamed : ∀ x, mapped (RuntimeGraph.rewritable (placing digest name request) op) x =
        if Resolves request op x then placed digest name x else x := by
      intro x
      rw [mapped,rewritable_get]
      by_cases dep : x ∈ op.dependencies
      · by_cases node : x ∈ request.nodes.keys
        · rw [if_pos dep,placing_node node,if_pos ⟨dep,node⟩]
          rfl
        · rw [if_pos dep,placing_other node,if_neg fun h => node h.2]
          rfl
      · rw [if_neg dep,if_neg fun h => dep h.1]
        rfl
    have both : ∀ r ∈ placeholders t.2, mapped mapping (if Resolves request op r.1 then placed digest name r.1 else r.1) =
        if Resolves request op r.1 then canon digest mapping name r.1 else r.1 := by
      intro r member
      by_cases resolves : Resolves request op r.1
      · rw [if_pos resolves,if_pos resolves]
        rfl
      · rw [if_neg resolves,if_neg resolves,mapped,loose_unmapped gathered deduped (legible.literal r member resolves)]
        rfl
    rw [first]
    unfold remap_text
    rw [if_neg second]
    have prefixed := @placeholders_remap (RuntimeGraph.rewritable (placing digest name request) op) t.2 fun x path member => by
      rw [renamed]
      split
      · exact placed_plain (placeholder_plain member)
      · exact placeholder_plain member
    have merged := @placeholders_remap mapping
      (remap_placeholder t.2 (RuntimeGraph.rewritable (placing digest name request) op)) fun x path member => by
        rw [prefixed] at member
        obtain ⟨r,inside,same⟩ := List.mem_map.mp member
        cases same
        rw [renamed,both r inside]
        split
        · rename_i resolves
          exact legible.plain r inside resolves
        · exact placeholder_plain inside
    rw [merged,prefixed,List.map_map]
    exact List.map_congr_left fun r member => by
      simp only [Function.comp_apply,renamed,both r member]

end

theorem references_closed {digest : String → List (Fin 16)} {requests : Dict String RuntimeGraph} {graph : RuntimeGraph}
    {output_mapping : Dict String (String × String)} {mapping : Dict String String}
    (aligned : ∀ name request, requests.get? name = some request → Aligned request)
    (done : optimize_graphs (prefixed_graphs digest requests) = .ok (graph,output_mapping,mapping)) :
    ReferencesClosed digest requests graph output_mapping mapping := by
  obtain ⟨m,merging,rest⟩ := Fallible.bind_ok done
  obtain ⟨optimized,dedupe,last⟩ := Fallible.bind_ok rest
  cases last
  have gathered := prefixed_gathered aligned merging
  have merged_aligned := gathered.aligned aligned
  have deduped := dedupe_deduped dedupe merged_aligned gathered.keys
  have merged_node : ∀ name request id, requests.get? name = some request → id ∈ request.nodes.keys →
      placed digest name id ∈ m.1.nodes.keys := by
    intro name request id found node
    obtain ⟨op,is_op⟩ := Dict.mem_keys_iff.mp node
    exact Dict.mem_keys_iff.mpr ⟨_,gathered.nodes name request id op found is_op⟩
  have moved : ∀ name request id, requests.get? name = some request → id ∈ request.nodes.keys →
      optimized.2.get? (placed digest name id) = some (canon digest optimized.2 name id) := by
    intro name request id found node
    obtain ⟨c,here,_⟩ := deduped.total _ (merged_node name request id found node)
    rw [canon,mapped,here]
    rfl
  have canonical : ∀ name request id, requests.get? name = some request → id ∈ request.nodes.keys →
      canon digest optimized.2 name id ∈ optimized.1.nodes.keys := by
    intro name request id found node
    rw [deduped.keys]
    exact (deduped.images _).mpr (deduped.fixed _ _ (moved name request id found node))
  refine ⟨canonical,?_,?_,?_,deduped.keys ▸ optimized.1.nodes.keys_nodup,fun x => by rw [deduped.keys],?_,?_,?_,
    gathered.once,deduped.fixed⟩
  · intro name request id op found node
    have inside := Dict.mem_keys_iff.mpr ⟨op,node⟩
    have target := moved name request id found inside
    obtain ⟨kept,kept_node,same⟩ := deduped.dependencies _ _ _ (gathered.nodes name request id op found node) target
    obtain ⟨new,new_node,members,_⟩ := deduped.kept _ kept kept_node (deduped.fixed _ _ target)
    refine ⟨new,new_node,fun dep member own => ?_⟩
    have renamed : placed digest name dep ∈ op.dependencies.map (mapped (placing digest name request)) :=
      List.mem_map.mpr ⟨dep,member,placing_mapped own⟩
    rw [members,same]
    exact List.mem_map_of_mem renamed
  · intro name request id op found node self
    have inside := Dict.mem_keys_iff.mpr ⟨op,node⟩
    have target := moved name request id found inside
    rw [self] at target
    obtain ⟨new,new_node,_,renamed⟩ := deduped.kept _ _ (gathered.nodes name request id op found node) target
    refine ⟨new,new_node,?_⟩
    rw [renamed,op_texts_prefixed,List.map_map,List.forall₂_map_right_iff]
    exact List.forall₂_same.mpr fun t _ => text_followed gathered deduped found t
  · intro x member
    rw [deduped.keys] at member
    have fixed := (deduped.images x).mp member
    have node : x ∈ m.1.nodes.keys := by
      by_contra away
      rw [deduped.outside x away] at fixed
      cases fixed
    obtain ⟨name,request,id,found,inside,rfl⟩ := gathered.only x node
    refine ⟨name,request,id,found,inside,rfl,?_⟩
    rw [moved name request id found inside] at fixed
    exact Option.some.inj fixed
  · intro h
    exact deduped.topological gathered.keys
      (gathered.topological aligned (fun name request found => (h name request found).1) fun name request found => (h name request found).2)
  · intro name request id found node
    obtain ⟨output,of_graph,path⟩ := gathered.outputs name request id found node
    refine ⟨(deduped.outputs _).trans output,of_graph,(deduped.paths _).trans path,fun out => ?_⟩
    obtain ⟨output_name,is_output⟩ := Dict.mem_keys_iff.mp out
    have declared : placed digest name id ∈ m.1.output_node_map := Dict.mem_keys_iff.mpr ⟨output_name,output.trans is_output⟩
    have fixed := deduped.output _ (merged_node name request id found node) declared
    rw [moved name request id found node] at fixed
    exact Option.some.inj fixed
  · intro x given
    by_contra none_such
    have away : x ∉ m.1.nodes.keys := fun member => none_such (gathered.only x member)
    obtain ⟨no_output,no_mapping,no_path⟩ := gathered.outside x away
    rcases given with out | of_graph | path
    · exact Dict.get?_eq_none.mp ((deduped.outputs x).trans no_output) out
    · exact Dict.get?_eq_none.mp no_mapping of_graph
    · exact Dict.get?_eq_none.mp ((deduped.paths x).trans no_path) path

def text_op (id : String) (dependencies : List String) (text : String) : RuntimeOp where
  node_id := id
  task_type := "inference"
  backend := "vllm"
  model := "m"
  data_spec := [("prompt",.str text)]
  model_spec := []
  inference_spec := []
  dependencies := dependencies

-- A graph of the given operations in the given order.
def graph_of (ops : List RuntimeOp) (outputs : List (String × String)) : RuntimeGraph :=
  ⟨ops.foldl (fun d op => d.set op.node_id op) Dict.empty,ops.map RuntimeOp.node_id,
    outputs.foldl (fun d e => d.set e.1 e.2) Dict.empty,Dict.empty,Dict.empty⟩

-- The first digits of the SHA-256 of the two names.
def uv_digest (name : String) : List (Fin 16) :=
  if name = "u" then [0,11,15,14,9,3,5,14] else if name = "v" then [4,12,9,4,4,8,5,14] else []

def pair_of (u v : RuntimeGraph) : Dict String RuntimeGraph := (Dict.empty.set "u" u).set "v" v

theorem pair_of_get {u v : RuntimeGraph} {name : String} {request : RuntimeGraph}
    (found : (pair_of u v).get? name = some request) : request = u ∨ request = v := by
  have entry := Dict.get?_eq_some.mp found
  have entries : (pair_of u v).entries = [("u",u),("v",v)] := rfl
  rw [entries] at entry
  simp only [List.mem_cons,Prod.mk.injEq,List.not_mem_nil,or_false] at entry
  exact entry.imp And.right And.right

def ask_and_tell : RuntimeGraph :=
  graph_of [text_op "ask" [] "hello",text_op "tell" ["ask"] "say ${ask.items}"] [("tell","answer")]

theorem references_closed_twice : ∃ graph output_mapping mapping,
    optimize_graphs (prefixed_graphs uv_digest (pair_of ask_and_tell ask_and_tell)) = .ok (graph,output_mapping,mapping) ∧
    mapping.get? "v_4c94485e__ask" = some "u_0bfe935e__ask" ∧
    ReferencesClosed uv_digest (pair_of ask_and_tell ask_and_tell) graph output_mapping mapping := by
  have checked : (optimize_graphs (prefixed_graphs uv_digest (pair_of ask_and_tell ask_and_tell))).toOption.map
      (fun m => m.2.2.get? "v_4c94485e__ask") = some (some "u_0bfe935e__ask") := by decide +kernel
  have shape : Aligned ask_and_tell := by decide +kernel
  have aligned : ∀ name request, (pair_of ask_and_tell ask_and_tell).get? name = some request → Aligned request := by
    intro name request found
    rcases pair_of_get found with rfl | rfl
    · exact shape
    · exact shape
  cases done : optimize_graphs (prefixed_graphs uv_digest (pair_of ask_and_tell ask_and_tell)) with
  | error message => rw [done] at checked; cases checked
  | ok m =>
      rw [done] at checked
      exact ⟨m.1,m.2.1,m.2.2,rfl,Option.some.inj checked,references_closed aligned done⟩

-- Every placeholder names a node.
def PlaceholdersName (graph : RuntimeGraph) : Prop :=
  ∀ e ∈ graph.nodes.entries, ∀ t ∈ op_texts e.2, ∀ r ∈ placeholders t.2, r.1 ∈ graph.nodes.keys

instance (graph : RuntimeGraph) : Decidable (PlaceholdersName graph) :=
  inferInstanceAs (Decidable (∀ e ∈ graph.nodes.entries, ∀ t ∈ op_texts e.2, ∀ r ∈ placeholders t.2, r.1 ∈ graph.nodes.keys))

-- Every placeholder names a dependency.
def PlaceholdersDepend (graph : RuntimeGraph) : Prop :=
  ∀ e ∈ graph.nodes.entries, ∀ t ∈ op_texts e.2, ∀ r ∈ placeholders t.2, r.1 ∈ e.2.dependencies

instance (graph : RuntimeGraph) : Decidable (PlaceholdersDepend graph) :=
  inferInstanceAs (Decidable (∀ e ∈ graph.nodes.entries, ∀ t ∈ op_texts e.2, ∀ r ∈ placeholders t.2, r.1 ∈ e.2.dependencies))

-- Its second node is taken for the first, whose id the placeholder cannot spell.
def dotted_twin : RuntimeGraph :=
  graph_of [text_op "a.b" [] "hello",text_op "c" [] "hello",text_op "d" ["c"] "say ${c.items}"] []

def single_ask : RuntimeGraph := graph_of [text_op "m" [] "who are you"] []

def literal_reference : RuntimeGraph := graph_of [text_op "a" [] "hello",text_op "d" [] "say ${a.items}"] []

-- The dependency is no node of this graph, and spells a node of the other one.
def foreign_dependency : RuntimeGraph := graph_of [text_op "n" ["v_4c94485e__m"] "hello"] []

-- Optimizing graphs of one kind always gives a result of another kind.
def Ensures (good : RuntimeGraph → Prop) (result : RuntimeGraph → Dict String String → Prop) : Prop :=
  ∀ digest requests graph output_mapping mapping,
    (∀ name request, Dict.get? requests name = some request → Aligned request ∧ Topological request ∧ good request) →
    optimize_graphs (prefixed_graphs digest requests) = .ok (graph,output_mapping,mapping) → result graph mapping

theorem not_ensured {good : RuntimeGraph → Prop} {result : RuntimeGraph → Dict String String → Prop}
    [∀ graph mapping, Decidable (result graph mapping)] {u v : RuntimeGraph}
    (good_u : Aligned u ∧ Topological u ∧ good u) (good_v : Aligned v ∧ Topological v ∧ good v)
    (checked : (optimize_graphs (prefixed_graphs uv_digest (pair_of u v))).toOption.map
      (fun m => decide (result m.1 m.2.2)) = some false) : ¬Ensures good result := by
  intro ensured
  cases done : optimize_graphs (prefixed_graphs uv_digest (pair_of u v)) with
  | error message => rw [done] at checked; cases checked
  | ok m =>
      rw [done] at checked
      refine of_decide_eq_false (Option.some.inj checked) (ensured _ _ _ m.2.1 _ (fun name request found => ?_) done)
      rcases pair_of_get found with rfl | rfl
      · exact good_u
      · exact good_v

-- A placeholder is lost where the canonical id has a dot, or where it names no dependency;
-- an order is lost where a dependency spells another graph's node.
theorem references_lost :
    ¬Ensures (fun graph => PlaceholdersName graph ∧ PlaceholdersDepend graph) (fun graph _ => PlaceholdersName graph) ∧
    ¬Ensures PlaceholdersName (fun graph mapping => mapping.keys = mapping.values → PlaceholdersName graph) ∧
    ¬Ensures (fun graph => PlaceholdersName graph ∧ PlaceholdersDepend graph) (fun graph _ => Topological graph) := by
  refine ⟨@not_ensured _ _ _ dotted_twin ask_and_tell ?_ ?_ ?_,@not_ensured _ _ _ literal_reference single_ask ?_ ?_ ?_,
    @not_ensured _ _ _ foreign_dependency single_ask ?_ ?_ ?_⟩
  all_goals decide +kernel

end Lumilake.Optimizer

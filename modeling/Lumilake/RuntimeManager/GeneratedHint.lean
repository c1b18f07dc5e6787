import Lumilake.Optimizer.HaloOptimizer
import Lumilake.Optimizer.TopologicalSort
import Lumilake.RuntimeManager.RewriteHint
import Lumilake.Server.PlanCache

-- What becomes of a schedule that an optimizer makes.
namespace Lumilake.RuntimeManager
open Fallible Optimizer Relation

section
-- The FlowMesh spec of a python step, whose text is that of a template.
variable (flowmesh_spec : String → Spec → Except String Spec)

def spec_payload (op : RuntimeOp) : Except String Spec := do
  let payload ← if op.task_type = "python" then flowmesh_spec op.node_id op.data_spec
    else .ok [("taskType",.str op.task_type),("data",.dict op.data_spec)]
  let payload := payload ++
    if op.task_type = "api" then [("api",.dict op.api_spec)]
    else if op.task_type ∈ ["inference","diffusion","embedding","omni_text2image"] then [("model",.dict op.model_spec)]
    else []
  pure (payload ++ if op.task_type ∈ ["inference","diffusion","omni_text2image"] then [("inference",.dict op.inference_spec)] else [])

-- The node of the condition is waited for as well. One that is no text names no node of the
-- graph and is dropped with the other foreign names; the filter cannot hash a list or a dict.
def depends_on (op : RuntimeOp) : Except String (List String) :=
  match op.condition with
  | none => .ok op.dependencies
  | some condition =>
      match Value.get? condition "node" with
      | some (.str node) => .ok (if node ∈ op.dependencies then op.dependencies else op.dependencies ++ [node])
      | some (.list _) => .error "TypeError: unhashable type: 'list'"
      | some (.dict _) => .error "TypeError: unhashable type: 'dict'"
      | some _ => .ok op.dependencies
      | none => .error "KeyError: 'node'"

def optional (key : String) (spec : Option Spec) : Spec :=
  match spec with
  | some (field :: rest) => [(key,.dict (field :: rest))]
  | _ => []

def to_flowmesh_node (op : RuntimeOp) : Except String FlowmeshNode := do
  let payload ← spec_payload flowmesh_spec op
  let deps ← depends_on op
  pure ⟨op.node_id,deps,payload ++ optional "output" op.output_spec ++ optional "condition" op.condition⟩

def export_node (graph : RuntimeGraph) (node_id : String) : Except String FlowmeshNode := do
  let op ← Halo.op_of id graph node_id
  let node_payload ← to_flowmesh_node flowmesh_spec op
  pure { node_payload with dependsOn := node_payload.dependsOn.filter (· ∈ graph.nodes.keys) }

def to_flowmesh_nodes (graph : RuntimeGraph) : Except String (List FlowmeshNode) :=
  graph.node_order.mapM (export_node flowmesh_spec graph)

end

-- `x` waits for `y`, or is gated on its result.
def held_back (graph : RuntimeGraph) (x y : String) : Prop :=
  ∃ op, graph.nodes.get? x = some op ∧ y ∈ graph.nodes.keys ∧ (y ∈ op.dependencies ∨
    ∃ condition, op.condition = some condition ∧ Value.get? condition "node" = some (.str y))

section
variable {flowmesh_spec : String → Spec → Except String Spec} {graph : RuntimeGraph} {nodes : List FlowmeshNode}

theorem depends_on_ok {op : RuntimeOp} {deps : List String} (done : depends_on op = .ok deps) (y : String) : y ∈ deps ↔
    y ∈ op.dependencies ∨ ∃ condition, op.condition = some condition ∧ Value.get? condition "node" = some (.str y) := by
  unfold depends_on at done
  split at done
  · rename_i plain
    cases done
    rw [plain]
    simp
  · rename_i condition gated
    split at done
    · rename_i node here
      cases done
      rw [gated]
      have only : (∃ c, some condition = some c ∧ Value.get? c "node" = some (.str y)) ↔ y = node := by
        constructor
        · rintro ⟨c,same,found⟩
          cases same
          rw [here] at found
          cases found
          rfl
        · rintro rfl
          exact ⟨condition,rfl,here⟩
      rw [only]
      split
      · rename_i known
        exact ⟨.inl,fun either => either.elim id fun same => same ▸ known⟩
      · rw [List.mem_append,List.mem_singleton]
    · cases done
    · cases done
    · rename_i no_text _ _ here
      cases done
      rw [gated]
      refine ⟨.inl,fun either => either.elim id ?_⟩
      rintro ⟨c,same,found⟩
      cases same
      rw [here] at found
      cases found
      exact absurd rfl (no_text y)
    · cases done

theorem export_node_ok {node_id : String} {node : FlowmeshNode} (done : export_node flowmesh_spec graph node_id = .ok node) :
    ∃ op, graph.nodes.get? node_id = some op ∧ node.name = op.node_id ∧
      ∀ y, y ∈ node.dependsOn ↔ held_back graph node_id y := by
  obtain ⟨op,found,done⟩ := bind_ok done
  obtain ⟨payload,turned,done⟩ := bind_ok done
  cases done
  obtain ⟨spec,_,turned⟩ := bind_ok turned
  obtain ⟨deps,waits,same⟩ := bind_ok turned
  cases same
  have there := Halo.op_of_ok.mp found
  refine ⟨op,there,rfl,fun y => ?_⟩
  dsimp only
  rw [List.mem_filter,decide_eq_true_eq,depends_on_ok waits]
  constructor
  · exact fun ⟨needed,present⟩ => ⟨op,there,present,needed⟩
  · intro ⟨op',found',present,needed⟩
    rw [there] at found'
    cases found'
    exact ⟨needed,present⟩

-- The exported nodes are those of the graph, in its order.
theorem exported_ok (named : ∀ nid op, graph.nodes.get? nid = some op → op.node_id = nid)
    (done : to_flowmesh_nodes flowmesh_spec graph = .ok nodes) : node_names_of nodes = graph.node_order ∧
      ∀ node ∈ nodes, ∀ y, y ∈ node.dependsOn ↔ held_back graph node.name y := by
  have pairs := mapM_ok.mp done
  have each : List.Forall₂ (fun nid node => node.name = nid ∧ ∀ y, y ∈ node.dependsOn ↔ held_back graph node.name y)
      graph.node_order nodes := by
    apply pairs.imp
    intro nid node exported
    obtain ⟨op,found,name,waits⟩ := export_node_ok exported
    have same := name.trans (named nid op found)
    exact ⟨same,fun y => same ▸ waits y⟩
  constructor
  · have same : List.Forall₂ (· = ·) graph.node_order (nodes.map FlowmeshNode.name) :=
      List.forall₂_map_right_iff.mpr (each.imp fun _ _ here => here.1.symm)
    rw [List.forall₂_eq_eq_eq] at same
    exact same.symm
  · intro node member
    obtain ⟨_,_,here⟩ := forall₂_right each member
    exact here.2

theorem exported_dependencies (named : ∀ nid op, graph.nodes.get? nid = some op → op.node_id = nid) (aligned : Aligned graph)
    (done : to_flowmesh_nodes flowmesh_spec graph = .ok nodes) (y x : String) :
    depends (node_names_of nodes) (node_dependencies nodes) y x ↔ held_back graph x y := by
  obtain ⟨names,waits⟩ := exported_ok named done
  have distinct : (node_names_of nodes).Nodup := names ▸ aligned.distinct
  have read : ∀ node ∈ nodes, (node_dependencies nodes).get? node.name = some node.dependsOn := fun node member =>
    Dict.get?_foldl_set FlowmeshNode.name FlowmeshNode.dependsOn Dict.empty distinct member
  constructor
  · intro ⟨needed,_,known⟩
    obtain ⟨node,member,rfl⟩ := List.mem_map.mp known
    rw [read node member] at needed
    exact (waits node member y).mp needed
  · intro ⟨op,found,present,needed⟩
    have known : x ∈ node_names_of nodes := names ▸ (aligned.members x).mpr (Dict.mem_keys_iff.mpr ⟨op,found⟩)
    obtain ⟨node,member,rfl⟩ := List.mem_map.mp known
    refine ⟨?_,names ▸ (aligned.members y).mpr present,known⟩
    rw [read node member]
    exact (waits node member y).mpr ⟨op,found,present,needed⟩

end

-- The hint reads the lists as the rewriting does.
theorem see_node_adds {node_names : List String} {worker node_name : String} {s after : Seen × List String}
    (done : see_node node_names worker s node_name = .ok after) :
    add_candidate node_names worker (s.1.node_to_workers,s.2) node_name = .ok (after.1.node_to_workers,after.2) := by
  unfold see_node at done
  unfold add_candidate
  split at done
  · cases done
  · rename_i fresh
    rw [if_neg fresh]
    split at done
    · cases done
    · rename_i known
      rw [if_neg known]
      dsimp only at done
      split at done
      · cases done
        rfl
      · cases done
        rfl

theorem see_nodes_add {node_names nodes : List String} {worker : String} {s after : Seen × List String}
    (done : nodes.foldlM (see_node node_names worker) s = .ok after) :
    nodes.foldlM (add_candidate node_names worker) (s.1.node_to_workers,s.2) = .ok (after.1.node_to_workers,after.2) := by
  induction nodes generalizing s with
  | nil =>
      cases done
      rfl
  | cons node_name rest ih =>
      rw [List.foldlM_cons] at done ⊢
      obtain ⟨next,first,later⟩ := bind_ok done
      rw [see_node_adds first]
      exact ih later

theorem see_entries_add {node_names : List String} {entries : List (String × List String)} {seen after : Seen}
    (done : entries.foldlM (see_worker node_names) seen = .ok after) :
    entries.foldlM (fun candidates entry => do
      let state ← entry.2.foldlM (add_candidate node_names entry.1) (candidates,[])
      pure state.1) seen.node_to_workers = .ok after.node_to_workers := by
  induction entries generalizing seen with
  | nil =>
      cases done
      rfl
  | cons entry rest ih =>
      rw [List.foldlM_cons] at done ⊢
      obtain ⟨next,first,later⟩ := bind_ok done
      obtain ⟨state,loop,rfl⟩ := map_ok first
      have added := see_nodes_add loop
      dsimp only at added
      rw [added]
      exact ih later

theorem seen_workers {worker_assignment : Workers} {node_names : List String} {seen : Seen}
    (done : see_workers worker_assignment node_names = .ok seen) (x : String) :
    seen.node_to_workers.get? x = listed_by worker_assignment.entries x := by
  have found := (@candidates_of_entries _ [] _ _ _ worker_assignment.keys_nodup (fun x => by simp [listed_by])
    (see_entries_add done)).1 x
  rwa [List.nil_append] at found

theorem listed_by_scheduled {worker_assignment : Workers} {x : String} (named : x ∈ scheduled worker_assignment) :
    ∃ workers, listed_by worker_assignment.entries x = some workers := by
  obtain ⟨nodes,member,here⟩ := List.mem_flatten.mp named
  obtain ⟨e,entry,rfl⟩ := List.mem_map.mp member
  have some_there : e.1 ∈ (worker_assignment.entries.filter fun entry => decide (x ∈ entry.2)).map Prod.fst :=
    List.mem_map.mpr ⟨e,List.mem_filter.mpr ⟨entry,decide_eq_true here⟩,rfl⟩
  unfold listed_by
  split
  · rename_i empty
    rw [empty] at some_there
    cases some_there
  · exact ⟨_,rfl⟩

-- The lists of the workers are read where they fit the nodes and cover them.
theorem collect_returns {worker_assignment : Workers} {node_names : List String} (fits : readable worker_assignment node_names)
    (covered : ∀ x ∈ node_names, x ∈ scheduled worker_assignment) :
    ∃ candidates, collect_node_worker_candidates worker_assignment node_names = .ok candidates := by
  obtain ⟨seen,named⟩ := (see_workers_accepts worker_assignment node_names).mpr fits
  have members : ∀ x, x ∈ seen.node_to_workers.keys ↔ x ∈ scheduled worker_assignment := by
    intro x
    rw [Dict.mem_keys_iff]
    constructor
    · intro ⟨workers,found⟩
      rw [seen_workers named] at found
      unfold listed_by at found
      split at found
      · cases found
      · rename_i some_there
        obtain ⟨w,listed⟩ := List.exists_mem_of_ne_nil _ (fun empty => some_there empty)
        obtain ⟨e,inside,_⟩ := List.mem_map.mp listed
        obtain ⟨entry,here⟩ := List.mem_filter.mp inside
        exact List.mem_flatten.mpr ⟨e.2,List.mem_map.mpr ⟨e,entry,rfl⟩,of_decide_eq_true here⟩
    · intro here
      obtain ⟨workers,listed⟩ := listed_by_scheduled here
      exact ⟨workers,(seen_workers named x).trans listed⟩
  have missing : sorted_names (node_names.filter (· ∉ seen.node_to_workers.keys)) = [] := by
    apply sorted_names_nil.mpr
    apply List.filter_eq_nil_iff.mpr
    intro x known
    simpa using (members x).mpr (covered x known)
  have extra : sorted_names (seen.node_to_workers.keys.filter (· ∉ node_names)) = [] := by
    apply sorted_names_nil.mpr
    apply List.filter_eq_nil_iff.mpr
    intro x present
    simpa using readable_scheduled fits x ((members x).mp present)
  refine ⟨seen.node_to_workers,?_⟩
  unfold collect_node_worker_candidates
  have loop := see_entries_add named
  dsimp only at loop
  rw [loop,ok_bind]
  dsimp only
  rw [if_neg (fun either => either.elim (fun some_there => some_there missing) fun some_there => some_there extra)]
  rfl

theorem add_nodes_returns {nodes : List FlowmeshNode} (labelled : ∀ node ∈ nodes, node.name ≠ "")
    (distinct : (node_names_of nodes).Nodup) (node_map : NodeMap) (fresh : ∀ node ∈ nodes, node.name ∉ node_map) :
    ∃ after, nodes.foldlM add_node node_map = .ok after := by
  induction nodes generalizing node_map with
  | nil => exact ⟨node_map,rfl⟩
  | cons node rest ih =>
      obtain ⟨label,labels⟩ := List.forall_mem_cons.mp labelled
      obtain ⟨new,news⟩ := List.forall_mem_cons.mp fresh
      obtain ⟨apart,others⟩ := List.nodup_cons.mp distinct
      obtain ⟨after,later⟩ := ih labels others (node_map.set node.name node) fun other member again => by
        rcases Dict.mem_keys_set.mp again with old | same
        · exact news other member old
        · exact apart (same ▸ List.mem_map.mpr ⟨other,member,rfl⟩)
      refine ⟨after,?_⟩
      rw [List.foldlM_cons]
      unfold add_node
      rw [if_neg label,if_neg new]
      exact later

-- Where no node is listed twice there is nothing to rewrite.
theorem rewrite_uncut {nodes : List FlowmeshNode} {worker_assignment : Workers} (labelled : ∀ node ∈ nodes, node.name ≠ "")
    (distinct : (node_names_of nodes).Nodup) (fits : readable worker_assignment (node_names_of nodes))
    (covered : ∀ x ∈ node_names_of nodes, x ∈ scheduled worker_assignment) (single : ∀ x, ¬ sharded worker_assignment x)
    (output_node_names : List String) :
    ∃ r, rewrite_nodes_for_shard_intent nodes worker_assignment output_node_names = .ok r ∧ r.nodes = nodes ∧
      r.worker_assignment = worker_assignment := by
  obtain ⟨node_map,named⟩ := add_nodes_returns labelled distinct Dict.empty fun node _ known => (by cases known)
  obtain ⟨entries,_⟩ := node_map_ok named
  have keys : node_map.keys = node_names_of nodes := by
    unfold Dict.keys node_names_of
    rw [entries,List.map_map]
    rfl
  have values : node_map.values = nodes := by
    unfold Dict.values
    rw [entries,List.map_map]
    exact List.map_id nodes
  obtain ⟨candidates,collected⟩ := collect_returns fits covered
  have none_cut : (explicit_shard_intent candidates).keys = [] := by
    apply List.eq_nil_iff_forall_not_mem.mpr
    intro x member
    obtain ⟨workers,found⟩ := Dict.mem_keys_iff.mp member
    exact single x ((explicit_iff (candidates_ok collected).1 x workers).mp found).1
  refine ⟨⟨node_map.values,worker_assignment,node_map.mapValues fun name _ => name⟩,?_,values,rfl⟩
  unfold rewrite_nodes_for_shard_intent
  rw [named,ok_bind,keys,collected,ok_bind]
  dsimp only
  rw [if_pos none_cut]
  rfl

section
variable {worker_assignment : Workers} {node_names : List String} (distinct : node_names.Nodup)
  (node_dependencies : Dict String (List String))
include distinct

theorem hint_read {ordered_nodes : List String} {candidates : Workers}
    (done : build_flat_schedule_hint worker_assignment node_names node_dependencies = .ok (ordered_nodes,candidates)) :
    HintOrdered worker_assignment node_names node_dependencies ordered_nodes ∧
      ∀ x ∈ node_names, candidates.get? x = some (listing_workers worker_assignment x) := by
  obtain ⟨seen,named,done⟩ := bind_ok done
  obtain ⟨_,checked,done⟩ := bind_ok done
  obtain ⟨edges,read,done⟩ := bind_ok done
  have fits := (see_workers_accepts worker_assignment node_names).mp ⟨seen,named⟩
  have ranked := see_workers_ranked named
  have inside : ∀ x ∈ seen.first_seen_rank.keys, x ∈ node_names := fun x ranks =>
    readable_scheduled fits x ((ranked.members x).mp ranks)
  have covered : ∀ x ∈ node_names, x ∈ scheduled worker_assignment := fun x known =>
    (ranked.members x).mp ((check_covered_ok inside).mp checked x known)
  dsimp only at done
  split at done
  · cases done
  · rename_i complete
    cases done
    refine ⟨hint_order_spec distinct read ranked covered (not_not.mp complete),fun x known => ?_⟩
    rw [Dict.get?_foldl_set_each (fun node_name => (seen.node_to_workers.get? node_name).getD []),if_pos known]
    obtain ⟨workers,listed⟩ := listed_by_scheduled (covered x known)
    rw [seen_workers named,listed,listed_by_some listed]
    rfl

theorem hint_built (fits : readable worker_assignment node_names) (covered : ∀ x ∈ node_names, x ∈ scheduled worker_assignment)
    (acyclic : ∀ x, ¬ TransGen (depends node_names node_dependencies) x x) :
    ∃ hint, build_flat_schedule_hint worker_assignment node_names node_dependencies = .ok hint := by
  obtain ⟨seen,named⟩ := (see_workers_accepts worker_assignment node_names).mpr fits
  have ranked := see_workers_ranked named
  have inside : ∀ x ∈ seen.first_seen_rank.keys, x ∈ node_names := fun x ranks =>
    readable_scheduled fits x ((ranked.members x).mp ranks)
  have checked := (check_covered_ok inside).mpr fun x known => (ranked.members x).mpr (covered x known)
  obtain ⟨edges,read⟩ := (hint_edges_accepts node_dependencies).mpr fun x self => acyclic x (.single self)
  have complete := hint_order_complete distinct read seen acyclic
  unfold build_flat_schedule_hint
  rw [named,ok_bind,checked,ok_bind,read,ok_bind]
  dsimp only
  rw [if_neg (not_not.mpr complete)]
  exact ⟨_,rfl⟩

end

end Lumilake.RuntimeManager

namespace Lumilake.Optimizer
open Fallible RuntimeManager Relation
variable {graph : RuntimeGraph} {suits : String → RuntimeOp → Prop} {workers : List String} {worker_assignment : RuntimeManager.Workers}

theorem Planned.once (planned : Planned graph suits workers worker_assignment) :
    (scheduled worker_assignment).Nodup ∧ ∀ x, x ∈ scheduled worker_assignment ↔ x ∈ graph.nodes.keys :=
  ⟨planned.nodes.nodup_iff.mpr graph.nodes.keys_nodup,fun _ => planned.nodes.mem_iff⟩

theorem Planned.rows (planned : Planned graph suits workers worker_assignment) :
    ∀ e ∈ worker_assignment.entries, e.2.Nodup ∧ ∀ x ∈ e.2, x ∈ graph.nodes.keys := by
  obtain ⟨distinct,members⟩ := planned.once
  intro e entry
  have listed : e.2 ∈ worker_assignment.values := List.mem_map.mpr ⟨e,entry,rfl⟩
  exact ⟨(List.nodup_flatten.mp distinct).1 e.2 listed,fun x member =>
    (members x).mp (List.mem_flatten.mpr ⟨e.2,listed,member⟩)⟩

-- One worker lists a node.
theorem Planned.listing (planned : Planned graph suits workers worker_assignment) {x : String} (present : x ∈ graph.nodes.keys) :
    ∃ w nids, listing_workers worker_assignment x = [w] ∧ worker_assignment.get? w = some nids ∧ x ∈ nids := by
  obtain ⟨distinct,members⟩ := planned.once
  obtain ⟨nids,listed,member⟩ := List.mem_flatten.mp ((members x).mpr present)
  obtain ⟨e,entry,rfl⟩ := List.mem_map.mp listed
  obtain ⟨front,back,split⟩ := List.append_of_mem entry
  refine ⟨e.1,e.2,?_,Dict.get?_eq_some.mpr entry,member⟩
  have apart : ∀ e' ∈ front ++ back, x ∉ e'.2 := by
    intro e' there again
    unfold scheduled Dict.values at distinct
    rw [split,List.map_append,List.map_cons,List.flatten_append,List.flatten_cons] at distinct
    obtain ⟨_,rest,early⟩ := List.nodup_append.mp distinct
    obtain ⟨_,_,late⟩ := List.nodup_append.mp rest
    rcases List.mem_append.mp there with before | after
    · exact early x (List.mem_flatten.mpr ⟨e'.2,List.mem_map.mpr ⟨e',before,rfl⟩,again⟩) x (List.mem_append_left _ member) rfl
    · exact late x member x (List.mem_flatten.mpr ⟨e'.2,List.mem_map.mpr ⟨e',after,rfl⟩,again⟩) rfl
  have none_in : ∀ entries, entries ⊆ front ++ back → entries.filter (fun entry => decide (x ∈ entry.2)) = [] :=
    fun entries inside => List.filter_eq_nil_iff.mpr fun e' there => by simpa using apart e' (inside there)
  unfold listing_workers
  rw [split,List.filter_append,List.filter_cons_of_pos (by simpa using member),none_in front (List.subset_append_left _ _),
    none_in back (List.subset_append_right _ _)]
  rfl

theorem Planned.readable (planned : Planned graph suits workers worker_assignment) {node_names : List String}
    (names : ∀ x, x ∈ node_names ↔ x ∈ graph.nodes.keys) : RuntimeManager.readable worker_assignment node_names :=
  fun e entry => ⟨(planned.rows e entry).1,fun x member => (names x).mpr ((planned.rows e entry).2 x member)⟩

-- The server's check of a schedule passes.
theorem Planned.accepted (repr : String → String) (planned : Planned graph suits workers worker_assignment)
    (labels : ∀ w ∈ workers, strip w ≠ "") (ids : ∀ nid ∈ graph.nodes.keys, strip nid ≠ "") :
    Server.PlanCache.validate_schedule repr ⟨worker_assignment⟩ workers graph.nodes.keys = .ok () := by
  have same_workers : Server.PlanCache.mismatch repr "Schedule workers must match selected worker group" workers
      worker_assignment.keys = .ok () :=
    if_pos ⟨fun w member => (planned.workers w).mpr member,fun w member => (planned.workers w).mp member⟩
  have read : Server.PlanCache.schedule_node_names repr worker_assignment = .ok (scheduled worker_assignment) := by
    have rows : (worker_assignment.entries.mapM fun row =>
        if Server.PlanCache.blank row.1 then Except.error "Invalid worker id in schedule mapping"
        else if row.2.any Server.PlanCache.blank then .error ("Invalid node id in schedule for worker " ++ repr row.1 ++ ".")
        else .ok row.2) = .ok (worker_assignment.entries.map Prod.snd) := by
      apply mapM_ok.mpr
      apply List.forall₂_map_right_iff.mpr
      apply List.forall₂_same.mpr
      intro row entry
      have listed : row.1 ∈ worker_assignment.keys := List.mem_map.mpr ⟨row,entry,rfl⟩
      rw [if_neg,if_neg]
      · intro some_blank
        obtain ⟨nid,member,empty⟩ := List.any_eq_true.mp some_blank
        exact ids nid ((planned.rows row entry).2 nid member) (of_decide_eq_true empty)
      · exact fun empty => labels row.1 ((planned.workers row.1).mp listed) (of_decide_eq_true empty)
    unfold Server.PlanCache.schedule_node_names
    rw [rows]
    rfl
  have same_nodes : Server.PlanCache.mismatch repr "Schedule must match runtime graph nodes" graph.nodes.keys
      (scheduled worker_assignment) = .ok () :=
    if_pos ⟨fun x member => (planned.once.2 x).mpr member,fun x member => (planned.once.2 x).mp member⟩
  have distinct : worker_assignment.entries.forM Server.PlanCache.no_duplicates = .ok () :=
    (forM_ok _).mpr fun row entry => if_pos (planned.rows row entry).1
  unfold Server.PlanCache.validate_schedule
  rw [same_workers,ok_bind,read,ok_bind]
  dsimp only
  rw [same_nodes]
  exact distinct

theorem Planned.unsharded (planned : Planned graph suits workers worker_assignment) (x : String) : ¬ sharded worker_assignment x := by
  intro several
  unfold sharded at several
  by_cases present : x ∈ graph.nodes.keys
  · obtain ⟨w,_,listed,_⟩ := planned.listing present
    rw [listed] at several
    exact Nat.lt_irrefl _ several
  · obtain ⟨w,rest,listed⟩ := List.exists_cons_of_ne_nil (List.ne_nil_of_length_pos (Nat.zero_lt_of_lt several))
    have member : w ∈ listing_workers worker_assignment x := listed ▸ List.mem_cons_self
    obtain ⟨e,inside,_⟩ := List.mem_map.mp member
    obtain ⟨entry,here⟩ := List.mem_filter.mp inside
    exact present ((planned.rows e entry).2 x (of_decide_eq_true here))

-- What is sent for a schedule: an order in which each node comes after those that hold it
-- back, and for each node the one worker that was chosen for it.
structure Dispatched (graph : RuntimeGraph) (worker_assignment : RuntimeManager.Workers) (ordered_nodes : List String)
    (selected : RuntimeManager.Workers) : Prop where
  nodes : ordered_nodes.Perm graph.nodes.keys
  order : Queues.Follows (held_back graph) ordered_nodes
  pinned : ∀ x ∈ graph.nodes.keys, ∃ w nids, selected.get? x = some [w] ∧ worker_assignment.get? w = some nids ∧ x ∈ nids

-- A plan passes the server's check, is not rewritten, and has a hint when the graph with its
-- conditions has no cycle.
theorem planned_dispatched {repr : String → String} {flowmesh_spec : String → Spec → Except String Spec} {nodes : List FlowmeshNode}
    (planned : Planned graph suits workers worker_assignment) (aligned : Aligned graph)
    (named : ∀ nid op, graph.nodes.get? nid = some op → op.node_id = nid) (labels : ∀ w ∈ workers, strip w ≠ "")
    (ids : ∀ nid ∈ graph.nodes.keys, strip nid ≠ "") (exported : to_flowmesh_nodes flowmesh_spec graph = .ok nodes)
    (output_node_names : List String) :
    Server.PlanCache.validate_schedule repr ⟨worker_assignment⟩ workers graph.nodes.keys = .ok () ∧
      ∃ r, rewrite_nodes_for_shard_intent nodes worker_assignment output_node_names = .ok r ∧ r.nodes = nodes ∧
        r.worker_assignment = worker_assignment ∧
        ((∃ hint, build_flat_schedule_hint r.worker_assignment (node_names_of r.nodes) (node_dependencies r.nodes) = .ok hint) ↔
          ∀ x, ¬ TransGen (held_back graph) x x) ∧
        ∀ ordered_nodes selected, build_flat_schedule_hint r.worker_assignment (node_names_of r.nodes)
          (node_dependencies r.nodes) = .ok (ordered_nodes,selected) → Dispatched graph worker_assignment ordered_nodes selected := by
  obtain ⟨names,_⟩ := exported_ok named exported
  have edges := exported_dependencies named aligned exported
  have distinct : (node_names_of nodes).Nodup := names ▸ aligned.distinct
  have members : ∀ x, x ∈ node_names_of nodes ↔ x ∈ graph.nodes.keys := fun x => names ▸ aligned.members x
  have fits := planned.readable members
  have covered : ∀ x ∈ node_names_of nodes, x ∈ scheduled worker_assignment := fun x known =>
    (planned.once.2 x).mpr ((members x).mp known)
  have labelled : ∀ node ∈ nodes, node.name ≠ "" := by
    intro node member empty
    have known := (members node.name).mp (List.mem_map.mpr ⟨node,member,rfl⟩)
    exact ids node.name known (by rw [empty]; rfl)
  refine ⟨planned.accepted repr labels ids,?_⟩
  obtain ⟨r,rewritten,same_nodes,same_lists⟩ := rewrite_uncut labelled distinct fits covered planned.unsharded output_node_names
  refine ⟨r,rewritten,same_nodes,same_lists,?_⟩
  rw [same_nodes,same_lists]
  refine ⟨⟨fun ⟨⟨ordered_nodes,selected⟩,built⟩ => ?_,fun acyclic => ?_⟩,fun ordered_nodes selected built => ?_⟩
  · obtain ⟨ordered,_⟩ := hint_read distinct _ built
    intro x cycle
    have backward : TransGen (depends (node_names_of nodes) (node_dependencies nodes)) x x :=
      TransGen.mono (fun a b held => (edges a b).mpr held) x x (transGen_swap.mpr cycle)
    exact ordered_acyclic distinct ordered x backward
  · apply hint_built distinct _ fits covered
    intro x cycle
    have forward : TransGen (Function.swap (held_back graph)) x x := TransGen.mono (fun a b needed => (edges a b).mp needed) x x cycle
    exact acyclic x (transGen_swap.mp forward)
  · obtain ⟨ordered,pinned⟩ := hint_read distinct _ built
    constructor
    · exact ordered.nodes.trans ((List.perm_ext_iff_of_nodup distinct graph.nodes.keys_nodup).mpr members)
    · exact fun front x back split y held => ordered.waited front x back split y ((edges y x).mpr held)
    · intro x present
      obtain ⟨w,nids,listed,found,here⟩ := planned.listing present
      exact ⟨w,nids,listed ▸ pinned x ((members x).mpr present),found,here⟩

def prompt_nodes : List FlowmeshNode :=
  [⟨"rows",[],[("taskType",.str "data_retrieval"),("data",.dict [])]⟩,⟨"answer",["rows"],[("taskType",.str "text"),("data",.dict [])]⟩]

theorem retrieval_dispatched : Server.PlanCache.validate_schedule id ⟨retrieval_on_cpu⟩ ["gpu-0","cpu-0"]
      retrieval_then_prompt.nodes.keys = .ok () ∧
    ∃ r, rewrite_nodes_for_shard_intent prompt_nodes retrieval_on_cpu [] = .ok r ∧ r.nodes = prompt_nodes ∧
      r.worker_assignment = retrieval_on_cpu ∧
      ((∃ hint, build_flat_schedule_hint r.worker_assignment (node_names_of r.nodes) (node_dependencies r.nodes) = .ok hint) ↔
        ∀ x, ¬ TransGen (held_back retrieval_then_prompt) x x) ∧
      ∀ ordered_nodes selected, build_flat_schedule_hint r.worker_assignment (node_names_of r.nodes)
        (node_dependencies r.nodes) = .ok (ordered_nodes,selected) →
          Dispatched retrieval_then_prompt retrieval_on_cpu ordered_nodes selected :=
  @planned_dispatched _ _ _ _ id (fun _ spec => .ok spec) _ retrieval_planned retrieval_aligned
    (fun nid op found => by
      rcases List.mem_cons.mp (Dict.get?_eq_some.mp found) with same | rest
      · cases same; rfl
      · cases List.mem_singleton.mp rest; rfl)
    (List.forall_iff_forall_mem.mp (by decide)) (List.forall_iff_forall_mem.mp (by decide)) rfl []

end Lumilake.Optimizer

import Lumilake.RuntimeManager.RewrittenSchedule
import Lumilake.RuntimeManager.ShardPlaceholders

namespace Lumilake.RuntimeManager
open Cuts Fallible Relation

def node_names_of (nodes : List FlowmeshNode) : List String := nodes.map FlowmeshNode.name

def waits_for (nodes : List FlowmeshNode) (dep node_id : String) : Prop :=
  ∃ node ∈ nodes, node.name = node_id ∧ dep ∈ node.dependsOn

-- What the hint is given for the nodes.
def node_dependencies (nodes : List FlowmeshNode) : Dict String (List String) :=
  nodes.foldl (fun d node => d.set node.name node.dependsOn) Dict.empty

-- A node keeps its name when one worker lists it, or when its shards are gathered again: it is an
-- output, or a node that keeps its name waits for it.
def keeps_name (nodes : List FlowmeshNode) (worker_assignment : Workers) (output_node_names : List String) (x : String) : Prop :=
  x ∈ node_names_of nodes ∧ (sharded worker_assignment x → x ∈ output_node_names ∨
    ∃ node ∈ nodes, ¬ sharded worker_assignment node.name ∧ x ∈ node.dependsOn)

def names_shard (nodes : List FlowmeshNode) (worker_assignment : Workers) (x : String) : Prop :=
  ∃ node_id idx, sharded worker_assignment node_id ∧ HasShard (nodes_by_name nodes) worker_assignment idx node_id ∧
    x = shard_name node_id idx

-- The names in a node's spec that its rewriting leaves as they are.
def unrenamed (nodes : List FlowmeshNode) (worker_assignment : Workers) (node : FlowmeshNode) : List String :=
  if sharded worker_assignment node.name then
    left_names (fun x => decide (¬ sharded worker_assignment x ∧ x ∈ node_names_of nodes)) (.dict node.spec)
  else names_in (.dict node.spec)

-- What is to hold of the rewritten graph and schedule. A name in a spec that names no node of the
-- graph given is left alone.
structure Consistent (nodes : List FlowmeshNode) (r : ShardRewriteResult) : Prop where
  distinct : (node_names_of r.nodes).Nodup
  assigned : ∀ node ∈ r.nodes, node.name ∈ scheduled r.worker_assignment
  waits : ∀ node ∈ r.nodes, ∀ dep ∈ node.dependsOn, dep ∈ node_names_of r.nodes
  placeholders : ∀ node ∈ r.nodes, ∀ x ∈ names_in (.dict node.spec), x ∈ node_names_of r.nodes ∨
    x ∉ node_names_of nodes ∧ ∃ raw ∈ nodes, x ∈ names_in (.dict raw.spec)
  hinted : ∃ hint, build_flat_schedule_hint r.worker_assignment (node_names_of r.nodes) (node_dependencies r.nodes) = .ok hint

structure Unambiguous (nodes : List FlowmeshNode) (worker_assignment : Workers) (output_node_names : List String) : Prop where
  names : ∀ x, keeps_name nodes worker_assignment output_node_names x → ¬ names_shard nodes worker_assignment x
  placeholders : ∀ node ∈ nodes, ∀ x ∈ unrenamed nodes worker_assignment node, x ∈ node_names_of nodes →
    keeps_name nodes worker_assignment output_node_names x ∨ names_shard nodes worker_assignment x

theorem depends_waits {nodes : List FlowmeshNode} (distinct : (node_names_of nodes).Nodup) {dep x : String}
    (edge : depends (node_names_of nodes) (node_dependencies nodes) dep x) : waits_for nodes dep x := by
  obtain ⟨needed,_,known⟩ := edge
  obtain ⟨node,member,rfl⟩ := List.mem_map.mp known
  unfold node_dependencies at needed
  rw [Dict.get?_foldl_set FlowmeshNode.name FlowmeshNode.dependsOn Dict.empty distinct member] at needed
  exact ⟨node,member,rfl,needed⟩

-- The hint is returned for a readable schedule that covers a graph with a rank.
theorem hint_returned {nodes : List FlowmeshNode} {worker_assignment : Workers} {rank : String → Nat}
    (distinct : (node_names_of nodes).Nodup) (fits : readable worker_assignment (node_names_of nodes))
    (covered : ∀ x ∈ node_names_of nodes, x ∈ scheduled worker_assignment)
    (ranked : ∀ node ∈ nodes, ∀ dep ∈ node.dependsOn, rank dep < rank node.name) :
    ∃ hint, build_flat_schedule_hint worker_assignment (node_names_of nodes) (node_dependencies nodes) = .ok hint := by
  refine (flat_schedule_hint worker_assignment distinct (node_dependencies nodes)).1.mpr ⟨fits,covered,?_⟩
  refine Ranking.acyclic_of_rank rank fun dep x edge => ?_
  obtain ⟨node,member,rfl,needed⟩ := depends_waits distinct edge
  exact ranked node member dep needed

-- The parts of a run in which some node is cut.
structure CutRun (nodes : List FlowmeshNode) (worker_assignment : Workers) (output_node_names : List String)
    (candidates : Workers) (order : List String) (plan : ShardPlan) (groups : List (String × List FlowmeshNode))
    (rewritten : Workers) : Prop where
  ordered : build_shard_rewrite_topological_order (nodes_by_name nodes) = .ok order
  planned : order.foldlM (plan_node (nodes_by_name nodes) (explicit_shard_intent candidates))
    ⟨Dict.empty,Dict.empty,candidates⟩ = .ok plan
  grouped : (nodes_by_name nodes).entries.mapM (rewrite_node (nodes_by_name nodes) plan
    (compute_merge_required_nodes (nodes_by_name nodes) plan.shard_nodes_by_raw output_node_names)) = .ok groups
  assigned : ∃ pruned_to node_candidates, rewrite_worker_assignment_for_shards
    (prune_worker_assignment_to_candidates worker_assignment pruned_to) plan.shard_nodes_by_raw node_candidates
    (compute_merge_required_nodes (nodes_by_name nodes) plan.shard_nodes_by_raw output_node_names) = .ok rewritten
  covered : uncovered (groups.flatMap Prod.snd) rewritten = []

theorem rewrite_ok {nodes : List FlowmeshNode} {worker_assignment : Workers} {output_node_names : List String}
    {r : ShardRewriteResult} (done : rewrite_nodes_for_shard_intent nodes worker_assignment output_node_names = .ok r) :
    (nodes_by_name nodes).entries = nodes.map (fun node => (node.name,node)) ∧
      ∃ candidates, collect_node_worker_candidates worker_assignment (nodes_by_name nodes).keys = .ok candidates ∧
        ((explicit_shard_intent candidates).keys = [] ∧ r.nodes = nodes ∧ r.worker_assignment = worker_assignment ∨
          ∃ order plan groups rewritten, CutRun nodes worker_assignment output_node_names candidates order plan groups rewritten ∧
            r.nodes = groups.flatMap Prod.snd ∧ r.worker_assignment = rewritten) := by
  unfold rewrite_nodes_for_shard_intent at done
  obtain ⟨node_map,named,done⟩ := bind_ok done
  obtain ⟨entries,rfl⟩ := node_map_ok named
  obtain ⟨candidates,collected,done⟩ := bind_ok done
  refine ⟨entries,candidates,collected,?_⟩
  dsimp only at done
  split at done
  · rename_i uncut
    cases done
    refine .inl ⟨uncut,?_,rfl⟩
    unfold Dict.values
    rw [entries,List.map_map]
    exact List.map_id nodes
  · obtain ⟨order,ordered,done⟩ := bind_ok done
    obtain ⟨plan,planned,done⟩ := bind_ok done
    unfold rewrite_planned at done
    obtain ⟨groups,grouped,done⟩ := bind_ok done
    obtain ⟨rewritten,assigned,done⟩ := bind_ok done
    split at done
    · cases done
    · rename_i covered
      cases done
      exact .inr ⟨order,plan,groups,rewritten,⟨ordered,planned,grouped,⟨_,_,assigned⟩,not_not.mp covered⟩,rfl,rfl⟩

theorem keys_of_entries {nodes : List FlowmeshNode} (entries : (nodes_by_name nodes).entries = nodes.map fun node => (node.name,node)) :
    (nodes_by_name nodes).keys = node_names_of nodes := by
  unfold Dict.keys node_names_of
  rw [entries,List.map_map]
  rfl

section
variable {nodes : List FlowmeshNode} {worker_assignment : Workers} {output_node_names : List String} {candidates : Workers}
  {order : List String} {plan : ShardPlan} {groups : List (String × List FlowmeshNode)} {rewritten : Workers}
  (entries : (nodes_by_name nodes).entries = nodes.map fun node => (node.name,node))
  (waits : ∀ node ∈ nodes, ∀ dep ∈ node.dependsOn, dep ∈ node_names_of nodes)
  (collected : collect_node_worker_candidates worker_assignment (nodes_by_name nodes).keys = .ok candidates)
include entries

theorem node_of_entry (found : (nodes_by_name nodes).get? x = some node) : node ∈ nodes ∧ node.name = x := by
  have member := Dict.get?_eq_some.mp found
  rw [entries] at member
  obtain ⟨own,inside,same⟩ := List.mem_map.mp member
  cases same
  exact ⟨inside,rfl⟩

include collected

theorem listed_known (cut : sharded worker_assignment x) : x ∈ node_names_of nodes := by
  unfold sharded listing_workers at cut
  have filled : (worker_assignment.entries.filter fun entry => x ∈ entry.2) ≠ [] := by
    intro empty
    rw [empty] at cut
    cases cut
  obtain ⟨e,member⟩ := List.exists_mem_of_ne_nil _ filled
  obtain ⟨entry,listed⟩ := List.mem_filter.mp member
  rw [← keys_of_entries entries]
  exact ((candidates_ok collected).2.1 e entry).2 x (of_decide_eq_true listed)

include waits

theorem run_planned (run : CutRun nodes worker_assignment output_node_names candidates order plan groups rewritten) :
    Planned (nodes_by_name nodes) worker_assignment candidates (node_names_of nodes) plan := by
  obtain ⟨perm,sorted⟩ := shard_order_spec run.ordered
  have planned := plan_nodes (candidates_ok collected).1 (perm.nodup_iff.mpr (nodes_by_name nodes).keys_nodup)
    (fun x member => perm.mem_iff.mp member) (fun front x back split node found dep needed => by
      obtain ⟨member,_⟩ := node_of_entry entries found
      refine sorted front x back split node found dep needed ?_
      rw [keys_of_entries entries]
      exact waits node member dep needed) run.planned
  have same : ∀ x, x ∈ order ↔ x ∈ node_names_of nodes := fun x => by rw [perm.mem_iff,keys_of_entries entries]
  exact ⟨fun x => by rw [planned.names,same],fun x => by rw [planned.partitions,same],
    fun x known cut => planned.cut x ((same x).mpr known) cut,planned.uncut⟩

variable (planned : Planned (nodes_by_name nodes) worker_assignment candidates (node_names_of nodes) plan)
include planned
omit waits

theorem plan_keys (x : String) : x ∈ plan.shard_nodes_by_raw.keys ↔ sharded worker_assignment x := by
  rw [planned.names]
  exact ⟨And.right,fun cut => ⟨listed_known entries collected cut,cut⟩⟩

omit entries collected in
theorem plan_numbered : ShardNames plan.shard_nodes_by_raw := by
  refine ⟨fun a names found => ?_⟩
  have cut := (planned.names a).mp (Dict.mem_keys_iff.mpr ⟨names,found⟩)
  obtain ⟨count,total,held⟩ := planned.cut a cut.1 cut.2
  exact ⟨count,Option.some.inj (found.symm.trans held.names)⟩

theorem is_shard_iff (x : String) : is_shard plan.shard_nodes_by_raw x ↔ names_shard nodes worker_assignment x := by
  constructor
  · rintro ⟨a,names,found,here⟩
    have cut := (planned.names a).mp (Dict.mem_keys_iff.mpr ⟨names,found⟩)
    obtain ⟨count,total,held⟩ := planned.cut a cut.1 cut.2
    cases found.symm.trans held.names
    obtain ⟨idx,bound,rfl⟩ := List.mem_map.mp here
    exact ⟨a,idx,cut.2,(held.shards idx).mp (List.mem_range.mp bound),rfl⟩
  · rintro ⟨a,idx,cut,has,rfl⟩
    obtain ⟨count,total,held⟩ := planned.cut a (listed_known entries collected cut) cut
    exact ⟨a,_,held.names,List.mem_map_of_mem (List.mem_range.mpr ((held.shards idx).mpr has))⟩

theorem stays_iff (x : String) (known : x ∈ node_names_of nodes) :
    stays plan.shard_nodes_by_raw (compute_merge_required_nodes (nodes_by_name nodes) plan.shard_nodes_by_raw output_node_names) x ↔
      keeps_name nodes worker_assignment output_node_names x := by
  unfold stays keeps_name
  rw [Dict.mem_def,plan_keys entries collected planned,merge_required_iff,Dict.mem_def,plan_keys entries collected planned]
  have waiting : (∃ e ∈ (nodes_by_name nodes).entries, e.1 ∉ plan.shard_nodes_by_raw ∧ x ∈ e.2.dependsOn) ↔
      ∃ node ∈ nodes, ¬ sharded worker_assignment node.name ∧ x ∈ node.dependsOn := by
    rw [entries]
    constructor
    · rintro ⟨e,member,uncut,needed⟩
      obtain ⟨node,inside,rfl⟩ := List.mem_map.mp member
      exact ⟨node,inside,fun cut => uncut ((plan_keys entries collected planned _).mpr cut),needed⟩
    · rintro ⟨node,inside,uncut,needed⟩
      exact ⟨_,List.mem_map_of_mem inside,fun cut => uncut ((plan_keys entries collected planned _).mp cut),needed⟩
  rw [waiting]
  exact ⟨fun kept => ⟨known,fun cut => (kept cut).2⟩,fun kept cut => ⟨cut,kept.2 cut⟩⟩

theorem uncut_eq : uncut_in (nodes_by_name nodes) plan.shard_nodes_by_raw =
    fun x => decide (¬ sharded worker_assignment x ∧ x ∈ node_names_of nodes) := by
  funext x
  unfold uncut_in
  rw [← Bool.decide_and]
  refine decide_eq_decide.mpr (and_congr (not_congr (plan_keys entries collected planned x)) ?_)
  rw [Dict.mem_def,keys_of_entries entries]

variable (grouped : (nodes_by_name nodes).entries.mapM (rewrite_node (nodes_by_name nodes) plan
  (compute_merge_required_nodes (nodes_by_name nodes) plan.shard_nodes_by_raw output_node_names)) = .ok groups)
include grouped

omit collected planned in
theorem rewritten_names : node_names_of (groups.flatMap Prod.snd) = (node_names_of nodes).flatMap (new_names plan.shard_nodes_by_raw
    (compute_merge_required_nodes (nodes_by_name nodes) plan.shard_nodes_by_raw output_node_names)) := by
  unfold node_names_of
  rw [groups_names (fun e member => ?_) (mapM_ok.mp grouped),← Dict.keys,keys_of_entries entries]
  · rfl
  · rw [entries] at member
    obtain ⟨node,_,rfl⟩ := List.mem_map.mp member
    rfl

theorem mem_rewritten_names (x : String) : x ∈ node_names_of (groups.flatMap Prod.snd) ↔
    keeps_name nodes worker_assignment output_node_names x ∨ names_shard nodes worker_assignment x := by
  rw [rewritten_names entries grouped,List.mem_flatMap]
  constructor
  · rintro ⟨a,known,member⟩
    rcases mem_new_names.mp member with ⟨names,found,here⟩ | ⟨rfl,kept⟩
    · exact .inr ((is_shard_iff entries collected planned x).mp ⟨a,names,found,here⟩)
    · exact .inl ((stays_iff entries collected planned x known).mp kept)
  · rintro (kept | shard)
    · exact ⟨x,kept.1,mem_new_names.mpr (.inr ⟨rfl,(stays_iff entries collected planned x kept.1).mpr kept⟩)⟩
    · obtain ⟨a,names,found,here⟩ := (is_shard_iff entries collected planned x).mpr shard
      have cut := (plan_keys entries collected planned a).mp (Dict.mem_keys_iff.mpr ⟨names,found⟩)
      exact ⟨a,listed_known entries collected cut,mem_new_names.mpr (.inl ⟨names,found,here⟩)⟩

theorem names_distinct_iff : (node_names_of (groups.flatMap Prod.snd)).Nodup ↔
    ∀ x, keeps_name nodes worker_assignment output_node_names x → ¬ names_shard nodes worker_assignment x := by
  have distinct : (node_names_of nodes).Nodup := by
    rw [← keys_of_entries entries]
    exact (nodes_by_name nodes).keys_nodup
  have raw : ∀ a ∈ plan.shard_nodes_by_raw.keys, a ∈ node_names_of nodes := fun a member => ((planned.names a).mp member).1
  rw [rewritten_names entries grouped,new_names_distinct (plan_numbered planned) distinct raw]
  constructor
  · intro clear x kept shard
    exact clear x kept.1 ((stays_iff entries collected planned x kept.1).mpr kept) ((is_shard_iff entries collected planned x).mpr shard)
  · intro clear x known kept shard
    exact clear x ((stays_iff entries collected planned x known).mp kept) ((is_shard_iff entries collected planned x).mp shard)

omit grouped in
-- A name that names no shard is not mistaken for a node that is not cut.
theorem names_apart (clear : ∀ x, keeps_name nodes worker_assignment output_node_names x → ¬ names_shard nodes worker_assignment x) :
    Apart (uncut_in (nodes_by_name nodes) plan.shard_nodes_by_raw) plan.shard_nodes_by_raw := by
  rw [uncut_eq entries collected planned]
  refine ⟨fun x member => decide_eq_false fun uncut => uncut.1 ((plan_keys entries collected planned x).mp member),
    fun a names x found here => decide_eq_false fun uncut => ?_⟩
  exact clear x ⟨uncut.2,fun cut => absurd cut uncut.1⟩ ((is_shard_iff entries collected planned x).mp ⟨a,names,found,here⟩)

-- The nodes of one raw node, as they stand among the rewritten ones.
theorem kept_node {node : FlowmeshNode} (member : node ∈ nodes) (uncut : ¬ sharded worker_assignment node.name) :
    node ∈ groups.flatMap Prod.snd := by
  have entry : (node.name,node) ∈ (nodes_by_name nodes).entries := entries ▸ List.mem_map_of_mem member
  obtain ⟨group,there,done⟩ := forall₂_left (mapM_ok.mp grouped) entry
  obtain ⟨_,⟨_,kept⟩ | ⟨names,_,_,found,_⟩⟩ := rewrite_node_ok done
  · exact List.mem_flatMap.mpr ⟨group,there,kept ▸ List.mem_singleton.mpr rfl⟩
  · exact absurd ((plan_keys entries collected planned _).mp (Dict.mem_keys_iff.mpr ⟨names,found⟩)) uncut

omit collected in
theorem shard_nodes {node : FlowmeshNode} (member : node ∈ nodes) (cut : sharded worker_assignment node.name) :
    ∃ count total, Consecutive 0 (build_index_partitions total count) total ∧ 0 < count ∧
      (build_index_partitions total count).length = count ∧
      ∀ interval ∈ build_index_partitions total count, ∃ s shard, CutBy (build_index_partitions total count) total s interval ∧
        shard ∈ groups.flatMap Prod.snd ∧
        rewrite_shard_spec (nodes_by_name nodes) s plan.shard_nodes_by_raw node.spec = .ok shard.spec := by
  have entry : (node.name,node) ∈ (nodes_by_name nodes).entries := entries ▸ List.mem_map_of_mem member
  obtain ⟨group,there,done⟩ := forall₂_left (mapM_ok.mp grouped) entry
  obtain ⟨count,total,held⟩ := planned.cut node.name (List.mem_map_of_mem member) cut
  obtain ⟨consecutive,length⟩ := partitions_consecutive (rows_pos held.rows) held.filled held.covered
  refine ⟨count,total,consecutive,held.filled,length,fun interval here => ?_⟩
  obtain ⟨_,⟨missing,_⟩ | ⟨names,partitions,shards,found,parts,fits,built,made⟩⟩ := rewrite_node_ok done
  · cases missing.symm.trans held.names
  · cases parts.symm.trans held.partitions
    obtain ⟨idx,bound,rfl⟩ := List.mem_iff_getElem.mp here
    have inside : idx < names.length := fits ▸ bound
    have pair : ((names[idx],(build_index_partitions total count)[idx]),idx) ∈
        (names.zip (build_index_partitions total count)).zipIdx := by
      refine List.mk_mem_zipIdx_iff_getElem?.mpr (List.getElem?_zip_eq_some.mpr ⟨?_,?_⟩)
      · exact List.getElem?_eq_getElem inside
      · exact List.getElem?_eq_getElem bound
    obtain ⟨shard,new,turned⟩ := forall₂_left built pair
    have stop : partitions_stop (build_index_partitions total count) = total := by
      have some_parts : build_index_partitions total count ≠ [] := List.ne_nil_of_mem here
      unfold partitions_stop
      rw [List.getLast?_eq_some_getLast some_parts]
      exact consecutive.last some_parts
    obtain ⟨_,_,spec⟩ := build_shard_node_ok turned
    refine ⟨_,shard,⟨here,rfl,rfl,stop⟩,List.mem_flatMap.mpr ⟨group,there,?_⟩,spec⟩
    rw [made]
    exact List.mem_append_left _ new

end

section
variable {nodes : List FlowmeshNode} {worker_assignment : Workers} {output_node_names : List String} {candidates : Workers}
  {order : List String} {plan : ShardPlan} {groups : List (String × List FlowmeshNode)} {rewritten : Workers}
  (entries : (nodes_by_name nodes).entries = nodes.map fun node => (node.name,node))
  (waits : ∀ node ∈ nodes, ∀ dep ∈ node.dependsOn, dep ∈ node_names_of nodes)
  (collected : collect_node_worker_candidates worker_assignment (nodes_by_name nodes).keys = .ok candidates)
  (run : CutRun nodes worker_assignment output_node_names candidates order plan groups rewritten)
include entries waits collected run

omit entries waits collected in
theorem run_covered : ∀ node ∈ groups.flatMap Prod.snd, node.name ∈ scheduled rewritten := by
  intro node member
  have all := List.filter_eq_nil_iff.mp (sorted_names_nil.mp run.covered) node.name (List.mem_map_of_mem member)
  simpa [scheduled] using all

theorem run_readable : readable rewritten (node_names_of (groups.flatMap Prod.snd)) := by
  have planned := run_planned entries waits collected run
  obtain ⟨pruned_to,node_candidates,assigned⟩ := run.assigned
  have inside := mem_rewritten_names entries collected planned run.grouped
  refine rewritten_assignment_fits (fun x shard => ?_) (fun x merged => ?_) (fun e member x listed uncut => ?_) assigned
  · exact (inside x).mpr (.inr ((is_shard_iff entries collected planned x).mp shard))
  · have known := ((planned.names x).mp ((merge_required_iff _ _ _ x).mp merged).1).1
    exact (inside x).mpr (.inl ((stays_iff entries collected planned x known).mp fun _ => merged))
  · obtain ⟨entry,given,rfl⟩ := List.mem_map.mp member
    rcases pruned_sub listed with old | here
    · cases old
    · have known := ((candidates_ok collected).2.1 entry given).2 x here
      rw [keys_of_entries entries] at known
      exact (inside x).mpr (.inl ((stays_iff entries collected planned x known).mp fun cut => absurd cut uncut))

theorem run_waits (clear : ∀ x, keeps_name nodes worker_assignment output_node_names x → ¬ names_shard nodes worker_assignment x)
    {rank : String → Nat} (ranked : ∀ dep x, waits_for nodes dep x → rank dep < rank x) :
    ∃ rank' : String → Nat, ∀ node ∈ groups.flatMap Prod.snd, ∀ dep ∈ node.dependsOn,
      dep ∈ node_names_of (groups.flatMap Prod.snd) ∧ rank' dep < rank' node.name := by
  have planned := run_planned entries waits collected run
  have built := mapM_ok.mp run.grouped
  have names : (nodes_by_name nodes).entries.map Prod.fst = node_names_of nodes := keys_of_entries entries
  have of_entry : ∀ e ∈ (nodes_by_name nodes).entries, e.2 ∈ nodes ∧ e.2.name = e.1 := by
    intro e member
    rw [entries] at member
    obtain ⟨node,inside,rfl⟩ := List.mem_map.mp member
    exact ⟨inside,rfl⟩
  obtain ⟨rank',shards,others⟩ := new_rank (plan_numbered planned) rank
  refine ⟨rank',fun node member dep needed => ?_⟩
  obtain ⟨e,entry,origin⟩ := new_node built member
  rw [rewritten_names entries run.grouped,← names]
  refine new_node_waits shards others (fun x known kept => ?_) (fun e member dep needed => ?_) (fun e member => (of_entry e member).2)
    (fun e member uncut dep needed cut => ?_) entry origin dep needed
  · rw [names] at known
    intro shard
    exact clear x ((stays_iff entries collected planned x known).mp kept) ((is_shard_iff entries collected planned x).mp shard)
  · obtain ⟨inside,own⟩ := of_entry e member
    rw [names]
    exact ⟨waits e.2 inside dep needed,ranked dep e.1 ⟨e.2,inside,own,needed⟩⟩
  · exact (merge_required_iff _ _ _ dep).mpr ⟨cut,.inr ⟨e,member,uncut,needed⟩⟩

-- The names in the specs of the rewritten nodes.
theorem run_placeholders (clear : Unambiguous nodes worker_assignment output_node_names) {node : FlowmeshNode}
    (member : node ∈ groups.flatMap Prod.snd) {x : String} (named : x ∈ names_in (.dict node.spec)) :
    x ∈ node_names_of (groups.flatMap Prod.snd) ∨ x ∉ node_names_of nodes ∧ ∃ raw ∈ nodes, x ∈ names_in (.dict raw.spec) := by
  have planned := run_planned entries waits collected run
  have inside := mem_rewritten_names entries collected planned run.grouped
  have left_alone : ∀ raw ∈ nodes, x ∈ unrenamed nodes worker_assignment raw → x ∈ names_in (.dict raw.spec) →
      x ∈ node_names_of (groups.flatMap Prod.snd) ∨ x ∉ node_names_of nodes ∧ ∃ raw ∈ nodes, x ∈ names_in (.dict raw.spec) := by
    intro raw here left own
    by_cases known : x ∈ node_names_of nodes
    · exact .inl ((inside x).mpr (clear.placeholders raw here x left known))
    · exact .inr ⟨known,raw,here,own⟩
  obtain ⟨e,entry,origin⟩ := new_node (mapM_ok.mp run.grouped) member
  obtain ⟨raw_member,same⟩ : e.2 ∈ nodes ∧ e.2.name = e.1 := by
    rw [entries] at entry
    obtain ⟨raw,here,rfl⟩ := List.mem_map.mp entry
    exact ⟨here,rfl⟩
  cases origin with
  | kept uncut =>
      refine left_alone e.2 raw_member ?_ named
      have plain : ¬ sharded worker_assignment e.2.name := fun cut => uncut (same ▸ (plan_keys entries collected planned _).mpr cut)
      unfold unrenamed
      rw [if_neg plain]
      exact named
  | @shard _ partitions _ _ interval found parts _ part _ spec =>
      have cut := (plan_keys entries collected planned e.1).mp (Dict.mem_keys_iff.mpr ⟨_,found⟩)
      obtain ⟨count,total,held⟩ := planned.cut e.1 (same ▸ List.mem_map_of_mem raw_member) cut
      cases parts.symm.trans held.partitions
      have consecutive := (partitions_consecutive (rows_pos held.rows) held.filled held.covered).1
      have filled := (consecutive.bounds (List.mem_of_getElem? part)).2.1
      have apart := names_apart entries collected planned clear.names
      rcases shard_spec_names apart filled spec named with left | ⟨y,own,renamed⟩
      · refine left_alone e.2 raw_member ?_ (left_sub _ left)
        unfold unrenamed
        rw [if_pos (same ▸ cut),← uncut_eq entries collected planned]
        exact left
      · unfold shard_reference at renamed
        split at renamed
        · rename_i missing
          cases renamed
          have uncut : ¬ sharded worker_assignment x := fun cut =>
            Dict.get?_eq_none.mp missing ((plan_keys entries collected planned x).mpr cut)
          by_cases known : x ∈ node_names_of nodes
          · exact .inl ((inside x).mpr (.inl ⟨known,fun cut => absurd cut uncut⟩))
          · exact .inr ⟨known,e.2,raw_member,(names_in_iff _).mpr (.inl own)⟩
        · rename_i names known
          split at renamed
          · rename_i name here
            cases renamed
            exact .inl ((inside _).mpr (.inr ((is_shard_iff entries collected planned _).mp
              ⟨y,names,known,List.mem_of_getElem? here⟩)))
          · cases renamed
  | merge found _ =>
      exact .inl ((inside x).mpr (.inr ((is_shard_iff entries collected planned x).mp ⟨e.1,_,found,merge_names named⟩)))

end

-- The rewritten graph and schedule fit together when no node that keeps its name has the name of a
-- shard, and no name that the rewriting leaves in a spec is that of a node that is gone.
theorem rewrite_consistent_iff {nodes : List FlowmeshNode} {worker_assignment : Workers} {output_node_names : List String}
    {r : ShardRewriteResult} (keys : ∀ node ∈ nodes, keyed (.dict node.spec) = true)
    (waits : ∀ node ∈ nodes, ∀ dep ∈ node.dependsOn, dep ∈ node_names_of nodes)
    (acyclic : ∀ x, ¬ TransGen (waits_for nodes) x x)
    (done : rewrite_nodes_for_shard_intent nodes worker_assignment output_node_names = .ok r) :
    Consistent nodes r ↔ Unambiguous nodes worker_assignment output_node_names := by
  obtain ⟨rank,ranked⟩ := Ranking.rank_of_acyclic
    (fun dep x ⟨node,member,_,needed⟩ => waits node member dep needed) acyclic
  obtain ⟨entries,candidates,collected,⟨uncut,same,kept⟩ | ⟨order,plan,groups,rewritten,run,same,kept⟩⟩ := rewrite_ok done
  · have plain : ∀ x, ¬ sharded worker_assignment x := by
      intro x cut
      have found := (explicit_iff (candidates_ok collected).1 x _).mpr ⟨cut,rfl⟩
      have member := Dict.mem_keys_iff.mpr ⟨_,found⟩
      rw [uncut] at member
      cases member
    refine iff_of_true ?_ ⟨fun x _ ⟨a,_,cut,_⟩ => plain a cut,fun node _ x _ known => .inl ⟨known,fun cut => absurd cut (plain x)⟩⟩
    have distinct : (node_names_of nodes).Nodup := by
      rw [← keys_of_entries entries]
      exact (nodes_by_name nodes).keys_nodup
    have covered : ∀ x ∈ node_names_of nodes, x ∈ scheduled worker_assignment := by
      intro x known
      rw [← keys_of_entries entries] at known
      obtain ⟨found,_,complete⟩ := candidates_ok collected
      obtain ⟨workers,here⟩ := Dict.mem_keys_iff.mp (complete x known)
      rw [found] at here
      unfold listed_by at here
      split at here
      · cases here
      · rename_i some_workers
        have filled : (worker_assignment.entries.filter fun entry => x ∈ entry.2) ≠ [] := fun empty =>
          some_workers (by rw [empty]; rfl)
        obtain ⟨e,member⟩ := List.exists_mem_of_ne_nil _ filled
        obtain ⟨entry,listed⟩ := List.mem_filter.mp member
        exact List.mem_flatten.mpr ⟨e.2,List.mem_map_of_mem entry,of_decide_eq_true listed⟩
    have fits : readable worker_assignment (node_names_of nodes) := by
      rw [← keys_of_entries entries]
      exact (candidates_ok collected).2.1
    refine ⟨?_,?_,?_,?_,?_⟩ <;> rw [same]
    · exact distinct
    · intro node member
      rw [kept]
      exact covered node.name (List.mem_map_of_mem member)
    · exact waits
    · intro node member x named
      by_cases known : x ∈ node_names_of nodes
      · exact .inl known
      · exact .inr ⟨known,node,member,named⟩
    · rw [kept]
      exact hint_returned distinct fits covered fun node member dep needed => ranked dep node.name ⟨node,member,rfl,needed⟩
  · have planned := run_planned entries waits collected run
    have inside := mem_rewritten_names entries collected planned run.grouped
    constructor
    · intro fit
      have clear := (names_distinct_iff entries collected planned run.grouped).mp (same ▸ fit.distinct)
      refine ⟨clear,fun node member x left known => (inside x).mp ?_⟩
      unfold unrenamed at left
      have settled : ∀ node' ∈ groups.flatMap Prod.snd, x ∈ names_in (.dict node'.spec) →
          x ∈ node_names_of (groups.flatMap Prod.snd) := by
        intro node' there named
        rcases fit.placeholders node' (same ▸ there) x named with here | ⟨unknown,_⟩
        · exact same ▸ here
        · exact absurd known unknown
      split at left
      · rename_i cut
        rw [← uncut_eq entries collected planned] at left
        obtain ⟨count,total,consecutive,filled,length,each⟩ := shard_nodes entries planned run.grouped member cut
        have some_parts : build_index_partitions total count ≠ [] := by
          intro empty
          rw [empty] at length
          exact absurd length.symm filled.ne'
        obtain ⟨interval,part,stays⟩ := shard_spec_keeps consecutive some_parts (names_apart entries collected planned clear)
          (keys node member) left
        obtain ⟨s,shard,by_cut,there,spec⟩ := each interval part
        exact settled shard there (stays s by_cut shard.spec spec)
      · rename_i plain
        exact settled node (kept_node entries collected planned run.grouped member plain) left
    · intro clear
      have distinct := (names_distinct_iff entries collected planned run.grouped).mpr clear.names
      have covered := run_covered run
      obtain ⟨rank',waited⟩ := run_waits entries waits collected run clear.names ranked
      refine ⟨?_,?_,?_,?_,?_⟩ <;> rw [same]
      · exact distinct
      · rw [kept]
        exact covered
      · exact fun node member dep needed => (waited node member dep needed).1
      · exact fun node member x named => run_placeholders entries waits collected run clear member named
      · rw [kept]
        refine hint_returned distinct (run_readable entries waits collected run) (fun x known => ?_)
          fun node member dep needed => (waited node member dep needed).2
        obtain ⟨node,member,rfl⟩ := List.mem_map.mp known
        exact covered node member

-- A node of two rows on two workers, and what gathers it on the first.
def two_rows : Spec := [("data",.dict [("type",.str "list"),("items",.list [.int 1,.int 2])])]
def cut_then_gathered : List FlowmeshNode := [⟨"a",[],two_rows⟩,⟨"b",["a"],[]⟩]
def on_two_workers (second : String) : Workers := (Dict.empty.set "gpu-0" ["a",second]).set "gpu-1" ["a"]

theorem cut_then_gathered_acyclic (x : String) : ¬ TransGen (waits_for cut_then_gathered) x x := by
  refine Ranking.acyclic_of_rank (fun x => if x = "b" then 1 else 0) (fun dep x edge => ?_) x
  obtain ⟨node,member,rfl,needed⟩ := edge
  simp only [cut_then_gathered,List.mem_cons,List.not_mem_nil,or_false] at member
  rcases member with rfl | rfl
  · cases needed
  · rw [List.mem_singleton.mp needed]
    decide

theorem rewrite_consistent_two : ∃ r, rewrite_nodes_for_shard_intent cut_then_gathered (on_two_workers "b") [] = .ok r ∧
    (Consistent cut_then_gathered r ↔ Unambiguous cut_then_gathered (on_two_workers "b") []) := by
  have returned : (rewrite_nodes_for_shard_intent cut_then_gathered (on_two_workers "b") []).toOption.isSome = true := by
    decide +kernel
  obtain ⟨r,made⟩ := Option.isSome_iff_exists.mp returned
  have done := Fallible.ok_of_toOption made
  exact ⟨r,done,rewrite_consistent_iff (by decide) (by decide) cut_then_gathered_acyclic done⟩

-- The name of a node that one worker lists is that of the first shard of another.
def cut_beside_shard : List FlowmeshNode := [⟨"a",[],two_rows⟩,⟨"a__shard_0",[],[]⟩]

theorem shard_name_taken : ¬ ∀ (nodes : List FlowmeshNode) (worker_assignment : Workers) (output_node_names : List String)
    (r : ShardRewriteResult), (∀ node ∈ nodes, keyed (.dict node.spec) = true) →
      (∀ node ∈ nodes, ∀ dep ∈ node.dependsOn, dep ∈ node_names_of nodes) → (∀ x, ¬ TransGen (waits_for nodes) x x) →
      rewrite_nodes_for_shard_intent nodes worker_assignment output_node_names = .ok r → Consistent nodes r := by
  intro fits
  have acyclic : ∀ x, ¬ TransGen (waits_for cut_beside_shard) x x := by
    refine Ranking.acyclic_of_rank (fun _ => 0) fun dep x edge => ?_
    obtain ⟨node,member,_,needed⟩ := edge
    simp only [cut_beside_shard,List.mem_cons,List.not_mem_nil,or_false] at member
    rcases member with rfl | rfl <;> cases needed
  have returned : (rewrite_nodes_for_shard_intent cut_beside_shard (on_two_workers "a__shard_0") []).toOption.map
      (fun r => node_names_of r.nodes) = some ["a__shard_0","a__shard_1","a__shard_0"] := by decide +kernel
  obtain ⟨r,made,names⟩ := Option.map_eq_some_iff.mp returned
  have fit := fits cut_beside_shard (on_two_workers "a__shard_0") [] r (by decide) (by decide) acyclic (Fallible.ok_of_toOption made)
  have distinct := fit.distinct
  rw [names] at distinct
  exact absurd distinct (by decide)

end Lumilake.RuntimeManager

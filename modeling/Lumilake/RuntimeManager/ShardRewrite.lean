import Lumilake.RuntimeManager.ShardSpec

namespace Lumilake.RuntimeManager
open Cuts

structure ShardRewriteResult where
  nodes : List FlowmeshNode
  worker_assignment : Workers
  flowmesh_to_raw : Dict String String

def add_node (node_map : NodeMap) (node : FlowmeshNode) : Except String NodeMap :=
  if node.name = "" then .error "FlowMesh node is missing a valid 'name'"
  else if node.name ∈ node_map then .error ("Duplicate FlowMesh node name: " ++ node.name)
  else .ok (node_map.set node.name node)

def pin_non_explicit_unsharded_nodes (explicit shard_nodes_by_raw baseline candidates : Workers) : Workers :=
  candidates.mapValues fun node_id workers =>
    if node_id ∈ explicit ∨ node_id ∈ shard_nodes_by_raw then workers
    else match (baseline.get? node_id).getD [] with
      | first :: _ => [first]
      | [] => workers.take 1

def prune_worker_assignment_to_candidates (worker_assignment candidates : Workers) : Workers :=
  worker_assignment.mapValues fun worker node_ids =>
    node_ids.foldl (fun deduped node_id =>
      if (candidates.get? node_id).any (fun allowed => worker ∉ allowed) ∨ node_id ∈ deduped then deduped
      else deduped ++ [node_id]) []

-- The set of nodes whose shards are gathered again, held as a list.
def compute_merge_required_nodes (node_map : NodeMap) (shard_nodes_by_raw : Workers) (output_node_names : List String) :
    List String :=
  (output_node_names.filter (· ∈ shard_nodes_by_raw) ++ node_map.entries.flatMap fun entry =>
    if entry.1 ∈ shard_nodes_by_raw then [] else entry.2.dependsOn.filter (· ∈ shard_nodes_by_raw)).dedup

def merge_items (shards : List (String × Cut)) : List Value :=
  (shards.filter fun shard => decide (shard.2.1 < shard.2.2)).map fun shard =>
    .dict [("node",.str shard.1),("path",.str "items.output")]

def build_merge_node (raw_node_id : String) (shard_names : List String) (partitions : List Cut) : FlowmeshNode where
  name := raw_node_id
  dependsOn := shard_names
  spec := [("taskType",.str "echo"),
    ("data",.dict [("type",.str "list"),("items",.list (merge_items (shard_names.zip partitions)))])]

def partitions_stop (partitions : List Cut) : Nat := (partitions.getLast?.map Prod.snd).getD 0

def build_shard_node (node_map : NodeMap) (shards : Workers) (raw_node_id : String) (base_node : FlowmeshNode)
    (total : Nat) (entry : (String × Cut) × Nat) : Except String FlowmeshNode := do
  let s : Shard := ⟨raw_node_id,entry.2,entry.1.2.1,entry.1.2.2,total⟩
  let spec ← rewrite_shard_spec node_map s shards base_node.spec
  let deps ← rewrite_shard_dependencies shards entry.2 base_node.dependsOn
  pure ⟨entry.1.1,deps,spec⟩

-- The nodes that stand for one raw node.
def rewrite_node (node_map : NodeMap) (plan : ShardPlan) (merge_required : List String) (entry : String × FlowmeshNode) :
    Except String (String × List FlowmeshNode) :=
  match plan.shard_nodes_by_raw.get? entry.1,plan.partitions_by_raw.get? entry.1 with
  | some shard_names,some partitions =>
      if partitions.length ≠ shard_names.length then
        .error ("Internal shard rewrite mismatch for raw node '" ++ entry.1 ++ "'")
      else do
        let shards ← (shard_names.zip partitions).zipIdx.mapM
          (build_shard_node node_map plan.shard_nodes_by_raw entry.1 entry.2 (partitions_stop partitions))
        pure (entry.1,shards ++ if entry.1 ∈ merge_required then [build_merge_node entry.1 shard_names partitions] else [])
  | some _,none => .error ("KeyError: " ++ entry.1)
  | none,_ => .ok (entry.1,[entry.2])

def flowmesh_to_raw (groups : List (String × List FlowmeshNode)) : Dict String String :=
  groups.foldl (fun names group => group.2.foldl (fun names node => names.set node.name group.1) names) Dict.empty

def check_shard_workers (shard_nodes_by_raw : Workers) (entry : String × List String) : Except String Unit :=
  match shard_nodes_by_raw.get? entry.1 with
  | none => .ok ()
  | some expected =>
      if entry.2 = [] then
        .error ("Invalid shard rewrite assignment: missing worker candidates for node '" ++ entry.1 ++ "'")
      else if entry.2.length ≠ expected.length then
        .error ("Invalid shard rewrite assignment: shard worker count mismatch for node '" ++ entry.1 ++ "'")
      else .ok ()

-- A merge node goes to the first worker that has none of the shards, else to the one of the first shard.
def merge_host (worker_ids : List String) (candidates hosts : Workers) (node_id : String) :
    Except String (Dict String String) → Except String (Dict String String) := fun merge_hosts => do
  let hosts_by_raw ← merge_hosts
  if node_id ∉ hosts then pure hosts_by_raw
  else
    let shard_workers := (candidates.get? node_id).getD []
    match worker_ids.find? (· ∉ shard_workers),shard_workers.head? with
    | some worker,_ => pure (hosts_by_raw.set node_id worker)
    | none,some primary => pure (hosts_by_raw.set node_id primary)
    | none,none => .error ("Invalid shard rewrite assignment: missing primary worker for merge node '" ++ node_id ++ "'")

def assigned_name (shard_nodes_by_raw candidates : Workers) (merge_host_by_raw : Dict String String)
    (worker node_id : String) : Option String :=
  match shard_nodes_by_raw.get? node_id with
  | none => some node_id
  | some shard_nodes =>
      match ((candidates.get? node_id).getD []).idxOf? worker with
      | some shard_idx => shard_nodes[shard_idx]?
      | none => if merge_host_by_raw.get? node_id = some worker then some node_id else none

def assign_node (shard_nodes_by_raw candidates : Workers) (merge_host_by_raw : Dict String String) (worker : String)
    (out : List String) (node_id : String) : List String :=
  match assigned_name shard_nodes_by_raw candidates merge_host_by_raw worker node_id with
  | none => out
  | some mapped =>
      if mapped ∈ out then out
      else if merge_host_by_raw.get? node_id = some worker ∧ node_id ∉ out ++ [mapped] then out ++ [mapped,node_id]
      else out ++ [mapped]

def rewrite_worker_assignment_for_shards (original_assignment shard_nodes_by_raw candidates : Workers)
    (merge_nodes : List String) : Except String Workers := do
  candidates.entries.forM (check_shard_workers shard_nodes_by_raw)
  let merge_host_by_raw ← merge_nodes.foldl
    (fun hosts node_id => merge_host original_assignment.keys candidates shard_nodes_by_raw node_id hosts) (pure Dict.empty)
  let rewritten := original_assignment.mapValues fun worker node_ids =>
    node_ids.foldl (assign_node shard_nodes_by_raw candidates merge_host_by_raw worker) []
  pure (merge_host_by_raw.entries.foldl (fun rewritten entry =>
    let out := (rewritten.get? entry.2).getD []
    rewritten.set entry.2 (if entry.1 ∈ out then out else out ++ [entry.1])) rewritten)

def uncovered (nodes : List FlowmeshNode) (assignment : Workers) : List String :=
  sorted_names ((nodes.map FlowmeshNode.name).filter fun name => name ∉ assignment.values.flatten)

def rewrite_planned (node_map : NodeMap) (worker_assignment candidates explicit : Workers) (plan : ShardPlan)
    (output_node_names : List String) : Except String ShardRewriteResult := do
  let node_candidates := pin_non_explicit_unsharded_nodes explicit plan.shard_nodes_by_raw candidates
    plan.effective_node_candidates
  let merge_required := compute_merge_required_nodes node_map plan.shard_nodes_by_raw output_node_names
  let groups ← node_map.entries.mapM (rewrite_node node_map plan merge_required)
  let nodes := groups.flatMap Prod.snd
  let rewritten ← rewrite_worker_assignment_for_shards
    (prune_worker_assignment_to_candidates worker_assignment node_candidates) plan.shard_nodes_by_raw node_candidates
    merge_required
  if uncovered nodes rewritten ≠ [] then
    .error ("Rewritten schedule does not cover all flowmesh nodes. Missing: " ++ quoted (uncovered nodes rewritten))
  else pure ⟨nodes,rewritten,flowmesh_to_raw groups⟩

def rewrite_nodes_for_shard_intent (nodes : List FlowmeshNode) (worker_assignment : Workers)
    (output_node_names : List String) : Except String ShardRewriteResult := do
  let node_map ← nodes.foldlM add_node Dict.empty
  let candidates ← collect_node_worker_candidates worker_assignment node_map.keys
  let explicit := explicit_shard_intent candidates
  if explicit.keys = [] then
    pure ⟨node_map.values,worker_assignment,node_map.mapValues fun name _ => name⟩
  else
    let order ← build_shard_rewrite_topological_order node_map
    let plan ← order.foldlM (plan_node node_map explicit) ⟨Dict.empty,Dict.empty,candidates⟩
    rewrite_planned node_map worker_assignment candidates explicit plan output_node_names

end Lumilake.RuntimeManager

import Lumilake.Library.Cuts
import Lumilake.RuntimeManager.ShardOrder

namespace Lumilake.RuntimeManager
open Cuts

-- How Python writes a list of texts.
def quoted (names : List String) : String := "[" ++ ", ".intercalate (names.map fun name => "'" ++ name ++ "'") ++ "]"

def sorted_names (names : List String) : List String := names.dedup.insertionSort (fun a b => decide (a ≤ b))

-- The items of a mapping that is a list literal.
def static_items (entries : Spec) : Option (List Value) :=
  match Value.get? entries "type",Value.get? entries "items" with
  | some (.str "list"),some (.list items) => some items
  | _,_ => none

mutual
def collect_static_list_lengths : Value → List Nat
  | .dict entries => ((static_items entries).map List.length).toList ++ collect_entry_lengths entries
  | .list items => collect_item_lengths items
  | _ => []
def collect_item_lengths : List Value → List Nat
  | [] => []
  | item :: items => collect_static_list_lengths item ++ collect_item_lengths items
def collect_entry_lengths : Spec → List Nat
  | [] => []
  | (_,item) :: entries => collect_static_list_lengths item ++ collect_entry_lengths entries
end

def boundary (raw_node_id detail : String) : String :=
  "Unsupported shard boundary for raw node '" ++ raw_node_id ++ "': " ++ detail

-- The largest of the totals, when each is one or that one.
def aligned_total (totals : List Nat) (misaligned : String) : Except String (Option Nat) :=
  if totals = [] then .ok none
  else if totals.all (fun total => total = 1 ∨ total = totals.foldr max 0) then .ok (some (totals.foldr max 0))
  else .error misaligned

def resolve_static_partition_total (raw_node_id : String) (data_spec : Spec) (context_node_id : String) :
    Except String (Option Nat) := do
  let lengths := collect_static_list_lengths (.dict data_spec)
  let total ← aligned_total lengths (boundary raw_node_id ("node '" ++ context_node_id ++
    "' has inconsistent static list lengths " ++ toString (lengths.dedup.insertionSort (fun a b => decide (a ≤ b)))))
  pure (total.map (max 1))

def spec_data (node : FlowmeshNode) : Option Spec :=
  match Value.get? node.spec "data" with
  | some (.dict data) => some data
  | _ => none

-- A node that is not in the graph, or has no data mapping, has no total of its own.
def dependency_static_total (node_map : NodeMap) (raw_node_id dep_id : String) : Except String (Option Nat) :=
  match (node_map.get? dep_id).bind spec_data with
  | some data => resolve_static_partition_total raw_node_id data dep_id
  | none => .ok none

theorem fewer_unvisited {node_map : NodeMap} {visited : List String} (node : node_id ∈ node_map.keys)
    (fresh : node_id ∉ visited) :
    (node_map.keys.filter (· ∉ node_id :: visited)).length < (node_map.keys.filter (· ∉ visited)).length := by
  have inside : node_id ∈ node_map.keys.filter (· ∉ visited) := List.mem_filter.mpr ⟨node,by simpa using fresh⟩
  have again : node_map.keys.filter (· ∉ node_id :: visited) =
      (node_map.keys.filter (· ∉ visited)).filter (· ≠ node_id) := by
    rw [List.filter_filter]
    apply List.filter_congr
    intro x _
    simp [not_or]
  rw [again]
  exact List.length_filter_lt_length_iff_exists.mpr ⟨node_id,inside,by simp⟩

theorem same_unvisited {node_map : NodeMap} {visited : List String} (away : node_id ∉ node_map.keys) :
    node_map.keys.filter (· ∉ node_id :: visited) = node_map.keys.filter (· ∉ visited) := by
  apply List.filter_congr
  intro x node
  have other : x ≠ node_id := fun same => away (same ▸ node)
  simp [other]

-- The top of the stack is the head of the list.
def collect_ancestor_partition_totals (node_map : NodeMap) (raw_node_id : String) (visited stack : List String)
    (totals : List Nat) : Except String (List Nat) :=
  match stack with
  | [] => .ok totals
  | node_id :: stack =>
      if _ : node_id ∈ visited then collect_ancestor_partition_totals node_map raw_node_id visited stack totals
      else
        match _ : node_map.get? node_id with
        | none => collect_ancestor_partition_totals node_map raw_node_id (node_id :: visited) stack totals
        | some node =>
            match dependency_static_total node_map raw_node_id node_id with
            | .error message => .error message
            | .ok total => collect_ancestor_partition_totals node_map raw_node_id (node_id :: visited)
                ((node.dependsOn.filter (· ∉ node_id :: visited)).reverse ++ stack) (totals ++ total.toList)
termination_by ((node_map.keys.filter (· ∉ visited)).length,stack.length)
decreasing_by
  · exact Prod.Lex.right _ (Nat.lt_succ_self _)
  · rename_i away
    have away := Dict.get?_eq_none.mp away
    rw [same_unvisited away]
    exact Prod.Lex.right _ (Nat.lt_succ_self _)
  · exact Prod.Lex.left _ _ (fewer_unvisited (Dict.mem_keys_iff.mpr ⟨node,‹_›⟩) ‹_›)

def ancestor_totals (node_map : NodeMap) (raw_node_id : String) (dependency_ids : List String) :
    Except String (List Nat) :=
  collect_ancestor_partition_totals node_map raw_node_id [] dependency_ids.reverse []

def infer_unsharded_dependency_total (node_map : NodeMap) (raw_node_id : String) (dependency_ids : List String) :
    Except String (Option Nat) := do
  let totals ← dependency_ids.mapM (dependency_static_total node_map raw_node_id)
  let direct_totals := totals.filterMap id
  if direct_totals ≠ [] then
    aligned_total direct_totals (boundary raw_node_id "dependency static partition sizes do not align")
  else
    let totals ← ancestor_totals node_map raw_node_id dependency_ids
    aligned_total totals (boundary raw_node_id "ancestor static partition sizes do not align")

abbrev Partitions := Dict String (List Cut)

def partition_total (partitions : List Cut) : Nat := (partitions.map fun cut => cut.2 - cut.1).foldr (· + ·) 0

def sharded_totals (raw_node_id : String) (shard_count : Nat) (partitions_by_raw : Partitions) :
    List String → Except String (List Nat)
  | [] => .ok []
  | dep :: deps =>
      match partitions_by_raw.get? dep with
      | none => sharded_totals raw_node_id shard_count partitions_by_raw deps
      | some partitions =>
          if partitions.length ≠ shard_count then
            .error (boundary raw_node_id ("dependency '" ++ dep ++ "' shard count mismatch"))
          else do
            let totals ← sharded_totals raw_node_id shard_count partitions_by_raw deps
            pure (partition_total partitions :: totals)

def infer_shard_input_size (node_map : NodeMap) (raw_node_id : String) (data_spec : Spec) (shard_count : Nat)
    (dependency_ids : List String) (partitions_by_raw : Partitions) : Except String Nat := do
  let local_total ← resolve_static_partition_total raw_node_id data_spec raw_node_id
  match local_total with
  | some total => pure total
  | none =>
      let dep_totals ← sharded_totals raw_node_id shard_count partitions_by_raw dependency_ids
      match dep_totals with
      | first :: rest =>
          if rest.any (fun total => total ≠ first) then
            .error (boundary raw_node_id "dependency partition sizes do not align")
          else pure (max 1 first)
      | [] =>
          let totals ← ancestor_totals node_map raw_node_id dependency_ids
          match ← aligned_total totals (boundary raw_node_id "ancestor static partition sizes do not align") with
          | some total => pure (max 1 total)
          | none => .error (boundary raw_node_id "cannot infer static partition size")

-- One interval for each idx from there on, the first `remainder` of them one longer.
def partitions_from (base remainder : Nat) : Nat → Nat → Nat → List Cut
  | 0,_,_ => []
  | count + 1,idx,start =>
      let stop := start + (base + if idx < remainder then 1 else 0)
      (start,stop) :: partitions_from base remainder count (idx + 1) stop

def build_index_partitions (total shard_count : Nat) : List Cut :=
  let safe_total := max 1 total
  let safe_count := max 1 shard_count
  partitions_from (safe_total / safe_count) (safe_total % safe_count) safe_count 0 0

abbrev Workers := Dict String (List String)

def add_candidate (node_names : List String) (worker : String) (state : Workers × List String) (node_id : String) :
    Except String (Workers × List String) :=
  if node_id ∈ state.2 then
    .error ("Worker assignment contains duplicate node IDs for worker '" ++ worker ++ "': " ++ node_id)
  else if node_id ∉ node_names then .error ("Worker assignment references unknown node '" ++ node_id ++ "'")
  else
    let worker_list := (state.1.get? node_id).getD []
    .ok (state.1.set node_id (if worker ∈ worker_list then worker_list else worker_list ++ [worker]),
      state.2 ++ [node_id])

-- The candidates of each node; the normalized assignment is the assignment itself.
def collect_node_worker_candidates (worker_assignment : Workers) (node_names : List String) : Except String Workers := do
  let candidates ← worker_assignment.entries.foldlM (fun candidates entry => do
    let state ← entry.2.foldlM (add_candidate node_names entry.1) (candidates,[])
    pure state.1) Dict.empty
  let missing := sorted_names (node_names.filter (· ∉ candidates.keys))
  let extra := sorted_names (candidates.keys.filter (· ∉ node_names))
  if missing ≠ [] ∨ extra ≠ [] then
    .error ("Worker assignment must cover all runtime nodes exactly at least once. Missing: " ++ quoted missing ++
      ", extra: " ++ quoted extra)
  else pure candidates

def explicit_shard_intent (candidates : Workers) : Workers := candidates.filter fun _ workers => decide (1 < workers.length)

structure ShardPlan where
  shard_nodes_by_raw : Workers
  partitions_by_raw : Partitions
  effective_node_candidates : Workers

def shard_name (node_id : String) (idx : Nat) : String := node_id ++ "__shard_" ++ toString idx

def classify_shard_boundary_error (message : String) : String :=
  let found := fun token : String => message.toLower.toList.tails.any (fun rest => token.toList.isPrefixOf rest)
  if ["cardinality","mismatch","inconsistent static list lengths","do not align"].any found then "cardinality mismatch"
  else if found "unresolved sharded deps" then "unresolved sharded deps"
  else "non-partitionable boundary"

-- Why a node cannot be sharded: the category and the detail.
abbrev FailReason := String × String

def classified (result : Except String α) : Except FailReason α :=
  match result with
  | .ok value => .ok value
  | .error message => .error (classify_shard_boundary_error message,message)

-- With no list of its own and no sharded dependency, the node needs an upstream of several rows.
def check_upstream (node_map : NodeMap) (node_id : String) (dep_list : List String) (dep_shard_counts : List Nat) :
    Except FailReason Unit :=
  if dep_list = [] then
    .error ("non-partitionable boundary","node has no partitionable local inputs or dependencies")
  else if dep_shard_counts = [] then do
    let inferred_dep_total ← classified (infer_unsharded_dependency_total node_map node_id dep_list)
    if inferred_dep_total.getD 0 ≤ 1 then
      .error ("unresolved sharded deps","node has no local partition and no sharded dependencies")
    else pure ()
  else pure ()

def aligned_shard_count (workers : List String) (dep_shard_counts : List Nat) : Except FailReason Nat :=
  match dep_shard_counts with
  | [] => .ok workers.length
  | expected :: _ =>
      if dep_shard_counts.any (fun count => count ≠ expected) then
        .error ("cardinality mismatch","dependency shard counts do not align")
      else .ok (min workers.length expected)

def place_shards (node_id : String) (workers : List String) (total_items shard_count : Nat) (plan : ShardPlan) :
    Except FailReason ShardPlan :=
  let active_workers := workers.take shard_count
  if active_workers.length ≠ shard_count then
    .error ("non-partitionable boundary","failed to resolve active shard workers")
  else .ok ⟨plan.shard_nodes_by_raw.set node_id ((List.range shard_count).map (shard_name node_id)),
    plan.partitions_by_raw.set node_id (build_index_partitions total_items shard_count),
    plan.effective_node_candidates.set node_id active_workers⟩

def plan_explicit_node (node_map : NodeMap) (plan : ShardPlan) (node : FlowmeshNode) (node_id : String)
    (workers : List String) : Except FailReason ShardPlan :=
  match spec_data node with
  | none => .error ("non-partitionable boundary","spec.data is missing or invalid")
  | some data => do
      let local_partition_total ← classified (resolve_static_partition_total node_id data node_id)
      let dep_shard_counts := node.dependsOn.filterMap fun dep => (plan.shard_nodes_by_raw.get? dep).map List.length
      if local_partition_total = none then check_upstream node_map node_id node.dependsOn dep_shard_counts
      let shard_count ← aligned_shard_count workers dep_shard_counts
      if shard_count = 0 then .error ("non-partitionable boundary","no active shard worker is available")
      let total_items ← classified (infer_shard_input_size node_map node_id data shard_count node.dependsOn
        plan.partitions_by_raw)
      place_shards node_id workers total_items (min shard_count (max 1 total_items)) plan

def plan_node (node_map : NodeMap) (explicit : Workers) (plan : ShardPlan) (node_id : String) : Except String ShardPlan :=
  match explicit.get? node_id,node_map.get? node_id with
  | some workers,some node =>
      match plan_explicit_node node_map plan node node_id workers with
      | .ok after => .ok after
      | .error reason => .error ("Explicit shard-intent rewrite failed for raw node '" ++ node_id ++ "' (reason: " ++
          reason.1 ++ "): " ++ reason.2)
  | _,_ => .ok plan

end Lumilake.RuntimeManager

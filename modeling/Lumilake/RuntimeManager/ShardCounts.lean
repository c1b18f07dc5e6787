import Lumilake.RuntimeManager.ScheduleHint

namespace Lumilake.RuntimeManager
open Cuts Fallible

theorem partitions_from_consecutive {base : Nat} (filled : 0 < base) (remainder count idx start : Nat) :
    Consecutive start (partitions_from base remainder count idx start)
      (start + base * count + (min remainder (idx + count) - min remainder idx)) := by
  induction count generalizing idx start with
  | zero =>
      unfold partitions_from
      have same : start + base * 0 + (min remainder (idx + 0) - min remainder idx) = start := by simp
      rw [same]
      exact .nil start
  | succ count ih =>
      unfold partitions_from
      have later := ih (idx + 1) (start + (base + if idx < remainder then 1 else 0))
      have stop : start + (base + if idx < remainder then 1 else 0) + base * count +
          (min remainder (idx + 1 + count) - min remainder (idx + 1)) =
          start + base * (count + 1) + (min remainder (idx + (count + 1)) - min remainder idx) := by
        rw [Nat.mul_succ]
        split <;> omega
      rw [stop] at later
      exact .cons (by omega) later

@[simp] theorem length_partitions_from (base remainder count idx start : Nat) :
    (partitions_from base remainder count idx start).length = count := by
  induction count generalizing idx start with
  | zero => rfl
  | succ count ih =>
      unfold partitions_from
      rw [List.length_cons,ih]

theorem consecutive_total {cuts : List Cut} (run : Consecutive a cuts b) : a + partition_total cuts = b := by
  unfold partition_total
  induction run with
  | nil => simp
  | cons grows _ ih =>
      rw [List.map_cons,List.foldr_cons]
      omega

-- The intervals of the shards fill the range, and none of them is empty.
theorem partitions_consecutive {total count : Nat} (some_rows : 0 < total) (some_shards : 0 < count) (enough : count ≤ total) :
    Consecutive 0 (build_index_partitions total count) total ∧ (build_index_partitions total count).length = count := by
  unfold build_index_partitions
  dsimp only
  rw [Nat.max_eq_right some_rows,Nat.max_eq_right some_shards,length_partitions_from]
  have run := partitions_from_consecutive (Nat.div_pos enough some_shards) (total % count) count 0 0
  have short := Nat.mod_lt total some_shards
  have whole := Nat.div_add_mod total count
  rw [Nat.mul_comm count] at whole
  have stop : 0 + total / count * count + (min (total % count) (0 + count) - min (total % count) 0) = total := by omega
  rw [stop] at run
  exact ⟨run,rfl⟩

theorem partition_total_eq {total count : Nat} (some_rows : 0 < total) (some_shards : 0 < count) (enough : count ≤ total) :
    partition_total (build_index_partitions total count) = total := by
  have run := consecutive_total (partitions_consecutive some_rows some_shards enough).1
  omega

-- The workers that list a node, in the order of the assignment.
def listing_workers (worker_assignment : Workers) (node_id : String) : List String :=
  (worker_assignment.entries.filter fun entry => node_id ∈ entry.2).map Prod.fst

-- A node listed by several workers is to be cut into shards.
def sharded (worker_assignment : Workers) (node_id : String) : Prop := 1 < (listing_workers worker_assignment node_id).length

instance (worker_assignment : Workers) (node_id : String) : Decidable (sharded worker_assignment node_id) :=
  inferInstanceAs (Decidable (_ < _))

def listed_by (entries : List (String × List String)) (node_id : String) : Option (List String) :=
  match (entries.filter fun entry => node_id ∈ entry.2).map Prod.fst with
  | [] => none
  | workers => some workers

theorem listed_by_concat (entries : List (String × List String)) (entry : String × List String) (node_id : String) :
    listed_by (entries ++ [entry]) node_id =
      if node_id ∈ entry.2 then some ((listed_by entries node_id).getD [] ++ [entry.1]) else listed_by entries node_id := by
  unfold listed_by
  rw [List.filter_append,List.map_append]
  by_cases listed : node_id ∈ entry.2
  · rw [if_pos listed]
    cases (entries.filter fun entry => decide (node_id ∈ entry.2)).map Prod.fst with
    | nil => simp [listed]
    | cons => simp [listed]
  · simp [listed]

theorem add_candidate_ok {node_names : List String} {worker node_id : String} {state after : Workers × List String}
    (done : add_candidate node_names worker state node_id = .ok after) :
    node_id ∉ state.2 ∧ node_id ∈ node_names ∧ after.2 = state.2 ++ [node_id] ∧
      after.1 = state.1.set node_id (if worker ∈ (state.1.get? node_id).getD [] then (state.1.get? node_id).getD []
        else (state.1.get? node_id).getD [] ++ [worker]) := by
  unfold add_candidate at done
  split at done
  · cases done
  · rename_i fresh
    split at done
    · cases done
    · rename_i known
      cases done
      exact ⟨fresh,not_not.mp known,rfl,rfl⟩

-- One worker's list: each of its nodes gets that worker behind the ones it had.
theorem add_candidates_ok {node_names nodes : List String} {worker : String} {before : Workers}
    {state after : Workers × List String} (fresh : ∀ x workers, before.get? x = some workers → worker ∉ workers)
    (added : ∀ x, state.1.get? x = if x ∈ state.2 then some ((before.get? x).getD [] ++ [worker]) else before.get? x)
    (distinct : state.2.Nodup) (done : nodes.foldlM (add_candidate node_names worker) state = .ok after) :
    after.2 = state.2 ++ nodes ∧ (state.2 ++ nodes).Nodup ∧ (∀ x ∈ nodes, x ∈ node_names) ∧
      ∀ x, after.1.get? x = if x ∈ after.2 then some ((before.get? x).getD [] ++ [worker]) else before.get? x := by
  induction nodes generalizing state with
  | nil =>
      cases done
      exact ⟨by simp,by simpa using distinct,by simp,added⟩
  | cons node_id rest ih =>
      rw [List.foldlM_cons] at done
      obtain ⟨next,turn,later⟩ := bind_ok done
      obtain ⟨unseen,known,grown,written⟩ := add_candidate_ok turn
      have old : state.1.get? node_id = before.get? node_id := by rw [added,if_neg unseen]
      have away : worker ∉ (before.get? node_id).getD [] := by
        cases found : before.get? node_id with
        | none => simp
        | some workers => simpa using fresh node_id workers found
      rw [old,if_neg away] at written
      have one_more : next.2.Nodup := by
        rw [grown,← List.concat_eq_append]
        exact distinct.concat unseen
      obtain ⟨all,apart,others,values⟩ := ih (fun x => by
        rw [written,grown]
        by_cases same : x = node_id
        · subst same
          rw [Dict.get?_set_self,if_pos (by simp)]
        · rw [Dict.get?_set_ne _ _ same,added]
          simp [same]) one_more later
      rw [grown,List.append_assoc] at all apart
      exact ⟨all,apart,List.forall_mem_cons.mpr ⟨known,others⟩,values⟩

theorem candidates_of_entries {node_names : List String} {front back : List (String × List String)} {before after : Workers}
    (distinct : ((front ++ back).map Prod.fst).Nodup) (read : ∀ x, before.get? x = listed_by front x)
    (done : back.foldlM (fun candidates entry => do
      let state ← entry.2.foldlM (add_candidate node_names entry.1) (candidates,[])
      pure state.1) before = .ok after) :
    (∀ x, after.get? x = listed_by (front ++ back) x) ∧ ∀ e ∈ back, e.2.Nodup ∧ ∀ x ∈ e.2, x ∈ node_names := by
  induction back generalizing front before with
  | nil =>
      cases done
      exact ⟨by simpa using read,by simp⟩
  | cons entry rest ih =>
      rw [List.foldlM_cons] at done
      obtain ⟨next,turn,later⟩ := bind_ok done
      obtain ⟨state,loop,last⟩ := bind_ok turn
      cases last
      have fresh : ∀ x workers, before.get? x = some workers → entry.1 ∉ workers := by
        intro x workers found listed
        rw [read] at found
        have early : entry.1 ∈ front.map Prod.fst := by
          unfold listed_by at found
          split at found
          · cases found
          · cases found
            obtain ⟨e,member,same⟩ := List.mem_map.mp listed
            exact List.mem_map.mpr ⟨e,(List.mem_filter.mp member).1,same⟩
        rw [List.map_append,List.map_cons] at distinct
        exact (List.nodup_append.mp distinct).2.2 entry.1 early entry.1 List.mem_cons_self rfl
      obtain ⟨all,apart,known,values⟩ := add_candidates_ok fresh (by simp) List.nodup_nil loop
      rw [List.nil_append] at all apart
      have split : front ++ entry :: rest = (front ++ [entry]) ++ rest := by simp
      rw [split] at distinct ⊢
      obtain ⟨found,others⟩ := ih distinct (fun x => by rw [values,all,listed_by_concat,read]) later
      exact ⟨found,List.forall_mem_cons.mpr ⟨⟨apart,known⟩,others⟩⟩

-- What is read from the lists of the workers, and what they were checked for.
theorem candidates_ok {worker_assignment candidates : Workers} {node_names : List String}
    (done : collect_node_worker_candidates worker_assignment node_names = .ok candidates) :
    (∀ x, candidates.get? x = listed_by worker_assignment.entries x) ∧
      (∀ e ∈ worker_assignment.entries, e.2.Nodup ∧ ∀ x ∈ e.2, x ∈ node_names) ∧ ∀ x ∈ node_names, x ∈ candidates.keys := by
  unfold collect_node_worker_candidates at done
  obtain ⟨filled,loop,rest⟩ := bind_ok done
  obtain ⟨found,checked⟩ := @candidates_of_entries _ [] _ _ _ worker_assignment.keys_nodup
    (fun x => by simp [listed_by]) loop
  dsimp only at rest
  split at rest
  · cases rest
  · rename_i complete
    cases rest
    refine ⟨by simpa using found,checked,fun x known => ?_⟩
    have none_missing := sorted_names_nil.mp (not_not.mp fun missing => complete (.inl missing))
    have present := List.filter_eq_nil_iff.mp none_missing x known
    simpa using present

theorem listed_by_some {worker_assignment : Workers} (found : listed_by worker_assignment.entries x = some workers) :
    workers = listing_workers worker_assignment x := by
  unfold listed_by at found
  unfold listing_workers
  split at found
  · cases found
  · cases found
    rfl

theorem explicit_iff {worker_assignment candidates : Workers} (found : ∀ x, candidates.get? x = listed_by worker_assignment.entries x)
    (x : String) (workers : List String) : (explicit_shard_intent candidates).get? x = some workers ↔
      sharded worker_assignment x ∧ workers = listing_workers worker_assignment x := by
  unfold explicit_shard_intent sharded
  rw [Dict.get?_filter,found,decide_eq_true_iff]
  constructor
  · rintro ⟨listed,several⟩
    have same := listed_by_some listed
    exact ⟨same ▸ several,same⟩
  · rintro ⟨several,rfl⟩
    refine ⟨?_,several⟩
    unfold listed_by
    unfold listing_workers at several ⊢
    split
    · rename_i empty
      rw [empty] at several
      cases several
    · rfl

-- The rows that the shards of a node share: its own, those of the first cut node that it
-- waits for, or the most that stand anywhere above it.
inductive Rows (node_map : NodeMap) (worker_assignment : Workers) : String → Nat → Prop where
  | own : node_map.get? node_id = some node → spec_data node = some data →
      resolve_static_partition_total node_id data node_id = .ok (some total) → Rows node_map worker_assignment node_id total
  | waited : node_map.get? node_id = some node → spec_data node = some data →
      resolve_static_partition_total node_id data node_id = .ok none →
      node.dependsOn.filter (sharded worker_assignment) = dep :: deps → Rows node_map worker_assignment dep total →
      Rows node_map worker_assignment node_id total
  | above : node_map.get? node_id = some node → spec_data node = some data →
      resolve_static_partition_total node_id data node_id = .ok none → node.dependsOn.filter (sharded worker_assignment) = [] →
      ancestor_totals node_map node_id node.dependsOn = .ok totals →
      Rows node_map worker_assignment node_id (max 1 (totals.foldr max 0))

-- A node has a shard of this number when it has the workers and the rows for it, and so has
-- every cut node that it waits for.
inductive HasShard (node_map : NodeMap) (worker_assignment : Workers) (idx : Nat) : String → Prop where
  | shard : node_map.get? node_id = some node → idx < (listing_workers worker_assignment node_id).length →
      Rows node_map worker_assignment node_id total → idx < total →
      (∀ dep ∈ node.dependsOn, sharded worker_assignment dep → HasShard node_map worker_assignment idx dep) →
      HasShard node_map worker_assignment idx node_id

theorem own_total_pos {data : Spec} (done : resolve_static_partition_total node_id data context = .ok (some total)) : 0 < total := by
  unfold resolve_static_partition_total at done
  obtain ⟨aligned,_,last⟩ := bind_ok done
  cases aligned with
  | none => cases last
  | some most =>
      cases last
      omega

section
variable {node_map : NodeMap} {worker_assignment candidates : Workers} {plan after : ShardPlan} {before : List String}

theorem rows_pos (rows : Rows node_map worker_assignment node_id total) : 0 < total := by
  induction rows with
  | own _ _ resolved => exact own_total_pos resolved
  | waited _ _ _ _ _ ih => exact ih
  | above => omega

theorem rows_unique (rows : Rows node_map worker_assignment node_id total) (again : Rows node_map worker_assignment node_id total') :
    total = total' := by
  induction rows generalizing total' with
  | own found data resolved =>
      cases again with
      | own found' data' resolved' =>
          cases found.symm.trans found'
          cases data.symm.trans data'
          cases resolved.symm.trans resolved'
          rfl
      | waited found' data' resolved' | above found' data' resolved' =>
          cases found.symm.trans found'
          cases data.symm.trans data'
          cases resolved.symm.trans resolved'
  | waited found data resolved deps _ ih =>
      cases again with
      | own found' data' resolved' =>
          cases found.symm.trans found'
          cases data.symm.trans data'
          cases resolved.symm.trans resolved'
      | waited found' _ _ deps' rows' =>
          cases found.symm.trans found'
          cases deps.symm.trans deps'
          exact ih rows'
      | above found' _ _ deps' =>
          cases found.symm.trans found'
          cases deps.symm.trans deps'
  | above found data resolved deps totals =>
      cases again with
      | own found' data' resolved' =>
          cases found.symm.trans found'
          cases data.symm.trans data'
          cases resolved.symm.trans resolved'
      | waited found' _ _ deps' =>
          cases found.symm.trans found'
          cases deps.symm.trans deps'
      | above found' _ _ _ totals' =>
          cases found.symm.trans found'
          cases totals.symm.trans totals'
          rfl

theorem classified_ok {result : Except String α} (done : classified result = .ok a) : result = .ok a := by
  unfold classified at done
  split at done
  · cases done; rfl
  · cases done

theorem aligned_total_ok {totals : List Nat} {message : String} (done : aligned_total totals message = .ok (some total)) :
    total = totals.foldr max 0 := by
  unfold aligned_total at done
  split at done
  · cases done
  · split at done
    · cases done; rfl
    · cases done

theorem sharded_totals_ok {partitions_by_raw : Partitions} {deps : List String} {totals : List Nat}
    (done : sharded_totals node_id shard_count partitions_by_raw deps = .ok totals) :
    totals = (deps.filter (· ∈ partitions_by_raw)).map fun dep => partition_total ((partitions_by_raw.get? dep).getD []) := by
  induction deps generalizing totals with
  | nil => cases done; rfl
  | cons dep deps ih =>
      unfold sharded_totals at done
      split at done
      · rename_i missing
        have away : dep ∉ partitions_by_raw := Dict.get?_eq_none.mp missing
        rw [List.filter_cons_of_neg (by simpa using away)]
        exact ih done
      · rename_i partitions found
        have present : dep ∈ partitions_by_raw := Dict.mem_keys_iff.mpr ⟨_,found⟩
        split at done
        · cases done
        · obtain ⟨rest,later,last⟩ := bind_ok done
          cases last
          rw [List.filter_cons_of_pos (by simpa using present),List.map_cons,found,ih later]
          rfl

theorem infer_shard_input_size_ok {data : Spec} {deps : List String} {partitions_by_raw : Partitions} (shard_count : Nat)
    (done : infer_shard_input_size node_map node_id data shard_count deps partitions_by_raw = .ok total) :
    resolve_static_partition_total node_id data node_id = .ok (some total) ∨
      resolve_static_partition_total node_id data node_id = .ok none ∧
        ((∃ dep rest, deps.filter (· ∈ partitions_by_raw) = dep :: rest ∧
            total = max 1 (partition_total ((partitions_by_raw.get? dep).getD []))) ∨
          deps.filter (· ∈ partitions_by_raw) = [] ∧ ∃ totals, ancestor_totals node_map node_id deps = .ok totals ∧
            total = max 1 (totals.foldr max 0)) := by
  unfold infer_shard_input_size at done
  obtain ⟨own,resolved,rest⟩ := bind_ok done
  cases own with
  | some given =>
      cases rest
      exact .inl resolved
  | none =>
      refine .inr ⟨resolved,?_⟩
      obtain ⟨dep_totals,read,rest⟩ := bind_ok rest
      have same := sharded_totals_ok read
      cases deps_cut : deps.filter (· ∈ partitions_by_raw) with
      | nil =>
          rw [deps_cut] at same
          subst same
          obtain ⟨totals,above,rest⟩ := bind_ok rest
          obtain ⟨aligned,agree,rest⟩ := bind_ok rest
          cases aligned with
          | none => cases rest
          | some most =>
              cases rest
              exact .inr ⟨rfl,totals,above,by rw [aligned_total_ok agree]⟩
      | cons dep more =>
          rw [deps_cut,List.map_cons] at same
          subst same
          dsimp only at rest
          split at rest
          · cases rest
          · cases rest
            exact .inl ⟨dep,more,rfl,rfl⟩

theorem aligned_shard_count_ok {workers : List String} {counts : List Nat} (done : aligned_shard_count workers counts = .ok counted) :
    ∀ idx, idx < counted ↔ idx < workers.length ∧ ∀ count ∈ counts, idx < count := by
  intro idx
  unfold aligned_shard_count at done
  split at done
  · cases done
    simp
  · rename_i expected rest
    split at done
    · cases done
    · rename_i same
      cases done
      rw [Nat.lt_min]
      refine and_congr_right fun _ => ⟨fun low count member => ?_,fun all => all expected List.mem_cons_self⟩
      have equal : count = expected :=
        not_not.mp fun other => same (List.any_eq_true.mpr ⟨count,member,by simpa using other⟩)
      exact equal ▸ low

theorem place_counted_ok {data : Spec} {deps workers : List String} {counts : List Nat}
    (done : (do
      let shard_count ← aligned_shard_count workers counts
      if shard_count = 0 then .error ("non-partitionable boundary","no active shard worker is available")
      let total_items ← classified (infer_shard_input_size node_map node_id data shard_count deps plan.partitions_by_raw)
      place_shards node_id workers total_items (min shard_count (max 1 total_items)) plan) = .ok after) :
    ∃ counted total, aligned_shard_count workers counts = .ok counted ∧ counted ≠ 0 ∧
      infer_shard_input_size node_map node_id data counted deps plan.partitions_by_raw = .ok total ∧
      min counted (max 1 total) ≤ workers.length ∧
      after = ⟨plan.shard_nodes_by_raw.set node_id ((List.range (min counted (max 1 total))).map (shard_name node_id)),
        plan.partitions_by_raw.set node_id (build_index_partitions total (min counted (max 1 total))),
        plan.effective_node_candidates.set node_id (workers.take (min counted (max 1 total)))⟩ := by
  obtain ⟨counted,aligned,done⟩ := bind_ok done
  dsimp only at done
  split at done
  · cases done
  · rename_i some_count
    obtain ⟨total,inferred,placed⟩ := bind_ok done
    unfold place_shards at placed
    dsimp only at placed
    split at placed
    · cases placed
    · rename_i enough
      cases placed
      rw [not_not,List.length_take] at enough
      exact ⟨counted,total,aligned,some_count,classified_ok inferred,by omega,rfl⟩

theorem plan_explicit_node_ok {node : FlowmeshNode} {workers : List String}
    (done : plan_explicit_node node_map plan node node_id workers = .ok after) :
    ∃ data counted total, spec_data node = some data ∧
      aligned_shard_count workers (node.dependsOn.filterMap fun dep => (plan.shard_nodes_by_raw.get? dep).map List.length) =
        .ok counted ∧ counted ≠ 0 ∧
      infer_shard_input_size node_map node_id data counted node.dependsOn plan.partitions_by_raw = .ok total ∧
      min counted (max 1 total) ≤ workers.length ∧
      after = ⟨plan.shard_nodes_by_raw.set node_id ((List.range (min counted (max 1 total))).map (shard_name node_id)),
        plan.partitions_by_raw.set node_id (build_index_partitions total (min counted (max 1 total))),
        plan.effective_node_candidates.set node_id (workers.take (min counted (max 1 total)))⟩ := by
  unfold plan_explicit_node at done
  split at done
  · cases done
  · rename_i data found
    obtain ⟨own,_,done⟩ := bind_ok done
    dsimp only at done
    split at done
    · obtain ⟨_,_,done⟩ := bind_ok done
      obtain ⟨counted,total,facts⟩ := place_counted_ok done
      exact ⟨data,counted,total,found,facts⟩
    · obtain ⟨counted,total,facts⟩ := place_counted_ok done
      exact ⟨data,counted,total,found,facts⟩

-- What the plan holds of a node that is cut.
structure CutInto (node_map : NodeMap) (worker_assignment : Workers) (plan : ShardPlan) (node_id : String)
    (count total : Nat) : Prop where
  rows : Rows node_map worker_assignment node_id total
  names : plan.shard_nodes_by_raw.get? node_id = some ((List.range count).map (shard_name node_id))
  partitions : plan.partitions_by_raw.get? node_id = some (build_index_partitions total count)
  workers : plan.effective_node_candidates.get? node_id = some ((listing_workers worker_assignment node_id).take count)
  filled : 0 < count
  covered : count ≤ total
  staffed : count ≤ (listing_workers worker_assignment node_id).length
  shards : ∀ idx, idx < count ↔ HasShard node_map worker_assignment idx node_id

structure Planned (node_map : NodeMap) (worker_assignment candidates : Workers) (before : List String) (plan : ShardPlan) :
    Prop where
  names : ∀ x, x ∈ plan.shard_nodes_by_raw.keys ↔ x ∈ before ∧ sharded worker_assignment x
  partitions : ∀ x, x ∈ plan.partitions_by_raw.keys ↔ x ∈ before ∧ sharded worker_assignment x
  cut : ∀ x ∈ before, sharded worker_assignment x → ∃ count total, CutInto node_map worker_assignment plan x count total
  uncut : ∀ x, ¬ sharded worker_assignment x → plan.effective_node_candidates.get? x = candidates.get? x

theorem cut_kept {shard_nodes : List String} {partitions : List Cut} {workers : List String} (other : x ≠ node_id)
    (cut : CutInto node_map worker_assignment plan x count total) :
    CutInto node_map worker_assignment ⟨plan.shard_nodes_by_raw.set node_id shard_nodes,
      plan.partitions_by_raw.set node_id partitions,plan.effective_node_candidates.set node_id workers⟩ x count total :=
  ⟨cut.rows,(Dict.get?_set_ne _ _ other).trans cut.names,(Dict.get?_set_ne _ _ other).trans cut.partitions,
    (Dict.get?_set_ne _ _ other).trans cut.workers,cut.filled,cut.covered,cut.staffed,cut.shards⟩

-- One node of the order, whose dependencies come before it.
theorem plan_node_step (found : ∀ x, candidates.get? x = listed_by worker_assignment.entries x)
    (planned : Planned node_map worker_assignment candidates before plan) (node : node_map.get? node_id = some base)
    (fresh : node_id ∉ before) (deps : ∀ dep ∈ base.dependsOn, dep ∈ before)
    (done : plan_node node_map (explicit_shard_intent candidates) plan node_id = .ok after) :
    Planned node_map worker_assignment candidates (before ++ [node_id]) after := by
  have members : ∀ x, x ∈ before ++ [node_id] ↔ x ∈ before ∨ x = node_id := by simp
  unfold plan_node at done
  split at done
  · rename_i workers base' listed node'
    cases node.symm.trans node'
    obtain ⟨several,rfl⟩ := (explicit_iff found node_id workers).mp listed
    split at done
    · rename_i placed made
      cases done
      obtain ⟨data,counted,given,data_found,aligned,some_count,inferred,enough,rfl⟩ := plan_explicit_node_ok made
      have cut_deps : base.dependsOn.filter (· ∈ plan.partitions_by_raw) = base.dependsOn.filter (sharded worker_assignment) := by
        refine List.filter_congr fun dep needed => decide_eq_decide.mpr ?_
        exact (planned.partitions dep).trans ⟨And.right,fun cut => ⟨deps dep needed,cut⟩⟩
      have own : Rows node_map worker_assignment node_id (max 1 given) := by
        rcases infer_shard_input_size_ok counted inferred with resolved | ⟨resolved,⟨dep,rest,first,rfl⟩ | ⟨none_cut,totals,above,rfl⟩⟩
        · rw [Nat.max_eq_right (own_total_pos resolved)]
          exact .own node data_found resolved
        · rw [cut_deps] at first
          have member : dep ∈ base.dependsOn.filter (sharded worker_assignment) := first ▸ List.mem_cons_self
          obtain ⟨needed,dep_cut⟩ := List.mem_filter.mp member
          obtain ⟨count,total,cut⟩ := planned.cut dep (deps dep needed) (of_decide_eq_true dep_cut)
          rw [cut.partitions,Option.getD_some,partition_total_eq (rows_pos cut.rows) cut.filled cut.covered]
          have filled := rows_pos cut.rows
          rw [Nat.max_eq_right filled,Nat.max_eq_right filled]
          exact .waited node data_found resolved first cut.rows
        · rw [cut_deps] at none_cut
          rw [Nat.max_eq_right (Nat.le_max_left _ _)]
          exact .above node data_found resolved none_cut above
      have cut : CutInto node_map worker_assignment ⟨plan.shard_nodes_by_raw.set node_id
          ((List.range (min counted (max 1 given))).map (shard_name node_id)),
          plan.partitions_by_raw.set node_id (build_index_partitions given (min counted (max 1 given))),
          plan.effective_node_candidates.set node_id
            ((listing_workers worker_assignment node_id).take (min counted (max 1 given)))⟩ node_id
          (min counted (max 1 given)) (max 1 given) := by
        refine ⟨own,Dict.get?_set_self _ _ _,?_,Dict.get?_set_self _ _ _,by omega,by omega,enough,fun idx => ?_⟩
        · have same : build_index_partitions (max 1 given) (min counted (max 1 given)) =
              build_index_partitions given (min counted (max 1 given)) := by
            unfold build_index_partitions
            rw [Nat.max_eq_right (Nat.le_max_left 1 given)]
          exact (Dict.get?_set_self _ _ _).trans (congrArg some same.symm)
        · rw [Nat.lt_min,aligned_shard_count_ok aligned]
          constructor
          · rintro ⟨⟨staffed,below⟩,low⟩
            refine .shard node staffed own low fun dep needed dep_cut => ?_
            obtain ⟨count,total,cut⟩ := planned.cut dep (deps dep needed) dep_cut
            refine (cut.shards idx).mp (below count (List.mem_filterMap.mpr ⟨dep,needed,?_⟩))
            rw [cut.names,Option.map_some,List.length_map,List.length_range]
          · intro has
            cases has with
            | shard node' staffed rows low others =>
                cases node.symm.trans node'
                rw [rows_unique own rows]
                refine ⟨⟨staffed,fun count member => ?_⟩,low⟩
                obtain ⟨dep,needed,read⟩ := List.mem_filterMap.mp member
                obtain ⟨names,known,rfl⟩ := Option.map_eq_some_iff.mp read
                have dep_cut := ((planned.names dep).mp (Dict.mem_keys_iff.mpr ⟨names,known⟩)).2
                obtain ⟨count,total,cut⟩ := planned.cut dep (deps dep needed) dep_cut
                cases known.symm.trans cut.names
                rw [List.length_map,List.length_range]
                exact (cut.shards idx).mpr (others dep needed dep_cut)
      refine ⟨fun x => ?_,fun x => ?_,fun x here cut_x => ?_,fun x uncut => ?_⟩
      · rw [Dict.mem_keys_set,planned.names,members]
        constructor
        · rintro (⟨old,cut_x⟩ | rfl)
          · exact ⟨.inl old,cut_x⟩
          · exact ⟨.inr rfl,several⟩
        · rintro ⟨old | rfl,cut_x⟩
          · exact .inl ⟨old,cut_x⟩
          · exact .inr rfl
      · rw [Dict.mem_keys_set,planned.partitions,members]
        constructor
        · rintro (⟨old,cut_x⟩ | rfl)
          · exact ⟨.inl old,cut_x⟩
          · exact ⟨.inr rfl,several⟩
        · rintro ⟨old | rfl,cut_x⟩
          · exact .inl ⟨old,cut_x⟩
          · exact .inr rfl
      · rcases (members x).mp here with old | rfl
        · obtain ⟨count,total,cut⟩ := planned.cut x old cut_x
          exact ⟨count,total,cut_kept (fun same => fresh (same ▸ old)) cut⟩
        · exact ⟨_,_,cut⟩
      · have other : x ≠ node_id := fun same => uncut (same ▸ several)
        exact (Dict.get?_set_ne _ _ other).trans (planned.uncut x uncut)
    · cases done
  · rename_i unlisted
    cases done
    have uncut : ¬ sharded worker_assignment node_id := fun cut =>
      unlisted _ _ ((explicit_iff found node_id _).mpr ⟨cut,rfl⟩) node
    have same : ∀ x, x ∈ before ++ [node_id] ∧ sharded worker_assignment x ↔ x ∈ before ∧ sharded worker_assignment x := by
      intro x
      rw [members]
      constructor
      · rintro ⟨old | rfl,cut_x⟩
        · exact ⟨old,cut_x⟩
        · exact absurd cut_x uncut
      · exact fun ⟨old,cut_x⟩ => ⟨.inl old,cut_x⟩
    refine ⟨fun x => (planned.names x).trans (same x).symm,fun x => (planned.partitions x).trans (same x).symm,
      fun x here cut_x => ?_,planned.uncut⟩
    exact planned.cut x ((same x).mp ⟨here,cut_x⟩).1 cut_x

-- The whole order: every node that several workers list is cut.
theorem plan_nodes {order : List String} (found : ∀ x, candidates.get? x = listed_by worker_assignment.entries x)
    (distinct : order.Nodup) (nodes : ∀ x ∈ order, x ∈ node_map.keys)
    (sorted : ∀ front x back, order = front ++ x :: back → ∀ node, node_map.get? x = some node → ∀ dep ∈ node.dependsOn,
      dep ∈ front)
    (done : order.foldlM (plan_node node_map (explicit_shard_intent candidates)) ⟨Dict.empty,Dict.empty,candidates⟩ = .ok after) :
    Planned node_map worker_assignment candidates order after := by
  have whole : ∀ (back front : List String) (plan : ShardPlan), order = front ++ back →
      Planned node_map worker_assignment candidates front plan →
      back.foldlM (plan_node node_map (explicit_shard_intent candidates)) plan = .ok after →
      Planned node_map worker_assignment candidates order after := by
    intro back
    induction back with
    | nil =>
        intro front plan split planned done
        cases done
        rw [List.append_nil] at split
        exact split ▸ planned
    | cons x rest ih =>
        intro front plan split planned done
        rw [List.foldlM_cons] at done
        obtain ⟨next,turn,later⟩ := bind_ok done
        obtain ⟨node,known⟩ := Dict.mem_keys_iff.mp (nodes x (split ▸ List.mem_append_right _ List.mem_cons_self))
        have fresh : x ∉ front := fun again =>
          (List.nodup_append.mp (split ▸ distinct)).2.2 x again x List.mem_cons_self rfl
        refine ih (front ++ [x]) next (by rw [split]; simp) ?_ later
        exact plan_node_step found planned known fresh (sorted front x rest split node known) turn
  refine whole order [] _ rfl ⟨by simp,by simp,by simp,fun _ _ => rfl⟩ done

end

end Lumilake.RuntimeManager

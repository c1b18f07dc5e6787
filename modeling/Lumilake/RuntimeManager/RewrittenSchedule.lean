import Lumilake.RuntimeManager.HintOrder
import Lumilake.RuntimeManager.RewrittenNodes

namespace Lumilake.RuntimeManager
open Fallible

-- The lists of an assignment name nodes of the graph, each at most once a list.
def lists_fit (inside : String → Prop) (assignment : Workers) : Prop :=
  ∀ e ∈ assignment.entries, e.2.Nodup ∧ ∀ x ∈ e.2, inside x

section
variable {shard_nodes_by_raw candidates assignment rewritten : Workers} {merge_nodes : List String}
  {merge_host_by_raw : Dict String String} {inside : String → Prop}

theorem merge_host_ok {worker_ids : List String} {before : Except String (Dict String String)} {after : Dict String String}
    (done : merge_host worker_ids candidates shard_nodes_by_raw node_id before = .ok after) :
    ∃ hosts, before = .ok hosts ∧ ∀ x ∈ after.keys, x ∈ hosts.keys ∨ x = node_id := by
  obtain ⟨hosts,read,done⟩ := bind_ok done
  refine ⟨hosts,read,?_⟩
  split at done
  · cases done
    exact fun x old => .inl old
  · dsimp only at done
    split at done
    · cases done
      exact fun x new => Dict.mem_keys_set.mp new
    · cases done
      exact fun x new => Dict.mem_keys_set.mp new
    · cases done

theorem merge_hosts_ok {worker_ids : List String} {before : Except String (Dict String String)} {after : Dict String String}
    (done : merge_nodes.foldl (fun hosts node_id => merge_host worker_ids candidates shard_nodes_by_raw node_id hosts) before =
      .ok after) : ∃ hosts, before = .ok hosts ∧ ∀ x ∈ after.keys, x ∈ hosts.keys ∨ x ∈ merge_nodes := by
  induction merge_nodes generalizing before with
  | nil => exact ⟨after,done,fun x old => .inl old⟩
  | cons node_id rest ih =>
      rw [List.foldl_cons] at done
      obtain ⟨next,turn,others⟩ := ih done
      obtain ⟨hosts,read,new⟩ := merge_host_ok turn
      refine ⟨hosts,read,fun x member => ?_⟩
      rcases others x member with old | later
      · rcases new x old with known | rfl
        · exact .inl known
        · exact .inr List.mem_cons_self
      · exact .inr (List.mem_cons_of_mem _ later)

-- A worker's entry becomes a shard, or stays when the node does.
theorem assigned_name_ok {mapped : String}
    (found : assigned_name shard_nodes_by_raw candidates merge_host_by_raw worker node_id = some mapped) :
    is_shard shard_nodes_by_raw mapped ∨ mapped = node_id ∧ (node_id ∈ shard_nodes_by_raw.keys → node_id ∈ merge_host_by_raw.keys) := by
  unfold assigned_name at found
  split at found
  · rename_i missing
    cases found
    exact .inr ⟨rfl,fun cut => absurd cut (Dict.get?_eq_none.mp missing)⟩
  · rename_i names cut
    split at found
    · exact .inl ⟨node_id,names,cut,List.mem_of_getElem? found⟩
    · split at found
      · rename_i hosted
        cases found
        exact .inr ⟨rfl,fun _ => Dict.mem_keys_iff.mpr ⟨worker,hosted⟩⟩
      · cases found

theorem append_fits {out : List String} (fits : out.Nodup ∧ ∀ x ∈ out, inside x) (fresh : x ∉ out) (here : inside x) :
    (out ++ [x]).Nodup ∧ ∀ y ∈ out ++ [x], inside y := by
  refine ⟨?_,?_⟩
  · rw [← List.concat_eq_append]
    exact fits.1.concat fresh
  · intro y member
    rcases List.mem_append.mp member with old | new
    · exact fits.2 y old
    · exact List.mem_singleton.mp new ▸ here

variable (shards : ∀ x, is_shard shard_nodes_by_raw x → inside x) (hosted : ∀ x ∈ merge_host_by_raw.keys, inside x)
include shards hosted

theorem assign_node_fits {out : List String} (fits : out.Nodup ∧ ∀ x ∈ out, inside x)
    (uncut : node_id ∉ shard_nodes_by_raw.keys → inside node_id) :
    (assign_node shard_nodes_by_raw candidates merge_host_by_raw worker out node_id).Nodup ∧
      ∀ x ∈ assign_node shard_nodes_by_raw candidates merge_host_by_raw worker out node_id, inside x := by
  unfold assign_node
  split
  · exact fits
  · rename_i mapped found
    split
    · exact fits
    · rename_i fresh
      have here : inside mapped := by
        rcases assigned_name_ok found with shard | ⟨rfl,kept⟩
        · exact shards mapped shard
        · by_cases cut : mapped ∈ shard_nodes_by_raw.keys
          · exact hosted mapped (kept cut)
          · exact uncut cut
      have grown := append_fits fits fresh here
      split
      · rename_i gathered
        have whole := append_fits grown gathered.2 (hosted node_id (Dict.mem_keys_iff.mpr ⟨worker,gathered.1⟩))
        rwa [List.append_assoc] at whole
      · exact grown

theorem assign_nodes_fits {node_ids out : List String} (fits : out.Nodup ∧ ∀ x ∈ out, inside x)
    (uncut : ∀ x ∈ node_ids, x ∉ shard_nodes_by_raw.keys → inside x) :
    (node_ids.foldl (assign_node shard_nodes_by_raw candidates merge_host_by_raw worker) out).Nodup ∧
      ∀ x ∈ node_ids.foldl (assign_node shard_nodes_by_raw candidates merge_host_by_raw worker) out, inside x := by
  induction node_ids generalizing out with
  | nil => exact fits
  | cons node_id rest ih =>
      obtain ⟨first,others⟩ := List.forall_mem_cons.mp uncut
      exact ih (assign_node_fits shards hosted fits first) others

omit shards hosted in
-- The merge nodes that their hosts do not list yet go to the end of the lists.
theorem host_rest_fits {entries : List (String × String)} (hosts : ∀ e ∈ entries, inside e.1) {before : Workers}
    (fits : lists_fit inside before) : lists_fit inside (entries.foldl (fun rewritten entry =>
      let out := (rewritten.get? entry.2).getD []
      rewritten.set entry.2 (if entry.1 ∈ out then out else out ++ [entry.1])) before) := by
  induction entries generalizing before with
  | nil => exact fits
  | cons entry rest ih =>
      obtain ⟨first,others⟩ := List.forall_mem_cons.mp hosts
      refine ih others fun e member => ?_
      rcases Dict.mem_entries_set.mp member with ⟨old,_⟩ | rfl
      · exact fits e old
      · have listed : ((before.get? entry.2).getD []).Nodup ∧ ∀ x ∈ (before.get? entry.2).getD [], inside x := by
          cases found : before.get? entry.2 with
          | none => exact ⟨List.nodup_nil,by simp⟩
          | some out => exact fits _ (Dict.get?_eq_some.mp found)
        dsimp only
        split
        · exact listed
        · rename_i fresh
          exact append_fits listed fresh first

end

theorem rewritten_assignment_fits {assignment shard_nodes_by_raw candidates rewritten : Workers} {merge_nodes : List String}
    {inside : String → Prop} (shards : ∀ x, is_shard shard_nodes_by_raw x → inside x) (merged : ∀ x ∈ merge_nodes, inside x)
    (uncut : ∀ e ∈ assignment.entries, ∀ x ∈ e.2, x ∉ shard_nodes_by_raw.keys → inside x)
    (done : rewrite_worker_assignment_for_shards assignment shard_nodes_by_raw candidates merge_nodes = .ok rewritten) :
    lists_fit inside rewritten := by
  obtain ⟨_,_,done⟩ := bind_ok done
  obtain ⟨merge_host_by_raw,hosts,done⟩ := bind_ok done
  cases done
  obtain ⟨start,empty,new⟩ := merge_hosts_ok hosts
  cases empty
  have hosted : ∀ x ∈ merge_host_by_raw.keys, inside x := by
    intro x member
    rcases new x member with old | merge
    · cases old
    · exact merged x merge
  refine host_rest_fits (fun e member => hosted e.1 (Dict.mem_keys_of_entry member)) fun e member => ?_
  obtain ⟨entry,listed,rfl⟩ := List.mem_map.mp member
  exact assign_nodes_fits shards hosted ⟨List.nodup_nil,by simp⟩ (uncut entry listed)

theorem pruned_sub {node_ids deduped : List String} {worker : String} {candidates : Workers} {x : String}
    (member : x ∈ node_ids.foldl (fun deduped node_id =>
      if (candidates.get? node_id).any (fun allowed => worker ∉ allowed) ∨ node_id ∈ deduped then deduped
      else deduped ++ [node_id]) deduped) : x ∈ deduped ∨ x ∈ node_ids := by
  induction node_ids generalizing deduped with
  | nil => exact .inl member
  | cons node_id rest ih =>
      rw [List.foldl_cons] at member
      rcases ih member with old | later
      · split at old
        · exact .inl old
        · rcases List.mem_append.mp old with old | new
          · exact .inl old
          · exact .inr (List.mem_singleton.mp new ▸ List.mem_cons_self)
      · exact .inr (List.mem_cons_of_mem _ later)

end Lumilake.RuntimeManager

import Lumilake.Optimizer.Dedupe

namespace Lumilake.Optimizer
open Placeholder
variable {graph : RuntimeGraph} {V : Type}

structure Rebuilt (graph : RuntimeGraph) (mapping : Dict String String) (built : Dict String RuntimeOp) : Prop where
  remapped : ∀ id op, built.get? id = some op →
    ∃ old, graph.nodes.get? id = some old ∧ op = remap_op id old mapping

theorem rebuild_node_step {mapping : Dict String String} {built after : Dict String RuntimeOp × List String}
    (rebuilt : Rebuilt graph mapping built.1) (done : rebuild_node graph mapping built node_id = .ok after) :
    Rebuilt graph mapping after.1 ∧ (∀ x ∈ built.1.keys, x ∈ after.1.keys) ∧ mapped mapping node_id ∈ after.1.keys := by
  unfold rebuild_node at done
  cases moved : mapping.get? node_id with
  | none => rw [moved] at done; cases done
  | some canonical =>
      rw [moved] at done
      dsimp only at done
      have target : mapped mapping node_id = canonical := by simp [mapped,moved]
      rw [target]
      split at done
      · rename_i present
        cases done
        exact ⟨rebuilt,fun _ member => member,present⟩
      · cases found : graph.nodes.get? canonical with
        | none => rw [found] at done; cases done
        | some op =>
            rw [found] at done
            cases done
            refine ⟨⟨?_⟩,fun x member => Dict.mem_keys_set.mpr (.inl member),Dict.mem_keys_set.mpr (.inr rfl)⟩
            intro id new known
            by_cases same : id = canonical
            · subst same
              rw [Dict.get?_set_self] at known
              cases known
              exact ⟨op,found,rfl⟩
            · rw [Dict.get?_set_ne _ _ same] at known
              exact rebuilt.remapped id new known

theorem rebuild_nodes {mapping : Dict String String} {ids : List String} {built after : Dict String RuntimeOp × List String}
    (rebuilt : Rebuilt graph mapping built.1) (done : ids.foldlM (rebuild_node graph mapping) built = .ok after) :
    Rebuilt graph mapping after.1 ∧ (∀ x ∈ built.1.keys, x ∈ after.1.keys) ∧
      ∀ id ∈ ids, mapped mapping id ∈ after.1.keys := by
  induction ids generalizing built with
  | nil => cases done; exact ⟨rebuilt,fun _ member => member,fun _ member => by cases member⟩
  | cons id rest ih =>
      rw [List.foldlM_cons] at done
      obtain ⟨next,first,later⟩ := Fallible.bind_ok done
      obtain ⟨step,grown,here⟩ := rebuild_node_step rebuilt first
      obtain ⟨whole,kept,members⟩ := ih step later
      refine ⟨whole,fun x member => kept x (grown x member),?_⟩
      intro x member
      rcases List.mem_cons.mp member with rfl | rest
      · exact kept _ here
      · exact members x rest

theorem rebuild_spec {mapping : Dict String String} {deduped : RuntimeGraph} (done : rebuild graph mapping = .ok deduped) :
    Rebuilt graph mapping deduped.nodes ∧ ∀ id ∈ graph.node_order, mapped mapping id ∈ deduped.nodes.keys := by
  obtain ⟨built,nodes,rest⟩ := Fallible.bind_ok done
  obtain ⟨output_node_map,_,rest⟩ := Fallible.bind_ok rest
  obtain ⟨output_paths,_,last⟩ := Fallible.bind_ok rest
  cases last
  have fresh : Rebuilt graph mapping Dict.empty := ⟨fun _ _ known => by cases known⟩
  obtain ⟨whole,_,members⟩ := rebuild_nodes fresh nodes
  exact ⟨whole,members⟩

-- What one call returns: the graph as it was when nothing merged, else the rebuilt one.
theorem dedupe_cases {deduped : RuntimeGraph} {mapping : Dict String String}
    (done : dedupe_runtime_graph graph = .ok (deduped,mapping)) :
    ∃ order, graph.topological_order = .ok order ∧ mapping = (dedupe_loop graph order).mapping ∧
      ((deduped = graph ∧ ∀ id, mapped mapping id = id) ∨ rebuild graph mapping = .ok deduped) := by
  obtain ⟨order,ordered,rest⟩ := Fallible.bind_ok done
  refine ⟨order,ordered,?_⟩
  dsimp only at rest
  split at rest
  · rename_i identity
    cases rest
    refine ⟨rfl,.inl ⟨rfl,?_⟩⟩
    intro id
    unfold mapped
    cases found : Dict.get? (List.foldl (dedupe_turn graph) dedupe_start order).mapping id with
    | none => rfl
    | some c =>
        have same := List.all_eq_true.mp identity _ (Dict.get?_eq_some.mp found)
        simpa using (eq_of_beq same).symm
  · obtain ⟨result,built,last⟩ := Fallible.bind_ok rest
    cases last
    exact ⟨rfl,.inr built⟩

-- Specs without labels are left as they are.
theorem unlabelled_relabelled {mapping : Dict String String} {op : RuntimeOp}
    (bare : ∀ spec ∈ [op.data_spec,op.model_spec,op.inference_spec,op.api_spec] ++ op.output_spec.toList,
      sorted_labels (.dict (remap_node_spec spec mapping)) = []) : Relabelled graph mapping op := by
  have same : ∀ spec ∈ [op.data_spec,op.model_spec,op.inference_spec,op.api_spec] ++ op.output_spec.toList,
      normalize_spec_for_signature spec mapping = .dict (remap_node_spec spec mapping) := fun spec member => by
    simp [normalize_spec_for_signature,normalize_label_tokens,bare spec member]
  have specs : (runtime_signature op mapping).specs = remap_items mapping mapping (op_specs op) := by
    rw [← op_specs_remap mapping op.node_id]
    simp only [List.mem_append,List.mem_cons,List.not_mem_nil,or_false] at same
    cases output : op.output_spec with
    | none => simp [Signature.specs,runtime_signature,op_specs,remap_op,output,same]
    | some spec =>
        simp [Signature.specs,runtime_signature,op_specs,remap_op,output,same]
  unfold Relabelled
  rw [specs]

def single_node (id : String) (op : RuntimeOp) : RuntimeGraph :=
  ⟨Dict.empty.set id op,[id],Dict.empty,Dict.empty,Dict.empty⟩

end Lumilake.Optimizer

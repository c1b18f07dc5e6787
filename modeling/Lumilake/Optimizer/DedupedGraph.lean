import Lumilake.Optimizer.RemapTexts
import Lumilake.Optimizer.DedupeSound

namespace Lumilake
namespace Optimizer

-- The rebuild after some nodes: each canonical node stands where the first node mapped to
-- it stood.
structure Built (graph : RuntimeGraph) (mapping : Dict String String) (seen : List String)
    (built : Dict String RuntimeOp × List String) : Prop where
  keys : built.1.keys = built.2
  moved : ∀ y ∈ seen, ∃ d, mapping.get? y = some d
  images : ∀ x, x ∈ built.2 ↔ ∃ n ∈ seen, mapping.get? n = some x
  first : ∀ before c after, built.2 = before ++ c :: after → ∃ front n rest, seen = front ++ n :: rest ∧
    mapping.get? n = some c ∧ ∀ y ∈ front, ∃ d ∈ before, mapping.get? y = some d

theorem rebuild_node_built {graph : RuntimeGraph} {mapping : Dict String String} {seen : List String}
    {built after : Dict String RuntimeOp × List String} {id : String} (state : Built graph mapping seen built)
    (done : rebuild_node graph mapping built id = .ok after) : Built graph mapping (seen ++ [id]) after := by
  unfold rebuild_node at done
  cases moved : mapping.get? id with
  | none => rw [moved] at done; cases done
  | some canonical =>
      rw [moved] at done
      dsimp only at done
      have seen_moved : ∀ y ∈ seen ++ [id], ∃ d, mapping.get? y = some d := by
        intro y member
        rcases List.mem_append.mp member with old | new
        · exact state.moved y old
        · exact ⟨canonical,List.mem_singleton.mp new ▸ moved⟩
      split at done
      · rename_i present
        cases done
        have known : canonical ∈ built.2 := state.keys ▸ present
        refine ⟨state.keys,seen_moved,fun x => ⟨fun member => ?_,fun image => ?_⟩,fun before c later split => ?_⟩
        · obtain ⟨n,inside,same⟩ := (state.images x).mp member
          exact ⟨n,List.mem_append_left _ inside,same⟩
        · obtain ⟨n,inside,same⟩ := image
          rcases List.mem_append.mp inside with old | new
          · exact (state.images x).mpr ⟨n,old,same⟩
          · rw [List.mem_singleton.mp new,moved] at same
            exact Option.some.inj same ▸ known
        · obtain ⟨front,n,rest,parts,target,early⟩ := state.first before c later split
          exact ⟨front,n,rest ++ [id],by rw [parts]; simp,target,early⟩
      · rename_i absent
        cases found : graph.nodes.get? canonical with
        | none => rw [found] at done; cases done
        | some op =>
            rw [found] at done
            cases done
            refine ⟨?_,seen_moved,fun x => ⟨fun member => ?_,fun image => ?_⟩,fun before c later split => ?_⟩
            · rw [Dict.keys_set_of_not_mem absent,state.keys]
            · rcases List.mem_append.mp member with old | new
              · obtain ⟨n,inside,same⟩ := (state.images x).mp old
                exact ⟨n,List.mem_append_left _ inside,same⟩
              · exact ⟨id,by simp,List.mem_singleton.mp new ▸ moved⟩
            · obtain ⟨n,inside,same⟩ := image
              rcases List.mem_append.mp inside with old | new
              · exact List.mem_append_left _ ((state.images x).mpr ⟨n,old,same⟩)
              · rw [List.mem_singleton.mp new,moved] at same
                exact List.mem_append_right _ (List.mem_singleton.mpr (Option.some.inj same).symm)
            · rcases List.eq_nil_or_concat later with rfl | ⟨middle,last,rfl⟩
              · obtain ⟨rfl,same⟩ := List.append_inj' split rfl
                cases same
                refine ⟨seen,id,[],rfl,moved,fun y member => ?_⟩
                obtain ⟨d,target⟩ := state.moved y member
                exact ⟨d,(state.images d).mpr ⟨y,member,target⟩,target⟩
              · rw [List.concat_eq_append,← List.cons_append,← List.append_assoc] at split
                obtain ⟨earlier,_⟩ := List.append_inj' split rfl
                obtain ⟨front,n,rest,parts,target,early⟩ := state.first before c middle earlier
                exact ⟨front,n,rest ++ [id],by rw [parts]; simp,target,early⟩

theorem rebuild_built {graph : RuntimeGraph} {mapping : Dict String String} {ids seen : List String}
    {built after : Dict String RuntimeOp × List String} (state : Built graph mapping seen built)
    (done : ids.foldlM (rebuild_node graph mapping) built = .ok after) : Built graph mapping (seen ++ ids) after := by
  induction ids generalizing seen built with
  | nil => cases done; simpa using state
  | cons id rest ih =>
      rw [List.foldlM_cons] at done
      obtain ⟨next,first,later⟩ := Fallible.bind_ok done
      simpa using ih (rebuild_node_built state first) later

-- Keys that are mapped to themselves stay where they are.
theorem rekey_fixed {mapping : Dict String String} {entries : List (String × String)} {d after : Dict String String}
    (fixed : ∀ e ∈ entries, mapping.get? e.1 = some e.1) (done : entries.foldlM (rekey mapping) d = .ok after) :
    after = entries.foldl (fun d e => d.set e.1 e.2) d := by
  induction entries generalizing d with
  | nil => cases done; rfl
  | cons e rest ih =>
      rw [List.foldlM_cons] at done
      obtain ⟨next,first,later⟩ := Fallible.bind_ok done
      have here : rekey mapping d e = .ok (d.set e.1 e.2) := by
        unfold rekey
        rw [fixed e List.mem_cons_self]
      rw [here] at first
      cases first
      exact ih (fun f member => fixed f (List.mem_cons_of_mem _ member)) later

-- What dedupe leaves of a graph.
structure Deduped (graph deduped : RuntimeGraph) (mapping : Dict String String) : Prop where
  total : ∀ x ∈ graph.nodes.keys, ∃ c, mapping.get? x = some c ∧ c ∈ graph.nodes.keys
  outside : ∀ x ∉ graph.nodes.keys, mapping.get? x = none
  fixed : ∀ x c, mapping.get? x = some c → mapping.get? c = some c
  output : ∀ x ∈ graph.nodes.keys, x ∈ graph.output_node_map → mapping.get? x = some x
  dependencies : ∀ x op c, graph.nodes.get? x = some op → mapping.get? x = some c → ∃ kept, graph.nodes.get? c = some kept ∧
    kept.dependencies.map (mapped mapping) = op.dependencies.map (mapped mapping)
  keys : deduped.nodes.keys = deduped.node_order
  images : ∀ x, x ∈ deduped.node_order ↔ mapping.get? x = some x
  kept : ∀ c op, graph.nodes.get? c = some op → mapping.get? c = some c → ∃ new, deduped.nodes.get? c = some new ∧
    (∀ d, d ∈ new.dependencies ↔ d ∈ op.dependencies.map (mapped mapping)) ∧
    op_texts new = (op_texts op).map (remap_text mapping mapping)
  first : ∀ before c after, deduped.node_order = before ++ c :: after → ∃ front n rest, graph.node_order = front ++ n :: rest ∧
    mapping.get? n = some c ∧ ∀ y ∈ front, ∃ d ∈ before, mapping.get? y = some d
  outputs : ∀ x, deduped.output_node_map.get? x = graph.output_node_map.get? x
  paths : ∀ x, deduped.output_paths.get? x = graph.output_paths.get? x

theorem dedupe_deduped {graph deduped : RuntimeGraph} {mapping : Dict String String}
    (done : dedupe_runtime_graph graph = .ok (deduped,mapping)) (aligned : Aligned graph)
    (keys : graph.nodes.keys = graph.node_order) : Deduped graph deduped mapping := by
  obtain ⟨order,ordered,rfl,result⟩ := dedupe_cases done
  have whole := looped_order ordered
  have total : ∀ x ∈ graph.nodes.keys,
      ∃ c, (dedupe_loop graph order).mapping.get? x = some c ∧ c ∈ graph.nodes.keys := by
    intro x node
    obtain ⟨c,moved⟩ := node_mapped ordered node
    exact ⟨c,moved,(mapped_node ordered moved).2⟩
  have outside : ∀ x ∉ graph.nodes.keys, (dedupe_loop graph order).mapping.get? x = none := fun x away =>
    Dict.get?_eq_none.mpr fun member => by
      obtain ⟨c,moved⟩ := Dict.mem_keys_iff.mp member
      exact away (mapped_node ordered moved).1
  have output : ∀ x ∈ graph.nodes.keys, x ∈ graph.output_node_map → (dedupe_loop graph order).mapping.get? x = some x := by
    intro x node out
    obtain ⟨c,moved,_⟩ := total x node
    have same := whole.output x c moved out
    rwa [same] at moved
  have dependencies : ∀ x op c, graph.nodes.get? x = some op → (dedupe_loop graph order).mapping.get? x = some c →
      ∃ kept, graph.nodes.get? c = some kept ∧ kept.dependencies.map (mapped (dedupe_loop graph order).mapping) =
        op.dependencies.map (mapped (dedupe_loop graph order).mapping) := fun _ _ _ => canonical_dependencies ordered
  rcases result with ⟨rfl,identity⟩ | built
  · have self : ∀ x ∈ deduped.nodes.keys, (dedupe_loop deduped order).mapping.get? x = some x := by
      intro x node
      obtain ⟨c,moved,_⟩ := total x node
      have same : c = x := by
        rw [← identity x,mapped,moved]
        rfl
      rwa [same] at moved
    refine ⟨total,outside,whole.fixed,output,dependencies,keys,fun x => ⟨fun member => ?_,fun moved => ?_⟩,
      fun c op node _ => ⟨op,node,fun d => ?_,?_⟩,fun before c after split => ?_,fun _ => rfl,fun _ => rfl⟩
    · exact self x (keys ▸ member)
    · exact keys ▸ (mapped_node ordered moved).1
    · rw [List.map_congr_left fun dep _ => identity dep,List.map_id']
    · rw [List.map_congr_left fun t _ => remap_text_identity identity t,List.map_id']
    · have inside : ∀ x ∈ before ++ c :: after, (dedupe_loop deduped order).mapping.get? x = some x := fun x member =>
        self x (keys ▸ split ▸ member)
      exact ⟨before,c,after,split,inside c (by simp),fun y member => ⟨y,member,inside y (List.mem_append_left _ member)⟩⟩
  · obtain ⟨state,nodes,rest⟩ := Fallible.bind_ok built
    obtain ⟨output_node_map,outputs,rest⟩ := Fallible.bind_ok rest
    obtain ⟨output_paths,paths,last⟩ := Fallible.bind_ok rest
    cases last
    have start : Built graph (dedupe_loop graph order).mapping [] (Dict.empty,[]) :=
      ⟨rfl,by simp,by simp,by simp⟩
    have ordered_nodes := rebuild_built start nodes
    rw [List.nil_append] at ordered_nodes
    obtain ⟨rebuilt,_,_⟩ := rebuild_nodes ⟨fun _ _ known => by cases known⟩ nodes
    have fixed_outputs : ∀ e ∈ graph.output_node_map.entries, (dedupe_loop graph order).mapping.get? e.1 = some e.1 := by
      intro e member
      have out := Dict.mem_keys_of_entry member
      exact output e.1 (aligned.outputs e.1 out) out
    have fixed_paths : ∀ e ∈ graph.output_paths.entries, (dedupe_loop graph order).mapping.get? e.1 = some e.1 := by
      intro e member
      have out := aligned.paths e.1 (Dict.mem_keys_of_entry member)
      exact output e.1 (aligned.outputs e.1 out) out
    refine ⟨total,outside,whole.fixed,output,dependencies,ordered_nodes.keys,fun x => ⟨fun member => ?_,fun moved => ?_⟩,
      fun c op node self => ?_,ordered_nodes.first,fun x => ?_,fun x => ?_⟩
    · obtain ⟨n,_,moved⟩ := (ordered_nodes.images x).mp member
      exact whole.fixed n x moved
    · exact (ordered_nodes.images x).mpr ⟨x,keys ▸ (mapped_node ordered moved).1,moved⟩
    · have inside : c ∈ state.1.keys := by
        rw [ordered_nodes.keys]
        exact (ordered_nodes.images c).mpr ⟨c,keys ▸ Dict.mem_keys_iff.mpr ⟨op,node⟩,self⟩
      obtain ⟨new,found⟩ := Dict.mem_keys_iff.mp inside
      obtain ⟨old,old_node,rfl⟩ := rebuilt.remapped c new found
      rw [node] at old_node
      cases old_node
      exact ⟨_,found,fun d => mem_dedupe_ordered,op_texts_remap _ c op⟩
    · rw [rekey_fixed fixed_outputs outputs]
      have here := @Dict.get?_update _ _ _ _ x (fun v : String => v) graph.output_node_map Dict.empty
      rw [Option.map_id_fun'] at here
      simpa using here
    · rw [rekey_fixed fixed_paths paths]
      have here := @Dict.get?_update _ _ _ _ x (fun v : String => v) graph.output_paths Dict.empty
      rw [Option.map_id_fun'] at here
      simpa using here

-- The first node mapped to a kept node has the same dependencies, and they come before it.
theorem Deduped.topological {graph deduped : RuntimeGraph} {mapping : Dict String String}
    (state : Deduped graph deduped mapping) (keys : graph.nodes.keys = graph.node_order) (topological : Topological graph) :
    Topological deduped := by
  intro before c after split new found dep member present
  obtain ⟨front,n,rest,parts,moved,early⟩ := state.first before c after split
  have n_node : n ∈ graph.nodes.keys := by rw [keys,parts]; simp
  obtain ⟨op,is_op⟩ := Dict.mem_keys_iff.mp n_node
  obtain ⟨kept,kept_node,same⟩ := state.dependencies n op c is_op moved
  obtain ⟨new',found',members,_⟩ := state.kept c kept kept_node (state.fixed n c moved)
  rw [found] at found'
  cases found'
  rw [members,same] at member
  obtain ⟨old,used,rfl⟩ := List.mem_map.mp member
  rw [state.keys,state.images] at present
  have old_node : old ∈ graph.nodes.keys := by
    by_contra away
    have unmoved : mapped mapping old = old := by rw [mapped,state.outside old away]; rfl
    rw [unmoved,state.outside old away] at present
    cases present
  obtain ⟨d,ahead,target⟩ := early old (topological front n rest parts op is_op old used old_node)
  rw [mapped,target]
  exact ahead

end Optimizer
end Lumilake

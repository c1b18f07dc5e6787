import Mathlib.Algebra.Ring.Nat
import Lumilake.Library.Tiling
import Lumilake.Routes.Submission

namespace Lumilake.Routes
open Fallible Tiling

section
variable {inputs : Inputs}

theorem max_len_spec (inputs : Inputs) : (max_len inputs = 0 ∨ ∃ vals ∈ inputs.values, vals.length = max_len inputs) ∧
    ∀ vals ∈ inputs.values, vals.length ≤ max_len inputs := by
  have longest : max_len inputs ∈ 0 :: inputs.values.map List.length ∧
      ∀ n ∈ 0 :: inputs.values.map List.length, n ≤ max_len inputs := List.max?_eq_some_iff.mp List.max?_cons'
  refine ⟨?_,fun vals member => longest.2 _ (List.mem_cons_of_mem _ (List.mem_map_of_mem member))⟩
  rcases List.mem_cons.mp longest.1 with zero | one_of
  · exact .inl zero
  · exact .inr (List.mem_map.mp one_of)

theorem max_len_eq {n : Nat} (reached : ∃ vals ∈ inputs.values, vals.length = n)
    (most : ∀ vals ∈ inputs.values, vals.length ≤ n) : max_len inputs = n := by
  obtain ⟨vals,member,rfl⟩ := reached
  refine le_antisymm ?_ ((max_len_spec inputs).2 vals member)
  rcases (max_len_spec inputs).1 with zero | ⟨other,listed,length⟩
  · omega
  · exact length ▸ most other listed

-- A batch has as many rows as are left, and no more than the batch size.
theorem max_len_batch_from {input_batch_size start : Nat} (matching : lengths_match inputs = true)
    (positive : 0 < input_batch_size) (split : input_batch_size < max_len inputs) (inside : start < max_len inputs) :
    max_len (batch_from inputs start input_batch_size) = min input_batch_size (max_len inputs - start) := by
  have values : (batch_from inputs start input_batch_size).values =
      inputs.values.map fun vals => if vals.length = 1 then vals else (vals.drop start).take input_batch_size := by
    simp [Dict.values,batch_from,Dict.mapValues]
  refine max_len_eq ?_ ?_ <;> rw [values]
  · obtain ⟨vals,member,length⟩ := (max_len_spec inputs).1.resolve_left (by omega)
    refine ⟨_,List.mem_map_of_mem member,?_⟩
    rw [if_neg (by omega),List.length_take,List.length_drop,length]
  · intro vals member
    obtain ⟨full,listed,rfl⟩ := List.mem_map.mp member
    split
    · omega
    · rename_i several
      have whole : full.length = max_len inputs :=
        (of_decide_eq_true (List.all_eq_true.mp matching full listed)).resolve_left several
      rw [List.length_take,List.length_drop,whole]

end

-- The input rows a slice stands for.
def slice_piece (slice : WorkflowSliceMeta) : Piece Nat :=
  ⟨slice.slice_start,List.range' slice.slice_start slice.slice_length⟩

-- The slices of a cut, from its batches; `start` is where the first one begins.
def Cut.slices (cut : Cut) (template_hash : String) : Nat → List (Inputs × Nat) → List WorkflowSliceMeta
  | _,[] => []
  | start,batch :: rest =>
    ⟨cut.name,batch.2,start,max_len batch.1,cut.total_length,template_hash,cut.varying_input_keys⟩ ::
      cut.slices template_hash (start + max_len batch.1) rest

theorem Cut.mem_slices {cut : Cut} {template_hash : String} {start : Nat} {batches : List (Inputs × Nat)}
    {slice : WorkflowSliceMeta} (member : slice ∈ cut.slices template_hash start batches) :
    slice.public_graph_name = cut.name ∧ slice.total_length = cut.total_length ∧ start ≤ slice.slice_start ∧
      slice.slice_start + slice.slice_length ≤ start + (batches.map fun batch => max_len batch.1).sum := by
  induction batches generalizing start with
  | nil => cases member
  | cons batch rest ih =>
      rw [List.map_cons,List.sum_cons]
      rcases List.mem_cons.mp member with rfl | later
      · exact ⟨rfl,rfl,le_rfl,by dsimp only; omega⟩
      · obtain ⟨name,total,low,high⟩ := ih later
        exact ⟨name,total,by omega,by omega⟩

theorem Cut.slices_index (cut : Cut) (template_hash : String) (start : Nat) (batches : List (Inputs × Nat)) :
    (cut.slices template_hash start batches).map WorkflowSliceMeta.slice_index = batches.map Prod.snd := by
  induction batches generalizing start with
  | nil => rfl
  | cons batch rest ih => simp [Cut.slices,ih]

-- They tile the rows from the first start to the end of the last.
theorem Cut.slices_tile (cut : Cut) (template_hash : String) (start : Nat) (batches : List (Inputs × Nat)) :
    ((cut.slices template_hash start batches).map slice_piece).Pairwise Apart ∧
      ∀ i, start ≤ i → i < start + (batches.map fun batch => max_len batch.1).sum →
        ∃ p ∈ (cut.slices template_hash start batches).map slice_piece, p.Covers i := by
  induction batches generalizing start with
  | nil => exact ⟨.nil,fun i low high => by simp at high; omega⟩
  | cons batch rest ih =>
      obtain ⟨apart,full⟩ := ih (start + max_len batch.1)
      rw [Cut.slices,List.map_cons,List.map_cons,List.sum_cons]
      refine ⟨List.pairwise_cons.mpr ⟨?_,apart⟩,?_⟩
      · intro p member i both
        obtain ⟨slice,listed,rfl⟩ := List.mem_map.mp member
        have behind := (Cut.mem_slices listed).2.2.1
        obtain ⟨⟨_,high⟩,low,_⟩ := both
        simp only [slice_piece,Piece.stop,List.length_range'] at high low
        omega
      · intro i low high
        by_cases first : i < start + max_len batch.1
        · exact ⟨_,List.mem_cons_self,low,by simpa [slice_piece,Piece.stop] using first⟩
        · obtain ⟨p,member,covers⟩ := full i (by omega) (by omega)
          exact ⟨p,List.mem_cons_of_mem _ member,covers⟩

theorem chunk_inputs_total {inputs : Inputs} {input_batch_size : Nat} {batches : List Inputs} (positive : 0 < input_batch_size)
    (chunked : chunk_inputs inputs input_batch_size = .ok batches) : (batches.map max_len).sum = max_len inputs := by
  unfold chunk_inputs at chunked
  split at chunked
  · rename_i matching
    split at chunked
    · cases chunked
      exact Nat.add_zero _
    · rename_i large
      have split_up : input_batch_size < max_len inputs := Nat.lt_of_not_le large
      -- After some turns their batches hold what these turns reach of the rows.
      have turns : ∀ count, count * input_batch_size < max_len inputs + input_batch_size →
          ((List.range count).map fun turn => max_len (batch_from inputs (turn * input_batch_size) input_batch_size)).sum =
            min (count * input_batch_size) (max_len inputs) := by
        intro count
        induction count with
        | zero => intro _; simp
        | succ count ih =>
            intro reach
            rw [Nat.succ_mul] at reach ⊢
            have inside : count * input_batch_size < max_len inputs := by omega
            rw [List.range_succ,List.map_append,List.sum_append,ih (by omega),List.map_singleton,List.sum_singleton,
              max_len_batch_from matching positive split_up inside]
            omega
      cases chunked
      have last := Nat.div_mul_le_self (max_len inputs + input_batch_size - 1) input_batch_size
      have enough := Nat.lt_div_mul_add (a := max_len inputs + input_batch_size - 1) positive
      rw [List.map_map]
      refine (turns _ (by omega)).trans (min_eq_right (by omega))
  · cases chunked

theorem cut_entry_spec {Template : Type} {entry : JobSubmitItem Template} {idx : Nat} {cut : Cut}
    (known : cut_entry entry idx = .ok cut) :
    cut.name = entry.public_name idx ∧ (cut.input_batches.map max_len).sum = cut.total_length := by
  unfold cut_entry at known
  cases shape : input_shape entry.inputs with
  | error text => rw [shape] at known; cases known
  | ok shaped =>
      obtain ⟨total_length,varying_input_keys⟩ := shaped
      simp only [shape] at known
      split at known
      · cases known
      · rename_i positive
        have total : max_len entry.inputs = total_length := by
          unfold input_shape at shape
          split at shape <;> cases shape
          rfl
        cases chunked : chunk_inputs entry.inputs (entry.input_batch_size.getD 1).toNat with
        | error text => rw [chunked] at known; cases known
        | ok batches =>
            rw [chunked] at known
            cases known
            exact ⟨rfl,(chunk_inputs_total (by omega) chunked).trans total⟩

-- The slices of one workflow.
def slices_of (slices : List WorkflowSliceMeta) (public_name : String) : List WorkflowSliceMeta :=
  slices.filter fun slice => decide (slice.public_graph_name = public_name)

-- What the loop keeps: a slice's graph is known by its key, and the slices of a workflow are
-- numbered in order and tile its rows.
structure Sliced {GraphSpec : Type} (format : WorkflowFormat) (s : Slices GraphSpec) : Prop where
  keyed : ∀ name ∈ s.workflow_slices.keys, format.spec_name name ∈ s.graph_specs.keys
  seen : ∀ slice ∈ s.workflow_slices.values, slice.public_graph_name ∈ s.seen_public_names
  numbered : ∀ name, (slices_of s.workflow_slices.values name).map WorkflowSliceMeta.slice_index =
    List.range (slices_of s.workflow_slices.values name).length
  tiled : ∀ slice ∈ s.workflow_slices.values, Tiles slice.total_length
    ((slices_of s.workflow_slices.values slice.public_graph_name).map slice_piece)

section
variable {Template GraphSpec Compiled : Type} {compiler : Compiler Template GraphSpec Compiled} {format : WorkflowFormat}

theorem add_slice_spec {cut : Cut} {template : Template} {s after : Slices GraphSpec × Nat} {batch : Inputs × Nat}
    (keyed : ∀ name ∈ s.1.workflow_slices.keys, format.spec_name name ∈ s.1.graph_specs.keys)
    (known : add_slice compiler format cut template s batch = .ok after) :
    (∀ name ∈ after.1.workflow_slices.keys, format.spec_name name ∈ after.1.graph_specs.keys) ∧
      after.1.seen_public_names = s.1.seen_public_names ∧ after.2 = s.2 + max_len batch.1 ∧
      after.1.workflow_slices.values = s.1.workflow_slices.values ++
        cut.slices (compiler.workflow_template_hash template) s.2 [batch] := by
  unfold add_slice at known
  dsimp only at known
  split at known
  · cases known
  · split at known
    · cases known
    · split at known
      · cases known
      · rename_i fresh
        cases known
        have new : cut.graph_name batch.2 ∉ s.1.workflow_slices.keys := fun present => fresh (keyed _ present)
        refine ⟨?_,rfl,rfl,?_⟩
        · intro name member
          rcases Dict.mem_keys_set.mp member with old | rfl
          · exact Dict.mem_keys_set.mpr (.inl (keyed name old))
          · exact Dict.mem_keys_set.mpr (.inr rfl)
        · rw [Dict.values,Dict.entries_set_fresh new,List.map_append]
          rfl

theorem add_slices_spec {cut : Cut} {template : Template} {batches : List (Inputs × Nat)} {s after : Slices GraphSpec × Nat}
    (keyed : ∀ name ∈ s.1.workflow_slices.keys, format.spec_name name ∈ s.1.graph_specs.keys)
    (known : batches.foldlM (add_slice compiler format cut template) s = .ok after) :
    (∀ name ∈ after.1.workflow_slices.keys, format.spec_name name ∈ after.1.graph_specs.keys) ∧
      after.1.seen_public_names = s.1.seen_public_names ∧
      after.1.workflow_slices.values = s.1.workflow_slices.values ++
        cut.slices (compiler.workflow_template_hash template) s.2 batches := by
  induction batches generalizing s with
  | nil => cases known; exact ⟨keyed,rfl,(List.append_nil _).symm⟩
  | cons batch rest ih =>
      rw [List.foldlM_cons] at known
      obtain ⟨next,first,later⟩ := bind_ok known
      obtain ⟨keyed',seen,stop,one⟩ := add_slice_spec keyed first
      obtain ⟨keyed'',seen',others⟩ := ih keyed' later
      refine ⟨keyed'',seen'.trans seen,?_⟩
      rw [others,one,stop,List.append_assoc]
      rfl

theorem slices_of_cut (cut : Cut) (template_hash : String) (start : Nat) (batches : List (Inputs × Nat)) (name : String) :
    slices_of (cut.slices template_hash start batches) name =
      if cut.name = name then cut.slices template_hash start batches else [] := by
  split
  · rename_i same
    exact List.filter_eq_self.mpr fun slice member => decide_eq_true ((Cut.mem_slices member).1.trans same)
  · rename_i other
    refine List.filter_eq_nil_iff.mpr fun slice member named => ?_
    exact other ((Cut.mem_slices member).1.symm.trans (of_decide_eq_true named))

-- A workflow with a name of its own adds slices that tile its rows and leaves the others be.
theorem Sliced.add_cut {s after : Slices GraphSpec} {cut : Cut} {template_hash : String} (sliced : Sliced format s)
    (fresh : cut.name ∉ s.seen_public_names) (total : (cut.input_batches.map max_len).sum = cut.total_length)
    (keyed : ∀ name ∈ after.workflow_slices.keys, format.spec_name name ∈ after.graph_specs.keys)
    (seen : after.seen_public_names = s.seen_public_names ++ [cut.name])
    (values : after.workflow_slices.values = s.workflow_slices.values ++ cut.slices template_hash 0 cut.input_batches.zipIdx) :
    Sliced format after := by
  have whole : (cut.input_batches.zipIdx.map fun batch => max_len batch.1).sum = cut.total_length := by
    have batches : cut.input_batches.zipIdx.map (fun batch => max_len batch.1) = cut.input_batches.map max_len := by
      conv => rhs; rw [← List.zipIdx_map_fst 0 cut.input_batches,List.map_map]
      rfl
    rw [batches,total]
  have none_of : slices_of s.workflow_slices.values cut.name = [] :=
    List.filter_eq_nil_iff.mpr fun slice member named => fresh (of_decide_eq_true named ▸ sliced.seen slice member)
  have of_name : ∀ name, slices_of after.workflow_slices.values name =
      if cut.name = name then cut.slices template_hash 0 cut.input_batches.zipIdx
      else slices_of s.workflow_slices.values name := by
    intro name
    rw [values,slices_of,List.filter_append,← slices_of,← slices_of,slices_of_cut]
    split
    · rename_i same
      rw [← same,none_of,List.nil_append]
    · exact List.append_nil _
  refine ⟨keyed,?_,?_,?_⟩
  · intro slice member
    rw [values,List.mem_append] at member
    rw [seen,List.mem_append,List.mem_singleton]
    exact member.imp (sliced.seen slice) fun new => (Cut.mem_slices new).1
  · intro name
    rw [of_name]
    split
    · have count := congrArg List.length (cut.slices_index template_hash 0 cut.input_batches.zipIdx)
      rw [List.length_map,List.length_map,List.length_zipIdx] at count
      rw [Cut.slices_index,List.zipIdx_map_snd,count,List.range_eq_range']
    · exact sliced.numbered name
  · intro slice member
    rw [of_name]
    split
    · rename_i same
      have entire := of_name slice.public_graph_name
      rw [if_pos same] at entire
      have own : slice ∈ cut.slices template_hash 0 cut.input_batches.zipIdx :=
        entire ▸ List.mem_filter.mpr ⟨member,decide_eq_true rfl⟩
      obtain ⟨apart,full⟩ := cut.slices_tile template_hash 0 cut.input_batches.zipIdx
      rw [(Cut.mem_slices own).2.1]
      refine ⟨?_,apart,?_⟩
      · intro p listed
        obtain ⟨part,inside,rfl⟩ := List.mem_map.mp listed
        have within := (Cut.mem_slices inside).2.2.2
        simp only [slice_piece,Piece.stop,List.length_range']
        omega
      · intro i small
        exact full i (Nat.zero_le i) (by omega)
    · rename_i other
      rw [values,List.mem_append] at member
      refine sliced.tiled slice (member.resolve_right fun new => ?_)
      exact other (Cut.mem_slices new).1.symm

theorem add_entry_sliced {s after : Slices GraphSpec} {entry : JobSubmitItem Template × Nat} (sliced : Sliced format s)
    (known : add_entry compiler format s entry = .ok after) : Sliced format after := by
  unfold add_entry at known
  split at known
  · cases known
  · rename_i fresh
    obtain ⟨cut,entered,known⟩ := bind_ok known
    obtain ⟨name,total⟩ := cut_entry_spec entered
    rw [← name] at fresh
    cases payload : entry.1.workflow_payload with
    | none =>
        -- No workflow and no slice, but the name is taken.
        rw [payload] at known
        cases known
        exact ⟨sliced.keyed,fun slice member => List.mem_append_left _ (sliced.seen slice member),sliced.numbered,sliced.tiled⟩
    | some template =>
        rw [payload] at known
        obtain ⟨last,added,rfl⟩ := map_ok known
        obtain ⟨keyed,seen,values⟩ := add_slices_spec sliced.keyed added
        exact sliced.add_cut fresh total keyed seen values

-- Every submission that gets as far as the slice check has been cut as the results are put
-- together again: the slices of each workflow tile its rows.
theorem prepare_sliced {submission : Submission Template} {prepared : Prepared GraphSpec}
    (known : prepare compiler submission = .ok prepared) : Sliced submission.format prepared.slices := by
  unfold prepare at known
  split at known
  · cases known
  · obtain ⟨slices,entered,known⟩ := bind_ok known
    obtain ⟨_,_,known⟩ := bind_ok known
    obtain ⟨_,_,known⟩ := bind_ok known
    split at known
    · cases known
    · cases known
      refine foldlM_keeps (Sliced submission.format) (fun s entry after kept => add_entry_sliced kept) ?_ entered
      exact ⟨fun _ member => (nomatch member),fun _ member => (nomatch member),fun _ => rfl,fun _ member => (nomatch member)⟩

end

theorem span_error_isSome {workflow_slices : Dict String (List WorkflowSliceMeta)} {entry : String × RuntimeGraph} :
    (span_error workflow_slices entry).isSome ↔ 1 < ((workflow_slices.get? entry.1).getD []).length ∧
      ∃ node_id ∈ entry.2.output_node_map.keys, node_id ∈ entry.2.list_lambda_cardinality_nodes := by
  unfold span_error
  dsimp only
  split
  · rename_i none_of
    simp [none_of]
  · split
    · rename_i few
      exact iff_of_false Bool.false_ne_true fun several => Nat.not_lt.mpr few several.1
    · rename_i several
      rw [Option.isSome_map,List.find?_isSome]
      constructor
      · rintro ⟨o,member,listed⟩
        exact ⟨Nat.lt_of_not_le several,o.1,List.mem_map_of_mem member,of_decide_eq_true listed⟩
      · rintro ⟨_,_,output,listed⟩
        obtain ⟨o,member,rfl⟩ := List.mem_map.mp output
        exact ⟨o,member,decide_eq_true listed⟩

-- The check is made under the name of a graph, and the slices are kept under public names: a
-- submission is turned down when a graph with such an output is called as a workflow of several slices.
theorem submit_rejects_iff {Template GraphSpec Compiled : Type} {compiler : Compiler Template GraphSpec Compiled}
    {submission : Submission Template} {prepared : Prepared GraphSpec} (known : prepare compiler submission = .ok prepared) :
    (∃ rejection, submit compiler submission = .error rejection) ↔
      ∃ name graph, prepared.runtime_graphs.get? name = some graph ∧
        1 < (slices_of prepared.slices.workflow_slices.values name).length ∧
        ∃ node_id ∈ graph.output_node_map.keys, node_id ∈ graph.list_lambda_cardinality_nodes := by
  have rejected : (∃ rejection, submit compiler submission = .error rejection) ↔
      ∃ e ∈ prepared.runtime_graphs.entries, (span_error (slices_by_name prepared.runtime_graphs
        prepared.slices.workflow_slices) e).isSome := by
    rw [← List.findSome?_isSome_iff,submit,known,ok_bind,validate_list_lambda_slice_span]
    cases prepared.runtime_graphs.entries.findSome? (span_error (slices_by_name prepared.runtime_graphs
      prepared.slices.workflow_slices)) with
    | none => simp [ok_bind,pure,Except.pure]
    | some rejection => exact ⟨fun _ => rfl,fun _ => ⟨rejection,rfl⟩⟩
  have asked : ∀ name graph, prepared.runtime_graphs.get? name = some graph →
      ((slices_by_name prepared.runtime_graphs prepared.slices.workflow_slices).get? name).getD [] =
        slices_of prepared.slices.workflow_slices.values name := by
    intro name graph found
    rw [slices_by_name,Dict.get?_mapValues found]
    rfl
  rw [rejected]
  constructor
  · rintro ⟨⟨name,graph⟩,member,some_error⟩
    have found := Dict.get?_eq_some.mpr member
    obtain ⟨several,output⟩ := span_error_isSome.mp some_error
    rw [asked name graph found] at several
    exact ⟨name,graph,found,several,output⟩
  · rintro ⟨name,graph,found,several,output⟩
    refine ⟨(name,graph),Dict.get?_eq_some.mp found,span_error_isSome.mpr ⟨?_,output⟩⟩
    rw [asked name graph found]
    exact several

end Lumilake.Routes

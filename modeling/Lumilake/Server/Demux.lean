import Mathlib.Algebra.Ring.Nat
import Mathlib.Data.List.Dedup
import Mathlib.Data.List.Flatten
import Mathlib.Data.List.Sort
import Lumilake.Library.Claiming
import Lumilake.Server.ProcessBatch

namespace Lumilake.Server
open Fallible Claiming

-- What is handed back to the workflows: their outputs, and the chat history of an output.
inductive Part where
  | output
  | history
  deriving DecidableEq

def Part.title : Part → String
  | .output => "Output"
  | .history => "History"

def Part.word : Part → String
  | .output => "output"
  | .history => "history"

inductive DemuxError where
  | missing_mapping (node_id : String)
  | list_lambda (output_name group_key : String) (slices : Nat)
  | slice_mismatch (part : Part) (workflow_id output_name : String) (expected got : Nat)
  | merged_mismatch (part : Part) (group_key output_name : String) (expected got : Nat)
  | duplicate (part : Part) (workflow_id output_name : String)
  deriving DecidableEq

def DemuxError.text : DemuxError → String
  | .missing_mapping node_id => "Missing output mapping for runtime node " ++ node_id
  | .list_lambda output_name group_key slices =>
    "List-Lambda output cannot be split across slices: " ++ output_name ++ " covers " ++ toString slices ++
      " slice(s) in group " ++ group_key ++ ". A list-mode Lambda runs once per run and its single whole-list result " ++
      "cannot be partitioned per slice."
  | .slice_mismatch part workflow_id output_name expected got =>
    part.title ++ " length mismatch for workflow slice " ++ workflow_id ++ ":" ++ output_name ++ ". expected=" ++
      toString expected ++ " got=" ++ toString got
  | .merged_mismatch part group_key output_name expected got =>
    part.title ++ " length mismatch for merged workflow " ++ group_key ++ ":" ++ output_name ++ ". expected=" ++
      toString expected ++ " got=" ++ toString got
  | .duplicate part workflow_id output_name =>
    "Duplicate " ++ part.word ++ " assignment for workflow " ++ workflow_id ++ ":" ++ output_name

-- What step 5 of `_process_batch` reads besides the results: the groups, the group and
-- output name of each output node, and the nodes under a list-mode Lambda.
structure Demux where
  grouped_workflows : Groups
  output_mapping : Dict String (String × String)
  list_lambda_dependent_nodes : List String

-- `direct_*` by workflow id, `grouped_*` by group key.
structure Tables where
  direct : Dict String Payload := Dict.empty
  grouped : Dict String Payload := Dict.empty

def payload_of (table : Dict String Payload) (owner : String) : Payload := (table.get? owner).getD Dict.empty

def put_values (table : Dict String Payload) (owner name : String) (values : List Value) : Dict String Payload :=
  table.set owner ((payload_of table owner).set name values)

-- The longest workflow id first; `sorted` is stable, and so is this sort.
def group_workflow_prefixes (workflows : List WorkflowItem) : List (String × WorkflowItem) :=
  (workflows.insertionSort fun v w => w.workflow_id.length ≤ v.workflow_id.length).map fun item =>
    (item.workflow_id ++ "__",item)

namespace Demux

def match_workflow_for_group_node (d : Demux) (group_key node_id : String) : Option WorkflowItem :=
  ((group_workflow_prefixes ((d.grouped_workflows.get? group_key).getD [])).find? fun p =>
    p.1.toList.isPrefixOf node_id.toList).map Prod.snd

def list_lambda_outputs (d : Demux) : List (String × String) :=
  (d.output_mapping.entries.filter fun e => decide (e.1 ∈ d.list_lambda_dependent_nodes)).map Prod.snd

end Demux

def assign (part : Part) (matched_workflow : Option WorkflowItem) (place : String × String) (values : List Value)
    (t : Tables) : Except DemuxError Tables :=
  match matched_workflow with
  | some w =>
    if values.length ≠ w.slice_length then
      .error (.slice_mismatch part w.workflow_id place.2 w.slice_length values.length)
    else .ok { t with direct := put_values t.direct w.workflow_id place.2 values }
  | none =>
    .ok { t with
      grouped := put_values t.grouped place.1 place.2 (((payload_of t.grouped place.1).get? place.2).getD [] ++ values) }

namespace Demux

def place_output (d : Demux) (t : Tables) (node : String × List Value) : Except DemuxError Tables :=
  match d.output_mapping.get? node.1 with
  | none => .error (.missing_mapping node.1)
  | some place =>
    if place ∈ d.list_lambda_outputs then
      match (d.grouped_workflows.get? place.1).getD [] with
      | [single_workflow] => .ok { t with direct := put_values t.direct single_workflow.workflow_id place.2 node.2 }
      | group_slices => .error (.list_lambda place.2 place.1 group_slices.length)
    else assign .output (d.match_workflow_for_group_node place.1 node.1) place node.2 t

-- Histories have no branch for list-mode Lambdas.
def place_history (d : Demux) (t : Tables) (node : String × List Value) : Except DemuxError Tables :=
  match d.output_mapping.get? node.1 with
  | none => .error (.missing_mapping node.1)
  | some place => assign .history (d.match_workflow_for_group_node place.1 node.1) place node.2 t

end Demux

-- `values[offset:next_offset]` for one slice, which must not hold the name yet.
def hand_out (part : Part) (output_name : String) (values : List Value) (s : Dict String Payload × Nat)
    (workflow : WorkflowItem) : Except DemuxError (Dict String Payload × Nat) :=
  if output_name ∈ (payload_of s.1 workflow.workflow_id).keys then
    .error (.duplicate part workflow.workflow_id output_name)
  else .ok (put_values s.1 workflow.workflow_id output_name ((values.drop s.2).take workflow.slice_length),
    s.2 + workflow.slice_length)

def total_slice_len (workflows : List WorkflowItem) : Nat := (workflows.map WorkflowItem.slice_length).sum

def in_slice_order (workflows : List WorkflowItem) : List WorkflowItem :=
  workflows.insertionSort fun v w => v.slice_index ≤ w.slice_index

def merge_values (part : Part) (group : String × List WorkflowItem) (remapped : Dict String Payload)
    (e : String × List Value) : Except DemuxError (Dict String Payload) :=
  if e.2.length ≠ total_slice_len (in_slice_order group.2) then
    .error (.merged_mismatch part group.1 e.1 (total_slice_len (in_slice_order group.2)) e.2.length)
  else ((in_slice_order group.2).foldlM (hand_out part e.1 e.2) (remapped,0)).map Prod.fst

def merge_group (part : Part) (grouped : Dict String Payload) (remapped : Dict String Payload)
    (group : String × List WorkflowItem) : Except DemuxError (Dict String Payload) :=
  (payload_of grouped group.1).entries.foldlM (merge_values part group) remapped

-- `remapped_outputs` and `remapped_histories`.
def Demux.demux (d : Demux) (flat_outputs chat_histories : Payload) :
    Except DemuxError (Dict String Payload × Dict String Payload) := do
  let outputs ← flat_outputs.entries.foldlM d.place_output {}
  let histories ← chat_histories.entries.foldlM d.place_history {}
  d.grouped_workflows.entries.foldlM (fun remapped group => do
    let remapped_outputs ← merge_group .output outputs.grouped remapped.1 group
    let remapped_histories ← merge_group .history histories.grouped remapped.2 group
    pure (remapped_outputs,remapped_histories)) (outputs.direct,histories.direct)

-- Whether a workflow already has a list of that name.
def Held (remapped : Dict String Payload) (k : String × String) : Prop := k.2 ∈ (payload_of remapped k.1).keys

theorem payload_put_self (table : Dict String Payload) (owner name : String) (values : List Value) :
    payload_of (put_values table owner name values) owner = (payload_of table owner).set name values := by
  rw [payload_of,put_values,Dict.get?_set_self,Option.getD_some]

theorem payload_put_ne (table : Dict String Payload) {owner other : String} (name : String) (values : List Value)
    (different : other ≠ owner) : payload_of (put_values table owner name values) other = payload_of table other := by
  rw [payload_of,put_values,Dict.get?_set_ne _ _ different]
  rfl

theorem held_put (table : Dict String Payload) (owner name : String) (values : List Value) (k : String × String) :
    Held (put_values table owner name values) k ↔ Held table k ∨ k = (owner,name) := by
  obtain ⟨other,name'⟩ := k
  unfold Held
  by_cases same : other = owner
  · subst same
    rw [payload_put_self,Dict.mem_keys_set,Prod.mk.injEq,eq_self,true_and]
  · rw [payload_put_ne _ _ _ same]
    simp [same]

theorem not_held_empty (k : String × String) : ¬Held Dict.empty k := by simp [Held,payload_of]

theorem hand_out_claims (part : Part) (output_name : String) (values : List Value) :
    Claims (hand_out part output_name values) (fun s k => Held s.1 k) (fun _ => True)
      (fun workflow => [(workflow.workflow_id,output_name)]) where
  accepts s workflow := by
    unfold hand_out
    by_cases taken : output_name ∈ (payload_of s.1 workflow.workflow_id).keys
    · simp [taken,Held]
    · simp [taken,Held]
  grows s workflow after done k := by
    unfold hand_out at done
    split at done
    · cases done
    · cases done
      rw [held_put,List.mem_singleton]

theorem total_in_slice_order (workflows : List WorkflowItem) :
    total_slice_len (in_slice_order workflows) = total_slice_len workflows :=
  ((List.perm_insertionSort _ workflows).map _).sum_eq

def names_in (workflows : List WorkflowItem) (output_name : String) : List (String × String) :=
  (in_slice_order workflows).flatMap fun workflow => [(workflow.workflow_id,output_name)]

theorem merge_values_claims (part : Part) (group : String × List WorkflowItem) :
    Claims (merge_values part group) Held (fun e => e.2.length = total_slice_len group.2)
      (fun e => names_in group.2 e.1) where
  accepts remapped e := by
    have handed := (hand_out_claims part e.1 e.2).loop_accepts (in_slice_order group.2) (remapped,0)
    unfold merge_values
    rw [total_in_slice_order]
    by_cases fits : e.2.length = total_slice_len group.2
    · rw [if_neg (not_not_intro fits)]
      constructor
      · rintro ⟨after,done⟩
        obtain ⟨s,ran,_⟩ := map_ok done
        exact ⟨fits,(handed.mp ⟨s,ran⟩).2⟩
      · rintro ⟨_,free⟩
        obtain ⟨s,ran⟩ := handed.mpr ⟨fun _ _ => trivial,free⟩
        exact ⟨s.1,by rw [ran]; rfl⟩
    · rw [if_pos fits]
      exact iff_of_false (by simp) fun all => fits all.1
  grows remapped e after done k := by
    unfold merge_values at done
    split at done
    · cases done
    · obtain ⟨s,ran,rfl⟩ := map_ok done
      exact (hand_out_claims part e.1 e.2).loop_grows _ _ s ran k

theorem merge_group_claims (part : Part) (grouped : Dict String Payload) :
    Claims (merge_group part grouped) Held
      (fun group => ∀ e ∈ (payload_of grouped group.1).entries, e.2.length = total_slice_len group.2)
      (fun group => (payload_of grouped group.1).entries.flatMap fun e => names_in group.2 e.1) where
  accepts remapped group := (merge_values_claims part group).loop_accepts (payload_of grouped group.1).entries remapped
  grows remapped group after done k :=
    (merge_values_claims part group).loop_grows (payload_of grouped group.1).entries remapped after done k

namespace Demux
variable (d : Demux)

-- Where the history of a node goes: to one workflow, or into what its group merges.
def slice_at (node_id : String) : Option (WorkflowItem × String) :=
  (d.output_mapping.get? node_id).bind fun place =>
    (d.match_workflow_for_group_node place.1 node_id).map fun w => (w,place.2)

def merged_at (node_id : String) : Option (String × String) :=
  (d.output_mapping.get? node_id).bind fun place =>
    if (d.match_workflow_for_group_node place.1 node_id).isNone then some place else none

def merged_part (told : List (String × Nat)) (place : String × String) : List (String × Nat) :=
  told.filter fun e => decide (d.merged_at e.1 = some place)

def merged_length (told : List (String × Nat)) (place : String × String) : Nat :=
  ((d.merged_part told place).map Prod.snd).sum

def merged_names (told : List (String × Nat)) (group_key : String) : List String :=
  (told.filterMap fun e => (d.merged_at e.1).bind fun place => if place.1 = group_key then some place.2 else none).dedup

def merged_claims (told : List (String × Nat)) : List (String × String) :=
  d.grouped_workflows.entries.flatMap fun group =>
    (d.merged_names told group.1).flatMap fun output_name => names_in group.2 output_name

def sliced_claims (told : List (String × Nat)) : List (String × String) :=
  told.filterMap fun e => (d.slice_at e.1).map fun t => (t.1.workflow_id,t.2)

-- Histories of these lengths find their workflows.
structure Receives (told : List (String × Nat)) : Prop where
  mapped : ∀ e ∈ told, e.1 ∈ d.output_mapping.keys
  sliced : ∀ e ∈ told, ∀ t, d.slice_at e.1 = some t → e.2 = t.1.slice_length
  merged : ∀ group ∈ d.grouped_workflows.entries, ∀ output_name ∈ d.merged_names told group.1,
    d.merged_length told (group.1,output_name) = total_slice_len group.2
  once : (d.merged_claims told).Nodup ∧ ∀ k ∈ d.merged_claims told, k ∉ d.sliced_claims told

def sizes (histories : List (String × List Value)) : List (String × Nat) := histories.map fun e => (e.1,e.2.length)

variable {d}

theorem mem_merged_names {told : List (String × Nat)} {group_key output_name : String} :
    output_name ∈ d.merged_names told group_key ↔ ∃ e ∈ told, d.merged_at e.1 = some (group_key,output_name) := by
  simp only [merged_names,List.mem_dedup,List.mem_filterMap]
  refine exists_congr fun e => and_congr_right fun _ => ?_
  cases d.merged_at e.1 with
  | none => simp
  | some place =>
      obtain ⟨group_key',output_name'⟩ := place
      by_cases same : group_key' = group_key <;> simp [same]

theorem place_history_slice {node : String × List Value} {w : WorkflowItem} {output_name : String} (t : Tables)
    (slice : d.slice_at node.1 = some (w,output_name)) :
    d.place_history t node = if node.2.length ≠ w.slice_length then
        .error (.slice_mismatch .history w.workflow_id output_name w.slice_length node.2.length)
      else .ok { t with direct := put_values t.direct w.workflow_id output_name node.2 } := by
  unfold slice_at at slice
  obtain ⟨place,mapped,found⟩ := Option.bind_eq_some_iff.mp slice
  obtain ⟨w',matched,same⟩ := Option.map_eq_some_iff.mp found
  cases same
  simp only [place_history,mapped,assign,matched]

theorem place_history_merged {node : String × List Value} {place : String × String} (t : Tables)
    (merged : d.merged_at node.1 = some place) :
    d.place_history t node = .ok { t with
      grouped := put_values t.grouped place.1 place.2 (((payload_of t.grouped place.1).get? place.2).getD [] ++ node.2) } := by
  unfold merged_at at merged
  obtain ⟨place',mapped,found⟩ := Option.bind_eq_some_iff.mp merged
  cases matched : d.match_workflow_for_group_node place'.1 node.1 with
  | some w => simp [matched] at found
  | none =>
      rw [matched,Option.isNone_none,if_pos rfl] at found
      cases found
      simp only [place_history,mapped,assign,matched]

theorem placed_cases (node_id : String) :
    (d.output_mapping.get? node_id = none ∧ d.slice_at node_id = none ∧ d.merged_at node_id = none) ∨
    (∃ t, d.slice_at node_id = some t ∧ d.merged_at node_id = none) ∨
    (∃ place, d.slice_at node_id = none ∧ d.merged_at node_id = some place) := by
  unfold slice_at merged_at
  cases mapped : d.output_mapping.get? node_id with
  | none => exact .inl ⟨rfl,rfl,rfl⟩
  | some place =>
      cases matched : d.match_workflow_for_group_node place.1 node_id with
      | none => exact .inr (.inr ⟨place,by simp [matched],by simp [matched]⟩)
      | some w => exact .inr (.inl ⟨(w,place.2),by simp [matched],by simp [matched]⟩)

theorem slice_claimed {k : String × String} {told : List (String × Nat)} :
    k ∈ d.sliced_claims told ↔ ∃ e ∈ told, ∃ t, d.slice_at e.1 = some t ∧ (t.1.workflow_id,t.2) = k := by
  simp [sliced_claims]

theorem place_history_accepts (t : Tables) (node : String × List Value) :
    (∃ after, d.place_history t node = .ok after) ↔
      node.1 ∈ d.output_mapping.keys ∧ ∀ t, d.slice_at node.1 = some t → node.2.length = t.1.slice_length := by
  rw [Dict.mem_keys_iff]
  rcases d.placed_cases node.1 with ⟨unmapped,_,_⟩ | ⟨⟨w,output_name⟩,slice,_⟩ | ⟨place,no_slice,merged⟩
  · simp [place_history,unmapped]
  · obtain ⟨place,mapped,_⟩ := Option.bind_eq_some_iff.mp slice
    rw [place_history_slice t slice]
    by_cases fits : node.2.length = w.slice_length
    · simp [fits,slice,mapped]
    · simp [fits,slice]
  · obtain ⟨place,mapped,_⟩ := Option.bind_eq_some_iff.mp merged
    rw [place_history_merged t merged]
    simp [no_slice,mapped]

-- What one history adds to the tables: a direct list, or a stretch of a merged one.
theorem place_history_adds {t after : Tables} {node : String × List Value} (done : d.place_history t node = .ok after) :
    (∀ k, Held after.direct k ↔ Held t.direct k ∨ k ∈ d.sliced_claims (sizes [node])) ∧
    (∀ g n, Held after.grouped (g,n) ↔ Held t.grouped (g,n) ∨ n ∈ d.merged_names (sizes [node]) g) ∧
    ∀ g n, (((payload_of after.grouped g).get? n).getD []).length =
      (((payload_of t.grouped g).get? n).getD []).length + d.merged_length (sizes [node]) (g,n) := by
  simp only [slice_claimed,mem_merged_names,merged_length,merged_part,sizes,List.map_cons,List.map_nil,List.mem_singleton,
    exists_eq_left]
  rcases d.placed_cases node.1 with ⟨unmapped,_,_⟩ | ⟨⟨w,output_name⟩,slice,unmerged⟩ | ⟨place,no_slice,merged⟩
  · simp [place_history,unmapped] at done
  · rw [place_history_slice t slice] at done
    split at done
    · cases done
    · cases done
      refine ⟨fun k => ?_,fun g n => ?_,fun g n => ?_⟩
      · rw [held_put,slice]
        simp [eq_comm]
      · simp [unmerged]
      · simp [unmerged]
  · rw [place_history_merged t merged] at done
    cases done
    obtain ⟨group_key,output_name⟩ := place
    refine ⟨fun k => ?_,fun g n => ?_,fun g n => ?_⟩
    · simp [no_slice]
    · rw [held_put,merged]
      simp [eq_comm]
    · by_cases group : g = group_key
      · subst group
        rw [payload_put_self]
        by_cases name : n = output_name
        · subst name
          rw [Dict.get?_set_self,Option.getD_some,List.length_append]
          simp [merged]
        · rw [Dict.get?_set_ne _ _ name]
          simp [merged,Ne.symm name]
      · rw [payload_put_ne _ _ _ group]
        simp [merged,Ne.symm group]

theorem placed_histories {histories : List (String × List Value)} {t after : Tables}
    (done : histories.foldlM d.place_history t = .ok after) :
    (∀ k, Held after.direct k ↔ Held t.direct k ∨ k ∈ d.sliced_claims (sizes histories)) ∧
    (∀ g n, Held after.grouped (g,n) ↔ Held t.grouped (g,n) ∨ n ∈ d.merged_names (sizes histories) g) ∧
    ∀ g n, (((payload_of after.grouped g).get? n).getD []).length =
      (((payload_of t.grouped g).get? n).getD []).length + d.merged_length (sizes histories) (g,n) := by
  induction histories generalizing t with
  | nil =>
      cases done
      simp [sizes,sliced_claims,mem_merged_names,merged_length,merged_part]
  | cons node rest ih =>
      rw [List.foldlM_cons] at done
      obtain ⟨next,turn,later⟩ := bind_ok done
      obtain ⟨direct,grouped,lengths⟩ := place_history_adds turn
      obtain ⟨direct',grouped',lengths'⟩ := ih later
      have split : sizes (node :: rest) = sizes [node] ++ sizes rest := rfl
      refine ⟨fun k => ?_,fun g n => ?_,fun g n => ?_⟩
      · rw [direct',direct,split,sliced_claims,sliced_claims,sliced_claims,List.filterMap_append,List.mem_append,or_assoc]
      · rw [grouped',grouped,split]
        simp only [mem_merged_names,List.mem_append,or_and_right,exists_or,or_assoc]
      · rw [lengths',lengths,split,merged_length,merged_length,merged_length,merged_part,merged_part,merged_part,
          List.filter_append,List.map_append,List.sum_append,Nat.add_assoc]

theorem demux_ok_iff {flat_outputs chat_histories : Payload} {outputs histories : Dict String Payload} :
    d.demux flat_outputs chat_histories = .ok (outputs,histories) ↔ ∃ placed placed_histories : Tables,
      flat_outputs.entries.foldlM d.place_output {} = .ok placed ∧
      chat_histories.entries.foldlM d.place_history {} = .ok placed_histories ∧
      d.grouped_workflows.entries.foldlM (merge_group .output placed.grouped) placed.direct = .ok outputs ∧
      d.grouped_workflows.entries.foldlM (merge_group .history placed_histories.grouped) placed_histories.direct =
        .ok histories := by
  constructor
  · intro done
    obtain ⟨placed,first,done⟩ := bind_ok done
    obtain ⟨placed_histories,second,done⟩ := bind_ok done
    exact ⟨placed,placed_histories,first,second,foldlM_pair _ |>.mp done⟩
  · rintro ⟨placed,placed_histories,first,second,merged⟩
    rw [demux,first,ok_bind,second,ok_bind]
    exact foldlM_pair _ |>.mpr merged

-- The tables hold histories of these lengths.
structure Placed (d : Demux) (told : List (String × Nat)) (t : Tables) : Prop where
  direct : ∀ k, Held t.direct k ↔ k ∈ d.sliced_claims told
  grouped : ∀ g n, Held t.grouped (g,n) ↔ n ∈ d.merged_names told g
  lengths : ∀ g n, (((payload_of t.grouped g).get? n).getD []).length = d.merged_length told (g,n)

theorem placed_none : Placed d [] {} where
  direct := by simp [not_held_empty,sliced_claims]
  grouped := by simp [not_held_empty,merged_names]
  lengths := by simp [merged_length,merged_part,payload_of]

theorem placed_all {histories : List (String × List Value)} {t : Tables} (done : histories.foldlM d.place_history {} = .ok t) :
    Placed d (sizes histories) t := by
  obtain ⟨direct,grouped,lengths⟩ := placed_histories done
  refine ⟨fun k => ?_,fun g n => ?_,fun g n => ?_⟩
  · rw [direct]
    simp [not_held_empty]
  · rw [grouped]
    simp [not_held_empty]
  · rw [lengths]
    simp [payload_of]

theorem payload_keys_perm {grouped : Dict String Payload} {told : List (String × Nat)} {g : String}
    (same : ∀ n, Held grouped (g,n) ↔ n ∈ d.merged_names told g) : (payload_of grouped g).keys.Perm (d.merged_names told g) :=
  (List.perm_ext_iff_of_nodup (payload_of grouped g).keys_nodup (List.nodup_dedup _)).mpr same

-- Merging goes by the lengths of the histories alone.
theorem Placed.merges_iff {told : List (String × Nat)} {t : Tables} (here : Placed d told t) :
    (∃ histories, d.grouped_workflows.entries.foldlM (merge_group .history t.grouped) t.direct = .ok histories) ↔
      (∀ group ∈ d.grouped_workflows.entries, ∀ output_name ∈ d.merged_names told group.1,
        d.merged_length told (group.1,output_name) = total_slice_len group.2) ∧
      (d.merged_claims told).Nodup ∧ ∀ k ∈ d.merged_claims told, k ∉ d.sliced_claims told := by
  have perm : (d.grouped_workflows.entries.flatMap fun group =>
      (payload_of t.grouped group.1).entries.flatMap fun e => names_in group.2 e.1).Perm (d.merged_claims told) := by
    refine List.Perm.flatMap_left _ fun group _ => ?_
    have by_keys : ((payload_of t.grouped group.1).entries.flatMap fun e => names_in group.2 e.1) =
        (payload_of t.grouped group.1).keys.flatMap (names_in group.2) := List.flatMap_map ..|>.symm
    rw [by_keys]
    exact List.Perm.flatMap_right _ (payload_keys_perm (here.grouped group.1))
  rw [(merge_group_claims .history t.grouped).loop_accepts,perm.nodup_iff]
  refine and_congr (forall₂_congr fun group _ => ?_) (and_congr_right fun _ => ?_)
  · constructor
    · intro fits n named
      obtain ⟨values,found⟩ := Dict.mem_keys_iff.mp ((here.grouped group.1 n).mpr named)
      rw [← here.lengths,found]
      exact fits (n,values) (Dict.get?_eq_some.mp found)
    · intro fits e member
      have found := Dict.get?_eq_some.mpr member
      have own := fits e.1 ((here.grouped group.1 e.1).mp (Dict.mem_keys_of_entry member))
      rwa [← here.lengths,found] at own
  · refine forall_congr' fun k => ?_
    rw [perm.mem_iff,here.direct]

theorem demux_accepts (flat_outputs chat_histories : Payload) :
    (∃ r, d.demux flat_outputs chat_histories = .ok r) ↔
      (∃ r, d.demux flat_outputs Dict.empty = .ok r) ∧ d.Receives (sizes chat_histories.entries) := by
  have accepts := foldlM_accepts (fun t node => d.place_history_accepts t node) chat_histories.entries {}
  constructor
  · rintro ⟨⟨outputs,histories⟩,done⟩
    obtain ⟨placed,placed_histories,first,second,merged,merged_histories⟩ := demux_ok_iff.mp done
    have no_claims : d.merged_claims [] = [] := List.flatMap_eq_nil_iff.mpr fun _ _ => rfl
    have free : (d.merged_claims []).Nodup ∧ ∀ k ∈ d.merged_claims [], k ∉ d.sliced_claims [] := by simp [no_claims]
    obtain ⟨nothing,none_merged⟩ := placed_none.merges_iff.mpr ⟨fun _ _ _ named => by simp [merged_names] at named,free⟩
    refine ⟨⟨(outputs,nothing),demux_ok_iff.mpr ⟨placed,{},first,rfl,merged,none_merged⟩⟩,?_⟩
    obtain ⟨lengths,once⟩ := (placed_all second).merges_iff.mp ⟨histories,merged_histories⟩
    have fits := accepts.mp ⟨_,second⟩
    refine ⟨?_,?_,lengths,once⟩
    · intro e member
      obtain ⟨node,inside,rfl⟩ := List.mem_map.mp member
      exact (fits node inside).1
    · intro e member t
      obtain ⟨node,inside,rfl⟩ := List.mem_map.mp member
      exact (fits node inside).2 t
  · rintro ⟨⟨⟨outputs,nothing⟩,done⟩,receives⟩
    obtain ⟨placed,_,first,_,merged,_⟩ := demux_ok_iff.mp done
    obtain ⟨placed_histories,second⟩ := accepts.mpr fun node member =>
      ⟨receives.mapped _ (List.mem_map_of_mem member),receives.sliced _ (List.mem_map_of_mem member)⟩
    obtain ⟨histories,merged_histories⟩ := (placed_all second).merges_iff.mpr ⟨receives.merged,receives.once⟩
    exact ⟨(outputs,histories),demux_ok_iff.mpr ⟨placed,placed_histories,first,second,merged,merged_histories⟩⟩

theorem merged_names_subset {few many : List (String × Nat)} (inside : few ⊆ many) (g : String) :
    d.merged_names few g ⊆ d.merged_names many g := by
  intro n named
  obtain ⟨e,member,merged⟩ := mem_merged_names.mp named
  exact mem_merged_names.mpr ⟨e,inside member,merged⟩

-- Leaving histories out is fine as long as no merged output is left with a part of its own.
theorem Receives.fewer {few many : List (String × Nat)} (receives : d.Receives many) (inside : few ⊆ many)
    (whole : ∀ g ∈ d.grouped_workflows.keys, ∀ n ∈ d.merged_names few g, d.merged_part few (g,n) = d.merged_part many (g,n)) :
    d.Receives few where
  mapped e member := receives.mapped e (inside member)
  sliced e member := receives.sliced e (inside member)
  merged group member n named := by
    rw [merged_length,whole group.1 (Dict.mem_keys_of_entry member) n named]
    exact receives.merged group member n (merged_names_subset inside _ named)
  once := by
    refine claims_fewer ?_ (fun k claimed => ?_) receives.once
    · refine flatMap_subperm _ fun group _ => ?_
      obtain ⟨l,perm,sub⟩ := (List.nodup_dedup _).subperm (merged_names_subset inside group.1)
      exact ⟨_,perm.flatMap_right _,sub.flatMap _⟩
    · obtain ⟨e,member,own⟩ := slice_claimed.mp claimed
      exact slice_claimed.mpr ⟨e,inside member,own⟩

theorem eq_of_sublist_sum {α : Type} {l₁ l₂ : List α} (weight : α → Nat) (sub : l₁.Sublist l₂) (positive : ∀ x ∈ l₂, 0 < weight x)
    (same : (l₂.map weight).sum ≤ (l₁.map weight).sum) : l₁ = l₂ := by
  induction sub with
  | slnil => rfl
  | @cons l₁ l₂ x sub ih =>
      rw [List.map_cons,List.sum_cons] at same
      have smaller := ih (fun y member => positive y (List.mem_cons_of_mem _ member)) (by omega)
      have more := positive x List.mem_cons_self
      rw [smaller] at same
      omega
  | @cons_cons l₁ l₂ x sub ih =>
      rw [ih (fun y member => positive y (List.mem_cons_of_mem _ member)) (by simpa using same)]

-- Lengths that add up both ways leave nothing out.
theorem Receives.whole {few many : List (String × Nat)} (receives : d.Receives few) (receives_all : d.Receives many)
    (sub : few.Sublist many) (positive : ∀ e ∈ many, 0 < e.2) {g n : String} (group : g ∈ d.grouped_workflows.keys)
    (named : n ∈ d.merged_names few g) : d.merged_part few (g,n) = d.merged_part many (g,n) := by
  obtain ⟨workflows,found⟩ := Dict.mem_keys_iff.mp group
  have member := Dict.get?_eq_some.mp found
  have part := receives.merged (g,workflows) member n named
  have all := receives_all.merged (g,workflows) member n (merged_names_subset sub.subset g named)
  refine eq_of_sublist_sum Prod.snd (sub.filter _) (fun e inside => positive e (List.mem_filter.mp inside).1) ?_
  exact (all.trans part.symm).le

end Demux

end Lumilake.Server

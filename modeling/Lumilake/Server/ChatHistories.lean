import Lumilake.Server.Demux

namespace Lumilake.Server
open Fallible Claiming

-- `item["metadata"]["prompt"]`, when that is there and a list.
def prompt_of : Value → Option (List Value)
  | .dict item =>
    match Value.get? item "metadata" with
    | some (.dict metadata) =>
      match Value.get? metadata "prompt" with
      | some (.list prompt) => some prompt
      | _ => none
    | _ => none
  | _ => none

-- One output node: the items of its result, and the outputs made of them.
structure Aggregated where
  items : List Value
  outputs : List Value

def Aggregated.output_prompts (node : Aggregated) : List Value :=
  if node.items.length = node.outputs.length then
    (node.items.zip node.outputs).filterMap fun e => (prompt_of e.1).map fun prompt =>
      .list (prompt ++ [.dict [("role",.str "assistant"),("content",e.2)]])
  else []

-- A batch whose tasks are done, with what it takes to hand its results back.
structure DoneBatch extends Demux where
  nodes : Dict String Aggregated

namespace DoneBatch

def flat_outputs (b : DoneBatch) : Payload := b.nodes.mapValues fun _ node => node.outputs

def chat_histories (b : DoneBatch) : Payload :=
  (b.nodes.mapValues fun _ node => node.output_prompts).filter fun _ history => !history.isEmpty

def demuxed (b : DoneBatch) : Except DemuxError (Dict String Payload × Dict String Payload) :=
  b.demux b.flat_outputs b.chat_histories

-- The outputs alone go back to their workflows.
def OutputsFit (b : DoneBatch) : Prop := ∃ r, b.demux b.flat_outputs Dict.empty = .ok r

-- The same batch with other items in the place of those it has.
def refill (b : DoneBatch) (fill : Value → Value) : DoneBatch :=
  { b with nodes := b.nodes.mapValues fun _ node => { node with items := node.items.map fill } }

def Aligned (b : DoneBatch) : Prop :=
  ∀ id history, b.chat_histories.get? id = some history →
    ∃ node, b.nodes.get? id = some node ∧ history.length = node.outputs.length

-- What goes through when every item has a prompt goes through as it is.
def Unharmed (b : DoneBatch) : Prop :=
  ∀ fill, (∀ item, (prompt_of (fill item)).isSome) → (∃ r, (b.refill fill).demuxed = .ok r) → ∃ r, b.demuxed = .ok r

-- All items of a node have prompts or none has.
def Even (b : DoneBatch) : Prop :=
  ∀ id node, b.nodes.get? id = some node → node.items.length = node.outputs.length →
    (∀ item ∈ node.items, (prompt_of item).isSome) ∨ ∀ item ∈ node.items, prompt_of item = none

-- The nodes a history could be told of, and what it takes for one to be told of.
def one_each (node : Aggregated) : Bool := decide (node.items.length = node.outputs.length) && !node.outputs.isEmpty
def prompted (node : Aggregated) : Bool := node.items.all fun item => (prompt_of item).isSome

def told (b : DoneBatch) (keep : Aggregated → Bool) : List (String × Nat) :=
  (b.nodes.entries.filter fun e => keep e.2).map fun e => (e.1,e.2.outputs.length)

-- Nodes merged into one output of a group all have prompts or none has.
def Agree (b : DoneBatch) : Prop :=
  ∀ id node id' node' place, b.nodes.get? id = some node → b.nodes.get? id' = some node' →
    b.merged_at id = some place → b.merged_at id' = some place → place.1 ∈ b.grouped_workflows.keys →
    one_each node = true → one_each node' = true → prompted node = true → prompted node' = true

theorem output_prompts_length {node : Aggregated} (same : node.items.length = node.outputs.length) :
    node.output_prompts.length = node.items.countP fun item => (prompt_of item).isSome := by
  have items : (node.items.zip node.outputs).map Prod.fst = node.items := List.map_fst_zip (by omega)
  conv => rhs; rw [← items,List.countP_map]
  rw [Aggregated.output_prompts,if_pos same,List.length_filterMap_eq_countP]
  exact List.countP_congr fun e _ => by simp

theorem output_prompts_unequal {node : Aggregated} (different : ¬node.items.length = node.outputs.length) :
    node.output_prompts = [] := if_neg different

theorem chat_history_iff {b : DoneBatch} {id : String} {history : List Value} : b.chat_histories.get? id = some history ↔
    (∃ node, b.nodes.get? id = some node ∧ node.output_prompts = history) ∧ history ≠ [] := by
  rw [Dict.get?_eq_some,chat_histories,Dict.entries_filter,List.mem_filter,Dict.entries_mapValues,List.mem_map]
  refine and_congr ?_ (by simp)
  constructor
  · rintro ⟨⟨_,node⟩,member,same⟩
    cases same
    exact ⟨node,Dict.get?_eq_some.mpr member,rfl⟩
  · rintro ⟨node,found,rfl⟩
    exact ⟨(id,node),Dict.get?_eq_some.mp found,rfl⟩

-- Histories are absent or whole exactly when no node has prompts on some of its items only.
theorem aligned_iff (b : DoneBatch) : b.Aligned ↔ b.Even := by
  constructor
  · intro aligned id node found same
    by_cases silent : node.output_prompts = []
    · refine .inr fun item member => ?_
      have none_some := output_prompts_length same
      rw [silent,List.length_nil] at none_some
      simpa using List.countP_eq_zero.mp none_some.symm item member
    · refine .inl (List.countP_eq_length.mp ?_)
      obtain ⟨node',found',whole⟩ := aligned id _ (chat_history_iff.mpr ⟨⟨node,found,rfl⟩,silent⟩)
      rw [found] at found'
      cases found'
      rw [← output_prompts_length same,whole,same]
  · intro even id history told
    obtain ⟨⟨node,found,rfl⟩,present⟩ := chat_history_iff.mp told
    refine ⟨node,found,?_⟩
    by_cases same : node.items.length = node.outputs.length
    · rcases even id node found same with every | no_item
      · rw [output_prompts_length same,List.countP_eq_length.mpr every,same]
      · have silent := output_prompts_length same
        rw [List.countP_eq_zero.mpr (by simpa using no_item)] at silent
        exact absurd (List.eq_nil_of_length_eq_zero silent) present
    · exact absurd (output_prompts_unequal same) present

theorem mem_told {b : DoneBatch} {keep : Aggregated → Bool} {e : String × Nat} : e ∈ b.told keep ↔
    ∃ node, b.nodes.get? e.1 = some node ∧ keep node = true ∧ node.outputs.length = e.2 := by
  obtain ⟨id,n⟩ := e
  simp only [told,List.mem_map,List.mem_filter,Prod.mk.injEq]
  constructor
  · rintro ⟨⟨_,node⟩,⟨member,kept⟩,rfl,rfl⟩
    exact ⟨node,Dict.get?_eq_some.mpr member,kept,rfl⟩
  · rintro ⟨node,found,kept,rfl⟩
    exact ⟨(id,node),⟨Dict.get?_eq_some.mp found,kept⟩,rfl,rfl⟩

theorem output_prompts_even {node : Aggregated}
    (even : node.items.length = node.outputs.length →
      (∀ item ∈ node.items, (prompt_of item).isSome) ∨ ∀ item ∈ node.items, prompt_of item = none) :
    (!node.output_prompts.isEmpty) = (one_each node && prompted node) ∧
      (node.output_prompts ≠ [] → node.output_prompts.length = node.outputs.length) := by
  by_cases same : node.items.length = node.outputs.length
  · have count := output_prompts_length same
    rcases even same with every | no_item
    · rw [List.countP_eq_length.mpr every,same] at count
      have all : prompted node = true := List.all_eq_true.mpr every
      have empty : node.output_prompts.isEmpty = node.outputs.isEmpty := by
        rw [Bool.eq_iff_iff,List.isEmpty_iff_length_eq_zero,List.isEmpty_iff_length_eq_zero,count]
      exact ⟨by simp [one_each,same,all,empty],fun _ => count⟩
    · rw [List.countP_eq_zero.mpr (by simpa using no_item)] at count
      have silent := List.eq_nil_of_length_eq_zero count
      rw [silent]
      refine ⟨?_,fun told => absurd rfl told⟩
      cases items : node.items with
      | nil =>
          rw [items,List.length_nil] at same
          simp [one_each,List.eq_nil_of_length_eq_zero same.symm]
      | cons item rest =>
          have bare := no_item item (by simp [items])
          simp [prompted,items,bare]
  · rw [output_prompts_unequal same]
    simp [one_each,same]

theorem chat_histories_sizes {b : DoneBatch} (even : b.Even) :
    Demux.sizes b.chat_histories.entries = b.told fun node => one_each node && prompted node := by
  have each : ∀ e ∈ b.nodes.entries, _ := fun e member => output_prompts_even (even e.1 e.2 (Dict.get?_eq_some.mpr member))
  rw [Demux.sizes,chat_histories,Dict.entries_filter,Dict.entries_mapValues,List.filter_map,List.map_map,told]
  have kept : b.nodes.entries.filter (fun e => !e.2.output_prompts.isEmpty) =
      b.nodes.entries.filter fun e => one_each e.2 && prompted e.2 :=
    List.filter_congr fun e member => (each e member).1
  rw [← kept]
  refine List.map_congr_left fun e member => ?_
  obtain ⟨inside,present⟩ := List.mem_filter.mp member
  exact congrArg (Prod.mk e.1) ((each e inside).2 (by simpa using present))

theorem refill_sizes (b : DoneBatch) {fill : Value → Value} (full : ∀ item, (prompt_of (fill item)).isSome) :
    Demux.sizes (b.refill fill).chat_histories.entries = b.told one_each := by
  have even : (b.refill fill).Even := by
    intro id node found _
    obtain ⟨e,_,same⟩ := List.mem_map.mp (Dict.get?_eq_some.mp found)
    cases same
    exact .inl (by simp [full])
  rw [chat_histories_sizes even,told,told,refill,Dict.entries_mapValues,List.filter_map,List.map_map]
  have kept : b.nodes.entries.filter ((fun e => one_each e.2 && prompted e.2) ∘
      fun e => (e.1,({ e.2 with items := e.2.items.map fill } : Aggregated))) = b.nodes.entries.filter fun e => one_each e.2 :=
    List.filter_congr fun e _ => by simp [one_each,prompted,full]
  rw [kept]
  rfl

theorem refill_outputs (b : DoneBatch) (fill : Value → Value) : (b.refill fill).flat_outputs = b.flat_outputs := by
  apply Dict.ext
  simp [flat_outputs,refill,Function.comp_def]

theorem told_fewer (b : DoneBatch) (keep : Aggregated → Bool) :
    (b.told fun node => one_each node && keep node).Sublist (b.told one_each) := by
  refine (List.Sublist.map _ ?_)
  exact List.monotone_filter_right _ fun e kept => (Bool.and_eq_true_iff.mp kept).1

theorem merged_told (b : DoneBatch) (keep : Aggregated → Bool) (place : String × String) :
    b.merged_part (b.told keep) place =
      (b.nodes.entries.filter fun e => decide (b.merged_at e.1 = some place) && keep e.2).map fun e => (e.1,e.2.outputs.length) := by
  rw [Demux.merged_part,told,List.filter_map,List.filter_filter]
  rfl

-- Where the nodes of an output agree, one with prompts brings all of them.
theorem Agree.whole {b : DoneBatch} (agree : b.Agree) {place : String × String} (group : place.1 ∈ b.grouped_workflows.keys)
    (named : place.2 ∈ b.merged_names (b.told fun node => one_each node && prompted node) place.1) :
    b.merged_part (b.told fun node => one_each node && prompted node) place = b.merged_part (b.told one_each) place := by
  obtain ⟨e,member,merged⟩ := Demux.mem_merged_names.mp named
  obtain ⟨node,found,kept,_⟩ := mem_told.mp member
  obtain ⟨each,full⟩ := Bool.and_eq_true_iff.mp kept
  rw [merged_told,merged_told]
  refine congrArg (List.map _) (List.filter_congr fun e' inside => ?_)
  by_cases here : b.merged_at e'.1 = some place
  · cases each' : one_each e'.2 with
    | false => simp
    | true => simp [here,agree _ _ _ _ place found (Dict.get?_eq_some.mpr inside) merged here group each each' full]
  · simp [here]

-- A batch hands back aligned histories, and is not lost for want of some prompts, exactly when every node
-- has its prompts or none, and so has every merged output if with all prompts it would go through.
theorem histories_iff (b : DoneBatch) (fit : b.OutputsFit) :
    (b.Aligned ∧ b.Unharmed) ↔ b.Even ∧ (b.Receives (b.told one_each) → b.Agree) := by
  rw [aligned_iff]
  refine and_congr_right fun even => ?_
  have goes_through : (∃ r, b.demuxed = .ok r) ↔ b.Receives (b.told fun node => one_each node && prompted node) := by
    rw [← chat_histories_sizes even]
    exact (Demux.demux_accepts _ _).trans (and_iff_right fit)
  have refilled : ∀ fill : Value → Value, (∀ item, (prompt_of (fill item)).isSome) →
      ((∃ r, (b.refill fill).demuxed = .ok r) ↔ b.Receives (b.told one_each)) := by
    intro fill full
    rw [← refill_sizes b full]
    refine (Demux.demux_accepts _ _).trans (and_iff_right ?_)
    rw [refill_outputs]
    exact fit
  constructor
  · intro unharmed receives id node id' node' place found found' here here' group each each' full
    have filled : ∀ item : Value, (prompt_of (.dict [("metadata",.dict [("prompt",.list [])])])).isSome := fun _ => rfl
    have some_told := goes_through.mp (unharmed _ filled ((refilled _ filled).mpr receives))
    have told_node : (id,node.outputs.length) ∈ b.told fun node => one_each node && prompted node :=
      mem_told.mpr ⟨node,found,by simp [each,full],rfl⟩
    have whole := some_told.whole receives (told_fewer b prompted) (fun e member => ?_) group
      (Demux.mem_merged_names.mpr ⟨_,told_node,here⟩)
    · have told_node' : (id',node'.outputs.length) ∈ b.merged_part (b.told one_each) place :=
        List.mem_filter.mpr ⟨mem_told.mpr ⟨node',found',each',rfl⟩,decide_eq_true here'⟩
      rw [← whole] at told_node'
      obtain ⟨_,again,kept,_⟩ := mem_told.mp (List.mem_filter.mp told_node').1
      rw [found'] at again
      cases again
      exact (Bool.and_eq_true_iff.mp kept).2
    · obtain ⟨node,_,each,same⟩ := mem_told.mp member
      have filled := (Bool.and_eq_true_iff.mp each).2
      rw [← same]
      exact List.length_pos_of_ne_nil (by simpa using filled)
  · intro agrees fill full through
    have receives := (refilled fill full).mp through
    exact goes_through.mpr (receives.fewer (told_fewer b prompted).subset fun g group n named =>
      (agrees receives).whole group named)

-- One graph cut into two slices of one row each, whose answers come from one node.
def slice_of (index : Nat) : WorkflowItem where
  workflow_id := "w" ++ toString index
  request_id := "r"
  graph_name := "g__slice_" ++ toString index
  public_graph_name := "g"
  slice_index := index
  slice_start := index
  slice_length := 1
  total_length := 2
  template_hash := "hash"
  varying_input_keys := ["text"]
  runtime_graph := RuntimeGraph.empty
  config := { user_id := "user", principal_id := "principal" }
  enqueued_at := 0

def two_slices (items : List Value) : DoneBatch where
  grouped_workflows := Dict.empty.set "request::r::g::hash" [slice_of 0,slice_of 1]
  output_mapping := Dict.empty.set "request::r::g::hash__answer" ("request::r::g::hash","answer")
  list_lambda_dependent_nodes := []
  nodes := Dict.empty.set "request::r::g::hash__answer" ⟨items,[.str "yes",.str "no"]⟩

def asked (question : String) : Value :=
  .dict [("metadata",.dict [("prompt",.list [.dict [("role",.str "user"),("content",.str question)]])])]

theorem two_slices_fit (items : List Value) : (two_slices items).OutputsFit := by
  have fit : (two_slices []).OutputsFit := failure_eq_none.mp (by decide +kernel)
  exact fit

-- The second item lacks its prompt: one history for two rows, and the batch is lost.
theorem half_prompted_lost : (two_slices [asked "well?",.dict []]).OutputsFit ∧
    (two_slices [asked "well?",.dict []]).demuxed =
      .error (.merged_mismatch .history "request::r::g::hash" "answer" 2 1) ∧
    ¬(two_slices [asked "well?",.dict []]).Aligned ∧ ¬(two_slices [asked "well?",.dict []]).Unharmed := by
  have lost : (two_slices [asked "well?",.dict []]).demuxed =
      .error (.merged_mismatch .history "request::r::g::hash" "answer" 2 1) := failure_eq_some.mp (by decide +kernel)
  refine ⟨two_slices_fit _,lost,fun aligned => ?_,fun unharmed => ?_⟩
  · rcases (aligned_iff _).mp aligned "request::r::g::hash__answer" _ rfl rfl with every | no_item
    · exact absurd (every (.dict []) (by simp)) (by decide +kernel)
    · exact absurd (no_item (asked "well?") (by simp)) (by decide +kernel)
  · obtain ⟨r,done⟩ := unharmed (fun _ => asked "well?") (fun _ => rfl) (failure_eq_none.mp (by decide +kernel))
    rw [lost] at done
    cases done

theorem histories_iff_both_asked : (two_slices [asked "well?",asked "really?"]).OutputsFit ∧
    (two_slices [asked "well?",asked "really?"]).Aligned ∧ (two_slices [asked "well?",asked "really?"]).Unharmed := by
  have even : (two_slices [asked "well?",asked "really?"]).Even := by
    intro id node found _
    obtain ⟨rfl,rfl⟩ : id = "request::r::g::hash__answer" ∧ node = ⟨[asked "well?",asked "really?"],[.str "yes",.str "no"]⟩ := by
      simpa [two_slices,Dict.set] using Dict.get?_eq_some.mp found
    exact .inl (by simp [asked,prompt_of,Value.get?])
  refine ⟨two_slices_fit _,(histories_iff _ (two_slices_fit _)).mpr ⟨even,fun _ => ?_⟩⟩
  intro id node id' node' place _ found _ _ _ _ _ _
  obtain ⟨rfl,rfl⟩ : id' = "request::r::g::hash__answer" ∧ node' = ⟨[asked "well?",asked "really?"],[.str "yes",.str "no"]⟩ := by
    simpa [two_slices,Dict.set] using Dict.get?_eq_some.mp found
  rfl

end DoneBatch

end Lumilake.Server

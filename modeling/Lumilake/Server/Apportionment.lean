import Lumilake.Library.Shares
import Lumilake.Server.CounterMoves

-- The optimized nodes of a merged graph, apportioned to the requests of its batch.
namespace Lumilake.Server
open Weights

def raw_nodes_by_request (workflows : List WorkflowItem) : Dict String Nat :=
  workflows.foldl (fun raw workflow => raw.set workflow.request_id ((raw.get? workflow.request_id).getD 0 + workflow.runtime_graph.node_count))
    Dict.empty

-- The floor of the share of a request, and what is assigned so far.
def share_turn (total_nodes total_raw_nodes : Nat) (raw : Dict String Nat) (state : Dict String Nat × Nat) (request_id : String) :
    Dict String Nat × Nat :=
  let raw_nodes := (raw.get? request_id).getD 0
  let optimized := if total_raw_nodes ≤ 0 then 0 else total_nodes * raw_nodes / total_raw_nodes
  (state.1.set request_id optimized,state.2 + optimized)

-- The loop ends when nothing is left; a turn with nothing left does nothing.
def remainder_turn (state : Dict String Nat × Int) (request_id : String) : Dict String Nat × Int :=
  if state.2 ≤ 0 then state else (state.1.set request_id ((state.1.get? request_id).getD 0 + 1),state.2 - 1)

def sorted_requests (raw : Dict String Nat) : List String := raw.keys.mergeSort fun a b => decide (a ≤ b)

def optimized_nodes_by_request (total_nodes : Nat) (workflows : List WorkflowItem) : Dict String Nat :=
  let raw := raw_nodes_by_request workflows
  let total_raw_nodes := total raw.values
  let shared := (sorted_requests raw).foldl (share_turn total_nodes total_raw_nodes raw) (Dict.empty,0)
  ((sorted_requests raw).foldl remainder_turn (shared.1,(total_nodes : Int) - shared.2)).1

theorem total_eq (counts : List Nat) : total counts = weight id counts := by
  rw [total,weight,List.map_id]

theorem raw_nodes_get (workflows : List WorkflowItem) (q : String) :
    (raw_nodes_by_request workflows).get? q = if ∃ w ∈ workflows, w.request_id = q then some (raw_nodes workflows q) else none := by
  induction workflows using List.reverseRecOn with
  | nil => simp [raw_nodes_by_request]
  | append_singleton workflows w ih =>
      have step : raw_nodes_by_request (workflows ++ [w]) = (raw_nodes_by_request workflows).set w.request_id
          (((raw_nodes_by_request workflows).get? w.request_id).getD 0 + w.runtime_graph.node_count) := by
        simp [raw_nodes_by_request]
      have grows : raw_nodes (workflows ++ [w]) q = raw_nodes workflows q + raw_weight q w := by
        rw [raw_nodes_eq,raw_nodes_eq,weight_append,weight_cons,weight_nil]
        rfl
      rw [step,grows]
      by_cases own : q = w.request_id
      · subst own
        have here : ∃ x ∈ workflows ++ [w], x.request_id = w.request_id := ⟨w,List.mem_append_right _ List.mem_cons_self,rfl⟩
        rw [Dict.get?_set_self,if_pos here,ih]
        split
        · simp [raw_weight]
        · rename_i absent
          have none_before : raw_nodes workflows w.request_id = 0 :=
            raw_nodes_absent fun known => absent (mem_request_ids.mp known)
          simp [raw_weight,none_before]
      · rw [Dict.get?_set_ne _ _ own,ih]
        have same : (∃ x ∈ workflows ++ [w], x.request_id = q) ↔ ∃ x ∈ workflows, x.request_id = q := by
          constructor
          · intro found
            obtain ⟨x,member,at_request⟩ := found
            rcases List.mem_append.mp member with before | last
            · exact ⟨x,before,at_request⟩
            · cases List.mem_singleton.mp last
              exact absurd at_request.symm own
          · intro found
            obtain ⟨x,member,at_request⟩ := found
            exact ⟨x,List.mem_append_left _ member,at_request⟩
        simp only [same,raw_weight,if_neg (Ne.symm own),Nat.add_zero]

theorem raw_keys (workflows : List WorkflowItem) : q ∈ (raw_nodes_by_request workflows).keys ↔ ∃ w ∈ workflows, w.request_id = q := by
  rw [Dict.mem_keys_iff]
  constructor
  · intro found
    obtain ⟨n,found⟩ := found
    rw [raw_nodes_get] at found
    split at found
    · assumption
    · cases found
  · intro there
    exact ⟨_,(raw_nodes_get workflows q).trans (if_pos there)⟩

theorem sorted_requests_eq (workflows : List WorkflowItem) : sorted_requests (raw_nodes_by_request workflows) = request_order workflows := by
  have perm : (raw_nodes_by_request workflows).keys.Perm (request_ids workflows) :=
    (List.perm_ext_iff_of_nodup (Dict.keys_nodup _) (request_ids_nodup workflows)).mpr fun q =>
      (raw_keys workflows).trans mem_request_ids.symm
  have trans : ∀ a b c : String, decide (a ≤ b) = true → decide (b ≤ c) = true → decide (a ≤ c) = true := by
    intro a b c first second
    exact decide_eq_true (le_trans (of_decide_eq_true first) (of_decide_eq_true second))
  have total_order : ∀ a b : String, (decide (a ≤ b) || decide (b ≤ a)) = true := by
    intro a b
    simpa using le_total a b
  refine List.Perm.eq_of_pairwise ?_ (List.pairwise_mergeSort trans total_order _) (List.pairwise_mergeSort trans total_order _) ?_
  · intro a b _ _ first second
    exact le_antisymm (of_decide_eq_true first) (of_decide_eq_true second)
  · exact ((List.mergeSort_perm _ _).trans perm).trans (List.mergeSort_perm _ _).symm

-- The first pass gives every request the floor of its share.
theorem shares_pass {order : List String} (distinct : order.Nodup) (total_nodes total_raw_nodes : Nat) (raw : Dict String Nat) :
    let share := fun q => if total_raw_nodes ≤ 0 then 0 else total_nodes * (raw.get? q).getD 0 / total_raw_nodes
    (order.foldl (share_turn total_nodes total_raw_nodes raw) (Dict.empty,0)).1.entries = order.map (fun q => (q,share q)) ∧
    (order.foldl (share_turn total_nodes total_raw_nodes raw) (Dict.empty,0)).2 = weight share order := by
  intro share
  have passes : ∀ (ids : List String) (counts : Dict String Nat) (assigned : Nat),
      ids.foldl (share_turn total_nodes total_raw_nodes raw) (counts,assigned) =
        (ids.foldl (fun counts q => counts.set q (share q)) counts,assigned + weight share ids) := by
    intro ids
    induction ids with
    | nil => exact fun _ _ => rfl
    | cons q rest ih =>
        intro counts assigned
        rw [List.foldl_cons,share_turn,ih,weight_cons,← Nat.add_assoc]
        rfl
  rw [passes order Dict.empty 0]
  refine ⟨?_,Nat.zero_add _⟩
  have written := Dict.entries_foldl_set (fun q : String => q) share Dict.empty
    (by simpa using distinct : ((Dict.empty : Dict String Nat).keys ++ order.map fun q => q).Nodup)
  simpa using written

-- The second pass adds one to each of the first requests, as long as nodes are left.
theorem remainder_pass {order : List String} (distinct : order.Nodup) (counts : Dict String Nat) (known : ∀ q ∈ order, q ∈ counts.keys)
    (left : Nat) :
    (order.foldl remainder_turn (counts,(left : Int))).1.keys = counts.keys ∧
    ∀ q, (order.foldl remainder_turn (counts,(left : Int))).1.get? q =
      (counts.get? q).map fun n => n + if q ∈ order ∧ order.idxOf q < left then 1 else 0 := by
  induction order generalizing counts left with
  | nil => simp
  | cons id rest ih =>
      obtain ⟨fresh,distinct'⟩ := List.nodup_cons.mp distinct
      rw [List.foldl_cons]
      cases left with
      | zero =>
          have still : remainder_turn (counts,((0 : Nat) : Int)) id = (counts,((0 : Nat) : Int)) := rfl
          obtain ⟨keys,each⟩ := ih distinct' counts (fun q member => known q (List.mem_cons_of_mem _ member)) 0
          rw [still]
          refine ⟨keys,fun q => ?_⟩
          rw [each]
          simp
      | succ left =>
          have moved : remainder_turn (counts,((left + 1 : Nat) : Int)) id = (counts.set id ((counts.get? id).getD 0 + 1),(left : Int)) := by
            unfold remainder_turn
            rw [if_neg (by simp only; omega)]
            refine Prod.ext rfl ?_
            simp
          have present := known id List.mem_cons_self
          have keys_same : (counts.set id ((counts.get? id).getD 0 + 1)).keys = counts.keys := Dict.keys_set_of_mem present
          obtain ⟨keys,each⟩ := ih distinct' (counts.set id ((counts.get? id).getD 0 + 1))
            (fun q member => keys_same ▸ known q (List.mem_cons_of_mem _ member)) left
          rw [moved]
          refine ⟨keys.trans keys_same,fun q => ?_⟩
          rw [each]
          by_cases here : q = id
          · subst here
            obtain ⟨n,found⟩ := Dict.mem_keys_iff.mp present
            rw [Dict.get?_set_self,found,Option.map_some,Option.map_some,if_neg (fun both => fresh both.1),
              if_pos ⟨List.mem_cons_self,by rw [List.idxOf_cons_self]; omega⟩]
            rfl
          · rw [Dict.get?_set_ne _ _ here,List.idxOf_cons_ne _ (Ne.symm here)]
            simp only [List.mem_cons,here,false_or,Nat.succ_lt_succ_iff]

theorem values_of_keys (d : Dict String Nat) : weight id d.values = weight (fun q => (d.get? q).getD 0) d.keys := by
  unfold Dict.values Dict.keys
  rw [weight_map,weight_map]
  apply weight_congr
  intro e member
  rw [Dict.get?_eq_some.mpr (show (e.1,e.2) ∈ d.entries from member)]
  rfl

-- Every workflow counts for one request.
theorem raw_total (workflows : List WorkflowItem) :
    weight (raw_nodes workflows) (request_order workflows) = weight (fun w => w.runtime_graph.node_count) workflows := by
  have each : ∀ (ws : List WorkflowItem) (ids : List String), ids.Nodup → (∀ w ∈ ws, w.request_id ∈ ids) →
      weight (fun q => weight (raw_weight q) ws) ids = weight (fun w => w.runtime_graph.node_count) ws := by
    intro ws ids distinct
    induction ws with
    | nil =>
        intro _
        exact weight_eq_zero.mpr fun _ _ => rfl
    | cons w rest ih =>
        intro covered
        have later := ih fun x member => covered x (List.mem_cons_of_mem _ member)
        have own : weight (fun q => raw_weight q w) ids = w.runtime_graph.node_count := by
          have here := covered w List.mem_cons_self
          clear later ih covered
          induction ids with
          | nil => cases here
          | cons q more ih =>
              obtain ⟨fresh,distinct'⟩ := List.nodup_cons.mp distinct
              rw [weight_cons]
              by_cases same : w.request_id = q
              · have others : weight (fun q => raw_weight q w) more = 0 :=
                  weight_eq_zero.mpr fun x member => if_neg fun other => fresh ((same.symm.trans other) ▸ member)
                rw [others,raw_weight,if_pos same,Nat.add_zero]
              · rw [ih distinct' ((List.mem_cons.mp here).resolve_left same),raw_weight,if_neg same,Nat.zero_add]
        have both : weight (fun q => raw_weight q w + weight (raw_weight q) rest) ids =
            weight (fun q => raw_weight q w) ids + weight (fun q => weight (raw_weight q) rest) ids := by
          clear own later ih covered distinct
          induction ids with
          | nil => rfl
          | cons q more ih => simp only [weight_cons,ih]; omega
        rw [weight_cons,← own,← later,← both]
        rfl
  rw [← each workflows (request_order workflows) (request_order_nodup workflows)
    fun w member => mem_request_order.mpr (mem_request_ids.mpr ⟨w,member,rfl⟩)]
  apply weight_congr
  intro q _
  exact raw_nodes_eq workflows q

def share_of (total_nodes : Nat) (workflows : List WorkflowItem) (q : String) : Nat :=
  total_nodes * raw_nodes workflows q / total (workflows.map fun w => w.runtime_graph.node_count)

def left_over (total_nodes : Nat) (workflows : List WorkflowItem) : Nat :=
  total_nodes - weight (share_of total_nodes workflows) (request_order workflows)

-- Both passes together: the floor, and one more for the first requests.
theorem apportioned (total_nodes : Nat) {workflows : List WorkflowItem} (some_nodes : ∃ w ∈ workflows, w.runtime_graph.node_count ≠ 0) :
    (optimized_nodes_by_request total_nodes workflows).keys = request_order workflows ∧
    ∀ q ∈ request_order workflows, (optimized_nodes_by_request total_nodes workflows).get? q =
      some (share_of total_nodes workflows q + if (request_order workflows).idxOf q < left_over total_nodes workflows then 1 else 0) := by
  have whole_eq : total (raw_nodes_by_request workflows).values = total (workflows.map fun w => w.runtime_graph.node_count) := by
    have perm : (raw_nodes_by_request workflows).keys.Perm (request_order workflows) := by
      rw [← sorted_requests_eq]
      exact (List.mergeSort_perm _ _).symm
    rw [total_eq,values_of_keys,weight_perm perm,total,← weight,← raw_total]
    apply weight_congr
    intro q member
    rw [raw_nodes_get,if_pos (mem_request_ids.mp (mem_request_order.mp member))]
    rfl
  have positive : 0 < total (workflows.map fun w => w.runtime_graph.node_count) := by
    apply Nat.pos_of_ne_zero
    intro zero
    obtain ⟨w,member,nodes⟩ := some_nodes
    exact nodes (weight_eq_zero.mp zero w member)
  have whole_weight : weight (raw_nodes workflows) (request_order workflows) = total (workflows.map fun w => w.runtime_graph.node_count) :=
    raw_total workflows
  obtain ⟨entries,assigned⟩ := shares_pass (request_order_nodup workflows) total_nodes
    (total (raw_nodes_by_request workflows).values) (raw_nodes_by_request workflows)
  have share_eq : ∀ q ∈ request_order workflows, (if total (raw_nodes_by_request workflows).values ≤ 0 then 0 else
      total_nodes * ((raw_nodes_by_request workflows).get? q).getD 0 / total (raw_nodes_by_request workflows).values) =
      share_of total_nodes workflows q := by
    intro q member
    rw [whole_eq,if_neg (Nat.not_le.mpr positive),raw_nodes_get,if_pos (mem_request_ids.mp (mem_request_order.mp member))]
    rfl
  rw [weight_congr share_eq] at assigned
  have floors : weight (share_of total_nodes workflows) (request_order workflows) ≤ total_nodes := by
    have below := Shares.floors_le (f := raw_nodes workflows) total_nodes (whole_weight.symm ▸ positive)
    rw [whole_weight] at below
    exact below
  have keys : (((request_order workflows).foldl (share_turn total_nodes (total (raw_nodes_by_request workflows).values)
      (raw_nodes_by_request workflows)) (Dict.empty,0)).1).keys = request_order workflows := by
    unfold Dict.keys
    rw [entries,List.map_map]
    exact List.map_id _
  have shares : ∀ q ∈ request_order workflows, (((request_order workflows).foldl (share_turn total_nodes
      (total (raw_nodes_by_request workflows).values) (raw_nodes_by_request workflows)) (Dict.empty,0)).1).get? q =
      some (share_of total_nodes workflows q) := by
    intro q member
    rw [Dict.get?_eq_some,entries,← share_eq q member]
    exact List.mem_map_of_mem member
  have left : (total_nodes : Int) - ((request_order workflows).foldl (share_turn total_nodes
      (total (raw_nodes_by_request workflows).values) (raw_nodes_by_request workflows)) (Dict.empty,0)).2 =
      (left_over total_nodes workflows : Int) := by
    rw [assigned,left_over,Int.ofNat_sub floors]
  obtain ⟨same,each⟩ := remainder_pass (request_order_nodup workflows) _ (fun q member => keys.symm ▸ member) (left_over total_nodes workflows)
  unfold optimized_nodes_by_request
  simp only [sorted_requests_eq]
  rw [left]
  refine ⟨same.trans keys,fun q member => ?_⟩
  rw [each,shares q member]
  simp only [Option.map_some,member,true_and]

theorem apportionment_exact (total_nodes : Nat) (workflows : List WorkflowItem) (some_nodes : ∃ w ∈ workflows, w.runtime_graph.node_count ≠ 0) :
    total (optimized_nodes_by_request total_nodes workflows).values = total_nodes ∧
    (∀ q, q ∈ (optimized_nodes_by_request total_nodes workflows).keys ↔ ∃ w ∈ workflows, w.request_id = q) ∧
    ∀ q n, (optimized_nodes_by_request total_nodes workflows).get? q = some n →
      n = total_nodes * raw_nodes workflows q / total (workflows.map fun w => w.runtime_graph.node_count) ∨
      n = total_nodes * raw_nodes workflows q / total (workflows.map fun w => w.runtime_graph.node_count) + 1 := by
  obtain ⟨keys,each⟩ := apportioned total_nodes some_nodes
  refine ⟨?_,?_,?_⟩
  · have positive : 0 < weight (raw_nodes workflows) (request_order workflows) := by
      rw [raw_total]
      apply Nat.pos_of_ne_zero
      intro zero
      obtain ⟨w,inside,nodes⟩ := some_nodes
      exact nodes (weight_eq_zero.mp zero w inside)
    have floors := Shares.floors_le total_nodes positive
    have small := Shares.left_over_lt total_nodes positive
    have whole : weight (raw_nodes workflows) (request_order workflows) = total (workflows.map fun w => w.runtime_graph.node_count) :=
      raw_total workflows
    rw [whole] at floors small
    have bumps := Shares.first_members (request_order_nodup workflows) (left_over total_nodes workflows)
    have split : ∀ ids : List String, weight (fun q => share_of total_nodes workflows q +
        if (request_order workflows).idxOf q < left_over total_nodes workflows then 1 else 0) ids =
        weight (share_of total_nodes workflows) ids +
          weight (fun q => if (request_order workflows).idxOf q < left_over total_nodes workflows then 1 else 0) ids := by
      intro ids
      induction ids with
      | nil => rfl
      | cons q rest ih => simp only [weight_cons,ih]; omega
    have given : total_nodes - weight (share_of total_nodes workflows) (request_order workflows) = left_over total_nodes workflows := rfl
    have below : weight (share_of total_nodes workflows) (request_order workflows) ≤ total_nodes := floors
    have above : total_nodes < weight (share_of total_nodes workflows) (request_order workflows) + (request_order workflows).length := small
    have summed : weight (fun q => ((optimized_nodes_by_request total_nodes workflows).get? q).getD 0) (request_order workflows) =
        weight (fun q => share_of total_nodes workflows q +
          if (request_order workflows).idxOf q < left_over total_nodes workflows then 1 else 0) (request_order workflows) := by
      apply weight_congr
      intro q member
      rw [each q member]
      rfl
    rw [total_eq,values_of_keys,keys,summed,split,bumps]
    omega
  · intro q
    rw [keys,mem_request_order,mem_request_ids]
  · intro q n found
    have member : q ∈ request_order workflows := keys ▸ Dict.mem_keys_iff.mpr ⟨n,found⟩
    rw [each q member] at found
    cases found
    split
    · exact .inr rfl
    · exact .inl rfl

def share_item (request_id : String) : WorkflowItem where
  workflow_id := request_id
  request_id := request_id
  graph_name := "graph"
  public_graph_name := "graph"
  slice_index := 0
  slice_start := 0
  slice_length := 1
  total_length := 1
  template_hash := "hash"
  varying_input_keys := []
  runtime_graph := ⟨Dict.empty.set "node" ⟨"node","api","api","",[],[],[],[],[],none,none⟩,["node"],Dict.empty,Dict.empty,Dict.empty⟩
  config := { user_id := "user", principal_id := "principal" }
  enqueued_at := 0

theorem apportionment_two : total (optimized_nodes_by_request 3 [share_item "b",share_item "a"]).values = 3 ∧
    (∀ q, q ∈ (optimized_nodes_by_request 3 [share_item "b",share_item "a"]).keys ↔
      ∃ w ∈ [share_item "b",share_item "a"], w.request_id = q) ∧
    ∀ q n, (optimized_nodes_by_request 3 [share_item "b",share_item "a"]).get? q = some n →
      n = 3 * raw_nodes [share_item "b",share_item "a"] q / total ([share_item "b",share_item "a"].map fun w => w.runtime_graph.node_count) ∨
      n = 3 * raw_nodes [share_item "b",share_item "a"] q / total ([share_item "b",share_item "a"].map fun w => w.runtime_graph.node_count) + 1 :=
  apportionment_exact 3 [share_item "b",share_item "a"] ⟨share_item "b",List.mem_cons_self,by decide⟩

end Lumilake.Server

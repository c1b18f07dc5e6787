import Lumilake.Server.BatchRuns
import Lumilake.Library.Weights

namespace Lumilake.Server
open Weights

-- The raw nodes that a workflow adds to a request.
def raw_weight (request_id : String) (w : WorkflowItem) : Nat := if w.request_id = request_id then w.runtime_graph.node_count else 0

theorem raw_nodes_eq (workflows : List WorkflowItem) (q : String) : raw_nodes workflows q = weight (raw_weight q) workflows := by
  induction workflows with
  | nil => rfl
  | cons w rest ih =>
      rw [weight_cons,← ih]
      by_cases own : w.request_id = q <;> simp [raw_nodes,raw_weight,total,own]

theorem eraseDups_nodup [DecidableEq α] : ∀ l : List α, l.eraseDups.Nodup
  | [] => List.nodup_nil
  | x :: rest => by
    rw [List.eraseDups_cons,List.nodup_cons]
    refine ⟨fun again => ?_,eraseDups_nodup _⟩
    simpa using (List.mem_filter.mp (List.mem_eraseDups.mp again)).2
  termination_by l => l.length
  decreasing_by exact Nat.lt_succ_of_le (List.length_filter_le _ _)

theorem request_ids_nodup (workflows : List WorkflowItem) : (request_ids workflows).Nodup := eraseDups_nodup _

theorem mem_request_ids {workflows : List WorkflowItem} : q ∈ request_ids workflows ↔ ∃ w ∈ workflows, w.request_id = q := by
  simp [request_ids,List.mem_eraseDups]

theorem request_order_nodup (workflows : List WorkflowItem) : (request_order workflows).Nodup :=
  (List.mergeSort_perm _ _).nodup_iff.mpr (request_ids_nodup workflows)

theorem mem_request_order {workflows : List WorkflowItem} : q ∈ request_order workflows ↔ q ∈ request_ids workflows :=
  (List.mergeSort_perm _ _).mem_iff

theorem raw_nodes_absent {workflows : List WorkflowItem} (absent : q ∉ request_ids workflows) : raw_nodes workflows q = 0 := by
  rw [raw_nodes_eq,weight_eq_zero]
  intro w member
  exact if_neg (fun own => absent (mem_request_ids.mpr ⟨w,member,own⟩))

-- A loop over distinct requests in which no update fails.
theorem for_requests_ok {update : String → Update} {ids : List String} {requests : CounterTable} (distinct : ids.Nodup)
    (ok : ∀ q ∈ ids, ∀ c, requests.get? q = some c → (update q c).2 = none) :
    (for_requests update ids requests).2 = none ∧ ∀ q, (for_requests update ids requests).1.get? q =
      (requests.get? q).map (fun c => if q ∈ ids then (update q c).1 else c) := by
  induction ids generalizing requests with
  | nil => simp [for_requests]
  | cons id rest ih =>
      obtain ⟨fresh,distinct'⟩ := List.nodup_cons.mp distinct
      cases found : requests.get? id with
      | none =>
          have turn : for_requests update (id :: rest) requests = for_requests update rest requests := by
            simp only [for_requests,found]
          obtain ⟨fine,table⟩ := ih distinct' (fun q member => ok q (List.mem_cons_of_mem _ member))
          rw [turn]
          refine ⟨fine,fun q => ?_⟩
          rw [table]
          by_cases here : q = id
          · simp [here,found]
          · simp [here]
      | some c =>
          have passed := ok id List.mem_cons_self c found
          rcases moved : update id c with ⟨c',message⟩
          rw [moved] at passed
          obtain rfl : message = none := passed
          have turn : for_requests update (id :: rest) requests = for_requests update rest (requests.set id c') := by
            simp only [for_requests,found,moved]
          have rest_ok : ∀ q ∈ rest, ∀ b, (requests.set id c').get? q = some b → (update q b).2 = none := by
            intro q member b present
            have apart : q ≠ id := fun same => fresh (same ▸ member)
            rw [Dict.get?_set_ne _ _ apart] at present
            exact ok q (List.mem_cons_of_mem _ member) b present
          obtain ⟨fine,table⟩ := ih distinct' rest_ok
          rw [turn]
          refine ⟨fine,fun q => ?_⟩
          rw [table]
          by_cases here : q = id
          · subst here
            rw [Dict.get?_set_self,found]
            simp [fresh,moved]
          · rw [Dict.get?_set_ne _ _ here]
            simp [here]

theorem split_batch_weight {workflows : List WorkflowItem} :
    weight f (split_batch_by_request workflows).flatten = weight f workflows :=
  weight_groups _ (request_ids_nodup workflows) workflows (fun w member => mem_request_ids.mpr ⟨w,member,rfl⟩)

-- The counters of a request of `all` raw nodes: what its batches hold is what their
-- entries say.
structure Balanced (c : NodeCounters) (waiting processed all : Nat) : Prop where
  pending : c.pending_runtime_nodes_raw = waiting
  processed : c.processed_runtime_nodes_raw = processed
  processing : c.processing_runtime_nodes_raw = (weight Prod.fst c.batch_node_counts.values : Nat)
  optimized : c.processing_runtime_nodes_optimized = (weight Prod.snd c.batch_node_counts.values : Nat)
  conserved : c.pending_runtime_nodes_raw + c.processing_runtime_nodes_raw + c.processed_runtime_nodes_raw = all

theorem new_balanced (query : List WorkflowItem) :
    Balanced (new_counters query) (total (query.map (fun w => w.runtime_graph.node_count))) 0
      (total (query.map (fun w => w.runtime_graph.node_count))) :=
  ⟨rfl,rfl,rfl,rfl,by simp [new_counters]⟩

variable {c : NodeCounters} {waiting processed all raw optimized : Nat}

theorem start_balanced (sound : Balanced c waiting processed all) (enough : raw ≤ waiting)
    (fresh : batch_id ∉ c.batch_node_counts.keys) (q : String) :
    (start_request batch_id raw q c).2 = none ∧
      Balanced (start_request batch_id raw q c).1 (waiting - raw) processed all ∧
      (start_request batch_id raw q c).1.batch_node_counts = c.batch_node_counts.set batch_id (raw,0) := by
  have covered : ¬ c.pending_runtime_nodes_raw < raw := by
    rw [sound.pending]
    omega
  have raws := weight_fresh (f := Prod.fst) fresh (raw,0)
  have optimizeds := weight_fresh (f := Prod.snd) fresh (raw,0)
  unfold start_request
  rw [if_neg covered]
  refine ⟨rfl,⟨?_,sound.processed,?_,?_,?_⟩,rfl⟩
  · have := sound.pending
    dsimp only
    omega
  · dsimp only
    rw [raws,sound.processing]
    rfl
  · dsimp only
    rw [optimizeds,sound.optimized]
    rfl
  · have := sound.conserved
    dsimp only
    omega

theorem record_balanced (sound : Balanced c waiting processed all) (found : c.batch_node_counts.get? batch_id = some (raw,0))
    (optimized : Nat) (q : String) :
    (record_request batch_id optimized q c).2 = none ∧
      Balanced (record_request batch_id optimized q c).1 waiting processed all ∧
      (record_request batch_id optimized q c).1.batch_node_counts = c.batch_node_counts.set batch_id (raw,optimized) := by
  have raws := weight_set (f := Prod.fst) found (raw,optimized)
  have optimizeds := weight_set (f := Prod.snd) found (raw,optimized)
  have moved : record_request batch_id optimized q c = ({ c with
      processing_runtime_nodes_optimized := c.processing_runtime_nodes_optimized + optimized
      batch_node_counts := c.batch_node_counts.set batch_id (raw,optimized) },none) := by
    simp [record_request,found]
  rw [moved]
  refine ⟨rfl,⟨sound.pending,sound.processed,?_,?_,sound.conserved⟩,rfl⟩
  · have := sound.processing
    dsimp only at raws ⊢
    omega
  · have := sound.optimized
    dsimp only at optimizeds ⊢
    omega

theorem settle_balanced (sound : Balanced c waiting processed all)
    (found : c.batch_node_counts.get? batch_id = some (raw,optimized)) (q : String) :
    (settle_request batch_id false q c).2 = none ∧
      Balanced (settle_request batch_id false q c).1 waiting (processed + raw) all ∧
      (settle_request batch_id false q c).1.batch_node_counts = c.batch_node_counts.erase batch_id := by
  have raws := weight_erase (f := Prod.fst) found
  have optimizeds := weight_erase (f := Prod.snd) found
  obtain ⟨pending,done,processing,opt,conserved⟩ := sound
  dsimp only at raws optimizeds
  have enough_raw : ¬ c.processing_runtime_nodes_raw < raw := by omega
  have enough_optimized : ¬ c.processing_runtime_nodes_optimized < optimized := by omega
  have moved : settle_request batch_id false q c = ({ c with
      processing_runtime_nodes_raw := c.processing_runtime_nodes_raw - raw
      processed_runtime_nodes_raw := c.processed_runtime_nodes_raw + raw
      processing_runtime_nodes_optimized := c.processing_runtime_nodes_optimized - optimized
      processed_runtime_nodes_optimized := c.processed_runtime_nodes_optimized + optimized
      batch_node_counts := c.batch_node_counts.erase batch_id },none) := by
    by_cases no_raw : raw = 0 <;> by_cases no_optimized : optimized = 0 <;>
      simp [settle_request,process_raw,process_optimized,found,enough_raw,enough_optimized,no_raw,no_optimized]
  rw [moved]
  refine ⟨rfl,⟨pending,?_,?_,?_,?_⟩,rfl⟩ <;> dsimp only <;> omega

theorem settle_retry_balanced (sound : Balanced c waiting processed all)
    (found : c.batch_node_counts.get? batch_id = some (raw,optimized)) (q : String) :
    (settle_request batch_id true q c).2 = none ∧
      Balanced (settle_request batch_id true q c).1 (waiting + raw) processed all ∧
      (settle_request batch_id true q c).1.batch_node_counts = c.batch_node_counts.erase batch_id := by
  have raws := weight_erase (f := Prod.fst) found
  have optimizeds := weight_erase (f := Prod.snd) found
  obtain ⟨pending,done,processing,opt,conserved⟩ := sound
  dsimp only at raws optimizeds
  have moved : settle_request batch_id true q c = ({ c with
      processing_runtime_nodes_raw := c.processing_runtime_nodes_raw - raw
      pending_runtime_nodes_raw := c.pending_runtime_nodes_raw + raw
      processing_runtime_nodes_optimized := c.processing_runtime_nodes_optimized - optimized
      batch_node_counts := c.batch_node_counts.erase batch_id },none) := by
    simp [settle_request,found]
  rw [moved]
  refine ⟨rfl,⟨?_,done,?_,?_,?_⟩,rfl⟩ <;> dsimp only <;> omega

end Lumilake.Server

import Lumilake.JobManager.AbortFrame
import Lumilake.JobManager.Policies

namespace Lumilake.PriorityQueue
open Selection
variable {σ : Type} {cfg : Settings} {policy : SchedulingPolicy σ}

-- A turn moves items from the users to the pool and loses none.
theorem round_robin_turn_perm (room : Nat) (users : List (List WorkflowItem)) :
    ((round_robin_turn room users).1 ++ (round_robin_turn room users).2.flatten).Perm users.flatten := by
  induction users generalizing room with
  | nil => exact List.Perm.refl _
  | cons user rest ih =>
      cases user with
      | nil => simpa [round_robin_turn] using ih room
      | cons item items =>
          unfold round_robin_turn
          split
          · exact List.Perm.refl _
          · have later := ih (room - 1)
            simp only [List.cons_append,List.flatten_cons]
            refine List.Perm.cons item ?_
            refine (List.perm_append_comm_assoc _ _ _).trans ?_
            exact later.append_left items

theorem round_robin_turns_subperm (turns room : Nat) (users : List (List WorkflowItem)) :
    (round_robin_turns turns room users).Subperm users.flatten := by
  induction turns generalizing room users with
  | zero => exact List.nil_subperm
  | succ turns ih =>
      unfold round_robin_turns
      split
      · exact List.nil_subperm
      · split
        · exact List.nil_subperm
        · rename_i item taken left turn
          have moved := round_robin_turn_perm room users
          rw [turn] at moved
          exact ((List.subperm_append_left (item :: taken)).mpr (ih _ left)).trans moved.subperm

-- The deques of the users in rotation order are the deques of the priority.
theorem rotation_items {q : UserQueues} (valid : q.Valid) :
    (q.rr_user_order.flatMap (fun user => (q.queues.get? user).getD [])).Perm q.items := by
  have same : q.rr_user_order.Perm q.queues.keys :=
    (List.perm_ext_iff_of_nodup valid.nodup q.queues.keys_nodup).mpr valid.users
  rw [UserQueues.items,← q.queues.flatMap_keys]
  exact same.flatMap_right _

-- What one user of the rotation may contribute.
def offered (cfg : Settings) (partition : PartitionKey) (q : UserQueues) : List (List WorkflowItem) :=
  (q.rr_user_order.map (fun user => ((q.queues.get? user).getD []).filter (matches_partition cfg partition))).filter
    (fun items => !items.isEmpty)

theorem offered_flatten (cfg : Settings) (partition : PartitionKey) {q : UserQueues} (valid : q.Valid) :
    (offered cfg partition q).flatten.Perm (q.items.filter (matches_partition cfg partition)) := by
  have flat : (offered cfg partition q).flatten =
      (q.rr_user_order.flatMap (fun user => (q.queues.get? user).getD [])).filter (matches_partition cfg partition) := by
    unfold offered
    rw [List.flatten_filter_not_isEmpty,List.flatMap_def,List.filter_flatten,List.map_map]
    rfl
  rw [flat]
  exact (rotation_items valid).filter _

theorem turns_nobody (turns room : Nat) : round_robin_turns turns room [] = [] := by
  cases turns with
  | zero => rfl
  | succ turns => unfold round_robin_turns; split <;> rfl

-- In a valid queue the guards of a peek leave out nobody who has something to offer.
theorem peek_items {q : UserQueues} (valid : q.Valid) (limit : Int) (partition : PartitionKey) :
    (peek_round_robin_for_partition cfg limit partition q).2.1 =
      round_robin_turns limit.toNat limit.toNat (offered cfg partition q) := by
  unfold peek_round_robin_for_partition
  split
  · rename_i spent
    rw [Int.toNat_of_nonpos spent]
    rfl
  · dsimp only
    rw [prune_valid valid]
    split
    · rename_i idle
      have nobody : offered cfg partition q = [] := by
        rcases idle with no_queue | no_user
        · have empty : q.queues.entries = [] := List.isEmpty_iff.mp no_queue
          have none_there : ∀ user, q.queues.get? user = none := fun user => by simp [Dict.get?,empty]
          simp [offered,none_there]
        · simp [offered,List.isEmpty_iff.mp no_user]
      rw [nobody,turns_nobody]
    · change (if (offered cfg partition q).isEmpty = true then _ else _ : UserQueues × List WorkflowItem × Bool).2.1 = _
      split
      · rename_i none_left
        rw [List.isEmpty_iff.mp none_left,turns_nobody]
      · rfl

-- The candidates of one partition: per priority, as many turns as its quantum allows.
def candidate_pool (cfg : Settings) (partition : PartitionKey) (s : State σ) : List WorkflowItem :=
  Priority.all.flatMap (fun p =>
    round_robin_turns (cfg.quantums p).toNat (cfg.quantums p).toNat (offered cfg partition (s.queues p)))

theorem candidate_pool_items {s : State σ} (valid : s.Valid) (partition : PartitionKey) :
    (build_candidate_pool_for_partition cfg partition s).2.1 = candidate_pool cfg partition s := by
  simp only [build_candidate_pool_for_partition,candidate_pool,peek_items (valid.queues _)]
  have same : ∀ n : Int, (max 0 n).toNat = n.toNat := fun n => by omega
  simp only [same]

theorem candidate_pool_queued {s : State σ} (valid : s.Valid) (partition : PartitionKey) :
    (candidate_pool cfg partition s).Subperm (s.queued.filter (matches_partition cfg partition)) := by
  unfold candidate_pool State.queued
  rw [List.filter_flatMap]
  exact flatMap_subperm (fun p => (round_robin_turns_subperm _ _ _).trans
    (offered_flatten cfg partition (valid.queues p)).subperm) _

-- Nothing but the partition key decides which items match a partition.
theorem matches_partition_iff {item other : WorkflowItem} :
    matches_partition cfg (partition_of cfg other) item = true ↔ partition_of cfg item = partition_of cfg other := by
  unfold matches_partition partition_of
  cases cfg.capacity_aware_selection <;> simp [and_assoc]

-- The partition a reservation attempt takes its batch from.
def anchor_of (cfg : Settings) (s : State σ) (capacity : Option FreeCapacity) : Option PartitionKey :=
  match (scan cfg s capacity).present with
  | [] => none
  | first :: _ => some (select_anchor cfg s (scan cfg s capacity) first).2.1

theorem eligible_queued {s : State σ} {capacity : Option FreeCapacity}
    (eligible : p ∈ eligible_partitions cfg s capacity) : p ∈ s.partitions cfg := by
  cases capacity with
  | none => exact eligible
  | some capacity => exact (List.mem_filter.mp eligible).1

theorem starved_eligible {s : State σ} {capacity : Option FreeCapacity} (starved : item ∈ (scan cfg s capacity).starved) :
    item ∈ s.queued ∧ cfg.starvation_limit ≤ item.miss_count ∧ partition_of cfg item ∈ eligible_partitions cfg s capacity := by
  cases capacity with
  | none =>
      obtain ⟨queued,missed⟩ := List.mem_filter.mp (show item ∈ starved_in cfg s.queued from starved)
      exact ⟨queued,by simpa using missed,mem_partitions.mpr ⟨item,queued,rfl⟩⟩
  | some capacity =>
      obtain ⟨inside,runs⟩ := List.mem_filter.mp starved
      obtain ⟨queued,missed⟩ := List.mem_filter.mp inside
      exact ⟨queued,by simpa using missed,by simpa using runs⟩

theorem anchor_eligible {s : State σ} {capacity : Option FreeCapacity} (valid : s.Valid)
    (anchored : anchor_of cfg s capacity = some anchor) : anchor ∈ eligible_partitions cfg s capacity := by
  unfold anchor_of at anchored
  split at anchored
  · cases anchored
  · rename_i first rest present
    cases anchored
    cases pinned : (scan cfg s capacity).starved with
    | nil =>
        obtain ⟨head,inside,_,same⟩ := select_anchor_turn cfg valid.mirror pinned (by simp [present]) first
        rw [same]
        exact inside
    | cons head others =>
        have anchor : (select_anchor cfg s (scan cfg s capacity) first).2.1 = partition_of cfg head := by
          simp only [select_anchor,pinned]
        rw [anchor]
        exact (starved_eligible (pinned ▸ List.mem_cons_self)).2.2

-- The loops that fill a batch up: only new ids, and only while there is room.
theorem fill_spec (size : Nat) (ids chosen : List String) (distinct : chosen.Nodup) (fits : chosen.length ≤ size) :
    (ids.foldl (fun chosen id => if id ∉ chosen ∧ chosen.length < size then chosen ++ [id] else chosen) chosen).Nodup ∧
    (ids.foldl (fun chosen id => if id ∉ chosen ∧ chosen.length < size then chosen ++ [id] else chosen) chosen).length ≤ size ∧
    chosen <+: ids.foldl (fun chosen id => if id ∉ chosen ∧ chosen.length < size then chosen ++ [id] else chosen) chosen := by
  induction ids generalizing chosen with
  | nil => exact ⟨distinct,fits,List.prefix_rfl⟩
  | cons id rest ih =>
      rw [List.foldl_cons]
      split
      · rename_i fresh
        have longer : (chosen ++ [id]).Nodup := by
          rw [List.nodup_append]
          refine ⟨distinct,List.nodup_singleton id,?_⟩
          intro x old y last same
          rw [List.mem_singleton] at last
          exact fresh.1 (last ▸ same ▸ old)
        obtain ⟨apart,bounded,grown⟩ := ih (chosen ++ [id]) longer (by rw [List.length_append,List.length_singleton]; omega)
        exact ⟨apart,bounded,(List.prefix_append _ _).trans grown⟩
      · exact ih chosen distinct fits

def oldest_starved (cfg : Settings) (candidates : List WorkflowItem) : List String :=
  ((starved_in cfg candidates).mergeSort (fun a b => decide (a.enqueued_at ≤ b.enqueued_at))).map WorkflowItem.workflow_id

theorem oldest_starved_subperm (cfg : Settings) (candidates : List WorkflowItem) :
    (oldest_starved cfg candidates).Subperm (candidates.map WorkflowItem.workflow_id) :=
  map_subperm _ ((List.mergeSort_perm _ _).subperm.trans List.filter_sublist.subperm)

-- With a starved candidate the batch starts with the oldest starved ones.
theorem apply_starvation_spec (cfg : Settings) {candidates : List WorkflowItem} (batch_size : Int) (base : List String)
    (starved : starved_in cfg candidates ≠ []) (distinct : (candidates.map WorkflowItem.workflow_id).Nodup) :
    (apply_starvation_policy cfg candidates base batch_size).Nodup ∧
    (apply_starvation_policy cfg candidates base batch_size).length ≤ batch_size.toNat ∧
    (oldest_starved cfg candidates).take batch_size.toNat <+: apply_starvation_policy cfg candidates base batch_size := by
  have apart := nodup_of_subperm (oldest_starved_subperm cfg candidates) distinct
  unfold apply_starvation_policy
  split
  · rename_i nobody; exact absurd nobody starved
  · rename_i head rest found
    dsimp only
    have pinned : ((head :: rest).mergeSort (fun a b => decide (a.enqueued_at ≤ b.enqueued_at))).map
        WorkflowItem.workflow_id = oldest_starved cfg candidates := by rw [← found,oldest_starved]
    rw [pinned]
    split
    · exact ⟨apart.sublist (List.take_sublist _ _),List.length_take_le _ _,List.prefix_rfl⟩
    · rename_i room
      obtain ⟨first_apart,first_fits,first_grown⟩ := fill_spec batch_size.toNat base _ apart (by omega)
      obtain ⟨final_apart,final_fits,final_grown⟩ :=
        fill_spec batch_size.toNat (candidates.map WorkflowItem.workflow_id) _ first_apart first_fits
      exact ⟨final_apart,final_fits,((List.take_prefix _ _).trans first_grown).trans final_grown⟩

-- Both ways to choose give different ids, no more than the batch size.
theorem select_ids_ranked {candidates : List WorkflowItem} {batch_size : Int} {state after : σ} (ranks : policy.Ranks)
    (some_room : 1 ≤ batch_size) (distinct : (candidates.map WorkflowItem.workflow_id).Nodup)
    (chosen : select_ids cfg policy state candidates batch_size = (after,.ok ids)) :
    ids.Nodup ∧ ids.length ≤ batch_size.toNat := by
  unfold select_ids at chosen
  split at chosen
  · obtain ⟨within,fits⟩ := ranks _ _ _ _ _ distinct some_room chosen
    exact ⟨nodup_of_subperm within distinct,fits⟩
  · rename_i head rest found
    cases chosen
    obtain ⟨apart,fits,_⟩ := apply_starvation_spec cfg batch_size _ (by simp [found]) distinct
    exact ⟨apart,fits⟩

theorem item_map_get {candidates : List WorkflowItem} {id : String} (found : (item_map candidates).get? id = some item) :
    item ∈ candidates ∧ item.workflow_id = id := by
  have loop : ∀ (items : List WorkflowItem) (known : Dict String WorkflowItem),
      (items.foldl (fun found item => found.set item.workflow_id item) known).get? id = some item →
      (item ∈ items ∧ item.workflow_id = id) ∨ known.get? id = some item := by
    intro items
    induction items with
    | nil => exact fun _ here => .inr here
    | cons first rest ih =>
        intro known here
        rcases ih _ here with ⟨member,same⟩ | early
        · exact .inl ⟨List.mem_cons_of_mem _ member,same⟩
        · by_cases same : id = first.workflow_id
          · subst same
            rw [Dict.get?_set_self] at early
            cases early
            exact .inl ⟨List.mem_cons_self,rfl⟩
          · rw [Dict.get?_set_ne _ _ same] at early
            exact .inr early
  rcases loop candidates Dict.empty found with inside | none_yet
  · exact inside
  · cases none_yet

theorem item_map_all {candidates workflows : List WorkflowItem} {ids : List String}
    (found : ids.mapM (item_map candidates).get? = some workflows) :
    workflows.map WorkflowItem.workflow_id = ids ∧ ∀ w ∈ workflows, w ∈ candidates := by
  induction ids generalizing workflows with
  | nil => cases found; exact ⟨rfl,by simp⟩
  | cons id rest ih =>
      rw [List.mapM_cons] at found
      obtain ⟨item,first,found⟩ := Option.bind_eq_some_iff.mp found
      obtain ⟨items,later,same⟩ := Option.bind_eq_some_iff.mp found
      cases same
      obtain ⟨inside,own⟩ := item_map_get first
      obtain ⟨ids,all⟩ := ih later
      refine ⟨by rw [List.map_cons,own,ids],?_⟩
      intro w member
      rcases List.mem_cons.mp member with rfl | further
      · exact inside
      · exact all w further

-- What a reserve returned, in terms of the queue it was called on.
structure Reserved (cfg : Settings) (policy : SchedulingPolicy σ) (s : State σ) (batch_size : Int)
    (capacity : Option FreeCapacity) (after : State σ) (r : Reservation) (anchor : PartitionKey) : Prop where
  idle : s.active_reservation = none
  active : after.active_reservation = some r
  anchored : anchor_of cfg s capacity = some anchor
  chosen : ∃ state state', select_ids cfg policy state (candidate_pool cfg anchor s) (max 1 batch_size) =
    (state',.ok r.selected_workflow_ids)
  workflows : r.selected_workflow_ids.mapM (item_map (candidate_pool cfg anchor s)).get? = some r.workflows
  some_workflow : r.workflows ≠ []
  missed : r.miss_increment_targets =
    ((candidate_pool cfg anchor s).map WorkflowItem.workflow_id).filter (· ∉ r.selected_workflow_ids)

theorem open_reservation_spec {s after : State σ} {candidates : List WorkflowItem} {ids : List String}
    {turn : Option PartitionKey} {priorities : List Priority}
    (opened : open_reservation s candidates ids turn priorities = (after,.ok (some r))) :
    after.active_reservation = some r ∧ r.selected_workflow_ids = ids ∧
      ids.mapM (item_map candidates).get? = some r.workflows ∧ r.workflows ≠ [] ∧
      r.miss_increment_targets = (candidates.map WorkflowItem.workflow_id).filter (· ∉ ids) := by
  unfold open_reservation at opened
  split at opened
  · cases opened
  · cases opened
  · rename_i first rest found
    cases opened
    exact ⟨rfl,rfl,found,by simp,rfl⟩

theorem select_anchor_queues (cfg : Settings) (found : Scan) (first partition : PartitionKey) (s : State σ) :
    candidate_pool cfg partition (select_anchor cfg s found first).1 = candidate_pool cfg partition s := by
  simp only [candidate_pool,(select_anchor_frame cfg found first s).1]

theorem reserve_spec {s after : State σ} (valid : s.Valid) {batch_size : Int} {capacity : Option FreeCapacity}
    (reserved : reserve_batch cfg policy s batch_size capacity = (after,.ok (some r))) :
    ∃ anchor, Reserved cfg policy s batch_size capacity after r anchor := by
  have size : (if batch_size ≤ 0 then 1 else batch_size) = max 1 batch_size := by omega
  have kept := anchored_valid cfg valid capacity
  unfold reserve_batch at reserved
  rw [size] at reserved
  unfold anchored at kept
  cases active : s.active_reservation with
  | some open_one => rw [active] at reserved; cases reserved
  | none =>
      rw [active] at reserved kept
      dsimp only at reserved kept
      split at reserved
      · cases reserved
      · rename_i first rest present
        rw [present] at kept
        dsimp only at kept
        generalize selected : select_anchor cfg s (scan cfg s capacity) first = choice at reserved kept
        obtain ⟨t,anchor,turn⟩ := choice
        have anchored : anchor_of cfg s capacity = some anchor := by simp [anchor_of,present,selected]
        have same : candidate_pool cfg anchor t = candidate_pool cfg anchor s := by
          have frame := select_anchor_queues cfg (scan cfg s capacity) first anchor s
          rwa [selected] at frame
        refine ⟨anchor,?_⟩
        unfold fill_batch at reserved
        dsimp only at reserved
        rw [candidate_pool_items kept,same] at reserved
        split at reserved
        · cases reserved
        · split at reserved
          · cases reserved
          · rename_i state' ids chosen
            obtain ⟨now,selected_ids,workflows,some_workflow,missed⟩ := open_reservation_spec reserved
            exact ⟨active,now,anchored,⟨_,state',selected_ids ▸ chosen⟩,selected_ids ▸ workflows,some_workflow,
              selected_ids ▸ missed⟩

end Lumilake.PriorityQueue

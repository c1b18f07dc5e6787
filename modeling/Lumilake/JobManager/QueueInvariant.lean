import Lumilake.Library.RoundRobin
import Lumilake.Library.Runs
import Lumilake.JobManager.BatchReservation

namespace Lumilake.PriorityQueue
open RoundRobin
variable {σ : Type} {cfg : Settings} {policy : SchedulingPolicy σ}

-- No deque is empty, and the user rotation names every user with a deque once.
structure UserQueues.Valid (q : UserQueues) : Prop where
  filled : ∀ e ∈ q.queues.entries, e.2 ≠ []
  nodup : q.rr_user_order.Nodup
  users : ∀ user, user ∈ q.rr_user_order ↔ user ∈ q.queues.keys

-- What every interleaving keeps, whatever the capacity snapshots are.
structure State.Valid (s : State σ) : Prop where
  queues : ∀ p, (s.queues p).Valid
  mirror : Mirrored s.rr_partition_order s.rr_partition_members

theorem mem_items {q : UserQueues} : item ∈ q.items ↔ ∃ e ∈ q.queues.entries, item ∈ e.2 := by
  simp only [UserQueues.items,Dict.values,List.mem_flatten,List.mem_map]
  constructor
  · rintro ⟨queue,⟨e,member,rfl⟩,inside⟩; exact ⟨e,member,inside⟩
  · rintro ⟨e,member,inside⟩; exact ⟨e.2,⟨e,member,rfl⟩,inside⟩

theorem mem_queued {s : State σ} : item ∈ s.queued ↔ ∃ p, item ∈ (s.queues p).items := by
  simp [State.queued,Priority.mem_all]

theorem prune_valid {q : UserQueues} (valid : q.Valid) : prune_empty_user_queues q = q := by
  obtain ⟨queues,order⟩ := q
  have full : queues.filter (fun _ queue => !queue.isEmpty) = queues := by
    apply Dict.filter_self
    intro e member
    simpa using valid.filled e member
  simp only [prune_empty_user_queues,full,UserQueues.mk.injEq,true_and]
  exact List.filter_eq_self.mpr (fun user member => by simpa using (valid.users user).mp member)

theorem prune_makes_valid {q : UserQueues} (nodup : q.rr_user_order.Nodup)
    (covered : ∀ user ∈ q.queues.keys, user ∈ q.rr_user_order) : (prune_empty_user_queues q).Valid := by
  refine ⟨?_,nodup.filter _,?_⟩
  · intro e member
    simpa using (List.mem_filter.mp member).2
  · intro user
    simp only [prune_empty_user_queues,List.mem_filter,decide_eq_true_eq,and_iff_right_iff_imp]
    intro kept
    obtain ⟨e,member,rfl⟩ := List.mem_map.mp kept
    exact covered _ (List.mem_map_of_mem (List.mem_filter.mp member).1)

theorem push_valid {q : UserQueues} (valid : q.Valid) (owner : String) (item : WorkflowItem) :
    (q.push owner item).Valid := by
  unfold UserQueues.push
  cases found : q.queues.get? owner with
  | some queue =>
    have present := Dict.mem_keys_of_entry (Dict.get?_eq_some.mp found)
    refine ⟨?_,valid.nodup,?_⟩
    · intro e member
      rcases Dict.mem_entries_set.mp member with ⟨old,_⟩ | rfl
      · exact valid.filled e old
      · simp
    · intro user
      simpa only [Dict.keys_set_of_mem present] using valid.users user
  | none =>
    have absent := Dict.get?_eq_none.mp found
    refine ⟨?_,?_,?_⟩
    · intro e member
      rcases Dict.mem_entries_set.mp member with ⟨old,_⟩ | rfl
      · exact valid.filled e old
      · simp
    · rw [List.nodup_append]
      refine ⟨valid.nodup,by simp,?_⟩
      rintro user member b last rfl
      rw [List.mem_singleton] at last
      exact absent (last ▸ (valid.users user).mp member)
    · intro user
      simp [Dict.keys_set_of_not_mem absent,valid.users]

theorem mem_push {q : UserQueues} {owner : String} {fresh : WorkflowItem} :
    item ∈ (q.push owner fresh).items ↔ item ∈ q.items ∨ item = fresh := by
  simp only [mem_items]
  unfold UserQueues.push
  cases found : q.queues.get? owner with
  | some queue =>
    have entry := Dict.get?_eq_some.mp found
    constructor
    · rintro ⟨e,member,inside⟩
      rcases Dict.mem_entries_set.mp member with ⟨old,_⟩ | rfl
      · exact .inl ⟨e,old,inside⟩
      · rcases List.mem_append.mp inside with old | last
        · exact .inl ⟨_,entry,old⟩
        · exact .inr (List.mem_singleton.mp last)
    · rintro (⟨e,member,inside⟩ | rfl)
      · by_cases same : e.1 = owner
        · have same_queue : e.2 = queue := by
            have again : q.queues.get? owner = some e.2 := Dict.get?_eq_some.mpr (same ▸ member)
            exact Option.some.inj (again.symm.trans found)
          exact ⟨_,Dict.mem_entries_set.mpr (.inr rfl),List.mem_append_left _ (same_queue ▸ inside)⟩
        · exact ⟨e,Dict.mem_entries_set.mpr (.inl ⟨member,same⟩),inside⟩
      · exact ⟨_,Dict.mem_entries_set.mpr (.inr rfl),by simp⟩
  | none =>
    have absent := Dict.get?_eq_none.mp found
    constructor
    · rintro ⟨e,member,inside⟩
      rcases Dict.mem_entries_set.mp member with ⟨old,_⟩ | rfl
      · exact .inl ⟨e,old,inside⟩
      · exact .inr (List.mem_singleton.mp inside)
    · rintro (⟨e,member,inside⟩ | rfl)
      · refine ⟨e,Dict.mem_entries_set.mpr (.inl ⟨member,?_⟩),inside⟩
        rintro rfl
        exact absent (List.mem_map_of_mem member)
      · exact ⟨_,Dict.mem_entries_set.mpr (.inr rfl),by simp⟩

theorem drop_valid {q : UserQueues} (valid : q.Valid) (ids : List String) : (q.drop ids).Valid := by
  unfold UserQueues.drop
  split
  · exact valid
  · refine prune_makes_valid (q := ⟨_,q.rr_user_order⟩) valid.nodup ?_
    intro user member
    obtain ⟨e,kept,rfl⟩ := List.mem_map.mp member
    obtain ⟨old,present,rfl⟩ := List.mem_map.mp (List.mem_filter.mp kept).1
    exact (valid.users old.1).mpr (Dict.mem_keys_of_entry present)

theorem mem_drop {q : UserQueues} {ids : List String} :
    item ∈ (q.drop ids).items ↔ item ∈ q.items ∧ item.workflow_id ∉ ids := by
  simp only [mem_items]
  unfold UserQueues.drop
  split
  · rename_i empty
    have none_left : q.queues.entries = [] := List.isEmpty_iff.mp empty
    simp [none_left]
  · simp only [prune_empty_user_queues,Dict.entries_filter,Dict.entries_mapValues,List.mem_filter,List.mem_map]
    constructor
    · rintro ⟨e,⟨⟨⟨old,present,rfl⟩,_⟩,_⟩,inside⟩
      have facts := List.mem_filter.mp inside
      exact ⟨⟨old,present,facts.1⟩,by simpa using facts.2⟩
    · rintro ⟨⟨e,present,inside⟩,kept⟩
      have stays : item ∈ e.2.filter (fun item => decide (item.workflow_id ∉ ids)) :=
        List.mem_filter.mpr ⟨inside,by simpa using kept⟩
      have filled : (!(e.2.filter (fun item => decide (item.workflow_id ∉ ids))).isEmpty) = true := by
        rw [Bool.not_eq_true',List.isEmpty_eq_false_iff]
        exact List.ne_nil_of_mem stays
      exact ⟨_,⟨⟨⟨e,present,rfl⟩,filled⟩,filled⟩,stays⟩

theorem admit_mirror {s : State σ} (mirror : Mirrored s.rr_partition_order s.rr_partition_members)
    (partition : PartitionKey) :
    Mirrored (admit_partition s partition).rr_partition_order (admit_partition s partition).rr_partition_members := by
  unfold admit_partition
  split
  · exact mirror
  · rename_i fresh; exact mirror.append fresh

theorem mem_admitted {s : State σ} (mirror : Mirrored s.rr_partition_order s.rr_partition_members) :
    p ∈ (admit_partition s partition).rr_partition_order ↔ p ∈ s.rr_partition_order ∨ p = partition := by
  unfold admit_partition
  split
  · rename_i member
    exact ⟨.inl,fun h => h.elim id (fun equal => equal ▸ mirror.mem.mp member)⟩
  · simp

@[simp] theorem admit_queues (s : State σ) (partition : PartitionKey) :
    (admit_partition s partition).queues = s.queues := by unfold admit_partition; split <;> rfl
@[simp] theorem admit_items (s : State σ) (partition : PartitionKey) :
    (admit_partition s partition).items = s.items := by unfold admit_partition; split <;> rfl

theorem admit_active (s : State σ) (partition : PartitionKey) :
    (admit_partition s partition).active_reservation = s.active_reservation := by
  unfold admit_partition; split <;> rfl

theorem admits_frame (s : State σ) (partitions : List PartitionKey) :
    (partitions.foldl admit_partition s).queues = s.queues ∧ (partitions.foldl admit_partition s).items = s.items ∧
      (partitions.foldl admit_partition s).active_reservation = s.active_reservation := by
  induction partitions generalizing s with
  | nil => exact ⟨rfl,rfl,rfl⟩
  | cons head rest ih =>
    obtain ⟨queues,items,active⟩ := ih (admit_partition s head)
    exact ⟨queues.trans (admit_queues s head),items.trans (admit_items s head),active.trans (admit_active s head)⟩

theorem admits_mirror {s : State σ} (mirror : Mirrored s.rr_partition_order s.rr_partition_members)
    (partitions : List PartitionKey) :
    Mirrored (partitions.foldl admit_partition s).rr_partition_order
      (partitions.foldl admit_partition s).rr_partition_members := by
  induction partitions generalizing s with
  | nil => exact mirror
  | cons head rest ih => exact ih (admit_mirror mirror head)

theorem mem_admits {s : State σ} (mirror : Mirrored s.rr_partition_order s.rr_partition_members)
    (partitions : List PartitionKey) :
    p ∈ (partitions.foldl admit_partition s).rr_partition_order ↔ p ∈ s.rr_partition_order ∨ p ∈ partitions := by
  induction partitions generalizing s with
  | nil => simp
  | cons head rest ih => rw [List.foldl_cons,ih (admit_mirror mirror head),mem_admitted mirror,List.mem_cons,or_assoc]

-- The pick drops the heads outside `present` and nothing behind the first one inside.
theorem pick_order (present order : List PartitionKey) (members : Finset PartitionKey) :
    (pick_partition_round_robin present order members).1 = order.dropWhile (fun p => decide (p ∉ present)) ∧
    (pick_partition_round_robin present order members).2.2 =
      (order.dropWhile (fun p => decide (p ∉ present))).head? := by
  induction order generalizing members with
  | nil => exact ⟨rfl,rfl⟩
  | cons head rest ih =>
    unfold pick_partition_round_robin
    split
    · rename_i inside; simp [inside]
    · rename_i outside; simpa [outside] using ih (members.erase head)

theorem pick_mirror {present order : List PartitionKey} {members : Finset PartitionKey}
    (mirror : Mirrored order members) :
    Mirrored (pick_partition_round_robin present order members).1
      (pick_partition_round_robin present order members).2.1 := by
  induction order generalizing members with
  | nil => exact mirror
  | cons head rest ih =>
    unfold pick_partition_round_robin
    split
    · exact mirror
    · exact ih mirror.tail

theorem mem_partitions {s : State σ} : p ∈ s.partitions cfg ↔ ∃ item ∈ s.queued, partition_of cfg item = p := by
  simp [State.partitions]

-- What a caller can observe of the queue: deques, both rotations and the item table.
structure View where
  queues : Priority → UserQueues
  rr_partition_order : List PartitionKey
  rr_partition_members : Finset PartitionKey
  items : Dict String WorkflowItem

def State.view (s : State σ) : View := ⟨s.queues,s.rr_partition_order,s.rr_partition_members,s.items⟩

theorem view_queued {s t : State σ} (same : s.view = t.view) : s.queued = t.queued := by
  have queues : s.queues = t.queues := congrArg View.queues same
  simp only [State.queued,queues]

theorem view_valid {s t : State σ} (same : s.view = t.view) (valid : t.Valid) : s.Valid := by
  simp only [State.view,View.mk.injEq] at same
  obtain ⟨queues,order,members,_⟩ := same
  exact ⟨queues ▸ valid.queues,by rw [order,members]; exact valid.mirror⟩

-- The state a reservation attempt has once the anchor is chosen; nothing after
-- that point touches the view of a valid queue.
def anchored (cfg : Settings) (s : State σ) (capacity : Option FreeCapacity) : State σ :=
  match s.active_reservation with
  | some _ => s
  | none =>
    match (scan cfg s capacity).present with
    | [] => s
    | first :: _ => (select_anchor cfg s (scan cfg s capacity) first).1

theorem pick_frame (present : List PartitionKey) (s : State σ) :
    (pick_partition present s).1.queues = s.queues ∧ (pick_partition present s).1.items = s.items ∧
      (pick_partition present s).1.active_reservation = s.active_reservation := ⟨rfl,rfl,rfl⟩

theorem select_anchor_frame (cfg : Settings) (found : Scan) (first : PartitionKey) (s : State σ) :
    (select_anchor cfg s found first).1.queues = s.queues ∧ (select_anchor cfg s found first).1.items = s.items ∧
      (select_anchor cfg s found first).1.active_reservation = s.active_reservation := by
  unfold select_anchor
  split
  · exact ⟨rfl,rfl,rfl⟩
  · split
    · rename_i picked equal
      have frame := pick_frame found.present s
      rwa [equal] at frame
    · rename_i after equal
      obtain ⟨queues,items,active⟩ := pick_frame found.present s
      rw [equal] at queues items active
      obtain ⟨queues',items',active'⟩ := admits_frame after
        (found.present.mergeSort (fun p q => decide (partition_sort_key p ≤ partition_sort_key q)))
      exact ⟨queues'.trans queues,items'.trans items,active'.trans active⟩

theorem select_anchor_mirror (found : Scan) (first : PartitionKey) {s : State σ}
    (mirror : Mirrored s.rr_partition_order s.rr_partition_members) :
    Mirrored (select_anchor cfg s found first).1.rr_partition_order
      (select_anchor cfg s found first).1.rr_partition_members := by
  have picked : ∀ {s : State σ}, Mirrored s.rr_partition_order s.rr_partition_members →
      Mirrored (pick_partition found.present s).1.rr_partition_order
        (pick_partition found.present s).1.rr_partition_members := fun m => pick_mirror m
  unfold select_anchor
  split
  · exact mirror
  · split
    · rename_i equal
      have kept := picked mirror
      rwa [equal] at kept
    · rename_i after equal
      have kept := picked mirror
      rw [equal] at kept
      exact picked (admits_mirror kept _)

theorem anchored_valid (cfg : Settings) {s : State σ} (valid : s.Valid) (capacity : Option FreeCapacity) :
    (anchored cfg s capacity).Valid := by
  unfold anchored
  split
  · exact valid
  · split
    · exact valid
    · rename_i first rest _
      refine ⟨?_,select_anchor_mirror _ _ valid.mirror⟩
      rw [(select_anchor_frame cfg _ _ s).1]
      exact valid.queues

theorem peek_queues {q : UserQueues} (valid : q.Valid) (limit : Int) (partition : PartitionKey) :
    (peek_round_robin_for_partition cfg limit partition q).1 = q := by
  unfold peek_round_robin_for_partition
  split
  · rfl
  · dsimp only
    rw [prune_valid valid]
    split
    · rfl
    · split <;> rfl

theorem candidate_pool_state (cfg : Settings) {s : State σ} (valid : ∀ p, (s.queues p).Valid) (partition : PartitionKey) :
    (build_candidate_pool_for_partition cfg partition s).1 = s := by
  have same : (fun p => (peek_round_robin_for_partition cfg (max 0 (cfg.quantums p)) partition (s.queues p)).1) =
      s.queues := funext (fun p => peek_queues (valid p) _ _)
  simp only [build_candidate_pool_for_partition,same]

theorem open_reservation_view (s : State σ) (candidates : List WorkflowItem) (ids : List String)
    (turn : Option PartitionKey) (priorities : List Priority) :
    (open_reservation s candidates ids turn priorities).1.view = s.view := by
  unfold open_reservation
  split <;> rfl

theorem fill_batch_view {s : State σ} (valid : s.Valid) (batch_size : Int) (capacity : Option FreeCapacity)
    (anchor : PartitionKey) (turn : Option PartitionKey) :
    (fill_batch cfg policy s batch_size capacity anchor turn).1.view = s.view := by
  have pool := candidate_pool_state cfg valid.queues anchor
  unfold fill_batch
  dsimp only
  rw [pool]
  split
  · rfl
  · split
    · rfl
    · rw [open_reservation_view]; rfl

theorem reserve_view {s : State σ} (valid : s.Valid) (batch_size : Int) (capacity : Option FreeCapacity) :
    (reserve_batch cfg policy s batch_size capacity).1.view = (anchored cfg s capacity).view := by
  have anchor_valid := anchored_valid cfg valid capacity
  unfold reserve_batch anchored at *
  cases active : s.active_reservation with
  | some r => rfl
  | none =>
    cases found : (scan cfg s capacity).present with
    | nil => simp only [found]; rfl
    | cons first rest =>
      simp only [active,found] at anchor_valid ⊢
      exact fill_batch_view anchor_valid _ capacity _ _

theorem abort_view (s : State σ) (handle : Nat) : (abort_reservation s handle).1.view = s.view := by
  unfold abort_reservation
  split
  · rfl
  · split <;> rfl

theorem bump_item_partition (id : String) (item : WorkflowItem) :
    partition_of cfg (bump_item id item) = partition_of cfg item := by
  unfold bump_item
  split <;> rfl

theorem bump_queues (q : UserQueues) (id : String) (valid : q.Valid) :
    UserQueues.Valid ⟨q.queues.mapValues (fun _ => List.map (bump_item id)),q.rr_user_order⟩ := by
  refine ⟨?_,valid.nodup,?_⟩
  · intro e member
    obtain ⟨old,present,rfl⟩ := List.mem_map.mp member
    simpa using valid.filled old present
  · intro user
    simpa using valid.users user

theorem bump_valid {s : State σ} (valid : s.Valid) (id : String) : (bump_miss s id).Valid := by
  unfold bump_miss
  split
  · exact ⟨fun p => bump_queues _ id (valid.queues p),valid.mirror⟩
  · exact valid

theorem bump_partitions (s : State σ) (id : String) :
    p ∈ (bump_miss s id).partitions cfg ↔ p ∈ s.partitions cfg := by
  unfold bump_miss
  split
  · simp only [mem_partitions,mem_queued,mem_items,Dict.entries_mapValues,List.mem_map]
    constructor
    · rintro ⟨_,⟨priority,_,⟨e,member,rfl⟩,inside⟩,rfl⟩
      obtain ⟨old,present,rfl⟩ := List.mem_map.mp inside
      exact ⟨old,⟨priority,e,member,present⟩,(bump_item_partition id old).symm⟩
    · rintro ⟨old,⟨priority,e,member,present⟩,rfl⟩
      exact ⟨bump_item id old,⟨priority,_,⟨e,member,rfl⟩,List.mem_map_of_mem present⟩,bump_item_partition id old⟩
  · rfl

theorem bump_order (s : State σ) (id : String) : (bump_miss s id).rr_partition_order = s.rr_partition_order := by
  unfold bump_miss; split <;> rfl

theorem bumps_frame (cfg : Settings) {s : State σ} (valid : s.Valid) (ids : List String) :
    (ids.foldl bump_miss s).Valid ∧ (ids.foldl bump_miss s).rr_partition_order = s.rr_partition_order ∧
      ∀ p, p ∈ (ids.foldl bump_miss s).partitions cfg ↔ p ∈ s.partitions cfg := by
  induction ids generalizing s with
  | nil => exact ⟨valid,rfl,fun _ => Iff.rfl⟩
  | cons id rest ih =>
    obtain ⟨kept,order,same⟩ := ih (bump_valid valid id)
    exact ⟨kept,order.trans (bump_order s id),fun p => (same p).trans (bump_partitions s id)⟩

theorem drop_queued_valid {s : State σ} (valid : s.Valid) (ids : List String) : (drop_queued s ids).Valid :=
  ⟨fun p => drop_valid (valid.queues p) ids,valid.mirror⟩

theorem mem_drop_queued {s : State σ} {ids : List String} :
    item ∈ (drop_queued s ids).queued ↔ item ∈ s.queued ∧ item.workflow_id ∉ ids := by
  simp only [mem_queued,drop_queued,mem_drop,exists_and_right]

theorem drop_stale_valid (cfg : Settings) {s : State σ} (valid : s.Valid) : (drop_stale_partitions cfg s).Valid :=
  ⟨valid.queues,valid.mirror.dropStale _⟩

theorem refresh_view (s : State σ) : (refresh_not_empty s).view = s.view := by
  unfold refresh_not_empty; split <;> rfl

theorem advance_partition_order (s : State σ) (partition : PartitionKey) :
    (advance_partition_round_robin s partition).rr_partition_order = endTurn partition s.rr_partition_order := by
  unfold advance_partition_round_robin endTurn; split <;> rfl

theorem advance_partition_valid {s : State σ} (valid : s.Valid) (partition : PartitionKey) :
    (advance_partition_round_robin s partition).Valid := by
  unfold advance_partition_round_robin
  split
  · exact ⟨valid.queues,valid.mirror.rotate 1⟩
  · exact valid

theorem advance_partition_queued (s : State σ) (partition : PartitionKey) :
    (advance_partition_round_robin s partition).queued = s.queued := by
  unfold advance_partition_round_robin; split <;> rfl

theorem advance_user_valid {s : State σ} (valid : s.Valid) (priority : Priority) :
    (advance_user_round_robin s priority).Valid := by
  unfold advance_user_round_robin
  split
  · refine ⟨fun p => ?_,valid.mirror⟩
    by_cases same : p = priority
    · subst same
      have old := valid.queues p
      simp only [Function.update_self]
      exact ⟨old.filled,List.nodup_rotate.mpr old.nodup,fun user => by simpa using old.users user⟩
    · simpa only [Function.update_of_ne same] using valid.queues p
  · exact valid

theorem advance_user_queued (s : State σ) (priority : Priority) :
    (advance_user_round_robin s priority).queued = s.queued := by
  unfold advance_user_round_robin
  split
  · have items : ∀ p, ((Function.update s.queues priority ⟨(s.queues priority).queues,
        (s.queues priority).rr_user_order.rotate 1⟩) p).items = (s.queues p).items := by
      intro p
      by_cases same : p = priority
      · subst same; simp [UserQueues.items]
      · simp [Function.update_of_ne same]
    simp only [State.queued,items]
  · rfl

theorem advance_users_frame {s : State σ} (valid : s.Valid) (priorities : List Priority) :
    (priorities.foldl advance_user_round_robin s).Valid ∧
      (priorities.foldl advance_user_round_robin s).queued = s.queued ∧
      (priorities.foldl advance_user_round_robin s).rr_partition_order = s.rr_partition_order := by
  induction priorities generalizing s with
  | nil => exact ⟨valid,rfl,rfl⟩
  | cons head rest ih =>
    obtain ⟨kept,queued,order⟩ := ih (advance_user_valid valid head)
    refine ⟨kept,queued.trans (advance_user_queued s head),order.trans ?_⟩
    unfold advance_user_round_robin; split <;> rfl

theorem enqueue_item_valid {s : State σ} (valid : s.Valid) (priority : Priority) (item : WorkflowItem) :
    (enqueue_item cfg priority s item).Valid := by
  refine ⟨fun p => ?_,admit_mirror (s := push_item priority s item) valid.mirror _⟩
  simp only [enqueue_item,admit_queues,push_item]
  by_cases same : p = priority
  · subst same
    simpa only [Function.update_self] using push_valid (valid.queues p) _ _
  · simpa only [Function.update_of_ne same] using valid.queues p

theorem enqueue_valid {s : State σ} (valid : s.Valid) (now : Time) (ids : List String) (job : Job) :
    (enqueue cfg s now ids job).Valid := by
  have all : ∀ (items : List WorkflowItem) {s : State σ}, s.Valid →
      (items.foldl (enqueue_item cfg job.config.priority) s).Valid := by
    intro items
    induction items with
    | nil => exact fun valid => valid
    | cons item rest ih => exact fun valid => ih (enqueue_item_valid valid _ _)
  have items := all ((ids.zip job.workflows).map (fun row => job_item job now row.1 row.2)) valid
  exact ⟨items.queues,items.mirror⟩

theorem enqueue_active (s : State σ) (now : Time) (ids : List String) (job : Job) :
    (enqueue cfg s now ids job).active_reservation = s.active_reservation := by
  have all : ∀ (items : List WorkflowItem) (s : State σ),
      (items.foldl (enqueue_item cfg job.config.priority) s).active_reservation = s.active_reservation := by
    intro items
    induction items with
    | nil => exact fun _ => rfl
    | cons item rest ih =>
      intro s
      rw [List.foldl_cons,ih]
      exact admit_active _ _
  exact all ((ids.zip job.workflows).map (fun row => job_item job now row.1 row.2)) s

theorem remove_active (s : State σ) (ids : List String) :
    (remove_workflows cfg s ids).active_reservation = s.active_reservation := by
  unfold remove_workflows
  split
  · rfl
  · dsimp only [refresh_not_empty]; split <;> rfl

theorem advance_turn_valid {s : State σ} (valid : s.Valid) (turn : Option PartitionKey) :
    (advance_turn s turn).Valid := by
  cases turn with
  | none => exact valid
  | some partition => exact advance_partition_valid valid partition

theorem consume_valid (cfg : Settings) (policy : SchedulingPolicy σ) {s : State σ} (valid : s.Valid) (r : Reservation) :
    (consume_reservation cfg policy s r).Valid := by
  have charged : State.Valid { s with policy := policy.on_commit s.policy r.workflows } :=
    ⟨valid.queues,valid.mirror⟩
  have bumped := (bumps_frame cfg charged r.miss_increment_targets).1
  have dropped := drop_stale_valid cfg (drop_queued_valid bumped r.selected_workflow_ids)
  have turned := advance_turn_valid dropped r.rr_partition_to_advance
  exact view_valid (refresh_view _) (advance_users_frame turned r.user_rr_priorities_to_advance).1

-- Every operation keeps the invariant, so every interleaving does.
theorem step_valid {s : State σ} (valid : s.Valid) (op : Op) : (step cfg policy s op).Valid := by
  cases op with
  | enqueue now ids job => exact enqueue_valid valid now ids job
  | reserve batch_size capacity =>
    exact view_valid (reserve_view valid batch_size capacity) (anchored_valid cfg valid capacity)
  | commit handle =>
    simp only [step,commit_reservation]
    split
    · exact valid
    · rename_i reservation _
      split
      · exact valid
      · have consumed := consume_valid cfg policy valid reservation
        exact ⟨consumed.queues,consumed.mirror⟩
  | abort handle => exact view_valid (abort_view s handle) valid
  | remove ids =>
    simp only [step,remove_workflows]
    split
    · exact valid
    · refine view_valid (refresh_view _) (drop_stale_valid cfg ?_)
      have dropped := drop_queued_valid valid ids
      exact ⟨dropped.queues,dropped.mirror⟩
  | finalize ids => exact ⟨valid.queues,valid.mirror⟩
  | observe_unsatisfiable total_capacity now => exact ⟨valid.queues,valid.mirror⟩

theorem initial_valid (state : σ) : (State.initial state).Valid :=
  ⟨fun _ => ⟨by simp [State.initial],List.nodup_nil,by simp [State.initial]⟩,mirrored_nil⟩

-- Any interleaving of the operations from the empty queue.
def Reached (cfg : Settings) (policy : SchedulingPolicy σ) (s : State σ) : Prop :=
  ∃ start ops, Runs (fun s op t => t = step cfg policy s op) (State.initial start) ops s

theorem reached_valid {s : State σ} (reached : Reached cfg policy s) : s.Valid := by
  obtain ⟨start,ops,path⟩ := reached
  refine path.invariant (initial_valid start) ?_
  rintro before op _ valid rfl
  exact step_valid valid op

end Lumilake.PriorityQueue

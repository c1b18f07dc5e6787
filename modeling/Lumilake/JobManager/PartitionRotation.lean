import Lumilake.JobManager.AbortFrame

namespace Lumilake.PriorityQueue
open RoundRobin
variable {σ : Type} {cfg : Settings} {policy : SchedulingPolicy σ}

-- The rotation, its member set and the deques are three copies of one fact.
structure Rotates (cfg : Settings) (s : State σ) : Prop where
  valid : s.Valid
  exact : ∀ p, p ∈ s.rr_partition_order ↔ p ∈ s.partitions cfg

-- An operation that leaves the rotation to its turn order: a reserve picks its head.
def Undisturbed (cfg : Settings) (s : State σ) : Op → Prop
  | .reserve _ capacity => HeadEligible cfg s capacity
  | _ => True

theorem view_partitions {s t : State σ} (same : s.view = t.view) : s.partitions cfg = t.partitions cfg := by
  simp only [State.partitions,view_queued same]

theorem queued_partitions {s t : State σ} (same : s.queued = t.queued) : s.partitions cfg = t.partitions cfg := by
  simp only [State.partitions,same]

theorem mem_push_item {s : State σ} {priority : Priority} {fresh : WorkflowItem} :
    item ∈ (push_item priority s fresh).queued ↔ item ∈ s.queued ∨ item = fresh := by
  simp only [mem_queued,push_item]
  constructor
  · rintro ⟨p,inside⟩
    by_cases same : p = priority
    · subst same
      rw [Function.update_self] at inside
      exact (mem_push.mp inside).imp (fun old => ⟨p,old⟩) id
    · rw [Function.update_of_ne same] at inside
      exact .inl ⟨p,inside⟩
  · rintro (⟨p,inside⟩ | rfl)
    · by_cases same : p = priority
      · subst same
        exact ⟨p,by rw [Function.update_self]; exact mem_push.mpr (.inl inside)⟩
      · exact ⟨p,by rwa [Function.update_of_ne same]⟩
    · exact ⟨priority,by rw [Function.update_self]; exact mem_push.mpr (.inr rfl)⟩

theorem enqueue_item_rotates {s : State σ} (rotates : Rotates cfg s) (priority : Priority) (item : WorkflowItem) :
    Rotates cfg (enqueue_item cfg priority s item) := by
  refine ⟨enqueue_item_valid rotates.valid priority item,?_⟩
  intro p
  have queued : (enqueue_item cfg priority s item).queued = (push_item priority s item).queued := by
    simp only [State.queued,enqueue_item,admit_queues]
  rw [queued_partitions queued,mem_partitions]
  unfold enqueue_item
  rw [mem_admitted (s := push_item priority s item) rotates.valid.mirror]
  simp only [mem_push_item]
  change p ∈ s.rr_partition_order ∨ _ ↔ _
  rw [rotates.exact,mem_partitions]
  constructor
  · rintro (⟨old,member,rfl⟩ | rfl)
    · exact ⟨old,.inl member,rfl⟩
    · exact ⟨item,.inr rfl,rfl⟩
  · rintro ⟨old,member | rfl,rfl⟩
    · exact .inl ⟨old,member,rfl⟩
    · exact .inr rfl

-- What `enqueue` adds to the rotation goes behind everyone.
theorem enqueue_item_order (cfg : Settings) (priority : Priority) (s : State σ) (item : WorkflowItem) :
    ∃ more, (enqueue_item cfg priority s item).rr_partition_order = s.rr_partition_order ++ more := by
  unfold enqueue_item admit_partition
  split
  · exact ⟨[],by simp [push_item]⟩
  · exact ⟨_,rfl⟩

theorem enqueue_frame {s : State σ} (rotates : Rotates cfg s) (now : Time) (ids : List String) (job : Job) :
    Rotates cfg (enqueue cfg s now ids job) ∧
      ∃ more, (enqueue cfg s now ids job).rr_partition_order = s.rr_partition_order ++ more := by
  have all : ∀ (items : List WorkflowItem) {s : State σ}, Rotates cfg s →
      Rotates cfg (items.foldl (enqueue_item cfg job.config.priority) s) ∧
      ∃ more, (items.foldl (enqueue_item cfg job.config.priority) s).rr_partition_order =
        s.rr_partition_order ++ more := by
    intro items
    induction items with
    | nil => exact fun rotates => ⟨rotates,[],by simp⟩
    | cons item rest ih =>
      intro s rotates
      obtain ⟨kept,more,order⟩ := ih (enqueue_item_rotates rotates job.config.priority item)
      obtain ⟨first,first_order⟩ := enqueue_item_order cfg job.config.priority s item
      exact ⟨kept,first ++ more,by rw [List.foldl_cons,order,first_order,List.append_assoc]⟩
  obtain ⟨kept,order⟩ := all ((ids.zip job.workflows).map (fun row => job_item job now row.1 row.2)) rotates
  exact ⟨⟨⟨kept.valid.queues,kept.valid.mirror⟩,kept.exact⟩,order⟩

-- Dropping items and then the stale partitions leaves exactly the partitions still queued.
theorem drop_stale_exact {s : State σ} (valid : s.Valid)
    (covered : ∀ p ∈ s.partitions cfg, p ∈ s.rr_partition_order) : Rotates cfg (drop_stale_partitions cfg s) := by
  refine ⟨drop_stale_valid cfg valid,?_⟩
  intro p
  have queued : (drop_stale_partitions cfg s).queued = s.queued := rfl
  rw [queued_partitions queued]
  simp only [drop_stale_partitions,List.mem_filter,decide_eq_true_eq,Finset.mem_sdiff,List.mem_toFinset,
    valid.mirror.mem,not_and,not_not]
  have remaining : p ∈ s.queued.map (partition_of cfg) ↔ p ∈ s.partitions cfg := by simp [State.partitions]
  rw [remaining]
  exact ⟨fun kept => kept.2 kept.1,fun present => ⟨covered p present,fun _ => present⟩⟩

theorem drop_stale_order (cfg : Settings) (s : State σ) : ∃ keep : PartitionKey → Bool,
    (drop_stale_partitions cfg s).rr_partition_order = s.rr_partition_order.filter keep ∧
      ∀ p ∈ s.partitions cfg, keep p = true := by
  refine ⟨_,rfl,?_⟩
  intro p present
  have remaining : p ∈ s.queued.map (partition_of cfg) := by simpa [State.partitions] using present
  simp only [decide_eq_true_eq,Finset.mem_sdiff,List.mem_toFinset,not_and,not_not]
  exact fun _ => remaining

theorem drop_queued_partitions {s : State σ} {ids : List String} (present : p ∈ (drop_queued s ids).partitions cfg) :
    p ∈ s.partitions cfg := by
  obtain ⟨item,member,rfl⟩ := mem_partitions.mp present
  exact mem_partitions.mpr ⟨item,(mem_drop_queued.mp member).1,rfl⟩

-- The turn a commit of the open reservation would end.
def close_turn : Option PartitionKey → List PartitionKey → List PartitionKey
  | some turn => endTurn turn
  | none => id

-- Ending a turn moves the rotation and no item.
theorem advance_turn_frame {s : State σ} (rotates : Rotates cfg s) (turn : Option PartitionKey) :
    Rotates cfg (advance_turn s turn) ∧ (advance_turn s turn).queued = s.queued ∧
      (advance_turn s turn).rr_partition_order = close_turn turn s.rr_partition_order := by
  cases turn with
  | none => exact ⟨rotates,rfl,rfl⟩
  | some partition =>
    have queued := advance_partition_queued s partition
    have order := advance_partition_order s partition
    refine ⟨⟨advance_partition_valid rotates.valid _,?_⟩,queued,order⟩
    intro p
    change p ∈ (advance_partition_round_robin s partition).rr_partition_order ↔
      p ∈ (advance_partition_round_robin s partition).partitions cfg
    rw [queued_partitions queued,← rotates.exact p,order,mem_endTurn]

theorem advance_users_rotates {s : State σ} (rotates : Rotates cfg s) (priorities : List Priority) :
    Rotates cfg (priorities.foldl advance_user_round_robin s) := by
  obtain ⟨valid,queued,order⟩ := advance_users_frame rotates.valid priorities
  refine ⟨valid,?_⟩
  intro p
  rw [queued_partitions queued,order]
  exact rotates.exact p

theorem view_rotates {s t : State σ} (same : s.view = t.view) (rotates : Rotates cfg t) : Rotates cfg s := by
  refine ⟨view_valid same rotates.valid,?_⟩
  intro p
  rw [view_partitions same,← rotates.exact p]
  exact Iff.of_eq (congrArg (p ∈ View.rr_partition_order ·) same)

theorem drop_batch_frame {s : State σ} (rotates : Rotates cfg s) (ids : List String) :
    Rotates cfg (drop_stale_partitions cfg (drop_queued s ids)) ∧ ∃ keep : PartitionKey → Bool,
      (∀ q ∈ (drop_stale_partitions cfg (drop_queued s ids)).partitions cfg, keep q = true) ∧
      (drop_stale_partitions cfg (drop_queued s ids)).rr_partition_order = s.rr_partition_order.filter keep := by
  obtain ⟨keep,order,kept⟩ := drop_stale_order cfg (drop_queued s ids)
  refine ⟨drop_stale_exact (drop_queued_valid rotates.valid ids) ?_,keep,kept,order⟩
  exact fun p present => (rotates.exact p).mpr (drop_queued_partitions present)

-- A commit drops what it drained from the rotation and then ends the announced turn.
theorem consume_frame (policy : SchedulingPolicy σ) {s : State σ} (rotates : Rotates cfg s) (r : Reservation) :
    Rotates cfg (consume_reservation cfg policy s r) ∧ ∃ keep : PartitionKey → Bool,
      (∀ q ∈ (consume_reservation cfg policy s r).partitions cfg, keep q = true) ∧
      (consume_reservation cfg policy s r).rr_partition_order =
        close_turn r.rr_partition_to_advance (s.rr_partition_order.filter keep) := by
  have charged : State.Valid { s with policy := policy.on_commit s.policy r.workflows } :=
    ⟨rotates.valid.queues,rotates.valid.mirror⟩
  obtain ⟨bumped,bumped_order,bumped_partitions⟩ := bumps_frame cfg charged r.miss_increment_targets
  have bumped_rotates : Rotates cfg _ := Rotates.mk bumped (fun p => by
    rw [bumped_order,bumped_partitions]; exact rotates.exact p)
  obtain ⟨dropped,keep,kept,order⟩ := drop_batch_frame bumped_rotates r.selected_workflow_ids
  obtain ⟨turned,queued,turn_order⟩ := advance_turn_frame dropped r.rr_partition_to_advance
  have users := advance_users_rotates turned r.user_rr_priorities_to_advance
  obtain ⟨_,users_queued,users_order⟩ := advance_users_frame turned.valid r.user_rr_priorities_to_advance
  refine ⟨view_rotates (refresh_view _) users,keep,?_,?_⟩
  · intro q present
    unfold consume_reservation at present
    rw [view_partitions (refresh_view _),queued_partitions users_queued,queued_partitions queued] at present
    exact kept q present
  · have refreshed := congrArg View.rr_partition_order (refresh_view
      (r.user_rr_priorities_to_advance.foldl advance_user_round_robin (advance_turn (drop_stale_partitions cfg
        (drop_queued (r.miss_increment_targets.foldl bump_miss
          { s with policy := policy.on_commit s.policy r.workflows }) r.selected_workflow_ids))
        r.rr_partition_to_advance)))
    refine refreshed.trans ?_
    change (r.user_rr_priorities_to_advance.foldl advance_user_round_robin _).rr_partition_order = _
    rw [users_order,turn_order,order,bumped_order]

theorem commit_open (s : State σ) (active : s.active_reservation = some r) :
    (commit_reservation cfg policy s r.ident).1 =
      { consume_reservation cfg policy s r with active_reservation := none } := by
  simp [commit_reservation,active]

theorem remove_frame {s : State σ} (rotates : Rotates cfg s) (ids : List String) :
    Rotates cfg (remove_workflows cfg s ids) ∧ ∃ keep : PartitionKey → Bool,
      (∀ q ∈ (remove_workflows cfg s ids).partitions cfg, keep q = true) ∧
      (remove_workflows cfg s ids).rr_partition_order = s.rr_partition_order.filter keep := by
  unfold remove_workflows
  split
  · exact ⟨rotates,fun _ => true,by simp,by simp⟩
  · obtain ⟨dropped,keep,kept,order⟩ := drop_batch_frame rotates ids
    -- the item table is no part of the rotation
    have stripped : Rotates cfg (drop_stale_partitions cfg { drop_queued s ids with
        items := (drop_queued s ids).items.filter (fun id _ => decide (id ∉ ids)) }) :=
      ⟨⟨dropped.valid.queues,dropped.valid.mirror⟩,dropped.exact⟩
    have view := refresh_view (drop_stale_partitions cfg { drop_queued s ids with
        items := (drop_queued s ids).items.filter (fun id _ => decide (id ∉ ids)) })
    refine ⟨view_rotates view stripped,keep,?_,(congrArg View.rr_partition_order view).trans order⟩
    intro q present
    rw [view_partitions view] at present
    exact kept q present

theorem reserve_rotates (policy : SchedulingPolicy σ) {s : State σ} (rotates : Rotates cfg s) {capacity : Option FreeCapacity}
    (ready : HeadEligible cfg s capacity) (batch_size : Int) :
    (reserve_batch cfg policy s batch_size capacity).1.view = s.view :=
  (reserve_view rotates.valid batch_size capacity).trans ((anchored_keeps_view rotates.valid capacity).mpr ready)

theorem step_rotates {s : State σ} (rotates : Rotates cfg s) (op : Op) (ready : Undisturbed cfg s op) :
    Rotates cfg (step cfg policy s op) := by
  cases op with
  | enqueue now ids job => exact (enqueue_frame rotates now ids job).1
  | reserve batch_size capacity => exact view_rotates (reserve_rotates policy rotates ready batch_size) rotates
  | commit handle =>
    cases active : s.active_reservation with
    | none => simpa [step,commit_reservation,active] using rotates
    | some r =>
      by_cases mine : r.ident = handle
      · subst mine
        have consumed := (consume_frame policy rotates r).1
        simp only [step,commit_open s active]
        exact ⟨⟨consumed.valid.queues,consumed.valid.mirror⟩,consumed.exact⟩
      · simpa [step,commit_reservation,active,mine] using rotates
  | abort handle => exact view_rotates (abort_view s handle) rotates
  | remove ids => exact (remove_frame rotates ids).1
  | finalize ids => exact ⟨⟨rotates.valid.queues,rotates.valid.mirror⟩,rotates.exact⟩
  | observe_unsatisfiable total_capacity now =>
    exact ⟨⟨rotates.valid.queues,rotates.valid.mirror⟩,rotates.exact⟩

-- The partition a reserve settles on, when it gets as far as choosing one.
def chosen_anchor (cfg : Settings) (s : State σ) (capacity : Option FreeCapacity) : Option PartitionKey :=
  match s.active_reservation with
  | some _ => none
  | none =>
    match (scan cfg s capacity).present with
    | [] => none
    | first :: _ => some (select_anchor cfg s (scan cfg s capacity) first).2.1

def commits (cfg : Settings) (policy : SchedulingPolicy σ) (s : State σ) : Op → Nat
  | .commit handle => if (commit_reservation cfg policy s handle).2 = .ok () then 1 else 0
  | _ => 0

-- A reserve that passes `p` over although `p` could run and nobody is over the miss limit.
def PassesOver (cfg : Settings) (p : PartitionKey) (s : State σ) : Op → Prop
  | .reserve _ capacity => p ∈ eligible_partitions cfg s capacity ∧ starved_in cfg s.queued = [] ∧
      chosen_anchor cfg s capacity ≠ some p
  | _ => True

-- A stretch of a run, begun with no open reservation, through which `p` keeps a
-- queued item and is never the anchor, with the number of commits in it.
inductive Waiting (cfg : Settings) (policy : SchedulingPolicy σ) (p : PartitionKey) :
    State σ → Nat → State σ → Prop where
  | start : s.active_reservation = none → p ∈ s.partitions cfg → Waiting cfg policy p s 0 s
  | step : Waiting cfg policy p s n m → Undisturbed cfg m op → PassesOver cfg p m op →
      p ∈ (PriorityQueue.step cfg policy m op).partitions cfg →
      Waiting cfg policy p s (n + commits cfg policy m op) (PriorityQueue.step cfg policy m op)

-- The announced turn of an open reservation is counted as if it had ended.
def Served (p : PartitionKey) (s : State σ) (bound : Nat) : Prop :=
  match s.active_reservation with
  | none => Waits p s.rr_partition_order none bound
  | some r => ∃ turn, r.rr_partition_to_advance = some turn ∧ Waits p s.rr_partition_order (some turn) bound

theorem starved_scan {s : State σ} (calm : starved_in cfg s.queued = []) (capacity : Option FreeCapacity) :
    (scan cfg s capacity).starved = [] := by
  cases capacity <;> simp [scan,calm]

theorem fill_batch_open (s : State σ) (batch_size : Int) (capacity : Option FreeCapacity) (anchor : PartitionKey)
    (turn : Option PartitionKey) (free : s.active_reservation = none)
    (opened : (fill_batch cfg policy s batch_size capacity anchor turn).1.active_reservation = some r) :
    r.rr_partition_to_advance = turn := by
  unfold fill_batch at opened
  dsimp only at opened
  have closed : (build_candidate_pool_for_partition cfg anchor s).1.active_reservation = none := free
  split at opened
  · exact absurd (closed.symm.trans opened) (by simp)
  · split at opened
    · exact absurd (closed.symm.trans opened) (by simp)
    · unfold open_reservation at opened
      split at opened
      · exact absurd (closed.symm.trans opened) (by simp)
      · exact absurd (closed.symm.trans opened) (by simp)
      · cases Option.some.inj opened; rfl

theorem reserve_open (s : State σ) (batch_size : Int) (capacity : Option FreeCapacity)
    (free : s.active_reservation = none)
    (opened : (reserve_batch cfg policy s batch_size capacity).1.active_reservation = some r) :
    ∃ first rest, (scan cfg s capacity).present = first :: rest ∧
      r.rr_partition_to_advance = (select_anchor cfg s (scan cfg s capacity) first).2.2 := by
  unfold reserve_batch at opened
  simp only [free] at opened
  cases found : (scan cfg s capacity).present with
  | nil =>
    simp only [found] at opened
    exact absurd opened (by simp)
  | cons first rest =>
    simp only [found] at opened
    have still := (select_anchor_frame cfg (scan cfg s capacity) first s).2.2
    exact ⟨first,rest,rfl,fill_batch_open _ _ _ _ _ (still.trans free) opened⟩

theorem served_reserve {s : State σ} (rotates : Rotates cfg s) (served : Served p s bound) (batch_size : Int)
    {capacity : Option FreeCapacity} (ready : HeadEligible cfg s capacity)
    (passes : PassesOver cfg p s (.reserve batch_size capacity)) :
    Served p (reserve_batch cfg policy s batch_size capacity).1 bound := by
  obtain ⟨inside,calm,other⟩ := passes
  have order := congrArg View.rr_partition_order (reserve_rotates policy rotates ready batch_size)
  change (reserve_batch cfg policy s batch_size capacity).1.rr_partition_order = s.rr_partition_order at order
  cases active : s.active_reservation with
  | some r => simpa [reserve_batch,active] using served
  | none =>
    simp only [Served,active] at served
    unfold Served
    rw [order]
    split
    · exact served
    · rename_i r opened
      obtain ⟨first,rest,found,turn⟩ := reserve_open s batch_size capacity active opened
      have some_present : eligible_partitions cfg s capacity ≠ [] := List.ne_nil_of_mem inside
      obtain ⟨head,at_head,head_inside⟩ := ready active some_present (starved_scan calm capacity)
      have anchor := select_anchor_ready cfg (starved_scan calm capacity) at_head head_inside first
      rw [anchor] at turn
      refine ⟨head,turn,served.announce at_head ?_⟩
      rintro rfl
      exact other (by simp [chosen_anchor,active,found,anchor])

theorem served_commit {s : State σ} (rotates : Rotates cfg s) (served : Served p s bound) (handle : Nat)
    (stays : p ∈ (commit_reservation cfg policy s handle).1.partitions cfg) :
    Served p (commit_reservation cfg policy s handle).1 (bound - commits cfg policy s (.commit handle)) ∧
      commits cfg policy s (.commit handle) ≤ bound := by
  cases active : s.active_reservation with
  | none => simpa [commit_reservation,active,commits] using served
  | some r =>
    by_cases mine : r.ident = handle
    · subst mine
      obtain ⟨consumed,keep,kept,order⟩ := consume_frame policy rotates r
      simp only [Served,active] at served
      obtain ⟨turn,announced,waits⟩ := served
      rw [commit_open s active] at stays ⊢
      change p ∈ (consume_reservation cfg policy s r).partitions cfg at stays
      have one : commits cfg policy s (.commit r.ident) = 1 := by simp [commits,commit_reservation,active]
      have filtered := waits.filter (kept p stays)
      have present : p ∈ s.rr_partition_order.filter keep := by
        have ended := (consumed.exact p).mpr stays
        rw [order,announced] at ended
        exact mem_endTurn.mp ended
      rw [one]
      refine ⟨?_,?_⟩
      · change Waits p (consume_reservation cfg policy s r).rr_partition_order none (bound - 1)
        rw [order,announced]
        exact filtered.endTurn present
      · obtain ⟨_,rest,_,short⟩ := waits
        omega
    · simpa [commit_reservation,active,mine,commits] using served

theorem served_step (policy : SchedulingPolicy σ) {s : State σ} (rotates : Rotates cfg s) (served : Served p s bound) (op : Op)
    (ready : Undisturbed cfg s op) (passes : PassesOver cfg p s op)
    (present : p ∈ s.partitions cfg) (stays : p ∈ (step cfg policy s op).partitions cfg) :
    Served p (step cfg policy s op) (bound - commits cfg policy s op) ∧ commits cfg policy s op ≤ bound := by
  have in_order := (rotates.exact p).mpr present
  cases op with
  | enqueue now ids job =>
    obtain ⟨more,order⟩ := (enqueue_frame rotates now ids job).2
    refine ⟨?_,Nat.zero_le _⟩
    simp only [Served,step,commits,Nat.sub_zero,enqueue_active,order] at served ⊢
    split
    · rename_i free
      simp only [free] at served
      exact served.append in_order more
    · rename_i r open_one
      simp only [open_one] at served
      obtain ⟨turn,announced,waits⟩ := served
      exact ⟨turn,announced,waits.append in_order more⟩
  | reserve batch_size capacity => exact ⟨served_reserve rotates served batch_size ready passes,Nat.zero_le _⟩
  | commit handle => exact served_commit rotates served handle stays
  | abort handle =>
    refine ⟨?_,Nat.zero_le _⟩
    simp only [step,commits,Nat.sub_zero,abort_reservation]
    cases active : s.active_reservation with
    | none => exact served
    | some r =>
      simp only [Served,active] at served
      dsimp only
      split
      · simpa only [Served,active] using served
      · obtain ⟨turn,_,waits⟩ := served
        exact waits.abandon
  | remove ids =>
    obtain ⟨_,keep,kept,order⟩ := remove_frame rotates ids
    refine ⟨?_,Nat.zero_le _⟩
    simp only [Served,step,commits,Nat.sub_zero,remove_active,order] at served stays ⊢
    split
    · rename_i free
      simp only [free] at served
      exact served.filter (kept p stays)
    · rename_i r open_one
      simp only [open_one] at served
      obtain ⟨turn,announced,waits⟩ := served
      exact ⟨turn,announced,waits.filter (kept p stays)⟩
  | finalize ids => exact ⟨served,Nat.zero_le _⟩
  | observe_unsatisfiable total_capacity now => exact ⟨served,Nat.zero_le _⟩

theorem waiting_served {s t : State σ} (rotates : Rotates cfg s) (waiting : Waiting cfg policy p s n t) :
    Rotates cfg t ∧ p ∈ t.partitions cfg ∧ ∃ bound, Served p t bound ∧ n + bound = (ahead p s.rr_partition_order).length := by
  induction waiting with
  | start free present => exact ⟨rotates,present,_,by simp only [Served,free,Waits]; exact Nat.le_refl _,by omega⟩
  | step _ ready passes stays ih =>
    obtain ⟨kept,present,bound,served,total⟩ := ih
    obtain ⟨next,fits⟩ := served_step policy kept served _ ready passes present stays
    exact ⟨step_rotates kept _ ready,stays,_,next,by omega⟩

theorem waiting_queued {s t : State σ} (waiting : Waiting cfg policy p s n t) : p ∈ s.partitions cfg := by
  induction waiting with
  | start _ present => exact present
  | step _ _ _ _ ih => exact ih

theorem rotation_length {s : State σ} (rotates : Rotates cfg s) :
    s.rr_partition_order.length = (s.partitions cfg).length := by
  have same : s.rr_partition_order.Perm (s.partitions cfg) :=
    (List.perm_ext_iff_of_nodup rotates.valid.mirror.nodup (List.nodup_dedup _)).mpr rotates.exact
  exact same.length_eq

theorem initial_rotates (state : σ) : Rotates cfg (State.initial state) :=
  ⟨initial_valid state,by simp [State.initial,State.partitions,State.queued,UserQueues.items]⟩

-- While every reserve finds its head eligible: each queued partition is in the
-- rotation once, the member set mirrors it, and a partition that could always run
-- sees fewer commits than there are partitions before it is the anchor.
theorem partitions_rotate {start : σ} {s : State σ}
    (path : Runs (fun s op t => Undisturbed cfg s op ∧ t = step cfg policy s op) (State.initial start) ops s) :
    (∀ item ∈ s.queued, s.rr_partition_order.count (partition_of cfg item) = 1) ∧
    s.rr_partition_members = s.rr_partition_order.toFinset ∧
    ∀ p n t, Waiting cfg policy p s n t → n < (s.partitions cfg).length := by
  have rotates : Rotates cfg s := by
    refine path.invariant (initial_rotates start) ?_
    rintro before op _ kept ⟨ready,rfl⟩
    exact step_rotates kept op ready
  refine ⟨?_,rotates.valid.mirror.exact,?_⟩
  · intro item member
    refine List.count_eq_one_of_mem rotates.valid.mirror.nodup ?_
    exact (rotates.exact _).mpr (mem_partitions.mpr ⟨item,member,rfl⟩)
  · intro p n t waiting
    obtain ⟨_,_,bound,_,total⟩ := waiting_served rotates waiting
    have shorter := ahead_length_lt ((rotates.exact p).mpr (waiting_queued waiting))
    rw [rotation_length rotates] at shorter
    omega

def cpuPartition : PartitionKey := ⟨"principal",none,none,"halo",hardware_signature none,some false⟩

-- The GPU batch is reserved and committed while the CPU partition waits one turn.
theorem partitions_rotate_one_turn :
    (∀ item ∈ gpuThenCpu.queued, gpuThenCpu.rr_partition_order.count (partition_of pairedSettings item) = 1) ∧
    1 < (gpuThenCpu.partitions pairedSettings).length := by
  have path : Runs (fun s op t => Undisturbed pairedSettings s op ∧ t = step pairedSettings inOrder s op)
      (State.initial ()) [.enqueue 0 ["gpu"] (oneGraphJob "r1" true),.enqueue 1 ["cpu"] (oneGraphJob "r2" false)]
      gpuThenCpu := .snoc (.snoc .nil ⟨trivial,rfl⟩) ⟨trivial,rfl⟩
  have queued : Waiting pairedSettings inOrder cpuPartition gpuThenCpu 0 gpuThenCpu :=
    .start (by decide) (by decide)
  have ready : Undisturbed pairedSettings gpuThenCpu (.reserve 1 none) := by
    intro _ _ _
    exact ⟨⟨"principal",none,none,"halo",hardware_signature none,some true⟩,by decide,by decide⟩
  have passes : PassesOver pairedSettings cpuPartition gpuThenCpu (.reserve 1 none) :=
    ⟨by decide,by decide,by decide⟩
  have reserved := queued.step ready passes (by decide)
  have ended : Undisturbed pairedSettings (step pairedSettings inOrder gpuThenCpu (.reserve 1 none)) (.commit 0) :=
    trivial
  have committed := reserved.step ended trivial (by decide)
  obtain ⟨rotation,_,bounded⟩ := partitions_rotate path
  exact ⟨rotation,bounded cpuPartition 1 _ committed⟩

-- A reserve on a dip to one CPU worker leaves the queued GPU item without a turn.
theorem partitions_rotate_stranded :
    ¬ ∀ (cfg : Settings) (policy : SchedulingPolicy Unit) (s : State Unit), Reached cfg policy s →
      ∀ item ∈ s.queued, s.rr_partition_order.count (partition_of cfg item) = 1 := by
  intro exact_once
  have dipped : Reached pairedSettings inOrder (step pairedSettings inOrder gpuThenCpu (.reserve 1 (some cpuOnly))) := by
    obtain ⟨state,ops,path⟩ := gpuThenCpu_reached
    exact ⟨state,_,path.snoc rfl⟩
  have once := exact_once _ _ _ dipped
  revert once
  decide

end Lumilake.PriorityQueue

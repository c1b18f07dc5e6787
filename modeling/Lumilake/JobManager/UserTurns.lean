import Lumilake.JobManager.PartitionRotation
import Lumilake.JobManager.QueueLedger

namespace Lumilake.PriorityQueue
open RoundRobin
variable {σ : Type} {cfg : Settings} {policy : SchedulingPolicy σ}

-- Whether a user of a priority has an item that the batch leaves in the queue.
def keeps_items (s : State σ) (ids : List String) (p : Priority) (user : String) : Bool :=
  (((s.queues p).queues.get? user).getD []).any fun item => decide (item.workflow_id ∉ ids)

-- The rotation one past its head, without the users whose queues the batch empties.
def advanced_order (s : State σ) (r : Reservation) (p : Priority) : List String :=
  ((s.queues p).rr_user_order.rotate 1).filter (keeps_items s r.selected_workflow_ids p)

def staying_users (s : State σ) (r : Reservation) (p : Priority) : List String :=
  (s.queues p).rr_user_order.filter (keeps_items s r.selected_workflow_ids p)

def HeadStays (s : State σ) (r : Reservation) (p : Priority) : Prop :=
  ∃ head, (s.queues p).rr_user_order.head? = some head ∧ keeps_items s r.selected_workflow_ids p head = true

theorem drop_order {q : UserQueues} (valid : q.Valid) (ids : List String) :
    (q.drop ids).rr_user_order = q.rr_user_order.filter fun user =>
      ((q.queues.get? user).getD []).any fun item => decide (item.workflow_id ∉ ids) := by
  unfold UserQueues.drop
  split
  · rename_i empty
    have none_known : q.queues.keys = [] := by
      unfold Dict.keys
      rw [List.isEmpty_iff.mp empty]
      rfl
    have nobody : q.rr_user_order = [] := by
      refine List.eq_nil_iff_forall_not_mem.mpr fun user member => ?_
      have known := (valid.users user).mp member
      rw [none_known] at known
      cases known
    rw [nobody]
    rfl
  · simp only [prune_empty_user_queues]
    refine List.filter_congr fun user member => ?_
    obtain ⟨queue,found⟩ := Dict.mem_keys_iff.mp ((valid.users user).mp member)
    have filtered := Dict.get?_mapValues found (f := fun _ queue => queue.filter fun item => decide (item.workflow_id ∉ ids))
    rw [found,Option.getD_some,Bool.eq_iff_iff,decide_eq_true_eq,Dict.mem_keys_iff]
    simp only [Dict.get?_filter,filtered,Option.some.injEq]
    constructor
    · rintro ⟨_,⟨rfl,filled⟩,_⟩
      simpa [List.any_eq_true] using filled
    · intro stays
      have filled : (!(queue.filter fun item => decide (item.workflow_id ∉ ids)).isEmpty) = true := by
        simpa [List.any_eq_true] using stays
      exact ⟨_,⟨rfl,filled⟩,filled⟩

theorem bump_user_order (s : State σ) (id : String) (p : Priority) :
    ((bump_miss s id).queues p).rr_user_order = (s.queues p).rr_user_order := by
  unfold bump_miss
  split <;> rfl

theorem bump_item_id (id : String) (item : WorkflowItem) : (bump_item id item).workflow_id = item.workflow_id := by
  unfold bump_item
  split <;> rfl

theorem bump_keeps (s : State σ) (id : String) (ids : List String) (p : Priority) (user : String) :
    keeps_items (bump_miss s id) ids p user = keeps_items s ids p user := by
  unfold bump_miss
  split
  · unfold keeps_items
    dsimp only
    cases found : (s.queues p).queues.get? user with
    | none =>
        have absent : ((s.queues p).queues.mapValues fun _ => List.map (bump_item id)).get? user = none := by
          rw [Dict.get?_eq_none,Dict.keys_mapValues]
          exact Dict.get?_eq_none.mp found
        rw [absent]
    | some queue =>
        rw [Dict.get?_mapValues found]
        simp only [Option.getD_some,List.any_map,Function.comp_def,bump_item_id]
  · rfl

-- Misses move no user and empty no queue.
theorem bumps_users (s : State σ) (targets ids : List String) (p : Priority) :
    ((targets.foldl bump_miss s).queues p).rr_user_order = (s.queues p).rr_user_order ∧
      keeps_items (targets.foldl bump_miss s) ids p = keeps_items s ids p := by
  induction targets generalizing s with
  | nil => exact ⟨rfl,rfl⟩
  | cons id rest ih =>
      obtain ⟨order,keeps⟩ := ih (bump_miss s id)
      exact ⟨order.trans (bump_user_order s id p),keeps.trans (funext (bump_keeps s id ids p))⟩

theorem advance_turn_users (s : State σ) (turn : Option PartitionKey) (p : Priority) :
    (advance_turn s turn).queues p = s.queues p := by
  unfold advance_turn advance_partition_round_robin
  split
  · split <;> rfl
  · rfl

theorem rotate_short {order : List String} (short : order.length ≤ 1) : order.rotate 1 = order := by
  cases order with
  | nil => rfl
  | cons only rest =>
      have alone : rest = [] := List.length_eq_zero_iff.mp (by simpa using short)
      rw [alone,List.rotate_singleton]

theorem advance_user_order (s : State σ) (priority p : Priority) :
    ((advance_user_round_robin s priority).queues p).rr_user_order =
      if p = priority then (s.queues p).rr_user_order.rotate 1 else (s.queues p).rr_user_order := by
  unfold advance_user_round_robin
  split
  · by_cases own : p = priority
    · subst own
      simp
    · simp [own]
  · rename_i short
    split
    · rename_i own
      subst own
      exact (rotate_short (by omega)).symm
    · rfl

-- A list of different priorities turns each of theirs once.
theorem advance_users_order {priorities : List Priority} (distinct : priorities.Nodup) (s : State σ) (p : Priority) :
    ((priorities.foldl advance_user_round_robin s).queues p).rr_user_order =
      if p ∈ priorities then (s.queues p).rr_user_order.rotate 1 else (s.queues p).rr_user_order := by
  induction priorities generalizing s with
  | nil => rfl
  | cons head rest ih =>
      obtain ⟨fresh,apart⟩ := List.nodup_cons.mp distinct
      rw [List.foldl_cons,ih apart,advance_user_order]
      by_cases own : p = head
      · subst own
        simp [fresh]
      · simp [own]

-- The rotations after a commit: emptied users leave first, then the turns end.
theorem consume_order {s : State σ} (valid : s.Valid) {r : Reservation}
    (distinct : r.user_rr_priorities_to_advance.Nodup) (p : Priority) :
    ((consume_reservation cfg policy s r).queues p).rr_user_order =
      if p ∈ r.user_rr_priorities_to_advance then (staying_users s r p).rotate 1 else staying_users s r p := by
  have charged : State.Valid { s with policy := policy.on_commit s.policy r.workflows } := ⟨valid.queues,valid.mirror⟩
  have bumped_valid := (bumps_frame cfg charged r.miss_increment_targets).1
  obtain ⟨order,keeps⟩ := bumps_users { s with policy := policy.on_commit s.policy r.workflows } r.miss_increment_targets
    r.selected_workflow_ids p
  unfold consume_reservation
  dsimp only
  have refreshed : ∀ t : State σ, (refresh_not_empty t).queues p = t.queues p := by
    intro t
    unfold refresh_not_empty
    split <;> rfl
  have dropped := drop_order (bumped_valid.queues p) r.selected_workflow_ids
  rw [refreshed,advance_users_order distinct,advance_turn_users]
  have staying : ((drop_stale_partitions cfg (drop_queued (r.miss_increment_targets.foldl bump_miss
      { s with policy := policy.on_commit s.policy r.workflows }) r.selected_workflow_ids)).queues p).rr_user_order =
      staying_users s r p := by
    refine dropped.trans ?_
    rw [order]
    exact congrArg (fun keep => (s.queues p).rr_user_order.filter keep) keeps
  rw [staying]

-- A reservation names every priority it takes a turn of once.
theorem reserved_turns {s : State σ} {batch_size : Int} {capacity : Option FreeCapacity}
    (reserved : (reserve_batch cfg policy s batch_size capacity).2 = .ok (some r)) :
    r.user_rr_priorities_to_advance.Nodup := by
  have fills : ∀ (s : State σ) (size : Int) (anchor : PartitionKey) (turn : Option PartitionKey),
      (fill_batch cfg policy s size capacity anchor turn).2 = .ok (some r) → r.user_rr_priorities_to_advance.Nodup := by
    intro s size anchor turn filled
    unfold fill_batch open_reservation build_candidate_pool_for_partition at filled
    dsimp only at filled
    split at filled
    · cases filled
    · split at filled
      · cases filled
      · split at filled
        · cases filled
        · cases filled
        · cases filled
          exact List.Nodup.filter _ (by decide)
  unfold reserve_batch at reserved
  dsimp only at reserved
  split at reserved
  · cases reserved
  · split at reserved
    · cases reserved
    · exact fills _ _ _ _ reserved

-- The open reservation, if any, names every priority once.
structure TurnsOnce (s : State σ) : Prop where
  valid : s.Valid
  once : ∀ r, s.active_reservation = some r → r.user_rr_priorities_to_advance.Nodup

theorem reached_turns {s : State σ} (reached : Reached cfg policy s) (active : s.active_reservation = some r) :
    r.user_rr_priorities_to_advance.Nodup := by
  obtain ⟨start,ops,path⟩ := reached
  have all : TurnsOnce s := by
    refine path.invariant (⟨initial_valid start,fun r none_open => by cases none_open⟩ : TurnsOnce (State.initial start)) ?_
    rintro before op _ ⟨valid,once⟩ rfl
    refine ⟨step_valid valid op,fun r active => ?_⟩
    rcases step_active valid active with ⟨pool,opened⟩ | ⟨still,_⟩
    · unfold opens at opened
      split at opened
      · split at opened
        · rename_i returned _
          cases opened
          exact reserved_turns returned
        · cases opened
      · cases opened
    · exact once r still
  exact all.once r active

theorem rotate_one_iff {order : List String} (distinct : order.Nodup) : order.rotate 1 = order ↔ order.length ≤ 1 := by
  refine ⟨fun same => ?_,rotate_short⟩
  rcases distinct.rotate_eq_self_iff.mp same with whole | nobody
  · by_contra longer
    rw [Nat.mod_eq_of_lt (by omega)] at whole
    cases whole
  · rw [nobody]
    exact Nat.zero_le _

-- Whether the head stays decides which of the two orders of steps is right; with
-- one user left there is nothing to turn.
theorem turn_order_iff {order : List String} (distinct : order.Nodup) (keep : String → Bool) (turned : Prop) [Decidable turned] :
    (if turned then (order.filter keep).rotate 1 else order.filter keep) = (order.rotate 1).filter keep ↔
      (order.filter keep).length ≤ 1 ∨ (turned ↔ ∃ head, order.head? = some head ∧ keep head = true) := by
  cases order with
  | nil => simp
  | cons head rest =>
      have first : (∃ h, (head :: rest).head? = some h ∧ keep h = true) ↔ keep head = true := by simp
      have apart := rotate_one_iff (distinct.filter keep)
      have past : (head :: rest).rotate 1 = rest ++ [head] := by simp
      rw [first,past,List.filter_append]
      cases stays : keep head with
      | true =>
          have kept : (head :: rest).filter keep = head :: rest.filter keep := List.filter_cons_of_pos stays
          have last : [head].filter keep = [head] := List.filter_cons_of_pos stays
          have turn : (head :: rest.filter keep).rotate 1 = rest.filter keep ++ [head] := by simp
          rw [kept,turn] at apart
          rw [kept,last,turn]
          by_cases turns : turned
          · simp [turns]
          · simp only [turns,if_false,iff_true,or_false]
            exact eq_comm.trans apart
      | false =>
          have kept : (head :: rest).filter keep = rest.filter keep := List.filter_cons_of_neg (by simp [stays])
          have last : [head].filter keep = [] := List.filter_cons_of_neg (by simp [stays])
          rw [kept] at apart
          rw [kept,last,List.append_nil]
          by_cases turns : turned
          · simpa [turns] using apart
          · simp [turns]

theorem committed_order {s : State σ} (reached : Reached cfg policy s) (active : s.active_reservation = some r) (p : Priority) :
    ((commit_reservation cfg policy s r.ident).1.queues p).rr_user_order =
      if p ∈ r.user_rr_priorities_to_advance then (staying_users s r p).rotate 1 else staying_users s r p := by
  rw [commit_open s active]
  exact consume_order (reached_valid reached) (reached_turns reached active) p

-- The rotation after a commit is the advanced one exactly when at most one user of
-- the priority has items left, or the turn is taken just when the head stays.
theorem user_rotation_iff {s : State σ} (reached : Reached cfg policy s) (active : s.active_reservation = some r) (p : Priority) :
    (((commit_reservation cfg policy s r.ident).1.queues p).rr_user_order = advanced_order s r p ↔
      (staying_users s r p).length ≤ 1 ∨ (p ∈ r.user_rr_priorities_to_advance ↔ HeadStays s r p)) ∧
    (p ∉ r.user_rr_priorities_to_advance →
      ((commit_reservation cfg policy s r.ident).1.queues p).rr_user_order = staying_users s r p) := by
  rw [committed_order reached active]
  refine ⟨turn_order_iff ((reached_valid reached).queues p).nodup _ _,fun other => if_neg other⟩

def jobOf (user : String) : Job := { oneGraphJob user false with config := { user_id := user, principal_id := "principal" } }

-- Queue a job for each user under its own id, then reserve a batch of one.
def reservedFor (jobs : List (String × String)) : List Op :=
  jobs.map (fun job => .enqueue 0 [job.1] (jobOf job.2)) ++ [.reserve 1 none]

def afterReserve (jobs : List (String × String)) : State Unit :=
  (reservedFor jobs).foldl (step pairedSettings inOrder) (State.initial ())

theorem afterReserve_reached (jobs : List (String × String)) : Reached pairedSettings inOrder (afterReserve jobs) :=
  ⟨(),_,Runs.of_foldl _ _ _⟩

def busyHead : State Unit := afterReserve [("a1","a"),("a2","a"),("b1","b"),("c1","c")]
def oneJobEach : State Unit := afterReserve [("a1","a"),("b1","b"),("c1","c")]

-- The head has a second job: the next user's turn comes, the head goes last.
theorem user_rotation_iff_busy_head : ∃ r, busyHead.active_reservation = some r ∧
    ((commit_reservation pairedSettings inOrder busyHead r.ident).1.queues .medium).rr_user_order =
      advanced_order busyHead r .medium := by
  have opened : (busyHead.active_reservation.any fun r => decide (Priority.medium ∈ r.user_rr_priorities_to_advance) &&
      ((busyHead.queues .medium).rr_user_order.head?.any (keeps_items busyHead r.selected_workflow_ids .medium))) = true := by
    decide +kernel
  obtain ⟨r,active,checked⟩ := (Option.any_eq_true _ _).mp opened
  rw [Bool.and_eq_true,decide_eq_true_eq] at checked
  have turned : Priority.medium ∈ r.user_rr_priorities_to_advance ↔ HeadStays busyHead r .medium :=
    iff_of_true checked.1 ((Option.any_eq_true _ _).mp checked.2)
  exact ⟨r,active,(user_rotation_iff (afterReserve_reached _) active .medium).1.mpr (.inr turned)⟩

-- With one job each the drained head is out before the turn ends, and the turn of
-- the user behind it is skipped.
theorem drained_head_skips : ¬ ∀ (cfg : Settings) (policy : SchedulingPolicy Unit) (s : State Unit) (r : Reservation) (p : Priority),
    Reached cfg policy s → s.active_reservation = some r → p ∈ r.user_rr_priorities_to_advance →
      ((commit_reservation cfg policy s r.ident).1.queues p).rr_user_order = advanced_order s r p := by
  intro rotates
  have opened : (oneJobEach.active_reservation.any fun r => decide (Priority.medium ∈ r.user_rr_priorities_to_advance) &&
      !decide (((commit_reservation pairedSettings inOrder oneJobEach r.ident).1.queues .medium).rr_user_order =
        advanced_order oneJobEach r .medium)) = true := by
    decide +kernel
  obtain ⟨r,active,checked⟩ := (Option.any_eq_true _ _).mp opened
  rw [Bool.and_eq_true,decide_eq_true_eq,Bool.not_eq_true',decide_eq_false_iff_not] at checked
  exact checked.2 (rotates _ _ _ r _ (afterReserve_reached _) active checked.1)

end Lumilake.PriorityQueue

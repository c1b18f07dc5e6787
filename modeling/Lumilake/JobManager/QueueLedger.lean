import Lumilake.JobManager.BatchContents
import Lumilake.JobManager.PolicyRegistry

namespace Lumilake.PriorityQueue
open Selection
variable {σ : Type} {cfg : Settings} {policy : SchedulingPolicy σ}

def State.ids (s : State σ) : List String := s.queued.map WorkflowItem.workflow_id

theorem push_items (q : UserQueues) (owner : String) (item : WorkflowItem) :
    (q.push owner item).items.Perm (q.items ++ [item]) := by
  have one := Dict.values_append_perm q.queues owner item
  unfold UserQueues.push UserQueues.items
  split
  · rename_i queue found
    rwa [found] at one
  · rename_i found
    rwa [found] at one

theorem drop_items (q : UserQueues) (ids : List String) :
    (q.drop ids).items = q.items.filter (fun w => decide (w.workflow_id ∉ ids)) := by
  have emptied : ∀ entries : List (String × List WorkflowItem),
      ((entries.filter (fun e => !e.2.isEmpty)).map Prod.snd).flatten = (entries.map Prod.snd).flatten := by
    intro entries
    rw [← List.flatten_filter_not_isEmpty (L := entries.map Prod.snd),List.filter_map]
    rfl
  unfold UserQueues.drop
  split
  · rename_i empty
    simp [UserQueues.items,Dict.values,List.isEmpty_iff.mp empty]
  · simp only [UserQueues.items,Dict.values,prune_empty_user_queues,Dict.entries_filter,Dict.entries_mapValues]
    rw [emptied,emptied,List.filter_flatten,List.map_map,List.map_map]
    rfl

theorem enqueue_item_queued (cfg : Settings) (priority : Priority) (s : State σ) (item : WorkflowItem) :
    (enqueue_item cfg priority s item).queued.Perm (s.queued ++ [item]) := by
  have split : ∀ p, (if p = priority then (s.queues p).push item.config.user_id item else s.queues p).items.Perm
      ((s.queues p).items ++ if p = priority then [item] else []) := by
    intro p
    by_cases same : p = priority
    · rw [if_pos same,if_pos same]; exact push_items _ _ _
    · rw [if_neg same,if_neg same,List.append_nil]
  have queues : ∀ p, ((enqueue_item cfg priority s item).queues p) =
      if p = priority then (s.queues p).push item.config.user_id item else s.queues p := by
    intro p
    simp only [enqueue_item,admit_queues,push_item]
    by_cases same : p = priority
    · subst same; simp
    · simp [same]
  have place : Priority.all.flatMap (fun p => if p = priority then [item] else []) = [item] := by
    cases priority <;> rfl
  unfold State.queued
  simp only [queues]
  refine (List.Perm.flatMap_left _ (fun p _ => split p)).trans ?_
  exact (List.flatMap_append_perm _ _ _).symm.trans (by rw [place])

def enqueued_items (now : Time) (ids : List String) (job : Job) : List WorkflowItem :=
  (ids.zip job.workflows).map (fun row => job_item job now row.1 row.2)

theorem enqueue_queued (cfg : Settings) (s : State σ) (now : Time) (ids : List String) (job : Job) :
    (enqueue cfg s now ids job).queued.Perm (s.queued ++ enqueued_items now ids job) := by
  have loop : ∀ (items : List WorkflowItem) (s : State σ),
      (items.foldl (enqueue_item cfg job.config.priority) s).queued.Perm (s.queued ++ items) := by
    intro items
    induction items with
    | nil => intro s; simp
    | cons item rest ih =>
        intro s
        refine (ih _).trans ?_
        simpa using (enqueue_item_queued cfg job.config.priority s item).append_right rest
  exact loop (enqueued_items now ids job) s

theorem drop_queued_queued (s : State σ) (ids : List String) :
    (drop_queued s ids).queued = s.queued.filter (fun w => decide (w.workflow_id ∉ ids)) := by
  simp only [State.queued,drop_queued,drop_items,List.filter_flatMap]

-- A queued item as the misses of one commit leave it.
def bumped (missed : List String) (item : WorkflowItem) : WorkflowItem :=
  if item.workflow_id ∈ missed then { item with miss_count := item.miss_count + 1 } else item

@[simp] theorem bumped_id (missed : List String) (item : WorkflowItem) :
    (bumped missed item).workflow_id = item.workflow_id := by unfold bumped; split <;> rfl

theorem bumped_nothing (items : List WorkflowItem) : items.map (bumped []) = items := by
  have same : bumped [] = id := by
    funext item
    simp [bumped]
  rw [same,List.map_id]

theorem bump_queued (s : State σ) (id : String) :
    (bump_miss s id).queued = s.queued.map (bumped (if id ∈ s.items then [id] else [])) := by
  unfold bump_miss
  split
  · have queues : ∀ entries : List (String × List WorkflowItem),
        ((entries.map (fun e => (e.1,e.2.map (bump_item id)))).map Prod.snd).flatten =
          ((entries.map Prod.snd).flatten).map (bump_item id) := by
      intro entries
      rw [List.map_flatten,List.map_map,List.map_map]
      rfl
    have same : bumped [id] = bump_item id := by
      funext item
      simp [bumped,bump_item]
    simp only [State.queued,UserQueues.items,Dict.values,Dict.entries_mapValues,queues,same,List.map_flatMap]
  · rw [bumped_nothing]

theorem bump_items_keys (s : State σ) (id : String) : (bump_miss s id).items.keys = s.items.keys := by
  unfold bump_miss
  split
  · exact Dict.keys_mapValues _ _
  · rfl

-- Different targets are bumped once each, and only while the table knows them.
theorem bumps_queued {targets : List String} (distinct : targets.Nodup) (s : State σ) :
    (targets.foldl bump_miss s).queued = s.queued.map (bumped (targets.filter (· ∈ s.items))) := by
  induction targets generalizing s with
  | nil => rw [List.filter_nil,bumped_nothing]; rfl
  | cons id rest ih =>
      obtain ⟨fresh,apart⟩ := List.nodup_cons.mp distinct
      have table : rest.filter (· ∈ (bump_miss s id).items) = rest.filter (· ∈ s.items) := by
        simp only [Dict.mem_def,bump_items_keys]
      rw [List.foldl_cons,ih apart,bump_queued,table,List.map_map]
      apply List.map_congr_left
      intro item _
      by_cases known : id ∈ s.items
      · by_cases mine : item.workflow_id = id
        · subst mine
          simp [bumped,known,fresh]
        · simp [bumped,known,mine]
      · simp [bumped,known]

-- The open reservation that an operation commits, if any.
def closes (s : State σ) : Op → Option Reservation
  | .commit handle => s.active_reservation.filter (fun r => decide (r.ident = handle))
  | _ => none

theorem closes_active {s : State σ} {op : Op} (closed : closes s op = some r) : s.active_reservation = some r := by
  cases op with
  | commit handle => exact (Option.filter_eq_some_iff.mp closed).1
  | _ => cases closed

theorem drop_stale_queued (cfg : Settings) (s : State σ) : (drop_stale_partitions cfg s).queued = s.queued := rfl

theorem advance_turn_queued (s : State σ) (turn : Option PartitionKey) : (advance_turn s turn).queued = s.queued := by
  cases turn with
  | none => rfl
  | some partition => exact advance_partition_queued s partition

-- A commit bumps the candidates it passed over and takes its batch out of the queue.
theorem consume_queued (cfg : Settings) (policy : SchedulingPolicy σ) {s : State σ} (valid : s.Valid) {r : Reservation}
    (distinct : r.miss_increment_targets.Nodup) :
    (consume_reservation cfg policy s r).queued =
      (s.queued.map (bumped (r.miss_increment_targets.filter (· ∈ s.items)))).filter
        (fun w => decide (w.workflow_id ∉ r.selected_workflow_ids)) := by
  have charged : State.Valid { s with policy := policy.on_commit s.policy r.workflows } := ⟨valid.queues,valid.mirror⟩
  have bumped_valid := (bumps_frame cfg charged r.miss_increment_targets).1
  have turned := advance_turn_valid (drop_stale_valid cfg (drop_queued_valid bumped_valid r.selected_workflow_ids))
    r.rr_partition_to_advance
  unfold consume_reservation
  dsimp only
  rw [view_queued (refresh_view _),(advance_users_frame turned r.user_rr_priorities_to_advance).2.1,advance_turn_queued,
    drop_stale_queued,drop_queued_queued,bumps_queued distinct]
  rfl

theorem remove_queued (cfg : Settings) (s : State σ) (ids : List String) :
    (remove_workflows cfg s ids).queued = s.queued.filter (fun w => decide (w.workflow_id ∉ ids)) := by
  unfold remove_workflows
  split
  · rename_i nothing
    rw [List.isEmpty_iff.mp nothing]
    simp
  · rw [view_queued (refresh_view _),drop_stale_queued]
    exact drop_queued_queued s ids

theorem reserve_queued {s : State σ} (valid : s.Valid) (batch_size : Int) (capacity : Option FreeCapacity) :
    (reserve_batch cfg policy s batch_size capacity).1.queued = s.queued := by
  rw [view_queued (reserve_view valid batch_size capacity)]
  unfold anchored
  split
  · rfl
  · split
    · rfl
    · simp only [State.queued,(select_anchor_frame cfg _ _ s).1]

-- Only a reserve that returns a reservation opens one.
theorem reserve_active (cfg : Settings) (policy : SchedulingPolicy σ) {s : State σ} (batch_size : Int)
    (capacity : Option FreeCapacity) : (reserve_batch cfg policy s batch_size capacity).1.active_reservation =
      match (reserve_batch cfg policy s batch_size capacity).2 with
      | .ok (some r) => some r
      | _ => s.active_reservation := by
  have fills : ∀ (s : State σ) (size : Int) (anchor : PartitionKey) (turn : Option PartitionKey),
      (fill_batch cfg policy s size capacity anchor turn).1.active_reservation =
        match (fill_batch cfg policy s size capacity anchor turn).2 with
        | .ok (some r) => some r
        | _ => s.active_reservation := by
    intro s size anchor turn
    unfold fill_batch
    dsimp only
    split
    · rfl
    · split
      · rfl
      · unfold open_reservation
        split <;> rfl
  unfold reserve_batch
  dsimp only
  cases active : s.active_reservation with
  | some r => exact active
  | none =>
      cases present : (scan cfg s capacity).present with
      | nil => rfl
      | cons first rest =>
          dsimp only
          rw [fills,(select_anchor_frame cfg _ first s).2.2,active]

-- A queue beside what its run has drawn, dispatched and dropped. `pool` are the
-- candidates of the last reservation.
structure Ledger (σ : Type) where
  queue : State σ
  enqueued : List String := []
  committed : List (Nat × String) := []
  removed : List String := []
  pool : List String := []

def drawn : Op → List String
  | .enqueue now ids job => (enqueued_items now ids job).map WorkflowItem.workflow_id
  | _ => []

def dispatched (s : State σ) (op : Op) : List (Nat × String) :=
  match closes s op with
  | some r => r.workflows.map (fun w => (r.ident,w.workflow_id))
  | none => []

def dropped (s : State σ) : Op → List String
  | .remove ids => s.ids.filter (fun id => decide (id ∈ ids))
  | _ => []

-- What an operation opens, with the candidates it was chosen from.
def opens (cfg : Settings) (policy : SchedulingPolicy σ) (s : State σ) : Op → Option (Reservation × List String)
  | .reserve batch_size capacity =>
    match (reserve_batch cfg policy s batch_size capacity).2,anchor_of cfg s capacity with
    | .ok (some r),some anchor => some (r,(candidate_pool cfg anchor s).map WorkflowItem.workflow_id)
    | _,_ => none
  | _ => none

def Ledger.advance (cfg : Settings) (policy : SchedulingPolicy σ) (t : Ledger σ) (op : Op) : Ledger σ where
  queue := step cfg policy t.queue op
  enqueued := t.enqueued ++ drawn op
  committed := t.committed ++ dispatched t.queue op
  removed := t.removed ++ dropped t.queue op
  pool := match opens cfg policy t.queue op with
    | some (_,pool) => pool
    | none => t.pool

-- Workflow ids are unique.
def Fresh (t : Ledger σ) (op : Op) : Prop := (drawn op).Nodup ∧ ∀ id ∈ drawn op, id ∉ t.enqueued

-- No workflow of a reservation is removed between its reserve and its commit.
def Untouched (t : Ledger σ) (op : Op) : Prop :=
  ∀ r, closes t.queue op = some r → ∀ w ∈ r.workflows, w.workflow_id ∉ t.removed

structure Open (t : Ledger σ) (r : Reservation) : Prop where
  ids : r.workflows.map WorkflowItem.workflow_id = r.selected_workflow_ids
  apart : r.selected_workflow_ids.Nodup
  known : ∀ id ∈ r.selected_workflow_ids, id ∈ t.queue.ids ∨ id ∈ t.removed
  missed : r.miss_increment_targets = t.pool.filter (· ∉ r.selected_workflow_ids)
  candidates : t.pool.Nodup

structure Ledger.Sound (t : Ledger σ) : Prop where
  valid : t.queue.Valid
  distinct : t.enqueued.Nodup
  queued : t.queue.ids.Subperm t.enqueued
  opened : ∀ r, t.queue.active_reservation = some r → Open t r

theorem Open.missed_apart {t : Ledger σ} (opened : Open t r) : r.miss_increment_targets.Nodup :=
  opened.missed ▸ opened.candidates.filter _

theorem Ledger.Sound.apart {t : Ledger σ} (sound : t.Sound) : t.queue.ids.Nodup :=
  nodup_of_subperm sound.queued sound.distinct

theorem commit_step (cfg : Settings) (policy : SchedulingPolicy σ) (s : State σ) (handle : Nat) :
    (closes s (.commit handle) = none ∧ step cfg policy s (.commit handle) = s) ∨
      ∃ r, closes s (.commit handle) = some r ∧ s.active_reservation = some r ∧
        step cfg policy s (.commit handle) = { consume_reservation cfg policy s r with active_reservation := none } := by
  unfold step commit_reservation closes
  dsimp only
  cases active : s.active_reservation with
  | none => exact .inl ⟨rfl,rfl⟩
  | some r =>
      by_cases same : r.ident = handle
      · refine .inr ⟨r,?_,rfl,?_⟩
        · simp [same]
        · simp [same]
      · refine .inl ⟨?_,?_⟩
        · simp [same]
        · simp [same]

-- The ids that an operation takes out of the queue.
def leaving (s : State σ) (op : Op) : List String :=
  dropped s op ++ ((closes s op).map Reservation.selected_workflow_ids).getD []

theorem stay_all (ids : List String) : ids.filter (fun id => decide (id ∉ ([] : List String))) = ids := by simp

-- Where the ids of a queue go when one operation runs.
theorem step_ids (cfg : Settings) (policy : SchedulingPolicy σ) {t : Ledger σ} (sound : t.Sound) (op : Op) :
    (step cfg policy t.queue op).ids.Perm
      (t.queue.ids.filter (fun id => decide (id ∉ leaving t.queue op)) ++ drawn op) := by
  have still : ∀ {s : State σ}, s.queued = t.queue.queued → leaving t.queue op = [] → drawn op = [] →
      s.ids.Perm (t.queue.ids.filter (fun id => decide (id ∉ leaving t.queue op)) ++ drawn op) := by
    intro s same stays nothing
    rw [stays,nothing,stay_all,List.append_nil,State.ids,same,State.ids]
  cases op with
  | enqueue now ids job =>
      have items := (enqueue_queued cfg t.queue now ids job).map WorkflowItem.workflow_id
      rw [List.map_append] at items
      have nobody : leaving t.queue (.enqueue now ids job) = [] := rfl
      rw [nobody,stay_all]
      exact items
  | reserve batch_size capacity => exact still (reserve_queued sound.valid batch_size capacity) rfl rfl
  | commit handle =>
      rcases commit_step cfg policy t.queue handle with ⟨open_still,same⟩ | ⟨r,closed,active,same⟩
      · exact still (congrArg State.queued same) (by simp [leaving,dropped,open_still]) rfl
      · have taken := consume_queued cfg policy sound.valid (sound.opened r active).missed_apart
        have left : leaving t.queue (.commit handle) = r.selected_workflow_ids := by simp [leaving,dropped,closed]
        have queue : (step cfg policy t.queue (.commit handle)).queued = (consume_reservation cfg policy t.queue r).queued := by
          rw [same]; rfl
        rw [State.ids,queue,taken,left,List.filter_map,List.map_map]
        have plain : WorkflowItem.workflow_id ∘ bumped (r.miss_increment_targets.filter (· ∈ t.queue.items)) =
            WorkflowItem.workflow_id := funext (bumped_id _)
        rw [plain,State.ids,List.filter_map]
        simp [Function.comp_def,drawn]
  | abort handle => exact still (view_queued (abort_view t.queue handle)) rfl rfl
  | remove ids =>
      have same : t.queue.ids.filter (fun id => decide (id ∉ leaving t.queue (.remove ids))) =
          t.queue.ids.filter (fun id => decide (id ∉ ids)) := by
        apply List.filter_congr
        intro id member
        simp [leaving,dropped,closes,member]
      have taken : (step cfg policy t.queue (.remove ids)).queued = _ := remove_queued cfg t.queue ids
      rw [same,State.ids,taken,State.ids,List.filter_map]
      simp [Function.comp_def,drawn]
  | finalize ids => exact still rfl rfl rfl
  | observe_unsatisfiable total now => exact still rfl rfl rfl

-- A reservation that is open after an operation was opened by it or open before.
theorem step_active {s : State σ} (valid : s.Valid) {op : Op}
    (active : (step cfg policy s op).active_reservation = some r) :
    (∃ pool, opens cfg policy s op = some (r,pool)) ∨
      (s.active_reservation = some r ∧ closes s op = none ∧ opens cfg policy s op = none) := by
  cases op with
  | enqueue now ids job => exact .inr ⟨(enqueue_active s now ids job).symm.trans active,rfl,rfl⟩
  | reserve batch_size capacity =>
      have opened := reserve_active cfg policy (s := s) batch_size capacity
      rw [show (reserve_batch cfg policy s batch_size capacity).1.active_reservation = some r from active] at opened
      unfold opens
      dsimp only
      cases outcome : reserve_batch cfg policy s batch_size capacity with
      | mk after result =>
          rw [outcome] at opened
          dsimp only at opened ⊢
          split at opened
          · cases opened
            obtain ⟨anchor,reserved⟩ := reserve_spec valid outcome
            rw [reserved.anchored]
            exact .inl ⟨_,rfl⟩
          · rename_i other
            refine .inr ⟨opened.symm,rfl,?_⟩
            split
            · exact absurd rfl (other _)
            · rfl
  | commit handle =>
      rcases commit_step cfg policy s handle with ⟨open_still,same⟩ | ⟨r',closed,_,same⟩
      · exact .inr ⟨by rw [← active,same],open_still,rfl⟩
      · rw [same] at active
        cases active
  | abort handle =>
      refine .inr ⟨?_,rfl,rfl⟩
      unfold step abort_reservation at active
      dsimp only at active
      split at active
      · exact active
      · split at active
        · exact active
        · cases active
  | remove ids => exact .inr ⟨(remove_active s ids).symm.trans active,rfl,rfl⟩
  | finalize ids => exact .inr ⟨active,rfl,rfl⟩
  | observe_unsatisfiable total now => exact .inr ⟨active,rfl,rfl⟩

theorem opens_spec {s : State σ} (valid : s.Valid) {op : Op} (opened : opens cfg policy s op = some (r,pool)) :
    ∃ batch_size capacity anchor after, Reserved cfg policy s batch_size capacity after r anchor ∧
      pool = (candidate_pool cfg anchor s).map WorkflowItem.workflow_id := by
  cases op with
  | reserve batch_size capacity =>
      unfold opens at opened
      dsimp only at opened
      split at opened
      · rename_i r' anchor returned anchored
        cases opened
        obtain ⟨anchor',reserved⟩ := reserve_spec valid
          (show reserve_batch cfg policy s batch_size capacity = (_,.ok (some r)) from Prod.ext rfl returned)
        cases anchored.symm.trans reserved.anchored
        exact ⟨batch_size,capacity,anchor,_,reserved,rfl⟩
      · cases opened
  | _ => cases opened

theorem pool_subperm (cfg : Settings) {s : State σ} (valid : s.Valid) (anchor : PartitionKey) :
    ((candidate_pool cfg anchor s).map WorkflowItem.workflow_id).Subperm s.ids :=
  map_subperm _ ((candidate_pool_queued valid anchor).trans List.filter_sublist.subperm)

-- Whatever is open is a choice of its candidates, and none of it is lost sight of.
theorem opened_step {t : Ledger σ} (sound : t.Sound) (ranks : policy.Ranks) {op : Op}
    (active : (t.advance cfg policy op).queue.active_reservation = some r) : Open (t.advance cfg policy op) r := by
  have kept := step_ids cfg policy sound op
  rcases step_active sound.valid active with ⟨pool,opened⟩ | ⟨before,still_open,not_opened⟩
  · obtain ⟨batch_size,capacity,anchor,after,reserved,rfl⟩ := opens_spec sound.valid opened
    have apart := nodup_of_subperm (pool_subperm cfg sound.valid anchor) sound.apart
    obtain ⟨state,state',chosen⟩ := reserved.chosen
    obtain ⟨ids,inside⟩ := item_map_all reserved.workflows
    have stays : leaving t.queue op = [] := by
      cases op with
      | reserve batch_size capacity => rfl
      | _ => cases opened
    rw [stays,stay_all] at kept
    have now : (t.advance cfg policy op).pool = (candidate_pool cfg anchor t.queue).map WorkflowItem.workflow_id := by
      simp only [Ledger.advance,opened]
    refine ⟨ids,(select_ids_ranked ranks (le_max_left _ _) apart chosen).1,?_,now ▸ reserved.missed,now ▸ apart⟩
    intro id member
    rw [← ids] at member
    obtain ⟨w,batch,rfl⟩ := List.mem_map.mp member
    refine .inl (kept.mem_iff.mpr (List.mem_append_left _ ?_))
    exact (pool_subperm cfg sound.valid anchor).subset (List.mem_map_of_mem (inside w batch))
  · have opened := sound.opened r before
    have now : (t.advance cfg policy op).pool = t.pool := by simp only [Ledger.advance,not_opened]
    refine ⟨opened.ids,opened.apart,?_,now ▸ opened.missed,now ▸ opened.candidates⟩
    intro id member
    rcases opened.known id member with queued | gone
    · by_cases leaves : id ∈ dropped t.queue op
      · exact .inr (List.mem_append_right _ leaves)
      · refine .inl (kept.mem_iff.mpr (List.mem_append_left _ (List.mem_filter.mpr ⟨queued,?_⟩)))
        simpa [leaving,still_open] using leaves
    · exact .inr (List.mem_append_left _ gone)

theorem sound_step {t : Ledger σ} (sound : t.Sound) (ranks : policy.Ranks) {op : Op} (fresh : Fresh t op) :
    (t.advance cfg policy op).Sound := by
  refine ⟨step_valid sound.valid op,?_,?_,fun r active => opened_step sound ranks active⟩
  · exact List.nodup_append.mpr ⟨sound.distinct,fresh.1,fun id old other new same => fresh.2 other new (same ▸ old)⟩
  · refine (step_ids cfg policy sound op).subperm.trans ?_
    exact (List.subperm_append_right _).mpr (List.filter_sublist.subperm.trans sound.queued)

theorem initial_sound (start : σ) : (Ledger.Sound ⟨State.initial start,[],[],[],[]⟩) := by
  refine ⟨initial_valid start,List.nodup_nil,?_,by simp [State.initial]⟩
  exact List.nil_subperm

theorem dispatched_ids {t : Ledger σ} (sound : t.Sound) (op : Op) :
    (dispatched t.queue op).map Prod.snd = ((closes t.queue op).map Reservation.selected_workflow_ids).getD [] := by
  unfold dispatched
  cases closed : closes t.queue op with
  | none => rfl
  | some r =>
      rw [Option.map_some,Option.getD_some,← (sound.opened r (closes_active closed)).ids,List.map_map]
      rfl

-- While its batch is untouched, what leaves the queue was in it once.
theorem leaving_split {t : Ledger σ} (sound : t.Sound) {op : Op} (untouched : Untouched t op) :
    t.queue.ids.Perm (t.queue.ids.filter (fun id => decide (id ∉ leaving t.queue op)) ++ leaving t.queue op) := by
  have apart : (leaving t.queue op).Nodup ∧ leaving t.queue op ⊆ t.queue.ids := by
    cases closed : closes t.queue op with
    | none =>
        cases op with
        | remove ids =>
            simp only [leaving,dropped,closed,Option.map_none,Option.getD_none,List.append_nil]
            exact ⟨sound.apart.filter _,fun id member => (List.mem_filter.mp member).1⟩
        | _ => simp [leaving,dropped,closed]
    | some r =>
        have opened := sound.opened r (closes_active closed)
        have left : leaving t.queue op = r.selected_workflow_ids := by
          cases op with
          | commit handle => simp [leaving,dropped,closed]
          | _ => cases closed
        rw [left]
        refine ⟨opened.apart,?_⟩
        intro id member
        rcases opened.known id member with queued | gone
        · exact queued
        · rw [← opened.ids] at member
          obtain ⟨w,batch,rfl⟩ := List.mem_map.mp member
          exact absurd gone (untouched r closed w batch)
  refine (List.perm_ext_iff_of_nodup sound.apart ?_).mpr ?_
  · refine List.nodup_append.mpr ⟨sound.apart.filter _,apart.1,?_⟩
    intro id stays other leaves same
    have kept := (List.mem_filter.mp stays).2
    rw [decide_eq_true_eq] at kept
    exact kept (same ▸ leaves)
  · intro id
    rw [List.mem_append,List.mem_filter,decide_eq_true_eq]
    constructor
    · intro queued
      by_cases leaves : id ∈ leaving t.queue op
      · exact .inr leaves
      · exact .inl ⟨queued,leaves⟩
    · rintro (⟨queued,_⟩ | leaves)
      · exact queued
      · exact apart.2 leaves

-- Every workflow that was drawn is queued, committed or removed, and only once.
def Ledger.Balanced (t : Ledger σ) : Prop :=
  ∀ id, t.queue.ids.count id + (t.committed.map Prod.snd).count id + t.removed.count id = t.enqueued.count id

theorem balanced_step {t : Ledger σ} (sound : t.Sound) (balanced : t.Balanced) {op : Op} (untouched : Untouched t op) :
    (t.advance cfg policy op).Balanced := by
  intro id
  have before := balanced id
  have moved := (step_ids cfg policy sound op).count_eq id
  have parts := (leaving_split sound untouched).count_eq id
  have batch := congrArg (List.count id) (dispatched_ids sound op)
  simp only [leaving,List.count_append] at moved parts
  simp only [Ledger.advance,List.map_append,List.count_append]
  omega

def LedgerStep (cfg : Settings) (policy : SchedulingPolicy σ) (t : Ledger σ) (op : Op) (after : Ledger σ) : Prop :=
  Fresh t op ∧ after = t.advance cfg policy op

-- A run of the queue over unique workflow ids.
def LedgerRun (cfg : Settings) (policy : SchedulingPolicy σ) (start : σ) (ops : List Op) (t : Ledger σ) : Prop :=
  Runs (LedgerStep cfg policy) ⟨State.initial start,[],[],[],[]⟩ ops t

theorem run_sound {start : σ} {ops : List Op} {t : Ledger σ} (ranks : policy.Ranks)
    (path : LedgerRun cfg policy start ops t) : t.Sound := by
  refine Runs.invariant (initial_sound start) ?_ path
  rintro before op _ sound ⟨fresh,rfl⟩
  exact sound_step sound ranks fresh

-- Where the items of a queue come from: a queued item is new, was there, or was
-- there with one miss less.
theorem step_items {t : Ledger σ} (sound : t.Sound) {op : Op}
    (queued : after ∈ (step cfg policy t.queue op).queued) :
    (∃ now ids job, op = .enqueue now ids job ∧ after ∈ enqueued_items now ids job) ∨
      ∃ item ∈ t.queue.queued, after = item ∨ (after = { item with miss_count := item.miss_count + 1 } ∧
        ∃ r, closes t.queue op = some r ∧ item.workflow_id ∈ t.pool ∧
          item.workflow_id ∉ r.workflows.map WorkflowItem.workflow_id) := by
  have still : ∀ {s : State σ}, s.queued ⊆ t.queue.queued → after ∈ s.queued → ∃ item ∈ t.queue.queued, after = item ∨
      (after = { item with miss_count := item.miss_count + 1 } ∧ ∃ r, closes t.queue op = some r ∧
        item.workflow_id ∈ t.pool ∧ item.workflow_id ∉ r.workflows.map WorkflowItem.workflow_id) :=
    fun inside member => ⟨after,inside member,.inl rfl⟩
  cases op with
  | enqueue now ids job =>
      rcases List.mem_append.mp ((enqueue_queued cfg t.queue now ids job).mem_iff.mp queued) with old | new
      · exact .inr (still (List.Subset.refl _) old)
      · exact .inl ⟨now,ids,job,rfl,new⟩
  | reserve batch_size capacity =>
      exact .inr (still (by unfold step; rw [reserve_queued sound.valid]; exact List.Subset.refl _) queued)
  | commit handle =>
      rcases commit_step cfg policy t.queue handle with ⟨_,same⟩ | ⟨r,closed,active,same⟩
      · exact .inr (still (by rw [same]; exact List.Subset.refl _) queued)
      · have opened := sound.opened r active
        have queue : (step cfg policy t.queue (.commit handle)).queued = (consume_reservation cfg policy t.queue r).queued := by
          rw [same]; rfl
        rw [queue,consume_queued cfg policy sound.valid opened.missed_apart] at queued
        obtain ⟨item,member,rfl⟩ := List.mem_map.mp (List.mem_filter.mp queued).1
        refine .inr ⟨item,member,?_⟩
        unfold bumped
        split
        · rename_i missed
          have target := (List.mem_filter.mp missed).1
          rw [opened.missed] at target
          obtain ⟨candidate,passed⟩ := List.mem_filter.mp target
          exact .inr ⟨rfl,r,closed,candidate,by rw [opened.ids]; simpa using passed⟩
        · exact .inl rfl
  | abort handle =>
      exact .inr (still (by unfold step; rw [view_queued (abort_view t.queue handle)]; exact List.Subset.refl _) queued)
  | remove ids =>
      refine .inr (still ?_ queued)
      unfold step
      rw [remove_queued]
      exact fun item member => (List.mem_filter.mp member).1
  | finalize ids => exact .inr (still (List.Subset.refl _) queued)
  | observe_unsatisfiable total now => exact .inr (still (List.Subset.refl _) queued)

-- How an operation changes the misses: none but the candidates that a commit passes over.
theorem step_misses {t : Ledger σ} (sound : t.Sound) {op : Op}
    (queued : after ∈ (step cfg policy t.queue op).queued) :
    (after.workflow_id ∈ drawn op ∧ after.miss_count = 0) ∨
      ∃ item ∈ t.queue.queued, after = item ∨ (after = { item with miss_count := item.miss_count + 1 } ∧
        ∃ r, closes t.queue op = some r ∧ item.workflow_id ∈ t.pool ∧
          item.workflow_id ∉ r.workflows.map WorkflowItem.workflow_id) := by
  rcases step_items sound queued with ⟨now,ids,job,rfl,new⟩ | old
  · refine .inl ⟨List.mem_map_of_mem new,?_⟩
    obtain ⟨row,_,rfl⟩ := List.mem_map.mp new
    rfl
  · exact .inr old

end Lumilake.PriorityQueue

import Lumilake.JobManager.QueueLedger

namespace Lumilake.PriorityQueue
open Selection Policies
variable {cfg : Settings} {args : PolicyArgs} {name : PolicyName} {start : name.State} {ops : List Op}
  {t : Ledger name.State}

def effective_optimizer (cfg : Settings) (item : WorkflowItem) : String := (partition_of cfg item).optimizer_type

theorem candidate_partition {s : State σ} (valid : s.Valid) {capacity : Option FreeCapacity}
    (anchored : anchor_of cfg s capacity = some anchor) (candidate : item ∈ candidate_pool cfg anchor s) :
    item ∈ s.queued ∧ partition_of cfg item = anchor := by
  obtain ⟨queued,matched⟩ := List.mem_filter.mp ((candidate_pool_queued valid anchor).subset candidate)
  obtain ⟨other,_,rfl⟩ := mem_partitions.mp (eligible_queued (anchor_eligible valid anchored))
  exact ⟨queued,matches_partition_iff.mp matched⟩

-- One key, one class of caller, credential, optimizer and hardware.
theorem partition_shared {v w : WorkflowItem} (same : partition_of cfg v = partition_of cfg w) :
    v.config.principal_id = w.config.principal_id ∧ v.dispatch_token = w.dispatch_token ∧
      v.api_credential_digest = w.api_credential_digest ∧ effective_optimizer cfg v = effective_optimizer cfg w ∧
      hardware_signature v.config.hardware_requirements = hardware_signature w.config.hardware_requirements ∧
      (cfg.capacity_aware_selection = true → v.requires_gpu = w.requires_gpu) := by
  refine ⟨congrArg PartitionKey.principal_id same,congrArg PartitionKey.dispatch_token same,
    congrArg PartitionKey.api_credential_digest same,congrArg PartitionKey.optimizer_type same,
    congrArg PartitionKey.hardware same,?_⟩
  intro lever
  have gpu := congrArg PartitionKey.requires_gpu same
  simpa [partition_of,lever] using gpu

-- Whatever the queue went through and whichever policy fills the batch, a batch is
-- some queued items of one partition, each once, and no more than fit.
theorem reservation_homogeneous (path : LedgerRun cfg (create_scheduling_policy args name) start ops t)
    {batch_size : Int} {capacity : Option FreeCapacity}
    (reserved : reserve_batch cfg (create_scheduling_policy args name) t.queue batch_size capacity = (after,.ok (some r))) :
    r.workflows ≠ [] ∧ (r.workflows.map WorkflowItem.workflow_id).Nodup ∧ (∀ w ∈ r.workflows, w ∈ t.queue.queued) ∧
    (r.workflows.length : Int) ≤ max 1 batch_size ∧
    ∀ v ∈ r.workflows, ∀ w ∈ r.workflows, v.config.principal_id = w.config.principal_id ∧
      v.dispatch_token = w.dispatch_token ∧ v.api_credential_digest = w.api_credential_digest ∧
      effective_optimizer cfg v = effective_optimizer cfg w ∧
      hardware_signature v.config.hardware_requirements = hardware_signature w.config.hardware_requirements ∧
      (cfg.capacity_aware_selection = true → v.requires_gpu = w.requires_gpu) := by
  have ranks := registered_ranks args name
  have sound := run_sound ranks path
  obtain ⟨anchor,spec⟩ := reserve_spec sound.valid reserved
  obtain ⟨ids,inside⟩ := item_map_all spec.workflows
  obtain ⟨state,state',chosen⟩ := spec.chosen
  have apart := nodup_of_subperm (pool_subperm cfg sound.valid anchor) sound.apart
  obtain ⟨distinct,fits⟩ := select_ids_ranked ranks (le_max_left _ _) apart chosen
  have member := fun w batch => candidate_partition sound.valid spec.anchored (inside w batch)
  refine ⟨spec.some_workflow,by rw [ids]; exact distinct,fun w batch => (member w batch).1,?_,?_⟩
  · have size : r.workflows.length = r.selected_workflow_ids.length := by rw [← ids,List.length_map]
    omega
  · intro v here w there
    exact partition_shared ((member v here).2.trans (member w there).2.symm)

def plainArgs : PolicyArgs where
  estimate_area := fun _ => none
  power := fun base _ => base

-- Two CPU workflows queued around a GPU one.
def mixedOps : List Op :=
  [.enqueue 1 ["w1"] (oneGraphJob "r1" false),.enqueue 2 ["gpu"] (oneGraphJob "r2" true),
    .enqueue 3 ["w2"] (oneGraphJob "r3" false)]

def mixedAfter (ops : List Op) : Ledger Unit :=
  ops.foldl (Ledger.advance pairedSettings (create_scheduling_policy plainArgs .default)) ⟨State.initial (),[],[],[],[]⟩

theorem mixedQueued_run :
    LedgerRun pairedSettings (create_scheduling_policy plainArgs .default) () mixedOps (mixedAfter mixedOps) :=
  .snoc (.snoc (.snoc .nil ⟨⟨by decide,by decide⟩,rfl⟩) ⟨⟨by decide,by decide⟩,rfl⟩) ⟨⟨by decide,by decide⟩,rfl⟩

theorem reserved_some (out : State σ × Except QueueError (Option Reservation))
    (some_batch : (match out.2 with | .ok (some _) => true | _ => false) = true) : ∃ after r, out = (after,.ok (some r)) := by
  obtain ⟨after,result⟩ := out
  split at some_batch
  · rename_i r found
    exact ⟨after,r,Prod.ext rfl found⟩
  · cases some_batch

-- The two CPU workflows make the batch, and the GPU one queued between them stays out.
theorem reservation_homogeneous_mixed : ∃ after r,
    reserve_batch pairedSettings (create_scheduling_policy plainArgs .default) (mixedAfter mixedOps).queue 2 none =
        (after,.ok (some r)) ∧
      r.workflows.map WorkflowItem.workflow_id = ["w1","w2"] ∧ (r.workflows.map WorkflowItem.workflow_id).Nodup ∧
      (r.workflows.length : Int) ≤ max 1 2 ∧
      ∀ v ∈ r.workflows, ∀ w ∈ r.workflows, effective_optimizer pairedSettings v = effective_optimizer pairedSettings w ∧
        v.requires_gpu = w.requires_gpu := by
  have batch : ((reserve_batch pairedSettings (create_scheduling_policy plainArgs .default) (mixedAfter mixedOps).queue 2
      none).2.toOption.bind (Option.map fun r => r.workflows.map WorkflowItem.workflow_id)) = some ["w1","w2"] := by
    decide +kernel
  obtain ⟨after,r,reserved⟩ := reserved_some (reserve_batch pairedSettings
    (create_scheduling_policy plainArgs .default) (mixedAfter mixedOps).queue 2 none) (by decide +kernel)
  obtain ⟨_,apart,_,fits,alike⟩ := reservation_homogeneous mixedQueued_run reserved
  rw [reserved] at batch
  refine ⟨after,r,reserved,Option.some.inj batch,apart,fits,?_⟩
  intro v here w there
  obtain ⟨_,_,_,optimizer,_,lever⟩ := alike v here w there
  exact ⟨optimizer,lever rfl⟩

-- A run in which no reservation is committed after a workflow of it was removed.
def UntouchedRun (cfg : Settings) (policy : SchedulingPolicy σ) (start : σ) (ops : List Op) (t : Ledger σ) : Prop :=
  Runs (fun t op after => (Fresh t op ∧ Untouched t op) ∧ after = t.advance cfg policy op)
    ⟨State.initial start,[],[],[],[]⟩ ops t

def Ledger.Accounted (t : Ledger σ) : Prop := t.Sound ∧ t.Balanced

theorem untouched_accounted {start : σ} {policy : SchedulingPolicy σ} {t : Ledger σ} (ranks : policy.Ranks)
    (path : UntouchedRun cfg policy start ops t) : t.Accounted := by
  have begins : Ledger.Accounted (⟨State.initial start,[],[],[],[]⟩ : Ledger σ) := ⟨initial_sound start,fun id => rfl⟩
  refine Runs.invariant begins ?_ path
  rintro before op _ ⟨sound,balanced⟩ ⟨⟨fresh,untouched⟩,rfl⟩
  exact ⟨sound_step sound ranks fresh,balanced_step sound balanced untouched⟩

-- Over any interleaving every workflow is in one deque once, committed once or removed
-- once, and its misses grow only by the one of a commit that passed it over.
theorem queue_conserved (path : UntouchedRun cfg (create_scheduling_policy args name) start ops t) :
    (∀ id, t.queue.ids.count id + (t.committed.map Prod.snd).count id + t.removed.count id =
      if id ∈ t.enqueued then 1 else 0) ∧
    ∀ op, ∀ after ∈ (step cfg (create_scheduling_policy args name) t.queue op).queued,
      (after.workflow_id ∈ drawn op ∧ after.miss_count = 0) ∨
      ∃ item ∈ t.queue.queued, after = item ∨ (after = { item with miss_count := item.miss_count + 1 } ∧
        ∃ r, closes t.queue op = some r ∧ item.workflow_id ∈ t.pool ∧
          item.workflow_id ∉ r.workflows.map WorkflowItem.workflow_id) := by
  obtain ⟨sound,balanced⟩ := untouched_accounted (registered_ranks args name) path
  refine ⟨?_,fun op after queued => step_misses sound queued⟩
  intro id
  rw [balanced id,sound.distinct.count]

-- A batch of one passes the second CPU workflow over, and the GPU one is removed.
def mixedDispatch : List Op := mixedOps ++ [.reserve 1 none,.commit 0,.remove ["gpu"]]

theorem mixedDispatch_run : UntouchedRun pairedSettings (create_scheduling_policy plainArgs .default) () mixedDispatch
    (mixedAfter mixedDispatch) :=
  .snoc (.snoc (.snoc (.snoc (.snoc (.snoc .nil ⟨⟨⟨by decide,by decide⟩,by intro r closed; cases closed⟩,rfl⟩)
    ⟨⟨⟨by decide,by decide⟩,by intro r closed; cases closed⟩,rfl⟩)
    ⟨⟨⟨by decide,by decide⟩,by intro r closed; cases closed⟩,rfl⟩)
    ⟨⟨⟨by decide,by decide⟩,by intro r closed; cases closed⟩,rfl⟩)
    ⟨⟨⟨by decide,by decide⟩,by intro r _ w _; simp [Ledger.advance,dropped]⟩,rfl⟩)
    ⟨⟨⟨by decide,by decide⟩,by intro r closed; cases closed⟩,rfl⟩

-- Each of the three is in one place: committed, still queued with its miss, or removed.
theorem queue_conserved_dispatched :
    (mixedAfter mixedDispatch).committed.map Prod.snd = ["w1"] ∧ (mixedAfter mixedDispatch).removed = ["gpu"] ∧
    (mixedAfter mixedDispatch).queue.queued.map (fun w => (w.workflow_id,w.miss_count)) = [("w2",1)] ∧
    ∀ id ∈ ["w1","gpu","w2"], (mixedAfter mixedDispatch).queue.ids.count id +
      ((mixedAfter mixedDispatch).committed.map Prod.snd).count id + (mixedAfter mixedDispatch).removed.count id = 1 := by
  refine ⟨by decide +kernel,by decide +kernel,by decide +kernel,?_⟩
  intro id listed
  have law := (queue_conserved mixedDispatch_run).1 id
  have known : id ∈ (mixedAfter mixedDispatch).enqueued := by
    rw [show (mixedAfter mixedDispatch).enqueued = ["w1","gpu","w2"] by decide +kernel]
    exact listed
  rwa [if_pos known] at law

end Lumilake.PriorityQueue

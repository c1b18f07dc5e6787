import Lumilake.Server.WorkerClaims

namespace Lumilake.Server
open PriorityQueue Policies WorkerCapability

-- What the queue was given is what it holds, but for the misses.
theorem queued_requires_gpu {cfg : Settings} {policy : SchedulingPolicy σ} {start : σ} {ops : List Op} {t : Ledger σ}
    (ranks : policy.Ranks) (path : LedgerRun cfg policy start ops t)
    (built : ∀ now ids job, Op.enqueue now ids job ∈ ops → FromRequest job) :
    ∀ item ∈ t.queue.queued, item.requires_gpu = graph_requires_gpu item.runtime_graph := by
  unfold LedgerRun at path
  induction path with
  | nil => intro item none_queued; cases none_queued
  | snoc earlier last ih =>
      obtain ⟨fresh,rfl⟩ := last
      intro item queued
      rcases step_items (run_sound ranks earlier) queued with ⟨now,ids,job,rfl,new⟩ | ⟨old,member,same⟩
      · obtain ⟨request_id,query,config,token,digest,rfl⟩ := built now ids job (by simp)
        obtain ⟨⟨id,w⟩,row,rfl⟩ := List.mem_map.mp new
        obtain ⟨source,_,rfl⟩ := List.mem_map.mp (List.of_mem_zip row).2
        rfl
      · have before := ih (fun now ids job there => built now ids job (by simp [there])) old member
        rcases same with rfl | ⟨rfl,_⟩
        · exact before
        · exact before

theorem python_on_cpu : normalized_task_type "python" ∈ CPU_ONLY_TASK_TYPES := by decide +kernel

theorem gated_on_cpu {workflows : List WorkflowItem} (gated : batch_required_task_types workflows ≠ []) :
    batch_requires_cpu workflows = true := by
  obtain ⟨gate,member⟩ := List.exists_mem_of_ne_nil _ gated
  obtain ⟨known,inside⟩ := List.mem_filter.mp member
  obtain rfl : gate = "python" := by simpa [CAPABILITY_GATED_TASK_TYPES] using known
  exact List.any_eq_true.mpr ⟨_,by simpa using inside,by simpa using python_on_cpu⟩

variable {cfg : Settings} {free total : FreeCapacity}

-- The workers of one class that meet the requirements of a partition.
def able (cfg : Settings) (free : FreeCapacity) (hardware : Option HardwareRequirements) (ids : List String) : List String :=
  free.meeting_hardware ids cfg.worker_meets_hardware hardware

theorem partition_eligible_iff {p : PartitionKey} : partition_eligible cfg p free = true ↔
    (partition_group_sizes cfg p).1 ≤ (able cfg free (hardware_from_signature p.hardware) free.cpu_worker_ids).length ∧
      (partition_group_sizes cfg p).2 ≤ (able cfg free (hardware_from_signature p.hardware) free.gpu_worker_ids).length := by
  have cpu := FreeCapacity.meeting_length free cfg.worker_meets_hardware
    (hardware_from_signature p.hardware) free.cpu_worker_ids
  have gpu := FreeCapacity.meeting_length free cfg.worker_meets_hardware
    (hardware_from_signature p.hardware) free.gpu_worker_ids
  unfold partition_eligible able
  dsimp only
  split
  · rename_i lacking
    have short := mt FreeCapacity.can_satisfy_iff.mpr (by simpa using lacking)
    simp only [Bool.false_eq_true,false_iff]
    omega
  · rename_i counted
    have counted := FreeCapacity.can_satisfy_iff.mp (by simpa using counted)
    split
    · rename_i empty
      simp only [FreeCapacity.meeting_hardware,empty,if_true,true_iff]
      exact counted
    · unfold FreeCapacity.can_satisfy_hardware
      rw [Option.isSome_iff_exists,FreeCapacity.eligible_iff]
      simp

theorem reserved_config {policy : SchedulingPolicy σ} {s after : State σ} {batch_size : Int} {capacity : Option FreeCapacity}
    (reserved : reserve_batch cfg policy s batch_size capacity = (after,.ok (some r))) :
    ∃ w ∈ r.workflows, r.config = w.config := by
  unfold reserve_batch at reserved
  dsimp only at reserved
  split at reserved
  · cases reserved
  · split at reserved
    · cases reserved
    · unfold fill_batch at reserved
      dsimp only at reserved
      split at reserved
      · cases reserved
      · split at reserved
        · cases reserved
        · unfold open_reservation at reserved
          split at reserved
          · cases reserved
          · cases reserved
          · cases reserved
            exact ⟨_,List.mem_cons_self,rfl⟩

-- What a claim asks of the snapshot: a worker to claim, a CPU worker for a CPU-only
-- node, and for a gated one a worker that advertises it, unless none ever will.
def Claimable (cfg : Settings) (batch : Reservation) (free total : FreeCapacity) : Prop :=
  let able_cpu := able cfg free batch.config.hardware_requirements free.cpu_worker_ids
  let required := batch_required_task_types batch.workflows
  (0 < cfg.cpu_worker_group_size ∨ batch_requires_cpu batch.workflows = true ∨
    (batch_requires_gpu batch.workflows = true ∧ 0 < cfg.gpu_worker_group_size)) ∧
  (batch_requires_cpu batch.workflows = true → able_cpu ≠ []) ∧
  (required ≠ [] → (∃ w ∈ able_cpu, free.advertises required w = true) ∨ has_cpu_worker_advertising total required = false)

theorem able_signature (meets : cfg.worker_meets_hardware = worker_meets_hardware) (hardware : Option HardwareRequirements)
    (ids : List String) :
    able cfg free (hardware_from_signature (hardware_signature hardware)) ids = able cfg free hardware ids := by
  unfold able FreeCapacity.meeting_hardware
  simp only [meets,meets_signature]

section claim
variable {cpu_group_size gpu_group_size : Nat} {hardware : Option HardwareRequirements} {required : List String}

-- The two searches of a claim as one: the second leaves the gated types out.
theorem selection_iff :
    (∃ selected, select_workers cfg free total cpu_group_size gpu_group_size hardware required = some selected) ↔
    cpu_group_size ≤ (able cfg free hardware free.cpu_worker_ids).length ∧
      gpu_group_size ≤ (able cfg free hardware free.gpu_worker_ids).length ∧
      (required ≠ [] → (1 ≤ cpu_group_size ∧
          ∃ w ∈ able cfg free hardware free.cpu_worker_ids, free.advertises required w = true) ∨
        has_cpu_worker_advertising total required = false) := by
  unfold select_workers
  dsimp only
  split
  · rename_i fallback
    rw [FreeCapacity.eligible_iff]
    exact ⟨fun ⟨cpu,gpu,_⟩ => ⟨cpu,gpu,fun _ => .inr fallback.2.2⟩,
      fun ⟨cpu,gpu,_⟩ => ⟨cpu,gpu,fun absent => absurd rfl absent⟩⟩
  · rename_i first
    rw [FreeCapacity.eligible_iff]
    constructor
    · rintro ⟨cpu,gpu,capable⟩
      exact ⟨cpu,gpu,fun gated => .inl (capable gated)⟩
    · rintro ⟨cpu,gpu,capable⟩
      refine ⟨cpu,gpu,fun gated => ?_⟩
      rcases capable gated with one | nobody
      · exact one
      · have answered : free.eligible_workers cpu_group_size gpu_group_size cfg.worker_meets_hardware hardware required ≠ none :=
          fun none_found => first ⟨none_found,gated,nobody⟩
        exact (FreeCapacity.eligible_iff.mp (Option.ne_none_iff_exists'.mp answered)).2.2 gated

theorem selection_sizes {selected : List String × List String}
    (found : select_workers cfg free total cpu_group_size gpu_group_size hardware required = some selected) :
    selected.1.length = cpu_group_size ∧ selected.2.length = gpu_group_size ∧
      selected.1 ⊆ free.cpu_worker_ids ∧ selected.2 ⊆ free.gpu_worker_ids := by
  unfold select_workers at found
  dsimp only at found
  split at found <;> exact FreeCapacity.eligible_sizes found

end claim

-- With every worker of the snapshot still idle, a selection is a claim unless it is empty.
theorem claimed_iff {batch : Reservation} {busy : Finset String}
    (idle : ∀ w ∈ free.cpu_worker_ids ++ free.gpu_worker_ids, w ∉ busy) :
    (∃ workers, (try_claim_workers cfg busy batch free total).2 = some workers) ↔
      0 < (claim_group_sizes cfg batch.workflows).1 + (claim_group_sizes cfg batch.workflows).2 ∧
      ∃ selected, select_workers cfg free total (claim_group_sizes cfg batch.workflows).1
        (claim_group_sizes cfg batch.workflows).2 batch.config.hardware_requirements
        (batch_required_task_types batch.workflows) = some selected := by
  unfold try_claim_workers
  dsimp only
  split
  · rename_i missing
    rw [missing]
    simp
  · rename_i selected_cpu selected_gpu found
    obtain ⟨cpu,gpu,cpu_inside,gpu_inside⟩ := selection_sizes found
    have free_now : ¬ ∃ worker ∈ selected_gpu ++ selected_cpu, worker ∈ busy := by
      rintro ⟨worker,member,taken⟩
      refine idle worker (List.mem_append.mpr ?_) taken
      exact (List.mem_append.mp member).symm.imp (fun there => cpu_inside there) (fun there => gpu_inside there)
    have size : selected_gpu ++ selected_cpu = [] ↔
        (claim_group_sizes cfg batch.workflows).1 + (claim_group_sizes cfg batch.workflows).2 = 0 := by
      rw [← List.length_eq_zero_iff,List.length_append]
      dsimp only at cpu gpu
      omega
    rw [found]
    split
    · rename_i nothing
      have none_asked := size.mp (nothing.resolve_right free_now)
      simp [none_asked]
    · rename_i something
      exact ⟨fun _ => ⟨Nat.pos_of_ne_zero (fun zero => something (.inl (size.mpr zero))),_,rfl⟩,fun _ => ⟨_,rfl⟩⟩

-- The claim on a snapshot with enough workers for the configured groups.
theorem claim_iff {batch : Reservation} {busy : Finset String}
    (idle : ∀ w ∈ free.cpu_worker_ids ++ free.gpu_worker_ids, w ∉ busy)
    (cpu : cfg.cpu_worker_group_size ≤ (able cfg free batch.config.hardware_requirements free.cpu_worker_ids).length)
    (gpu : (claim_group_sizes cfg batch.workflows).2 ≤
      (able cfg free batch.config.hardware_requirements free.gpu_worker_ids).length) :
    (∃ workers, (try_claim_workers cfg busy batch free total).2 = some workers) ↔ Claimable cfg batch free total := by
  rw [claimed_iff idle,selection_iff]
  unfold Claimable
  dsimp only
  have on_cpu : batch_required_task_types batch.workflows ≠ [] → _ := gated_on_cpu
  generalize able cfg free batch.config.hardware_requirements free.cpu_worker_ids = cpus at *
  generalize able cfg free batch.config.hardware_requirements free.gpu_worker_ids = gpus at *
  have some_cpu : cpus ≠ [] ↔ 1 ≤ cpus.length := by rw [← List.length_pos_iff]; rfl
  unfold claim_group_sizes at gpu ⊢
  dsimp only at gpu ⊢
  rw [some_cpu]
  have group : 0 < (if batch_requires_cpu batch.workflows ∧ cfg.cpu_worker_group_size = 0 then 1 else cfg.cpu_worker_group_size) ↔
      0 < cfg.cpu_worker_group_size ∨ batch_requires_cpu batch.workflows = true := by
    split <;> grind
  constructor
  · rintro ⟨asked,fits,_,capable⟩
    refine ⟨?_,?_,fun gated => (capable gated).imp And.right id⟩
    · grind
    · intro cpu_only
      have bumped := group.mpr (.inr cpu_only)
      omega
  · rintro ⟨asked,one,capable⟩
    refine ⟨by grind,?_,gpu,fun gated => (capable gated).imp (fun able => ⟨group.mpr (.inr (on_cpu gated)),able⟩) id⟩
    split
    · rename_i zero
      exact one zero.1
    · exact cpu

-- Whatever the queue went through, the batch that a snapshot let through is claimed
-- on it exactly when the snapshot also has what the partition key does not tell.
theorem selection_claimed_iff {args : PolicyArgs} {name : PolicyName} {start : name.State} {ops : List Op}
    {t : Ledger name.State} (meets : cfg.worker_meets_hardware = worker_meets_hardware)
    (lever : cfg.capacity_aware_selection = true)
    (path : LedgerRun cfg (create_scheduling_policy args name) start ops t)
    (built : ∀ now ids job, Op.enqueue now ids job ∈ ops → FromRequest job)
    {batch_size : Int} {busy : Finset String} {after : State name.State} {r : Reservation}
    (idle : ∀ w ∈ free.cpu_worker_ids ++ free.gpu_worker_ids, w ∉ busy)
    (reserved : reserve_batch cfg (create_scheduling_policy args name) t.queue batch_size (some free) = (after,.ok (some r))) :
    (∃ workers, (try_claim_workers cfg busy r free total).2 = some workers) ↔ Claimable cfg r free total := by
  have ranks := registered_ranks args name
  have sound := run_sound ranks path
  obtain ⟨anchor,spec⟩ := reserve_spec sound.valid reserved
  obtain ⟨_,inside⟩ := item_map_all spec.workflows
  have member := fun w batch => candidate_partition sound.valid spec.anchored (inside w batch)
  obtain ⟨head,here,config⟩ := reserved_config reserved
  have eligible := partition_eligible_iff.mp (List.mem_filter.mp (anchor_eligible sound.valid spec.anchored)).2
  -- the key of the anchor tells the hardware and whether a GPU is needed
  have gpu_needed : ∀ w ∈ r.workflows, anchor.requires_gpu = some (graph_requires_gpu w.runtime_graph) := by
    intro w there
    rw [← (member w there).2,← queued_requires_gpu ranks path built w (member w there).1]
    simp [partition_of,lever]
  have batch_gpu : batch_requires_gpu r.workflows = anchor.requires_gpu.getD false := by
    have same : ∀ w ∈ r.workflows, graph_requires_gpu w.runtime_graph = graph_requires_gpu head.runtime_graph :=
      fun w there => Option.some.inj ((gpu_needed w there).symm.trans (gpu_needed head here))
    rw [gpu_needed head here,Option.getD_some]
    cases needed : graph_requires_gpu head.runtime_graph with
    | true => exact List.any_eq_true.mpr ⟨head,here,needed⟩
    | false => exact List.any_eq_false.mpr (fun w there => by rw [same w there,needed]; exact Bool.false_ne_true)
  have hardware : anchor.hardware = hardware_signature r.config.hardware_requirements := by
    rw [config,← (member head here).2]
    rfl
  rw [hardware] at eligible
  simp only [able_signature meets] at eligible
  refine claim_iff idle eligible.1 ?_
  have sizes : (claim_group_sizes cfg r.workflows).2 = (partition_group_sizes cfg anchor).2 := by
    simp only [claim_group_sizes,partition_group_sizes,batch_gpu]
  exact sizes ▸ eligible.2

def oneTask (task_type : String) : RuntimeGraph where
  nodes := Dict.empty.set "n" ⟨"n",task_type,"","",[],[],[],[],[],none,none⟩
  node_order := ["n"]
  output_node_map := Dict.empty

def oneTaskJob (task_type : String) : Job :=
  request_job "r1" [("graph",oneTask task_type,⟨"graph",0,0,1,1,"hash",[]⟩)]
    { user_id := "user", principal_id := "principal" } none none

def groupSettings (cpu gpu : Nat) : Settings :=
  { pairedSettings with cpu_worker_group_size := cpu, gpu_worker_group_size := gpu, worker_meets_hardware := worker_meets_hardware }

def taskQueued (cfg : Settings) (task_type : String) : Ledger Unit :=
  Ledger.advance cfg (create_scheduling_policy plainArgs .default) ⟨State.initial (),[],[],[],[]⟩
    (.enqueue 0 ["w1"] (oneTaskJob task_type))

theorem taskQueued_run (cfg : Settings) (task_type : String) : LedgerRun cfg (create_scheduling_policy plainArgs .default) ()
    [.enqueue 0 ["w1"] (oneTaskJob task_type)] (taskQueued cfg task_type) :=
  .snoc .nil ⟨⟨List.nodup_singleton "w1",fun _ _ known => nomatch known⟩,rfl⟩

theorem taskQueued_built (task_type : String) : ∀ now ids job,
    Op.enqueue now ids job ∈ [Op.enqueue 0 ["w1"] (oneTaskJob task_type)] → FromRequest job := by
  intro now ids job member
  cases List.mem_singleton.mp member
  exact ⟨_,_,_,_,_,rfl⟩

def cpuWorker : FreeCapacity := ⟨["cpu-0"],[],Dict.empty.set "cpu-0" {}⟩

def gpuWorker : FreeCapacity :=
  ⟨[],["gpu-0"],Dict.empty.set "gpu-0" ⟨[],.dict [("gpu",.dict [("devices",.list [.dict []])])]⟩⟩

theorem selection_claimed_iff_api : ∃ after r,
    reserve_batch (groupSettings 1 1) (create_scheduling_policy plainArgs .default) (taskQueued (groupSettings 1 1) "api").queue 1
      (some cpuWorker) = (after,.ok (some r)) ∧
    ((∃ workers, (try_claim_workers (groupSettings 1 1) ∅ r cpuWorker cpuWorker).2 =
      some workers) ↔ Claimable (groupSettings 1 1) r cpuWorker cpuWorker) := by
  obtain ⟨after,r,reserved⟩ := reserved_some (reserve_batch (groupSettings 1 1) (create_scheduling_policy plainArgs .default)
    (taskQueued (groupSettings 1 1) "api").queue 1 (some cpuWorker)) (by decide +kernel)
  exact ⟨after,r,reserved,selection_claimed_iff rfl rfl (taskQueued_run _ _) (taskQueued_built _) (by simp) reserved⟩

-- With no CPU group configured, a GPU worker is enough to select an API workflow and
-- not enough to claim for it.
theorem selected_not_claimed :
    ¬ ∀ (cfg : Settings) (args : PolicyArgs) (name : PolicyName) (start : name.State) (ops : List Op) (t : Ledger name.State),
      cfg.worker_meets_hardware = worker_meets_hardware → cfg.capacity_aware_selection = true →
      0 < cfg.cpu_worker_group_size + cfg.gpu_worker_group_size →
      LedgerRun cfg (create_scheduling_policy args name) start ops t →
      (∀ now ids job, Op.enqueue now ids job ∈ ops → FromRequest job) →
      ∀ (batch_size : Int) (busy : Finset String) (free total : FreeCapacity),
      (∀ w ∈ free.cpu_worker_ids ++ free.gpu_worker_ids, w ∉ busy) → ∀ after r,
      reserve_batch cfg (create_scheduling_policy args name) t.queue batch_size (some free) = (after,.ok (some r)) →
      ∃ workers, (try_claim_workers cfg busy r free total).2 = some workers := by
  intro agree
  have left : ((reserve_batch (groupSettings 0 1) (create_scheduling_policy plainArgs .default)
      (taskQueued (groupSettings 0 1) "api").queue 1 (some gpuWorker)).2.toOption.join.all
      (fun r => (try_claim_workers (groupSettings 0 1) ∅ r gpuWorker gpuWorker).2.isNone)) = true := by
    decide +kernel
  obtain ⟨after,r,reserved⟩ := reserved_some (reserve_batch (groupSettings 0 1) (create_scheduling_policy plainArgs .default)
    (taskQueued (groupSettings 0 1) "api").queue 1 (some gpuWorker)) (by decide +kernel)
  obtain ⟨workers,claimed⟩ := agree (groupSettings 0 1) plainArgs .default () _ _ rfl rfl (by decide)
    (taskQueued_run _ "api") (taskQueued_built _) 1 ∅ gpuWorker gpuWorker (by simp) after r reserved
  rw [reserved] at left
  simp [Except.toOption,claimed] at left

end Lumilake.Server

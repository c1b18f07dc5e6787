import Lumilake.JobManager.QueueInvariant

namespace Lumilake.PriorityQueue
open RoundRobin
variable {σ : Type} {cfg : Settings} {policy : SchedulingPolicy σ}

-- The round-robin pick finds its partition at the head: either there is nothing
-- to pick by turn, or the head of the rotation can run on this capacity.
def HeadEligible (cfg : Settings) (s : State σ) (capacity : Option FreeCapacity) : Prop :=
  s.active_reservation = none → eligible_partitions cfg s capacity ≠ [] → (scan cfg s capacity).starved = [] →
    ∃ head, s.rr_partition_order.head? = some head ∧ head ∈ eligible_partitions cfg s capacity

theorem pick_some {present : List PartitionKey} {s t : State σ} (picks : pick_partition present s = (t,some picked)) :
    t.rr_partition_order.head? = some picked ∧ picked ∈ present := by
  obtain ⟨order,picked_head⟩ := pick_order present s.rr_partition_order s.rr_partition_members
  have state := congrArg (fun r => r.1.rr_partition_order) picks
  have choice := congrArg Prod.snd picks
  simp only [pick_partition,order,picked_head] at state choice
  rw [← state]
  refine ⟨choice,?_⟩
  have kept := List.head?_dropWhile_not (fun p => decide (p ∉ present)) s.rr_partition_order
  rw [choice] at kept
  simpa using kept

theorem pick_none {present : List PartitionKey} {s t : State σ} (picks : pick_partition present s = (t,none)) :
    t.rr_partition_order = [] := by
  obtain ⟨order,picked_head⟩ := pick_order present s.rr_partition_order s.rr_partition_members
  have state := congrArg (fun r => r.1.rr_partition_order) picks
  have choice := congrArg Prod.snd picks
  simp only [pick_partition,order,picked_head] at state choice
  rw [← state]
  exact List.head?_eq_none_iff.mp choice

theorem pick_head {present : List PartitionKey} {s : State σ} (head : s.rr_partition_order.head? = some p)
    (inside : p ∈ present) : pick_partition present s = (s,some p) := by
  cases order : s.rr_partition_order with
  | nil => simp [order] at head
  | cons first rest =>
    obtain rfl : first = p := by simpa [order] using head
    simp only [pick_partition,order,pick_partition_round_robin,if_pos inside]
    cases s; cases order; rfl

-- By turn, the anchor is always the head the rotation is left with.
theorem select_anchor_turn (cfg : Settings) {s : State σ} {found : Scan}
    (mirror : Mirrored s.rr_partition_order s.rr_partition_members)
    (by_turn : found.starved = []) (some_present : found.present ≠ []) (first : PartitionKey) :
    ∃ head ∈ found.present, (select_anchor cfg s found first).1.rr_partition_order.head? = some head ∧
      (select_anchor cfg s found first).2 = (head,some head) := by
  unfold select_anchor
  rw [by_turn]
  dsimp only
  split
  · rename_i t picked picks
    obtain ⟨head,inside⟩ := pick_some picks
    exact ⟨picked,inside,head,rfl⟩
  · rename_i t picks
    have emptied := pick_none picks
    have kept : Mirrored t.rr_partition_order t.rr_partition_members := by
      have after : Mirrored (pick_partition found.present s).1.rr_partition_order
        (pick_partition found.present s).1.rr_partition_members := pick_mirror mirror
      rwa [picks] at after
    -- every partition of the reseeded rotation is present, so its head is picked
    have members : ∀ p, p ∈ (reseed_partitions found.present t).rr_partition_order ↔ p ∈ found.present := by
      intro p
      simp [reseed_partitions,mem_admits kept,emptied]
    cases order : (reseed_partitions found.present t).rr_partition_order with
    | nil =>
      obtain ⟨p,inside⟩ := List.exists_mem_of_ne_nil _ some_present
      have missing := (members p).mpr inside
      simp [order] at missing
    | cons head rest =>
      have inside : head ∈ found.present := (members head).mp (by simp [order])
      have at_head : (reseed_partitions found.present t).rr_partition_order.head? = some head := by simp [order]
      rw [pick_head at_head inside]
      exact ⟨head,inside,at_head,rfl⟩

theorem select_anchor_ready (cfg : Settings) {s : State σ} {found : Scan} (by_turn : found.starved = [])
    (head : s.rr_partition_order.head? = some p) (inside : p ∈ found.present) (first : PartitionKey) :
    select_anchor cfg s found first = (s,p,some p) := by
  unfold select_anchor
  rw [by_turn,pick_head head inside]

theorem anchored_keeps_view {s : State σ} (valid : s.Valid) (capacity : Option FreeCapacity) :
    (anchored cfg s capacity).view = s.view ↔ HeadEligible cfg s capacity := by
  unfold anchored
  cases active : s.active_reservation with
  | some r => simp [HeadEligible,active]
  | none =>
    dsimp only
    cases found : (scan cfg s capacity).present with
    | nil =>
      have nothing : eligible_partitions cfg s capacity = [] := found
      simp [HeadEligible,nothing]
    | cons first rest =>
      have some_present : (scan cfg s capacity).present ≠ [] := by simp [found]
      dsimp only
      cases pinned : (scan cfg s capacity).starved with
      | cons item items =>
        simp [HeadEligible,pinned,select_anchor]
      | nil =>
        constructor
        · intro same _ _ _
          obtain ⟨head,inside,at_head,_⟩ := select_anchor_turn cfg valid.mirror pinned some_present first
          have order := congrArg View.rr_partition_order same
          exact ⟨head,by rw [← at_head]; exact congrArg List.head? order.symm,inside⟩
        · intro ready
          obtain ⟨head,at_head,inside⟩ := ready active some_present pinned
          rw [select_anchor_ready cfg pinned at_head inside]

-- Whatever the reserve returned and whichever handle is aborted, the queue is as
-- it was exactly when the round-robin pick had no head to evict.
theorem reserve_abort_unchanged {s : State σ} (reached : Reached cfg policy s) (batch_size : Int)
    (capacity : Option FreeCapacity) (handle : Nat) :
    (abort_reservation (reserve_batch cfg policy s batch_size capacity).1 handle).1.view = s.view ↔
      HeadEligible cfg s capacity := by
  have valid := reached_valid reached
  rw [abort_view,reserve_view valid]
  exact anchored_keeps_view valid capacity

-- One CPU and one GPU worker per dispatch, capacity-aware selection on.
def pairedSettings : Settings where
  quantums := fun _ => 5
  starvation_limit := 3
  default_optimizer_type := "halo"
  cpu_worker_group_size := 1
  gpu_worker_group_size := 1
  unsatisfiable_dwell_observations := 1
  unsatisfiable_dwell_seconds := 0
  capacity_aware_selection := true
  worker_meets_hardware := fun _ _ => true
  select_affinity_batch_ids := fun _ _ pinned => pinned

def inOrder : SchedulingPolicy Unit where
  select_batch := fun state candidates size => (state,.ok ((candidates.map WorkflowItem.workflow_id).take size.toNat))

def oneGraphJob (request_id : String) (requires_gpu : Bool) : Job where
  request_id := request_id
  workflows := [⟨"graph",⟨Dict.empty,[],Dict.empty,Dict.empty,Dict.empty⟩,⟨"graph",0,0,1,1,"hash",[]⟩,requires_gpu⟩]
  config := { user_id := "user", principal_id := "principal" }

def cpuOnly : FreeCapacity where
  cpu_worker_ids := ["cpu-0"]
  gpu_worker_ids := []

-- A GPU workflow queued ahead of a CPU one.
def gpuThenCpu : State Unit :=
  step pairedSettings inOrder (step pairedSettings inOrder (State.initial ()) (.enqueue 0 ["gpu"] (oneGraphJob "r1" true)))
    (.enqueue 1 ["cpu"] (oneGraphJob "r2" false))

theorem gpuThenCpu_reached : Reached pairedSettings inOrder gpuThenCpu :=
  ⟨(),_,.snoc (.snoc .nil rfl) rfl⟩

def oneEach : FreeCapacity where
  cpu_worker_ids := ["cpu-0"]
  gpu_worker_ids := ["gpu-0"]

-- With a worker of each kind free the GPU partition at the head can run.
theorem reserve_abort_unchanged_free_gpu :
    (abort_reservation (reserve_batch pairedSettings inOrder gpuThenCpu 1 (some oneEach)).1 0).1.view = gpuThenCpu.view :=
  (reserve_abort_unchanged gpuThenCpu_reached 1 (some oneEach) 0).mpr (by
    intro _ _ _
    exact ⟨⟨"principal",none,none,"halo",hardware_signature none,some true⟩,by decide,by decide⟩)

-- With no GPU worker free the GPU partition is evicted, and the abort leaves it out.
theorem reserve_abort_evicts :
    ¬ ∀ (cfg : Settings) (policy : SchedulingPolicy Unit) (s : State Unit), Reached cfg policy s →
      ∀ (batch_size : Int) (capacity : Option FreeCapacity) (handle : Nat),
        (abort_reservation (reserve_batch cfg policy s batch_size capacity).1 handle).1.view = s.view := by
  intro unchanged
  have same := unchanged pairedSettings inOrder gpuThenCpu gpuThenCpu_reached 1 (some cpuOnly) 0
  have lengths := congrArg (fun v : View => v.rr_partition_order.length) same
  revert lengths
  decide

end Lumilake.PriorityQueue

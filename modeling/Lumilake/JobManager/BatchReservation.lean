import Mathlib.Data.Finset.Erase
import Lumilake.JobManager.PriorityQueue

namespace Lumilake.PriorityQueue
variable {σ : Type}

-- Evict heads outside `present` from the deque and from its member set.
def pick_partition_round_robin (present : List PartitionKey) :
    List PartitionKey → Finset PartitionKey → List PartitionKey × Finset PartitionKey × Option PartitionKey
  | [],members => ([],members,none)
  | head :: rest,members =>
    if head ∈ present then (head :: rest,members,some head)
    else pick_partition_round_robin present rest (members.erase head)

def pick_partition (present : List PartitionKey) (s : State σ) : State σ × Option PartitionKey :=
  let (order,members,picked) := pick_partition_round_robin present s.rr_partition_order s.rr_partition_members
  ({ s with rr_partition_order := order, rr_partition_members := members },picked)

-- The components in key order, with `None` as the empty text; equal lengths make
-- the lexicographic order of the lists that of the tuples.
def partition_sort_key (p : PartitionKey) : List String :=
  let (cpu,memory,gpu,gpu_memory,gpu_model) := p.hardware
  [p.principal_id,p.dispatch_token.getD "",p.api_credential_digest.getD "",p.optimizer_type,
    (cpu.map toString).getD "",memory.getD "",(gpu.map toString).getD "",gpu_memory.getD "",gpu_model.getD "",
    if p.requires_gpu.getD false then "1" else "0"]

def reseed_partitions (present : List PartitionKey) (s : State σ) : State σ :=
  (present.mergeSort (fun p q => decide (partition_sort_key p ≤ partition_sort_key q))).foldl admit_partition s

-- What the first pass over the queues leaves: the partitions a batch may come
-- from, and the starved items among them.
structure Scan where
  present : List PartitionKey
  starved : List WorkflowItem

def starved_in (cfg : Settings) (items : List WorkflowItem) : List WorkflowItem :=
  items.filter (fun item => decide (cfg.starvation_limit ≤ (item.miss_count : Int)))

def State.partitions (cfg : Settings) (s : State σ) : List PartitionKey := (s.queued.map (partition_of cfg)).dedup

def eligible_partitions (cfg : Settings) (s : State σ) : Option FreeCapacity → List PartitionKey
  | none => s.partitions cfg
  | some capacity => (s.partitions cfg).filter (fun partition => partition_eligible cfg partition capacity)

def scan (cfg : Settings) (s : State σ) (capacity : Option FreeCapacity) : Scan :=
  let eligible := eligible_partitions cfg s capacity
  ⟨eligible,match capacity with
    | none => starved_in cfg s.queued
    | some _ => (starved_in cfg s.queued).filter (fun item => decide (partition_of cfg item ∈ eligible))⟩

-- The anchor partition, and the partition whose turn a commit will end. `first`
-- stands for `next(iter(present))`, which only a drifted member set can reach.
def select_anchor (cfg : Settings) (s : State σ) (found : Scan) (first : PartitionKey) :
    State σ × PartitionKey × Option PartitionKey :=
  match found.starved with
  | head :: _ => (s,partition_of cfg head,none)
  | [] =>
    match pick_partition found.present s with
    | (s,some picked) => (s,picked,some picked)
    | (s,none) =>
      let (s,picked) := pick_partition found.present (reseed_partitions found.present s)
      (s,picked.getD first,some (picked.getD first))

def matches_partition (cfg : Settings) (partition : PartitionKey) (item : WorkflowItem) : Bool :=
  let own := partition_of cfg item
  decide (own.principal_id = partition.principal_id) &&
  decide (own.dispatch_token = partition.dispatch_token) &&
  decide (own.api_credential_digest = partition.api_credential_digest) &&
  decide (own.optimizer_type = partition.optimizer_type) &&
  decide (own.hardware = partition.hardware) &&
  match partition.requires_gpu with
  | none => true
  | some requires_gpu => decide (item.requires_gpu = requires_gpu)

-- One turn of every user: the next item of each that has one, while there is room.
def round_robin_turn : Nat → List (List WorkflowItem) → List WorkflowItem × List (List WorkflowItem)
  | _,[] => ([],[])
  | room,[] :: rest =>
    let (taken,left) := round_robin_turn room rest
    (taken,[] :: left)
  | room,(item :: items) :: rest =>
    if room ≤ 1 then ([item],items :: rest)
    else
      let (taken,left) := round_robin_turn (room - 1) rest
      (item :: taken,items :: left)

-- Turns until the limit is met or no user progresses. Every turn but the last
-- takes an item, so `limit` turns are enough.
def round_robin_turns : Nat → Nat → List (List WorkflowItem) → List WorkflowItem
  | 0,_,_ => []
  | turns + 1,room,users =>
    if room = 0 then []
    else
      match round_robin_turn room users with
      | ([],_) => []
      | (item :: taken,left) => (item :: taken) ++ round_robin_turns turns (room - (taken.length + 1)) left

def peek_round_robin_for_partition (cfg : Settings) (limit : Int) (partition : PartitionKey) (q : UserQueues) :
    UserQueues × List WorkflowItem × Bool :=
  if limit ≤ 0 then (q,[],false)
  else
    let q := prune_empty_user_queues q
    if q.queues.entries.isEmpty ∨ q.rr_user_order.isEmpty then (q,[],false)
    else
      let filtered := (q.rr_user_order.map (fun user =>
        ((q.queues.get? user).getD []).filter (matches_partition cfg partition))).filter (fun items => !items.isEmpty)
      if filtered.isEmpty then (q,[],false)
      else (q,round_robin_turns limit.toNat limit.toNat filtered,decide (1 < q.rr_user_order.length))

-- One peek per priority with a positive quantum; each peek prunes its own queues.
def build_candidate_pool_for_partition (cfg : Settings) (partition : PartitionKey) (s : State σ) :
    State σ × List WorkflowItem × List Priority :=
  let peek (p : Priority) := peek_round_robin_for_partition cfg (max 0 (cfg.quantums p)) partition (s.queues p)
  ({ s with queues := fun p => (peek p).1 },Priority.all.flatMap (fun p => (peek p).2.1),
    Priority.all.filter (fun p => (peek p).2.2))

def apply_starvation_policy (cfg : Settings) (candidates : List WorkflowItem) (base_batch_ids : List String)
    (batch_size : Int) : List String :=
  let size := batch_size.toNat
  let fill (selected : List String) (ids : List String) : List String :=
    ids.foldl (fun chosen id => if id ∉ chosen ∧ chosen.length < size then chosen ++ [id] else chosen) selected
  match starved_in cfg candidates with
  | [] => base_batch_ids.take size
  | head :: rest =>
    let selected := ((head :: rest).mergeSort (fun a b => decide (a.enqueued_at ≤ b.enqueued_at))).map
      WorkflowItem.workflow_id
    if size ≤ selected.length then selected.take size
    else fill (fill selected base_batch_ids) (candidates.map WorkflowItem.workflow_id)

def select_ids (cfg : Settings) (policy : SchedulingPolicy σ) (state : σ) (candidates : List WorkflowItem)
    (batch_size : Int) : σ × Except String (List String) :=
  match starved_in cfg candidates with
  | [] => policy.select_batch state candidates batch_size
  | head :: rest =>
    let pinned := ((head :: rest).mergeSort (fun a b => decide (a.enqueued_at ≤ b.enqueued_at))).map
      WorkflowItem.workflow_id
    (state,.ok (apply_starvation_policy cfg candidates
      (cfg.select_affinity_batch_ids candidates batch_size pinned) batch_size))

def item_map (candidates : List WorkflowItem) : Dict String WorkflowItem :=
  candidates.foldl (fun found item => found.set item.workflow_id item) Dict.empty

-- From the chosen ids to the reservation that the queue now holds open.
def open_reservation (s : State σ) (candidates : List WorkflowItem) (selected_ids : List String)
    (rr_partition_to_advance : Option PartitionKey) (priorities : List Priority) :
    State σ × Except QueueError (Option Reservation) :=
  match selected_ids.mapM (item_map candidates).get? with
  | none => (s,.error .unknown_workflow)
  | some [] => (s,.error .empty_selection)
  | some (first :: rest) =>
    let reservation : Reservation := {
      ident := s.next_reservation
      workflows := first :: rest
      config := first.config
      selected_workflow_ids := selected_ids
      miss_increment_targets := (candidates.map WorkflowItem.workflow_id).filter (· ∉ selected_ids)
      rr_partition_to_advance := rr_partition_to_advance
      user_rr_priorities_to_advance := priorities }
    ({ s with active_reservation := some reservation, next_reservation := s.next_reservation + 1 },
      .ok (some reservation))

-- From the anchor to the reservation: candidates, the lane count, the ids, the batch.
def fill_batch (cfg : Settings) (policy : SchedulingPolicy σ) (s : State σ) (batch_size : Int)
    (capacity : Option FreeCapacity) (anchor : PartitionKey) (rr_partition_to_advance : Option PartitionKey) :
    State σ × Except QueueError (Option Reservation) :=
  let (s,candidates,priorities) := build_candidate_pool_for_partition cfg anchor s
  if candidates.isEmpty then ({ s with not_empty := false },.ok none)
  else
    let state := policy.observe_free_lanes s.policy
      (capacity.map (fun capacity => partition_dispatch_count cfg anchor capacity candidates))
    match select_ids cfg policy state candidates batch_size with
    | (state,.error message) => ({ s with policy := state },.error (.policy message))
    | (state,.ok selected_ids) =>
      open_reservation { s with policy := state } candidates selected_ids rr_partition_to_advance priorities

def reserve_batch (cfg : Settings) (policy : SchedulingPolicy σ) (s : State σ) (batch_size : Int)
    (capacity : Option FreeCapacity) : State σ × Except QueueError (Option Reservation) :=
  let batch_size := if batch_size ≤ 0 then 1 else batch_size
  match s.active_reservation with
  | some _ => (s,.error .outstanding_reservation)
  | none =>
    let found := scan cfg s capacity
    match found.present with
    | [] => ({ s with not_empty := false },.ok none)
    | first :: _ =>
      let (s,anchor,rr_partition_to_advance) := select_anchor cfg s found first
      fill_batch cfg policy s batch_size capacity anchor rr_partition_to_advance

def bump_item (id : String) (item : WorkflowItem) : WorkflowItem :=
  if item.workflow_id = id then { item with miss_count := item.miss_count + 1 } else item

-- The item table and the deques share their items, so a miss shows in both.
def bump_miss (s : State σ) (id : String) : State σ :=
  if id ∈ s.items then { s with
    items := s.items.mapValues (fun _ => bump_item id)
    queues := fun p =>
      ⟨(s.queues p).queues.mapValues (fun _ => List.map (bump_item id)),(s.queues p).rr_user_order⟩ }
  else s

def advance_partition_round_robin (s : State σ) (partition : PartitionKey) : State σ :=
  if s.rr_partition_order.head? = some partition then
    { s with rr_partition_order := s.rr_partition_order.rotate 1 }
  else s

def advance_user_round_robin (s : State σ) (priority : Priority) : State σ :=
  if 1 < (s.queues priority).rr_user_order.length then
    let q := s.queues priority
    { s with queues := Function.update s.queues priority ⟨q.queues,q.rr_user_order.rotate 1⟩ }
  else s

def advance_turn (s : State σ) : Option PartitionKey → State σ
  | some partition => advance_partition_round_robin s partition
  | none => s

-- The deferred mutations of a reservation, in commit order: charge the policy,
-- bump the misses, drop the batch and what it drained, end the turns.
def consume_reservation (cfg : Settings) (policy : SchedulingPolicy σ) (s : State σ) (r : Reservation) : State σ :=
  let s := r.miss_increment_targets.foldl bump_miss { s with policy := policy.on_commit s.policy r.workflows }
  let s := drop_stale_partitions cfg (drop_queued s r.selected_workflow_ids)
  let s := advance_turn s r.rr_partition_to_advance
  refresh_not_empty (r.user_rr_priorities_to_advance.foldl advance_user_round_robin s)

-- A handle names the reservation object; only the open one is accepted.
def commit_reservation (cfg : Settings) (policy : SchedulingPolicy σ) (s : State σ) (handle : Nat) :
    State σ × Except QueueError Unit :=
  match s.active_reservation with
  | none => (s,.error .not_active_reservation)
  | some reservation =>
    if reservation.ident ≠ handle then (s,.error .not_active_reservation)
    else ({ consume_reservation cfg policy s reservation with active_reservation := none },.ok ())

def abort_reservation (s : State σ) (handle : Nat) : State σ × Except QueueError Unit :=
  match s.active_reservation with
  | none => (s,.error .not_active_reservation)
  | some reservation =>
    if reservation.ident ≠ handle then (s,.error .not_active_reservation)
    else ({ s with active_reservation := none },.ok ())

-- The operations callers interleave; every one of them runs under the queue's lock.
inductive Op where
  | enqueue (now : Time) (ids : List String) (job : Job)
  | reserve (batch_size : Int) (capacity : Option FreeCapacity)
  | commit (handle : Nat)
  | abort (handle : Nat)
  | remove (ids : List String)
  | finalize (ids : List String)
  | observe_unsatisfiable (total_capacity : FreeCapacity) (now : Time)

def step (cfg : Settings) (policy : SchedulingPolicy σ) (s : State σ) : Op → State σ
  | .enqueue now ids job => enqueue cfg s now ids job
  | .reserve batch_size capacity => (reserve_batch cfg policy s batch_size capacity).1
  | .commit handle => (commit_reservation cfg policy s handle).1
  | .abort handle => (abort_reservation s handle).1
  | .remove ids => remove_workflows cfg s ids
  | .finalize ids => finalize_workflows s ids
  | .observe_unsatisfiable total_capacity now => (permanently_unsatisfiable cfg s total_capacity now).1

end Lumilake.PriorityQueue

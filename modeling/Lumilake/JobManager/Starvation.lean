import Lumilake.JobManager.QueueGuarantees

namespace Lumilake.PriorityQueue
open Selection Policies

-- Item `j` of user `i`, users in rotation order.
def Stands (users : List (List WorkflowItem)) (i j : Nat) (item : WorkflowItem) : Prop :=
  ∃ items, users[i]? = some items ∧ items[j]? = some item

-- How many items the turns before turn `j` take, and how many turn `j` takes before user `i`.
def served : List (List WorkflowItem) → Nat → Nat
  | [],_ => 0
  | items :: rest,j => min items.length j + served rest j

def ahead : List (List WorkflowItem) → Nat → Nat → Nat
  | [],_,_ => 0
  | _ :: _,0,_ => 0
  | items :: rest,i + 1,j => (if j < items.length then 1 else 0) + ahead rest i j

-- The place of an item in the round-robin order of its priority, from 0.
def turn_place (users : List (List WorkflowItem)) (i j : Nat) : Nat := served users j + ahead users i j

theorem stands_nobody : ¬ Stands [] i j item := by
  rintro ⟨items,here,_⟩
  simp at here

theorem stands_first : Stands (items :: rest) 0 j item ↔ items[j]? = some item := by simp [Stands]

theorem stands_later : Stands (items :: rest) (i + 1) j item ↔ Stands rest i j item := by simp [Stands]

-- One turn takes the first items, from the front while there is room.
theorem mem_turn (users : List (List WorkflowItem)) {room : Nat} (some_room : 1 ≤ room) :
    item ∈ (round_robin_turn room users).1 ↔ ∃ i, Stands users i 0 item ∧ ahead users i 0 < room := by
  induction users generalizing room with
  | nil => exact ⟨fun none_there => (List.not_mem_nil none_there).elim,fun ⟨_,there,_⟩ => (stands_nobody there).elim⟩
  | cons items rest ih =>
      cases items with
      | nil =>
          rw [round_robin_turn]
          dsimp only
          rw [ih some_room]
          constructor
          · rintro ⟨i,there,place⟩
            exact ⟨i + 1,stands_later.mpr there,by simpa [ahead] using place⟩
          · rintro ⟨i,there,place⟩
            cases i with
            | zero => exact absurd (stands_first.mp there) (by simp)
            | succ i => exact ⟨i,stands_later.mp there,by simpa [ahead] using place⟩
      | cons first items =>
          rw [round_robin_turn]
          split
          · rename_i last
            constructor
            · intro taken
              rw [List.mem_singleton] at taken
              exact ⟨0,stands_first.mpr (by simp [taken]),by simp only [ahead]; omega⟩
            · rintro ⟨i,there,place⟩
              cases i with
              | zero => rw [List.mem_singleton]; simpa [eq_comm] using stands_first.mp there
              | succ i => simp only [ahead,List.length_cons,Nat.zero_lt_succ,if_true] at place; omega
          · rename_i more
            dsimp only
            rw [List.mem_cons,ih (by omega : 1 ≤ room - 1)]
            constructor
            · rintro (rfl | ⟨i,there,place⟩)
              · exact ⟨0,stands_first.mpr rfl,by simp only [ahead]; omega⟩
              · exact ⟨i + 1,stands_later.mpr there,by simp only [ahead,List.length_cons,Nat.zero_lt_succ,if_true]; omega⟩
            · rintro ⟨i,there,place⟩
              cases i with
              | zero => exact .inl (by simpa [eq_comm] using stands_first.mp there)
              | succ i =>
                  simp only [ahead,List.length_cons,Nat.zero_lt_succ,if_true] at place
                  exact .inr ⟨i,stands_later.mp there,by omega⟩

theorem turn_length (users : List (List WorkflowItem)) {room : Nat} (some_room : 1 ≤ room) :
    (round_robin_turn room users).1.length = min room (served users 1) := by
  induction users generalizing room with
  | nil => simp [round_robin_turn,served]
  | cons items rest ih =>
      cases items with
      | nil => rw [round_robin_turn]; dsimp only; rw [ih some_room]; simp [served]
      | cons first items =>
          rw [round_robin_turn]
          split
          · simp only [served,List.length_cons,List.length_nil]; omega
          · dsimp only
            rw [List.length_cons,ih (by omega : 1 ≤ room - 1)]
            simp only [served,List.length_cons]
            omega

theorem served_one_zero {users : List (List WorkflowItem)} (nobody : served users 1 = 0) :
    users.map List.tail = users ∧ ∀ i j item, ¬ Stands users i j item := by
  induction users with
  | nil => exact ⟨rfl,fun _ _ _ => stands_nobody⟩
  | cons items rest ih =>
      simp only [served] at nobody
      obtain ⟨tails,none_later⟩ := ih (by omega)
      have empty : items = [] := List.length_eq_zero_iff.mp (by omega)
      subst empty
      refine ⟨by rw [List.map_cons,tails]; rfl,?_⟩
      intro i j item there
      cases i with
      | zero => exact absurd (stands_first.mp there) (by simp)
      | succ i => exact none_later i j item (stands_later.mp there)

-- A turn with room for everybody leaves every user the rest.
theorem turn_left (users : List (List WorkflowItem)) {room : Nat} (enough : served users 1 ≤ room) :
    (round_robin_turn room users).2 = users.map List.tail := by
  induction users generalizing room with
  | nil => rfl
  | cons items rest ih =>
      simp only [served] at enough
      cases items with
      | nil => rw [round_robin_turn]; dsimp only; rw [ih (by omega)]; rfl
      | cons first items =>
          simp only [List.length_cons] at enough
          rw [round_robin_turn]
          split
          · rw [List.map_cons,(served_one_zero (by omega : served rest 1 = 0)).1]
            rfl
          · dsimp only
            rw [ih (by omega)]
            rfl

theorem served_tails (users : List (List WorkflowItem)) (j : Nat) :
    served users (j + 1) = served users 1 + served (users.map List.tail) j := by
  induction users with
  | nil => rfl
  | cons items rest ih => simp only [served,List.map_cons,List.length_tail]; omega

theorem ahead_tails (users : List (List WorkflowItem)) (i j : Nat) :
    ahead users i (j + 1) = ahead (users.map List.tail) i j := by
  induction users generalizing i with
  | nil => rfl
  | cons items rest ih =>
      cases i with
      | zero => rfl
      | succ i =>
          have same : (j + 1 < items.length) = (j < items.tail.length) := by
            rw [List.length_tail]; exact propext (by omega)
          simp only [ahead,List.map_cons,ih,same]

theorem stands_tails : Stands (users.map List.tail) i j item ↔ Stands users i (j + 1) item := by
  simp [Stands,List.getElem?_map,List.getElem?_tail]

theorem place_first (users : List (List WorkflowItem)) (i : Nat) : turn_place users i 0 = ahead users i 0 := by
  have none_before : served users 0 = 0 := by
    induction users with
    | nil => rfl
    | cons items rest ih => simp only [served]; omega
  rw [turn_place,none_before,Nat.zero_add]

theorem place_later (users : List (List WorkflowItem)) (i j : Nat) :
    turn_place users i (j + 1) = served users 1 + turn_place (users.map List.tail) i j := by
  rw [turn_place,turn_place,served_tails,ahead_tails,Nat.add_assoc]

-- The turns take exactly the items whose place is within the limit.
theorem mem_turns (turns : Nat) {room : Nat} (enough : room ≤ turns) (users : List (List WorkflowItem)) :
    item ∈ round_robin_turns turns room users ↔ ∃ i j, Stands users i j item ∧ turn_place users i j < room := by
  induction turns generalizing room users with
  | zero =>
      obtain rfl : room = 0 := by omega
      simp [round_robin_turns]
  | succ turns ih =>
      unfold round_robin_turns
      split
      · rename_i none_left
        simp [none_left]
      · rename_i some_room
        have room_left : 1 ≤ room := by omega
        have members : item ∈ (round_robin_turn room users).1 ↔ _ := mem_turn users room_left
        have taken_length := turn_length users room_left
        split
        · rename_i left turn
          rw [turn] at taken_length
          have nobody : served users 1 = 0 := by simp only [List.length_nil] at taken_length; omega
          constructor
          · intro none_there; exact (List.not_mem_nil none_there).elim
          · rintro ⟨i,j,there,_⟩; exact ((served_one_zero nobody).2 i j item there).elim
        · rename_i first taken left turn
          rw [turn] at members taken_length
          dsimp only at members taken_length
          rw [List.length_cons] at taken_length
          rw [List.mem_append,members]
          by_cases everybody : served users 1 ≤ room
          · have tails := turn_left users everybody
            rw [turn] at tails
            dsimp only at tails
            have spent : taken.length + 1 = served users 1 := taken_length.trans (min_eq_right everybody)
            rw [tails,ih (by omega),spent]
            constructor
            · rintro (⟨i,there,place⟩ | ⟨i,j,there,place⟩)
              · exact ⟨i,0,there,by rw [place_first]; exact place⟩
              · exact ⟨i,j + 1,stands_tails.mp there,by rw [place_later]; omega⟩
            · rintro ⟨i,j,there,place⟩
              cases j with
              | zero => exact .inl ⟨i,there,by rw [place_first] at place; exact place⟩
              | succ j => exact .inr ⟨i,j,stands_tails.mpr there,by rw [place_later] at place; omega⟩
          · have spent : room - (taken.length + 1) = 0 := by
              rw [taken_length,min_eq_left (Nat.le_of_not_le everybody),Nat.sub_self]
            have no_room : round_robin_turns turns 0 left = [] := by cases turns <;> rfl
            rw [spent,no_room]
            constructor
            · rintro (⟨i,there,place⟩ | none_there)
              · exact ⟨i,0,there,by rw [place_first]; exact place⟩
              · exact (List.not_mem_nil none_there).elim
            · rintro ⟨i,j,there,place⟩
              cases j with
              | zero => exact .inl ⟨i,there,by rw [place_first] at place; exact place⟩
              | succ j => rw [place_later] at place; omega

variable {cfg : Settings}

-- An item whose place in the turns of its priority is within the quantum.
def InTurn (cfg : Settings) (s : State σ) (partition : PartitionKey) (item : WorkflowItem) : Prop :=
  ∃ p i j, Stands (offered cfg partition (s.queues p)) i j item ∧
    turn_place (offered cfg partition (s.queues p)) i j < (cfg.quantums p).toNat

theorem mem_candidate_pool {s : State σ} {partition : PartitionKey} :
    item ∈ candidate_pool cfg partition s ↔ InTurn cfg s partition item := by
  unfold candidate_pool InTurn
  rw [List.mem_flatMap]
  simp only [Priority.mem_all,true_and,mem_turns _ le_rfl]

def starves (cfg : Settings) (item : WorkflowItem) : Bool := decide (cfg.starvation_limit ≤ (item.miss_count : Int))

-- The first queued item, in the order of priorities, users and deques, that is at the
-- limit and may run on this capacity.
def first_starved (cfg : Settings) (s : State σ) (capacity : Option FreeCapacity) : Option WorkflowItem :=
  s.queued.find? (fun item => starves cfg item && decide (partition_of cfg item ∈ eligible_partitions cfg s capacity))

theorem scan_first_starved (s : State σ) (capacity : Option FreeCapacity) :
    (scan cfg s capacity).starved.head? = first_starved cfg s capacity := by
  unfold first_starved
  rw [← List.head?_filter]
  congr 1
  cases capacity with
  | none =>
      apply List.filter_congr
      intro item queued
      have present : partition_of cfg item ∈ s.partitions cfg := mem_partitions.mpr ⟨item,queued,rfl⟩
      simp [starves,eligible_partitions,present]
  | some capacity =>
      change (s.queued.filter _).filter _ = _
      rw [List.filter_filter]
      apply List.filter_congr
      intro item _
      exact Bool.and_comm _ _

theorem anchor_starved {s : State σ} {capacity : Option FreeCapacity} (first : first_starved cfg s capacity = some head) :
    anchor_of cfg s capacity = some (partition_of cfg head) ∧ ∃ one rest, (scan cfg s capacity).present = one :: rest ∧
      select_anchor cfg s (scan cfg s capacity) one = (s,partition_of cfg head,none) := by
  rw [← scan_first_starved] at first
  obtain ⟨others,starved⟩ := List.head?_eq_some_iff.mp first
  have eligible := (starved_eligible (starved ▸ List.mem_cons_self : head ∈ (scan cfg s capacity).starved)).2.2
  cases present : (scan cfg s capacity).present with
  | nil => rw [show eligible_partitions cfg s capacity = [] from present] at eligible; cases eligible
  | cons one rest =>
      have anchored : select_anchor cfg s (scan cfg s capacity) one = (s,partition_of cfg head,none) := by
        simp only [select_anchor,starved]
      exact ⟨by simp only [anchor_of,present,anchored],one,rest,rfl,anchored⟩

theorem fill_known {known : List String} (size : Nat) (ids chosen : List String) (inside : chosen ⊆ known)
    (offers : ids ⊆ known) :
    ids.foldl (fun chosen id => if id ∉ chosen ∧ chosen.length < size then chosen ++ [id] else chosen) chosen ⊆ known := by
  induction ids generalizing chosen with
  | nil => exact inside
  | cons id rest ih =>
      obtain ⟨first,later⟩ := List.cons_subset.mp offers
      rw [List.foldl_cons]
      refine ih _ ?_ later
      split
      · exact List.append_subset.mpr ⟨inside,List.cons_subset.mpr ⟨first,List.nil_subset _⟩⟩
      · exact inside

-- The starvation path names candidates only, when the clustering does.
theorem apply_starvation_known {candidates : List WorkflowItem} {base : List String} (batch_size : Int)
    (inside : base ⊆ candidates.map WorkflowItem.workflow_id) :
    apply_starvation_policy cfg candidates base batch_size ⊆ candidates.map WorkflowItem.workflow_id := by
  have pinned := (oldest_starved_subperm cfg candidates).subset
  unfold apply_starvation_policy
  split
  · exact fun id member => inside (List.mem_of_mem_take member)
  · rename_i head rest found
    dsimp only
    have same : ((head :: rest).mergeSort (fun a b => decide (a.enqueued_at ≤ b.enqueued_at))).map
        WorkflowItem.workflow_id = oldest_starved cfg candidates := by rw [← found,oldest_starved]
    rw [same]
    split
    · exact fun id member => pinned (List.mem_of_mem_take member)
    · exact fill_known _ _ _ (fill_known _ _ _ pinned inside) (List.Subset.refl _)

theorem item_map_known {candidates : List WorkflowItem} {id : String}
    (member : id ∈ candidates.map WorkflowItem.workflow_id) : ∃ item, (item_map candidates).get? id = some item := by
  have loop : ∀ (items : List WorkflowItem) (known : Dict String WorkflowItem),
      (id ∈ known.keys ∨ id ∈ items.map WorkflowItem.workflow_id) →
      id ∈ (items.foldl (fun found item => found.set item.workflow_id item) known).keys := by
    intro items
    induction items with
    | nil => exact fun known inside => inside.elim (fun old => old) (fun none_there => (List.not_mem_nil none_there).elim)
    | cons item rest ih =>
        intro known inside
        refine ih _ ?_
        rcases inside with old | new
        · exact .inl (Dict.mem_keys_set.mpr (.inl old))
        · rcases List.mem_cons.mp new with same | later
          · exact .inl (Dict.mem_keys_set.mpr (.inr same))
          · exact .inr later
  exact Dict.mem_keys_iff.mp (loop candidates Dict.empty (.inr member))

theorem item_map_found {candidates : List WorkflowItem} {ids : List String}
    (known : ids ⊆ candidates.map WorkflowItem.workflow_id) :
    ∃ workflows, ids.mapM (item_map candidates).get? = some workflows := by
  induction ids with
  | nil => exact ⟨[],rfl⟩
  | cons id rest ih =>
      obtain ⟨first,later⟩ := List.cons_subset.mp known
      obtain ⟨item,found⟩ := item_map_known first
      obtain ⟨items,all⟩ := ih later
      exact ⟨item :: items,by rw [List.mapM_cons,found,all]; rfl⟩

-- Ids that begin with the oldest starved candidate open a batch that holds it.
theorem open_starved (s : State σ) {candidates : List WorkflowItem} {ids : List String} {size : Nat}
    (apart : (candidates.map WorkflowItem.workflow_id).Nodup) (known : ids ⊆ candidates.map WorkflowItem.workflow_id)
    (some_room : 1 ≤ size) (starved : starved_in cfg candidates ≠ [])
    (leads : (oldest_starved cfg candidates).take size <+: ids) (turn : Option PartitionKey) (priorities : List Priority) :
    ∃ after r, open_reservation s candidates ids turn priorities = (after,.ok (some r)) ∧
      ∃ w ∈ r.workflows, cfg.starvation_limit ≤ w.miss_count := by
  have sorted : ((starved_in cfg candidates).mergeSort (fun a b => decide (a.enqueued_at ≤ b.enqueued_at))) ≠ [] := by
    intro empty
    exact starved (List.Perm.eq_nil (empty ▸ (List.mergeSort_perm _ _).symm))
  obtain ⟨oldest,rest,order⟩ := List.exists_cons_of_ne_nil sorted
  have inside : oldest ∈ starved_in cfg candidates := (List.mergeSort_perm _ _).mem_iff.mp (order ▸ List.mem_cons_self)
  obtain ⟨member,missed⟩ := List.mem_filter.mp inside
  obtain ⟨tail,split⟩ := leads
  have first : ∃ others, ids = oldest.workflow_id :: others := by
    obtain ⟨n,rfl⟩ : ∃ n, size = n + 1 := ⟨size - 1,by omega⟩
    rw [oldest_starved,order,List.map_cons,List.take_succ_cons,List.cons_append] at split
    exact ⟨_,split.symm⟩
  obtain ⟨others,rfl⟩ := first
  obtain ⟨workflows,all⟩ := item_map_found known
  obtain ⟨same_ids,members⟩ := item_map_all all
  cases workflows with
  | nil => cases same_ids
  | cons w ws =>
      have own : w = oldest := List.inj_on_of_nodup_map apart (members w List.mem_cons_self) member (List.cons.inj same_ids).1
      unfold open_reservation
      rw [all]
      exact ⟨_,_,rfl,w,List.mem_cons_self,by rw [own]; simpa using missed⟩

-- A starved candidate gets the batch filled around the oldest starved ones.
theorem fill_batch_starved {s : State σ} (policy : SchedulingPolicy σ) (wired : cfg.select_affinity_batch_ids = affinity_ids)
    (valid : s.Valid) (distinct : s.ids.Nodup) {batch_size : Int} (some_room : 1 ≤ batch_size)
    (capacity : Option FreeCapacity) {anchor : PartitionKey} (turn : Option PartitionKey)
    (candidate : item ∈ candidate_pool cfg anchor s) (starved : cfg.starvation_limit ≤ item.miss_count) :
    ∃ after r, fill_batch cfg policy s batch_size capacity anchor turn = (after,.ok (some r)) ∧
      ∃ w ∈ r.workflows, cfg.starvation_limit ≤ w.miss_count := by
  have apart := nodup_of_subperm (pool_subperm cfg valid anchor) distinct
  unfold fill_batch
  dsimp only
  rw [candidate_pool_items valid]
  generalize candidate_pool cfg anchor s = candidates at candidate apart ⊢
  have some_candidate : candidates.isEmpty = false := List.isEmpty_eq_false_iff.mpr (List.ne_nil_of_mem candidate)
  have some_starved : starved_in cfg candidates ≠ [] :=
    List.ne_nil_of_mem (List.mem_filter.mpr ⟨candidate,by simpa using starved⟩ : item ∈ starved_in cfg candidates)
  obtain ⟨head,rest,found⟩ := List.exists_cons_of_ne_nil some_starved
  have chosen : ∀ state : σ, ∃ pinned, select_ids cfg policy state candidates batch_size =
      (state,.ok (apply_starvation_policy cfg candidates (affinity_ids candidates batch_size pinned) batch_size)) := by
    intro state
    unfold select_ids
    rw [found]
    dsimp only
    rw [wired]
    exact ⟨_,rfl⟩
  rw [some_candidate,if_neg Bool.false_ne_true]
  obtain ⟨pinned,filled⟩ := chosen (policy.observe_free_lanes (build_candidate_pool_for_partition cfg anchor s).1.policy
    (capacity.map (fun capacity => partition_dispatch_count cfg anchor capacity candidates)))
  rw [filled]
  exact open_starved _ apart
    (apply_starvation_known batch_size (affinity_ids_choice candidates batch_size pinned).within.subset)
    (by omega : 1 ≤ batch_size.toNat) some_starved (apply_starvation_spec cfg batch_size _ some_starved apart).2.2 _ _

variable {args : PolicyArgs} {name : PolicyName} {start : name.State} {ops : List Op} {t : Ledger name.State}

-- An item over the limit that can run gets its partition picked; a batch with such an
-- item follows exactly when one of the partition is still within its turn's quantum.
theorem starved_batch_iff (wired : cfg.select_affinity_batch_ids = affinity_ids)
    (path : LedgerRun cfg (create_scheduling_policy args name) start ops t)
    (idle : t.queue.active_reservation = none) (batch_size : Int) {capacity : Option FreeCapacity} {head : WorkflowItem}
    (first : first_starved cfg t.queue capacity = some head) :
    (∃ after r, reserve_batch cfg (create_scheduling_policy args name) t.queue batch_size capacity = (after,.ok (some r)) ∧
        ∃ w ∈ r.workflows, cfg.starvation_limit ≤ w.miss_count) ↔
      ∃ item, InTurn cfg t.queue (partition_of cfg head) item ∧ cfg.starvation_limit ≤ item.miss_count := by
  have sound := run_sound (registered_ranks args name) path
  obtain ⟨anchored,one,rest,present,anchor⟩ := anchor_starved first
  constructor
  · rintro ⟨after,r,reserved,w,batch,starved⟩
    obtain ⟨anchor,spec⟩ := reserve_spec sound.valid reserved
    cases anchored.symm.trans spec.anchored
    exact ⟨w,mem_candidate_pool.mp ((item_map_all spec.workflows).2 w batch),starved⟩
  · rintro ⟨item,turn,starved⟩
    have size : (if batch_size ≤ 0 then 1 else batch_size) = max 1 batch_size := by omega
    unfold reserve_batch
    rw [idle,size]
    dsimp only
    rw [present]
    dsimp only
    rw [anchor]
    exact fill_batch_starved _ wired sound.valid sound.apart (le_max_left _ _) capacity none
      (mem_candidate_pool.mpr turn) starved

def onePerTurn (starvation_limit : Int) : Settings where
  quantums := fun _ => 1
  starvation_limit := starvation_limit
  default_optimizer_type := "halo"
  cpu_worker_group_size := 1
  gpu_worker_group_size := 1
  unsatisfiable_dwell_observations := 1
  unsatisfiable_dwell_seconds := 0
  capacity_aware_selection := true
  worker_meets_hardware := fun _ _ => true
  select_affinity_batch_ids := affinity_ids

def userJob (user : String) (priority : Priority) : Job where
  request_id := user
  workflows := [⟨"graph",⟨Dict.empty,[],Dict.empty,Dict.empty,Dict.empty⟩,⟨"graph",0,0,1,1,"hash",[]⟩,false⟩]
  config := { user_id := user, principal_id := "principal", priority := priority }

-- Carol's workflow goes first, and Alice's misses its one turn.
def missedTurn : List Op :=
  [.enqueue 1 ["w0"] (userJob "carol" .high),.enqueue 2 ["w1"] (userJob "alice" .medium),.reserve 1 none,.commit 0]

def missed : Ledger Unit :=
  missedTurn.foldl (Ledger.advance (onePerTurn 1) (create_scheduling_policy plainArgs .default))
    ⟨State.initial (),[],[],[],[]⟩

theorem missed_run : LedgerRun (onePerTurn 1) (create_scheduling_policy plainArgs .default) () missedTurn missed :=
  .snoc (.snoc (.snoc (.snoc .nil ⟨⟨by decide,by decide⟩,rfl⟩) ⟨⟨by decide,by decide⟩,rfl⟩)
    ⟨⟨by decide,by decide⟩,rfl⟩) ⟨⟨by decide,by decide⟩,rfl⟩

-- Alice's workflow is over the limit now and first of its priority, so it is in the next batch.
theorem starved_batch_iff_alice : ∃ after r,
    reserve_batch (onePerTurn 1) (create_scheduling_policy plainArgs .default) missed.queue 1 none = (after,.ok (some r)) ∧
      ∃ w ∈ r.workflows, (1 : Int) ≤ w.miss_count :=
  (starved_batch_iff rfl missed_run rfl 1
    (rfl : first_starved (onePerTurn 1) missed.queue none = some _)).mpr
      ⟨_,⟨.medium,0,0,⟨_,rfl,rfl⟩,by decide +kernel⟩,by decide +kernel⟩

-- Carol's workflow goes first and Alice's misses; the commit turns the users, and
-- Alice, over the limit now, stands behind Bob.
def passedOver : List Op :=
  [.enqueue 1 ["w0"] (userJob "carol" .high),.enqueue 2 ["w1"] (userJob "alice" .medium),
    .enqueue 3 ["w2"] (userJob "bob" .medium),.reserve 1 none,.commit 0]

def passed : Ledger Unit :=
  passedOver.foldl (Ledger.advance (onePerTurn 1) (create_scheduling_policy plainArgs .default))
    ⟨State.initial (),[],[],[],[]⟩

theorem passed_run : LedgerRun (onePerTurn 1) (create_scheduling_policy plainArgs .default) () passedOver passed :=
  .snoc (.snoc (.snoc (.snoc (.snoc .nil ⟨⟨by decide,by decide⟩,rfl⟩) ⟨⟨by decide,by decide⟩,rfl⟩)
    ⟨⟨by decide,by decide⟩,rfl⟩) ⟨⟨by decide,by decide⟩,rfl⟩) ⟨⟨by decide,by decide⟩,rfl⟩

theorem starved_passed_over :
    ¬ ∀ (cfg : Settings) (args : PolicyArgs) (name : PolicyName) (start : name.State) (ops : List Op) (t : Ledger name.State),
      cfg.select_affinity_batch_ids = affinity_ids → LedgerRun cfg (create_scheduling_policy args name) start ops t →
      t.queue.active_reservation = none → ∀ (batch_size : Int) (capacity : Option FreeCapacity),
      (∃ item ∈ t.queue.queued, cfg.starvation_limit ≤ item.miss_count ∧
        partition_of cfg item ∈ eligible_partitions cfg t.queue capacity) →
      ∃ after r, reserve_batch cfg (create_scheduling_policy args name) t.queue batch_size capacity = (after,.ok (some r)) ∧
        ∃ w ∈ r.workflows, cfg.starvation_limit ≤ w.miss_count := by
  intro always
  have starving : passed.queue.queued.any (fun item => starves (onePerTurn 1) item) = true := by decide +kernel
  obtain ⟨item,queued,starved⟩ := List.any_eq_true.mp starving
  have alone : ((reserve_batch (onePerTurn 1) (create_scheduling_policy plainArgs .default) passed.queue 1 none).2.toOption.join.elim
      [] Reservation.workflows).all (fun w => !starves (onePerTurn 1) w) = true := by decide +kernel
  obtain ⟨after,r,reserved,w,batch,missed⟩ := always (onePerTurn 1) plainArgs .default () passedOver passed rfl passed_run
    (by decide +kernel) 1 none ⟨item,queued,by simpa [starves] using starved,mem_partitions.mpr ⟨item,queued,rfl⟩⟩
  rw [reserved] at alone
  have fresh := List.all_eq_true.mp alone w batch
  simp [starves,missed] at fresh

end Lumilake.PriorityQueue

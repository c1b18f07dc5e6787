import Mathlib.Data.List.DropRight
import Lumilake.JobManager.QueueInvariant

namespace Lumilake.PriorityQueue
variable {σ : Type} {cfg : Settings} {policy : SchedulingPolicy σ}

-- What one call of `permanently_unsatisfiable` sees: the partitions queued then,
-- the capacity it was handed and the time it read.
structure Observation where
  present : List PartitionKey
  total_capacity : FreeCapacity
  now : Time

def observe (cfg : Settings) (s : State σ) (total_capacity : FreeCapacity) (now : Time) : Observation :=
  ⟨s.queued.map (partition_of cfg),total_capacity,now⟩

-- Present, and no worker can ever satisfy it.
def Observation.unsatisfiable (cfg : Settings) (partition : PartitionKey) (o : Observation) : Bool :=
  decide (partition ∈ o.present) && !partition_eligible cfg partition o.total_capacity

def observations (cfg : Settings) (policy : SchedulingPolicy σ) : State σ → List Op → List Observation
  | _,[] => []
  | s,.observe_unsatisfiable total_capacity now :: rest =>
    observe cfg s total_capacity now :: observations cfg policy (step cfg policy s (.observe_unsatisfiable total_capacity now)) rest
  | s,op :: rest => observations cfg policy (step cfg policy s op) rest

-- The observations of a partition since it was last absent or satisfiable.
def current_run (cfg : Settings) (partition : PartitionKey) (log : List Observation) : List Observation :=
  log.rtakeWhile (Observation.unsatisfiable cfg partition)

-- Both dwell maps say of a partition what its current run says.
structure Dwells (cfg : Settings) (log : List Observation) (s : State σ) : Prop where
  since : ∀ p, s.unsatisfiable_since.get? p = (current_run cfg p log).head?.map Observation.now
  count : ∀ p, s.unsatisfiable_count.get? p =
    if current_run cfg p log = [] then none else some (current_run cfg p log).length

def State.dwell (s : State σ) : Dict PartitionKey Time × Dict PartitionKey Nat := (s.unsatisfiable_since,s.unsatisfiable_count)

section
variable (s : State σ)

theorem foldl_dwell {ι : Type} (turn : State σ → ι → State σ) (still : ∀ s i, (turn s i).dwell = s.dwell) (items : List ι) :
    (items.foldl turn s).dwell = s.dwell := by
  induction items generalizing s with
  | nil => rfl
  | cons i rest ih => exact (ih (turn s i)).trans (still s i)

theorem admit_dwell (partition : PartitionKey) : (admit_partition s partition).dwell = s.dwell := by
  unfold admit_partition
  split <;> rfl

theorem enqueue_dwell (now : Time) (ids : List String) (job : Job) : (enqueue cfg s now ids job).dwell = s.dwell :=
  foldl_dwell s (enqueue_item cfg job.config.priority) (fun s item => admit_dwell (push_item _ s item) (partition_of cfg item)) _

theorem select_anchor_dwell (found : Scan) (first : PartitionKey) : (select_anchor cfg s found first).1.dwell = s.dwell := by
  have reseeded : ∀ s : State σ, (reseed_partitions found.present s).dwell = s.dwell :=
    fun s => foldl_dwell s admit_partition admit_dwell _
  unfold select_anchor pick_partition
  dsimp only
  split
  · rfl
  · split
    · rename_i picks
      exact (congrArg (fun r => r.1.dwell) picks).symm
    · rename_i picks
      exact (reseeded _).trans (congrArg (fun r => r.1.dwell) picks).symm

theorem fill_batch_dwell (batch_size : Int) (capacity : Option FreeCapacity) (anchor : PartitionKey)
    (turn : Option PartitionKey) : (fill_batch cfg policy s batch_size capacity anchor turn).1.dwell = s.dwell := by
  unfold fill_batch open_reservation build_candidate_pool_for_partition
  dsimp only
  split
  · rfl
  · split
    · rfl
    · split <;> rfl

theorem reserve_dwell (batch_size : Int) (capacity : Option FreeCapacity) :
    (reserve_batch cfg policy s batch_size capacity).1.dwell = s.dwell := by
  unfold reserve_batch
  dsimp only
  split
  · rfl
  · split
    · rfl
    · exact (fill_batch_dwell _ _ _ _ _).trans (select_anchor_dwell s _ _)

theorem bump_dwell (id : String) : (bump_miss s id).dwell = s.dwell := by
  unfold bump_miss
  split <;> rfl

theorem refresh_dwell : (refresh_not_empty s).dwell = s.dwell := by
  unfold refresh_not_empty
  split <;> rfl

theorem advance_turn_dwell (turn : Option PartitionKey) : (advance_turn s turn).dwell = s.dwell := by
  unfold advance_turn advance_partition_round_robin
  split
  · split <;> rfl
  · rfl

theorem advance_user_dwell (priority : Priority) : (advance_user_round_robin s priority).dwell = s.dwell := by
  unfold advance_user_round_robin
  split <;> rfl

theorem consume_dwell (r : Reservation) : (consume_reservation cfg policy s r).dwell = s.dwell := by
  unfold consume_reservation
  dsimp only
  rw [refresh_dwell,foldl_dwell _ advance_user_round_robin advance_user_dwell,advance_turn_dwell]
  exact foldl_dwell _ bump_miss bump_dwell _

theorem remove_dwell (ids : List String) : (remove_workflows cfg s ids).dwell = s.dwell := by
  unfold remove_workflows
  split
  · rfl
  · exact refresh_dwell _

-- No other operation touches the two maps.
theorem step_dwell (op : Op) (other : ∀ total_capacity now, op ≠ .observe_unsatisfiable total_capacity now) :
    (step cfg policy s op).dwell = s.dwell := by
  cases op with
  | enqueue now ids job => exact enqueue_dwell s now ids job
  | reserve batch_size capacity => exact reserve_dwell s batch_size capacity
  | commit handle =>
      simp only [step,commit_reservation]
      split
      · rfl
      · split
        · rfl
        · exact consume_dwell s _
  | abort handle =>
      simp only [step,abort_reservation]
      split
      · rfl
      · split <;> rfl
  | remove ids => exact remove_dwell s ids
  | finalize ids => rfl
  | observe_unsatisfiable total_capacity now => exact absurd rfl (other total_capacity now)

end

-- What an observation does to one partition.
def dwell_turn (cfg : Settings) (total_capacity : FreeCapacity) (now : Time)
    (maps : Dict PartitionKey Time × Dict PartitionKey Nat) (partition : PartitionKey) :
    Dict PartitionKey Time × Dict PartitionKey Nat :=
  if partition_eligible cfg partition total_capacity then (maps.1.erase partition,maps.2.erase partition)
  else (if partition ∈ maps.1.keys then maps.1 else maps.1.set partition now,
    maps.2.set partition ((maps.2.get? partition).getD 0 + 1))

theorem dwell_turn_ne (cfg : Settings) (total_capacity : FreeCapacity) (now : Time)
    (maps : Dict PartitionKey Time × Dict PartitionKey Nat) (different : p ≠ partition) :
    (dwell_turn cfg total_capacity now maps partition).1.get? p = maps.1.get? p ∧
      (dwell_turn cfg total_capacity now maps partition).2.get? p = maps.2.get? p := by
  unfold dwell_turn
  split
  · exact ⟨Dict.get?_erase_ne _ different,Dict.get?_erase_ne _ different⟩
  · refine ⟨?_,Dict.get?_set_ne _ _ different⟩
    split
    · rfl
    · exact Dict.get?_set_ne _ _ different

theorem dwell_turn_self (maps : Dict PartitionKey Time × Dict PartitionKey Nat) (p : PartitionKey) :
    (dwell_turn cfg total_capacity now maps p).1.get? p =
        (if partition_eligible cfg p total_capacity then none else some ((maps.1.get? p).getD now)) ∧
      (dwell_turn cfg total_capacity now maps p).2.get? p =
        if partition_eligible cfg p total_capacity then none else some ((maps.2.get? p).getD 0 + 1) := by
  unfold dwell_turn
  split
  · exact ⟨Dict.get?_erase_self _ _,Dict.get?_erase_self _ _⟩
  · refine ⟨?_,Dict.get?_set_self _ _ _⟩
    dsimp only
    split
    · rename_i known
      obtain ⟨start,found⟩ := Dict.mem_keys_iff.mp known
      rw [found]
      rfl
    · rename_i fresh
      rw [Dict.get?_set_self,Dict.get?_eq_none.mpr fresh]
      rfl

-- Every present partition has one turn, whatever the order they are walked in.
theorem dwell_turns (cfg : Settings) (total_capacity : FreeCapacity) (now : Time) {present : List PartitionKey}
    (distinct : present.Nodup) (maps : Dict PartitionKey Time × Dict PartitionKey Nat) (p : PartitionKey) :
    (present.foldl (dwell_turn cfg total_capacity now) maps).1.get? p =
        (if p ∈ present then if partition_eligible cfg p total_capacity then none else some ((maps.1.get? p).getD now)
          else maps.1.get? p) ∧
      (present.foldl (dwell_turn cfg total_capacity now) maps).2.get? p =
        if p ∈ present then if partition_eligible cfg p total_capacity then none else some ((maps.2.get? p).getD 0 + 1)
          else maps.2.get? p := by
  induction present generalizing maps with
  | nil => exact ⟨rfl,rfl⟩
  | cons q rest ih =>
      obtain ⟨fresh,apart⟩ := List.nodup_cons.mp distinct
      obtain ⟨since,count⟩ := ih apart (dwell_turn cfg total_capacity now maps q)
      rw [List.foldl_cons,since,count]
      by_cases own : p = q
      · subst own
        rw [if_neg fresh,if_neg fresh,if_pos List.mem_cons_self,if_pos List.mem_cons_self]
        exact dwell_turn_self maps p
      · obtain ⟨still_since,still_count⟩ := dwell_turn_ne cfg total_capacity now maps own
        rw [still_since,still_count]
        simp [own]

theorem run_after (cfg : Settings) (p : PartitionKey) (log : List Observation) (o : Observation) :
    current_run cfg p (log ++ [o]) = if o.unsatisfiable cfg p then current_run cfg p log ++ [o] else [] :=
  List.rtakeWhile_concat _ _ _

variable {log : List Observation} {s : State σ}

-- The maps before the turns: what left the queue is forgotten.
def present_maps (cfg : Settings) (s : State σ) : Dict PartitionKey Time × Dict PartitionKey Nat :=
  let present := (s.queued.map (partition_of cfg)).dedup
  (s.unsatisfiable_since.filter (fun partition _ => decide (partition ∈ present)),
    s.unsatisfiable_count.filter (fun partition _ => decide (partition ∈ present ∨ partition ∉ s.unsatisfiable_since.keys)))

theorem observed_maps (cfg : Settings) (s : State σ) (total_capacity : FreeCapacity) (now : Time) :
    (permanently_unsatisfiable cfg s total_capacity now).1.dwell =
      ((s.queued.map (partition_of cfg)).dedup).foldl (dwell_turn cfg total_capacity now) (present_maps cfg s) := rfl

theorem present_maps_get? (dwells : Dwells cfg log s) (p : PartitionKey) :
    (present_maps cfg s).1.get? p =
        (if p ∈ s.queued.map (partition_of cfg) then s.unsatisfiable_since.get? p else none) ∧
      (present_maps cfg s).2.get? p =
        if p ∈ s.queued.map (partition_of cfg) then s.unsatisfiable_count.get? p else none := by
  unfold present_maps
  dsimp only
  refine ⟨by rw [Dict.get?_filter_key]; simp,?_⟩
  rw [Dict.get?_filter_key]
  simp only [decide_eq_true_eq,List.mem_dedup]
  by_cases there : p ∈ s.queued.map (partition_of cfg)
  · rw [if_pos there,if_pos (.inl there)]
  · rw [if_neg there]
    split
    · rename_i unknown
      have absent := Dict.get?_eq_none.mpr (unknown.resolve_left there)
      rw [dwells.since,Option.map_eq_none_iff,List.head?_eq_none_iff] at absent
      rw [dwells.count,if_pos absent]
    · rfl

-- The maps after an observation, partition by partition.
theorem observed_dwells (dwells : Dwells cfg log s) (total_capacity : FreeCapacity) (now : Time) :
    Dwells cfg (log ++ [observe cfg s total_capacity now]) (permanently_unsatisfiable cfg s total_capacity now).1 := by
  have turns := fun p => dwell_turns cfg total_capacity now (List.nodup_dedup (s.queued.map (partition_of cfg)))
    (present_maps cfg s) p
  rw [← observed_maps] at turns
  have run := fun p => run_after cfg p log (observe cfg s total_capacity now)
  have seen : ∀ p, (observe cfg s total_capacity now).unsatisfiable cfg p =
      (decide (p ∈ s.queued.map (partition_of cfg)) && !partition_eligible cfg p total_capacity) := fun _ => rfl
  constructor
  · intro p
    refine (turns p).1.trans ?_
    rw [run,seen,(present_maps_get? dwells p).1,dwells.since p]
    by_cases there : p ∈ s.queued.map (partition_of cfg)
    · cases partition_eligible cfg p total_capacity with
      | true => simp [there]
      | false =>
          cases current_run cfg p log <;> simp [there,observe]
    · simp [there]
  · intro p
    refine (turns p).2.trans ?_
    rw [run,seen,(present_maps_get? dwells p).2,dwells.count p]
    by_cases there : p ∈ s.queued.map (partition_of cfg)
    · cases partition_eligible cfg p total_capacity with
      | true => simp [there]
      | false => cases current_run cfg p log <;> simp [there]
    · simp [there]

theorem dwells_kept {t : State σ} (dwells : Dwells cfg log s) (same : t.dwell = s.dwell) : Dwells cfg log t := by
  obtain ⟨since,count⟩ := Prod.ext_iff.mp same
  exact ⟨fun p => (congrArg (fun d => d.get? p) since).trans (dwells.since p),
    fun p => (congrArg (fun d => d.get? p) count).trans (dwells.count p)⟩

theorem observations_skip (cfg : Settings) (policy : SchedulingPolicy σ) (s : State σ) (op : Op) (rest : List Op)
    (other : ∀ total_capacity now, op ≠ .observe_unsatisfiable total_capacity now) :
    observations cfg policy s (op :: rest) = observations cfg policy (step cfg policy s op) rest := by
  cases op <;> first | rfl | exact absurd rfl (other _ _)

-- Along any run of operations the maps stand at the current runs of the observations made.
theorem dwells_run (policy : SchedulingPolicy σ) (dwells : Dwells cfg log s) (ops : List Op) :
    Dwells cfg (log ++ observations cfg policy s ops) (ops.foldl (step cfg policy) s) := by
  induction ops generalizing log s with
  | nil => simpa [observations] using dwells
  | cons op rest ih =>
      rw [List.foldl_cons]
      by_cases other : ∀ total_capacity now, op ≠ .observe_unsatisfiable total_capacity now
      · rw [observations_skip _ _ _ _ _ other]
        exact ih (dwells_kept dwells (step_dwell s op other))
      · push Not at other
        obtain ⟨total_capacity,now,rfl⟩ := other
        have observed := ih (observed_dwells dwells total_capacity now)
        rw [List.append_assoc] at observed
        exact observed

theorem dwells_start (cfg : Settings) (start : σ) : Dwells cfg [] (State.initial start) := ⟨fun _ => rfl,fun _ => rfl⟩

-- The items that the call reports, by the maps it leaves.
theorem reported_items (dwells : Dwells cfg log s) (total_capacity : FreeCapacity) (now : Time) (item : WorkflowItem) :
    item ∈ (permanently_unsatisfiable cfg s total_capacity now).2 ↔ item ∈ s.queued ∧
      ∃ first, (current_run cfg (partition_of cfg item) (log ++ [observe cfg s total_capacity now])).head? = some first ∧
        cfg.unsatisfiable_dwell_observations ≤
          (current_run cfg (partition_of cfg item) (log ++ [observe cfg s total_capacity now])).length ∧
        cfg.unsatisfiable_dwell_seconds ≤ now - first.now := by
  have after := observed_dwells dwells total_capacity now
  have since := after.since (partition_of cfg item)
  have count := after.count (partition_of cfg item)
  have listed : item ∈ (permanently_unsatisfiable cfg s total_capacity now).2 ↔ item ∈ s.queued ∧ partition_of cfg item ∈
      ((permanently_unsatisfiable cfg s total_capacity now).1.unsatisfiable_since.filter fun partition start =>
        decide (cfg.unsatisfiable_dwell_seconds ≤ now - start) && decide (cfg.unsatisfiable_dwell_observations ≤
          ((permanently_unsatisfiable cfg s total_capacity now).1.unsatisfiable_count.get? partition).getD 0)).keys := by
    exact List.mem_filter.trans (and_congr_right fun _ => decide_eq_true_iff)
  rw [listed]
  refine and_congr_right fun _ => ?_
  simp only [Dict.mem_keys_iff,Dict.get?_filter,since,count,Bool.and_eq_true,decide_eq_true_eq]
  generalize current_run cfg (partition_of cfg item) (log ++ [observe cfg s total_capacity now]) = run
  cases run with
  | nil => simp
  | cons first rest => simp [and_comm]

theorem reported_iff_dwelt (cfg : Settings) (policy : SchedulingPolicy σ) (start : σ) (ops : List Op)
    (total_capacity : FreeCapacity) (now : Time) (item : WorkflowItem) :
    let s := ops.foldl (step cfg policy) (State.initial start)
    let run := current_run cfg (partition_of cfg item)
      (observations cfg policy (State.initial start) ops ++ [observe cfg s total_capacity now])
    item ∈ (permanently_unsatisfiable cfg s total_capacity now).2 ↔ item ∈ s.queued ∧
      ∃ first, run.head? = some first ∧ cfg.unsatisfiable_dwell_observations ≤ run.length ∧
        cfg.unsatisfiable_dwell_seconds ≤ now - first.now := by
  have dwells := dwells_run policy (dwells_start cfg start) ops
  exact reported_items dwells total_capacity now item

end Lumilake.PriorityQueue

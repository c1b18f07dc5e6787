import Lumilake.JobManager.Policies

namespace Lumilake.Policies
open Selection

-- How the default policy fills a batch once the clustering has answered.
def fill_by_user (affinity_ids : List String) (candidates : List WorkflowItem) (batch_size : Int) : List String :=
  let size := batch_size.toNat
  if batch_size ≤ 1 then affinity_ids.take size
  else
    let selected_ids := affinity_ids.filter (· ∈ candidates.map WorkflowItem.workflow_id)
    let users := ids_by_user candidates
    if selected_ids = [] then []
    else if users.keys.length ≤ 1 then selected_ids.take size
    else
      match extend_until size [] (users.values.map (seat selected_ids)) with
      | (fair_seed,true) => fair_seed.take size
      | (fair_seed,false) =>
        match extend_until size fair_seed selected_ids with
        | (final_ids,true) => final_ids.take size
        | (final_ids,false) => (extend_until size final_ids (candidates.map WorkflowItem.workflow_id)).1.take size

-- The default policy over any distance between candidates.
def select_default_by (distance : String → String → Rat) (candidates : List WorkflowItem) (batch_size : Int) : List String :=
  let enqueued_at := by_workflow_id WorkflowItem.enqueued_at candidates
  fill_by_user (Agglomeration.choose ⟨distance,fun id => (enqueued_at.get? id).getD 0,(max 1 batch_size).toNat⟩
    (by_workflow_id WorkflowItem.runtime_graph candidates).keys []) candidates batch_size

-- The affinity distance of the candidates' graphs.
def affinity_distance (candidates : List WorkflowItem) (batch_size : Int) : String → String → Rat :=
  Clustering.distance ⟨(by_workflow_id WorkflowItem.runtime_graph candidates).mapValues (fun _ graph =>
    Clustering.build_affinity graph),by_workflow_id WorkflowItem.enqueued_at candidates,(max 1 batch_size).toNat⟩

theorem select_default_general (candidates : List WorkflowItem) (batch_size : Int) :
    select_default candidates batch_size = select_default_by (affinity_distance candidates batch_size) candidates batch_size := by
  have same := Clustering.select_affinity_general (by_workflow_id WorkflowItem.runtime_graph candidates)
    (by_workflow_id WorkflowItem.enqueued_at candidates) batch_size []
  exact congrArg (fun ids => fill_by_user ids candidates batch_size) same

-- The users in the order of their first candidate.
def user_order (candidates : List WorkflowItem) : List String := (candidates.map fun item => item.config.user_id).eraseDups

theorem ids_by_user_keys (candidates : List WorkflowItem) : (ids_by_user candidates).keys = user_order candidates := by
  have loop : ∀ (items : List WorkflowItem) (found : Dict String (List String)),
      (items.foldl (fun found item => found.set item.config.user_id
        ((found.get? item.config.user_id).getD [] ++ [item.workflow_id])) found).keys =
        found.keys ++ ((items.map fun item => item.config.user_id).filter fun user => decide (user ∉ found.keys)).eraseDups := by
    intro items
    induction items with
    | nil => intro found; simp
    | cons item rest ih =>
        intro found
        rw [List.foldl_cons,ih]
        by_cases known : item.config.user_id ∈ found.keys
        · rw [Dict.keys_set_of_mem known]
          simp [known]
        · rw [Dict.keys_set_of_not_mem known]
          simp only [List.map_cons]
          rw [List.filter_cons_of_pos (by simpa using known),List.eraseDups_cons,List.filter_filter,List.append_assoc]
          have others : (fun user => decide (user ∉ found.keys ++ [item.config.user_id])) =
              fun user => !user == item.config.user_id && decide (user ∉ found.keys) := by
            funext user
            rw [Bool.eq_iff_iff]
            simp [and_comm]
          rw [others]
          rfl
  have whole := loop candidates Dict.empty
  simpa [ids_by_user,user_order] using whole

theorem seats_own {candidates : List WorkflowItem} (selected_ids : List String) {user ids}
    (entry : (user,ids) ∈ (ids_by_user candidates).entries) :
    ∃ item ∈ candidates, item.config.user_id = user ∧ item.workflow_id = seat selected_ids ids := by
  obtain ⟨some_id,own⟩ := ids_by_user_own (Dict.get?_eq_some.mpr entry)
  exact own _ (seat_mem selected_ids some_id)

-- What the selection promises of a batch: candidates, each once, as many as fit, and
-- an item of each of the first users while there is a place for every one.
structure Fair (candidates : List WorkflowItem) (batch_size : Int) (chosen : List String) : Prop where
  once : chosen.Nodup
  within : chosen ⊆ candidates.map WorkflowItem.workflow_id
  full : chosen.length = min batch_size.toNat (candidates.map WorkflowItem.workflow_id).dedup.length
  seated : 2 ≤ batch_size → ∀ user ∈ (user_order candidates).take batch_size.toNat,
    ∃ item ∈ candidates, item.config.user_id = user ∧ item.workflow_id ∈ chosen

theorem distinct_count {ids chosen : List String} (once : chosen.Nodup) (within : chosen ⊆ ids) :
    chosen.length ≤ ids.dedup.length :=
  (List.subperm_of_subset once fun _ member => List.mem_dedup.mpr (within member)).length_le

theorem all_count {ids chosen : List String} (once : chosen.Nodup) (within : chosen ⊆ ids) (all : ids ⊆ chosen) :
    chosen.length = ids.dedup.length := by
  refine Nat.le_antisymm (distinct_count once within) ?_
  exact (List.subperm_of_subset (List.nodup_dedup ids) fun id member => all (List.mem_dedup.mp member)).length_le

-- Enough chosen ids, each once, that hold the seats of the first users.
theorem fair_take {candidates : List WorkflowItem} {batch_size : Int} {selected_ids chosen : List String}
    (once : chosen.Nodup) (within : chosen ⊆ candidates.map WorkflowItem.workflow_id)
    (full : chosen.length = min batch_size.toNat (candidates.map WorkflowItem.workflow_id).dedup.length)
    (seats : ((ids_by_user candidates).values.map (seat selected_ids)).take batch_size.toNat ⊆ chosen) :
    Fair candidates batch_size (chosen.take batch_size.toNat) := by
  have whole : chosen.take batch_size.toNat = chosen := List.take_of_length_le (by omega)
  rw [whole]
  refine ⟨once,within,full,fun _ user early => ?_⟩
  rw [← ids_by_user_keys,Dict.keys,← List.map_take] at early
  obtain ⟨⟨_,ids⟩,entry,rfl⟩ := List.mem_map.mp early
  obtain ⟨item,inside,own,same⟩ := seats_own selected_ids (List.mem_of_mem_take entry)
  refine ⟨item,inside,own,?_⟩
  rw [same]
  apply seats
  rw [Dict.values,List.map_map,← List.map_take]
  exact List.mem_map.mpr ⟨_,entry,rfl⟩

theorem fill_by_user_fair {candidates : List WorkflowItem} {batch_size : Int} {affinity_ids : List String}
    (once : affinity_ids.Nodup) (within : affinity_ids ⊆ candidates.map WorkflowItem.workflow_id)
    (full : affinity_ids.length = min (max 1 batch_size).toNat (candidates.map WorkflowItem.workflow_id).dedup.length) :
    Fair candidates batch_size (fill_by_user affinity_ids candidates batch_size) := by
  unfold fill_by_user
  dsimp only
  split
  · rename_i small
    refine ⟨once.sublist (List.take_sublist _ _),fun id member => within (List.mem_of_mem_take member),?_,fun large => ?_⟩
    · rw [List.length_take,full]
      omega
    · omega
  rename_i large
  have size : (max 1 batch_size).toNat = batch_size.toNat := by omega
  rw [size] at full
  have known : affinity_ids.filter (fun id => decide (id ∈ candidates.map WorkflowItem.workflow_id)) = affinity_ids :=
    List.filter_eq_self.mpr fun id member => decide_eq_true (within member)
  rw [known]
  split
  · rename_i nothing
    rw [nothing,List.length_nil] at full
    have nobody : candidates = [] := by
      cases candidates with
      | nil => rfl
      | cons item rest =>
          have some_id : 0 < ((item :: rest).map WorkflowItem.workflow_id).dedup.length :=
            List.length_pos_of_mem (List.mem_dedup.mpr List.mem_cons_self)
          omega
    subst nobody
    exact ⟨List.nodup_nil,List.nil_subset _,by simp,fun _ user early => by simp [user_order] at early⟩
  rename_i some_id
  split
  · rename_i alone
    refine ⟨once.sublist (List.take_sublist _ _),fun id member => within (List.mem_of_mem_take member),?_,?_⟩
    · rw [List.length_take,full]
      omega
    · intro _ user early
      obtain ⟨id,rest,first⟩ := List.exists_cons_of_ne_nil some_id
      obtain ⟨item,inside,same⟩ := List.mem_map.mp (within (first ▸ List.mem_cons_self : id ∈ affinity_ids))
      have own : item.config.user_id ∈ (ids_by_user candidates).keys := by
        rw [ids_by_user_keys,user_order,List.mem_eraseDups]
        exact List.mem_map_of_mem inside
      rw [ids_by_user_keys] at own alone
      have only := List.length_eq_one_iff.mp (Nat.le_antisymm alone (List.length_pos_of_mem own))
      obtain ⟨one,only⟩ := only
      rw [only] at own early
      refine ⟨item,inside,?_,?_⟩
      · rw [List.mem_singleton.mp own]
        exact (List.mem_singleton.mp (List.mem_of_mem_take early)).symm
      · obtain ⟨room,many⟩ : ∃ room, batch_size.toNat = room + 1 := ⟨batch_size.toNat - 1,by omega⟩
        rw [same,first,many,List.take_succ_cons]
        exact List.mem_cons_self
  · have seats : (ids_by_user candidates).values.map (seat affinity_ids) ⊆ candidates.map WorkflowItem.workflow_id := by
      intro id member
      obtain ⟨own,inside,rfl⟩ := List.mem_map.mp member
      obtain ⟨⟨user,ids⟩,entry,rfl⟩ := List.mem_map.mp inside
      obtain ⟨item,there,_,same⟩ := seats_own affinity_ids entry
      exact same ▸ List.mem_map_of_mem there
    have room : ([] : List String).length < batch_size.toNat := by rw [List.length_nil]; omega
    have seed_once := extend_nodup List.nodup_nil ((ids_by_user candidates).values.map (seat affinity_ids)) batch_size.toNat
    have seed_within := extend_subset (List.nil_subset _) seats batch_size.toNat
    have seed_takes := extend_takes [] ((ids_by_user candidates).values.map (seat affinity_ids))
      (show ([] : List String).length + batch_size.toNat ≤ batch_size.toNat by rw [List.length_nil]; omega)
    have seed_outcome := extend_outcome ((ids_by_user candidates).values.map (seat affinity_ids)) room
    split
    · rename_i seed filled
      rw [filled] at seed_once seed_within seed_takes seed_outcome
      dsimp only at seed_once seed_within seed_takes seed_outcome
      have counted := distinct_count seed_once seed_within
      exact fair_take seed_once seed_within (by rw [if_pos rfl] at seed_outcome; omega) seed_takes
    · rename_i seed open_seed
      rw [open_seed] at seed_once seed_within seed_takes seed_outcome
      dsimp only at seed_once seed_within seed_takes seed_outcome
      obtain ⟨seed_room,_⟩ := seed_outcome
      have final_once := extend_nodup seed_once affinity_ids batch_size.toNat
      have final_within := extend_subset seed_within within batch_size.toNat
      have final_grows := extend_grows seed affinity_ids batch_size.toNat
      have final_outcome := extend_outcome affinity_ids seed_room
      split
      · rename_i final filled
        rw [filled] at final_once final_within final_grows final_outcome
        dsimp only at final_once final_within final_grows final_outcome
        have counted := distinct_count final_once final_within
        exact fair_take final_once final_within (by rw [if_pos rfl] at final_outcome; omega)
          (fun id member => final_grows.subset (seed_takes member))
      · rename_i final open_final
        rw [open_final] at final_once final_within final_grows final_outcome
        dsimp only at final_once final_within final_grows final_outcome
        obtain ⟨final_room,_⟩ := final_outcome
        have last_once := extend_nodup final_once (candidates.map WorkflowItem.workflow_id) batch_size.toNat
        have last_within := extend_subset final_within (List.Subset.refl _) batch_size.toNat
        have last_outcome := extend_outcome (candidates.map WorkflowItem.workflow_id) final_room
        have last_grows := extend_grows final (candidates.map WorkflowItem.workflow_id) batch_size.toNat
        have counted := distinct_count last_once last_within
        refine fair_take last_once last_within ?_ fun id member => last_grows.subset (final_grows.subset (seed_takes member))
        split at last_outcome
        · omega
        · have all := all_count last_once last_within last_outcome.2
          omega

-- Whatever the distance is, the default policy fills the batch and seats the first users.
theorem select_default_fair (distance : String → String → Rat) (candidates : List WorkflowItem) (batch_size : Int) :
    Fair candidates batch_size (select_default_by distance candidates batch_size) ∧
      select_default candidates batch_size =
        select_default_by (affinity_distance candidates batch_size) candidates batch_size := by
  refine ⟨?_,select_default_general candidates batch_size⟩
  have keys := fun id => mem_by_workflow_id WorkflowItem.runtime_graph candidates id
  have once := (by_workflow_id WorkflowItem.runtime_graph candidates).keys_nodup
  have taken := Agglomeration.choose_taken
    (e := ⟨distance,fun id => ((by_workflow_id WorkflowItem.enqueued_at candidates).get? id).getD 0,(max 1 batch_size).toNat⟩)
    (show 1 ≤ (max 1 batch_size).toNat by omega) once List.nodup_nil (List.nil_subset _)
  refine fill_by_user_fair (nodup_of_subperm taken.within once) (fun id member => (keys id).mp (taken.within.subset member)) ?_
  rw [taken.full,all_count once (fun id member => (keys id).mp member) (fun id member => (keys id).mpr member)]

end Lumilake.Policies

import Mathlib.Data.String.Basic
import Lumilake.JobManager.Clustering

namespace Lumilake
open Selection

-- What the job manager relies on when it lets a policy fill a batch: the ids are a
-- ranking of candidates, none twice, and no more than the batch size.
def SchedulingPolicy.Ranks (policy : SchedulingPolicy σ) : Prop :=
  ∀ state candidates batch_size after ids, (candidates.map WorkflowItem.workflow_id).Nodup → 1 ≤ batch_size →
    policy.select_batch state candidates batch_size = (after,.ok ids) →
    ids.Subperm (candidates.map WorkflowItem.workflow_id) ∧ ids.length ≤ batch_size.toNat

namespace Policies

-- `sorted(candidates, key=key)[:batch_size]`, the shape of four policies.
def first_by {κ : Type} [LinearOrder κ] (key : WorkflowItem → κ) (candidates : List WorkflowItem) (batch_size : Int) :
    List String :=
  ((candidates.mergeSort (fun a b => decide (key a ≤ key b))).take batch_size.toNat).map WorkflowItem.workflow_id

theorem first_by_ranks {κ : Type} [LinearOrder κ] (key : WorkflowItem → κ) (candidates : List WorkflowItem)
    (batch_size : Int) : (first_by key candidates batch_size).Subperm (candidates.map WorkflowItem.workflow_id) ∧
      (first_by key candidates batch_size).length ≤ batch_size.toNat := by
  refine ⟨map_subperm _ (sorted_take _ _ _),?_⟩
  rw [first_by,List.length_map]
  exact List.length_take_le _ _

def fifo : SchedulingPolicy Unit where
  select_batch := fun state candidates batch_size =>
    (state,.ok (first_by (fun item => toLex (item.enqueued_at,item.workflow_id)) candidates batch_size))

theorem fifo_ranks : fifo.Ranks := by
  intro state candidates batch_size after ids _ _ chosen
  cases chosen
  exact first_by_ranks _ _ _

-- Estimated items sort before unestimated ones; `signed` turns the larger area first for lpt.
def area_key (signed : Rat → Rat) (estimate_area : WorkflowItem → Option Rat) (item : WorkflowItem) :
    Nat ×ₗ Rat ×ₗ Time ×ₗ String :=
  match estimate_area item with
  | none => toLex (1,toLex (0,toLex (item.enqueued_at,item.workflow_id)))
  | some area => toLex (0,toLex (signed area,toLex (item.enqueued_at,item.workflow_id)))

def by_area (signed : Rat → Rat) (estimate_area : WorkflowItem → Option Rat) : SchedulingPolicy Unit where
  select_batch := fun state candidates batch_size =>
    (state,.ok (first_by (area_key signed estimate_area) candidates batch_size))

def spt (estimate_area : WorkflowItem → Option Rat) : SchedulingPolicy Unit := by_area id estimate_area
def lpt (estimate_area : WorkflowItem → Option Rat) : SchedulingPolicy Unit := by_area (- ·) estimate_area

theorem by_area_ranks (signed : Rat → Rat) (estimate_area : WorkflowItem → Option Rat) :
    (by_area signed estimate_area).Ranks := by
  intro state candidates batch_size after ids _ _ chosen
  cases chosen
  exact first_by_ranks _ _ _

-- `chain_id or request_id`: an empty chain id is none.
def chain_key (item : WorkflowItem) : String :=
  match item.config.chain_id with
  | some chain => if chain = "" then item.request_id else chain
  | none => item.request_id

def charge (estimate_area : WorkflowItem → Option Rat) (attained : Dict String Rat) (charged : WorkflowItem) :
    Dict String Rat :=
  match estimate_area charged with
  | none => attained
  | some area => attained.set (chain_key charged) ((attained.get? (chain_key charged)).getD 0 + area)

-- The state is the service that every chain has attained.
def plas (estimate_area : WorkflowItem → Option Rat) : SchedulingPolicy (Dict String Rat) where
  select_batch := fun attained candidates batch_size =>
    (attained,.ok (first_by (fun item => toLex ((attained.get? (chain_key item)).getD 0,
      toLex (item.enqueued_at,item.workflow_id))) candidates batch_size))
  on_commit := fun attained workflows => workflows.foldl (charge estimate_area) attained

theorem plas_ranks (estimate_area : WorkflowItem → Option Rat) : (plas estimate_area).Ranks := by
  intro state candidates batch_size after ids _ _ chosen
  cases chosen
  exact first_by_ranks _ _ _

def by_workflow_id (value : WorkflowItem → α) (candidates : List WorkflowItem) : Dict String α :=
  candidates.foldl (fun found item => found.set item.workflow_id (value item)) Dict.empty

theorem mem_by_workflow_id (value : WorkflowItem → α) (candidates : List WorkflowItem) (id : String) :
    id ∈ (by_workflow_id value candidates).keys ↔ id ∈ candidates.map WorkflowItem.workflow_id := by
  unfold by_workflow_id
  rw [Dict.mem_keys_foldl_set]
  simp

def affinity_ids (candidates : List WorkflowItem) (batch_size : Int) (pinned_ids : List String) : List String :=
  Clustering.select_affinity_batch_ids (by_workflow_id WorkflowItem.runtime_graph candidates)
    (by_workflow_id WorkflowItem.enqueued_at candidates) batch_size pinned_ids

theorem affinity_ids_choice (candidates : List WorkflowItem) (batch_size : Int) (pinned_ids : List String) :
    Clustering.Choice (max 1 batch_size).toNat (candidates.map WorkflowItem.workflow_id)
      (affinity_ids candidates batch_size pinned_ids) :=
  (Clustering.select_affinity_choice _ _ _ _).of_subperm
    (List.subperm_of_subset (Dict.keys_nodup _) fun id => (mem_by_workflow_id _ _ id).mp)

-- The ids of every user, users in the order of their first candidate.
def ids_by_user (candidates : List WorkflowItem) : Dict String (List String) :=
  candidates.foldl (fun found item =>
    found.set item.config.user_id ((found.get? item.config.user_id).getD [] ++ [item.workflow_id])) Dict.empty

-- `preferred or user_to_ids[user_id][0]`
def seat (selected_ids ids : List String) : String :=
  match (ids.find? (· ∈ selected_ids)).filter (· ≠ "") with
  | some preferred => preferred
  | none => ids.headD ""

def select_default (candidates : List WorkflowItem) (batch_size : Int) : List String :=
  let size := batch_size.toNat
  let affinity_ids := affinity_ids candidates batch_size []
  if batch_size ≤ 1 then affinity_ids.take size
  else
    let selected_ids := affinity_ids.filter (· ∈ candidates.map WorkflowItem.workflow_id)
    let users := ids_by_user candidates
    if selected_ids = [] then []
    else if users.keys.length ≤ 1 then selected_ids.take size
    else
      match extend_until size [] (users.values.map (seat selected_ids)) with
      | (fair_seed,true) => fair_seed.take size
      | (fair_seed,false) =>
        match extend_until size fair_seed selected_ids with
        | (final_ids,true) => final_ids.take size
        | (final_ids,false) => (extend_until size final_ids (candidates.map WorkflowItem.workflow_id)).1.take size

-- Every user of the table has ids, all of its own candidates.
theorem ids_by_user_own {candidates : List WorkflowItem} {user : String} {ids : List String}
    (found : (ids_by_user candidates).get? user = some ids) :
    ids ≠ [] ∧ ∀ id ∈ ids, ∃ item ∈ candidates, item.config.user_id = user ∧ item.workflow_id = id := by
  have loop : ∀ (items : List WorkflowItem) (users : Dict String (List String)), items ⊆ candidates →
      (∀ user ids, users.get? user = some ids → ids ≠ [] ∧
        ∀ id ∈ ids, ∃ item ∈ candidates, item.config.user_id = user ∧ item.workflow_id = id) →
      ∀ user ids, (items.foldl (fun found item => found.set item.config.user_id
        ((found.get? item.config.user_id).getD [] ++ [item.workflow_id])) users).get? user = some ids → ids ≠ [] ∧
        ∀ id ∈ ids, ∃ item ∈ candidates, item.config.user_id = user ∧ item.workflow_id = id := by
    intro items
    induction items with
    | nil => exact fun _ _ kept => kept
    | cons item rest ih =>
        intro users inside kept
        obtain ⟨first,later⟩ := List.cons_subset.mp inside
        refine ih _ later ?_
        intro user ids here
        by_cases same : user = item.config.user_id
        · subst same
          rw [Dict.get?_set_self] at here
          cases here
          refine ⟨by simp,fun id member => ?_⟩
          rcases List.mem_append.mp member with old | new
          · cases seen : users.get? item.config.user_id with
            | none => simp [seen] at old
            | some ids =>
                rw [seen] at old
                exact (kept _ ids seen).2 id old
          · exact ⟨item,first,rfl,(List.mem_singleton.mp new).symm⟩
        · rw [Dict.get?_set_ne _ _ same] at here
          exact kept user ids here
  exact loop candidates Dict.empty (List.Subset.refl _) (by simp) user ids found

theorem ids_by_user_seats {candidates : List WorkflowItem} {user : String} {ids : List String}
    (found : (ids_by_user candidates).get? user = some ids) :
    ids ≠ [] ∧ ids ⊆ candidates.map WorkflowItem.workflow_id := by
  obtain ⟨some_id,own⟩ := ids_by_user_own found
  refine ⟨some_id,fun id member => ?_⟩
  obtain ⟨item,inside,_,rfl⟩ := own id member
  exact List.mem_map_of_mem inside

theorem seat_mem (selected_ids : List String) {ids : List String} (some_id : ids ≠ []) : seat selected_ids ids ∈ ids := by
  unfold seat
  split
  · rename_i preferred found
    obtain ⟨first,_⟩ := Option.filter_eq_some_iff.mp found
    exact List.mem_of_find?_eq_some first
  · cases ids with
    | nil => exact absurd rfl some_id
    | cons id rest => exact List.mem_cons_self

theorem select_default_ranks (candidates : List WorkflowItem) {batch_size : Int} (some_room : 1 ≤ batch_size)
    (distinct : (candidates.map WorkflowItem.workflow_id).Nodup) :
    (select_default candidates batch_size).Subperm (candidates.map WorkflowItem.workflow_id) ∧
      (select_default candidates batch_size).length ≤ batch_size.toNat := by
  have choice := affinity_ids_choice candidates batch_size []
  rw [max_eq_right some_room] at choice
  have cut : ∀ ids : List String, ids.Nodup → ids ⊆ candidates.map WorkflowItem.workflow_id →
      (ids.take batch_size.toNat).Subperm (candidates.map WorkflowItem.workflow_id) ∧
        (ids.take batch_size.toNat).length ≤ batch_size.toNat := fun ids apart inside =>
    ⟨(List.take_sublist _ _).subperm.trans (List.subperm_of_subset apart inside),List.length_take_le _ _⟩
  have affinity_apart := nodup_of_subperm choice.within distinct
  have affinity_inside := choice.within.subset
  unfold select_default
  dsimp only
  generalize affinity : affinity_ids candidates batch_size [] = ids at *
  have selected_apart := affinity_apart.filter (fun id => decide (id ∈ candidates.map WorkflowItem.workflow_id))
  have selected_inside : ids.filter (fun id => decide (id ∈ candidates.map WorkflowItem.workflow_id)) ⊆
      candidates.map WorkflowItem.workflow_id := fun id member => affinity_inside (List.mem_filter.mp member).1
  generalize ids.filter (fun id => decide (id ∈ candidates.map WorkflowItem.workflow_id)) = selected at *
  have seats : (ids_by_user candidates).values.map (seat selected) ⊆ candidates.map WorkflowItem.workflow_id := by
    intro id member
    obtain ⟨own,inside,rfl⟩ := List.mem_map.mp member
    obtain ⟨⟨user,ids⟩,entry,rfl⟩ := List.mem_map.mp inside
    obtain ⟨some_id,known⟩ := ids_by_user_seats (Dict.get?_eq_some.mpr entry)
    exact known (seat_mem selected some_id)
  split
  · exact cut ids affinity_apart affinity_inside
  · split
    · exact ⟨List.nil_subperm,Nat.zero_le _⟩
    · split
      · exact cut selected selected_apart selected_inside
      · have seed_apart := extend_nodup List.nodup_nil ((ids_by_user candidates).values.map (seat selected)) batch_size.toNat
        have seed_inside := extend_subset (List.nil_subset _) seats batch_size.toNat
        split
        · rename_i seed full
          rw [full] at seed_apart seed_inside
          exact cut seed seed_apart seed_inside
        · rename_i seed more
          rw [more] at seed_apart seed_inside
          have final_apart := extend_nodup seed_apart selected batch_size.toNat
          have final_inside := extend_subset seed_inside selected_inside batch_size.toNat
          split
          · rename_i final full
            rw [full] at final_apart final_inside
            exact cut final final_apart final_inside
          · rename_i final more
            rw [more] at final_apart final_inside
            exact cut _ (extend_nodup final_apart _ _) (extend_subset final_inside (List.Subset.refl _) _)

def default_policy : SchedulingPolicy Unit where
  select_batch := fun state candidates batch_size => (state,.ok (select_default candidates batch_size))

theorem default_ranks : default_policy.Ranks := by
  intro state candidates batch_size after ids distinct some_room chosen
  cases chosen
  exact select_default_ranks candidates some_room distinct

end Policies
end Lumilake

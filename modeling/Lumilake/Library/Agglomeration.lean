import Mathlib.Algebra.Order.Ring.Unbundled.Rat
import Mathlib.Data.List.MinMax
import Mathlib.Data.Prod.Lex
import Lumilake.Library.Selection

-- Choosing `size` members of a pool by agglomerative clustering under any distance:
-- clusters merge by average linkage, and each that is large enough offers the subset
-- of it that lies closest together.
namespace Agglomeration
open Selection
variable {α : Type u} [DecidableEq α]

structure Scene (α : Type u) where
  distance : α → α → Rat
  age : α → Rat
  size : Nat

variable (e : Scene α)

def average (distances : List Rat) : Rat :=
  if distances = [] then 0 else distances.foldl (· + ·) 0 / (distances.length : Rat)

def pair_distances : List α → List Rat
  | [] => []
  | first :: rest => rest.map (e.distance first) ++ pair_distances rest

def score (chosen : List α) : Rat := if chosen.length ≤ 1 then 0 else average (pair_distances e chosen)

def linkage (a b : List α) : Rat := average (a.flatMap (fun first => b.map (e.distance first)))

def next (chosen remaining : List α) : Option α :=
  remaining.argmin (fun x => toLex (if chosen = [] then 1 else average (chosen.map (e.distance x)),e.age x))

def oldest_first (members : List α) : List α :=
  (members.mergeSort (fun a b => decide (e.age a ≤ e.age b))).take e.size

structure Best (α : Type u) where
  members : List α
  score : Rat
  oldest : Rat

-- A best of age zero counts as none at all when scores tie.
def consider (best : Option (Best α)) (subset : List α) : Option (Best α) :=
  let oldest := ((subset.map e.age).min?).getD 0
  match best with
  | none => some ⟨subset,score e subset,oldest⟩
  | some b =>
    if score e subset < b.score ∨ (score e subset = b.score ∧ (b.oldest = 0 ∨ oldest < b.oldest)) then
      some ⟨subset,score e subset,oldest⟩ else best

def grow_from (pool : List α) (seed : α) : List α := greedy (next e) (e.size - 1) [seed] (pool.filter (· ≠ seed))

def select_subset (pool pinned : List α) : List α :=
  if pool.length ≤ e.size then pool
  else if e.size ≤ pinned.length then oldest_first e pinned
  else if pinned ≠ [] then greedy (next e) (e.size - pinned.length) pinned (pool.filter (· ∉ pinned))
  else match pool.foldl (fun best seed => consider e best (grow_from e pool seed)) none with
    | none => pool.take e.size
    | some best => best.members

def consider_cluster (pinned : List α) (best : Option (Best α)) (cluster : List α) : Option (Best α) :=
  if pinned.any (· ∉ cluster) then best
  else if cluster.length < e.size then best
  else consider e best (select_subset e cluster pinned)

def index_pairs (n : Nat) : List (Nat × Nat) :=
  (List.range n).flatMap (fun i => (List.range' (i + 1) (n - (i + 1))).map (fun j => (i,j)))

def closest_pair (clusters : List (List α)) : Option (Nat × Nat) :=
  (index_pairs clusters.length).argmin (fun pair => linkage e (clusters[pair.1]?.getD []) (clusters[pair.2]?.getD []))

def merge (clusters : List (List α)) (i j : Nat) : List (List α) :=
  (clusters.eraseIdx j).eraseIdx i ++ [clusters[i]?.getD [] ++ clusters[j]?.getD []]

def agglomerate (pinned : List α) : Nat → List (List α) → Option (Best α) → Option (Best α)
  | 0,_,best => best
  | turns + 1,clusters,best =>
    if clusters.length ≤ 1 then best
    else match closest_pair e clusters with
      | none => best
      | some (i,j) =>
        agglomerate pinned turns (merge clusters i j)
          (consider_cluster e pinned best (clusters[i]?.getD [] ++ clusters[j]?.getD []))

def choose (pool pinned : List α) : List α :=
  if pool.length ≤ e.size then pool
  else if e.size ≤ pinned.length then oldest_first e pinned
  else
    let clusters := pool.map ([·])
    match agglomerate e pinned clusters.length clusters (clusters.foldl (consider_cluster e pinned) none) with
    | none => select_subset e pool pinned
    | some best => best.members

-- Members of a pool, each once, and exactly as many as asked for.
structure Taken (size : Nat) (pool chosen : List α) : Prop where
  within : chosen.Subperm pool
  full : chosen.length = size

variable {e}

omit [DecidableEq α] in
theorem Taken.of_subperm (taken : Taken size pool chosen) (inside : pool.Subperm (whole : List α)) : Taken size whole chosen :=
  ⟨taken.within.trans inside,taken.full⟩

omit [DecidableEq α] in
theorem next_mem (picked : next e chosen remaining = some x) : x ∈ remaining := List.argmin_mem picked

omit [DecidableEq α] in
theorem next_fails (stuck : next e chosen remaining = none) : remaining = [] := List.argmin_eq_none.mp stuck

omit [DecidableEq α] in
theorem oldest_first_taken (enough : e.size ≤ members.length) : Taken e.size members (oldest_first e members) :=
  ⟨sorted_take _ members _,by rw [oldest_first,List.length_take,List.length_mergeSort]; omega⟩

theorem seeded_taken {seeds pool : List α} (distinct : seeds.Nodup) (inside : seeds ⊆ pool) (apart : pool.Nodup)
    (room : seeds.length ≤ e.size) (enough : e.size ≤ pool.length) :
    Taken e.size pool (greedy (next e) (e.size - seeds.length) seeds (pool.filter (fun x => decide (x ∉ seeds)))) := by
  refine ⟨(greedy_subperm (fun _ _ _ => next_mem) _ _ _).trans (seeded_subperm distinct inside apart),?_⟩
  have left := length_unseeded seeds apart
  rw [greedy_full (fun _ _ _ => next_mem) (fun _ _ => next_fails)]
  omega

omit [DecidableEq α] in
theorem consider_taken (best : ∀ b ∈ found, Taken e.size pool b.members) (subset : Taken e.size pool chosen) :
    ∀ b ∈ consider e found chosen, Taken e.size pool b.members := by
  intro b considered
  unfold consider at considered
  dsimp only at considered
  split at considered
  · cases considered; exact subset
  · split at considered
    · cases considered; exact subset
    · exact best b considered

theorem grow_from_taken (some_room : 1 ≤ e.size) (apart : pool.Nodup) (enough : e.size ≤ pool.length) (member : seed ∈ pool) :
    Taken e.size pool (grow_from e pool seed) := by
  have seeded := seeded_taken (e := e) (List.nodup_singleton seed) (List.cons_subset.mpr ⟨member,List.nil_subset _⟩)
    apart some_room enough
  simpa only [grow_from,List.mem_singleton,List.length_singleton] using seeded

theorem select_subset_taken {pinned pool : List α} (some_room : 1 ≤ e.size) (apart : pool.Nodup) (distinct : pinned.Nodup)
    (inside : pinned ⊆ pool) (enough : e.size ≤ pool.length) : Taken e.size pool (select_subset e pool pinned) := by
  unfold select_subset
  split
  · rename_i small; exact ⟨List.Subperm.refl pool,by omega⟩
  · split
    · rename_i many
      exact (oldest_first_taken many).of_subperm (List.subperm_of_subset distinct inside)
    · rename_i room
      split
      · exact seeded_taken distinct inside apart (by omega) enough
      · have seeds : ∀ (seeds : List α), seeds ⊆ pool → ∀ found : Option (Best α),
            (∀ b ∈ found, Taken e.size pool b.members) →
            ∀ b ∈ seeds.foldl (fun best seed => consider e best (grow_from e pool seed)) found,
              Taken e.size pool b.members := by
          intro seeds
          induction seeds with
          | nil => exact fun _ _ best => best
          | cons seed rest ih =>
              intro inside found best
              obtain ⟨first,later⟩ := List.cons_subset.mp inside
              exact ih later _ (consider_taken best (grow_from_taken some_room apart enough first))
        have all := seeds pool (List.Subset.refl pool) none (by simp)
        split
        · exact ⟨(List.take_sublist _ _).subperm,by rw [List.length_take]; omega⟩
        · rename_i best chosen; exact all best chosen

theorem consider_cluster_taken {pinned pool cluster : List α} (some_room : 1 ≤ e.size) (apart : pool.Nodup)
    (distinct : pinned.Nodup) (part : cluster.Subperm pool) (best : ∀ b ∈ found, Taken e.size pool b.members) :
    ∀ b ∈ consider_cluster e pinned found cluster, Taken e.size pool b.members := by
  unfold consider_cluster
  split
  · exact best
  · rename_i kept
    split
    · exact best
    · rename_i large
      have inside : pinned ⊆ cluster := by
        intro x member
        by_contra missing
        exact kept (List.any_eq_true.mpr ⟨x,member,decide_eq_true missing⟩)
      exact consider_taken best
        ((select_subset_taken some_room (nodup_of_subperm part apart) distinct inside (by omega)).of_subperm part)

theorem mem_index_pairs : (i,j) ∈ index_pairs n ↔ i < j ∧ j < n := by
  simp only [index_pairs,List.mem_flatMap,List.mem_range,List.mem_map,List.mem_range'_1,Prod.mk.injEq]
  constructor
  · rintro ⟨a,_,b,_,rfl,rfl⟩; omega
  · intro h; exact ⟨i,by omega,j,by omega,rfl,rfl⟩

omit [DecidableEq α] in
-- A merge moves members between clusters and loses none.
theorem merge_flatten {clusters : List (List α)} (order : i < j) (last : j < clusters.length) :
    (merge clusters i j).flatten.Perm clusters.flatten := by
  have first : i < (clusters.eraseIdx j).length := by rw [List.length_eraseIdx_of_lt last]; omega
  have same : (clusters.eraseIdx j)[i] = clusters[i] := List.getElem_eraseIdx_of_lt first order
  have one := List.getElem_cons_eraseIdx_perm last
  have two := List.getElem_cons_eraseIdx_perm first
  rw [same] at two
  unfold merge
  rw [List.getElem?_eq_getElem (order.trans last),List.getElem?_eq_getElem last]
  simp only [Option.getD_some,List.flatten_append,List.flatten_singleton]
  have parts := ((two.cons clusters[j]).trans one).flatten
  simp only [List.flatten_cons] at parts
  refine List.perm_append_comm.trans ((List.perm_append_comm.append_right _).trans ?_)
  rw [List.append_assoc]
  exact parts

omit [DecidableEq α] in
theorem cluster_subperm {clusters : List (List α)} (whole : clusters.flatten.Perm pool) (member : cluster ∈ clusters) :
    cluster.Subperm pool := (List.sublist_flatten_of_mem member).subperm.trans whole.subperm

omit [DecidableEq α] in
theorem closest_pair_order {clusters : List (List α)} (closest : closest_pair e clusters = some (i,j)) :
    i < j ∧ j < clusters.length := mem_index_pairs.mp (List.argmin_mem closest)

theorem agglomerate_taken {pinned pool : List α} (some_room : 1 ≤ e.size) (apart : pool.Nodup) (distinct : pinned.Nodup)
    (turns : Nat) {clusters : List (List α)} (whole : clusters.flatten.Perm pool)
    (best : ∀ b ∈ found, Taken e.size pool b.members) :
    ∀ b ∈ agglomerate e pinned turns clusters found, Taken e.size pool b.members := by
  induction turns generalizing clusters found with
  | zero => exact best
  | succ turns ih =>
      unfold agglomerate
      split
      · exact best
      · split
        · exact best
        · rename_i i j closest
          obtain ⟨order,last⟩ := closest_pair_order closest
          have merged := (merge_flatten order last).trans whole
          have newest : clusters[i]?.getD [] ++ clusters[j]?.getD [] ∈ merge clusters i j := by
            simp [merge]
          exact ih merged (consider_cluster_taken some_room apart distinct (cluster_subperm merged newest) best)

-- Whatever the distances are, the choice fills the size or takes the whole pool.
theorem choose_taken {pinned pool : List α} (some_room : 1 ≤ e.size) (apart : pool.Nodup) (distinct : pinned.Nodup)
    (inside : pinned ⊆ pool) : Taken (min e.size pool.length) pool (choose e pool pinned) := by
  unfold choose
  split
  · rename_i small
    exact ⟨List.Subperm.refl _,by omega⟩
  · rename_i large
    rw [Nat.min_eq_left (by omega)]
    split
    · rename_i many
      exact (oldest_first_taken many).of_subperm (List.subperm_of_subset distinct inside)
    · have whole : (pool.map ([·])).flatten.Perm pool := by
        rw [← List.flatMap_def,List.flatMap_singleton']
      have start : ∀ (clusters : List (List α)), (∀ cluster ∈ clusters, cluster.Subperm pool) →
          ∀ found : Option (Best α), (∀ b ∈ found, Taken e.size pool b.members) →
          ∀ b ∈ clusters.foldl (consider_cluster e pinned) found, Taken e.size pool b.members := by
        intro clusters
        induction clusters with
        | nil => exact fun _ _ best => best
        | cons cluster rest ih =>
            intro parts found best
            exact ih (fun c member => parts c (List.mem_cons_of_mem _ member)) _
              (consider_cluster_taken some_room apart distinct (parts cluster List.mem_cons_self) best)
      dsimp only
      split
      · exact select_subset_taken some_room apart distinct inside (by omega)
      · rename_i best chosen
        exact agglomerate_taken some_room apart distinct _ whole
          (start _ (fun cluster member => cluster_subperm whole member) none (by simp)) best chosen

end Agglomeration

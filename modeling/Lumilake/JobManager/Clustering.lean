import Mathlib.Data.Finset.Card
import Mathlib.Data.Prod.Lex
import Mathlib.Algebra.Order.Ring.Unbundled.Rat
import Lumilake.Library.Agglomeration
import Lumilake.JobManager.Base

namespace Lumilake.Clustering
open Selection

def MODEL_WEIGHT : Rat := 7/10
def DATA_WEIGHT : Rat := 2/10
def SIZE_WEIGHT : Rat := 1/10

structure WorkflowAffinity where
  models : Finset String
  system_prompt_tokens : Finset String
  node_count : Nat

def is_llm_backend (op : RuntimeOp) : Bool := op.backend ∈ ["vllm","transformers","diffusers"]

-- A dict that stands in a list is a message and is not searched any further.
def system_message (message : Spec) : List String :=
  match Value.get? message "role",Value.get? message "content" with
  | some (.str role),some (.str content) => if role = "system" then [content] else []
  | _,_ => []

mutual
def extract_system_prompts : Value → List String
  | .dict entries => extract_entry_prompts entries
  | .list items => extract_item_prompts items
  | _ => []
def extract_entry_prompts : Spec → List String
  | [] => []
  | (key,value) :: entries =>
    (if key = "messages" then
      match value with
      | .list items => extract_item_prompts items
      | _ => []
    else extract_system_prompts value) ++ extract_entry_prompts entries
def extract_item_prompts : List Value → List String
  | [] => []
  | .dict message :: items => system_message message ++ extract_item_prompts items
  | item :: items => extract_system_prompts item ++ extract_item_prompts items
end

-- Outside ASCII, only these two characters have an ASCII letter in their lower case,
-- and only ASCII letters, digits and the underscore make a token.
def lower_char (c : Char) : List Char :=
  if c = '\u212A' then ['k'] else if c = '\u0130' then ['i','\u0307'] else [c.toLower]

def is_word (c : Char) : Bool := c.isAlphanum || c = '_'

def words : List Char → List Char → List String
  | word,[] => if word = [] then [] else [String.ofList word.reverse]
  | word,c :: rest =>
    if is_word c then words (c :: word) rest
    else (if word = [] then [] else [String.ofList word.reverse]) ++ words [] rest

def tokenize_prompts (prompts : List String) : Finset String :=
  (prompts.flatMap (fun prompt => words [] (prompt.toList.flatMap lower_char))).toFinset

def build_affinity (graph : RuntimeGraph) : WorkflowAffinity where
  models := ((graph.nodes.values.filter (fun op => is_llm_backend op && decide (op.model ≠ ""))).map
    RuntimeOp.model).toFinset
  system_prompt_tokens := tokenize_prompts (graph.nodes.values.flatMap (fun op => extract_system_prompts (.dict op.data_spec)))
  node_count := graph.node_count

def jaccard (left right : Finset String) : Rat :=
  if left = ∅ ∨ right = ∅ then 0 else ((left ∩ right).card : Rat) / ((left ∪ right).card : Rat)

def size_affinity (first second : WorkflowAffinity) : Rat :=
  let max_nodes := max first.node_count second.node_count
  if max_nodes = 0 then 1
  else 1 - ((max first.node_count second.node_count - min first.node_count second.node_count : Nat) : Rat) / (max_nodes : Rat)

-- What the selection's local functions share. Distances are not cached here.
structure Scene where
  affinity : Dict String WorkflowAffinity
  enqueued_at : Dict String Time
  batch_size : Nat

def Scene.age (e : Scene) (workflow_id : String) : Time := (e.enqueued_at.get? workflow_id).getD 0

def distance (e : Scene) (first second : String) : Rat :=
  if first = second then 0
  else match e.affinity.get? first,e.affinity.get? second with
    | some first_aff,some second_aff =>
      let score := MODEL_WEIGHT * jaccard first_aff.models second_aff.models +
        DATA_WEIGHT * jaccard first_aff.system_prompt_tokens second_aff.system_prompt_tokens +
        SIZE_WEIGHT * size_affinity first_aff second_aff
      1 - max 0 (min 1 score)
    | _,_ => 0

def average (distances : List Rat) : Rat :=
  if distances = [] then 0 else distances.foldl (· + ·) 0 / (distances.length : Rat)

def avg_distance (e : Scene) (candidate_id : String) (selected_ids : List String) : Rat :=
  if selected_ids = [] then 1 else average (selected_ids.map (distance e candidate_id))

def pair_distances (e : Scene) : List String → List Rat
  | [] => []
  | first :: rest => rest.map (distance e first) ++ pair_distances e rest

def batch_score (e : Scene) (selected_ids : List String) : Rat :=
  if selected_ids.length ≤ 1 then 0 else average (pair_distances e selected_ids)

def cluster_distance (e : Scene) (cluster_a cluster_b : List String) : Rat :=
  average (cluster_a.flatMap (fun first => cluster_b.map (distance e first)))

def next_id (e : Scene) (selected remaining : List String) : Option String :=
  remaining.argmin (fun cid => toLex (avg_distance e cid selected,e.age cid))

def oldest_first (e : Scene) (ids : List String) : List String :=
  (ids.mergeSort (fun a b => decide (e.age a ≤ e.age b))).take e.batch_size

structure Best where
  ids : List String
  score : Rat
  oldest : Time

-- `oldest < (best_oldest or inf)`: a best of age zero counts as none at all.
def consider (e : Scene) (best : Option Best) (subset : List String) : Option Best :=
  let score := batch_score e subset
  let oldest := ((subset.map e.age).min?).getD 0
  match best with
  | none => some ⟨subset,score,oldest⟩
  | some b =>
    if score < b.score ∨ (score = b.score ∧ (b.oldest = 0 ∨ oldest < b.oldest)) then some ⟨subset,score,oldest⟩ else best

def grow_from (e : Scene) (candidate_ids : List String) (seed_id : String) : List String :=
  greedy (next_id e) (e.batch_size - 1) [seed_id] (candidate_ids.filter (· ≠ seed_id))

def select_subset (e : Scene) (candidate_ids pinned : List String) : List String :=
  if candidate_ids.length ≤ e.batch_size then candidate_ids
  else if e.batch_size ≤ pinned.length then oldest_first e pinned
  else if pinned ≠ [] then
    greedy (next_id e) (e.batch_size - pinned.length) pinned (candidate_ids.filter (· ∉ pinned))
  else match candidate_ids.foldl (fun best seed_id => consider e best (grow_from e candidate_ids seed_id)) none with
    | none => candidate_ids.take e.batch_size
    | some best => best.ids

def consider_cluster (e : Scene) (pinned : List String) (best : Option Best) (cluster_ids : List String) : Option Best :=
  if pinned.any (· ∉ cluster_ids) then best
  else if cluster_ids.length < e.batch_size then best
  else consider e best (select_subset e cluster_ids pinned)

def index_pairs (n : Nat) : List (Nat × Nat) :=
  (List.range n).flatMap (fun i => (List.range' (i + 1) (n - (i + 1))).map (fun j => (i,j)))

def closest_pair (e : Scene) (clusters : List (List String)) : Option (Nat × Nat) :=
  (index_pairs clusters.length).argmin (fun pair =>
    cluster_distance e (clusters[pair.1]?.getD []) (clusters[pair.2]?.getD []))

def merge_clusters (clusters : List (List String)) (i j : Nat) : List (List String) :=
  (clusters.eraseIdx j).eraseIdx i ++ [clusters[i]?.getD [] ++ clusters[j]?.getD []]

-- Every turn leaves one cluster fewer, so as many turns as clusters are enough.
def agglomerate (e : Scene) (pinned : List String) : Nat → List (List String) → Option Best → Option Best
  | 0,_,best => best
  | turns + 1,clusters,best =>
    if clusters.length ≤ 1 then best
    else match closest_pair e clusters with
      | none => best
      | some (i,j) =>
        agglomerate e pinned turns (merge_clusters clusters i j)
          (consider_cluster e pinned best (clusters[i]?.getD [] ++ clusters[j]?.getD []))

def normalize_pinned (candidate_ids pinned_ids : List String) : List String :=
  pinned_ids.foldl (fun seen id => if id ∉ candidate_ids ∨ id ∈ seen then seen else seen ++ [id]) []

def select_affinity_batch_ids (graphs : Dict String RuntimeGraph) (enqueued_at : Dict String Time) (batch_size : Int)
    (pinned_ids : List String := []) : List String :=
  let size := (if batch_size ≤ 0 then 1 else batch_size).toNat
  let candidate_ids := graphs.keys
  if candidate_ids.length ≤ size then candidate_ids
  else
    let e : Scene := ⟨graphs.mapValues (fun _ graph => build_affinity graph),enqueued_at,size⟩
    let pinned := normalize_pinned candidate_ids pinned_ids
    if size ≤ pinned.length then oldest_first e pinned
    else
      let clusters := candidate_ids.map ([·])
      match agglomerate e pinned clusters.length clusters (clusters.foldl (consider_cluster e pinned) none) with
      | none => select_subset e candidate_ids pinned
      | some best => best.ids

-- A choice of ids: some of the pool, each once, and no more than fit in a batch.
structure Choice (size : Nat) (pool ids : List String) : Prop where
  within : ids.Subperm pool
  fits : ids.length ≤ size

theorem Choice.of_subperm (choice : Choice size pool ids) (inside : pool.Subperm whole) : Choice size whole ids :=
  ⟨choice.within.trans inside,choice.fits⟩

-- The selection is agglomerative clustering under the affinity distance.
def Scene.general (e : Scene) : Agglomeration.Scene String := ⟨distance e,e.age,e.batch_size⟩
def Best.general (best : Best) : Agglomeration.Best String := ⟨best.ids,best.score,best.oldest⟩

section
variable (e : Scene)

theorem pair_distances_general (ids : List String) : pair_distances e ids = Agglomeration.pair_distances e.general ids := by
  induction ids with
  | nil => rfl
  | cons first rest ih => rw [pair_distances,Agglomeration.pair_distances,ih]; rfl

theorem batch_score_general (ids : List String) : batch_score e ids = Agglomeration.score e.general ids := by
  unfold batch_score Agglomeration.score
  rw [pair_distances_general]
  rfl

theorem consider_general (best : Option Best) (subset : List String) :
    (consider e best subset).map Best.general = Agglomeration.consider e.general (best.map Best.general) subset := by
  unfold consider Agglomeration.consider
  rw [batch_score_general]
  cases best with
  | none => rfl
  | some b =>
      dsimp only [Option.map_some]
      exact apply_ite (Option.map Best.general) _ _ _

theorem select_subset_general (ids pinned : List String) :
    select_subset e ids pinned = Agglomeration.select_subset e.general ids pinned := by
  have seeds : ∀ (seeds : List String) (best : Option Best),
      (seeds.foldl (fun best seed_id => consider e best (grow_from e ids seed_id)) best).map Best.general =
        seeds.foldl (fun best seed => Agglomeration.consider e.general best (Agglomeration.grow_from e.general ids seed))
          (best.map Best.general) := by
    intro seeds
    induction seeds with
    | nil => exact fun _ => rfl
    | cons seed rest ih =>
        intro best
        rw [List.foldl_cons,ih,consider_general]
        rfl
  unfold select_subset Agglomeration.select_subset
  have whole := seeds ids none
  rw [Option.map_none] at whole
  rw [← whole]
  cases ids.foldl (fun best seed_id => consider e best (grow_from e ids seed_id)) none <;> rfl

theorem consider_cluster_general (pinned : List String) (best : Option Best) (cluster_ids : List String) :
    (consider_cluster e pinned best cluster_ids).map Best.general =
      Agglomeration.consider_cluster e.general pinned (best.map Best.general) cluster_ids := by
  unfold consider_cluster Agglomeration.consider_cluster
  split
  · rfl
  · split
    · rename_i small
      exact (if_pos small).symm
    · rename_i large
      rw [consider_general,select_subset_general]
      exact (if_neg large).symm

theorem agglomerate_general (pinned : List String) (turns : Nat) (clusters : List (List String)) (best : Option Best) :
    (agglomerate e pinned turns clusters best).map Best.general =
      Agglomeration.agglomerate e.general pinned turns clusters (best.map Best.general) := by
  induction turns generalizing clusters best with
  | zero => rfl
  | succ turns ih =>
      unfold agglomerate Agglomeration.agglomerate
      split
      · rfl
      · have same : closest_pair e clusters = Agglomeration.closest_pair e.general clusters := rfl
        rw [same]
        cases Agglomeration.closest_pair e.general clusters with
        | none => rfl
        | some pair => exact (ih _ _).trans (by rw [consider_cluster_general]; rfl)

end

theorem normalize_pinned_spec (candidate_ids pinned_ids : List String) :
    (normalize_pinned candidate_ids pinned_ids).Nodup ∧ normalize_pinned candidate_ids pinned_ids ⊆ candidate_ids := by
  have loop : ∀ seen : List String, seen.Nodup ∧ seen ⊆ candidate_ids →
      (pinned_ids.foldl (fun seen id => if id ∉ candidate_ids ∨ id ∈ seen then seen else seen ++ [id]) seen).Nodup ∧
      pinned_ids.foldl (fun seen id => if id ∉ candidate_ids ∨ id ∈ seen then seen else seen ++ [id]) seen ⊆
        candidate_ids := by
    induction pinned_ids with
    | nil => exact fun _ kept => kept
    | cons id rest ih =>
        intro seen kept
        rw [List.foldl_cons]
        apply ih
        split
        · exact kept
        · rename_i fresh
          rw [not_or,not_not] at fresh
          refine ⟨List.nodup_append.mpr ⟨kept.1,List.nodup_singleton id,?_⟩,
            List.append_subset.mpr ⟨kept.2,List.cons_subset.mpr ⟨fresh.1,List.nil_subset _⟩⟩⟩
          intro x old y last same
          rw [List.mem_singleton] at last
          exact fresh.2 (last ▸ same ▸ old)
  exact loop [] ⟨List.nodup_nil,List.nil_subset _⟩

theorem select_affinity_general (graphs : Dict String RuntimeGraph) (enqueued_at : Dict String Time) (batch_size : Int)
    (pinned_ids : List String) : select_affinity_batch_ids graphs enqueued_at batch_size pinned_ids =
      Agglomeration.choose (Scene.general ⟨graphs.mapValues (fun _ graph => build_affinity graph),enqueued_at,
        (max 1 batch_size).toNat⟩) graphs.keys (normalize_pinned graphs.keys pinned_ids) := by
  have size : (if batch_size ≤ 0 then 1 else batch_size) = max 1 batch_size := by omega
  unfold select_affinity_batch_ids Agglomeration.choose
  rw [size]
  dsimp only
  generalize scene : (⟨graphs.mapValues (fun _ graph => build_affinity graph),enqueued_at,(max 1 batch_size).toNat⟩ : Scene) = e
  have room : (max 1 batch_size).toNat = e.batch_size := by rw [← scene]
  rw [room]
  have start : ∀ (clusters : List (List String)) (best : Option Best),
      (clusters.foldl (consider_cluster e (normalize_pinned graphs.keys pinned_ids)) best).map Best.general =
        clusters.foldl (Agglomeration.consider_cluster e.general (normalize_pinned graphs.keys pinned_ids))
          (best.map Best.general) := by
    intro clusters
    induction clusters with
    | nil => exact fun _ => rfl
    | cons cluster rest ih =>
        intro best
        rw [List.foldl_cons,ih,consider_cluster_general]
        rfl
  have whole := agglomerate_general e (normalize_pinned graphs.keys pinned_ids) (graphs.keys.map ([·])).length
    (graphs.keys.map ([·])) ((graphs.keys.map ([·])).foldl (consider_cluster e (normalize_pinned graphs.keys pinned_ids)) none)
  rw [start,Option.map_none] at whole
  rw [← whole,select_subset_general]
  cases agglomerate e (normalize_pinned graphs.keys pinned_ids) (graphs.keys.map ([·])).length (graphs.keys.map ([·]))
    ((graphs.keys.map ([·])).foldl (consider_cluster e (normalize_pinned graphs.keys pinned_ids)) none) <;> rfl

-- Whatever the distances are, the selection is a choice of the candidates.
theorem select_affinity_choice (graphs : Dict String RuntimeGraph) (enqueued_at : Dict String Time) (batch_size : Int)
    (pinned_ids : List String) :
    Choice (max 1 batch_size).toNat graphs.keys (select_affinity_batch_ids graphs enqueued_at batch_size pinned_ids) := by
  obtain ⟨distinct,inside⟩ := normalize_pinned_spec graphs.keys pinned_ids
  rw [select_affinity_general]
  generalize scene : (⟨graphs.mapValues (fun _ graph => build_affinity graph),enqueued_at,(max 1 batch_size).toNat⟩ : Scene) = e
  have room : (max 1 batch_size).toNat = e.general.size := by rw [← scene]; rfl
  have taken := Agglomeration.choose_taken (e := e.general) (by omega) graphs.keys_nodup distinct inside
  rw [room]
  exact ⟨taken.within,taken.full ▸ Nat.min_le_left _ _⟩

end Lumilake.Clustering

import Lumilake.Library.Ranking
import Lumilake.RuntimeManager.ShardPlan

namespace Lumilake.RuntimeManager
open Fallible Relation

-- What the loop over the worker schedules fills; the nodes seen are those with a rank.
structure Seen where
  node_to_workers : Workers
  first_seen_rank : Dict String Nat
  next_rank : Nat

-- One node of a worker's list; the texts are the `local_seen` of that worker.
def see_node (node_names : List String) (worker : String) (s : Seen × List String) (node_name : String) :
    Except String (Seen × List String) :=
  if node_name ∈ s.2 then
    .error ("Invalid schedule hint: duplicate node found within worker assignment for worker '" ++ worker ++ "': " ++ node_name)
  else if node_name ∉ node_names then
    .error ("Invalid schedule hint: worker assignment references unknown node '" ++ node_name ++ "'")
  else
    let candidates := (s.1.node_to_workers.get? node_name).getD []
    let node_to_workers := s.1.node_to_workers.set node_name
      (if worker ∈ candidates then candidates else candidates ++ [worker])
    if node_name ∈ s.1.first_seen_rank.keys then
      .ok (⟨node_to_workers,s.1.first_seen_rank,s.1.next_rank⟩,s.2 ++ [node_name])
    else .ok (⟨node_to_workers,s.1.first_seen_rank.set node_name s.1.next_rank,s.1.next_rank + 1⟩,s.2 ++ [node_name])

def see_worker (node_names : List String) (seen : Seen) (entry : String × List String) : Except String Seen :=
  (entry.2.foldlM (see_node node_names entry.1) (seen,[])).map Prod.fst

def see_workers (worker_assignment : Workers) (node_names : List String) : Except String Seen :=
  worker_assignment.entries.foldlM (see_worker node_names) ⟨Dict.empty,Dict.empty,0⟩

def check_covered (node_names : List String) (seen : Seen) : Except String Unit :=
  let missing := sorted_names (node_names.filter (· ∉ seen.first_seen_rank.keys))
  let extra := sorted_names (seen.first_seen_rank.keys.filter (· ∉ node_names))
  if missing ≠ [] ∨ extra ≠ [] then
    .error ("Invalid internal schedule: worker assignment does not cover graph nodes. Missing: " ++ quoted missing ++
      ", extra: " ++ quoted extra)
  else .ok ()

def hint_child (node_names : List String) (node_id : String) (edges : ShardEdges) (dep : String) : Except String ShardEdges :=
  if dep ∉ node_names then .ok edges
  else if dep = node_id then
    .error ("Invalid schedule hint dependency graph: self dependency on '" ++ node_id ++ "'")
  else .ok ⟨edges.in_degree.set node_id (degree edges.in_degree node_id + 1),
    edges.children.set dep (neighbors edges.children dep ++ [node_id])⟩

def hint_edges (node_names : List String) (node_dependencies : Dict String (List String)) : Except String ShardEdges :=
  node_names.foldlM (fun edges node_id =>
    ((node_dependencies.get? node_id).getD []).foldlM (hint_child node_names node_id) edges)
    ⟨node_names.foldl (fun d node_id => d.set node_id 0) Dict.empty,
      node_names.foldl (fun d node_id => d.set node_id []) Dict.empty⟩

-- Of (rank, order_index, node), which the heap compares from the left.
def hint_before (first_seen_rank order_index : Dict String Nat) (a b : String) : Prop :=
  let rank := fun node_id => (first_seen_rank.get? node_id).getD (10 ^ 9)
  let index := fun node_id => (order_index.get? node_id).getD 0
  rank a < rank b ∨ rank a = rank b ∧ (index a < index b ∨ index a = index b ∧ a ≤ b)

instance (first_seen_rank order_index : Dict String Nat) : DecidableRel (hint_before first_seen_rank order_index) :=
  fun _ _ => inferInstanceAs (Decidable (_ ∨ _ ∧ (_ ∨ _ ∧ _)))

def hint_push (first_seen_rank order_index : Dict String Nat) (heap : List String) (node_id : String) : List String :=
  heap.orderedInsert (hint_before first_seen_rank order_index) node_id

def hint_order (node_names : List String) (seen : Seen) (edges : ShardEdges) : List String :=
  let order_index := node_names.zipIdx.foldl (fun d e => d.set e.1 e.2) Dict.empty
  let push := hint_push seen.first_seen_rank order_index
  let heap := (node_names.filter fun node_id => degree edges.in_degree node_id = 0).foldl push []
  (drain_heap push edges.children node_names.length [] ⟨edges.in_degree,heap⟩).1

def build_flat_schedule_hint (worker_assignment : Workers) (node_names : List String)
    (node_dependencies : Dict String (List String)) : Except String (List String × Workers) := do
  let seen ← see_workers worker_assignment node_names
  check_covered node_names seen
  let edges ← hint_edges node_names node_dependencies
  let ordered_nodes := hint_order node_names seen edges
  if ordered_nodes.length ≠ node_names.length then
    .error "Invalid schedule hint dependency graph: cycle detected in flowmesh nodes"
  else pure (ordered_nodes,node_names.foldl (fun d node_name => d.set node_name ((seen.node_to_workers.get? node_name).getD []))
    Dict.empty)

-- The nodes in the order in which the schedules name them, with repetitions.
def scheduled (worker_assignment : Workers) : List String := worker_assignment.values.flatten

-- Ranks follow the first occurrences among the nodes named so far.
structure RankedBy (named : List String) (seen : Seen) : Prop where
  members : ∀ x, x ∈ seen.first_seen_rank.keys ↔ x ∈ named
  below : ∀ x r, seen.first_seen_rank.get? x = some r → r < seen.next_rank
  ordered : ∀ x y r q, seen.first_seen_rank.get? x = some r → seen.first_seen_rank.get? y = some q →
    (r < q ↔ named.idxOf x < named.idxOf y)

theorem see_node_ok {node_names : List String} {worker node_name : String} {s after : Seen × List String}
    (done : see_node node_names worker s node_name = .ok after) :
    node_name ∉ s.2 ∧ node_name ∈ node_names ∧ after.2 = s.2 ++ [node_name] ∧
      (node_name ∈ s.1.first_seen_rank.keys ∧ after.1.first_seen_rank = s.1.first_seen_rank ∧ after.1.next_rank = s.1.next_rank ∨
        node_name ∉ s.1.first_seen_rank.keys ∧ after.1.first_seen_rank = s.1.first_seen_rank.set node_name s.1.next_rank ∧
          after.1.next_rank = s.1.next_rank + 1) := by
  unfold see_node at done
  split at done
  · cases done
  · rename_i fresh
    split at done
    · cases done
    · rename_i known
      dsimp only at done
      split at done
      · rename_i old
        cases done
        exact ⟨fresh,not_not.mp known,rfl,.inl ⟨old,rfl,rfl⟩⟩
      · rename_i new
        cases done
        exact ⟨fresh,not_not.mp known,rfl,.inr ⟨new,rfl,rfl⟩⟩

theorem see_node_ranked {node_names named : List String} {worker node_name : String} {s after : Seen × List String}
    (ranked : RankedBy named s.1) (done : see_node node_names worker s node_name = .ok after) :
    RankedBy (named ++ [node_name]) after.1 := by
  obtain ⟨_,_,_,⟨old,ranks,next⟩ | ⟨new,ranks,next⟩⟩ := see_node_ok done
  · have inside := (ranked.members node_name).mp old
    refine ⟨fun x => ?_,?_,?_⟩
    · rw [ranks,ranked.members,List.mem_append,List.mem_singleton]
      exact ⟨.inl,fun h => h.elim id fun same => same ▸ inside⟩
    · rw [ranks,next]
      exact ranked.below
    · intro x y r q found found'
      rw [ranks] at found found'
      have mem := (ranked.members x).mp (Dict.mem_keys_iff.mpr ⟨r,found⟩)
      have mem' := (ranked.members y).mp (Dict.mem_keys_iff.mpr ⟨q,found'⟩)
      rw [List.idxOf_append_of_mem mem,List.idxOf_append_of_mem mem']
      exact ranked.ordered x y r q found found'
  · have away : node_name ∉ named := fun inside => new ((ranked.members node_name).mpr inside)
    have lookup : ∀ x r, after.1.first_seen_rank.get? x = some r →
        x = node_name ∧ r = s.1.next_rank ∨ x ≠ node_name ∧ s.1.first_seen_rank.get? x = some r := by
      intro x r found
      rw [ranks] at found
      by_cases same : x = node_name
      · subst same
        rw [Dict.get?_set_self] at found
        exact .inl ⟨rfl,(Option.some.inj found).symm⟩
      · rw [Dict.get?_set_ne _ _ same] at found
        exact .inr ⟨same,found⟩
    have place : ∀ x r, s.1.first_seen_rank.get? x = some r → (named ++ [node_name]).idxOf x = named.idxOf x ∧
        named.idxOf x < named.length := by
      intro x r found
      have mem := (ranked.members x).mp (Dict.mem_keys_iff.mpr ⟨r,found⟩)
      exact ⟨List.idxOf_append_of_mem mem,List.idxOf_lt_length_of_mem mem⟩
    have last : (named ++ [node_name]).idxOf node_name = named.length := by
      rw [List.idxOf_append_of_notMem away]
      simp
    refine ⟨fun x => ?_,?_,?_⟩
    · rw [ranks,Dict.mem_keys_set,ranked.members,List.mem_append,List.mem_singleton]
    · intro x r found
      rw [next]
      rcases lookup x r found with ⟨_,rfl⟩ | ⟨_,found⟩
      · exact Nat.lt_succ_self _
      · exact Nat.lt_succ_of_lt (ranked.below x r found)
    · intro x y r q found found'
      rcases lookup x r found with ⟨rfl,rfl⟩ | ⟨_,found⟩ <;> rcases lookup y q found' with ⟨rfl,rfl⟩ | ⟨_,found'⟩
      · simp
      · obtain ⟨same,bound⟩ := place y q found'
        have low := ranked.below y q found'
        rw [last,same]
        omega
      · obtain ⟨same,bound⟩ := place x r found
        have low := ranked.below x r found
        rw [last,same]
        omega
      · rw [(place x r found).1,(place y q found').1]
        exact ranked.ordered x y r q found found'

theorem see_node_accepts (node_names : List String) (worker node_name : String) (s : Seen × List String) :
    (∃ after, see_node node_names worker s node_name = .ok after) ↔ node_name ∉ s.2 ∧ node_name ∈ node_names := by
  refine ⟨fun ⟨after,done⟩ => ⟨(see_node_ok done).1,(see_node_ok done).2.1⟩,fun ⟨fresh,known⟩ => ?_⟩
  unfold see_node
  rw [if_neg fresh,if_neg (not_not.mpr known)]
  dsimp only
  split <;> exact ⟨_,rfl⟩

theorem see_nodes_accepts (node_names : List String) (worker : String) (nodes : List String) (s : Seen × List String)
    (distinct : s.2.Nodup) : (∃ after, nodes.foldlM (see_node node_names worker) s = .ok after) ↔
      (s.2 ++ nodes).Nodup ∧ ∀ x ∈ nodes, x ∈ node_names := by
  induction nodes generalizing s with
  | nil => simp [pure,Except.pure,distinct]
  | cons node_name rest ih =>
      rw [List.foldlM_cons]
      have split : s.2 ++ node_name :: rest = (s.2 ++ [node_name]) ++ rest := by simp
      constructor
      · rintro ⟨after,done⟩
        obtain ⟨next,first,later⟩ := bind_ok done
        obtain ⟨fresh,known,grown,_⟩ := see_node_ok first
        have one_more : (s.2 ++ [node_name]).Nodup := by
          rw [← List.concat_eq_append]
          exact distinct.concat fresh
        obtain ⟨apart,others⟩ := (ih next (grown ▸ one_more)).mp ⟨after,later⟩
        rw [grown] at apart
        exact ⟨split ▸ apart,List.forall_mem_cons.mpr ⟨known,others⟩⟩
      · rintro ⟨apart,known⟩
        obtain ⟨here,others⟩ := List.forall_mem_cons.mp known
        have fresh : node_name ∉ s.2 := fun old =>
          (List.nodup_append.mp apart).2.2 node_name old node_name List.mem_cons_self rfl
        obtain ⟨next,first⟩ := (see_node_accepts node_names worker node_name s).mpr ⟨fresh,here⟩
        have grown := (see_node_ok first).2.2.1
        rw [split] at apart
        rw [first]
        exact (ih next (grown ▸ (List.nodup_append.mp apart).1)).mpr ⟨grown ▸ apart,others⟩

theorem see_nodes_ranked {node_names nodes named : List String} {worker : String} {s after : Seen × List String}
    (ranked : RankedBy named s.1) (done : nodes.foldlM (see_node node_names worker) s = .ok after) :
    RankedBy (named ++ nodes) after.1 := by
  induction nodes generalizing s named with
  | nil =>
      cases done
      simpa using ranked
  | cons node_name rest ih =>
      rw [List.foldlM_cons] at done
      obtain ⟨next,first,later⟩ := bind_ok done
      have whole := ih (see_node_ranked ranked first) later
      rwa [List.append_assoc] at whole

-- The schedules are read to their end when no worker names a node twice or one that is unknown.
theorem see_workers_accepts (worker_assignment : Workers) (node_names : List String) :
    (∃ seen, see_workers worker_assignment node_names = .ok seen) ↔
      ∀ e ∈ worker_assignment.entries, e.2.Nodup ∧ ∀ x ∈ e.2, x ∈ node_names := by
  refine foldlM_accepts (fun seen entry => ?_) _ _
  rw [see_worker]
  constructor
  · rintro ⟨after,done⟩
    obtain ⟨state,loop,_⟩ := map_ok done
    simpa using (see_nodes_accepts node_names entry.1 entry.2 (seen,[]) List.nodup_nil).mp ⟨state,loop⟩
  · intro fits
    obtain ⟨state,loop⟩ := (see_nodes_accepts node_names entry.1 entry.2 (seen,[]) List.nodup_nil).mpr (by simpa using fits)
    exact ⟨state.1,by rw [loop]; rfl⟩

theorem see_workers_ranked {worker_assignment : Workers} {node_names : List String} {seen : Seen}
    (done : see_workers worker_assignment node_names = .ok seen) : RankedBy (scheduled worker_assignment) seen := by
  have whole : ∀ (entries : List (String × List String)) (named : List String) (before : Seen), RankedBy named before →
      entries.foldlM (see_worker node_names) before = .ok seen → RankedBy (named ++ (entries.map Prod.snd).flatten) seen := by
    intro entries
    induction entries with
    | nil =>
        intro named before ranked done
        cases done
        simpa using ranked
    | cons entry rest ih =>
        intro named before ranked done
        rw [List.foldlM_cons] at done
        obtain ⟨next,first,later⟩ := bind_ok done
        obtain ⟨state,loop,rfl⟩ := map_ok first
        have after := ih _ _ (see_nodes_ranked ranked loop) later
        rwa [List.append_assoc] at after
  refine whole _ [] _ ⟨by simp,?_,?_⟩ done
  · intro x r found
    simp at found
  · intro x y r q found
    simp at found

theorem sorted_names_nil {names : List String} : sorted_names names = [] ↔ names = [] := by
  unfold sorted_names
  rw [← List.length_eq_zero_iff,List.length_insertionSort,List.length_eq_zero_iff]
  constructor
  · intro empty
    exact List.eq_nil_iff_forall_not_mem.mpr fun x here => by
      have there := List.mem_dedup.mpr here
      rw [empty] at there
      cases there
  · rintro rfl
    rfl

theorem check_covered_ok {node_names : List String} {seen : Seen} (inside : ∀ x ∈ seen.first_seen_rank.keys, x ∈ node_names) :
    check_covered node_names seen = .ok () ↔ ∀ x ∈ node_names, x ∈ seen.first_seen_rank.keys := by
  have extra : seen.first_seen_rank.keys.filter (· ∉ node_names) = [] :=
    List.filter_eq_nil_iff.mpr fun x here => by simpa using inside x here
  unfold check_covered
  dsimp only
  rw [extra,show sorted_names [] = [] from rfl]
  have covered : node_names.filter (· ∉ seen.first_seen_rank.keys) = [] ↔ ∀ x ∈ node_names, x ∈ seen.first_seen_rank.keys := by
    rw [List.filter_eq_nil_iff]
    refine forall₂_congr fun x _ => ?_
    rw [decide_eq_true_iff,not_not]
  rw [← covered]
  split
  · rename_i faulty
    refine ⟨fun same => (by cases same),fun empty => ?_⟩
    rcases faulty with missing | extra
    · exact absurd (sorted_names_nil.mpr empty) missing
    · exact absurd rfl extra
  · rename_i fine
    exact ⟨fun _ => sorted_names_nil.mp (not_not.mp fun missing => fine (.inl missing)),fun _ => rfl⟩

-- The dependencies among the nodes: what a node waits for, and what it is waited for by.
def depends (node_names : List String) (node_dependencies : Dict String (List String)) (dep node_id : String) : Prop :=
  dep ∈ (node_dependencies.get? node_id).getD [] ∧ dep ∈ node_names ∧ node_id ∈ node_names

def hint_nodes (node_names : List String) (distinct : node_names.Nodup) (node_dependencies : Dict String (List String)) : NodeMap :=
  ⟨node_names.map fun node_id => (node_id,⟨node_id,(node_dependencies.get? node_id).getD [],[]⟩),by
    rw [List.map_map]
    simpa [Function.comp_def] using distinct⟩

section
variable {node_names : List String} (distinct : node_names.Nodup) (node_dependencies : Dict String (List String))

theorem hint_nodes_keys : (hint_nodes node_names distinct node_dependencies).keys = node_names := by
  simp [hint_nodes,Dict.keys,List.map_map,Function.comp_def]

theorem hint_nodes_mem (x : String) : x ∈ hint_nodes node_names distinct node_dependencies ↔ x ∈ node_names := by
  rw [Dict.mem_def,hint_nodes_keys]

-- The hint reads its edges as the shard rewrite does; only the message of the error is its own.
theorem hint_child_same (node_id : String) (edges after : ShardEdges) (dep : String) :
    hint_child node_names node_id edges dep = .ok after ↔
      add_child (hint_nodes node_names distinct node_dependencies) node_id edges dep = .ok after := by
  unfold hint_child add_child
  by_cases known : dep ∈ node_names
  · rw [if_neg (not_not.mpr known),if_neg (not_not.mpr ((hint_nodes_mem distinct node_dependencies dep).mpr known))]
    split
    · exact ⟨fun same => (by cases same),fun same => (by cases same)⟩
    · rfl
  · rw [if_pos known,if_pos fun inside => known ((hint_nodes_mem distinct node_dependencies dep).mp inside)]

theorem filled_eq {α : Type} (value : α) : node_names.foldl (fun d node_id => Dict.set d node_id value) Dict.empty =
    (hint_nodes node_names distinct node_dependencies).mapValues fun _ _ => value := by
  apply Dict.ext
  refine (Dict.entries_foldl_set (fun node_id => node_id) (fun _ => value) Dict.empty (by simpa using distinct)).trans ?_
  simp [hint_nodes,Function.comp_def]

theorem hint_edges_same (edges : ShardEdges) : hint_edges node_names node_dependencies = .ok edges ↔
    shard_rewrite_edges (hint_nodes node_names distinct node_dependencies) = .ok edges := by
  unfold hint_edges shard_rewrite_edges
  rw [filled_eq distinct node_dependencies,filled_eq distinct node_dependencies]
  conv => rhs; rw [hint_nodes,List.foldlM_map]
  refine foldlM_ok_congr (fun before after node_id => ?_) _ _ _
  exact foldlM_ok_congr (fun before after dep => hint_child_same distinct node_dependencies node_id before after dep) _ _ _

theorem hint_edges_accepts : (∃ edges, hint_edges node_names node_dependencies = .ok edges) ↔
    ∀ node_id, ¬ depends node_names node_dependencies node_id node_id := by
  have turns : ∀ (node_id : String) (edges : ShardEdges) (dep : String),
      (∃ after, hint_child node_names node_id edges dep = .ok after) ↔ ¬ (dep ∈ node_names ∧ dep = node_id) := by
    intro node_id edges dep
    unfold hint_child
    split
    · rename_i unknown
      exact ⟨fun _ both => unknown both.1,fun _ => ⟨_,rfl⟩⟩
    · rename_i known
      split
      · rename_i same
        refine ⟨fun refused => ?_,fun apart => absurd ⟨not_not.mp known,same⟩ apart⟩
        obtain ⟨_,refused⟩ := refused
        cases refused
      · rename_i other
        exact ⟨fun _ both => other both.2,fun _ => ⟨_,rfl⟩⟩
  unfold hint_edges
  refine (foldlM_accepts (fun edges node_id =>
    foldlM_accepts (turns node_id) ((node_dependencies.get? node_id).getD []) edges) node_names _).trans ?_
  constructor
  · intro apart node_id cycle
    exact apart node_id cycle.2.2 node_id cycle.1 ⟨cycle.2.1,rfl⟩
  · rintro apart node_id known dep needed ⟨_,rfl⟩
    exact apart dep ⟨needed,known,known⟩

-- An edge stands for each dependency among the nodes, and for nothing else.
theorem hint_edges_spec {edges : ShardEdges} (done : hint_edges node_names node_dependencies = .ok edges) :
    EdgesOf (hint_nodes node_names distinct node_dependencies) edges ∧
      ∀ u x, x ∈ neighbors edges.children u ↔ depends node_names node_dependencies u x := by
  have built := (hint_edges_same distinct node_dependencies edges).mp done
  obtain ⟨spec,_,needed⟩ := edges_of_nodes (edges_start _) (fun e member => List.mem_map_of_mem member) built
  refine ⟨spec,fun u x => ⟨?_,?_⟩⟩
  · have start : ∀ u x, x ∈ neighbors ((hint_nodes node_names distinct node_dependencies).mapValues fun _ _ => []) u →
        depends node_names node_dependencies u x := by
      intro u x edge
      rw [no_children] at edge
      cases edge
    unfold shard_rewrite_edges at built
    let inside (edges : ShardEdges) : Prop :=
      ∀ u x, x ∈ neighbors edges.children u → depends node_names node_dependencies u x
    refine foldlM_keeps_on inside (fun before entry member after kept turn => ?_) start built u x
    obtain ⟨node_id,known,rfl⟩ := List.mem_map.mp member
    refine foldlM_keeps_on inside (fun before dep needed after kept turn => ?_) kept turn
    have read := (hint_child_same distinct node_dependencies node_id before after dep).mpr turn
    unfold hint_child at read
    split at read
    · cases read
      exact kept
    · rename_i present
      split at read
      · cases read
      · cases read
        intro u x edge
        rw [neighbors_set] at edge
        split at edge
        · rename_i same
          rcases List.mem_append.mp edge with old | new
          · exact kept u x (same ▸ old)
          · rw [List.mem_singleton.mp new,same]
            exact ⟨needed,not_not.mp present,known⟩
        · exact kept u x edge
  · rintro ⟨waits,known,node⟩
    exact needed (x,⟨x,_,[]⟩) (List.mem_map_of_mem node) u waits (by rw [hint_nodes_keys]; exact known)

end

end Lumilake.RuntimeManager

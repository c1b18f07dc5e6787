import Lumilake.RuntimeManager.ScheduleHint

namespace Lumilake.RuntimeManager
open Fallible Relation

-- Each node after those it waits for, and of the nodes that may come next the one that the
-- schedules name first.
structure HintOrdered (worker_assignment : Workers) (node_names : List String)
    (node_dependencies : Dict String (List String)) (ordered_nodes : List String) : Prop where
  nodes : ordered_nodes.Perm node_names
  waited : ∀ front x back, ordered_nodes = front ++ x :: back →
    ∀ dep, depends node_names node_dependencies dep x → dep ∈ front
  earliest : ∀ front x back, ordered_nodes = front ++ x :: back → ∀ y ∈ node_names, y ∉ front ++ [x] →
    (∀ dep, depends node_names node_dependencies dep y → dep ∈ front) →
      (scheduled worker_assignment).idxOf x < (scheduled worker_assignment).idxOf y

instance (first_seen_rank order_index : Dict String Nat) : IsTrans String (hint_before first_seen_rank order_index) where
  trans a b c := by
    unfold hint_before
    rintro (low | ⟨same,low | ⟨same',low⟩⟩) (high | ⟨tied,high | ⟨tied',high⟩⟩)
    all_goals first | (left; omega) | (right; refine ⟨by omega,?_⟩)
    all_goals first | (left; omega) | (right; exact ⟨by omega,String.le_trans low high⟩)

instance (first_seen_rank order_index : Dict String Nat) : Std.Total (hint_before first_seen_rank order_index) where
  total a b := by
    unfold hint_before
    dsimp only
    rcases Nat.lt_trichotomy ((first_seen_rank.get? a).getD (10 ^ 9)) ((first_seen_rank.get? b).getD (10 ^ 9)) with
      low | same | high
    · exact .inl (.inl low)
    · rcases Nat.lt_trichotomy ((order_index.get? a).getD 0) ((order_index.get? b).getD 0) with low | tied | high
      · exact .inl (.inr ⟨same,.inl low⟩)
      · rcases String.le_total a b with low | high
        · exact .inl (.inr ⟨same,.inr ⟨tied,low⟩⟩)
        · exact .inr (.inr ⟨same.symm,.inr ⟨tied.symm,high⟩⟩)
      · exact .inr (.inr ⟨same.symm,.inl high⟩)
    · exact .inr (.inl high)

section
variable (first_seen_rank order_index : Dict String Nat)

theorem hint_push_perm (heap : List String) (node_id : String) :
    (hint_push first_seen_rank order_index heap node_id).Perm (heap ++ [node_id]) :=
  (List.perm_orderedInsert _ _ _).trans (List.perm_append_comm : ([node_id] ++ heap).Perm _)

theorem hint_push_sorted (heap : List String) (node_id : String)
    (sorted : heap.Pairwise (hint_before first_seen_rank order_index)) :
    (hint_push first_seen_rank order_index heap node_id).Pairwise (hint_before first_seen_rank order_index) :=
  sorted.orderedInsert node_id heap

theorem hint_heap (ids heap : List String) (sorted : heap.Pairwise (hint_before first_seen_rank order_index)) :
    (ids.foldl (hint_push first_seen_rank order_index) heap).Perm (heap ++ ids) ∧
      (ids.foldl (hint_push first_seen_rank order_index) heap).Pairwise (hint_before first_seen_rank order_index) := by
  induction ids generalizing heap with
  | nil => exact ⟨by simp,sorted⟩
  | cons id rest ih =>
      rw [List.foldl_cons]
      obtain ⟨perm,pairs⟩ := ih _ (hint_push_sorted first_seen_rank order_index heap id sorted)
      refine ⟨perm.trans (((hint_push_perm first_seen_rank order_index heap id).append_right rest).trans ?_),pairs⟩
      rw [List.append_assoc]
      exact .refl _

end

-- Two nodes that the schedules name are compared by their first places there.
theorem before_named {named : List String} {seen : Seen} {order_index : Dict String Nat} {x y : String}
    (ranked : RankedBy named seen) (one : x ∈ named) (two : y ∈ named) (apart : x ≠ y)
    (before : hint_before seen.first_seen_rank order_index x y) : named.idxOf x < named.idxOf y := by
  obtain ⟨r,found⟩ := Dict.mem_keys_iff.mp ((ranked.members x).mpr one)
  obtain ⟨q,found'⟩ := Dict.mem_keys_iff.mp ((ranked.members y).mpr two)
  have forward := ranked.ordered x y r q found found'
  have backward := ranked.ordered y x q r found' found
  have places : named.idxOf x ≠ named.idxOf y := fun same => apart ((List.idxOf_inj one).mp same)
  unfold hint_before at before
  dsimp only at before
  rw [found,found',Option.getD_some,Option.getD_some] at before
  rcases before with lower | ⟨same,_⟩
  · exact forward.mp lower
  · omega

section
variable {worker_assignment : Workers} {node_names : List String} (distinct : node_names.Nodup)
  {node_dependencies : Dict String (List String)} {seen : Seen} {edges : ShardEdges}
include distinct

theorem hint_counted (read : hint_edges node_names node_dependencies = .ok edges) :
    (count_in_degree edges.children).keys.Perm node_names := by
  obtain ⟨spec,_⟩ := hint_edges_spec distinct node_dependencies read
  refine (List.perm_ext_iff_of_nodup (count_in_degree edges.children).keys_nodup distinct).mpr fun x => ?_
  rw [known_nodes spec,hint_nodes_keys]

-- The heap before the loop.
theorem hint_start (read : hint_edges node_names node_dependencies = .ok edges) (first_seen_rank order_index : Dict String Nat) :
    let heap := (node_names.filter fun node_id => degree edges.in_degree node_id = 0).foldl (hint_push first_seen_rank order_index) []
    Heaped edges.children [] ⟨edges.in_degree,heap⟩ ∧ heap.Pairwise (hint_before first_seen_rank order_index) := by
  intro heap
  obtain ⟨spec,_⟩ := hint_edges_spec distinct node_dependencies read
  obtain ⟨perm,sorted⟩ := hint_heap first_seen_rank order_index
    (node_names.filter fun node_id => degree edges.in_degree node_id = 0) [] .nil
  have roots := roots_heaped spec
  rw [hint_nodes_keys] at roots
  rw [List.nil_append] at perm
  exact ⟨heaped_perm roots perm,sorted⟩

theorem hint_order_spec (read : hint_edges node_names node_dependencies = .ok edges)
    (ranked : RankedBy (scheduled worker_assignment) seen) (covered : ∀ x ∈ node_names, x ∈ scheduled worker_assignment)
    (complete : (hint_order node_names seen edges).length = node_names.length) :
    HintOrdered worker_assignment node_names node_dependencies (hint_order node_names seen edges) := by
  obtain ⟨_,exact_edges⟩ := hint_edges_spec distinct node_dependencies read
  have counted := hint_counted distinct read
  unfold hint_order at complete ⊢
  dsimp only at complete ⊢
  generalize node_names.zipIdx.foldl (fun d e => d.set e.1 e.2) Dict.empty = order_index at complete ⊢
  obtain ⟨heaped,sorted⟩ := hint_start distinct read seen.first_seen_rank order_index
  have after := drain_heaped (hint_push_perm seen.first_seen_rank order_index) node_names.length heaped
  have least := drain_least_first (hint_push_perm seen.first_seen_rank order_index)
    (hint_push_sorted seen.first_seen_rank order_index) node_names.length heaped sorted
    (fun front x back split => absurd split (by simp))
  generalize drain_heap (hint_push seen.first_seen_rank order_index) edges.children node_names.length [] _ = finished
    at complete after least ⊢
  have inside : finished.1.Subperm node_names := by
    refine (List.nodup_append.mp after.settled.distinct).1.subperm fun x member => ?_
    exact counted.mem_iff.mp (after.settled.known x (List.mem_append_left _ member))
  have perm := inside.perm_of_length_le complete.ge
  refine ⟨perm,?_,?_⟩
  · intro front x back split dep needed
    exact after.settled.sorted front x back split dep ((exact_edges dep x).mpr needed)
  · intro front x back split y known absent free
    have here : x ∈ node_names := perm.mem_iff.mp (split ▸ List.mem_append_right _ List.mem_cons_self)
    have apart : x ≠ y := fun same => absent (same ▸ List.mem_append_right _ List.mem_cons_self)
    refine before_named ranked (covered x here) (covered y known) apart (least front x back split y ?_ absent ?_)
    · exact counted.mem_iff.mpr known
    · exact fun u edge => free u ((exact_edges u y).mp edge)

theorem hint_order_complete (read : hint_edges node_names node_dependencies = .ok edges) (seen : Seen)
    (acyclic : ∀ x, ¬ TransGen (depends node_names node_dependencies) x x) :
    (hint_order node_names seen edges).length = node_names.length := by
  obtain ⟨_,exact_edges⟩ := hint_edges_spec distinct node_dependencies read
  obtain ⟨rank,follows⟩ := Ranking.rank_of_acyclic (fun a b edge => edge.2.1) acyclic
  have counted := (hint_counted distinct read).length_eq
  unfold hint_order
  dsimp only
  generalize node_names.zipIdx.foldl (fun d e => d.set e.1 e.2) Dict.empty = order_index
  obtain ⟨heaped,_⟩ := hint_start distinct read seen.first_seen_rank order_index
  rw [← counted]
  exact drain_complete (hint_push_perm seen.first_seen_rank order_index) heaped rank
    fun u x edge => follows u x ((exact_edges u x).mp edge)

-- An order of all the nodes leaves no cycle.
theorem ordered_acyclic {ordered_nodes : List String}
    (ordered : HintOrdered worker_assignment node_names node_dependencies ordered_nodes) (x : String) :
    ¬ TransGen (depends node_names node_dependencies) x x := by
  refine Ranking.acyclic_of_rank ordered_nodes.idxOf (fun dep node_id waits => ?_) x
  have present : node_id ∈ ordered_nodes := ordered.nodes.mem_iff.mpr waits.2.2
  obtain ⟨front,back,split⟩ := List.append_of_mem present
  have first : node_id ∉ front := by
    intro again
    have apart := List.nodup_append.mp (split ▸ ordered.nodes.nodup_iff.mpr distinct)
    exact apart.2.2 node_id again node_id List.mem_cons_self rfl
  have earlier := ordered.waited front node_id back split dep waits
  rw [split,List.idxOf_append_of_mem earlier,List.idxOf_append_of_notMem first,List.idxOf_cons_self]
  exact (List.idxOf_lt_length_of_mem earlier).trans_le (Nat.le_add_right _ _)

end

-- The workers' lists may be read when none of them repeats a node or names one that is unknown.
def readable (worker_assignment : Workers) (node_names : List String) : Prop :=
  ∀ e ∈ worker_assignment.entries, e.2.Nodup ∧ ∀ x ∈ e.2, x ∈ node_names

theorem readable_scheduled {worker_assignment : Workers} {node_names : List String} (fits : readable worker_assignment node_names) :
    ∀ x ∈ scheduled worker_assignment, x ∈ node_names := by
  intro x named
  obtain ⟨nodes,member,here⟩ := List.mem_flatten.mp named
  obtain ⟨e,entry,rfl⟩ := List.mem_map.mp member
  exact (fits e entry).2 x here

-- The hint is returned when the lists can be read, name every node, and the dependencies have no
-- cycle; the order of the lists only breaks ties.
theorem flat_schedule_hint (worker_assignment : Workers) {node_names : List String} (distinct : node_names.Nodup)
    (node_dependencies : Dict String (List String)) :
    ((∃ hint, build_flat_schedule_hint worker_assignment node_names node_dependencies = .ok hint) ↔
      readable worker_assignment node_names ∧ (∀ x ∈ node_names, x ∈ scheduled worker_assignment) ∧
        ∀ x, ¬ TransGen (depends node_names node_dependencies) x x) ∧
      ∀ ordered_nodes candidates,
        build_flat_schedule_hint worker_assignment node_names node_dependencies = .ok (ordered_nodes,candidates) →
          HintOrdered worker_assignment node_names node_dependencies ordered_nodes := by
  have returned : ∀ ordered_nodes candidates,
      build_flat_schedule_hint worker_assignment node_names node_dependencies = .ok (ordered_nodes,candidates) →
        readable worker_assignment node_names ∧ (∀ x ∈ node_names, x ∈ scheduled worker_assignment) ∧
          HintOrdered worker_assignment node_names node_dependencies ordered_nodes := by
    intro ordered_nodes candidates done
    obtain ⟨seen,named,done⟩ := bind_ok done
    obtain ⟨_,checked,done⟩ := bind_ok done
    obtain ⟨edges,read,done⟩ := bind_ok done
    have fits := (see_workers_accepts worker_assignment node_names).mp ⟨seen,named⟩
    have ranked := see_workers_ranked named
    have inside : ∀ x ∈ seen.first_seen_rank.keys, x ∈ node_names := fun x ranks =>
      readable_scheduled fits x ((ranked.members x).mp ranks)
    have covered : ∀ x ∈ node_names, x ∈ scheduled worker_assignment := fun x known =>
      (ranked.members x).mp ((check_covered_ok inside).mp checked x known)
    dsimp only at done
    split at done
    · cases done
    · rename_i complete
      cases done
      exact ⟨fits,covered,hint_order_spec distinct read ranked covered (not_not.mp complete)⟩
  refine ⟨⟨?_,?_⟩,fun ordered_nodes candidates done => (returned ordered_nodes candidates done).2.2⟩
  · rintro ⟨⟨ordered_nodes,candidates⟩,done⟩
    obtain ⟨fits,covered,ordered⟩ := returned ordered_nodes candidates done
    exact ⟨fits,covered,ordered_acyclic distinct ordered⟩
  · rintro ⟨fits,covered,acyclic⟩
    obtain ⟨seen,named⟩ := (see_workers_accepts worker_assignment node_names).mpr fits
    have ranked := see_workers_ranked named
    have inside : ∀ x ∈ seen.first_seen_rank.keys, x ∈ node_names := fun x ranks =>
      readable_scheduled fits x ((ranked.members x).mp ranks)
    have checked := (check_covered_ok inside).mpr fun x known => (ranked.members x).mpr (covered x known)
    obtain ⟨edges,read⟩ := (hint_edges_accepts node_dependencies).mpr fun x self => acyclic x (.single self)
    have complete := hint_order_complete distinct read seen acyclic
    unfold build_flat_schedule_hint
    rw [named,ok_bind,checked,ok_bind,read,ok_bind]
    dsimp only
    rw [if_neg (not_not.mpr complete)]
    exact ⟨_,rfl⟩

-- A worker that lists the second node first is no error: the dependency decides.
def second_first : Workers := Dict.empty.set "gpu-0" ["n2","n1"]
def first_then_second : Dict String (List String) := (Dict.empty.set "n1" []).set "n2" ["n1"]

theorem flat_schedule_hint_two : HintOrdered second_first ["n1","n2"] first_then_second ["n1","n2"] :=
  (flat_schedule_hint second_first (by decide) first_then_second).2 _ _ rfl

-- What a worker's list asks of the order: its nodes one after another.
def listed_before (worker_assignment : Workers) (a b : String) : Prop :=
  ∃ e ∈ worker_assignment.entries, ∃ front middle back, e.2 = front ++ a :: middle ++ b :: back

theorem combined_cycle_returns : ¬ ∀ (worker_assignment : Workers) (node_names : List String)
    (node_dependencies : Dict String (List String)), node_names.Nodup →
      ((∃ message, build_flat_schedule_hint worker_assignment node_names node_dependencies = .error message) ↔
        (∃ x ∈ node_names, x ∉ scheduled worker_assignment) ∨
          ∃ x, TransGen (fun a b => depends node_names node_dependencies a b ∨ listed_before worker_assignment a b) x x) := by
  intro raises
  obtain ⟨message,failed⟩ := (raises second_first ["n1","n2"] first_then_second (by decide)).mpr
    (.inr ⟨"n1",.tail (.single (.inl ⟨by decide,by decide,by decide⟩)) (.inr ⟨_,List.mem_singleton.mpr rfl,[],[],[],rfl⟩)⟩)
  cases failed.symm.trans (show _ = .ok (["n1","n2"],_) from rfl)

end Lumilake.RuntimeManager

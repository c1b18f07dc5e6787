import Lumilake.Utils.Graph

-- A sort that emits one ready node at a time, the head of a heap. The heap is held as its
-- sorted list, and `push` puts a node in its place.
namespace Lumilake
variable {T : Type} [DecidableEq T]

def release_into (push : List T → T → List T) (s : Frontier T) (child : T) : Frontier T :=
  let remaining := degree s.in_degree child - 1
  ⟨s.in_degree.set child remaining,if remaining = 0 then push s.ready_nodes child else s.ready_nodes⟩

def pop_turn (push : List T → T → List T) (children : Adjacency T) (node_id : T) (heap : List T) (in_degree : Dict T Int) :
    Frontier T := (neighbors children node_id).foldl (release_into push) ⟨in_degree,heap⟩

-- Each turn emits one node, so as many turns as there are nodes are enough.
def drain_heap (push : List T → T → List T) (children : Adjacency T) : Nat → List T → Frontier T → List T × Frontier T
  | 0,ordered,s => (ordered,s)
  | fuel + 1,ordered,s =>
      match s.ready_nodes with
      | [] => (ordered,s)
      | node_id :: heap => drain_heap push children fuel (ordered ++ [node_id]) (pop_turn push children node_id heap s.in_degree)

section
variable {push : List T → T → List T}

-- The heap holds what a plain list of ready nodes would.
theorem released_heap (pushed : ∀ heap node_id, (push heap node_id).Perm (heap ++ [node_id])) (ns : List T) {s t : Frontier T}
    (same : s.in_degree = t.in_degree) (perm : s.ready_nodes.Perm t.ready_nodes) :
    (ns.foldl (release_into push) s).in_degree = (ns.foldl release t).in_degree ∧
      (ns.foldl (release_into push) s).ready_nodes.Perm (ns.foldl release t).ready_nodes := by
  induction ns generalizing s t with
  | nil => exact ⟨same,perm⟩
  | cons n rest ih =>
      rw [List.foldl_cons,List.foldl_cons]
      apply ih
      · simp only [release_into,release,same]
      · simp only [release_into,release,same]
        split
        · exact (pushed _ _).trans (perm.append_right _)
        · exact perm

theorem settled_pop (pushed : ∀ heap node_id, (push heap node_id).Perm (heap ++ [node_id])) {children : Adjacency T}
    {ordered heap : List T} {s : Frontier T} {node_id : T} (settled : Settled children ordered s)
    (ready : s.ready_nodes = node_id :: heap) :
    Settled children (ordered ++ [node_id]) (pop_turn push children node_id heap s.in_degree) := by
  have turn := settled_turn settled (show ([node_id] ++ heap).Perm s.ready_nodes by rw [ready]; exact .refl _)
  obtain ⟨same,perm⟩ := released_heap pushed (neighbors children node_id)
    (s := ⟨s.in_degree,heap⟩) (t := ⟨s.in_degree,heap⟩) rfl (.refl heap)
  exact settled_perm turn same perm

theorem exhausted_pop (pushed : ∀ heap node_id, (push heap node_id).Perm (heap ++ [node_id])) {children : Adjacency T}
    {ordered heap : List T} {s : Frontier T} {node_id : T} (exhausted : Exhausted children ordered s)
    (ready : s.ready_nodes = node_id :: heap) :
    Exhausted children (ordered ++ [node_id]) (pop_turn push children node_id heap s.in_degree) := by
  obtain ⟨same,perm⟩ := released_heap pushed (neighbors children node_id)
    (s := ⟨s.in_degree,heap⟩) (t := ⟨s.in_degree,heap⟩) rfl (.refl heap)
  intro x known spent
  rw [pop_turn,same] at spent
  by_cases positive : 0 < degree s.in_degree x
  · exact List.mem_append_right _ (perm.mem_iff.mpr (spent_ready _ ⟨s.in_degree,heap⟩ positive spent))
  · have old := exhausted x known (by omega)
    rw [ready] at old
    rcases List.mem_append.mp old with done | waiting
    · exact List.mem_append_left _ (List.mem_append_left _ done)
    · rcases List.mem_cons.mp waiting with rfl | later
      · exact List.mem_append_left _ (List.mem_append_right _ List.mem_cons_self)
      · obtain ⟨_,fresh,appended,_,_⟩ := released (neighbors children node_id) ⟨s.in_degree,heap⟩
        refine List.mem_append_right _ (perm.mem_iff.mpr ?_)
        rw [appended]
        exact List.mem_append_left _ later

-- What is known of the heap at the head of the loop.
structure Heaped (children : Adjacency T) (ordered : List T) (s : Frontier T) : Prop where
  settled : Settled children ordered s
  exhausted : Exhausted children ordered s

theorem heaped_perm {children : Adjacency T} {ordered : List T} {in_degree : Dict T Int} {heap heap' : List T}
    (heaped : Heaped children ordered ⟨in_degree,heap⟩) (perm : heap'.Perm heap) : Heaped children ordered ⟨in_degree,heap'⟩ := by
  refine ⟨settled_perm heaped.settled rfl perm,fun x known spent => ?_⟩
  exact (perm.append_left ordered).mem_iff.mpr (heaped.exhausted x known spent)

theorem drain_heaped (pushed : ∀ heap node_id, (push heap node_id).Perm (heap ++ [node_id])) {children : Adjacency T}
    (fuel : Nat) {ordered : List T} {s : Frontier T} (heaped : Heaped children ordered s) :
    Heaped children (drain_heap push children fuel ordered s).1 (drain_heap push children fuel ordered s).2 := by
  induction fuel generalizing ordered s with
  | zero => exact heaped
  | succ fuel ih =>
      unfold drain_heap
      split
      · exact heaped
      · rename_i node_id heap ready
        exact ih ⟨settled_pop pushed heaped.settled ready,exhausted_pop pushed heaped.exhausted ready⟩

-- The loop stops with an empty heap, or has emitted one node a turn.
theorem drain_stops (children : Adjacency T) (fuel : Nat) (ordered : List T) (s : Frontier T) :
    (drain_heap push children fuel ordered s).2.ready_nodes = [] ∨
      (drain_heap push children fuel ordered s).1.length = ordered.length + fuel := by
  induction fuel generalizing ordered s with
  | zero => exact .inr rfl
  | succ fuel ih =>
      unfold drain_heap
      split
      · rename_i empty
        exact .inl empty
      · rename_i node_id heap ready
        rcases ih (ordered ++ [node_id]) (pop_turn push children node_id heap s.in_degree) with empty | full
        · exact .inl empty
        · refine .inr (full.trans ?_)
          rw [List.length_append,List.length_singleton]
          omega

-- With one turn for each node, all are emitted when the edges follow some order.
theorem drain_complete (pushed : ∀ heap node_id, (push heap node_id).Perm (heap ++ [node_id])) {children : Adjacency T}
    {s : Frontier T} (heaped : Heaped children [] s) (rank : T → Nat) (ranked : ∀ u x, x ∈ neighbors children u → rank u < rank x) :
    (drain_heap push children (count_in_degree children).keys.length [] s).1.length = (count_in_degree children).keys.length := by
  have after := drain_heaped pushed (count_in_degree children).keys.length heaped
  rcases drain_stops children (count_in_degree children).keys.length [] s with empty | full
  · generalize drain_heap push children (count_in_degree children).keys.length [] s = finished at after empty ⊢
    obtain ⟨ordered,s'⟩ := finished
    dsimp only at after empty ⊢
    have all : ∀ n x, rank x = n → x ∈ (count_in_degree children).keys → x ∈ ordered := by
      intro n
      induction n using Nat.strong_induction_on with
      | _ n ih =>
          intro x same known
          have before : ∀ u, x ∈ neighbors children u → u ∈ ordered := fun u edge =>
            ih (rank u) (same ▸ ranked u x edge) u rfl (mem_count_in_degree.mpr (.inl (mem_keys_of_neighbor edge)))
          have spent := counter_spent before
          have counted := after.settled.counted x
          have out := after.exhausted x known (by omega)
          rwa [empty,List.append_nil] at out
    have inside := after.settled.distinct.subperm after.settled.known
    rw [empty,List.append_nil] at inside
    have outside := (count_in_degree children).keys_nodup.subperm fun x known => all _ x rfl known
    exact Nat.le_antisymm inside.length_le outside.length_le
  · simpa using full

-- An order in which every node is the least of those that are ready when it is emitted.
def LeastFirst (children : Adjacency T) (before : T → T → Prop) (ordered : List T) : Prop :=
  ∀ front x back, ordered = front ++ x :: back → ∀ y ∈ (count_in_degree children).keys, y ∉ front ++ [x] →
    (∀ u, y ∈ neighbors children u → u ∈ front) → before x y

-- A node that is free waits in the heap behind the head, as no spent node has been passed by.
theorem waits_behind {before : T → T → Prop} {children : Adjacency T} {ordered heap : List T} {s : Frontier T} {node_id y : T}
    (heaped : Heaped children ordered s) (sorted : s.ready_nodes.Pairwise before) (ready : s.ready_nodes = node_id :: heap)
    (known : y ∈ (count_in_degree children).keys) (absent : y ∉ ordered ++ [node_id])
    (free : ∀ u, y ∈ neighbors children u → u ∈ ordered) : before node_id y := by
  have spent := counter_spent free
  have counted := heaped.settled.counted y
  have out := heaped.exhausted y known (by omega)
  rw [ready] at out sorted
  rcases List.mem_append.mp out with done | waiting
  · exact absurd (List.mem_append_left _ done) absent
  · rcases List.mem_cons.mp waiting with rfl | later
    · exact absurd (List.mem_append_right _ List.mem_cons_self) absent
    · exact (List.pairwise_cons.mp sorted).1 y later

theorem least_first_pop {before : T → T → Prop} {children : Adjacency T} {ordered heap : List T} {s : Frontier T} {node_id : T}
    (least : LeastFirst children before ordered) (heaped : Heaped children ordered s) (sorted : s.ready_nodes.Pairwise before)
    (ready : s.ready_nodes = node_id :: heap) : LeastFirst children before (ordered ++ [node_id]) := by
  intro front x back split y known absent free
  rcases List.eq_nil_or_concat back with rfl | ⟨middle,last,rfl⟩
  · obtain ⟨rfl,same⟩ := List.append_inj' split rfl
    rw [← (List.cons.inj same).1] at absent ⊢
    exact waits_behind heaped sorted ready known absent free
  · have whole : ordered ++ [node_id] = (front ++ x :: middle) ++ [last] := by simpa using split
    exact least front x middle (List.append_inj' whole rfl).1 y known absent free

theorem pop_sorted {before : T → T → Prop} (kept : ∀ heap node_id, heap.Pairwise before → (push heap node_id).Pairwise before)
    (ns : List T) {s : Frontier T} (sorted : s.ready_nodes.Pairwise before) :
    (ns.foldl (release_into push) s).ready_nodes.Pairwise before := by
  induction ns generalizing s with
  | nil => exact sorted
  | cons n rest ih =>
      rw [List.foldl_cons]
      apply ih
      rw [release_into]
      dsimp only
      split
      · exact kept _ _ sorted
      · exact sorted

theorem drain_least_first {before : T → T → Prop} (pushed : ∀ heap node_id, (push heap node_id).Perm (heap ++ [node_id]))
    (kept : ∀ heap node_id, heap.Pairwise before → (push heap node_id).Pairwise before) {children : Adjacency T} (fuel : Nat)
    {ordered : List T} {s : Frontier T} (heaped : Heaped children ordered s) (sorted : s.ready_nodes.Pairwise before)
    (least : LeastFirst children before ordered) :
    LeastFirst children before (drain_heap push children fuel ordered s).1 := by
  induction fuel generalizing ordered s with
  | zero => exact least
  | succ fuel ih =>
      unfold drain_heap
      split
      · exact least
      · rename_i node_id heap ready
        refine ih ⟨settled_pop pushed heaped.settled ready,exhausted_pop pushed heaped.exhausted ready⟩ ?_
          (least_first_pop least heaped sorted ready)
        rw [ready] at sorted
        exact pop_sorted kept _ (List.pairwise_cons.mp sorted).2

end

-- The same loop where the counters start at any values: a node is emitted once its own
-- count of released edges has reached its start.
structure Drained (children : Adjacency T) (start : T → Int) (nodes ordered : List T) (s : Frontier T) : Prop where
  distinct : (ordered ++ s.ready_nodes).Nodup
  known : ∀ x ∈ ordered ++ s.ready_nodes, x ∈ nodes
  spent : ∀ x ∈ ordered ++ s.ready_nodes, degree s.in_degree x ≤ 0
  counted : ∀ x, degree s.in_degree x = start x - ((ordered.flatMap (neighbors children)).count x : Int)
  waited : ∀ front x back, ordered = front ++ x :: back → start x ≤ ((front.flatMap (neighbors children)).count x : Int)

section
variable {push : List T → T → List T} {children : Adjacency T} {start : T → Int} {nodes : List T}

theorem drained_pop (pushed : ∀ heap node_id, (push heap node_id).Perm (heap ++ [node_id]))
    (inside : ∀ u, ∀ x ∈ neighbors children u, x ∈ nodes) {ordered heap : List T} {s : Frontier T} {node_id : T}
    (drained : Drained children start nodes ordered s) (ready : s.ready_nodes = node_id :: heap) :
    Drained children start nodes (ordered ++ [node_id]) (pop_turn push children node_id heap s.in_degree) := by
  obtain ⟨same,perm⟩ := released_heap pushed (neighbors children node_id) (s := ⟨s.in_degree,heap⟩) (t := ⟨s.in_degree,heap⟩)
    rfl (.refl heap)
  obtain ⟨lowered,fresh,appended,apart,entered⟩ := released (neighbors children node_id) ⟨s.in_degree,heap⟩
  have distinct := drained.distinct
  have known := drained.known
  have spent := drained.spent
  rw [ready] at distinct known spent
  have lowers : ∀ x, degree (pop_turn push children node_id heap s.in_degree).in_degree x =
      degree s.in_degree x - (neighbors children node_id).count x := fun x => by
    rw [pop_turn,same,lowered]
  have listed : ((ordered ++ [node_id]) ++ (pop_turn push children node_id heap s.in_degree).ready_nodes).Perm
      ((ordered ++ node_id :: heap) ++ fresh) := by
    refine (perm.append_left _).trans ?_
    rw [appended]
    simp
  constructor
  · refine listed.nodup_iff.mpr (List.nodup_append.mpr ⟨distinct,apart,fun x old y new twice => ?_⟩)
    subst twice
    have positive := (entered x new).2.1
    have done := spent x old
    dsimp only at positive
    omega
  · intro x member
    rcases List.mem_append.mp (listed.mem_iff.mp member) with old | new
    · exact known x old
    · exact inside node_id x (entered x new).1
  · intro x member
    rcases List.mem_append.mp (listed.mem_iff.mp member) with old | new
    · have done := spent x old
      rw [lowers]
      omega
    · have low := (entered x new).2.2
      rw [pop_turn,same]
      exact low
  · intro x
    rw [lowers,drained.counted,List.flatMap_append,List.count_append]
    simp only [List.flatMap_cons,List.flatMap_nil,List.append_nil]
    omega
  · intro front x back split
    rcases List.eq_nil_or_concat back with rfl | ⟨middle,last,rfl⟩
    · obtain ⟨rfl,alike⟩ := List.append_inj' split rfl
      cases alike
      have done := spent node_id (List.mem_append_right _ List.mem_cons_self)
      rw [drained.counted] at done
      omega
    · have whole : ordered ++ [node_id] = (front ++ x :: middle) ++ [last] := by simpa using split
      exact drained.waited front x middle (List.append_inj' whole rfl).1

theorem drain_drained (pushed : ∀ heap node_id, (push heap node_id).Perm (heap ++ [node_id]))
    (inside : ∀ u, ∀ x ∈ neighbors children u, x ∈ nodes) (fuel : Nat) {ordered : List T} {s : Frontier T}
    (drained : Drained children start nodes ordered s) :
    Drained children start nodes (drain_heap push children fuel ordered s).1 (drain_heap push children fuel ordered s).2 := by
  induction fuel generalizing ordered s with
  | zero => exact drained
  | succ fuel ih =>
      unfold drain_heap
      split
      · exact drained
      · rename_i node_id heap ready
        exact ih (drained_pop pushed inside drained ready)

-- Where every node is emitted, the order is one of all the nodes.
theorem Drained.whole {ordered : List T} {s : Frontier T} (drained : Drained children start nodes ordered s)
    (all : ordered.length = nodes.length) : ordered.Perm nodes := by
  have apart := (List.nodup_append.mp drained.distinct).1
  have sub := apart.subperm fun x member => drained.known x (List.mem_append_left _ member)
  exact sub.perm_of_length_le all.ge

end
end Lumilake

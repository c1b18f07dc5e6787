import Lumilake.Library.Dict
import Mathlib.Data.List.Sort
import Mathlib.Algebra.Order.BigOperators.Group.List
import Mathlib.Algebra.Order.Group.Nat
import Mathlib.Data.List.Perm.Subperm

namespace Lumilake
variable {T : Type} [DecidableEq T]

-- dict[T, set[T]]; a set is held as a list.
abbrev Adjacency (T : Type) := Dict T (List T)

-- The order in which each set hands out its elements, which is fixed by nothing.
structure SetOrder (T : Type) where
  list : T → List T → List T
  perm : ∀ node readers, (list node readers).Perm readers

def SetOrder.inserted : SetOrder T := ⟨fun _ readers => readers,fun _ _ => .refl _⟩

def SetOrder.arrange (order : SetOrder T) (graph : Adjacency T) : Adjacency T := graph.mapValues order.list

def neighbors (graph : Adjacency T) (node : T) : List T := (graph.get? node).getD []

def degree (in_degree : Dict T Int) (node : T) : Int := (in_degree.get? node).getD 0

def count_in_degree (graph : Adjacency T) : Dict T Int :=
  graph.entries.foldl
    (fun in_degree entry => entry.2.foldl (fun d neighbor => d.set neighbor (degree d neighbor + 1)) in_degree)
    (graph.mapValues fun _ _ => 0)

-- What the while loop carries: the counters and the next layer.
structure Frontier (T : Type) where
  in_degree : Dict T Int
  ready_nodes : List T

def release (s : Frontier T) (neighbor : T) : Frontier T :=
  let remaining := degree s.in_degree neighbor - 1
  ⟨s.in_degree.set neighbor remaining,if remaining = 0 then s.ready_nodes ++ [neighbor] else s.ready_nodes⟩

def sort_layer (secondary_key : Option (T → Nat)) (layer : List T) : List T :=
  match secondary_key with
  | some key => layer.insertionSort (fun a b => key a ≤ key b)
  | none => layer

def settle (graph : Adjacency T) (secondary_key : Option (T → Nat)) :
    Nat → List T → Frontier T → List T × Frontier T
  | 0,result,s => (result,s)
  | fuel + 1,result,s =>
      if s.ready_nodes = [] then (result,s)
      else
        let current_layer := sort_layer secondary_key s.ready_nodes
        settle graph secondary_key fuel (result ++ current_layer)
          (current_layer.foldl (fun s node => (neighbors graph node).foldl release s) ⟨s.in_degree,[]⟩)

-- Each turn of the loop takes a non-empty layer, so one turn more than there are nodes is enough.
def topological_sort (graph : Adjacency T) (secondary_key : Option (T → Nat)) : Except String (List T) :=
  let in_degree := count_in_degree graph
  let ready_nodes := (in_degree.entries.filter fun e => e.2 = 0).map Prod.fst
  let result := (settle graph secondary_key (in_degree.keys.length + 1) [] ⟨in_degree,ready_nodes⟩).1
  if result.length ≠ in_degree.keys.length then .error "Graph has at least one cycle."
  else .ok result

omit [DecidableEq T] in
theorem sort_layer_perm (secondary_key : Option (T → Nat)) (layer : List T) :
    (sort_layer secondary_key layer).Perm layer := by
  cases secondary_key with
  | none => exact List.Perm.refl _
  | some key => exact List.perm_insertionSort _ _

theorem degree_set (d : Dict T Int) (node : T) (v : Int) (x : T) :
    degree (d.set node v) x = if x = node then v else degree d x := by
  unfold degree
  by_cases same : x = node
  · subst same; simp [Dict.get?_set_self]
  · simp [Dict.get?_set_ne _ _ same,same]

theorem neighbors_set (graph : Adjacency T) (node : T) (ns : List T) (u : T) :
    neighbors (graph.set node ns) u = if u = node then ns else neighbors graph u := by
  unfold neighbors
  by_cases same : u = node
  · subst same; simp [Dict.get?_set_self]
  · simp [Dict.get?_set_ne _ _ same,same]

theorem degree_bump (ns : List T) (d : Dict T Int) (x : T) :
    degree (ns.foldl (fun d n => d.set n (degree d n + 1)) d) x = degree d x + ns.count x := by
  induction ns generalizing d with
  | nil => simp
  | cons n rest ih =>
      rw [List.foldl_cons,ih,degree_set,List.count_cons]
      by_cases same : x = n
      · subst same; simp; omega
      · simp [same,Ne.symm same]

theorem keys_bump {ns : List T} {d : Dict T Int} :
    x ∈ (ns.foldl (fun d n => d.set n (degree d n + 1)) d).keys ↔ x ∈ d.keys ∨ x ∈ ns := by
  induction ns generalizing d with
  | nil => simp
  | cons n rest ih =>
      rw [List.foldl_cons,ih,Dict.mem_keys_set,List.mem_cons,or_assoc]

theorem count_in_degree_flat (graph : Adjacency T) :
    count_in_degree graph = (graph.entries.flatMap Prod.snd).foldl
      (fun d n => d.set n (degree d n + 1)) (graph.mapValues fun _ _ => 0) := by
  rw [List.foldl_flatMap]; rfl

theorem degree_zero (graph : Adjacency T) (x : T) : degree (graph.mapValues fun _ _ => (0 : Int)) x = 0 := by
  unfold degree
  cases found : (graph.mapValues fun _ _ => (0 : Int)).get? x with
  | none => rfl
  | some v =>
      obtain ⟨e,_,same⟩ := List.mem_map.mp (Dict.get?_eq_some.mp found)
      cases same; rfl

theorem neighbors_entry {graph : Adjacency T} (member : e ∈ graph.entries) : neighbors graph e.1 = e.2 := by
  unfold neighbors
  rw [Dict.get?_eq_some.mpr (show (e.1,e.2) ∈ graph.entries from member)]; rfl

theorem mem_keys_of_neighbor {graph : Adjacency T} (edge : x ∈ neighbors graph u) : u ∈ graph.keys := by
  unfold neighbors at edge
  cases found : graph.get? u with
  | none => rw [found] at edge; cases edge
  | some ns => exact Dict.mem_keys_of_entry (Dict.get?_eq_some.mp found)

theorem edges_flat (graph : Adjacency T) :
    graph.entries.flatMap Prod.snd = graph.keys.flatMap (neighbors graph) := by
  rw [Dict.keys,List.flatMap_map]
  unfold List.flatMap
  exact congrArg List.flatten (List.map_congr_left fun e member => (neighbors_entry member).symm)

theorem degree_counted (graph : Adjacency T) (x : T) :
    degree (count_in_degree graph) x = ((graph.keys.flatMap (neighbors graph)).count x : Int) := by
  rw [count_in_degree_flat,degree_bump,degree_zero,edges_flat]; simp

theorem mem_count_in_degree {graph : Adjacency T} :
    x ∈ (count_in_degree graph).keys ↔ x ∈ graph.keys ∨ x ∈ graph.keys.flatMap (neighbors graph) := by
  rw [count_in_degree_flat,keys_bump,Dict.keys_mapValues,edges_flat]

-- Releasing edges lowers the counters by the edges released; a node enters the next
-- layer only when its counter passes from positive to zero.
theorem released (ns : List T) (s : Frontier T) :
    (∀ x, degree (ns.foldl release s).in_degree x = degree s.in_degree x - ns.count x) ∧
    ∃ fresh, (ns.foldl release s).ready_nodes = s.ready_nodes ++ fresh ∧ fresh.Nodup ∧
      ∀ y ∈ fresh, y ∈ ns ∧ 0 < degree s.in_degree y ∧ degree (ns.foldl release s).in_degree y ≤ 0 := by
  induction ns generalizing s with
  | nil => exact ⟨by simp,[],by simp⟩
  | cons n rest ih =>
      obtain ⟨lowered,fresh,appended,distinct,entered⟩ := ih (release s n)
      have one : ∀ x, degree (release s n).in_degree x = if x = n then degree s.in_degree n - 1 else degree s.in_degree x :=
        fun x => degree_set _ _ _ _
      rw [List.foldl_cons]
      refine ⟨?_,?_⟩
      · intro x
        rw [lowered,one,List.count_cons]
        by_cases same : x = n
        · subst same; simp; omega
        · simp [same,Ne.symm same]
      · by_cases last : degree s.in_degree n - 1 = 0
        · refine ⟨n :: fresh,?_,?_,?_⟩
          · rw [appended]; simp [release,last]
          · refine List.nodup_cons.mpr ⟨?_,distinct⟩
            intro again
            have positive := (entered n again).2.1
            rw [one,if_pos rfl] at positive
            omega
          · intro y member
            rcases List.mem_cons.mp member with rfl | later
            · refine ⟨List.mem_cons_self,by omega,?_⟩
              rw [lowered,one,if_pos rfl]
              omega
            · obtain ⟨known,positive,spent⟩ := entered y later
              refine ⟨List.mem_cons_of_mem _ known,?_,spent⟩
              rw [one] at positive
              split at positive
              · rename_i same; subst same; omega
              · exact positive
        · refine ⟨fresh,?_,distinct,?_⟩
          · rw [appended]; simp [release,last]
          · intro y later
            obtain ⟨known,positive,spent⟩ := entered y later
            refine ⟨List.mem_cons_of_mem _ known,?_,spent⟩
            rw [one] at positive
            split at positive
            · rename_i same; subst same; omega
            · exact positive

-- At the head of the while loop: nothing is emitted twice, a counter holds the edges not
-- yet released, and whatever is emitted comes after all its predecessors.
structure Settled (graph : Adjacency T) (result : List T) (s : Frontier T) : Prop where
  distinct : (result ++ s.ready_nodes).Nodup
  known : ∀ x ∈ result ++ s.ready_nodes, x ∈ (count_in_degree graph).keys
  spent : ∀ x ∈ result ++ s.ready_nodes, degree s.in_degree x ≤ 0
  counted : ∀ x, degree s.in_degree x =
    ((graph.keys.flatMap (neighbors graph)).count x : Int) - (result.flatMap (neighbors graph)).count x
  placed : ∀ x ∈ s.ready_nodes, ∀ u, x ∈ neighbors graph u → u ∈ result
  sorted : ∀ before x after, result = before ++ x :: after → ∀ u, x ∈ neighbors graph u → u ∈ before

theorem count_edges_le (graph : Adjacency T) {us : List T} (distinct : us.Nodup) (x : T) :
    (us.flatMap (neighbors graph)).count x ≤ (graph.keys.flatMap (neighbors graph)).count x := by
  have inside : (us.filter (· ∈ graph.keys)).Subperm graph.keys :=
    (distinct.filter _).subperm fun u member => by simpa using (List.mem_filter.mp member).2
  have outside : (us.flatMap (neighbors graph)).count x =
      ((us.filter (· ∈ graph.keys)).flatMap (neighbors graph)).count x := by
    clear distinct inside
    induction us with
    | nil => rfl
    | cons u rest ih =>
        by_cases present : u ∈ graph.keys
        · simp [present,ih]
        · have none_out : neighbors graph u = [] :=
            List.eq_nil_iff_forall_not_mem.mpr fun y edge => present (mem_keys_of_neighbor edge)
          simp [present,none_out,ih]
  rw [outside]
  obtain ⟨part,perm,sub⟩ := inside
  rw [List.count_flatMap,List.count_flatMap,← (perm.map _).sum_nat]
  exact (sub.map _).sum_le_sum fun _ _ => Nat.zero_le _

-- A spent counter means that every predecessor has been released.
theorem predecessors_released {graph : Adjacency T} {us : List T} (distinct : us.Nodup)
    (spent : ((graph.keys.flatMap (neighbors graph)).count x : Int) - (us.flatMap (neighbors graph)).count x ≤ 0) :
    ∀ u, x ∈ neighbors graph u → u ∈ us := by
  intro u edge
  by_contra missing
  have bound := count_edges_le graph (List.nodup_cons.mpr ⟨missing,distinct⟩) x
  rw [List.flatMap_cons,List.count_append] at bound
  have positive : 0 < (neighbors graph u).count x := List.count_pos_iff.mpr edge
  omega

theorem settled_start (graph : Adjacency T) : Settled graph []
    ⟨count_in_degree graph,((count_in_degree graph).entries.filter fun e => e.2 = 0).map Prod.fst⟩ := by
  have zero : ∀ x ∈ ((count_in_degree graph).entries.filter fun e => decide (e.2 = 0)).map Prod.fst,
      x ∈ (count_in_degree graph).keys ∧ degree (count_in_degree graph) x = 0 := by
    intro x member
    obtain ⟨e,kept,rfl⟩ := List.mem_map.mp member
    obtain ⟨entry,empty⟩ := List.mem_filter.mp kept
    refine ⟨List.mem_map_of_mem entry,?_⟩
    unfold degree
    rw [Dict.get?_eq_some.mpr (show (e.1,e.2) ∈ (count_in_degree graph).entries from entry)]
    simpa using empty
  refine ⟨?_,?_,?_,?_,?_,?_⟩
  · exact (count_in_degree graph).distinct.sublist (List.filter_sublist.map _)
  · exact fun x member => (zero x member).1
  · exact fun x member => (zero x member).2.le
  · intro x; rw [degree_counted]; simp
  · intro x member
    have empty := (zero x member).2
    rw [degree_counted] at empty
    exact predecessors_released List.nodup_nil (by simp only [List.flatMap_nil,List.count_nil]; omega)
  · intro before x after split
    simp at split

theorem sorted_append {graph : Adjacency T} {result layer : List T}
    (sorted : ∀ before x after, result = before ++ x :: after → ∀ u, x ∈ neighbors graph u → u ∈ before)
    (placed : ∀ x ∈ layer, ∀ u, x ∈ neighbors graph u → u ∈ result) :
    ∀ before x after, result ++ layer = before ++ x :: after → ∀ u, x ∈ neighbors graph u → u ∈ before := by
  intro before x after split u edge
  rcases List.append_eq_append_iff.mp split with ⟨middle,front,back⟩ | ⟨middle,front,back⟩
  · rw [front]
    have member : x ∈ layer := by rw [back]; simp
    exact List.mem_append_left _ (placed x member u edge)
  · cases middle with
    | nil =>
        have member : x ∈ layer := by
          have same : layer = x :: after := by simpa using back.symm
          rw [same]; exact List.mem_cons_self
        have here := placed x member u edge
        rw [front] at here
        simpa using here
    | cons y rest =>
        obtain ⟨same,_⟩ := List.cons.inj back
        subst same
        exact sorted before x rest front u edge

-- Part of the ready nodes is taken, in any order; the others wait.
theorem settled_turn {graph : Adjacency T} {result : List T} {s : Frontier T} (settled : Settled graph result s)
    {layer left : List T} (perm : (layer ++ left).Perm s.ready_nodes) :
    Settled graph (result ++ layer)
      (layer.foldl (fun s node => (neighbors graph node).foldl release s) ⟨s.in_degree,left⟩) := by
  rw [← List.foldl_flatMap]
  obtain ⟨lowered,fresh,appended,distinct,entered⟩ := released (layer.flatMap (neighbors graph)) ⟨s.in_degree,left⟩
  have same : ((result ++ layer) ++ left).Perm (result ++ s.ready_nodes) := by
    rw [List.append_assoc]
    exact perm.append_left result
  have taken : ((result ++ layer) ++ left).Nodup := same.nodup_iff.mpr settled.distinct
  have counted : ∀ x, degree ((layer.flatMap (neighbors graph)).foldl release ⟨s.in_degree,left⟩).in_degree x =
      ((graph.keys.flatMap (neighbors graph)).count x : Int) - ((result ++ layer).flatMap (neighbors graph)).count x := by
    intro x
    rw [lowered,settled.counted,List.flatMap_append,List.count_append]
    push_cast
    omega
  have kept : ∀ x ∈ (result ++ layer) ++ left, degree s.in_degree x ≤ 0 :=
    fun x member => settled.spent x (same.mem_iff.mp member)
  refine ⟨?_,?_,?_,counted,?_,?_⟩
  · rw [appended,← List.append_assoc]
    refine List.nodup_append.mpr ⟨taken,distinct,?_⟩
    intro x old y new equal
    subst equal
    have positive : 0 < degree s.in_degree x := (entered x new).2.1
    have spent := kept x old
    omega
  · intro x member
    rw [appended,← List.append_assoc] at member
    rcases List.mem_append.mp member with old | new
    · exact settled.known x (same.mem_iff.mp old)
    · obtain ⟨u,_,edge⟩ := List.mem_flatMap.mp (entered x new).1
      exact mem_count_in_degree.mpr (.inr (List.mem_flatMap.mpr ⟨u,mem_keys_of_neighbor edge,edge⟩))
  · intro x member
    rw [appended,← List.append_assoc] at member
    rcases List.mem_append.mp member with old | new
    · have spent := kept x old
      have lower := lowered x
      dsimp only at lower
      omega
    · exact (entered x new).2.2
  · intro x member
    have spent : degree ((layer.flatMap (neighbors graph)).foldl release ⟨s.in_degree,left⟩).in_degree x ≤ 0 := by
      rw [appended] at member
      rcases List.mem_append.mp member with waiting | new
      · have spent := kept x (List.mem_append_right _ waiting)
        have lower := lowered x
        dsimp only at lower
        omega
      · exact (entered x new).2.2
    rw [counted] at spent
    exact predecessors_released (List.nodup_append.mp taken).1 spent
  · exact sorted_append settled.sorted fun x member =>
      settled.placed x (perm.mem_iff.mp (List.mem_append_left _ member))

-- Only the set of ready nodes counts.
theorem settled_perm {graph : Adjacency T} {result : List T} {s t : Frontier T} (settled : Settled graph result s)
    (same : t.in_degree = s.in_degree) (perm : t.ready_nodes.Perm s.ready_nodes) : Settled graph result t := by
  have all : (result ++ t.ready_nodes).Perm (result ++ s.ready_nodes) := perm.append_left result
  refine ⟨all.nodup_iff.mpr settled.distinct,fun x member => settled.known x (all.mem_iff.mp member),?_,?_,?_,
    settled.sorted⟩
  · intro x member
    rw [same]
    exact settled.spent x (all.mem_iff.mp member)
  · rw [same]; exact settled.counted
  · exact fun x member => settled.placed x (perm.mem_iff.mp member)

theorem settled_bound {graph : Adjacency T} {result : List T} {s : Frontier T} (settled : Settled graph result s) :
    (result ++ s.ready_nodes).length ≤ (count_in_degree graph).keys.length :=
  (settled.distinct.subperm settled.known).length_le

-- The fuel never runs out before the layers do.
theorem settle_finished {graph : Adjacency T} (secondary_key : Option (T → Nat)) (fuel : Nat) {result : List T}
    {s : Frontier T} (settled : Settled graph result s)
    (enough : (count_in_degree graph).keys.length < result.length + fuel) :
    Settled graph (settle graph secondary_key fuel result s).1 (settle graph secondary_key fuel result s).2 ∧
      (settle graph secondary_key fuel result s).2.ready_nodes = [] := by
  induction fuel generalizing result s with
  | zero =>
      have bound := settled_bound settled
      rw [List.length_append] at bound
      omega
  | succ fuel ih =>
      unfold settle
      split
      · rename_i empty
        exact ⟨settled,empty⟩
      · rename_i busy
        have perm := sort_layer_perm secondary_key s.ready_nodes
        apply ih (settled_turn settled (show (sort_layer secondary_key s.ready_nodes ++ []).Perm s.ready_nodes by simpa using perm))
        have filled : 0 < s.ready_nodes.length := List.length_pos_iff.mpr busy
        rw [List.length_append,perm.length_eq]
        omega

theorem topological_sort_spec {graph : Adjacency T} {secondary_key : Option (T → Nat)} {result : List T}
    (sorted : topological_sort graph secondary_key = .ok result) :
    result.Perm (count_in_degree graph).keys ∧
      ∀ before x after, result = before ++ x :: after → ∀ u, x ∈ neighbors graph u → u ∈ before := by
  unfold topological_sort at sorted
  simp only at sorted
  split at sorted
  · cases sorted
  · rename_i complete
    cases sorted
    obtain ⟨settled,drained⟩ := settle_finished secondary_key
      ((count_in_degree graph).keys.length + 1) (settled_start graph) (by simp)
    refine ⟨?_,settled.sorted⟩
    have inside := settled.distinct.subperm settled.known
    rw [drained,List.append_nil] at inside
    exact inside.perm_of_length_le (not_not.mp complete).ge

-- The other direction of `released`: whatever is spent on the way waits in the next layer.
theorem spent_ready (ns : List T) (s : Frontier T) {y : T} (positive : 0 < degree s.in_degree y)
    (spent : degree (ns.foldl release s).in_degree y ≤ 0) : y ∈ (ns.foldl release s).ready_nodes := by
  induction ns generalizing s with
  | nil => exact absurd positive (by simpa using spent)
  | cons n rest ih =>
      rw [List.foldl_cons] at spent ⊢
      have one : degree (release s n).in_degree y = if y = n then degree s.in_degree n - 1 else degree s.in_degree y :=
        degree_set _ _ _ _
      by_cases still : 0 < degree (release s n).in_degree y
      · exact ih (release s n) still spent
      · have same : y = n := by
          by_contra other
          rw [one,if_neg other] at still
          exact still positive
        subst same
        rw [one,if_pos rfl] at still
        obtain ⟨_,fresh,appended,_,_⟩ := released rest (release s y)
        rw [appended]
        have last : degree s.in_degree y - 1 = 0 := by omega
        simp [release,last]

-- At the head of the while loop: no spent node has been passed by.
def Exhausted (graph : Adjacency T) (result : List T) (s : Frontier T) : Prop :=
  ∀ x ∈ (count_in_degree graph).keys, degree s.in_degree x ≤ 0 → x ∈ result ++ s.ready_nodes

theorem exhausted_start (graph : Adjacency T) : Exhausted graph []
    ⟨count_in_degree graph,((count_in_degree graph).entries.filter fun e => e.2 = 0).map Prod.fst⟩ := by
  intro x known spent
  obtain ⟨v,found⟩ := Dict.mem_keys_iff.mp known
  have counted := degree_counted graph x
  have value : degree (count_in_degree graph) x = v := by simp [degree,found]
  have zero : v = 0 := by
    dsimp only at spent
    omega
  subst zero
  exact List.mem_map.mpr ⟨(x,0),List.mem_filter.mpr ⟨Dict.get?_eq_some.mp found,by simp⟩,rfl⟩

theorem settle_exhausted {graph : Adjacency T} (secondary_key : Option (T → Nat)) (fuel : Nat) {result : List T}
    {s : Frontier T} (exhausted : Exhausted graph result s) :
    Exhausted graph (settle graph secondary_key fuel result s).1 (settle graph secondary_key fuel result s).2 := by
  induction fuel generalizing result s with
  | zero => exact exhausted
  | succ fuel ih =>
      unfold settle
      split
      · exact exhausted
      · apply ih
        intro x known spent
        rw [← List.foldl_flatMap] at spent ⊢
        have perm := sort_layer_perm secondary_key s.ready_nodes
        by_cases positive : 0 < degree s.in_degree x
        · exact List.mem_append_right _ (spent_ready _ ⟨s.in_degree,[]⟩ positive spent)
        · have old := exhausted x known (by omega)
          refine List.mem_append_left _ ?_
          rcases List.mem_append.mp old with done | waiting
          · exact List.mem_append_left _ done
          · exact List.mem_append_right _ (perm.mem_iff.mpr waiting)

-- Once all its predecessors are out, a counter is spent.
theorem counter_spent {graph : Adjacency T} {us : List T} {x : T} (all : ∀ u, x ∈ neighbors graph u → u ∈ us) :
    (graph.keys.flatMap (neighbors graph)).count x ≤ (us.flatMap (neighbors graph)).count x := by
  have only : (graph.keys.flatMap (neighbors graph)).count x =
      ((graph.keys.filter (fun u => x ∈ neighbors graph u)).flatMap (neighbors graph)).count x := by
    generalize graph.keys = keys
    induction keys with
    | nil => rfl
    | cons u rest ih =>
        by_cases edge : x ∈ neighbors graph u
        · simp [edge,ih]
        · simp [edge,ih,List.count_eq_zero.mpr edge]
  have inside : (graph.keys.filter (fun u => x ∈ neighbors graph u)).Subperm us :=
    (graph.keys_nodup.filter _).subperm fun u member => all u (by simpa using (List.mem_filter.mp member).2)
  rw [only]
  obtain ⟨part,perm,sub⟩ := inside
  rw [List.count_flatMap,List.count_flatMap,← (perm.map _).sum_nat]
  exact (sub.map _).sum_le_sum fun _ _ => Nat.zero_le _

-- The sort answers whenever the edges follow some order.
theorem topological_sort_complete {graph : Adjacency T} (secondary_key : Option (T → Nat)) (rank : T → Nat)
    (ranked : ∀ u x, x ∈ neighbors graph u → rank u < rank x) :
    ∃ result, topological_sort graph secondary_key = .ok result := by
  obtain ⟨settled,drained⟩ := settle_finished secondary_key
    ((count_in_degree graph).keys.length + 1) (settled_start graph) (by simp)
  have exhausted := settle_exhausted secondary_key ((count_in_degree graph).keys.length + 1) (exhausted_start graph)
  unfold topological_sort
  dsimp only
  generalize settle graph secondary_key ((count_in_degree graph).keys.length + 1) []
    ⟨count_in_degree graph,((count_in_degree graph).entries.filter fun e => e.2 = 0).map Prod.fst⟩ = finished
    at settled drained exhausted ⊢
  obtain ⟨result,s⟩ := finished
  dsimp only at settled drained exhausted ⊢
  have all : ∀ n x, rank x = n → x ∈ (count_in_degree graph).keys → x ∈ result := by
    intro n
    induction n using Nat.strong_induction_on with
    | _ n ih =>
        intro x same known
        have before : ∀ u, x ∈ neighbors graph u → u ∈ result := fun u edge =>
          ih (rank u) (same ▸ ranked u x edge) u rfl (mem_count_in_degree.mpr (.inl (mem_keys_of_neighbor edge)))
        have spent := counter_spent before
        have counted := settled.counted x
        have out := exhausted x known (by omega)
        rwa [drained,List.append_nil] at out
  have inside := settled.distinct.subperm settled.known
  rw [drained,List.append_nil] at inside
  have outside := (count_in_degree graph).keys_nodup.subperm fun x known => all _ x rfl known
  have complete : result.length = (count_in_degree graph).keys.length :=
    Nat.le_antisymm inside.length_le outside.length_le
  rw [if_neg (not_not.mpr complete)]
  exact ⟨result,rfl⟩

end Lumilake

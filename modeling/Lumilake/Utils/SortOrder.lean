import Lumilake.Utils.Graph
import Mathlib.Order.Lattice.Nat
import Mathlib.Order.ConditionallyCompleteLattice.Finset

namespace Lumilake
variable {T : Type}

-- A chain of `n` readers that starts at a node which reads nothing.
inductive Chain (reads : T → T → Prop) : Nat → T → T → Prop
  | bare {r : T} (none_read : ∀ u, ¬reads r u) : Chain reads 0 r r
  | next {n : Nat} {r u x : T} (chain : Chain reads n r u) (edge : reads x u) : Chain reads (n + 1) r x

-- Some chain to `b` is longer than all chains to `a`, or as long as the longest of them and
-- from a later start.
def Before (reads : T → T → Prop) (place : T → Nat) (a b : T) : Prop :=
  ∃ n r, Chain reads n r b ∧ ∀ m q, Chain reads m q a → m < n ∨ (m = n ∧ place q < place r)

section
variable {reads : T → T → Prop} {place level : T → Nat} {size n : Nat} {r x u : T}

theorem Chain.of_bare (chain : Chain reads n r x) (none_read : ∀ u, ¬reads x u) : n = 0 ∧ r = x := by
  cases chain with
  | bare _ => exact ⟨rfl,rfl⟩
  | next _ edge => exact absurd edge (none_read _)

theorem Chain.short (ordered : ∀ x u, reads x u → level u < level x) (chain : Chain reads n r x) : n ≤ level x := by
  induction chain with
  | bare _ => exact Nat.zero_le _
  | next _ edge ih =>
      have higher := ordered _ _ edge
      omega

theorem exists_chain (ordered : ∀ x u, reads x u → level u < level x) (x : T) : ∃ n r, Chain reads n r x := by
  induction here : level x using Nat.strong_induction_on generalizing x with
  | _ high ih =>
      by_cases some_read : ∃ u, reads x u
      · obtain ⟨u,edge⟩ := some_read
        obtain ⟨n,r,chain⟩ := ih (level u) (here ▸ ordered x u edge) u rfl
        exact ⟨n + 1,r,chain.next edge⟩
      · exact ⟨0,x,.bare fun u edge => some_read ⟨u,edge⟩⟩

-- A chain as one number: its length first, then its start.
def weights (reads : T → T → Prop) (place : T → Nat) (size : Nat) (x : T) : Set Nat :=
  { w | ∃ n r, Chain reads n r x ∧ w = n * size + place r }

noncomputable def rank (reads : T → T → Prop) (place : T → Nat) (size : Nat) (x : T) : Nat :=
  sSup (weights reads place size x)

-- A graph without cycles, whose starts are numbered below `size`.
structure Layering (reads : T → T → Prop) (place level : T → Nat) (size : Nat) : Prop where
  ordered : ∀ x u, reads x u → level u < level x
  placed : ∀ r, place r < size

namespace Layering
variable (layering : Layering reads place level size)
include layering

theorem bounded (x : T) : BddAbove (weights reads place size x) := by
  refine ⟨level x * size + size,?_⟩
  rintro w ⟨n,r,chain,rfl⟩
  have short := Nat.mul_le_mul_right size (chain.short layering.ordered)
  have start := layering.placed r
  omega

theorem rank_reached (x : T) : ∃ n r, Chain reads n r x ∧ rank reads place size x = n * size + place r := by
  obtain ⟨n,r,chain⟩ := exists_chain layering.ordered x
  have some_weight : (weights reads place size x).Nonempty := ⟨n * size + place r,n,r,chain,rfl⟩
  exact Nat.sSup_mem some_weight (layering.bounded x)

theorem le_rank (chain : Chain reads n r x) : n * size + place r ≤ rank reads place size x :=
  le_csSup (layering.bounded x) ⟨n,r,chain,rfl⟩

theorem rank_bare (none_read : ∀ u, ¬reads x u) : rank reads place size x = place x := by
  obtain ⟨n,r,chain,same⟩ := layering.rank_reached x
  obtain ⟨rfl,rfl⟩ := chain.of_bare none_read
  simpa using same

theorem rank_up (edge : reads x u) : rank reads place size u + size ≤ rank reads place size x := by
  obtain ⟨n,r,chain,same⟩ := layering.rank_reached u
  have longer := layering.le_rank (chain.next edge)
  rw [Nat.add_mul] at longer
  omega

-- The rank of a reader is one layer above that of the last node it reads.
theorem rank_from (edge : reads x u) : ∃ v, reads x v ∧ rank reads place size x = rank reads place size v + size := by
  obtain ⟨n,r,chain,same⟩ := layering.rank_reached x
  cases chain with
  | bare none_read => exact absurd edge (none_read u)
  | @next m _ v _ chain edge =>
      refine ⟨v,edge,Nat.le_antisymm ?_ (layering.rank_up edge)⟩
      have reached := layering.le_rank chain
      rw [Nat.add_mul] at same
      omega

theorem weight_lt {m n : Nat} (q r : T) :
    m * size + place q < n * size + place r ↔ m < n ∨ (m = n ∧ place q < place r) := by
  have first := layering.placed q
  have second := layering.placed r
  rcases Nat.lt_trichotomy m n with less | rfl | more
  · have step := Nat.mul_le_mul_right size (Nat.succ_le_of_lt less)
    rw [Nat.succ_mul] at step
    exact ⟨fun _ => .inl less,fun _ => by omega⟩
  · simp
  · have step := Nat.mul_le_mul_right size (Nat.succ_le_of_lt more)
    rw [Nat.succ_mul] at step
    constructor
    · intro wrong
      omega
    · intro wrong
      omega

theorem before_iff (a b : T) : Before reads place a b ↔ rank reads place size a < rank reads place size b := by
  constructor
  · rintro ⟨n,r,chain,beyond⟩
    obtain ⟨m,q,other,same⟩ := layering.rank_reached a
    rw [same]
    exact ((layering.weight_lt q r).mpr (beyond m q other)).trans_le (layering.le_rank chain)
  · intro less
    obtain ⟨n,r,chain,same⟩ := layering.rank_reached b
    refine ⟨n,r,chain,fun m q other => (layering.weight_lt q r).mp ?_⟩
    rw [← same]
    exact (layering.le_rank other).trans_lt less

end Layering
end

theorem last_alone {fresh others own front back : List T} {x : T} (distinct : fresh.Nodup)
    (within : fresh.Sublist (others ++ own)) (absent : x ∉ others) (alone : ∀ y ∈ own, y = x)
    (split : fresh = front ++ x :: back) : back = [] := by
  refine List.eq_nil_iff_forall_not_mem.mpr fun b later => ?_
  have pair : [x,b].Sublist (others ++ own) := by
    apply List.Sublist.trans _ within
    rw [split]
    exact ((List.singleton_sublist.mpr later).cons_cons x).trans (List.sublist_append_right _ _)
  obtain ⟨first,second,parts,in_others,in_own⟩ := List.sublist_append_iff.mp pair
  cases first with
  | nil =>
      rw [List.nil_append] at parts
      rw [← parts] at in_own
      have same : b = x := alone b (in_own.subset (by simp))
      rw [split,List.nodup_append,List.nodup_cons] at distinct
      exact distinct.2.1.1 (same ▸ later)
  | cons head tail =>
      obtain ⟨same,_⟩ := List.cons.inj parts
      exact absent (same ▸ in_others.subset List.mem_cons_self)

theorem pairwise_of_splits {R : T → T → Prop} {l : List T}
    (each : ∀ front a back, l = front ++ a :: back → ∀ b ∈ back, R a b) : l.Pairwise R := by
  induction l with
  | nil => exact .nil
  | cons a rest ih =>
      exact List.pairwise_cons.mpr ⟨each [] a rest rfl,ih fun front b back split => each (a :: front) b back (by rw [split]; rfl)⟩

section
variable [DecidableEq T]

def Reader (graph : Adjacency T) (x u : T) : Prop := x ∈ neighbors graph u

theorem release_frame (ns front : List T) (s : Frontier T) : ns.foldl release ⟨s.in_degree,front ++ s.ready_nodes⟩ =
    ⟨(ns.foldl release s).in_degree,front ++ (ns.foldl release s).ready_nodes⟩ := by
  induction ns generalizing s with
  | nil => rfl
  | cons n rest ih =>
      have turn : release ⟨s.in_degree,front ++ s.ready_nodes⟩ n =
          ⟨(release s n).in_degree,front ++ (release s n).ready_nodes⟩ := by
        dsimp only [release]
        split_ifs
        · rw [List.append_assoc]
        · rfl
      rw [List.foldl_cons,List.foldl_cons,turn,ih]

-- The next layer takes the readers of a node in the order in which they are listed.
theorem released_in_order (ns : List T) (s : Frontier T) :
    ∃ fresh, (ns.foldl release s).ready_nodes = s.ready_nodes ++ fresh ∧ fresh.Sublist ns := by
  induction ns generalizing s with
  | nil => exact ⟨[],by simp,.slnil⟩
  | cons n rest ih =>
      obtain ⟨fresh,appended,within⟩ := ih (release s n)
      rw [List.foldl_cons,appended]
      by_cases last : degree s.in_degree n - 1 = 0
      · exact ⟨n :: fresh,by simp [release,last],within.cons_cons n⟩
      · exact ⟨fresh,by simp [release,last],within.cons n⟩

variable (graph : Adjacency T) (height : T → Nat) (size : Nat) (chosen : T → Prop)

def Risen (a b : T) : Prop := height a ≤ height b ∧ (chosen a → height a < height b)

-- Each chosen node reads a chosen one just below it, which lists it last.
def Drawn : Prop := ∀ x u, chosen x → x ∈ neighbors graph u → ∃ v, chosen v ∧ x ∈ neighbors graph v ∧
  height x = height v + size ∧ ∃ others own, neighbors graph v = others ++ own ∧ x ∉ others ∧ ∀ y ∈ own, y = x

-- The nodes that are out and those that wait, as one queue: sorted by height, and no further
-- than a layer apart from the first that waits.
structure Queued (result : List T) (s : Frontier T) : Prop where
  settled : Settled graph result s
  sorted : (result ++ s.ready_nodes).Pairwise (Risen height chosen)
  spread : ∀ x ∈ s.ready_nodes, ∀ y ∈ result ++ s.ready_nodes, height y ≤ height x + size

-- Heights that follow the edges.
structure Heights : Prop where
  start : ∀ x, (∀ u, x ∉ neighbors graph u) → height x < size
  up : ∀ x u, x ∈ neighbors graph u → height u + size ≤ height x
  source : ∀ x u, x ∈ neighbors graph u → ∃ v, x ∈ neighbors graph v ∧ height x = height v + size

variable {graph height size chosen}

theorem Queued.read_out {result : List T} {s : Frontier T} (queued : Queued graph height size chosen result s) {x v : T}
    (member : x ∈ result ++ s.ready_nodes) (read : x ∈ neighbors graph v) : v ∈ result := by
  rcases List.mem_append.mp member with out | waiting
  · obtain ⟨front,back,split⟩ := List.append_of_mem out
    have earlier := queued.settled.sorted front x back split v read
    rw [split]
    exact List.mem_append_left _ earlier
  · exact queued.settled.placed x waiting v read

theorem Queued.turn (heights : Heights graph height size) (drawn : Drawn graph height size chosen) {result : List T}
    {d : Dict T Int} {u : T} {rest left : List T} (queued : Queued graph height size chosen result ⟨d,u :: (rest ++ left)⟩) :
    Queued graph height size chosen (result ++ [u]) ⟨((neighbors graph u).foldl release ⟨d,left⟩).in_degree,
      rest ++ ((neighbors graph u).foldl release ⟨d,left⟩).ready_nodes⟩ := by
  have settled := settled_turn queued.settled (List.Perm.refl ([u] ++ (rest ++ left)))
  rw [List.foldl_cons,List.foldl_nil,show (⟨d,rest ++ left⟩ : Frontier T) =
    ⟨(⟨d,left⟩ : Frontier T).in_degree,rest ++ (⟨d,left⟩ : Frontier T).ready_nodes⟩ from rfl,release_frame] at settled
  obtain ⟨fresh,appended,within⟩ := released_in_order (neighbors graph u) ⟨d,left⟩
  rw [appended] at settled ⊢
  have order : (result ++ [u]) ++ (rest ++ (left ++ fresh)) = (result ++ u :: (rest ++ left)) ++ fresh := by simp
  have waits : ∀ x ∈ fresh, x ∈ rest ++ (left ++ fresh) := fun x new => by simp [new]
  have below : ∀ v ∈ result, Risen height chosen v u := fun v out =>
    (List.pairwise_append.mp queued.sorted).2.2 v out u List.mem_cons_self
  -- what is released stands one layer above the node that releases it
  have lifted : ∀ x ∈ fresh, height x = height u + size := by
    intro x new
    have edge := within.subset new
    obtain ⟨v,read,same⟩ := heights.source x u edge
    have out := settled.placed x (waits x new) v read
    have most : height v ≤ height u := by
      rcases List.mem_append.mp out with out | here
      · exact (below v out).1
      · rw [List.mem_singleton.mp here]
    have least := heights.up x u edge
    omega
  have distinct : fresh.Nodup := by
    have all := settled.distinct
    simp only [List.nodup_append] at all
    exact all.2.1.2.1.2.1
  refine ⟨settled,?_,?_⟩
  · dsimp only
    rw [order]
    refine List.pairwise_append.mpr ⟨queued.sorted,?_,fun y old x new => ⟨?_,fun picked => ?_⟩⟩
    · refine pairwise_of_splits fun front a back split b later => ?_
      have new : a ∈ fresh := by simp [split]
      have new' : b ∈ fresh := by simp [split,later]
      refine ⟨by rw [lifted a new,lifted b new'],fun picked => ?_⟩
      obtain ⟨v,picked',read,same,others,own,listed,absent,alone⟩ := drawn a u picked (within.subset new)
      have here : v = u := by
        rcases List.mem_append.mp (settled.placed a (waits a new) v read) with out | here
        · have higher := (below v out).2 picked'
          have above := lifted a new
          omega
        · exact List.mem_singleton.mp here
      subst here
      rw [listed] at within
      rw [last_alone distinct within absent alone split] at later
      cases later
    · rw [lifted x new]
      exact queued.spread u List.mem_cons_self y old
    · rw [lifted x new]
      by_cases start : ∀ v, y ∉ neighbors graph v
      · exact (heights.start y start).trans_le (Nat.le_add_left _ _)
      · rw [not_forall_not] at start
        obtain ⟨w,read⟩ := start
        obtain ⟨v,picked',read,same,_⟩ := drawn y w picked read
        have higher := (below v (queued.read_out old read)).2 picked'
        omega
  · intro x waiting y member
    dsimp only at member
    rw [order] at member
    rcases List.mem_append.mp (show x ∈ (rest ++ left) ++ fresh by simpa using waiting) with old | new
    · have after : height u ≤ height x :=
        ((List.pairwise_cons.mp (List.pairwise_append.mp queued.sorted).2.1).1 x old).1
      rcases List.mem_append.mp member with old' | new'
      · exact queued.spread x (List.mem_cons_of_mem _ old) y old'
      · rw [lifted y new']
        omega
    · rw [lifted x new]
      rcases List.mem_append.mp member with old' | new'
      · exact (queued.spread u List.mem_cons_self y old').trans (Nat.le_add_right _ _)
      · rw [lifted y new']
        exact Nat.le_add_right _ _

theorem Queued.layer (heights : Heights graph height size) (drawn : Drawn graph height size chosen) (layer : List T)
    {result left : List T} {d : Dict T Int} (queued : Queued graph height size chosen result ⟨d,layer ++ left⟩) :
    Queued graph height size chosen (result ++ layer)
      (layer.foldl (fun s node => (neighbors graph node).foldl release s) ⟨d,left⟩) := by
  induction layer generalizing result left d with
  | nil => simpa using queued
  | cons u rest ih =>
      have rest_done := ih (queued.turn heights drawn)
      rwa [List.append_assoc,List.singleton_append] at rest_done

theorem Queued.settle (heights : Heights graph height size) (drawn : Drawn graph height size chosen) (fuel : Nat)
    {result : List T} {s : Frontier T} (queued : Queued graph height size chosen result s) :
    Queued graph height size chosen (settle graph none fuel result s).1 (settle graph none fuel result s).2 := by
  induction fuel generalizing result s with
  | zero => exact queued
  | succ fuel ih =>
      unfold Lumilake.settle
      split
      · exact queued
      · apply ih
        apply Queued.layer heights drawn s.ready_nodes
        simpa using queued

theorem keys_bump_grow (ns : List T) (d : Dict T Int) :
    ∃ extra, (ns.foldl (fun d n => d.set n (degree d n + 1)) d).keys = d.keys ++ extra := by
  induction ns generalizing d with
  | nil => exact ⟨[],by simp⟩
  | cons n rest ih =>
      obtain ⟨extra,keys⟩ := ih (d.set n (degree d n + 1))
      rw [List.foldl_cons,keys]
      by_cases known : n ∈ d.keys
      · exact ⟨extra,by rw [Dict.keys_set_of_mem known]⟩
      · exact ⟨n :: extra,by rw [Dict.keys_set_of_not_mem known]; simp⟩

theorem queued_start (heights : Heights graph height size)
    (placed : graph.keys.Pairwise fun a b => (∀ u, a ∉ neighbors graph u) → (∀ u, b ∉ neighbors graph u) → height a < height b) :
    Queued graph height size chosen []
      ⟨count_in_degree graph,((count_in_degree graph).entries.filter fun e => e.2 = 0).map Prod.fst⟩ := by
  have settled := settled_start graph
  have bare : ∀ x ∈ ((count_in_degree graph).entries.filter fun e => e.2 = 0).map Prod.fst,
      ∀ u, x ∉ neighbors graph u := fun x waiting u read => by cases settled.placed x waiting u read
  obtain ⟨extra,keys⟩ := keys_bump_grow (graph.entries.flatMap Prod.snd) (graph.mapValues fun _ _ => 0)
  rw [← count_in_degree_flat,Dict.keys_mapValues] at keys
  have among : (((count_in_degree graph).entries.filter fun e => e.2 = 0).map Prod.fst).Sublist (graph.keys ++ extra) := by
    rw [← keys]
    exact List.filter_sublist.map Prod.fst
  have first : (((count_in_degree graph).entries.filter fun e => e.2 = 0).map Prod.fst).Sublist graph.keys := by
    obtain ⟨own,other,parts,in_keys,in_extra⟩ := List.sublist_append_iff.mp among
    have none_other : other = [] := by
      refine List.eq_nil_iff_forall_not_mem.mpr fun x member => ?_
      have apart := (count_in_degree graph).keys_nodup
      rw [keys] at apart
      have fresh : x ∉ graph.keys := fun old => (List.nodup_append.mp apart).2.2 x old x (in_extra.subset member) rfl
      have counted : x ∈ (count_in_degree graph).keys := keys ▸ List.mem_append_right _ (in_extra.subset member)
      rcases mem_count_in_degree.mp counted with old | read
      · exact fresh old
      · obtain ⟨u,_,read⟩ := List.mem_flatMap.mp read
        exact bare x (parts ▸ List.mem_append_right _ member) u read
    rw [parts,none_other,List.append_nil]
    exact in_keys
  refine ⟨settled,?_,fun x waiting y member => ?_⟩
  · refine (placed.sublist first).imp_of_mem fun mem mem' above => ?_
    have less := above (bare _ mem) (bare _ mem')
    exact ⟨less.le,fun _ => less⟩
  · have low := heights.start y (bare y member)
    omega

-- What is sorted stands by height, and a chosen node behind all that are as high.
theorem sort_risen (heights : Heights graph height size) (drawn : Drawn graph height size chosen)
    (placed : graph.keys.Pairwise fun a b => (∀ u, a ∉ neighbors graph u) → (∀ u, b ∉ neighbors graph u) → height a < height b)
    {result : List T} (sorted : topological_sort graph none = .ok result) : result.Pairwise (Risen height chosen) := by
  unfold topological_sort at sorted
  dsimp only at sorted
  split at sorted
  · cases sorted
  · cases sorted
    have queued := (queued_start heights placed).settle heights drawn ((count_in_degree graph).keys.length + 1)
    exact (List.pairwise_append.mp queued.sorted).1

theorem neighbors_arrange (order : SetOrder T) (graph : Adjacency T) (u : T) :
    neighbors (order.arrange graph) u = order.list u (neighbors graph u) := by
  unfold neighbors SetOrder.arrange
  cases found : graph.get? u with
  | some readers => rw [Dict.get?_mapValues found]; rfl
  | none =>
      have absent : u ∉ (graph.mapValues order.list).keys := by
        rw [Dict.keys_mapValues]
        exact Dict.get?_eq_none.mp found
      rw [Dict.get?_eq_none.mpr absent]
      exact (order.perm u []).symm.nil_eq

theorem mem_neighbors_arrange {order : SetOrder T} {x u : T} :
    x ∈ neighbors (order.arrange graph) u ↔ x ∈ neighbors graph u := by
  rw [neighbors_arrange]
  exact (order.perm u _).mem_iff

variable {place level : T → Nat} (layering : Layering (Reader graph) place level size)
  (placed : graph.keys.Pairwise fun a b => place a < place b)
include layering

theorem arranged_heights (order : SetOrder T) :
    Heights (order.arrange graph) (rank (Reader graph) place size) size where
  start x none_read := by
    rw [layering.rank_bare fun u read => none_read u (mem_neighbors_arrange.mpr read)]
    exact layering.placed x
  up x u read := layering.rank_up (mem_neighbors_arrange.mp read)
  source x u read := by
    obtain ⟨v,edge,same⟩ := layering.rank_from (mem_neighbors_arrange.mp read)
    exact ⟨v,mem_neighbors_arrange.mpr edge,same⟩

include placed in
theorem arranged_placed (order : SetOrder T) : (order.arrange graph).keys.Pairwise fun a b =>
    (∀ u, a ∉ neighbors (order.arrange graph) u) → (∀ u, b ∉ neighbors (order.arrange graph) u) →
      rank (Reader graph) place size a < rank (Reader graph) place size b := by
  unfold SetOrder.arrange
  rw [Dict.keys_mapValues]
  refine placed.imp fun less bare bare' => ?_
  rw [layering.rank_bare fun u read => bare u (mem_neighbors_arrange.mpr read),
    layering.rank_bare fun u read => bare' u (mem_neighbors_arrange.mpr read)]
  exact less

omit layering in
theorem idxOf_lt_of_pairwise {R : T → T → Prop} {l : List T} (sorted : l.Pairwise R) {a b : T} (first : a ∈ l) (second : b ∈ l)
    (different : a ≠ b) (wrong : ¬R b a) : l.idxOf a < l.idxOf b := by
  rcases Nat.lt_trichotomy (l.idxOf a) (l.idxOf b) with less | same | more
  · exact less
  · exact absurd ((List.idxOf_inj first).mp same) different
  · have kept := List.pairwise_iff_getElem.mp sorted _ _ (List.idxOf_lt_length_of_mem second) (List.idxOf_lt_length_of_mem first) more
    rw [List.getElem_idxOf,List.getElem_idxOf] at kept
    exact absurd kept wrong

include placed in
-- What stands before in this sense is sorted before, however the sets are listed.
theorem sorted_before (order : SetOrder T) {result : List T} (sorted : topological_sort (order.arrange graph) none = .ok result)
    {a b : T} (first : a ∈ result) (second : b ∈ result) (before : Before (Reader graph) place a b) :
    result.idxOf a < result.idxOf b := by
  have less := (layering.before_iff a b).mp before
  have none_drawn : Drawn (order.arrange graph) (rank (Reader graph) place size) size fun _ => False :=
    fun _ _ picked => picked.elim
  have risen := sort_risen (arranged_heights layering order) none_drawn (arranged_placed layering placed order) sorted
  refine idxOf_lt_of_pairwise risen first second (fun same => ?_) (fun wrong => ?_)
  · rw [same] at less
    exact lt_irrefl _ less
  · exact absurd wrong.1 (not_le.mpr less)

-- The chain that leads to a node highest can be the one that every set lists last.
theorem exists_drawn (w : T) : ∃ (order : SetOrder T) (chosen : T → Prop), chosen w ∧
    (∀ x, chosen x → rank (Reader graph) place size x ≤ rank (Reader graph) place size w) ∧
    Drawn (order.arrange graph) (rank (Reader graph) place size) size chosen := by
  induction here : rank (Reader graph) place size w using Nat.strong_induction_on generalizing w with
  | _ high ih =>
      by_cases some_read : ∃ u, Reader graph w u
      · obtain ⟨u,read⟩ := some_read
        obtain ⟨v,edge,same⟩ := layering.rank_from read
        have layer : 0 < size := (Nat.zero_le _).trans_lt (layering.placed w)
        obtain ⟨order,chosen,picked,highest,drawn⟩ := ih (rank (Reader graph) place size v) (by omega) v rfl
        refine ⟨⟨fun node readers => if node = v then readers.filter (· ≠ w) ++ readers.filter (· = w) else order.list node readers,
          fun node readers => ?_⟩,fun x => chosen x ∨ x = w,.inr rfl,?_,?_⟩
        · split_ifs
          · have all := List.filter_append_perm (fun x => decide (x ≠ w)) readers
            simpa using all
          · exact order.perm node readers
        · rintro x (old | rfl)
          · have low := highest x old
            omega
          · exact here.le
        · rintro x node (old | rfl) member
          · rw [mem_neighbors_arrange] at member
            obtain ⟨v',picked',member',step,others,own,listed,absent,alone⟩ := drawn x node old (mem_neighbors_arrange.mpr member)
            have apart : v' ≠ v := fun clash => by
              have low := highest x old
              rw [clash] at step
              omega
            refine ⟨v',.inl picked',mem_neighbors_arrange.mpr (mem_neighbors_arrange.mp member'),step,others,own,?_,absent,alone⟩
            rw [neighbors_arrange] at listed ⊢
            simp only [if_neg apart]
            exact listed
          · refine ⟨v,.inl picked,mem_neighbors_arrange.mpr edge,same,(neighbors graph v).filter (· ≠ x),(neighbors graph v).filter (· = x),?_,?_,?_⟩
            · rw [neighbors_arrange]
              simp only [if_true]
            · simp
            · simp
      · refine ⟨⟨fun _ readers => readers,fun _ _ => .refl _⟩,fun x => x = w,rfl,?_,?_⟩
        · rintro x rfl
          exact here.le
        · rintro x u rfl member
          exact absurd ⟨u,mem_neighbors_arrange.mp member⟩ some_read

include placed in
-- What does not stand before in this sense is sorted behind for some listing of the sets.
theorem exists_sorted_behind (w : T) : ∃ order : SetOrder T, ∀ result, topological_sort (order.arrange graph) none = .ok result →
    w ∈ result → ∀ u ∈ result, u ≠ w → ¬Before (Reader graph) place w u → result.idxOf u < result.idxOf w := by
  obtain ⟨order,chosen,picked,_,drawn⟩ := exists_drawn layering w
  refine ⟨order,fun result sorted member u member' different behind => ?_⟩
  have risen := sort_risen (arranged_heights layering order) drawn (arranged_placed layering placed order) sorted
  refine idxOf_lt_of_pairwise risen member' member different fun wrong => ?_
  exact behind ((layering.before_iff w u).mpr (wrong.2 picked))

end

end Lumilake

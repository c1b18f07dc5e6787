import Mathlib.Data.List.Induction
import Lumilake.Optimizer.Remap

namespace Lumilake.Optimizer
open Placeholder
variable {graph : RuntimeGraph} {V : Type}

def live (graph : RuntimeGraph) (env : String → V) (id : String) : Option V :=
  if id ∈ graph.nodes then some (env id) else none

-- Values of all nodes at once, under one interpretation of tasks.
def Run (graph : RuntimeGraph) (F : Task V → V) (v : String → V) : Prop :=
  ∀ id op, graph.nodes.get? id = some op → v id = F (task (live graph v) op)

-- The loop after some turns.
def dedupe_loop (graph : RuntimeGraph) (seen : List String) : Dedupe := seen.foldl (dedupe_turn graph) dedupe_start

def Signature.specs (signature : Signature) : List Value :=
  [signature.data_spec,signature.model_spec,signature.inference_spec,signature.api_spec,signature.output_spec.getD .none]

-- The normalisation does nothing to an operation but rename its labels.
def Relabelled (graph : RuntimeGraph) (mapping : Dict String String) (op : RuntimeOp) : Prop :=
  write_specs (live graph (mapped mapping)) (runtime_signature op mapping).specs =
    write_specs (live graph (mapped mapping)) (remap_items mapping mapping (op_specs op))

-- A turn maps its node to itself or to the node kept under its signature, and keeps a
-- signature only for a node that is no output and mapped to itself.
theorem dedupe_turn_cases (s : Dedupe) {node : String} {op : RuntimeOp} (present : graph.nodes.get? node = some op) :
    ∃ target, (dedupe_turn graph s node).mapping = s.mapping.set node target ∧
      (target = node ∨ (node ∉ graph.output_node_map ∧
        s.canonical_by_signature.get? (runtime_signature op s.mapping) = some target)) ∧
      ((dedupe_turn graph s node).canonical_by_signature = s.canonical_by_signature ∨
        (node ∉ graph.output_node_map ∧ target = node ∧ (dedupe_turn graph s node).canonical_by_signature =
          s.canonical_by_signature.set (runtime_signature op s.mapping) node)) := by
  by_cases output : node ∈ graph.output_node_map
  · have turn : dedupe_turn graph s node = ⟨s.canonical_by_signature,s.mapping.set node node⟩ := by
      simp [dedupe_turn,output]
    rw [turn]
    exact ⟨node,rfl,.inl rfl,.inl rfl⟩
  · cases found : s.canonical_by_signature.get? (runtime_signature op s.mapping) with
    | none =>
        have turn : dedupe_turn graph s node =
            ⟨s.canonical_by_signature.set (runtime_signature op s.mapping) node,s.mapping.set node node⟩ := by
          simp [dedupe_turn,output,present,found]
        rw [turn]
        exact ⟨node,rfl,.inl rfl,.inr ⟨output,rfl,rfl⟩⟩
    | some kept =>
        have turn : dedupe_turn graph s node = ⟨s.canonical_by_signature,s.mapping.set node kept⟩ := by
          simp [dedupe_turn,output,present,found]
        rw [turn]
        exact ⟨kept,rfl,.inr ⟨output,rfl⟩,.inl rfl⟩

theorem dedupe_loop_snoc (seen : List String) (node : String) :
    dedupe_loop graph (seen ++ [node]) = dedupe_turn graph (dedupe_loop graph seen) node := by
  simp [dedupe_loop]

-- What the loop knows: every node seen is mapped to a node that maps to itself, outputs to
-- themselves; a signature kept is that of its node under an earlier mapping.
structure Looped (graph : RuntimeGraph) (seen : List String) (s : Dedupe) : Prop where
  domain : ∀ x, x ∈ s.mapping.keys ↔ x ∈ seen
  fixed : ∀ x c, s.mapping.get? x = some c → s.mapping.get? c = some c
  output : ∀ x c, s.mapping.get? x = some c → x ∈ graph.output_node_map → c = x
  inner : ∀ x c, s.mapping.get? x = some c → x ∉ graph.output_node_map → c ∉ graph.output_node_map
  kept : ∀ signature c, s.canonical_by_signature.get? signature = some c →
    s.mapping.get? c = some c ∧ c ∉ graph.output_node_map ∧
    ∃ op earlier between, graph.nodes.get? c = some op ∧ seen = earlier ++ c :: between ∧
      signature = runtime_signature op (dedupe_loop graph earlier).mapping ∧
      ∀ x d, (dedupe_loop graph earlier).mapping.get? x = some d → s.mapping.get? x = some d
  hit : ∀ x c, s.mapping.get? x = some c → x ∉ graph.output_node_map → x = c ∨
    ∃ before after op, seen = before ++ x :: after ∧ graph.nodes.get? x = some op ∧
      (dedupe_loop graph before).canonical_by_signature.get?
        (runtime_signature op (dedupe_loop graph before).mapping) = some c

theorem get?_set (d : Dict String String) (k v x : String) :
    (d.set k v).get? x = if x = k then some v else d.get? x := by
  by_cases same : x = k
  · subst same; simp [Dict.get?_set_self]
  · simp [Dict.get?_set_ne _ _ same,same]

theorem mapping_grows {s : Dedupe} {node c : String} (fresh : node ∉ s.mapping.keys) (found : s.mapping.get? x = some d) :
    (s.mapping.set node c).get? x = some d := by
  have other : x ≠ node := fun same => fresh (same ▸ Dict.mem_keys_iff.mpr ⟨d,found⟩)
  rw [get?_set,if_neg other,found]

theorem looped_turn {seen : List String} (looped : Looped graph seen (dedupe_loop graph seen))
    {node : String} {op : RuntimeOp} (fresh : node ∉ seen) (present : graph.nodes.get? node = some op) :
    Looped graph (seen ++ [node]) (dedupe_loop graph (seen ++ [node])) := by
  obtain ⟨target,moved,choice,table⟩ := dedupe_turn_cases (dedupe_loop graph seen) present
  rw [← dedupe_loop_snoc] at moved table
  have unset : node ∉ (dedupe_loop graph seen).mapping.keys := fun member => fresh ((looped.domain node).mp member)
  -- a mapped node is the one of this turn or was mapped before
  have split_mapping : ∀ x c, (dedupe_loop graph (seen ++ [node])).mapping.get? x = some c →
      (x = node ∧ c = target) ∨ (x ≠ node ∧ (dedupe_loop graph seen).mapping.get? x = some c) := by
    intro x c found
    rw [moved,get?_set] at found
    split at found
    · rename_i same; exact .inl ⟨same,(Option.some.inj found).symm⟩
    · rename_i other; exact .inr ⟨other,found⟩
  have grows : ∀ x d, (dedupe_loop graph seen).mapping.get? x = some d →
      (dedupe_loop graph (seen ++ [node])).mapping.get? x = some d := by
    intro x d found
    rw [moved]
    exact mapping_grows unset found
  have self : (dedupe_loop graph (seen ++ [node])).mapping.get? target = some target := by
    rcases choice with same | ⟨_,found⟩
    · rw [moved,same]; exact Dict.get?_set_self _ _ _
    · exact grows _ _ (looped.kept _ _ found).1
  refine ⟨?_,?_,?_,?_,?_,?_⟩
  · intro x
    rw [moved,Dict.mem_keys_set,looped.domain,List.mem_append,List.mem_singleton]
  · intro x c found
    rcases split_mapping x c found with ⟨_,rfl⟩ | ⟨_,old⟩
    · exact self
    · exact grows _ _ (looped.fixed x c old)
  · intro x c found out
    rcases split_mapping x c found with ⟨rfl,rfl⟩ | ⟨_,old⟩
    · rcases choice with same | ⟨inside,_⟩
      · exact same
      · exact absurd out inside
    · exact looped.output x c old out
  · intro x c found inside
    rcases split_mapping x c found with ⟨rfl,rfl⟩ | ⟨_,old⟩
    · rcases choice with same | ⟨_,hit⟩
      · rw [same]; exact inside
      · exact (looped.kept _ _ hit).2.1
    · exact looped.inner x c old inside
  · intro signature c found
    have older : (dedupe_loop graph seen).canonical_by_signature.get? signature = some c →
        (dedupe_loop graph (seen ++ [node])).mapping.get? c = some c ∧ c ∉ graph.output_node_map ∧
        ∃ op earlier between, graph.nodes.get? c = some op ∧ seen ++ [node] = earlier ++ c :: between ∧
          signature = runtime_signature op (dedupe_loop graph earlier).mapping ∧
          ∀ x d, (dedupe_loop graph earlier).mapping.get? x = some d →
            (dedupe_loop graph (seen ++ [node])).mapping.get? x = some d := by
      intro known
      obtain ⟨here,inside,kept_op,earlier,between,node_op,split,same,before⟩ := looped.kept signature c known
      exact ⟨grows c c here,inside,kept_op,earlier,between ++ [node],node_op,by simp [split],same,
        fun x d old => grows x d (before x d old)⟩
    rcases table with same | ⟨inside,rfl,added⟩
    · rw [same] at found
      exact older found
    · rw [added] at found
      by_cases same : signature = runtime_signature op (dedupe_loop graph seen).mapping
      · subst same
        rw [Dict.get?_set_self] at found
        cases found
        exact ⟨self,inside,op,seen,[],present,rfl,rfl,grows⟩
      · rw [Dict.get?_set_ne _ _ same] at found
        exact older found
  · intro x c found inside
    rcases split_mapping x c found with ⟨rfl,rfl⟩ | ⟨_,old⟩
    · rcases choice with same | ⟨_,hit⟩
      · exact .inl same.symm
      · exact .inr ⟨seen,[],op,rfl,present,hit⟩
    · rcases looped.hit x c old inside with same | ⟨before,after,node_op,split,is_op,hit⟩
      · exact .inl same
      · exact .inr ⟨before,after ++ [node],node_op,by rw [split]; simp,is_op,hit⟩

theorem looped_start : Looped graph [] (dedupe_loop graph []) := by
  refine ⟨?_,?_,?_,?_,?_,?_⟩ <;> simp [dedupe_loop,dedupe_start]

-- Invariant of every prefix of the loop over distinct nodes.
theorem looped (seen : List String) (distinct : seen.Nodup) (nodes : ∀ x ∈ seen, x ∈ graph.nodes.keys) :
    Looped graph seen (dedupe_loop graph seen) := by
  induction seen using List.reverseRecOn with
  | nil => exact looped_start
  | append_singleton seen node ih =>
      have fresh : node ∉ seen := fun member => (List.nodup_append.mp distinct).2.2 node member node (by simp) rfl
      obtain ⟨op,present⟩ := Dict.mem_keys_iff.mp (nodes node (by simp))
      exact looped_turn (ih (List.nodup_append.mp distinct).1 fun x member => nodes x (List.mem_append_left _ member)) fresh present

theorem mapping_extends (before after : List String) (distinct : (before ++ after).Nodup)
    (nodes : ∀ x ∈ before ++ after, x ∈ graph.nodes.keys) (found : (dedupe_loop graph before).mapping.get? x = some c) :
    (dedupe_loop graph (before ++ after)).mapping.get? x = some c := by
  induction after using List.reverseRecOn with
  | nil => simpa using found
  | append_singleton after node ih =>
      rw [← List.append_assoc] at distinct nodes ⊢
      have front := (List.nodup_append.mp distinct).1
      have inside : ∀ x ∈ before ++ after, x ∈ graph.nodes.keys := fun x member => nodes x (List.mem_append_left _ member)
      have fresh : node ∉ before ++ after := fun member => (List.nodup_append.mp distinct).2.2 node member node (by simp) rfl
      have unset : node ∉ (dedupe_loop graph (before ++ after)).mapping.keys := fun member =>
        fresh (((looped _ front inside).domain node).mp member)
      obtain ⟨op,present⟩ := Dict.mem_keys_iff.mp (nodes node (by simp))
      rw [dedupe_loop_snoc]
      obtain ⟨target,moved,_,_⟩ := dedupe_turn_cases (dedupe_loop graph (before ++ after)) present
      rw [moved]
      exact mapping_grows unset (ih front inside)

theorem mapped_twice {mapping earlier : Dict String String} (fixed : ∀ x c, mapping.get? x = some c → mapping.get? c = some c)
    (grows : ∀ x d, earlier.get? x = some d → mapping.get? x = some d) (id : String) :
    mapped mapping (mapped earlier id) = mapped mapping id := by
  unfold mapped
  cases found : earlier.get? id with
  | none => rfl
  | some d => simp [grows id d found,fixed id d (grows id d found)]

section
variable {order : List String} (ordered : graph.topological_order = .ok order)
include ordered

theorem looped_order : Looped graph order (dedupe_loop graph order) := by
  obtain ⟨distinct,members,_⟩ := RuntimeGraph.topological_order_spec ordered
  exact looped order distinct fun x member => (members x).mp member

theorem looped_before {before rest : List String} (split : order = before ++ rest) :
    Looped graph before (dedupe_loop graph before) ∧
    ∀ x d, (dedupe_loop graph before).mapping.get? x = some d → (dedupe_loop graph order).mapping.get? x = some d := by
  obtain ⟨distinct,members,_⟩ := RuntimeGraph.topological_order_spec ordered
  subst split
  refine ⟨looped before (List.nodup_append.mp distinct).1 fun x member => (members x).mp (List.mem_append_left _ member),?_⟩
  exact fun x d found => mapping_extends before rest distinct (fun x member => (members x).mp member) found

theorem node_mapped {id : String} (node : id ∈ graph.nodes.keys) :
    ∃ c, (dedupe_loop graph order).mapping.get? id = some c := by
  obtain ⟨_,members,_⟩ := RuntimeGraph.topological_order_spec ordered
  exact Dict.mem_keys_iff.mp (((looped_order ordered).domain id).mpr ((members id).mpr node))

theorem mapped_node {id c : String} (found : (dedupe_loop graph order).mapping.get? id = some c) :
    id ∈ graph.nodes.keys ∧ c ∈ graph.nodes.keys := by
  obtain ⟨_,members,_⟩ := RuntimeGraph.topological_order_spec ordered
  have whole := looped_order ordered
  exact ⟨(members id).mp ((whole.domain id).mp (Dict.mem_keys_iff.mpr ⟨c,found⟩)),
    (members c).mp ((whole.domain c).mp (Dict.mem_keys_iff.mpr ⟨c,whole.fixed id c found⟩))⟩

-- A node and the one it is mapped to have the same dependencies under the mapping.
theorem canonical_dependencies {id c : String} {op : RuntimeOp} (node : graph.nodes.get? id = some op)
    (moved : (dedupe_loop graph order).mapping.get? id = some c) :
    ∃ kept_op, graph.nodes.get? c = some kept_op ∧
      kept_op.dependencies.map (mapped (dedupe_loop graph order).mapping) =
        op.dependencies.map (mapped (dedupe_loop graph order).mapping) := by
  have whole := looped_order ordered
  by_cases inside : id ∈ graph.output_node_map
  · have same := whole.output id c moved inside
    exact ⟨op,same ▸ node,rfl⟩
  · rcases whole.hit id c moved inside with rfl | ⟨before,after,hit_op,split,is_op,hit⟩
    · exact ⟨op,node,rfl⟩
    · rw [node] at is_op
      cases is_op
      obtain ⟨state,grows⟩ := looped_before ordered split
      obtain ⟨_,_,kept_op,earlier,_,kept_node,_,signature,older⟩ := state.kept _ _ hit
      refine ⟨kept_op,kept_node,?_⟩
      have tuples : op.dependencies.map (mapped (dedupe_loop graph before).mapping) =
          kept_op.dependencies.map (mapped (dedupe_loop graph earlier).mapping) := congrArg Signature.dependencies signature
      have lifted := congrArg (List.map (mapped (dedupe_loop graph order).mapping)) tuples
      have twice := mapped_twice whole.fixed grows
      have old := mapped_twice whole.fixed fun x d found => grows x d (older x d found)
      rw [List.map_map,List.map_map] at lifted
      rw [show mapped (dedupe_loop graph order).mapping ∘ mapped (dedupe_loop graph before).mapping =
          mapped (dedupe_loop graph order).mapping from funext twice,
        show mapped (dedupe_loop graph order).mapping ∘ mapped (dedupe_loop graph earlier).mapping =
          mapped (dedupe_loop graph order).mapping from funext old] at lifted
      exact lifted.symm

end

end Lumilake.Optimizer

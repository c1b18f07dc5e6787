import Lumilake.Library.Queues
import Lumilake.Optimizer.PrefixMerge

-- What a schedule of a graph is to be, whichever optimizer makes it.
namespace Lumilake.Optimizer
open Relation

-- `x` waits for `y`, which is a node of the graph.
def waits_for (graph : RuntimeGraph) (x y : String) : Prop :=
  ∃ op, graph.nodes.get? x = some op ∧ y ∈ op.dependencies ∧ y ∈ graph.nodes.keys

-- Every node is given once, to a worker that suits it, and all the lists are cut from one
-- order of the nodes in which each comes after those it waits for.
structure Planned (graph : RuntimeGraph) (suits : String → RuntimeOp → Prop) (workers : List String)
    (worker_assignment : Dict String (List String)) : Prop where
  workers : ∀ w, w ∈ worker_assignment.keys ↔ w ∈ workers
  suited : ∀ w nids, worker_assignment.get? w = some nids → ∀ nid ∈ nids, ∀ op, graph.nodes.get? nid = some op → suits w op
  nodes : worker_assignment.values.flatten.Perm graph.nodes.keys
  order : ∃ order : List String, order.Perm graph.nodes.keys ∧ Queues.Follows (waits_for graph) order ∧
    ∀ nids ∈ worker_assignment.values, nids.Sublist order

theorem idxOf_before {order front back : List String} {x y : String} (distinct : order.Nodup) (split : order = front ++ x :: back)
    (early : y ∈ front) : order.idxOf y < order.idxOf x := by
  have fresh : x ∉ front := fun again => by
    rw [split] at distinct
    exact (List.nodup_append.mp distinct).2.2 x again x List.mem_cons_self rfl
  rw [split,List.idxOf_append_of_mem early,List.idxOf_append_of_notMem fresh,List.idxOf_cons_self,Nat.add_zero]
  exact List.idxOf_lt_length_of_mem early

-- Items handed out in their order.
def empty_lists (workers : List String) : Dict String (List String) := workers.foldl (fun d w => d.set w []) Dict.empty

def hand_out (grouped : Dict String (List String)) (item : String × String) : Dict String (List String) :=
  grouped.set item.1 ((grouped.get? item.1).getD [] ++ [item.2])

def handed_out (workers : List String) (items : List (String × String)) : Dict String (List String) :=
  items.foldl hand_out (empty_lists workers)

theorem get?_empty_lists (workers : List String) (w : String) :
    (empty_lists workers).get? w = if w ∈ workers then some [] else none := by
  unfold empty_lists
  rw [Dict.get?_foldl_set_each (fun _ => ([] : List String))]
  rfl

theorem get?_handed_out {workers : List String} {items : List (String × String)} (known : ∀ item ∈ items, item.1 ∈ workers)
    (w : String) : (handed_out workers items).get? w =
      if w ∈ workers then some ((items.filter fun item => decide (item.1 = w)).map Prod.snd) else none := by
  induction items using List.reverseRecOn with
  | nil => exact get?_empty_lists workers w
  | append_singleton items item ih =>
      have before := ih fun i member => known i (List.mem_append_left _ member)
      have here := known item (List.mem_append_right _ List.mem_cons_self)
      unfold handed_out at before ⊢
      rw [List.foldl_append,List.foldl_cons,List.foldl_nil,hand_out,List.filter_append,List.map_append]
      by_cases own : w = item.1
      · subst own
        rw [if_pos here] at before
        rw [Dict.get?_set_self,before,if_pos here]
        simp
      · rw [Dict.get?_set_ne _ _ own,before]
        simp [Ne.symm own]

theorem handed_out_flatten (workers : List String) (items : List (String × String)) :
    (handed_out workers items).values.flatten.Perm (items.map Prod.snd) := by
  induction items using List.reverseRecOn with
  | nil =>
      have all : ∀ nids ∈ (empty_lists workers).values, nids = [] := by
        intro nids member
        obtain ⟨e,there,same⟩ := List.mem_map.mp member
        have found := Dict.get?_eq_some.mpr there
        rw [get?_empty_lists] at found
        split at found
        · exact same ▸ (Option.some.inj found).symm
        · cases found
      have none_there : (handed_out workers []).values.flatten = [] := List.flatten_eq_nil_iff.mpr all
      rw [none_there]
      exact .refl _
  | append_singleton items item ih =>
      unfold handed_out at ih ⊢
      rw [List.foldl_append,List.foldl_cons,List.foldl_nil,hand_out,List.map_append]
      exact (Dict.values_append_perm _ _ _).trans (ih.append_right _)

-- Handing out an order that follows the dependencies makes a plan.
theorem planned_handed_out {graph : RuntimeGraph} {suits : String → RuntimeOp → Prop} {workers : List String}
    {items : List (String × String)} (known : ∀ item ∈ items, item.1 ∈ workers) (nodes : (items.map Prod.snd).Perm graph.nodes.keys)
    (suited : ∀ item ∈ items, ∀ op, graph.nodes.get? item.2 = some op → suits item.1 op)
    (follows : Queues.Follows (waits_for graph) (items.map Prod.snd)) : Planned graph suits workers (handed_out workers items) := by
  have read := get?_handed_out known
  constructor
  · intro w
    rw [Dict.mem_keys_iff]
    constructor
    · intro ⟨nids,found⟩
      rw [read] at found
      split at found
      · assumption
      · cases found
    · intro member
      exact ⟨_,by rw [read,if_pos member]⟩
  · intro w nids found nid member op node
    rw [read] at found
    split at found
    · cases found
      obtain ⟨item,there,same⟩ := List.mem_map.mp member
      obtain ⟨inside,own⟩ := List.mem_filter.mp there
      have fits := suited item inside op (same ▸ node)
      rwa [of_decide_eq_true own] at fits
    · cases found
  · exact (handed_out_flatten workers items).trans nodes
  · refine ⟨items.map Prod.snd,nodes,follows,fun nids member => ?_⟩
    obtain ⟨e,there,same⟩ := List.mem_map.mp member
    have found := Dict.get?_eq_some.mpr there
    rw [read] at found
    split at found
    · rw [← same,← Option.some.inj found]
      exact List.filter_sublist.map _
    · cases found

-- Workers that take their lists from the front never wait for one another in a circle.
theorem Planned.runs {graph : RuntimeGraph} {suits : String → RuntimeOp → Prop} {workers : List String}
    {worker_assignment : Dict String (List String)} (planned : Planned graph suits workers worker_assignment)
    {s : Queues.State String} (run : ReflTransGen (Queues.Step (waits_for graph)) ⟨worker_assignment.values,[]⟩ s) :
    Queues.Follows (waits_for graph) s.finished ∧
      ((∃ t, Queues.Step (waits_for graph) s t) ∨ s.finished.Perm graph.nodes.keys) := by
  obtain ⟨order,perm,follows,sublists⟩ := planned.order
  have distinct : order.Nodup := perm.nodup_iff.mpr graph.nodes.keys_nodup
  obtain ⟨safe,_,live⟩ := Queues.run_complete distinct follows sublists (planned.nodes.trans perm.symm) run
  exact ⟨safe,live.imp_right fun all => all.trans perm⟩

-- A retrieval and a prompt over its rows, on a worker each.
def retrieval_then_prompt : RuntimeGraph where
  nodes := (Dict.empty.set "rows" ⟨"rows","data_retrieval","data_retrieval","",[],[],[],[],[],none,none⟩).set "answer"
    ⟨"answer","text","vllm","m",[],[],[],[],["rows"],none,none⟩
  node_order := ["rows","answer"]
  output_node_map := Dict.empty

def retrieval_on_cpu : Dict String (List String) := (Dict.empty.set "gpu-0" ["answer"]).set "cpu-0" ["rows"]

theorem retrieval_aligned : Aligned retrieval_then_prompt := by decide

theorem retrieval_topological : Topological retrieval_then_prompt := topological_iff.mpr (by decide)

theorem retrieval_follows : Queues.Follows (waits_for retrieval_then_prompt) retrieval_then_prompt.node_order :=
  fun front x back split y ⟨op,node,needed,present⟩ => retrieval_topological front x back split op node y needed present

theorem retrieval_planned :
    Planned retrieval_then_prompt (fun w op => w = if op.backend = "vllm" then "gpu-0" else "cpu-0") ["gpu-0","cpu-0"] retrieval_on_cpu :=
  @planned_handed_out _ _ _ [("cpu-0","rows"),("gpu-0","answer")] (by decide) (by decide)
    (List.forall_iff_forall_mem.mp ⟨fun op found => (by cases found; rfl),fun op found => (by cases found; rfl)⟩) retrieval_follows

-- The prompt waits at the front of its list until the rows are there.
theorem retrieval_runs : Queues.Follows (waits_for retrieval_then_prompt) ["rows"] ∧
    ((∃ t, Queues.Step (waits_for retrieval_then_prompt) ⟨[["answer"],[]],["rows"]⟩ t) ∨
      ["rows"].Perm retrieval_then_prompt.nodes.keys) :=
  retrieval_planned.runs (.single (.take [["answer"]] [] "rows" [] [] fun y ⟨op,node,needed,_⟩ => by
    cases node
    cases needed))

end Lumilake.Optimizer

import Lumilake.Graphs.LoadExact

namespace Lumilake.Graphs
open Ops Fallible

-- The sort comes to the operations that are read in the order in which they are first read.
theorem added_keys (pairs : List (String × String)) :
    (∀ u, u ∈ (pairs.foldl (fun edges pair => RuntimeGraph.add_edge edges pair.1 pair.2) Dict.empty).keys ↔ u ∈ pairs.map Prod.fst) ∧
    (pairs.foldl (fun edges pair => RuntimeGraph.add_edge edges pair.1 pair.2) Dict.empty).keys.Pairwise fun a b =>
      (pairs.map Prod.fst).idxOf a < (pairs.map Prod.fst).idxOf b := by
  induction pairs using List.reverseRecOn with
  | nil => exact ⟨by simp,.nil⟩
  | append_singleton pairs pair ih =>
      obtain ⟨within,placed⟩ := ih
      rw [List.foldl_append,List.foldl_cons,List.foldl_nil,List.map_append]
      generalize pairs.foldl (fun edges pair => RuntimeGraph.add_edge edges pair.1 pair.2) Dict.empty = edges at within placed ⊢
      have kept : edges.keys.Pairwise fun a b =>
          (pairs.map Prod.fst ++ [pair].map Prod.fst).idxOf a < (pairs.map Prod.fst ++ [pair].map Prod.fst).idxOf b := by
        refine placed.imp_of_mem fun first second less => ?_
        rwa [List.idxOf_append_of_mem ((within _).mp first),List.idxOf_append_of_mem ((within _).mp second)]
      unfold RuntimeGraph.add_edge
      refine ⟨fun u => by rw [Dict.mem_keys_set,within,List.mem_append,List.map_singleton,List.mem_singleton],?_⟩
      by_cases known : pair.1 ∈ edges.keys
      · rw [Dict.keys_set_of_mem known]
        exact kept
      · rw [Dict.keys_set_of_not_mem known]
        refine List.pairwise_append.mpr ⟨kept,List.pairwise_singleton _ _,fun a old b new => ?_⟩
        have fresh : b ∉ pairs.map Prod.fst := by
          rw [List.mem_singleton.mp new]
          exact fun read => known ((within _).mpr read)
        have inside := List.idxOf_lt_length_of_mem ((within a).mp old)
        rw [List.idxOf_append_of_mem ((within a).mp old),List.idxOf_append_of_notMem fresh]
        omega

theorem dependencies_keys (ops : Dict String Op) : (dependencies ops).keys.Pairwise fun a b =>
    (ops.entries.flatMap fun entry => entry.2.inputs).idxOf a < (ops.entries.flatMap fun entry => entry.2.inputs).idxOf b := by
  have flat : dependencies ops = (ops.entries.flatMap fun entry => entry.2.inputs.map fun dep => (dep,entry.1)).foldl
      (fun edges pair => RuntimeGraph.add_edge edges pair.1 pair.2) Dict.empty := by
    simp only [dependencies,List.foldl_flatMap,List.foldl_map]
  have firsts : (ops.entries.flatMap fun entry => entry.2.inputs.map fun dep => (dep,entry.1)).map Prod.fst =
      ops.entries.flatMap fun entry => entry.2.inputs := by
    simp [List.map_flatMap,Function.comp_def]
  rw [flat,← firsts]
  exact (added_keys _).2

section
variable {python : Python} {json : JsonGraph} {graph : Graph} {sorted : List String} {order : SetOrder String} {a b : String}

theorem Loads.inputs_at {key : String} {op : Op} (loads : Loads python json key op) : inputs_at python json key = op.inputs := by
  obtain ⟨data,entry,read⟩ := loads.entry
  unfold Graphs.inputs_at
  rw [entry]
  dsimp only
  rw [read]

theorem Loads.known {key : String} {op : Op} (loads : Loads python json key op) : key ∈ json.keys := by
  obtain ⟨data,entry,_⟩ := loads.entry
  exact Dict.mem_keys_iff.mpr ⟨data,entry⟩

theorem Listed.sorted_all {objects : List (String × Op)} (listed : Listed python json graph objects) {key : String}
    (present : key ∈ json.keys) : key ∈ objects.map Prod.fst := by
  obtain ⟨op,member⟩ := listed.all key present
  exact List.mem_map_of_mem member

namespace Arranged
variable (arranged : Arranged python json graph sorted)
include arranged

theorem all_references : (graph.ops.entries.flatMap fun entry => entry.2.inputs) = references python json := by
  unfold references
  rw [← arranged.keys,Dict.keys,List.flatMap_map]
  refine List.flatMap_congr fun entry member => ?_
  exact ((arranged.loads _ _).mp (Dict.get?_eq_some.mpr member)).inputs_at.symm

theorem readers : Reader (dependencies graph.ops) = Reads python json := by
  funext x u
  refine propext (mem_dependencies.trans ⟨?_,?_⟩)
  · rintro ⟨op,found,input⟩
    exact ⟨op,(arranged.loads _ _).mp found,input⟩
  · rintro ⟨op,loads,input⟩
    exact ⟨op,(arranged.loads _ _).mpr loads,input⟩

theorem layering : Layering (Reader (dependencies graph.ops)) (fun key => (references python json).idxOf key)
    (fun key => sorted.idxOf key) ((references python json).length + 1) where
  ordered x u read := by
    rw [arranged.readers] at read
    exact arranged.reads_before read
  placed r := Nat.lt_succ_of_le List.idxOf_le_length

theorem placed : (dependencies graph.ops).keys.Pairwise fun a b =>
    (references python json).idxOf a < (references python json).idxOf b := by
  rw [← arranged.all_references]
  exact dependencies_keys graph.ops

theorem leads_before (sort : topological_sort (order.arrange (dependencies graph.ops)) none = .ok sorted)
    (leads : Leads python json a b) (first : a ∈ sorted) (second : b ∈ sorted) : sorted.idxOf a < sorted.idxOf b := by
  unfold Leads at leads
  rw [← arranged.readers] at leads
  exact sorted_before arranged.layering arranged.placed order sort first second leads

end Arranged

-- The sets' order decides nothing about whether a graph is accepted, nor about its operations.
theorem accepted_any (accepted : Graph.from_json python order json = .ok graph) (order' : SetOrder String) :
    ∃ graph', Graph.from_json python order' json = .ok graph' ∧ graph'.ops = graph.ops := by
  obtain ⟨loaded,names,_,named,_,_⟩ := from_json_ok accepted
  obtain ⟨sorted,_,arranged⟩ := exists_arranged accepted
  obtain ⟨sorted',sort'⟩ : ∃ sorted', topological_sort (order'.arrange (dependencies graph.ops)) none = .ok sorted' := by
    refine topological_sort_complete none (fun key => sorted.idxOf key) fun u x edge => ?_
    exact arranged.layering.ordered x u (mem_neighbors_arrange.mp edge)
  refine ⟨⟨graph.ops,by_id graph.ops sorted',names.1,names.2⟩,?_,rfl⟩
  unfold Graph.from_json Graph.init
  rw [loaded,ok_bind,named,ok_bind,sort']
  rfl

-- What does not lead to an operation can be sorted behind it.
theorem exists_behind (accepted : Graph.from_json python order json = .ok graph) (w : String) :
    ∃ order' graph', Graph.from_json python order' json = .ok graph' ∧ ∀ sorted,
      topological_sort (order'.arrange (dependencies graph'.ops)) none = .ok sorted → w ∈ sorted →
        ∀ u ∈ sorted, u ≠ w → ¬Leads python json w u → sorted.idxOf u < sorted.idxOf w := by
  obtain ⟨_,_,arranged⟩ := exists_arranged accepted
  obtain ⟨order',behind⟩ := exists_sorted_behind arranged.layering arranged.placed w
  obtain ⟨graph',accepted',same⟩ := accepted_any accepted order'
  refine ⟨order',graph',accepted',fun sorted sort member u member' different apart => ?_⟩
  rw [same] at sort
  refine behind sorted sort member u member' different fun before => apart ?_
  rw [arranged.readers] at before
  exact before

end

-- However the sets are listed, loading a JSON graph is faithful exactly when nothing in it can be mistaken.
theorem loading_faithful_iff (python : Python) (json : JsonGraph)
    (accepted : ∃ order graph, Graph.from_json python order json = .ok graph) :
    (∀ order graph, Graph.from_json python order json = .ok graph → Faithful python json graph) ↔ Unmistaken python json := by
  obtain ⟨order,graph,accepted⟩ := accepted
  constructor
  · intro faithful
    have kept := (complete_iff accepted).mp (faithful order graph accepted).complete
    have in_order : ∀ {order graph}, Graph.from_json python order json = .ok graph →
        ∃ sorted, topological_sort (order.arrange (dependencies graph.ops)) none = .ok sorted ∧
          (∀ key ∈ json.keys, key ∈ sorted) ∧ UnmistakenIn python json sorted := by
      intro order graph accepted
      obtain ⟨objects,sort,listed⟩ := exists_listed accepted kept
      exact ⟨_,sort,fun key present => listed.sorted_all present,listed.unmistaken_in (faithful order graph accepted) kept⟩
    obtain ⟨_,_,_,unmistaken⟩ := in_order accepted
    refine ⟨unmistaken.toSpelled,fun key op loads node column key' data' entry named => ?_,
      fun key op loads text literal key' data' entry named => ?_⟩
    · by_contra apart
      have present : key' ∈ json.keys := Dict.mem_keys_iff.mpr ⟨data',entry⟩
      obtain ⟨order',graph',accepted',behind⟩ := exists_behind accepted key'
      obtain ⟨sorted,sort,all,unmistaken⟩ := in_order accepted'
      have before := (unmistaken.columns key op loads node column key' data' entry named).1
      by_cases same : key = key'
      · exact lt_irrefl _ (same ▸ before)
      · exact lt_asymm before (behind sorted sort (all key' present) key (all key loads.known) same apart)
    · by_contra apart
      obtain ⟨different,apart⟩ := not_or.mp apart
      have present : key' ∈ json.keys := Dict.mem_keys_iff.mpr ⟨data',entry⟩
      obtain ⟨order',graph',accepted',behind⟩ := exists_behind accepted key
      obtain ⟨sorted,sort,all,unmistaken⟩ := in_order accepted'
      have before := behind sorted sort (all key loads.known) key' (all key' present) different apart
      exact unmistaken.literals key op loads text literal key' data' entry named ⟨before,all key loads.known⟩
  · intro unmistaken order graph accepted
    obtain ⟨objects,sort,listed⟩ := exists_listed accepted unmistaken.toKept
    apply unmistaken_faithful listed accepted
    refine ⟨unmistaken.toSpelled,fun key op loads node column key' data' entry named => ?_,
      fun key op loads text literal key' data' entry named before => ?_⟩
    · have leads := unmistaken.columns key op loads node column key' data' entry named
      have present : key' ∈ json.keys := Dict.mem_keys_iff.mpr ⟨data',entry⟩
      exact ⟨listed.arranged.leads_before sort leads (listed.sorted_all present) (listed.sorted_all loads.known),
        listed.sorted_all loads.known⟩
    · rcases unmistaken.literals key op loads text literal key' data' entry named with rfl | leads
      · exact lt_irrefl _ before.1
      · have present : key' ∈ json.keys := Dict.mem_keys_iff.mpr ⟨data',entry⟩
        exact lt_asymm before.1 (listed.arranged.leads_before sort leads (listed.sorted_all loads.known) (listed.sorted_all present))

def plain_python : Python where
  validate_source _ _ := none
  str _ := ""
  repr _ := ""
  general _ := ""

def data_entry : JsonOp := ⟨"d","DataOp",.none,[("data",.list [.str "x"]),("_inputs",.list [])]⟩
def message_entry : JsonOp := ⟨"m","MessageOp",.none,[("messages",.list [
  .dict [("role",.str "system"),("content",.str "o")],.dict [("role",.str "user"),("content",.str "d")]])]⟩
def chat_entry : JsonOp := ⟨"c","LLMChatOp",.none,[("messages",.str "m"),("config",.dict [("model",.str "qwen")]),("return_history",.bool false),
  ("cacheable",.bool true),("rowwise_columns",.list [.dict [("label",.str "x"),("node",.str "d")]])]⟩
def output_entry (source : String) : JsonOp :=
  ⟨"o","OutputOp",.none,[("name",.str "out"),("_inputs",.list [.str source])]⟩
def input_entry : JsonOp := ⟨"q","InputOp",.none,[("name",.str "question"),("_inputs",.list [])]⟩

def unused_input_json : JsonGraph := ((Dict.empty.set "d" data_entry).set "o" (output_entry "d")).set "q" input_entry

-- A declared input that no operation reads is gone from the loaded graph.
theorem loading_loses_input :
    ¬∀ python order json graph, Graph.from_json python order json = .ok graph → Faithful python json graph := by
  intro claim
  have checked : (Graph.from_json plain_python .inserted unused_input_json).toOption.map (fun graph => graph.order.keys) =
      some ["d","o"] := by decide +kernel
  cases accepted : Graph.from_json plain_python .inserted unused_input_json with
  | error message =>
      rw [accepted] at checked
      cases checked
  | ok graph =>
      rw [accepted] at checked
      have keys : graph.order.keys = ["d","o"] := Option.some.inj checked
      have kept := (claim _ _ _ graph accepted).complete "q" input_entry (Dict.get?_set_self _ _ _)
      have member : input_entry.id ∈ graph.order.keys := Dict.mem_keys_iff.mpr ⟨_,kept⟩
      rw [keys] at member
      exact absurd member (by decide)

-- A column that names what the message reads, and a text that is the id of the output.
def linked_json : JsonGraph :=
  (((Dict.empty.set "d" data_entry).set "m" message_entry).set "c" chat_entry).set "o" (output_entry "c")

theorem linked_entry {key : String} {data : JsonOp} (found : linked_json.get? key = some data) :
    key = data.id ∧ (key = "d" ∨ key = "m" ∨ key = "c" ∨ key = "o") := by
  have member := Dict.get?_eq_some.mp found
  have entries : linked_json.entries = [("d",data_entry),("m",message_entry),("c",chat_entry),("o",output_entry "c")] := by
    decide
  rw [entries] at member
  simp only [List.mem_cons,Prod.mk.injEq,List.not_mem_nil,or_false] at member
  rcases member with ⟨rfl,rfl⟩ | ⟨rfl,rfl⟩ | ⟨rfl,rfl⟩ | ⟨rfl,rfl⟩
  · exact ⟨rfl,.inl rfl⟩
  · exact ⟨rfl,.inr (.inl rfl)⟩
  · exact ⟨rfl,.inr (.inr (.inl rfl))⟩
  · exact ⟨rfl,.inr (.inr (.inr rfl))⟩

theorem linked_loads {key : String} {op : Op} (loads : Loads plain_python linked_json key op) :
    (key = "d" ∧ op = ⟨"d",[],.none,.data_op (.list [.str "x"])⟩) ∨
      (key = "m" ∧ op = ⟨"m",["d"],.none,.message_op [(.str "system",.text "o"),(.str "user",.op "d")]⟩) ∨
      (key = "c" ∧ op.inputs = ["m"] ∧ ∃ llm, op.body = .llm_chat_op llm ∧ column_nodes llm.rowwise_columns = ["d"]) ∨
      (key = "o" ∧ op = ⟨"o",["c"],.none,.output_op (.str "out") .none⟩) := by
  obtain ⟨data,entry,read⟩ := loads.entry
  have member := Dict.get?_eq_some.mp entry
  have entries : linked_json.entries = [("d",data_entry),("m",message_entry),("c",chat_entry),("o",output_entry "c")] := by
    decide
  rw [entries] at member
  simp only [List.mem_cons,Prod.mk.injEq,List.not_mem_nil,or_false] at member
  rcases member with ⟨rfl,rfl⟩ | ⟨rfl,rfl⟩ | ⟨rfl,rfl⟩ | ⟨rfl,rfl⟩
  · cases read
    exact .inl ⟨rfl,rfl⟩
  · have read' : op_from_json plain_python (earlier linked_json "m") message_entry =
        .ok ⟨"m",["d"],.none,.message_op [(.str "system",.text "o"),(.str "user",.op "d")]⟩ := by rfl
    rw [read'] at read
    cases read
    exact .inr (.inl ⟨rfl,rfl⟩)
  · have read' : ∃ llm, op_from_json plain_python (earlier linked_json "c") chat_entry =
        .ok ⟨"c",["m"],.none,.llm_chat_op llm⟩ ∧ column_nodes llm.rowwise_columns = ["d"] := ⟨_,rfl,rfl⟩
    obtain ⟨llm,read',columns⟩ := read'
    rw [read'] at read
    cases read
    exact .inr (.inr (.inl ⟨rfl,rfl,llm,rfl,columns⟩))
  · have read' : op_from_json plain_python (earlier linked_json "o") (output_entry "c") =
        .ok ⟨"o",["c"],.none,.output_op (.str "out") .none⟩ := by rfl
    rw [read'] at read
    cases read
    exact .inr (.inr (.inr ⟨rfl,rfl⟩))

theorem linked_reads {key dep : String} : Reads plain_python linked_json key dep ↔
    (key = "m" ∧ dep = "d") ∨ (key = "c" ∧ dep = "m") ∨ (key = "o" ∧ dep = "c") := by
  constructor
  · rintro ⟨op,loads,input⟩
    rcases linked_loads loads with ⟨_,rfl⟩ | ⟨same,rfl⟩ | ⟨same,inputs,_⟩ | ⟨same,rfl⟩
    · cases input
    · exact .inl ⟨same,List.mem_singleton.mp input⟩
    · rw [inputs] at input
      exact .inr (.inl ⟨same,List.mem_singleton.mp input⟩)
    · exact .inr (.inr ⟨same,List.mem_singleton.mp input⟩)
  · rintro (⟨rfl,rfl⟩ | ⟨rfl,rfl⟩ | ⟨rfl,rfl⟩)
    · exact ⟨_,⟨message_entry,rfl,rfl⟩,List.mem_singleton_self "d"⟩
    · exact ⟨_,⟨chat_entry,rfl,rfl⟩,List.mem_singleton_self "m"⟩
    · exact ⟨_,⟨output_entry "c",rfl,rfl⟩,List.mem_singleton_self "c"⟩

theorem linked_bare (dep : String) : ¬Reads plain_python linked_json "d" dep := by
  rw [linked_reads]
  simp

theorem linked_chain : Chain (Reads plain_python linked_json) 2 "d" "c" :=
  ((Chain.bare linked_bare).next (linked_reads.mpr (.inl ⟨rfl,rfl⟩))).next (linked_reads.mpr (.inr (.inl ⟨rfl,rfl⟩)))

theorem linked_unmistaken : Unmistaken plain_python linked_json := by
  refine ⟨⟨⟨?_,?_⟩,?_,?_⟩,?_,?_⟩
  · intro key data key' data' found found' same
    rw [(linked_entry found).1,(linked_entry found').1,same]
  · intro key present
    obtain ⟨data,found⟩ := Dict.mem_keys_iff.mp present
    rcases (linked_entry found).2 with rfl | rfl | rfl | rfl
    · exact .inl ⟨"m",linked_reads.mpr (.inl ⟨rfl,rfl⟩)⟩
    · exact .inr ⟨"d",linked_reads.mpr (.inl ⟨rfl,rfl⟩)⟩
    · exact .inr ⟨"m",linked_reads.mpr (.inr (.inl ⟨rfl,rfl⟩))⟩
    · exact .inr ⟨"c",linked_reads.mpr (.inr (.inr ⟨rfl,rfl⟩))⟩
  · intro key op loads llm text path shape
    rcases linked_loads loads with ⟨_,rfl⟩ | ⟨_,rfl⟩ | ⟨_,_,llm,body,_⟩ | ⟨_,rfl⟩
    · cases shape
    · cases shape
    · rw [body] at shape
      cases shape
    · cases shape
  · intro key op loads template args kwargs paths shape
    rcases linked_loads loads with ⟨_,rfl⟩ | ⟨_,rfl⟩ | ⟨_,_,llm,body,_⟩ | ⟨_,rfl⟩
    · cases shape
    · cases shape
    · rw [body] at shape
      cases shape
    · cases shape
  · intro key op loads node column key' data' entry named
    rcases linked_loads loads with ⟨_,rfl⟩ | ⟨_,rfl⟩ | ⟨rfl,_,llm,body,columns⟩ | ⟨_,rfl⟩
    · cases column
    · cases column
    · rw [body] at column
      change node ∈ column_nodes llm.rowwise_columns at column
      rw [columns] at column
      obtain rfl := List.mem_singleton.mp column
      rw [(linked_entry entry).1,named]
      refine ⟨2,"d",linked_chain,fun m q chain => .inl ?_⟩
      rw [(chain.of_bare linked_bare).1]
      exact Nat.zero_lt_two
    · cases column
  · intro key op loads text literal key' data' entry named
    rcases linked_loads loads with ⟨_,rfl⟩ | ⟨rfl,rfl⟩ | ⟨_,_,llm,body,_⟩ | ⟨_,rfl⟩
    · cases literal
    · obtain rfl := List.mem_singleton.mp literal
      rw [(linked_entry entry).1,named]
      refine .inr ⟨3,"d",linked_chain.next (linked_reads.mpr (.inr (.inr ⟨rfl,rfl⟩))),fun m q chain => .inl ?_⟩
      cases chain with
      | bare none_read => exact Nat.succ_pos 2
      | @next n _ u _ chain edge =>
          have source : u = "d" := by simpa using linked_reads.mp edge
          rw [source] at chain
          rw [(chain.of_bare linked_bare).1]
          exact Nat.one_lt_succ_succ 1
    · rw [body] at literal
      cases literal
    · cases literal

theorem loading_faithful_linked :
    (∃ order graph, Graph.from_json plain_python order linked_json = .ok graph) ∧
    ∀ order graph, Graph.from_json plain_python order linked_json = .ok graph → Faithful plain_python linked_json graph := by
  have checked : (Graph.from_json plain_python .inserted linked_json).toOption.isSome = true := by decide +kernel
  have accepted : ∃ order graph, Graph.from_json plain_python order linked_json = .ok graph := by
    cases loaded : Graph.from_json plain_python .inserted linked_json with
    | error message =>
        rw [loaded] at checked
        cases checked
    | ok graph => exact ⟨_,graph,loaded⟩
  exact ⟨accepted,(loading_faithful_iff plain_python linked_json accepted).mpr linked_unmistaken⟩

end Lumilake.Graphs

import Lumilake.Graphs.Graph
import Lumilake.Ops.RoundTrip
import Lumilake.Utils.SortOrder
import Mathlib.Data.List.Induction

namespace Lumilake.Graphs
open Ops Fallible

-- The keys that are in the table when an entry is read.
def earlier (json : JsonGraph) (key : String) : List String := json.keys.takeWhile (· ≠ key)

-- The entry under `key` was read as `op`.
structure Loads (python : Python) (json : JsonGraph) (key : String) (op : Op) : Prop where
  entry : ∃ data, json.get? key = some data ∧ op_from_json python (earlier json key) data = .ok op

def Reads (python : Python) (json : JsonGraph) (key dep : String) : Prop :=
  ∃ op, Loads python json key op ∧ dep ∈ op.inputs

section
variable {python : Python} {json : JsonGraph} {ops : Dict String Op} {graph : Graph} {order : SetOrder String}

theorem load_entries (entries : List (String × JsonOp)) (start : Dict String Op)
    (distinct : (start.keys ++ entries.map Prod.fst).Nodup)
    (loaded : entries.foldlM (Graph.load_op python) start = .ok ops) :
    ops.keys = start.keys ++ entries.map Prod.fst ∧ (∀ key ∈ start.keys, ops.get? key = start.get? key) ∧
    ∀ front key data back, entries = front ++ (key,data) :: back →
      ∃ op, ops.get? key = some op ∧ op_from_json python (start.keys ++ front.map Prod.fst) data = .ok op := by
  induction entries generalizing start with
  | nil =>
      cases loaded
      simp
  | cons entry rest ih =>
      rw [List.foldlM_cons] at loaded
      obtain ⟨next,first,later⟩ := bind_ok loaded
      obtain ⟨op,read,made⟩ := bind_ok first
      cases made
      rw [List.map_cons] at distinct
      have fresh : entry.1 ∉ start.keys := fun old =>
        (List.nodup_append.mp distinct).2.2 _ old _ List.mem_cons_self rfl
      have grown : (start.set entry.1 op).keys = start.keys ++ [entry.1] := Dict.keys_set_of_not_mem fresh
      have distinct' : ((start.set entry.1 op).keys ++ rest.map Prod.fst).Nodup := by simpa [grown] using distinct
      obtain ⟨keys,kept,each⟩ := ih (start.set entry.1 op) distinct' later
      refine ⟨by simp [keys,grown],fun key old => ?_,fun front key data back split => ?_⟩
      · have different : key ≠ entry.1 := fun same => fresh (same ▸ old)
        rw [kept key (by simp [grown,old]),Dict.get?_set_ne _ _ different]
      · cases front with
        | nil =>
            obtain ⟨rfl,rfl⟩ := List.cons.inj split
            refine ⟨op,?_,by simpa using read⟩
            rw [kept key (by simp [grown]),Dict.get?_set_self]
        | cons head front =>
            obtain ⟨rfl,tail⟩ := List.cons.inj split
            obtain ⟨other,found,read⟩ := each front key data back tail
            exact ⟨other,found,by simpa [grown] using read⟩

-- Every entry is read once, against the entries before it.
theorem loaded_ops (loaded : json.entries.foldlM (Graph.load_op python) Dict.empty = .ok ops) :
    ops.keys = json.keys ∧ ∀ key op, ops.get? key = some op ↔ Loads python json key op := by
  obtain ⟨keys,_,each⟩ := load_entries json.entries Dict.empty (by simpa using json.distinct) loaded
  have same : ops.keys = json.keys := by simpa [Dict.keys] using keys
  have made : ∀ key data, json.get? key = some data →
      ∃ op, ops.get? key = some op ∧ op_from_json python (earlier json key) data = .ok op := by
    intro key data found
    obtain ⟨front,back,split⟩ := List.append_of_mem (Dict.get?_eq_some.mp found)
    obtain ⟨op,here,read⟩ := each front key data back split
    have absent : key ∉ front.map Prod.fst := by
      have distinct := json.distinct
      rw [split,List.map_append,List.nodup_append] at distinct
      exact fun member => distinct.2.2 key member key (by simp) rfl
    have before : earlier json key = front.map Prod.fst := by
      unfold earlier Dict.keys
      rw [split,List.map_append,List.takeWhile_append_of_pos]
      · simp
      · intro other member
        have different : other ≠ key := fun clash => absent (clash ▸ member)
        simpa using different
    refine ⟨op,here,?_⟩
    rw [before]
    simpa using read
  refine ⟨same,fun key op => ⟨fun found => ?_,fun loads => ?_⟩⟩
  · have present : key ∈ json.keys := same ▸ Dict.mem_keys_iff.mpr ⟨op,found⟩
    obtain ⟨data,entry⟩ := Dict.mem_keys_iff.mp present
    obtain ⟨op',found',read⟩ := made key data entry
    rw [found'] at found
    cases found
    exact ⟨data,entry,read⟩
  · obtain ⟨data,entry,read⟩ := loads.entry
    obtain ⟨op',found',read'⟩ := made key data entry
    rw [read'] at read
    cases read
    exact found'

theorem from_json_ok (accepted : Graph.from_json python order json = .ok graph) :
    json.entries.foldlM (Graph.load_op python) Dict.empty = .ok graph.ops ∧
    ∃ names sorted_ops, graph.ops.entries.foldlM (add_interface python) ([],[]) = .ok names ∧
      topological_sort (order.arrange (dependencies graph.ops)) none = .ok sorted_ops ∧ graph.order = by_id graph.ops sorted_ops := by
  obtain ⟨ops,loaded,accepted⟩ := bind_ok accepted
  obtain ⟨names,named,accepted⟩ := bind_ok accepted
  obtain ⟨sorted_ops,sorted,accepted⟩ := bind_ok accepted
  cases accepted
  exact ⟨loaded,names,sorted_ops,named,sorted,rfl⟩

theorem mem_dependencies {u x : String} :
    x ∈ neighbors (dependencies ops) u ↔ ∃ op, ops.get? x = some op ∧ u ∈ op.inputs := by
  have edges := (RuntimeGraph.edges_of_entries Op.inputs ops.entries Dict.empty u x).1
  have none_yet : x ∉ neighbors (Dict.empty : Adjacency String) u := by simp [neighbors]
  simp only [none_yet,false_or] at edges
  rw [dependencies,edges]
  simp only [Dict.get?_eq_some]

theorem keys_of_inputs (deps : List String) (edges : Adjacency String) (node_id : String) {u : String}
    (known : u ∈ (deps.foldl (fun edges dep => RuntimeGraph.add_edge edges dep node_id) edges).keys) :
    u ∈ edges.keys ∨ u ∈ deps := by
  induction deps generalizing edges with
  | nil => exact .inl known
  | cons dep rest ih =>
      rcases ih _ known with old | later
      · rcases Dict.mem_keys_set.mp old with old | rfl
        · exact .inl old
        · exact .inr List.mem_cons_self
      · exact .inr (List.mem_cons_of_mem _ later)

theorem keys_of_entries (entries : List (String × Op)) (edges : Adjacency String) {u : String}
    (known : u ∈ (entries.foldl (fun edges entry =>
      entry.2.inputs.foldl (fun edges dep => RuntimeGraph.add_edge edges dep entry.1) edges) edges).keys) :
    u ∈ edges.keys ∨ ∃ entry ∈ entries, u ∈ entry.2.inputs := by
  induction entries generalizing edges with
  | nil => exact .inl known
  | cons entry rest ih =>
      rcases ih _ known with old | ⟨other,later,input⟩
      · rcases keys_of_inputs _ _ _ old with old | input
        · exact .inl old
        · exact .inr ⟨entry,List.mem_cons_self,input⟩
      · exact .inr ⟨other,List.mem_cons_of_mem _ later,input⟩

-- The sort knows the operations at either end of a reference, and no others.
theorem mem_counted {x : String} : x ∈ (count_in_degree (order.arrange (dependencies ops))).keys ↔
    (∃ reader op, ops.get? reader = some op ∧ x ∈ op.inputs) ∨ ∃ op, ops.get? x = some op ∧ op.inputs ≠ [] := by
  rw [mem_count_in_degree,SetOrder.arrange,Dict.keys_mapValues,← SetOrder.arrange]
  constructor
  · rintro (key | edge)
    · rcases keys_of_entries _ _ key with none_yet | ⟨entry,member,input⟩
      · simp at none_yet
      · exact .inl ⟨entry.1,entry.2,Dict.get?_eq_some.mpr member,input⟩
    · obtain ⟨u,_,edge⟩ := List.mem_flatMap.mp edge
      obtain ⟨op,found,input⟩ := mem_dependencies.mp (mem_neighbors_arrange.mp edge)
      exact .inr ⟨op,found,List.ne_nil_of_mem input⟩
  · rintro (⟨reader,op,found,input⟩ | ⟨op,found,some_input⟩)
    · exact .inl (mem_keys_of_neighbor (mem_dependencies.mpr ⟨op,found,input⟩))
    · obtain ⟨u,input⟩ := List.exists_mem_of_ne_nil _ some_input
      have edge := mem_dependencies.mpr ⟨op,found,input⟩
      exact .inr (List.mem_flatMap.mpr ⟨u,mem_keys_of_neighbor edge,mem_neighbors_arrange.mpr edge⟩)

end

def input_names (entries : List (String × Op)) : List Value := entries.filterMap fun entry =>
  match entry.2.body with
  | .input_op name => some name
  | _ => none

def output_names (entries : List (String × Op)) : List Value := entries.filterMap fun entry =>
  match entry.2.body with
  | .output_op name _ => some name
  | _ => none

-- Names that can all be keys of one dict.
structure FreeNames (names : List Value) : Prop where
  hashable : ∀ name ∈ names, dict_key name ≠ none
  distinct : (names.filterMap dict_key).Nodup

theorem FreeNames.perm {names names' : List Value} (free : FreeNames names) (same : names.Perm names') : FreeNames names' :=
  ⟨fun name member => free.hashable name (same.mem_iff.mpr member),(same.filterMap dict_key).nodup_iff.mp free.distinct⟩

theorem free_snoc {names : List Value} {name hashed : Value} (key : dict_key name = some hashed) :
    FreeNames (names ++ [name]) ↔ FreeNames names ∧ hashed ∉ names.filterMap dict_key := by
  have tail : (names ++ [name]).filterMap dict_key = names.filterMap dict_key ++ [hashed] := by
    rw [List.filterMap_append]
    simp [key]
  constructor
  · intro free
    have distinct := free.distinct
    rw [tail] at distinct
    exact ⟨⟨fun other member => free.hashable other (List.mem_append_left _ member),(List.nodup_append.mp distinct).1⟩,
      fun member => (List.nodup_append.mp distinct).2.2 _ member hashed (by simp) rfl⟩
  · rintro ⟨free,fresh⟩
    refine ⟨fun other member => ?_,?_⟩
    · rcases List.mem_append.mp member with old | new
      · exact free.hashable other old
      · rw [List.mem_singleton.mp new,key]
        simp
    · rw [tail]
      refine List.nodup_append.mpr ⟨free.distinct,by simp,?_⟩
      rintro a old b new rfl
      rw [List.mem_singleton] at new
      exact fresh (new ▸ old)

theorem known_names (names : List (Value × String)) : names.filterMap (fun known => dict_key known.1) =
    (names.map Prod.fst).filterMap dict_key := by
  rw [List.filterMap_map]
  rfl

-- A name is taken in exactly when it stays a key of its own.
theorem add_name_iff {python : Python} {kind : String} {names after : List (Value × String)} {name : Value} {key : String} :
    add_name python kind names name key = .ok after ↔
      after = names ++ [(name,key)] ∧ ∃ hashed, dict_key name = some hashed ∧ hashed ∉ (names.map Prod.fst).filterMap dict_key := by
  unfold add_name
  rw [known_names]
  cases hashed : dict_key name with
  | none => simp
  | some value =>
      dsimp only
      by_cases taken : value ∈ (names.map Prod.fst).filterMap dict_key
      · rw [if_pos taken]
        constructor
        · intro wrong
          cases wrong
        · rintro ⟨_,other,same,fresh⟩
          cases same
          exact absurd taken fresh
      · rw [if_neg taken]
        constructor
        · intro same
          cases same
          exact ⟨rfl,value,rfl,taken⟩
        · rintro ⟨rfl,_⟩
          rfl

theorem free_add {names : List Value} {name : Value} (free : FreeNames (names ++ [name])) :
    FreeNames names ∧ ∃ hashed, dict_key name = some hashed ∧ hashed ∉ names.filterMap dict_key := by
  have some_key := free.hashable name (by simp)
  cases key : dict_key name with
  | none => exact absurd key some_key
  | some hashed =>
      obtain ⟨before,fresh⟩ := (free_snoc key).mp free
      exact ⟨before,hashed,rfl,fresh⟩

theorem interface_snoc (entries : List (String × Op)) (entry : String × Op) :
    input_names (entries ++ [entry]) = input_names entries ++ input_names [entry] ∧
    output_names (entries ++ [entry]) = output_names entries ++ output_names [entry] :=
  ⟨List.filterMap_append,List.filterMap_append⟩

-- The names that the constructor collects, and when it accepts them.
structure Collected (entries : List (String × Op)) (names : List (Value × String) × List (Value × String)) : Prop where
  inputs : names.1.map Prod.fst = input_names entries
  outputs : names.2.map Prod.fst = output_names entries
  free_inputs : FreeNames (input_names entries)
  free_outputs : FreeNames (output_names entries)

theorem interface_cases (python : Python) (entry : String × Op) :
    (∃ name, input_names [entry] = [name] ∧ output_names [entry] = [] ∧
      ∀ names, add_interface python names entry =
        (do let input_ops ← add_name python "input" names.1 name entry.1; pure (input_ops,names.2))) ∨
    (∃ name, input_names [entry] = [] ∧ output_names [entry] = [name] ∧
      ∀ names, add_interface python names entry =
        (do let output_ops ← add_name python "output" names.2 name entry.1; pure (names.1,output_ops))) ∨
    (input_names [entry] = [] ∧ output_names [entry] = [] ∧ ∀ names, add_interface python names entry = .ok names) := by
  obtain ⟨key,⟨id,inputs,max_iter,body⟩⟩ := entry
  cases body with
  | input_op name => exact .inl ⟨name,rfl,rfl,fun _ => rfl⟩
  | output_op name path => exact .inr (.inl ⟨name,rfl,rfl,fun _ => rfl⟩)
  | _ => exact .inr (.inr ⟨rfl,rfl,fun _ => rfl⟩)

theorem collected_step {python : Python} {entries : List (String × Op)} {names after : List (Value × String) × List (Value × String)}
    {entry : String × Op} (collected : Collected entries names) (step : add_interface python names entry = .ok after) :
    Collected (entries ++ [entry]) after := by
  obtain ⟨inputs,outputs⟩ := interface_snoc entries entry
  obtain ⟨free_inputs,free_outputs⟩ := And.intro collected.free_inputs collected.free_outputs
  rcases interface_cases python entry with ⟨name,one,none_out,takes⟩ | ⟨name,none_in,one,takes⟩ | ⟨none_in,none_out,takes⟩
  · rw [takes] at step
    obtain ⟨added,took,made⟩ := bind_ok step
    cases made
    obtain ⟨rfl,hashed,is_key,fresh⟩ := add_name_iff.mp took
    rw [collected.inputs] at fresh
    rw [one] at inputs
    rw [none_out,List.append_nil] at outputs
    refine ⟨by simp [inputs,collected.inputs],by rw [outputs]; exact collected.outputs,?_,outputs ▸ free_outputs⟩
    rw [inputs]
    exact (free_snoc is_key).mpr ⟨free_inputs,fresh⟩
  · rw [takes] at step
    obtain ⟨added,took,made⟩ := bind_ok step
    cases made
    obtain ⟨rfl,hashed,is_key,fresh⟩ := add_name_iff.mp took
    rw [collected.outputs] at fresh
    rw [one] at outputs
    rw [none_in,List.append_nil] at inputs
    refine ⟨by rw [inputs]; exact collected.inputs,by simp [outputs,collected.outputs],inputs ▸ free_inputs,?_⟩
    rw [outputs]
    exact (free_snoc is_key).mpr ⟨free_outputs,fresh⟩
  · rw [takes] at step
    cases step
    rw [none_in,List.append_nil] at inputs
    rw [none_out,List.append_nil] at outputs
    exact ⟨by rw [inputs]; exact collected.inputs,by rw [outputs]; exact collected.outputs,inputs ▸ free_inputs,
      outputs ▸ free_outputs⟩

theorem collected_of_ok {python : Python} (entries : List (String × Op)) {names : List (Value × String) × List (Value × String)}
    (done : entries.foldlM (add_interface python) ([],[]) = .ok names) : Collected entries names := by
  induction entries using List.reverseRecOn generalizing names with
  | nil =>
      cases done
      exact ⟨rfl,rfl,⟨by simp [input_names],by simp [input_names]⟩,⟨by simp [output_names],by simp [output_names]⟩⟩
  | append_singleton entries entry ih =>
      rw [List.foldlM_append] at done
      obtain ⟨before,earlier,last⟩ := bind_ok done
      obtain ⟨after,step,same⟩ := bind_ok last
      cases same
      exact collected_step (ih earlier) step

theorem interface_accepts {python : Python} (entries : List (String × Op)) (free_inputs : FreeNames (input_names entries))
    (free_outputs : FreeNames (output_names entries)) :
    ∃ names, entries.foldlM (add_interface python) ([],[]) = .ok names := by
  induction entries using List.reverseRecOn with
  | nil => exact ⟨([],[]),rfl⟩
  | append_singleton entries entry ih =>
      obtain ⟨inputs,outputs⟩ := interface_snoc entries entry
      rw [inputs] at free_inputs
      rw [outputs] at free_outputs
      have finish : FreeNames (input_names entries) → FreeNames (output_names entries) →
          (∀ names, Collected entries names → ∃ after, add_interface python names entry = .ok after) →
          ∃ names, (entries ++ [entry]).foldlM (add_interface python) ([],[]) = .ok names := by
        intro free_inputs free_outputs last
        obtain ⟨names,done⟩ := ih free_inputs free_outputs
        obtain ⟨after,step⟩ := last names (collected_of_ok entries done)
        refine ⟨after,?_⟩
        rw [List.foldlM_append,done,ok_bind,List.foldlM_cons,step]
        rfl
      rcases interface_cases python entry with ⟨name,one,none_out,takes⟩ | ⟨name,none_in,one,takes⟩ | ⟨none_in,none_out,takes⟩
      · rw [one] at free_inputs
        rw [none_out,List.append_nil] at free_outputs
        obtain ⟨before,hashed,is_key,fresh⟩ := free_add free_inputs
        refine finish before free_outputs fun names collected => ?_
        have took : add_name python "input" names.1 name entry.1 = .ok (names.1 ++ [(name,entry.1)]) :=
          add_name_iff.mpr ⟨rfl,hashed,is_key,collected.inputs ▸ fresh⟩
        exact ⟨_,by rw [takes,took]; rfl⟩
      · rw [none_in,List.append_nil] at free_inputs
        rw [one] at free_outputs
        obtain ⟨before,hashed,is_key,fresh⟩ := free_add free_outputs
        refine finish free_inputs before fun names collected => ?_
        have took : add_name python "output" names.2 name entry.1 = .ok (names.2 ++ [(name,entry.1)]) :=
          add_name_iff.mpr ⟨rfl,hashed,is_key,collected.outputs ▸ fresh⟩
        exact ⟨_,by rw [takes,took]; rfl⟩
      · rw [none_in,List.append_nil] at free_inputs
        rw [none_out,List.append_nil] at free_outputs
        exact finish free_inputs free_outputs fun names _ => ⟨names,takes names⟩

end Lumilake.Graphs

import Lumilake.Parser.SqlFaithful

-- A select binds every filter and its limit exactly when no two of its references share a
-- label without sharing a payload and no text of it is taken for another thing.
namespace Lumilake.Parser.N8n
open Ops Fallible Braces

section
variable {letters : Letters} {python : Python} {known : Known}

theorem lookup_of_mem {β : Type} {label : Text} {b : β} {pairs : List (Text × β)} (member : (label,b) ∈ pairs) :
    ∃ first, pairs.lookup label = some first := by
  cases found : pairs.lookup label with
  | some first => exact ⟨first,rfl⟩
  | none => exact absurd (List.lookup_eq_none_iff.mp found _ member) (by simp)

theorem mem_of_lookup {β : Type} {label : Text} {b : β} {pairs : List (Text × β)} (found : pairs.lookup label = some b) :
    (label,b) ∈ pairs := by
  obtain ⟨earlier,later,split,_⟩ := List.lookup_eq_some_iff.mp found
  exact split ▸ List.mem_append_right _ List.mem_cons_self

def references_of (letters : Letters) (places : List (Text × Value)) : List (Text × Reference) :=
  places.filterMap fun place => (refers letters place.2).map (place.1,·)

theorem mem_references {places : List (Text × Value)} {label : Text} {r : Reference} :
    (label,r) ∈ references_of letters places ↔ ∃ place ∈ places, place.1 = label ∧ refers letters place.2 = some r := by
  unfold references_of
  rw [List.mem_filterMap]
  constructor
  · intro found
    obtain ⟨place,member,named⟩ := found
    obtain ⟨r',names,same⟩ := Option.map_eq_some_iff.mp named
    cases same
    exact ⟨place,member,rfl,names⟩
  · intro found
    obtain ⟨place,member,rfl,names⟩ := found
    exact ⟨place,member,by rw [names]; rfl⟩

-- Where no literal is mistaken, a label stands for the payload of the first reference under it.
theorem slots_lookup {places : List (Text × Value)} (taken : ∀ place ∈ places, Taken letters known place.2)
    (literal : ∀ place ∈ places, mistaken letters place.2 = false) (label : Text) :
    match (references_of letters places).lookup label with
    | some r => ∃ p, (slots_of letters known places).lookup label = some p ∧ (p = own_payload known r ↔ Told known r)
    | none => (slots_of letters known places).lookup label = none := by
  induction places with
  | nil => rfl
  | cons place rest ih =>
      have later := ih (fun p member => taken p (List.mem_cons_of_mem _ member)) (fun p member => literal p (List.mem_cons_of_mem _ member))
      have here := taken place List.mem_cons_self
      unfold references_of slots_of
      cases names : refers letters place.2 with
      | none =>
          obtain ⟨_,absent⟩ := referenced_of_literal names here.resolves here.takes
          rw [literal place List.mem_cons_self] at absent
          have nothing : payload_at letters known place.2 = none := Option.isNone_iff_eq_none.mp (Option.isSome_eq_false_iff.mp absent)
          rw [List.filterMap_cons_none (by rw [names]; rfl),List.filterMap_cons_none (by rw [nothing]; rfl)]
          exact later
      | some r =>
          obtain ⟨p,payload,own⟩ := referenced_of_reference names here.resolves here.takes
          rw [List.filterMap_cons_some (b := (place.1,r)) (by rw [names]; rfl),
            List.filterMap_cons_some (b := (place.1,p)) (by rw [payload]; rfl),List.lookup_cons,List.lookup_cons]
          by_cases same : label = place.1
          · rw [same,beq_self_eq_true]
            exact ⟨p,rfl,own⟩
          · rw [beq_false_of_ne same]
            exact later

theorem mem_slots {places : List (Text × Value)} {place : Text × Value} (member : place ∈ places)
    (payload : payload_at letters known place.2 = some p) : (place.1,p) ∈ slots_of letters known places :=
  List.mem_filterMap.mpr ⟨place,member,by rw [payload]; rfl⟩

theorem place_words {filters : List Filter} {limit : Value} {place : Text × Value} (member : place ∈ places filters limit) :
    ∀ c ∈ place.1, c.isAlphanum = true ∨ c = '_' := by
  rcases List.mem_append.mp member with among | last
  · obtain ⟨filter,_,rfl⟩ := List.mem_map.mp among
    exact label_chars filter.column filter.op
  · cases limit with
    | str text =>
        simp only [limit_places] at last
        split at last
        · cases last
        · cases List.mem_singleton.mp last
          exact List.forall_iff_forall_mem.mp (by decide : "limit".toList.Forall fun c => c.isAlphanum = true ∨ c = '_')
    | none | bool _ | int _ | float _ | list _ | tuple _ | dict _ => cases last

theorem slot_words {filters : List Filter} {limit : Value} {values : Text → Option Payload}
    (looked : ∀ label, values label = (slots_of letters known (places filters limit)).lookup label) : WordLabels values := by
  intro label p found
  rw [looked] at found
  obtain ⟨place,member,named⟩ := List.mem_filterMap.mp (mem_of_lookup found)
  obtain ⟨_,_,same⟩ := Option.map_eq_some_iff.mp named
  cases same
  exact place_words member

theorem locked_mem {filters : List Filter} {output_columns : List String} {filter : Filter} (member : filter ∈ filters) :
    filter.column ∈ locked filters output_columns := by
  have stays : ∀ (filters : List Filter) (columns : List String), ∀ column ∈ columns, column ∈ filters.foldl lock_column columns := by
    intro filters
    induction filters with
    | nil => exact fun _ _ member => member
    | cons first rest ih =>
        intro columns column member
        apply ih
        unfold lock_column
        split
        · exact member
        · exact List.mem_append_left _ member
  unfold locked
  induction filters generalizing output_columns with
  | nil => cases member
  | cons first rest ih =>
      rw [List.foldl_cons]
      rcases List.mem_cons.mp member with rfl | later
      · apply stays
        unfold lock_column
        split
        · assumption
        · exact List.mem_append_right _ List.mem_cons_self
      · exact ih later

theorem select_binds_iff {node_name table : String} {output_columns main_inputs : List String} {filters : List Filter} {limit : Value}
    {select : Select} (done : make_postgres_select letters python known node_name table output_columns main_inputs filters limit = .ok select) :
    fill (param_value select.params) select.template =
        own_query letters python known table (locked filters output_columns) filters limit ↔
      Binds letters python known table (locked filters output_columns) filters limit := by
  obtain ⟨taken,params,tail,ends,template⟩ := select_runs done
  have looked : ∀ label, param_value select.params label = (slots_of letters known (places filters limit)).lookup label := by
    intro label
    rw [params,param_value_add_all]
    rfl
  have words := slot_words looked
  have held : ∀ place ∈ places filters limit, Held letters known (param_value select.params) place := by
    intro place member p payload
    rw [looked]
    exact lookup_of_mem (mem_slots member payload)
  have refs : references letters filters limit = references_of letters (places filters limit) := rfl
  rw [template,query_iff words ends taken held]
  constructor
  · intro all
    obtain ⟨columns,tables,rows,limited⟩ := all
    have fits : ∀ place ∈ places filters limit, Fits letters known (param_value select.params) place := by
      intro place member
      rcases List.mem_append.mp member with among | last
      · obtain ⟨filter,inside,rfl⟩ := List.mem_map.mp among
        exact (rows filter inside).2.2.2
      · exact limited place last
    have literal : ∀ place ∈ places filters limit, mistaken letters place.2 = false := by
      intro place member
      have fit := fits place member
      unfold Fits at fit
      cases names : refers letters place.2 with
      | none => rw [names] at fit; exact fit
      | some r =>
          cases value : place.2 with
          | str text => rw [value] at names; simp [mistaken,names]
          | none | bool _ | int _ | float _ | list _ | tuple _ | dict _ => rfl
    have bound : ∀ label r, (label,r) ∈ references letters filters limit → param_value select.params label = some (own_payload known r) := by
      intro label r member
      obtain ⟨place,inside,rfl,names⟩ := mem_references.mp (refs ▸ member)
      have fit := fits place inside
      unfold Fits at fit
      rw [names] at fit
      exact fit
    have clean : ∀ piece, Clean (param_value select.params) piece →
        ∀ place ∈ references letters filters limit, ¬ slot place.1 <:+: piece :=
      fun piece free place member => free place.1 _ (bound place.1 place.2 member)
    refine ⟨literal,?_,?_,?_⟩
    · intro label r first
      have entry := slots_lookup taken literal label
      rw [← refs,first] at entry
      obtain ⟨p,stands,own⟩ := entry
      have theirs := bound label r (mem_of_lookup first)
      rw [looked,stands] at theirs
      exact own.mp (Option.some.inj theirs)
    · intro place member first found
      have mine := bound place.1 place.2 member
      rw [bound place.1 first (mem_of_lookup found)] at mine
      exact Option.some.inj mine
    · intro piece member
      rcases List.mem_append.mp member with front | rowwise
      · rcases List.mem_cons.mp front with rfl | column
        · exact clean _ tables
        · obtain ⟨name,inside,rfl⟩ := List.mem_map.mp column
          exact clean _ (columns name inside)
      · obtain ⟨filter,inside,among⟩ := List.mem_flatMap.mp rowwise
        obtain ⟨_,op,texts,_⟩ := rows filter inside
        rcases List.mem_cons.mp among with rfl | text
        · exact clean _ op
        · exact clean _ (texts piece text)
  · intro binds
    have clean : ∀ piece ∈ pieces letters python table (locked filters output_columns) filters, Clean (param_value select.params) piece := by
      intro piece member label p stands
      have entry := slots_lookup taken binds.literal label
      rw [looked] at stands
      cases first : (references letters filters limit).lookup label with
      | none =>
          rw [← refs,first,stands] at entry
          cases entry
      | some r => exact binds.clean piece member (label,r) (mem_of_lookup first)
    have fits : ∀ place ∈ places filters limit, Fits letters known (param_value select.params) place := by
      intro place member
      unfold Fits
      cases names : refers letters place.2 with
      | none => exact binds.literal place member
      | some r =>
          have here : (place.1,r) ∈ references letters filters limit := refs ▸ mem_references.mpr ⟨place,member,rfl,names⟩
          obtain ⟨first,found⟩ := lookup_of_mem here
          have entry := slots_lookup taken binds.literal place.1
          rw [← refs,found] at entry
          obtain ⟨p,stands,own⟩ := entry
          simp only
          rw [looked,stands,own.mpr (binds.told _ _ found),binds.shared _ here _ found]
    refine ⟨?_,?_,?_,?_⟩
    · intro column member
      exact clean _ (List.mem_append_left _ (List.mem_cons_of_mem _ (List.mem_map_of_mem member)))
    · exact clean _ (List.mem_append_left _ List.mem_cons_self)
    · intro filter member
      have among : ∀ piece ∈ filter.op.toList :: literal_pieces letters python filter.value,
          piece ∈ pieces letters python table (locked filters output_columns) filters := fun piece inside =>
        List.mem_append_right _ (List.mem_flatMap.mpr ⟨filter,member,inside⟩)
      refine ⟨?_,clean _ (among _ List.mem_cons_self),fun piece inside => clean _ (among _ (List.mem_cons_of_mem _ inside)),?_⟩
      · exact clean _ (List.mem_append_left _ (List.mem_cons_of_mem _ (List.mem_map_of_mem (locked_mem member))))
      · exact fits _ (List.mem_append_left _ (List.mem_map_of_mem member))
    · intro place member
      exact fits _ (List.mem_append_right _ member)

end

def ascii_letters : Letters where
  is_upper := Char.isUpper
  is_digit := Char.isDigit
  is_word := fun c => c.isAlphanum || c = '_'
  decimal := fun c => if c.isDigit then some (c.toNat - 48) else none
  ascii_digit := fun _ _ => rfl

def plain_python : Python := ⟨fun _ _ => none,fun _ => "",fun _ => "",fun _ => ""⟩

theorem two_ids_distinct : (List.map Prod.fst [("A","llm_g_A_7"),("B","llm_g_B_7")]).Nodup := by decide

-- Two chain nodes whose ids end in the same digest.
def two_nodes : Known where
  digest := fun _ => ⟨7,by decide⟩
  scope := "g"
  op_ids := ⟨[("A","llm_g_A_7"),("B","llm_g_B_7")],two_ids_distinct⟩
  node_map := Dict.empty
  inputs := Dict.empty
  made := by decide +kernel

def filter_by (column text : String) : Filter := ⟨column,"=",.str text⟩

def select_by (filters : List Filter) : Except String Select :=
  make_postgres_select ascii_letters plain_python two_nodes "n" "t" [] [] filters .none

def own_by (filters : List Filter) : List (Segment Payload) :=
  own_query ascii_letters plain_python two_nodes "t" (locked filters []) filters .none

def two_columns : List Filter := [filter_by "s" "$('A').x",filter_by "u" "$('B').y"]
def one_column : List Filter := [filter_by "s" "$('A').x",filter_by "s" "$('B').y"]

theorem select_binds_two : ∃ select, select_by two_columns = .ok select ∧
    (fill (param_value select.params) select.template = own_by two_columns ↔
      Binds ascii_letters plain_python two_nodes "t" (locked two_columns []) two_columns .none) := by
  have ran : (select_by two_columns).toOption.isSome = true := by decide +kernel
  obtain ⟨select,made⟩ := Option.isSome_iff_exists.mp ran
  have done := Fallible.ok_of_toOption made
  exact ⟨select,done,select_binds_iff done⟩

-- Two filters on one column: the second is bound to the reference of the first.
theorem shared_label_bound : ∃ select, select_by one_column = .ok select ∧
    fill (param_value select.params) select.template ≠ own_by one_column := by
  have ran : (select_by one_column).toOption.map (fun select =>
      decide (fill (param_value select.params) select.template ≠ own_by one_column)) = some true := by decide +kernel
  obtain ⟨select,made,other⟩ := Option.map_eq_some_iff.mp ran
  exact ⟨select,Fallible.ok_of_toOption made,of_decide_eq_true other⟩

end Lumilake.Parser.N8n

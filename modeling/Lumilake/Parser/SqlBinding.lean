import Lumilake.Library.Quoting
import Lumilake.Parser.SqlFilters

-- When the template of a select binds every filter to its own reference.
namespace Lumilake.Parser.N8n
open Ops Optimizer Fallible Braces

-- What a text refers to.
def refers (letters : Letters) (value : Value) : Option Reference :=
  match value with
  | .str text => (extract_ref_details letters (strip_expr text)).head?
  | _ => none

def own_id (known : Known) (name : String) : String := (known.op_ids.get? name).getD ""

def own_values (known : Known) (name : String) : Option (List String) :=
  if known.node_map.get? name = some N8N_CHAT_TRIGGER then known.inputs.get? name else none

def default_path (node_type : Option String) : String :=
  match referenced_op_path node_type none with
  | .ok path => path
  | .error _ => ""

-- What a reference is read from: its own node at its own path, or the values of the input it names.
def own_payload (known : Known) (r : Reference) : Payload :=
  match to_runtime_output_path r.2 with
  | some runtime_path => .node (own_id known r.1) runtime_path
  | none =>
    match own_values known r.1 with
    | some items => .data items
    | none => .node (own_id known r.1) (default_path (known.node_map.get? r.1))

-- The tables that are looked up by id tell a node that is referred to without a path.
def Told (known : Known) (r : Reference) : Prop := to_runtime_output_path r.2 = none →
  match own_values known r.1 with
  | some items => ∃ other, (input_names_by_op_id known).get? (own_id known r.1) = some other ∧ known.inputs.get? other = some items
  | none => (input_names_by_op_id known).get? (own_id known r.1) = none ∧
      referenced_op_path ((op_type_by_id known).get? (own_id known r.1)).join none =
        referenced_op_path (known.node_map.get? r.1) none

-- A literal that looks like an id or a token.
def mistaken (letters : Letters) (value : Value) : Bool :=
  match value with
  | .str text => (refers letters value).isNone && (starts REF_TOKEN_PREFIX text || is_op_id text)
  | _ => false

def own_literal (python : Python) : Value → Text
  | .none => "NULL".toList
  | .bool value => if value then "TRUE".toList else "FALSE".toList
  | .int value => int_text value
  | .float value => (python.str (.float value)).toList
  | .str value => Quoting.quoted '\'' value.toList
  | value => Quoting.quoted '\'' (python.str value).toList

def own_items (python : Python) (items : List Value) : List (Segment Payload) :=
  .char '(' :: (chars [',',' ']).intercalate (items.map fun item => chars (own_literal python item)) ++ [.char ')']

section
variable (letters : Letters) (python : Python) (known : Known)

def own_value (value : Value) : List (Segment Payload) :=
  match refers letters value,value with
  | some r,_ => [.char '\'',.value (own_payload known r),.char '\'']
  | none,.list items => own_items python items
  | none,.tuple items => own_items python items
  | none,value => chars (own_literal python value)

def own_clause (filter : Filter) : List (Segment Payload) :=
  chars (quote_column_ref letters filter.column) ++ .char ' ' ::
    (chars filter.op.toList ++ .char ' ' :: own_value letters python known filter.value)

def limit_literal (text : String) : Text :=
  match if is_digits letters text then read_int letters text else .error "" with
  | .ok n => int_text n
  | .error _ => own_literal python (.str text)

def limit_value (text : String) : List (Segment Payload) :=
  match refers letters (.str text) with
  | some r => [.value (own_payload known r)]
  | none => chars (limit_literal letters python text)

def own_limit (limit : Value) : List (Segment Payload) :=
  match limit with
  | .int n => chars (" LIMIT ".toList ++ int_text n)
  | .str text => if strip text = "" then [] else chars " LIMIT ".toList ++ limit_value letters python known (strip text)
  | _ => []

def own_columns (columns : List String) : List (Segment Payload) :=
  if columns = [] then [.char '*'] else (chars [',',' ']).intercalate (columns.map fun column => chars (quote_column_ref letters column))

def own_where (filters : List Filter) : List (Segment Payload) :=
  if filters = [] then [] else chars " WHERE ".toList ++ (chars " AND ".toList).intercalate (filters.map (own_clause letters python known))

-- The query with one clause for each filter, in order, and every value in its place.
def own_query (table : String) (columns : List String) (filters : List Filter) (limit : Value) : List (Segment Payload) :=
  chars "SELECT ".toList ++ (own_columns letters columns ++ (chars " FROM ".toList ++ (chars (quote_table_ref letters table) ++
    (own_where letters python known filters ++ own_limit letters python known limit))))

end

def filter_place (filter : Filter) : Text × Value := (sql_param_label filter.column filter.op,filter.value)

def limit_places (limit : Value) : List (Text × Value) :=
  match limit with
  | .str text => if strip text = "" then [] else [("limit".toList,.str (strip text))]
  | _ => []

-- The values that may be taken for references, each under the label of its place.
def places (filters : List Filter) (limit : Value) : List (Text × Value) := filters.map filter_place ++ limit_places limit

def references (letters : Letters) (filters : List Filter) (limit : Value) : List (Text × Reference) :=
  (places filters limit).filterMap fun place => (refers letters place.2).map (place.1,·)

def literal_pieces (letters : Letters) (python : Python) (value : Value) : List Text :=
  match refers letters value,value with
  | some _,_ => []
  | none,.list items => items.map (own_literal python)
  | none,.tuple items => items.map (own_literal python)
  | none,value => [own_literal python value]

-- The texts that a query is put together from.
def pieces (letters : Letters) (python : Python) (table : String) (columns : List String) (filters : List Filter) : List Text :=
  quote_table_ref letters table :: columns.map (quote_column_ref letters) ++
    filters.flatMap fun filter => filter.op.toList :: literal_pieces letters python filter.value

-- References with one label have one payload, no text holds the label of a reference in
-- braces, and no literal looks like a reference.
structure Binds (letters : Letters) (python : Python) (known : Known) (table : String) (columns : List String)
    (filters : List Filter) (limit : Value) : Prop where
  literal : ∀ place ∈ places filters limit, mistaken letters place.2 = false
  told : ∀ label r, (references letters filters limit).lookup label = some r → Told known r
  shared : ∀ place ∈ references letters filters limit, ∀ first,
    (references letters filters limit).lookup place.1 = some first → own_payload known first = own_payload known place.2
  clean : ∀ piece ∈ pieces letters python table columns filters,
    ∀ place ∈ references letters filters limit, ¬ slot place.1 <:+: piece

def param_value (params : List Param) (label : Text) : Option Payload :=
  (params.find? fun param => param.label = label).map Param.payload

theorem referenced_path_filled (found : referenced_op_path node_type none = .ok path) : path ≠ "" := by
  unfold referenced_op_path at found
  simp only [path_to_label,to_runtime_output_path] at found
  split_ifs at found <;> cases found <;> decide

section
variable {letters : Letters} {python : Python} {known : Known}

theorem input_names_from {id name : String} (found : (input_names_by_op_id known).get? id = some name) : name ∈ known.inputs := by
  have each : ∀ (entries : List (String × String)) (names : Dict String String),
      (∀ id name, names.get? id = some name → name ∈ known.inputs) →
      ∀ id name, (entries.foldl (fun names e => if e.1 ∈ known.inputs then names.set e.2 e.1 else names) names).get? id = some name →
        name ∈ known.inputs := by
    intro entries
    induction entries with
    | nil => exact fun _ start => start
    | cons e rest ih =>
        intro names start
        apply ih
        intro id name found
        simp only at found
        split at found
        · rename_i input
          by_cases same : id = e.2
          · rw [same,Dict.get?_set_self] at found
            cases found
            exact input
          · rw [Dict.get?_set_ne _ _ same] at found
            exact start id name found
        · exact start id name found
  exact each _ _ (fun id name found => by cases (Dict.get?_empty id).symm.trans found) id name found

theorem own_id_of {r : Reference} (found : known.op_ids.get? r.1 = some op_id) : own_id known r.1 = op_id := by rw [own_id,found]; rfl

-- A reference is taken for one, and for its own where the tables tell its node.
theorem referenced_of_reference {value resolved : Value} {r : Reference} {payload : Option Payload}
    (names : refers letters value = some r) (resolves : resolve_value letters known value = .ok resolved)
    (taken : referenced known resolved = .ok payload) : ∃ p, payload = some p ∧ (p = own_payload known r ↔ Told known r) := by
  cases value with
  | str text =>
      simp only [refers] at names
      simp only [resolve_value] at resolves
      cases details : extract_ref_details letters (strip_expr text) with
      | nil => rw [details] at names; cases names
      | cons first more =>
          rw [details] at names resolves
          cases names
          simp only at resolves
          cases found : known.op_ids.get? r.1 with
          | none => rw [found] at resolves; cases resolves
          | some op_id =>
              rw [found] at resolves
              simp only at resolves
              have made := op_id_of found
              have own := own_id_of (r := r) found
              cases path : to_runtime_output_path r.2 with
              | some runtime_path =>
                  rw [path] at resolves
                  cases resolves
                  simp only [referenced,token_starts,if_true,decode_encode made (runtime_path_filled path)] at taken
                  cases taken
                  refine ⟨_,rfl,?_⟩
                  simp only [own_payload,Told,path,own]
                  exact ⟨fun _ none_left => (by cases none_left),fun _ => True.intro⟩
              | none =>
                  rw [path] at resolves
                  cases resolves
                  simp only [referenced,made.no_token,made.known,if_true,Bool.false_eq_true,if_false] at taken
                  simp only [own_payload,Told,path,own,forall_const]
                  cases named : (input_names_by_op_id known).get? op_id with
                  | some other =>
                      rw [named] at taken
                      cases taken
                      refine ⟨_,rfl,?_⟩
                      obtain ⟨items,held⟩ := Dict.mem_keys_iff.mp (input_names_from named)
                      cases values : own_values known r.1 with
                      | some own_items =>
                          simp only [held,Option.getD_some,Payload.data.injEq]
                          constructor
                          · intro same
                            exact ⟨other,rfl,same ▸ held⟩
                          · intro told
                            obtain ⟨_,same,theirs⟩ := told
                            cases same
                            exact Option.some.inj (held.symm.trans theirs)
                      | none =>
                          constructor
                          · intro same; cases same
                          · intro told; cases told.1
                  | none =>
                      rw [named] at taken
                      obtain ⟨path',chosen,rfl⟩ := map_ok taken
                      refine ⟨_,rfl,?_⟩
                      cases values : own_values known r.1 with
                      | some own_items =>
                          constructor
                          · intro same; cases same
                          · intro told
                            obtain ⟨_,same,_⟩ := told
                            cases same
                      | none =>
                          simp only [Payload.node.injEq,true_and,default_path,chosen]
                          cases own_path : referenced_op_path (known.node_map.get? r.1) none with
                          | ok path'' => simp
                          | error e =>
                              constructor
                              · intro same; exact absurd same (referenced_path_filled chosen)
                              · intro told; cases told
  | none | bool _ | int _ | float _ | list _ | tuple _ | dict _ => cases names

-- A literal stays what it is, unless it is mistaken for a reference.
theorem referenced_of_literal {value resolved : Value} {payload : Option Payload}
    (unnamed : refers letters value = none) (resolves : resolve_value letters known value = .ok resolved)
    (taken : referenced known resolved = .ok payload) : resolved = value ∧ payload.isSome = mistaken letters value := by
  cases value with
  | str text =>
      have details : extract_ref_details letters (strip_expr text) = [] := List.head?_eq_none_iff.mp unnamed
      simp only [resolve_value,details] at resolves
      cases resolves
      refine ⟨rfl,?_⟩
      simp only [mistaken,unnamed,Option.isNone_none,Bool.true_and]
      simp only [referenced] at taken
      cases token : starts REF_TOKEN_PREFIX text with
      | true =>
          rw [token,if_pos rfl] at taken
          obtain ⟨_,_,rfl⟩ := map_ok taken
          rfl
      | false =>
          rw [token,if_neg Bool.false_ne_true] at taken
          cases id : is_op_id text with
          | true =>
              rw [id,if_pos rfl] at taken
              split at taken
              · cases taken; rfl
              · obtain ⟨_,_,rfl⟩ := map_ok taken
                rfl
          | false =>
              rw [id,if_neg Bool.false_ne_true] at taken
              cases taken
              rfl
  | none | bool _ | int _ | float _ | list _ | tuple _ | dict _ =>
      cases resolves
      cases taken
      exact ⟨rfl,rfl⟩

end

def resolved (letters : Letters) (known : Known) (value : Value) : Value :=
  match resolve_value letters known value with
  | .ok found => found
  | .error _ => value

-- The payload of a value, if it is taken for a reference.
def payload_at (letters : Letters) (known : Known) (value : Value) : Option Payload :=
  match referenced known (resolved letters known value) with
  | .ok payload => payload
  | .error _ => none

structure Taken (letters : Letters) (known : Known) (value : Value) : Prop where
  resolves : resolve_value letters known value = .ok (resolved letters known value)
  takes : referenced known (resolved letters known value) = .ok (payload_at letters known value)

def Filter.resolve (letters : Letters) (known : Known) (filter : Filter) : Filter :=
  ⟨filter.column,filter.op,resolved letters known filter.value⟩

def slots_of (letters : Letters) (known : Known) (places : List (Text × Value)) : List (Text × Payload) :=
  places.filterMap fun place => (payload_at letters known place.2).map (place.1,·)

def add_all (slots : List (Text × Payload)) (params : List Param) : List Param :=
  slots.foldl (fun params slot => add_param slot.1 slot.2 params) params

def clause_tail (letters : Letters) (python : Python) (known : Known) (label : Text) (value : Value) : Text :=
  match payload_at letters known value with
  | some _ => '\'' :: slot label ++ ['\'']
  | none => literal_text python (resolved letters known value)

def clause_text (letters : Letters) (python : Python) (known : Known) (filter : Filter) : Text :=
  quote_column_ref letters filter.column ++ ' ' :: (filter.op.toList ++ ' ' ::
    clause_tail letters python known (sql_param_label filter.column filter.op) filter.value)

section
variable {letters : Letters} {python : Python} {known : Known}

theorem resolved_of {value found : Value} (done : resolve_value letters known value = .ok found) : resolved letters known value = found := by
  rw [resolved,done]

theorem payload_of {value : Value} {payload : Option Payload}
    (done : referenced known (resolved letters known value) = .ok payload) : payload_at letters known value = payload := by
  rw [payload_at,done]

theorem normalize_filters_runs {filters rows : List Filter} {extra : List String}
    (done : normalize_filters letters known filters = .ok (rows,extra)) :
    (∀ filter ∈ filters, resolve_value letters known filter.value = .ok (resolved letters known filter.value)) ∧
      rows = filters.map (Filter.resolve letters known) := by
  obtain ⟨pairs,each,ends⟩ := bind_ok done
  cases ends
  have all := mapM_ok.mp each
  clear each done
  induction all with
  | nil => exact ⟨fun _ member => absurd member List.not_mem_nil,rfl⟩
  | cons first _ ih =>
      obtain ⟨value,resolves,first⟩ := bind_ok first
      obtain ⟨extra,_,first⟩ := bind_ok first
      cases first
      obtain ⟨others,same⟩ := ih
      have own := resolved_of resolves
      refine ⟨List.forall_mem_cons.mpr ⟨own ▸ resolves,others⟩,?_⟩
      rw [List.map_cons,List.map_cons,same,Filter.resolve,own]

theorem filter_turn_runs {built after : Built} {filter : Filter}
    (done : filter_turn letters python known built (filter.resolve letters known) = .ok after) :
    referenced known (resolved letters known filter.value) = .ok (payload_at letters known filter.value) ∧
      after = ⟨add_all (slots_of letters known [filter_place filter]) built.query_params,
        built.where_clauses ++ [clause_text letters python known filter]⟩ := by
  obtain ⟨payload,takes,done⟩ := bind_ok done
  have own := payload_of takes
  refine ⟨own ▸ takes,?_⟩
  cases payload with
  | some p =>
      cases done
      simp [add_all,slots_of,filter_place,clause_text,clause_tail,own,Filter.resolve]
  | none =>
      cases done
      simp [add_all,slots_of,filter_place,clause_text,clause_tail,own,Filter.resolve]

theorem add_all_append (slots more : List (Text × Payload)) (params : List Param) :
    add_all (slots ++ more) params = add_all more (add_all slots params) := List.foldl_append

theorem slots_of_cons (place : Text × Value) (places : List (Text × Value)) :
    slots_of letters known (place :: places) = slots_of letters known [place] ++ slots_of letters known places :=
  List.filterMap_append (l := [place])

theorem loop_runs {filters : List Filter} {built after : Built}
    (done : (filters.map (Filter.resolve letters known)).foldlM (filter_turn letters python known) built = .ok after) :
    (∀ filter ∈ filters, referenced known (resolved letters known filter.value) = .ok (payload_at letters known filter.value)) ∧
      after = ⟨add_all (slots_of letters known (filters.map filter_place)) built.query_params,
        built.where_clauses ++ filters.map (clause_text letters python known)⟩ := by
  induction filters generalizing built with
  | nil =>
      cases done
      exact ⟨fun _ member => absurd member List.not_mem_nil,by simp [add_all,slots_of]⟩
  | cons filter rest ih =>
      rw [List.map_cons,List.foldlM_cons] at done
      obtain ⟨next,turn,later⟩ := bind_ok done
      obtain ⟨takes,rfl⟩ := filter_turn_runs turn
      obtain ⟨others,rfl⟩ := ih later
      refine ⟨List.forall_mem_cons.mpr ⟨takes,others⟩,?_⟩
      rw [List.map_cons,slots_of_cons (filter_place filter) (rest.map filter_place),add_all_append,List.map_cons]
      simp

theorem param_value_add (label : Text) (payload : Payload) (params : List Param) (asked : Text) :
    param_value (add_param label payload params) asked =
      (param_value params asked).or (if label = asked then some payload else none) := by
  unfold param_value add_param
  split
  · rename_i seen
    by_cases same : label = asked
    · subst same
      obtain ⟨param,member,own⟩ := List.mem_map.mp seen
      cases found : params.find? fun param => decide (param.label = label) with
      | some first => rfl
      | none => exact absurd (decide_eq_true own) (List.find?_eq_none.mp found param member)
    · rw [if_neg same,Option.or_none]
  · rw [List.find?_append]
    cases params.find? fun param => decide (param.label = asked) with
    | some first => rfl
    | none =>
        by_cases same : label = asked
        · simp [same]
        · simp [same]

-- A label stands for the first payload that was given under it.
theorem param_value_add_all (slots : List (Text × Payload)) (params : List Param) (label : Text) :
    param_value (add_all slots params) label = (param_value params label).or (slots.lookup label) := by
  induction slots generalizing params with
  | nil => simp [add_all]
  | cons slot rest ih =>
      have step : add_all (slot :: rest) params = add_all rest (add_param slot.1 slot.2 params) := rfl
      rw [step,ih,param_value_add,Option.or_assoc,List.lookup_cons]
      by_cases same : slot.1 = label
      · simp [same]
      · rw [if_neg same,beq_false_of_ne (Ne.symm same)]
        simp

end
end Lumilake.Parser.N8n

import Lumilake.Dynamic.Resolve

namespace Lumilake.Dynamic
open Fallible

-- Equal as Python compares dicts: the same value under every key.
def same_config (a b : Config) : Prop := ∀ key, a.get? key = b.get? key

-- The inputs an operation is emitted with, none when it leaves them out.
def inputs_of (op : Config) : List String := ((op.get? "inputs").bind Parser.texts?).getD []

-- The data of a retrieval template that declares param bindings.
def declared (template : Config) : Option (Spec × List Value) :=
  match template.get? "data_spec" with
  | some (.dict data_spec) => match Value.get? data_spec "param_bindings" with
      | some (.list bindings) => some (data_spec,bindings)
      | _ => none
  | _ => none

def label_key : Value → Option Value
  | .dict entries => hash_key (label_of entries)
  | _ => none

def field (key : String) : Value → Option Value
  | .dict entries => Value.get? entries key
  | _ => none

-- The label a binding names and the input of its slot.
def wired (inputs : List String) (binding : Value) : Option (Value × String) :=
  (label_key binding).bind fun label => (slot_input inputs ((field "input" binding).getD .none)).map fun input => (label,input)

def named_by (bindings : List Value) (param : Value) : Prop := ∃ binding ∈ bindings, label_key binding = label_key param

-- A param keeps what it holds, but for the node where a binding names it.
def kept_param (bindings : List Value) (param param' : Value) : Prop :=
  param'.is_mapping = param.is_mapping ∧ (param.is_mapping = false → param' = param) ∧
    ∀ key, key ≠ "node" ∨ ¬ named_by bindings param → field key param' = field key param

def bound_in (inputs : List String) (params' : List Value) (binding : Value) : Prop :=
  ∃ label input, wired inputs binding = some (label,input) ∧
    (∃ param ∈ params', label_key param = some label) ∧
      ∀ param ∈ params', label_key param = some label → field "node" param = some (.str input)

def list_items : Option Value → List Value
  | some (.list items) => items
  | _ => []

def kept_params (bindings : List Value) : Option Value → Option Value → Prop
  | some (.list params),some (.list params') => List.Forall₂ (kept_param bindings) params params'
  | params,params' => params' = params

structure BoundSpec (bindings : List Value) (inputs : List String) (data_spec data_spec' : Spec) : Prop where
  others : ∀ key, key ≠ "params" → Value.get? data_spec' key = Value.get? data_spec key
  count : inputs.length = bindings.length
  kept : kept_params bindings (Value.get? data_spec "params") (Value.get? data_spec' "params")
  bound : ∀ binding ∈ bindings, bound_in inputs (list_items (Value.get? data_spec' "params")) binding

-- The template's configuration with the id, the inputs and the declared bindings of the operation.
structure FromTemplate (template op merged : Config) : Prop where
  others : ∀ key, key ∉ ["id","inputs","data_spec"] → merged.get? key = template.get? key
  id : merged.get? "id" = (op.get? "id").or (template.get? "id")
  inputs : merged.get? "inputs" = (op.get? "inputs").or (template.get? "inputs")
  plain : declared template = none → merged.get? "data_spec" = template.get? "data_spec"
  bindings : ∀ data_spec bindings, declared template = some (data_spec,bindings) →
    ∃ data_spec', merged.get? "data_spec" = some (.dict data_spec') ∧ BoundSpec bindings (inputs_of op) data_spec data_spec'

def Expanded (library : Dict String Config) (op merged : Config) : Prop :=
  match op.get? "ref" with
  | some (.str ref) => ∃ template, library.get? ref = some template ∧ FromTemplate template op merged
  | _ => merged = op

-- A template with a `ref` of its own is looked up again: it has to lead to one with the same `ref`
-- and `op`, neither may hold any configuration, and nothing may be filled in the second time.
def settled (library : Dict String Config) (template op : Config) : Prop :=
  template.get? "ref" = none ∨ ∃ ref target, template.get? "ref" = some (.str ref) ∧ library.get? ref = some target ∧
    target.get? "ref" = template.get? "ref" ∧ target.get? "op" = template.get? "op" ∧
    (∀ key ∈ template.keys ++ target.keys, key ∈ ["ref","op","id","inputs"]) ∧
    (∀ key ∈ ["id","inputs"], key ∈ target.keys → key ∈ op.keys ∨ key ∈ template.keys) ∧
    ("inputs" ∈ op.keys ∨ ∀ value, template.get? "inputs" = some value → ∃ inputs, Parser.texts? value = some inputs)

def agree (bindings : List Value) (inputs : List String) : Prop :=
  ∀ binding ∈ bindings, ∀ other ∈ bindings, ∀ label input input', wired inputs binding = some (label,input) →
    wired inputs other = some (label,input') → input = input'

-- When an operation that names the template is resolved as it should be.
structure Fit (library : Dict String Config) (template op : Config) : Prop where
  given : ∀ data_spec bindings, declared template = some (data_spec,bindings) → bindings ≠ [] → "inputs" ∈ op.keys
  agree : ∀ data_spec bindings, declared template = some (data_spec,bindings) → agree bindings (inputs_of op)
  distinct : ∀ data_spec bindings, declared template = some (data_spec,bindings) → "inputs" ∈ op.keys →
    ((list_items (Value.get? data_spec "params")).map label_key).Nodup
  settled : settled library template op

section
variable {codec : Codec}

-- The labelled entries of the params.
theorem by_labels {params : List Value} {before known : Params} (done : params.foldlM (by_label codec) before = .ok known) :
    ∃ rows : List (Value × Spec), params = rows.map (fun row => .dict row.2) ∧
      (∀ row ∈ rows, hash_key (label_of row.2) = some row.1) ∧ known = rows.foldl (fun d row => d.set row.1 row.2) before := by
  induction params generalizing before with
  | nil =>
      cases done
      exact ⟨[],rfl,fun _ member => absurd member List.not_mem_nil,rfl⟩
  | cons param rest ih =>
      rw [List.foldlM_cons] at done
      obtain ⟨next,first,later⟩ := bind_ok done
      unfold by_label at first
      split at first
      · rename_i entries
        split at first
        · rename_i label key
          cases first
          obtain ⟨rows,rfl,labels,rfl⟩ := ih later
          exact ⟨(label,entries) :: rows,rfl,List.forall_mem_cons.mpr ⟨key,labels⟩,rfl⟩
        · cases first
      · cases first

theorem bind_param_ok {ref : String} {inputs : List String} {known after : Params} {binding : Value}
    (done : bind_param codec ref inputs known binding = .ok after) :
    ∃ label input param, wired inputs binding = some (label,input) ∧ known.get? label = some param ∧
      after = known.set label (Parser.put "node" (.str input) param) := by
  unfold bind_param at done
  split at done
  · rename_i entries
    split at done
    · cases done
    · rename_i label key
      split at done
      · obtain ⟨_,_,failed⟩ := bind_ok done
        cases failed
      · rename_i param found
        split at done
        · cases done
        · rename_i input slot
          cases done
          refine ⟨label,input,param,?_,found,rfl⟩
          unfold wired
          rw [show label_key (.dict entries) = some label from key,Option.bind_some]
          rw [show slot_input inputs ((field "input" (.dict entries)).getD .none) = some input from slot]
          rfl
  · cases done

-- The input that a binding gives to a label.
def wired_to (inputs : List String) (label binding : Value) : Option String :=
  (wired inputs binding).bind fun wire => if wire.1 = label then some wire.2 else none

-- Of several bindings of a label the last one stands.
def rebind (inputs : List String) (bindings : List Value) (label : Value) (param : Spec) : Spec :=
  match (bindings.filterMap (wired_to inputs label)).getLast? with
  | some input => Parser.put "node" (.str input) param
  | none => param

theorem rebind_cons (inputs : List String) (binding : Value) (bindings : List Value) {label : Value} {input : String}
    (wire : wired inputs binding = some (label,input)) (x : Value) (param : Spec) :
    rebind inputs (binding :: bindings) x param =
      rebind inputs bindings x (if x = label then Parser.put "node" (.str input) param else param) := by
  unfold rebind
  by_cases same : x = label
  · subst same
    have here : wired_to inputs x binding = some input := by simp [wired_to,wire]
    rw [List.filterMap_cons_some here,if_pos rfl,List.getLast?_cons]
    cases (bindings.filterMap (wired_to inputs x)).getLast? with
    | none => rfl
    | some last => exact (Parser.put_put "node" _ _ param).symm
  · have away : wired_to inputs x binding = none := by simp [wired_to,wire,Ne.symm same]
    rw [List.filterMap_cons_none away,if_neg same]

theorem bind_params {ref : String} {inputs : List String} {bindings : List Value} {known after : Params}
    (done : bindings.foldlM (bind_param codec ref inputs) known = .ok after) :
    after = known.mapValues (rebind inputs bindings) ∧
      ∀ binding ∈ bindings, ∃ label input, wired inputs binding = some (label,input) ∧ label ∈ known.keys := by
  induction bindings generalizing known with
  | nil =>
      cases done
      refine ⟨?_,fun _ member => absurd member List.not_mem_nil⟩
      apply Dict.ext
      rw [Dict.entries_mapValues]
      exact (List.map_id _).symm
  | cons binding rest ih =>
      rw [List.foldlM_cons] at done
      obtain ⟨next,first,later⟩ := bind_ok done
      obtain ⟨label,input,param,wire,found,rfl⟩ := bind_param_ok first
      have present : label ∈ known.keys := Dict.mem_keys_iff.mpr ⟨param,found⟩
      obtain ⟨rfl,others⟩ := ih later
      constructor
      · rw [Dict.set_eq_mapValues found]
        apply Dict.ext
        rw [Dict.entries_mapValues,Dict.entries_mapValues,Dict.entries_mapValues,List.map_map]
        refine List.map_congr_left fun e member => ?_
        rw [Function.comp_apply,rebind_cons inputs binding rest wire]
        by_cases same : e.1 = label
        · have value : e.2 = param := by
            have here := Dict.get?_eq_some.mpr (show (e.1,e.2) ∈ known.entries from member)
            rw [same,found] at here
            exact (Option.some.inj here).symm
          rw [if_pos same,if_pos same,value]
        · rw [if_neg same,if_neg same]
      · refine List.forall_mem_cons.mpr ⟨⟨label,input,wire,present⟩,fun b member => ?_⟩
        obtain ⟨l,i,w,known⟩ := others b member
        rw [Dict.keys_set_of_mem present] at known
        exact ⟨l,i,w,known⟩

-- What the bindings leave of the params: the rows by label, with the bound nodes.
structure Applied (bindings : List Value) (inputs : List String) (data_spec data_spec' : Spec) (rows : List (Value × Spec)) : Prop where
  count : inputs.length = bindings.length
  params : Value.get? data_spec "params" = some (.list (rows.map fun row => .dict row.2))
  labels : ∀ row ∈ rows, hash_key (label_of row.2) = some row.1
  wired : ∀ binding ∈ bindings, ∃ label input, wired inputs binding = some (label,input) ∧ ∃ row ∈ rows, row.1 = label
  written : data_spec' = Parser.put "params" (.list ((((rows.foldl (fun d row => d.set row.1 row.2) Dict.empty).mapValues
    (rebind inputs bindings)).values).map .dict)) data_spec

theorem apply_declared {template : Config} {ref : String} {inputs : List String} {data_spec data_spec' : Spec} {bindings : List Value}
    (found : declared template = some (data_spec,bindings))
    (done : apply_param_bindings codec template ref inputs = .ok data_spec') :
    ∃ rows, Applied bindings inputs data_spec data_spec' rows := by
  unfold declared at found
  split at found
  · rename_i spec mapping
    split at found
    · rename_i declared_bindings list
      cases found
      unfold apply_param_bindings at done
      rw [mapping] at done
      dsimp only at done
      rw [list] at done
      dsimp only at done
      split at done
      · cases done
      · rename_i count
        split at done
        · rename_i params given
          obtain ⟨known,labelled,done⟩ := bind_ok done
          obtain ⟨bound,wires,done⟩ := bind_ok done
          cases done
          obtain ⟨rows,rfl,labels,rfl⟩ := by_labels labelled
          obtain ⟨rfl,reached⟩ := bind_params wires
          refine ⟨rows,not_not.mp count,given,labels,fun binding member => ?_,rfl⟩
          obtain ⟨label,input,wire,present⟩ := reached binding member
          rcases (Dict.mem_keys_foldl_set Prod.fst Prod.snd rows Dict.empty).mp present with old | ⟨row,inside,same⟩
          · exact absurd old (by simp)
          · exact ⟨label,input,wire,row,inside,same⟩
        · cases done
    · cases found
  · cases found

theorem apply_plain {template : Config} {ref : String} {inputs : List String} {data_spec : Spec} (none : declared template = none)
    (mapping : template.get? "data_spec" = some (.dict data_spec)) :
    apply_param_bindings codec template ref inputs = .ok data_spec := by
  unfold declared at none
  unfold apply_param_bindings
  rw [mapping] at none ⊢
  dsimp only at none ⊢
  cases bindings : Value.get? data_spec "param_bindings" with
  | none => rfl
  | some value =>
      rw [bindings] at none
      cases value with
      | list _ => cases none
      | _ => rfl

section
variable {bindings : List Value} {inputs : List String} {data_spec data_spec' : Spec} {rows : List (Value × Spec)}

theorem Applied.distinct_iff (applied : Applied bindings inputs data_spec data_spec' rows) :
    ((list_items (Value.get? data_spec "params")).map label_key).Nodup ↔ (rows.map Prod.fst).Nodup := by
  have labels : (list_items (Value.get? data_spec "params")).map label_key = (rows.map Prod.fst).map some := by
    rw [applied.params,list_items,List.map_map,List.map_map]
    exact List.map_congr_left fun row member => applied.labels row member
  rw [labels]
  exact List.nodup_map_iff fun _ _ => Option.some.inj

theorem label_rebind (label : Value) (param : Spec) : label_of (rebind inputs bindings label param) = label_of param := by
  unfold rebind
  split
  · exact congrArg (Option.getD · Value.none) (Parser.get_put_ne (by decide) _ _)
  · rfl

theorem get_rebind {key : String} (label : Value) (param : Spec) (other : key ≠ "node") :
    Value.get? (rebind inputs bindings label param) key = Value.get? param key := by
  unfold rebind
  split
  · exact Parser.get_put_ne other _ _
  · rfl

theorem wired_label {binding label : Value} {input : String} (wire : wired inputs binding = some (label,input)) :
    label_key binding = some label := by
  unfold wired at wire
  obtain ⟨key,named,slot⟩ := Option.bind_eq_some_iff.mp wire
  obtain ⟨_,_,pair⟩ := Option.map_eq_some_iff.mp slot
  cases pair
  exact named

-- A param keeps everything that no binding names.
theorem rebind_kept (label : Value) (param : Spec) (key : hash_key (label_of param) = some label) :
    kept_param bindings (.dict param) (.dict (rebind inputs bindings label param)) := by
  refine ⟨rfl,fun same => (by cases same),fun name free => ?_⟩
  by_cases node : name = "node"
  · subst node
    have unnamed := free.resolve_left (by simp)
    have away : bindings.filterMap (wired_to inputs label) = [] := by
      rw [List.filterMap_eq_nil_iff]
      intro binding member
      by_contra reached
      obtain ⟨input,some_input⟩ := Option.ne_none_iff_exists'.mp reached
      obtain ⟨wire,held,same⟩ := Option.bind_eq_some_iff.mp some_input
      split at same
      · rename_i own
        refine unnamed ⟨binding,member,?_⟩
        rw [wired_label held,own]
        exact key.symm
      · cases same
    have whole : rebind inputs bindings label param = param := by
      unfold rebind
      rw [away]
      rfl
    rw [whole]
  · exact get_rebind label param node

-- With bindings that agree, each of a label has its way.
theorem rebind_bound (agrees : agree bindings inputs) {binding label : Value} {input : String} (member : binding ∈ bindings)
    (wire : wired inputs binding = some (label,input)) (param : Spec) :
    Value.get? (rebind inputs bindings label param) "node" = some (.str input) := by
  have here : wired_to inputs label binding = some input := by simp [wired_to,wire]
  have given : input ∈ bindings.filterMap (wired_to inputs label) := List.mem_filterMap.mpr ⟨binding,member,here⟩
  unfold rebind
  cases last : (bindings.filterMap (wired_to inputs label)).getLast? with
  | none =>
      rw [List.getLast?_eq_none_iff.mp last] at given
      cases given
  | some value =>
      obtain ⟨other,inside,reached⟩ := List.mem_filterMap.mp (List.mem_of_getLast? last)
      obtain ⟨⟨name,value'⟩,held,same⟩ := Option.bind_eq_some_iff.mp reached
      split at same
      · rename_i own
        cases same
        dsimp only at own
        subst own
        rw [agrees binding member other inside name input value' wire held]
        exact Parser.get_put_self _ _ _
      · cases same

theorem agree_of_bound {params' : List Value} (bound : ∀ binding ∈ bindings, bound_in inputs params' binding) :
    agree bindings inputs := by
  intro binding member other member' label input input' wire wire'
  obtain ⟨name,value,held,⟨param,inside,named⟩,nodes⟩ := bound binding member
  obtain ⟨name',value',held',_,nodes'⟩ := bound other member'
  cases held.symm.trans wire
  cases held'.symm.trans wire'
  have first := nodes param inside named
  rw [nodes' param inside named] at first
  cases first
  rfl

theorem Applied.bound_iff (applied : Applied bindings inputs data_spec data_spec' rows) :
    BoundSpec bindings inputs data_spec data_spec' ↔ (rows.map Prod.fst).Nodup ∧ agree bindings inputs := by
  have after : Value.get? data_spec' "params" = some (.list ((((rows.foldl (fun d row => d.set row.1 row.2) Dict.empty).mapValues
      (rebind inputs bindings)).values).map .dict)) := by
    rw [applied.written]
    exact Parser.get_put_self _ _ _
  constructor
  · intro spec
    constructor
    · have kept := spec.kept
      rw [applied.params,after] at kept
      have lengths := List.Forall₂.length_eq kept
      rw [List.length_map,List.length_map,Dict.values,List.length_map,Dict.entries_mapValues,List.length_map] at lengths
      exact Dict.nodup_of_all_written Prod.fst Prod.snd lengths.symm
    · exact agree_of_bound spec.bound
  · rintro ⟨distinct,agrees⟩
    have entries : (rows.foldl (fun d row => d.set row.1 row.2) Dict.empty).entries = rows :=
      (Dict.entries_foldl_set Prod.fst Prod.snd Dict.empty (by simpa using distinct)).trans (by simp)
    have params' : ((((rows.foldl (fun d row => d.set row.1 row.2) Dict.empty).mapValues (rebind inputs bindings)).values).map
        Value.dict) = rows.map fun row => .dict (rebind inputs bindings row.1 row.2) := by
      rw [Dict.values,Dict.entries_mapValues,entries,List.map_map,List.map_map]
      rfl
    rw [params'] at after
    refine ⟨fun key other => ?_,applied.count,?_,fun binding member => ?_⟩
    · rw [applied.written]
      exact Parser.get_put_ne other _ _
    · rw [applied.params,after]
      refine List.forall₂_map_left_iff.mpr (List.forall₂_map_right_iff.mpr (List.forall₂_same.mpr fun row member => ?_))
      exact rebind_kept row.1 row.2 (applied.labels row member)
    · obtain ⟨label,input,wire,row,inside,same⟩ := applied.wired binding member
      have named : ∀ row ∈ rows, label_key (.dict (rebind inputs bindings row.1 row.2)) = some row.1 := by
        intro row member
        exact (congrArg hash_key (label_rebind row.1 row.2)).trans (applied.labels row member)
      rw [after]
      refine ⟨label,input,wire,⟨_,List.mem_map_of_mem inside,(named row inside).trans (congrArg some same)⟩,?_⟩
      intro param listed own
      obtain ⟨r,member',rfl⟩ := List.mem_map.mp listed
      rw [named r member'] at own
      cases own
      exact rebind_bound agrees member wire r.2

end

theorem declared_mapping {template : Config} {data_spec : Spec} {bindings : List Value}
    (found : declared template = some (data_spec,bindings)) : template.get? "data_spec" = some (.dict data_spec) := by
  unfold declared at found
  split at found
  · rename_i mapping
    split at found
    · cases found
      exact mapping
    · cases found
  · cases found

theorem mapping_of {template : Config} (mapping : has_data_spec template = true) :
    ∃ data_spec, template.get? "data_spec" = some (.dict data_spec) := by
  unfold has_data_spec at mapping
  cases held : template.get? "data_spec" with
  | none => simp [held] at mapping
  | some value =>
      cases value with
      | dict entries => exact ⟨entries,rfl⟩
      | _ => simp [held,Value.is_mapping] at mapping

section
variable {library : Dict String Config} {template op merged : Config} {ref : String}

-- An accepted operation has inputs that are texts.
theorem given_inputs (done : op.entries.foldlM (override codec template ref op) template = .ok merged) {value : Value}
    (given : op.get? "inputs" = some value) : Parser.texts? value = some (inputs_of op) := by
  have passed := (foldlM_accepts (override_accepts template op ref) op.entries template).mp ⟨merged,done⟩
    ("inputs",value) (Dict.get?_eq_some.mp given)
  obtain ⟨inputs,texts,_⟩ := passed.2 rfl
  unfold inputs_of
  rw [given,Option.bind_some,texts]
  rfl

-- The operation is what its template makes of it exactly when its bindings are in order.
theorem from_template_iff (done : op.entries.foldlM (override codec template ref op) template = .ok merged) :
    FromTemplate template op merged ↔
      (∀ data_spec bindings, declared template = some (data_spec,bindings) → bindings ≠ [] → "inputs" ∈ op.keys) ∧
      (∀ data_spec bindings, declared template = some (data_spec,bindings) → agree bindings (inputs_of op)) ∧
      (∀ data_spec bindings, declared template = some (data_spec,bindings) → "inputs" ∈ op.keys →
        ((list_items (Value.get? data_spec "params")).map label_key).Nodup) := by
  have spec := override_all op.entries op.distinct done
  have reads : ∀ key, Value.get? op.entries key = op.get? key := fun _ => rfl
  -- What the operation with inputs has done to a template that declares bindings.
  have applied : ∀ data_spec bindings, declared template = some (data_spec,bindings) → "inputs" ∈ op.keys →
      ∃ data_spec' rows, merged.get? "data_spec" = some (.dict data_spec') ∧
        Applied bindings (inputs_of op) data_spec data_spec' rows := by
    intro data_spec bindings found present
    obtain ⟨value,given⟩ := Dict.mem_keys_iff.mp present
    have mapping : has_data_spec template = true := by
      unfold has_data_spec
      rw [declared_mapping found]
      rfl
    obtain ⟨data_spec',ran,written⟩ := spec.data_spec (inputs_of op) (by rw [reads,given]; exact given_inputs done given) mapping
    obtain ⟨rows,rowwise⟩ := apply_declared found ran
    exact ⟨data_spec',rows,written,rowwise⟩
  constructor
  · intro whole
    refine ⟨fun data_spec bindings found some_binding => ?_,fun data_spec bindings found => ?_,
      fun data_spec bindings found present => ?_⟩
    · by_contra absent
      obtain ⟨_,_,bound⟩ := whole.bindings data_spec bindings found
      have empty : inputs_of op = [] := by
        unfold inputs_of
        rw [Dict.get?_eq_none.mpr absent]
        rfl
      have count := bound.count
      rw [empty] at count
      exact some_binding (List.length_eq_zero_iff.mp count.symm)
    · obtain ⟨_,_,bound⟩ := whole.bindings data_spec bindings found
      exact agree_of_bound bound.bound
    · obtain ⟨data_spec',written,bound⟩ := whole.bindings data_spec bindings found
      obtain ⟨again,rows,written',rowwise⟩ := applied data_spec bindings found present
      cases written.symm.trans written'
      exact rowwise.distinct_iff.mpr (rowwise.bound_iff.mp bound).1
  · rintro ⟨given,agrees,distinct⟩
    refine ⟨spec.others,spec.id,spec.inputs,fun none => ?_,fun data_spec bindings found => ?_⟩
    · by_cases plain : has_data_spec template = false
      · exact spec.untouched (.inr plain)
      · obtain ⟨data_spec,mapping⟩ := mapping_of (by simpa using plain)
        cases held : op.get? "inputs" with
        | none => exact spec.untouched (.inl held)
        | some value =>
            obtain ⟨data_spec',ran,written⟩ := spec.data_spec (inputs_of op)
              (by rw [reads,held]; exact given_inputs done held) (by simpa using plain)
            rw [apply_plain none mapping] at ran
            cases ran
            rw [written,mapping]
    · by_cases present : "inputs" ∈ op.keys
      · obtain ⟨data_spec',rows,written,rowwise⟩ := applied data_spec bindings found present
        exact ⟨data_spec',written,rowwise.bound_iff.mpr
          ⟨rowwise.distinct_iff.mp (distinct data_spec bindings found present),agrees data_spec bindings found⟩⟩
      · have empty : bindings = [] := by
          by_contra some_binding
          exact present (given data_spec bindings found some_binding)
        have absent := Dict.get?_eq_none.mpr present
        have none : inputs_of op = [] := by
          unfold inputs_of
          rw [absent]
          rfl
        subst empty
        refine ⟨data_spec,(spec.untouched (.inl absent)).trans (declared_mapping found),fun _ _ => rfl,by rw [none]; rfl,?_,
          fun _ member => absurd member List.not_mem_nil⟩
        unfold kept_params
        split
        · rename_i params params' before after
          cases before.symm.trans after
          exact List.forall₂_same.mpr fun param _ => ⟨rfl,fun _ => rfl,fun _ _ => rfl⟩
        · rfl

end

end

end Lumilake.Dynamic

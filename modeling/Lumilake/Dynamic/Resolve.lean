import Lumilake.Dynamic.ForwardRefs
import Lumilake.Parser.Common

namespace Lumilake.Dynamic
open Fallible

abbrev Config := Dict String Value

def SUPPORTED_OPS : List String :=
  ["DataOp","DataRetrievalOp","MessageOp","LLMChatOp","LLMVisionOp","ImageGenerationOp","EmbeddingOp","FormatOp","LambdaOp"]

def sorted_texts (texts : List String) : Value := .list ((texts.mergeSort fun a b => decide (a ≤ b)).map .str)

def supported (template : Config) : Bool :=
  match template.get? "op" with
  | some (.str op_type) => SUPPORTED_OPS.contains op_type
  | _ => false

section
variable (codec : Codec)

def validate_template (entry : String × Config) : Except String Unit :=
  if supported entry.2 then .ok ()
  else .error ("library entry " ++ codec.repr (.str entry.1) ++ " has unsupported op type " ++
    codec.repr ((entry.2.get? "op").getD .none) ++ "; supported: " ++ codec.repr (sorted_texts SUPPORTED_OPS))

-- A library that is not given and one without entries are the same.
def validate_library (library : Dict String Config) : Except String Unit := library.entries.forM (validate_template codec)

-- What a mapping takes for one key: 1, 1.0 and True are the same, lists and mappings are none.
mutual
def hash_key : Value → Option Value
  | .bool b => some (.int (if b then 1 else 0))
  | .float q => some (if q.den = 1 then .int q.num else .float q)
  | .tuple items => (hash_keys items).map .tuple
  | .list _ => none
  | .dict _ => none
  | value => some value
def hash_keys : List Value → Option (List Value)
  | [] => some []
  | item :: items => (hash_key item).bind fun key => (hash_keys items).map (key :: ·)
end

abbrev Params := Dict Value Spec

def label_of (entries : Spec) : Value := Parser.get entries "label"

def unhashable (value : Value) : String := "TypeError: unhashable label " ++ codec.repr value

-- {param.get("label"): dict(param) for param in params}
def by_label (known : Params) (param : Value) : Except String Params :=
  match param with
  | .dict entries => match hash_key (label_of entries) with
      | some label => .ok (known.set label entries)
      | none => .error (unhashable codec (label_of entries))
  | value => .error ("AttributeError: get of " ++ codec.repr value)

-- inputs[slot] for an integer slot within the inputs
def slot_input (inputs : List String) : Value → Option String
  | .int i => if 0 ≤ i then inputs[i.toNat]? else none
  | .bool b => inputs[if b then 1 else 0]?
  | _ => none

-- `<` of two labels, where Python orders them.
mutual
def less : Value → Value → Option Bool
  | .str a,.str b => some (decide (a < b))
  | .int a,.int b => some (decide (a < b))
  | .int a,.float b => some (decide ((a : Rat) < b))
  | .float a,.int b => some (decide (a < (b : Rat)))
  | .float a,.float b => some (decide (a < b))
  | .tuple a,.tuple b => less_items a b
  | _,_ => none
def less_items : List Value → List Value → Option Bool
  | [],[] => some false
  | [],_ :: _ => some true
  | _ :: _,[] => some false
  | a :: as,b :: bs => if a = b then less_items as bs else less a b
end

def insert_label (label : Value) : List Value → Except String (List Value)
  | [] => .ok [label]
  | head :: rest => match less label head with
      | none => .error ("TypeError: '<' not supported between instances of '" ++ Ops.type_name label ++ "' and '" ++
          Ops.type_name head ++ "'")
      | some true => .ok (label :: head :: rest)
      | some false => (insert_label label rest).map (head :: ·)

-- `sorted(by_label)`
def sorted_labels (labels : List Value) : Except String (List Value) :=
  labels.foldlM (fun sorted label => insert_label label sorted) []

def bind_param (ref : String) (inputs : List String) (known : Params) (binding : Value) : Except String Params :=
  match binding with
  | .dict entries => match hash_key (label_of entries) with
      | none => .error (unhashable codec (label_of entries))
      | some label => match known.get? label with
          | none => do
              let params ← sorted_labels known.keys
              .error ("library entry " ++ codec.repr (.str ref) ++ " param_binding references unknown label " ++
                codec.repr (label_of entries) ++ "; params: " ++ codec.repr (.list params))
          | some param => match slot_input inputs (Parser.get entries "input") with
              | none => .error ("library entry " ++ codec.repr (.str ref) ++ " param_binding for " ++
                  codec.repr (label_of entries) ++ " has invalid input slot " ++ codec.repr (Parser.get entries "input"))
              | some input => .ok (known.set label (Parser.put "node" (.str input) param))
  | _ => .error ("library entry " ++ codec.repr (.str ref) ++ " param_bindings entries must be mappings")

def apply_param_bindings (template : Config) (ref : String) (inputs : List String) : Except String Spec :=
  match template.get? "data_spec" with
  | some (.dict data_spec) => match Value.get? data_spec "param_bindings" with
      | some (.list bindings) =>
          if inputs.length ≠ bindings.length then
            .error ("library entry " ++ codec.repr (.str ref) ++ " declares " ++ toString bindings.length ++
              " param binding(s) but got " ++ toString inputs.length ++ " input(s)")
          else match Value.get? data_spec "params" with
            | some (.list params) => do
                let known ← params.foldlM (by_label codec) Dict.empty
                let bound ← bindings.foldlM (bind_param codec ref inputs) known
                pure (Parser.put "params" (.list (bound.values.map .dict)) data_spec)
            | _ => .error ("library entry " ++ codec.repr (.str ref) ++ " has param_bindings but no params")
      | _ => .ok data_spec
  | _ => .error ("library entry " ++ codec.repr (.str ref) ++
      " is not a retrieval op; only retrieval ops declare param bindings")

def op_name (op : Config) : String := codec.repr ((op.get? "id").getD .none)

def has_data_spec (template : Config) : Bool := (template.get? "data_spec").any Value.is_mapping

-- One entry of the emitted operation, written into the copy of the template.
def override (template : Config) (ref : String) (op merged : Config) (entry : String × Value) : Except String Config :=
  if entry.1 = "ref" ∨ entry.1 = "op" then .ok merged
  else if entry.1 = "inputs" then
    match Parser.texts? entry.2 with
    | none => .error ("subgraph op " ++ op_name codec op ++ " inputs must be a list of node ids")
    | some inputs =>
        if has_data_spec template then do
          let data_spec ← apply_param_bindings codec template ref inputs
          pure ((merged.set "inputs" entry.2).set "data_spec" (.dict data_spec))
        else .ok (merged.set "inputs" entry.2)
  else if entry.1 = "id" then .ok (merged.set "id" entry.2)
  else .error ("subgraph op " ++ op_name codec op ++ " may not override " ++ codec.repr (.str entry.1) ++
    " when referencing library entry " ++ codec.repr (.str ref) ++ "; only id and inputs may vary")

def declares_other (template op : Config) : Bool :=
  match op.get? "op" with
  | none => false
  | some .none => false
  | some declared_op => decide (template.get? "op" ≠ some declared_op)

def resolve_op (library : Dict String Config) (op : Config) : Except String Config :=
  match op.get? "ref" with
  | none => .ok op
  | some (.str ref) => match library.get? ref with
      | none => .error ("subgraph op " ++ op_name codec op ++ " references unknown library entry " ++ codec.repr (.str ref))
      | some template =>
          if declares_other template op then
            .error ("subgraph op " ++ op_name codec op ++ " declares op " ++ codec.repr ((op.get? "op").getD .none) ++
              " but library entry " ++ codec.repr (.str ref) ++ " is " ++ codec.repr ((template.get? "op").getD .none))
          else op.entries.foldlM (override codec template ref op) template
  | some _ => .error ("subgraph op " ++ op_name codec op ++ " 'ref' must be a string")

def resolve_subgraph (subgraph : List Config) (library : Dict String Config) : Except String (List Config) :=
  subgraph.mapM (resolve_op codec library)

end

section
variable {codec : Codec}

theorem override_ok {template op merged after : Config} {ref : String} {entry : String × Value}
    (done : override codec template ref op merged entry = .ok after) :
    ((entry.1 = "ref" ∨ entry.1 = "op") ∧ after = merged) ∨ (entry.1 = "id" ∧ after = merged.set "id" entry.2) ∨
      (entry.1 = "inputs" ∧ ∃ inputs, Parser.texts? entry.2 = some inputs ∧
        ((has_data_spec template = false ∧ after = merged.set "inputs" entry.2) ∨
          (has_data_spec template = true ∧ ∃ data_spec, apply_param_bindings codec template ref inputs = .ok data_spec ∧
            after = (merged.set "inputs" entry.2).set "data_spec" (.dict data_spec)))) := by
  unfold override at done
  split at done
  · rename_i skipped
    cases done
    exact .inl ⟨skipped,rfl⟩
  · split at done
    · rename_i inputs_key
      refine .inr (.inr ⟨inputs_key,?_⟩)
      split at done
      · cases done
      · rename_i inputs texts
        refine ⟨inputs,texts,?_⟩
        split at done
        · rename_i mapping
          obtain ⟨data_spec,applied,last⟩ := bind_ok done
          cases last
          exact .inr ⟨mapping,data_spec,applied,rfl⟩
        · rename_i plain
          cases done
          exact .inl ⟨by simpa using plain,rfl⟩
    · split at done
      · rename_i id_key
        cases done
        exact .inr (.inl ⟨id_key,rfl⟩)
      · cases done

-- What an entry must be for the loop to pass it.
def passes (codec : Codec) (template : Config) (ref : String) (entry : String × Value) : Prop :=
  entry.1 ∈ ["ref","op","id","inputs"] ∧ (entry.1 = "inputs" → ∃ inputs, Parser.texts? entry.2 = some inputs ∧
    (has_data_spec template = true → ∃ data_spec, apply_param_bindings codec template ref inputs = .ok data_spec))

theorem override_accepts (template op : Config) (ref : String) (merged : Config) (entry : String × Value) :
    (∃ after, override codec template ref op merged entry = .ok after) ↔ passes codec template ref entry := by
  constructor
  · rintro ⟨after,done⟩
    rcases override_ok done with ⟨skipped,_⟩ | ⟨id_key,_⟩ | ⟨inputs_key,inputs,texts,written⟩
    · refine ⟨by rcases skipped with h | h <;> rw [h] <;> decide,fun same => ?_⟩
      rcases skipped with h | h <;> rw [h] at same <;> exact absurd same (by decide)
    · refine ⟨by rw [id_key]; decide,fun same => ?_⟩
      rw [id_key] at same
      exact absurd same (by decide)
    · refine ⟨by rw [inputs_key]; decide,fun _ => ⟨inputs,texts,fun mapping => ?_⟩⟩
      rcases written with ⟨plain,_⟩ | ⟨_,data_spec,applied,_⟩
      · rw [mapping] at plain
        cases plain
      · exact ⟨data_spec,applied⟩
  · rintro ⟨allowed,wired⟩
    unfold override
    split
    · exact ⟨_,rfl⟩
    · rename_i other
      split
      · rename_i inputs_key
        obtain ⟨inputs,texts,applies⟩ := wired inputs_key
        rw [texts]
        dsimp only
        split
        · rename_i mapping
          obtain ⟨data_spec,applied⟩ := applies mapping
          rw [applied]
          exact ⟨_,rfl⟩
        · exact ⟨_,rfl⟩
      · rename_i no_inputs
        have id_key : entry.1 = "id" := by
          simp only [List.mem_cons,List.not_mem_nil,or_false] at allowed
          tauto
        rw [if_pos id_key]
        exact ⟨_,rfl⟩

-- What the loop over the entries of the operation leaves under each key.
structure Overridden (codec : Codec) (template : Config) (ref : String) (entries : Spec) (before after : Config) : Prop where
  others : ∀ key, key ∉ ["id","inputs","data_spec"] → after.get? key = before.get? key
  id : after.get? "id" = (Value.get? entries "id").or (before.get? "id")
  inputs : after.get? "inputs" = (Value.get? entries "inputs").or (before.get? "inputs")
  data_spec : ∀ inputs, (Value.get? entries "inputs").bind Parser.texts? = some inputs → has_data_spec template = true →
    ∃ data_spec, apply_param_bindings codec template ref inputs = .ok data_spec ∧ after.get? "data_spec" = some (.dict data_spec)
  untouched : (Value.get? entries "inputs" = none ∨ has_data_spec template = false) →
    after.get? "data_spec" = before.get? "data_spec"

theorem override_all {template op : Config} {ref : String} (entries : Spec) {before after : Config}
    (distinct : (entries.map Prod.fst).Nodup) (done : entries.foldlM (override codec template ref op) before = .ok after) :
    Overridden codec template ref entries before after := by
  induction entries generalizing before with
  | nil =>
      cases done
      exact ⟨fun _ _ => rfl,rfl,rfl,fun _ none => (nomatch none),fun _ => rfl⟩
  | cons entry rest ih =>
      obtain ⟨key,value⟩ := entry
      obtain ⟨fresh,others⟩ := List.nodup_cons.mp distinct
      rw [List.foldlM_cons] at done
      obtain ⟨next,first,later⟩ := bind_ok done
      have tail := ih others later
      have absent : ∀ name, key = name → Value.get? rest name = none := fun name same =>
        List.lookup_eq_none_iff.mpr fun e member => by
          rw [bne_iff_ne]
          exact fun again => fresh (List.mem_map.mpr ⟨e,member,again.symm.trans same.symm⟩)
      have beyond : ∀ name, key ≠ name → Value.get? ((key,value) :: rest) name = Value.get? rest name := by
        intro name other
        unfold Value.get?
        rw [List.lookup_cons,beq_false_of_ne (Ne.symm other)]
      have here : Value.get? ((key,value) :: rest) key = some value := by
        unfold Value.get?
        simp
      rcases override_ok first with ⟨skipped,rfl⟩ | ⟨rfl,rfl⟩ | ⟨rfl,inputs,texts,written⟩
      · dsimp only at skipped
        have not_id : key ≠ "id" := by rcases skipped with h | h <;> rw [h] <;> decide
        have not_inputs : key ≠ "inputs" := by rcases skipped with h | h <;> rw [h] <;> decide
        refine ⟨tail.others,?_,?_,?_,?_⟩
        · rw [beyond _ not_id]
          exact tail.id
        · rw [beyond _ not_inputs]
          exact tail.inputs
        · rw [beyond _ not_inputs]
          exact tail.data_spec
        · rw [beyond _ not_inputs]
          exact tail.untouched
      · refine ⟨fun name away => ?_,?_,?_,?_,?_⟩
        · have other : name ≠ "id" := fun same => away (by simp [same])
          rw [tail.others name away,Dict.get?_set_ne _ _ other]
        · rw [tail.id,absent "id" rfl,here,Option.none_or,Dict.get?_set_self,Option.some_or]
        · rw [beyond _ (by decide),tail.inputs,Dict.get?_set_ne _ _ (by decide)]
        · rw [beyond _ (by decide)]
          exact tail.data_spec
        · intro plain
          rw [beyond _ (by decide)] at plain
          rw [tail.untouched plain,Dict.get?_set_ne _ _ (by decide)]
      · have spent := absent "inputs" rfl
        have through := tail.untouched (.inl spent)
        rcases written with ⟨plain,rfl⟩ | ⟨mapping,data_spec,applied,rfl⟩
        · refine ⟨fun name away => ?_,?_,?_,?_,?_⟩
          · have other : name ≠ "inputs" := fun same => away (by simp [same])
            rw [tail.others name away,Dict.get?_set_ne _ _ other]
          · rw [beyond _ (by decide),tail.id,Dict.get?_set_ne _ _ (by decide)]
          · rw [tail.inputs,spent,here,Option.none_or,Dict.get?_set_self,Option.some_or]
          · intro _ _ mapping
            rw [plain] at mapping
            cases mapping
          · intro _
            rw [through,Dict.get?_set_ne _ _ (by decide)]
        · refine ⟨fun name away => ?_,?_,?_,?_,?_⟩
          · have other : name ≠ "inputs" := fun same => away (by simp [same])
            have other' : name ≠ "data_spec" := fun same => away (by simp [same])
            rw [tail.others name away,Dict.get?_set_ne _ _ other',Dict.get?_set_ne _ _ other]
          · rw [beyond _ (by decide),tail.id,Dict.get?_set_ne _ _ (by decide),Dict.get?_set_ne _ _ (by decide)]
          · rw [tail.inputs,spent,here,Option.none_or,Dict.get?_set_ne _ _ (by decide),Dict.get?_set_self,Option.some_or]
          · intro given found _
            rw [here,Option.bind_some,texts] at found
            cases found
            exact ⟨data_spec,applied,by rw [through,Dict.get?_set_self]⟩
          · rintro (none | plain)
            · rw [here] at none
              cases none
            · rw [mapping] at plain
              cases plain

end

end Lumilake.Dynamic

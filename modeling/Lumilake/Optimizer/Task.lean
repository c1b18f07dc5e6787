import Lumilake.Optimizer.Base
import Mathlib.Data.Set.Basic

namespace Lumilake.Optimizer
open Placeholder

-- What an operation asks for, apart from the names it is written with: a label counts
-- only by its number, and a node only by the value it gives. V is the type of these values.
inductive Mark (V : Type) where
  | char (c : Char)
  | slot (label : Nat)
  | ref (value : V) (path : List Char)
  deriving DecidableEq

inductive Config (V : Type) where
  | none
  | bool (b : Bool)
  | int (i : Int)
  | float (q : Rat)
  | text (marks : List (Mark V))
  | column (label : Nat)
  | input (value : V)
  | list (items : List (Config V))
  | dict (entries : List (String × Config V))

-- Where in the spec of its data an operation speaks of its columns. Only there a text is the
-- name of a column, or a template in which {label} stands for one; everything else (literal rows,
-- the source of a function, the specs of the model and of the request) is plain text.
inductive Place where
  | plain
  | spec
  | options
  | format
  | message
  | turn
  | entry
  | argument
  | template
  | content
  | name
  deriving DecidableEq

-- Columns, parameters and the parts of a plan carry labels, and so do the steps of a format
-- template with their arguments; a row-wise message is a template, a message of a format
-- template is the name of a column or step or else a template.
def Place.under (place : Place) (key : String) : Place :=
  match place with
  | .spec | .template =>
      if key ∈ ["columns","params","plan"] then .entry
      else if key ∈ ["template","description"] then .template
      else if key = "messages" then .message
      else if key = "options" then .options
      else .plain
  | .options => if key = "format" then .format else .plain
  | .format => if key = "steps" then .entry else if key = "messages" then .turn else .plain
  | .entry =>
      if key = "data" then .spec
      else if key = "template" then .template
      else if key = "arguments" then .argument
      else .plain
  | .argument => if key = "value" then .name else if key = "content" then .content else .plain
  | .message => if key = "content" then .template else .plain
  | .turn => if key = "content" then .content else .plain
  | _ => .plain

def Place.labelled (place : Place) : Bool := place == .entry || place == .argument

variable {V W : Type}

def mark (env : String → Option V) : Piece → List (Mark V)
  | .char c => [.char c]
  | .ref name path =>
      match env (String.ofList name) with
      | some value => [.ref value path]
      | none => (Piece.text (.ref name path)).map .char

def marks (env : String → Option V) (text : String) : List (Mark V) := (scan text.toList).flatMap (mark env)

def Mark.is (c : Char) : Mark V → Bool
  | .char d => c == d
  | _ => false

def starts_with (c : Char) : List (Mark V) → Bool
  | m :: _ => m.is c
  | [] => false

-- The text before the next closing brace.
def field : List (Mark V) → Option (List Char)
  | .char c :: rest =>
      if c = '}' then some []
      else if c = '{' then none
      else (field rest).map (c :: ·)
  | _ => none

-- A format string: two braces are one brace of the text, and {label} is a label. The marks
-- that a placeholder or an escape covers are skipped.
def slots_from (labels : List String) : Nat → List (Mark V) → List (Mark V)
  | _,[] => []
  | skip + 1,_ :: rest => slots_from labels skip rest
  | 0,m :: rest =>
      if m.is '{' then
        if starts_with '{' rest then m :: m :: slots_from labels 1 rest
        else
          match (field rest).filter fun name => String.ofList name ∈ labels with
          | some name => .slot (labels.idxOf (String.ofList name)) :: slots_from labels (name.length + 1) rest
          | none => m :: slots_from labels 0 rest
      else if m.is '}' && starts_with '}' rest then m :: m :: slots_from labels 1 rest
      else m :: slots_from labels 0 rest

def write_text (labels : List String) (env : String → Option V) (place : Place) (text : String) : Config V :=
  match place with
  | .template => .text (slots_from labels 0 (marks env text))
  | .content =>
      if text ∈ labels then .column (labels.idxOf text)
      else .text (slots_from labels 0 (marks env text))
  | .name | .argument =>
      if text ∈ labels then .column (labels.idxOf text)
      else .text (marks env text)
  | _ => .text (marks env text)

-- No reference in the text names a node.
def node_free (env : String → Option V) (text : String) : Bool :=
  (scan text.toList).all fun
    | .char _ => true
    | .ref name _ => (env (String.ofList name)).isNone

def write_entry (labels : List String) (env : String → Option V) (place : Place) (key text : String) : Config V :=
  if key = "node" then
    match env text with
    | some value => .input value
    | none => write_text labels env (place.under key) text
  else if key = "label" ∧ text ∈ labels ∧ place.labelled then .column (labels.idxOf text)
  else write_text labels env (place.under key) text

mutual
def write (labels : List String) (env : String → Option V) (place : Place) : Value → Config V
  | .none => .none
  | .bool b => .bool b
  | .int i => .int i
  | .float q => .float q
  | .str s => write_text labels env place s
  | .list items => .list (write_items labels env place items)
  | .tuple items => .list (write_items labels env place items)
  | .dict entries => .dict (write_entries labels env place entries)
def write_items (labels : List String) (env : String → Option V) (place : Place) : List Value → List (Config V)
  | [] => []
  | item :: items => write labels env place item :: write_items labels env place items
def write_entries (labels : List String) (env : String → Option V) (place : Place) : Spec → List (String × Config V)
  | [] => []
  | (key,.str s) :: entries => (key,write_entry labels env place key s) :: write_entries labels env place entries
  | (key,item) :: entries => (key,write labels env (place.under key) item) :: write_entries labels env place entries
end

-- The labels in the order in which they first occur.
mutual
def labels_of (env : String → Option V) (place : Place) : Value → List String
  | .list items => labels_of_items env place items
  | .tuple items => labels_of_items env place items
  | .dict entries => labels_of_entries env place entries
  | _ => []
def labels_of_items (env : String → Option V) (place : Place) : List Value → List String
  | [] => []
  | item :: items => labels_of env place item ++ labels_of_items env place items
def labels_of_entries (env : String → Option V) (place : Place) : Spec → List String
  | [] => []
  | (key,.str s) :: entries =>
      (if key = "label" ∧ place.labelled ∧ node_free env s then [s] else []) ++ labels_of_entries env place entries
  | (key,item) :: entries => labels_of env (place.under key) item ++ labels_of_entries env place entries
end

-- The nodes a spec may name.
def text_refs (text : String) : List String :=
  (scan text.toList).filterMap fun
    | .char _ => none
    | .ref name _ => some (String.ofList name)

mutual
def refs : Value → List String
  | .str s => text_refs s
  | .list items => refs_items items
  | .tuple items => refs_items items
  | .dict entries => refs_entries entries
  | _ => []
def refs_items : List Value → List String
  | [] => []
  | item :: items => refs item ++ refs_items items
def refs_entries : Spec → List String
  | [] => []
  | (key,.str s) :: entries => (if key = "node" then [s] else []) ++ text_refs s ++ refs_entries entries
  | (_,item) :: entries => refs item ++ refs_entries entries
end

-- The specs of an operation in the form their comparison gives them.
def op_specs (op : RuntimeOp) : List Value :=
  [stable_json (.dict op.data_spec),stable_json (.dict op.model_spec),stable_json (.dict op.inference_spec),
    stable_json (.dict op.api_spec),(op.output_spec.map fun spec => stable_json (.dict spec)).getD .none]

def op_condition (op : RuntimeOp) : Value := (op.condition.map fun spec => stable_json (.dict spec)).getD .none

structure Written (V : Type) where
  task_type : String
  backend : String
  model : String
  specs : List (Config V)
  condition : Config V

-- The first of the specs is that of the data; labels of its columns mean nothing in the others.
def write_specs (env : String → Option V) : List Value → List (Config V)
  | [] => []
  | data :: others => write (labels_of env .spec data) env .spec data :: write_items [] env .plain others

def written (env : String → Option V) (op : RuntimeOp) : Written V where
  task_type := op.task_type
  backend := op.backend
  model := op.model
  specs := write_specs env (op_specs op)
  condition := write [] env .plain (op_condition op)

-- An interpretation of tasks is any function of this: the configuration and the values
-- of the nodes the operation depends on.
structure Task (V : Type) where
  written : Written V
  upstream : Set V

def task (env : String → Option V) (op : RuntimeOp) : Task V :=
  ⟨written env op,{ value | ∃ dep ∈ op.dependencies, env dep = some value }⟩

section Values
-- Reading other values under the same names.

def Mark.map (g : V → W) : Mark V → Mark W
  | .char c => .char c
  | .slot n => .slot n
  | .ref value path => .ref (g value) path

mutual
def Config.map (g : V → W) : Config V → Config W
  | .none => .none
  | .bool b => .bool b
  | .int i => .int i
  | .float q => .float q
  | .text marks => .text (marks.map (Mark.map g))
  | .column n => .column n
  | .input value => .input (g value)
  | .list items => .list (Config.map_items g items)
  | .dict entries => .dict (Config.map_entries g entries)
def Config.map_items (g : V → W) : List (Config V) → List (Config W)
  | [] => []
  | item :: items => Config.map g item :: Config.map_items g items
def Config.map_entries (g : V → W) : List (String × Config V) → List (String × Config W)
  | [] => []
  | (key,item) :: entries => (key,Config.map g item) :: Config.map_entries g entries
end

def Written.map (g : V → W) (w : Written V) : Written W :=
  ⟨w.task_type,w.backend,w.model,Config.map_items g w.specs,Config.map g w.condition⟩

variable {env : String → Option V} {env' : String → Option W} {g : V → W} {labels : List String}

theorem marks_map {text : String} (agree : ∀ x ∈ text_refs text, env' x = (env x).map g) :
    marks env' text = (marks env text).map (Mark.map g) := by
  unfold marks
  unfold text_refs at agree
  generalize scan text.toList = pieces at agree
  induction pieces with
  | nil => rfl
  | cons piece pieces ih =>
      rw [List.flatMap_cons,List.flatMap_cons,List.map_append]
      cases piece with
      | char c => rw [ih (by simpa using agree)]; rfl
      | ref name path =>
          have here : env' (String.ofList name) = (env (String.ofList name)).map g := agree _ (by simp)
          rw [ih fun x member => agree x (by simp at member ⊢; exact .inr member)]
          congr 1
          simp only [mark,here]
          cases env (String.ofList name) with
          | none => simp [List.map_map,Function.comp_def,Mark.map]
          | some value => rfl

theorem node_free_map {text : String} (agree : ∀ x ∈ text_refs text, env' x = (env x).map g) :
    node_free env' text = node_free env text := by
  unfold node_free
  unfold text_refs at agree
  rw [Bool.eq_iff_iff,List.all_eq_true,List.all_eq_true]
  apply forall₂_congr
  intro piece member
  cases piece with
  | char c => rfl
  | ref name path =>
      have here := agree (String.ofList name) (List.mem_filterMap.mpr ⟨_,member,rfl⟩)
      simp [here]

theorem is_map (c : Char) (m : Mark V) : (m.map g).is c = m.is c := by
  cases m <;> rfl

theorem starts_with_map (c : Char) (ms : List (Mark V)) : starts_with c (ms.map (Mark.map g)) = starts_with c ms := by
  cases ms with
  | nil => rfl
  | cons m ms => exact is_map c m

theorem field_map (ms : List (Mark V)) : field (ms.map (Mark.map g)) = field ms := by
  induction ms with
  | nil => rfl
  | cons m ms ih =>
      cases m with
      | char c => simp [Mark.map,field,ih]
      | slot n => rfl
      | ref value path => rfl

theorem slots_map (skip : Nat) (ms : List (Mark V)) :
    slots_from labels skip (ms.map (Mark.map g)) = (slots_from labels skip ms).map (Mark.map g) := by
  induction ms generalizing skip with
  | nil => cases skip <;> rfl
  | cons m ms ih =>
      cases skip with
      | succ skip => exact ih skip
      | zero =>
          rw [List.map_cons]
          unfold slots_from
          rw [is_map,is_map,starts_with_map,starts_with_map,field_map]
          by_cases opening : m.is '{' = true
          · rw [if_pos opening,if_pos opening]
            by_cases escaped : starts_with '{' ms = true
            · simp [escaped,ih]
            · rw [if_neg escaped,if_neg escaped]
              cases (field ms).filter fun name => String.ofList name ∈ labels with
              | none => simp [ih]
              | some name => simp [ih,Mark.map]
          · rw [if_neg opening,if_neg opening]
            split <;> simp [ih]

-- A placeholder is a label, escaped braces around the same name are text.
example : slots_from ["q"] 0 ((marks (fun _ => none) "\x7bq\x7d\x7b\x7bq\x7d\x7d") : List (Mark Nat)) =
    [.slot 0,.char '{',.char '{',.char 'q',.char '}',.char '}'] := by decide

theorem write_text_map {text : String} {place : Place} (agree : ∀ x ∈ text_refs text, env' x = (env x).map g) :
    write_text labels env' place text = (write_text labels env place text).map g := by
  have same := marks_map agree
  have plain : (Config.text (marks env' text) : Config W) = (Config.text (marks env text)).map g := by simp [Config.map,same]
  have slots : (Config.text (slots_from labels 0 (marks env' text)) : Config W) =
      (Config.text (slots_from labels 0 (marks env text))).map g := by simp [Config.map,same,slots_map]
  have named : ∀ here : Config W, ∀ there : Config V, here = there.map g →
      (if text ∈ labels then Config.column (labels.idxOf text) else here) =
        (if text ∈ labels then Config.column (labels.idxOf text) else there).map g := by
    intro here there equal
    split
    · rfl
    · exact equal
  cases place with
  | template => exact slots
  | content => exact named _ _ slots
  | name => exact named _ _ plain
  | argument => exact named _ _ plain
  | plain => exact plain
  | spec => exact plain
  | options => exact plain
  | format => exact plain
  | message => exact plain
  | turn => exact plain
  | entry => exact plain

theorem write_entry_map {key text : String} {place : Place}
    (agree : ∀ x ∈ (if key = "node" then [text] else []) ++ text_refs text, env' x = (env x).map g) :
    write_entry labels env' place key text = (write_entry labels env place key text).map g := by
  have inner : ∀ x ∈ text_refs text, env' x = (env x).map g := fun x member => agree x (List.mem_append_right _ member)
  unfold write_entry
  by_cases node : key = "node"
  · rw [if_pos node,if_pos node]
    have here := agree text (by simp [node])
    rw [here]
    cases env text with
    | none => exact write_text_map inner
    | some value => rfl
  · rw [if_neg node,if_neg node]
    split
    · rfl
    · exact write_text_map inner

mutual
theorem write_map (place : Place) : (value : Value) → (∀ x ∈ refs value, env' x = (env x).map g) →
    write labels env' place value = (write labels env place value).map g
  | .none,_ => rfl
  | .bool _,_ => rfl
  | .int _,_ => rfl
  | .float _,_ => rfl
  | .str s,agree => by simp only [write]; exact write_text_map agree
  | .list items,agree => by simp only [write,Config.map,write_items_map place items agree]
  | .tuple items,agree => by simp only [write,Config.map,write_items_map place items agree]
  | .dict entries,agree => by simp only [write,Config.map,write_entries_map place entries agree]
theorem write_items_map (place : Place) : (items : List Value) → (∀ x ∈ refs_items items, env' x = (env x).map g) →
    write_items labels env' place items = Config.map_items g (write_items labels env place items)
  | [],_ => rfl
  | item :: items,agree => by
    have first := write_map place item fun x member => agree x (List.mem_append_left _ member)
    have rest := write_items_map place items fun x member => agree x (List.mem_append_right _ member)
    simp only [write_items,Config.map_items,first,rest]
theorem write_entries_map (place : Place) : (entries : Spec) → (∀ x ∈ refs_entries entries, env' x = (env x).map g) →
    write_entries labels env' place entries = Config.map_entries g (write_entries labels env place entries)
  | [],_ => rfl
  | (key,item) :: entries,agree => by
    cases item with
    | str s =>
        have first : write_entry labels env' place key s = (write_entry labels env place key s).map g :=
          write_entry_map fun x member => agree x (List.mem_append_left _ member)
        have rest := write_entries_map place entries fun x member => agree x (List.mem_append_right _ member)
        simp only [write_entries,Config.map_entries,first,rest]
    | _ =>
        have first := write_map (place.under key) _ fun x member => agree x (List.mem_append_left _ member)
        have rest := write_entries_map place entries fun x member => agree x (List.mem_append_right _ member)
        simp only [write_entries,Config.map_entries,first,rest]
end

mutual
theorem labels_of_map (place : Place) : (value : Value) → (∀ x ∈ refs value, env' x = (env x).map g) →
    labels_of env' place value = labels_of env place value
  | .none,_ => rfl
  | .bool _,_ => rfl
  | .int _,_ => rfl
  | .float _,_ => rfl
  | .str _,_ => rfl
  | .list items,agree => labels_of_items_map place items agree
  | .tuple items,agree => labels_of_items_map place items agree
  | .dict entries,agree => labels_of_entries_map place entries agree
theorem labels_of_items_map (place : Place) : (items : List Value) → (∀ x ∈ refs_items items, env' x = (env x).map g) →
    labels_of_items env' place items = labels_of_items env place items
  | [],_ => rfl
  | item :: items,agree => by
    have first := labels_of_map place item fun x member => agree x (List.mem_append_left _ member)
    have rest := labels_of_items_map place items fun x member => agree x (List.mem_append_right _ member)
    simp only [labels_of_items,first,rest]
theorem labels_of_entries_map (place : Place) : (entries : Spec) → (∀ x ∈ refs_entries entries, env' x = (env x).map g) →
    labels_of_entries env' place entries = labels_of_entries env place entries
  | [],_ => rfl
  | (key,item) :: entries,agree => by
    cases item with
    | str s =>
        have inner : ∀ x ∈ text_refs s, env' x = (env x).map g := fun x member =>
          agree x (List.mem_append_left _ (List.mem_append_right _ member))
        have rest := labels_of_entries_map place entries fun x member => agree x (List.mem_append_right _ member)
        simp only [labels_of_entries,node_free_map inner,rest]
    | _ =>
        have first := labels_of_map (place.under key) _ fun x member => agree x (List.mem_append_left _ member)
        have rest := labels_of_entries_map place entries fun x member => agree x (List.mem_append_right _ member)
        simp only [labels_of_entries,first,rest]
end

end Values

end Lumilake.Optimizer

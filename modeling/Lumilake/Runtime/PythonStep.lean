import Lumilake.Library.Dict
import Lumilake.Library.Fallible
import Lumilake.RuntimeManager.OutputPath

namespace Lumilake.PythonStep

-- A column of a plan: values written into it, or the results of an upstream node.
inductive Source where
  | literal (values : List Value)
  | stage (node : String) (path : String) (flatten : Bool)

structure Entry where
  source : Source
  label : String
  grouped : Bool

-- The results.json of each node the step has as an input.
abbrev Stages := String → Option Value

section
variable (codec : Codec)

def missing (part at_path : String) : String := "missing " ++ codec.repr (.str part) ++ " at " ++ at_path

-- [column[k] for k in sorted(column, key=int)]
def sorted_column (column : Spec) : Except String (List Value) :=
  match column.mapM fun e => (codec.int e.1).map fun key => (key,e.2) with
  | some rows => .ok ((rows.mergeSort fun a b => decide (a.1 ≤ b.1)).map Prod.snd)
  | none => .error "ValueError: invalid literal for int()"

-- A serialized DataFrame and its text.
def dataframe : Value → Option String
  | .dict [(key,.str text)] => if key = "df" then some text else none
  | _ => none

def table_column (at_path text part : String) : Except String (List Value) :=
  match codec.loads text with
  | none => .error ("bad JSON at " ++ at_path)
  | some (.dict table) => match Value.get? table part with
      | some (.dict column) => sorted_column codec column
      | _ => .error (missing codec part at_path)
  | some _ => .error (missing codec part at_path)

def decoded (at_path : String) : Value → Except String Value
  | .str text => match codec.loads text with
      | some value => .ok value
      | none => .error ("bad JSON at " ++ at_path)
  | value => .ok value

def walk_path (at_path : String) : List String → Value → Except String Value
  | [],value => .ok value
  | part :: rest,value => do
      let value ← decoded codec at_path value
      match dataframe value with
      | some text => do
          let column ← table_column codec at_path text part
          if rest = [] then pure (.list column)
          else do
            let walked ← column.mapM (walk_path at_path rest)
            pure (.list walked)
      | none => match value with
          | .dict entries => match Value.get? entries part with
              | some found => walk_path at_path rest found
              | none => .error (missing codec part at_path)
          | _ => .error (missing codec part at_path)

-- row["json"]["choices"][0]["message"]["content"]
def completion : Value → Option Value
  | .dict row => match Value.get? row "json" with
      | some (.dict json) => match Value.get? json "choices" with
          | some (.list (.dict choice :: _)) => match Value.get? choice "message" with
              | some (.dict message) => Value.get? message "content"
              | _ => none
          | _ => none
      | _ => none
  | _ => none

def row_content (row : Value) : Except String Value :=
  match completion row,row with
  | some content,_ => .ok content
  | none,.dict entries => .ok ((Value.get? entries "text").getD row)
  | none,_ => .error "AttributeError: get"

def given : Option Value → Option Value
  | some .none => none
  | value => value

-- The items of a result: its own, those below "value", or one item for its text.
def result_items (result : Spec) : Option Value :=
  (given (Value.get? result "items")).or <|
    (match Value.get? result "value" with
      | some (.dict value) => given (Value.get? value "items")
      | _ => none).or <|
    match Value.get? result "text" with
    | some (.str text) => some (.list [.dict [("output",.str text)]])
    | _ => none

def stage_items (node : String) (envelope : Value) : Except String (List Value) :=
  match envelope with
  | .dict entries => match (Value.get? entries "result").getD envelope with
      | .dict result => match result_items result with
          | some (.list items) => .ok items
          | _ => .error ("upstream " ++ codec.repr (.str node) ++ " produced no items")
      | _ => .error "AttributeError: get"
  | _ => .error "AttributeError: get"

def output_of (item : Value) : Value :=
  match item with
  | .dict entries => (Value.get? entries "output").getD item
  | _ => item

-- What a loop over a value goes through.
def iterated : Value → Except String (List Value)
  | .list items => .ok items
  | .tuple items => .ok items
  | .str text => .ok (text.toList.map fun c => .str c.toString)
  | .dict entries => .ok (entries.map fun e => .str e.1)
  | _ => .error "TypeError: not iterable"

def flat_item (text : Value → Value) (item : Value) : Except String (List Value) :=
  match item with
  | .dict entries => match Value.get? entries "rows" with
      | some rows => do
          let rows ← iterated rows
          let contents ← rows.mapM row_content
          pure (contents.map text)
      | none => match output_of item with
          | .list out => .ok (out.map text)
          | out => .ok [text out]
  | .list out => .ok (out.map text)
  | out => .ok [text out]

def walk_item (node path : String) (item : Value × Nat) : Except String Value :=
  walk_path codec (node ++ " item " ++ toString item.2 ++ " path " ++ path) (split_dots path) item.1

def read_items (text : Value → Value) (node path : String) (flatten : Bool) (items : List Value) : Except String (List Value) :=
  if path ≠ "" then items.zipIdx.mapM (walk_item codec node path)
  else if flatten then do
    let flat ← items.mapM (flat_item text)
    pure flat.flatten
  else .ok (items.map fun item => text (output_of item))

def column (text : Value → Value) (inputs : Stages) (entry : Entry) : Except String (List Value) :=
  match entry.source with
  | .literal values => .ok (values.map text)
  | .stage node path flatten => match inputs node with
      | none => .error ("KeyError: " ++ codec.repr (.str node))
      | some envelope => do
          let items ← stage_items codec node envelope
          read_items codec text node path flatten items

def as_text (value : Value) : Value := .str (coerce_output_value codec value)

def len : Value → Except String Nat
  | .list items => .ok items.length
  | .tuple items => .ok items.length
  | .str text => .ok text.length
  | .dict entries => .ok entries.length
  | _ => .error "TypeError: object has no len()"

-- group[j]
def item_at (j : Nat) : Value → Except String Value
  | .list items => match items[j]? with
      | some item => .ok item
      | none => .error "IndexError: list index out of range"
  | .tuple items => match items[j]? with
      | some item => .ok item
      | none => .error "IndexError: tuple index out of range"
  | .str text => match text.toList[j]? with
      | some c => .ok (.str c.toString)
      | none => .error "IndexError: string index out of range"
  | _ => .error "TypeError: not subscriptable by an integer"

def at_index (i : Nat) (values : List Value) : Except String Value := item_at i (.list values)

abbrev Column := Entry × List Value

def check_group (node label : String) (group : (Value × Nat) × Nat) : Except String Unit := do
  let size ← len group.1.1
  if size ≠ group.1.2 then
    .error (node ++ ": flatten grouped column " ++ codec.repr (.str label) ++ " row " ++ toString group.2 ++ " has " ++
      toString size ++ " values; expected " ++ toString group.1.2)
  else pure ()

def check_column (node : String) (group_sizes : List Nat) (column : Column) : Except String Unit :=
  if column.1.grouped then
    if column.2.length ≠ group_sizes.length then
      .error (node ++ ": flatten grouped column " ++ codec.repr (.str column.1.label) ++ " has " ++ toString column.2.length ++
        " groups; expected " ++ toString group_sizes.length)
    else (column.2.zip group_sizes).zipIdx.forM (check_group codec node column.1.label)
  else if column.2.length ≠ 1 ∧ column.2.length ≠ group_sizes.length then
    .error (node ++ ": flatten row-level column " ++ codec.repr (.str column.1.label) ++ " has " ++ toString column.2.length ++
      " values; expected 1 or " ++ toString group_sizes.length)
  else .ok ()

-- What a column holds for entry j of row i.
def cell (n i j : Nat) (column : Column) : Except String Value :=
  if column.1.grouped then at_index i column.2 >>= item_at j
  else at_index (if column.2.length = n then i else 0) column.2

-- The first entry is the group boundary and is not rendered.
def prompt_at (render : Dict String String → Except String String) (columns : List Column) (n i j : Nat) :
    Except String String := do
  let values ← columns.tail.foldlM (fun values column => do
    let value ← cell n i j column
    pure (values.set column.1.label value)) Dict.empty
  render (values.mapValues fun _ value => coerce_output_value codec value)

def prompt_item (i : Nat) (prompt : String) : Value := .dict [("output",.str prompt),("row",.int i)]

def flatten_rows (render : Dict String String → Except String String) (columns : List Column) (group_sizes : List Nat) :
    Except String (List (List Value)) :=
  group_sizes.zipIdx.mapM fun row => (List.range row.1).mapM fun j => do
    let prompt ← prompt_at codec render columns group_sizes.length row.2 j
    pure (prompt_item row.2 prompt)

def flatten_main (node : String) (plan : List Entry) (render : Dict String String → Except String String) (inputs : Stages) :
    Except String Value := do
  let columns ← plan.mapM (column codec (as_text codec) inputs)
  let columns := plan.zip columns
  match columns.filter fun column => column.1.grouped with
  | [] => .error "IndexError: list index out of range"
  | (_,groups) :: _ => do
      let group_sizes ← groups.mapM len
      columns.forM (check_column codec node group_sizes)
      let rows ← flatten_rows codec render columns group_sizes
      pure (.dict [("items",.list rows.flatten)])

def row_index : Value → Option Int
  | .int i => some i
  | .bool b => some (if b then 1 else 0)
  | _ => none

def append_value (node : String) (result : List (List Value)) (entry : Value × Value) : Except String (List (List Value)) :=
  match row_index entry.2 with
  | none => .error (node ++ ": regroup row " ++ codec.repr entry.2 ++ " is not an integer")
  | some row =>
      if 0 ≤ row ∧ row < result.length then .ok (result.modify row.toNat (· ++ [entry.1]))
      else .error (node ++ ": regroup row " ++ toString row ++ " out of range for " ++ toString result.length ++ " symbols")

def check_row (node : String) (row : (List Value × Value) × Nat) : Except String Unit := do
  let expected ← len row.1.2
  if row.1.1.length ≠ expected then
    .error (node ++ ": regroup row " ++ toString row.2 ++ " has " ++ toString row.1.1.length ++ " outputs; expected " ++
      toString expected)
  else pure ()

def regroup_columns (node : String) (values rows groups : List Value) : Except String Value :=
  if values.length ≠ rows.length then
    .error (node ++ ": regroup has " ++ toString values.length ++ " outputs but " ++ toString rows.length ++ " rows")
  else do
    let result ← (values.zip rows).foldlM (append_value codec node) (List.replicate groups.length [])
    (result.zip groups).zipIdx.forM (check_row node)
    pure (.dict [("items",.list (result.map fun outputs => .dict [("output",.list outputs)]))])

def regroup_main (node : String) (plan : List Entry) (inputs : Stages) : Except String Value := do
  let columns ← plan.mapM (column codec (as_text codec) inputs)
  match columns with
  | values :: rows :: groups :: _ => regroup_columns codec node values rows groups
  | _ => .error "IndexError: list index out of range"

end

-- The plan of the regroup step, made beside that of the flatten step.
def regroup_plan (infer_id flatten_id : String) (image_entry : Entry) : List Entry :=
  [⟨.stage infer_id "" false,"outputs",false⟩,⟨.stage flatten_id "row" false,"rows",false⟩,{ image_entry with label := "groups" }]

end Lumilake.PythonStep

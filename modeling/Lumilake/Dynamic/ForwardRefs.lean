import Lumilake.Library.Dict
import Lumilake.RuntimeManager.OutputPath

namespace Lumilake.Dynamic

def retrieval_items_path (codec : Codec) (mode : String) : Except String String :=
  if mode = "sql" then .ok "items.table"
  else if mode = "s3" then .ok "items.content"
  else if mode = "agent" then .ok "items.table"
  else .error ("Unsupported retrieval mode " ++ codec.repr (.str mode) ++ "; expected one of sql, s3, agent")

def is_retrieval (config : Spec) : Bool :=
  match Value.get? config "op" with
  | some (.str op_type) => op_type == "DataRetrievalOp"
  | _ => false

-- The result path that an implicit reference to an operation reads.
def default_forward_path (codec : Codec) (config : Spec) : Except String String :=
  if is_retrieval config then
    match Value.get? config "data_spec" with
    | some (.dict data_spec) => match Value.get? data_spec "mode" with
        | some (.str mode) => retrieval_items_path codec mode
        | _ => .ok "items.output"
    | _ => .ok "items.output"
  else .ok "items.output"

-- The parts of a path behind "items.".
def path_parts (path : String) : List String := split_dots (String.ofList (path.toList.drop 6))

def input_id_of (ref path : String) : String := ref ++ " | " ++ path

def rows_id (input_id : String) : String := input_id ++ " | rows"

-- The operation that decodes the JSON list of every row.
def materializer (input_id : String) : Spec :=
  [("id",.str (rows_id input_id)),("op",.str "LambdaOp"),("inputs",.list [.str input_id]),("fn_name",.str "decode_rows"),
    ("code",.str "def decode_rows(columns):\n    return [json.loads(v) for v in columns[0]]\n"),("mode",.str "aligned")]

def decode_rows (codec : Codec) (column : List String) : Option (List Value) := column.mapM codec.loads

-- A row that holds a list of one value counts as that value.
def unwrap : Value → Value
  | .list [value] => value
  | value => value

structure Forwarding where
  inputs : Dict String (List String) := Dict.empty
  materializers : List Spec := []
  materialized : List String := []

abbrev Rewriting := StateT Forwarding (Except String)

def add_materializer (codec : Codec) (ref path : String) (walked : List Value) (s : Forwarding) : String × Forwarding :=
  let input_id := input_id_of ref path
  if input_id ∈ s.materialized then (rows_id input_id,s)
  else (rows_id input_id,⟨s.inputs.set input_id (walked.map (coerce_output_value codec)),
    s.materializers ++ [materializer input_id],s.materialized ++ [input_id]⟩)

section
variable (codec : Codec) (results : Dict String (List Value)) (configs : Dict String Spec) (rows : Nat)

def walk_rows (items : List Value) (parts : List String) (ref : String) : Except String (List Value) :=
  items.mapM fun item => do
    let walked ← walk_output_path codec item parts ref
    pure (unwrap walked)

def walk_values_per_row (items : List Value) (parts : List String) (ref consumer : String) : Except String (List Value) := do
  let values ← walk_rows codec items parts ref
  if values.length = rows then pure values
  else .error ("op " ++ codec.repr (.str consumer) ++ " references " ++ codec.repr (.str ref) ++ ": its result has " ++
    toString values.length ++ " items for a " ++ toString rows ++ "-row run, so its items cannot be matched to rows")

def forward_values (items : List Value) (parts : List String) (ref : String) : Except String (List String) :=
  items.mapM fun item => do
    let walked ← walk_output_path codec item parts ref
    pure (coerce_output_value codec walked)

def forward_values_flattened (items : List Value) (parts : List String) (ref : String) : Except String (List String) := do
  let walked ← items.mapM fun item => walk_output_path codec item parts ref
  pure (walked.flatMap fun value => match value with
    | .list values => values.map (coerce_output_value codec)
    | _ => [coerce_output_value codec value])

def mixed_rows (ref consumer : String) (parts : List String) : String :=
  "op " ++ codec.repr (.str consumer) ++ " references " ++ codec.repr (.str ref) ++ ": some rows hold a list and some a scalar at " ++
    codec.repr (.str (".".intercalate parts)) ++ ", which cannot be forwarded"

def config_of (ref : String) : Except String Spec :=
  match configs.get? ref with
  | some config => .ok config
  | none => .error ("KeyError: " ++ codec.repr (.str ref))

-- The result is the text to write in place of the reference, if it changes.
def bind_implicit (ref consumer : String) (image_source : Bool) : Rewriting (Option String) := fun s =>
  match results.get? ref with
  | none => .ok (none,s)
  | some items => do
      let config ← config_of codec configs ref
      let default_path ← default_forward_path codec config
      if 1 < rows then do
        let walked ← walk_values_per_row codec rows items (path_parts default_path) ref consumer
        if walked.any Value.is_list then
          if ¬walked.all Value.is_list then .error (mixed_rows codec ref consumer (path_parts default_path))
          else if image_source then .error ("op " ++ codec.repr (.str consumer) ++ " image_source " ++ codec.repr (.str ref) ++
            " holds a list per row and cannot be forwarded as JSON")
          else .ok ((add_materializer codec ref default_path walked s).map some id)
        else .ok (none,{ s with inputs := s.inputs.set ref (walked.map (coerce_output_value codec)) })
      else do
        let texts ← forward_values codec items (path_parts default_path) ref
        .ok (none,{ s with inputs := s.inputs.set ref texts })

def bind_explicit (ref path consumer : String) : Rewriting (String × String) := fun s =>
  let input_id := input_id_of ref path
  if input_id ∈ s.materialized then .ok ((rows_id input_id,"items.output"),s)
  else if input_id ∈ s.inputs then .ok ((input_id,""),s)
  else match results.get? ref with
    | none => .error ("KeyError: " ++ codec.repr (.str ref))
    | some items =>
        if 1 < rows then do
          let walked ← walk_values_per_row codec rows items (path_parts path) ref consumer
          if walked.any Value.is_list then
            if ¬walked.all Value.is_list then .error (mixed_rows codec ref consumer (path_parts path))
            else .ok ((add_materializer codec ref path walked s).map (fun id => (id,"items.output")) id)
          else .ok ((input_id,""),{ s with inputs := s.inputs.set input_id (walked.map (coerce_output_value codec)) })
        else do
          let texts ← forward_values_flattened codec items (path_parts path) ref
          .ok ((input_id,""),{ s with inputs := s.inputs.set input_id texts })

end

-- A row of a table may name a node and a path of its result.
def row_read (row : Spec) : Option (String × String) :=
  match Value.get? row "node",Value.get? row "path" with
  | some (.str node),some (.str path) => some (node,path)
  | _,_ => none

-- The places of an operation that carry a reference, with what is done at each of them.
section
variable {m : Type → Type} [Monad m] (results : Dict String (List Value))
  (implicit : String → m String) (image : String → m Unit) (explicit : String → String → m (String × String))

def put (key : String) (value : Value) (entries : Spec) : Spec :=
  entries.map fun e => if e.1 = key then (key,value) else e

def modify_key (key : String) (f : Value → m Value) (entries : Spec) : m Spec :=
  match Value.get? entries key with
  | none => pure entries
  | some value => do
      let changed ← f value
      pure (put key changed entries)

def on_dict (f : Spec → m Spec) : Value → m Value
  | .dict entries => Value.dict <$> f entries
  | value => pure value

def on_list (f : Value → m Value) : Value → m Value
  | .list items => Value.list <$> items.mapM f
  | value => pure value

def on_text : Value → m Value
  | .str ref => Value.str <$> implicit ref
  | value => pure value

def on_entry (e : String × Value) : m (String × Value) := Prod.mk e.1 <$> on_text implicit e.2

def on_kwargs : Value → m Value := on_dict fun entries => entries.mapM (on_entry implicit)

def on_row : Value → m Value
  | .dict row => match row_read row with
      | some (node,path) =>
          if node ∈ results then do
            let read ← explicit node path
            pure (.dict (put "path" (.str read.2) (put "node" (.str read.1) row)))
          else pure (.dict row)
      | none => pure (.dict row)
  | value => pure value

def on_image : Option Value → m Unit
  | some (.str ref) => image ref
  | _ => pure ()

-- The inputs are a list of ids, as the validator checks.
def forward_op (op : Spec) : m Spec := do
  let op ← modify_key "inputs" (on_list (on_text implicit)) op
  let op ← modify_key "prompt" (on_dict (modify_key "format_kwargs" (on_kwargs implicit))) op
  let op ← modify_key "format_kwargs" (on_kwargs implicit) op
  on_image image (Value.get? op "image_source")
  let op ← modify_key "aggregate_table" (on_list (on_row results explicit)) op
  let op ← modify_key "rowwise_columns" (on_list (on_row results explicit)) op
  modify_key "data_spec" (on_dict (modify_key "params" (on_list (on_row results explicit)))) op

end

def consumer_of (codec : Codec) (op : Spec) : String :=
  match Value.get? op "id" with
  | some (.str id) => id
  | some value => codec.repr value
  | none => "None"

section
variable (codec : Codec) (results : Dict String (List Value)) (configs : Dict String Spec) (rows : Nat)

def implicit_text (consumer ref : String) : Rewriting String := do
  let rewritten ← bind_implicit codec results configs rows ref consumer false
  pure (rewritten.getD ref)

def image_text (consumer ref : String) : Rewriting Unit := do
  let _ ← bind_implicit codec results configs rows ref consumer true
  pure ()

def forward_one (op : Spec) : Rewriting Spec :=
  forward_op results (implicit_text codec results configs rows (consumer_of codec op))
    (image_text codec results configs rows (consumer_of codec op))
    (fun ref path => bind_explicit codec results rows ref path (consumer_of codec op)) op

def forward_refs (subgraph : List Spec) : Except String (List Spec × Dict String (List String)) := do
  let (ops,s) ← (subgraph.mapM (forward_one codec results configs rows)) {}
  pure (ops ++ s.materializers,s.inputs)

end

end Lumilake.Dynamic

import Lumilake.Ops.Config
import Lumilake.Utils.Text

namespace Lumilake.Ops

-- What the operations take from elsewhere: the check of a submitted function, which parses it,
-- and the texts of values (`str`, `repr`, `format(x, "g")`).
structure Python where
  validate_source : Value → Value → Option String
  str : Value → String
  repr : Value → String
  general : Rat → String

-- One entry of a JSON graph; the keys that every operation has stand apart from the others.
structure JsonOp where
  id : String
  op : String
  max_iter : Value
  fields : Spec
  deriving DecidableEq

-- An operation refers to another by the key that one has in the table it was loaded from.
inductive Content where
  | op (key : String)
  | text (text : String)
  deriving DecidableEq

structure LLMFields where
  config : Spec
  return_history : Value
  cacheable : Value
  structural_outputs : Value := .none
  aggregate_table : Value := .none
  rowwise_template : Value
  rowwise_columns : Value
  system_messages : Value
  condition : Value := .none
  deriving DecidableEq

structure LambdaFields where
  fn_name : Value
  code : Value
  mode : Value
  timeout_s : Value
  memory_mb : Value
  image : Value
  expected_runtime_s : Value
  cache : Value
  sample_value : Value
  deriving DecidableEq

-- What a class keeps beside its inputs. The source keeps message contents and format
-- arguments as positions in `inputs`; here they are the operations at these positions.
inductive Body where
  | data_op (data : Value)
  | data_retrieval_op (data_spec : Value)
  | message_op (messages : List (Value × Content))
  | input_op (name : Value)
  | output_op (name path : Value)
  | llm_chat_op (llm : LLMFields)
  | llm_vision_op (llm : LLMFields) (image_source image_path : Value)
  | image_generation_op (config : Spec) (cacheable : Value)
  | embedding_op (config : Spec) (cacheable : Value)
  | format_op (template : Value) (format_args : List String) (format_kwargs : List (String × String)) (format_paths : Value)
  | lambda_op (fields : LambdaFields)
  deriving DecidableEq

structure Op where
  id : String
  inputs : List String
  max_iter : Value
  body : Body
  deriving DecidableEq

namespace JsonOp

def field (data : JsonOp) (key : String) : Except String Value :=
  match data.fields.lookup key with
  | some value => .ok value
  | none => .error ("KeyError: '" ++ key ++ "'")

-- `data.get(key, default)`
def optional (data : JsonOp) (key : String) (default : Value := .none) : Value := (data.fields.lookup key).getD default

end JsonOp

-- `inputs.index(op)`, appended when it is not there.
def add_input (inputs : List String) (key : String) : List String := if key ∈ inputs then inputs else inputs ++ [key]

def distinct_inputs (refs : List String) : List String := refs.foldl add_input []

def item (value : Value) (key : String) : Except String Value :=
  match value with
  | .dict entries =>
    match entries.lookup key with
    | some value => .ok value
    | none => .error ("KeyError: '" ++ key ++ "'")
  | other => .error ("TypeError: '" ++ type_name other ++ "' object has no item '" ++ key ++ "'")

def iterate : Value → Except String (List Value)
  | .list items => .ok items
  | .tuple items => .ok items
  | .str text => .ok (text.toList.map fun c => .str (String.ofList [c]))
  | .dict entries => .ok (entries.map fun e => .str e.1)
  | other => .error ("TypeError: '" ++ type_name other ++ "' object is not iterable")

section
variable (python : Python) (other_ops : List String)

-- `other_ops[op_id]`
def reference (op_id : Value) : Except String String :=
  match op_id with
  | .str key => if key ∈ other_ops then .ok key else .error ("KeyError: " ++ python.repr op_id)
  | .list _ => .error "TypeError: unhashable type: 'list'"
  | .dict _ => .error "TypeError: unhashable type: 'dict'"
  | other => .error ("KeyError: " ++ python.repr other)

def references (op_ids : Value) : Except String (List String) := do
  let op_ids ← iterate op_ids
  op_ids.mapM (reference python other_ops)

def DataOp.from_json (data : JsonOp) : Except String (List String × Body) := do
  let value ← data.field "data"
  pure ([],.data_op value)

def DataRetrievalOp.from_json (data : JsonOp) : Except String (List String × Body) := do
  let inputs ← references python other_ops (data.optional "_inputs" (.list []))
  let data_spec ← data.field "data_spec"
  pure (inputs,.data_retrieval_op data_spec)

namespace MessageOp

-- A content that is no text would stand among the inputs, where the sort asks for its id.
def get_content : Value → Except String Content
  | .str content_or_id => .ok (if content_or_id ∈ other_ops then .op content_or_id else .text content_or_id)
  | .list _ => .error "TypeError: unhashable type: 'list'"
  | .dict _ => .error "TypeError: unhashable type: 'dict'"
  | other => .error ("AttributeError: '" ++ type_name other ++ "' object has no attribute 'id'")

def read_message (message : Value) : Except String (Value × Content) := do
  let role ← item message "role"
  let content ← item message "content"
  let content ← get_content other_ops content
  pure (role,content)

def content_refs (messages : List (Value × Content)) : List String :=
  messages.filterMap fun message =>
    match message.2 with
    | .op key => some key
    | .text _ => none

def from_json (data : JsonOp) : Except String (List String × Body) := do
  let messages ← data.field "messages"
  let messages ← iterate messages
  let messages ← messages.mapM (read_message other_ops)
  pure (distinct_inputs (content_refs messages),.message_op messages)

end MessageOp

def InputOp.from_json (data : JsonOp) : Except String (List String × Body) := do
  let name ← data.field "name"
  pure ([],.input_op name)

-- `input_ids[0]` of the only one; a dict has no item 0.
def OutputOp.only_input : Value → Except String Value
  | .list [op_id] => .ok op_id
  | .tuple [op_id] => .ok op_id
  | .str text => if text.length = 1 then .ok (.str text) else .error "OutputOp must have exactly one input"
  | .list _ => .error "OutputOp must have exactly one input"
  | .tuple _ => .error "OutputOp must have exactly one input"
  | .dict entries => if entries.length = 1 then .error "KeyError: 0" else .error "OutputOp must have exactly one input"
  | other => .error ("TypeError: object of type '" ++ type_name other ++ "' has no len()")

def OutputOp.from_json (data : JsonOp) : Except String (List String × Body) := do
  let input_ids ← data.field "_inputs"
  let input_id ← OutputOp.only_input input_ids
  let name ← data.field "name"
  let output ← reference python other_ops input_id
  pure ([output],.output_op name (data.optional "path"))

def LLMChatOp.from_json (data : JsonOp) : Except String (List String × Body) := do
  let messages ← data.field "messages"
  let message ← reference python other_ops messages
  let kwargs ← data.field "config"
  let config ← generation_config kwargs
  let return_history ← data.field "return_history"
  let cacheable ← data.field "cacheable"
  pure ([message],.llm_chat_op {
    config := config
    return_history := return_history
    cacheable := cacheable
    structural_outputs := data.optional "structural_outputs"
    aggregate_table := data.optional "aggregate_table"
    rowwise_template := data.optional "rowwise_template"
    rowwise_columns := data.optional "rowwise_columns"
    system_messages := data.optional "system_messages"
    condition := data.optional "condition" })

-- `other_ops.get(image_source)`
def LLMVisionOp.image_source_op : Value → Except String (List String)
  | .str key => .ok (if key ∈ other_ops then [key] else [])
  | .list _ => .error "TypeError: unhashable type: 'list'"
  | .dict _ => .error "TypeError: unhashable type: 'dict'"
  | _ => .ok []

def LLMVisionOp.from_json (data : JsonOp) : Except String (List String × Body) := do
  let messages ← data.field "messages"
  let message ← reference python other_ops messages
  let kwargs ← data.field "config"
  let config ← generation_config kwargs
  let return_history ← data.field "return_history"
  let cacheable ← data.field "cacheable"
  let image_source := data.optional "image_source" (.str "")
  let image_source_op ← LLMVisionOp.image_source_op other_ops image_source
  if !image_source.truth then .error "LLMVisionOp requires image_source"
  pure (message :: image_source_op,.llm_vision_op {
    config := config
    return_history := return_history
    cacheable := cacheable
    rowwise_template := data.optional "rowwise_template"
    rowwise_columns := data.optional "rowwise_columns"
    system_messages := data.optional "system_messages" } image_source (data.optional "image_path" (.str "images")))

-- ImageGenerationOp and EmbeddingOp read the same keys.
def read_content (make : Spec → Value → Body) (data : JsonOp) : Except String (List String × Body) := do
  let kwargs ← data.field "config"
  let config ← generation_config kwargs
  let content ← data.field "content"
  let content ← reference python other_ops content
  let cacheable ← data.field "cacheable"
  pure ([content],make config cacheable)

def ImageGenerationOp.from_json (data : JsonOp) : Except String (List String × Body) :=
  read_content python other_ops .image_generation_op data

def EmbeddingOp.from_json (data : JsonOp) : Except String (List String × Body) :=
  read_content python other_ops .embedding_op data

namespace FormatOp

def kwarg (entry : String × Value) : Except String (String × String) := do
  let key ← reference python other_ops entry.2
  pure (entry.1,key)

def kwargs : Value → Except String (List (String × String))
  | .dict entries => entries.mapM (kwarg python other_ops)
  | other => .error ("AttributeError: '" ++ type_name other ++ "' object has no attribute 'items'")

-- `cls(template, *format_args, **format_kwargs)`
def clash (format_kwargs : List (String × String)) : Except String Unit :=
  match format_kwargs.find? (fun e => decide (e.1 ∈ ["self","template"])) with
  | some e => .error ("TypeError: FormatOp.__init__() got multiple values for argument '" ++ e.1 ++ "'")
  | none => .ok ()

def from_json (data : JsonOp) : Except String (List String × Body) := do
  let format_args ← data.field "format_args"
  let format_args ← references python other_ops format_args
  let format_kwargs ← data.field "format_kwargs"
  let format_kwargs ← kwargs python other_ops format_kwargs
  let template ← data.field "template"
  clash format_kwargs
  pure (distinct_inputs (format_args ++ format_kwargs.map Prod.snd),
    .format_op template format_args format_kwargs (data.optional "format_paths" (.dict [])))

end FormatOp

namespace LambdaOp

def LAMBDA_MODES : List Value := [.str "row",.str "list",.str "aligned"]

def MAX_TIMEOUT_S : Rat := 600
def MAX_IMAGE_TIMEOUT_S : Rat := 3600
def MIN_MEMORY_MB : Int := 128
def MAX_MEMORY_MB : Int := 8192

-- A bool is no number here.
def number? : Value → Option Rat
  | .int i => some i
  | .float q => some q
  | _ => none

def check_number (name : String) (cap : Rat) (value : Value) : Except String Unit :=
  if value = .none then .ok ()
  else match number? value with
    | none => .error (name ++ " must be a number, got " ++ python.repr value)
    | some q =>
      if 0 < q ∧ q ≤ cap then .ok ()
      else .error (name ++ " must be in (0, " ++ python.general cap ++ "], got " ++ python.str value)

def check_memory (memory_mb : Value) : Except String Unit :=
  match memory_mb with
  | .none => .ok ()
  | .int i =>
    if MIN_MEMORY_MB ≤ i ∧ i ≤ MAX_MEMORY_MB then .ok ()
    else .error ("memory_mb must be in [" ++ toString MIN_MEMORY_MB ++ ", " ++ toString MAX_MEMORY_MB ++ "], got " ++ toString i)
  | other => .error ("memory_mb must be an integer, got " ++ python.repr other)

def validate_limits (f : LambdaFields) : Except String Unit := do
  check_number python "timeout_s" (if f.image.truth then MAX_IMAGE_TIMEOUT_S else MAX_TIMEOUT_S) f.timeout_s
  check_number python "expected_runtime_s" ((number? f.timeout_s).getD MAX_TIMEOUT_S) f.expected_runtime_s
  check_memory python f.memory_mb

def check_image : Value → Except String Unit
  | .none => .ok ()
  | .str image => if strip image = "" then .error "LambdaOp image must be a non-empty string" else .ok ()
  | other => .error ("AttributeError: '" ++ type_name other ++ "' object has no attribute 'strip'")

def check_cache (cache : Value) : Except String Unit :=
  match cache with
  | .none => .ok ()
  | .bool _ => .ok ()
  | other => .error ("LambdaOp cache must be a bool, got " ++ python.repr other)

-- `__init__`, the function given as source.
def check (f : LambdaFields) : Except String Unit := do
  if f.mode ∉ LAMBDA_MODES then
    .error ("LambdaOp mode must be one of ('row', 'list', 'aligned') (got " ++ python.repr f.mode ++ ")")
  check_image f.image
  check_cache python f.cache
  validate_limits python f

def read (data : JsonOp) : LambdaFields where
  fn_name := data.optional "fn_name"
  code := data.optional "_code"
  mode := data.optional "mode" (.str "row")
  timeout_s := data.optional "timeout_s"
  memory_mb := data.optional "memory_mb"
  image := data.optional "image"
  expected_runtime_s := data.optional "expected_runtime_s"
  cache := data.optional "cache"
  sample_value := data.optional "sample_value"

def submitted_function (f : LambdaFields) : Except String Unit := do
  if !f.fn_name.truth || !f.code.truth then .error "LambdaOp serialization missing function code or name"
  match python.validate_source f.code f.fn_name with
  | some text => .error ("Invalid LambdaOp function '" ++ python.str f.fn_name ++ "': " ++ text)
  | none => pure ()

def from_json (data : JsonOp) : Except String (List String × Body) := do
  let f := read data
  submitted_function python f
  let input_ids ← data.field "_inputs"
  let inputs ← references python other_ops input_ids
  check python f
  pure (inputs,.lambda_op f)

end LambdaOp

-- `Op.registry.get_class(name)._from_json`
def read_body (data : JsonOp) : Except String (List String × Body) :=
  match data.op with
  | "DataOp" => DataOp.from_json data
  | "DataRetrievalOp" => DataRetrievalOp.from_json python other_ops data
  | "MessageOp" => MessageOp.from_json other_ops data
  | "InputOp" => InputOp.from_json data
  | "OutputOp" => OutputOp.from_json python other_ops data
  | "LLMChatOp" => LLMChatOp.from_json python other_ops data
  | "LLMVisionOp" => LLMVisionOp.from_json python other_ops data
  | "ImageGenerationOp" => ImageGenerationOp.from_json python other_ops data
  | "EmbeddingOp" => EmbeddingOp.from_json python other_ops data
  | "FormatOp" => FormatOp.from_json python other_ops data
  | "LambdaOp" => LambdaOp.from_json python other_ops data
  | other => .error ("'" ++ other ++ "' is not registered in ops")

-- `set_looping(max_iter is not None, max_iter)` keeps the value that was read.
def op_from_json (data : JsonOp) : Except String Op := do
  let read ← read_body python other_ops data
  pure ⟨data.id,read.1,data.max_iter,read.2⟩

end

namespace Op

-- A key that is written only when its value is given.
def given (key : String) (value : Value) : Spec := if value = .none then [] else [(key,value)]

section
variable (id_of : String → String)

def ids (keys : List String) : Value := .list (keys.map fun key => .str (id_of key))

def content_or_id : Content → Value
  | .op key => .str (id_of key)
  | .text text => .str text

def first_id (inputs : List String) : Value := .str (id_of (inputs.headD ""))

def serialize_llm (inputs : List String) (llm : LLMFields) : Spec :=
  [("messages",first_id id_of inputs),("config",.dict llm.config),("return_history",llm.return_history),
    ("cacheable",llm.cacheable)] ++
  given "structural_outputs" llm.structural_outputs ++ given "aggregate_table" llm.aggregate_table ++
  given "rowwise_template" llm.rowwise_template ++ given "rowwise_columns" llm.rowwise_columns ++
  given "system_messages" llm.system_messages ++ given "condition" llm.condition

def serialize_lambda (f : LambdaFields) : Spec :=
  [("fn_name",f.fn_name),("_code",f.code),("mode",f.mode)] ++
  given "timeout_s" f.timeout_s ++ given "memory_mb" f.memory_mb ++ given "image" f.image ++
  given "expected_runtime_s" f.expected_runtime_s ++ given "cache" f.cache ++ given "sample_value" f.sample_value

-- The class name beside `_serialize()`.
def serialize_body (inputs : List String) : Body → String × Spec
  | .data_op data => ("DataOp",[("data",data)])
  | .data_retrieval_op data_spec => ("DataRetrievalOp",[("data_spec",data_spec)])
  | .message_op messages => ("MessageOp",[("messages",.list (messages.map fun message =>
      .dict [("role",message.1),("content",content_or_id id_of message.2)]))])
  | .input_op name => ("InputOp",[("name",name)])
  | .output_op name path => ("OutputOp",[("name",name)] ++ given "path" path)
  | .llm_chat_op llm => ("LLMChatOp",serialize_llm id_of inputs llm)
  | .llm_vision_op llm image_source image_path => ("LLMVisionOp",serialize_llm id_of inputs llm ++
      [("image_source",image_source),("image_path",image_path)])
  | .image_generation_op config cacheable => ("ImageGenerationOp",
      [("content",first_id id_of inputs),("config",.dict config),("cacheable",cacheable)])
  | .embedding_op config cacheable => ("EmbeddingOp",
      [("content",first_id id_of inputs),("config",.dict config),("cacheable",cacheable)])
  | .format_op template format_args format_kwargs format_paths => ("FormatOp",
      [("template",template),("format_args",ids id_of format_args),
        ("format_kwargs",.dict (format_kwargs.map fun e => (e.1,.str (id_of e.2))))] ++
      (if format_paths.truth then [("format_paths",format_paths)] else []))
  | .lambda_op f => ("LambdaOp",serialize_lambda f)

def serialize (op : Op) : JsonOp where
  id := op.id
  op := (serialize_body id_of op.inputs op.body).1
  max_iter := op.max_iter
  fields := (serialize_body id_of op.inputs op.body).2 ++ [("_inputs",ids id_of op.inputs)]

end
end Op

end Lumilake.Ops

import Lumilake.Parser.Common

namespace Lumilake.Parser.Yaml
open Ops Fallible

structure OpEntry where
  id : String
  op : String
  inputs : List String
  fields : Spec
  max_iter : Value

-- What an entry is compiled to beside its id and class: inputs, fields, and the operations
-- that the parser makes for it.
structure Built where
  inputs : List String
  fields : Spec
  implicit : List JsonOp

-- A user-facing id in `content` stands for the operation, any other text for itself.
def internal_of (users : Dict String String) (text : String) : String := (users.get? text).getD text

def has_class (graph : Dict String JsonOp) (op_id cls : String) : Bool :=
  match graph.get? op_id with
  | some op => decide (op.op = cls)
  | none => false

def format_op (id template : String) (inputs : List String) (format_kwargs : List (String × String)) : JsonOp :=
  ⟨id,"FormatOp",.none,[("_inputs",id_list inputs),("template",.str template),("format_args",.list []),
    ("format_kwargs",id_table format_kwargs)]⟩

section
variable (python : Python)

def build_generation_config (config : Spec) (entry_id op_kind : String) : Except String Spec :=
  let unknown := (config.map Prod.fst).filter fun key => decide (key ∉ GenerationConfig.map Prod.fst)
  if unknown = [] then .ok config
  else .error (op_kind ++ " '" ++ entry_id ++ "' config has unknown fields: " ++
    python.repr (id_list (unknown.mergeSort fun a b => decide (a ≤ b))) ++
    ". Use 'extra_sampling_params' for keys not on GenerationConfig.")

-- The configuration of an entry, which must name a model.
def model_config (entry : OpEntry) (op_kind : String) : Except String Spec :=
  match get entry.fields "config" with
  | .dict config =>
    if "model" ∈ config.map Prod.fst then .ok config
    else .error (op_kind ++ " '" ++ entry.id ++ "' requires 'config' with a 'model' field")
  | _ => .error (op_kind ++ " '" ++ entry.id ++ "' requires 'config' with a 'model' field")

def flag (entry : OpEntry) (key : String) : Value := .bool (get entry.fields key).truth

def emit_data_op (entry : OpEntry) : Except String Built :=
  match texts? (get entry.fields "data") with
  | some data => .ok ⟨[],[("data",id_list data)],[]⟩
  | none => .error ("DataOp '" ++ entry.id ++ "' requires 'data: list[str]'")

section
variable (users : Dict String String)

def resolve_param (place : String) (param : Value) : Except String Value :=
  match param with
  | .dict fields =>
    match Value.get? fields "node" with
    | none => .ok (.dict fields)
    | some (.str node_ref) =>
      match users.get? node_ref with
      | some internal => .ok (.dict (put "node" (.str internal) fields))
      | none => .error (place ++ ".node references unknown input/op id '" ++ node_ref ++ "'")
    | some _ => .error (place ++ ".node must be a string")
  | _ => .error (place ++ " must be a mapping")

def resolve_data_spec (data_spec : Spec) (entry_id op_label field_label : String) : Except String Spec :=
  let place := op_label ++ " '" ++ entry_id ++ "' " ++ field_label ++ ".params"
  match get data_spec "params" with
  | .none => .ok data_spec
  | .list params => do
    let new_params ← params.zipIdx.mapM fun e => resolve_param users (place ++ "[" ++ toString e.2 ++ "]") e.1
    pure (put "params" (.list new_params) data_spec)
  | _ => .error (place ++ " must be a list")

def emit_data_retrieval_op (entry : OpEntry) (input_ids : List String) : Except String Built :=
  match get entry.fields "data_spec" with
  | .dict data_spec => do
    let resolved ← resolve_data_spec users data_spec entry.id "DataRetrievalOp" "data_spec"
    pure ⟨input_ids,[("data_spec",.dict resolved)],[]⟩
  | _ => .error ("DataRetrievalOp '" ++ entry.id ++ "' requires 'data_spec'")

def serialize_message (entry_id : String) (e : Value × Nat) : Except String Value :=
  let place := "MessageOp '" ++ entry_id ++ "' messages[" ++ toString e.2 ++ "]"
  match e.1 with
  | .dict msg =>
    match get msg "role",get msg "content" with
    | .str role,.str content => .ok (.dict [("role",.str role),("content",.str (internal_of users content))])
    | _,_ => .error (place ++ " requires string role + content")
  | _ => .error (place ++ " must be a mapping")

def emit_message_op (entry_id : String) (messages : Value) : Except String Spec :=
  match messages with
  | .list (first :: more) => do
    let serialized ← (first :: more).zipIdx.mapM (serialize_message users entry_id)
    pure [("messages",.list serialized)]
  | _ => .error ("MessageOp '" ++ entry_id ++ "' requires non-empty 'messages'")

-- The reference of an entry to one operation, under a label of its own.
def target_of (entry : OpEntry) (op_kind label target : String) : Except String String :=
  match users.get? target with
  | some internal => .ok internal
  | none => .error (op_kind ++ " '" ++ entry.id ++ "' " ++ label ++ " references unknown id '" ++ target ++ "'")

def emit_embedding_op (entry : OpEntry) : Except String Built := do
  let config ← model_config entry "EmbeddingOp"
  match get entry.fields "input" with
  | .str content_ref =>
    if strip content_ref = "" then
      .error ("EmbeddingOp '" ++ entry.id ++ "' requires an 'input' reference to a text op or workflow input id")
    else do
      let content_id ← target_of users entry "EmbeddingOp" "input" (strip content_ref)
      let config ← build_generation_config python config entry.id "EmbeddingOp"
      pure ⟨[content_id],[("content",.str content_id),("config",.dict config),("cacheable",flag entry "cacheable")],[]⟩
  | _ => .error ("EmbeddingOp '" ++ entry.id ++ "' requires an 'input' reference to a text op or workflow input id")

def emit_format_op (entry : OpEntry) (input_ids : List String) : Except String Built :=
  match get entry.fields "template" with
  | .str template =>
    match texts? (either (get entry.fields "format_args") (.list [])) with
    | none => .error ("FormatOp '" ++ entry.id ++ "' format_args must be list[str]")
    | some fmt_args =>
      match text_entries? (either (get entry.fields "format_kwargs") (.dict [])) with
      | none => .error ("FormatOp '" ++ entry.id ++ "' format_kwargs must be dict[str, str]")
      | some fmt_kwargs => .ok ⟨input_ids,[("template",.str template),
          ("format_args",id_list (fmt_args.map (internal_of users))),
          ("format_kwargs",id_table (fmt_kwargs.map fun e => (e.1,internal_of users e.2)))],[]⟩
  | _ => .error ("FormatOp '" ++ entry.id ++ "' requires 'template: str'")

def resolve_row (item : Value) : Except String Spec :=
  match item with
  | .dict row =>
    match get row "node" with
    | .str node_ref =>
      match users.get? node_ref with
      | some internal => .ok (put "node" (.str internal) row)
      | none => .ok row
    | _ => .ok row
  | _ => .error "aggregate_table/rowwise_columns entries must be mappings"

def resolve_table_nodes (table : Value) : Except String (Option (List Spec)) :=
  match table with
  | .none => .ok none
  | .list items => do
    let rows ← items.mapM (resolve_row users)
    pure (some rows)
  | _ => .error "aggregate_table/rowwise_columns must be a list"

end

-- An optional number of a lambda; a bool is none, and `memory_mb` takes no float.
def lambda_number (entry : OpEntry) (key : String) (floats : Bool) : Except String Spec :=
  match get entry.fields key with
  | .none => .ok []
  | .int i => .ok [(key,.int i)]
  | .float q => if floats then .ok [(key,.float q)] else .error ("LambdaOp '" ++ entry.id ++ "' '" ++ key ++ "' must be a number")
  | _ => .error ("LambdaOp '" ++ entry.id ++ "' '" ++ key ++ "' must be a number")

def lambda_image (entry : OpEntry) : Except String Spec :=
  match get entry.fields "image" with
  | .none => .ok []
  | .str image =>
    if strip image = "" then .error ("LambdaOp '" ++ entry.id ++ "' 'image' must be a non-empty string")
    else .ok [("image",.str image)]
  | _ => .error ("LambdaOp '" ++ entry.id ++ "' 'image' must be a non-empty string")

def lambda_cache (entry : OpEntry) : Except String Spec :=
  match get entry.fields "cache" with
  | .none => .ok []
  | .bool b => .ok [("cache",.bool b)]
  | _ => .error ("LambdaOp '" ++ entry.id ++ "' 'cache' must be a bool")

def emit_lambda_op (entry : OpEntry) (input_ids : List String) : Except String Built :=
  match get entry.fields "fn_name",either (get entry.fields "code") (get entry.fields "_code") with
  | .str fn_name,.str code => do
    let mode := (Value.get? entry.fields "mode").getD (.str "row")
    if mode ∉ LambdaOp.LAMBDA_MODES then
      .error ("LambdaOp '" ++ entry.id ++ "' mode must be one of ('row', 'list', 'aligned') (got " ++ python.repr mode ++ ")")
    let timeout_s ← lambda_number entry "timeout_s" true
    let memory_mb ← lambda_number entry "memory_mb" false
    let image ← lambda_image entry
    let expected_runtime_s ← lambda_number entry "expected_runtime_s" true
    let cache ← lambda_cache entry
    pure ⟨input_ids,[("fn_name",.str fn_name),("_code",.str code),("mode",mode)] ++ timeout_s ++ memory_mb ++ image ++
      expected_runtime_s ++ cache,[]⟩
  | .str _,_ => .error ("LambdaOp '" ++ entry.id ++ "' requires 'code: str'")
  | _,_ => .error ("LambdaOp '" ++ entry.id ++ "' requires 'fn_name: str'")

section
variable (digest : Digest) (scope : String) (users : Dict String String) (graph : Dict String JsonOp)

def emit_image_generation_op (entry : OpEntry) : Except String Built := do
  let config ← model_config entry "ImageGenerationOp"
  match get entry.fields "content" with
  | .str content_ref =>
    if strip content_ref = "" then
      .error ("ImageGenerationOp '" ++ entry.id ++ "' requires a 'content' user-id reference")
    else do
      let target_internal ← target_of users entry "ImageGenerationOp" "content" (strip content_ref)
      let fmt_id := make_id digest scope "format" entry.id
      -- A format operation that is already emitted is used as it is, anything else is wrapped.
      let wrapped := !has_class graph target_internal "FormatOp"
      let content_id := if wrapped then fmt_id else target_internal
      let config ← build_generation_config python config entry.id "ImageGenerationOp"
      pure ⟨[content_id],[("content",.str content_id),("config",.dict config),("cacheable",flag entry "cacheable")],
        if wrapped then [format_op fmt_id "{ref0}" [target_internal] [("ref0",target_internal)]] else []⟩
  | _ => .error ("ImageGenerationOp '" ++ entry.id ++ "' requires a 'content' user-id reference")

structure Wrapping where
  prepared : List Value
  inputs : List String
  format_kwargs : List (String × String)

-- The operation that a message of the user names and that is not formatted upstream.
def wrapped_ref (msg : Spec) : Option String :=
  match get msg "content" with
  | .str content =>
    if get msg "role" = .str "user" then
      match users.get? content with
      | some op_id => if has_class graph op_id "FormatOp" then none else some op_id
      | none => none
    else none
  | _ => none

def wrap_message (fmt_id : String) (s : Wrapping) (msg : Value) : Wrapping :=
  match msg with
  | .dict fields =>
    match wrapped_ref users graph fields with
    | some op_id => {
        prepared := s.prepared ++ [.dict (put "content" (.str fmt_id) fields)]
        inputs := add_input s.inputs op_id
        format_kwargs := s.format_kwargs ++ [("ref" ++ toString s.format_kwargs.length,op_id)] }
    | none => { s with prepared := s.prepared ++ [msg] }
  | _ => { s with prepared := s.prepared ++ [msg] }

def template_of (format_kwargs : List (String × String)) : String :=
  String.join (format_kwargs.map fun e => "\x7b" ++ e.1 ++ "\x7d")

def wrap_user_content_refs (messages : Value) (entry_id : String) : Value × List JsonOp :=
  match messages with
  | .list items =>
    let fmt_id := make_id digest scope "format" entry_id
    let s := items.foldl (wrap_message users graph fmt_id) ⟨[],[],[]⟩
    if s.format_kwargs = [] then (messages,[])
    else (.list s.prepared,[format_op fmt_id (template_of s.format_kwargs) s.inputs s.format_kwargs])
  | _ => (messages,[])

def prompt_kwarg (entry_id : String) (e : String × String) : Except String (String × String) :=
  match users.get? e.2 with
  | some internal => .ok (e.1,internal)
  | none => .error ("LLMChat/Vision '" ++ entry_id ++ "' prompt.format_kwargs references unknown id '" ++ e.2 ++ "'")

def rewrite_user (fmt_id : String) (msg : Value) : Value :=
  match msg with
  | .dict fields => if get fields "role" = .str "user" then .dict (put "content" (.str fmt_id) fields) else msg
  | _ => msg

def build_inline_messages (messages prompt_spec : Value) (entry_id : String) : Except String (Value × List JsonOp) :=
  match prompt_spec with
  | .dict spec =>
    match get spec "template" with
    | .str template =>
      match text_entries? (either (get spec "format_kwargs") (.dict [])) with
      | some format_kwargs => do
        let resolved_kwargs ← format_kwargs.mapM (prompt_kwarg users entry_id)
        let fmt_id := make_id digest scope "format" entry_id
        let items ← iterate messages
        pure (.list (items.map (rewrite_user fmt_id)),
          [format_op fmt_id template (distinct_inputs (resolved_kwargs.map Prod.snd)) resolved_kwargs])
      | none => .error ("LLMChat/Vision '" ++ entry_id ++ "' prompt.format_kwargs must be dict[str, str]")
    | _ => .error ("LLMChat/Vision '" ++ entry_id ++ "' prompt.template must be a string")
  | _ => .ok (wrap_user_content_refs digest scope users graph messages entry_id)

def content_of (users : Dict String String) (msg : Value) : Option String :=
  match msg with
  | .dict fields => (text? (get fields "content")).map (internal_of users)
  | _ => none

-- `user_id_to_internal[ref]` for each input; compile_workflow has checked that they are known.
def input_ids (entry : OpEntry) : List String := entry.inputs.map (internal_of users)

-- The messages of an entry as one operation, with the format operation it may need.
def inline_message_op (entry : OpEntry) (inline_messages : Value) : Except String (String × List JsonOp) := do
  let (prepared_messages,extra_format_ops) ←
    build_inline_messages digest scope users graph inline_messages (get entry.fields "prompt") entry.id
  let msg_internal_id := make_id digest scope "message" entry.id
  let seen := distinct_inputs (input_ids users entry ++ extra_format_ops.map JsonOp.id)
  let items ← iterate prepared_messages
  let resolved_contents := items.filterMap (content_of users)
  let msg_inputs := seen.filter fun dep => decide (dep ∈ resolved_contents)
  let fields ← emit_message_op users entry.id prepared_messages
  pure (msg_internal_id,extra_format_ops ++ [⟨msg_internal_id,"MessageOp",.none,("_inputs",id_list msg_inputs) :: fields⟩])

def referenced_type (referenced_op : Option JsonOp) : String :=
  match referenced_op with
  | some op => op.op
  | none => "<pending>"

def llm_messages (entry : OpEntry) (op_kind : String) : Except String (String × List JsonOp) :=
  match get entry.fields "messages_ref",get entry.fields "messages" with
  | .none,.none => .error (op_kind ++ " '" ++ entry.id ++ "' requires 'messages' (inline) or 'messages_ref'")
  | .none,inline_messages => inline_message_op digest scope users graph entry inline_messages
  | .str messages_ref,_ => do
    let msg_internal_id ← target_of users entry op_kind "messages_ref" messages_ref
    if has_class graph msg_internal_id "MessageOp" then pure (msg_internal_id,[])
    else .error (op_kind ++ " '" ++ entry.id ++ "' messages_ref '" ++ messages_ref ++
      "' must reference a MessageOp, got '" ++ referenced_type (graph.get? msg_internal_id) ++ "'")
  | _,_ => .error (op_kind ++ " '" ++ entry.id ++ "' messages_ref must be a string id")

-- A key that is passed on as it is when the entry has it.
def passed (entry : OpEntry) (key : String) : Spec :=
  match Value.get? entry.fields key with
  | some value => [(key,value)]
  | none => []

def table_field (key : String) (table : Option (List Spec)) : Spec :=
  match table with
  | some rows => [(key,.list (rows.map .dict))]
  | none => []

def system_content (msg : Value) : Option Value :=
  match msg with
  | .dict fields =>
    if get fields "role" = .str "system" then (text? (get fields "content")).map .str else none
  | _ => none

def system_messages (entry : OpEntry) : Spec :=
  match Value.get? entry.fields "system_messages",Value.get? entry.fields "rowwise_template",get entry.fields "messages" with
  | some given,_,_ => [("system_messages",given)]
  | none,some _,.list messages =>
    let contents := messages.filterMap system_content
    if contents = [] then [] else [("system_messages",.list contents)]
  | none,_,_ => []

def row_nodes (table : Option (List Spec)) : List String :=
  (table.getD []).filterMap fun row => text? (get row "node")

def emit_llm_like_op (entry : OpEntry) (op_kind : String) : Except String Built := do
  let config ← model_config entry op_kind
  let (msg_internal_id,implicit) ← llm_messages digest scope users graph entry op_kind
  let config ← build_generation_config python config entry.id op_kind
  let resolved_aggregate ← resolve_table_nodes users (get entry.fields "aggregate_table")
  let resolved_rowwise ← resolve_table_nodes users (get entry.fields "rowwise_columns")
  let llm_inputs :=
    if op_kind = "LLMChatOp" then
      distinct_inputs (msg_internal_id :: (row_nodes resolved_aggregate ++ row_nodes resolved_rowwise))
    else [msg_internal_id]
  pure ⟨llm_inputs,[("messages",.str msg_internal_id),("config",.dict config),("return_history",flag entry "return_history"),
      ("cacheable",flag entry "cacheable")] ++ passed entry "structural_outputs" ++
      table_field "aggregate_table" resolved_aggregate ++ passed entry "rowwise_template" ++
      table_field "rowwise_columns" resolved_rowwise ++ system_messages entry,implicit⟩

def emit_llm_chat_op (entry : OpEntry) : Except String Built :=
  emit_llm_like_op python digest scope users graph entry "LLMChatOp"

def image_path (entry : OpEntry) : Except String String :=
  match (Value.get? entry.fields "image_path").getD (.str "images") with
  | .str path => if path = "" then .error ("LLMVisionOp '" ++ entry.id ++ "' image_path must be a string") else .ok path
  | _ => .error ("LLMVisionOp '" ++ entry.id ++ "' image_path must be a string")

def emit_llm_vision_op (entry : OpEntry) : Except String Built :=
  match get entry.fields "image_source" with
  | .str image_source =>
    if strip image_source = "" then
      .error ("LLMVisionOp '" ++ entry.id ++ "' requires 'image_source' referencing an op id")
    else do
      let source ← target_of users entry "LLMVisionOp" "image_source" image_source
      let path ← image_path entry
      let built ← emit_llm_like_op python digest scope users graph entry "LLMVisionOp"
      pure { built with fields := built.fields ++ [("image_source",.str source),("image_path",.str path)] }
  | _ => .error ("LLMVisionOp '" ++ entry.id ++ "' requires 'image_source' referencing an op id")

def build_fields (entry : OpEntry) : Except String Built :=
  let ids := input_ids users entry
  match entry.op with
  | "DataOp" => emit_data_op entry
  | "DataRetrievalOp" => emit_data_retrieval_op users entry ids
  | "MessageOp" => do
    let fields ← emit_message_op users entry.id (get entry.fields "messages")
    pure ⟨ids,fields,[]⟩
  | "LLMChatOp" => emit_llm_chat_op python digest scope users graph entry
  | "LLMVisionOp" => emit_llm_vision_op python digest scope users graph entry
  | "ImageGenerationOp" => emit_image_generation_op python digest scope users graph entry
  | "EmbeddingOp" => emit_embedding_op python users entry
  | "FormatOp" => emit_format_op users entry ids
  | "LambdaOp" => emit_lambda_op python entry ids
  | other => .error ("unsupported op type '" ++ other ++ "'")

-- The operations that an entry gives, the implicit ones first.
def build_op_dict (entry : OpEntry) : Except String (List JsonOp) := do
  let built ← build_fields python digest scope users graph entry
  pure (built.implicit ++
    [⟨internal_of users entry.id,entry.op,entry.max_iter,("_inputs",id_list built.inputs) :: built.fields⟩])

end
end

end Lumilake.Parser.Yaml

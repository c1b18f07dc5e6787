import Lumilake.Library.Braces
import Lumilake.Optimizer.Base
import Lumilake.Parser.N8n
import Lumilake.Utils.Text

-- The query template and parameters that a select of a postgres node is compiled to.
namespace Lumilake.Parser.N8n
open Ops Optimizer

abbrev Text := List Char

-- One row [column, operator, value] of a node's filters.
structure Filter where
  column : String
  op : String
  value : Value

inductive Limit where
  | none
  | int (n : Int)
  | text (s : String)

-- What a parameter is read from: a path of a node's result, or the values of an input.
inductive Payload where
  | node (node path : String)
  | data (items : List String)
  deriving DecidableEq

structure Param where
  label : Text
  payload : Payload
  deriving DecidableEq

structure Built where
  query_params : List Param
  where_clauses : List Text

structure Select where
  inputs : List String
  template : Text
  params : List Param

def int_text : Int → Text
  | .ofNat n => Nat.toDigits 10 n
  | .negSucc n => '-' :: Nat.toDigits 10 (n + 1)

def sql_literal (python : Python) : Value → Text
  | .none => "NULL".toList
  | .bool value => if value then "TRUE".toList else "FALSE".toList
  | .int value => int_text value
  | .float value => (python.str (.float value)).toList
  | .str value => '\'' :: replace_from ['\''] ['\'','\''] 0 value.toList ++ ['\'']
  | value => '\'' :: replace_from ['\''] ['\'','\''] 0 (python.str value).toList ++ ['\'']

-- ^[A-Za-z_][A-Za-z0-9_]*$
def is_identifier : Text → Bool
  | [] => false
  | c :: cs => (c.isAlpha || c = '_') && cs.all fun d => d.isAlphanum || d = '_'

def quote_identifier (letters : Letters) (ident : Text) : Text :=
  let stripped := strip_text ident
  if stripped = [] then stripped
  else if stripped.head? = some '"' ∧ stripped.getLast? = some '"' then stripped
  else if stripped.any letters.is_upper then '"' :: stripped ++ ['"']
  else if is_identifier stripped then stripped
  else '"' :: stripped ++ ['"']

-- A table and a column are quoted alike.
def quote_column_ref (letters : Letters) (column : String) : Text :=
  let parts := ((column.toList.splitOn '.').map strip_text).filter fun part => !part.isEmpty
  ['.'].intercalate (parts.map (quote_identifier letters))

def quote_table_ref (letters : Letters) (table : String) : Text := quote_column_ref letters table

def sql_param_label (column operator : String) : Text :=
  let cleaned := Regex.sub (.one fun c => !(c.isAlphanum || c = '_')) (fun _ => []) column.toList
  let clean_column := if cleaned = [] then "value".toList else cleaned
  let op := strip operator
  if op = ">" ∨ op = ">=" then clean_column ++ "Min".toList
  else if op = "<" ∨ op = "<=" then clean_column ++ "Max".toList
  else clean_column

-- `str.isdigit` and, for a text of digits, `int`.
def is_digits (letters : Letters) (text : String) : Bool := text ≠ "" && text.toList.all letters.is_digit

def read_int (letters : Letters) (text : String) : Except String Int :=
  match text.toList.mapM letters.decimal with
  | some digits => .ok (Int.ofNat (digits.foldl (fun n d => 10 * n + d) 0))
  | none => .error ("invalid literal for int() with base 10: '" ++ text ++ "'")

section
variable (letters : Letters) (python : Python) (known : Known)

-- The operation that a resolved value reads from, if it is taken for a reference.
def extra_input (resolved : Value) : Except String (List String) :=
  match resolved with
  | .str text =>
    if is_op_id text then .ok [text]
    else if starts REF_TOKEN_PREFIX text then (decode_ref_token text).map fun found => [found.1]
    else .ok []
  | _ => .ok []

def normalize_filter (filter : Filter) : Except String (Filter × List String) := do
  let resolved_val ← resolve_value letters known filter.value
  let extra_inputs ← extra_input resolved_val
  pure (⟨filter.column,filter.op,resolved_val⟩,extra_inputs)

-- The filters of one table, and the operations they read from.
def normalize_filters (filters : List Filter) : Except String (List Filter × List String) := do
  let rows ← filters.mapM (normalize_filter letters known)
  pure (rows.map Prod.fst,rows.flatMap Prod.snd)

def normalize_limit (value : Value) (node_name : String) : Except String (Limit × List String) :=
  let refused := "n8n postgres node '" ++ node_name ++ "' limit must be an integer"
  match value with
  | .none => .ok (.none,[])
  | .int n => .ok (.int n,[])
  | .str text => do
    let stripped := strip text
    if stripped = "" then .ok (.none,[])
    else
      let resolved ← resolve_value letters known (.str stripped)
      match resolved with
      | .str found =>
        if starts REF_TOKEN_PREFIX found then (decode_ref_token found).map fun pair => (.text found,[pair.1])
        else if is_digits letters found then (read_int letters found).map fun n => (.int n,[])
        else if is_digits letters stripped then (read_int letters stripped).map fun n => (.int n,[])
        else .error refused
      | _ => .error refused
  | _ => .error refused

-- The payload for a value that is taken for a reference. No node has an empty name.
def referenced (resolved : Value) : Except String (Option Payload) :=
  match resolved with
  | .str text =>
    if starts REF_TOKEN_PREFIX text then (decode_ref_token text).map fun found => some (.node found.1 found.2)
    else if is_op_id text then
      match (input_names_by_op_id known).get? text with
      | some input_name => .ok (some (.data ((known.inputs.get? input_name).getD [])))
      | none => (referenced_op_path ((op_type_by_id known).get? text).join none).map fun path => some (.node text path)
    else .ok none
  | _ => .ok none

def add_param (label : Text) (payload : Payload) (query_params : List Param) : List Param :=
  if label ∈ query_params.map Param.label then query_params else query_params ++ [⟨label,payload⟩]

def literal_text (value : Value) : Text :=
  match value with
  | .list items => '(' :: [',',' '].intercalate (items.map (sql_literal python)) ++ [')']
  | .tuple items => '(' :: [',',' '].intercalate (items.map (sql_literal python)) ++ [')']
  | value => sql_literal python value

-- One turn of the loop over the filters.
def filter_turn (built : Built) (filter : Filter) : Except String Built := do
  let clause_label := sql_param_label filter.column filter.op
  let front := quote_column_ref letters filter.column ++ ' ' :: filter.op.toList ++ [' ']
  match ← referenced known filter.value with
  | some payload =>
    pure ⟨add_param clause_label payload built.query_params,
      built.where_clauses ++ [front ++ '\'' :: Braces.slot clause_label ++ ['\'']]⟩
  | none => pure ⟨built.query_params,built.where_clauses ++ [front ++ literal_text python filter.value]⟩

-- The limit goes to the end of the query.
def add_limit (query : Text) (query_params : List Param) (limit : Limit) : Except String (Text × List Param) :=
  match limit with
  | .none => .ok (query,query_params)
  | .int n => .ok (query ++ " LIMIT ".toList ++ int_text n,query_params)
  | .text s => do
    match ← referenced known (.str s) with
    | some payload => pure (query ++ " LIMIT ".toList ++ Braces.slot "limit".toList,add_param "limit".toList payload query_params)
    | none => pure (query ++ " LIMIT ".toList ++ sql_literal python (.str s),query_params)

def build_sql_template_and_params (table : String) (filters : List Filter) (locked_columns : List String) (limit : Limit) :
    Except String (Text × List Param) := do
  let select_cols := if locked_columns = [] then ['*'] else [',',' '].intercalate (locked_columns.map (quote_column_ref letters))
  let query := "SELECT ".toList ++ select_cols ++ " FROM ".toList ++ quote_table_ref letters table
  let built ← filters.foldlM (filter_turn letters python known) ⟨[],[]⟩
  let query := query ++ (if built.where_clauses = [] then [] else " WHERE ".toList ++ " AND ".toList.intercalate built.where_clauses)
  add_limit python known query built.query_params limit

def lock_column (locked_columns : List String) (filter : Filter) : List String :=
  if filter.column ∈ locked_columns then locked_columns else locked_columns ++ [filter.column]

def param_node (param : Param) : Option String :=
  match param.payload with
  | .node node _ => some node
  | .data _ => none

-- What a postgres node that is no executeQuery is compiled to.
def make_postgres_select (node_name table : String) (output_columns main_inputs : List String) (filters : List Filter) (limit : Value) :
    Except String Select := do
  let (limit,limit_inputs) ← normalize_limit letters known limit node_name
  let (filters,extra_inputs) ← normalize_filters letters known filters
  let locked_columns := filters.foldl lock_column output_columns
  let (sql_template,sql_params) ← build_sql_template_and_params letters python known table filters locked_columns limit
  pure ⟨(extra_inputs ++ limit_inputs ++ sql_params.filterMap param_node ++ main_inputs).reverse.dedup.reverse,sql_template,sql_params⟩

end
end Lumilake.Parser.N8n

import Lumilake.Value

namespace Lumilake

-- `json.loads`, `json.dumps`, `int` on a text and `repr`.
structure Codec where
  loads : String → Option Value
  dumps : Value → String
  int : String → Option Int
  repr : Value → String

namespace Value

def is_list : Value → Bool
  | .list _ => true
  | _ => false

def is_mapping : Value → Bool
  | .dict _ => true
  | _ => false

end Value

-- `text.split(".")`
def split_dots (text : String) : List String := (text.toList.splitOn '.').map String.ofList

def digits (text : List Char) : Nat := text.foldl (fun n c => 10 * n + (c.toNat - '0'.toNat)) 0

def index_text (index : Nat) : String := "[" ++ toString index ++ "]"

section
variable (codec : Codec)

-- A part like choices[0] has an attribute and an index.
def split_walk_part (part : String) : Except String (String × Option Nat) :=
  if '[' ∉ part.toList then
    if part = "" then .error ("malformed output path part " ++ codec.repr (.str part)) else .ok (part,none)
  else if part.toList.getLast? ≠ some ']' then .error ("malformed output path part " ++ codec.repr (.str part))
  else
    let attr := part.toList.takeWhile (· ≠ '[')
    let suffix := ((part.toList.dropWhile (· ≠ '[')).drop 1).dropLast
    if suffix ≠ [] ∧ suffix.all Char.isDigit then .ok (String.ofList attr,some (digits suffix))
    else .error ("malformed output path index in " ++ codec.repr (.str part))

-- sorted(column, key=int), or the order of the keys where one is no number.
def row_order (column : Spec) : Spec :=
  if column.all fun e => (codec.int e.1).isSome then
    column.mergeSort fun a b => decide ((codec.int a.1).getD 0 ≤ (codec.int b.1).getD 0)
  else column

-- A column of a serialized DataFrame, in row order.
def select_dataframe_column (value : Value) (attr : String) : Option Value :=
  match value with
  | .dict [(key,.str text)] =>
      if key ≠ "df" then none
      else match codec.loads text with
        | some (.dict decoded) => match Value.get? decoded attr with
            | some (.dict column) => some (.list ((row_order codec column).map Prod.snd))
            | _ => none
        | _ => none
  | _ => none

def missing_field (output_op_id : String) (walked : List String) (item : Value) : String :=
  "output node " ++ output_op_id ++ " item missing field at path 'items." ++ ".".intercalate walked ++ "': " ++ codec.repr item

def missing_index (output_op_id : String) (walked : List String) (item : Value) : String :=
  "output node " ++ output_op_id ++ " item missing index at path 'items." ++ ".".intercalate walked ++ "': " ++ codec.repr item

def mapping_field (output_op_id attr : String) (walked : List String) (item value : Value) : Except String Value :=
  match select_dataframe_column codec value attr with
  | some column => .ok column
  | none => match value with
      | .dict entries => match Value.get? entries attr with
          | some found => .ok found
          | none => .error (missing_field codec output_op_id walked item)
      | _ => .error (missing_field codec output_op_id walked item)

def walk_field (output_op_id attr : String) (walked : List String) (item value : Value) : Except String Value :=
  match value with
  | .list items =>
      if items.all Value.is_mapping then do
        let fields ← items.mapM fun v => mapping_field codec output_op_id attr [attr] v v
        pure (.list fields)
      else mapping_field codec output_op_id attr walked item value
  | _ => mapping_field codec output_op_id attr walked item value

mutual
def walk_index (output_op_id : String) (index : Nat) (walked : List String) (item : Value) : Value → Except String Value
  | .list items =>
      if items.all Value.is_list then do
        let inner ← walk_index_items output_op_id index items
        pure (.list inner)
      else match items[index]? with
        | some found => .ok found
        | none => .error (missing_index codec output_op_id walked item)
  | _ => .error (missing_index codec output_op_id walked item)
def walk_index_items (output_op_id : String) (index : Nat) : List Value → Except String (List Value)
  | [] => .ok []
  | value :: rest => do
      let first ← walk_index output_op_id index [index_text index] value value
      let more ← walk_index_items output_op_id index rest
      pure (first :: more)
end

-- A text on the way is decoded; a list of mappings is walked item by item.
def walk_part (output_op_id : String) (item : Value) (walked : List String) (value : Value) (part : String) : Except String Value := do
  let decoded ← match value with
    | .str text => match codec.loads text with
        | some decoded => Except.ok decoded
        | none => .error ("output node " ++ output_op_id ++ " cannot descend into non-JSON string at path 'items." ++
            ".".intercalate walked ++ "': " ++ codec.repr value)
    | _ => .ok value
  let (attr,index) ← split_walk_part codec part
  let field ← if attr = "" then Except.ok decoded else walk_field codec output_op_id attr walked item decoded
  match index with
  | none => pure field
  | some index => walk_index codec output_op_id index walked item field

def walk_parts (output_op_id : String) (item : Value) : List String → Value → List String → Except String Value
  | _,value,[] => .ok value
  | walked,value,part :: parts => do
      let next ← walk_part codec output_op_id item (walked ++ [part]) value part
      walk_parts output_op_id item (walked ++ [part]) next parts

def walk_output_path (item : Value) (parts : List String) (output_op_id : String) : Except String Value :=
  walk_parts codec output_op_id item [] item parts

def coerce_output_value : Value → String
  | .str text => text
  | value => codec.dumps value

end

end Lumilake

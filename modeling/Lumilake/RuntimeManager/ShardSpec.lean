import Lumilake.RuntimeManager.ShardPlan
import Lumilake.Utils.Text

namespace Lumilake.RuntimeManager
open Cuts

-- The pieces of a shard: its interval, the total it is cut from, and its number.
structure Shard where
  raw_node_id : String
  shard_idx : Nat
  start : Nat
  stop : Nat
  total : Nat

def slice_items (s : Shard) (items : List Value) : Except String (List Value) :=
  if items.length = s.total then .ok (slice (s.start,s.stop) items)
  else if items.length ≠ 1 then
    .error (boundary s.raw_node_id ("static list length " ++ toString items.length ++
      " cannot be partitioned to total " ++ toString s.total))
  else .ok items

def has_text_type (entries : Spec) : Bool :=
  match Value.get? entries "type" with
  | some (.str _) => true
  | _ => false

def kept_items (static : Option (List Value)) (item : Value) : Value :=
  match static with
  | some items => .list items
  | none => item

def slice_static_items (s : Shard) (entries : Spec) : Except String (Option (List Value)) :=
  match static_items entries with
  | some items => (slice_items s items).map some
  | none => .ok none

-- In a typed mapping `items` is left as it stands, sliced when the mapping is a list.
mutual
def slice_static_lists (s : Shard) : Value → Except String Value
  | .dict entries => do
      let items ← slice_static_items s entries
      return .dict (← slice_entries s (has_text_type entries) items entries)
  | .list items => do return .list (← slice_values s items)
  | value => .ok value
def slice_values (s : Shard) : List Value → Except String (List Value)
  | [] => .ok []
  | item :: items => do
      let item' ← slice_static_lists s item
      return item' :: (← slice_values s items)
def slice_entries (s : Shard) (typed : Bool) (static : Option (List Value)) : Spec → Except String Spec
  | [] => .ok []
  | (key,item) :: entries =>
      (if key = "items" ∧ typed = true then .ok (kept_items static item) else slice_static_lists s item) >>= fun item' =>
        slice_entries s typed static entries >>= fun entries' => .ok ((key,item') :: entries')
end

-- node["node"] = shards[shard_idx]
def shard_reference (s : Shard) (shards : Workers) (ref_node : String) : Except String String :=
  match shards.get? ref_node with
  | none => .ok ref_node
  | some names =>
      match names[s.shard_idx]? with
      | some name => .ok name
      | none => .error (boundary s.raw_node_id ("shard index mismatch for dependency '" ++ ref_node ++ "'"))

def entry_reference (s : Shard) (shards : Workers) (key text : String) : Except String String :=
  if key = "node" then shard_reference s shards text else .ok text

mutual
def rewrite_shard_node_references (s : Shard) (shards : Workers) : Value → Except String Value
  | .dict entries => do return .dict (← rewrite_entry_references s shards entries)
  | .list items => do return .list (← rewrite_item_references s shards items)
  | value => .ok value
def rewrite_item_references (s : Shard) (shards : Workers) : List Value → Except String (List Value)
  | [] => .ok []
  | item :: items => do
      let item' ← rewrite_shard_node_references s shards item
      return item' :: (← rewrite_item_references s shards items)
def rewrite_entry_references (s : Shard) (shards : Workers) : Spec → Except String Spec
  | [] => .ok []
  | (key,.str text) :: entries => do
      let text' ← entry_reference s shards key text
      return (key,.str text') :: (← rewrite_entry_references s shards entries)
  | (key,item) :: entries => do
      let item' ← rewrite_shard_node_references s shards item
      return (key,item') :: (← rewrite_entry_references s shards entries)
end

-- A path is "items" and a suffix, below "value." or not.
def split_items (text : List Char) : Option (List Char × List Char) :=
  if "value.items".toList <+: text then some ("value.".toList,text.drop 11)
  else if "items".toList <+: text then some ([],text.drop 5)
  else none

def is_unindexed_items_path (path : String) : Bool :=
  match split_items (strip_text path.toList) with
  | some (_,suffix) => !decide ("[".toList <+: suffix)
  | none => false

def indexed_path (path : String) (idx : Nat) : String :=
  match split_items (strip_text path.toList) with
  | some (head,suffix) => String.ofList (head ++ "items[".toList ++ (toString idx).toList ++ ']' :: suffix)
  | none => path

-- The references that stand for a column of an unsharded dependency.
def inline_items (s : Shard) (dep_total : Option Nat) (dep_id path : String) : List Value :=
  (List.range' s.start (s.stop - s.start)).map fun source_idx =>
    .dict [("node",.str dep_id),("path",.str (indexed_path path (if dep_total = some 1 then 0 else source_idx)))]

-- The static total of a dependency read whole must be one.
def check_whole (node_map : NodeMap) (s : Shard) (ref_node : String) : Except String (Option Value) := do
  let dep_total ← dependency_static_total node_map s.raw_node_id ref_node
  if dep_total ≠ some 1 then
    .error (boundary s.raw_node_id ("dependency '" ++ ref_node ++ "' missing path for shard boundary rewrite"))
  else pure none

def rewrite_inline_slice (node_map : NodeMap) (s : Shard) (dep_id path : String) : Except String (Option Value) := do
  let dep_total ← dependency_static_total node_map s.raw_node_id dep_id
  if dep_total.all (fun total => total = 1 ∨ total = s.total) then
    pure (some (.dict [("type",.str "list"),("items",.list (inline_items s dep_total dep_id path))]))
  else .error (boundary s.raw_node_id ("dependency '" ++ dep_id ++ "' static cardinality " ++
    toString (dep_total.getD 0) ++ " does not match shard source cardinality " ++ toString s.total))

-- What a mapping's reference is replaced by: none when the mapping stays as it is.
def inline_column (node_map : NodeMap) (s : Shard) (shards : Workers) (entries : Spec) : Except String (Option Value) :=
  match Value.get? entries "node" with
  | some (.str ref_node) =>
      if ref_node ∈ shards ∨ ref_node ∉ node_map then .ok none
      else match Value.get? entries "path" with
        | some (.str path) =>
            if is_unindexed_items_path path then rewrite_inline_slice node_map s ref_node path else .ok none
        | some .none => check_whole node_map s ref_node
        | none => check_whole node_map s ref_node
        | some _ => .ok none
  | _ => .ok none

-- column["data"] = …, at the end unless the key is there.
def put_data (entries : Spec) (column : Option Value) : Spec :=
  match column with
  | some data => if "data" ∈ entries.map Prod.fst then entries else entries ++ [("data",data)]
  | none => entries

mutual
def inline_unsharded_dependency_slices (node_map : NodeMap) (s : Shard) (shards : Workers) : Value → Except String Value
  | .dict entries => do
      let column ← inline_column node_map s shards entries
      return .dict (put_data (← inline_entries node_map s shards column entries) column)
  | .list items => do return .list (← inline_values node_map s shards items)
  | value => .ok value
def inline_values (node_map : NodeMap) (s : Shard) (shards : Workers) : List Value → Except String (List Value)
  | [] => .ok []
  | item :: items => do
      let item' ← inline_unsharded_dependency_slices node_map s shards item
      return item' :: (← inline_values node_map s shards items)
def inline_entries (node_map : NodeMap) (s : Shard) (shards : Workers) (column : Option Value) :
    Spec → Except String Spec
  | [] => .ok []
  | (key,item) :: entries =>
      if column.isSome ∧ (key = "node" ∨ key = "path") then inline_entries node_map s shards column entries
      else (if column.isSome ∧ key = "data" then .ok (column.getD .none)
          else inline_unsharded_dependency_slices node_map s shards item) >>= fun item' =>
        inline_entries node_map s shards column entries >>= fun entries' => .ok ((key,item') :: entries')
end

def inline_mapping (node_map : NodeMap) (s : Shard) (shards : Workers) (entries : Spec) : Except String Spec := do
  let column ← inline_column node_map s shards entries
  return put_data (← inline_entries node_map s shards column entries) column

-- spec["data"] is sliced, then the whole spec is rewritten.
def rewrite_shard_spec (node_map : NodeMap) (s : Shard) (shards : Workers) (spec : Spec) : Except String Spec := do
  let data ← match Value.get? spec "data" with
    | some (.dict data) => slice_static_lists s (.dict data)
    | _ => .error ("Unsupported shard boundary for raw node '" ++ s.raw_node_id ++ "': spec.data is missing or invalid")
  let sliced := spec.map fun entry => if entry.1 = "data" then (entry.1,data) else entry
  let referenced ← rewrite_entry_references s shards sliced
  inline_mapping node_map s shards referenced

def shard_dependency (shards : Workers) (shard_idx : Nat) (dep : String) : Except String String :=
  match shards.get? dep with
  | none => .ok dep
  | some names =>
      match names[shard_idx]? with
      | some name => .ok name
      | none => .error ("Unsupported shard dependency rewrite for '" ++ dep ++ "': shard index out of range")

-- list(dict.fromkeys(rewritten))
def rewrite_shard_dependencies (shards : Workers) (shard_idx : Nat) (deps : List String) : Except String (List String) := do
  let rewritten ← deps.mapM (shard_dependency shards shard_idx)
  pure (rewritten.foldl (fun kept dep => if dep ∈ kept then kept else kept ++ [dep]) [])

end Lumilake.RuntimeManager

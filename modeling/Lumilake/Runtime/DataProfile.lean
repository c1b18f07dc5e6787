import Mathlib.Data.List.Sort
import Mathlib.Data.List.DropRight
import Mathlib.Algebra.BigOperators.Group.List.Basic
import Mathlib.Data.Rat.Floor
import Lumilake.RuntimeGraph
import Lumilake.Utils.FormatString
import Lumilake.Utils.Text

-- The S3 side of the data profile: the folders a batch needs, their listing, and the
-- estimates of one graph.
namespace Lumilake.DataProfile
open FormatString (Text Field FormatError)

inductive ProfileError where
  | template_empty
  | template_uri
  | template_not_file (normalized : Text)
  | path_required
  | path_is_folder
  | format (error : FormatError)
  | lists_missing (fields : List Text)
  | lists_empty
  | lists_uneven
  | dynamic_folder (fields : List Text)
  | folder_missing (graph_key node_id : String) (folder : Text) (org_id : String)
  | folder_empty (graph_key node_id : String) (folder : Text) (org_id : String)
  | folder_size_unavailable (graph_key node_id : String) (folder : Text) (org_id : String)
  | unknown_node (node_id : String)
  | template_required (node_id : String)
  | unresolved (graph_key node_id : String) (fields : List Text)
  | not_sql (graph_key node_id : String) (refs : List (Text × String × Option Value))
  | mixed_sources (graph_key node_id : String) (sql_nodes : List String) (input_driven : List Text)
  | many_sql_nodes (graph_key node_id : String) (sql_nodes : List String)
  | rows_missing (graph_key node_id sql_node_id : String)
  deriving DecidableEq

structure CostEstimate where
  plan_id : String
  description : Option String := none
  raw_cost : Rat
  estimated_rows : Option Int := none
  estimated_files : Option Int := none
  total_size_bytes : Option Int := none
  avg_file_size_bytes : Option Rat := none
  deriving DecidableEq

structure ResultRow where
  node_id : String
  raw_node_id : String
  query_name : String
  table : Text
  cost_estimates : List CostEstimate
  deriving DecidableEq

def lstrip_slash (text : Text) : Text := text.dropWhile (· == '/')

def rstrip_slash (text : Text) : Text := text.rdropWhile (· == '/')

def ends_with_slash (text : Text) : Bool := decide (text.getLast? = some '/')

-- `sorted` of a set of texts.
def sorted (texts : List Text) : List Text := texts.dedup.insertionSort (· ≤ ·)

def normalize_s3_template_path (template : Text) : Except ProfileError Text :=
  let cleaned := strip_text template
  if cleaned = [] then .error .template_empty
  else if "s3://".toList <+: cleaned then .error .template_uri
  else
    let normalized := lstrip_slash cleaned
    if ends_with_slash normalized then .error (.template_not_file normalized) else .ok normalized

def normalize_snapshot_s3_path (path : Text) : Except ProfileError Text :=
  let cleaned := strip_text path
  if cleaned = [] then .error .path_required
  else if ends_with_slash cleaned then .error .path_is_folder
  else .ok (lstrip_slash cleaned)

-- A set, in the order in which the names are met.
def extract_template_fields (template : Text) : Except ProfileError (List Text) :=
  match FormatString.parse template with
  | .ok pieces => .ok ((pieces.filterMap fun piece => piece.field.map Field.name).filter (fun name => decide (name ≠ []))).dedup
  | .error error => .error (.format error)

section
-- `str(value)` of a list item.
variable (str : Value → Text)

def collect_s3_param (found : Dict Text (List Text) × Dict Text String) : Value → Dict Text (List Text) × Dict Text String
  | .dict item => match Value.get? item "label" with
    | some (.str label) =>
      if label = "" then found
      else
        let node_ref := match Value.get? item "node" with
          | some (.str node_id) => if node_id = "" then found else (found.1,found.2.set label.toList node_id)
          | _ => found
        match Value.get? item "data" with
        | some (.dict data) =>
          if Value.get? data "type" = some (.str "list") then
            match Value.get? data "items" with
            | some (.list values) => if values = [] then found else (found.1.set label.toList (values.map str),found.2)
            | _ => found
          else node_ref
        | _ => node_ref
    | _ => found
  | _ => found

-- The literal lists and the node references of the parameters, by label.
def collect_s3_params (data_spec : Spec) : Dict Text (List Text) × Dict Text String :=
  match Value.get? data_spec "params" with
  | some (.list params) => params.foldl (collect_s3_param str) (Dict.empty,Dict.empty)
  | _ => (Dict.empty,Dict.empty)

end

def variants (literal_values : Dict Text (List Text)) (field : Text) : List Text := (literal_values.get? field).getD []

def template_list_length (template_fields : List Text) (literal_values : Dict Text (List Text)) : Except ProfileError Nat :=
  if template_fields = [] then .ok 1
  else
    let missing := sorted (template_fields.filter fun field => decide (field ∉ literal_values.keys))
    if missing ≠ [] then .error (.lists_missing missing)
    else
      let max_len := (template_fields.map fun field => (variants literal_values field).length).foldl max 0
      if max_len = 0 then .error .lists_empty
      else if template_fields.any (fun field => decide ((variants literal_values field).length ≠ 1 ∧
          (variants literal_values field).length ≠ max_len)) then .error .lists_uneven
      else .ok max_len

-- The text before the last slash of a path, with the slash.
def folder_prefix_for_path (path : Text) : Except ProfileError Text := do
  let normalized ← normalize_snapshot_s3_path path
  let folder := (normalized.rdropWhile (· != '/')).dropLast
  pure (if folder = [] then [] else folder ++ ['/'])

def normalize_s3_folder_prefix (path : Text) : Text :=
  let cleaned := lstrip_slash (strip_text path)
  if cleaned = [] then [] else rstrip_slash cleaned ++ ['/']

section
variable (render : Field → List (Text × Text) → Except FormatError Text)

def folder_at (folder_template : Text) (folder_fields : List Text) (literal_values : Dict Text (List Text)) (idx : Nat) :
    Except ProfileError Text :=
  let values := (sorted folder_fields).map fun field =>
    let variants := variants literal_values field
    (field,if 1 < variants.length then variants.getD idx [] else variants.getD 0 [])
  match FormatString.format render folder_template values with
  | .ok folder => .ok <| normalize_s3_folder_prefix folder
  | .error error => .error (.format error)

def resolve_folders_from_template (template_path : Text) (literal_values : Dict Text (List Text)) (node_fields : List Text) :
    Except ProfileError (List Text) := do
  let folder_template ← folder_prefix_for_path template_path
  let folder_fields ← extract_template_fields folder_template
  let dynamic_folder_fields := sorted (folder_fields.filter fun field => decide (field ∈ node_fields))
  if dynamic_folder_fields ≠ [] then .error (.dynamic_folder dynamic_folder_fields)
  else if folder_fields = [] then .ok [folder_template]
  else do
    let folder_count ← template_list_length folder_fields literal_values
    let folders ← (List.range folder_count).mapM (folder_at render folder_template folder_fields literal_values)
    pure (sorted folders)

end

-- A listing: the size of each file by its full key, and the folders that are known.
abbrev Listing := Dict Text (Option Int) × List Text

structure Samples where
  folder_samples : Dict Text (List Int)
  folder_entry_counts : Dict Text Nat
  known_folders : List Text

def add_sample (s : Samples) (entry : Text × Option Int) : Except ProfileError Samples := do
  let file_folder ← folder_prefix_for_path entry.1
  pure {
    known_folders := file_folder :: s.known_folders
    folder_entry_counts := match s.folder_entry_counts.get? file_folder with
      | some count => s.folder_entry_counts.set file_folder (count + 1)
      | none => s.folder_entry_counts
    folder_samples := match entry.2,s.folder_samples.get? file_folder with
      | some size_bytes,some sizes => s.folder_samples.set file_folder (sizes ++ [size_bytes])
      | _,_ => s.folder_samples }

def average (sizes : List Int) : Rat := (sizes.sum : Rat) / (sizes.length : Rat)

section
variable (str : Value → Text) (render : Field → List (Text × Text) → Except FormatError Text) (per_file per_mib : Rat)

end

-- The blob store: the size of each object by its key.
abbrev Store := Dict Text (Option Int)

-- `list_blobs`: the service answers with the objects whose key starts with the prefix.
def list_blobs (store : Store) (key_start : Text) : Dict Text (Option Int) :=
  let prefix_norm := rstrip_slash key_start
  (store.entries.filter fun obj => decide (key_start <+: obj.1)).foldl
    (fun sizes obj =>
      if obj.1 = [] then sizes
      else if prefix_norm ≠ [] then
        if prefix_norm ++ ['/'] <+: obj.1 then
          let rel := obj.1.drop (prefix_norm.length + 1)
          if rel = [] then sizes else sizes.set rel obj.2
        else sizes
      else sizes.set obj.1 obj.2) Dict.empty

-- The folders above a key.
def folders_above (full_key : Text) : List Text :=
  let parts := full_key.splitOn '/'
  (List.range' 1 (parts.length - 1)).map fun idx => List.intercalate ['/'] (parts.take idx) ++ ['/']

def strip_slash (folder : Text) : Text := rstrip_slash (lstrip_slash folder)

def full_key (norm rel : Text) : Text := if norm = [] then rel else norm ++ '/' :: rel

def add_blob (norm : Text) (found : Listing) (entry : Text × Option Int) : Listing :=
  if ends_with_slash entry.1 then found
  else (found.1.set (full_key norm entry.1) entry.2,found.2 ++ folders_above (full_key norm entry.1))

structure Listed where
  sizes : Dict Text (Option Int) := Dict.empty
  folder_paths : List Text := []
  seen : List Text := []

def list_folder (store : Store) (s : Listed) (folder : Text) : Listed :=
  let norm := strip_slash folder
  if norm ∈ s.seen then s
  else
    let listed_prefix := if norm = [] then [] else norm ++ ['/']
    let found := (list_blobs store listed_prefix).entries.foldl (add_blob norm) (s.sizes,s.folder_paths ++ [ listed_prefix])
    ⟨found.1,found.2,norm :: s.seen⟩

end Lumilake.DataProfile

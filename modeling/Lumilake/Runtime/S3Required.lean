import Mathlib.Data.List.Dedup
import Lumilake.Runtime.S3Listing

-- The folders that a batch names are those that are listed for it.
namespace Lumilake.DataProfile
open FormatString (Text Field FormatError)

section
variable {str : Value → Text} {render : Field → List (Text × Text) → Except FormatError Text}

-- A node of a graph that retrieves from the blob store.
structure S3Node (graph : RuntimeGraph) (node_id : String) (op : RuntimeOp) : Prop where
  node : graph.nodes.get? node_id = some op
  s3 : Value.get? op.data_spec "type" = some (.str "s3")

section
variable (str) (render)

-- The folders that the template of a node resolves to, none when it does not.
def folders_named (data_spec : Spec) : List Text :=
  match Value.get? data_spec "template" with
  | some (.str template) => (do
      let template_path ← normalize_s3_template_path template.toList
      let template_fields ← extract_template_fields template_path
      resolve_folders_from_template render template_path (collect_s3_params str data_spec).1
        (template_fields.filter fun field => decide (field ∈ (collect_s3_params str data_spec).2.keys))).toOption.getD []
  | _ => []

-- A graph asks for a folder when one of its nodes names it, and a batch for those of its graphs.
def Asks (graph : RuntimeGraph) (F : Text) : Prop :=
  ∃ node_id ∈ graph.node_order, ∃ op, S3Node graph node_id op ∧ F ∈ folders_named str render op.data_spec

def Named (graphs : Dict String RuntimeGraph) (F : Text) : Prop := ∃ e ∈ graphs.entries, Asks str render e.2 F

-- A key that some folder of the batch lists.
def Seen (graphs : Dict String RuntimeGraph) (key : Text) : Prop := ∃ F, Named str render graphs F ∧ Under F key

end

end

end Lumilake.DataProfile

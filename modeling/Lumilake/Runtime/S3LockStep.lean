import Mathlib.Algebra.Order.BigOperators.Group.List
import Lumilake.Runtime.S3Averages
import Lumilake.Runtime.S3Required

-- The estimates from the required listings are those from the whole store.
namespace Lumilake.DataProfile
open FormatString (Text Field FormatError)

section
variable {str : Value → Text} {render : Field → List (Text × Text) → Except FormatError Text} {per_file per_mib : Rat}

-- A file of the store of known size that is read as one of a folder.
def Sized (store : Store) (F key : Text) : Prop :=
  (∃ size, store.get? key = some (some size)) ∧ Visible key ∧ folder_prefix_for_path key = .ok F

-- The same files, and the same ones of known size.
def SameFiles (store sized : Store) : Prop := ∀ key, (sized.get? key).map Option.isSome = (store.get? key).map Option.isSome

section
variable (str) (render)

end

theorem SameFiles.sized {store sized : Store} (same : SameFiles store sized) {F key : Text} :
    Sized sized F key ↔ Sized store F key := by
  have known : (∃ size, sized.get? key = some (some size)) ↔ ∃ size, store.get? key = some (some size) := by
    have here := same key
    cases left : sized.get? key <;> cases right : store.get? key <;> simp [left,right] at here ⊢
    rename_i one other
    cases one <;> cases other <;> simp at here ⊢
  rw [Sized,Sized,known]

variable {graphs : Dict String RuntimeGraph} {graph : RuntimeGraph} {graph_key org_id : String} {projected_sql : Results}

end

-- A store whose file keys have no leading slash and no white space at either end.
def Plain (store : Store) : Prop := ∀ key ∈ store.keys, Visible key →
  (∀ c, key.head? = some c → is_space c = false ∧ c ≠ '/') ∧ ∀ c, key.getLast? = some c → is_space c = false

def retrieval (template : String) : RuntimeGraph where
  nodes := ⟨[("n",{
    node_id := "n"
    task_type := "data_retrieval"
    backend := "lumid"
    model := ""
    data_spec := [("type",.str "s3"),("template",.str template)]
    model_spec := []
    inference_spec := [] })],List.nodup_singleton _⟩
  node_order := ["n"]
  output_node_map := Dict.empty

end Lumilake.DataProfile

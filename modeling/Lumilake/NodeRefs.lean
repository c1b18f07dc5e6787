import Lumilake.Value
import Lumilake.Library.Dict
import Lumilake.Library.Placeholder

namespace Lumilake
open Placeholder

-- mapping.get(id, id)
def mapped (mapping : Dict String String) (id : String) : String := (mapping.get? id).getD id

def remap_name (mapping : Dict String String) (name : List Char) : List Char :=
  match mapping.get? (String.ofList name) with
  | some remapped => remapped.toList
  | none => name

def remap_placeholder (text : String) (mapping : Dict String String) : String :=
  String.ofList (render ((scan text.toList).map (Piece.rename (remap_name mapping))))

-- Both walks over a spec that rename nodes: a text under the key node is looked up in
-- mapping, a placeholder in any other text in rewritable.
mutual
def remap_value (mapping rewritable : Dict String String) : Value → Value
  | .str s => .str (remap_placeholder s rewritable)
  | .list items => .list (remap_items mapping rewritable items)
  | .tuple items => .tuple (remap_items mapping rewritable items)
  | .dict entries => .dict (remap_entries mapping rewritable entries)
  | value => value
def remap_items (mapping rewritable : Dict String String) : List Value → List Value
  | [] => []
  | item :: items => remap_value mapping rewritable item :: remap_items mapping rewritable items
def remap_entries (mapping rewritable : Dict String String) : Spec → Spec
  | [] => []
  | (key,.str s) :: entries =>
      (key,.str (if key = "node" ∧ s ∈ mapping then mapped mapping s else remap_placeholder s rewritable)) ::
        remap_entries mapping rewritable entries
  | (key,item) :: entries => (key,remap_value mapping rewritable item) :: remap_entries mapping rewritable entries
end

end Lumilake

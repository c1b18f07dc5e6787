import Lumilake.Optimizer.PrefixMerge

namespace Lumilake
open Placeholder

-- The texts of a spec in order. The flag marks a text that stands under the key node.
mutual
def texts : Value → List (Bool × String)
  | .str s => [(false,s)]
  | .list items => texts_items items
  | .tuple items => texts_items items
  | .dict entries => texts_entries entries
  | _ => []
def texts_items : List Value → List (Bool × String)
  | [] => []
  | item :: items => texts item ++ texts_items items
def texts_entries : Spec → List (Bool × String)
  | [] => []
  | (key,.str s) :: entries => (decide (key = "node"),s) :: texts_entries entries
  | (_,item) :: entries => texts item ++ texts_entries entries
end

def op_texts (op : RuntimeOp) : List (Bool × String) :=
  texts_entries op.data_spec ++ texts_entries op.model_spec ++ texts_entries op.inference_spec ++
    texts_entries op.api_spec ++ (op.output_spec.map texts_entries).getD [] ++ (op.condition.map texts_entries).getD []

def remap_text (mapping rewritable : Dict String String) (t : Bool × String) : Bool × String :=
  (t.1,if t.1 = true ∧ t.2 ∈ mapping then mapped mapping t.2 else remap_placeholder t.2 rewritable)

section
variable (mapping rewritable : Dict String String)

-- Both walks rename text by text.
mutual
theorem texts_remap : (value : Value) →
    texts (remap_value mapping rewritable value) = (texts value).map (remap_text mapping rewritable)
  | .none => rfl
  | .bool _ => rfl
  | .int _ => rfl
  | .float _ => rfl
  | .str s => by simp [remap_value,texts,remap_text]
  | .list items => texts_items_remap items
  | .tuple items => texts_items_remap items
  | .dict entries => texts_entries_remap entries
theorem texts_items_remap : (items : List Value) →
    texts_items (remap_items mapping rewritable items) = (texts_items items).map (remap_text mapping rewritable)
  | [] => rfl
  | item :: items => by
    simp only [remap_items,texts_items,List.map_append,texts_remap item,texts_items_remap items]
theorem texts_entries_remap : (entries : Spec) →
    texts_entries (remap_entries mapping rewritable entries) = (texts_entries entries).map (remap_text mapping rewritable)
  | [] => rfl
  | (key,item) :: entries => by
    have rest := texts_entries_remap entries
    cases item with
    | str s => simp [remap_entries,texts_entries,rest,remap_text]
    | _ =>
        refine (congrArg₂ (· ++ ·) (texts_remap _) rest).trans ?_
        rw [← List.map_append]
        rfl
end

theorem optional_texts_remap (spec : Option Spec) :
    ((spec.map (remap_entries mapping rewritable)).map texts_entries).getD [] =
      ((spec.map texts_entries).getD []).map (remap_text mapping rewritable) := by
  cases spec with
  | none => rfl
  | some entries => exact texts_entries_remap mapping rewritable entries

end

theorem op_texts_prefixed (mapping : Dict String String) (new_id : String) (op : RuntimeOp) :
    op_texts (RuntimeGraph.prefix_op mapping new_id op) =
      (op_texts op).map (remap_text mapping (RuntimeGraph.rewritable mapping op)) := by
  simp only [op_texts,RuntimeGraph.prefix_op,texts_entries_remap,optional_texts_remap,List.map_append]

theorem op_texts_remap (mapping : Dict String String) (canonical : String) (op : RuntimeOp) :
    op_texts (Optimizer.remap_op canonical op mapping) = (op_texts op).map (remap_text mapping mapping) := by
  simp only [op_texts,Optimizer.remap_op,Optimizer.remap_node_spec,texts_entries_remap,optional_texts_remap,
    List.map_append]

-- The references ${name.path} of a text.
def placeholders (text : String) : List (String × String) :=
  (scan text.toList).filterMap fun piece => match piece with
    | .ref name path => some (String.ofList name,String.ofList path)
    | .char _ => none

theorem mem_placeholders {text name path : String} (member : (name,path) ∈ placeholders text) :
    Piece.ref name.toList path.toList ∈ scan text.toList := by
  obtain ⟨piece,inside,same⟩ := List.mem_filterMap.mp member
  cases piece with
  | char c => cases same
  | ref n p =>
      simp only [Option.some.injEq,Prod.mk.injEq] at same
      rw [← same.1,← same.2,String.toList_ofList,String.toList_ofList]
      exact inside

theorem placeholder_plain {text name path : String} (member : (name,path) ∈ placeholders text) : Plain name.toList :=
  (scan_wellformed _ _ (mem_placeholders member)).1

theorem remap_name_toList (mapping : Dict String String) (name : List Char) :
    String.ofList (remap_name mapping name) = mapped mapping (String.ofList name) := by
  unfold remap_name mapped
  cases mapping.get? (String.ofList name) with
  | none => rfl
  | some c => exact String.ofList_toList

-- Where the new names can be read, a renamed text has the references it had, renamed.
theorem placeholders_remap {mapping : Dict String String} {text : String}
    (plain : ∀ name path, (name,path) ∈ placeholders text → Plain (mapped mapping name).toList) :
    placeholders (remap_placeholder text mapping) = (placeholders text).map fun r => (mapped mapping r.1,r.2) := by
  have keeps : ∀ name path, Piece.ref name path ∈ scan text.toList → Plain (remap_name mapping name) := by
    intro name path member
    have here := plain (String.ofList name) (String.ofList path) (List.mem_filterMap.mpr ⟨_,member,rfl⟩)
    rwa [← remap_name_toList,String.toList_ofList] at here
  unfold placeholders
  rw [remap_placeholder,String.toList_ofList,scan_rename_names keeps,List.filterMap_map,List.map_filterMap]
  refine List.filterMap_congr fun piece _ => ?_
  cases piece with
  | char c => rfl
  | ref name path => simp [Piece.rename,remap_name_toList]

theorem remap_identity {mapping : Dict String String} (identity : ∀ id, mapped mapping id = id) (text : String) :
    remap_placeholder text mapping = text := by
  have same : (scan text.toList).map (Piece.rename (remap_name mapping)) = scan text.toList := by
    refine (List.map_congr_left fun piece _ => ?_).trans (List.map_id _)
    cases piece with
    | char c => rfl
    | ref name path =>
        have here : remap_name mapping name = name := by
          rw [← String.toList_ofList (l := remap_name mapping name),remap_name_toList,identity,String.toList_ofList]
        simp only [Piece.rename,here,id]
  rw [remap_placeholder,same,render_scan,String.ofList_toList]

theorem remap_text_identity {mapping : Dict String String} (identity : ∀ id, mapped mapping id = id) (t : Bool × String) :
    remap_text mapping mapping t = t := by
  unfold remap_text
  rw [identity,remap_identity identity,ite_self]

-- A loop that copies the entries of some keys.
theorem copied_get {mapping : Dict String String} {turn : Dict String String → String → Dict String String}
    (copies : ∀ found dep, turn found dep = (mapping.get? dep).elim found (found.set dep)) (deps : List String)
    (found : Dict String String) (x : String) :
    (deps.foldl turn found).get? x = if x ∈ deps ∧ x ∈ mapping.keys then mapping.get? x else found.get? x := by
  induction deps generalizing found with
  | nil => simp
  | cons dep rest ih =>
      rw [List.foldl_cons,ih,copies]
      cases known : mapping.get? dep with
      | none =>
          have other : x ∈ mapping.keys → x ≠ dep := by
            rintro member rfl
            exact Dict.get?_eq_none.mp known member
          by_cases member : x ∈ mapping.keys
          · simp [member,other member]
          · simp [member]
      | some renamed =>
          rw [Option.elim_some]
          by_cases same : x = dep
          · subst same
            have member : x ∈ mapping.keys := Dict.mem_keys_iff.mpr ⟨renamed,known⟩
            rw [Dict.get?_set_self,known]
            simp [member]
          · rw [Dict.get?_set_ne _ _ same]
            simp [same]

theorem rewritable_get (mapping : Dict String String) (op : RuntimeOp) (x : String) :
    (RuntimeGraph.rewritable mapping op).get? x = if x ∈ op.dependencies then mapping.get? x else none := by
  unfold RuntimeGraph.rewritable
  rw [copied_get fun found dep => by cases mapping.get? dep <;> rfl]
  by_cases member : x ∈ mapping.keys
  · simp [member]
  · simp [member,Dict.get?_eq_none.mpr member]

end Lumilake

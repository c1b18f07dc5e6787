import Lumilake.Optimizer.Task

namespace Lumilake.Optimizer
open Placeholder
variable {V : Type}

-- Reading the same values under other names: what a spec means once its references were remapped.
structure Redirect (mapping : Dict String String) (env env' : String → Option V) : Prop where
  moved : ∀ x c, mapping.get? x = some c → ∃ value, env x = some value ∧ env' c = some value
  outside : ∀ x, mapping.get? x = none → env' x = env x
  plain : ∀ x c, mapping.get? x = some c → Plain x.toList ∧ Plain c.toList
  named : ∀ y value, env' y = some value → Plain y.toList

variable {mapping : Dict String String} {env env' : String → Option V}

theorem scan_remap (redirect : Redirect mapping env env') (text : String) :
    scan (remap_placeholder text mapping).toList = (scan text.toList).map (Piece.rename (remap_name mapping)) := by
  rw [remap_placeholder,String.toList_ofList]
  apply scan_rename
  intro name plain
  unfold remap_name
  split
  · rename_i c found; exact (redirect.plain _ c found).2
  · exact plain

theorem redirect_name (redirect : Redirect mapping env env') (name : List Char) :
    env' (String.ofList (remap_name mapping name)) = env (String.ofList name) := by
  unfold remap_name
  split
  · rename_i c found
    obtain ⟨value,before,after⟩ := redirect.moved _ c found
    rw [String.ofList_toList,before,after]
  · rename_i missing
    exact redirect.outside _ missing

theorem remap_unnamed (redirect : Redirect mapping env env') {name : List Char} (absent : env (String.ofList name) = none) :
    remap_name mapping name = name := by
  unfold remap_name
  split
  · rename_i c found
    obtain ⟨value,before,_⟩ := redirect.moved _ c found
    rw [absent] at before
    cases before
  · rfl

theorem marks_remap (redirect : Redirect mapping env env') (text : String) :
    marks env' (remap_placeholder text mapping) = marks env text := by
  unfold marks
  rw [scan_remap redirect,List.flatMap_map]
  congr 1
  funext piece
  cases piece with
  | char c => rfl
  | ref name path =>
      simp only [Piece.rename,mark,redirect_name redirect]
      cases absent : env (String.ofList name) with
      | none => rw [remap_unnamed redirect absent]
      | some value => rfl

theorem node_free_remap (redirect : Redirect mapping env env') (text : String) :
    node_free env' (remap_placeholder text mapping) = node_free env text := by
  unfold node_free
  rw [scan_remap redirect,List.all_map]
  congr 1
  funext piece
  cases piece with
  | char c => rfl
  | ref name path => simp [Piece.rename,redirect_name redirect]

theorem remap_free (redirect : Redirect mapping env env') {text : String} (free : node_free env text = true) :
    remap_placeholder text mapping = text := by
  have same : (scan text.toList).map (Piece.rename (remap_name mapping)) = scan text.toList := by
    refine (List.map_congr_left fun piece member => ?_).trans (List.map_id _)
    have here := List.all_eq_true.mp free piece member
    cases piece with
    | char c => rfl
    | ref name path =>
        simp only [Piece.rename,id]
        rw [remap_unnamed redirect (Option.isNone_iff_eq_none.mp here)]
  rw [remap_placeholder,same,render_scan,String.ofList_toList]

-- A text without braces has no reference in it.
theorem remap_braceless {text : String} (plain : Plain text.toList) : remap_placeholder text mapping = text := by
  have same : (scan text.toList).map (Piece.rename (remap_name mapping)) = scan text.toList := by
    refine (List.map_congr_left fun piece member => ?_).trans (List.map_id _)
    cases piece with
    | char c => rfl
    | ref name path =>
        exfalso
        apply plain.no_brace
        rw [← render_scan text.toList,render]
        exact List.mem_flatMap.mpr ⟨_,member,by simp [Piece.text]⟩
  rw [remap_placeholder,same,render_scan,String.ofList_toList]

-- A text with a reference in it is not a node's id.
theorem remap_not_named (redirect : Redirect mapping env env') {text : String} (taken : node_free env text = false) :
    env' (remap_placeholder text mapping) = none := by
  cases found : env' (remap_placeholder text mapping) with
  | none => rfl
  | some value =>
      have plain := redirect.named _ _ found
      have free : node_free env' (remap_placeholder text mapping) = true := by
        refine List.all_eq_true.mpr fun piece member => ?_
        cases piece with
        | char c => rfl
        | ref name path =>
            exfalso
            apply plain.no_brace
            rw [← render_scan (remap_placeholder text mapping).toList,render]
            exact List.mem_flatMap.mpr ⟨_,member,by simp [Piece.text]⟩
      rw [node_free_remap redirect,taken] at free
      cases free

variable {labels : List String}

theorem mem_labels_remap (redirect : Redirect mapping env env') (free : ∀ label ∈ labels, node_free env label = true)
    (text : String) : remap_placeholder text mapping ∈ labels ↔ text ∈ labels ∧ remap_placeholder text mapping = text := by
  constructor
  · intro member
    have here := free _ member
    have still : node_free env' (remap_placeholder text mapping) = true := by
      have same := node_free_remap redirect (remap_placeholder text mapping)
      rw [remap_free redirect here,here] at same
      exact same
    have same : remap_placeholder text mapping = text := remap_free redirect (by rw [← node_free_remap redirect]; exact still)
    rw [same] at member
    exact ⟨member,same⟩
  · intro h
    rw [h.2]; exact h.1

theorem write_text_remap (redirect : Redirect mapping env env') (free : ∀ label ∈ labels, node_free env label = true)
    (place : Place) (text : String) :
    write_text labels env' place (remap_placeholder text mapping) = write_text labels env place text := by
  have same := marks_remap redirect text
  have named : ∀ here : Config V,
      (if remap_placeholder text mapping ∈ labels then .column (labels.idxOf (remap_placeholder text mapping)) else here) =
        if text ∈ labels then .column (labels.idxOf text) else here := by
    intro here
    by_cases label : text ∈ labels
    · rw [remap_free redirect (free text label)]
    · have other : remap_placeholder text mapping ∉ labels := fun member =>
        label ((mem_labels_remap redirect free text).mp member).1
      rw [if_neg label,if_neg other]
  cases place with
  | content =>
      simp only [write_text,same]
      exact named _
  | name =>
      simp only [write_text,same]
      exact named _
  | argument =>
      simp only [write_text,same]
      exact named _
  | _ => simp only [write_text,same]

theorem write_entry_remap (redirect : Redirect mapping env env') (free : ∀ label ∈ labels, node_free env label = true)
    (place : Place) (key text : String) :
    write_entry labels env' place key (if key = "node" ∧ text ∈ mapping then mapped mapping text else remap_placeholder text mapping) =
      write_entry labels env place key text := by
  have inner := write_text_remap redirect free (place.under key) text
  by_cases node : key = "node"
  · subst node
    simp only [write_entry,if_true,true_and]
    cases found : mapping.get? text with
    | some c =>
        obtain ⟨value,before,after⟩ := redirect.moved _ c found
        have present : text ∈ mapping := Dict.mem_keys_iff.mpr ⟨c,found⟩
        simp only [if_pos present,mapped,found,Option.getD_some,before,after]
    | none =>
        have absent : text ∉ mapping := Dict.get?_eq_none.mp found
        have after := redirect.outside _ found
        rw [if_neg absent]
        have settled : env' (remap_placeholder text mapping) = env text := by
          cases free_text : node_free env text with
          | true => rw [remap_free redirect free_text,after]
          | false =>
              rw [remap_not_named redirect free_text]
              cases known : env text with
              | none => rfl
              | some value =>
                  have same : remap_placeholder text mapping = text := remap_braceless (redirect.named text value (after.trans known))
                  have silent := remap_not_named redirect free_text
                  rw [same,after,known] at silent
                  cases silent
        rw [settled]
        cases env text with
        | none => exact inner
        | some value => rfl
  · have kept : ¬(key = "node" ∧ text ∈ mapping) := fun h => node h.1
    rw [if_neg kept]
    unfold write_entry
    rw [if_neg node,if_neg node,inner]
    by_cases label : text ∈ labels
    · rw [remap_free redirect (free text label)]
    · have other : remap_placeholder text mapping ∉ labels := fun member =>
        label ((mem_labels_remap redirect free text).mp member).1
      rw [if_neg fun h => other h.2.1,if_neg fun h => label h.2.1]

mutual
theorem write_remap (redirect : Redirect mapping env env') (free : ∀ label ∈ labels, node_free env label = true)
    (place : Place) : (value : Value) → write labels env' place (remap_value mapping mapping value) = write labels env place value
  | .none => rfl
  | .bool _ => rfl
  | .int _ => rfl
  | .float _ => rfl
  | .str s => by simp only [remap_value,write]; exact write_text_remap redirect free place s
  | .list items => by simp only [remap_value,write,write_items_remap redirect free place items]
  | .tuple items => by simp only [remap_value,write,write_items_remap redirect free place items]
  | .dict entries => by simp only [remap_value,write,write_entries_remap redirect free place entries]
theorem write_items_remap (redirect : Redirect mapping env env') (free : ∀ label ∈ labels, node_free env label = true)
    (place : Place) : (items : List Value) →
    write_items labels env' place (remap_items mapping mapping items) = write_items labels env place items
  | [] => rfl
  | item :: items => by
    simp only [remap_items,write_items,write_remap redirect free place item,write_items_remap redirect free place items]
theorem write_entries_remap (redirect : Redirect mapping env env') (free : ∀ label ∈ labels, node_free env label = true)
    (place : Place) : (entries : Spec) →
    write_entries labels env' place (remap_entries mapping mapping entries) = write_entries labels env place entries
  | [] => rfl
  | (key,item) :: entries => by
    have rest := write_entries_remap redirect free place entries
    cases item with
    | str s => simp only [remap_entries,write_entries,write_entry_remap redirect free place key s,rest]
    | _ =>
        exact List.cons_eq_cons.mpr ⟨congrArg (Prod.mk key) (write_remap redirect free (place.under key) _),rest⟩
end

mutual
theorem labels_of_remap (redirect : Redirect mapping env env') (place : Place) :
    (value : Value) → labels_of env' place (remap_value mapping mapping value) = labels_of env place value
  | .none => rfl
  | .bool _ => rfl
  | .int _ => rfl
  | .float _ => rfl
  | .str _ => rfl
  | .list items => labels_of_items_remap redirect place items
  | .tuple items => labels_of_items_remap redirect place items
  | .dict entries => labels_of_entries_remap redirect place entries
theorem labels_of_items_remap (redirect : Redirect mapping env env') (place : Place) :
    (items : List Value) → labels_of_items env' place (remap_items mapping mapping items) = labels_of_items env place items
  | [] => rfl
  | item :: items => by
    simp only [remap_items,labels_of_items,labels_of_remap redirect place item,labels_of_items_remap redirect place items]
theorem labels_of_entries_remap (redirect : Redirect mapping env env') (place : Place) :
    (entries : Spec) → labels_of_entries env' place (remap_entries mapping mapping entries) = labels_of_entries env place entries
  | [] => rfl
  | (key,item) :: entries => by
    have rest := labels_of_entries_remap redirect place entries
    cases item with
    | str s =>
        simp only [remap_entries,labels_of_entries,rest]
        congr 1
        by_cases label : key = "label"
        · subst label
          rw [if_neg (c := "label" = "node" ∧ s ∈ mapping) (by simp),node_free_remap redirect]
          by_cases free : node_free env s = true
          · rw [remap_free redirect free]
          · simp [free]
        · simp [label]
    | _ => exact congrArg₂ (· ++ ·) (labels_of_remap redirect (place.under key) _) rest
end

mutual
theorem labels_of_free (place : Place) : (value : Value) → ∀ label ∈ labels_of env place value, node_free env label = true
  | .none => by simp [labels_of]
  | .bool _ => by simp [labels_of]
  | .int _ => by simp [labels_of]
  | .float _ => by simp [labels_of]
  | .str _ => by simp [labels_of]
  | .list items => labels_of_items_free place items
  | .tuple items => labels_of_items_free place items
  | .dict entries => labels_of_entries_free place entries
theorem labels_of_items_free (place : Place) : (items : List Value) →
    ∀ label ∈ labels_of_items env place items, node_free env label = true
  | [] => by simp [labels_of_items]
  | item :: items => by
    intro label member
    rcases List.mem_append.mp member with here | later
    · exact labels_of_free place item label here
    · exact labels_of_items_free place items label later
theorem labels_of_entries_free (place : Place) : (entries : Spec) →
    ∀ label ∈ labels_of_entries env place entries, node_free env label = true
  | [] => by simp [labels_of_entries]
  | (key,item) :: entries => by
    have rest := labels_of_entries_free place entries
    cases item with
    | str s =>
        intro label member
        rcases List.mem_append.mp member with here | later
        · split at here
          · rename_i h
            rw [List.mem_singleton.mp here]
            exact h.2.2
          · cases here
        · exact rest label later
    | _ =>
        intro label member
        rcases List.mem_append.mp member with here | later
        · exact labels_of_free (place.under key) _ label here
        · exact rest label later
end

def remap_entry (mapping : Dict String String) (key : String) : Value → Value
  | .str s => .str (if key = "node" ∧ s ∈ mapping then mapped mapping s else remap_placeholder s mapping)
  | item => remap_value mapping mapping item

theorem remap_entries_map (mapping : Dict String String) (entries : Spec) :
    remap_entries mapping mapping entries = entries.map fun e => (e.1,remap_entry mapping e.1 e.2) := by
  induction entries with
  | nil => rfl
  | cons entry entries ih =>
      obtain ⟨key,item⟩ := entry
      rw [List.map_cons,← ih]
      cases item <;> rfl

theorem remap_sorted (mapping : Dict String String) (entries : Spec) :
    (remap_entries mapping mapping entries).insertionSort (fun a b => a.1 ≤ b.1) =
      remap_entries mapping mapping (entries.insertionSort fun a b => a.1 ≤ b.1) := by
  rw [remap_entries_map,remap_entries_map]
  exact (List.map_insertionSort (fun a b : String × Value => a.1 ≤ b.1) (fun a b : String × Value => a.1 ≤ b.1)
    (fun e => (e.1,remap_entry mapping e.1 e.2)) entries fun _ _ _ _ => Iff.rfl).symm

mutual
theorem stable_remap (mapping : Dict String String) :
    (value : Value) → stable_json (remap_value mapping mapping value) = remap_value mapping mapping (stable_json value)
  | .none => rfl
  | .bool _ => rfl
  | .int _ => rfl
  | .float _ => rfl
  | .str _ => rfl
  | .list items => by simp only [remap_value,stable_json,stable_items_remap mapping items]
  | .tuple items => by simp only [remap_value,stable_json,stable_items_remap mapping items]
  | .dict entries => by simp only [remap_value,stable_json,stable_entries_remap mapping entries,remap_sorted]
theorem stable_items_remap (mapping : Dict String String) :
    (items : List Value) → stable_items (remap_items mapping mapping items) = remap_items mapping mapping (stable_items items)
  | [] => rfl
  | item :: items => by simp only [remap_items,stable_items,stable_remap mapping item,stable_items_remap mapping items]
theorem stable_entries_remap (mapping : Dict String String) :
    (entries : Spec) → stable_entries (remap_entries mapping mapping entries) = remap_entries mapping mapping (stable_entries entries)
  | [] => rfl
  | (key,item) :: entries => by
    have rest := stable_entries_remap mapping entries
    cases item with
    | str s => simp only [remap_entries,stable_entries,stable_json,rest]
    | _ => exact List.cons_eq_cons.mpr ⟨congrArg (Prod.mk key) (stable_remap mapping _),rest⟩
end

theorem op_specs_remap (mapping : Dict String String) (canonical : String) (op : RuntimeOp) :
    op_specs (remap_op canonical op mapping) = remap_items mapping mapping (op_specs op) := by
  have spec : ∀ entries : Spec, stable_json (.dict (remap_node_spec entries mapping)) =
      remap_value mapping mapping (stable_json (.dict entries)) := fun entries => stable_remap mapping (.dict entries)
  cases output : op.output_spec with
  | none => simp [op_specs,remap_op,spec,output,remap_items,remap_value]
  | some entries => simp [op_specs,remap_op,spec,output,remap_items]

theorem mem_dedupe_ordered {items : List String} : x ∈ dedupe_ordered items ↔ x ∈ items := by
  have step : ∀ ordered : List String,
      x ∈ items.foldl (fun ordered item => if item ∈ ordered then ordered else ordered ++ [item]) ordered ↔
        x ∈ ordered ∨ x ∈ items := by
    induction items with
    | nil => simp
    | cons item items ih =>
        intro ordered
        rw [List.foldl_cons,ih]
        split
        · rename_i known
          constructor
          · intro h
            rcases h with old | later
            · exact .inl old
            · exact .inr (List.mem_cons_of_mem _ later)
          · intro h
            rcases h with old | new
            · exact .inl old
            · rcases List.mem_cons.mp new with rfl | later
              · exact .inl known
              · exact .inr later
        · simp [or_assoc]
  exact (step []).trans (by simp)

end Lumilake.Optimizer

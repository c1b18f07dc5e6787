import Lumilake.Library.Ragged
import Lumilake.Runtime.PythonStep

namespace Lumilake.PythonStep
open Fallible Ragged

-- The results.json of a model task and of a python task.
def infer_result (results : List Value) : Value :=
  .dict [("result",.dict [("items",.list (results.map fun result => .dict [("output",result)]))])]

def python_result (returned : Value) : Value := .dict [("result",.dict [("value",returned)])]

def prompt_items (grid : List (List String)) : Value :=
  .dict [("items",.list ((numbered 0 grid).map fun entry => prompt_item entry.1 entry.2))]

def grouped_items (grid : List (List Value)) : Value :=
  .dict [("items",.list (grid.map fun outputs => .dict [("output",.list outputs)]))]

-- Groups of the same sizes.
def sized (groups : List Value) (grid : List (List α)) : Prop := List.Forall₂ (fun group row => len group = .ok row.length) groups grid

-- Every grouped column has the groups of the image column, every other one value or one for each of them.
def aligned (groups : List Value) (column : Column) : Prop :=
  if column.1.grouped then List.Forall₂ (fun group image => len group = len image) column.2 groups
  else column.2.length = 1 ∨ column.2.length = groups.length

section
variable {codec : Codec} {render : Dict String String → Except String String} {columns : List Column}

theorem row_prompts {n i size : Nat} {items : List Value}
    (done : (List.range size).mapM (fun j => do
      let prompt ← prompt_at codec render columns n i j
      pure (prompt_item i prompt)) = .ok items) :
    ∃ row : List String, row.length = size ∧ items = row.map (prompt_item i) ∧
      ∀ j prompt, row[j]? = some prompt → prompt_at codec render columns n i j = .ok prompt := by
  have each := mapM_ok.mp done
  clear done
  rw [List.range_eq_range'] at each
  suffices from_index : ∀ (k : Nat) (items : List Value), List.Forall₂ (fun j item => (do
      let prompt ← prompt_at codec render columns n i j
      pure (prompt_item i prompt)) = .ok item) (List.range' k size) items →
      ∃ row : List String, row.length = size ∧ items = row.map (prompt_item i) ∧
        ∀ j prompt, row[j]? = some prompt → prompt_at codec render columns n i (k + j) = .ok prompt by
    simpa using from_index 0 items each
  clear each
  induction size with
  | zero =>
      intro k items each
      cases each
      exact ⟨[],rfl,rfl,fun j prompt found => by simp at found⟩
  | succ size ih =>
      intro k items each
      rw [List.range'_succ] at each
      cases each with
      | cons first later =>
          obtain ⟨prompt,made,last⟩ := bind_ok first
          cases last
          obtain ⟨row,length,rfl,prompts⟩ := ih (k + 1) _ later
          refine ⟨prompt :: row,by rw [List.length_cons,length],rfl,fun j other found => ?_⟩
          cases j with
          | zero =>
              cases found
              exact made
          | succ j =>
              have there := prompts j other found
              rwa [Nat.add_right_comm] at there

theorem prompts_grid {n : Nat} {sizes : List Nat} {rows : List (List Value)} (k : Nat)
    (done : (sizes.zipIdx k).mapM (fun row => (List.range row.1).mapM fun j => do
      let prompt ← prompt_at codec render columns n row.2 j
      pure (prompt_item row.2 prompt)) = .ok rows) :
    ∃ grid : List (List String), grid.map List.length = sizes ∧
      rows.flatten = (numbered k grid).map (fun entry => prompt_item entry.1 entry.2) ∧
      ∀ i row j prompt, grid[i]? = some row → row[j]? = some prompt → prompt_at codec render columns n (k + i) j = .ok prompt := by
  induction sizes generalizing k rows with
  | nil =>
      cases done
      exact ⟨[],rfl,rfl,fun i row j prompt found => by simp at found⟩
  | cons size sizes ih =>
      rw [List.zipIdx_cons,List.mapM_cons] at done
      obtain ⟨first,here,done⟩ := bind_ok done
      obtain ⟨others,later,done⟩ := bind_ok done
      cases done
      obtain ⟨grid,lengths,flat,prompts⟩ := ih (k + 1) later
      obtain ⟨row,length,rfl,made⟩ := row_prompts here
      refine ⟨row :: grid,by rw [List.map_cons,lengths,length],?_,?_⟩
      · rw [List.flatten_cons,flat,numbered_cons,List.map_append,List.map_map]
        rfl
      · intro i row' j prompt found here
        cases i with
        | zero =>
            cases found
            exact made j prompt here
        | succ i =>
            have there := prompts i row' j prompt found here
            rwa [Nat.add_right_comm] at there

theorem lens_sized {groups : List Value} {grid : List (List String)} (sizes : groups.mapM len = .ok (grid.map List.length)) :
    sized groups grid := by
  have each := mapM_ok.mp sizes
  rw [List.forall₂_map_right_iff] at each
  exact each

-- What the checks of the flatten step say of a column.
theorem checked_aligned {node : String} {groups : List Value} {sizes : List Nat} {column : Column}
    (measured : groups.mapM len = .ok sizes) (checked : check_column codec node sizes column = .ok ()) :
    aligned groups column := by
  have each := mapM_ok.mp measured
  have count := List.Forall₂.length_eq each
  unfold check_column at checked
  unfold aligned
  split at checked
  · rename_i grouped
    rw [if_pos grouped]
    split at checked
    · cases checked
    · rename_i lengths
      have passed := (forM_ok _).mp checked
      rw [not_not] at lengths
      clear checked
      generalize column.2 = values at *
      have from_row : ∀ (k : Nat) (values groups : List Value) (sizes : List Nat), values.length = sizes.length →
          List.Forall₂ (fun group size => len group = .ok size) groups sizes →
          (∀ row ∈ (values.zip sizes).zipIdx k, check_group codec node column.1.label row = .ok ()) →
          List.Forall₂ (fun group image => len group = len image) values groups := by
        intro k values groups sizes same each passed
        induction each generalizing k values with
        | nil =>
            cases values with
            | nil => exact .nil
            | cons => cases same
        | @cons group size groups sizes first _ ih =>
            cases values with
            | nil => cases same
            | cons value values =>
                rw [List.zip_cons_cons,List.zipIdx_cons,List.forall_mem_cons] at passed
                refine .cons ?_ (ih (k + 1) values (Nat.succ.inj same) passed.2)
                obtain ⟨found,measured,agreed⟩ := bind_ok passed.1
                split at agreed
                · cases agreed
                · rename_i equal
                  rw [measured,first,not_not.mp equal]
      exact from_row 0 values groups sizes lengths each passed
  · rename_i plain
    rw [if_neg plain]
    split at checked
    · cases checked
    · rename_i lengths
      rw [not_and_or,not_not,not_not] at lengths
      rw [count]
      exact lengths

-- The other way round, a column of this shape passes the checks.
theorem aligned_checked {groups : List Value} {sizes : List Nat} {column : Column} (node : String)
    (measured : groups.mapM len = .ok sizes) (fits : aligned groups column) :
    check_column codec node sizes column = .ok () := by
  have each := mapM_ok.mp measured
  have count := List.Forall₂.length_eq each
  unfold aligned at fits
  unfold check_column
  split
  · rename_i grouped
    rw [if_pos grouped] at fits
    rw [if_neg (not_not.mpr ((List.Forall₂.length_eq fits).trans count))]
    refine (forM_ok _).mpr fun row member => ?_
    obtain ⟨pair,k⟩ := row
    have inside := (List.mem_zipIdx' member).2 ▸ List.getElem_mem _
    have both : ∀ (values groups : List Value) (sizes : List Nat), List.Forall₂ (fun group size => len group = .ok size) groups sizes →
        List.Forall₂ (fun group image => len group = len image) values groups → ∀ pair ∈ values.zip sizes, len pair.1 = .ok pair.2 := by
      intro values groups sizes each fits
      induction each generalizing values with
      | nil => cases fits; exact fun _ member => (nomatch member)
      | cons first _ ih =>
          cases fits with
          | cons same later =>
              rw [List.zip_cons_cons]
              exact List.forall_mem_cons.mpr ⟨same.trans first,ih _ later⟩
    unfold check_group
    rw [both column.2 groups sizes each fits pair inside,ok_bind,if_neg (not_not.mpr rfl)]
    rfl
  · rename_i plain
    rw [if_neg plain] at fits
    refine if_neg ?_
    rw [not_and_or,not_not,not_not,← count]
    exact fits

theorem item_at_list {items : List Value} {j : Nat} (inside : j < items.length) : item_at j (.list items) = .ok items[j] := by
  unfold item_at
  dsimp only
  rw [List.getElem?_eq_getElem inside]

theorem cell_ok {groups : List Value} {column : Column} {i j : Nat} {image : Value} (fits : aligned groups column)
    (lists : column.1.grouped = true → ∀ group ∈ column.2, group.is_list = true) (row : groups[i]? = some image)
    {size : Nat} (measured : len image = .ok size) (inside : j < size) : ∃ value, cell groups.length i j column = .ok value := by
  have within : i < groups.length := (List.getElem?_eq_some_iff.mp row).1
  unfold aligned at fits
  unfold cell
  split
  · rename_i grouped
    rw [if_pos grouped] at fits
    have inside' : i < column.2.length := by rw [List.Forall₂.length_eq fits]; exact within
    have same := (List.forall₂_iff_get.mp fits).2 i inside' within
    have listed := lists grouped _ (List.getElem_mem inside')
    have image_here : groups[i] = image := (List.getElem?_eq_some_iff.mp row).2
    cases held : column.2[i] with
    | list items =>
        have length : items.length = size := by
          rw [List.get_eq_getElem,List.get_eq_getElem,held,image_here,measured] at same
          exact Except.ok.inj same
        have there : j < items.length := by omega
        refine ⟨items[j],?_⟩
        rw [at_index,item_at_list inside',held,ok_bind,item_at_list there]
    | _ =>
        rw [held] at listed
        cases listed
  · rename_i plain
    rw [if_neg plain] at fits
    have there : (if column.2.length = groups.length then i else 0) < column.2.length := by
      split
      · omega
      · omega
    exact ⟨_,item_at_list there⟩

theorem prompt_ok {groups : List Value} {i j : Nat} {image : Value} (total : ∀ values, ∃ prompt, render values = .ok prompt)
    (fits : ∀ column ∈ columns, aligned groups column)
    (lists : ∀ column ∈ columns, column.1.grouped = true → ∀ group ∈ column.2, group.is_list = true)
    (row : groups[i]? = some image) {size : Nat} (measured : len image = .ok size) (inside : j < size) :
    ∃ prompt, prompt_at codec render columns groups.length i j = .ok prompt := by
  have read : ∃ values, columns.tail.foldlM (fun (values : Dict String Value) column => do
      let value ← cell groups.length i j column
      pure (values.set column.1.label value)) Dict.empty = .ok values := by
    refine (@foldlM_accepts _ _ _ _ (fun column => ∃ value, cell groups.length i j column = .ok value) (fun values column => ?_)
      columns.tail Dict.empty).mpr fun column member => ?_
    · constructor
      · rintro ⟨after,done⟩
        obtain ⟨value,found,_⟩ := bind_ok done
        exact ⟨value,found⟩
      · rintro ⟨value,found⟩
        rw [found]
        exact ⟨_,rfl⟩
    · have member := List.mem_of_mem_tail member
      exact cell_ok (fits column member) (lists column member) row measured inside
  obtain ⟨values,read⟩ := read
  unfold prompt_at
  rw [read]
  exact total _

theorem rows_ok {groups : List Value} {sizes : List Nat} (total : ∀ values, ∃ prompt, render values = .ok prompt)
    (fits : ∀ column ∈ columns, aligned groups column)
    (lists : ∀ column ∈ columns, column.1.grouped = true → ∀ group ∈ column.2, group.is_list = true)
    (measured : groups.mapM len = .ok sizes) : ∃ rows, flatten_rows codec render columns sizes = .ok rows := by
  have each := mapM_ok.mp measured
  have count := List.Forall₂.length_eq each
  refine mapM_total _ fun row member => mapM_total _ fun j inside => ?_
  obtain ⟨size,i⟩ := row
  obtain ⟨bound,here⟩ := List.mem_zipIdx' member
  dsimp only at bound here inside ⊢
  have within : i < groups.length := by omega
  have length := (List.forall₂_iff_get.mp each).2 i within bound
  obtain ⟨prompt,made⟩ := @prompt_ok codec _ _ _ _ j _ total fits lists (List.getElem?_eq_getElem within) _ length
    (by rw [List.get_eq_getElem,← here]; exact List.mem_range.mp inside)
  rw [← count,made]
  exact ⟨_,rfl⟩

-- The loop of the regroup step over rows that are the numbers of groups.
theorem append_values (node : String) (entries : List (Nat × Value)) (table : List (List Value))
    (inside : ∀ entry ∈ entries, entry.1 < table.length) :
    (entries.map fun entry => (entry.2,Value.int entry.1)).foldlM (append_value codec node) table = .ok (entries.foldl place table) := by
  induction entries generalizing table with
  | nil => rfl
  | cons entry rest ih =>
      obtain ⟨here,others⟩ := List.forall_mem_cons.mp inside
      have one : append_value codec node table (entry.2,.int entry.1) = .ok (place table entry) := by
        unfold append_value row_index
        dsimp only
        rw [if_pos ⟨by omega,by omega⟩,Int.toNat_natCast]
        rfl
      rw [List.map_cons,List.foldlM_cons,one,ok_bind,List.foldl_cons]
      exact ih _ (by simpa using others)

theorem check_rows {groups : List Value} {grid : List (List Value)} (node : String) :
    (grid.zip groups).zipIdx.forM (check_row node) = .ok () ↔ ∀ pair ∈ grid.zip groups, len pair.2 = .ok pair.1.length := by
  rw [forM_ok]
  have one : ∀ (row : (List Value × Value) × Nat), check_row node row = .ok () ↔ len row.1.2 = .ok row.1.1.length := by
    intro row
    unfold check_row
    constructor
    · intro done
      obtain ⟨expected,measured,agreed⟩ := bind_ok done
      split at agreed
      · cases agreed
      · rename_i same
        rw [measured,not_not.mp same]
    · intro measured
      rw [measured,ok_bind,if_neg (not_not.mpr rfl)]
      rfl
  constructor
  · intro all pair member
    obtain ⟨k,bound,rfl⟩ := List.mem_iff_getElem.mp member
    exact (one _).mp (all _ (List.mem_zipIdx_iff_getElem?.mpr (List.getElem?_eq_getElem bound) : ((grid.zip groups)[k],k) ∈ _))
  · intro all row member
    obtain ⟨pair,k⟩ := row
    have found := List.mem_zipIdx_iff_getElem?.mp member
    exact (one _).mpr (all pair (List.mem_of_getElem? found))

theorem sized_pairs {groups : List Value} {grid : List (List Value)} :
    sized groups grid ↔ groups.length = grid.length ∧ ∀ pair ∈ grid.zip groups, len pair.2 = .ok pair.1.length := by
  unfold sized
  constructor
  · intro same
    refine ⟨List.Forall₂.length_eq same,?_⟩
    induction same with
    | nil => exact fun _ member => (nomatch member)
    | cons first _ ih =>
        rw [List.zip_cons_cons]
        exact List.forall_mem_cons.mpr ⟨first,ih⟩
  · rintro ⟨count,all⟩
    induction groups generalizing grid with
    | nil =>
        cases grid with
        | nil => exact .nil
        | cons => cases count
    | cons group groups ih =>
        cases grid with
        | nil => cases count
        | cons row grid =>
            rw [List.zip_cons_cons,List.forall_mem_cons] at all
            exact .cons all.1 (ih (Nat.succ.inj count) all.2)

-- What has the sizes of the groups comes back group by group.
theorem regroup_grid {groups : List Value} {grid : List (List Value)} (node : String) (same : sized groups grid) :
    regroup_columns codec node grid.flatten ((numbered 0 grid).map fun entry => .int entry.1) groups = .ok (grouped_items grid) := by
  obtain ⟨count,all⟩ := sized_pairs.mp same
  have values := numbered_values 0 grid
  have pairs : grid.flatten.zip ((numbered 0 grid).map fun entry => Value.int entry.1) =
      (numbered 0 grid).map fun entry => (entry.2,Value.int entry.1) := by
    rw [← values,List.zip_map']
  have loop := @append_values codec node (numbered 0 grid) (List.replicate groups.length []) fun entry member => by
    have bound := (numbered_rows_lt member).2
    rw [List.length_replicate]
    omega
  have gathered := gather_numbered grid
  unfold gather at gathered
  unfold regroup_columns
  rw [if_neg (by rw [← values]; simp),pairs,loop,ok_bind,count,gathered,(check_rows node).mpr all]
  rfl

-- What the regroup step returns holds every value in its own group, as many as the group has.
theorem regroup_returned {node : String} {values rows groups : List Value} {out : Value}
    (done : regroup_columns codec node values rows groups = .ok out) :
    values.length = rows.length ∧ ∃ grid, out = grouped_items grid ∧ sized groups grid ∧
      ∀ (r : Nat) (row : List Value), grid[r]? = some row → row = ((values.zip rows).filter fun entry => row_index entry.2 = some (r : Int)).map Prod.fst := by
  have loop : ∀ (entries : List (Value × Value)) (table result : List (List Value)),
      entries.foldlM (append_value codec node) table = .ok result → result.length = table.length ∧
        ∀ r : Nat, result[r]? = (table[r]?).map (· ++ (entries.filter fun entry => row_index entry.2 = some (r : Int)).map Prod.fst) := by
    intro entries
    induction entries with
    | nil =>
        intro table result done
        cases done
        exact ⟨rfl,fun r => by simp⟩
    | cons entry rest ih =>
        intro table result done
        rw [List.foldlM_cons] at done
        obtain ⟨next,first,later⟩ := bind_ok done
        obtain ⟨length,reads⟩ := ih next result later
        unfold append_value at first
        split at first
        · cases first
        · rename_i row integer
          split at first
          · rename_i bound
            cases first
            rw [List.length_modify] at length
            refine ⟨length,fun r => ?_⟩
            rw [reads r,List.getElem?_modify,List.filter_cons,integer]
            by_cases own : row = r
            · cases table[r]? <;> simp [own]
            · have other : row.toNat ≠ r := by omega
              simp [own,other]
          · cases first
  unfold regroup_columns at done
  split at done
  · cases done
  · rename_i lengths
    obtain ⟨grid,built,done⟩ := bind_ok done
    obtain ⟨_,checked,done⟩ := bind_ok done
    cases done
    obtain ⟨count,reads⟩ := loop _ _ _ built
    rw [List.length_replicate] at count
    refine ⟨not_not.mp lengths,grid,rfl,sized_pairs.mpr ⟨count.symm,(check_rows node).mp checked⟩,fun r row found => ?_⟩
    have read := reads r
    have bound := (List.getElem?_eq_some_iff.mp found).1
    rw [found,List.getElem?_replicate,if_pos (by omega)] at read
    simpa using read

theorem infer_column {inputs : Stages} {node : String} {results : List Value} (label : String) (grouped : Bool)
    (stage : inputs node = some (infer_result results)) :
    column codec (as_text codec) inputs ⟨.stage node "" false,label,grouped⟩ = .ok (results.map (as_text codec)) := by
  unfold column
  dsimp only
  rw [stage]
  have items : stage_items codec node (infer_result results) = .ok (results.map fun result => .dict [("output",result)]) := rfl
  dsimp only
  rw [items,ok_bind,read_items,if_neg (by simp),if_neg (by simp),List.map_map]
  rfl

theorem row_column {inputs : Stages} {node : String} {grid : List (List String)} (label : String) (grouped : Bool)
    (stage : inputs node = some (python_result (prompt_items grid))) :
    column codec (as_text codec) inputs ⟨.stage node "row" false,label,grouped⟩ =
      .ok ((numbered 0 grid).map fun entry => .int entry.1) := by
  have items : stage_items codec node (python_result (prompt_items grid)) =
      .ok ((numbered 0 grid).map fun entry => prompt_item entry.1 entry.2) := rfl
  have parts : split_dots "row" = ["row"] := by decide
  have walked : ∀ (entries : List (Nat × String)) (k : Nat),
      ((entries.map fun entry => prompt_item entry.1 entry.2).zipIdx k).mapM (walk_item codec node "row") =
        .ok (entries.map fun entry => .int entry.1) := by
    intro entries
    induction entries with
    | nil => exact fun _ => rfl
    | cons entry rest ih =>
        intro k
        have one : walk_item codec node "row" (prompt_item entry.1 entry.2,k) = .ok (.int entry.1) := by
          unfold walk_item
          rw [parts]
          rfl
        rw [List.map_cons,List.zipIdx_cons,List.mapM_cons,one,ok_bind,ih (k + 1)]
        rfl
  unfold column
  dsimp only
  rw [stage]
  dsimp only
  rw [items,ok_bind,read_items,if_pos (by simp)]
  exact walked _ 0

theorem flatten_main_ok {image : Entry} {rest : List Entry} {node : String} {inputs : Stages} {groups : List Value}
    {others : List (List Value)} (boundary : image.grouped = true)
    (read : (image :: rest).mapM (column codec (as_text codec) inputs) = .ok (groups :: others)) (flattened : Value) :
    flatten_main codec node (image :: rest) render inputs = .ok flattened ↔ ∃ sizes rows, groups.mapM len = .ok sizes ∧
      (∀ c ∈ (image,groups) :: rest.zip others, check_column codec node sizes c = .ok ()) ∧
      flatten_rows codec render ((image,groups) :: rest.zip others) sizes = .ok rows ∧
      flattened = .dict [("items",.list rows.flatten)] := by
  have first : ((image :: rest).zip (groups :: others)).filter (fun column => column.1.grouped) =
      (image,groups) :: (rest.zip others).filter (fun column => column.1.grouped) := by
    rw [List.zip_cons_cons,List.filter_cons,if_pos boundary]
  unfold flatten_main
  rw [read,ok_bind]
  dsimp only
  rw [first,List.zip_cons_cons]
  dsimp only
  constructor
  · intro done
    obtain ⟨sizes,measured,done⟩ := bind_ok done
    obtain ⟨_,checked,done⟩ := bind_ok done
    obtain ⟨rows,made,done⟩ := bind_ok done
    cases done
    exact ⟨sizes,rows,measured,(forM_ok _).mp checked,made,rfl⟩
  · rintro ⟨sizes,rows,measured,checked,made,rfl⟩
    rw [measured,ok_bind,(forM_ok _).mpr checked,ok_bind,made]
    rfl

theorem sized_congr {groups : List Value} {grid : List (List α)} {grid' : List (List β)}
    (same : grid'.map List.length = grid.map List.length) (sizes : sized groups grid) : sized groups grid' := by
  unfold sized at sizes ⊢
  rw [← List.forall₂_map_right_iff (f := List.length) (R := fun group size => len group = .ok size)] at sizes ⊢
  rwa [same]

theorem regroup_main_columns {image : Entry} {node infer_id flatten_id : String} {inputs : Stages} {groups results : List Value}
    {grid : List (List String)} (flat : inputs flatten_id = some (python_result (prompt_items grid)))
    (inferred : inputs infer_id = some (infer_result results)) (images : column codec (as_text codec) inputs image = .ok groups) :
    regroup_main codec node (regroup_plan infer_id flatten_id image) inputs =
      regroup_columns codec node (results.map (as_text codec)) ((numbered 0 grid).map fun entry => .int entry.1) groups := by
  have columns : (regroup_plan infer_id flatten_id image).mapM (column codec (as_text codec) inputs) =
      .ok [results.map (as_text codec),(numbered 0 grid).map fun entry => .int entry.1,groups] :=
    mapM_ok.mpr (.cons (infer_column "outputs" false inferred) (.cons (row_column "rows" false flat) (.cons images .nil)))
  unfold regroup_main
  rw [columns]
  rfl

end

section
variable (codec : Codec) (render : Dict String String → Except String String)

-- The prompts of every group come back, inferred, at their own places; columns of other shapes
-- are refused, and so are results that are not one for each prompt.
theorem flatten_regroup {image : Entry} {rest : List Entry} {node : String} {inputs : Stages} {groups : List Value}
    {others : List (List Value)} (boundary : image.grouped = true)
    (read : (image :: rest).mapM (column codec (as_text codec) inputs) = .ok (groups :: others)) :
    (∀ flattened, flatten_main codec node (image :: rest) render inputs = .ok flattened →
      (∀ c ∈ (image,groups) :: rest.zip others, aligned groups c) ∧
      ∃ grid : List (List String), sized groups grid ∧ flattened = prompt_items grid ∧
        (∀ i row j prompt, grid[i]? = some row → row[j]? = some prompt →
          prompt_at codec render ((image,groups) :: rest.zip others) groups.length i j = .ok prompt) ∧
        ∀ node' infer_id flatten_id (inputs' : Stages) results, inputs' flatten_id = some (python_result flattened) →
          inputs' infer_id = some (infer_result results) → column codec (as_text codec) inputs' image = .ok groups →
            ((∃ out, regroup_main codec node' (regroup_plan infer_id flatten_id image) inputs' = .ok out) ↔
              results.length = grid.flatten.length) ∧
            ∀ answers : List (List Value), answers.map List.length = grid.map List.length → results = answers.flatten →
              regroup_main codec node' (regroup_plan infer_id flatten_id image) inputs' =
                .ok (grouped_items (answers.map (List.map (as_text codec))))) ∧
    ((∀ c ∈ (image,groups) :: rest.zip others, aligned groups c) →
      (∀ c ∈ (image,groups) :: rest.zip others, c.1.grouped = true → ∀ group ∈ c.2, group.is_list = true) →
      (∀ values, ∃ prompt, render values = .ok prompt) →
        ∃ flattened, flatten_main codec node (image :: rest) render inputs = .ok flattened) ∧
    ∀ node' values rows groups' out, regroup_columns codec node' values rows groups' = .ok out →
      values.length = rows.length ∧ ∃ grid, out = grouped_items grid ∧ sized groups' grid ∧
        ∀ (r : Nat) (row : List Value), grid[r]? = some row →
          row = ((values.zip rows).filter fun entry => row_index entry.2 = some (r : Int)).map Prod.fst := by
  refine ⟨fun flattened done => ?_,fun fits lists total => ?_,fun _ _ _ _ _ => regroup_returned⟩
  · obtain ⟨sizes,rows,measured,checked,made,rfl⟩ := (flatten_main_ok boundary read flattened).mp done
    refine ⟨fun c member => checked_aligned measured (checked c member),?_⟩
    obtain ⟨grid,lengths,flat,prompts⟩ := prompts_grid 0 made
    have same : sized groups grid := lens_sized (lengths ▸ measured)
    have count : sizes.length = groups.length := (List.Forall₂.length_eq (mapM_ok.mp measured)).symm
    rw [count] at prompts
    refine ⟨grid,same,by rw [flat,prompt_items],fun i row j prompt found here => ?_,?_⟩
    · have there := prompts i row j prompt found here
      rwa [Nat.zero_add] at there
    · intro node' infer_id flatten_id inputs' results stage inferred images
      rw [flat] at stage
      have columns := @regroup_main_columns _ _ node' _ _ _ _ _ _ stage inferred images
      rw [columns]
      have back : ∀ grid' : List (List Value), grid'.map List.length = grid.map List.length →
          regroup_columns codec node' grid'.flatten ((numbered 0 grid).map fun entry => .int entry.1) groups =
            .ok (grouped_items grid') := by
        intro grid' shape
        have whole := @regroup_grid codec _ _ node' (sized_congr shape same)
        have numbers := congrArg (List.map fun i : Nat => Value.int i) (same_rows shape 0)
        rw [List.map_map,List.map_map] at numbers
        exact (congrArg (regroup_columns codec node' grid'.flatten · groups) numbers.symm).trans whole
      refine ⟨⟨?_,?_⟩,?_⟩
      · rintro ⟨out,returned⟩
        have length := (regroup_returned returned).1
        rw [List.length_map,List.length_map] at length
        rw [length,← numbered_values 0 grid,List.length_map]
      · intro length
        have matched : (results.map (as_text codec)).length = grid.flatten.length := by rw [List.length_map,length]
        obtain ⟨grid',shape,whole⟩ := regrid matched
        exact ⟨_,whole ▸ back grid' shape⟩
      · rintro answers shape rfl
        have texts : (answers.map (List.map (as_text codec))).map List.length = grid.map List.length := by
          rw [List.map_map,← shape]
          exact List.map_congr_left fun row _ => List.length_map _
        rw [List.map_flatten]
        exact back _ texts
  · obtain ⟨sizes,measured⟩ := mapM_total groups (f := len) fun group member => by
      have listed := lists (image,groups) List.mem_cons_self boundary group member
      cases group with
      | list items => exact ⟨items.length,rfl⟩
      | _ => cases listed
    obtain ⟨rows,made⟩ := @rows_ok codec _ _ _ _ total fits lists measured
    exact ⟨_,(flatten_main_ok boundary read _).mpr ⟨sizes,rows,measured,
      fun c member => aligned_checked node measured (fits c member),made,rfl⟩⟩

end

-- Two images for the first symbol and none for the second.
def art_entry : Entry := ⟨.stage "art" "keys" false,"art_batch",true⟩
def symbol_entry : Entry := ⟨.literal [.str "AAA",.str "BBB"],"symbol",false⟩

def art_stages : Stages := fun node =>
  if node = "art" then some (.dict [("result",.dict [("items",.list [.dict [("keys",.list [.str "k0",.str "k1"])],
    .dict [("keys",.list [])]])])]) else none

def no_codec : Codec := ⟨fun _ => none,fun _ => "null",fun _ => none,fun _ => "None"⟩

def symbol_of (values : Dict String String) : Except String String := .ok ((values.get? "symbol").getD "")

-- The prompts are flattened by one node and answered by another.
def answered_stages : Stages := fun node =>
  if node = "vlm" then some (python_result (prompt_items [["AAA","AAA"],[]]))
  else if node = "infer" then some (infer_result [.str "cat",.int 7]) else art_stages node

theorem flatten_regroup_two : ∃ grid : List (List String), sized [.list [.str "k0",.str "k1"],.list []] grid ∧
    flatten_main no_codec "vlm" [art_entry,symbol_entry] symbol_of art_stages = .ok (prompt_items grid) ∧
    regroup_main no_codec "out" (regroup_plan "infer" "vlm" art_entry) answered_stages =
      .ok (grouped_items [[as_text no_codec (.str "cat"),as_text no_codec (.int 7)],[]]) := by
  have done : flatten_main no_codec "vlm" [art_entry,symbol_entry] symbol_of art_stages =
    .ok (prompt_items [["AAA","AAA"],[]]) := rfl
  obtain ⟨_,grid,same,flat,_,back⟩ := (@flatten_regroup no_codec symbol_of art_entry [symbol_entry] "vlm" art_stages
    [.list [.str "k0",.str "k1"],.list []] [[.str "AAA",.str "BBB"]] rfl rfl).1 _ done
  have shape : [[Value.str "cat",.int 7],[]].map List.length = grid.map List.length := by
    cases same with
    | cons first rest =>
        cases rest with
        | cons second none_left =>
            cases none_left
            rw [List.map_cons,List.map_cons,List.map_cons,List.map_cons,← Except.ok.inj first,← Except.ok.inj second]
            rfl
  exact ⟨grid,same,by rw [done,flat],(back "out" "infer" "vlm" answered_stages _ rfl rfl rfl).2 _ shape rfl⟩

end Lumilake.PythonStep

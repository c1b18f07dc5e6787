import Mathlib.Data.List.TakeWhile
import Lumilake.Library.Placeholder
import Lumilake.RuntimeManager.ShardRewrite
import Lumilake.RuntimeManager.ShardReferences

namespace Lumilake.RuntimeManager
open Cuts Fallible Placeholder

-- The names in the ${name.path} placeholders of a text.
def text_names (text : String) : List String := (refNames text.toList).map String.ofList

-- Every name that a value refers to: the texts under "node", the placeholders of the others.
mutual
def names_in : Value → List String
  | .str s => text_names s
  | .list items => names_in_items items
  | .tuple items => names_in_items items
  | .dict entries => names_in_entries entries
  | _ => []
def names_in_items : List Value → List String
  | [] => []
  | item :: items => names_in item ++ names_in_items items
def names_in_entries : Spec → List String
  | [] => []
  | (key,.str s) :: entries => (if key = "node" then [s] else text_names s) ++ names_in_entries entries
  | (_,item) :: entries => names_in item ++ names_in_entries entries
end

def text_at (entries : Spec) (key : String) : Option String :=
  match Value.get? entries key with
  | some (.str text) => some text
  | _ => none

-- The path of a mapping that stands for a column of a node that is not cut.
def column_path (uncut : String → Bool) (entries : Spec) : Option String :=
  match text_at entries "node",text_at entries "path" with
  | some ref_node,some path => if uncut ref_node && is_unindexed_items_path path then some path else none
  | _,_ => none

-- Whether a text stands where the rewriting of a shard replaces it.
def replaced (column : Option String) (key : String) : Bool :=
  column.isSome && (key == "node" || key == "path" || key == "data")

-- The names that the rewriting of a shard leaves as they are.
mutual
def left_names (uncut : String → Bool) : Value → List String
  | .str s => text_names s
  | .list items => left_items uncut items
  | .tuple items => names_in_items items
  | .dict entries => ((column_path uncut entries).map text_names).getD [] ++ left_entries uncut (column_path uncut entries) entries
  | _ => []
def left_items (uncut : String → Bool) : List Value → List String
  | [] => []
  | item :: items => left_names uncut item ++ left_items uncut items
def left_entries (uncut : String → Bool) (column : Option String) : Spec → List String
  | [] => []
  | (key,.str s) :: entries =>
      (if replaced column key || key == "node" then [] else text_names s) ++ left_entries uncut column entries
  | (key,item) :: entries => (if replaced column key then [] else left_names uncut item) ++ left_entries uncut column entries
end

theorem space_plain {c : Char} (space : is_space c = true) : c ≠ '$' ∧ c ≠ '}' :=
  ⟨by rintro rfl; exact absurd space (by decide),by rintro rfl; exact absurd space (by decide)⟩

theorem strip_split (text : List Char) : ∃ front back, text = front ++ strip_text text ++ back ∧
    (∀ c ∈ front, is_space c = true) ∧ ∀ c ∈ back, is_space c = true := by
  refine ⟨text.takeWhile is_space,((text.dropWhile is_space).reverse.takeWhile is_space).reverse,?_,
    fun c member => List.mem_takeWhile_imp member,fun c member => List.mem_takeWhile_imp (List.mem_reverse.mp member)⟩
  unfold strip_text
  rw [List.append_assoc,← List.reverse_append,List.takeWhile_append_dropWhile,List.reverse_reverse,
    List.takeWhile_append_dropWhile]

theorem text_names_strip (text : List Char) : refNames text = refNames (strip_text text) := by
  obtain ⟨front,back,split,front_space,back_space⟩ := strip_split text
  calc refNames text = refNames (front ++ (strip_text text ++ back)) := by rw [← List.append_assoc,← split]
    _ = refNames (strip_text text ++ back) := refNames_front (fun inside => (space_plain (front_space _ inside)).1 rfl) _
    _ = refNames (strip_text text) := refNames_back (fun inside => (space_plain (back_space _ inside)).1 rfl)
        (fun inside => (space_plain (back_space _ inside)).2 rfl) _

-- An index in a path leaves its placeholders as they are.
theorem indexed_names {path : String} (unindexed : is_unindexed_items_path path = true) (idx : Nat) :
    text_names (indexed_path path idx) = text_names path := by
  unfold is_unindexed_items_path at unindexed
  split at unindexed
  · rename_i head suffix found
    obtain ⟨text,form⟩ := split_items_cases found
    have plain : '$' ∉ head ++ ['i','t','e','m','s'] := by
      rcases form with rfl | rfl <;> decide
    have digits : '$' ∉ (toString idx).toList := by
      rw [Nat.toString_eq_repr,Nat.toList_repr]
      exact fun member => absurd (Nat.isDigit_of_mem_toDigits (by decide) (by decide) member) (by decide)
    unfold text_names
    rw [text_names_strip path.toList,text,refNames_front plain]
    unfold indexed_path
    rw [found]
    dsimp only
    have regroup : head ++ "items[".toList ++ (toString idx).toList ++ ']' :: suffix =
        (head ++ ['i','t','e','m','s'] ++ '[' :: (toString idx).toList ++ [']']) ++ suffix := by
      rw [items_open_chars]
      simp
    rw [String.toList_ofList,regroup,refNames_front]
    simp only [List.mem_append,List.mem_cons,not_or] at plain ⊢
    exact ⟨⟨plain,by decide,digits⟩,by decide,by simp⟩
  · cases unindexed

-- A mapping holds each of its keys once.
mutual
def keyed : Value → Bool
  | .list items => keyed_items items
  | .tuple items => keyed_items items
  | .dict entries => decide (entries.map Prod.fst).Nodup && keyed_entries entries
  | _ => true
def keyed_items : List Value → Bool
  | [] => true
  | item :: items => keyed item && keyed_items items
def keyed_entries : Spec → Bool
  | [] => true
  | (_,item) :: entries => keyed item && keyed_entries entries
end

theorem keyed_items_iff {items : List Value} : keyed_items items = true ↔ ∀ item ∈ items, keyed item = true := by
  induction items with
  | nil => simp [keyed_items]
  | cons item rest ih => rw [keyed_items,Bool.and_eq_true,ih,List.forall_mem_cons]

theorem keyed_entries_iff {entries : Spec} : keyed_entries entries = true ↔ ∀ e ∈ entries, keyed e.2 = true := by
  induction entries with
  | nil => simp [keyed_entries]
  | cons e rest ih => rw [keyed_entries,Bool.and_eq_true,ih,List.forall_mem_cons]

def is_text : Value → Bool
  | .str _ => true
  | _ => false

@[simp] theorem is_text_iff {v : Value} : is_text v = true ↔ ∃ text, v = .str text := by
  cases v <;> simp [is_text]

theorem left_entries_cons (uncut : String → Bool) (column : Option String) (key : String) (item : Value) (entries : Spec) :
    left_entries uncut column ((key,item) :: entries) =
      (if replaced column key || (key == "node" && is_text item) then [] else left_names uncut item) ++
        left_entries uncut column entries := by
  cases item with
  | str text =>
      rw [left_entries,is_text,Bool.and_true,left_names]
  | _ =>
      rw [left_entries]
      · simp [is_text]
      · intro _ same
        cases same

theorem mem_left_items {uncut : String → Bool} {items : List Value} {x : String} :
    x ∈ left_items uncut items ↔ ∃ item ∈ items, x ∈ left_names uncut item := by
  induction items with
  | nil => simp [left_items]
  | cons item rest ih => rw [left_items,List.mem_append,ih,List.exists_mem_cons_iff]

theorem mem_left_entries {uncut : String → Bool} {column : Option String} {entries : Spec} {x : String} :
    x ∈ left_entries uncut column entries ↔
      ∃ e ∈ entries, (replaced column e.1 || (e.1 == "node" && is_text e.2)) = false ∧ x ∈ left_names uncut e.2 := by
  induction entries with
  | nil => simp [left_entries]
  | cons e rest ih =>
      obtain ⟨key,item⟩ := e
      rw [left_entries_cons,List.mem_append,ih,List.exists_mem_cons_iff]
      refine or_congr ?_ Iff.rfl
      dsimp only
      split
      · rename_i gone
        rw [gone]
        simp
      · rename_i kept
        rw [Bool.eq_false_of_not_eq_true kept]
        simp

@[simp] theorem replaced_none (key : String) : replaced none key = false := rfl

-- No column is replaced where every node is cut.
def plain (_ : String) : Bool := false

@[simp] theorem column_path_plain (entries : Spec) : column_path plain entries = none := by
  unfold column_path plain
  split <;> rfl

theorem left_plain_dict (entries : Spec) : left_names plain (.dict entries) = left_entries plain none entries := by
  rw [left_names,column_path_plain]
  rfl

-- What every entry of a mapping becomes.
def Entrywise (R : String → Value → Value → Prop) (entries entries' : Spec) : Prop :=
  List.Forall₂ (fun e e' => e'.1 = e.1 ∧ R e.1 e.2 e'.2) entries entries'

theorem entrywise_get? {R : String → Value → Value → Prop} {entries entries' : Spec} (all : Entrywise R entries entries')
    (key : String) :
    (Value.get? entries key = none ∧ Value.get? entries' key = none) ∨
      ∃ v v', Value.get? entries key = some v ∧ Value.get? entries' key = some v' ∧ R key v v' := by
  induction all with
  | nil => exact .inl ⟨rfl,rfl⟩
  | @cons e e' _ _ first _ ih =>
      rw [get?_cons,get?_cons,first.1]
      split
      · rename_i same
        exact .inr ⟨_,_,rfl,rfl,same ▸ first.2⟩
      · exact ih

theorem text_at_eq {entries : Spec} {key text : String} : text_at entries key = some text ↔
    Value.get? entries key = some (.str text) := by
  unfold text_at
  split
  · rename_i found
    rw [found]
    exact ⟨fun same => by cases same; rfl,fun same => by cases same; rfl⟩
  · rename_i other
    exact ⟨fun same => (by cases same),fun found => absurd found (other text)⟩

theorem text_at_none {entries : Spec} {key : String} {v : Value} (found : Value.get? entries key = some v)
    (other : ∀ text, v ≠ .str text) : text_at entries key = none := by
  refine Option.eq_none_iff_forall_not_mem.mpr fun text here => ?_
  exact other text (Option.some.inj (found.symm.trans (text_at_eq.mp here)))

theorem text_at_same {R : String → Value → Value → Prop} {entries entries' : Spec} (all : Entrywise R entries entries')
    {key : String} (texts : ∀ v v', R key v v' → ∀ text, v' = .str text ↔ v = .str text) :
    text_at entries' key = text_at entries key := by
  refine Option.ext fun text => ?_
  rw [text_at_eq,text_at_eq]
  rcases entrywise_get? all key with ⟨missing,gone⟩ | ⟨v,v',found,found',entry⟩
  · rw [missing,gone]
  · rw [found,found',Option.some_inj,Option.some_inj]
    exact texts v v' entry text

section
variable {node_map : NodeMap} {s : Shard} {shards : Workers}

-- How an entry is sliced, and how it is renamed.
def SlicedEntry (s : Shard) (typed : Bool) (static : Option (List Value)) (key : String) (v v' : Value) : Prop :=
  if key = "items" ∧ typed = true then v' = kept_items static v else slice_static_lists s v = .ok v'

def RenamedEntry (s : Shard) (shards : Workers) (key : String) (v v' : Value) : Prop :=
  (∃ text text', key = "node" ∧ v = .str text ∧ shard_reference s shards text = .ok text' ∧ v' = .str text') ∨
    ((key = "node" → ∀ text, v ≠ .str text) ∧ rewrite_shard_node_references s shards v = .ok v')

theorem slice_entrywise {typed : Bool} {static : Option (List Value)} {entries sliced : Spec}
    (done : slice_entries s typed static entries = .ok sliced) : Entrywise (SlicedEntry s typed static) entries sliced := by
  induction entries generalizing sliced with
  | nil => cases done; exact .nil
  | cons e rest ih =>
      obtain ⟨key,item⟩ := e
      obtain ⟨item',rest',rfl,later,here⟩ := slice_cons done
      exact .cons ⟨rfl,here⟩ (ih later)

theorem rename_entrywise {entries renamed : Spec} (done : rewrite_entry_references s shards entries = .ok renamed) :
    Entrywise (RenamedEntry s shards) entries renamed := by
  induction entries generalizing renamed with
  | nil => cases done; exact .nil
  | cons e rest ih =>
      obtain ⟨key,item⟩ := e
      obtain ⟨item',rest',rfl,later,here⟩ := rename_cons done
      exact .cons ⟨rfl,here⟩ (ih later)

theorem renamed_text {key : String} {v v' : Value} (entry : RenamedEntry s shards key v v') : is_text v' = is_text v := by
  rcases entry with ⟨text,text',_,rfl,_,rfl⟩ | ⟨_,done⟩
  · rfl
  · refine Bool.eq_iff_iff.mpr ?_
    rw [is_text_iff,is_text_iff]
    constructor
    · rintro ⟨text,rfl⟩
      exact ⟨text,rename_is_text done⟩
    · rintro ⟨text,rfl⟩
      rw [rename_text] at done
      cases done
      exact ⟨text,rfl⟩

-- A node that is not cut keeps its name, and the name of a shard is no such node's.
structure Apart (uncut : String → Bool) (shards : Workers) : Prop where
  cut : ∀ x ∈ shards.keys, uncut x = false
  shard : ∀ a names x, shards.get? a = some names → x ∈ names → uncut x = false

theorem reference_uncut {uncut : String → Bool} (apart : Apart uncut shards)
    (done : shard_reference s shards text = .ok text') : text' = text ∨ uncut text = false ∧ uncut text' = false := by
  unfold shard_reference at done
  split at done
  · cases done
    exact .inl rfl
  · rename_i names found
    split at done
    · rename_i name here
      cases done
      exact .inr ⟨apart.cut _ (Dict.mem_keys_iff.mpr ⟨names,found⟩),apart.shard _ _ _ found (List.mem_of_getElem? here)⟩
    · cases done

theorem renamed_column {uncut : String → Bool} (apart : Apart uncut shards) {entries renamed : Spec}
    (all : Entrywise (RenamedEntry s shards) entries renamed) : column_path uncut renamed = column_path uncut entries := by
  have path : text_at renamed "path" = text_at entries "path" := by
    refine text_at_same all fun v v' entry text => ?_
    rcases entry with ⟨_,_,named,_⟩ | ⟨_,done⟩
    · exact absurd named (by decide)
    · constructor
      · rintro rfl
        exact rename_is_text done
      · rintro rfl
        rw [rename_text] at done
        cases done
        rfl
  unfold column_path
  rw [path]
  rcases entrywise_get? all "node" with ⟨missing,gone⟩ | ⟨v,v',found,found',⟨text,text',_,rfl,named,rfl⟩ | ⟨other,done⟩⟩
  · unfold text_at
    rw [missing,gone]
  · rw [text_at_eq.mpr found,text_at_eq.mpr found']
    rcases reference_uncut apart named with rfl | ⟨one,two⟩
    · rfl
    · cases text_at entries "path" with
      | none => rfl
      | some path =>
          dsimp only
          rw [one,two]
  · have none_before : text_at entries "node" = none := text_at_none found (other rfl)
    have none_after : text_at renamed "node" = none := text_at_none found' fun text same =>
      other rfl text (rename_is_text (same ▸ done))
    rw [none_before,none_after]

theorem slice_items_each {items sliced : List Value} (done : slice_values s items = .ok sliced) :
    List.Forall₂ (fun item item' => slice_static_lists s item = .ok item') items sliced := by
  induction items generalizing sliced with
  | nil => cases done; exact .nil
  | cons item rest ih =>
      rw [slice_values] at done
      obtain ⟨item',first,done⟩ := bind_ok done
      obtain ⟨rest',later,done⟩ := bind_ok done
      cases done
      exact .cons first (ih later)

theorem rename_items_each {items renamed : List Value} (done : rewrite_item_references s shards items = .ok renamed) :
    List.Forall₂ (fun item item' => rewrite_shard_node_references s shards item = .ok item') items renamed := by
  induction items generalizing renamed with
  | nil => cases done; exact .nil
  | cons item rest ih =>
      rw [rewrite_item_references] at done
      obtain ⟨item',first,done⟩ := bind_ok done
      obtain ⟨rest',later,done⟩ := bind_ok done
      cases done
      exact .cons first (ih later)

theorem inline_items_each {items inlined : List Value} (done : inline_values node_map s shards items = .ok inlined) :
    List.Forall₂ (fun item item' => inline_unsharded_dependency_slices node_map s shards item = .ok item') items inlined := by
  induction items generalizing inlined with
  | nil => cases done; exact .nil
  | cons item rest ih =>
      rw [inline_values] at done
      obtain ⟨item',first,done⟩ := bind_ok done
      obtain ⟨rest',later,done⟩ := bind_ok done
      cases done
      exact .cons first (ih later)

-- Renaming references touches no placeholder.
theorem rename_entries_left {uncut : String → Bool} {column : Option String} {entries renamed : Spec}
    (each : ∀ e ∈ entries, ∀ v', rewrite_shard_node_references s shards e.2 = .ok v' → left_names uncut v' = left_names uncut e.2)
    (all : Entrywise (RenamedEntry s shards) entries renamed) :
    left_entries uncut column renamed = left_entries uncut column entries := by
  induction all with
  | nil => rfl
  | @cons e e' entries renamed first _ ih =>
      obtain ⟨key,v⟩ := e
      obtain ⟨key',v'⟩ := e'
      obtain ⟨rfl,entry⟩ := first
      obtain ⟨here,others⟩ := List.forall_mem_cons.mp each
      rw [left_entries_cons,left_entries_cons,ih others,renamed_text entry]
      rcases entry with ⟨text,text',rfl,rfl,_,rfl⟩ | ⟨_,done⟩
      · simp [is_text]
      · rw [here v' done]

theorem rename_items_left {uncut : String → Bool} {items renamed : List Value}
    (each : ∀ item ∈ items, ∀ v', rewrite_shard_node_references s shards item = .ok v' → left_names uncut v' = left_names uncut item)
    (all : List.Forall₂ (fun item item' => rewrite_shard_node_references s shards item = .ok item') items renamed) :
    left_items uncut renamed = left_items uncut items := by
  induction all with
  | nil => rfl
  | cons first _ ih =>
      obtain ⟨here,others⟩ := List.forall_mem_cons.mp each
      rw [left_items,left_items,here _ first,ih others]

theorem rename_left {uncut : String → Bool} (apart : Apart uncut shards) : (v : Value) → ∀ v',
    rewrite_shard_node_references s shards v = .ok v' → left_names uncut v' = left_names uncut v := by
  apply Value.induction
  case list =>
      intro items each v' done
      rw [rewrite_shard_node_references] at done
      obtain ⟨renamed,run,done⟩ := bind_ok done
      cases done
      rw [left_names,left_names,rename_items_left each (rename_items_each run)]
  case dict =>
      intro entries each v' done
      rw [rewrite_shard_node_references] at done
      obtain ⟨renamed,run,done⟩ := bind_ok done
      cases done
      have all := rename_entrywise run
      rw [left_names,left_names,renamed_column apart all,rename_entries_left each all]
  all_goals
    intros
    rename_i done
    rw [rewrite_shard_node_references] at done
    · cases done
      rfl
    · intro _ same
      cases same
    · intro _ same
      cases same

theorem sliced_column (uncut : String → Bool) {typed : Bool} {static : Option (List Value)} {entries sliced : Spec}
    (all : Entrywise (SlicedEntry s typed static) entries sliced) : column_path uncut sliced = column_path uncut entries := by
  have same : ∀ key, key ≠ "items" → text_at sliced key = text_at entries key := by
    intro key other
    refine text_at_same all fun v v' entry text => ?_
    unfold SlicedEntry at entry
    rw [if_neg fun both => other both.1] at entry
    constructor
    · rintro rfl
      exact slice_is_text entry
    · rintro rfl
      rw [slice_text] at entry
      cases entry
      rfl
  unfold column_path
  rw [same "node" (by decide),same "path" (by decide)]

theorem sliced_text {typed : Bool} {static : Option (List Value)} {key : String} {v v' : Value}
    (entry : SlicedEntry s typed static key v v') (named : key = "node") : is_text v' = is_text v := by
  unfold SlicedEntry at entry
  rw [if_neg fun both => absurd (named ▸ both.1) (by decide)] at entry
  refine Bool.eq_iff_iff.mpr ?_
  rw [is_text_iff,is_text_iff]
  constructor
  · rintro ⟨text,rfl⟩
    exact ⟨text,slice_is_text entry⟩
  · rintro ⟨text,rfl⟩
    rw [slice_text] at entry
    cases entry
    exact ⟨text,rfl⟩

-- Whether the names of an entry are left does not change when it is sliced.
theorem sliced_left {typed : Bool} {static : Option (List Value)} {key : String} {v v' : Value} {column : Option String}
    (entry : SlicedEntry s typed static key v v') :
    (replaced column key || (key == "node" && is_text v')) = (replaced column key || (key == "node" && is_text v)) := by
  by_cases named : key = "node"
  · rw [sliced_text entry named]
  · rw [beq_eq_false_iff_ne.mpr named,Bool.false_and,Bool.false_and]

theorem items_left (column : Option String) (v : Value) : (replaced column "items" || ("items" == "node" && is_text v)) = false := by
  have keys : ("items" == "node") = false ∧ ("items" == "path") = false ∧ ("items" == "data") = false := by decide
  rw [replaced,keys.1,keys.2.1,keys.2.2]
  simp

-- Slicing adds no name.
theorem slice_left {uncut : String → Bool} {x : String} : (v : Value) → ∀ v', slice_static_lists s v = .ok v' →
    x ∈ left_names uncut v' → x ∈ left_names uncut v := by
  apply Value.induction
  case list =>
      intro items each v' done member
      rw [slice_static_lists] at done
      obtain ⟨sliced,run,done⟩ := bind_ok done
      cases done
      rw [left_names,mem_left_items] at member ⊢
      obtain ⟨item',there,inside⟩ := member
      obtain ⟨item,here,turned⟩ := forall₂_right (slice_items_each run) there
      exact ⟨item,here,each item here item' turned inside⟩
  case dict =>
      intro entries each v' done member
      rw [slice_static_lists] at done
      obtain ⟨static,cut,done⟩ := bind_ok done
      obtain ⟨sliced,run,done⟩ := bind_ok done
      cases done
      have all := slice_entrywise run
      rw [left_names,sliced_column uncut all,List.mem_append] at member
      rw [left_names,List.mem_append]
      refine member.imp id fun member => ?_
      rw [mem_left_entries] at member ⊢
      obtain ⟨e',there,kept,inside⟩ := member
      obtain ⟨e,here,same,entry⟩ := forall₂_right all there
      rw [same,sliced_left entry] at kept
      by_cases listed : e.1 = "items" ∧ has_text_type entries = true
      · unfold SlicedEntry at entry
        rw [if_pos listed] at entry
        cases static with
        | none =>
            rw [kept_items] at entry
            exact ⟨e,here,kept,entry ▸ inside⟩
        | some items' =>
            rw [kept_items] at entry
            rw [entry,left_names,mem_left_items] at inside
            obtain ⟨item,member,inside⟩ := inside
            unfold slice_static_items at cut
            split at cut
            · rename_i items found
              obtain ⟨some_items,cut,same'⟩ := map_ok cut
              cases same'
              refine ⟨_,(static_items_mem found).1,items_left _ _,?_⟩
              rw [left_names,mem_left_items]
              exact ⟨item,(slice_items_ok cut).2 item member,inside⟩
            · cases cut
      · unfold SlicedEntry at entry
        rw [if_neg listed] at entry
        exact ⟨e,here,kept,each e here e'.2 entry inside⟩
  all_goals
    intros
    rename_i done _
    rw [slice_static_lists] at done
    · cases done
      assumption
    · intro _ same
      cases same
    · intro _ same
      cases same

theorem lookup_of_mem {entries : Spec} {key : String} {v : Value} (distinct : (entries.map Prod.fst).Nodup)
    (member : (key,v) ∈ entries) : Value.get? entries key = some v :=
  Dict.get?_eq_some (d := ⟨entries,distinct⟩).mpr member

end

section
variable {cuts : List Cut} {total : Nat}

-- The shards of one node: each has an interval of the rows.
def CutBy (cuts : List Cut) (total : Nat) (s : Shard) (cut : Cut) : Prop :=
  cut ∈ cuts ∧ s.start = cut.1 ∧ s.stop = cut.2 ∧ s.total = total

theorem item_sliced (run : Consecutive 0 cuts total) (filled : cuts ≠ []) {items : List Value} {item : Value} (member : item ∈ items) :
    ∃ cut ∈ cuts, ∀ s, CutBy cuts total s cut → ∀ items', slice_items s items = .ok items' → item ∈ items' := by
  obtain ⟨first,there⟩ := List.exists_mem_of_ne_nil cuts filled
  by_cases whole : items.length = total
  · obtain ⟨j,bound,rfl⟩ := List.mem_iff_getElem.mp member
    obtain ⟨cut,here,low,high⟩ := run.covers (Nat.zero_le j) (whole ▸ bound)
    refine ⟨cut,here,fun s ⟨_,start,stop,all⟩ items' done => ?_⟩
    rcases (slice_items_ok done).1 with ⟨_,rfl⟩ | ⟨_,rfl⟩
    · refine List.mem_of_getElem? (i := j - cut.1) ?_
      rw [start,stop,getElem?_slice (by dsimp only; omega)]
      dsimp only
      rw [Nat.add_sub_cancel' low,List.getElem?_eq_getElem bound]
    · exact member
  · refine ⟨first,there,fun s ⟨_,_,_,all⟩ items' done => ?_⟩
    rcases (slice_items_ok done).1 with ⟨full,_⟩ | ⟨_,rfl⟩
    · exact absurd (full.trans all) whole
    · exact member

-- What stands in a value stands in the slice of one of the shards.
theorem slice_keeps {uncut : String → Bool} {x : String} (run : Consecutive 0 cuts total) (filled : cuts ≠ []) :
    (v : Value) → keyed v = true → x ∈ left_names uncut v →
      ∃ cut ∈ cuts, ∀ s, CutBy cuts total s cut → ∀ v', slice_static_lists s v = .ok v' → x ∈ left_names uncut v' := by
  obtain ⟨first,there⟩ := List.exists_mem_of_ne_nil cuts filled
  apply Value.induction
  case list =>
      intro items each keys member
      rw [left_names,mem_left_items] at member
      obtain ⟨item,here,inside⟩ := member
      obtain ⟨cut,part,kept⟩ := each item here (keyed_items_iff.mp keys item here) inside
      refine ⟨cut,part,fun s by_cut v' done => ?_⟩
      rw [slice_static_lists] at done
      obtain ⟨sliced,slices,done⟩ := bind_ok done
      cases done
      obtain ⟨item',new,turned⟩ := forall₂_left (slice_items_each slices) here
      rw [left_names,mem_left_items]
      exact ⟨item',new,kept s by_cut item' turned⟩
  case dict =>
      intro entries each keys member
      obtain ⟨distinct,inner⟩ := Bool.and_eq_true_iff.mp keys
      have distinct := of_decide_eq_true distinct
      have inner := keyed_entries_iff.mp inner
      rw [left_names,List.mem_append] at member
      rcases member with column | entry
      · refine ⟨first,there,fun s _ v' done => ?_⟩
        rw [slice_static_lists] at done
        obtain ⟨static,_,done⟩ := bind_ok done
        obtain ⟨sliced,slices,done⟩ := bind_ok done
        cases done
        rw [left_names,sliced_column uncut (slice_entrywise slices)]
        exact List.mem_append_left _ column
      · obtain ⟨e,here,kept,inside⟩ := mem_left_entries.mp entry
        have goal : ∃ cut ∈ cuts, ∀ s, CutBy cuts total s cut → ∀ static, slice_static_items s entries = .ok static →
            ∀ v', SlicedEntry s (has_text_type entries) static e.1 e.2 v' → x ∈ left_names uncut v' := by
          by_cases listed : e.1 = "items" ∧ has_text_type entries = true
          · cases found : static_items entries with
            | none =>
                refine ⟨first,there,fun s _ static cut v' turned => ?_⟩
                unfold slice_static_items at cut
                rw [found] at cut
                cases cut
                unfold SlicedEntry at turned
                rw [if_pos listed,kept_items] at turned
                exact turned ▸ inside
            | some items =>
                have same : e.2 = .list items := by
                  have one := lookup_of_mem distinct (listed.1 ▸ here : ("items",e.2) ∈ entries)
                  have two := lookup_of_mem distinct (static_items_mem found).1
                  exact Option.some.inj (one.symm.trans two)
                rw [same,left_names,mem_left_items] at inside
                obtain ⟨item,member,inside⟩ := inside
                obtain ⟨cut,part,stays⟩ := item_sliced run filled member
                refine ⟨cut,part,fun s by_cut static sliced v' turned => ?_⟩
                unfold slice_static_items at sliced
                rw [found] at sliced
                obtain ⟨items',done,rfl⟩ := map_ok sliced
                unfold SlicedEntry at turned
                rw [if_pos listed,kept_items] at turned
                rw [turned,left_names,mem_left_items]
                exact ⟨item,stays s by_cut items' done,inside⟩
          · obtain ⟨cut,part,stays⟩ := each e here (inner e here) inside
            refine ⟨cut,part,fun s by_cut static _ v' turned => ?_⟩
            unfold SlicedEntry at turned
            rw [if_neg listed] at turned
            exact stays s by_cut v' turned
        obtain ⟨cut,part,stays⟩ := goal
        refine ⟨cut,part,fun s by_cut v' done => ?_⟩
        rw [slice_static_lists] at done
        obtain ⟨static,sliced,done⟩ := bind_ok done
        obtain ⟨entries',slices,done⟩ := bind_ok done
        cases done
        have all := slice_entrywise slices
        obtain ⟨e',new,same,turned⟩ := forall₂_left all here
        rw [left_names,sliced_column uncut all,List.mem_append,mem_left_entries]
        refine .inr ⟨e',new,?_,stays s by_cut static sliced e'.2 turned⟩
        rw [same,sliced_left turned]
        exact kept
  all_goals
    intros
    refine ⟨first,there,fun s _ v' done => ?_⟩
    rw [slice_static_lists] at done
    · cases done
      assumption
    · intro _ same
      cases same
    · intro _ same
      cases same

end

-- The texts under "node", outside of tuples.
def node_names (v : Value) : List String := (refs v).map Prod.fst

theorem mem_node_names_list {items : List Value} {x : String} : x ∈ node_names (.list items) ↔ ∃ item ∈ items, x ∈ node_names item := by
  unfold node_names
  rw [refs]
  induction items with
  | nil => simp [item_refs]
  | cons item rest ih => rw [item_refs,List.map_append,List.mem_append,ih,List.exists_mem_cons_iff]

theorem mem_node_names_dict {entries : Spec} {x : String} :
    x ∈ node_names (.dict entries) ↔ ("node",.str x) ∈ entries ∨ ∃ e ∈ entries, x ∈ node_names e.2 := by
  unfold node_names
  rw [refs,List.map_append,List.mem_append]
  refine or_congr ⟨?_,fun member => List.mem_map_of_mem (own_ref_of_mem member)⟩ ?_
  · intro member
    obtain ⟨ref,own,rfl⟩ := List.mem_map.mp member
    exact (mem_own_refs own).1
  · induction entries with
    | nil => simp [entry_refs]
    | cons e rest ih => rw [entry_refs,List.map_append,List.mem_append,ih,List.exists_mem_cons_iff]

-- A node of the graph that is not cut.
def uncut_in (node_map : NodeMap) (shards : Workers) (x : String) : Bool := decide (x ∉ shards) && decide (x ∈ node_map)

def column_value (s : Shard) (dep_total : Option Nat) (dep_id path : String) : Value :=
  .dict [("type",.str "list"),("items",.list (inline_items s dep_total dep_id path))]

section
variable {node_map : NodeMap} {s : Shard} {shards : Workers}

theorem inline_column_ok {entries : Spec} {column : Option Value} (done : inline_column node_map s shards entries = .ok column) :
    column_path (uncut_in node_map shards) entries = none ∧ column = none ∨
      ∃ ref_node path dep_total, column_path (uncut_in node_map shards) entries = some path ∧
        ("node",.str ref_node) ∈ entries ∧ is_unindexed_items_path path = true ∧
        column = some (column_value s dep_total ref_node path) := by
  have whole : ∀ ref_node, check_whole node_map s ref_node = .ok column → column = none := by
    intro ref_node done
    obtain ⟨total,_,done⟩ := bind_ok done
    split at done
    · cases done
    · cases done
      rfl
  unfold inline_column at done
  split at done
  · rename_i ref_node named
    have node := text_at_eq.mpr named
    split at done
    · rename_i away
      cases done
      refine .inl ⟨?_,rfl⟩
      have cut : uncut_in node_map shards ref_node = false := by
        unfold uncut_in
        rcases away with sharded | unknown
        · rw [decide_eq_false (not_not.mpr sharded),Bool.false_and]
        · rw [decide_eq_false unknown,Bool.and_false]
      unfold column_path
      rw [node]
      cases text_at entries "path" with
      | none => rfl
      | some path =>
          dsimp only
          rw [cut]
          rfl
    · rename_i known
      obtain ⟨uncut,present⟩ := not_or.mp known
      have pathless : text_at entries "path" = none → column_path (uncut_in node_map shards) entries = none := by
        intro none_there
        unfold column_path
        rw [node,none_there]
      have stands : uncut_in node_map shards ref_node = true := by
        unfold uncut_in
        rw [decide_eq_true uncut,decide_eq_true (not_not.mp present)]
        rfl
      split at done
      · rename_i path there
        have own : column_path (uncut_in node_map shards) entries = if is_unindexed_items_path path then some path else none := by
          unfold column_path
          rw [node,text_at_eq.mpr there]
          dsimp only
          rw [stands,Bool.true_and]
        split at done
        · rename_i unindexed
          rw [if_pos unindexed] at own
          obtain ⟨dep_total,_,done⟩ := bind_ok done
          split at done
          · cases done
            exact .inr ⟨ref_node,path,dep_total,own,get?_mem named,unindexed,rfl⟩
          · cases done
        · rename_i indexed
          rw [if_neg indexed] at own
          cases done
          exact .inl ⟨own,rfl⟩
      · rename_i there
        exact .inl ⟨pathless (text_at_none there fun _ same => by cases same),whole ref_node done⟩
      · rename_i there
        refine .inl ⟨pathless ?_,whole ref_node done⟩
        unfold text_at
        rw [there]
      · rename_i other _ there
        cases done
        exact .inl ⟨pathless (text_at_none there other),rfl⟩
  · rename_i unnamed
    cases done
    refine .inl ⟨?_,rfl⟩
    have nameless : text_at entries "node" = none := by
      unfold text_at
      split
      · rename_i text here
        exact absurd here (unnamed text)
      · rfl
    unfold column_path
    rw [nameless]

-- The references that stand for a column carry the placeholders of its path, and name its node.
theorem column_value_names (filled : s.start < s.stop) {dep_total : Option Nat} {dep_id path : String}
    (unindexed : is_unindexed_items_path path = true) (x : String) :
    (x ∈ left_names plain (column_value s dep_total dep_id path) ↔ x ∈ text_names path) ∧
      (x ∈ node_names (column_value s dep_total dep_id path) → x = dep_id) := by
  have each : ∀ item, item ∈ inline_items s dep_total dep_id path ↔ ∃ idx, s.start ≤ idx ∧ idx < s.stop ∧
      item = .dict [("node",.str dep_id),("path",.str (indexed_path path (if dep_total = some 1 then 0 else idx)))] := by
    intro item
    unfold inline_items
    rw [List.mem_map]
    constructor
    · rintro ⟨idx,member,rfl⟩
      have bounds := List.mem_range'_1.mp member
      exact ⟨idx,bounds.1,by omega,rfl⟩
    · rintro ⟨idx,low,high,rfl⟩
      exact ⟨idx,List.mem_range'_1.mpr ⟨low,by omega⟩,rfl⟩
  have names : ∀ idx, x ∈ left_names plain (.dict [("node",.str dep_id),
      ("path",.str (indexed_path path (if dep_total = some 1 then 0 else idx)))]) ↔ x ∈ text_names path := by
    intro idx
    rw [left_plain_dict,left_entries_cons,left_entries_cons,left_names,left_names,indexed_names unindexed]
    simp [left_entries,is_text]
  constructor
  · unfold column_value
    rw [left_plain_dict,left_entries_cons,left_entries_cons,left_names,left_names,
      show text_names "list" = [] from by decide]
    simp only [replaced_none,Bool.false_or,List.append_nil,left_entries,ite_self,List.nil_append]
    rw [if_neg (by simp [is_text]),mem_left_items]
    constructor
    · rintro ⟨item,member,inside⟩
      obtain ⟨idx,_,_,rfl⟩ := (each item).mp member
      exact (names idx).mp inside
    · intro inside
      exact ⟨_,(each _).mpr ⟨s.start,Nat.le_refl _,filled,rfl⟩,(names s.start).mpr inside⟩
  · unfold column_value
    intro member
    rcases mem_node_names_dict.mp member with own | ⟨e,entry,inside⟩
    · simp at own
    · simp only [List.mem_cons,List.not_mem_nil,or_false] at entry
      rcases entry with rfl | rfl
      · cases inside
      · obtain ⟨item,there,inside⟩ := mem_node_names_list.mp inside
        obtain ⟨idx,_,_,rfl⟩ := (each item).mp there
        rcases mem_node_names_dict.mp inside with own | ⟨e,entry,inside⟩
        · simpa using own
        · simp only [List.mem_cons,List.not_mem_nil,or_false] at entry
          rcases entry with rfl | rfl <;> cases inside

theorem inlined_text {v v' : Value} (done : inline_unsharded_dependency_slices node_map s shards v = .ok v') : is_text v' = is_text v := by
  refine Bool.eq_iff_iff.mpr ?_
  rw [is_text_iff,is_text_iff]
  constructor
  · rintro ⟨text,rfl⟩
    exact ⟨text,inline_is_text done⟩
  · rintro ⟨text,rfl⟩
    rw [inline_text] at done
    cases done
    exact ⟨text,rfl⟩

-- The entries of a mapping after inlining; those under "data" hold the column, if there is one.
theorem inline_entries_left {uncut : String → Bool} {path : Option String} {column : Option Value} {entries entries' : Spec}
    {x : String} (both : path.isSome = column.isSome) (mapping : column.isSome → is_text (column.getD .none) = false)
    (each : ∀ e ∈ entries, ∀ v', inline_unsharded_dependency_slices node_map s shards e.2 = .ok v' →
      (x ∈ left_names plain v' ↔ x ∈ left_names uncut e.2))
    (done : inline_entries node_map s shards column entries = .ok entries') :
    (x ∈ left_entries plain none entries' ↔ x ∈ left_entries uncut path entries ∨
      (column.isSome ∧ "data" ∈ entries.map Prod.fst ∧ x ∈ left_names plain (column.getD .none))) ∧
      ("data" ∈ entries'.map Prod.fst ↔ "data" ∈ entries.map Prod.fst) := by
  induction entries generalizing entries' with
  | nil =>
      cases done
      simp [left_entries]
  | cons e rest ih =>
      obtain ⟨key,item⟩ := e
      obtain ⟨here,others⟩ := List.forall_mem_cons.mp each
      rcases inline_cons done with ⟨column_some,dropped,later⟩ | ⟨kept,item',rest',rfl,later,turned⟩
      · obtain ⟨names,keys⟩ := ih others later
        have other : "data" ≠ key := by rcases dropped with rfl | rfl <;> decide
        have gone : replaced path key = true := by
          unfold replaced
          rw [both,column_some]
          rcases dropped with rfl | rfl <;> rfl
        rw [left_entries_cons,gone,Bool.true_or,if_pos rfl,List.nil_append,names,keys,List.map_cons,List.mem_cons]
        exact ⟨by simp [other],by simp [other]⟩
      · obtain ⟨names,keys⟩ := ih others later
        rw [left_entries_cons,left_entries_cons,List.mem_append,List.mem_append,names,List.map_cons,List.map_cons,List.mem_cons,
          List.mem_cons,keys]
        refine ⟨?_,Iff.rfl⟩
        by_cases data : column.isSome ∧ key = "data"
        · obtain ⟨column_some,rfl⟩ := data
          rw [if_pos ⟨column_some,rfl⟩] at turned
          have gone : replaced path "data" = true := by
            unfold replaced
            rw [both,column_some]
            rfl
          have shown : (replaced none "data" || ("data" == "node" && is_text item')) = false := by
            rw [turned,mapping column_some,replaced_none,Bool.and_false]
            rfl
          rw [gone,Bool.true_or,if_pos rfl,shown,if_neg Bool.false_ne_true,turned]
          constructor
          · rintro (here | old | ⟨_,_,inside⟩)
            · exact .inr ⟨column_some,.inl rfl,here⟩
            · exact .inl (.inr old)
            · exact .inr ⟨column_some,.inl rfl,inside⟩
          · rintro ((nothing | old) | ⟨_,_,inside⟩)
            · cases nothing
            · exact .inr (.inl old)
            · exact .inl inside
        · rw [if_neg data] at turned
          have stays : replaced path key = false := by
            unfold replaced
            rw [both]
            by_cases column_some : column.isSome
            · have apart := fun same => kept ⟨column_some,same⟩
              have other := fun same => data ⟨column_some,same⟩
              rw [beq_eq_false_iff_ne.mpr (fun same => apart (.inl same)),beq_eq_false_iff_ne.mpr (fun same => apart (.inr same)),
                beq_eq_false_iff_ne.mpr other]
              simp
            · rw [Bool.eq_false_of_not_eq_true column_some,Bool.false_and]
          rw [stays,replaced_none,inlined_text turned]
          have first := here item' turned
          have shadow : ∀ later : Prop, column.isSome ∧ ("data" = key ∨ later) ∧ x ∈ left_names plain (column.getD .none) ↔
              column.isSome ∧ later ∧ x ∈ left_names plain (column.getD .none) := by
            intro later
            refine and_congr_right fun column_some => and_congr_left fun _ => ?_
            exact or_iff_right fun same => data ⟨column_some,same.symm⟩
          rw [shadow,or_assoc]
          refine or_congr ?_ Iff.rfl
          split
          · exact Iff.rfl
          · exact first

theorem inline_left (filled : s.start < s.stop) {x : String} : (v : Value) → ∀ v',
    inline_unsharded_dependency_slices node_map s shards v = .ok v' →
      (x ∈ left_names plain v' ↔ x ∈ left_names (uncut_in node_map shards) v) := by
  apply Value.induction
  case list =>
      intro items each v' done
      rw [inline_unsharded_dependency_slices] at done
      obtain ⟨inlined,run,done⟩ := bind_ok done
      cases done
      have all := inline_items_each run
      rw [left_names,left_names,mem_left_items,mem_left_items]
      constructor
      · rintro ⟨item',there,inside⟩
        obtain ⟨item,here,turned⟩ := forall₂_right all there
        exact ⟨item,here,(each item here item' turned).mp inside⟩
      · rintro ⟨item,here,inside⟩
        obtain ⟨item',there,turned⟩ := forall₂_left all here
        exact ⟨item',there,(each item here item' turned).mpr inside⟩
  case dict =>
      intro entries each v' done
      rw [inline_unsharded_dependency_slices] at done
      obtain ⟨column,read,done⟩ := bind_ok done
      obtain ⟨inlined,run,done⟩ := bind_ok done
      cases done
      rw [left_plain_dict,left_names,List.mem_append]
      rcases inline_column_ok read with ⟨no_path,rfl⟩ | ⟨ref_node,path,dep_total,own,_,unindexed,rfl⟩
      · rw [no_path]
        have both : (none : Option String).isSome = (none : Option Value).isSome := rfl
        obtain ⟨names,_⟩ := inline_entries_left both (by simp) each run
        rw [put_data,names]
        simp
      · rw [own]
        have both : (some path).isSome = (some (column_value s dep_total ref_node path)).isSome := rfl
        obtain ⟨names,keys⟩ := inline_entries_left both (fun _ => rfl) each run
        have column := (@column_value_names _ filled dep_total ref_node path unindexed x).1
        rw [Option.getD_some,column] at names
        rw [put_data,Option.map_some,Option.getD_some]
        split
        · rename_i present
          rw [names]
          constructor
          · rintro (old | ⟨_,_,inside⟩)
            · exact .inr old
            · exact .inl inside
          · rintro (inside | old)
            · exact .inr ⟨rfl,keys.mp present,inside⟩
            · exact .inl old
        · rename_i absent
          have bare : "data" ∉ entries.map Prod.fst := fun held => absent (keys.mpr held)
          have added : x ∈ left_entries plain none (inlined ++ [("data",column_value s dep_total ref_node path)]) ↔
              x ∈ left_entries plain none inlined ∨ x ∈ left_names plain (column_value s dep_total ref_node path) := by
            rw [mem_left_entries,mem_left_entries]
            simp only [List.mem_append,List.mem_singleton,or_and_right,exists_or,exists_eq_left]
            refine or_congr Iff.rfl ?_
            simp [column_value,is_text]
          rw [added,names,column]
          constructor
          · rintro ((old | ⟨_,held,_⟩) | inside)
            · exact .inr old
            · exact absurd held bare
            · exact .inl inside
          · rintro (inside | old)
            · exact .inr inside
            · exact .inl (.inl old)
  all_goals
    intros
    rename_i done
    rw [inline_unsharded_dependency_slices] at done
    · cases done
      rfl
    · intro _ same
      cases same
    · intro _ same
      cases same

theorem rename_node_names {x : String} : (v : Value) → ∀ v', rewrite_shard_node_references s shards v = .ok v' →
    x ∈ node_names v' → ∃ y ∈ node_names v, shard_reference s shards y = .ok x := by
  apply Value.induction
  case list =>
      intro items each v' done member
      rw [rewrite_shard_node_references] at done
      obtain ⟨renamed,run,done⟩ := bind_ok done
      cases done
      obtain ⟨item',there,inside⟩ := mem_node_names_list.mp member
      obtain ⟨item,here,turned⟩ := forall₂_right (rename_items_each run) there
      obtain ⟨y,own,named⟩ := each item here item' turned inside
      exact ⟨y,mem_node_names_list.mpr ⟨item,here,own⟩,named⟩
  case dict =>
      intro entries each v' done member
      rw [rewrite_shard_node_references] at done
      obtain ⟨renamed,run,done⟩ := bind_ok done
      cases done
      have all := rename_entrywise run
      rcases mem_node_names_dict.mp member with own | ⟨e',there,inside⟩
      · obtain ⟨⟨key,v⟩,here,same,⟨text,text',_,rfl,named,same'⟩ | ⟨other,turned⟩⟩ := forall₂_right all own
        · cases same
          cases same'
          exact ⟨text,mem_node_names_dict.mpr (.inl here),named⟩
        · exact absurd (rename_is_text turned) (other same.symm x)
      · obtain ⟨⟨key,v⟩,here,_,⟨text,text',_,_,_,same'⟩ | ⟨_,turned⟩⟩ := forall₂_right all there
        · rw [same'] at inside
          cases inside
        · obtain ⟨y,own,named⟩ := each _ here e'.2 turned inside
          exact ⟨y,mem_node_names_dict.mpr (.inr ⟨_,here,own⟩),named⟩
  all_goals
    intros
    rename_i done member
    rw [rewrite_shard_node_references] at done
    · cases done
      cases member
    · intro _ same
      cases same
    · intro _ same
      cases same

theorem slice_node_names {x : String} : (v : Value) → ∀ v', slice_static_lists s v = .ok v' → x ∈ node_names v' →
    x ∈ node_names v := by
  apply Value.induction
  case list =>
      intro items each v' done member
      rw [slice_static_lists] at done
      obtain ⟨sliced,run,done⟩ := bind_ok done
      cases done
      obtain ⟨item',there,inside⟩ := mem_node_names_list.mp member
      obtain ⟨item,here,turned⟩ := forall₂_right (slice_items_each run) there
      exact mem_node_names_list.mpr ⟨item,here,each item here item' turned inside⟩
  case dict =>
      intro entries each v' done member
      rw [slice_static_lists] at done
      obtain ⟨static,cut,done⟩ := bind_ok done
      obtain ⟨sliced,run,done⟩ := bind_ok done
      cases done
      have all := slice_entrywise run
      rw [mem_node_names_dict] at member ⊢
      rcases member with own | ⟨e',there,inside⟩
      · obtain ⟨⟨key,v⟩,here,same,entry⟩ := forall₂_right all own
        dsimp only at same entry
        unfold SlicedEntry at entry
        rw [if_neg fun both => absurd (same.trans both.1) (by decide)] at entry
        cases slice_is_text entry
        exact .inl (same ▸ here)
      · obtain ⟨e,here,_,entry⟩ := forall₂_right all there
        unfold SlicedEntry at entry
        split at entry
        · cases static with
          | none =>
              rw [kept_items] at entry
              exact .inr ⟨e,here,entry ▸ inside⟩
          | some items' =>
              rw [kept_items] at entry
              rw [entry] at inside
              obtain ⟨item,member,inside⟩ := mem_node_names_list.mp inside
              unfold slice_static_items at cut
              split at cut
              · rename_i items found
                obtain ⟨_,cut,same'⟩ := map_ok cut
                cases same'
                exact .inr ⟨_,(static_items_mem found).1,
                  mem_node_names_list.mpr ⟨item,(slice_items_ok cut).2 item member,inside⟩⟩
              · cases cut
        · exact .inr ⟨e,here,each e here e'.2 entry inside⟩
  all_goals
    intros
    rename_i done member
    rw [slice_static_lists] at done
    · cases done
      exact member
    · intro _ same
      cases same
    · intro _ same
      cases same

theorem inline_entries_origin {column : Option Value} {entries entries' : Spec}
    (done : inline_entries node_map s shards column entries = .ok entries') : ∀ e' ∈ entries',
      (column.isSome ∧ e'.1 = "data" ∧ e'.2 = column.getD .none) ∨
        ∃ e ∈ entries, e'.1 = e.1 ∧ inline_unsharded_dependency_slices node_map s shards e.2 = .ok e'.2 := by
  induction entries generalizing entries' with
  | nil =>
      cases done
      exact fun e' member => absurd member List.not_mem_nil
  | cons e rest ih =>
      obtain ⟨key,item⟩ := e
      have later_of : ∀ {e' : String × Value} {rest' : Spec}, inline_entries node_map s shards column rest = .ok rest' → e' ∈ rest' →
          (column.isSome ∧ e'.1 = "data" ∧ e'.2 = column.getD .none) ∨ ∃ e ∈ (key,item) :: rest, e'.1 = e.1 ∧
            inline_unsharded_dependency_slices node_map s shards e.2 = .ok e'.2 := by
        intro e' rest' later member
        rcases ih later e' member with data | ⟨e,here,facts⟩
        · exact .inl data
        · exact .inr ⟨e,List.mem_cons_of_mem _ here,facts⟩
      rcases inline_cons done with ⟨_,_,later⟩ | ⟨_,item',rest',rfl,later,turned⟩
      · exact fun e' member => later_of later member
      · intro e' member
        rcases List.mem_cons.mp member with rfl | member
        · split at turned
          · rename_i data
            exact .inl ⟨data.1,data.2,turned⟩
          · exact .inr ⟨(key,item),List.mem_cons_self,rfl,turned⟩
        · exact later_of later member

theorem inline_node_names (filled : s.start < s.stop) {x : String} : (v : Value) → ∀ v',
    inline_unsharded_dependency_slices node_map s shards v = .ok v' → x ∈ node_names v' → x ∈ node_names v := by
  apply Value.induction
  case list =>
      intro items each v' done member
      rw [inline_unsharded_dependency_slices] at done
      obtain ⟨inlined,run,done⟩ := bind_ok done
      cases done
      obtain ⟨item',there,inside⟩ := mem_node_names_list.mp member
      obtain ⟨item,here,turned⟩ := forall₂_right (inline_items_each run) there
      exact mem_node_names_list.mpr ⟨item,here,each item here item' turned inside⟩
  case dict =>
      intro entries each v' done member
      rw [inline_unsharded_dependency_slices] at done
      obtain ⟨column,read,done⟩ := bind_ok done
      obtain ⟨inlined,run,done⟩ := bind_ok done
      cases done
      have put : ∀ e' ∈ put_data inlined column, e' ∈ inlined ∨ ∃ data, column = some data ∧ e' = ("data",data) := by
        intro e' there
        unfold put_data at there
        split at there
        · split at there
          · exact .inl there
          · rcases List.mem_append.mp there with old | new
            · exact .inl old
            · exact .inr ⟨_,rfl,List.mem_singleton.mp new⟩
        · exact .inl there
      have of_column : ∀ data, column = some data → x ∈ node_names data → x ∈ node_names (.dict entries) := by
        intro data some_column inside
        rcases inline_column_ok read with ⟨_,none_column⟩ | ⟨ref_node,path,dep_total,_,own,unindexed,same⟩
        · cases none_column.symm.trans some_column
        · cases same.symm.trans some_column
          rw [(column_value_names filled unindexed x).2 inside]
          exact mem_node_names_dict.mpr (.inl own)
      rcases mem_node_names_dict.mp member with own | ⟨e',there,inside⟩
      · rcases put _ own with old | ⟨data,_,same⟩
        · rcases inline_entries_origin run _ old with ⟨_,key,_⟩ | ⟨e,here,same,turned⟩
          · exact absurd (show "node" = "data" from key) (by decide)
          · have text : e = ("node",.str x) := Prod.ext same.symm (inline_is_text turned)
            exact mem_node_names_dict.mpr (.inl (text ▸ here))
        · exact absurd (show "node" = "data" from congrArg Prod.fst same) (by decide)
      · rcases put _ there with old | ⟨data,some_column,rfl⟩
        · rcases inline_entries_origin run _ old with ⟨some_column,_,same⟩ | ⟨e,here,_,turned⟩
          · obtain ⟨data,found⟩ := Option.isSome_iff_exists.mp some_column
            rw [same,found,Option.getD_some] at inside
            exact of_column data found inside
          · exact mem_node_names_dict.mpr (.inr ⟨e,here,each e here e'.2 turned inside⟩)
        · exact of_column data some_column inside
  all_goals
    intros
    rename_i done member
    rw [inline_unsharded_dependency_slices] at done
    · cases done
      exact member
    · intro _ same
      cases same
    · intro _ same
      cases same

end

theorem mem_names_items {items : List Value} {x : String} : x ∈ names_in_items items ↔ ∃ item ∈ items, x ∈ names_in item := by
  induction items with
  | nil => simp [names_in_items]
  | cons item rest ih => rw [names_in_items,List.mem_append,ih,List.exists_mem_cons_iff]

-- A name that a value refers to stands under "node", or in a placeholder.
theorem names_in_iff {x : String} : (v : Value) → (x ∈ names_in v ↔ x ∈ node_names v ∨ x ∈ left_names plain v) := by
  apply Value.induction
  case list =>
      intro items each
      rw [names_in,mem_names_items,mem_node_names_list,left_names,mem_left_items]
      constructor
      · rintro ⟨item,here,inside⟩
        exact ((each item here).mp inside).imp (fun own => ⟨item,here,own⟩) fun left => ⟨item,here,left⟩
      · rintro (⟨item,here,inside⟩ | ⟨item,here,inside⟩)
        · exact ⟨item,here,(each item here).mpr (.inl inside)⟩
        · exact ⟨item,here,(each item here).mpr (.inr inside)⟩
  case dict =>
      intro entries each
      have entries_iff : x ∈ names_in_entries entries ↔
          ("node",.str x) ∈ entries ∨ ∃ e ∈ entries, (e.1 == "node" && is_text e.2) = false ∧ x ∈ names_in e.2 := by
        clear each
        induction entries with
        | nil => simp [names_in_entries]
        | cons e rest ih =>
            obtain ⟨key,item⟩ := e
            rw [List.mem_cons,List.exists_mem_cons_iff,or_or_or_comm,← ih]
            cases item with
            | str text =>
                rw [names_in_entries,List.mem_append]
                refine or_congr ?_ Iff.rfl
                by_cases named : key = "node"
                · rw [if_pos named]
                  simp [named,is_text]
                · rw [if_neg named]
                  simp [named,names_in]
                  exact fun same => absurd same.symm named
            | _ =>
                rw [names_in_entries,List.mem_append]
                · refine or_congr ?_ Iff.rfl
                  simp [is_text]
                · intro _ same
                  cases same
      rw [names_in,entries_iff,mem_node_names_dict,left_plain_dict,mem_left_entries]
      constructor
      · rintro (own | ⟨e,here,kept,inside⟩)
        · exact .inl (.inl own)
        · rcases (each e here).mp inside with own | left
          · exact .inl (.inr ⟨e,here,own⟩)
          · exact .inr ⟨e,here,by rw [replaced_none,Bool.false_or]; exact kept,left⟩
      · rintro ((own | ⟨e,here,inside⟩) | ⟨e,here,kept,inside⟩)
        · exact .inl own
        · refine .inr ⟨e,here,?_,(each e here).mpr (.inl inside)⟩
          cases item : e.2 with
          | str text =>
              rw [item] at inside
              cases inside
          | _ => simp [is_text]
        · rw [replaced_none,Bool.false_or] at kept
          exact .inr ⟨e,here,kept,(each e here).mpr (.inr inside)⟩
  all_goals
    intros
    simp [names_in,node_names,refs,left_names]

-- The spec of a shard before its references are rewritten.
def DataEntry (data : Value) (key : String) (v v' : Value) : Prop := v' = if key = "data" then data else v

theorem data_entrywise (data : Value) (spec : Spec) :
    Entrywise (DataEntry data) spec (spec.map fun entry => if entry.1 = "data" then (entry.1,data) else entry) := by
  induction spec with
  | nil => exact .nil
  | cons e rest ih =>
      refine .cons ?_ ih
      unfold DataEntry
      dsimp only
      by_cases key : e.1 = "data"
      · rw [if_pos key,if_pos key]
        exact ⟨rfl,rfl⟩
      · rw [if_neg key,if_neg key]
        exact ⟨rfl,rfl⟩

theorem data_column (uncut : String → Bool) {data : Value} {spec sliced : Spec} (all : Entrywise (DataEntry data) spec sliced) :
    column_path uncut sliced = column_path uncut spec := by
  have same : ∀ key, key ≠ "data" → text_at sliced key = text_at spec key := by
    intro key other
    refine text_at_same all fun v v' entry text => ?_
    unfold DataEntry at entry
    rw [if_neg other] at entry
    rw [entry]
  unfold column_path
  rw [same "node" (by decide),same "path" (by decide)]

section
variable {node_map : NodeMap} {s : Shard} {shards : Workers} {spec spec' : Spec} {x : String}

theorem rewrite_shard_spec_ok (done : rewrite_shard_spec node_map s shards spec = .ok spec') :
    ∃ data data' referenced, ("data",.dict data) ∈ spec ∧ slice_static_lists s (.dict data) = .ok data' ∧
      rewrite_shard_node_references s shards (.dict (spec.map fun entry => if entry.1 = "data" then (entry.1,data') else entry)) =
        .ok (.dict referenced) ∧ inline_unsharded_dependency_slices node_map s shards (.dict referenced) = .ok (.dict spec') := by
  unfold rewrite_shard_spec at done
  split at done
  · rename_i data found
    obtain ⟨data',sliced,done⟩ := bind_ok done
    obtain ⟨referenced,renamed,done⟩ := bind_ok done
    refine ⟨data,data',referenced,get?_mem found,sliced,?_,?_⟩
    · rw [rewrite_shard_node_references]
      exact (congrArg (· >>= fun entries => pure (Value.dict entries)) renamed : _)
    · obtain ⟨column,read,done⟩ := bind_ok done
      obtain ⟨inlined,run,done⟩ := bind_ok done
      cases done
      rw [inline_unsharded_dependency_slices,read,ok_bind,run]
      rfl
  · cases done

-- The names in the spec of a shard: what the rewriting leaves, and what it renames.
theorem shard_spec_names (apart : Apart (uncut_in node_map shards) shards) (filled : s.start < s.stop)
    (done : rewrite_shard_spec node_map s shards spec = .ok spec') (member : x ∈ names_in (.dict spec')) :
    x ∈ left_names (uncut_in node_map shards) (.dict spec) ∨
      ∃ y ∈ node_names (.dict spec), shard_reference s shards y = .ok x := by
  obtain ⟨data,data',referenced,found,sliced,renamed,inlined⟩ := rewrite_shard_spec_ok done
  have all := data_entrywise data' spec
  rcases (names_in_iff _).mp member with own | left
  · have own := inline_node_names filled _ _ inlined own
    obtain ⟨y,own,named⟩ := rename_node_names _ _ renamed own
    refine .inr ⟨y,?_,named⟩
    rw [mem_node_names_dict] at own ⊢
    rcases own with own | ⟨e',there,inside⟩
    · obtain ⟨⟨key,v⟩,here,same,entry⟩ := forall₂_right all own
      dsimp only at same entry
      unfold DataEntry at entry
      rw [if_neg fun data => absurd (same.trans data) (by decide)] at entry
      exact .inl (by rw [entry,same]; exact here)
    · obtain ⟨e,here,_,entry⟩ := forall₂_right all there
      unfold DataEntry at entry
      split at entry
      · rw [entry] at inside
        exact .inr ⟨_,found,slice_node_names _ _ sliced inside⟩
      · exact .inr ⟨e,here,entry ▸ inside⟩
  · have left := (inline_left filled _ _ inlined).mp left
    rw [rename_left apart _ _ renamed] at left
    refine .inl ?_
    rw [left_names,data_column _ all,List.mem_append] at left
    rw [left_names,List.mem_append]
    refine left.imp id fun left => ?_
    rw [mem_left_entries] at left ⊢
    obtain ⟨e',there,kept,inside⟩ := left
    obtain ⟨e,here,same,entry⟩ := forall₂_right all there
    unfold DataEntry at entry
    split at entry
    · rename_i key
      rw [entry] at inside
      have shown : (replaced (column_path (uncut_in node_map shards) spec) "data" || ("data" == "node" && is_text (.dict data))) = false := by
        rw [same,key] at kept
        rw [(Bool.or_eq_false_iff.mp kept).1]
        rfl
      exact ⟨_,found,shown,slice_left _ _ sliced inside⟩
    · rw [same,entry] at kept
      exact ⟨e,here,kept,entry ▸ inside⟩

end

-- What the rewriting leaves in a spec, it leaves in the spec of one of the shards.
theorem shard_spec_keeps {node_map : NodeMap} {shards : Workers} {spec : Spec} {x : String} {cuts : List Cut} {total : Nat}
    (run : Consecutive 0 cuts total) (filled : cuts ≠ []) (apart : Apart (uncut_in node_map shards) shards)
    (keys : keyed (.dict spec) = true) (member : x ∈ left_names (uncut_in node_map shards) (.dict spec)) :
    ∃ cut ∈ cuts, ∀ s, CutBy cuts total s cut → ∀ spec', rewrite_shard_spec node_map s shards spec = .ok spec' →
      x ∈ names_in (.dict spec') := by
  obtain ⟨first,there⟩ := List.exists_mem_of_ne_nil cuts filled
  obtain ⟨distinct,inner⟩ := Bool.and_eq_true_iff.mp keys
  have distinct := of_decide_eq_true distinct
  have inner := keyed_entries_iff.mp inner
  have goal : ∃ cut ∈ cuts, ∀ s, CutBy cuts total s cut → ∀ data data', ("data",.dict data) ∈ spec →
      slice_static_lists s (.dict data) = .ok data' → x ∈ left_names (uncut_in node_map shards)
        (.dict (spec.map fun entry => if entry.1 = "data" then (entry.1,data') else entry)) := by
    rw [left_names,List.mem_append] at member
    rcases member with column | left
    · refine ⟨first,there,fun s _ data data' _ _ => ?_⟩
      rw [left_names,data_column _ (data_entrywise data' spec),List.mem_append]
      exact .inl column
    · obtain ⟨e,here,kept,inside⟩ := mem_left_entries.mp left
      by_cases key : e.1 = "data"
      · by_cases mapping : ∃ data, e.2 = .dict data
        · obtain ⟨data,same⟩ := mapping
          rw [same] at inside
          obtain ⟨cut,part,stays⟩ := slice_keeps run filled _ (same ▸ inner e here) inside
          refine ⟨cut,part,fun s by_cut other data' found sliced => ?_⟩
          have one := lookup_of_mem distinct (show ("data",e.2) ∈ spec from key ▸ here)
          have two := lookup_of_mem distinct found
          cases same.symm.trans (Option.some.inj (one.symm.trans two))
          have all := data_entrywise data' spec
          obtain ⟨e',new,named,entry⟩ := forall₂_left all here
          unfold DataEntry at entry
          rw [if_pos key] at entry
          rw [left_names,data_column _ all,List.mem_append,mem_left_entries]
          refine .inr ⟨e',new,?_,by rw [entry]; exact stays s by_cut data' sliced⟩
          rw [named,(Bool.or_eq_false_iff.mp kept).1,key]
          rfl
        · refine ⟨first,there,fun s _ data data' found _ => ?_⟩
          have one := lookup_of_mem distinct (show ("data",e.2) ∈ spec from key ▸ here)
          have two := lookup_of_mem distinct found
          exact absurd ⟨data,Option.some.inj (one.symm.trans two)⟩ mapping
      · refine ⟨first,there,fun s _ data data' _ _ => ?_⟩
        have all := data_entrywise data' spec
        obtain ⟨e',new,named,entry⟩ := forall₂_left all here
        unfold DataEntry at entry
        rw [if_neg key] at entry
        rw [left_names,data_column _ all,List.mem_append,mem_left_entries]
        exact .inr ⟨e',new,by rw [named,entry]; exact kept,entry ▸ inside⟩
  obtain ⟨cut,part,stays⟩ := goal
  refine ⟨cut,part,fun s by_cut spec' done => ?_⟩
  obtain ⟨data,data',referenced,found,sliced,renamed,inlined⟩ := rewrite_shard_spec_ok done
  have left := stays s by_cut data data' found sliced
  rw [← rename_left apart _ _ renamed] at left
  have interval : s.start < s.stop := by
    obtain ⟨_,start,stop,_⟩ := by_cut
    have bounds := run.bounds part
    omega
  exact (names_in_iff _).mpr (.inr ((inline_left interval _ _ inlined).mpr left))

-- What is left of the names in a value are names in it.
theorem left_sub {uncut : String → Bool} {x : String} : (v : Value) → x ∈ left_names uncut v → x ∈ names_in v := by
  apply Value.induction
  case list =>
      intro items each member
      obtain ⟨item,here,inside⟩ := mem_left_items.mp (by rw [left_names] at member; exact member)
      rcases (names_in_iff item).mp (each item here inside) with own | left
      · exact (names_in_iff _).mpr (.inl (mem_node_names_list.mpr ⟨item,here,own⟩))
      · refine (names_in_iff _).mpr (.inr ?_)
        rw [left_names]
        exact mem_left_items.mpr ⟨item,here,left⟩
  case dict =>
      intro entries each member
      have of_entry : ∀ e ∈ entries, (e.1 == "node" && is_text e.2) = false → x ∈ names_in e.2 → x ∈ names_in (.dict entries) := by
        intro e here kept inside
        rw [names_in_iff,mem_node_names_dict,left_plain_dict,mem_left_entries]
        rcases (names_in_iff e.2).mp inside with own | left
        · exact .inl (.inr ⟨e,here,own⟩)
        · exact .inr ⟨e,here,by rw [replaced_none,Bool.false_or]; exact kept,left⟩
      rw [left_names,List.mem_append] at member
      rcases member with column | left
      · unfold column_path at column
        split at column
        · rename_i ref_node path _ there
          split at column
          · refine of_entry ("path",.str path) (get?_mem (text_at_eq.mp there)) rfl ?_
            rw [names_in]
            exact column
          · cases column
        · cases column
      · obtain ⟨e,here,kept,inside⟩ := mem_left_entries.mp left
        exact of_entry e here (Bool.or_eq_false_iff.mp kept).2 (each e here inside)
  all_goals
    intros
    rename_i member
    rw [left_names] at member
    · exact member
    all_goals
      intro _ same
      cases same

-- A merge node refers to the shards that it gathers.
theorem merge_names {raw_node_id : String} {shard_names : List String} {partitions : List Cut} {x : String}
    (member : x ∈ names_in (.dict (build_merge_node raw_node_id shard_names partitions).spec)) : x ∈ shard_names := by
  have plain_texts : text_names "echo" = [] ∧ text_names "list" = [] ∧ text_names "items.output" = [] := by decide
  unfold build_merge_node at member
  simp only [names_in,names_in_entries,plain_texts.1,plain_texts.2.1,String.reduceEq,if_false,List.nil_append,List.append_nil]
    at member
  obtain ⟨item,there,inside⟩ := mem_names_items.mp member
  obtain ⟨shard,here,rfl⟩ := List.mem_map.mp there
  simp only [names_in,names_in_entries,plain_texts.2.2,String.reduceEq,if_true,if_false,List.append_nil,List.mem_singleton]
    at inside
  rw [inside]
  exact (List.of_mem_zip (List.mem_filter.mp here).1).1

end Lumilake.RuntimeManager

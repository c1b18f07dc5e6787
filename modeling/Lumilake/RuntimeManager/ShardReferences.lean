import Lumilake.RuntimeManager.ShardSpec

namespace Lumilake.RuntimeManager
open Cuts
variable {node_map : NodeMap} {s : Shard} {shards : Workers}

-- What a reference reads: a field of every row, of one row, or the whole output.
inductive RefPath where
  | rows (field : String)
  | cell (field : String) (idx : Nat)
  | whole (path : Option Value)
  deriving DecidableEq

def cell_index (text : List Char) : Option (String × Nat) :=
  match split_items text with
  | some (head,'[' :: rest) =>
      match rest.dropWhile Char.isDigit with
      | ']' :: suffix => some (String.ofList (head ++ "items".toList ++ suffix),
          Nat.ofDigitChars 10 (rest.takeWhile Char.isDigit) 0)
      | _ => none
  | _ => none

def ref_path : Option Value → RefPath
  | some (.str path) =>
      if is_unindexed_items_path path then .rows (String.ofList (strip_text path.toList))
      else match cell_index (strip_text path.toList) with
        | some (field,idx) => .cell field idx
        | none => .whole (some (.str path))
  | _ => .whole none

theorem items_chars : "items".toList = ['i','t','e','m','s'] := by decide
theorem value_items_chars : "value.items".toList = ['v','a','l','u','e','.','i','t','e','m','s'] := by decide
theorem value_chars : "value.".toList = ['v','a','l','u','e','.'] := by decide
theorem items_open_chars : "items[".toList = ['i','t','e','m','s','['] := by decide

theorem split_items_cases {text : List Char} (found : split_items text = some (head,suffix)) :
    text = head ++ ['i','t','e','m','s'] ++ suffix ∧ (head = [] ∨ head = ['v','a','l','u','e','.']) := by
  unfold split_items at found
  rw [value_items_chars,items_chars,value_chars] at found
  split at found
  · rename_i front
    obtain ⟨rest,rfl⟩ := front
    cases found
    exact ⟨rfl,.inr rfl⟩
  · split at found
    · rename_i front
      obtain ⟨rest,rfl⟩ := front
      cases found
      exact ⟨rfl,.inl rfl⟩
    · cases found

-- Every mapping that has a text under "node", with its path, wherever it stands.
def own_refs (entries : Spec) : List (String × RefPath) :=
  entries.filterMap fun entry => match entry with
    | (key,.str text) => if key = "node" then some (text,ref_path (Value.get? entries "path")) else none
    | _ => none

mutual
def refs : Value → List (String × RefPath)
  | .dict entries => own_refs entries ++ entry_refs entries
  | .list items => item_refs items
  | _ => []
def item_refs : List Value → List (String × RefPath)
  | [] => []
  | item :: items => refs item ++ item_refs items
def entry_refs : Spec → List (String × RefPath)
  | [] => []
  | (_,item) :: entries => refs item ++ entry_refs entries
end

theorem get?_mem {entries : Spec} (found : Value.get? entries key = some v) : (key,v) ∈ entries := by
  obtain ⟨before,after,split,_⟩ := List.lookup_eq_some_iff.mp found
  exact split ▸ List.mem_append_right _ List.mem_cons_self

theorem mem_own_refs {entries : Spec} (member : ref ∈ own_refs entries) :
    ("node",.str ref.1) ∈ entries ∧ ref.2 = ref_path (Value.get? entries "path") := by
  obtain ⟨entry,inside,kept⟩ := List.mem_filterMap.mp member
  obtain ⟨key,item⟩ := entry
  cases item with
  | str text =>
      dsimp only at kept
      split at kept
      · rename_i same
        cases kept
        exact ⟨same ▸ inside,rfl⟩
      · cases kept
  | _ => cases kept

theorem static_items_mem {entries : Spec} (found : static_items entries = some items) :
    ("items",.list items) ∈ entries ∧ Value.get? entries "type" = some (.str "list") := by
  unfold static_items at found
  split at found
  · rename_i type here
    cases found
    exact ⟨get?_mem here,type⟩
  · cases found

-- How one entry of a mapping passes each of the three rewrites.
theorem slice_cons {typed : Bool} {static : Option (List Value)} {entries sliced : Spec}
    (done : slice_entries s typed static ((key,item) :: entries) = .ok sliced) :
    ∃ item' rest, sliced = (key,item') :: rest ∧ slice_entries s typed static entries = .ok rest ∧
      (if key = "items" ∧ typed = true then item' = kept_items static item
        else slice_static_lists s item = .ok item') := by
  rw [slice_entries] at done
  obtain ⟨item',first,after⟩ := Fallible.bind_ok done
  obtain ⟨rest,later,last⟩ := Fallible.bind_ok after
  cases last
  refine ⟨item',rest,rfl,later,?_⟩
  split at first
  · rename_i kept
    cases first
    rw [if_pos kept]
  · rename_i visited
    rw [if_neg visited]
    exact first

theorem rename_cons {entries renamed : Spec}
    (done : rewrite_entry_references s shards ((key,item) :: entries) = .ok renamed) :
    ∃ item' rest, renamed = (key,item') :: rest ∧ rewrite_entry_references s shards entries = .ok rest ∧
      ((∃ text text', key = "node" ∧ item = .str text ∧ shard_reference s shards text = .ok text' ∧ item' = .str text') ∨
        ((key = "node" → ∀ text, item ≠ .str text) ∧ rewrite_shard_node_references s shards item = .ok item')) := by
  cases item with
  | str text =>
      rw [rewrite_entry_references] at done
      obtain ⟨text',first,after⟩ := Fallible.bind_ok done
      obtain ⟨rest,later,last⟩ := Fallible.bind_ok after
      cases last
      refine ⟨_,rest,rfl,later,?_⟩
      unfold entry_reference at first
      split at first
      · rename_i same
        exact .inl ⟨text,text',same,rfl,first,rfl⟩
      · rename_i other
        cases first
        refine .inr ⟨fun same => absurd same other,?_⟩
        rw [rewrite_shard_node_references] <;> nofun
  | _ =>
      rw [rewrite_entry_references] at done
      · obtain ⟨item',first,after⟩ := Fallible.bind_ok done
        obtain ⟨rest,later,last⟩ := Fallible.bind_ok after
        cases last
        exact ⟨item',rest,rfl,later,.inr ⟨fun _ _ => nofun,first⟩⟩
      · exact fun _ => nofun

theorem inline_cons {column : Option Value} {entries inlined : Spec}
    (done : inline_entries node_map s shards column ((key,item) :: entries) = .ok inlined) :
    (column.isSome ∧ (key = "node" ∨ key = "path") ∧ inline_entries node_map s shards column entries = .ok inlined) ∨
    (¬ (column.isSome ∧ (key = "node" ∨ key = "path")) ∧ ∃ item' rest, inlined = (key,item') :: rest ∧
      inline_entries node_map s shards column entries = .ok rest ∧
      (if column.isSome ∧ key = "data" then item' = column.getD .none
        else inline_unsharded_dependency_slices node_map s shards item = .ok item')) := by
  rw [inline_entries] at done
  split at done
  · rename_i dropped
    exact .inl ⟨dropped.1,dropped.2,done⟩
  · rename_i kept
    obtain ⟨item',first,after⟩ := Fallible.bind_ok done
    obtain ⟨rest,later,last⟩ := Fallible.bind_ok after
    cases last
    refine .inr ⟨kept,item',rest,rfl,later,?_⟩
    split at first
    · rename_i replaced
      cases first
      rw [if_pos replaced]
    · rename_i visited
      rw [if_neg visited]
      exact first

@[simp] theorem slice_text (text : String) : slice_static_lists s (.str text) = .ok (.str text) := by
  rw [slice_static_lists] <;> nofun

@[simp] theorem rename_text (text : String) : rewrite_shard_node_references s shards (.str text) = .ok (.str text) := by
  rw [rewrite_shard_node_references] <;> nofun

@[simp] theorem inline_text (text : String) :
    inline_unsharded_dependency_slices node_map s shards (.str text) = .ok (.str text) := by
  rw [inline_unsharded_dependency_slices] <;> nofun

-- Slicing makes no text of anything else.
theorem slice_is_text {v : Value} (done : slice_static_lists s v = .ok (.str text)) : v = .str text := by
  cases v with
  | dict _ =>
      rw [slice_static_lists] at done
      obtain ⟨_,_,after⟩ := Fallible.bind_ok done
      obtain ⟨_,_,last⟩ := Fallible.bind_ok after
      cases last
  | list _ =>
      rw [slice_static_lists] at done
      obtain ⟨_,_,last⟩ := Fallible.bind_ok done
      cases last
  | _ =>
      rw [slice_static_lists] at done
      · cases done <;> rfl
      · nofun
      · nofun

theorem rename_is_text {v : Value} (done : rewrite_shard_node_references s shards v = .ok (.str text)) : v = .str text := by
  cases v with
  | dict _ =>
      rw [rewrite_shard_node_references] at done
      obtain ⟨_,_,last⟩ := Fallible.bind_ok done
      cases last
  | list _ =>
      rw [rewrite_shard_node_references] at done
      obtain ⟨_,_,last⟩ := Fallible.bind_ok done
      cases last
  | _ =>
      rw [rewrite_shard_node_references] at done
      · cases done <;> rfl
      · nofun
      · nofun

theorem inline_is_text {v : Value} (done : inline_unsharded_dependency_slices node_map s shards v = .ok (.str text)) :
    v = .str text := by
  cases v with
  | dict _ =>
      rw [inline_unsharded_dependency_slices] at done
      obtain ⟨_,_,after⟩ := Fallible.bind_ok done
      obtain ⟨_,_,last⟩ := Fallible.bind_ok after
      cases last
  | list _ =>
      rw [inline_unsharded_dependency_slices] at done
      obtain ⟨_,_,last⟩ := Fallible.bind_ok done
      cases last
  | _ =>
      rw [inline_unsharded_dependency_slices] at done
      · cases done <;> rfl
      · nofun
      · nofun

theorem get?_cons (key : String) (entry : String × Value) (entries : Spec) :
    Value.get? (entry :: entries) key = if key = entry.1 then some entry.2 else Value.get? entries key := by
  obtain ⟨k,v⟩ := entry
  unfold Value.get?
  rw [List.lookup_cons]
  by_cases same : key = k
  · simp [same]
  · simp [same,beq_eq_false_iff_ne.mpr same]

theorem own_ref_of_mem {entries : Spec} (member : ("node",.str text) ∈ entries) :
    (text,ref_path (Value.get? entries "path")) ∈ own_refs entries :=
  List.mem_filterMap.mpr ⟨_,member,by simp⟩

theorem slice_items_ok {items items' : List Value} (done : slice_items s items = .ok items') :
    ((items.length = s.total ∧ items' = slice (s.start,s.stop) items) ∨ (items.length = 1 ∧ items' = items)) ∧
      ∀ item ∈ items', item ∈ items := by
  unfold slice_items at done
  split at done
  · rename_i full
    cases done
    exact ⟨.inl ⟨full,rfl⟩,fun item member => List.mem_of_mem_drop (List.mem_of_mem_take member)⟩
  · split at done
    · cases done
    · rename_i one
      cases done
      exact ⟨.inr ⟨not_not.mp one,rfl⟩,fun _ member => member⟩

end Lumilake.RuntimeManager

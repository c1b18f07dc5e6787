import Lumilake.Library.Fallible
import Lumilake.Library.Serving
import Lumilake.Dynamic.ForwardRefs

namespace Lumilake.Dynamic
open Serving

-- A reference to a prior result, and the path it reads there.
inductive Reference where
  | implicit (ref : String)
  | image (ref : String)
  | explicit (ref path : String)

namespace Reference

def ref : Reference → String
  | .implicit ref => ref
  | .image ref => ref
  | .explicit ref _ => ref

def is_image : Reference → Bool
  | .image _ => true
  | _ => false

def is_explicit : Reference → Bool
  | .explicit _ _ => true
  | _ => false

end Reference

section
variable (codec : Codec) (results : Dict String (List Value)) (configs : Dict String Spec) (rows : Nat)

def path_of (r : Reference) : Except String String :=
  match r with
  | .explicit _ path => .ok path
  | _ => do
      let config ← config_of codec configs r.ref
      default_forward_path codec config

-- The result has one item a row, every item is read at the path, and the rows hold either
-- lists throughout or no list at all.
structure Forwardable (r : Reference) (path : String) (values : List Value) : Prop where
  reads : path_of codec configs r = .ok path
  known : ∃ items, results.get? r.ref = some items ∧ walk_rows codec items (path_parts path) r.ref = .ok values
  rows : values.length = rows
  alike : ((∀ v ∈ values, v.is_list = true) ∧ r.is_image = false) ∨ ∀ v ∈ values, v.is_list = false

end

def listed (values : List Value) : Bool := values.any Value.is_list

-- The input that carries the rows.
def key_of (r : Reference) (path : String) (values : List Value) : String :=
  if r.is_explicit = true ∨ listed values = true then input_id_of r.ref path else r.ref

-- What the operation reads instead.
def target (r : Reference) (path : String) (values : List Value) : String × String :=
  if listed values then (rows_id (input_id_of r.ref path),"items.output") else (key_of r path values,"")

section
variable {codec : Codec} {results : Dict String (List Value)} {configs : Dict String Spec} {rows : Nat}

theorem input_id_bar (ref path : String) : '|' ∈ (input_id_of ref path).toList := by
  simp [input_id_of]

theorem input_id_injective {ref ref' path path' : String} (free : '|' ∉ ref.toList) (free' : '|' ∉ ref'.toList)
    (same : input_id_of ref path = input_id_of ref' path') : ref = ref' ∧ path = path' := by
  have lists := congrArg String.toList same
  have parts : ∀ a b : String, (input_id_of a b).toList = (a.toList ++ [' ']) ++ '|' :: ' ' :: b.toList := by
    intro a b
    simp [input_id_of]
  rw [parts,parts] at lists
  have front : ∀ (a : String) (rest : List Char), '|' ∉ a.toList →
      ((a.toList ++ [' ']) ++ '|' :: rest).takeWhile (· ≠ '|') = a.toList ++ [' '] := by
    intro a rest here
    rw [List.takeWhile_append_of_pos]
    · simp
    · intro c member
      rcases List.mem_append.mp member with inside | last
      · exact decide_eq_true fun equal => here (equal ▸ inside)
      · rw [List.mem_singleton.mp last]
        decide
  have fronts := congrArg (List.takeWhile (· ≠ '|')) lists
  rw [front ref _ free,front ref' _ free'] at fronts
  have refs : ref.toList = ref'.toList := List.append_cancel_right fronts
  rw [refs] at lists
  have paths := List.append_cancel_left lists
  simp only [List.cons.injEq,true_and] at paths
  exact ⟨String.toList_inj.mp refs,String.toList_inj.mp paths⟩

theorem Forwardable.all_listed {r : Reference} {path : String} {values : List Value}
    (ready : Forwardable codec results configs rows r path values) (list : listed values = true) :
    (∀ v ∈ values, v.is_list = true) ∧ r.is_image = false := by
  rcases ready.alike with all | none_listed
  · exact all
  · obtain ⟨v,member,here⟩ := List.any_eq_true.mp list
    rw [none_listed v member] at here
    cases here

-- Two references with one key carry the same rows.
theorem key_rows (free : ∀ ref ∈ results.keys, '|' ∉ ref.toList) {r r' : Reference} {path path' : String}
    {values values' : List Value} (one : Forwardable codec results configs rows r path values)
    (two : Forwardable codec results configs rows r' path' values') (same : key_of r path values = key_of r' path' values') :
    values = values' := by
  obtain ⟨items,found,walked⟩ := one.known
  obtain ⟨items',found',walked'⟩ := two.known
  have bar := free r.ref (Dict.mem_keys_iff.mpr ⟨items,found⟩)
  have bar' := free r'.ref (Dict.mem_keys_iff.mpr ⟨items',found'⟩)
  have together : r.ref = r'.ref → path = path' → values = values' := by
    intro refs paths
    rw [refs,found'] at found
    cases found
    rw [refs,paths,walked'] at walked
    exact (Except.ok.inj walked).symm
  unfold key_of at same
  by_cases first : r.is_explicit = true ∨ listed values = true
  · by_cases second : r'.is_explicit = true ∨ listed values' = true
    · rw [if_pos first,if_pos second] at same
      obtain ⟨refs,paths⟩ := input_id_injective bar bar' same
      exact together refs paths
    · rw [if_pos first,if_neg second] at same
      exact absurd (same ▸ input_id_bar r.ref path) bar'
  · by_cases second : r'.is_explicit = true ∨ listed values' = true
    · rw [if_neg first,if_pos second] at same
      exact absurd (same ▸ input_id_bar r'.ref path') bar
    · rw [if_neg first,if_neg second] at same
      have default : ∀ x : Reference, x.is_explicit ≠ true →
          path_of codec configs x = (do let config ← config_of codec configs x.ref; default_forward_path codec config) := by
        intro x plain
        cases x with
        | implicit ref => rfl
        | image ref => rfl
        | explicit ref path => exact absurd rfl plain
      have reads := one.reads
      rw [default r fun h => first (.inl h),same,← default r' fun h => second (.inl h),two.reads] at reads
      exact together same (Except.ok.inj reads).symm

end

section
variable (codec : Codec) (results : Dict String (List Value)) (configs : Dict String Spec) (rows : Nat)

-- Every input carries the rows of a reference, and the lists among them have an operation
-- that decodes them.
structure Good (s : Forwarding) : Prop where
  entries : ∀ k texts, s.inputs.get? k = some texts → ∃ r path values, Forwardable codec results configs rows r path values ∧
    k = key_of r path values ∧ texts = values.map (coerce_output_value codec) ∧ (listed values = true → k ∈ s.materialized)
  decoded : ∀ k ∈ s.materialized, ∃ r path values, Forwardable codec results configs rows r path values ∧
    listed values = true ∧ k = key_of r path values ∧ s.inputs.get? k = some (values.map (coerce_output_value codec))
  operations : s.materializers = s.materialized.map materializer

def Served (r : Reference) (s : Forwarding) : Prop :=
  ∃ path values, Forwardable codec results configs rows r path values ∧
    s.inputs.get? (key_of r path values) = some (values.map (coerce_output_value codec)) ∧
    (listed values = true → key_of r path values ∈ s.materialized)

def desk : Desk Forwarding Reference where
  good := Good codec results configs rows
  available r := ∃ path values, Forwardable codec results configs rows r path values
  served := Served codec results configs rows

end

section
variable {codec : Codec} {results : Dict String (List Value)} {configs : Dict String Spec} {rows : Nat}
  (free : ∀ ref ∈ results.keys, '|' ∉ ref.toList)
include free

theorem bind_good {s after : Forwarding} {r : Reference} {path : String} {values : List Value}
    (good : Good codec results configs rows s) (ready : Forwardable codec results configs rows r path values)
    (inputs : after.inputs = s.inputs.set (key_of r path values) (values.map (coerce_output_value codec)))
    (materialized : ∀ k, k ∈ after.materialized ↔ k ∈ s.materialized ∨ (listed values = true ∧ k = key_of r path values))
    (operations : after.materializers = after.materialized.map materializer) :
    Good codec results configs rows after ∧ Served codec results configs rows r after ∧
      ∀ r', Served codec results configs rows r' s → Served codec results configs rows r' after := by
  have own : after.inputs.get? (key_of r path values) = some (values.map (coerce_output_value codec)) := by
    rw [inputs,Dict.get?_set_self]
  -- an input of another reference keeps its rows, also under the same key
  have kept : ∀ r' path' values', Forwardable codec results configs rows r' path' values' →
      s.inputs.get? (key_of r' path' values') = some (values'.map (coerce_output_value codec)) →
      after.inputs.get? (key_of r' path' values') = some (values'.map (coerce_output_value codec)) := by
    intro r' path' values' ready' old
    by_cases same : key_of r' path' values' = key_of r path values
    · rw [same,key_rows free ready' ready same]
      exact own
    · rw [inputs,Dict.get?_set_ne _ _ same]
      exact old
  refine ⟨⟨fun k texts found => ?_,fun k member => ?_,operations⟩,⟨path,values,ready,own,fun list => ?_⟩,?_⟩
  · by_cases same : k = key_of r path values
    · rw [same,own] at found
      exact ⟨r,path,values,ready,same,(Option.some.inj found).symm,fun list => (materialized k).mpr (.inr ⟨list,same⟩)⟩
    · rw [inputs,Dict.get?_set_ne _ _ same] at found
      obtain ⟨r',path',values',ready',named,texts_eq,list⟩ := good.entries k texts found
      exact ⟨r',path',values',ready',named,texts_eq,fun h => (materialized k).mpr (.inl (list h))⟩
  · rcases (materialized k).mp member with old | ⟨list,same⟩
    · obtain ⟨r',path',values',ready',list,rfl,here⟩ := good.decoded k old
      exact ⟨r',path',values',ready',list,rfl,kept r' path' values' ready' here⟩
    · exact ⟨r,path,values,ready,list,same,same ▸ own⟩
  · exact (materialized _).mpr (.inr ⟨list,rfl⟩)
  · intro r' old
    obtain ⟨path',values',ready',here,list⟩ := old
    exact ⟨path',values',ready',kept r' path' values' ready' here,fun h => (materialized _).mpr (.inl (list h))⟩

theorem add_materializer_good {s : Forwarding} {r : Reference} {path : String} {values : List Value}
    (good : Good codec results configs rows s) (ready : Forwardable codec results configs rows r path values)
    (list : listed values = true) :
    (add_materializer codec r.ref path values s).1 = rows_id (input_id_of r.ref path) ∧
    Good codec results configs rows (add_materializer codec r.ref path values s).2 ∧
    Served codec results configs rows r (add_materializer codec r.ref path values s).2 ∧
    ∀ r', Served codec results configs rows r' s →
      Served codec results configs rows r' (add_materializer codec r.ref path values s).2 := by
  have key : key_of r path values = input_id_of r.ref path := if_pos (.inr list)
  unfold add_materializer
  dsimp only
  split
  · rename_i known
    refine ⟨rfl,good,?_,fun _ h => h⟩
    obtain ⟨r',path',values',ready',_,same,here⟩ := good.decoded _ known
    have equal := key_rows free ready ready' (key.trans same)
    exact ⟨path,values,ready,by rw [key,equal]; exact here,fun _ => key ▸ known⟩
  · refine ⟨rfl,bind_good free good ready (by rw [key]) (fun k => ?_) ?_⟩
    · rw [List.mem_append,List.mem_singleton,key]
      simp [list]
    · rw [good.operations,List.map_append]
      rfl

end

section
variable {codec : Codec} {results : Dict String (List Value)} {configs : Dict String Spec} {rows : Nat}

-- Walking the rows for a reference, in the two ways the code does it.
theorem walk_values_iff {items : List Value} {parts : List String} {ref : String} (consumer : String) {values : List Value} :
    walk_values_per_row codec rows items parts ref consumer = .ok values ↔
      walk_rows codec items parts ref = .ok values ∧ values.length = rows := by
  unfold walk_values_per_row
  cases walked : walk_rows codec items parts ref with
  | error message =>
      constructor
      · intro h; cases h
      · intro h; cases h.1
  | ok found =>
      change (if found.length = rows then Except.ok found else _) = _ ↔ _
      split
      · rename_i count
        constructor
        · intro h; cases h; exact ⟨rfl,count⟩
        · intro h; exact h.1
      · rename_i count
        constructor
        · intro h; cases h
        · intro h
          cases h.1
          exact absurd h.2 count

theorem not_listed {values : List Value} : listed values = false ↔ ∀ v ∈ values, v.is_list = false := by
  simp [listed]

def implicit_reference (ref : String) (image : Bool) : Reference := if image then .image ref else .implicit ref

theorem implicit_reference_ref (ref : String) (image : Bool) : (implicit_reference ref image).ref = ref := by
  cases image <;> rfl

theorem implicit_reference_image (ref : String) (image : Bool) : (implicit_reference ref image).is_image = image := by
  cases image <;> rfl

theorem implicit_reference_explicit (ref : String) (image : Bool) : (implicit_reference ref image).is_explicit = false := by
  cases image <;> rfl

theorem implicit_path (ref : String) (image : Bool) : path_of codec configs (implicit_reference ref image) =
    (do let config ← config_of codec configs ref; default_forward_path codec config) := by
  cases image <;> rfl

variable (free : ∀ ref ∈ results.keys, '|' ∉ ref.toList) (many : 1 < rows)
include free many

theorem bind_implicit_ok {s : Forwarding} {ref consumer path : String} {image : Bool} {values : List Value}
    (good : Good codec results configs rows s)
    (ready : Forwardable codec results configs rows (implicit_reference ref image) path values) :
    ∃ rewritten after, bind_implicit codec results configs rows ref consumer image s = .ok (rewritten,after) ∧
      rewritten.getD ref = (target (implicit_reference ref image) path values).1 ∧ Good codec results configs rows after ∧
      Served codec results configs rows (implicit_reference ref image) after ∧
      ∀ r, Served codec results configs rows r s → Served codec results configs rows r after := by
  obtain ⟨items,found,walked⟩ := ready.known
  rw [implicit_reference_ref] at found walked
  have reads := ready.reads
  rw [implicit_path] at reads
  obtain ⟨config,configured,default⟩ := Fallible.bind_ok reads
  have read := (walk_values_iff consumer).mpr ⟨walked,ready.rows⟩
  unfold bind_implicit
  rw [found]
  dsimp only
  rw [configured,Fallible.ok_bind,default,Fallible.ok_bind,if_pos many,read,Fallible.ok_bind]
  by_cases list : listed values = true
  · obtain ⟨all,not_image⟩ := ready.all_listed list
    rw [implicit_reference_image] at not_image
    have every : values.all Value.is_list = true := List.all_eq_true.mpr all
    have added := add_materializer_good free good ready list
    rw [implicit_reference_ref] at added
    obtain ⟨name,good',served,kept⟩ := added
    have here : values.any Value.is_list = true := list
    rw [if_pos here,if_neg (not_not.mpr every),not_image,if_neg Bool.false_ne_true]
    refine ⟨some (add_materializer codec ref path values s).1,(add_materializer codec ref path values s).2,rfl,?_,good',
      not_image ▸ served,kept⟩
    rw [Option.getD_some,name,target,if_pos list,implicit_reference_ref]
  · have here : ¬values.any Value.is_list = true := list
    have key : key_of (implicit_reference ref image) path values = ref := by
      rw [key_of,implicit_reference_explicit,implicit_reference_ref,if_neg (by simp [list])]
    rw [if_neg here]
    refine ⟨_,_,rfl,?_,bind_good free good ready (by rw [key]) (fun k => ?_) good.operations⟩
    · simp [target,list,key]
    · simp [list]

omit free in
theorem bind_implicit_stop {s : Forwarding} {ref consumer : String} {image : Bool} (known : ref ∈ results)
    (missing : ¬∃ path values, Forwardable codec results configs rows (implicit_reference ref image) path values) :
    ∃ e, bind_implicit codec results configs rows ref consumer image s = .error e := by
  cases done : bind_implicit codec results configs rows ref consumer image s with
  | error e => exact ⟨e,rfl⟩
  | ok out =>
      exfalso
      apply missing
      obtain ⟨items,found⟩ := Dict.mem_keys_iff.mp known
      unfold bind_implicit at done
      rw [found] at done
      dsimp only at done
      obtain ⟨config,configured,rest⟩ := Fallible.bind_ok done
      obtain ⟨path,default,rest⟩ := Fallible.bind_ok rest
      rw [if_pos many] at rest
      obtain ⟨values,read,rest⟩ := Fallible.bind_ok rest
      obtain ⟨walked,count⟩ := (walk_values_iff _).mp read
      refine ⟨path,values,?_,⟨items,?_,?_⟩,count,?_⟩
      · rw [implicit_path,configured,Fallible.ok_bind,default]
      · rw [implicit_reference_ref,found]
      · rw [implicit_reference_ref]; exact walked
      · rw [implicit_reference_image]
        split at rest
        · split at rest
          · cases rest
          · rename_i all
            split at rest
            · cases rest
            · rename_i plain
              exact .inl ⟨List.all_eq_true.mp (not_not.mp all),by simpa using plain⟩
        · rename_i none_listed
          exact .inr (not_listed.mp (by simpa [listed] using none_listed))

omit many in
-- Whatever is bound under the id of an explicit reference carries its rows.
theorem explicit_of_key {r : Reference} {ref path path' : String} {values : List Value} (known : ref ∈ results)
    (ready : Forwardable codec results configs rows r path' values) (same : key_of r path' values = input_id_of ref path) :
    Forwardable codec results configs rows (.explicit ref path) path values := by
  obtain ⟨items,found,walked⟩ := ready.known
  have bar := free r.ref (Dict.mem_keys_iff.mpr ⟨items,found⟩)
  unfold key_of at same
  split at same
  · obtain ⟨refs,paths⟩ := input_id_injective bar (free ref known) same
    subst refs paths
    exact ⟨rfl,⟨items,found,walked⟩,ready.rows,ready.alike.imp (fun h => ⟨h.1,rfl⟩) (fun h => h)⟩
  · exact absurd (same ▸ input_id_bar ref path) bar

theorem bind_explicit_ok {s : Forwarding} {ref path consumer : String} {values : List Value}
    (good : Good codec results configs rows s)
    (ready : Forwardable codec results configs rows (.explicit ref path) path values) :
    ∃ after, bind_explicit codec results rows ref path consumer s = .ok (target (.explicit ref path) path values,after) ∧
      Good codec results configs rows after ∧ Served codec results configs rows (.explicit ref path) after ∧
      ∀ r, Served codec results configs rows r s → Served codec results configs rows r after := by
  have key : key_of (.explicit ref path) path values = input_id_of ref path := if_pos (.inl rfl)
  unfold bind_explicit
  dsimp only
  by_cases decoded : input_id_of ref path ∈ s.materialized
  · obtain ⟨r,path',values',ready',list,same,here⟩ := good.decoded _ decoded
    have equal := key_rows free ready ready' (key.trans same)
    have shown : target (.explicit ref path) path values = (rows_id (input_id_of ref path),"items.output") :=
      if_pos (equal ▸ list)
    rw [if_pos decoded,shown]
    exact ⟨s,rfl,good,⟨path,values,ready,by rw [key,equal]; exact here,fun _ => key ▸ decoded⟩,fun _ h => h⟩
  · rw [if_neg decoded]
    by_cases bound : input_id_of ref path ∈ s.inputs
    · obtain ⟨texts,here⟩ := Dict.mem_keys_iff.mp bound
      obtain ⟨r,path',values',ready',same,rfl,list⟩ := good.entries _ texts here
      have equal := key_rows free ready ready' (key.trans same)
      have scalar : ¬listed values = true := fun h => decoded (list (equal ▸ h))
      have shown : target (.explicit ref path) path values = (input_id_of ref path,"") := by
        rw [target,if_neg scalar,key]
      rw [if_pos bound,shown]
      exact ⟨s,rfl,good,⟨path,values,ready,by rw [key,equal]; exact here,fun h => absurd h scalar⟩,fun _ h => h⟩
    · obtain ⟨items,found,walked⟩ := ready.known
      have read := (walk_values_iff consumer).mpr ⟨walked,ready.rows⟩
      have found' : results.get? ref = some items := found
      rw [if_neg bound,found']
      dsimp only
      rw [if_pos many,show walk_values_per_row codec rows items (path_parts path) ref consumer = .ok values from read,
        Fallible.ok_bind]
      by_cases list : listed values = true
      · have every : values.all Value.is_list = true := List.all_eq_true.mpr (ready.all_listed list).1
        have here : values.any Value.is_list = true := list
        obtain ⟨name,good',served,kept⟩ := add_materializer_good free good ready list
        have name' : (add_materializer codec ref path values s).1 = rows_id (input_id_of ref path) := name
        have shown : target (.explicit ref path) path values = ((add_materializer codec ref path values s).1,"items.output") := by
          rw [name']
          exact if_pos list
        rw [if_pos here,if_neg (not_not.mpr every),shown]
        exact ⟨(add_materializer codec ref path values s).2,rfl,good',served,kept⟩
      · have here : ¬values.any Value.is_list = true := list
        have shown : target (.explicit ref path) path values = (input_id_of ref path,"") := by
          rw [target,if_neg list,key]
        rw [if_neg here,shown]
        exact ⟨_,rfl,bind_good free good ready (by rw [key]) (fun k => by simp [list]) good.operations⟩

theorem bind_explicit_stop {s : Forwarding} {ref path consumer : String} (good : Good codec results configs rows s)
    (known : ref ∈ results) (missing : ¬∃ path' values, Forwardable codec results configs rows (.explicit ref path) path' values) :
    ∃ e, bind_explicit codec results rows ref path consumer s = .error e := by
  unfold bind_explicit
  dsimp only
  by_cases decoded : input_id_of ref path ∈ s.materialized
  · obtain ⟨r,path',values,ready,_,same,_⟩ := good.decoded _ decoded
    exact absurd ⟨path,values,explicit_of_key free known ready same.symm⟩ missing
  · rw [if_neg decoded]
    by_cases bound : input_id_of ref path ∈ s.inputs
    · obtain ⟨texts,here⟩ := Dict.mem_keys_iff.mp bound
      obtain ⟨r,path',values,ready,same,_⟩ := good.entries _ texts here
      exact absurd ⟨path,values,explicit_of_key free known ready same.symm⟩ missing
    · rw [if_neg bound]
      obtain ⟨items,found⟩ := Dict.mem_keys_iff.mp known
      rw [found]
      dsimp only
      rw [if_pos many]
      cases read : walk_values_per_row codec rows items (path_parts path) ref consumer with
      | error e => exact ⟨e,rfl⟩
      | ok values =>
          rw [Fallible.ok_bind]
          obtain ⟨walked,count⟩ := (walk_values_iff _).mp read
          have rest : ∀ alike, Forwardable codec results configs rows (.explicit ref path) path values := fun alike =>
            ⟨rfl,⟨items,found,walked⟩,count,alike⟩
          by_cases here : values.any Value.is_list = true
          · rw [if_pos here]
            by_cases every : values.all Value.is_list = true
            · exact absurd ⟨path,values,rest (.inl ⟨List.all_eq_true.mp every,rfl⟩)⟩ missing
            · rw [if_pos every]
              exact ⟨_,rfl⟩
          · exact absurd ⟨path,values,rest (.inr (not_listed.mp (by simpa [listed] using here)))⟩ missing

end

end Lumilake.Dynamic

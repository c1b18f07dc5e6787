import Lumilake.Dynamic.ResolveFaithful

namespace Lumilake.Dynamic
open Fallible

section
variable {codec : Codec} {library : Dict String Config} {template op merged : Config} {ref : String}

theorem supported_text (known : supported template = true) : ∃ op_type, template.get? "op" = some (.str op_type) := by
  unfold supported at known
  split at known
  · rename_i op_type named
    exact ⟨op_type,named⟩
  · cases known

theorem mem_keys_congr {a b : Config} {key : String} (same : a.get? key = b.get? key) : key ∈ a.keys ↔ key ∈ b.keys := by
  rw [Dict.mem_keys_iff,Dict.mem_keys_iff,same]

theorem mem_keys_or {a b c : Config} {key : String} (same : a.get? key = (b.get? key).or (c.get? key)) :
    key ∈ a.keys ↔ key ∈ b.keys ∨ key ∈ c.keys := by
  rw [Dict.mem_keys_iff,Dict.mem_keys_iff,Dict.mem_keys_iff,same]
  cases b.get? key <;> simp

theorem data_spec_kept (done : op.entries.foldlM (override codec template ref op) template = .ok merged)
    (present : "data_spec" ∈ template.keys) : "data_spec" ∈ merged.keys := by
  have spec := override_all op.entries op.distinct done
  by_cases plain : has_data_spec template = false
  · exact (mem_keys_congr (spec.untouched (.inr plain))).mpr present
  · cases held : op.get? "inputs" with
    | none => exact (mem_keys_congr (spec.untouched (.inl held))).mpr present
    | some value =>
        obtain ⟨data_spec,_,written⟩ := spec.data_spec (inputs_of op)
          (by rw [show Value.get? op.entries "inputs" = some value from held]; exact given_inputs done held) (by simpa using plain)
        exact Dict.mem_keys_iff.mpr ⟨_,written⟩

-- A merged operation has the keys of its template, and the id and the inputs of the operation.
theorem template_keys (done : op.entries.foldlM (override codec template ref op) template = .ok merged) {key : String}
    (present : key ∈ template.keys) : key ∈ merged.keys := by
  have spec := override_all op.entries op.distinct done
  by_cases own : key ∈ ["id","inputs","data_spec"]
  · simp only [List.mem_cons,List.not_mem_nil,or_false] at own
    rcases own with rfl | rfl | rfl
    · exact (mem_keys_or spec.id).mpr (.inr present)
    · exact (mem_keys_or spec.inputs).mpr (.inr present)
    · exact data_spec_kept done present
  · exact (mem_keys_congr (spec.others key own)).mpr present

def bare (template : Config) : Prop := ∀ key ∈ template.keys, key ∈ ["ref","op","id","inputs"]

theorem bare_data_spec (empty : bare template) : template.get? "data_spec" = none :=
  Dict.get?_eq_none.mpr fun present => absurd (empty _ present) (by decide)

theorem bare_plain (empty : bare template) : has_data_spec template = false := by
  unfold has_data_spec
  rw [bare_data_spec empty]
  rfl

theorem merged_bare (done : op.entries.foldlM (override codec template ref op) template = .ok merged) :
    bare merged ↔ bare template := by
  have spec := override_all op.entries op.distinct done
  constructor
  · exact fun empty key present => empty key (template_keys done present)
  · intro empty key present
    by_cases own : key ∈ ["id","inputs","data_spec"]
    · simp only [List.mem_cons,List.not_mem_nil,or_false] at own
      rcases own with rfl | rfl | rfl
      · decide
      · decide
      · exact empty _ ((mem_keys_congr (spec.untouched (.inr (bare_plain empty)))).mp present)
    · exact empty key ((mem_keys_congr (spec.others key own)).mp present)

-- What the second template adds to an operation that is merged already.
theorem same_again {target again : Config} {ref' : String}
    (done : merged.entries.foldlM (override codec target ref' merged) target = .ok again) (empty : bare merged) (known : bare target)
    (ref_same : target.get? "ref" = merged.get? "ref") (op_same : target.get? "op" = merged.get? "op") :
    same_config merged again ↔ ∀ key ∈ ["id","inputs"], key ∈ target.keys → key ∈ merged.keys := by
  have spec := override_all merged.entries merged.distinct done
  have filled : ∀ key, again.get? key = (merged.get? key).or (target.get? key) →
      (merged.get? key = again.get? key ↔ (key ∈ target.keys → key ∈ merged.keys)) := by
    intro key read
    rw [read,Dict.mem_keys_iff,Dict.mem_keys_iff]
    cases merged.get? key <;> cases target.get? key <;> simp
  constructor
  · intro same key listed
    simp only [List.mem_cons,List.not_mem_nil,or_false] at listed
    rcases listed with rfl | rfl
    · exact (filled _ spec.id).mp (same _)
    · exact (filled _ spec.inputs).mp (same _)
  · intro nothing_new key
    by_cases own : key ∈ ["id","inputs","data_spec"]
    · simp only [List.mem_cons,List.not_mem_nil,or_false] at own
      rcases own with rfl | rfl | rfl
      · exact (filled _ spec.id).mpr (nothing_new _ (by decide))
      · exact (filled _ spec.inputs).mpr (nothing_new _ (by decide))
      · rw [spec.untouched (.inr (bare_plain known)),bare_data_spec empty,bare_data_spec known]
    · rw [spec.others key own]
      by_cases listed : key ∈ ["ref","op","id","inputs"]
      · simp only [List.mem_cons,List.not_mem_nil,or_false,not_or] at listed own
        rcases listed with rfl | rfl | rfl | rfl
        · exact ref_same.symm
        · exact op_same.symm
        · exact absurd rfl own.1
        · exact absurd rfl own.2.1
      · rw [Dict.get?_eq_none.mpr fun present => listed (empty key present),
          Dict.get?_eq_none.mpr fun present => listed (known key present)]

theorem resolved_again (done : op.entries.foldlM (override codec template ref op) template = .ok merged)
    (known : supported template = true) :
    (∃ again, resolve_op codec library merged = .ok again ∧ same_config merged again) ↔ settled library template op := by
  have spec := override_all op.entries op.distinct done
  have ref_kept := spec.others "ref" (by decide)
  have op_kept := spec.others "op" (by decide)
  have bare_iff := merged_bare done
  obtain ⟨op_type,op_text⟩ := supported_text known
  unfold settled
  cases own : template.get? "ref" with
  | none =>
      refine ⟨fun _ => .inl rfl,fun _ => ⟨merged,?_,fun _ => rfl⟩⟩
      unfold resolve_op
      rw [ref_kept,own]
  | some value =>
      have inputs_held : ∀ value, merged.get? "inputs" = some value →
          "inputs" ∈ op.keys ∧ (∃ inputs, Parser.texts? value = some inputs) ∨
            "inputs" ∉ op.keys ∧ template.get? "inputs" = some value := by
        intro value held
        rw [spec.inputs] at held
        cases given : op.get? "inputs" with
        | some emitted =>
            rw [show Value.get? op.entries "inputs" = some emitted from given] at held
            cases held
            exact .inl ⟨Dict.mem_keys_iff.mpr ⟨_,given⟩,_,given_inputs done given⟩
        | none =>
            rw [show Value.get? op.entries "inputs" = none from given] at held
            exact .inr ⟨Dict.get?_eq_none.mp given,held⟩
      constructor
      · rintro ⟨again,resolved,same⟩
        unfold resolve_op at resolved
        rw [ref_kept,own] at resolved
        split at resolved
        · rename_i missing
          cases missing
        · rename_i ref' text
          cases text
          split at resolved
          · cases resolved
          · rename_i target found
            split at resolved
            · cases resolved
            · rename_i agreed
              have second := override_all merged.entries merged.distinct resolved
              have passed := (foldlM_accepts (override_accepts target merged ref') merged.entries target).mp ⟨again,resolved⟩
              have empty : bare merged := by
                intro key present
                obtain ⟨value,held⟩ := Dict.mem_keys_iff.mp present
                exact (passed (key,value) (Dict.get?_eq_some.mp held)).1
              have target_bare : bare target := fun key present =>
                empty key ((mem_keys_congr (same key)).mpr (template_keys resolved present))
              have ref_same : target.get? "ref" = merged.get? "ref" := by rw [same "ref",second.others "ref" (by decide)]
              have op_same : target.get? "op" = merged.get? "op" := by rw [same "op",second.others "op" (by decide)]
              have nothing_new := (same_again resolved empty target_bare ref_same op_same).mp same
              refine .inr ⟨ref',target,rfl,found,by rw [ref_same,ref_kept,own],by rw [op_same,op_kept],?_,?_,?_⟩
              · intro key listed
                rcases List.mem_append.mp listed with first | later
                · exact bare_iff.mp empty key first
                · exact target_bare key later
              · intro key listed present
                have kept := nothing_new key listed present
                simp only [List.mem_cons,List.not_mem_nil,or_false] at listed
                rcases listed with rfl | rfl
                · exact (mem_keys_or spec.id).mp kept
                · exact (mem_keys_or spec.inputs).mp kept
              · by_cases present : "inputs" ∈ op.keys
                · exact .inl present
                · refine .inr fun value held => ?_
                  have merged_held : merged.get? "inputs" = some value := by
                    rw [spec.inputs,show Value.get? op.entries "inputs" = none from Dict.get?_eq_none.mpr present]
                    exact held
                  obtain ⟨inputs,texts,_⟩ := (passed ("inputs",value) (Dict.get?_eq_some.mp merged_held)).2 rfl
                  exact ⟨inputs,texts⟩
        · cases resolved
      · rintro (missing | ⟨ref',target,text,found,ref_same,op_same,keys,filled,texts⟩)
        · cases missing
        · cases text
          have template_bare : bare template := fun key present => keys key (List.mem_append_left _ present)
          have target_bare : bare target := fun key present => keys key (List.mem_append_right _ present)
          have empty := bare_iff.mpr template_bare
          have accepted : ∀ entry ∈ merged.entries, passes codec target ref' entry := by
            intro entry member
            refine ⟨empty _ (List.mem_map_of_mem member),fun inputs_key => ?_⟩
            have held : merged.get? "inputs" = some entry.2 := inputs_key ▸ Dict.get?_eq_some.mpr member
            have some_texts : ∃ inputs, Parser.texts? entry.2 = some inputs := by
              rcases inputs_held entry.2 held with ⟨_,given⟩ | ⟨absent,own⟩
              · exact given
              · exact (texts.resolve_left absent) entry.2 own
            obtain ⟨inputs,read⟩ := some_texts
            refine ⟨inputs,read,fun mapping => ?_⟩
            rw [bare_plain target_bare] at mapping
            cases mapping
          obtain ⟨again,resolved⟩ := (foldlM_accepts (override_accepts target merged ref') merged.entries target).mpr accepted
          have ref_same' : target.get? "ref" = merged.get? "ref" := by rw [ref_same,ref_kept,own]
          have op_same' : target.get? "op" = merged.get? "op" := by rw [op_same,op_kept]
          refine ⟨again,?_,(same_again resolved empty target_bare ref_same' op_same').mpr ?_⟩
          · have agreed : declares_other target merged = false := by
              unfold declares_other
              rw [op_kept,op_same,op_text]
              simp
            unfold resolve_op
            rw [ref_kept,own]
            dsimp only
            rw [found]
            dsimp only
            rw [if_neg (by simp [agreed])]
            exact resolved
          · intro key listed present
            have kept := filled key listed present
            simp only [List.mem_cons,List.not_mem_nil,or_false] at listed
            rcases listed with rfl | rfl
            · exact (mem_keys_or spec.id).mpr kept
            · exact (mem_keys_or spec.inputs).mpr kept

theorem validated (valid : validate_library codec library = .ok ()) (found : library.get? ref = some template) :
    supported template = true := by
  have passed := (forM_ok library.entries).mp valid (ref,template) (Dict.get?_eq_some.mp found)
  unfold validate_template at passed
  split at passed
  · rename_i known
    exact known
  · cases passed

-- An operation that names a template, and what it is merged to.
theorem resolve_op_named (done : resolve_op codec library op = .ok merged) (named : op.get? "ref" = some (.str ref))
    (found : library.get? ref = some template) :
    op.entries.foldlM (override codec template ref op) template = .ok merged := by
  unfold resolve_op at done
  rw [named] at done
  dsimp only at done
  rw [found] at done
  dsimp only at done
  split at done
  · cases done
  · exact done

def fits (library : Dict String Config) (op : Config) : Prop :=
  ∀ ref template, op.get? "ref" = some (.str ref) → library.get? ref = some template → Fit library template op

theorem resolve_op_iff (valid : validate_library codec library = .ok ()) (done : resolve_op codec library op = .ok merged) :
    (Expanded library op merged ∧ ∃ again, resolve_op codec library merged = .ok again ∧ same_config merged again) ↔
      fits library op := by
  cases own : op.get? "ref" with
  | none =>
      have same : merged = op := by
        unfold resolve_op at done
        rw [own] at done
        cases done
        rfl
      subst same
      unfold Expanded fits
      rw [own]
      exact ⟨fun _ => nofun,fun _ => ⟨rfl,merged,done,fun _ => rfl⟩⟩
  | some value =>
      have named : ∃ ref template, value = .str ref ∧ library.get? ref = some template := by
        unfold resolve_op at done
        rw [own] at done
        split at done
        · rename_i missing
          cases missing
        · rename_i ref text
          split at done
          · cases done
          · rename_i template found
            exact ⟨ref,template,Option.some.inj text,found⟩
        · cases done
      obtain ⟨ref,template,rfl,found⟩ := named
      have loop := resolve_op_named done own found
      have faithful := from_template_iff loop
      have twice := @resolved_again _ library _ _ _ _ loop (validated valid found)
      have only : ∀ ref' template', op.get? "ref" = some (.str ref') → library.get? ref' = some template' →
          template' = template := by
        intro ref' template' named' found'
        cases own.symm.trans named'
        exact Option.some.inj (found'.symm.trans found)
      unfold Expanded
      rw [own]
      dsimp only
      constructor
      · rintro ⟨⟨template',found',from_it⟩,again⟩ ref' other named' found_other
        cases found'.symm.trans found
        cases only ref' other named' found_other
        obtain ⟨given,agrees,distinct⟩ := faithful.mp from_it
        exact ⟨given,agrees,distinct,twice.mp again⟩
      · intro fit
        have whole := fit ref template own found
        exact ⟨⟨template,found,faithful.mpr ⟨whole.given,whole.agree,whole.distinct⟩⟩,twice.mpr whole.settled⟩

-- An emitted list is resolved faithfully, and for good, exactly when each operation that names a
-- template gives it its inputs, no two bindings or params of it share a label, and it is no reference itself.
theorem subgraph_resolved_iff (valid : validate_library codec library = .ok ()) {subgraph resolved : List Config}
    (done : resolve_subgraph codec subgraph library = .ok resolved) :
    (List.Forall₂ (Expanded library) subgraph resolved ∧
      ∃ again, resolve_subgraph codec resolved library = .ok again ∧ List.Forall₂ same_config resolved again) ↔
        ∀ op ∈ subgraph, fits library op := by
  have each := mapM_ok.mp done
  clear done
  unfold resolve_subgraph
  simp only [mapM_ok]
  induction each with
  | nil => exact ⟨fun _ _ member => (nomatch member),fun _ => ⟨.nil,[],.nil,.nil⟩⟩
  | @cons op merged ops mergeds first _ ih =>
      rw [List.forall_mem_cons,List.forall₂_cons]
      refine Iff.trans ?_ (and_congr (resolve_op_iff valid first) ih)
      constructor
      · rintro ⟨⟨expanded,others⟩,_,once,same⟩
        cases once with
        | cons once later =>
            cases same with
            | cons same later' => exact ⟨⟨expanded,_,once,same⟩,others,_,later,later'⟩
      · rintro ⟨⟨expanded,again,once,same⟩,others,rest,later,later'⟩
        exact ⟨⟨expanded,others⟩,again :: rest,.cons once later,.cons same later'⟩

end

-- A library of one retrieval, whose day is bound to the one input of the operation that names it.
def prices : Config :=
  ⟨[("op",.str "DataRetrievalOp"),("data_spec",.dict [("mode",.str "sql"),
    ("params",.list [.dict [("label",.str "day"),("node",.str "unset")]]),
    ("param_bindings",.list [.dict [("label",.str "day"),("input",.int 0)]])])],by decide⟩

def prices_library : Dict String Config := Dict.empty.set "prices" prices

def prices_of_days : Config := ⟨[("id",.str "q1"),("ref",.str "prices"),("inputs",.list [.str "days"])],by decide⟩

def prices_alone : Config := ⟨[("id",.str "q1"),("ref",.str "prices")],by decide⟩

def quoting : Codec := ⟨fun _ => none,fun _ => "",fun _ => none,fun value => match value with
  | .str text => "'" ++ text ++ "'"
  | _ => "None"⟩

theorem subgraph_resolved_one : ∃ resolved, resolve_subgraph quoting [prices_of_days] prices_library = .ok resolved ∧
    List.Forall₂ (Expanded prices_library) [prices_of_days] resolved := by
  refine ⟨_,rfl,((@subgraph_resolved_iff quoting prices_library rfl _ _ rfl).mpr ?_).1⟩
  refine List.forall_mem_cons.mpr ⟨fun ref template named found => ?_,fun _ member => (nomatch member)⟩
  cases (show some (Value.str "prices") = some (.str ref) from named)
  cases (show some prices = some template from found)
  refine ⟨fun _ _ _ _ => by decide,fun data_spec bindings known => ?_,fun data_spec bindings known _ => ?_,.inl rfl⟩
  · cases (show some _ = some (data_spec,bindings) from known)
    intro binding member other member' label input input' wire wire'
    rw [List.mem_singleton.mp member] at wire
    rw [List.mem_singleton.mp member'] at wire'
    cases wire.symm.trans wire'
    rfl
  · cases (show some _ = some (data_spec,bindings) from known)
    exact List.nodup_singleton _

-- The operation without its inputs is accepted, and the day is left unbound.
theorem omitted_inputs_unbound : ¬ ∀ (codec : Codec) (library : Dict String Config) (subgraph resolved : List Config),
    validate_library codec library = .ok () → resolve_subgraph codec subgraph library = .ok resolved →
      List.Forall₂ (Expanded library) subgraph resolved ∧
        ∃ again, resolve_subgraph codec resolved library = .ok again ∧ List.Forall₂ same_config resolved again := by
  intro always
  have first := (always quoting prices_library [prices_alone] _ rfl rfl).1
  cases first with
  | cons expanded _ =>
      obtain ⟨template,found,from_it⟩ := expanded
      cases (show some prices = some template from found)
      obtain ⟨_,_,bound⟩ := from_it.bindings _ _ rfl
      exact absurd bound.count (by decide)

end Lumilake.Dynamic

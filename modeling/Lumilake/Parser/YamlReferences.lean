import Lumilake.Ops.RoundTrip
import Lumilake.Parser.YamlOps

namespace Lumilake.Parser.Yaml
open Ops Fallible

-- Ids that stand for a user's id or that were made before.
def Known (users : Dict String String) (made inputs : List String) : Prop :=
  ∀ input ∈ inputs, input ∈ users.values ∨ input ∈ made

def Reads (users : Dict String String) (made : List String) (op : JsonOp) : Prop :=
  ∃ inputs, Value.get? op.fields "_inputs" = some (id_list inputs) ∧ Known users made inputs

-- Operations made one after another, none of which reads what is not there yet.
def Emitted (users : Dict String String) : List String → List JsonOp → Prop
  | _,[] => True
  | made,op :: rest => Reads users made op ∧ Emitted users (made ++ [op.id]) rest

-- The nodes that a table of an entry names, but for those that are a user's ids.
def loose_rows (users : Dict String String) (table : Value) : List String :=
  match table with
  | .list items => (items.filterMap fun item => match item with
      | .dict row => text? (get row "node")
      | _ => none).filter fun node => decide (node ∉ users.keys)
  | _ => []

section
variable {users : Dict String String}

theorem mem_values {user internal : String} (found : users.get? user = some internal) : internal ∈ users.values :=
  List.mem_map_of_mem (Dict.get?_eq_some.mp found)

theorem Known.append {made first second : List String} (one : Known users made first) (other : Known users made second) :
    Known users made (first ++ second) := fun input member => (List.mem_append.mp member).elim (one input) (other input)

theorem Known.more {made more inputs : List String} (known : Known users made inputs) (sub : made ⊆ more) :
    Known users more inputs := fun input member => (known input member).imp_right (sub ·)

theorem Known.distinct {made inputs : List String} (known : Known users made inputs) :
    Known users made (distinct_inputs inputs) := by
  intro input member
  rcases (mem_distinct_inputs inputs []).mp member with absurd_mem | listed
  · cases absurd_mem
  · exact known input listed

theorem known_values {made inputs : List String} (all : ∀ input ∈ inputs, input ∈ users.values) : Known users made inputs :=
  fun input member => .inl (all input member)

theorem input_ids_known {entry : OpEntry} {made : List String} (declared : ∀ ref ∈ entry.inputs, ref ∈ users.keys) :
    Known users made (input_ids users entry) := by
  refine known_values fun input member => ?_
  obtain ⟨ref,listed,rfl⟩ := List.mem_map.mp member
  obtain ⟨internal,found⟩ := Dict.mem_keys_iff.mp (declared ref listed)
  rw [internal_of,found]
  exact mem_values found

theorem target_of_known {entry : OpEntry} {op_kind label target internal : String}
    (known : target_of users entry op_kind label target = .ok internal) : internal ∈ users.values := by
  unfold target_of at known
  split at known
  · rename_i found
    cases known
    exact mem_values found
  · cases known

theorem emitted_append {made : List String} {first second : List JsonOp} :
    Emitted users made (first ++ second) ↔ Emitted users made first ∧ Emitted users (made ++ first.map JsonOp.id) second := by
  induction first generalizing made with
  | nil => simp [Emitted]
  | cons op rest ih => simp [Emitted,ih,and_assoc]

theorem format_op_reads {id template : String} {inputs made : List String} {format_kwargs : List (String × String)}
    (known : Known users made inputs) : Reads users made (format_op id template inputs format_kwargs) := ⟨inputs,rfl,known⟩

theorem wrapped_ref_known {graph : Dict String JsonOp} {msg : Spec} {op_id : String}
    (wrapped : wrapped_ref users graph msg = some op_id) : op_id ∈ users.values := by
  unfold wrapped_ref at wrapped
  split at wrapped
  · split at wrapped
    · split at wrapped
      · rename_i found
        split at wrapped <;> cases wrapped
        exact mem_values found
      · cases wrapped
    · cases wrapped
  · cases wrapped

-- A message is wrapped for an operation that some user's id stands for.
theorem wrap_messages_known {graph : Dict String JsonOp} {fmt_id : String} (messages : List Value) (s : Wrapping)
    (known : Known users [] s.inputs) : Known users [] (messages.foldl (wrap_message users graph fmt_id) s).inputs := by
  induction messages generalizing s with
  | nil => exact known
  | cons msg rest ih =>
      refine ih _ ?_
      unfold wrap_message
      cases msg with
      | dict fields =>
          dsimp only
          split
          · rename_i op_id wrapped
            intro input member
            unfold add_input at member
            split at member
            · exact known input member
            · rcases List.mem_append.mp member with old | new
              · exact known input old
              · exact .inl (List.mem_singleton.mp new ▸ wrapped_ref_known wrapped)
          · exact known
      | _ => exact known

theorem wrap_user_content_refs_emitted {digest : Digest} {scope : String} {graph : Dict String JsonOp} (messages : Value)
    (entry_id : String) : Emitted users [] (wrap_user_content_refs digest scope users graph messages entry_id).2 := by
  unfold wrap_user_content_refs
  split
  · dsimp only
    split
    · trivial
    · refine ⟨format_op_reads ?_,trivial⟩
      exact wrap_messages_known _ _ fun _ member => (nomatch member)
  · trivial

-- Inline messages need one format operation at most.
theorem build_inline_messages_emitted {digest : Digest} {scope : String} {graph : Dict String JsonOp} {messages prompt_spec : Value}
    {entry_id : String} {prepared : Value} {made : List JsonOp}
    (known : build_inline_messages digest scope users graph messages prompt_spec entry_id = .ok (prepared,made)) :
    Emitted users [] made := by
  unfold build_inline_messages at known
  split at known
  · split at known
    · split at known
      · obtain ⟨resolved,resolves,known⟩ := bind_ok known
        obtain ⟨items,_,known⟩ := bind_ok known
        cases known
        have own : ∀ input ∈ resolved.map Prod.snd, input ∈ users.values := by
          intro input member
          obtain ⟨e,listed,rfl⟩ := List.mem_map.mp member
          obtain ⟨kwarg,_,resolve⟩ := forall₂_right (mapM_ok.mp resolves) listed
          unfold prompt_kwarg at resolve
          split at resolve <;> cases resolve
          exact mem_values (by assumption)
        exact ⟨format_op_reads (known_values own).distinct,trivial⟩
      · cases known
    · cases known
  · have same : (wrap_user_content_refs digest scope users graph messages entry_id).2 = made :=
      congrArg Prod.snd (Except.ok.inj known)
    exact same ▸ wrap_user_content_refs_emitted messages entry_id

-- The operation for the messages is the last of what is made for them, or a user's.
theorem llm_messages_emitted {digest : Digest} {scope : String} {graph : Dict String JsonOp} {entry : OpEntry}
    {op_kind msg_internal_id : String} {made : List JsonOp} (declared : ∀ ref ∈ entry.inputs, ref ∈ users.keys)
    (known : llm_messages digest scope users graph entry op_kind = .ok (msg_internal_id,made)) :
    Emitted users [] made ∧ Known users (made.map JsonOp.id) [msg_internal_id] := by
  unfold llm_messages at known
  split at known
  · cases known
  · unfold inline_message_op at known
    obtain ⟨⟨prepared,extra⟩,inline,known⟩ := bind_ok known
    obtain ⟨items,_,known⟩ := bind_ok known
    obtain ⟨fields,_,known⟩ := bind_ok known
    cases known
    have extra_ids : Known users (extra.map JsonOp.id) (extra.map JsonOp.id) := fun input member => .inr member
    refine ⟨emitted_append.mpr ⟨build_inline_messages_emitted inline,⟨_,rfl,?_⟩,trivial⟩,?_⟩
    · intro input member
      exact ((input_ids_known declared).append extra_ids).distinct input (List.mem_of_mem_filter member)
    · intro input member
      rw [List.mem_singleton.mp member]
      exact .inr (by simp)
  · obtain ⟨target,named,known⟩ := bind_ok known
    split at known <;> cases known
    exact ⟨trivial,known_values fun input member => List.mem_singleton.mp member ▸ target_of_known named⟩
  · cases known

-- A row's node is resolved, or it is no user's id and stays.
theorem resolve_row_node {item : Value} {row : Spec} {node : String} (resolve : resolve_row users item = .ok row)
    (named : text? (get row "node") = some node) :
    node ∈ users.values ∨ (item = .dict row ∧ node ∉ users.keys) := by
  unfold resolve_row at resolve
  split at resolve
  · split at resolve
    · rename_i node_ref text
      split at resolve <;> cases resolve
      · rename_i internal found
        rw [get,get_put_self] at named
        cases named
        exact .inl (mem_values found)
      · rename_i missing
        rw [text] at named
        cases named
        exact .inr ⟨rfl,Dict.get?_eq_none.mp missing⟩
    · rename_i other
      cases resolve
      cases value : get row "node" with
      | str text => exact absurd value (other text)
      | _ => rw [value] at named; cases named
  · cases resolve

theorem resolve_table_nodes_known {table : Value} {rows : Option (List Spec)}
    (known : resolve_table_nodes users table = .ok rows) : Known users (loose_rows users table) (row_nodes rows) := by
  unfold resolve_table_nodes at known
  split at known
  · cases known
    exact fun _ member => (nomatch member)
  · obtain ⟨resolved,resolves,known⟩ := bind_ok known
    cases known
    intro node member
    obtain ⟨row,listed,named⟩ := List.mem_filterMap.mp member
    obtain ⟨item,inside,resolve⟩ := forall₂_right (mapM_ok.mp resolves) listed
    rcases resolve_row_node resolve named with resolved_node | ⟨rfl,missing⟩
    · exact .inl resolved_node
    · exact .inr (List.mem_filter.mpr ⟨List.mem_filterMap.mpr ⟨_,inside,named⟩,decide_eq_true missing⟩)
  · cases known

-- What an entry names that nobody may know: the nodes of a chat operation's tables.
def loose (users : Dict String String) (entry : OpEntry) : List String :=
  if entry.op = "LLMChatOp" then
    loose_rows users (get entry.fields "aggregate_table") ++ loose_rows users (get entry.fields "rowwise_columns")
  else []

structure BuiltKnown (users : Dict String String) (entry : OpEntry) (built : Built) : Prop where
  implicit : Emitted users [] built.implicit
  inputs : Known users (built.implicit.map JsonOp.id ++ loose users entry) built.inputs

theorem emit_llm_like_known {python : Python} {digest : Digest} {scope : String} {graph : Dict String JsonOp} {entry : OpEntry}
    {op_kind : String} {built : Built} (declared : ∀ ref ∈ entry.inputs, ref ∈ users.keys) (kind : entry.op = op_kind)
    (known : emit_llm_like_op python digest scope users graph entry op_kind = .ok built) : BuiltKnown users entry built := by
  unfold emit_llm_like_op at known
  obtain ⟨config,_,known⟩ := bind_ok known
  obtain ⟨⟨msg_internal_id,implicit⟩,messages,known⟩ := bind_ok known
  obtain ⟨config',_,known⟩ := bind_ok known
  obtain ⟨aggregate,aggregates,known⟩ := bind_ok known
  obtain ⟨rowwise,rowwises,known⟩ := bind_ok known
  cases known
  obtain ⟨emitted,message⟩ := llm_messages_emitted declared messages
  refine ⟨emitted,?_⟩
  dsimp only
  split
  · rename_i chat
    rw [loose,if_pos (kind.trans chat)]
    have first := message.more (List.subset_append_left (implicit.map JsonOp.id)
      (loose_rows users (get entry.fields "aggregate_table") ++ loose_rows users (get entry.fields "rowwise_columns")))
    have tables := ((resolve_table_nodes_known aggregates).more (List.subset_append_left _ _)).append
      ((resolve_table_nodes_known rowwises).more (List.subset_append_right _ _))
    exact (first.append (tables.more (List.subset_append_right _ _))).distinct
  · exact message.more (List.subset_append_left _ _)

theorem built_plain {entry : OpEntry} {inputs : List String} (fields : Spec) (known : Known users [] inputs) :
    BuiltKnown users entry ⟨inputs,fields,[]⟩ := ⟨trivial,known.more (List.nil_subset _)⟩

theorem emit_image_generation_known {python : Python} {digest : Digest} {scope : String} {graph : Dict String JsonOp}
    {entry : OpEntry} {built : Built} (known : emit_image_generation_op python digest scope users graph entry = .ok built) :
    BuiltKnown users entry built := by
  unfold emit_image_generation_op at known
  obtain ⟨config,_,known⟩ := bind_ok known
  split at known
  · split at known
    · cases known
    · obtain ⟨target,named,known⟩ := bind_ok known
      obtain ⟨config',_,known⟩ := bind_ok known
      cases known
      have own : Known users [] [target] :=
        known_values fun input member => List.mem_singleton.mp member ▸ target_of_known named
      cases has_class graph target "FormatOp"
      · refine ⟨⟨format_op_reads own,trivial⟩,fun input member => .inr ?_⟩
        rw [List.mem_singleton.mp member]
        exact List.mem_cons_self
      · exact built_plain _ own
  · cases known

theorem emit_embedding_known {python : Python} {entry : OpEntry} {built : Built}
    (known : emit_embedding_op python users entry = .ok built) : BuiltKnown users entry built := by
  unfold emit_embedding_op at known
  obtain ⟨config,_,known⟩ := bind_ok known
  split at known
  · split at known
    · cases known
    · obtain ⟨target,named,known⟩ := bind_ok known
      obtain ⟨config',_,known⟩ := bind_ok known
      cases known
      exact built_plain _ (known_values fun input member => List.mem_singleton.mp member ▸ target_of_known named)
  · cases known

theorem build_fields_known {python : Python} {digest : Digest} {scope : String} {graph : Dict String JsonOp} {entry : OpEntry}
    {built : Built} (declared : ∀ ref ∈ entry.inputs, ref ∈ users.keys)
    (known : build_fields python digest scope users graph entry = .ok built) : BuiltKnown users entry built := by
  have ids : Known users [] (input_ids users entry) := input_ids_known declared
  unfold build_fields at known
  dsimp only at known
  split at known
  · unfold emit_data_op at known
    split at known <;> cases known
    exact built_plain _ fun _ member => (nomatch member)
  · unfold emit_data_retrieval_op at known
    split at known
    · obtain ⟨resolved,_,known⟩ := bind_ok known
      cases known
      exact built_plain _ ids
    · cases known
  · obtain ⟨fields,_,known⟩ := bind_ok known
    cases known
    exact built_plain _ ids
  · rename_i kind
    exact emit_llm_like_known declared kind known
  · rename_i kind
    unfold emit_llm_vision_op at known
    split at known
    · split at known
      · cases known
      · obtain ⟨source,_,known⟩ := bind_ok known
        obtain ⟨path,_,known⟩ := bind_ok known
        obtain ⟨like,messages,known⟩ := bind_ok known
        cases known
        obtain ⟨implicit,inputs⟩ := emit_llm_like_known declared kind messages
        exact ⟨implicit,inputs⟩
    · cases known
  · exact emit_image_generation_known known
  · exact emit_embedding_known known
  · unfold emit_format_op at known
    split at known
    · split at known
      · cases known
      · split at known <;> cases known
        exact built_plain _ ids
    · cases known
  · unfold emit_lambda_op at known
    split at known
    · dsimp only at known
      split at known
      · cases known
      · obtain ⟨timeout_s,_,known⟩ := bind_ok known
        obtain ⟨memory_mb,_,known⟩ := bind_ok known
        obtain ⟨image,_,known⟩ := bind_ok known
        obtain ⟨expected_runtime_s,_,known⟩ := bind_ok known
        obtain ⟨cache,_,known⟩ := bind_ok known
        cases known
        exact built_plain _ ids
    · cases known
    · cases known
  · cases known

-- An entry whose declared inputs are known gives operations that read what stands for a user's id
-- or was made for the entry before; only a chat operation's rows may name what nobody knows.
theorem build_op_dict_known {python : Python} {digest : Digest} {scope : String} {graph : Dict String JsonOp} {entry : OpEntry}
    {ops : List JsonOp} (declared : ∀ ref ∈ entry.inputs, ref ∈ users.keys)
    (known : build_op_dict python digest scope users graph entry = .ok ops) :
    ∃ implicit op, ops = implicit ++ [op] ∧ op.id = internal_of users entry.id ∧ op.op = entry.op ∧
      Emitted users [] implicit ∧ Reads users (implicit.map JsonOp.id ++ loose users entry) op := by
  unfold build_op_dict at known
  obtain ⟨built,fields,known⟩ := bind_ok known
  cases known
  obtain ⟨implicit,inputs⟩ := build_fields_known declared fields
  exact ⟨_,_,rfl,rfl,rfl,implicit,_,rfl,inputs⟩

end

end Lumilake.Parser.Yaml

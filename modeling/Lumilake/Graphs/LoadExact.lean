import Lumilake.Graphs.Reload

namespace Lumilake.Ops
open Fallible

-- The literal contents of a message operation.
def Body.texts : Body → List String
  | .message_op messages => messages.filterMap fun message =>
      match message.2 with
      | .op _ => none
      | .text t => some t
  | _ => []

theorem Body.texts_rename (f : String → String) (body : Body) : (body.rename f).texts = body.texts := by
  cases body with
  | message_op messages =>
      simp only [Body.rename,Body.texts,List.filterMap_map]
      refine List.filterMap_congr ?_
      rintro ⟨role,content⟩ _
      cases content <;> rfl
  | _ => rfl

theorem Body.vision_of_rename {f : String → String} {body : Body} {llm : LLMFields} {image_source image_path : Value}
    (same : body.rename f = .llm_vision_op llm image_source image_path) : body = .llm_vision_op llm image_source image_path := by
  cases body with
  | llm_vision_op llm' source path => exact same
  | _ => cases same

theorem Body.format_of_rename {f : String → String} {body : Body} {template paths : Value} {args : List String}
    {kwargs : List (String × String)} (same : body.rename f = .format_op template args kwargs paths) :
    ∃ args kwargs, body = .format_op template args kwargs paths := by
  cases body with
  | format_op template' args' kwargs' paths' =>
      cases same
      exact ⟨args',kwargs',rfl⟩
  | _ => cases same

section
variable {python : Python} {known : List String} {data : JsonOp} {op : Op}

theorem read_messages_texts {items : List Value} {messages : List (Value × Content)}
    (read : items.mapM (MessageOp.read_message known) = .ok messages) :
    ∀ text ∈ (Body.message_op messages).texts, text ∉ known := by
  induction items generalizing messages with
  | nil =>
      cases read
      simp [Body.texts]
  | cons first rest ih =>
      rw [List.mapM_cons] at read
      obtain ⟨message,here,read⟩ := bind_ok read
      obtain ⟨others,later,read⟩ := bind_ok read
      cases read
      intro text member
      obtain ⟨m,among,is_text⟩ := List.mem_filterMap.mp member
      rcases List.mem_cons.mp among with rfl | among
      · obtain ⟨role,_,here⟩ := bind_ok here
        obtain ⟨raw,_,here⟩ := bind_ok here
        obtain ⟨content,got,here⟩ := bind_ok here
        cases here
        cases raw with
        | str t =>
            simp only [MessageOp.get_content,Except.ok.injEq] at got
            split_ifs at got with known_text
            · subst got
              cases is_text
            · subst got
              cases is_text
              exact known_text
        | none => cases got
        | bool b => cases got
        | int i => cases got
        | float q => cases got
        | list items => cases got
        | tuple items => cases got
        | dict entries => cases got
      · exact ih later text (List.mem_filterMap.mpr ⟨m,among,is_text⟩)

-- What each class makes of the entry it reads, as far as a second reading can tell.
structure AsRead (known : List String) (data : JsonOp) (inputs : List String) (body : Body) : Prop where
  texts : ∀ text ∈ body.texts, text ∉ known
  image_source : ∀ llm text path, body = .llm_vision_op llm (.str text) path →
    ∃ message, inputs = if text ∈ known then [message,text] else [message]
  format_paths : ∀ template args kwargs paths, body = .format_op template args kwargs paths →
    paths = data.optional "format_paths" (.dict [])

theorem op_as_read (loaded : op_from_json python known data = .ok op) : AsRead known data op.inputs op.body := by
  obtain ⟨⟨inputs,body⟩,read,made⟩ := bind_ok loaded
  cases made
  unfold read_body at read
  dsimp only
  split at read
  · obtain ⟨value,_,made⟩ := bind_ok read
    cases made
    exact ⟨by simp [Body.texts],by simp,by simp⟩
  · obtain ⟨keys,_,read⟩ := bind_ok read
    obtain ⟨value,_,made⟩ := bind_ok read
    cases made
    exact ⟨by simp [Body.texts],by simp,by simp⟩
  · obtain ⟨raw,_,read⟩ := bind_ok read
    obtain ⟨items,_,read⟩ := bind_ok read
    obtain ⟨messages,found,made⟩ := bind_ok read
    cases made
    exact ⟨read_messages_texts found,by simp,by simp⟩
  · obtain ⟨value,_,made⟩ := bind_ok read
    cases made
    exact ⟨by simp [Body.texts],by simp,by simp⟩
  · obtain ⟨ids,_,read⟩ := bind_ok read
    obtain ⟨input_id,_,read⟩ := bind_ok read
    obtain ⟨name,_,read⟩ := bind_ok read
    obtain ⟨output,_,made⟩ := bind_ok read
    cases made
    exact ⟨by simp [Body.texts],by simp,by simp⟩
  · obtain ⟨messages,_,read⟩ := bind_ok read
    obtain ⟨message,_,read⟩ := bind_ok read
    obtain ⟨kwargs,_,read⟩ := bind_ok read
    obtain ⟨config,_,read⟩ := bind_ok read
    obtain ⟨return_history,_,read⟩ := bind_ok read
    obtain ⟨cacheable,_,made⟩ := bind_ok read
    cases made
    exact ⟨by simp [Body.texts],by simp,by simp⟩
  · obtain ⟨messages,_,read⟩ := bind_ok read
    obtain ⟨message,_,read⟩ := bind_ok read
    obtain ⟨kwargs,_,read⟩ := bind_ok read
    obtain ⟨config,_,read⟩ := bind_ok read
    obtain ⟨return_history,_,read⟩ := bind_ok read
    obtain ⟨cacheable,_,read⟩ := bind_ok read
    obtain ⟨source,sourced,read⟩ := bind_ok read
    dsimp only at read
    split at read
    · cases read
    · cases read
      refine ⟨by simp [Body.texts],fun llm text path same => ?_,by simp⟩
      injection same with _ given _
      rw [given] at sourced
      cases sourced
      refine ⟨message,?_⟩
      split <;> rfl
  · obtain ⟨content,config,cacheable,rfl,rfl,_,_⟩ := read_content_ok read
    exact ⟨by simp [Body.texts],by simp,by simp⟩
  · obtain ⟨content,config,cacheable,rfl,rfl,_,_⟩ := read_content_ok read
    exact ⟨by simp [Body.texts],by simp,by simp⟩
  · unfold FormatOp.from_json at read
    obtain ⟨raw_args,_,read⟩ := bind_ok read
    obtain ⟨args,_,read⟩ := bind_ok read
    obtain ⟨raw_kwargs,_,read⟩ := bind_ok read
    obtain ⟨format_kwargs,_,read⟩ := bind_ok read
    obtain ⟨template,_,read⟩ := bind_ok read
    obtain ⟨_,_,made⟩ := bind_ok read
    cases made
    refine ⟨by simp [Body.texts],by simp,fun template args kwargs paths same => ?_⟩
    injection same with _ _ _ paths
    exact paths.symm
  · unfold LambdaOp.from_json at read
    obtain ⟨_,_,read⟩ := bind_ok read
    obtain ⟨ids,_,read⟩ := bind_ok read
    obtain ⟨keys,_,read⟩ := bind_ok read
    obtain ⟨_,_,made⟩ := bind_ok read
    cases made
    exact ⟨by simp [Body.texts],by simp,by simp⟩
  · cases read

end
end Lumilake.Ops

namespace Lumilake.Graphs
open Ops Fallible Relation

namespace Listed
variable {python : Python} {json : JsonGraph} {graph : Graph} {objects : List (String × Op)}
  {order : SetOrder String} (listed : Listed python json graph objects)
include listed

theorem earlier_written {front back : List (String × Op)} {o : String × Op} (split : objects = front ++ o :: back) :
    earlier graph.serialize o.2.id = front.map fun o => o.2.id := by
  have keys : graph.serialize.keys = objects.map fun o => o.2.id := by
    rw [Dict.keys,listed.serialize_entries,List.map_map]
    rfl
  have absent : o.2.id ∉ front.map fun o => o.2.id := by
    have distinct := listed.ids
    rw [split,List.map_append,List.map_cons] at distinct
    exact fun member => (List.nodup_append.mp distinct).2.2 _ member _ List.mem_cons_self rfl
  unfold earlier
  rw [keys,split,List.map_append,List.map_cons,List.takeWhile_append_of_pos]
  · simp
  · intro id member
    have different : id ≠ o.2.id := fun same => absent (same ▸ member)
    simpa using different

-- In a graph loaded again with the same operations, each was read from what was written of it.
theorem read_again {reloaded : Graph} (again : Graph.from_json python order graph.serialize = .ok reloaded)
    (same : ∀ id, reloaded.view id = graph.view id) {o : String × Op} (member : o ∈ objects) :
    ∃ op, op_from_json python (earlier graph.serialize o.2.id) (o.2.serialize (id_of graph.ops)) = .ok op ∧
      op.rename (id_of reloaded.ops) = o.2.rename (id_of graph.ops) := by
  obtain ⟨sorted,_,arranged⟩ := exists_arranged again
  have viewed := same o.2.id
  rw [listed.view_object member] at viewed
  obtain ⟨op,found,renamed⟩ := Option.map_eq_some_iff.mp viewed
  obtain ⟨key,place,here⟩ := Option.bind_eq_some_iff.mp found
  rw [arranged.order] at place
  rcases get?_by_id sorted Dict.empty place with none_yet | ⟨_,id⟩
  · cases none_yet
  · obtain ⟨data,entry,read⟩ := ((arranged.loads key op).mp here).entry
    rw [arranged.id_is entry] at id
    rw [Dict.get?_eq_some,listed.serialize_entries] at entry
    obtain ⟨o',member',made⟩ := List.mem_map.mp entry
    cases made
    have equal : o' = o := List.inj_on_of_nodup_map listed.ids member' member id
    subst equal
    exact ⟨op,read,renamed⟩

theorem object {key : String} {op : Op} (loads : Loads python json key op) : (key,op) ∈ objects := by
  obtain ⟨data,entry,_⟩ := loads.entry
  obtain ⟨op',member⟩ := listed.all key (Dict.mem_keys_iff.mpr ⟨data,entry⟩)
  have found := (listed.arranged.loads key op).mpr loads
  rw [listed.found _ member] at found
  cases found
  exact member

-- What a column of an operation reads stands before it in a faithful graph.
theorem column_before (faithful : Faithful python json graph) {key key' node : String} {op : Op} {data' : JsonOp}
    (loads : Loads python json key op) (column : node ∈ rowwise_nodes op.body) (entry' : json.get? key' = some data')
    (named : data'.id = node) : Precedes (objects.map Prod.fst) key' key := by
  have member := listed.object loads
  have reader : key ∈ json.keys := listed.arranged.sorted_known (List.mem_map_of_mem member)
  have known : key' ∈ json.keys := Dict.mem_keys_iff.mpr ⟨data',entry'⟩
  have column' : data'.id ∈ (op.rename (id_of graph.ops)).inputs ++ rowwise_nodes (op.rename (id_of graph.ops)).body := by
    refine List.mem_append_right _ ?_
    rw [named]
    obtain ⟨id,inputs,max_iter,body⟩ := op
    cases body <;> exact column
  have before := faithful.ordered _ _ (listed.view_object member) _ column' ⟨key',data',entry',rfl⟩
  rwa [← listed.arranged.id_is entry',← listed.id_of_object member,listed.precedes_iff known reader] at before

-- What a second reading that finds the same operations says of an operation of the first.
section
variable {reloaded : Graph} (again : Graph.from_json python order graph.serialize = .ok reloaded)
  (same : ∀ id, reloaded.view id = graph.view id) {key : String} {op : Op} (loads : Loads python json key op)
include again same loads

theorem image_source_own {llm : LLMFields} {text : String} {path : Value} {data : JsonOp}
    (shape : op.body = .llm_vision_op llm (.str text) path) (before : text ∈ earlier json key)
    (entry : json.get? text = some data) : data.id = text := by
  obtain ⟨op',read,renamed⟩ := listed.read_again again same (listed.object loads)
  have bodies : op'.body.rename (id_of reloaded.ops) = op.body.rename (id_of graph.ops) := congrArg Op.body renamed
  obtain ⟨_,_,loaded⟩ := loads.entry
  obtain ⟨message,inputs⟩ := (op_as_read loaded).image_source llm text path shape
  rw [if_pos before] at inputs
  rw [shape] at bodies
  obtain ⟨message',inputs'⟩ := (op_as_read read).image_source llm text path (Body.vision_of_rename bodies)
  have renamed_inputs := congrArg Op.inputs renamed
  split at inputs'
  · rename_i there
    simp only [Op.rename,inputs,inputs',List.map_cons,List.map_nil,List.cons.injEq,and_true] at renamed_inputs
    obtain ⟨sorted,_,arranged⟩ := exists_arranged again
    obtain ⟨written,found⟩ := Dict.mem_keys_iff.mp (takeWhile_subset _ there)
    have own : written.id = text := by
      have present := found
      rw [Dict.get?_eq_some,listed.serialize_entries] at present
      obtain ⟨o,_,made⟩ := List.mem_map.mp present
      cases made
      rfl
    rw [← listed.arranged.id_is entry,← renamed_inputs.2,arranged.id_is found,own]
  · simp [Op.rename,inputs,inputs'] at renamed_inputs

theorem format_paths_kept {template paths : Value} {args : List String} {kwargs : List (String × String)}
    (shape : op.body = .format_op template args kwargs paths) : paths.truth = true ∨ paths = .dict [] := by
  obtain ⟨op',read,renamed⟩ := listed.read_again again same (listed.object loads)
  have bodies : op'.body.rename (id_of reloaded.ops) = op.body.rename (id_of graph.ops) := congrArg Op.body renamed
  rw [shape] at bodies
  obtain ⟨args',kwargs',format⟩ := Body.format_of_rename bodies
  have kept_paths := (op_as_read read).format_paths template args' kwargs' paths format
  cases truth : paths.truth with
  | true => exact .inl rfl
  | false =>
      refine .inr ?_
      rw [kept_paths]
      simp [Op.serialize,Op.serialize_body,shape,JsonOp.optional,truth,List.lookup_cons]

theorem literal_behind {key' text : String} {data' : JsonOp} (literal : text ∈ op.body.literals (earlier json key))
    (entry' : json.get? key' = some data') (named : data'.id = text) : ¬Precedes (objects.map Prod.fst) key' key := by
  intro before
  have member := listed.object loads
  obtain ⟨front,back,split⟩ := List.append_of_mem member
  have split_keys : objects.map Prod.fst = front.map Prod.fst ++ key :: back.map Prod.fst := by simp [split]
  -- the text stands in the table that the operation is read against again
  have there : text ∈ earlier graph.serialize op.id := by
    rw [listed.earlier_written split]
    obtain ⟨o',member',rfl⟩ := List.mem_map.mp ((mem_front_iff listed.arranged.distinct split_keys).mpr before.1)
    have inside : o' ∈ objects := split ▸ List.mem_append_left _ member'
    rw [← named,← listed.arranged.id_is entry',listed.id_of_object inside]
    exact List.mem_map_of_mem member'
  obtain ⟨op',read,renamed⟩ := listed.read_again again same member
  have as_read := op_as_read read
  have bodies : op'.body.rename (id_of reloaded.ops) = op.body.rename (id_of graph.ops) := congrArg Op.body renamed
  cases shape : op.body with
  | message_op messages =>
      have texts : op'.body.texts = op.body.texts := by
        rw [← op'.body.texts_rename (id_of reloaded.ops),bodies,Body.texts_rename]
      rw [shape] at literal
      have literal' : text ∈ op'.body.texts := by
        rw [texts,shape]
        exact literal
      exact as_read.texts text literal' there
  | llm_vision_op llm image_source path =>
      rw [shape] at literal
      cases image_source with
      | str source =>
          change text ∈ (if source ∈ earlier json key then [] else [source]) at literal
          split at literal
          · cases literal
          · rename_i unknown
            obtain rfl := List.mem_singleton.mp literal
            obtain ⟨data,_,loaded⟩ := loads.entry
            obtain ⟨message,inputs⟩ := (op_as_read loaded).image_source llm text path shape
            rw [if_neg unknown] at inputs
            rw [shape] at bodies
            have vision := Body.vision_of_rename bodies
            obtain ⟨message',inputs'⟩ := as_read.image_source llm text path vision
            rw [if_pos there] at inputs'
            have lengths := congrArg (fun op => op.inputs.length) renamed
            simp [Op.rename,inputs,inputs'] at lengths
      | _ => cases literal
  | _ => rw [shape] at literal; cases literal

end

-- A graph that is faithful to what it was loaded from meets the condition in its own order.
theorem unmistaken_in (faithful : Faithful python json graph) (kept : Kept python json) :
    UnmistakenIn python json (objects.map Prod.fst) := by
  obtain ⟨reloaded,again,same⟩ := faithful.again .inserted
  refine ⟨⟨kept,?_,?_⟩,?_,?_⟩
  · exact fun _ _ loads _ _ _ shape _ before entry => listed.image_source_own again same loads shape before entry
  · exact fun _ _ loads _ _ _ _ shape => listed.format_paths_kept again same loads shape
  · exact fun _ _ loads _ column _ _ entry named => listed.column_before faithful loads column entry named
  · exact fun _ _ loads _ literal _ _ entry named => listed.literal_behind again same loads literal entry named

end Listed

theorem unmistaken_faithful {python : Python} {json : JsonGraph} {graph : Graph} {objects : List (String × Op)}
    {order : SetOrder String} (listed : Listed python json graph objects) (accepted : Graph.from_json python order json = .ok graph)
    (unmistaken : UnmistakenIn python json (objects.map Prod.fst)) : Faithful python json graph :=
  ⟨(complete_iff accepted).mpr unmistaken.toKept,listed.references_before unmistaken,listed.view_again accepted unmistaken⟩

end Lumilake.Graphs

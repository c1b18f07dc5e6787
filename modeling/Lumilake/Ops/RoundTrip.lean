import Lumilake.Ops.Base

namespace Lumilake.Ops
open Fallible

namespace Content

def rename (f : String → String) : Content → Content
  | .op key => .op (f key)
  | .text t => .text t

end Content

namespace Body

def rename (f : String → String) : Body → Body
  | .message_op messages => .message_op (messages.map fun message => (message.1,message.2.rename f))
  | .format_op template format_args format_kwargs format_paths =>
    .format_op template (format_args.map f) (format_kwargs.map fun e => (e.1,f e.2)) format_paths
  | body => body

-- The operations that are named beside the inputs.
def refs : Body → List String
  | .message_op messages => MessageOp.content_refs messages
  | .format_op _ format_args format_kwargs _ => format_args ++ format_kwargs.map Prod.snd
  | _ => []

-- The texts that were looked up and are no operation.
def literals (known : List String) : Body → List String
  | .message_op messages => messages.filterMap fun message =>
      match message.2 with
      | .op _ => none
      | .text t => some t
  | .llm_vision_op _ (.str image_source) _ => if image_source ∈ known then [] else [image_source]
  | _ => []

end Body

def Op.rename (f : String → String) (op : Op) : Op := ⟨op.id,op.inputs.map f,op.max_iter,op.body.rename f⟩

-- What reading an operation back asks of the table it is read against: its references are
-- there under the names they were written with, and its literals are not.
structure Readable (known other_ops : List String) (f : String → String) (inputs : List String) (body : Body) : Prop where
  present : ∀ key ∈ inputs, f key ∈ other_ops
  injective : ∀ key ∈ inputs, ∀ key' ∈ inputs, f key = f key' → key = key'
  literals : ∀ text ∈ body.literals known, text ∉ other_ops
  image_source : ∀ llm text path, body = .llm_vision_op llm (.str text) path → text ∈ known → f text = text
  format_paths : ∀ template args kwargs paths, body = .format_op template args kwargs paths →
    paths.truth = true ∨ paths = .dict []

section
variable {python : Python} {known other_ops : List String} {f : String → String} {data : JsonOp} {inputs : List String}
  {body : Body}

-- Keys that may have been left out.
theorem lookup_given (key k : String) (value : Value) (rest : Spec) : (Op.given k value ++ rest).lookup key =
    if key = k then if value = .none then rest.lookup key else some value else rest.lookup key := by
  unfold Op.given
  by_cases absent : value = .none
  · simp [absent]
  · rw [if_neg absent,List.singleton_append,List.lookup_cons]
    by_cases same : key = k
    · simp [same,absent]
    · simp [same,beq_false_of_ne same]

theorem given_or_none (value : Value) : (if value = .none then none else some value).getD .none = value := by
  split
  · rename_i absent
    exact absent.symm
  · rfl

theorem reference_ok {op_id : Value} {key : String} (found : reference python known op_id = .ok key) :
    op_id = .str key ∧ key ∈ known := by
  cases op_id with
  | str text =>
      simp only [reference] at found
      split_ifs at found with member
      cases found
      exact ⟨rfl,member⟩
  | none => cases found
  | bool b => cases found
  | int i => cases found
  | float q => cases found
  | list items => cases found
  | tuple items => cases found
  | dict entries => cases found

theorem reference_mem {key : String} (member : key ∈ other_ops) : reference python other_ops (.str key) = .ok key :=
  if_pos member

theorem mapM_references {op_ids : List Value} {keys : List String}
    (found : op_ids.mapM (reference python known) = .ok keys) : ∀ key ∈ keys, key ∈ known := by
  induction op_ids generalizing keys with
  | nil =>
      cases found
      simp
  | cons op_id rest ih =>
      rw [List.mapM_cons] at found
      obtain ⟨first,here,found⟩ := bind_ok found
      obtain ⟨others,later,found⟩ := bind_ok found
      cases found
      intro key member
      rcases List.mem_cons.mp member with rfl | member
      · exact (reference_ok here).2
      · exact ih later key member

theorem references_ok {op_ids : Value} {keys : List String} (found : references python known op_ids = .ok keys) :
    ∀ key ∈ keys, key ∈ known := by
  obtain ⟨items,_,found⟩ := bind_ok found
  exact mapM_references found

theorem references_ids {keys : List String} (present : ∀ key ∈ keys, f key ∈ other_ops) :
    references python other_ops (Op.ids f keys) = .ok (keys.map f) := by
  change (keys.map fun key => Value.str (f key)).mapM (reference python other_ops) = _
  induction keys with
  | nil => rfl
  | cons key rest ih =>
      rw [List.map_cons,List.mapM_cons,reference_mem (present key List.mem_cons_self),
        ih fun key member => present key (List.mem_cons_of_mem _ member)]
      rfl

theorem mem_distinct_inputs (refs inputs : List String) {key : String} :
    key ∈ refs.foldl add_input inputs ↔ key ∈ inputs ∨ key ∈ refs := by
  induction refs generalizing inputs with
  | nil => simp
  | cons ref rest ih =>
      rw [List.foldl_cons,ih]
      unfold add_input
      split
      · rename_i present
        grind
      · grind

-- An injective renaming of the references renames the inputs.
theorem distinct_inputs_map (refs inputs : List String)
    (injective : ∀ key, key ∈ inputs ∨ key ∈ refs → ∀ key', key' ∈ inputs ∨ key' ∈ refs → f key = f key' → key = key') :
    (refs.map f).foldl add_input (inputs.map f) = (refs.foldl add_input inputs).map f := by
  induction refs generalizing inputs with
  | nil => rfl
  | cons ref rest ih =>
      have step : add_input (inputs.map f) (f ref) = (add_input inputs ref).map f := by
        unfold add_input
        by_cases present : ref ∈ inputs
        · rw [if_pos present,if_pos (List.mem_map_of_mem present)]
        · have absent : f ref ∉ inputs.map f := by
            intro member
            obtain ⟨old,here,same⟩ := List.mem_map.mp member
            exact present (injective old (.inl here) ref (.inr List.mem_cons_self) same ▸ here)
          rw [if_neg present,if_neg absent,List.map_append]
          rfl
      rw [List.map_cons,List.foldl_cons,List.foldl_cons,step]
      apply ih
      have inside : ∀ key, key ∈ add_input inputs ref ∨ key ∈ rest → key ∈ inputs ∨ key ∈ ref :: rest := by
        intro key member
        unfold add_input at member
        split at member <;> grind
      exact fun key member key' member' => injective key (inside key member) key' (inside key' member')

-- Each class reads back what it wrote, once loading has accepted it.
theorem DataOp.read_back (loaded : DataOp.from_json data = .ok (inputs,body)) (id : String) (max_iter : Value) :
    op_from_json python other_ops ((Op.mk id inputs max_iter body).serialize f) = .ok ((Op.mk id inputs max_iter body).rename f) := by
  obtain ⟨value,_,made⟩ := bind_ok loaded
  cases made
  rfl

theorem InputOp.read_back (loaded : InputOp.from_json data = .ok (inputs,body)) (id : String) (max_iter : Value) :
    op_from_json python other_ops ((Op.mk id inputs max_iter body).serialize f) = .ok ((Op.mk id inputs max_iter body).rename f) := by
  obtain ⟨value,_,made⟩ := bind_ok loaded
  cases made
  rfl

theorem DataRetrievalOp.read_back (loaded : DataRetrievalOp.from_json python known data = .ok (inputs,body))
    (readable : Readable known other_ops f inputs body) (id : String) (max_iter : Value) :
    op_from_json python other_ops ((Op.mk id inputs max_iter body).serialize f) = .ok ((Op.mk id inputs max_iter body).rename f) := by
  obtain ⟨keys,_,loaded⟩ := bind_ok loaded
  obtain ⟨value,_,made⟩ := bind_ok loaded
  cases made
  change (references python other_ops (Op.ids f inputs) >>= _) >>= _ = _
  rw [references_ids readable.present]
  rfl

theorem OutputOp.read_back (loaded : OutputOp.from_json python known data = .ok (inputs,body))
    (readable : Readable known other_ops f inputs body) (id : String) (max_iter : Value) :
    op_from_json python other_ops ((Op.mk id inputs max_iter body).serialize f) = .ok ((Op.mk id inputs max_iter body).rename f) := by
  obtain ⟨ids,_,loaded⟩ := bind_ok loaded
  obtain ⟨input_id,_,loaded⟩ := bind_ok loaded
  obtain ⟨name,_,loaded⟩ := bind_ok loaded
  obtain ⟨output,found,made⟩ := bind_ok loaded
  cases made
  have here : reference python other_ops (.str (f output)) = .ok (f output) := reference_mem (readable.present output (by simp))
  simp [op_from_json,read_body,OutputOp.from_json,Op.serialize,Op.serialize_body,JsonOp.field,JsonOp.optional,
    OutputOp.only_input,List.lookup_cons,lookup_given,given_or_none,Op.ids,here,ok_bind,Op.rename,Body.rename]

theorem LLMChatOp.read_back (loaded : LLMChatOp.from_json python known data = .ok (inputs,body))
    (readable : Readable known other_ops f inputs body) (id : String) (max_iter : Value) :
    op_from_json python other_ops ((Op.mk id inputs max_iter body).serialize f) = .ok ((Op.mk id inputs max_iter body).rename f) := by
  obtain ⟨messages,_,loaded⟩ := bind_ok loaded
  obtain ⟨message,found,loaded⟩ := bind_ok loaded
  obtain ⟨kwargs,_,loaded⟩ := bind_ok loaded
  obtain ⟨config,accepted,loaded⟩ := bind_ok loaded
  obtain ⟨return_history,_,loaded⟩ := bind_ok loaded
  obtain ⟨cacheable,_,made⟩ := bind_ok loaded
  cases made
  have here : reference python other_ops (.str (f message)) = .ok (f message) := reference_mem (readable.present message (by simp))
  have again := generation_config_self accepted
  simp [op_from_json,read_body,LLMChatOp.from_json,Op.serialize,Op.serialize_body,Op.serialize_llm,Op.first_id,JsonOp.field,JsonOp.optional,
    List.lookup_cons,lookup_given,given_or_none,Op.ids,here,again,ok_bind,Op.rename,Body.rename]

theorem image_source_op_ok {image_source : Value} {source : List String}
    (found : LLMVisionOp.image_source_op known image_source = .ok source) :
    (∃ key, image_source = .str key ∧ source = if key ∈ known then [key] else []) ∨
      ((∀ key, image_source ≠ .str key) ∧ source = [] ∧ ∀ other, LLMVisionOp.image_source_op other image_source = .ok []) := by
  cases image_source with
  | str key =>
      cases found
      exact .inl ⟨key,rfl,rfl⟩
  | none =>
      cases found
      exact .inr ⟨by simp,rfl,fun _ => rfl⟩
  | bool b =>
      cases found
      exact .inr ⟨by simp,rfl,fun _ => rfl⟩
  | int i =>
      cases found
      exact .inr ⟨by simp,rfl,fun _ => rfl⟩
  | float q =>
      cases found
      exact .inr ⟨by simp,rfl,fun _ => rfl⟩
  | tuple items =>
      cases found
      exact .inr ⟨by simp,rfl,fun _ => rfl⟩
  | list items => cases found
  | dict entries => cases found

theorem LLMVisionOp.read_back (loaded : LLMVisionOp.from_json python known data = .ok (inputs,body))
    (readable : Readable known other_ops f inputs body) (id : String) (max_iter : Value) :
    op_from_json python other_ops ((Op.mk id inputs max_iter body).serialize f) = .ok ((Op.mk id inputs max_iter body).rename f) := by
  obtain ⟨messages,_,loaded⟩ := bind_ok loaded
  obtain ⟨message,found,loaded⟩ := bind_ok loaded
  obtain ⟨kwargs,_,loaded⟩ := bind_ok loaded
  obtain ⟨config,accepted,loaded⟩ := bind_ok loaded
  obtain ⟨return_history,_,loaded⟩ := bind_ok loaded
  obtain ⟨cacheable,_,loaded⟩ := bind_ok loaded
  obtain ⟨source,sourced,loaded⟩ := bind_ok loaded
  generalize data.optional "image_source" (.str "") = image_source at loaded sourced
  have some_source : image_source.truth = true := by
    cases truth : image_source.truth with
    | true => rfl
    | false =>
        simp only [truth,Bool.not_false,if_true] at loaded
        cases loaded
  simp only [some_source,Bool.not_true,Bool.false_eq_true,if_false] at loaded
  cases loaded
  have here : reference python other_ops (.str (f message)) = .ok (f message) := reference_mem (readable.present message (by simp))
  have again := generation_config_self accepted
  -- the source is read as the same operation, or as none again
  have resolved : LLMVisionOp.image_source_op other_ops image_source = .ok (source.map f) := by
    rcases image_source_op_ok sourced with ⟨key,rfl,rfl⟩ | ⟨_,rfl,always⟩
    · by_cases member : key ∈ known
      · have same := readable.image_source _ key _ rfl member
        have there := readable.present key (by simp [member])
        rw [same] at there
        simp [LLMVisionOp.image_source_op,member,there,same]
      · have absent := readable.literals key (by simp [Body.literals,member])
        simp [LLMVisionOp.image_source_op,member,absent]
    · exact always other_ops
  simp [op_from_json,read_body,LLMVisionOp.from_json,Op.serialize,Op.serialize_body,Op.serialize_llm,Op.first_id,
    JsonOp.field,JsonOp.optional,List.lookup_cons,lookup_given,given_or_none,here,again,ok_bind,resolved,some_source,
    Op.rename,Body.rename]

theorem read_content_ok {make : Spec → Value → Body} (loaded : read_content python known make data = .ok (inputs,body)) :
    ∃ content config cacheable, inputs = [content] ∧ body = make config cacheable ∧ content ∈ known ∧
      generation_config (.dict config) = .ok config := by
  obtain ⟨kwargs,_,loaded⟩ := bind_ok loaded
  obtain ⟨config,accepted,loaded⟩ := bind_ok loaded
  obtain ⟨content,_,loaded⟩ := bind_ok loaded
  obtain ⟨key,found,loaded⟩ := bind_ok loaded
  obtain ⟨cacheable,_,made⟩ := bind_ok loaded
  cases made
  exact ⟨key,config,cacheable,rfl,rfl,(reference_ok found).2,generation_config_self accepted⟩

theorem read_content_again {make : Spec → Value → Body} {content : String} {config : Spec} {cacheable : Value}
    (there : content ∈ other_ops) (again : generation_config (.dict config) = .ok config)
    (contents : data.field "content" = .ok (.str content)) (configs : data.field "config" = .ok (.dict config))
    (cacheables : data.field "cacheable" = .ok cacheable) :
    read_content python other_ops make data = .ok ([content],make config cacheable) := by
  simp only [read_content,contents,configs,cacheables,ok_bind,reference_mem there,again]
  rfl

theorem ImageGenerationOp.read_back (loaded : ImageGenerationOp.from_json python known data = .ok (inputs,body))
    (readable : Readable known other_ops f inputs body) (id : String) (max_iter : Value) :
    op_from_json python other_ops ((Op.mk id inputs max_iter body).serialize f) = .ok ((Op.mk id inputs max_iter body).rename f) := by
  obtain ⟨content,config,cacheable,rfl,rfl,_,again⟩ := read_content_ok loaded
  change (ImageGenerationOp.from_json python other_ops _ >>= _) = _
  rw [ImageGenerationOp.from_json,read_content_again (readable.present content (by simp)) again rfl rfl rfl]
  rfl

theorem EmbeddingOp.read_back (loaded : EmbeddingOp.from_json python known data = .ok (inputs,body))
    (readable : Readable known other_ops f inputs body) (id : String) (max_iter : Value) :
    op_from_json python other_ops ((Op.mk id inputs max_iter body).serialize f) = .ok ((Op.mk id inputs max_iter body).rename f) := by
  obtain ⟨content,config,cacheable,rfl,rfl,_,again⟩ := read_content_ok loaded
  change (EmbeddingOp.from_json python other_ops _ >>= _) = _
  rw [EmbeddingOp.from_json,read_content_again (readable.present content (by simp)) again rfl rfl rfl]
  rfl

theorem LambdaOp.read_back (loaded : LambdaOp.from_json python known data = .ok (inputs,body))
    (readable : Readable known other_ops f inputs body) (id : String) (max_iter : Value) :
    op_from_json python other_ops ((Op.mk id inputs max_iter body).serialize f) = .ok ((Op.mk id inputs max_iter body).rename f) := by
  unfold LambdaOp.from_json at loaded
  dsimp only at loaded
  generalize LambdaOp.read data = fields at loaded
  obtain ⟨_,submitted,loaded⟩ := bind_ok loaded
  obtain ⟨ids,_,loaded⟩ := bind_ok loaded
  obtain ⟨keys,_,loaded⟩ := bind_ok loaded
  obtain ⟨_,checked,made⟩ := bind_ok loaded
  cases made
  have same : LambdaOp.read ((Op.mk id inputs max_iter (.lambda_op fields)).serialize f) = fields := by
    simp [LambdaOp.read,Op.serialize,Op.serialize_body,Op.serialize_lambda,JsonOp.optional,List.lookup_cons,lookup_given,
      given_or_none]
  have back : ((Op.mk id inputs max_iter (.lambda_op fields)).serialize f).field "_inputs" = .ok (Op.ids f inputs) := by
    simp [Op.serialize,Op.serialize_body,Op.serialize_lambda,JsonOp.field,List.lookup_cons,lookup_given]
  change (LambdaOp.from_json python other_ops _ >>= _) = _
  unfold LambdaOp.from_json
  simp only [same,submitted,ok_bind,back,references_ids readable.present,checked]
  rfl

theorem mapM_all {α β γ : Type} (g : α → Except String β) (h : γ → α) (k : γ → β) (items : List γ)
    (each : ∀ item ∈ items, g (h item) = .ok (k item)) : (items.map h).mapM g = .ok (items.map k) := by
  induction items with
  | nil => rfl
  | cons first rest ih =>
      rw [List.map_cons,List.mapM_cons,each first List.mem_cons_self,ih fun item member => each item (List.mem_cons_of_mem _ member)]
      rfl

theorem content_refs_rename (messages : List (Value × Content)) :
    MessageOp.content_refs (messages.map fun message => (message.1,message.2.rename f)) =
      (MessageOp.content_refs messages).map f := by
  induction messages with
  | nil => rfl
  | cons message rest ih =>
      obtain ⟨role,content⟩ := message
      unfold MessageOp.content_refs at *
      rw [List.map_cons,List.filterMap_cons,List.filterMap_cons,ih]
      cases content with
      | op key => rfl
      | text t => rfl

theorem MessageOp.read_back (loaded : MessageOp.from_json known data = .ok (inputs,body))
    (readable : Readable known other_ops f inputs body) (id : String) (max_iter : Value) :
    op_from_json python other_ops ((Op.mk id inputs max_iter body).serialize f) = .ok ((Op.mk id inputs max_iter body).rename f) := by
  obtain ⟨raw,_,loaded⟩ := bind_ok loaded
  obtain ⟨items,_,loaded⟩ := bind_ok loaded
  obtain ⟨messages,_,made⟩ := bind_ok loaded
  cases made
  have each : ∀ message ∈ messages, read_message other_ops
      (.dict [("role",message.1),("content",Op.content_or_id f message.2)]) = .ok (message.1,message.2.rename f) := by
    rintro ⟨role,content⟩ member
    cases content with
    | op key =>
        have input : key ∈ distinct_inputs (content_refs messages) :=
          (mem_distinct_inputs _ _).mpr (.inr (List.mem_filterMap.mpr ⟨_,member,rfl⟩))
        have there := readable.present key input
        simp [read_message,item,get_content,Op.content_or_id,Content.rename,List.lookup_cons,ok_bind,there]
    | text t =>
        have absent := readable.literals t (List.mem_filterMap.mpr ⟨_,member,rfl⟩)
        simp [read_message,item,get_content,Op.content_or_id,Content.rename,List.lookup_cons,ok_bind,absent]
  have inputs : distinct_inputs ((content_refs messages).map f) = (distinct_inputs (content_refs messages)).map f := by
    refine distinct_inputs_map _ [] fun key member key' member' same => readable.injective key ?_ key' ?_ same
    · exact (mem_distinct_inputs _ _).mpr member
    · exact (mem_distinct_inputs _ _).mpr member'
  change (((messages.map fun message => Value.dict [("role",message.1),("content",Op.content_or_id f message.2)]).mapM
    (read_message other_ops) >>= _) >>= _) = _
  rw [mapM_all _ _ (fun message => (message.1,message.2.rename f)) _ each,ok_bind]
  change (Except.ok (_,_) >>= _) = _
  rw [content_refs_rename,inputs]
  rfl

theorem clash_rename (format_kwargs : List (String × String)) :
    FormatOp.clash (format_kwargs.map fun e => (e.1,f e.2)) = FormatOp.clash format_kwargs := by
  have same : ((fun e : String × String => decide (e.1 ∈ ["self","template"])) ∘
      fun e : String × String => (e.1,f e.2)) = fun e => decide (e.1 ∈ ["self","template"]) := rfl
  unfold FormatOp.clash
  rw [List.find?_map,same]
  cases format_kwargs.find? (fun e => decide (e.1 ∈ ["self","template"])) with
  | none => rfl
  | some e => rfl

theorem FormatOp.read_back (loaded : FormatOp.from_json python known data = .ok (inputs,body))
    (readable : Readable known other_ops f inputs body) (id : String) (max_iter : Value) :
    op_from_json python other_ops ((Op.mk id inputs max_iter body).serialize f) = .ok ((Op.mk id inputs max_iter body).rename f) := by
  unfold FormatOp.from_json at loaded
  generalize data.optional "format_paths" (.dict []) = format_paths at loaded
  obtain ⟨raw_args,_,loaded⟩ := bind_ok loaded
  obtain ⟨args,_,loaded⟩ := bind_ok loaded
  obtain ⟨raw_kwargs,_,loaded⟩ := bind_ok loaded
  obtain ⟨format_kwargs,_,loaded⟩ := bind_ok loaded
  obtain ⟨template,_,loaded⟩ := bind_ok loaded
  obtain ⟨_,free,made⟩ := bind_ok loaded
  cases made
  have input : ∀ key, key ∈ args ++ format_kwargs.map Prod.snd → key ∈ distinct_inputs (args ++ format_kwargs.map Prod.snd) :=
    fun key member => (mem_distinct_inputs _ _).mpr (.inr member)
  have args_back : references python other_ops (Op.ids f args) = .ok (args.map f) :=
    references_ids fun key member => readable.present key (input key (List.mem_append_left _ member))
  have kwargs_back : kwargs python other_ops (.dict (format_kwargs.map fun e => (e.1,.str (f e.2)))) =
      .ok (format_kwargs.map fun e => (e.1,f e.2)) := by
    refine mapM_all _ _ _ _ fun e member => ?_
    have there := readable.present e.2 (input e.2 (List.mem_append_right _ (List.mem_map_of_mem member)))
    unfold kwarg
    rw [reference_mem there]
    rfl
  have inputs : distinct_inputs (args.map f ++ (format_kwargs.map fun e => (e.1,f e.2)).map Prod.snd) =
      (distinct_inputs (args ++ format_kwargs.map Prod.snd)).map f := by
    have together : args.map f ++ (format_kwargs.map fun e => (e.1,f e.2)).map Prod.snd =
        (args ++ format_kwargs.map Prod.snd).map f := by
      rw [List.map_append,List.map_map,List.map_map]
      rfl
    rw [together]
    refine distinct_inputs_map _ [] fun key member key' member' same => readable.injective key ?_ key' ?_ same
    · exact (mem_distinct_inputs _ _).mpr member
    · exact (mem_distinct_inputs _ _).mpr member'
  have paths : (((if format_paths.truth = true then [("format_paths",format_paths)] else []) ++
      [("_inputs",Op.ids f (distinct_inputs (args ++ format_kwargs.map Prod.snd)))]).lookup "format_paths").getD (.dict []) =
      format_paths := by
    rcases readable.format_paths _ _ _ _ rfl with truthy | rfl
    · simp [truthy]
    · simp [Value.truth,List.lookup_cons]
  change (FormatOp.from_json python other_ops _ >>= _) = _
  unfold FormatOp.from_json
  simp only [Op.serialize,Op.serialize_body,JsonOp.field,JsonOp.optional,List.cons_append,List.nil_append,
    List.lookup_cons,String.reduceBEq,args_back,kwargs_back,clash_rename,free,ok_bind,inputs,paths]
  rfl

-- Serialising an operation and reading it against a table that has its references under their
-- ids gives the same operation, its references renamed.
theorem op_read_back {op : Op} (loaded : op_from_json python known data = .ok op)
    (readable : Readable known other_ops f op.inputs op.body) :
    op_from_json python other_ops (op.serialize f) = .ok (op.rename f) := by
  obtain ⟨⟨inputs,body⟩,read,made⟩ := bind_ok loaded
  cases made
  unfold read_body at read
  split at read
  · exact DataOp.read_back read _ _
  · exact DataRetrievalOp.read_back read readable _ _
  · exact MessageOp.read_back read readable _ _
  · exact InputOp.read_back read _ _
  · exact OutputOp.read_back read readable _ _
  · exact LLMChatOp.read_back read readable _ _
  · exact LLMVisionOp.read_back read readable _ _
  · exact ImageGenerationOp.read_back read readable _ _
  · exact EmbeddingOp.read_back read readable _ _
  · exact FormatOp.read_back read readable _ _
  · exact LambdaOp.read_back read readable _ _
  · cases read

theorem read_messages_refs {items : List Value} {messages : List (Value × Content)}
    (read : items.mapM (MessageOp.read_message known) = .ok messages) :
    ∀ key ∈ MessageOp.content_refs messages, key ∈ known := by
  induction items generalizing messages with
  | nil =>
      cases read
      simp [MessageOp.content_refs]
  | cons first rest ih =>
      rw [List.mapM_cons] at read
      obtain ⟨message,here,read⟩ := bind_ok read
      obtain ⟨others,later,read⟩ := bind_ok read
      cases read
      intro key member
      obtain ⟨m,among,is_op⟩ := List.mem_filterMap.mp member
      rcases List.mem_cons.mp among with rfl | among
      · obtain ⟨role,_,here⟩ := bind_ok here
        obtain ⟨raw,_,here⟩ := bind_ok here
        obtain ⟨content,got,here⟩ := bind_ok here
        cases here
        cases raw with
        | str t =>
            simp only [MessageOp.get_content,Except.ok.injEq] at got
            split_ifs at got with known_text
            · subst got
              cases is_op
              exact known_text
            · subst got
              cases is_op
        | none => cases got
        | bool b => cases got
        | int i => cases got
        | float q => cases got
        | list items => cases got
        | tuple items => cases got
        | dict entries => cases got
      · exact ih later key (List.mem_filterMap.mpr ⟨m,among,is_op⟩)

theorem kwarg_known {entries : List (String × Value)} {format_kwargs : List (String × String)}
    (read : entries.mapM (FormatOp.kwarg python known) = .ok format_kwargs) :
    ∀ key ∈ format_kwargs.map Prod.snd, key ∈ known := by
  induction entries generalizing format_kwargs with
  | nil =>
      cases read
      simp
  | cons first rest ih =>
      rw [List.mapM_cons] at read
      obtain ⟨entry,here,read⟩ := bind_ok read
      obtain ⟨others,later,read⟩ := bind_ok read
      cases read
      obtain ⟨key,found,here⟩ := bind_ok here
      cases here
      intro k member
      rcases List.mem_cons.mp member with rfl | member
      · exact (reference_ok found).2
      · exact ih later k member

theorem kwargs_known {value : Value} {format_kwargs : List (String × String)}
    (read : FormatOp.kwargs python known value = .ok format_kwargs) : ∀ key ∈ format_kwargs.map Prod.snd, key ∈ known := by
  cases value with
  | dict entries => exact kwarg_known read
  | none => cases read
  | bool b => cases read
  | int i => cases read
  | float q => cases read
  | str s => cases read
  | list items => cases read
  | tuple items => cases read

-- The inputs of an operation are operations of the table it was read against, and what its
-- body names is among them.
structure Linked (known : List String) (inputs : List String) (body : Body) : Prop where
  known : ∀ key ∈ inputs, key ∈ known
  refs : ∀ key ∈ body.refs, key ∈ inputs

theorem op_linked {op : Op} (loaded : op_from_json python known data = .ok op) : Linked known op.inputs op.body := by
  obtain ⟨⟨inputs,body⟩,read,made⟩ := bind_ok loaded
  cases made
  unfold read_body at read
  dsimp only
  split at read
  · obtain ⟨value,_,made⟩ := bind_ok read
    cases made
    exact ⟨by simp,by simp [Body.refs]⟩
  · obtain ⟨keys,found,read⟩ := bind_ok read
    obtain ⟨value,_,made⟩ := bind_ok read
    cases made
    exact ⟨references_ok found,by simp [Body.refs]⟩
  · obtain ⟨raw,_,read⟩ := bind_ok read
    obtain ⟨items,_,read⟩ := bind_ok read
    obtain ⟨messages,found,made⟩ := bind_ok read
    cases made
    refine ⟨fun key member => ?_,fun key member => (mem_distinct_inputs _ _).mpr (.inr member)⟩
    exact read_messages_refs found key (by simpa using (mem_distinct_inputs _ _).mp member)
  · obtain ⟨value,_,made⟩ := bind_ok read
    cases made
    exact ⟨by simp,by simp [Body.refs]⟩
  · obtain ⟨ids,_,read⟩ := bind_ok read
    obtain ⟨input_id,_,read⟩ := bind_ok read
    obtain ⟨name,_,read⟩ := bind_ok read
    obtain ⟨output,found,made⟩ := bind_ok read
    cases made
    exact ⟨by simpa using (reference_ok found).2,by simp [Body.refs]⟩
  · obtain ⟨messages,_,read⟩ := bind_ok read
    obtain ⟨message,found,read⟩ := bind_ok read
    obtain ⟨kwargs,_,read⟩ := bind_ok read
    obtain ⟨config,_,read⟩ := bind_ok read
    obtain ⟨return_history,_,read⟩ := bind_ok read
    obtain ⟨cacheable,_,made⟩ := bind_ok read
    cases made
    exact ⟨by simpa using (reference_ok found).2,by simp [Body.refs]⟩
  · obtain ⟨messages,_,read⟩ := bind_ok read
    obtain ⟨message,found,read⟩ := bind_ok read
    obtain ⟨kwargs,_,read⟩ := bind_ok read
    obtain ⟨config,_,read⟩ := bind_ok read
    obtain ⟨return_history,_,read⟩ := bind_ok read
    obtain ⟨cacheable,_,read⟩ := bind_ok read
    obtain ⟨source,sourced,read⟩ := bind_ok read
    have inside : ∀ key ∈ source, key ∈ known := by
      rcases image_source_op_ok sourced with ⟨key,_,rfl⟩ | ⟨_,rfl,_⟩
      · split
        · rename_i member
          simpa using member
        · simp
      · simp
    dsimp only at read
    split at read
    · cases read
    · cases read
      refine ⟨fun key member => ?_,by simp [Body.refs]⟩
      rcases List.mem_cons.mp member with rfl | member
      · exact (reference_ok found).2
      · exact inside key member
  · obtain ⟨content,config,cacheable,rfl,rfl,inside,_⟩ := read_content_ok read
    exact ⟨by simpa using inside,by simp [Body.refs]⟩
  · obtain ⟨content,config,cacheable,rfl,rfl,inside,_⟩ := read_content_ok read
    exact ⟨by simpa using inside,by simp [Body.refs]⟩
  · unfold FormatOp.from_json at read
    obtain ⟨raw_args,_,read⟩ := bind_ok read
    obtain ⟨args,found,read⟩ := bind_ok read
    obtain ⟨raw_kwargs,_,read⟩ := bind_ok read
    obtain ⟨format_kwargs,kwargs_found,read⟩ := bind_ok read
    obtain ⟨template,_,read⟩ := bind_ok read
    obtain ⟨_,_,made⟩ := bind_ok read
    cases made
    have named := kwargs_known kwargs_found
    refine ⟨fun key member => ?_,fun key member => (mem_distinct_inputs _ _).mpr (.inr member)⟩
    rcases (mem_distinct_inputs _ _).mp member with none_yet | member
    · cases none_yet
    · rcases List.mem_append.mp member with arg | kwarg
      · exact references_ok found key arg
      · exact named key kwarg
  · unfold LambdaOp.from_json at read
    obtain ⟨_,_,read⟩ := bind_ok read
    obtain ⟨ids,_,read⟩ := bind_ok read
    obtain ⟨keys,found,read⟩ := bind_ok read
    obtain ⟨_,_,made⟩ := bind_ok read
    cases made
    exact ⟨references_ok found,by simp [Body.refs]⟩
  · cases read

-- Renaming by a function that leaves the new names alone changes nothing more.
theorem rename_again {op : Op} {g : String → String} (linked : Linked known op.inputs op.body)
    (settled : ∀ key ∈ op.inputs, g (f key) = f key) : (op.rename f).rename g = op.rename f := by
  obtain ⟨id,inputs,max_iter,body⟩ := op
  have same_inputs : (inputs.map f).map g = inputs.map f := by
    rw [List.map_map]
    exact List.map_congr_left settled
  have same_body : (body.rename f).rename g = body.rename f := by
    cases body with
    | message_op messages =>
        simp only [Body.rename,List.map_map]
        refine congrArg Body.message_op (List.map_congr_left ?_)
        rintro ⟨role,content⟩ member
        cases content with
        | text t => rfl
        | op key =>
            have here : key ∈ inputs := linked.refs key (List.mem_filterMap.mpr ⟨_,member,rfl⟩)
            simp [Content.rename,settled key here]
    | format_op template args kwargs paths =>
        simp only [Body.rename,List.map_map]
        refine congrArg₂ (fun args kwargs => Body.format_op template args kwargs paths) ?_ ?_
        · exact List.map_congr_left fun key member => settled key (linked.refs key (List.mem_append_left _ member))
        · refine List.map_congr_left fun e member => ?_
          simp [settled e.2 (linked.refs e.2 (List.mem_append_right _ (List.mem_map_of_mem member)))]
    | _ => rfl
  simp [Op.rename,same_inputs,same_body]

end

end Lumilake.Ops

import Lumilake.Dynamic.ForwardFaithful

namespace Lumilake.Dynamic
open Serving

-- The references to prior results that an operation carries, place by place.
section
variable (results : Dict String (List Value))

def text_refs : Value → List Reference
  | .str ref => if ref ∈ results then [.implicit ref] else []
  | _ => []

def image_refs : Option Value → List Reference
  | some (.str ref) => if ref ∈ results then [.image ref] else []
  | _ => []

def row_refs : Value → List Reference
  | .dict row => match row_read row with
      | some (node,path) => if node ∈ results then [.explicit node path] else []
      | none => []
  | _ => []

def list_refs (f : Value → List Reference) : Value → List Reference
  | .list items => items.flatMap f
  | _ => []

def dict_refs (f : Spec → List Reference) : Value → List Reference
  | .dict entries => f entries
  | _ => []

def kwargs_refs : Value → List Reference := dict_refs fun entries => entries.flatMap fun e => text_refs results e.2

def refs_at (key : String) (f : Value → List Reference) (entries : Spec) : List Reference :=
  ((Value.get? entries key).map f).getD []

def references (op : Spec) : List Reference :=
  refs_at "inputs" (list_refs (text_refs results)) op ++
  (refs_at "prompt" (dict_refs (refs_at "format_kwargs" (kwargs_refs results))) op ++
  (refs_at "format_kwargs" (kwargs_refs results) op ++
  (image_refs results (Value.get? op "image_source") ++
  (refs_at "aggregate_table" (list_refs (row_refs results)) op ++
  (refs_at "rowwise_columns" (list_refs (row_refs results)) op ++
  refs_at "data_spec" (dict_refs (refs_at "params" (list_refs (row_refs results)))) op)))))

end

section
variable (codec : Codec) (results : Dict String (List Value)) (configs : Dict String Spec)

-- What a reference is replaced by, as a matter of the results alone.
def target_of (r : Reference) : String × String :=
  match path_of codec configs r,results.get? r.ref with
  | .ok path,some items => match walk_rows codec items (path_parts path) r.ref with
      | .ok values => target r path values
      | .error _ => (r.ref,"")
  | _,_ => (r.ref,"")

def new_text (ref : String) : String := if ref ∈ results then (target_of codec results configs (.implicit ref)).1 else ref

def rewritten_op (op : Spec) : Spec :=
  forward_op (m := Id) results (new_text codec results configs) (fun _ => ())
    (fun ref path => target_of codec results configs (.explicit ref path)) op

end

section
variable {codec : Codec} {results : Dict String (List Value)} {configs : Dict String Spec} {rows : Nat}

theorem Forwardable.target_of_eq {r : Reference} {path : String} {values : List Value}
    (ready : Forwardable codec results configs rows r path values) : target_of codec results configs r = target r path values := by
  obtain ⟨items,found,walked⟩ := ready.known
  unfold target_of
  rw [ready.reads,found]
  dsimp only
  rw [walked]

theorem get?_put {entries : Spec} {key other : String} (value : Value) (different : other ≠ key) :
    Value.get? (put key value entries) other = Value.get? entries other := by
  unfold Value.get? put
  induction entries with
  | nil => rfl
  | cons e rest ih =>
      obtain ⟨k,v⟩ := e
      rw [List.map_cons,List.lookup_cons,List.lookup_cons,ih]
      by_cases same : k = key
      · subst same
        rw [if_pos rfl]
        simp [beq_false_of_ne different]
      · rw [if_neg same]

theorem get?_modify {key other : String} (f : Value → Id Value) (entries : Spec) (different : other ≠ key) :
    Value.get? (modify_key (m := Id) key f entries) other = Value.get? entries other := by
  unfold modify_key
  cases Value.get? entries key with
  | none => rfl
  | some value => exact get?_put _ different

theorem refs_at_modify {key other : String} (refs : Value → List Reference) (f : Value → Id Value) (entries : Spec)
    (different : other ≠ key) : refs_at other refs (modify_key (m := Id) key f entries) = refs_at other refs entries := by
  unfold refs_at
  rw [get?_modify f entries different]

variable {α β : Type}

theorem answers_modify {desk : Desk Forwarding Reference} {f : Value → Rewriting Value} {refs : Value → List Reference}
    {g : Value → Id Value} (key : String) (each : ∀ v, Answers desk (f v) (refs v) (g v)) (entries : Spec) :
    Answers desk (modify_key key f entries) (refs_at key refs entries) (modify_key (m := Id) key g entries) := by
  unfold modify_key refs_at
  cases Value.get? entries key with
  | none => exact answers_pure entries
  | some value => exact (each value).map fun changed => put key changed entries

theorem answers_on_dict {desk : Desk Forwarding Reference} {f : Spec → Rewriting Spec} {refs : Spec → List Reference}
    {g : Spec → Id Spec} (each : ∀ entries, Answers desk (f entries) (refs entries) (g entries)) (v : Value) :
    Answers desk (on_dict f v) (dict_refs refs v) (on_dict (m := Id) g v) := by
  cases v with
  | dict entries => exact (each entries).map Value.dict
  | _ => exact answers_pure _

theorem mapM_id (g : α → Id β) (items : List α) : (items.mapM g : Id (List β)) = items.map g := by
  induction items with
  | nil => rfl
  | cons item rest ih =>
      rw [List.mapM_cons]
      change g item :: (rest.mapM g : Id (List β)) = _
      rw [ih]
      rfl

theorem answers_on_list {desk : Desk Forwarding Reference} {f : Value → Rewriting Value} {refs : Value → List Reference}
    {g : Value → Id Value} (each : ∀ v, Answers desk (f v) (refs v) (g v)) (v : Value) :
    Answers desk (on_list f v) (list_refs refs v) (on_list (m := Id) g v) := by
  cases v with
  | list items =>
      have loop := answers_mapM items fun item _ => each item
      have value : on_list (m := Id) g (.list items) = Value.list (items.map g) := congrArg Value.list (mapM_id g items)
      rw [value]
      exact loop.map Value.list
  | _ => exact answers_pure _

-- The walk over an operation asks what its places ask, each place under its own key.
theorem answers_forward_op {desk : Desk Forwarding Reference} {implicit : String → Rewriting String}
    {image : String → Rewriting Unit} {explicit : String → String → Rewriting (String × String)} {new : String → Id String}
    {read : String → String → Id (String × String)}
    (text : ∀ v, Answers desk (on_text implicit v) (text_refs results v) (on_text (m := Id) new v))
    (picture : ∀ v, Answers desk (on_image image v) (image_refs results v) (on_image (m := Id) (fun _ => ()) v))
    (row : ∀ v, Answers desk (on_row results explicit v) (row_refs results v) (on_row (m := Id) results read v)) (op : Spec) :
    Answers desk (forward_op results implicit image explicit op) (references results op)
      (forward_op (m := Id) results new (fun _ => ()) read op) := by
  have entry : ∀ e : String × Value, Answers desk (on_entry implicit e) (text_refs results e.2) (on_entry (m := Id) new e) :=
    fun e => (text e.2).map (Prod.mk e.1)
  have kwargs : ∀ v, Answers desk (on_kwargs implicit v) (kwargs_refs results v) (on_kwargs (m := Id) new v) :=
    answers_on_dict fun entries => by
      rw [mapM_id]
      exact answers_mapM entries fun e _ => entry e
  have texts := answers_on_list text
  have table := answers_on_list row
  let op_1 := modify_key (m := Id) "inputs" (on_list (on_text new)) op
  let op_2 := modify_key (m := Id) "prompt" (on_dict (modify_key "format_kwargs" (on_kwargs new))) op_1
  let op_3 := modify_key (m := Id) "format_kwargs" (on_kwargs new) op_2
  let op_4 := modify_key (m := Id) "aggregate_table" (on_list (on_row results read)) op_3
  let op_5 := modify_key (m := Id) "rowwise_columns" (on_list (on_row results read)) op_4
  have prompt := answers_modify "prompt" (answers_on_dict (answers_modify "format_kwargs" kwargs)) op_1
  have format := answers_modify "format_kwargs" kwargs op_2
  have source : Value.get? op_3 "image_source" = Value.get? op "image_source" := by
    rw [get?_modify _ _ (by decide),get?_modify _ _ (by decide),get?_modify _ _ (by decide)]
  have picked := picture (Value.get? op_3 "image_source")
  have aggregate := answers_modify "aggregate_table" table op_3
  have rowwise := answers_modify "rowwise_columns" table op_4
  have params := answers_modify "data_spec" (answers_on_dict (answers_modify "params" table)) op_5
  simp (disch := decide) only [op_1,op_2,op_3,op_4,op_5,refs_at_modify] at prompt format aggregate rowwise params
  have refs : image_refs results (Value.get? op_3 "image_source") = image_refs results (Value.get? op "image_source") := by
    rw [source]
  rw [refs] at picked
  exact (answers_modify "inputs" texts op).bind (prompt.bind (format.bind (picked.bind (aggregate.bind (rowwise.bind params)))))

variable (free : ∀ ref ∈ results.keys, '|' ∉ ref.toList) (many : 1 < rows)
include free many

theorem answers_bind_implicit {ref consumer : String} {image : Bool} {f : Option String → α} {value : α} (known : ref ∈ results)
    (same : ∀ rewritten path values, Forwardable codec results configs rows (implicit_reference ref image) path values →
      Option.getD rewritten ref = (target (implicit_reference ref image) path values).1 → f rewritten = value) :
    Answers (desk codec results configs rows)
      (bind_implicit codec results configs rows ref consumer image >>= fun rewritten => pure (f rewritten))
      [implicit_reference ref image] value := by
  constructor
  · intro s good available
    obtain ⟨path,values,ready⟩ := available _ List.mem_cons_self
    obtain ⟨rewritten,after,done,written,good',served,kept⟩ := bind_implicit_ok free many good ready
    refine ⟨after,?_,good',fun r member => ?_,kept⟩
    · rw [← same rewritten path values ready written]
      change Except.bind (bind_implicit codec results configs rows ref consumer image s) _ = _
      rw [done]
      rfl
    · rw [List.mem_singleton.mp member]
      exact served
  · intro s _ missing
    obtain ⟨r,member,absent⟩ := missing
    rw [List.mem_singleton.mp member] at absent
    obtain ⟨e,stopped⟩ := bind_implicit_stop many known absent
    refine ⟨e,?_⟩
    change Except.bind (bind_implicit codec results configs rows ref consumer image s) _ = _
    rw [stopped]
    rfl

omit free many in
theorem answers_unknown {ref consumer : String} {image : Bool} (f : Option String → α) (unknown : ref ∉ results) :
    Answers (desk codec results configs rows)
      (bind_implicit codec results configs rows ref consumer image >>= fun rewritten => pure (f rewritten)) [] (f none) := by
  have idle : bind_implicit codec results configs rows ref consumer image = fun s => .ok (none,s) := by
    funext s
    unfold bind_implicit
    rw [Dict.get?_eq_none.mpr unknown]
  rw [idle]
  exact answers_pure (f none)

theorem answers_text (consumer : String) (v : Value) :
    Answers (desk codec results configs rows) (on_text (implicit_text codec results configs rows consumer) v)
      (text_refs results v) (on_text (m := Id) (new_text codec results configs) v) := by
  cases v with
  | str ref =>
      refine Answers.map ?_ Value.str
      unfold new_text
      dsimp only [text_refs]
      by_cases known : ref ∈ results
      · rw [if_pos known,if_pos known]
        exact answers_bind_implicit free many known fun rewritten path values ready written => by
          rw [written,← ready.target_of_eq]
          rfl
      · rw [if_neg known,if_neg known]
        exact answers_unknown (fun rewritten => Option.getD rewritten ref) known
  | _ => exact answers_pure _

theorem answers_image (consumer : String) (v : Option Value) :
    Answers (desk codec results configs rows) (on_image (image_text codec results configs rows consumer) v)
      (image_refs results v) (on_image (m := Id) (fun _ => ()) v) := by
  cases v with
  | none => exact answers_pure ()
  | some v =>
      cases v with
      | str ref =>
          dsimp only [image_refs]
          by_cases known : ref ∈ results
          · rw [if_pos known]
            exact answers_bind_implicit free many known fun _ _ _ _ _ => rfl
          · rw [if_neg known]
            exact answers_unknown (fun _ => ()) known
      | _ => exact answers_pure ()

theorem answers_explicit {ref path : String} (consumer : String) (known : ref ∈ results) :
    Answers (desk codec results configs rows) (bind_explicit codec results rows ref path consumer) [.explicit ref path]
      (target_of codec results configs (.explicit ref path)) := by
  constructor
  · intro s good available
    obtain ⟨path',values,ready⟩ := available _ List.mem_cons_self
    cases ready.reads
    obtain ⟨after,done,good',served,kept⟩ := bind_explicit_ok free many good ready
    rw [ready.target_of_eq]
    exact ⟨after,done,good',fun r member => List.mem_singleton.mp member ▸ served,kept⟩
  · intro s good missing
    obtain ⟨r,member,absent⟩ := missing
    rw [List.mem_singleton.mp member] at absent
    exact bind_explicit_stop free many good known absent

theorem answers_row (consumer : String) (v : Value) :
    Answers (desk codec results configs rows) (on_row results (fun ref path => bind_explicit codec results rows ref path consumer) v)
      (row_refs results v) (on_row (m := Id) results (fun ref path => target_of codec results configs (.explicit ref path)) v) := by
  cases v with
  | dict row =>
      unfold on_row row_refs
      dsimp only
      cases row_read row with
      | none => exact answers_pure _
      | some read =>
          obtain ⟨node,path⟩ := read
          dsimp only
          by_cases known : node ∈ results
          · rw [if_pos known,if_pos known,if_pos known]
            exact (answers_explicit free many consumer known).map fun read : String × String =>
              Value.dict (put "path" (.str read.2) (put "node" (.str read.1) row))
          · rw [if_neg known,if_neg known,if_neg known]
            exact answers_pure _
  | _ => exact answers_pure _

-- One operation asks for the references it carries, and is rewritten to their targets.
theorem answers_op (op : Spec) :
    Answers (desk codec results configs rows) (forward_one codec results configs rows op) (references results op)
      (rewritten_op codec results configs op) :=
  answers_forward_op (answers_text free many _) (answers_image free many _) (answers_row free many _) op

end

-- The reference reads an input, or the operation that decodes an input of lists, and the
-- input holds the value of every row.
def Bound (codec : Codec) (results : Dict String (List Value)) (configs : Dict String Spec) (rows : Nat)
    (materializers : List Spec) (inputs : Dict String (List String)) (r : Reference) : Prop :=
  ∃ path values, Forwardable codec results configs rows r path values ∧
    target_of codec results configs r = target r path values ∧
    inputs.get? (key_of r path values) = some (values.map (coerce_output_value codec)) ∧
    (listed values = true → materializer (key_of r path values) ∈ materializers ∧
      ((∀ v ∈ values, codec.loads (codec.dumps v) = some v) →
        decode_rows codec (values.map (coerce_output_value codec)) = some values))

theorem decode_lists {codec : Codec} {values : List Value} (all : ∀ v ∈ values, v.is_list = true)
    (back : ∀ v ∈ values, codec.loads (codec.dumps v) = some v) :
    decode_rows codec (values.map (coerce_output_value codec)) = some values := by
  unfold decode_rows
  induction values with
  | nil => rfl
  | cons v rest ih =>
      have text : coerce_output_value codec v = codec.dumps v := by
        have list := all v List.mem_cons_self
        cases v with
        | str s => cases list
        | _ => rfl
      rw [List.map_cons,List.mapM_cons,text,back v List.mem_cons_self,
        ih (fun w member => all w (List.mem_cons_of_mem _ member)) fun w member => back w (List.mem_cons_of_mem _ member)]
      rfl

theorem start_good (codec : Codec) (results : Dict String (List Value)) (configs : Dict String Spec) (rows : Nat) :
    Good codec results configs rows {} := by
  refine ⟨fun k texts found => ?_,fun k member => ?_,rfl⟩
  · cases found
  · cases member

-- More than one row: a sub-graph is forwarded if and only if every reference can be, and
-- then every reference is bound to its rows.
theorem references_forwarded (codec : Codec) (results : Dict String (List Value)) (configs : Dict String Spec) (rows : Nat)
    (many : 1 < rows) (free : ∀ ref ∈ results.keys, '|' ∉ ref.toList) (subgraph : List Spec) :
    ((∃ out, forward_refs codec results configs rows subgraph = .ok out) ↔
      ∀ op ∈ subgraph, ∀ r ∈ references results op, ∃ path values, Forwardable codec results configs rows r path values) ∧
    ∀ ops inputs, forward_refs codec results configs rows subgraph = .ok (ops,inputs) →
      (∃ materializers, ops = subgraph.map (rewritten_op codec results configs) ++ materializers ∧
        ∀ op ∈ subgraph, ∀ r ∈ references results op, Bound codec results configs rows materializers inputs r) ∧
      ∀ k texts, inputs.get? k = some texts → texts.length = rows := by
  have answers := answers_mapM subgraph fun op _ => @answers_op codec results configs rows free many op
  have start := start_good codec results configs rows
  have run : ∀ value s', (subgraph.mapM (forward_one codec results configs rows)) {} = .ok (value,s') →
      forward_refs codec results configs rows subgraph = .ok (value ++ s'.materializers,s'.inputs) := by
    intro value s' here
    unfold forward_refs
    rw [here]
    rfl
  have available : ∀ out, forward_refs codec results configs rows subgraph = .ok out →
      ∀ r ∈ subgraph.flatMap (references results), ∃ path values, Forwardable codec results configs rows r path values := by
    intro out done
    by_contra missing
    simp only [not_forall] at missing
    obtain ⟨r,member,absent⟩ := missing
    obtain ⟨e,stopped⟩ := answers.stop {} start ⟨r,member,absent⟩
    unfold forward_refs at done
    rw [stopped] at done
    cases done
  constructor
  · constructor
    · intro h op member r asked
      obtain ⟨out,done⟩ := h
      exact available out done r (List.mem_flatMap.mpr ⟨op,member,asked⟩)
    · intro ready
      obtain ⟨s',done,_⟩ := answers.ok {} start fun r asked => by
        obtain ⟨op,member,inside⟩ := List.mem_flatMap.mp asked
        exact ready op member r inside
      exact ⟨_,run _ s' done⟩
  · intro ops inputs done
    obtain ⟨s',here,good,served,_⟩ := answers.ok {} start (available _ done)
    rw [run _ s' here] at done
    cases done
    refine ⟨⟨s'.materializers,rfl,fun op member r asked => ?_⟩,fun k texts found => ?_⟩
    · obtain ⟨path,values,ready,column,list⟩ := served r (List.mem_flatMap.mpr ⟨op,member,asked⟩)
      refine ⟨path,values,ready,ready.target_of_eq,column,fun h => ⟨?_,decode_lists (ready.all_listed h).1⟩⟩
      rw [good.operations]
      exact List.mem_map_of_mem (list h)
    · obtain ⟨r,path,values,ready,_,rfl,_⟩ := good.entries k texts found
      rw [List.length_map,ready.rows]

def quoted : Value → String
  | .str text => "\"" ++ text ++ "\""
  | _ => "null"

def dumped : Value → String
  | .list items => "[" ++ ", ".intercalate (items.map quoted) ++ "]"
  | value => quoted value

-- Python's codec on the few texts below.
def text_codec : Codec where
  loads text := [Value.list [.str "a",.str "b"],.list [.str "c"],.list [.str "d",.str "e"]].find? fun value => dumped value = text
  dumps := dumped
  int _ := none
  repr := quoted

def chat_config (id : String) : Spec := [("id",.str id),("op",.str "LLMChatOp")]

def item (output : Value) : Value := .dict [("output",output)]

def two_results : Dict String (List Value) :=
  (Dict.empty.set "s0" [item (.list [.str "a",.str "b"]),item (.list [.str "d",.str "e"])]).set "s1"
    [item (.str "x"),item (.str "y")]

def two_configs : Dict String Spec := (Dict.empty.set "s0" (chat_config "s0")).set "s1" (chat_config "s1")

def asking_op (inputs : List String) (table : List (String × String)) : Spec :=
  [("id",.str "q"),("op",.str "FormatOp"),("inputs",.list (inputs.map Value.str)),
    ("aggregate_table",.list (table.map fun read => .dict [("label",.str "l"),("node",.str read.1),("path",.str read.2)]))]

theorem references_forwarded_two : ∃ ops inputs,
    forward_refs text_codec two_results two_configs 2 [asking_op ["s0","s1"] [("s0","items.output")]] = .ok (ops,inputs) ∧
    (∃ materializers, ops = [asking_op ["s0","s1"] [("s0","items.output")]].map (rewritten_op text_codec two_results two_configs) ++
        materializers ∧ ∀ op ∈ [asking_op ["s0","s1"] [("s0","items.output")]], ∀ r ∈ references two_results op,
          Bound text_codec two_results two_configs 2 materializers inputs r) ∧
      ∀ k texts, inputs.get? k = some texts → texts.length = 2 := by
  have checked : (forward_refs text_codec two_results two_configs 2
      [asking_op ["s0","s1"] [("s0","items.output")]]).toOption.isSome = true := by decide +kernel
  have free : ∀ ref ∈ two_results.keys, '|' ∉ ref.toList := by decide +kernel
  cases done : forward_refs text_codec two_results two_configs 2 [asking_op ["s0","s1"] [("s0","items.output")]] with
  | error message => rw [done] at checked; cases checked
  | ok out =>
      exact ⟨out.1,out.2,rfl,
        (references_forwarded text_codec two_results two_configs 2 (by decide) free _).2 out.1 out.2 done⟩

-- All rows hold lists, of any lengths, or all hold no list.
def RowsAlike (codec : Codec) (results : Dict String (List Value)) (configs : Dict String Spec) (rows : Nat) (r : Reference) : Prop :=
  ∃ path items values, path_of codec configs r = .ok path ∧ results.get? r.ref = some items ∧
    items.mapM (fun item => walk_output_path codec item (path_parts path) r.ref) = .ok values ∧ values.length = rows ∧
    (((∀ v ∈ values, v.is_list = true) ∧ r.is_image = false) ∨ ∀ v ∈ values, v.is_list = false)

def one_among_longer : Dict String (List Value) :=
  Dict.empty.set "s0" [item (.list [.str "c"]),item (.list [.str "d",.str "e"])]

def barred_results : Dict String (List Value) :=
  (Dict.empty.set "s0" [item (.str "a"),item (.str "b")]).set "s0 | items.output" [item (.str "x"),item (.str "y")]

def barred_configs : Dict String Spec :=
  (Dict.empty.set "s0" (chat_config "s0")).set "s0 | items.output" (chat_config "s0 | items.output")

def barred_op : Spec := asking_op ["s0 | items.output"] [("s0","items.output")]

-- A list of one value among longer lists is refused, and an id that spells an input is taken for it.
theorem references_misread :
    (¬∀ codec results configs rows subgraph, 1 < rows →
      (∀ op ∈ subgraph, ∀ r ∈ references results op, RowsAlike codec results configs rows r) →
      ∃ out, forward_refs codec results configs rows subgraph = .ok out) ∧
    ¬∀ codec results configs rows subgraph ops inputs, 1 < rows →
      forward_refs codec results configs rows subgraph = .ok (ops,inputs) →
      ∀ op ∈ subgraph, ∀ r ∈ references results op, ∀ path values, Forwardable codec results configs rows r path values →
        Dict.get? inputs (key_of r path values) = some (values.map (coerce_output_value codec)) := by
  constructor
  · intro claim
    have refused : (forward_refs text_codec one_among_longer two_configs 2 [asking_op ["s0"] []]).toOption.isSome = false := by
      decide +kernel
    obtain ⟨out,done⟩ := claim text_codec one_among_longer two_configs 2 [asking_op ["s0"] []] (by decide) (by
      intro op member r asked
      rw [List.mem_singleton.mp member] at asked
      have only : references one_among_longer (asking_op ["s0"] []) = [.implicit "s0"] := rfl
      rw [only] at asked
      rw [List.mem_singleton.mp asked]
      exact ⟨"items.output",_,[.list [.str "c"],.list [.str "d",.str "e"]],rfl,rfl,rfl,rfl,.inl ⟨by decide,rfl⟩⟩)
    rw [done] at refused
    cases refused
  · intro claim
    have bound : (forward_refs text_codec barred_results barred_configs 2 [barred_op]).toOption.map
        (fun out => out.2.get? "s0 | items.output") = some (some ["x","y"]) := by decide +kernel
    have asked : Reference.explicit "s0" "items.output" ∈ references barred_results barred_op := by
      have all : references barred_results barred_op = [.implicit "s0 | items.output",.explicit "s0" "items.output"] := rfl
      rw [all]
      simp
    have ready : Forwardable text_codec barred_results barred_configs 2 (.explicit "s0" "items.output") "items.output"
        [.str "a",.str "b"] := ⟨rfl,⟨_,rfl,rfl⟩,rfl,.inr (by decide)⟩
    cases done : forward_refs text_codec barred_results barred_configs 2 [barred_op] with
    | error message => rw [done] at bound; cases bound
    | ok out =>
        rw [done] at bound
        have claimed := claim text_codec barred_results barred_configs 2 [barred_op] out.1 out.2 (by decide) done barred_op
          List.mem_cons_self _ asked _ _ ready
        have bound' : out.2.get? "s0 | items.output" = some ["x","y"] := Option.some.inj bound
        have key : key_of (.explicit "s0" "items.output") "items.output" [.str "a",.str "b"] = "s0 | items.output" := by decide
        rw [key,bound'] at claimed
        simp [coerce_output_value] at claimed

end Lumilake.Dynamic

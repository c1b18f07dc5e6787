import Lumilake.Parser.Common

-- What the nodes of an n8n workflow refer to: reference expressions in texts, the ids the
-- nodes are compiled under, and the tokens that carry a reference with its path.
namespace Lumilake.Parser.N8n

-- Python's tables of characters.
structure Letters where
  is_upper : Char → Bool
  is_digit : Char → Bool
  is_word : Char → Bool
  decimal : Char → Option Nat
  ascii_digit : ∀ c, c.toNat < 128 → is_digit c = c.isDigit

def N8N_CHAT_TRIGGER := "@n8n/n8n-nodes-langchain.chatTrigger"
def N8N_POSTGRES_NODE := "n8n-nodes-base.postgres"
def N8N_S3_NODE := "n8n-nodes-base.s3"
def N8N_AGENT_NODE := "@n8n/n8n-nodes-langchain.agent"
def REF_TOKEN_PREFIX := "__lumilake_ref__:"

def starts (front text : String) : Bool := front.toList.isPrefixOf text.toList

def rest_of (front text : String) : String := String.ofList (text.toList.drop front.toList.length)

def is_path_char (letters : Letters) (c : Char) : Bool := letters.is_word c || c = '.' || c = '[' || c = ']'

-- \$\('([^']+)'\)(?:\.([\w\.\[\]]+))?
def REF_DETAIL_PATTERN (letters : Letters) : Regex :=
  .all [.literal "$('".toList,.group 1 (.many1 fun c => c ≠ '\''),.literal "')".toList,
    .opt (.seq (.literal ['.']) (.group 2 (.many1 (is_path_char letters))))]

-- A name in a text and the path behind it.
abbrev Reference := String × Option String

def extract_ref_details (letters : Letters) (text : String) : List Reference :=
  (Regex.finditer (REF_DETAIL_PATTERN letters) text.toList).filterMap fun m =>
    match m.get 1 with
    | some name => if name = [] then none else some (String.ofList name,(m.get 2).map String.ofList)
    | none => none

def strip_expr (value : String) : String := if starts "=" value then rest_of "=" value else value

def to_runtime_output_path (path : Option String) : Option String :=
  match path with
  | none => none
  | some path =>
    let normalized := strip path
    let below (front : String) : Option String :=
      let suffix := rest_of front normalized
      some (if suffix = "" then "items.output" else "items.output." ++ suffix)
    if normalized = "" then none
    else if normalized = "item" ∨ normalized = "item.output" then some "items.output"
    else if starts "item.output." normalized then below "item.output."
    else if starts "item.json." normalized then below "item.json."
    else if starts "item." normalized then below "item."
    else some ("items.output." ++ normalized)

def path_to_label (path : Option String) : Option String :=
  match path with
  | none => none
  | some path =>
    let normalized := strip path
    if path = "" then none
    else if normalized = "item" ∨ normalized = "item.output" ∨ normalized = "item.json" then some "output"
    else
      let normalized := if starts "item.json." normalized then rest_of "item.json." normalized
        else if starts "item." normalized then rest_of "item." normalized else normalized
      if normalized = "" then none
      else some (String.ofList (normalized.toList.reverse.takeWhile (· ≠ '.')).reverse)

-- The paths that carry the rows of a retrieval.
inductive RetrievalMode where
  | sql
  | s3
  | agent

def retrieval_items_path : RetrievalMode → String
  | .sql => "items.table"
  | .s3 => "items.content"
  | .agent => "items.table"

def referenced_op_path (node_type ref_path : Option String) : Except String String :=
  let label := path_to_label ref_path
  let other := (to_runtime_output_path ref_path).getD "items.output"
  if node_type = some N8N_POSTGRES_NODE then
    match label with
    | some column =>
      if column = "" then .error "Query parameter references a SQL node without a field path"
      else .ok (retrieval_items_path .sql ++ "." ++ column)
    | none => .error "Query parameter references a SQL node without a field path"
  else if node_type = some N8N_S3_NODE ∧ (label = none ∨ label = some "content") then .ok (retrieval_items_path .s3)
  else if node_type = some N8N_AGENT_NODE then .ok (retrieval_items_path .agent)
  else .ok other

def encode_ref_token (node_id path : String) : String := REF_TOKEN_PREFIX ++ node_id ++ ":" ++ path

def decode_ref_token (token : String) : Except String (String × String) :=
  let payload := (rest_of REF_TOKEN_PREFIX token).toList
  let node_id := payload.takeWhile (· ≠ ':')
  let path := (payload.dropWhile (· ≠ ':')).drop 1
  if node_id = [] ∨ path = [] then .error ("Invalid reference token: " ++ token)
  else .ok (String.ofList node_id,String.ofList path)

def op_id_fronts : List String :=
  ["input_","llm_","llmdata_","imagegen_","llmvision_","format_","data_","lambda_","retrieval_"]

def is_op_id (value : String) : Bool := op_id_fronts.any fun front => starts front value

-- The kinds of id that a node of a workflow is compiled under.
def node_kinds : List String := ["input","llm","imagegen","llmvision","retrieval","lambda"]

-- What is known when a node is compiled: the ids of the nodes compiled before it, the
-- types of all nodes, and the values of the inputs.
structure Known where
  digest : Digest
  scope : String
  op_ids : Dict String String
  node_map : Dict String String
  inputs : Dict String (List String)
  made : ∀ e ∈ op_ids.entries, e.1 ≠ "" ∧ ∃ kind ∈ node_kinds, e.2 = make_id digest scope kind e.1

-- `{op_id: name for name, op_id in op_ids.items() if name in inputs}`
def input_names_by_op_id (known : Known) : Dict String String :=
  known.op_ids.entries.foldl (fun names e => if e.1 ∈ known.inputs then names.set e.2 e.1 else names) Dict.empty

def op_type_by_id (known : Known) : Dict String (Option String) :=
  known.op_ids.entries.foldl (fun types e => types.set e.2 (known.node_map.get? e.1)) Dict.empty

section
variable (letters : Letters) (known : Known)

def resolve_value (value : Value) : Except String Value :=
  match value with
  | .str text =>
    match extract_ref_details letters (strip_expr text) with
    | (name,path) :: _ =>
      match known.op_ids.get? name with
      | some op_id =>
        match to_runtime_output_path path with
        | some runtime_path => .ok (.str (encode_ref_token op_id runtime_path))
        | none => .ok (.str op_id)
      | none => .error ("Unknown reference '" ++ name ++ "' in filters")
    | [] => .ok value
  | _ => .ok value

end

-- A text that refers to a node holds the mark of a reference.
theorem reference_mark {letters : Letters} {text : String} {r : Reference}
    (refers : (extract_ref_details letters (strip_expr text)).head? = some r) : '$' ∈ text.toList := by
  have member := List.mem_of_mem_head? refers
  obtain ⟨m,among,_⟩ := List.mem_filterMap.mp member
  obtain ⟨front,rest,split,found⟩ := Regex.found_of_finditer among
  obtain ⟨attempt,_⟩ := Regex.match_front_mem found
  have inside : '$' ∈ m.text := by
    obtain ⟨opened,there,more⟩ := List.mem_flatMap.mp attempt
    obtain ⟨tail,_,rfl⟩ := List.mem_map.mp more
    simp only [Regex.attempts] at there
    split at there
    · cases List.mem_singleton.mp there
      exact List.mem_append_left _ (show '$' ∈ "$('".toList by decide)
    · cases there
  have stripped : '$' ∈ (strip_expr text).toList := by
    rw [split,← Regex.attempts_split attempt]
    exact List.mem_append_right _ (List.mem_append_left _ inside)
  unfold strip_expr at stripped
  split at stripped
  · rw [rest_of,String.toList_ofList] at stripped
    exact List.mem_of_mem_drop stripped
  · exact stripped

-- An id holds the letters, digits and underscores that are left of the names it is made from.
theorem slug_chars {text default : String} (plain : ∀ c ∈ default.toList, c.isAlphanum ∨ c = '_') :
    ∀ c ∈ slug text default, c.isAlphanum ∨ c = '_' := by
  intro c member
  unfold slug at member
  simp only at member
  split at member
  · exact plain c member
  · have among : c ∈ Regex.sub (.many1 fun c => !c.isAlphanum) (fun _ => ['_']) text.toList := by
      unfold strip_char at member
      have front := (List.dropWhile_sublist _).subset (List.mem_reverse.mp member)
      exact (List.dropWhile_sublist _).subset (List.mem_reverse.mp front)
    rcases Regex.mem_sub among with ⟨m,replaced⟩ | ⟨rest,unmatched⟩
    · exact .inr (List.mem_singleton.mp replaced)
    · have kept := Regex.unmatched_many1 unmatched
      exact .inl (by simpa using kept)

theorem make_id_chars {digest : Digest} {scope kind name : String} (plain : ∀ c ∈ kind.toList, c.isAlphanum ∨ c = '_') :
    ∀ c ∈ (make_id digest scope kind name).toList, c.isAlphanum ∨ c = '_' := by
  intro c member
  simp only [make_id,String.toList_ofList,List.mem_append,List.mem_cons] at member
  rcases member with kinds | under | scopes | under | names | under | digits
  · exact plain c kinds
  · exact .inr under
  · exact slug_chars (List.forall_iff_forall_mem.mp (by decide)) c scopes
  · exact .inr under
  · exact slug_chars (List.forall_iff_forall_mem.mp (by decide)) c names
  · exact .inr under
  · have digit := Nat.isDigit_of_mem_toDigits (by decide) (by decide) digits
    exact .inl (by simp [Char.isAlphanum,digit])

theorem starts_append (front text : String) : starts front (front ++ text) = true := by
  simp [starts,String.toList_append]

theorem rest_of_append (front text : String) : rest_of front (front ++ text) = text := by
  simp [rest_of,String.toList_append]

theorem starts_head {front text : String} {c d : Char} {cs ds : List Char} (opens : front.toList = c :: cs)
    (begins : text.toList = d :: ds) (known : starts front text = true) : c = d := by
  rw [starts,opens,begins,List.isPrefixOf_cons_cons,Bool.and_eq_true] at known
  exact beq_iff_eq.mp known.1

-- What an id of a node is taken for.
structure OpId (op_id : String) : Prop where
  known : is_op_id op_id = true
  no_token : starts REF_TOKEN_PREFIX op_id = false
  filled : op_id ≠ ""
  no_colon : ':' ∉ op_id.toList

theorem op_id_of_kind (digest : Digest) (scope name : String) (member : kind ∈ node_kinds) : OpId (make_id digest scope kind name) := by
  have form : ∀ front, front = kind ++ "_" → starts front (make_id digest scope kind name) = true := by
    intro front same
    simp [same,starts,make_id,String.toList_append]
  have colon : kind.toList.Forall (fun c => c.isAlphanum ∨ c = '_') → ':' ∉ (make_id digest scope kind name).toList := by
    intro plain inside
    rcases make_id_chars (List.forall_iff_forall_mem.mp plain) ':' inside with letter | under
    · exact absurd letter (by decide)
    · exact absurd under (by decide)
  have token : ∀ c cs, kind.toList = c :: cs → c ≠ '_' → starts REF_TOKEN_PREFIX (make_id digest scope kind name) = false := by
    intro c cs begins other
    apply Bool.eq_false_iff.mpr
    intro known
    have made : (make_id digest scope kind name).toList = c :: (cs ++ '_' :: (slug scope "graph" ++ '_' ::
        (slug name "node" ++ '_' :: Nat.toDigits 10 (suffix digest scope name)))) := by simp [make_id,begins]
    exact other (starts_head (show REF_TOKEN_PREFIX.toList = '_' :: _ from rfl) made known).symm
  have filled : make_id digest scope kind name ≠ "" := by
    intro empty
    have none_left := congrArg String.toList empty
    simp [make_id] at none_left
  simp only [node_kinds,List.mem_cons,List.not_mem_nil,or_false] at member
  rcases member with rfl | rfl | rfl | rfl | rfl | rfl
  · exact ⟨List.any_eq_true.mpr ⟨"input_",by decide,form _ rfl⟩,token _ _ rfl (by decide),filled,colon (by decide)⟩
  · exact ⟨List.any_eq_true.mpr ⟨"llm_",by decide,form _ rfl⟩,token _ _ rfl (by decide),filled,colon (by decide)⟩
  · exact ⟨List.any_eq_true.mpr ⟨"imagegen_",by decide,form _ rfl⟩,token _ _ rfl (by decide),filled,colon (by decide)⟩
  · exact ⟨List.any_eq_true.mpr ⟨"llmvision_",by decide,form _ rfl⟩,token _ _ rfl (by decide),filled,colon (by decide)⟩
  · exact ⟨List.any_eq_true.mpr ⟨"retrieval_",by decide,form _ rfl⟩,token _ _ rfl (by decide),filled,colon (by decide)⟩
  · exact ⟨List.any_eq_true.mpr ⟨"lambda_",by decide,form _ rfl⟩,token _ _ rfl (by decide),filled,colon (by decide)⟩

theorem op_id_of {known : Known} (found : known.op_ids.get? name = some op_id) : OpId op_id := by
  obtain ⟨_,kind,member,made⟩ := known.made _ (Dict.get?_eq_some.mp found)
  simp only at made
  exact made ▸ op_id_of_kind known.digest known.scope name member

theorem runtime_path_filled (found : to_runtime_output_path path = some runtime_path) : runtime_path ≠ "" := by
  unfold to_runtime_output_path at found
  have output : ∀ suffix : String, "items.output." ++ suffix ≠ "" := by
    intro suffix empty
    have none_left := congrArg String.toList empty
    simp [String.toList_append] at none_left
  cases path with
  | none => cases found
  | some path =>
      simp only at found
      split at found
      · cases found
      · have either : runtime_path = "items.output" ∨ ∃ suffix, runtime_path = "items.output." ++ suffix := by
          split_ifs at found <;> cases found
          · exact .inl rfl
          · exact .inl rfl
          · exact .inr ⟨_,rfl⟩
          · exact .inl rfl
          · exact .inr ⟨_,rfl⟩
          · exact .inl rfl
          · exact .inr ⟨_,rfl⟩
          · exact .inr ⟨_,rfl⟩
        rcases either with rfl | ⟨suffix,rfl⟩
        · decide
        · exact output suffix

theorem token_starts (op_id path : String) : starts REF_TOKEN_PREFIX (encode_ref_token op_id path) = true := by
  rw [encode_ref_token,String.append_assoc,String.append_assoc]
  exact starts_append _ _

-- A token gives back the id and the path it was made from.
theorem decode_encode {op_id path : String} (made : OpId op_id) (filled : path ≠ "") :
    decode_ref_token (encode_ref_token op_id path) = .ok (op_id,path) := by
  have payload : (rest_of REF_TOKEN_PREFIX (encode_ref_token op_id path)).toList = op_id.toList ++ ':' :: path.toList := by
    rw [encode_ref_token,String.append_assoc,String.append_assoc,rest_of_append]
    simp [String.toList_append]
  have before : ∀ c ∈ op_id.toList, decide (c ≠ ':') = true := fun c member =>
    decide_eq_true fun same => made.no_colon (same ▸ member)
  have front : (op_id.toList ++ ':' :: path.toList).takeWhile (· ≠ ':') = op_id.toList := by
    rw [List.takeWhile_append_of_pos before]
    simp
  have back : (op_id.toList ++ ':' :: path.toList).dropWhile (· ≠ ':') = ':' :: path.toList := by
    rw [List.dropWhile_append_of_pos before]
    simp
  unfold decode_ref_token
  simp only [payload,front,back,List.drop_succ_cons,List.drop_zero,String.ofList_toList]
  rw [if_neg]
  intro either
  rcases either with empty | empty
  · exact made.filled (String.toList_inj.mp empty)
  · exact filled (String.toList_inj.mp empty)

end Lumilake.Parser.N8n

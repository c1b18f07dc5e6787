import Lumilake.Ops.Config
import Lumilake.RuntimeGraph
import Lumilake.Runtime.FlowmeshClient

namespace Lumilake

structure ApiConfig where
  url : Option String := none
  model : Option String := none
  authorization : Option String := none
  timeout_sec : Option Rat := none
  retries : Option Int := none
  deriving DecidableEq

inductive LLMKind where
  | LLMChatOp
  | LLMVisionOp
  | ImageGenerationOp
  | EmbeddingOp
  deriving DecidableEq

-- The part of a model operation that API mode reads: its class, its generation config
-- and, for a chat, the structural outputs.
structure LLMOp where
  id : String
  op : LLMKind
  model : String
  api : Option ApiConfig := none
  inference_spec : Spec := []
  structural_outputs : Option Value := none
  deriving DecidableEq

def truthy (s : Option String) : Option String := s.filter (· ≠ "")

def resolved_model (op : LLMOp) : String := ((op.api.bind fun api => truthy api.model)).getD op.model

def API_CREDENTIAL_PLACEHOLDER : String := "${credential}"

-- dict.update
def update (entries more : Spec) : Spec :=
  more.foldl (fun found e =>
    if (found.map Prod.fst).contains e.1 then found.map (fun old => if old.1 = e.1 then e else old) else found ++ [e]) entries

def api_request_headers (settings : ApiSettings) (llm_op_id : String) (api_config : ApiConfig) (url : String) :
    Except String Spec := do
  let trusted ← is_api_origin_trusted settings url
  if trusted then
    let server_token ← resolve_api_credential settings url
    if truthy server_token = none then
      .error ("LLMChatOp '" ++ llm_op_id ++ "' API mode targets trusted endpoint " ++ url ++
        " but no PAT is configured; set LUMILAKE_RUNTIME_TOKEN.")
    else pure [("Content-Type",.str "application/json"),("Authorization",.str API_CREDENTIAL_PLACEHOLDER)]
  else if truthy api_config.authorization ≠ none then
    pure [("Content-Type",.str "application/json"),("Authorization",.str API_CREDENTIAL_PLACEHOLDER)]
  else
    .error ("LLMChatOp '" ++ llm_op_id ++ "' API mode targets untrusted endpoint " ++ url ++
      "; supply config.api.authorization or add its origin to LUMILAKE_API_TRUSTED_ORIGINS.")

-- What the compilation of the op's messages contributes to its task.
structure Lowered where
  data_spec : Spec
  dependencies : List String
  output_spec : Option Spec
  condition : Option Spec

def response_format (op : LLMOp) : Except String Spec :=
  match op.op,op.structural_outputs with
  | .LLMChatOp,some (.dict schema) =>
      .ok [("response_format",.dict [("type",.str "json_schema"),("json_schema",.dict
        [("name",.str "structural_outputs"),("schema",.dict schema),("strict",.bool true)])])]
  | .LLMChatOp,some other => .error ("api mode takes structural_outputs as a JSON-schema object; got " ++ Ops.type_name other)
  | _,_ => .ok []

def api_url (settings : ApiSettings) (api_config : ApiConfig) : String :=
  (truthy api_config.url).getD settings.LUMILAKE_API_DEFAULT_URL

def build_api_task (settings : ApiSettings) (op : LLMOp) (api_config : ApiConfig) (lowered : Lowered) :
    Except String RuntimeOp := do
  let model := resolved_model op
  let url := api_url settings api_config
  let headers ← api_request_headers settings op.id api_config url
  let format ← response_format op
  let body := update (update [("model",.str model),("messages",.str "\x7b\x7bprompt\x7d\x7d")] op.inference_spec) format
  pure {
    node_id := op.id,task_type := "api",backend := "api",model := model,
    data_spec := lowered.data_spec,model_spec := [],inference_spec := [],
    api_spec := [("method",.str "POST"),("url",.str url),("headers",.dict headers),("json",.dict body),
      ("response",.dict [("parse_json",.bool true),("return_body",.bool true),("raise_for_status",.bool true)])] ++
      (api_config.timeout_sec.map fun t => ("timeout_sec",Value.float t)).toList ++
      (api_config.retries.map fun n => ("retries",Value.int n)).toList,
    dependencies := lowered.dependencies,output_spec := lowered.output_spec,condition := lowered.condition }

-- The API configuration that build compiles: a vision op never runs in API mode.
def api_mode (op : LLMOp) : Option ApiConfig := if op.op = .LLMVisionOp then none else op.api

-- One turn of the loop over the ops of the submitted graphs: only chat ops are read.
def collect_op (credential : Option String) (op : LLMOp) : Except String (Option String) :=
  if op.op ≠ .LLMChatOp then .ok credential
  else
    match op.api.bind fun api => truthy api.authorization with
    | none => .ok credential
    | some op_credential =>
        if credential ≠ none ∧ credential ≠ some op_credential then
          .error "job carries two distinct API credentials; a job may use only one caller-supplied credential"
        else .ok (some op_credential)

def collect_api_credential (ops : List LLMOp) : Except String (Option String) := ops.foldlM collect_op none

-- A chat op with an API configuration that supplies this authorization.
def ChatSupplies (ops : List LLMOp) (authorization : String) : Prop :=
  ∃ op ∈ ops, op.op = .LLMChatOp ∧ ∃ api, op.api = some api ∧ truthy api.authorization = some authorization

theorem collect_op_chat {op : LLMOp} {api : ApiConfig} (chat : op.op = .LLMChatOp) (mode : op.api = some api)
    (supplied : truthy api.authorization = some a) {credential after : Option String}
    (done : collect_op credential op = .ok after) : after = some a ∧ (credential = none ∨ credential = some a) := by
  unfold collect_op at done
  simp only [chat,ne_eq,not_true_eq_false,if_false,mode,Option.bind_some,supplied] at done
  split at done
  · cases done
  · rename_i agree
    cases done
    refine ⟨rfl,?_⟩
    by_cases empty : credential = none
    · exact .inl empty
    · by_cases same : credential = some a
      · exact .inr same
      · exact absurd ⟨empty,same⟩ agree

theorem collect_op_cases {op : LLMOp} {credential after : Option String} (done : collect_op credential op = .ok after) :
    after = credential ∨ ∃ a api, op.op = .LLMChatOp ∧ op.api = some api ∧ truthy api.authorization = some a ∧ after = some a := by
  by_cases chat : op.op = .LLMChatOp
  · cases mode : op.api with
    | none => simp [collect_op,chat,mode] at done; exact .inl done.symm
    | some api =>
        cases supplied : truthy api.authorization with
        | none => simp [collect_op,chat,mode,supplied] at done; exact .inl done.symm
        | some a => exact .inr ⟨a,api,chat,rfl,supplied,(collect_op_chat chat mode supplied done).1⟩
  · simp [collect_op,chat] at done; exact .inl done.symm

theorem collect_grows {ops : List LLMOp} {a : String} {after : Option String}
    (done : ops.foldlM collect_op (some a) = .ok after) : after = some a := by
  induction ops with
  | nil => cases done; rfl
  | cons op rest ih =>
      rw [List.foldlM_cons] at done
      obtain ⟨next,first,later⟩ := Fallible.bind_ok done
      rcases collect_op_cases first with same | ⟨b,api,chat,mode,supplied,here⟩
      · rw [same] at later; exact ih later
      · rcases (collect_op_chat chat mode supplied first).2 with absurd_none | same
        · cases absurd_none
        · rw [here,← same] at later; exact ih later

-- The credential collected for a job is what each of its supplying chat ops supplies.
theorem collect_iff {ops : List LLMOp} {credential : Option String} (done : collect_api_credential ops = .ok credential)
    (a : String) : credential = some a ↔ ChatSupplies ops a := by
  have general : ∀ (ops : List LLMOp) (start after : Option String), ops.foldlM collect_op start = .ok after →
      (after = some a → start = some a ∨ ChatSupplies ops a) ∧ (ChatSupplies ops a → after = some a) := by
    intro ops
    induction ops with
    | nil =>
        intro start after loop
        cases loop
        exact ⟨.inl,fun h => by obtain ⟨_,member,_⟩ := h; cases member⟩
    | cons op rest ih =>
        intro start after loop
        rw [List.foldlM_cons] at loop
        obtain ⟨next,first,later⟩ := Fallible.bind_ok loop
        obtain ⟨forth,back⟩ := ih next after later
        refine ⟨?_,?_⟩
        · intro final
          rcases forth final with early | ⟨supplier,member,facts⟩
          · rcases collect_op_cases first with same | ⟨b,api,chat,mode,supplied,here⟩
            · exact .inl (same ▸ early)
            · rw [here] at early
              cases early
              exact .inr ⟨op,List.mem_cons_self,chat,api,mode,supplied⟩
          · exact .inr ⟨supplier,List.mem_cons_of_mem _ member,facts⟩
        · intro h
          obtain ⟨supplier,member,chat,api,mode,supplied⟩ := h
          rcases List.mem_cons.mp member with rfl | rest_member
          · have here := (collect_op_chat chat mode supplied first).1
            rw [here] at later
            exact collect_grows later
          · exact back ⟨supplier,rest_member,chat,api,mode,supplied⟩
  obtain ⟨forth,back⟩ := general ops none credential done
  constructor
  · intro final
    rcases forth final with empty | supplied
    · cases empty
    · exact supplied
  · exact back

theorem truthy_some {s : Option String} (here : truthy s = some a) : s = some a ∧ a ≠ "" := by
  obtain ⟨same,filled⟩ := Option.filter_eq_some_iff.mp here
  exact ⟨same,by simpa using filled⟩

end Lumilake

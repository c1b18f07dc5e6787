import Lumilake.JobManager.BatchReservation
import Lumilake.Optimizer.DedupeSound
import Lumilake.RuntimeManager.ApiCredentials

namespace Lumilake.RuntimeManager
open PriorityQueue Optimizer
variable {settings : ApiSettings} {cfg : PriorityQueue.Settings} {sha256 : String → String}

-- A runtime graph of a job: each of its API nodes is the task of one of the job's model
-- operations, as built or under the graph's node prefix.
structure Compiled (settings : ApiSettings) (ops : List LLMOp) (graph : RuntimeGraph) where
  source : String → LLMOp
  built : ∀ id op, graph.nodes.get? id = some op → op.task_type = "api" → source id ∈ ops ∧
    ∃ api_config lowered node, api_mode (source id) = some api_config ∧
      build_api_task settings (source id) api_config lowered = .ok node ∧
      (op = node ∨ ∃ mapping, op = RuntimeGraph.prefix_op mapping id node)

-- A queued workflow with the operations of its job and the credential kept for the job.
structure Member (sha256 : String → String) where
  item : WorkflowItem
  ops : List LLMOp
  credential : Option String
  collected : collect_api_credential ops = .ok credential
  digest : item.api_credential_digest = credential.map sha256

-- A batch as it is dispatched: workflows of one partition, their graphs merged and
-- deduplicated, and the credentials stored under the request ids of its members.
structure Batch (settings : ApiSettings) (cfg : PriorityQueue.Settings) (sha256 : String → String) where
  members : List (Member sha256)
  partition : PartitionKey
  matching : ∀ m ∈ members, matches_partition cfg partition m.item = true
  collision_free : ∀ m ∈ members, ∀ n ∈ members, m.credential.map sha256 = n.credential.map sha256 →
    m.credential = n.credential
  graphs : Dict String RuntimeGraph
  owner : String → Member sha256
  owned : ∀ name graph, graphs.get? name = some graph → owner name ∈ members
  compiled : ∀ name graph, graphs.get? name = some graph → Compiled settings (owner name).ops graph
  graph : RuntimeGraph
  outputs : Dict String (String × String)
  merged : merge_runtime_graphs graphs = .ok (graph,outputs)
  deduped : RuntimeGraph
  mapping : Dict String String
  done : dedupe_runtime_graph graph = .ok (deduped,mapping)
  member_request_ids : List String
  active : ∀ id ∈ member_request_ids, ∃ m ∈ members, m.item.request_id = id
  some_active : member_request_ids ≠ []
  get_api_credential : String → Option String
  stored : ∀ m ∈ members, get_api_credential m.item.request_id = m.credential

namespace Batch
variable (batch : Batch settings cfg sha256)

-- An API node of the deduplicated graph with its URL.
def ApiNode (c : String) (node : RuntimeOp) (url : String) : Prop :=
  batch.deduped.nodes.get? c = some node ∧ node.task_type = "api" ∧ node.api_spec.lookup "url" = some (.str url)

-- The operations a node of the deduplicated graph was compiled from.
def CompiledFrom (c : String) (op : LLMOp) : Prop :=
  ∃ name graph, ∃ found : batch.graphs.get? name = some graph, ∃ id node, graph.nodes.get? id = some node ∧
    node.task_type = "api" ∧ batch.mapping.get? id = some c ∧ op = (batch.compiled name graph found).source id

def dispatched (node : RuntimeOp) : Except String Spec :=
  resolve_node settings batch.get_api_credential batch.member_request_ids node.api_spec

-- A node outside the trusted origins gets the authorization of the operations it was compiled from.
def Confined : Prop :=
  ∀ c node url api_spec op, batch.ApiNode c node url → is_api_origin_trusted settings url = .ok false →
    batch.dispatched node = .ok api_spec → batch.CompiledFrom c op →
    ∃ api a, op.api = some api ∧ truthy api.authorization = some a ∧
      authorization api_spec = some (.str (with_auth_scheme a))

-- What a node outside the trusted origins is sent is the same whatever the server's token is.
def TokenConfined : Prop :=
  ∀ c node url token, batch.ApiNode c node url → is_api_origin_trusted settings url = .ok false →
    resolve_node (with_token settings token) batch.get_api_credential batch.member_request_ids node.api_spec =
      batch.dispatched node

-- Every operation compiled into such a node supplies an authorization that a chat
-- operation of the batch supplies too.
def SharesChatCredential : Prop :=
  ∀ c node url op, batch.ApiNode c node url → is_api_origin_trusted settings url = .ok false → batch.CompiledFrom c op →
    ∃ api a, op.api = some api ∧ truthy api.authorization = some a ∧
      ∃ m ∈ batch.members, ∃ b, ChatSupplies m.ops b ∧ with_auth_scheme b = with_auth_scheme a

end Batch

theorem lookup_remap {mapping rewritable : Dict String String} {key : String} (plain : key ≠ "node") (entries : Spec) :
    (remap_entries mapping rewritable entries).lookup key = (entries.lookup key).map (remap_value mapping rewritable) := by
  induction entries with
  | nil => rfl
  | cons e rest ih =>
      obtain ⟨k,item⟩ := e
      by_cases same : key = k
      · subst same
        cases item <;> simp [remap_entries,remap_value,plain]
      · have other : (key == k) = false := by simpa using same
        cases item <;> simp [remap_entries,List.lookup_cons,other,ih]

theorem placeholder_kept (rewritable : Dict String String) :
    remap_placeholder API_CREDENTIAL_PLACEHOLDER rewritable = API_CREDENTIAL_PLACEHOLDER := by
  have pieces : (Placeholder.scan API_CREDENTIAL_PLACEHOLDER.toList).map (Placeholder.Piece.rename (remap_name rewritable)) =
      Placeholder.scan API_CREDENTIAL_PLACEHOLDER.toList := rfl
  rw [remap_placeholder,pieces,Placeholder.render_scan,String.ofList_toList]

theorem authorization_remap {mapping rewritable : Dict String String} {api_spec : Spec}
    (header : authorization api_spec = some (.str API_CREDENTIAL_PLACEHOLDER)) :
    authorization (remap_entries mapping rewritable api_spec) = some (.str API_CREDENTIAL_PLACEHOLDER) := by
  unfold authorization at header
  split at header
  · rename_i headers found
    unfold authorization
    rw [lookup_remap (by decide),found]
    simp only [Option.map_some,remap_value]
    rw [lookup_remap (by decide),header]
    simp only [Option.map_some,remap_value,placeholder_kept]
  · cases header

theorem headers_placeholder {op_id : String} {api_config : ApiConfig} {url : String} {headers : Spec}
    (done : api_request_headers settings op_id api_config url = .ok headers) :
    headers.lookup "Authorization" = some (.str API_CREDENTIAL_PLACEHOLDER) := by
  obtain ⟨trusted,_,rest⟩ := Fallible.bind_ok done
  split at rest
  · obtain ⟨token,_,rest⟩ := Fallible.bind_ok rest
    split at rest
    · cases rest
    · cases rest; rfl
  · split at rest
    · cases rest; rfl
    · cases rest

theorem api_task_placeholder {op : LLMOp} {api_config : ApiConfig} {lowered : Lowered} {node : RuntimeOp}
    (done : build_api_task settings op api_config lowered = .ok node) :
    authorization node.api_spec = some (.str API_CREDENTIAL_PLACEHOLDER) := by
  obtain ⟨headers,made,rest⟩ := Fallible.bind_ok done
  obtain ⟨format,_,last⟩ := Fallible.bind_ok rest
  cases last
  exact headers_placeholder made

section
variable {batch : Batch settings cfg sha256}

-- Prefix, merge and dedupe all leave the placeholder in its header.
theorem node_placeholder (api : batch.ApiNode c node url) :
    authorization node.api_spec = some (.str API_CREDENTIAL_PLACEHOLDER) := by
  obtain ⟨found,task,_⟩ := api
  have before : ∀ id op, batch.graph.nodes.get? id = some op → op.task_type = "api" →
      authorization op.api_spec = some (.str API_CREDENTIAL_PLACEHOLDER) := by
    intro id op here is_api
    obtain ⟨name,graph,member,in_graph⟩ := merge_runtime_graphs_node batch.merged here
    obtain ⟨_,api_config,lowered,built,_,made,same | ⟨mapping,same⟩⟩ := (batch.compiled name graph member).built id op in_graph is_api
    · rw [same]; exact api_task_placeholder made
    · rw [same]; exact authorization_remap (api_task_placeholder made)
  obtain ⟨order,_,_,unchanged | rebuilt⟩ := dedupe_cases batch.done
  · rw [unchanged.1] at found
    exact before c node found task
  · obtain ⟨old,old_node,same⟩ := (rebuild_spec rebuilt).1.remapped c node found
    rw [same] at task ⊢
    exact authorization_remap (before c old old_node task)

theorem member_credential (m n : Member sha256) (in_m : m ∈ batch.members) (in_n : n ∈ batch.members) :
    m.credential = n.credential := by
  have partition : ∀ m ∈ batch.members, m.credential.map sha256 = batch.partition.api_credential_digest := by
    intro m member
    have matching := batch.matching m member
    simp only [matches_partition,Bool.and_eq_true,decide_eq_true_eq] at matching
    rw [← m.digest]
    exact matching.1.1.1.2
  exact batch.collision_free m in_m n in_n ((partition m in_m).trans (partition n in_n).symm)

theorem first_credential_member {m : Member sha256} (member : m ∈ batch.members) :
    first_credential batch.get_api_credential batch.member_request_ids = m.credential := by
  have each : ∀ id ∈ batch.member_request_ids, batch.get_api_credential id = m.credential := by
    intro id active
    obtain ⟨n,in_n,rfl⟩ := batch.active id active
    rw [batch.stored n in_n,member_credential n m in_n member]
  unfold first_credential
  have some_active := batch.some_active
  cases ids : batch.member_request_ids with
  | nil => exact absurd ids some_active
  | cons id rest =>
      rw [ids] at each
      have here := each id List.mem_cons_self
      cases own : m.credential with
      | some a => rw [List.filterMap_cons,here,own]; rfl
      | none =>
          have empty : (id :: rest).filterMap batch.get_api_credential = [] := by
            rw [List.filterMap_eq_nil_iff]
            intro x active
            rw [each x active,own]
          rw [empty]; rfl

-- What a node outside the trusted origins is dispatched with.
theorem dispatched_untrusted (api : batch.ApiNode c node url) (untrusted : is_api_origin_trusted settings url = .ok false)
    {m : Member sha256} (member : m ∈ batch.members) :
    batch.dispatched node = .ok (match truthy m.credential with
      | some a => set_authorization node.api_spec (with_auth_scheme a)
      | none => node.api_spec) := by
  have header := node_placeholder api
  have resolved : resolve_credential settings batch.get_api_credential batch.member_request_ids node.api_spec =
      .ok m.credential := by
    unfold resolve_credential
    rw [api.2.2]
    dsimp only
    rw [untrusted,first_credential_member member]
    rfl
  unfold Batch.dispatched resolve_node
  rw [if_neg (not_not.mpr header),resolved]
  change (match truthy m.credential with
    | some credential => pure (set_authorization node.api_spec (with_auth_scheme credential))
    | none => pure node.api_spec) = _
  cases truthy m.credential <;> rfl

theorem compiled_member (from_op : batch.CompiledFrom c op) : ∃ m ∈ batch.members, op ∈ m.ops := by
  obtain ⟨name,graph,found,id,node,in_graph,is_api,_,rfl⟩ := from_op
  exact ⟨batch.owner name,batch.owned name graph found,((batch.compiled name graph found).built id node in_graph is_api).1⟩

theorem confined_of_shared (shared : batch.SharesChatCredential) : batch.Confined := by
  intro c node url api_spec op api untrusted done from_op
  obtain ⟨config,a,mode,supplied,m,member,b,chat,same⟩ := shared c node url op api untrusted from_op
  refine ⟨config,a,mode,supplied,?_⟩
  have own : m.credential = some b := (collect_iff m.collected b).mpr chat
  obtain ⟨_,_,_,_,_,chat_supplied⟩ := chat
  have filled : truthy m.credential = some b := by
    rw [own]
    exact Option.filter_eq_some_iff.mpr ⟨rfl,by simpa using (truthy_some chat_supplied).2⟩
  rw [dispatched_untrusted api untrusted member,filled] at done
  cases done
  rw [authorization_set (node_placeholder api),same]

theorem shared_of_confined (confined : batch.Confined) : batch.SharesChatCredential := by
  intro c node url op api untrusted from_op
  obtain ⟨m,member,_⟩ := compiled_member from_op
  have sent := dispatched_untrusted api untrusted member
  obtain ⟨config,a,mode,supplied,header⟩ := confined c node url _ op api untrusted sent from_op
  refine ⟨config,a,mode,supplied,m,member,?_⟩
  cases filled : truthy m.credential with
  | none =>
      rw [filled] at header
      have plain := (node_placeholder api).symm.trans header
      exact absurd (Value.str.inj (Option.some.inj plain)).symm (with_auth_scheme_ne a)
  | some b =>
      rw [filled] at header
      have set := (authorization_set (node_placeholder api) (with_auth_scheme b)).symm.trans header
      exact ⟨b,(collect_iff m.collected b).mp (truthy_some filled).1,Value.str.inj (Option.some.inj set)⟩

theorem token_confined : batch.TokenConfined := by
  intro c node url token api untrusted
  unfold Batch.dispatched resolve_node
  have resolved : resolve_credential (with_token settings token) batch.get_api_credential batch.member_request_ids node.api_spec =
      resolve_credential settings batch.get_api_credential batch.member_request_ids node.api_spec := by
    unfold resolve_credential
    rw [api.2.2]
    dsimp only
    rw [trusted_with_token,untrusted]
    rfl
  rw [resolved]

end

-- The server's token stays on trusted origins; another credential stays with its
-- operations exactly when these share it with a chat operation of the batch.
theorem credentials_confined (batch : Batch settings cfg sha256) :
    batch.TokenConfined ∧ (batch.Confined ↔ batch.SharesChatCredential) :=
  ⟨token_confined,shared_of_confined,confined_of_shared⟩

-- Two vendors outside the trusted origins, each called with a key of its own: one by a
-- chat operation, one by an image generation operation of the same job.
def vendor_settings : ApiSettings where
  RUNTIME_TOKEN := some "server"
  LUMILAKE_API_DEFAULT_URL := "https://lum.id"
  LUMILAKE_API_TRUSTED_ORIGINS := ""
  urlsplit := fun url =>
    .ok ⟨"https",some (if url = "https://a.example" then "a.example" else if url = "https://b.example" then "b.example"
      else "lum.id"),.ok none⟩

def chat_api : ApiConfig := { url := some "https://a.example",authorization := some "a" }
def image_api : ApiConfig := { url := some "https://b.example",authorization := some "b" }
def chat_op : LLMOp := { id := "chat",op := .LLMChatOp,model := "m",api := some chat_api }
def image_op : LLMOp := { id := "image",op := .ImageGenerationOp,model := "m",api := some image_api }

def api_task (op : LLMOp) (api : ApiConfig) : RuntimeOp :=
  ((build_api_task vendor_settings op api ⟨[],[],none,none⟩).toOption).getD ⟨"","","","",[],[],[],[],[],none,none⟩

def vendor_graph : RuntimeGraph :=
  ⟨(Dict.empty.set "chat" (api_task chat_op chat_api)).set "image" (api_task image_op image_api),["chat","image"],
    Dict.empty,Dict.empty,Dict.empty⟩

def vendor_graphs : Dict String RuntimeGraph := Dict.empty.set "g" vendor_graph

theorem api_task_built (op : LLMOp) (api : ApiConfig)
    (runs : (build_api_task vendor_settings op api ⟨[],[],none,none⟩).toOption.isSome = true) :
    build_api_task vendor_settings op api ⟨[],[],none,none⟩ = .ok (api_task op api) := by
  unfold api_task
  cases built : build_api_task vendor_settings op api ⟨[],[],none,none⟩ with
  | error message => rw [built] at runs; cases runs
  | ok node => rfl

def vendor_compiled : Compiled vendor_settings [chat_op,image_op] vendor_graph where
  source := fun id => if id = "chat" then chat_op else image_op
  built := by
    have chat_task := api_task_built chat_op chat_api (by decide +kernel)
    have image_task := api_task_built image_op image_api (by decide +kernel)
    intro id op found _
    have nodes : vendor_graph.nodes.entries = [("chat",api_task chat_op chat_api),("image",api_task image_op image_api)] := rfl
    have member := Dict.get?_eq_some.mp found
    rw [nodes] at member
    rcases List.mem_cons.mp member with chat | image
    · cases chat
      exact ⟨by decide,chat_api,_,_,rfl,chat_task,.inl rfl⟩
    · cases List.mem_singleton.mp image
      exact ⟨by decide,image_api,_,_,rfl,image_task,.inl rfl⟩

def vendor_config : LumilakeRequestConfig := { user_id := "u",principal_id := "u" }

def vendor_cfg : PriorityQueue.Settings where
  quantums := fun _ => 1
  starvation_limit := 1
  default_optimizer_type := "halo"
  cpu_worker_group_size := 1
  gpu_worker_group_size := 1
  unsatisfiable_dwell_observations := 1
  unsatisfiable_dwell_seconds := 1
  capacity_aware_selection := false
  worker_meets_hardware := fun _ _ => true
  select_affinity_batch_ids := fun _ _ ids => ids

def vendor_item : WorkflowItem where
  workflow_id := "w"
  request_id := "job"
  graph_name := "g"
  public_graph_name := "g"
  slice_index := 0
  slice_start := 0
  slice_length := 1
  total_length := 1
  template_hash := ""
  varying_input_keys := []
  runtime_graph := vendor_graph
  config := vendor_config
  enqueued_at := 0
  api_credential_digest := some "a"

def vendor_member : Member id := ⟨vendor_item,[chat_op,image_op],some "a",rfl,rfl⟩

-- The image vendor is sent the key of the chat vendor.
theorem credential_leaks : ¬∀ (settings : ApiSettings) (cfg : PriorityQueue.Settings) (sha256 : String → String)
    (batch : Batch settings cfg sha256), batch.Confined := by
  intro claim
  have checked : (merge_runtime_graphs vendor_graphs).toOption.bind (fun m => (dedupe_runtime_graph m.1).toOption.map fun d =>
      (d.2.get? "image",(d.1.nodes.get? "image").map fun n => (n.task_type,n.api_spec.lookup "url"))) =
      some (some "image",some ("api",some (.str "https://b.example"))) := by decide +kernel
  cases merged : merge_runtime_graphs vendor_graphs with
  | error message => rw [merged] at checked; cases checked
  | ok m =>
      rw [merged] at checked
      cases done : dedupe_runtime_graph m.1 with
      | error message => simp [Except.toOption,done] at checked
      | ok d =>
          simp only [Except.toOption,Option.bind_some,done,Option.map_some,Option.some.injEq,Prod.mk.injEq] at checked
          obtain ⟨moved,node_facts⟩ := checked
          obtain ⟨node,found,facts⟩ := Option.map_eq_some_iff.mp node_facts
          obtain ⟨task,url⟩ := Prod.mk.inj facts
          have graph_of : ∀ name graph, vendor_graphs.get? name = some graph → graph = vendor_graph := by
            intro name graph present
            have member := Dict.get?_eq_some.mp present
            exact congrArg Prod.snd (List.mem_singleton.mp member)
          let batch : Batch vendor_settings vendor_cfg id := {
            members := [vendor_member],partition := partition_of vendor_cfg vendor_item,
            matching := by intro m member; rw [List.mem_singleton.mp member]; decide +kernel,
            collision_free := fun _ _ _ _ same => by simpa using same,
            graphs := vendor_graphs,owner := fun _ => vendor_member,owned := fun _ _ _ => List.mem_cons_self,
            compiled := fun name graph present => graph_of name graph present ▸ vendor_compiled,
            graph := m.1,outputs := m.2,merged := merged,deduped := d.1,mapping := d.2,done := done,
            member_request_ids := ["job"],
            active := fun id active => ⟨vendor_member,List.mem_cons_self,(List.mem_singleton.mp active).symm⟩,
            some_active := by simp,get_api_credential := fun _ => some "a",
            stored := fun m member => by rw [List.mem_singleton.mp member]; rfl }
          have api : batch.ApiNode "image" node "https://b.example" := ⟨found,task,url⟩
          have untrusted : is_api_origin_trusted vendor_settings "https://b.example" = .ok false := by
            have outcome : (is_api_origin_trusted vendor_settings "https://b.example").toOption = some false := by decide +kernel
            cases trusted : is_api_origin_trusted vendor_settings "https://b.example" with
            | error message => rw [trusted] at outcome; cases outcome
            | ok b => rw [trusted] at outcome; cases outcome; rfl
          have from_op : batch.CompiledFrom "image" image_op :=
            ⟨"g",vendor_graph,rfl,"image",api_task image_op image_api,rfl,by decide +kernel,moved,rfl⟩
          have sent := dispatched_untrusted api untrusted (m := vendor_member) List.mem_cons_self
          obtain ⟨config,a,mode,supplied,header⟩ := claim _ _ _ batch "image" node _ _ image_op api untrusted sent from_op
          cases mode
          cases supplied
          have set := (authorization_set (node_placeholder api) (with_auth_scheme "a")).symm.trans header
          exact absurd (Value.str.inj (Option.some.inj set)) (by decide +kernel)

end Lumilake.RuntimeManager

import Lumilake.Server.ProcessBatch
import Lumilake.Server.WorkerClaims
import Lumilake.Optimizer.ReferenceClosure
import Lumilake.Library.Runs
import Mathlib.Logic.Relation

namespace Lumilake.Server.PlanCache
open WorkerCapability Fallible Optimizer

structure Schedule where
  worker_assignment : Dict String (List String)

-- Python texts of a name and of a list of names.
def list_text (repr : String → String) (names : List String) : String := "[" ++ ", ".intercalate (names.map repr) ++ "]"

def sorted_difference (names others : List String) : List String :=
  ((names.filter (· ∉ others)).dedup).mergeSort (fun a b => decide (a ≤ b))

section
variable (repr : String → String)

def blank (name : String) : Bool := decide (strip name = "")

def schedule_node_names (schedule : Dict String (List String)) : Except String (List String) := do
  let names ← schedule.entries.mapM fun row =>
    if blank row.1 then .error "Invalid worker id in schedule mapping"
    else if row.2.any blank then .error ("Invalid node id in schedule for worker " ++ repr row.1 ++ ".")
    else .ok row.2
  pure names.flatten

-- The sets differ, with the names on either side alone.
def mismatch (what : String) (wanted found : List String) : Except String Unit :=
  if wanted ⊆ found ∧ found ⊆ wanted then .ok ()
  else .error (what ++ ". Missing: " ++ list_text repr (sorted_difference wanted found) ++ ", extra: " ++
    list_text repr (sorted_difference found wanted))

def no_duplicates (row : String × List String) : Except String Unit :=
  if row.2.Nodup then .ok ()
  else .error ("Schedule worker_assignment has duplicate node IDs for worker '" ++ row.1 ++ "'")

def validate_schedule (schedule : Schedule) (selected_workers runtime_nodes : List String) : Except String Unit := do
  mismatch repr "Schedule workers must match selected worker group" selected_workers schedule.worker_assignment.keys
  let schedule_names ← schedule_node_names repr schedule.worker_assignment
  mismatch repr "Schedule must match runtime graph nodes" runtime_nodes schedule_names
  schedule.worker_assignment.entries.forM no_duplicates

end

-- What one group of a batch is to the cache key.
structure GroupPayload where
  template_hash : String
  requests : List String
  public_graphs : List String
  slice_lengths : List Nat
  deriving DecidableEq

structure KeyPayload where
  workers : List String
  groups : List GroupPayload
  deriving DecidableEq

def sorted_set (names : List String) : List String := names.dedup.mergeSort (fun a b => decide (a ≤ b))

def group_payload (workflows : List WorkflowItem) : Option GroupPayload :=
  match workflows.mergeSort slice_before with
  | [] => none
  | first :: rest => some ⟨first.template_hash,sorted_set ((first :: rest).map (·.request_id)),
      sorted_set ((first :: rest).map (·.public_graph_name)),(first :: rest).map (·.slice_length)⟩

def key_payload (selected_workers : List String) (grouped_workflows : Groups) : KeyPayload :=
  ⟨selected_workers,(grouped_workflows.keys.mergeSort (fun a b => decide (a ≤ b))).filterMap
    (fun parent => group_payload ((grouped_workflows.get? parent).getD []))⟩

-- `digest` is the JSON text under SHA-256; nothing below asks it to be free of collisions.
def build_plan_cache_key (digest : KeyPayload → String) (selected_workers : List String) (grouped_workflows : Groups) :
    String := digest (key_payload selected_workers grouped_workflows)

-- A batch as `_process_batch` has it when it looks for a plan: the merged graph is the
-- optimized union of the graphs built for its groups.
structure Batch where
  selected_workers : List String
  worker_profiles : Dict String WorkerProfile
  workflows : List WorkflowItem
  member_request_ids : List String
  runtime_graphs : Dict String RuntimeGraph
  runtime_graph : RuntimeGraph
  merged : ∃ outputs mapping, Optimizer.optimize_graphs runtime_graphs = .ok (runtime_graph,outputs,mapping)

namespace Batch

def profile (batch : Batch) (worker : String) : WorkerProfile := (batch.worker_profiles.get? worker).getD {}

-- The first workflow of a member owns the cache, else the first workflow.
def cache_owner_request_id (batch : Batch) : Option String :=
  ((batch.workflows.find? (fun w => decide (w.request_id ∈ batch.member_request_ids))).or batch.workflows.head?).map
    (·.request_id)

end Batch

-- A cached plan, beside the batch whose graph and profiles the optimizer planned it for
-- (which the source does not keep).
structure PlanCacheEntry where
  data_profile_results : Dict String (List Spec)
  schedule : Schedule
  planned_for : Batch

-- The caches belong to the request states, which a later request of the same id does not
-- share: a batch on its way holds on to the state it found.
structure Planner where
  requests : Dict String Nat := Dict.empty
  plan_caches : List (Dict String PlanCacheEntry) := []
  planning : List (Batch × Option Nat) := []
  reused : List (Batch × PlanCacheEntry) := []

inductive Act where
  | register (request_id : String)
  | drop (request_id : String)
  | start (batch : Batch)
  | plan (index : Nat) (data_profile_results : Dict String (List Spec)) (schedule : Option Schedule)

section
variable (repr : String → String) (digest : KeyPayload → String)
  (chunk_within_python_timeouts : List WorkflowItem → List (List WorkflowItem))

def cache_key (batch : Batch) : String :=
  build_plan_cache_key digest batch.selected_workers
    (group_workflows_by_parent_workflow chunk_within_python_timeouts batch.workflows)

namespace Planner

def cache_state (planner : Planner) (batch : Batch) : Option Nat :=
  batch.cache_owner_request_id.bind planner.requests.get?

def plan_cache (planner : Planner) (state : Nat) : Dict String PlanCacheEntry := planner.plan_caches.getD state Dict.empty

def cached (planner : Planner) (batch : Batch) : Option PlanCacheEntry :=
  (planner.cache_state batch).bind fun state =>
    (planner.plan_cache state).get? (cache_key digest chunk_within_python_timeouts batch)

def register (planner : Planner) (request_id : String) : Planner :=
  { planner with
    requests := planner.requests.set request_id planner.plan_caches.length,
    plan_caches := planner.plan_caches ++ [Dict.empty] }

def miss (planner : Planner) (batch : Batch) : Planner :=
  { planner with planning := planner.planning ++ [(batch,planner.cache_state batch)] }

-- A cached schedule that no longer fits is planned again.
def start (planner : Planner) (batch : Batch) : Planner :=
  match planner.cached digest chunk_within_python_timeouts batch with
  | none => planner.miss batch
  | some entry =>
    match validate_schedule repr entry.schedule batch.selected_workers batch.runtime_graph.nodes.keys with
    | .ok () => { planner with reused := planner.reused ++ [(batch,entry)] }
    | .error _ => planner.miss batch

def store (planner : Planner) (batch : Batch) (state : Option Nat) (entry : PlanCacheEntry) : Planner :=
  match state with
  | none => planner
  | some state =>
    let plan_cache := (planner.plan_cache state).set (cache_key digest chunk_within_python_timeouts batch) entry
    { planner with plan_caches := planner.plan_caches.set state plan_cache }

-- The optimizer answers, or fails or is cancelled; what it answers is validated too.
def plan (planner : Planner) (index : Nat) (data_profile_results : Dict String (List Spec)) (schedule : Option Schedule) :
    Planner :=
  match planner.planning[index]? with
  | none => planner
  | some (batch,state) =>
    let planner := { planner with planning := planner.planning.eraseIdx index }
    match schedule with
    | none => planner
    | some schedule =>
      match validate_schedule repr schedule batch.selected_workers batch.runtime_graph.nodes.keys with
      | .ok () => planner.store digest chunk_within_python_timeouts batch state ⟨data_profile_results,schedule,batch⟩
      | .error _ => planner

def apply (planner : Planner) : Act → Planner
  | .register request_id => planner.register request_id
  | .drop request_id => { planner with requests := planner.requests.erase request_id }
  | .start batch => planner.start repr digest chunk_within_python_timeouts batch
  | .plan index data_profile_results schedule =>
    planner.plan repr digest chunk_within_python_timeouts index data_profile_results schedule

end Planner
end

-- Where the optimizer may put a node: the split into GPU and CPU nodes, and the task types
-- that only an advertising worker runs.
def compatible (profile : WorkerProfile) (op : RuntimeOp) : Bool :=
  (!runtime_op_requires_gpu op || has_gpu profile) &&
  (!decide (normalized_task_type op.task_type ∈ CPU_ONLY_TASK_TYPES) || !has_gpu profile) &&
  (!decide (op.task_type ∈ CAPABILITY_GATED_TASK_TYPES) || decide (op.task_type ∈ advertised_task_types profile))

-- `a` has to run before `b`: `b` depends on it, or one worker is given both in this order.
inductive Before (schedule : Schedule) (graph : RuntimeGraph) (a b : String) : Prop where
  | dependency : graph.nodes.get? b = some op → a ∈ op.dependencies → a ∈ graph.nodes.keys → Before schedule graph a b
  | worker : (worker,nodes) ∈ schedule.worker_assignment.entries → [a,b].Sublist nodes → Before schedule graph a b

-- What `_validate_schedule` looks at: everything about the names, nothing about order or place.
structure Named (schedule : Schedule) (batch : Batch) : Prop where
  workers : ∀ worker, worker ∈ schedule.worker_assignment.keys ↔ worker ∈ batch.selected_workers
  nodes : ∀ name, name ∈ schedule.worker_assignment.values.flatten ↔ name ∈ batch.runtime_graph.nodes.keys
  once : ∀ names ∈ schedule.worker_assignment.values, names.Nodup

structure Runnable (schedule : Schedule) (batch : Batch) : Prop where
  acyclic : ∀ name, ¬Relation.TransGen (Before schedule batch.runtime_graph) name name
  placed : ∀ worker names, (worker,names) ∈ schedule.worker_assignment.entries → ∀ name ∈ names, ∀ op,
    batch.runtime_graph.nodes.get? name = some op → compatible (batch.profile worker) op = true

structure Valid (schedule : Schedule) (batch : Batch) : Prop extends Named schedule batch, Runnable schedule batch

-- The batch has no dependency between its nodes that the earlier one lacked, and its workers
-- can still run what they could.
structure Unchanged (earlier batch : Batch) : Prop where
  dependencies : ∀ name op, batch.runtime_graph.nodes.get? name = some op → ∀ dep ∈ op.dependencies,
    dep ∈ batch.runtime_graph.nodes.keys → ∃ old, earlier.runtime_graph.nodes.get? name = some old ∧
      dep ∈ old.dependencies ∧ dep ∈ earlier.runtime_graph.nodes.keys
  workers : ∀ worker ∈ batch.selected_workers, ∀ name op, batch.runtime_graph.nodes.get? name = some op →
    ∃ old, earlier.runtime_graph.nodes.get? name = some old ∧
      (compatible (earlier.profile worker) old = true → compatible (batch.profile worker) op = true)

section
variable {repr : String → String} {schedule : Schedule}

theorem mismatch_ok {what : String} {wanted found : List String} (accepted : mismatch repr what wanted found = .ok ()) :
    ∀ name, name ∈ found ↔ name ∈ wanted := by
  unfold mismatch at accepted
  split at accepted
  · rename_i same
    exact fun name => ⟨fun h => same.2 h,fun h => same.1 h⟩
  · cases accepted

theorem named_nodes (rows : List (String × List String)) {names : List (List String)}
    (accepted : (rows.mapM fun row => if blank row.1 then Except.error "Invalid worker id in schedule mapping"
      else if row.2.any blank then .error ("Invalid node id in schedule for worker " ++ repr row.1 ++ ".")
      else .ok row.2) = .ok names) : names = rows.map Prod.snd := by
  induction rows generalizing names with
  | nil =>
      cases accepted
      rfl
  | cons row rest ih =>
      rw [List.mapM_cons] at accepted
      obtain ⟨head,first,accepted⟩ := bind_ok accepted
      obtain ⟨tail,others,accepted⟩ := bind_ok accepted
      cases accepted
      split_ifs at first
      cases first
      rw [List.map_cons,← ih others]

theorem distinct_rows (rows : List (String × List String)) (accepted : rows.forM no_duplicates = .ok ()) :
    ∀ row ∈ rows, row.2.Nodup := by
  intro row member
  have first := (Fallible.forM_ok rows).mp accepted row member
  unfold no_duplicates at first
  split_ifs at first with distinct
  exact distinct

theorem validated {batch : Batch}
    (accepted : validate_schedule repr schedule batch.selected_workers batch.runtime_graph.nodes.keys = .ok ()) :
    Named schedule batch := by
  obtain ⟨_,workers,accepted⟩ := bind_ok accepted
  obtain ⟨names,named,accepted⟩ := bind_ok accepted
  obtain ⟨_,nodes,distinct⟩ := bind_ok accepted
  obtain ⟨rows,each,same⟩ := bind_ok named
  cases same
  rw [named_nodes _ each] at nodes
  refine ⟨mismatch_ok workers,mismatch_ok nodes,fun names member => ?_⟩
  obtain ⟨row,present,rfl⟩ := List.mem_map.mp member
  exact distinct_rows _ distinct row present

theorem Before.earlier {earlier batch : Batch} (same : Unchanged earlier batch) {a b : String}
    (before : Before schedule batch.runtime_graph a b) : Before schedule earlier.runtime_graph a b := by
  cases before with
  | dependency found member node =>
      obtain ⟨old,known,dep,node'⟩ := same.dependencies _ _ found _ member node
      exact .dependency known dep node'
  | worker row order => exact .worker row order

theorem reused_valid {earlier batch : Batch} (planned : Runnable schedule earlier) (named : Named schedule batch)
    (same : Unchanged earlier batch) : Valid schedule batch := by
  refine ⟨named,⟨fun name cycle => planned.acyclic name (Relation.TransGen.mono (fun _ _ => Before.earlier same) _ _ cycle),?_⟩⟩
  intro worker names row name member op found
  have selected := (named.workers worker).mp (Dict.mem_keys_of_entry row)
  obtain ⟨old,known,able⟩ := same.workers worker selected name op found
  exact able (planned.placed worker names row name member old known)

end

section
variable (repr : String → String) (digest : KeyPayload → String)
  (chunk_within_python_timeouts : List WorkflowItem → List (List WorkflowItem))

-- Where a step meets the condition: a new plan can run, and a cached one is used for a batch
-- that asks no more of it.
def Meets (planner : Planner) : Act → Prop
  | .start batch => ∀ entry, planner.cached digest chunk_within_python_timeouts batch = some entry →
      Named entry.schedule batch → Unchanged entry.planned_for batch
  | .plan index _ (some schedule) => ∀ batch state, planner.planning[index]? = some (batch,state) →
      Named schedule batch → Runnable schedule batch
  | _ => True

-- Every cached schedule can run the batch it was planned for, and every reuse was sound.
structure Sound (planner : Planner) : Prop where
  cached : ∀ cache ∈ planner.plan_caches, ∀ key entry, cache.get? key = some entry → Runnable entry.schedule entry.planned_for
  reused : ∀ use ∈ planner.reused, Valid use.2.schedule use.1

variable {repr digest chunk_within_python_timeouts} {planner : Planner}

theorem Sound.found (sound : Sound planner) {batch : Batch} {entry : PlanCacheEntry}
    (hit : planner.cached digest chunk_within_python_timeouts batch = some entry) :
    Runnable entry.schedule entry.planned_for := by
  obtain ⟨state,_,hit⟩ := Option.bind_eq_some_iff.mp hit
  unfold Planner.plan_cache at hit
  rw [List.getD_eq_getElem?_getD] at hit
  cases known : planner.plan_caches[state]? with
  | none =>
      rw [known] at hit
      cases hit
  | some cache =>
      rw [known] at hit
      exact sound.cached cache (List.mem_of_getElem? known) _ entry hit

theorem Sound.start (sound : Sound planner) {batch : Batch}
    (meets : Meets digest chunk_within_python_timeouts planner (.start batch)) :
    Sound (planner.start repr digest chunk_within_python_timeouts batch) := by
  unfold Planner.start
  split
  · exact ⟨sound.cached,sound.reused⟩
  · rename_i entry hit
    split
    · rename_i accepted
      have named := validated accepted
      refine ⟨sound.cached,fun use member => ?_⟩
      rcases List.mem_append.mp member with old | new
      · exact sound.reused use old
      · obtain rfl := List.mem_singleton.mp new
        exact reused_valid (sound.found hit) named (meets entry hit named)
    · exact ⟨sound.cached,sound.reused⟩

theorem Sound.store (sound : Sound planner) {batch : Batch} (state : Option Nat) {entry : PlanCacheEntry}
    (runnable : Runnable entry.schedule entry.planned_for) :
    Sound (planner.store digest chunk_within_python_timeouts batch state entry) := by
  unfold Planner.store
  split
  · exact sound
  · rename_i state
    refine ⟨fun cache member key other found => ?_,sound.reused⟩
    rcases List.mem_or_eq_of_mem_set member with old | rfl
    · exact sound.cached cache old key other found
    · by_cases same : key = cache_key digest chunk_within_python_timeouts batch
      · rw [same,Dict.get?_set_self] at found
        cases found
        exact runnable
      · rw [Dict.get?_set_ne _ _ same] at found
        unfold Planner.plan_cache at found
        rw [List.getD_eq_getElem?_getD] at found
        cases known : planner.plan_caches[state]? with
        | none =>
            rw [known] at found
            cases found
        | some cache =>
            rw [known] at found
            exact sound.cached cache (List.mem_of_getElem? known) key other found

theorem Sound.plan (sound : Sound planner) {index : Nat} {results : Dict String (List Spec)} {schedule : Option Schedule}
    (meets : Meets digest chunk_within_python_timeouts planner (.plan index results schedule)) :
    Sound (planner.plan repr digest chunk_within_python_timeouts index results schedule) := by
  unfold Planner.plan
  split
  · exact sound
  · rename_i batch state open_plan
    have without : Sound { planner with planning := planner.planning.eraseIdx index } := ⟨sound.cached,sound.reused⟩
    cases schedule with
    | none => exact without
    | some schedule =>
        dsimp only
        split
        · rename_i accepted
          exact without.store state (meets batch state open_plan (validated accepted))
        · exact without

theorem sound_apply {act : Act} (sound : Sound planner) (meets : Meets digest chunk_within_python_timeouts planner act) :
    Sound (planner.apply repr digest chunk_within_python_timeouts act) := by
  cases act with
  | register request_id =>
      refine ⟨fun cache member key entry found => ?_,sound.reused⟩
      rcases List.mem_append.mp member with old | new
      · exact sound.cached cache old key entry found
      · obtain rfl := List.mem_singleton.mp new
        cases found
  | drop request_id => exact ⟨sound.cached,sound.reused⟩
  | start batch => exact sound.start meets
  | plan index results schedule => exact sound.plan meets

variable (repr digest chunk_within_python_timeouts)

def MeetsStep (planner : Planner) (act : Act) (after : Planner) : Prop :=
  Meets digest chunk_within_python_timeouts planner act ∧
    after = planner.apply repr digest chunk_within_python_timeouts act

-- Over every history of batches whose steps meet the condition, a reused schedule is valid
-- for the graph and the workers of the batch it is reused for.
theorem reused_plans_valid (acts : List Act)
    (path : Runs (MeetsStep repr digest chunk_within_python_timeouts) {} acts planner) :
    ∀ use ∈ planner.reused, Valid use.2.schedule use.1 := by
  have start : Sound {} := ⟨by simp,by simp⟩
  refine (path.invariant start fun before act after sound step => ?_).reused
  obtain ⟨meets,rfl⟩ := step
  exact sound_apply sound meets

-- Without the condition the validation still answers for the names.
def AllNamed (planner : Planner) : Prop := ∀ use ∈ planner.reused, Named use.2.schedule use.1

theorem named_apply {act : Act} (named : AllNamed planner) :
    AllNamed (planner.apply repr digest chunk_within_python_timeouts act) := by
  cases act with
  | register request_id => exact named
  | drop request_id => exact named
  | start batch =>
      unfold Planner.apply Planner.start
      dsimp only
      split
      · exact named
      · split
        · rename_i accepted
          intro use member
          rcases List.mem_append.mp member with old | new
          · exact named use old
          · obtain rfl := List.mem_singleton.mp new
            exact validated accepted
        · exact named
  | plan index results schedule =>
      unfold Planner.apply Planner.plan
      dsimp only
      split
      · exact named
      · split
        · exact named
        · split
          · unfold Planner.store
            split
            · exact named
            · exact named
          · exact named

theorem reused_plans_named (acts : List Act) :
    AllNamed (acts.foldl (Planner.apply repr digest chunk_within_python_timeouts) {}) := by
  have start : AllNamed {} := by simp [AllNamed]
  refine (Runs.of_foldl (Planner.apply repr digest chunk_within_python_timeouts) {} acts).invariant start ?_
  rintro before act after named rfl
  exact named_apply repr digest chunk_within_python_timeouts named

end

def script : RuntimeOp where
  node_id := "step"
  task_type := "python"
  backend := "python"
  model := ""
  data_spec := []
  model_spec := []
  inference_spec := []

def script_slice (slice_index : Nat) : WorkflowItem where
  workflow_id := "job::script::" ++ toString slice_index
  request_id := "job"
  graph_name := "script"
  public_graph_name := "script"
  slice_index := slice_index
  slice_start := slice_index
  slice_length := 1
  total_length := 2
  template_hash := "t"
  varying_input_keys := ["x"]
  runtime_graph := single_node "step" script
  config := { user_id := "u", principal_id := "u" }
  enqueued_at := 0

def running_python : WorkerProfile := { supported_task_types := ["python"] }

def script_batch (slice_index : Nat) (first second : WorkerProfile) : Batch where
  selected_workers := ["w1","w2"]
  worker_profiles := (Dict.empty.set "w1" first).set "w2" second
  workflows := [script_slice slice_index]
  member_request_ids := ["job"]
  runtime_graphs := Dict.empty.set "script" (single_node "step" script)
  runtime_graph := single_node "step" script
  merged := ⟨_,_,rfl⟩

def step_on_first : Schedule := ⟨(Dict.empty.set "w1" ["step"]).set "w2" []⟩

-- The slices of one request, planned and run one after the other.
def script_batches (later : Batch) : List Act :=
  [.register "job",.start (script_batch 0 running_python {}),.plan 0 Dict.empty (some step_on_first),.start later]

def plain_key (payload : KeyPayload) : String :=
  list_text id (payload.workers ++ payload.groups.flatMap (fun g => g.template_hash :: g.requests ++ g.public_graphs))

def in_one_chunk (workflows : List WorkflowItem) : List (List WorkflowItem) := [workflows]

def moved_python : Batch := script_batch 1 {} running_python

-- The second worker takes the task type over between two slices; the plan of the first slice is
-- reused and leaves the node where it cannot run.
theorem reused_plan_misplaced : ¬∀ repr digest chunk_within_python_timeouts, ∀ acts : List Act,
    ∀ use ∈ (acts.foldl (Planner.apply repr digest chunk_within_python_timeouts) {}).reused, Valid use.2.schedule use.1 := by
  intro claim
  have valid := claim id plain_key in_one_chunk (script_batches moved_python)
  have checked : (((script_batches moved_python).foldl (Planner.apply id plain_key in_one_chunk) {}).reused.map fun use =>
      (use.2.schedule.worker_assignment.entries,use.1.runtime_graph.nodes.get? "step",
        compatible (use.1.profile "w1") script)) = [([("w1",["step"]),("w2",[])],some script,false)] := by decide +kernel
  obtain ⟨use,only,facts⟩ := List.map_eq_singleton_iff.mp checked
  simp only [Prod.mk.injEq] at facts
  obtain ⟨rows,node,unable⟩ := facts
  have placed := (valid use (only ▸ List.mem_singleton_self use)).placed "w1" ["step"] (by simp [rows]) "step" (by simp) script node
  rw [unable] at placed
  cases placed

theorem step_compatible : compatible running_python script = true := by decide +kernel

theorem step_on_first_runnable (slice_index : Nat) : Runnable step_on_first (script_batch slice_index running_python {}) := by
  have rows : step_on_first.worker_assignment.entries = [("w1",["step"]),("w2",[])] := by decide
  constructor
  · have none_before : ∀ a b, ¬Before step_on_first (single_node "step" script) a b := by
      intro a b before
      cases before with
      | dependency found dep _ =>
          have only : b = "step" := List.mem_singleton.mp (Dict.mem_keys_iff.mpr ⟨_,found⟩)
          subst only
          cases found
          cases dep
      | worker row order =>
          rw [rows] at row
          have short := order.length_le
          simp only [List.mem_cons,Prod.mk.injEq,List.not_mem_nil,or_false] at row
          rcases row with ⟨_,rfl⟩ | ⟨_,rfl⟩ <;> simp at short
    intro name cycle
    obtain ⟨next,first,_⟩ := Relation.TransGen.head'_iff.mp cycle
    exact none_before _ _ first
  · intro worker names row name member op found
    rw [rows] at row
    have only : name = "step" := List.mem_singleton.mp (Dict.mem_keys_iff.mpr ⟨_,found⟩)
    subst only
    cases found
    simp only [List.mem_cons,Prod.mk.injEq,List.not_mem_nil,or_false] at row
    rcases row with ⟨rfl,rfl⟩ | ⟨rfl,rfl⟩
    · exact step_compatible
    · cases member

theorem script_batch_unchanged (earlier later : Nat) :
    Unchanged (script_batch earlier running_python {}) (script_batch later running_python {}) :=
  ⟨fun _ op found _ member node => ⟨op,found,member,node⟩,fun _ _ _ op found => ⟨op,found,fun able => able⟩⟩

def planner_at (n : Nat) : Planner :=
  ((script_batches (script_batch 1 running_python {})).take n).foldl (Planner.apply id plain_key in_one_chunk) {}

theorem same_key : cache_key plain_key in_one_chunk (script_batch 1 running_python {}) =
    cache_key plain_key in_one_chunk (script_batch 0 running_python {}) := by decide +kernel

theorem later_hit : (planner_at 3).cached plain_key in_one_chunk (script_batch 1 running_python {}) =
    some ⟨Dict.empty,step_on_first,script_batch 0 running_python {}⟩ := by
  change (Dict.empty.set (cache_key plain_key in_one_chunk (script_batch 0 running_python {})) _).get?
    (cache_key plain_key in_one_chunk (script_batch 1 running_python {})) = _
  rw [same_key,Dict.get?_set_self]

theorem reused_plans_valid_script : ∃ use ∈ (planner_at 4).reused, Valid use.2.schedule use.1 := by
  have missed : ∀ entry, (planner_at 1).cached plain_key in_one_chunk (script_batch 0 running_python {}) ≠ some entry := by
    intro entry hit
    cases hit
  have path : Runs (MeetsStep id plain_key in_one_chunk) {}
      ((([] ++ [.register "job"]) ++ [.start (script_batch 0 running_python {})]) ++ [.plan 0 Dict.empty (some step_on_first)] ++
        [.start (script_batch 1 running_python {})]) (planner_at 4) := by
    have registered : MeetsStep id plain_key in_one_chunk {} (.register "job") (planner_at 1) := ⟨trivial,rfl⟩
    have started : MeetsStep id plain_key in_one_chunk (planner_at 1) (.start (script_batch 0 running_python {}))
        (planner_at 2) := ⟨fun entry hit => absurd hit (missed entry),rfl⟩
    have planned : MeetsStep id plain_key in_one_chunk (planner_at 2) (.plan 0 Dict.empty (some step_on_first))
        (planner_at 3) := by
      refine ⟨?_,rfl⟩
      intro batch state waiting _
      cases waiting
      exact step_on_first_runnable 0
    have reused : MeetsStep id plain_key in_one_chunk (planner_at 3) (.start (script_batch 1 running_python {}))
        (planner_at 4) := by
      refine ⟨?_,rfl⟩
      intro entry hit _
      rw [later_hit] at hit
      cases hit
      exact script_batch_unchanged 0 1
    exact .snoc (.snoc (.snoc (.snoc .nil registered) started) planned) reused
  have reuse : (planner_at 4).reused.length = 1 := by decide +kernel
  obtain ⟨use,only⟩ := List.length_eq_one_iff.mp reuse
  exact ⟨use,only ▸ List.mem_singleton_self use,reused_plans_valid _ _ _ _ path use (only ▸ List.mem_singleton_self use)⟩

end Lumilake.Server.PlanCache

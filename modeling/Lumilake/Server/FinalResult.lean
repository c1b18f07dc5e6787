import Lumilake.Library.Selection
import Lumilake.Server.RequestOutcomes
import Lumilake.Server.SliceReassembly

namespace Lumilake.Server
open Tiling Fallible
variable {str : Value → String} {required_cpu required_gpu : Nat} {q : CutRequest}
  {size : String → String → String → Nat} {list_lambda : String → Dict String (List String)}

theorem workflows_held {b : BatchResults} (workflows : List WorkflowItem) {requests after : Requests} {state : RequestState}
    {got : List Ended}
    (fits : ∀ w ∈ workflows, Fits (size w.request_id) (((list_lambda w.request_id).get? w.workflow_id).getD []) w)
    (own : ∀ w ∈ workflows, w.request_id = q.request_id → w ∈ q.slices) (known : ∀ e ∈ got, e.1 ∈ q.slices)
    (distinct : (ended_ids got ++ (workflows_of q.request_id workflows).map WorkflowItem.workflow_id).Nodup)
    (orderly : orderly_requests size list_lambda requests) (here : requests.get? q.request_id = some state)
    (holds : Holds (size q.request_id) q got state) (folded : workflows.foldlM (step_workflow b) requests = .ok after) :
    ∃ state', after.get? q.request_id = some state' ∧
      Holds (size q.request_id) q (got ++ (workflows_of q.request_id workflows).map (fun w => (w,b.brought w))) state' ∧
      state'.outputs = state.outputs ∧ state'.results = state.results := by
  induction workflows generalizing requests state got with
  | nil =>
      cases folded
      exact ⟨state,here,by simpa [workflows_of] using holds,rfl,rfl⟩
  | cons w workflows ih =>
      obtain ⟨middle,stepped,kept,_,frame,moved⟩ := step_orderly (b := b) (fits w List.mem_cons_self) orderly
      have fits_rest := fun v member => fits v (List.mem_cons_of_mem w member)
      have own_rest := fun v member => own v (List.mem_cons_of_mem w member)
      rw [List.foldlM_cons,stepped] at folded
      by_cases mine : w.request_id = q.request_id
      · have first : workflows_of q.request_id (w :: workflows) = w :: workflows_of q.request_id workflows := by
          simp [workflows_of,mine]
        rw [first] at distinct ⊢
        have member := own w List.mem_cons_self mine
        have fresh : w.workflow_id ∉ ended_ids got := by
          intro old
          exact (List.nodup_append.mp distinct).2.2 _ old _ List.mem_cons_self rfl
        obtain ⟨next,handled,there⟩ := moved state (mine ▸ here)
        have ordered := orderly _ _ here
        have names : list_lambda_names state w = ((list_lambda w.request_id).get? w.workflow_id).getD [] := by
          rw [list_lambda_names,ordered.list_lambda,mine]
        obtain ⟨held,outputs,results⟩ := handle_workflow_held holds member fresh known
          (names ▸ mine ▸ fits w List.mem_cons_self) handled
        have known' : ∀ e ∈ got ++ [(w,b.brought w)], e.1 ∈ q.slices := by
          intro e inside
          rcases List.mem_append.mp inside with old | new
          · exact known e old
          · rw [List.mem_singleton.mp new]; exact member
        obtain ⟨state',last,final,outputs',results'⟩ := ih fits_rest own_rest known'
          (by simpa [ended_ids] using distinct) kept (mine ▸ there) held folded
        exact ⟨state',last,by simpa using final,outputs'.trans outputs,results'.trans results⟩
      · have skipped : workflows_of q.request_id (w :: workflows) = workflows_of q.request_id workflows := by
          simp [workflows_of,mine]
        rw [skipped] at distinct ⊢
        exact ih fits_rest own_rest known distinct kept ((frame q.request_id (Ne.symm mine)).trans here) holds folded

variable (str) in
-- A whole batch of results, seen from the request `q`.
theorem batch_settled {b : BatchResults} {requests : Requests} {state : RequestState} {got : List Ended}
    (fits : ∀ w ∈ b.workflows, Fits (size w.request_id) (((list_lambda w.request_id).get? w.workflow_id).getD []) w)
    (own : ∀ w ∈ b.workflows, w.request_id = q.request_id → w ∈ q.slices) (known : ∀ e ∈ got, e.1 ∈ q.slices)
    (distinct : (ended_ids got ++ (workflows_of q.request_id b.workflows).map WorkflowItem.workflow_id).Nodup)
    (orderly : orderly_requests size list_lambda requests) (here : requests.get? q.request_id = some state)
    (holds : Holds (size q.request_id) q got state) :
    ∃ after, handle_batch_results str requests b = .ok after ∧ orderly_requests size list_lambda after ∧
      if workflows_of q.request_id b.workflows = [] then after.get? q.request_id = some state
      else ∃ next, after.get? q.request_id = some (finish_request str next) ∧
        Holds (size q.request_id) q (got ++ (workflows_of q.request_id b.workflows).map (fun w => (w,b.brought w))) next ∧
        next.outputs = state.outputs ∧ next.results = state.results := by
  obtain ⟨middle,folded,kept,_,frame⟩ := workflows_orderly (b := b) b.workflows fits orderly
  let affected := ((b.workflows.map WorkflowItem.request_id).filter (· ∈ requests)).dedup
  have each : affected.Nodup := List.nodup_dedup _
  have present : q.request_id ∈ requests := Dict.mem_keys_iff.mpr ⟨state,here⟩
  have affects : q.request_id ∈ affected ↔ workflows_of q.request_id b.workflows ≠ [] := by
    simp only [affected,List.mem_dedup,List.mem_filter,List.mem_map,decide_eq_true_eq,present,and_true,ne_eq,
      workflows_of,List.filter_eq_nil_iff,not_forall,not_not]
    exact ⟨fun ⟨w,member,same⟩ => ⟨w,member,same⟩,fun ⟨w,member,same⟩ => ⟨w,member,same⟩⟩
  refine ⟨affected.foldl (update_request (finish_request str)) (affected.foldl (update_request (report_task_nodes b)) middle),
    ?_,?_,?_⟩
  · unfold handle_batch_results
    rw [folded]
    rfl
  · have reported := update_orderly (fun r state => report_orderly (b := b)) each kept
    exact update_orderly (fun r state orderly => show Orderly _ _ (finish_request str state) from finish_orderly orderly)
      each reported
  · rw [Dict.get?_foldl_own _ _ (update_own _) each,Dict.get?_foldl_own _ _ (update_own _) each]
    split
    · rename_i none_own
      rw [if_neg (fun inside => affects.mp inside none_own),if_neg (fun inside => affects.mp inside none_own)]
      refine (frame _ ?_).trans here
      intro w member mine
      have inside : w ∈ workflows_of q.request_id b.workflows := List.mem_filter.mpr ⟨member,by simpa using mine⟩
      rw [none_own] at inside
      cases inside
    · rename_i some_own
      rw [if_pos (affects.mpr some_own),if_pos (affects.mpr some_own)]
      obtain ⟨state',there,held,outputs,results⟩ := workflows_held b.workflows fits own known distinct orderly here holds folded
      have told : Told state' (report_task_nodes b state') := report_task_nodes_told
      exact ⟨report_task_nodes b state',by rw [there]; rfl,
        held.congr told.pending told.ready told.lambdas told.buffers,
        told.outputs.trans outputs,told.results.trans results⟩

-- A loop that updates the request of each workflow, seen from one request.
theorem update_loop (update : WorkflowItem → RequestState → RequestState) (request_id : String) (workflows : List WorkflowItem)
    (requests : Requests) :
    (workflows.foldl (fun requests w => update_request (update w) requests w.request_id) requests).get? request_id =
      (requests.get? request_id).map (fun state => (workflows_of request_id workflows).foldl (fun s w => update w s) state) := by
  induction workflows generalizing requests with
  | nil => simp [workflows_of]
  | cons w rest ih =>
      rw [List.foldl_cons,ih,update_own]
      by_cases mine : w.request_id = request_id
      · subst mine
        simp [workflows_of,Function.comp_def]
      · simp [workflows_of,mine,Ne.symm mine]

theorem update_loop_orderly (update : WorkflowItem → RequestState → RequestState)
    (kept : ∀ w r state, Orderly (size r) (list_lambda r) state → Orderly (size r) (list_lambda r) (update w state))
    (workflows : List WorkflowItem) {requests : Requests} (orderly : orderly_requests size list_lambda requests) :
    orderly_requests size list_lambda
      (workflows.foldl (fun requests w => update_request (update w) requests w.request_id) requests) := by
  induction workflows generalizing requests with
  | nil => exact orderly
  | cons w rest ih =>
      refine ih ?_
      intro r state found
      rw [update_own] at found
      split at found
      · rename_i same
        obtain ⟨before,seen,rfl⟩ := Option.map_eq_some_iff.mp found
        exact kept w r before (orderly r before (same ▸ seen))
      · exact orderly r state found

theorem marks_held (required_cpu required_gpu : Nat) (workflows : List WorkflowItem) {state : RequestState} {got : List Ended}
    (holds : Holds (size q.request_id) q got state) :
    let marked := workflows.foldl (fun s w => mark_unplaceable required_cpu required_gpu w s) state
    Holds (size q.request_id) q (got ++ workflows.map (fun w => (w,none))) marked ∧ marked.outputs = state.outputs ∧
      marked.results = state.results := by
  induction workflows generalizing state got with
  | nil => exact ⟨by simpa using holds,rfl,rfl⟩
  | cons w rest ih =>
      have held : Holds (size q.request_id) q (got ++ [(w,none)]) (mark_unplaceable required_cpu required_gpu w state) :=
        holds.bare rfl rfl rfl rfl
      obtain ⟨last,outputs,results⟩ := ih held
      exact ⟨by simpa using last,outputs,results⟩

-- The second loop answers once for every workflow in the list.
theorem puts_repeat (workflows : List WorkflowItem) (state : RequestState) :
    workflows.foldl (fun s _ => put_placement_failure s) state =
      if state.pending_workflows = ∅ ∧ state.ready = true then
        { state with results := state.results ++
          List.replicate workflows.length ⟨state.outputs,state.error_info,some state.chat_histories⟩ }
      else state := by
  induction workflows generalizing state with
  | nil => simp
  | cons w rest ih =>
      rw [List.foldl_cons,ih]
      unfold put_placement_failure
      by_cases ended : state.pending_workflows = ∅ ∧ state.ready = true
      · simp [ended,put_result,List.replicate_succ]
      · simp [ended]

variable (required_cpu required_gpu) in
theorem unplaceable_orderly {requests : Requests} (workflows : List WorkflowItem)
    (orderly : orderly_requests size list_lambda requests) :
    orderly_requests size list_lambda (fail_unplaceable_batch required_cpu required_gpu requests workflows) := by
  refine update_loop_orderly (fun _ => put_placement_failure) ?_ workflows
    (update_loop_orderly (mark_unplaceable required_cpu required_gpu) ?_ workflows orderly)
  · intro w r state orderly
    unfold put_placement_failure
    split
    · exact ⟨orderly.outputs,orderly.histories,orderly.list_lambda⟩
    · exact orderly
  · exact fun w r state orderly => ⟨orderly.outputs,orderly.histories,orderly.list_lambda⟩

-- The placement failure, seen from the request `q`.
theorem unplaceable_settled {workflows : List WorkflowItem} {requests : Requests} {state : RequestState} {got : List Ended}
    (orderly : orderly_requests size list_lambda requests) (here : requests.get? q.request_id = some state)
    (holds : Holds (size q.request_id) q got state) :
    orderly_requests size list_lambda (fail_unplaceable_batch required_cpu required_gpu requests workflows) ∧
    ∃ marked, Holds (size q.request_id) q (got ++ (workflows_of q.request_id workflows).map (fun w => (w,none))) marked ∧
      marked.outputs = state.outputs ∧ marked.results = state.results ∧
      (fail_unplaceable_batch required_cpu required_gpu requests workflows).get? q.request_id =
        some (if marked.pending_workflows = ∅ then
          { marked with
            results := marked.results ++ List.replicate (workflows_of q.request_id workflows).length
              ⟨marked.outputs,marked.error_info,some marked.chat_histories⟩ }
        else marked) := by
  obtain ⟨held,outputs,results⟩ := marks_held required_cpu required_gpu (workflows_of q.request_id workflows) holds
  constructor
  · exact unplaceable_orderly required_cpu required_gpu workflows orderly
  · refine ⟨_,held,outputs,results,?_⟩
    unfold fail_unplaceable_batch
    dsimp only
    rw [update_loop (fun _ => put_placement_failure),update_loop (mark_unplaceable required_cpu required_gpu),here,
      Option.map_some,Option.map_some,puts_repeat]
    simp only [held.ready,and_true]

def result_cell (response : LumilakeResponse) (g name : String) (i : Nat) : Option Value :=
  match (response.outputs.get? g).bind (Dict.get? · name) with
  | some (.list items) => items[i]?
  | _ => none

-- Every output value of every slice that succeeded, each in a cell of its own; a row-wise
-- one in its row.
def Contains (str : Value → String) (q : CutRequest) (got : List Ended) (response : LumilakeResponse) : Prop :=
  ∃ place : WorkflowItem → String → Nat → Nat,
    (∀ w name i v, Succeeded q got w name i v →
      result_cell response w.public_graph_name name (place w name i) = some (final_output str v)) ∧
    (∀ w name i, name ∉ q.list_lambdas w.public_graph_name → place w name i = w.slice_start + i) ∧
    ∀ w w' name i i' v v', Succeeded q got w name i v → Succeeded q got w' name i' v' →
      w.public_graph_name = w'.public_graph_name → place w name i = place w' name i' → w = w' ∧ i = i'

-- No result while a workflow is pending, then one, with everything that succeeded.
structure Answered (str : Value → String) (q : CutRequest) (got : List Ended) (state : RequestState) : Prop where
  waiting : state.pending_workflows ≠ ∅ → state.results = []
  answered : state.pending_workflows = ∅ → ∃ response, state.results = [response] ∧ Contains str q got response

-- What a list-mode Lambda's slice brought, no other slice of its graph has brought too, and
-- what the graph's slices brought last under that name reads the same.
def Unclashed (str : Value → String) (q : CutRequest) (got : List Ended) : Prop :=
  ∀ w name i v, name ∈ q.list_lambdas w.public_graph_name → Succeeded q got w name i v →
    (∀ w' i' v', w'.public_graph_name = w.public_graph_name → Succeeded q got w' name i' v' → w' = w) ∧
    ∀ x, last_single got w.public_graph_name name = some x → final_output str x = final_output str v

-- A placement failure that ends a request is harmless for a single workflow of a
-- request that has no output value yet.
def Harmless (q : CutRequest) (got : List Ended) (workflows : List WorkflowItem) : Prop :=
  (workflows_of q.request_id workflows).length = 1 ∧ ∀ w name i v, ¬ Succeeded q got w name i v

-- A placement failure of all the slices that are left.
def Takes (q : CutRequest) (got : List Ended) (workflows : List WorkflowItem) : Prop :=
  (∃ w ∈ q.slices, w.workflow_id ∉ ended_ids got) ∧ ∀ w ∈ q.slices, w.workflow_id ∉ ended_ids got →
    w.workflow_id ∈ (workflows_of q.request_id workflows).map WorkflowItem.workflow_id

def EndsHarmless (q : CutRequest) (events : List Outcome) : Prop :=
  ∀ earlier workflows later, events = earlier ++ .unplaceable workflows :: later →
    Takes q (ended_of q.request_id earlier) workflows → Harmless q (ended_of q.request_id earlier) workflows

theorem ends_snoc {events : List Outcome} {e : Outcome} :
    EndsHarmless q (events ++ [e]) ↔ EndsHarmless q events ∧ ∀ workflows, e = .unplaceable workflows →
      Takes q (ended_of q.request_id events) workflows → Harmless q (ended_of q.request_id events) workflows := by
  constructor
  · intro all
    refine ⟨fun earlier workflows later same => all earlier workflows (later ++ [e]) ?_,
      fun workflows same => all events workflows [] ?_⟩
    · rw [same]; simp
    · rw [same]
  · rintro ⟨old,last⟩ earlier workflows later same
    rcases List.eq_nil_or_concat later with rfl | ⟨more,y,rfl⟩
    · obtain ⟨rfl,heads⟩ := List.append_inj' same rfl
      exact last workflows (List.singleton_inj.mp heads)
    · have regrouped : events ++ [e] = (earlier ++ .unplaceable workflows :: more) ++ [y] := by
        rw [same]; simp
      exact old earlier workflows more (List.append_inj' regrouped rfl).1

-- Where the request stands after a run.
structure Stage (str : Value → String) (size : String → String → Nat) (q : CutRequest) (events : List Outcome)
    (state : RequestState) : Prop where
  holds : Holds size q (ended_of q.request_id events) state
  waiting : state.pending_workflows ≠ ∅ → state.outputs = Dict.empty ∧ state.results = [] ∧ EndsHarmless q events
  ended : state.pending_workflows = ∅ → (Answered str q (ended_of q.request_id events) state ↔
    EndsHarmless q events ∧ Unclashed str q (ended_of q.request_id events))

theorem ended_snoc (request_id : String) (events : List Outcome) (e : Outcome) :
    ended_of request_id (events ++ [e]) = ended_of request_id events ++ ended_of request_id [e] := by
  simp [ended_of]

theorem ended_results (request_id : String) (b : BatchResults) :
    ended_of request_id [.results b] = (workflows_of request_id b.workflows).map (fun w => (w,b.brought w)) := by
  simp [ended_of,Outcome.ended,workflows_of,List.filter_map,Function.comp_def]

theorem ended_unplaceable (request_id : String) (workflows : List WorkflowItem) :
    ended_of request_id [.unplaceable workflows] = (workflows_of request_id workflows).map (fun w => (w,none)) := by
  simp [ended_of,Outcome.ended,workflows_of,List.filter_map,Function.comp_def]

-- What is answered is what the buffers hold.
theorem result_of_cell {buffers : Buffers} (response : LumilakeResponse)
    (finalized : response.outputs = finalize_buffers (final_output str) buffers) (g name : String) (i : Nat) :
    result_cell response g name i = (cell buffers g name i).map (final_output str) := by
  cases here : cell buffers g name i with
  | some v =>
      obtain ⟨outputs,found,inside⟩ := Option.bind_eq_some_iff.mp here
      obtain ⟨target,seen,at_i⟩ := Option.bind_eq_some_iff.mp inside
      unfold result_cell
      rw [finalized,finalize_lookup _ found seen]
      simp only [List.getElem?_map,at_i]
  | none =>
      unfold result_cell
      split
      · rename_i items entry
        rw [finalized] at entry
        obtain ⟨outputs,target,found,seen,rfl⟩ := finalize_found entry
        rw [cell,found,Option.bind_some,cell_in,seen,Option.bind_some] at here
        rw [List.getElem?_map,here]
      · rfl

theorem one_cell {buffers : Buffers} {size : String → String → Nat} (sized : Sized size buffers) (one : size g name = 1)
    (here : cell buffers g name i = some v) : i = 0 := by
  obtain ⟨outputs,found,inside⟩ := Option.bind_eq_some_iff.mp here
  obtain ⟨target,seen,at_i⟩ := Option.bind_eq_some_iff.mp inside
  have length := (sized g outputs name target found seen).trans one
  have below := (List.getElem?_eq_some_iff.mp at_i).1
  omega

theorem single_of_length {values : List Value} (one : values.length = 1) (here : values[i]? = some v) : i = 0 ∧ values = [v] := by
  obtain ⟨x,rfl⟩ := List.length_eq_one_iff.mp one
  have below := (List.getElem?_eq_some_iff.mp here).1
  obtain rfl : i = 0 := by simpa using below
  cases here
  exact ⟨rfl,rfl⟩

-- A value of a list-mode Lambda that succeeded came alone.
theorem succeeded_single {got : List Ended} (listed : name ∈ q.list_lambdas w.public_graph_name)
    (succeeded : Succeeded q got w name i v) :
    i = 0 ∧ ∃ payload, (w,some payload) ∈ got ∧ single_of w.public_graph_name name (w,some payload) = some v := by
  obtain ⟨payload,values,member,whole,found,here⟩ := succeeded
  obtain ⟨first,rfl⟩ := single_of_length ((whole name values found).trans (if_pos listed)) here
  exact ⟨first,payload,member,single_of_some.mpr ⟨rfl,found⟩⟩

theorem last_single_exists {got : List Ended} {e : Ended} (member : e ∈ got) (single : single_of g name e = some v) :
    ∃ x, last_single got g name = some x := by
  have inside : v ∈ got.filterMap (single_of g name) := List.mem_filterMap.mpr ⟨e,member,single⟩
  exact ⟨_,List.getLast?_eq_some_getLast (List.ne_nil_of_mem inside)⟩

-- The finalization answers with all that succeeded, unless list-mode Lambdas' values clash.
theorem contains_iff {got : List Ended} {state : RequestState} {size : String → String → Nat} (holds : Holds size q got state)
    (known : ∀ e ∈ got, e.1 ∈ q.slices) (response : LumilakeResponse)
    (finalized : response.outputs = finalize_buffers (final_output str) state.output_buffers) :
    Contains str q got response ↔ Unclashed str q got := by
  have cells := result_of_cell response finalized
  constructor
  · rintro ⟨place,inside,_,apart⟩ w name i v listed succeeded
    have first : ∀ w' i' v', w'.public_graph_name = w.public_graph_name → Succeeded q got w' name i' v' →
        place w' name i' = 0 ∧ (cell state.output_buffers w.public_graph_name name 0).map (final_output str) =
          some (final_output str v') := by
      intro w' i' v' same succeeded'
      have there := inside w' name i' v' succeeded'
      rw [cells] at there
      obtain ⟨x,here,_⟩ := Option.map_eq_some_iff.mp there
      obtain ⟨_,payload,member,_⟩ := succeeded_single (same ▸ listed) succeeded'
      have zero := one_cell holds.sized (holds.narrow w' payload member name (same ▸ listed)) here
      rw [zero,same] at there
      exact ⟨zero,there⟩
    constructor
    · intro w' i' v' same succeeded'
      exact (apart w' w name i' i v' v succeeded' succeeded same
        ((first w' i' v' same succeeded').1.trans (first w i v rfl succeeded).1.symm)).1
    · intro x last
      have there := (first w i v rfl succeeded).2
      rw [holds.singles _ name x listed last] at there
      exact Option.some.inj there
  · intro clean
    refine ⟨fun w name i => if name ∈ q.list_lambdas w.public_graph_name then 0 else w.slice_start + i,?_,
      fun w name i rows => if_neg rows,?_⟩
    · intro w name i v succeeded
      dsimp only
      rw [cells]
      split
      · rename_i listed
        obtain ⟨_,payload,member,single⟩ := succeeded_single listed succeeded
        obtain ⟨x,last⟩ := last_single_exists member single
        rw [holds.singles _ name x listed last]
        exact congrArg some ((clean w name i v listed succeeded).2 x last)
      · rename_i rows
        obtain ⟨payload,values,member,whole,found,here⟩ := succeeded
        rw [holds.rows w payload member name values found rows ((whole name values found).trans (if_neg rows)) i v here]
        rfl
    · intro w w' name i i' v v' succeeded succeeded' same placed
      dsimp only at placed
      rw [← same] at placed
      by_cases listed : name ∈ q.list_lambdas w.public_graph_name
      · obtain rfl := (clean w' name i' v' (same ▸ listed) succeeded').1 w i v same succeeded
        exact ⟨rfl,(succeeded_single listed succeeded).1.trans (succeeded_single listed succeeded').1.symm⟩
      · rw [if_neg listed,if_neg listed] at placed
        obtain ⟨payload,values,member,whole,found,here⟩ := succeeded
        obtain ⟨payload',values',member',whole',found',here'⟩ := succeeded'
        have length := (whole name values found).trans (if_neg listed)
        have length' := (whole' name values' found').trans (if_neg (same ▸ listed))
        have below := (List.getElem?_eq_some_iff.mp here).1
        have below' := (List.getElem?_eq_some_iff.mp here').1
        obtain rfl : w = w' := by
          by_contra different
          refine rows_apart q (known _ member) (known _ member') different same (j := w.slice_start + i) ?_ ?_
          · exact ⟨Nat.le_add_right _ _,by dsimp only; omega⟩
          · rw [placed]
            exact ⟨Nat.le_add_right _ _,by dsimp only; omega⟩
        exact ⟨rfl,by omega⟩

variable (str) in
theorem finish_answers {got : List Ended} {state : RequestState} {size : String → String → Nat} (holds : Holds size q got state)
    (known : ∀ e ∈ got, e.1 ∈ q.slices) (quiet : state.results = []) (ended : state.pending_workflows = ∅) :
    Holds size q got (finish_request str state) ∧ (finish_request str state).pending_workflows = ∅ ∧
      (Answered str q got (finish_request str state) ↔ Unclashed str q got) := by
  have finished : finish_request str state = put_result (finalize_state str state) := if_pos ⟨ended,holds.ready⟩
  rw [finished]
  have one : (put_result (finalize_state str state)).results =
      [⟨(finalize_state str state).outputs,(finalize_state str state).error_info,some (finalize_state str state).chat_histories⟩] := by
    change state.results ++ [_] = _
    rw [quiet]
    rfl
  refine ⟨holds.congr rfl rfl rfl rfl,ended,?_⟩
  rw [← contains_iff holds known ⟨(finalize_state str state).outputs,(finalize_state str state).error_info,
    some (finalize_state str state).chat_histories⟩ rfl]
  constructor
  · intro answered
    obtain ⟨response,only,all⟩ := answered.answered ended
    obtain rfl := List.singleton_inj.mp (one.symm.trans only)
    exact all
  · exact fun all => ⟨fun open_ => absurd ended open_,fun _ => ⟨_,one,all⟩⟩

theorem finish_waits {state : RequestState} (open_ : state.pending_workflows ≠ ∅) : finish_request str state = state :=
  if_neg (fun both => open_ both.1)

section
variable {requests before : Requests} {events : List Outcome} {state : RequestState} {size₁ : String → String → Nat}

-- An event without a workflow of the request changes nothing for it.
theorem stage_passes {e : Outcome} (stage : Stage str size₁ q events state) (apart : ended_of q.request_id [e] = []) :
    Stage str size₁ q (events ++ [e]) state := by
  have same : ended_of q.request_id (events ++ [e]) = ended_of q.request_id events := by rw [ended_snoc,apart,List.append_nil]
  have ends : EndsHarmless q (events ++ [e]) ↔ EndsHarmless q events := by
    rw [ends_snoc]
    refine ⟨And.left,fun old => ⟨old,?_⟩⟩
    rintro workflows rfl ⟨⟨w,member,open_⟩,all⟩
    rw [ended_unplaceable,List.map_eq_nil_iff] at apart
    have taken := all w member open_
    rw [apart] at taken
    cases taken
  refine ⟨same ▸ stage.holds,?_,?_⟩
  · rw [ends]; exact stage.waiting
  · rw [ends,same]; exact stage.ended

theorem still_open {got more : List Ended} (known : ∀ e ∈ got ++ more, e.1 ∈ q.slices)
    (distinct : (ended_ids (got ++ more)).Nodup) (some_more : more ≠ []) (holds : Holds size₁ q got state) :
    state.pending_workflows ≠ ∅ := by
  obtain ⟨e,member⟩ := List.exists_mem_of_ne_nil _ some_more
  rw [ended_ids,List.map_append,List.nodup_append] at distinct
  have waiting : e.1.workflow_id ∈ state.pending_workflows :=
    (holds.pending _).mpr ⟨List.mem_map_of_mem (known e (List.mem_append_right _ member)),
      fun old => distinct.2.2 _ old _ (List.mem_map.mpr ⟨e,member,rfl⟩) rfl⟩
  exact fun empty => by rw [empty] at waiting; cases waiting

theorem unplaceable_passes {workflows : List WorkflowItem} (none_own : workflows_of q.request_id workflows = []) :
    (fail_unplaceable_batch required_cpu required_gpu before workflows).get? q.request_id = before.get? q.request_id := by
  unfold fail_unplaceable_batch
  dsimp only
  rw [update_loop (fun _ => put_placement_failure),update_loop (mark_unplaceable required_cpu required_gpu),none_own]
  simp

-- A placement failure brings no value.
theorem succeeded_marked {got : List Ended} {workflows : List WorkflowItem} {w : WorkflowItem} :
    Succeeded q (got ++ workflows.map (fun w => (w,none))) w name i v ↔ Succeeded q got w name i v := by
  unfold Succeeded
  simp only [List.mem_append,List.mem_map,Prod.mk.injEq,reduceCtorEq,and_false,exists_false,or_false]

-- One bare result for each workflow: right for a single workflow with nothing to report.
theorem placement_answers {got : List Ended} {marked : RequestState} {workflows : List WorkflowItem}
    (bare : marked.outputs = Dict.empty) (quiet : marked.results = []) (ended : marked.pending_workflows = ∅) :
    Answered str q (got ++ (workflows_of q.request_id workflows).map (fun w => (w,none)))
      { marked with
        results := marked.results ++ List.replicate (workflows_of q.request_id workflows).length
          ⟨marked.outputs,marked.error_info,some marked.chat_histories⟩ } ↔
      Harmless q got workflows := by
  have no_cell : ∀ g name i, result_cell ⟨marked.outputs,marked.error_info,some marked.chat_histories⟩ g name i = none := by
    intro g name i
    rw [result_cell,bare]
    rfl
  constructor
  · intro answered
    obtain ⟨response,one,place,all,_⟩ := answered.answered ended
    dsimp only at one
    rw [quiet,List.nil_append] at one
    have length := congrArg List.length one
    rw [List.length_replicate] at length
    refine ⟨length,fun w name i v succeeded => ?_⟩
    rw [length] at one
    cases one
    have there := all w name i v (succeeded_marked.mpr succeeded)
    rw [no_cell] at there
    cases there
  · rintro ⟨alone,nothing⟩
    refine ⟨fun open_ => absurd ended open_,fun _ => ?_⟩
    have none_yet : ∀ w name i v, ¬ Succeeded q (got ++ (workflows_of q.request_id workflows).map (fun w => (w,none))) w name i v :=
      fun w name i v succeeded => nothing w name i v (succeeded_marked.mp succeeded)
    refine ⟨⟨marked.outputs,marked.error_info,some marked.chat_histories⟩,?_,fun w _ i => w.slice_start + i,?_,?_,?_⟩
    · dsimp only
      rw [quiet,alone]
      rfl
    · exact fun w name i v succeeded => absurd succeeded (none_yet w name i v)
    · exact fun _ _ _ _ => rfl
    · exact fun w _ name i _ v _ succeeded => absurd succeeded (none_yet w name i v)

-- The failure takes the rest of the request when nothing is pending afterwards.
theorem takes_iff {got : List Ended} {marked : RequestState} {workflows : List WorkflowItem} (holds : Holds size₁ q got state)
    (open_ : state.pending_workflows ≠ ∅)
    (held : Holds size₁ q (got ++ (workflows_of q.request_id workflows).map (fun w => (w,none))) marked) :
    Takes q got workflows ↔ marked.pending_workflows = ∅ := by
  have left : ∀ id, id ∈ marked.pending_workflows ↔ (id ∈ q.slices.map WorkflowItem.workflow_id ∧ id ∉ ended_ids got) ∧
      id ∉ (workflows_of q.request_id workflows).map WorkflowItem.workflow_id := by
    intro id
    rw [held.pending]
    simp only [ended_ids,List.map_append,List.map_map,Function.comp_def,List.mem_append,not_or,and_assoc]
  rw [Finset.eq_empty_iff_forall_notMem]
  constructor
  · rintro ⟨_,all⟩ id member
    obtain ⟨⟨known,fresh⟩,outside⟩ := (left id).mp member
    obtain ⟨w,inside,rfl⟩ := List.mem_map.mp known
    exact outside (all w inside fresh)
  · intro gone
    obtain ⟨id,waiting⟩ := Finset.nonempty_iff_ne_empty.mpr open_
    obtain ⟨known,fresh⟩ := (holds.pending id).mp waiting
    obtain ⟨w,inside,rfl⟩ := List.mem_map.mp known
    refine ⟨⟨w,inside,fresh⟩,fun w inside fresh => ?_⟩
    by_contra outside
    exact gone _ ((left _).mpr ⟨⟨List.mem_map_of_mem inside,fresh⟩,outside⟩)

theorem stage_step {e : Outcome}
    (fits : ∀ b, e = .results b → ∀ w ∈ b.workflows,
      Fits (size w.request_id) (((list_lambda w.request_id).get? w.workflow_id).getD []) w)
    (known : ∀ x ∈ ended_of q.request_id (events ++ [e]), x.1 ∈ q.slices)
    (distinct : (ended_ids (ended_of q.request_id (events ++ [e]))).Nodup)
    (orderly : orderly_requests size list_lambda before) (here : before.get? q.request_id = some state)
    (stage : Stage str (size q.request_id) q events state) :
    ∃ after state', settle str required_cpu required_gpu before e = .ok after ∧ orderly_requests size list_lambda after ∧
      after.get? q.request_id = some state' ∧ Stage str (size q.request_id) q (events ++ [e]) state' := by
  have together := known
  rw [ended_snoc] at known distinct
  have known_before : ∀ x ∈ ended_of q.request_id events, x.1 ∈ q.slices := fun x old => known x (List.mem_append_left _ old)
  cases e with
  | results b =>
      rw [ended_results] at known distinct
      have own : ∀ w ∈ b.workflows, w.request_id = q.request_id → w ∈ q.slices := fun w member mine =>
        known (w,b.brought w) (List.mem_append_right _ (List.mem_map_of_mem (List.mem_filter.mpr ⟨member,by simpa using mine⟩)))
      have ids : (ended_ids (ended_of q.request_id events) ++
          (workflows_of q.request_id b.workflows).map WorkflowItem.workflow_id).Nodup := by
        simpa [ended_ids,Function.comp_def] using distinct
      obtain ⟨after,returned,kept,seen⟩ := batch_settled str (fits b rfl) own known_before ids orderly here stage.holds
      split at seen
      · rename_i none_own
        exact ⟨after,state,returned,kept,seen,stage_passes stage (by rw [ended_results,none_own]; rfl)⟩
      · rename_i some_own
        obtain ⟨next,there,held,outputs,results⟩ := seen
        have open_ := still_open known distinct (by simpa using some_own) stage.holds
        obtain ⟨empty,quiet,harmless⟩ := stage.waiting open_
        have ends : EndsHarmless q (events ++ [.results b]) := ends_snoc.mpr ⟨harmless,fun _ other => by cases other⟩
        refine ⟨after,_,returned,kept,there,?_⟩
        by_cases ended : next.pending_workflows = ∅
        · obtain ⟨final,idle,answered⟩ := finish_answers str held known (results.trans quiet) ended
          refine ⟨by rw [ended_snoc,ended_results]; exact final,fun more => absurd idle more,fun _ => ?_⟩
          rw [ended_snoc,ended_results,answered]
          exact ⟨fun clean => ⟨ends,clean⟩,And.right⟩
        · rw [finish_waits ended]
          exact ⟨by rw [ended_snoc,ended_results]; exact held,fun _ => ⟨outputs.trans empty,results.trans quiet,ends⟩,
            fun idle => absurd idle ended⟩
  | unplaceable workflows =>
      rw [ended_unplaceable] at known distinct
      obtain ⟨kept,marked,held,outputs,results,there⟩ := unplaceable_settled orderly here stage.holds
      by_cases none_own : workflows_of q.request_id workflows = []
      · exact ⟨_,state,rfl,kept,(unplaceable_passes none_own).trans here,
          stage_passes stage (by rw [ended_unplaceable,none_own]; rfl)⟩
      · have open_ := still_open known distinct (by simpa using none_own) stage.holds
        obtain ⟨empty,quiet,harmless⟩ := stage.waiting open_
        have takes := takes_iff stage.holds open_ held
        have ends : EndsHarmless q (events ++ [.unplaceable workflows]) ↔
            (marked.pending_workflows = ∅ → Harmless q (ended_of q.request_id events) workflows) := by
          rw [ends_snoc,← takes]
          refine ⟨fun both => both.2 workflows rfl,fun last => ⟨harmless,?_⟩⟩
          rintro _ ⟨⟩
          exact last
        refine ⟨_,_,rfl,kept,there,?_⟩
        by_cases ended : marked.pending_workflows = ∅
        · rw [if_pos ended]
          refine ⟨?_,fun more => absurd ended more,fun _ => ?_⟩
          · rw [ended_snoc,ended_unplaceable]
            exact held.congr rfl rfl rfl rfl
          · rw [ended_snoc,ended_unplaceable,ends,placement_answers (outputs.trans empty) (results.trans quiet) ended]
            refine ⟨fun alone => ⟨fun _ => alone,?_⟩,fun both => both.1 ended⟩
            exact fun w name i v _ succeeded => absurd (succeeded_marked.mp succeeded) (alone.2 w name i v)
        · rw [if_neg ended]
          refine ⟨by rw [ended_snoc,ended_unplaceable]; exact held,fun _ => ⟨outputs.trans empty,results.trans quiet,?_⟩,
            fun gone => absurd gone ended⟩
          rw [ends]
          exact fun gone => absurd gone ended

end

-- A request as `handle_request` leaves it.
structure Registered (q : CutRequest) (state : RequestState) : Prop where
  pending : ∀ id, id ∈ state.pending_workflows ↔ id ∈ q.slices.map WorkflowItem.workflow_id
  outputs : state.outputs = Dict.empty
  ready : state.ready = true
  results : state.results = []
  lambdas : ∀ w ∈ q.slices, ∀ name, name ∈ list_lambda_names state w ↔ name ∈ q.list_lambdas w.public_graph_name

def results_of (events : List Outcome) : List BatchResults :=
  events.filterMap (fun e => match e with
    | .results b => some b
    | .unplaceable _ => none)

theorem registered_stage {state : RequestState} {size : String → String → Nat} (registered : Registered q state)
    (sized : Sized size state.output_buffers) : Stage str size q [] state := by
  have holds : Holds size q [] state := by
    refine ⟨?_,registered.ready,registered.lambdas,sized,?_,?_,?_⟩
    · intro id
      simp [registered.pending,ended_ids]
    · rintro w payload ⟨⟩
    · rintro w payload ⟨⟩
    · rintro g name v _ ⟨⟩
  have open_ : state.pending_workflows ≠ ∅ := by
    obtain ⟨w,member⟩ := List.exists_mem_of_ne_nil _ q.nonempty
    intro empty
    have waiting := (registered.pending w.workflow_id).mpr (List.mem_map_of_mem member)
    rw [empty] at waiting
    cases waiting
  refine ⟨holds,fun _ => ⟨registered.outputs,registered.results,?_⟩,fun gone => absurd gone open_⟩
  intro earlier workflows later split
  exact absurd split (by simp)

variable (str required_cpu required_gpu) in
theorem run_staged {requests : Requests} {state : RequestState} (registered : Registered q state)
    (here : requests.get? q.request_id = some state) (orderly : orderly_requests size list_lambda requests)
    (events : List Outcome)
    (fits : ∀ b ∈ results_of events, ∀ w ∈ b.workflows,
      Fits (size w.request_id) (((list_lambda w.request_id).get? w.workflow_id).getD []) w)
    (once : ((ended_of q.request_id events).map Prod.fst).Subperm q.slices) :
    ∃ after state', events.foldlM (settle str required_cpu required_gpu) requests = .ok after ∧
      orderly_requests size list_lambda after ∧ after.get? q.request_id = some state' ∧
      Stage str (size q.request_id) q events state' := by
  induction events using List.reverseRecOn with
  | nil => exact ⟨requests,state,rfl,orderly,here,registered_stage registered (orderly _ _ here).outputs⟩
  | append_singleton events e ih =>
      have known : ∀ x ∈ ended_of q.request_id (events ++ [e]), x.1 ∈ q.slices :=
        fun x member => once.subset (List.mem_map_of_mem member)
      have distinct : (ended_ids (ended_of q.request_id (events ++ [e]))).Nodup := by
        have ids := Selection.map_subperm WorkflowItem.workflow_id once
        rw [List.map_map] at ids
        exact Selection.nodup_of_subperm ids q.distinct
      have earlier : ((ended_of q.request_id events).map Prod.fst).Subperm q.slices := by
        rw [ended_snoc,List.map_append] at once
        exact (List.sublist_append_left _ _).subperm.trans once
      have fits_before : ∀ b ∈ results_of events, ∀ w ∈ b.workflows, _ := fun b member =>
        fits b (by simp only [results_of,List.filterMap_append]; exact List.mem_append_left _ member)
      obtain ⟨before,middle,ran,kept,there,stage⟩ := ih fits_before earlier
      have fits_last : ∀ b, e = .results b → ∀ w ∈ b.workflows,
          Fits (size w.request_id) (((list_lambda w.request_id).get? w.workflow_id).getD []) w := by
        rintro b rfl
        exact fits b (by simp [results_of])
      obtain ⟨after,state',settled,last,found,final⟩ := stage_step fits_last known distinct kept there stage
      refine ⟨after,state',?_,last,found,final⟩
      rw [List.foldlM_append,ran]
      change List.foldlM (settle str required_cpu required_gpu) before [e] = _
      rw [List.foldlM_cons,settled]
      rfl

-- In every run that gives each workflow of the request at most one outcome, whatever
-- else is going on: the request is answered once, at its last outcome and with all it
-- has got, if and only if no placement failure that ends it is harmful and, once it has
-- ended, no values of list-mode Lambdas clash.
theorem one_final_result_iff (q : CutRequest) {requests : Requests} {state : RequestState}
    (here : requests.get? q.request_id = some state) (registered : Registered q state) {events : List Outcome}
    (regular : Regular requests (results_of events))
    (once : ((ended_of q.request_id events).map Prod.fst).Subperm q.slices) :
    ∃ after state', events.foldlM (settle str required_cpu required_gpu) requests = .ok after ∧
      after.get? q.request_id = some state' ∧
      (∀ id, id ∈ state'.pending_workflows ↔
        id ∈ q.slices.map WorkflowItem.workflow_id ∧ id ∉ ended_ids (ended_of q.request_id events)) ∧
      (Answered str q (ended_of q.request_id events) state' ↔ EndsHarmless q events ∧
        ((∀ w ∈ q.slices, w.workflow_id ∈ ended_ids (ended_of q.request_id events)) →
          Unclashed str q (ended_of q.request_id events))) := by
  obtain ⟨size,sized,fits⟩ := regular
  have orderly : orderly_requests size (list_lambda_of requests) requests := by
    intro r before found
    obtain ⟨outputs,histories⟩ := sized r before found
    exact ⟨outputs,histories,by simp [list_lambda_of,found]⟩
  obtain ⟨after,state',ran,_,there,stage⟩ := run_staged str required_cpu required_gpu registered here orderly events fits once
  refine ⟨after,state',ran,there,stage.holds.pending,?_⟩
  have all_ended : (∀ w ∈ q.slices, w.workflow_id ∈ ended_ids (ended_of q.request_id events)) ↔ state'.pending_workflows = ∅ := by
    simp only [Finset.eq_empty_iff_forall_notMem,stage.holds.pending,not_and,not_not,List.forall_mem_map]
  rw [all_ended]
  by_cases ended : state'.pending_workflows = ∅
  · rw [stage.ended ended]
    exact and_congr_right fun _ => ⟨fun clean _ => clean,fun clean => clean ended⟩
  · obtain ⟨_,quiet,harmless⟩ := stage.waiting ended
    exact ⟨fun _ => ⟨harmless,fun gone => absurd gone ended⟩,fun _ => ⟨fun _ => quiet,fun gone => absurd gone ended⟩⟩

def mixedCut : CutRequest where
  request_id := "r"
  slices := threeSlices
  total := fun _ => 2
  list_lambdas := lambdasOf
  nonempty := mixedRequest.nonempty
  mine := mixedRequest.mine
  distinct := mixedRequest.distinct
  sized := mixedRequest.sized
  tiles := mixedRequest.tiles

theorem mixed_registered : Registered mixedCut {
    pending_workflows := (threeSlices.map WorkflowItem.workflow_id).toFinset
    list_lambda_outputs := threeSlices.foldl (fun d w => d.set w.workflow_id (lambdasOf w.public_graph_name)) Dict.empty
    ready := true } := by
  refine ⟨fun _ => List.mem_toFinset,rfl,rfl,rfl,?_⟩
  have each : ∀ w ∈ threeSlices, ((threeSlices.foldl (fun d w => d.set w.workflow_id (lambdasOf w.public_graph_name))
      Dict.empty).get? w.workflow_id).getD [] = lambdasOf w.public_graph_name := by decide
  intro w member name
  exact iff_of_eq (congrArg (name ∈ ·) (each w member))

def mixedEnds : List Ended :=
  [(sliceOf "b" "g" 1 1 2,some (Dict.empty.set "out" [.str "y"])),(sliceOf "c" "h" 0 2 2,some (Dict.empty.set "all" [.str "z"])),
    (sliceOf "a" "g" 0 1 2,some (Dict.empty.set "out" [.str "x"]))]

theorem mixed_ends : ended_of "r" (mixedBatches.map Outcome.results) = mixedEnds := rfl

theorem mixed_perm : ((ended_of "r" (mixedBatches.map Outcome.results)).map Prod.fst).Perm threeSlices := by
  rw [mixed_ends]
  exact (List.Perm.swap _ _ _).trans ((List.Perm.cons _ (.swap _ _ _)).trans ((List.Perm.swap _ _ _).trans (.cons _ (.swap _ _ _))))

-- Only the slice of graph "h" brings a value of a list-mode Lambda.
theorem mixed_unclashed : Unclashed plain mixedCut mixedEnds := by
  have only : ∀ w name i v, name ∈ lambdasOf w.public_graph_name → Succeeded mixedCut mixedEnds w name i v →
      w = sliceOf "c" "h" 0 2 2 ∧ name = "all" ∧ v = .str "z" := by
    rintro w name i v listed ⟨payload,values,member,_,found,here⟩
    rcases List.mem_cons.mp member with same | member
    · cases same
      cases listed
    · rcases List.mem_pair.mp member with same | same <;> cases same
      · obtain rfl : name = "all" := List.mem_singleton.mp listed
        cases found
        exact ⟨rfl,rfl,List.mem_singleton.mp (List.mem_of_getElem? here)⟩
      · cases listed
  intro w name i v listed succeeded
  obtain ⟨rfl,rfl,rfl⟩ := only w name i v listed succeeded
  constructor
  · intro w' i' v' same succeeded'
    exact (only w' "all" i' v' (same ▸ listed) succeeded').1
  · intro x last
    have value : last_single mixedEnds "h" "all" = some (.str "z") := by decide
    rw [Option.some.inj (last.symm.trans value)]

-- The slices deliver one after the other, a list-mode Lambda's between the others.
theorem one_final_result_iff_delivered :
    ∃ after state', (mixedBatches.map Outcome.results).foldlM (settle plain 1 0) (requestOf threeSlices lambdasOf) = .ok after ∧
      after.get? "r" = some state' ∧ state'.pending_workflows = ∅ ∧
      Answered plain mixedCut (ended_of "r" (mixedBatches.map Outcome.results)) state' := by
  obtain ⟨after,state',ran,there,pending,answered⟩ := @one_final_result_iff plain 1 0 mixedCut _ _ rfl mixed_registered
    (mixedBatches.map Outcome.results) (three_regular mixed_inside) mixed_perm.subperm
  have gone : ∀ w ∈ threeSlices, w.workflow_id ∈ ended_ids (ended_of "r" (mixedBatches.map Outcome.results)) := by decide
  refine ⟨after,state',ran,there,?_,answered.mpr ⟨?_,fun _ => mixed_unclashed⟩⟩
  · rw [Finset.eq_empty_iff_forall_notMem]
    intro id waiting
    obtain ⟨known,open_⟩ := (pending id).mp waiting
    obtain ⟨w,member,rfl⟩ := List.mem_map.mp known
    exact open_ (gone w member)
  · intro earlier workflows later split
    have inside : Outcome.unplaceable workflows ∈ mixedBatches.map Outcome.results := by rw [split]; simp
    obtain ⟨_,_,other⟩ := List.mem_map.mp inside
    cases other

-- Two slices deliver, then no worker is left for the third.
def deliveredThenUnplaceable : List Outcome :=
  [.results (batchOf (sliceOf "c" "h" 0 2 2) "all" [.str "z"]),.results (batchOf (sliceOf "b" "g" 1 1 2) "out" [.str "y"]),
    .unplaceable [sliceOf "a" "g" 0 1 2]]

def bare_answer (after : Except String Requests) : Bool :=
  match after with
  | .ok requests => (requests.get? "r").any (fun state => decide (state.pending_workflows = ∅) &&
      state.results.all (fun r => (r.outputs.get? "g").isNone))
  | .error _ => false

-- The value of the second slice is in no result.
theorem delivered_output_lost :
    ¬ ∀ (str : Value → String) (required_cpu required_gpu : Nat) (q : CutRequest) (requests : Requests) (state : RequestState),
      requests.get? q.request_id = some state → Registered q state → ∀ events : List Outcome,
      Regular requests (results_of events) → ((ended_of q.request_id events).map Prod.fst).Perm q.slices →
      ∃ after state', events.foldlM (settle str required_cpu required_gpu) requests = .ok after ∧
        after.get? q.request_id = some state' ∧ Answered str q (ended_of q.request_id events) state' := by
  intro always
  obtain ⟨after,state',ran,there,answered⟩ := always plain 1 0 mixedCut (requestOf threeSlices lambdasOf) _ rfl mixed_registered
    deliveredThenUnplaceable (three_regular (by
      intro b member w here
      refine mixed_inside b ?_ w here
      rcases List.mem_pair.mp member with rfl | rfl
      · exact List.mem_cons_of_mem _ List.mem_cons_self
      · exact List.mem_cons_self))
    ((List.Perm.cons _ (.swap _ _ _)).trans ((List.Perm.swap _ _ _).trans (.cons _ (.swap _ _ _))))
  have bare : bare_answer (deliveredThenUnplaceable.foldlM (settle plain 1 0) (requestOf threeSlices lambdasOf)) = true := by
    decide +kernel
  rw [ran] at bare
  have found : after.get? "r" = some state' := there
  simp only [bare_answer,found,Option.any_some,Bool.and_eq_true,decide_eq_true_eq] at bare
  obtain ⟨ended,lost⟩ := bare
  obtain ⟨response,one,place,all,_⟩ := answered.answered ended
  have value := all (sliceOf "b" "g" 1 1 2) "out" 0 (.str "y") ⟨_,_,List.mem_cons_of_mem _ List.mem_cons_self,?_,rfl,rfl⟩
  · have gone := List.all_eq_true.mp lost response (by simp [one])
    rw [Option.isNone_iff_eq_none] at gone
    rw [result_cell,show response.outputs.get? (sliceOf "b" "g" 1 1 2).public_graph_name = none from gone] at value
    cases value
  · intro output values here
    have entry := Dict.get?_eq_some.mp here
    simp only [Dict.mem_entries_set] at entry
    simp at entry
    rw [entry.1,entry.2]
    decide

end Lumilake.Server

import Lumilake.Server.BatchResults

namespace Lumilake.Server
open Tiling
variable {str : Value → String}

-- Every buffer of a request has the one size that its output has.
def Sized (size : String → String → Nat) (buffers : Buffers) : Prop :=
  ∀ g outputs name target, buffers.get? g = some outputs → outputs.get? name = some target →
    target.length = size g name

-- The size a workflow expects of the buffers it writes.
def Fits (size : String → String → Nat) (names : List String) (w : WorkflowItem) : Prop :=
  ∀ name, size w.public_graph_name name = if name ∈ names then 1 else w.total_length

theorem merge_output_sized {size : String → Nat} {w : WorkflowItem} {names : List String} {m : Merge}
    (fits : ∀ name, size name = if name ∈ names then 1 else w.total_length)
    (sized : ∀ name target, m.buffers.get? name = some target → target.length = size name)
    (output : String × List Value) :
    ∃ after, merge_output w names m output = .ok after ∧
      ∀ name target, after.buffers.get? name = some target → target.length = size name := by
  have put : ∀ (buffers : Payload) (name : String) (target : List Value), target.length = size name →
      (∀ x t, buffers.get? x = some t → t.length = size x) →
      ∀ x t, (buffers.set name target).get? x = some t → t.length = size x := by
    intro buffers name target right old x t found
    by_cases same : x = name
    · subst same
      rw [Dict.get?_set_self] at found
      exact Option.some.inj found ▸ right
    · rw [Dict.get?_set_ne _ _ same] at found
      exact old x t found
  have start : ∀ name blank, blank.length = size name → ((m.buffers.get? name).getD blank).length = size name := by
    intro name blank right
    cases found : m.buffers.get? name with
    | none => exact right
    | some target => exact sized name target found
  obtain ⟨name,values⟩ := output
  have expected := fits name
  unfold merge_output
  split
  · rename_i list_lambda
    refine ⟨_,rfl,?_⟩
    have one : size name = 1 := expected.trans (if_pos list_lambda)
    unfold merge_list_lambda
    split
    · refine put _ name _ ?_ ?_
      · rw [List.length_set]; exact start name [.none] one.symm
      · split
        · exact sized
        · exact sized
    · exact sized
  · rename_i rows
    have total : size name = w.total_length := expected.trans (if_neg rows)
    have target := start name (List.replicate w.total_length .none) (by rw [List.length_replicate,total])
    unfold merge_rows
    dsimp only
    split
    · exact ⟨_,rfl,sized⟩
    · rw [if_neg (not_not.mpr (target.trans total))]
      refine ⟨_,rfl,put _ name _ ?_ ?_⟩
      · rw [length_write]; exact target
      · split
        · exact sized
        · exact sized

theorem merge_slice_sized {size : String → String → Nat} {names : List String} {w : WorkflowItem} {buffers : Buffers}
    (fits : Fits size names w) (sized : Sized size buffers) (errors : Option (List Spec)) (payload : Payload) :
    ∃ errors' after merged, merge_slice_payload names errors buffers w payload = .ok (errors',after,merged) ∧
      Sized size after := by
  have fold : ∀ (outputs : List (String × List Value)) (m : Merge),
      (∀ name target, m.buffers.get? name = some target → target.length = size w.public_graph_name name) →
      ∃ after, outputs.foldlM (merge_output w names) m = .ok after ∧
        ∀ name target, after.buffers.get? name = some target → target.length = size w.public_graph_name name := by
    intro outputs
    induction outputs with
    | nil => exact fun m sized => ⟨m,rfl,sized⟩
    | cons output rest ih =>
        intro m sized
        obtain ⟨middle,first,kept⟩ := merge_output_sized (fits ·) sized output
        obtain ⟨after,folded,last⟩ := ih middle kept
        exact ⟨after,by rw [List.foldlM_cons,first]; exact folded,last⟩
  unfold merge_slice_payload
  split
  · exact ⟨_,_,_,rfl,sized⟩
  · split
    · exact ⟨_,_,_,rfl,sized⟩
    · obtain ⟨after,folded,last⟩ := fold payload.entries
        ⟨errors,(buffers.get? w.public_graph_name).getD Dict.empty,true⟩ (by
          intro name target found
          cases seen : buffers.get? w.public_graph_name with
          | none => simp [seen] at found
          | some outputs => exact sized _ _ name target seen (by simpa [seen] using found))
      rw [folded]
      refine ⟨_,_,_,rfl,?_⟩
      intro g outputs name target found inside
      by_cases here : g = w.public_graph_name
      · subst here
        rw [Dict.get?_set_self] at found
        cases Option.some.inj found
        exact last name target inside
      · rw [Dict.get?_set_ne _ _ here] at found
        exact sized g outputs name target found inside

-- What stays true of a request's state, whatever its slices bring back.
structure Orderly (size : String → String → Nat) (list_lambda : Dict String (List String)) (state : RequestState) :
    Prop where
  outputs : Sized size state.output_buffers
  histories : Sized size state.chat_history_buffers
  list_lambda : state.list_lambda_outputs = list_lambda

section
variable {size : String → String → Nat} {list_lambda : Dict String (List String)} {b : BatchResults}
  {state : RequestState} {w : WorkflowItem}

theorem take_outputs_orderly (fits : Fits size ((list_lambda.get? w.workflow_id).getD []) w)
    (orderly : Orderly size list_lambda state) :
    ∃ after, take_outputs b state w = .ok after ∧ Orderly size list_lambda after := by
  unfold take_outputs
  split
  · rename_i payload _
    have names : list_lambda_names state w = (list_lambda.get? w.workflow_id).getD [] := by
      rw [list_lambda_names,orderly.list_lambda]
    obtain ⟨errors,after,merged,done,sized⟩ := merge_slice_sized fits orderly.outputs state.error_info payload
    unfold merge_outputs
    rw [names,done]
    refine ⟨_,rfl,?_⟩
    unfold mark_successful_input_completion
    split
    · split
      · exact ⟨sized,orderly.histories,orderly.list_lambda⟩
      · exact ⟨sized,orderly.histories,orderly.list_lambda⟩
    · exact ⟨sized,orderly.histories,orderly.list_lambda⟩
  · refine ⟨_,rfl,?_⟩
    unfold report_missing_output
    split
    · exact orderly
    · exact ⟨orderly.outputs,orderly.histories,orderly.list_lambda⟩

theorem take_histories_orderly (fits : Fits size ((list_lambda.get? w.workflow_id).getD []) w)
    (orderly : Orderly size list_lambda state) :
    ∃ after, take_histories b state w = .ok after ∧ Orderly size list_lambda after := by
  unfold take_histories
  split
  · rename_i payload _
    have names : list_lambda_names state w = (list_lambda.get? w.workflow_id).getD [] := by
      rw [list_lambda_names,orderly.list_lambda]
    obtain ⟨errors,after,merged,done,sized⟩ := merge_slice_sized fits orderly.histories state.error_info payload
    unfold merge_histories
    rw [names,done]
    exact ⟨_,rfl,orderly.outputs,sized,orderly.list_lambda⟩
  · exact ⟨_,rfl,orderly⟩

-- A slice of any request is handled without a raise, good payload or not.
theorem handle_workflow_orderly (fits : Fits size ((list_lambda.get? w.workflow_id).getD []) w)
    (orderly : Orderly size list_lambda state) :
    ∃ after, handle_workflow b state w = .ok after ∧ Orderly size list_lambda after := by
  unfold handle_workflow
  split
  · exact ⟨_,rfl,orderly.outputs,orderly.histories,orderly.list_lambda⟩
  · have reported : Orderly size list_lambda (report_batch_error b state w) := by
      unfold report_batch_error
      split
      · exact orderly
      · exact ⟨orderly.outputs,orderly.histories,orderly.list_lambda⟩
    obtain ⟨middle,took,kept⟩ := take_outputs_orderly (b := b) fits reported
    obtain ⟨after,told,last⟩ := take_histories_orderly (b := b) fits kept
    rw [took]
    change ∃ x, (take_histories b middle w >>= _) = _ ∧ _
    rw [told]
    exact ⟨_,rfl,last.outputs,last.histories,last.list_lambda⟩
end

def orderly_requests (size : String → String → String → Nat) (list_lambda : String → Dict String (List String))
    (requests : Requests) : Prop :=
  ∀ r state, requests.get? r = some state → Orderly (size r) (list_lambda r) state

section
variable {size : String → String → String → Nat} {list_lambda : String → Dict String (List String)}
  {q : SlicedRequest} {b : BatchResults}

-- One slice of any request: its own state moves and the table stays orderly.
theorem step_orderly {requests : Requests} {w : WorkflowItem}
    (fits : Fits (size w.request_id) (((list_lambda w.request_id).get? w.workflow_id).getD []) w)
    (orderly : orderly_requests size list_lambda requests) :
    ∃ after, step_workflow b requests w = .ok after ∧ orderly_requests size list_lambda after ∧
      (∀ r, r ∈ after ↔ r ∈ requests) ∧ (∀ r, r ≠ w.request_id → after.get? r = requests.get? r) ∧
      ∀ before, requests.get? w.request_id = some before →
        ∃ next, handle_workflow b before w = .ok next ∧ after.get? w.request_id = some next := by
  cases found : requests.get? w.request_id with
  | none =>
      refine ⟨requests,by simp [step_workflow,found],orderly,fun _ => Iff.rfl,fun _ _ => rfl,?_⟩
      intro before seen
      cases seen
  | some before =>
      obtain ⟨next,handled,kept⟩ := handle_workflow_orderly (b := b) fits (orderly _ _ found)
      refine ⟨requests.set w.request_id next,?_,?_,?_,?_,?_⟩
      · unfold step_workflow
        rw [found]
        change (handle_workflow b before w >>= _) = _
        rw [handled]
        rfl
      · intro r other seen
        by_cases same : r = w.request_id
        · subst same
          rw [Dict.get?_set_self] at seen
          exact Option.some.inj seen ▸ kept
        · rw [Dict.get?_set_ne _ _ same] at seen
          exact orderly r other seen
      · intro r
        rw [Dict.mem_def,Dict.mem_def,Dict.mem_keys_set]
        refine ⟨?_,.inl⟩
        intro h
        rcases h with old | same
        · exact old
        · exact same ▸ Dict.mem_keys_iff.mpr ⟨before,found⟩
      · exact fun r other => Dict.get?_set_ne _ _ other
      · intro other seen
        cases Option.some.inj seen
        exact ⟨next,handled,Dict.get?_set_self _ _ _⟩

-- The loop over one batch returns, and moves the requests that are in the batch only.
theorem workflows_orderly (workflows : List WorkflowItem) {requests : Requests}
    (fits : ∀ w ∈ workflows, Fits (size w.request_id) (((list_lambda w.request_id).get? w.workflow_id).getD []) w)
    (orderly : orderly_requests size list_lambda requests) :
    ∃ after, workflows.foldlM (step_workflow b) requests = .ok after ∧ orderly_requests size list_lambda after ∧
      (∀ r, r ∈ after ↔ r ∈ requests) ∧
      ∀ r, (∀ w ∈ workflows, w.request_id ≠ r) → after.get? r = requests.get? r := by
  induction workflows generalizing requests with
  | nil => exact ⟨requests,rfl,orderly,fun _ => Iff.rfl,fun _ _ => rfl⟩
  | cons w workflows ih =>
      obtain ⟨middle,stepped,kept,keys,frame,_⟩ := step_orderly (b := b) (fits w List.mem_cons_self) orderly
      obtain ⟨after,folded,last,same_keys,same⟩ := ih (fun v member => fits v (List.mem_cons_of_mem w member)) kept
      refine ⟨after,by rw [List.foldlM_cons,stepped]; exact folded,last,fun r => (same_keys r).trans (keys r),?_⟩
      intro r elsewhere
      rw [same r (fun v member => elsewhere v (List.mem_cons_of_mem w member))]
      exact frame r (Ne.symm (elsewhere w List.mem_cons_self))
end

theorem update_own (update : RequestState → RequestState) (requests : Requests) (r x : String) :
    (update_request update requests r).get? x = if x = r then (requests.get? r).map update else requests.get? x := by
  unfold update_request
  cases found : requests.get? r with
  | none =>
      by_cases same : x = r
      · subst same; simp [found]
      · simp [same]
  | some state =>
      by_cases same : x = r
      · subst same; simp [Dict.get?_set_self]
      · simp [Dict.get?_set_ne _ _ same,same]

theorem update_orderly {size : String → String → String → Nat} {list_lambda : String → Dict String (List String)}
    {update : RequestState → RequestState}
    (kept : ∀ r state, Orderly (size r) (list_lambda r) state → Orderly (size r) (list_lambda r) (update state))
    {affected : List String} (distinct : affected.Nodup) {requests : Requests}
    (orderly : orderly_requests size list_lambda requests) :
    orderly_requests size list_lambda (affected.foldl (update_request update) requests) := by
  intro r state found
  rw [Dict.get?_foldl_own _ update (update_own update) distinct] at found
  split at found
  · obtain ⟨before,seen,rfl⟩ := Option.map_eq_some_iff.mp found
    exact kept r before (orderly r before seen)
  · exact orderly r state found

theorem report_orderly {size : String → String → Nat} {list_lambda : Dict String (List String)} {b : BatchResults}
    {state : RequestState} (orderly : Orderly size list_lambda state) :
    Orderly size list_lambda (report_task_nodes b state) := by
  unfold report_task_nodes
  split
  · exact orderly
  · split
    · exact orderly
    · exact ⟨orderly.outputs,orderly.histories,orderly.list_lambda⟩

theorem finish_orderly {size : String → String → Nat} {list_lambda : Dict String (List String)}
    {state : RequestState} (orderly : Orderly size list_lambda state) :
    Orderly size list_lambda (finish_request str state) := by
  unfold finish_request
  split
  · exact ⟨orderly.outputs,orderly.histories,orderly.list_lambda⟩
  · exact orderly

variable (str) in
-- The results of a batch whose slices fit are handled without an exception.
theorem handle_orderly {size : String → String → String → Nat} {list_lambda : String → Dict String (List String)}
    {b : BatchResults} {requests : Requests}
    (fits : ∀ w ∈ b.workflows, Fits (size w.request_id) (((list_lambda w.request_id).get? w.workflow_id).getD []) w)
    (orderly : orderly_requests size list_lambda requests) :
    ∃ after, handle_batch_results str requests b = .ok after ∧ orderly_requests size list_lambda after := by
  obtain ⟨middle,folded,kept,_,_⟩ := workflows_orderly (b := b) b.workflows fits orderly
  have each := List.nodup_dedup ((b.workflows.map WorkflowItem.request_id).filter (· ∈ requests))
  have reported := update_orderly (fun r state => report_orderly (b := b)) each kept
  have finished := update_orderly (fun r state orderly =>
    show Orderly _ _ (finish_request str state) from finish_orderly orderly) each reported
  refine ⟨_,?_,finished⟩
  unfold handle_batch_results
  rw [folded]
  rfl

theorem finalize_lookup {buffers : Buffers} {outputs : Payload} (item : Value → Value)
    (found : buffers.get? g = some outputs) (inside : outputs.get? name = some values) :
    ((finalize_buffers item buffers).get? g).bind (Dict.get? · name) = some (.list (values.map item)) := by
  have some_output : outputs.entries.isEmpty = false := by
    cases entries : outputs.entries with
    | nil => simp [Dict.get?,entries] at inside
    | cons _ _ => rfl
  have kept : (buffers.filter (fun _ outputs => !outputs.entries.isEmpty)).get? g = some outputs :=
    Dict.get?_filter.mpr ⟨found,by simp [some_output]⟩
  unfold finalize_buffers
  rw [Dict.get?_mapValues kept,Option.bind_some,Dict.get?_mapValues inside]

end Lumilake.Server

import Lumilake.Server.BatchRuns
import Lumilake.Server.CounterMoves
import Lumilake.Server.FinalResult
import Lumilake.Server.ProcessBatch

namespace Lumilake.Server
open Fallible

section
variable {Compiled Graph Merged Schedule Flat : Type}

-- What one call of `_run_batch` meets: the text of an exception before the handlers of
-- `_run_batch_inner`, in its `try` before and after the processing, in the handlers, and
-- in its `finally`; the requests found cancelled; and the outcomes of other batches that
-- come before its own recording and after it.
structure Meets (Compiled Graph Merged Schedule Flat : Type) where
  stages : Stages Compiled Graph Merged Schedule Flat
  batch_id : String
  execution_request_id : String
  opening : Option String := none
  cancelled_before : List String := []
  preparing : Option String := none
  completing : Option String := none
  closing : Option String := none
  cancelled_after : List String := []
  ending : Option String := none
  meanwhile : List Outcome := []
  afterwards : List Outcome := []

inductive Inner where
  | recorded (b : BatchResults)
  | retry
  | escaped (text : String)

namespace Meets
variable (m : Meets Compiled Graph Merged Schedule Flat)

def active_workflows (workflows : List WorkflowItem) : List WorkflowItem :=
  workflows.filter (fun w => decide (w.request_id ∉ m.cancelled_before))

def attempt (workflows : List WorkflowItem) : Except Raised (Dict String Payload × Dict String Payload) := do
  raising m.preparing
  if m.active_workflows workflows = [] then pure (Dict.empty,Dict.empty)
  else
    let delivered ← m.stages.process_batch (m.active_workflows workflows)
    raising m.completing
    pure delivered

def results (workflows : List WorkflowItem) (cancelled_requests : List String) (error : Option String)
    (delivered : Dict String Payload × Dict String Payload) : BatchResults where
  workflows := workflows
  batch_outputs := delivered.1
  batch_histories := delivered.2
  error := error
  batch_id := some m.batch_id
  cancelled_requests := cancelled_requests
  execution_request_id := some m.execution_request_id

-- Only a failure of the backend, in a batch of several active requests, asks for a retry.
def isolates (isolate_failures : Bool) (workflows : List WorkflowItem) (raised : Raised) : Bool :=
  raised.is_runtime && isolate_failures && decide (1 < (request_ids (m.active_workflows workflows)).length)

def run_batch_inner (isolate_failures : Bool) (workflows : List WorkflowItem) : Inner :=
  match m.opening with
  | some text => .escaped text
  | none =>
    match m.attempt workflows with
    | .ok delivered =>
      let cancelled := if m.active_workflows workflows = [] then m.cancelled_before else m.cancelled_after
      .recorded (m.results workflows cancelled none delivered)
    | .error raised =>
      match m.closing with
      | some text => .escaped text
      | none =>
        if m.isolates isolate_failures workflows raised then .retry
        else .recorded (m.results workflows m.cancelled_after (some raised.text) (Dict.empty,Dict.empty))

def others : List Outcome := m.meanwhile ++ m.afterwards

end Meets

-- The requests, all outcomes in their order, those this batch recorded, and the exception
-- that left its task. No exception leaves `_handle_batch_results`: this is proved below.
structure Log where
  requests : Requests
  events : List Outcome := []
  recorded : List BatchResults := []
  raised : Option String := none

def pending_in (requests : Requests) (w : WorkflowItem) : Bool :=
  match requests.get? w.request_id with
  | none => false
  | some state => decide (w.workflow_id ∈ state.pending_workflows)

def unrecorded_error (workflows : List WorkflowItem) (text : String) : BatchResults where
  workflows := workflows
  batch_outputs := Dict.empty
  batch_histories := Dict.empty
  error := some text

section
variable (str : Value → String) (required_cpu required_gpu : Nat)

def Log.settle (log : Log) (e : Outcome) : Except String Log := do
  let requests ← Server.settle str required_cpu required_gpu log.requests e
  pure { log with requests := requests, events := log.events ++ [e] }

def Log.hear (log : Log) (others : List Outcome) : Except String Log :=
  others.foldlM (Log.settle str required_cpu required_gpu) log

def Log.record (log : Log) (b : BatchResults) : Except String Log := do
  let log ← log.settle str required_cpu required_gpu (.results b)
  pure { log with recorded := log.recorded ++ [b] }

def fail_unrecorded_workflows (workflows : List WorkflowItem) (text : String) (log : Log) : Except String Log :=
  let unrecorded := workflows.filter (pending_in log.requests)
  if unrecorded = [] then .ok log else log.record str required_cpu required_gpu (unrecorded_error unrecorded text)

-- `isolate_failures=False`, with the `except Exception` around it.
def run_alone (m : Meets Compiled Graph Merged Schedule Flat) (workflows : List WorkflowItem) (log : Log) :
    Except String Log := do
  let log ← log.hear str required_cpu required_gpu m.meanwhile
  match m.run_batch_inner false workflows with
  | .recorded b =>
    let log ← log.record str required_cpu required_gpu b
    let log ← log.hear str required_cpu required_gpu m.afterwards
    match m.ending with
    | none => pure log
    | some text => fail_unrecorded_workflows str required_cpu required_gpu workflows text log
  | .escaped text =>
    let log ← log.hear str required_cpu required_gpu m.afterwards
    fail_unrecorded_workflows str required_cpu required_gpu workflows (m.ending.getD text) log
  | .retry => pure log

def run_retries (meets : Nat → Meets Compiled Graph Merged Schedule Flat) :
    List (List WorkflowItem) → Log → Except String Log
  | [],log => pure log
  | workflows :: rest,log => do
    let log ← run_alone str required_cpu required_gpu (meets 0) workflows log
    run_retries (fun n => meets (n + 1)) rest log

def run_batch (meets : Nat → Meets Compiled Graph Merged Schedule Flat) (batch : List WorkflowItem) (log : Log) :
    Except String Log := do
  let m := meets 0
  let log ← log.hear str required_cpu required_gpu m.meanwhile
  match m.run_batch_inner true batch with
  | .recorded b =>
    let log ← log.record str required_cpu required_gpu b
    pure { log with raised := m.ending }
  | .escaped text => pure { log with raised := some (m.ending.getD text) }
  | .retry =>
    match m.ending with
    | some text => pure { log with raised := some text }
    | none => run_retries str required_cpu required_gpu (fun n => meets (n + 1)) (split_batch_by_request batch) log

end

-- What `_run_batch` makes of its first execution.
def Meets.splits (m : Meets Compiled Graph Merged Schedule Flat) (batch : List WorkflowItem) : Prop :=
  ∃ cause, m.attempt batch = .error (.runtime cause) ∧ 1 < (request_ids (m.active_workflows batch)).length

-- An exception of an isolated run.
def Meets.Raises (m : Meets Compiled Graph Merged Schedule Flat) (workflows : List WorkflowItem) (text : String) : Prop :=
  m.opening = some text ∨ (∃ raised, m.attempt workflows = .error raised ∧ raised.text = text) ∨
    m.closing = some text ∨ m.ending = some text

-- A recording that an isolated run answers for alone: its error is the run's own, and what
-- the run delivered is recorded without one.
structure Isolated (m : Meets Compiled Graph Merged Schedule Flat) (b : BatchResults) : Prop where
  own : ∀ text, b.error = some text → m.Raises b.workflows text
  kept : ∀ delivered, m.opening = none → m.attempt b.workflows = .ok delivered →
    b.error = none ∧ b.batch_outputs = delivered.1 ∧ b.batch_histories = delivered.2

end

def same_workflow (v w : WorkflowItem) : Prop := v.request_id = w.request_id ∧ v.workflow_id = w.workflow_id

theorem handle_workflow_pending {b : BatchResults} {state next : RequestState} {v : WorkflowItem}
    (handled : handle_workflow b state v = .ok next) :
    next.pending_workflows = state.pending_workflows.erase v.workflow_id := by
  unfold handle_workflow at handled
  split at handled
  · cases handled; rfl
  · obtain ⟨middle,taken,rest⟩ := bind_ok handled
    obtain ⟨last,told,same⟩ := bind_ok rest
    cases same
    have reported : Told state (report_batch_error b state v) := report_batch_error_told
    unfold take_outputs at taken
    split at taken
    · simp only [(take_histories_told told).pending,(merge_outputs_merged taken).pending,reported.pending]
    · cases taken
      simp only [(take_histories_told told).pending,report_missing_told.pending,reported.pending]

theorem pending_update {update : RequestState → RequestState} {requests : Requests} {r id : String}
    (erased : ∀ state, (update state).pending_workflows = state.pending_workflows.erase id) (w : WorkflowItem) :
    pending_in (update_request update requests r) w = true ↔
      pending_in requests w = true ∧ ¬(r = w.request_id ∧ id = w.workflow_id) := by
  unfold pending_in
  rw [update_own]
  by_cases own : w.request_id = r
  · subst own
    cases requests.get? w.request_id with
    | none => simp
    | some state =>
        simp only [if_true,Option.map_some,erased,decide_eq_true_eq,Finset.mem_erase,true_and]
        exact ⟨fun h => ⟨h.2,fun same => h.1 same.symm⟩,fun h => ⟨fun same => h.2 same.symm,h.1⟩⟩
  · rw [if_neg own]
    simp [Ne.symm own]

theorem pending_kept {update : RequestState → RequestState} {requests : Requests} (ids : List String)
    (kept : ∀ state, (update state).pending_workflows = state.pending_workflows) (w : WorkflowItem) :
    pending_in (ids.foldl (update_request update) requests) w = pending_in requests w := by
  induction ids generalizing requests with
  | nil => rfl
  | cons r rest ih =>
      rw [List.foldl_cons,ih]
      unfold pending_in
      rw [update_own]
      by_cases own : w.request_id = r
      · subst own
        cases requests.get? w.request_id <;> simp [kept]
      · rw [if_neg own]

theorem step_pending {b : BatchResults} {requests after : Requests} {v : WorkflowItem}
    (stepped : step_workflow b requests v = .ok after) (w : WorkflowItem) :
    pending_in after w = true ↔ pending_in requests w = true ∧ ¬same_workflow v w := by
  unfold step_workflow at stepped
  cases found : requests.get? v.request_id with
  | none =>
      rw [found] at stepped
      cases stepped
      refine ⟨fun waits => ⟨waits,?_⟩,And.left⟩
      rintro ⟨same,_⟩
      simp [pending_in,← same,found] at waits
  | some state =>
      rw [found] at stepped
      obtain ⟨next,handled,same⟩ := bind_ok stepped
      cases same
      have erased := handle_workflow_pending handled
      unfold pending_in
      by_cases own : w.request_id = v.request_id
      · rw [own,Dict.get?_set_self,found]
        simp only [erased,same_workflow,own,decide_eq_true_eq,Finset.mem_erase,true_and]
        exact ⟨fun h => ⟨h.2,fun same => h.1 same.symm⟩,fun h => ⟨fun same => h.2 same.symm,h.1⟩⟩
      · rw [Dict.get?_set_ne _ _ own]
        simp [same_workflow,Ne.symm own]

theorem workflows_pending {b : BatchResults} (workflows : List WorkflowItem) {requests after : Requests}
    (folded : workflows.foldlM (step_workflow b) requests = .ok after) (w : WorkflowItem) :
    pending_in after w = true ↔ pending_in requests w = true ∧ ∀ v ∈ workflows, ¬same_workflow v w := by
  induction workflows generalizing requests with
  | nil => cases folded; simp
  | cons v rest ih =>
      rw [List.foldlM_cons] at folded
      obtain ⟨middle,stepped,later⟩ := bind_ok folded
      rw [ih later,step_pending stepped]
      simp [and_assoc]

theorem marks_pending (required_cpu required_gpu : Nat) (workflows : List WorkflowItem) (requests : Requests)
    (w : WorkflowItem) :
    pending_in (workflows.foldl (fun requests v =>
        update_request (mark_unplaceable required_cpu required_gpu v) requests v.request_id) requests) w = true ↔
      pending_in requests w = true ∧ ∀ v ∈ workflows, ¬same_workflow v w := by
  induction workflows generalizing requests with
  | nil => simp
  | cons v rest ih =>
      rw [List.foldl_cons,ih,@pending_update _ _ _ v.workflow_id (fun _ => rfl)]
      simp [same_workflow,and_assoc]

-- An outcome takes its workflows from those that wait, and no others.
theorem settle_pending {str : Value → String} {required_cpu required_gpu : Nat} {requests after : Requests} {e : Outcome}
    (settled : settle str required_cpu required_gpu requests e = .ok after) (w : WorkflowItem) :
    pending_in after w = true ↔ pending_in requests w = true ∧ ∀ x ∈ e.ended, ¬same_workflow x.1 w := by
  cases e with
  | results b =>
      obtain ⟨middle,folded,rest⟩ := bind_ok settled
      cases rest
      rw [pending_kept _ (fun state => ?_),pending_kept _ (fun state => (report_task_nodes_told).pending),
        workflows_pending _ folded]
      · simp [Outcome.ended]
      · unfold finish_request
        split <;> rfl
  | unplaceable workflows =>
      cases settled
      unfold fail_unplaceable_batch
      have puts : ∀ requests : Requests, pending_in (workflows.foldl (fun requests v =>
          update_request put_placement_failure requests v.request_id) requests) w = pending_in requests w := by
        intro requests
        have kept := @pending_kept put_placement_failure requests (workflows.map WorkflowItem.request_id)
          (fun state => by unfold put_placement_failure; split <;> rfl) w
        rwa [List.foldl_map] at kept
      rw [puts,marks_pending]
      simp [Outcome.ended]

-- The slices of an outcome fit the buffers of their requests.
def Fitting (size : String → String → String → Nat) (list_lambda : String → Dict String (List String)) (e : Outcome) : Prop :=
  ∀ b, e = .results b → ∀ w ∈ b.workflows, Fits (size w.request_id) (((list_lambda w.request_id).get? w.workflow_id).getD []) w

-- It ends none of the workflows of the batch.
def Elsewhere (batch : List WorkflowItem) (e : Outcome) : Prop := ∀ x ∈ e.ended, ∀ w ∈ batch, ¬same_workflow x.1 w

section
variable {str : Value → String} {required_cpu required_gpu : Nat} {requests : Requests} {batch : List WorkflowItem}
  {size : String → String → String → Nat} {list_lambda : String → Dict String (List String)}

variable (str required_cpu required_gpu size list_lambda requests) in
structure Follows (log : Log) : Prop where
  orderly : orderly_requests size list_lambda log.requests
  events : log.events.foldlM (settle str required_cpu required_gpu) requests = .ok log.requests

variable (batch) in
structure Passes (log next : Log) : Prop where
  recorded : next.recorded = log.recorded
  raised : next.raised = log.raised
  pending : ∀ w ∈ batch, pending_in next.requests w = pending_in log.requests w

variable (batch) in
structure Records (log next : Log) (b : BatchResults) : Prop where
  recorded : next.recorded = log.recorded ++ [b]
  raised : next.raised = log.raised
  pending : ∀ w ∈ batch, pending_in next.requests w = true ↔
    pending_in log.requests w = true ∧ ∀ v ∈ b.workflows, ¬same_workflow v w

theorem Passes.trans {log middle next : Log} (first : Passes batch log middle) (second : Passes batch middle next) :
    Passes batch log next :=
  ⟨second.recorded.trans first.recorded,second.raised.trans first.raised,
    fun w member => (second.pending w member).trans (first.pending w member)⟩

theorem Records.between {log before after next : Log} {b : BatchResults} (first : Passes batch log before)
    (records : Records batch before after b) (last : Passes batch after next) : Records batch log next b := by
  refine ⟨?_,?_,fun w member => ?_⟩
  · rw [last.recorded,records.recorded,first.recorded]
  · rw [last.raised,records.raised,first.raised]
  · rw [last.pending w member,records.pending w member,first.pending w member]

theorem Passes.refl (log : Log) : Passes batch log log := ⟨rfl,rfl,fun _ _ => rfl⟩

theorem settle_follows {log : Log} {e : Outcome} (follows : Follows str required_cpu required_gpu requests size list_lambda log)
    (fitting : Fitting size list_lambda e) :
    ∃ after, log.settle str required_cpu required_gpu e = .ok { log with requests := after, events := log.events ++ [e] } ∧
      settle str required_cpu required_gpu log.requests e = .ok after ∧
      Follows str required_cpu required_gpu requests size list_lambda
        { log with requests := after, events := log.events ++ [e] } := by
  have moved : ∃ after, settle str required_cpu required_gpu log.requests e = .ok after ∧
      orderly_requests size list_lambda after := by
    cases e with
    | results b => exact handle_orderly str (fitting b rfl) follows.orderly
    | unplaceable workflows => exact ⟨_,rfl,unplaceable_orderly required_cpu required_gpu workflows follows.orderly⟩
  obtain ⟨after,settled,orderly⟩ := moved
  refine ⟨after,?_,settled,orderly,?_⟩
  · unfold Log.settle
    rw [settled]
    rfl
  · rw [List.foldlM_append,follows.events]
    change List.foldlM (settle str required_cpu required_gpu) log.requests [e] = _
    rw [List.foldlM_cons,settled]
    rfl

-- Outcomes of other batches.
theorem hear_follows {log : Log} {others : List Outcome}
    (follows : Follows str required_cpu required_gpu requests size list_lambda log)
    (apart : ∀ e ∈ others, Fitting size list_lambda e ∧ Elsewhere batch e) :
    ∃ next, log.hear str required_cpu required_gpu others = .ok next ∧
      Follows str required_cpu required_gpu requests size list_lambda next ∧ Passes batch log next := by
  induction others generalizing log with
  | nil => exact ⟨log,rfl,follows,.refl log⟩
  | cons e rest ih =>
      obtain ⟨fitting,elsewhere⟩ := apart e List.mem_cons_self
      obtain ⟨after,moved,settled,kept⟩ := settle_follows follows fitting
      obtain ⟨next,heard,last,passes⟩ := ih kept (fun e' member => apart e' (List.mem_cons_of_mem e member))
      have first : Passes batch log { log with requests := after, events := log.events ++ [e] } := by
        refine ⟨rfl,rfl,fun w member => ?_⟩
        rw [Bool.eq_iff_iff,settle_pending settled]
        exact ⟨And.left,fun waits => ⟨waits,fun x ended => elsewhere x ended w member⟩⟩
      refine ⟨next,?_,last,first.trans passes⟩
      unfold Log.hear
      rw [List.foldlM_cons,moved]
      exact heard

theorem record_follows {log : Log} {b : BatchResults}
    (follows : Follows str required_cpu required_gpu requests size list_lambda log)
    (fitting : Fitting size list_lambda (.results b)) :
    ∃ next, log.record str required_cpu required_gpu b = .ok next ∧
      Follows str required_cpu required_gpu requests size list_lambda next ∧ Records batch log next b := by
  obtain ⟨after,moved,settled,kept⟩ := settle_follows follows fitting
  refine ⟨{ log with requests := after, events := log.events ++ [.results b], recorded := log.recorded ++ [b] },?_,
    ⟨kept.orderly,kept.events⟩,rfl,rfl,fun w member => ?_⟩
  · unfold Log.record
    rw [moved]
    rfl
  · rw [settle_pending settled]
    simp [Outcome.ended]

variable {Compiled Graph Merged Schedule Flat : Type}

-- Only `isolate_failures` lets an execution ask for a retry.
theorem alone_never_retries (m : Meets Compiled Graph Merged Schedule Flat) (workflows : List WorkflowItem) :
    m.run_batch_inner false workflows ≠ .retry := by
  unfold Meets.run_batch_inner
  cases m.opening with
  | some text => simp
  | none =>
      cases m.attempt workflows with
      | ok delivered => simp
      | error raised => cases m.closing <;> simp [Meets.isolates]

theorem recorded_isolated {m : Meets Compiled Graph Merged Schedule Flat} {workflows : List WorkflowItem} {b : BatchResults}
    (recorded : m.run_batch_inner false workflows = .recorded b) : b.workflows = workflows ∧ Isolated m b := by
  unfold Meets.run_batch_inner at recorded
  cases opening : m.opening with
  | some text => simp [opening] at recorded
  | none =>
      cases attempt : m.attempt workflows with
      | ok delivered =>
          simp only [opening,attempt,Inner.recorded.injEq] at recorded
          subst recorded
          refine ⟨rfl,fun text wrong => by simp [Meets.results] at wrong,fun again _ same => ?_⟩
          cases attempt.symm.trans same
          exact ⟨rfl,rfl,rfl⟩
      | error raised =>
          cases closing : m.closing with
          | some text => simp [opening,attempt,closing] at recorded
          | none =>
              simp only [opening,attempt,closing,Meets.isolates,Bool.and_false,Bool.false_and,Bool.false_eq_true,
                if_false,Inner.recorded.injEq] at recorded
              subst recorded
              refine ⟨rfl,fun text same => ?_,fun delivered _ same => ?_⟩
              · exact .inr (.inl ⟨raised,attempt,Option.some.inj same⟩)
              · cases attempt.symm.trans same

theorem escaped_isolated {m : Meets Compiled Graph Merged Schedule Flat} {workflows : List WorkflowItem} {text : String}
    (escaped : m.run_batch_inner false workflows = .escaped text) :
    Isolated m (unrecorded_error workflows (m.ending.getD text)) := by
  have raises : m.Raises workflows (m.ending.getD text) ∧
      ∀ delivered, m.opening = none → m.attempt workflows ≠ .ok delivered := by
    unfold Meets.run_batch_inner at escaped
    cases opening : m.opening with
    | some first =>
        simp only [opening,Inner.escaped.injEq] at escaped
        subst escaped
        refine ⟨?_,fun _ none_opened => nomatch none_opened⟩
        cases ending : m.ending with
        | none => exact .inl opening
        | some last => exact .inr (.inr (.inr ending))
    | none =>
        cases attempt : m.attempt workflows with
        | ok delivered => simp [opening,attempt] at escaped
        | error raised =>
            refine ⟨?_,fun _ _ same => by cases same⟩
            cases closing : m.closing with
            | none => simp [opening,attempt,closing,Meets.isolates] at escaped
            | some first =>
                simp only [opening,attempt,closing,Inner.escaped.injEq] at escaped
                subst escaped
                cases ending : m.ending with
                | none => exact .inr (.inr (.inl closing))
                | some last => exact .inr (.inr (.inr ending))
  refine ⟨fun text' same => ?_,fun delivered opened same => absurd same (raises.2 delivered opened)⟩
  cases same
  exact raises.1

-- One isolated run records each of its workflows once, whatever it meets.
theorem alone_records {m : Meets Compiled Graph Merged Schedule Flat} {workflows : List WorkflowItem} {log : Log}
    (follows : Follows str required_cpu required_gpu requests size list_lambda log)
    (apart : ∀ e ∈ m.others, Fitting size list_lambda e ∧ Elsewhere batch e)
    (fits : ∀ w ∈ workflows, Fits (size w.request_id) (((list_lambda w.request_id).get? w.workflow_id).getD []) w)
    (some_workflow : workflows ≠ []) (mine : workflows ⊆ batch) (waiting : ∀ w ∈ workflows, pending_in log.requests w = true) :
    ∃ next b, run_alone str required_cpu required_gpu m workflows log = .ok next ∧
      Follows str required_cpu required_gpu requests size list_lambda next ∧ Records batch log next b ∧
      b.workflows = workflows ∧ Isolated m b := by
  obtain ⟨before,heard,kept,first⟩ := hear_follows follows (fun e member => apart e (List.mem_append_left _ member))
  unfold run_alone
  rw [heard]
  simp only [bind,Except.bind]
  cases inner : m.run_batch_inner false workflows with
  | retry => exact absurd inner (alone_never_retries m workflows)
  | recorded b =>
      obtain ⟨same,isolated⟩ := recorded_isolated inner
      have fitting : Fitting size list_lambda (.results b) := by
        rintro _ ⟨⟩
        rw [same]
        exact fits
      obtain ⟨after,recorded,kept,records⟩ := @record_follows str required_cpu required_gpu requests batch size list_lambda _ _ kept fitting
      obtain ⟨next,told,last,second⟩ := hear_follows kept (fun e member => apart e (List.mem_append_right _ member))
      have all := records.between first second
      have nobody : workflows.filter (pending_in next.requests) = [] := by
        refine List.filter_eq_nil_iff.mpr fun w member pending => ?_
        exact ((all.pending w (mine member)).mp pending).2 w (same ▸ member) ⟨rfl,rfl⟩
      refine ⟨next,b,?_,last,all,same,isolated⟩
      simp only [recorded,told]
      cases m.ending with
      | none => rfl
      | some text => exact if_pos nobody
  | escaped text =>
      obtain ⟨after,told,kept,second⟩ := hear_follows kept (fun e member => apart e (List.mem_append_right _ member))
      have everybody : workflows.filter (pending_in after.requests) = workflows := by
        refine List.filter_eq_self.mpr fun w member => ?_
        rw [second.pending w (mine member),first.pending w (mine member)]
        exact waiting w member
      have fitting : Fitting size list_lambda (.results (unrecorded_error workflows (m.ending.getD text))) := by
        rintro _ ⟨⟩
        exact fits
      obtain ⟨next,recorded,last,records⟩ := @record_follows str required_cpu required_gpu requests batch size list_lambda _ _ kept fitting
      refine ⟨next,_,?_,last,records.between (first.trans second) (.refl next),rfl,escaped_isolated inner⟩
      simp only [told,fail_unrecorded_workflows,everybody,if_neg some_workflow]
      exact recorded

-- The isolated runs one after the other.
theorem retries_record (parts : List (List WorkflowItem)) {meets : Nat → Meets Compiled Graph Merged Schedule Flat} {log : Log}
    (follows : Follows str required_cpu required_gpu requests size list_lambda log)
    (apart : ∀ n, ∀ e ∈ (meets n).others, Fitting size list_lambda e ∧ Elsewhere batch e)
    (fits : ∀ w ∈ batch, Fits (size w.request_id) (((list_lambda w.request_id).get? w.workflow_id).getD []) w)
    (some_workflow : ∀ workflows ∈ parts, workflows ≠ []) (mine : parts.flatten ⊆ batch)
    (distinct : (parts.flatten.map WorkflowItem.workflow_id).Nodup)
    (waiting : ∀ w ∈ parts.flatten, pending_in log.requests w = true) :
    ∃ next bs, run_retries str required_cpu required_gpu meets parts log = .ok next ∧
      Follows str required_cpu required_gpu requests size list_lambda next ∧
      next.recorded = log.recorded ++ bs ∧ next.raised = log.raised ∧ bs.map BatchResults.workflows = parts ∧
      (∀ n b, bs[n]? = some b → Isolated (meets n) b) ∧
      ∀ w ∈ batch, pending_in next.requests w = true ↔
        pending_in log.requests w = true ∧ ∀ v ∈ parts.flatten, ¬same_workflow v w := by
  induction parts generalizing meets log with
  | nil => exact ⟨log,[],rfl,follows,by simp,rfl,rfl,by simp,by simp⟩
  | cons workflows rest ih =>
      rw [List.flatten_cons] at mine distinct waiting
      have apart_ids := List.nodup_append.mp (List.map_append ▸ distinct)
      obtain ⟨middle,b,ran,kept,records,same,isolated⟩ := alone_records follows (apart 0)
        (fun w member => fits w (mine (List.mem_append_left _ member))) (some_workflow workflows List.mem_cons_self)
        (fun w member => mine (List.mem_append_left _ member)) (fun w member => waiting w (List.mem_append_left _ member))
      have later : ∀ w ∈ rest.flatten, pending_in middle.requests w = true := by
        intro w member
        refine (records.pending w (mine (List.mem_append_right _ member))).mpr
          ⟨waiting w (List.mem_append_right _ member),fun v inside twice => ?_⟩
        exact apart_ids.2.2 _ (List.mem_map_of_mem (same ▸ inside)) _ (List.mem_map_of_mem member) twice.2
      obtain ⟨next,bs,went,last,recorded,raised,parts_same,all,pending⟩ := @ih (fun n => meets (n + 1)) _ kept
        (fun n => apart (n + 1)) (fun part member => some_workflow part (List.mem_cons_of_mem _ member))
        (fun w member => mine (List.mem_append_right _ member)) apart_ids.2.1 later
      refine ⟨next,b :: bs,?_,last,?_,raised.trans records.raised,by simp [same,parts_same],?_,fun w member => ?_⟩
      · unfold run_retries
        rw [ran]
        exact went
      · rw [recorded,records.recorded,List.append_assoc]
        rfl
      · intro n b' here
        cases n with
        | zero =>
            cases Option.some.inj here
            exact isolated
        | succ n => exact all n b' here
      · rw [pending w member,records.pending w member,same,List.flatten_cons]
        simp only [List.mem_append,or_imp,forall_and,and_assoc]

-- The first execution, with no exception outside its handlers.
theorem joint_splits {m : Meets Compiled Graph Merged Schedule Flat} (opening : m.opening = none) (closing : m.closing = none)
    (splits : m.splits batch) : m.run_batch_inner true batch = .retry := by
  obtain ⟨cause,attempt,several⟩ := splits
  simp [Meets.run_batch_inner,opening,attempt,closing,Meets.isolates,Raised.is_runtime,several]

theorem joint_records {m : Meets Compiled Graph Merged Schedule Flat} (opening : m.opening = none) (closing : m.closing = none)
    (joint : ¬m.splits batch) :
    ∃ b, m.run_batch_inner true batch = .recorded b ∧ b.workflows = batch ∧
      (∀ raised, m.attempt batch = .error raised → b.error = some raised.text) ∧
      ∀ delivered, m.attempt batch = .ok delivered →
        b.error = none ∧ b.batch_outputs = delivered.1 ∧ b.batch_histories = delivered.2 := by
  unfold Meets.run_batch_inner
  simp only [opening,closing]
  cases attempt : m.attempt batch with
  | ok delivered =>
      refine ⟨_,rfl,rfl,fun _ wrong => (by cases wrong),fun _ same => ?_⟩
      cases same
      exact ⟨rfl,rfl,rfl⟩
  | error raised =>
      have together : m.isolates true batch raised = false := by
        cases raised with
        | stop stop => rfl
        | runtime cause =>
            simp only [Meets.isolates,Raised.is_runtime,Bool.true_and,decide_eq_false_iff_not]
            exact fun several => joint ⟨cause,attempt,several⟩
      refine ⟨m.results batch m.cancelled_after (some raised.text) (Dict.empty,Dict.empty),by simp [together],rfl,
        fun _ same => ?_,fun _ wrong => (by cases wrong)⟩
      cases same
      rfl

variable (requests batch) in
-- The slices of the batch and those of the outcomes around it fit the buffers of their
-- requests, and no other outcome ends a workflow of the batch.
def Steady (others : Nat → List Outcome) : Prop :=
  ∃ size : String → String → String → Nat,
    (∀ r state, requests.get? r = some state →
      Sized (size r) state.output_buffers ∧ Sized (size r) state.chat_history_buffers) ∧
    (∀ w ∈ batch, Fits (size w.request_id) (((list_lambda_of requests w.request_id).get? w.workflow_id).getD []) w) ∧
    ∀ n, ∀ e ∈ others n, Fitting size (list_lambda_of requests) e ∧ Elsewhere batch e

variable (str required_cpu required_gpu) in
-- A batch of waiting workflows whose first execution stays within its handlers: each
-- workflow is recorded once, whatever the isolated runs meet. When the backend failed
-- several requests, each is recorded from the run of its own workflows alone; every other
-- failure is recorded against the whole batch, and nothing is run again.
theorem failures_isolated {meets : Nat → Meets Compiled Graph Merged Schedule Flat}
    (steady : Steady requests batch (fun n => (meets n).others)) (distinct : (batch.map WorkflowItem.workflow_id).Nodup)
    (waiting : ∀ w ∈ batch, pending_in requests w = true)
    (contained : (meets 0).opening = none ∧ (meets 0).closing = none ∧ (meets 0).ending = none) :
    ∃ log, run_batch str required_cpu required_gpu meets batch { requests := requests } = .ok log ∧ log.raised = none ∧
      log.events.foldlM (settle str required_cpu required_gpu) requests = .ok log.requests ∧
      (log.recorded.flatMap BatchResults.workflows).Perm batch ∧ (∀ w ∈ batch, pending_in log.requests w = false) ∧
      ((meets 0).splits batch → log.recorded.length = (request_ids batch).length ∧
        ∀ n b, log.recorded[n]? = some b → ∃ request_id, (request_ids batch)[n]? = some request_id ∧
          b.workflows = batch.filter (fun w => decide (w.request_id = request_id)) ∧ Isolated (meets (n + 1)) b) ∧
      (¬(meets 0).splits batch → ∃ b, log.recorded = [b] ∧ b.workflows = batch ∧
        (∀ raised, (meets 0).attempt batch = .error raised → b.error = some raised.text) ∧
        ∀ delivered, (meets 0).attempt batch = .ok delivered →
          b.error = none ∧ b.batch_outputs = delivered.1 ∧ b.batch_histories = delivered.2) := by
  obtain ⟨size,sized,fits,apart⟩ := steady
  obtain ⟨opening,closing,ending⟩ := contained
  have start : Follows str required_cpu required_gpu requests size (list_lambda_of requests) { requests := requests } := by
    refine ⟨fun r before found => ?_,rfl⟩
    obtain ⟨outputs,histories⟩ := sized r before found
    exact ⟨outputs,histories,by simp [list_lambda_of,found]⟩
  obtain ⟨before,heard,kept,passes⟩ := hear_follows start (fun e member => apart 0 e (List.mem_append_left _ member))
  have still : ∀ w ∈ batch, pending_in before.requests w = true := fun w member => (passes.pending w member).trans (waiting w member)
  unfold run_batch
  simp only [heard,bind,Except.bind]
  by_cases splits : (meets 0).splits batch
  · have perm : (split_batch_by_request batch).flatten.Perm batch := Weights.perm_of_weight (fun _ => split_batch_weight)
    have each : ∀ part ∈ split_batch_by_request batch, part ≠ [] := by
      intro part member
      obtain ⟨r,inside,rfl⟩ := List.mem_map.mp member
      obtain ⟨w,present,own⟩ := mem_request_ids.mp inside
      exact List.ne_nil_of_mem (List.mem_filter.mpr ⟨present,by simpa using own⟩)
    obtain ⟨log,bs,ran,follows,recorded,raised,parts,isolated,pending⟩ := retries_record (split_batch_by_request batch) kept
      (fun n => apart (n + 1)) fits each perm.subset ((perm.map _).nodup_iff.mpr distinct)
      (fun w member => still w (perm.subset member))
    have mine : log.recorded = bs := by rw [recorded,passes.recorded]; rfl
    refine ⟨log,?_,raised.trans passes.raised,follows.events,?_,fun w member => ?_,fun _ => ⟨?_,fun n b here => ?_⟩,
      fun joint => absurd splits joint⟩
    · rw [joint_splits opening closing splits]
      simp only [ending]
      exact ran
    · rw [mine,List.flatMap_def,parts]
      exact perm
    · refine Bool.eq_false_iff.mpr fun waits => ?_
      exact ((pending w member).mp waits).2 w (perm.mem_iff.mpr member) ⟨rfl,rfl⟩
    · have lengths := congrArg List.length parts
      rw [mine]
      simpa [split_batch_by_request] using lengths
    · rw [mine] at here
      have part : (split_batch_by_request batch)[n]? = some b.workflows := by
        rw [← parts,List.getElem?_map,here]
        rfl
      obtain ⟨r,found,same⟩ := List.getElem?_map .. ▸ part |> Option.map_eq_some_iff.mp
      exact ⟨r,found,same.symm,isolated n b here⟩
  · obtain ⟨b,inner,same,failed,delivered⟩ := joint_records opening closing splits
    have fitting : Fitting size (list_lambda_of requests) (.results b) := by
      rintro _ ⟨⟩
      rw [same]
      exact fits
    obtain ⟨log,recorded,follows,records⟩ :=
      @record_follows str required_cpu required_gpu requests batch size (list_lambda_of requests) _ _ kept fitting
    have mine : log.recorded = [b] := by rw [records.recorded,passes.recorded]; rfl
    refine ⟨log,?_,records.raised.trans passes.raised,follows.events,?_,fun w member => ?_,
      fun split => absurd split splits,fun _ => ⟨b,mine,same,failed,delivered⟩⟩
    · rw [inner]
      simp only [recorded,ending]
      have unraised : log.raised = none := records.raised.trans passes.raised
      cases log
      cases unraised
      rfl
    · rw [mine]
      simp [same]
    · refine Bool.eq_false_iff.mpr fun waits => ?_
      exact ((records.pending w member).mp waits).2 w (same ▸ member) ⟨rfl,rfl⟩

end

def goodWorkflow : WorkflowItem := { sliceOf "wf-good" "g" 0 1 1 with request_id := "req-good" }
def badWorkflow : WorkflowItem := { sliceOf "wf-bad" "g" 0 1 1 with request_id := "req-bad" }

def twoWaiting : Requests :=
  (Dict.empty.set "req-good" { pending_workflows := {"wf-good"}, ready := true }).set "req-bad"
    { pending_workflows := {"wf-bad"}, ready := true }

-- One output value for every workflow, unless the group of the bad request fails to
-- coalesce, or the execution of its graph.
def stagesFailing (coalescing executing : Bool) : Stages Unit Unit (List String) Unit (List String) where
  chunk_within_python_timeouts workflows := [workflows]
  cancelled_text := "exec"
  cancelled_at_start := false
  merge_group_compiled_graph workflows :=
    if coalescing && workflows.any (fun w => decide (w.request_id = "req-bad")) then .error "Missing varying input" else .ok ()
  build _ _ := .ok ()
  optimize_graphs graphs := .ok (graphs.map Prod.fst)
  count_optimized_nodes _ := .ok ()
  make_schedule _ _ := .ok ()
  cancelled_at_submit := false
  process_request merged _ :=
    if executing && merged.any (fun key => decide (key = request_workflow_parent_id badWorkflow)) then .error (.error "Task failed")
    else .ok merged
  demux grouped _ _ := .ok (grouped.values.flatten.foldl (fun outputs w =>
    outputs.set w.workflow_id (Dict.empty.set "out" [.str "ok"])) Dict.empty,Dict.empty)

def meetsFailing (coalescing executing : Bool) (_ : Nat) : Meets Unit Unit (List String) Unit (List String) where
  stages := stagesFailing coalescing executing
  batch_id := "batch"
  execution_request_id := "exec"

def goodOutputs : Dict String Payload × Dict String Payload :=
  (Dict.empty.set "wf-good" (Dict.empty.set "out" [.str "ok"]),Dict.empty)

theorem good_alone {coalescing executing : Bool} {n : Nat} :
    (meetsFailing coalescing executing n).attempt [goodWorkflow] = .ok goodOutputs := by
  have group : group_workflows_by_parent_workflow (fun workflows => [workflows]) [goodWorkflow] =
      Dict.empty.set (request_workflow_parent_id goodWorkflow) [goodWorkflow] := by
    simp only [group_workflows_by_parent_workflow,List.foldl_cons,List.foldl_nil]
    change List.foldl _ Dict.empty [(request_workflow_parent_id goodWorkflow,[goodWorkflow])] = _
    simp only [List.foldl_cons,List.foldl_nil,List.mergeSort_singleton]
    rfl
  change ((meetsFailing coalescing executing n).stages.process_batch [goodWorkflow] >>= _) = _
  unfold Stages.process_batch Stages.plan
  change (((Except.mapError _ (_ >>= _)) >>= _) >>= _) = _
  simp only [meetsFailing,stagesFailing,group]
  cases coalescing <;> cases executing <;> rfl

theorem twoWaiting_steady {coalescing executing : Bool} :
    Steady twoWaiting [goodWorkflow,badWorkflow] (fun n => (meetsFailing coalescing executing n).others) := by
  refine ⟨fun _ _ _ => 1,?_,?_,fun n e none_there => by cases none_there⟩
  · intro r state found
    have fresh : state.output_buffers = Dict.empty ∧ state.chat_history_buffers = Dict.empty := by
      have entry := Dict.get?_eq_some.mp found
      simp only [twoWaiting,Dict.mem_entries_set,Dict.entries_empty,List.not_mem_nil,false_and,false_or,Prod.mk.injEq] at entry
      rcases entry with ⟨⟨_,rfl⟩,_⟩ | ⟨_,rfl⟩ <;> exact ⟨rfl,rfl⟩
    rw [fresh.1,fresh.2]
    exact ⟨fun _ _ _ _ seen => by simp at seen,fun _ _ _ _ seen => by simp at seen⟩
  · intro w member name
    rcases List.mem_pair.mp member with rfl | rfl <;> rfl

theorem failures_isolated_two :
    (meetsFailing false true 0).splits [goodWorkflow,badWorkflow] ∧
    ∃ log, run_batch plain 1 0 (meetsFailing false true) [goodWorkflow,badWorkflow] { requests := twoWaiting } = .ok log ∧
      ∃ b, log.recorded[0]? = some b ∧ b.workflows = [goodWorkflow] ∧ b.error = none := by
  have splits : (meetsFailing false true 0).splits [goodWorkflow,badWorkflow] := ⟨"Task failed",rfl,by decide⟩
  obtain ⟨log,ran,_,_,_,_,isolated,_⟩ := @failures_isolated plain 1 0 twoWaiting [goodWorkflow,badWorkflow]
    _ _ _ _ _ (meetsFailing false true) twoWaiting_steady (by decide) (by decide) ⟨rfl,rfl,rfl⟩
  obtain ⟨length,each⟩ := isolated splits
  refine ⟨splits,log,ran,?_⟩
  cases here : log.recorded[0]? with
  | none =>
      have empty := List.getElem?_eq_none_iff.mp here
      rw [length] at empty
      exact absurd empty (by decide)
  | some b =>
      obtain ⟨r,first,same,alone⟩ := each 0 b here
      cases Option.some.inj first
      have own : b.workflows = [goodWorkflow] := same
      exact ⟨b,rfl,own,(alone.kept goodOutputs rfl (own.symm ▸ good_alone)).1⟩

def first_error (after : Except String Log) : Option (Option String × List String) :=
  match after with
  | .ok log => log.recorded.head?.map (fun b => (b.error,b.workflows.map WorkflowItem.request_id))
  | .error _ => none

-- The bad request's slices cannot be coalesced: the good one gets the error.
theorem coalescing_failure_shared :
    ¬ ∀ (meets : Nat → Meets Unit Unit (List String) Unit (List String)) (requests : Requests) (batch : List WorkflowItem)
      (bad : String), Steady requests batch (fun n => (meets n).others) → (batch.map WorkflowItem.workflow_id).Nodup →
      (∀ w ∈ batch, pending_in requests w = true) → (∀ n, (meets n).opening = none ∧ (meets n).closing = none ∧ (meets n).ending = none) →
      1 < (request_ids batch).length →
      (∀ n, ∀ r ∈ request_ids batch, r ≠ bad →
        ∃ delivered, (meets n).attempt (batch.filter (fun w => decide (w.request_id = r))) = .ok delivered) →
      ∃ log, run_batch plain 1 0 meets batch { requests := requests } = .ok log ∧
        ∀ b ∈ log.recorded, ∀ w ∈ b.workflows, w.request_id ≠ bad → b.error = none := by
  intro always
  obtain ⟨log,ran,clean⟩ := always (meetsFailing true false) twoWaiting [goodWorkflow,badWorkflow] "req-bad"
    twoWaiting_steady (by decide) (by decide) (fun _ => ⟨rfl,rfl,rfl⟩) (by decide) (by
      intro n r inside other
      obtain ⟨w,member,rfl⟩ := mem_request_ids.mp inside
      rcases List.mem_pair.mp member with rfl | rfl
      · exact ⟨goodOutputs,good_alone⟩
      · exact absurd rfl other)
  have shown : first_error (run_batch plain 1 0 (meetsFailing true false) [goodWorkflow,badWorkflow] { requests := twoWaiting }) =
      some (some "Missing varying input",["req-good","req-bad"]) := by decide +kernel
  rw [ran] at shown
  obtain ⟨b,head,same⟩ := Option.map_eq_some_iff.mp shown
  simp only [Prod.mk.injEq] at same
  have inside : "req-good" ∈ b.workflows.map WorkflowItem.request_id := by simp [same.2]
  obtain ⟨w,member,own⟩ := List.mem_map.mp inside
  have none_there := clean b (List.mem_of_mem_head? head) w member (by rw [own]; decide)
  rw [none_there] at same
  cases same.1

end Lumilake.Server

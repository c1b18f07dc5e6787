import Lumilake.Library.Dict
import Lumilake.Library.Runs

namespace Lumilake.Server

-- An execution and the requests that share it.
structure SharedExecution where
  execution_request_id : String
  request_ids : List String
  apart : execution_request_id ∉ request_ids

-- `_should_cancel_execution` between its accesses to the cancel flags: the members found
-- cancelled so far and those still to be asked for.
inductive Check where
  | entered
  | collecting (cancelled_members left : List String)
  deriving DecidableEq

-- A `cancel_request` of a member, after it has set the member's flag.
inductive CancelCall where
  | flagged
  | asking (check : Check)
  | cancelling (workflow_ids : List String)
  deriving DecidableEq

-- Where the run of the execution stands, from the queue to the end of `_run_batch`.
inductive RunPoint where
  | queued
  | opening (active left : List String)
  | skipping
  | working (active : List String)
  | checking (active : List String) (check : Check)
  | building
  | submitting
  | accepted (workflow_id : String)
  | recorded (workflow_id : String)
  | polling (workflow_id : String)
  | aborting (workflow_id : String)
  | stopping (workflow_ids : List String)
  | settled
  | ended
  deriving DecidableEq

-- Its context is registered.
def RunPoint.registered : RunPoint → Bool
  | .queued | .ended => false
  | _ => true

-- Registered, and it has looked at its members.
def RunPoint.underway : RunPoint → Bool
  | .queued | .opening _ _ | .skipping | .ended => false
  | _ => true

-- `submitted` is what FlowMesh has accepted for the execution, `cancels` what it has been
-- told to cancel, and `released` the members whose jobs have released the execution.
structure Cancelling where
  cancelled_requests : List String := []
  batch_workflow_id : Option String := none
  calls : Dict Nat CancelCall := Dict.empty
  run : RunPoint := .queued
  submitted : List String := []
  cancels : List String := []
  released : List String := []

inductive Verdict where
  | more (check : Check)
  | already
  | keep
  | cancel

-- One access of the check to the flags.
def check_step (x : SharedExecution) (flags members : List String) : Check → Verdict
  | .entered => if x.execution_request_id ∈ flags then .already else .more (.collecting [] members)
  | .collecting found (m :: left) => .more (.collecting (if m ∈ flags then found ++ [m] else found) left)
  | .collecting found [] => if found.length < members.length then .keep else .cancel

theorem check_entered (x : SharedExecution) (flags members : List String) :
    check_step x flags members .entered =
      if x.execution_request_id ∈ flags then .already else .more (.collecting [] members) := rfl

theorem check_counted (x : SharedExecution) (flags members found : List String) :
    check_step x flags members (.collecting found []) = if found.length < members.length then .keep else .cancel := rfl

namespace Cancelling

-- `FlowmeshRuntimeManager.cancel_request` for the execution: the flag, and the workflow ids
-- to cancel.
def flag_execution (x : SharedExecution) (s : Cancelling) : Cancelling :=
  { s with cancelled_requests := x.execution_request_id :: s.cancelled_requests }

def ask_call (x : SharedExecution) (s : Cancelling) (call : Nat) (check : Check) : Cancelling :=
  match check_step x s.cancelled_requests x.request_ids check with
  | .more next => { s with calls := s.calls.set call (.asking next) }
  | .already | .keep => { s with calls := s.calls.erase call }
  | .cancel => { flag_execution x s with calls := s.calls.set call (.cancelling s.batch_workflow_id.toList) }

def check_run (x : SharedExecution) (s : Cancelling) (active : List String) (check : Check) : Cancelling :=
  match check_step x s.cancelled_requests active check with
  | .more next => { s with run := .checking active next }
  | .already => { s with run := .settled }
  | .keep => { s with run := .working active }
  | .cancel => { flag_execution x s with run := .stopping s.batch_workflow_id.toList }

-- `release_request_workflows` of a member: with the last one the recorded id is dropped.
def dropped (x : SharedExecution) (s : Cancelling) (request_id : String) : Bool :=
  x.request_ids.all (fun m => decide (m ∈ request_id :: s.released))

def release (x : SharedExecution) (s : Cancelling) (request_id : String) : Cancelling :=
  { s with
    released := request_id :: s.released
    batch_workflow_id := if s.dropped x request_id then none else s.batch_workflow_id }

-- A check of the execution's flag alone, raising RequestCancelledError.
def unless_cancelled (x : SharedExecution) (s : Cancelling) (stopped next : RunPoint) : Cancelling :=
  { s with run := if x.execution_request_id ∈ s.cancelled_requests then stopped else next }

end Cancelling

inductive CancelLabel where
  | cancel (call : Nat) (request_id : String)
  | look (call : Nat)
  | ask (call : Nat)
  | send (call : Nat)
  | done (call : Nat)
  | start
  | collect
  | collected
  | skip
  | consult
  | check
  | fail
  | fail_building
  | enter_submission
  | confirm
  | accept (workflow_id : String)
  | reject
  | lose
  | record
  | check_recorded
  | poll
  | fail_polling
  | complete
  | abort
  | send_own
  | stop
  | leave
  | release (request_id : String)
  deriving DecidableEq

open Cancelling in
-- One access to the shared state, by a call or by the run.
inductive CancelStep (x : SharedExecution) : Cancelling → CancelLabel → Cancelling → Prop where
  | cancel (s : Cancelling) (call : Nat) (request_id : String) (member : request_id ∈ x.request_ids) (fresh : call ∉ s.calls) :
      CancelStep x s (.cancel call request_id)
        { s with cancelled_requests := request_id :: s.cancelled_requests, calls := s.calls.set call .flagged }
  | look (s : Cancelling) (call : Nat) (here : s.calls.get? call = some .flagged) :
      CancelStep x s (.look call)
        { s with calls := if s.run.registered then s.calls.set call (.asking .entered) else s.calls.erase call }
  | ask (s : Cancelling) (call : Nat) (check : Check) (here : s.calls.get? call = some (.asking check)) :
      CancelStep x s (.ask call) (ask_call x s call check)
  | send (s : Cancelling) (call : Nat) (id : String) (ids : List String) (here : s.calls.get? call = some (.cancelling (id :: ids))) :
      CancelStep x s (.send call) { s with cancels := id :: s.cancels, calls := s.calls.set call (.cancelling ids) }
  | done (s : Cancelling) (call : Nat) (here : s.calls.get? call = some (.cancelling [])) :
      CancelStep x s (.done call) { s with calls := s.calls.erase call }
  | start (s : Cancelling) (here : s.run = .queued) : CancelStep x s .start { s with run := .opening [] x.request_ids }
  | collect (s : Cancelling) (active left : List String) (m : String) (here : s.run = .opening active (m :: left)) :
      CancelStep x s .collect
        { s with run := .opening (if m ∈ s.cancelled_requests then active else active ++ [m]) left }
  | collected (s : Cancelling) (active : List String) (here : s.run = .opening active []) :
      CancelStep x s .collected { s with run := if active = [] then .skipping else .working active }
  | skip (s : Cancelling) (here : s.run = .skipping) :
      CancelStep x s .skip { flag_execution x s with run := .stopping s.batch_workflow_id.toList }
  | consult (s : Cancelling) (active : List String) (here : s.run = .working active) :
      CancelStep x s .consult { s with run := .checking active .entered }
  | check (s : Cancelling) (active : List String) (check : Check) (here : s.run = .checking active check) :
      CancelStep x s .check (check_run x s active check)
  | fail (s : Cancelling) (active : List String) (here : s.run = .working active) :
      CancelStep x s .fail { s with run := .settled }
  | fail_building (s : Cancelling) (here : s.run = .building) : CancelStep x s .fail_building { s with run := .settled }
  | enter_submission (s : Cancelling) (active : List String) (here : s.run = .working active) :
      CancelStep x s .enter_submission (unless_cancelled x s .settled .building)
  | confirm (s : Cancelling) (here : s.run = .building) : CancelStep x s .confirm (unless_cancelled x s .settled .submitting)
  | accept (s : Cancelling) (id : String) (here : s.run = .submitting) :
      CancelStep x s (.accept id) { s with run := .accepted id, submitted := id :: s.submitted }
  | reject (s : Cancelling) (here : s.run = .submitting) : CancelStep x s .reject { s with run := .settled }
  | lose (s : Cancelling) (id : String) (here : s.run = .accepted id) : CancelStep x s .lose { s with run := .settled }
  | record (s : Cancelling) (id : String) (here : s.run = .accepted id) :
      CancelStep x s .record { s with run := .recorded id, batch_workflow_id := some id }
  | check_recorded (s : Cancelling) (id : String) (here : s.run = .recorded id) :
      CancelStep x s .check_recorded (unless_cancelled x s (.aborting id) (.polling id))
  | poll (s : Cancelling) (id : String) (here : s.run = .polling id) :
      CancelStep x s .poll (unless_cancelled x s (.aborting id) (.polling id))
  | fail_polling (s : Cancelling) (id : String) (here : s.run = .polling id) :
      CancelStep x s .fail_polling { s with run := .aborting id }
  | complete (s : Cancelling) (id : String) (here : s.run = .polling id) : CancelStep x s .complete { s with run := .settled }
  | abort (s : Cancelling) (id : String) (here : s.run = .aborting id) :
      CancelStep x s .abort { s with run := .settled, cancels := id :: s.cancels }
  | send_own (s : Cancelling) (id : String) (ids : List String) (here : s.run = .stopping (id :: ids)) :
      CancelStep x s .send_own { s with run := .stopping ids, cancels := id :: s.cancels }
  | stop (s : Cancelling) (here : s.run = .stopping []) : CancelStep x s .stop { s with run := .settled }
  | leave (s : Cancelling) (here : s.run = .settled) : CancelStep x s .leave { s with run := .ended }
  | release (s : Cancelling) (request_id : String) (member : request_id ∈ x.request_ids) (here : s.run ≠ .queued) :
      CancelStep x s (.release request_id) (s.release x request_id)

-- The run is over, and no call is in the middle of a check.
def Cancelling.Over (s : Cancelling) : Prop := s.run = .ended ∧ ∀ call check, s.calls.get? call ≠ some (.asking check)

-- No answer to a submit is lost once FlowMesh has created the workflow, and no release drops
-- a recorded id before the execution is cancelled, unless it can no longer be.
structure Accounted (x : SharedExecution) (s : Cancelling) (label : CancelLabel) : Prop where
  answered : label ≠ .lose
  kept : ∀ request_id, label = .release request_id → s.dropped x request_id = true →
    s.batch_workflow_id = none ∨ x.execution_request_id ∈ s.cancelled_requests ∨ s.Over

-- Every member has been cancelled.
def AllCancelled (x : SharedExecution) (s : Cancelling) : Prop := ∀ m ∈ x.request_ids, m ∈ s.cancelled_requests

-- What cancelling promises: the execution only after all members; all members, once their
-- calls are over, the execution that runs; and with it each of its workflows.
structure CancelledTogether (x : SharedExecution) (s : Cancelling) : Prop where
  members : x.execution_request_id ∈ s.cancelled_requests → AllCancelled x s
  execution : s.calls.keys = [] → s.run.underway = true → AllCancelled x s → x.execution_request_id ∈ s.cancelled_requests
  workflows : s.calls.keys = [] → s.run = .ended → x.execution_request_id ∈ s.cancelled_requests →
    ∀ workflow_id ∈ s.submitted, workflow_id ∈ s.cancels

end Lumilake.Server

import Lumilake.Server.NodeCounters
import Lumilake.Server.WorkerClaims
import Lumilake.Library.Runs

namespace Lumilake.Server
open PriorityQueue

def split_batch_by_request (workflows : List WorkflowItem) : List (List WorkflowItem) :=
  (request_ids workflows).map (fun id => workflows.filter (fun w => decide (w.request_id = id)))

-- Where `_run_batch` stands. Up to `starting` and from `settling` on an exception leaves
-- `_run_batch_inner`; in `working` its own handlers take it.
inductive Point where
  | starting
  | working
  | settling (retry : Bool)
  | leaving
  | between
  | escaped
  | releasing
  deriving DecidableEq

-- One task of `_inflight_tasks`. The first execution of the batch has no `reruns` yet;
-- the isolated ones have those that are still to come.
structure BatchRun where
  workers : List String
  point : Point := .starting
  batch : List WorkflowItem
  batch_id : String
  cancelled_requests : List String := []
  recorded : Option Nat := none
  reruns : Option (List (List WorkflowItem)) := none

namespace BatchRun

def active_workflows (r : BatchRun) : List WorkflowItem :=
  r.batch.filter (fun w => !decide (w.request_id ∈ r.cancelled_requests))

def cancelled_workflows (r : BatchRun) : List WorkflowItem :=
  r.batch.filter (fun w => decide (w.request_id ∈ r.cancelled_requests))

def later (r : BatchRun) : List WorkflowItem := (r.reruns.getD []).flatten

-- The workflows whose nodes the run has not counted, or has handed back.
def waiting (r : BatchRun) : List WorkflowItem :=
  match r.point with
  | .starting | .leaving => r.batch ++ r.later
  | .working | .settling _ => r.cancelled_workflows ++ r.later
  | .between | .escaped => r.later
  | .releasing => []

-- Those whose nodes are in processing.
def counted (r : BatchRun) : List WorkflowItem :=
  match r.point with
  | .working | .settling _ => r.active_workflows
  | _ => []

end BatchRun

-- The scheduler loop from the claim to the new task.
inductive Scheduler where
  | idle
  | claimed (workers : List String) (batch : List WorkflowItem)
  | committed (workers : List String) (batch : List WorkflowItem)
  | undoing (workers : List String) (batch : List WorkflowItem)

namespace Scheduler

def batch : Scheduler → List WorkflowItem
  | idle => []
  | claimed _ batch | committed _ batch | undoing _ batch => batch

def holding : Scheduler → List String
  | idle => []
  | claimed workers _ | committed workers _ | undoing workers _ => workers

end Scheduler

-- Beside the state of the server, what became of the workflows so far: `skipped` ended
-- uncounted, `stuck` are still counted for a batch that an exception ended.
structure System where
  busy_workers : Finset String := ∅
  requests : CounterTable := Dict.empty
  queued : List WorkflowItem := []
  scheduler : Scheduler := .idle
  runs : List BatchRun := []
  batch_ids : List String := []
  items : List WorkflowItem := []
  skipped : List WorkflowItem := []
  stuck : List WorkflowItem := []
  processed : List WorkflowItem := []
  errors : List String := []

inductive Label where
  | submit | enqueue_raises | remove | claim | commit | commit_raises | dispatch | dispatch_raises
  | undo | undo_fails | undo_raises | start (cancelled : List String) | record | end_work | settle | leave | rerun | last_rerun
  | raises (first : Bool) | escape | caught | uncaught | release | release_raises
  deriving DecidableEq

inductive Step (cfg : Settings) : System → Label → System → Prop where
  | submit (own : ∀ w ∈ query, w.request_id = request_id) (new : request_id ∉ s.requests.keys)
      (fresh : ((s.items ++ query).map WorkflowItem.workflow_id).Nodup) :
      Step cfg s .submit { s with
        requests := s.requests.set request_id (new_counters query)
        queued := s.queued ++ query
        items := s.items ++ query }
  | enqueue_raises (own : ∀ w ∈ query, w.request_id = request_id) (new : request_id ∉ s.requests.keys)
      (fresh : ((s.items ++ query).map WorkflowItem.workflow_id).Nodup) :
      Step cfg s .enqueue_raises { s with
        requests := s.requests.set request_id (new_counters query)
        skipped := s.skipped ++ query
        items := s.items ++ query }
  -- `_fail_unplaceable_batch`
  | remove (parts : (workflows ++ rest).Perm s.queued) :
      Step cfg s .remove { s with queued := rest, skipped := s.skipped ++ workflows }
  | claim (batch : Reservation) (free total : FreeCapacity) (idle : s.scheduler = .idle)
      (parts : (batch.workflows ++ rest).Perm s.queued)
      (claimed : try_claim_workers cfg s.busy_workers batch free total = (busy,some workers)) :
      Step cfg s .claim { s with
        busy_workers := busy
        queued := rest
        scheduler := .claimed workers batch.workflows }
  | commit (here : s.scheduler = .claimed workers batch) :
      Step cfg s .commit { s with scheduler := .committed workers batch }
  | commit_raises (here : s.scheduler = .claimed workers batch) :
      Step cfg s .commit_raises { s with scheduler := .undoing workers batch }
  | dispatch (here : s.scheduler = .committed workers batch) (fresh : batch_id ∉ s.batch_ids) :
      Step cfg s .dispatch { s with
        scheduler := .idle
        runs := s.runs ++ [{ workers := workers, batch := batch, batch_id := batch_id }]
        batch_ids := batch_id :: s.batch_ids }
  | dispatch_raises (here : s.scheduler = .committed workers batch) :
      Step cfg s .dispatch_raises { s with scheduler := .idle, skipped := s.skipped ++ batch }
  | undo (here : s.scheduler = .undoing workers batch) :
      Step cfg s .undo { s with
        busy_workers := s.busy_workers \ workers.toFinset
        queued := s.queued ++ batch
        scheduler := .idle }
  -- the workers are released; the abort itself fails and is logged
  | undo_fails (here : s.scheduler = .undoing workers batch) :
      Step cfg s .undo_fails { s with
        busy_workers := s.busy_workers \ workers.toFinset
        scheduler := .idle
        skipped := s.skipped ++ batch }
  | undo_raises (here : s.scheduler = .undoing workers batch) :
      Step cfg s .undo_raises { s with scheduler := .idle, skipped := s.skipped ++ batch }
  | start (cancelled : List String) (here : s.runs = before ++ r :: after) (at_start : r.point = .starting)
      (moved : start_counters r.batch_id { r with cancelled_requests := cancelled }.active_workflows s.requests = (requests,none)) :
      Step cfg s (.start cancelled) { s with
        requests := requests
        runs := before ++ { r with point := .working, cancelled_requests := cancelled, recorded := none } :: after }
  | start_fails (cancelled : List String) (here : s.runs = before ++ r :: after) (at_start : r.point = .starting)
      (failed : start_counters r.batch_id { r with cancelled_requests := cancelled }.active_workflows s.requests =
        (requests,some message)) :
      Step cfg s (.start cancelled) { s with
        requests := requests
        runs := before ++ { r with point := .settling false, cancelled_requests := cancelled } :: after
        errors := message :: s.errors }
  | record (total_nodes : Nat) (here : s.runs = before ++ r :: after) (working : r.point = .working)
      (once : r.recorded = none) (some_active : r.active_workflows ≠ [])
      (moved : record_counters r.batch_id total_nodes r.active_workflows s.requests = (requests,none)) :
      Step cfg s .record { s with
        requests := requests
        runs := before ++ { r with recorded := some total_nodes } :: after }
  | record_fails (total_nodes : Nat) (here : s.runs = before ++ r :: after) (working : r.point = .working)
      (once : r.recorded = none) (some_active : r.active_workflows ≠ [])
      (failed : record_counters r.batch_id total_nodes r.active_workflows s.requests = (requests,some message)) :
      Step cfg s .record { s with
        requests := requests
        runs := before ++ { r with point := .settling false } :: after
        errors := message :: s.errors }
  -- success, cancellation and failure all end here; the failure of several requests asks for a retry
  | end_work (retry : Bool) (here : s.runs = before ++ r :: after) (working : r.point = .working)
      (isolate : retry = true → r.reruns = none ∧ 1 < (request_ids r.active_workflows).length) :
      Step cfg s .end_work { s with runs := before ++ { r with point := .settling retry } :: after }
  | settle (here : s.runs = before ++ r :: after) (settling : r.point = .settling false)
      (moved : settle_counters r.batch_id false r.active_workflows s.requests = (requests,none)) :
      Step cfg s .settle { s with
        requests := requests
        runs := before ++ { r with point := if r.reruns.isSome then .between else .releasing } :: after
        skipped := s.skipped ++ r.cancelled_workflows
        processed := s.processed ++ r.active_workflows }
  | settle_retry (here : s.runs = before ++ r :: after) (settling : r.point = .settling true)
      (moved : settle_counters r.batch_id true r.active_workflows s.requests = (requests,none)) :
      Step cfg s .settle { s with
        requests := requests
        runs := before ++ { r with point := .leaving } :: after }
  | settle_fails (retry : Bool) (here : s.runs = before ++ r :: after) (settling : r.point = .settling retry)
      (failed : settle_counters r.batch_id retry r.active_workflows s.requests = (requests,some message)) :
      Step cfg s .settle { s with
        requests := requests
        runs := before ++ { r with point := .escaped } :: after
        skipped := s.skipped ++ r.cancelled_workflows
        stuck := s.stuck ++ r.active_workflows
        errors := message :: s.errors }
  | leave (here : s.runs = before ++ r :: after) (leaving : r.point = .leaving) :
      Step cfg s .leave { s with
        runs := before ++ { r with point := .between, reruns := some (split_batch_by_request r.batch) } :: after }
  | rerun (here : s.runs = before ++ r :: after) (between : r.point = .between) (next : r.reruns = some (batch :: rest))
      (fresh : batch_id ∉ s.batch_ids) :
      Step cfg s .rerun { s with
        runs := before ++ { r with
          point := .starting
          batch := batch
          batch_id := batch_id
          cancelled_requests := []
          reruns := some rest } :: after
        batch_ids := batch_id :: s.batch_ids }
  | last_rerun (here : s.runs = before ++ r :: after) (between : r.point = .between) (last : r.reruns = some []) :
      Step cfg s .last_rerun { s with runs := before ++ { r with point := .releasing } :: after }
  -- an exception outside the handlers of `_run_batch_inner`, here with the counters as they stand
  | raises (here : s.runs = before ++ r :: after)
      (unhandled : r.point = .starting ∨ (∃ retry, r.point = .settling retry) ∨ r.point = .leaving) :
      Step cfg s (.raises r.reruns.isNone) { s with
        runs := before ++ { r with point := .escaped } :: after
        skipped := s.skipped ++ (if r.point = .starting ∨ r.point = .leaving then r.batch else r.cancelled_workflows)
        stuck := s.stuck ++ r.counted }
  -- out of the first execution it ends the task before `_release_workers`
  | escape (here : s.runs = before ++ r :: after) (escaped : r.point = .escaped) (first : r.reruns = none) :
      Step cfg s .escape { s with runs := before ++ after }
  -- out of a retry it is recorded, or ends the loop over the retries
  | caught (here : s.runs = before ++ r :: after) (escaped : r.point = .escaped) (nested : r.reruns.isSome = true) :
      Step cfg s .caught { s with runs := before ++ { r with point := .between } :: after }
  | uncaught (here : s.runs = before ++ r :: after) (escaped : r.point = .escaped) (nested : r.reruns.isSome = true) :
      Step cfg s .uncaught { s with
        runs := before ++ { r with point := .releasing } :: after
        skipped := s.skipped ++ r.later }
  | release (here : s.runs = before ++ r :: after) (releasing : r.point = .releasing) :
      Step cfg s .release { s with
        busy_workers := s.busy_workers \ r.workers.toFinset
        runs := before ++ after }
  | release_raises (here : s.runs = before ++ r :: after) (releasing : r.point = .releasing) :
      Step cfg s .release_raises { s with runs := before ++ after }

abbrev Execution (cfg : Settings) : List Label → System → Prop := Runs (Step cfg) {}

end Lumilake.Server

import Mathlib.Data.List.Basic
import Lumilake.Library.Dict
import Lumilake.Protocol
import Lumilake.Value

namespace Lumilake.Jobs

inductive JobStatus where
  | pending | running | completed | failed | cancelled
  deriving DecidableEq, Repr

def JobStatus.value : JobStatus → String
  | .pending => "pending"
  | .running => "running"
  | .completed => "completed"
  | .failed => "failed"
  | .cancelled => "cancelled"

def TERMINAL_JOB_STATUSES : List JobStatus := [.completed,.failed,.cancelled]

structure JobRecord where
  job_id : String
  status : JobStatus
  submitted_at : Time
  started_at : Option Time := none
  finished_at : Option Time := none
  error : Option String := none
  result : Option LumilakeResponse := none
  parent_job_id : Option String := none
  child_job_ids : List String := []

def JobRecord.terminal (record : JobRecord) : Prop := record.status ∈ TERMINAL_JOB_STATUSES

instance (record : JobRecord) : Decidable record.terminal :=
  inferInstanceAs (Decidable (record.status ∈ TERMINAL_JOB_STATUSES))

-- `record.error` where it says something, else the given text.
def JobRecord.error_or (record : JobRecord) (message : String) : Option String :=
  match record.error with
  | none => some message
  | some text => if text = "" then some message else some text

def JobRecord.run (now : Time) (record : JobRecord) : JobRecord :=
  { record with status := .running, started_at := some now }

def JobRecord.close (status : JobStatus) (error : Option String) (now : Time) (record : JobRecord) : JobRecord :=
  { record with status := status, error := error, finished_at := some now }

-- `summary` is the text that `_summarize_error_info` makes of the response's errors.
def JobRecord.finish (response : LumilakeResponse) (summary : Option String) (now : Time) (record : JobRecord) :
    JobRecord :=
  let record := { record with result := some response }
  if (response.error_info.getD []).isEmpty then record.close .completed record.error now
  else match summary with
    | none => record.close .failed record.error now
    | some text => record.close .failed (if text = "" then record.error else some text) now

-- A record is an object that several coroutines hold; a reference is its place here.
abbrev Ref := Nat

-- What a dynamic run reads of its spec; `job_timeout` is as an f-string prints it.
structure DynamicSpec where
  max_rounds : Nat
  api : Bool
  job_timeout : String

inductive RunPoint where
  | start
  | executing
  | closing

inductive DynamicPoint where
  | start
  | round
  | child_saving (child : Ref)
  | awaiting (child : Ref) (task : Nat)
  | timed_out (child : Ref)
  | timeout_raised (child : Ref) (suffix : String)
  | returned (child_job_id : String)
  | judging (child_job_id : String) (child_status : JobStatus)
  | stopped

inductive CancelPoint where
  | missing (job_id : String)
  | authorized (record : Ref)
  | cancelled (record : Ref)
  | children (child_job_ids : List String)
  | backend (child : Ref) (rest : List String)

-- A coroutine, by the await it is suspended at and the locals it needs after it.
inductive Task where
  | submit_job (record : Ref) (dynamic : Option DynamicSpec)
  | run_job (record : Ref) (point : RunPoint)
  | run_dynamic_job (record : Ref) (spec : DynamicSpec) (round_index : Nat) (point : DynamicPoint)
  | cancel_job (point : CancelPoint)
  | done

structure State where
  records : List JobRecord
  jobs : Dict String Ref
  tasks : List Task

-- What the pending await of a coroutine comes back with. `quit` is an escape
-- past every handler: the coroutine ends and writes no status.
inductive Event where
  | resumed
  | quit
  | raised (message : String)
  | request_cancelled
  | response (response : LumilakeResponse) (summary : Option String)
  | build_failed (message : String)
  | compile_failed (message : String)
  | gpu_zero_conflict
  | child_built (child_job_id : String)
  | plan_invalid (message : String)
  | plan_stop
  | plan_subgraph
  | timeout
  | loaded (record : JobRecord)

namespace State

def initial : State := ⟨[],Dict.empty,[]⟩

def write (s : State) (record : Ref) (update : JobRecord → JobRecord) : State :=
  { s with records := s.records.modify record update }

-- The guard that the locked sections share: a terminal record is left alone.
def guarded (s : State) (record : Ref) (update : JobRecord → JobRecord) : State :=
  s.write record (fun r => if r.terminal then r else update r)

def terminal (s : State) (record : Ref) : Bool :=
  match s.records[record]? with
  | none => true
  | some r => decide r.terminal

def goto (s : State) (i : Nat) (task : Task) : State := { s with tasks := s.tasks.set i task }

def spawn (s : State) (task : Task) : State := { s with tasks := s.tasks ++ [task] }

-- `jobs[job_id] = record` for a record made here or read back from storage.
def register (s : State) (job_id : String) (record : JobRecord) : State :=
  { s with records := s.records ++ [record], jobs := s.jobs.set job_id s.records.length }

end State

def GPU_ZERO_CONFLICT : String :=
  "hardware.gpu=0 conflicts with workflow: this graph contains ops that require a GPU worker (vLLM / transformers / diffusers / text-to-image). Drop --gpu 0 or remove the GPU op."

def run_job (s : State) (i : Nat) (now : Time) (record : Ref) : RunPoint → Event → State
  | .start,.resumed =>
    if s.terminal record then s.goto i .done
    else (s.write record (JobRecord.run now)).goto i (.run_job record .executing)
  | .executing,.response response summary =>
    (s.guarded record (JobRecord.finish response summary now)).goto i (.run_job record .closing)
  | .executing,.request_cancelled =>
    (s.guarded record (fun r => r.close .cancelled r.error now)).goto i .done
  | .executing,.raised message => (s.guarded record (fun r => r.close .failed (r.error_or message) now)).goto i .done
  | .closing,.raised message => (s.guarded record (fun r => r.close .failed (r.error_or message) now)).goto i .done
  | _,.quit => s.goto i .done
  | _,_ => s

def fail_dynamic (s : State) (i : Nat) (now : Time) (record : Ref) (message : String) : State :=
  (s.guarded record (JobRecord.close .failed (some message) now)).goto i .done

-- Before its graph is built a round fails through `jobs.get(parent_job_id)`.
def fail_parent (s : State) (i : Nat) (now : Time) (parent_job_id message : String) : State :=
  match s.jobs.get? parent_job_id with
  | none => s.goto i .done
  | some parent => (s.guarded parent (JobRecord.close .failed (some message) now)).goto i .done

def register_child (s : State) (i : Nat) (now : Time) (record : Ref) (spec : DynamicSpec) (round_index : Nat)
    (parent_job_id child_job_id : String) : State :=
  match s.jobs.get? parent_job_id with
  | none => s.goto i .done
  | some parent =>
    if s.terminal parent then s.goto i .done
    else
      let child := s.records.length
      let s := s.register child_job_id
        { job_id := child_job_id, status := .pending, submitted_at := now, parent_job_id := some parent_job_id }
      (s.write parent (fun r =>
        if child_job_id ∈ r.child_job_ids then r
        else { r with child_job_ids := r.child_job_ids ++ [child_job_id] })).goto i
          (.run_dynamic_job record spec round_index (.child_saving child))

-- The head of the round loop, through to the registration of the round's child.
def start_round (s : State) (i : Nat) (now : Time) (record : Ref) (spec : DynamicSpec) (round_index : Nat)
    (parent_job_id : String) (event : Event) : State :=
  if spec.max_rounds ≤ round_index then s.goto i (.run_dynamic_job record spec round_index .stopped)
  else if spec.api = true ∧ round_index = 0 then
    match event with
    | .plan_invalid message =>
      fail_dynamic s i now record s!"dynamic round {round_index} produced an invalid plan: {message}"
    | .plan_stop => s.goto i (.run_dynamic_job record spec round_index .stopped)
    | .plan_subgraph => s.goto i (.run_dynamic_job record spec (round_index + 1) .round)
    | _ => s
  else
    match event with
    | .build_failed message =>
      fail_dynamic s i now record s!"dynamic round {round_index} failed to build: {message}"
    | .compile_failed message =>
      fail_parent s i now parent_job_id s!"dynamic round {round_index} failed to compile: {message}"
    | .gpu_zero_conflict => fail_parent s i now parent_job_id GPU_ZERO_CONFLICT
    | .child_built child_job_id => register_child s i now record spec round_index parent_job_id child_job_id
    | _ => s

-- What the parent makes of a child that has come back.
def judge_child (s : State) (i : Nat) (now : Time) (record : Ref) (spec : DynamicSpec) (round_index : Nat)
    (child_job_id : String) (child_status : JobStatus) (event : Event) : State :=
  match child_status with
  | .completed =>
    match ((s.jobs.get? child_job_id).bind (s.records[·]?)).bind JobRecord.result with
    | none => fail_dynamic s i now record s!"dynamic round {round_index} produced no result"
    | some _ =>
      match event with
      | .plan_invalid message =>
        fail_dynamic s i now record s!"dynamic round {round_index} produced an invalid plan: {message}"
      | .plan_stop => s.goto i (.run_dynamic_job record spec round_index .stopped)
      | .plan_subgraph =>
        if s.terminal record then s.goto i .done
        else s.goto i (.run_dynamic_job record spec (round_index + 1) .round)
      | _ => s
  | .cancelled =>
    (s.guarded record (JobRecord.close .cancelled
      (some s!"dynamic round {round_index} ({child_job_id}) was cancelled") now)).goto i .done
  | other =>
    let status := other.value
    fail_dynamic s i now record s!"dynamic round {round_index} ({child_job_id}) terminated with status '{status}'"

def job_id_of (s : State) (record : Ref) : String := (s.records[record]?.map JobRecord.job_id).getD ""

def task_done (s : State) (task : Nat) : Bool :=
  match s.tasks[task]? with
  | some .done => true
  | _ => false

-- `wait_for` cancels the child's task when it runs out of time, and a cancelled
-- `_run_job` writes no status any more.
def run_dynamic_job (s : State) (i : Nat) (now : Time) (record : Ref) (spec : DynamicSpec) (round_index : Nat)
    (point : DynamicPoint) (event : Event) : State :=
  let at_point (point : DynamicPoint) := Task.run_dynamic_job record spec round_index point
  match point,event with
  | .awaiting _ task,.quit => (s.goto task .done).goto i .done
  | _,.quit => s.goto i .done
  | .awaiting child task,.resumed =>
    if task_done s task then s.goto i (at_point (.returned (job_id_of s child))) else s
  | .awaiting _ task,.raised message =>
    if task_done s task then fail_dynamic s i now record s!"dynamic run failed: {message}" else s
  | .awaiting child task,.timeout => (s.goto task .done).goto i (at_point (.timed_out child))
  | .timed_out child,.resumed =>
    (s.write child (fun r => r.close .cancelled r.error now)).goto i (at_point (.timeout_raised child ""))
  | .timed_out child,.raised message =>
    (s.write child (JobRecord.close .failed (some s!"cancellation failed after timeout: {message}") now)).goto i
      (at_point (.timeout_raised child " and backend cancellation failed"))
  | _,.raised message => fail_dynamic s i now record s!"dynamic run failed: {message}"
  | .start,.resumed =>
    if s.terminal record then s.goto i .done
    else (s.write record (JobRecord.run now)).goto i (at_point .round)
  | .round,event => start_round s i now record spec round_index (job_id_of s record) event
  | .child_saving child,.resumed =>
    (s.goto i (at_point (.awaiting child s.tasks.length))).spawn (.run_job child .start)
  | .timeout_raised child suffix,.resumed =>
    let child_job_id := job_id_of s child
    let job_timeout := spec.job_timeout
    fail_dynamic s i now record
      s!"dynamic round {round_index} ({child_job_id}) exceeded job_timeout {job_timeout}s{suffix}"
  | .returned child_job_id,.resumed =>
    match (s.jobs.get? child_job_id).bind (s.records[·]?) with
    | none => fail_dynamic s i now record s!"dynamic run failed: '{child_job_id}'"
    | some child => s.goto i (at_point (.judging child_job_id child.status))
  | .judging child_job_id child_status,event =>
    judge_child s i now record spec round_index child_job_id child_status event
  | .stopped,.response response _ =>
    (s.guarded record (fun r => { r.close .completed r.error now with result := some response })).goto i .done
  | _,_ => s

def cancel_job (s : State) (i : Nat) (now : Time) : CancelPoint → Event → State
  | .missing job_id,.loaded record =>
    (s.register job_id record).goto i (.cancel_job (.authorized s.records.length))
  | .authorized record,.resumed =>
    if s.terminal record then s.goto i .done
    else (s.write record (fun r => r.close .cancelled (r.error_or "cancelled by user") now)).goto i
      (.cancel_job (.cancelled record))
  | .cancelled record,.resumed =>
    s.goto i (.cancel_job (.children ((s.records[record]?.map JobRecord.child_job_ids).getD [])))
  | .children [],.resumed => s.goto i .done
  | .children (child_id :: rest),.resumed =>
    match s.jobs.get? child_id with
    | none => s.goto i (.cancel_job (.children rest))
    | some child =>
      if s.terminal child then s.goto i (.cancel_job (.children rest))
      else (s.write child (fun r => r.close .cancelled (r.error_or "cancelled by parent") now)).goto i
        (.cancel_job (.backend child rest))
  | .backend _ rest,.resumed => s.goto i (.cancel_job (.children rest))
  | .backend child rest,.raised message =>
    (s.write child (JobRecord.close .failed (some s!"cancellation failed: {message}") now)).goto i
      (.cancel_job (.children rest))
  | _,.quit => s.goto i .done
  | _,_ => s

def submit_job (s : State) (i : Nat) (record : Ref) : Option DynamicSpec → Event → State
  | none,.resumed => (s.goto i .done).spawn (.run_job record .start)
  | some spec,.resumed => (s.goto i .done).spawn (.run_dynamic_job record spec 0 .start)
  | _,.quit => s.goto i .done
  | _,_ => s

-- Every record of the table that is still pending or running fails at once.
def mark_running_jobs_failed (s : State) (reason : String) (now : Time) : State :=
  s.jobs.values.foldl (fun s record => s.guarded record (fun r => r.close .failed (r.error_or reason) now)) s

inductive Op where
  | submit (job_id : String) (dynamic : Option DynamicSpec) (now : Time)
  | cancel (job_id : String)
  | shutdown (reason : String) (now : Time)
  | resume (i : Nat) (now : Time) (event : Event)

def apply (s : State) : Op → State
  | .submit job_id dynamic now =>
    (s.register job_id { job_id := job_id, status := .pending, submitted_at := now }).spawn
      (.submit_job s.records.length dynamic)
  | .cancel job_id =>
    s.spawn (.cancel_job (match s.jobs.get? job_id with
      | none => .missing job_id
      | some record => .authorized record))
  | .shutdown reason now => mark_running_jobs_failed s reason now
  | .resume i now event =>
    match s.tasks[i]? with
    | some (.submit_job record dynamic) => submit_job s i record dynamic event
    | some (.run_job record point) => run_job s i now record point event
    | some (.run_dynamic_job record spec round_index point) => run_dynamic_job s i now record spec round_index point event
    | some (.cancel_job point) => cancel_job s i now point event
    | _ => s

end Lumilake.Jobs

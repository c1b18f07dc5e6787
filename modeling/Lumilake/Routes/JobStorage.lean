import Lumilake.Routes.JobMoves

namespace Lumilake.Jobs

-- `record.json` of each job under its id, and the status that the jobs index lists.
structure Storage where
  blobs : Dict String JobRecord
  index : Dict String JobStatus
  filed : ∀ job_id record, blobs.get? job_id = some record → record.job_id = job_id

namespace Storage

theorem filed_set (storage : Storage) (record : JobRecord) (job_id : String) (found : JobRecord)
    (here : (storage.blobs.set record.job_id record).get? job_id = some found) : found.job_id = job_id := by
  by_cases same : job_id = record.job_id
  · subst same
    rw [Dict.get?_set_self] at here
    exact (Option.some.inj here) ▸ rfl
  · rw [Dict.get?_set_ne _ _ same] at here
    exact storage.filed job_id found here

theorem filed_empty (job_id : String) (record : JobRecord) (here : (Dict.empty : Dict String JobRecord).get? job_id = some record) :
    record.job_id = job_id := by cases here

def empty : Storage := ⟨Dict.empty,Dict.empty,filed_empty⟩

def load (storage : Storage) (job_id : String) : Option JobRecord := storage.blobs.get? job_id

def save_record_blobs (storage : Storage) (record : JobRecord) : Storage :=
  ⟨storage.blobs.set record.job_id record,storage.index,storage.filed_set record⟩

def save_summary (storage : Storage) (record : JobRecord) : Storage :=
  ⟨storage.blobs,storage.index.set record.job_id record.status,storage.filed⟩

-- The blobs of the record are written before its entry of the index.
def save (storage : Storage) (record : JobRecord) : Storage :=
  (storage.save_record_blobs record).save_summary record

def iter_summaries (storage : Storage) (statuses : List JobStatus) : List String :=
  (storage.index.entries.filter (fun entry => entry.2 ∈ statuses)).map Prod.fst

@[simp] theorem load_save_self (storage : Storage) (record : JobRecord) :
    (storage.save record).load record.job_id = some record := Dict.get?_set_self _ _ _

@[simp] theorem load_save_blobs_self (storage : Storage) (record : JobRecord) :
    (storage.save_record_blobs record).load record.job_id = some record := Dict.get?_set_self _ _ _

theorem load_save_ne (storage : Storage) (record : JobRecord) (other : job_id ≠ record.job_id) :
    (storage.save record).load job_id = storage.load job_id := Dict.get?_set_ne _ _ other

theorem load_save_blobs_ne (storage : Storage) (record : JobRecord) (other : job_id ≠ record.job_id) :
    (storage.save_record_blobs record).load job_id = storage.load job_id := Dict.get?_set_ne _ _ other

end Storage

def ACTIVE_STATUSES : List JobStatus := [.pending,.running]

def JobRecord.active (record : JobRecord) : Prop := record.status ∈ ACTIVE_STATUSES

instance (record : JobRecord) : Decidable record.active := inferInstanceAs (Decidable (record.status ∈ ACTIVE_STATUSES))

def restart_reason : String := "server restart during execution"

-- Whether the job is one that the passes of the recovery are to look after.
def Recovery.due (submitted_before : Option Time) (record : JobRecord) : Bool :=
  match submitted_before with
  | none => true
  | some cutoff => decide (record.submitted_at < cutoff)

def JobRecord.rescued (record : JobRecord) (now : Time) : JobRecord :=
  if record.active then record.close .failed (record.error_or restart_reason) now else record

theorem JobRecord.rescued_job_id (record : JobRecord) (now : Time) : (record.rescued now).job_id = record.job_id := by
  unfold JobRecord.rescued; split <;> rfl
theorem JobRecord.rescued_parent (record : JobRecord) (now : Time) :
    (record.rescued now).parent_job_id = record.parent_job_id := by unfold JobRecord.rescued; split <;> rfl
theorem JobRecord.rescued_children (record : JobRecord) (now : Time) :
    (record.rescued now).child_job_ids = record.child_job_ids := by unfold JobRecord.rescued; split <;> rfl

-- A request that reads a job, by the section of `_load_job_record` it is at: `loaded` is
-- what its thread has read of the storage, nothing where no record could be made of it.
inductive Reader where
  | loading (job_id : String)
  | loaded (job_id : String) (record : Option JobRecord)
  | holding (record : Ref)
  | missing

inductive Reading where
  | start (job_id : String)
  | fetch (k : Nat) (readable : Bool)
  | settle (k : Nat)
  | persist (record : Ref)

-- A pass of `recover_in_flight_jobs` at one job of its list. What it has read is a copy of
-- its own, which it closes and saves; `now` is the time it closes it at.
inductive Rescue where
  | loading (job_id : String) (submitted_before : Option Time)
  | saving (job_id : String) (record : JobRecord) (now : Time)
  | closed

inductive Rescuing where
  | start (job_id : String) (submitted_before : Option Time)
  | fetch (k : Nat) (readable : Bool) (now : Time)
  | save (k : Nat)

-- The jobs' coroutines beside the storage. `calls` and `fetched` are locals of the calls of
-- `cancel_job`, `saved` the calls whose own save is through, `returned` those that have
-- answered with success, and `marked` the records that such a call has set to cancelled.
structure Archive where
  core : State
  storage : Storage
  readers : List Reader
  calls : Dict Nat String
  fetched : Dict Nat JobRecord
  saved : List Nat
  returned : List Nat
  marked : List Ref
  rescues : List Rescue

inductive Deed where
  | work (op : Op)
  | recover (rescuing : Rescuing)
  | read (reading : Reading)
  | fetch (i : Nat) (readable : Bool)
  | settle (i : Nat)
  | save (i : Nat)

namespace Archive

def boot (storage : Storage) : Archive := ⟨State.initial,storage,[],Dict.empty,Dict.empty,[],[],[],[]⟩

def store (a : Archive) (record : Ref) : Archive :=
  match a.core.records[record]? with
  | none => a
  | some r => { a with storage := a.storage.save r }

-- The record that a reader of the job gets to see.
def current (a : Archive) (job_id : String) : Option JobRecord :=
  match a.core.jobs.get? job_id with
  | none => a.storage.load job_id
  | some record => a.core.records[record]?

-- Any coroutine that holds a record may save it at any time; `get_job_progress` is one that does.
def read (a : Archive) : Reading → Archive
  | .start job_id =>
    { a with readers := a.readers ++ [match a.core.jobs.get? job_id with
      | none => .loading job_id
      | some record => .holding record] }
  | .fetch k readable =>
    match a.readers[k]? with
    | some (.loading job_id) =>
      { a with readers := a.readers.set k (.loaded job_id (if readable then a.storage.load job_id else none)) }
    | _ => a
  | .settle k =>
    match a.readers[k]? with
    | some (.loaded _ none) => { a with readers := a.readers.set k .missing }
    | some (.loaded job_id (some record)) =>
      { a with core := a.core.register job_id record, readers := a.readers.set k (.holding a.core.records.length) }
    | _ => a
  | .persist record => a.store record

-- A job that is in the table when the pass comes to it is passed over.
def rescue (a : Archive) : Rescuing → Archive
  | .start job_id submitted_before =>
    if job_id ∈ a.core.jobs then a else { a with rescues := a.rescues ++ [.loading job_id submitted_before] }
  | .fetch k readable now =>
    match a.rescues[k]? with
    | some (.loading job_id submitted_before) =>
      { a with rescues := a.rescues.set k (match if readable then a.storage.load job_id else none with
        | none => .closed
        | some record => if Recovery.due submitted_before record then .saving job_id record now else .closed) }
    | _ => a
  | .save k =>
    match a.rescues[k]? with
    | some (.saving _ record now) =>
      { a with storage := a.storage.save (record.rescued now), rescues := a.rescues.set k .closed }
    | _ => a

def unused (a : Archive) (job_id : String) : Bool := !decide (job_id ∈ a.core.jobs ∨ job_id ∈ a.storage.blobs)

-- The ids that `unique_id` gives have not been given before; a call of `cancel_job` goes on
-- after its save only when the save is through, and its load ends by `settle`.
def ready (a : Archive) : Op → Bool
  | .submit job_id _ _ => a.unused job_id
  | .resume _ _ (.loaded _) => false
  | .resume _ _ (.child_built child_job_id) => a.unused child_job_id
  | .resume i _ .resumed =>
    match a.core.tasks[i]? with
    | some (.cancel_job (.cancelled _)) => decide (i ∈ a.saved)
    | _ => true
  | _ => true

-- The record that the locked section of `cancel_job` is about to mark.
def marks (s : State) : Op → Option Ref
  | .resume i _ .resumed =>
    match s.tasks[i]? with
    | some (.cancel_job (.authorized record)) => if s.terminal record then none else some record
    | _ => none
  | _ => none

def returns (s : State) : Op → Option Nat
  | .resume i _ .resumed =>
    match s.tasks[i]? with
    | some (.cancel_job (.children [])) => some i
    | _ => none
  | _ => none

def opened (s : State) : Op → Option (Nat × String)
  | .cancel job_id => some (s.tasks.length,job_id)
  | _ => none

def work (a : Archive) (op : Op) : Archive :=
  { a with
    core := apply a.core op
    calls := (opened a.core op).elim a.calls (fun call => a.calls.set call.1 call.2)
    returned := (returns a.core op).toList ++ a.returned
    marked := (marks a.core op).toList ++ a.marked }

def act (a : Archive) : Deed → Archive
  | .work op => if a.ready op then a.work op else a
  | .read reading => a.read reading
  | .recover rescuing => a.rescue rescuing
  | .fetch i readable =>
    match a.core.tasks[i]? with
    | some (.cancel_job (.missing job_id)) =>
      match if readable then a.storage.load job_id else none with
      | none => a
      | some record => { a with fetched := a.fetched.set i record }
    | _ => a
  | .settle i =>
    match a.core.tasks[i]?,a.fetched.get? i with
    | some (.cancel_job (.missing _)),some record => { a with core := apply a.core (.resume i 0 (.loaded record)) }
    | _,_ => a
  | .save i =>
    match a.core.tasks[i]? with
    | some (.cancel_job (.cancelled record)) => { a.store record with saved := i :: a.saved }
    | _ => a

-- The job whose load this deed ends: the deed puts the record it has read in the table.
def loads (a : Archive) : Deed → Option String
  | .read (.settle k) =>
    match a.readers[k]? with
    | some (.loaded job_id (some _)) => some job_id
    | _ => none
  | .settle i =>
    match a.core.tasks[i]?,a.fetched.get? i with
    | some (.cancel_job (.missing job_id)),some _ => some job_id
    | _,_ => none
  | _ => none

-- The record that this deed saves for the recovery.
def rescues_by (a : Archive) : Deed → Option JobRecord
  | .recover (.save k) =>
    match a.rescues[k]? with
    | some (.saving _ record now) => some (record.rescued now)
    | _ => none
  | _ => none

def overruns (a : Archive) : Deed → Option Ref
  | .work op => timed_out_child a.core op
  | _ => none

end Archive

end Lumilake.Jobs

import Lumilake.Library.Runs
import Lumilake.Routes.JobStorage

namespace Lumilake.Jobs

-- The passes of `recover_in_flight_jobs_until_done`, after the one of the start-up itself.
def attempts : Nat := 10

-- Where a pass of `recover_in_flight_jobs` is: between two jobs of its list, in the thread
-- that loads a job, or in one of the two writes of a save, `repair` for a terminal record.
inductive PassPoint where
  | next
  | loading (job_id : String)
  | saving (job_id : String) (record : JobRecord) (repair : Bool)
  | indexing (job_id : String) (record : JobRecord) (repair : Bool)

def PassPoint.job_id : PassPoint → Option String
  | .next => none
  | .loading job_id => some job_id
  | .saving job_id _ _ => some job_id
  | .indexing job_id _ _ => some job_id

structure Pass where
  summaries : List String
  point : PassPoint := .next
  affected : Nat := 0
  repaired : Nat := 0
  unreachable : List String := []

def Pass.skip (p : Pass) : Pass := { p with point := .next }

def Pass.miss (p : Pass) (job_id : String) : Pass := { p with point := .next, unreachable := p.unreachable ++ [job_id] }

def Pass.count (p : Pass) (repair : Bool) : Pass :=
  if repair then { p with point := .next, repaired := p.repaired + 1 }
  else { p with point := .next, affected := p.affected + 1 }

-- What the thread that a pass waits for comes back with.
inductive Answer where
  | done (readable : Bool) (now : Time)
  | raised

-- `raised` counts the passes that have raised, `returned` is what the one returned that did not.
structure Recovery where
  archive : Archive
  pass : Option Pass := none
  raised : Nat := 0
  returned : Option Nat := none

inductive Turn where
  | read (reading : Reading)
  | start (answer : Answer)
  | resume (answer : Answer)

namespace Recovery

def boot (storage : Storage) : Recovery := { archive := Archive.boot storage }

def goto (s : Recovery) (p : Pass) : Recovery := { s with pass := some p }

def write (s : Recovery) (storage : Storage) : Recovery := { s with archive := { s.archive with storage := storage } }

def fail (s : Recovery) : Recovery := { s with pass := none, raised := s.raised + 1 }

section
variable (submitted_before : Option Time)

def resume_pass (s : Recovery) (p : Pass) (answer : Answer) : Recovery :=
  match p.point,answer with
  | .next,_ =>
    match p.summaries with
    | [] =>
      if p.unreachable.isEmpty then { s with pass := none, returned := some p.affected } else s.fail
    | job_id :: rest =>
      if job_id ∈ s.archive.core.jobs then s.goto { p with summaries := rest }
      else s.goto { p with summaries := rest, point := .loading job_id }
  | .loading job_id,.raised => s.goto (p.miss job_id)
  | .loading job_id,.done readable now =>
    match s.archive.storage.load job_id with
    | none => s.goto p.skip
    | some record =>
      if readable && due submitted_before record then
        if record.active then
          s.goto { p with point := .saving job_id (record.close .failed (record.error_or restart_reason) now) false }
        else s.goto { p with point := .saving job_id record true }
      else s.goto p.skip
  | .saving job_id _ _,.raised => s.goto (p.miss job_id)
  | .saving job_id record repair,.done _ _ =>
    (s.write (s.archive.storage.save_record_blobs record)).goto { p with point := .indexing job_id record repair }
  | .indexing job_id _ _,.raised => s.goto (p.miss job_id)
  | .indexing _ record repair,.done _ _ => (s.write (s.archive.storage.save_summary record)).goto (p.count repair)

-- One pass at a time, until one returns or the attempts are used up.
def act (s : Recovery) : Turn → Recovery
  | .read reading => { s with archive := s.archive.read reading }
  | .start answer =>
    if s.pass.isNone ∧ s.returned.isNone ∧ s.raised ≤ attempts then
      match answer with
      | .raised => s.fail
      | .done _ _ => s.goto { summaries := s.archive.storage.iter_summaries ACTIVE_STATUSES }
    else s
  | .resume answer =>
    match s.pass with
    | none => s
    | some p => resume_pass submitted_before s p answer

-- A record that a pass that returns must not leave behind.
def Stuck (record : JobRecord) : Prop := record.active ∧ due submitted_before record = true

instance (record : JobRecord) : Decidable (Stuck submitted_before record) :=
  inferInstanceAs (Decidable (_ ∧ _))

-- The record that this turn puts in the jobs table.
def enters (s : Recovery) : Turn → Option JobRecord
  | .read (.settle k) =>
    match s.archive.readers[k]? with
    | some (.loaded _ record) => record
    | _ => none
  | _ => none

-- The record that the pass has loaded and cannot rebuild.
def unreadable (s : Recovery) : Turn → Option JobRecord
  | .resume (.done false _) =>
    match s.pass.map Pass.point with
    | some (.loading job_id) => s.archive.storage.load job_id
    | _ => none
  | _ => none

-- No read puts a record in the table that the passes are still to fail, and every such
-- record that a pass loads can be rebuilt.
structure Clear (s : Recovery) (turn : Turn) : Prop where
  entered : ∀ record, s.enters turn = some record → ¬Stuck submitted_before record
  rebuilt : ∀ record, s.unreadable turn = some record → ¬Stuck submitted_before record

instance (s : Recovery) (turn : Turn) : Decidable (Clear submitted_before s turn) :=
  decidable_of_iff ((∀ record ∈ s.enters turn, ¬Stuck submitted_before record) ∧
    ∀ record ∈ s.unreadable turn, ¬Stuck submitted_before record) ⟨fun h => ⟨h.1,h.2⟩,fun h => ⟨h.1,h.2⟩⟩

-- The index lists each record that the passes are to fail as pending or running.
def Indexed (storage : Storage) : Prop :=
  ∀ job_id record, storage.load job_id = some record → Stuck submitted_before record →
    ∃ status, storage.index.get? job_id = some status ∧ status ∈ ACTIVE_STATUSES

end

end Recovery

end Lumilake.Jobs

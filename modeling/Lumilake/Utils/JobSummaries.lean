import Lumilake.Library.Dict
import Lumilake.Library.Sorting
import Mathlib.Data.Finset.Card
import Mathlib.Data.String.Basic
import Mathlib.Order.Defs.LinearOrder

namespace Lumilake.JobStorage

-- Instants are in microseconds.
structure JobSummary where
  job_id : String
  org_id : String
  user_id : String
  status : String
  submitted_at : Int
  started_at : Option Int := none
  finished_at : Option Int := none
  optimization_seconds : Option Rat := none
  selection_seconds : Option Rat := none
  clustering_seconds : Option Rat := none
  error : Option String := none
  parent_job_id : Option String := none
  deriving DecidableEq

-- The filter of a listing: the principal, the jobs it may see and the statuses asked for.
structure Query where
  org_id : String
  user_id : Option String := none
  job_ids : Option (Finset String) := none
  statuses : Option (Finset String) := none

-- An empty set is falsy.
def truthy_set (statuses : Option (Finset String)) : Option (Finset String) := statuses.filter (fun set => decide (set ≠ ∅))

-- The plain storages: a dict of summaries by job id.
structure SummaryIndex where
  summaries : Dict String JobSummary
  own : ∀ e ∈ summaries.entries, e.2.job_id = e.1

namespace SummaryIndex

def empty : SummaryIndex := ⟨Dict.empty,fun _ member => absurd member List.not_mem_nil⟩

def save (index : SummaryIndex) (summary : JobSummary) : SummaryIndex :=
  ⟨index.summaries.set summary.job_id summary,fun e member => by
    rcases Dict.mem_entries_set.mp member with ⟨old,_⟩ | new
    · exact index.own e old
    · rw [new]⟩

def keeps (q : Query) (summary : JobSummary) : Bool :=
  decide (summary.org_id = q.org_id) && decide (∀ user_id ∈ q.user_id, summary.user_id = user_id) &&
    decide (∀ job_ids ∈ q.job_ids, summary.job_id ∈ job_ids) &&
    decide (∀ statuses ∈ truthy_set q.statuses, summary.status ∈ statuses) && summary.parent_job_id.isNone

def filter_summaries (q : Query) (summaries : List JobSummary) : List JobSummary := summaries.filter (keeps q)

-- The key `(submitted_at, job_id)` in reverse.
def not_older (a b : JobSummary) : Bool :=
  decide (b.submitted_at < a.submitted_at ∨ (b.submitted_at = a.submitted_at ∧ b.job_id ≤ a.job_id))

def sort_summaries (summaries : List JobSummary) : List JobSummary := summaries.mergeSort not_older

-- `items[start:end]`, where a negative index counts from the end.
def slice (items : List JobSummary) (start stop : Int) : List JobSummary :=
  let place : Int → Nat := fun i => (if i < 0 then i + items.length else i).toNat
  (items.take (place stop)).drop (place start)

def list_summaries (index : SummaryIndex) (q : Query) (page : Int) (page_size : Nat) : List JobSummary × Nat :=
  let sorted_items := sort_summaries (filter_summaries q index.summaries.values)
  let start := (page - 1) * page_size
  (slice sorted_items start (start + page_size),sorted_items.length)

def iter_summaries (index : SummaryIndex) (statuses : Option (Finset String)) : List JobSummary :=
  index.summaries.values.filter (fun summary => decide (∀ set ∈ statuses, summary.status ∈ set))

end SummaryIndex

-- A row of `job_summaries`: the columns of the summary, and its REAL sort key.
structure Row (T : Type) where
  job_id : String
  org_id : String
  user_id : String
  status : String
  submitted_at : Int
  submitted_at_ts : T
  started_at : Option Int
  finished_at : Option Int
  optimization_seconds : Option Rat
  selection_seconds : Option Rat
  clustering_seconds : Option Rat
  error : Option String
  parent_job_id : Option String

-- The SQLite storage, for the timestamps that a double holds: `epoch` rounds an instant to
-- seconds. A statement with more than `max_variables` parameters is refused.
structure Sqlite (T : Type) where
  epoch : Int → T
  max_variables : Nat

namespace Sqlite
variable {T : Type} (db : Sqlite T)

def row_of (summary : JobSummary) : Row T :=
  ⟨summary.job_id,summary.org_id,summary.user_id,summary.status,summary.submitted_at,db.epoch summary.submitted_at,
    summary.started_at,summary.finished_at,summary.optimization_seconds,summary.selection_seconds,
    summary.clustering_seconds,summary.error,summary.parent_job_id⟩

def row_to_summary (row : Row T) : JobSummary :=
  ⟨row.job_id,row.org_id,row.user_id,row.status,row.submitted_at,row.started_at,row.finished_at,
    row.optimization_seconds,row.selection_seconds,row.clustering_seconds,row.error,row.parent_job_id⟩

-- INSERT .. ON CONFLICT(job_id) DO UPDATE, on the rows in the order of their rowids.
def save (rows : List (Row T)) (summary : JobSummary) : List (Row T) :=
  if rows.any (fun row => decide (row.job_id = summary.job_id)) then
    rows.map (fun row => if row.job_id = summary.job_id then db.row_of summary else row)
  else rows ++ [db.row_of summary]

-- The WHERE of a listing and the number of its parameters.
def matching (q : Query) (row : Row T) : Bool :=
  if q.job_ids = some ∅ then false
  else decide (row.org_id = q.org_id) && decide (∀ user_id ∈ q.user_id, row.user_id = user_id) &&
    decide (∀ job_ids ∈ q.job_ids, row.job_id ∈ job_ids) &&
    decide (∀ statuses ∈ truthy_set q.statuses, row.status ∈ statuses) && row.parent_job_id.isNone

def where_params (q : Query) : Nat :=
  if q.job_ids = some ∅ then 0
  else 1 + q.user_id.toList.length + q.job_ids.elim 0 Finset.card + q.statuses.elim 0 Finset.card

def execute (params : Nat) (rows : List (Row T)) : Except String (List (Row T)) :=
  if db.max_variables < params then .error "too many SQL variables" else .ok rows

def iter_summaries (rows : List (Row T)) (statuses : Option (Finset String)) : Except String (List JobSummary) := do
  let listed ← match truthy_set statuses with
    | some set => db.execute set.card (rows.filter (fun row => decide (row.status ∈ set)))
    | none => db.execute 0 rows
  pure (listed.map row_to_summary)

variable [LinearOrder T]

-- ORDER BY submitted_at_ts DESC, job_id DESC
def not_older (a b : Row T) : Bool :=
  decide (b.submitted_at_ts < a.submitted_at_ts ∨ (b.submitted_at_ts = a.submitted_at_ts ∧ b.job_id ≤ a.job_id))

def list_summaries (rows : List (Row T)) (q : Query) (page : Int) (page_size : Nat) : Except String (List JobSummary × Nat) := do
  let counted ← db.execute (where_params q) (rows.filter (matching q))
  let listed ← db.execute (where_params q + 2)
    ((((rows.filter (matching q)).mergeSort not_older).drop ((max (page - 1) 0).toNat * page_size)).take page_size)
  pure (listed.map row_to_summary,counted.length)

end Sqlite
end Lumilake.JobStorage

import Lumilake.Library.Runs
import Lumilake.Routes.SoleCopies

namespace Lumilake.Jobs.Archive

-- What a successful cancel of a job promises from then on: the copy that every reader gets
-- and the stored record say cancelled, and no other copy of the record is in use.
structure Durable (a : Archive) (job_id : String) : Prop where
  read : ∃ record r, a.core.jobs.get? job_id = some record ∧ a.core.records[record]? = some r ∧ r.status = .cancelled
  stored : ∃ r, a.storage.load job_id = some r ∧ r.status = .cancelled
  only : ∀ record r, a.core.records[record]? = some r → r.job_id = job_id → a.core.jobs.get? job_id = some record

def Stored (a : Archive) (job_id : String) : Prop := ∃ r, a.storage.load job_id = some r ∧ r.status = .cancelled

instance (a : Archive) (job_id : String) : Decidable (Stored a job_id) :=
  decidable_of_iff (∃ r ∈ a.storage.load job_id, r.status = .cancelled) Iff.rfl

-- A load ends only for a job that is not in the table, the timeout path of a dynamic round
-- finds its child still pending or running, and the recovery saves nothing else over a
-- record that is stored as cancelled.
structure Orderly (a : Archive) (deed : Deed) : Prop where
  unshared : Unshared a deed
  in_time : ∀ child, a.overruns deed = some child → a.core.terminal child = false
  respected : ∀ r, a.rescues_by deed = some r → Stored a r.job_id → r.status = .cancelled

instance (a : Archive) (deed : Deed) : Decidable (Orderly a deed) :=
  decidable_of_iff (Unshared a deed ∧ (∀ child ∈ a.overruns deed, a.core.terminal child = false) ∧
    ∀ r ∈ a.rescues_by deed, Stored a r.job_id → r.status = .cancelled) ⟨fun h => ⟨h.1,h.2.1,h.2.2⟩,fun h => ⟨h.1,h.2,h.3⟩⟩

def Kept (a : Archive) (job_id : String) : Prop :=
  (∃ record ∈ a.marked, a.core.jobs.get? job_id = some record) ∧ Stored a job_id

-- What a call of `cancel_job` for `job_id` relies on at the await it is at.
def Awaits (a : Archive) (i : Nat) (job_id : String) : CancelPoint → Prop
  | .missing missing_id => missing_id = job_id ∧ i ∉ a.saved
  | .authorized record => (∃ r, a.core.records[record]? = some r ∧ r.job_id = job_id) ∧ i ∉ a.saved
  | .cancelled record =>
    record ∈ a.marked ∧ (∃ r, a.core.records[record]? = some r ∧ r.job_id = job_id) ∧ (i ∈ a.saved → Stored a job_id)
  | .children _ => Kept a job_id
  | .backend child _ => Kept a job_id ∧ child ∉ a.marked ∧ ∃ r, a.core.records[child]? = some r ∧ r.terminal

structure Coherent (a : Archive) : Prop where
  grounded : Grounded a
  marked : ∀ record ∈ a.marked, ∃ r, a.core.records[record]? = some r ∧ r.status = .cancelled
  calls : ∀ (i : Nat) (point : CancelPoint), a.core.tasks[i]? = some (.cancel_job point) →
    ∃ job_id, a.calls.get? i = some job_id ∧ Awaits a i job_id point
  returned : ∀ i ∈ a.returned, ∃ job_id, a.calls.get? i = some job_id ∧ Kept a job_id
  savers : ∀ i ∈ a.saved, i < a.core.tasks.length

theorem cancelled_terminal {r : JobRecord} (cancelled : r.status = .cancelled) : r.terminal := by
  change r.status ∈ TERMINAL_JOB_STATUSES
  rw [cancelled]; decide

section
variable {a b : Archive}

theorem Coherent.durable (coherent : Coherent a) (kept : Kept a job_id) : Durable a job_id := by
  obtain ⟨⟨record,marked,table⟩,stored⟩ := kept
  obtain ⟨r,found,cancelled⟩ := coherent.marked record marked
  exact ⟨⟨record,r,table,found,cancelled⟩,stored,
    fun other r' there same => same ▸ coherent.grounded.sole other r' there⟩

theorem Coherent.marked_terminal (coherent : Coherent a) (member : record ∈ a.marked) : a.core.terminal record = true := by
  obtain ⟨r,found,cancelled⟩ := coherent.marked record member
  simpa [State.terminal,found] using cancelled_terminal cancelled

-- No deed writes a record that a cancel has marked without looking at its status.
theorem Coherent.firm (coherent : Coherent a) (orderly : Orderly a deed) (member : record ∈ a.marked) :
    ¬a.loose_at deed record := by
  intro loose
  cases deed with
  | work op =>
      rcases loose with timed | failed
      · have still := orderly.in_time record timed
        rw [coherent.marked_terminal member] at still
        cases still
      · unfold uncancelled_child at failed
        split at failed
        · rename_i i now event
          split at failed
          · rename_i child rest message here
            cases failed
            obtain ⟨_,_,_,unmarked,_⟩ := coherent.calls i _ here
            exact unmarked member
          · cases failed
        · cases failed
  | _ => exact loose.elim

-- What every orderly deed keeps of the state it is done in.
structure Advance (a b : Archive) : Prop where
  jobs : ∀ job_id record, a.core.jobs.get? job_id = some record → b.core.jobs.get? job_id = some record
  records : ∀ record r, a.core.records[record]? = some r → ∃ r', b.core.records[record]? = some r' ∧
    r'.job_id = r.job_id ∧ (r.terminal → r'.terminal) ∧ (record ∈ a.marked → r.terminal → r'.status = r.status)
  marked : a.marked ⊆ b.marked
  new_marks : ∀ record ∈ b.marked, record ∈ a.marked ∨ a.core.terminal record = false
  stored : ∀ job_id record, record ∈ a.marked → a.core.jobs.get? job_id = some record → Stored a job_id →
    Stored b job_id

-- A save of any record leaves a cancelled one on file: the only copy of it there is says
-- so, and the recovery keeps off it.
theorem act_advance (coherent : Coherent a) (orderly : Orderly a deed) : Advance a (a.act deed) := by
  have effect := act_effect coherent.grounded orderly.unshared
  have done := act_done a deed
  refine ⟨fun _ _ here => effect.grown.jobs here,?_,fun _ member => done.old_marked member,?_,?_⟩
  · intro record r found
    obtain ⟨r',there,moved⟩ := effect.grown.tracks record r found
    exact ⟨r',there,moved.job_id,moved.terminal,fun member closed => moved.status closed (coherent.firm orderly member)⟩
  · intro record member
    rcases done.marked member with old | ⟨_,_,_,_,_,still⟩
    · exact .inl old
    · exact .inr still
  · intro job_id record member table stored
    rcases effect.saves job_id with same | ⟨other,r,found,own,saved⟩ | ⟨r,rescue,own,saved⟩
    · obtain ⟨r,there,cancelled⟩ := stored
      exact ⟨r,same.trans there,cancelled⟩
    · have sole : record = other :=
        Option.some.inj (table.symm.trans (own ▸ coherent.grounded.sole other r found))
      subst sole
      obtain ⟨r',there,cancelled⟩ := coherent.marked record member
      have same : r = r' := Option.some.inj (found.symm.trans there)
      exact ⟨r,saved,same ▸ cancelled⟩
    · exact ⟨r,saved,orderly.respected r rescue (own ▸ stored)⟩

theorem Advance.kept (advance : Advance a b) (kept : Kept a job_id) : Kept b job_id := by
  obtain ⟨⟨record,marked,table⟩,stored⟩ := kept
  exact ⟨⟨record,advance.marked marked,advance.jobs job_id record table⟩,advance.stored job_id record marked table stored⟩

theorem Advance.still_marked (advance : Advance a b) (coherent : Coherent a) (member : record ∈ a.marked) :
    ∃ r, b.core.records[record]? = some r ∧ r.status = .cancelled := by
  obtain ⟨r,found,cancelled⟩ := coherent.marked record member
  obtain ⟨r',there,_,_,same⟩ := advance.records record r found
  exact ⟨r',there,(same member (cancelled_terminal cancelled)).trans cancelled⟩

theorem Advance.awaits (advance : Advance a b) (coherent : Coherent a) (saved : i ∈ b.saved → i ∈ a.saved)
    (awaits : Awaits a i job_id point) : Awaits b i job_id point := by
  cases point with
  | missing missing_id => exact ⟨awaits.1,fun member => awaits.2 (saved member)⟩
  | authorized record =>
      obtain ⟨⟨r,found,own⟩,unsaved⟩ := awaits
      obtain ⟨r',there,same,_⟩ := advance.records record r found
      exact ⟨⟨r',there,same.trans own⟩,fun member => unsaved (saved member)⟩
  | cancelled record =>
      obtain ⟨marked,⟨r,found,own⟩,through⟩ := awaits
      obtain ⟨r',there,same,_⟩ := advance.records record r found
      have table : a.core.jobs.get? job_id = some record := own ▸ coherent.grounded.sole record r found
      exact ⟨advance.marked marked,⟨r',there,same.trans own⟩,
        fun member => advance.stored job_id record marked table (through (saved member))⟩
  | children rest => exact advance.kept awaits
  | backend child rest =>
      obtain ⟨kept,unmarked,r,found,closed⟩ := awaits
      obtain ⟨r',there,_,still,_⟩ := advance.records child r found
      refine ⟨advance.kept kept,fun member => ?_,r',there,still closed⟩
      rcases advance.new_marks child member with old | opened
      · exact unmarked old
      · exact terminal_eq_false opened found closed

-- A step of a call of `cancel_job` establishes what the call relies on next.
theorem next_awaits (coherent : Coherent a) (advance : Advance a (a.act (.work (.resume i now event))))
    (ready : a.ready (.resume i now event) = true) (here : a.core.tasks[i]? = some (.cancel_job before))
    (next : CancelNext a.core before event point) (awaits : Awaits a i job_id before) :
    Awaits (a.act (.work (.resume i now event))) i job_id point := by
  have same_saved : (a.act (.work (.resume i now event))).saved = a.saved := by simp [act,ready,work]
  cases next with
  | stay => exact advance.awaits coherent (fun member => same_saved ▸ member) awaits
  | loaded => simp [Archive.ready] at ready
  | @mark record still =>
      obtain ⟨⟨r,found,own⟩,unsaved⟩ := awaits
      obtain ⟨r',now_there,same,_⟩ := advance.records record r found
      have marked : record ∈ (a.act (.work (.resume i now .resumed))).marked := by
        simp [act,ready,work,marks,here,still]
      exact ⟨marked,⟨r',now_there,same.trans own⟩,fun member => absurd (same_saved ▸ member) unsaved⟩
  | @saved record =>
      obtain ⟨marked,⟨r,found,own⟩,through⟩ := awaits
      have done : i ∈ a.saved := by simpa [Archive.ready,here] using ready
      have kept : Kept a job_id := ⟨⟨record,marked,own ▸ coherent.grounded.sole record r found⟩,through done⟩
      exact advance.kept kept
  | absent _ => exact advance.kept awaits
  | closed _ _ => exact advance.kept awaits
  | @child child_id child rest table still =>
      have unmarked : child ∉ a.marked := by
        intro member
        rw [coherent.marked_terminal member] at still
        cases still
      obtain ⟨r,found,_⟩ := open_record still
      refine ⟨advance.kept awaits,?_,r.close .cancelled (r.error_or "cancelled by parent") now,?_,?_⟩
      · simpa [act,ready,work,marks,here] using unmarked
      · simp [act,ready,work,apply,here,cancel_job,table,still,State.goto,State.write,found]
      · exact terminal_close .cancelled _ now r (by decide)
  | backed => exact advance.kept awaits.1
  | failed => exact advance.kept awaits.1

theorem act_coherent (coherent : Coherent a) (orderly : Orderly a deed) : Coherent (a.act deed) := by
  have grounded := act_grounded coherent.grounded orderly.unshared
  have advance := act_advance coherent orderly
  have done := act_done a deed
  refine ⟨grounded,?_,?_,?_,?_⟩
  · intro record member
    rcases done.marked member with old | ⟨i,now,rfl,ready,here,still⟩
    · exact advance.still_marked coherent old
    · obtain ⟨r,found,_⟩ := open_record still
      exact ⟨r.close .cancelled (r.error_or "cancelled by user") now,
        by simp [act,ready,work,apply,here,cancel_job,still,State.goto,State.write,found],rfl⟩
  · intro i point here
    cases done.arrives orderly.unshared here with
    | same was =>
        obtain ⟨job_id,call,awaits⟩ := coherent.calls i point was
        refine ⟨job_id,done.old_calls coherent.grounded call,?_⟩
        by_cases saved : i ∈ (a.act deed).saved → i ∈ a.saved
        · exact advance.awaits coherent saved awaits
        · obtain ⟨member,new⟩ := Classical.not_imp.mp saved
          rcases done.saved member with old | ⟨record,there,storage⟩
          · exact absurd old new
          · cases was.symm.trans there
            obtain ⟨marked,⟨r,found,own⟩,_⟩ := awaits
            obtain ⟨r',now_there,same,_⟩ := advance.records record r found
            refine ⟨advance.marked marked,⟨r',now_there,same.trans own⟩,fun _ => ⟨r,?_,?_⟩⟩
            · rw [storage,← own]
              simp only [store,found]
              exact Storage.load_save_self _ _
            · obtain ⟨r'',again,cancelled⟩ := coherent.marked record marked
              exact (Option.some.inj (found.symm.trans again)) ▸ cancelled
    | @missing job_id new table =>
        subst new
        have unsaved : a.core.tasks.length ∉ a.saved := fun member => Nat.lt_irrefl _ (coherent.savers _ member)
        exact ⟨job_id,Dict.get?_set_self _ _ _,rfl,unsaved⟩
    | @found job_id record new table =>
        subst new
        have unsaved : a.core.tasks.length ∉ a.saved := fun member => Nat.lt_irrefl _ (coherent.savers _ member)
        exact ⟨job_id,Dict.get?_set_self _ _ _,coherent.grounded.tabled job_id record table,unsaved⟩
    | @settled job_id record was pending fresh table =>
        obtain ⟨id,call,awaits⟩ := coherent.calls i _ was
        obtain ⟨rfl,unsaved⟩ := awaits
        obtain ⟨r,found,own⟩ := grounded.tabled job_id _ table
        refine ⟨job_id,done.old_calls coherent.grounded call,⟨r,found,own⟩,fun member => ?_⟩
        rcases done.saved member with old | ⟨_,there,_⟩
        · exact unsaved old
        · cases was.symm.trans there
    | @next before now event _ was ready step =>
        obtain ⟨job_id,call,awaits⟩ := coherent.calls i before was
        exact ⟨job_id,done.old_calls coherent.grounded call,next_awaits coherent advance ready was step awaits⟩
  · intro i member
    rcases done.returned member with old | here
    · obtain ⟨job_id,call,kept⟩ := coherent.returned i old
      exact ⟨job_id,done.old_calls coherent.grounded call,advance.kept kept⟩
    · obtain ⟨job_id,call,kept⟩ := coherent.calls i _ here
      exact ⟨job_id,done.old_calls coherent.grounded call,advance.kept kept⟩
  · intro i member
    rcases done.saved member with old | ⟨_,there,_⟩
    · exact (coherent.savers i old).trans_le done.tasks_length
    · exact (List.getElem?_eq_some_iff.mp there).1.trans_le done.tasks_length

end

theorem boot_coherent (storage : Storage) : Coherent (boot storage) where
  grounded := boot_grounded storage
  marked := by
    intro record member
    cases member
  calls := by
    intro i point here
    cases here
  returned := by
    intro i member
    cases member
  savers := by
    intro i member
    cases member

-- Over any interleaving of reads, cancels, loads, saves, the recovery and the jobs' own runs
-- in which no load ends for a job that is in the table by then and the recovery keeps off
-- what is stored as cancelled: once a cancel of a job has returned success, every copy and
-- the stored record of the job say cancelled.
theorem cancel_durable {storage : Storage} {deeds : List Deed} {a : Archive}
    (path : Runs (fun a deed b => Orderly a deed ∧ b = a.act deed) (boot storage) deeds a) :
    ∀ i ∈ a.returned, ∀ job_id, a.calls.get? i = some job_id → Durable a job_id := by
  have coherent : Coherent a := by
    refine path.invariant (boot_coherent storage) ?_
    intro before deed after coherent step
    obtain ⟨orderly,rfl⟩ := step
    exact act_coherent coherent orderly
  intro i member job_id call
  obtain ⟨id,same,kept⟩ := coherent.returned i member
  cases call.symm.trans same
  exact coherent.durable kept

-- A job that an earlier process left running, in the storage only.
def leftover : Storage := Storage.empty.save { job_id := "job", status := .running, submitted_at := 0 }

def cancelled_leftover : List Deed :=
  [.work (.cancel "job"),.fetch 0 true,.settle 0,.work (.resume 0 5 .resumed),.save 0,.work (.resume 0 6 .resumed),
    .work (.resume 0 7 .resumed)]

-- The recovery has read the job before it is cancelled, and saves it before the cancel does.
def rescued_leftover : List Deed :=
  [.recover (.start "job" (some 4)),.work (.cancel "job"),.recover (.fetch 0 true 4),.fetch 0 true,.settle 0,
    .work (.resume 0 5 .resumed),.recover (.save 0),.save 0,.work (.resume 0 6 .resumed),.work (.resume 0 7 .resumed)]

theorem cancel_durable_leftover : Durable (rescued_leftover.foldl act (boot leftover)) "job" :=
  cancel_durable (Runs.of_admits (by decide +kernel)) 0 (by decide +kernel) "job" (by decide +kernel)

-- A read of the job was loading beside the cancel, and its copy takes the place in the table.
def beside_read : List Deed :=
  [.read (.start "job"),.read (.fetch 0 true)] ++ cancelled_leftover ++ [.read (.settle 0)]

def forgotten : Archive := beside_read.foldl act (boot leftover)

theorem cancel_forgotten : ¬ ∀ storage deeds a, Runs (fun a deed b => b = Archive.act a deed) (boot storage) deeds a →
    ∀ i ∈ a.returned, ∀ job_id, a.calls.get? i = some job_id → Durable a job_id := by
  intro always
  have durable := always leftover _ forgotten (Runs.of_foldl act (boot leftover) beside_read) 0 (by decide +kernel) "job"
    (by decide +kernel)
  obtain ⟨record,r,table,found,cancelled⟩ := durable.read
  have shown : ((forgotten.core.jobs.get? "job").bind (forgotten.core.records[·]?)).map JobRecord.status =
      some .running := by decide +kernel
  rw [table,Option.bind_some,found,Option.map_some,cancelled] at shown
  cases shown

end Lumilake.Jobs.Archive

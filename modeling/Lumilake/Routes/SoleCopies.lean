import Lumilake.Library.Runs
import Lumilake.Routes.JobStorage

namespace Lumilake.Jobs

-- How the records and the table change in a step that puts no second copy of a job in.
structure Grown (loose : Ref → Prop) (s t : State) : Prop where
  tracks : Objects.Tracks (fun r => Moved (loose r)) s.records t.records
  table : (t.jobs = s.jobs ∧ t.records.length = s.records.length) ∨
    ∃ job_id record, job_id ∉ s.jobs ∧ record.job_id = job_id ∧ t.jobs = s.jobs.set job_id s.records.length ∧
      t.records.length = s.records.length + 1 ∧ Entered t.records s.records.length record

-- Every record object is the one that the table has for its job.
def Sole (s : State) : Prop :=
  ∀ record r, s.records[record]? = some r → s.jobs.get? r.job_id = some record

-- The table points to records, each under the id of its job.
def Tabled (s : State) : Prop :=
  ∀ job_id record, s.jobs.get? job_id = some record → ∃ r, s.records[record]? = some r ∧ r.job_id = job_id

theorem Grown.tabled (grown : Grown loose s t) (tabled : Tabled s) : Tabled t := by
  have older : ∀ job_id record, s.jobs.get? job_id = some record → ∃ r, t.records[record]? = some r ∧ r.job_id = job_id := by
    intro job_id record here
    obtain ⟨r,found,own⟩ := tabled job_id record here
    obtain ⟨r',there,moved⟩ := grown.tracks record r found
    exact ⟨r',there,moved.job_id.trans own⟩
  intro job_id record here
  rcases grown.table with ⟨same,_⟩ | ⟨new,entry,_,own,added,_,r,found,same,_⟩
  · exact older job_id record (same ▸ here)
  · by_cases hit : job_id = new
    · subst hit
      rw [added,Dict.get?_set_self] at here
      exact ⟨r,(Option.some.inj here) ▸ found,same.trans own⟩
    · rw [added,Dict.get?_set_ne _ _ hit] at here
      exact older job_id record here

theorem Grown.jobs (grown : Grown loose s t) (here : s.jobs.get? job_id = some record) :
    t.jobs.get? job_id = some record := by
  rcases grown.table with ⟨same,_⟩ | ⟨fresh_id,_,fresh,_,added,_⟩
  · rw [same]; exact here
  · have different : job_id ≠ fresh_id := by
      rintro rfl
      exact fresh (Dict.mem_keys_iff.mpr ⟨record,here⟩)
    rw [added,Dict.get?_set_ne _ _ different]
    exact here

theorem Grown.sole (grown : Grown loose s t) (sole : Sole s) : Sole t := by
  intro record r found
  have inside : record < t.records.length := (List.getElem?_eq_some_iff.mp found).1
  by_cases old : record < s.records.length
  · obtain ⟨b,there,moved⟩ := grown.tracks record _ (List.getElem?_eq_getElem old)
    cases found.symm.trans there
    rw [moved.job_id]
    exact grown.jobs (sole record _ (List.getElem?_eq_getElem old))
  · rcases grown.table with ⟨_,length⟩ | ⟨job_id,entry,_,own,added,length,entered⟩
    · exact absurd (inside.trans_eq length) old
    · have place : record = s.records.length :=
        Nat.le_antisymm (Nat.le_of_lt_succ (inside.trans_eq length)) (Nat.le_of_not_lt old)
      subst place
      obtain ⟨b,there,same,_⟩ := entered
      cases found.symm.trans there
      rw [same,own,added]
      exact Dict.get?_set_self _ _ _

theorem register_grown (s : State) {record : JobRecord} (own : record.job_id = job_id) (fresh : job_id ∉ s.jobs) :
    Grown loose s (s.register job_id record) where
  tracks := (Objects.Tracks.refl (fun _ _ => Moved.refl _ _) s.records).append [record]
  table := .inr ⟨job_id,record,fresh,own,rfl,by simp [State.register],record,by simp [State.register],rfl,rfl⟩

-- What the step of a coroutine leaves loose of a record.
def loose_in (s : State) (op : Op) (record : Ref) : Prop :=
  timed_out_child s op = some record ∨ uncancelled_child s op = some record

theorem apply_grown {s : State} {op : Op}
    (own : ∀ job_id record, entry_of s op = some (job_id,record) → record.job_id = job_id ∧ job_id ∉ s.jobs) :
    Grown (loose_in s op) s (apply s op) where
  tracks := apply_tracks s op
  table := by
    cases put : entry_of s op with
    | none => exact .inl (apply_jobs_none put)
    | some entry =>
        obtain ⟨job_id,record⟩ := entry
        obtain ⟨same,fresh⟩ := own job_id record put
        exact .inr ⟨job_id,record,fresh,same,apply_entered put⟩

namespace Archive

theorem unused_new {a : Archive} (new : a.unused job_id = true) : job_id ∉ a.core.jobs ∧ job_id ∉ a.storage.blobs := by
  simpa [unused,not_or] using new

-- The records that a coroutine of the jobs puts in the table are new jobs, and one with a
-- parent comes from `register_child` at a moment when the parent is open.
structure Fresh (s : State) (op : Op) (job_id : String) (record : JobRecord) : Prop where
  own : record.job_id = job_id
  attached : ∀ parent_job_id, record.parent_job_id = some parent_job_id → ∃ i now target spec round_index parent before,
    apply s op = register_child s i now target spec round_index parent_job_id job_id ∧
      s.jobs.get? parent_job_id = some parent ∧ s.records[parent]? = some before ∧ ¬before.terminal

theorem open_record {s : State} (still : s.terminal record = false) : ∃ r, s.records[record]? = some r ∧ ¬r.terminal := by
  cases found : s.records[record]? with
  | none => simp [State.terminal,found] at still
  | some r => exact ⟨r,rfl,terminal_eq_false still found⟩

theorem entry_fresh {a : Archive} {op : Op} (ready : a.ready op = true)
    (put : entry_of a.core op = some (job_id,record)) : a.unused job_id = true ∧ Fresh a.core op job_id record := by
  cases op with
  | submit new dynamic now =>
      cases put
      exact ⟨ready,rfl,fun _ parent => by cases parent⟩
  | cancel new => cases put
  | shutdown reason now => cases put
  | resume i now event =>
      cases here : a.core.tasks[i]? with
      | none => simp [entry_of,here] at put
      | some task =>
          cases task with
          | submit_job target dynamic => simp [entry_of,here] at put
          | run_job target point => simp [entry_of,here] at put
          | done => simp [entry_of,here] at put
          | cancel_job point =>
              simp only [entry_of,here] at put
              cases point <;> cases event <;> simp_all [cancel_entry,Archive.ready]
          | run_dynamic_job target spec round_index point =>
              simp only [entry_of,here] at put
              cases point with
              | round =>
                  cases event with
                  | child_built child_job_id =>
                      simp only [dynamic_entry,round_entry,registered_child] at put
                      split at put
                      · cases put
                      · rename_i within
                        split at put
                        · cases put
                        · rename_i later
                          obtain ⟨parent,table,entered⟩ := Option.bind_eq_some_iff.mp put
                          split at entered
                          · cases entered
                          · rename_i still
                            cases entered
                            obtain ⟨before,found,opened⟩ := open_record (by simpa using still)
                            refine ⟨ready,rfl,fun parent_job_id same => ?_⟩
                            cases same
                            refine ⟨i,now,target,spec,round_index,parent,before,?_,table,found,opened⟩
                            simp [apply,here,run_dynamic_job,start_round,within,later]
                  | _ => cases put
              | _ => cases put

theorem register_child_attaches {s : State} (table : s.jobs.get? parent_job_id = some parent)
    (found : s.records[parent]? = some before) (still : ¬before.terminal) : ∃ after,
      (register_child s i now record spec round_index parent_job_id child_job_id).records[parent]? = some after ∧
        child_job_id ∈ after.child_job_ids := by
  have inside : parent < s.records.length := (List.getElem?_eq_some_iff.mp found).1
  have opened : s.terminal parent = false := by simpa [State.terminal,found] using still
  unfold register_child
  simp only [table,opened,Bool.false_eq_true,if_false]
  by_cases listed : child_job_id ∈ before.child_job_ids
  · exact ⟨before,by simp [State.goto,State.write,State.register,List.getElem?_append_left inside,found,listed],listed⟩
  · exact ⟨{ before with child_job_ids := before.child_job_ids ++ [child_job_id] },
      by simp [State.goto,State.write,State.register,List.getElem?_append_left inside,found,listed],by simp⟩

-- What a load has read for a job and not put in the table yet, or the recovery not saved.
def Pending (a : Archive) (job_id : String) (record : JobRecord) : Prop :=
  (∃ k : Nat, a.readers[k]? = some (.loaded job_id (some record))) ∨
    (∃ i : Nat, a.core.tasks[i]? = some (.cancel_job (.missing job_id)) ∧ a.fetched.get? i = some record) ∨
    ∃ (k : Nat) (now : Time), a.rescues[k]? = some (.saving job_id record now)

structure Grounded (a : Archive) : Prop where
  sole : Sole a.core
  tabled : Tabled a.core
  pending : ∀ job_id record, Pending a job_id record → record.job_id = job_id
  opened : ∀ i job_id, a.calls.get? i = some job_id → i < a.core.tasks.length
  fetchers : ∀ i r, a.fetched.get? i = some r → i < a.core.tasks.length

-- A load ends only for a job that is not in the table.
def Unshared (a : Archive) (deed : Deed) : Prop := ∀ job_id, a.loads deed = some job_id → job_id ∉ a.core.jobs

instance (a : Archive) (deed : Deed) : Decidable (Unshared a deed) :=
  inferInstanceAs (Decidable (∀ job_id ∈ a.loads deed, job_id ∉ a.core.jobs))

-- The record that a coroutine registers as a child is listed by its parent, which was open.
def Attached (a b : Archive) (r : JobRecord) : Prop :=
  ∀ parent_job_id, r.parent_job_id = some parent_job_id → ∃ parent before after,
    a.core.jobs.get? parent_job_id = some parent ∧ a.core.records[parent]? = some before ∧ ¬before.terminal ∧
      b.core.records[parent]? = some after ∧ r.job_id ∈ after.child_job_ids

-- How a stored record can change: a record of the table is saved, or the recovery's.
def Saves (a b : Archive) (rescued : Option JobRecord) (job_id : String) : Prop :=
  b.storage.load job_id = a.storage.load job_id ∨
    (∃ (record : Ref) (r : JobRecord), a.core.records[record]? = some r ∧ r.job_id = job_id ∧ b.storage.load job_id = some r) ∨
    ∃ r ∈ rescued, r.job_id = job_id ∧ b.storage.load job_id = some r

-- A deed of the recovery saves what it has read, closed or as it was.
def Rescued (a : Archive) (r : JobRecord) : Prop :=
  ∃ record, Pending a r.job_id record ∧ r.parent_job_id = record.parent_job_id ∧ r.child_job_ids = record.child_job_ids

-- What a deed can do: to the records and the table, to the stored records, to the loads
-- under way, and where the record it puts in the table comes from.
structure Effect (loose : Ref → Prop) (rescued : Option JobRecord) (a b : Archive) : Prop where
  grown : Grown loose a.core b.core
  saves : ∀ job_id, Saves a b rescued job_id
  rescues : ∀ r ∈ rescued, Rescued a r
  fetches : ∀ job_id record, Pending b job_id record → Pending a job_id record ∨ a.storage.load job_id = some record
  entered : ∀ (record : Ref) (r : JobRecord), b.core.records[record]? = some r → a.core.records.length ≤ record →
    Pending a r.job_id r ∨ (a.storage.load r.job_id = none ∧ Attached a b r)

section
variable {a b : Archive}

theorem effect_of_same (core : b.core = a.core) (saves : ∀ job_id, Saves a b none job_id)
    (fetches : ∀ job_id record, Pending b job_id record → Pending a job_id record ∨ a.storage.load job_id = some record) :
    Effect (fun _ => False) none a b where
  grown := by rw [core]; exact ⟨.refl (fun _ _ => .refl _ _) _,.inl ⟨rfl,rfl⟩⟩
  saves := saves
  rescues := by rintro r ⟨⟩
  fetches := fetches
  entered := by
    intro record r found beyond
    rw [core] at found
    exact absurd (List.getElem?_eq_some_iff.mp found).1 (Nat.not_lt.mpr beyond)

theorem Effect.loosen (effect : Effect loose rescued a b) {loose' : Ref → Prop} (weaker : ∀ r, loose r → loose' r) :
    Effect loose' rescued a b where
  grown := by
    refine ⟨effect.grown.tracks.mono fun r _ _ moved => ?_,effect.grown.table⟩
    exact { moved with status := fun closed firm => moved.status closed fun hit => firm (weaker r hit) }
  saves := effect.saves
  rescues := effect.rescues
  fetches := effect.fetches
  entered := effect.entered

theorem work_effect (grounded : Grounded a) (ready : a.ready op = true) : Effect (loose_in a.core op) none a (a.work op) := by
  have grown : Grown (loose_in a.core op) a.core (apply a.core op) :=
    apply_grown fun _ _ put => ⟨(entry_fresh ready put).2.own,(unused_new (entry_fresh ready put).1).1⟩
  refine ⟨grown,fun _ => .inl rfl,(by rintro r ⟨⟩),?_,?_⟩
  · intro job_id record pending
    rcases pending with reading | ⟨i,here,fetched⟩ | rescuing
    · exact .inl (.inl reading)
    · refine .inl (.inr (.inl ⟨i,?_,fetched⟩))
      rcases apply_cancels here with same | ⟨_,_,new⟩ | ⟨now,event,before,rfl,was,step⟩
      · exact same
      · exact absurd (grounded.fetchers i record fetched) (by omega)
      · have next := cancel_job_next was (by rw [← step]; exact here)
        cases next with
        | stay => exact was
    · exact .inl (.inr (.inr rescuing))
  · intro record r found beyond
    cases put : entry_of a.core op with
    | none =>
        have same := (apply_jobs_none put).2
        have inside : record < (apply a.core op).records.length := (List.getElem?_eq_some_iff.mp found).1
        exact absurd (inside.trans_eq same) (Nat.not_lt.mpr beyond)
    | some entry =>
        obtain ⟨job_id,new⟩ := entry
        obtain ⟨unused,fresh⟩ := entry_fresh ready put
        obtain ⟨_,length,r',there,same,parent⟩ := apply_entered put
        have inside : record < (apply a.core op).records.length := (List.getElem?_eq_some_iff.mp found).1
        have place : record = a.core.records.length :=
          Nat.le_antisymm (Nat.le_of_lt_succ (inside.trans_eq length)) beyond
        subst place
        have this_one : r = r' := Option.some.inj (found.symm.trans there)
        subst this_one
        have own : r.job_id = job_id := same.trans fresh.own
        refine .inr ⟨?_,?_⟩
        · rw [own]
          exact Dict.get?_eq_none.mpr (unused_new unused).2
        · intro parent_job_id child_of
          obtain ⟨i,now,target,spec,round_index,ref,before,step,table,before_there,opened⟩ :=
            fresh.attached parent_job_id (parent.symm.trans child_of)
          obtain ⟨after,after_there,listed⟩ := register_child_attaches (i := i) table before_there opened
          refine ⟨ref,before,after,table,before_there,opened,?_,own ▸ listed⟩
          change (apply a.core op).records[ref]? = some after
          rw [step]
          exact after_there

@[simp] theorem store_core (a : Archive) (record : Ref) : (a.store record).core = a.core := by
  unfold store; split <;> rfl
@[simp] theorem store_readers (a : Archive) (record : Ref) : (a.store record).readers = a.readers := by
  unfold store; split <;> rfl
@[simp] theorem store_calls (a : Archive) (record : Ref) : (a.store record).calls = a.calls := by
  unfold store; split <;> rfl
@[simp] theorem store_fetched (a : Archive) (record : Ref) : (a.store record).fetched = a.fetched := by
  unfold store; split <;> rfl
@[simp] theorem store_saved (a : Archive) (record : Ref) : (a.store record).saved = a.saved := by
  unfold store; split <;> rfl
@[simp] theorem store_returned (a : Archive) (record : Ref) : (a.store record).returned = a.returned := by
  unfold store; split <;> rfl
@[simp] theorem store_marked (a : Archive) (record : Ref) : (a.store record).marked = a.marked := by
  unfold store; split <;> rfl
@[simp] theorem store_rescues (a : Archive) (record : Ref) : (a.store record).rescues = a.rescues := by
  unfold store; split <;> rfl

theorem store_saves (a : Archive) (target : Ref) (job_id : String) : Saves a (a.store target) none job_id := by
  unfold Saves store
  cases found : a.core.records[target]? with
  | none => exact .inl rfl
  | some r =>
      by_cases same : job_id = r.job_id
      · subst same
        exact .inr (.inl ⟨target,r,found,rfl,Storage.load_save_self _ _⟩)
      · exact .inl (Storage.load_save_ne _ _ same)

theorem store_effect (target : Ref) (core : b.core = a.core) (storage : b.storage = (a.store target).storage)
    (readers : b.readers = a.readers) (fetched : b.fetched = a.fetched) (rescues : b.rescues = a.rescues) :
    Effect (fun _ => False) none a b := by
  refine effect_of_same core (fun job_id => by unfold Saves; rw [storage]; exact store_saves a target job_id) ?_
  intro job_id record pending
  unfold Pending at pending
  rw [core,readers,fetched,rescues] at pending
  exact .inl pending

-- Setting one reader changes what is pending by what that reader has.
theorem pending_set {k : Nat} {reader : Reader} (pending : Pending b job_id record)
    (readers : b.readers = a.readers.set k reader) (tasks : b.core.tasks = a.core.tasks) (fetched : b.fetched = a.fetched)
    (rescues : b.rescues = a.rescues) : Pending a job_id record ∨ reader = .loaded job_id (some record) := by
  rcases pending with ⟨n,here⟩ | ⟨i,here,taken⟩ | rescuing
  · rw [readers] at here
    by_cases same : k = n
    · subst same
      have inside : k < a.readers.length := by
        have := (List.getElem?_eq_some_iff.mp here).1
        simpa using this
      rw [List.getElem?_set_self inside] at here
      exact .inr (Option.some.inj here)
    · rw [List.getElem?_set_ne same] at here
      exact .inl (.inl ⟨n,here⟩)
  · exact .inl (.inr (.inl ⟨i,tasks ▸ here,fetched ▸ taken⟩))
  · exact .inl (.inr (.inr (rescues ▸ rescuing)))

theorem pending_rescue {k : Nat} {rescue : Rescue} (pending : Pending b job_id record)
    (rescues : b.rescues = a.rescues.set k rescue) (tasks : b.core.tasks = a.core.tasks) (fetched : b.fetched = a.fetched)
    (readers : b.readers = a.readers) : Pending a job_id record ∨ ∃ now, rescue = .saving job_id record now := by
  rcases pending with reading | ⟨i,here,taken⟩ | ⟨n,now,here⟩
  · exact .inl (.inl (readers ▸ reading))
  · exact .inl (.inr (.inl ⟨i,tasks ▸ here,fetched ▸ taken⟩))
  · rw [rescues] at here
    by_cases same : k = n
    · subst same
      have inside : k < a.rescues.length := by
        have := (List.getElem?_eq_some_iff.mp here).1
        simpa using this
      rw [List.getElem?_set_self inside] at here
      exact .inr ⟨now,Option.some.inj here⟩
    · rw [List.getElem?_set_ne same] at here
      exact .inl (.inr (.inr ⟨n,now,here⟩))

theorem register_effect (pending : Pending a job_id record) (own : record.job_id = job_id) (fresh : job_id ∉ a.core.jobs)
    (records : b.core.records = (a.core.register job_id record).records)
    (jobs : b.core.jobs = (a.core.register job_id record).jobs) (storage : b.storage = a.storage)
    (fetches : ∀ job_id record, Pending b job_id record → Pending a job_id record) : Effect (fun _ => False) none a b where
  grown := by
    have grown : Grown (fun _ => False) a.core (a.core.register job_id record) := register_grown a.core own fresh
    exact ⟨by rw [records]; exact grown.tracks,by rw [records,jobs]; exact grown.table⟩
  saves := fun job_id => .inl (by rw [storage])
  rescues := by rintro r ⟨⟩
  fetches := fun job_id record pending => .inl (fetches job_id record pending)
  entered := by
    intro ref r found beyond
    rw [records] at found
    have inside : ref < (a.core.register job_id record).records.length := (List.getElem?_eq_some_iff.mp found).1
    have place : ref = a.core.records.length := by
      refine Nat.le_antisymm (Nat.le_of_lt_succ ?_) beyond
      simpa [State.register] using inside
    subst place
    have same : record = r := by simpa [State.register] using found
    subst same
    exact .inl (own.symm ▸ pending)

theorem read_effect (grounded : Grounded a) (unshared : Unshared a (.read reading)) :
    Effect (fun _ => False) none a (a.read reading) := by
  cases reading with
  | start job_id =>
      refine effect_of_same rfl (fun _ => .inl rfl) ?_
      rintro id record (⟨k,here⟩ | other)
      · rcases Nat.lt_or_ge k a.readers.length with inside | beyond
        · exact .inl (.inl ⟨k,by simpa [read,List.getElem?_append_left inside] using here⟩)
        · obtain ⟨_,last⟩ := List.getElem?_eq_some_iff.mp here
          simp only [read,List.getElem_append_right beyond,List.getElem_singleton] at last
          split at last <;> cases last
      · exact .inl (.inr other)
  | fetch k readable =>
      simp only [read]
      split
      · rename_i job_id here
        refine effect_of_same rfl (fun _ => .inl rfl) fun id record pending => ?_
        rcases pending_set (a := a) pending rfl rfl rfl rfl with old | new
        · exact .inl old
        · cases readable with
          | false => simp at new
          | true =>
              simp only [if_true,Reader.loaded.injEq] at new
              exact .inr (new.1 ▸ new.2)
      · exact effect_of_same rfl (fun _ => .inl rfl) fun _ _ pending => .inl pending
  | settle k =>
      simp only [read]
      split
      · refine effect_of_same rfl (fun _ => .inl rfl) fun id record pending => ?_
        rcases pending_set (a := a) pending rfl rfl rfl rfl with old | new
        · exact .inl old
        · cases new
      · rename_i job_id record here
        have fresh : job_id ∉ a.core.jobs := unshared job_id (by simp [loads,here])
        have pending : Pending a job_id record := .inl ⟨k,here⟩
        refine register_effect pending (grounded.pending job_id record pending) fresh rfl rfl rfl fun id r pending => ?_
        rcases pending_set (a := a) pending rfl rfl rfl rfl with old | new
        · exact old
        · cases new
      · exact effect_of_same rfl (fun _ => .inl rfl) fun _ _ pending => .inl pending
  | persist record =>
      exact store_effect record (store_core a record) rfl (store_readers a record) (store_fetched a record)
        (store_rescues a record)

theorem fetch_effect (i : Nat) (readable : Bool) : Effect (fun _ => False) none a (a.act (.fetch i readable)) := by
  simp only [act]
  split
  · rename_i job_id here
    split
    · exact effect_of_same rfl (fun _ => .inl rfl) fun _ _ pending => .inl pending
    · rename_i record found
      refine effect_of_same rfl (fun _ => .inl rfl) ?_
      rintro id r (reading | ⟨k,there,taken⟩ | rescuing)
      · exact .inl (.inl reading)
      · by_cases same : k = i
        · subst same
          rw [Dict.get?_set_self] at taken
          cases taken
          cases here.symm.trans there
          cases readable with
          | false => cases found
          | true => exact .inr found
        · rw [Dict.get?_set_ne _ _ same] at taken
          exact .inl (.inr (.inl ⟨k,there,taken⟩))
      · exact .inl (.inr (.inr rescuing))
  · exact effect_of_same rfl (fun _ => .inl rfl) fun _ _ pending => .inl pending

theorem settle_effect (grounded : Grounded a) (unshared : Unshared a (.settle i)) :
    Effect (fun _ => False) none a (a.act (.settle i)) := by
  simp only [act]
  split
  · rename_i job_id record here taken
    have fresh : job_id ∉ a.core.jobs := unshared job_id (by simp [loads,here,taken])
    have pending : Pending a job_id record := .inr (.inl ⟨i,here,taken⟩)
    have below := (List.getElem?_eq_some_iff.mp here).1
    have core : apply a.core (.resume i 0 (.loaded record)) =
        (a.core.register job_id record).goto i (.cancel_job (.authorized a.core.records.length)) := by
      simp [apply,here,cancel_job]
    rw [core]
    refine register_effect pending (grounded.pending job_id record pending) fresh rfl rfl rfl ?_
    rintro id r (reading | ⟨k,there,found⟩ | rescuing)
    · exact .inl reading
    · refine .inr (.inl ⟨k,?_,found⟩)
      by_cases same : i = k
      · subst same
        simp [State.goto,State.register,List.getElem?_set_self below] at there
      · simpa [State.goto,State.register,List.getElem?_set_ne same] using there
    · exact .inr (.inr rescuing)
  · exact effect_of_same rfl (fun _ => .inl rfl) fun _ _ pending => .inl pending

theorem save_effect (i : Nat) : Effect (fun _ => False) none a (a.act (.save i)) := by
  simp only [act]
  split
  · rename_i record here
    exact store_effect record (store_core a record) rfl (store_readers a record) (store_fetched a record)
        (store_rescues a record)
  · exact effect_of_same rfl (fun _ => .inl rfl) fun _ _ pending => .inl pending

-- A step of the recovery leaves the records and the table alone.
theorem rescue_effect (grounded : Grounded a) (rescuing : Rescuing) :
    Effect (fun _ => False) (a.rescues_by (.recover rescuing)) a (a.rescue rescuing) := by
  cases rescuing with
  | start job_id submitted_before =>
      simp only [rescue]
      split
      · exact effect_of_same rfl (fun _ => .inl rfl) fun _ _ pending => .inl pending
      · refine effect_of_same rfl (fun _ => .inl rfl) ?_
        rintro id record (reading | fetching | ⟨k,now,here⟩)
        · exact .inl (.inl reading)
        · exact .inl (.inr (.inl fetching))
        · rcases Nat.lt_or_ge k a.rescues.length with inside | beyond
          · exact .inl (.inr (.inr ⟨k,now,by simpa [List.getElem?_append_left inside] using here⟩))
          · obtain ⟨_,last⟩ := List.getElem?_eq_some_iff.mp here
            simp only [List.getElem_append_right beyond,List.getElem_singleton] at last
            cases last
  | fetch k readable now =>
      simp only [rescue]
      split
      · rename_i job_id submitted_before here
        refine effect_of_same rfl (fun _ => .inl rfl) fun id record pending => ?_
        rcases pending_rescue (a := a) pending rfl rfl rfl rfl with old | ⟨at_now,new⟩
        · exact .inl old
        · split at new
          · cases new
          · rename_i read loaded
            split at new
            · cases new
              cases readable with
              | false => cases loaded
              | true => exact .inr loaded
            · cases new
      · exact effect_of_same rfl (fun _ => .inl rfl) fun _ _ pending => .inl pending
  | save k =>
      simp only [rescue,rescues_by]
      split
      · rename_i job_id record now here
        have pending : Pending a job_id record := .inr (.inr ⟨k,now,here⟩)
        have own : (record.rescued now).job_id = job_id :=
          (record.rescued_job_id now).trans (grounded.pending job_id record pending)
        refine ⟨⟨.refl (fun _ _ => .refl _ _) _,.inl ⟨rfl,rfl⟩⟩,?_,?_,?_,?_⟩
        · intro id
          by_cases same : id = (record.rescued now).job_id
          · subst same
            exact .inr (.inr ⟨_,rfl,rfl,Storage.load_save_self _ _⟩)
          · exact .inl (Storage.load_save_ne _ _ same)
        · rintro r ⟨⟩
          exact ⟨record,own.symm ▸ pending,record.rescued_parent now,record.rescued_children now⟩
        · intro id r pending
          rcases pending_rescue (a := a) pending rfl rfl rfl rfl with old | ⟨_,new⟩
          · exact .inl old
          · cases new
        · intro ref r found beyond
          exact absurd (List.getElem?_eq_some_iff.mp found).1 (Nat.not_lt.mpr beyond)
      · exact effect_of_same rfl (fun _ => .inl rfl) fun _ _ pending => .inl pending

-- The records that a deed leaves loose: those that the coroutine it lets go on writes without a guard.
def loose_at (a : Archive) : Deed → Ref → Prop
  | .work op => loose_in a.core op
  | _ => fun _ => False

theorem act_effect (grounded : Grounded a) (unshared : Unshared a deed) :
    Effect (a.loose_at deed) (a.rescues_by deed) a (a.act deed) := by
  cases deed with
  | work op =>
      simp only [act]
      split
      · rename_i ready
        exact work_effect grounded ready
      · exact (effect_of_same rfl (fun _ => .inl rfl) fun _ _ pending => .inl pending).loosen fun _ h => h.elim
  | read reading => exact read_effect grounded unshared
  | recover rescuing => exact rescue_effect grounded rescuing
  | fetch i readable => exact fetch_effect i readable
  | settle i => exact settle_effect grounded unshared
  | save i => exact save_effect i

-- The forms that a deed takes in the end.
inductive Done (a : Archive) : Deed → Archive → Prop where
  | idle : Done a deed a
  | work : a.ready op = true → Done a (.work op) (a.work op)
  | read : Done a (.read reading) { a with readers := waiting }
  | recover : Done a (.recover rescuing) { a with rescues := waiting }
  | rescue : a.rescues[k]? = some (.saving job_id record now) → Done a (.recover (.save k))
      { a with storage := a.storage.save (record.rescued now), rescues := a.rescues.set k .closed }
  | enter : a.readers[k]? = some (.loaded job_id (some record)) → Done a (.read (.settle k))
      { a with core := a.core.register job_id record, readers := a.readers.set k (.holding a.core.records.length) }
  | persist : Done a (.read (.persist record)) (a.store record)
  | fetch : a.core.tasks[i]? = some (.cancel_job (.missing job_id)) →
      Done a (.fetch i readable) { a with fetched := a.fetched.set i record }
  | settle : a.core.tasks[i]? = some (.cancel_job (.missing job_id)) → a.fetched.get? i = some record →
      Done a (.settle i) { a with core := apply a.core (.resume i 0 (.loaded record)) }
  | save : a.core.tasks[i]? = some (.cancel_job (.cancelled record)) →
      Done a (.save i) { a.store record with saved := i :: a.saved }

theorem act_done (a : Archive) (deed : Deed) : Done a deed (a.act deed) := by
  cases deed with
  | work op =>
      simp only [act]
      split
      · rename_i ready
        exact .work ready
      · exact .idle
  | read reading =>
      cases reading with
      | start job_id => exact .read
      | fetch k readable =>
          simp only [act,Archive.read]
          split
          · exact .read
          · exact .idle
      | settle k =>
          simp only [act,Archive.read]
          split
          · exact .read
          · rename_i here
            exact .enter here
          · exact .idle
      | persist record => exact .persist
  | recover rescuing =>
      cases rescuing with
      | start job_id submitted_before =>
          simp only [act,Archive.rescue]
          split
          · exact .idle
          · exact .recover
      | fetch k readable now =>
          simp only [act,Archive.rescue]
          split
          · exact .recover
          · exact .idle
      | save k =>
          simp only [act,Archive.rescue]
          split
          · rename_i here
            exact .rescue here
          · exact .idle
  | fetch i readable =>
      simp only [act]
      split
      · rename_i here
        split
        · exact .idle
        · exact .fetch here
      · exact .idle
  | settle i =>
      simp only [act]
      split
      · rename_i here taken
        exact .settle here taken
      · exact .idle
  | save i =>
      simp only [act]
      split
      · rename_i here
        exact .save here
      · exact .idle

theorem Done.tasks_length (done : Done a deed b) : a.core.tasks.length ≤ b.core.tasks.length := by
  cases done with
  | work _ => exact apply_tasks_length a.core _
  | settle _ _ => exact apply_tasks_length a.core _
  | persist => simp
  | save _ => simp
  | _ => exact Nat.le_refl _

theorem calls_work (a : Archive) (op : Op) (below : i < a.core.tasks.length) :
    (a.work op).calls.get? i = a.calls.get? i := by
  unfold work
  cases op with
  | cancel job_id => exact Dict.get?_set_ne _ _ (Nat.ne_of_lt below)
  | _ => rfl

-- A call of `cancel_job` is known by the place of its coroutine, and only a new one is added.
theorem Done.calls (done : Done a deed b) (call : b.calls.get? i = some job_id) :
    a.calls.get? i = some job_id ∨ (i = a.core.tasks.length ∧ deed = .work (.cancel job_id)) := by
  cases done with
  | @work op _ =>
      by_cases below : i < a.core.tasks.length
      · exact .inl ((calls_work a op below).symm.trans call)
      · cases op with
        | cancel new =>
            by_cases last : i = a.core.tasks.length
            · subst last
              simp only [Archive.work,opened,Option.elim_some,Dict.get?_set_self,Option.some.injEq] at call
              exact .inr ⟨rfl,by rw [call]⟩
            · simp only [Archive.work,opened,Option.elim_some,Dict.get?_set_ne _ _ last] at call
              exact .inl call
        | _ => exact .inl call
  | persist => exact .inl (by simpa using call)
  | save _ => exact .inl (by simpa using call)
  | _ => exact .inl call

theorem Done.old_calls (done : Done a deed b) (grounded : Grounded a) (call : a.calls.get? i = some job_id) :
    b.calls.get? i = some job_id := by
  cases done with
  | work _ => exact (calls_work a _ (grounded.opened i job_id call)).trans call
  | persist => simpa using call
  | save _ => simpa using call
  | _ => exact call

theorem Done.fetchers (done : Done a deed b) (grounded : Grounded a) (found : b.fetched.get? i = some r) :
    i < a.core.tasks.length := by
  cases done with
  | @fetch k _ _ _ here =>
      by_cases same : i = k
      · subst same
        exact (List.getElem?_eq_some_iff.mp here).1
      · rw [Dict.get?_set_ne _ _ same] at found
        exact grounded.fetchers i r found
  | persist => exact grounded.fetchers i r (by simpa using found)
  | save _ => exact grounded.fetchers i r (by simpa using found)
  | _ => exact grounded.fetchers i r found

-- Where a call of `cancel_job` is after a deed, from where it was.
inductive Arrives (a : Archive) (k : Nat) : Deed → CancelPoint → Prop where
  | same : a.core.tasks[k]? = some (.cancel_job point) → Arrives a k deed point
  | missing : k = a.core.tasks.length → a.core.jobs.get? job_id = none →
      Arrives a k (.work (.cancel job_id)) (.missing job_id)
  | found : k = a.core.tasks.length → a.core.jobs.get? job_id = some record →
      Arrives a k (.work (.cancel job_id)) (.authorized record)
  | settled : a.core.tasks[k]? = some (.cancel_job (.missing job_id)) → Pending a job_id record →
      job_id ∉ a.core.jobs → (a.act (.settle k)).core.jobs.get? job_id = some a.core.records.length →
      Arrives a k (.settle k) (.authorized a.core.records.length)
  | next : a.core.tasks[k]? = some (.cancel_job before) → a.ready (.resume k now event) = true →
      CancelNext a.core before event point → Arrives a k (.work (.resume k now event)) point

theorem work_arrives (ready : a.ready op = true) (here : (apply a.core op).tasks[k]? = some (.cancel_job point)) :
    Arrives a k (.work op) point := by
  rcases apply_cancels here with same | ⟨job_id,rfl,new⟩ | ⟨now,event,before,rfl,was,step⟩
  · exact .same same
  · subst new
    cases table : a.core.jobs.get? job_id with
    | none =>
        have at_load : point = .missing job_id := by simpa [apply,State.spawn,table] using here.symm
        subst at_load
        exact .missing rfl table
    | some record =>
        have at_lock : point = .authorized record := by simpa [apply,State.spawn,table] using here.symm
        subst at_lock
        exact .found rfl table
  · exact .next was ready (cancel_job_next was (by rw [← step]; exact here))

theorem Done.arrives (done : Done a deed b) (unshared : Unshared a deed)
    (here : b.core.tasks[k]? = some (.cancel_job point)) : Arrives a k deed point := by
  cases done with
  | work ready => exact work_arrives ready here
  | @settle i record job_id was taken =>
      have below := (List.getElem?_eq_some_iff.mp was).1
      by_cases same : i = k
      · subst same
        have at_lock : point = .authorized a.core.records.length := by
          simpa [apply,was,cancel_job,State.goto,State.register,List.getElem?_set_self below] using here.symm
        subst at_lock
        refine .settled was (.inr (.inl ⟨i,was,taken⟩)) (unshared job_id (by simp [loads,was,taken])) ?_
        simp [act,was,taken,apply,cancel_job,State.goto,State.register,Dict.get?_set_self]
      · refine .same ?_
        simpa [was,apply,cancel_job,State.goto,State.register,List.getElem?_set_ne same] using here
  | persist => exact .same (by simpa using here)
  | save _ => exact .same (by simpa using here)
  | _ => exact .same here

theorem marks_open (marked : marks s op = some record) : ∃ i now, op = .resume i now .resumed ∧
    s.tasks[i]? = some (.cancel_job (.authorized record)) ∧ s.terminal record = false := by
  unfold marks at marked
  split at marked
  · rename_i i now
    split at marked
    · rename_i target here
      split at marked
      · cases marked
      · rename_i still
        cases marked
        exact ⟨i,now,rfl,here,by simpa using still⟩
    · cases marked
  · cases marked

theorem Done.marked (done : Done a deed b) (member : record ∈ b.marked) : record ∈ a.marked ∨ ∃ i now,
    deed = .work (.resume i now .resumed) ∧ a.ready (.resume i now .resumed) = true ∧
      a.core.tasks[i]? = some (.cancel_job (.authorized record)) ∧ a.core.terminal record = false := by
  cases done with
  | work ready =>
      rcases List.mem_append.mp member with new | old
      · obtain ⟨i,now,rfl,here,still⟩ := marks_open (Option.mem_toList.mp new)
        exact .inr ⟨i,now,rfl,ready,here,still⟩
      · exact .inl old
  | persist => exact .inl (by simpa using member)
  | save _ => exact .inl (by simpa using member)
  | _ => exact .inl member

theorem Done.old_marked (done : Done a deed b) (member : record ∈ a.marked) : record ∈ b.marked := by
  cases done with
  | work _ => exact List.mem_append_right _ member
  | persist => simpa using member
  | save _ => simpa using member
  | _ => exact member

theorem returns_at (returned : returns s op = some i) : ∃ now, op = .resume i now .resumed ∧
    s.tasks[i]? = some (.cancel_job (.children [])) := by
  unfold returns at returned
  split at returned
  · rename_i k now
    split at returned
    · rename_i here
      cases returned
      exact ⟨now,rfl,here⟩
    · cases returned
  · cases returned

theorem Done.returned (done : Done a deed b) (member : i ∈ b.returned) :
    i ∈ a.returned ∨ a.core.tasks[i]? = some (.cancel_job (.children [])) := by
  cases done with
  | work _ =>
      rcases List.mem_append.mp member with new | old
      · obtain ⟨_,_,here⟩ := returns_at (Option.mem_toList.mp new)
        exact .inr here
      · exact .inl old
  | persist => exact .inl (by simpa using member)
  | save _ => exact .inl (by simpa using member)
  | _ => exact .inl member

theorem Done.saved (done : Done a deed b) (member : i ∈ b.saved) : i ∈ a.saved ∨ ∃ record,
    a.core.tasks[i]? = some (.cancel_job (.cancelled record)) ∧ b.storage = (a.store record).storage := by
  cases done with
  | @save k record here =>
      rcases List.mem_cons.mp member with rfl | old
      · exact .inr ⟨record,here,rfl⟩
      · exact .inl (by simpa using old)
  | persist => exact .inl (by simpa using member)
  | _ => exact .inl member

theorem act_grounded (grounded : Grounded a) (unshared : Unshared a deed) : Grounded (a.act deed) := by
  have effect := act_effect grounded unshared
  have done := act_done a deed
  refine ⟨effect.grown.sole grounded.sole,effect.grown.tabled grounded.tabled,?_,?_,?_⟩
  · intro job_id record pending
    rcases effect.fetches job_id record pending with old | new
    · exact grounded.pending job_id record old
    · exact a.storage.filed job_id record new
  · intro i job_id call
    rcases done.calls call with old | ⟨rfl,rfl⟩
    · exact (grounded.opened i job_id old).trans_le done.tasks_length
    · simp [act,Archive.ready,work,apply,State.spawn]
  · intro i r found
    exact (done.fetchers grounded found).trans_le done.tasks_length

end

theorem boot_grounded (storage : Storage) : Grounded (boot storage) where
  sole := by
    intro record r found
    cases found
  tabled := by
    intro job_id record here
    cases here
  pending := by
    rintro job_id record (⟨k,here⟩ | ⟨i,here,_⟩ | ⟨k,now,here⟩) <;> cases here
  opened := by
    intro i job_id call
    cases call
  fetchers := by
    intro i r found
    cases found

end Archive

end Lumilake.Jobs

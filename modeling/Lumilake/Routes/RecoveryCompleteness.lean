import Lumilake.Routes.Recovery

namespace Lumilake.Jobs.Recovery

-- What a copy of a stored record can have become: the same, or failed where it was to be failed.
structure Follows (submitted_before : Option Time) (first record : JobRecord) : Prop where
  job_id : record.job_id = first.job_id
  submitted_at : record.submitted_at = first.submitted_at
  status : record.status = first.status ∨ (Stuck submitted_before first ∧ record.status = .failed)

theorem failed_inactive {record : JobRecord} (failed : record.status = .failed) : ¬record.active := by
  change record.status ∉ ACTIVE_STATUSES
  rw [failed]; decide

theorem active_congr {a b : JobRecord} (same : a.status = b.status) : a.active ↔ b.active := by
  change a.status ∈ ACTIVE_STATUSES ↔ b.status ∈ ACTIVE_STATUSES
  rw [same]

theorem terminal_inactive {record : JobRecord} (terminal : record.terminal) : ¬record.active := by
  change record.status ∈ TERMINAL_JOB_STATUSES at terminal
  change record.status ∉ ACTIVE_STATUSES
  revert terminal
  cases record.status <;> decide

section
variable {submitted_before : Option Time} {first record other : JobRecord}

theorem due_congr {a b : JobRecord} (same : a.submitted_at = b.submitted_at) :
    due submitted_before a = due submitted_before b := by
  unfold due; rw [same]

theorem Follows.refl (record : JobRecord) : Follows submitted_before record record := ⟨rfl,rfl,.inl rfl⟩

theorem Follows.stuck (follows : Follows submitted_before first record) (stuck : Stuck submitted_before record) :
    Stuck submitted_before first := by
  rcases follows.status with same | ⟨_,failed⟩
  · exact ⟨(active_congr same).mp stuck.1,(due_congr follows.submitted_at).symm.trans stuck.2⟩
  · exact absurd stuck.1 (failed_inactive failed)

theorem Follows.active (follows : Follows submitted_before first record) (active : record.active) :
    record.status = first.status := by
  rcases follows.status with same | ⟨_,failed⟩
  · exact same
  · exact absurd active (failed_inactive failed)

-- A copy that is past its end says the same as any copy that the passes would leave alone.
theorem Follows.agree (follows : Follows submitted_before first record) (ended : ¬record.active)
    (beside : Follows submitted_before first other) (settled : ¬Stuck submitted_before other) :
    other.status = record.status := by
  rcases follows.status with same | ⟨stuck,failed⟩
  · have closed : ¬first.active := fun active => ended ((active_congr same).mpr active)
    rcases beside.status with equal | ⟨stuck,_⟩
    · exact equal.trans same.symm
    · exact absurd stuck.1 closed
  · rcases beside.status with equal | ⟨_,also⟩
    · have again : Stuck submitted_before other :=
        ⟨(active_congr equal).mpr stuck.1,(due_congr beside.submitted_at).trans stuck.2⟩
      exact absurd again settled
    · exact also.trans failed.symm

theorem Follows.close (follows : Follows submitted_before first record) (stuck : Stuck submitted_before record)
    (error : Option String) (now : Time) : Follows submitted_before first (record.close .failed error now) :=
  ⟨follows.job_id,follows.submitted_at,.inr ⟨follows.stuck stuck,rfl⟩⟩

end

section
variable (submitted_before : Option Time) (first : Storage)

-- A copy of a stored record: where it has ended, the storage says so too.
structure Copy (storage : Storage) (record : JobRecord) : Prop where
  stored : ∃ origin, first.load record.job_id = some origin ∧ Follows submitted_before origin record
  kept : ¬record.active → ∃ now, storage.load record.job_id = some now ∧ now.status = record.status

-- A record that a save of this process may write.
structure Savable (record : JobRecord) : Prop where
  stored : ∃ origin, first.load record.job_id = some origin ∧ Follows submitted_before origin record
  settled : ¬Stuck submitted_before record

-- The storage against the one the process has started on.
structure Faithful (storage : Storage) : Prop where
  kept : ∀ job_id origin, first.load job_id = some origin →
    ∃ record, storage.load job_id = some record ∧ Follows submitted_before origin record
  known : ∀ job_id record, storage.load job_id = some record → ∃ origin, first.load job_id = some origin
  indexed : Indexed submitted_before storage

-- What the pass has in hand at the point it is at.
def Holds (storage : Storage) : PassPoint → Prop
  | .next => True
  | .loading _ => True
  | .saving job_id record _ => record.job_id = job_id ∧ Savable submitted_before first record ∧ ¬record.active
  | .indexing job_id record _ => record.job_id = job_id ∧ Copy submitted_before first storage record ∧ ¬record.active

-- A job that is still to be failed is ahead of the pass, or the pass will raise.
def Ahead (p : Pass) (job_id : String) : Prop :=
  job_id ∈ p.summaries ∨ p.point.job_id = some job_id ∨ p.unreachable ≠ []

structure Sound (s : Recovery) : Prop where
  faithful : Faithful submitted_before first s.archive.storage
  readers : ∀ (k : Nat) (job_id : String) (record : JobRecord), s.archive.readers[k]? = some (Reader.loaded job_id (some record)) →
    record.job_id = job_id ∧ Copy submitted_before first s.archive.storage record
  records : ∀ (ref : Ref) (record : JobRecord), s.archive.core.records[ref]? = some record →
    Copy submitted_before first s.archive.storage record ∧ ¬Stuck submitted_before record
  table : ∀ job_id ref, s.archive.core.jobs.get? job_id = some ref →
    ∃ record, s.archive.core.records[ref]? = some record ∧ record.job_id = job_id
  holds : ∀ p, s.pass = some p → Holds submitted_before first s.archive.storage p.point
  ahead : ∀ p, s.pass = some p → ∀ job_id record, s.archive.storage.load job_id = some record →
    Stuck submitted_before record → Ahead p job_id
  returned : s.returned.isSome → ∀ job_id record, s.archive.storage.load job_id = some record → ¬Stuck submitted_before record

-- One write to the storage, by what the copies and the passes rely on.
structure Renewed (before after : Storage) : Prop where
  copies : ∀ record, Copy submitted_before first before record → Copy submitted_before first after record
  faithful : Faithful submitted_before first after
  stuck : ∀ job_id record, after.load job_id = some record → Stuck submitted_before record → before.load job_id = some record

end

section
variable {submitted_before : Option Time} {first storage : Storage} {record : JobRecord} {s : Recovery} {p q : Pass}

theorem Copy.origin (copy : Copy submitted_before first storage record) (faithful : Faithful submitted_before first storage)
    (found : storage.load record.job_id = some now) (stuck : Stuck submitted_before now) : Stuck submitted_before record := by
  obtain ⟨origin,source,follows⟩ := copy.stored
  obtain ⟨again,there,also⟩ := faithful.kept record.job_id origin source
  cases found.symm.trans there
  have same_due : due submitted_before record = true :=
    (due_congr (follows.submitted_at.trans also.submitted_at.symm)).trans stuck.2
  by_cases active : record.active
  · exact ⟨active,same_due⟩
  · obtain ⟨last,here,ended⟩ := copy.kept active
    cases found.symm.trans here
    exact absurd ((active_congr ended).mp stuck.1) active

theorem Faithful.copy (faithful : Faithful submitted_before first storage) (found : storage.load job_id = some record) :
    Copy submitted_before first storage record := by
  have own : record.job_id = job_id := storage.filed job_id record found
  subst own
  obtain ⟨origin,source⟩ := faithful.known record.job_id record found
  obtain ⟨again,there,follows⟩ := faithful.kept record.job_id origin source
  cases found.symm.trans there
  exact ⟨⟨origin,source,follows⟩,fun _ => ⟨record,found,rfl⟩⟩

theorem renewed_blobs (faithful : Faithful submitted_before first storage) (savable : Savable submitted_before first record) :
    Renewed submitted_before first storage (storage.save_record_blobs record) := by
  obtain ⟨⟨origin,source,follows⟩,settled⟩ := savable
  have self : (storage.save_record_blobs record).load record.job_id = some record := storage.load_save_blobs_self record
  have apart : ∀ job_id, job_id ≠ record.job_id → (storage.save_record_blobs record).load job_id = storage.load job_id :=
    fun _ other => storage.load_save_blobs_ne record other
  have fresh : ∀ job_id found, (storage.save_record_blobs record).load job_id = some found → Stuck submitted_before found →
      storage.load job_id = some found := by
    intro job_id found here stuck
    by_cases same : job_id = record.job_id
    · subst same
      cases self.symm.trans here
      exact absurd stuck settled
    · exact (apart job_id same).symm.trans here
  refine ⟨fun other copy => ?_,⟨fun job_id first_record found => ?_,fun job_id found here => ?_,fun job_id found here stuck => ?_⟩,
    fresh⟩
  · refine ⟨copy.stored,fun ended => ?_⟩
    by_cases same : other.job_id = record.job_id
    · obtain ⟨_,again,beside⟩ := copy.stored
      rw [same] at again
      cases source.symm.trans again
      exact ⟨record,same ▸ self,beside.agree ended follows settled⟩
    · rw [apart _ same]
      exact copy.kept ended
  · by_cases same : job_id = record.job_id
    · subst same
      cases source.symm.trans found
      exact ⟨record,self,follows⟩
    · rw [apart _ same]
      exact faithful.kept job_id first_record found
  · by_cases same : job_id = record.job_id
    · exact ⟨origin,same ▸ source⟩
    · exact faithful.known job_id found ((apart _ same).symm.trans here)
  · exact faithful.indexed job_id found (fresh job_id found here stuck) stuck

theorem renewed_summary (faithful : Faithful submitted_before first storage)
    (ended : ∀ now, storage.load record.job_id = some now → ¬Stuck submitted_before now) :
    Renewed submitted_before first storage (storage.save_summary record) := by
  refine ⟨fun _ copy => ⟨copy.stored,copy.kept⟩,⟨faithful.kept,faithful.known,fun job_id found here stuck => ?_⟩,
    fun _ _ here _ => here⟩
  obtain ⟨status,listed,active⟩ := faithful.indexed job_id found here stuck
  have other : job_id ≠ record.job_id := by
    rintro rfl
    exact ended found here stuck
  exact ⟨status,(Dict.get?_set_ne _ _ other).trans listed,active⟩

theorem Renewed.trans (one : Renewed submitted_before first a b) (two : Renewed submitted_before first b c) :
    Renewed submitted_before first a c :=
  ⟨fun record copy => two.copies record (one.copies record copy),two.faithful,
    fun job_id record here stuck => one.stuck job_id record (two.stuck job_id record here stuck) stuck⟩

theorem renewed_save (faithful : Faithful submitted_before first storage) (savable : Savable submitted_before first record) :
    Renewed submitted_before first storage (storage.save record) := by
  have blobs := renewed_blobs faithful savable
  refine blobs.trans (renewed_summary blobs.faithful fun now here => ?_)
  cases (storage.load_save_blobs_self record).symm.trans here
  exact savable.settled

theorem Holds.renew (renewed : Renewed submitted_before first storage after) {point : PassPoint}
    (holds : Holds submitted_before first storage point) : Holds submitted_before first after point := by
  cases point with
  | next => trivial
  | loading job_id => trivial
  | saving job_id record repair => exact holds
  | indexing job_id record repair => exact ⟨holds.1,renewed.copies record holds.2.1,holds.2.2⟩

theorem Sound.renew (sound : Sound submitted_before first s)
    (renewed : Renewed submitted_before first s.archive.storage after) : Sound submitted_before first (s.write after) where
  faithful := renewed.faithful
  readers := fun k job_id record here => ⟨(sound.readers k job_id record here).1,renewed.copies record (sound.readers k job_id record here).2⟩
  records := fun ref record here => ⟨renewed.copies record (sound.records ref record here).1,(sound.records ref record here).2⟩
  table := sound.table
  holds := fun p here => (sound.holds p here).renew renewed
  ahead := fun p here job_id record found stuck => sound.ahead p here job_id record (renewed.stuck job_id record found stuck) stuck
  returned := fun done job_id record found stuck => sound.returned done job_id record (renewed.stuck job_id record found stuck) stuck

theorem Sound.goto (sound : Sound submitted_before first s) (holds : Holds submitted_before first s.archive.storage q.point)
    (ahead : ∀ job_id record, s.archive.storage.load job_id = some record → Stuck submitted_before record → Ahead q job_id) :
    Sound submitted_before first (s.goto q) := by
  refine ⟨sound.faithful,sound.readers,sound.records,sound.table,?_,?_,sound.returned⟩
  · intro p here
    cases here
    exact holds
  · intro p here
    cases here
    exact ahead

theorem Sound.fail (sound : Sound submitted_before first s) : Sound submitted_before first s.fail := by
  refine ⟨sound.faithful,sound.readers,sound.records,sound.table,?_,?_,sound.returned⟩
  all_goals
    intro p here
    cases here

-- The pass goes on from a job that it need not fail, or no more.
theorem Sound.leave (sound : Sound submitted_before first s) (here : s.pass = some p)
    (settled : ∀ job_id record, p.point.job_id = some job_id → s.archive.storage.load job_id = some record →
      ¬Stuck submitted_before record)
    (point : q.point = .next) (summaries : q.summaries = p.summaries) (unreachable : q.unreachable = p.unreachable) :
    Sound submitted_before first (s.goto q) := by
  refine sound.goto (by rw [point]; trivial) fun job_id record found stuck => ?_
  rcases sound.ahead p here job_id record found stuck with later | at_it | missed
  · exact .inl (summaries ▸ later)
  · exact absurd stuck (settled job_id record at_it found)
  · exact .inr (.inr (unreachable ▸ missed))

theorem Sound.miss (sound : Sound submitted_before first s) (p : Pass) (job_id : String) :
    Sound submitted_before first (s.goto (p.miss job_id)) :=
  sound.goto trivial fun _ _ _ _ => .inr (.inr (by simp [Pass.miss]))

-- A copy in the table has not been left behind, and neither is the stored record then.
theorem Sound.settled_in_memory (sound : Sound submitted_before first s) (present : job_id ∈ s.archive.core.jobs)
    (found : s.archive.storage.load job_id = some record) : ¬Stuck submitted_before record := by
  obtain ⟨ref,table⟩ := Dict.mem_keys_iff.mp present
  obtain ⟨copy,there,own⟩ := sound.table job_id ref table
  subst own
  intro stuck
  have kept := sound.records ref copy there
  exact kept.2 (kept.1.origin sound.faithful found stuck)

theorem next_sound (sound : Sound submitted_before first s) (here : s.pass = some p) (point : p.point = .next) (answer : Answer) :
    Sound submitted_before first (resume_pass submitted_before s p answer) := by
  have ahead := sound.ahead p here
  unfold resume_pass
  rw [point]
  dsimp only
  cases list : p.summaries with
  | nil =>
      dsimp only
      split
      · rename_i reached
        refine ⟨sound.faithful,sound.readers,sound.records,sound.table,fun _ here => ?_,fun _ here => ?_,
          fun _ job_id record found stuck => ?_⟩
        · cases here
        · cases here
        rcases ahead job_id record found stuck with later | at_it | missed
        · rw [list] at later; cases later
        · rw [point] at at_it; cases at_it
        · exact missed (List.isEmpty_iff.mp reached)
      · exact sound.fail
  | cons job rest =>
      dsimp only
      have onward : ∀ job_id record, s.archive.storage.load job_id = some record → Stuck submitted_before record →
          job_id = job ∨ job_id ∈ rest ∨ p.unreachable ≠ [] := by
        intro job_id record found stuck
        rcases ahead job_id record found stuck with later | at_it | missed
        · rw [list] at later
          exact (List.mem_cons.mp later).elim .inl fun later => .inr (.inl later)
        · rw [point] at at_it; cases at_it
        · exact .inr (.inr missed)
      split
      · rename_i present
        refine sound.goto trivial fun job_id record found stuck => ?_
        rcases onward job_id record found stuck with rfl | later | missed
        · exact absurd stuck (sound.settled_in_memory present found)
        · exact .inl later
        · exact .inr (.inr missed)
      · refine sound.goto trivial fun job_id record found stuck => ?_
        rcases onward job_id record found stuck with rfl | later | missed
        · exact .inr (.inl rfl)
        · exact .inl later
        · exact .inr (.inr missed)

theorem loading_sound (sound : Sound submitted_before first s) (here : s.pass = some p) (point : p.point = .loading job)
    (answer : Answer) (clear : Clear submitted_before s (.resume answer)) :
    Sound submitted_before first (resume_pass submitted_before s p answer) := by
  have at_job : ∀ job_id, p.point.job_id = some job_id → job_id = job := by
    intro job_id at_it
    rw [point] at at_it
    exact (Option.some.inj at_it).symm
  unfold resume_pass
  rw [point]
  cases answer with
  | raised => exact sound.miss p job
  | done readable now =>
      dsimp only
      cases loaded : s.archive.storage.load job with
      | none =>
          refine sound.leave here (fun job_id record at_it found => ?_) rfl rfl rfl
          rw [at_job job_id at_it,loaded] at found
          cases found
      | some record =>
          have copy := sound.faithful.copy loaded
          have own : record.job_id = job := s.archive.storage.filed job record loaded
          have onward : ∀ job_id other, s.archive.storage.load job_id = some other → Stuck submitted_before other →
              job_id ∈ p.summaries ∨ some job = some job_id ∨ p.unreachable ≠ [] := by
            intro job_id other found stuck
            have found := sound.ahead p here job_id other found stuck
            rwa [Ahead,point] at found
          dsimp only
          split
          · rename_i taken
            have ours := Bool.and_eq_true_iff.mp taken
            split
            · rename_i active
              have settled : ¬(record.close .failed (record.error_or restart_reason) now).active := failed_inactive rfl
              obtain ⟨origin,source,follows⟩ := copy.stored
              exact sound.goto ⟨own,⟨⟨origin,source,follows.close ⟨active,ours.2⟩ _ now⟩,fun stuck => settled stuck.1⟩,settled⟩
                onward
            · rename_i ended
              exact sound.goto ⟨own,⟨copy.stored,fun stuck => ended stuck.1⟩,ended⟩ onward
          · rename_i passed
            refine sound.leave here (fun job_id other at_it found stuck => ?_) rfl rfl rfl
            cases at_job job_id at_it
            cases loaded.symm.trans found
            cases readable with
            | true => exact passed (by simp [stuck.2])
            | false => exact clear.rebuilt record (by simp [unreadable,here,point,loaded]) stuck

theorem saving_sound (sound : Sound submitted_before first s) (here : s.pass = some p)
    (point : p.point = .saving job record repair) (answer : Answer) :
    Sound submitted_before first (resume_pass submitted_before s p answer) := by
  have holds := sound.holds p here
  rw [point] at holds
  obtain ⟨own,savable,ended⟩ := holds
  unfold resume_pass
  rw [point]
  cases answer with
  | raised => exact sound.miss p job
  | done readable now =>
      have renewed := renewed_blobs sound.faithful savable
      have written := sound.renew renewed
      refine written.goto ⟨own,⟨savable.stored,fun _ => ⟨record,Storage.load_save_blobs_self _ _,rfl⟩⟩,ended⟩ ?_
      intro job_id other found stuck
      have before := written.ahead p here job_id other found stuck
      rwa [Ahead,point] at before

theorem indexing_sound (sound : Sound submitted_before first s) (here : s.pass = some p)
    (point : p.point = .indexing job record repair) (answer : Answer) :
    Sound submitted_before first (resume_pass submitted_before s p answer) := by
  have holds := sound.holds p here
  rw [point] at holds
  obtain ⟨own,copy,ended⟩ := holds
  subst own
  have settled : ∀ now, s.archive.storage.load record.job_id = some now → ¬Stuck submitted_before now :=
    fun now found stuck => ended (copy.origin sound.faithful found stuck).1
  unfold resume_pass
  rw [point]
  cases answer with
  | raised => exact sound.miss p record.job_id
  | done readable now =>
      have written := sound.renew (renewed_summary sound.faithful settled)
      refine written.leave (p := p) here (fun job_id other at_it found => ?_) ?_ ?_ ?_
      · rw [point] at at_it
        cases at_it
        exact settled other found
      all_goals
        unfold Pass.count
        split <;> rfl

theorem resume_sound (sound : Sound submitted_before first s) (clear : Clear submitted_before s (.resume answer)) :
    Sound submitted_before first (act submitted_before s (.resume answer)) := by
  unfold act
  cases here : s.pass with
  | none => exact sound
  | some p =>
      cases point : p.point with
      | next => exact next_sound sound here point answer
      | loading job_id => exact loading_sound sound here point answer clear
      | saving job_id record repair => exact saving_sound sound here point answer
      | indexing job_id record repair => exact indexing_sound sound here point answer

theorem start_sound (sound : Sound submitted_before first s) (answer : Answer) :
    Sound submitted_before first (act submitted_before s (.start answer)) := by
  unfold act
  dsimp only
  split
  · cases answer with
    | raised => exact sound.fail
    | done readable now =>
        refine sound.goto trivial fun job_id record found stuck => .inl ?_
        obtain ⟨status,listed,active⟩ := sound.faithful.indexed job_id record found stuck
        refine List.mem_map.mpr ⟨(job_id,status),List.mem_filter.mpr ⟨Dict.get?_eq_some.mp listed,?_⟩,rfl⟩
        exact decide_eq_true active
  · exact sound

theorem read_sound (sound : Sound submitted_before first s) (clear : Clear submitted_before s (.read reading)) :
    Sound submitted_before first (act submitted_before s (.read reading)) := by
  have readers_set : ∀ (k : Nat) (reader : Reader), (∀ job_id record, reader = .loaded job_id (some record) →
      record.job_id = job_id ∧ Copy submitted_before first s.archive.storage record) →
      ∀ (i : Nat) (job_id : String) (record : JobRecord),
        (s.archive.readers.set k reader)[i]? = some (.loaded job_id (some record)) →
        record.job_id = job_id ∧ Copy submitted_before first s.archive.storage record := by
    intro k reader own i job_id record here
    by_cases same : k = i
    · subst same
      have inside : k < s.archive.readers.length := by
        simpa using (List.getElem?_eq_some_iff.mp here).1
      rw [List.getElem?_set_self inside] at here
      exact own job_id record (Option.some.inj here)
    · rw [List.getElem?_set_ne same] at here
      exact sound.readers i job_id record here
  cases reading with
  | start job_id =>
      refine ⟨sound.faithful,?_,sound.records,sound.table,sound.holds,sound.ahead,sound.returned⟩
      intro k id record here
      rcases Nat.lt_or_ge k s.archive.readers.length with inside | beyond
      · exact sound.readers k id record (by simpa [act,Archive.read,List.getElem?_append_left inside] using here)
      · obtain ⟨_,last⟩ := List.getElem?_eq_some_iff.mp here
        simp only [act,Archive.read,List.getElem_append_right beyond,List.getElem_singleton] at last
        split at last <;> cases last
  | fetch k readable =>
      simp only [act,Archive.read]
      split
      · rename_i job_id there
        refine ⟨sound.faithful,readers_set k _ ?_,sound.records,sound.table,sound.holds,sound.ahead,sound.returned⟩
        intro id record same
        cases readable with
        | false => cases same
        | true =>
            simp only [if_true,Reader.loaded.injEq] at same
            obtain ⟨rfl,found⟩ := same
            exact ⟨s.archive.storage.filed job_id record found,sound.faithful.copy found⟩
      · exact sound
  | settle k =>
      simp only [act,Archive.read]
      split
      · exact ⟨sound.faithful,readers_set k _ (fun _ _ same => Reader.noConfusion same),sound.records,sound.table,
          sound.holds,sound.ahead,sound.returned⟩
      · rename_i job_id entered there
        have settled := clear.entered entered (by simp [enters,there])
        obtain ⟨own,copy⟩ := sound.readers k job_id entered there
        refine ⟨sound.faithful,readers_set k _ (fun _ _ same => Reader.noConfusion same),?_,?_,sound.holds,sound.ahead,
          sound.returned⟩
        · intro ref record found
          rcases Nat.lt_or_ge ref s.archive.core.records.length with inside | beyond
          · exact sound.records ref record (by simpa [State.register,List.getElem?_append_left inside] using found)
          · obtain ⟨_,last⟩ := List.getElem?_eq_some_iff.mp found
            simp only [State.register,List.getElem_append_right beyond,List.getElem_singleton] at last
            subst last
            exact ⟨copy,settled⟩
        · intro id ref table
          by_cases same : id = job_id
          · subst same
            have place : s.archive.core.records.length = ref := by
              simpa [State.register,Dict.get?_set_self] using table
            subst place
            exact ⟨entered,by simp [State.register],own⟩
          · obtain ⟨record,found,named⟩ := sound.table id ref (by simpa [State.register,Dict.get?_set_ne _ _ same] using table)
            have inside := (List.getElem?_eq_some_iff.mp found).1
            exact ⟨record,by simp [State.register,List.getElem?_append_left inside,found],named⟩
      · exact sound
  | persist ref =>
      simp only [act,Archive.read,Archive.store]
      split
      · exact sound
      · rename_i record found
        obtain ⟨copy,settled⟩ := sound.records ref record found
        exact sound.renew (renewed_save sound.faithful ⟨copy.stored,settled⟩)

theorem act_sound (sound : Sound submitted_before first s) (turn : Turn) (clear : Clear submitted_before s turn) :
    Sound submitted_before first (act submitted_before s turn) := by
  cases turn with
  | read reading => exact read_sound sound clear
  | start answer => exact start_sound sound answer
  | resume answer => exact resume_sound sound clear

theorem boot_sound (indexed : Indexed submitted_before first) : Sound submitted_before first (boot first) where
  faithful := ⟨fun _ origin found => ⟨origin,found,.refl origin⟩,fun _ record found => ⟨record,found⟩,indexed⟩
  readers := fun _ _ _ here => by simp [boot,Archive.boot] at here
  records := fun _ _ here => by simp [boot,Archive.boot,State.initial] at here
  table := fun _ _ here => by cases here
  holds := fun _ here => by cases here
  ahead := fun _ here => by cases here
  returned := fun done => by simp [boot] at done

-- Where the storage says that a job has ended, every copy of its record says the same.
theorem Sound.copies (sound : Sound submitted_before first s) (found : s.archive.storage.load job_id = some record)
    (ended : ¬record.active) {ref : Ref} {seen : JobRecord} (there : s.archive.core.records[ref]? = some seen)
    (own : seen.job_id = job_id) : seen.status = record.status := by
  subst own
  obtain ⟨copy,settled⟩ := sound.records ref seen there
  obtain ⟨origin,source,follows⟩ := copy.stored
  obtain ⟨again,here,beside⟩ := sound.faithful.kept seen.job_id origin source
  cases found.symm.trans here
  exact beside.agree ended follows settled

end

-- What the storage says of a job, what each copy of its record in memory says, and what a reader sees.
structure Shows (s : Recovery) (job_id : String) (status : JobStatus) : Prop where
  stored : ∃ record, s.archive.storage.load job_id = some record ∧ record.status = status
  copies : ∀ (ref : Ref) (record : JobRecord), s.archive.core.records[ref]? = some record → record.job_id = job_id →
    record.status = status
  read : ∃ record, s.archive.current job_id = some record ∧ record.status = status

theorem Sound.shows (sound : Sound submitted_before first s) (found : s.archive.storage.load job_id = some record)
    (ended : ¬record.active) : Shows s job_id record.status := by
  refine ⟨⟨record,found,rfl⟩,fun ref seen there own => sound.copies found ended there own,?_⟩
  unfold Archive.current
  cases table : s.archive.core.jobs.get? job_id with
  | none => exact ⟨record,found,rfl⟩
  | some ref =>
      obtain ⟨seen,there,own⟩ := sound.table job_id ref table
      exact ⟨seen,there,sound.copies found ended there own⟩

-- When a pass has returned, every stored job that it was to look after has failed, and in
-- every state a job that had ended before still says what it said.
theorem recovery_complete {submitted_before : Option Time} {first : Storage} (indexed : Indexed submitted_before first)
    {turns : List Turn} {s : Recovery}
    (path : Runs (fun s turn t => Clear submitted_before s turn ∧ t = act submitted_before s turn) (boot first) turns s) :
    ∀ job_id record, first.load job_id = some record →
      (s.returned.isSome → Stuck submitted_before record → Shows s job_id .failed) ∧
        (record.terminal → Shows s job_id record.status) := by
  have sound : Sound submitted_before first s := by
    refine path.invariant (boot_sound indexed) ?_
    intro before turn after sound step
    obtain ⟨clear,rfl⟩ := step
    exact act_sound sound turn clear
  intro job_id record source
  obtain ⟨now,found,follows⟩ := sound.faithful.kept job_id record source
  refine ⟨fun returned stuck => ?_,fun terminal => ?_⟩
  · have settled := sound.returned returned job_id now found
    rcases follows.status with same | ⟨_,failed⟩
    · exact absurd ⟨(active_congr same).mpr stuck.1,(due_congr follows.submitted_at).trans stuck.2⟩ settled
    · exact failed ▸ sound.shows found (failed_inactive failed)
  · have closed := terminal_inactive terminal
    rcases follows.status with same | ⟨stuck,_⟩
    · exact same ▸ sound.shows found fun active => closed ((active_congr same).mp active)
    · exact absurd stuck.1 closed

-- A job that an earlier process left running.
def left_running : Storage := Storage.empty.save { job_id := "job", status := .running, submitted_at := 0 }

def answered : Turn := .resume (.done true 9)

theorem left_running_indexed : Indexed (some 5) left_running := by
  intro job_id record found _
  have listed : left_running.index.get? job_id = some .running := by
    by_cases same : job_id = "job"
    · subst same; rfl
    · have absent : left_running.load job_id = none := Storage.load_save_ne _ _ same
      rw [absent] at found
      cases found
  exact ⟨_,listed,by decide⟩

theorem recovery_complete_left_running :
    Shows ([.start (.done true 6),answered,answered,answered,answered,answered].foldl (act (some 5)) (boot left_running))
      "job" .failed :=
  (recovery_complete left_running_indexed (Runs.of_admits (by decide +kernel)) "job" _ rfl).1 (by decide +kernel)
    ⟨by decide,by decide +kernel⟩

-- The first pass cannot load the job and raises, a read then puts it in the table, and the
-- pass after it passes the job by and returns.
def read_between : List Turn :=
  [.start (.done true 6),answered,.resume .raised,answered,.read (.start "job"),.read (.fetch 0 true),.read (.settle 0),
    .start (.done true 7),answered,answered]

theorem recovery_incomplete : ¬ ∀ first turns s, Indexed (some 5) first →
    Runs (fun s turn t => t = act (some 5) s turn) (boot first) turns s → s.returned.isSome →
    ∀ job_id record, first.load job_id = some record → Stuck (some 5) record → Shows s job_id .failed := by
  intro always
  have shows_failed := always left_running _ _ left_running_indexed
    (Runs.of_foldl (act (some 5)) (boot left_running) read_between) (by decide +kernel) "job" _ rfl
    ⟨by decide,by decide +kernel⟩
  obtain ⟨record,found,failed⟩ := shows_failed.stored
  have shown : ((read_between.foldl (act (some 5)) (boot left_running)).archive.storage.load "job").map JobRecord.status =
      some .running := by decide +kernel
  rw [found,Option.map_some,failed] at shown
  cases shown

end Lumilake.Jobs.Recovery

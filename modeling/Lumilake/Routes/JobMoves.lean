import Lumilake.Library.Objects
import Lumilake.Routes.TerminalStatus

namespace Lumilake.Jobs

-- What no section of a coroutine takes back from a record, and what only the
-- sections without a guard change of a terminal one.
structure Moved (loose : Prop) (before after : JobRecord) : Prop where
  job_id : after.job_id = before.job_id
  parent_job_id : after.parent_job_id = before.parent_job_id
  child_job_ids : before.child_job_ids ⊆ after.child_job_ids
  childless : before.terminal → after.child_job_ids = before.child_job_ids
  terminal : before.terminal → after.terminal
  status : before.terminal → ¬loose → after.status = before.status

theorem Moved.refl (loose : Prop) (record : JobRecord) : Moved loose record record :=
  ⟨rfl,rfl,fun _ h => h,fun _ => rfl,fun h => h,fun _ _ => rfl⟩

theorem Moved.trans (first : Moved loose a b) (second : Moved loose b c) : Moved loose a c where
  job_id := second.job_id.trans first.job_id
  parent_job_id := second.parent_job_id.trans first.parent_job_id
  child_job_ids := fun _ member => second.child_job_ids (first.child_job_ids member)
  childless := fun closed => (second.childless (first.terminal closed)).trans (first.childless closed)
  terminal := fun closed => second.terminal (first.terminal closed)
  status := fun closed firm => (second.status (first.terminal closed) firm).trans (first.status closed firm)

-- An update of a record that keeps its place in the chain.
structure Placed (update : JobRecord → JobRecord) : Prop where
  job_id : ∀ r, (update r).job_id = r.job_id
  parent_job_id : ∀ r, (update r).parent_job_id = r.parent_job_id
  child_job_ids : ∀ r, r.child_job_ids ⊆ (update r).child_job_ids

theorem Placed.guard (placed : Placed update) : Placed (fun r => if r.terminal then r else update r) := by
  refine ⟨fun r => ?_,fun r => ?_,fun r => ?_⟩
  · split
    · rfl
    · exact placed.job_id r
  · split
    · rfl
    · exact placed.parent_job_id r
  · split
    · exact fun _ h => h
    · exact placed.child_job_ids r

theorem placed_run (now : Time) : Placed (JobRecord.run now) := ⟨fun _ => rfl,fun _ => rfl,fun _ _ h => h⟩

theorem placed_close (status : JobStatus) (error : JobRecord → Option String) (now : Time) :
    Placed (fun r => r.close status (error r) now) := ⟨fun _ => rfl,fun _ => rfl,fun _ _ h => h⟩

theorem placed_finish (response : LumilakeResponse) (summary : Option String) (now : Time) :
    Placed (JobRecord.finish response summary now) := by
  refine ⟨fun r => ?_,fun r => ?_,fun r => ?_⟩
  all_goals
    unfold JobRecord.finish
    dsimp only
    split
    · first | rfl | exact fun _ h => h
    · split <;> first | rfl | exact fun _ h => h

-- The primitive moves that a section of the coroutine at `own` is made of. `entry` is the
-- record it puts in the table, and only a section of `cancel_job` goes on in `cancel_job`.
inductive Moves (own : Nat) (loose : Ref → Prop) (s : State) : Option (String × JobRecord) → State → Prop where
  | start : Moves own loose s none s
  | register : Moves own loose s none t → Moves own loose s (some (job_id,record)) (t.register job_id record)
  | guarded : Placed update → Moves own loose s entry t → Moves own loose s entry (t.guarded record update)
  | write : Placed update → t.terminal record = false → Moves own loose s entry t →
      Moves own loose s entry (t.write record update)
  | overwrite : Placed update → (∀ r, (update r).terminal ∧ (update r).child_job_ids = r.child_job_ids) → loose record →
      Moves own loose s entry t →
      Moves own loose s entry (t.write record update)
  | goto : (∀ point, task = .cancel_job point → ∃ before, s.tasks[own]? = some (.cancel_job before)) →
      Moves own loose s entry t → Moves own loose s entry (t.goto own task)
  | ended : Moves own loose s entry t → Moves own loose s entry (t.goto i .done)
  | spawn : (∀ point, task ≠ .cancel_job point) → Moves own loose s entry t → Moves own loose s entry (t.spawn task)

theorem tracks_write {t : State} (loose : Ref → Prop) (record : Ref) (update : JobRecord → JobRecord)
    (own : ∀ r, t.records[record]? = some r → Moved (loose record) r (update r)) :
    Objects.Tracks (fun r => Moved (loose r)) t.records (t.write record update).records :=
  Objects.tracks_modify (fun _ _ => .refl _ _) t.records record update own

theorem moved_of_open (placed : Placed update) (still : ¬r.terminal) : Moved loose r (update r) :=
  ⟨placed.job_id r,placed.parent_job_id r,placed.child_job_ids r,fun closed => absurd closed still,
    fun closed => absurd closed still,fun closed => absurd closed still⟩

-- Every record there was is still there, and has only moved on.
theorem Moves.tracks (moves : Moves own loose s entry t) :
    Objects.Tracks (fun r => Moved (loose r)) s.records t.records := by
  have chain : ∀ (r : Nat) (a b c : JobRecord), Moved (loose r) a b → Moved (loose r) b c → Moved (loose r) a c :=
    fun _ _ _ _ => Moved.trans
  induction moves with
  | start => exact .refl (fun _ _ => .refl _ _) _
  | register _ ih => exact ih.append _
  | @guarded update entry t record placed _ ih =>
      refine ih.trans chain (tracks_write loose record _ ?_)
      intro r _
      by_cases closed : r.terminal
      · rw [if_pos closed]; exact .refl _ _
      · rw [if_neg closed]; exact moved_of_open placed closed
  | @write update t entry record placed still _ ih =>
      refine ih.trans chain (tracks_write loose record _ ?_)
      intro r found
      exact moved_of_open placed (terminal_eq_false still found)
  | @overwrite update record entry t placed closes free _ ih =>
      refine ih.trans chain (tracks_write loose record _ ?_)
      intro r _
      exact ⟨placed.job_id r,placed.parent_job_id r,placed.child_job_ids r,fun _ => (closes r).2,fun _ => (closes r).1,
        fun _ firm => absurd free firm⟩
  | goto _ _ ih => exact ih
  | ended _ ih => exact ih
  | spawn _ _ ih => exact ih

theorem Moves.length (moves : Moves own loose s entry t) :
    t.records.length = s.records.length + entry.toList.length := by
  induction moves with
  | start => rfl
  | register _ ih => simpa [State.register] using ih
  | guarded _ _ ih => simpa [State.guarded,State.write] using ih
  | write _ _ _ ih => simpa [State.write] using ih
  | overwrite _ _ _ _ ih => simpa [State.write] using ih
  | goto _ _ ih => exact ih
  | ended _ ih => exact ih
  | spawn _ _ ih => exact ih

-- The record at `place` is the one that was put there, whatever has been written to it.
def Entered (records : List JobRecord) (place : Ref) (record : JobRecord) : Prop :=
  ∃ r, records[place]? = some r ∧ r.job_id = record.job_id ∧ r.parent_job_id = record.parent_job_id

theorem entered_write {t : State} (placed : Placed update) (target : Ref) (entered : Entered t.records place record) :
    Entered (t.write target update).records place record := by
  obtain ⟨r,found,same,parent⟩ := entered
  by_cases hit : target = place
  · subst hit
    exact ⟨update r,by simp [State.write,found],(placed.job_id r).trans same,(placed.parent_job_id r).trans parent⟩
  · exact ⟨r,by simp [State.write,found,hit],same,parent⟩

-- The table changes by the record that is put in, under the place the record takes.
theorem Moves.jobs_none (moves : Moves own loose s entry t) (nothing : entry = none) : t.jobs = s.jobs := by
  induction moves with
  | start => rfl
  | register _ _ => cases nothing
  | guarded _ _ ih => exact ih nothing
  | write _ _ _ ih => exact ih nothing
  | overwrite _ _ _ _ ih => exact ih nothing
  | goto _ _ ih => exact ih nothing
  | ended _ ih => exact ih nothing
  | spawn _ _ ih => exact ih nothing

theorem Moves.entered (moves : Moves own loose s entry t) (put : entry = some (job_id,record)) :
    t.jobs = s.jobs.set job_id s.records.length ∧ Entered t.records s.records.length record := by
  induction moves with
  | start => cases put
  | @register t job_id' record' before ih =>
      cases put
      have same := before.length
      have table := before.jobs_none rfl
      simp only [Option.toList_none,List.length_nil,Nat.add_zero] at same
      exact ⟨by rw [← table,← same]; rfl,record,by rw [← same]; simp [State.register],rfl,rfl⟩
  | guarded placed _ ih => exact (ih put).imp_right (entered_write placed.guard _)
  | write placed _ _ ih => exact (ih put).imp_right (entered_write placed _)
  | overwrite placed _ _ _ ih => exact (ih put).imp_right (entered_write placed _)
  | goto _ _ ih => exact ih put
  | ended _ ih => exact ih put
  | spawn _ _ ih => exact ih put

theorem Moves.tasks_length (moves : Moves own loose s entry t) : s.tasks.length ≤ t.tasks.length := by
  induction moves with
  | start => exact Nat.le_refl _
  | register _ ih => exact ih
  | guarded _ _ ih => exact ih
  | write _ _ _ ih => exact ih
  | overwrite _ _ _ _ ih => exact ih
  | goto _ _ ih => simpa [State.goto] using ih
  | ended _ ih => simpa [State.goto] using ih
  | spawn _ _ ih =>
      simp only [State.spawn,List.length_append]
      exact Nat.le_add_right_of_le ih

-- A coroutine that is in `cancel_job` was there before, unless it is the one that took the step.
theorem Moves.cancels (moves : Moves own loose s entry t) (here : t.tasks[k]? = some (.cancel_job point)) :
    ∃ before, s.tasks[k]? = some (.cancel_job before) ∧ (k ≠ own → before = point) := by
  induction moves generalizing point with
  | start => exact ⟨point,here,fun _ => rfl⟩
  | register _ ih => exact ih here
  | guarded _ _ ih => exact ih here
  | write _ _ _ ih => exact ih here
  | overwrite _ _ _ _ ih => exact ih here
  | @goto task entry t harmless _ ih =>
      by_cases same : own = k
      · subst same
        have inside : own < t.tasks.length := by
          have := (List.getElem?_eq_some_iff.mp here).1
          simpa [State.goto] using this
        have put : task = .cancel_job point := by simpa [State.goto,List.getElem?_set_self inside] using here
        obtain ⟨before,found⟩ := harmless point put
        exact ⟨before,found,fun other => absurd rfl other⟩
      · exact ih (by simpa [State.goto,List.getElem?_set_ne same] using here)
  | @ended entry t i _ ih =>
      by_cases same : i = k
      · subst same
        have inside : i < t.tasks.length := by
          have := (List.getElem?_eq_some_iff.mp here).1
          simpa [State.goto] using this
        simp [State.goto,List.getElem?_set_self inside] at here
      · exact ih (by simpa [State.goto,List.getElem?_set_ne same] using here)
  | @spawn task entry t different _ ih =>
      rcases Nat.lt_or_ge k t.tasks.length with inside | beyond
      · exact ih (by simpa [State.spawn,List.getElem?_append_left inside] using here)
      · exfalso
        simp only [State.spawn,List.getElem?_append_right beyond] at here
        obtain ⟨place,eq⟩ := List.getElem?_eq_some_iff.mp here
        simp only [List.length_singleton] at place
        have zero : k - t.tasks.length = 0 := by omega
        simp only [zero,List.getElem_cons_zero] at eq
        exact different point eq

section
variable {s : State} {i : Nat} {loose : Ref → Prop}

-- Coroutines that are not `cancel_job` go on where they please.
theorem Moves.goto_other (moves : Moves i loose s entry t) (different : ∀ point, task ≠ .cancel_job point) :
    Moves i loose s entry (t.goto i task) :=
  .goto (fun point same => absurd same (different point)) moves

theorem run_job_moves (now : Time) (record : Ref) (point : RunPoint) (event : Event) :
    Moves i loose s none (run_job s i now record point event) := by
  unfold run_job
  split
  · split
    · exact .ended .start
    · rename_i still
      exact .goto_other (.write (placed_run now) (by simpa using still) .start) (fun _ => Task.noConfusion)
  · exact .goto_other (.guarded (placed_finish _ _ now) .start) (fun _ => Task.noConfusion)
  · exact .ended (.guarded (placed_close .cancelled _ now) .start)
  · exact .ended (.guarded (placed_close .failed _ now) .start)
  · exact .ended (.guarded (placed_close .failed _ now) .start)
  · exact .ended .start
  · exact .start

theorem fail_dynamic_moves (now : Time) (record : Ref) (message : String) :
    Moves i loose s none (fail_dynamic s i now record message) :=
  .ended (.guarded (placed_close .failed (fun _ => some message) now) .start)

theorem fail_parent_moves (now : Time) (parent_job_id message : String) :
    Moves i loose s none (fail_parent s i now parent_job_id message) := by
  unfold fail_parent
  split
  · exact .ended .start
  · exact .ended (.guarded (placed_close .failed (fun _ => some message) now) .start)

theorem judge_child_moves (now : Time) (record : Ref) (spec : DynamicSpec) (round_index : Nat) (child_job_id : String)
    (child_status : JobStatus) (event : Event) :
    Moves i loose s none (judge_child s i now record spec round_index child_job_id child_status event) := by
  unfold judge_child
  split
  · split
    · exact fail_dynamic_moves now record _
    · split
      · exact fail_dynamic_moves now record _
      · exact .goto_other .start (fun _ => Task.noConfusion)
      · split
        · exact .ended .start
        · exact .goto_other .start (fun _ => Task.noConfusion)
      · exact .start
  · exact .ended (.guarded (placed_close .cancelled _ now) .start)
  · exact fail_dynamic_moves now record _

-- The child that `register_child` puts in the table: its parent is there and not terminal yet.
def registered_child (s : State) (now : Time) (parent_job_id child_job_id : String) : Option (String × JobRecord) :=
  (s.jobs.get? parent_job_id).bind fun parent =>
    if s.terminal parent then none
    else some (child_job_id,
      { job_id := child_job_id, status := .pending, submitted_at := now, parent_job_id := some parent_job_id })

theorem placed_child (child_job_id : String) : Placed (fun r =>
    if child_job_id ∈ r.child_job_ids then r else { r with child_job_ids := r.child_job_ids ++ [child_job_id] }) := by
  refine ⟨fun r => ?_,fun r => ?_,fun r => ?_⟩
  · split <;> rfl
  · split <;> rfl
  · split
    · exact fun _ h => h
    · exact List.subset_append_left _ _

theorem terminal_register {record : Ref} (still : s.terminal record = false) (job_id : String) (more : JobRecord) :
    (s.register job_id more).terminal record = false := by
  unfold State.terminal at still ⊢
  cases found : s.records[record]? with
  | none => rw [found] at still; cases still
  | some r =>
      have inside : record < s.records.length := (List.getElem?_eq_some_iff.mp found).1
      rw [found] at still
      simpa [State.register,List.getElem?_append_left inside,found] using still

theorem register_child_moves (now : Time) (record : Ref) (spec : DynamicSpec) (round_index : Nat)
    (parent_job_id child_job_id : String) : Moves i loose s (registered_child s now parent_job_id child_job_id)
      (register_child s i now record spec round_index parent_job_id child_job_id) := by
  unfold register_child registered_child
  cases found : s.jobs.get? parent_job_id with
  | none => exact .ended .start
  | some parent =>
      by_cases closed : s.terminal parent = true
      · simpa [closed] using Moves.ended .start
      · have still : s.terminal parent = false := by simpa using closed
        simp only [still,Option.bind_some,Bool.false_eq_true,if_false]
        exact .goto_other (.write (placed_child child_job_id) (terminal_register still _ _) (.register .start))
          (fun _ => Task.noConfusion)

-- The record that a section of the round loop puts in the table.
def round_entry (s : State) (now : Time) (spec : DynamicSpec) (round_index : Nat) (parent_job_id : String) :
    Event → Option (String × JobRecord)
  | .child_built child_job_id =>
    if spec.max_rounds ≤ round_index then none
    else if spec.api = true ∧ round_index = 0 then none
    else registered_child s now parent_job_id child_job_id
  | _ => none

theorem start_round_moves (now : Time) (record : Ref) (spec : DynamicSpec) (round_index : Nat) (parent_job_id : String)
    (event : Event) : Moves i loose s (round_entry s now spec round_index parent_job_id event)
      (start_round s i now record spec round_index parent_job_id event) := by
  unfold start_round
  split
  · rename_i over_
    have nothing : round_entry s now spec round_index parent_job_id event = none := by
      unfold round_entry
      split
      · rw [if_pos over_]
      · rfl
    rw [nothing]
    exact .goto_other .start (fun _ => Task.noConfusion)
  · rename_i inside
    split
    · rename_i first
      have nothing : round_entry s now spec round_index parent_job_id event = none := by
        unfold round_entry
        split
        · rw [if_neg inside,if_pos first]
        · rfl
      rw [nothing]
      split
      · exact fail_dynamic_moves now record _
      · exact .goto_other .start (fun _ => Task.noConfusion)
      · exact .goto_other .start (fun _ => Task.noConfusion)
      · exact .start
    · rename_i later
      cases event with
      | build_failed message => exact fail_dynamic_moves now record _
      | compile_failed message => exact fail_parent_moves now parent_job_id _
      | gpu_zero_conflict => exact fail_parent_moves now parent_job_id _
      | child_built child_job_id =>
          have entry : round_entry s now spec round_index parent_job_id (.child_built child_job_id) =
              registered_child s now parent_job_id child_job_id := by
            unfold round_entry
            dsimp only
            rw [if_neg inside,if_neg later]
          rw [entry]
          exact register_child_moves now record spec round_index parent_job_id child_job_id
      | _ => exact .start

def dynamic_entry (s : State) (now : Time) (record : Ref) (spec : DynamicSpec) (round_index : Nat) :
    DynamicPoint → Event → Option (String × JobRecord)
  | .round,event => round_entry s now spec round_index (job_id_of s record) event
  | _,_ => none

theorem terminal_close (status : JobStatus) (error : Option String) (now : Time) (r : JobRecord)
    (final : status ∈ TERMINAL_JOB_STATUSES) : (r.close status error now).terminal := final

-- The events that leave a section of the round loop through its outer handler, or past it.
def Event.escapes : Event → Bool
  | .quit => true
  | .raised _ => true
  | _ => false

theorem round_step (inside : event.escapes = false) :
    run_dynamic_job s i now record spec round_index .round event =
      start_round s i now record spec round_index (job_id_of s record) event := by
  cases event <;> first | rfl | cases inside

theorem judging_step (inside : event.escapes = false) :
    run_dynamic_job s i now record spec round_index (.judging child_job_id child_status) event =
      judge_child s i now record spec round_index child_job_id child_status event := by
  cases event <;> first | rfl | cases inside

theorem run_dynamic_moves {now : Time} {record : Ref} {spec : DynamicSpec} {round_index : Nat} {point : DynamicPoint}
    {event : Event} (free : ∀ child, point = .timed_out child → (event = .resumed ∨ ∃ m, event = .raised m) → loose child) :
    Moves i loose s (dynamic_entry s now record spec round_index point event)
      (run_dynamic_job s i now record spec round_index point event) := by
  cases point with
  | start =>
      cases event with
      | resumed =>
          unfold run_dynamic_job
          dsimp only [dynamic_entry]
          split
          · exact .ended .start
          · rename_i still
            exact .goto_other (.write (placed_run now) (by simpa using still) .start) (fun _ => Task.noConfusion)
      | quit => exact .ended .start
      | raised message => exact fail_dynamic_moves now record _
      | _ => exact .start
  | round =>
      cases event with
      | quit => exact .ended .start
      | raised message => exact fail_dynamic_moves now record _
      | _ =>
          rw [round_step (by simp [Event.escapes]),dynamic_entry]
          exact start_round_moves now record spec round_index (job_id_of s record) _
  | child_saving child =>
      cases event with
      | resumed => exact .spawn (fun _ => Task.noConfusion) (.goto_other .start (fun _ => Task.noConfusion))
      | quit => exact .ended .start
      | raised message => exact fail_dynamic_moves now record _
      | _ => exact .start
  | awaiting child task =>
      cases event with
      | resumed =>
          unfold run_dynamic_job
          dsimp only [dynamic_entry]
          split
          · exact .goto_other .start (fun _ => Task.noConfusion)
          · exact .start
      | quit => exact .ended (.ended .start)
      | raised message =>
          unfold run_dynamic_job
          dsimp only [dynamic_entry]
          split
          · exact fail_dynamic_moves now record _
          · exact .start
      | timeout => exact .goto_other (.ended .start) (fun _ => Task.noConfusion)
      | _ => exact .start
  | timed_out child =>
      cases event with
      | resumed =>
          have loosened := free child rfl (.inl rfl)
          exact .goto_other (.overwrite (placed_close .cancelled _ now)
            (fun r => ⟨terminal_close .cancelled _ now r (by decide),rfl⟩) loosened .start) (fun _ => Task.noConfusion)
      | quit => exact .ended .start
      | raised message =>
          have loosened := free child rfl (.inr ⟨message,rfl⟩)
          exact .goto_other (.overwrite (placed_close .failed (fun _ => _) now)
            (fun r => ⟨terminal_close .failed _ now r (by decide),rfl⟩) loosened .start) (fun _ => Task.noConfusion)
      | _ => exact .start
  | timeout_raised child suffix =>
      cases event with
      | resumed => exact fail_dynamic_moves now record _
      | quit => exact .ended .start
      | raised message => exact fail_dynamic_moves now record _
      | _ => exact .start
  | returned child_job_id =>
      cases event with
      | resumed =>
          unfold run_dynamic_job
          dsimp only [dynamic_entry]
          split
          · exact fail_dynamic_moves now record _
          · exact .goto_other .start (fun _ => Task.noConfusion)
      | quit => exact .ended .start
      | raised message => exact fail_dynamic_moves now record _
      | _ => exact .start
  | judging child_job_id child_status =>
      cases event with
      | quit => exact .ended .start
      | raised message => exact fail_dynamic_moves now record _
      | _ =>
          rw [judging_step (by simp [Event.escapes])]
          exact judge_child_moves now record spec round_index child_job_id child_status _
  | stopped =>
      cases event with
      | response response summary =>
          exact .ended (.guarded ⟨fun _ => rfl,fun _ => rfl,fun _ _ h => h⟩ .start)
      | quit => exact .ended .start
      | raised message => exact fail_dynamic_moves now record _
      | _ => exact .start

def cancel_entry : CancelPoint → Event → Option (String × JobRecord)
  | .missing job_id,.loaded record => some (job_id,record)
  | _,_ => none

theorem cancel_job_moves {now : Time} {point : CancelPoint} {event : Event}
    (here : s.tasks[i]? = some (.cancel_job point)) 
    (free : ∀ child rest, point = .backend child rest → (∃ m, event = .raised m) → loose child) :
    Moves i loose s (cancel_entry point event) (cancel_job s i now point event) := by
  have onwards : ∀ {entry t after}, Moves i loose s entry t → Moves i loose s entry (t.goto i (.cancel_job after)) :=
    fun moves => .goto (fun _ _ => ⟨point,here⟩) moves
  cases point with
  | missing job_id =>
      cases event with
      | loaded record => exact onwards (.register .start)
      | quit => exact .ended .start
      | _ => exact .start
  | authorized record =>
      cases event with
      | resumed =>
          unfold cancel_job
          dsimp only [cancel_entry]
          split
          · exact .ended .start
          · rename_i still
            exact onwards (.write (placed_close .cancelled _ now) (by simpa using still) .start)
      | quit => exact .ended .start
      | _ => exact .start
  | cancelled record =>
      cases event with
      | resumed => exact onwards .start
      | quit => exact .ended .start
      | _ => exact .start
  | children child_job_ids =>
      cases child_job_ids with
      | nil =>
          cases event with
          | resumed => exact .ended .start
          | quit => exact .ended .start
          | _ => exact .start
      | cons child_id rest =>
          cases event with
          | resumed =>
              unfold cancel_job
              dsimp only [cancel_entry]
              split
              · exact onwards .start
              · split
                · exact onwards .start
                · rename_i still
                  exact onwards (.write (placed_close .cancelled _ now) (by simpa using still) .start)
          | quit => exact .ended .start
          | _ => exact .start
  | backend child rest =>
      cases event with
      | resumed => exact onwards .start
      | raised message =>
          exact onwards (.overwrite (placed_close .failed (fun _ => _) now)
            (fun r => ⟨terminal_close .failed _ now r (by decide),rfl⟩) (free child rest rfl ⟨message,rfl⟩) .start)
      | quit => exact .ended .start
      | _ => exact .start

theorem submit_job_moves (record : Ref) (dynamic : Option DynamicSpec) (event : Event) :
    Moves i loose s none (submit_job s i record dynamic event) := by
  unfold submit_job
  split
  · exact .spawn (fun _ => Task.noConfusion) (.ended .start)
  · exact .spawn (fun _ => Task.noConfusion) (.ended .start)
  · exact .ended .start
  · exact .start

theorem shutdown_moves (reason : String) (now : Time) : Moves i loose s none (mark_running_jobs_failed s reason now) := by
  unfold mark_running_jobs_failed
  have whole : ∀ (refs : List Ref) (t : State), Moves i loose s none t → Moves i loose s none
      (refs.foldl (fun s record => s.guarded record (fun r => r.close .failed (r.error_or reason) now)) t) := by
    intro refs
    induction refs with
    | nil => exact fun t moves => moves
    | cons record rest ih => exact fun t moves => ih _ (.guarded (placed_close .failed _ now) moves)
  exact whole s.jobs.values s .start

end

-- The child that the timeout path of `_submit_dynamic_child` is about to write.
def timed_out_child (s : State) : Op → Option Ref
  | .resume i _ event =>
    match s.tasks[i]?,event with
    | some (.run_dynamic_job _ _ _ (.timed_out child)),.resumed => some child
    | some (.run_dynamic_job _ _ _ (.timed_out child)),.raised _ => some child
    | _,_ => none
  | _ => none

-- The child that a failed backend cancel of `cancel_job` is about to write.
def uncancelled_child (s : State) : Op → Option Ref
  | .resume i _ event =>
    match s.tasks[i]?,event with
    | some (.cancel_job (.backend child _)),.raised _ => some child
    | _,_ => none
  | _ => none

def entry_of (s : State) : Op → Option (String × JobRecord)
  | .submit job_id _ now => some (job_id,{ job_id := job_id, status := .pending, submitted_at := now })
  | .cancel _ => none
  | .shutdown _ _ => none
  | .resume i now event =>
    match s.tasks[i]? with
    | some (.run_dynamic_job record spec round_index point) => dynamic_entry s now record spec round_index point event
    | some (.cancel_job point) => cancel_entry point event
    | _ => none

-- The coroutine that takes the step; a new one comes after those there are.
def stepped (s : State) : Op → Nat
  | .resume i _ _ => i
  | _ => s.tasks.length

-- What a step of the jobs' coroutines does, a new call of `cancel_job` apart.
theorem apply_moves (s : State) {op : Op} (other : ∀ job_id, op ≠ .cancel job_id) :
    Moves (stepped s op) (fun child => timed_out_child s op = some child ∨ uncancelled_child s op = some child) s
      (entry_of s op) (apply s op) := by
  cases op with
  | cancel job_id => exact absurd rfl (other job_id)
  | submit job_id dynamic now => exact .spawn (fun _ => Task.noConfusion) (.register .start)
  | shutdown reason now => exact shutdown_moves reason now
  | resume i now event =>
      cases here : s.tasks[i]? with
      | none => simp only [apply,entry_of,here]; exact .start
      | some task =>
          cases task with
          | submit_job record dynamic => simp only [apply,entry_of,here]; exact submit_job_moves record dynamic event
          | run_job record point => simp only [apply,entry_of,here]; exact run_job_moves now record point event
          | run_dynamic_job record spec round_index point =>
              simp only [apply,entry_of,here]
              refine run_dynamic_moves fun child at_timeout => ?_
              subst at_timeout
              rintro (rfl | ⟨message,rfl⟩)
              · exact .inl (by simp [timed_out_child,here])
              · exact .inl (by simp [timed_out_child,here])
          | cancel_job point =>
              simp only [apply,entry_of,here]
              refine cancel_job_moves here fun child rest at_backend => ?_
              subst at_backend
              rintro ⟨message,rfl⟩
              exact .inr (by simp [uncancelled_child,here])
          | done => simp only [apply,entry_of,here]; exact .start

-- Every record there was has only moved on, in any step.
theorem apply_tracks (s : State) (op : Op) : Objects.Tracks
    (fun r => Moved (timed_out_child s op = some r ∨ uncancelled_child s op = some r)) s.records (apply s op).records := by
  by_cases call : ∃ job_id, op = .cancel job_id
  · obtain ⟨job_id,rfl⟩ := call
    exact .refl (fun _ _ => .refl _ _) _
  · have moves := apply_moves s (fun job_id same => call ⟨job_id,same⟩)
    exact moves.tracks

theorem apply_jobs_none {s : State} {op : Op} (nothing : entry_of s op = none) :
    (apply s op).jobs = s.jobs ∧ (apply s op).records.length = s.records.length := by
  by_cases call : ∃ job_id, op = .cancel job_id
  · obtain ⟨job_id,rfl⟩ := call
    exact ⟨rfl,rfl⟩
  · have moves := apply_moves s (fun job_id same => call ⟨job_id,same⟩)
    exact ⟨moves.jobs_none nothing,by simpa [nothing] using moves.length⟩

theorem apply_entered {s : State} {op : Op} (put : entry_of s op = some (job_id,record)) :
    (apply s op).jobs = s.jobs.set job_id s.records.length ∧ (apply s op).records.length = s.records.length + 1 ∧
      Entered (apply s op).records s.records.length record := by
  have other : ∀ job_id, op ≠ .cancel job_id := by
    rintro job_id rfl
    cases put
  have moves := apply_moves s other
  have table := moves.entered put
  exact ⟨table.1,by simpa [put] using moves.length,table.2⟩

theorem apply_tasks_length (s : State) (op : Op) : s.tasks.length ≤ (apply s op).tasks.length := by
  by_cases call : ∃ job_id, op = .cancel job_id
  · obtain ⟨job_id,rfl⟩ := call
    simp [apply,State.spawn]
  · exact (apply_moves s fun job_id same => call ⟨job_id,same⟩).tasks_length

-- A coroutine found in `cancel_job` is where it was, or has just been called, or took this step.
theorem apply_cancels {s : State} {op : Op} (here : (apply s op).tasks[k]? = some (.cancel_job point)) :
    s.tasks[k]? = some (.cancel_job point) ∨ (∃ job_id, op = .cancel job_id ∧ k = s.tasks.length) ∨
      ∃ now event before, op = .resume k now event ∧ s.tasks[k]? = some (.cancel_job before) ∧
        apply s op = cancel_job s k now before event := by
  by_cases call : ∃ job_id, op = .cancel job_id
  · obtain ⟨job_id,rfl⟩ := call
    rcases Nat.lt_or_ge k s.tasks.length with inside | beyond
    · exact .inl (by simpa [apply,State.spawn,List.getElem?_append_left inside] using here)
    · have place := (List.getElem?_eq_some_iff.mp here).1
      simp only [apply,State.spawn,List.length_append,List.length_singleton] at place
      exact .inr (.inl ⟨job_id,rfl,by omega⟩)
  · obtain ⟨before,found,still⟩ := (apply_moves s fun job_id same => call ⟨job_id,same⟩).cancels here
    have inside := (List.getElem?_eq_some_iff.mp found).1
    by_cases mine : ∃ now event, op = .resume k now event
    · obtain ⟨now,event,rfl⟩ := mine
      exact .inr (.inr ⟨now,event,before,rfl,found,by simp only [apply,found]⟩)
    · refine .inl (found.trans (congrArg (fun p => some (Task.cancel_job p)) (still ?_)))
      rintro rfl
      cases op with
      | resume i now event => exact mine ⟨now,event,rfl⟩
      | cancel job_id => exact call ⟨job_id,rfl⟩
      | submit job_id dynamic now => exact absurd inside (Nat.lt_irrefl _)
      | shutdown reason now => exact absurd inside (Nat.lt_irrefl _)

-- Where a section of `cancel_job` goes on, and what it found there.
inductive CancelNext (s : State) : CancelPoint → Event → CancelPoint → Prop where
  | stay : CancelNext s point event point
  | loaded : CancelNext s (.missing job_id) (.loaded record) (.authorized s.records.length)
  | mark : s.terminal record = false → CancelNext s (.authorized record) .resumed (.cancelled record)
  | saved : CancelNext s (.cancelled record) .resumed
      (.children ((s.records[record]?.map JobRecord.child_job_ids).getD []))
  | absent : s.jobs.get? child_id = none → CancelNext s (.children (child_id :: rest)) .resumed (.children rest)
  | closed : s.jobs.get? child_id = some child → s.terminal child = true →
      CancelNext s (.children (child_id :: rest)) .resumed (.children rest)
  | child : s.jobs.get? child_id = some child → s.terminal child = false →
      CancelNext s (.children (child_id :: rest)) .resumed (.backend child rest)
  | backed : CancelNext s (.backend child rest) .resumed (.children rest)
  | failed : CancelNext s (.backend child rest) (.raised message) (.children rest)

theorem cancel_job_next (here : s.tasks[i]? = some (.cancel_job before))
    (there : (cancel_job s i now before event).tasks[i]? = some (.cancel_job after)) :
    CancelNext s before event after := by
  have inside : i < s.tasks.length := (List.getElem?_eq_some_iff.mp here).1
  have arrives : ∀ {t : State} {task}, t.tasks = s.tasks → (t.goto i task).tasks[i]? = some (.cancel_job after) →
      task = .cancel_job after := by
    intro t task same there
    simpa [State.goto,same,List.getElem?_set_self inside] using there
  have stays : s.tasks[i]? = some (.cancel_job after) → before = after := by
    intro there
    simpa using here.symm.trans there
  cases point_eq : before with
  | missing job_id =>
      subst point_eq
      cases event with
      | loaded record => cases arrives rfl there; exact .loaded
      | quit => cases arrives rfl there
      | _ => cases stays there; exact .stay
  | authorized record =>
      subst point_eq
      cases event with
      | resumed =>
          unfold cancel_job at there
          dsimp only at there
          split at there
          · cases arrives rfl there
          · rename_i still
            cases arrives rfl there
            exact .mark (by simpa using still)
      | quit => cases arrives rfl there
      | _ => cases stays there; exact .stay
  | cancelled record =>
      subst point_eq
      cases event with
      | resumed => cases arrives rfl there; exact .saved
      | quit => cases arrives rfl there
      | _ => cases stays there; exact .stay
  | children ids =>
      subst point_eq
      cases ids with
      | nil =>
          cases event with
          | resumed => cases arrives rfl there
          | quit => cases arrives rfl there
          | _ => cases stays there; exact .stay
      | cons child_id rest =>
          cases event with
          | resumed =>
              unfold cancel_job at there
              dsimp only at there
              split at there
              · rename_i absent
                cases arrives rfl there
                exact .absent absent
              · rename_i child found
                split at there
                · rename_i closed
                  cases arrives rfl there
                  exact .closed found closed
                · rename_i still
                  cases arrives rfl there
                  exact .child found (by simpa using still)
          | quit => cases arrives rfl there
          | _ => cases stays there; exact .stay
  | backend child rest =>
      subst point_eq
      cases event with
      | resumed => cases arrives rfl there; exact .backed
      | raised message => cases arrives rfl there; exact .failed
      | quit => cases arrives rfl there
      | _ => cases stays there; exact .stay

end Lumilake.Jobs

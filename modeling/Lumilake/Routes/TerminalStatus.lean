import Lumilake.Library.Absorbing
import Lumilake.Library.Runs
import Lumilake.Routes.Jobs

namespace Lumilake.Jobs

-- What must not change once a record is terminal: its status and its finish time.
def JobRecord.outcome (record : JobRecord) : JobStatus × Option Time := (record.status,record.finished_at)

def Final (outcome : JobStatus × Option Time) : Prop := outcome.1 ∈ TERMINAL_JOB_STATUSES

def Keeps (s t : State) : Prop := Absorbing.Kept Final JobRecord.outcome s.records t.records

-- The child that a section without a guard is about to write: the timeout path
-- of `_submit_dynamic_child`, and a failed backend cancel in `cancel_job`.
def overwrites (s : State) : Op → Option Ref
  | .resume i _ event =>
    match s.tasks[i]?,event with
    | some (.run_dynamic_job _ _ _ (.timed_out child)),.resumed => some child
    | some (.run_dynamic_job _ _ _ (.timed_out child)),.raised _ => some child
    | some (.cancel_job (.backend child _)),.raised _ => some child
    | _,_ => none
  | _ => none

def Undisturbed (s : State) (op : Op) : Prop := ∀ child ∈ overwrites s op, s.terminal child = false

instance (s : State) (op : Op) : Decidable (Undisturbed s op) :=
  inferInstanceAs (Decidable (∀ child ∈ overwrites s op, s.terminal child = false))

theorem terminal_eq_false {s : State} (still : s.terminal record = false) (found : s.records[record]? = some r) :
    ¬ r.terminal := by
  simpa [State.terminal,found] using still

theorem guarded_kept (s : State) (record : Ref) (update : JobRecord → JobRecord) :
    Keeps s (s.guarded record update) := by
  apply Absorbing.kept_modify
  intro r _ final
  have closed : r.terminal := final
  rw [if_pos closed]

theorem write_kept {s : State} (still : s.terminal record = false) (update : JobRecord → JobRecord) :
    Keeps s (s.write record update) := by
  apply Absorbing.kept_modify
  intro r found final
  exact absurd final (terminal_eq_false still found)

theorem register_kept (s : State) (job_id : String) (record : JobRecord) : Keeps s (s.register job_id record) :=
  (Absorbing.Kept.refl s.records).append [record]

theorem run_job_kept (s : State) (i : Nat) (now : Time) (record : Ref) (point : RunPoint) (event : Event) :
    Keeps s (run_job s i now record point event) := by
  unfold run_job
  split
  · split
    · exact .refl _
    · rename_i still
      exact write_kept (by simpa using still) _
  · exact guarded_kept s record _
  · exact guarded_kept s record _
  · exact guarded_kept s record _
  · exact guarded_kept s record _
  · exact .refl _
  · exact .refl _

theorem fail_dynamic_kept (s : State) (i : Nat) (now : Time) (record : Ref) (message : String) :
    Keeps s (fail_dynamic s i now record message) := guarded_kept s record _

theorem fail_parent_kept (s : State) (i : Nat) (now : Time) (parent_job_id message : String) :
    Keeps s (fail_parent s i now parent_job_id message) := by
  unfold fail_parent
  split
  · exact .refl _
  · exact guarded_kept s _ _

-- A child is added beside the records there are; its parent keeps status and finish time.
theorem register_child_kept (s : State) (i : Nat) (now : Time) (record : Ref) (spec : DynamicSpec) (round_index : Nat)
    (parent_job_id child_job_id : String) :
    Keeps s (register_child s i now record spec round_index parent_job_id child_job_id) := by
  unfold register_child
  split
  · exact .refl _
  · split
    · exact .refl _
    · refine (register_kept s child_job_id _).trans (Absorbing.kept_modify _ _ _ ?_)
      intro r _ _
      split <;> rfl

theorem start_round_kept (s : State) (i : Nat) (now : Time) (record : Ref) (spec : DynamicSpec) (round_index : Nat)
    (parent_job_id : String) (event : Event) : Keeps s (start_round s i now record spec round_index parent_job_id event) := by
  unfold start_round
  split
  · exact .refl _
  · split
    · split
      · exact fail_dynamic_kept s i now record _
      · exact .refl _
      · exact .refl _
      · exact .refl _
    · split
      · exact fail_dynamic_kept s i now record _
      · exact fail_parent_kept s i now _ _
      · exact fail_parent_kept s i now _ _
      · exact register_child_kept s i now record spec round_index _ _
      · exact .refl _

theorem judge_child_kept (s : State) (i : Nat) (now : Time) (record : Ref) (spec : DynamicSpec) (round_index : Nat)
    (child_job_id : String) (child_status : JobStatus) (event : Event) :
    Keeps s (judge_child s i now record spec round_index child_job_id child_status event) := by
  unfold judge_child
  split
  · split
    · exact fail_dynamic_kept s i now record _
    · split
      · exact fail_dynamic_kept s i now record _
      · exact .refl _
      · split <;> exact .refl _
      · exact .refl _
  · exact guarded_kept s record _
  · exact fail_dynamic_kept s i now record _

theorem run_dynamic_kept {s : State} {i : Nat} {now : Time} {record : Ref} {spec : DynamicSpec} {round_index : Nat}
    {point : DynamicPoint} {event : Event} (here : s.tasks[i]? = some (.run_dynamic_job record spec round_index point))
    (ready : Undisturbed s (.resume i now event)) :
    Keeps s (run_dynamic_job s i now record spec round_index point event) := by
  unfold run_dynamic_job
  dsimp only
  split
  · exact .refl _
  · exact .refl _
  · split <;> exact .refl _
  · split
    · exact fail_dynamic_kept s i now record _
    · exact .refl _
  · exact .refl _
  · rename_i child
    exact write_kept (ready child (by simp [overwrites,here])) _
  · rename_i child message
    exact write_kept (ready child (by simp [overwrites,here])) _
  · exact fail_dynamic_kept s i now record _
  · split
    · exact .refl _
    · rename_i still
      exact write_kept (by simpa using still) _
  · exact start_round_kept s i now record spec round_index _ _
  · exact .refl _
  · exact fail_dynamic_kept s i now record _
  · split
    · exact fail_dynamic_kept s i now record _
    · exact .refl _
  · exact judge_child_kept s i now record spec round_index _ _ _
  · exact guarded_kept s record _
  · exact .refl _

theorem cancel_job_kept {s : State} {i : Nat} {now : Time} {point : CancelPoint} {event : Event}
    (here : s.tasks[i]? = some (.cancel_job point)) (ready : Undisturbed s (.resume i now event)) :
    Keeps s (cancel_job s i now point event) := by
  unfold cancel_job
  split
  · rename_i job_id record
    exact register_kept s job_id record
  · split
    · exact .refl _
    · rename_i still
      exact write_kept (by simpa using still) _
  · exact .refl _
  · exact .refl _
  · split
    · exact .refl _
    · split
      · exact .refl _
      · rename_i still
        exact write_kept (by simpa using still) _
  · exact .refl _
  · rename_i child rest message
    exact write_kept (ready child (by simp [overwrites,here])) _
  · exact .refl _
  · exact .refl _

theorem submit_job_kept (s : State) (i : Nat) (record : Ref) (dynamic : Option DynamicSpec) (event : Event) :
    Keeps s (submit_job s i record dynamic event) := by
  unfold submit_job
  split <;> exact .refl _

theorem shutdown_kept (s : State) (reason : String) (now : Time) : Keeps s (mark_running_jobs_failed s reason now) :=
  Absorbing.kept_foldl State.records _ (fun s record => guarded_kept s record _) s.jobs.values s

theorem apply_kept {s : State} {op : Op} (ready : Undisturbed s op) : Keeps s (apply s op) := by
  cases op with
  | submit job_id dynamic now => exact register_kept s job_id _
  | cancel job_id => exact .refl _
  | shutdown reason now => exact shutdown_kept s reason now
  | resume i now event =>
      cases here : s.tasks[i]? with
      | none => simp only [apply,here]; exact .refl _
      | some task =>
          cases task with
          | submit_job record dynamic => simp only [apply,here]; exact submit_job_kept s i record dynamic event
          | run_job record point => simp only [apply,here]; exact run_job_kept s i now record point event
          | run_dynamic_job record spec round_index point =>
              simp only [apply,here]; exact run_dynamic_kept here ready
          | cancel_job point => simp only [apply,here]; exact cancel_job_kept here ready
          | done => simp only [apply,here]; exact .refl _

-- Every record that is terminal in `s` has the same status and finish time in `t`.
def Absorbed (s t : State) : Prop :=
  ∀ (record : Ref) (before : JobRecord), s.records[record]? = some before → before.terminal →
    ∃ after : JobRecord, t.records[record]? = some after ∧ after.status = before.status ∧
      after.finished_at = before.finished_at

-- Over any interleaving of the coroutines in which the unguarded sections only
-- find a child that is still pending or running, terminal records stay as they are.
theorem terminal_absorbing (path : Runs (fun s op t => Undisturbed s op ∧ t = apply s op) s ops t) :
    Absorbed s t := by
  have kept : Keeps s t := by
    refine path.invariant (.refl _) ?_
    intro middle op next ih step
    obtain ⟨ready,rfl⟩ := step
    exact ih.trans (apply_kept ready)
  intro record before found closed
  obtain ⟨after,last,same⟩ := kept record before found closed
  exact ⟨after,last,congrArg Prod.fst same,congrArg Prod.snd same⟩

-- A dynamic parent whose first child has completed and is still in the awaits
-- that follow its final write.
def toCompletion : List Op :=
  [.submit "parent" (some ⟨3,false,"600.0"⟩) 0,.resume 0 0 .resumed,.resume 1 1 .resumed,
    .resume 1 2 (.child_built "child"),.resume 1 2 .resumed,.resume 2 3 .resumed,.resume 2 4 (.response {} none)]

def childCompleted : State := toCompletion.foldl apply State.initial

-- The parent is cancelled then; the handler passes the completed child by.
theorem terminal_absorbing_cancelled_parent :
    Absorbed childCompleted (apply (apply (apply (apply childCompleted (.cancel "parent"))
      (.resume 3 9 .resumed)) (.resume 3 9 .resumed)) (.resume 3 9 .resumed)) :=
  terminal_absorbing (.snoc (.snoc (.snoc (.snoc .nil ⟨by decide,rfl⟩) ⟨by decide,rfl⟩) ⟨by decide,rfl⟩)
    ⟨by decide,rfl⟩)

-- The timeout of `wait_for` fires there, and its path writes over the completion.
theorem terminal_overwritten_by_timeout :
    ¬ ∀ ops s, Runs (fun s op t => t = apply s op) State.initial ops s → ∀ op, Absorbed s (apply s op) := by
  intro absorbing
  have path := Runs.of_foldl apply State.initial (toCompletion ++ [.resume 1 5 .timeout])
  obtain ⟨after,found,same,_⟩ := absorbing _ _ path (.resume 1 6 .resumed) 1 _
    (List.getElem?_eq_getElem (by decide)) (by decide)
  cases Option.some.inj found
  revert same
  decide

end Lumilake.Jobs

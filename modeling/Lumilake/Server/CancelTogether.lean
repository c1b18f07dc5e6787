import Lumilake.Server.ExecutionCancel

namespace Lumilake.Server

-- A check has found cancelled some of those it asked for.
def CheckSound (flags members : List String) : Check → Prop
  | .entered => True
  | .collecting found left => ∃ asked, asked ++ left = members ∧ found.Sublist asked ∧ ∀ m ∈ found, m ∈ flags

-- It has found everyone cancelled so far.
def CheckDecisive (members : List String) : Check → Prop
  | .entered => True
  | .collecting found left => found ++ left = members

def CancelCall.Decisive (members : List String) : CancelCall → Prop
  | .flagged => True
  | .asking check => CheckDecisive members check
  | .cancelling _ => False

theorem CheckSound.mono {flags flags' members : List String} {check : Check} (grows : flags ⊆ flags')
    (sound : CheckSound flags members check) : CheckSound flags' members check := by
  cases check with
  | entered => trivial
  | collecting found left =>
      obtain ⟨asked,split,sublist,flagged⟩ := sound
      exact ⟨asked,split,sublist,fun m member => grows (flagged m member)⟩

theorem check_step_more {x : SharedExecution} {flags members : List String} {check next : Check}
    (sound : CheckSound flags members check) (more : check_step x flags members check = .more next) :
    CheckSound flags members next := by
  cases check with
  | entered =>
      rw [check_entered] at more
      split at more
      · cases more
      · cases more
        exact ⟨[],rfl,List.Sublist.refl [],by simp⟩
  | collecting found left =>
      obtain ⟨asked,split,sublist,flagged⟩ := sound
      cases left with
      | nil => rw [check_counted] at more; split at more <;> cases more
      | cons m left =>
          cases more
          refine ⟨asked ++ [m],by simpa using split,?_,?_⟩
          · split
            · exact sublist.append (List.Sublist.refl [m])
            · exact sublist.trans (List.sublist_append_left asked [m])
          · intro other member
            split at member
            · rename_i cancelled
              rcases List.mem_append.mp member with earlier | new
              · exact flagged other earlier
              · exact List.mem_singleton.mp new ▸ cancelled
            · exact flagged other member

-- The execution is cancelled only after the check has found all the members it asked for.
theorem check_step_cancel {x : SharedExecution} {flags members : List String} {check : Check}
    (sound : CheckSound flags members check) (cancel : check_step x flags members check = .cancel) : members ⊆ flags := by
  cases check with
  | entered => rw [check_entered] at cancel; split at cancel <;> cases cancel
  | collecting found left =>
      cases left with
      | cons m left => cases cancel
      | nil =>
          obtain ⟨asked,split,sublist,flagged⟩ := sound
          rw [List.append_nil] at split
          subst split
          rw [check_counted] at cancel
          split at cancel
          · cases cancel
          · rename_i short
            rw [← sublist.eq_of_length_le (Nat.le_of_not_lt short)]
            exact flagged

theorem check_step_already {x : SharedExecution} {flags members : List String} {check : Check}
    (already : check_step x flags members check = .already) : x.execution_request_id ∈ flags := by
  cases check with
  | entered =>
      rw [check_entered] at already
      split at already
      · assumption
      · cases already
  | collecting found left =>
      cases left with
      | cons m left => cases already
      | nil => rw [check_counted] at already; split at already <;> cases already

-- Once all members are cancelled, a check that has found everyone so far goes on to cancel.
theorem check_step_decisive {x : SharedExecution} {flags members : List String} {check : Check} (all : members ⊆ flags)
    (decisive : CheckDecisive members check) :
    x.execution_request_id ∈ flags ∨ check_step x flags members check = .cancel ∨
      ∃ next, check_step x flags members check = .more next ∧ CheckDecisive members next := by
  cases check with
  | entered =>
      rw [check_entered]
      split
      · exact .inl ‹_›
      · exact .inr (.inr ⟨_,rfl,rfl⟩)
  | collecting found left =>
      change found ++ left = members at decisive
      cases left with
      | nil =>
          rw [List.append_nil] at decisive
          exact .inr (.inl (if_neg (by rw [decisive]; exact Nat.lt_irrefl _)))
      | cons m left =>
          have cancelled : m ∈ flags := all (by rw [← decisive]; simp)
          exact .inr (.inr ⟨_,rfl,by simpa [CheckDecisive,cancelled] using decisive⟩)

-- The run has not come to its own look at the members, or has found all of them cancelled.
def RunPoint.will_flag : RunPoint → Prop
  | .queued | .opening [] _ | .skipping | .ended => True
  | _ => False

-- The run will tell FlowMesh to cancel the workflow, if the execution is cancelled.
def RunPoint.will_cancel (id : String) : RunPoint → Prop
  | .accepted own | .recorded own | .aborting own => own = id
  | .stopping ids => id ∈ ids
  | _ => False

-- Those the run left out when it opened were cancelled.
def Rest (x : SharedExecution) (flags active : List String) : Prop := ∀ m ∈ x.request_ids, m ∈ active ∨ m ∈ flags

def RunSound (x : SharedExecution) (flags submitted : List String) : RunPoint → Prop
  | .opening active left =>
      (∃ asked, asked ++ left = x.request_ids ∧ ∀ m ∈ asked, m ∈ active ∨ m ∈ flags) ∧ submitted = []
  | .skipping => x.request_ids ⊆ flags ∧ submitted = []
  | .working active => Rest x flags active ∧ submitted = []
  | .checking active check => Rest x flags active ∧ CheckSound flags active check ∧ submitted = []
  | .queued | .building | .submitting => submitted = []
  | .accepted id | .recorded id | .polling id | .aborting id => submitted = [id]
  | .stopping _ | .settled | .ended => True

theorem RunSound.mono {x : SharedExecution} {flags flags' submitted : List String} {run : RunPoint} (grows : flags ⊆ flags')
    (sound : RunSound x flags submitted run) : RunSound x flags' submitted run := by
  cases run with
  | opening active left =>
      obtain ⟨⟨asked,split,known⟩,none_yet⟩ := sound
      exact ⟨⟨asked,split,fun m member => (known m member).imp_right fun flagged => grows flagged⟩,none_yet⟩
  | skipping => exact ⟨fun m member => grows (sound.1 member),sound.2⟩
  | working active => exact ⟨fun m member => (sound.1 m member).imp_right fun flagged => grows flagged,sound.2⟩
  | checking active check =>
      exact ⟨fun m member => (sound.1 m member).imp_right fun flagged => grows flagged,sound.2.1.mono grows,sound.2.2⟩
  | _ => exact sound

structure CancelSound (x : SharedExecution) (s : Cancelling) : Prop where
  flags : x.execution_request_id ∈ s.cancelled_requests → AllCancelled x s
  checks : ∀ call check, s.calls.get? call = some (.asking check) → CheckSound s.cancelled_requests x.request_ids check
  run : RunSound x s.cancelled_requests s.submitted s.run
  heard : AllCancelled x s → x.execution_request_id ∈ s.cancelled_requests ∨ s.run.will_flag ∨
    ∃ call asked, s.calls.get? call = some asked ∧ asked.Decisive x.request_ids
  held : ∀ id ∈ s.submitted, s.run = .accepted id ∨ id ∈ s.cancels ∨ s.batch_workflow_id = some id ∨
    x.execution_request_id ∈ s.cancelled_requests ∨ s.Over
  covered : x.execution_request_id ∈ s.cancelled_requests → ∀ id ∈ s.submitted, id ∈ s.cancels ∨ s.run.will_cancel id ∨
    ∃ call ids, s.calls.get? call = some (.cancelling ids) ∧ id ∈ ids

theorem get?_set_cases {d : Dict Nat CancelCall} {call other : Nat} {value found : CancelCall}
    (here : (d.set call value).get? other = some found) :
    (other = call ∧ found = value) ∨ (other ≠ call ∧ d.get? other = some found) := by
  by_cases same : other = call
  · subst same
    exact .inl ⟨rfl,Option.some.inj (here.symm.trans (Dict.get?_set_self d other value))⟩
  · exact .inr ⟨same,(Dict.get?_set_ne d value same).symm.trans here⟩

theorem get?_erase_some {d : Dict Nat CancelCall} {call other : Nat} {found : CancelCall}
    (here : (d.erase call).get? other = some found) : other ≠ call ∧ d.get? other = some found := by
  by_cases same : other = call
  · rw [same,Dict.get?_erase_self] at here
    cases here
  · exact ⟨same,(Dict.get?_erase_ne d same).symm.trans here⟩

-- A step of the run alone, the flags and the recorded id left as they are.
theorem CancelSound.moved {x : SharedExecution} {s : Cancelling} (sound : CancelSound x s) (run : RunPoint)
    (own : RunSound x s.cancelled_requests s.submitted run)
    (heard : AllCancelled x s → s.run.will_flag → x.execution_request_id ∈ s.cancelled_requests ∨ run.will_flag)
    (going : s.run ≠ .ended) (held : ∀ id, s.run = .accepted id → run = .accepted id)
    (covered : x.execution_request_id ∈ s.cancelled_requests → ∀ id, s.run.will_cancel id → run.will_cancel id) :
    CancelSound x { s with run := run } where
  flags := sound.flags
  checks := sound.checks
  run := own
  heard all := by
    rcases sound.heard all with flagged | will | decisive
    · exact .inl flagged
    · exact (heard all will).imp_right .inl
    · exact .inr (.inr decisive)
  held id member :=
    (sound.held id member).imp (held id) (.imp_right (.imp_right (.imp_right fun finished => absurd finished.1 going)))
  covered flagged id member := (sound.covered flagged id member).imp_right (.imp_left (covered flagged id))

-- The run tells FlowMesh to cancel a workflow.
theorem CancelSound.told {x : SharedExecution} {s : Cancelling} (sound : CancelSound x s) (run : RunPoint) (id : String)
    (own : RunSound x s.cancelled_requests s.submitted run) (before : ¬ s.run.will_flag)
    (going : s.run ≠ .ended) (held : ∀ other, s.run ≠ .accepted other)
    (covered : ∀ other, s.run.will_cancel other → other = id ∨ run.will_cancel other) :
    CancelSound x { s with run := run, cancels := id :: s.cancels } where
  flags := sound.flags
  checks := sound.checks
  run := own
  heard all := by
    rcases sound.heard all with flagged | will | decisive
    · exact .inl flagged
    · exact absurd will before
    · exact .inr (.inr decisive)
  held other member := by
    rcases sound.held other member with accepted | told | recorded | flagged | finished
    · exact absurd accepted (held other)
    · exact .inr (.inl (List.mem_cons_of_mem _ told))
    · exact .inr (.inr (.inl recorded))
    · exact .inr (.inr (.inr (.inl flagged)))
    · exact absurd finished.1 going
  covered flagged other member := by
    rcases sound.covered flagged other member with told | own | call
    · exact .inl (List.mem_cons_of_mem _ told)
    · rcases covered other own with rfl | later
      · exact .inl List.mem_cons_self
      · exact .inr (.inl later)
    · exact .inr (.inr call)

-- The run cancels the execution, once all members are cancelled and before it has submitted.
theorem CancelSound.flagged_by_run {x : SharedExecution} {s : Cancelling} (sound : CancelSound x s) (all : AllCancelled x s)
    (none_yet : s.submitted = []) :
    CancelSound x { s.flag_execution x with run := .stopping s.batch_workflow_id.toList } where
  flags _ m member := List.mem_cons_of_mem _ (all m member)
  checks call check here := (sound.checks call check here).mono (List.subset_cons_self _ _)
  run := trivial
  heard _ := .inl List.mem_cons_self
  held id member := by
    change id ∈ s.submitted at member
    rw [none_yet] at member
    cases member
  covered _ id member := by
    change id ∈ s.submitted at member
    rw [none_yet] at member
    cases member

theorem cancel_sound {x : SharedExecution} {s : Cancelling} (sound : CancelSound x s) {call : Nat} {request_id : String}
    (member : request_id ∈ x.request_ids) (fresh : call ∉ s.calls) :
    CancelSound x { s with cancelled_requests := request_id :: s.cancelled_requests, calls := s.calls.set call .flagged } := by
  have earlier : x.execution_request_id ∈ request_id :: s.cancelled_requests → x.execution_request_id ∈ s.cancelled_requests :=
    fun flagged => (List.mem_cons.mp flagged).resolve_left (fun same => x.apart (same ▸ member))
  refine ⟨fun flagged m own => List.mem_cons_of_mem _ (sound.flags (earlier flagged) m own),?_,
    sound.run.mono (List.subset_cons_self _ _),fun _ => .inr (.inr ⟨call,.flagged,Dict.get?_set_self _ _ _,trivial⟩),?_,?_⟩
  · intro other check here
    rcases get?_set_cases here with ⟨_,same⟩ | ⟨_,before⟩
    · cases same
    · exact (sound.checks other check before).mono (List.subset_cons_self _ _)
  · intro id submitted
    refine (sound.held id submitted).imp_right (.imp_right (.imp_right (.imp (List.mem_cons_of_mem _) ?_)))
    refine fun finished => ⟨finished.1,fun other check here => ?_⟩
    rcases get?_set_cases here with ⟨_,same⟩ | ⟨_,before⟩
    · cases same
    · exact finished.2 other check before
  · intro flagged id submitted
    refine (sound.covered (earlier flagged) id submitted).imp_right (.imp_right ?_)
    rintro ⟨other,ids,here,listed⟩
    refine ⟨other,ids,(Dict.get?_set_ne _ _ (fun same => ?_)).trans here,listed⟩
    exact fresh (same ▸ Dict.mem_keys_iff.mpr ⟨_,here⟩)

-- A call moves on, to a next phase or to its end, without an effect on the rest.
theorem CancelSound.called {x : SharedExecution} {s : Cancelling} (sound : CancelSound x s) {call : Nat} {phase : CancelCall}
    (here : s.calls.get? call = some phase) (calls : Dict Nat CancelCall)
    (others : ∀ other, other ≠ call → calls.get? other = s.calls.get? other)
    (checks : ∀ check, calls.get? call = some (.asking check) → CheckSound s.cancelled_requests x.request_ids check)
    (heard : AllCancelled x s → phase.Decisive x.request_ids → x.execution_request_id ∈ s.cancelled_requests ∨ s.run.will_flag ∨
      ∃ asked, calls.get? call = some asked ∧ asked.Decisive x.request_ids)
    (finished : s.Over → ∀ check, calls.get? call ≠ some (.asking check))
    (idle : ∀ ids, phase ≠ .cancelling ids) : CancelSound x { s with calls := calls } where
  flags := sound.flags
  checks other check found := by
    by_cases same : other = call
    · exact checks check (same ▸ found)
    · exact sound.checks other check ((others other same).symm.trans found)
  run := sound.run
  heard all := by
    rcases sound.heard all with flagged | will | ⟨other,asked,found,decisive⟩
    · exact .inl flagged
    · exact .inr (.inl will)
    · by_cases same : other = call
      · subst same
        cases Option.some.inj (here.symm.trans found)
        exact (heard all decisive).imp_right (.imp_right fun ⟨asked,found,decisive⟩ => ⟨_,asked,found,decisive⟩)
      · exact .inr (.inr ⟨other,asked,(others other same).trans found,decisive⟩)
  held id member := by
    refine (sound.held id member).imp_right (.imp_right (.imp_right (.imp_right fun ended => ⟨ended.1,fun other check found => ?_⟩)))
    by_cases same : other = call
    · exact finished ended check (same ▸ found)
    · exact ended.2 other check ((others other same).symm.trans found)
  covered flagged id member := by
    refine (sound.covered flagged id member).imp_right (.imp_right ?_)
    rintro ⟨other,ids,found,listed⟩
    by_cases same : other = call
    · subst same
      exact absurd (Option.some.inj (here.symm.trans found)) (idle ids)
    · exact ⟨other,ids,(others other same).trans found,listed⟩

theorem erased_unasked (calls : Dict Nat CancelCall) (call : Nat) (check : Check) :
    (calls.erase call).get? call ≠ some (.asking check) := by
  rw [Dict.get?_erase_self]
  exact Option.some_ne_none _ ∘ Eq.symm

theorem look_sound {x : SharedExecution} {s : Cancelling} (sound : CancelSound x s) {call : Nat}
    (here : s.calls.get? call = some .flagged) :
    CancelSound x { s with calls := if s.run.registered then s.calls.set call (.asking .entered) else s.calls.erase call } := by
  cases registered : s.run.registered with
  | true =>
      simp only [if_true]
      refine sound.called here _ (fun other different => Dict.get?_set_ne _ _ different) ?_ ?_ ?_ (by simp)
      · intro check found
        cases Option.some.inj ((Dict.get?_set_self _ _ _).symm.trans found)
        trivial
      · exact fun _ _ => .inr (.inr ⟨_,Dict.get?_set_self _ _ _,trivial⟩)
      · intro finished
        rw [finished.1] at registered
        cases registered
  | false =>
      simp only [Bool.false_eq_true,if_false]
      refine sound.called here _ (fun other different => Dict.get?_erase_ne _ different) ?_ ?_ (fun _ => erased_unasked _ _) (by simp)
      · intro check found
        exact absurd found (erased_unasked _ _ check)
      · intro _ _
        refine .inr (.inl ?_)
        cases run : s.run with
        | queued => trivial
        | ended => trivial
        | _ => rw [run] at registered; cases registered

theorem ask_sound {x : SharedExecution} {s : Cancelling} (sound : CancelSound x s) {call : Nat} {check : Check}
    (here : s.calls.get? call = some (.asking check)) : CancelSound x (s.ask_call x call check) := by
  have own := sound.checks call check here
  have asked {P : Prop} (finished : s.Over) : P := absurd here (finished.2 call check)
  unfold Cancelling.ask_call
  cases verdict : check_step x s.cancelled_requests x.request_ids check with
  | more next =>
      refine sound.called here _ (fun other different => Dict.get?_set_ne _ _ different) ?_ ?_ (fun finished => asked finished) (by simp)
      · intro check found
        cases Option.some.inj ((Dict.get?_set_self _ _ _).symm.trans found)
        exact check_step_more own verdict
      · intro all decisive
        rcases check_step_decisive all decisive with flagged | cancel | ⟨after,more,still⟩
        · exact .inl flagged
        · rw [verdict] at cancel
          cases cancel
        · rw [verdict] at more
          cases more
          exact .inr (.inr ⟨_,Dict.get?_set_self _ _ _,still⟩)
  | already =>
      refine sound.called here _ (fun other different => Dict.get?_erase_ne _ different) ?_
        (fun _ _ => .inl (check_step_already verdict)) (fun finished => asked finished) (by simp)
      exact fun check found => absurd found (erased_unasked _ _ check)
  | keep =>
      refine sound.called here _ (fun other different => Dict.get?_erase_ne _ different) ?_ ?_ (fun finished => asked finished) (by simp)
      · exact fun check found => absurd found (erased_unasked _ _ check)
      · intro all decisive
        rcases check_step_decisive all decisive with flagged | cancel | ⟨after,more,_⟩
        · exact .inl flagged
        · rw [verdict] at cancel
          cases cancel
        · rw [verdict] at more
          cases more
  | cancel =>
      have all : AllCancelled x s := check_step_cancel own verdict
      have others : ∀ other, other ≠ call → ∀ value, (s.calls.set call value).get? other = s.calls.get? other :=
        fun other different value => Dict.get?_set_ne _ _ different
      refine ⟨fun _ m member => List.mem_cons_of_mem _ (all m member),?_,sound.run.mono (List.subset_cons_self _ _),
        fun _ => .inl List.mem_cons_self,?_,?_⟩
      · intro other check found
        rcases get?_set_cases found with ⟨_,same⟩ | ⟨_,before⟩
        · cases same
        · exact (sound.checks other check before).mono (List.subset_cons_self _ _)
      · exact fun id member => (sound.held id member).imp_right (.imp_right (.imp_right fun _ => .inl List.mem_cons_self))
      · intro _ id member
        rcases sound.held id member with accepted | told | recorded | flagged | finished
        · exact .inr (.inl (by change s.run.will_cancel id; rw [accepted]; rfl))
        · exact .inl told
        · exact .inr (.inr ⟨call,_,Dict.get?_set_self _ _ _,by rw [recorded]; exact List.mem_singleton.mpr rfl⟩)
        · refine (sound.covered flagged id member).imp_right (.imp_right ?_)
          rintro ⟨other,ids,found,listed⟩
          refine ⟨other,ids,(others other (fun same => ?_) _).trans found,listed⟩
          rw [same,here] at found
          cases found
        · exact asked finished

theorem send_sound {x : SharedExecution} {s : Cancelling} (sound : CancelSound x s) {call : Nat} {id : String} {ids : List String}
    (here : s.calls.get? call = some (.cancelling (id :: ids))) :
    CancelSound x { s with cancels := id :: s.cancels, calls := s.calls.set call (.cancelling ids) } where
  flags := sound.flags
  checks other check found := by
    rcases get?_set_cases found with ⟨_,same⟩ | ⟨_,before⟩
    · cases same
    · exact sound.checks other check before
  run := sound.run
  heard all := by
    refine (sound.heard all).imp_right (.imp_right ?_)
    rintro ⟨other,asked,found,decisive⟩
    refine ⟨other,asked,(Dict.get?_set_ne _ _ (fun same => ?_)).trans found,decisive⟩
    subst same
    cases Option.some.inj (here.symm.trans found)
    exact decisive
  held other member := by
    refine (sound.held other member).imp_right
      (.imp (List.mem_cons_of_mem _) (.imp_right (.imp_right fun finished => ⟨finished.1,fun sender check found => ?_⟩)))
    rcases get?_set_cases found with ⟨_,same⟩ | ⟨_,before⟩
    · cases same
    · exact finished.2 sender check before
  covered flagged other member := by
    rcases sound.covered flagged other member with told | own | ⟨sender,listed,found,inside⟩
    · exact .inl (List.mem_cons_of_mem _ told)
    · exact .inr (.inl own)
    · by_cases same : sender = call
      · subst same
        cases Option.some.inj (here.symm.trans found)
        rcases List.mem_cons.mp inside with rfl | later
        · exact .inl List.mem_cons_self
        · exact .inr (.inr ⟨sender,ids,Dict.get?_set_self _ _ _,later⟩)
      · exact .inr (.inr ⟨sender,listed,(Dict.get?_set_ne _ _ same).trans found,inside⟩)

theorem done_sound {x : SharedExecution} {s : Cancelling} (sound : CancelSound x s) {call : Nat}
    (here : s.calls.get? call = some (.cancelling [])) : CancelSound x { s with calls := s.calls.erase call } where
  flags := sound.flags
  checks other check found := sound.checks other check (get?_erase_some found).2
  run := sound.run
  heard all := by
    refine (sound.heard all).imp_right (.imp_right ?_)
    rintro ⟨other,asked,found,decisive⟩
    refine ⟨other,asked,(Dict.get?_erase_ne _ (fun same => ?_)).trans found,decisive⟩
    subst same
    cases Option.some.inj (here.symm.trans found)
    exact decisive
  held id member := (sound.held id member).imp_right (.imp_right (.imp_right (.imp_right fun finished =>
    ⟨finished.1,fun other check found => finished.2 other check (get?_erase_some found).2⟩)))
  covered flagged id member := by
    refine (sound.covered flagged id member).imp_right (.imp_right ?_)
    rintro ⟨other,ids,found,listed⟩
    refine ⟨other,ids,(Dict.get?_erase_ne _ (fun same => ?_)).trans found,listed⟩
    subst same
    cases Option.some.inj (here.symm.trans found)
    exact absurd listed List.not_mem_nil

-- The run holds nothing that a later step of its own would still have to cancel.
def RunPoint.quiet : RunPoint → Bool
  | .working _ | .checking _ _ | .building | .submitting | .polling _ | .settled => true
  | _ => false

theorem quiet_calm {run : RunPoint} (quiet : run.quiet = true) : ¬ run.will_flag ∧ ∀ id, ¬ run.will_cancel id := by
  cases run with
  | working active => exact ⟨id,fun _ => id⟩
  | checking active check => exact ⟨id,fun _ => id⟩
  | building => exact ⟨id,fun _ => id⟩
  | submitting => exact ⟨id,fun _ => id⟩
  | polling own => exact ⟨id,fun _ => id⟩
  | settled => exact ⟨id,fun _ => id⟩
  | _ => cases quiet

theorem CancelSound.moved_quiet {x : SharedExecution} {s : Cancelling} (sound : CancelSound x s) (quiet : s.run.quiet = true)
    (run : RunPoint) (own : RunSound x s.cancelled_requests s.submitted run) : CancelSound x { s with run := run } := by
  obtain ⟨no_flag,no_cancel⟩ := quiet_calm quiet
  refine sound.moved run own (fun _ will => absurd will no_flag) (fun same => ?_) (fun id same => ?_)
    (fun _ id will => absurd will (no_cancel id))
  · rw [same] at quiet
    cases quiet
  · rw [same] at quiet
    cases quiet

theorem check_run_sound {x : SharedExecution} {s : Cancelling} (sound : CancelSound x s) {active : List String} {check : Check}
    (here : s.run = .checking active check) : CancelSound x (s.check_run x active check) := by
  have quiet : s.run.quiet = true := by rw [here]; rfl
  have own := sound.run
  rw [here] at own
  obtain ⟨rest,checked,none_yet⟩ := own
  unfold Cancelling.check_run
  cases verdict : check_step x s.cancelled_requests active check with
  | more next => exact sound.moved_quiet quiet (.checking active next) ⟨rest,check_step_more checked verdict,none_yet⟩
  | already => exact sound.moved_quiet quiet .settled trivial
  | keep => exact sound.moved_quiet quiet (.working active) ⟨rest,none_yet⟩
  | cancel =>
      have all : AllCancelled x s := fun m member =>
        (rest m member).elim (fun asked => check_step_cancel checked verdict asked) id
      exact sound.flagged_by_run all none_yet

theorem collect_sound {x : SharedExecution} {s : Cancelling} (sound : CancelSound x s) {active left : List String} {m : String}
    (here : s.run = .opening active (m :: left)) :
    CancelSound x { s with run := .opening (if m ∈ s.cancelled_requests then active else active ++ [m]) left } := by
  have own := sound.run
  rw [here] at own
  obtain ⟨⟨asked,split,known⟩,none_yet⟩ := own
  refine sound.moved _ ⟨⟨asked ++ [m],by simpa using split,?_⟩,none_yet⟩ ?_ (by rw [here]; exact nofun) ?_ ?_
  · intro other member
    rcases List.mem_append.mp member with earlier | new
    · refine (known other earlier).imp_left fun kept => ?_
      split
      · exact kept
      · exact List.mem_append_left _ kept
    · rw [List.mem_singleton.mp new]
      by_cases flagged : m ∈ s.cancelled_requests
      · exact .inr flagged
      · exact .inl (by simp [flagged])
  · intro all will
    rw [here] at will
    cases active with
    | cons first rest => exact will.elim
    | nil =>
        have flagged : m ∈ s.cancelled_requests := all m (by rw [← split]; simp)
        exact .inr (by rw [if_pos flagged]; trivial)
  · intro id same
    rw [here] at same
    cases same
  · intro _ id will
    rw [here] at will
    exact will.elim

theorem collected_sound {x : SharedExecution} {s : Cancelling} (sound : CancelSound x s) {active : List String}
    (here : s.run = .opening active []) :
    CancelSound x { s with run := if active = [] then .skipping else .working active } := by
  have own := sound.run
  rw [here] at own
  obtain ⟨⟨asked,split,known⟩,none_yet⟩ := own
  rw [List.append_nil] at split
  subst split
  refine sound.moved _ ?_ ?_ (by rw [here]; exact nofun) ?_ ?_
  · split
    · rename_i nobody
      exact ⟨fun m member => (known m member).resolve_left (by rw [nobody]; exact List.not_mem_nil),none_yet⟩
    · exact ⟨known,none_yet⟩
  · intro _ will
    rw [here] at will
    cases active with
    | cons first rest => exact will.elim
    | nil => exact .inr trivial
  · intro id same
    rw [here] at same
    cases same
  · intro _ id will
    rw [here] at will
    exact will.elim

-- The submitter looks at the flag after it has recorded the id: if it is set, the workflow
-- is its own to cancel.
theorem check_recorded_sound {x : SharedExecution} {s : Cancelling} (sound : CancelSound x s) {id : String}
    (here : s.run = .recorded id) : CancelSound x (s.unless_cancelled x (.aborting id) (.polling id)) := by
  have own := sound.run
  rw [here] at own
  unfold Cancelling.unless_cancelled
  refine sound.moved _ ?_ ?_ (by rw [here]; exact nofun) ?_ ?_
  · split
    · exact own
    · exact own
  · intro _ will
    rw [here] at will
    exact will.elim
  · intro other same
    rw [here] at same
    cases same
  · intro flagged other will
    rw [here] at will
    rw [if_pos flagged]
    exact will

theorem accept_sound {x : SharedExecution} {s : Cancelling} (sound : CancelSound x s) {id : String} (here : s.run = .submitting) :
    CancelSound x { s with run := .accepted id, submitted := id :: s.submitted } := by
  have none_yet : s.submitted = [] := by
    have own := sound.run
    rwa [here] at own
  have new : ∀ other ∈ id :: s.submitted, other = id := by
    intro other member
    rw [none_yet] at member
    exact List.mem_singleton.mp member
  refine ⟨sound.flags,sound.checks,by rw [none_yet]; exact rfl,?_,fun other member => .inl (by rw [new other member]),
    fun _ other member => .inr (.inl (new other member).symm)⟩
  intro all
  rcases sound.heard all with flagged | will | decisive
  · exact .inl flagged
  · rw [here] at will
    exact will.elim
  · exact .inr (.inr decisive)

theorem record_sound {x : SharedExecution} {s : Cancelling} (sound : CancelSound x s) {id : String} (here : s.run = .accepted id) :
    CancelSound x { s with run := .recorded id, batch_workflow_id := some id } := by
  have only : s.submitted = [id] := by
    have own := sound.run
    rwa [here] at own
  have new : ∀ other ∈ s.submitted, other = id := by
    intro other member
    rw [only] at member
    exact List.mem_singleton.mp member
  refine ⟨sound.flags,sound.checks,only,?_,fun other member => .inr (.inr (.inl (by rw [new other member]))),
    fun _ other member => .inr (.inl (new other member).symm)⟩
  intro all
  rcases sound.heard all with flagged | will | decisive
  · exact .inl flagged
  · rw [here] at will
    exact will.elim
  · exact .inr (.inr decisive)

-- A release drops the recorded id only where it is not needed any more.
theorem release_sound {x : SharedExecution} {s : Cancelling} (sound : CancelSound x s) {request_id : String}
    (kept : s.dropped x request_id = true →
      s.batch_workflow_id = none ∨ x.execution_request_id ∈ s.cancelled_requests ∨ s.Over) :
    CancelSound x (s.release x request_id) := by
  refine ⟨sound.flags,sound.checks,sound.run,sound.heard,fun id member => ?_,sound.covered⟩
  rcases sound.held id member with accepted | told | recorded | rest
  · exact .inl accepted
  · exact .inr (.inl told)
  · by_cases drops : s.dropped x request_id = true
    · rcases kept drops with nothing | rest
      · rw [recorded] at nothing
        cases nothing
      · exact .inr (.inr (.inr rest))
    · exact .inr (.inr (.inl ((if_neg drops).trans recorded)))
  · exact .inr (.inr (.inr rest))

theorem cancel_step_sound {x : SharedExecution} {s t : Cancelling} {label : CancelLabel} (sound : CancelSound x s)
    (step : CancelStep x s label t) (accounted : Accounted x s label) : CancelSound x t := by
  have own := sound.run
  cases step with
  | cancel call request_id member fresh => exact cancel_sound sound member fresh
  | look call here => exact look_sound sound here
  | ask call check here => exact ask_sound sound here
  | send call id ids here => exact send_sound sound here
  | done call here => exact done_sound sound here
  | start here =>
      rw [here] at own
      refine sound.moved _ ⟨⟨[],rfl,by simp⟩,own⟩ (fun _ _ => .inr trivial) (by rw [here]; exact nofun) ?_ ?_
      · intro id same; rw [here] at same; cases same
      · intro _ id will; rw [here] at will; exact will.elim
  | collect active left m here => exact collect_sound sound here
  | collected active here => exact collected_sound sound here
  | skip here =>
      rw [here] at own
      exact sound.flagged_by_run own.1 own.2
  | consult active here =>
      rw [here] at own
      exact sound.moved_quiet (by rw [here]; rfl) (.checking active .entered) ⟨own.1,trivial,own.2⟩
  | check active check here => exact check_run_sound sound here
  | fail active here => exact sound.moved_quiet (by rw [here]; rfl) .settled trivial
  | fail_building here => exact sound.moved_quiet (by rw [here]; rfl) .settled trivial
  | enter_submission active here =>
      rw [here] at own
      refine sound.moved_quiet (by rw [here]; rfl) _ ?_
      split
      · trivial
      · exact own.2
  | confirm here =>
      rw [here] at own
      refine sound.moved_quiet (by rw [here]; rfl) _ ?_
      split
      · trivial
      · exact own
  | accept id here => exact accept_sound sound here
  | reject here => exact sound.moved_quiet (by rw [here]; rfl) .settled trivial
  | lose id here => exact absurd rfl accounted.answered
  | release request_id member here => exact release_sound sound (accounted.kept request_id rfl)
  | record id here => exact record_sound sound here
  | check_recorded id here => exact check_recorded_sound sound here
  | poll id here =>
      rw [here] at own
      refine sound.moved_quiet (by rw [here]; rfl) _ ?_
      split
      · exact own
      · exact own
  | fail_polling id here =>
      rw [here] at own
      exact sound.moved_quiet (by rw [here]; rfl) (.aborting id) own
  | complete id here => exact sound.moved_quiet (by rw [here]; rfl) .settled trivial
  | abort id here =>
      refine sound.told .settled id trivial (by rw [here]; exact fun will => will) (by rw [here]; exact nofun)
        (fun other => by rw [here]; exact nofun) ?_
      intro other will
      rw [here] at will
      exact .inl will.symm
  | send_own id ids here =>
      refine sound.told (.stopping ids) id trivial (by rw [here]; exact fun will => will) (by rw [here]; exact nofun)
        (fun other => by rw [here]; exact nofun) ?_
      intro other will
      rw [here] at will
      exact List.mem_cons.mp will
  | stop here =>
      refine sound.moved .settled trivial ?_ (by rw [here]; exact nofun) ?_ ?_
      · intro _ will; rw [here] at will; exact will.elim
      · intro id same; rw [here] at same; cases same
      · intro _ id will; rw [here] at will; exact absurd will List.not_mem_nil
  | leave here =>
      refine sound.moved .ended trivial (fun _ _ => .inr trivial) (by rw [here]; exact nofun) ?_ ?_
      · intro id same; rw [here] at same; cases same
      · intro _ id will; rw [here] at will; exact will.elim

theorem start_sound (x : SharedExecution) : CancelSound x {} where
  flags flagged := absurd flagged List.not_mem_nil
  checks call check here := by cases here
  run := rfl
  heard _ := .inr (.inl trivial)
  held id member := absurd member List.not_mem_nil
  covered flagged := absurd flagged List.not_mem_nil

theorem CancelSound.together {x : SharedExecution} {s : Cancelling} (sound : CancelSound x s) : CancelledTogether x s := by
  have no_calls : s.calls.keys = [] → ∀ call phase, s.calls.get? call ≠ some phase := by
    intro none_left call phase here
    have member := Dict.mem_keys_iff.mpr ⟨phase,here⟩
    rw [none_left] at member
    exact List.not_mem_nil member
  refine ⟨sound.flags,fun none_left underway all => ?_,fun none_left finished flagged id member => ?_⟩
  · rcases sound.heard all with flagged | will | ⟨call,asked,here,_⟩
    · exact flagged
    · cases run : s.run <;> rw [run] at will underway <;> first | exact will.elim | cases underway
    · exact absurd here (no_calls none_left call asked)
  · rcases sound.covered flagged id member with told | own | ⟨call,ids,here,_⟩
    · exact told
    · rw [finished] at own
      exact own.elim
    · exact absurd here (no_calls none_left call _)

-- Every run of the execution, of the members' calls and of their jobs' releases, in which
-- no answer to a submit is lost once FlowMesh has created the workflow, and no recorded id is
-- dropped while it may still be needed.
theorem cancelled_together (x : SharedExecution) (labels : List CancelLabel) (s : Cancelling)
    (path : Runs (fun before label after => CancelStep x before label after ∧ Accounted x before label) {} labels s) :
    CancelledTogether x s :=
  (path.invariant (start_sound x) (fun _ _ _ sound taken => cancel_step_sound sound taken.1 taken.2)).together

def twoJobs : SharedExecution := ⟨"exec-1",["job-a","job-b"],by decide⟩

def accounted (x : SharedExecution) (before : Cancelling) (label : CancelLabel) (after : Cancelling) : Prop :=
  CancelStep x before label after ∧ Accounted x before label

def CancelLabel.plain : CancelLabel → Bool
  | .lose | .release _ => false
  | _ => true

theorem plain_step {x : SharedExecution} {before after : Cancelling} {label : CancelLabel} (step : CancelStep x before label after)
    (plain : label.plain = true) : accounted x before label after := by
  refine ⟨step,?_,?_⟩
  · rintro rfl
    cases plain
  · rintro request_id rfl
    cases plain

-- The workflow is created, and both members cancel before its id is recorded.
def created : Cancelling := { run := .accepted "wf-1", submitted := ["wf-1"] }

def asking (check : Check) : Cancelling :=
  { created with
    cancelled_requests := ["job-b","job-a"]
    calls := (Dict.empty.set 1 .flagged).set 2 (.asking check) }

def cancelledMidway : Cancelling := { created with cancelled_requests := ["exec-1","job-b","job-a"] }

theorem created_run : ∃ labels, Runs (accounted twoJobs) {} labels created := by
  have opening : Runs (accounted twoJobs) {} _ { run := .opening ["job-a","job-b"] [] } :=
    .snoc (.snoc (.snoc .nil (plain_step (.start _ rfl) rfl)) (plain_step (.collect _ [] ["job-b"] "job-a" rfl) rfl))
      (plain_step (.collect _ ["job-a"] [] "job-b" rfl) rfl)
  have submitting : Runs (accounted twoJobs) {} _ { run := .submitting } :=
    .snoc (.snoc (.snoc opening (plain_step (.collected _ ["job-a","job-b"] rfl) rfl))
      (plain_step (.enter_submission _ ["job-a","job-b"] rfl) rfl)) (plain_step (.confirm _ rfl) rfl)
  exact ⟨_,.snoc submitting (plain_step (.accept _ "wf-1" rfl) rfl)⟩

theorem cancelledMidway_run : ∃ labels, Runs (accounted twoJobs) {} labels cancelledMidway := by
  obtain ⟨_,path⟩ := created_run
  have called : Runs (accounted twoJobs) {} _ (asking .entered) :=
    .snoc (.snoc (.snoc path (plain_step (.cancel _ 1 "job-a" (by decide) (by decide)) rfl))
      (plain_step (.cancel _ 2 "job-b" (by decide) (by decide)) rfl)) (plain_step (.look _ 2 rfl) rfl)
  have asked : Runs (accounted twoJobs) {} _ (asking (.collecting [] ["job-a","job-b"])) :=
    .snoc called (plain_step (.ask _ 2 .entered rfl) rfl)
  have first : Runs (accounted twoJobs) {} _ (asking (.collecting ["job-a"] ["job-b"])) :=
    .snoc asked (plain_step (.ask _ 2 (.collecting [] ["job-a","job-b"]) rfl) rfl)
  have both : Runs (accounted twoJobs) {} _ (asking (.collecting ["job-a","job-b"] [])) :=
    .snoc first (plain_step (.ask _ 2 (.collecting ["job-a"] ["job-b"]) rfl) rfl)
  have flagged : Runs (accounted twoJobs) {} _ { cancelledMidway with calls := Dict.empty.set 1 .flagged } :=
    .snoc (.snoc both (plain_step (.ask _ 2 (.collecting ["job-a","job-b"] []) rfl) rfl)) (plain_step (.done _ 2 rfl) rfl)
  exact ⟨_,.snoc (.snoc flagged (plain_step (.look _ 1 rfl) rfl)) (plain_step (.ask _ 1 .entered rfl) rfl)⟩

-- The submitter aborts the workflow; then the jobs of both members release the execution.
def abortedByRun : Cancelling :=
  { cancelledMidway with run := .ended, batch_workflow_id := some "wf-1", cancels := ["wf-1"] }

def releasedByJobs : Cancelling := { abortedByRun with batch_workflow_id := none, released := ["job-b","job-a"] }

theorem cancelled_together_midway :
    releasedByJobs.submitted = ["wf-1"] ∧ AllCancelled twoJobs releasedByJobs ∧ CancelledTogether twoJobs releasedByJobs := by
  obtain ⟨_,path⟩ := cancelledMidway_run
  have aborted : Runs (accounted twoJobs) {} _ abortedByRun :=
    .snoc (.snoc (.snoc (.snoc path (plain_step (.record _ "wf-1" rfl) rfl)) (plain_step (.check_recorded _ "wf-1" rfl) rfl))
      (plain_step (.abort _ "wf-1" rfl) rfl)) (plain_step (.leave _ rfl) rfl)
  have released : Runs (accounted twoJobs) {} _ releasedByJobs :=
    .snoc (.snoc aborted ⟨.release _ "job-a" (by decide) nofun,nofun,fun _ _ _ => .inr (.inl (by decide))⟩)
      ⟨.release _ "job-b" (by decide) nofun,nofun,fun _ _ _ => .inr (.inl (by decide))⟩
  exact ⟨rfl,by unfold AllCancelled; decide,cancelled_together twoJobs _ releasedByJobs released⟩

-- With the answer lost, neither the canceller nor the submitter knows the workflow.
theorem lost_workflow_runs_on : ¬ ∀ x labels s, Runs (CancelStep x) {} labels s → CancelledTogether x s := by
  intro always
  obtain ⟨_,path⟩ := cancelledMidway_run
  have lost : Runs (CancelStep twoJobs) {} _ { cancelledMidway with run := .ended } :=
    .snoc (.snoc (path.mono fun _ _ _ step => step.1) (.lose _ "wf-1" rfl)) (.leave _ rfl)
  have told := (always twoJobs _ _ lost).workflows rfl rfl (by decide) "wf-1" (by decide)
  exact absurd told (by decide)

end Lumilake.Server

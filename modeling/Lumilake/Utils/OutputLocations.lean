import Lumilake.Library.Dict
import Lumilake.Library.Runs

namespace Lumilake.JobStorage

-- The three storages. The in-memory one takes no lock; the persistent one holds its index
-- lock from the lookup to the write; the SQLite one lets go of it before it loads the owner.
inductive Backend where
  | memory
  | persistent
  | sqlite
  deriving DecidableEq

-- Where a call in flight stands.
inductive Phase where
  | entered (location_key job_id : String)
  | owned (location_key job_id existing : String)
  | granted (location_key job_id : String)
  | releasing (location_key job_id : String)
  deriving DecidableEq

structure Store where
  output_index : Dict String String := Dict.empty
  -- the status in the job records
  status : Dict String String := Dict.empty
  calls : Dict Nat Phase := Dict.empty
  index_lock : Option Nat := none
  -- reservations that returned, not yet released
  held : List (String × String) := []

def Store.completed (s : Store) (job_id : String) : Prop := s.status.get? job_id = some "completed"

instance (s : Store) (job_id : String) : Decidable (s.completed job_id) :=
  inferInstanceAs (Decidable (_ = _))

inductive Label where
  | save (job_id status : String)
  | reserve (call : Nat) (location_key job_id : String)
  | read (call : Nat)
  | load (call : Nat)
  | write (call : Nat)
  | release (call : Nat) (location_key job_id : String)
  | delete (call : Nat)
  deriving DecidableEq

-- `if existing and existing != job_id`
def owner_of (s : Store) (location_key job_id : String) : Option String :=
  (s.output_index.get? location_key).filter (fun existing => decide (existing ≠ "" ∧ existing ≠ job_id))

def read_owner (backend : Backend) (s : Store) (call : Nat) (location_key job_id : String) : Store :=
  { s with
    index_lock := if backend = .persistent then some call else none
    calls := s.calls.set call (match owner_of s location_key job_id with
      | some existing => .owned location_key job_id existing
      | none => .granted location_key job_id) }

-- The owner's record decides: a completed one is superseded, any other one makes the
-- call raise.
def load_owner (s : Store) (call : Nat) (location_key job_id existing : String) : Store :=
  if s.completed existing then { s with calls := s.calls.set call (.granted location_key job_id) }
  else { s with calls := s.calls.erase call, index_lock := none }

def write_owner (s : Store) (call : Nat) (location_key job_id : String) : Store :=
  { s with
    output_index := s.output_index.set location_key job_id
    held := (location_key,job_id) :: s.held
    calls := s.calls.erase call
    index_lock := none }

def let_go (s : Store) (location_key job_id : String) : Store :=
  { s with held := s.held.filter (fun h => decide (h ≠ (location_key,job_id))) }

def release_output_location (backend : Backend) (s : Store) (call : Nat) (location_key job_id : String) : Store :=
  if s.output_index.get? location_key ≠ some job_id then let_go s location_key job_id
  else if backend = .memory then { s with calls := s.calls.set call (.releasing location_key job_id) }
  else { let_go s location_key job_id with output_index := s.output_index.erase location_key }

def delete_location (s : Store) (call : Nat) (location_key job_id : String) : Store :=
  { let_go s location_key job_id with
    output_index := s.output_index.erase location_key
    calls := s.calls.erase call }

-- One access to the shared state by any of the calls in flight, or the save of a record.
inductive Step (backend : Backend) : Store → Label → Store → Prop where
  | save (s : Store) (job_id status : String) :
      Step backend s (.save job_id status) { s with status := s.status.set job_id status }
  | reserve (s : Store) (call : Nat) (location_key job_id : String) (fresh : call ∉ s.calls) :
      Step backend s (.reserve call location_key job_id)
        { s with calls := s.calls.set call (.entered location_key job_id) }
  | read (s : Store) (call : Nat) (location_key job_id : String)
      (here : s.calls.get? call = some (.entered location_key job_id)) (free : s.index_lock = none) :
      Step backend s (.read call) (read_owner backend s call location_key job_id)
  | load (s : Store) (call : Nat) (location_key job_id existing : String)
      (here : s.calls.get? call = some (.owned location_key job_id existing)) :
      Step backend s (.load call) (load_owner s call location_key job_id existing)
  | write (s : Store) (call : Nat) (location_key job_id : String)
      (here : s.calls.get? call = some (.granted location_key job_id))
      (free : s.index_lock = none ∨ s.index_lock = some call) :
      Step backend s (.write call) (write_owner s call location_key job_id)
  | release (s : Store) (call : Nat) (location_key job_id : String) (fresh : call ∉ s.calls) (free : s.index_lock = none) :
      Step backend s (.release call location_key job_id) (release_output_location backend s call location_key job_id)
  | delete (s : Store) (call : Nat) (location_key job_id : String)
      (here : s.calls.get? call = some (.releasing location_key job_id)) :
      Step backend s (.delete call) (delete_location s call location_key job_id)

-- The location has no owner but the job itself and completed jobs.
def Free (s : Store) (location_key job_id : String) : Prop :=
  ∀ owner, s.output_index.get? location_key = some owner → owner = job_id ∨ s.completed owner

-- When a step keeps the locations apart. Only the writes that no lock connects to the
-- lookup before them have a condition on the index.
def Apart (backend : Backend) (s : Store) : Label → Prop
  | .save job_id status => s.completed job_id → status = "completed"
  | .reserve _ _ job_id => job_id ≠ ""
  | .write call => backend = .persistent ∨
      ∀ location_key job_id, s.calls.get? call = some (.granted location_key job_id) → Free s location_key job_id
  | .delete call =>
      ∀ location_key job_id, s.calls.get? call = some (.releasing location_key job_id) → Free s location_key job_id
  | _ => True

-- At most one job that is not completed holds a location.
def Exclusive (s : Store) : Prop :=
  ∀ location_key first second, (location_key,first) ∈ s.held → (location_key,second) ∈ s.held →
    ¬ s.completed first → ¬ s.completed second → first = second

def Phase.job_id : Phase → String
  | .entered _ job_id | .owned _ job_id _ | .granted _ job_id | .releasing _ job_id => job_id

-- What the index lock of the persistent storage protects.
def Locked (s : Store) (call : Nat) : Phase → Prop
  | .entered _ _ => True
  | .owned location_key _ existing => s.index_lock = some call ∧ s.output_index.get? location_key = some existing
  | .granted location_key job_id => s.index_lock = some call ∧ Free s location_key job_id
  | .releasing _ _ => False

structure Sound (backend : Backend) (s : Store) : Prop where
  owners : ∀ location_key job_id, (location_key,job_id) ∈ s.held → ¬ s.completed job_id →
    s.output_index.get? location_key = some job_id
  named : ∀ location_key owner, s.output_index.get? location_key = some owner → owner ≠ ""
  callers : ∀ call phase, s.calls.get? call = some phase → phase.job_id ≠ ""
  locked : backend = .persistent → ∀ call phase, s.calls.get? call = some phase → Locked s call phase

theorem Sound.exclusive {backend : Backend} {s : Store} (sound : Sound backend s) : Exclusive s := by
  intro location_key first second holds_first holds_second open_first open_second
  have owned_first := sound.owners _ _ holds_first open_first
  have owned_second := sound.owners _ _ holds_second open_second
  exact Option.some.inj (owned_first.symm.trans owned_second)

theorem locked_congr {s t : Store} {call : Nat} {phase : Phase} (index : t.output_index = s.output_index)
    (lock : t.index_lock = s.index_lock) (completed : ∀ job_id, s.completed job_id → t.completed job_id)
    (locked : Locked s call phase) : Locked t call phase := by
  cases phase with
  | entered location_key job_id => trivial
  | owned location_key job_id existing => exact ⟨lock.trans locked.1,by rw [index]; exact locked.2⟩
  | granted location_key job_id =>
      refine ⟨lock.trans locked.1,fun owner found => ?_⟩
      rw [index] at found
      exact (locked.2 owner found).imp_right (completed owner)
  | releasing location_key job_id => exact locked

-- A call that does not have the lock has only entered.
theorem locked_entered {s : Store} {call : Nat} {phase : Phase} (locked : Locked s call phase)
    (other : s.index_lock ≠ some call) (t : Store) : Locked t call phase := by
  cases phase with
  | entered location_key job_id => trivial
  | owned location_key job_id existing => exact absurd locked.1 other
  | granted location_key job_id => exact absurd locked.1 other
  | releasing location_key job_id => exact locked.elim

theorem save_sound {backend : Backend} {s : Store} (sound : Sound backend s) (job_id status : String)
    (kept : s.completed job_id → status = "completed") :
    Sound backend { s with status := s.status.set job_id status } := by
  have completed : ∀ job, s.completed job → Store.completed { s with status := s.status.set job_id status } job := by
    intro job done
    by_cases same : job = job_id
    · subst same
      unfold Store.completed
      rw [← kept done]
      exact Dict.get?_set_self s.status job status
    · exact (Dict.get?_set_ne s.status status same).trans done
  exact ⟨fun location_key job holds unfinished => sound.owners location_key job holds (fun done => unfinished (completed job done)),
    sound.named,sound.callers,
    fun persistent call phase here => locked_congr (s := s) rfl rfl completed (sound.locked persistent call phase here)⟩

-- A step that only moves one call to its next phase.
theorem Sound.moved {backend : Backend} {s : Store} (sound : Sound backend s) {call : Nat} {phase : Phase}
    (lock : Option Nat) (job : phase.job_id ≠ "")
    (locked : backend = .persistent → Locked { s with calls := s.calls.set call phase, index_lock := lock } call phase)
    (others : backend = .persistent → ∀ other phase, other ≠ call → s.calls.get? other = some phase →
      Locked { s with calls := s.calls.set call phase, index_lock := lock } other phase) :
    Sound backend { s with calls := s.calls.set call phase, index_lock := lock } := by
  refine ⟨sound.owners,sound.named,?_,?_⟩
  · intro other phase' here
    by_cases same : other = call
    · subst same
      cases Option.some.inj ((Dict.get?_set_self s.calls other phase).symm.trans here)
      exact job
    · exact sound.callers other phase' ((Dict.get?_set_ne s.calls phase same).symm.trans here)
  · intro persistent other phase' here
    by_cases same : other = call
    · subst same
      cases Option.some.inj ((Dict.get?_set_self s.calls other phase).symm.trans here)
      exact locked persistent
    · have before := (Dict.get?_set_ne s.calls phase same).symm.trans here
      exact locked_congr rfl rfl (fun _ done => done) (others persistent other phase' same before)

-- A call that ends: the locations it leaves to others stay theirs, and who is left of the
-- calls has only entered.
theorem Sound.ended {backend : Backend} {s t : Store} (sound : Sound backend s) (call : Nat)
    (calls : t.calls = s.calls.erase call) (status : t.status = s.status)
    (owners : ∀ location_key job_id, (location_key,job_id) ∈ t.held → ¬ s.completed job_id →
      t.output_index.get? location_key = some job_id)
    (named : ∀ location_key owner, t.output_index.get? location_key = some owner → owner ≠ "")
    (locked : backend = .persistent → s.index_lock = none ∨ s.index_lock = some call) : Sound backend t := by
  have before : ∀ other phase, t.calls.get? other = some phase → other ≠ call ∧ s.calls.get? other = some phase := by
    intro other phase here
    rw [calls] at here
    by_cases same : other = call
    · rw [same,Dict.get?_erase_self] at here
      cases here
    · exact ⟨same,(Dict.get?_erase_ne s.calls same).symm.trans here⟩
  refine ⟨?_,named,fun other phase here => sound.callers other phase (before other phase here).2,?_⟩
  · intro location_key job_id holds unfinished
    exact owners location_key job_id holds (by unfold Store.completed at unfinished ⊢; rwa [status] at unfinished)
  · intro persistent other phase here
    obtain ⟨different,earlier⟩ := before other phase here
    refine locked_entered (sound.locked persistent other phase earlier) (fun own => ?_) t
    rcases locked persistent with none_holds | call_holds
    · exact absurd (none_holds.symm.trans own) (by simp)
    · exact different (Option.some.inj (own.symm.trans call_holds))

theorem owner_of_none {s : Store} {location_key job_id : String} (named : ∀ owner, s.output_index.get? location_key = some owner → owner ≠ "")
    (missing : owner_of s location_key job_id = none) : Free s location_key job_id := by
  intro owner found
  refine .inl (Classical.byContradiction fun other => ?_)
  have kept := Option.filter_eq_none_iff.mp missing owner found
  exact kept (decide_eq_true ⟨named owner found,other⟩)

theorem owner_of_some {s : Store} {location_key job_id existing : String}
    (found : owner_of s location_key job_id = some existing) : s.output_index.get? location_key = some existing :=
  (Option.filter_eq_some_iff.mp found).1

theorem read_sound {backend : Backend} {s : Store} (sound : Sound backend s) {call : Nat} {location_key job_id : String}
    (here : s.calls.get? call = some (.entered location_key job_id)) (free : s.index_lock = none) :
    Sound backend (read_owner backend s call location_key job_id) := by
  have job : job_id ≠ "" := sound.callers call _ here
  unfold read_owner
  cases looked : owner_of s location_key job_id with
  | some existing =>
      refine sound.moved _ job (fun persistent => ?_) (fun persistent other phase _ before => ?_)
      · exact ⟨if_pos persistent,owner_of_some looked⟩
      · exact locked_entered (sound.locked persistent other phase before) (by simp [free]) _
  | none =>
      refine sound.moved _ job (fun persistent => ?_) (fun persistent other phase _ before => ?_)
      · exact ⟨if_pos persistent,owner_of_none (sound.named location_key) looked⟩
      · exact locked_entered (sound.locked persistent other phase before) (by simp [free]) _

theorem load_sound {backend : Backend} {s : Store} (sound : Sound backend s) {call : Nat}
    {location_key job_id existing : String} (here : s.calls.get? call = some (.owned location_key job_id existing)) :
    Sound backend (load_owner s call location_key job_id existing) := by
  have job : job_id ≠ "" := sound.callers call _ here
  unfold load_owner
  split
  · rename_i done
    refine sound.moved s.index_lock job (fun persistent => ?_) (fun persistent other phase _ before => ?_)
    · have locked := sound.locked persistent call _ here
      refine ⟨locked.1,fun owner found => .inr ?_⟩
      rw [← Option.some.inj (locked.2.symm.trans found)]
      exact done
    · exact locked_congr (s := s) rfl rfl (fun _ done => done) (sound.locked persistent other phase before)
  · exact sound.ended call rfl rfl sound.owners sound.named
      (fun persistent => .inr (sound.locked persistent call _ here).1)

theorem write_sound {backend : Backend} {s : Store} (sound : Sound backend s) {call : Nat} {location_key job_id : String}
    (here : s.calls.get? call = some (.granted location_key job_id))
    (lock : s.index_lock = none ∨ s.index_lock = some call) (free : Free s location_key job_id) :
    Sound backend (write_owner s call location_key job_id) := by
  refine sound.ended call rfl rfl ?_ ?_ (fun _ => lock)
  · intro key job holds unfinished
    change (s.output_index.set location_key job_id).get? key = some job
    rcases List.mem_cons.mp holds with new | old
    · obtain ⟨rfl,rfl⟩ := Prod.mk.inj new
      exact Dict.get?_set_self s.output_index key job
    · have owned := sound.owners key job old unfinished
      by_cases same : key = location_key
      · subst same
        rcases free job owned with own | done
        · rw [own]
          exact Dict.get?_set_self s.output_index key job_id
        · exact absurd done unfinished
      · exact (Dict.get?_set_ne s.output_index job_id same).trans owned
  · intro key owner found
    change (s.output_index.set location_key job_id).get? key = some owner at found
    by_cases same : key = location_key
    · subst same
      rw [← Option.some.inj ((Dict.get?_set_self s.output_index key job_id).symm.trans found)]
      exact sound.callers call _ here
    · exact sound.named key owner ((Dict.get?_set_ne s.output_index job_id same).symm.trans found)

theorem mem_let_go {s : Store} {location_key job_id : String} {h : String × String} :
    h ∈ (let_go s location_key job_id).held ↔ h ∈ s.held ∧ h ≠ (location_key,job_id) := by
  simp [let_go]

-- An index without a location that only the job itself or completed jobs owned.
theorem erased_owners {backend : Backend} {s : Store} (sound : Sound backend s) {location_key job_id : String}
    (free : Free s location_key job_id) (key job : String) (holds : (key,job) ∈ (let_go s location_key job_id).held)
    (unfinished : ¬ s.completed job) : (s.output_index.erase location_key).get? key = some job := by
  obtain ⟨held,other⟩ := mem_let_go.mp holds
  have owned := sound.owners key job held unfinished
  by_cases same : key = location_key
  · subst same
    rcases free job owned with own | done
    · exact absurd (by rw [own]) other
    · exact absurd done unfinished
  · exact (Dict.get?_erase_ne s.output_index same).trans owned

theorem erased_named {backend : Backend} {s : Store} (sound : Sound backend s) {location_key : String} (key owner : String)
    (found : (s.output_index.erase location_key).get? key = some owner) : owner ≠ "" := by
  by_cases same : key = location_key
  · subst same
    rw [Dict.get?_erase_self] at found
    cases found
  · exact sound.named key owner ((Dict.get?_erase_ne s.output_index same).symm.trans found)

theorem release_sound {backend : Backend} {s : Store} (sound : Sound backend s) {call : Nat} {location_key job_id : String}
    (free : s.index_lock = none) : Sound backend (release_output_location backend s call location_key job_id) := by
  unfold release_output_location
  split
  · exact ⟨fun key job holds => sound.owners key job (mem_let_go.mp holds).1,sound.named,sound.callers,
      fun persistent other phase here => locked_congr (s := s) rfl rfl (fun _ done => done) (sound.locked persistent other phase here)⟩
  · rename_i owned
    have own : s.output_index.get? location_key = some job_id := Classical.byContradiction owned
    split
    · rename_i memory
      refine sound.moved s.index_lock (sound.named location_key job_id own) (fun persistent => ?_) (fun persistent => ?_)
      · rw [memory] at persistent
        cases persistent
      · rw [memory] at persistent
        cases persistent
    · refine ⟨erased_owners sound (fun owner found => .inl (Option.some.inj (found.symm.trans own))),
        erased_named sound,sound.callers,fun persistent other phase here => ?_⟩
      exact locked_entered (sound.locked persistent other phase here) (by simp [free]) _

theorem delete_sound {backend : Backend} {s : Store} (sound : Sound backend s) {call : Nat} {location_key job_id : String}
    (here : s.calls.get? call = some (.releasing location_key job_id)) (free : Free s location_key job_id) :
    Sound backend (delete_location s call location_key job_id) :=
  sound.ended call rfl rfl (erased_owners sound free) (erased_named sound)
    (fun persistent => (sound.locked persistent call _ here).elim)

theorem step_sound {backend : Backend} {s t : Store} {label : Label} (sound : Sound backend s)
    (step : Step backend s label t) (apart : Apart backend s label) : Sound backend t := by
  cases step with
  | save job_id status => exact save_sound sound job_id status apart
  | reserve call location_key job_id fresh =>
      refine sound.moved s.index_lock apart (fun _ => trivial) (fun persistent other phase _ before => ?_)
      exact locked_congr (s := s) rfl rfl (fun _ done => done) (sound.locked persistent other phase before)
  | read call location_key job_id here free => exact read_sound sound here free
  | load call location_key job_id existing here => exact load_sound sound here
  | write call location_key job_id here free =>
      refine write_sound sound here free ?_
      rcases apart with persistent | condition
      · exact (sound.locked persistent call _ here).2
      · exact condition location_key job_id here
  | release call location_key job_id fresh free => exact release_sound sound free
  | delete call location_key job_id here => exact delete_sound sound here (apart location_key job_id here)

theorem empty_sound (backend : Backend) : Sound backend {} where
  owners _ _ holds := absurd holds List.not_mem_nil
  named _ _ found := by cases found
  callers _ _ here := by cases here
  locked _ _ _ here := by cases here

-- In every run whose writes find the location free of other unfinished jobs, no two of them
-- hold one location. The persistent storage's own writes always do.
theorem locations_exclusive (backend : Backend) (labels : List Label) (s : Store)
    (path : Runs (fun before label after => Step backend before label after ∧ Apart backend before label) {} labels s) :
    Exclusive s :=
  Sound.exclusive (path.invariant (empty_sound backend)
    (fun _ _ _ sound taken => step_sound sound taken.1 taken.2))

-- Two jobs want one location of the SQLite storage. The second is refused while the first
-- runs, and granted once the record says it is completed.
def contended : List Label :=
  [.reserve 1 "table" "job-a",.read 1,.write 1,.reserve 2 "table" "job-b",.read 2,.load 2,
    .save "job-a" "completed",.reserve 3 "table" "job-b",.read 3,.load 3,.write 3]

def reservedOnce : Store :=
  write_owner (read_owner .sqlite { calls := Dict.empty.set 1 (.entered "table" "job-a") } 1 "table" "job-a") 1 "table" "job-a"

def refusedOnce : Store :=
  load_owner (read_owner .sqlite { reservedOnce with calls := reservedOnce.calls.set 2 (.entered "table" "job-b") }
    2 "table" "job-b") 2 "table" "job-b" "job-a"

def completedFirst : Store := { refusedOnce with status := refusedOnce.status.set "job-a" "completed" }

def supersededOnce : Store :=
  write_owner (load_owner (read_owner .sqlite
    { completedFirst with calls := completedFirst.calls.set 3 (.entered "table" "job-b") } 3 "table" "job-b")
      3 "table" "job-b" "job-a") 3 "table" "job-b"

theorem refusedOnce_run :
    Runs (fun before label after => Step .sqlite before label after ∧ Apart .sqlite before label) {} (contended.take 6)
      refusedOnce :=
  .snoc (.snoc (.snoc (.snoc (.snoc (.snoc .nil ⟨.reserve _ 1 "table" "job-a" (by decide),show "job-a" ≠ "" by decide⟩)
    ⟨.read _ 1 "table" "job-a" (by decide) rfl,trivial⟩)
    ⟨.write _ 1 "table" "job-a" (by decide) (.inl rfl),.inr fun location_key job_id _ owner found => by cases found⟩)
    ⟨.reserve _ 2 "table" "job-b" (by decide),show "job-b" ≠ "" by decide⟩)
    ⟨.read _ 2 "table" "job-b" (by decide) rfl,trivial⟩)
    ⟨.load _ 2 "table" "job-b" "job-a" (by decide),trivial⟩

theorem contended_run :
    Runs (fun before label after => Step .sqlite before label after ∧ Apart .sqlite before label) {} contended
      supersededOnce := by
  refine .snoc (.snoc (.snoc (.snoc (.snoc refusedOnce_run ⟨.save _ "job-a" "completed",fun _ => rfl⟩)
    ⟨.reserve _ 3 "table" "job-b" (by decide),show "job-b" ≠ "" by decide⟩)
    ⟨.read _ 3 "table" "job-b" (by decide) rfl,trivial⟩)
    ⟨.load _ 3 "table" "job-b" "job-a" (by decide),trivial⟩)
    ⟨.write _ 3 "table" "job-b" (by decide) (.inl rfl),.inr ?_⟩
  intro location_key job_id here owner found
  obtain ⟨rfl,rfl⟩ : "table" = location_key ∧ "job-b" = job_id := Phase.granted.inj (Option.some.inj here)
  obtain rfl : "job-a" = owner := Option.some.inj found
  exact .inr (by decide)

theorem locations_exclusive_two :
    (refusedOnce.held = [("table","job-a")] ∧ Exclusive refusedOnce) ∧
    supersededOnce.held = [("table","job-b"),("table","job-a")] ∧ Exclusive supersededOnce :=
  ⟨⟨by decide,locations_exclusive .sqlite _ refusedOnce refusedOnce_run⟩,by decide,
    locations_exclusive .sqlite contended supersededOnce contended_run⟩

-- A second reservation that starts before the first one writes.
def twoReserved : List Label := [.reserve 1 "table" "job-a",.reserve 2 "table" "job-b",.read 1,.read 2,.write 1,.write 2]

def bothEntered : Store :=
  { calls := (Dict.empty.set 1 (.entered "table" "job-a")).set 2 (.entered "table" "job-b") }

def bothGranted : Store :=
  read_owner .sqlite (read_owner .sqlite bothEntered 1 "table" "job-a") 2 "table" "job-b"

def bothReserved : Store := write_owner (write_owner bothGranted 1 "table" "job-a") 2 "table" "job-b"

theorem twoReserved_run : Runs (Step .sqlite) {} twoReserved bothReserved :=
  .snoc (.snoc (.snoc (.snoc (.snoc (.snoc .nil
    (.reserve _ 1 "table" "job-a" (by decide)))
    (.reserve _ 2 "table" "job-b" (by decide)))
    (.read _ 1 "table" "job-a" (by decide) rfl))
    (.read _ 2 "table" "job-b" (by decide) rfl))
    (.write _ 1 "table" "job-a" (by decide) (.inl rfl)))
    (.write _ 2 "table" "job-b" (by decide) (.inl rfl))

-- Both reservations return, and neither job is completed.
theorem location_held_twice :
    ¬ ∀ backend labels s, Runs (Step backend) {} labels s → Exclusive s := by
  intro always
  have same := always .sqlite twoReserved bothReserved twoReserved_run "table" "job-a" "job-b"
    (by decide) (by decide) (by decide) (by decide)
  exact absurd same (by decide)

end Lumilake.JobStorage

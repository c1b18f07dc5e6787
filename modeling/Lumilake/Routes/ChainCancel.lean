import Lumilake.Library.Runs
import Lumilake.Routes.SoleCopies

namespace Lumilake.Jobs.Archive

-- A child of the parent that has a record, in memory or in the storage.
def Registered (a : Archive) (parent_job_id child_job_id : String) : Prop :=
  (∃ (record : Ref) (r : JobRecord), a.core.records[record]? = some r ∧ r.job_id = child_job_id ∧
    r.parent_job_id = some parent_job_id) ∨
    ∃ r, a.storage.load child_job_id = some r ∧ r.parent_job_id = some parent_job_id

-- Every child registered so far is in a terminal state.
def Covered (a : Archive) (parent_job_id : String) : Prop :=
  ∀ child_job_id, Registered a parent_job_id child_job_id → ∃ r, a.current child_job_id = some r ∧ r.terminal

-- The child that the walk of `cancel_job` comes to.
def visits (a : Archive) : Deed → Option String
  | .work (.resume i _ .resumed) =>
    match a.core.tasks[i]? with
    | some (.cancel_job (.children (child_id :: _))) => some child_id
    | _ => none
  | _ => none

-- A load ends only for a job that is not in the table, and the walk of `cancel_job` over the
-- children of a parent finds each of them in the table.
structure Reached (a : Archive) (deed : Deed) : Prop where
  unshared : Unshared a deed
  in_memory : ∀ child_id, a.visits deed = some child_id → child_id ∈ a.core.jobs

instance (a : Archive) (deed : Deed) : Decidable (Reached a deed) :=
  decidable_of_iff (Unshared a deed ∧ ∀ child_id ∈ a.visits deed, child_id ∈ a.core.jobs)
    ⟨fun h => ⟨h.1,h.2⟩,fun h => ⟨h.1,h.2⟩⟩

-- Every stored child is listed by the stored record of its parent.
def Listed (storage : Storage) : Prop :=
  ∀ child_job_id r, storage.load child_job_id = some r → ∀ parent_job_id, r.parent_job_id = some parent_job_id →
    ∃ parent, storage.load parent_job_id = some parent ∧ child_job_id ∈ parent.child_job_ids

def Closed (a : Archive) (job_id : String) : Prop :=
  ∃ record r, a.core.jobs.get? job_id = some record ∧ a.core.records[record]? = some r ∧ r.terminal

-- The parent is terminal, and so is each of its children that the walk has behind it.
def Walked (a : Archive) (parent_job_id : String) (rest : List String) : Prop :=
  ∃ record parent, a.core.jobs.get? parent_job_id = some record ∧ a.core.records[record]? = some parent ∧ parent.terminal ∧
    ∀ child_job_id ∈ parent.child_job_ids, child_job_id ∈ rest ∨ Closed a child_job_id

-- Where a call of `cancel_job` for the parent is in its walk.
def Walks (a : Archive) (parent_job_id : String) : CancelPoint → Prop
  | .missing job_id => job_id = parent_job_id
  | .authorized record => a.core.jobs.get? parent_job_id = some record
  | .cancelled record => a.core.jobs.get? parent_job_id = some record ∧ ∃ r, a.core.records[record]? = some r ∧ r.terminal
  | .children rest => Walked a parent_job_id rest
  | .backend _ rest => Walked a parent_job_id rest

structure Chained (a : Archive) : Prop where
  grounded : Grounded a
  agree : ∀ (record : Ref) (r stored : JobRecord), a.core.records[record]? = some r → a.storage.load r.job_id = some stored →
    stored.parent_job_id = r.parent_job_id
  filed : ∀ job_id r, Pending a job_id r → ∃ stored, a.storage.load job_id = some stored ∧
    stored.parent_job_id = r.parent_job_id
  parents : ∀ parent_job_id child_job_id, Registered a parent_job_id child_job_id →
    parent_job_id ∈ a.core.jobs ∨ ∃ stored, a.storage.load parent_job_id = some stored
  listed : ∀ parent_job_id record parent, a.core.jobs.get? parent_job_id = some record →
    a.core.records[record]? = some parent → ∀ child_job_id, Registered a parent_job_id child_job_id →
    child_job_id ∈ parent.child_job_ids
  unlisted : ∀ parent_job_id, parent_job_id ∉ a.core.jobs →
    ∀ parent, Pending a parent_job_id parent ∨ a.storage.load parent_job_id = some parent →
    ∀ child_job_id, Registered a parent_job_id child_job_id → child_job_id ∈ parent.child_job_ids
  calls : ∀ (i : Nat) (point : CancelPoint), a.core.tasks[i]? = some (.cancel_job point) →
    ∃ job_id, a.calls.get? i = some job_id ∧ Walks a job_id point
  returned : ∀ i ∈ a.returned, ∃ job_id, a.calls.get? i = some job_id ∧ Walked a job_id []

section
variable {a b : Archive}

theorem Closed.step (grown : Grown loose a.core b.core) (closed : Closed a job_id) : Closed b job_id := by
  obtain ⟨record,r,table,found,terminal⟩ := closed
  obtain ⟨r',there,moved⟩ := grown.tracks record r found
  exact ⟨record,r',grown.jobs table,there,moved.terminal terminal⟩

theorem Walked.step (grown : Grown loose a.core b.core) (walked : Walked a parent_job_id rest) :
    Walked b parent_job_id rest := by
  obtain ⟨record,parent,table,found,terminal,children⟩ := walked
  obtain ⟨parent',there,moved⟩ := grown.tracks record parent found
  refine ⟨record,parent',grown.jobs table,there,moved.terminal terminal,fun child_job_id member => ?_⟩
  rw [moved.childless terminal] at member
  exact (children child_job_id member).imp_right (Closed.step grown)

theorem Walks.step (grown : Grown loose a.core b.core) (walks : Walks a parent_job_id point) :
    Walks b parent_job_id point := by
  cases point with
  | missing job_id => exact walks
  | authorized record => exact grown.jobs walks
  | cancelled record =>
      obtain ⟨table,r,found,terminal⟩ := walks
      obtain ⟨r',there,moved⟩ := grown.tracks record r found
      exact ⟨grown.jobs table,r',there,moved.terminal terminal⟩
  | children rest => exact Walked.step grown walks
  | backend child rest => exact Walked.step grown walks

-- A record that is new in the table is of a job that was not there.
theorem new_fresh {s t : State} (grown : Grown loose s t) (found : t.records[record]? = some r)
    (beyond : s.records.length ≤ record) : r.job_id ∉ s.jobs := by
  have inside : record < t.records.length := (List.getElem?_eq_some_iff.mp found).1
  rcases grown.table with ⟨_,length⟩ | ⟨job_id,entry,fresh,own,_,length,r',there,same,_⟩
  · exact absurd (inside.trans_eq length) (Nat.not_lt.mpr beyond)
  · have place : record = s.records.length := Nat.le_antisymm (Nat.le_of_lt_succ (inside.trans_eq length)) beyond
    subst place
    rw [Option.some.inj (found.symm.trans there),same,own]
    exact fresh

-- The open parent that a child is registered under, which lists the child then.
def Adopted (a b : Archive) (parent_job_id child_job_id : String) : Prop :=
  ∃ parent before after, a.core.jobs.get? parent_job_id = some parent ∧ a.core.records[parent]? = some before ∧
    ¬before.terminal ∧ b.core.records[parent]? = some after ∧ child_job_id ∈ after.child_job_ids

-- What the recovery saves of a job was stored with the same parent.
theorem Chained.rescued_filed (chained : Chained a) (effect : Effect loose rescued a b) (rescue : r ∈ rescued) :
    ∃ stored, a.storage.load r.job_id = some stored ∧ stored.parent_job_id = r.parent_job_id := by
  obtain ⟨record,pending,parent,_⟩ := effect.rescues r rescue
  obtain ⟨stored,there,same⟩ := chained.filed r.job_id record pending
  exact ⟨stored,there,same.trans parent.symm⟩

theorem Chained.registered (chained : Chained a) (effect : Effect loose rescued a b)
    (registered : Registered b parent_job_id child_job_id) :
    Registered a parent_job_id child_job_id ∨ Adopted a b parent_job_id child_job_id := by
  rcases registered with ⟨record,r,found,own,child⟩ | ⟨r,found,child⟩
  · by_cases old : record < a.core.records.length
    · obtain ⟨r',there,moved⟩ := effect.grown.tracks record _ (List.getElem?_eq_getElem old)
      have same : r = r' := Option.some.inj (found.symm.trans there)
      subst same
      exact .inl (.inl ⟨record,_,List.getElem?_eq_getElem old,moved.job_id.symm.trans own,moved.parent_job_id.symm.trans child⟩)
    · rcases effect.entered record r found (Nat.le_of_not_lt old) with pending | ⟨_,attached⟩
      · obtain ⟨stored,there,parent⟩ := chained.filed r.job_id r pending
        exact .inl (.inr ⟨stored,own ▸ there,parent.trans child⟩)
      · obtain ⟨parent,before,after,table,there,opened,after_there,listed⟩ := attached parent_job_id child
        exact .inr ⟨parent,before,after,table,there,opened,after_there,own ▸ listed⟩
  · rcases effect.saves child_job_id with same | ⟨record,r',there,own,saved⟩ | ⟨r',rescue,own,saved⟩
    · exact .inl (.inr ⟨r,same.symm.trans found,child⟩)
    · have same : r = r' := Option.some.inj (found.symm.trans saved)
      subst same
      exact .inl (.inl ⟨record,r,there,own,child⟩)
    · have same : r = r' := Option.some.inj (found.symm.trans saved)
      subst same
      obtain ⟨stored,there,parent⟩ := chained.rescued_filed effect rescue
      exact .inl (.inr ⟨stored,own ▸ there,parent.trans child⟩)

theorem Chained.agree_step {record : Ref} {r : JobRecord} (chained : Chained a) (effect : Effect loose rescued a b)
    (found : b.core.records[record]? = some r) (stored_there : b.storage.load r.job_id = some stored) :
    stored.parent_job_id = r.parent_job_id := by
  by_cases old : record < a.core.records.length
  · obtain ⟨r',there,moved⟩ := effect.grown.tracks record _ (List.getElem?_eq_getElem old)
    have same : r = r' := Option.some.inj (found.symm.trans there)
    subst same
    rw [moved.parent_job_id]
    rcases effect.saves r.job_id with same | ⟨other,saved,other_there,own,now⟩ | ⟨saved,rescue,own,now⟩
    · exact chained.agree record _ stored (List.getElem?_eq_getElem old)
        (moved.job_id ▸ same.symm.trans stored_there)
    · have sole : other = record := by
        have one := chained.grounded.sole other saved other_there
        have two := chained.grounded.sole record _ (List.getElem?_eq_getElem old)
        rw [own,moved.job_id] at one
        exact Option.some.inj (one.symm.trans two)
      subst sole
      rw [List.getElem?_eq_getElem old] at other_there
      cases other_there
      cases stored_there.symm.trans now
      rfl
    · cases stored_there.symm.trans now
      obtain ⟨before,there,parent⟩ := chained.rescued_filed effect rescue
      rw [own,moved.job_id] at there
      exact parent.symm.trans (chained.agree record _ before (List.getElem?_eq_getElem old) there)
  · have beyond := Nat.le_of_not_lt old
    have fresh := new_fresh effect.grown found beyond
    rcases effect.saves r.job_id with same | ⟨other,saved,other_there,own,_⟩ | ⟨saved,rescue,own,now⟩
    · rcases effect.entered record r found beyond with pending | ⟨nothing,_⟩
      · obtain ⟨before,there,parent⟩ := chained.filed r.job_id r pending
        rw [same,there] at stored_there
        cases stored_there
        exact parent
      · rw [same,nothing] at stored_there
        cases stored_there
    · exact absurd (Dict.mem_keys_iff.mpr ⟨other,own ▸ chained.grounded.sole other saved other_there⟩) fresh
    · cases stored_there.symm.trans now
      obtain ⟨before,there,parent⟩ := chained.rescued_filed effect rescue
      rw [own] at there
      rcases effect.entered record r found beyond with pending | ⟨nothing,_⟩
      · obtain ⟨before',there',parent'⟩ := chained.filed r.job_id r pending
        cases there.symm.trans there'
        exact parent.symm.trans parent'
      · rw [nothing] at there
        cases there

theorem Chained.filed_step (chained : Chained a) (effect : Effect loose rescued a b) (pending : Pending b job_id r) :
    ∃ stored, b.storage.load job_id = some stored ∧ stored.parent_job_id = r.parent_job_id := by
  have before : ∃ stored, a.storage.load job_id = some stored ∧ stored.parent_job_id = r.parent_job_id := by
    rcases effect.fetches job_id r pending with old | new
    · exact chained.filed job_id r old
    · exact ⟨r,new,rfl⟩
  obtain ⟨stored,there,parent⟩ := before
  rcases effect.saves job_id with same | ⟨other,saved,other_there,own,now⟩ | ⟨saved,rescue,own,now⟩
  · exact ⟨stored,same.trans there,parent⟩
  · exact ⟨saved,now,(chained.agree other saved stored other_there (own ▸ there)).symm.trans parent⟩
  · obtain ⟨stored',there',parent'⟩ := chained.rescued_filed effect rescue
    rw [own] at there'
    cases there.symm.trans there'
    exact ⟨saved,now,parent'.symm.trans parent⟩

theorem Chained.parents_step (chained : Chained a) (effect : Effect loose rescued a b)
    (registered : Registered b parent_job_id child_job_id) :
    parent_job_id ∈ b.core.jobs ∨ ∃ stored, b.storage.load parent_job_id = some stored := by
  have kept : parent_job_id ∈ a.core.jobs → parent_job_id ∈ b.core.jobs := by
    intro member
    obtain ⟨record,table⟩ := Dict.mem_keys_iff.mp member
    exact Dict.mem_keys_iff.mpr ⟨record,effect.grown.jobs table⟩
  rcases chained.registered effect registered with old | ⟨parent,_,_,table,_⟩
  · rcases chained.parents _ _ old with member | ⟨stored,there⟩
    · exact .inl (kept member)
    · rcases effect.saves parent_job_id with same | ⟨_,saved,_,_,now⟩ | ⟨saved,_,_,now⟩
      · exact .inr ⟨stored,same.trans there⟩
      · exact .inr ⟨saved,now⟩
      · exact .inr ⟨saved,now⟩
  · exact .inl (kept (Dict.mem_keys_iff.mpr ⟨parent,table⟩))

theorem Chained.listed_step (chained : Chained a) (grounded : Grounded b) (effect : Effect loose rescued a b)
    (table : b.core.jobs.get? parent_job_id = some record) (found : b.core.records[record]? = some parent)
    (registered : Registered b parent_job_id child_job_id) : child_job_id ∈ parent.child_job_ids := by
  have child := chained.registered effect registered
  cases here : a.core.jobs.get? parent_job_id with
  | some old =>
      have place : old = record := Option.some.inj ((effect.grown.jobs here).symm.trans table)
      subst place
      rcases child with earlier | ⟨ref,_,after,same_table,_,_,after_there,listed⟩
      · obtain ⟨r,there,_⟩ := chained.grounded.tabled parent_job_id old here
        obtain ⟨r',now_there,moved⟩ := effect.grown.tracks old r there
        cases found.symm.trans now_there
        exact moved.child_job_ids (chained.listed parent_job_id old r here there child_job_id earlier)
      · have same : ref = old := Option.some.inj (same_table.symm.trans here)
        subst same
        exact (Option.some.inj (found.symm.trans after_there)) ▸ listed
  | none =>
      have absent : parent_job_id ∉ a.core.jobs := Dict.get?_eq_none.mp here
      have own : parent.job_id = parent_job_id := by
        obtain ⟨r,there,own⟩ := grounded.tabled parent_job_id record table
        exact (Option.some.inj (found.symm.trans there)) ▸ own
      have earlier : Registered a parent_job_id child_job_id := by
        rcases child with earlier | ⟨ref,_,_,adopting,_⟩
        · exact earlier
        · exact absurd (Dict.mem_keys_iff.mpr ⟨ref,adopting⟩) absent
      have beyond : a.core.records.length ≤ record := by
        by_contra inside
        have old := Nat.lt_of_not_le inside
        obtain ⟨r',there,moved⟩ := effect.grown.tracks record _ (List.getElem?_eq_getElem old)
        have same : parent = r' := Option.some.inj (found.symm.trans there)
        have before := chained.grounded.sole record _ (List.getElem?_eq_getElem old)
        rw [← moved.job_id,← same,own,here] at before
        cases before
      rcases effect.entered record parent found beyond with pending | ⟨nothing,_⟩
      · exact chained.unlisted parent_job_id absent parent (.inl (own ▸ pending)) child_job_id earlier
      · rcases chained.parents _ _ earlier with member | ⟨stored,there⟩
        · exact absurd member absent
        · rw [own,there] at nothing
          cases nothing

theorem Chained.unlisted_step (chained : Chained a) (effect : Effect loose rescued a b) (absent : parent_job_id ∉ b.core.jobs)
    (source : Pending b parent_job_id parent ∨ b.storage.load parent_job_id = some parent)
    (registered : Registered b parent_job_id child_job_id) : child_job_id ∈ parent.child_job_ids := by
  have before : ∀ record, a.core.jobs.get? parent_job_id ≠ some record :=
    fun record table => absent (Dict.mem_keys_iff.mpr ⟨record,effect.grown.jobs table⟩)
  have outside : parent_job_id ∉ a.core.jobs := by
    intro member
    obtain ⟨record,table⟩ := Dict.mem_keys_iff.mp member
    exact before record table
  have earlier : Registered a parent_job_id child_job_id := by
    rcases chained.registered effect registered with earlier | ⟨ref,_,_,adopting,_⟩
    · exact earlier
    · exact absurd adopting (before ref)
  rcases source with pending | stored
  · exact chained.unlisted parent_job_id outside parent (effect.fetches parent_job_id parent pending) child_job_id earlier
  · rcases effect.saves parent_job_id with same | ⟨other,saved,other_there,own,_⟩ | ⟨saved,rescue,own,now⟩
    · exact chained.unlisted parent_job_id outside parent (.inr (same.symm.trans stored)) child_job_id earlier
    · exact absurd (own ▸ chained.grounded.sole other saved other_there) (before other)
    · cases stored.symm.trans now
      obtain ⟨record,pending,_,children⟩ := effect.rescues parent rescue
      rw [children]
      exact chained.unlisted parent_job_id outside record (.inl (own ▸ pending)) child_job_id earlier

theorem next_walks (chained : Chained a) (reached : Reached a (.work (.resume i now event)))
    (ready : a.ready (.resume i now event) = true) (here : a.core.tasks[i]? = some (.cancel_job before))
    (next : CancelNext a.core before event point) (walks : Walks a parent_job_id before) :
    Walks (a.act (.work (.resume i now event))) parent_job_id point := by
  have grown := (act_effect chained.grounded reached.unshared).grown
  cases next with
  | stay => exact Walks.step grown walks
  | loaded => simp [Archive.ready] at ready
  | @mark record still =>
      obtain ⟨r,found,_⟩ := open_record still
      refine ⟨grown.jobs walks,r.close .cancelled (r.error_or "cancelled by user") now,?_,
        terminal_close .cancelled _ now r (by decide)⟩
      simp [act,ready,work,apply,here,cancel_job,still,State.goto,State.write,found]
  | @saved record =>
      obtain ⟨table,r,found,terminal⟩ := walks
      have walked : Walked a parent_job_id ((a.core.records[record]?.map JobRecord.child_job_ids).getD []) :=
        ⟨record,r,table,found,terminal,fun child_job_id member => .inl (by simpa [found] using member)⟩
      exact Walked.step grown walked
  | @absent child_id rest nothing =>
      have member := reached.in_memory child_id (by simp [visits,here])
      exact absurd member (Dict.get?_eq_none.mp nothing)
  | @closed child_id child rest table closed =>
      obtain ⟨record,parent,parent_table,found,terminal,children⟩ := walks
      have behind : Closed a child_id := by
        obtain ⟨r,there,_⟩ := chained.grounded.tabled child_id child table
        exact ⟨child,r,table,there,by simpa [State.terminal,there] using closed⟩
      have walked : Walked a parent_job_id rest := by
        refine ⟨record,parent,parent_table,found,terminal,fun child_job_id member => ?_⟩
        rcases children child_job_id member with ahead | done
        · rcases List.mem_cons.mp ahead with rfl | later
          · exact .inr behind
          · exact .inl later
        · exact .inr done
      exact Walked.step grown walked
  | @child child_id child rest table still =>
      obtain ⟨record,parent,parent_table,found,terminal,children⟩ := Walked.step grown walks
      obtain ⟨r,there,_⟩ := open_record still
      have behind : Closed (a.act (.work (.resume i now .resumed))) child_id := by
        refine ⟨child,r.close .cancelled (r.error_or "cancelled by parent") now,grown.jobs table,?_,
          terminal_close .cancelled _ now r (by decide)⟩
        simp [act,ready,work,apply,here,cancel_job,table,still,State.goto,State.write,there]
      refine ⟨record,parent,parent_table,found,terminal,fun child_job_id member => ?_⟩
      rcases children child_job_id member with ahead | done
      · rcases List.mem_cons.mp ahead with rfl | later
        · exact .inr behind
        · exact .inl later
      · exact .inr done
  | backed => exact Walked.step grown walks
  | failed => exact Walked.step grown walks

theorem act_chained (chained : Chained a) (reached : Reached a deed) : Chained (a.act deed) := by
  have grounded := act_grounded chained.grounded reached.unshared
  have effect := act_effect chained.grounded reached.unshared
  have done := act_done a deed
  refine ⟨grounded,fun _ _ _ => chained.agree_step effect,fun _ _ => chained.filed_step effect,
    fun _ _ => chained.parents_step effect,fun _ _ _ table found _ => chained.listed_step grounded effect table found,
    fun _ absent _ source _ => chained.unlisted_step effect absent source,?_,?_⟩
  · intro i point here
    cases done.arrives reached.unshared here with
    | same was =>
        obtain ⟨job_id,call,walks⟩ := chained.calls i point was
        exact ⟨job_id,done.old_calls chained.grounded call,walks.step effect.grown⟩
    | @missing job_id new table =>
        subst new
        exact ⟨job_id,Dict.get?_set_self _ _ _,rfl⟩
    | @found job_id record new table =>
        subst new
        exact ⟨job_id,Dict.get?_set_self _ _ _,table⟩
    | @settled job_id record was pending fresh table =>
        obtain ⟨id,call,walks⟩ := chained.calls i _ was
        cases walks
        exact ⟨job_id,done.old_calls chained.grounded call,table⟩
    | @next before now event _ was ready step =>
        obtain ⟨job_id,call,walks⟩ := chained.calls i before was
        exact ⟨job_id,done.old_calls chained.grounded call,next_walks chained reached ready was step walks⟩
  · intro i member
    rcases done.returned member with old | here
    · obtain ⟨job_id,call,walked⟩ := chained.returned i old
      exact ⟨job_id,done.old_calls chained.grounded call,walked.step effect.grown⟩
    · obtain ⟨job_id,call,walked⟩ := chained.calls i _ here
      exact ⟨job_id,done.old_calls chained.grounded call,Walked.step effect.grown walked⟩

theorem Chained.covered (chained : Chained a) (walked : Walked a parent_job_id []) : Covered a parent_job_id := by
  intro child_job_id registered
  obtain ⟨record,parent,table,found,_,children⟩ := walked
  rcases children child_job_id (chained.listed parent_job_id record parent table found child_job_id registered) with
    ahead | ⟨child,r,child_table,there,terminal⟩
  · cases ahead
  · exact ⟨r,by simp only [current,child_table]; exact there,terminal⟩

end

theorem boot_chained {storage : Storage} (listed : Listed storage) : Chained (boot storage) where
  grounded := boot_grounded storage
  agree := by
    intro record r stored found
    cases found
  filed := by
    rintro job_id r (⟨k,here⟩ | ⟨i,here,_⟩ | ⟨k,now,here⟩) <;> cases here
  parents := by
    rintro parent_job_id child_job_id (⟨record,r,found,_⟩ | ⟨r,found,child⟩)
    · cases found
    · obtain ⟨parent,there,_⟩ := listed child_job_id r found parent_job_id child
      exact .inr ⟨parent,there⟩
  listed := by
    intro parent_job_id record parent table
    cases table
  unlisted := by
    rintro parent_job_id _ parent source child_job_id (⟨record,r,found,_⟩ | ⟨r,found,child⟩)
    · cases found
    · obtain ⟨parent',there,member⟩ := listed child_job_id r found parent_job_id child
      rcases source with (⟨k,here⟩ | ⟨i,here,_⟩ | ⟨k,now,here⟩) | stored
      · cases here
      · cases here
      · cases here
      · exact (Option.some.inj (stored.symm.trans there)) ▸ member
  calls := by
    intro i point here
    cases here
  returned := by
    intro i member
    cases member

-- A state that comes after `a`, where the walk of a cancel of the parent is through.
def Past (parent_job_id : String) (a b : Archive) : Prop :=
  Chained b ∧ Walked b parent_job_id [] ∧
    ∀ child_job_id, Registered b parent_job_id child_job_id → Registered a parent_job_id child_job_id

-- Over any interleaving of the round loop, the children's runs, cancels, reads, loads, saves
-- and the recovery in which the walks find their children in memory: when the cancel of a
-- parent has returned, its children are terminal and stay so, and no other child comes after
-- them.
theorem chain_covered {storage : Storage} (listed : Listed storage) {deeds more : List Deed} {a b : Archive}
    (path : Runs (fun a deed b => Reached a deed ∧ b = a.act deed) (boot storage) deeds a)
    (later : Runs (fun a deed b => Reached a deed ∧ b = a.act deed) a more b) :
    ∀ i ∈ a.returned, ∀ parent_job_id, a.calls.get? i = some parent_job_id →
      Covered a parent_job_id ∧ Covered b parent_job_id ∧
        ∀ child_job_id, Registered b parent_job_id child_job_id → Registered a parent_job_id child_job_id := by
  have chained : Chained a := by
    refine path.invariant (boot_chained listed) ?_
    intro before deed after chained step
    obtain ⟨reached,rfl⟩ := step
    exact act_chained chained reached
  intro i member parent_job_id call
  obtain ⟨job_id,same,walked⟩ := chained.returned i member
  cases call.symm.trans same
  have after : Past parent_job_id a b := by
    refine later.invariant ⟨chained,walked,fun _ registered => registered⟩ ?_
    intro before deed after held step
    obtain ⟨chained,walked,known⟩ := held
    obtain ⟨reached,rfl⟩ := step
    have effect := act_effect chained.grounded reached.unshared
    refine ⟨act_chained chained reached,Walked.step effect.grown walked,fun child_job_id registered => ?_⟩
    rcases chained.registered effect registered with old | ⟨parent,r,_,table,found,opened,_⟩
    · exact known child_job_id old
    · obtain ⟨record,closed,there,closed_found,terminal,_⟩ := walked
      cases there.symm.trans table
      cases closed_found.symm.trans found
      exact absurd terminal opened
  exact ⟨chained.covered walked,after.1.covered after.2.1,after.2.2⟩

-- A parent and a child whose first round was running when an earlier process ended.
def interrupted : Storage :=
  (Storage.empty.save { job_id := "parent", status := .running, submitted_at := 0, child_job_ids := ["child"] }).save
    { job_id := "child", status := .running, submitted_at := 1, parent_job_id := some "parent" }

def cancelled_parent : List Deed :=
  [.work (.cancel "parent"),.fetch 0 true,.settle 0,.work (.resume 0 5 .resumed),.save 0,.work (.resume 0 6 .resumed),
    .work (.resume 0 7 .resumed),.work (.resume 0 8 .resumed),.work (.resume 0 9 .resumed)]

-- A chain of this process: the first child is registered, and the parent is cancelled then.
def cancelled_chain : List Deed :=
  [.work (.submit "parent" (some ⟨3,false,"600.0"⟩) 0),.work (.resume 0 0 .resumed),.work (.resume 1 1 .resumed),
    .work (.resume 1 2 (.child_built "child")),.work (.cancel "parent"),.work (.resume 2 5 .resumed),.save 2,
    .work (.resume 2 6 .resumed),.work (.resume 2 7 .resumed),.work (.resume 2 8 .resumed),.work (.resume 2 9 .resumed)]

theorem listed_empty : Listed Storage.empty := by
  intro child_job_id r found
  cases found

theorem chain_covered_first_round :
    Covered (cancelled_chain.foldl act (boot Storage.empty)) "parent" ∧
      ∀ child_job_id, Registered ([Deed.work (.resume 1 3 .resumed)].foldl act (cancelled_chain.foldl act (boot Storage.empty)))
        "parent" child_job_id → Registered (cancelled_chain.foldl act (boot Storage.empty)) "parent" child_job_id :=
  have whole := chain_covered listed_empty (Runs.of_admits (by decide +kernel)) (Runs.of_admits (by decide +kernel)) 2
    (by decide +kernel) "parent" (by decide +kernel)
  ⟨whole.1,whole.2.2⟩

-- The child of the interrupted parent is not in memory: the walk passes it by.
theorem chain_uncovered : ¬ ∀ storage deeds a, Runs (fun a deed b => b = Archive.act a deed) (boot storage) deeds a →
    ∀ i ∈ a.returned, ∀ parent_job_id, a.calls.get? i = some parent_job_id → Covered a parent_job_id := by
  intro always
  have covered := always interrupted _ _ (Runs.of_foldl act (boot interrupted) cancelled_parent) 0 (by decide +kernel)
    "parent" (by decide +kernel)
  obtain ⟨r,now,terminal⟩ := covered "child" (.inr ⟨_,rfl,rfl⟩)
  have shown : ((cancelled_parent.foldl act (boot interrupted)).current "child").map JobRecord.status = some .running := by
    decide +kernel
  rw [now,Option.map_some] at shown
  have running : r.status = .running := Option.some.inj shown
  change r.status ∈ TERMINAL_JOB_STATUSES at terminal
  rw [running] at terminal
  revert terminal
  decide

end Lumilake.Jobs.Archive

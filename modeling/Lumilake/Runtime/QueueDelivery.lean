import Lumilake.Runtime.QueueItems

-- Wake-ups, and what a run of the queue delivers.
namespace Lumilake.TSQueue
universe u
variable {α : Type u} {id : Nat} {s t : System α} {q q' : Shared α} {c c' : Call α}

-- The waiters a call is about to schedule a wake-up for.
def Call.notifies : Call α → List Nat
  | .notify _ waiters => waiters
  | _ => []

-- A call about to take every registered waiter.
def Call.wakes : Call α → Bool
  | .close_place => true
  | .wake _ => true
  | _ => false

def Call.leaving : Call α → Option Nat
  | .leave _ w _ => some w
  | _ => none

-- A wake-up for the waiter is under way or has run.
def Reached (s : System α) (w : Nat) : Prop :=
  w ∈ s.queue.scheduled ∨ w ∈ s.queue.woken ∨ ∃ c ∈ s.calls, w ∈ c.notifies

def Registered (s : System α) (w : Nat) : Prop := w ∈ s.queue.waiters ∨ Reached s w

def Covered (s : System α) (w : Nat) : Prop := Reached s w ∨ w ∈ s.queue.waiters ∧ ∃ c ∈ s.calls, c.wakes = true

def Call.Watched (s : System α) : Call α → Prop
  | .relook _ w => Registered s w
  | .empty_again _ w => Registered s w ∧ (s.queue.entries ≠ [] → Covered s w)
  | .waiting _ w => Registered s w ∧ (s.queue.entries ≠ [] ∨ s.queue.closed = true → Covered s w)
  | .unwrap _ _ => s.queue.closed = true
  | .unwrap_all _ => s.queue.closed = true
  | .close_place => s.queue.closed = true
  | _ => True

structure Waking (s : System α) : Prop where
  signal_closed : .close_signal ∈ s.queue.entries → s.queue.closed = true
  watched : ∀ c ∈ s.calls, c.Watched s
  old_waiters : ∀ c ∈ s.calls, ∀ w, c.waiter = some w → w < s.queue.next_waiter
  own_waiters : ∀ (i j : Nat) (c d : Call α) (w : Nat), s.calls[i]? = some c → s.calls[j]? = some d →
    c.waiter = some w → d.waiter = some w → i = j

-- What the move of one call does to wake-ups, closing and waiters.
structure Turned (q : Shared α) (c : Call α) (q' : Shared α) (c' : Call α) : Prop where
  reached : ∀ w, w ∈ q.scheduled ∨ w ∈ q.woken ∨ w ∈ c.notifies → w ∈ q'.scheduled ∨ w ∈ q'.woken ∨ w ∈ c'.notifies
  waiters : ∀ w ∈ q.waiters, w ∈ q'.waiters ∨ w ∈ c'.notifies ∨ c.leaving = some w
  wakes : c.wakes = true → c'.wakes = true ∨ ∀ w ∈ q.waiters, w ∈ c'.notifies
  entries : q'.entries ≠ [] → q.entries ≠ [] ∨ c'.wakes = true
  signal : .close_signal ∈ q'.entries → .close_signal ∈ q.entries ∨ q.closed = true
  shut : q.closed = true → q'.closed = true
  closed : q'.closed = true → q.closed = true ∨ c'.wakes = true
  waiter : ∀ w, c'.waiter = some w → c.waiter = some w ∨ w = q.next_waiter ∧ w < q'.next_waiter
  fresh : q.next_waiter ≤ q'.next_waiter

-- A move that leaves the waiters and the flag as they are and adds nothing to the queue.
theorem Turned.quiet (entries : q'.entries ⊆ q.entries) (closed : q'.closed = q.closed) (waiters : q'.waiters = q.waiters)
    (scheduled : q'.scheduled = q.scheduled) (woken : q'.woken = q.woken) (next : q'.next_waiter = q.next_waiter)
    (notifies : c.notifies = []) (wakes : c.wakes = false) (waiter : ∀ w, c'.waiter = some w → c.waiter = some w) :
    Turned q c q' c' where
  reached w := by rw [scheduled,woken,notifies]; simp only [List.not_mem_nil,or_false]; exact fun was => was.elim .inl (fun was => .inr (.inl was))
  waiters w was := .inl (waiters ▸ was)
  wakes was := by rw [wakes] at was; cases was
  entries some := .inl (fun none => some (List.eq_nil_of_subset_nil (none ▸ entries)))
  signal was := .inl (entries was)
  shut was := closed.trans was
  closed was := .inl (closed ▸ was)
  waiter w has := .inl (waiter w has)
  fresh := Nat.le_of_eq next.symm

theorem got_waiter (want : Want) (item : Item α) : (got want item).waiter = none := by cases want <;> rfl

theorem looked_empty_waiter (want : Want) : (looked_empty want : Call α).waiter = none := by cases want <;> rfl

theorem turned_of_advance (shuts : c.Watched ⟨q,calls⟩) (done : advance id q c = some (q',c')) : Turned q c q' c' := by
  have quiet {q' : Shared α} {c' : Call α} (entries : q'.entries ⊆ q.entries) (same : q' = { q with entries := q'.entries, taken := q'.taken })
      (notifies : c.notifies = []) (wakes : c.wakes = false) (waiter : ∀ w, c'.waiter = some w → c.waiter = some w) : Turned q c q' c' := by
    rw [same]
    exact .quiet entries rfl rfl rfl rfl rfl notifies wakes waiter
  have gone {c' : Call α} (nothing : c'.waiter = none) : ∀ w, c'.waiter = some w → c.waiter = some w := by
    intro w has
    rw [nothing] at has
    cases has
  have rest_of {e : Entry α} {rest : List (Entry α)} (front : q.entries = e :: rest) : rest ⊆ q.entries :=
    front ▸ List.subset_cons_self e rest
  cases c with
  | look want =>
      simp only [advance] at done
      split at done
      · cases done; exact quiet (List.Subset.refl _) rfl rfl rfl (gone (looked_empty_waiter want))
      · rename_i front
        cases done; exact quiet (rest_of front) rfl rfl rfl (gone (got_waiter want _))
      · rename_i front
        cases done; exact quiet (rest_of front) rfl rfl rfl (gone rfl)
  | relook want w =>
      simp only [advance] at done
      split at done
      · cases done; exact quiet (List.Subset.refl _) rfl rfl rfl (fun _ has => has)
      · rename_i front
        cases done; exact quiet (rest_of front) rfl rfl rfl (fun _ has => has)
      · rename_i front
        cases done; exact quiet (rest_of front) rfl rfl rfl (fun _ has => has)
  | take held =>
      simp only [advance] at done
      split at done
      · cases done; exact quiet (List.Subset.refl _) rfl rfl rfl (gone rfl)
      · rename_i front
        cases done; exact quiet (rest_of front) rfl rfl rfl (gone rfl)
      · rename_i front
        cases done; exact quiet (rest_of front) rfl rfl rfl (gone rfl)
  | empty_seen want =>
      cases done
      refine quiet (List.Subset.refl _) rfl rfl rfl (gone ?_)
      split
      · rfl
      · split <;> rfl
  | empty_again want w =>
      cases done
      refine quiet (List.Subset.refl _) rfl rfl rfl fun v has => ?_
      split at has <;> exact has
  | waiting want w =>
      simp only [advance] at done
      split at done
      · cases done; exact quiet (List.Subset.refl _) rfl rfl rfl (fun _ has => has)
      · cases done
  | unwrap want waiter =>
      cases done
      have same : { q with closed := true } = q := congrArg (fun closed => { q with closed }) (show true = q.closed from shuts.symm)
      rw [same]
      refine quiet (List.Subset.refl _) rfl rfl rfl fun v has => ?_
      cases waiter with
      | some w => exact has
      | none => cases has
  | unwrap_all held =>
      cases done
      have same : { q with closed := true } = q := congrArg (fun closed => { q with closed }) (show true = q.closed from shuts.symm)
      rw [same]
      exact quiet (List.Subset.refl _) rfl rfl rfl (gone rfl)
  | more held =>
      cases done
      refine quiet (List.Subset.refl _) rfl rfl rfl (gone ?_)
      split <;> rfl
  | put_check obj =>
      cases done
      refine quiet (List.Subset.refl _) rfl rfl rfl (gone ?_)
      split <;> rfl
  | close_check =>
      cases done
      refine quiet (List.Subset.refl _) rfl rfl rfl (gone ?_)
      split <;> rfl
  | sleeping want => cases done; exact quiet (List.Subset.refl _) rfl rfl rfl (gone rfl)
  | leave want w after =>
      cases done
      refine ⟨fun v was => ?_,fun v was => ?_,fun was => ?_,.inl,.inl,fun was => was,.inl,fun v has => ?_,Nat.le_refl _⟩
      · exact was.imp_right (fun was => was.imp_right (fun none => absurd none List.not_mem_nil))
      · by_cases same : v = w
        · subst same; exact .inr (.inr rfl)
        · exact .inl (List.mem_filter.mpr ⟨was,decide_eq_true same⟩)
      · cases was
      · cases after with
        | again => cases has
        | found item => rw [got_waiter] at has; cases has
        | raise => cases has
  | make_waiter want =>
      cases done
      refine ⟨fun v was => was,fun v was => .inl (List.mem_cons_of_mem _ was),fun was => ?_,.inl,.inl,fun was => was,.inl,?_,Nat.le_succ _⟩
      · cases was
      · intro v has
        cases has
        exact .inr ⟨rfl,Nat.lt_succ_self _⟩
  | put_place obj =>
      cases done
      refine ⟨fun v was => was,fun v was => .inl was,fun was => ?_,fun _ => .inr rfl,fun was => .inl ?_,fun was => was,.inl,?_,Nat.le_refl _⟩
      · cases was
      · rcases List.mem_append.mp was with old | last
        · exact old
        · cases List.mem_singleton.mp last
      · intro v has
        cases has
  | close_flag =>
      cases done
      refine ⟨fun v was => was,fun v was => .inl was,fun was => ?_,.inl,.inl,fun _ => rfl,fun _ => .inr rfl,?_,Nat.le_refl _⟩
      · cases was
      · intro v has
        cases has
  | close_place =>
      cases done
      refine ⟨fun v was => was,fun v was => .inl was,fun _ => .inl rfl,fun _ => .inr rfl,fun _ => .inr shuts,fun was => was,.inl,?_,Nat.le_refl _⟩
      intro v has
      cases has
  | wake put =>
      cases done
      refine ⟨fun v was => ?_,fun v was => .inr (.inl was),fun _ => .inr (fun v was => was),.inl,.inl,fun was => was,.inl,?_,Nat.le_refl _⟩
      · exact was.imp_right (fun was => was.imp_right (fun none => absurd none List.not_mem_nil))
      · intro v has
        cases has
  | notify put waiters =>
      cases waiters with
      | nil => cases done; exact quiet (List.Subset.refl _) rfl rfl rfl (gone rfl)
      | cons w ws =>
          cases done
          refine ⟨?_,fun v was => .inl was,fun was => ?_,.inl,.inl,fun was => was,.inl,?_,Nat.le_refl _⟩
          · rintro v (was | was | was)
            · exact .inl (List.mem_cons_of_mem _ was)
            · exact .inr (.inl was)
            · rcases List.mem_cons.mp was with rfl | later
              · exact .inl List.mem_cons_self
              · exact .inr (.inr later)
          · cases was
          · intro v has
            cases has
  | returned held | raised held | put_refused | finished put => cases done

theorem turned_of_cancelled (done : cancelled c = some c') : Turned q c q c' := by
  cases c with
  | waiting want w => cases done; exact .quiet (List.Subset.refl _) rfl rfl rfl rfl rfl rfl rfl (fun _ has => has)
  | sleeping want => cases done; exact .quiet (List.Subset.refl _) rfl rfl rfl rfl rfl rfl rfl (fun _ has => by cases has)
  | _ => cases done

theorem mem_set_self (here : s.calls[id]? = some c) : c' ∈ s.calls.set id c' :=
  List.mem_set (List.getElem?_eq_some_iff.mp here).1 c'

-- A call other than the one that moves is still there.
theorem mem_set_other {d : Call α} (there : d ∈ s.calls) (here : s.calls[id]? = some c) : d = c ∨ d ∈ s.calls.set id c' := by
  obtain ⟨j,found⟩ := List.mem_iff_getElem?.mp there
  by_cases same : j = id
  · subst same
    exact .inl (Option.some.inj (found.symm.trans here))
  · exact .inr (List.mem_iff_getElem?.mpr ⟨j,by rw [List.getElem?_set_ne (Ne.symm same)]; exact found⟩)

section
variable (here : s.calls[id]? = some c) (turned : Turned s.queue c q' c')
include here turned

theorem reached_turn {w : Nat} (was : Reached s w) : Reached ⟨q',s.calls.set id c'⟩ w := by
  have own (was : w ∈ s.queue.scheduled ∨ w ∈ s.queue.woken ∨ w ∈ c.notifies) : Reached ⟨q',s.calls.set id c'⟩ w :=
    (turned.reached w was).imp_right (fun now => now.imp_right (fun now => ⟨c',mem_set_self here,now⟩))
  rcases was with was | was | ⟨d,there,was⟩
  · exact own (.inl was)
  · exact own (.inr (.inl was))
  · rcases mem_set_other there here with rfl | there
    · exact own (.inr (.inr was))
    · exact .inr (.inr ⟨d,there,was⟩)

theorem registered_turn {w : Nat} (stays : c.leaving ≠ some w) (was : Registered s w) : Registered ⟨q',s.calls.set id c'⟩ w := by
  rcases was with was | was
  · rcases turned.waiters w was with now | now | left
    · exact .inl now
    · exact .inr (.inr (.inr ⟨c',mem_set_self here,now⟩))
    · exact absurd left stays
  · exact .inr (reached_turn here turned was)

-- A call that is about to take the waiters covers all of them.
theorem covered_turn {w : Nat} (stays : c.leaving ≠ some w) (was : Covered s w) : Covered ⟨q',s.calls.set id c'⟩ w := by
  rcases was with was | ⟨waits,d,there,wakes⟩
  · exact .inl (reached_turn here turned was)
  · rcases registered_turn here turned stays (.inl waits) with now | now
    · rcases mem_set_other there here with rfl | there
      · rcases turned.wakes wakes with still | all
        · exact .inr ⟨now,c',mem_set_self here,still⟩
        · exact .inl (.inr (.inr ⟨c',mem_set_self here,all w waits⟩))
      · exact .inr ⟨now,d,there,wakes⟩
    · exact .inl now

omit turned in
theorem covered_wakes {w : Nat} (wakes : c'.wakes = true) (now : Registered ⟨q',s.calls.set id c'⟩ w) :
    Covered ⟨q',s.calls.set id c'⟩ w :=
  now.elim (fun waits => .inr ⟨waits,c',mem_set_self here,wakes⟩) .inl

-- What a call is owed survives a move that does not drop its waiter.
theorem watched_turn {d : Call α} (stays : ∀ w, d.waiter = some w → c.leaving ≠ some w) (was : d.Watched s) :
    d.Watched ⟨q',s.calls.set id c'⟩ := by
  cases d with
  | relook want w => exact registered_turn here turned (stays w rfl) was
  | empty_again want w =>
      have now := registered_turn here turned (stays w rfl) was.1
      refine ⟨now,fun some => ?_⟩
      rcases turned.entries some with before | wakes
      · exact covered_turn here turned (stays w rfl) (was.2 before)
      · exact covered_wakes here wakes now
  | waiting want w =>
      have now := registered_turn here turned (stays w rfl) was.1
      refine ⟨now,fun some => ?_⟩
      rcases some with some | closed
      · rcases turned.entries some with before | wakes
        · exact covered_turn here turned (stays w rfl) (was.2 (.inl before))
        · exact covered_wakes here wakes now
      · rcases turned.closed closed with before | wakes
        · exact covered_turn here turned (stays w rfl) (was.2 (.inr before))
        · exact covered_wakes here wakes now
  | unwrap want waiter | unwrap_all held | close_place => exact turned.shut was
  | _ => exact trivial

theorem Waking.move (waking : Waking s) (own : c'.Watched ⟨q',s.calls.set id c'⟩) : Waking ⟨q',s.calls.set id c'⟩ := by
  have mine : c ∈ s.calls := List.mem_iff_getElem?.mpr ⟨id,here⟩
  -- A waiter of the call that moves is its own or new.
  have apart {j : Nat} {d : Call α} {w : Nat} (there : s.calls[j]? = some d) (other : j ≠ id) (has : d.waiter = some w) :
      c'.waiter ≠ some w := by
    intro now
    rcases turned.waiter w now with old | ⟨fresh,_⟩
    · exact other (waking.own_waiters j id d c w there here has old)
    · exact absurd (waking.old_waiters d (List.mem_iff_getElem?.mpr ⟨j,there⟩) w has) (by omega)
  refine ⟨fun signal => ?_,fun d there => ?_,fun d there w has => ?_,fun i j d e w left right has hers => ?_⟩
  · rcases turned.signal signal with before | closed
    · exact turned.shut (waking.signal_closed before)
    · exact turned.shut closed
  · obtain ⟨j,found⟩ := List.mem_iff_getElem?.mp there
    rcases mem_after found with ⟨rfl,rfl⟩ | ⟨other,old⟩
    · exact own
    · refine watched_turn here turned (fun w has left => ?_) (waking.watched d (List.mem_iff_getElem?.mpr ⟨j,old⟩))
      have leaves : c.waiter = some w := by cases c <;> cases left; rfl
      exact other (waking.own_waiters j id d c w old here has leaves)
  · obtain ⟨j,found⟩ := List.mem_iff_getElem?.mp there
    rcases mem_after found with ⟨rfl,rfl⟩ | ⟨other,old⟩
    · rcases turned.waiter w has with before | ⟨_,bound⟩
      · exact Nat.lt_of_lt_of_le (waking.old_waiters c mine w before) turned.fresh
      · exact bound
    · exact Nat.lt_of_lt_of_le (waking.old_waiters d (List.mem_iff_getElem?.mpr ⟨j,old⟩) w has) turned.fresh
  · rcases mem_after left with ⟨rfl,rfl⟩ | ⟨one,leftOld⟩
    · rcases mem_after right with ⟨rfl,rfl⟩ | ⟨two,rightOld⟩
      · rfl
      · exact absurd has (apart rightOld two hers)
    · rcases mem_after right with ⟨rfl,rfl⟩ | ⟨two,rightOld⟩
      · exact absurd hers (apart leftOld one has)
      · exact waking.own_waiters i j d e w leftOld rightOld has hers

end

-- What the moving call itself is owed next.
theorem watched_of_advance (waking : Waking s) (here : s.calls[id]? = some c) (done : advance id s.queue c = some (q',c')) :
    c'.Watched ⟨q',s.calls.set id c'⟩ := by
  have mine : c ∈ s.calls := List.mem_iff_getElem?.mpr ⟨id,here⟩
  have watched := waking.watched c mine
  have turned : Turned s.queue c q' c' := turned_of_advance watched done
  have signalled {rest : List (Entry α)} (front : s.queue.entries = .close_signal :: rest) : s.queue.closed = true :=
    waking.signal_closed (front ▸ List.mem_cons_self)
  cases c with
  | look want =>
      simp only [advance] at done
      split at done
      · cases done; cases want <;> exact trivial
      · cases done; cases want <;> exact trivial
      · rename_i front
        cases done; exact signalled front
  | make_waiter want => cases done; exact .inl List.mem_cons_self
  | relook want w =>
      have stays : (Call.relook want w : Call α).leaving ≠ some w := fun has => by cases has
      have registered := registered_turn here turned stays watched
      simp only [advance] at done
      split at done
      · rename_i empty
        cases done; exact ⟨registered,fun some => absurd empty some⟩
      · cases done; exact trivial
      · rename_i front
        cases done; exact signalled front
  | empty_again want w =>
      have stays : (Call.empty_again want w : Call α).leaving ≠ some w := fun has => by cases has
      have registered := registered_turn here turned stays watched.1
      have covered (some : s.queue.entries ≠ []) := covered_turn here turned stays (watched.2 some)
      cases done
      split
      · exact trivial
      · rename_i shut
        refine ⟨by simpa only [if_neg shut] using registered,fun some => ?_⟩
        rcases some with some | closed
        · simpa only [if_neg shut] using covered some
        · exact absurd closed shut
  | take held =>
      simp only [advance] at done
      split at done
      · cases done; exact trivial
      · cases done; exact trivial
      · rename_i front
        cases done; exact signalled front
  | empty_seen want =>
      cases done
      split
      · exact trivial
      · split <;> exact trivial
  | waiting want w =>
      simp only [advance] at done
      split at done
      · cases done; exact trivial
      · cases done
  | unwrap want waiter => cases done; cases waiter <;> exact trivial
  | leave want w after =>
      cases done
      cases after with
      | again | raise => exact trivial
      | found item => cases want <;> exact trivial
  | more held =>
      cases done
      split <;> exact trivial
  | put_check obj =>
      cases done
      split <;> exact trivial
  | close_check =>
      cases done
      split <;> exact trivial
  | close_flag => cases done; rfl
  | notify put waiters => cases waiters <;> cases done <;> exact trivial
  | sleeping want | unwrap_all held | put_place obj | close_place | wake put => cases done; exact trivial
  | returned held | raised held | put_refused | finished put => cases done

theorem Waking.call (waking : Waking s) (start : Start α) : Waking { s with calls := s.calls ++ [start.call] } := by
  have nothing : start.call.waiter = none := by cases start <;> rfl
  have reached {w : Nat} (was : Reached s w) : Reached { s with calls := s.calls ++ [start.call] } w :=
    was.imp_right (fun was => was.imp_right (fun ⟨d,there,was⟩ => ⟨d,List.mem_append_left _ there,was⟩))
  have registered {w : Nat} (was : Registered s w) : Registered { s with calls := s.calls ++ [start.call] } w := was.imp_right reached
  have covered {w : Nat} (was : Covered s w) : Covered { s with calls := s.calls ++ [start.call] } w :=
    was.imp reached (fun ⟨waits,d,there,wakes⟩ => ⟨waits,d,List.mem_append_left _ there,wakes⟩)
  refine ⟨waking.signal_closed,fun d there => ?_,fun d there w has => ?_,fun i j d e w left right has hers => ?_⟩
  · rcases List.mem_append.mp there with old | new
    · have was := waking.watched d old
      cases d with
      | relook want w => exact registered was
      | empty_again want w => exact ⟨registered was.1,fun some => covered (was.2 some)⟩
      | waiting want w => exact ⟨registered was.1,fun some => covered (was.2 some)⟩
      | unwrap want waiter | unwrap_all held | close_place => exact was
      | _ => exact trivial
    · rw [List.mem_singleton.mp new]
      cases start <;> exact trivial
  · rcases List.mem_append.mp there with old | new
    · exact waking.old_waiters d old w has
    · rw [List.mem_singleton.mp new,nothing] at has
      cases has
  · rcases mem_appended left with leftOld | ⟨_,rfl⟩
    · rcases mem_appended right with rightOld | ⟨_,rfl⟩
      · exact waking.own_waiters i j d e w leftOld rightOld has hers
      · rw [nothing] at hers
        cases hers
    · rw [nothing] at has
      cases has

theorem Waking.fire (waking : Waking s) (w : Nat) :
    Waking { s with queue := { s.queue with scheduled := s.queue.scheduled.erase w, woken := w :: s.queue.woken } } := by
  have reached {v : Nat} (was : Reached s v) :
      Reached { s with queue := { s.queue with scheduled := s.queue.scheduled.erase w, woken := w :: s.queue.woken } } v := by
    rcases was with was | was | was
    · by_cases same : v = w
      · exact .inr (.inl (same ▸ List.mem_cons_self))
      · exact .inl ((List.mem_erase_of_ne same).mpr was)
    · exact .inr (.inl (List.mem_cons_of_mem _ was))
    · exact .inr (.inr was)
  refine ⟨waking.signal_closed,fun d there => ?_,waking.old_waiters,waking.own_waiters⟩
  have was := waking.watched d there
  cases d with
  | relook want v => exact was.imp_right reached
  | empty_again want v => exact ⟨was.1.imp_right reached,fun some => (was.2 some).imp_left reached⟩
  | waiting want v => exact ⟨was.1.imp_right reached,fun some => (was.2 some).imp_left reached⟩
  | unwrap want waiter | unwrap_all held | close_place => exact was
  | _ => exact trivial

theorem Waking.step (waking : Waking s) (done : step s event = some t) : Waking t := by
  cases event with
  | call start => cases done; exact waking.call start
  | turn id =>
      simp only [TSQueue.step] at done
      split at done
      · rename_i c here
        obtain ⟨⟨q',c'⟩,moved,rfl⟩ := Option.map_eq_some_iff.mp done
        have turned := turned_of_advance (waking.watched c (List.mem_iff_getElem?.mpr ⟨id,here⟩)) moved
        exact waking.move here turned (watched_of_advance waking here moved)
      · cases done
  | cancel id =>
      simp only [TSQueue.step] at done
      split at done
      · rename_i c here
        obtain ⟨c',moved,rfl⟩ := Option.map_eq_some_iff.mp done
        refine waking.move here (turned_of_cancelled moved) ?_
        cases c <;> cases moved <;> exact trivial
      · cases done
  | fire w =>
      simp only [TSQueue.step] at done
      split at done
      · cases done; exact waking.fire w
      · cases done

theorem ledger_start : Ledger ({} : System α) where
  fifo := rfl
  held := .nil
  placed_once := .nil
  placed_known _ member := absurd member List.not_mem_nil
  standing _ _ here := by cases here

theorem waking_start : Waking ({} : System α) where
  signal_closed member := absurd member List.not_mem_nil
  watched _ member := absurd member List.not_mem_nil
  old_waiters _ member := absurd member List.not_mem_nil
  own_waiters _ _ _ _ _ here := by cases here

theorem waking_of_notifies {w : Nat} (due : w ∈ c.notifies) : c.waking = true := by
  cases c with
  | notify put waiters => rfl
  | _ => cases due

theorem waking_of_wakes (wakes : c.wakes = true) : c.waking = true := by
  cases c with
  | close_place | wake put => rfl
  | _ => cases wakes

theorem delivers_of_sound (ledger : Ledger s) (waking : Waking s) : Delivers s where
  once id obj here := by
    have whole : s.queue.placed.Perm (items s.queue.entries ++ s.calls.flatMap Call.items) := by
      rw [ledger.fifo]
      exact List.perm_append_comm.trans (ledger.held.append_left _)
    have placed : (id,obj) ∈ s.queue.placed := ledger.standing id _ here
    have nodup := (whole.map Prod.fst).nodup_iff.mp ledger.placed_once
    exact ⟨whole.mem_iff.mp placed,List.count_eq_one_of_mem nodup (List.mem_map_of_mem (whole.mem_iff.mp placed))⟩
  moving id c here holds := by
    have stands := ledger.standing id c here
    cases c with
    | returned held => exact .inl ⟨held,rfl⟩
    | raised held => exact absurd stands holds
    | leave want w after => exact .inr rfl
    | more held | unwrap_all held => exact .inr rfl
    | take held =>
        refine .inr ?_
        simp only [advance]
        split <;> rfl
    | _ => exact absurd rfl holds
  ordered := ledger.fifo
  kept held there := by
    obtain ⟨i,here⟩ := List.mem_iff_getElem?.mp there
    exact ledger.standing i _ here
  awake rest some want w there := by
    rcases (waking.watched _ there).2 some with (due | woken | ⟨d,member,due⟩) | ⟨_,d,member,wakes⟩
    · rw [rest.1] at due
      cases due
    · exact woken
    · exact absurd (waking_of_notifies due) (ne_true_of_eq_false (rest.2 d member))
    · exact absurd (waking_of_wakes wakes) (ne_true_of_eq_false (rest.2 d member))

theorem run_snoc {before : List (Event α)} {event : Event α} :
    run (before ++ [event]) = some t ↔ ∃ s, run before = some s ∧ step s event = some t := by
  simp only [run,List.foldlM_append,List.foldlM_cons,List.foldlM_nil,bind_pure]
  exact Option.bind_eq_some_iff

-- Every step of the run meets the condition in the state it is taken in.
def FitsAll (events : List (Event α)) : Prop :=
  ∀ before event, before ++ [event] <+: events → ∀ s t, run before = some s → step s event = some t → Fits s event

theorem sound_of_fits {events : List (Event α)} (fits : FitsAll events) (ran : run events = some s) : Ledger s ∧ Waking s := by
  induction events using List.reverseRecOn generalizing s with
  | nil =>
      cases ran
      exact ⟨ledger_start,waking_start⟩
  | append_singleton before event ih =>
      obtain ⟨earlier,ranBefore,done⟩ := run_snoc.mp ran
      have sound := ih (fun first event early => fits first event (early.trans (List.prefix_append _ _))) ranBefore
      exact ⟨sound.1.step (fits before event (List.prefix_refl _) earlier s ranBefore done) done,sound.2.step done⟩

-- A step that takes from a queue found empty since raises with the items in hand.
theorem dropped_of_misfit (ledger : Ledger s) (misfit : ¬ Fits s event) (done : step s event = some t) : ¬ Delivers t := by
  intro delivers
  apply misfit
  intro id held turn here empty
  subst turn
  have holds : held ≠ [] := ledger.standing id _ here
  have raised : step s (.turn id) = some ⟨s.queue,s.calls.set id (.raised held)⟩ := by
    simp only [step,here,advance,empty]
    rfl
  cases Option.some.inj (raised.symm.trans done)
  exact holds (delivers.kept held (mem_set_self here))

theorem fits_of_delivers {events : List (Event α)} (delivers : ∀ before, before <+: events → ∀ s, run before = some s → Delivers s)
    (first : List (Event α)) (early : first <+: events) : FitsAll first := by
  induction first using List.reverseRecOn with
  | nil =>
      intro before event shorter
      have none := List.prefix_nil.mp shorter
      exact absurd none (List.append_ne_nil_of_right_ne_nil _ (List.cons_ne_nil _ _))
  | append_singleton first last ih =>
      have fits := ih ((List.prefix_append _ _).trans early)
      intro before event shorter s t ran done
      rcases List.prefix_concat_iff.mp shorter with whole | shorter
      · obtain ⟨rfl,rfl⟩ := List.append_singleton_inj.mp whole
        by_contra misfit
        exact dropped_of_misfit (sound_of_fits fits ran).1 misfit done (delivers _ early t (run_snoc.mpr ⟨s,ran,done⟩))
      · exact fits before event shorter s t ran done

-- A run delivers in every state it reaches exactly when no `get_all` that has seen an
-- item finds the queue emptied by another consumer before it takes it.
theorem delivers_iff_fits (events : List (Event α)) :
    (∀ before, before <+: events → ∀ s, run before = some s → Delivers s) ↔ FitsAll events := by
  constructor
  · exact fun delivers => fits_of_delivers delivers events (List.prefix_refl _)
  · intro fits before early s ran
    have sound := sound_of_fits (fun first event shorter => fits first event (shorter.trans early)) ran
    exact delivers_of_sound sound.1 sound.2

-- Two puts; a `get_all` takes the first item and sees the second; another consumer takes
-- that one; the `get_all` raises and the first item is lost.
theorem drained_item_lost : ¬ ∀ (events : List (Event Nat)) s, run events = some s → Delivers s := by
  intro every
  have ran : ∃ s, run ([.call (.put 10),.turn 0,.turn 0,.turn 0,.turn 0,.call (.put 20),.turn 1,.turn 1,.turn 1,.turn 1,
      .call (.get (.get_all false)),.turn 2,.turn 2,.call (.get .nowait),.turn 3,.turn 2] : List (Event Nat)) = some s ∧
      .raised [(0,10)] ∈ s.calls := ⟨_,rfl,by decide⟩
  obtain ⟨s,done,lost⟩ := ran
  exact List.cons_ne_nil _ _ ((every _ s done).kept _ lost)

end Lumilake.TSQueue

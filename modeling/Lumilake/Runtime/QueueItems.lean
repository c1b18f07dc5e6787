import Mathlib.Data.List.Nodup
import Mathlib.Data.List.Perm.Basic
import Lumilake.Runtime.TSQueue

-- The ledger of the queue: what was placed is what was taken and then what is left, and
-- what was taken is with the calls.
namespace Lumilake.TSQueue
variable {α : Type u} {id : Nat} {placed : List (Item α)} {obj : α} {c c' : Call α} {q' : Shared α}

-- What a turn does with the items.
inductive Moved (id : Nat) (q : Shared α) (c : Call α) (q' : Shared α) (c' : Call α) : Prop where
  | still (entries : q'.entries = q.entries) (placed : q'.placed = q.placed) (taken : q'.taken = q.taken) (held : c'.items = c.items)
  | took (item : Item α) (rest : List (Entry α)) (front : q.entries = .item item :: rest) (entries : q'.entries = rest)
      (placed : q'.placed = q.placed) (taken : q'.taken = q.taken ++ [item]) (held : c'.items = c.items ++ [item])
  | signal (rest : List (Entry α)) (front : q.entries = .close_signal :: rest) (entries : q'.entries = rest)
      (placed : q'.placed = q.placed) (taken : q'.taken = q.taken) (held : c'.items = c.items)
  | put (obj : α) (here : c = .put_place obj) (there : c' = .wake (some obj)) (entries : q'.entries = q.entries ++ [.item (id,obj)])
      (placed : q'.placed = q.placed ++ [(id,obj)]) (taken : q'.taken = q.taken)
  | close (here : c = .close_place) (there : c' = .wake none) (entries : q'.entries = q.entries ++ [.close_signal])
      (placed : q'.placed = q.placed) (taken : q'.taken = q.taken)

theorem got_items (want : Want) (item : Item α) : (got want item).items = [item] := by cases want <;> rfl

theorem looked_empty_items (want : Want) : (looked_empty want : Call α).items = [] := by cases want <;> rfl

theorem moved_of_advance {id : Nat} {q q' : Shared α} {c c' : Call α} (done : advance id q c = some (q',c')) : Moved id q c q' c' := by
  cases c with
  | look want =>
      simp only [advance] at done
      split at done
      · cases done; exact .still rfl rfl rfl (looked_empty_items want)
      · rename_i item rest front
        cases done; exact .took item rest front rfl rfl rfl (got_items want item)
      · rename_i rest front
        cases done; exact .signal rest front rfl rfl rfl rfl
  | relook want w =>
      simp only [advance] at done
      split at done
      · cases done; exact .still rfl rfl rfl rfl
      · rename_i item rest front
        cases done; exact .took item rest front rfl rfl rfl rfl
      · rename_i rest front
        cases done; exact .signal rest front rfl rfl rfl rfl
  | take held =>
      simp only [advance] at done
      split at done
      · cases done; exact .still rfl rfl rfl rfl
      · rename_i item rest front
        cases done; exact .took item rest front rfl rfl rfl rfl
      · rename_i rest front
        cases done; exact .signal rest front rfl rfl rfl rfl
  | empty_seen want =>
      cases done
      refine .still rfl rfl rfl ?_
      split
      · rfl
      · split <;> rfl
  | empty_again want w =>
      cases done
      refine .still rfl rfl rfl ?_
      split <;> rfl
  | waiting want w =>
      simp only [advance] at done
      split at done
      · cases done; exact .still rfl rfl rfl rfl
      · cases done
  | unwrap want waiter =>
      cases done
      refine .still rfl rfl rfl ?_
      cases waiter <;> rfl
  | leave want w after =>
      cases done
      refine .still rfl rfl rfl ?_
      cases after with
      | again => rfl
      | found item => exact got_items want item
      | raise => rfl
  | more held =>
      cases done
      refine .still rfl rfl rfl ?_
      split <;> rfl
  | put_check obj =>
      cases done
      refine .still rfl rfl rfl ?_
      split <;> rfl
  | close_check =>
      cases done
      refine .still rfl rfl rfl ?_
      split <;> rfl
  | put_place obj => cases done; exact .put obj rfl rfl rfl rfl rfl
  | close_place => cases done; exact .close rfl rfl rfl rfl rfl
  | notify put waiters => cases waiters <;> cases done <;> exact .still rfl rfl rfl rfl
  | sleeping want | make_waiter want | unwrap_all held | close_flag | wake put => cases done; exact .still rfl rfl rfl rfl
  | returned held | raised held | put_refused | finished put => cases done

@[simp] theorem items_item (item : Item α) (rest : List (Entry α)) : items (.item item :: rest) = item :: items rest := rfl

@[simp] theorem items_signal (rest : List (Entry α)) : items (.close_signal :: rest) = items rest := rfl

theorem items_append (left right : List (Entry α)) : items (left ++ right) = items left ++ items right :=
  List.filterMap_append

-- What a call still stands for: a put that has not placed its item, one that has, and
-- what a call that holds items or raises has in hand.
def Call.Standing (placed : List (Item α)) (id : Nat) : Call α → Prop
  | .put_check _ => id ∉ placed.map Prod.fst
  | .put_place _ => id ∉ placed.map Prod.fst
  | .wake (some obj) => (id,obj) ∈ placed
  | .notify (some obj) _ => (id,obj) ∈ placed
  | .finished (some obj) => (id,obj) ∈ placed
  | .more held => held ≠ []
  | .take held => held ≠ []
  | .unwrap_all held => held ≠ []
  | .raised held => held = []
  | _ => True

structure Ledger (s : System α) : Prop where
  fifo : s.queue.placed = s.queue.taken ++ items s.queue.entries
  held : s.queue.taken.Perm (s.calls.flatMap Call.items)
  placed_once : (s.queue.placed.map Prod.fst).Nodup
  placed_known : ∀ id ∈ s.queue.placed.map Prod.fst, id < s.calls.length
  standing : ∀ id (c : Call α), s.calls[id]? = some c → c.Standing s.queue.placed id

theorem got_standing (want : Want) (item : Item α) : (got want item).Standing placed id := by
  cases want <;> simp [got,Call.Standing]

theorem looked_empty_standing (want : Want) : (looked_empty want : Call α).Standing placed id := by
  cases want <;> simp [looked_empty,Call.Standing]

theorem standing_of_advance {id : Nat} {q q' : Shared α} {c c' : Call α} (stands : c.Standing q.placed id)
    (fits : ∀ held, c = .take held → q.entries ≠ []) (done : advance id q c = some (q',c')) : c'.Standing q'.placed id := by
  cases c with
  | look want =>
      simp only [advance] at done
      split at done
      · cases done; exact looked_empty_standing want
      · cases done; exact got_standing want _
      · cases done; exact trivial
  | relook want w =>
      simp only [advance] at done
      split at done <;> cases done <;> exact trivial
  | take held =>
      simp only [advance] at done
      split at done
      · rename_i empty
        exact absurd empty (fits held rfl)
      · cases done; simp [Call.Standing]
      · cases done; exact stands
  | more held =>
      cases done
      split
      · exact trivial
      · exact stands
  | empty_seen want =>
      cases done
      split
      · rfl
      · split <;> exact trivial
  | empty_again want w =>
      cases done
      split <;> exact trivial
  | waiting want w =>
      simp only [advance] at done
      split at done
      · cases done; exact trivial
      · cases done
  | unwrap want waiter =>
      cases done
      cases waiter with
      | some w => exact trivial
      | none => rfl
  | leave want w after =>
      cases done
      cases after with
      | again => exact trivial
      | found item => exact got_standing want item
      | raise => rfl
  | put_check obj =>
      cases done
      split
      · exact trivial
      · exact stands
  | close_check =>
      cases done
      split <;> exact trivial
  | put_place obj => cases done; simp [Call.Standing]
  | wake put => cases done; cases put <;> exact stands
  | notify put waiters => cases waiters <;> cases done <;> cases put <;> exact stands
  | sleeping want | make_waiter want | unwrap_all held | close_flag | close_place => cases done; exact trivial
  | returned held | raised held | put_refused | finished put => cases done

-- The placing of another call's item changes nothing a call stands for.
theorem standing_grows {c : Call α} (stands : c.Standing placed i) (other : i ≠ id) : c.Standing (placed ++ [(id,obj)]) i := by
  have unplaced (before : i ∉ placed.map Prod.fst) : i ∉ (placed ++ [(id,obj)]).map Prod.fst := by
    simpa using ⟨by simpa using before,other⟩
  have kept {put : α} (before : (i,put) ∈ placed) : (i,put) ∈ placed ++ [(id,obj)] := List.mem_append_left _ before
  cases c with
  | put_check obj | put_place obj => exact unplaced stands
  | wake put | notify put waiters | finished put =>
      cases put with
      | none => exact trivial
      | some put => exact kept stands
  | _ => exact stands

theorem flatMap_set {β : Type u} {γ : Type v} {f : β → List γ} {xs : List β} {i : Nat} {x y : β} {more : List γ} (here : xs[i]? = some x)
    (grown : f y = f x ++ more) : ((xs.set i y).flatMap f).Perm (xs.flatMap f ++ more) := by
  obtain ⟨bound,found⟩ := List.getElem?_eq_some_iff.mp here
  have shape : xs = xs.take i ++ x :: xs.drop (i + 1) := by rw [←found,List.getElem_cons_drop,List.take_append_drop]
  have after : xs.set i y = xs.take i ++ y :: xs.drop (i + 1) := by rw [List.set_eq_take_append_cons_drop,if_pos bound]
  have before : xs.flatMap f = (xs.take i).flatMap f ++ (f x ++ (xs.drop (i + 1)).flatMap f) := by
    conv_lhs => rw [shape]
    simp only [List.flatMap_append,List.flatMap_cons]
  rw [after,before]
  simp only [List.flatMap_append,List.flatMap_cons,grown,List.append_assoc]
  exact (List.Perm.append_left _ (List.Perm.append_left _ List.perm_append_comm))

theorem mem_after {β : Type u} {xs : List β} {i j : Nat} {x y : β} (here : (xs.set i y)[j]? = some x) : j = i ∧ x = y ∨ j ≠ i ∧ xs[j]? = some x := by
  by_cases same : j = i
  · subst same
    obtain ⟨bound,found⟩ := List.getElem?_eq_some_iff.mp here
    rw [List.getElem_set_self] at found
    exact .inl ⟨rfl,found.symm⟩
  · rw [List.getElem?_set_ne (Ne.symm same)] at here
    exact .inr ⟨same,here⟩

theorem mem_appended {β : Type u} {xs : List β} {i : Nat} {x y : β} (here : (xs ++ [y])[i]? = some x) :
    xs[i]? = some x ∨ i = xs.length ∧ x = y := by
  rw [List.getElem?_append] at here
  split at here
  · exact .inl here
  · rw [List.getElem?_singleton] at here
    split at here
    · exact .inr ⟨by omega,(Option.some.inj here).symm⟩
    · cases here

theorem Ledger.turn {s : System α} (ledger : Ledger s) (here : s.calls[id]? = some c)
    (fits : ∀ held, c = .take held → s.queue.entries ≠ []) (done : advance id s.queue c = some (q',c')) :
    Ledger ⟨q',s.calls.set id c'⟩ := by
  have own := standing_of_advance (ledger.standing id c here) fits done
  have bound : id < s.calls.length := (List.getElem?_eq_some_iff.mp here).1
  -- The others stand as they did where nothing is placed.
  have others (placed : q'.placed = s.queue.placed) :
      ∀ i (d : Call α), (s.calls.set id c')[i]? = some d → d.Standing q'.placed i := by
    intro i d there
    rcases mem_after there with ⟨rfl,rfl⟩ | ⟨_,old⟩
    · exact own
    · rw [placed]
      exact ledger.standing i d old
  have known (placed : q'.placed = s.queue.placed) :
      ∀ i ∈ q'.placed.map Prod.fst, i < (s.calls.set id c').length := by
    rw [placed,List.length_set]
    exact ledger.placed_known
  cases moved_of_advance done with
  | still entries placed taken held =>
      refine ⟨?_,?_,?_,known placed,others placed⟩
      · rw [placed,taken,entries]
        exact ledger.fifo
      · rw [taken]
        exact ledger.held.trans (by simpa using (flatMap_set here (by rw [held,List.append_nil] : c'.items = c.items ++ [])).symm)
      · rw [placed]
        exact ledger.placed_once
  | took item rest front entries placed taken held =>
      refine ⟨?_,?_,?_,known placed,others placed⟩
      · rw [placed,taken,entries,ledger.fifo,front,items_item,List.append_assoc,List.singleton_append]
      · rw [taken]
        exact (ledger.held.append_right [item]).trans (flatMap_set here held).symm
      · rw [placed]
        exact ledger.placed_once
  | signal rest front entries placed taken held =>
      refine ⟨?_,?_,?_,known placed,others placed⟩
      · rw [placed,taken,entries,ledger.fifo,front,items_signal]
      · rw [taken]
        exact ledger.held.trans (by simpa using (flatMap_set here (by rw [held,List.append_nil] : c'.items = c.items ++ [])).symm)
      · rw [placed]
        exact ledger.placed_once
  | put obj before after entries placed taken =>
      subst before
      subst after
      have fresh : id ∉ s.queue.placed.map Prod.fst := ledger.standing id _ here
      refine ⟨?_,?_,?_,?_,?_⟩
      · rw [placed,taken,entries,ledger.fifo,items_append,List.append_assoc]
        rfl
      · rw [taken]
        exact ledger.held.trans (by simpa using (flatMap_set here (rfl : (Call.wake (some obj)).items = (Call.put_place obj).items ++ [])).symm)
      · rw [placed,List.map_append,List.map_singleton]
        exact List.nodup_append.mpr ⟨ledger.placed_once,List.nodup_singleton _,by
          intro i member j last
          rw [List.mem_singleton.mp last]
          rintro rfl
          exact fresh member⟩
      · intro i member
        rw [placed,List.map_append,List.map_singleton,List.mem_append,List.mem_singleton] at member
        rw [List.length_set]
        rcases member with old | rfl
        · exact ledger.placed_known i old
        · exact bound
      · intro i d there
        rcases mem_after there with ⟨rfl,rfl⟩ | ⟨other,old⟩
        · exact own
        · rw [placed]
          exact standing_grows (ledger.standing i d old) other
  | close before after entries placed taken =>
      subst before
      subst after
      refine ⟨?_,?_,?_,known placed,others placed⟩
      · rw [placed,taken,entries,ledger.fifo,items_append]
        exact congrArg _ (List.append_nil _).symm
      · rw [taken]
        exact ledger.held.trans (by simpa using (flatMap_set here (rfl : (Call.wake none : Call α).items = (Call.close_place).items ++ [])).symm)
      · rw [placed]
        exact ledger.placed_once

theorem cancelled_items {c c' : Call α} (done : cancelled c = some c') : c'.items = c.items := by
  cases c <;> cases done <;> rfl

theorem cancelled_standing {c c' : Call α} (done : cancelled c = some c') : c'.Standing placed id := by
  cases c <;> cases done
  · rfl
  · exact trivial

theorem Ledger.cancel {s : System α} (ledger : Ledger s) (here : s.calls[id]? = some c) (done : cancelled c = some c') :
    Ledger { s with calls := s.calls.set id c' } := by
  refine ⟨ledger.fifo,?_,ledger.placed_once,?_,?_⟩
  · exact ledger.held.trans (by simpa using (flatMap_set here (by rw [cancelled_items done,List.append_nil] : c'.items = c.items ++ [])).symm)
  · rw [List.length_set]
    exact ledger.placed_known
  · intro i d there
    rcases mem_after there with ⟨rfl,rfl⟩ | ⟨_,old⟩
    · exact cancelled_standing done
    · exact ledger.standing i d old

theorem Ledger.call {s : System α} (ledger : Ledger s) (start : Start α) : Ledger { s with calls := s.calls ++ [start.call] } := by
  have fresh : s.calls.length ∉ s.queue.placed.map Prod.fst := fun member => Nat.lt_irrefl _ (ledger.placed_known _ member)
  have nothing : start.call.items = [] := by cases start <;> rfl
  refine ⟨ledger.fifo,?_,ledger.placed_once,?_,?_⟩
  · simpa [List.flatMap_append,nothing] using ledger.held
  · intro i member
    rw [List.length_append]
    exact Nat.lt_add_right _ (ledger.placed_known i member)
  · intro i d there
    rcases mem_appended there with old | ⟨rfl,rfl⟩
    · exact ledger.standing i d old
    · cases start with
      | get want => exact trivial
      | put obj => exact fresh
      | close => exact trivial

theorem Ledger.step {s t : System α} (ledger : Ledger s) (fits : Fits s event) (done : step s event = some t) : Ledger t := by
  cases event with
  | call start => cases done; exact ledger.call start
  | turn id =>
      simp only [TSQueue.step] at done
      split at done
      · rename_i c here
        obtain ⟨⟨q',c'⟩,moved,rfl⟩ := Option.map_eq_some_iff.mp done
        exact ledger.turn here (fun held same => fits id held rfl (same ▸ here)) moved
      · cases done
  | cancel id =>
      simp only [TSQueue.step] at done
      split at done
      · rename_i c here
        obtain ⟨c',moved,rfl⟩ := Option.map_eq_some_iff.mp done
        exact ledger.cancel here moved
      · cases done
  | fire w =>
      simp only [TSQueue.step] at done
      split at done
      · cases done; exact ⟨ledger.fifo,ledger.held,ledger.placed_once,ledger.placed_known,ledger.standing⟩
      · cases done

end Lumilake.TSQueue

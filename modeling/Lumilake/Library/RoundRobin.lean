import Mathlib.Data.Finset.Erase
import Mathlib.Data.Finset.SDiff
import Mathlib.Data.Finset.Insert
import Mathlib.Data.Finset.Dedup
import Mathlib.Data.List.Rotate

-- A rotation list beside a set that mirrors it, and a turn that is announced when
-- the head is picked but only ended later, when others may have come and gone.
namespace RoundRobin
variable {α : Type u} [DecidableEq α]

structure Mirrored (order : List α) (members : Finset α) : Prop where
  nodup : order.Nodup
  exact : members = order.toFinset

theorem Mirrored.mem {order : List α} {members : Finset α} (mirror : Mirrored order members) :
    x ∈ members ↔ x ∈ order := by rw [mirror.exact,List.mem_toFinset]

theorem mirrored_nil : Mirrored ([] : List α) ∅ := ⟨List.nodup_nil,rfl⟩

theorem Mirrored.append {order : List α} {members : Finset α} (mirror : Mirrored order members)
    (fresh : x ∉ members) : Mirrored (order ++ [x]) (insert x members) := by
  have absent : x ∉ order := fun present => fresh (mirror.mem.mpr present)
  refine ⟨?_,?_⟩
  · rw [List.nodup_append]
    exact ⟨mirror.nodup,by simp,by rintro a member b last rfl; simp_all⟩
  · ext y
    rw [Finset.mem_insert,mirror.mem,List.mem_toFinset,List.mem_append,List.mem_singleton]
    exact or_comm

theorem Mirrored.tail {rest : List α} {members : Finset α} (mirror : Mirrored (head :: rest) members) :
    Mirrored rest (members.erase head) := by
  have distinct := List.nodup_cons.mp mirror.nodup
  refine ⟨distinct.2,?_⟩
  ext y
  simp only [Finset.mem_erase,mirror.mem,List.mem_cons,List.mem_toFinset]
  constructor
  · rintro ⟨different,equal | later⟩
    · exact absurd equal different
    · exact later
  · intro later
    exact ⟨by rintro rfl; exact distinct.1 later,.inr later⟩

theorem Mirrored.dropStale {order : List α} {members : Finset α} (mirror : Mirrored order members)
    (stale : Finset α) : Mirrored (order.filter (· ∉ stale)) (members \ stale) := by
  refine ⟨mirror.nodup.filter _,?_⟩
  ext y; simp [mirror.mem]

theorem Mirrored.rotate {order : List α} {members : Finset α} (mirror : Mirrored order members) (n : Nat) :
    Mirrored (order.rotate n) members := by
  refine ⟨List.nodup_rotate.mpr mirror.nodup,?_⟩
  ext y; simp [mirror.mem]

-- Those served before `p`.
def ahead (p : α) (order : List α) : List α := order.takeWhile (fun x => decide (x ≠ p))

@[simp] theorem ahead_cons_self (p : α) (rest : List α) : ahead p (p :: rest) = [] := by simp [ahead]

theorem ahead_cons_ne (other : head ≠ p) (rest : List α) : ahead p (head :: rest) = head :: ahead p rest := by
  simp [ahead,other]

theorem ahead_append {order : List α} (present : p ∈ order) (more : List α) :
    ahead p (order ++ more) = ahead p order := by
  induction order with
  | nil => cases present
  | cons head rest ih =>
    by_cases same : head = p
    · subst same; simp
    · have later : p ∈ rest := (List.mem_cons.mp present).resolve_left (Ne.symm same)
      rw [List.cons_append,ahead_cons_ne same,ahead_cons_ne same,ih later]

theorem ahead_filter (order : List α) {keep : α → Bool} (kept : keep p = true) :
    ahead p (order.filter keep) = (ahead p order).filter keep := by
  induction order with
  | nil => rfl
  | cons head rest ih =>
    by_cases same : head = p
    · subst same; simp [kept]
    · rw [ahead_cons_ne same]
      by_cases keeps : keep head = true
      · rw [List.filter_cons_of_pos keeps,List.filter_cons_of_pos keeps,ahead_cons_ne same,ih]
      · rw [List.filter_cons_of_neg keeps,List.filter_cons_of_neg keeps,ih]

theorem ahead_length_lt {order : List α} (present : p ∈ order) : (ahead p order).length < order.length := by
  induction order with
  | nil => cases present
  | cons head rest ih =>
    by_cases same : head = p
    · subst same; simp
    · have later := ih ((List.mem_cons.mp present).resolve_left (Ne.symm same))
      rw [ahead_cons_ne same]
      simpa using later

def endTurn (turn : α) (order : List α) : List α := if order.head? = some turn then order.rotate 1 else order

theorem mem_endTurn {order : List α} : x ∈ endTurn turn order ↔ x ∈ order := by
  unfold endTurn; split <;> simp

theorem Mirrored.endTurn {order : List α} {members : Finset α} (mirror : Mirrored order members) (turn : α) :
    Mirrored (endTurn turn order) members := by
  unfold RoundRobin.endTurn; split
  · exact mirror.rotate 1
  · exact mirror

-- At most `bound` turns end before `p` is at the head. An announced turn is
-- already counted: those ahead of `p` then come from `turn` and `bound - 1` others.
def Waits (p : α) (order : List α) (turn : Option α) (bound : Nat) : Prop :=
  match turn with
  | none => (ahead p order).length ≤ bound
  | some turn => turn ≠ p ∧ ∃ rest, (ahead p order).Sublist (turn :: rest) ∧ rest.length < bound

theorem Waits.append {order : List α} (waits : Waits p order turn bound) (present : p ∈ order) (more : List α) :
    Waits p (order ++ more) turn bound := by
  cases turn <;> simpa only [Waits,ahead_append present] using waits

theorem Waits.filter {order : List α} {keep : α → Bool} (waits : Waits p order turn bound) (kept : keep p = true) :
    Waits p (order.filter keep) turn bound := by
  cases turn with
  | none =>
    have shorter := List.length_filter_le keep (ahead p order)
    simp only [Waits,ahead_filter order kept] at waits ⊢
    omega
  | some turn =>
    obtain ⟨other,rest,covered,short⟩ := waits
    refine ⟨other,rest,?_,short⟩
    rw [ahead_filter order kept]
    exact List.filter_sublist.trans covered

theorem Waits.announce {order : List α} (waits : Waits p order none bound)
    (head : order.head? = some turn) (other : turn ≠ p) : Waits p order (some turn) bound := by
  cases order with
  | nil => cases head
  | cons first rest =>
    cases Option.some.inj head
    simp only [Waits,ahead_cons_ne other,List.length_cons] at waits
    exact ⟨other,ahead p rest,by rw [ahead_cons_ne other],by omega⟩

theorem Waits.abandon {order : List α} (waits : Waits p order (some turn) bound) : Waits p order none bound := by
  obtain ⟨_,rest,covered,short⟩ := waits
  have length := covered.length_le
  simp only [List.length_cons] at length
  simp only [Waits]
  omega

theorem Waits.endTurn {order : List α} (waits : Waits p order (some turn) bound) (present : p ∈ order) :
    Waits p (endTurn turn order) none (bound - 1) := by
  obtain ⟨other,rest,covered,short⟩ := waits
  cases order with
  | nil => cases present
  | cons first others =>
    by_cases mine : first = p
    · -- `p` is at the head already, and the turn is of another
      subst mine
      simp [Waits,RoundRobin.endTurn,Ne.symm other]
    · have later : p ∈ others := (List.mem_cons.mp present).resolve_left (Ne.symm mine)
      rw [ahead_cons_ne mine] at covered
      by_cases ends : first = turn
      · subst ends
        have fits := (List.cons_sublist_cons.mp covered).length_le
        simp only [Waits,RoundRobin.endTurn,List.head?_cons,if_true,List.rotate_cons_succ,List.rotate_zero,
          ahead_append later]
        omega
      · -- the announced partition left in between, so the rest bounds those ahead
        have inner : (first :: ahead p others).Sublist rest := by
          cases covered with
          | cons _ inner => exact inner
          | cons_cons _ inner => exact absurd rfl ends
        have fits := inner.length_le
        have away : (first :: others).head? ≠ some turn := by simpa using ends
        simp only [Waits,RoundRobin.endTurn,if_neg away,ahead_cons_ne mine]
        omega

end RoundRobin

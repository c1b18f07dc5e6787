import Mathlib.Data.List.MinMax
import Mathlib.Data.List.Perm.Subperm
import Mathlib.Data.List.Sort

-- Choosing some of a pool: a choice is a subpermutation of it, so a pool without
-- repetitions gives choices without repetitions.
namespace Selection
variable {α : Type u}

theorem nodup_of_subperm {chosen pool : List α} (within : chosen.Subperm pool) (distinct : pool.Nodup) : chosen.Nodup := by
  obtain ⟨some_order,perm,sub⟩ := within
  exact perm.nodup_iff.mp (distinct.sublist sub)

theorem sorted_take (le : α → α → Bool) (pool : List α) (n : Nat) : ((pool.mergeSort le).take n).Subperm pool :=
  (List.take_sublist n _).subperm.trans (List.mergeSort_perm pool le).subperm

theorem map_subperm {β : Type v} {chosen pool : List α} (f : α → β) (within : chosen.Subperm pool) :
    (chosen.map f).Subperm (pool.map f) := by
  obtain ⟨some_order,perm,sub⟩ := within
  exact ⟨some_order.map f,perm.map f,sub.map f⟩

theorem flatMap_subperm {β : Type v} {f g : α → List β} (within : ∀ a, (f a).Subperm (g a)) (l : List α) :
    (l.flatMap f).Subperm (l.flatMap g) := by
  induction l with
  | nil => exact List.Subperm.refl _
  | cons a rest ih => rw [List.flatMap_cons,List.flatMap_cons]; exact (within a).append ih

section
variable [DecidableEq α]

-- One member of the pool after another, as `next` picks them, while there is room.
def greedy (next : List α → List α → Option α) : Nat → List α → List α → List α
  | 0,chosen,_ => chosen
  | room + 1,chosen,pool =>
    match next chosen pool with
    | none => chosen
    | some x => greedy next room (chosen ++ [x]) (pool.erase x)

theorem greedy_subperm {next : List α → List α → Option α}
    (picks : ∀ chosen pool x, next chosen pool = some x → x ∈ pool) (room : Nat) (chosen pool : List α) :
    (greedy next room chosen pool).Subperm (chosen ++ pool) := by
  induction room generalizing chosen pool with
  | zero => exact (List.sublist_append_left chosen pool).subperm
  | succ room ih =>
      unfold greedy
      split
      · exact (List.sublist_append_left chosen pool).subperm
      · rename_i x picked
        have member := picks chosen pool x picked
        refine (ih (chosen ++ [x]) (pool.erase x)).trans (List.Perm.subperm ?_)
        rw [List.append_assoc]
        exact (List.perm_cons_erase member).symm.append_left chosen

-- A pick that only fails on an empty pool fills the room or exhausts the pool.
theorem greedy_full {next : List α → List α → Option α}
    (picks : ∀ chosen pool x, next chosen pool = some x → x ∈ pool)
    (fails : ∀ chosen pool, next chosen pool = none → pool = []) (room : Nat) (chosen pool : List α) :
    (greedy next room chosen pool).length = chosen.length + min room pool.length := by
  induction room generalizing chosen pool with
  | zero => simp [greedy]
  | succ room ih =>
      unfold greedy
      split
      · rename_i stuck
        simp [fails chosen pool stuck]
      · rename_i x picked
        have member := picks chosen pool x picked
        have some_left := List.length_pos_of_mem member
        rw [ih,List.length_append,List.length_singleton,List.length_erase_of_mem member]
        omega

theorem length_unseeded (seeds : List α) {pool : List α} (apart : pool.Nodup) :
    pool.length ≤ seeds.length + (pool.filter (fun x => decide (x ∉ seeds))).length := by
  have seeded : (pool.filter (fun x => decide (x ∈ seeds))).length ≤ seeds.length :=
    (List.subperm_of_subset (apart.filter _) fun x member => of_decide_eq_true (List.mem_filter.mp member).2).length_le
  have parts := List.length_eq_length_filter_add (l := pool) (fun x => decide (x ∈ seeds))
  have same : (fun x => !decide (x ∈ seeds)) = fun x => decide (x ∉ seeds) := by
    funext x
    simp
  rw [same] at parts
  omega

theorem seeded_subperm {seeds pool : List α} (distinct : seeds.Nodup) (inside : seeds ⊆ pool) (apart : pool.Nodup) :
    (seeds ++ pool.filter (fun x => decide (x ∉ seeds))).Subperm pool := by
  refine List.subperm_of_subset (List.nodup_append.mpr ⟨distinct,apart.filter _,?_⟩) ?_
  · intro x old y new same
    have fresh := (List.mem_filter.mp new).2
    rw [decide_eq_true_eq] at fresh
    exact fresh (same ▸ old)
  · exact List.append_subset.mpr ⟨inside,fun x member => (List.mem_filter.mp member).1⟩

-- Take what is new, in order, until `size` are chosen; the flag says that they are.
def extend_until (size : Nat) : List α → List α → List α × Bool
  | chosen,[] => (chosen,false)
  | chosen,x :: rest =>
    if x ∈ chosen then extend_until size chosen rest
    else if size ≤ (chosen ++ [x]).length then (chosen ++ [x],true)
    else extend_until size (chosen ++ [x]) rest

theorem extend_nodup {chosen : List α} (distinct : chosen.Nodup) (offered : List α) (size : Nat) :
    (extend_until size chosen offered).1.Nodup := by
  induction offered generalizing chosen with
  | nil => exact distinct
  | cons x rest ih =>
      unfold extend_until
      split
      · exact ih distinct
      · rename_i fresh
        have longer : (chosen ++ [x]).Nodup := by
          rw [List.nodup_append]
          refine ⟨distinct,List.nodup_singleton x,?_⟩
          intro y old z last same
          rw [List.mem_singleton] at last
          exact fresh (last ▸ same ▸ old)
        split
        · exact longer
        · exact ih longer

theorem extend_subset {chosen pool : List α} (inside : chosen ⊆ pool) {offered : List α} (offers : offered ⊆ pool)
    (size : Nat) : (extend_until size chosen offered).1 ⊆ pool := by
  induction offered generalizing chosen with
  | nil => exact inside
  | cons x rest ih =>
      obtain ⟨first,later⟩ := List.cons_subset.mp offers
      have longer : chosen ++ [x] ⊆ pool := List.append_subset.mpr ⟨inside,List.cons_subset.mpr ⟨first,List.nil_subset _⟩⟩
      unfold extend_until
      split
      · exact ih inside later
      · split
        · exact longer
        · exact ih longer later

theorem extend_grows (chosen offered : List α) (size : Nat) : chosen <+: (extend_until size chosen offered).1 := by
  induction offered generalizing chosen with
  | nil => exact List.prefix_rfl
  | cons x rest ih =>
      unfold extend_until
      split
      · exact ih chosen
      · split
        · exact List.prefix_append _ _
        · exact (List.prefix_append _ _).trans (ih _)

-- The first offers that fit are all taken, or were there before.
theorem extend_takes (chosen offered : List α) {m size : Nat} (room : chosen.length + m ≤ size) :
    offered.take m ⊆ (extend_until size chosen offered).1 := by
  induction offered generalizing chosen m with
  | nil => simp
  | cons x rest ih =>
      cases m with
      | zero => simp
      | succ m =>
          rw [List.take_succ_cons,List.cons_subset]
          unfold extend_until
          split
          · rename_i known
            exact ⟨(extend_grows chosen rest size).subset known,ih chosen (by omega)⟩
          · split
            · rename_i full
              rw [List.length_append,List.length_singleton] at full
              obtain rfl : m = 0 := by omega
              exact ⟨List.mem_append_right _ List.mem_cons_self,by simp⟩
            · have longer : (chosen ++ [x]).length + m ≤ size := by
                rw [List.length_append,List.length_singleton]
                omega
              exact ⟨(extend_grows _ rest size).subset (List.mem_append_right _ List.mem_cons_self),ih _ longer⟩

-- Raising the flag means exactly `size` are chosen, else every offer is among the fewer chosen.
theorem extend_outcome {chosen : List α} (offered : List α) {size : Nat} (room : chosen.length < size) :
    if (extend_until size chosen offered).2 then (extend_until size chosen offered).1.length = size
    else (extend_until size chosen offered).1.length < size ∧ offered ⊆ (extend_until size chosen offered).1 := by
  induction offered generalizing chosen with
  | nil => exact ⟨room,List.nil_subset _⟩
  | cons x rest ih =>
      unfold extend_until
      split
      · rename_i known
        have later := ih room
        split
        · rename_i full; rwa [if_pos full] at later
        · rename_i more
          rw [if_neg more] at later
          exact ⟨later.1,List.cons_subset.mpr ⟨(extend_grows chosen rest size).subset known,later.2⟩⟩
      · split
        · rename_i full
          rw [List.length_append,List.length_singleton] at full
          rw [if_pos rfl,List.length_append,List.length_singleton]
          omega
        · rename_i short
          have later := ih (Nat.lt_of_not_le short)
          split
          · rename_i full; rwa [if_pos full] at later
          · rename_i more
            rw [if_neg more] at later
            exact ⟨later.1,List.cons_subset.mpr
              ⟨(extend_grows _ rest size).subset (List.mem_append_right _ List.mem_cons_self),later.2⟩⟩
end

-- The choices of `count` members, in the order of their places.
def combinations : Nat → List α → List (List α)
  | 0,_ => [[]]
  | _ + 1,[] => []
  | count + 1,x :: rest => (combinations count rest).map (x :: ·) ++ combinations (count + 1) rest

theorem combinations_sublist : ∀ {count : Nat} {pool combo : List α}, combo ∈ combinations count pool → combo.Sublist pool
  | 0,pool,combo,member => by
      rw [combinations,List.mem_singleton] at member
      exact member ▸ List.nil_sublist pool
  | count + 1,[],combo,member => by cases member
  | count + 1,x :: rest,combo,member => by
      rcases List.mem_append.mp member with first | later
      · obtain ⟨tail,inside,rfl⟩ := List.mem_map.mp first
        exact (combinations_sublist inside).cons_cons x
      · exact (combinations_sublist later).cons x

end Selection

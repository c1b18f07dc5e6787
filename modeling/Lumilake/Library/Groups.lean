import Mathlib.Data.List.Basic

-- Taking groups of `size` from the front of a list, each holding a marked element: a
-- prefix without one trades its last element for the first marked element behind it.
namespace Groups
variable {α : Type u} (marked : α → Bool)

def left_over (size : Nat) (items : List α) : List α :=
  if (items.take size).any marked then items.drop size else (items.drop (size - 1)).eraseP marked

-- Whether `n` groups can be taken one after the other: enough elements, and behind the
-- first `i` prefixes still a marked element for each of the groups from `i` on.
def Spread (size n : Nat) (items : List α) : Prop :=
  n * size ≤ items.length ∧ ∀ i < n, n - i ≤ (items.drop (i * size)).countP marked

variable {marked} {items : List α} {size n : Nat}

theorem countP_eraseP (items : List α) : (items.eraseP marked).countP marked = items.countP marked - 1 := by
  induction items with
  | nil => rfl
  | cons x rest ih =>
      cases own : marked x with
      | true => rw [List.eraseP_cons_of_pos own,List.countP_cons_of_pos own,Nat.add_sub_cancel]
      | false =>
          have other : ¬marked x = true := by simp [own]
          rw [List.eraseP_cons_of_neg other,List.countP_cons_of_neg other,List.countP_cons_of_neg other,ih]

theorem countP_eraseP_drop (items : List α) (j : Nat) : ((items.eraseP marked).drop j).countP marked =
    min (items.countP marked - 1) ((items.drop (j + 1)).countP marked) := by
  induction items generalizing j with
  | nil => simp
  | cons x rest ih =>
      cases own : marked x with
      | true =>
          have fewer : (rest.drop j).countP marked ≤ rest.countP marked := (List.drop_sublist j rest).countP_le
          rw [List.eraseP_cons_of_pos own,List.countP_cons_of_pos own,List.drop_succ_cons]
          omega
      | false =>
          have other : ¬marked x = true := by simp [own]
          rw [List.eraseP_cons_of_neg other,List.countP_cons_of_neg other]
          cases j with
          | zero =>
              rw [List.drop_zero,List.countP_cons_of_neg other,countP_eraseP,List.drop_succ_cons,List.drop_zero]
              omega
          | succ j => rw [List.drop_succ_cons,List.drop_succ_cons,ih]

-- Without a marked element in the prefix, its last element stays and the first marked
-- one behind it goes.
theorem left_over_plain (fits : size ≤ items.length) (positive : 1 ≤ size) (plain : ¬((items.take size).any marked) = true) :
    (items.take size).countP marked = 0 ∧ ∃ x, marked x = false ∧
      left_over marked size items = x :: (items.drop size).eraseP marked := by
  have unmarked : ∀ x ∈ items.take size, marked x = false := by
    intro x member
    by_contra own
    exact plain (List.any_eq_true.mpr ⟨x,member,by simpa using own⟩)
  have inside : size - 1 < items.length := by omega
  have last : items[size - 1] ∈ items.take size :=
    List.mem_take_iff_getElem.mpr ⟨size - 1,by omega,rfl⟩
  have split := List.drop_eq_getElem_cons inside
  rw [Nat.sub_add_cancel positive] at split
  refine ⟨List.countP_eq_zero.mpr fun x member => by simp [unmarked x member],items[size - 1],unmarked _ last,?_⟩
  unfold left_over
  rw [if_neg plain,split,List.eraseP_cons_of_neg (by simp [unmarked _ last])]

theorem left_over_length (fits : size ≤ items.length) (positive : 1 ≤ size) (some_marked : 1 ≤ items.countP marked) :
    (left_over marked size items).length = items.length - size := by
  unfold left_over
  split
  · exact List.length_drop
  · rename_i plain
    obtain ⟨nothing,x,own,left⟩ := left_over_plain fits positive plain
    have parts : items.countP marked = (items.take size).countP marked + (items.drop size).countP marked := by
      rw [← List.countP_append,List.take_append_drop]
    obtain ⟨y,member,found⟩ := List.countP_pos_iff.mp (show 0 < (items.drop size).countP marked by omega)
    have length := congrArg List.length left
    unfold left_over at length
    rw [if_neg plain] at length
    have some_left := List.length_pos_of_mem member
    rw [length,List.length_cons,List.length_eraseP_of_mem member found,List.length_drop]
    rw [List.length_drop] at some_left
    omega

-- Taking one group turns a spread over `n + 1` groups into one over `n`.
theorem spread_step (fits : size ≤ items.length) (positive : 1 ≤ size) (some_marked : 1 ≤ items.countP marked) :
    Spread marked size (n + 1) items ↔ Spread marked size n (left_over marked size items) := by
  have lengths := left_over_length fits positive some_marked
  unfold Spread
  rw [lengths]
  have enough : (n + 1) * size ≤ items.length ↔ n * size ≤ items.length - size := by rw [Nat.succ_mul]; omega
  rw [enough]
  refine and_congr_right fun _ => ?_
  have parts : items.countP marked = (items.take size).countP marked + (items.drop size).countP marked := by
    rw [← List.countP_append,List.take_append_drop]
  by_cases held : (items.take size).any marked = true
  · have left : left_over marked size items = items.drop size := if_pos held
    obtain ⟨x,member,own⟩ := List.any_eq_true.mp held
    have one : 0 < (items.take size).countP marked := List.countP_pos_iff.mpr ⟨x,member,own⟩
    have shifted : ∀ i, ((items.drop size).drop (i * size)).countP marked = (items.drop ((i + 1) * size)).countP marked := by
      intro i
      rw [List.drop_drop,Nat.succ_mul,Nat.add_comm]
    rw [left]
    constructor
    · intro spread i lower
      rw [shifted]
      have := spread (i + 1) (by omega)
      omega
    · intro spread i lower
      cases i with
      | zero =>
          rw [Nat.zero_mul,List.drop_zero]
          cases n with
          | zero => omega
          | succ n =>
              have first := spread 0 (by omega)
              rw [Nat.zero_mul,List.drop_zero] at first
              omega
      | succ i =>
          have := spread i (by omega)
          rw [shifted] at this
          omega
  · obtain ⟨nothing,x,own,left⟩ := left_over_plain fits positive held
    rw [left]
    have other : ¬marked x = true := by simp [own]
    have first : (x :: (items.drop size).eraseP marked).countP marked = items.countP marked - 1 := by
      rw [List.countP_cons_of_neg other,countP_eraseP]
      omega
    have shifted : ∀ i, 1 ≤ i → ((x :: (items.drop size).eraseP marked).drop (i * size)).countP marked =
        min (items.countP marked - 1) ((items.drop ((i + 1) * size)).countP marked) := by
      intro i later
      have further : i * size = i * size - 1 + 1 := by
        have := Nat.mul_le_mul later positive
        omega
      rw [further,List.drop_succ_cons,countP_eraseP_drop,← further,List.drop_drop,Nat.succ_mul,Nat.add_comm size]
      omega
    constructor
    · intro spread i lower
      have whole := spread 0 (by omega)
      rw [Nat.zero_mul,List.drop_zero] at whole
      cases i with
      | zero => rw [Nat.zero_mul,List.drop_zero,first]; omega
      | succ i =>
          have behind := spread (i + 1 + 1) (by omega)
          rw [shifted _ (by omega)]
          omega
    · intro spread i lower
      have whole : n ≤ items.countP marked - 1 := by
        cases n with
        | zero => omega
        | succ n =>
            have := spread 0 (by omega)
            rw [Nat.zero_mul,List.drop_zero,first] at this
            omega
      cases i with
      | zero => rw [Nat.zero_mul,List.drop_zero]; omega
      | succ i =>
          cases i with
          | zero => rw [Nat.zero_add,Nat.one_mul]; omega
          | succ i =>
              have behind := spread (i + 1) (by omega)
              rw [shifted _ (by omega)] at behind
              omega

theorem spread_zero : Spread marked size 0 items := ⟨by omega,fun i lower => absurd lower (Nat.not_lt_zero i)⟩

-- Fewer groups can be taken where more can.
theorem Spread.mono (spread : Spread marked size n items) (fewer : m ≤ n) : Spread marked size m items := by
  refine ⟨Nat.le_trans (Nat.mul_le_mul_right _ fewer) spread.1,fun i lower => ?_⟩
  have := spread.2 i (by omega)
  omega

end Groups

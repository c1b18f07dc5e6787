import Lumilake.Library.Weights

-- A pool that is shared in proportion to weights: every share is rounded down, and what
-- is left goes one by one to the first members.
namespace Shares
open Weights
variable {κ : Type u} {f : κ → Nat} {members : List κ}

-- Division with remainder, over all members.
theorem floors_and_rests (pool whole : Nat) (f : κ → Nat) (members : List κ) :
    whole * weight (fun k => pool * f k / whole) members + weight (fun k => pool * f k % whole) members =
      pool * weight f members := by
  induction members with
  | nil => rfl
  | cons k rest ih =>
      have here := Nat.div_add_mod (pool * f k) whole
      simp only [weight_cons,Nat.mul_add] at ih ⊢
      omega

theorem rests_lt (pool : Nat) {whole : Nat} (positive : 0 < whole) (some_member : members ≠ []) :
    weight (fun k => pool * f k % whole) members < whole * members.length := by
  have each : ∀ (rest : List κ), weight (fun k => pool * f k % whole) rest ≤ whole * rest.length := by
    intro rest
    induction rest with
    | nil => exact Nat.zero_le _
    | cons k rest ih =>
        have small := Nat.mod_lt (pool * f k) positive
        rw [weight_cons,List.length_cons,Nat.mul_succ]
        omega
  cases members with
  | nil => exact absurd rfl some_member
  | cons k rest =>
      have small := Nat.mod_lt (pool * f k) positive
      have others := each rest
      rw [weight_cons,List.length_cons,Nat.mul_succ]
      omega

-- The floors take no more than the pool and leave less than one for each member.
theorem floors_le (pool : Nat) (positive : 0 < weight f members) :
    weight (fun k => pool * f k / weight f members) members ≤ pool := by
  have whole := floors_and_rests pool (weight f members) f members
  rw [Nat.mul_comm pool] at whole
  exact Nat.le_of_mul_le_mul_left (Nat.le.intro whole) positive

theorem left_over_lt (pool : Nat) (positive : 0 < weight f members) :
    pool < weight (fun k => pool * f k / weight f members) members + members.length := by
  have some_member : members ≠ [] := by
    intro empty
    rw [empty] at positive
    exact absurd positive (by simp)
  have whole := floors_and_rests pool (weight f members) f members
  have small := rests_lt (f := f) pool positive some_member
  rw [Nat.mul_comm pool] at whole
  apply Nat.lt_of_mul_lt_mul_left (a := weight f members)
  rw [Nat.mul_add]
  omega

-- One for each of the first members.
theorem first_members [DecidableEq κ] (distinct : members.Nodup) (count : Nat) :
    weight (fun k => if members.idxOf k < count then 1 else 0) members = min count members.length := by
  induction members generalizing count with
  | nil => simp
  | cons k rest ih =>
      obtain ⟨fresh,distinct'⟩ := List.nodup_cons.mp distinct
      have later : ∀ x ∈ rest, (k :: rest).idxOf x = rest.idxOf x + 1 := fun x member =>
        List.idxOf_cons_ne rest fun same => fresh (same ▸ member)
      have others : weight (fun x => if (k :: rest).idxOf x < count then 1 else 0) rest =
          weight (fun x => if rest.idxOf x < count - 1 then 1 else 0) rest := by
        apply weight_congr
        intro x member
        rw [later x member]
        split <;> split <;> omega
      rw [weight_cons,others,ih distinct',List.idxOf_cons_self,List.length_cons]
      split <;> omega

end Shares

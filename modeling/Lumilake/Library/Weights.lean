import Mathlib.Data.List.Perm.Basic
import Mathlib.Data.List.Count
import Mathlib.Data.List.Nodup
import Lumilake.Library.Dict

-- What a list weighs when each member has a weight. Two lists that weigh the same
-- under every weight hold the same members equally often.
def weight (f : α → Nat) (l : List α) : Nat := (l.map f).foldr (· + ·) 0

namespace Weights
variable {α : Type u} {κ : Type v} {f : α → Nat} {l l' : List α}

@[simp] theorem weight_nil : weight f [] = 0 := rfl
@[simp] theorem weight_cons : weight f (x :: l) = f x + weight f l := rfl

@[simp] theorem weight_append : weight f (l ++ l') = weight f l + weight f l' := by
  induction l with
  | nil => simp
  | cons x rest ih => simp only [List.cons_append,weight_cons,ih]; omega

theorem weight_perm (same : l.Perm l') : weight f l = weight f l' := by
  induction same with
  | nil => rfl
  | cons _ _ ih => simp only [weight_cons,ih]
  | swap => simp only [weight_cons]; omega
  | trans _ _ first second => exact first.trans second

theorem weight_filter (f : α → Nat) (l : List α) (p : α → Bool) :
    weight f (l.filter p) + weight f (l.filter (fun x => !p x)) = weight f l := by
  induction l with
  | nil => rfl
  | cons x rest ih =>
      cases h : p x <;> simp only [List.filter_cons,h,Bool.not_true,Bool.not_false,if_true,weight_cons] <;>
        simp only [Bool.false_eq_true,if_false] <;> omega

theorem weight_map (g : κ → α) (l : List κ) : weight f (l.map g) = weight (fun x => f (g x)) l := by
  unfold weight
  rw [List.map_map]
  rfl

theorem weight_congr {g : α → Nat} (same : ∀ x ∈ l, f x = g x) : weight f l = weight g l := by
  unfold weight
  rw [List.map_congr_left same]

theorem weight_eq_zero : weight f l = 0 ↔ ∀ x ∈ l, f x = 0 := by
  induction l with
  | nil => simp
  | cons x rest ih =>
      rw [weight_cons,List.forall_mem_cons,← ih]
      omega

-- A list that is split along distinct keys keeps its weight.
theorem weight_groups [DecidableEq κ] (key : α → κ) {keys : List κ} (distinct : keys.Nodup) (l : List α)
    (covered : ∀ x ∈ l, key x ∈ keys) :
    weight f (keys.map (fun k => l.filter (fun x => decide (key x = k)))).flatten = weight f l := by
  induction keys generalizing l with
  | nil =>
      cases l with
      | nil => rfl
      | cons x _ => exact absurd (covered x List.mem_cons_self) List.not_mem_nil
  | cons k rest ih =>
      obtain ⟨fresh,distinct'⟩ := List.nodup_cons.mp distinct
      have others : ∀ k' ∈ rest, l.filter (fun x => decide (key x = k')) =
          (l.filter (fun x => !decide (key x = k))).filter (fun x => decide (key x = k')) := by
        intro k' member
        rw [List.filter_filter]
        apply List.filter_congr
        intro x _
        by_cases here : key x = k'
        · have apart : key x ≠ k := fun same => fresh ((here.symm.trans same) ▸ member)
          simp [here,here ▸ apart]
        · simp [here]
      have tail := ih distinct' (l.filter (fun x => !decide (key x = k))) (by
        intro x member
        obtain ⟨inside,apart⟩ := List.mem_filter.mp member
        have apart : key x ≠ k := by simpa using apart
        exact (List.mem_cons.mp (covered x inside)).resolve_left apart)
      rw [← List.map_congr_left others] at tail
      rw [List.map_cons,List.flatten_cons,weight_append,tail]
      exact weight_filter f l _

-- How often a key occurs.
def occurs [DecidableEq κ] (key : α → κ) (k : κ) (x : α) : Nat := if key x = k then 1 else 0

theorem weight_occurs [DecidableEq κ] (key : α → κ) (k : κ) (l : List α) : weight (occurs key k) l = (l.map key).count k := by
  induction l with
  | nil => rfl
  | cons x rest ih =>
      rw [weight_cons,List.map_cons,List.count_cons,ih,Nat.add_comm]
      simp [occurs,beq_iff_eq]

theorem nodup_iff [DecidableEq κ] (key : α → κ) : (l.map key).Nodup ↔ ∀ k, weight (occurs key k) l ≤ 1 := by
  simp only [List.nodup_iff_count_le_one,weight_occurs]

theorem perm_of_weight (same : ∀ f : α → Nat, weight f l = weight f l') : l.Perm l' := by
  classical
  refine List.perm_iff_count.mpr (fun x => ?_)
  have counted := same (occurs id x)
  rwa [weight_occurs,weight_occurs,List.map_id,List.map_id] at counted

variable [DecidableEq κ] {d : Dict κ α} {k : κ}

theorem weight_fresh (fresh : k ∉ d.keys) (v : α) : weight f (d.set k v).values = weight f d.values + f v := by
  unfold Dict.values
  rw [Dict.entries_set_fresh fresh]
  simp

theorem weight_set (found : d.get? k = some old) (v : α) :
    weight f (d.set k v).values + f old = weight f d.values + f v := by
  obtain ⟨earlier,later,split⟩ := List.append_of_mem (Dict.get?_eq_some.mp found)
  unfold Dict.values
  rw [Dict.entries_set_split split,split]
  simp only [List.map_append,List.map_cons,weight_append,weight_cons]
  omega

theorem weight_erase (found : d.get? k = some old) : weight f (d.erase k).values + f old = weight f d.values := by
  obtain ⟨earlier,later,split⟩ := List.append_of_mem (Dict.get?_eq_some.mp found)
  unfold Dict.values
  rw [Dict.entries_erase_split split,split]
  simp only [List.map_append,List.map_cons,weight_append,weight_cons]
  omega

end Weights

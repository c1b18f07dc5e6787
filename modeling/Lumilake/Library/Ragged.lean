import Mathlib.Data.List.Basic
import Mathlib.Data.List.Zip

-- Grids with rows of any lengths: read out row after row, with the row of every
-- entry beside it, and gathered again.
namespace Ragged
variable {α : Type u} {β : Type v}

-- The entries with their rows, the first row numbered `k`.
def numbered (k : Nat) (grid : List (List α)) : List (Nat × α) :=
  (grid.zipIdx k).flatMap fun row => row.1.map fun value => (row.2,value)

def place (table : List (List α)) (entry : Nat × α) : List (List α) := table.modify entry.1 (· ++ [entry.2])

def gather (n : Nat) (entries : List (Nat × α)) : List (List α) := entries.foldl place (List.replicate n [])

@[simp] theorem numbered_nil (k : Nat) : numbered k ([] : List (List α)) = [] := rfl

theorem numbered_cons (k : Nat) (row : List α) (grid : List (List α)) :
    numbered k (row :: grid) = (row.map fun value => (k,value)) ++ numbered (k + 1) grid := by
  simp [numbered,List.zipIdx_cons]

theorem numbered_values (k : Nat) (grid : List (List α)) : (numbered k grid).map Prod.snd = grid.flatten := by
  induction grid generalizing k with
  | nil => rfl
  | cons row rest ih =>
      rw [numbered_cons,List.map_append,ih,List.map_map,List.flatten_cons]
      simp [Function.comp_def]

theorem numbered_rows (k : Nat) (row : List α) (grid : List (List α)) :
    (numbered k (row :: grid)).map Prod.fst = List.replicate row.length k ++ (numbered (k + 1) grid).map Prod.fst := by
  rw [numbered_cons,List.map_append,List.map_map]
  simp [Function.comp_def]

-- Grids of the same shape number their rows alike.
theorem same_rows {grid : List (List α)} {grid' : List (List β)} (same : grid'.map List.length = grid.map List.length) (k : Nat) :
    (numbered k grid').map Prod.fst = (numbered k grid).map Prod.fst := by
  induction grid generalizing k grid' with
  | nil =>
      cases grid' with
      | nil => rfl
      | cons => cases same
  | cons row rest ih =>
      cases grid' with
      | nil => cases same
      | cons row' rest' =>
          obtain ⟨first,others⟩ := List.cons.inj same
          rw [numbered_rows,numbered_rows,ih others (k + 1),first]

theorem numbered_rows_lt {k : Nat} {grid : List (List α)} {entry : Nat × α} (member : entry ∈ numbered k grid) :
    k ≤ entry.1 ∧ entry.1 < k + grid.length := by
  obtain ⟨row,inside,listed⟩ := List.mem_flatMap.mp member
  obtain ⟨value,_,rfl⟩ := List.mem_map.mp listed
  have low := List.le_snd_of_mem_zipIdx inside
  have high := List.snd_lt_add_of_mem_zipIdx inside
  exact ⟨low,by omega⟩

@[simp] theorem length_place (table : List (List α)) (entry : Nat × α) : (place table entry).length = table.length := by
  simp [place]

theorem modify_behind (done : List α) (x : α) (after : List α) (f : α → α) :
    (done ++ x :: after).modify done.length f = done ++ f x :: after := by
  induction done with
  | nil => rfl
  | cons head tail ih => exact congrArg (head :: ·) ih

-- One row is filled from left to right.
theorem place_row (done : List (List α)) (row filled : List α) (after : List (List α)) :
    (row.map fun value => (done.length,value)).foldl place (done ++ filled :: after) = done ++ (filled ++ row) :: after := by
  induction row generalizing filled with
  | nil => simp
  | cons value rest ih =>
      have one : place (done ++ filled :: after) (done.length,value) = done ++ (filled ++ [value]) :: after := by
        exact modify_behind done filled after _
      rw [List.map_cons,List.foldl_cons,one,ih,List.append_assoc]
      rfl

-- What is read out row after row is gathered to the same grid.
theorem gather_numbered (grid : List (List α)) : gather grid.length (numbered 0 grid) = grid := by
  have from_row : ∀ (done : List (List α)),
      (numbered done.length grid).foldl place (done ++ List.replicate grid.length []) = done ++ grid := by
    induction grid with
    | nil => simp
    | cons row rest ih =>
        intro done
        have next := ih (done ++ [row])
        rw [List.length_append,List.length_singleton,List.append_assoc] at next
        rw [numbered_cons,List.foldl_append,List.length_cons,List.replicate_succ,place_row]
        simpa using next
  simpa [gather] using from_row []

-- A flat list cut to the rows of a grid.
theorem regrid {grid : List (List α)} {values : List β} (length : values.length = grid.flatten.length) :
    ∃ grid' : List (List β), grid'.map List.length = grid.map List.length ∧ grid'.flatten = values := by
  induction grid generalizing values with
  | nil => exact ⟨[],rfl,(List.length_eq_zero_iff.mp (by simpa using length)).symm⟩
  | cons row rest ih =>
      rw [List.flatten_cons,List.length_append] at length
      have rest_length : (values.drop row.length).length = rest.flatten.length := by rw [List.length_drop]; omega
      obtain ⟨grid',same,flat⟩ := ih rest_length
      refine ⟨values.take row.length :: grid',?_,?_⟩
      · rw [List.map_cons,List.map_cons,same,List.length_take_of_le (by omega)]
      · rw [List.flatten_cons,flat,List.take_append_drop]

end Ragged

import Lumilake.Library.Fallible
import Lumilake.Server.RequestFrame

namespace Lumilake.Server
open Tiling Fallible

def cell_in (outputs : Payload) (name : String) (i : Nat) : Option Value := (outputs.get? name).bind (·[i]?)

def cell (buffers : Buffers) (g name : String) (i : Nat) : Option Value := (buffers.get? g).bind (cell_in · name i)

theorem cell_in_set (outputs : Payload) (name : String) (target : List Value) (x : String) (j : Nat) :
    cell_in (outputs.set name target) x j = if x = name then target[j]? else cell_in outputs x j := by
  unfold cell_in
  split
  · rename_i same
    subst same
    rw [Dict.get?_set_self,Option.bind_some]
  · rename_i other
    rw [Dict.get?_set_ne _ _ other]

theorem cell_set (buffers : Buffers) (g : String) (outputs : Payload) (h name : String) (j : Nat) :
    cell (buffers.set g outputs) h name j = if h = g then cell_in outputs name j else cell buffers h name j := by
  unfold cell
  split
  · rename_i same
    subst same
    rw [Dict.get?_set_self,Option.bind_some]
  · rename_i other
    rw [Dict.get?_set_ne _ _ other]

-- The rows of the request that a slice stands for.
def Within (w : WorkflowItem) (j : Nat) : Prop := w.slice_start ≤ j ∧ j < w.slice_start + w.slice_length

-- What one output of a payload writes, by the cells of its graph afterwards.
def Landed (w : WorkflowItem) (names : List String) (here : String → Nat → Option Value) (output : String × List Value) : Prop :=
  if output.1 ∈ names then ∀ v, output.2 = [v] → here output.1 0 = some v
  else output.2.length = w.slice_length → ∀ i v, output.2[i]? = some v → here output.1 (w.slice_start + i) = some v

-- A cell that one output of a payload leaves as it is.
def Spared (w : WorkflowItem) (names : List String) (name : String) (j : Nat) (output : String × List Value) : Prop :=
  name = output.1 → if output.1 ∈ names then ∀ v, output.2 ≠ [v] else ¬ Within w j

section
variable {w : WorkflowItem} {names : List String}

theorem merge_list_lambda_cells (m : Merge) (name : String) (values : List Value)
    (room : ∀ target, m.buffers.get? name = some target → target ≠ []) :
    (∀ x j, (x = name → ∀ v, values ≠ [v]) →
      cell_in (merge_list_lambda w m name values).buffers x j = cell_in m.buffers x j) ∧
    ∀ v, values = [v] → cell_in (merge_list_lambda w m name values).buffers name 0 = some v := by
  unfold merge_list_lambda
  dsimp only
  split
  · rename_i value
    have old : ∀ target : List Value, (if is_set target 0 = true then m.fail w name "overlapping slice assignment" else m).buffers =
        m.buffers := by
      intro target
      split <;> rfl
    constructor
    · intro x j other
      dsimp only
      rw [cell_in_set,if_neg (fun same => other same value rfl),old]
    · rintro v ⟨⟩
      have nonempty : ((m.buffers.get? name).getD [.none]) ≠ [] := by
        cases found : m.buffers.get? name with
        | none => simp
        | some target => exact room target found
      dsimp only
      rw [cell_in_set,if_pos rfl,List.getElem?_set_self (List.length_pos_iff.mpr nonempty)]
  · rename_i several
    exact ⟨fun x j _ => rfl,fun v single => absurd single (several v)⟩

theorem merge_rows_cells {m after : Merge} {name : String} {values : List Value}
    (bound : w.slice_start + w.slice_length ≤ w.total_length) (done : merge_rows w m name values = .ok after) :
    (∀ x j v, (x = name → ¬ Within w j) → cell_in m.buffers x j = some v → cell_in after.buffers x j = some v) ∧
    (values.length = w.slice_length → ∀ i v, values[i]? = some v →
      cell_in after.buffers name (w.slice_start + i) = some v) := by
  unfold merge_rows at done
  dsimp only at done
  split at done
  · rename_i wrong
    cases done
    exact ⟨fun _ _ _ _ same => same,fun right => absurd right wrong⟩
  · rename_i right
    split at done
    · cases done
    · rename_i sized
      cases done
      have length : values.length = w.slice_length := not_not.mp right
      have total : ((m.buffers.get? name).getD (List.replicate w.total_length .none)).length = w.total_length := not_not.mp sized
      generalize target : (m.buffers.get? name).getD (List.replicate w.total_length .none) = cells at *
      have old : ∀ overlap : List Nat, (if overlap = [] then m
          else m.fail w name s!"overlapping slice assignment at indices {overlap}").buffers = m.buffers := by
        intro overlap
        split <;> rfl
      constructor
      · intro x j v outside here
        dsimp only
        rw [cell_in_set]
        split
        · rename_i same
          rw [getElem?_write,if_neg]
          · obtain ⟨found,seen,at_j⟩ := Option.bind_eq_some_iff.mp here
            rw [← target,← same,seen]
            exact at_j
          · rintro ⟨low,high,_⟩
            exact outside same ⟨low,length ▸ high⟩
        · rw [old]
          exact here
      · intro _ i v here
        have inside : i < values.length := (List.getElem?_eq_some_iff.mp here).1
        dsimp only
        rw [cell_in_set,if_pos rfl,getElem?_write,if_pos ⟨by omega,by omega,by omega⟩,Nat.add_sub_cancel_left]
        exact here

-- One output touches its own buffer only, and of a row-wise one the slice's rows only.
theorem merge_output_cells {m after : Merge} {output : String × List Value}
    (bound : w.slice_start + w.slice_length ≤ w.total_length)
    (room : ∀ name ∈ names, ∀ target, m.buffers.get? name = some target → target ≠ [])
    (done : merge_output w names m output = .ok after) :
    (∀ x j v, Spared w names x j output → cell_in m.buffers x j = some v → cell_in after.buffers x j = some v) ∧
    Landed w names (cell_in after.buffers) output := by
  obtain ⟨name,values⟩ := output
  unfold merge_output at done
  split at done
  · rename_i list_lambda
    cases done
    obtain ⟨frame,landed⟩ := merge_list_lambda_cells (w := w) m name values (room name list_lambda)
    constructor
    · intro x j v spared here
      rw [frame x j (fun same => by simpa only [if_pos list_lambda] using spared same)]
      exact here
    · rw [Landed,if_pos list_lambda]
      exact landed
  · rename_i rows
    obtain ⟨frame,landed⟩ := merge_rows_cells bound done
    constructor
    · intro x j v spared
      exact frame x j v (fun same => by simpa only [if_neg rows] using spared same)
    · rw [Landed,if_neg rows]
      exact landed

theorem landed_kept {here after : String → Nat → Option Value} {output : String × List Value}
    (kept : ∀ j v, here output.1 j = some v → after output.1 j = some v) (landed : Landed w names here output) :
    Landed w names after output := by
  unfold Landed at *
  split
  · rename_i listed
    rw [if_pos listed] at landed
    exact fun v single => kept 0 v (landed v single)
  · rename_i rows
    rw [if_neg rows] at landed
    exact fun length i v found => kept _ v (landed length i v found)

-- The outputs of one payload have different names, so that none undoes another.
theorem merge_outputs_cells {size : String → Nat} (fits : ∀ name, size name = if name ∈ names then 1 else w.total_length)
    (bound : w.slice_start + w.slice_length ≤ w.total_length) (entries : List (String × List Value))
    (distinct : (entries.map Prod.fst).Nodup) {m after : Merge}
    (sized : ∀ name target, m.buffers.get? name = some target → target.length = size name)
    (done : entries.foldlM (merge_output w names) m = .ok after) :
    (∀ x j v, (∀ output ∈ entries, Spared w names x j output) →
      cell_in m.buffers x j = some v → cell_in after.buffers x j = some v) ∧
    ∀ output ∈ entries, Landed w names (cell_in after.buffers) output := by
  induction entries generalizing m with
  | nil =>
      cases done
      exact ⟨fun _ _ _ _ same => same,fun _ none => nomatch none⟩
  | cons output rest ih =>
      obtain ⟨fresh,distinct'⟩ := List.nodup_cons.mp distinct
      rw [List.foldlM_cons] at done
      obtain ⟨middle,first,later⟩ := bind_ok done
      have room : ∀ name ∈ names, ∀ target, m.buffers.get? name = some target → target ≠ [] := by
        intro name listed target found empty
        have one := (sized name target found).trans ((fits name).trans (if_pos listed))
        rw [empty] at one
        cases one
      obtain ⟨frame,own⟩ := merge_output_cells bound room first
      obtain ⟨also,done',sized'⟩ := merge_output_sized fits sized output
      obtain rfl : middle = also := Except.ok.inj (first.symm.trans done')
      obtain ⟨frame_rest,others⟩ := ih distinct' sized' later
      constructor
      · intro x j v spared here
        exact frame_rest x j v (fun other member => spared other (List.mem_cons_of_mem _ member))
          (frame x j v (spared output List.mem_cons_self) here)
      · intro other member
        rcases List.mem_cons.mp member with rfl | later_one
        · refine landed_kept (fun j v => frame_rest _ j v ?_) own
          intro next inside same
          exact absurd (List.mem_map.mpr ⟨next,inside,same.symm⟩) fresh
        · exact others other later_one

-- What a payload in range writes to the cells of its graph, and what it leaves alone.
theorem merge_slice_cells {size : String → String → Nat} {buffers after : Buffers} {errors errors' : Option (List Spec)}
    {payload : Payload} {merged : Bool} (fits : Fits size names w) (sized : Sized size buffers) (some_row : 0 < w.total_length)
    (bound : w.slice_start + w.slice_length ≤ w.total_length)
    (done : merge_slice_payload names errors buffers w payload = .ok (errors',after,merged)) :
    (∀ g x j v, (g = w.public_graph_name → ∀ output ∈ payload.entries, Spared w names x j output) →
      cell buffers g x j = some v → cell after g x j = some v) ∧
    ∀ output ∈ payload.entries, Landed w names (cell after w.public_graph_name) output := by
  unfold merge_slice_payload at done
  rw [if_neg (by omega),if_neg (by omega)] at done
  obtain ⟨m,folded,rest⟩ := bind_ok done
  cases rest
  have start : ∀ name target, ((buffers.get? w.public_graph_name).getD Dict.empty).get? name = some target →
      target.length = size w.public_graph_name name := by
    intro name target found
    cases seen : buffers.get? w.public_graph_name with
    | none => simp [seen] at found
    | some outputs => exact sized _ _ name target seen (by simpa [seen] using found)
  obtain ⟨frame,landed⟩ := merge_outputs_cells fits bound payload.entries payload.distinct start folded
  constructor
  · intro g x j v apart here
    rw [cell_set]
    split
    · rename_i same
      refine frame x j v (apart same) ?_
      obtain ⟨outputs,seen,at_j⟩ := Option.bind_eq_some_iff.mp here
      dsimp only
      rw [← same,seen]
      exact at_j
    · exact here
  · intro output member
    refine landed_kept (fun j v here => ?_) (landed output member)
    rw [cell_set,if_pos rfl]
    exact here

end
end Lumilake.Server

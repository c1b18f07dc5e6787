import Mathlib.Data.List.Dedup
import Lumilake.Runtime.S3Listing

-- The average size of the files of some folders, from a listing.
namespace Lumilake.DataProfile
open FormatString (Text)

def in_folder (F : Text) (e : Text × Option Int) : Bool := decide (folder_prefix_for_path e.1 = .ok F)

-- The sizes that count for a folder.
def samples (entries : List (Text × Option Int)) (F : Text) : List Int := (entries.filter (in_folder F)).filterMap Prod.snd

def Readable (entries : List (Text × Option Int)) : Prop := ∀ e ∈ entries, ∃ F, folder_prefix_for_path e.1 = .ok F

-- The folders that are averaged, each once.
def names (folders : List Text) : List Text := (folders.foldl (fun found folder => found.set folder ([] : List Int)) Dict.empty).keys

-- What the counting of a listing leaves.
structure Sampled (folders known : List Text) (entries : List (Text × Option Int)) (s : Samples) : Prop where
  sample_keys : s.folder_samples.keys = names folders
  count_keys : s.folder_entry_counts.keys = names folders
  samples : ∀ F ∈ folders, s.folder_samples.get? F = some (samples entries F)
  counts : ∀ F ∈ folders, s.folder_entry_counts.get? F = some (entries.filter (in_folder F)).length
  known : ∀ F, F ∈ s.known_folders ↔ F ∈ known ∨ ∃ e ∈ entries, folder_prefix_for_path e.1 = .ok F

theorem samples_snoc (entries : List (Text × Option Int)) (e : Text × Option Int) (F : Text) :
    samples (entries ++ [e]) F = samples entries F ++ (if in_folder F e then e.2.toList else []) := by
  unfold samples
  rw [List.filter_append,List.filterMap_append,List.filter_singleton]
  cases in_folder F e with
  | false => rfl
  | true => cases size : e.2 <;> simp [size]

theorem Sampled.step {folders known : List Text} {entries : List (Text × Option Int)} {s : Samples}
    (sampled : Sampled folders known entries s) {e : Text × Option Int} {F : Text} (read : folder_prefix_for_path e.1 = .ok F) :
    ∃ after, add_sample s e = .ok after ∧ Sampled folders known (entries ++ [e]) after := by
  have here : in_folder F e = true := decide_eq_true read
  have there {G : Text} (other : G ≠ F) : in_folder G e = false :=
    decide_eq_false fun same => other (Except.ok.inj (same.symm.trans read))
  refine ⟨_,by rw [add_sample,read]; rfl,?_,?_,fun G member => ?_,fun G member => ?_,fun G => ?_⟩
  · cases size : e.2 with
    | none => exact sampled.sample_keys
    | some size_bytes =>
        cases found : s.folder_samples.get? F with
        | none => exact sampled.sample_keys
        | some sizes => exact (Dict.keys_set_of_mem (Dict.mem_keys_iff.mpr ⟨_,found⟩)).trans sampled.sample_keys
  · cases found : s.folder_entry_counts.get? F with
    | none => exact sampled.count_keys
    | some count => exact (Dict.keys_set_of_mem (Dict.mem_keys_iff.mpr ⟨_,found⟩)).trans sampled.count_keys
  · rw [samples_snoc]
    by_cases same : G = F
    · subst same
      rw [if_pos here]
      cases size : e.2 with
      | none => exact (sampled.samples G member).trans (congrArg some (List.append_nil _).symm)
      | some size_bytes =>
          simp only [sampled.samples G member]
          exact Dict.get?_set_self _ _ _
    · rw [there same,if_neg Bool.false_ne_true,List.append_nil,← sampled.samples G member]
      cases size : e.2 with
      | none => rfl
      | some size_bytes =>
          cases found : s.folder_samples.get? F with
          | none => rfl
          | some sizes => exact Dict.get?_set_ne _ _ same
  · rw [List.filter_append,List.length_append,List.filter_singleton]
    by_cases same : G = F
    · subst same
      rw [here]
      simp only [sampled.counts G member]
      exact Dict.get?_set_self _ _ _
    · rw [there same]
      refine Eq.trans ?_ (sampled.counts G member)
      cases found : s.folder_entry_counts.get? F with
      | none => rfl
      | some count => exact Dict.get?_set_ne _ _ same
  · refine List.mem_cons.trans ?_
    rw [sampled.known G]
    simp only [List.mem_append,List.mem_singleton,or_and_right,exists_or,exists_eq_left,read,Except.ok.injEq]
    rw [or_left_comm,eq_comm,or_comm (a := F = G)]

end Lumilake.DataProfile

import Mathlib.Data.List.Induction

-- Finite runs of a labelled transition relation, and the one induction that
-- every safety result takes: what the start has and each step keeps, a run has.
inductive Runs (Step : S → L → S → Prop) : S → List L → S → Prop where
  | nil : Runs Step s [] s
  | snoc : Runs Step s labels middle → Step middle label after → Runs Step s (labels ++ [label]) after

namespace Runs
variable {S : Type u} {L : Type v} {Step : S → L → S → Prop}

theorem invariant {Holds : S → Prop} (start : Holds s)
    (kept : ∀ before label after, Holds before → Step before label after → Holds after)
    (path : Runs Step s labels t) : Holds t := by
  induction path with
  | nil => exact start
  | snoc _ step ih => exact kept _ _ _ ih step

-- The run that a step function takes along a list of labels.
theorem of_foldl (apply : S → L → S) (s : S) (labels : List L) :
    Runs (fun s label t => t = apply s label) s labels (labels.foldl apply s) := by
  induction labels using List.reverseRecOn with
  | nil => exact .nil
  | append_singleton labels label ih =>
    rw [List.foldl_append]
    exact .snoc ih rfl

theorem cons (first : Step s label middle) (rest : Runs Step middle labels t) : Runs Step s (label :: labels) t := by
  induction rest with
  | nil => exact .snoc .nil first
  | snoc _ step ih => exact .snoc ih step

-- Whether every label along the run of a step function meets a condition where it is taken.
def admits (apply : S → L → S) (Meets : S → L → Prop) [∀ s label, Decidable (Meets s label)] : S → List L → Bool
  | _,[] => true
  | s,label :: rest => decide (Meets s label) && admits apply Meets (apply s label) rest

theorem of_admits {apply : S → L → S} {Meets : S → L → Prop} [∀ s label, Decidable (Meets s label)]
    (checked : admits apply Meets s labels = true) :
    Runs (fun s label t => Meets s label ∧ t = apply s label) s labels (labels.foldl apply s) := by
  induction labels generalizing s with
  | nil => exact .nil
  | cons label rest ih =>
    simp only [admits,Bool.and_eq_true,decide_eq_true_eq] at checked
    exact cons ⟨checked.1,rfl⟩ (ih checked.2)

theorem mono {Step' : S → L → S → Prop} (weaker : ∀ s label t, Step s label t → Step' s label t)
    (path : Runs Step s labels t) : Runs Step' s labels t := by
  induction path with
  | nil => exact .nil
  | snoc _ step ih => exact .snoc ih (weaker _ _ _ step)

end Runs

import Lumilake.JobManager.CohortPack

namespace Lumilake.Policies
open CohortPack

inductive PolicyName where
  | default | fifo | spt | lpt | plas | cohort_pack
  deriving DecidableEq, Repr

def SCHEDULING_POLICIES : List (String × PolicyName) :=
  [("default",.default),("fifo",.fifo),("spt",.spt),("lpt",.lpt),("plas",.plas),("cohort_pack",.cohort_pack)]

-- What a policy is built with: the cost estimate behind `cost_params`, its custom
-- arguments, and `**` on floats.
structure PolicyArgs where
  estimate_area : WorkflowItem → Option Rat
  custom_args : CohortPackArgs := {}
  power : Rat → Rat → Rat

-- The state that a policy keeps between calls.
def PolicyName.State : PolicyName → Type
  | .plas => Dict String Rat
  | .cohort_pack => History
  | _ => Unit

def create_scheduling_policy (args : PolicyArgs) : (name : PolicyName) → SchedulingPolicy name.State
  | .default => default_policy
  | .fifo => fifo
  | .spt => spt args.estimate_area
  | .lpt => lpt args.estimate_area
  | .plas => plas args.estimate_area
  | .cohort_pack => cohort_pack args.custom_args args.power args.estimate_area

-- Every registered policy answers with a ranking of candidates.
theorem registered_ranks (args : PolicyArgs) (name : PolicyName) : (create_scheduling_policy args name).Ranks := by
  cases name with
  | default => exact default_ranks
  | fifo => exact fifo_ranks
  | spt => exact by_area_ranks id args.estimate_area
  | lpt => exact by_area_ranks (- ·) args.estimate_area
  | plas => exact plas_ranks args.estimate_area
  | cohort_pack => exact cohort_pack_ranks args.custom_args args.power args.estimate_area

end Lumilake.Policies

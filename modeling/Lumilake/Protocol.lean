import Mathlib.Data.Rat.Defs
import Lumilake.Library.Dict
import Lumilake.Value

namespace Lumilake

inductive Priority where
  | high | medium | low
  deriving DecidableEq, Repr

-- Declaration order, which is the order the source iterates the enum in.
def Priority.all : List Priority := [.high,.medium,.low]

theorem Priority.mem_all (p : Priority) : p ∈ Priority.all := by cases p <;> decide

structure HardwareRequirements where
  cpu : Option Nat := none
  memory : Option String := none
  gpu : Option Nat := none
  gpu_memory : Option String := none
  gpu_model : Option String := none
  deriving DecidableEq, Repr

structure LumilakeRequestConfig where
  priority : Priority := .medium
  user_id : String
  org_id : String := "default"
  principal_id : String
  optimizer_type : Option String := none
  hardware_requirements : Option HardwareRequirements := none
  chain_id : Option String := none
  chain_round : Nat := 0
  deriving DecidableEq

-- The outputs and the chat histories by graph and output name, and the errors
-- collected on the way.
structure LumilakeResponse where
  outputs : Dict String (Dict String Value) := Dict.empty
  error_info : Option (List Spec) := none
  chat_histories : Option (Dict String (Dict String Value)) := none

-- Clock readings. Every float is a rational, and the code only compares and subtracts them.
abbrev Time := Rat

end Lumilake

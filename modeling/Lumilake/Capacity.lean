import Lumilake.Utils.Text
import Lumilake.Protocol
import Lumilake.RuntimeGraph

namespace Lumilake

-- The task types a profile advertises, beside the keys that only the hardware
-- predicate reads.
structure WorkerProfile where
  supported_task_types : List String := []
  resources : Value := .none
  deriving DecidableEq

namespace WorkerCapability

def CAPABILITY_GATED_TASK_TYPES : List String := ["python"]
def CPU_ONLY_TASK_TYPES : List String := ["data_retrieval","api","python"]

def advertised_task_types (profile : WorkerProfile) : List String := profile.supported_task_types

def required_task_types (task_types : List String) : List String :=
  CAPABILITY_GATED_TASK_TYPES.filter (· ∈ task_types)

-- `(task_type or "").strip().lower()`
def normalized_task_type (task_type : String) : String := lower (strip task_type)

def requires_cpu_worker (task_types : List String) : Bool :=
  task_types.any (normalized_task_type · ∈ CPU_ONLY_TASK_TYPES)

end WorkerCapability

structure FreeCapacity where
  cpu_worker_ids : List String
  gpu_worker_ids : List String
  profiles : Dict String WorkerProfile := Dict.empty

namespace FreeCapacity
open WorkerCapability

abbrev MeetsHardware := WorkerProfile → Option HardwareRequirements → Bool

def cpu_count (free : FreeCapacity) : Nat := free.cpu_worker_ids.length
def gpu_count (free : FreeCapacity) : Nat := free.gpu_worker_ids.length
def profile (free : FreeCapacity) (worker : String) : WorkerProfile := (free.profiles.get? worker).getD {}

def can_satisfy (free : FreeCapacity) (cpu_group_size gpu_group_size : Nat) : Bool :=
  decide (cpu_group_size ≤ free.cpu_count) && decide (gpu_group_size ≤ free.gpu_count)

def advertises (free : FreeCapacity) (required : List String) (worker : String) : Bool :=
  required.all (· ∈ advertised_task_types (free.profile worker))

def meeting_hardware (free : FreeCapacity) (ids : List String) (meets : MeetsHardware)
    (hardware : Option HardwareRequirements) : List String :=
  if free.profiles.entries.isEmpty then ids
  else ids.filter (fun w => meets (free.profile w) hardware)

def eligible_workers (free : FreeCapacity) (cpu_group_size gpu_group_size : Nat) (meets : MeetsHardware)
    (hardware : Option HardwareRequirements) (required : List String := []) : Option (List String × List String) :=
  if free.cpu_count < cpu_group_size ∨ free.gpu_count < gpu_group_size then none
  else if required ≠ [] ∧ (cpu_group_size < 1 ∨ free.profiles.entries.isEmpty) then none
  else if free.profiles.entries.isEmpty then
    some (free.cpu_worker_ids.take cpu_group_size,free.gpu_worker_ids.take gpu_group_size)
  else
    let eligible_cpu := free.meeting_hardware free.cpu_worker_ids meets hardware
    let eligible_gpu := free.meeting_hardware free.gpu_worker_ids meets hardware
    if eligible_cpu.length < cpu_group_size ∨ eligible_gpu.length < gpu_group_size then none
    else
      let selected_cpu := eligible_cpu.take cpu_group_size
      if required = [] then some (selected_cpu,eligible_gpu.take gpu_group_size)
      else match eligible_cpu.filter (free.advertises required) with
        | [] => none
        | first :: rest =>
          -- the last member of the group gives way when none of them is capable
          if selected_cpu.any (· ∈ first :: rest) then some (selected_cpu,eligible_gpu.take gpu_group_size)
          else some (selected_cpu.dropLast ++ [first],eligible_gpu.take gpu_group_size)

def can_satisfy_hardware (free : FreeCapacity) (cpu_group_size gpu_group_size : Nat) (meets : MeetsHardware)
    (hardware : Option HardwareRequirements) : Bool :=
  (free.eligible_workers cpu_group_size gpu_group_size meets hardware).isSome

def dispatch_count (free : FreeCapacity) (cpu_group_size gpu_group_size : Nat) (meets : MeetsHardware)
    (hardware : Option HardwareRequirements) (required : List String := []) : Nat :=
  let eligible_cpu := free.meeting_hardware free.cpu_worker_ids meets hardware
  let eligible_gpu := free.meeting_hardware free.gpu_worker_ids meets hardware
  let counts := ([(eligible_cpu,cpu_group_size),(eligible_gpu,gpu_group_size)].filter (0 < ·.2)).map
    (fun group => group.1.length / group.2)
  if required ≠ [] ∧ (cpu_group_size < 1 ∨ free.profiles.entries.isEmpty) then 0
  else
    let counts := if required = [] then counts
      else counts ++ [(eligible_cpu.filter (free.advertises required)).length]
    counts.min?.getD 0

variable {free : FreeCapacity} {cpu_group_size gpu_group_size : Nat} {meets : MeetsHardware}
  {hardware : Option HardwareRequirements} {required : List String}

theorem can_satisfy_iff : free.can_satisfy cpu_group_size gpu_group_size = true ↔
    cpu_group_size ≤ free.cpu_worker_ids.length ∧ gpu_group_size ≤ free.gpu_worker_ids.length := by
  unfold can_satisfy cpu_count gpu_count
  rw [Bool.and_eq_true,decide_eq_true_iff,decide_eq_true_iff]

theorem meeting_subset (free : FreeCapacity) (meets : MeetsHardware) (hardware : Option HardwareRequirements)
    (ids : List String) : free.meeting_hardware ids meets hardware ⊆ ids := by
  unfold meeting_hardware
  split
  · exact List.Subset.refl _
  · exact List.filter_sublist.subset

theorem meeting_length (free : FreeCapacity) (meets : MeetsHardware) (hardware : Option HardwareRequirements)
    (ids : List String) : (free.meeting_hardware ids meets hardware).length ≤ ids.length := by
  unfold meeting_hardware
  split
  · exact Nat.le_refl _
  · exact List.length_filter_le _ _

theorem advertises_nothing (empty : free.profiles.entries.isEmpty) (some_type : required ≠ []) (worker : String) :
    free.advertises required worker = false := by
  obtain ⟨first,rest,rfl⟩ := List.exists_cons_of_ne_nil some_type
  have blank : free.profile worker = {} := by
    simp [profile,Dict.get?,List.isEmpty_iff.mp empty]
  simp [advertises,advertised_task_types,blank]

-- The answer is there exactly when each class has enough workers that meet the
-- hardware and the CPU group can hold one that advertises the gated types.
theorem eligible_iff : (∃ selected, free.eligible_workers cpu_group_size gpu_group_size meets hardware required = some selected) ↔
    cpu_group_size ≤ (free.meeting_hardware free.cpu_worker_ids meets hardware).length ∧
      gpu_group_size ≤ (free.meeting_hardware free.gpu_worker_ids meets hardware).length ∧
      (required ≠ [] → 1 ≤ cpu_group_size ∧
        ∃ w ∈ free.meeting_hardware free.cpu_worker_ids meets hardware, free.advertises required w = true) := by
  have cpu := meeting_length free meets hardware free.cpu_worker_ids
  have gpu := meeting_length free meets hardware free.gpu_worker_ids
  unfold eligible_workers cpu_count gpu_count
  split
  · constructor
    · rintro ⟨_,⟨⟩⟩
    · omega
  · split
    · rename_i enough gated
      constructor
      · rintro ⟨_,⟨⟩⟩
      · rintro ⟨_,_,capable⟩
        obtain ⟨large,w,_,advertised⟩ := capable gated.1
        rcases gated.2 with small | empty
        · omega
        · rw [advertises_nothing empty gated.1 w] at advertised; cases advertised
    · rename_i counts gated
      have large : required ≠ [] → 1 ≤ cpu_group_size := by
        intro some_type
        by_contra small
        exact gated ⟨some_type,.inl (by omega)⟩
      split
      · rename_i empty
        have plain : required = [] := by
          by_contra some_type
          exact gated ⟨some_type,.inr empty⟩
        simp only [meeting_hardware,empty,if_true]
        exact ⟨fun _ => ⟨by omega,by omega,fun some_type => absurd plain some_type⟩,fun _ => ⟨_,rfl⟩⟩
      · dsimp only
        split
        · constructor
          · rintro ⟨_,⟨⟩⟩
          · omega
        · split
          · rename_i plain
            exact ⟨fun _ => ⟨by omega,by omega,fun some_type => absurd plain some_type⟩,fun _ => ⟨_,rfl⟩⟩
          · rename_i some_type
            split
            · rename_i nobody
              constructor
              · rintro ⟨_,⟨⟩⟩
              · rintro ⟨_,_,capable⟩
                obtain ⟨_,w,member,advertised⟩ := capable some_type
                exact absurd advertised (List.filter_eq_nil_iff.mp nobody w member)
            · rename_i first rest capable
              have member : first ∈ (free.meeting_hardware free.cpu_worker_ids meets hardware).filter (free.advertises required) := by
                rw [capable]; exact List.mem_cons_self
              obtain ⟨eligible,advertised⟩ := List.mem_filter.mp member
              refine ⟨fun _ => ⟨by omega,by omega,fun _ => ⟨large some_type,first,eligible,advertised⟩⟩,fun _ => ?_⟩
              split <;> exact ⟨_,rfl⟩

-- The two groups that are claimed have the sizes that were asked for.
theorem eligible_sizes {selected : List String × List String}
    (found : free.eligible_workers cpu_group_size gpu_group_size meets hardware required = some selected) :
    selected.1.length = cpu_group_size ∧ selected.2.length = gpu_group_size ∧
      selected.1 ⊆ free.cpu_worker_ids ∧ selected.2 ⊆ free.gpu_worker_ids := by
  obtain ⟨cpu,gpu,capable⟩ := eligible_iff.mp ⟨selected,found⟩
  have cpu_ids := meeting_subset free meets hardware free.cpu_worker_ids
  have gpu_ids := meeting_subset free meets hardware free.gpu_worker_ids
  have group : ∀ {ids : List String} (size : Nat), size ≤ (free.meeting_hardware ids meets hardware).length →
      ((free.meeting_hardware ids meets hardware).take size).length = size ∧
        (free.meeting_hardware ids meets hardware).take size ⊆ ids := by
    intro ids size fits
    exact ⟨by simpa using fits,fun w there => meeting_subset free meets hardware ids (List.take_subset _ _ there)⟩
  obtain ⟨cpu_size,cpu_inside⟩ := group cpu_group_size cpu
  obtain ⟨gpu_size,gpu_inside⟩ := group gpu_group_size gpu
  unfold eligible_workers at found
  split at found
  · cases found
  · split at found
    · cases found
    · split at found
      · rename_i empty
        simp only [meeting_hardware,empty,if_true] at cpu_size cpu_inside gpu_size gpu_inside
        cases found
        exact ⟨cpu_size,gpu_size,cpu_inside,gpu_inside⟩
      · dsimp only at found
        split at found
        · cases found
        · split at found
          · cases found
            exact ⟨cpu_size,gpu_size,cpu_inside,gpu_inside⟩
          · rename_i some_type
            split at found
            · cases found
            · rename_i first rest several
              split at found
              · cases found
                exact ⟨cpu_size,gpu_size,cpu_inside,gpu_inside⟩
              · cases found
                have large := (capable some_type).1
                have member : first ∈ (free.meeting_hardware free.cpu_worker_ids meets hardware).filter (free.advertises required) := by
                  rw [several]; exact List.mem_cons_self
                refine ⟨by simp only [List.length_append,List.length_dropLast,cpu_size,List.length_singleton]; omega,gpu_size,?_,gpu_inside⟩
                intro w there
                rcases List.mem_append.mp there with kept | new
                · exact cpu_inside (List.dropLast_subset _ kept)
                · rw [List.mem_singleton.mp new]
                  exact cpu_ids (List.mem_filter.mp member).1

end FreeCapacity
end Lumilake

import Mathlib.Tactic.IntervalCases
import Lumilake.Capacity
import Lumilake.Library.Groups

namespace Lumilake.FreeCapacity
open Groups WorkerCapability

-- The snapshot without the claimed workers: they leave the two lists. The table of profiles
-- stays whole, since an empty one says that the snapshot has no profiles at all.
def without (free : FreeCapacity) (claimed : List String × List String) : FreeCapacity :=
  { free with
    cpu_worker_ids := free.cpu_worker_ids.diff claimed.1
    gpu_worker_ids := free.gpu_worker_ids.diff claimed.2 }

-- How many claims in a row are served until one finds no workers.
inductive Claims (cpu_group_size gpu_group_size : Nat) (meets : MeetsHardware) (hardware : Option HardwareRequirements)
    (required : List String) : FreeCapacity → Nat → Prop where
  | refused : free.eligible_workers cpu_group_size gpu_group_size meets hardware required = none →
      Claims cpu_group_size gpu_group_size meets hardware required free 0
  | claimed : free.eligible_workers cpu_group_size gpu_group_size meets hardware required = some workers →
      Claims cpu_group_size gpu_group_size meets hardware required (free.without workers) n →
      Claims cpu_group_size gpu_group_size meets hardware required free (n + 1)

-- Whether `n` claims in a row can be served, by the lists of eligible workers.
def Fits (free : FreeCapacity) (cpu_group_size gpu_group_size : Nat) (meets : MeetsHardware)
    (hardware : Option HardwareRequirements) (required : List String) (n : Nat) : Prop :=
  n * cpu_group_size ≤ (free.meeting_hardware free.cpu_worker_ids meets hardware).length ∧
  n * gpu_group_size ≤ (free.meeting_hardware free.gpu_worker_ids meets hardware).length ∧
  (required ≠ [] → n = 0 ∨ 1 ≤ cpu_group_size ∧
    Spread (free.advertises required) cpu_group_size n (free.meeting_hardware free.cpu_worker_ids meets hardware))

variable {free : FreeCapacity} {cpu_group_size gpu_group_size : Nat} {meets : MeetsHardware}
  {hardware : Option HardwareRequirements} {required : List String}

theorem diff_take (ids : List String) (size : Nat) : ids.diff (ids.take size) = ids.drop size := by
  induction ids generalizing size with
  | nil => simp
  | cons w rest ih =>
      cases size with
      | zero => rfl
      | succ size => simpa using ih size

theorem diff_filter (ids gone : List String) (keep : String → Bool) :
    (ids.diff gone).filter keep = (ids.filter keep).diff gone := by
  induction gone generalizing ids with
  | nil => rfl
  | cons w rest ih => rw [List.diff_cons,List.diff_cons,ih,List.erase_filter]

theorem meeting_diff (free : FreeCapacity) (ids gone : List String) :
    free.meeting_hardware (ids.diff gone) meets hardware = (free.meeting_hardware ids meets hardware).diff gone := by
  unfold meeting_hardware
  split
  · rfl
  · exact diff_filter ids gone _

-- Erasing the first capable worker by name erases the first one of them.
theorem erase_first {marked : String → Bool} {ids : List String} (first : ids.filter marked = w :: rest) :
    ids.erase w = ids.eraseP marked := by
  induction ids with
  | nil => cases first
  | cons x later ih =>
      cases own : marked x with
      | true =>
          rw [List.filter_cons_of_pos own] at first
          cases first
          rw [List.erase_cons_head,List.eraseP_cons_of_pos own]
      | false =>
          rw [List.filter_cons_of_neg (by simp [own])] at first
          have other : x ≠ w := by
            rintro rfl
            have member : x ∈ later.filter marked := first ▸ List.mem_cons_self
            rw [(List.mem_filter.mp member).2] at own
            cases own
          rw [List.erase_cons_tail (by simpa using other),List.eraseP_cons_of_neg (by simp [own]),ih first]

-- What a claim leaves of the eligible workers.
theorem claim_leaves {workers : List String × List String}
    (found : free.eligible_workers cpu_group_size gpu_group_size meets hardware required = some workers) :
    (free.meeting_hardware free.gpu_worker_ids meets hardware).diff workers.2 =
        (free.meeting_hardware free.gpu_worker_ids meets hardware).drop gpu_group_size ∧
      (free.meeting_hardware free.cpu_worker_ids meets hardware).diff workers.1 =
        if required = [] then (free.meeting_hardware free.cpu_worker_ids meets hardware).drop cpu_group_size
        else left_over (free.advertises required) cpu_group_size (free.meeting_hardware free.cpu_worker_ids meets hardware) := by
  obtain ⟨cpu,gpu,capable⟩ := eligible_iff.mp ⟨workers,found⟩
  unfold eligible_workers at found
  split at found
  · cases found
  · split at found
    · cases found
    · rename_i gated
      split at found
      · rename_i empty
        have plain : required = [] := by
          by_contra some_type
          exact gated ⟨some_type,.inr empty⟩
        cases found
        simp only [meeting_hardware,empty,if_true,plain,diff_take,and_self]
      · dsimp only at found
        split at found
        · cases found
        · split at found
          · rename_i plain
            cases found
            simp only [plain,if_true,diff_take,and_self]
          · rename_i some_type
            rw [if_neg some_type]
            split at found
            · cases found
            · rename_i first rest several
              have held : ((free.meeting_hardware free.cpu_worker_ids meets hardware).take cpu_group_size).any
                  (fun w => decide (w ∈ first :: rest)) =
                  ((free.meeting_hardware free.cpu_worker_ids meets hardware).take cpu_group_size).any
                    (free.advertises required) := by
                rw [← several,Bool.eq_iff_iff,List.any_eq_true,List.any_eq_true]
                refine exists_congr fun w => and_congr_right fun inside => ?_
                rw [decide_eq_true_eq,List.mem_filter]
                exact and_iff_right (List.mem_of_mem_take inside)
              rw [held] at found
              split at found
              · rename_i there
                cases found
                exact ⟨diff_take _ _,by rw [left_over,if_pos there,diff_take]⟩
              · rename_i absent
                cases found
                refine ⟨diff_take _ _,?_⟩
                have shorter : ((free.meeting_hardware free.cpu_worker_ids meets hardware).take cpu_group_size).dropLast =
                    (free.meeting_hardware free.cpu_worker_ids meets hardware).take (cpu_group_size - 1) := by
                  rw [List.dropLast_eq_take,List.take_take,List.length_take]
                  congr 1
                  omega
                have behind : ((free.meeting_hardware free.cpu_worker_ids meets hardware).drop (cpu_group_size - 1)).filter
                    (free.advertises required) = first :: rest := by
                  have none_before : ((free.meeting_hardware free.cpu_worker_ids meets hardware).take (cpu_group_size - 1)).filter
                      (free.advertises required) = [] := by
                    rw [List.filter_eq_nil_iff]
                    intro w member able
                    refine absent (List.any_eq_true.mpr ⟨w,?_,able⟩)
                    exact List.take_subset_take_left _ (Nat.sub_le _ 1) member
                  have parts := List.filter_append (p := free.advertises required)
                    ((free.meeting_hardware free.cpu_worker_ids meets hardware).take (cpu_group_size - 1))
                    ((free.meeting_hardware free.cpu_worker_ids meets hardware).drop (cpu_group_size - 1))
                  rw [List.take_append_drop,several,none_before,List.nil_append] at parts
                  exact parts.symm
                rw [left_over,if_neg absent,List.diff_append,shorter,diff_take,List.diff_cons,List.diff_nil,erase_first behind]

theorem fits_one_iff : Fits free cpu_group_size gpu_group_size meets hardware required 1 ↔
    ∃ workers, free.eligible_workers cpu_group_size gpu_group_size meets hardware required = some workers := by
  rw [eligible_iff]
  unfold Fits Spread
  rw [Nat.one_mul,Nat.one_mul]
  refine and_congr_right fun cpu => and_congr_right fun _ => forall_congr' fun some_type => ?_
  constructor
  · rintro (none | ⟨large,_,capable⟩)
    · cases none
    · have one := capable 0 Nat.one_pos
      rw [Nat.zero_mul,List.drop_zero] at one
      exact ⟨large,List.countP_pos_iff.mp one⟩
  · rintro ⟨large,capable⟩
    refine .inr ⟨large,cpu,fun i first => ?_⟩
    obtain rfl : i = 0 := by omega
    rw [Nat.zero_mul,List.drop_zero]
    exact List.countP_pos_iff.mpr capable

theorem fits_zero : Fits free cpu_group_size gpu_group_size meets hardware required 0 :=
  ⟨by omega,by omega,fun _ => .inl rfl⟩

theorem Fits.mono (fits : Fits free cpu_group_size gpu_group_size meets hardware required n) (fewer : m ≤ n) :
    Fits free cpu_group_size gpu_group_size meets hardware required m := by
  obtain ⟨cpu,gpu,capable⟩ := fits
  refine ⟨Nat.le_trans (Nat.mul_le_mul_right _ fewer) cpu,Nat.le_trans (Nat.mul_le_mul_right _ fewer) gpu,fun some_type => ?_⟩
  rcases capable some_type with none | ⟨large,spread⟩
  · exact .inl (by omega)
  · exact .inr ⟨large,spread.mono fewer⟩

-- A served claim takes one off the number that fit.
theorem fits_step {workers : List String × List String}
    (found : free.eligible_workers cpu_group_size gpu_group_size meets hardware required = some workers) :
    Fits free cpu_group_size gpu_group_size meets hardware required (n + 1) ↔
      Fits (free.without workers) cpu_group_size gpu_group_size meets hardware required n := by
  obtain ⟨cpu,gpu,capable⟩ := eligible_iff.mp ⟨workers,found⟩
  obtain ⟨gpu_left,cpu_left⟩ := claim_leaves found
  have still : ∀ ids, (free.without workers).meeting_hardware ids meets hardware = free.meeting_hardware ids meets hardware :=
    fun _ => rfl
  have advertised : (free.without workers).advertises required = free.advertises required := rfl
  unfold Fits
  rw [advertised,still,still]
  unfold without
  dsimp only
  rw [meeting_diff,meeting_diff,gpu_left,cpu_left,List.length_drop,Nat.succ_mul,Nat.succ_mul]
  generalize gpus : free.meeting_hardware free.gpu_worker_ids meets hardware = eligible_gpu at gpu
  generalize cpus : free.meeting_hardware free.cpu_worker_ids meets hardware = eligible_cpu at cpu capable
  have fewer_gpu : n * gpu_group_size + gpu_group_size ≤ eligible_gpu.length ↔
      n * gpu_group_size ≤ eligible_gpu.length - gpu_group_size := by omega
  have fewer_cpu : n * cpu_group_size + cpu_group_size ≤ eligible_cpu.length ↔
      n * cpu_group_size ≤ eligible_cpu.length - cpu_group_size := by omega
  rw [fewer_gpu,fewer_cpu]
  by_cases plain : required = []
  · rw [if_pos plain,List.length_drop]
    have free_types : ∀ P : Prop, (required ≠ [] → P) ↔ True := fun P => iff_true_intro fun some_type => absurd plain some_type
    rw [free_types,free_types]
  · rw [if_neg plain]
    obtain ⟨large,w,member,able⟩ := capable plain
    have one : 0 < eligible_cpu.countP (free.advertises required) := List.countP_pos_iff.mpr ⟨w,member,able⟩
    have step := spread_step (n := n) cpu large one
    rw [left_over_length cpu large one]
    refine and_congr_right fun _ => and_congr_right fun _ => forall_congr' fun some_type => ?_
    rw [step]
    constructor
    · rintro (none | ⟨_,spread⟩)
      · cases none
      · exact .inr ⟨large,spread⟩
    · rintro (rfl | ⟨_,spread⟩)
      · exact .inr ⟨large,spread_zero⟩
      · exact .inr ⟨large,spread⟩

-- The run of claims is as long as the largest number that fits.
theorem claims_iff : Claims cpu_group_size gpu_group_size meets hardware required free n ↔
    Fits free cpu_group_size gpu_group_size meets hardware required n ∧
      ¬Fits free cpu_group_size gpu_group_size meets hardware required (n + 1) := by
  induction n generalizing free with
  | zero =>
      rw [fits_one_iff]
      constructor
      · intro claims
        cases claims with
        | refused refused => exact ⟨fits_zero,fun ⟨workers,found⟩ => by rw [refused] at found; cases found⟩
      · intro ⟨_,refused⟩
        refine .refused ?_
        cases found : free.eligible_workers cpu_group_size gpu_group_size meets hardware required with
        | none => rfl
        | some workers => exact absurd ⟨workers,found⟩ refused
  | succ n ih =>
      constructor
      · intro claims
        cases claims with
        | claimed found later =>
            obtain ⟨fits,full⟩ := ih.mp later
            exact ⟨(fits_step found).mpr fits,fun more => full ((fits_step found).mp more)⟩
      · intro ⟨fits,full⟩
        obtain ⟨workers,found⟩ := fits_one_iff.mp (fits.mono (by omega))
        exact .claimed found (ih.mpr ⟨(fits_step found).mp fits,fun more => full ((fits_step found).mpr more)⟩)

theorem claims_unique (first : Claims cpu_group_size gpu_group_size meets hardware required free n)
    (second : Claims cpu_group_size gpu_group_size meets hardware required free m) : n = m := by
  obtain ⟨fits_n,full_n⟩ := claims_iff.mp first
  obtain ⟨fits_m,full_m⟩ := claims_iff.mp second
  rcases Nat.lt_trichotomy n m with less | same | more
  · exact absurd (fits_m.mono (by omega)) full_n
  · exact same
  · exact absurd (fits_n.mono (by omega)) full_m

theorem fits_bounded (grouped : 0 < cpu_group_size ∨ 0 < gpu_group_size)
    (fits : Fits free cpu_group_size gpu_group_size meets hardware required n) :
    n ≤ (free.meeting_hardware free.cpu_worker_ids meets hardware).length +
      (free.meeting_hardware free.gpu_worker_ids meets hardware).length := by
  obtain ⟨cpu,gpu,_⟩ := fits
  rcases grouped with positive | positive
  · have := Nat.le_mul_of_pos_right n positive
    omega
  · have := Nat.le_mul_of_pos_right n positive
    omega

theorem claims_exist (free : FreeCapacity) (meets : MeetsHardware) (hardware : Option HardwareRequirements)
    (required : List String) (grouped : 0 < cpu_group_size ∨ 0 < gpu_group_size) :
    ∃ n, Claims cpu_group_size gpu_group_size meets hardware required free n := by
  classical
  have stops : ∃ n, ¬Fits free cpu_group_size gpu_group_size meets hardware required n :=
    ⟨_,fun fits => Nat.not_succ_le_self _ (fits_bounded grouped fits)⟩
  have least := Nat.find_spec stops
  cases at_first : Nat.find stops with
  | zero => rw [at_first] at least; exact absurd fits_zero least
  | succ n =>
      rw [at_first] at least
      refine ⟨n,claims_iff.mpr ⟨?_,least⟩⟩
      by_contra earlier
      exact Nat.find_min stops (by omega) earlier

-- The count is the largest number whose groups fit by size and capable workers.
theorem le_dispatch_count (free : FreeCapacity) (meets : MeetsHardware) (hardware : Option HardwareRequirements)
    (required : List String) (grouped : 0 < cpu_group_size ∨ 0 < gpu_group_size) :
    n ≤ free.dispatch_count cpu_group_size gpu_group_size meets hardware required ↔
      n * cpu_group_size ≤ (free.meeting_hardware free.cpu_worker_ids meets hardware).length ∧
      n * gpu_group_size ≤ (free.meeting_hardware free.gpu_worker_ids meets hardware).length ∧
      (required ≠ [] → n = 0 ∨ 1 ≤ cpu_group_size ∧
        n ≤ (free.meeting_hardware free.cpu_worker_ids meets hardware).countP (free.advertises required)) := by
  unfold dispatch_count
  dsimp only
  split
  · rename_i gated
    constructor
    · intro none
      obtain rfl : n = 0 := by omega
      exact ⟨by omega,by omega,fun _ => .inl rfl⟩
    · rintro ⟨_,_,capable⟩
      rcases capable gated.1 with none | ⟨large,able⟩
      · omega
      · rcases gated.2 with small | empty
        · omega
        · have nobody : (free.meeting_hardware free.cpu_worker_ids meets hardware).countP (free.advertises required) = 0 :=
            List.countP_eq_zero.mpr fun w _ => by simp [advertises_nothing empty gated.1 w]
          omega
  · rename_i gated
    generalize free.meeting_hardware free.cpu_worker_ids meets hardware = eligible_cpu
    generalize free.meeting_hardware free.gpu_worker_ids meets hardware = eligible_gpu
    rw [← List.countP_eq_length_filter]
    by_cases plain : required = []
    · rw [if_pos plain]
      have free_types : ∀ P : Prop, (required ≠ [] → P) ↔ True := fun P => iff_true_intro fun some_type => absurd plain some_type
      rw [free_types]
      by_cases cpu : 0 < cpu_group_size <;> by_cases gpu : 0 < gpu_group_size <;>
        simp_all [Nat.le_div_iff_mul_le]
    · have large : 0 < cpu_group_size := by
        by_contra small
        exact gated ⟨plain,.inl (by omega)⟩
      have one : 1 ≤ cpu_group_size := large
      rw [if_neg plain]
      have capable : (required ≠ [] → n = 0 ∨ 1 ≤ cpu_group_size ∧ n ≤ eligible_cpu.countP (free.advertises required)) ↔
          n ≤ eligible_cpu.countP (free.advertises required) := by
        refine ⟨fun given => ?_,fun able _ => .inr ⟨one,able⟩⟩
        rcases given plain with rfl | ⟨_,able⟩
        · exact Nat.zero_le _
        · exact able
      rw [capable]
      by_cases gpu : 0 < gpu_group_size
      · simp [large,gpu,Nat.le_div_iff_mul_le]
      · obtain rfl : gpu_group_size = 0 := by omega
        simp [large,Nat.le_div_iff_mul_le]

-- Capable workers are spread over the eligible ones: for every number of groups that
-- fit by size and capable workers, dropping the first of them leaves enough capable
-- workers for the others.
def CapableSpread (free : FreeCapacity) (cpu_group_size gpu_group_size : Nat) (meets : MeetsHardware)
    (hardware : Option HardwareRequirements) (required : List String) : Prop :=
  let eligible_cpu := free.meeting_hardware free.cpu_worker_ids meets hardware
  let eligible_gpu := free.meeting_hardware free.gpu_worker_ids meets hardware
  ∀ groups dropped, dropped < groups → groups * cpu_group_size ≤ eligible_cpu.length →
    groups * gpu_group_size ≤ eligible_gpu.length → groups ≤ eligible_cpu.countP (free.advertises required) →
    groups - dropped ≤ (eligible_cpu.drop (dropped * cpu_group_size)).countP (free.advertises required)

theorem fits_count_iff (grouped : 0 < cpu_group_size ∨ 0 < gpu_group_size) :
    Fits free cpu_group_size gpu_group_size meets hardware required
        (free.dispatch_count cpu_group_size gpu_group_size meets hardware required) ↔
      required = [] ∨ CapableSpread free cpu_group_size gpu_group_size meets hardware required := by
  obtain ⟨cpu,gpu,capable⟩ := (le_dispatch_count free meets hardware required grouped).mp (Nat.le_refl _)
  constructor
  · intro fits
    by_cases plain : required = []
    · exact .inl plain
    refine .inr fun groups dropped fewer cpu gpu able => ?_
    by_cases large : 1 ≤ cpu_group_size
    · have within := (le_dispatch_count _ _ _ _ grouped).mpr ⟨cpu,gpu,fun _ => .inr ⟨large,able⟩⟩
      rcases (fits.mono within).2.2 plain with none | ⟨_,spread⟩
      · omega
      · exact spread.2 dropped fewer
    · obtain rfl : cpu_group_size = 0 := by omega
      rw [Nat.mul_zero,List.drop_zero]
      omega
  · intro spread
    refine ⟨cpu,gpu,fun some_type => ?_⟩
    rcases capable some_type with none | ⟨large,able⟩
    · exact .inl none
    · rcases spread with plain | spread
      · exact absurd plain some_type
      · exact .inr ⟨large,cpu,fun i lower => spread _ i lower cpu gpu able⟩

-- The count matches the claims exactly when no gated type is needed or the capable
-- workers are spread.
theorem dispatch_count_iff (free : FreeCapacity) (meets : MeetsHardware) (hardware : Option HardwareRequirements)
    (required : List String) (grouped : 0 < cpu_group_size ∨ 0 < gpu_group_size) :
    ∃ n, Claims cpu_group_size gpu_group_size meets hardware required free n ∧
      (∀ m, Claims cpu_group_size gpu_group_size meets hardware required free m → m = n) ∧
      (free.dispatch_count cpu_group_size gpu_group_size meets hardware required = n ↔
        required = [] ∨ CapableSpread free cpu_group_size gpu_group_size meets hardware required) := by
  obtain ⟨n,claims⟩ := claims_exist free meets hardware required grouped
  refine ⟨n,claims,fun m other => claims_unique other claims,?_⟩
  rw [← fits_count_iff grouped]
  obtain ⟨fits,full⟩ := claims_iff.mp claims
  constructor
  · intro same
    rw [same]
    exact fits
  · intro counted
    have within : n ≤ free.dispatch_count cpu_group_size gpu_group_size meets hardware required := by
      refine (le_dispatch_count _ _ _ _ grouped).mpr ⟨fits.1,fits.2.1,fun some_type => ?_⟩
      rcases fits.2.2 some_type with none | ⟨large,spread⟩
      · exact .inl none
      · refine (Nat.eq_zero_or_pos n).imp id fun positive => ⟨large,?_⟩
        have first := spread.2 0 positive
        rwa [Nat.zero_mul,List.drop_zero,Nat.sub_zero] at first
    rcases Nat.lt_or_ge n (free.dispatch_count cpu_group_size gpu_group_size meets hardware required) with more | most
    · exact absurd (counted.mono more) full
    · omega

def pythonWorker : WorkerProfile := { supported_task_types := ["python"] }
def plainWorker : WorkerProfile := {}

-- Two capable workers in front of two plain ones.
def capableFirst : FreeCapacity where
  cpu_worker_ids := ["c1","c2","n1","n2"]
  gpu_worker_ids := []
  profiles := ((((Dict.empty.set "c1" pythonWorker).set "c2" pythonWorker).set "n1" plainWorker).set "n2" plainWorker)

def capableApart : FreeCapacity := { capableFirst with cpu_worker_ids := ["c1","n1","c2","n2"] }

theorem dispatch_count_iff_apart :
    ∃ n, Claims 2 0 (fun _ _ => true) none ["python"] capableApart n ∧
      (∀ m, Claims 2 0 (fun _ _ => true) none ["python"] capableApart m → m = n) ∧
      capableApart.dispatch_count 2 0 (fun _ _ => true) none ["python"] = n := by
  have grouped : 0 < 2 ∨ 0 < 0 := .inl (by decide)
  obtain ⟨n,claims,only,counted⟩ := dispatch_count_iff capableApart (fun _ _ => true) none ["python"] grouped
  refine ⟨n,claims,only,counted.mpr (.inr fun groups dropped fewer cpu _ _ => ?_)⟩
  have eligible : capableApart.meeting_hardware capableApart.cpu_worker_ids (fun _ _ => true) none = ["c1","n1","c2","n2"] := by
    decide
  rw [eligible] at cpu ⊢
  have few : groups ≤ 2 := by simp only [List.length_cons,List.length_nil] at cpu; omega
  interval_cases groups <;> interval_cases dropped <;> decide

-- The first claim takes both capable workers, so the second of the two counted finds none.
theorem dispatch_count_overstates : ¬ ∀ (free : FreeCapacity) (cpu_group_size gpu_group_size : Nat) (meets : MeetsHardware)
    (hardware : Option HardwareRequirements) (required : List String) (n : Nat),
    (free.cpu_worker_ids ++ free.gpu_worker_ids).Nodup → 0 < cpu_group_size ∨ 0 < gpu_group_size →
    Claims cpu_group_size gpu_group_size meets hardware required free n →
    free.dispatch_count cpu_group_size gpu_group_size meets hardware required = n := by
  intro counted
  have served : Claims 2 0 (fun _ _ => true) none ["python"] capableFirst 1 :=
    .claimed (show capableFirst.eligible_workers 2 0 (fun _ _ => true) none ["python"] = some (["c1","c2"],[]) by decide)
      (.refused (by decide))
  have same := counted capableFirst 2 0 (fun _ _ => true) none ["python"] 1 (by decide) (.inl (by decide)) served
  revert same
  decide

end Lumilake.FreeCapacity

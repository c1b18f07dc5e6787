import Lumilake.Server.NodesProcessed

namespace Lumilake.Server
open Weights PriorityQueue

-- An exception on a way that does not lead to `_release_workers`: between the commit and the
-- task, in `_release_workers` itself, or out of the first execution of a batch.
def Label.unprotected : Label → Bool
  | .dispatch_raises | .undo_raises | .release_raises | .raises true => true
  | _ => false

namespace System

-- The workers of every batch in flight, the one the scheduler is about to start included.
def holdings (s : System) : List (List String) := s.scheduler.holding :: s.runs.map BatchRun.workers

def holders (s : System) (worker : String) : Nat := weight (fun held => if worker ∈ held then 1 else 0) s.holdings

structure Exclusive (s : System) : Prop where
  once : ∀ worker, s.holders worker = if worker ∈ s.busy_workers then 1 else 0
  nested : ∀ r ∈ s.runs, r.point = .escaped → r.reruns.isSome = true

end System

theorem try_claim_spec {cfg : Settings} {batch : Reservation} {free total : FreeCapacity}
    (claimed : try_claim_workers cfg busy batch free total = (after,some workers)) :
    after = busy ∪ workers.toFinset ∧ ∀ worker ∈ workers, worker ∉ busy := by
  unfold try_claim_workers at claimed
  dsimp only at claimed
  split at claimed
  · cases claimed
  · split at claimed
    · cases claimed
    · rename_i free_workers
      cases claimed
      exact ⟨rfl,fun worker member busy_worker => free_workers (.inr ⟨worker,member,busy_worker⟩)⟩

namespace System
variable {s t : System}

theorem Exclusive.keep (exclusive : s.Exclusive) (busy : t.busy_workers = s.busy_workers)
    (holders : ∀ worker, t.holders worker = s.holders worker)
    (nested : ∀ r ∈ t.runs, r.point = .escaped → r.reruns.isSome = true) : t.Exclusive :=
  ⟨fun worker => by rw [holders,busy,exclusive.once],nested⟩

theorem swap_nested (exclusive : s.Exclusive) (here : s.runs = before ++ r :: after)
    (own : r'.point = .escaped → r'.reruns.isSome = true) :
    ∀ x ∈ before ++ r' :: after, x.point = .escaped → x.reruns.isSome = true := by
  intro x member
  rcases List.mem_append.mp member with first | last
  · exact exclusive.nested x (here ▸ List.mem_append_left _ first)
  · rcases List.mem_cons.mp last with rfl | last
    · exact own
    · exact exclusive.nested x (here ▸ List.mem_append_right _ (List.mem_cons_of_mem _ last))

theorem drop_nested (exclusive : s.Exclusive) (here : s.runs = before ++ r :: after) :
    ∀ x ∈ before ++ after, x.point = .escaped → x.reruns.isSome = true := by
  intro x member
  refine exclusive.nested x ?_
  rw [here]
  simp only [List.mem_append,List.mem_cons] at member ⊢
  tauto

-- A step of one run.
theorem Exclusive.swap (exclusive : s.Exclusive) (here : s.runs = before ++ r :: after) (runs : t.runs = before ++ r' :: after)
    (workers : r'.workers = r.workers) (scheduler : t.scheduler = s.scheduler) (busy : t.busy_workers = s.busy_workers)
    (nested : r'.point = .escaped → r'.reruns.isSome = true) : t.Exclusive := by
  refine exclusive.keep busy (fun worker => ?_) (runs ▸ swap_nested exclusive here nested)
  simp only [holders,holdings,runs,here,scheduler,List.map_append,List.map_cons,workers]

theorem Exclusive.take (exclusive : s.Exclusive) (workers : List String) (new : ∀ worker ∈ workers, worker ∉ s.busy_workers)
    (busy : t.busy_workers = s.busy_workers ∪ workers.toFinset)
    (holders : ∀ worker, t.holders worker = s.holders worker + (if worker ∈ workers then 1 else 0))
    (nested : ∀ r ∈ t.runs, r.point = .escaped → r.reruns.isSome = true) : t.Exclusive := by
  refine ⟨fun worker => ?_,nested⟩
  rw [holders,exclusive.once,busy]
  simp only [Finset.mem_union,List.mem_toFinset]
  by_cases taken : worker ∈ workers
  · simp [taken,new worker taken]
  · simp [taken]

-- The workers of one batch are given back.
theorem Exclusive.release (exclusive : s.Exclusive) (workers : List String)
    (busy : t.busy_workers = s.busy_workers \ workers.toFinset)
    (holders : ∀ worker, t.holders worker + (if worker ∈ workers then 1 else 0) = s.holders worker)
    (nested : ∀ r ∈ t.runs, r.point = .escaped → r.reruns.isSome = true) : t.Exclusive := by
  refine ⟨fun worker => ?_,nested⟩
  have once := exclusive.once worker
  have parts := holders worker
  rw [busy]
  simp only [Finset.mem_sdiff,List.mem_toFinset]
  by_cases released : worker ∈ workers <;> by_cases was_busy : worker ∈ s.busy_workers <;>
    simp only [released,was_busy,if_true,if_false,not_true,not_false_eq_true,and_true,and_false] at once parts ⊢ <;> omega

theorem raised_nested {reruns : Option (List (List WorkflowItem))} (safe : (Label.raises reruns.isNone).unprotected = false) :
    reruns.isSome = true := by
  cases reruns with
  | none => cases safe
  | some _ => rfl

theorem step_exclusive {cfg : Settings} (sound : s.Sound) (exclusive : s.Exclusive) (step : Step cfg s label t)
    (safe : label.unprotected = false) : t.Exclusive := by
  cases step with
  | submit | enqueue_raises | remove => exact ⟨exclusive.once,exclusive.nested⟩
  | claim batch free total idle parts claimed =>
      obtain ⟨rfl,new⟩ := try_claim_spec claimed
      refine exclusive.take _ new rfl (fun worker => ?_) exclusive.nested
      simp only [holders,holdings,idle,Scheduler.holding,weight_cons,List.not_mem_nil,if_false]
      omega
  | commit here => exact exclusive.keep rfl (fun worker => by simp only [holders,holdings,here,Scheduler.holding]) exclusive.nested
  | commit_raises here => exact exclusive.keep rfl (fun worker => by simp only [holders,holdings,here,Scheduler.holding]) exclusive.nested
  | dispatch here fresh =>
      refine exclusive.keep rfl (fun worker => ?_) (fun r member => ?_)
      · simp only [holders,holdings,here,Scheduler.holding,List.map_append,List.map_cons,List.map_nil,weight_cons,
          weight_append,weight_nil,List.not_mem_nil,if_false]
        omega
      · rcases List.mem_append.mp member with old | new
        · exact exclusive.nested r old
        · obtain rfl := List.mem_singleton.mp new
          exact fun escaped => by cases escaped
  | dispatch_raises | undo_raises | release_raises => cases safe
  | undo here =>
      refine exclusive.release _ rfl (fun worker => ?_) exclusive.nested
      simp only [holders,holdings,here,Scheduler.holding,weight_cons,List.not_mem_nil,if_false]
      omega
  | undo_fails here =>
      refine exclusive.release _ rfl (fun worker => ?_) exclusive.nested
      simp only [holders,holdings,here,Scheduler.holding,weight_cons,List.not_mem_nil,if_false]
      omega
  | start cancelled here at_start moved => exact exclusive.swap here rfl rfl rfl rfl (fun escaped => by cases escaped)
  | start_fails cancelled here at_start failed => exact exclusive.swap here rfl rfl rfl rfl (fun escaped => by cases escaped)
  | record total_nodes here working once some_active moved =>
      exact exclusive.swap here rfl rfl rfl rfl (fun escaped => by cases working.symm.trans escaped)
  | record_fails total_nodes here working once some_active failed =>
      exact exclusive.swap here rfl rfl rfl rfl (fun escaped => by cases escaped)
  | end_work retry here working isolate => exact exclusive.swap here rfl rfl rfl rfl (fun escaped => by cases escaped)
  | settle here settling moved =>
      refine exclusive.swap here rfl rfl rfl rfl (fun escaped => ?_)
      dsimp only at escaped
      split at escaped <;> cases escaped
  | settle_retry here settling moved => exact exclusive.swap here rfl rfl rfl rfl (fun escaped => by cases escaped)
  | settle_fails retry here settling failed =>
      cases retry with
      | false => cases (sound.settle_spec here settling).1.symm.trans (congrArg Prod.snd failed)
      | true => cases (sound.settle_retry_spec here settling).1.symm.trans (congrArg Prod.snd failed)
  | leave here leaving => exact exclusive.swap here rfl rfl rfl rfl (fun escaped => by cases escaped)
  | rerun here between next fresh => exact exclusive.swap here rfl rfl rfl rfl (fun escaped => by cases escaped)
  | last_rerun here between last => exact exclusive.swap here rfl rfl rfl rfl (fun escaped => by cases escaped)
  | raises here unhandled => exact exclusive.swap here rfl rfl rfl rfl (fun _ => raised_nested safe)
  | escape here escaped first =>
      have nested := exclusive.nested _ (here ▸ List.mem_append_right _ List.mem_cons_self) escaped
      rw [first] at nested
      cases nested
  | caught here escaped nested => exact exclusive.swap here rfl rfl rfl rfl (fun escaped => by cases escaped)
  | uncaught here escaped nested => exact exclusive.swap here rfl rfl rfl rfl (fun escaped => by cases escaped)
  | release here releasing =>
      refine exclusive.release _ rfl (fun worker => ?_) (drop_nested exclusive here)
      simp only [holders,holdings,here,List.map_append,List.map_cons,weight_cons,weight_append]
      omega

theorem empty_exclusive : Exclusive {} := ⟨fun _ => rfl,fun _ none_there => (by cases none_there)⟩

end System

-- While no exception takes an unprotected way, a busy worker is held by exactly one batch in
-- flight and any other by none: it is busy no longer than its batch.
theorem workers_exclusive {cfg : Settings} {s : System} (path : Execution cfg labels s)
    (safe : ∀ label ∈ labels, label.unprotected = false) (worker : String) :
    s.holders worker = if worker ∈ s.busy_workers then 1 else 0 := by
  suffices exclusive : s.Exclusive from exclusive.once worker
  unfold Execution at path
  induction path with
  | nil => exact System.empty_exclusive
  | snoc earlier last ih =>
      exact System.step_exclusive (System.run_sound earlier) (ih (fun label member => safe label (List.mem_append_left _ member)))
        last (safe _ (by simp))

theorem workers_exclusive_retried : ∃ s, Execution (groupSettings 1 0) retriedLabels s ∧ s.busy_workers = {"cpu-1"} ∧
    s.holders "cpu-0" = (if "cpu-0" ∈ s.busy_workers then 1 else 0) ∧
    s.holders "cpu-1" = (if "cpu-1" ∈ s.busy_workers then 1 else 0) := by
  obtain ⟨s,path,busy,_⟩ := retried_run
  exact ⟨s,path,busy,workers_exclusive path (by decide) "cpu-0",workers_exclusive path (by decide) "cpu-1"⟩

-- An exception before the handlers of the first execution ends the task and keeps its worker.
theorem worker_never_released :
    ¬ ∀ (cfg : Settings) (labels : List Label) (s : System), Execution cfg labels s → ∀ worker,
      s.holders worker = if worker ∈ s.busy_workers then 1 else 0 := by
  intro exclusive
  have raised : Execution (groupSettings 1 0) [.submit,.claim,.commit,.dispatch,.raises true] _ :=
    .snoc dispatched_run (.raises (show dispatched.runs = [] ++ _ :: [] from rfl) (.inl rfl))
  have ended := Runs.snoc raised (.escape rfl rfl rfl)
  have released := exclusive _ _ _ ended "cpu-0"
  revert released
  decide

end Lumilake.Server

import Lumilake.Server.CounterConservation
import Lumilake.Server.ClaimAgreement

namespace Lumilake.Server
open Weights PriorityQueue

-- The steps that may leave a workflow behind: it is given up before it has a batch, or an
-- exception is raised where `_run_batch_inner` does not handle it.
def Label.interrupts : Label → Bool
  | .enqueue_raises | .remove | .dispatch_raises | .undo_fails | .undo_raises | .raises _ | .uncaught => true
  | _ => false

def Passed (labels : List Label) (w : WorkflowItem) : Prop :=
  (∃ cancelled, Label.start cancelled ∈ labels ∧ w.request_id ∈ cancelled) ∨ ∃ label ∈ labels, label.interrupts = true

theorem Passed.snoc (passed : Passed labels w) (label : Label) : Passed (labels ++ [label]) w := by
  rcases passed with ⟨cancelled,member,own⟩ | ⟨old,member,interrupts⟩
  · exact .inl ⟨cancelled,List.mem_append_left _ member,own⟩
  · exact .inr ⟨old,List.mem_append_left _ member,interrupts⟩

-- What is left behind was cancelled at a start, or the run was interrupted.
structure Explained (labels : List Label) (s : System) : Prop where
  skipped : ∀ w ∈ s.skipped, Passed labels w
  stuck : ∀ w ∈ s.stuck, Passed labels w
  cancelled : ∀ r ∈ s.runs, ∀ w ∈ r.cancelled_workflows, Passed labels w

namespace Explained
variable {labels : List Label} {s : System}

theorem here_cancelled (explained : Explained labels s) (here : s.runs = before ++ r :: after) :
    ∀ w ∈ r.cancelled_workflows, Passed labels w :=
  explained.cancelled r (here ▸ List.mem_append_right _ List.mem_cons_self)

theorem swap (explained : Explained labels s) (here : s.runs = before ++ r :: after)
    (own : ∀ w ∈ r'.cancelled_workflows, Passed labels w) :
    ∀ x ∈ before ++ r' :: after, ∀ w ∈ x.cancelled_workflows, Passed labels w := by
  intro x member
  rcases List.mem_append.mp member with first | last
  · exact explained.cancelled x (here ▸ List.mem_append_left _ first)
  · rcases List.mem_cons.mp last with rfl | last
    · exact own
    · exact explained.cancelled x (here ▸ List.mem_append_right _ (List.mem_cons_of_mem _ last))

theorem keep (explained : Explained labels s) (here : s.runs = before ++ r :: after)
    (same : r'.cancelled_workflows = r.cancelled_workflows) :
    ∀ x ∈ before ++ r' :: after, ∀ w ∈ x.cancelled_workflows, Passed labels w :=
  explained.swap here (same ▸ explained.here_cancelled here)

theorem drop (explained : Explained labels s) (here : s.runs = before ++ r :: after) :
    ∀ x ∈ before ++ after, ∀ w ∈ x.cancelled_workflows, Passed labels w := by
  intro x member
  refine explained.cancelled x ?_
  rw [here]
  simp only [List.mem_append,List.mem_cons] at member ⊢
  tauto

theorem skip (explained : Explained labels s) (passed : ∀ w ∈ workflows, Passed labels w) :
    ∀ w ∈ s.skipped ++ workflows, Passed labels w := by
  intro w member
  exact (List.mem_append.mp member).elim (explained.skipped w) (passed w)

end Explained

theorem cancelled_none {r : BatchRun} (none_cancelled : r.cancelled_requests = []) : r.cancelled_workflows = [] := by
  simp [BatchRun.cancelled_workflows,none_cancelled]

theorem cancelled_at_start {r : BatchRun} (member : w ∈ r.cancelled_workflows) (labels : List Label) :
    Passed (labels ++ [.start r.cancelled_requests]) w :=
  .inl ⟨r.cancelled_requests,by simp,by simpa [BatchRun.cancelled_workflows] using (List.mem_filter.mp member).2⟩

theorem step_explained {cfg : Settings} {s t : System} (sound : s.Sound) (explained : Explained labels s)
    (step : Step cfg s label t) : Explained (labels ++ [label]) t := by
  have old : Explained (labels ++ [label]) s :=
    ⟨fun w member => (explained.skipped w member).snoc _,fun w member => (explained.stuck w member).snoc _,
      fun r member w cancelled => (explained.cancelled r member w cancelled).snoc _⟩
  by_cases interrupts : label.interrupts = true
  · have all : ∀ w, Passed (labels ++ [label]) w := fun w => .inr ⟨label,by simp,interrupts⟩
    exact ⟨fun w _ => all w,fun w _ => all w,fun _ _ w _ => all w⟩
  cases step with
  | enqueue_raises | remove | dispatch_raises | undo_fails | undo_raises | raises | uncaught => exact absurd rfl interrupts
  | submit | claim | commit | commit_raises | undo => exact ⟨old.skipped,old.stuck,old.cancelled⟩
  | dispatch here fresh =>
      refine ⟨old.skipped,old.stuck,fun r member => ?_⟩
      rcases List.mem_append.mp member with known | new
      · exact old.cancelled r known
      · obtain rfl := List.mem_singleton.mp new
        rw [cancelled_none rfl]
        exact fun _ none_there => nomatch none_there
  | start cancelled here at_start moved =>
      exact ⟨old.skipped,old.stuck,old.swap here (fun _ member => cancelled_at_start member labels)⟩
  | start_fails cancelled here at_start failed =>
      exact ⟨old.skipped,old.stuck,old.swap here (fun _ member => cancelled_at_start member labels)⟩
  | record total_nodes here => exact ⟨old.skipped,old.stuck,old.keep here rfl⟩
  | record_fails total_nodes here => exact ⟨old.skipped,old.stuck,old.keep here rfl⟩
  | end_work retry here => exact ⟨old.skipped,old.stuck,old.keep here rfl⟩
  | settle_retry here => exact ⟨old.skipped,old.stuck,old.keep here rfl⟩
  | leave here => exact ⟨old.skipped,old.stuck,old.keep here rfl⟩
  | last_rerun here => exact ⟨old.skipped,old.stuck,old.keep here rfl⟩
  | caught here => exact ⟨old.skipped,old.stuck,old.keep here rfl⟩
  | settle here settling moved =>
      exact ⟨old.skip (old.here_cancelled here),old.stuck,old.keep here rfl⟩
  | settle_fails retry here settling failed =>
      cases retry with
      | false => cases (sound.settle_spec here settling).1.symm.trans (congrArg Prod.snd failed)
      | true => cases (sound.settle_retry_spec here settling).1.symm.trans (congrArg Prod.snd failed)
  | rerun here between next fresh =>
      refine ⟨old.skipped,old.stuck,old.swap here ?_⟩
      rw [cancelled_none rfl]
      exact fun _ none_there => nomatch none_there
  | escape here escaped first => exact ⟨old.skipped,old.stuck,old.drop here⟩
  | release here releasing => exact ⟨old.skipped,old.stuck,old.drop here⟩
  | release_raises here releasing => exact ⟨old.skipped,old.stuck,old.drop here⟩

theorem run_explained {cfg : Settings} {s : System} (path : Execution cfg labels s) : Explained labels s := by
  unfold Execution at path
  induction path with
  | nil =>
      refine ⟨?_,?_,?_⟩
      all_goals intro _ none_there; cases none_there
  | snoc earlier last ih => exact step_explained (System.run_sound earlier) ih last

-- In every run no update of the counters fails, and the raw nodes of a request are all
-- there, those processed being the nodes of distinct workflows. When the batches have
-- ended, a workflow that was not processed was cancelled at a start of its batch, or the
-- run was interrupted.
theorem counters_conserved {cfg : Settings} {s : System} (path : Execution cfg labels s) :
    s.errors = [] ∧
    (∀ request_id c, s.requests.get? request_id = some c →
      c.pending_runtime_nodes_raw + c.processing_runtime_nodes_raw + c.processed_runtime_nodes_raw = raw_nodes s.items request_id ∧
      c.processed_runtime_nodes_raw = raw_nodes s.processed request_id ∧
      0 ≤ c.pending_runtime_nodes_raw ∧ 0 ≤ c.processing_runtime_nodes_raw ∧ 0 ≤ c.processing_runtime_nodes_optimized) ∧
    (s.processed.map WorkflowItem.workflow_id).Nodup ∧
    (s.Quiet → ∃ left, (s.processed ++ left).Perm s.items ∧ ∀ w ∈ left, Passed labels w) := by
  have sound := System.run_sound path
  have explained := run_explained path
  refine ⟨sound.no_error,?_,?_,?_⟩
  · intro q c found
    obtain ⟨pending,processed,processing,optimized,conserved⟩ := sound.balanced q c found
    exact ⟨conserved,processed,by omega,by omega,by omega⟩
  · refine (nodup_iff WorkflowItem.workflow_id).mpr (fun id => ?_)
    have once := (nodup_iff WorkflowItem.workflow_id).mp sound.distinct id
    have all := sound.conserved (occurs WorkflowItem.workflow_id id)
    omega
  · rintro ⟨queued,scheduler,runs⟩
    refine ⟨s.skipped ++ s.stuck,perm_of_weight (fun f => ?_),?_⟩
    · rw [sound.conserved]
      simp only [System.waiting,System.counted,queued,scheduler,runs,List.flatMap_nil,weight_append,weight_nil]
      omega
    · exact fun w member => (List.mem_append.mp member).elim (explained.skipped w) (explained.stuck w)

def oneItem (request_id workflow_id : String) : WorkflowItem :=
  ⟨workflow_id,request_id,"graph","graph",0,0,1,1,"hash",[],oneTask "api",{ user_id := "user", principal_id := "principal" },
    0,none,none,0,false⟩

def oneBatch (workflows : List WorkflowItem) : Reservation :=
  ⟨0,workflows,{ user_id := "user", principal_id := "principal" },workflows.map WorkflowItem.workflow_id,[],none,[]⟩

-- One workflow on the only worker, up to the task of its batch.
def submitted : System where
  requests := Dict.empty.set "r1" (new_counters [oneItem "r1" "w1"])
  queued := [oneItem "r1" "w1"]
  items := [oneItem "r1" "w1"]

def claimed : System :=
  { submitted with busy_workers := {"cpu-0"}, queued := [], scheduler := .claimed ["cpu-0"] [oneItem "r1" "w1"] }

def dispatched : System :=
  { claimed with
    scheduler := .idle
    runs := [{ workers := ["cpu-0"], batch := [oneItem "r1" "w1"], batch_id := "batch-1" }]
    batch_ids := ["batch-1"] }

theorem dispatched_run : Execution (groupSettings 1 0) [.submit,.claim,.commit,.dispatch] dispatched := by
  have first : Execution (groupSettings 1 0) [.submit] submitted :=
    .snoc .nil (.submit (by simp [oneItem]) (by simp) (by simp))
  have second : Execution (groupSettings 1 0) [.submit,.claim] claimed :=
    .snoc first (.claim (oneBatch [oneItem "r1" "w1"]) cpuWorker cpuWorker rfl (.refl _) (by decide +kernel))
  exact .snoc (.snoc second (.commit rfl)) (.dispatch rfl (by simp [claimed,submitted]))

def secondWorker : FreeCapacity := ⟨["cpu-1"],[],Dict.empty.set "cpu-1" {}⟩

-- Two requests share a batch on the first worker and a third has the second worker. The first
-- batch fails, each of its requests is tried again alone, and its worker is released.
def retriedLabels : List Label :=
  [.submit,.submit,.submit,.claim,.commit,.dispatch,.claim,.commit,.dispatch,
    .start [],.end_work,.settle,.leave,
    .rerun,.start [],.end_work,.settle,
    .rerun,.start [],.end_work,.settle,.last_rerun,.release]

theorem retried_run : ∃ s, Execution (groupSettings 1 0) retriedLabels s ∧ s.busy_workers = {"cpu-1"} ∧
    s.processed = [oneItem "r1" "w1",oneItem "r2" "w2"] ∧
    s.runs = [{ workers := ["cpu-1"], batch := [oneItem "r3" "w3"], batch_id := "batch-2" }] ∧
    s.queued = [] ∧ s.scheduler.batch = [] := by
  have first : Execution (groupSettings 1 0) [.submit] _ :=
    .snoc .nil (.submit (show ∀ w ∈ [oneItem "r1" "w1"], w.request_id = "r1" by simp [oneItem]) (by simp) (by simp))
  have second := Runs.snoc first (.submit (show ∀ w ∈ [oneItem "r2" "w2"], w.request_id = "r2" by simp [oneItem])
    (by decide +kernel) (by decide +kernel))
  have third := Runs.snoc second (.submit (show ∀ w ∈ [oneItem "r3" "w3"], w.request_id = "r3" by simp [oneItem])
    (by decide +kernel) (by decide +kernel))
  have claim := Runs.snoc third (.claim (oneBatch [oneItem "r1" "w1",oneItem "r2" "w2"]) cpuWorker cpuWorker rfl (.refl _)
    (show try_claim_workers (groupSettings 1 0) ∅ _ _ _ = ({"cpu-0"},some ["cpu-0"]) by decide +kernel))
  have commit := Runs.snoc claim (.commit rfl)
  have sent := Runs.snoc commit (.dispatch rfl (show "batch-1" ∉ _ by simp))
  have claim' := Runs.snoc sent (.claim (oneBatch [oneItem "r3" "w3"]) secondWorker secondWorker rfl (.refl _)
    (show try_claim_workers (groupSettings 1 0) _ _ _ _ = ({"cpu-0","cpu-1"},some ["cpu-1"]) by decide +kernel))
  have commit' := Runs.snoc claim' (.commit rfl)
  have sent' := Runs.snoc commit' (.dispatch rfl (show "batch-2" ∉ _ by simp))
  have start := Runs.snoc sent' (.start [] (show _ = [] ++ _ :: _ from rfl) rfl (Prod.ext rfl (by decide +kernel)))
  have failed := Runs.snoc start (.end_work true (show _ = [] ++ _ :: _ from rfl) rfl (fun _ => ⟨rfl,by decide +kernel⟩))
  have settled := Runs.snoc failed (.settle_retry (show _ = [] ++ _ :: _ from rfl) rfl (Prod.ext rfl (by decide +kernel)))
  have left := Runs.snoc settled (.leave (show _ = [] ++ _ :: _ from rfl) rfl)
  have again := Runs.snoc left (.rerun (show _ = [] ++ _ :: _ from rfl) rfl
    (show _ = some ([oneItem "r1" "w1"] :: [[oneItem "r2" "w2"]]) from rfl) (show "batch-3" ∉ _ by decide +kernel))
  have start' := Runs.snoc again (.start [] (show _ = [] ++ _ :: _ from rfl) rfl (Prod.ext rfl (by decide +kernel)))
  have ended := Runs.snoc start' (.end_work false (show _ = [] ++ _ :: _ from rfl) rfl nofun)
  have settled' := Runs.snoc ended (.settle (show _ = [] ++ _ :: _ from rfl) rfl (Prod.ext rfl (by decide +kernel)))
  have again' := Runs.snoc settled' (.rerun (show _ = [] ++ _ :: _ from rfl) rfl
    (show _ = some ([oneItem "r2" "w2"] :: []) from rfl) (show "batch-4" ∉ _ by decide +kernel))
  have start'' := Runs.snoc again' (.start [] (show _ = [] ++ _ :: _ from rfl) rfl (Prod.ext rfl (by decide +kernel)))
  have ended' := Runs.snoc start'' (.end_work false (show _ = [] ++ _ :: _ from rfl) rfl nofun)
  have settled'' := Runs.snoc ended' (.settle (show _ = [] ++ _ :: _ from rfl) rfl (Prod.ext rfl (by decide +kernel)))
  have last := Runs.snoc settled'' (.last_rerun (show _ = [] ++ _ :: _ from rfl) rfl rfl)
  have released := Runs.snoc last (.release (show _ = [] ++ _ :: _ from rfl) rfl)
  have free : ({"cpu-0","cpu-1"} : Finset String) \ ["cpu-0"].toFinset = {"cpu-1"} := by decide
  exact ⟨_,released,free,rfl,rfl,rfl,rfl⟩

-- The third request is cancelled before its batch starts, and the run ends with its nodes pending.
theorem ended_run : ∃ s, Execution (groupSettings 1 0) (retriedLabels ++ [.start ["r3"]] ++ [.end_work] ++ [.settle] ++ [.release]) s ∧
    s.processed = [oneItem "r1" "w1",oneItem "r2" "w2"] ∧ s.Quiet := by
  obtain ⟨s,path,_,processed,runs,queued,scheduler⟩ := retried_run
  have started := Runs.snoc path (.start ["r3"] (show s.runs = [] ++ _ :: [] from runs) rfl (show _ = (s.requests,none) from rfl))
  have ended := Runs.snoc started (.end_work false (show _ = [] ++ _ :: _ from rfl) rfl nofun)
  have settled := Runs.snoc ended (.settle (show _ = [] ++ _ :: _ from rfl) rfl (show _ = (s.requests,none) from rfl))
  have released := Runs.snoc settled (.release (show _ = [] ++ _ :: _ from rfl) rfl)
  exact ⟨_,released,(List.append_nil _).trans processed,⟨queued,scheduler,rfl⟩⟩

theorem counters_conserved_ended : ∃ s : System,
    Execution (groupSettings 1 0) (retriedLabels ++ [.start ["r3"]] ++ [.end_work] ++ [.settle] ++ [.release]) s ∧
    s.processed = [oneItem "r1" "w1",oneItem "r2" "w2"] ∧ s.errors = [] ∧
    (∀ request_id c, s.requests.get? request_id = some c →
      c.pending_runtime_nodes_raw + c.processing_runtime_nodes_raw + c.processed_runtime_nodes_raw = raw_nodes s.items request_id ∧
      c.processed_runtime_nodes_raw = raw_nodes s.processed request_id ∧
      0 ≤ c.pending_runtime_nodes_raw ∧ 0 ≤ c.processing_runtime_nodes_raw ∧ 0 ≤ c.processing_runtime_nodes_optimized) ∧
    (s.processed.map WorkflowItem.workflow_id).Nodup ∧
    ∃ left, (s.processed ++ left).Perm s.items ∧
      ∀ w ∈ left, Passed (retriedLabels ++ [.start ["r3"]] ++ [.end_work] ++ [.settle] ++ [.release]) w := by
  obtain ⟨s,path,processed,quiet⟩ := ended_run
  obtain ⟨errors,counters,once,passed⟩ := counters_conserved path
  exact ⟨s,path,processed,errors,counters,once,passed quiet⟩

-- A request that is cancelled before its batch starts ends with its nodes pending.
theorem cancelled_never_processed :
    ¬ ∀ (cfg : Settings) (labels : List Label) (s : System), Execution cfg labels s → s.Quiet →
      ∀ w ∈ s.items, (s.processed.map WorkflowItem.workflow_id).count w.workflow_id = 1 := by
  intro once
  have started : Execution (groupSettings 1 0) [.submit,.claim,.commit,.dispatch,.start ["r1"]] _ :=
    .snoc dispatched_run (.start ["r1"] (show dispatched.runs = [] ++ _ :: [] from rfl) rfl rfl)
  have settled : Execution (groupSettings 1 0) ([.submit,.claim,.commit,.dispatch,.start ["r1"]] ++ [.end_work] ++ [.settle]) _ :=
    .snoc (.snoc started (.end_work false rfl rfl (by simp))) (.settle rfl rfl rfl)
  have released := Runs.snoc settled (.release rfl rfl)
  have count := once _ _ _ released ⟨rfl,rfl,rfl⟩ (oneItem "r1" "w1") List.mem_cons_self
  cases count

end Lumilake.Server

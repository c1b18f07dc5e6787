import Lumilake.Library.Fallible
import Lumilake.Value

namespace Lumilake.RuntimeManager

structure APIError where
  status_code : Nat
  deriving DecidableEq

inductive SubmitError where
  | api (error : APIError)
  -- a description that lacks what is read of it
  | key (name : String)
  deriving DecidableEq

def TRANSIENT_FLOWMESH_STATUS : List Nat := [502,503,504]
-- in seconds
def FLOWMESH_RETRY_DELAYS_S : List Nat := [1,2,4,8,16,30]
-- two minutes; instants are in microseconds
def SUBMIT_LOOKUP_SKEW : Int := 120000000

structure Workflow where
  workflow_id : String
  task_ids : List String
  submitted_at : Int
  deriving DecidableEq

-- What one submit does. An answer that is lost at the gateway says nothing about
-- whether the workflow was created.
inductive Attempt where
  | accepted (workflow : Workflow)
  | rejected (error : APIError) (final : error.status_code ∉ TRANSIENT_FLOWMESH_STATUS)
  | gateway (error : APIError) (transient : error.status_code ∈ TRANSIENT_FLOWMESH_STATUS) (created : Option Workflow)

def Attempt.created : Attempt → Option Workflow
  | .accepted workflow => some workflow
  | .rejected .. => none
  | .gateway _ _ created => created

def Attempt.answer : Attempt → Except APIError Workflow
  | .accepted workflow => .ok workflow
  | .rejected error _ => .error error
  | .gateway error _ _ => .error error

-- FlowMesh during one call: its answer to each submit, to each try of the listing that
-- follows it, given what the call has created so far, and to each try of a description.
structure FlowMesh where
  submit : Nat → Attempt
  list : Nat → List Workflow → Nat → Except APIError (List Workflow)
  retrieve : Nat → String → Nat → Except APIError Value

def retry_read_from (call : Nat → Except APIError T) : List Nat → Nat → Except APIError T
  | [],tried => call tried
  | _ :: later,tried =>
      match call tried with
      | .ok answer => .ok answer
      | .error e =>
          if e.status_code ∉ TRANSIENT_FLOWMESH_STATUS then .error e
          else retry_read_from call later (tried + 1)

def retry_transient_read (call : Nat → Except APIError T) : Except SubmitError T :=
  (retry_read_from call FLOWMESH_RETRY_DELAYS_S 0).mapError .api

def field (value : Value) (name : String) : Except SubmitError Value :=
  match value with
  | .dict entries => (Value.get? entries name).elim (.error (.key name)) .ok
  | _ => .error (.key name)

-- `desc["task"]["metadata"]["annotations"].get("custom") or {}`, then its submit id.
def annotated_submit_id (desc : Value) : Except SubmitError (Option Value) := do
  let task ← field desc "task"
  let metadata ← field task "metadata"
  match ← field metadata "annotations" with
  | .dict annotations =>
      match (Value.get? annotations "custom").filter Value.truth with
      | none => pure none
      | some (.dict custom) => pure (Value.get? custom "lumilake_submit_id")
      | some _ => .error (.key "custom")
  | _ => .error (.key "annotations")

def described_submit_id (mesh : FlowMesh) (turn : Nat) (task_id : String) : Except SubmitError (Option Value) := do
  let desc ← retry_transient_read (mesh.retrieve turn task_id)
  annotated_submit_id desc

def find_in (mesh : FlowMesh) (turn : Nat) (submit_id : String) (cutoff : Int) :
    List Workflow → Except SubmitError (Option Workflow)
  | [] => .ok none
  | wf :: rest =>
      match wf.task_ids with
      | [] => find_in mesh turn submit_id cutoff rest
      | task_id :: _ =>
          if wf.submitted_at < cutoff then find_in mesh turn submit_id cutoff rest
          else do
            let custom ← described_submit_id mesh turn task_id
            if custom = some (.str submit_id) then pure (some wf)
            else find_in mesh turn submit_id cutoff rest

def find_submitted_workflow (mesh : FlowMesh) (turn : Nat) (created : List Workflow) (submit_id : String) (since : Int) :
    Except SubmitError (Option Workflow) := do
  let workflows ← retry_transient_read (mesh.list turn created)
  find_in mesh turn submit_id (since - SUBMIT_LOOKUP_SKEW) workflows

def submitted_ids (workflow : Workflow) : String × List String := (workflow.workflow_id,workflow.task_ids)

-- The loop over the delays and the last attempt after it, with the workflows that the
-- attempts created.
def submit_from (mesh : FlowMesh) (submit_id : String) (since : Int) :
    List Nat → Nat → List Workflow → Except SubmitError (String × List String) × List Workflow
  | [],turn,created =>
      (((mesh.submit turn).answer.mapError .api).map submitted_ids,created ++ (mesh.submit turn).created.toList)
  | _ :: later,turn,created =>
      let created := created ++ (mesh.submit turn).created.toList
      match (mesh.submit turn).answer with
      | .ok workflow => (.ok (submitted_ids workflow),created)
      | .error e =>
          if e.status_code ∉ TRANSIENT_FLOWMESH_STATUS then (.error (.api e),created)
          else match find_submitted_workflow mesh turn created submit_id since with
            | .error failed => (.error failed,created)
            | .ok (some existing) => (.ok (submitted_ids existing),created)
            | .ok none => submit_from mesh submit_id since later (turn + 1) created

def submit_workflow (mesh : FlowMesh) (submit_id : String) (since : Int) :
    Except SubmitError (String × List String) × List Workflow :=
  submit_from mesh submit_id since FLOWMESH_RETRY_DELAYS_S 0 []

-- What the lookup relies on: a created workflow has tasks, is not dated before the call
-- by more than the allowed skew and carries the id it was submitted under.
structure Created (mesh : FlowMesh) (submit_id : String) (since : Int) (workflow : Workflow) : Prop where
  recent : since - SUBMIT_LOOKUP_SKEW ≤ workflow.submitted_at
  described : ∃ task_id later, workflow.task_ids = task_id :: later ∧
    ∀ turn, described_submit_id mesh turn task_id = .ok (some (.str submit_id))

-- A listing shows every created workflow; its descriptions can be read, and the id, fresh
-- for the call, is on no other workflow.
structure Shows (mesh : FlowMesh) (submit_id : String) (since : Int) : Prop where
  created : ∀ turn workflow, (mesh.submit turn).created = some workflow → Created mesh submit_id since workflow
  listed : ∀ turn created, ∃ workflows, retry_transient_read (mesh.list turn created) = .ok workflows ∧
    created ⊆ workflows ∧
    ∀ wf ∈ workflows, ∀ task_id ∈ wf.task_ids.head?,
      ∃ custom, described_submit_id mesh turn task_id = .ok custom ∧ (custom = some (.str submit_id) → wf ∈ created)

theorem find_in_ok {mesh : FlowMesh} {turn : Nat} {submit_id : String} {cutoff : Int} {workflows : List Workflow}
    (readable : ∀ wf ∈ workflows, ∀ task_id ∈ wf.task_ids.head?, ∃ custom, described_submit_id mesh turn task_id = .ok custom) :
    ∃ found, find_in mesh turn submit_id cutoff workflows = .ok found := by
  induction workflows with
  | nil => exact ⟨none,rfl⟩
  | cons wf rest ih =>
      have later := ih (fun other member => readable other (List.mem_cons_of_mem _ member))
      unfold find_in
      cases tasks : wf.task_ids with
      | nil => exact later
      | cons task_id others =>
          obtain ⟨custom,read⟩ := readable wf List.mem_cons_self task_id (by rw [tasks]; rfl)
          by_cases old : wf.submitted_at < cutoff
          · simp only [old,if_true]
            exact later
          · by_cases mine : custom = some (.str submit_id)
            · exact ⟨some wf,by simp [old,read,mine,bind,Except.bind,pure,Except.pure]⟩
            · simp only [old,if_false,read,bind,Except.bind,mine]
              exact later

-- A workflow that the lookup adopts is listed, and its first task carries the id.
theorem find_in_some {mesh : FlowMesh} {turn : Nat} {submit_id : String} {cutoff : Int} {workflows : List Workflow}
    {wf : Workflow} (found : find_in mesh turn submit_id cutoff workflows = .ok (some wf)) :
    wf ∈ workflows ∧ ∃ task_id ∈ wf.task_ids.head?, described_submit_id mesh turn task_id = .ok (some (.str submit_id)) := by
  induction workflows with
  | nil => cases found
  | cons first rest ih =>
      have later (found : find_in mesh turn submit_id cutoff rest = .ok (some wf)) := by
        obtain ⟨member,carries⟩ := ih found
        exact (⟨List.mem_cons_of_mem _ member,carries⟩ : wf ∈ first :: rest ∧ _)
      unfold find_in at found
      cases tasks : first.task_ids with
      | nil => exact later (by simpa only [tasks] using found)
      | cons task_id others =>
          simp only [tasks] at found
          split at found
          · exact later found
          · obtain ⟨custom,read,done⟩ := Fallible.bind_ok found
            by_cases mine : custom = some (.str submit_id)
            · rw [if_pos mine] at done
              cases done
              exact ⟨List.mem_cons_self,task_id,by rw [tasks]; rfl,by rw [read,mine]⟩
            · exact later (by simpa only [if_neg mine] using done)

-- A listed workflow that carries the id and is recent enough is not passed over.
theorem find_in_none {mesh : FlowMesh} {turn : Nat} {submit_id : String} {since : Int} {workflows : List Workflow}
    {wf : Workflow} (missed : find_in mesh turn submit_id (since - SUBMIT_LOOKUP_SKEW) workflows = .ok none)
    (created : Created mesh submit_id since wf) : wf ∉ workflows := by
  obtain ⟨recent,task_id,others,tasks,described⟩ := created
  induction workflows with
  | nil => exact List.not_mem_nil
  | cons first rest ih =>
      unfold find_in at missed
      rcases eq_or_ne wf first with same | other
      · rw [← same] at missed
        simp [tasks,Int.not_lt.mpr recent,described turn,bind,Except.bind,pure,Except.pure] at missed
      · have rest_missed : find_in mesh turn submit_id (since - SUBMIT_LOOKUP_SKEW) rest = .ok none := by
          cases first_tasks : first.task_ids with
          | nil => simpa only [first_tasks] using missed
          | cons first_task more =>
              simp only [first_tasks] at missed
              split at missed
              · exact missed
              · obtain ⟨custom,_,done⟩ := Fallible.bind_ok missed
                split at done
                · cases done
                · exact done
        simp [other,ih rest_missed]

-- The lookup answers, and adopts exactly when something was created.
theorem find_submitted_spec {mesh : FlowMesh} {submit_id : String} {since : Int} (shows' : Shows mesh submit_id since)
    (turn : Nat) {created : List Workflow} (own : ∀ wf ∈ created, Created mesh submit_id since wf) :
    ∃ found, find_submitted_workflow mesh turn created submit_id since = .ok found ∧
      (∀ wf, found = some wf → wf ∈ created) ∧ (found = none → created = []) := by
  obtain ⟨workflows,listed,all,readable⟩ := shows'.listed turn created
  obtain ⟨found,searched⟩ := @find_in_ok mesh turn submit_id (since - SUBMIT_LOOKUP_SKEW) workflows
    (fun wf member task_id first => (readable wf member task_id first).imp fun _ read => read.1)
  refine ⟨found,?_,?_,?_⟩
  · simp only [find_submitted_workflow,listed,bind,Except.bind]
    exact searched
  · intro wf adopted
    obtain ⟨member,task_id,first,carries⟩ := find_in_some (adopted ▸ searched)
    obtain ⟨custom,read,mine⟩ := readable wf member task_id first
    exact mine (Except.ok.inj (read.symm.trans carries))
  · intro missed
    refine List.eq_nil_iff_forall_not_mem.mpr fun wf member => ?_
    exact find_in_none (missed ▸ searched) (own wf member) (all member)

-- An answer lost at the gateway, with nothing created and with a workflow created.
def Attempt.lost : Attempt → Bool
  | .gateway _ _ none => true
  | _ => false

def Attempt.stranded : Attempt → Bool
  | .gateway _ _ (some _) => true
  | _ => false

def Returned (result : Except SubmitError (String × List String) × List Workflow) : Prop :=
  ∀ wf ∈ result.2, result.1 = .ok (submitted_ids wf)

-- The next `n` attempts are lost with nothing created, the one after them with a workflow.
def Unanswered (mesh : FlowMesh) (turn n : Nat) : Prop :=
  (∀ i < n, (mesh.submit (turn + i)).lost) ∧ (mesh.submit (turn + n)).stranded

theorem unanswered_first (mesh : FlowMesh) (turn n : Nat) :
    Unanswered mesh turn (n + 1) ↔ (mesh.submit turn).lost ∧ Unanswered mesh (turn + 1) n := by
  unfold Unanswered
  rw [Nat.add_right_comm turn 1 n,← Nat.add_assoc,← and_assoc]
  refine and_congr_left fun _ => ?_
  constructor
  · intro lost
    refine ⟨lost 0 (Nat.succ_pos n),fun i below => ?_⟩
    rw [Nat.add_right_comm]
    exact lost (i + 1) (Nat.succ_lt_succ below)
  · rintro ⟨first,lost⟩ i below
    cases i with
    | zero => exact first
    | succ i =>
        rw [← Nat.add_assoc,Nat.add_right_comm]
        exact lost i (Nat.lt_of_succ_lt_succ below)

-- One call from the attempt `turn` on, nothing created before it.
theorem submit_from_spec {mesh : FlowMesh} {submit_id : String} {since : Int} (shows' : Shows mesh submit_id since)
    (delays : List Nat) (turn : Nat) :
    (submit_from mesh submit_id since delays turn []).2.length ≤ 1 ∧
      (Returned (submit_from mesh submit_id since delays turn []) ↔ ¬ Unanswered mesh turn delays.length) := by
  induction delays generalizing turn with
  | nil =>
      unfold submit_from Returned Unanswered
      cases outcome : mesh.submit turn with
      | accepted workflow => simp [Attempt.created,Attempt.answer,Attempt.stranded,Except.mapError,Except.map]
      | rejected error final => simp [Attempt.created,Attempt.stranded]
      | gateway error transient created =>
          cases created with
          | none => simp [Attempt.created,Attempt.stranded]
          | some workflow => simp [Attempt.created,Attempt.answer,Attempt.stranded,Except.mapError,Except.map]
  | cons delay later ih =>
      unfold submit_from
      rw [List.length_cons,unanswered_first]
      cases outcome : mesh.submit turn with
      | accepted workflow => simp [Attempt.created,Attempt.answer,Returned,Attempt.lost]
      | rejected error final => simp [Attempt.created,Attempt.answer,Returned,Attempt.lost,final]
      | gateway error transient created =>
          have own : ∀ wf ∈ created.toList, Created mesh submit_id since wf := fun wf member =>
            shows'.created turn wf (by rw [outcome]; simpa [Attempt.created] using member)
          obtain ⟨found,searched,adopted,missed⟩ := find_submitted_spec shows' turn own
          simp only [Attempt.created,Attempt.answer,transient,not_true,if_false,List.nil_append,searched]
          cases created with
          | none =>
              -- nothing to adopt: the call goes on with the next attempt
              cases found with
              | some wf => exact absurd (adopted wf rfl) List.not_mem_nil
              | none => simpa [Attempt.lost] using ih (turn + 1)
          | some workflow =>
              cases found with
              | none => exact absurd (missed rfl) (by simp)
              | some wf =>
                  have same : wf = workflow := by simpa using adopted wf rfl
                  simp [Returned,Attempt.lost,same]

-- At most one workflow is created, whatever the attempts do. Its id is returned unless
-- every attempt before the last is lost with nothing created and the last one is lost
-- after its workflow was created: only a resubmission is preceded by a lookup.
theorem submitted_once_iff (mesh : FlowMesh) (submit_id : String) (since : Int) (shows' : Shows mesh submit_id since) :
    (submit_workflow mesh submit_id since).2.length ≤ 1 ∧
      (Returned (submit_workflow mesh submit_id since) ↔
        ¬ ((∀ turn < FLOWMESH_RETRY_DELAYS_S.length, (mesh.submit turn).lost) ∧
          (mesh.submit FLOWMESH_RETRY_DELAYS_S.length).stranded)) := by
  have spec := submit_from_spec shows' FLOWMESH_RETRY_DELAYS_S 0
  simp only [Unanswered,Nat.zero_add] at spec
  exact spec

-- A FlowMesh whose gateway loses every answer, and that creates a workflow at one attempt.
def workflowAt : Workflow := ⟨"wf-1",["t-1"],0⟩
def gatewayTimeout : APIError := ⟨504⟩

def described (submit_id : String) : Value :=
  .dict [("task",.dict [("metadata",.dict [("annotations",.dict [("custom",.dict [("lumilake_submit_id",.str submit_id)])])])])]

def lossyMesh (creating : Nat) : FlowMesh :=
  ⟨fun turn => .gateway gatewayTimeout (by decide) (if turn = creating then some workflowAt else none),
    fun _ created _ => .ok created,fun _ _ _ => .ok (described "sid-1")⟩

theorem lossy_described (creating turn : Nat) (task_id : String) :
    described_submit_id (lossyMesh creating) turn task_id = .ok (some (.str "sid-1")) := rfl

theorem lossy_shows (creating : Nat) : Shows (lossyMesh creating) "sid-1" 0 where
  created turn workflow made := by
    have same : workflow = workflowAt := by
      by_cases here : turn = creating <;> simp [lossyMesh,Attempt.created,here] at made
      exact made.symm
    subst same
    exact ⟨by decide,"t-1",[],rfl,fun turn => lossy_described creating turn "t-1"⟩
  listed turn created :=
    ⟨created,rfl,fun _ member => member,fun wf member task_id _ => ⟨_,lossy_described creating turn task_id,fun _ => member⟩⟩

theorem submitted_once_iff_adopted :
    Shows (lossyMesh 2) "sid-1" 0 ∧ (submit_workflow (lossyMesh 2) "sid-1" 0).2 = [workflowAt] ∧
      Returned (submit_workflow (lossyMesh 2) "sid-1" 0) :=
  ⟨lossy_shows 2,by decide,(submitted_once_iff (lossyMesh 2) "sid-1" 0 (lossy_shows 2)).2.mpr fun failing =>
    absurd failing.2 (by decide)⟩

-- The workflow that the last attempt creates is left running, and the call raises.
theorem submitted_workflow_lost :
    ¬ ∀ mesh submit_id since, Shows mesh submit_id since → Returned (submit_workflow mesh submit_id since) := by
  intro always
  have returned := always (lossyMesh 6) "sid-1" 0 (lossy_shows 6) workflowAt (by decide)
  exact absurd returned (by decide)

end Lumilake.RuntimeManager

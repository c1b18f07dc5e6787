import Lumilake.Library.Dict
import Lumilake.Library.Runs
import Mathlib.Data.List.Dedup

namespace Lumilake.Server

-- What the server and its runtime manager keep about executions. A set is the list of its
-- members; `issued` are the ids that `unique_id` has given out for executions.
structure Tracking where
  issued : List String := []
  -- the members of a running execution, from its context
  execution_contexts : Dict String (List String) := Dict.empty
  request_execution_ids : Dict String (List String) := Dict.empty
  request_execution_history_ids : Dict String (List String) := Dict.empty
  unreleased_execution_members : Dict String (List String) := Dict.empty
  batch_workflow_id : Dict (String × String) String := Dict.empty

namespace Tracking

-- `set.discard`
def discard (members : List String) (x : String) : List String := members.filter (· ≠ x)

theorem mem_discard : y ∈ discard members x ↔ y ∈ members ∧ y ≠ x := by simp [discard]

-- `ids.setdefault(request_id, set()).add(execution_id)` for each of the requests.
def add_execution (ids : Dict String (List String)) (execution_id : String) (request_ids : List String) : Dict String (List String) :=
  request_ids.foldl (fun ids request_id => ids.set request_id (((ids.get? request_id).getD []).insert execution_id)) ids

-- The part of `_run_batch` before the run.
def track (s : Tracking) (execution_id : String) (request_ids : List String) : Tracking :=
  { s with
    issued := execution_id :: s.issued
    execution_contexts := s.execution_contexts.set execution_id request_ids
    request_execution_ids := add_execution s.request_execution_ids execution_id request_ids
    request_execution_history_ids := add_execution s.request_execution_history_ids execution_id request_ids
    unreleased_execution_members := s.unreleased_execution_members.set execution_id request_ids }

def record_workflow (s : Tracking) (execution_id batch_id workflow_id : String) : Tracking :=
  { s with batch_workflow_id := s.batch_workflow_id.set (execution_id,batch_id) workflow_id }

def discard_execution (ids : Dict String (List String)) (execution_id request_id : String) : Dict String (List String) :=
  match ids.get? request_id with
  | none => ids
  | some executions =>
      if discard executions execution_id ≠ [] then ids.set request_id (discard executions execution_id)
      else ids.erase request_id

def cleanup_execution_tracking (s : Tracking) (execution_id : String) (request_ids : List String) : Tracking :=
  { s with
    execution_contexts := s.execution_contexts.erase execution_id
    request_execution_ids :=
      request_ids.foldl (fun ids request_id => discard_execution ids execution_id request_id) s.request_execution_ids }

-- The executions of a request: those that run and those of its history.
def executions_of (s : Tracking) (request_id : String) : List String :=
  ((s.request_execution_ids.get? request_id).getD [] ++ (s.request_execution_history_ids.get? request_id).getD []).dedup

-- One turn of the loop of `release_request_workflows`, with the executions released so far.
def release_turn (request_id : String) (state : Dict String (List String) × List String) (execution_id : String) :
    Dict String (List String) × List String :=
  match state.1.get? execution_id with
  | none => (state.1,execution_id :: state.2)
  | some members =>
      if discard members request_id ≠ [] then (state.1.set execution_id (discard members request_id),state.2)
      else (state.1.erase execution_id,execution_id :: state.2)

def release_executions (batch_workflow_id : Dict (String × String) String) (execution_ids : List String) :
    Dict (String × String) String :=
  batch_workflow_id.filter (fun key _ => decide (key.1 ∉ execution_ids))

def release_request_workflows (s : Tracking) (request_id : String) : Tracking :=
  let done := (s.executions_of request_id).foldl (release_turn request_id) (s.unreleased_execution_members,[])
  { s with
    unreleased_execution_members := done.1
    batch_workflow_id := release_executions s.batch_workflow_id done.2 }

end Tracking

inductive TrackingLabel where
  | start (execution_id : String) (request_ids : List String)
  | record (execution_id batch_id workflow_id : String)
  | cleanup (execution_id : String) (request_ids : List String)
  | release (request_id : String)
  deriving DecidableEq

-- Batches start, submit and end, and requests are released, in any order.
inductive TrackingStep : Tracking → TrackingLabel → Tracking → Prop where
  | start (s : Tracking) (execution_id : String) (request_ids : List String) (fresh : execution_id ∉ s.issued) :
      TrackingStep s (.start execution_id request_ids) (s.track execution_id request_ids)
  | record (s : Tracking) (execution_id batch_id workflow_id : String) :
      TrackingStep s (.record execution_id batch_id workflow_id) (s.record_workflow execution_id batch_id workflow_id)
  | cleanup (s : Tracking) (execution_id : String) (request_ids : List String) :
      TrackingStep s (.cleanup execution_id request_ids) (s.cleanup_execution_tracking execution_id request_ids)
  | release (s : Tracking) (request_id : String) :
      TrackingStep s (.release request_id) (s.release_request_workflows request_id)

namespace Tracking

theorem add_execution_get (ids : Dict String (List String)) (execution_id : String) (request_ids : List String) (r : String) :
    ((add_execution ids execution_id request_ids).get? r).getD [] =
      if r ∈ request_ids then ((ids.get? r).getD []).insert execution_id else (ids.get? r).getD [] := by
  unfold add_execution
  induction request_ids generalizing ids with
  | nil => simp
  | cons first rest ih =>
      rw [List.foldl_cons,ih]
      by_cases same : r = first
      · subst same
        simp [Dict.get?_set_self]
      · simp [Dict.get?_set_ne _ _ same,same]

theorem mem_discard_execution {ids : Dict String (List String)} {execution_id request_id e r : String}
    (member : e ∈ ((discard_execution ids execution_id request_id).get? r).getD []) : e ∈ (ids.get? r).getD [] := by
  unfold discard_execution at member
  cases found : ids.get? request_id with
  | none => simpa only [found] using member
  | some executions =>
      simp only [found] at member
      by_cases same : r = request_id
      · subst same
        split at member
        · rw [Dict.get?_set_self] at member
          rw [found]
          exact (mem_discard.mp member).1
        · rw [Dict.get?_erase_self] at member
          exact absurd member List.not_mem_nil
      · split at member
        · rwa [Dict.get?_set_ne _ _ same] at member
        · rwa [Dict.get?_erase_ne _ same] at member

theorem mem_cleanup {ids : Dict String (List String)} {execution_id : String} {request_ids : List String} {e r : String}
    (member : e ∈ ((request_ids.foldl (fun ids request_id => discard_execution ids execution_id request_id) ids).get? r).getD []) :
    e ∈ (ids.get? r).getD [] := by
  induction request_ids generalizing ids with
  | nil => exact member
  | cons first rest ih => exact mem_discard_execution (ih member)

-- The members of an execution that stay unreleased when one is released.
def still (request_id : String) (members : Option (List String)) : Option (List String) :=
  members.bind (fun members => if discard members request_id ≠ [] then some (discard members request_id) else none)

theorem release_turn_own (request_id : String) (state : Dict String (List String) × List String) (e : String) :
    (release_turn request_id state e).1.get? e = still request_id (state.1.get? e) ∧
      (e ∈ (release_turn request_id state e).2 ↔ e ∈ state.2 ∨ still request_id (state.1.get? e) = none) := by
  unfold release_turn
  cases found : state.1.get? e with
  | none => simp [still,found]
  | some members =>
      by_cases left : discard members request_id = []
      · simp [still,left,Dict.get?_erase_self]
      · simp [still,left,Dict.get?_set_self]

theorem release_turn_other (request_id : String) (state : Dict String (List String) × List String) {e x : String} (other : x ≠ e) :
    (release_turn request_id state e).1.get? x = state.1.get? x ∧ (x ∈ (release_turn request_id state e).2 ↔ x ∈ state.2) := by
  unfold release_turn
  split
  · simp [other]
  · split
    · simp [Dict.get?_set_ne _ _ other]
    · simp [Dict.get?_erase_ne _ other,other]

-- The loop over distinct executions: each one's members lose the request, and those with
-- nobody left are released.
theorem release_loop (request_id : String) {executions : List String} (distinct : executions.Nodup)
    (state : Dict String (List String) × List String) (x : String) :
    (executions.foldl (release_turn request_id) state).1.get? x =
        (if x ∈ executions then still request_id (state.1.get? x) else state.1.get? x) ∧
      (x ∈ (executions.foldl (release_turn request_id) state).2 ↔
        x ∈ state.2 ∨ (x ∈ executions ∧ still request_id (state.1.get? x) = none)) := by
  induction executions generalizing state with
  | nil => simp
  | cons e rest ih =>
      obtain ⟨fresh,distinct⟩ := List.nodup_cons.mp distinct
      obtain ⟨members,released⟩ := ih distinct (release_turn request_id state e)
      rw [List.foldl_cons,members,released]
      by_cases same : x = e
      · subst same
        obtain ⟨own,freed⟩ := release_turn_own request_id state x
        simp [own,freed,fresh]
      · obtain ⟨own,freed⟩ := release_turn_other request_id state same
        simp [own,freed,same]

theorem executions_of_distinct (s : Tracking) (request_id : String) : (s.executions_of request_id).Nodup := List.nodup_dedup _

theorem mem_executions_of {s : Tracking} {request_id e : String} :
    e ∈ s.executions_of request_id ↔
      e ∈ (s.request_execution_ids.get? request_id).getD [] ∨ e ∈ (s.request_execution_history_ids.get? request_id).getD [] := by
  rw [executions_of,List.mem_dedup,List.mem_append]

theorem release_members (s : Tracking) (request_id e : String) :
    (s.release_request_workflows request_id).unreleased_execution_members.get? e =
      if e ∈ s.executions_of request_id then still request_id (s.unreleased_execution_members.get? e)
      else s.unreleased_execution_members.get? e :=
  (release_loop request_id (s.executions_of_distinct request_id) (s.unreleased_execution_members,[]) e).1

-- A workflow id stays unless its execution is one of the request's and has nobody left.
theorem release_keeps (s : Tracking) (request_id e batch_id : String) :
    (e,batch_id) ∈ (s.release_request_workflows request_id).batch_workflow_id ↔
      (e,batch_id) ∈ s.batch_workflow_id ∧
        ¬ (e ∈ s.executions_of request_id ∧ still request_id (s.unreleased_execution_members.get? e) = none) := by
  have released := (release_loop request_id (s.executions_of_distinct request_id) (s.unreleased_execution_members,[]) e).2
  rw [Dict.mem_def,Dict.mem_def,Dict.mem_keys_iff,Dict.mem_keys_iff]
  change (∃ workflow_id, (release_executions _ _).get? (e,batch_id) = some workflow_id) ↔ _
  simp only [release_executions,Dict.get?_filter,decide_eq_true_eq,exists_and_right]
  refine and_congr_right fun _ => not_congr ?_
  simpa using released

-- The members that have not been released since the execution started.
def left (request_ids : List String) (since : List TrackingLabel) : List String :=
  request_ids.filter (fun m => decide (.release m ∉ since))

-- What the maps say of an execution that has started.
structure Tracked (s : Tracking) (e : String) (request_ids : List String) (since : List TrackingLabel) : Prop where
  issued : e ∈ s.issued
  running : ∀ r, e ∈ (s.request_execution_ids.get? r).getD [] → r ∈ request_ids
  history : ∀ r, e ∈ (s.request_execution_history_ids.get? r).getD [] ↔ r ∈ request_ids
  members : s.unreleased_execution_members.get? e = some (left request_ids since) ∨
    (left request_ids since = [] ∧ s.unreleased_execution_members.get? e = none)

theorem Tracked.executions_of {s : Tracking} {e : String} {request_ids : List String} {since : List TrackingLabel}
    (tracked : Tracked s e request_ids since) (r : String) : e ∈ s.executions_of r ↔ r ∈ request_ids := by
  rw [mem_executions_of,tracked.history]
  exact ⟨fun either => either.elim (tracked.running r) id,.inr⟩

theorem left_other {request_ids : List String} {since : List TrackingLabel} {label : TrackingLabel}
    (other : ∀ m ∈ request_ids, label ≠ .release m) : left request_ids (since ++ [label]) = left request_ids since := by
  refine List.filter_congr fun m member => ?_
  have different := other m member
  simp [Ne.symm different]

theorem left_release (request_ids : List String) (since : List TrackingLabel) (r : String) :
    left request_ids (since ++ [.release r]) = discard (left request_ids since) r := by
  unfold left discard
  rw [List.filter_filter]
  refine List.filter_congr fun m _ => ?_
  simp [and_comm]

-- Nobody is left once `r` is released just when all the other members have been.
theorem still_none {s : Tracking} {e : String} {request_ids : List String} {since : List TrackingLabel}
    (tracked : Tracked s e request_ids since) (r : String) :
    still r (s.unreleased_execution_members.get? e) = none ↔ ∀ m ∈ request_ids, m ≠ r → .release m ∈ since := by
  have nobody : discard (left request_ids since) r = [] ↔ ∀ m ∈ request_ids, m ≠ r → .release m ∈ since := by
    rw [List.eq_nil_iff_forall_not_mem]
    constructor
    · intro none_left m member other
      refine Classical.byContradiction fun kept => none_left m (mem_discard.mpr ⟨?_,other⟩)
      exact List.mem_filter.mpr ⟨member,decide_eq_true kept⟩
    · intro others m member
      obtain ⟨kept,other⟩ := mem_discard.mp member
      obtain ⟨own,unreleased⟩ := List.mem_filter.mp kept
      exact of_decide_eq_true unreleased (others m own other)
  rcases tracked.members with found | ⟨empty,missing⟩
  · rw [found,← nobody]
    simp [still]
  · rw [missing,← nobody,empty]
    simp [still,discard]

theorem start_tracked {s : Tracking} {e : String} (issued : ∀ r, e ∈ s.executions_of r → e ∈ s.issued) (fresh : e ∉ s.issued)
    (request_ids : List String) : Tracked (s.track e request_ids) e request_ids [] := by
  have unknown : ∀ r, e ∉ s.executions_of r := fun r member => fresh (issued r member)
  refine ⟨List.mem_cons_self,fun r member => ?_,fun r => ?_,.inl ?_⟩
  · change e ∈ ((add_execution s.request_execution_ids e request_ids).get? r).getD [] at member
    rw [add_execution_get] at member
    split at member
    · assumption
    · exact absurd (mem_executions_of.mpr (.inl member)) (unknown r)
  · change e ∈ ((add_execution s.request_execution_history_ids e request_ids).get? r).getD [] ↔ _
    rw [add_execution_get]
    split
    · rename_i member
      exact ⟨fun _ => member,fun _ => List.mem_insert_self⟩
    · rename_i other
      exact ⟨fun member => absurd (mem_executions_of.mpr (.inr member)) (unknown r),fun member => absurd member other⟩
  · exact (Dict.get?_set_self _ _ _).trans (by simp [left])

theorem step_tracked {s t : Tracking} {e : String} {request_ids : List String} {since : List TrackingLabel} {label : TrackingLabel}
    (tracked : Tracked s e request_ids since) (step : TrackingStep s label t) :
    Tracked t e request_ids (since ++ [label]) := by
  cases step with
  | start e' request_ids' fresh =>
      have other : e ≠ e' := fun same => fresh (same ▸ tracked.issued)
      have kept : ∀ ids : Dict String (List String), ∀ r, e ∈ ((add_execution ids e' request_ids').get? r).getD [] ↔
          e ∈ (ids.get? r).getD [] := by
        intro ids r
        rw [add_execution_get]
        split
        · rw [List.mem_insert_iff]
          exact or_iff_right other
        · rfl
      refine ⟨List.mem_cons_of_mem _ tracked.issued,fun r member => tracked.running r ((kept _ r).mp member),
        fun r => (kept _ r).trans (tracked.history r),?_⟩
      rw [left_other (by simp)]
      change (s.unreleased_execution_members.set e' request_ids').get? e = _ ∨ (_ ∧ (s.unreleased_execution_members.set e' request_ids').get? e = _)
      rw [Dict.get?_set_ne _ _ other]
      exact tracked.members
  | record e' batch_id workflow_id =>
      refine ⟨tracked.issued,tracked.running,tracked.history,?_⟩
      rw [left_other (by simp)]
      exact tracked.members
  | cleanup e' request_ids' =>
      refine ⟨tracked.issued,fun r member => tracked.running r (mem_cleanup member),tracked.history,?_⟩
      rw [left_other (by simp)]
      exact tracked.members
  | release r =>
      refine ⟨tracked.issued,tracked.running,tracked.history,?_⟩
      rw [release_members]
      by_cases member : r ∈ request_ids
      · rw [if_pos ((tracked.executions_of r).mpr member),left_release]
        rcases tracked.members with found | ⟨empty,missing⟩
        · rw [found]
          by_cases nobody : discard (left request_ids since) r = []
          · exact .inr ⟨nobody,by simp [still,nobody]⟩
          · exact .inl (by simp [still,nobody])
        · exact .inr ⟨by rw [empty]; rfl,by rw [missing]; rfl⟩
      · rw [if_neg (fun own => member ((tracked.executions_of r).mp own)),
          left_other (fun m own => by rintro same; cases same; exact member own)]
        exact tracked.members

-- Every execution in the maps has been issued its id.
def AllIssued (s : Tracking) : Prop := ∀ e r, e ∈ s.executions_of r → e ∈ s.issued

theorem step_all_issued {s t : Tracking} {label : TrackingLabel} (issued : AllIssued s) (step : TrackingStep s label t) :
    AllIssued t := by
  intro e r member
  rw [mem_executions_of] at member
  cases step with
  | start e' request_ids fresh =>
      have kept : ∀ ids : Dict String (List String), e ∈ ((add_execution ids e' request_ids).get? r).getD [] →
          e = e' ∨ e ∈ (ids.get? r).getD [] := by
        intro ids added
        rw [add_execution_get] at added
        split at added
        · exact List.mem_insert_iff.mp added
        · exact .inr added
      change e ∈ e' :: s.issued
      rw [List.mem_cons]
      rcases member with running | history
      · exact (kept _ running).imp_right fun earlier => issued e r (mem_executions_of.mpr (.inl earlier))
      · exact (kept _ history).imp_right fun earlier => issued e r (mem_executions_of.mpr (.inr earlier))
  | record e' batch_id workflow_id => exact issued e r (mem_executions_of.mpr member)
  | cleanup e' request_ids => exact issued e r (mem_executions_of.mpr (member.imp_left mem_cleanup))
  | release r' => exact issued e r (mem_executions_of.mpr member)

theorem run_all_issued {labels : List TrackingLabel} {s : Tracking} (path : Runs TrackingStep {} labels s) : AllIssued s :=
  path.invariant (fun _ _ member => absurd (mem_executions_of.mp member) (by simp)) (fun _ _ _ issued step => step_all_issued issued step)

theorem run_tracked {labels : List TrackingLabel} {s : Tracking} (path : Runs TrackingStep {} labels s)
    {earlier since : List TrackingLabel} {e : String} {request_ids : List String}
    (started : labels = earlier ++ .start e request_ids :: since) : Tracked s e request_ids since := by
  induction path generalizing since with
  | nil => simp at started
  | @snoc labels middle label after path step ih =>
      rcases List.eq_nil_or_concat since with rfl | ⟨since',last,rfl⟩
      · obtain ⟨_,same⟩ := List.append_inj' started rfl
        cases List.singleton_inj.mp same
        cases step with
        | start _ _ fresh => exact start_tracked (run_all_issued path e) fresh request_ids
      · have split : labels ++ [label] = (earlier ++ .start e request_ids :: since') ++ [last] := by simpa using started
        obtain ⟨before,same⟩ := List.append_inj' split rfl
        cases List.singleton_inj.mp same
        rw [List.concat_eq_append]
        exact step_tracked (ih before) step

-- The release of a member when all the others have been released since the start.
def LastReleased (request_ids : List String) (since : List TrackingLabel) (label : TrackingLabel) : Prop :=
  ∃ r ∈ request_ids, label = .release r ∧ ∀ m ∈ request_ids, m ≠ r → .release m ∈ since

-- Whatever else starts, is submitted, ends and is released meanwhile, the release of the
-- last member drops all workflow ids of the execution, and no other step drops one.
theorem released_with_last_member (earlier since : List TrackingLabel) (e : String) (request_ids : List String)
    (s t : Tracking) (label : TrackingLabel)
    (path : Runs TrackingStep {} (earlier ++ .start e request_ids :: since) s) (step : TrackingStep s label t) :
    (LastReleased request_ids since label → ∀ batch_id, (e,batch_id) ∉ t.batch_workflow_id) ∧
      ∀ batch_id, (e,batch_id) ∈ s.batch_workflow_id → (e,batch_id) ∉ t.batch_workflow_id →
        LastReleased request_ids since label := by
  have tracked := run_tracked path rfl
  cases step with
  | start e' request_ids' fresh =>
      exact ⟨(by rintro ⟨_,_,same,_⟩; cases same),fun batch_id held dropped => absurd held dropped⟩
  | record e' batch_id' workflow_id =>
      refine ⟨(by rintro ⟨_,_,same,_⟩; cases same),fun batch_id held dropped => absurd ?_ dropped⟩
      exact Dict.mem_keys_set.mpr (.inl held)
  | cleanup e' request_ids' =>
      exact ⟨(by rintro ⟨_,_,same,_⟩; cases same),fun batch_id held dropped => absurd held dropped⟩
  | release r =>
      constructor
      · rintro ⟨m,member,same,others⟩ batch_id held
        cases same
        exact ((release_keeps s r e batch_id).mp held).2
          ⟨(tracked.executions_of r).mpr member,(still_none tracked r).mpr others⟩
      · intro batch_id held dropped
        rw [release_keeps] at dropped
        obtain ⟨own,nobody⟩ := Classical.byContradiction fun kept => dropped ⟨held,kept⟩
        exact ⟨r,(tracked.executions_of r).mp own,rfl,(still_none tracked r).mp nobody⟩

-- Two members, the first of them released twice before the other.
def twoMembers : List TrackingLabel :=
  [.start "exec-1" ["job-a","job-b"],.record "exec-1" "batch-0" "wf-1",.release "job-a",.release "job-a"]

def oneUnreleased : Tracking :=
  (((({} : Tracking).track "exec-1" ["job-a","job-b"]).record_workflow "exec-1" "batch-0" "wf-1").release_request_workflows
    "job-a").release_request_workflows "job-a"

theorem twoMembers_run : Runs TrackingStep {} twoMembers oneUnreleased :=
  .snoc (.snoc (.snoc (.snoc .nil (.start _ _ _ (by decide))) (.record _ _ _ _)) (.release _ _)) (.release _ _)

theorem released_with_last_member_two :
    ("exec-1","batch-0") ∈ oneUnreleased.batch_workflow_id ∧
      ∀ batch_id, ("exec-1",batch_id) ∉ (oneUnreleased.release_request_workflows "job-b").batch_workflow_id :=
  ⟨by decide,(released_with_last_member [] [.record "exec-1" "batch-0" "wf-1",.release "job-a",.release "job-a"] "exec-1"
    ["job-a","job-b"] oneUnreleased _ (.release "job-b") twoMembers_run (.release _ _)).1
    ⟨"job-b",by decide,rfl,by decide⟩⟩

end Tracking
end Lumilake.Server

import Lumilake.RuntimeManager.PollLoop

namespace Lumilake.RuntimeManager
open Fallible

-- The response of a task is read in some round and archived, and no other for it.
def ArchivedOnce (redact_sensitive : Value → Value) (rounds : List PollRound) (state : PollState) (tid : String) : Prop :=
  ∃ round ∈ rounds, ∃ response, round.retrieve tid = .ok response ∧
    state.archived.filter (fun e => decide (e.1 = tid)) = [(tid,redact_sensitive response)]

structure Orderly (redact_sensitive : Value → Value) (rounds : List PollRound) (polled : List String) (state : PollState) : Prop where
  downloaded : state.downloaded_tasks = state.archived.map Prod.fst
  distinct : state.downloaded_tasks.Nodup
  known : ∀ tid ∈ state.downloaded_tasks, tid ∈ polled
  read : ∀ e ∈ state.archived, ∃ round ∈ rounds, ∃ response, round.retrieve e.1 = .ok response ∧ e.2 = redact_sensitive response

variable {redact_sensitive : Value → Value} {rounds : List PollRound} {polled : List String} {task_node_map : Dict String String}

theorem Orderly.congr {state after : PollState} (orderly : Orderly redact_sensitive rounds polled state)
    (downloaded : after.downloaded_tasks = state.downloaded_tasks) (archived : after.archived = state.archived) :
    Orderly redact_sensitive rounds polled after :=
  ⟨by rw [downloaded,archived,orderly.downloaded],downloaded ▸ orderly.distinct,downloaded ▸ orderly.known,
    archived ▸ orderly.read⟩

theorem download_spec {state after : PollState} {round : PollRound} (orderly : Orderly redact_sensitive rounds polled state)
    (now : round ∈ rounds) (member : tid ∈ polled) (done : download round redact_sensitive task_node_map state tid = .ok after) :
    Orderly redact_sensitive rounds polled after ∧ after.execution_task_status = state.execution_task_status ∧
      (∀ x ∈ state.downloaded_tasks, x ∈ after.downloaded_tasks) ∧
      ∃ status, state.execution_task_status.get? tid = some status ∧ (status = .done → tid ∈ after.downloaded_tasks) := by
  unfold download at done
  split at done
  · cases done
  · rename_i status found
    split at done
    · rename_i fresh
      split at done
      · cases done
      · obtain ⟨response,archived,rest⟩ := bind_ok done
        obtain ⟨data,retrieved,same⟩ := bind_ok archived
        cases same
        cases rest
        refine ⟨⟨?_,?_,?_,?_⟩,rfl,fun x old => List.mem_append_left _ old,status,found,fun _ => by simp⟩
        · simp [orderly.downloaded]
        · exact List.nodup_append.mpr ⟨orderly.distinct,List.nodup_singleton _,by
            rintro x old y last rfl
            exact fresh.2 (List.mem_singleton.mp last ▸ old)⟩
        · intro x there
          rcases List.mem_append.mp there with old | new
          · exact orderly.known x old
          · exact List.mem_singleton.mp new ▸ member
        · intro e there
          rcases List.mem_append.mp there with old | new
          · exact orderly.read e old
          · obtain rfl := List.mem_singleton.mp new
            exact ⟨round,now,data,retrieved,rfl⟩
    · rename_i stale
      cases done
      refine ⟨orderly,rfl,fun _ old => old,status,found,fun is_done => ?_⟩
      by_contra fresh
      exact stale ⟨is_done,fresh⟩

theorem downloads_spec {state after : PollState} {round : PollRound} {tids : List String}
    (orderly : Orderly redact_sensitive rounds polled state) (now : round ∈ rounds) (inside : ∀ tid ∈ tids, tid ∈ polled)
    (done : tids.foldlM (download round redact_sensitive task_node_map) state = .ok after) :
    Orderly redact_sensitive rounds polled after ∧ after.execution_task_status = state.execution_task_status ∧
      (∀ x ∈ state.downloaded_tasks, x ∈ after.downloaded_tasks) ∧
      ∀ tid ∈ tids, ∃ status, state.execution_task_status.get? tid = some status ∧
        (status = .done → tid ∈ after.downloaded_tasks) := by
  induction tids generalizing state with
  | nil =>
      cases done
      exact ⟨orderly,rfl,fun _ old => old,fun _ none_there => nomatch none_there⟩
  | cons tid rest ih =>
      rw [List.foldlM_cons] at done
      obtain ⟨next,first,later⟩ := bind_ok done
      obtain ⟨kept,status,grows,here⟩ := download_spec orderly now (inside tid List.mem_cons_self) first
      obtain ⟨kept',status',grows',others⟩ := ih kept (fun x member => inside x (List.mem_cons_of_mem _ member)) later
      refine ⟨kept',status'.trans status,fun x old => grows' x (grows x old),?_⟩
      intro x member
      rcases List.mem_cons.mp member with rfl | member
      · obtain ⟨own,found,downloaded⟩ := here
        exact ⟨own,found,fun is_done => grows' _ (downloaded is_done)⟩
      · exact status ▸ others x member

-- A poll that ends has every polled task in a terminal status, and archived if it is done.
theorem poll_spec {info : RequestInfo} {later : List PollRound} {state final : PollState}
    (orderly : Orderly redact_sensitive rounds polled state) (coming : ∀ round ∈ later, round ∈ rounds)
    (ended : poll info redact_sensitive task_node_map polled later state = .ok final) :
    Orderly redact_sensitive rounds polled final ∧
      (∀ status ∈ final.execution_task_status.values, status.terminal = true) ∧
      ∀ tid ∈ polled, ∃ status, final.execution_task_status.get? tid = some status ∧
        (status = .done → tid ∈ final.downloaded_tasks) := by
  induction later generalizing state with
  | nil => cases ended
  | cons round rest ih =>
      unfold poll at ended
      split at ended
      · cases ended
      · obtain ⟨status,updated,ended⟩ := bind_ok ended
        obtain ⟨next,downloads,ended⟩ := bind_ok ended
        have current : Orderly redact_sensitive rounds polled { state with execution_task_status := status } :=
          orderly.congr rfl rfl
        obtain ⟨kept,same,_,archived⟩ := downloads_spec current (coming round List.mem_cons_self) (fun _ member => member) downloads
        split at ended
        · rename_i terminal
          cases ended
          refine ⟨kept,fun x member => List.all_eq_true.mp terminal x member,fun tid member => ?_⟩
          rw [same]
          exact archived tid member
        · split at ended
          · cases ended
          · exact ih kept (fun x member => coming x (List.mem_cons_of_mem _ member)) ended

theorem filter_key {l : List (String × Value)} (distinct : (l.map Prod.fst).Nodup) (member : (tid,v) ∈ l) :
    l.filter (fun e => decide (e.1 = tid)) = [(tid,v)] := by
  obtain ⟨before,after,rfl⟩ := List.append_of_mem member
  rw [List.map_append,List.map_cons,List.nodup_middle,List.nodup_cons,← List.map_append] at distinct
  have others : (before ++ after).filter (fun e => decide (e.1 = tid)) = [] := by
    refine List.filter_eq_nil_iff.mpr (fun e there => ?_)
    have key : e.1 ∈ (before ++ after).map Prod.fst := List.mem_map_of_mem there
    have apart : e.1 ≠ tid := fun same => distinct.1 (same ▸ key)
    simpa using apart
  rw [List.filter_append,List.append_eq_nil_iff] at others
  rw [List.filter_append,List.filter_cons,if_pos (by simp),others.1,others.2]
  rfl

theorem archived_iff {state : PollState} (orderly : Orderly redact_sensitive rounds polled state) :
    ArchivedOnce redact_sensitive rounds state tid ↔ tid ∈ state.downloaded_tasks := by
  constructor
  · rintro ⟨_,_,response,_,only⟩
    have member : (tid,redact_sensitive response) ∈ state.archived := by
      have inside : (tid,redact_sensitive response) ∈ state.archived.filter (fun e => decide (e.1 = tid)) := by
        rw [only]
        exact List.mem_singleton_self _
      exact (List.mem_filter.mp inside).1
    rw [orderly.downloaded]
    exact List.mem_map.mpr ⟨_,member,rfl⟩
  · intro there
    rw [orderly.downloaded] at there
    obtain ⟨⟨_,stored⟩,member,rfl⟩ := List.mem_map.mp there
    obtain ⟨round,now,response,retrieved,rfl⟩ := orderly.read _ member
    exact ⟨round,now,response,retrieved,filter_key (orderly.downloaded ▸ orderly.distinct) member⟩

theorem polled_last {accepted : Accepted} {info : RequestInfo} {raw : Dict String String}
    (last : info.member_request_ids.getLast? = some member_id) :
    polled_task_ids accepted info raw = member_tasks info raw member_id := by
  obtain ⟨earlier,split⟩ := List.getLast?_eq_some_iff.mp last
  rw [polled_task_ids,member_task_ids,split,List.map_append,List.foldl_append]
  rfl

-- An execution that returns has archived the responses of the member whose tasks were
-- recorded last, each once, and no others.
theorem archived_once_iff {accepted : Accepted} {info : RequestInfo} {final : PollState}
    (returned : await_tasks redact_sensitive accepted info rounds = .ok final) :
    ∃ maps raw, resolve_task_node_maps accepted = .ok maps ∧ raw_task_node_map accepted maps.1 = .ok raw ∧
      ((∀ member_id ∈ info.member_request_ids, ∀ tid ∈ member_tasks info raw member_id,
          ArchivedOnce redact_sensitive rounds final tid) ↔
        ∀ last ∈ info.member_request_ids.getLast?, ∀ member_id ∈ info.member_request_ids,
          ∀ tid ∈ member_tasks info raw member_id, tid ∈ member_tasks info raw last) := by
  obtain ⟨maps,resolved,returned⟩ := bind_ok returned
  obtain ⟨raw,mapped,returned⟩ := bind_ok returned
  obtain ⟨state,polled,returned⟩ := bind_ok returned
  have start : Orderly redact_sensitive rounds (polled_task_ids accepted info raw)
      ⟨accepted.task_ids.foldl (fun status tid => status.set tid (.running "PENDING")) Dict.empty,[],[]⟩ :=
    ⟨rfl,List.nodup_nil,by simp,by simp⟩
  obtain ⟨orderly,terminal,archived⟩ := poll_spec start (fun _ member => member) polled
  split at returned
  · cases returned
  · rename_i unfailed
    cases returned
    -- nothing failed, so what is terminal is done
    have done : ∀ tid, tid ∈ final.downloaded_tasks ↔ tid ∈ polled_task_ids accepted info raw := by
      refine fun tid => ⟨orderly.known tid,fun member => ?_⟩
      obtain ⟨status,found,downloaded⟩ := archived tid member
      have value : status ∈ final.execution_task_status.values := List.mem_map.mpr ⟨_,Dict.get?_eq_some.mp found,rfl⟩
      refine downloaded ?_
      cases status with
      | done => rfl
      | failed => exact absurd value unfailed
      | running name => cases terminal _ value
    refine ⟨maps,raw,resolved,mapped,?_⟩
    simp only [archived_iff orderly,done]
    cases ending : info.member_request_ids.getLast? with
    | none =>
        rw [List.getLast?_eq_none_iff] at ending
        simp [ending]
    | some last =>
        rw [polled_last ending]
        exact ⟨fun all last' same => Option.some.inj same ▸ all,fun all => all last rfl⟩

-- Two members with a task each, both done in the first round.
def twoTasks : Accepted where
  task_ids := ["t1","t2"]
  node_names := ["a","b"]
  graph_node_name tid := if tid = "t1" then some "a" else if tid = "t2" then some "b" else none
  flowmesh_to_raw := (Dict.empty.set "a" "a").set "b" "b"

def twoMembers (owners : Dict String (List String)) : RequestInfo where
  request_id := "exec-1"
  member_request_ids := ["r1","r2"]
  task_owner_members := owners

def doneRound : PollRound where
  fetch_task_status _ := .ok .done
  retrieve _ := .ok (.str "response")

def sharedOwners : Dict String (List String) := (Dict.empty.set "a" ["r1","r2"]).set "b" ["r1","r2"]

def ownTasks : Dict String (List String) := (Dict.empty.set "a" ["r1"]).set "b" ["r2"]

theorem returned_of {x : Except String PollState} (ok : x.toOption.isSome = true) : ∃ final, x = .ok final := by
  cases x with
  | error message => cases ok
  | ok final => exact ⟨final,rfl⟩

theorem archived_once_iff_shared : ∃ final, await_tasks id twoTasks (twoMembers sharedOwners) [doneRound] = .ok final ∧
    ∃ maps raw, resolve_task_node_maps twoTasks = .ok maps ∧ raw_task_node_map twoTasks maps.1 = .ok raw ∧
      ((∀ member_id ∈ (twoMembers sharedOwners).member_request_ids, ∀ tid ∈ member_tasks (twoMembers sharedOwners) raw member_id,
          ArchivedOnce id [doneRound] final tid) ↔
        ∀ last ∈ (twoMembers sharedOwners).member_request_ids.getLast?, ∀ member_id ∈ (twoMembers sharedOwners).member_request_ids,
          ∀ tid ∈ member_tasks (twoMembers sharedOwners) raw member_id, tid ∈ member_tasks (twoMembers sharedOwners) raw last) := by
  obtain ⟨final,returned⟩ := returned_of (x := await_tasks id twoTasks (twoMembers sharedOwners) [doneRound]) (by decide +kernel)
  exact ⟨final,returned,archived_once_iff returned⟩

-- The response of the first member's task is never archived.
theorem response_not_archived :
    ¬ ∀ (redact_sensitive : Value → Value) (accepted : Accepted) (info : RequestInfo) (rounds : List PollRound) (final : PollState),
      await_tasks redact_sensitive accepted info rounds = .ok final →
      ∀ maps raw, resolve_task_node_maps accepted = .ok maps → raw_task_node_map accepted maps.1 = .ok raw →
      ∀ member_id ∈ info.member_request_ids, ∀ tid ∈ member_tasks info raw member_id,
        ArchivedOnce redact_sensitive rounds final tid := by
  intro all
  obtain ⟨final,returned⟩ := returned_of (x := await_tasks id twoTasks (twoMembers ownTasks) [doneRound]) (by decide +kernel)
  have archived : (await_tasks id twoTasks (twoMembers ownTasks) [doneRound]).toOption.map
      (fun state => state.archived.map Prod.fst) = some ["t2"] := by decide +kernel
  have maps : resolve_task_node_maps twoTasks =
      .ok ((Dict.empty.set "t1" "a").set "t2" "b",(Dict.empty.set "a" "t1").set "b" "t2") := rfl
  have raw : raw_task_node_map twoTasks ((Dict.empty.set "t1" "a").set "t2" "b") = .ok ((Dict.empty.set "t1" "a").set "t2" "b") := rfl
  obtain ⟨_,_,response,_,only⟩ := all id twoTasks (twoMembers ownTasks) [doneRound] final returned _ _ maps raw "r1"
    (by decide) "t1" (by decide)
  rw [returned] at archived
  have ids : final.archived.map Prod.fst = ["t2"] := Option.some.inj archived
  have inside : ("t1",id response) ∈ final.archived := by
    have there : ("t1",id response) ∈ final.archived.filter (fun e => decide (e.1 = "t1")) := by
      rw [only]
      exact List.mem_singleton_self _
    exact (List.mem_filter.mp there).1
  have listed := List.mem_map_of_mem (f := Prod.fst) inside
  rw [ids] at listed
  have same : "t1" = "t2" := List.mem_singleton.mp listed
  exact absurd same (by decide)

end Lumilake.RuntimeManager

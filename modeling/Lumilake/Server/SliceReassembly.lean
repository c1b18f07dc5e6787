import Mathlib
import Lumilake.Library.Fallible
import Lumilake.Server.RequestFrame
import Lumilake.Server.SliceMerge

namespace Lumilake.Server
open Tiling
variable {str : Value → String}

-- Where a request stands when the slices in `done` have been handled.
structure Progress (q : SlicedRequest) (done : List WorkflowItem) (state : RequestState) : Prop where
  pending : ∀ id, id ∈ state.pending_workflows ↔
    id ∈ q.slices.map WorkflowItem.workflow_id ∧ id ∉ done.map WorkflowItem.workflow_id
  outputs : Buffered q q.outputs done state.output_buffers
  histories : Buffered q q.histories done state.chat_history_buffers
  no_error : state.error_info = none
  successful : ∀ id, id ∈ state.successful_workflow_ids ↔ id ∈ done.map WorkflowItem.workflow_id
  count : state.completed_input_items_success = (done.map WorkflowItem.slice_length).sum
  lambdas : ∀ w ∈ q.slices, ∀ name, name ∈ list_lambda_names state w ↔ name ∈ q.list_lambdas w.public_graph_name
  ready : state.ready = true
  results : state.results = []

-- A batch brings a slice of the request: it did not fail, the request is not
-- cancelled, and the payloads are the slice's. No chat history is an empty one.
structure Delivers (q : SlicedRequest) (b : BatchResults) (w : WorkflowItem) : Prop where
  sound : b.error = none
  live : q.request_id ∉ b.cancelled_requests
  outputs : b.batch_outputs.get? w.workflow_id = some (q.outputs.payload w.workflow_id)
  histories : (b.batch_histories.get? w.workflow_id).getD Dict.empty = q.histories.payload w.workflow_id

section
variable {size : String → String → String → Nat} {list_lambda : String → Dict String (List String)}
  {q : SlicedRequest} {b : BatchResults}

end

section
variable {q : SlicedRequest}

end

section
variable {size : String → String → String → Nat} {list_lambda : String → Dict String (List String)}
  {q : SlicedRequest}

end

-- A request as `handle_request` leaves it: its slices pending, nothing handled.
structure Fresh (q : SlicedRequest) (state : RequestState) : Prop where
  pending : ∀ id, id ∈ state.pending_workflows ↔ id ∈ q.slices.map WorkflowItem.workflow_id
  outputs : state.output_buffers = Dict.empty
  histories : state.chat_history_buffers = Dict.empty
  no_error : state.error_info = none
  successful : state.successful_workflow_ids = ∅
  count : state.completed_input_items_success = 0
  ready : state.ready = true
  results : state.results = []

def list_lambda_of (requests : Requests) (request_id : String) : Dict String (List String) :=
  ((requests.get? request_id).map RequestState.list_lambda_outputs).getD Dict.empty

-- The slices of one public graph agree on the row count and on which outputs are
-- a list-mode Lambda's, so that every buffer has one size for good.
def Regular (requests : Requests) (batches : List BatchResults) : Prop :=
  ∃ size : String → String → String → Nat,
    (∀ r state, requests.get? r = some state →
      Sized (size r) state.output_buffers ∧ Sized (size r) state.chat_history_buffers) ∧
    ∀ b ∈ batches, ∀ w ∈ b.workflows,
      Fits (size w.request_id) (((list_lambda_of requests w.request_id).get? w.workflow_id).getD []) w

-- What an answered list was made from.
theorem finalize_found {buffers : Buffers} {item : Value → Value} {values : List Value}
    (entry : ((finalize_buffers item buffers).get? g).bind (Dict.get? · name) = some (.list values)) :
    ∃ outputs target, buffers.get? g = some outputs ∧ outputs.get? name = some target ∧ values = target.map item := by
  unfold finalize_buffers at entry
  obtain ⟨finals,found,inside⟩ := Option.bind_eq_some_iff.mp entry
  cases kept : (buffers.filter (fun _ outputs => !outputs.entries.isEmpty)).get? g with
  | none =>
      rw [Dict.get?_eq_none.mpr (by rw [Dict.keys_mapValues]; exact Dict.get?_eq_none.mp kept)] at found
      cases found
  | some outputs =>
      rw [Dict.get?_mapValues kept] at found
      cases found
      cases target : outputs.get? name with
      | none =>
          rw [Dict.get?_eq_none.mpr (by rw [Dict.keys_mapValues]; exact Dict.get?_eq_none.mp target)] at inside
          cases inside
      | some cells =>
          rw [Dict.get?_mapValues target] at inside
          cases inside
          exact ⟨outputs,cells,(Dict.get?_filter.mp kept).1,target,rfl⟩

section
variable {size : String → String → String → Nat} {list_lambda : String → Dict String (List String)} {r : String}

end

-- `str` on the texts and the integers of the runs below.
def plain : Value → String
  | .str s => s
  | .int i => toString i
  | _ => ""

def sliceOf (id graph : String) (start length total : Nat) : WorkflowItem where
  workflow_id := id
  request_id := "r"
  graph_name := id
  public_graph_name := graph
  slice_index := start
  slice_start := start
  slice_length := length
  total_length := total
  template_hash := "hash"
  varying_input_keys := ["text"]
  runtime_graph := ⟨Dict.empty,[],Dict.empty,Dict.empty,Dict.empty⟩
  config := { user_id := "user", principal_id := "principal" }
  enqueued_at := 0

def batchOf (w : WorkflowItem) (name : String) (values : List Value) : BatchResults where
  workflows := [w]
  batch_outputs := Dict.empty.set w.workflow_id (Dict.empty.set name values)
  batch_histories := Dict.empty

def requestOf (slices : List WorkflowItem) (list_lambdas : String → List String) : Requests :=
  Dict.empty.set "r" {
    pending_workflows := (slices.map WorkflowItem.workflow_id).toFinset
    list_lambda_outputs := slices.foldl (fun d w => d.set w.workflow_id (list_lambdas w.public_graph_name)) Dict.empty
    ready := true }

def answer (after : Except String Requests) : Option LumilakeResponse :=
  match after with
  | .ok requests => (requests.get? "r").bind (fun state => state.results.head?)
  | .error _ => none

-- Two rows of a row-wise graph in two slices, and two of a list-mode Lambda's in one.
def threeSlices : List WorkflowItem := [sliceOf "a" "g" 0 1 2,sliceOf "b" "g" 1 1 2,sliceOf "c" "h" 0 2 2]

def namesOf (graph : String) : List String := if graph = "h" then ["all"] else ["out"]
def lambdasOf (graph : String) : List String := if graph = "h" then ["all"] else []

def broughtBy (workflow_id : String) : String × Value :=
  if workflow_id = "a" then ("out",.str "x") else if workflow_id = "b" then ("out",.str "y") else ("all",.str "z")

def bringing (workflow_id : String) : Payload := Dict.empty.set (broughtBy workflow_id).1 [(broughtBy workflow_id).2]

theorem bringing_found (found : (bringing workflow_id).get? name = some values) :
    name = (broughtBy workflow_id).1 ∧ values = [(broughtBy workflow_id).2] := by
  have entry := Dict.get?_eq_some.mp found
  simpa [bringing,Dict.mem_entries_set] using entry

def threeOutputs : Brought threeSlices lambdasOf where
  payload := bringing
  length w member name values found := by
    obtain ⟨rfl,rfl⟩ := bringing_found found
    have each : ∀ w ∈ threeSlices, 1 = if (broughtBy w.workflow_id).1 ∈ lambdasOf w.public_graph_name then 1 else w.slice_length := by
      decide
    exact each w member
  no_null w member name values found null := by
    obtain ⟨rfl,rfl⟩ := bringing_found found
    have each : ∀ w ∈ threeSlices, Value.none ≠ (broughtBy w.workflow_id).2 := by decide
    exact each w member (List.mem_singleton.mp null)

def threeHistories : Brought threeSlices lambdasOf where
  payload := fun _ => Dict.empty
  length _ _ _ _ found := by cases found
  no_null _ _ _ _ found := by cases found

theorem three_tiles : ∀ w ∈ threeSlices, Tiles 2 ((of_graph threeSlices w.public_graph_name).map row_piece) := by
  intro w member
  have rows : of_graph threeSlices w.public_graph_name = [sliceOf "a" "g" 0 1 2,sliceOf "b" "g" 1 1 2] ∨
      of_graph threeSlices w.public_graph_name = [sliceOf "c" "h" 0 2 2] := by
    have each : ∀ w ∈ threeSlices, w.public_graph_name = "g" ∨ w.public_graph_name = "h" := by decide
    rcases each w member with g | h
    · exact .inl (by rw [g]; rfl)
    · exact .inr (by rw [h]; rfl)
  rcases rows with rows | rows
  · rw [rows]
    refine ⟨by decide,?_,?_⟩
    · refine List.pairwise_pair.mpr ?_
      intro i both
      simp only [Piece.Covers,Piece.stop,row_piece,sliceOf,List.length_range'] at both
      omega
    · intro i inside
      by_cases first : i = 0
      · exact ⟨_,List.mem_cons_self,by simp only [Piece.Covers,Piece.stop,row_piece,sliceOf,List.length_range']; omega⟩
      · exact ⟨_,List.mem_cons_of_mem _ List.mem_cons_self,by
          simp only [Piece.Covers,Piece.stop,row_piece,sliceOf,List.length_range']; omega⟩
  · rw [rows]
    refine ⟨by decide,List.pairwise_singleton _ _,fun i inside => ⟨_,List.mem_cons_self,?_⟩⟩
    simp only [Piece.Covers,Piece.stop,row_piece,sliceOf,List.length_range']
    omega

def mixedRequest : SlicedRequest where
  request_id := "r"
  slices := threeSlices
  total := fun _ => 2
  names := namesOf
  list_lambdas := lambdasOf
  outputs := threeOutputs
  histories := threeHistories
  nonempty := List.cons_ne_nil _ _
  mine := by decide
  distinct := by decide
  sized := by decide
  tiles := three_tiles
  declared w member name := by
    have each : ∀ w ∈ threeSlices, namesOf w.public_graph_name = [(broughtBy w.workflow_id).1] := by decide
    rw [each w member]
    simp [threeOutputs,bringing,Dict.mem_keys_set]
  texts w member name values found v inside := by
    obtain ⟨rfl,rfl⟩ := bringing_found found
    rw [List.mem_singleton.mp inside]
    unfold broughtBy
    split
    · exact ⟨_,rfl⟩
    · split <;> exact ⟨_,rfl⟩
  spoken _ _ name spoken := by cases spoken

theorem three_regular {batches : List BatchResults} (inside : ∀ b ∈ batches, ∀ w ∈ b.workflows, w ∈ threeSlices) :
    Regular (requestOf threeSlices lambdasOf) batches := by
  refine ⟨fun _ g name => if name ∈ lambdasOf g then 1 else 2,?_,?_⟩
  · intro r state found
    have fresh : state.output_buffers = Dict.empty ∧ state.chat_history_buffers = Dict.empty := by
      have entry := Dict.get?_eq_some.mp found
      simp [requestOf,Dict.mem_entries_set] at entry
      rw [entry.2]
      exact ⟨rfl,rfl⟩
    rw [fresh.1,fresh.2]
    exact ⟨fun _ _ _ _ seen => by simp at seen,fun _ _ _ _ seen => by simp at seen⟩
  · intro b member w here name
    have each : ∀ w ∈ threeSlices, w.total_length = 2 ∧
        ((list_lambda_of (requestOf threeSlices lambdasOf) w.request_id).get? w.workflow_id).getD [] = lambdasOf w.public_graph_name := by
      decide
    obtain ⟨total,listed⟩ := each w (inside b member w here)
    rw [listed,total]

def mixedBatches : List BatchResults :=
  [batchOf (sliceOf "b" "g" 1 1 2) "out" [.str "y"],batchOf (sliceOf "c" "h" 0 2 2) "all" [.str "z"],
    batchOf (sliceOf "a" "g" 0 1 2) "out" [.str "x"]]

theorem mixed_inside : ∀ b ∈ mixedBatches, ∀ w ∈ b.workflows, w ∈ threeSlices := by
  intro b member w inside
  rcases List.mem_cons.mp member with rfl | member
  · cases List.mem_singleton.mp inside
    exact List.mem_cons_of_mem _ List.mem_cons_self
  · rcases List.mem_pair.mp member with rfl | rfl <;> cases List.mem_singleton.mp inside
    · exact List.mem_cons_of_mem _ (List.mem_cons_of_mem _ List.mem_cons_self)
    · exact List.mem_cons_self

end Lumilake.Server

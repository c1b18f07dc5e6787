import Mathlib.Data.List.Sort
import Lumilake.Server.BatchResults

namespace Lumilake.Server
open Tiling
variable {str : Value → String}

def of_graph (slices : List WorkflowItem) (public_name : String) : List WorkflowItem :=
  slices.filter (fun w => decide (w.public_graph_name = public_name))

-- The input rows a slice stands for.
def row_piece (w : WorkflowItem) : Piece Nat := ⟨w.slice_start,List.range' w.slice_start w.slice_length⟩

-- What the slices bring back, by workflow id: under a name as many values as the slice has
-- rows, one where it is a list-mode Lambda's, and none of them null.
structure Brought (slices : List WorkflowItem) (list_lambdas : String → List String) where
  payload : String → Payload
  length : ∀ w ∈ slices, ∀ name values, (payload w.workflow_id).get? name = some values →
    values.length = if name ∈ list_lambdas w.public_graph_name then 1 else w.slice_length
  no_null : ∀ w ∈ slices, ∀ name values, (payload w.workflow_id).get? name = some values → Value.none ∉ values

-- A request cut into slices: those of one public graph tile its rows and bring its declared
-- outputs, as texts. A chat history is that of an output.
structure SlicedRequest where
  request_id : String
  slices : List WorkflowItem
  total : String → Nat
  names : String → List String
  list_lambdas : String → List String
  outputs : Brought slices list_lambdas
  histories : Brought slices list_lambdas
  nonempty : slices ≠ []
  mine : ∀ w ∈ slices, w.request_id = request_id
  distinct : (slices.map WorkflowItem.workflow_id).Nodup
  sized : ∀ w ∈ slices, w.total_length = total w.public_graph_name ∧ 0 < w.total_length
  tiles : ∀ w ∈ slices, Tiles (total w.public_graph_name) ((of_graph slices w.public_graph_name).map row_piece)
  declared : ∀ w ∈ slices, ∀ name, name ∈ (outputs.payload w.workflow_id).keys ↔ name ∈ names w.public_graph_name
  texts : ∀ w ∈ slices, ∀ name values, (outputs.payload w.workflow_id).get? name = some values →
    ∀ v ∈ values, ∃ s, v = .str s
  spoken : ∀ w ∈ slices, ∀ name ∈ (histories.payload w.workflow_id).keys, name ∈ names w.public_graph_name

-- No graph of several slices has an output of a list-mode Lambda.
def SlicedRequest.OneSlice (q : SlicedRequest) : Prop :=
  ∀ v ∈ q.slices, ∀ w ∈ q.slices, v.public_graph_name = w.public_graph_name →
    (∃ name ∈ q.names w.public_graph_name, name ∈ q.list_lambdas w.public_graph_name) → v = w

section
variable {slices : List WorkflowItem} {list_lambdas : String → List String}

def Brought.values (b : Brought slices list_lambdas) (name : String) (w : WorkflowItem) : List Value :=
  ((b.payload w.workflow_id).get? name).getD []

-- A list-mode Lambda's value goes to the one cell there is.
def Brought.piece (b : Brought slices list_lambdas) (name : String) (w : WorkflowItem) : Piece Value :=
  ⟨if name ∈ list_lambdas w.public_graph_name then 0 else w.slice_start,b.values name w⟩

end

theorem mem_of_graph {slices : List WorkflowItem} : w ∈ of_graph slices g ↔ w ∈ slices ∧ w.public_graph_name = g := by
  simp [of_graph]

section
variable {slices : List WorkflowItem} {list_lambdas : String → List String} {b : Brought slices list_lambdas}

theorem Brought.found (named : name ∈ (b.payload w.workflow_id).keys) :
    (b.payload w.workflow_id).get? name = some (b.values name w) := by
  obtain ⟨values,found⟩ := Dict.mem_keys_iff.mp named
  simp [Brought.values,found]

theorem Brought.mem_values {b : Brought slices list_lambdas} (inside : v ∈ b.values name w) :
    ∃ values, (b.payload w.workflow_id).get? name = some values ∧ v ∈ values := by
  unfold Brought.values at inside
  cases found : (b.payload w.workflow_id).get? name with
  | none => simp [found] at inside
  | some values => exact ⟨values,rfl,by simpa [found] using inside⟩

end

-- A buffer has one cell for a list-mode Lambda, and one for each row otherwise.
def SlicedRequest.room (q : SlicedRequest) (g name : String) : Nat :=
  if name ∈ q.list_lambdas g then 1 else q.total g

-- The buffer that the slices in `done` leave behind.
def painted (q : SlicedRequest) (b : Brought q.slices q.list_lambdas) (done : List WorkflowItem) (g name : String) : List Value :=
  paint .none (q.room g name) ((of_graph done g).map (b.piece name))

section
variable {q : SlicedRequest} {b : Brought q.slices q.list_lambdas}

-- A list-mode Lambda's graph has the one slice.
theorem alone (clean : q.OneSlice) (member : w ∈ q.slices) (named : name ∈ q.names w.public_graph_name)
    (single : name ∈ q.list_lambdas w.public_graph_name) : of_graph q.slices w.public_graph_name = [w] := by
  have apart : (of_graph q.slices w.public_graph_name).Nodup := (List.Nodup.of_map _ q.distinct).filter _
  refine List.perm_singleton.mp ((List.perm_ext_iff_of_nodup apart (List.nodup_singleton w)).mpr fun v => ?_)
  rw [mem_of_graph,List.mem_singleton]
  constructor
  · exact fun inside => clean v inside.1 w member inside.2 ⟨name,named,single⟩
  · rintro rfl
    exact ⟨member,rfl⟩

end

-- The buffers hold the paint of `done` under each name that it brought.
def Buffered (q : SlicedRequest) (b : Brought q.slices q.list_lambdas) (done : List WorkflowItem) (buffers : Buffers) : Prop :=
  ∀ g name, (buffers.get? g).bind (Dict.get? · name) =
    if ∃ w ∈ done, w.public_graph_name = g ∧ name ∈ (b.payload w.workflow_id).keys then some (painted q b done g name) else none

-- What a slice may bring under a name, where it goes, and the buffer it goes to.
def extent (names : List String) (w : WorkflowItem) (name : String) : Nat := if name ∈ names then 1 else w.slice_length
def room (names : List String) (w : WorkflowItem) (name : String) : Nat := if name ∈ names then 1 else w.total_length

def target (names : List String) (w : WorkflowItem) (buffers : Payload) (name : String) : List Value :=
  (buffers.get? name).getD (List.replicate (room names w name) .none)

section
variable {q : SlicedRequest} {b : Brought q.slices q.list_lambdas}

end

end Lumilake.Server

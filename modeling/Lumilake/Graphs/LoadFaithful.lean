import Lumilake.Graphs.Loading
import Mathlib.Logic.Relation

namespace Lumilake.Graphs
open Ops Fallible Relation

-- The node that a row-wise column reads, when it is not given its data.
def column_node : Value → Option String
  | .dict column =>
    match column.lookup "label",column.lookup "data",column.lookup "node" with
    | some (.str _),some (.dict _),_ => none
    | some (.str _),_,some (.str node) => some node
    | _,_,_ => none
  | _ => none

def column_nodes : Value → List String
  | .list columns => columns.filterMap column_node
  | _ => []

def rowwise_nodes : Body → List String
  | .llm_chat_op llm => column_nodes llm.rowwise_columns
  | .llm_vision_op llm _ _ => column_nodes llm.rowwise_columns
  | _ => []

-- The operation that a loaded graph has under an id, its references given as ids.
def Graph.view (graph : Graph) (id : String) : Option Op :=
  ((graph.order.get? id).bind graph.ops.get?).map (Op.rename (id_of graph.ops))

def Precedes (order : List String) (a b : String) : Prop := order.idxOf a < order.idxOf b ∧ b ∈ order

-- What loading owes: no operation is lost, every reference to an operation stands before its
-- reader, and writing the graph and loading it again, however the sets are listed then, gives
-- the same operations.
structure Faithful (python : Python) (json : JsonGraph) (graph : Graph) : Prop where
  complete : ∀ key data, json.get? key = some data → graph.order.get? data.id = some key
  ordered : ∀ id op, graph.view id = some op → ∀ ref ∈ op.inputs ++ rowwise_nodes op.body,
    (∃ key data, json.get? key = some data ∧ data.id = ref) → Precedes graph.order.keys ref id
  again : ∀ order, ∃ reloaded, Graph.from_json python order graph.serialize = .ok reloaded ∧ ∀ id, reloaded.view id = graph.view id

section
variable (python : Python) (json : JsonGraph)

structure Kept : Prop where
  distinct : ∀ key data key' data', json.get? key = some data → json.get? key' = some data' → data.id = data'.id → key = key'
  linked : ∀ key ∈ json.keys, (∃ reader, Reads python json reader key) ∨ ∃ dep, Reads python json key dep

-- What the operation under a key reads through its inputs.
def inputs_at (key : String) : List String :=
  match json.get? key with
  | some data =>
    match op_from_json python (earlier json key) data with
    | .ok op => op.inputs
    | .error _ => []
  | none => []

-- All that is read, in the order of the table.
def references : List String := json.keys.flatMap (inputs_at python json)

-- A longer chain of inputs leads to `b` than to `a`; or the longest are as long, and that of `b`
-- can start at an operation which is first read later than any start of those of `a`.
def Leads (a b : String) : Prop := Before (Reads python json) (fun key => (references python json).idxOf key) a b

-- An image source names an operation by its id, and no `format_paths` is empty in another way than `{}`.
structure Spelled : Prop extends Kept python json where
  image_sources : ∀ key op, Loads python json key op → ∀ llm text path, op.body = .llm_vision_op llm (.str text) path →
    ∀ data, text ∈ earlier json key → json.get? text = some data → data.id = text
  format_paths : ∀ key op, Loads python json key op → ∀ template args kwargs paths,
    op.body = .format_op template args kwargs paths → paths.truth = true ∨ paths = .dict []

-- Where loading is faithful: moreover what a column reads leads to its reader, and a text is the
-- id of no operation but its own and those that its own leads to.
structure Unmistaken : Prop extends Spelled python json where
  columns : ∀ key op, Loads python json key op → ∀ node ∈ rowwise_nodes op.body, ∀ key' data',
    json.get? key' = some data' → data'.id = node → Leads python json key' key
  literals : ∀ key op, Loads python json key op → ∀ text ∈ op.body.literals (earlier json key), ∀ key' data',
    json.get? key' = some data' → data'.id = text → key' = key ∨ Leads python json key key'

-- The same of one order of the operations.
structure UnmistakenIn (order : List String) : Prop extends Spelled python json where
  columns : ∀ key op, Loads python json key op → ∀ node ∈ rowwise_nodes op.body, ∀ key' data',
    json.get? key' = some data' → data'.id = node → Precedes order key' key
  literals : ∀ key op, Loads python json key op → ∀ text ∈ op.body.literals (earlier json key), ∀ key' data',
    json.get? key' = some data' → data'.id = text → ¬Precedes order key' key

end

-- What the steps of loading leave behind.
structure Arranged (python : Python) (json : JsonGraph) (graph : Graph) (sorted : List String) : Prop where
  keys : graph.ops.keys = json.keys
  loads : ∀ key op, graph.ops.get? key = some op ↔ Loads python json key op
  order : graph.order = by_id graph.ops sorted
  distinct : sorted.Nodup
  members : ∀ key, key ∈ sorted ↔ (∃ reader, Reads python json reader key) ∨ ∃ dep, Reads python json key dep
  before : ∀ front key back, sorted = front ++ key :: back → ∀ dep, Reads python json key dep → dep ∈ front

section
variable {python : Python} {json : JsonGraph} {graph : Graph} {sorted : List String} {order : SetOrder String}

theorem takeWhile_subset (key : String) : earlier json key ⊆ json.keys := List.takeWhile_subset _

theorem exists_arranged (accepted : Graph.from_json python order json = .ok graph) : ∃ sorted,
    topological_sort (order.arrange (dependencies graph.ops)) none = .ok sorted ∧ Arranged python json graph sorted := by
  obtain ⟨loaded,_,sorted,_,sort,order⟩ := from_json_ok accepted
  obtain ⟨keys,loads⟩ := loaded_ops loaded
  obtain ⟨perm,earlier⟩ := topological_sort_spec sort
  refine ⟨sorted,sort,keys,loads,order,perm.nodup_iff.mpr (count_in_degree _).keys_nodup,fun key => ?_,?_⟩
  · rw [perm.mem_iff,mem_counted]
    constructor
    · rintro (⟨reader,op,found,input⟩ | ⟨op,found,some_input⟩)
      · exact .inl ⟨reader,op,(loads _ _).mp found,input⟩
      · obtain ⟨dep,input⟩ := List.exists_mem_of_ne_nil _ some_input
        exact .inr ⟨dep,op,(loads _ _).mp found,input⟩
    · rintro (⟨reader,op,found,input⟩ | ⟨dep,op,found,input⟩)
      · exact .inl ⟨reader,op,(loads _ _).mpr found,input⟩
      · exact .inr ⟨op,(loads _ _).mpr found,List.ne_nil_of_mem input⟩
  · rintro front key back split dep ⟨op,found,input⟩
    exact earlier _ _ _ split dep (mem_neighbors_arrange.mpr (mem_dependencies.mpr ⟨op,(loads _ _).mpr found,input⟩))

namespace Arranged

theorem loaded (arranged : Arranged python json graph sorted) {key : String} (present : key ∈ json.keys) :
    ∃ op data, Loads python json key op ∧ graph.ops.get? key = some op ∧ json.get? key = some data ∧ op.id = data.id := by
  obtain ⟨op,found⟩ := Dict.mem_keys_iff.mp (arranged.keys ▸ present)
  have loads := (arranged.loads key op).mp found
  obtain ⟨data,entry,read⟩ := loads.entry
  obtain ⟨body,_,made⟩ := bind_ok read
  cases made
  exact ⟨_,data,loads,found,entry,rfl⟩

theorem id_is (arranged : Arranged python json graph sorted) {key : String} {data : JsonOp}
    (entry : json.get? key = some data) : id_of graph.ops key = data.id := by
  obtain ⟨op,data',_,found,entry',same⟩ := arranged.loaded (Dict.mem_keys_iff.mpr ⟨data,entry⟩)
  rw [entry'] at entry
  cases entry
  simp [id_of,found,same]

theorem reads_known (_arranged : Arranged python json graph sorted) {key dep : String} (reads : Reads python json key dep) :
    key ∈ json.keys ∧ dep ∈ earlier json key := by
  obtain ⟨op,loads,input⟩ := reads
  obtain ⟨data,entry,read⟩ := loads.entry
  exact ⟨Dict.mem_keys_iff.mpr ⟨data,entry⟩,(op_linked read).known dep input⟩

theorem sorted_known (arranged : Arranged python json graph sorted) {key : String} (member : key ∈ sorted) :
    key ∈ json.keys := by
  rcases (arranged.members key).mp member with ⟨reader,reads⟩ | ⟨dep,reads⟩
  · exact takeWhile_subset _ (arranged.reads_known reads).2
  · exact (arranged.reads_known reads).1

end Arranged

-- A mapping made by writing keys in turn.
theorem get?_by_id {ops : Dict String Op} {id key : String} (sorted : List String) (start : Dict String String)
    (found : (sorted.foldl (fun graph key => graph.set (id_of ops key) key) start).get? id = some key) :
    start.get? id = some key ∨ (key ∈ sorted ∧ id_of ops key = id) := by
  induction sorted generalizing start with
  | nil => exact .inl found
  | cons first rest ih =>
      rcases ih _ found with old | ⟨later,same⟩
      · by_cases here : id = id_of ops first
        · rw [here,Dict.get?_set_self] at old
          cases old
          exact .inr ⟨List.mem_cons_self,here.symm⟩
        · rw [Dict.get?_set_ne _ _ here] at old
          exact .inl old
      · exact .inr ⟨List.mem_cons_of_mem _ later,same⟩

-- Nothing is lost exactly when ids are distinct and no operation stands alone.
theorem complete_iff (accepted : Graph.from_json python order json = .ok graph) :
    (∀ key data, json.get? key = some data → graph.order.get? data.id = some key) ↔ Kept python json := by
  obtain ⟨sorted,_,arranged⟩ := exists_arranged accepted
  constructor
  · intro complete
    constructor
    · intro key data key' data' entry entry' same
      have first := complete key data entry
      rw [same,complete key' data' entry'] at first
      exact (Option.some.inj first).symm
    · intro key present
      obtain ⟨data,entry⟩ := Dict.mem_keys_iff.mp present
      have found := complete key data entry
      rw [arranged.order] at found
      rcases get?_by_id sorted Dict.empty found with none_yet | ⟨member,_⟩
      · cases none_yet
      · exact (arranged.members key).mp member
  · intro kept key data entry
    have member : key ∈ sorted := (arranged.members key).mpr (kept.linked key (Dict.mem_keys_iff.mpr ⟨data,entry⟩))
    have id := arranged.id_is entry
    have there : data.id ∈ graph.order.keys := by
      rw [arranged.order,by_id,Dict.mem_keys_foldl_set]
      exact .inr ⟨key,member,id⟩
    obtain ⟨key',found⟩ := Dict.mem_keys_iff.mp there
    rw [arranged.order] at found
    rcases get?_by_id sorted Dict.empty found with none_yet | ⟨member',id'⟩
    · cases none_yet
    · obtain ⟨op,data',_,_,entry',_⟩ := arranged.loaded (arranged.sorted_known member')
      rw [arranged.id_is entry'] at id'
      rw [arranged.order,found,kept.distinct key' data' key data entry' entry id']

end

end Lumilake.Graphs

import Lumilake.Optimizer.Halo
import Lumilake.Optimizer.Planned

-- What the optimizer checks before it plans, and the tables it gives to its solver.
namespace Lumilake.Optimizer.Halo
open WorkerCapability

-- A loop that fills a table with what is read for each key.
theorem foldlM_table {ε κ α : Type} [DecidableEq κ] {read : κ → Except ε α} {keys : List κ} {d after : Dict κ α}
    (done : keys.foldlM (fun d k => do let v ← read k; pure (d.set k v)) d = .ok after) :
    ∀ x, (x ∈ keys → ∃ v, read x = .ok v ∧ after.get? x = some v) ∧ (x ∉ keys → after.get? x = d.get? x) := by
  induction keys generalizing d with
  | nil =>
      cases done
      exact fun x => ⟨fun member => absurd member List.not_mem_nil,fun _ => rfl⟩
  | cons k rest ih =>
      rw [List.foldlM_cons] at done
      obtain ⟨next,turn,later⟩ := Fallible.bind_ok done
      obtain ⟨v,found,same⟩ := Fallible.bind_ok turn
      cases same
      have known := ih later
      intro x
      constructor
      · intro member
        by_cases again : x ∈ rest
        · exact (known x).1 again
        · have here := (List.mem_cons.mp member).resolve_right again
          subst here
          exact ⟨v,found,by rw [(known x).2 again,Dict.get?_set_self]⟩
      · intro absent
        rw [(known x).2 fun later => absent (List.mem_cons_of_mem _ later)]
        exact Dict.get?_set_ne _ _ fun same => absent (List.mem_cons.mpr (.inl same))

theorem foldlM_table_total {ε κ α : Type} [DecidableEq κ] {read : κ → Except ε α} {keys : List κ}
    (each : ∀ k ∈ keys, ∃ v, read k = .ok v) (d : Dict κ α) :
    ∃ after, keys.foldlM (fun d k => do let v ← read k; pure (d.set k v)) d = .ok after := by
  induction keys generalizing d with
  | nil => exact ⟨d,rfl⟩
  | cons k rest ih =>
      obtain ⟨v,found⟩ := each k List.mem_cons_self
      obtain ⟨after,later⟩ := ih (fun other member => each other (List.mem_cons_of_mem _ member)) (d.set k v)
      refine ⟨after,?_⟩
      rw [List.foldlM_cons,found]
      exact later

section
variable {repr : String → String}

theorem op_of_ok {graph : RuntimeGraph} {nid : String} {op : RuntimeOp} :
    op_of repr graph nid = .ok op ↔ graph.nodes.get? nid = some op := by
  unfold op_of
  cases graph.nodes.get? nid with
  | none => exact ⟨fun done => (by cases done),fun found => (by cases found)⟩
  | some there => exact ⟨fun done => (by cases done; rfl),fun found => (by cases found; rfl)⟩

-- The engines of the backends.
theorem map_engine_cases {backend task_type engine : String} (mapped : map_engine repr backend task_type = .ok engine) :
    engine = "vllm" ∨ engine = "http" ∨ engine = "python" ∨ engine = "db" ∧ lower (strip backend) = "data_retrieval" := by
  unfold map_engine at mapped
  dsimp only at mapped
  split at mapped
  · cases mapped
    exact .inl rfl
  · split at mapped
    · cases mapped
      exact .inr (.inl rfl)
    · split at mapped
      · cases mapped
        exact .inr (.inl rfl)
      · split at mapped
        · rename_i retrieval
          cases mapped
          exact .inr (.inr (.inr ⟨rfl,retrieval⟩))
        · split at mapped
          · cases mapped
            exact .inr (.inr (.inl rfl))
          · split at mapped <;> cases mapped

-- The nodes.
def node_entry (repr : String → String) (graph : RuntimeGraph) (node_id : String) : Except String Node := do
  let op ← op_of repr graph node_id
  let engine ← map_engine repr op.backend op.task_type
  pure (build_node node_id op engine)

theorem build_nodes_eq (graph : RuntimeGraph) : build_nodes repr graph =
    graph.node_order.foldlM (fun d nid => do let v ← node_entry repr graph nid; pure (d.set nid v)) Dict.empty := by
  unfold build_nodes
  congr 1
  funext d nid
  unfold add_node node_entry
  cases op_of repr graph nid with
  | error message => rfl
  | ok op =>
      simp only [Fallible.ok_bind]
      cases map_engine repr op.backend op.task_type with
      | error message => rfl
      | ok engine => rfl

theorem node_entry_ok {graph : RuntimeGraph} {nid : String} {node : Node} (read : node_entry repr graph nid = .ok node) :
    ∃ op engine, graph.nodes.get? nid = some op ∧ map_engine repr op.backend op.task_type = .ok engine ∧
      node = build_node nid op engine := by
  obtain ⟨op,found,rest⟩ := Fallible.bind_ok read
  obtain ⟨engine,mapped,same⟩ := Fallible.bind_ok rest
  cases same
  exact ⟨op,engine,op_of_ok.mp found,mapped,rfl⟩

theorem build_nodes_ok {graph : RuntimeGraph} {nodes : Dict String Node} (built : build_nodes repr graph = .ok nodes) {nid : String}
    (member : nid ∈ graph.node_order) : ∃ op engine, graph.nodes.get? nid = some op ∧
      map_engine repr op.backend op.task_type = .ok engine ∧ nodes.get? nid = some (build_node nid op engine) := by
  rw [build_nodes_eq] at built
  obtain ⟨node,read,found⟩ := (foldlM_table built nid).1 member
  obtain ⟨op,engine,known,mapped,same⟩ := node_entry_ok read
  exact ⟨op,engine,known,mapped,same ▸ found⟩

theorem build_nodes_known {graph : RuntimeGraph} {nodes : Dict String Node} (built : build_nodes repr graph = .ok nodes) {nid : String}
    {node : Node} (found : nodes.get? nid = some node) : nid ∈ graph.node_order := by
  by_contra absent
  rw [build_nodes_eq] at built
  rw [(foldlM_table built nid).2 absent] at found
  cases found

theorem get?_dependencies_of (graph : RuntimeGraph) (nid : String) : (dependencies_of graph).get? nid =
    if nid ∈ graph.node_order then some (((graph.nodes.get? nid).map RuntimeOp.dependencies).getD []) else none := by
  unfold dependencies_of
  rw [Dict.get?_foldl_set_each (fun nid => ((graph.nodes.get? nid).map RuntimeOp.dependencies).getD [])]
  rfl

-- The workers.
section
variable {K : Type} [One K] {names : List String} {worker_profiles : Profiles} {graph : RuntimeGraph} {workers : Dict String (Worker K)}

theorem get?_build_workers (built : build_workers names worker_profiles graph = .ok workers) (w : String) :
    workers.get? w = if w ∈ names then some (build_worker worker_profiles w) else none := by
  unfold build_workers at built
  dsimp only at built
  split at built
  · cases built
  · cases built
    rw [Dict.get?_foldl_set_each (fun name => build_worker worker_profiles name)]
    rfl

theorem mem_worker_keys (built : build_workers names worker_profiles graph = .ok workers) (w : String) :
    w ∈ workers.keys ↔ w ∈ names := by
  rw [Dict.mem_keys_iff,get?_build_workers built]
  by_cases member : w ∈ names
  · rw [if_pos member]
    exact ⟨fun _ => member,fun _ => ⟨_,rfl⟩⟩
  · rw [if_neg member]
    exact ⟨fun ⟨_,found⟩ => (by cases found),fun here => absurd here member⟩

theorem kind_iff (w : String) : (build_worker (K := K) worker_profiles w).kind = "gpu" ↔ (profile_of worker_profiles w).has_gpu = true := by
  unfold build_worker
  dsimp only
  cases (profile_of worker_profiles w).has_gpu with
  | false => decide
  | true => decide

theorem mem_workers_of_kind (built : build_workers names worker_profiles graph = .ok workers) (w : String) (gpu : Bool) :
    w ∈ workers_of_kind workers gpu ↔ w ∈ names ∧ (profile_of worker_profiles w).has_gpu = gpu := by
  have kind : ∀ worker : Worker K, worker = build_worker worker_profiles w →
      ((decide (worker.kind = "gpu") == gpu) = true ↔ (profile_of worker_profiles w).has_gpu = gpu) := by
    intro worker same
    subst same
    rw [beq_iff_eq]
    cases has : (profile_of worker_profiles w).has_gpu with
    | false => rw [decide_eq_false (fun gpu => by rw [(kind_iff w).mp gpu] at has; cases has)]
    | true => rw [decide_eq_true ((kind_iff w).mpr has)]
  unfold workers_of_kind
  rw [List.mem_map]
  constructor
  · intro ⟨e,member,same⟩
    obtain ⟨there,wanted⟩ := List.mem_filter.mp member
    subst same
    have found := Dict.get?_eq_some.mpr there
    rw [get?_build_workers built] at found
    split at found
    · rename_i listed
      exact ⟨listed,(kind e.2 (Option.some.inj found).symm).mp wanted⟩
    · cases found
  · intro ⟨listed,has⟩
    refine ⟨(w,build_worker worker_profiles w),List.mem_filter.mpr ⟨Dict.get?_eq_some.mp ?_,(kind _ rfl).mpr has⟩,rfl⟩
    rw [get?_build_workers built,if_pos listed]

theorem advertises_iff (built : build_workers names worker_profiles graph = .ok workers) {w : String} (listed : w ∈ names)
    (task_type : String) : advertises workers task_type w = true ↔
      task_type ∈ advertised_task_types (profile_of worker_profiles w).toWorkerProfile := by
  unfold advertises
  rw [get?_build_workers built,if_pos listed]
  exact decide_eq_true_iff

end

end
end Lumilake.Optimizer.Halo

import Lumilake.Optimizer.HaloTotal

-- Where the costs are finite, the search returns.
namespace Lumilake.Optimizer.Halo
namespace DPSolver

section
variable {K : Type} {fin : K → Prop}

theorem larger_fin [LT K] [DecidableLT K] {a b : K} (left : fin a) (right : fin b) : fin (larger a b) := by
  unfold larger
  split
  · exact right
  · exact left

theorem largest_fin [Zero K] [LT K] [DecidableLT K] (zero : fin 0) {costs : List K} (each : ∀ cost ∈ costs, fin cost) :
    fin (largest costs) := by
  cases costs with
  | nil => exact zero
  | cons cost rest =>
      obtain ⟨first,others⟩ := List.forall_mem_cons.mp each
      exact List.foldlRecOn rest larger first fun a least b member => larger_fin least (others b member)

theorem total_fin [Add K] [Zero K] (zero : fin 0) (add : ∀ a b, fin a → fin b → fin (a + b)) {costs : List K}
    (each : ∀ cost ∈ costs, fin cost) : fin (total costs) :=
  List.foldlRecOn costs (· + ·) zero fun a least b member => add a b least (each b member)

theorem getD_fin [Zero K] (zero : fin 0) {costs : List K} (each : ∀ cost ∈ costs, fin cost) (i : Nat) : fin (costs.getD i 0) := by
  rw [List.getD_eq_getElem?_getD]
  cases found : costs[i]? with
  | none => exact zero
  | some cost => exact each cost (List.mem_of_getElem? found)

theorem modify_fin {costs : List K} (each : ∀ cost ∈ costs, fin cost) (i : Nat) {f : K → K} (keeps : ∀ cost, fin cost → fin (f cost)) :
    ∀ cost ∈ costs.modify i f, fin cost := by
  induction costs generalizing i with
  | nil =>
      intro cost member
      rw [List.modify_nil] at member
      cases member
  | cons first rest ih =>
      obtain ⟨here,later⟩ := List.forall_mem_cons.mp each
      cases i with
      | zero =>
          rw [List.modify_zero_cons]
          exact List.forall_mem_cons.mpr ⟨keeps first here,later⟩
      | succ i =>
          rw [List.modify_succ_cons]
          exact List.forall_mem_cons.mpr ⟨here,ih later i⟩

theorem query_base_fin [Zero K] [One K] [LT K] [DecidableLT K] (zero : fin 0) (one : fin 1) {choice : QueryPlanChoice K}
    (known : ∀ cost, choice.raw_cost = some cost ∨ choice.cost = some cost → fin cost) : fin (query_base choice) := by
  unfold query_base
  split
  · rename_i raw
    exact larger_fin zero (known _ (.inl raw))
  · rename_i plain
    exact known _ (.inr plain)
  · exact one

end

variable {K : Type} [Add K] [Mul K] [Div K] [Zero K] [One K] [NatCast K] [LT K] [DecidableLT K]

section
variable [LE K] [DecidableLE K] [DecidableEq K]

-- An epoch that the search may run at a state.
def Listed (solver : DPSolver K) (done : Finset String) (states : List WorkerState) (epoch_idx : Nat) (candidate : Candidate K) : Prop :=
  ∃ prune candidates, solver.candidates prune done states epoch_idx = .ok candidates ∧ candidate ∈ candidates

-- The states that the search comes to, epoch by epoch.
inductive Visited (solver : DPSolver K) : Finset String → List WorkerState → Nat → Prop
  | start : Visited solver ∅ solver.initial_states 0
  | epoch : Visited solver done states epoch_idx → Listed solver done states epoch_idx candidate →
      Visited solver candidate.done candidate.states (epoch_idx + 1)

-- What it costs to finish from a state: nothing where all is done, else an epoch and the rest.
inductive Finishing (solver : DPSolver K) : Finset String → List WorkerState → Nat → K → Prop
  | finished : Finishing solver solver.all_mask states epoch_idx 0
  | epoch : Listed solver done states epoch_idx candidate →
      Finishing solver candidate.done candidate.states (epoch_idx + 1) cost →
      Finishing solver done states epoch_idx (candidate.epoch_cost + cost)

-- Every finished cost of a run of the solver lies below float("inf").
structure Finite (solver : DPSolver K) : Prop where
  top : ¬ solver.inf < solver.inf
  below : ∀ done states epoch_idx cost, Visited solver done states epoch_idx → Finishing solver done states epoch_idx cost →
    cost < solver.inf ∧ cost ≠ solver.inf

end

-- Amounts below float("inf") that are closed under what the solver does and hold all it is
-- given, as in exact arithmetic: one way for the costs to be finite.
structure Amounts (solver : DPSolver K) (fin : K → Prop) : Prop where
  below : ∀ a, fin a → a < solver.inf ∧ a ≠ solver.inf
  top : ¬ solver.inf < solver.inf
  one : fin 1
  count : ∀ n : Nat, fin n
  zero : fin 0
  add : ∀ a b, fin a → fin b → fin (a + b)
  mul : ∀ a b, fin a → fin b → fin (a * b)
  div : ∀ a, ∀ n : Nat, fin a → fin (a / (1 + (n : K)))
  exec_cost : ∀ node worker, fin (solver.costs.exec_cost node worker)
  cache_multiplier : ∀ window choice, fin (solver.costs.cache_multiplier window choice)
  model_init_cost : ∀ node last_model, fin (solver.costs.model_init_cost node last_model)
  llm_cache_bonus : ∀ node last_node parents, fin (solver.costs.llm_cache_bonus node last_node parents)
  epoch_penalty : ∀ epoch_idx, fin (solver.costs.epoch_penalty epoch_idx)
  http_sleep_cost : ∀ node, fin (solver.costs.http_sleep_cost node)
  choices : ∀ key choices, solver.plan_choices.get? key = some choices → ∀ choice ∈ choices, ∀ cost,
    choice.raw_cost = some cost ∨ choice.cost = some cost → fin cost
  weights : fin solver.tuning.cpu_load_cost_weight ∧ fin solver.tuning.cpu_load_early_weight ∧
    fin solver.tuning.gpu_cost_max_weight ∧ fin solver.tuning.gpu_cost_sum_weight ∧ fin solver.tuning.gpu_depth_cost_weight

variable {solver : DPSolver K} {fin : K → Prop} {done : Finset String}

theorem choices_of_fin (amounts : Amounts solver fin) {node : Node} {query : DBQuery} {choice : QueryPlanChoice K}
    (member : choice ∈ solver.choices_of node query) : fin (query_base choice) := by
  unfold choices_of at member
  split at member
  · rename_i listed
    exact query_base_fin amounts.zero amounts.one (amounts.choices _ _ listed choice member)
  · rw [List.mem_singleton.mp member]
    exact amounts.one

theorem plan_options_fin (amounts : Amounts solver fin) {node : Node} {window : Window} :
    ∀ option ∈ solver.query_plan_options node window, fin option.1 := by
  unfold query_plan_options
  refine List.foldlRecOn (motive := fun outcomes : List (K × Window × List (String × QueryPlanChoice K)) =>
    ∀ option ∈ outcomes, fin option.1) node.db_queries _ (fun option member => ?_) (fun outcomes each query _ option member => ?_)
  · rw [List.mem_singleton.mp member]
    exact amounts.zero
  · obtain ⟨earlier,there,inside⟩ := List.mem_flatMap.mp member
    obtain ⟨choice,listed,same⟩ := List.mem_map.mp inside
    subst same
    exact amounts.add _ _ (each earlier there) (amounts.mul _ _ (choices_of_fin amounts listed) (amounts.cache_multiplier _ _))

theorem best_option_fin (amounts : Amounts solver fin) (node : Node) (window : Window) :
    (solver.best_option node window).1 = solver.inf ∨ fin (solver.best_option node window).1 := by
  unfold best_option
  refine List.foldlRecOn (motive := fun best : K × Window × List (String × QueryPlanChoice K) =>
    best.1 = solver.inf ∨ fin best.1) _ _ (.inl rfl) (fun best known option member => ?_)
  split
  · exact .inr (plan_options_fin amounts option member)
  · exact known

section
variable [DecidableEq K]

theorem cpu_load_fin (amounts : Amounts solver fin) {s : K × Plans K × Window} (known : fin s.1) (nid : String) :
    fin (solver.cpu_load s nid).1 := by
  unfold cpu_load
  dsimp only
  split
  · exact amounts.add _ _ known (amounts.http_sleep_cost _)
  · split
    · exact known
    · split
      · exact known
      · rename_i some_there
        exact amounts.add _ _ known ((best_option_fin amounts _ _).resolve_left some_there)

theorem apply_cpu_load_fin (amounts : Amounts solver fin) (cpu_nodes : List String) (window : Window) :
    fin (solver.apply_cpu_load cpu_nodes window).1 :=
  List.foldlRecOn (motive := fun s : K × Plans K × Window => fin s.1) cpu_nodes solver.cpu_load amounts.zero
    fun _ known nid _ => cpu_load_fin amounts known nid

end

section
variable [LE K] [DecidableLE K]

theorem execute_fin (amounts : Amounts solver fin) {nid : String} {state : WorkerState} {window : Window} {run : Execution K}
    (member : run ∈ solver.execute_node nid state window) : fin run.node_cost ∧ fin run.node_cpu_cost := by
  have bonus : ∀ cost : K, fin cost → fin (if cost ≤ 0 then 1 else cost) := by
    intro cost known
    split
    · exact amounts.one
    · exact known
  have base := amounts.add _ _ (amounts.mul _ _ (amounts.exec_cost (solver.node nid) (solver.worker (solver.worker_ids.getD state.worker_idx "")))
    (bonus _ (amounts.llm_cache_bonus (solver.node nid) state.last_node (solver.parents nid))))
    (amounts.model_init_cost (solver.node nid) state.last_model)
  unfold execute_node at member
  dsimp only at member
  split at member
  · split at member
    · rw [List.mem_singleton.mp member]
      exact ⟨base,amounts.zero⟩
    · obtain ⟨option,there,same⟩ := List.mem_map.mp member
      subst same
      exact ⟨base,plan_options_fin amounts option there⟩
  · rw [List.mem_singleton.mp member]
    exact ⟨amounts.zero,amounts.zero⟩

theorem epoch_cost_fin (amounts : Amounts solver fin) {epoch_idx : Nat} {gpu_nodes : List String} {depths : Dict String Nat}
    {outcome : Outcome K} (known : fin outcome.gpu_cost_max ∧ fin outcome.gpu_cost_sum ∧ fin outcome.cpu_load_cost) :
    fin (solver.epoch_cost epoch_idx gpu_nodes depths outcome) := by
  obtain ⟨load,early,most,sum,depth⟩ := amounts.weights
  have weight : fin (solver.cpu_load_weight epoch_idx) := by
    unfold cpu_load_weight
    dsimp only
    split
    · exact amounts.zero
    · split
      · exact amounts.mul _ _ load (amounts.add _ _ amounts.one (amounts.div _ _ early))
      · exact load
  have penalty : fin (solver.batch_gpu_depth_penalty gpu_nodes depths) := by
    unfold batch_gpu_depth_penalty
    split
    · exact amounts.zero
    · exact amounts.mul _ _ depth (amounts.count _)
  have unless_off : ∀ cost : K, fin cost → fin (if solver.tuning.disable_epoch_batch_cost then 0 else cost) := by
    intro cost known
    split
    · exact amounts.zero
    · exact known
  have cpu : fin (if solver.tuning.naive_cpu_cost then solver.naive_cpu_cost gpu_nodes else outcome.cpu_load_cost) := by
    split
    · exact amounts.count _
    · exact known.2.2
  have gpu := amounts.add _ _ (amounts.mul _ _ most known.1) (amounts.mul _ _ sum known.2.1)
  exact amounts.add _ _ (amounts.add _ _ (amounts.add _ _ (unless_off _ (amounts.epoch_penalty epoch_idx)) gpu)
    (amounts.mul _ _ weight cpu)) (unless_off _ penalty)

end

variable [LE K] [DecidableLE K] [DecidableEq K]

theorem run_fin (amounts : Amounts solver fin) {cpu_nodes : List String} {assign : List (String × String)} {states : List WorkerState}
    {costs : List K} {plans : Plans K} {load : K} {window : Window} (each : ∀ cost ∈ costs, fin cost) (known : fin load) :
    ∀ outcome ∈ solver.run_assignment cpu_nodes assign states costs plans load window,
      fin outcome.gpu_cost_max ∧ fin outcome.gpu_cost_sum ∧ fin outcome.cpu_load_cost := by
  induction assign generalizing states costs plans load window with
  | nil =>
      intro outcome member
      rw [run_assignment,List.mem_singleton] at member
      subst member
      have shares : ∀ cost ∈ solver.gpu_worker_ids.map (fun wid => costs.getD (solver.worker_ids.idxOf wid) 0), fin cost := by
        intro cost member
        obtain ⟨wid,_,same⟩ := List.mem_map.mp member
        exact same ▸ getD_fin amounts.zero each _
      exact ⟨largest_fin amounts.zero shares,total_fin amounts.zero amounts.add shares,amounts.add _ _ known (apply_cpu_load_fin amounts _ _)⟩
  | cons pair rest ih =>
      intro outcome member
      rw [run_assignment] at member
      obtain ⟨run,there,inside⟩ := List.mem_flatMap.mp member
      obtain ⟨cost,cpu⟩ := execute_fin amounts there
      exact ih (modify_fin each _ fun old known => amounts.add _ _ known cost) (amounts.add _ _ known cpu) outcome inside

theorem candidate_fin (amounts : Amounts solver fin) {prune : Bool} {states : List WorkerState} {epoch_idx : Nat}
    {candidates : List (Candidate K)} (listed : solver.candidates prune done states epoch_idx = .ok candidates) :
    ∀ candidate ∈ candidates, fin candidate.epoch_cost := by
  intro candidate member
  obtain ⟨batches,_,same⟩ := Fallible.bind_ok listed
  cases same
  obtain ⟨batch,_,inside⟩ := List.mem_flatMap.mp member
  rw [batch_candidates_eq] at inside
  split at inside
  · cases inside
  · split at inside
    · cases inside
    · obtain ⟨g_assign,_,taken⟩ := List.mem_flatMap.mp inside
      split at taken
      · cases taken
      · obtain ⟨outcome,there,same⟩ := List.mem_map.mp taken
        subst same
        refine epoch_cost_fin amounts (run_fin amounts (fun cost member => ?_) amounts.zero outcome there)
        obtain ⟨wid,_,same⟩ := List.mem_map.mp member
        exact same ▸ amounts.zero

theorem finishing_fin (amounts : Amounts solver fin) {states : List WorkerState} {epoch_idx : Nat} {cost : K}
    (finishing : Finishing solver done states epoch_idx cost) : fin cost := by
  induction finishing with
  | finished => exact amounts.zero
  | epoch offered _ ih =>
      obtain ⟨_,_,listed,member⟩ := offered
      exact amounts.add _ _ (candidate_fin amounts listed _ member) ih

theorem Amounts.finite (amounts : Amounts solver fin) : Finite solver :=
  ⟨amounts.top,fun _ _ _ cost _ finishing => amounts.below cost (finishing_fin amounts finishing)⟩

-- Results cost what it costs to finish.
abbrev Finished (solver : DPSolver K) : Good K := fun done states epoch_idx found => Finishing solver done states epoch_idx found.cost

theorem finished_inductive : Inductive solver (Finished solver) := by
  constructor
  · exact fun _ _ => .finished
  · exact fun prune done states epoch_idx candidates listed candidate member found finishing => .epoch ⟨_,_,listed,member⟩ finishing

section
variable {sub : Search K} {states : List WorkerState} {epoch_idx : Nat} (finite : Finite solver)
  (visited : Visited solver done states epoch_idx) {prune : Bool} {candidates : List (Candidate K)}
  (listed : solver.candidates prune done states epoch_idx = .ok candidates) (sound : Sound (Finished solver) sub)
include finite visited listed sound

theorem consider_total {candidate : Candidate K} (member : candidate ∈ candidates)
    (returns : ∀ memo, Kept (Finished solver) memo → ∃ result, sub memo candidate.done candidate.states (epoch_idx + 1) = .ok result)
    {s : Found K × Memo K} (kept : Kept (Finished solver) s.2)
    (known : s.1.cost = solver.inf ∨ Finishing solver done states epoch_idx s.1.cost) :
    ∃ after, solver.consider sub epoch_idx s candidate = .ok after ∧ Kept (Finished solver) after.2 ∧
      Finishing solver done states epoch_idx after.1.cost := by
  unfold consider
  split
  · rename_i pruned
    refine ⟨s,rfl,kept,known.resolve_left fun none_yet => ?_⟩
    rw [none_yet] at pruned
    exact finite.top pruned.2.1
  · obtain ⟨⟨found,memo⟩,searched⟩ := returns s.2 kept
    obtain ⟨rest,kept'⟩ := sound _ _ _ _ _ _ kept searched
    have finishing : Finishing solver done states epoch_idx (candidate.epoch_cost + found.cost) := .epoch ⟨_,_,listed,member⟩ rest
    rw [searched,Fallible.ok_bind]
    dsimp only
    split
    · exact ⟨_,rfl,kept',finishing⟩
    · rename_i worse
      refine ⟨_,rfl,kept',known.resolve_left fun none_yet => worse ?_⟩
      rw [none_yet]
      exact (finite.below _ _ _ _ visited finishing).1

theorem loop_total {turns : List (Candidate K)} (inside : turns ⊆ candidates)
    (returns : ∀ candidate ∈ candidates, ∀ memo, Kept (Finished solver) memo →
      ∃ result, sub memo candidate.done candidate.states (epoch_idx + 1) = .ok result)
    {s : Found K × Memo K} (kept : Kept (Finished solver) s.2)
    (known : s.1.cost = solver.inf ∨ Finishing solver done states epoch_idx s.1.cost) :
    ∃ after, turns.foldlM (solver.consider sub epoch_idx) s = .ok after ∧ Kept (Finished solver) after.2 ∧
      (Finishing solver done states epoch_idx after.1.cost ∨ turns = [] ∧ after = s) := by
  induction turns generalizing s with
  | nil => exact ⟨s,rfl,kept,.inr ⟨rfl,rfl⟩⟩
  | cons candidate rest ih =>
      have member := inside List.mem_cons_self
      obtain ⟨next,turn,kept',fine⟩ := consider_total finite visited listed sound member (returns candidate member) kept known
      obtain ⟨after,later,kept_after,fine_after⟩ := ih (fun c there => inside (List.mem_cons_of_mem _ there)) kept' (.inr fine)
      refine ⟨after,?_,kept_after,.inl ?_⟩
      · rw [List.foldlM_cons,turn,Fallible.ok_bind]
        exact later
      · rcases fine_after with fine_after | ⟨_,same⟩
        · exact fine_after
        · exact same ▸ fine

end

-- Searches that return at every visited state with at most so much left.
def Returns (solver : DPSolver K) (depth : Nat) (search : Search K) : Prop :=
  ∀ memo done states epoch_idx, Kept (Finished solver) memo → Visited solver done states epoch_idx → Closed solver done →
    remaining solver done ≤ depth → ∃ result, search memo done states epoch_idx = .ok result

-- One call returns where the calls below it do, and there is a candidate or a retry.
theorem explore_returns (finite : Finite solver) (ordered : Ordered solver) (hosted : Hosted solver) {prune : Bool}
    {sub retry : Search K} (sound : Sound (Finished solver) sub) {depth : Nat}
    (below : ∀ left, left < depth → Returns solver left sub)
    (on : ∀ done states epoch_idx, Visited solver done states epoch_idx → Closed solver done → done ≠ solver.all_mask →
      (∃ candidates, solver.candidates prune done states epoch_idx = .ok candidates ∧ candidates ≠ []) ∨
        ∀ memo, Kept (Finished solver) memo → remaining solver done ≤ depth → ∃ result, retry memo done states epoch_idx = .ok result) :
    Returns solver depth (solver.explore prune sub retry) := by
  intro memo done states epoch_idx kept visited closed room
  unfold explore
  split
  · exact ⟨_,rfl⟩
  · rename_i unfinished
    split
    · exact ⟨_,rfl⟩
    · obtain ⟨candidates,listed⟩ := @pruned_candidates _ solver done _ _ _ _ _ _ _ _ _ _ _ ordered prune states epoch_idx
      have takes := fun candidate member => @takes_candidate _ solver done _ _ _ _ _ _ _ _ _ _ _ ordered.distinct hosted prune states
        epoch_idx candidates candidate listed member
      obtain ⟨⟨best,searched⟩,loop,kept',fine⟩ := loop_total finite visited listed sound (List.Subset.refl _)
        (fun candidate member memo kept => below (remaining solver candidate.done)
          (Nat.lt_of_lt_of_le ((takes candidate member).less ordered.distinct) room) memo _ _ _ kept (visited.epoch ⟨_,_,listed,member⟩)
          (closed.step (takes candidate member)) (Nat.le_refl _))
        (s := (⟨solver.inf,[],Dict.empty⟩,memo)) kept (.inl rfl)
      rw [listed,Fallible.ok_bind,loop,Fallible.ok_bind]
      dsimp only
      split
      · rename_i nothing
        rcases on done states epoch_idx visited closed unfinished with ⟨others,listed',some_there⟩ | again
        · rw [listed] at listed'
          cases listed'
          rcases fine with fine | ⟨empty,_⟩
          · exact absurd nothing (finite.below _ _ _ _ visited fine).2
          · exact absurd empty some_there
        · exact again _ kept' room
      · exact ⟨_,rfl⟩

theorem solve_unpruned_returns (finite : Finite solver) (ordered : Ordered solver) (hosted : Hosted solver)
    (shared : Gpu_hosted solver) (depth : Nat) : ∀ left ≤ depth, Returns solver left (solver.solve_unpruned depth) := by
  have on : ∀ done states epoch_idx, Closed solver done → done ≠ solver.all_mask →
      ∃ candidates, solver.candidates false done states epoch_idx = .ok candidates ∧ candidates ≠ [] :=
    fun done states epoch_idx closed unfinished => unpruned_candidates ordered hosted shared closed unfinished states epoch_idx
  have sound : ∀ depth, Sound (Finished solver) (solver.solve_unpruned depth) := solve_unpruned_sound finished_inductive
  induction depth with
  | zero =>
      intro left short
      refine explore_returns finite ordered hosted dp_failed_sound (fun other less => absurd less (by omega))
        fun done states epoch_idx _ closed unfinished => .inl (on done states epoch_idx closed unfinished)
  | succ depth ih =>
      intro left short
      refine explore_returns finite ordered hosted (sound depth) (fun other less => ih other (by omega))
        fun done states epoch_idx _ closed unfinished => .inl (on done states epoch_idx closed unfinished)

theorem solve_from_returns (finite : Finite solver) (ordered : Ordered solver) (hosted : Hosted solver)
    (shared : Gpu_hosted solver) (depth : Nat) : ∀ left ≤ depth, Returns solver left (solver.solve_from depth) := by
  have on : ∀ depth left, left ≤ depth → ∀ done states epoch_idx, Visited solver done states epoch_idx → Closed solver done → done ≠ solver.all_mask →
      (∃ candidates, solver.candidates solver.tuning.enable_batch_shape_pruning done states epoch_idx = .ok candidates ∧
        candidates ≠ []) ∨
      ∀ memo, Kept (Finished solver) memo → remaining solver done ≤ left →
        ∃ result, (if solver.tuning.enable_batch_shape_pruning then solver.solve_unpruned depth else dp_failed)
          memo done states epoch_idx = .ok result := by
    intro depth left short done states epoch_idx visited closed unfinished
    cases solver.tuning.enable_batch_shape_pruning with
    | false => exact .inl (unpruned_candidates ordered hosted shared closed unfinished states epoch_idx)
    | true =>
        right
        intro memo kept room
        exact solve_unpruned_returns finite ordered hosted shared depth left short memo done states epoch_idx kept visited closed room
  have sound : ∀ depth, Sound (Finished solver) (solver.solve_from depth) := solve_from_sound finished_inductive
  induction depth with
  | zero =>
      intro left short
      exact explore_returns finite ordered hosted dp_failed_sound (fun other less => absurd less (by omega)) (on 0 left short)
  | succ depth ih =>
      intro left short
      exact explore_returns finite ordered hosted (sound depth) (fun other less => ih other (by omega)) (on (depth + 1) left short)

-- The search never fails where the nodes are ordered and every node has its worker.
theorem solve_returns (finite : Finite solver) (ordered : Ordered solver) (hosted : Hosted solver) (shared : Gpu_hosted solver) :
    ∃ found, solver.solve = .ok found := by
  have room : remaining solver ∅ ≤ solver.node_ids.length := List.length_filter_le _ _
  obtain ⟨⟨found,memo⟩,searched⟩ := solve_from_returns finite ordered hosted shared solver.node_ids.length _ (Nat.le_refl _)
    Dict.empty ∅ solver.initial_states 0 kept_empty .start closed_empty room
  unfold solve
  rw [searched]
  exact ⟨found,rfl⟩

end DPSolver
end Lumilake.Optimizer.Halo

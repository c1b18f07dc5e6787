import Lumilake.Server.CounterMoves

namespace Lumilake.Server
open Weights

namespace BatchRun

-- The entry of a request that the run has made, if it has made it and not yet taken it back.
def Open (r : BatchRun) : Prop := r.point = .starting ∨ r.point = .working ∨ ∃ retry, r.point = .settling retry

def entry (r : BatchRun) (request_id : String) : Option (Nat × Nat) :=
  if r.point = .starting ∨ request_id ∉ request_ids r.active_workflows then none
  else some (raw_nodes r.active_workflows request_id,
    (r.recorded.map (fun total_nodes => optimized_nodes total_nodes r.active_workflows request_id)).getD 0)

theorem counted_started {r : BatchRun} (started : r.point = .working ∨ ∃ retry, r.point = .settling retry) :
    r.counted = r.active_workflows := by
  rcases started with working | ⟨retry,settling⟩
  · simp only [counted,working]
  · simp only [counted,settling]

theorem parts (r : BatchRun) (f : WorkflowItem → Nat) :
    weight f r.cancelled_workflows + weight f r.active_workflows = weight f r.batch :=
  weight_filter f r.batch _

end BatchRun

-- The runs have batch ids of their own, all of them used.
def Apart (runs : List BatchRun) (ids : List String) : Prop :=
  (runs.map BatchRun.batch_id).Nodup ∧ ∀ r ∈ runs, r.batch_id ∈ ids

namespace Apart

theorem drop (apart : Apart (before ++ r :: after) ids) : Apart (before ++ after) ids := by
  have sub : (before ++ after).Sublist (before ++ r :: after) := (List.sublist_cons_self r after).append_left before
  exact ⟨apart.1.sublist (sub.map _),fun x member => apart.2 x (sub.subset member)⟩

theorem add (apart : Apart (before ++ after) ids) (fresh : r.batch_id ∉ ids) :
    Apart (before ++ r :: after) (r.batch_id :: ids) := by
  refine ⟨?_,?_⟩
  · rw [List.map_append,List.map_cons,List.nodup_middle,List.nodup_cons,← List.map_append]
    refine ⟨fun again => ?_,apart.1⟩
    obtain ⟨x,member,same⟩ := List.mem_map.mp again
    exact fresh (same ▸ apart.2 x member)
  · intro x member
    rcases List.mem_append.mp member with first | last
    · exact List.mem_cons_of_mem _ (apart.2 x (List.mem_append_left _ first))
    · rcases List.mem_cons.mp last with rfl | last
      · exact List.mem_cons_self
      · exact List.mem_cons_of_mem _ (apart.2 x (List.mem_append_right _ last))

theorem swap (apart : Apart (before ++ r :: after) ids) (same : r'.batch_id = r.batch_id) : Apart (before ++ r' :: after) ids := by
  refine ⟨by simpa [same] using apart.1,fun x member => ?_⟩
  rcases List.mem_append.mp member with first | last
  · exact apart.2 x (List.mem_append_left _ first)
  · rcases List.mem_cons.mp last with rfl | last
    · exact same ▸ apart.2 r (List.mem_append_right _ List.mem_cons_self)
    · exact apart.2 x (List.mem_append_right _ (List.mem_cons_of_mem _ last))

theorem other (apart : Apart (before ++ r :: after) ids) (member : x ∈ before ++ after) : x.batch_id ≠ r.batch_id := by
  intro same
  have distinct := apart.1
  rw [List.map_append,List.map_cons,List.nodup_middle,List.nodup_cons,← List.map_append] at distinct
  exact distinct.1 (same ▸ List.mem_map_of_mem member)

end Apart

namespace System

def waiting (s : System) : List WorkflowItem :=
  s.queued ++ s.scheduler.batch ++ s.runs.flatMap BatchRun.waiting ++ s.skipped

def counted (s : System) : List WorkflowItem := s.runs.flatMap BatchRun.counted

structure Sound (s : System) : Prop where
  conserved : ∀ f, weight f s.items = weight f s.waiting + weight f s.counted + weight f s.stuck + weight f s.processed
  distinct : (s.items.map WorkflowItem.workflow_id).Nodup
  known : ∀ w ∈ s.items, w.request_id ∈ s.requests.keys
  balanced : ∀ q c, s.requests.get? q = some c →
    Balanced c (raw_nodes s.waiting q) (raw_nodes s.processed q) (raw_nodes s.items q)
  fresh_ids : ∀ q c, s.requests.get? q = some c → ∀ id ∈ c.batch_node_counts.keys, id ∈ s.batch_ids
  entries : ∀ q c, s.requests.get? q = some c → ∀ r ∈ s.runs, r.Open → c.batch_node_counts.get? r.batch_id = r.entry q
  first : ∀ r ∈ s.runs, r.point = .settling true ∨ r.point = .leaving → r.reruns = none
  apart : Apart s.runs s.batch_ids
  no_error : s.errors = []

variable {s t : System}

-- Workflows that move between the places where their nodes are not counted.
theorem Sound.frame (sound : s.Sound) (items : t.items = s.items) (requests : t.requests = s.requests)
    (processed : t.processed = s.processed) (errors : t.errors = s.errors) (ids : ∀ id ∈ s.batch_ids, id ∈ t.batch_ids)
    (waiting : ∀ f, weight f t.waiting = weight f s.waiting)
    (open_nodes : ∀ f, weight f t.counted + weight f t.stuck = weight f s.counted + weight f s.stuck)
    (first : ∀ r ∈ t.runs, r.point = .settling true ∨ r.point = .leaving → r.reruns = none)
    (apart : Apart t.runs t.batch_ids)
    (entries : ∀ r ∈ t.runs, r.Open →
      (∃ r' ∈ s.runs, r'.Open ∧ r'.batch_id = r.batch_id ∧ ∀ q, r'.entry q = r.entry q) ∨
        (r.point = .starting ∧ r.batch_id ∉ s.batch_ids)) : t.Sound where
  conserved f := by
    have before := sound.conserved f
    have same := waiting f
    have nodes := open_nodes f
    rw [items,processed]
    omega
  distinct := items ▸ sound.distinct
  known := by
    rw [items,requests]
    exact sound.known
  balanced q c found := by
    rw [raw_nodes_eq t.waiting,waiting,← raw_nodes_eq,items,processed]
    exact sound.balanced q c (requests ▸ found)
  fresh_ids q c found id used := ids id (sound.fresh_ids q c (requests ▸ found) id used)
  entries q c found r member is_open := by
    rcases entries r member is_open with ⟨r',old,was_open,same,entry⟩ | ⟨starting,fresh⟩
    · rw [← same,← entry]
      exact sound.entries q c (requests ▸ found) r' old was_open
    · rw [BatchRun.entry,if_pos (.inl starting)]
      exact Dict.get?_eq_none.mpr (fun used => fresh (sound.fresh_ids q c (requests ▸ found) _ used))
  first := first
  apart := apart
  no_error := errors ▸ sound.no_error

-- A step of one run that leaves the counters alone.
theorem Sound.swap (sound : s.Sound) (here : s.runs = before ++ r :: after) (id : r'.batch_id = r.batch_id)
    (waiting : ∀ f, weight f r'.waiting + weight f skipped' = weight f r.waiting + weight f s.skipped)
    (counted : ∀ f, weight f r'.counted + weight f stuck' = weight f r.counted + weight f s.stuck)
    (first : r'.point = .settling true ∨ r'.point = .leaving → r'.reruns = none)
    (entry : r'.Open → r.Open ∧ ∀ q, r.entry q = r'.entry q) :
    Sound { s with runs := before ++ r' :: after, skipped := skipped', stuck := stuck' } := by
  have others : ∀ x ∈ before ++ r' :: after, x = r' ∨ x ∈ s.runs := by
    intro x member
    rw [here]
    simp only [List.mem_append,List.mem_cons] at member ⊢
    tauto
  refine sound.frame rfl rfl rfl rfl (fun _ used => used) ?_ ?_ ?_ ((here ▸ sound.apart).swap id) ?_
  · intro f
    have moved := waiting f
    simp only [System.waiting,here,List.flatMap_append,List.flatMap_cons,weight_append]
    omega
  · intro f
    have moved := counted f
    simp only [System.counted,here,List.flatMap_append,List.flatMap_cons,weight_append]
    omega
  · intro x member
    rcases others x member with rfl | old
    · exact first
    · exact sound.first x old
  · intro x member is_open
    refine .inl ?_
    rcases others x member with rfl | old
    · obtain ⟨was_open,same⟩ := entry is_open
      exact ⟨r,here ▸ List.mem_append_right _ List.mem_cons_self,was_open,id.symm,same⟩
    · exact ⟨x,old,is_open,rfl,fun _ => rfl⟩

-- A run that ends when it has nothing counted and nothing waiting.
theorem Sound.drop (sound : s.Sound) (here : s.runs = before ++ r :: after) (waiting : r.waiting = []) (counted : r.counted = [])
    (busy : Finset String) : Sound { s with runs := before ++ after, busy_workers := busy } := by
  have still : ∀ x ∈ before ++ after, x ∈ s.runs := by
    intro x member
    rw [here]
    simp only [List.mem_append,List.mem_cons] at member ⊢
    tauto
  refine sound.frame rfl rfl rfl rfl (fun _ used => used) ?_ ?_ (fun x member => sound.first x (still x member))
    (here ▸ sound.apart).drop (fun x member is_open => .inl ⟨x,still x member,is_open,rfl,fun _ => rfl⟩)
  · intro f
    simp [System.waiting,here,waiting]
  · intro f
    simp [System.counted,here,counted]

-- Workflows that move while every run stays where it is.
theorem Sound.move (sound : s.Sound) (waiting : ∀ f, weight f queued' + weight f scheduler'.batch + weight f skipped' =
      weight f s.queued + weight f s.scheduler.batch + weight f s.skipped) (busy : Finset String) :
    Sound { s with busy_workers := busy, queued := queued', scheduler := scheduler', skipped := skipped' } := by
  refine sound.frame rfl rfl rfl rfl (fun _ used => used) ?_ (fun _ => rfl) sound.first sound.apart
    (fun x member is_open => .inl ⟨x,member,is_open,rfl,fun _ => rfl⟩)
  intro f
  have moved := waiting f
  simp only [System.waiting,weight_append]
  omega

-- `t` differs from `s` in one run and in what was passed by.
theorem waiting_swap (f : WorkflowItem → Nat) (here : s.runs = before ++ r :: after) (runs : t.runs = before ++ r' :: after)
    (queued : t.queued = s.queued) (scheduler : t.scheduler = s.scheduler) :
    weight f t.waiting + weight f r.waiting + weight f s.skipped = weight f s.waiting + weight f r'.waiting + weight f t.skipped := by
  simp only [waiting,here,runs,queued,scheduler,List.flatMap_append,List.flatMap_cons,weight_append]
  omega

theorem waiting_le (f : WorkflowItem → Nat) (here : s.runs = before ++ r :: after) : weight f r.waiting ≤ weight f s.waiting := by
  simp only [waiting,here,List.flatMap_append,List.flatMap_cons,weight_append]
  omega

-- A loop over the counters of the requests of one run.
theorem Sound.loop (sound : s.Sound) (here : s.runs = before ++ r :: after) (r' : BatchRun) (id : r'.batch_id = r.batch_id)
    {update : String → Update} {ids : List String} (distinct : ids.Nodup)
    (t_eq : t = { s with
      requests := (for_requests update ids s.requests).1
      runs := before ++ r' :: after
      skipped := skipped'
      processed := processed' })
    (moved : ∀ f, weight f r.waiting + weight f r.counted + weight f s.skipped + weight f s.processed =
      weight f r'.waiting + weight f r'.counted + weight f skipped' + weight f processed')
    (first : r'.point = .settling true ∨ r'.point = .leaving → r'.reruns = none)
    (requests : ∀ q c, s.requests.get? q = some c → (q ∈ ids → (update q c).2 = none) ∧
      ∀ c', c' = (if q ∈ ids then (update q c).1 else c) → ∀ waiting, waiting + raw_nodes r.waiting q + raw_nodes s.skipped q =
          raw_nodes s.waiting q + raw_nodes r'.waiting q + raw_nodes skipped' q →
        Balanced c' waiting (raw_nodes processed' q) (raw_nodes s.items q) ∧
        (∀ id, id ≠ r.batch_id → c'.batch_node_counts.get? id = c.batch_node_counts.get? id) ∧
        (r'.Open → c'.batch_node_counts.get? r.batch_id = r'.entry q)) :
    (for_requests update ids s.requests).2 = none ∧ t.Sound := by
  obtain ⟨fine,table⟩ := for_requests_ok distinct (fun q member c found => (requests q c found).1 member)
  have origin : ∀ {q c'}, t.requests.get? q = some c' →
      ∃ c, s.requests.get? q = some c ∧ c' = if q ∈ ids then (update q c).1 else c := by
    intro q c' found
    rw [t_eq,table,Option.map_eq_some_iff] at found
    obtain ⟨c,old,rfl⟩ := found
    exact ⟨c,old,rfl⟩
  have runs : t.runs = before ++ r' :: after := by rw [t_eq]
  have others : ∀ x ∈ t.runs, x = r' ∨ (x ∈ before ++ after ∧ x ∈ s.runs) := by
    intro x member
    rw [here]
    rw [runs] at member
    simp only [List.mem_append,List.mem_cons] at member ⊢
    tauto
  have own_apart := here ▸ sound.apart
  have swapped : ∀ q, raw_nodes t.waiting q + raw_nodes r.waiting q + raw_nodes s.skipped q =
      raw_nodes s.waiting q + raw_nodes r'.waiting q + raw_nodes skipped' q := by
    intro q
    have moved := waiting_swap (raw_weight q) here runs (by rw [t_eq]) (by rw [t_eq])
    rw [t_eq] at moved ⊢
    simpa only [raw_nodes_eq] using moved
  refine ⟨fine,?_,?_,?_,?_,?_,?_,?_,?_,?_⟩
  · intro f
    have before := sound.conserved f
    have parts := moved f
    simp only [waiting,counted,here,List.flatMap_append,List.flatMap_cons,weight_append] at before
    simp only [t_eq,waiting,counted,List.flatMap_append,List.flatMap_cons,weight_append]
    omega
  · rw [t_eq]
    exact sound.distinct
  · intro w member
    rw [t_eq] at member
    obtain ⟨c,found⟩ := Dict.mem_keys_iff.mp (sound.known w member)
    refine Dict.mem_keys_iff.mpr ⟨if w.request_id ∈ ids then (update w.request_id c).1 else c,?_⟩
    rw [t_eq,table,found]
    rfl
  · intro q c' found
    obtain ⟨c,old,new⟩ := origin found
    have balanced := ((requests q c old).2 c' new _ (swapped q)).1
    rw [t_eq] at balanced ⊢
    exact balanced
  · intro q c' found id used
    obtain ⟨c,old,new⟩ := origin found
    have used_ids : t.batch_ids = s.batch_ids := by rw [t_eq]
    rw [used_ids]
    by_cases own : id = r.batch_id
    · exact own ▸ own_apart.2 r (List.mem_append_right _ List.mem_cons_self)
    · obtain ⟨v,entry⟩ := Dict.mem_keys_iff.mp used
      rw [((requests q c old).2 c' new _ (swapped q)).2.1 id own] at entry
      exact sound.fresh_ids q c old id (Dict.mem_keys_iff.mpr ⟨v,entry⟩)
  · intro q c' found x member is_open
    obtain ⟨c,old,new⟩ := origin found
    obtain ⟨_,kept,own⟩ := (requests q c old).2 c' new _ (swapped q)
    rcases others x member with rfl | ⟨apart,still⟩
    · rw [id]
      exact own is_open
    · rw [kept _ (own_apart.other apart)]
      exact sound.entries q c old x still is_open
  · intro x member
    rcases others x member with rfl | ⟨_,still⟩
    · exact first
    · exact sound.first x still
  · rw [t_eq]
    exact own_apart.swap id
  · rw [t_eq]
    exact sound.no_error

theorem Sound.start_spec (sound : s.Sound) (here : s.runs = before ++ r :: after) (at_start : r.point = .starting)
    (cancelled : List String) :
    let r' : BatchRun := { r with point := .working, cancelled_requests := cancelled, recorded := none }
    (start_counters r.batch_id r'.active_workflows s.requests).2 = none ∧
      Sound { s with
        requests := (start_counters r.batch_id r'.active_workflows s.requests).1
        runs := before ++ r' :: after } := by
  intro r'
  have parts : ∀ f, weight f r'.cancelled_workflows + weight f r'.active_workflows = weight f r.batch := r'.parts
  have waiting : r.waiting = r.batch ++ r.later := by simp [BatchRun.waiting,at_start]
  have waiting' : r'.waiting = r'.cancelled_workflows ++ r.later := rfl
  have own : r ∈ s.runs := here ▸ List.mem_append_right _ List.mem_cons_self
  refine sound.loop here r' rfl (request_ids_nodup _) rfl ?_ (fun retry => by cases retry <;> contradiction) ?_
  · intro f
    have all := parts f
    have counted : r.counted = [] := by simp [BatchRun.counted,at_start]
    have counted' : r'.counted = r'.active_workflows := rfl
    rw [waiting,waiting',counted,counted']
    simp only [weight_append,weight_nil]
    omega
  · intro q c found
    have unused : c.batch_node_counts.get? r.batch_id = none :=
      (sound.entries q c found r own (.inl at_start)).trans (if_pos (.inl at_start))
    have balanced := sound.balanced q c found
    have all := parts (raw_weight q)
    have covered := waiting_le (raw_weight q) here
    simp only [waiting,waiting',weight_append,raw_nodes_eq] at covered ⊢
    by_cases member : q ∈ request_ids r'.active_workflows
    · have enough : raw_nodes r'.active_workflows q ≤ raw_nodes s.waiting q := by
        simp only [raw_nodes_eq]
        omega
      obtain ⟨fine,kept,counts⟩ := start_balanced balanced enough (Dict.get?_eq_none.mp unused) q
      simp only [raw_nodes_eq] at fine kept counts
      refine ⟨fun _ => fine,?_⟩
      rintro c' new left moved
      rw [if_pos member] at new
      subst new
      rw [counts]
      refine ⟨?_,fun id apart => Dict.get?_set_ne _ _ apart,fun _ => ?_⟩
      · have less : weight (raw_weight q) s.waiting - weight (raw_weight q) r'.active_workflows = left := by omega
        exact less ▸ kept
      · rw [Dict.get?_set_self]
        simp [BatchRun.entry,member,r',raw_nodes_eq]
    · refine ⟨fun inside => absurd inside member,?_⟩
      rintro c' new left moved
      rw [if_neg member] at new
      subst new
      have none_active := raw_nodes_absent member
      rw [raw_nodes_eq] at none_active
      refine ⟨?_,fun _ _ => rfl,fun _ => ?_⟩
      · have same : weight (raw_weight q) s.waiting = left := by omega
        simpa only [raw_nodes_eq,same] using balanced
      · rw [unused]
        exact (if_pos (.inr member)).symm

-- The entry of a started run.
theorem Sound.started (sound : s.Sound) (here : s.runs = before ++ r :: after)
    (started : r.point = .working ∨ ∃ retry, r.point = .settling retry) (found : s.requests.get? q = some c) :
    c.batch_node_counts.get? r.batch_id = if q ∈ request_ids r.active_workflows then
      some (raw_nodes r.active_workflows q,
        (r.recorded.map (fun total_nodes => optimized_nodes total_nodes r.active_workflows q)).getD 0) else none := by
  have past : r.point ≠ .starting := by
    rcases started with at_work | ⟨retry,settling⟩ <;> simp [*]
  rw [sound.entries q c found r (here ▸ List.mem_append_right _ List.mem_cons_self) (.inr started)]
  by_cases member : q ∈ request_ids r.active_workflows <;> simp [BatchRun.entry,past,member]

theorem Sound.record_spec (sound : s.Sound) (here : s.runs = before ++ r :: after) (working : r.point = .working)
    (once : r.recorded = none) (total_nodes : Nat) :
    let r' : BatchRun := { r with recorded := some total_nodes }
    (record_counters r.batch_id total_nodes r.active_workflows s.requests).2 = none ∧
      Sound { s with
        requests := (record_counters r.batch_id total_nodes r.active_workflows s.requests).1
        runs := before ++ r' :: after } := by
  intro r'
  have waiting : r'.waiting = r.waiting := rfl
  refine sound.loop here r' rfl (request_order_nodup _) rfl (fun _ => rfl) ?_ ?_
  · exact fun retry => sound.first r (here ▸ List.mem_append_right _ List.mem_cons_self) retry
  · intro q c found
    have balanced := sound.balanced q c found
    have entry := sound.started here (.inl working) found
    by_cases member : q ∈ request_ids r.active_workflows
    · rw [if_pos member,once] at entry
      obtain ⟨fine,kept,counts⟩ := record_balanced balanced entry (optimized_nodes total_nodes r.active_workflows q) q
      refine ⟨fun _ => fine,?_⟩
      rintro c' new left moved
      rw [if_pos (mem_request_order.mpr member)] at new
      subst new
      rw [counts]
      refine ⟨?_,fun id apart => Dict.get?_set_ne _ _ apart,fun _ => ?_⟩
      · have same : raw_nodes s.waiting q = left := by
          rw [waiting] at moved
          omega
        exact same ▸ kept
      · rw [Dict.get?_set_self]
        refine (if_neg ?_).symm
        rintro (starting | absent)
        · exact absurd (working.symm.trans starting) (by decide)
        · exact absent member
    · rw [if_neg member] at entry
      refine ⟨fun inside => absurd (mem_request_order.mp inside) member,?_⟩
      rintro c' new left moved
      rw [if_neg (fun inside => member (mem_request_order.mp inside))] at new
      subst new
      refine ⟨?_,fun _ _ => rfl,fun _ => ?_⟩
      · have same : raw_nodes s.waiting q = left := by
          rw [waiting] at moved
          omega
        exact same ▸ balanced
      · rw [entry]
        exact (if_pos (.inr member)).symm

theorem Sound.settle_spec (sound : s.Sound) (here : s.runs = before ++ r :: after) (settling : r.point = .settling false) :
    let r' : BatchRun := { r with point := if r.reruns.isSome then .between else .releasing }
    (settle_counters r.batch_id false r.active_workflows s.requests).2 = none ∧
      Sound { s with
        requests := (settle_counters r.batch_id false r.active_workflows s.requests).1
        runs := before ++ r' :: after
        skipped := s.skipped ++ r.cancelled_workflows
        processed := s.processed ++ r.active_workflows } := by
  intro r'
  have waiting : r.waiting = r.cancelled_workflows ++ r.later := by simp [BatchRun.waiting,settling]
  have counted : r.counted = r.active_workflows := by simp [BatchRun.counted,settling]
  have done : r'.waiting = r.later ∧ r'.counted = [] ∧ ¬ r'.Open ∧ r'.point ≠ .settling true ∧ r'.point ≠ .leaving := by
    cases nested : r.reruns <;>
      simp [r',BatchRun.waiting,BatchRun.counted,BatchRun.Open,BatchRun.later,nested]
  obtain ⟨waiting',counted',closed,no_retry,staying⟩ := done
  refine sound.loop here r' rfl (request_ids_nodup _) rfl ?_ (fun retry => by tauto) ?_
  · intro f
    rw [waiting,waiting',counted,counted']
    simp only [weight_append,weight_nil]
    omega
  · intro q c found
    have balanced := sound.balanced q c found
    have entry := sound.started here (.inr ⟨_,settling⟩) found
    simp only [waiting,waiting',raw_nodes_eq,weight_append]
    by_cases member : q ∈ request_ids r.active_workflows
    · rw [if_pos member] at entry
      obtain ⟨fine,kept,counts⟩ := settle_balanced balanced entry q
      refine ⟨fun _ => fine,?_⟩
      rintro c' new left moved
      rw [if_pos member] at new
      subst new
      rw [counts]
      refine ⟨?_,fun id apart => Dict.get?_erase_ne _ apart,fun is_open => absurd is_open closed⟩
      have same : weight (raw_weight q) s.waiting = left := by omega
      simpa only [raw_nodes_eq,same] using kept
    · refine ⟨fun inside => absurd inside member,?_⟩
      rintro c' new left moved
      rw [if_neg member] at new
      subst new
      have none_active := raw_nodes_absent member
      rw [raw_nodes_eq] at none_active
      refine ⟨?_,fun _ _ => rfl,fun is_open => absurd is_open closed⟩
      have same : weight (raw_weight q) s.waiting = left := by omega
      simpa only [raw_nodes_eq,same,none_active,Nat.add_zero] using balanced

theorem Sound.settle_retry_spec (sound : s.Sound) (here : s.runs = before ++ r :: after) (settling : r.point = .settling true) :
    let r' : BatchRun := { r with point := .leaving }
    (settle_counters r.batch_id true r.active_workflows s.requests).2 = none ∧
      Sound { s with
        requests := (settle_counters r.batch_id true r.active_workflows s.requests).1
        runs := before ++ r' :: after } := by
  intro r'
  have waiting : r.waiting = r.cancelled_workflows ++ r.later := by simp [BatchRun.waiting,settling]
  have counted : r.counted = r.active_workflows := by simp [BatchRun.counted,settling]
  have waiting' : r'.waiting = r.batch ++ r.later := rfl
  have counted' : r'.counted = [] := rfl
  have closed : ¬ r'.Open := by simp [r',BatchRun.Open]
  have first := sound.first r (here ▸ List.mem_append_right _ List.mem_cons_self) (.inl settling)
  refine sound.loop here r' rfl (request_ids_nodup _) rfl ?_ (fun _ => first) ?_
  · intro f
    have all := r.parts f
    rw [waiting,waiting',counted,counted']
    simp only [weight_append,weight_nil]
    omega
  · intro q c found
    have balanced := sound.balanced q c found
    have entry := sound.started here (.inr ⟨_,settling⟩) found
    have all := r.parts (raw_weight q)
    simp only [waiting,waiting',raw_nodes_eq,weight_append]
    by_cases member : q ∈ request_ids r.active_workflows
    · rw [if_pos member] at entry
      obtain ⟨fine,kept,counts⟩ := settle_retry_balanced balanced entry q
      refine ⟨fun _ => fine,?_⟩
      rintro c' new left moved
      rw [if_pos member] at new
      subst new
      rw [counts]
      refine ⟨?_,fun id apart => Dict.get?_erase_ne _ apart,fun is_open => absurd is_open closed⟩
      have same : weight (raw_weight q) s.waiting + weight (raw_weight q) r.active_workflows = left := by omega
      simpa only [raw_nodes_eq,same] using kept
    · refine ⟨fun inside => absurd inside member,?_⟩
      rintro c' new left moved
      rw [if_neg member] at new
      subst new
      have none_active := raw_nodes_absent member
      rw [raw_nodes_eq] at none_active
      refine ⟨?_,fun _ _ => rfl,fun is_open => absurd is_open closed⟩
      have same : weight (raw_weight q) s.waiting = left := by omega
      simpa only [raw_nodes_eq,same] using balanced

-- A request that is not known has no workflow anywhere.
theorem Sound.stranger (sound : s.Sound) (new : q ∉ s.requests.keys) :
    ∀ w ∈ s.waiting ++ s.counted ++ s.stuck ++ s.processed, w.request_id ≠ q := by
  have absent : weight (Weights.occurs WorkflowItem.request_id q) s.items = 0 := by
    rw [weight_eq_zero]
    intro w member
    exact if_neg (fun own : w.request_id = q => new (own ▸ sound.known w member))
  rw [sound.conserved,← weight_append,← weight_append,← weight_append,weight_eq_zero] at absent
  intro w member own
  have one := absent w member
  simp [Weights.occurs,own] at one

theorem Sound.enter (sound : s.Sound) (own : ∀ w ∈ query, w.request_id = request_id) (new : request_id ∉ s.requests.keys)
    (fresh : ((s.items ++ query).map WorkflowItem.workflow_id).Nodup)
    (moved : ∀ f, weight f queued' + weight f skipped' = weight f s.queued + weight f s.skipped + weight f query) :
    Sound { s with
      requests := s.requests.set request_id (new_counters query)
      queued := queued'
      skipped := skipped'
      items := s.items ++ query } := by
  have stranger := sound.stranger new
  have waiting : ∀ f, weight f { s with
      requests := s.requests.set request_id (new_counters query)
      queued := queued'
      skipped := skipped'
      items := s.items ++ query }.waiting = weight f s.waiting + weight f query := by
    intro f
    have parts := moved f
    simp only [System.waiting,weight_append]
    omega
  refine ⟨?_,fresh,?_,?_,?_,?_,sound.first,sound.apart,sound.no_error⟩
  · intro f
    have before := sound.conserved f
    rw [waiting,weight_append,before]
    simp only [counted]
    omega
  · intro w member
    rcases List.mem_append.mp member with old | member
    · exact Dict.mem_keys_set.mpr (.inl (sound.known w old))
    · exact Dict.mem_keys_set.mpr (.inr (own w member))
  · intro q c found
    by_cases here : q = request_id
    · subst here
      rw [Dict.get?_set_self] at found
      obtain rfl := Option.some.inj found
      have all : weight (raw_weight q) query = total (query.map (fun w => w.runtime_graph.node_count)) :=
        weight_congr (fun w member => if_pos (own w member))
      have nothing : ∀ l : List WorkflowItem, (∀ w ∈ l, w ∈ s.waiting ++ s.counted ++ s.stuck ++ s.processed) →
          weight (raw_weight q) l = 0 :=
        fun l inside => weight_eq_zero.mpr (fun w member => if_neg (stranger w (inside w member)))
      have no_waiting := nothing s.waiting (by simp +contextual)
      have no_counted := nothing s.counted (by simp +contextual)
      have no_stuck := nothing s.stuck (by simp +contextual)
      have no_processed := nothing s.processed (by simp +contextual)
      have before := sound.conserved (raw_weight q)
      have no_items : weight (raw_weight q) s.items = 0 := by omega
      rw [raw_nodes_eq,waiting,no_waiting,all,raw_nodes_eq,no_processed,raw_nodes_eq,weight_append,no_items,all,Nat.zero_add]
      exact new_balanced query
    · rw [Dict.get?_set_ne _ _ here] at found
      have none_new : weight (raw_weight q) query = 0 :=
        weight_eq_zero.mpr (fun w member => if_neg (fun same => here (same.symm.trans (own w member))))
      have balanced := sound.balanced q c found
      rw [raw_nodes_eq _ q,waiting,raw_nodes_eq (s.items ++ query),weight_append,none_new]
      simpa only [raw_nodes_eq,Nat.add_zero] using balanced
  · intro q c found id used
    by_cases here : q = request_id
    · subst here
      rw [Dict.get?_set_self] at found
      obtain rfl := Option.some.inj found
      cases used
    · rw [Dict.get?_set_ne _ _ here] at found
      exact sound.fresh_ids q c found id used
  · intro q c found r member is_open
    by_cases here : q = request_id
    · subst here
      rw [Dict.get?_set_self] at found
      obtain rfl := Option.some.inj found
      refine (if_pos ?_).symm
      rcases is_open with starting | started
      · exact .inl starting
      · refine .inr (fun inside => ?_)
        obtain ⟨w,active,same⟩ := mem_request_ids.mp inside
        have counted : w ∈ s.counted := List.mem_flatMap.mpr ⟨r,member,(BatchRun.counted_started started).symm ▸ active⟩
        exact stranger w (by simp [counted]) same
    · rw [Dict.get?_set_ne _ _ here] at found
      exact sound.entries q c found r member is_open

theorem empty_sound : Sound {} where
  conserved _ := rfl
  distinct := List.nodup_nil
  known _ none_there := nomatch none_there
  balanced _ _ found := nomatch found
  fresh_ids _ _ found := nomatch found
  entries _ _ found := nomatch found
  first _ none_there := nomatch none_there
  apart := ⟨List.nodup_nil,fun _ none_there => nomatch none_there⟩
  no_error := rfl

theorem step_sound {cfg : PriorityQueue.Settings} (sound : s.Sound) (step : Step cfg s label t) : t.Sound := by
  cases step with
  | submit own new fresh => exact sound.enter own new fresh (fun f => by simp only [weight_append]; omega)
  | enqueue_raises own new fresh => exact sound.enter own new fresh (fun f => by simp only [weight_append]; omega)
  | remove parts =>
      refine sound.move (fun f => ?_) s.busy_workers
      have all := weight_perm (f := f) parts
      simp only [weight_append] at all ⊢
      omega
  | claim batch free total idle parts claimed =>
      refine sound.move (fun f => ?_) _
      have all := weight_perm (f := f) parts
      rw [idle]
      simp only [weight_append,Scheduler.batch,weight_nil] at all ⊢
      omega
  | commit here => exact sound.move (fun f => by rw [here]; rfl) s.busy_workers
  | commit_raises here => exact sound.move (fun f => by rw [here]; rfl) s.busy_workers
  | dispatch_raises here =>
      refine sound.move (fun f => ?_) s.busy_workers
      rw [here]
      simp only [weight_append,Scheduler.batch,weight_nil]
      omega
  | undo here =>
      refine sound.move (fun f => ?_) _
      rw [here]
      simp only [weight_append,Scheduler.batch,weight_nil]
      omega
  | undo_fails here =>
      refine sound.move (fun f => ?_) _
      rw [here]
      simp only [weight_append,Scheduler.batch,weight_nil]
      omega
  | undo_raises here =>
      refine sound.move (fun f => ?_) s.busy_workers
      rw [here]
      simp only [weight_append,Scheduler.batch,weight_nil]
      omega
  | dispatch here fresh =>
      refine sound.frame rfl rfl rfl rfl (fun _ used => List.mem_cons_of_mem _ used) ?_ ?_ ?_ ?_ ?_
      · intro f
        simp only [waiting,here,List.flatMap_append,List.flatMap_cons,List.flatMap_nil,BatchRun.waiting,BatchRun.later,
          weight_append,Scheduler.batch,weight_nil,Option.getD_none,List.flatten_nil]
        omega
      · intro f
        simp [counted,BatchRun.counted]
      · intro r member retry
        rcases List.mem_append.mp member with old | new
        · exact sound.first r old retry
        · obtain rfl := List.mem_singleton.mp new
          rfl
      · exact (show Apart (s.runs ++ []) s.batch_ids by rw [List.append_nil]; exact sound.apart).add fresh
      · intro r member is_open
        rcases List.mem_append.mp member with old | new
        · exact .inl ⟨r,old,is_open,rfl,fun _ => rfl⟩
        · obtain rfl := List.mem_singleton.mp new
          exact .inr ⟨rfl,fresh⟩
  | start cancelled here at_start moved =>
      obtain ⟨_,kept⟩ := sound.start_spec here at_start cancelled
      obtain rfl := congrArg Prod.fst moved
      exact kept
  | start_fails cancelled here at_start failed =>
      obtain ⟨fine,_⟩ := sound.start_spec here at_start cancelled
      cases fine.symm.trans (congrArg Prod.snd failed)
  | record total_nodes here working once some_active moved =>
      obtain ⟨_,kept⟩ := sound.record_spec here working once total_nodes
      obtain rfl := congrArg Prod.fst moved
      exact kept
  | record_fails total_nodes here working once some_active failed =>
      obtain ⟨fine,_⟩ := sound.record_spec here working once total_nodes
      cases fine.symm.trans (congrArg Prod.snd failed)
  | settle here settling moved =>
      obtain ⟨_,kept⟩ := sound.settle_spec here settling
      obtain rfl := congrArg Prod.fst moved
      exact kept
  | settle_retry here settling moved =>
      obtain ⟨_,kept⟩ := sound.settle_retry_spec here settling
      obtain rfl := congrArg Prod.fst moved
      exact kept
  | settle_fails retry here settling failed =>
      cases retry with
      | false =>
          obtain ⟨fine,_⟩ := sound.settle_spec here settling
          cases fine.symm.trans (congrArg Prod.snd failed)
      | true =>
          obtain ⟨fine,_⟩ := sound.settle_retry_spec here settling
          cases fine.symm.trans (congrArg Prod.snd failed)
  | end_work retry here working isolate =>
      refine sound.swap here rfl (fun _ => ?_) (fun _ => ?_) ?_ ?_
      · simp only [BatchRun.waiting,working]
        rfl
      · simp only [BatchRun.counted,working]
        rfl
      · rintro (again | leaving)
        · exact (isolate (by simpa using again)).1
        · cases leaving
      · refine fun _ => ⟨.inr (.inl working),fun q => ?_⟩
        simp only [BatchRun.entry,working,reduceCtorEq,false_or]
        rfl
  | leave here leaving =>
      have first := sound.first _ (here ▸ List.mem_append_right _ List.mem_cons_self) (.inr leaving)
      refine sound.swap here rfl (fun f => ?_) (fun _ => ?_) (by simp) (by simp [BatchRun.Open])
      · simp only [BatchRun.waiting,leaving,BatchRun.later,first,Option.getD_some,Option.getD_none,List.flatten_nil,
          List.append_nil,split_batch_weight]
      · simp only [BatchRun.counted,leaving]
  | rerun here between next fresh =>
      have apart := here ▸ sound.apart
      refine sound.frame rfl rfl rfl rfl (fun _ used => List.mem_cons_of_mem _ used) ?_ ?_ ?_ (apart.drop.add fresh) ?_
      · intro f
        simp only [waiting,here,List.flatMap_append,List.flatMap_cons,BatchRun.waiting,between,BatchRun.later,next,
          weight_append,Option.getD_some,List.flatten_cons]
      · intro f
        simp only [counted,here,List.flatMap_append,List.flatMap_cons,BatchRun.counted,between]
      · intro x member retry
        rcases List.mem_append.mp member with old | last
        · exact sound.first x (here ▸ List.mem_append_left _ old) retry
        · rcases List.mem_cons.mp last with rfl | old
          · simp at retry
          · exact sound.first x (here ▸ List.mem_append_right _ (List.mem_cons_of_mem _ old)) retry
      · intro x member is_open
        rcases List.mem_append.mp member with old | last
        · exact .inl ⟨x,here ▸ List.mem_append_left _ old,is_open,rfl,fun _ => rfl⟩
        · rcases List.mem_cons.mp last with rfl | old
          · exact .inr ⟨rfl,fresh⟩
          · exact .inl ⟨x,here ▸ List.mem_append_right _ (List.mem_cons_of_mem _ old),is_open,rfl,fun _ => rfl⟩
  | last_rerun here between last =>
      refine sound.swap here rfl (fun f => ?_) (fun _ => ?_) (by simp) (by simp [BatchRun.Open])
      · simp only [BatchRun.waiting,between,BatchRun.later,last,Option.getD_some,List.flatten_nil]
      · simp only [BatchRun.counted,between]
  | raises here unhandled =>
      refine sound.swap here rfl (fun f => ?_) (fun f => ?_) (by simp) (by simp [BatchRun.Open])
      · rcases unhandled with starting | ⟨retry,settling⟩ | leaving
        · rw [if_pos (.inl starting)]
          simp only [BatchRun.waiting,BatchRun.later,starting,weight_append]
          omega
        · rw [if_neg (by simp [settling])]
          simp only [BatchRun.waiting,BatchRun.later,settling,weight_append]
          omega
        · rw [if_pos (.inr leaving)]
          simp only [BatchRun.waiting,BatchRun.later,leaving,weight_append]
          omega
      · rw [weight_append]
        change weight f [] + _ = _
        rw [weight_nil]
        omega
  | escape here escaped first =>
      refine sound.drop here ?_ ?_ s.busy_workers
      · simp only [BatchRun.waiting,escaped,BatchRun.later,first,Option.getD_none,List.flatten_nil]
      · simp only [BatchRun.counted,escaped]
  | caught here escaped nested =>
      refine sound.swap here rfl (fun f => ?_) (fun _ => ?_) (by simp) (by simp [BatchRun.Open])
      · simp only [BatchRun.waiting,escaped]
        rfl
      · simp only [BatchRun.counted,escaped]
  | uncaught here escaped nested =>
      refine sound.swap here rfl (fun f => ?_) (fun _ => ?_) (by simp) (by simp [BatchRun.Open])
      · simp only [BatchRun.waiting,escaped,weight_append,weight_nil]
        omega
      · simp only [BatchRun.counted,escaped]
  | release here releasing =>
      refine sound.drop here ?_ ?_ _
      · simp only [BatchRun.waiting,releasing]
      · simp only [BatchRun.counted,releasing]
  | release_raises here releasing =>
      refine sound.drop here ?_ ?_ s.busy_workers
      · simp only [BatchRun.waiting,releasing]
      · simp only [BatchRun.counted,releasing]

theorem run_sound {cfg : PriorityQueue.Settings} (path : Execution cfg labels s) : s.Sound := by
  have kept : ∀ before label after, Sound before → Step cfg before label after → Sound after :=
    fun _ _ _ sound step => step_sound sound step
  exact Runs.invariant empty_sound kept path

-- No batch is queued, claimed or in flight.
def Quiet (s : System) : Prop := s.queued = [] ∧ s.scheduler.batch = [] ∧ s.runs = []

end System

end Lumilake.Server

import Mathlib.Algebra.Order.Ring.Rat
import Mathlib.Data.List.Nodup
import Mathlib.Data.String.Basic
import Mathlib.Tactic.FinCases
import Lumilake.Library.Separators
import Lumilake.Library.Sorting
import Lumilake.ListLambdas
import Lumilake.Server.ProcessBatch

namespace Lumilake.Server

-- A number in a data spec.
def number : Value → Rat
  | .int i => i
  | .float q => q
  | _ => 0

def quantity (op : RuntimeOp) (key : String) : Rat := number ((Value.get? op.data_spec key).getD .none)

-- A python step with an expected run time; any other node takes no share.
def timed (op : RuntimeOp) : Bool :=
  decide (op.task_type = TASK_TYPE) && (Value.get? op.data_spec "expected_runtime_s").isSome

-- How much of its timeout a python step is expected to take; `none` is `math.inf`.
def step_share (op : RuntimeOp) : Option Rat :=
  match Value.get? op.data_spec "row_count" with
  | some rows => some (quantity op "expected_runtime_s" * number rows / quantity op "timeout_s")
  | none => none

def larger : Option Rat → Option Rat → Option Rat
  | some a,some b => some (max a b)
  | _,_ => none

-- The largest share of the timed python steps of a slice, 0 without one.
def python_share (item : WorkflowItem) : Option Rat :=
  match (item.runtime_graph.nodes.values.filter timed).map step_share with
  | [] => some 0
  | first :: rest => rest.foldl larger first

def fits_load : Option Rat → Option Rat → Bool
  | some load,some share => decide (load + share ≤ 1)
  | _,_ => false

-- One turn of `_chunk_within_python_timeouts`: the chunks so far and the load of the last.
def chunk_turn (s : List (List WorkflowItem) × Option Rat) (item : WorkflowItem) :
    List (List WorkflowItem) × Option Rat :=
  let share := python_share item
  match s.1.getLast? with
  | some last =>
    if fits_load s.2 share then (s.1.dropLast ++ [last ++ [item]],s.2.bind fun load => share.map (load + ·))
    else (s.1 ++ [[item]],share)
  | none => (s.1 ++ [[item]],share)

def chunk_within_python_timeouts (ordered : List WorkflowItem) : List (List WorkflowItem) :=
  (ordered.foldl chunk_turn ([],some 0)).1

def grouped_workflows (workflows : List WorkflowItem) : Groups :=
  group_workflows_by_parent_workflow chunk_within_python_timeouts workflows

-- The slices of a parent in their order, and the key of its chunk of a number.
def parent_slices (workflows : List WorkflowItem) (parent : String) : List WorkflowItem :=
  (workflows.filter fun w => decide (request_workflow_parent_id w = parent)).mergeSort slice_before

def chunk_key (parent : String) (idx : Nat) : String := if idx = 0 then parent else parent ++ "::" ++ toString idx

section
variable (share : WorkflowItem → Option Rat)

-- A sum over slices, unknown when one of its terms is.
def summed : List WorkflowItem → Option Rat
  | [] => some 0
  | item :: items => (share item).bind fun first => (summed items).map (first + ·)

theorem summed_append (items more : List WorkflowItem) :
    summed share (items ++ more) = (summed share items).bind fun first => (summed share more).map (first + ·) := by
  induction items with
  | nil => cases known : summed share more <;> simp [summed,known]
  | cons item items ih =>
      rw [List.cons_append,summed,summed,ih]
      cases share item <;> cases summed share items <;> cases summed share more <;> simp [add_assoc]

theorem summed_single (item : WorkflowItem) : summed share [item] = share item := by
  cases known : share item <;> simp [summed,known]

end

-- A chunk that keeps within the timeouts, unless it is a slice of its own.
def within (chunk : List WorkflowItem) : Prop :=
  chunk.length = 1 ∨ ∃ load, summed python_share chunk = some load ∧ load ≤ 1

-- What a turn keeps: the chunks hold the slices so far, and the load is that of the last of them.
structure Chunked (ordered : List WorkflowItem) (s : List (List WorkflowItem) × Option Rat) : Prop where
  whole : s.1.flatten = ordered
  filled : ∀ chunk ∈ s.1, chunk ≠ []
  bounded : ∀ chunk ∈ s.1, within chunk
  loaded : ∀ last, s.1.getLast? = some last → summed python_share last = s.2

theorem chunked_opened {ordered : List WorkflowItem} {s : List (List WorkflowItem) × Option Rat} (chunked : Chunked ordered s)
    (item : WorkflowItem) : Chunked (ordered ++ [item]) (s.1 ++ [[item]],python_share item) where
  whole := by simp [chunked.whole]
  filled := by
    intro chunk member
    rcases List.mem_append.mp member with old | new
    · exact chunked.filled chunk old
    · rw [List.mem_singleton.mp new]
      exact List.cons_ne_nil _ _
  bounded := by
    intro chunk member
    rcases List.mem_append.mp member with old | new
    · exact chunked.bounded chunk old
    · rw [List.mem_singleton.mp new]
      exact .inl rfl
  loaded := by
    intro last found
    rw [List.getLast?_concat,Option.some.injEq] at found
    rw [← found,summed_single]

theorem chunk_turn_chunked {ordered : List WorkflowItem} {s : List (List WorkflowItem) × Option Rat} (chunked : Chunked ordered s)
    (item : WorkflowItem) : Chunked (ordered ++ [item]) (chunk_turn s item) := by
  unfold chunk_turn
  cases last : s.1.getLast? with
  | none => exact chunked_opened chunked item
  | some chunk =>
      simp only
      split
      · rename_i fits
        have split : s.1 = s.1.dropLast ++ [chunk] := (List.dropLast_append_getLast? chunk last).symm
        -- The load and the share are both known, and so is their sum.
        obtain ⟨load,share,load_is,share_is,small⟩ : ∃ load share, s.2 = some load ∧ python_share item = some share ∧
            load + share ≤ 1 := by
          cases load_is : s.2 <;> cases share_is : python_share item <;> simp [fits_load,load_is,share_is] at fits
          exact ⟨_,_,rfl,rfl,fits⟩
        have grown : summed python_share (chunk ++ [item]) = some (load + share) := by
          rw [summed_append,chunked.loaded chunk last,summed_single,load_is,share_is]
          rfl
        refine ⟨?_,?_,?_,?_⟩
        · rw [← chunked.whole]
          conv => rhs; rw [split]
          simp
        · intro c member
          rcases List.mem_append.mp member with old | new
          · exact chunked.filled c (List.dropLast_subset _ old)
          · rw [List.mem_singleton.mp new]
            simp
        · intro c member
          rcases List.mem_append.mp member with old | new
          · exact chunked.bounded c (List.dropLast_subset _ old)
          · rw [List.mem_singleton.mp new]
            exact .inr ⟨load + share,grown,small⟩
        · intro c found
          rw [List.getLast?_concat,Option.some.injEq] at found
          rw [← found,grown,load_is,share_is]
          rfl
      · exact chunked_opened chunked item

-- Chunking cuts the slices in order, into chunks that are not empty and keep within the timeouts.
theorem chunk_spec (ordered : List WorkflowItem) :
    (chunk_within_python_timeouts ordered).flatten = ordered ∧
      ∀ chunk ∈ chunk_within_python_timeouts ordered, chunk ≠ [] ∧ within chunk := by
  have chunked : Chunked ordered (ordered.foldl chunk_turn ([],some 0)) := by
    induction ordered using List.reverseRecOn with
    | nil => exact ⟨rfl,by simp,by simp,by simp⟩
    | append_singleton ordered item ih =>
        rw [List.foldl_append,List.foldl_cons,List.foldl_nil]
        exact chunk_turn_chunked ih item
  exact ⟨chunked.whole,fun chunk member => ⟨chunked.filled chunk member,chunked.bounded chunk member⟩⟩

def by_parent (workflows : List WorkflowItem) : Groups :=
  workflows.foldl (fun groups workflow => groups.set (request_workflow_parent_id workflow)
    ((groups.get? (request_workflow_parent_id workflow)).getD [] ++ [workflow])) Dict.empty

-- Under a parent stand its workflows, at least one.
theorem by_parent_entry {workflows : List WorkflowItem} {e : String × List WorkflowItem}
    (member : e ∈ (by_parent workflows).entries) :
    e.2 = (workflows.filter fun w => decide (request_workflow_parent_id w = e.1)) ∧ e.2 ≠ [] := by
  have found := (Dict.get?_group request_workflow_parent_id workflows e.1).symm.trans (Dict.get?_eq_some.mpr member)
  split at found
  · cases found
  · rename_i some_workflow
    exact ⟨(Option.some.inj found).symm,Option.some.inj found ▸ some_workflow⟩

theorem by_parent_perm (workflows : List WorkflowItem) : (by_parent workflows).values.flatten.Perm workflows := by
  unfold by_parent
  induction workflows using List.reverseRecOn with
  | nil => exact .nil
  | append_singleton workflows w ih =>
      rw [List.foldl_append,List.foldl_cons,List.foldl_nil]
      exact (Dict.values_append_perm _ _ _).trans (ih.append_right _)

-- The groups with their keys, as they are written one after the other.
def chunks_of (parent : String × List WorkflowItem) : List (String × List WorkflowItem) :=
  (chunk_within_python_timeouts (parent.2.mergeSort slice_before)).zipIdx.map fun chunk => (chunk_key parent.1 chunk.2,chunk.1)

def keyed_chunks (workflows : List WorkflowItem) : List (String × List WorkflowItem) :=
  (by_parent workflows).entries.flatMap chunks_of

theorem grouped_folds (workflows : List WorkflowItem) :
    grouped_workflows workflows = (keyed_chunks workflows).foldl (fun grouped e => grouped.set e.1 e.2) Dict.empty := by
  unfold keyed_chunks
  rw [List.foldl_flatMap]
  unfold grouped_workflows group_workflows_by_parent_workflow chunks_of
  simp only [List.foldl_map]
  rfl

-- Where no key is written twice, the groups are what is written.
theorem grouped_entries {workflows : List WorkflowItem} (distinct : ((keyed_chunks workflows).map Prod.fst).Nodup) :
    (grouped_workflows workflows).entries = keyed_chunks workflows := by
  have written := Dict.entries_foldl_set (fun e : String × List WorkflowItem => e.1) Prod.snd Dict.empty
    (by simpa using distinct : ((Dict.empty : Dict String (List WorkflowItem)).keys ++ (keyed_chunks workflows).map Prod.fst).Nodup)
  rw [grouped_folds,written]
  simp

-- What the ids of a batch are made of: a request id free of the separator that does not end in
-- half of one, and a digest of the one size without a colon.
structure Identified (size : Nat) (w : WorkflowItem) : Prop where
  separate : ¬ "::".toList <:+: w.request_id.toList
  closed : w.request_id.toList.getLast? ≠ some ':'
  sized : w.template_hash.toList.length = size
  plain : ':' ∉ w.template_hash.toList

theorem Identified.unseparated {size : Nat} {w : WorkflowItem} (identified : Identified size w) :
    ¬ [':',':'] <:+: w.request_id.toList ++ [':'] := by
  intro inside
  rcases List.infix_concat_iff.mp inside with ends | within_id
  · obtain ⟨front,same⟩ := ends
    have halves : (front ++ [':']) ++ [':'] = w.request_id.toList ++ [':'] := by simpa using same
    refine identified.closed ?_
    rw [← List.append_cancel_right halves,List.getLast?_concat]
  · exact identified.separate within_id

theorem parent_texts (w : WorkflowItem) : (request_workflow_parent_id w).toList =
    "request::".toList ++ (w.request_id.toList ++ ':' :: ':' :: (w.public_graph_name.toList ++ [':',':'] ++ w.template_hash.toList)) := by
  simp [request_workflow_parent_id]

-- A parent id tells request, public graph and digest.
theorem parent_alike {size : Nat} {v w : WorkflowItem} (of_v : Identified size v) (of_w : Identified size w)
    (same : request_workflow_parent_id v = request_workflow_parent_id w) :
    v.request_id = w.request_id ∧ v.public_graph_name = w.public_graph_name ∧ v.template_hash = w.template_hash := by
  have texts := congrArg String.toList same
  rw [parent_texts,parent_texts] at texts
  obtain ⟨requests,rest⟩ := Separators.doubled_of of_v.unseparated of_w.unseparated (List.append_cancel_left texts)
  obtain ⟨names,digests⟩ := List.append_inj' rest (of_v.sized.trans of_w.sized.symm)
  exact ⟨String.toList_inj.mp requests,String.toList_inj.mp (List.append_cancel_right names),String.toList_inj.mp digests⟩

theorem number_plain (n : Nat) : ':' ∉ Nat.toDigits 10 n := by
  intro member
  exact absurd (Nat.isDigit_of_mem_toDigits (by decide) (by decide) member) (by decide)

theorem chunk_key_texts (parent : String) {idx : Nat} (later : idx ≠ 0) :
    (chunk_key parent idx).toList = (parent.toList ++ [':']) ++ ':' :: Nat.toDigits 10 idx := by
  simp [chunk_key,later]

-- The key of a later chunk is no parent id: behind its last colon stand fewer characters than a digest has.
theorem chunk_key_no_parent {size idx : Nat} {w : WorkflowItem} (identified : Identified size w) (parent : String)
    (later : idx ≠ 0) (few : idx < 10 ^ (size - 1)) : chunk_key parent idx ≠ request_workflow_parent_id w := by
  intro same
  have texts := congrArg String.toList same
  have front : (request_workflow_parent_id w).toList =
      ("request::".toList ++ w.request_id.toList ++ ':' :: ':' :: w.public_graph_name.toList ++ [':']) ++ ':' :: w.template_hash.toList := by
    rw [parent_texts]
    simp
  rw [chunk_key_texts _ later,front] at texts
  have digest := (Separators.back_of (number_plain idx) identified.plain texts).2
  have positive : 0 < size - 1 := by
    rcases Nat.eq_zero_or_pos (size - 1) with zero | positive
    · rw [zero] at few
      omega
    · exact positive
  have short := (Nat.length_toDigits_le_iff (b := 10) (by decide) positive).mpr few
  rw [digest,identified.sized] at short
  omega

-- Two keys are the same for the same chunk of the same parent only.
theorem chunk_key_apart {size i j : Nat} {v w : WorkflowItem} (of_v : Identified size v) (of_w : Identified size w)
    (few : i < 10 ^ (size - 1)) (few' : j < 10 ^ (size - 1))
    (same : chunk_key (request_workflow_parent_id v) i = chunk_key (request_workflow_parent_id w) j) :
    request_workflow_parent_id v = request_workflow_parent_id w ∧ i = j := by
  by_cases first : i = 0
  · by_cases first' : j = 0
    · subst first first'
      exact ⟨by simpa [chunk_key] using same,rfl⟩
    · subst first
      exact absurd same.symm (chunk_key_no_parent of_v _ first' few')
  · by_cases first' : j = 0
    · subst first'
      exact absurd same (chunk_key_no_parent of_w _ first few)
    · have texts := congrArg String.toList same
      rw [chunk_key_texts _ first,chunk_key_texts _ first'] at texts
      obtain ⟨parents,digits⟩ := Separators.back_of (number_plain i) (number_plain j) texts
      refine ⟨String.toList_inj.mp (List.append_cancel_right parents),?_⟩
      rw [← Nat.ofDigitChars_ten_toDigits (n := i),digits,Nat.ofDigitChars_ten_toDigits]

-- As no chunk is empty, there are no more of them than slices.
theorem chunk_count (parent : String × List WorkflowItem) :
    (chunk_within_python_timeouts (parent.2.mergeSort slice_before)).length ≤ parent.2.length := by
  obtain ⟨whole,filled⟩ := chunk_spec (parent.2.mergeSort slice_before)
  have counted : ∀ chunks : List (List WorkflowItem), (∀ c ∈ chunks, c ≠ []) → chunks.length ≤ chunks.flatten.length := by
    intro chunks
    induction chunks with
    | nil => intro _; exact Nat.le_refl _
    | cons c rest ih =>
        intro filled
        have own := List.length_pos_iff.mpr (filled c List.mem_cons_self)
        have others := ih fun c member => filled c (List.mem_cons_of_mem _ member)
        rw [List.flatten_cons,List.length_append,List.length_cons]
        omega
  have held := counted _ fun c member => (filled c member).1
  rwa [whole,List.length_mergeSort] at held

theorem chunks_of_keys (parent : String × List WorkflowItem) :
    (chunks_of parent).map Prod.fst =
      (List.range (chunk_within_python_timeouts (parent.2.mergeSort slice_before)).length).map (chunk_key parent.1) := by
  unfold chunks_of
  rw [List.map_map,List.range_eq_range',← List.zipIdx_map_snd 0,List.map_map]
  rfl

theorem chunks_of_values (parent : String × List WorkflowItem) :
    (chunks_of parent).map Prod.snd = chunk_within_python_timeouts (parent.2.mergeSort slice_before) := by
  unfold chunks_of
  rw [List.map_map]
  exact List.zipIdx_map_fst 0 _

theorem mem_by_parent {workflows : List WorkflowItem} {parent : String × List WorkflowItem}
    (member : parent ∈ (by_parent workflows).entries) :
    parent.2.length ≤ workflows.length ∧ ∃ w ∈ workflows, parent.1 = request_workflow_parent_id w := by
  obtain ⟨slices,some_slice⟩ := by_parent_entry member
  refine ⟨by rw [slices]; exact List.length_filter_le _ _,?_⟩
  obtain ⟨w,inside⟩ := List.exists_mem_of_ne_nil _ some_slice
  rw [slices,List.mem_filter,decide_eq_true_eq] at inside
  exact ⟨w,inside.1,inside.2.symm⟩

-- No key is written twice.
theorem keyed_chunks_distinct {size : Nat} {workflows : List WorkflowItem} (identified : ∀ w ∈ workflows, Identified size w)
    (few : workflows.length ≤ 10 ^ (size - 1)) : ((keyed_chunks workflows).map Prod.fst).Nodup := by
  have apart : ∀ parent ∈ (by_parent workflows).entries, ∀ other ∈ (by_parent workflows).entries, ∀ i j,
      i < (chunk_within_python_timeouts (parent.2.mergeSort slice_before)).length →
      j < (chunk_within_python_timeouts (other.2.mergeSort slice_before)).length →
      chunk_key parent.1 i = chunk_key other.1 j → parent.1 = other.1 ∧ i = j := by
    intro parent known other known' i j below below' same
    obtain ⟨size_of,v,inside,own⟩ := mem_by_parent known
    obtain ⟨size_of',w,inside',own'⟩ := mem_by_parent known'
    have count := chunk_count parent
    have count' := chunk_count other
    rw [own,own'] at same ⊢
    exact chunk_key_apart (identified v inside) (identified w inside') (by omega) (by omega) same
  rw [keyed_chunks,List.map_flatMap,List.nodup_flatMap]
  constructor
  · intro parent known
    rw [chunks_of_keys]
    refine List.Nodup.map_on ?_ List.nodup_range
    intro i below j below' same
    exact (apart parent known parent known i j (List.mem_range.mp below) (List.mem_range.mp below') same).2
  · have distinct := List.pairwise_map.mp (by_parent workflows).distinct
    refine distinct.imp_of_mem ?_
    intro parent other known known' different
    apply List.disjoint_left.mpr
    intro key here there
    dsimp only at here there
    rw [chunks_of_keys,List.mem_map] at here there
    obtain ⟨i,below,rfl⟩ := here
    obtain ⟨j,below',same⟩ := there
    exact different (apart parent known other known' i j (List.mem_range.mp below) (List.mem_range.mp below') same.symm).1

theorem slice_before_keys : slice_before = Sorting.first_by WorkflowItem.request_id
    (Sorting.first_by WorkflowItem.public_graph_name (Sorting.first_by WorkflowItem.slice_index (Sorting.by_key WorkflowItem.workflow_id))) := by
  funext v w
  simp only [slice_before,Sorting.first_by,Sorting.by_key]

theorem slice_before_ranks : Sorting.Ranks slice_before := by
  rw [slice_before_keys]
  exact Sorting.first_by_ranks _ (Sorting.first_by_ranks _ (Sorting.first_by_ranks _ (Sorting.by_key_ranks _)))

-- Within a request and a public graph the order is that of the slices.
theorem slice_before_index {v w : WorkflowItem} (request : v.request_id = w.request_id)
    (graph : v.public_graph_name = w.public_graph_name) (before : slice_before v w = true) : v.slice_index ≤ w.slice_index := by
  rw [slice_before_keys,Sorting.first_by_iff,Sorting.first_by_iff,Sorting.first_by_iff] at before
  rcases before with lower | ⟨_,lower | ⟨_,lower | ⟨same,_⟩⟩⟩
  · exact absurd request (ne_of_lt lower)
  · exact absurd graph (ne_of_lt lower)
  · exact Nat.le_of_lt lower
  · exact Nat.le_of_eq same

-- What the compiler promises of a timed step: no negative time or row, and a positive limit.
structure Measured (op : RuntimeOp) : Prop where
  runtime : 0 ≤ quantity op "expected_runtime_s"
  rows : ∀ rows, Value.get? op.data_spec "row_count" = some rows → 0 ≤ number rows
  timeout : 0 < quantity op "timeout_s"

-- The time a step is expected to take over its rows; `none` when their number is unknown.
def expected_run (op : RuntimeOp) : Option Rat :=
  (Value.get? op.data_spec "row_count").map fun rows => quantity op "expected_runtime_s" * number rows

-- One timed step of each slice that has a part in a coalesced step, all with its limit. The
-- slices have their own node ids for it.
def Coalesced (slices : List WorkflowItem) (step : WorkflowItem → Option RuntimeOp) (limit : Rat) : Prop :=
  ∀ w ∈ slices, ∀ op, step w = some op →
    op ∈ w.runtime_graph.nodes.values ∧ timed op = true ∧ quantity op "timeout_s" = limit

def step_run (step : WorkflowItem → Option RuntimeOp) (item : WorkflowItem) : Option Rat :=
  match step item with
  | some op => expected_run op
  | none => some 0

theorem larger_bound {rest : List (Option Rat)} {first : Option Rat} {most : Rat} (found : rest.foldl larger first = some most) :
    ∀ share ∈ first :: rest, ∃ q, share = some q ∧ q ≤ most := by
  induction rest generalizing first with
  | nil =>
      intro share member
      rw [List.mem_singleton.mp member]
      exact ⟨most,found,le_refl most⟩
  | cons second rest ih =>
      rw [List.foldl_cons] at found
      have bound := ih found
      obtain ⟨q,both,below⟩ := bound _ List.mem_cons_self
      obtain ⟨a,b,rfl,rfl,rfl⟩ : ∃ a b, first = some a ∧ second = some b ∧ max a b = q := by
        cases first <;> cases second <;> simp [larger] at both
        exact ⟨_,_,rfl,rfl,both⟩
      intro share member
      rcases List.mem_cons.mp member with rfl | later
      · exact ⟨a,rfl,(le_max_left a b).trans below⟩
      · rcases List.mem_cons.mp later with rfl | later
        · exact ⟨b,rfl,(le_max_right a b).trans below⟩
        · exact bound share (List.mem_cons_of_mem _ later)

-- A known share of a slice bounds the share of each of its timed steps.
theorem python_share_bound {item : WorkflowItem} {most : Rat} (known : python_share item = some most) :
    (∀ op ∈ item.runtime_graph.nodes.values, timed op = false) ∧ most = 0 ∨
      (∃ op ∈ item.runtime_graph.nodes.values, timed op = true) ∧
        ∀ op ∈ item.runtime_graph.nodes.values, timed op = true → ∃ q, step_share op = some q ∧ q ≤ most := by
  unfold python_share at known
  cases steps : item.runtime_graph.nodes.values.filter timed with
  | nil =>
      rw [steps] at known
      cases known
      exact .inl ⟨fun op member => by simpa using List.filter_eq_nil_iff.mp steps op member,rfl⟩
  | cons first rest =>
      rw [steps] at known
      have inside : first ∈ item.runtime_graph.nodes.values.filter timed := steps ▸ List.mem_cons_self
      refine .inr ⟨⟨first,List.mem_of_mem_filter inside,(List.mem_filter.mp inside).2⟩,?_⟩
      intro op member is_timed
      have listed : step_share op ∈ step_share first :: rest.map step_share := by
        rw [← List.map_cons,← steps]
        exact List.mem_map_of_mem (List.mem_filter.mpr ⟨member,is_timed⟩)
      exact larger_bound known _ listed

-- A share is a run divided by the limit.
theorem step_share_run {op : RuntimeOp} {q : Rat} (measured : Measured op) (known : step_share op = some q) :
    0 ≤ q ∧ expected_run op = some (q * quantity op "timeout_s") := by
  unfold step_share at known
  cases rows : Value.get? op.data_spec "row_count" with
  | none => simp [rows] at known
  | some count =>
      simp only [rows,Option.some.injEq] at known
      have positive := measured.timeout
      subst known
      refine ⟨div_nonneg (mul_nonneg measured.runtime (measured.rows count rows)) (le_of_lt positive),?_⟩
      rw [expected_run,rows,div_mul_cancel₀ _ (ne_of_gt positive)]
      rfl

theorem step_run_bound {item : WorkflowItem} {step : WorkflowItem → Option RuntimeOp} {most limit : Rat}
    (known : python_share item = some most)
    (measured : ∀ op ∈ item.runtime_graph.nodes.values, timed op = true → Measured op) (positive : 0 < limit)
    (coalesced : Coalesced [item] step limit) : ∃ run, step_run step item = some run ∧ run ≤ most * limit := by
  have least : 0 ≤ most := by
    rcases python_share_bound known with ⟨_,zero⟩ | ⟨⟨op,member,is_timed⟩,bound⟩
    · exact le_of_eq zero.symm
    · obtain ⟨q,share,below⟩ := bound op member is_timed
      exact (step_share_run (measured op member is_timed) share).1.trans below
  unfold step_run
  cases chosen : step item with
  | none => exact ⟨0,rfl,mul_nonneg least (le_of_lt positive)⟩
  | some op =>
      obtain ⟨inside,is_timed,own⟩ := coalesced item List.mem_cons_self op chosen
      rcases python_share_bound known with ⟨no_step,_⟩ | ⟨_,bound⟩
      · exact absurd is_timed (by simp [no_step op inside])
      · obtain ⟨q,share,below⟩ := bound op inside is_timed
        have run := (step_share_run (measured op inside is_timed) share).2
        rw [own] at run
        exact ⟨q * limit,run,mul_le_mul_of_nonneg_right below (le_of_lt positive)⟩

-- Over a chunk the runs of one step add up to no more than the load allows.
theorem chunk_run_bound {slices : List WorkflowItem} {step : WorkflowItem → Option RuntimeOp} {load limit : Rat}
    (known : summed python_share slices = some load) (positive : 0 < limit)
    (measured : ∀ w ∈ slices, ∀ op ∈ w.runtime_graph.nodes.values, timed op = true → Measured op)
    (coalesced : Coalesced slices step limit) : ∃ run, summed (step_run step) slices = some run ∧ run ≤ load * limit := by
  induction slices generalizing load with
  | nil =>
      cases known
      exact ⟨0,rfl,by simp⟩
  | cons w rest ih =>
      obtain ⟨most,others,share,rest_load,rfl⟩ : ∃ most others, python_share w = some most ∧
          summed python_share rest = some others ∧ most + others = load := by
        rw [summed] at known
        cases share : python_share w <;> cases rest_load : summed python_share rest <;> simp [share,rest_load] at known
        exact ⟨_,_,rfl,rfl,known⟩
      obtain ⟨run,first,below⟩ := step_run_bound share (measured w List.mem_cons_self) positive
        (fun v only => List.mem_singleton.mp only ▸ coalesced w List.mem_cons_self)
      obtain ⟨runs,later,below'⟩ := ih rest_load (fun v member => measured v (List.mem_cons_of_mem _ member))
        (fun v member => coalesced v (List.mem_cons_of_mem _ member))
      refine ⟨run + runs,by rw [summed,first,later]; rfl,?_⟩
      rw [add_mul]
      exact add_le_add below below'

-- What the groups of a batch are: a partition of it, each part alike and in slice order, the
-- parts of a parent its slices cut in order, and no step of a part beyond its limit.
structure Partitioned (workflows : List WorkflowItem) (groups : Groups) : Prop where
  once : groups.values.flatten.Perm workflows
  filled : ∀ slices ∈ groups.values, slices ≠ []
  alike : ∀ slices ∈ groups.values, ∀ v ∈ slices, ∀ w ∈ slices,
    v.request_id = w.request_id ∧ v.public_graph_name = w.public_graph_name ∧ v.template_hash = w.template_hash
  ordered : ∀ slices ∈ groups.values, slices.Pairwise fun v w => v.slice_index ≤ w.slice_index
  consecutive : ∀ parent, (groups.values.filter fun slices =>
    slices.all fun w => decide (request_workflow_parent_id w = parent)).flatten = parent_slices workflows parent
  timely : ∀ slices ∈ groups.values, slices.length = 1 ∨ ∀ step limit, 0 < limit → Coalesced slices step limit →
    ∃ run, summed (step_run step) slices = some run ∧ run ≤ limit

-- The groups of one parent after another.
def parent_chunks (workflows : List WorkflowItem) : List (List WorkflowItem) :=
  (by_parent workflows).entries.flatMap fun parent => chunk_within_python_timeouts (parent.2.mergeSort slice_before)

-- A chunk is a part of its parent's slices.
theorem chunk_of_parent {workflows slices : List WorkflowItem} (member : slices ∈ parent_chunks workflows) :
    ∃ w ∈ workflows, slices ∈ chunk_within_python_timeouts (parent_slices workflows (request_workflow_parent_id w)) := by
  obtain ⟨parent,known,inside⟩ := List.mem_flatMap.mp member
  obtain ⟨_,w,own,key⟩ := mem_by_parent known
  refine ⟨w,own,?_⟩
  rwa [parent_slices,← key,← (by_parent_entry known).1]

theorem mem_parent_slices {workflows : List WorkflowItem} {parent : String} {v : WorkflowItem} :
    v ∈ parent_slices workflows parent ↔ v ∈ workflows ∧ request_workflow_parent_id v = parent := by
  rw [parent_slices,List.mem_mergeSort,List.mem_filter,decide_eq_true_eq]

theorem infix_of_chunk {ordered slices : List WorkflowItem} (member : slices ∈ chunk_within_python_timeouts ordered) :
    slices <:+: ordered := by
  obtain ⟨before,after,split⟩ := List.append_of_mem member
  refine ⟨before.flatten,after.flatten,?_⟩
  rw [← (chunk_spec ordered).1,split]
  simp

theorem grouped_values {size : Nat} {workflows : List WorkflowItem} (identified : ∀ w ∈ workflows, Identified size w)
    (few : workflows.length ≤ 10 ^ (size - 1)) : (grouped_workflows workflows).values = parent_chunks workflows := by
  rw [Dict.values,grouped_entries (keyed_chunks_distinct identified few),keyed_chunks,List.map_flatMap]
  exact congrArg (List.flatMap · _) (funext chunks_of_values)

theorem parent_chunks_perm (workflows : List WorkflowItem) : (parent_chunks workflows).flatten.Perm workflows := by
  refine List.Perm.trans ?_ (by_parent_perm workflows)
  rw [parent_chunks,Dict.values]
  induction (by_parent workflows).entries with
  | nil => exact .nil
  | cons parent rest ih =>
      rw [List.flatMap_cons,List.flatten_append,(chunk_spec _).1,List.map_cons,List.flatten_cons]
      exact (List.mergeSort_perm parent.2 _).append ih

-- Of the chunks of an entry, all are of the parent or none.
theorem entry_chunks_of_parent {workflows : List WorkflowItem} {e : String × List WorkflowItem}
    (known : e ∈ (by_parent workflows).entries) (parent : String) :
    (chunk_within_python_timeouts (e.2.mergeSort slice_before)).filter
        (fun slices => slices.all fun w => decide (request_workflow_parent_id w = parent)) =
      if e.1 = parent then chunk_within_python_timeouts (e.2.mergeSort slice_before) else [] := by
  have of_entry : ∀ slices ∈ chunk_within_python_timeouts (e.2.mergeSort slice_before), ∀ w ∈ slices,
      request_workflow_parent_id w = e.1 := by
    intro slices chunk w inside
    have listed := List.mem_mergeSort.mp ((infix_of_chunk chunk).subset inside)
    rw [(by_parent_entry known).1,List.mem_filter,decide_eq_true_eq] at listed
    exact listed.2
  split
  · rename_i same
    refine List.filter_eq_self.mpr fun slices chunk => List.all_eq_true.mpr fun w inside => ?_
    exact decide_eq_true ((of_entry slices chunk w inside).trans same)
  · rename_i different
    refine List.filter_eq_nil_iff.mpr fun slices chunk all_of => ?_
    obtain ⟨w,inside⟩ := List.exists_mem_of_ne_nil _ ((chunk_spec _).2 slices chunk).1
    exact different ((of_entry slices chunk w inside).symm.trans (of_decide_eq_true (List.all_eq_true.mp all_of w inside)))

theorem chunks_of_parent (workflows : List WorkflowItem) (parent : String) :
    ((parent_chunks workflows).filter fun slices => slices.all fun w => decide (request_workflow_parent_id w = parent)) =
      chunk_within_python_timeouts (parent_slices workflows parent) := by
  have at_parent : (by_parent workflows).entries.flatMap (fun e =>
      if e.1 = parent then chunk_within_python_timeouts (e.2.mergeSort slice_before) else []) =
      ((by_parent workflows).entries.filter fun e => decide (e.1 = parent)).flatMap fun e =>
        chunk_within_python_timeouts (e.2.mergeSort slice_before) := by
    induction (by_parent workflows).entries with
    | nil => rfl
    | cons e rest ih => by_cases same : e.1 = parent <;> simp [same,ih]
  rw [parent_chunks,List.filter_flatMap,List.flatMap_congr fun e known => entry_chunks_of_parent known parent,at_parent,
    Dict.entries_at,by_parent,Dict.get?_group,parent_slices]
  by_cases none_of : workflows.filter (fun w => decide (request_workflow_parent_id w = parent)) = []
  · simp [none_of,chunk_within_python_timeouts]
  · rw [if_neg none_of]
    simp

-- Every batch whose ids come apart again is partitioned.
theorem workflows_partitioned {size : Nat} {workflows : List WorkflowItem} (identified : ∀ w ∈ workflows, Identified size w)
    (few : workflows.length ≤ 10 ^ (size - 1))
    (measured : ∀ w ∈ workflows, ∀ op ∈ w.runtime_graph.nodes.values, timed op = true → Measured op) :
    Partitioned workflows (grouped_workflows workflows) := by
  have values := grouped_values identified few
  have of_group : ∀ slices ∈ (grouped_workflows workflows).values, ∃ w ∈ workflows,
      slices ∈ chunk_within_python_timeouts (parent_slices workflows (request_workflow_parent_id w)) :=
    fun slices member => chunk_of_parent (values ▸ member)
  have same_parent : ∀ slices ∈ (grouped_workflows workflows).values, ∀ v ∈ slices, ∀ w ∈ slices,
      v ∈ workflows ∧ w ∈ workflows ∧ request_workflow_parent_id v = request_workflow_parent_id w := by
    intro slices member v inside w inside'
    obtain ⟨u,_,chunk⟩ := of_group slices member
    obtain ⟨batch,own⟩ := mem_parent_slices.mp ((infix_of_chunk chunk).subset inside)
    obtain ⟨batch',own'⟩ := mem_parent_slices.mp ((infix_of_chunk chunk).subset inside')
    exact ⟨batch,batch',own.trans own'.symm⟩
  have alike : ∀ slices ∈ (grouped_workflows workflows).values, ∀ v ∈ slices, ∀ w ∈ slices,
      v.request_id = w.request_id ∧ v.public_graph_name = w.public_graph_name ∧ v.template_hash = w.template_hash := by
    intro slices member v inside w inside'
    obtain ⟨batch,batch',same⟩ := same_parent slices member v inside w inside'
    exact parent_alike (identified v batch) (identified w batch') same
  refine ⟨?_,?_,alike,?_,?_,?_⟩
  · rw [values]
    exact parent_chunks_perm workflows
  · intro slices member
    obtain ⟨w,_,chunk⟩ := of_group slices member
    exact ((chunk_spec _).2 slices chunk).1
  · intro slices member
    obtain ⟨w,_,chunk⟩ := of_group slices member
    have sorted := (slice_before_ranks.sorted _).sublist (infix_of_chunk chunk).sublist
    refine sorted.imp_of_mem fun first second before => ?_
    obtain ⟨request,graph,_⟩ := alike slices member _ first _ second
    exact slice_before_index request graph before
  · intro parent
    rw [values,chunks_of_parent]
    exact (chunk_spec _).1
  · intro slices member
    obtain ⟨w,_,chunk⟩ := of_group slices member
    rcases ((chunk_spec _).2 slices chunk).2 with single | ⟨load,known,small⟩
    · exact .inl single
    · refine .inr fun step limit positive coalesced => ?_
      have in_batch : ∀ u ∈ slices, u ∈ workflows := fun u here => (same_parent slices member u here u here).1
      obtain ⟨run,sum,below⟩ := chunk_run_bound known positive (fun u here => measured u (in_batch u here)) coalesced
      refine ⟨run,sum,below.trans ?_⟩
      calc load * limit ≤ 1 * limit := mul_le_mul_of_nonneg_right small (le_of_lt positive)
        _ = limit := one_mul _

-- A step of ten seconds a row with a limit of a minute, and a slice that runs it under its
-- own node id.
def timedStep (node_id : String) (rows : Spec) : RuntimeOp where
  node_id := node_id
  task_type := "python"
  backend := "python"
  model := ""
  data_spec := [("expected_runtime_s",.int 10),("timeout_s",.int 60)] ++ rows
  model_spec := []
  inference_spec := []

def batchSlice (request_id public_graph_name template_hash : String) (slice_index : Nat) (rows : Spec) : WorkflowItem where
  workflow_id := public_graph_name ++ toString slice_index
  request_id := request_id
  graph_name := public_graph_name
  public_graph_name := public_graph_name
  slice_index := slice_index
  slice_start := slice_index
  slice_length := 1
  total_length := 2
  template_hash := template_hash
  varying_input_keys := []
  runtime_graph :=
    let node_id := public_graph_name ++ toString slice_index ++ "__step"
    ⟨Dict.empty.set node_id (timedStep node_id rows),[node_id],Dict.empty,Dict.empty,Dict.empty⟩
  config := { user_id := "user", principal_id := "principal" }
  enqueued_at := 0

def threeRows : Spec := [("row_count",.int 3)]

theorem timedStep_measured {node_id : String} {rows : Spec} (known : rows = [] ∨ rows = threeRows) :
    Measured (timedStep node_id rows) := by
  have named : ∀ key, quantity (timedStep node_id rows) key = quantity (timedStep "" rows) key := fun _ => rfl
  rcases known with rfl | rfl
  · exact ⟨by rw [named]; decide +kernel,fun _ found => (nomatch found),by rw [named]; decide +kernel⟩
  · refine ⟨by rw [named]; decide +kernel,fun rows found => ?_,by rw [named]; decide +kernel⟩
    cases found
    decide +kernel

theorem batch_measured {batch : List WorkflowItem}
    (built : ∀ w ∈ batch, ∃ request graph digest idx rows, w = batchSlice request graph digest idx rows ∧ (rows = [] ∨ rows = threeRows)) :
    ∀ w ∈ batch, ∀ op ∈ w.runtime_graph.nodes.values, timed op = true → Measured op := by
  intro w member op inside _
  obtain ⟨request,graph,digest,idx,rows,rfl,known⟩ := built w member
  have only : op = timedStep _ rows := List.mem_singleton.mp inside
  exact only ▸ timedStep_measured known

def slicesReversed : List WorkflowItem := [batchSlice "r" "g" "d1" 1 threeRows,batchSlice "r" "g" "d1" 0 threeRows]

theorem workflows_partitioned_two : Partitioned slicesReversed (grouped_workflows slicesReversed) := by
  refine @workflows_partitioned 2 _ ?_ (by decide) (batch_measured ?_)
  · intro w member
    fin_cases member <;> exact ⟨by decide,by decide,by decide,by decide⟩
  · intro w member
    fin_cases member <;> exact ⟨_,_,_,_,_,rfl,.inr rfl⟩

-- Where the slices of every parent stand in order already, the sort changes nothing.
theorem grouped_sorted {workflows : List WorkflowItem}
    (sorted : ∀ parent ∈ (by_parent workflows).entries, parent.2.Pairwise fun v w => slice_before v w = true) :
    grouped_workflows workflows = ((by_parent workflows).entries.flatMap fun parent =>
      (chunk_within_python_timeouts parent.2).zipIdx.map fun chunk => (chunk_key parent.1 chunk.2,chunk.1)).foldl
        (fun grouped e => grouped.set e.1 e.2) Dict.empty := by
  rw [grouped_folds,keyed_chunks]
  refine congrArg (List.foldl _ Dict.empty ·) (List.flatMap_congr fun parent known => ?_)
  rw [chunks_of,List.mergeSort_of_pairwise (sorted parent known)]

theorem lost_not_partitioned {workflows : List WorkflowItem}
    (lost : (grouped_workflows workflows).values.flatten.length < workflows.length) :
    ¬ Partitioned workflows (grouped_workflows workflows) := fun partitioned =>
  Nat.ne_of_lt lost partitioned.once.length_eq

-- A request id that ends in a colon, a digest with the separator in it, and a digest as short as a number.
def colonRequests : List WorkflowItem := [batchSlice "a" ":b" "0" 0 threeRows,batchSlice "a:" "b" "0" 1 threeRows]
def colonDigests : List WorkflowItem :=
  [batchSlice "r" "g" "x::a" 0 [],batchSlice "r" "g" "x::a" 1 [],batchSlice "r" "g::x" "a::1" 0 []]
def shortDigests : List WorkflowItem :=
  [batchSlice "r" "g" "a" 0 [],batchSlice "r" "g" "a" 1 [],batchSlice "r" "g::a" "1" 0 []]

-- Requests without the separator, digests of one length, and yet requests mixed or workflows lost.
theorem ids_coincide :
    ((∀ w ∈ colonRequests, ¬ "::".toList <:+: w.request_id.toList ∧ w.template_hash.length = 1) ∧
      (∀ w ∈ colonRequests, ∀ op ∈ w.runtime_graph.nodes.values, timed op = true → Measured op) ∧
      ¬ Partitioned colonRequests (grouped_workflows colonRequests)) ∧
    ((∀ w ∈ colonDigests, ¬ "::".toList <:+: w.request_id.toList ∧ w.template_hash.length = 4) ∧
      (∀ w ∈ colonDigests, ∀ op ∈ w.runtime_graph.nodes.values, timed op = true → Measured op) ∧
      ¬ Partitioned colonDigests (grouped_workflows colonDigests)) ∧
    ((∀ w ∈ shortDigests, ¬ "::".toList <:+: w.request_id.toList ∧ w.template_hash.length = 1) ∧
      (∀ w ∈ shortDigests, ∀ op ∈ w.runtime_graph.nodes.values, timed op = true → Measured op) ∧
      ¬ Partitioned shortDigests (grouped_workflows shortDigests)) := by
  refine ⟨⟨by decide +kernel,batch_measured ?_,fun partitioned => ?_⟩,⟨by decide +kernel,batch_measured ?_,lost_not_partitioned ?_⟩,
    ⟨by decide +kernel,batch_measured ?_,lost_not_partitioned ?_⟩⟩
  · intro w member
    fin_cases member <;> exact ⟨_,_,_,_,_,rfl,.inr rfl⟩
  · have groups : (grouped_workflows colonRequests).values.map (List.map WorkflowItem.request_id) = [["a","a:"]] := by
      rw [grouped_sorted (by decide +kernel)]
      decide +kernel
    have mixed : ["a","a:"] ∈ (grouped_workflows colonRequests).values.map (List.map WorkflowItem.request_id) := by simp [groups]
    obtain ⟨slices,member,ids⟩ := List.mem_map.mp mixed
    obtain ⟨v,here,first⟩ := List.mem_map.mp (show "a" ∈ slices.map WorkflowItem.request_id by simp [ids])
    obtain ⟨w,there,second⟩ := List.mem_map.mp (show "a:" ∈ slices.map WorkflowItem.request_id by simp [ids])
    have same := (partitioned.alike slices member v here w there).1
    rw [first,second] at same
    exact absurd same (by decide)
  · intro w member
    fin_cases member <;> exact ⟨_,_,_,_,_,rfl,.inl rfl⟩
  · rw [grouped_sorted (by decide +kernel)]
    decide +kernel
  · intro w member
    fin_cases member <;> exact ⟨_,_,_,_,_,rfl,.inl rfl⟩
  · rw [grouped_sorted (by decide +kernel)]
    decide +kernel

end Lumilake.Server

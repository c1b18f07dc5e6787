import Lumilake.Utils.JobSummaries

namespace Lumilake.JobStorage

-- The two indexes after a history of saves.
def plain_after (saves : List JobSummary) : SummaryIndex := saves.foldl SummaryIndex.save SummaryIndex.empty

def rows_after {T : Type} (db : Sqlite T) (saves : List JobSummary) : List (Row T) := saves.foldl db.save []

namespace Sqlite
variable {T : Type} (db : Sqlite T)

@[simp] theorem row_to_summary_row_of (summary : JobSummary) : row_to_summary (db.row_of summary) = summary := rfl

-- The rows of the table are the rows of the summaries, in the order of the dict.
def Refines (rows : List (Row T)) (index : SummaryIndex) : Prop := rows = index.summaries.values.map db.row_of

theorem save_refines {rows : List (Row T)} {index : SummaryIndex} (refines : db.Refines rows index) (summary : JobSummary) :
    db.Refines (db.save rows summary) (index.save summary) := by
  have own := index.own
  have present : (rows.any fun row => decide (row.job_id = summary.job_id)) = true ↔ summary.job_id ∈ index.summaries.keys := by
    rw [refines,List.any_eq_true]
    constructor
    · rintro ⟨row,member,same⟩
      obtain ⟨stored,held,rfl⟩ := List.mem_map.mp member
      obtain ⟨e,entry,rfl⟩ := List.mem_map.mp held
      have same : e.2.job_id = summary.job_id := of_decide_eq_true same
      rw [← same,own e entry]
      exact Dict.mem_keys_of_entry entry
    · intro member
      obtain ⟨e,entry,same⟩ := List.mem_map.mp member
      refine ⟨db.row_of e.2,List.mem_map_of_mem (List.mem_map_of_mem entry),decide_eq_true ?_⟩
      exact (own e entry).trans same
  unfold Refines save
  by_cases known : summary.job_id ∈ index.summaries.keys
  · rw [if_pos (present.mpr known),refines]
    change _ = (index.summaries.set summary.job_id summary).values.map db.row_of
    unfold Dict.set Dict.values
    rw [dif_pos known]
    simp only [List.map_map]
    refine List.map_congr_left fun e entry => ?_
    have same : (db.row_of e.2).job_id = e.1 := own e entry
    by_cases here : e.1 = summary.job_id <;> simp [same,here]
  · rw [if_neg (fun found => known (present.mp found)),refines]
    change _ = (index.summaries.set summary.job_id summary).values.map db.row_of
    unfold Dict.values
    rw [Dict.entries_set_fresh known]
    simp

theorem refines_after (saves : List JobSummary) : db.Refines (rows_after db saves) (plain_after saves) := by
  unfold rows_after plain_after
  have start : db.Refines [] SummaryIndex.empty := rfl
  generalize ([] : List (Row T)) = rows at start
  generalize SummaryIndex.empty = index at start
  induction saves generalizing rows index with
  | nil => exact start
  | cons summary rest ih => exact ih _ _ (db.save_refines start summary)

end Sqlite

-- Summaries of one dict with the same job id are the same.
theorem same_job {index : SummaryIndex} {a b : JobSummary} (first : a ∈ index.summaries.values) (second : b ∈ index.summaries.values)
    (same : a.job_id = b.job_id) : a = b := by
  obtain ⟨e,entry,rfl⟩ := List.mem_map.mp first
  obtain ⟨f,entry',rfl⟩ := List.mem_map.mp second
  rw [index.own e entry,index.own f entry'] at same
  have held := Dict.get?_eq_some.mpr (show (e.1,e.2) ∈ index.summaries.entries from entry)
  have held' := Dict.get?_eq_some.mpr (show (f.1,f.2) ∈ index.summaries.entries from entry')
  rw [same] at held
  exact Option.some.inj (held.symm.trans held')

theorem same_key_job {index : SummaryIndex} {a b : JobSummary} (first : a ∈ index.summaries.values)
    (second : b ∈ index.summaries.values) : a.job_id ≤ b.job_id → b.job_id ≤ a.job_id → a = b :=
  fun forward backward => same_job first second (le_antisymm forward backward)

theorem mem_filtered {q : Query} {index : SummaryIndex} {a : JobSummary}
    (member : a ∈ SummaryIndex.filter_summaries q index.summaries.values) : a ∈ index.summaries.values :=
  (List.mem_filter.mp member).1

-- Both storages order by a time, then by job id, the greatest first.
def newest {K : Type} [LinearOrder K] (time : JobSummary → K) (a b : JobSummary) : Bool :=
  decide (time b < time a ∨ (time b = time a ∧ b.job_id ≤ a.job_id))

theorem newest_orders {K : Type} [LinearOrder K] (time : JobSummary → K) (q : Query) (index : SummaryIndex) :
    Sorting.Orders (newest time) (SummaryIndex.filter_summaries q index.summaries.values) where
  trans a b c := by
    unfold newest
    simp only [decide_eq_true_eq]
    rintro (first | ⟨first,ids⟩) (second | ⟨second,ids'⟩)
    · exact .inl (lt_trans second first)
    · exact .inl (second ▸ first)
    · exact .inl (first ▸ second)
    · exact .inr ⟨second.trans first,le_trans ids' ids⟩
  total a b := by
    unfold newest
    simp only [Bool.or_eq_true,decide_eq_true_eq]
    rcases lt_trichotomy (time a) (time b) with less | same | more
    · exact .inr (.inl less)
    · exact (le_total b.job_id a.job_id).imp (fun ids => .inr ⟨same.symm,ids⟩) (fun ids => .inr ⟨same,ids⟩)
    · exact .inl (.inl more)
  antisymm a first b second := by
    unfold newest
    simp only [decide_eq_true_eq]
    rintro (before | ⟨same,ids⟩) (after | ⟨same',ids'⟩)
    · exact absurd after (lt_asymm before)
    · exact absurd before (same' ▸ lt_irrefl _)
    · exact absurd after (same ▸ lt_irrefl _)
    · exact same_key_job (mem_filtered first) (mem_filtered second) ids' ids

-- Jobs submitted at different instants that round to one timestamp stand in the order of
-- their ids.
def Distinguished {T : Type} (db : Sqlite T) (summaries : List JobSummary) : Prop :=
  ∀ a ∈ summaries, ∀ b ∈ summaries, a.submitted_at < b.submitted_at → db.epoch a.submitted_at = db.epoch b.submitted_at →
    a.job_id < b.job_id

namespace Sqlite
variable {T : Type} (db : Sqlite T)

theorem matching_row (q : Query) (summary : JobSummary) : matching q (db.row_of summary) = SummaryIndex.keeps q summary := by
  unfold matching SummaryIndex.keeps
  by_cases nobody : q.job_ids = some ∅
  · simp [nobody]
  · rw [if_neg nobody]
    rfl

theorem filtered_rows (q : Query) (summaries : List JobSummary) :
    (summaries.map db.row_of).filter (matching q) = (SummaryIndex.filter_summaries q summaries).map db.row_of := by
  rw [List.filter_map,SummaryIndex.filter_summaries]
  congr 1
  exact List.filter_congr fun summary _ => db.matching_row q summary

variable [LinearOrder T]

theorem sorted_rows (summaries : List JobSummary) :
    ((summaries.map db.row_of).mergeSort not_older).map row_to_summary =
      summaries.mergeSort (newest fun summary => db.epoch summary.submitted_at) := by
  have sorted : (summaries.mergeSort (newest fun summary => db.epoch summary.submitted_at)).map db.row_of =
      (summaries.map db.row_of).mergeSort not_older := List.map_mergeSort (fun _ _ _ _ => rfl)
  rw [← sorted,List.map_map]
  exact List.map_id _

-- Sorting by the rounded timestamps is sorting by the instants, for distinguished jobs.
theorem same_order_iff (rounding : ∀ a b, a ≤ b → db.epoch a ≤ db.epoch b) (q : Query) (index : SummaryIndex) :
    SummaryIndex.sort_summaries (SummaryIndex.filter_summaries q index.summaries.values) =
        (SummaryIndex.filter_summaries q index.summaries.values).mergeSort (newest fun summary => db.epoch summary.submitted_at) ↔
      Distinguished db (SummaryIndex.filter_summaries q index.summaries.values) := by
  change List.mergeSort _ (newest JobSummary.submitted_at) = _ ↔ _
  rw [Sorting.same_sort_iff (newest_orders JobSummary.submitted_at q index)
    (newest_orders (fun summary => db.epoch summary.submitted_at) q index)]
  unfold newest
  simp only [decide_eq_true_eq]
  constructor
  · intro agrees a first b second earlier same
    rcases agrees b second a first (.inl earlier) with less | ⟨_,ids⟩
    · exact absurd less (same ▸ lt_irrefl _)
    · refine lt_of_le_of_ne ids fun equal => ?_
      rw [same_job (mem_filtered first) (mem_filtered second) equal] at earlier
      exact lt_irrefl _ earlier
  · intro distinguished a first b second before
    rcases before with earlier | ⟨same,ids⟩
    · rcases lt_or_eq_of_le (rounding _ _ (le_of_lt earlier)) with less | equal
      · exact .inl less
      · exact .inr ⟨equal,le_of_lt (distinguished b second a first earlier equal)⟩
    · exact .inr ⟨by rw [same],ids⟩

-- The page that a slice cuts out, for the pages there are.
theorem slice_page (items : List JobSummary) {page : Int} (real : 1 ≤ page) (page_size : Nat) :
    SummaryIndex.slice items ((page - 1) * page_size) ((page - 1) * page_size + page_size) =
      (items.drop ((max (page - 1) 0).toNat * page_size)).take page_size := by
  obtain ⟨before,same⟩ := Int.eq_ofNat_of_zero_le (show 0 ≤ page - 1 by omega)
  have start : ((page - 1) * (page_size : Int)) = ((before * page_size : Nat) : Int) := by rw [same]; push_cast; rfl
  have offset : (max (page - 1) 0).toNat = before := by rw [same]; simp
  unfold SummaryIndex.slice
  rw [offset,start]
  simp only [show ¬ (((before * page_size : Nat) : Int) < 0) by omega,
    show ¬ (((before * page_size : Nat) : Int) + page_size < 0) by omega,if_false]
  rw [List.drop_take]
  congr 1
  omega

-- What the listing of the SQLite storage returns, in terms of the plain index.
theorem list_rows (index : SummaryIndex) (q : Query) (page : Int) (page_size : Nat) :
    db.list_summaries (index.summaries.values.map db.row_of) q page page_size =
      if db.max_variables < where_params q + 2 then .error "too many SQL variables"
      else .ok ((((SummaryIndex.filter_summaries q index.summaries.values).mergeSort
          (newest fun summary => db.epoch summary.submitted_at)).drop ((max (page - 1) 0).toNat * page_size)).take page_size,
        (SummaryIndex.filter_summaries q index.summaries.values).length) := by
  unfold list_summaries execute
  rw [db.filtered_rows]
  by_cases few : db.max_variables < where_params q + 2
  · rw [if_pos few]
    split <;> rfl
  · simp only [few,show ¬ db.max_variables < where_params q by omega,if_false]
    simp only [bind,Except.bind,pure,Except.pure,List.map_take,List.map_drop,db.sorted_rows,List.length_map]

theorem list_agrees_iff (rounding : ∀ a b, a ≤ b → db.epoch a ≤ db.epoch b) (saves : List JobSummary) (q : Query) :
    (∀ page page_size, 1 ≤ page →
        db.list_summaries (rows_after db saves) q page page_size = .ok ((plain_after saves).list_summaries q page page_size)) ↔
      where_params q + 2 ≤ db.max_variables ∧
        Distinguished db (SummaryIndex.filter_summaries q (plain_after saves).summaries.values) := by
  rw [db.refines_after saves,← db.same_order_iff rounding q (plain_after saves)]
  constructor
  · intro agrees
    have first := agrees 1 (SummaryIndex.filter_summaries q (plain_after saves).summaries.values).length (by omega)
    rw [db.list_rows] at first
    by_cases few : db.max_variables < where_params q + 2
    · rw [if_pos few] at first
      cases first
    · rw [if_neg few] at first
      refine ⟨by omega,?_⟩
      have items := congrArg Prod.fst (Except.ok.inj first)
      unfold SummaryIndex.list_summaries at items
      simp only [slice_page _ (show (1 : Int) ≤ 1 by omega)] at items
      simp only [Int.sub_self,max_self,Int.toNat_zero,Nat.zero_mul,List.drop_zero] at items
      rw [List.take_of_length_le (by simp),List.take_of_length_le (by simp [SummaryIndex.sort_summaries])] at items
      exact items.symm
  · rintro ⟨few,same⟩ page page_size real
    rw [db.list_rows,if_neg (by omega)]
    unfold SummaryIndex.list_summaries
    dsimp only
    rw [slice_page _ real,← same]
    simp [SummaryIndex.sort_summaries]

theorem truthy_empty : truthy_set (some ∅) = none := rfl

theorem truthy_some {set : Finset String} (something : set ≠ ∅) : truthy_set (some set) = some set := by
  simp [truthy_set,something]

omit [LinearOrder T] in
theorem back_from_rows (summaries : List JobSummary) : (summaries.map db.row_of).map row_to_summary = summaries := by
  rw [List.map_map]
  exact List.map_id _

omit [LinearOrder T] in
theorem iter_rows (index : SummaryIndex) (statuses : Option (Finset String)) :
    db.iter_summaries (index.summaries.values.map db.row_of) statuses =
      if db.max_variables < statuses.elim 0 Finset.card then .error "too many SQL variables"
      else .ok ((truthy_set statuses).elim index.summaries.values
        (fun set => index.summaries.values.filter (fun summary => decide (summary.status ∈ set)))) := by
  have everything : db.execute 0 (index.summaries.values.map db.row_of) = .ok (index.summaries.values.map db.row_of) :=
    if_neg (Nat.not_lt_zero _)
  unfold iter_summaries
  cases statuses with
  | none =>
      change (db.execute 0 _ >>= _) = _
      rw [everything]
      exact congrArg Except.ok (db.back_from_rows _)
  | some set =>
      by_cases nothing : set = ∅
      · subst nothing
        change (db.execute 0 _ >>= _) = _
        rw [everything]
        exact congrArg Except.ok (db.back_from_rows _)
      · rw [truthy_some nothing]
        change (db.execute set.card ((index.summaries.values.map db.row_of).filter _) >>= _) =
          if db.max_variables < set.card then _ else _
        rw [List.filter_map,execute]
        by_cases few : db.max_variables < set.card
        · rw [if_pos few,if_pos few]
          rfl
        · rw [if_neg few,if_neg few]
          exact congrArg Except.ok (db.back_from_rows _)

theorem saved_something {saves : List JobSummary} (some_saved : saves ≠ []) : (plain_after saves).summaries.values ≠ [] := by
  obtain ⟨earlier,last,rfl⟩ := (List.eq_nil_or_concat' saves).resolve_left some_saved
  intro nothing
  have held : (last.job_id,last) ∈ ((plain_after earlier).save last).summaries.entries := Dict.mem_entries_set.mpr (.inr rfl)
  have member : last ∈ ((plain_after earlier).save last).summaries.values := List.mem_map_of_mem held
  have same : plain_after (earlier ++ [last]) = (plain_after earlier).save last := by simp [plain_after]
  rw [same] at nothing
  rw [nothing] at member
  exact List.not_mem_nil member

omit [LinearOrder T] in
theorem iter_agrees_iff (saves : List JobSummary) (statuses : Option (Finset String)) :
    db.iter_summaries (rows_after db saves) statuses = .ok ((plain_after saves).iter_summaries statuses) ↔
      statuses.elim 0 Finset.card ≤ db.max_variables ∧ (statuses = some ∅ → saves = []) := by
  rw [db.refines_after saves,db.iter_rows]
  by_cases few : db.max_variables < statuses.elim 0 Finset.card
  · rw [if_pos few]
    exact ⟨nofun,fun enough => absurd enough.1 (by omega)⟩
  · rw [if_neg few,and_iff_right (by omega),Except.ok.injEq]
    unfold SummaryIndex.iter_summaries
    cases statuses with
    | none => simp [truthy_set]
    | some set =>
        by_cases nothing : set = ∅
        · subst nothing
          rw [truthy_empty]
          constructor
          · intro same _
            refine Classical.byContradiction fun some_saved => saved_something some_saved ?_
            simpa using same
          · intro none_saved
            rw [none_saved rfl]
            rfl
        · rw [truthy_some nothing]
          simp [nothing]

end Sqlite

-- The two storages list the same pages just when the statement has no more parameters than
-- SQLite takes and rounding leaves the jobs in order; they iterate over the same jobs just
-- when, beyond that, the status set is not empty or nothing was saved.
theorem index_refines_iff {T : Type} [LinearOrder T] (db : Sqlite T) (rounding : ∀ a b, a ≤ b → db.epoch a ≤ db.epoch b)
    (saves : List JobSummary) (q : Query) (statuses : Option (Finset String)) :
    ((∀ page page_size, 1 ≤ page →
        db.list_summaries (rows_after db saves) q page page_size = .ok ((plain_after saves).list_summaries q page page_size)) ↔
      Sqlite.where_params q + 2 ≤ db.max_variables ∧
        Distinguished db (SummaryIndex.filter_summaries q (plain_after saves).summaries.values)) ∧
    (db.iter_summaries (rows_after db saves) statuses = .ok ((plain_after saves).iter_summaries statuses) ↔
      statuses.elim 0 Finset.card ≤ db.max_variables ∧ (statuses = some ∅ → saves = [])) :=
  ⟨db.list_agrees_iff rounding saves q,db.iter_agrees_iff saves statuses⟩

def savedJob : JobSummary := { job_id := "job-a", org_id := "org", user_id := "alice", status := "pending", submitted_at := 1000000 }

-- An index whose jobs were all submitted at whole seconds.
def wholeSeconds : Sqlite Int := ⟨fun instant => instant / 1000000,32766⟩

theorem whole_seconds_rounding : ∀ a b, a ≤ b → wholeSeconds.epoch a ≤ wholeSeconds.epoch b :=
  fun _ _ less => Int.ediv_le_ediv (by decide) less

-- Two jobs submitted together, a third in the same second, one of another user, and a second
-- save of the first.
def savedJobs : List JobSummary :=
  [savedJob,{ savedJob with job_id := "job-b" },{ savedJob with job_id := "job-d",submitted_at := 1500000 },
    { savedJob with job_id := "job-c",user_id := "bob" },{ savedJob with status := "running" }]

def alicesJobs : Query := { org_id := "org",user_id := some "alice",statuses := some {"pending","running"} }

theorem index_refines_iff_tie :
    (∀ page page_size, 1 ≤ page → wholeSeconds.list_summaries (rows_after wholeSeconds savedJobs) alicesJobs page page_size =
      .ok ((plain_after savedJobs).list_summaries alicesJobs page page_size)) ∧
    (((plain_after savedJobs).list_summaries alicesJobs 1 2).1.map JobSummary.job_id,
      ((plain_after savedJobs).list_summaries alicesJobs 2 2).1.map JobSummary.job_id) = (["job-d","job-b"],["job-a"]) ∧
    wholeSeconds.iter_summaries (rows_after wholeSeconds savedJobs) (some {"pending"}) =
      .ok ((plain_after savedJobs).iter_summaries (some {"pending"})) := by
  obtain ⟨pages,statuses⟩ := index_refines_iff wholeSeconds whole_seconds_rounding savedJobs alicesJobs (some {"pending"})
  refine ⟨pages.mpr ⟨by decide,?_⟩,?_,statuses.mpr ⟨by decide,fun same => absurd same (by decide)⟩⟩
  · unfold Distinguished
    decide +kernel
  · have listed : SummaryIndex.filter_summaries alicesJobs (plain_after savedJobs).summaries.values =
        [{ savedJob with status := "running" },{ savedJob with job_id := "job-b" },
          { savedJob with job_id := "job-d",submitted_at := 1500000 }] := by decide +kernel
    unfold SummaryIndex.list_summaries SummaryIndex.sort_summaries
    rw [listed]
    simp [List.mergeSort,List.MergeSort.Internal.splitInTwo,SummaryIndex.not_older,savedJob,SummaryIndex.slice]

-- The empty status set asks for nothing of the one storage and for everything of the other.
theorem empty_statuses_differ :
    ¬ ∀ saves statuses, wholeSeconds.iter_summaries (rows_after wholeSeconds saves) statuses =
      .ok ((plain_after saves).iter_summaries statuses) := by
  intro always
  have same := always [savedJob] (some ∅)
  exact absurd same (by decide)

end Lumilake.JobStorage

import Mathlib.Data.List.Flatten
import Mathlib.Data.Rat.Floor
import Lumilake.JobManager.Policies

namespace Lumilake.CohortPack
open Selection Policies

-- The order of the integers that evaluates.
local instance (priority := high) int_order : LinearOrder Int := Int.instLinearOrder
local instance (priority := high) int_preorder : Preorder Int := Int.instLinearOrder.toPreorder

abbrev Template := String

-- chain, round and template: a group of slices that can share one batch
abbrev Key := String ×ₗ Nat ×ₗ Template

def Key.chain (key : Key) : String := (ofLex key).1
def Key.round (key : Key) : Nat := (ofLex (ofLex key).2).1
def Key.template (key : Key) : Template := (ofLex (ofLex key).2).2

structure CohortPackArgs where
  fixed_seconds : Rat := 0
  mix_seconds : Rat := 0
  beta : Rat := 1
  area_to_seconds : Rat := 1
  gamma : Rat := 1
  batch_size : Nat := 10
  patience : Nat := 8

-- `power` is `**` on floats.
structure BatchCostModel where
  fixed_seconds : Rat
  mix_seconds : Rat
  beta : Rat
  area_to_seconds : Rat
  batch_size : Nat
  power : Rat → Rat → Rat

namespace BatchCostModel

def fixed (m : BatchCostModel) (area : Rat) : Rat := m.fixed_seconds / (m.area_to_seconds * max area (1/1000000000))
def mix (m : BatchCostModel) (area : Rat) : Rat := m.mix_seconds / (m.area_to_seconds * max area (1/1000000000))
def scale (m : BatchCostModel) (k : Rat) : Rat := m.power (max k 1 / (m.batch_size : Rat)) (m.beta - 1)

def per_work (m : BatchCostModel) (k n_d : Nat) (fixed mix : Rat) : Rat :=
  (fixed + mix * ((n_d : Rat) - 1)) / (k : Rat) + m.scale k

def time_of (m : BatchCostModel) (ready : Nat) (fixed : Rat) (n : Nat) : Rat :=
  fixed + ((ready : Rat) / (n : Rat)) * m.scale ((ready : Rat) / (n : Rat))

def lane_time (m : BatchCostModel) (ready : Nat) (fixed : Rat) (n : Nat) : Rat :=
  (n : Rat) * fixed + (ready : Rat) * m.scale ((ready : Rat) / (n : Rat))

-- `n` grows to `n_max` at most; the first argument is the room left.
def spread_from (m : BatchCostModel) (ready : Nat) (gamma fixed : Rat) : Nat → Nat → Nat
  | 0,n => n
  | room + 1,n =>
    if gamma * (m.lane_time ready fixed (n + 1) - m.lane_time ready fixed n) ≤
        m.time_of ready fixed n - m.time_of ready fixed (n + 1) then m.spread_from ready gamma fixed room (n + 1)
    else n

def spread_n (m : BatchCostModel) (ready n_max : Nat) (gamma fixed : Rat) : Nat :=
  let n := max 1 ((ready + m.batch_size - 1) / m.batch_size)
  m.spread_from ready gamma fixed (max n (min n_max ready) - n) n

end BatchCostModel

structure CohortUnit where
  members : List Key
  complete : Bool

-- What commits leave behind: the templates of every committed round of a chain, its
-- last round, the chains whose last round one is, and how wide that round went out.
structure History where
  history : Dict String (Dict Nat (Finset Template)) := Dict.empty
  last_round : Dict String Nat := Dict.empty
  chains_at : Dict Nat (List String) := Dict.empty
  width : Dict String Nat := Dict.empty
  free_lanes : Option Nat := none

abbrev Signature := List (Option (Finset Template))

-- One committed `(chain, round)` with its slice count and templates.
def commit_round (s : History) (entry : (String × Nat) × Nat × Finset Template) : History :=
  let ((chain,rnd),count,templates) := entry
  let history := (s.history.get? chain).getD Dict.empty
  let history := history.set rnd ((history.get? rnd).getD ∅ ∪ templates)
  let s := { s with history := s.history.set chain history }
  let previous := s.last_round.get? chain
  let latest := match previous with
    | none => rnd
    | some p => max p rnd
  let s := if some rnd = previous then { s with width := s.width.set chain (max ((s.width.get? chain).getD 0) count) }
    else if rnd = latest then { s with width := s.width.set chain count }
    else s
  if some latest = previous then s
  else
    let chains_at := match previous with
      | none => s.chains_at
      | some p => s.chains_at.set p (((s.chains_at.get? p).getD []).filter (· ≠ chain))
    let there := (chains_at.get? latest).getD []
    { s with
      chains_at := chains_at.set latest (if chain ∈ there then there else there ++ [chain])
      last_round := s.last_round.set chain latest }

def committed_rounds (workflows : List WorkflowItem) : Dict (String × Nat) (Nat × Finset Template) :=
  workflows.foldl (fun seen item =>
    let round_key := (chain_key item,item.config.chain_round)
    let (count,templates) := (seen.get? round_key).getD (0,∅)
    seen.set round_key (count + 1,insert item.template_hash templates)) Dict.empty

def on_commit (s : History) (workflows : List WorkflowItem) : History :=
  (committed_rounds workflows).entries.foldl commit_round s

def signature (s : History) (chain : String) (rnd : Nat) : Signature :=
  (List.range rnd).map (fun i => ((s.history.get? chain).getD Dict.empty).get? i)

abbrev Groups := Dict Key (List WorkflowItem)
abbrev Ready := Dict String Key

def group_key (item : WorkflowItem) : Key := toLex (chain_key item,toLex (item.config.chain_round,item.template_hash))

-- Candidates by key, each group in enqueue order.
def group_candidates (candidates : List WorkflowItem) : Groups :=
  (candidates.foldl (fun groups item =>
    groups.set (group_key item) ((groups.get? (group_key item)).getD [] ++ [item])) Dict.empty).mapValues (fun _ items =>
      items.mergeSort (fun a b => decide (toLex (a.enqueued_at,toLex (a.slice_index,a.workflow_id)) ≤
        toLex (b.enqueued_at,toLex (b.slice_index,b.workflow_id)))))

def slices (groups : Groups) (key : Key) : List WorkflowItem := (groups.get? key).getD []

def add_ready {κ : Type} [DecidableEq κ] (table : Dict κ Ready) (at_key : κ) (chain : String) (key : Key) : Dict κ Ready :=
  table.set at_key (((table.get? at_key).getD Dict.empty).set chain key)

def by_template (groups : Groups) : Dict (Template × Nat) Ready :=
  groups.keys.foldl (fun table key => add_ready table (key.template,key.round) key.chain key) Dict.empty

def by_signature (s : History) (rnd : Nat) (ready : Ready) : Dict Signature Ready :=
  ready.entries.foldl (fun table e => add_ready table (signature s e.1 rnd) e.1 e.2) Dict.empty

-- A chain is ready elsewhere when it has slices on another template or round only.
def ready_elsewhere (templates : Dict (Template × Nat) Ready) (template : Template) (rnd : Nat) (chain : String) : Bool :=
  templates.entries.any (fun e => decide (chain ∈ e.2)) &&
    !((templates.get? (template,rnd)).any (fun ready => decide (chain ∈ ready)))

def add_mate (s : History) (templates : Dict (Template × Nat) Ready) (template : Template) (rnd : Nat)
    (mates : Signature) (ready_chains : Ready) (width : Dict String Nat) (chain : String) : Dict String Nat :=
  if chain ∈ ready_chains ∨ signature s chain rnd ≠ mates then width
  else if ready_elsewhere templates template rnd chain then width
  else
    let known := (s.width.get? chain).getD 0
    width.set chain (if known = 0 then 1 else known)

def cohort_width (s : History) (groups : Groups) (templates : Dict (Template × Nat) Ready) (template : Template)
    (rnd : Nat) (mates : Signature) (ready_chains : Ready) : Dict String Nat :=
  let width := ready_chains.mapValues (fun _ key => (slices groups key).length)
  if rnd = 0 then width
  else ((s.chains_at.get? (rnd - 1)).getD []).foldl (add_mate s templates template rnd mates ready_chains) width

-- The cut so far: the open part with its size, and the closed parts.
structure Cut where
  part : List String := []
  size : Nat := 0
  parts_out : List (List String) := []

def cut_chain (width : Dict String Nat) (batch_size count : Nat) (target : Rat) (cut : Cut) (chain : String) : Cut :=
  let w := (width.get? chain).getD 0
  if cut.part ≠ [] ∧ (batch_size < cut.size + w ∨ (cut.parts_out.length + 1 < count ∧ target ≤ (cut.size : Rat))) then
    ⟨[chain],w,cut.parts_out ++ [cut.part]⟩
  else ⟨cut.part ++ [chain],cut.size + w,cut.parts_out⟩

def cut_cohort (width : Dict String Nat) (batch_size : Nat) : List (List String) :=
  let cohort := width.keys.mergeSort (fun a b => decide (a ≤ b))
  let total := width.values.foldl (· + ·) 0
  let count := max 1 ((total + batch_size - 1) / batch_size)
  let cut := cohort.foldl (cut_chain width batch_size count ((total : Rat) / (count : Rat))) {}
  if cut.part = [] then cut.parts_out else cut.parts_out ++ [cut.part]

def unit_of_part (ready_chains : Ready) (part : List String) : Option CohortUnit :=
  let members := part.filterMap ready_chains.get?
  if members = [] then none else some ⟨members,decide (members.length = part.length)⟩

-- Units of every cohort, from the current candidates and history.
def units (s : History) (groups : Groups) (batch_size : Nat) : List CohortUnit :=
  let templates := by_template groups
  templates.entries.flatMap (fun t =>
    (by_signature s t.1.2 t.2).entries.flatMap (fun mates =>
      (cut_cohort (cohort_width s groups templates t.1.1 t.1.2 mates.1 mates.2) batch_size).filterMap
        (unit_of_part mates.2)))

def unit_slices (groups : Groups) (keys : List Key) : List WorkflowItem := keys.flatMap (slices groups)

def first_enqueued (groups : Groups) (key : Key) : Time := (((slices groups key).head?).map WorkflowItem.enqueued_at).getD 0

-- A unit always has a member.
def first_member (u : CohortUnit) : Key := u.members.headD (toLex ("",toLex (0,"")))

def oldest (groups : Groups) (u : CohortUnit) : Time ×ₗ Key :=
  toLex (((u.members.map (first_enqueued groups)).min?).getD 0,first_member u)

def waited (groups : Groups) (u : CohortUnit) : Nat :=
  (((unit_slices groups u.members).map WorkflowItem.miss_count).max?).getD 0

-- Characters count backwards, so that the smaller chain id ranks first.
def passed_over (groups : Groups) (u : CohortUnit) : Nat ×ₗ List Int :=
  toLex (waited groups u,(first_member u).chain.toList.map (fun ch => -(ch.toNat : Int)))

def anchor_unit (patience : Nat) (groups : Groups) (ready : List CohortUnit) : Option CohortUnit :=
  let overdue := ready.filter (fun u => !u.complete && decide (patience < waited groups u))
  let complete := ready.filter CohortUnit.complete
  match overdue.argmax (passed_over groups) with
  | some top => (overdue.filter (fun u => decide (passed_over groups u = passed_over groups top))).argmin (oldest groups)
  | none => (if complete = [] then ready else complete).argmin
      (fun u => toLex (-(waited groups u : Int),oldest groups u))

-- `round(value, 9)`: to the nearest, a half to the even neighbour.
def round_nine (value : Rat) : Rat :=
  let scaled := value * 1000000000
  let low := scaled.floor
  let rest := scaled - (low : Rat)
  let nearest := if rest < 1/2 then low else if 1/2 < rest then low + 1 else if low % 2 = 0 then low else low + 1
  (nearest : Rat) / 1000000000

-- A whole ready round outside the anchor unit that still fits, with its rank in
-- enqueue order.
structure Atom where
  rank : Nat
  key : Key
  size : Nat

def atoms (groups : Groups) (members : List Key) (room : Nat) : List Atom :=
  let order := groups.keys.mergeSort (fun a b => decide (toLex (first_enqueued groups a,a) ≤ toLex (first_enqueued groups b,b)))
  ((order.zipIdx).filter (fun e => decide (e.1 ∉ members) && decide ((slices groups e.1).length ≤ room))).map
    (fun e => ⟨e.2,e.1,(slices groups e.1).length⟩)

def work_value (m : BatchCostModel) (groups : Groups) (keys : List Key) (distinct : Nat) (fixed mix : Rat) : Rat :=
  round_nine (m.per_work (unit_slices groups keys).length distinct fixed mix)

-- Units that lose some of their members, but not all, to the combination.
def broken_units (ready : List CohortUnit) (combo : List Atom) : Nat :=
  (ready.filter (fun u =>
    let took := (combo.filter (fun a => decide (a.key ∈ u.members))).length
    decide (0 < took) && decide (took < u.members.length))).length

structure Filling where
  score : Rat ×ₗ Nat ×ₗ Nat
  keys : List Key

def try_filling (m : BatchCostModel) (groups : Groups) (u : CohortUnit) (ready : List CohortUnit) (room : Nat)
    (fixed mix : Rat) (best : Filling) (combo : List Atom) : Filling :=
  if room < (combo.map Atom.size).foldl (· + ·) 0 then best
  else
    let keys := combo.map Atom.key
    let templates := (keys.map Key.template).toFinset.erase (first_member u).template
    let value := work_value m groups (u.members ++ keys) (1 + templates.card) fixed mix
    let score := toLex (value,toLex (broken_units ready combo,(combo.map Atom.rank).foldl (· + ·) 0))
    if score < best.score then ⟨score,keys⟩ else best

def filling (m : BatchCostModel) (groups : Groups) (u : CohortUnit) (ready : List CohortUnit) (batch_size : Nat)
    (fixed mix : Rat) : List Key :=
  let room := batch_size - (unit_slices groups u.members).length
  let found := atoms groups u.members room
  let alone : Filling := ⟨toLex (work_value m groups u.members 1 fixed mix,toLex (0,0)),[]⟩
  (([1,2,3].flatMap (fun count => combinations count found)).foldl
    (try_filling m groups u ready room fixed mix) alone).keys

-- How many slices of the anchor unit go out now: all, or a share when the free
-- lanes that would idle make it worth to spread them.
def spread_share (m : BatchCostModel) (gamma : Rat) (free_lanes : Option Nat) (ready out : Nat) (fixed : Rat) : Option Nat :=
  match free_lanes with
  | none => none
  | some lanes =>
    let avail := lanes - (ready - 1)
    if lanes ≤ 1 ∨ avail ≤ 1 then none
    else
      let spread := m.spread_n out (min avail out) gamma fixed
      if spread ≤ 1 then none else some (max 1 ((out + spread - 1) / spread))

def select_batch (m : BatchCostModel) (args : CohortPackArgs) (estimate_area : WorkflowItem → Option Rat) (s : History)
    (candidates : List WorkflowItem) (batch_size : Nat) : Except String (List String) :=
  if candidates = [] then .ok []
  else
    let groups := group_candidates candidates
    let ready := units s groups batch_size
    match anchor_unit args.patience groups ready with
    | none => .error "min() arg is an empty sequence"
    | some u =>
      let out := unit_slices groups u.members
      let area := match ((slices groups (first_member u)).head?).bind estimate_area with
        | some area => if area = 0 then 1 else area
        | none => 1
      match spread_share m args.gamma s.free_lanes ready.length out.length (m.fixed area) with
      | some share => .ok (((out.take share).map WorkflowItem.workflow_id).take batch_size)
      | none =>
        let out := if out.length < batch_size then
            out ++ unit_slices groups (filling m groups u ready batch_size (m.fixed area) (m.mix area))
          else out
        .ok ((out.take batch_size).map WorkflowItem.workflow_id)

def cost_model (args : CohortPackArgs) (power : Rat → Rat → Rat) : BatchCostModel :=
  ⟨args.fixed_seconds,args.mix_seconds,args.beta,args.area_to_seconds,args.batch_size,power⟩

def cohort_pack (args : CohortPackArgs) (power : Rat → Rat → Rat) (estimate_area : WorkflowItem → Option Rat) :
    SchedulingPolicy History where
  select_batch := fun s candidates batch_size =>
    (s,select_batch (cost_model args power) args estimate_area s candidates batch_size.toNat)
  on_commit := on_commit
  observe_free_lanes := fun s free_lanes => { s with free_lanes := free_lanes }

-- The groups hold every candidate once.
theorem group_candidates_perm (candidates : List WorkflowItem) :
    (group_candidates candidates).values.flatten.Perm candidates := by
  have loop : ∀ (items : List WorkflowItem) (groups : Groups),
      (items.foldl (fun groups item => groups.set (group_key item)
        ((groups.get? (group_key item)).getD [] ++ [item])) groups).values.flatten.Perm (groups.values.flatten ++ items) := by
    intro items
    induction items with
    | nil => intro groups; simp
    | cons item rest ih =>
        intro groups
        refine (ih _).trans ?_
        have one := (Dict.values_append_perm groups (group_key item) item).append_right rest
        simpa using one
  have sorted : ∀ (entries : List (Key × List WorkflowItem)) (le : WorkflowItem → WorkflowItem → Bool),
      ((entries.map (fun e => (e.1,e.2.mergeSort le))).map Prod.snd).flatten.Perm (entries.map Prod.snd).flatten := by
    intro entries le
    induction entries with
    | nil => simp
    | cons e rest ih =>
        simp only [List.map_cons,List.flatten_cons]
        exact (List.mergeSort_perm e.2 le).append ih
  have grouped := loop candidates Dict.empty
  rw [Dict.values_empty,List.flatten_nil,List.nil_append] at grouped
  exact (sorted _ _).trans grouped

-- Different keys bring different slices.
theorem unit_slices_subperm {groups : Groups} {keys : List Key} (distinct : keys.Nodup) (known : keys ⊆ groups.keys) :
    (unit_slices groups keys).Subperm groups.values.flatten := by
  obtain ⟨order,perm,sub⟩ := List.subperm_of_subset distinct known
  rw [← groups.flatMap_keys]
  exact ⟨unit_slices groups order,perm.flatMap_right _,sub.flatMap _⟩

-- Every entry of a table of ready chains is a group of the chain it stands under.
def Known {κ : Type} [DecidableEq κ] (groups : Groups) (table : Dict κ Ready) : Prop :=
  ∀ a ready, table.get? a = some ready → ∀ chain key, ready.get? chain = some key → key ∈ groups.keys ∧ key.chain = chain

theorem add_ready_known {κ : Type} [DecidableEq κ] {groups : Groups} {table : Dict κ Ready} (known : Known groups table)
    (member : key ∈ groups.keys) (own : key.chain = chain) (at_key : κ) :
    Known groups (add_ready table at_key chain key) := by
  intro a ready found c k here
  by_cases same : a = at_key
  · subst same
    rw [add_ready,Dict.get?_set_self] at found
    cases found
    by_cases mine : c = chain
    · subst mine
      rw [Dict.get?_set_self] at here
      cases here
      exact ⟨member,own⟩
    · rw [Dict.get?_set_ne _ _ mine] at here
      cases seen : table.get? a with
      | none => simp [seen] at here
      | some old =>
        rw [seen] at here
        exact known a old seen c k here
  · rw [add_ready,Dict.get?_set_ne _ _ same] at found
    exact known a ready found c k here

theorem by_template_known (groups : Groups) : Known groups (by_template groups) := by
  have loop : ∀ (keys : List Key) (table : Dict (Template × Nat) Ready), keys ⊆ groups.keys → Known groups table →
      Known groups (keys.foldl (fun table key => add_ready table (key.template,key.round) key.chain key) table) := by
    intro keys
    induction keys with
    | nil => exact fun _ _ known => known
    | cons key rest ih =>
        intro table inside known
        obtain ⟨first,later⟩ := List.cons_subset.mp inside
        exact ih _ later (add_ready_known known first rfl _)
  exact loop groups.keys Dict.empty (List.Subset.refl _) (by intro a ready found; cases found)

theorem by_signature_known {groups : Groups} {ready : Ready} (s : History) (rnd : Nat)
    (inside : ∀ chain key, ready.get? chain = some key → key ∈ groups.keys ∧ key.chain = chain) :
    Known groups (by_signature s rnd ready) := by
  have loop : ∀ (entries : List (String × Key)) (table : Dict Signature Ready), entries ⊆ ready.entries →
      Known groups table →
      Known groups (entries.foldl (fun table e => add_ready table (signature s e.1 rnd) e.1 e.2) table) := by
    intro entries
    induction entries with
    | nil => exact fun _ _ known => known
    | cons e rest ih =>
        intro table among known
        obtain ⟨first,later⟩ := List.cons_subset.mp among
        obtain ⟨member,own⟩ := inside e.1 e.2 (Dict.get?_eq_some.mpr first)
        exact ih _ later (add_ready_known known member own _)
  exact loop ready.entries Dict.empty (List.Subset.refl _) (by intro a ready found; cases found)

-- The cut divides the cohort and drops no chain.
theorem cut_cohort_flatten (width : Dict String Nat) (batch_size : Nat) :
    (cut_cohort width batch_size).flatten = width.keys.mergeSort (fun a b => decide (a ≤ b)) := by
  have loop : ∀ (count : Nat) (target : Rat) (chains : List String) (cut : Cut),
      ((chains.foldl (cut_chain width batch_size count target) cut).parts_out ++
        [(chains.foldl (cut_chain width batch_size count target) cut).part]).flatten =
      (cut.parts_out ++ [cut.part]).flatten ++ chains := by
    intro count target chains
    induction chains with
    | nil => intro cut; simp
    | cons chain rest ih =>
        intro cut
        rw [List.foldl_cons,ih]
        unfold cut_chain
        dsimp only
        split <;> simp
  unfold cut_cohort
  dsimp only
  generalize max 1 _ = count
  generalize (_ : Rat) / _ = target
  have all := loop count target (width.keys.mergeSort (fun a b => decide (a ≤ b))) {}
  split
  · rename_i closed
    rw [closed] at all
    simpa using all
  · simpa using all

-- A unit has different groups of the candidates as members.
theorem units_known {s : History} {groups : Groups} {batch_size : Nat} (ready : u ∈ units s groups batch_size) :
    u.members.Nodup ∧ u.members ⊆ groups.keys := by
  unfold units at ready
  obtain ⟨t,at_template,ready⟩ := List.mem_flatMap.mp ready
  obtain ⟨mates,at_signature,ready⟩ := List.mem_flatMap.mp ready
  obtain ⟨part,cut,ready⟩ := List.mem_filterMap.mp ready
  have inside := by_template_known groups t.1 t.2 (Dict.get?_eq_some.mpr at_template)
  have own := by_signature_known s t.1.2 inside mates.1 mates.2 (Dict.get?_eq_some.mpr at_signature)
  unfold unit_of_part at ready
  dsimp only at ready
  split at ready
  · cases ready
  · cases ready
    refine ⟨List.Nodup.filterMap ?_ ?_,?_⟩
    · intro chain other key here there
      exact (own _ _ here).2.symm.trans (own _ _ there).2
    · have whole := cut_cohort_flatten (cohort_width s groups (by_template groups) t.1.1 t.1.2 mates.1 mates.2) batch_size
      have apart := (List.mergeSort_perm (cohort_width s groups (by_template groups) t.1.1 t.1.2 mates.1 mates.2).keys
        (fun a b => decide (a ≤ b))).nodup_iff.mpr (Dict.keys_nodup _)
      rw [← whole] at apart
      exact apart.sublist (List.sublist_flatten_of_mem cut)
    · intro key member
      obtain ⟨chain,_,found⟩ := List.mem_filterMap.mp member
      exact (own _ _ found).1

theorem anchor_unit_ready {patience : Nat} {groups : Groups} {ready : List CohortUnit}
    (anchor : anchor_unit patience groups ready = some u) : u ∈ ready := by
  unfold anchor_unit at anchor
  dsimp only at anchor
  split at anchor
  · exact (List.mem_filter.mp (List.mem_filter.mp (List.argmin_mem anchor)).1).1
  · have chosen := List.argmin_mem anchor
    split at chosen
    · exact chosen
    · exact (List.mem_filter.mp chosen).1

theorem atoms_known (groups : Groups) (members : List Key) (room : Nat) :
    ((atoms groups members room).map Atom.key).Nodup ∧
      ∀ key ∈ (atoms groups members room).map Atom.key, key ∈ groups.keys ∧ key ∉ members := by
  unfold atoms
  dsimp only
  generalize sorted : groups.keys.mergeSort _ = order
  have perm : order.Perm groups.keys := sorted ▸ List.mergeSort_perm _ _
  have keys : ∀ (rows : List (Key × Nat)),
      (rows.map (fun e => (⟨e.2,e.1,(slices groups e.1).length⟩ : Atom))).map Atom.key = rows.map Prod.fst := by
    intro rows; simp
  rw [keys]
  constructor
  · have all : (order.zipIdx.map Prod.fst).Nodup := by
      rw [List.zipIdx_map_fst]
      exact perm.nodup_iff.mpr groups.keys_nodup
    exact all.sublist (List.filter_sublist.map _)
  · intro key member
    obtain ⟨e,row,rfl⟩ := List.mem_map.mp member
    obtain ⟨place,kept⟩ := List.mem_filter.mp row
    rw [Bool.and_eq_true,decide_eq_true_eq] at kept
    have known : e.1 ∈ order := List.fst_mem_of_mem_zipIdx place
    exact ⟨perm.mem_iff.mp known,kept.1⟩

theorem filling_known (m : BatchCostModel) (groups : Groups) (u : CohortUnit) (ready : List CohortUnit) (batch_size : Nat)
    (fixed mix : Rat) : (filling m groups u ready batch_size fixed mix).Nodup ∧
      ∀ key ∈ filling m groups u ready batch_size fixed mix, key ∈ groups.keys ∧ key ∉ u.members := by
  unfold filling
  dsimp only
  generalize batch_size - (unit_slices groups u.members).length = room
  obtain ⟨apart,known⟩ := atoms_known groups u.members room
  have loop : ∀ (combos : List (List Atom)) (best : Filling), (∀ combo ∈ combos, combo.Sublist (atoms groups u.members room)) →
      (best.keys.Nodup ∧ ∀ key ∈ best.keys, key ∈ groups.keys ∧ key ∉ u.members) →
      (combos.foldl (try_filling m groups u ready room fixed mix) best).keys.Nodup ∧
        ∀ key ∈ (combos.foldl (try_filling m groups u ready room fixed mix) best).keys,
          key ∈ groups.keys ∧ key ∉ u.members := by
    intro combos
    induction combos with
    | nil => exact fun _ _ kept => kept
    | cons combo rest ih =>
        intro best parts kept
        refine ih _ (fun c member => parts c (List.mem_cons_of_mem _ member)) ?_
        have sub := (parts combo List.mem_cons_self).map Atom.key
        unfold try_filling
        split
        · exact kept
        · dsimp only
          split
          · exact ⟨apart.sublist sub,fun key member => known key (sub.subset member)⟩
          · exact kept
  refine loop _ _ ?_ ⟨List.nodup_nil,by simp⟩
  intro combo member
  obtain ⟨count,_,inside⟩ := List.mem_flatMap.mp member
  exact combinations_sublist inside

theorem cohort_pack_ranks (args : CohortPackArgs) (power : Rat → Rat → Rat) (estimate_area : WorkflowItem → Option Rat) :
    (cohort_pack args power estimate_area).Ranks := by
  intro s candidates batch_size after ids _ _ chosen
  have whole := group_candidates_perm candidates
  have cut : ∀ (keys : List Key) (n : Nat), keys.Nodup → keys ⊆ (group_candidates candidates).keys →
      (((unit_slices (group_candidates candidates) keys).take n).map WorkflowItem.workflow_id).Subperm
        (candidates.map WorkflowItem.workflow_id) := fun keys n apart known =>
    map_subperm _ ((List.take_sublist n _).subperm.trans ((unit_slices_subperm apart known).trans whole.subperm))
  have chosen := congrArg Prod.snd chosen
  simp only [cohort_pack,select_batch] at chosen
  split at chosen
  · cases chosen
    exact ⟨List.nil_subperm,Nat.zero_le _⟩
  · split at chosen
    · cases chosen
    · rename_i u anchor
      obtain ⟨apart,known⟩ := units_known (anchor_unit_ready anchor)
      split at chosen
      · cases chosen
        exact ⟨(List.take_sublist _ _).subperm.trans (cut _ _ apart known),List.length_take_le _ _⟩
      · cases chosen
        refine ⟨?_,by rw [List.length_map]; exact List.length_take_le _ _⟩
        split
        · rw [unit_slices,unit_slices,← List.flatMap_append]
          have room := filling_known (cost_model args power) (group_candidates candidates) u
            (units s (group_candidates candidates) batch_size.toNat) batch_size.toNat
          refine cut _ _ ?_ ?_
          · exact List.nodup_append.mpr ⟨apart,(room _ _).1,fun key old other new same => ((room _ _).2 other new).2 (same ▸ old)⟩
          · exact List.append_subset.mpr ⟨known,fun key member => ((room _ _).2 key member).1⟩
        · exact cut _ _ apart known

end Lumilake.CohortPack

import Lumilake.JobManager.CohortPack

namespace Lumilake.CohortPack
open Selection Policies

-- A table of ready chains filled from items that name a place and a chain each.
section
variable {ι κ : Type} [DecidableEq κ] (place : ι → κ) (chain : ι → String) (key : ι → Key)

structure Tabulated (done : List ι) (table : Dict κ Ready) : Prop where
  perm : (table.values.flatMap Dict.values).Perm (done.map key)
  found : ∀ a c k, ((table.get? a).getD Dict.empty).get? c = some k ↔ ∃ i ∈ done, place i = a ∧ chain i = c ∧ key i = k
  placed : ∀ a ∈ table.keys, ∃ i ∈ done, place i = a

variable {place chain key}

theorem tabulated_step {done : List ι} {table : Dict κ Ready} (tabulated : Tabulated place chain key done table) (i : ι)
    (fresh : ∀ j ∈ done, place j = place i → chain j ≠ chain i) :
    Tabulated place chain key (done ++ [i]) (add_ready table (place i) (chain i) (key i)) := by
  have unknown : chain i ∉ ((table.get? (place i)).getD Dict.empty).keys := by
    intro member
    obtain ⟨k,known⟩ := Dict.mem_keys_iff.mp member
    obtain ⟨j,before,there,same,_⟩ := (tabulated.found _ _ _).mp known
    exact fresh j before there same
  refine ⟨?_,fun a c k => ?_,fun a member => ?_⟩
  · rw [List.map_append]
    refine (Dict.flatMap_set_perm table (place i) Dict.values ?_).trans (tabulated.perm.append_right _)
    have grown := congrArg (List.map Prod.snd) (Dict.entries_set_fresh unknown (key i))
    rw [List.map_append] at grown
    have same : ((table.get? (place i)).map Dict.values).getD [] = ((table.get? (place i)).getD Dict.empty).values := by
      cases table.get? (place i) <;> rfl
    rw [same]
    exact grown ▸ List.Perm.refl _
  · unfold add_ready
    by_cases here : a = place i
    · subst here
      rw [Dict.get?_set_self,Option.getD_some]
      by_cases mine : c = chain i
      · subst mine
        rw [Dict.get?_set_self,Option.some.injEq]
        constructor
        · rintro rfl
          exact ⟨i,List.mem_append_right _ List.mem_cons_self,rfl,rfl,rfl⟩
        · rintro ⟨j,member,there,same,rfl⟩
          rcases List.mem_append.mp member with before | now
          · exact absurd same (fresh j before there)
          · rw [List.mem_singleton.mp now]
      · rw [Dict.get?_set_ne _ _ mine,tabulated.found]
        constructor
        · rintro ⟨j,before,rest⟩
          exact ⟨j,List.mem_append_left _ before,rest⟩
        · rintro ⟨j,member,there,same,at_key⟩
          rcases List.mem_append.mp member with before | now
          · exact ⟨j,before,there,same,at_key⟩
          · rw [List.mem_singleton.mp now] at same
            exact absurd same.symm mine
    · rw [Dict.get?_set_ne _ _ here,tabulated.found]
      constructor
      · rintro ⟨j,before,rest⟩
        exact ⟨j,List.mem_append_left _ before,rest⟩
      · rintro ⟨j,member,there,same⟩
        rcases List.mem_append.mp member with before | now
        · exact ⟨j,before,there,same⟩
        · rw [List.mem_singleton.mp now] at there
          exact absurd there.symm here
  · rcases Dict.mem_keys_set.mp member with before | rfl
    · obtain ⟨j,inside,there⟩ := tabulated.placed a before
      exact ⟨j,List.mem_append_left _ inside,there⟩
    · exact ⟨i,List.mem_append_right _ List.mem_cons_self,rfl⟩

-- Items of different places or chains all find room.
theorem tabulated_all (items : List ι) (distinct : (items.map fun i => (place i,chain i)).Nodup) :
    Tabulated place chain key items
      (items.foldl (fun table i => add_ready table (place i) (chain i) (key i)) Dict.empty) := by
  induction items using List.reverseRecOn with
  | nil => exact ⟨List.Perm.refl _,fun a c k => by simp,fun a member => by cases member⟩
  | append_singleton items i ih =>
    rw [List.map_append,List.nodup_append] at distinct
    rw [List.foldl_append]
    refine tabulated_step (ih distinct.1) i fun j before there same => ?_
    exact distinct.2.2 _ (List.mem_map_of_mem before) _ (List.mem_map_of_mem List.mem_cons_self) (Prod.ext there same)

end

theorem key_ext {a b : Key} (chain : a.chain = b.chain) (rnd : a.round = b.round) (template : a.template = b.template) :
    a = b := by
  obtain ⟨a_chain,a_round,a_template⟩ := a
  obtain ⟨b_chain,b_round,b_template⟩ := b
  cases chain; cases rnd; cases template; rfl

theorem by_template_tabulated (groups : Groups) :
    Tabulated (fun key : Key => (key.template,key.round)) Key.chain id groups.keys (by_template groups) := by
  refine tabulated_all groups.keys (groups.keys_nodup.map fun a b same => ?_)
  obtain ⟨place,chain⟩ := Prod.ext_iff.mp same
  obtain ⟨template,rnd⟩ := Prod.ext_iff.mp place
  exact key_ext chain rnd template

theorem by_signature_tabulated (s : History) (rnd : Nat) (ready : Ready) :
    Tabulated (fun e : String × Key => signature s e.1 rnd) Prod.fst Prod.snd ready.entries (by_signature s rnd ready) := by
  refine tabulated_all ready.entries ?_
  have apart := ready.distinct
  have second : (ready.entries.map fun e => (signature s e.1 rnd,e.1)).map Prod.snd = ready.entries.map Prod.fst := by
    rw [List.map_map]
    rfl
  exact (second ▸ apart).of_map Prod.snd

-- The units cut from parts hold the ready chains of the parts, in their order.
theorem parts_members (ready_chains : Ready) (parts : List (List String)) :
    (parts.filterMap (unit_of_part ready_chains)).flatMap CohortUnit.members = parts.flatten.filterMap ready_chains.get? := by
  induction parts with
  | nil => rfl
  | cons part rest ih =>
      rw [List.flatten_cons,List.filterMap_append,← ih]
      unfold unit_of_part
      dsimp only
      by_cases nobody : part.filterMap ready_chains.get? = []
      · rw [List.filterMap_cons_none (by rw [if_pos nobody]),nobody,List.nil_append]
      · rw [List.filterMap_cons_some (by rw [if_neg nobody])]
        rfl

theorem add_mate_keys (s : History) (templates : Dict (Template × Nat) Ready) (template : Template) (rnd : Nat)
    (mates : Signature) (ready_chains : Ready) (width : Dict String Nat) (chain : String) :
    (∀ c ∈ (add_mate s templates template rnd mates ready_chains width chain).keys, c ∈ width.keys ∨
      (c = chain ∧ c ∉ ready_chains ∧ signature s c rnd = mates ∧ ready_elsewhere templates template rnd c = false)) ∧
    (∀ c ∈ width.keys, c ∈ (add_mate s templates template rnd mates ready_chains width chain).keys) ∧
    ∀ c ∈ ready_chains, (add_mate s templates template rnd mates ready_chains width chain).get? c = width.get? c := by
  unfold add_mate
  dsimp only
  split
  · exact ⟨fun c member => .inl member,fun c member => member,fun _ _ => rfl⟩
  · rename_i mate
    rw [not_or,not_not] at mate
    split
    · exact ⟨fun c member => .inl member,fun c member => member,fun _ _ => rfl⟩
    · rename_i here
      refine ⟨fun c member => ?_,fun c member => Dict.mem_keys_set.mpr (.inl member),fun c ready => ?_⟩
      · rcases Dict.mem_keys_set.mp member with old | rfl
        · exact .inl old
        · exact .inr ⟨rfl,mate.1,mate.2,by simpa using here⟩
      · refine Dict.get?_set_ne _ _ ?_
        rintro rfl
        exact mate.1 ready

-- A cohort: the ready chains as wide as their groups, and mates that are ready nowhere
-- else and share the signature.
theorem cohort_width_spec (s : History) (groups : Groups) (templates : Dict (Template × Nat) Ready) (template : Template)
    (rnd : Nat) (mates : Signature) (ready_chains : Ready) :
    (∀ c ∈ (cohort_width s groups templates template rnd mates ready_chains).keys, c ∈ ready_chains ∨
      (c ∉ ready_chains ∧ signature s c rnd = mates ∧ ready_elsewhere templates template rnd c = false)) ∧
    (∀ c ∈ ready_chains, c ∈ (cohort_width s groups templates template rnd mates ready_chains).keys) ∧
    ∀ c key, ready_chains.get? c = some key →
      (cohort_width s groups templates template rnd mates ready_chains).get? c = some (slices groups key).length := by
  have loop : ∀ (chains : List String) (width : Dict String Nat),
      (∀ c ∈ (chains.foldl (add_mate s templates template rnd mates ready_chains) width).keys, c ∈ width.keys ∨
        (c ∉ ready_chains ∧ signature s c rnd = mates ∧ ready_elsewhere templates template rnd c = false)) ∧
      (∀ c ∈ width.keys, c ∈ (chains.foldl (add_mate s templates template rnd mates ready_chains) width).keys) ∧
      ∀ c ∈ ready_chains, (chains.foldl (add_mate s templates template rnd mates ready_chains) width).get? c = width.get? c := by
    intro chains
    induction chains with
    | nil => exact fun width => ⟨fun c member => .inl member,fun c member => member,fun _ _ => rfl⟩
    | cons chain rest ih =>
        intro width
        obtain ⟨more,kept,same⟩ := ih (add_mate s templates template rnd mates ready_chains width chain)
        obtain ⟨one_more,one_kept,one_same⟩ := add_mate_keys s templates template rnd mates ready_chains width chain
        refine ⟨fun c member => ?_,fun c member => kept c (one_kept c member),fun c ready => (same c ready).trans (one_same c ready)⟩
        rcases more c member with before | mate
        · exact (one_more c before).imp id And.right
        · exact .inr mate
  have start : (ready_chains.mapValues fun _ key => (slices groups key).length).keys = ready_chains.keys := Dict.keys_mapValues _ _
  have own : ∀ c key, ready_chains.get? c = some key →
      (ready_chains.mapValues fun _ key => (slices groups key).length).get? c = some (slices groups key).length :=
    fun c key found => Dict.get?_mapValues found
  unfold cohort_width
  dsimp only
  split
  · exact ⟨fun c member => .inl (start ▸ member : c ∈ ready_chains.keys),fun c ready => (start.symm ▸ ready : _),own⟩
  · obtain ⟨more,kept,same⟩ := loop ((s.chains_at.get? (rnd - 1)).getD []) (ready_chains.mapValues fun _ key => (slices groups key).length)
    rw [start] at more kept
    exact ⟨more,kept,fun c key found =>
      (same c (Dict.mem_keys_iff.mpr ⟨key,found⟩)).trans (own c key found)⟩

theorem keys_filterMap (ready_chains : Ready) : ready_chains.keys.filterMap ready_chains.get? = ready_chains.values := by
  unfold Dict.keys Dict.values
  rw [List.filterMap_map,← List.filterMap_eq_map]
  refine List.filterMap_congr fun e member => ?_
  exact Dict.get?_eq_some.mpr member

-- Cutting a cohort that covers the ready chains divides them among the parts.
theorem cut_divides {ready_chains : Ready} {width : Dict String Nat} (covers : ∀ c ∈ ready_chains, c ∈ width.keys)
    (batch_size : Nat) : ((cut_cohort width batch_size).flatten.filterMap ready_chains.get?).Perm ready_chains.values := by
  have apart : (ready_chains.keys ++ width.keys.filter fun c => decide (c ∉ ready_chains.keys)).Nodup := by
    refine List.nodup_append.mpr ⟨ready_chains.keys_nodup,width.keys_nodup.filter _,fun c ready d other same => ?_⟩
    exact of_decide_eq_true (List.mem_filter.mp other).2 (same ▸ ready)
  have order : width.keys.Perm (ready_chains.keys ++ width.keys.filter fun c => decide (c ∉ ready_chains.keys)) := by
    rw [List.perm_ext_iff_of_nodup width.keys_nodup apart]
    intro c
    rw [List.mem_append,List.mem_filter,decide_eq_true_eq]
    constructor
    · intro member
      exact (em (c ∈ ready_chains.keys)).imp id fun other => ⟨member,other⟩
    · rintro (ready | ⟨member,_⟩)
      · exact covers c ready
      · exact member
  have nothing : (width.keys.filter fun c => decide (c ∉ ready_chains.keys)).filterMap ready_chains.get? = [] := by
    rw [List.filterMap_eq_nil_iff]
    intro c other
    exact Dict.get?_eq_none.mpr (of_decide_eq_true (List.mem_filter.mp other).2)
  have parts := ((List.mergeSort_perm width.keys (fun a b => decide (a ≤ b))).trans order).filterMap ready_chains.get?
  rwa [List.filterMap_append,nothing,List.append_nil,keys_filterMap,← cut_cohort_flatten width batch_size] at parts

def total_width (width : Dict String Nat) (part : List String) : Nat := (part.map fun c => (width.get? c).getD 0).sum

def Balanced (width : Dict String Nat) (batch_size : Nat) (part : List String) : Prop :=
  1 < part.length → total_width width part ≤ batch_size

-- Only a part of one chain may be wider than a batch.
theorem cut_balanced (width : Dict String Nat) (batch_size : Nat) :
    ∀ part ∈ cut_cohort width batch_size, Balanced width batch_size part := by
  have step : ∀ (count : Nat) (target : Rat) (cut : Cut) (chain : String),
      (cut.size = total_width width cut.part ∧ Balanced width batch_size cut.part ∧
        ∀ part ∈ cut.parts_out, Balanced width batch_size part) →
      (cut_chain width batch_size count target cut chain).size =
          total_width width (cut_chain width batch_size count target cut chain).part ∧
        Balanced width batch_size (cut_chain width batch_size count target cut chain).part ∧
        ∀ part ∈ (cut_chain width batch_size count target cut chain).parts_out, Balanced width batch_size part := by
    rintro count target cut chain ⟨size,opened,closed⟩
    unfold cut_chain
    dsimp only
    split
    · refine ⟨by simp [total_width],fun several => by simp at several,fun part member => ?_⟩
      rcases List.mem_append.mp member with before | now
      · exact closed part before
      · exact List.mem_singleton.mp now ▸ opened
    · rename_i kept
      have sum : total_width width (cut.part ++ [chain]) = cut.size + (width.get? chain).getD 0 := by
        rw [size]
        simp [total_width]
      refine ⟨sum.symm,fun several => ?_,closed⟩
      have some_chain : cut.part ≠ [] := by
        intro empty
        simp [empty] at several
      rw [sum]
      by_contra wider
      exact kept ⟨some_chain,.inl (by omega)⟩
  have loop : ∀ (count : Nat) (target : Rat) (chains : List String) (cut : Cut),
      (cut.size = total_width width cut.part ∧ Balanced width batch_size cut.part ∧
        ∀ part ∈ cut.parts_out, Balanced width batch_size part) →
      (chains.foldl (cut_chain width batch_size count target) cut).size =
          total_width width (chains.foldl (cut_chain width batch_size count target) cut).part ∧
        Balanced width batch_size (chains.foldl (cut_chain width batch_size count target) cut).part ∧
        ∀ part ∈ (chains.foldl (cut_chain width batch_size count target) cut).parts_out, Balanced width batch_size part := by
    intro count target chains
    induction chains with
    | nil => exact fun cut kept => kept
    | cons chain rest ih => exact fun cut kept => ih _ (step count target cut chain kept)
  intro part member
  unfold cut_cohort at member
  dsimp only at member
  obtain ⟨_,opened,closed⟩ := loop _ _ (width.keys.mergeSort (fun a b => decide (a ≤ b))) {}
    ⟨rfl,fun several => by simp at several,fun part none_yet => by cases none_yet⟩
  split at member
  · exact closed part member
  · rcases List.mem_append.mp member with before | last
    · exact closed part before
    · exact List.mem_singleton.mp last ▸ opened

-- Every group of the candidates is in one unit, once.
theorem units_perm (s : History) (groups : Groups) (batch_size : Nat) :
    ((units s groups batch_size).flatMap CohortUnit.members).Perm groups.keys := by
  have cohort : ∀ (t : (Template × Nat) × Ready) (mates : Signature × Ready),
      (((cut_cohort (cohort_width s groups (by_template groups) t.1.1 t.1.2 mates.1 mates.2) batch_size).filterMap
        (unit_of_part mates.2)).flatMap CohortUnit.members).Perm mates.2.values := by
    intro t mates
    rw [parts_members]
    exact cut_divides (cohort_width_spec s groups (by_template groups) t.1.1 t.1.2 mates.1 mates.2).2.1 batch_size
  have round_units : ∀ t : (Template × Nat) × Ready,
      (((by_signature s t.1.2 t.2).entries.flatMap fun mates =>
        (cut_cohort (cohort_width s groups (by_template groups) t.1.1 t.1.2 mates.1 mates.2) batch_size).filterMap
          (unit_of_part mates.2)).flatMap CohortUnit.members).Perm t.2.values := by
    intro t
    rw [List.flatMap_assoc]
    refine (List.Perm.flatMap_left _ fun mates _ => cohort t mates).trans ?_
    have table := (by_signature_tabulated s t.1.2 t.2).perm
    unfold Dict.values at table
    rwa [List.flatMap_map] at table
  unfold units
  dsimp only
  rw [List.flatMap_assoc]
  refine (List.Perm.flatMap_left _ fun t _ => round_units t).trans ?_
  have table := (by_template_tabulated groups).perm
  rw [List.map_id,Dict.values,List.flatMap_map] at table
  exact table

-- Where a unit comes from: the round it is on, the widths of the cohort and the part
-- of it that became the unit.
def CutAs (s : History) (groups : Groups) (batch_size : Nat) (u : CohortUnit) (template : Template) (rnd : Nat)
    (width : Dict String Nat) (part : List String) : Prop :=
  ∃ ready mates ready_chains, (by_template groups).get? (template,rnd) = some ready ∧
    (by_signature s rnd ready).get? mates = some ready_chains ∧
    width = cohort_width s groups (by_template groups) template rnd mates ready_chains ∧
    part ∈ cut_cohort width batch_size ∧ unit_of_part ready_chains part = some u

theorem mem_units {s : History} {groups : Groups} {batch_size : Nat} {u : CohortUnit} :
    u ∈ units s groups batch_size ↔ ∃ template rnd width part, CutAs s groups batch_size u template rnd width part := by
  unfold units CutAs
  dsimp only
  constructor
  · intro member
    obtain ⟨⟨⟨template,rnd⟩,ready⟩,at_template,member⟩ := List.mem_flatMap.mp member
    obtain ⟨⟨mates,ready_chains⟩,at_signature,member⟩ := List.mem_flatMap.mp member
    obtain ⟨part,cut,unit⟩ := List.mem_filterMap.mp member
    exact ⟨template,rnd,_,part,ready,mates,ready_chains,Dict.get?_eq_some.mpr at_template,
      Dict.get?_eq_some.mpr at_signature,rfl,cut,unit⟩
  · rintro ⟨template,rnd,_,part,ready,mates,ready_chains,at_template,at_signature,rfl,cut,unit⟩
    refine List.mem_flatMap.mpr ⟨((template,rnd),ready),Dict.get?_eq_some.mp at_template,?_⟩
    refine List.mem_flatMap.mpr ⟨(mates,ready_chains),Dict.get?_eq_some.mp at_signature,?_⟩
    exact List.mem_filterMap.mpr ⟨part,cut,unit⟩

-- The ready chains of one cohort are the groups of its round whose chain shares the signature.
theorem ready_chains_iff {s : History} {groups : Groups} {ready ready_chains : Ready}
    (at_template : (by_template groups).get? (template,rnd) = some ready)
    (at_signature : (by_signature s rnd ready).get? mates = some ready_chains) (chain : String) (key : Key) :
    ready_chains.get? chain = some key ↔
      key ∈ groups.keys ∧ key.chain = chain ∧ key.template = template ∧ key.round = rnd ∧ signature s chain rnd = mates := by
  have outer := (by_template_tabulated groups).found (template,rnd) chain key
  have inner := (by_signature_tabulated s rnd ready).found mates chain key
  rw [at_template,Option.getD_some] at outer
  rw [at_signature,Option.getD_some] at inner
  rw [inner]
  constructor
  · rintro ⟨⟨_,_⟩,entry,shared,rfl,rfl⟩
    obtain ⟨_,member,place,own,rfl⟩ := outer.mp (Dict.get?_eq_some.mpr entry)
    obtain ⟨on_template,on_round⟩ := Prod.ext_iff.mp place
    exact ⟨member,own,on_template,on_round,shared⟩
  · rintro ⟨member,own,on_template,on_round,shared⟩
    have known := outer.mpr ⟨key,member,Prod.ext on_template on_round,own,rfl⟩
    exact ⟨(chain,key),Dict.get?_eq_some.mp known,shared,rfl,rfl⟩

theorem filterMap_whole {α β : Type} (f : α → Option β) (l : List α) :
    (l.filterMap f).length = l.length ↔ ∀ a ∈ l, ∃ b, f a = some b := by
  induction l with
  | nil => simp
  | cons a rest ih =>
      have shorter := List.length_filterMap_le f rest
      cases found : f a with
      | none =>
          rw [List.filterMap_cons_none found,List.length_cons]
          refine iff_of_false (by omega) fun all => ?_
          obtain ⟨b,some_b⟩ := all a List.mem_cons_self
          rw [found] at some_b
          cases some_b
      | some b =>
          rw [List.filterMap_cons_some found,List.length_cons,List.length_cons,Nat.succ_inj,ih,List.forall_mem_cons]
          exact ⟨fun later => ⟨⟨b,found⟩,later⟩,And.right⟩

structure WellCut (groups : Groups) (batch_size : Nat) (u : CohortUnit) (template : Template) (rnd : Nat)
    (width : Dict String Nat) (part : List String) : Prop where
  filled : u.members ≠ []
  single : ∀ key ∈ u.members, key.chain ∈ part ∧ key.template = template ∧ key.round = rnd
  wide : ∀ chain ∈ part, ∀ key ∈ groups.keys, key.chain = chain → key.template = template → key.round = rnd →
    width.get? chain = some (slices groups key).length
  balanced : 1 < part.length → total_width width part ≤ batch_size
  complete : u.complete = true ↔
    ∀ chain ∈ part, ∃ key ∈ groups.keys, key.chain = chain ∧ key.template = template ∧ key.round = rnd

theorem cut_well {s : History} {groups : Groups} {batch_size : Nat}
    (cut : CutAs s groups batch_size u template rnd width part) : WellCut groups batch_size u template rnd width part := by
  obtain ⟨ready,mates,ready_chains,at_template,at_signature,rfl,inside,unit⟩ := cut
  have chains := ready_chains_iff at_template at_signature
  obtain ⟨cohort,_,widths⟩ := cohort_width_spec s groups (by_template groups) template rnd mates ready_chains
  have known : ∀ chain ∈ part, ∀ key ∈ groups.keys, key.chain = chain → key.template = template → key.round = rnd →
      ready_chains.get? chain = some key := by
    intro chain member key grouped own on_template on_round
    have whole := cut_cohort_flatten (cohort_width s groups (by_template groups) template rnd mates ready_chains) batch_size
    have listed : chain ∈ (cohort_width s groups (by_template groups) template rnd mates ready_chains).keys := by
      refine (List.mergeSort_perm _ (fun a b => decide (a ≤ b))).mem_iff.mp ?_
      rw [← whole]
      exact List.mem_flatten.mpr ⟨part,inside,member⟩
    have shared : signature s chain rnd = mates := by
      rcases cohort chain listed with here | ⟨_,shared,_⟩
      · obtain ⟨k,found⟩ := Dict.mem_keys_iff.mp here
        exact ((chains chain k).mp found).2.2.2.2
      · exact shared
    exact (chains chain key).mpr ⟨grouped,own,on_template,on_round,shared⟩
  unfold unit_of_part at unit
  dsimp only at unit
  split at unit
  · cases unit
  · rename_i some_member
    cases unit
    refine ⟨some_member,fun key member => ?_,fun chain member key grouped own on_template on_round => ?_,
      cut_balanced _ _ part inside,?_⟩
    · obtain ⟨chain,there,found⟩ := List.mem_filterMap.mp member
      obtain ⟨_,own,on_template,on_round,_⟩ := (chains chain key).mp found
      exact ⟨own ▸ there,on_template,on_round⟩
    · exact widths chain key (known chain member key grouped own on_template on_round)
    · rw [decide_eq_true_eq,filterMap_whole]
      refine forall₂_congr fun chain member => ⟨?_,?_⟩
      · rintro ⟨key,found⟩
        obtain ⟨grouped,own,on_template,on_round,_⟩ := (chains chain key).mp found
        exact ⟨key,grouped,own,on_template,on_round⟩
      · rintro ⟨key,grouped,own,on_template,on_round⟩
        exact ⟨key,known chain member key grouped own on_template on_round⟩

-- The group of a key holds the candidates of the key.
theorem group_get? (candidates : List WorkflowItem) (key : Key) :
    (candidates.foldl (fun groups item => groups.set (group_key item) ((groups.get? (group_key item)).getD [] ++ [item]))
      (Dict.empty : Groups)).get? key =
      if candidates.filter (fun item => decide (group_key item = key)) = [] then none
      else some (candidates.filter fun item => decide (group_key item = key)) :=
  Dict.get?_group group_key candidates key

theorem mem_group_keys (candidates : List WorkflowItem) (key : Key) :
    key ∈ (group_candidates candidates).keys ↔ ∃ item ∈ candidates, group_key item = key := by
  unfold group_candidates
  rw [Dict.keys_mapValues,Dict.mem_keys_iff]
  simp only [group_get?]
  by_cases nobody : candidates.filter (fun item => decide (group_key item = key)) = []
  · rw [if_pos nobody]
    refine iff_of_false ?_ ?_
    · rintro ⟨_,none_found⟩
      cases none_found
    · rintro ⟨item,member,own⟩
      exact List.filter_eq_nil_iff.mp nobody item member (decide_eq_true own)
  · rw [if_neg nobody]
    refine iff_of_true ⟨_,rfl⟩ ?_
    obtain ⟨item,member⟩ := List.exists_mem_of_ne_nil _ nobody
    exact ⟨item,(List.mem_filter.mp member).1,of_decide_eq_true (List.mem_filter.mp member).2⟩

theorem slices_perm (candidates : List WorkflowItem) (key : Key) :
    (slices (group_candidates candidates) key).Perm (candidates.filter fun item => decide (group_key item = key)) := by
  unfold slices
  by_cases nobody : candidates.filter (fun item => decide (group_key item = key)) = []
  · have absent : (group_candidates candidates).get? key = none := by
      rw [Dict.get?_eq_none,mem_group_keys]
      rintro ⟨item,member,own⟩
      exact List.filter_eq_nil_iff.mp nobody item member (decide_eq_true own)
    rw [absent,nobody]
    exact List.Perm.refl _
  · have found := (group_get? candidates key).trans (if_neg nobody)
    unfold group_candidates
    rw [Dict.get?_mapValues found,Option.getD_some]
    exact List.mergeSort_perm _ _

theorem slices_filled {candidates : List WorkflowItem} {key : Key} (known : key ∈ (group_candidates candidates).keys) :
    slices (group_candidates candidates) key ≠ [] := by
  obtain ⟨item,member,own⟩ := (mem_group_keys candidates key).mp known
  intro empty
  have perm := slices_perm candidates key
  rw [empty] at perm
  have listed := perm.symm.mem_iff.mp (List.mem_filter.mpr ⟨member,decide_eq_true own⟩)
  cases listed

theorem argmin_some {α β : Type} [LinearOrder β] (f : α → β) {l : List α} (filled : l ≠ []) : ∃ a, l.argmin f = some a := by
  cases found : l.argmin f with
  | none => exact absurd (List.argmin_eq_none.mp found) filled
  | some a => exact ⟨a,rfl⟩

-- Some unit is always picked where there is one.
theorem anchor_unit_some (patience : Nat) (groups : Groups) {ready : List CohortUnit} (filled : ready ≠ []) :
    ∃ u, anchor_unit patience groups ready = some u := by
  unfold anchor_unit
  dsimp only
  split
  · rename_i top picked
    refine argmin_some _ fun nobody => ?_
    exact List.filter_eq_nil_iff.mp nobody top (List.argmax_mem picked) (decide_eq_true rfl)
  · refine argmin_some _ ?_
    split
    · exact filled
    · assumption

theorem spread_share_pos {m : BatchCostModel} {gamma fixed : Rat} {free_lanes : Option Nat}
    (spread : spread_share m gamma free_lanes ready out fixed = some share) : 1 ≤ share := by
  unfold spread_share at spread
  cases free_lanes with
  | none => cases spread
  | some lanes =>
      dsimp only at spread
      split at spread
      · cases spread
      · split at spread
        · cases spread
        · cases spread
          exact Nat.le_max_left _ _

theorem select_batch_filled (m : BatchCostModel) (args : CohortPackArgs) (estimate_area : WorkflowItem → Option Rat)
    (s : History) {candidates : List WorkflowItem} {batch_size : Nat} (some_candidate : candidates ≠ []) (some_room : 1 ≤ batch_size) :
    ∃ ids, select_batch m args estimate_area s candidates batch_size = .ok ids ∧ ids ≠ [] := by
  have filled : units s (group_candidates candidates) batch_size ≠ [] := by
    intro nothing
    obtain ⟨item,member⟩ := List.exists_mem_of_ne_nil _ some_candidate
    have known := (mem_group_keys candidates (group_key item)).mpr ⟨item,member,rfl⟩
    have perm := units_perm s (group_candidates candidates) batch_size
    rw [nothing] at perm
    cases perm.mem_iff.mpr known
  obtain ⟨u,anchor⟩ := anchor_unit_some args.patience (group_candidates candidates) filled
  have listed := anchor_unit_ready anchor
  obtain ⟨template,rnd,width,part,cut⟩ := mem_units.mp listed
  obtain ⟨first,rest,members⟩ := List.exists_cons_of_ne_nil (cut_well cut).filled
  have known : first ∈ (group_candidates candidates).keys :=
    (units_known listed).2 (members ▸ List.mem_cons_self)
  have out_filled : 0 < (unit_slices (group_candidates candidates) u.members).length := by
    rw [unit_slices,members,List.flatMap_cons,List.length_append]
    have := List.length_pos_of_ne_nil (slices_filled known)
    omega
  have cut_filled : ∀ (out : List WorkflowItem) (n : Nat), 0 < out.length → 1 ≤ n →
      (out.take n).map WorkflowItem.workflow_id ≠ [] := by
    intro out n longer room empty
    have := congrArg List.length empty
    rw [List.length_map,List.length_take,List.length_nil] at this
    omega
  unfold select_batch
  rw [if_neg some_candidate]
  dsimp only
  rw [anchor]
  dsimp only
  split
  · rename_i share spread
    refine ⟨_,rfl,?_⟩
    rw [← List.map_take,List.take_take]
    refine cut_filled _ _ out_filled ?_
    have some_share := spread_share_pos spread
    omega
  · refine ⟨_,rfl,?_⟩
    split
    · refine cut_filled _ _ ?_ some_room
      rw [List.length_append]
      omega
    · exact cut_filled _ _ out_filled some_room

-- The units of any candidates and history, and the batch that comes of them.
theorem units_exact (args : CohortPackArgs) (power : Rat → Rat → Rat) (estimate_area : WorkflowItem → Option Rat)
    (s : History) (candidates : List WorkflowItem) (batch_size : Int) (some_room : 1 ≤ batch_size) :
    let groups := group_candidates candidates
    let ready := units s groups batch_size.toNat
    (∀ key, key ∈ groups.keys ↔ ∃ item ∈ candidates, group_key item = key) ∧
    (ready.flatMap CohortUnit.members).Perm groups.keys ∧
    (∀ u ∈ ready, ∃ template rnd width part, CutAs s groups batch_size.toNat u template rnd width part) ∧
    (∀ u template rnd width part, CutAs s groups batch_size.toNat u template rnd width part →
      WellCut groups batch_size.toNat u template rnd width part) ∧
    (candidates ≠ [] → (candidates.map WorkflowItem.workflow_id).Nodup →
      ∃ ids, ((cohort_pack args power estimate_area).select_batch s candidates batch_size).2 = .ok ids ∧
        ids ≠ [] ∧ ids.Nodup ∧ ids ⊆ candidates.map WorkflowItem.workflow_id ∧ ids.length ≤ batch_size.toNat) := by
  refine ⟨mem_group_keys candidates,units_perm _ _ _,fun u member => mem_units.mp member,fun _ _ _ _ _ cut => cut_well cut,
    fun some_candidate distinct => ?_⟩
  obtain ⟨ids,chosen,filled⟩ := select_batch_filled (cost_model args power) args estimate_area s some_candidate
    (show 1 ≤ batch_size.toNat by omega)
  obtain ⟨within,fits⟩ := cohort_pack_ranks args power estimate_area s candidates batch_size s ids distinct some_room
    (Prod.ext rfl chosen)
  exact ⟨ids,chosen,filled,nodup_of_subperm within distinct,within.subset,fits⟩

def chainSlice (chain : String) : WorkflowItem where
  workflow_id := chain
  request_id := chain
  graph_name := "graph"
  public_graph_name := "graph"
  slice_index := 0
  slice_start := 0
  slice_length := 1
  total_length := 1
  template_hash := "hash"
  varying_input_keys := []
  runtime_graph := ⟨Dict.empty,[],Dict.empty,Dict.empty,Dict.empty⟩
  config := { user_id := "user", principal_id := "principal" }
  enqueued_at := 0

theorem units_exact_two_chains :
    ((units {} (group_candidates [chainSlice "a",chainSlice "b"]) 2).flatMap CohortUnit.members).Perm
        (group_candidates [chainSlice "a",chainSlice "b"]).keys ∧
      ∃ ids, ((cohort_pack {} (fun a _ => a) (fun _ => none)).select_batch {} [chainSlice "a",chainSlice "b"] 2).2 = .ok ids ∧
        ids ≠ [] ∧ ids.Nodup ∧ ids ⊆ ["a","b"] ∧ ids.length ≤ 2 := by
  obtain ⟨_,perm,_,_,batch⟩ := units_exact {} (fun a _ => a) (fun _ => none) {} [chainSlice "a",chainSlice "b"] 2 (by decide)
  exact ⟨perm,batch (by simp) (by decide)⟩

end Lumilake.CohortPack

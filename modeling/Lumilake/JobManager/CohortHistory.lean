import Lumilake.JobManager.CohortPack

namespace Lumilake.CohortPack
open Policies

-- One entry that a commit hands to the maps: chain and round, with slice count and templates.
abbrev Commit := (String × Nat) × Nat × Finset Template

def rounds (log : List Commit) (chain : String) : List Nat :=
  (log.filter fun e => decide (e.1.1 = chain)).map fun e => e.1.2

def widest (log : List Commit) (round_key : String × Nat) : Nat :=
  (log.filter fun e => decide (e.1 = round_key)).foldl (fun w e => max w e.2.1) 0

def templates_at (log : List Commit) (round_key : String × Nat) : Finset Template :=
  (log.filter fun e => decide (e.1 = round_key)).foldl (fun t e => t ∪ e.2.2) ∅

def recorded_templates (s : History) (chain : String) (rnd : Nat) : Option (Finset Template) :=
  ((s.history.get? chain).getD Dict.empty).get? rnd

def chains_of (s : History) (rnd : Nat) : List String := (s.chains_at.get? rnd).getD []

-- What the four maps say of the entries handed over so far.
structure Mirrors (log : List Commit) (s : History) : Prop where
  last : ∀ chain, s.last_round.get? chain = (rounds log chain).max?
  index : ∀ chain rnd, chain ∈ chains_of s rnd ↔ s.last_round.get? chain = some rnd
  once : ∀ rnd, (chains_of s rnd).Nodup
  width : ∀ chain, s.width.get? chain = (s.last_round.get? chain).map fun rnd => widest log (chain,rnd)
  history : ∀ chain rnd, recorded_templates s chain rnd =
    if rnd ∈ rounds log chain then some (templates_at log (chain,rnd)) else none

def raised : Option Nat → Nat → Nat
  | none,rnd => rnd
  | some previous,rnd => max previous rnd

theorem raised_none (rnd : Nat) : raised none rnd = rnd := rfl
theorem raised_some (p rnd : Nat) : raised (some p) rnd = max p rnd := rfl

theorem max?_concat (l : List Nat) (rnd : Nat) : (l ++ [rnd]).max? = some (raised l.max? rnd) := by
  cases l with
  | nil => rfl
  | cons first rest => rw [List.cons_append,List.max?_cons',List.max?_cons',List.foldl_append]; rfl

theorem rounds_concat (log : List Commit) (e : Commit) (chain : String) :
    rounds (log ++ [e]) chain = if e.1.1 = chain then rounds log chain ++ [e.1.2] else rounds log chain := by
  unfold rounds
  by_cases own : e.1.1 = chain <;> simp [List.filter_append,own]

theorem widest_concat (log : List Commit) (e : Commit) (round_key : String × Nat) :
    widest (log ++ [e]) round_key = if e.1 = round_key then max (widest log round_key) e.2.1 else widest log round_key := by
  unfold widest
  by_cases own : e.1 = round_key <;> simp [List.filter_append,own]

theorem templates_concat (log : List Commit) (e : Commit) (round_key : String × Nat) :
    templates_at (log ++ [e]) round_key =
      if e.1 = round_key then templates_at log round_key ∪ e.2.2 else templates_at log round_key := by
  unfold templates_at
  by_cases own : e.1 = round_key <;> simp [List.filter_append,own]

theorem mem_rounds {log : List Commit} : rnd ∈ rounds log chain ↔ ∃ e ∈ log, e.1 = (chain,rnd) := by
  simp only [rounds,List.mem_map,List.mem_filter,decide_eq_true_eq,Prod.ext_iff]
  exact ⟨fun ⟨e,⟨member,own⟩,same⟩ => ⟨e,member,own,same⟩,fun ⟨e,member,own,same⟩ => ⟨e,⟨member,own⟩,same⟩⟩

theorem fresh_round {log : List Commit} (fresh : rnd ∉ rounds log chain) :
    widest log (chain,rnd) = 0 ∧ templates_at log (chain,rnd) = ∅ := by
  have nothing : (log.filter fun e => decide (e.1 = (chain,rnd))) = [] := by
    rw [List.filter_eq_nil_iff]
    intro e member own
    exact fresh (mem_rounds.mpr ⟨e,member,by simpa using own⟩)
  unfold widest templates_at
  rw [nothing]
  exact ⟨rfl,rfl⟩

-- What one entry does to each map.
section
variable (s : History) (chain : String) (rnd count : Nat) (templates : Finset Template)

def width_after : Dict String Nat :=
  if some rnd = s.last_round.get? chain then s.width.set chain (max ((s.width.get? chain).getD 0) count)
  else if rnd = raised (s.last_round.get? chain) rnd then s.width.set chain count
  else s.width

def left_round (previous : Option Nat) : Dict Nat (List String) :=
  match previous with
  | none => s.chains_at
  | some p => s.chains_at.set p (((s.chains_at.get? p).getD []).filter (· ≠ chain))

def joined (chains_at : Dict Nat (List String)) (rnd : Nat) : Dict Nat (List String) :=
  chains_at.set rnd (if chain ∈ (chains_at.get? rnd).getD [] then (chains_at.get? rnd).getD []
    else (chains_at.get? rnd).getD [] ++ [chain])

theorem commit_round_eq : commit_round s ((chain,rnd),count,templates) =
    { history := s.history.set chain (((s.history.get? chain).getD Dict.empty).set rnd
        ((recorded_templates s chain rnd).getD ∅ ∪ templates))
      last_round :=
        if some (raised (s.last_round.get? chain) rnd) = s.last_round.get? chain then s.last_round
        else s.last_round.set chain (raised (s.last_round.get? chain) rnd)
      chains_at :=
        if some (raised (s.last_round.get? chain) rnd) = s.last_round.get? chain then s.chains_at
        else joined chain (left_round s chain (s.last_round.get? chain)) (raised (s.last_round.get? chain) rnd)
      width := width_after s chain rnd count
      free_lanes := s.free_lanes } := by
  unfold commit_round width_after joined left_round recorded_templates
  dsimp only
  generalize s.last_round.get? chain = previous
  cases previous with
  | none =>
      simp only [raised_none,reduceCtorEq,if_false,if_true]
      rfl
  | some p =>
      rw [raised_some]
      by_cases same : some (max p rnd) = some p
      · simp only [if_pos same]
        split_ifs <;> rfl
      · simp only [if_neg same]
        split_ifs <;> rfl

end

variable {log : List Commit} {s : History}

theorem last_after (mirrors : Mirrors log s) (e : Commit) (chain : String) :
    (commit_round s e).last_round.get? chain = (rounds (log ++ [e]) chain).max? := by
  obtain ⟨⟨own,rnd⟩,count,templates⟩ := e
  rw [commit_round_eq,rounds_concat]
  dsimp only
  by_cases mine : own = chain
  · subst mine
    rw [if_pos rfl,max?_concat,← mirrors.last]
    split
    · rename_i same; exact same.symm
    · exact Dict.get?_set_self _ _ _
  · rw [if_neg mine,← mirrors.last]
    split
    · rfl
    · exact Dict.get?_set_ne _ _ (Ne.symm mine)

-- The index moves a chain from its previous last round to the new one.
theorem index_after (mirrors : Mirrors log s) (e : Commit) (chain : String) (rnd : Nat) :
    chain ∈ chains_of (commit_round s e) rnd ↔ (commit_round s e).last_round.get? chain = some rnd := by
  obtain ⟨⟨own,at_round⟩,count,templates⟩ := e
  have left : ∀ r, chain ∈ ((left_round s own (s.last_round.get? own)).get? r).getD [] ↔
      chain ≠ own ∧ s.last_round.get? chain = some r := by
    intro r
    rw [← mirrors.index chain r]
    unfold chains_of
    cases previous : s.last_round.get? own with
    | none =>
        refine ⟨fun member => ⟨?_,member⟩,And.right⟩
        rintro rfl
        have known := (mirrors.index chain r).mp member
        rw [previous] at known
        cases known
    | some p =>
        dsimp only [left_round]
        by_cases here : r = p
        · subst here
          rw [Dict.get?_set_self]
          simp [and_comm]
        · rw [Dict.get?_set_ne _ _ here]
          refine ⟨fun member => ⟨?_,member⟩,And.right⟩
          rintro rfl
          have known := (mirrors.index chain r).mp member
          rw [previous] at known
          exact here (Option.some.inj known).symm
  rw [commit_round_eq]
  unfold chains_of
  dsimp only
  split
  · exact mirrors.index chain rnd
  · unfold joined
    by_cases mine : chain = own
    · subst mine
      rw [Dict.get?_set_self,Option.some.injEq]
      by_cases here : rnd = raised (s.last_round.get? chain) at_round
      · subst here
        rw [Dict.get?_set_self,Option.getD_some]
        refine iff_of_true ?_ rfl
        split
        · assumption
        · exact List.mem_append_right _ List.mem_cons_self
      · rw [Dict.get?_set_ne _ _ here,left rnd]
        exact iff_of_false (fun h => h.1 rfl) (fun h => here h.symm)
    · rw [Dict.get?_set_ne _ _ mine]
      by_cases here : rnd = raised (s.last_round.get? own) at_round
      · subst here
        rw [Dict.get?_set_self,Option.getD_some]
        have moved := left (raised (s.last_round.get? own) at_round)
        split
        · rw [moved]; exact and_iff_right mine
        · rw [List.mem_append,List.mem_singleton,moved]
          exact ⟨fun h => h.elim And.right (fun same => absurd same mine),fun h => .inl ⟨mine,h⟩⟩
      · rw [Dict.get?_set_ne _ _ here,left rnd]
        exact and_iff_right mine

theorem once_after (mirrors : Mirrors log s) (e : Commit) (rnd : Nat) : (chains_of (commit_round s e) rnd).Nodup := by
  obtain ⟨⟨own,at_round⟩,count,templates⟩ := e
  have left : ∀ r, (((left_round s own (s.last_round.get? own)).get? r).getD []).Nodup := by
    intro r
    unfold left_round
    split
    · exact mirrors.once r
    · rename_i p _
      by_cases here : r = p
      · subst here
        rw [Dict.get?_set_self]
        exact (mirrors.once r).filter _
      · rw [Dict.get?_set_ne _ _ here]
        exact mirrors.once r
  rw [commit_round_eq]
  unfold chains_of
  dsimp only
  split
  · exact mirrors.once rnd
  · unfold joined
    by_cases here : rnd = raised (s.last_round.get? own) at_round
    · subst here
      rw [Dict.get?_set_self,Option.getD_some]
      split
      · exact left _
      · rename_i absent
        refine List.nodup_append.mpr ⟨left _,List.nodup_singleton _,fun a old b new same => absent ?_⟩
        obtain rfl : a = own := same.trans (List.mem_singleton.mp new)
        exact old
    · rw [Dict.get?_set_ne _ _ here]
      exact left rnd

-- A round above every earlier one starts the width anew, a lower one leaves it.
theorem width_of_after (mirrors : Mirrors log s) (e : Commit) (chain : String) :
    (commit_round s e).width.get? chain =
      ((commit_round s e).last_round.get? chain).map fun rnd => widest (log ++ [e]) (chain,rnd) := by
  rw [last_after mirrors]
  obtain ⟨⟨own,rnd⟩,count,templates⟩ := e
  rw [commit_round_eq,rounds_concat]
  dsimp only
  unfold width_after
  by_cases mine : own = chain
  · subst mine
    rw [if_pos rfl,max?_concat,← mirrors.last,Option.map_some,widest_concat]
    dsimp only
    have before := mirrors.width own
    cases previous : s.last_round.get? own with
    | none =>
        have fresh : rnd ∉ rounds log own := by
          have nothing := (mirrors.last own).symm.trans previous
          rw [List.max?_eq_none_iff.mp nothing]
          exact List.not_mem_nil
        simp [raised,Dict.get?_set_self,(fresh_round fresh).1]
    | some p =>
        rw [previous,Option.map_some] at before
        have highest := List.max?_eq_some_iff.mp ((mirrors.last own).symm.trans previous)
        rw [raised_some]
        rcases Nat.lt_trichotomy rnd p with lower | same | higher
        · have kept : max p rnd = p := by omega
          have other : ¬((own,rnd) = (own,p)) := fun h => by have := (Prod.ext_iff.mp h).2; simp at this; omega
          rw [if_neg (by simp; omega),kept,if_neg (by omega),if_neg other]
          exact before
        · subst same
          simp [Dict.get?_set_self,before]
        · have grown : max p rnd = rnd := by omega
          have fresh : rnd ∉ rounds log own := fun member => by have := highest.2 rnd member; omega
          rw [if_neg (by simp; omega),grown]
          simp [Dict.get?_set_self,(fresh_round fresh).1]
  · rw [if_neg mine,← mirrors.last]
    have apart : ∀ r, ¬((own,rnd) = (chain,r)) := fun r h => mine (Prod.ext_iff.mp h).1
    have same : ∀ r, widest (log ++ [((own,rnd),count,templates)]) (chain,r) = widest log (chain,r) := by
      intro r
      rw [widest_concat,if_neg (apart r)]
    simp only [same]
    rw [← mirrors.width]
    split
    · exact Dict.get?_set_ne _ _ (Ne.symm mine)
    · split
      · exact Dict.get?_set_ne _ _ (Ne.symm mine)
      · rfl

theorem history_after (mirrors : Mirrors log s) (e : Commit) (chain : String) (rnd : Nat) :
    recorded_templates (commit_round s e) chain rnd =
      if rnd ∈ rounds (log ++ [e]) chain then some (templates_at (log ++ [e]) (chain,rnd)) else none := by
  obtain ⟨⟨own,at_round⟩,count,templates⟩ := e
  rw [commit_round_eq,rounds_concat,templates_concat]
  unfold recorded_templates
  dsimp only
  have before := mirrors.history chain rnd
  by_cases mine : own = chain
  · subst mine
    rw [Dict.get?_set_self,Option.getD_some,if_pos rfl]
    by_cases here : rnd = at_round
    · subst here
      rw [Dict.get?_set_self,if_pos rfl]
      unfold recorded_templates at before
      rw [before]
      by_cases known : rnd ∈ rounds log own
      · simp [known]
      · simp [known,(fresh_round known).2]
    · rw [Dict.get?_set_ne _ _ here]
      have apart : ¬((own,at_round) = (own,rnd)) := fun h => here (Prod.ext_iff.mp h).2.symm
      rw [if_neg apart]
      simpa [here,recorded_templates] using before
  · have apart : ¬((own,at_round) = (chain,rnd)) := fun h => mine (Prod.ext_iff.mp h).1
    rw [Dict.get?_set_ne _ _ (Ne.symm mine),if_neg mine,if_neg apart]
    exact before

theorem mirrors_step (mirrors : Mirrors log s) (e : Commit) : Mirrors (log ++ [e]) (commit_round s e) :=
  ⟨last_after mirrors e,index_after mirrors e,once_after mirrors e,width_of_after mirrors e,history_after mirrors e⟩

theorem mirrors_entries (mirrors : Mirrors log s) (entries : List Commit) :
    Mirrors (log ++ entries) (entries.foldl commit_round s) := by
  induction entries generalizing log s with
  | nil => simpa using mirrors
  | cons e rest ih => simpa using ih (mirrors_step mirrors e)

theorem widest_append (log more : List Commit) (round_key : String × Nat) :
    widest (log ++ more) round_key = max (widest log round_key) (widest more round_key) := by
  induction more using List.reverseRecOn with
  | nil => simp [widest]
  | append_singleton more e ih =>
    rw [← List.append_assoc,widest_concat,widest_concat,ih]
    split
    · exact Nat.max_assoc _ _ _
    · rfl

theorem templates_append (log more : List Commit) (round_key : String × Nat) :
    templates_at (log ++ more) round_key = templates_at log round_key ∪ templates_at more round_key := by
  induction more using List.reverseRecOn with
  | nil => simp [templates_at]
  | append_singleton more e ih =>
    rw [← List.append_assoc,templates_concat,templates_concat,ih]
    split
    · exact Finset.union_assoc _ _ _
    · rfl

def round_key (item : WorkflowItem) : String × Nat := (chain_key item,item.config.chain_round)

-- The slices of one round of a chain in a batch.
def slices_at (batch : List WorkflowItem) (key : String × Nat) : List WorkflowItem :=
  batch.filter fun item => decide (round_key item = key)

def hashes (items : List WorkflowItem) : Finset Template := (items.map WorkflowItem.template_hash).toFinset

theorem committed_rounds_get? (batch : List WorkflowItem) (key : String × Nat) :
    (committed_rounds batch).get? key =
      if slices_at batch key = [] then none else some ((slices_at batch key).length,hashes (slices_at batch key)) := by
  induction batch using List.reverseRecOn with
  | nil => rfl
  | append_singleton batch item ih =>
    have step : committed_rounds (batch ++ [item]) = (committed_rounds batch).set (round_key item)
        ((((committed_rounds batch).get? (round_key item)).getD (0,∅)).1 + 1,
          insert item.template_hash (((committed_rounds batch).get? (round_key item)).getD (0,∅)).2) := by
      unfold committed_rounds
      rw [List.foldl_append]
      rfl
    rw [step]
    by_cases own : key = round_key item
    · subst own
      have more : slices_at (batch ++ [item]) (round_key item) = slices_at batch (round_key item) ++ [item] := by
        simp [slices_at]
      rw [Dict.get?_set_self,ih,more]
      by_cases first : slices_at batch (round_key item) = []
      · simp [first,hashes]
      · simp [first,hashes,Finset.union_comm]
    · have same : slices_at (batch ++ [item]) key = slices_at batch key := by simp [slices_at,Ne.symm own]
      rw [Dict.get?_set_ne _ _ own,ih,same]

-- The entries of a batch name each of its rounds once.
theorem batch_rounds (batch : List WorkflowItem) (chain : String) (rnd : Nat) :
    rnd ∈ rounds (committed_rounds batch).entries chain ↔ slices_at batch (chain,rnd) ≠ [] := by
  rw [mem_rounds]
  have listed : (∃ e ∈ (committed_rounds batch).entries, e.1 = (chain,rnd)) ↔ (chain,rnd) ∈ (committed_rounds batch).keys :=
    List.mem_map.symm
  rw [listed,Dict.mem_keys_iff,committed_rounds_get?]
  split <;> simp [*]

theorem batch_widest (batch : List WorkflowItem) (key : String × Nat) :
    widest (committed_rounds batch).entries key = (slices_at batch key).length := by
  unfold widest
  rw [Dict.entries_at,committed_rounds_get?]
  split <;> simp [*]

theorem batch_templates (batch : List WorkflowItem) (key : String × Nat) :
    templates_at (committed_rounds batch).entries key = hashes (slices_at batch key) := by
  unfold templates_at
  rw [Dict.entries_at,committed_rounds_get?]
  split <;> simp [*,hashes]

-- The calls the job manager makes of a policy.
inductive PolicyCall where
  | select_batch (candidates : List WorkflowItem) (batch_size : Int)
  | on_commit (workflows : List WorkflowItem)
  | observe_free_lanes (free_lanes : Option Nat)

def call (policy : SchedulingPolicy σ) (state : σ) : PolicyCall → σ
  | .select_batch candidates batch_size => (policy.select_batch state candidates batch_size).1
  | .on_commit workflows => policy.on_commit state workflows
  | .observe_free_lanes free_lanes => policy.observe_free_lanes state free_lanes

-- The batches committed along a run of calls.
def committed : List PolicyCall → List (List WorkflowItem)
  | [] => []
  | .on_commit workflows :: rest => workflows :: committed rest
  | _ :: rest => committed rest

def logged (batches : List (List WorkflowItem)) : List Commit := batches.flatMap fun batch => (committed_rounds batch).entries

theorem logged_rounds (batches : List (List WorkflowItem)) (chain : String) (rnd : Nat) :
    rnd ∈ rounds (logged batches) chain ↔ ∃ batch ∈ batches, slices_at batch (chain,rnd) ≠ [] := by
  simp only [← batch_rounds,mem_rounds,logged,List.mem_flatMap]
  exact ⟨fun ⟨e,⟨batch,member,inside⟩,same⟩ => ⟨batch,member,e,inside,same⟩,
    fun ⟨batch,member,e,inside,same⟩ => ⟨e,⟨batch,member,inside⟩,same⟩⟩

theorem logged_widest (batches : List (List WorkflowItem)) (key : String × Nat) :
    widest (logged batches) key = (batches.map fun batch => (slices_at batch key).length).foldr max 0 := by
  induction batches with
  | nil => rfl
  | cons batch rest ih =>
      have split : logged (batch :: rest) = (committed_rounds batch).entries ++ logged rest := List.flatMap_cons
      rw [split,widest_append,batch_widest,ih]
      rfl

theorem logged_templates (batches : List (List WorkflowItem)) (key : String × Nat) :
    templates_at (logged batches) key = hashes (batches.flatMap fun batch => slices_at batch key) := by
  induction batches with
  | nil => rfl
  | cons batch rest ih =>
      have split : logged (batch :: rest) = (committed_rounds batch).entries ++ logged rest := List.flatMap_cons
      rw [split,templates_append,batch_templates,ih,List.flatMap_cons]
      simp [hashes]

theorem mirrors_start : Mirrors [] {} :=
  ⟨fun _ => rfl,fun _ _ => by simp [chains_of,Dict.get?_empty],fun _ => List.nodup_nil,fun _ => rfl,fun _ _ => rfl⟩

theorem mirrors_lanes (mirrors : Mirrors log s) (free_lanes : Option Nat) : Mirrors log { s with free_lanes := free_lanes } :=
  ⟨mirrors.last,mirrors.index,mirrors.once,mirrors.width,mirrors.history⟩

-- A run of calls leaves the maps of the entries of its commits.
theorem mirrors_calls (args : CohortPackArgs) (power : Rat → Rat → Rat) (estimate_area : WorkflowItem → Option Rat)
    (calls : List PolicyCall) (mirrors : Mirrors log s) :
    Mirrors (log ++ logged (committed calls)) (calls.foldl (call (cohort_pack args power estimate_area)) s) := by
  induction calls generalizing log s with
  | nil => simpa [committed,logged] using mirrors
  | cons first rest ih =>
      cases first with
      | select_batch candidates batch_size => exact ih mirrors
      | observe_free_lanes free_lanes => exact ih (mirrors_lanes mirrors free_lanes)
      | on_commit workflows =>
          have split : logged (committed (.on_commit workflows :: rest)) =
              (committed_rounds workflows).entries ++ logged (committed rest) := List.flatMap_cons
          rw [split,← List.append_assoc]
          exact ih (mirrors_entries mirrors (committed_rounds workflows).entries)

theorem commit_bookkeeping (args : CohortPackArgs) (power : Rat → Rat → Rat) (estimate_area : WorkflowItem → Option Rat)
    (calls : List PolicyCall) :
    let s := calls.foldl (call (cohort_pack args power estimate_area)) {}
    let batches := committed calls
    (∀ chain rnd, s.last_round.get? chain = some rnd ↔
      (∃ batch ∈ batches, slices_at batch (chain,rnd) ≠ []) ∧
        ∀ batch ∈ batches, ∀ later, slices_at batch (chain,later) ≠ [] → later ≤ rnd) ∧
    (∀ chain, s.last_round.get? chain = none ↔ ∀ batch ∈ batches, ∀ rnd, slices_at batch (chain,rnd) = []) ∧
    (∀ chain rnd, chain ∈ chains_of s rnd ↔ s.last_round.get? chain = some rnd) ∧
    (∀ rnd, (chains_of s rnd).Nodup) ∧
    (∀ chain, s.width.get? chain = (s.last_round.get? chain).map fun rnd =>
      (batches.map fun batch => (slices_at batch (chain,rnd)).length).foldr max 0) ∧
    ∀ chain rnd, recorded_templates s chain rnd =
      if ∃ batch ∈ batches, slices_at batch (chain,rnd) ≠ [] then
        some (hashes (batches.flatMap fun batch => slices_at batch (chain,rnd))) else none := by
  have mirrors := mirrors_calls args power estimate_area calls mirrors_start
  rw [List.nil_append] at mirrors
  dsimp only
  refine ⟨fun chain rnd => ?_,fun chain => ?_,mirrors.index,mirrors.once,fun chain => ?_,fun chain rnd => ?_⟩
  · rw [mirrors.last,List.max?_eq_some_iff,logged_rounds]
    refine and_congr_right fun _ => ⟨fun most batch member later there => ?_,fun most later there => ?_⟩
    · exact most later ((logged_rounds _ _ _).mpr ⟨batch,member,there⟩)
    · obtain ⟨batch,member,there⟩ := (logged_rounds _ _ _).mp there
      exact most batch member later there
  · rw [mirrors.last,List.max?_eq_none_iff,List.eq_nil_iff_forall_not_mem]
    refine ⟨fun never batch member rnd => ?_,fun never rnd there => ?_⟩
    · by_contra there
      exact never rnd ((logged_rounds _ _ _).mpr ⟨batch,member,there⟩)
    · obtain ⟨batch,member,there⟩ := (logged_rounds _ _ _).mp there
      exact there (never batch member rnd)
  · rw [mirrors.width]
    simp only [logged_widest]
  · rw [mirrors.history,logged_templates]
    simp only [logged_rounds]

end Lumilake.CohortPack

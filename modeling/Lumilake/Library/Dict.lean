import Mathlib.Data.List.Nodup
import Mathlib.Data.List.Basic
import Mathlib.Data.List.Perm.Subperm
import Mathlib.Data.List.Induction

-- Insertion-ordered dictionaries: a key keeps the place of its first write, and
-- no key occurs twice. The key list is part of the type, so it is never re-proved.
structure Dict (κ : Type u) (α : Type v) where
  entries : List (κ × α)
  distinct : (entries.map Prod.fst).Nodup

namespace Dict
variable {κ : Type u} {α : Type v} {β : Type w}

def keys (d : Dict κ α) : List κ := d.entries.map Prod.fst
def values (d : Dict κ α) : List α := d.entries.map Prod.snd
def empty : Dict κ α := ⟨[],List.nodup_nil⟩

instance : Membership κ (Dict κ α) := ⟨fun d k => k ∈ d.keys⟩

theorem mem_def (d : Dict κ α) : k ∈ d ↔ k ∈ d.keys := Iff.rfl
theorem keys_nodup (d : Dict κ α) : d.keys.Nodup := d.distinct
@[simp] theorem keys_empty : (empty : Dict κ α).keys = [] := rfl
@[simp] theorem values_empty : (empty : Dict κ α).values = [] := rfl
@[simp] theorem entries_empty : (empty : Dict κ α).entries = [] := rfl
@[simp] theorem mem_empty : k ∉ (empty : Dict κ α) := by simp [mem_def]

theorem ext {d e : Dict κ α} (same : d.entries = e.entries) : d = e := by
  cases d; cases e; cases same; rfl

theorem mem_keys_of_entry {d : Dict κ α} (present : (k,v) ∈ d.entries) : k ∈ d.keys :=
  List.mem_map.mpr ⟨(k,v),present,rfl⟩

-- Keep the entries that a test accepts, in their order.
def filter (d : Dict κ α) (keep : κ → α → Bool) : Dict κ α :=
  ⟨d.entries.filter (fun e => keep e.1 e.2),
    d.distinct.sublist ((List.filter_sublist).map Prod.fst)⟩

def mapValues (d : Dict κ α) (f : κ → α → β) : Dict κ β :=
  ⟨d.entries.map (fun e => (e.1,f e.1 e.2)),by
    have same : (d.entries.map (fun e => (e.1,f e.1 e.2))).map Prod.fst = d.entries.map Prod.fst := by
      simp [List.map_map,Function.comp_def]
    rw [same]; exact d.distinct⟩

@[simp] theorem entries_filter (d : Dict κ α) (keep : κ → α → Bool) :
    (d.filter keep).entries = d.entries.filter (fun e => keep e.1 e.2) := rfl

theorem filter_self {d : Dict κ α} {keep : κ → α → Bool} (all : ∀ e ∈ d.entries, keep e.1 e.2 = true) :
    d.filter keep = d := ext (List.filter_eq_self.mpr all)

@[simp] theorem entries_mapValues (d : Dict κ α) (f : κ → α → β) :
    (d.mapValues f).entries = d.entries.map (fun e => (e.1,f e.1 e.2)) := rfl

@[simp] theorem keys_mapValues (d : Dict κ α) (f : κ → α → β) : (d.mapValues f).keys = d.keys := by
  simp [keys,List.map_map,Function.comp_def]

variable [DecidableEq κ]

instance (d : Dict κ α) (k : κ) : Decidable (k ∈ d) := inferInstanceAs (Decidable (k ∈ d.keys))

def get? (d : Dict κ α) (k : κ) : Option α := d.entries.lookup k

@[simp] theorem get?_empty (k : κ) : (empty : Dict κ α).get? k = none := rfl

-- d[k] = v: an existing key keeps its place, a new one goes to the end.
def set (d : Dict κ α) (k : κ) (v : α) : Dict κ α :=
  if fresh : k ∈ d.keys then
    ⟨d.entries.map (fun e => if e.1 = k then (k,v) else e),by
      have same : (d.entries.map (fun e => if e.1 = k then (k,v) else e)).map Prod.fst = d.entries.map Prod.fst := by
        rw [List.map_map]
        apply List.map_congr_left
        intro e _
        by_cases h : e.1 = k <;> simp [h]
      rw [same]; exact d.distinct⟩
  else
    ⟨d.entries ++ [(k,v)],by
      rw [List.map_append]
      refine List.nodup_append.mpr ⟨d.distinct,by simp,?_⟩
      rintro x present y last rfl
      simp only [List.map_cons,List.map_nil,List.mem_singleton] at last
      exact fresh (last ▸ present)⟩

def erase (d : Dict κ α) (k : κ) : Dict κ α := d.filter (fun key _ => decide (key ≠ k))

theorem keys_set_of_mem {d : Dict κ α} (present : k ∈ d.keys) : (d.set k v).keys = d.keys := by
  unfold set
  rw [dif_pos present]
  simp only [keys,List.map_map]
  apply List.map_congr_left
  intro e _
  by_cases h : e.1 = k <;> simp [h]

theorem keys_set_of_not_mem {d : Dict κ α} (fresh : k ∉ d.keys) : (d.set k v).keys = d.keys ++ [k] := by
  unfold set
  rw [dif_neg fresh]
  simp [keys]

theorem mem_keys_set {d : Dict κ α} : x ∈ (d.set k v).keys ↔ x ∈ d.keys ∨ x = k := by
  by_cases present : k ∈ d.keys
  · rw [keys_set_of_mem present]
    exact ⟨.inl,fun h => h.elim id (fun equal => equal ▸ present)⟩
  · rw [keys_set_of_not_mem present]; simp

theorem mem_entries_set {d : Dict κ α} : e ∈ (d.set k v).entries ↔ (e ∈ d.entries ∧ e.1 ≠ k) ∨ e = (k,v) := by
  unfold set
  split
  · rename_i present
    simp only [List.mem_map]
    constructor
    · rintro ⟨old,member,rfl⟩
      by_cases h : old.1 = k
      · exact .inr (by simp [h])
      · exact .inl (by simpa [h] using member)
    · rintro (⟨member,different⟩ | rfl)
      · exact ⟨e,member,by simp [different]⟩
      · obtain ⟨old,member,equal⟩ := List.mem_map.mp present
        exact ⟨old,member,by simp [equal]⟩
  · rename_i absent
    simp only [List.mem_append,List.mem_singleton]
    constructor
    · rintro (member | rfl)
      · refine .inl ⟨member,?_⟩
        rintro rfl
        exact absent (List.mem_map_of_mem member)
      · exact .inr rfl
    · rintro (⟨member,_⟩ | rfl)
      · exact .inl member
      · exact .inr rfl

theorem get?_eq_some {d : Dict κ α} : d.get? k = some v ↔ (k,v) ∈ d.entries := by
  constructor
  · intro found
    obtain ⟨earlier,later,split,_⟩ := List.lookup_eq_some_iff.mp found
    exact split ▸ List.mem_append_right _ List.mem_cons_self
  · intro member
    obtain ⟨earlier,later,split⟩ := List.append_of_mem member
    refine List.lookup_eq_some_iff.mpr ⟨earlier,later,split,?_⟩
    intro e before
    have apart : e.1 ≠ k := by
      have distinct := d.distinct
      rw [split,List.map_append,List.nodup_append] at distinct
      exact distinct.2.2 _ (List.mem_map_of_mem before) _ List.mem_cons_self
    simpa using apart.symm

theorem get?_eq_none {d : Dict κ α} : d.get? k = none ↔ k ∉ d.keys := by
  constructor
  · intro missing present
    obtain ⟨⟨key,value⟩,member,rfl⟩ := List.mem_map.mp present
    rw [get?_eq_some.mpr member] at missing
    cases missing
  · intro absent
    cases found : d.get? k with
    | none => rfl
    | some v => exact absurd (mem_keys_of_entry (get?_eq_some.mp found)) absent

-- At most one entry stands under a key.
theorem entries_at (d : Dict κ α) (k : κ) :
    d.entries.filter (fun e => decide (e.1 = k)) = ((d.get? k).map fun v => (k,v)).toList := by
  cases found : d.get? k with
  | none =>
      rw [Option.map_none,Option.toList_none,List.filter_eq_nil_iff]
      intro e member own
      rw [decide_eq_true_eq] at own
      exact get?_eq_none.mp found (own ▸ List.mem_map_of_mem member)
  | some v =>
      obtain ⟨earlier,later,split⟩ := List.append_of_mem (get?_eq_some.mp found)
      have distinct := d.distinct
      rw [split,List.map_append,List.nodup_append,List.map_cons,List.nodup_cons] at distinct
      obtain ⟨_,⟨after,_⟩,before⟩ := distinct
      have early : earlier.filter (fun e => decide (e.1 = k)) = [] := by
        rw [List.filter_eq_nil_iff]
        intro e member own
        exact before _ (List.mem_map_of_mem member) _ List.mem_cons_self (by simpa using own)
      have late : later.filter (fun e => decide (e.1 = k)) = [] := by
        rw [List.filter_eq_nil_iff]
        intro e member own
        rw [decide_eq_true_eq] at own
        exact after (List.mem_map.mpr ⟨e,member,own⟩)
      rw [split,List.filter_append,List.filter_cons,early,late]
      simp

theorem get?_filter {d : Dict κ α} {keep : κ → α → Bool} :
    (d.filter keep).get? k = some v ↔ d.get? k = some v ∧ keep k v = true := by
  rw [get?_eq_some,get?_eq_some,entries_filter,List.mem_filter]

theorem get?_filter_key (d : Dict κ α) (keep : κ → Bool) (k : κ) :
    (d.filter fun k _ => keep k).get? k = if keep k then d.get? k else none := by
  ext v
  rw [get?_filter]
  split <;> simp [*]

theorem get?_mapValues {d : Dict κ α} {f : κ → α → β} (found : d.get? k = some v) :
    (d.mapValues f).get? k = some (f k v) := by
  rw [get?_eq_some,entries_mapValues]
  exact List.mem_map.mpr ⟨(k,v),get?_eq_some.mp found,rfl⟩

theorem get?_set_self (d : Dict κ α) (k : κ) (v : α) : (d.set k v).get? k = some v :=
  get?_eq_some.mpr (mem_entries_set.mpr (.inr rfl))

theorem get?_set_ne (d : Dict κ α) (v : α) (different : x ≠ k) : (d.set k v).get? x = d.get? x := by
  have same : ∀ u, (d.set k v).get? x = some u ↔ d.get? x = some u := by
    intro u
    rw [get?_eq_some,get?_eq_some,mem_entries_set]
    constructor
    · intro h
      rcases h with old | new
      · exact old.1
      · exact absurd (congrArg Prod.fst new) different
    · exact fun member => .inl ⟨member,different⟩
  exact Option.ext same

-- Writing under a key that is there.
theorem set_eq_mapValues {d : Dict κ α} (found : d.get? k = some old) (v : α) :
    d.set k v = d.mapValues fun x u => if x = k then v else u := by
  have present : k ∈ d.keys := mem_keys_of_entry (get?_eq_some.mp found)
  apply ext
  rw [entries_mapValues]
  unfold set
  rw [dif_pos present]
  refine List.map_congr_left fun e _ => ?_
  by_cases same : e.1 = k
  · simp [same]
  · simp [same]

-- A loop over distinct keys in which each turn rewrites the value under its own key.
theorem get?_foldl_own (turn : Dict κ α → κ → Dict κ α) (rewrite : α → α)
    (own : ∀ d k x, (turn d k).get? x = if x = k then (d.get? k).map rewrite else d.get? x)
    {keys : List κ} (distinct : keys.Nodup) (d : Dict κ α) (x : κ) :
    (keys.foldl turn d).get? x = if x ∈ keys then (d.get? x).map rewrite else d.get? x := by
  induction keys generalizing d with
  | nil => simp
  | cons key rest ih =>
      obtain ⟨fresh,distinct'⟩ := List.nodup_cons.mp distinct
      rw [List.foldl_cons,ih distinct',own]
      by_cases here : x = key
      · subst here
        simp [fresh]
      · simp [here]

theorem mem_keys_iff {d : Dict κ α} : k ∈ d.keys ↔ ∃ v, d.get? k = some v := by
  constructor
  · intro present
    cases found : d.get? k with
    | none => exact absurd present (get?_eq_none.mp found)
    | some v => exact ⟨v,rfl⟩
  · intro h
    obtain ⟨v,found⟩ := h
    exact mem_keys_of_entry (get?_eq_some.mp found)

theorem flatMap_keys (d : Dict κ (List α)) : d.keys.flatMap (fun k => (d.get? k).getD []) = d.values.flatten := by
  unfold keys values
  rw [List.flatMap_def,List.map_map]
  congr 1
  apply List.map_congr_left
  intro e member
  simp [get?_eq_some.mpr member]

-- A write under a known key changes the value in its place.
theorem entries_set_split {d : Dict κ α} (split : d.entries = earlier ++ (k,old) :: later) (v : α) :
    (d.set k v).entries = earlier ++ (k,v) :: later := by
  have distinct := d.distinct
  rw [split,List.map_append,List.nodup_append,List.map_cons,List.nodup_cons] at distinct
  obtain ⟨_,⟨after,_⟩,before⟩ := distinct
  have other : ∀ e ∈ earlier ++ later, (if e.1 = k then (k,v) else e) = e := by
    intro e member
    refine if_neg ?_
    rintro rfl
    rcases List.mem_append.mp member with early | late
    · exact before _ (List.mem_map.mpr ⟨e,early,rfl⟩) _ List.mem_cons_self rfl
    · exact after (List.mem_map.mpr ⟨e,late,rfl⟩)
  have known : k ∈ d.keys := mem_keys_of_entry (v := old) (split ▸ List.mem_append_right _ List.mem_cons_self)
  unfold set
  rw [dif_pos known]
  dsimp only
  rw [split,List.map_append,List.map_cons,if_pos rfl]
  congr 1
  · exact (List.map_congr_left (fun e member => other e (List.mem_append_left _ member))).trans (List.map_id _)
  · congr 1
    exact (List.map_congr_left (fun e member => other e (List.mem_append_right _ member))).trans (List.map_id _)

theorem entries_set_fresh {d : Dict κ α} (fresh : k ∉ d.keys) (v : α) : (d.set k v).entries = d.entries ++ [(k,v)] := by
  unfold set
  rw [dif_neg fresh]

theorem entries_erase_split {d : Dict κ α} (split : d.entries = earlier ++ (k,old) :: later) :
    (d.erase k).entries = earlier ++ later := by
  have distinct := d.distinct
  rw [split,List.map_append,List.nodup_append,List.map_cons,List.nodup_cons] at distinct
  obtain ⟨_,⟨after,_⟩,before⟩ := distinct
  have other : ∀ e ∈ earlier ++ later, decide (e.1 ≠ k) = true := by
    intro e member
    refine decide_eq_true ?_
    rintro rfl
    rcases List.mem_append.mp member with early | late
    · exact before _ (List.mem_map.mpr ⟨e,early,rfl⟩) _ List.mem_cons_self rfl
    · exact after (List.mem_map.mpr ⟨e,late,rfl⟩)
  rw [erase,entries_filter,split,List.filter_append,List.filter_cons,if_neg (by simp)]
  rw [← List.filter_append]
  exact List.filter_eq_self.mpr other

theorem get?_erase_self (d : Dict κ α) (k : κ) : (d.erase k).get? k = none := by
  refine get?_eq_none.mpr (fun present => ?_)
  obtain ⟨v,found⟩ := mem_keys_iff.mp present
  simpa using (get?_filter.mp found).2

theorem get?_erase_ne (d : Dict κ α) (different : x ≠ k) : (d.erase k).get? x = d.get? x := by
  refine Option.ext (fun v => ?_)
  rw [erase,get?_filter]
  simp [different]

-- A loop that writes one entry for each item.
theorem mem_keys_foldl_set (key : ι → κ) (value : ι → α) (items : List ι) (d : Dict κ α) :
    x ∈ (items.foldl (fun d item => d.set (key item) (value item)) d).keys ↔ x ∈ d.keys ∨ ∃ item ∈ items, key item = x := by
  induction items generalizing d with
  | nil => simp
  | cons item rest ih =>
      rw [List.foldl_cons,ih,mem_keys_set]
      rw [or_assoc,@eq_comm _ x]
      simp only [List.mem_cons,exists_eq_or_imp]

theorem get?_foldl_set_ne (key : ι → κ) (value : ι → α) {items : List ι} (d : Dict κ α)
    (other : ∀ item ∈ items, key item ≠ x) :
    (items.foldl (fun d item => d.set (key item) (value item)) d).get? x = d.get? x := by
  induction items generalizing d with
  | nil => rfl
  | cons item rest ih =>
      rw [List.foldl_cons,ih _ fun i member => other i (List.mem_cons_of_mem _ member)]
      exact get?_set_ne _ _ (Ne.symm (other item List.mem_cons_self))

theorem get?_foldl_set (key : ι → κ) (value : ι → α) {items : List ι} (d : Dict κ α) (distinct : (items.map key).Nodup)
    (member : item ∈ items) :
    (items.foldl (fun d item => d.set (key item) (value item)) d).get? (key item) = some (value item) := by
  induction items generalizing d with
  | nil => cases member
  | cons first rest ih =>
      obtain ⟨fresh,later⟩ := List.nodup_cons.mp distinct
      rw [List.foldl_cons]
      rcases List.mem_cons.mp member with rfl | inside
      · rw [get?_foldl_set_ne key value _ fun i there same => fresh (List.mem_map.mpr ⟨i,there,same⟩)]
        exact get?_set_self _ _ _
      · exact ih _ later inside

-- Writing fresh keys in turn appends their entries.
theorem entries_foldl_set (key : ι → κ) (value : ι → α) {items : List ι} (d : Dict κ α)
    (distinct : (d.keys ++ items.map key).Nodup) :
    (items.foldl (fun d item => d.set (key item) (value item)) d).entries =
      d.entries ++ items.map fun item => (key item,value item) := by
  induction items generalizing d with
  | nil => simp
  | cons item rest ih =>
      rw [List.map_cons] at distinct
      have fresh : key item ∉ d.keys := fun old => (List.nodup_append.mp distinct).2.2 _ old _ List.mem_cons_self rfl
      have grown := keys_set_of_not_mem (v := value item) fresh
      rw [List.foldl_cons,ih (d.set (key item) (value item)) (by simpa [grown] using distinct),entries_set_fresh fresh,
        List.append_assoc]
      rfl

-- Writing items in turn loses one where two of them have one key.
theorem nodup_of_all_written (key : ι → κ) (value : ι → α) {items : List ι}
    (all : (items.foldl (fun d item => d.set (key item) (value item)) empty).entries.length = items.length) :
    (items.map key).Nodup := by
  have inside : (items.foldl (fun d item => d.set (key item) (value item)) empty).keys.Subperm (items.map key) := by
    refine (keys_nodup _).subperm fun x known => ?_
    rcases (mem_keys_foldl_set key value items empty).mp known with old | ⟨item,member,same⟩
    · exact absurd old (by simp)
    · exact List.mem_map.mpr ⟨item,member,same⟩
  have perm := inside.perm_of_length_le (by simp only [keys,List.length_map,all,Nat.le_refl])
  exact perm.nodup_iff.mp (keys_nodup _)

theorem value_unique {d : Dict κ α} (one : (k,v) ∈ d.entries) (other : (k,w) ∈ d.entries) : v = w :=
  Option.some.inj ((get?_eq_some.mpr one).symm.trans (get?_eq_some.mpr other))

theorem mem_entries_set_agreeing {P : κ → α → Prop} (single : ∀ k v w, P k v → P k w → v = w) {d : Dict κ α}
    (inside : ∀ e ∈ d.entries, P e.1 e.2) (agrees : P k v) : e ∈ (d.set k v).entries ↔ e ∈ d.entries ∨ e = (k,v) := by
  rw [mem_entries_set]
  constructor
  · exact fun member => member.imp_left And.left
  · rintro (old | same)
    · by_cases here : e.1 = k
      · exact .inr (Prod.ext here (single _ _ _ (inside e old) (here ▸ agrees)))
      · exact .inl ⟨old,here⟩
    · exact .inr same

-- Writes that all agree with one partial function never undo one another.
theorem mem_entries_foldl_agreeing {P : κ → α → Prop} (single : ∀ k v w, P k v → P k w → v = w) (write : ι → Option (κ × α))
    {items : List ι} {d : Dict κ α} (inside : ∀ e ∈ d.entries, P e.1 e.2)
    (agrees : ∀ item ∈ items, ∀ e, write item = some e → P e.1 e.2) :
    e ∈ (items.foldl (fun d item => (write item).elim d fun e => d.set e.1 e.2) d).entries ↔
      e ∈ d.entries ∨ ∃ item ∈ items, write item = some e := by
  induction items generalizing d with
  | nil => simp
  | cons item rest ih =>
      have agreesRest := fun i (member : i ∈ rest) => agrees i (List.mem_cons_of_mem _ member)
      rw [List.foldl_cons]
      cases writes : write item with
      | none =>
          rw [Option.elim_none,ih inside agreesRest,List.exists_mem_cons_iff,writes]
          simp only [reduceCtorEq,false_or]
      | some w =>
          have agreesHere := agrees item List.mem_cons_self w writes
          have now (e : κ × α) := mem_entries_set_agreeing (e := e) single inside agreesHere
          have insideNow : ∀ e ∈ (d.set w.1 w.2).entries, P e.1 e.2 := fun e member =>
            ((now e).mp member).elim (inside e) (fun same => same ▸ agreesHere)
          rw [Option.elim_some,ih insideNow agreesRest,now e,List.exists_mem_cons_iff,writes,or_assoc,Option.some.injEq,@eq_comm _ w]

-- A table of what a function gives for each key.
theorem get?_foldl_set_each (f : κ → α) (ks : List κ) (d : Dict κ α) (x : κ) :
    (ks.foldl (fun d k => d.set k (f k)) d).get? x = if x ∈ ks then some (f x) else d.get? x := by
  induction ks generalizing d with
  | nil => simp
  | cons k rest ih =>
      rw [List.foldl_cons,ih]
      by_cases later : x ∈ rest
      · rw [if_pos later,if_pos (List.mem_cons_of_mem _ later)]
      · rw [if_neg later]
        by_cases same : x = k
        · subst same
          rw [get?_set_self,if_pos List.mem_cons_self]
        · rw [get?_set_ne _ _ same,if_neg fun member => (List.mem_cons.mp member).elim same later]

-- `d.update(more)`, with the values mapped.
theorem get?_update (value : α → β) (more : Dict κ α) (d : Dict κ β) :
    (more.entries.foldl (fun d e => d.set e.1 (value e.2)) d).get? x = ((more.get? x).map value).or (d.get? x) := by
  cases found : more.get? x with
  | some v =>
      have member := get?_eq_some.mp found
      exact get?_foldl_set (fun e : κ × α => e.1) (fun e => value e.2) d more.distinct member
  | none =>
      have absent := get?_eq_none.mp found
      exact get?_foldl_set_ne (fun e : κ × α => e.1) (fun e => value e.2) d fun e member same =>
        absent (same ▸ List.mem_map_of_mem member)

-- A write that adds one member to what is read off the entry of a key adds it to
-- what is read off the dict.
theorem flatMap_set_perm (d : Dict κ α) (k : κ) {v : α} {x : β} (read : α → List β)
    (grown : (read v).Perm (((d.get? k).map read).getD [] ++ [x])) :
    ((d.set k v).values.flatMap read).Perm (d.values.flatMap read ++ [x]) := by
  cases found : d.get? k with
  | none =>
      rw [found] at grown
      unfold values
      rw [entries_set_fresh (get?_eq_none.mp found),List.map_append,List.flatMap_append,List.map_singleton,
        List.flatMap_singleton]
      exact grown.append_left _
  | some old =>
      rw [found,Option.map_some,Option.getD_some] at grown
      obtain ⟨earlier,later,split⟩ := List.append_of_mem (get?_eq_some.mp found)
      unfold values
      rw [entries_set_split split,split]
      simp only [List.map_append,List.map_cons,List.flatMap_append,List.flatMap_cons,List.append_assoc]
      have moved : (read v ++ (later.map Prod.snd).flatMap read).Perm
          (read old ++ ((later.map Prod.snd).flatMap read ++ [x])) := by
        refine (grown.append_right _).trans ?_
        rw [List.append_assoc]
        exact List.perm_append_comm.append_left (read old)
      exact moved.append_left _

-- Appending to the list under a key adds one member to the lists of the dict.
theorem values_append_perm (d : Dict κ (List α)) (k : κ) (x : α) :
    (d.set k ((d.get? k).getD [] ++ [x])).values.flatten.Perm (d.values.flatten ++ [x]) := by
  rw [← List.flatMap_id,← List.flatMap_id]
  refine flatMap_set_perm d k id ?_
  cases d.get? k <;> exact List.Perm.refl _

-- Grouping items by a key leaves, under each key that occurs, its items in their order.
theorem get?_group (key : ι → κ) (items : List ι) (k : κ) :
    (items.foldl (fun groups item => groups.set (key item) ((groups.get? (key item)).getD [] ++ [item])) empty).get? k =
      if items.filter (fun item => decide (key item = k)) = [] then none
      else some (items.filter fun item => decide (key item = k)) := by
  induction items using List.reverseRecOn with
  | nil => rfl
  | append_singleton items item ih =>
      rw [List.foldl_append,List.foldl_cons,List.foldl_nil,List.filter_append]
      by_cases own : k = key item
      · subst own
        rw [get?_set_self,ih]
        by_cases first : items.filter (fun other => decide (key other = key item)) = []
        · simp [first]
        · simp [first]
      · rw [get?_set_ne _ _ own,ih]
        simp [Ne.symm own]

end Dict

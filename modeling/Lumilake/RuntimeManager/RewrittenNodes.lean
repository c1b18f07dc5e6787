import Mathlib.Data.List.Pairwise
import Lumilake.Library.Separators
import Lumilake.RuntimeManager.ShardCounts
import Lumilake.RuntimeManager.ShardRewrite

namespace Lumilake.RuntimeManager
open Cuts Fallible

theorem shard_name_chars (node_id : String) (idx : Nat) :
    (shard_name node_id idx).toList = (node_id.toList ++ "__shard".toList) ++ '_' :: Nat.toDigits 10 idx := by
  have tag : "__shard_".toList = "__shard".toList ++ ['_'] := by decide
  unfold shard_name
  rw [String.toList_append,String.toList_append,Nat.toString_eq_repr,Nat.toList_repr,tag]
  simp

-- The number stands behind the last separator of a shard's name.
theorem shard_name_injective {a b : String} {i j : Nat} (same : shard_name a i = shard_name b j) : a = b ∧ i = j := by
  have plain : ∀ n, '_' ∉ Nat.toDigits 10 n := fun n member =>
    absurd (Nat.isDigit_of_mem_toDigits (by decide) (by decide) member) (by decide)
  have chars := congrArg String.toList same
  rw [shard_name_chars,shard_name_chars] at chars
  obtain ⟨fronts,digits⟩ := Separators.back_of (plain i) (plain j) chars
  refine ⟨String.toList_inj.mp (List.append_cancel_right fronts),?_⟩
  rw [← Nat.ofDigitChars_ten_toDigits (n := i),digits,Nat.ofDigitChars_ten_toDigits]

theorem shard_name_other (a : String) (i : Nat) : shard_name a i ≠ a := by
  intro same
  have lengths := congrArg (List.length ∘ String.toList) same
  rw [Function.comp_apply,Function.comp_apply,shard_name_chars] at lengths
  simp at lengths

-- The names of the nodes that stand for one raw node.
def new_names (shard_nodes_by_raw : Workers) (merge_required : List String) (node_id : String) : List String :=
  match shard_nodes_by_raw.get? node_id with
  | none => [node_id]
  | some shard_names => shard_names ++ if node_id ∈ merge_required then [node_id] else []

theorem add_node_ok {node_map after : NodeMap} {node : FlowmeshNode} (done : add_node node_map node = .ok after) :
    node.name ∉ node_map.keys ∧ after = node_map.set node.name node := by
  unfold add_node at done
  split at done
  · cases done
  · split at done
    · cases done
    · rename_i fresh
      cases done
      exact ⟨fresh,rfl⟩

theorem add_nodes_ok {nodes : List FlowmeshNode} {before node_map : NodeMap}
    (done : nodes.foldlM add_node before = .ok node_map) :
    node_map.entries = before.entries ++ nodes.map fun node => (node.name,node) := by
  induction nodes generalizing before with
  | nil => cases done; simp
  | cons node rest ih =>
      rw [List.foldlM_cons] at done
      obtain ⟨next,turn,later⟩ := bind_ok done
      obtain ⟨fresh,rfl⟩ := add_node_ok turn
      rw [ih later,Dict.entries_set_fresh fresh]
      simp

-- The graph's nodes by their names, as the loop collects them.
def nodes_by_name (nodes : List FlowmeshNode) : NodeMap := nodes.foldl (fun d node => d.set node.name node) Dict.empty

theorem node_map_ok {nodes : List FlowmeshNode} {node_map : NodeMap} (done : nodes.foldlM add_node Dict.empty = .ok node_map) :
    node_map.entries = nodes.map (fun node => (node.name,node)) ∧ node_map = nodes_by_name nodes := by
  have entries : node_map.entries = nodes.map fun node => (node.name,node) := add_nodes_ok done
  have distinct : (nodes.map FlowmeshNode.name).Nodup := by
    have keys := node_map.keys_nodup
    unfold Dict.keys at keys
    rwa [entries,List.map_map] at keys
  refine ⟨entries,Dict.ext (entries.trans ?_)⟩
  unfold nodes_by_name
  rw [Dict.entries_foldl_set FlowmeshNode.name (fun node => node) Dict.empty (by simpa using distinct)]
  simp

theorem merge_required_iff (node_map : NodeMap) (shard_nodes_by_raw : Workers) (output_node_names : List String) (x : String) :
    x ∈ compute_merge_required_nodes node_map shard_nodes_by_raw output_node_names ↔ x ∈ shard_nodes_by_raw ∧
      (x ∈ output_node_names ∨ ∃ e ∈ node_map.entries, e.1 ∉ shard_nodes_by_raw ∧ x ∈ e.2.dependsOn) := by
  unfold compute_merge_required_nodes
  rw [List.mem_dedup,List.mem_append,List.mem_filter,List.mem_flatMap,decide_eq_true_iff]
  constructor
  · rintro (⟨output,cut⟩ | ⟨e,entry,member⟩)
    · exact ⟨cut,.inl output⟩
    · split at member
      · cases member
      · rename_i uncut
        obtain ⟨needed,cut⟩ := List.mem_filter.mp member
        exact ⟨of_decide_eq_true cut,.inr ⟨e,entry,uncut,needed⟩⟩
  · rintro ⟨cut,output | ⟨e,entry,uncut,needed⟩⟩
    · exact .inl ⟨output,cut⟩
    · refine .inr ⟨e,entry,?_⟩
      rw [if_neg uncut]
      exact List.mem_filter.mpr ⟨needed,decide_eq_true cut⟩

section
variable {node_map : NodeMap} {plan : ShardPlan} {merge_required : List String}

theorem build_shard_node_ok {shards : Workers} {base node : FlowmeshNode} {e : (String × Cut) × Nat}
    (done : build_shard_node node_map shards raw_node_id base total e = .ok node) :
    node.name = e.1.1 ∧ rewrite_shard_dependencies shards e.2 base.dependsOn = .ok node.dependsOn ∧
      rewrite_shard_spec node_map ⟨raw_node_id,e.2,e.1.2.1,e.1.2.2,total⟩ shards base.spec = .ok node.spec := by
  obtain ⟨spec,rewritten,done⟩ := bind_ok done
  obtain ⟨deps,named,done⟩ := bind_ok done
  cases done
  exact ⟨rfl,named,rewritten⟩

-- A raw node stands for itself, or its shards and their merge node stand for it.
theorem rewrite_node_ok {entry : String × FlowmeshNode} {group : String × List FlowmeshNode}
    (done : rewrite_node node_map plan merge_required entry = .ok group) : group.1 = entry.1 ∧
      (plan.shard_nodes_by_raw.get? entry.1 = none ∧ group.2 = [entry.2] ∨
        ∃ shard_names partitions shards, plan.shard_nodes_by_raw.get? entry.1 = some shard_names ∧
          plan.partitions_by_raw.get? entry.1 = some partitions ∧ partitions.length = shard_names.length ∧
          List.Forall₂ (fun e node => build_shard_node node_map plan.shard_nodes_by_raw entry.1 entry.2
            (partitions_stop partitions) e = .ok node) (shard_names.zip partitions).zipIdx shards ∧
          group.2 = shards ++ if entry.1 ∈ merge_required then [build_merge_node entry.1 shard_names partitions] else []) := by
  unfold rewrite_node at done
  split at done
  · rename_i shard_names partitions names parts
    split at done
    · cases done
    · rename_i fits
      obtain ⟨shards,built,done⟩ := bind_ok done
      cases done
      exact ⟨rfl,.inr ⟨shard_names,partitions,shards,names,parts,not_not.mp fits,mapM_ok.mp built,rfl⟩⟩
  · cases done
  · rename_i missing
    cases done
    exact ⟨rfl,.inl ⟨missing,rfl⟩⟩

theorem shard_nodes_named {shards : Workers} {base : FlowmeshNode} {es : List ((String × Cut) × Nat)} {nodes : List FlowmeshNode}
    (built : List.Forall₂ (fun e node => build_shard_node node_map shards raw_node_id base total e = .ok node) es nodes) :
    nodes.map FlowmeshNode.name = es.map fun e => e.1.1 := by
  induction built with
  | nil => rfl
  | cons first _ ih => rw [List.map_cons,List.map_cons,ih,(build_shard_node_ok first).1]

theorem group_names {entry : String × FlowmeshNode} {group : String × List FlowmeshNode} (own : entry.2.name = entry.1)
    (done : rewrite_node node_map plan merge_required entry = .ok group) :
    group.2.map FlowmeshNode.name = new_names plan.shard_nodes_by_raw merge_required entry.1 := by
  obtain ⟨_,⟨missing,kept⟩ | ⟨shard_names,partitions,shards,names,_,fits,built,made⟩⟩ := rewrite_node_ok done
  · unfold new_names
    rw [missing,kept]
    exact congrArg (fun name => [name]) own
  · have listed : (shard_names.zip partitions).zipIdx.map (fun e => e.1.1) = shard_names := by
      have first : (fun e : (String × Cut) × Nat => e.1.1) = Prod.fst ∘ Prod.fst := rfl
      rw [first,← List.map_map,List.zipIdx_map_fst,List.map_fst_zip (by omega)]
    unfold new_names
    rw [names,made,List.map_append,shard_nodes_named built,listed]
    congr 1
    split <;> rfl

theorem groups_names {groups : List (String × List FlowmeshNode)} {entries : List (String × FlowmeshNode)}
    (own : ∀ e ∈ entries, e.2.name = e.1)
    (built : List.Forall₂ (fun e group => rewrite_node node_map plan merge_required e = .ok group) entries groups) :
    (groups.flatMap Prod.snd).map FlowmeshNode.name =
      (entries.map Prod.fst).flatMap (new_names plan.shard_nodes_by_raw merge_required) := by
  induction built with
  | nil => rfl
  | cons first _ ih =>
      rw [List.flatMap_cons,List.map_append,group_names (own _ List.mem_cons_self) first,
        ih fun e member => own e (List.mem_cons_of_mem _ member)]
      rfl

end

-- The cut nodes of a plan with their shards.
structure ShardNames (shard_nodes_by_raw : Workers) : Prop where
  numbered : ∀ a names, shard_nodes_by_raw.get? a = some names → ∃ count, names = (List.range count).map (shard_name a)

-- A name that stands for itself in the rewritten graph: of a node that is not cut, or gathered again.
def stays (shard_nodes_by_raw : Workers) (merge_required : List String) (x : String) : Prop :=
  x ∈ shard_nodes_by_raw → x ∈ merge_required

def is_shard (shard_nodes_by_raw : Workers) (x : String) : Prop :=
  ∃ a names, shard_nodes_by_raw.get? a = some names ∧ x ∈ names

section
variable {shard_nodes_by_raw : Workers} {merge_required : List String}

theorem mem_new_names {x a : String} : x ∈ new_names shard_nodes_by_raw merge_required a ↔
    (∃ names, shard_nodes_by_raw.get? a = some names ∧ x ∈ names) ∨ x = a ∧ stays shard_nodes_by_raw merge_required a := by
  unfold new_names stays
  rw [Dict.mem_def]
  split
  · rename_i missing
    rw [List.mem_singleton]
    constructor
    · exact fun same => .inr ⟨same,fun present => absurd present (Dict.get?_eq_none.mp missing)⟩
    · rintro (⟨names,found,_⟩ | ⟨same,_⟩)
      · cases missing.symm.trans found
      · exact same
  · rename_i names found
    have present := Dict.mem_keys_iff.mpr ⟨names,found⟩
    rw [List.mem_append]
    constructor
    · rintro (shard | kept)
      · exact .inl ⟨names,found,shard⟩
      · split at kept
        · rename_i merged
          exact .inr ⟨List.mem_singleton.mp kept,fun _ => merged⟩
        · cases kept
    · rintro (⟨names',found',shard⟩ | ⟨rfl,merged⟩)
      · cases found.symm.trans found'
        exact .inl shard
      · rw [if_pos (merged present)]
        exact .inr (List.mem_singleton.mpr rfl)

variable (numbered : ShardNames shard_nodes_by_raw)
include numbered

-- A shard belongs to one node, and is not that node.
theorem shard_owner {a b x : String} {names names' : List String} (found : shard_nodes_by_raw.get? a = some names)
    (found' : shard_nodes_by_raw.get? b = some names') (here : x ∈ names) (there : x ∈ names') : a = b := by
  obtain ⟨count,rfl⟩ := numbered.numbered a names found
  obtain ⟨count',rfl⟩ := numbered.numbered b names' found'
  obtain ⟨i,_,rfl⟩ := List.mem_map.mp here
  obtain ⟨j,_,same⟩ := List.mem_map.mp there
  exact (shard_name_injective same).1.symm

theorem shard_not_owner {a : String} {names : List String} (found : shard_nodes_by_raw.get? a = some names) : a ∉ names := by
  obtain ⟨count,rfl⟩ := numbered.numbered a names found
  intro own
  obtain ⟨i,_,same⟩ := List.mem_map.mp own
  exact shard_name_other a i same

theorem new_names_nodup (a : String) : (new_names shard_nodes_by_raw merge_required a).Nodup := by
  unfold new_names
  split
  · exact List.nodup_singleton a
  · rename_i names found
    obtain ⟨count,same⟩ := numbered.numbered a names found
    have own := shard_not_owner numbered found
    have distinct : names.Nodup := by
      rw [same]
      exact List.nodup_range.map fun i j equal => (shard_name_injective equal).2
    split
    · rw [← List.concat_eq_append]
      exact distinct.concat own
    · rwa [List.append_nil]

-- The new names are distinct when no shard has the name of a node that keeps its own.
theorem new_names_distinct {keys : List String} (distinct : keys.Nodup) (raw : ∀ a ∈ shard_nodes_by_raw.keys, a ∈ keys) :
    (keys.flatMap (new_names shard_nodes_by_raw merge_required)).Nodup ↔
      ∀ x ∈ keys, stays shard_nodes_by_raw merge_required x → ¬ is_shard shard_nodes_by_raw x := by
  rw [List.nodup_flatMap]
  constructor
  · rintro ⟨_,apart⟩ x known kept ⟨a,names,found,shard⟩
    have other : a ≠ x := fun same => shard_not_owner numbered found (same ▸ shard)
    have symmetric : Std.Symm (Function.onFun List.Disjoint (new_names shard_nodes_by_raw merge_required)) :=
      ⟨fun _ _ disjoint => List.Disjoint.symm disjoint⟩
    have disjoint := apart.forall (raw a (Dict.mem_keys_iff.mpr ⟨names,found⟩)) known other
    exact disjoint (mem_new_names.mpr (.inl ⟨names,found,shard⟩)) (mem_new_names.mpr (.inr ⟨rfl,kept⟩))
  · intro clear
    refine ⟨fun a _ => new_names_nodup numbered a,distinct.imp_of_mem fun {a b} here there other => ?_⟩
    intro x first second
    rcases mem_new_names.mp first with ⟨names,found,shard⟩ | ⟨rfl,kept⟩ <;>
      rcases mem_new_names.mp second with ⟨names',found',shard'⟩ | ⟨rfl,kept'⟩
    · exact other (shard_owner numbered found found' shard shard')
    · exact clear x there kept' ⟨a,names,found,shard⟩
    · exact clear x here kept ⟨b,names',found',shard'⟩
    · exact other rfl

end

theorem shard_dependency_ok {shards : Workers} {shard_idx : Nat} {dep dep' : String}
    (done : shard_dependency shards shard_idx dep = .ok dep') :
    dep ∉ shards.keys ∧ dep' = dep ∨ ∃ names, shards.get? dep = some names ∧ dep' ∈ names := by
  unfold shard_dependency at done
  split at done
  · rename_i missing
    cases done
    exact .inl ⟨Dict.get?_eq_none.mp missing,rfl⟩
  · rename_i names found
    split at done
    · rename_i name here
      cases done
      exact .inr ⟨names,found,List.mem_of_getElem? here⟩
    · cases done

theorem fromkeys_mem {deps kept : List String} {x : String} :
    x ∈ deps.foldl (fun kept dep => if dep ∈ kept then kept else kept ++ [dep]) kept ↔ x ∈ kept ∨ x ∈ deps := by
  induction deps generalizing kept with
  | nil => simp
  | cons dep rest ih =>
      rw [List.foldl_cons,ih,List.mem_cons]
      split
      · rename_i old
        constructor
        · exact fun h => h.imp id .inr
        · rintro (h | rfl | h)
          · exact .inl h
          · exact .inl old
          · exact .inr h
      · rw [List.mem_append,List.mem_singleton,or_assoc]

theorem shard_dependencies_ok {shards : Workers} {shard_idx : Nat} {deps deps' : List String}
    (done : rewrite_shard_dependencies shards shard_idx deps = .ok deps') (member : dep' ∈ deps') :
    ∃ dep ∈ deps, dep ∉ shards.keys ∧ dep' = dep ∨ ∃ names, shards.get? dep = some names ∧ dep' ∈ names := by
  obtain ⟨rewritten,each,done⟩ := bind_ok done
  cases done
  rcases fromkeys_mem.mp member with old | new
  · cases old
  · obtain ⟨dep,needed,turned⟩ := forall₂_right (mapM_ok.mp each) new
    exact ⟨dep,needed,shard_dependency_ok turned⟩

-- What one node of the rewritten graph is: a raw node, a shard of one, or the node that gathers its shards.
inductive NewNode (node_map : NodeMap) (plan : ShardPlan) (merge_required : List String) (raw_node_id : String)
    (base : FlowmeshNode) : FlowmeshNode → Prop where
  | kept : raw_node_id ∉ plan.shard_nodes_by_raw.keys → NewNode node_map plan merge_required raw_node_id base base
  | shard : plan.shard_nodes_by_raw.get? raw_node_id = some shard_names →
      plan.partitions_by_raw.get? raw_node_id = some partitions → shard_names[idx]? = some node.name →
      partitions[idx]? = some cut →
      rewrite_shard_dependencies plan.shard_nodes_by_raw idx base.dependsOn = .ok node.dependsOn →
      rewrite_shard_spec node_map ⟨raw_node_id,idx,cut.1,cut.2,partitions_stop partitions⟩ plan.shard_nodes_by_raw base.spec =
        .ok node.spec → NewNode node_map plan merge_required raw_node_id base node
  | merge : plan.shard_nodes_by_raw.get? raw_node_id = some shard_names → raw_node_id ∈ merge_required →
      NewNode node_map plan merge_required raw_node_id base (build_merge_node raw_node_id shard_names partitions)

section
variable {node_map : NodeMap} {plan : ShardPlan} {merge_required : List String} {groups : List (String × List FlowmeshNode)}
  {entries : List (String × FlowmeshNode)}

theorem group_nodes {entry : String × FlowmeshNode} {group : String × List FlowmeshNode}
    (done : rewrite_node node_map plan merge_required entry = .ok group) :
    ∀ node ∈ group.2, NewNode node_map plan merge_required entry.1 entry.2 node := by
  intro node member
  obtain ⟨_,⟨missing,kept⟩ | ⟨shard_names,partitions,shards,names,parts,_,built,made⟩⟩ := rewrite_node_ok done
  · rw [kept,List.mem_singleton] at member
    subst member
    exact .kept (Dict.get?_eq_none.mp missing)
  · rw [made,List.mem_append] at member
    rcases member with shard | merge
    · obtain ⟨⟨⟨name,cut⟩,idx⟩,there,turned⟩ := forall₂_right built shard
      obtain ⟨named,deps,spec⟩ := build_shard_node_ok turned
      have pair := List.mk_mem_zipIdx_iff_getElem?.mp there
      obtain ⟨here,part⟩ := List.getElem?_zip_eq_some.mp pair
      exact .shard names parts (named ▸ here) part deps spec
    · split at merge
      · rename_i required
        rw [List.mem_singleton.mp merge]
        exact .merge names required
      · cases merge

theorem new_node (built : List.Forall₂ (fun e group => rewrite_node node_map plan merge_required e = .ok group) entries groups)
    {node : FlowmeshNode} (member : node ∈ groups.flatMap Prod.snd) :
    ∃ e ∈ entries, NewNode node_map plan merge_required e.1 e.2 node := by
  obtain ⟨group,there,inside⟩ := List.mem_flatMap.mp member
  obtain ⟨e,entry,done⟩ := forall₂_right built there
  exact ⟨e,entry,group_nodes done node inside⟩

-- A shard comes before what gathers it, and both before what waits for the raw node.
theorem new_rank (numbered : ShardNames plan.shard_nodes_by_raw) (rank : String → Nat) : ∃ rank' : String → Nat,
    (∀ a names x, plan.shard_nodes_by_raw.get? a = some names → x ∈ names → rank' x = 2 * rank a) ∧
      ∀ x, ¬ is_shard plan.shard_nodes_by_raw x → rank' x = 2 * rank x + 1 := by
  classical
  refine ⟨fun x => if shard : is_shard plan.shard_nodes_by_raw x then 2 * rank shard.choose else 2 * rank x + 1,?_,?_⟩
  · intro a names x found here
    have shard : is_shard plan.shard_nodes_by_raw x := ⟨a,names,found,here⟩
    obtain ⟨names',found',there⟩ := shard.choose_spec
    dsimp only
    rw [dif_pos shard,shard_owner numbered found found' here there]
  · intro x plain
    dsimp only
    rw [dif_neg plain]

theorem new_node_waits {rank rank' : String → Nat} {e : String × FlowmeshNode} {node : FlowmeshNode}
    (shards : ∀ a names x, plan.shard_nodes_by_raw.get? a = some names → x ∈ names → rank' x = 2 * rank a)
    (others : ∀ x, ¬ is_shard plan.shard_nodes_by_raw x → rank' x = 2 * rank x + 1)
    (clear : ∀ x ∈ entries.map Prod.fst, stays plan.shard_nodes_by_raw merge_required x → ¬ is_shard plan.shard_nodes_by_raw x)
    (waits : ∀ e ∈ entries, ∀ dep ∈ e.2.dependsOn, dep ∈ entries.map Prod.fst ∧ rank dep < rank e.1)
    (own : ∀ e ∈ entries, e.2.name = e.1)
    (required : ∀ e ∈ entries, e.1 ∉ plan.shard_nodes_by_raw.keys → ∀ dep ∈ e.2.dependsOn,
      stays plan.shard_nodes_by_raw merge_required dep)
    (entry : e ∈ entries) (origin : NewNode node_map plan merge_required e.1 e.2 node) : ∀ dep ∈ node.dependsOn,
      dep ∈ (entries.map Prod.fst).flatMap (new_names plan.shard_nodes_by_raw merge_required) ∧ rank' dep < rank' node.name := by
  have known : e.1 ∈ entries.map Prod.fst := List.mem_map_of_mem entry
  have kept_rank : ∀ x ∈ entries.map Prod.fst, stays plan.shard_nodes_by_raw merge_required x → rank' x = 2 * rank x + 1 :=
    fun x here kept => others x (clear x here kept)
  intro dep member
  rw [List.mem_flatMap]
  cases origin with
  | kept uncut =>
      obtain ⟨here,low⟩ := waits e entry dep member
      have kept := required e entry uncut dep member
      refine ⟨⟨dep,here,mem_new_names.mpr (.inr ⟨rfl,kept⟩)⟩,?_⟩
      rw [own e entry,kept_rank dep here kept,kept_rank e.1 known fun cut => absurd cut uncut]
      omega
  | shard names _ named _ deps _ =>
      rw [shards e.1 _ node.name names (List.mem_of_getElem? named)]
      obtain ⟨raw,needed,⟨uncut,rfl⟩ | ⟨dep_names,found,there⟩⟩ := shard_dependencies_ok deps member
      · obtain ⟨here,low⟩ := waits e entry dep needed
        have kept : stays plan.shard_nodes_by_raw merge_required dep := fun cut => absurd cut uncut
        refine ⟨⟨dep,here,mem_new_names.mpr (.inr ⟨rfl,kept⟩)⟩,?_⟩
        rw [kept_rank dep here kept]
        omega
      · obtain ⟨here,low⟩ := waits e entry raw needed
        refine ⟨⟨raw,here,mem_new_names.mpr (.inl ⟨dep_names,found,there⟩)⟩,?_⟩
        rw [shards raw dep_names dep found there]
        omega
  | merge names required =>
      refine ⟨⟨e.1,known,mem_new_names.mpr (.inl ⟨_,names,member⟩)⟩,?_⟩
      have high : rank' e.1 = 2 * rank e.1 + 1 := kept_rank e.1 known fun _ => required
      rw [shards e.1 _ dep names member]
      exact Nat.lt_of_lt_of_eq (Nat.lt_succ_self _) high.symm

end

end Lumilake.RuntimeManager

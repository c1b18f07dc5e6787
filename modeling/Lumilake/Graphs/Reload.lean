import Lumilake.Graphs.LoadFaithful

namespace Lumilake.Graphs
open Ops Fallible Relation

theorem mem_front_iff {order front back : List String} {key x : String} (distinct : order.Nodup)
    (split : order = front ++ key :: back) : x ∈ front ↔ order.idxOf x < order.idxOf key := by
  subst split
  have absent : key ∉ front := fun member => (List.nodup_append.mp distinct).2.2 key member key List.mem_cons_self rfl
  have place : (front ++ key :: back).idxOf key = front.length := by
    rw [List.idxOf_append_of_notMem absent,List.idxOf_cons_self,Nat.add_zero]
  rw [place]
  constructor
  · intro member
    rw [List.idxOf_append_of_mem member]
    exact List.idxOf_lt_length_of_mem member
  · intro small
    by_contra absent'
    rw [List.idxOf_append_of_notMem absent'] at small
    omega

theorem idxOf_map_of_nodup {f : String → String} (l : List String) (distinct : (l.map f).Nodup) {x : String}
    (member : x ∈ l) : (l.map f).idxOf (f x) = l.idxOf x := by
  induction l with
  | nil => cases member
  | cons first rest ih =>
      rw [List.map_cons,List.nodup_cons] at distinct
      rcases List.mem_cons.mp member with rfl | member
      · simp
      · have different : f first ≠ f x := fun same => distinct.1 (same ▸ List.mem_map_of_mem member)
        have different' : first ≠ x := fun same => different (same ▸ rfl)
        rw [List.map_cons,List.idxOf_cons_ne _ different,List.idxOf_cons_ne _ different',ih distinct.2 member]

section
variable {python : Python} {json : JsonGraph} {graph : Graph} {sorted : List String} {order order' : SetOrder String}

namespace Arranged

theorem reads_before (arranged : Arranged python json graph sorted) {key dep : String} (reads : Reads python json key dep) :
    sorted.idxOf dep < sorted.idxOf key := by
  have member : key ∈ sorted := (arranged.members key).mpr (.inr ⟨dep,reads⟩)
  obtain ⟨front,back,split⟩ := List.append_of_mem member
  exact (mem_front_iff arranged.distinct split).mp (arranged.before front key back split dep reads)

end Arranged

-- The loaded operations in sorted order, each with its key, when ids are distinct and nothing is lost.
structure Listed (python : Python) (json : JsonGraph) (graph : Graph) (objects : List (String × Op)) : Prop where
  arranged : Arranged python json graph (objects.map Prod.fst)
  found : ∀ o ∈ objects, graph.ops.get? o.1 = some o.2
  all : ∀ key ∈ json.keys, ∃ op, (key,op) ∈ objects
  ids : (objects.map fun o => o.2.id).Nodup

theorem exists_listed (accepted : Graph.from_json python order json = .ok graph) (kept : Kept python json) :
    ∃ objects, topological_sort (order.arrange (dependencies graph.ops)) none = .ok (objects.map Prod.fst) ∧
      Listed python json graph objects := by
  obtain ⟨sorted,sort,arranged⟩ := exists_arranged accepted
  have objects : ∀ l : List String, (∀ key ∈ l, key ∈ json.keys) →
      ∃ objects : List (String × Op), objects.map Prod.fst = l ∧ ∀ o ∈ objects, graph.ops.get? o.1 = some o.2 := by
    intro l
    induction l with
    | nil => exact fun _ => ⟨[],rfl,by simp⟩
    | cons key rest ih =>
        intro known
        obtain ⟨op,_,_,found,_⟩ := arranged.loaded (known key List.mem_cons_self)
        obtain ⟨objects,same,each⟩ := ih fun key member => known key (List.mem_cons_of_mem _ member)
        refine ⟨(key,op) :: objects,by simp [same],fun o member => ?_⟩
        rcases List.mem_cons.mp member with rfl | member
        · exact found
        · exact each o member
  obtain ⟨objects,rfl,found⟩ := objects sorted fun key member => arranged.sorted_known member
  refine ⟨objects,sort,arranged,found,fun key present => ?_,?_⟩
  · obtain ⟨o,member,rfl⟩ := List.mem_map.mp ((arranged.members key).mpr (kept.linked key present))
    exact ⟨o.2,member⟩
  · refine (List.nodup_map_iff_inj_on (List.Nodup.of_map Prod.fst arranged.distinct)).mpr fun o member o' member' same => ?_
    have place : ∀ o ∈ objects, ∃ data, json.get? o.1 = some data ∧ o.2.id = data.id := by
      intro o member
      obtain ⟨op,data,_,found',entry,id⟩ := arranged.loaded (arranged.sorted_known (List.mem_map_of_mem member))
      rw [found o member] at found'
      cases found'
      exact ⟨data,entry,id⟩
    obtain ⟨data,entry,id⟩ := place o member
    obtain ⟨data',entry',id'⟩ := place o' member'
    exact List.inj_on_of_nodup_map arranged.distinct member member'
      (kept.distinct _ _ _ _ entry entry' (by rw [← id,← id',same]))

namespace Listed
variable {objects : List (String × Op)} (listed : Listed python json graph objects)
include listed

theorem id_of_object {o : String × Op} (member : o ∈ objects) : id_of graph.ops o.1 = o.2.id := by
  simp [id_of,listed.found o member]

theorem injective {key key' : String} (present : key ∈ json.keys) (present' : key' ∈ json.keys)
    (same : id_of graph.ops key = id_of graph.ops key') : key = key' := by
  obtain ⟨op,member⟩ := listed.all key present
  obtain ⟨op',member'⟩ := listed.all key' present'
  rw [listed.id_of_object member,listed.id_of_object member'] at same
  exact congrArg Prod.fst (List.inj_on_of_nodup_map listed.ids member member' same)

theorem keys_ids : (objects.map Prod.fst).map (id_of graph.ops) = objects.map fun o => o.2.id := by
  rw [List.map_map]
  exact List.map_congr_left fun o member => listed.id_of_object member

theorem keys_distinct : ((objects.map Prod.fst).map (id_of graph.ops)).Nodup := by
  rw [listed.keys_ids]
  exact listed.ids

theorem order_entries : graph.order.entries = objects.map fun o => (o.2.id,o.1) := by
  have distinct := listed.keys_distinct
  rw [listed.arranged.order,by_id,Dict.entries_foldl_set (id_of graph.ops) (fun key => key) Dict.empty (by simpa using distinct),
    Dict.entries_empty,List.nil_append,List.map_map]
  exact List.map_congr_left fun o member => by simp [listed.id_of_object member]

theorem order_keys : graph.order.keys = objects.map fun o => o.2.id := by
  rw [Dict.keys,listed.order_entries,List.map_map]
  rfl

theorem view_object {o : String × Op} (member : o ∈ objects) :
    graph.view o.2.id = some (o.2.rename (id_of graph.ops)) := by
  have place : graph.order.get? o.2.id = some o.1 := by
    rw [Dict.get?_eq_some,listed.order_entries]
    exact List.mem_map_of_mem member
  simp [Graph.view,place,listed.found o member]

theorem view_some {id : String} {op : Op} (viewed : graph.view id = some op) :
    ∃ o ∈ objects, o.2.id = id ∧ op = o.2.rename (id_of graph.ops) := by
  obtain ⟨op',here,rfl⟩ := Option.map_eq_some_iff.mp viewed
  obtain ⟨key,place,found⟩ := Option.bind_eq_some_iff.mp here
  rw [Dict.get?_eq_some,listed.order_entries] at place
  obtain ⟨o,member,same⟩ := List.mem_map.mp place
  cases same
  rw [listed.found o member] at found
  cases found
  exact ⟨o,member,rfl,rfl⟩

theorem serialize_entries : graph.serialize.entries =
    objects.map fun o => (o.2.id,o.2.serialize (id_of graph.ops)) := by
  have each : graph.serialize = objects.foldl (fun json o => json.set o.2.id (o.2.serialize (id_of graph.ops))) Dict.empty := by
    rw [Graph.serialize,listed.order_entries,List.foldl_map]
    refine List.foldl_ext _ _ _ fun json o member => ?_
    simp [Graph.serialize_op,listed.found o member]
  rw [each,Dict.entries_foldl_set (fun o : String × Op => o.2.id) _ Dict.empty (by simpa using listed.ids)]
  simp

theorem loads_object {o : String × Op} (member : o ∈ objects) : Loads python json o.1 o.2 :=
  (listed.arranged.loads o.1 o.2).mp (listed.found o member)

-- Written in sorted order, an operation finds its references before it and its texts nowhere.
theorem readable (unmistaken : UnmistakenIn python json (objects.map Prod.fst)) {front back : List (String × Op)} {o : String × Op}
    (split : objects = front ++ o :: back) :
    Readable (earlier json o.1) (front.map fun o => o.2.id) (id_of graph.ops) o.2.inputs o.2.body := by
  have member : o ∈ objects := split ▸ List.mem_append_right _ List.mem_cons_self
  have loads := listed.loads_object member
  have split_keys : objects.map Prod.fst = front.map Prod.fst ++ o.1 :: back.map Prod.fst := by simp [split]
  have known : ∀ key ∈ o.2.inputs, key ∈ json.keys := fun key input =>
    takeWhile_subset _ (listed.arranged.reads_known ⟨o.2,loads,input⟩).2
  have early : ∀ o' ∈ front, (objects.map Prod.fst).idxOf o'.1 < (objects.map Prod.fst).idxOf o.1 := fun o' member' =>
    (mem_front_iff listed.arranged.distinct split_keys).mp (List.mem_map_of_mem member')
  have own : ∀ o' ∈ front, ∃ data, json.get? o'.1 = some data ∧ o'.2.id = data.id := by
    intro o' member'
    have inside : o' ∈ objects := split ▸ List.mem_append_left _ member'
    obtain ⟨op,data,_,found,entry,same⟩ :=
      listed.arranged.loaded (listed.arranged.sorted_known (List.mem_map_of_mem inside))
    rw [listed.found o' inside] at found
    cases found
    exact ⟨data,entry,same⟩
  refine ⟨fun key input => ?_,fun key input key' input' => listed.injective (known key input) (known key' input'),
    fun text literal there => ?_,fun llm text path vision before => ?_,unmistaken.format_paths o.1 o.2 loads⟩
  · have placed := listed.arranged.before _ _ _ split_keys key ⟨o.2,loads,input⟩
    obtain ⟨o',member',rfl⟩ := List.mem_map.mp placed
    rw [listed.id_of_object (split ▸ List.mem_append_left _ member')]
    exact List.mem_map_of_mem member'
  · obtain ⟨o',member',rfl⟩ := List.mem_map.mp there
    obtain ⟨data,entry,same⟩ := own o' member'
    exact unmistaken.literals o.1 o.2 loads _ literal o'.1 data entry same.symm ⟨early o' member',List.mem_map_of_mem member⟩
  · obtain ⟨data,entry⟩ := Dict.mem_keys_iff.mp (takeWhile_subset _ before)
    rw [listed.arranged.id_is entry]
    exact unmistaken.image_sources o.1 o.2 loads llm text path vision data before entry

theorem reload_ops (unmistaken : UnmistakenIn python json (objects.map Prod.fst)) (front back : List (String × Op)) (split : objects = front ++ back) :
    ∃ ops, (front.map fun o => (o.2.id,o.2.serialize (id_of graph.ops))).foldlM (Graph.load_op python) Dict.empty = .ok ops ∧
      ops.entries = front.map fun o => (o.2.id,o.2.rename (id_of graph.ops)) := by
  induction front using List.reverseRecOn generalizing back with
  | nil => exact ⟨Dict.empty,rfl,rfl⟩
  | append_singleton front o ih =>
      have split' : objects = front ++ o :: back := by simpa using split
      obtain ⟨ops,done,entries⟩ := ih (o :: back) split'
      have keys : ops.keys = front.map fun o => o.2.id := by
        rw [Dict.keys,entries,List.map_map]
        rfl
      have member : o ∈ objects := split' ▸ List.mem_append_right _ List.mem_cons_self
      obtain ⟨data,_,read⟩ := (listed.loads_object member).entry
      have back_again := op_read_back read (listed.readable unmistaken split')
      rw [← keys] at back_again
      have fresh : o.2.id ∉ ops.keys := by
        have distinct := listed.ids
        rw [split',List.map_append,List.map_cons] at distinct
        rw [keys]
        exact fun old => (List.nodup_append.mp distinct).2.2 _ old _ List.mem_cons_self rfl
      refine ⟨ops.set o.2.id (o.2.rename (id_of graph.ops)),?_,?_⟩
      · rw [List.map_append,List.foldlM_append,done,ok_bind]
        simp only [List.map_cons,List.map_nil,List.foldlM_cons,List.foldlM_nil,Graph.load_op,back_again,ok_bind]
        rfl
      · rw [Dict.entries_set_fresh fresh,entries,List.map_append]
        rfl

theorem objects_perm : objects.Perm graph.ops.entries := by
  have distinct : objects.Nodup := List.Nodup.of_map Prod.fst listed.arranged.distinct
  have distinct' : graph.ops.entries.Nodup := List.Nodup.of_map Prod.fst graph.ops.distinct
  refine (List.perm_ext_iff_of_nodup distinct distinct').mpr fun o => ⟨fun member => ?_,fun entry => ?_⟩
  · exact Dict.get?_eq_some.mp (listed.found o member)
  · have found : graph.ops.get? o.1 = some o.2 := Dict.get?_eq_some.mpr entry
    obtain ⟨op,member⟩ := listed.all o.1 (listed.arranged.keys ▸ Dict.mem_keys_iff.mpr ⟨_,found⟩)
    have same := listed.found _ member
    rw [found] at same
    cases same
    exact member

-- The same names are collected again, in another order.
omit listed in
theorem names_again (entries : List (String × Op)) (f : String → String) :
    input_names (entries.map fun o => (o.2.id,o.2.rename f)) = input_names entries ∧
    output_names (entries.map fun o => (o.2.id,o.2.rename f)) = output_names entries := by
  unfold input_names output_names
  rw [List.filterMap_map,List.filterMap_map]
  refine ⟨List.filterMap_congr fun o _ => ?_,List.filterMap_congr fun o _ => ?_⟩
  · obtain ⟨key,⟨id,inputs,max_iter,body⟩⟩ := o
    cases body <;> rfl
  · obtain ⟨key,⟨id,inputs,max_iter,body⟩⟩ := o
    cases body <;> rfl

-- What was written loads again.
theorem reloads (accepted : Graph.from_json python order json = .ok graph) (unmistaken : UnmistakenIn python json (objects.map Prod.fst))
    (order' : SetOrder String) : ∃ reloaded, Graph.from_json python order' graph.serialize = .ok reloaded ∧
      ∀ o ∈ objects, reloaded.ops.get? o.2.id = some (o.2.rename (id_of graph.ops)) := by
  obtain ⟨ops,loaded,entries⟩ := listed.reload_ops unmistaken objects [] (by simp)
  rw [← listed.serialize_entries] at loaded
  obtain ⟨_,names,_,named,_,_⟩ := from_json_ok accepted
  have collected := collected_of_ok _ named
  obtain ⟨inputs,outputs⟩ := names_again objects (id_of graph.ops)
  have perm := listed.objects_perm.symm
  obtain ⟨names',named'⟩ : ∃ names, ops.entries.foldlM (add_interface python) ([],[]) = .ok names := by
    apply interface_accepts
    · rw [entries,inputs]
      exact collected.free_inputs.perm (perm.filterMap _)
    · rw [entries,outputs]
      exact collected.free_outputs.perm (perm.filterMap _)
  obtain ⟨sorted',sort⟩ : ∃ sorted, topological_sort (order'.arrange (dependencies ops)) none = .ok sorted := by
    refine topological_sort_complete none (fun id => (objects.map fun o => o.2.id).idxOf id) fun u x edge => ?_
    obtain ⟨op,found,input⟩ := mem_dependencies.mp (mem_neighbors_arrange.mp edge)
    rw [Dict.get?_eq_some,entries] at found
    obtain ⟨o,member,same⟩ := List.mem_map.mp found
    cases same
    obtain ⟨dep,dep_input,rfl⟩ := List.mem_map.mp input
    have reads : Reads python json o.1 dep := ⟨o.2,listed.loads_object member,dep_input⟩
    have order := listed.arranged.reads_before reads
    have dep_sorted : dep ∈ objects.map Prod.fst := (listed.arranged.members dep).mpr (.inl ⟨o.1,reads⟩)
    rw [← listed.keys_ids,← listed.id_of_object member,idxOf_map_of_nodup _ listed.keys_distinct dep_sorted,
      idxOf_map_of_nodup _ listed.keys_distinct (List.mem_map_of_mem member)]
    exact order
  refine ⟨⟨ops,by_id ops sorted',names'.1,names'.2⟩,?_,fun o member => ?_⟩
  · unfold Graph.from_json Graph.init
    rw [loaded,ok_bind,named',ok_bind,sort]
    rfl
  · rw [Dict.get?_eq_some,entries]
    exact List.mem_map_of_mem member

-- The written graph has distinct ids and no operation alone, as the one it was written from.
theorem kept_again {reloaded : Graph} (again : Graph.from_json python order' graph.serialize = .ok reloaded)
    (read : ∀ o ∈ objects, reloaded.ops.get? o.2.id = some (o.2.rename (id_of graph.ops))) : Kept python graph.serialize := by
  obtain ⟨sorted,_,arranged⟩ := exists_arranged again
  have entry : ∀ key data, graph.serialize.get? key = some data → ∃ o ∈ objects, key = o.2.id ∧ data.id = o.2.id := by
    intro key data found
    rw [Dict.get?_eq_some,listed.serialize_entries] at found
    obtain ⟨o,member,same⟩ := List.mem_map.mp found
    cases same
    exact ⟨o,member,rfl,rfl⟩
  have reads : ∀ o ∈ objects, ∀ dep ∈ o.2.inputs, Reads python graph.serialize o.2.id (id_of graph.ops dep) := fun o member dep input =>
    ⟨_,(arranged.loads _ _).mp (read o member),List.mem_map_of_mem input⟩
  constructor
  · intro key data key' data' found found' same
    obtain ⟨o,_,rfl,id⟩ := entry key data found
    obtain ⟨o',_,rfl,id'⟩ := entry key' data' found'
    rw [← id,← id',same]
  · intro key present
    obtain ⟨data,found⟩ := Dict.mem_keys_iff.mp present
    obtain ⟨o,member,rfl,_⟩ := entry key data found
    rcases (listed.arranged.members o.1).mp (List.mem_map_of_mem member) with ⟨reader,op,loads,input⟩ | ⟨dep,op,loads,input⟩
    · obtain ⟨op',member'⟩ := listed.all reader (by
        obtain ⟨data,entry,_⟩ := loads.entry
        exact Dict.mem_keys_iff.mpr ⟨data,entry⟩)
      have same := (listed.arranged.loads reader op).mpr loads
      rw [listed.found _ member'] at same
      cases same
      have back := reads _ member' o.1 input
      rw [listed.id_of_object member] at back
      exact .inl ⟨_,back⟩
    · have same := (listed.arranged.loads o.1 op).mpr loads
      rw [listed.found o member] at same
      cases same
      exact .inr ⟨_,reads o member dep input⟩

theorem view_again (accepted : Graph.from_json python order json = .ok graph)
    (unmistaken : UnmistakenIn python json (objects.map Prod.fst)) (order' : SetOrder String) :
    ∃ reloaded, Graph.from_json python order' graph.serialize = .ok reloaded ∧ ∀ id, reloaded.view id = graph.view id := by
  obtain ⟨reloaded,again,read⟩ := listed.reloads accepted unmistaken order'
  have kept := listed.kept_again again read
  have complete := (complete_iff again).mpr kept
  obtain ⟨sorted,_,arranged⟩ := exists_arranged again
  have written : ∀ o ∈ objects, graph.serialize.get? o.2.id = some (o.2.serialize (id_of graph.ops)) := by
    intro o member
    rw [Dict.get?_eq_some,listed.serialize_entries]
    exact List.mem_map_of_mem member
  have same_id : ∀ key ∈ json.keys, id_of reloaded.ops (id_of graph.ops key) = id_of graph.ops key := by
    intro key present
    obtain ⟨op,member⟩ := listed.all key present
    rw [listed.id_of_object member]
    exact arranged.id_is (written _ member)
  have viewed : ∀ o ∈ objects, reloaded.view o.2.id = graph.view o.2.id := by
    intro o member
    have place : reloaded.order.get? o.2.id = some o.2.id := complete _ _ (written o member)
    obtain ⟨data,_,loaded⟩ := (listed.loads_object member).entry
    have linked := op_linked loaded
    have settled : (o.2.rename (id_of graph.ops)).rename (id_of reloaded.ops) = o.2.rename (id_of graph.ops) :=
      rename_again linked fun key input => same_id key (takeWhile_subset _ (linked.known key input))
    rw [listed.view_object member]
    simp [Graph.view,place,read o member,settled]
  refine ⟨reloaded,again,fun id => ?_⟩
  cases here : graph.view id with
  | some op =>
      obtain ⟨o,member,rfl,_⟩ := listed.view_some here
      rw [viewed o member,here]
  | none =>
      cases there : reloaded.view id with
      | none => rfl
      | some op =>
          obtain ⟨op',found,rfl⟩ := Option.map_eq_some_iff.mp there
          obtain ⟨key,place,_⟩ := Option.bind_eq_some_iff.mp found
          rw [arranged.order] at place
          rcases get?_by_id sorted Dict.empty place with none_yet | ⟨member,same⟩
          · cases none_yet
          · obtain ⟨data,entry⟩ := Dict.mem_keys_iff.mp (arranged.sorted_known member)
            have known := entry
            rw [Dict.get?_eq_some,listed.serialize_entries] at known
            obtain ⟨o,inside,made⟩ := List.mem_map.mp known
            cases made
            rw [arranged.id_is entry] at same
            have shown := listed.view_object inside
            change o.2.id = id at same
            rw [same,here] at shown
            cases shown

-- Ids stand in the loaded graph as their operations were sorted.
theorem precedes_iff {key key' : String} (present : key ∈ json.keys) (present' : key' ∈ json.keys) :
    Precedes graph.order.keys (id_of graph.ops key) (id_of graph.ops key') ↔ Precedes (objects.map Prod.fst) key key' := by
  have sorted : ∀ key ∈ json.keys, key ∈ objects.map Prod.fst := fun key present => by
    obtain ⟨op,member⟩ := listed.all key present
    exact List.mem_map_of_mem member
  have ids : ∀ key ∈ json.keys, id_of graph.ops key ∈ (objects.map Prod.fst).map (id_of graph.ops) :=
    fun key present => List.mem_map_of_mem (sorted key present)
  unfold Precedes
  rw [listed.order_keys,← listed.keys_ids,idxOf_map_of_nodup _ listed.keys_distinct (sorted key present),
    idxOf_map_of_nodup _ listed.keys_distinct (sorted key' present')]
  exact ⟨fun h => ⟨h.1,sorted key' present'⟩,fun h => ⟨h.1,ids key' present'⟩⟩

-- Every reference stands before its reader: inputs by the sort, columns by the condition.
theorem references_before (unmistaken : UnmistakenIn python json (objects.map Prod.fst)) :
    ∀ id op, graph.view id = some op → ∀ ref ∈ op.inputs ++ rowwise_nodes op.body,
      (∃ key data, json.get? key = some data ∧ data.id = ref) → Precedes graph.order.keys ref id := by
  rintro id op viewed ref member ⟨key',data',entry',rfl⟩
  obtain ⟨o,inside,rfl,rfl⟩ := listed.view_some viewed
  have loads := listed.loads_object inside
  have known : key' ∈ json.keys := Dict.mem_keys_iff.mpr ⟨data',entry'⟩
  have reader : o.1 ∈ json.keys := listed.arranged.sorted_known (List.mem_map_of_mem inside)
  rw [← listed.arranged.id_is entry',← listed.id_of_object inside,listed.precedes_iff known reader]
  rcases List.mem_append.mp member with input | column
  · obtain ⟨dep,dep_input,same⟩ := List.mem_map.mp input
    have reads : Reads python json o.1 dep := ⟨o.2,loads,dep_input⟩
    have dep_known := takeWhile_subset _ (listed.arranged.reads_known reads).2
    rw [← listed.arranged.id_is entry'] at same
    rw [← listed.injective dep_known known same]
    exact ⟨listed.arranged.reads_before reads,List.mem_map_of_mem inside⟩
  · have column : data'.id ∈ rowwise_nodes o.2.body := by
      obtain ⟨key,⟨id,inputs,max_iter,body⟩⟩ := o
      cases body <;> exact column
    exact unmistaken.columns o.1 o.2 loads _ column key' data' entry' rfl

end Listed
end

end Lumilake.Graphs

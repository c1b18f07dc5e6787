import Lumilake.Runtime.DataProfile

-- What the listing of some folders holds: the files of the store under one of them.
namespace Lumilake.DataProfile
open FormatString (Text)

-- A key that stands for a file.
def Visible (key : Text) : Prop := key ≠ [] ∧ ends_with_slash key = false

-- The listing of a folder reaches a key.
def Under (folder key : Text) : Prop := strip_slash folder = [] ∨ strip_slash folder ++ ['/'] <+: key

theorem rstrip_slash_idem (text : Text) : rstrip_slash (rstrip_slash text) = rstrip_slash text := List.rdropWhile_idempotent _ _

theorem rstrip_slash_snoc (text : Text) : rstrip_slash (text ++ ['/']) = rstrip_slash text :=
  List.rdropWhile_concat_pos _ _ _ rfl

theorem rstrip_strip_slash (folder : Text) : rstrip_slash (strip_slash folder) = strip_slash folder := rstrip_slash_idem _

theorem full_key_root (rel : Text) : full_key [] rel = rel := rfl

theorem full_key_folder {norm : Text} (folder : norm ≠ []) (rel : Text) : full_key norm rel = norm ++ ['/'] ++ rel := by
  rw [full_key,if_neg folder,List.append_assoc,List.singleton_append]

-- The key that an object of the answer is kept under.
def relative (norm : Text) (obj : Text × Option Int) : Option (Text × Option Int) :=
  if norm = [] then if obj.1 = [] then none else some obj
  else if norm ++ ['/'] <+: obj.1 then
    if obj.1.drop (norm.length + 1) = [] then none else some (obj.1.drop (norm.length + 1),obj.2)
  else none

theorem relative_eq_some {norm : Text} {obj e : Text × Option Int} :
    relative norm obj = some e ↔ e.1 ≠ [] ∧ obj = (full_key norm e.1,e.2) := by
  obtain ⟨key,size⟩ := obj
  obtain ⟨rel,size'⟩ := e
  unfold relative
  split
  · rename_i root
    subst root
    split
    · rename_i empty
      simp only [reduceCtorEq,full_key_root,Prod.mk.injEq,false_iff]
      rintro ⟨some,rfl,_⟩
      exact some empty
    · rename_i some
      simp only [Option.some.injEq,Prod.mk.injEq,full_key_root]
      constructor
      · rintro ⟨rfl,rfl⟩
        exact ⟨some,rfl,rfl⟩
      · rintro ⟨_,rfl,rfl⟩
        exact ⟨rfl,rfl⟩
  · rename_i folder
    have dropped (tail : Text) : (norm ++ ['/'] ++ tail).drop (norm.length + 1) = tail :=
      List.drop_left' (by rw [List.length_append,List.length_singleton])
    rw [full_key_folder folder]
    split
    · rename_i below
      obtain ⟨tail,rfl⟩ := below
      rw [dropped]
      split
      · rename_i empty
        subst empty
        simp only [reduceCtorEq,false_iff,Prod.mk.injEq]
        rintro ⟨some,same,_⟩
        exact some (List.append_cancel_left same).symm
      · rename_i some
        simp only [Option.some.injEq,Prod.mk.injEq]
        constructor
        · rintro ⟨rfl,rfl⟩
          exact ⟨some,rfl,rfl⟩
        · rintro ⟨_,same,rfl⟩
          exact ⟨List.append_cancel_left same,rfl⟩
    · rename_i apart
      simp only [reduceCtorEq,false_iff,Prod.mk.injEq]
      rintro ⟨_,rfl,_⟩
      exact apart (List.prefix_append _ _)

-- The service's answer is relative to the prefix.
theorem mem_list_blobs {store : Store} {norm : Text} (stripped : rstrip_slash norm = norm) {e : Text × Option Int} :
    e ∈ (list_blobs store (if norm = [] then [] else norm ++ ['/'])).entries ↔
      e.1 ≠ [] ∧ (full_key norm e.1,e.2) ∈ store.entries := by
  have prefix_norm : rstrip_slash (if norm = [] then [] else norm ++ ['/']) = norm := by
    split
    · rename_i root
      rw [root]
      rfl
    · rw [rstrip_slash_snoc,stripped]
  -- Each turn writes what `relative` says.
  have turns : list_blobs store (if norm = [] then [] else norm ++ ['/']) =
      (store.entries.filter fun obj => decide ((if norm = [] then [] else norm ++ ['/']) <+: obj.1)).foldl
        (fun sizes obj => (relative norm obj).elim sizes fun e => sizes.set e.1 e.2) Dict.empty := by
    unfold list_blobs
    rw [prefix_norm]
    dsimp only
    congr 1
    funext sizes obj
    unfold relative
    by_cases root : norm = []
    · subst root
      by_cases empty : obj.1 = [] <;> simp [empty]
    · by_cases below : norm ++ ['/'] <+: obj.1
      · have some : obj.1 ≠ [] := fun empty => by rw [empty] at below; simpa using below.length_le
        by_cases empty : obj.1.drop (norm.length + 1) = [] <;> simp [root,below,some,empty]
      · by_cases empty : obj.1 = [] <;> simp [root,below,empty]
  have single (k : Text) (v w : Option Int) (one : (full_key norm k,v) ∈ store.entries) (other : (full_key norm k,w) ∈ store.entries) :
      v = w := Dict.value_unique one other
  rw [turns,Dict.mem_entries_foldl_agreeing single (relative norm) (fun e member => absurd member List.not_mem_nil)]
  · constructor
    · rintro (none | ⟨obj,member,writes⟩)
      · exact absurd none List.not_mem_nil
      · obtain ⟨some,same⟩ := relative_eq_some.mp writes
        exact ⟨some,same ▸ (List.mem_filter.mp member).1⟩
    · rintro ⟨some,member⟩
      refine .inr ⟨_,List.mem_filter.mpr ⟨member,decide_eq_true ?_⟩,relative_eq_some.mpr ⟨some,rfl⟩⟩
      split
      · exact List.nil_prefix
      · rename_i folder
        rw [full_key_folder folder]
        exact List.prefix_append _ _
  · intro obj member e writes
    exact (relative_eq_some.mp writes).2 ▸ (List.mem_filter.mp member).1

theorem full_key_visible {norm : Text} {e : Text × Option Int} (some : e.1 ≠ []) :
    Visible (full_key norm e.1) ↔ ends_with_slash e.1 = false := by
  unfold Visible full_key
  split
  · exact and_iff_right some
  · have last : (norm ++ '/' :: e.1).getLast? = e.1.getLast? := by
      rw [List.getLast?_append,List.getLast?_cons]
      cases tail : e.1.getLast? with
      | none => exact absurd (List.getLast?_eq_none_iff.mp tail) some
      | some c => rfl
    rw [and_iff_right (List.append_ne_nil_of_right_ne_nil _ (List.cons_ne_nil _ _)),ends_with_slash,last,ends_with_slash]

-- A key below a folder is the folder and what the service calls it.
theorem under_iff {folder key : Text} (some : key ≠ []) (file : ends_with_slash key = false) :
    Under folder key ↔ ∃ rel, rel ≠ [] ∧ full_key (strip_slash folder) rel = key := by
  unfold Under
  by_cases root : strip_slash folder = []
  · rw [root]
    exact iff_of_true (.inl rfl) ⟨key,some,rfl⟩
  · rw [or_iff_right root]
    constructor
    · rintro ⟨rel,same⟩
      refine ⟨rel,?_,(full_key_folder root rel).trans same⟩
      rintro rfl
      rw [List.append_nil] at same
      subst same
      rw [ends_with_slash,List.getLast?_append] at file
      cases file
    · rintro ⟨rel,_,rfl⟩
      rw [full_key_folder root]
      exact List.prefix_append _ _

section
variable {store : Store}

-- The sizes found so far are those of the store.
def Within (store : Store) (sizes : Dict Text (Option Int)) : Prop := ∀ e ∈ sizes.entries, (e.1,e.2) ∈ store.entries

theorem mem_add_blobs {norm : Text} {found : Listing} (within : Within store found.1) {blobs : List (Text × Option Int)}
    (known : ∀ e ∈ blobs, e.1 ≠ [] ∧ (full_key norm e.1,e.2) ∈ store.entries) :
    Within store (blobs.foldl (add_blob norm) found).1 ∧
      ∀ e, e ∈ (blobs.foldl (add_blob norm) found).1.entries ↔
        e ∈ found.1.entries ∨ Visible e.1 ∧ ∃ x ∈ blobs, (full_key norm x.1,x.2) = e := by
  induction blobs generalizing found with
  | nil => exact ⟨within,fun e => by simp⟩
  | cons x rest ih =>
      have later := fun e (member : e ∈ rest) => known e (List.mem_cons_of_mem _ member)
      obtain ⟨some,here⟩ := known x List.mem_cons_self
      have visible : Visible (full_key norm x.1) ↔ ends_with_slash x.1 = false := full_key_visible some
      rw [List.foldl_cons]
      by_cases folder : ends_with_slash x.1 = true
      · have same : add_blob norm found x = found := by rw [add_blob,if_pos folder]
        rw [same]
        obtain ⟨now,members⟩ := ih within later
        refine ⟨now,fun e => (members e).trans (or_congr_right (and_congr_right fun seen => ?_))⟩
        rw [List.exists_mem_cons_iff,or_iff_right]
        rintro rfl
        rw [visible.mp seen] at folder
        cases folder
      · have file : ends_with_slash x.1 = false := Bool.eq_false_of_not_eq_true folder
        have written : (add_blob norm found x).1 = found.1.set (full_key norm x.1) x.2 := by rw [add_blob,if_neg folder]
        have single (k : Text) (v w : Option Int) (one : (k,v) ∈ store.entries) (other : (k,w) ∈ store.entries) : v = w :=
          Dict.value_unique one other
        have set (e : Text × Option Int) := Dict.mem_entries_set_agreeing (e := e) single within here
        have within' : Within store (add_blob norm found x).1 := by
          rw [written]
          exact fun e member => ((set e).mp member).elim (within e) (fun same => same ▸ here)
        obtain ⟨now,members⟩ := ih within' later
        refine ⟨now,fun e => (members e).trans ?_⟩
        rw [written,set e,List.exists_mem_cons_iff,or_assoc]
        refine or_congr_right ?_
        constructor
        · rintro (rfl | ⟨seen,below⟩)
          · exact ⟨visible.mpr file,.inl rfl⟩
          · exact ⟨seen,.inr below⟩
        · rintro ⟨seen,same | below⟩
          · exact .inl same.symm
          · exact .inr ⟨seen,below⟩

-- What has been listed after some of the folders.
structure Progress (store : Store) (folders : List Text) (s : Listed) : Prop where
  within : Within store s.sizes
  seen : ∀ norm, norm ∈ s.seen ↔ ∃ folder ∈ folders, strip_slash folder = norm
  listed : ∀ e, e ∈ s.sizes.entries ↔ e ∈ store.entries ∧ Visible e.1 ∧ ∃ folder ∈ folders, Under folder e.1

theorem Progress.step {folders : List Text} {s : Listed} (progress : Progress store folders s) (folder : Text) :
    Progress store (folders ++ [folder]) (list_folder store s folder) := by
  have covers (e : Text × Option Int) :
      (∃ f ∈ folders ++ [folder], Under f e.1) ↔ (∃ f ∈ folders, Under f e.1) ∨ Under folder e.1 := by
    simp only [List.mem_append,List.mem_singleton,or_and_right,exists_or,exists_eq_left]
  unfold list_folder
  dsimp only
  split
  · rename_i old
    obtain ⟨before,member,same⟩ := (progress.seen _).mp old
    have under (key : Text) : Under folder key ↔ Under before key := by rw [Under,Under,same]
    refine ⟨progress.within,fun norm => ?_,fun e => ?_⟩
    · rw [progress.seen norm]
      simp only [List.mem_append,List.mem_singleton,or_and_right,exists_or,exists_eq_left]
      exact ⟨.inl,fun now => now.elim id (fun here => ⟨before,member,same.trans here⟩)⟩
    · rw [progress.listed e,covers,or_iff_left_of_imp]
      exact fun below => ⟨before,member,(under e.1).mp below⟩
  · have answer (e : Text × Option Int) :
        e ∈ (list_blobs store (if strip_slash folder = [] then [] else strip_slash folder ++ ['/'])).entries ↔
          e.1 ≠ [] ∧ (full_key (strip_slash folder) e.1,e.2) ∈ store.entries := mem_list_blobs (rstrip_strip_slash folder)
    have start : Within store ((s.sizes,s.folder_paths ++ [if strip_slash folder = [] then [] else strip_slash folder ++ ['/']]) : Listing).1 :=
      progress.within
    obtain ⟨within,members⟩ := mem_add_blobs start fun e member => (answer e).mp member
    refine ⟨within,fun norm => ?_,fun e => ?_⟩
    · rw [List.mem_cons,progress.seen norm]
      simp only [List.mem_append,List.mem_singleton,or_and_right,exists_or,exists_eq_left]
      exact or_comm.trans (or_congr_right eq_comm)
    · refine (members e).trans ?_
      rw [progress.listed e,covers]
      constructor
      · rintro (⟨member,seen,below⟩ | ⟨seen,x,there,rfl⟩)
        · exact ⟨member,seen,.inl below⟩
        · obtain ⟨some,member⟩ := (answer x).mp there
          exact ⟨member,seen,.inr ((under_iff seen.1 seen.2).mpr ⟨x.1,some,rfl⟩)⟩
      · rintro ⟨member,seen,below | below⟩
        · exact .inl ⟨member,seen,below⟩
        · obtain ⟨rel,some,same⟩ := (under_iff seen.1 seen.2).mp below
          refine .inr ⟨seen,(rel,e.2),(answer (rel,e.2)).mpr ⟨some,?_⟩,Prod.ext same rfl⟩
          rw [same]
          exact member

end

end Lumilake.DataProfile

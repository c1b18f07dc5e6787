import Lumilake.Library.Runs
import Lumilake.Server.ArtifactMoves

namespace Lumilake.Artifacts
open Traversal

-- A file that an execution has stored for an item: where FlowMesh has it, and the item's URI.
structure Product where
  execution_id : String
  task_id : String
  path : String
  uri : String
  deriving DecidableEq

-- The outputs or histories of a workflow as an execution has them, and what its request gets.
structure Delivery where
  execution_id : String
  request_id : String
  payload : Value
  result : Value
  deriving DecidableEq

structure World (Data : Type) where
  blobs : Blobs Data
  requests : List String
  running : List String
  ended : List String
  products : List Product
  delivered : List Delivery

-- Any executions at once: `aggregate` takes one output node of one, `deliver` is the end of one.
inductive Move where
  | submit (request_id : String)
  | start (execution_id : String)
  | aggregate (call : ArchiveCall) (items : List Spec) (unavailable : String → Option String)
  | deliver (execution_id : String) (payloads : List (String × Value)) (refused : List String)

namespace World
variable {Data : Type}

def empty : World Data := ⟨Dict.empty,[],[],[],[],[]⟩

-- The ids of `unique_id` have no slash and are new.
def unused (w : World Data) (id : String) : Prop := '/' ∉ id.toList ∧ id ∉ w.requests ∧ id ∉ w.running ∧ id ∉ w.ended

instance (w : World Data) (id : String) : Decidable (w.unused id) := inferInstanceAs (Decidable (_ ∧ _))

def finish (w : World Data) (execution_id : String) : World Data :=
  { w with running := w.running.filter (· ≠ execution_id), ended := execution_id :: w.ended }

section
variable (S3_ARCHIVE_PREFIX : String) (repr : Value → String) (codec : Codec) (limit : Nat) (fm : FlowMesh Data)

def product_of (call : ArchiveCall) (it : Spec) (archived : Archived) : Option Product :=
  match item_path repr call.ref_key it,archived with
  | .ok (_,path),.stored uri _ => some ⟨call.request_id,call.output_task_id,path,uri⟩
  | _,_ => none

def products_of (call : ArchiveCall) (items : List Spec) (archived : List Archived) : List Product :=
  (items.zip archived).filterMap fun pair => product_of repr call pair.1 pair.2

def aggregate (w : World Data) (call : ArchiveCall) (items : List Spec) (unavailable : String → Option String) : World Data :=
  let s := archive_artifact_items S3_ARCHIVE_PREFIX repr fm call unavailable w.blobs items
  let w := { w with blobs := s.blobs }
  match s.raised with
  | none => { w with products := w.products ++ products_of repr call items s.archived }
  | some _ => w.finish call.request_id

def deliver (w : World Data) (execution_id : String) (payloads : List (String × Value)) (refused : List String) : World Data :=
  let relocated := each (fun target => relocate_artifacts_for_request S3_ARCHIVE_PREFIX codec refused limit execution_id target.1 target.2)
    payloads ⟨w.blobs,Dict.empty⟩
  let w := ({ w with blobs := relocated.2.blobs }).finish execution_id
  match relocated.1 with
  | .error _ => w
  | .ok results =>
    { w with
      delivered := w.delivered ++ List.zipWith (fun target result => ⟨execution_id,target.1,target.2,result⟩) payloads results }

def act (w : World Data) : Move → World Data
  | .submit request_id => if w.unused request_id then { w with requests := request_id :: w.requests } else w
  | .start execution_id => if w.unused execution_id then { w with running := execution_id :: w.running } else w
  | .aggregate call items unavailable =>
    if call.request_id ∈ w.running then aggregate S3_ARCHIVE_PREFIX repr fm w call items unavailable else w
  | .deliver execution_id payloads refused =>
    if execution_id ∈ w.running ∧ ∀ target ∈ payloads, target.1 ∈ w.requests then
      deliver S3_ARCHIVE_PREFIX codec limit w execution_id payloads refused
    else w

-- An item's URI stands in what a delivery takes over.
def Shown (w : World Data) (d : Delivery) (p : Product) : Prop :=
  p ∈ w.products ∧ p.execution_id = d.execution_id ∧ p.uri ∈ texts codec limit d.payload

-- Each URI of an item became one under which the bytes of the item are stored, and two
-- different files of a request have two names.
def Intact (w : World Data) : Prop := ∃ g : Delivery → String → String,
  (∀ d ∈ w.delivered, d.result = map_texts codec (g d) limit d.payload ∧
    ∀ p, w.Shown codec limit d p → ∃ content_type, w.blobs.get? (g d p.uri) = some (fm.file p.task_id p.path,content_type)) ∧
  ∀ d ∈ w.delivered, ∀ d' ∈ w.delivered, d.request_id = d'.request_id →
    ∀ p, w.Shown codec limit d p → ∀ p', w.Shown codec limit d' p' → g d p.uri = g d' p'.uri →
      p.execution_id = p'.execution_id ∧ p.task_id = p'.task_id ∧ p.path = p'.path

-- The files of an execution have different stored names, each readable in its URI, and what
-- is relocated to a request has no name that another execution's file has there.
structure ClearArchive (w : World Data) (call : ArchiveCall) (items : List Spec) (unavailable : String → Option String) : Prop where
  apart : Apart repr call unavailable items
  readable : ∀ file ∈ brought repr call unavailable items,
    artifact_filename_from_uri (artifact_name S3_ARCHIVE_PREFIX call.request_id file.2) = some file.2
  own : ∀ file ∈ brought repr call unavailable items, ∀ p ∈ w.products, p.execution_id = call.request_id →
    artifact_filename_from_uri p.uri = some file.2 → p.task_id = call.output_task_id ∧ p.path = file.1

-- A file of an earlier delivery has the name in the request's results.
def Taken (w : World Data) (request_id filename : String) : Prop :=
  ∃ d ∈ w.delivered, d.request_id = request_id ∧ ∃ p ∈ w.products, p.execution_id = d.execution_id ∧
    p.uri ∈ texts codec limit d.payload ∧ artifact_filename_from_uri p.uri = some filename

instance (w : World Data) (request_id filename : String) : Decidable (w.Taken codec limit request_id filename) :=
  inferInstanceAs (Decidable (∃ d ∈ w.delivered, d.request_id = request_id ∧ ∃ p ∈ w.products,
    p.execution_id = d.execution_id ∧ p.uri ∈ texts codec limit d.payload ∧ artifact_filename_from_uri p.uri = some filename))

def ClearDelivery (w : World Data) (execution_id : String) (payloads : List (String × Value)) : Prop :=
  ∀ target ∈ payloads, ∀ text ∈ texts codec limit target.2, ∀ filename ∈ named_file execution_id target.1 text,
    (get_artifact S3_ARCHIVE_PREFIX w.blobs execution_id filename).isSome → ¬w.Taken codec limit target.1 filename

def Clear (w : World Data) : Move → Prop
  | .aggregate call items unavailable => ClearArchive S3_ARCHIVE_PREFIX repr w call items unavailable
  | .deliver execution_id payloads _ => ClearDelivery S3_ARCHIVE_PREFIX codec limit w execution_id payloads
  | _ => True

instance (w : World Data) (call : ArchiveCall) (items : List Spec) (unavailable : String → Option String) :
    Decidable (ClearArchive S3_ARCHIVE_PREFIX repr w call items unavailable) :=
  decidable_of_iff (Apart repr call unavailable items ∧ (∀ file ∈ brought repr call unavailable items,
      artifact_filename_from_uri (artifact_name S3_ARCHIVE_PREFIX call.request_id file.2) = some file.2) ∧
    ∀ file ∈ brought repr call unavailable items, ∀ p ∈ w.products, p.execution_id = call.request_id →
      artifact_filename_from_uri p.uri = some file.2 → p.task_id = call.output_task_id ∧ p.path = file.1)
    ⟨fun h => ⟨h.1,h.2.1,h.2.2⟩,fun h => ⟨h.1,h.2,h.3⟩⟩

instance (w : World Data) (execution_id : String) (payloads : List (String × Value)) :
    Decidable (ClearDelivery S3_ARCHIVE_PREFIX codec limit w execution_id payloads) :=
  inferInstanceAs (Decidable (∀ target ∈ payloads, ∀ text ∈ texts codec limit target.2,
    ∀ filename ∈ named_file execution_id target.1 text,
      (get_artifact S3_ARCHIVE_PREFIX w.blobs execution_id filename).isSome → ¬w.Taken codec limit target.1 filename))

instance (w : World Data) : (move : Move) → Decidable (Clear S3_ARCHIVE_PREFIX repr codec limit w move)
  | .submit _ => .isTrue trivial
  | .start _ => .isTrue trivial
  | .aggregate call items unavailable => inferInstanceAs (Decidable (ClearArchive S3_ARCHIVE_PREFIX repr w call items unavailable))
  | .deliver execution_id payloads _ => inferInstanceAs (Decidable (ClearDelivery S3_ARCHIVE_PREFIX codec limit w execution_id payloads))

-- What is known of a file that an execution has stored.
structure Kept (w : World Data) (p : Product) : Prop where
  known : p.execution_id ∈ w.running ∨ p.execution_id ∈ w.ended
  named : ∃ filename, p.uri = artifact_name S3_ARCHIVE_PREFIX p.execution_id filename ∧
    artifact_filename_from_uri p.uri = some filename
  stored : ∃ content_type, w.blobs.get? p.uri = some (fm.file p.task_id p.path,content_type)

-- What is known of a delivery.
structure Landed (w : World Data) (d : Delivery) : Prop where
  ended : d.execution_id ∈ w.ended
  known : d.request_id ∈ w.requests
  result : ∃ g, d.result = map_texts codec g limit d.payload ∧ ∀ p, w.Shown codec limit d p →
    ∀ filename, artifact_filename_from_uri p.uri = some filename →
      g p.uri = artifact_name S3_ARCHIVE_PREFIX d.request_id filename ∧
        ∃ content_type, w.blobs.get? (artifact_name S3_ARCHIVE_PREFIX d.request_id filename) = some (fm.file p.task_id p.path,content_type)

structure Sound (w : World Data) : Prop where
  slashless : ∀ id, id ∈ w.requests ∨ id ∈ w.running ∨ id ∈ w.ended → '/' ∉ id.toList
  requests : ∀ id ∈ w.requests, id ∉ w.running ∧ id ∉ w.ended
  running : ∀ id ∈ w.running, id ∉ w.ended
  kept : ∀ p ∈ w.products, Kept S3_ARCHIVE_PREFIX fm w p
  single : ∀ p ∈ w.products, ∀ q ∈ w.products, p.execution_id = q.execution_id →
    artifact_filename_from_uri p.uri = artifact_filename_from_uri q.uri → p.task_id = q.task_id ∧ p.path = q.path
  landed : ∀ d ∈ w.delivered, Landed S3_ARCHIVE_PREFIX codec limit fm w d
  apart : ∀ d ∈ w.delivered, ∀ d' ∈ w.delivered, d.request_id = d'.request_id → d.execution_id ≠ d'.execution_id →
    ∀ p, w.Shown codec limit d p → ∀ p', w.Shown codec limit d' p' →
      artifact_filename_from_uri p.uri ≠ artifact_filename_from_uri p'.uri

end

section
variable {S3_ARCHIVE_PREFIX : String} {repr : Value → String} {codec : Codec} {limit : Nat} {fm : FlowMesh Data} {w : World Data}
  {execution_id : String} {call : ArchiveCall} {items : List Spec} {unavailable : String → Option String}
  {payloads : List (String × Value)} {refused : List String}

theorem mem_products_of {archived : List Archived} {uri_by_path : Dict String String} {p : Product}
    (tells : List.Forall₂ (Tells repr call uri_by_path) items archived) (member : p ∈ products_of repr call items archived) :
    p.execution_id = call.request_id ∧ p.task_id = call.output_task_id ∧ uri_by_path.get? p.path = some p.uri := by
  obtain ⟨pair,paired,made⟩ := List.mem_filterMap.mp member
  have told := List.forall₂_zip tells paired
  cases entry : pair.2 with
  | failed error => simp [product_of,entry] at made
  | stored uri fields =>
      rw [entry] at told
      obtain ⟨ref,path,place,found⟩ := told
      simp only [product_of,place,entry,Option.some.injEq] at made
      subst made
      exact ⟨rfl,rfl,found⟩

theorem submit_sound (sound : Sound S3_ARCHIVE_PREFIX codec limit fm w) (unused : w.unused new_id) :
    Sound S3_ARCHIVE_PREFIX codec limit fm { w with requests := new_id :: w.requests } where
  slashless := by
    intro other here
    rcases here with request | rest
    · rcases List.mem_cons.mp request with rfl | old
      · exact unused.1
      · exact sound.slashless other (.inl old)
    · exact sound.slashless other (.inr rest)
  requests := by
    intro other here
    rcases List.mem_cons.mp here with rfl | old
    · exact unused.2.2
    · exact sound.requests other old
  running := sound.running
  kept := fun p member => ⟨(sound.kept p member).known,(sound.kept p member).named,(sound.kept p member).stored⟩
  single := sound.single
  landed := fun d member => ⟨(sound.landed d member).ended,List.mem_cons_of_mem _ (sound.landed d member).known,
    (sound.landed d member).result⟩
  apart := sound.apart

theorem start_sound (sound : Sound S3_ARCHIVE_PREFIX codec limit fm w) (unused : w.unused new_id) :
    Sound S3_ARCHIVE_PREFIX codec limit fm { w with running := new_id :: w.running } where
  slashless := by
    intro other here
    rcases here with request | running | ended
    · exact sound.slashless other (.inl request)
    · rcases List.mem_cons.mp running with rfl | old
      · exact unused.1
      · exact sound.slashless other (.inr (.inl old))
    · exact sound.slashless other (.inr (.inr ended))
  requests := by
    intro other here
    refine ⟨fun running => ?_,(sound.requests other here).2⟩
    rcases List.mem_cons.mp running with rfl | old
    · exact unused.2.1 here
    · exact (sound.requests other here).1 old
  running := by
    intro other here
    rcases List.mem_cons.mp here with rfl | old
    · exact unused.2.2.2
    · exact sound.running other old
  kept := fun p member => ⟨(sound.kept p member).known.imp_left (List.mem_cons_of_mem _),(sound.kept p member).named,
    (sound.kept p member).stored⟩
  single := sound.single
  landed := fun d member => ⟨(sound.landed d member).ended,(sound.landed d member).known,(sound.landed d member).result⟩
  apart := sound.apart

-- An execution that ends takes its id along.
theorem finish_sound (sound : Sound S3_ARCHIVE_PREFIX codec limit fm w) (here : execution_id ∈ w.running) :
    Sound S3_ARCHIVE_PREFIX codec limit fm (w.finish execution_id) where
  slashless := by
    intro other member
    rcases member with request | running | ended
    · exact sound.slashless other (.inl request)
    · exact sound.slashless other (.inr (.inl (List.mem_filter.mp running).1))
    · rcases List.mem_cons.mp ended with rfl | old
      · exact sound.slashless _ (.inr (.inl here))
      · exact sound.slashless other (.inr (.inr old))
  requests := by
    intro other member
    refine ⟨fun running => (sound.requests other member).1 (List.mem_filter.mp running).1,fun ended => ?_⟩
    rcases List.mem_cons.mp ended with rfl | old
    · exact (sound.requests _ member).1 here
    · exact (sound.requests other member).2 old
  running := by
    intro other member ended
    obtain ⟨running,different⟩ := List.mem_filter.mp member
    rcases List.mem_cons.mp ended with rfl | old
    · simp at different
    · exact sound.running other running old
  kept := by
    intro p member
    have kept := sound.kept p member
    refine ⟨?_,kept.named,kept.stored⟩
    by_cases same : p.execution_id = execution_id
    · exact .inr (same ▸ List.mem_cons_self)
    · exact kept.known.imp (fun running => List.mem_filter.mpr ⟨running,by simpa using same⟩) (List.mem_cons_of_mem _)
  single := sound.single
  landed := fun d member => ⟨List.mem_cons_of_mem _ (sound.landed d member).ended,(sound.landed d member).known,
    (sound.landed d member).result⟩
  apart := sound.apart

-- New blobs in which every file and every delivered copy has the bytes it had.
theorem write_sound (sound : Sound S3_ARCHIVE_PREFIX codec limit fm w) (blobs : Blobs Data)
    (files : ∀ p ∈ w.products, ∃ content_type, blobs.get? p.uri = some (fm.file p.task_id p.path,content_type))
    (copies : ∀ d ∈ w.delivered, ∀ p, w.Shown codec limit d p → ∀ filename, artifact_filename_from_uri p.uri = some filename →
      blobs.get? (artifact_name S3_ARCHIVE_PREFIX d.request_id filename) =
        w.blobs.get? (artifact_name S3_ARCHIVE_PREFIX d.request_id filename)) :
    Sound S3_ARCHIVE_PREFIX codec limit fm { w with blobs := blobs } where
  slashless := sound.slashless
  requests := sound.requests
  running := sound.running
  kept := fun p member => ⟨(sound.kept p member).known,(sound.kept p member).named,files p member⟩
  single := sound.single
  landed := by
    intro d member
    obtain ⟨ended,known,g,result,shown⟩ := sound.landed d member
    refine ⟨ended,known,g,result,fun p here filename named => ?_⟩
    obtain ⟨same,content_type,stored⟩ := shown p here filename named
    exact ⟨same,content_type,(copies d member p here filename named).trans stored⟩
  apart := sound.apart

theorem aggregate_sound (sound : Sound S3_ARCHIVE_PREFIX codec limit fm w) (here : call.request_id ∈ w.running)
    (clear : ClearArchive S3_ARCHIVE_PREFIX repr w call items unavailable) :
    Sound S3_ARCHIVE_PREFIX codec limit fm (aggregate S3_ARCHIVE_PREFIX repr fm w call items unavailable) := by
  have slashless := sound.slashless _ (.inr (.inl here))
  have shelved : Shelved S3_ARCHIVE_PREFIX repr fm call unavailable w.blobs items items
      (archive_artifact_items S3_ARCHIVE_PREFIX repr fm call unavailable w.blobs items) := archive_shelved slashless clear.apart
  have written : Sound S3_ARCHIVE_PREFIX codec limit fm { w with
      blobs := (archive_artifact_items S3_ARCHIVE_PREFIX repr fm call unavailable w.blobs items).blobs } := by
    refine write_sound sound _ (fun p member => ?_) fun d member p shown filename named => ?_
    · obtain ⟨known,⟨filename,name,named⟩,stored⟩ := sound.kept p member
      rcases shelved.rest p.uri with same | ⟨path,file,brings,equal,there⟩
      · obtain ⟨content_type,stored⟩ := stored
        exact ⟨content_type,same.trans stored⟩
      · have own := artifact_name_injective (sound.slashless _ (.inr known)) slashless (name.symm.trans equal)
        obtain ⟨task,path_same⟩ := clear.own (path,file) brings p member own.1 (own.2 ▸ named)
        rw [task,path_same]
        exact there
    · rcases shelved.rest (artifact_name S3_ARCHIVE_PREFIX d.request_id filename) with same | ⟨path,file,brings,equal,there⟩
      · exact same
      · have known := (sound.landed d member).known
        have own := artifact_name_injective (sound.slashless _ (.inl known)) slashless equal
        exact absurd here (own.1 ▸ (sound.requests _ known).1)
  unfold aggregate
  dsimp only
  split
  · rename_i done
    have entries := shelved.entries done
    have fresh : ∀ p ∈ products_of repr call items (archive_artifact_items S3_ARCHIVE_PREFIX repr fm call unavailable w.blobs
        items).archived, p.execution_id = call.request_id ∧ p.task_id = call.output_task_id ∧
        ∃ filename, (p.path,filename) ∈ brought repr call unavailable items ∧
          p.uri = artifact_name S3_ARCHIVE_PREFIX call.request_id filename ∧ artifact_filename_from_uri p.uri = some filename ∧
          ∃ content_type, (archive_artifact_items S3_ARCHIVE_PREFIX repr fm call unavailable w.blobs items).blobs.get? p.uri =
            some (fm.file call.output_task_id p.path,content_type) := by
      intro p member
      obtain ⟨execution,task,found⟩ := mem_products_of entries member
      obtain ⟨filename,brings,name,stored⟩ := shelved.shelf p.path p.uri found
      exact ⟨execution,task,filename,brings,name,name ▸ clear.readable (p.path,filename) brings,stored⟩
    have unseen : ∀ d ∈ w.delivered, ∀ p, ({ w with
        blobs := (archive_artifact_items S3_ARCHIVE_PREFIX repr fm call unavailable w.blobs items).blobs
        products := w.products ++ products_of repr call items (archive_artifact_items S3_ARCHIVE_PREFIX repr fm call unavailable
          w.blobs items).archived } : World Data).Shown codec limit d p → w.Shown codec limit d p := by
      intro d member p shown
      obtain ⟨listed,own,text⟩ := shown
      rcases List.mem_append.mp listed with old | new
      · exact ⟨old,own,text⟩
      · have ended := (sound.landed d member).ended
        rw [← own,(fresh p new).1] at ended
        exact absurd ended (sound.running _ here)
    refine ⟨sound.slashless,sound.requests,sound.running,fun p member => ?_,fun p member q also same_execution same => ?_,
      fun d member => ?_,fun d member d' member' same different p shown p' shown' => ?_⟩
    · rcases List.mem_append.mp member with old | new
      · exact ⟨(written.kept p old).known,(written.kept p old).named,(written.kept p old).stored⟩
      · obtain ⟨execution,task,filename,_,name,named,stored⟩ := fresh p new
        exact ⟨.inl (execution ▸ here),⟨filename,execution ▸ name,named⟩,by rw [task]; exact stored⟩
    · rcases List.mem_append.mp member with old | new <;> rcases List.mem_append.mp also with old' | new'
      · exact sound.single p old q old' same_execution same
      · obtain ⟨execution,task,filename,brings,_,named,_⟩ := fresh q new'
        obtain ⟨one,two⟩ := clear.own (q.path,filename) brings p old (same_execution.trans execution) (same.trans named)
        exact ⟨one.trans task.symm,two⟩
      · obtain ⟨execution,task,filename,brings,_,named,_⟩ := fresh p new
        obtain ⟨one,two⟩ := clear.own (p.path,filename) brings q old' (same_execution.symm.trans execution) (same.symm.trans named)
        exact ⟨task.trans one.symm,two.symm⟩
      · obtain ⟨_,task,filename,brings,_,named,_⟩ := fresh p new
        obtain ⟨_,task',filename',brings',_,named',_⟩ := fresh q new'
        have equal : filename = filename' := Option.some.inj (named.symm.trans (same.trans named'))
        subst equal
        exact ⟨task.trans task'.symm,clear.apart (p.path,filename) brings (q.path,filename) brings' rfl⟩
    · obtain ⟨ended,known,g,result,shown⟩ := written.landed d member
      exact ⟨ended,known,g,result,fun p here => shown p (unseen d member p here)⟩
    · exact sound.apart d member d' member' same different p (unseen d member p shown) p' (unseen d' member' p' shown')
  · exact finish_sound written here

-- The relocations of a delivery: what is asked for, and what has become of the blobs after it.
def Asked (codec : Codec) (limit : Nat) (execution_id : String) (payloads : List (String × Value)) (request_id filename : String) : Prop :=
  ∃ target ∈ payloads, target.1 = request_id ∧ ∃ text ∈ texts codec limit target.2,
    named_file execution_id request_id text = some filename

theorem deliver_passes (S3_ARCHIVE_PREFIX : String) (codec : Codec) (limit : Nat) (w : World Data) (refused : List String) (own : '/' ∉ execution_id.toList)
    (plain : ∀ target ∈ payloads, '/' ∉ target.1.toList) :
    Passes (Moving S3_ARCHIVE_PREFIX w.blobs execution_id (Asked codec limit execution_id payloads))
      (Copied S3_ARCHIVE_PREFIX w.blobs execution_id)
      (payloads.map fun target => map_texts codec (moved S3_ARCHIVE_PREFIX w.blobs execution_id target.1) limit target.2)
      (payloads.flatMap fun target => (texts codec limit target.2).map fun text => (target.1,text)) ⟨w.blobs,Dict.empty⟩
      (each (fun target => relocate_artifacts_for_request S3_ARCHIVE_PREFIX codec refused limit execution_id target.1 target.2)
        payloads ⟨w.blobs,Dict.empty⟩) := by
  refine passes_each (fun target member s moving => ?_) _ (moving_start w.blobs)
  refine relocate_payload_passes refused limit target.2 ?_ own (fun text here filename named => ⟨target,member,rfl,text,here,named⟩) moving
  rintro r f ⟨asking,asked,rfl,_⟩
  exact plain asking asked

-- A file that is shown in a delivery is named by its text, and is stored.
theorem shown_named (sound : Sound S3_ARCHIVE_PREFIX codec limit fm w) (here : execution_id ∈ w.running)
    (request : request_id ∈ w.requests) {p : Product} (member : p ∈ w.products) (own : p.execution_id = execution_id) :
    ∃ filename, artifact_filename_from_uri p.uri = some filename ∧
      named_file execution_id request_id p.uri = some filename ∧ p.uri = artifact_name S3_ARCHIVE_PREFIX execution_id filename ∧
      ∃ content_type, get_artifact S3_ARCHIVE_PREFIX w.blobs execution_id filename = some (fm.file p.task_id p.path,content_type) := by
  obtain ⟨_,⟨filename,name,named⟩,content_type,stored⟩ := sound.kept p member
  rw [own] at name
  have different : execution_id ≠ request_id := by
    rintro rfl
    exact (sound.requests _ request).1 here
  have inside : contains p.uri execution_id = true := name ▸ artifact_name_contains _ _ _
  refine ⟨filename,named,?_,name,content_type,?_⟩
  · simp [named_file,different,inside,named]
  · unfold get_artifact
    rw [← name]
    exact stored

theorem deliver_sound (sound : Sound S3_ARCHIVE_PREFIX codec limit fm w) (here : execution_id ∈ w.running)
    (targets : ∀ target ∈ payloads, target.1 ∈ w.requests)
    (clear : ClearDelivery S3_ARCHIVE_PREFIX codec limit w execution_id payloads) :
    Sound S3_ARCHIVE_PREFIX codec limit fm (deliver S3_ARCHIVE_PREFIX codec limit w execution_id payloads refused) := by
  have own := sound.slashless _ (.inr (.inl here))
  have plain : ∀ target ∈ payloads, '/' ∉ target.1.toList := fun target member => sound.slashless _ (.inl (targets target member))
  have passes := deliver_passes S3_ARCHIVE_PREFIX codec limit w refused own plain
  have moving := passes.kept
  have written : Sound S3_ARCHIVE_PREFIX codec limit fm { w with
      blobs := (each (fun target => relocate_artifacts_for_request S3_ARCHIVE_PREFIX codec refused limit execution_id target.1
        target.2) payloads ⟨w.blobs,Dict.empty⟩).2.blobs } := by
    refine write_sound sound _ (fun p member => ?_) fun d member p shown filename named => ?_
    · obtain ⟨known,⟨filename,name,_⟩,content_type,stored⟩ := sound.kept p member
      refine ⟨content_type,(moving.untouched ?_).trans stored⟩
      rintro request_id f blob ⟨target,asking,rfl,_⟩ _ equal
      have same := (artifact_name_injective (sound.slashless _ (.inr known)) (plain target asking) (name.symm.trans equal)).1
      have apart := sound.requests _ (targets target asking)
      rw [← same] at apart
      exact known.elim apart.1 apart.2
    · refine moving.untouched ?_
      rintro request_id f blob ⟨target,asking,rfl,text,inside,asks⟩ stored equal
      obtain ⟨same,rfl⟩ := artifact_name_injective (sound.slashless _ (.inl (sound.landed d member).known)) (plain target asking) equal
      exact clear target asking text inside filename asks (by simp [stored])
        ⟨d,member,same,p,shown.1,shown.2.1,shown.2.2,named⟩
  have finished := finish_sound written here
  unfold deliver
  dsimp only
  split
  · exact finished
  · rename_i results answered
    obtain ⟨rfl,copied⟩ := passes.done results answered
    have shape : ∀ d, d ∈ List.zipWith (fun (target : String × Value) result => (⟨execution_id,target.1,target.2,result⟩ : Delivery))
        payloads (payloads.map fun target => map_texts codec (moved S3_ARCHIVE_PREFIX w.blobs execution_id target.1) limit target.2) →
        ∃ target ∈ payloads, d = ⟨execution_id,target.1,target.2,
          map_texts codec (moved S3_ARCHIVE_PREFIX w.blobs execution_id target.1) limit target.2⟩ := by
      intro d member
      rw [List.zipWith_map_right,List.zipWith_self] at member
      obtain ⟨target,asking,made⟩ := List.mem_map.mp member
      exact ⟨target,asking,made.symm⟩
    refine ⟨finished.slashless,finished.requests,finished.running,fun p member => ?_,sound.single,fun d member => ?_,?_⟩
    · exact ⟨(finished.kept p member).known,(finished.kept p member).named,(finished.kept p member).stored⟩
    · rcases List.mem_append.mp member with old | new
      · exact ⟨(finished.landed d old).ended,(finished.landed d old).known,(finished.landed d old).result⟩
      · obtain ⟨target,asking,rfl⟩ := shape d new
        refine ⟨List.mem_cons_self,targets target asking,_,rfl,fun p shown filename named => ?_⟩
        obtain ⟨listed,same,text⟩ := shown
        obtain ⟨f,read,asks,_,content_type,stored⟩ := shown_named sound here (targets target asking) listed same
        cases named.symm.trans read
        refine ⟨by simp only [moved,asks,stored],content_type,?_⟩
        have cached := copied (target.1,p.uri) (List.mem_flatMap.mpr ⟨target,asking,List.mem_map.mpr ⟨p.uri,text,rfl⟩⟩) filename _
          asks stored
        obtain ⟨_,_,blob,found,there⟩ := moving.cached target.1 filename _ cached
        cases stored.symm.trans found
        exact there
    · have beside : ∀ target ∈ payloads, ∀ d ∈ w.delivered, d.request_id = target.1 → ∀ p ∈ w.products,
          p.execution_id = execution_id → p.uri ∈ texts codec limit target.2 → ∀ p', w.Shown codec limit d p' →
          artifact_filename_from_uri p.uri ≠ artifact_filename_from_uri p'.uri := by
        intro target asking d member request p listed same text p' shown equal
        obtain ⟨f,read,asks,_,content_type,stored⟩ := shown_named sound here (targets target asking) listed same
        exact clear target asking p.uri text f asks (by simp [stored])
          ⟨d,member,request,p',shown.1,shown.2.1,shown.2.2,equal.symm.trans read⟩
      intro d member d' member' request different p shown p' shown'
      rcases List.mem_append.mp member with old | new <;> rcases List.mem_append.mp member' with old' | new'
      · exact sound.apart d old d' old' request different p shown p' shown'
      · obtain ⟨target,asking,rfl⟩ := shape d' new'
        exact (beside target asking d old request p' shown'.1 shown'.2.1 shown'.2.2 p shown).symm
      · obtain ⟨target,asking,rfl⟩ := shape d new
        exact beside target asking d' old' request.symm p shown.1 shown.2.1 shown.2.2 p' shown'
      · obtain ⟨_,_,rfl⟩ := shape d new
        obtain ⟨_,_,rfl⟩ := shape d' new'
        exact absurd rfl different

theorem act_sound (sound : Sound S3_ARCHIVE_PREFIX codec limit fm w) (move : Move) (clear : Clear S3_ARCHIVE_PREFIX repr codec limit w move) :
    Sound S3_ARCHIVE_PREFIX codec limit fm (act S3_ARCHIVE_PREFIX repr codec limit fm w move) := by
  cases move with
  | submit request_id =>
      dsimp only [act]
      split
      · rename_i unused
        exact submit_sound sound unused
      · exact sound
  | start execution_id =>
      dsimp only [act]
      split
      · rename_i unused
        exact start_sound sound unused
      · exact sound
  | aggregate call items unavailable =>
      dsimp only [act]
      split
      · rename_i here
        exact aggregate_sound sound here clear
      · exact sound
  | deliver execution_id payloads refused =>
      dsimp only [act]
      split
      · rename_i allowed
        exact deliver_sound sound allowed.1 allowed.2 clear
      · exact sound

theorem empty_sound : Sound S3_ARCHIVE_PREFIX codec limit fm (empty : World Data) :=
  ⟨fun _ here => by simp [empty] at here,fun _ here => (by cases here),fun _ here => (by cases here),fun _ here => (by cases here),
    fun _ here => (by cases here),fun _ here => (by cases here),fun _ here => (by cases here)⟩

theorem Sound.intact (sound : Sound S3_ARCHIVE_PREFIX codec limit fm w) : Intact codec limit fm w := by
  classical
  have chosen : ∀ d, ∃ g, d ∈ w.delivered → d.result = map_texts codec g limit d.payload ∧ ∀ p, w.Shown codec limit d p →
      ∀ filename, artifact_filename_from_uri p.uri = some filename →
        g p.uri = artifact_name S3_ARCHIVE_PREFIX d.request_id filename ∧ ∃ content_type,
          w.blobs.get? (artifact_name S3_ARCHIVE_PREFIX d.request_id filename) = some (fm.file p.task_id p.path,content_type) := by
    intro d
    by_cases member : d ∈ w.delivered
    · obtain ⟨g,held⟩ := (sound.landed d member).result
      exact ⟨g,fun _ => held⟩
    · exact ⟨id,fun here => absurd here member⟩
  choose g held using chosen
  refine ⟨g,fun d member => ⟨(held d member).1,fun p shown => ?_⟩,fun d member d' member' request p shown p' shown' equal => ?_⟩
  · obtain ⟨filename,_,named⟩ := (sound.kept p shown.1).named
    obtain ⟨same,stored⟩ := (held d member).2 p shown filename named
    exact same ▸ stored
  · obtain ⟨filename,_,named⟩ := (sound.kept p shown.1).named
    obtain ⟨filename',_,named'⟩ := (sound.kept p' shown'.1).named
    have here := ((held d member).2 p shown filename named).1
    have there := ((held d' member').2 p' shown' filename' named').1
    have plain := sound.slashless _ (.inl (sound.landed d member).known)
    rw [here,there,← request] at equal
    have files : filename = filename' := (artifact_name_injective plain plain equal).2
    subst files
    by_cases same : d.execution_id = d'.execution_id
    · have executions := shown.2.1.trans (same.trans shown'.2.1.symm)
      exact ⟨executions,sound.single p shown.1 p' shown'.1 executions (named.trans named'.symm)⟩
    · exact absurd (named.trans named'.symm) (sound.apart d member d' member' request same p shown p' shown')

-- In every run whose steps are clear, each URI of an item in a request's results names the bytes of that item.
theorem artifacts_intact {moves : List Move} (path : Runs (fun w move after => Clear S3_ARCHIVE_PREFIX repr codec limit w move ∧
    after = act S3_ARCHIVE_PREFIX repr codec limit fm w move) (empty : World Data) moves w) : Intact codec limit fm w := by
  have sound : Sound S3_ARCHIVE_PREFIX codec limit fm w := by
    refine path.invariant empty_sound ?_
    intro before move after sound step
    obtain ⟨clear,rfl⟩ := step
    exact act_sound sound move clear
  exact sound.intact

end

-- Texts that are no JSON, and tasks whose images are called what their paths say.
def plain_codec : Codec := ⟨fun _ => none,fun _ => "",fun _ => none,fun _ => ""⟩

def images : FlowMesh String := ⟨fun task_id path => task_id ++ ":" ++ path,fun _ => some "image/png"⟩

def image_call (execution_id task_id : String) : ArchiveCall :=
  { output_op_id := "draw", output_task_id := task_id, request_id := execution_id, ref_key := "image", artifact_label := "image" }

def image_item (path : String) : Spec := [("image",.dict [("path",.str path)])]

def image_uri (execution_id name : String) : String := "archive/" ++ execution_id ++ "/artifacts/draw-" ++ name

-- Two batches of a request at once, the first with two images of one call.
def drawn_apart : List Move :=
  [.submit "job",.start "exec-1",.start "exec-2",
    .aggregate (image_call "exec-1" "t1") [image_item "a/cat.png",image_item "b/dog.png"] (fun _ => none),
    .aggregate (image_call "exec-2" "t2") [image_item "a/bird.png"] (fun _ => none),
    .deliver "exec-2" [("job",.dict [("out",.list [.str (image_uri "exec-2" "bird.png")])])] [],
    .deliver "exec-1" [("job",.dict [("out",.list [.str (image_uri "exec-1" "cat.png"),.str (image_uri "exec-1" "dog.png")])])] []]

theorem artifacts_intact_two_batches :
    Intact plain_codec 9 images (drawn_apart.foldl (act "archive" (fun _ => "") plain_codec 9 images) empty) ∧
    (drawn_apart.foldl (act "archive" (fun _ => "") plain_codec 9 images) empty).delivered.map Delivery.result =
      [.dict [("out",.list [.str "archive/job/artifacts/draw-bird.png"])],
        .dict [("out",.list [.str "archive/job/artifacts/draw-cat.png",.str "archive/job/artifacts/draw-dog.png"])]] := by
  have path : Runs (fun w move after => Clear "archive" (fun _ => "") plain_codec 9 w move ∧
      after = act "archive" (fun _ => "") plain_codec 9 images w move) empty drawn_apart _ := Runs.of_admits (by decide +kernel)
  exact ⟨artifacts_intact path,by decide +kernel⟩

-- A batch of one image.
def drawn (execution_id task_id path name : String) : List Move :=
  [.start execution_id,.aggregate (image_call execution_id task_id) [image_item path] (fun _ => none),
    .deliver execution_id [("job",.dict [("out",.list [.str (image_uri execution_id name)])])] []]

-- Two batches of a request, each with an image of the same name.
def redrawn : World String :=
  (Move.submit "job" :: drawn "exec-1" "t1" "cat.png" "cat.png" ++ drawn "exec-2" "t2" "cat.png" "cat.png").foldl
    (act "archive" (fun _ => "") plain_codec 9 images) empty

def first_drawn : Delivery :=
  ⟨"exec-1","job",.dict [("out",.list [.str (image_uri "exec-1" "cat.png")])],
    .dict [("out",.list [.str "archive/job/artifacts/draw-cat.png"])]⟩

-- The copy of the second batch has taken the place of the first one's.
theorem artifacts_overwritten : ¬ ∀ (moves : List Move) (w : World String),
    Runs (fun w move after => after = act "archive" (fun _ => "") plain_codec 9 images w move) empty moves w →
    Intact plain_codec 9 images w := by
  intro always
  obtain ⟨g,refers,_⟩ := always _ redrawn (Runs.of_foldl _ _ _)
  have landed : first_drawn ∈ redrawn.delivered := by decide +kernel
  have made : (⟨"exec-1","t1","cat.png",image_uri "exec-1" "cat.png"⟩ : Product) ∈ redrawn.products := by decide +kernel
  obtain ⟨result,bytes⟩ := refers first_drawn landed
  obtain ⟨content_type,stored⟩ := bytes _ ⟨made,rfl,by decide +kernel⟩
  have moved_to : g first_drawn (image_uri "exec-1" "cat.png") = "archive/job/artifacts/draw-cat.png" := by
    simpa [first_drawn,map_texts,decoded,plain_codec] using result.symm
  rw [moved_to] at stored
  have last : (redrawn.blobs.get? "archive/job/artifacts/draw-cat.png").map Prod.fst = some "t2:cat.png" := by decide +kernel
  rw [stored,Option.map_some] at last
  have clash : images.file "t1" "cat.png" = "t2:cat.png" := Option.some.inj last
  exact absurd clash (by decide +kernel)

end World

end Lumilake.Artifacts

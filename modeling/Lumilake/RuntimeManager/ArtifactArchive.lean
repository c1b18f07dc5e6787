import Mathlib.Data.List.Forall2
import Mathlib.Data.List.Induction
import Lumilake.Library.Dict
import Lumilake.Library.Separators
import Lumilake.RuntimeManager.OutputPath

namespace Lumilake.Artifacts

-- `prefix.strip("/")`
def strip_slashes (text : String) : String :=
  String.ofList ((text.toList.dropWhile (· == '/')).reverse.dropWhile (· == '/')).reverse

-- `Path(path).name`: the last part that is neither empty nor a single dot.
def path_name (path : String) : String :=
  String.ofList (((path.toList.splitOn '/').filter (fun part => part ≠ [] ∧ part ≠ ['.'])).getLast?.getD [])

-- The blobs of the archive, each with its content type, under their object names.
abbrev Blobs (Data : Type) := Dict String (Data × String)

-- What FlowMesh holds for the path of a task's artifact, and `mimetypes.guess_type`.
structure FlowMesh (Data : Type) where
  file : String → String → Data
  guess_type : String → Option String

inductive Archived where
  | stored (uri : String) (fields : Spec)
  | failed (error : String)

def Archived.entry : Archived → Spec
  | .stored uri fields => ("output",.str uri) :: fields
  | .failed error => [("output",.str ""),("error",.str error)]

-- The loop's locals; `raised` is the error that ends it.
structure Archiving (Data : Type) where
  blobs : Blobs Data
  uri_by_path : Dict String String := Dict.empty
  error_by_path : Dict String String := Dict.empty
  archived : List Archived := []
  raised : Option String := none

section
variable {Data : Type} (S3_ARCHIVE_PREFIX : String)

def job_object_name (job_id filename : String) : String :=
  let key_prefix := strip_slashes S3_ARCHIVE_PREFIX
  if key_prefix = "" then job_id ++ "/" ++ filename else key_prefix ++ "/" ++ job_id ++ "/" ++ filename

def artifact_name (job_id filename : String) : String :=
  job_object_name S3_ARCHIVE_PREFIX job_id ("artifacts/" ++ filename)

def get_artifact (blobs : Blobs Data) (job_id filename : String) : Option (Data × String) :=
  blobs.get? (artifact_name S3_ARCHIVE_PREFIX job_id filename)

def save_artifact (blobs : Blobs Data) (job_id filename : String) (data : Data) (content_type : String) : Blobs Data × String :=
  (blobs.set (artifact_name S3_ARCHIVE_PREFIX job_id filename) (data,content_type),artifact_name S3_ARCHIVE_PREFIX job_id filename)

end

section
variable {Data : Type} {S3_ARCHIVE_PREFIX : String}

theorem artifact_name_toList (S3_ARCHIVE_PREFIX : String) : ∃ root : List Char, ∀ job_id filename,
    (artifact_name S3_ARCHIVE_PREFIX job_id filename).toList =
      root ++ (job_id.toList ++ '/' :: ("artifacts/".toList ++ filename.toList)) := by
  unfold artifact_name job_object_name
  dsimp only
  split
  · exact ⟨[],fun job_id filename => by simp [String.toList_append]⟩
  · exact ⟨(strip_slashes S3_ARCHIVE_PREFIX).toList ++ ['/'],fun job_id filename => by simp [String.toList_append]⟩

-- The ids have no slash, so a name belongs to one request and one file.
theorem artifact_name_injective (left : '/' ∉ a.toList) (right : '/' ∉ b.toList)
    (same : artifact_name S3_ARCHIVE_PREFIX a f = artifact_name S3_ARCHIVE_PREFIX b g) : a = b ∧ f = g := by
  obtain ⟨root,shape⟩ := artifact_name_toList S3_ARCHIVE_PREFIX
  have lists := congrArg String.toList same
  rw [shape,shape] at lists
  obtain ⟨front,back⟩ := Separators.front_of left right (List.append_cancel_left lists)
  exact ⟨String.toList_injective front,String.toList_injective (List.append_cancel_left back)⟩

end

section
variable {Data : Type} (S3_ARCHIVE_PREFIX : String)

section
variable (repr : Value → String)

-- The path of an item's file; a path that is no text has no `Path`.
def item_path (ref_key : String) (it : Spec) : Except String (Spec × String) :=
  match Value.get? it ref_key with
  | some (.dict ref) =>
    match Value.get? ref "path" with
    | some (.str path) =>
      if path = "" then .error ("item missing " ++ ref_key ++ ".path: " ++ repr (.dict it)) else .ok (ref,path)
    | some other =>
      if other.truth then .error "TypeError" else .error ("item missing " ++ ref_key ++ ".path: " ++ repr (.dict it))
    | none => .error ("item missing " ++ ref_key ++ ".path: " ++ repr (.dict it))
  | _ => .error ("item missing " ++ ref_key ++ ": " ++ repr (.dict it))

-- `ref.get("filename") or Path(path).name`
def raw_name (ref : Spec) (path : String) : Except String String :=
  match Value.get? ref "filename" with
  | some (.str name) => .ok (if name = "" then path_name path else name)
  | some other => if other.truth then .error "TypeError" else .ok (path_name path)
  | none => .ok (path_name path)

def stored_name (output_op_id name : String) : String := output_op_id ++ "-" ++ path_name name

structure ArchiveCall where
  output_op_id : String
  output_task_id : String
  request_id : String
  ref_key : String
  artifact_label : String
  extra_fields : List String := []

variable (fm : FlowMesh Data) (call : ArchiveCall) (unavailable : String → Option String)

def fields_of (it : Spec) : Spec := call.extra_fields.map fun name => (name,(Value.get? it name).getD .none)

-- `unavailable` is the error, if any, of the download of a path or of the save that follows it.
def archive_file (s : Archiving Data) (it ref : Spec) (path : String) : Archiving Data :=
  match raw_name ref path with
  | .error message => { s with raised := some message }
  | .ok name =>
    let filename := stored_name call.output_op_id name
    match unavailable path with
    | some error =>
      { s with error_by_path := s.error_by_path.set path error, archived := s.archived ++ [.failed error] }
    | none =>
      let content_type := (fm.guess_type filename).getD "application/octet-stream"
      let saved := save_artifact S3_ARCHIVE_PREFIX s.blobs call.request_id filename (fm.file call.output_task_id path) content_type
      { s with
        blobs := saved.1
        uri_by_path := s.uri_by_path.set path saved.2
        archived := s.archived ++ [.stored saved.2 (fields_of call it)] }

def archive_item (s : Archiving Data) (it : Spec) : Archiving Data :=
  if s.raised.isSome then s
  else
    match item_path repr call.ref_key it with
    | .error message => { s with raised := some message }
    | .ok (ref,path) =>
      match s.error_by_path.get? path,s.uri_by_path.get? path with
      | some error,_ => { s with archived := s.archived ++ [.failed error] }
      | none,some uri => { s with archived := s.archived ++ [.stored uri (fields_of call it)] }
      | none,none => archive_file S3_ARCHIVE_PREFIX fm call unavailable s it ref path

def archive_artifact_items (blobs : Blobs Data) (items : List Spec) : Archiving Data :=
  if S3_ARCHIVE_PREFIX = "" then
    { blobs := blobs, raised := some ("S3_ARCHIVE_PREFIX is required for " ++ call.artifact_label ++ " outputs") }
  else items.foldl (archive_item S3_ARCHIVE_PREFIX repr fm call unavailable) { blobs := blobs }

-- The path of an item's file and the name it would be stored under.
def file_of (it : Spec) : Option (String × String) :=
  match item_path repr call.ref_key it with
  | .error _ => none
  | .ok (ref,path) =>
    match raw_name ref path with
    | .error _ => none
    | .ok name => some (path,stored_name call.output_op_id name)

-- The files that the items bring and that can be had.
def brought (items : List Spec) : List (String × String) :=
  items.filterMap fun it => (file_of repr call it).filter fun file => (unavailable file.1).isNone

-- What an entry says of its item.
def Tells (uri_by_path : Dict String String) (it : Spec) : Archived → Prop
  | .stored uri _ => ∃ ref path, item_path repr call.ref_key it = .ok (ref,path) ∧ uri_by_path.get? path = some uri
  | .failed _ => True

-- The loop over `done`, items out of `items`.
structure Shelved (before : Blobs Data) (items done : List Spec) (s : Archiving Data) : Prop where
  rest : ∀ name, s.blobs.get? name = before.get? name ∨
    ∃ path filename, (path,filename) ∈ brought repr call unavailable items ∧
      name = artifact_name S3_ARCHIVE_PREFIX call.request_id filename ∧
      ∃ content_type, s.blobs.get? name = some (fm.file call.output_task_id path,content_type)
  shelf : ∀ path uri, s.uri_by_path.get? path = some uri → ∃ filename, (path,filename) ∈ brought repr call unavailable items ∧
    uri = artifact_name S3_ARCHIVE_PREFIX call.request_id filename ∧
    ∃ content_type, s.blobs.get? uri = some (fm.file call.output_task_id path,content_type)
  entries : s.raised = none → List.Forall₂ (Tells repr call s.uri_by_path) done s.archived

end

section
variable {S3_ARCHIVE_PREFIX} {repr : Value → String} {fm : FlowMesh Data} {call : ArchiveCall} {unavailable : String → Option String}
  {items done : List Spec} {before : Blobs Data} {s : Archiving Data} {it ref : Spec}

theorem Tells.more {archived : Archived} {uris more : Dict String String} (tells : Tells repr call uris it archived)
    (grown : ∀ path uri, uris.get? path = some uri → more.get? path = some uri) : Tells repr call more it archived := by
  cases archived with
  | failed error => trivial
  | stored uri fields =>
      obtain ⟨ref,path,place,here⟩ := tells
      exact ⟨ref,path,place,grown path uri here⟩

theorem Shelved.raise (shelved : Shelved S3_ARCHIVE_PREFIX repr fm call unavailable before items done s) (message : String) :
    Shelved S3_ARCHIVE_PREFIX repr fm call unavailable before items (done ++ [it]) { s with raised := some message } :=
  ⟨shelved.rest,shelved.shelf,fun none => nomatch none⟩

-- An entry more, with the shelf as it is.
theorem Shelved.entry (shelved : Shelved S3_ARCHIVE_PREFIX repr fm call unavailable before items done s)
    (archived : Archived) (tells : Tells repr call s.uri_by_path it archived) (error_by_path : Dict String String) :
    Shelved S3_ARCHIVE_PREFIX repr fm call unavailable before items (done ++ [it])
      { s with error_by_path := error_by_path, archived := s.archived ++ [archived] } :=
  ⟨shelved.rest,shelved.shelf,fun open_still => List.rel_append (shelved.entries open_still) (.cons tells .nil)⟩

-- Two files of one stored name are one file.
def Apart (repr : Value → String) (call : ArchiveCall) (unavailable : String → Option String) (items : List Spec) : Prop :=
  ∀ file ∈ brought repr call unavailable items, ∀ other ∈ brought repr call unavailable items, file.2 = other.2 → file.1 = other.1

instance : Decidable (Apart repr call unavailable items) :=
  inferInstanceAs (Decidable (∀ file ∈ brought repr call unavailable items, ∀ other ∈ brought repr call unavailable items,
    file.2 = other.2 → file.1 = other.1))

theorem archive_file_shelved (shelved : Shelved S3_ARCHIVE_PREFIX repr fm call unavailable before items done s)
    (slashless : '/' ∉ call.request_id.toList) (apart : Apart repr call unavailable items)
    (member : it ∈ items) (place : item_path repr call.ref_key it = .ok (ref,path)) (fresh : s.uri_by_path.get? path = none) :
    Shelved S3_ARCHIVE_PREFIX repr fm call unavailable before items (done ++ [it])
      (archive_file S3_ARCHIVE_PREFIX fm call unavailable s it ref path) := by
  unfold archive_file
  cases named : raw_name ref path with
  | error message => exact shelved.raise message
  | ok name =>
      dsimp only
      cases lost : unavailable path with
      | some error => exact shelved.entry (.failed error) trivial (s.error_by_path.set path error)
      | none =>
          simp only [save_artifact]
          have brings : (path,stored_name call.output_op_id name) ∈ brought repr call unavailable items :=
            List.mem_filterMap.mpr ⟨it,member,by simp [file_of,place,named,lost]⟩
          have self : ∀ blobs : Blobs Data, ∀ blob, (blobs.set (artifact_name S3_ARCHIVE_PREFIX call.request_id
              (stored_name call.output_op_id name)) blob).get? (artifact_name S3_ARCHIVE_PREFIX call.request_id
              (stored_name call.output_op_id name)) = some blob := fun blobs blob => Dict.get?_set_self _ _ _
          have grown : ∀ p uri, s.uri_by_path.get? p = some uri →
              (s.uri_by_path.set path (artifact_name S3_ARCHIVE_PREFIX call.request_id (stored_name call.output_op_id name))).get? p =
                some uri := by
            intro p uri here
            rw [Dict.get?_set_ne]
            · exact here
            · rintro rfl
              rw [fresh] at here
              cases here
          refine ⟨fun key => ?_,fun p uri here => ?_,fun open_still => ?_⟩
          · by_cases same : key = artifact_name S3_ARCHIVE_PREFIX call.request_id (stored_name call.output_op_id name)
            · subst same
              exact .inr ⟨path,_,brings,rfl,_,self _ _⟩
            · rcases shelved.rest key with kept | ⟨p,filename,brings',named,content_type,there⟩
              · exact .inl ((Dict.get?_set_ne _ _ same).trans kept)
              · exact .inr ⟨p,filename,brings',named,content_type,(Dict.get?_set_ne _ _ same).trans there⟩
          · by_cases same : p = path
            · subst same
              have stored : artifact_name S3_ARCHIVE_PREFIX call.request_id (stored_name call.output_op_id name) = uri := by
                simpa [Dict.get?_set_self] using here
              subst stored
              exact ⟨_,brings,rfl,_,self _ _⟩
            · have old : s.uri_by_path.get? p = some uri := (Dict.get?_set_ne _ _ same).symm.trans here
              obtain ⟨filename,brings',rfl,content_type,there⟩ := shelved.shelf p uri old
              refine ⟨filename,brings',rfl,content_type,(Dict.get?_set_ne _ _ fun equal => ?_).trans there⟩
              have one := (artifact_name_injective slashless slashless equal).2
              exact same (apart (p,filename) brings' (path,_) brings one)
          · have added : Tells repr call (s.uri_by_path.set path (artifact_name S3_ARCHIVE_PREFIX call.request_id
                (stored_name call.output_op_id name))) it (.stored (artifact_name S3_ARCHIVE_PREFIX call.request_id
                (stored_name call.output_op_id name)) (fields_of call it)) := ⟨ref,path,place,Dict.get?_set_self _ _ _⟩
            exact List.rel_append ((shelved.entries open_still).imp fun _ _ tells => tells.more grown) (.cons added .nil)

theorem archive_item_shelved (shelved : Shelved S3_ARCHIVE_PREFIX repr fm call unavailable before items done s)
    (slashless : '/' ∉ call.request_id.toList) (apart : Apart repr call unavailable items) (member : it ∈ items) :
    Shelved S3_ARCHIVE_PREFIX repr fm call unavailable before items (done ++ [it])
      (archive_item S3_ARCHIVE_PREFIX repr fm call unavailable s it) := by
  unfold archive_item
  split
  · rename_i stopped
    exact ⟨shelved.rest,shelved.shelf,fun none => by simp [none] at stopped⟩
  · cases place : item_path repr call.ref_key it with
    | error message => exact shelved.raise message
    | ok found =>
        obtain ⟨ref,path⟩ := found
        dsimp only
        split
        · exact shelved.entry (.failed _) trivial s.error_by_path
        · rename_i uri _ here
          exact shelved.entry (.stored uri _) ⟨ref,path,place,here⟩ s.error_by_path
        · rename_i fresh
          exact archive_file_shelved shelved slashless apart member place fresh

theorem archive_shelved (slashless : '/' ∉ call.request_id.toList) (apart : Apart repr call unavailable items) :
    Shelved S3_ARCHIVE_PREFIX repr fm call unavailable before items items
      (archive_artifact_items S3_ARCHIVE_PREFIX repr fm call unavailable before items) := by
  have loop : ∀ done, (∀ it ∈ done, it ∈ items) → Shelved S3_ARCHIVE_PREFIX repr fm call unavailable before items done
      (done.foldl (archive_item S3_ARCHIVE_PREFIX repr fm call unavailable) { blobs := before }) := by
    intro done
    induction done using List.reverseRecOn with
    | nil => exact fun _ => ⟨fun _ => .inl rfl,fun _ _ here => (by cases here),fun _ => .nil⟩
    | append_singleton done it ih =>
        intro inside
        rw [List.foldl_append]
        exact archive_item_shelved (ih fun other member => inside other (List.mem_append_left _ member)) slashless apart
          (inside it (by simp))
  unfold archive_artifact_items
  split
  · exact ⟨fun _ => .inl rfl,fun _ _ here => (by cases here),fun none => nomatch none⟩
  · exact loop items fun _ member => member

end

end

end Lumilake.Artifacts

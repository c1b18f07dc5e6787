import Mathlib.Data.List.Infix
import Lumilake.Library.Traversal
import Lumilake.RuntimeManager.ArtifactArchive

namespace Lumilake.Artifacts
open Traversal

-- The text after the last place where `sep` stands.
def after_last (sep : List Char) : List Char → Option (List Char)
  | [] => none
  | c :: rest =>
    match after_last sep rest with
    | some tail => some tail
    | none => if sep.isPrefixOf (c :: rest) then some ((c :: rest).drop sep.length) else none

-- `text.replace(old, new)`, by at most as many turns as the text is long.
def replace_turns (old new : List Char) : Nat → List Char → List Char
  | 0,text => text
  | _,[] => []
  | n + 1,c :: rest =>
    if old.isPrefixOf (c :: rest) then new ++ replace_turns old new n ((c :: rest).drop old.length)
    else c :: replace_turns old new n rest

def replace (text old new : String) : String :=
  String.ofList (replace_turns old.toList new.toList text.length text.toList)

def contains (text part : String) : Bool := text.toList.tails.any fun tail => part.toList.isPrefixOf tail

def artifact_filename_from_uri (value : String) : Option String :=
  if contains value "/artifacts/" then
    let trimmed := (value.toList.takeWhile (· ≠ '?')).takeWhile (· ≠ '#')
    let trimmed := (trimmed.reverse.dropWhile (· == '/')).reverse
    let tail := (after_last "/artifacts/".toList trimmed).getD trimmed
    let filename := String.ofList (((tail.splitOn '/').getLast?).getD [])
    if filename = "" then none else some filename
  else none

structure Relocating (Data : Type) where
  blobs : Blobs Data
  cache : Dict (String × String) String

section
variable {Data : Type} (S3_ARCHIVE_PREFIX : String)

-- What a text of a payload for `target_request_id` names: a file of the source request.
def named_file (source_request_id target_request_id uri : String) : Option String :=
  if source_request_id = target_request_id then none
  else if contains uri source_request_id then artifact_filename_from_uri uri
  else none

-- `refused` is the object names whose save raises.
def relocate_artifact_uri (refused : List String) (source_request_id target_request_id uri : String) (s : Relocating Data) :
    Except String String × Relocating Data :=
  match named_file source_request_id target_request_id uri with
  | none => (.ok uri,s)
  | some filename =>
    match s.cache.get? (target_request_id,filename) with
    | some relocated => (.ok relocated,s)
    | none =>
      match get_artifact S3_ARCHIVE_PREFIX s.blobs source_request_id filename with
      | none =>
        (.ok (replace uri ("/" ++ source_request_id ++ "/artifacts/") ("/" ++ target_request_id ++ "/artifacts/")),s)
      | some (data,content_type) =>
        if artifact_name S3_ARCHIVE_PREFIX target_request_id filename ∈ refused then (.error "save failed",s)
        else
          let saved := save_artifact S3_ARCHIVE_PREFIX s.blobs target_request_id filename data content_type
          (.ok saved.2,{ blobs := saved.1, cache := s.cache.set (target_request_id,filename) saved.2 })

-- A text that decodes to a dict or a list is one of the payload's own structure.
def decoded (codec : Codec) (text : String) : Option Value :=
  match codec.loads text with
  | some (.dict entries) => some (.dict entries)
  | some (.list items) => some (.list items)
  | _ => none

-- The rewriting of every text of a value, through the JSON texts in it. The first argument
-- is how deep Python's stack lets the calls nest.
def rewrite_texts {σ : Type} (codec : Codec) (leaf : String → σ → Except String String × σ) :
    Nat → Value → σ → Except String Value × σ
  | 0,_,s => (.error "RecursionError",s)
  | limit + 1,.str text,s =>
    match decoded codec text with
    | some value => answer (fun relocated => Value.str (codec.dumps relocated)) (rewrite_texts codec leaf limit value s)
    | none => answer Value.str (leaf text s)
  | limit + 1,.list items,s => answer Value.list (each (rewrite_texts codec leaf limit) items s)
  | limit + 1,.dict entries,s =>
    answer Value.dict (each (fun e s => answer (fun value => (e.1,value)) (rewrite_texts codec leaf limit e.2 s)) entries s)
  | _ + 1,value,s => (.ok value,s)

def relocate_artifacts_for_request (codec : Codec) (refused : List String) (limit : Nat)
    (source_request_id target_request_id : String) : Value → Relocating Data → Except String Value × Relocating Data :=
  rewrite_texts codec (relocate_artifact_uri S3_ARCHIVE_PREFIX refused source_request_id target_request_id) limit

end

section
variable (codec : Codec)

-- The texts that the traversal comes to, and the value with each of them replaced.
def texts : Nat → Value → List String
  | 0,_ => []
  | limit + 1,.str text =>
    match decoded codec text with
    | some value => texts limit value
    | none => [text]
  | limit + 1,.list items => items.flatMap (texts limit)
  | limit + 1,.dict entries => entries.flatMap fun e => texts limit e.2
  | _ + 1,_ => []

def map_texts (g : String → String) : Nat → Value → Value
  | 0,value => value
  | limit + 1,.str text =>
    match decoded codec text with
    | some value => .str (codec.dumps (map_texts g limit value))
    | none => .str (g text)
  | limit + 1,.list items => .list (items.map (map_texts g limit))
  | limit + 1,.dict entries => .dict (entries.map fun e => (e.1,map_texts g limit e.2))
  | _ + 1,value => value

end

section
variable {codec : Codec} {σ : Type} {ι : Type} {leaf : String → σ → Except String String × σ} {g : String → String}
  {Holds : σ → Prop} {Seen : ι → σ → Prop} {place : String → ι}

-- What holds of one text holds of the texts of every value.
theorem passes_rewrite (limit : Nat) : ∀ (value : Value),
    (∀ text ∈ texts codec limit value, ∀ s, Holds s → Passes Holds Seen (g text) [place text] s (leaf text s)) →
    ∀ s, Holds s → Passes Holds Seen (map_texts codec g limit value) ((texts codec limit value).map place) s
      (rewrite_texts codec leaf limit value s) := by
  induction limit with
  | zero => exact fun value turn s holds => ⟨holds,fun _ seen => seen,fun _ same => nomatch same⟩
  | succ limit ih =>
      intro value turn s holds
      cases value with
      | str text =>
          unfold rewrite_texts texts map_texts
          unfold texts at turn
          cases inner : decoded codec text with
          | some value =>
              simp only [inner] at turn ⊢
              exact (ih value turn s holds).answer (fun relocated => Value.str (codec.dumps relocated))
          | none =>
              simp only [inner] at turn ⊢
              exact (turn text (by simp) s holds).answer Value.str
      | list items =>
          unfold rewrite_texts texts map_texts
          unfold texts at turn
          rw [List.map_flatMap]
          refine (passes_each (fun item member s holds => ?_) s holds).answer Value.list
          exact ih item (fun text here => turn text (List.mem_flatMap.mpr ⟨item,member,here⟩)) s holds
      | dict entries =>
          unfold rewrite_texts texts map_texts
          unfold texts at turn
          rw [List.map_flatMap]
          refine (passes_each (fun e member s holds => ?_) s holds).answer Value.dict
          have inner := ih e.2 (fun text here => turn text (List.mem_flatMap.mpr ⟨e,member,here⟩)) s holds
          exact inner.answer fun value => (e.1,value)
      | none => exact .pure holds _
      | bool b => exact .pure holds _
      | int i => exact .pure holds _
      | float q => exact .pure holds _
      | tuple items => exact .pure holds _

end

end Lumilake.Artifacts

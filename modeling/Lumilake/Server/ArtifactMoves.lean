import Lumilake.Server.ArtifactRelocation

namespace Lumilake.Artifacts
open Traversal

section
variable {Data : Type} {S3_ARCHIVE_PREFIX : String}

theorem artifact_name_contains (S3_ARCHIVE_PREFIX job_id filename : String) :
    contains (artifact_name S3_ARCHIVE_PREFIX job_id filename) job_id = true := by
  obtain ⟨root,shape⟩ := artifact_name_toList S3_ARCHIVE_PREFIX
  unfold contains
  rw [shape]
  refine List.any_eq_true.mpr ⟨job_id.toList ++ '/' :: ("artifacts/".toList ++ filename.toList),(List.mem_tails _ _).mpr ⟨root,rfl⟩,?_⟩
  exact List.isPrefixOf_iff_prefix.mpr ⟨_,rfl⟩

theorem named_file_ne (named : named_file source target uri = some filename) : source ≠ target := by
  intro same
  simp [named_file,same] at named

section
variable (S3_ARCHIVE_PREFIX) (before : Blobs Data) (source : String)

-- What the relocation for a request makes of a text.
def moved (target text : String) : String :=
  match named_file source target text with
  | none => text
  | some filename =>
    match get_artifact S3_ARCHIVE_PREFIX before source filename with
    | none => replace text ("/" ++ source ++ "/artifacts/") ("/" ++ target ++ "/artifacts/")
    | some _ => artifact_name S3_ARCHIVE_PREFIX target filename

-- A copy under each name that the cache has, of what the source request holds; nothing else is written.
structure Moving (asked : String → String → Prop) (s : Relocating Data) : Prop where
  kept : ∀ filename, get_artifact S3_ARCHIVE_PREFIX s.blobs source filename = get_artifact S3_ARCHIVE_PREFIX before source filename
  cached : ∀ target filename uri, s.cache.get? (target,filename) = some uri →
    uri = artifact_name S3_ARCHIVE_PREFIX target filename ∧ asked target filename ∧
      ∃ blob, get_artifact S3_ARCHIVE_PREFIX before source filename = some blob ∧ s.blobs.get? uri = some blob
  rest : ∀ name, s.blobs.get? name = before.get? name ∨ ∃ target filename, s.cache.get? (target,filename) = some name

def Copied (place : String × String) (s : Relocating Data) : Prop :=
  ∀ filename blob, named_file source place.1 place.2 = some filename →
    get_artifact S3_ARCHIVE_PREFIX before source filename = some blob →
    s.cache.get? (place.1,filename) = some (artifact_name S3_ARCHIVE_PREFIX place.1 filename)

end

section
variable {before : Blobs Data} {source target text : String} {asked : String → String → Prop} {s : Relocating Data}

theorem moving_start (before : Blobs Data) : Moving S3_ARCHIVE_PREFIX before source asked ⟨before,Dict.empty⟩ :=
  ⟨fun _ => rfl,fun _ _ _ found => (by cases found),fun _ => .inl rfl⟩

theorem Moving.untouched (moving : Moving S3_ARCHIVE_PREFIX before source asked s)
    (free : ∀ request_id filename blob, asked request_id filename →
      get_artifact S3_ARCHIVE_PREFIX before source filename = some blob →
      name ≠ artifact_name S3_ARCHIVE_PREFIX request_id filename) : s.blobs.get? name = before.get? name := by
  rcases moving.rest name with same | ⟨request_id,filename,cached⟩
  · exact same
  · obtain ⟨equal,asked,blob,found,_⟩ := moving.cached request_id filename name cached
    exact absurd equal (free request_id filename blob asked found)

theorem save_moving (moving : Moving S3_ARCHIVE_PREFIX before source asked s) (plain : ∀ r f, asked r f → '/' ∉ r.toList)
    (own : '/' ∉ source.toList) (apart : source ≠ target) (ask : asked target filename)
    (fresh : s.cache.get? (target,filename) = none)
    (found : get_artifact S3_ARCHIVE_PREFIX before source filename = some blob) :
    Moving S3_ARCHIVE_PREFIX before source asked
      ⟨s.blobs.set (artifact_name S3_ARCHIVE_PREFIX target filename) blob,
        s.cache.set (target,filename) (artifact_name S3_ARCHIVE_PREFIX target filename)⟩ := by
  have slashless := plain target filename ask
  refine ⟨fun f => ?_,fun r f uri here => ?_,fun name => ?_⟩
  · have other : artifact_name S3_ARCHIVE_PREFIX source f ≠ artifact_name S3_ARCHIVE_PREFIX target filename :=
      fun same => apart (artifact_name_injective own slashless same).1
    exact (Dict.get?_set_ne _ _ other).trans (moving.kept f)
  · by_cases same : (r,f) = (target,filename)
    · rw [same,Dict.get?_set_self] at here
      cases here
      cases same
      exact ⟨rfl,ask,blob,found,Dict.get?_set_self _ _ _⟩
    · rw [Dict.get?_set_ne _ _ same] at here
      obtain ⟨rfl,was_asked,old,stored,there⟩ := moving.cached r f uri here
      refine ⟨rfl,was_asked,old,stored,?_⟩
      rw [Dict.get?_set_ne]
      · exact there
      · intro equal
        obtain ⟨rfl,rfl⟩ := artifact_name_injective (plain r f was_asked) slashless equal
        exact same rfl
  · by_cases same : name = artifact_name S3_ARCHIVE_PREFIX target filename
    · exact .inr ⟨target,filename,same ▸ Dict.get?_set_self _ _ _⟩
    · rcases moving.rest name with kept | ⟨r,f,here⟩
      · exact .inl ((Dict.get?_set_ne _ _ same).trans kept)
      · refine .inr ⟨r,f,?_⟩
        rw [Dict.get?_set_ne]
        · exact here
        · intro equal
          cases equal
          rw [fresh] at here
          cases here

theorem relocate_passes (refused : List String) (plain : ∀ r f, asked r f → '/' ∉ r.toList) (own : '/' ∉ source.toList)
    (ask : ∀ filename, named_file source target text = some filename → asked target filename)
    (moving : Moving S3_ARCHIVE_PREFIX before source asked s) :
    Passes (Moving S3_ARCHIVE_PREFIX before source asked) (Copied S3_ARCHIVE_PREFIX before source)
      (moved S3_ARCHIVE_PREFIX before source target text) [(target,text)] s
      (relocate_artifact_uri S3_ARCHIVE_PREFIX refused source target text s) := by
  unfold relocate_artifact_uri moved
  cases named : named_file source target text with
  | none =>
      refine ⟨moving,fun _ seen => seen,fun b same => ⟨(Except.ok.inj same).symm,fun place member => ?_⟩⟩
      cases List.mem_singleton.mp member
      intro filename _ here
      rw [named] at here
      cases here
  | some filename =>
      dsimp only
      cases hit : s.cache.get? (target,filename) with
      | some relocated =>
          obtain ⟨rfl,_,blob,found,_⟩ := moving.cached target filename relocated hit
          refine ⟨moving,fun _ seen => seen,fun b same => ⟨?_,fun place member => ?_⟩⟩
          · rw [found]
            exact (Except.ok.inj same).symm
          · cases List.mem_singleton.mp member
            intro f _ here _
            cases named.symm.trans here
            exact hit
      | none =>
          dsimp only
          rw [moving.kept filename]
          cases found : get_artifact S3_ARCHIVE_PREFIX before source filename with
          | none =>
              refine ⟨moving,fun _ seen => seen,fun b same => ⟨(Except.ok.inj same).symm,fun place member => ?_⟩⟩
              cases List.mem_singleton.mp member
              intro f blob here stored
              cases named.symm.trans here
              rw [found] at stored
              cases stored
          | some blob =>
              simp only [save_artifact]
              split
              · exact ⟨moving,fun _ seen => seen,fun _ same => by cases same⟩
              · refine ⟨save_moving moving plain own (named_file_ne named) (ask filename named) hit found,?_,
                  fun b same => ⟨(Except.ok.inj same).symm,fun place member => ?_⟩⟩
                · intro place seen f old here stored
                  have before_it := seen f old here stored
                  rw [Dict.get?_set_ne]
                  · exact before_it
                  · intro equal
                    rw [equal,hit] at before_it
                    cases before_it
                · cases List.mem_singleton.mp member
                  intro f _ here _
                  cases named.symm.trans here
                  exact Dict.get?_set_self _ _ _

-- The relocation of one payload, and of the payloads of a batch with the cache they share.
theorem relocate_payload_passes {codec : Codec} (refused : List String) (limit : Nat) (payload : Value)
    (plain : ∀ r f, asked r f → '/' ∉ r.toList) (own : '/' ∉ source.toList)
    (ask : ∀ text ∈ texts codec limit payload, ∀ filename, named_file source target text = some filename → asked target filename)
    (moving : Moving S3_ARCHIVE_PREFIX before source asked s) :
    Passes (Moving S3_ARCHIVE_PREFIX before source asked) (Copied S3_ARCHIVE_PREFIX before source)
      (map_texts codec (moved S3_ARCHIVE_PREFIX before source target) limit payload)
      ((texts codec limit payload).map fun text => (target,text)) s
      (relocate_artifacts_for_request S3_ARCHIVE_PREFIX codec refused limit source target payload s) := by
  refine passes_rewrite limit payload (fun text here s moving => ?_) s moving
  exact relocate_passes refused plain own (ask text here) moving

end

end

end Lumilake.Artifacts

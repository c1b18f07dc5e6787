import Lumilake.Runtime.ApiTask

namespace Lumilake.RuntimeManager

def scheme_char (c : Char) : Bool := c.isAlphanum || "!#$%&'*+.^_`|~-".toList.contains c

-- _AUTH_SCHEME_RE: a letter, scheme characters, then white space.
def has_auth_scheme (credential : String) : Bool :=
  match credential.toList with
  | c :: cs => c.isAlpha && (cs.dropWhile scheme_char).head?.any is_space
  | [] => false

def with_auth_scheme (credential : String) : String :=
  if has_auth_scheme credential then credential else "Bearer " ++ credential

-- The header a node's api spec carries.
def authorization (api_spec : Spec) : Option Value :=
  match api_spec.lookup "headers" with
  | some (.dict headers) => headers.lookup "Authorization"
  | _ => none

def set_key (key : String) (value : Value) (entries : Spec) : Spec :=
  entries.map fun e => if e.1 = key then (key,value) else e

def set_authorization (api_spec : Spec) (value : String) : Spec :=
  match api_spec.lookup "headers" with
  | some (.dict headers) => set_key "headers" (.dict (set_key "Authorization" (.str value) headers)) api_spec
  | _ => api_spec

-- next((cred for id in ids if cred is not None), None)
def first_credential (get_api_credential : String → Option String) (member_request_ids : List String) : Option String :=
  (member_request_ids.filterMap get_api_credential).head?

def resolve_credential (settings : ApiSettings) (get_api_credential : String → Option String)
    (member_request_ids : List String) (api_spec : Spec) : Except String (Option String) :=
  match api_spec.lookup "url" with
  | some (.str url) => do
      let trusted ← is_api_origin_trusted settings url
      if trusted then resolve_api_credential settings url
      else pure (first_credential get_api_credential member_request_ids)
  | _ => .ok (first_credential get_api_credential member_request_ids)

-- The turn of _resolve_api_credentials for one node's api spec.
def resolve_node (settings : ApiSettings) (get_api_credential : String → Option String)
    (member_request_ids : List String) (api_spec : Spec) : Except String Spec :=
  if authorization api_spec ≠ some (.str API_CREDENTIAL_PLACEHOLDER) then .ok api_spec
  else do
    let resolved ← resolve_credential settings get_api_credential member_request_ids api_spec
    match truthy resolved with
    | some credential => pure (set_authorization api_spec (with_auth_scheme credential))
    | none => pure api_spec

def resolve_api_credentials (settings : ApiSettings) (get_api_credential : String → Option String)
    (member_request_ids : List String) (api_specs : List Spec) : Except String (List Spec) :=
  api_specs.mapM (resolve_node settings get_api_credential member_request_ids)

theorem lookup_set_key {entries : Spec} {key : String} {value old : Value} (present : entries.lookup key = some old) :
    (set_key key value entries).lookup key = some value := by
  induction entries with
  | nil => cases present
  | cons e rest ih =>
      obtain ⟨k,v⟩ := e
      by_cases same : k = key
      · subst same; simp [set_key]
      · have other : (key == k) = false := by simpa using Ne.symm same
        simp only [List.lookup_cons,other] at present
        simp only [set_key,List.map_cons,if_neg same,List.lookup_cons,other]
        exact ih present

theorem authorization_set {api_spec : Spec} {old : Value} (present : authorization api_spec = some old) (value : String) :
    authorization (set_authorization api_spec value) = some (.str value) := by
  unfold authorization at present
  split at present
  · rename_i headers found
    unfold set_authorization authorization
    rw [found]
    dsimp only
    rw [lookup_set_key found]
    exact lookup_set_key present
  · cases present

theorem has_auth_scheme_letter {credential : String} (scheme : has_auth_scheme credential = true) :
    ∃ c cs, credential.toList = c :: cs ∧ c.isAlpha = true := by
  unfold has_auth_scheme at scheme
  split at scheme
  · rename_i c cs split
    exact ⟨c,cs,split,(Bool.and_eq_true_iff.mp scheme).1⟩
  · cases scheme

-- A resolved header is never the placeholder itself.
theorem with_auth_scheme_ne (credential : String) : with_auth_scheme credential ≠ API_CREDENTIAL_PLACEHOLDER := by
  intro same
  unfold with_auth_scheme at same
  split at same
  · rename_i scheme
    obtain ⟨c,cs,split,letter⟩ := has_auth_scheme_letter scheme
    rw [same] at split
    have first : API_CREDENTIAL_PLACEHOLDER.toList = '$' :: "{credential}".toList := by decide
    rw [first] at split
    obtain ⟨rfl,_⟩ := List.cons.inj split
    exact absurd letter (by decide)
  · have head := congrArg (fun s : String => s.toList.head?) same
    simp only [String.toList_append] at head
    exact absurd head (by
      have first : "Bearer ".toList = 'B' :: "earer ".toList := by decide
      have other : API_CREDENTIAL_PLACEHOLDER.toList = '$' :: "{credential}".toList := by decide
      rw [first,other]
      simp)

end Lumilake.RuntimeManager

import Lumilake.Routes.TemplateHash

-- Documents with sorted mappings: the hash reads a document through them, before and
-- after redaction.
namespace Lumilake.TemplateHash
open JsonText

section
variable {Native : Type}

def Key.writable : Key Native → Bool
  | .native _ => false
  | _ => true

-- A document with the entries of each mapping in the order of their keys; none where the
-- keys of one cannot be sorted or written.
mutual
def arranged : Doc Native → Option (Doc Native)
  | .list items => (arranged_items items).map .list
  | .tuple items => (arranged_items items).map .tuple
  | .dict entries => do
      let entries ← arranged_entries entries
      let items ← sort_items entries
      if items.all fun e => e.1.writable then some (.dict items) else Option.none
  | value => some value
def arranged_items : List (Doc Native) → Option (List (Doc Native))
  | [] => some []
  | item :: items => do
      let first ← arranged item
      let later ← arranged_items items
      pure (first :: later)
def arranged_entries : Entries Native → Option (Entries Native)
  | [] => some []
  | (key,item) :: entries => do
      let first ← arranged item
      let later ← arranged_entries entries
      pure ((key,first) :: later)
end

theorem sort_items_map {β γ : Type} (f : Key Native × β → γ) (entries : List (Key Native × β)) :
    sort_items (entries.map fun e => (e.1,f e)) = (sort_items entries).map (List.map fun e => (e.1,f e)) := by
  unfold sort_items
  simp only [List.all_map,List.length_map,Function.comp_def]
  split
  · refine congrArg some (Eq.symm ?_)
    exact List.map_insertionSort (fun a b : Key Native × β => a.1.le b.1 = true) (fun a b : Key Native × γ => a.1.le b.1 = true)
      (fun e => (e.1,f e)) entries fun _ _ _ _ => Iff.rfl
  · split <;> rfl

end

section
variable (floats : FloatText) {Native : Type} (str : Native → Text)

def key_text (key : Key Native) : List CodeUnit := (key_units floats key).getD []

-- The JSON value of a document, its entries as they stand.
mutual
def plain : Doc Native → Json
  | .none => .null
  | .bool b => .bool b
  | .int i => .number (int_numeral i)
  | .nan => .number nan_numeral
  | .float x => .number (float_numeral floats x)
  | .str s => .string (units s)
  | .native n => .string (units (str n))
  | .list items => .array (plain_items items)
  | .tuple items => .array (plain_items items)
  | .dict entries => .object (plain_entries entries)
def plain_items : List (Doc Native) → List Json
  | [] => []
  | item :: items => plain item :: plain_items items
def plain_entries : Entries Native → List (List CodeUnit × Json)
  | [] => []
  | (key,item) :: entries => (key_text floats key,plain item) :: plain_entries entries
end

end

section
variable {floats : FloatText} {Native : Type} {str : Native → Text}

theorem plain_entries_map (entries : Entries Native) :
    plain_entries floats str entries = entries.map fun e => (key_text floats e.1,plain floats str e.2) := by
  induction entries with
  | nil => rfl
  | cons e rest ih => rw [plain_entries,ih]; rfl

theorem written_items (items : List (Key Native × Json)) :
    items.mapM (written_entry floats) =
      if items.all (fun e => e.1.writable) then some (items.map fun e => (key_text floats e.1,e.2)) else Option.none := by
  induction items with
  | nil => rfl
  | cons e rest ih =>
      obtain ⟨key,value⟩ := e
      rw [List.mapM_cons,ih,List.all_cons]
      cases key with
      | native n => rfl
      | bool b => cases b <;> cases rest.all (fun e => e.1.writable) <;> rfl
      | _ => cases rest.all (fun e => e.1.writable) <;> rfl

mutual
theorem encode_arranged : (d : Doc Native) → encode floats str d = (arranged d).map (plain floats str)
  | .none => rfl
  | .bool _ => rfl
  | .int _ => rfl
  | .nan => rfl
  | .float _ => rfl
  | .str _ => rfl
  | .native _ => rfl
  | .list items => by
      rw [encode,arranged,encode_items_arranged items]
      cases arranged_items items <;> rfl
  | .tuple items => by
      rw [encode,arranged,encode_items_arranged items]
      cases arranged_items items <;> rfl
  | .dict entries => by
      rw [encode,arranged,encode_entries_arranged entries]
      cases arranged_entries entries with
      | none => rfl
      | some es =>
          simp only [Option.map_some,Option.bind_eq_bind,Option.bind_some]
          rw [sort_items_map (fun e => plain floats str e.2) es]
          cases sort_items es with
          | none => rfl
          | some sorted =>
              simp only [Option.map_some,Option.bind_some,written_items,List.all_map,Function.comp_def]
              cases sorted.all (fun e => e.1.writable) with
              | false => rfl
              | true =>
                  simp only [if_true,Option.bind_some,Option.map_some,plain,plain_entries_map,List.map_map,Function.comp_def]
                  rfl
theorem encode_items_arranged : (items : List (Doc Native)) →
    encode_items floats str items = (arranged_items items).map (plain_items floats str)
  | [] => rfl
  | item :: items => by
      rw [encode_items,arranged_items,encode_arranged item,encode_items_arranged items]
      cases arranged item with
      | none => rfl
      | some first => cases arranged_items items <;> rfl
theorem encode_entries_arranged : (entries : Entries Native) →
    encode_entries floats str entries = (arranged_entries entries).map (List.map fun e => (e.1,plain floats str e.2))
  | [] => rfl
  | (key,item) :: entries => by
      rw [encode_entries,arranged_entries,encode_arranged item,encode_entries_arranged entries]
      cases arranged item with
      | none => rfl
      | some first => cases arranged_entries entries <;> rfl
end

-- What redaction leaves under a key.
def shown_value (e : Key Native × Doc Native) : Doc Native :=
  if credential e.1 e.2 then .str API_CREDENTIAL_PLACEHOLDER else redact_api_credentials e.2

theorem redact_entries_map (entries : Entries Native) : redact_entries entries = entries.map fun e => (e.1,shown_value e) := by
  induction entries with
  | nil => rfl
  | cons e rest ih => rw [redact_entries,ih]; rfl

theorem credential_arranged {key : Key Native} {item item' : Doc Native} (kept : arranged item = some item') :
    credential key item' = credential key item := by
  cases item with
  | list items =>
      rw [arranged] at kept
      obtain ⟨_,_,rfl⟩ := Option.map_eq_some_iff.mp kept
      cases key <;> rfl
  | tuple items =>
      rw [arranged] at kept
      obtain ⟨_,_,rfl⟩ := Option.map_eq_some_iff.mp kept
      cases key <;> rfl
  | dict entries =>
      rw [arranged] at kept
      obtain ⟨es,_,kept⟩ := Option.bind_eq_some_iff.mp kept
      obtain ⟨sorted,_,kept⟩ := Option.bind_eq_some_iff.mp kept
      split at kept <;> cases kept
      cases key <;> rfl
  | _ => cases kept; rfl

mutual
theorem arranged_redact : (d : Doc Native) → arranged (redact_api_credentials d) = (arranged d).map redact_api_credentials
  | .none => rfl
  | .bool _ => rfl
  | .int _ => rfl
  | .nan => rfl
  | .float _ => rfl
  | .str _ => rfl
  | .native _ => rfl
  | .list items => by
      rw [redact_api_credentials,arranged,arranged,arranged_redact_items items]
      cases arranged_items items <;> rfl
  | .tuple items => by
      rw [redact_api_credentials,arranged]
      · cases arranged_items items <;> rfl
      all_goals intros; contradiction
  | .dict entries => by
      rw [redact_api_credentials,arranged,arranged,arranged_redact_entries entries]
      cases arranged_entries entries with
      | none => rfl
      | some es =>
          simp only [Option.map_some,Option.bind_eq_bind,Option.bind_some]
          rw [sort_items_map shown_value es]
          cases sort_items es with
          | none => rfl
          | some sorted =>
              simp only [Option.map_some,Option.bind_some,List.all_map,Function.comp_def]
              cases sorted.all (fun e => e.1.writable) with
              | false => rfl
              | true => simp only [if_true,Option.map_some,redact_api_credentials,redact_entries_map]
theorem arranged_redact_items : (items : List (Doc Native)) → arranged_items (redact_items items) = (arranged_items items).map redact_items
  | [] => rfl
  | item :: items => by
      rw [redact_items,arranged_items,arranged_items,arranged_redact item,arranged_redact_items items]
      cases arranged item with
      | none => rfl
      | some first => cases arranged_items items <;> rfl
theorem arranged_redact_entries : (entries : Entries Native) →
    arranged_entries (redact_entries entries) = (arranged_entries entries).map (List.map fun e => (e.1,shown_value e))
  | [] => rfl
  | (key,item) :: entries => by
      rw [redact_entries,arranged_entries,arranged_entries,arranged_redact_entries entries]
      cases kept : arranged item with
      | none =>
          have shown : credential key item = false := by
            cases item with
            | str s => cases kept
            | _ => cases key <;> rfl
          rw [shown,if_neg Bool.false_ne_true,arranged_redact item,kept]
          rfl
      | some first =>
          have same : credential key first = credential key item := credential_arranged kept
          have value : arranged (if credential key item then .str API_CREDENTIAL_PLACEHOLDER else redact_api_credentials item) =
              some (shown_value (key,first)) := by
            rw [shown_value,same]
            split
            · rfl
            · rw [arranged_redact item,kept]
              rfl
          rw [value]
          cases arranged_entries entries <;> rfl
end

end

end Lumilake.TemplateHash

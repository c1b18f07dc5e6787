import Lumilake.Utils.Text
import Lumilake.Value

namespace Lumilake

def REDACTED_TOKEN_PLACEHOLDER : String := "***REDACTED***"

def SENSITIVE_DATA_SPEC_KEYS : List String := ["lumid_data_token","Authorization"]

-- `str.lower` where it yields ASCII: the Kelvin sign lowers to a letter, and so does the
-- dotted capital I, with a dot above after it.
def lower_char (c : Char) : List Char :=
  if c.toNat = 8490 then ['k'] else if c.toNat = 304 then ['i',Char.ofNat 775] else [c.toLower]

def lower_key (key : String) : List Char := key.toList.flatMap lower_char

def is_sensitive_key (key : String) : Bool := decide (lower_key key ∈ SENSITIVE_DATA_SPEC_KEYS.map lower_key)

-- A pattern at the head of a text: what replaces the match, and how many characters it takes.
abbrev Pattern := List Char → Option (List Char × Nat)

-- `re.sub`: matches from left to right, each after the end of the one before.
def sub (pattern : Pattern) : Nat → List Char → List Char
  | _,[] => []
  | skip + 1,_ :: rest => sub pattern skip rest
  | 0,c :: rest =>
      match pattern (c :: rest) with
      | some (replacement,taken) => replacement ++ sub pattern (taken - 1) rest
      | none => c :: sub pattern 0 rest

-- A letter of a pattern under IGNORECASE; `i` has two forms beside its capital.
def ignoring_case (letter c : Char) : Bool :=
  c.toLower == letter.toLower || (letter.toLower == 'i' && (c.toNat == 304 || c.toNat == 305))

def match_word : List Char → List Char → Bool
  | [],_ => true
  | _,[] => false
  | letter :: word,c :: rest => ignoring_case letter c && match_word word rest

-- `[A-Za-z]` under IGNORECASE takes in four letters beyond ASCII.
def is_letter (c : Char) : Bool := c.isAlpha || decide (c.toNat ∈ [304,305,383,8490])
def is_word_char (c : Char) : Bool := is_letter c || c.isDigit || c == '_' || c == '-'

def PLACEHOLDER : List Char := REDACTED_TOKEN_PLACEHOLDER.toList

-- `Bearer\s+\S+`
def BEARER_TOKEN_RE : Pattern := fun text =>
  let rest := text.drop 6
  let spaces := rest.takeWhile is_space
  let token := (rest.drop spaces.length).takeWhile (fun c => !is_space c)
  if match_word "Bearer".toList text ∧ spaces ≠ [] ∧ token ≠ [] then
    some ("Bearer ".toList ++ PLACEHOLDER,6 + spaces.length + token.length)
  else none

-- What `Authorization`, spaces, a colon and spaces take, when they stand at the head.
def header_name (quote : List Char) (text : List Char) : Option Nat :=
  let name := quote ++ "Authorization".toList ++ quote
  let spaces := (text.drop name.length).takeWhile is_space
  let colon := name.length + spaces.length
  if match_word name text ∧ (text.drop colon).head? = some ':' then
    some (colon + 1 + ((text.drop (colon + 1)).takeWhile is_space).length)
  else none

-- `(Authorization\s*:\s*[A-Za-z][A-Za-z0-9_-]*\s+)[^\n]*`
def AUTH_HEADER_RE : Pattern := fun text =>
  match header_name [] text with
  | none => none
  | some start =>
      let scheme := (text.drop start).takeWhile is_word_char
      let spaces := (text.drop (start + scheme.length)).takeWhile is_space
      let kept := start + scheme.length + spaces.length
      if (scheme.head?.any is_letter) ∧ spaces ≠ [] then
        some (text.take kept ++ PLACEHOLDER,kept + ((text.drop kept).takeWhile (· ≠ '\n')).length)
      else none

-- `("Authorization"\s*:\s*)"[^"]*"`
def AUTH_HEADER_JSON_RE : Pattern := fun text =>
  match header_name ['"'] text with
  | none => none
  | some start =>
      let body := (text.drop (start + 1)).takeWhile (· ≠ '"')
      if (text.drop start).head? = some '"' ∧ (text.drop (start + 1 + body.length)).head? = some '"' then
        some (text.take start ++ ['"'] ++ PLACEHOLDER ++ ['"'],start + body.length + 2)
      else none

def redact_text (text : String) : String :=
  String.ofList (sub AUTH_HEADER_JSON_RE 0 (sub AUTH_HEADER_RE 0 (sub BEARER_TOKEN_RE 0 text.toList)))

-- `isinstance(sub, str) and sub`
def is_secret : Value → Bool
  | .str s => s != ""
  | _ => false

mutual
def redact_sensitive : Value → Value
  | .str s => .str (redact_text s)
  | .list items => .list (redact_items items)
  | .dict entries => .dict (redact_entries entries)
  | value => value
def redact_items : List Value → List Value
  | [] => []
  | item :: items => redact_sensitive item :: redact_items items
def redact_entries : Spec → Spec
  | [] => []
  | (key,value) :: entries =>
      (key,if is_sensitive_key key && is_secret value then .str REDACTED_TOKEN_PLACEHOLDER else redact_sensitive value) ::
        redact_entries entries
end

-- `json.loads` and `json.dumps` as parameters.
def redact_secrets_in_text (loads : String → Option Value) (dumps : Value → String) (text : Value → String) (value : Value) : String :=
  match value with
  | .dict _ | .list _ => dumps (redact_sensitive value)
  | _ =>
      match loads (text value) with
      | some (.dict entries) => dumps (redact_sensitive (.dict entries))
      | some (.list items) => dumps (redact_sensitive (.list items))
      | _ => redact_text (text value)

-- Two payloads that differ only in the values under sensitive keys.
mutual
def Agree : Value → Value → Prop
  | .list items,.list items' => AgreeItems items items'
  | .dict entries,.dict entries' => AgreeEntries entries entries'
  | value,value' => value = value'
def AgreeItems : List Value → List Value → Prop
  | [],[] => True
  | item :: items,item' :: items' => Agree item item' ∧ AgreeItems items items'
  | _,_ => False
def AgreeEntries : Spec → Spec → Prop
  | [],[] => True
  | (key,value) :: entries,(key',value') :: entries' =>
      key = key' ∧ (is_sensitive_key key = true ∨ Agree value value') ∧ AgreeEntries entries entries'
  | _,_ => False
end

-- Two values that differ only in scrubbed text and in non-empty strings under sensitive keys.
mutual
def Blurred : Value → Value → Prop
  | .str s,.str s' => redact_text s = redact_text s'
  | .list items,.list items' => BlurredItems items items'
  | .dict entries,.dict entries' => BlurredEntries entries entries'
  | value,value' => value = value'
def BlurredItems : List Value → List Value → Prop
  | [],[] => True
  | item :: items,item' :: items' => Blurred item item' ∧ BlurredItems items items'
  | _,_ => False
def BlurredEntries : Spec → Spec → Prop
  | [],[] => True
  | (key,value) :: entries,(key',value') :: entries' =>
      key = key' ∧
        ((is_sensitive_key key = true ∧ is_secret value = true ∧ is_secret value' = true) ∨
          (¬ (is_sensitive_key key = true ∧ (is_secret value = true ∨ is_secret value' = true)) ∧ Blurred value value')) ∧
        BlurredEntries entries entries'
  | _,_ => False
end

-- The two values under a sensitive key are both non-empty strings, or neither is and what
-- they differ in is scrubbed or hidden further inside.
def Hidden (value value' : Value) : Prop :=
  (is_secret value = true ∧ is_secret value' = true) ∨
    (is_secret value = false ∧ is_secret value' = false ∧ Blurred value value')

-- Every two values under a sensitive key are hidden.
mutual
def Covered : Value → Value → Prop
  | .list items,.list items' => CoveredItems items items'
  | .dict entries,.dict entries' => CoveredEntries entries entries'
  | _,_ => True
def CoveredItems : List Value → List Value → Prop
  | item :: items,item' :: items' => Covered item item' ∧ CoveredItems items items'
  | _,_ => True
def CoveredEntries : Spec → Spec → Prop
  | (key,value) :: entries,(_,value') :: entries' =>
      (if is_sensitive_key key then Hidden value value' else Covered value value') ∧ CoveredEntries entries entries'
  | _,_ => True
end

example : redact_text "x Bearer  sk-1 y" = "x Bearer ***REDACTED*** y" := by decide
example : redact_text "Authorization: Basic a b\nc" = "Authorization: Basic ***REDACTED***\nc" := by decide

end Lumilake

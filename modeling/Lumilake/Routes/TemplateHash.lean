import Mathlib.Data.List.Lex
import Mathlib.Order.Fin.Basic
import Mathlib.Data.List.Sort
import Mathlib.Data.Rat.Defs
import Mathlib.Algebra.Order.Ring.Rat
import Lumilake.Library.JsonText

-- The template hash of a decoded workflow document.
namespace Lumilake.TemplateHash
open JsonText

abbrev CodePoint := Fin 1114112

-- A `str`, surrogates included.
abbrev Text := List CodePoint

def text (s : String) : Text := s.toList.map fun c => Fin.ofNat 1114112 c.toNat

-- A float other than `nan`.
inductive Number where
  | minus_inf
  | minus_zero
  | finite (q : Rat)
  | inf
  deriving DecidableEq

-- `float.__repr__` of the finite floats, each the rational it denotes: different floats
-- read differently, and none reads as an integer or as minus zero.
structure FloatText where
  repr : Rat → List Char
  distinct : Function.Injective repr
  chars : ∀ q, ∀ c ∈ repr q, c.isDigit = true ∨ c ∈ ['+','-','.','e']
  first : ∀ q, ∃ c rest, repr q = c :: rest ∧ (c.isDigit = true ∨ c = '-')
  pointed : ∀ q, '.' ∈ repr q ∨ 'e' ∈ repr q
  signed : ∀ q, repr q ≠ "-0.0".toList

-- The keys a decoded mapping can have. A `nan` key equals no key and is left out.
inductive Key (Native : Type) where
  | none
  | bool (b : Bool)
  | int (i : Int)
  | float (x : Number)
  | str (s : Text)
  | native (n : Native)
  deriving DecidableEq

-- A decoded document: JSON values, and what YAML adds (dates, bytes and sets as `native`,
-- the pairs of an ordered mapping as tuples).
inductive Doc (Native : Type) where
  | none
  | bool (b : Bool)
  | int (i : Int)
  | nan
  | float (x : Number)
  | str (s : Text)
  | native (n : Native)
  | list (items : List (Doc Native))
  | tuple (items : List (Doc Native))
  | dict (entries : List (Key Native × Doc Native))

abbrev Entries (Native : Type) := List (Key Native × Doc Native)

def API_CREDENTIAL_PLACEHOLDER : Text := text "$\x7bcredential\x7d"

def AUTHORIZATION : Text := text "authorization"

section
variable {Native : Type}

-- `key == "authorization" and isinstance(item, str)`
def credential (key : Key Native) (item : Doc Native) : Bool :=
  match key,item with
  | .str s,.str _ => decide (s = AUTHORIZATION)
  | _,_ => false

mutual
def redact_api_credentials : Doc Native → Doc Native
  | .dict entries => .dict (redact_entries entries)
  | .list items => .list (redact_items items)
  | value => value
def redact_items : List (Doc Native) → List (Doc Native)
  | [] => []
  | item :: items => redact_api_credentials item :: redact_items items
def redact_entries : Entries Native → Entries Native
  | [] => []
  | (key,item) :: entries =>
    (key,if credential key item then .str API_CREDENTIAL_PLACEHOLDER else redact_api_credentials item) :: redact_entries entries
end

def Key.is_text : Key Native → Bool
  | .str _ => true
  | _ => false

-- Numbers compare by value, the booleans as 0 and 1; infinities are at the ends.
def Key.place : Key Native → Option (Int × Rat)
  | .bool b => some (0,if b then 1 else 0)
  | .int i => some (0,i)
  | .float .minus_inf => some (-1,0)
  | .float .minus_zero => some (0,0)
  | .float (.finite q) => some (0,q)
  | .float .inf => some (1,0)
  | _ => Option.none

def text_le (a b : Text) : Bool := decide (a ≤ b)

def Key.le (a b : Key Native) : Bool :=
  match a,b with
  | .str s,.str t => text_le s t
  | a,b => match a.place,b.place with
    | some p,some q => decide (p.1 < q.1 ∨ p.1 = q.1 ∧ p.2 ≤ q.2)
    | _,_ => false

-- `sorted(dct.items())`: texts or numbers among themselves, or one entry.
def sort_items {β : Type} (entries : List (Key Native × β)) : Option (List (Key Native × β)) :=
  if entries.all (fun e => e.1.is_text) || entries.all (fun e => e.1.place.isSome) then
    some (entries.insertionSort fun a b => a.1.le b.1 = true)
  else if entries.length ≤ 1 then some entries
  else Option.none

end

-- UTF-16: a character beyond the first plane is a pair of surrogates.
def units_of (c : CodePoint) : List CodeUnit :=
  if c.val < 65536 then [Fin.ofNat 65536 c.val]
  else [Fin.ofNat 65536 (0xd800 + (c.val - 65536) / 1024),Fin.ofNat 65536 (0xdc00 + (c.val - 65536) % 1024)]

def units (s : Text) : List CodeUnit := s.flatMap units_of

def ascii (chars : List Char) : List CodeUnit := chars.map fun c => Fin.ofNat 65536 c.toNat

def int_text (i : Int) : List Char :=
  match i with
  | .ofNat n => Nat.toDigits 10 n
  | .negSucc n => '-' :: Nat.toDigits 10 (n + 1)

section
variable (floats : FloatText)

def float_text : Number → List Char
  | .minus_inf => "-Infinity".toList
  | .minus_zero => "-0.0".toList
  | .finite q => floats.repr q
  | .inf => "Infinity".toList

theorem digit_other : ∀ c ∈ ['n','t','f'], Char.isDigit c = false ∧ c ≠ '-' :=
  List.forall_iff_forall_mem.mp (by decide)

theorem not_word {c : Char} (first : c.isDigit = true ∨ c = '-') : c ∉ ['n','t','f'] := by
  intro member
  obtain ⟨other,minus⟩ := digit_other c member
  rcases first with digit | same
  · rw [other] at digit
    cases digit
  · exact minus same

theorem nat_digits (n : Nat) : ∀ c ∈ Nat.toDigits 10 n, c.isDigit = true :=
  fun _ member => Nat.isDigit_of_mem_toDigits (by decide) (by decide) member

theorem nat_first (n : Nat) : ∃ c rest, Nat.toDigits 10 n = c :: rest ∧ c.isDigit = true := by
  cases shape : Nat.toDigits 10 n with
  | nil => exact absurd shape Nat.toDigits_ne_nil
  | cons c rest => exact ⟨c,rest,rfl,nat_digits n c (shape ▸ List.mem_cons_self)⟩

def int_numeral (i : Int) : Numeral where
  text := int_text i
  chars c member := by
    cases i with
    | ofNat n => rw [numeral_char,nat_digits n c member]; rfl
    | negSucc n =>
        rcases List.mem_cons.mp member with rfl | later
        · rfl
        · rw [numeral_char,nat_digits (n + 1) c later]; rfl
  first := by
    cases i with
    | ofNat n =>
        obtain ⟨c,rest,shape,digit⟩ := nat_first n
        exact ⟨c,rest,shape,not_word (.inl digit)⟩
    | negSucc n => exact ⟨_,_,rfl,by decide⟩

def float_numeral (x : Number) : Numeral where
  text := float_text floats x
  chars c member := by
    cases x with
    | finite q =>
        rw [numeral_char]
        rcases floats.chars q c member with digit | mark
        · rw [digit]; rfl
        · simp only [List.mem_cons,List.not_mem_nil,or_false] at mark
          rcases mark with rfl | rfl | rfl | rfl <;> rfl
    | minus_inf => exact List.all_eq_true.mp (by decide : "-Infinity".toList.all numeral_char = true) c member
    | minus_zero => exact List.all_eq_true.mp (by decide : "-0.0".toList.all numeral_char = true) c member
    | inf => exact List.all_eq_true.mp (by decide : "Infinity".toList.all numeral_char = true) c member
  first := by
    cases x with
    | finite q =>
        obtain ⟨c,rest,shape,first⟩ := floats.first q
        exact ⟨c,rest,shape,not_word first⟩
    | minus_inf => exact ⟨_,_,rfl,by decide⟩
    | minus_zero => exact ⟨_,_,rfl,by decide⟩
    | inf => exact ⟨_,_,rfl,by decide⟩

def nan_numeral : Numeral where
  text := "NaN".toList
  chars := List.all_eq_true.mp (by decide : "NaN".toList.all numeral_char = true)
  first := ⟨_,_,rfl,by decide⟩

variable {Native : Type} (str : Native → Text)

-- The text of a key in JSON; none where `json.dumps` refuses it.
def key_units : Key Native → Option (List CodeUnit)
  | .none => some (ascii "null".toList)
  | .bool true => some (ascii "true".toList)
  | .bool false => some (ascii "false".toList)
  | .int i => some (ascii (int_text i))
  | .float x => some (ascii (float_text floats x))
  | .str s => some (units s)
  | .native _ => Option.none

def written_entry (e : Key Native × Json) : Option (List CodeUnit × Json) := (key_units floats e.1).map fun key => (key,e.2)

-- `json.dumps(value, sort_keys=True, default=str)` up to the writing of the value.
mutual
def encode : Doc Native → Option Json
  | .none => some .null
  | .bool b => some (.bool b)
  | .int i => some (.number (int_numeral i))
  | .nan => some (.number nan_numeral)
  | .float x => some (.number (float_numeral floats x))
  | .str s => some (.string (units s))
  | .native n => some (.string (units (str n)))
  | .list items => (encode_items items).map .array
  | .tuple items => (encode_items items).map .array
  | .dict entries => do
      let encoded ← encode_entries entries
      let items ← sort_items encoded
      let written ← items.mapM (written_entry floats)
      pure (.object written)
def encode_items : List (Doc Native) → Option (List Json)
  | [] => some []
  | item :: items => do
      let first ← encode item
      let later ← encode_items items
      pure (first :: later)
def encode_entries : Entries Native → Option (List (Key Native × Json))
  | [] => some []
  | (key,item) :: entries => do
      let first ← encode item
      let later ← encode_entries entries
      pure ((key,first) :: later)
end

def workflow_template_hash {Digest : Type} (digest : List Char → Digest) (workflow_payload : Doc Native) (workflow_format : Text) :
    Option Digest :=
  (encode floats str (.dict [(.str (text "format"),.str workflow_format),
    (.str (text "workflow"),redact_api_credentials workflow_payload)])).map fun payload => digest (write payload)

end

end Lumilake.TemplateHash

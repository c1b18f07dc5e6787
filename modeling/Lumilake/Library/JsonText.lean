import Mathlib.Data.List.Basic

-- JSON written without spaces and in ASCII: the text determines the value.
namespace JsonText

-- A string is its UTF-16 code units.
abbrev CodeUnit := Fin 65536

def numeral_char (c : Char) : Bool := c.isDigit || decide (c ∈ ['+','-','.','e','N','a','I','n','f','i','t','y'])

-- The text of a number, which begins with none of the words `null`, `true` and `false`.
structure Numeral where
  text : List Char
  chars : ∀ c ∈ text, numeral_char c = true
  first : ∃ c rest, text = c :: rest ∧ c ∉ ['n','t','f']

theorem Numeral.ext {m n : Numeral} (same : m.text = n.text) : m = n := by
  cases m; cases n; cases same; rfl

inductive Json where
  | null
  | bool (b : Bool)
  | number (numeral : Numeral)
  | string (units : List CodeUnit)
  | array (items : List Json)
  | object (entries : List (List CodeUnit × Json))

def hex_digit (n : Nat) : Char := Char.ofNat (if n < 10 then 48 + n else 87 + n)

def hex (n : Nat) : List Char := [hex_digit (n / 4096),hex_digit (n / 256 % 16),hex_digit (n / 16 % 16),hex_digit (n % 16)]

-- The units that are written as a backslash and one letter.
def short (n : Nat) : Option Char :=
  if n = 34 then some '"' else if n = 92 then some '\\' else if n = 8 then some 'b' else if n = 9 then some 't'
  else if n = 10 then some 'n' else if n = 12 then some 'f' else if n = 13 then some 'r' else none

def escape (u : CodeUnit) : List Char :=
  match short u.val with
  | some letter => ['\\',letter]
  | none => if 32 ≤ u.val ∧ u.val ≤ 126 then [Char.ofNat u.val] else '\\' :: 'u' :: hex u.val

def write_string (units : List CodeUnit) : List Char := '"' :: units.flatMap escape ++ ['"']

mutual
def write : Json → List Char
  | .null => "null".toList
  | .bool true => "true".toList
  | .bool false => "false".toList
  | .number numeral => numeral.text
  | .string units => write_string units
  | .array [] => ['[',']']
  | .array (item :: items) => '[' :: (write item ++ write_items items)
  | .object [] => ['\x7b','\x7d']
  | .object ((key,value) :: entries) => '\x7b' :: (write_string key ++ ':' :: (write value ++ write_entries entries))
def write_items : List Json → List Char
  | [] => [']']
  | item :: items => ',' :: (write item ++ write_items items)
def write_entries : List (List CodeUnit × Json) → List Char
  | [] => ['\x7d']
  | (key,value) :: entries => ',' :: (write_string key ++ ':' :: (write value ++ write_entries entries))
end

def hex_value (c : Char) : Nat := if c.toNat < 58 then c.toNat - 48 else c.toNat - 87

def long (letter : Char) : Nat :=
  if letter = 'b' then 8 else if letter = 't' then 9 else if letter = 'n' then 10 else if letter = 'f' then 12
  else if letter = 'r' then 13 else letter.toNat

def read_unit : List Char → Option (Nat × List Char)
  | [] => none
  | c :: text =>
    if c = '\\' then
      match text with
      | 'u' :: a :: b :: c :: d :: rest => some (4096 * hex_value a + 256 * hex_value b + 16 * hex_value c + hex_value d,rest)
      | letter :: rest => some (long letter,rest)
      | [] => none
    else some (c.toNat,text)

theorem hex_value_digit : ∀ n, n < 16 → hex_value (hex_digit n) = n := by decide

theorem toNat_printable : ∀ n, n < 127 → (Char.ofNat n).toNat = n := by decide

theorem printable_ne : ∀ n, n < 127 → n ≠ 92 → Char.ofNat n ≠ '\\' := by decide

theorem printable_ne_quote : ∀ n, n < 127 → n ≠ 34 → Char.ofNat n ≠ '"' := by decide

theorem short_letter {n : Nat} {letter : Char} (known : short n = some letter) : letter ≠ 'u' ∧ long letter = n := by
  unfold short at known
  repeat' split at known
  all_goals first | cases known; subst_vars; decide | cases known

theorem read_unit_escape (u : CodeUnit) (rest : List Char) : read_unit (escape u ++ rest) = some (u.val,rest) := by
  unfold escape
  split
  · rename_i letter known
    obtain ⟨other,back⟩ := short_letter known
    rw [← back]
    simp only [List.cons_append,List.nil_append,read_unit,if_true]
    split
    · rename_i same
      cases same
      exact absurd rfl other
    · rename_i same
      cases same
      rfl
    · rename_i none
      cases none
  · rename_i unknown
    split
    · rename_i printable
      have backslash : u.val ≠ 92 := fun same => by rw [same] at unknown; cases unknown
      simp only [List.cons_append,List.nil_append,read_unit]
      rw [if_neg (printable_ne u.val (by omega) backslash),toNat_printable u.val (by omega)]
    · have bound := u.isLt
      simp only [List.cons_append,List.nil_append,hex,read_unit,if_true]
      rw [hex_value_digit _ (by omega),hex_value_digit _ (by omega),hex_value_digit _ (by omega),hex_value_digit _ (by omega)]
      congr 2
      omega

theorem escape_unique {u v : CodeUnit} {rest rest' : List Char} (same : escape u ++ rest = escape v ++ rest') : u = v ∧ rest = rest' := by
  have read := (read_unit_escape u rest).symm.trans ((congrArg read_unit same).trans (read_unit_escape v rest'))
  obtain ⟨unit,after⟩ := Prod.mk.inj (Option.some.inj read)
  exact ⟨Fin.ext unit,after⟩

theorem escape_head (u : CodeUnit) : ∃ c text, escape u = c :: text ∧ c ≠ '"' := by
  unfold escape
  split
  · exact ⟨_,_,rfl,by decide⟩
  · rename_i unknown
    have quote : u.val ≠ 34 := fun same => by rw [same] at unknown; cases unknown
    split
    · exact ⟨_,_,rfl,printable_ne_quote u.val (by omega) quote⟩
    · exact ⟨_,_,rfl,by decide⟩

-- A string ends at its own quote.
theorem units_unique {us vs : List CodeUnit} {rest rest' : List Char}
    (same : us.flatMap escape ++ '"' :: rest = vs.flatMap escape ++ '"' :: rest') : us = vs ∧ rest = rest' := by
  induction us generalizing vs with
  | nil =>
      cases vs with
      | nil => exact ⟨rfl,(List.cons.inj same).2⟩
      | cons v vs =>
          obtain ⟨c,text,shape,other⟩ := escape_head v
          rw [List.flatMap_nil,List.flatMap_cons,shape] at same
          exact absurd (List.cons.inj same).1.symm other
  | cons u us ih =>
      cases vs with
      | nil =>
          obtain ⟨c,text,shape,other⟩ := escape_head u
          rw [List.flatMap_nil,List.flatMap_cons,shape] at same
          exact absurd (List.cons.inj same).1 other
      | cons v vs =>
          rw [List.flatMap_cons,List.flatMap_cons,List.append_assoc,List.append_assoc] at same
          obtain ⟨rfl,later⟩ := escape_unique same
          obtain ⟨rfl,after⟩ := ih later
          exact ⟨rfl,after⟩

theorem string_unique {us vs : List CodeUnit} {rest rest' : List Char} (same : write_string us ++ rest = write_string vs ++ rest') :
    us = vs ∧ rest = rest' := by
  unfold write_string at same
  rw [List.append_assoc,List.append_assoc,List.singleton_append,List.singleton_append] at same
  exact units_unique (List.cons.inj same).2

-- What may follow a value: nothing, or a mark that no number goes on with.
def Stops (rest : List Char) : Prop := ∀ c ∈ rest.head?, numeral_char c = false

theorem numeral_unique {m n : Numeral} {rest rest' : List Char} (stops : Stops rest) (stops' : Stops rest')
    (same : m.text ++ rest = n.text ++ rest') : m = n ∧ rest = rest' := by
  have taken {k : Numeral} {rest : List Char} (stops : Stops rest) : (k.text ++ rest).takeWhile numeral_char = k.text := by
    rw [List.takeWhile_append_of_pos k.chars]
    cases rest with
    | nil => exact List.append_nil _
    | cons c cs => rw [List.takeWhile_cons_of_neg (by rw [stops c rfl]; exact Bool.false_ne_true),List.append_nil]
  have text : m.text = n.text := (taken stops).symm.trans ((congrArg (List.takeWhile numeral_char) same).trans (taken stops'))
  exact ⟨Numeral.ext text,List.append_cancel_left (text ▸ same)⟩

-- What the first character of a value says about it.
def kind : Json → Char
  | .null => 'n'
  | .bool true => 't'
  | .bool false => 'f'
  | .number _ => '0'
  | .string _ => '"'
  | .array _ => '['
  | .object _ => '\x7b'

def kind_of (c : Char) : Char := if c ∈ ['n','t','f','"','[','\x7b'] then c else '0'

theorem write_first (a : Json) : ∃ c text, write a = c :: text ∧ kind_of c = kind a ∧ c ≠ ']' := by
  cases a with
  | number numeral =>
      obtain ⟨c,text,shape,other⟩ := numeral.first
      have digit : numeral_char c = true := numeral.chars c (shape ▸ List.mem_cons_self)
      refine ⟨c,text,by rw [write,shape],?_,?_⟩
      · rw [kind_of,if_neg]
        · rfl
        · intro member
          simp only [List.mem_cons,List.not_mem_nil,or_false,not_or] at member other
          rcases member with rfl | rfl | rfl | rfl | rfl | rfl
          · exact other.1 rfl
          · exact other.2.1 rfl
          · exact other.2.2 rfl
          · exact absurd digit (by decide)
          · exact absurd digit (by decide)
          · exact absurd digit (by decide)
      · rintro rfl
        exact absurd digit (by decide)
  | null => exact ⟨_,_,rfl,rfl,by decide⟩
  | bool b => cases b <;> exact ⟨_,_,rfl,rfl,by decide⟩
  | string units => exact ⟨_,_,rfl,rfl,by decide⟩
  | array items => cases items <;> exact ⟨_,_,rfl,rfl,by decide⟩
  | object entries => cases entries <;> exact ⟨_,_,rfl,rfl,by decide⟩

theorem kind_unique {a b : Json} {rest rest' : List Char} (same : write a ++ rest = write b ++ rest') : kind a = kind b := by
  obtain ⟨c,text,shape,kind_a,_⟩ := write_first a
  obtain ⟨d,text',shape',kind_b,_⟩ := write_first b
  rw [shape,shape'] at same
  rw [← kind_a,← kind_b,(List.cons.inj same).1]

theorem stops_items (items : List Json) (rest : List Char) : Stops (write_items items ++ rest) := by
  intro c first
  cases items <;> cases first <;> rfl

theorem stops_entries (entries : List (List CodeUnit × Json)) (rest : List Char) : Stops (write_entries entries ++ rest) := by
  intro c first
  cases entries with
  | nil => cases first; rfl
  | cons entry entries => cases first; rfl

mutual
-- A value ends where its text does, whatever comes after.
theorem write_unique {rest rest' : List Char} (stops : Stops rest) (stops' : Stops rest') :
    (a b : Json) → write a ++ rest = write b ++ rest' → a = b ∧ rest = rest'
  | .null,b,same => by
      cases b with
      | null => exact ⟨rfl,List.append_cancel_left same⟩
      | bool b => cases b <;> exact absurd (kind_unique same) (by decide)
      | _ => exact absurd (kind_unique same) (by simp [kind])
  | .bool true,b,same => by
      cases b with
      | bool b =>
          cases b with
          | true => exact ⟨rfl,List.append_cancel_left same⟩
          | false => exact absurd (kind_unique same) (by decide)
      | _ => exact absurd (kind_unique same) (by simp [kind])
  | .bool false,b,same => by
      cases b with
      | bool b =>
          cases b with
          | true => exact absurd (kind_unique same) (by decide)
          | false => exact ⟨rfl,List.append_cancel_left same⟩
      | _ => exact absurd (kind_unique same) (by simp [kind])
  | .number m,b,same => by
      cases b with
      | number n =>
          obtain ⟨rfl,after⟩ := numeral_unique stops stops' same
          exact ⟨rfl,after⟩
      | bool b => cases b <;> exact absurd (kind_unique same) (by simp [kind])
      | _ => exact absurd (kind_unique same) (by simp [kind])
  | .string us,b,same => by
      cases b with
      | string vs =>
          obtain ⟨rfl,after⟩ := string_unique same
          exact ⟨rfl,after⟩
      | bool b => cases b <;> exact absurd (kind_unique same) (by simp [kind])
      | _ => exact absurd (kind_unique same) (by simp [kind])
  | .array [],b,same => by
      cases b with
      | array bs =>
          cases bs with
          | nil => exact ⟨rfl,List.append_cancel_left same⟩
          | cons b bs =>
              obtain ⟨c,text,shape,_,other⟩ := write_first b
              rw [write,write,shape] at same
              exact absurd (List.cons.inj (List.cons.inj same).2).1.symm other
      | bool b => cases b <;> exact absurd (kind_unique same) (by simp [kind])
      | _ => exact absurd (kind_unique same) (by simp [kind])
  | .array (a :: as),b,same => by
      cases b with
      | array bs =>
          cases bs with
          | nil =>
              obtain ⟨c,text,shape,_,other⟩ := write_first a
              rw [write,write,shape] at same
              exact absurd (List.cons.inj (List.cons.inj same).2).1 other
          | cons b bs =>
              rw [write,write,List.cons_append,List.cons_append,List.append_assoc,List.append_assoc] at same
              obtain ⟨rfl,later⟩ := write_unique (stops_items as rest) (stops_items bs rest') a b (List.cons.inj same).2
              obtain ⟨rfl,after⟩ := items_unique as bs later
              exact ⟨rfl,after⟩
      | bool b => cases b <;> exact absurd (kind_unique same) (by simp [kind])
      | _ => exact absurd (kind_unique same) (by simp [kind])
  | .object [],b,same => by
      cases b with
      | object bs =>
          cases bs with
          | nil => exact ⟨rfl,List.append_cancel_left same⟩
          | cons b bs =>
              obtain ⟨key,value⟩ := b
              rw [write,write,write_string] at same
              exact absurd (List.cons.inj (List.cons.inj same).2).1 (by decide)
      | bool b => cases b <;> exact absurd (kind_unique same) (by simp [kind])
      | _ => exact absurd (kind_unique same) (by simp [kind])
  | .object ((key,value) :: as),b,same => by
      cases b with
      | object bs =>
          cases bs with
          | nil =>
              rw [write,write,write_string] at same
              exact absurd (List.cons.inj (List.cons.inj same).2).1 (by decide)
          | cons b bs =>
              obtain ⟨key',value'⟩ := b
              rw [write,write,List.cons_append,List.cons_append,List.append_assoc,List.append_assoc,List.cons_append,List.cons_append,
                List.append_assoc,List.append_assoc] at same
              obtain ⟨rfl,colon⟩ := string_unique (List.cons.inj same).2
              obtain ⟨rfl,later⟩ := write_unique (stops_entries as rest) (stops_entries bs rest') value value' (List.cons.inj colon).2
              obtain ⟨rfl,after⟩ := entries_unique as bs later
              exact ⟨rfl,after⟩
      | bool b => cases b <;> exact absurd (kind_unique same) (by simp [kind])
      | _ => exact absurd (kind_unique same) (by simp [kind])
theorem items_unique {rest rest' : List Char} : (as bs : List Json) → write_items as ++ rest = write_items bs ++ rest' → as = bs ∧ rest = rest'
  | [],bs,same => by
      cases bs with
      | nil => exact ⟨rfl,List.append_cancel_left same⟩
      | cons b bs => rw [write_items,write_items] at same; exact absurd (List.cons.inj same).1 (by decide)
  | a :: as,bs,same => by
      cases bs with
      | nil => rw [write_items,write_items] at same; exact absurd (List.cons.inj same).1 (by decide)
      | cons b bs =>
          rw [write_items,write_items,List.cons_append,List.cons_append,List.append_assoc,List.append_assoc] at same
          obtain ⟨rfl,later⟩ := write_unique (stops_items as rest) (stops_items bs rest') a b (List.cons.inj same).2
          obtain ⟨rfl,after⟩ := items_unique as bs later
          exact ⟨rfl,after⟩
theorem entries_unique {rest rest' : List Char} : (as bs : List (List CodeUnit × Json)) →
    write_entries as ++ rest = write_entries bs ++ rest' → as = bs ∧ rest = rest'
  | [],bs,same => by
      cases bs with
      | nil => exact ⟨rfl,List.append_cancel_left same⟩
      | cons b bs => obtain ⟨key,value⟩ := b; rw [write_entries,write_entries] at same; exact absurd (List.cons.inj same).1 (by decide)
  | (key,value) :: as,bs,same => by
      cases bs with
      | nil => rw [write_entries,write_entries] at same; exact absurd (List.cons.inj same).1 (by decide)
      | cons b bs =>
          obtain ⟨key',value'⟩ := b
          rw [write_entries,write_entries,List.cons_append,List.cons_append,List.append_assoc,List.append_assoc,List.cons_append,
            List.cons_append,List.append_assoc,List.append_assoc] at same
          obtain ⟨rfl,colon⟩ := string_unique (List.cons.inj same).2
          obtain ⟨rfl,later⟩ := write_unique (stops_entries as rest) (stops_entries bs rest') value value' (List.cons.inj colon).2
          obtain ⟨rfl,after⟩ := entries_unique as bs later
          exact ⟨rfl,after⟩
end

theorem write_injective : Function.Injective write := by
  intro a b same
  have ended : Stops [] := fun _ none => nomatch none
  exact (write_unique ended ended a b (by rw [List.append_nil,List.append_nil,same])).1

end JsonText

import Mathlib.Data.List.Basic

-- Python's format strings: how the markup of one is read, and how the fields are filled
-- from named values.
namespace Lumilake.FormatString

abbrev Text := List Char

structure Field where
  name : Text
  conversion : Option Char
  spec : Text
  deriving DecidableEq

structure Piece where
  literal : Text
  field : Option Field
  deriving DecidableEq

inductive FormatError where
  | single_close
  | single_open
  | open_in_name
  | conversion_end
  | conversion_colon
  | spec_unmatched
  | field_unclosed
  | index (name : Text)
  | key (name : Text)
  | rendering (field : Field)
  deriving DecidableEq

-- Where the reader stands: a bracket in a name runs to the next `]`, and the braces of a
-- format spec are counted.
inductive Place where
  | text
  | open
  | close
  | name (name : Text) (bracket : Bool)
  | conversion (name : Text)
  | converted (name : Text) (conversion : Char)
  | spec (name : Text) (conversion : Option Char) (spec : Text) (depth : Nat)

structure Reader where
  pieces : List Piece := []
  literal : Text := []
  place : Place := .text

def Reader.field (r : Reader) (field : Field) : Reader := ⟨r.pieces ++ [⟨r.literal,some field⟩],[],.text⟩

def Reader.escaped (r : Reader) (c : Char) : Reader := ⟨r.pieces ++ [⟨r.literal ++ [c],none⟩],[],.text⟩

def Reader.name (r : Reader) (name : Text) (bracket : Bool) (c : Char) : Except FormatError Reader :=
  if bracket then .ok { r with place := .name (name ++ [c]) (decide (c ≠ ']')) }
  else if c = '\x7b' then .error .open_in_name
  else if c = '\x7d' then .ok (r.field ⟨name,none,[]⟩)
  else if c = ':' then .ok { r with place := .spec name none [] 0 }
  else if c = '!' then .ok { r with place := .conversion name }
  else .ok { r with place := .name (name ++ [c]) (decide (c = '[')) }

def Reader.scan (r : Reader) (c : Char) : Except FormatError Reader :=
  match r.place with
  | .text =>
    if c = '\x7b' then .ok { r with place := .open }
    else if c = '\x7d' then .ok { r with place := .close }
    else .ok { r with literal := r.literal ++ [c] }
  | .open => if c = '\x7b' then .ok (r.escaped c) else r.name [] false c
  | .close => if c = '\x7d' then .ok (r.escaped c) else .error .single_close
  | .name name bracket => r.name name bracket c
  | .conversion name => .ok { r with place := .converted name c }
  | .converted name conversion =>
    if c = '\x7d' then .ok (r.field ⟨name,some conversion,[]⟩)
    else if c = ':' then .ok { r with place := .spec name (some conversion) [] 0 }
    else .error .conversion_colon
  | .spec name conversion spec depth =>
    if c = '\x7b' then .ok { r with place := .spec name conversion (spec ++ [c]) (depth + 1) }
    else if c = '\x7d' then
      if depth = 0 then .ok (r.field ⟨name,conversion,spec⟩)
      else .ok { r with place := .spec name conversion (spec ++ [c]) (depth - 1) }
    else .ok { r with place := .spec name conversion (spec ++ [c]) depth }

def Reader.finish (r : Reader) : Except FormatError (List Piece) :=
  match r.place with
  | .text => .ok (if r.literal = [] then r.pieces else r.pieces ++ [⟨r.literal,none⟩])
  | .open => .error .single_open
  | .close => .error .single_close
  | .name _ _ => .error .field_unclosed
  | .conversion _ => .error .conversion_end
  | .converted _ _ => .error .spec_unmatched
  | .spec _ _ _ _ => .error .spec_unmatched

-- `Formatter().parse(template)`
def parse (template : Text) : Except FormatError (List Piece) := do
  let r ← template.foldlM Reader.scan {}
  r.finish

-- A name that is a key and nothing else.
def Field.plain (field : Field) : Bool :=
  field.conversion.isNone && field.spec.isEmpty && field.name.all fun c => decide (c ≠ '.' ∧ c ≠ '[' ∧ c.toNat < 128)

section
-- How a field with attributes, items, a conversion, a spec or other letters reads.
variable (render : Field → List (Text × Text) → Except FormatError Text)

def fill (values : List (Text × Text)) (field : Field) : Except FormatError Text :=
  if field.plain then
    -- An empty name or a number is a position, and no positional value is given.
    if field.name.all Char.isDigit then .error (.index field.name)
    else match values.lookup field.name with
      | some value => .ok value
      | none => .error (.key field.name)
  else render field values

def fill_piece (values : List (Text × Text)) (piece : Piece) : Except FormatError Text :=
  match piece.field with
  | some field => (fill render values field).map (piece.literal ++ ·)
  | none => .ok piece.literal

-- `template.format(**values)`
def format (template : Text) (values : List (Text × Text)) : Except FormatError Text := do
  let pieces ← parse template
  let texts ← pieces.mapM (fill_piece render values)
  pure texts.flatten

end

example : (parse "a/\x7bid\x7d/\x7b\x7bx\x7d\x7d".toList).toOption =
    some [⟨"a/".toList,some ⟨"id".toList,none,[]⟩⟩,⟨"/\x7b".toList,none⟩,⟨"x\x7d".toList,none⟩] := by decide +kernel

end Lumilake.FormatString

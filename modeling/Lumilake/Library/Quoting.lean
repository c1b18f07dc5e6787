import Mathlib.Data.List.Basic

-- Text between two marks, where a mark inside the text is written twice.
namespace Quoting

def doubled (mark : Char) (text : List Char) : List Char := text.flatMap fun c => if c = mark then [mark,mark] else [c]

def quoted (mark : Char) (text : List Char) : List Char := mark :: doubled mark text ++ [mark]

def read_inner (mark : Char) : List Char → Option (List Char × List Char)
  | [] => none
  | [c] => if c = mark then some ([],[]) else none
  | c :: d :: cs =>
    if c = mark then
      if d = mark then (read_inner mark cs).map fun found => (mark :: found.1,found.2) else some ([],d :: cs)
    else (read_inner mark (d :: cs)).map fun found => (c :: found.1,found.2)

def read_quoted (mark : Char) : List Char → Option (List Char × List Char)
  | [] => none
  | c :: cs => if c = mark then read_inner mark cs else none

theorem read_inner_doubled {mark : Char} (text : List Char) {rest : List Char} (ends : ∀ c ∈ rest.head?, c ≠ mark) :
    read_inner mark (doubled mark text ++ mark :: rest) = some (text,rest) := by
  induction text with
  | nil =>
      cases rest with
      | nil => simp [doubled,read_inner]
      | cons d ds => simp [doubled,read_inner,ends d rfl]
  | cons c cs ih =>
      have grows : doubled mark (c :: cs) = (if c = mark then [mark,mark] else [c]) ++ doubled mark cs := rfl
      rw [grows]
      by_cases same : c = mark
      · subst same
        simp [read_inner,ih]
      · rw [if_neg same]
        cases more : doubled mark cs ++ mark :: rest with
        | nil => simp at more
        | cons d ds =>
            rw [List.append_assoc,List.singleton_append,more,read_inner,if_neg same,← more,ih]
            rfl

theorem read_quoted_quoted {mark : Char} (text : List Char) {rest : List Char} (ends : ∀ c ∈ rest.head?, c ≠ mark) :
    read_quoted mark (quoted mark text ++ rest) = some (text,rest) := by
  have split : quoted mark text ++ rest = mark :: (doubled mark text ++ mark :: rest) := by simp [quoted]
  rw [split,read_quoted,if_pos rfl]
  exact read_inner_doubled text ends

end Quoting

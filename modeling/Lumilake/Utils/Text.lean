import Mathlib.Data.String.Basic

namespace Lumilake

instance lawful_texts : LawfulBEq (List Char) := inferInstance

-- The characters that str.isspace and \s accept.
def is_space (c : Char) : Bool :=
  c.toNat ∈ [9,10,11,12,13,28,29,30,31,32,133,160,5760,8192,8193,8194,8195,8196,8197,8198,8199,8200,8201,8202,
    8232,8233,8239,8287,12288]

-- `str.strip`, of a text as a list of characters and as a string.
def strip_text (cs : List Char) : List Char := ((cs.dropWhile is_space).reverse.dropWhile is_space).reverse

def strip (s : String) : String := String.ofList (strip_text s.toList)

-- `str.lower` as far as ASCII letters go.
def lower (s : String) : String := String.ofList (s.toList.map Char.toLower)

end Lumilake

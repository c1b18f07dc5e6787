import Mathlib.Data.Rat.Defs
import Mathlib.Data.List.Basic

namespace Lumilake

-- The plain Python values that specs, payloads and messages are made of. A dict
-- is its entries in insertion order; a float is the rational it denotes.
inductive Value where
  | none
  | bool (b : Bool)
  | int (i : Int)
  | float (q : Rat)
  | str (s : String)
  | list (items : List Value)
  | tuple (items : List Value)
  | dict (entries : List (String × Value))
  deriving Repr

-- A mapping whose keys are text, as `dict[str, Any]` is in the source.
abbrev Spec := List (String × Value)

namespace Value

mutual
def same : Value → Value → Bool
  | .none,.none => true
  | .bool a,.bool b => a == b
  | .int a,.int b => a == b
  | .float a,.float b => decide (a = b)
  | .str a,.str b => a == b
  | .list a,.list b => sameItems a b
  | .tuple a,.tuple b => sameItems a b
  | .dict a,.dict b => sameEntries a b
  | _,_ => false
def sameItems : List Value → List Value → Bool
  | [],[] => true
  | a :: as,b :: bs => same a b && sameItems as bs
  | _,_ => false
def sameEntries : Spec → Spec → Bool
  | [],[] => true
  | (k,a) :: as,(l,b) :: bs => k == l && same a b && sameEntries as bs
  | _,_ => false
end

mutual
theorem same_exact : (a b : Value) → (same a b = true ↔ a = b)
  | .none,b => by cases b <;> simp [same]
  | .bool a,b => by cases b <;> simp [same]
  | .int a,b => by cases b <;> simp [same]
  | .float a,b => by cases b <;> simp [same]
  | .str a,b => by cases b <;> simp [same]
  | .list a,b => by cases b <;> simp [same,sameItems_exact a]
  | .tuple a,b => by cases b <;> simp [same,sameItems_exact a]
  | .dict a,b => by cases b <;> simp [same,sameEntries_exact a]
theorem sameItems_exact : (a b : List Value) → (sameItems a b = true ↔ a = b)
  | [],b => by cases b <;> simp [sameItems]
  | a :: as,b => by cases b <;> simp [sameItems,same_exact a,sameItems_exact as]
theorem sameEntries_exact : (a b : Spec) → (sameEntries a b = true ↔ a = b)
  | [],b => by cases b <;> simp [sameEntries]
  | (k,a) :: as,b => by
    cases b with
    | nil => simp [sameEntries]
    | cons head tail =>
      obtain ⟨l,v⟩ := head
      simp [sameEntries,same_exact a,sameEntries_exact as]
end

instance : DecidableEq Value := fun a b => decidable_of_iff (same a b = true) (same_exact a b)

-- What holds of a value whenever it holds of all that stands in it holds of every value.
mutual
theorem induction {P : Value → Prop} (none : P .none) (bool : ∀ b, P (.bool b)) (int : ∀ i, P (.int i))
    (float : ∀ q, P (.float q)) (str : ∀ s, P (.str s)) (list : ∀ items, (∀ item ∈ items, P item) → P (.list items))
    (tuple : ∀ items, (∀ item ∈ items, P item) → P (.tuple items))
    (dict : ∀ entries, (∀ e ∈ entries, P e.2) → P (.dict entries)) : (v : Value) → P v
  | .none => none
  | .bool b => bool b
  | .int i => int i
  | .float q => float q
  | .str s => str s
  | .list items => list items (induction_items none bool int float str list tuple dict items)
  | .tuple items => tuple items (induction_items none bool int float str list tuple dict items)
  | .dict entries => dict entries (induction_entries none bool int float str list tuple dict entries)
theorem induction_items {P : Value → Prop} (none : P .none) (bool : ∀ b, P (.bool b)) (int : ∀ i, P (.int i))
    (float : ∀ q, P (.float q)) (str : ∀ s, P (.str s)) (list : ∀ items, (∀ item ∈ items, P item) → P (.list items))
    (tuple : ∀ items, (∀ item ∈ items, P item) → P (.tuple items))
    (dict : ∀ entries, (∀ e ∈ entries, P e.2) → P (.dict entries)) : (items : List Value) → ∀ item ∈ items, P item
  | [],_,member => nomatch member
  | first :: items,item,member => by
      rcases List.mem_cons.mp member with same | later
      · exact same ▸ induction none bool int float str list tuple dict first
      · exact induction_items none bool int float str list tuple dict items item later
theorem induction_entries {P : Value → Prop} (none : P .none) (bool : ∀ b, P (.bool b)) (int : ∀ i, P (.int i))
    (float : ∀ q, P (.float q)) (str : ∀ s, P (.str s)) (list : ∀ items, (∀ item ∈ items, P item) → P (.list items))
    (tuple : ∀ items, (∀ item ∈ items, P item) → P (.tuple items))
    (dict : ∀ entries, (∀ e ∈ entries, P e.2) → P (.dict entries)) : (entries : Spec) → ∀ e ∈ entries, P e.2
  | [],_,member => nomatch member
  | (key,first) :: entries,e,member => by
      rcases List.mem_cons.mp member with same | later
      · exact same ▸ induction none bool int float str list tuple dict first
      · exact induction_entries none bool int float str list tuple dict entries e later
end

-- `d.get(key)` on a dict, `None`-like when the key is missing.
def get? (entries : Spec) (key : String) : Option Value := entries.lookup key

-- `bool(value)`
def truth : Value → Bool
  | .none => false
  | .bool b => b
  | .int i => i != 0
  | .float q => decide (q ≠ 0)
  | .str s => s != ""
  | .list items => !items.isEmpty
  | .tuple items => !items.isEmpty
  | .dict entries => !entries.isEmpty

end Value
end Lumilake

import Lumilake.Library.Dict
import Lumilake.Library.Fallible
import Lumilake.Library.Regex
import Lumilake.Library.Separators
import Lumilake.Ops.Base

namespace Lumilake.Parser
open Ops

-- `entries.get(key)`
def get (entries : Spec) (key : String) : Value := (Value.get? entries key).getD .none

-- `entries[key] = value`
def put (key : String) (value : Value) (entries : Spec) : Spec :=
  if key ∈ entries.map Prod.fst then entries.map fun e => if e.1 = key then (key,value) else e
  else entries ++ [(key,value)]

theorem get_put_self (key : String) (value : Value) (entries : Spec) :
    Value.get? (put key value entries) key = some value := by
  unfold put Value.get?
  split
  · rename_i present
    induction entries with
    | nil => cases present
    | cons e rest ih =>
        by_cases same : e.1 = key
        · simp [same]
        · rw [List.map_cons,if_neg same,List.lookup_cons]
          rw [List.map_cons,List.mem_cons] at present
          rw [beq_false_of_ne (Ne.symm same)]
          exact ih (present.resolve_left (Ne.symm same))
  · rename_i absent
    rw [List.lookup_append,List.lookup_eq_none_iff.mpr]
    · simp
    · intro e member
      exact bne_iff_ne.mpr fun same => absent (same ▸ List.mem_map_of_mem member)

theorem get_put_ne {key other : String} (different : other ≠ key) (value : Value) (entries : Spec) :
    Value.get? (put key value entries) other = Value.get? entries other := by
  unfold put Value.get?
  split
  · clear * - different
    induction entries with
    | nil => rfl
    | cons e rest ih =>
        rw [List.map_cons]
        by_cases same : e.1 = key
        · rw [if_pos same,List.lookup_cons,List.lookup_cons,beq_false_of_ne different,same,beq_false_of_ne different]
          exact ih
        · rw [if_neg same,List.lookup_cons,List.lookup_cons,ih]
  · rw [List.lookup_append,List.lookup_cons,beq_false_of_ne different]
    simp

theorem put_put (key : String) (value other : Value) (entries : Spec) :
    put key value (put key other entries) = put key value entries := by
  by_cases present : key ∈ entries.map Prod.fst
  · have still : key ∈ (entries.map fun e => if e.1 = key then (key,other) else e).map Prod.fst := by
      obtain ⟨e,member,same⟩ := List.mem_map.mp present
      exact List.mem_map.mpr ⟨_,List.mem_map_of_mem member,by rw [if_pos same]⟩
    unfold put
    rw [if_pos present,if_pos still,if_pos present,List.map_map]
    refine List.map_congr_left fun e _ => ?_
    by_cases same : e.1 = key <;> simp [same]
  · have away : entries.map (fun e => if e.1 = key then (key,value) else e) = entries := by
      refine (List.map_congr_left fun e member => ?_).trans (List.map_id _)
      exact if_neg fun same : e.1 = key => present (same ▸ List.mem_map_of_mem member)
    unfold put
    rw [if_neg present,if_pos (by simp),if_neg present,List.map_append,away]
    simp

-- `value or other`
def either (value other : Value) : Value := if value.truth then value else other

def text? : Value → Option String
  | .str text => some text
  | _ => none

-- A list of texts and nothing else.
def texts? : Value → Option (List String)
  | .list items => items.mapM text?
  | _ => none

def text_entries? : Value → Option (List (String × String))
  | .dict entries => entries.mapM fun e => (text? e.2).map fun text => (e.1,text)
  | _ => none

def id_list (ids : List String) : Value := .list (ids.map .str)
def id_table (table : List (String × String)) : Value := .dict (table.map fun e => (e.1,.str e.2))

-- The 16-bit digest of "scope:name".
abbrev Digest := String → Fin 65536

def strip_char (dropped : Char) (cs : List Char) : List Char :=
  ((cs.dropWhile (· == dropped)).reverse.dropWhile (· == dropped)).reverse

-- re.sub("[^A-Za-z0-9]+", "_", text).strip("_") or default
def slug (text default : String) : List Char :=
  let cleaned := strip_char '_' (Regex.sub (.many1 fun c => !c.isAlphanum) (fun _ => ['_']) text.toList)
  if cleaned = [] then default.toList else cleaned

def suffix (digest : Digest) (scope name : String) : Nat := (digest (scope ++ ":" ++ name)).val % 10000

def make_id (digest : Digest) (scope kind name : String) : String :=
  String.ofList (kind.toList ++ '_' :: (slug scope "graph" ++ '_' :: (slug name "node" ++ '_' :: Nat.toDigits 10 (suffix digest scope name))))

-- What an operation is made for: a kind and the name in the document.
abbrev Entity := String × String

def Entity.id (digest : Digest) (scope : String) (entity : Entity) : String :=
  make_id digest scope entity.1 entity.2

-- Two names that the id of a kind does not tell apart.
def confused (digest : Digest) (scope : String) (a b : Entity) : Prop :=
  a.1 = b.1 ∧ slug a.2 "node" = slug b.2 "node" ∧ suffix digest scope a.2 = suffix digest scope b.2

theorem digits_clean (n : Nat) : '_' ∉ Nat.toDigits 10 n := by
  intro member
  have digit := Nat.isDigit_of_mem_toDigits (by decide) (by decide) member
  exact absurd digit (by decide)

theorem digits_inj {a b : Nat} (same : Nat.toDigits 10 a = Nat.toDigits 10 b) : a = b := by
  rw [← Nat.ofDigitChars_ten_toDigits (n := a),same,Nat.ofDigitChars_ten_toDigits]

-- An id tells kind, cleaned name and suffix, and nothing more.
theorem make_id_eq {digest : Digest} {scope : String} {a b : Entity} (clean : '_' ∉ a.1.toList) (clean' : '_' ∉ b.1.toList) :
    a.id digest scope = b.id digest scope ↔ confused digest scope a b := by
  constructor
  · intro same
    have texts := congrArg String.toList same
    simp only [Entity.id,make_id,String.toList_ofList] at texts
    obtain ⟨kinds,rest⟩ := Separators.front_of clean clean' texts
    obtain ⟨names,digits⟩ := Separators.back_of (digits_clean _) (digits_clean _) (List.cons.inj (List.append_cancel_left rest)).2
    exact ⟨String.toList_inj.mp kinds,names,digits_inj digits⟩
  · rintro ⟨kinds,names,suffixes⟩
    simp only [Entity.id,make_id,kinds,names,suffixes]

end Lumilake.Parser

import Mathlib.Data.List.Basic

namespace Lumilake

-- Regular expressions as a backtracking matcher runs them. Repetition is of one character
-- class only, which keeps the alternatives of a match a finite list in order of preference.
inductive Regex where
  | empty
  | one (allowed : Char → Bool)
  | literal (text : List Char)
  | many (allowed : Char → Bool) (greedy : Bool)
  | group (number : Nat) (inner : Regex)
  | seq (first second : Regex)
  | alt (first second : Regex)

namespace Regex

abbrev Groups := List (Nat × List Char)

structure Found where
  groups : Groups
  text : List Char
  rest : List Char

-- The ways to cut off characters of a class, the shortest first.
def cuts (allowed : Char → Bool) : List Char → List (List Char × List Char)
  | [] => [([],[])]
  | c :: cs => ([],c :: cs) :: (if allowed c then (cuts allowed cs).map fun cut => (c :: cut.1,cut.2) else [])

-- Every match at the front of a text, the preferred one first.
def attempts : Regex → List Char → List Found
  | .empty,cs => [⟨[],[],cs⟩]
  | .one allowed,c :: cs => if allowed c then [⟨[],[c],cs⟩] else []
  | .one _,[] => []
  | .literal text,cs => if text.isPrefixOf cs then [⟨[],text,cs.drop text.length⟩] else []
  | .many allowed greedy,cs =>
      let found := (cuts allowed cs).map fun cut => (⟨[],cut.1,cut.2⟩ : Found)
      if greedy then found.reverse else found
  | .group number inner,cs => (attempts inner cs).map fun m => ⟨(number,m.text) :: m.groups,m.text,m.rest⟩
  | .seq first second,cs => (attempts first cs).flatMap fun m =>
      (attempts second m.rest).map fun n => ⟨m.groups ++ n.groups,m.text ++ n.text,n.rest⟩
  | .alt first second,cs => attempts first cs ++ attempts second cs

def all : List Regex → Regex
  | [] => .empty
  | first :: more => .seq first (all more)

def opt (inner : Regex) : Regex := .alt inner .empty
def many1 (allowed : Char → Bool) : Regex := .seq (.one allowed) (.many allowed true)

-- `regex.match`; a match of no character counts for none, as no caller has one.
def match_front (regex : Regex) (cs : List Char) : Option Found :=
  (attempts regex cs).find? fun m => !m.text.isEmpty

-- A text cut at the matches from left to right.
inductive Piece where
  | char (c : Char)
  | found (m : Found)

def pieces (regex : Regex) : Nat → List Char → List Piece
  | _,[] => []
  | skip + 1,_ :: cs => pieces regex skip cs
  | 0,c :: cs =>
    match match_front regex (c :: cs) with
    | some m => .found m :: pieces regex (m.text.length - 1) cs
    | none => .char c :: pieces regex 0 cs

def finditer (regex : Regex) (cs : List Char) : List Found :=
  (pieces regex 0 cs).filterMap fun piece =>
    match piece with
    | .found m => some m
    | .char _ => none

def sub (regex : Regex) (replace : Found → List Char) (cs : List Char) : List Char :=
  (pieces regex 0 cs).flatMap fun piece =>
    match piece with
    | .found m => replace m
    | .char c => [c]

def Found.get (m : Found) (number : Nat) : Option (List Char) := m.groups.lookup number

theorem cuts_split {allowed : Char → Bool} {cs : List Char} {cut : List Char × List Char} (member : cut ∈ cuts allowed cs) :
    cut.1 ++ cut.2 = cs ∧ ∀ c ∈ cut.1, allowed c = true := by
  induction cs generalizing cut with
  | nil =>
      cases List.mem_singleton.mp member
      exact ⟨rfl,fun c inside => (nomatch inside)⟩
  | cons c cs ih =>
      rcases List.mem_cons.mp member with rfl | later
      · exact ⟨rfl,fun c inside => (nomatch inside)⟩
      · split at later
        · rename_i passes
          obtain ⟨inner,there,rfl⟩ := List.mem_map.mp later
          obtain ⟨whole,each⟩ := ih there
          exact ⟨congrArg (c :: ·) whole,List.forall_mem_cons.mpr ⟨passes,each⟩⟩
        · cases later

-- A match is a front of the text it was tried on.
theorem attempts_split {regex : Regex} {cs : List Char} {m : Found} (member : m ∈ attempts regex cs) : m.text ++ m.rest = cs := by
  induction regex generalizing cs m with
  | empty =>
      cases List.mem_singleton.mp member
      rfl
  | one allowed =>
      cases cs with
      | nil => cases member
      | cons c cs =>
          simp only [attempts] at member
          split at member
          · cases List.mem_singleton.mp member
            rfl
          · cases member
  | literal text =>
      simp only [attempts] at member
      split at member
      · rename_i front
        cases List.mem_singleton.mp member
        obtain ⟨rest,rfl⟩ := List.isPrefixOf_iff_prefix.mp front
        simp
      · cases member
  | many allowed greedy =>
      have among : m ∈ (cuts allowed cs).map fun cut => (⟨[],cut.1,cut.2⟩ : Found) := by
        simp only [attempts] at member
        split at member
        · exact List.mem_reverse.mp member
        · exact member
      obtain ⟨cut,there,rfl⟩ := List.mem_map.mp among
      exact (cuts_split there).1
  | group number inner ih =>
      obtain ⟨found,there,rfl⟩ := List.mem_map.mp member
      exact ih (m := found) there
  | seq first second ih ih' =>
      obtain ⟨found,there,more⟩ := List.mem_flatMap.mp member
      obtain ⟨found',there',rfl⟩ := List.mem_map.mp more
      rw [← ih there,← ih' there',List.append_assoc]
  | alt first second ih ih' =>
      rcases List.mem_append.mp member with there | there
      · exact ih there
      · exact ih' there

theorem match_front_mem {regex : Regex} {cs : List Char} (found : match_front regex cs = some m) :
    m ∈ attempts regex cs ∧ m.text ≠ [] := by
  refine ⟨List.mem_of_find?_eq_some found,?_⟩
  intro empty
  have filled := List.find?_some found
  simp [empty] at filled

theorem found_of_pieces {regex : Regex} {skip : Nat} {cs : List Char} (member : .found m ∈ pieces regex skip cs) :
    ∃ front rest, cs = front ++ rest ∧ match_front regex rest = some m := by
  induction cs generalizing skip with
  | nil => cases skip <;> cases member
  | cons d ds ih =>
      have later : ∀ {skip}, .found m ∈ pieces regex skip ds →
          ∃ front rest, d :: ds = front ++ rest ∧ match_front regex rest = some m := by
        intro skip inside
        obtain ⟨front,rest,split,found⟩ := ih inside
        exact ⟨d :: front,rest,congrArg (d :: ·) split,found⟩
      cases skip with
      | succ skip => exact later member
      | zero =>
          unfold pieces at member
          cases found : match_front regex (d :: ds) with
          | none =>
              rw [found] at member
              rcases List.mem_cons.mp member with same | inside
              · cases same
              · exact later inside
          | some n =>
              rw [found] at member
              rcases List.mem_cons.mp member with same | inside
              · cases same
                exact ⟨[],d :: ds,rfl,found⟩
              · exact later inside

theorem found_of_finditer {regex : Regex} {cs : List Char} (member : m ∈ finditer regex cs) :
    ∃ front rest, cs = front ++ rest ∧ match_front regex rest = some m := by
  obtain ⟨piece,there,kept⟩ := List.mem_filterMap.mp member
  cases piece with
  | char c => cases kept
  | found n =>
      cases kept
      exact found_of_pieces there

theorem char_of_pieces {regex : Regex} {skip : Nat} {cs : List Char} (member : .char c ∈ pieces regex skip cs) :
    ∃ rest, match_front regex (c :: rest) = none := by
  induction cs generalizing skip with
  | nil => cases skip <;> cases member
  | cons d ds ih =>
      cases skip with
      | succ skip => exact ih member
      | zero =>
          unfold pieces at member
          cases found : match_front regex (d :: ds) with
          | none =>
              rw [found] at member
              rcases List.mem_cons.mp member with same | later
              · cases same
                exact ⟨ds,found⟩
              · exact ih later
          | some m =>
              rw [found] at member
              rcases List.mem_cons.mp member with same | later
              · cases same
              · exact ih later

-- What stands in a text after a substitution was put there or begins no match.
theorem mem_sub {regex : Regex} {replace : Found → List Char} {cs : List Char} (member : c ∈ sub regex replace cs) :
    (∃ m, c ∈ replace m) ∨ ∃ rest, match_front regex (c :: rest) = none := by
  obtain ⟨piece,there,inside⟩ := List.mem_flatMap.mp member
  cases piece with
  | found m => exact .inl ⟨m,inside⟩
  | char d =>
      cases List.mem_singleton.mp inside
      exact .inr (char_of_pieces there)

theorem unmatched_one {allowed : Char → Bool} {cs : List Char} (unmatched : match_front (.one allowed) (c :: cs) = none) :
    allowed c = false := by
  cases known : allowed c with
  | false => rfl
  | true =>
      rw [match_front,attempts,known] at unmatched
      exact absurd unmatched (by simp)

theorem unmatched_many1 {allowed : Char → Bool} {cs : List Char} (unmatched : match_front (many1 allowed) (c :: cs) = none) :
    allowed c = false := by
  cases known : allowed c with
  | false => rfl
  | true =>
      have shortest : ∃ cut, cut ∈ (cuts allowed cs).reverse := by
        cases cs with
        | nil => exact ⟨([],[]),by simp [cuts]⟩
        | cons d ds => exact ⟨([],d :: ds),by simp [cuts]⟩
      obtain ⟨cut,member⟩ := shortest
      have none_left := List.find?_eq_none.mp unmatched ⟨[],c :: cut.1,cut.2⟩
      refine absurd (none_left ?_) (by simp)
      simp only [many1,attempts,known,if_true,List.flatMap_cons,List.flatMap_nil,List.append_nil,List.nil_append,List.mem_map]
      have mapped := List.mem_map_of_mem (f := fun cut : List Char × List Char => (⟨[],cut.1,cut.2⟩ : Found)) (List.mem_reverse.mp member)
      exact ⟨⟨[],cut.1,cut.2⟩,List.mem_reverse.mpr mapped,rfl⟩

end Regex
end Lumilake
